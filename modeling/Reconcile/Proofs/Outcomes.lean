import Mathlib.Data.List.Forall2

/-!
# Outcomes of computations

What is known of the steps of a computation once it has given a value, and which error it gives
otherwise.
-/

namespace Reconcile.Outcome

variable {ε α β : Type}

/-- A computation that gives a value gave one to each of its steps. -/
theorem of_bind_eq_ok {first : Except ε α} {next : α → Except ε β} {result : β}
    (done : first >>= next = .ok result) :
    ∃ value, first = .ok value ∧ next value = .ok result := by
  cases first with
  | error error => simp [bind, Except.bind] at done
  | ok value => exact ⟨value, rfl, done⟩

/-- A computation that gives a value does so without its errors reworded. -/
theorem of_mapError_eq_ok {δ : Type} {first : Except ε α} {reword : ε → δ} {value : α}
    (done : first.mapError reword = .ok value) : first = .ok value := by
  cases first with
  | error error => cases done
  | ok other =>
      cases done
      rfl

theorem of_mem_toOption {done : Except ε α} {value : α} (membership : value ∈ done.toOption) :
    done = .ok value := by
  cases done with
  | error error => exact absurd membership (Option.not_mem_none value)
  | ok other => exact congrArg Except.ok (Option.mem_some.mp membership)

/-! ### Errors -/

/-- The error of a computation, if it gives one. -/
def error? : Except ε α → Option ε
  | .error error => some error
  | .ok _ => none

theorem error?_eq_some {done : Except ε α} {error : ε} :
    error? done = some error ↔ done = .error error := by
  cases done <;> simp [error?]

/-- A last step that gives a value adds no error. -/
theorem error?_bind_pure (first : Except ε α) (next : α → β) :
    error? (first >>= fun value => pure (next value)) = error? first := by
  cases first <;> rfl

/-- The error of computations one after the other is that of the first one that gives one. -/
theorem error?_mapM (compute : α → Except ε β) (items : List α) :
    error? (items.mapM compute) = items.findSome? (fun item => error? (compute item)) := by
  induction items with
  | nil => rfl
  | cons item rest ih =>
      rw [List.mapM_cons, List.findSome?_cons, ← ih]
      cases compute item with
      | error error => rfl
      | ok value => exact error?_bind_pure _ (value :: ·)

theorem error?_eq_none {done : Except ε α} : error? done = none ↔ ∃ value, done = .ok value := by
  cases done <;> simp [error?]

/-- Computations one after the other give an error if all before some one give values. -/
theorem mapM_eq_error {compute : α → Except ε β} {items : List α} {error : ε} :
    items.mapM compute = .error error ↔ ∃ front item back, items = front ++ item :: back ∧
      (∀ earlier ∈ front, ∃ value, compute earlier = .ok value) ∧ compute item = .error error := by
  rw [← error?_eq_some, error?_mapM, List.findSome?_eq_some_iff]
  simp only [error?_eq_some, error?_eq_none, and_comm]

theorem exists_mapM_eq_ok {compute : α → Except ε β} {items : List α} :
    (∃ values, items.mapM compute = .ok values) ↔
      ∀ item ∈ items, ∃ value, compute item = .ok value := by
  rw [← error?_eq_none, error?_mapM, List.findSome?_eq_none_iff]
  simp only [error?_eq_none]

/-- Computations that all give a value give these values in order. -/
theorem forall₂_of_mapM_eq_ok {compute : α → Except ε β} {items : List α} {values : List β}
    (done : items.mapM compute = .ok values) :
    List.Forall₂ (fun item value => compute item = .ok value) items values := by
  induction items generalizing values with
  | nil =>
      cases done
      exact .nil
  | cons item rest ih =>
      rw [List.mapM_cons] at done
      rcases of_bind_eq_ok done with ⟨value, first, done⟩
      rcases of_bind_eq_ok done with ⟨others, later, made⟩
      cases made
      exact .cons first (ih later)

/-- Computations that are known to give values give them one after the other. -/
theorem mapM_eq_ok_map {compute : α → Except ε β} {value : α → β} {items : List α}
    (gives : ∀ item ∈ items, compute item = .ok (value item)) :
    items.mapM compute = .ok (items.map value) := by
  induction items with
  | nil => rfl
  | cons item rest ih =>
      rw [List.mapM_cons, gives item List.mem_cons_self,
        ih (fun other inRest => gives other (List.mem_cons_of_mem _ inRest))]
      rfl

end Reconcile.Outcome
