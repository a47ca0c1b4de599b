import Reconcile.Proofs.Compare.Calls

/-!
# Closure of helpers

Calls that share a queue and all succeed write each helper that they call exactly once
(`definitions_closed`). The invariant behind this says that the texts written so far define
exactly the helpers that were ever asked for, in the order of the requests, and that nothing is
pending between two calls (`Closed`).
-/

namespace Reconcile.Equality

/-- The code of the calls that gave code. -/
def written (results : List (Except CompareError EqualityCode)) : List EqualityCode :=
  results.filterMap Except.toOption

@[simp]
theorem written_ok (code : EqualityCode) (rest : List (Except CompareError EqualityCode)) :
    written (.ok code :: rest) = code :: written rest := rfl

@[simp]
theorem written_error (error : CompareError) (rest : List (Except CompareError EqualityCode)) :
    written (.error error :: rest) = written rest := rfl

theorem mem_written {code : EqualityCode} {results : List (Except CompareError EqualityCode)} :
    code ∈ written results ↔ .ok code ∈ results := by
  induction results with
  | nil => simp [written]
  | cons result rest ih => cases result <;> simp [ih]

/-- The functions that the helper texts define, in order. -/
def definitions (codes : List EqualityCode) : List String :=
  codes.flatMap (fun code => Line.definitionsIn code.helpers)

/-- The helpers that the texts of some code call or declare. -/
def called (code : EqualityCode) : List String :=
  Line.calledIn code.body ++ Line.calledIn code.helpers

/-- The name of the helper function for a shape name. -/
def helperFor (name : String) : String :=
  "equal" ++ name

theorem helperFor_injective {left right : String} (same : helperFor left = helperFor right) :
    left = right := by
  exact (String.append_right_inj "equal").mp same

theorem nodup_helperFor {names : List String} (distinct : names.Nodup) :
    (names.map helperFor).Nodup := by
  refine List.Pairwise.map helperFor ?_ distinct
  intro left right different same
  exact different (helperFor_injective same)

/--
Whether texts define what was asked for and nothing is pending. What a text calls is defined
once by it and those before it.
-/
structure Closed (codes : List EqualityCode) (queue : HelperQueue) : Prop where
  valid : queue.Valid
  pending : queue.pending = []
  defines : definitions codes = queue.requested.map helperFor
  once : ∀ earlier code later, codes = earlier ++ code :: later → ∀ helper ∈ called code,
    (definitions (earlier ++ [code])).count helper = 1

theorem definitions_append (left right : List EqualityCode) :
    definitions (left ++ right) = definitions left ++ definitions right :=
  List.flatMap_append

namespace Closed

variable {codes : List EqualityCode} {queue after : HelperQueue}

theorem empty : Closed [] .empty where
  valid := HelperQueue.valid_empty
  pending := rfl
  defines := rfl
  once := by simp

theorem nodup (closed : Closed codes queue) : (definitions codes).Nodup := by
  rw [closed.defines]
  exact nodup_helperFor closed.valid.distinct

theorem length (closed : Closed codes queue) : queue.size = (definitions codes).length := by
  rw [closed.defines, List.length_map, HelperQueue.size]

theorem call {call : Call} {code : EqualityCode} (closed : Closed codes queue)
    (named : call.IsNamed (Shape.Named call.normalizer Text.IsWord Text.IsWord))
    (run : call.run queue = (.ok code, after)) : Closed (codes ++ [code]) after := by
  rcases Call.succeeds_of_run run with ⟨checks, added, helpers, succeeds⟩
  have inherited := Shape.inherited_named call.normalizer Text.IsWord
  have nonePending : ∀ shape ∈ queue.pending,
      shape.IsPlain (Shape.Named call.normalizer Text.IsWord Text.IsWord) := by
    simp [closed.pending]
  have planned := succeeds.plainHelpers inherited (fun _ plain => plain.named) named nonePending
  have taken := succeeds.taken closed.pending
  have defines : definitions (codes ++ [code]) = after.requested.map helperFor := by
    have ofCode : Line.definitionsIn code.helpers = (added.map Shape.name).map helperFor := by
      rw [succeeds.definitionsIn planned, ← taken, List.map_map, List.map_map]
      rfl
    rw [definitions_append, closed.defines, succeeds.advances.requested, List.map_append, ← ofCode]
    simp [definitions]
  have valid := succeeds.advances.valid closed.valid
  have distinct : (definitions (codes ++ [code])).Nodup := by
    rw [defines]
    exact nodup_helperFor valid.distinct
  refine ⟨valid, succeeds.pending, defines, ?_⟩
  intro earlier other later split helper isCalled
  rcases List.eq_nil_or_concat later with rfl | ⟨front, last, rfl⟩
  · have same := List.append_inj' split rfl
    rcases same with ⟨rfl, same⟩
    rcases List.cons_eq_cons.mp same with ⟨rfl, _⟩
    rcases succeeds.requested_of_called planned named closed.valid isCalled with
      ⟨shape, isRequested, rfl⟩
    rw [distinct.count, if_pos]
    rw [defines]
    exact List.mem_map_of_mem isRequested
  · have same : codes ++ [code] = (earlier ++ other :: front) ++ [last] := by
      rw [split]
      simp
    exact closed.once earlier other front (List.append_inj' same rfl).1 helper isCalled

theorem runAll {calls : List Call} (closed : Closed codes queue)
    (named : ∀ call ∈ calls, call.IsNamed (Shape.Named call.normalizer Text.IsWord Text.IsWord))
    (succeed : ∀ result ∈ (Call.runAll calls queue).1, result.isOk = true) :
    Closed (codes ++ written (Call.runAll calls queue).1) (Call.runAll calls queue).2 := by
  induction calls generalizing codes queue with
  | nil => simpa [Call.runAll, written] using closed
  | cons call rest ih =>
      have restNamed := fun other inRest => named other (List.mem_cons_of_mem _ inRest)
      cases run : call.run queue with
      | mk result between =>
          simp only [Call.runAll, run] at succeed ⊢
          cases result with
          | error error => simp [Except.isOk, Except.toBool] at succeed
          | ok code =>
              have next := closed.call (named call List.mem_cons_self) run
              have later := ih next restNamed
                (fun result inRest => succeed result (List.mem_cons_of_mem _ inRest))
              simpa using later

end Closed

theorem runAll_append (left right : List Call) (queue : HelperQueue) :
    (Call.runAll (left ++ right) queue).1 =
      (Call.runAll left queue).1 ++ (Call.runAll right (Call.runAll left queue).2).1 := by
  induction left generalizing queue with
  | nil => rfl
  | cons call rest ih => simp [Call.runAll, ih]

/--
Calls share a queue that was empty at first, and all of them succeed. After each call no helper
is pending and the queue counts the definitions that were written. No function is defined
twice, and what a text calls is defined exactly once by it and the texts before it.
-/
theorem definitions_closed (calls : List Call)
    (named : ∀ call ∈ calls, call.IsNamed (Shape.Named call.normalizer Text.IsWord Text.IsWord))
    (succeed : ∀ result ∈ (Call.runAll calls .empty).1, result.isOk = true) :
    (∀ earlier, earlier <+: calls →
      (Call.runAll earlier .empty).2.pending = [] ∧
        (Call.runAll earlier .empty).2.size =
          (definitions (written (Call.runAll earlier .empty).1)).length) ∧
      (definitions (written (Call.runAll calls .empty).1)).Nodup ∧
        ∀ earlier code later, written (Call.runAll calls .empty).1 = earlier ++ code :: later →
          ∀ helper ∈ called code, (definitions (earlier ++ [code])).count helper = 1 := by
  have all := Closed.empty.runAll named succeed
  rw [List.nil_append] at all
  refine ⟨?_, all.nodup, all.once⟩
  rintro earlier ⟨later, rfl⟩
  have closed := Closed.empty.runAll
    (fun call inEarlier => named call (List.mem_append_left _ inEarlier))
    (fun result inEarlier => succeed result (by
      rw [runAll_append]
      exact List.mem_append_left _ inEarlier))
  rw [List.nil_append] at closed
  exact ⟨closed.pending, closed.length⟩

/-- Two calls that compare the same shape define its helper once. -/
theorem definitions_closed_twice :
    let item : Shape := .struct "Item" [("Name", Shape.scalarOf .string)]
    let outer : Shape := .struct "Outer" [("Items", .sequence "ItemList" item)]
    let call : Call := ⟨.shape outer, .default, "a.ko", "b.ko", 1⟩
    (∀ result ∈ (Call.runAll [call, call] .empty).1, result.isOk = true) ∧
      (definitions (written (Call.runAll [call, call] .empty).1)).Nodup ∧
        1 = (definitions (written (Call.runAll [call, call] .empty).1)).length := by
  intro item outer call
  have outerNamed : outer.Named .default Text.IsWord Text.IsWord := by decide +kernel
  have named : ∀ other ∈ [call, call],
      other.IsNamed (Shape.Named other.normalizer Text.IsWord Text.IsWord) := by
    intro other membership
    have same : other = call := by simpa using membership
    rw [same]
    exact ⟨by decide, by decide, outerNamed⟩
  have succeed : ∀ result ∈ (Call.runAll [call, call] .empty).1, result.isOk = true := by
    decide +kernel
  have size : (Call.runAll [call, call] .empty).2.size = 1 := by
    decide +kernel
  rcases definitions_closed [call, call] named succeed with ⟨each, distinct, _⟩
  exact ⟨succeed, distinct, size ▸ (each [call, call] (List.prefix_refl _)).2⟩

end Reconcile.Equality
