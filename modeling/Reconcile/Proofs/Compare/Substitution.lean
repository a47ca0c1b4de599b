import Reconcile.Compare.Equality.Basic
import Reconcile.Proofs.Compare.Roles

/-!
# Substitution of shapes

Of the shapes in planned checks only the names and types are written. So shapes can be substituted
for others that are named and typed alike without a change of what is written
(`Equality.write_map`).
-/

namespace Reconcile

variable {change : Shape → Shape}

/-- Whether a change of shapes keeps their names. -/
def Shape.KeepsNames (change : Shape → Shape) : Prop :=
  ∀ shape, (change shape).name = shape.name

/-- Whether a change of shapes keeps their types. -/
def Shape.KeepsTypes (change : Shape → Shape) : Prop :=
  ∀ shape, (change shape).goType = shape.goType

/-- The test with its shape changed. -/
def Test.map (change : Shape → Shape) : Test → Test
  | .helper shape => .helper (change shape)
  | test => test

theorem Test.condition_map (names : Shape.KeepsNames change) (test : Test) (site : Site) :
    (test.map change).condition site = test.condition site := by
  cases test with
  | helper shape =>
      rw [map, condition_helper, condition_helper, Shape.helperName, Shape.helperName, names shape]
  | scalar kind => rw [map]; simp
  | whole => rw [map]; simp
  | length => rw [map]; simp
  | textList => rw [map]; simp
  | textMap => rw [map]; simp

/-- The demand with its shape changed. -/
def Demand.map (change : Shape → Shape) : Demand → Demand
  | .helper shape => .helper (change shape)
  | .keyKind path key => .keyKind path key

theorem Demand.unmet?_map (demands : List Demand) :
    unmet? (demands.map (Demand.map change)) = unmet? demands := by
  induction demands with
  | nil => rfl
  | cons demand rest ih =>
      cases demand with
      | helper shape => exact ih
      | keyKind path key => rfl

namespace Check

mutual

/-- The check with all shapes changed. -/
def map (change : Shape → Shape) : Check → Check
  | .present site inside => .present site (mapOf change inside)
  | .unequal site test => .unequal site (test.map change)
  | .tags site => .tags site
  | .sized site inside => .sized site (mapOf change inside)
  | .keys site => .keys site
  | .eachIndex site inside => .eachIndex site (mapOf change inside)
  | .eachEntry site inside => .eachEntry site (mapOf change inside)
  | .todo what => .todo what
  | .remark text inside => .remark text (mapOf change inside)
  | .rejected path key => .rejected path key

/-- The checks with all shapes changed. -/
def mapOf (change : Shape → Shape) : List Check → List Check
  | [] => []
  | check :: rest => check.map change :: mapOf change rest

end

theorem mapOf_eq (checks : List Check) : mapOf change checks = checks.map (map change) := by
  induction checks with
  | nil => rw [mapOf, List.map_nil]
  | cons check rest ih => rw [mapOf, ih, List.map_cons]

theorem mapOf_flatMap {α : Type} (items : List α) (checks : α → List Check) :
    mapOf change (items.flatMap checks) =
      items.flatMap (fun item => mapOf change (checks item)) := by
  simp only [mapOf_eq, List.map_flatMap]

theorem mapOf_guarded {shape other : Shape} (same : other.isNullable = shape.isNullable)
    (site : Site) (inside : List Check) :
    mapOf change (guarded shape site inside) = guarded other site (mapOf change inside) := by
  unfold guarded
  rw [same]
  split
  · rw [mapOf, mapOf, map]
  · rfl

mutual

/-- The code of a check does not show more of shapes than their names. -/
theorem code_map (names : Shape.KeepsNames change) (action : Site → String) :
    (check : Check) → (check.map change).code action = check.code action
  | .present site inside => by rw [map, code, code, codeOf_mapOf names action inside]
  | .unequal site test => by rw [map, code, code, test.condition_map names]
  | .tags site => by rw [map]
  | .sized site inside => by rw [map, code, code, codeOf_mapOf names action inside]
  | .keys site => by rw [map]
  | .eachIndex site inside => by rw [map, code, code, codeOf_mapOf names action inside]
  | .eachEntry site inside => by rw [map, code, code, codeOf_mapOf names action inside]
  | .todo what => by rw [map]
  | .remark text inside => by rw [map, code, code, codeOf_mapOf names action inside]
  | .rejected path key => by rw [map]

theorem codeOf_mapOf (names : Shape.KeepsNames change) (action : Site → String) :
    (checks : List Check) → codeOf action (mapOf change checks) = codeOf action checks
  | [] => by rw [mapOf]
  | check :: rest => by
      rw [mapOf, codeOf, codeOf, code_map names action check, codeOf_mapOf names action rest]

end

mutual

theorem demands_map :
    (check : Check) → (check.map change).demands = check.demands.map (Demand.map change)
  | .present site inside => by rw [map, demands, demands, demandsOf_mapOf inside]
  | .unequal site test => by cases test <;> rfl
  | .tags site => rfl
  | .sized site inside => by rw [map, demands, demands, demandsOf_mapOf inside]
  | .keys site => rfl
  | .eachIndex site inside => by rw [map, demands, demands, demandsOf_mapOf inside]
  | .eachEntry site inside => by rw [map, demands, demands, demandsOf_mapOf inside]
  | .todo what => rfl
  | .remark text inside => by rw [map, demands, demands, demandsOf_mapOf inside]
  | .rejected path key => rfl

theorem demandsOf_mapOf : (checks : List Check) →
    demandsOf (mapOf change checks) = (demandsOf checks).map (Demand.map change)
  | [] => rfl
  | check :: rest => by
      rw [mapOf, demandsOf, demandsOf, demands_map check, demandsOf_mapOf rest, List.map_append]

end

end Check

namespace HelperQueue

/-- The queue with all shapes changed. -/
def map (change : Shape → Shape) (queue : HelperQueue) : HelperQueue :=
  ⟨queue.requested, queue.pending.map change⟩

theorem request_map (names : Shape.KeepsNames change) (queue : HelperQueue) (shape : Shape) :
    (queue.map change).request (change shape) = (queue.request shape).map change := by
  have same : (queue.map change).contains shape.name = queue.contains shape.name := rfl
  rw [request, request, names shape, same]
  split
  · rfl
  · simp [map]

theorem meet_map (names : Shape.KeepsNames change) (queue : HelperQueue) (demands : List Demand) :
    (queue.map change).meet (demands.map (Demand.map change)) =
      ((queue.meet demands).1, (queue.meet demands).2.map change) := by
  induction demands generalizing queue with
  | nil => rfl
  | cons demand rest ih =>
      cases demand with
      | helper shape =>
          rw [List.map_cons, Demand.map, meet, meet, request_map names, ih]
      | keyKind path key => rfl

theorem next?_map (queue : HelperQueue) :
    (queue.map change).next? = queue.next?.map (Prod.map change (map change)) := by
  rcases queue with ⟨requested, pending⟩
  cases pending <;> rfl

end HelperQueue

namespace Equality

variable {normalizer : Normalizer}

/-- The helper with all shapes changed. -/
def Helper.map (change : Shape → Shape) (helper : Helper) : Helper :=
  ⟨change helper.shape, Check.mapOf change helper.checks⟩

theorem Helper.code_map (names : Shape.KeepsNames change) (types : Shape.KeepsTypes change)
    (helper : Helper) : (helper.map change).code = helper.code := by
  rw [code, code, map, Check.codeOf_mapOf names, Shape.helperName, Shape.helperName,
    names helper.shape, types helper.shape]

/-- Whether helpers of changed shapes are helpers with their shapes changed. -/
def Respects (normalizer : Normalizer) (change : Shape → Shape) : Prop :=
  ∀ shape, Helper.ofShape normalizer (change shape) = (Helper.ofShape normalizer shape).map change

theorem writeHelpers_of_none {queue : HelperQueue} (empty : queue.next? = none) :
    writeHelpers normalizer queue = (.ok [], queue) := by
  rw [writeHelpers]
  split
  · rfl
  · rename_i taken
    rw [empty] at taken
    cases taken

/-- One turn of writing helpers. -/
theorem writeHelpers_of_some {queue rest : HelperQueue} {shape : Shape}
    (taken : queue.next? = some (shape, rest)) :
    writeHelpers normalizer queue =
      match rest.meet (Check.demandsOf (Helper.ofShape normalizer shape).checks) with
      | (.error error, between) => (.error error, between)
      | (.ok _, between) =>
        match writeHelpers normalizer between with
        | (.error error, after) => (.error error, after)
        | (.ok helpers, after) => (.ok (Helper.ofShape normalizer shape :: helpers), after) := by
  rw [writeHelpers]
  split
  · rename_i empty
    rw [taken] at empty
    cases empty
  · rename_i other otherRest otherTaken
    rw [taken] at otherTaken
    cases otherTaken
    dsimp only
    generalize rest.meet (Check.demandsOf (Helper.ofShape normalizer shape).checks) = outcome
    rcases outcome with ⟨error | done, between⟩
    · rfl
    · rfl

/-- Helpers are written in the same way whatever their shapes are changed to. -/
theorem writeHelpers_map (names : Shape.KeepsNames change) (respects : Respects normalizer change)
    (queue : HelperQueue) :
    writeHelpers normalizer (queue.map change) =
      ((writeHelpers normalizer queue).1.map (List.map (Helper.map change)),
        (writeHelpers normalizer queue).2.map change) := by
  have turn : ∀ {queue rest : HelperQueue} {shape : Shape}, queue.next? = some (shape, rest) →
      (queue.map change).next? = some (change shape, rest.map change) := by
    intro queue rest shape taken
    rw [HelperQueue.next?_map, taken]
    rfl
  have meeting : ∀ (rest : HelperQueue) (shape : Shape),
      (rest.map change).meet (Check.demandsOf (Helper.ofShape normalizer (change shape)).checks) =
        ((rest.meet (Check.demandsOf (Helper.ofShape normalizer shape).checks)).1,
          (rest.meet (Check.demandsOf (Helper.ofShape normalizer shape).checks)).2.map change) := by
    intro rest shape
    rw [respects, Helper.map, Check.demandsOf_mapOf, HelperQueue.meet_map names]
  -- By induction on turns, since each turn of the changed queue is that of the queue, changed.
  fun_induction writeHelpers normalizer queue with
  | case1 queue empty =>
      apply writeHelpers_of_none
      rw [HelperQueue.next?_map, empty]
      rfl
  | case2 queue shape rest taken helper error between met =>
      rw [writeHelpers_of_some (turn taken), meeting, met]
      rfl
  | case3 queue shape rest taken helper done between met error later failed ih =>
      rw [writeHelpers_of_some (turn taken), meeting, met]
      simp only [ih, failed]
      rfl
  | case4 queue shape rest taken helper done between met others later succeeded ih =>
      rw [writeHelpers_of_some (turn taken), meeting, met]
      simp only [ih, succeeded, Except.map, List.map_cons]
      rw [respects]

/-- What is written does not show more of shapes than their names and types. -/
theorem write_map (names : Shape.KeepsNames change) (types : Shape.KeepsTypes change)
    (respects : Respects normalizer change) (checks : List Check) (level : Nat)
    (queue : HelperQueue) :
    write normalizer (Check.mapOf change checks) level (queue.map change) =
      ((write normalizer checks level queue).1,
        (write normalizer checks level queue).2.map change) := by
  have texts : ∀ helpers : List Helper,
      helpersText (helpers.map (Helper.map change)) = helpersText helpers := by
    intro helpers
    simp only [helpersText, List.map_map, Function.comp_def, Helper.code_map names types]
  rw [write, write, Check.demandsOf_mapOf, HelperQueue.meet_map names]
  rcases queue.meet (Check.demandsOf checks) with ⟨result, between⟩
  cases result with
  | error error => rfl
  | ok done =>
      dsimp only
      rw [writeHelpers_map names respects]
      rcases writeHelpers normalizer between with ⟨helpers, after⟩
      cases helpers with
      | error error => rfl
      | ok helpers => simp only [Except.map, texts, Check.codeOf_mapOf names]

end Equality

end Reconcile
