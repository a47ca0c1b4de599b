import Reconcile.Proofs.Compare.Asking
import Reconcile.Proofs.Compare.Closure
import Reconcile.Proofs.Compare.Reordering

/-!
# Calls in another order

Which of the calls that share a queue writes a helper depends on the calls before it. Which
helpers are written by all of them together does not: they are those that the calls ask for, and
those that written helpers ask for in turn (`Completed`). So calls that are put in another order
write the same functions (`written_eq_of_perm`).
-/

namespace Reconcile

theorem Demand.shapes_map {change : Shape → Shape} (demands : List Demand) :
    shapes (demands.map (Demand.map change)) = (shapes demands).map change := by
  induction demands with
  | nil => rfl
  | cons demand rest ih =>
      cases demand with
      | helper shape => exact congrArg (List.cons (change shape)) ih
      | keyKind path key => exact ih

namespace Equality

/-! ### Helpers of structures that look the same -/

section

variable {normalizer : Normalizer} {left right : Shape}

/-- The text of the helper function of a shape. -/
def helperText (normalizer : Normalizer) (shape : Shape) : String :=
  Code.render [(Helper.ofShape normalizer shape).code] 0

/-- Structures that look the same to comparisons have the same helper function. -/
theorem helperText_eq_of_canonical (same : left.canonical = right.canonical) :
    helperText normalizer left = helperText normalizer right := by
  have seen : ∀ shape, helperText normalizer shape.canonical = helperText normalizer shape := by
    intro shape
    rw [helperText, helperText, respects_canonical,
      Helper.code_map Shape.name_canonical Shape.goType_canonical]
  rw [← seen left, ← seen right, same]

/-- Structures that look the same to comparisons ask for helpers of the same names. -/
theorem names_asked_eq_of_canonical (same : left.canonical = right.canonical) :
    (Helper.ofShape normalizer left).asked.map Shape.name =
      (Helper.ofShape normalizer right).asked.map Shape.name := by
  have seen : ∀ shape : Shape, (Helper.ofShape normalizer shape.canonical).asked.map Shape.name =
      (Helper.ofShape normalizer shape).asked.map Shape.name := by
    intro shape
    have names : Shape.name ∘ Shape.canonical = Shape.name := funext Shape.name_canonical
    rw [Helper.asked, respects_canonical, Helper.map, Check.demandsOf_mapOf, Demand.shapes_map,
      List.map_map, names, Helper.asked]
  rw [← seen left, ← seen right, same]

end

/-! ### What calls hold -/

/-- Whether a structure stands directly in a collection of what a call compares. -/
def Call.Holds (call : Call) (part : Shape) : Prop :=
  match call.subject with
  | .resource resource => resource.Holds part
  | .shape shape => shape.Holds part

/-- Whether a structure stands directly in a collection of what some call compares. -/
def Held (calls : List Call) (part : Shape) : Prop :=
  ∃ call ∈ calls, call.Holds part

theorem Call.asks_holds (call : Call) : call.Asks call.Holds := by
  intro checks planned part demanded
  have isDemanded := Demand.mem_shapes.mp demanded
  rcases call with ⟨subject, normalizer, first, second, level⟩
  cases subject with
  | resource resource =>
      rcases Outcome.of_bind_eq_ok planned with ⟨tag, _, made⟩
      cases made
      exact holds_of_demanded_resource isDemanded
  | shape shape =>
      cases planned
      exact holds_of_demanded shape _ isDemanded

theorem Call.passedOn_holds (call : Call) (normalizer : Normalizer) :
    PassedOn normalizer call.Holds := by
  rcases call with ⟨subject, _, _, _, _⟩
  cases subject with
  | resource resource => exact passedOn_resourceHolds resource
  | shape shape => exact Equality.passedOn_holds shape

theorem passedOn_held (calls : List Call) (normalizer : Normalizer) :
    PassedOn normalizer (Held calls) := by
  rintro shape ⟨call, listed, holds⟩ inner isAsked
  exact ⟨call, listed, call.passedOn_holds normalizer shape holds inner isAsked⟩

/-! ### Runs in which all calls succeed -/

/-- The body that a call writes if it succeeds. -/
def Call.body (call : Call) : String :=
  match call.checks with
  | .ok checks => Code.renderBehindBlank (Check.codeOf action checks) call.level
  | .error _ => ""

/--
What calls with one normalizer have done that all succeeded: the queue knows exactly the shapes
whose helpers were written, among them all that the calls and the written helpers ask for, and
none that is not asked for in this way.
-/
structure Completed (normalizer : Normalizer) (calls : List Call) (codes : List EqualityCode)
    (shapes : List (List Shape)) (queue : HelperQueue) : Prop where
  valid : queue.Valid
  pending : queue.pending = []
  requested : queue.requested = shapes.flatten.map Shape.name
  bodies : codes.map EqualityCode.body = calls.map Call.body
  texts : codes.map EqualityCode.helpers =
    shapes.map (fun written => "\n".intercalate (written.map (helperText normalizer)))
  demanded : ∀ call ∈ calls, call.Asks (fun shape => shape.name ∈ queue.requested)
  asked : ∀ shape ∈ shapes.flatten, ∀ inner ∈ (Helper.ofShape normalizer shape).asked,
    inner.name ∈ queue.requested
  passed : ∀ property, PassedOn normalizer property → (∀ call ∈ calls, call.Asks property) →
    ∀ shape ∈ shapes.flatten, property shape

namespace Completed

variable {normalizer : Normalizer} {calls : List Call} {codes : List EqualityCode}
  {shapes : List (List Shape)} {queue after : HelperQueue}

theorem empty (normalizer : Normalizer) : Completed normalizer [] [] [] .empty where
  valid := HelperQueue.valid_empty
  pending := rfl
  requested := rfl
  bodies := rfl
  texts := rfl
  demanded := by simp
  asked := by simp
  passed := by simp

theorem call {call : Call} {code : EqualityCode}
    (completed : Completed normalizer calls codes shapes queue)
    (shared : call.normalizer = normalizer) (run : call.run queue = (.ok code, after)) :
    ∃ added, Completed normalizer (calls ++ [call]) (codes ++ [code]) (shapes ++ [added])
      after := by
  subst shared
  rcases Call.succeeds_of_run run with ⟨checks, added, helpers, succeeds⟩
  have taken := succeeds.taken completed.pending
  have isWritten : ∀ shape ∈ added, Helper.ofShape call.normalizer shape ∈ helpers := by
    intro shape inAdded
    rw [← taken] at inAdded
    rcases List.mem_map.mp inAdded with ⟨helper, membership, rfl⟩
    rw [← succeeds.ofShape helper membership]
    exact membership
  have grows : queue.requested ⊆ after.requested := by
    rw [succeeds.advances.requested]
    exact List.subset_append_left _ _
  have flat : (shapes ++ [added]).flatten = shapes.flatten ++ added := by
    simp
  refine ⟨added, {
    valid := succeeds.advances.valid completed.valid
    pending := succeeds.pending
    requested := ?_
    bodies := ?_
    texts := ?_
    demanded := ?_
    asked := ?_
    passed := ?_ }⟩
  · rw [succeeds.advances.requested, completed.requested, flat, List.map_append]
  · have body : code.body = call.body := by
      rw [succeeds.body, Call.body, succeeds.planned]
    simp [completed.bodies, body]
  · have text : code.helpers =
        "\n".intercalate (added.map (helperText call.normalizer)) := by
      rw [succeeds.text, helpersText, ← taken, List.map_map]
      congr 1
      apply List.map_congr_left
      intro helper membership
      rw [Function.comp_apply, helperText, ← succeeds.ofShape helper membership]
    simp [completed.texts, text]
  · intro other listed checks' planned shape isDemanded
    rcases List.mem_append.mp listed with isEarlier | isLast
    · exact grows (completed.demanded other isEarlier checks' planned shape isDemanded)
    · rw [List.mem_singleton] at isLast
      subst isLast
      cases succeeds.planned.symm.trans planned
      exact succeeds.known shape (Or.inl isDemanded)
  · intro shape listed inner isAsked
    rw [flat] at listed
    rcases List.mem_append.mp listed with isEarlier | inAdded
    · exact grows (completed.asked shape isEarlier inner isAsked)
    · exact succeeds.known inner (Or.inr ⟨_, isWritten shape inAdded, isAsked⟩)
  · intro property passes asks shape listed
    rw [flat] at listed
    rcases List.mem_append.mp listed with isEarlier | inAdded
    · exact completed.passed property passes
        (fun other inCalls => asks other (List.mem_append_left _ inCalls)) shape isEarlier
    · have own := asks call (List.mem_append_right _ List.mem_cons_self)
      exact succeeds.passed property passes own (by simp [completed.pending]) shape inAdded

theorem runAll {later : List Call} (completed : Completed normalizer calls codes shapes queue)
    (shared : ∀ call ∈ later, call.normalizer = normalizer)
    (succeed : ∀ result ∈ (Call.runAll later queue).1, result.isOk = true) :
    ∃ all, Completed normalizer (calls ++ later) (codes ++ written (Call.runAll later queue).1) all
      (Call.runAll later queue).2 := by
  induction later generalizing calls codes shapes queue with
  | nil => exact ⟨shapes, by simpa [Call.runAll, written] using completed⟩
  | cons call rest ih =>
      have restShared := fun other inRest => shared other (List.mem_cons_of_mem _ inRest)
      cases run : call.run queue with
      | mk result between =>
          simp only [Call.runAll, run] at succeed ⊢
          cases result with
          | error error => simp [Except.isOk, Except.toBool] at succeed
          | ok code =>
              rcases completed.call (shared call List.mem_cons_self) run with ⟨added, next⟩
              rcases ih next restShared
                (fun result inRest => succeed result (List.mem_cons_of_mem _ inRest)) with
                ⟨all, last⟩
              exact ⟨all, by simpa using last⟩

/-- All that was written is held by what the calls compare. -/
theorem held (completed : Completed normalizer calls codes shapes queue) :
    ∀ shape ∈ shapes.flatten, Held calls shape :=
  completed.passed (Held calls) (passedOn_held calls normalizer)
    (fun call listed checks planned shape demanded =>
      ⟨call, listed, call.asks_holds checks planned shape demanded⟩)

end Completed

/-! ### Two runs of the same calls -/

section

variable {normalizer : Normalizer} {calls others : List Call} {codes otherCodes : List EqualityCode}
  {shapes otherShapes : List (List Shape)} {queue otherQueue : HelperQueue}

/-- Whether structures of one name that calls hold look the same to comparisons. -/
def NamesDecide (calls : List Call) : Prop :=
  ∀ left right, Held calls left → Held calls right → left.name = right.name →
    left.canonical = right.canonical

theorem held_iff_of_perm (perm : calls.Perm others) (part : Shape) :
    Held calls part ↔ Held others part := by
  simp only [Held, perm.mem_iff]

theorem NamesDecide.of_perm (decides : NamesDecide calls) (perm : calls.Perm others) :
    NamesDecide others := by
  intro left right holdsLeft holdsRight
  rw [← held_iff_of_perm perm] at holdsLeft holdsRight
  exact decides left right holdsLeft holdsRight

/-- What one run wrote was asked for in the other run. -/
theorem Completed.requested_in_other (run : Completed normalizer calls codes shapes queue)
    (other : Completed normalizer others otherCodes otherShapes otherQueue)
    (decides : NamesDecide others) (subset : calls ⊆ others) :
    ∀ shape ∈ shapes.flatten, Held others shape ∧ shape.name ∈ otherQueue.requested := by
  apply run.passed (fun shape => Held others shape ∧ shape.name ∈ otherQueue.requested)
  · rintro shape ⟨holds, isRequested⟩ inner isAsked
    refine ⟨passedOn_held others normalizer shape holds inner isAsked, ?_⟩
    rw [other.requested] at isRequested
    rcases List.mem_map.mp isRequested with ⟨twin, isWritten, sameName⟩
    -- The other run wrote a structure of this name, which asks for the same names.
    have same := decides twin shape (other.held twin isWritten) holds sameName
    have named : inner.name ∈ (Helper.ofShape normalizer twin).asked.map Shape.name := by
      rw [names_asked_eq_of_canonical same]
      exact List.mem_map_of_mem isAsked
    rcases List.mem_map.mp named with ⟨twinInner, twinAsked, twinName⟩
    rw [← twinName]
    exact other.asked twin isWritten twinInner twinAsked
  · intro call listed checks planned shape demanded
    exact ⟨⟨call, subset listed, call.asks_holds checks planned shape demanded⟩,
      other.demanded call (subset listed) checks planned shape demanded⟩

theorem Completed.nodup (run : Completed normalizer calls codes shapes queue) :
    (shapes.flatten.map Shape.name).Nodup := by
  rw [← run.requested]
  exact run.valid.distinct

theorem Completed.names_subset (run : Completed normalizer calls codes shapes queue)
    (other : Completed normalizer others otherCodes otherShapes otherQueue)
    (decides : NamesDecide others) (subset : calls ⊆ others) :
    shapes.flatten.map Shape.name ⊆ otherShapes.flatten.map Shape.name := by
  intro name listed
  rcases List.mem_map.mp listed with ⟨shape, isWritten, rfl⟩
  rw [← other.requested]
  exact (run.requested_in_other other decides subset shape isWritten).2

/-- Both runs wrote the same functions. -/
theorem Completed.texts_perm (run : Completed normalizer calls codes shapes queue)
    (other : Completed normalizer others otherCodes otherShapes otherQueue)
    (decides : NamesDecide calls) (perm : calls.Perm others) :
    (shapes.flatten.map (helperText normalizer)).Perm
      (otherShapes.flatten.map (helperText normalizer)) := by
  have names : (shapes.flatten.map Shape.name).Perm (otherShapes.flatten.map Shape.name) := by
    rw [List.perm_ext_iff_of_nodup run.nodup other.nodup]
    intro name
    exact ⟨fun listed => run.names_subset other (decides.of_perm perm) perm.subset listed,
      fun listed => other.names_subset run decides perm.symm.subset listed⟩
  -- The text of a name is that of the structure of this name in the first run.
  let textOf : String → Option String := fun name =>
    (shapes.flatten.find? (fun shape => shape.name == name)).map (helperText normalizer)
  have textOf_eq : ∀ shape, Held calls shape → shape.name ∈ shapes.flatten.map Shape.name →
      textOf shape.name = some (helperText normalizer shape) := by
    intro shape holds listed
    rcases List.mem_map.mp listed with ⟨twin, isWritten, sameName⟩
    cases found : shapes.flatten.find? (fun other => other.name == shape.name) with
    | none =>
        rw [List.find?_eq_none] at found
        exact absurd (found twin isWritten) (by simpa using sameName)
    | some first =>
        have firstName : first.name = shape.name := by simpa using List.find?_some found
        have same := decides first shape (run.held first (List.mem_of_find?_eq_some found)) holds
          firstName
        simp only [textOf, found, Option.map_some, helperText_eq_of_canonical same]
  have ofRun : (shapes.flatten.map Shape.name).map textOf =
      (shapes.flatten.map (helperText normalizer)).map some := by
    rw [List.map_map, List.map_map]
    apply List.map_congr_left
    intro shape isWritten
    exact textOf_eq shape (run.held shape isWritten) (List.mem_map_of_mem isWritten)
  have ofOther : (otherShapes.flatten.map Shape.name).map textOf =
      (otherShapes.flatten.map (helperText normalizer)).map some := by
    rw [List.map_map, List.map_map]
    apply List.map_congr_left
    intro shape isWritten
    have holds := (held_iff_of_perm perm shape).mpr (other.held shape isWritten)
    have listed := names.mem_iff.mpr (List.mem_map_of_mem isWritten)
    exact textOf_eq shape holds listed
  have images := names.map textOf
  rw [ofRun, ofOther] at images
  exact (List.map_perm_map_iff (Option.some_injective String)).mp images

end

/--
Calls with one normalizer share a queue that was empty at first, and so do these calls in another
order. If all of them succeed both times, and structures of one name in what they compare look the
same, then each call gives the same body both times, and the helper texts hold the same functions,
each written once: each text is that of some functions with empty lines between them.
-/
theorem written_eq_of_perm (normalizer : Normalizer) {calls others : List Call}
    (perm : calls.Perm others) (shared : ∀ call ∈ calls, call.normalizer = normalizer)
    (decides : NamesDecide calls)
    (succeed : ∀ result ∈ (Call.runAll calls .empty).1, result.isOk = true)
    (succeedToo : ∀ result ∈ (Call.runAll others .empty).1, result.isOk = true) :
    let codes := written (Call.runAll calls .empty).1
    let otherCodes := written (Call.runAll others .empty).1
    (∃ body : Call → String, codes.map EqualityCode.body = calls.map body ∧
      otherCodes.map EqualityCode.body = others.map body) ∧
    ∃ functions otherFunctions : List (List String),
      codes.map EqualityCode.helpers = functions.map ("\n".intercalate) ∧
      otherCodes.map EqualityCode.helpers = otherFunctions.map ("\n".intercalate) ∧
      functions.flatten.Perm otherFunctions.flatten ∧
      ∀ function ∈ functions.flatten, ∃ shape, Held calls shape ∧
        function = helperText normalizer shape := by
  intro codes otherCodes
  rcases (Completed.empty normalizer).runAll shared succeed with ⟨shapes, run⟩
  have otherShared : ∀ call ∈ others, call.normalizer = normalizer :=
    fun call listed => shared call (perm.mem_iff.mpr listed)
  rcases (Completed.empty normalizer).runAll otherShared succeedToo with ⟨otherShapes, other⟩
  rw [List.nil_append, List.nil_append] at run other
  refine ⟨⟨Call.body, run.bodies, other.bodies⟩,
    shapes.map (List.map (helperText normalizer)),
    otherShapes.map (List.map (helperText normalizer)), ?_, ?_, ?_, ?_⟩
  · rw [List.map_map]
    exact run.texts
  · rw [List.map_map]
    exact other.texts
  · rw [← List.map_flatten, ← List.map_flatten]
    exact run.texts_perm other decides perm
  · intro function listed
    rw [← List.map_flatten] at listed
    rcases List.mem_map.mp listed with ⟨shape, isWritten, rfl⟩
    exact ⟨shape, run.held shape isWritten, rfl⟩

/-- A structure that is in a list of one resource and in a mapping of another. -/
def stockPart : Shape :=
  .struct "Part" [("Code", Shape.scalarOf .string)]

/-- A structure with a list of structures. -/
def orderItem : Shape :=
  .struct "Item" [("Parts", Shape.sequenceOf stockPart), ("Name", Shape.scalarOf .string)]

/-- Desired state with a list of structures that hold further ones. -/
def orderDefinition : ResourceDefinition where
  name := "Order"
  spec := .struct "OrderSpec" [("Items", Shape.sequenceOf orderItem)]
  status := none
  operations := ∅

/-- Desired state with a mapping of the inner structures. -/
def stockDefinition : ResourceDefinition where
  name := "Stock"
  spec := .struct "StockSpec" [("Parts", Shape.mappingOf .string stockPart)]
  status := none
  operations := ∅

/-- The helper of the inner structure is written by whichever resource comes first. -/
theorem written_eq_of_perm_order :
    ∃ order stock, Resource.ofDefinition orderDefinition {} .default = .ok order ∧
      Resource.ofDefinition stockDefinition {} .default = .ok stock ∧
      let calls := [resourceCall order .default "a.ko" "b.ko" 1,
        resourceCall stock .default "first" "second" 2]
      let codes := written (Call.runAll calls .empty).1
      let otherCodes := written (Call.runAll calls.reverse .empty).1
      codes.map (fun code => code.helpers.isEmpty) = [false, true] ∧
      otherCodes.map (fun code => code.helpers.isEmpty) = [false, false] ∧
      (∃ body : Call → String, codes.map EqualityCode.body = calls.map body ∧
        otherCodes.map EqualityCode.body = calls.reverse.map body) ∧
      ∃ functions otherFunctions : List (List String),
        codes.map EqualityCode.helpers = functions.map ("\n".intercalate) ∧
        otherCodes.map EqualityCode.helpers = otherFunctions.map ("\n".intercalate) ∧
        functions.flatten.Perm otherFunctions.flatten ∧
        ∀ function ∈ functions.flatten, ∃ shape, Held calls shape ∧
          function = helperText .default shape := by
  have facts : ∃ order ∈ (Resource.ofDefinition orderDefinition {} .default).toOption,
      ∃ stock ∈ (Resource.ofDefinition stockDefinition {} .default).toOption,
        let calls := [resourceCall order .default "a.ko" "b.ko" 1,
          resourceCall stock .default "first" "second" 2]
        (∀ result ∈ (Call.runAll calls .empty).1, result.isOk = true) ∧
        (∀ result ∈ (Call.runAll calls.reverse .empty).1, result.isOk = true) ∧
        (written (Call.runAll calls .empty).1).map (fun code => code.helpers.isEmpty) =
          [false, true] ∧
        (written (Call.runAll calls.reverse .empty).1).map (fun code => code.helpers.isEmpty) =
          [false, false] := by
    decide +kernel
  rcases facts with ⟨order, ofOrder, stock, ofStock, succeed, succeedToo, empty, otherEmpty⟩
  have orderJoined := Outcome.of_mem_toOption ofOrder
  have stockJoined := Outcome.of_mem_toOption ofStock
  refine ⟨order, stock, orderJoined, stockJoined, empty, otherEmpty, ?_⟩
  apply written_eq_of_perm .default (List.reverse_perm _).symm
  · simp [resourceCall]
  · -- Whatever is held is one of two structures, which have different names.
    have held : ∀ shape, Held [resourceCall order .default "a.ko" "b.ko" 1,
        resourceCall stock .default "first" "second" 2] shape →
          shape = orderItem ∨ shape = stockPart := by
      rintro shape ⟨call, listed, holds⟩
      rcases List.mem_cons.mp listed with rfl | isStock
      · have listed : shape ∈ [orderItem, stockPart] :=
          Shape.mem_held.mpr (Resource.Holds.spec holds orderJoined)
        simpa using listed
      · rw [List.mem_singleton] at isStock
        subst isStock
        have listed : shape ∈ [stockPart] :=
          Shape.mem_held.mpr (Resource.Holds.spec holds stockJoined)
        exact Or.inr (List.mem_singleton.mp listed)
    intro left right holdsLeft holdsRight sameName
    rcases held left holdsLeft with rfl | rfl
    · rcases held right holdsRight with rfl | rfl
      · rfl
      · exact absurd sameName (by decide)
    · rcases held right holdsRight with rfl | rfl
      · exact absurd sameName (by decide)
      · rfl
  · exact succeed
  · exact succeedToo

end Equality

end Reconcile
