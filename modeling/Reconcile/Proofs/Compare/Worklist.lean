import Reconcile.Compare.Equality.Basic

/-!
# The queue as a worklist

Whatever happens to a queue, shapes are added at its end and taken from its front, and the names
of the added shapes are new (`HelperQueue.Advances`). So a shape that was ever asked for is
either still pending or was taken exactly once. Writing the pending helpers takes them all
(`writeHelpers_ok`) unless it fails, and then the last shape that was taken is one that cannot
be written (`writeHelpers_error`).
-/

namespace Reconcile

namespace HelperQueue

/-- What lies between two states of a queue: the shapes that were added and those taken. -/
structure Advances (before : HelperQueue) (added taken : List Shape) (after : HelperQueue) :
    Prop where
  requested : after.requested = before.requested ++ added.map Shape.name
  pending : before.pending ++ added = taken ++ after.pending
  fresh : ∀ shape ∈ added, shape.name ∉ before.requested
  distinct : (added.map Shape.name).Nodup

/-- Whether every name was asked for once and the pending ones were asked for last. -/
structure Valid (queue : HelperQueue) : Prop where
  distinct : queue.requested.Nodup
  suffix : ∃ taken, queue.requested = taken ++ queue.pending.map Shape.name

/-- Whether the helper for a shape name was asked for and has been taken. -/
def Served (queue : HelperQueue) (name : String) : Prop :=
  name ∈ queue.requested ∧ name ∉ queue.pending.map Shape.name

/-- The queues that arise from asking for helpers and taking them. -/
inductive Reachable : HelperQueue → Prop
  | empty : Reachable empty
  | request {queue : HelperQueue} (reachable : Reachable queue) (shape : Shape) :
      Reachable (queue.request shape)
  | next {queue rest : HelperQueue} {shape : Shape} (reachable : Reachable queue)
      (taken : queue.next? = some (shape, rest)) : Reachable rest

section

variable {before between after queue rest : HelperQueue}
  {added addedLater taken takenLater : List Shape} {shape : Shape}

theorem Advances.idle : Advances queue [] [] queue where
  requested := by simp
  pending := by simp
  fresh := by simp
  distinct := by simp

theorem Advances.trans (first : Advances before added taken between)
    (second : Advances between addedLater takenLater after) :
    Advances before (added ++ addedLater) (taken ++ takenLater) after where
  requested := by
    rw [second.requested, first.requested, List.map_append, List.append_assoc]
  pending := by
    rw [← List.append_assoc, first.pending, List.append_assoc, second.pending, List.append_assoc]
  fresh := by
    intro shape membership known
    rcases List.mem_append.mp membership with isFirst | isSecond
    · exact first.fresh shape isFirst known
    · apply second.fresh shape isSecond
      rw [first.requested]
      exact List.mem_append_left _ known
  distinct := by
    rw [List.map_append, List.nodup_append]
    refine ⟨first.distinct, second.distinct, ?_⟩
    rintro name isFirst other isSecond rfl
    rcases List.mem_map.mp isSecond with ⟨shape, membership, rfl⟩
    apply second.fresh shape membership
    rw [first.requested]
    exact List.mem_append_right _ isFirst

theorem Advances.requested_split (advances : Advances before added taken after)
    {names : List String} (split : before.requested = names ++ before.pending.map Shape.name) :
    after.requested = (names ++ taken.map Shape.name) ++ after.pending.map Shape.name := by
  rw [advances.requested, split, List.append_assoc, ← List.map_append, advances.pending,
    List.map_append, List.append_assoc]

theorem Advances.valid (advances : Advances before added taken after) (valid : before.Valid) :
    after.Valid where
  distinct := by
    rw [advances.requested, List.nodup_append]
    refine ⟨valid.distinct, advances.distinct, ?_⟩
    rintro name known other isAdded rfl
    rcases List.mem_map.mp isAdded with ⟨shape, membership, rfl⟩
    exact advances.fresh shape membership known
  suffix := by
    rcases valid.suffix with ⟨names, split⟩
    exact ⟨names ++ taken.map Shape.name, advances.requested_split split⟩

/-- What holds of the shapes pending before and of those added holds of all others. -/
theorem Advances.forall_pending {property : Shape → Prop}
    (advances : Advances before added taken after)
    (ofPending : ∀ shape ∈ before.pending, property shape)
    (ofAdded : ∀ shape ∈ added, property shape) :
    (∀ shape ∈ taken, property shape) ∧ ∀ shape ∈ after.pending, property shape := by
  have all : ∀ shape ∈ before.pending ++ added, property shape := by
    intro shape membership
    exact (List.mem_append.mp membership).elim (ofPending shape) (ofAdded shape)
  rw [advances.pending] at all
  exact ⟨fun shape inTaken => all shape (List.mem_append_left _ inTaken),
    fun shape inPending => all shape (List.mem_append_right _ inPending)⟩

theorem valid_empty : empty.Valid where
  distinct := List.nodup_nil
  suffix := ⟨[], by simp [empty]⟩

/-- The names that were asked for before the pending ones are those that have been taken. -/
theorem Valid.served_iff (valid : queue.Valid) {names : List String} {name : String}
    (split : queue.requested = names ++ queue.pending.map Shape.name) :
    queue.Served name ↔ name ∈ names := by
  have distinct := valid.distinct
  rw [split, List.nodup_append] at distinct
  rw [Served, split, List.mem_append]
  constructor
  · rintro ⟨isName | isPending, notPending⟩
    · exact isName
    · exact absurd isPending notPending
  · intro isName
    refine ⟨Or.inl isName, ?_⟩
    intro isPending
    exact distinct.2.2 name isName name isPending rfl

theorem Advances.served_iff (advances : Advances before added taken after) (valid : before.Valid)
    {name : String} : after.Served name ↔ before.Served name ∨ name ∈ taken.map Shape.name := by
  rcases valid.suffix with ⟨names, split⟩
  rw [(advances.valid valid).served_iff (advances.requested_split split), valid.served_iff split,
    List.mem_append]

/-- No helper is taken twice. -/
theorem Advances.not_served (advances : Advances before added taken after) (valid : before.Valid)
    {name : String} (isTaken : name ∈ taken.map Shape.name) : ¬before.Served name := by
  rcases valid.suffix with ⟨names, split⟩
  have distinct := (advances.valid valid).distinct
  rw [advances.requested_split split, List.append_assoc, List.nodup_append] at distinct
  rw [valid.served_iff split]
  intro isName
  exact distinct.2.2 name isName name (List.mem_append_left _ isTaken) rfl

theorem advances_request (queue : HelperQueue) (shape : Shape) :
    ∃ added, Advances queue added [] (queue.request shape) ∧ ∀ other ∈ added, other = shape := by
  by_cases known : queue.contains shape.name = true
  · refine ⟨[], ?_, by simp⟩
    rw [request, if_pos known]
    exact .idle
  · refine ⟨[shape], ?_, by simp⟩
    rw [request, if_neg known]
    exact {
      requested := by simp
      pending := by simp
      fresh := by simpa [contains] using known
      distinct := by simp }

theorem name_mem_request (queue : HelperQueue) (shape : Shape) :
    shape.name ∈ (queue.request shape).requested := by
  unfold request
  split
  · rename_i known
    simpa [contains] using known
  · simp

theorem advances_next? (taken : queue.next? = some (shape, rest)) :
    Advances queue [] [shape] rest := by
  unfold next? at taken
  split at taken
  · simp at taken
  · rename_i first others found
    simp only [Option.some.injEq, Prod.mk.injEq] at taken
    rcases taken with ⟨rfl, rfl⟩
    exact {
      requested := by simp
      pending := by simp [found]
      fresh := by simp
      distinct := by simp }

theorem next?_eq_none : queue.next? = none ↔ queue.pending = [] := by
  unfold next?
  split <;> simp_all

theorem Reachable.valid (reachable : Reachable queue) : queue.Valid := by
  induction reachable with
  | empty => exact valid_empty
  | request _ shape ih =>
      rcases advances_request _ shape with ⟨added, advances, _⟩
      exact advances.valid ih
  | next _ taken ih => exact (advances_next? taken).valid ih

/-- Meeting demands only adds shapes that are demanded. -/
theorem advances_meet (queue : HelperQueue) (demands : List Demand) :
    ∃ added, Advances queue added [] (queue.meet demands).2 ∧
      ∀ shape ∈ added, shape ∈ Demand.shapes demands := by
  induction demands generalizing queue with
  | nil => exact ⟨[], .idle, by simp⟩
  | cons demand rest ih =>
      cases demand with
      | helper shape =>
          rcases advances_request queue shape with ⟨added, requesting, same⟩
          rcases ih (queue.request shape) with ⟨addedLater, meeting, demanded⟩
          refine ⟨added ++ addedLater, requesting.trans meeting, ?_⟩
          intro other membership
          rcases List.mem_append.mp membership with isFirst | isLater
          · rw [same other isFirst]
            exact List.mem_cons_self
          · exact List.mem_cons_of_mem _ (demanded other isLater)
      | keyKind path key => exact ⟨[], .idle, by simp⟩

theorem meet_eq_ok (queue : HelperQueue) (demands : List Demand) :
    (queue.meet demands).1 = .ok () ↔ Demand.unmet? demands = none := by
  induction demands generalizing queue with
  | nil => simp [meet, Demand.unmet?]
  | cons demand rest ih =>
      cases demand with
      | helper shape => simpa [meet, Demand.unmet?] using ih (queue.request shape)
      | keyKind path key => simp [meet, Demand.unmet?]

theorem requested_subset_meet (queue : HelperQueue) (demands : List Demand) :
    queue.requested ⊆ (queue.meet demands).2.requested := by
  rcases queue.advances_meet demands with ⟨added, advances, _⟩
  rw [advances.requested]
  exact List.subset_append_left _ _

theorem name_mem_meet {demands : List Demand} (queue : HelperQueue)
    (met : Demand.unmet? demands = none) :
    ∀ shape ∈ Demand.shapes demands, shape.name ∈ (queue.meet demands).2.requested := by
  induction demands generalizing queue with
  | nil => simp [Demand.shapes]
  | cons demand rest ih =>
      cases demand with
      | helper first =>
          intro shape membership
          rcases List.mem_cons.mp membership with rfl | inRest
          · exact requested_subset_meet _ rest (name_mem_request queue shape)
          · exact ih (queue.request first) met shape inRest
      | keyKind path key => simp [Demand.unmet?] at met

end

end HelperQueue

namespace Equality

open HelperQueue

/-- The shapes whose helpers a helper calls. -/
def Helper.asked (helper : Helper) : List Shape :=
  Demand.shapes (Check.demandsOf helper.checks)

/-- Whether the helper of a shape can be written. -/
def IsWritable (normalizer : Normalizer) (shape : Shape) : Prop :=
  Demand.unmet? (Check.demandsOf (Helper.ofShape normalizer shape).checks) = none

/-- Whether a property passes from a shape to those whose helpers its own helper calls. -/
def PassedOn (normalizer : Normalizer) (property : Shape → Prop) : Prop :=
  ∀ shape, property shape → ∀ inner ∈ (Helper.ofShape normalizer shape).asked, property inner

/--
Helpers that were written take all pending shapes, and those that come up on the way, off the
queue. What they call has been asked for.
-/
structure Written (normalizer : Normalizer) (before : HelperQueue) (added : List Shape)
    (helpers : List Helper) (after : HelperQueue) : Prop where
  advances : Advances before added (helpers.map Helper.shape) after
  pending : after.pending = []
  ofShape : ∀ helper ∈ helpers, helper = Helper.ofShape normalizer helper.shape
  writable : ∀ helper ∈ helpers, IsWritable normalizer helper.shape
  known : ∀ helper ∈ helpers, ∀ shape ∈ helper.asked, shape.name ∈ after.requested
  passed : ∀ property, PassedOn normalizer property → (∀ shape ∈ before.pending, property shape) →
    ∀ shape ∈ added, property shape

/-- A failure leaves behind all shapes but those written before and the one that failed. -/
structure Failed (normalizer : Normalizer) (before : HelperQueue) (added written : List Shape)
    (failing : Shape) (after : HelperQueue) : Prop where
  advances : Advances before added (written ++ [failing]) after
  writable : ∀ shape ∈ written, IsWritable normalizer shape
  unwritable : ¬IsWritable normalizer failing
  passed : ∀ property, PassedOn normalizer property → (∀ shape ∈ before.pending, property shape) →
    ∀ shape ∈ added, property shape

section

variable {normalizer : Normalizer} {before rest between after : HelperQueue} {shape : Shape}

theorem advances_turn {result : Except CompareError Unit}
    (taken : before.next? = some (shape, rest))
    (met : rest.meet (Check.demandsOf (Helper.ofShape normalizer shape).checks) =
      (result, between)) :
    ∃ added, Advances before added [shape] between ∧
      ∀ other ∈ added, other ∈ (Helper.ofShape normalizer shape).asked := by
  rcases rest.advances_meet (Check.demandsOf (Helper.ofShape normalizer shape).checks) with
    ⟨added, meeting, demanded⟩
  rw [met] at meeting
  exact ⟨added, (advances_next? taken).trans meeting, demanded⟩

theorem passed_turn {added : List Shape} {property : Shape → Prop}
    (taken : before.next? = some (shape, rest))
    (demanded : ∀ other ∈ added, other ∈ (Helper.ofShape normalizer shape).asked)
    (passes : PassedOn normalizer property) (pending : ∀ other ∈ before.pending, property other) :
    ∀ other ∈ added, property other := by
  have isPending : shape ∈ before.pending := by
    have split := (advances_next? taken).pending
    rw [List.append_nil] at split
    simp [split]
  intro other membership
  exact passes shape (pending shape isPending) other (demanded other membership)

/-- A property that passes on holds of what is added in two goes. -/
theorem passed_twice {added addedLater taken : List Shape} {property : Shape → Prop}
    (first : Advances before added taken between) (passes : PassedOn normalizer property)
    (ofAdded : ∀ shape ∈ added, property shape) (pending : ∀ shape ∈ before.pending, property shape)
    (later : ∀ property, PassedOn normalizer property →
      (∀ shape ∈ between.pending, property shape) → ∀ shape ∈ addedLater, property shape) :
    ∀ shape ∈ added ++ addedLater, property shape := by
  intro shape membership
  rcases List.mem_append.mp membership with isFirst | isLater
  · exact ofAdded shape isFirst
  · exact later property passes (first.forall_pending pending ofAdded).2 shape isLater

theorem isWritable_iff {result : Except CompareError Unit}
    (met : rest.meet (Check.demandsOf (Helper.ofShape normalizer shape).checks) =
      (result, between)) : IsWritable normalizer shape ↔ result = .ok () := by
  rw [IsWritable, ← rest.meet_eq_ok, met]

theorem writeHelpers_ok {helpers : List Helper}
    (written : writeHelpers normalizer before = (.ok helpers, after)) :
    ∃ added, Written normalizer before added helpers after := by
  fun_induction writeHelpers normalizer before generalizing helpers with
  | case1 queue empty =>
      simp only [Prod.mk.injEq, Except.ok.injEq] at written
      rcases written with ⟨rfl, rfl⟩
      exact ⟨[], {
        advances := .idle
        pending := next?_eq_none.mp empty
        ofShape := by simp
        writable := by simp
        known := by simp
        passed := by simp }⟩
  | case2 queue shape rest taken helper error between => simp at written
  | case3 queue shape rest taken helper done between met error later failed =>
      simp at written
  | case4 queue shape rest taken helper done between met others later succeeded =>
      -- The turn may add shapes, so that the queue need not get shorter; the invariant of the
      -- later turns starts from the queue behind this one.
      rename_i ih
      simp only [Prod.mk.injEq, Except.ok.injEq] at written
      rcases written with ⟨rfl, rfl⟩
      rcases advances_turn taken met with ⟨added, turn, demanded⟩
      rcases ih succeeded with ⟨addedLater, writtenLater⟩
      have isWritable : IsWritable normalizer shape := (isWritable_iff met).mpr rfl
      have known := rest.name_mem_meet isWritable
      rw [met] at known
      refine ⟨added ++ addedLater, {
        advances := turn.trans writtenLater.advances
        pending := writtenLater.pending
        ofShape := ?_
        writable := ?_
        known := ?_
        passed := ?_ }⟩
      · intro other membership
        rcases List.mem_cons.mp membership with rfl | isLater
        · rfl
        · exact writtenLater.ofShape other isLater
      · intro other membership
        rcases List.mem_cons.mp membership with rfl | isLater
        · exact isWritable
        · exact writtenLater.writable other isLater
      · intro other membership inner isAsked
        rcases List.mem_cons.mp membership with rfl | isLater
        · rw [writtenLater.advances.requested]
          exact List.mem_append_left _ (known inner isAsked)
        · exact writtenLater.known other isLater inner isAsked
      · intro property passes pending
        have ofAdded := passed_turn taken demanded passes pending
        exact passed_twice turn passes ofAdded pending writtenLater.passed

theorem writeHelpers_error {error : CompareError}
    (failed : writeHelpers normalizer before = (.error error, after)) :
    ∃ added written failing, Failed normalizer before added written failing after := by
  fun_induction writeHelpers normalizer before with
  | case1 queue empty => simp at failed
  | case2 queue shape rest taken helper cause between met =>
      simp only [Prod.mk.injEq, Except.error.injEq] at failed
      rcases failed with ⟨rfl, rfl⟩
      rcases advances_turn taken met with ⟨added, turn, demanded⟩
      have unwritable : ¬IsWritable normalizer shape := by simp [isWritable_iff met]
      refine ⟨added, [], shape, {
        advances := turn
        writable := by simp
        unwritable := unwritable
        passed := ?_ }⟩
      intro property passes pending
      exact passed_turn taken demanded passes pending
  | case3 queue shape rest taken helper done between met cause later failing ih =>
      simp only [Prod.mk.injEq, Except.error.injEq] at failed
      rcases failed with ⟨rfl, rfl⟩
      rcases advances_turn taken met with ⟨added, turn, demanded⟩
      rcases ih failing with ⟨addedLater, written, unwritable, failedLater⟩
      refine ⟨added ++ addedLater, shape :: written, unwritable, {
        advances := turn.trans failedLater.advances
        writable := ?_
        unwritable := failedLater.unwritable
        passed := ?_ }⟩
      · intro other membership
        rcases List.mem_cons.mp membership with rfl | isLater
        · exact (isWritable_iff met).mpr rfl
        · exact failedLater.writable other isLater
      · intro property passes pending
        have ofAdded := passed_turn taken demanded passes pending
        exact passed_twice turn passes ofAdded pending failedLater.passed
  | case4 queue shape rest taken helper done between met others later succeeded ih =>
      simp at failed

end

end Equality

end Reconcile
