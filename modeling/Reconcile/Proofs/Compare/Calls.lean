import Reconcile.Proofs.Compare.Definitions

/-!
# Calls that share a queue

Comparisons of resources and of standalone shapes may share one queue of helpers. A call that
succeeds leaves no helper pending and has written each helper that it calls, unless an earlier
call took it (`Call.Succeeds`); a call that fails may have taken helpers without writing them
(`Call.Fails`).
-/

namespace Reconcile.Equality

/-- What a call compares. -/
inductive Subject where
  /-- The desired states of two instances of a resource. -/
  | resource (resource : Resource)
  /-- Two values of a shape. -/
  | shape (shape : Shape)

/-- A call that writes equality code. -/
structure Call where
  subject : Subject
  normalizer : Normalizer
  first : String
  second : String
  level : Nat

namespace Call

/-- Writes the code of a call with a queue. -/
def run (call : Call) (queue : HelperQueue) : Except CompareError EqualityCode × HelperQueue :=
  match call.subject with
  | .resource resource =>
      compareResource resource call.normalizer call.first call.second call.level queue
  | .shape shape => compareShape shape call.normalizer call.first call.second call.level queue

/-- Writes the code of calls one after the other. A failure does not stop the later ones. -/
def runAll : List Call → HelperQueue → List (Except CompareError EqualityCode) × HelperQueue
  | [], queue => ([], queue)
  | call :: rest, queue =>
      let (result, between) := call.run queue
      let (results, after) := runAll rest between
      (result :: results, after)

/-- The checks that a call writes. -/
def checks (call : Call) : Except CompareError (List Check) :=
  match call.subject with
  | .resource resource => resourceChecks resource call.normalizer call.first call.second
  | .shape shape =>
      .ok ((strategy call.normalizer).body shape ⟨.empty, .root call.first, .root call.second⟩)

/-- The site that a call starts from. -/
def root (call : Call) : Site :=
  match call.subject with
  | .resource _ => Site.ofSpec call.first call.second
  | .shape _ => ⟨.empty, .root call.first, .root call.second⟩

/-- Whether a call has operands of words and dots, names of words and shapes that fit. -/
def IsNamed (call : Call) (fits : Shape → Prop) : Prop :=
  Text.IsDotted call.first ∧ Text.IsDotted call.second ∧
    match call.subject with
    | .resource resource => resource.Named Text.IsWord fits
    | .shape shape => fits shape

/-- Whether a call itself, apart from the helpers that it asks for, can be written. -/
def IsWritable (call : Call) : Prop :=
  ∃ checks, call.checks = .ok checks ∧ Demand.unmet? (Check.demandsOf checks) = none

/-- Whether a property holds of all shapes whose helpers the checks of a call ask for. -/
def Asks (call : Call) (property : Shape → Prop) : Prop :=
  ∀ checks, call.checks = .ok checks →
    ∀ shape ∈ Demand.shapes (Check.demandsOf checks), property shape

/-- What a call that succeeds has done. -/
structure Succeeds (call : Call) (before : HelperQueue) (checks : List Check)
    (added : List Shape) (helpers : List Helper) (code : EqualityCode) (after : HelperQueue) :
    Prop where
  planned : call.checks = .ok checks
  met : Demand.unmet? (Check.demandsOf checks) = none
  body : code.body = Code.renderBehindBlank (Check.codeOf action checks) call.level
  text : code.helpers = helpersText helpers
  advances : before.Advances added (helpers.map Helper.shape) after
  pending : after.pending = []
  ofShape : ∀ helper ∈ helpers, helper = Helper.ofShape call.normalizer helper.shape
  writable : ∀ helper ∈ helpers, Equality.IsWritable call.normalizer helper.shape
  known : ∀ shape, shape ∈ Demand.shapes (Check.demandsOf checks) ∨
    (∃ helper ∈ helpers, shape ∈ helper.asked) → shape.name ∈ after.requested
  passed : ∀ property, PassedOn call.normalizer property → call.Asks property →
    (∀ shape ∈ before.pending, property shape) → ∀ shape ∈ added, property shape

/-- What a call that fails has done. -/
structure Fails (call : Call) (before : HelperQueue) (added taken : List Shape)
    (after : HelperQueue) : Prop where
  advances : before.Advances added taken after
  passed : ∀ property, PassedOn call.normalizer property → call.Asks property →
    (∀ shape ∈ before.pending, property shape) → ∀ shape ∈ added, property shape
  /-- Either the own checks cannot be written, or the last helper that was taken. -/
  cause : (¬call.IsWritable ∧ taken = []) ∨ (call.IsWritable ∧ ∃ written failing,
    taken = written ++ [failing] ∧ (∀ shape ∈ written, Equality.IsWritable call.normalizer shape) ∧
      ¬Equality.IsWritable call.normalizer failing)

variable {call : Call} {before after : HelperQueue}

theorem run_eq (call : Call) (queue : HelperQueue) :
    call.run queue =
      match call.checks with
      | .error error => (.error error, queue)
      | .ok checks => write call.normalizer checks call.level queue := by
  unfold run checks
  cases call.subject with
  | resource resource => rfl
  | shape shape => rfl

/-- A call that cannot be written fails before any helper is taken. -/
theorem run_unwritable (unwritable : ¬call.IsWritable) (before : HelperQueue) :
    ∃ error added after, call.run before = (.error error, after) ∧
      before.Advances added [] after ∧
        ∀ property, call.Asks property → ∀ shape ∈ added, property shape := by
  cases planned : call.checks with
  | error error =>
      refine ⟨error, [], before, ?_, .idle, by simp⟩
      simp [run_eq, planned]
  | ok checks =>
      rcases before.advances_meet (Check.demandsOf checks) with ⟨added, meeting, demanded⟩
      have notMet : (before.meet (Check.demandsOf checks)).1 ≠ .ok () := by
        intro met
        exact unwritable ⟨checks, planned, (before.meet_eq_ok _).mp met⟩
      cases outcome : before.meet (Check.demandsOf checks) with
      | mk result after =>
          rw [outcome] at meeting notMet
          cases result with
          | ok done => exact absurd rfl notMet
          | error error =>
              refine ⟨error, added, after, ?_, meeting, ?_⟩
              · simp [run_eq, planned, write, outcome]
              · intro property asks shape membership
                exact asks checks planned shape (demanded shape membership)

/-- The helpers of a call that can be written are asked for before any helper is written. -/
theorem run_planned {checks : List Check} (planned : call.checks = .ok checks)
    (writable : Demand.unmet? (Check.demandsOf checks) = none) (before : HelperQueue) :
    ∃ added between, before.Advances added [] between ∧
      (∀ shape ∈ added, shape ∈ Demand.shapes (Check.demandsOf checks)) ∧
        (∀ shape ∈ Demand.shapes (Check.demandsOf checks), shape.name ∈ between.requested) ∧
          call.run before =
            match writeHelpers call.normalizer between with
            | (.error error, queue) => (.error error, queue)
            | (.ok helpers, queue) => (.ok ⟨Code.renderBehindBlank (Check.codeOf action checks)
                call.level, helpersText helpers⟩, queue) := by
  rcases before.advances_meet (Check.demandsOf checks) with ⟨added, meeting, demanded⟩
  have met := (before.meet_eq_ok (Check.demandsOf checks)).mpr writable
  refine ⟨added, _, meeting, demanded, before.name_mem_meet writable, ?_⟩
  simp only [run_eq, planned, write]
  generalize before.meet (Check.demandsOf checks) = outcome at met
  rcases outcome with ⟨result, between⟩
  cases result with
  | error error => simp at met
  | ok done => rfl

/-- What a call that gives code has done. -/
theorem succeeds_of_run {code : EqualityCode} (run : call.run before = (.ok code, after)) :
    ∃ checks added helpers, call.Succeeds before checks added helpers code after := by
  by_cases writable : call.IsWritable
  · rcases writable with ⟨checks, planned, unmet⟩
    rcases run_planned planned unmet before with ⟨added, between, meeting, demanded, known, ran⟩
    rw [ran] at run
    cases outcome : writeHelpers call.normalizer between with
    | mk result later =>
        cases result with
        | error error => simp [outcome] at run
        | ok helpers =>
            rcases writeHelpers_ok outcome with ⟨addedLater, written⟩
            simp only [outcome, Prod.mk.injEq, Except.ok.injEq] at run
            rcases run with ⟨rfl, rfl⟩
            refine ⟨checks, added ++ addedLater, helpers, {
              planned := planned
              met := unmet
              body := rfl
              text := rfl
              advances := meeting.trans written.advances
              pending := written.pending
              ofShape := written.ofShape
              writable := written.writable
              known := ?_
              passed := ?_ }⟩
            · rintro shape (isDemanded | ⟨helper, membership, isAsked⟩)
              · rw [written.advances.requested]
                exact List.mem_append_left _ (known shape isDemanded)
              · exact written.known helper membership shape isAsked
            · intro property passes asks pending
              exact passed_twice meeting passes (fun shape inAdded =>
                asks checks planned shape (demanded shape inAdded)) pending written.passed
  · rcases run_unwritable writable before with ⟨error, added, failed, ran, _⟩
    simp [ran] at run

theorem fails_of_run {error : CompareError} (run : call.run before = (.error error, after)) :
    ∃ added taken, call.Fails before added taken after := by
  by_cases writable : call.IsWritable
  · rcases writable with ⟨checks, planned, unmet⟩
    rcases run_planned planned unmet before with ⟨added, between, meeting, demanded, known, ran⟩
    rw [ran] at run
    cases outcome : writeHelpers call.normalizer between with
    | mk result later =>
        cases result with
        | ok helpers => simp [outcome] at run
        | error cause =>
            rcases writeHelpers_error outcome with ⟨addedLater, written, failing, failed⟩
            simp only [outcome, Prod.mk.injEq, Except.error.injEq] at run
            rcases run with ⟨rfl, rfl⟩
            refine ⟨added ++ addedLater, written ++ [failing], {
              advances := meeting.trans failed.advances
              passed := ?_
              cause := ?_ }⟩
            · intro property passes asks pending
              exact passed_twice meeting passes (fun shape inAdded =>
                asks checks planned shape (demanded shape inAdded)) pending failed.passed
            · exact Or.inr ⟨⟨checks, planned, unmet⟩, written, failing, rfl, failed.writable,
                failed.unwritable⟩
  · rcases run_unwritable writable before with ⟨cause, added, failed, ran, advances, asked⟩
    rw [ran] at run
    simp only [Prod.mk.injEq, Except.error.injEq] at run
    rcases run with ⟨rfl, rfl⟩
    refine ⟨added, [], {
      advances := advances
      passed := ?_
      cause := Or.inl ⟨writable, rfl⟩ }⟩
    intro property _ asks _
    exact asked property asks

/-- A call that starts with nothing pending writes the helpers that it adds. -/
theorem Succeeds.taken {checks : List Check} {added : List Shape} {helpers : List Helper}
    {code : EqualityCode} (succeeds : call.Succeeds before checks added helpers code after)
    (nonePending : before.pending = []) : helpers.map Helper.shape = added := by
  have split := succeeds.advances.pending
  rw [nonePending, succeeds.pending, List.nil_append, List.append_nil] at split
  exact split.symm

section

variable {fits : Shape → Prop} {checks : List Check}

theorem isWhole_root (named : call.IsNamed fits) : call.root.IsWhole := by
  rcases named with ⟨firstDotted, secondDotted, _⟩
  unfold root
  cases call.subject with
  | resource resource => exact Site.isWhole_ofSpec firstDotted secondDotted
  | shape shape =>
      exact ⟨Term.isWhole_of_isDotted firstDotted, Term.isWhole_of_isDotted secondDotted⟩

theorem soundOf_checks (inherited : Shape.Inherited call.normalizer fits)
    (named : call.IsNamed fits) (planned : call.checks = .ok checks) :
    Check.SoundOf call.root (Shape.IsPlain fits) [] checks := by
  rcases named with ⟨_, _, subjectNamed⟩
  unfold Call.checks at planned
  unfold root
  cases subject : call.subject with
  | resource resource =>
      simp only [subject] at planned subjectNamed ⊢
      rcases Outcome.of_bind_eq_ok planned with ⟨tag, _, made⟩
      cases made
      exact Strategy.soundOf_resource (isSound_strategyWith _ _ _) inherited subjectNamed
  | shape shape =>
      simp only [subject, Except.ok.injEq] at planned subjectNamed ⊢
      rw [← planned]
      apply Strategy.soundOf_body (isSound_strategyWith _ _ _) inherited
      · simp [FieldPath.empty]
      · exact subjectNamed
      · exact .root
      · intro _
        exact Or.inl ⟨rfl, rfl⟩

theorem asks_plain (inherited : Shape.Inherited call.normalizer fits)
    (named : call.IsNamed fits) : call.Asks (Shape.IsPlain fits) := by
  intro checks planned
  exact Check.plain_of_soundOf checks (soundOf_checks inherited named planned)

theorem passedOn_plain {normalizer : Normalizer} (inherited : Shape.Inherited normalizer fits) :
    PassedOn normalizer (Shape.IsPlain fits) := by
  intro shape plain
  exact Check.plain_of_soundOf _ (soundOf_helper inherited plain [])

section

variable {added : List Shape} {helpers : List Helper} {code : EqualityCode}

theorem Succeeds.plainHelpers (succeeds : call.Succeeds before checks added helpers code after)
    (inherited : Shape.Inherited call.normalizer fits)
    (words : ∀ shape : Shape, shape.IsPlain fits → Text.IsWord shape.name)
    (named : call.IsNamed fits) (pending : ∀ shape ∈ before.pending, shape.IsPlain fits) :
    PlainHelpers call.normalizer fits helpers where
  inherited := inherited
  words := words
  plain := by
    have ofAdded := succeeds.passed _ (passedOn_plain inherited) (asks_plain inherited named)
      pending
    intro helper membership
    exact (succeeds.advances.forall_pending pending ofAdded).1 helper.shape
      (List.mem_map_of_mem membership)
  ofShape := succeeds.ofShape

theorem Succeeds.definitionsIn (succeeds : call.Succeeds before checks added helpers code after)
    (planned : PlainHelpers call.normalizer fits helpers) :
    Line.definitionsIn code.helpers = helpers.map (fun helper => helper.shape.helperName) := by
  rw [succeeds.text, planned.definitionsIn]

theorem Succeeds.requested_of_called
    (succeeds : call.Succeeds before checks added helpers code after)
    (planned : PlainHelpers call.normalizer fits helpers) (named : call.IsNamed fits)
    (valid : before.Valid) {name : String}
    (called : name ∈ Line.calledIn code.body ++ Line.calledIn code.helpers) :
    ∃ shape : Shape, shape.name ∈ after.requested ∧ name = shape.helperName := by
  rcases List.mem_append.mp called with inBody | inHelpers
  · have sound := soundOf_checks planned.inherited named succeeds.planned
    rw [succeeds.body] at inBody
    rcases Check.asked_of_calledIn isFlat_action sound (isWhole_root named) planned.words
      (fun _ site _ => role_action site) (fun _ _ _ _ => isPlain_action) inBody with
      ⟨shape, demanded, same⟩
    exact ⟨shape, succeeds.known shape (Or.inl demanded), same⟩
  · rw [succeeds.text] at inHelpers
    rcases planned.calledIn inHelpers with ⟨shape, ⟨helper, membership, isAsked | rfl⟩, same⟩
    · exact ⟨shape, succeeds.known shape (Or.inr ⟨helper, membership, isAsked⟩), same⟩
    · have served : after.Served helper.shape.name :=
        (succeeds.advances.served_iff valid).mpr
          (Or.inr (List.mem_map_of_mem (List.mem_map_of_mem membership)))
      exact ⟨helper.shape, served.1, same⟩

end

end

end Call

end Reconcile.Equality
