import Reconcile.Proofs.Compare.Closure

/-!
# Helpers lost by failures

A call that fails while it writes helpers has taken them off the queue and drops their text, so
that nobody writes them again: they are lost. The statements here say exactly when this happens
(`failure_keeps_iff`) and that it is the only way in which a text can call a function that no
text defines (`defined_iff_not_lost`).
-/

namespace Reconcile.Equality

/-- Whether a call takes a helper off a queue and fails. -/
def Call.Loses (call : Call) (queue : HelperQueue) (name : String) : Prop :=
  (call.run queue).1.isOk = false ∧ ¬queue.Served name ∧ (call.run queue).2.Served name

/-- Whether one of several calls loses a helper. -/
def Lost : List Call → HelperQueue → String → Prop
  | [], _, _ => False
  | call :: rest, queue, name => call.Loses queue name ∨ Lost rest (call.run queue).2 name

/-- Whether all names that a call asks for first are pending behind it. -/
def Call.Keeps (call : Call) (queue : HelperQueue) : Prop :=
  ∀ name ∈ (call.run queue).2.requested, name ∉ queue.requested →
    name ∈ (call.run queue).2.pending.map Shape.name

/-! ### One failure -/

section

variable {before after : HelperQueue} {added taken : List Shape}

/-- What was added is pending if no more was taken than had been pending before. -/
theorem pending_of_added (advances : before.Advances added taken after)
    (short : taken <+: before.pending) : added ⊆ after.pending := by
  rcases short with ⟨left, same⟩
  have split := advances.pending
  rw [← same, List.append_assoc] at split
  rw [← List.append_cancel_left split]
  exact List.subset_append_right left added

/-- The last shape that was taken had been pending before, with all others, or was added. -/
theorem prefix_or_added {written : List Shape} {failing : Shape}
    (advances : before.Advances added (written ++ [failing]) after) :
    written ++ [failing] <+: before.pending ∨ (before.pending <+: written ∧ failing ∈ added) := by
  -- Where the queue ended before the call lies either in what was taken or behind it.
  rcases List.append_eq_append_iff.mp advances.pending with
    ⟨more, taking, adding⟩ | ⟨left, pending, _⟩
  · rcases List.eq_nil_or_concat more with rfl | ⟨front, last, rfl⟩
    · exact Or.inl (by simp [taking])
    · rw [List.concat_eq_append, ← List.append_assoc] at taking
      rcases List.append_inj' taking rfl with ⟨before, same⟩
      rcases List.cons_eq_cons.mp same with ⟨rfl, _⟩
      exact Or.inr ⟨⟨front, before.symm⟩, by simp [adding]⟩
  · exact Or.inl ⟨left, pending.symm⟩

end

variable {call : Call} {queue : HelperQueue}

/-- What a failing call asks for first stays pending if its own checks cannot be written or a
shape that had been pending cannot. -/
theorem keeps_of_fails {added taken : List Shape}
    (fails : call.Fails queue added taken (call.run queue).2)
    (cause : ¬call.IsWritable ∨ ∃ shape ∈ queue.pending, ¬IsWritable call.normalizer shape) :
    call.Keeps queue := by
  have short : taken <+: queue.pending := by
    rcases fails.cause with ⟨_, rfl⟩ | ⟨writable, written, failing, rfl, allWritable, _⟩
    · exact List.nil_prefix
    · rcases prefix_or_added fails.advances with short | ⟨pendingWritten, _⟩
      · exact short
      · rcases cause with unwritable | ⟨shape, isPending, unwritable⟩
        · exact absurd writable unwritable
        · exact absurd (allWritable shape (pendingWritten.subset isPending)) unwritable
  intro name isRequested isNew
  rw [fails.advances.requested] at isRequested
  rcases List.mem_append.mp isRequested with isOld | isAdded
  · exact absurd isOld isNew
  · rcases List.mem_map.mp isAdded with ⟨shape, membership, rfl⟩
    exact List.mem_map_of_mem (pending_of_added fails.advances short membership)

/-- Otherwise the helper that failed is lost, and it was asked for by this call. -/
theorem cause_of_keeps {added taken : List Shape} (valid : queue.Valid)
    (fails : call.Fails queue added taken (call.run queue).2) (keeps : call.Keeps queue) :
    ¬call.IsWritable ∨ ∃ shape ∈ queue.pending, ¬IsWritable call.normalizer shape := by
  rcases fails.cause with ⟨unwritable, _⟩ | ⟨_, written, failing, rfl, _, unwritable⟩
  · exact Or.inl unwritable
  · refine Or.inr ⟨failing, ?_, unwritable⟩
    rcases prefix_or_added fails.advances with short | ⟨_, isAdded⟩
    · exact short.subset (by simp)
    · exfalso
      have served : (call.run queue).2.Served failing.name :=
        (fails.advances.served_iff valid).mpr (Or.inr (List.mem_map_of_mem (by simp)))
      exact served.2 (keeps failing.name served.1 (fails.advances.fresh failing isAdded))

/-! ### Runs with failures -/

/--
Whether what has been taken is either defined by a text or lost, and what texts call has been
taken.
-/
structure Tracked (fits : Shape → Prop) (lost : String → Prop) (codes : List EqualityCode)
    (queue : HelperQueue) : Prop where
  valid : queue.Valid
  plain : ∀ shape ∈ queue.pending, shape.IsPlain fits
  served : ∀ name, queue.Served name ↔ helperFor name ∈ definitions codes ∨ lost name
  apart : ∀ name, helperFor name ∈ definitions codes → ¬lost name
  called : ∀ code ∈ codes, ∀ name, helperFor name ∈ called code → queue.Served name

namespace Tracked

variable {fits : Shape → Prop} {lost : String → Prop} {codes : List EqualityCode}
  {after : HelperQueue}

theorem empty : Tracked fits (fun _ => False) [] .empty where
  valid := HelperQueue.valid_empty
  plain := by simp [HelperQueue.empty]
  served := by simp [HelperQueue.Served, HelperQueue.empty, definitions]
  apart := by simp
  called := by simp

theorem succeed {code : EqualityCode} (tracked : Tracked fits lost codes queue)
    (inherited : Shape.Inherited call.normalizer fits)
    (words : ∀ shape : Shape, shape.IsPlain fits → Text.IsWord shape.name)
    (named : call.IsNamed fits) (run : call.run queue = (.ok code, after)) :
    Tracked fits lost (codes ++ [code]) after := by
  rcases Call.succeeds_of_run run with ⟨checks, added, helpers, succeeds⟩
  have planned := succeeds.plainHelpers inherited words named tracked.plain
  have defines : ∀ name, helperFor name ∈ definitions (codes ++ [code]) ↔
      helperFor name ∈ definitions codes ∨ name ∈ (helpers.map Helper.shape).map Shape.name := by
    intro name
    have ofCode : definitions [code] =
        ((helpers.map Helper.shape).map Shape.name).map helperFor := by
      rw [definitions, List.flatMap_singleton, succeeds.definitionsIn planned, List.map_map,
        List.map_map]
      rfl
    rw [definitions_append, List.mem_append, ofCode, List.mem_map]
    refine or_congr_right ⟨?_, fun isTaken => ⟨name, isTaken, rfl⟩⟩
    rintro ⟨other, isTaken, same⟩
    exact helperFor_injective same ▸ isTaken
  have served : ∀ name, after.Served name ↔
      queue.Served name ∨ name ∈ (helpers.map Helper.shape).map Shape.name := by
    intro name
    exact succeeds.advances.served_iff tracked.valid
  refine ⟨succeeds.advances.valid tracked.valid, by simp [succeeds.pending], ?_, ?_, ?_⟩
  · intro name
    rw [served, defines, tracked.served, or_right_comm]
  · intro name isDefined isLost
    rcases (defines name).mp isDefined with isOld | isTaken
    · exact tracked.apart name isOld isLost
    · exact succeeds.advances.not_served tracked.valid isTaken
        ((tracked.served name).mpr (Or.inr isLost))
  · intro other membership name isCalled
    rcases List.mem_append.mp membership with isOld | isNew
    · exact (served name).mpr (Or.inl (tracked.called other isOld name isCalled))
    · rw [List.mem_singleton.mp isNew] at isCalled
      rcases succeeds.requested_of_called planned named tracked.valid isCalled with
        ⟨shape, isRequested, same⟩
      rw [helperFor_injective same]
      exact ⟨isRequested, by simp [succeeds.pending]⟩

theorem fail {error : CompareError} (tracked : Tracked fits lost codes queue)
    (inherited : Shape.Inherited call.normalizer fits)
    (named : call.IsNamed fits) (run : call.run queue = (.error error, after)) :
    Tracked fits (fun name => lost name ∨ call.Loses queue name) codes after := by
  rcases Call.fails_of_run run with ⟨added, taken, fails⟩
  have ofAdded := fails.passed _ (Call.passedOn_plain inherited) (Call.asks_plain inherited named)
    tracked.plain
  have served : ∀ name, after.Served name ↔ queue.Served name ∨ name ∈ taken.map Shape.name := by
    intro name
    exact fails.advances.served_iff tracked.valid
  have loses : ∀ name, call.Loses queue name ↔ ¬queue.Served name ∧ after.Served name := by
    intro name
    simp [Call.Loses, run, Except.isOk, Except.toBool]
  refine ⟨fails.advances.valid tracked.valid,
    (fails.advances.forall_pending tracked.plain ofAdded).2, ?_, ?_, ?_⟩
  · intro name
    rw [← or_assoc, ← tracked.served, loses]
    constructor
    · intro isServed
      by_cases already : queue.Served name
      · exact Or.inl already
      · exact Or.inr ⟨already, isServed⟩
    · rintro (already | ⟨_, isServed⟩)
      · exact (served name).mpr (Or.inl already)
      · exact isServed
  · rintro name isDefined (isLost | isLostNow)
    · exact tracked.apart name isDefined isLost
    · exact ((loses name).mp isLostNow).1 ((tracked.served name).mpr (Or.inl isDefined))
  · intro code membership name isCalled
    exact (served name).mpr (Or.inl (tracked.called code membership name isCalled))

theorem runAll {calls : List Call} (tracked : Tracked fits lost codes queue)
    (inherited : ∀ call ∈ calls, Shape.Inherited call.normalizer fits)
    (words : ∀ shape : Shape, shape.IsPlain fits → Text.IsWord shape.name)
    (named : ∀ call ∈ calls, call.IsNamed fits) :
    Tracked fits (fun name => lost name ∨ Lost calls queue name)
      (codes ++ written (Call.runAll calls queue).1) (Call.runAll calls queue).2 := by
  induction calls generalizing lost codes queue with
  | nil => simpa [Call.runAll, written, Lost] using tracked
  | cons call rest ih =>
      have first := inherited call List.mem_cons_self
      have restInherited := fun other inRest => inherited other (List.mem_cons_of_mem call inRest)
      have restNamed := fun other inRest => named other (List.mem_cons_of_mem call inRest)
      cases run : call.run queue with
      | mk result between =>
          cases result with
          | ok code =>
              have keeps : ∀ name, ¬call.Loses queue name := by
                simp [Call.Loses, run, Except.isOk, Except.toBool]
              have next := tracked.succeed first words (named call List.mem_cons_self) run
              have later := ih next restInherited restNamed
              simpa [Call.runAll, run, Lost, keeps] using later
          | error error =>
              have next := tracked.fail first (named call List.mem_cons_self) run
              have later := ih next restInherited restNamed
              simpa [Call.runAll, run, Lost, or_assoc] using later

end Tracked

/-- A failing call loses something exactly if what cannot be written was asked for by itself. -/
theorem keeps_iff (reachable : queue.Reachable) (failed : (call.run queue).1.isOk = false) :
    call.Keeps queue ↔
      ¬call.IsWritable ∨ ∃ shape ∈ queue.pending, ¬IsWritable call.normalizer shape := by
  cases run : call.run queue with
  | mk result after =>
      cases result with
      | ok code => simp [run, Except.isOk, Except.toBool] at failed
      | error error =>
          rcases Call.fails_of_run run with ⟨added, taken, fails⟩
          have same : after = (call.run queue).2 := by rw [run]
          rw [same] at fails
          exact ⟨cause_of_keeps reachable.valid fails, keeps_of_fails fails⟩

/-- What a text calls is defined if and only if it is not lost. -/
theorem defined_iff_not_lost {calls : List Call}
    (named : ∀ call ∈ calls, call.IsNamed (fun shape =>
      ∀ other ∈ calls, shape.Named other.normalizer Text.IsWord Text.IsWord))
    {code : EqualityCode} (membership : code ∈ written (Call.runAll calls .empty).1) {name : String}
    (isCalled : helperFor name ∈ called code) :
    helperFor name ∈ definitions (written (Call.runAll calls .empty).1) ↔
      ¬Lost calls .empty name := by
  have words : ∀ shape : Shape, shape.IsPlain (fun shape =>
      ∀ other ∈ calls, shape.Named other.normalizer Text.IsWord Text.IsWord) →
        Text.IsWord shape.name := by
    cases calls with
    | nil => simp [Call.runAll, written] at membership
    | cons first rest =>
        rintro shape ⟨fit, isStruct⟩
        have plain : shape.IsPlain (Shape.Named first.normalizer Text.IsWord Text.IsWord) :=
          ⟨fit first List.mem_cons_self, isStruct⟩
        exact plain.named
  have tracked := Tracked.empty.runAll
    (fun call listed => Shape.inherited_named_all Call.normalizer listed Text.IsWord) words named
  simp only [List.nil_append, false_or] at tracked
  have served := (tracked.served name).mp (tracked.called code membership name isCalled)
  exact ⟨tracked.apart name, served.resolve_right⟩

/--
A failing call keeps every helper that it asks for first pending exactly if its own checks
cannot be written or the helper of a shape that had been pending before cannot. In calls that
share a queue which was empty at first, a helper that some text calls is defined by some text
exactly if no failing call has lost it.
-/
theorem failure_keeps_iff (calls : List Call) :
    (∀ call ∈ calls, ∀ queue : HelperQueue, queue.Reachable → (call.run queue).1.isOk = false →
      (call.Keeps queue ↔
        ¬call.IsWritable ∨ ∃ shape ∈ queue.pending, ¬IsWritable call.normalizer shape)) ∧
      ((∀ call ∈ calls, call.IsNamed (fun shape =>
          ∀ other ∈ calls, shape.Named other.normalizer Text.IsWord Text.IsWord)) →
        ∀ code ∈ written (Call.runAll calls .empty).1, ∀ name, helperFor name ∈ called code →
          (helperFor name ∈ definitions (written (Call.runAll calls .empty).1) ↔
            ¬Lost calls .empty name)) := by
  constructor
  · intro call _ queue reachable failed
    exact keeps_iff reachable failed
  · intro named code membership name isCalled
    exact defined_iff_not_lost named membership isCalled

/-- A helper that fails is lost: the same call succeeds later and calls what nobody defines. -/
theorem failure_loses_item :
    let item : Shape :=
      .struct "Item" [("Counts", .mapping "StringMap" .integer (Shape.scalarOf .string))]
    let outer : Shape := .struct "Outer" [("Items", .sequence "ItemList" item)]
    let call : Call := ⟨.shape outer, .default, "a", "b", 1⟩
    ¬call.Keeps .empty ∧
      (∃ code ∈ written (Call.runAll [call, call] .empty).1, helperFor "Item" ∈ called code) ∧
        helperFor "Item" ∉ definitions (written (Call.runAll [call, call] .empty).1) ∧
          Lost [call, call] .empty "Item" := by
  intro item outer call
  rcases failure_keeps_iff [call, call] with ⟨keeps, defined⟩
  have outerNamed : outer.Named .default Text.IsWord Text.IsWord := by decide +kernel
  have named : ∀ other ∈ [call, call], other.IsNamed (fun shape =>
      ∀ further ∈ [call, call], shape.Named further.normalizer Text.IsWord Text.IsWord) := by
    intro other membership
    have same : other = call := by simpa using membership
    rw [same]
    refine ⟨by decide, by decide, ?_⟩
    intro further furtherMembership
    have sameFurther : further = call := by simpa using furtherMembership
    rw [sameFurther]
    exact outerNamed
  have failed : (call.run .empty).1.isOk = false := by decide +kernel
  have isWritable : call.IsWritable := ⟨_, rfl, by decide +kernel⟩
  have notKept : ¬call.Keeps .empty := by
    rw [keeps call List.mem_cons_self .empty .empty failed]
    rintro (unwritable | ⟨shape, isPending, _⟩)
    · exact unwritable isWritable
    · exact List.not_mem_nil isPending
  have calls : ∃ code ∈ written (Call.runAll [call, call] .empty).1,
      helperFor "Item" ∈ called code := by decide +kernel
  have undefined : helperFor "Item" ∉
      definitions (written (Call.runAll [call, call] .empty).1) := by decide +kernel
  refine ⟨notKept, calls, undefined, ?_⟩
  rcases calls with ⟨code, membership, isCalled⟩
  have iff := defined named code membership "Item" isCalled
  exact Classical.byContradiction (fun notLost => undefined (iff.mpr notLost))

end Reconcile.Equality
