import Reconcile.Proofs.Code.Nesting
import Reconcile.Proofs.Compare.Closure
import Reconcile.Proofs.Compare.Recording
import Reconcile.Resource.Registration

/-!
# Nesting of comparison code

Whatever comparisons write is well nested and indented by the blocks that are open
(`nested_generated`). Sound checks are laid out from trees without titles, and each helper is
one block at the outermost level.
-/

namespace Reconcile

namespace Check

variable {root : Site} {action : Site → String} {plain : Shape → Prop}

mutual

/-- Sound checks hold no remark, and remarks are the only code with a title. -/
theorem areUntitled_code {blocks : List String} : (check : Check) →
    check.Sound root plain blocks → Code.AreUntitled (check.code action)
  | .present _ inside, ⟨_, sound⟩ =>
      ⟨⟨⟨trivial, trivial⟩, areUntitled_codeOf inside sound⟩, trivial⟩
  | .unequal _ _, _ => ⟨⟨trivial, trivial⟩, trivial⟩
  | .tags _, _ => ⟨trivial, trivial, ⟨trivial, trivial⟩, trivial⟩
  | .sized _ inside, ⟨_, sound⟩ =>
      ⟨⟨⟨trivial, trivial⟩, areUntitled_codeOf inside sound⟩, trivial⟩
  | .keys _, _ => ⟨⟨⟨trivial, trivial⟩, trivial⟩, trivial⟩
  | .eachIndex _ inside, ⟨_, sound⟩ => ⟨areUntitled_codeOf inside sound, trivial⟩
  | .eachEntry _ inside, ⟨_, sound⟩ => ⟨⟨trivial, areUntitled_codeOf inside sound⟩, trivial⟩
  | .todo _, _ => ⟨trivial, trivial⟩
  | .remark _ _, impossible => impossible.elim
  | .rejected _ _, _ => trivial

theorem areUntitled_codeOf {blocks : List String} : (checks : List Check) →
    SoundOf root plain blocks checks → Code.AreUntitled (codeOf action checks)
  | [], _ => trivial
  | check :: rest, ⟨sound, restSound⟩ => by
      rw [codeOf, Code.areUntitled_append]
      exact ⟨areUntitled_code check sound, areUntitled_codeOf rest restSound⟩

end

theorem isNested_body {checks : List Check} (flat : IsFlat action)
    (sound : SoundOf root plain [] checks) (wholeRoot : root.IsWhole)
    (words : ∀ shape, plain shape → Text.IsWord shape.name) (level : Nat)
    (actions : ∀ blocks site, Site.Reached root blocks site →
      ∀ level, Line.IsPlain ⟨level, action site⟩) :
    Code.IsNested level (Code.renderBehindBlank (codeOf action checks) level) := by
  have holds := holdsOf_codeOf flat checks sound (fun _ demanded => demanded)
    (fun _ isVisited => isVisited)
  have none : Line.Nested level 0 [] := rfl
  have inner := Code.nested_linesOf _ 0 holds (areUntitled_codeOf checks sound) none
  refine Code.isNested_of_lines (Code.renderBehindBlank_eq _ _)
    (readAll_body flat sound wholeRoot words level actions) ?_
  simpa using inner

end Check

namespace Equality

variable {normalizer : Normalizer} {fits : Shape → Prop} {helpers : List Helper}

/-- Blocks one after the other at the outermost level, with empty lines between them. -/
theorem nested_helperLines {property : List String → String → Prop}
    (holds : ∀ helper ∈ helpers, helper.code.Holds property [])
    (untitled : ∀ helper ∈ helpers, helper.code.IsUntitled) :
    Line.Nested 0 0 (helperLines helpers) := by
  unfold helperLines
  induction helpers with
  | nil => rfl
  | cons helper rest ih =>
      have others := ih (fun other inRest => holds other (List.mem_cons_of_mem _ inRest))
        (fun other inRest => untitled other (List.mem_cons_of_mem _ inRest))
      have first : ∀ {later}, Line.Nested 0 0 later →
          Line.Nested 0 0 (helper.code.lines (0 + 0) ++ later) :=
        Code.nested_lines helper.code 0 (holds helper List.mem_cons_self)
          (untitled helper List.mem_cons_self)
      cases rest with
      | nil =>
          have none : Line.Nested 0 0 [] := rfl
          simpa using first none
      | cons next later =>
          simp only [List.map_cons, List.intercalate_cons_cons, List.append_assoc] at others ⊢
          exact first (Line.nested_blank.mpr others)

theorem PlainHelpers.isNested (planned : PlainHelpers normalizer fits helpers) :
    Code.IsNested 0 (helpersText helpers) := by
  refine Code.isNested_of_lines (helpersText_eq helpers) planned.readAll ?_
  apply @nested_helperLines helpers (HelperLine helpers)
  · intro helper membership
    have isWritten := membership
    rw [planned.ofShape helper membership] at isWritten ⊢
    exact holds_helper planned.inherited (planned.plain helper membership) isWritten
  · intro helper membership
    rw [planned.ofShape helper membership]
    have sound := soundOf_helper planned.inherited (planned.plain helper membership) []
    exact Code.areUntitled_append.mpr ⟨Check.areUntitled_codeOf _ sound, trivial, trivial⟩

end Equality

/--
The texts of comparisons are well nested and indented: difference code and the bodies of equality
code from their level on, and helpers from the outermost level on. Names are words, and operands
are words with dots between them.
-/
theorem nested_generated :
    (∀ (resource : Resource) (normalizer : Normalizer) (first second : String) (level : Nat)
      (text : String),
        resource.Named Text.IsWord (Shape.Named normalizer (fun _ => True) Text.IsWord) →
          Text.IsDotted first → Text.IsDotted second →
            Delta.compareResource resource normalizer first second level = .ok text →
              Code.IsNested level text) ∧
      ∀ (call : Equality.Call) (queue after : HelperQueue) (code : EqualityCode),
        call.IsNamed (Shape.Named call.normalizer Text.IsWord Text.IsWord) →
          (∀ shape ∈ queue.pending,
            shape.IsPlain (Shape.Named call.normalizer Text.IsWord Text.IsWord)) →
            call.run queue = (.ok code, after) →
              Code.IsNested call.level code.body ∧ Code.IsNested 0 code.helpers := by
  constructor
  · intro resource normalizer first second level text named firstDotted secondDotted written
    have inherited := Shape.inherited_named normalizer (fun _ => True)
    rcases Delta.compareResource_ok (fun _ => False) inherited named written with
      ⟨tag, checks, _, _, sound, rfl⟩
    have wholeRoot := Site.isWhole_ofSpec firstDotted secondDotted
    refine Check.isNested_body Delta.isFlat_action sound wholeRoot (by simp) level ?_
    intro blocks site reached level
    exact Delta.isPlain_action (reached.isWhole wholeRoot) (reached.pathWords Site.isWord_ofSpec)
  · intro call queue after code named pending run
    have inherited := Shape.inherited_named call.normalizer Text.IsWord
    rcases Equality.Call.succeeds_of_run run with ⟨checks, added, helpers, succeeds⟩
    have planned := succeeds.plainHelpers inherited (fun _ plain => plain.named) named pending
    rw [succeeds.body, succeeds.text]
    refine ⟨?_, planned.isNested⟩
    exact Check.isNested_body Equality.isFlat_action
      (Equality.Call.soundOf_checks inherited named succeeds.planned)
      (Equality.Call.isWhole_root named) planned.words call.level
      (fun _ _ _ _ => Equality.isPlain_action)

/-- A list of structures is compared by well nested code at level one, and by a helper. -/
theorem nested_generated_items :
    let item : Shape := .struct "Item" [("Name", Shape.scalarOf .string)]
    let outer : Shape := .struct "Outer" [("Items", .sequence "ItemList" item)]
    let call : Equality.Call := ⟨.shape outer, .default, "a.ko", "b.ko", 1⟩
    (∃ resource text, Resource.ofDefinition ⟨"Outer", outer, none, ∅⟩ {} .default = .ok resource ∧
      Delta.compareResource resource .default "a.ko" "b.ko" 1 = .ok text ∧
        Code.IsNested 1 text) ∧
      ∃ code after, call.run .empty = (.ok code, after) ∧ Code.IsNested 1 code.body ∧
        Code.IsNested 0 code.helpers := by
  intro item outer call
  constructor
  · have facts : ∃ resource ∈ (Resource.ofDefinition ⟨"Outer", outer, none, ∅⟩ {}
        .default).toOption,
          resource.Named Text.IsWord (Shape.Named .default (fun _ => True) Text.IsWord) ∧
            (Delta.compareResource resource .default "a.ko" "b.ko" 1).toOption.isSome = true := by
      decide +kernel
    rcases facts with ⟨resource, made, named, succeeds⟩
    rcases Option.isSome_iff_exists.mp succeeds with ⟨text, given⟩
    have written := Outcome.of_mem_toOption given
    exact ⟨resource, text, Outcome.of_mem_toOption made, written,
      nested_generated.1 resource .default "a.ko" "b.ko" 1 text named (by decide) (by decide)
        written⟩
  · have outerNamed : outer.Named .default Text.IsWord Text.IsWord := by decide +kernel
    have named : call.IsNamed (Shape.Named call.normalizer Text.IsWord Text.IsWord) :=
      ⟨by decide, by decide, outerNamed⟩
    have succeeds : (call.run .empty).1.toOption.isSome = true := by decide +kernel
    rcases Option.isSome_iff_exists.mp succeeds with ⟨code, given⟩
    have run : call.run .empty = (.ok code, (call.run .empty).2) :=
      Prod.ext (Outcome.of_mem_toOption given) rfl
    exact ⟨code, (call.run .empty).2, run,
      nested_generated.2 call .empty _ code named (by simp [HelperQueue.empty]) run⟩

end Reconcile
