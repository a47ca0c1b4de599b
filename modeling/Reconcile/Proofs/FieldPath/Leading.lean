import Mathlib.Data.List.Forall2
import Reconcile.FieldPath
import Reconcile.Proofs.Text.Cutting

/-!
# Leading parts of paths

A dotted subject leads a path if its pieces are the first segments of the path, one by one
(`FieldPath.startsWith_iff`). So for paths whose segments have no dots, the test on the text of a
path is the order of being a leading part of another path (`FieldPath.leads_exact`).
-/

namespace Reconcile.FieldPath

variable {path leading : FieldPath} {subject : String}

/-- Pieces pass the test if they are the same as the first segments, pair by pair. -/
theorem all_zip_iff {same : String → String → Bool} {pieces segments : List String} :
    (pieces.length ≤ segments.length ∧
        (pieces.zip segments).all (fun pair => same pair.2 pair.1) = true) ↔
      ∃ front, front <+: segments ∧
        List.Forall₂ (fun piece segment => same segment piece = true) pieces front := by
  induction pieces generalizing segments with
  | nil =>
      constructor
      · intro _
        exact ⟨[], List.nil_prefix, .nil⟩
      · intro _
        exact ⟨Nat.zero_le _, rfl⟩
  | cons piece others ih =>
      cases segments with
      | nil =>
          constructor
          · rintro ⟨short, _⟩
            exact absurd short (by simp)
          · rintro ⟨front, isFront, pairs⟩
            rw [List.prefix_nil.mp isFront] at pairs
            cases pairs
      | cons segment rest =>
          rw [List.zip_cons_cons, List.all_cons, Bool.and_eq_true, List.length_cons,
            List.length_cons, Nat.succ_le_succ_iff, and_left_comm, ih]
          constructor
          · rintro ⟨first, front, isFront, pairs⟩
            exact ⟨segment :: front, List.cons_prefix_cons.mpr ⟨rfl, isFront⟩, .cons first pairs⟩
          · rintro ⟨_, isFront, pairs⟩
            cases pairs with
            | cons first later =>
                rcases List.cons_prefix_cons.mp isFront with ⟨rfl, isBehind⟩
                exact ⟨first, _, isBehind, later⟩

theorem startsWithBy_iff {same : String → String → Bool} : path.startsWithBy same subject = true ↔
    ∃ front, front <+: path.segments ∧
      List.Forall₂ (fun piece segment => same segment piece = true)
        (Text.split '.' subject) front := by
  rw [startsWithBy, Bool.and_eq_true, decide_eq_true_eq]
  exact all_zip_iff

/-- A subject leads a path if its pieces are the first segments. -/
theorem startsWith_iff :
    path.startsWith subject = true ↔ Text.split '.' subject <+: path.segments := by
  rw [startsWith, startsWithBy_iff]
  constructor
  · rintro ⟨front, isFront, pairs⟩
    have same : Text.split '.' subject = front := by
      rw [← List.forall₂_eq_eq_eq]
      exact pairs.imp (fun _ _ equal => (eq_of_beq equal).symm)
    rwa [same]
  · intro isFront
    exact ⟨_, isFront, List.forall₂_same.mpr (fun piece _ => beq_self_eq_true piece)⟩

theorem startsWithIgnoringCase_of_startsWith (leads : path.startsWith subject = true) :
    path.startsWithIgnoringCase subject = true :=
  startsWithBy_iff.mpr ⟨_, startsWith_iff.mp leads,
    List.forall₂_same.mpr (fun piece _ => Text.equalIgnoringCase_refl piece)⟩

/-! ### Subjects that are texts of paths -/

/-- Whether a path has segments and none of them holds a dot. Segments may be empty. -/
structure IsDotless (path : FieldPath) : Prop where
  nonempty : path.segments ≠ []
  clean : ∀ segment ∈ path.segments, '.' ∉ segment.toList

instance (path : FieldPath) : Decidable path.IsDotless :=
  decidable_of_iff (path.segments ≠ [] ∧ ∀ segment ∈ path.segments, '.' ∉ segment.toList)
    ⟨fun ⟨nonempty, clean⟩ => ⟨nonempty, clean⟩, fun ⟨nonempty, clean⟩ => ⟨nonempty, clean⟩⟩

theorem IsDotless.split_text (dotless : leading.IsDotless) :
    Text.split '.' leading.text = leading.segments :=
  Text.split_intercalate dotless.nonempty dotless.clean

theorem IsDotless.startsWith_text (dotless : leading.IsDotless) :
    path.startsWith leading.text = true ↔ leading.segments <+: path.segments := by
  rw [startsWith_iff, dotless.split_text]

/-- Whether two segments have the same letters up to case. -/
def IsSimilar (own segment : String) : Prop :=
  own.toList.map Char.toLower = segment.toList.map Char.toLower

theorem equalIgnoringCase_iff_isSimilar {own segment : String} :
    Text.equalIgnoringCase segment own = true ↔ IsSimilar own segment := by
  rw [Text.equalIgnoringCase_comm, Text.equalIgnoringCase_iff, Text.lower, Text.lower,
    String.ofList_inj, IsSimilar]

theorem IsDotless.startsWithIgnoringCase_text (dotless : leading.IsDotless) :
    path.startsWithIgnoringCase leading.text = true ↔
      ∃ front, front <+: path.segments ∧ List.Forall₂ IsSimilar leading.segments front := by
  rw [startsWithIgnoringCase, startsWithBy_iff, dotless.split_text]
  simp only [equalIgnoringCase_iff_isSimilar]

/-- The first segments up to the last index of a path are that path. -/
theorem upTo?_eq_some (nonempty : leading.segments ≠ []) :
    path.upTo? (leading.length - 1) = some leading ↔ leading.segments <+: path.segments := by
  have positive := List.length_pos_iff.mpr nonempty
  have length : leading.length - 1 + 1 = leading.segments.length := Nat.sub_add_cancel positive
  rw [upTo?, length, List.prefix_iff_eq_take]
  constructor
  · intro found
    split at found
    · exact congrArg segments (Option.some.inj found).symm
    · cases found
  · intro isFront
    have inside : leading.length - 1 < path.length := by
      have lengths := congrArg List.length isFront
      rw [List.length_take] at lengths
      rw [FieldPath.length, FieldPath.length]
      omega
    rw [if_pos inside, ← isFront]

/-- Segments that are matched have the same length, so that none is matched by a part of it. -/
theorem IsDotless.not_leads_of_part (dotless : leading.IsDotless) {index : Nat}
    {part whole : String} (isPart : leading.at? index = some part)
    (isWhole : path.at? index = some whole) (inside : part.toList <:+: whole.toList)
    (isMere : part ≠ whole) : path.startsWithIgnoringCase leading.text = false := by
  rw [← Bool.not_eq_true, dotless.startsWithIgnoringCase_text]
  rintro ⟨front, isFront, pairs⟩
  rcases List.getElem?_eq_some_iff.mp isPart with ⟨inLeading, rfl⟩
  rcases List.getElem?_eq_some_iff.mp isWhole with ⟨inPath, rfl⟩
  have inFront : index < front.length := pairs.length_eq ▸ inLeading
  have same := pairs.get inLeading inFront
  rw [List.get_eq_getElem, List.get_eq_getElem, isFront.getElem inFront] at same
  have lengths := congrArg List.length same
  rw [List.length_map, List.length_map] at lengths
  exact isMere (String.toList_inj.mp (inside.eq_of_length lengths))

/--
The text of a path without dots leads another path exactly if the segments are the first ones of
that path, and exactly if the path is the part of the other one up to its last index; up to letter
case, if the same holds segment by segment up to letter case. So leading orders such paths, it
implies leading up to letter case, and no segment is matched by a mere part of it.
-/
theorem leads_exact (path : FieldPath) {leading : FieldPath} (dotless : leading.IsDotless) :
    (path.startsWith leading.text = true ↔ leading.segments <+: path.segments) ∧
      (path.startsWith leading.text = true ↔ path.upTo? (leading.length - 1) = some leading) ∧
      (path.startsWithIgnoringCase leading.text = true ↔
        ∃ front, front <+: path.segments ∧ List.Forall₂ IsSimilar leading.segments front) ∧
      leading.startsWith leading.text = true ∧
      (∀ shorter : FieldPath, shorter.IsDotless → path.startsWith leading.text = true →
        leading.startsWith shorter.text = true → path.startsWith shorter.text = true) ∧
      (path.IsDotless → path.startsWith leading.text = true →
        leading.startsWith path.text = true → path = leading) ∧
      (path.startsWith leading.text = true → path.startsWithIgnoringCase leading.text = true) ∧
      ∀ index part whole, leading.at? index = some part → path.at? index = some whole →
        part.toList <:+: whole.toList → part ≠ whole →
          path.startsWith leading.text = false ∧
            path.startsWithIgnoringCase leading.text = false := by
  have isLeading : ∀ {other : FieldPath},
      other.startsWith leading.text = true ↔ leading.segments <+: other.segments :=
    dotless.startsWith_text
  refine ⟨isLeading, isLeading.trans (upTo?_eq_some dotless.nonempty).symm,
    dotless.startsWithIgnoringCase_text, isLeading.mpr List.prefix_rfl, ?_, ?_,
    startsWithIgnoringCase_of_startsWith, ?_⟩
  · intro shorter shorterDotless leads leadsToo
    rw [shorterDotless.startsWith_text] at leadsToo ⊢
    exact leadsToo.trans (isLeading.mp leads)
  · intro pathDotless leads leadsBack
    have isFront := isLeading.mp leads
    have isBack := pathDotless.startsWith_text.mp leadsBack
    exact congrArg mk (isBack.eq_of_length_le isFront.length_le)
  · intro index part whole isPart isWhole inside isMere
    have apart := dotless.not_leads_of_part isPart isWhole inside isMere
    refine ⟨?_, apart⟩
    rw [← Bool.not_eq_true] at apart ⊢
    exact mt startsWithIgnoringCase_of_startsWith apart

/-- Empty segments are matched by empty ones, and a beginning of a segment matches nothing. -/
theorem leads_exact_tags :
    let path : FieldPath := ⟨["Spec", "Tags", "", "Key"]⟩
    let leading : FieldPath := ⟨["Spec", "Tags", ""]⟩
    let cased : FieldPath := ⟨["spec", "TAGS"]⟩
    let cut : FieldPath := ⟨["Spec", "Tag"]⟩
    (leading.IsDotless ∧ path.startsWith leading.text = true ∧ path.upTo? 2 = some leading) ∧
      (cased.IsDotless ∧ path.startsWith cased.text = false ∧
        path.startsWithIgnoringCase cased.text = true) ∧
      cut.IsDotless ∧ path.startsWith cut.text = false ∧
        path.startsWithIgnoringCase cut.text = false := by
  intro path leading cased cut
  have leadingDotless : leading.IsDotless := by decide
  have casedDotless : cased.IsDotless := by decide
  have cutDotless : cut.IsDotless := by decide
  rcases leads_exact path leadingDotless with ⟨isFront, isPart, _⟩
  rcases leads_exact path casedDotless with ⟨isCased, _, isSimilar, _⟩
  rcases leads_exact path cutDotless with ⟨_, _, _, _, _, _, _, apart⟩
  have front : leading.segments <+: path.segments := ⟨["Key"], rfl⟩
  refine ⟨⟨leadingDotless, isFront.mpr front, isPart.mp (isFront.mpr front)⟩,
    ⟨casedDotless, ?_, ?_⟩, cutDotless, apart 1 "Tag" "Tags" rfl rfl ⟨[], ['s'], rfl⟩ (by decide)⟩
  · rw [← Bool.not_eq_true, isCased]
    decide
  · exact isSimilar.mpr ⟨["Spec", "Tags"], ⟨["", "Key"], rfl⟩, .cons rfl (.cons rfl .nil)⟩

end Reconcile.FieldPath
