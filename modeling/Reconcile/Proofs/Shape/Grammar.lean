import Reconcile.Proofs.Outcomes
import Reconcile.Shape.Draft

/-!
# The grammar of shapes

Which drafts become shapes is fixed by a grammar (`Draft.IsGrammatical`), and which shape a draft
becomes by what it spells (`Draft.Spells`). The defects of a draft are listed in the order in which
its parts are converted, whether or not the conversion gets that far (`Draft.defects`). The error is
then the first of the list (`Draft.error?_check`), and a draft follows the grammar exactly if there
is none. Parts that do not belong to the type of a draft can be left out (`Draft.check_pruned`).
-/

namespace Reconcile

namespace ScalarKind

/-- The words that schemas have for a kind, in small letters. -/
def words : ScalarKind → List String
  | .string => ["string", "character"]
  | .integer => ["integer", "long", "short", "byte"]
  | .float => ["float", "double"]
  | .boolean => ["boolean"]
  | .timestamp => ["timestamp"]
  | .blob => ["blob"]

/-- Whether a word stands for a kind, in whatever letter case. -/
def IsNamed (kind : ScalarKind) (word : String) : Prop :=
  ∃ known ∈ kind.words, Text.equalIgnoringCase word known = true

theorem ofLowerWord?_eq_some {word : String} {kind : ScalarKind} :
    ofLowerWord? word = some kind ↔ word ∈ kind.words := by
  constructor
  · intro found
    unfold ofLowerWord? at found
    split at found <;> cases found <;> decide
  · revert word
    cases kind <;> decide

theorem lower_of_mem_words {kind : ScalarKind} {word : String} (listed : word ∈ kind.words) :
    Text.lower word = word := by
  revert word
  cases kind <;> decide

theorem ofWord?_eq_some {word : String} {kind : ScalarKind} :
    ofWord? word = some kind ↔ kind.IsNamed word := by
  rw [ofWord?, ofLowerWord?_eq_some, IsNamed]
  constructor
  · intro listed
    refine ⟨_, listed, ?_⟩
    rw [Text.equalIgnoringCase_iff, lower_of_mem_words listed]
  · rintro ⟨known, listed, same⟩
    rw [Text.equalIgnoringCase_iff, lower_of_mem_words listed] at same
    rwa [same]

end ScalarKind

namespace Shape.Draft

open Outcome

/-- The word for the type of a draft. -/
def type : Draft → String
  | .mk type _ _ _ _ _ => type

/-- The types that are no words for scalars. -/
def composites : List String :=
  ["structure", "list", "map"]

/-- The word for the form that shapes of the type have. -/
def form (draft : Draft) : String :=
  match draft.type with
  | "structure" => "structure"
  | "list" => "sequence"
  | "map" => "mapping"
  | _ => "scalar"

/--
The grammar: a structure has a name and members by the grammar, a list has an element by the
grammar, a map has a scalar key and a value by the grammar, and any other type is a word for a
scalar. Nothing is asked of parts that do not belong to the type.
-/
inductive IsGrammatical : Draft → Prop
  | struct {name : String} {members : List (String × Draft)} {element key value : Option Draft}
      (each : ∀ member ∈ members, IsGrammatical member.2) :
      IsGrammatical (.mk "structure" (some name) members element key value)
  | list {name : Option String} {members : List (String × Draft)} {element : Draft}
      {key value : Option Draft} (ofElement : IsGrammatical element) :
      IsGrammatical (.mk "list" name members (some element) key value)
  | map {name : Option String} {members : List (String × Draft)} {element : Option Draft}
      {key value : Draft} {kind : ScalarKind} (named : kind.IsNamed key.type)
      (ofValue : IsGrammatical value) :
      IsGrammatical (.mk "map" name members element (some key) (some value))
  | scalar {kind : ScalarKind} {word : String} {name : Option String}
      {members : List (String × Draft)} {element key value : Option Draft}
      (named : kind.IsNamed word) : IsGrammatical (.mk word name members element key value)

/--
Whether a draft spells a shape: the shape is the same tree with the members in the same order, under
the names that are given. Without a name a list, a map or a scalar is named after its element, its
value or its kind.
-/
inductive Spells : Draft → Shape → Prop
  | struct {name : String} {parts : List (String × Draft)} {members : List (String × Shape)}
      {element key value : Option Draft} (names : parts.map Prod.fst = members.map Prod.fst)
      (each : ∀ pair ∈ parts.zip members, Spells pair.1.2 pair.2.2) :
      Spells (.mk "structure" (some name) parts element key value) (.struct name members)
  | list {name : Option String} {members : List (String × Draft)} {element : Draft}
      {key value : Option Draft} {shape : Shape} (ofElement : Spells element shape) :
      Spells (.mk "list" name members (some element) key value)
        (.sequence (name.getD (shape.name ++ "List")) shape)
  | map {name : Option String} {keyName : String} {members : List (String × Draft)}
      {element : Option Draft} {key value : Draft} {kind : ScalarKind} {shape : Shape}
      (ofKey : Spells key (.scalar keyName kind)) (ofValue : Spells value shape) :
      Spells (.mk "map" name members element (some key) (some value))
        (.mapping (name.getD (shape.name ++ "Map")) kind shape)
  | scalar {kind : ScalarKind} {word : String} {name : Option String}
      {members : List (String × Draft)} {element key value : Option Draft}
      (named : kind.IsNamed word) :
      Spells (.mk word name members element key value)
        (.scalar (name.getD (Text.capitalize kind.name)) kind)

/-- The defect of a key that is given but no scalar, in a map of a name. -/
def defectsOfKey (name : String) : Option Draft → List Defect
  | none => []
  | some key => if key.form = "scalar" then [] else [.unsupportedKey name key.form]

mutual

/--
All defects of a draft in the order in which its parts are converted. Looking for a defect does not
depend on whether another one was found before.
-/
def defects : Draft → List Defect
  | .mk "structure" name members _ _ _ =>
    (if name.isNone then [.missingStructureName] else []) ++ defectsOfMembers members
  | .mk "list" name _ element _ _ =>
    (if element.isNone then [.missingPart (name.getD "") .member] else []) ++
      defectsOfPart element
  | .mk "map" name _ _ key value =>
    (if key.isNone then [.missingPart (name.getD "") .key] else []) ++
      (if value.isNone then [.missingPart (name.getD "") .value] else []) ++
        defectsOfPart key ++
          defectsOfKey (name.getD "") key ++ defectsOfPart value
  | .mk word _ _ _ _ _ => if (ScalarKind.ofWord? word).isNone then [.unsupportedKind word] else []

/-- The defects of a part, if it is given. -/
def defectsOfPart : Option Draft → List Defect
  | none => []
  | some part => part.defects

/-- The defects of members in order. -/
def defectsOfMembers : List (String × Draft) → List Defect
  | [] => []
  | (_, draft) :: rest => draft.defects ++ defectsOfMembers rest

end

mutual

/-- The draft without the parts that do not belong to its type, here and below. -/
def pruned : Draft → Draft
  | .mk "structure" name members _ _ _ =>
    .mk "structure" name (prunedMembers members) none none none
  | .mk "list" name _ element _ _ => .mk "list" name [] (prunedPart element) none none
  | .mk "map" name _ _ key value => .mk "map" name [] none (prunedPart key) (prunedPart value)
  | .mk word name _ _ _ _ => .mk word name [] none none none

/-- A part, if it is given, without the parts that do not belong to it. -/
def prunedPart : Option Draft → Option Draft
  | none => none
  | some part => some part.pruned

/-- Members without the parts that do not belong to them. -/
def prunedMembers : List (String × Draft) → List (String × Draft)
  | [] => []
  | (name, draft) :: rest => (name, draft.pruned) :: prunedMembers rest

end

attribute [local simp] check defects

/-- Induction by types, with the hypothesis for the parts that belong to the type. -/
theorem typeInduction {motive : Draft → Prop}
    (struct : ∀ name members element key value, (∀ member ∈ members, motive member.2) →
      motive (.mk "structure" name members element key value))
    (list : ∀ name members element key value, (∀ part ∈ element, motive part) →
      motive (.mk "list" name members element key value))
    (map : ∀ name members element key value, (∀ part ∈ key, motive part) →
      (∀ part ∈ value, motive part) → motive (.mk "map" name members element key value))
    (word : ∀ word name members element key value, word ∉ composites →
      motive (.mk word name members element key value))
    (draft : Draft) : motive draft := by
  match draft with
  | .mk type name members element key value =>
    by_cases isStruct : type = "structure"
    · subst isStruct
      refine struct _ _ _ _ _ (fun member listed => ?_)
      rcases member with ⟨label, part⟩
      have smaller : sizeOf part < sizeOf members := by
        have within := List.sizeOf_lt_of_mem listed
        simp only [Prod.mk.sizeOf_spec] at within
        omega
      exact typeInduction struct list map word part
    by_cases isList : type = "list"
    · subst isList
      refine list _ _ _ _ _ (fun part given => ?_)
      exact typeInduction struct list map word part
    by_cases isMap : type = "map"
    · subst isMap
      refine map _ _ _ _ _ (fun part given => ?_) (fun part given => ?_)
      · exact typeInduction struct list map word part
      · exact typeInduction struct list map word part
    exact word _ _ _ _ _ _ (by simp [composites, isStruct, isList, isMap])
termination_by draft

theorem defectsOfMembers_eq (members : List (String × Draft)) :
    defectsOfMembers members = members.flatMap (fun member => member.2.defects) := by
  induction members with
  | nil => rfl
  | cons member rest ih => rw [defectsOfMembers, ih, List.flatMap_cons]

/-- Members are checked one by one and keep their names. -/
theorem checkMembers_eq_ok {parts : List (String × Draft)} {members : List (String × Shape)} :
    checkMembers parts = .ok members ↔ parts.map Prod.fst = members.map Prod.fst ∧
      ∀ pair ∈ parts.zip members, pair.1.2.check = .ok pair.2.2 := by
  induction parts generalizing members with
  | nil => cases members <;> simp [checkMembers]
  | cons part rest ih =>
      constructor
      · intro done
        rcases of_bind_eq_ok done with ⟨shape, checked, done⟩
        rcases of_bind_eq_ok done with ⟨shapes, others, made⟩
        cases made
        rcases ih.mp others with ⟨names, each⟩
        refine ⟨by rw [List.map_cons, List.map_cons, names], ?_⟩
        intro pair listed
        rw [List.zip_cons_cons, List.mem_cons] at listed
        rcases listed with rfl | inRest
        · exact checked
        · exact each pair inRest
      · rintro ⟨names, each⟩
        cases members with
        | nil => cases names
        | cons member members =>
            rcases List.cons.inj names with ⟨sameName, sameNames⟩
            have checked := each (part, member) List.mem_cons_self
            have others := ih.mpr ⟨sameNames, fun pair inRest =>
              each pair (List.mem_cons_of_mem _ inRest)⟩
            rw [checkMembers, checked, others, sameName]
            rfl

theorem not_mem_composites {word : String} {kind : ScalarKind} (named : kind.IsNamed word) :
    word ∉ composites := by
  rw [← ScalarKind.ofWord?_eq_some] at named
  intro composite
  have unknown : ∀ other ∈ composites, ScalarKind.ofWord? other = none := by decide
  rw [unknown word composite] at named
  cases named

section

variable {word : String} (other : word ∉ composites)
include other

theorem ne_of_not_mem_composites : word ≠ "structure" ∧ word ≠ "list" ∧ word ≠ "map" := by
  simpa [composites] using other

theorem check_word (name : Option String) (members : List (String × Draft))
    (element key value : Option Draft) :
    (mk word name members element key value).check =
      match ScalarKind.ofWord? word with
      | none => .error (.unsupportedKind word)
      | some kind => .ok (.scalar (name.getD kind.title) kind) := by
  rcases ne_of_not_mem_composites other with ⟨noStruct, noList, noMap⟩
  cases known : ScalarKind.ofWord? word with
  | none => simp [known]
  | some kind => simp [known]

theorem defects_word (name : Option String) (members : List (String × Draft))
    (element key value : Option Draft) :
    (mk word name members element key value).defects =
      if (ScalarKind.ofWord? word).isNone then [.unsupportedKind word] else [] := by
  rcases ne_of_not_mem_composites other with ⟨noStruct, noList, noMap⟩
  rw [defects]
  · exact noStruct
  · exact noList
  · exact noMap

theorem pruned_word (name : Option String) (members : List (String × Draft))
    (element key value : Option Draft) :
    (mk word name members element key value).pruned = .mk word name [] none none none := by
  rcases ne_of_not_mem_composites other with ⟨noStruct, noList, noMap⟩
  rw [pruned]
  · exact noStruct
  · exact noList
  · exact noMap

theorem form_word (name : Option String) (members : List (String × Draft))
    (element key value : Option Draft) :
    (mk word name members element key value).form = "scalar" := by
  simp [form, type, ne_of_not_mem_composites other]

end

/-! ### Shapes that are spelled -/

theorem spells_of_check {draft : Draft} {shape : Shape} (done : draft.check = .ok shape) :
    draft.Spells shape := by
  induction draft using typeInduction generalizing shape with
  | struct name members element key value ofMembers =>
      cases name with
      | none => cases done
      | some name =>
          rcases of_bind_eq_ok done with ⟨shapes, each, made⟩
          cases made
          rcases checkMembers_eq_ok.mp each with ⟨names, checked⟩
          refine .struct names (fun pair listed => ?_)
          exact ofMembers pair.1 (List.of_mem_zip listed).1 (checked pair listed)
  | list name members element key value ofElement =>
      cases element with
      | none => cases done
      | some element =>
          rcases of_bind_eq_ok done with ⟨shape, checked, made⟩
          cases made
          exact .list (ofElement element rfl checked)
  | map name members element key value ofKey ofValue =>
      cases key with
      | none => cases done
      | some key =>
          cases value with
          | none => cases done
          | some value =>
              rcases of_bind_eq_ok done with ⟨keyShape, keyChecked, done⟩
              cases keyShape with
              | scalar keyName kind =>
                  rcases of_bind_eq_ok done with ⟨shape, checked, made⟩
                  cases made
                  exact .map (ofKey key rfl keyChecked) (ofValue value rfl checked)
              | struct => cases done
              | sequence => cases done
              | mapping => cases done
  | word word name members element key value other =>
      rw [check_word other] at done
      cases known : ScalarKind.ofWord? word with
      | none =>
          rw [known] at done
          cases done
      | some kind =>
          rw [known] at done
          cases done
          exact .scalar (ScalarKind.ofWord?_eq_some.mp known)

theorem check_of_spells {draft : Draft} {shape : Shape} (spells : draft.Spells shape) :
    draft.check = .ok shape := by
  induction spells with
  | struct names each ih =>
      rw [check, checkMembers_eq_ok.mpr ⟨names, ih⟩]
      rfl
  | list ofElement ih =>
      rw [check, ih]
      rfl
  | map ofKey ofValue ihKey ihValue =>
      rw [check, ihKey, ihValue]
      rfl
  | scalar named =>
      rw [check_word (not_mem_composites named), ScalarKind.ofWord?_eq_some.mpr named]
      rfl

theorem check_eq_ok {draft : Draft} {shape : Shape} :
    draft.check = .ok shape ↔ draft.Spells shape :=
  ⟨spells_of_check, check_of_spells⟩

/-- A draft spells shapes of the form that its type stands for. -/
theorem Spells.form_eq {draft : Draft} {shape : Shape} (spells : draft.Spells shape) :
    shape.form = draft.form := by
  cases spells with
  | struct => rfl
  | list => rfl
  | map => rfl
  | scalar named => exact (form_word (not_mem_composites named) _ _ _ _ _).symm

/-! ### The first defect -/

theorem error?_checkMembers {members : List (String × Draft)}
    (each : ∀ member ∈ members, error? member.2.check = member.2.defects.head?) :
    error? (checkMembers members) = (defectsOfMembers members).head? := by
  induction members with
  | nil => rfl
  | cons member rest ih =>
      have first := each member List.mem_cons_self
      have others := ih (fun other inRest => each other (List.mem_cons_of_mem _ inRest))
      rw [checkMembers, defectsOfMembers, List.head?_append, ← first, ← others]
      cases member.2.check with
      | error defect => rfl
      | ok shape => exact error?_bind_pure _ _

theorem check_map_of_not_scalar {name : Option String} {members : List (String × Draft)}
    {element : Option Draft} {key value : Draft} {shape : Shape} (checked : key.check = .ok shape)
    (notScalar : shape.form ≠ "scalar") :
    (mk "map" name members element (some key) (some value)).check =
      .error (.unsupportedKey (name.getD "") shape.form) := by
  rw [check, checked]
  cases shape with
  | scalar keyName kind => exact absurd rfl notScalar
  | struct => rfl
  | sequence => rfl
  | mapping => rfl

theorem error?_map_of_scalar {name : Option String} {members : List (String × Draft)}
    {element : Option Draft} {key value : Draft} {shape : Shape} (checked : key.check = .ok shape)
    (isScalar : shape.form = "scalar") :
    error? (mk "map" name members element (some key) (some value)).check = error? value.check := by
  rw [check, checked]
  cases shape with
  | scalar keyName kind => exact error?_bind_pure _ _
  | struct => simp [Shape.form] at isScalar
  | sequence => simp [Shape.form] at isScalar
  | mapping => simp [Shape.form] at isScalar

theorem defects_map (name : Option String) (members : List (String × Draft))
    (element : Option Draft) (key value : Draft) :
    (mk "map" name members element (some key) (some value)).defects =
      key.defects ++ (defectsOfKey (name.getD "") (some key) ++ value.defects) := by
  simp [defectsOfPart]

/-- Checking a draft finds the first of its defects. -/
theorem error?_check (draft : Draft) : error? draft.check = draft.defects.head? := by
  induction draft using typeInduction with
  | struct name members element key value ofMembers =>
      cases name with
      | none => rfl
      | some name =>
          rw [check, defects]
          exact (error?_bind_pure _ _).trans (error?_checkMembers ofMembers)
  | list name members element key value ofElement =>
      cases element with
      | none => rfl
      | some element =>
          rw [check, defects]
          exact (error?_bind_pure _ _).trans (ofElement element rfl)
  | map name members element key value ofKey ofValue =>
      cases key with
      | none => rfl
      | some key =>
          cases value with
          | none => rfl
          | some value =>
              have ofKey := ofKey key rfl
              rw [defects_map, List.head?_append, ← ofKey]
              cases checked : key.check with
              | error defect => rw [check, checked]; rfl
              | ok shape =>
                  -- What follows a key depends on the key only through its form.
                  have form := (spells_of_check checked).form_eq
                  rw [error?, Option.none_or, defectsOfKey]
                  by_cases isScalar : shape.form = "scalar"
                  · rw [error?_map_of_scalar checked isScalar, if_pos (form ▸ isScalar),
                      List.nil_append]
                    exact ofValue value rfl
                  · rw [check_map_of_not_scalar checked isScalar, if_neg (form ▸ isScalar), form]
                    rfl
  | word word name members element key value other =>
      rw [check_word other, defects_word other]
      cases ScalarKind.ofWord? word <;> rfl

/-! ### Drafts without defects -/

theorem defects_of_isNamed {kind : ScalarKind} {word : String} (named : kind.IsNamed word)
    (name : Option String) (members : List (String × Draft)) (element key value : Option Draft) :
    (mk word name members element key value).defects = [] := by
  rw [defects_word (not_mem_composites named), ScalarKind.ofWord?_eq_some.mpr named]
  rfl

theorem exists_isNamed {draft : Draft} (sound : draft.defects = [])
    (isScalar : draft.form = "scalar") : ∃ kind, ScalarKind.IsNamed kind draft.type := by
  rcases draft with ⟨word, name, members, element, key, value⟩
  by_cases composite : word ∈ composites
  · simp only [composites, List.mem_cons, List.not_mem_nil, or_false] at composite
    rcases composite with rfl | rfl | rfl <;> simp [form, type] at isScalar
  · rw [defects_word composite] at sound
    cases known : ScalarKind.ofWord? word with
    | none => simp [known] at sound
    | some kind => exact ⟨kind, ScalarKind.ofWord?_eq_some.mp known⟩

theorem IsGrammatical.defects_eq_nil {draft : Draft} (grammatical : draft.IsGrammatical) :
    draft.defects = [] := by
  induction grammatical with
  | struct each ih =>
      rw [defects, defectsOfMembers_eq, Option.isNone_some]
      exact List.flatMap_eq_nil_iff.mpr ih
  | list ofElement ih =>
      simp [defectsOfPart, ih]
  | @map name members element key value kind named ofValue ih =>
      rcases key with ⟨word, keyName, keyMembers, keyElement, keyKey, keyValue⟩
      rw [type] at named
      rw [defects_map, defects_of_isNamed named, ih, defectsOfKey,
        if_pos (form_word (not_mem_composites named) _ _ _ _ _)]
      rfl
  | scalar named => exact defects_of_isNamed named _ _ _ _ _

theorem isGrammatical_of_defects {draft : Draft} (sound : draft.defects = []) :
    draft.IsGrammatical := by
  induction draft using typeInduction with
  | struct name members element key value ofMembers =>
      rw [defects, List.append_eq_nil_iff, defectsOfMembers_eq, List.flatMap_eq_nil_iff] at sound
      cases name with
      | none => cases sound.1
      | some name =>
          exact .struct (fun member listed => ofMembers member listed (sound.2 member listed))
  | list name members element key value ofElement =>
      cases element with
      | none => cases sound
      | some element => exact .list (ofElement element rfl sound)
  | map name members element key value _ ofValue =>
      cases key with
      | none => cases sound
      | some key =>
          cases value with
          | none => cases sound
          | some value =>
              rw [defects_map, List.append_eq_nil_iff, List.append_eq_nil_iff] at sound
              rcases sound with ⟨keySound, isKey, valueSound⟩
              have isScalar : key.form = "scalar" := by
                by_contra other
                rw [defectsOfKey, if_neg other] at isKey
                cases isKey
              rcases exists_isNamed keySound isScalar with ⟨kind, named⟩
              exact .map named (ofValue value rfl valueSound)
  | word word name members element key value other =>
      rcases exists_isNamed sound (form_word other _ _ _ _ _) with ⟨kind, named⟩
      exact .scalar named

/-! ### Parts of other types -/

theorem checkMembers_pruned {members : List (String × Draft)}
    (each : ∀ member ∈ members, member.2.pruned.check = member.2.check) :
    checkMembers (prunedMembers members) = checkMembers members := by
  induction members with
  | nil => rfl
  | cons member rest ih =>
      have others := ih (fun other inRest => each other (List.mem_cons_of_mem _ inRest))
      rw [prunedMembers, checkMembers, checkMembers, each member List.mem_cons_self, others]

/-- Parts that do not belong to the type of a draft are never looked at. -/
theorem check_pruned (draft : Draft) : draft.pruned.check = draft.check := by
  induction draft using typeInduction with
  | struct name members element key value ofMembers =>
      cases name with
      | none => rfl
      | some name => simp only [pruned, check, checkMembers_pruned ofMembers]
  | list name members element key value ofElement =>
      cases element with
      | none => rfl
      | some element =>
          rw [pruned, prunedPart, check, check, ofElement element rfl]
  | map name members element key value ofKey ofValue =>
      cases key with
      | none => rfl
      | some key =>
          cases value with
          | none => rfl
          | some value =>
              rw [pruned, prunedPart, prunedPart, check, check, ofKey key rfl, ofValue value rfl]
  | word word name members element key value other =>
      rw [pruned_word other, check_word other, check_word other]

/--
A draft is converted exactly if it follows the grammar. What it becomes is the shape that it spells,
and otherwise the error is the first of its defects in the order of conversion. Parts that do not
belong to the type of a draft have no influence, wherever they stand.
-/
theorem check_follows_grammar (draft : Draft) :
    ((∃ shape, draft.check = .ok shape) ↔ draft.IsGrammatical) ∧
      (∀ shape, draft.check = .ok shape ↔ draft.Spells shape) ∧
        (∀ defect, draft.check = .error defect ↔ draft.defects.head? = some defect) ∧
          draft.pruned.check = draft.check := by
  refine ⟨?_, fun shape => check_eq_ok, ?_, check_pruned draft⟩
  · rw [← error?_eq_none, error?_check, List.head?_eq_none_iff]
    exact ⟨isGrammatical_of_defects, IsGrammatical.defects_eq_nil⟩
  · intro defect
    rw [← error?_eq_some, error?_check]

/-- The value of a map is missed before its key is looked at, and an element of a map never is. -/
example :
    (mk "map" none [] (some (mk "list" none [] none none none))
      (some (mk "union" none [] none none none)) none).check =
        .error (.missingPart "" .value) := rfl

end Shape.Draft

end Reconcile
