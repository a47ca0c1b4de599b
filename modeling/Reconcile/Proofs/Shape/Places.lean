import Reconcile.Shape.Size

/-!
# Places in shapes

A place is a way from a shape to one of its parts: through members of structures, elements of
sequences and values of mappings. A part may stand at several places, and so may the name of a
structure (`Shape.structurePlaces`).
-/

namespace Reconcile.Shape

/-- A step from a shape to one of its parts. -/
inductive Step where
  /-- To a member of a structure. -/
  | member (name : String)
  /-- To the element of a sequence. -/
  | element
  /-- To the value of a mapping. -/
  | value
  deriving DecidableEq, Repr

/-- Whether a step leads into a collection. -/
def Step.isInner : Step → Bool
  | .member _ => false
  | .element => true
  | .value => true

/-- Whether a part stands at a place of a shape. -/
inductive Occurs : Shape → List Step → Shape → Prop
  | here (shape : Shape) : Occurs shape [] shape
  | member {name : String} {members : List (String × Shape)} {member : String × Shape}
      {place : List Step} {part : Shape} (listed : member ∈ members)
      (inner : Occurs member.2 place part) :
      Occurs (.struct name members) (.member member.1 :: place) part
  | element {name : String} {element : Shape} {place : List Step} {part : Shape}
      (inner : Occurs element place part) :
      Occurs (.sequence name element) (.element :: place) part
  | value {name : String} {key : ScalarKind} {value : Shape} {place : List Step} {part : Shape}
      (inner : Occurs value place part) :
      Occurs (.mapping name key value) (.value :: place) part

theorem Occurs.trans {shape middle part : Shape} {place rest : List Step}
    (outer : shape.Occurs place middle) (inner : middle.Occurs rest part) :
    shape.Occurs (place ++ rest) part := by
  induction outer with
  | here => exact inner
  | member listed _ ih => exact .member listed (ih inner)
  | element _ ih => exact .element (ih inner)
  | value _ ih => exact .value (ih inner)

mutual

/-- The parts of a shape with their places, the shape itself first. -/
def parts : Shape → List (List Step × Shape)
  | .scalar name kind => [([], .scalar name kind)]
  | .struct name members => ([], .struct name members) :: partsOfMembers members
  | .sequence name element =>
      ([], .sequence name element) :: element.parts.map (Prod.map (.element :: ·) id)
  | .mapping name key value =>
      ([], .mapping name key value) :: value.parts.map (Prod.map (.value :: ·) id)

/-- The parts of members with their places. -/
def partsOfMembers : List (String × Shape) → List (List Step × Shape)
  | [] => []
  | (name, shape) :: rest =>
      shape.parts.map (Prod.map (.member name :: ·) id) ++ partsOfMembers rest

end

theorem mem_map_step {step : Step} {place : List Step} {part : Shape}
    {entries : List (List Step × Shape)} :
    (place, part) ∈ entries.map (Prod.map (step :: ·) id) ↔
      ∃ rest, place = step :: rest ∧ (rest, part) ∈ entries := by
  simp only [List.mem_map, Prod.exists, Prod.map_apply, id_eq, Prod.mk.injEq]
  constructor
  · rintro ⟨rest, _, listed, rfl, rfl⟩
    exact ⟨rest, rfl, listed⟩
  · rintro ⟨rest, rfl, listed⟩
    exact ⟨rest, part, listed, rfl, rfl⟩

mutual

/-- The listed parts are those that stand at their places. -/
theorem mem_parts : (shape : Shape) → (place : List Step) → (part : Shape) →
    ((place, part) ∈ shape.parts ↔ shape.Occurs place part)
  | .scalar name kind, place, part => by
      rw [parts, List.mem_singleton, Prod.mk.injEq]
      constructor
      · rintro ⟨rfl, rfl⟩
        exact .here _
      · rintro ⟨⟩
        exact ⟨rfl, rfl⟩
  | .struct name members, place, part => by
      rw [parts, List.mem_cons, Prod.mk.injEq, mem_partsOfMembers members place part]
      constructor
      · rintro (⟨rfl, rfl⟩ | ⟨member, listed, rest, rfl, inner⟩)
        · exact .here _
        · exact .member listed inner
      · intro occurs
        cases occurs with
        | here => exact Or.inl ⟨rfl, rfl⟩
        | member listed inner => exact Or.inr ⟨_, listed, _, rfl, inner⟩
  | .sequence name element, place, part => by
      rw [parts, List.mem_cons, Prod.mk.injEq, mem_map_step]
      constructor
      · rintro (⟨rfl, rfl⟩ | ⟨rest, rfl, listed⟩)
        · exact .here _
        · exact .element ((mem_parts element rest part).mp listed)
      · intro occurs
        cases occurs with
        | here => exact Or.inl ⟨rfl, rfl⟩
        | element inner => exact Or.inr ⟨_, rfl, (mem_parts element _ part).mpr inner⟩
  | .mapping name key value, place, part => by
      rw [parts, List.mem_cons, Prod.mk.injEq, mem_map_step]
      constructor
      · rintro (⟨rfl, rfl⟩ | ⟨rest, rfl, listed⟩)
        · exact .here _
        · exact .value ((mem_parts value rest part).mp listed)
      · intro occurs
        cases occurs with
        | here => exact Or.inl ⟨rfl, rfl⟩
        | value inner => exact Or.inr ⟨_, rfl, (mem_parts value _ part).mpr inner⟩

theorem mem_partsOfMembers : (members : List (String × Shape)) → (place : List Step) →
    (part : Shape) → ((place, part) ∈ partsOfMembers members ↔
      ∃ member ∈ members, ∃ rest, place = .member member.1 :: rest ∧ member.2.Occurs rest part)
  | [], place, part => by
      simp [partsOfMembers]
  | (name, shape) :: others, place, part => by
      simp only [partsOfMembers, List.mem_append, mem_map_step,
        mem_partsOfMembers others place part, List.mem_cons, exists_eq_or_imp]
      refine or_congr_left ?_
      exact exists_congr (fun rest => and_congr_right (fun _ => mem_parts shape rest part))

end

/-- Whether a shape is a structure. -/
def isStructure (shape : Shape) : Bool :=
  shape.members?.isSome

/-- The places of a shape at which a structure of a name stands. -/
def structurePlaces (shape : Shape) (name : String) : List (List Step) :=
  (shape.parts.filter (fun entry => entry.2.isStructure && entry.2.name == name)).map Prod.fst

theorem mem_structurePlaces {shape : Shape} {name : String} {place : List Step} :
    place ∈ shape.structurePlaces name ↔
      ∃ part, shape.Occurs place part ∧ part.isStructure = true ∧ part.name = name := by
  simp only [structurePlaces, List.mem_map, List.mem_filter, Bool.and_eq_true, beq_iff_eq]
  constructor
  · rintro ⟨⟨_, part⟩, ⟨listed, named⟩, rfl⟩
    exact ⟨part, (mem_parts shape _ part).mp listed, named⟩
  · rintro ⟨part, occurs, named⟩
    exact ⟨(place, part), ⟨(mem_parts shape place part).mpr occurs, named⟩, rfl⟩

/-- Whether a structure stands in a shape directly as an element or a value of a collection. -/
def Holds (shape part : Shape) : Prop :=
  (∃ place step, step.isInner = true ∧ shape.Occurs (place ++ [step]) part) ∧
    part.isStructure = true

theorem Holds.of_occurs {shape middle part : Shape} {place : List Step}
    (outer : shape.Occurs place middle) (holds : middle.Holds part) : shape.Holds part := by
  rcases holds with ⟨⟨rest, step, isInner, inner⟩, isStructure⟩
  refine ⟨⟨place ++ rest, step, isInner, ?_⟩, isStructure⟩
  rw [List.append_assoc]
  exact outer.trans inner

theorem Holds.trans {shape middle part : Shape} (outer : shape.Holds middle)
    (inner : middle.Holds part) : shape.Holds part := by
  rcases outer with ⟨⟨place, step, _, occurs⟩, _⟩
  exact inner.of_occurs occurs

/-- The structures that stand directly in a collection of a shape. -/
def held (shape : Shape) : List Shape :=
  (shape.parts.filter (fun entry => entry.1.getLast?.any Step.isInner && entry.2.isStructure)).map
    Prod.snd

theorem mem_held {shape part : Shape} : part ∈ shape.held ↔ shape.Holds part := by
  simp only [held, List.mem_map, List.mem_filter, Bool.and_eq_true, Option.any_eq_true]
  constructor
  · rintro ⟨⟨place, _⟩, ⟨listed, ⟨step, isLast, isInner⟩, isStructure⟩, rfl⟩
    rcases List.getLast?_eq_some_iff.mp isLast with ⟨rest, rfl⟩
    exact ⟨⟨rest, step, isInner, (mem_parts shape _ _).mp listed⟩, isStructure⟩
  · rintro ⟨⟨rest, step, isInner, occurs⟩, isStructure⟩
    refine ⟨(rest ++ [step], part), ⟨(mem_parts shape _ _).mpr occurs, ?_, isStructure⟩, rfl⟩
    exact ⟨step, List.getLast?_concat, isInner⟩

/-- A structure inside of one that a collection holds stands behind a step into a collection. -/
theorem Holds.exists_structurePlace {shape part : Shape} {name : String} {inner : List Step}
    (holds : shape.Holds part) (isPlace : inner ∈ part.structurePlaces name) :
    ∃ rest step, step.isInner = true ∧ rest ++ step :: inner ∈ shape.structurePlaces name := by
  rcases holds with ⟨⟨rest, step, isInner, outer⟩, _⟩
  rcases mem_structurePlaces.mp isPlace with ⟨found, occurs, named⟩
  refine ⟨rest, step, isInner, mem_structurePlaces.mpr ⟨found, ?_, named⟩⟩
  have whole := outer.trans occurs
  rwa [List.append_assoc] at whole

theorem nil_mem_structurePlaces {shape : Shape} (isStructure : shape.isStructure = true) :
    [] ∈ shape.structurePlaces shape.name :=
  mem_structurePlaces.mpr ⟨shape, .here shape, isStructure, rfl⟩

end Reconcile.Shape
