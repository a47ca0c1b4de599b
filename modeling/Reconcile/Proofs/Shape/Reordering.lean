import Reconcile.Proofs.Resource.Reaching
import Reconcile.Proofs.Shape.Places
import Reconcile.Proofs.Text.Sorting

/-!
# Reordered shapes

Shapes that differ in the order of members only. Where registration reaches a structure, its
members have distinct names, so that the order can be forgotten: what comparisons see of a shape,
with the members of structures in the order of their names, is the same for all its reorderings
(`Shape.canonical_eq`).
-/

namespace Reconcile.Shape

/-- Whether a shape becomes another one if members of its structures are put in another order. -/
inductive Reordered : Shape → Shape → Prop
  | refl (shape : Shape) : Reordered shape shape
  | trans {first second third : Shape} (left : Reordered first second)
      (right : Reordered second third) : Reordered first third
  | permuted {members others : List (String × Shape)} (name : String)
      (same : members.Perm others) : Reordered (.struct name members) (.struct name others)
  | member {shape other : Shape} (name memberName : String) (front back : List (String × Shape))
      (inner : Reordered shape other) :
      Reordered (.struct name (front ++ (memberName, shape) :: back))
        (.struct name (front ++ (memberName, other) :: back))
  | element {element other : Shape} (name : String) (inner : Reordered element other) :
      Reordered (.sequence name element) (.sequence name other)
  | value {value other : Shape} (name : String) (key : ScalarKind)
      (inner : Reordered value other) :
      Reordered (.mapping name key value) (.mapping name key other)

/-- The shape without the members of its structures. -/
def bare : Shape → Shape
  | .scalar name kind => .scalar name kind
  | .struct name _ => .struct name []
  | .sequence name element => .sequence name element.bare
  | .mapping name key value => .mapping name key value.bare

theorem Reordered.bare_eq {shape other : Shape} (reordered : Reordered shape other) :
    shape.bare = other.bare := by
  induction reordered with
  | refl => rfl
  | trans _ _ first second => exact first.trans second
  | permuted => rfl
  | member => rfl
  | element _ _ ih => rw [bare, bare, ih]
  | value _ _ _ ih => rw [bare, bare, ih]

mutual

/--
What comparisons see of a shape. Structures that collections hold directly are seen with their
members, but nothing is seen of the members of structures deeper in collections.
-/
def canonical : Shape → Shape
  | .scalar name kind => .scalar name kind
  | .struct name members => .struct name (Text.sortedBy Prod.fst (canonicalMembers members))
  | .sequence name element => .sequence name element.canonicalHeld
  | .mapping name key value => .mapping name key value.canonicalHeld

/-- What comparisons see of an element or a value of a collection. -/
def canonicalHeld : Shape → Shape
  | .struct name members => .struct name (Text.sortedBy Prod.fst (canonicalMembers members))
  | .scalar name kind => .scalar name kind
  | .sequence name element => .sequence name element.bare
  | .mapping name key value => .mapping name key value.bare

/-- What comparisons see of members. -/
def canonicalMembers : List (String × Shape) → List (String × Shape)
  | [] => []
  | (name, shape) :: rest => (name, shape.canonical) :: canonicalMembers rest

end

theorem canonicalMembers_eq (members : List (String × Shape)) :
    canonicalMembers members = members.map (Prod.map id canonical) := by
  induction members with
  | nil => rw [canonicalMembers, List.map_nil]
  | cons member rest ih => rw [canonicalMembers, ih, List.map_cons, Prod.map, id]

theorem canonical_struct (name : String) (members : List (String × Shape)) :
    (struct name members).canonical =
      .struct name ((Text.sortedBy Prod.fst members).map (Prod.map id canonical)) := by
  have key : (Prod.fst : String × Shape → String) ∘ Prod.map id canonical = Prod.fst := rfl
  rw [canonical, canonicalMembers_eq, Text.sortedBy_map, key]

theorem canonicalHeld_struct (name : String) (members : List (String × Shape)) :
    (struct name members).canonicalHeld = (struct name members).canonical := by
  rw [canonicalHeld, canonical]

/-- Whether members have distinct names, and so have those below them. -/
inductive NamedApart : List (String × Shape) → Prop
  | intro {members : List (String × Shape)} (distinct : (members.map Prod.fst).Nodup)
      (inner : ∀ member ∈ members, NamedApart member.2.membersBelow) : NamedApart members

theorem NamedApart.distinct {members : List (String × Shape)} (apart : NamedApart members) :
    (members.map Prod.fst).Nodup := by
  cases apart with
  | intro distinct inner => exact distinct

theorem NamedApart.inner {members : List (String × Shape)} (apart : NamedApart members)
    {member : String × Shape} (listed : member ∈ members) :
    NamedApart member.2.membersBelow := by
  cases apart with
  | intro distinct inner => exact inner member listed

theorem namedApart_nil : NamedApart [] :=
  .intro List.nodup_nil (by simp)

/-- A collection has below it what its element or value has, if that is a structure. -/
theorem membersBelow_sequence (name : String) (element : Shape) :
    (sequence name element).membersBelow =
      if element.isStructure then element.membersBelow else [] := by
  cases element <;> rfl

theorem membersBelow_mapping (name : String) (key : ScalarKind) (value : Shape) :
    (mapping name key value).membersBelow =
      if value.isStructure then value.membersBelow else [] := by
  cases value <;> rfl

theorem isStructure_bare (shape : Shape) : shape.bare.isStructure = shape.isStructure := by
  cases shape <;> rfl

theorem canonicalHeld_of_isStructure {shape : Shape} (isStructure : shape.isStructure = true) :
    shape.canonicalHeld = shape.canonical := by
  cases shape with
  | struct name members => exact canonicalHeld_struct name members
  | scalar name kind => cases isStructure
  | sequence name element => cases isStructure
  | mapping name key value => cases isStructure

theorem canonicalHeld_of_not_isStructure {shape : Shape}
    (noStructure : shape.isStructure = false) : shape.canonicalHeld = shape.bare := by
  cases shape with
  | struct name members => cases noStructure
  | scalar name kind => rw [canonicalHeld, bare]
  | sequence name element => rw [canonicalHeld, bare]
  | mapping name key value => rw [canonicalHeld, bare]

theorem Reordered.isStructure_eq {shape other : Shape} (reordered : Reordered shape other) :
    shape.isStructure = other.isStructure := by
  rw [← isStructure_bare shape, reordered.bare_eq, isStructure_bare]

/-- What holds of a structure and its reordering passes to collections that hold them. -/
theorem Reordered.held {element other : Shape} (inner : Reordered element other)
    (apart : NamedApart (if element.isStructure then element.membersBelow else []))
    (ih : NamedApart element.membersBelow →
      element.canonical = other.canonical ∧ NamedApart other.membersBelow) :
    element.canonicalHeld = other.canonicalHeld ∧
      NamedApart (if other.isStructure then other.membersBelow else []) := by
  have same := inner.isStructure_eq
  cases isStructure : element.isStructure with
  | true =>
      rw [isStructure, if_pos rfl] at apart
      rw [isStructure] at same
      rw [canonicalHeld_of_isStructure isStructure, canonicalHeld_of_isStructure same.symm,
        ← same, if_pos rfl]
      exact ih apart
  | false =>
      rw [isStructure] at same
      rw [canonicalHeld_of_not_isStructure isStructure, canonicalHeld_of_not_isStructure same.symm,
        ← same]
      exact ⟨inner.bare_eq, namedApart_nil⟩

/-- Comparisons see the same of a shape and of its reorderings, and names stay apart. -/
theorem Reordered.canonical_eq {shape other : Shape} (reordered : Reordered shape other) :
    NamedApart shape.membersBelow →
      shape.canonical = other.canonical ∧ NamedApart other.membersBelow := by
  induction reordered with
  | refl shape =>
      intro apart
      exact ⟨rfl, apart⟩
  | trans _ _ first second =>
      intro apart
      rcases first apart with ⟨firstSame, between⟩
      rcases second between with ⟨secondSame, after⟩
      exact ⟨firstSame.trans secondSame, after⟩
  | @permuted members others name same =>
      intro apart
      have distinct := apart.distinct
      refine ⟨?_, .intro ((same.map Prod.fst).nodup_iff.mp distinct) ?_⟩
      · rw [canonical_struct, canonical_struct, Text.sortedBy_eq_of_perm same distinct]
      · intro member listed
        exact apart.inner (same.mem_iff.mpr listed)
  | @member shape other name memberName front back inner ih =>
      intro apart
      rcases ih (apart.inner (List.mem_append_right front List.mem_cons_self)) with ⟨same, after⟩
      have distinct := apart.distinct
      refine ⟨?_, .intro ?_ ?_⟩
      · simp only [canonical, canonicalMembers_eq, List.map_append, List.map_cons, Prod.map, same]
      · simpa [membersBelow] using distinct
      · intro member listed
        rcases List.mem_append.mp listed with inFront | inBack
        · exact apart.inner (List.mem_append_left _ inFront)
        · rcases List.mem_cons.mp inBack with rfl | inRest
          · exact after
          · exact apart.inner (List.mem_append_right _ (List.mem_cons_of_mem _ inRest))
  | @element element other name inner ih =>
      intro apart
      rw [membersBelow_sequence] at apart ⊢
      rcases inner.held apart ih with ⟨same, after⟩
      exact ⟨by rw [canonical, canonical, same], after⟩
  | @value value other name key inner ih =>
      intro apart
      rw [membersBelow_mapping] at apart ⊢
      rcases inner.held apart ih with ⟨same, after⟩
      exact ⟨by rw [canonical, canonical, same], after⟩

/-! ### What canonical shapes keep -/

theorem goType_bare (shape : Shape) : shape.bare.goType = shape.goType := by
  induction shape using bare.induct with
  | case1 name kind => rfl
  | case2 name members => rfl
  | case3 name element ih => rw [bare, goType, goType, ih]
  | case4 name key value ih => rw [bare, goType, goType, ih]

theorem goType_canonicalHeld (shape : Shape) : shape.canonicalHeld.goType = shape.goType := by
  cases shape with
  | struct name members => rw [canonicalHeld, goType, goType]
  | scalar name kind => rw [canonicalHeld]
  | sequence name element => rw [canonicalHeld, goType, goType, goType_bare]
  | mapping name key value => rw [canonicalHeld, goType, goType, goType_bare]

theorem name_canonical (shape : Shape) : shape.canonical.name = shape.name := by
  cases shape <;> rw [canonical] <;> rfl

theorem goType_canonical (shape : Shape) : shape.canonical.goType = shape.goType := by
  cases shape with
  | struct name members => rw [canonical, goType, goType]
  | scalar name kind => rw [canonical]
  | sequence name element => rw [canonical, goType, goType, goType_canonicalHeld]
  | mapping name key value => rw [canonical, goType, goType, goType_canonicalHeld]

theorem isNullable_canonical (shape : Shape) : shape.canonical.isNullable = shape.isNullable := by
  cases shape with
  | scalar name kind => rw [canonical]
  | struct name members => rw [canonical, isNullable, isNullable] <;> simp
  | sequence name element => rw [canonical, isNullable, isNullable]
  | mapping name key value => rw [canonical, isNullable, isNullable] <;> simp

theorem isSequence_canonical (shape : Shape) : shape.canonical.isSequence = shape.isSequence := by
  cases shape with
  | scalar name kind => rw [canonical]
  | struct name members => rw [canonical]; rfl
  | sequence name element => rw [canonical]; rfl
  | mapping name key value => rw [canonical]; rfl

end Reconcile.Shape
