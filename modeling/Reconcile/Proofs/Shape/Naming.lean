import Reconcile.Proofs.Text.Words
import Reconcile.Resource.Basic

/-!
# Names in shapes

Emitted code holds the names of structures and the exported names of members. A shape is named
under two conditions if all names of structures in it satisfy the first and all exported names
of members the second.
-/

namespace Reconcile

namespace Shape

mutual

/-- Whether all structures and all members in a shape are named under conditions. -/
def Named (normalizer : Normalizer) (ofShape ofMember : String → Prop) : Shape → Prop
  | .scalar .. => True
  | .struct name members => ofShape name ∧ NamedMembers normalizer ofShape ofMember members
  | .sequence _ element => element.Named normalizer ofShape ofMember
  | .mapping _ _ value => value.Named normalizer ofShape ofMember

/-- Whether members and all that is below them are named under conditions. -/
def NamedMembers (normalizer : Normalizer) (ofShape ofMember : String → Prop) :
    List (String × Shape) → Prop
  | [] => True
  | (name, shape) :: rest =>
      ofMember (normalizer name).exported ∧ shape.Named normalizer ofShape ofMember ∧
        NamedMembers normalizer ofShape ofMember rest

end

section

variable (normalizer : Normalizer) (ofShape ofMember : String → Prop) [DecidablePred ofShape]
  [DecidablePred ofMember]

mutual

def decideNamed : (shape : Shape) → Decidable (shape.Named normalizer ofShape ofMember)
  | .scalar .. => isTrue trivial
  | .struct name members =>
      have := decideNamedMembers members
      inferInstanceAs (Decidable (ofShape name ∧ NamedMembers normalizer ofShape ofMember members))
  | .sequence _ element => decideNamed element
  | .mapping _ _ value => decideNamed value

def decideNamedMembers : (members : List (String × Shape)) →
    Decidable (NamedMembers normalizer ofShape ofMember members)
  | [] => isTrue trivial
  | (name, shape) :: rest =>
      have := decideNamed shape
      have := decideNamedMembers rest
      inferInstanceAs (Decidable (ofMember (normalizer name).exported ∧
        shape.Named normalizer ofShape ofMember ∧ NamedMembers normalizer ofShape ofMember rest))

end

instance (shape : Shape) : Decidable (shape.Named normalizer ofShape ofMember) :=
  decideNamed normalizer ofShape ofMember shape

end

theorem namedMembers_iff {normalizer : Normalizer} {ofShape ofMember : String → Prop}
    {members : List (String × Shape)} :
    NamedMembers normalizer ofShape ofMember members ↔
      ∀ member ∈ members, ofMember (normalizer member.1).exported ∧
        member.2.Named normalizer ofShape ofMember := by
  induction members with
  | nil => simp [NamedMembers]
  | cons member rest ih => simp [NamedMembers, ih, and_assoc]

/--
Whether a condition on shapes passes from a shape to its parts and admits only members whose
exported names are words.
-/
structure Inherited (normalizer : Normalizer) (fits : Shape → Prop) : Prop where
  member : ∀ {name : String} {members : List (String × Shape)}, fits (.struct name members) →
    ∀ member ∈ members, Text.IsWord (normalizer member.1).exported ∧ fits member.2
  element : ∀ {name : String} {element : Shape}, fits (.sequence name element) → fits element
  value : ∀ {name : String} {key : ScalarKind} {value : Shape},
    fits (.mapping name key value) → fits value

theorem inherited_named (normalizer : Normalizer) (ofShape : String → Prop) :
    Inherited normalizer (Shape.Named normalizer ofShape Text.IsWord) where
  member := by
    intro name members named
    exact namedMembers_iff.mp named.2
  element := by
    intro name element named
    exact named
  value := by
    intro name key value named
    exact named

/-- Shapes may be named under several normalizers at once. -/
theorem inherited_named_all {ι : Type} {items : List ι} (normalizerOf : ι → Normalizer) {item : ι}
    (listed : item ∈ items) (ofShape : String → Prop) :
    Inherited (normalizerOf item)
      (fun shape => ∀ other ∈ items, shape.Named (normalizerOf other) ofShape Text.IsWord) where
  member := by
    intro name members named member membership
    have first := (inherited_named (normalizerOf item) ofShape).member (named _ listed)
    refine ⟨(first member membership).1, ?_⟩
    intro other otherListed
    have ofOther := (inherited_named (normalizerOf other) ofShape).member (named _ otherListed)
    exact (ofOther member membership).2
  element := by
    intro name element named
    exact named
  value := by
    intro name key value named
    exact named

/-- Whether a shape is a structure that satisfies a condition. -/
def IsPlain (fits : Shape → Prop) (shape : Shape) : Prop :=
  fits shape ∧ ∃ members, shape.members? = some members

theorem IsPlain.named {normalizer : Normalizer} {ofShape ofMember : String → Prop} {shape : Shape}
    (plain : shape.IsPlain (Shape.Named normalizer ofShape ofMember)) : ofShape shape.name := by
  rcases plain with ⟨named, members, found⟩
  cases shape with
  | struct name members => exact named.1
  | scalar name kind => simp [members?] at found
  | sequence name element => simp [members?] at found
  | mapping name key value => simp [members?] at found

theorem IsPlain.goType {fits : Shape → Prop} {shape : Shape} (plain : shape.IsPlain fits) :
    shape.goType = "*svcapitypes." ++ shape.name := by
  rcases plain with ⟨_, members, found⟩
  cases shape with
  | struct name members => rfl
  | scalar name kind => simp [members?] at found
  | sequence name element => simp [members?] at found
  | mapping name key value => simp [members?] at found

end Shape

/--
Whether the outermost fields of a resource and their shapes are named under conditions. Nothing
is said of the shape of a reference field.
-/
def Resource.Named (resource : Resource) (ofMember : String → Prop) (fits : Shape → Prop) : Prop :=
  ∀ field ∈ resource.topLevelFields,
    ofMember field.names.exported ∧ (∀ segment ∈ field.path.segments, ofMember segment) ∧
      (field.isReference = false → fits field.shape)

instance (resource : Resource) (ofMember : String → Prop) (fits : Shape → Prop)
    [DecidablePred ofMember] [DecidablePred fits] : Decidable (resource.Named ofMember fits) :=
  inferInstanceAs (Decidable (∀ field ∈ resource.topLevelFields,
    ofMember field.names.exported ∧ (∀ segment ∈ field.path.segments, ofMember segment) ∧
      (field.isReference = false → fits field.shape)))

end Reconcile
