import Reconcile.Proofs.Compare.Calls
import Reconcile.Proofs.Compare.Entering
import Reconcile.Proofs.Shape.Places

/-!
# Structures that helpers are asked for

Equality code asks for helpers of structures only, and only of those that stand directly in a
collection: as its elements or as its values (`Equality.holds_of_demanded`). Helpers ask for
structures inside of their own, so this holds of all that a comparison writes.
-/

namespace Reconcile

theorem Demand.mem_shapes {part : Shape} {demands : List Demand} :
    part ∈ shapes demands ↔ .helper part ∈ demands := by
  induction demands with
  | nil => simp [shapes]
  | cons demand rest ih => cases demand <;> simp [shapes, ih]

/-- Whether a structure stands directly in a collection of an outermost field of a resource. -/
def Resource.Holds (resource : Resource) (part : Shape) : Prop :=
  ∃ field ∈ resource.topLevelFields, field.isReference = false ∧ field.shape.Holds part

/-- What collections of a resource hold is held by the desired state of its definition. -/
theorem Resource.Holds.spec {definition : ResourceDefinition} {settings : Settings}
    {normalizer : Normalizer} {resource : Resource} {part : Shape} (holds : resource.Holds part)
    (joined : Resource.ofDefinition definition settings normalizer = .ok resource) :
    definition.spec.Holds part := by
  rcases holds with ⟨field, isTop, noReference, holds⟩
  rcases exists_member_of_outermost joined isTop noReference with
    ⟨name, members, spec, member, listed, same⟩
  rw [same] at holds
  rw [spec]
  exact holds.of_occurs (.member listed (.here member.2))

/-- What steps lead to stands at a place. -/
theorem Shape.Leads.exists_occurs {normalizer : Normalizer} {shape target : Shape}
    {steps : List String} (leads : shape.Leads normalizer steps target) :
    ∃ place, shape.Occurs place target := by
  induction leads with
  | here shape => exact ⟨[], .here shape⟩
  | step listed _ ih =>
      rcases ih with ⟨place, occurs⟩
      exact ⟨_, .member listed occurs⟩

namespace Equality

variable {normalizer : Normalizer} {isIgnored isTagField : FieldPath → Bool} {part : Shape}

theorem demandsOf_helperCall (shape : Shape) (site : Site) :
    Check.demandsOf (helperCall shape site) = [.helper shape] := by
  rw [helperCall, Strategy.demandsOf_guarded]
  rfl

/-- The elements of a sequence demand a helper if they are structures, and nothing otherwise. -/
theorem demandsOf_sequence (name : String) (element : Shape) (site : Site) :
    Check.demandsOf ((strategyWith normalizer isIgnored isTagField).body (.sequence name element)
      site) = if element.isStructure then [.helper element] else [] := by
  have inElements : Check.demandsOf ((strategyWith normalizer isIgnored isTagField).body
      (.sequence name element) site) = Check.demandsOf (elementChecks site element
        ((strategyWith normalizer isIgnored isTagField).body element)) := by
    simp [Strategy.body, strategyWith, Check.demandsOf, Check.demands]
  rw [inElements]
  cases element with
  | scalar own kind =>
      simp [elementChecks, Check.demandsOf, Check.demands, Strategy.demandsOf_guarded,
        Strategy.body, Shape.isStructure, Shape.members?]
  | struct own members =>
      rw [elementChecks, Check.demandsOf, Check.demands, demandsOf_helperCall]
      rfl
  | sequence own inner => rfl
  | mapping own key value => rfl

/-- So do the values of a mapping, unless its keys are rejected. -/
theorem demandsOf_mapping (name : String) (key : ScalarKind) (value : Shape) (site : Site) :
    Check.demandsOf ((strategyWith normalizer isIgnored isTagField).body (.mapping name key value)
      site) = if key = .string then (if value.isStructure then [.helper value] else [])
        else [.keyKind site.path key] := by
  rw [Strategy.body]
  split
  · have inValues : Check.demandsOf ((strategyWith normalizer isIgnored isTagField).mapping site
        value ((strategyWith normalizer isIgnored isTagField).body value)) =
          Check.demandsOf (valueChecks site value
            ((strategyWith normalizer isIgnored isTagField).body value)) := by
      simp [strategyWith, Check.demandsOf, Check.demands]
    rw [inValues]
    cases value with
    | scalar own kind =>
        simp [valueChecks, Check.demandsOf, Check.demands, Strategy.demandsOf_guarded,
          Strategy.body, Shape.isStructure, Shape.members?]
    | struct own members =>
        rw [valueChecks, Check.demandsOf, Check.demands, demandsOf_helperCall]
        rfl
    | sequence own inner => rfl
    | mapping own key inner => rfl
  · rfl

/-- The checks of a shape ask for structures that stand directly in its collections. -/
theorem holds_of_demanded (shape : Shape) (site : Site)
    (demanded : .helper part ∈
      Check.demandsOf ((strategyWith normalizer isIgnored isTagField).body shape site)) :
    shape.Holds part := by
  rcases Strategy.exists_leads_of_demanded shape site demanded with
    ⟨steps, target, leads, _, isCollection, inTarget⟩
  rcases leads.exists_occurs with ⟨place, occurs⟩
  apply Shape.Holds.of_occurs occurs
  cases target with
  | scalar name kind => exact Bool.noConfusion isCollection
  | struct name members => exact Bool.noConfusion isCollection
  | sequence name element =>
      rw [demandsOf_sequence] at inTarget
      split at inTarget
      · rename_i isStructure
        cases List.mem_singleton.mp inTarget
        exact ⟨⟨[], .element, rfl, .element (.here part)⟩, isStructure⟩
      · exact absurd inTarget List.not_mem_nil
  | mapping name key value =>
      rw [demandsOf_mapping] at inTarget
      split at inTarget
      · split at inTarget
        · rename_i isStructure
          cases List.mem_singleton.mp inTarget
          exact ⟨⟨[], .value, rfl, .value (.here part)⟩, isStructure⟩
        · exact absurd inTarget List.not_mem_nil
      · cases List.mem_singleton.mp inTarget

theorem passedOn_holds (shape : Shape) : PassedOn normalizer shape.Holds := by
  intro middle outer part isAsked
  exact outer.trans (holds_of_demanded middle Helper.root (Demand.mem_shapes.mp isAsked))

theorem passedOn_resourceHolds (resource : Resource) : PassedOn normalizer resource.Holds := by
  rintro middle ⟨field, isTop, noReference, outer⟩ part isAsked
  exact ⟨field, isTop, noReference, passedOn_holds field.shape middle outer part isAsked⟩

/-- The checks of a resource ask for structures that stand directly in its collections. -/
theorem holds_of_demanded_resource {resource : Resource} {tagPath : Option FieldPath}
    {first second : String}
    (demanded : .helper part ∈ Check.demandsOf
      ((resourceStrategy resource normalizer tagPath).resource resource first second)) :
    resource.Holds part := by
  rcases Strategy.exists_field_of_demanded demanded with
    ⟨field, isTop, noReference, _, _, inBody⟩
  exact ⟨field, isTop, noReference, holds_of_demanded field.shape _ inBody⟩

/-- The call that compares a resource. -/
def resourceCall (resource : Resource) (normalizer : Normalizer) (first second : String)
    (level : Nat) : Call :=
  ⟨.resource resource, normalizer, first, second, level⟩

theorem asks_resourceHolds (resource : Resource) (normalizer : Normalizer) (first second : String)
    (level : Nat) : (resourceCall resource normalizer first second level).Asks resource.Holds := by
  intro checks planned part demanded
  rcases Outcome.of_bind_eq_ok planned with ⟨tag, _, made⟩
  cases made
  exact holds_of_demanded_resource (Demand.mem_shapes.mp demanded)

end Equality

end Reconcile
