import Reconcile.Compare.Delta
import Reconcile.Proofs.Compare.Entering
import Reconcile.Proofs.Compare.Substitution
import Reconcile.Proofs.Resource.Reordering

/-!
# Comparisons of reordered definitions

Comparisons see no more of a shape than its canonical one: what is planned for the canonical shape
is what is planned for the shape, with canonical shapes in it (`Strategy.body_canonical`). So the
order in which the members of structures are declared does not show in what is written
(`Resource.comparisons_eq_of_reordered`).
-/

namespace Reconcile

namespace Strategy

open Shape

/-- Whether what is planned for collections shows what comparisons see of what they hold. -/
structure SeesCanonical (strategy : Strategy) : Prop where
  sequence : ∀ site element,
    strategy.sequence site element.canonicalHeld (strategy.body element.canonicalHeld) =
      Check.mapOf canonical (strategy.sequence site element (strategy.body element))
  mapping : ∀ site value,
    strategy.mapping site value.canonicalHeld (strategy.body value.canonicalHeld) =
      Check.mapOf canonical (strategy.mapping site value (strategy.body value))

variable {strategy : Strategy}

theorem member_canonical (shape : Shape) (site : Site) (inside : List Check) :
    strategy.member shape.canonical site (Check.mapOf canonical inside) =
      Check.mapOf canonical (strategy.member shape site inside) := by
  unfold member
  split
  · rw [Check.mapOf]
  · split
    · rw [Check.mapOf, Check.mapOf, Check.map]
    · rw [Check.mapOf_guarded (isNullable_canonical shape)]

mutual

/-- What is planned for a canonical shape is what is planned for the shape. -/
theorem body_canonical (sees : strategy.SeesCanonical) : ∀ (shape : Shape) (site : Site),
    strategy.body shape.canonical site = Check.mapOf canonical (strategy.body shape site)
  | .scalar name kind, site => by
      rw [canonical, body, Check.mapOf, Check.mapOf, Check.map, Test.map]
      simp
  | .struct name members, site => by
      have sorted : Text.sortedBy Prod.fst (Text.sortedBy Prod.fst (canonicalMembers members)) =
          Text.sortedBy Prod.fst (canonicalMembers members) :=
        Text.sortedBy_eq_self (Text.sortedBy_ascending _)
      have key : (Prod.fst : String × Shape → String) ∘ Prod.map id canonical = Prod.fst := rfl
      -- The members of the canonical shape are in the order in which they are compared already.
      rw [canonical, body_struct, body_struct, sorted, canonicalMembers_eq, Text.sortedBy_map, key,
        List.flatMap_map, Check.mapOf_flatMap]
      apply List.flatMap_congr
      intro member listed
      rw [Text.mem_sortedBy] at listed
      exact memberEntry_canonical sees members member listed site
  | .sequence name element, site => by
      rw [canonical, body, body]
      exact sees.sequence site element
  | .mapping name key value, site => by
      rw [canonical, body, body]
      split
      · exact sees.mapping site value
      · rw [Check.mapOf, Check.mapOf, Check.map]

theorem memberEntry_canonical (sees : strategy.SeesCanonical) :
    ∀ (members : List (String × Shape)) (member : String × Shape), member ∈ members →
      ∀ site, (strategy.memberEntry site (Prod.map id canonical member)).2 =
        Check.mapOf canonical (strategy.memberEntry site member).2
  | [], member, listed, site => absurd listed List.not_mem_nil
  | (name, shape) :: rest, member, listed, site => by
      rcases List.mem_cons.mp listed with rfl | inRest
      · simp only [memberEntry, Prod.map, id, body_canonical sees shape, member_canonical]
      · exact memberEntry_canonical sees rest member inRest site

end

theorem outermost_canonical (sees : strategy.SeesCanonical) (field : Field) (site : Site) :
    strategy.outermost field.canonical site =
      Check.mapOf canonical (strategy.outermost field site) := by
  have kept : field.canonical.isReference = field.isReference := rfl
  rw [outermost, outermost, kept]
  split
  · rfl
  · rw [Field.canonical, body_canonical sees, member_canonical]

theorem resource_canonical (sees : strategy.SeesCanonical) {left right : Resource}
    (same : left.topLevelFields.map Field.canonical = right.topLevelFields.map Field.canonical)
    (first second : String) :
    Check.mapOf canonical (strategy.resource left first second) =
      Check.mapOf canonical (strategy.resource right first second) := by
  have seen : ∀ resource : Resource,
      Check.mapOf canonical (strategy.resource resource first second) =
        (resource.topLevelFields.map Field.canonical).flatMap (fun field =>
          strategy.outermost field {
            path := field.path
            first := .member (.member (.root first) FieldRoot.spec.name) field.names.exported
            second := .member (.member (.root second) FieldRoot.spec.name) field.names.exported
          }) := by
    intro resource
    rw [Strategy.resource, Check.mapOf_flatMap, List.flatMap_map]
    apply List.flatMap_congr
    intro field _
    rw [outermost_canonical sees]
    rfl
  rw [seen left, seen right, same]

end Strategy

theorem Resource.Alike.isCompareIgnored {left right : Resource} (alike : left.Alike right) :
    left.isCompareIgnored = right.isCompareIgnored := by
  funext path
  rw [Resource.isCompareIgnored, Resource.isCompareIgnored, alike.settings]

/-- The checks of a resource by a strategy that depends on where the tags are. -/
def Resource.planned (resource : Resource) (strategy : Option FieldPath → Strategy)
    (first second : String) : Except CompareError (List Check) :=
  (resource.tagField.mapError .tagField).map (fun tag =>
    (strategy (tag.map Field.path)).resource resource first second)

/-- The same is planned for resources that look alike, up to canonical shapes. -/
theorem Resource.Alike.planned_eq {left right : Resource} (alike : left.Alike right)
    {strategy : Option FieldPath → Strategy} (sees : ∀ tag, (strategy tag).SeesCanonical)
    (first second : String) :
    (left.planned strategy first second).map (Check.mapOf Shape.canonical) =
      (right.planned strategy first second).map (Check.mapOf Shape.canonical) := by
  have planned : ∀ resource : Resource,
      (resource.planned strategy first second).map (Check.mapOf Shape.canonical) =
        ((resource.tagField.map (Option.map Field.path)).mapError .tagField).map (fun tag =>
          Check.mapOf Shape.canonical ((strategy tag).resource resource first second)) := by
    intro resource
    rw [Resource.planned]
    cases resource.tagField <;> rfl
  rw [planned left, planned right, alike.tags]
  congr 1
  funext tag
  exact Strategy.resource_canonical (sees tag) alike.fields first second

theorem Check.emit_mapOf {change : Shape → Shape} (names : Shape.KeepsNames change)
    (action : Site → String) (checks : List Check) :
    emit action (mapOf change checks) = emit action checks := by
  rw [emit, emit, demandsOf_mapOf, Demand.unmet?_map, codeOf_mapOf names]

namespace Delta

open Shape

theorem sequenceChecks_canonical (site : Site) (element : Shape) :
    sequenceChecks site element.canonicalHeld =
      Check.mapOf canonical (sequenceChecks site element) := by
  cases element with
  | scalar name kind => cases kind <;> rfl
  | struct name members => rfl
  | sequence name element => rfl
  | mapping name key value => rfl

theorem mappingChecks_canonical (site : Site) (value : Shape) :
    mappingChecks site value.canonicalHeld =
      Check.mapOf canonical (mappingChecks site value) := by
  cases value with
  | scalar name kind => cases kind <;> rfl
  | struct name members => rfl
  | sequence name element => rfl
  | mapping name key value => rfl

theorem seesCanonical (resource : Resource) (normalizer : Normalizer) (tag : Option FieldPath) :
    (strategy resource normalizer tag).SeesCanonical where
  sequence site element := by
    simp only [strategy, Check.mapOf, Check.map, sequenceChecks_canonical]
  mapping site value := by
    simp only [strategy, Check.mapOf, Check.map, mappingChecks_canonical]

theorem checks_eq_of_alike {left right : Resource} (alike : left.Alike right)
    (normalizer : Normalizer) (first second : String) :
    (checks left normalizer first second).map (Check.mapOf canonical) =
      (checks right normalizer first second).map (Check.mapOf canonical) := by
  have planned : ∀ resource : Resource, checks resource normalizer first second =
      resource.planned (strategy resource normalizer) first second := by
    intro resource
    rw [checks, Resource.planned]
    cases resource.tagField <;> rfl
  have sameStrategy : strategy left normalizer = strategy right normalizer := by
    funext tag
    rw [strategy, strategy, alike.isCompareIgnored]
  rw [planned, planned, ← sameStrategy]
  exact alike.planned_eq (seesCanonical left normalizer) first second

/-- Differences are recorded in the same way for resources that look alike. -/
theorem compareResource_eq_of_alike {left right : Resource} (alike : left.Alike right)
    (normalizer : Normalizer) (first second : String) (level : Nat) :
    compareResource left normalizer first second level =
      compareResource right normalizer first second level := by
  have seen : ∀ resource : Resource, compareResource resource normalizer first second level =
      (checks resource normalizer first second).map (Check.mapOf canonical) >>= fun checks => do
        let codes ← Check.emit action checks
        return Code.renderBehindBlank codes level := by
    intro resource
    rw [compareResource]
    cases checks resource normalizer first second with
    | error error => rfl
    | ok checks =>
        simp only [Except.map, bind, Except.bind, Check.emit_mapOf name_canonical]
  rw [seen left, seen right, checks_eq_of_alike alike]

end Delta

namespace Equality

open Shape

theorem helperCall_canonical (shape : Shape) (site : Site) :
    helperCall shape.canonical site = Check.mapOf canonical (helperCall shape site) := by
  rw [helperCall, helperCall, Check.mapOf_guarded (isNullable_canonical shape), Check.mapOf,
    Check.mapOf, Check.map, Test.map]

theorem elementChecks_canonical (strategy : Strategy) (site : Site) (element : Shape) :
    elementChecks site element.canonicalHeld (strategy.body element.canonicalHeld) =
      Check.mapOf canonical (elementChecks site element (strategy.body element)) := by
  cases element with
  | scalar name kind =>
      rw [canonicalHeld, elementChecks, Check.mapOf, Check.map, Check.mapOf_guarded rfl,
        Strategy.body]
      rfl
  | struct name members =>
      rw [canonicalHeld_struct, canonical, elementChecks, elementChecks, ← canonical,
        helperCall_canonical]
      rfl
  | sequence name element => rfl
  | mapping name key value => rfl

theorem valueChecks_canonical (strategy : Strategy) (site : Site) (value : Shape) :
    valueChecks site value.canonicalHeld (strategy.body value.canonicalHeld) =
      Check.mapOf canonical (valueChecks site value (strategy.body value)) := by
  cases value with
  | scalar name kind =>
      rw [canonicalHeld, valueChecks, Check.mapOf, Check.map, Check.mapOf_guarded rfl,
        Strategy.body]
      rfl
  | struct name members =>
      rw [canonicalHeld_struct, canonical, valueChecks, valueChecks, ← canonical,
        helperCall_canonical]
      rfl
  | sequence name element => rfl
  | mapping name key value => rfl

theorem seesCanonical (normalizer : Normalizer) (isIgnored isTagField : FieldPath → Bool) :
    (strategyWith normalizer isIgnored isTagField).SeesCanonical where
  sequence site element := by
    have same := elementChecks_canonical (strategyWith normalizer isIgnored isTagField) site element
    exact congrArg _ same
  mapping site value := by
    have same := valueChecks_canonical (strategyWith normalizer isIgnored isTagField) site value
    exact congrArg _ (congrArg _ same)

/-- The helper of a canonical shape is that of the shape, with canonical shapes in it. -/
theorem respects_canonical (normalizer : Normalizer) : Respects normalizer canonical := by
  intro shape
  rw [Helper.ofShape, Helper.ofShape, Helper.map, strategy,
    Strategy.body_canonical (seesCanonical normalizer _ _)]

theorem resourceChecks_eq_of_alike {left right : Resource} (alike : left.Alike right)
    (normalizer : Normalizer) (first second : String) :
    (resourceChecks left normalizer first second).map (Check.mapOf canonical) =
      (resourceChecks right normalizer first second).map (Check.mapOf canonical) := by
  have planned : ∀ resource : Resource, resourceChecks resource normalizer first second =
      resource.planned (resourceStrategy resource normalizer) first second := by
    intro resource
    rw [resourceChecks, Resource.planned]
    cases resource.tagField <;> rfl
  have sameStrategy : resourceStrategy left normalizer = resourceStrategy right normalizer := by
    funext tag
    rw [resourceStrategy, resourceStrategy, alike.isCompareIgnored]
  rw [planned, planned, ← sameStrategy]
  exact alike.planned_eq (fun tag => seesCanonical normalizer _ _) first second

/-- Resources that look alike are compared in the same way, and with the same new helpers. -/
theorem compareResource_eq_of_alike {left right : Resource} (alike : left.Alike right)
    (normalizer : Normalizer) (first second : String) (level : Nat) :
    (compareResource left normalizer first second level .empty).1 =
      (compareResource right normalizer first second level .empty).1 := by
  have seen : ∀ resource : Resource,
      (compareResource resource normalizer first second level .empty).1 =
        (resourceChecks resource normalizer first second).map (Check.mapOf canonical) >>=
          fun checks => (write normalizer checks level .empty).1 := by
    intro resource
    rw [compareResource]
    cases resourceChecks resource normalizer first second with
    | error error => rfl
    | ok checks =>
        have written := write_map name_canonical goType_canonical
          (respects_canonical normalizer) checks level .empty
        have empty : HelperQueue.empty.map canonical = .empty := rfl
        rw [empty] at written
        simp only [Except.map, bind, Except.bind, written]
  rw [seen left, seen right, resourceChecks_eq_of_alike alike]

end Equality

/-- Whether definitions differ in the order of members in desired state only. -/
structure ResourceDefinition.Reordered (definition other : ResourceDefinition) : Prop where
  name : definition.name = other.name
  spec : definition.spec.Reordered other.spec
  status : definition.status = other.status
  operations : definition.operations = other.operations

theorem ResourceDefinition.Reordered.eq_with_spec {definition other : ResourceDefinition}
    (reordered : definition.Reordered other) : other = { definition with spec := other.spec } := by
  rcases definition with ⟨name, spec, status, operations⟩
  rcases other with ⟨otherName, otherSpec, otherStatus, otherOperations⟩
  rcases reordered with ⟨rfl, _, rfl, rfl⟩
  rfl

namespace Resource

/--
The order in which the members of structures are declared shows neither in whether a definition
becomes a resource nor in how resources are compared, if no two fields of desired state, reference
fields included, have paths that differ by letter case only.
-/
theorem comparisons_eq_of_reordered (definition other : ResourceDefinition) (settings : Settings)
    (normalizer : Normalizer) (reordered : definition.Reordered other)
    (apart : (registrationOf definition settings normalizer).PathsApart
      definition.spec.membersBelow) :
    ((∃ left, ofDefinition definition settings normalizer = .ok left) ↔
      ∃ right, ofDefinition other settings normalizer = .ok right) ∧
    ∀ left right, ofDefinition definition settings normalizer = .ok left →
      ofDefinition other settings normalizer = .ok right → ∀ comparing first second level,
        Delta.compareResource left comparing first second level =
          Delta.compareResource right comparing first second level ∧
        (Equality.compareResource left comparing first second level .empty).1 =
          (Equality.compareResource right comparing first second level .empty).1 := by
  rw [reordered.eq_with_spec]
  refine ⟨exists_ofDefinition_iff_of_reordered reordered.spec apart.namedApart, ?_⟩
  intro left right ofLeft ofRight comparing first second level
  have alike := alike_of_reordered reordered.spec apart ofLeft ofRight
  exact ⟨Delta.compareResource_eq_of_alike alike comparing first second level,
    Equality.compareResource_eq_of_alike alike comparing first second level⟩

/-- A definition of a table with indexes, with members in one order. -/
def tableDefinition : ResourceDefinition where
  name := "Table"
  spec := .struct "TableSpec" [
    ("Indexes", .sequence "IndexList" (.struct "Index" [
      ("RoleARN", Shape.scalarOf .string), ("Rank", Shape.scalarOf .integer)])),
    ("Billing", .struct "Billing" [("Mode", Shape.scalarOf .string)])]
  status := none
  operations := ∅

/-- The definition with members in another order, outermost and below. -/
def tableReordered : ResourceDefinition where
  name := "Table"
  spec := .struct "TableSpec" [
    ("Billing", .struct "Billing" [("Mode", Shape.scalarOf .string)]),
    ("Indexes", .sequence "IndexList" (.struct "Index" [
      ("Rank", Shape.scalarOf .integer), ("RoleARN", Shape.scalarOf .string)]))]
  status := none
  operations := ∅

/-- Settings that take a member of an index from another resource. -/
def indexRoleFromIam : Settings where
  resources := .ofList [("Table", {
    fields := .ofList [("Indexes.RoleARN", {
      references := some {
        resource := "Role", service := some "iam", path := "Status.ARN",
        skipStateCheck := false } })] })]

theorem tableDefinition_reordered : tableDefinition.Reordered tableReordered where
  name := rfl
  spec := .trans
    (.member "TableSpec" "Indexes" [] _ (.element "IndexList" (.permuted "Index" (.swap ..))))
    (.permuted "TableSpec" (.swap ..))
  status := rfl
  operations := rfl

theorem comparisons_eq_of_reordered_table :
    ∃ left right, ofDefinition tableDefinition indexRoleFromIam .default = .ok left ∧
      ofDefinition tableReordered indexRoleFromIam .default = .ok right ∧
      left.specFields.keys =
        ["Indexes.RoleARN", "Indexes.Rank", "Indexes", "Billing.Mode", "Billing",
          "Indexes.RoleRef"] ∧
      right.specFields.keys =
        ["Billing.Mode", "Billing", "Indexes.Rank", "Indexes.RoleARN", "Indexes",
          "Indexes.RoleRef"] ∧
      Delta.compareResource left .default "a" "b" 1 =
        Delta.compareResource right .default "a" "b" 1 ∧
      (Equality.compareResource left .default "a" "b" 1 .empty).1 =
        (Equality.compareResource right .default "a" "b" 1 .empty).1 := by
  have facts : ∃ left ∈ (ofDefinition tableDefinition indexRoleFromIam .default).toOption,
      ∃ right ∈ (ofDefinition tableReordered indexRoleFromIam .default).toOption,
        left.specFields.keys =
          ["Indexes.RoleARN", "Indexes.Rank", "Indexes", "Billing.Mode", "Billing",
            "Indexes.RoleRef"] ∧
        right.specFields.keys =
          ["Billing.Mode", "Billing", "Indexes.Rank", "Indexes.RoleARN", "Indexes",
            "Indexes.RoleRef"] := by
    decide +kernel
  rcases facts with ⟨left, ofLeft, right, ofRight, leftKeys, rightKeys⟩
  have joined := Outcome.of_mem_toOption ofLeft
  have rejoined := Outcome.of_mem_toOption ofRight
  have same := comparisons_eq_of_reordered tableDefinition tableReordered indexRoleFromIam .default
    tableDefinition_reordered (by decide +kernel)
  exact ⟨left, right, joined, rejoined, leftKeys, rightKeys,
    same.2 left right joined rejoined .default "a" "b" 1⟩

end Resource

end Reconcile
