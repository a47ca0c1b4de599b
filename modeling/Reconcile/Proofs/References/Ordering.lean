import Reconcile.Proofs.FieldPath.Ordering
import Reconcile.Proofs.References.Collecting

/-!
# Order of referencing fields

The fields that take their values from other resources are sorted by the texts of their paths. If
their paths consist of names, this is the order of the paths themselves, in which a field comes
before all fields inside it (`Resource.ordered_by_path`).
-/

namespace Reconcile.Resource

variable {definition : ResourceDefinition} {settings : Settings} {normalizer : Normalizer}
  {resource : Resource}

theorem nodup_path_referencingFields
    (joined : ofDefinition definition settings normalizer = .ok resource) :
    (resource.referencingFields.map Field.path).Nodup := by
  refine List.pairwise_map.mpr ((pairwise_lt_referencingFields joined).imp ?_)
  intro earlier later less same
  rw [same] at less
  exact String.lt_irrefl _ less

/-- Fields whose paths are ordered stand in this order. -/
theorem compare_referencingFields
    (joined : ofDefinition definition settings normalizer = .ok resource)
    (named : ∀ field ∈ resource.referencingFields, field.path.IsNamed) :
    resource.referencingFields.Pairwise (fun earlier later =>
      compare earlier.path later.path = .lt) := by
  refine (pairwise_lt_referencingFields joined).imp_of_mem ?_
  intro earlier later isEarlier isLater less
  rw [FieldPath.compare_text (named earlier isEarlier) (named later isLater)]
  exact Std.LawfulLTCmp.eq_lt_iff_lt.mpr less

/-- A field comes before the fields inside it. -/
theorem sublist_referencingFields
    (joined : ofDefinition definition settings normalizer = .ok resource)
    (named : ∀ field ∈ resource.referencingFields, field.path.IsNamed) {outer inner : Field}
    (outerListed : outer ∈ resource.referencingFields)
    (innerListed : inner ∈ resource.referencingFields)
    (inside : outer.path.segments <+: inner.path.segments) (different : outer.path ≠ inner.path) :
    [outer, inner].Sublist resource.referencingFields := by
  refine Text.sublist_of_lt (pairwise_lt_referencingFields joined) outerListed innerListed ?_
  have less := FieldPath.compare_of_prefix inside different
  rw [FieldPath.compare_text (named outer outerListed) (named inner innerListed)] at less
  exact Std.LawfulLTCmp.eq_lt_iff_lt.mp less

/--
Paths are compared segment by segment, and segments byte by byte. For paths of names, which
identifiers are, this is the order of the bytes of their texts. So if the fields that take their
values from other resources have such paths, they are listed once each in the ascending order of
their paths, and each field comes before the fields inside it.
-/
theorem ordered_by_path :
    (∀ left right : FieldPath,
      compare left right = left.segments.compareLex Text.compareBytes right.segments) ∧
    (∀ path : FieldPath, (∀ segment ∈ path.segments, segment ≠ "" ∧ Text.IsWord segment) →
      path.IsNamed) ∧
    (∀ left right : FieldPath, left.IsNamed → right.IsNamed →
      compare left right = Text.compareBytes left.text right.text) ∧
    ∀ (definition : ResourceDefinition) (settings : Settings) (normalizer : Normalizer)
      (resource : Resource), ofDefinition definition settings normalizer = .ok resource →
      (∀ field ∈ resource.specFields.values, field.references?.isSome = true →
        field.path.IsNamed) →
      (∀ field, field ∈ resource.referencingFields ↔
        field ∈ resource.specFields.values ∧ field.references?.isSome = true) ∧
      (resource.referencingFields.map Field.path).Nodup ∧
      resource.referencingFields.Pairwise (fun earlier later =>
        compare earlier.path later.path = .lt) ∧
      ∀ outer ∈ resource.referencingFields, ∀ inner ∈ resource.referencingFields,
        outer.path.segments <+: inner.path.segments → outer.path ≠ inner.path →
          [outer, inner].Sublist resource.referencingFields := by
  refine ⟨FieldPath.compare_eq_compareBytes, fun _ => FieldPath.isNamed_of_isWord, ?_, ?_⟩
  · intro left right leftNamed rightNamed
    rw [Text.compareBytes_eq, FieldPath.compare_text leftNamed rightNamed]
  · intro definition settings normalizer resource joined valuesNamed
    have named : ∀ field ∈ resource.referencingFields, field.path.IsNamed := by
      intro field listed
      rcases mem_referencingFields.mp listed with ⟨isValue, referencing⟩
      exact valuesNamed field isValue referencing
    refine ⟨fun _ => mem_referencingFields, nodup_path_referencingFields joined,
      compare_referencingFields joined named, ?_⟩
    intro outer outerListed inner innerListed inside different
    exact sublist_referencingFields joined named outerListed innerListed inside different

/-- Desired state with a member inside another one and a third whose name goes on with a letter. -/
def backupDefinition : ResourceDefinition where
  name := "Backup"
  spec := .struct "BackupSpec" [
    ("VaultKey", Shape.scalarOf .string),
    ("Vault", .struct "Vault" [("Key", Shape.scalarOf .string)])]
  status := none
  operations := ∅

/-- Settings that take all members from other resources. -/
def backupReferences : Settings where
  resources := .ofList [("Backup", {
    fields := .ofList [
      ("VaultKey", { references := some {
        resource := "Key", service := some "kms", path := "Status.ARN",
        skipStateCheck := false } }),
      ("Vault", { references := some {
        resource := "Vault", service := none, path := "Spec.Name", skipStateCheck := false } }),
      ("Vault.Key", { references := some {
        resource := "Key", service := some "kms", path := "Status.ID",
        skipStateCheck := true } })] })]

/-- The fields are registered in another order, and the dot comes before the letter. -/
theorem ordered_by_path_backup :
    ∃ resource, ofDefinition backupDefinition backupReferences .default = .ok resource ∧
      resource.specFields.values.length = 6 ∧
      resource.referencingFields.map Field.path =
        [⟨["Vault"]⟩, ⟨["Vault", "Key"]⟩, ⟨["VaultKey"]⟩] ∧
      resource.referencingFields.Pairwise (fun earlier later =>
        compare earlier.path later.path = .lt) ∧
      compare (⟨["Vault", "Key"]⟩ : FieldPath) ⟨["VaultKey"]⟩ =
        Text.compareBytes "Vault.Key" "VaultKey" := by
  have facts : ∃ resource ∈ (ofDefinition backupDefinition backupReferences .default).toOption,
      resource.specFields.values.length = 6 ∧
        (∀ field ∈ resource.specFields.values, field.path.IsNamed) ∧
          resource.referencingFields.map Field.path =
            [⟨["Vault"]⟩, ⟨["Vault", "Key"]⟩, ⟨["VaultKey"]⟩] := by
    decide +kernel
  rcases facts with ⟨resource, made, count, named, paths⟩
  have joined := Outcome.of_mem_toOption made
  have innerNamed : FieldPath.IsNamed ⟨["Vault", "Key"]⟩ := by decide
  have otherNamed : FieldPath.IsNamed ⟨["VaultKey"]⟩ := by decide
  rcases ordered_by_path with ⟨_, _, sameOrder, listed⟩
  rcases listed _ _ _ resource joined (fun field isValue _ => named field isValue) with
    ⟨_, _, ascending, _⟩
  exact ⟨resource, joined, count, paths, ascending, sameOrder _ _ innerNamed otherNamed⟩

end Reconcile.Resource
