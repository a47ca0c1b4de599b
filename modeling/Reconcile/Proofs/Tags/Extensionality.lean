import Reconcile.Proofs.Tags.Histories

/-!
# Equality of tags

Tags are compared by looking up the entries of one side in the other one. As keys are distinct and
the sizes are equal, this is equality of all look-ups (`CanonicalTags.sameAs_iff`), on which the
order of the keys has no influence. Tags stay the same when they are written as pairs or as a
mapping and read again.
-/

namespace Reconcile.CanonicalTags

variable {left right : CanonicalTags}

theorem sameAs_iff : left.sameAs right = true ↔ ∀ key, left.get? key = right.get? key := by
  rw [sameAs, Bool.and_eq_true, beq_iff_eq, List.all_eq_true]
  simp only [beq_iff_eq]
  exact OrderedMap.get?_eq_iff.symm

/-- Tags are the same exactly if their mappings are equal up to order. -/
theorem beq_eq_sameAs (left right : CanonicalTags) : (left == right) = left.sameAs right := by
  rw [Bool.eq_iff_iff, sameAs_iff]
  exact OrderedMap.beq_iff

theorem equivalence_sameAs :
    Equivalence (fun left right : CanonicalTags => left.sameAs right = true) := by
  simp only [sameAs_iff]
  exact ⟨fun _ _ => rfl, fun same key => (same key).symm,
    fun first second key => (first key).trans (second key)⟩

theorem full_injective :
    Function.Injective (fun entry : String × String => TagPair.full entry.1 entry.2) := by
  rintro ⟨firstKey, firstValue⟩ ⟨secondKey, secondValue⟩ same
  cases same
  rfl

/-- Tags that are written as pairs and read again are the same, whatever order was replayed. -/
theorem sameAs_ofPairs_toPairs (tags : CanonicalTags) (order : List String) :
    (ofPairs (tags.toPairs order)).1.sameAs tags = true := by
  -- What was read is written back unchanged, so that both sides are in the pairs, in some order.
  have unchanged := toPairs_perm (ofPairs (tags.toPairs order)).1 (ofPairs (tags.toPairs order)).2
  rw [← roundTrip, roundTrip_toPairs] at unchanged
  have entries := (List.map_perm_map_iff full_injective).mp
    (unchanged.symm.trans (tags.toPairs_perm order))
  rw [sameAs_iff]
  exact OrderedMap.get?_eq_of_perm entries

theorem map_insertAll (tags : CanonicalTags) (entries : List (String × Option String)) :
    (tags.insertAll entries).map =
      tags.map.insertAll (entries.map (fun entry => (entry.1, entry.2.getD ""))) := by
  induction entries generalizing tags with
  | nil => rfl
  | cons entry rest ih => exact ih _

/-- Tags that are written as a mapping and read again are what they were, in the same order. -/
theorem ofMap_toMap (tags : CanonicalTags) : ofMap (.ofList tags.toMap) = tags := by
  have keys : Entries.keys tags.toMap = tags.entries.keys := by
    simp [toMap, Entries.keys]
  have written : (OrderedMap.ofList tags.toMap).entries = tags.toMap :=
    OrderedMap.entries_ofList (keys ▸ tags.nodup_keys)
  have values : tags.toMap.map (fun entry => (entry.1, entry.2.getD "")) = tags.entries := by
    rw [toMap, List.map_map]
    exact List.map_id tags.entries
  have read : (ofMap (.ofList tags.toMap)).map = tags.map := by
    apply OrderedMap.eq_of_entries
    rw [ofMap, written, map_insertAll, values]
    exact OrderedMap.entries_ofList tags.nodup_keys
  exact congrArg CanonicalTags.mk read

/--
Tags are the same exactly if they agree on all keys. So this is an equivalence, it is the equality
of tags up to the order of their keys, and it is kept by writing tags in either form and reading
them again.
-/
theorem sameAs_extensional :
    (∀ left right : CanonicalTags,
      left.sameAs right = true ↔ ∀ key, left.get? key = right.get? key) ∧
    Equivalence (fun left right : CanonicalTags => left.sameAs right = true) ∧
    (∀ left right : CanonicalTags, (left == right) = left.sameAs right) ∧
    ∀ tags : CanonicalTags,
      (∀ order, (ofPairs (tags.toPairs order)).1.sameAs tags = true) ∧
        (ofMap (.ofList tags.toMap)).sameAs tags = true := by
  refine ⟨fun _ _ => sameAs_iff, equivalence_sameAs, beq_eq_sameAs, ?_⟩
  intro tags
  refine ⟨tags.sameAs_ofPairs_toPairs, ?_⟩
  rw [ofMap_toMap]
  exact equivalence_sameAs.refl tags

end Reconcile.CanonicalTags
