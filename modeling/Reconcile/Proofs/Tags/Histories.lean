import Reconcile.Proofs.Tags.Replay

/-!
# Histories of tags

Tags come from nothing, from a list of pairs or from a mapping, and are edited. All of this amounts
to changes one after the other (`CanonicalTags.BuiltBy`), and the keys stand in the order in which
the changes brought them (`CanonicalTags.BuiltBy.pairwise_keys`). Whatever order is replayed,
writing tags back takes each key once (`CanonicalTags.writtenKeys_perm`): nothing is lost or
repeated.
-/

namespace Reconcile.CanonicalTags

/-- The change that a read entry makes. An absent value is an empty one. -/
def entering (entry : String × Option String) : TagEdit :=
  .insert entry.1 (entry.2.getD "")

/--
Whether tags were built by changes one after the other. Tags that are read from a list or a mapping
were built by entering what was read in order.
-/
inductive BuiltBy : CanonicalTags → List TagEdit → Prop
  | none : BuiltBy empty []
  | ofPairs (pairs : List TagPair) : BuiltBy (ofPairs pairs).1 ((keyed pairs).map entering)
  | ofMap (map : OrderedMap (Option String)) : BuiltBy (ofMap map) (map.entries.map entering)
  | insert {tags : CanonicalTags} {edits : List TagEdit} (built : BuiltBy tags edits)
      (key value : String) : BuiltBy (tags.insert key value) (edits ++ [.insert key value])
  | erase {tags : CanonicalTags} {edits : List TagEdit} (built : BuiltBy tags edits)
      (key : String) : BuiltBy (tags.erase key) (edits ++ [.remove key])

variable {tags : CanonicalTags} {edits : List TagEdit}

theorem insertAll_eq_editAll (tags : CanonicalTags) (entries : List (String × Option String)) :
    tags.insertAll entries = tags.editAll (entries.map entering) := by
  rw [insertAll, editAll, List.foldl_map]
  rfl

/-- What was built by changes is what the changes make of no tags. -/
theorem BuiltBy.eq_editAll (built : tags.BuiltBy edits) : tags = empty.editAll edits := by
  induction built with
  | none => rfl
  | ofPairs pairs => exact insertAll_eq_editAll empty _
  | ofMap map => exact insertAll_eq_editAll empty _
  | insert built key value ih =>
      rw [editAll_concat, ← ih]
      rfl
  | erase built key ih =>
      rw [editAll_concat, ← ih]
      rfl

/-- The keys stand in the order in which they became present. -/
theorem BuiltBy.pairwise_keys (built : tags.BuiltBy edits) :
    tags.entries.keys.Pairwise (empty.ArrivesBefore edits) := by
  have arrived := pairwise_arrivesBefore empty edits
  have all : ∀ key ∈ (empty.editAll edits).entries.keys, (!empty.holds key) = true :=
    fun _ _ => rfl
  rwa [List.filter_eq_self.mpr all, ← built.eq_editAll] at arrived

/-! ### The keys that are written back -/

theorem mem_writtenKeys {key : String} {order : List String} :
    key ∈ tags.writtenKeys order ↔ tags.holds key = true := by
  refine ⟨holds_of_mem_writtenKeys, fun present => ?_⟩
  rw [writtenKeys, List.mem_append, List.mem_filter, List.mem_filter, List.mem_eraseDups, mem_keys]
  by_cases listed : key ∈ order
  · exact Or.inl ⟨listed, present⟩
  · exact Or.inr ⟨present, by simpa using listed⟩

theorem writtenKeys_perm (tags : CanonicalTags) (order : List String) :
    (tags.writtenKeys order).Perm tags.entries.keys := by
  refine (List.perm_ext_iff_of_nodup (tags.nodup_writtenKeys order) tags.nodup_keys).mpr ?_
  intro key
  rw [mem_writtenKeys, mem_keys]

/-- What is written back are the tags in some order. -/
theorem toPairs_perm (tags : CanonicalTags) (order : List String) :
    (tags.toPairs order).Perm (tags.entries.map (fun entry => .full entry.1 entry.2)) := by
  rw [toPairs_eq, map_entries_full]
  exact (tags.writtenKeys_perm order).map _

theorem nodup_map_key_toPairs (tags : CanonicalTags) (order : List String) :
    ((tags.toPairs order).map TagPair.key).Nodup := by
  have keys : TagPair.key ∘ tags.pair = some := rfl
  rw [toPairs_eq, List.map_map, keys]
  exact List.Nodup.map (fun _ _ => Option.some.inj) (tags.nodup_writtenKeys order)

/-- The first occurrences in a list stand in the order of their indices. -/
theorem pairwise_idxOf_eraseDups (keys : List String) :
    keys.eraseDups.Pairwise (fun first second => keys.idxOf first < keys.idxOf second) := by
  induction keys with
  | nil => exact List.Pairwise.nil
  | cons key rest ih =>
      have later : ∀ other ∈ rest.eraseDups.filter (fun other => !other == key),
          (key :: rest).idxOf other = rest.idxOf other + 1 := by
        intro other listed
        have different : other ≠ key := by simpa using (List.mem_filter.mp listed).2
        exact List.idxOf_cons_ne rest (Ne.symm different)
      rw [List.eraseDups_cons, eraseDups_filter, List.pairwise_cons]
      refine ⟨?_, ?_⟩
      · intro other listed
        rw [later other listed, List.idxOf_cons_self]
        exact Nat.succ_pos _
      · refine (ih.sublist List.filter_sublist).imp_of_mem ?_
        intro first second isFirst isSecond less
        rw [later first isFirst, later second isSecond]
        exact Nat.succ_lt_succ less

/--
Whatever tags were built and whatever order is replayed, the pairs that are written back are the
entries of the tags in some order, and their keys are distinct. The keys of the order that are
present come first, in the order in which they are first listed; the others follow in the order in
which they last became present.
-/
theorem replay_complete (built : tags.BuiltBy edits) (order : List String) :
    (tags.toPairs order).Perm (tags.entries.map (fun entry => .full entry.1 entry.2)) ∧
      ((tags.toPairs order).map TagPair.key).Nodup ∧
        ∃ listed others : List String, tags.toPairs order = (listed ++ others).map tags.pair ∧
          (∀ key, key ∈ listed ↔ key ∈ order ∧ tags.holds key = true) ∧
            listed.Pairwise (fun first second => order.idxOf first < order.idxOf second) ∧
              (∀ key, key ∈ others ↔ tags.holds key = true ∧ key ∉ order) ∧
                others.Pairwise (empty.ArrivesBefore edits) := by
  refine ⟨tags.toPairs_perm order, tags.nodup_map_key_toPairs order,
    order.eraseDups.filter tags.holds, tags.entries.keys.filter (fun key => key ∉ order),
    tags.toPairs_eq order, ?_, ?_, ?_, ?_⟩
  · intro key
    rw [List.mem_filter, List.mem_eraseDups]
  · exact (pairwise_idxOf_eraseDups order).sublist List.filter_sublist
  · intro key
    rw [List.mem_filter, mem_keys, decide_eq_true_eq]
  · exact built.pairwise_keys.sublist List.filter_sublist

/-- Tags of which one was taken out and came back. -/
def returned : CanonicalTags :=
  (((ofPairs [.full "b" "1", ⟨none, none⟩, .full "a" "2"]).1.insert "c" "3").erase "b").insert
    "b" "4"

/-- A tag that came back stands behind the others, and an order may list keys twice or in vain. -/
theorem replay_complete_returned :
    let history : List TagEdit :=
      [.insert "b" "1", .insert "a" "2", .insert "c" "3", .remove "b", .insert "b" "4"]
    returned.BuiltBy history ∧
      returned.toPairs ["x", "c", "c"] = [.full "c" "3", .full "a" "2", .full "b" "4"] ∧
        ((returned.toPairs ["x", "c", "c"]).map TagPair.key).Nodup ∧
          ∃ listed others : List String,
            returned.toPairs ["x", "c", "c"] = (listed ++ others).map returned.pair ∧
              (∀ key, key ∈ others ↔ returned.holds key = true ∧ key ∉ ["x", "c", "c"]) ∧
                others.Pairwise (empty.ArrivesBefore history) := by
  intro history
  have built : returned.BuiltBy history :=
    (((BuiltBy.ofPairs [.full "b" "1", ⟨none, none⟩, .full "a" "2"]).insert "c" "3").erase
      "b").insert "b" "4"
  rcases replay_complete built ["x", "c", "c"] with
    ⟨_, distinct, listed, others, written, _, _, isOther, arrived⟩
  exact ⟨built, by decide, distinct, listed, others, written, isOther, arrived⟩

end Reconcile.CanonicalTags
