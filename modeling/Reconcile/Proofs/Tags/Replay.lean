import Mathlib.Data.List.Basic
import Mathlib.Data.List.Induction
import Reconcile.Proofs.OrderedMap
import Reconcile.Tags.Canonical

/-!
# Replaying the order of tags

Tags that were read from a list of pairs are edited and written back as a list. The keys of the
original list come first, in their original order, and the others in the order in which they
arrived (`CanonicalTags.replay_edited`). Erasing and entering both keep the order of what is
there, so that the order of arrival is an invariant of editing (`pairwise_arrivesBefore`), and
writing back takes the tags apart into the keys that are replayed and the others
(`writtenKeys`).
-/

namespace Reconcile

/-- A change to tags. -/
inductive TagEdit where
  /-- Gives a key a value. -/
  | insert (key value : String)
  /-- Takes a key out. -/
  | remove (key : String)

namespace CanonicalTags

/-- The tags after a change. -/
def edit (tags : CanonicalTags) : TagEdit → CanonicalTags
  | .insert key value => tags.insert key value
  | .remove key => tags.erase key

/-- The tags after changes one after the other. -/
def editAll (tags : CanonicalTags) (edits : List TagEdit) : CanonicalTags :=
  edits.foldl edit tags

/-- Whether a key is present. -/
def holds (tags : CanonicalTags) (key : String) : Bool :=
  (tags.get? key).isSome

/-- A key with its current value. -/
def pair (tags : CanonicalTags) (key : String) : TagPair :=
  ⟨some key, tags.get? key⟩

/-- Whether a key became present with the change at an index and has stayed since. -/
def ArrivesLast (tags : CanonicalTags) (edits : List TagEdit) (key : String) (index : Nat) :
    Prop :=
  (tags.editAll (edits.take index)).holds key = false ∧
    ∀ later, index < later → (tags.editAll (edits.take later)).holds key = true

/-- Whether a key became present, for the last time, before another one did. -/
def ArrivesBefore (tags : CanonicalTags) (edits : List TagEdit) (first second : String) : Prop :=
  ∃ earlier later, tags.ArrivesLast edits first earlier ∧ tags.ArrivesLast edits second later ∧
    earlier < later

/-- The keys of pairs in the order in which they first occur. -/
def keysOf (pairs : List TagPair) : List String :=
  (pairs.filterMap TagPair.key).eraseDups

/-- The value in the last pair of a key. An absent value is an empty one. -/
def lastValue (pairs : List TagPair) (key : String) : String :=
  ((pairs.filter (fun pair => pair.key == some key)).getLast?.bind TagPair.value).getD ""

/-- Pairs without the keyless ones, where a key stands at its first place with its last value. -/
def merged (pairs : List TagPair) : List TagPair :=
  (keysOf pairs).map (fun key => .full key (lastValue pairs key))

/-- The pairs that come back from tags which were read from pairs. -/
def roundTrip (pairs : List TagPair) : List TagPair :=
  (ofPairs pairs).1.toPairs (ofPairs pairs).2

variable {tags : CanonicalTags} {key : String}

theorem mem_keys : key ∈ tags.entries.keys ↔ tags.holds key = true := by
  rw [holds, get?, OrderedMap.get?, Option.isSome_map, Entries.lookup?, List.find?_isSome,
    Entries.keys, List.mem_map]
  simp [entries]

theorem get?_erase (tags : CanonicalTags) (key other : String) :
    (tags.erase key).get? other = if key = other then none else tags.get? other :=
  OrderedMap.get?_erase tags.map key other

theorem get?_insert (tags : CanonicalTags) (key other value : String) :
    (tags.insert key value).get? other = if key = other then some value else tags.get? other :=
  OrderedMap.get?_insert tags.map key other value

theorem nodup_keys (tags : CanonicalTags) : tags.entries.keys.Nodup :=
  tags.map.nodup_keys

/-! ### Writing tags back -/

/-- What is left out is left out of the first occurrences. -/
theorem eraseDups_filter (keep : String → Bool) (keys : List String) :
    (keys.filter keep).eraseDups = keys.eraseDups.filter keep := by
  -- The first occurrences of a list are its head and those of a shorter list.
  match keys with
  | [] => rfl
  | key :: rest =>
      have shorter := eraseDups_filter keep (rest.filter (fun other => !other == key))
      rw [List.filter_filter] at shorter
      rw [List.eraseDups_cons]
      by_cases kept : keep key = true
      · rw [List.filter_cons_of_pos kept, List.filter_cons_of_pos kept, List.eraseDups_cons,
          List.filter_filter, ← shorter]
        simp only [Bool.and_comm]
      · have apart : ∀ other ∈ rest, (keep other && !other == key) = keep other := by
          intro other _
          by_cases same : other = key
          · simp [same, kept]
          · simp [same]
        rw [List.filter_cons_of_neg kept, List.filter_cons_of_neg kept, ← shorter,
          List.filter_congr apart]
termination_by keys.length
decreasing_by exact Nat.lt_succ_of_le (List.length_filter_le _ _)

theorem nodup_eraseDups (keys : List String) : keys.eraseDups.Nodup := by
  match keys with
  | [] => exact List.nodup_nil
  | key :: rest =>
      rw [List.eraseDups_cons, List.nodup_cons]
      refine ⟨?_, nodup_eraseDups _⟩
      simp [List.mem_eraseDups]
termination_by keys.length
decreasing_by exact Nat.lt_succ_of_le (List.length_filter_le _ _)

theorem eraseDups_of_nodup {keys : List String} (distinct : keys.Nodup) :
    keys.eraseDups = keys := by
  induction keys with
  | nil => rfl
  | cons key rest ih =>
      rw [List.nodup_cons] at distinct
      have apart : ∀ other ∈ rest, (!other == key) = true := by
        rintro other inRest
        have different : other ≠ key := fun same => distinct.1 (same ▸ inRest)
        simp [different]
      rw [List.eraseDups_cons, List.filter_eq_self.mpr apart, ih distinct.2]

theorem holds_erase (tags : CanonicalTags) (key other : String) :
    (tags.erase key).holds other = (tags.holds other && !other == key) := by
  rw [holds, get?_erase, holds]
  by_cases same : key = other
  · simp [same]
  · simp [same, Ne.symm same]

theorem keys_erase (tags : CanonicalTags) (key : String) :
    (tags.erase key).entries.keys = tags.entries.keys.filter (fun other => !other == key) :=
  Entries.keys_erase key tags.entries

theorem pair_erase {other : String} (apart : other ≠ key) :
    (tags.erase key).pair other = tags.pair other := by
  rw [pair, get?_erase, if_neg (Ne.symm apart), pair]

/-- The current tags in order. -/
theorem map_entries_full (tags : CanonicalTags) :
    tags.entries.map (fun entry => TagPair.full entry.1 entry.2) =
      tags.entries.keys.map tags.pair := by
  have current : ∀ entry ∈ tags.entries, TagPair.full entry.1 entry.2 = tags.pair entry.1 := by
    intro entry listed
    have found : tags.get? entry.1 = some entry.2 := OrderedMap.get?_of_mem listed
    rw [pair, found, TagPair.full]
  rw [List.map_congr_left current, Entries.keys, List.map_map]
  rfl

/-- The keys that are written back: those of the order that are present, then the others. -/
def writtenKeys (tags : CanonicalTags) (order : List String) : List String :=
  order.eraseDups.filter tags.holds ++ tags.entries.keys.filter (fun key => key ∉ order)

theorem holds_of_mem_writtenKeys {order : List String} (listed : key ∈ tags.writtenKeys order) :
    tags.holds key = true := by
  rcases List.mem_append.mp listed with replayed | other
  · exact (List.mem_filter.mp replayed).2
  · exact mem_keys.mp (List.mem_of_mem_filter other)

theorem nodup_writtenKeys (tags : CanonicalTags) (order : List String) :
    (tags.writtenKeys order).Nodup := by
  refine List.nodup_append.mpr ⟨(nodup_eraseDups order).filter _, tags.nodup_keys.filter _, ?_⟩
  rintro first replayed second other rfl
  have inOrder := List.mem_eraseDups.mp (List.mem_of_mem_filter replayed)
  have outside := (List.mem_filter.mp other).2
  simp [inOrder] at outside

theorem writtenKeys_nil (tags : CanonicalTags) : tags.writtenKeys [] = tags.entries.keys := by
  have all : tags.entries.keys.filter (fun key => key ∉ []) = tags.entries.keys :=
    List.filter_eq_self.mpr (by simp)
  rw [writtenKeys, all, List.eraseDups_nil, List.filter_nil, List.nil_append]

theorem writtenKeys_cons_of_absent (absent : tags.holds key = false) (rest : List String) :
    tags.writtenKeys (key :: rest) = tags.writtenKeys rest := by
  have replayed : ∀ other ∈ rest.eraseDups,
      (tags.holds other && !other == key) = tags.holds other := by
    intro other _
    by_cases same : other = key
    · simp [same, absent]
    · simp [same]
  have others : ∀ other ∈ tags.entries.keys,
      decide (other ∉ key :: rest) = decide (other ∉ rest) := by
    intro other listed
    have apart : other ≠ key := by
      rintro rfl
      simp [mem_keys, absent] at listed
    simp [apart]
  rw [writtenKeys, writtenKeys, List.eraseDups_cons, eraseDups_filter,
    List.filter_cons_of_neg (by simp [absent]), List.filter_filter, List.filter_congr replayed,
    List.filter_congr others]

theorem writtenKeys_cons_of_present (present : tags.holds key = true) (rest : List String) :
    tags.writtenKeys (key :: rest) = key :: (tags.erase key).writtenKeys rest := by
  have replayed : ∀ other ∈ rest.eraseDups,
      (tags.erase key).holds other = (tags.holds other && !other == key) :=
    fun other _ => holds_erase tags key other
  have others : ∀ other ∈ tags.entries.keys,
      (decide (other ∉ rest) && !other == key) = decide (other ∉ key :: rest) := by
    intro other _
    by_cases same : other = key
    · simp [same]
    · simp [same]
  rw [writtenKeys, writtenKeys, keys_erase, List.filter_filter, List.filter_congr others,
    List.filter_congr replayed, List.eraseDups_cons, eraseDups_filter,
    List.filter_cons_of_pos present, List.filter_filter, List.cons_append]

/-- What is written back are the current tags at these keys. -/
theorem toPairs_eq (tags : CanonicalTags) (order : List String) :
    tags.toPairs order = (tags.writtenKeys order).map tags.pair := by
  induction order generalizing tags with
  | nil => rw [toPairs, map_entries_full, writtenKeys_nil]
  | cons key rest ih =>
      rw [toPairs]
      cases found : tags.get? key with
      | none =>
          have absent : tags.holds key = false := by simp [holds, found]
          rw [writtenKeys_cons_of_absent absent]
          exact ih tags
      | some value =>
          have present : tags.holds key = true := by simp [holds, found]
          have current : tags.pair key = .full key value := by rw [pair, found, TagPair.full]
          have kept : ∀ other ∈ (tags.erase key).writtenKeys rest,
              (tags.erase key).pair other = tags.pair other := by
            intro other listed
            apply pair_erase
            rintro rfl
            have still := holds_of_mem_writtenKeys listed
            simp [holds_erase] at still
          rw [writtenKeys_cons_of_present present, List.map_cons, current, ih,
            List.map_congr_left kept]

/-! ### Round trips -/

theorem map_fst_keyed (pairs : List TagPair) :
    (keyed pairs).map Prod.fst = pairs.filterMap TagPair.key := by
  rw [keyed, List.map_filterMap]
  congr 1
  funext pair
  cases pair.key <;> rfl

/-- A key that was read has the value of its last pair. -/
theorem get?_ofPairs (pairs : List TagPair) (key : String) :
    (ofPairs pairs).1.get? key =
      (pairs.filter (fun pair => pair.key == some key)).getLast?.map
        (fun pair => pair.value.getD "") := by
  induction pairs using List.reverseRecOn with
  | nil => rfl
  | append_singleton pairs pair ih =>
      rcases pair with ⟨pairKey, value⟩
      rw [ofPairs] at ih ⊢
      cases pairKey with
      | none => simpa [keyed] using ih
      | some other =>
          have read : empty.insertAll (keyed (pairs ++ [⟨some other, value⟩])) =
              (empty.insertAll (keyed pairs)).insert other (value.getD "") := by
            simp [keyed, insertAll]
          rw [read, get?_insert, ih]
          by_cases same : other = key
          · simp [same]
          · simp [same]

theorem holds_ofPairs {pairs : List TagPair} :
    (ofPairs pairs).1.holds key = true ↔ key ∈ keysOf pairs := by
  have found : (ofPairs pairs).1.holds key = true ↔ ∃ pair ∈ pairs, pair.key = some key := by
    rw [holds, get?_ofPairs, Option.isSome_map, List.getLast?_isSome, ne_eq,
      List.filter_eq_nil_iff]
    simp
  rw [found, keysOf, List.mem_eraseDups, List.mem_filterMap]

theorem pair_ofPairs {pairs : List TagPair} (listed : key ∈ keysOf pairs) :
    (ofPairs pairs).1.pair key = .full key (lastValue pairs key) := by
  have present := holds_ofPairs.mpr listed
  rw [holds, get?_ofPairs] at present
  rw [pair, get?_ofPairs, lastValue, TagPair.full]
  cases last : (pairs.filter (fun pair => pair.key == some key)).getLast? with
  | none => simp [last] at present
  | some pair => rfl

theorem roundTrip_eq (pairs : List TagPair) : roundTrip pairs = merged pairs := by
  have order : (ofPairs pairs).2 = pairs.filterMap TagPair.key := map_fst_keyed pairs
  have replayed : (keysOf pairs).filter (ofPairs pairs).1.holds = keysOf pairs :=
    List.filter_eq_self.mpr (fun _ listed => holds_ofPairs.mpr listed)
  have others : (ofPairs pairs).1.entries.keys.filter
      (fun key => key ∉ pairs.filterMap TagPair.key) = [] := by
    rw [List.filter_eq_nil_iff]
    intro key listed
    have isKey := holds_ofPairs.mp (mem_keys.mp listed)
    rw [keysOf, List.mem_eraseDups] at isKey
    simpa using isKey
  rw [roundTrip, toPairs_eq, writtenKeys, order, ← keysOf, replayed, others, List.append_nil, merged]
  exact List.map_congr_left (fun _ listed => pair_ofPairs listed)

theorem merged_full {keys : List String} (distinct : keys.Nodup) (value : String → String) :
    merged (keys.map (fun key => .full key (value key))) =
      keys.map (fun key => .full key (value key)) := by
  have sameKeys : keysOf (keys.map (fun key => .full key (value key))) = keys := by
    have read : TagPair.key ∘ (fun key => TagPair.full key (value key)) = some := rfl
    rw [keysOf, List.filterMap_map, read, List.filterMap_some, eraseDups_of_nodup distinct]
  rw [merged, sameKeys]
  apply List.map_congr_left
  intro key listed
  have sameValue : lastValue (keys.map (fun key => .full key (value key))) key = value key := by
    rw [lastValue]
    cases last : ((keys.map (fun key => TagPair.full key (value key))).filter
        (fun pair => pair.key == some key)).getLast? with
    | none =>
        rw [List.getLast?_eq_none_iff, List.filter_eq_nil_iff] at last
        exact absurd (beq_self_eq_true _) (last _ (List.mem_map_of_mem listed))
    | some pair =>
        have isLast := List.mem_filter.mp (List.mem_of_getLast? last)
        rcases List.mem_map.mp isLast.1 with ⟨other, _, rfl⟩
        have same : other = key := by simpa [TagPair.full] using isLast.2
        simp [TagPair.full, same]
  rw [sameValue]

theorem full_of_holds (present : tags.holds key = true) :
    tags.pair key = .full key ((tags.get? key).getD "") := by
  rcases Option.isSome_iff_exists.mp present with ⟨value, found⟩
  rw [pair, found, Option.getD_some, TagPair.full]

/-- Whatever was written back is read and written back unchanged. -/
theorem roundTrip_toPairs (tags : CanonicalTags) (order : List String) :
    roundTrip (tags.toPairs order) = tags.toPairs order := by
  rw [roundTrip_eq, toPairs_eq,
    List.map_congr_left (fun _ listed => full_of_holds (holds_of_mem_writtenKeys listed))]
  exact merged_full (tags.nodup_writtenKeys order) _

/-! ### The order of arrival -/

theorem editAll_concat (tags : CanonicalTags) (edits : List TagEdit) (last : TagEdit) :
    tags.editAll (edits ++ [last]) = (tags.editAll edits).edit last := by
  simp [editAll]

/-- A change keeps the order of the keys that stay, and a new key comes last. -/
theorem keys_edit (tags : CanonicalTags) (change : TagEdit) :
    ∃ kept added, (tags.edit change).entries.keys = kept ++ added ∧
      kept.Sublist tags.entries.keys ∧
        (added = [] ∨ ∃ key, added = [key] ∧ tags.holds key = false) := by
  cases change with
  | insert key value =>
      have entered : (tags.edit (.insert key value)).entries.keys =
          if key ∈ tags.entries.keys then tags.entries.keys else tags.entries.keys ++ [key] :=
        Entries.keys_insert key value tags.entries
      by_cases present : key ∈ tags.entries.keys
      · exact ⟨_, [], by rw [entered, if_pos present, List.append_nil], .refl _, Or.inl rfl⟩
      · rw [mem_keys, Bool.not_eq_true] at present
        refine ⟨_, [key], ?_, .refl _, Or.inr ⟨key, rfl, present⟩⟩
        rw [entered, if_neg (by simp [mem_keys, present])]
  | remove key =>
      have left := keys_erase tags key
      exact ⟨_, [], by rw [List.append_nil]; exact left, List.filter_sublist, Or.inl rfl⟩

section

variable {edits : List TagEdit} {last : TagEdit} {index : Nat} {first second : String}

theorem ArrivesLast.lt_length (arrives : tags.ArrivesLast edits key index)
    (present : (tags.editAll edits).holds key = true) : index < edits.length := by
  apply Nat.lt_of_not_le
  intro past
  have absent := arrives.1
  rw [List.take_of_length_le past, present] at absent
  exact Bool.noConfusion absent

theorem ArrivesLast.concat (arrives : tags.ArrivesLast edits key index)
    (present : (tags.editAll edits).holds key = true)
    (stays : (tags.editAll (edits ++ [last])).holds key = true) :
    tags.ArrivesLast (edits ++ [last]) key index := by
  have within := arrives.lt_length present
  refine ⟨?_, ?_⟩
  · rw [List.take_append_of_le_length (Nat.le_of_lt within)]
    exact arrives.1
  · intro later behind
    by_cases inside : later ≤ edits.length
    · rw [List.take_append_of_le_length inside]
      exact arrives.2 later behind
    · rw [List.take_of_length_le (by simp; omega)]
      exact stays

theorem arrivesLast_concat (absent : (tags.editAll edits).holds key = false)
    (present : (tags.editAll (edits ++ [last])).holds key = true) :
    tags.ArrivesLast (edits ++ [last]) key edits.length := by
  refine ⟨by rwa [List.take_left], ?_⟩
  intro later behind
  rwa [List.take_of_length_le (by simp; omega)]

/-- A key that is there in the end and was not at first has arrived. -/
theorem exists_arrivesLast (absent : tags.holds key = false)
    (present : (tags.editAll edits).holds key = true) :
    ∃ index, tags.ArrivesLast edits key index := by
  induction edits using List.reverseRecOn with
  | nil => exact absurd present (by simp [editAll, absent])
  | append_singleton edits last ih =>
      cases before : (tags.editAll edits).holds key with
      | true =>
          rcases ih before with ⟨index, arrives⟩
          exact ⟨index, arrives.concat before present⟩
      | false => exact ⟨edits.length, arrivesLast_concat before present⟩

/-- Keys that stay keep their order of arrival. -/
theorem ArrivesBefore.concat (before : tags.ArrivesBefore edits first second)
    (firstPresent : (tags.editAll edits).holds first = true)
    (secondPresent : (tags.editAll edits).holds second = true)
    (firstStays : (tags.editAll (edits ++ [last])).holds first = true)
    (secondStays : (tags.editAll (edits ++ [last])).holds second = true) :
    tags.ArrivesBefore (edits ++ [last]) first second := by
  rcases before with ⟨earlier, later, firstArrives, secondArrives, less⟩
  exact ⟨earlier, later, firstArrives.concat firstPresent firstStays,
    secondArrives.concat secondPresent secondStays, less⟩

/-- A key that arrived and stays is there before one that the last change brings. -/
theorem arrivesBefore_concat (fresh : tags.holds first = false)
    (firstPresent : (tags.editAll edits).holds first = true)
    (firstStays : (tags.editAll (edits ++ [last])).holds first = true)
    (absent : (tags.editAll edits).holds second = false)
    (present : (tags.editAll (edits ++ [last])).holds second = true) :
    tags.ArrivesBefore (edits ++ [last]) first second := by
  rcases exists_arrivesLast fresh firstPresent with ⟨index, arrives⟩
  exact ⟨index, edits.length, arrives.concat firstPresent firstStays,
    arrivesLast_concat absent present, arrives.lt_length firstPresent⟩

/-- Keys that were not there at first stand in the order in which they arrived. -/
theorem pairwise_arrivesBefore (tags : CanonicalTags) (edits : List TagEdit) :
    ((tags.editAll edits).entries.keys.filter (fun key => !tags.holds key)).Pairwise
      (tags.ArrivesBefore edits) := by
  induction edits using List.reverseRecOn with
  | nil =>
      have none : (tags.editAll []).entries.keys.filter (fun key => !tags.holds key) = [] := by
        rw [List.filter_eq_nil_iff]
        intro key listed
        have present : tags.holds key = true := mem_keys.mp listed
        simp [present]
      rw [none]
      exact List.Pairwise.nil
  | append_singleton edits last ih =>
      rcases keys_edit (tags.editAll edits) last with ⟨kept, added, keys, stay, isNew⟩
      rw [← editAll_concat] at keys
      have present : ∀ key ∈ kept ++ added, (tags.editAll (edits ++ [last])).holds key = true :=
        fun key listed => mem_keys.mp (keys ▸ listed)
      have before : ∀ key ∈ kept, (tags.editAll edits).holds key = true :=
        fun key listed => mem_keys.mp (stay.subset listed)
      rw [keys, List.filter_append, List.pairwise_append]
      refine ⟨?_, ?_, ?_⟩
      · refine (ih.sublist (stay.filter _)).imp_of_mem ?_
        intro first second isFirst isSecond arrived
        have firstKept := List.mem_of_mem_filter isFirst
        have secondKept := List.mem_of_mem_filter isSecond
        exact arrived.concat (before _ firstKept) (before _ secondKept)
          (present _ (List.mem_append_left _ firstKept))
          (present _ (List.mem_append_left _ secondKept))
      · rcases isNew with rfl | ⟨key, rfl, _⟩
        · exact List.Pairwise.nil
        · exact (List.pairwise_singleton _ _).sublist List.filter_sublist
      · intro first isFirst second isSecond
        rcases List.mem_filter.mp isFirst with ⟨firstKept, isFresh⟩
        have inAdded := List.mem_of_mem_filter isSecond
        rcases isNew with rfl | ⟨key, rfl, absent⟩
        · exact absurd inAdded List.not_mem_nil
        · rw [List.mem_singleton] at inAdded
          subst inAdded
          exact arrivesBefore_concat (by simpa using isFresh) (before _ firstKept)
            (present _ (List.mem_append_left _ firstKept)) absent
            (present _ (List.mem_append_right _ List.mem_cons_self))

end

/--
Tags are read from a list, edited and written back. The keys of the list that are still present
come first, in the order in which they first occurred, each once with its current value; every
other key that is present follows once, in the order in which the keys last became present.
Without edits the list comes back merged, and what was written back once stays as it is.
-/
theorem replay_edited (pairs : List TagPair) (edits : List TagEdit) :
    let tags := (ofPairs pairs).1
    let order := (ofPairs pairs).2
    let edited := tags.editAll edits
    (∃ others,
      edited.toPairs order = ((keysOf pairs).filter edited.holds ++ others).map edited.pair ∧
        others.Nodup ∧
          (∀ key, key ∈ others ↔ edited.holds key = true ∧ key ∉ keysOf pairs) ∧
            others.Pairwise (tags.ArrivesBefore edits)) ∧
      tags.toPairs order = merged pairs ∧
        roundTrip (edited.toPairs order) = edited.toPairs order := by
  intro tags order edited
  refine ⟨⟨edited.entries.keys.filter (fun key => !tags.holds key), ?_, ?_, ?_, ?_⟩,
    roundTrip_eq pairs, roundTrip_toPairs edited order⟩
  · have isOrder : order = pairs.filterMap TagPair.key := map_fst_keyed pairs
    have fresh : ∀ key ∈ edited.entries.keys,
        (!tags.holds key) = decide (key ∉ pairs.filterMap TagPair.key) := by
      intro key _
      have known : tags.holds key = true ↔ key ∈ pairs.filterMap TagPair.key := by
        rw [holds_ofPairs, keysOf, List.mem_eraseDups]
      rw [Bool.eq_iff_iff, Bool.not_eq_true', ← Bool.not_eq_true, known, decide_eq_true_eq]
    rw [toPairs_eq, writtenKeys, isOrder, keysOf, List.filter_congr fresh]
  · exact edited.nodup_keys.filter _
  · intro key
    rw [List.mem_filter, mem_keys, Bool.not_eq_true', ← Bool.not_eq_true, holds_ofPairs]
  · exact pairwise_arrivesBefore tags edits

example : ((ofPairs [.full "a" "1", .full "b" "2", .full "a" "3"]).1.editAll
    [.insert "c" "4", .insert "d" "5", .remove "c", .insert "c" "6"]).toPairs ["a", "b", "a"] =
      [.full "a" "3", .full "b" "2", .full "d" "5", .full "c" "6"] := by decide

end CanonicalTags

end Reconcile
