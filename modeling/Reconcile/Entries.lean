import Reconcile.Text.LetterCase

/-!
# Named entries

A list of names with values, in the order in which they were declared. A name that is
entered again keeps its place and takes the later value; a name that is taken out leaves the
order of the others alone.
-/

namespace Reconcile

universe u v

/-- Values under names, in declaration order. -/
abbrev Entries (α : Type u) := List (String × α)

namespace Entries

variable {α : Type u} {β : Type v}

/-- The names in order. -/
def keys (entries : Entries α) : List String :=
  entries.map Prod.fst

/-- The values in order. -/
def values (entries : Entries α) : List α :=
  entries.map Prod.snd

/-- The first entry of exactly this name. -/
def lookup? (entries : Entries α) (name : String) : Option (String × α) :=
  entries.find? (fun entry => entry.1 == name)

/-- The entry of exactly this name, or else the first one that differs in letter case only. -/
def closest? (entries : Entries α) (name : String) : Option (String × α) :=
  (entries.lookup? name).or
    (entries.find? (fun entry => Text.equalIgnoringCase entry.1 name))

/-- Enters a value: in the place of an entry of that name, or at the end. -/
def insert (name : String) (value : α) : Entries α → Entries α
  | [] => [(name, value)]
  | (other, kept) :: rest =>
    if other = name then (name, value) :: rest
    else (other, kept) :: insert name value rest

/-- Takes out every entry of the name. -/
def erase (name : String) (entries : Entries α) : Entries α :=
  entries.filter (fun entry => entry.1 != name)

@[simp]
theorem keys_nil : keys ([] : Entries α) = [] := rfl

@[simp]
theorem keys_cons (entry : String × α) (rest : Entries α) :
    keys (entry :: rest) = entry.1 :: keys rest := rfl

/-- Entering a name adds it at the end of the names, unless it is there already. -/
theorem keys_insert (name : String) (value : α) (entries : Entries α) :
    keys (insert name value entries) =
      if name ∈ keys entries then keys entries else keys entries ++ [name] := by
  induction entries with
  | nil => simp [insert]
  | cons entry rest ih =>
    obtain ⟨other, kept⟩ := entry
    by_cases same : other = name
    · simp [insert, same]
    · have different : name ≠ other := fun equal => same equal.symm
      by_cases present : name ∈ keys rest <;> simp_all [insert]

theorem nodup_keys_insert {name : String} {value : α} {entries : Entries α}
    (distinct : (keys entries).Nodup) : (keys (insert name value entries)).Nodup := by
  rw [keys_insert]
  split
  · exact distinct
  · next absent =>
    rw [List.nodup_append]
    refine ⟨distinct, by simp, ?_⟩
    intro first firstIn second secondIn equal
    simp only [List.mem_singleton] at secondIn
    exact absent (secondIn ▸ equal ▸ firstIn)

theorem keys_erase (name : String) (entries : Entries α) :
    keys (erase name entries) = (keys entries).filter (· != name) := by
  simp [keys, erase, List.filter_map, Function.comp_def]

theorem nodup_keys_erase {name : String} {entries : Entries α}
    (distinct : (keys entries).Nodup) : (keys (erase name entries)).Nodup := by
  rw [keys_erase]
  exact distinct.filter _

theorem lookup?_insert (name other : String) (value : α) (entries : Entries α) :
    (insert name value entries).lookup? other =
      if name = other then some (name, value) else entries.lookup? other := by
  induction entries with
  | nil => by_cases same : name = other <;> simp [insert, lookup?, same]
  | cons entry rest ih =>
    obtain ⟨first, kept⟩ := entry
    unfold lookup? at ih ⊢
    by_cases replaced : first = name
    · subst replaced
      by_cases same : first = other <;> simp [insert, same]
    · by_cases same : first = other
      · have apart : name ≠ other := fun equal => replaced (same.trans equal.symm)
        simp [insert, same, apart, apart.symm]
      · simp [insert, replaced, same, ih]

theorem lookup?_erase (name other : String) (entries : Entries α) :
    (erase name entries).lookup? other =
      if name = other then none else entries.lookup? other := by
  induction entries with
  | nil => simp [erase, lookup?]
  | cons entry rest ih =>
    unfold lookup? erase at ih ⊢
    by_cases erased : entry.1 = name
    · by_cases same : name = other <;> simp_all
    · by_cases found : entry.1 = other
      · have apart : name ≠ other := fun equal => erased (found.trans equal.symm)
        simp [found, apart, apart.symm]
      · simp_all

end Entries

end Reconcile
