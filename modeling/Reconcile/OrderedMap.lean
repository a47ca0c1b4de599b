import Reconcile.Entries

/-!
# Ordered maps

A map from names to values that remembers the order in which its names were first entered.
The order is part of every answer, so it is part of the type: a map is a list of entries
with distinct names.
-/

namespace Reconcile

universe u

/-- A finite map from names, in order of first entry. -/
structure OrderedMap (α : Type u) where
  /-- The entries in order. -/
  entries : Entries α
  /-- No name occurs twice. -/
  nodup_keys : entries.keys.Nodup

namespace OrderedMap

variable {α : Type u}

/-- The map without entries. -/
def empty : OrderedMap α :=
  ⟨[], List.nodup_nil⟩

instance : EmptyCollection (OrderedMap α) := ⟨empty⟩

instance : Inhabited (OrderedMap α) := ⟨empty⟩

/-- The names in order. -/
def keys (map : OrderedMap α) : List String :=
  map.entries.keys

/-- The values in the order of their names. -/
def values (map : OrderedMap α) : List α :=
  map.entries.values

/-- The number of names. -/
def size (map : OrderedMap α) : Nat :=
  map.entries.length

/-- The value of a name. -/
def get? (map : OrderedMap α) (name : String) : Option α :=
  (map.entries.lookup? name).map Prod.snd

/-- Whether a name has a value. -/
def contains (map : OrderedMap α) (name : String) : Bool :=
  (map.get? name).isSome

/-- The value of a name, or else of the first name that differs from it in letter case only. -/
def closest? (map : OrderedMap α) (name : String) : Option α :=
  (map.entries.closest? name).map Prod.snd

/-- Gives a name a value; a name that had one keeps its place. -/
def insert (map : OrderedMap α) (name : String) (value : α) : OrderedMap α :=
  ⟨map.entries.insert name value, Entries.nodup_keys_insert map.nodup_keys⟩

/-- Forgets a name. -/
def erase (map : OrderedMap α) (name : String) : OrderedMap α :=
  ⟨map.entries.erase name, Entries.nodup_keys_erase map.nodup_keys⟩

/-- Enters all entries one after the other. -/
def insertAll (map : OrderedMap α) (entries : Entries α) : OrderedMap α :=
  entries.foldl (fun map entry => map.insert entry.1 entry.2) map

/-- The map of a list of entries: a repeated name keeps its first place and its last value. -/
def ofList (entries : Entries α) : OrderedMap α :=
  empty.insertAll entries

/-- Maps are equal if they give the same values to the same names, in whatever order. -/
instance [BEq α] : BEq (OrderedMap α) where
  beq left right := left.size == right.size &&
    left.entries.all (fun entry => (right.get? entry.1).any (· == entry.2))

@[simp]
theorem entries_empty : (empty : OrderedMap α).entries = [] := rfl

@[simp]
theorem entries_insert (map : OrderedMap α) (name : String) (value : α) :
    (map.insert name value).entries = map.entries.insert name value := rfl

@[simp]
theorem entries_erase (map : OrderedMap α) (name : String) :
    (map.erase name).entries = map.entries.erase name := rfl

@[simp]
theorem get?_empty (name : String) : (empty : OrderedMap α).get? name = none := rfl

/-- A value that was entered is found under its name; other names are not concerned. -/
theorem get?_insert (map : OrderedMap α) (name other : String) (value : α) :
    (map.insert name value).get? other = if name = other then some value else map.get? other := by
  by_cases same : name = other <;> simp [get?, Entries.lookup?_insert, same]

/-- A name that was forgotten has no value; other names are not concerned. -/
theorem get?_erase (map : OrderedMap α) (name other : String) :
    (map.erase name).get? other = if name = other then none else map.get? other := by
  by_cases same : name = other <;> simp [get?, Entries.lookup?_erase, same]

end OrderedMap

end Reconcile
