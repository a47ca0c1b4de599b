import Reconcile.OrderedMap

/-!
# Canonical tags

What converted tags amount to: a mapping from keys to values that is equal to another one
whatever their orders are. Emitted conversion code follows the functions here.
-/

namespace Reconcile

/-- A tag as lists hold it. Either part may be absent. -/
structure TagPair where
  key : Option String
  value : Option String
  deriving DecidableEq, Inhabited, Repr

/-- A pair with both parts. -/
def TagPair.full (key value : String) : TagPair :=
  ⟨some key, some value⟩

/-- Tags by key. -/
structure CanonicalTags where
  map : OrderedMap String
  deriving BEq, Inhabited

namespace CanonicalTags

/-- No tags. -/
def empty : CanonicalTags := ⟨∅⟩

/-- The tags as entries in order. -/
def entries (tags : CanonicalTags) : Entries String :=
  tags.map.entries

/-- The number of tags. -/
def size (tags : CanonicalTags) : Nat :=
  tags.map.size

/-- Whether there are no tags. -/
def isEmpty (tags : CanonicalTags) : Bool :=
  tags.entries.isEmpty

/-- The value of a key. -/
def get? (tags : CanonicalTags) (key : String) : Option String :=
  tags.map.get? key

/-- The tags with a value for a key. -/
def insert (tags : CanonicalTags) (key value : String) : CanonicalTags :=
  ⟨tags.map.insert key value⟩

/-- The tags without a key; the others keep their order. -/
def erase (tags : CanonicalTags) (key : String) : CanonicalTags :=
  ⟨tags.map.erase key⟩

/-- The tags with all entries, where an absent value is an empty one. -/
def insertAll (tags : CanonicalTags) (entries : List (String × Option String)) : CanonicalTags :=
  entries.foldl (fun tags entry => tags.insert entry.1 (entry.2.getD "")) tags

/-- The keyed pairs of a list. -/
def keyed (pairs : List TagPair) : List (String × Option String) :=
  pairs.filterMap (fun pair => pair.key.map (·, pair.value))

/-- The tags of a list of pairs, with the keys in the order of the list. Keyless pairs are skipped. -/
def ofPairs (pairs : List TagPair) : CanonicalTags × List String :=
  (empty.insertAll (keyed pairs), (keyed pairs).map Prod.fst)

/-- The tags of a mapping. -/
def ofMap (map : OrderedMap (Option String)) : CanonicalTags :=
  empty.insertAll map.entries

/-- The tags as pairs: the keys of `order` that are present first, each once, then the others. -/
def toPairs (tags : CanonicalTags) : List String → List TagPair
  | [] => tags.entries.map (fun entry => .full entry.1 entry.2)
  | key :: rest =>
    match tags.get? key with
    | some value => .full key value :: (tags.erase key).toPairs rest
    | none => tags.toPairs rest

/-- The tags as the entries of a mapping. -/
def toMap (tags : CanonicalTags) : List (String × Option String) :=
  tags.entries.map (fun entry => (entry.1, some entry.2))

/-- Whether both hold the same values under the same keys. -/
def sameAs (left right : CanonicalTags) : Bool :=
  left.size == right.size &&
    left.entries.all (fun entry => right.get? entry.1 == some entry.2)

end CanonicalTags

end Reconcile
