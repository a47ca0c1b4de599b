import Reconcile.Proofs.OrderedMap
import Reconcile.Proofs.Text.Sorting
import Reconcile.Settings.Basic

/-!
# Renames of unknown operations

Which renames are reported (`Settings.mem_unknownRenames`), in which order
(`Settings.pairwise_unknownRenames`) and with which list of known operations. The resources are
sorted by distinct names and the known operations are used as a set, so that the order in which
either is given has no influence (`Settings.unknownRenames_eq`).
-/

namespace Reconcile

namespace Settings

/-- The resource and the operation that an error is about. -/
def UnknownRename.place (error : UnknownRename) : String × String :=
  (error.resource, error.operation)

/-- Whether the renames of a resource speak of an operation that is not known. -/
def Misnames (settings : Settings) (known : List String) (resource operation : String) : Prop :=
  ∃ resourceSettings, settings.resources.get? resource = some resourceSettings ∧
    operation ∈ resourceSettings.renames.keys ∧ operation ∉ known

/--
Whether an error comes before another one: by the names of the resources, and within a resource by
the order in which its renames are declared.
-/
def ReportsBefore (settings : Settings) (first second : UnknownRename) : Prop :=
  first.resource < second.resource ∨
    first.resource = second.resource ∧ ∃ resourceSettings,
      settings.resources.get? first.resource = some resourceSettings ∧
        resourceSettings.renames.keys.idxOf first.operation <
          resourceSettings.renames.keys.idxOf second.operation

variable {settings other : Settings} {known otherKnown : List String}

theorem mem_sortedDistinct {name : String} : name ∈ sortedDistinct known ↔ name ∈ known := by
  rw [sortedDistinct, Text.mem_eraseReps, Text.mem_sortedBy]

theorem pairwise_sortedDistinct (known : List String) :
    (sortedDistinct known).Pairwise (· < ·) :=
  Text.pairwise_eraseReps (Text.sortedBy_ascending known)

/-- How known operations are listed depends on which of them there are only. -/
theorem sortedDistinct_eq (same : ∀ name, name ∈ known ↔ name ∈ otherKnown) :
    sortedDistinct known = sortedDistinct otherKnown := by
  refine (pairwise_sortedDistinct known).eq_of_mem_iff (pairwise_sortedDistinct otherKnown)
    (fun name => ?_)
  rw [mem_sortedDistinct, mem_sortedDistinct, same]

theorem mem_unknownRenames {error : UnknownRename} :
    error ∈ settings.unknownRenames known ↔
      settings.Misnames known error.resource error.operation ∧
        error.available = availableText known := by
  have unknown : ∀ operation, (!known.contains operation) = true ↔ operation ∉ known := by
    intro operation
    rw [Bool.not_eq_true', ← Bool.not_eq_true, List.contains_iff_mem]
  rw [unknownRenames, List.mem_flatMap]
  constructor
  · rintro ⟨⟨resource, resourceSettings⟩, listed, reported⟩
    rcases List.mem_map.mp reported with ⟨operation, isUnknown, rfl⟩
    rw [Text.mem_sortedBy, OrderedMap.mem_entries] at listed
    rw [List.mem_filter, unknown] at isUnknown
    exact ⟨⟨resourceSettings, listed, isUnknown⟩, rfl⟩
  · rcases error with ⟨resource, operation, available⟩
    rintro ⟨⟨resourceSettings, listed, isUnknown⟩, rfl⟩
    refine ⟨(resource, resourceSettings), ?_, ?_⟩
    · rwa [Text.mem_sortedBy, OrderedMap.mem_entries]
    · refine List.mem_map.mpr ⟨operation, ?_, rfl⟩
      exact List.mem_filter.mpr ⟨isUnknown.1, (unknown operation).mpr isUnknown.2⟩

theorem ReportsBefore.place_ne {first second : UnknownRename}
    (before : settings.ReportsBefore first second) : first.place ≠ second.place := by
  intro same
  rcases Prod.mk.inj same with ⟨sameResource, sameOperation⟩
  rcases before with less | ⟨_, resourceSettings, _, less⟩
  · exact String.lt_irrefl _ (sameResource ▸ less)
  · exact Nat.lt_irrefl _ (sameOperation ▸ less)

theorem pairwise_unknownRenames (settings : Settings) (known : List String) :
    (settings.unknownRenames known).Pairwise settings.ReportsBefore := by
  rw [unknownRenames, List.pairwise_flatMap]
  constructor
  · rintro ⟨resource, resourceSettings⟩ listed
    rw [Text.mem_sortedBy, OrderedMap.mem_entries] at listed
    have declared := Text.pairwise_idxOf_of_nodup resourceSettings.renames.nodup_keys
    rw [List.pairwise_map]
    refine (declared.sublist List.filter_sublist).imp ?_
    intro first second less
    exact Or.inr ⟨rfl, resourceSettings, listed, less⟩
  · refine (Text.pairwise_lt_sortedBy settings.resources.nodup_keys).imp ?_
    rintro earlier later less first isFirst second isSecond
    rcases List.mem_map.mp isFirst with ⟨_, _, rfl⟩
    rcases List.mem_map.mp isSecond with ⟨_, _, rfl⟩
    exact Or.inl less

theorem unknownRenames_eq (reordered : settings.resources.entries.Perm other.resources.entries)
    (same : ∀ name, name ∈ known ↔ name ∈ otherKnown) :
    settings.unknownRenames known = other.unknownRenames otherKnown := by
  have sorted : Text.sortedBy Prod.fst settings.resources.entries =
      Text.sortedBy Prod.fst other.resources.entries :=
    Text.sortedBy_eq_of_perm reordered settings.resources.nodup_keys
  have listed : availableText known = availableText otherKnown := by
    rw [availableText, availableText, sortedDistinct_eq same]
  have tested : ∀ operation, known.contains operation = otherKnown.contains operation := by
    intro operation
    rw [Bool.eq_iff_iff, List.contains_iff_mem, List.contains_iff_mem, same]
  simp only [unknownRenames, sorted, listed, tested]

/--
The errors are about exactly the pairs of a resource and an unknown operation in its renames, each
pair once, in the order of the resources' names and within a resource in the order of declaration.
The order of the resources, and the order and number of the known operations, have no influence.
Every error lists the known operations in ascending order, or the first ten and how many there are.
-/
theorem unknownRenames_complete (settings : Settings) (known : List String) :
    ((settings.unknownRenames known).map UnknownRename.place).Nodup ∧
      (∀ resource operation,
        (resource, operation) ∈ (settings.unknownRenames known).map UnknownRename.place ↔
          settings.Misnames known resource operation) ∧
        (settings.unknownRenames known).Pairwise settings.ReportsBefore ∧
          (∀ (other : Settings) (otherKnown : List String),
            settings.resources.entries.Perm other.resources.entries →
              (∀ name, name ∈ known ↔ name ∈ otherKnown) →
                other.unknownRenames otherKnown = settings.unknownRenames known) ∧
            ∃ names : List String, names.Pairwise (· < ·) ∧ (∀ name, name ∈ names ↔ name ∈ known) ∧
              ∀ error ∈ settings.unknownRenames known, error.available =
                if names.length ≤ 10 then ", ".intercalate names
                else ", ".intercalate (names.take 10) ++
                  ", ... (" ++ toString names.length ++ " total)" := by
  refine ⟨?_, ?_, pairwise_unknownRenames settings known, ?_, sortedDistinct known,
    pairwise_sortedDistinct known, fun _ => mem_sortedDistinct, ?_⟩
  · exact List.pairwise_map.mpr ((pairwise_unknownRenames settings known).imp
      ReportsBefore.place_ne)
  · intro resource operation
    rw [List.mem_map]
    constructor
    · rintro ⟨error, reported, isPlace⟩
      cases isPlace
      exact (mem_unknownRenames.mp reported).1
    · intro misnames
      exact ⟨⟨resource, operation, availableText known⟩,
        mem_unknownRenames.mpr ⟨misnames, rfl⟩, rfl⟩
  · intro other otherKnown reordered same
    exact (unknownRenames_eq reordered same).symm
  · intro error reported
    exact (mem_unknownRenames.mp reported).2

/-- Settings that name operations only. -/
def renamesOf (operations : List String) : ResourceSettings where
  renames := OrderedMap.ofList (operations.map (·, {}))

/-- Settings for a topic and a queue with renames of operations that are not known. -/
def misnamed : Settings where
  resources := OrderedMap.ofList [
    ("Topic", renamesOf ["SubscribeTopic", "CreateTopic", "ArchiveTopic"]),
    ("Queue", renamesOf ["MakeQueue"])]

/-- The same settings with the queue in front. -/
def misnamedReordered : Settings where
  resources := OrderedMap.ofList misnamed.resources.entries.reverse

/-- The queue is reported first, wherever it is declared, and the topic as it is declared. -/
theorem unknownRenames_complete_topic :
    misnamed.resources.entries.Perm misnamedReordered.resources.entries ∧
      (∀ name, name ∈ ["CreateTopic", "CreateQueue", "CreateTopic"] ↔
        name ∈ ["CreateQueue", "CreateTopic"]) ∧
      (misnamed.unknownRenames ["CreateTopic", "CreateQueue", "CreateTopic"]).map
        UnknownRename.place =
          [("Queue", "MakeQueue"), ("Topic", "SubscribeTopic"), ("Topic", "ArchiveTopic")] ∧
      misnamedReordered.unknownRenames ["CreateQueue", "CreateTopic"] =
        misnamed.unknownRenames ["CreateTopic", "CreateQueue", "CreateTopic"] ∧
      misnamed.Misnames ["CreateTopic", "CreateQueue", "CreateTopic"] "Queue" "MakeQueue" := by
  have reordered : misnamed.resources.entries.Perm misnamedReordered.resources.entries :=
    List.Perm.swap _ _ _
  have same : ∀ name, name ∈ ["CreateTopic", "CreateQueue", "CreateTopic"] ↔
      name ∈ ["CreateQueue", "CreateTopic"] := by
    intro name
    simp only [List.mem_cons, List.not_mem_nil, or_false]
    tauto
  have reported : (misnamed.unknownRenames ["CreateTopic", "CreateQueue", "CreateTopic"]).map
      UnknownRename.place =
        [("Queue", "MakeQueue"), ("Topic", "SubscribeTopic"), ("Topic", "ArchiveTopic")] := by
    decide
  rcases unknownRenames_complete misnamed ["CreateTopic", "CreateQueue", "CreateTopic"] with
    ⟨_, isPlace, _, unchanged, _⟩
  refine ⟨reordered, same, reported, unchanged _ _ reordered same, ?_⟩
  rw [← isPlace, reported]
  exact List.mem_cons_self

example : availableText ["L", "K", "J", "I", "H", "G", "F", "E", "D", "C", "B", "A", "A"] =
    "A, B, C, D, E, F, G, H, I, J, ... (12 total)" := by decide

end Settings

end Reconcile
