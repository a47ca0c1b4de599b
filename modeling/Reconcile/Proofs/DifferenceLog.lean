import Reconcile.Difference
import Reconcile.Proofs.FieldPath.Leading

/-!
# Recorded differences

A log that differences are added to one after the other holds all of them in order
(`DifferenceLog.differences_addAll`). What it finds different depends on the recorded paths alone: a
subject is different if its pieces are the first segments of one of them, and so is all that the
subject is below of (`DifferenceLog.found_above`).
-/

namespace Reconcile.DifferenceLog

universe u

variable {α : Type u} {log : DifferenceLog α} {subject : String}

/-- The log with further records, added in order. -/
def addAll (log : DifferenceLog α) (records : List (Difference α)) : DifferenceLog α :=
  records.foldl (fun log record => log.add record.path record.first record.second) log

theorem differences_addAll (log : DifferenceLog α) (records : List (Difference α)) :
    (log.addAll records).differences = log.differences ++ records := by
  induction records generalizing log with
  | nil => exact (List.append_nil _).symm
  | cons record rest ih =>
      rw [addAll, List.foldl_cons, ← addAll, ih, differences_add, List.append_assoc,
        List.singleton_append]

theorem differences_empty_addAll (records : List (Difference α)) :
    (empty.addAll records).differences = records :=
  differences_addAll empty records

/-- A subject is different if its pieces are the first segments of a recorded path. -/
theorem differentAt_iff : log.differentAt subject = true ↔
    ∃ record ∈ log.differences, Text.split '.' subject <+: record.path.segments := by
  simp only [differentAt, List.any_eq_true, FieldPath.startsWith_iff]

/-- A log finds different whatever a log with some of its paths finds different. -/
theorem differentAt_mono {other : DifferenceLog α}
    (recorded : ∀ record ∈ log.differences, ∃ twin ∈ other.differences, twin.path = record.path)
    (isDifferent : log.differentAt subject = true) : other.differentAt subject = true := by
  rcases differentAt_iff.mp isDifferent with ⟨record, listed, isFront⟩
  rcases recorded record listed with ⟨twin, listedToo, same⟩
  exact differentAt_iff.mpr ⟨twin, listedToo, same ▸ isFront⟩

/-- Logs with the same paths find the same subjects different. -/
theorem differentAt_eq {other : DifferenceLog α}
    (same : ∀ path, path ∈ log.differences.map Difference.path ↔
      path ∈ other.differences.map Difference.path) (subject : String) :
    log.differentAt subject = other.differentAt subject := by
  rw [Bool.eq_iff_iff]
  constructor
  · apply differentAt_mono
    intro record listed
    exact List.mem_map.mp ((same record.path).mp (List.mem_map_of_mem listed))
  · apply differentAt_mono
    intro record listed
    exact List.mem_map.mp ((same record.path).mpr (List.mem_map_of_mem listed))

/-- What is found different below a subject makes the subject different. -/
theorem differentAt_outer {inner : String}
    (isDifferent : log.differentAt (subject ++ "." ++ inner) = true) :
    log.differentAt subject = true := by
  rcases differentAt_iff.mp isDifferent with ⟨record, listed, isFront⟩
  have cut : Text.split '.' (subject ++ "." ++ inner) =
      Text.split '.' subject ++ Text.split '.' inner := Text.split_append '.' subject inner
  rw [cut] at isFront
  exact differentAt_iff.mpr ⟨record, listed, (List.prefix_append _ _).trans isFront⟩

/--
After differences were added, the log lists all of them in order, and it finds a subject different
exactly if the pieces of the subject are the first segments of one of their paths. So it finds the
same subjects different whatever the order and number of the differences at each path is, further
differences take back nothing, and what is different below a subject makes the subject different.
-/
theorem found_above (records : List (Difference α)) :
    (empty.addAll records).differences = records ∧
      (∀ subject, (empty.addAll records).differentAt subject = true ↔
        ∃ record ∈ records, ∃ pieces, Text.IsCutAtDots subject pieces ∧
          pieces <+: record.path.segments) ∧
      (∀ others : List (Difference α),
        (∀ path, path ∈ records.map Difference.path ↔ path ∈ others.map Difference.path) →
          ∀ subject, (empty.addAll records).differentAt subject =
            (empty.addAll others).differentAt subject) ∧
      (∀ further subject, (empty.addAll records).differentAt subject = true →
        ((empty.addAll records).addAll further).differentAt subject = true) ∧
      ∀ outer inner, (empty.addAll records).differentAt (outer ++ "." ++ inner) = true →
        (empty.addAll records).differentAt outer = true := by
  have listed := differences_empty_addAll records
  refine ⟨listed, ?_, ?_, ?_, fun _ _ => differentAt_outer⟩
  · intro subject
    simp only [differentAt_iff, listed, Text.isCutAtDots_iff, exists_eq_left']
  · intro others same subject
    apply differentAt_eq
    rwa [listed, differences_empty_addAll]
  · intro further subject isDifferent
    apply differentAt_mono _ isDifferent
    intro record isRecord
    rw [differences_addAll]
    exact ⟨record, List.mem_append_left _ isRecord, rfl⟩

/-- A name that changed twice and a zone below a configuration. -/
def bucketChanges : List (Difference String) := [
  ⟨⟨["Spec", "Name"]⟩, "a", "b"⟩, ⟨⟨["Spec", "Config", "Zone"]⟩, "x", "y"⟩,
  ⟨⟨["Spec", "Name"]⟩, "a", "c"⟩]

/-- The other order and a name that changed once make no difference to what is found. -/
theorem found_above_bucket :
    let log := empty.addAll bucketChanges
    let other := empty.addAll [⟨⟨["Spec", "Config", "Zone"]⟩, "", "y"⟩, ⟨⟨["Spec", "Name"]⟩, "", ""⟩]
    log.differences = bucketChanges ∧ log.differentAt "Spec.Config.Zone" = true ∧
      log.differentAt "Spec.Config" = true ∧ log.differentAt "Spec.Con" = false ∧
      ∀ subject, log.differentAt subject = other.differentAt subject := by
  intro log other
  rcases found_above bucketChanges with ⟨listed, found, unordered, _, above⟩
  have isCut : Text.IsCutAtDots "Spec.Config.Zone" ["Spec", "Config", "Zone"] :=
    ⟨by decide, by decide, by decide⟩
  have isDifferent : log.differentAt "Spec.Config.Zone" = true :=
    (found _).mpr ⟨⟨⟨["Spec", "Config", "Zone"]⟩, "x", "y"⟩, by simp [bucketChanges], _, isCut,
      List.prefix_rfl⟩
  refine ⟨listed, isDifferent, above "Spec.Config" "Zone" isDifferent, by decide, ?_⟩
  apply unordered
  intro path
  simp only [bucketChanges, List.map_cons, List.map_nil, List.mem_cons, List.not_mem_nil, or_false]
  tauto

end Reconcile.DifferenceLog
