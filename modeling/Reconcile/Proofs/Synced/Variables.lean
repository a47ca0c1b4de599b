import Mathlib.Data.List.Perm.Subperm
import Mathlib.Data.List.Nodup
import Reconcile.Proofs.Outcomes
import Reconcile.Proofs.Text.Words
import Reconcile.Resource.Registration
import Reconcile.Synced.Code

/-!
# Variables of synced conditions

Each condition has a variable of its own for its accepted values. It is named after the outermost
field, with a number behind if this name is taken. The spellings of a name differ, so that one more
of them than there are names taken cannot all be taken (`Synced.exists_freshName`): the search for a
free one ends, and the names that it gives one after the other are apart (`Synced.variables_apart`).
-/

namespace Reconcile.Synced

variable {taken stems : List String} {stem name : String}

theorem spelling_injective (stem : String) : Function.Injective (spelling stem) := by
  have numbered : ∀ number, stem ++ toString (number + 2) ≠ stem := by
    intro number same
    simp at same
  intro left right same
  cases left with
  | zero =>
      cases right with
      | zero => rfl
      | succ right => exact absurd same.symm (numbered right)
  | succ left =>
      cases right with
      | zero => exact absurd same (numbered left)
      | succ right =>
          have digits := (String.append_right_inj stem).mp same
          have numbers := Text.eq_of_toString_eq digits
          omega

/-- Some spelling is free, and the first free one is taken as the name. -/
theorem exists_freshName (taken : List String) (stem : String) :
    ∃ number ≤ taken.length, freshName taken stem = spelling stem number ∧
      spelling stem number ∉ taken ∧ ∀ smaller < number, spelling stem smaller ∈ taken := by
  unfold freshName
  rw [List.find?_map]
  cases found : (List.range (taken.length + 1)).find?
      ((fun name => !taken.contains name) ∘ spelling stem) with
  | none =>
      -- More spellings than names taken would all be taken.
      have allTaken : (List.range (taken.length + 1)).map (spelling stem) ⊆ taken := by
        intro name isSpelling
        rcases List.mem_map.mp isSpelling with ⟨number, isNumber, rfl⟩
        simpa using List.find?_range_eq_none.mp found number (List.mem_range.mp isNumber)
      have distinct := (@List.nodup_range (taken.length + 1)).map (spelling_injective stem)
      have bound := distinct.length_le_of_subset allTaken
      rw [List.length_map, List.length_range] at bound
      omega
  | some number =>
      rcases List.find?_range_eq_some.mp found with ⟨free, within, smallerTaken⟩
      refine ⟨number, Nat.le_of_lt_succ (List.mem_range.mp within), rfl, by simpa using free, ?_⟩
      intro smaller less
      simpa using smallerTaken smaller less

/--
Whether a name is the first free one among a stem and the stem with the numbers from 2 on, which is
found after at most one try more than there are names taken.
-/
inductive IsFirstFree (taken : List String) (stem : String) : String → Prop
  | unnumbered (free : stem ∉ taken) : IsFirstFree taken stem stem
  | numbered {number : Nat} (isTaken : stem ∈ taken) (atLeast : 2 ≤ number)
      (atMost : number ≤ taken.length + 1)
      (smallerTaken : ∀ smaller, 2 ≤ smaller → smaller < number →
        stem ++ toString smaller ∈ taken)
      (free : stem ++ toString number ∉ taken) :
      IsFirstFree taken stem (stem ++ toString number)

theorem isFirstFree_freshName (taken : List String) (stem : String) :
    IsFirstFree taken stem (freshName taken stem) := by
  rcases exists_freshName taken stem with ⟨number, bound, isName, free, smallerTaken⟩
  rw [isName]
  cases number with
  | zero => exact .unnumbered free
  | succ number =>
      refine .numbered (smallerTaken 0 (Nat.succ_pos number)) (by omega) (by omega) ?_ free
      intro smaller atLeast less
      have before := smallerTaken (smaller - 1) (by omega)
      obtain ⟨index, rfl⟩ := Nat.exists_eq_add_of_le' atLeast
      exact before

theorem IsFirstFree.not_mem (first : IsFirstFree taken stem name) : name ∉ taken := by
  cases first with
  | unnumbered free => exact free
  | numbered _ _ _ _ free => exact free

theorem IsFirstFree.perm {others : List String} (same : taken.Perm others)
    (first : IsFirstFree taken stem name) : IsFirstFree others stem name := by
  cases first with
  | unnumbered free =>
      rw [same.mem_iff] at free
      exact .unnumbered free
  | numbered isTaken atLeast atMost smallerTaken free =>
      simp only [same.mem_iff] at isTaken smallerTaken free
      rw [same.length_eq] at atMost
      exact .numbered isTaken atLeast atMost smallerTaken free

/-- The names that stems are given one after the other. -/
def freshNames (taken : List String) : List String → List String
  | [] => []
  | stem :: rest => freshName taken stem :: freshNames (freshName taken stem :: taken) rest

@[simp]
theorem length_freshNames (taken stems : List String) :
    (freshNames taken stems).length = stems.length := by
  induction stems generalizing taken with
  | nil => rfl
  | cons stem rest ih => rw [freshNames, List.length_cons, ih, List.length_cons]

/-- Each name is the first free one when it is given, and the names before it are taken then. -/
theorem isFirstFree_freshNames {index : Nat} (isStem : stems[index]? = some stem)
    (isName : (freshNames taken stems)[index]? = some name) :
    IsFirstFree ((freshNames taken stems).take index ++ taken) stem name := by
  induction stems generalizing taken index with
  | nil => simp at isStem
  | cons first rest ih =>
      cases index with
      | zero =>
          cases isStem
          cases isName
          exact isFirstFree_freshName taken stem
      | succ index =>
          rw [freshNames, List.getElem?_cons_succ] at isName
          rw [List.getElem?_cons_succ] at isStem
          exact (ih isStem isName).perm List.perm_middle

theorem nodup_freshNames (taken stems : List String) :
    (freshNames taken stems).Nodup ∧ ∀ name ∈ freshNames taken stems, name ∉ taken := by
  induction stems generalizing taken with
  | nil => simp [freshNames]
  | cons stem rest ih =>
      have first := (isFirstFree_freshName taken stem).not_mem
      rcases ih (freshName taken stem :: taken) with ⟨distinct, others⟩
      rw [freshNames]
      constructor
      · refine List.nodup_cons.mpr ⟨?_, distinct⟩
        intro again
        exact others _ again List.mem_cons_self
      · intro name isName
        rcases List.mem_cons.mp isName with rfl | inRest
        · exact first
        · exact fun isTaken => others name inRest (List.mem_cons_of_mem _ isTaken)

/-- Whether names are given to stems in turn so that each is the first one not given before. -/
structure AreFresh (stems names : List String) : Prop where
  length : names.length = stems.length
  distinct : names.Nodup
  first : ∀ (index : Nat) (stem name : String), stems[index]? = some stem →
    names[index]? = some name → IsFirstFree (names.take index) stem name

theorem areFresh_freshNames (stems : List String) : AreFresh stems (freshNames [] stems) where
  length := length_freshNames [] stems
  distinct := (nodup_freshNames [] stems).1
  first := by
    intro index stem name isStem isName
    simpa using isFirstFree_freshNames isStem isName

example : freshNames [] ["a", "a2", "a", "a", "a2"] = ["a", "a2", "a3", "a4", "a22"] := by
  decide +kernel

/-- Conditions are resolved in their order, and their variables are named in the same order. -/
theorem codeFrom_eq (resource : Resource) (object : String) (index : Nat) (taken : List String)
    (given : List SyncedCondition) :
    codeFrom resource object index taken given =
      ((given.zipIdx index).mapM (fun entry =>
          ResolvedCondition.resolve resource entry.2 entry.1) >>= fun conditions =>
        pure ((conditions.zip
          (freshNames taken (conditions.map ResolvedCondition.variableStem))).flatMap
            (fun entry => entry.1.code object entry.2))) := by
  induction given generalizing index taken with
  | nil => rfl
  | cons first rest ih =>
      rw [codeFrom, List.zipIdx_cons, List.mapM_cons, bind_assoc]
      congr 1
      funext condition
      simp only [ih, bind_assoc, pure_bind]
      rfl

/-- Code for conditions is written exactly if all of them are resolved, each at its index. -/
theorem render_eq_ok {resource : Resource} {object text : String} {level : Nat}
    (rendered : render resource object level = .ok text) :
    ∃ conditions, resource.settings.syncedConditions.zipIdx.mapM (fun entry =>
        ResolvedCondition.resolve resource entry.2 entry.1) = .ok conditions ∧
      text = Code.renderBehindBlank ((conditions.zip
        (freshNames [] (conditions.map ResolvedCondition.variableStem))).flatMap
          (fun entry => entry.1.code object entry.2)) level := by
  rcases Outcome.of_bind_eq_ok rendered with ⟨codes, written, made⟩
  rw [codeFrom_eq] at written
  rcases Outcome.of_bind_eq_ok written with ⟨conditions, areResolved, isCode⟩
  cases isCode
  cases made
  exact ⟨conditions, areResolved, rfl⟩

/--
Names that are given to stems in turn differ, each is the first spelling of its stem that was not
given before, and the variables of the conditions of a resource are named in this way.
-/
theorem variables_apart :
    (∀ stems, AreFresh stems (freshNames [] stems)) ∧
    ∀ (resource : Resource) (object : String) (level : Nat) (text : String),
      render resource object level = .ok text →
        ∃ (conditions : List ResolvedCondition) (names : List String),
          resource.settings.syncedConditions.zipIdx.mapM (fun entry =>
            ResolvedCondition.resolve resource entry.2 entry.1) = .ok conditions ∧
          names = freshNames [] (conditions.map ResolvedCondition.variableStem) ∧
          AreFresh (conditions.map ResolvedCondition.variableStem) names ∧
          text = Code.renderBehindBlank
            ((conditions.zip names).flatMap (fun entry => entry.1.code object entry.2)) level := by
  refine ⟨areFresh_freshNames, ?_⟩
  intro resource object level text rendered
  rcases render_eq_ok rendered with ⟨conditions, areResolved, isText⟩
  exact ⟨conditions, _, areResolved, rfl, areFresh_freshNames _, isText⟩

/-- Desired state with two numbers in one structure. -/
def throughputDefinition : ResourceDefinition where
  name := "Table"
  spec := .struct "TableSpec" [
    ("Throughput", .struct "Throughput" [
      ("ReadUnits", Shape.scalarOf .integer), ("WriteUnits", Shape.scalarOf .integer)])]
  status := none
  operations := ∅

/-- Settings with a condition on each of the numbers. -/
def throughputConditions : Settings where
  resources := .ofList [("Table", {
    syncedConditions := [
      { path := some "Spec.Throughput.ReadUnits", values := some [.number (.integer 1)] },
      { path := some "Spec.Throughput.WriteUnits", values := some [.number (.integer 2)] }] })]

/-- Both variables are named after the structure, the second one with a number. -/
theorem variables_apart_throughput : ∃ resource text,
    Resource.ofDefinition throughputDefinition throughputConditions .default = .ok resource ∧
    render resource "r.ko" 1 = .ok text ∧
    ∃ (conditions : List ResolvedCondition) (names : List String),
      resource.settings.syncedConditions.zipIdx.mapM (fun entry =>
        ResolvedCondition.resolve resource entry.2 entry.1) = .ok conditions ∧
      names = ["throughputCandidates", "throughputCandidates2"] ∧
      AreFresh (conditions.map ResolvedCondition.variableStem) names ∧
      text = Code.renderBehindBlank
        ((conditions.zip names).flatMap (fun entry => entry.1.code "r.ko" entry.2)) 1 := by
  have facts : ∃ resource ∈
        (Resource.ofDefinition throughputDefinition throughputConditions .default).toOption,
      (render resource "r.ko" 1).toOption.isSome = true ∧
      ∃ conditions ∈ (resource.settings.syncedConditions.zipIdx.mapM (fun entry =>
          ResolvedCondition.resolve resource entry.2 entry.1)).toOption,
        freshNames [] (conditions.map ResolvedCondition.variableStem) =
          ["throughputCandidates", "throughputCandidates2"] := by
    decide +kernel
  rcases facts with ⟨resource, made, renders, conditions, areResolved, areNamed⟩
  rcases Option.isSome_iff_exists.mp renders with ⟨text, isText⟩
  have rendered := Outcome.of_mem_toOption isText
  rcases variables_apart.2 resource "r.ko" 1 text rendered with
    ⟨others, names, areOthers, areNames, fresh, written⟩
  rw [Outcome.of_mem_toOption areResolved] at areOthers
  cases areOthers
  rw [areNamed] at areNames
  exact ⟨resource, text, Outcome.of_mem_toOption made, rendered, conditions, names,
    Outcome.of_mem_toOption areResolved, areNames, fresh, written⟩

end Reconcile.Synced
