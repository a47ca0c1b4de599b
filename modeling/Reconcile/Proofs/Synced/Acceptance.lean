import Mathlib.Data.List.Basic
import Reconcile.Proofs.Synced.Variables

/-!
# Accepted conditions

A condition is accepted if it names a scalar whose kind its values have, behind structures only
(`Synced.Accepts`). Otherwise something is the first to be wrong with it (`Synced.Rejects`): its
parts are looked at in a fixed order, and the fields on the way from the outside to the inside. Code
is written exactly if all conditions are accepted, and the error is that of the first one that is
not, whatever stands behind it (`Synced.accepts_iff`).
-/

namespace Reconcile

theorem FieldRoot.ofName?_eq_some {name : String} {root : FieldRoot} :
    ofName? name = some root ↔ root.name = name := by
  constructor
  · intro found
    unfold ofName? at found
    split at found
    · cases found
      rfl
    · cases found
      rfl
    · cases found
  · rintro rfl
    exact ofName?_name root

theorem FieldRoot.ofName?_eq_none {name : String} :
    ofName? name = none ↔ ∀ root : FieldRoot, root.name ≠ name := by
  simp [Option.eq_none_iff_forall_ne_some, ofName?_eq_some]

theorem FieldPath.splitRoot?_eq_none {path : FieldPath} :
    path.splitRoot? = none ↔ path.length < 2 := by
  rcases path with ⟨_ | ⟨_, _ | ⟨_, _⟩⟩⟩ <;> simp [splitRoot?, length]

theorem FieldPath.splitRoot?_eq_some {path : FieldPath} {first : String} {below : List String} :
    path.splitRoot? = some (first, below) ↔ path = ⟨first :: below⟩ ∧ below ≠ [] := by
  rcases path with ⟨_ | ⟨_, _ | ⟨_, _⟩⟩⟩ <;> simp [splitRoot?]
  rintro _ rfl
  simp

theorem Number.isSome_signedWord?_integer (value : Int) :
    (signedWord? (.integer value)).isSome = true ↔
      -0x8000000000000000 ≤ value ∧ value ≤ 0x7fffffffffffffff := by
  rw [signedWord?]
  unfold leastSignedWord greatestSignedWord
  split
  · simp only [Option.isSome_some, true_iff]
    omega
  · simp only [Option.isSome_none, Bool.false_eq_true, false_iff]
    omega

namespace AcceptedKind

variable {kind : AcceptedKind} {value : Value} {scalarKind : ScalarKind}

/-- Whether a value is one that a field of the kind can hold. -/
def Fits : AcceptedKind → Value → Prop
  | .string, value => ∃ text, value = .text text
  | .integer, value => ∃ number : Int, value = .number (.integer number) ∧
      -0x8000000000000000 ≤ number ∧ number ≤ 0x7fffffffffffffff
  | .boolean, value => ∃ truth, value = .boolean truth

theorem isSome_literal? : (kind.literal? value).isSome = true ↔ kind.Fits value := by
  cases kind with
  | string => cases value <;> simp [literal?, Fits]
  | boolean => cases value <;> simp [literal?, Fits]
  | integer =>
      cases value with
      | number number =>
          cases number with
          | float _ => simp [literal?, Fits, Number.signedWord?]
          | integer number =>
              rw [literal?, Option.isSome_map, Number.isSome_signedWord?_integer]
              simp [Fits]
      | _ => simp [literal?, Fits]

theorem ofScalarKind?_eq_some :
    ofScalarKind? scalarKind = some kind ↔ kind.toScalarKind = scalarKind := by
  cases scalarKind <;> cases kind <;> simp [ofScalarKind?, toScalarKind]

theorem ofScalarKind?_eq_none :
    ofScalarKind? scalarKind = none ↔ ∀ kind : AcceptedKind, kind.toScalarKind ≠ scalarKind := by
  simp [Option.eq_none_iff_forall_ne_some, ofScalarKind?_eq_some]

end AcceptedKind

namespace Synced

/-! ### What is asked of a condition -/

/-- Whether a condition has a path and values. -/
structure Given (condition : SyncedCondition) (text : String) (values : List Value) : Prop where
  path : condition.path = some text
  pathNonempty : text ≠ ""
  accepted : condition.values = some values
  acceptedNonempty : values ≠ []

/-- Whether a condition has values, and its path leads below a part of the resource. -/
structure Located (condition : SyncedCondition) (text : String) (values : List Value)
    (root : FieldRoot) (below : List String) : Prop extends Given condition text values where
  parsed : FieldPath.parse text = .ok ⟨root.name :: below⟩
  long : below ≠ []

/-- The field under a path in a part of a resource. -/
def lookup (resource : Resource) (root : FieldRoot) (path : List String) : Option Field :=
  resource.field? root (FieldPath.text ⟨path⟩)

/-- Whether there is a structure under a path. -/
def IsStructure (lookup : List String → Option Field) (path : List String) : Prop :=
  ∃ field name members, lookup path = some field ∧ field.shape = .struct name members

/-- Whether there is a structure under every part of a path that has fewer steps than a number. -/
def StructuresBefore (lookup : List String → Option Field) (path : List String) (count : Nat) :
    Prop :=
  ∀ smaller, 0 < smaller → smaller < count → IsStructure lookup (path.take smaller)

/-- Whether there is a scalar of a kind at the end of a path, and structures are on the way. -/
structure Reaches (lookup : List String → Option Field) (path : List String) (target : Field)
    (kind : ScalarKind) : Prop where
  structures : StructuresBefore lookup path path.length
  found : lookup path = some target
  scalar : ∃ name, target.shape = .scalar name kind

/-- Whether an error names the first step of a path that cannot be taken. -/
inductive Stops (lookup : List String → Option Field) (text : String) (path : List String) :
    SyncedError → Prop
  | missing {count : Nat} (positive : 0 < count) (within : count ≤ path.length)
      (structures : StructuresBefore lookup path count) (missing : lookup (path.take count) = none) :
      Stops lookup text path (.unknownField text)
  | noStructure {count : Nat} {field : Field} (positive : 0 < count) (short : count < path.length)
      (structures : StructuresBefore lookup path count)
      (found : lookup (path.take count) = some field)
      (noStructure : ∀ name members, field.shape ≠ .struct name members) :
      Stops lookup text path (.unsupportedShape text field.shape.form)
  | noScalar {field : Field} (nonempty : path ≠ [])
      (structures : StructuresBefore lookup path path.length) (found : lookup path = some field)
      (noScalar : ∀ name kind, field.shape ≠ .scalar name kind) :
      Stops lookup text path (.unsupportedShape text field.shape.form)

/-- Whether a condition names a scalar behind structures, and values of its kind. -/
def Accepts (resource : Resource) (condition : SyncedCondition) : Prop :=
  ∃ text values root below target, ∃ kind : AcceptedKind,
    Located condition text values root below ∧
    Reaches (lookup resource root) below target kind.toScalarKind ∧
    ∀ value ∈ values, kind.Fits value

/-- Whether an error names the first thing that is wrong with the condition at an index. -/
inductive Rejects (resource : Resource) (index : Nat) (condition : SyncedCondition) :
    SyncedError → Prop
  | missingPath (missing : ∀ text, condition.path = some text → text = "") :
      Rejects resource index condition (.missingPath index)
  | missingValues {text : String} (path : condition.path = some text) (nonempty : text ≠ "")
      (missing : ∀ values, condition.values = some values → values = []) :
      Rejects resource index condition (.missingValues text)
  | unreadablePath {text : String} {values : List Value} {cause : FieldPath.ParseError}
      (given : Given condition text values) (fails : FieldPath.parse text = .error cause) :
      Rejects resource index condition (.unreadablePath text cause)
  | shortPath {text : String} {values : List Value} {path : FieldPath}
      (given : Given condition text values) (parsed : FieldPath.parse text = .ok path)
      (short : path.length < 2) : Rejects resource index condition (.shortPath text)
  | unknownRoot {text first : String} {values : List Value} {below : List String}
      (given : Given condition text values)
      (parsed : FieldPath.parse text = .ok ⟨first :: below⟩) (long : below ≠ [])
      (unknown : ∀ root : FieldRoot, root.name ≠ first) :
      Rejects resource index condition (.unknownRoot text)
  | stops {text : String} {values : List Value} {root : FieldRoot} {below : List String}
      {error : SyncedError} (located : Located condition text values root below)
      (stops : Stops (lookup resource root) text below error) :
      Rejects resource index condition error
  | unsupportedKind {text : String} {values : List Value} {root : FieldRoot}
      {below : List String} {target : Field} {kind : ScalarKind}
      (located : Located condition text values root below)
      (reaches : Reaches (lookup resource root) below target kind)
      (unsupported : ∀ accepted : AcceptedKind, accepted.toScalarKind ≠ kind) :
      Rejects resource index condition (.unsupportedKind text kind)
  | invalidValue {text : String} {values front back : List Value} {value : Value}
      {root : FieldRoot} {below : List String} {target : Field} {kind : AcceptedKind}
      (located : Located condition text values root below)
      (reaches : Reaches (lookup resource root) below target kind.toScalarKind)
      (place : values = front ++ value :: back) (fits : ∀ earlier ∈ front, kind.Fits earlier)
      (misfit : ¬kind.Fits value) :
      Rejects resource index condition (.invalidValue text value.describe kind.toScalarKind)

/-! ### Steps of a path -/

variable {lookup : List String → Option Field} {text segment : String} {path : List String}
  {target : Field} {kind : ScalarKind} {error : SyncedError} {count : Nat}

theorem structuresBefore_one : StructuresBefore lookup path 1 := by
  intro smaller positive less
  omega

/-- The first step and the steps behind it. -/
theorem structuresBefore_cons (positive : 0 < count) :
    StructuresBefore lookup (segment :: path) (count + 1) ↔
      IsStructure lookup [segment] ∧
        StructuresBefore (fun ahead => lookup (segment :: ahead)) path count := by
  constructor
  · intro structures
    refine ⟨structures 1 Nat.one_pos (Nat.succ_lt_succ positive), ?_⟩
    intro smaller _ less
    exact structures (smaller + 1) (Nat.succ_pos smaller) (Nat.succ_lt_succ less)
  · rintro ⟨first, others⟩ (_ | _ | smaller) atLeast less
    · exact absurd atLeast (Nat.lt_irrefl 0)
    · exact first
    · exact others (smaller + 1) (Nat.succ_pos smaller) (Nat.lt_of_succ_lt_succ less)

theorem Reaches.cons (first : IsStructure lookup [segment]) (nonempty : path ≠ [])
    (later : Reaches (fun ahead => lookup (segment :: ahead)) path target kind) :
    Reaches lookup (segment :: path) target kind where
  structures :=
    (structuresBefore_cons (List.length_pos_iff.mpr nonempty)).mpr ⟨first, later.structures⟩
  found := later.found
  scalar := later.scalar

theorem Stops.cons (first : IsStructure lookup [segment])
    (later : Stops (fun ahead => lookup (segment :: ahead)) text path error) :
    Stops lookup text (segment :: path) error := by
  cases later with
  | missing positive within structures missing =>
      exact .missing (Nat.succ_pos _) (Nat.succ_le_succ within)
        ((structuresBefore_cons positive).mpr ⟨first, structures⟩) missing
  | noStructure positive short structures found noStructure =>
      exact .noStructure (Nat.succ_pos _) (Nat.succ_lt_succ short)
        ((structuresBefore_cons positive).mpr ⟨first, structures⟩) found noStructure
  | noScalar nonempty structures found noScalar =>
      have positive := List.length_pos_iff.mpr nonempty
      exact .noScalar (List.cons_ne_nil _ _)
        ((structuresBefore_cons positive).mpr ⟨first, structures⟩) found noScalar

/-- What the error at a step is, given what is found there. -/
def stepError (text : String) : Option Field → SyncedError
  | none => .unknownField text
  | some field => .unsupportedShape text field.shape.form

theorem Stops.exists_count (stops : Stops lookup text path error) :
    ∃ count, 0 < count ∧ count ≤ path.length ∧ StructuresBefore lookup path count ∧
      (count < path.length → ¬IsStructure lookup (path.take count)) ∧
      error = stepError text (lookup (path.take count)) := by
  cases stops with
  | @missing count positive within structures missing =>
      refine ⟨count, positive, within, structures, ?_, by rw [missing, stepError]⟩
      rintro _ ⟨field, name, members, found, _⟩
      rw [missing] at found
      cases found
  | @noStructure count field positive short structures found noStructure =>
      refine ⟨count, positive, Nat.le_of_lt short, structures, ?_, by rw [found, stepError]⟩
      rintro _ ⟨other, name, members, foundToo, shape⟩
      cases found.symm.trans foundToo
      exact noStructure name members shape
  | @noScalar field nonempty structures found noScalar =>
      refine ⟨path.length, List.length_pos_iff.mpr nonempty, Nat.le_refl _, structures, ?_, ?_⟩
      · exact fun less => absurd less (Nat.lt_irrefl _)
      · rw [List.take_length, found, stepError]

/-- Only one step is the first that cannot be taken. -/
theorem Stops.unique {other : SyncedError} (stops : Stops lookup text path error)
    (otherStops : Stops lookup text path other) : error = other := by
  rcases stops.exists_count with ⟨count, positive, within, structures, unsuited, rfl⟩
  rcases otherStops.exists_count with
    ⟨otherCount, otherPositive, otherWithin, otherStructures, otherUnsuited, rfl⟩
  rcases Nat.lt_trichotomy count otherCount with less | rfl | greater
  · exact absurd (otherStructures count positive less) (unsuited (by omega))
  · rfl
  · exact absurd (structures otherCount otherPositive greater) (otherUnsuited (by omega))

theorem Stops.not_reaches (stops : Stops lookup text path error) :
    ¬Reaches lookup path target kind := by
  rintro ⟨structures, found, name, scalar⟩
  cases stops with
  | @missing count positive within _ missing =>
      rcases Nat.lt_or_eq_of_le within with short | rfl
      · rcases structures count positive short with ⟨field, _, _, foundToo, _⟩
        rw [missing] at foundToo
        cases foundToo
      · rw [List.take_length, found] at missing
        cases missing
  | @noStructure count field positive short _ foundToo noStructure =>
      rcases structures count positive short with ⟨other, name, members, foundThere, shape⟩
      cases foundToo.symm.trans foundThere
      exact noStructure name members shape
  | noScalar _ _ foundToo noScalar =>
      cases found.symm.trans foundToo
      exact noScalar name kind scalar

end Synced

namespace ResolvedCondition

open Synced Outcome

variable {resource : Resource} {root : FieldRoot} {text segment : String} {behind : FieldPath}
  {path : List String} {target : Field} {kind : ScalarKind} {error : SyncedError}

/-! ### Walks -/

/-- The field under a path below what was walked already. -/
def ahead (resource : Resource) (root : FieldRoot) (behind : FieldPath) (path : List String) :
    Option Field :=
  lookup resource root (behind.segments ++ path)

theorem ahead_empty : ahead resource root .empty = lookup resource root := rfl

theorem ahead_child : ahead resource root (behind.child segment) =
    fun path => ahead resource root behind (segment :: path) := by
  funext path
  rw [ahead, ahead, FieldPath.segments_child, List.append_assoc, List.singleton_append]

theorem field?_child :
    resource.field? root (behind.child segment).text = ahead resource root behind [segment] := rfl

/-- A walk that gives a field reaches it, and one that gives an error stops there. -/
theorem outcome_of_walk (nonempty : path ≠ []) :
    match walk resource root text behind path with
    | .ok (_, target, kind) => Reaches (ahead resource root behind) path target kind
    | .error error => Stops (ahead resource root behind) text path error := by
  induction path generalizing behind with
  | nil => exact absurd rfl nonempty
  | cons segment rest ih =>
      rw [walk]
      dsimp only
      rw [field?_child]
      cases found : ahead resource root behind [segment] with
      | none =>
          exact .missing Nat.one_pos (Nat.succ_le_succ (Nat.zero_le _)) structuresBefore_one found
      | some field =>
          cases rest with
          | nil =>
              cases shape : field.shape with
              | scalar name kind =>
                  simp only [shape]
                  exact ⟨structuresBefore_one, found, name, shape⟩
              | _ =>
                  simp only [shape]
                  rw [← shape]
                  exact .noScalar (List.cons_ne_nil _ _) structuresBefore_one found (by simp [shape])
          | cons next others =>
              have short : 1 < (segment :: next :: others).length := by simp
              cases shape : field.shape with
              | struct name members =>
                  have first : IsStructure (ahead resource root behind) [segment] :=
                    ⟨field, name, members, found, shape⟩
                  have later := @ih (behind.child segment) (List.cons_ne_nil _ _)
                  rw [ahead_child] at later
                  simp only [shape]
                  cases walked : walk resource root text (behind.child segment) (next :: others) with
                  | ok result =>
                      rw [walked] at later
                      exact .cons first (List.cons_ne_nil _ _) later
                  | error error =>
                      rw [walked] at later
                      exact .cons first later
              | _ =>
                  simp only [shape]
                  rw [← shape]
                  exact .noStructure Nat.one_pos short structuresBefore_one found (by simp [shape])

theorem walk_of_stops (nonempty : path ≠ [])
    (stops : Stops (ahead resource root behind) text path error) :
    walk resource root text behind path = .error error := by
  have outcome := @outcome_of_walk resource root text behind path nonempty
  split at outcome
  · exact absurd outcome stops.not_reaches
  · rename_i other failed
    rw [failed, stops.unique outcome]

theorem walk_of_reaches (nonempty : path ≠ [])
    (reaches : Reaches (ahead resource root behind) path target kind) :
    ∃ parents, walk resource root text behind path = .ok (parents, target, kind) := by
  have outcome := @outcome_of_walk resource root text behind path nonempty
  split at outcome
  · rename_i parents other otherKind walked
    cases reaches.found.symm.trans outcome.found
    rcases reaches.scalar with ⟨name, shape⟩
    rcases outcome.scalar with ⟨otherName, sameShape⟩
    cases shape.symm.trans sameShape
    exact ⟨parents, walked⟩
  · exact absurd reaches outcome.not_reaches

/-! ### Conditions -/

variable {index : Nat} {given : SyncedCondition} {values : List Value} {below : List String}

theorem nonEmptyText?_eq_some {text? : Option String} :
    nonEmptyText? text? = some text ↔ text? = some text ∧ text ≠ "" := by
  simp [nonEmptyText?, Option.filter_eq_some_iff]

theorem nonEmptyText?_eq_none {text? : Option String} :
    nonEmptyText? text? = none ↔ ∀ text, text? = some text → text = "" := by
  simp [nonEmptyText?, Option.filter_eq_none_iff]

theorem nonEmptyValues?_eq_some {values? : Option (List Value)} :
    nonEmptyValues? values? = some values ↔ values? = some values ∧ values ≠ [] := by
  simp [nonEmptyValues?, Option.filter_eq_some_iff]

theorem nonEmptyValues?_eq_none {values? : Option (List Value)} :
    nonEmptyValues? values? = none ↔ ∀ values, values? = some values → values = [] := by
  simp [nonEmptyValues?, Option.filter_eq_none_iff]

theorem orError_eq_ok {α : Type} {wrong : SyncedError} {value? : Option α} {value : α}
    (given : orError wrong value? = .ok value) : value? = some value := by
  cases value? with
  | none => cases given
  | some other =>
      cases given
      rfl

theorem orError_eq_error {α : Type} {wrong : SyncedError} {value? : Option α} :
    orError wrong value? = .error error ↔ value? = none ∧ error = wrong := by
  cases value? with
  | some value => simp [orError]
  | none => simp [orError, eq_comm]

theorem exists_orError_eq_ok {α : Type} {wrong : SyncedError} {value? : Option α} :
    (∃ value, orError wrong value? = .ok value) ↔ value?.isSome = true := by
  cases value? with
  | some value => simp [orError]
  | none => simp [orError]

theorem writeLiterals_eq (text : String) (kind : AcceptedKind) (values : List Value) :
    writeLiterals text kind values = values.mapM (fun value =>
      orError (.invalidValue text value.describe kind.toScalarKind) (kind.literal? value)) := by
  rw [writeLiterals]
  congr 1
  funext value
  cases kind.literal? value <;> rfl

theorem exists_writeLiterals_eq_ok {kind : AcceptedKind} :
    (∃ literals, writeLiterals text kind values = .ok literals) ↔
      ∀ value ∈ values, kind.Fits value := by
  rw [writeLiterals_eq, exists_mapM_eq_ok]
  simp only [exists_orError_eq_ok, AcceptedKind.isSome_literal?]

/-- The error of writing values is that of the first one that does not fit. -/
theorem writeLiterals_eq_error {kind : AcceptedKind} :
    writeLiterals text kind values = .error error ↔
      ∃ front value back, values = front ++ value :: back ∧
        (∀ earlier ∈ front, kind.Fits earlier) ∧ ¬kind.Fits value ∧
        error = .invalidValue text value.describe kind.toScalarKind := by
  rw [writeLiterals_eq, mapM_eq_error]
  simp only [exists_orError_eq_ok, orError_eq_error, ← AcceptedKind.isSome_literal?,
    Option.not_isSome_iff_eq_none]

/-- What is left of resolving a condition that has a path and values. -/
theorem resolve_of_given (isGiven : Given given text values) :
    resolve resource index given = (do
      let path ← (FieldPath.parse text).mapError (.unreadablePath text)
      let (rootName, below) ← orError (.shortPath text) path.splitRoot?
      let root ← orError (.unknownRoot text) (FieldRoot.ofName? rootName)
      let (parents, target, scalarKind) ← walk resource root text .empty below
      let kind ← orError (.unsupportedKind text scalarKind)
        (AcceptedKind.ofScalarKind? scalarKind)
      let literals ← writeLiterals text kind values
      return { root, parents, target, kind, literals }) := by
  rw [resolve, nonEmptyText?_eq_some.mpr ⟨isGiven.path, isGiven.pathNonempty⟩,
    nonEmptyValues?_eq_some.mpr ⟨isGiven.accepted, isGiven.acceptedNonempty⟩]
  rfl

theorem resolve_of_short {path : FieldPath} (isGiven : Given given text values)
    (parsed : FieldPath.parse text = .ok path) (short : path.splitRoot? = none) :
    resolve resource index given = .error (.shortPath text) := by
  rw [resolve_of_given isGiven, parsed]
  dsimp only [Except.mapError, bind, Except.bind]
  rw [short]
  rfl

/-- What is left of resolving a condition whose path has a first segment and others. -/
theorem resolve_of_parsed {first : String} (isGiven : Given given text values)
    (parsed : FieldPath.parse text = .ok ⟨first :: below⟩) (long : below ≠ []) :
    resolve resource index given = (do
      let root ← orError (.unknownRoot text) (FieldRoot.ofName? first)
      let (parents, target, scalarKind) ← walk resource root text .empty below
      let kind ← orError (.unsupportedKind text scalarKind)
        (AcceptedKind.ofScalarKind? scalarKind)
      let literals ← writeLiterals text kind values
      return { root, parents, target, kind, literals }) := by
  rcases List.exists_cons_of_ne_nil long with ⟨second, rest, rfl⟩
  rw [resolve_of_given isGiven, parsed]
  rfl

/-- What is left of resolving a condition whose path leads below a part of the resource. -/
theorem resolve_of_located (located : Located given text values root below) :
    resolve resource index given = (do
      let (parents, target, scalarKind) ← walk resource root text .empty below
      let kind ← orError (.unsupportedKind text scalarKind)
        (AcceptedKind.ofScalarKind? scalarKind)
      let literals ← writeLiterals text kind values
      return { root, parents, target, kind, literals }) := by
  rw [resolve_of_parsed located.toGiven located.parsed located.long, FieldRoot.ofName?_name]
  rfl

/-- What is left of resolving a condition that reaches a scalar. -/
theorem resolve_of_reaches (located : Located given text values root below)
    (reaches : Reaches (lookup resource root) below target kind) :
    ∃ parents, resolve resource index given = (do
      let accepted ← orError (.unsupportedKind text kind) (AcceptedKind.ofScalarKind? kind)
      let literals ← writeLiterals text accepted values
      return { root, parents, target, kind := accepted, literals }) := by
  rcases @walk_of_reaches resource root text .empty _ _ _ located.long reaches with
    ⟨parents, walked⟩
  refine ⟨parents, ?_⟩
  rw [resolve_of_located located, walked]
  rfl

/-- What is left of resolving a condition that reaches a scalar of an accepted kind. -/
theorem resolve_of_kind {kind : AcceptedKind} (located : Located given text values root below)
    (reaches : Reaches (lookup resource root) below target kind.toScalarKind) :
    ∃ parents, resolve resource index given =
      (writeLiterals text kind values).map (fun literals =>
        { root, parents, target, kind, literals }) := by
  rcases @resolve_of_reaches resource root text _ _ index _ _ _ located reaches with
    ⟨parents, resolved⟩
  rw [AcceptedKind.ofScalarKind?_eq_some.mpr rfl] at resolved
  exact ⟨parents, resolved⟩

/-- Whether the outcome of resolving a condition is the right one. -/
def Judges (resource : Resource) (index : Nat) (given : SyncedCondition) :
    Except SyncedError ResolvedCondition → Prop
  | .ok _ => Accepts resource given
  | .error error => Rejects resource index given error

theorem judges_of_located (located : Located given text values root below) :
    Judges resource index given (resolve resource index given) := by
  have outcome := @outcome_of_walk resource root text .empty _ located.long
  rw [ahead_empty] at outcome
  cases walked : walk resource root text .empty below with
  | error error =>
      rw [walked] at outcome
      rw [resolve_of_located located, walked]
      exact .stops located outcome
  | ok result =>
      rcases result with ⟨parents, target, scalarKind⟩
      rw [walked] at outcome
      cases isKind : AcceptedKind.ofScalarKind? scalarKind with
      | none =>
          rw [resolve_of_located located, walked]
          dsimp only [bind, Except.bind]
          rw [isKind]
          exact .unsupportedKind located outcome (AcceptedKind.ofScalarKind?_eq_none.mp isKind)
      | some kind =>
          cases AcceptedKind.ofScalarKind?_eq_some.mp isKind
          rcases @resolve_of_kind _ _ _ _ index _ _ _ _ located outcome with ⟨parents, resolved⟩
          rw [resolved]
          cases written : writeLiterals text kind values with
          | ok literals =>
              exact ⟨text, values, root, below, target, kind, located, outcome,
                exists_writeLiterals_eq_ok.mp ⟨literals, written⟩⟩
          | error error =>
              rcases writeLiterals_eq_error.mp written with
                ⟨front, value, back, place, fits, misfit, rfl⟩
              exact .invalidValue located outcome place fits misfit

theorem judges_of_given (isGiven : Given given text values) :
    Judges resource index given (resolve resource index given) := by
  cases parsed : FieldPath.parse text with
  | error cause =>
      rw [resolve_of_given isGiven, parsed]
      exact .unreadablePath isGiven parsed
  | ok path =>
      cases isSplit : path.splitRoot? with
      | none =>
          rw [resolve_of_short isGiven parsed isSplit]
          exact .shortPath isGiven parsed (FieldPath.splitRoot?_eq_none.mp isSplit)
      | some parts =>
          rcases FieldPath.splitRoot?_eq_some.mp isSplit with ⟨rfl, long⟩
          cases isRoot : FieldRoot.ofName? parts.1 with
          | none =>
              rw [resolve_of_parsed isGiven parsed long, isRoot]
              exact .unknownRoot isGiven parsed long (FieldRoot.ofName?_eq_none.mp isRoot)
          | some root =>
              rw [← FieldRoot.ofName?_eq_some.mp isRoot] at parsed
              exact judges_of_located ⟨isGiven, parsed, long⟩

/-- A condition that is resolved is accepted, and the error of one that is not rejects it. -/
theorem judges_resolve (resource : Resource) (index : Nat) (given : SyncedCondition) :
    Judges resource index given (resolve resource index given) := by
  cases isPath : nonEmptyText? given.path with
  | none =>
      rw [resolve, isPath]
      exact .missingPath (nonEmptyText?_eq_none.mp isPath)
  | some text =>
      rcases nonEmptyText?_eq_some.mp isPath with ⟨path, nonempty⟩
      cases areValues : nonEmptyValues? given.values with
      | none =>
          rw [resolve, isPath, areValues]
          exact .missingValues path nonempty (nonEmptyValues?_eq_none.mp areValues)
      | some values =>
          rcases nonEmptyValues?_eq_some.mp areValues with ⟨accepted, acceptedNonempty⟩
          exact judges_of_given ⟨path, nonempty, accepted, acceptedNonempty⟩

theorem resolve_of_accepts (accepts : Accepts resource given) :
    ∃ condition, resolve resource index given = .ok condition := by
  rcases accepts with ⟨text, values, root, below, target, kind, located, reaches, fits⟩
  rcases @resolve_of_kind _ _ _ _ index _ _ _ _ located reaches with ⟨parents, resolved⟩
  rcases exists_writeLiterals_eq_ok.mpr fits with ⟨literals, written⟩
  rw [written] at resolved
  exact ⟨_, resolved⟩

theorem resolve_of_rejects (rejects : Rejects resource index given error) :
    resolve resource index given = .error error := by
  cases rejects with
  | missingPath missing =>
      rw [resolve, nonEmptyText?_eq_none.mpr missing]
      rfl
  | missingValues path nonempty missing =>
      rw [resolve, nonEmptyText?_eq_some.mpr ⟨path, nonempty⟩, nonEmptyValues?_eq_none.mpr missing]
      rfl
  | unreadablePath isGiven fails =>
      rw [resolve_of_given isGiven, fails]
      rfl
  | @shortPath text values path isGiven parsed short =>
      exact resolve_of_short isGiven parsed (FieldPath.splitRoot?_eq_none.mpr short)
  | unknownRoot isGiven parsed long unknown =>
      rw [resolve_of_parsed isGiven parsed long, FieldRoot.ofName?_eq_none.mpr unknown]
      rfl
  | stops located stops =>
      rw [resolve_of_located located]
      rw [@walk_of_stops resource _ _ .empty _ _ located.long stops]
      rfl
  | unsupportedKind located reaches unsupported =>
      rcases @resolve_of_reaches _ _ _ _ _ index _ _ _ located reaches with ⟨parents, resolved⟩
      rw [resolved, AcceptedKind.ofScalarKind?_eq_none.mpr unsupported]
      rfl
  | invalidValue located reaches place fits misfit =>
      rcases @resolve_of_kind _ _ _ _ index _ _ _ _ located reaches with ⟨parents, resolved⟩
      rw [resolved, writeLiterals_eq_error.mpr ⟨_, _, _, place, fits, misfit, rfl⟩]
      rfl

/-- A condition is resolved exactly if it is accepted. -/
theorem exists_resolve_eq_ok :
    (∃ condition, resolve resource index given = .ok condition) ↔ Accepts resource given := by
  constructor
  · rintro ⟨condition, resolved⟩
    have judged := judges_resolve resource index given
    rwa [resolved] at judged
  · exact resolve_of_accepts

theorem resolve_eq_error :
    resolve resource index given = .error error ↔ Rejects resource index given error := by
  constructor
  · intro failed
    have judged := judges_resolve resource index given
    rwa [failed] at judged
  · exact resolve_of_rejects

/-- What is known of a condition that was resolved. -/
theorem exists_located {condition : ResolvedCondition}
    (resolved : resolve resource index given = .ok condition) :
    ∃ text values below, Located given text values condition.root below ∧
      walk resource condition.root text .empty below =
        .ok (condition.parents, condition.target, condition.kind.toScalarKind) ∧
      Reaches (lookup resource condition.root) below condition.target
        condition.kind.toScalarKind ∧
      writeLiterals text condition.kind values = .ok condition.literals := by
  rcases exists_resolve_eq_ok.mp ⟨condition, resolved⟩ with
    ⟨text, values, root, below, _, _, located, _, _⟩
  rw [resolve_of_located located] at resolved
  rcases of_bind_eq_ok resolved with ⟨⟨parents, target, scalarKind⟩, walked, resolved⟩
  rcases of_bind_eq_ok resolved with ⟨kind, isKind, resolved⟩
  rcases of_bind_eq_ok resolved with ⟨literals, written, made⟩
  cases made
  cases AcceptedKind.ofScalarKind?_eq_some.mp (orError_eq_ok isKind)
  have outcome := @outcome_of_walk resource root text .empty _ located.long
  rw [walked] at outcome
  exact ⟨text, values, below, located, walked, outcome, written⟩

end ResolvedCondition

namespace Synced

variable {resource : Resource} {index : Nat} {condition : SyncedCondition}

/-- A condition is rejected exactly if it is not accepted. -/
theorem exists_rejects_iff :
    (∃ error, Rejects resource index condition error) ↔ ¬Accepts resource condition := by
  simp only [← ResolvedCondition.resolve_eq_error]
  rw [← @ResolvedCondition.exists_resolve_eq_ok resource index condition]
  cases ResolvedCondition.resolve resource index condition <;> simp

theorem error?_render (resource : Resource) (object : String) (level : Nat) :
    Outcome.error? (render resource object level) =
      Outcome.error? (resource.settings.syncedConditions.zipIdx.mapM (fun entry =>
        ResolvedCondition.resolve resource entry.2 entry.1)) := by
  rw [render, Outcome.error?_bind_pure, codeFrom_eq, Outcome.error?_bind_pure]

/-- What does not depend on the index holds of a list if it holds of its entries with indices. -/
theorem forall_mem_zipIdx {α : Type} {items : List α} {holds : α → Prop} :
    (∀ entry ∈ items.zipIdx, holds entry.1) ↔ ∀ item ∈ items, holds item := by
  rw [← List.forall_mem_map, List.zipIdx_map_fst]

/--
Code is written exactly if all conditions are accepted. The error is that of the first condition
that is not, whatever the conditions behind it are.
-/
theorem accepts_iff (resource : Resource) (object : String) (level : Nat) :
    ((∃ text, render resource object level = .ok text) ↔
      ∀ condition ∈ resource.settings.syncedConditions, Accepts resource condition) ∧
    (∀ error, render resource object level = .error error ↔
      ∃ front condition back,
        resource.settings.syncedConditions = front ++ condition :: back ∧
        (∀ earlier ∈ front, Accepts resource earlier) ∧
        Rejects resource front.length condition error) ∧
    ∀ index condition,
      (∃ error, Rejects resource index condition error) ↔ ¬Accepts resource condition := by
  refine ⟨?_, ?_, fun _ _ => exists_rejects_iff⟩
  · rw [← Outcome.error?_eq_none, error?_render, Outcome.error?_eq_none, Outcome.exists_mapM_eq_ok]
    simp only [ResolvedCondition.exists_resolve_eq_ok]
    exact forall_mem_zipIdx
  · intro error
    rw [← Outcome.error?_eq_some, error?_render, Outcome.error?_eq_some, Outcome.mapM_eq_error]
    simp only [ResolvedCondition.exists_resolve_eq_ok, ResolvedCondition.resolve_eq_error]
    constructor
    · rintro ⟨before, ⟨condition, index⟩, after, cut, earlier, rejects⟩
      rcases List.zipIdx_eq_append_iff.mp cut with ⟨front, others, isCut, rfl, tail⟩
      rcases List.zipIdx_eq_cons_iff.mp tail.symm with ⟨_, back, rfl, entry, _⟩
      cases entry
      rw [Nat.zero_add] at rejects
      exact ⟨front, condition, back, isCut, forall_mem_zipIdx.mp earlier, rejects⟩
    · rintro ⟨front, condition, back, cut, earlier, rejects⟩
      refine ⟨front.zipIdx, (condition, front.length), back.zipIdx (front.length + 1), ?_,
        forall_mem_zipIdx.mpr earlier, rejects⟩
      rw [cut, List.zipIdx_append, List.zipIdx_cons, Nat.zero_add]

end Synced

end Reconcile
