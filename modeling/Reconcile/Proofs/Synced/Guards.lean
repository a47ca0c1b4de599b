import Reconcile.Proofs.Code.Access
import Reconcile.Proofs.Resource.Ancestors
import Reconcile.Proofs.Synced.Acceptance
import Reconcile.Proofs.Text.LetterCase

/-!
# Guards of synced conditions

The code of a condition tests the fields on the way for presence before it reads the last one. Each
of them is looked up on its own, ignoring letter case, under the leading segments of the configured
path. The tests are those of the expression that is read exactly if all fields that were found lead
to the last one (`Synced.guarded_iff`). This is so where no two paths differ in letter case only.
-/

namespace Reconcile

namespace ResolvedCondition

variable {definition : ResourceDefinition} {settings : Settings} {normalizer : Normalizer}
  {resource : Resource} {root : FieldRoot} {text : String} {condition : ResolvedCondition}
  {below : List String}

/-- Each part of a path is looked up on its own. -/
theorem lookups_of_walk {behind : FieldPath} {segments : List String} {parents : List Field}
    {target : Field} {kind : ScalarKind}
    (walked : walk resource root text behind segments = .ok (parents, target, kind)) :
    List.Forall₂ (fun depth field => resource.field? root
        (FieldPath.text ⟨behind.segments ++ segments.take (depth + 1)⟩) = some field)
      (List.range segments.length) (parents ++ [target]) := by
  induction segments generalizing behind parents with
  | nil => cases walked
  | cons segment ahead ih =>
      rw [walk] at walked
      dsimp only at walked
      split at walked
      · cases walked
      · rename_i field found
        split at walked
        · cases walked
          exact .cons found .nil
        · rcases Outcome.of_bind_eq_ok walked with ⟨⟨others, last, lastKind⟩, deeper, made⟩
          cases made
          rw [List.length_cons, List.range_succ_eq_map]
          refine .cons found ?_
          rw [List.forall₂_map_left_iff]
          apply (ih deeper).imp
          intro depth field found
          rw [List.take_succ_cons, List.append_cons]
          exact found
        · cases walked

/-- What the fields of a condition are found under. -/
structure LooksUp (resource : Resource) (below : List String) (condition : ResolvedCondition) :
    Prop where
  nonempty : below ≠ []
  noDots : ∀ segment ∈ below, '.' ∉ segment.toList
  lookups : List.Forall₂ (fun depth field => resource.field? condition.root
      (FieldPath.text ⟨below.take (depth + 1)⟩) = some field)
    (List.range below.length) condition.chain
  last : resource.field? condition.root (FieldPath.text ⟨below⟩) = some condition.target
  scalar : ∃ name kind, condition.target.shape = .scalar name kind

theorem looksUp_of_resolve {index : Nat} {given : SyncedCondition}
    (resolved : resolve resource index given = .ok condition) :
    ∃ below, LooksUp resource below condition := by
  rcases exists_located resolved with ⟨text, values, below, located, walked, reaches, _⟩
  rcases reaches.scalar with ⟨name, isScalar⟩
  refine ⟨below, located.long, ?_, lookups_of_walk walked, reaches.found, name, _, isScalar⟩
  intro segment isSegment
  have isPiece : segment ∈ Text.split '.' text := by
    rw [← FieldPath.segments_of_parse located.parsed]
    exact List.mem_cons_of_mem _ isSegment
  exact Text.not_mem_of_mem_split isPiece

/-- The expressions that lead to the value that a condition reads, the value itself last. -/
def levels (condition : ResolvedCondition) (object : String) : List Access :=
  (Access.member (.root object) condition.root.name).along
    (Text.split '.' condition.target.path.text)

/-- The code that returns early if the value of an expression is absent. -/
def guard (access : String) : Code :=
  .block ("if " ++ access ++ " == nil") [.line "return false, nil"]

/--
Whether the code of a condition tests whatever leads to the value that it reads for presence, from
the outside to the inside, and nothing else, before it looks the value up.
-/
def IsGuarded (condition : ResolvedCondition) (object name : String) : Prop :=
  condition.code object name =
    (condition.levels object).map (fun access => guard access.text) ++ [
    .line (name ++ " := " ++ condition.candidates),
    .block ("if !" ++ condition.kind.membership (condition.access object condition.target) name)
      [.line "return false, nil"]]

/-- The fields that a condition finds are fields of its part, and have the expected depth. -/
theorem LooksUp.field (joined : Resource.ofDefinition definition settings normalizer = .ok resource)
    (looksUp : LooksUp resource below condition) {path : List String} (isPath : path ≠ [])
    (isPart : ∀ segment ∈ path, segment ∈ below) {field : Field}
    (found : resource.field? condition.root (FieldPath.text ⟨path⟩) = some field) :
    field.path.segments ≠ [] ∧ (Text.split '.' field.path.text).map Text.lower =
      path.map Text.lower := by
  rcases Resource.similar_of_field? joined found with ⟨isValue, similar⟩
  refine ⟨Resource.segments_ne_nil joined _ isValue, ?_⟩
  have cut : Text.split '.' (FieldPath.text ⟨path⟩) = path :=
    Text.split_intercalate isPath (fun segment isSegment =>
      looksUp.noDots segment (isPart segment isSegment))
  rw [Text.equalIgnoringCase_iff_split.mp similar, cut]

theorem text_levels (condition : ResolvedCondition) (object : String) :
    (condition.levels object).map Access.text =
      (List.range (Text.split '.' condition.target.path.text).length).map (fun depth =>
        object ++ "." ++ condition.root.name ++ "." ++
          ".".intercalate ((Text.split '.' condition.target.path.text).take (depth + 1))) := by
  rw [levels, Access.along_eq, List.map_map]
  apply List.map_congr_left
  intro depth isDepth
  have nonempty : (Text.split '.' condition.target.path.text).take (depth + 1) ≠ [] := by
    simp [Text.split_ne_nil]
  exact Access.text_descend _ nonempty

theorem guard_injective : Function.Injective guard := by
  intro left right same
  simpa [guard] using same

theorem text_access {field : Field} (nonempty : field.path.segments ≠ []) (object : String) :
    (condition.access object field).text =
      object ++ "." ++ condition.root.name ++ "." ++ field.path.text :=
  Access.text_descend _ nonempty

theorem isGuarded_iff_texts (filed : ∀ field ∈ condition.chain, field.path.segments ≠ [])
    (object name : String) :
    condition.IsGuarded object name ↔ condition.chain.map (fun field => field.path.text) =
      (List.range (Text.split '.' condition.target.path.text).length).map (fun depth =>
        ".".intercalate ((Text.split '.' condition.target.path.text).take (depth + 1))) := by
  have below : Function.Injective
      (fun text => guard (object ++ "." ++ condition.root.name ++ "." ++ text)) := by
    intro left right same
    simpa using guard_injective same
  have tests : condition.chain.map (fun field =>
        (condition.access object field).ifAbsent Synced.notSynced) =
      (condition.chain.map (fun field => field.path.text)).map
        (fun text => guard (object ++ "." ++ condition.root.name ++ "." ++ text)) := by
    rw [List.map_map]
    apply List.map_congr_left
    intro field listed
    simp only [Access.ifAbsent, Access.isAbsent, text_access (filed field listed), guard,
      Function.comp_apply, String.append_assoc]
    rfl
  have expected : (condition.levels object).map (fun access => guard access.text) =
      ((List.range (Text.split '.' condition.target.path.text).length).map (fun depth =>
        ".".intercalate ((Text.split '.' condition.target.path.text).take (depth + 1)))).map
        (fun text => guard (object ++ "." ++ condition.root.name ++ "." ++ text)) := by
    have texts := congrArg (List.map guard) (text_levels condition object)
    rw [List.map_map, List.map_map] at texts
    rw [List.map_map]
    exact texts
  rw [IsGuarded, code, tests, expected]
  constructor
  · intro same
    exact List.map_injective_iff.mpr below (List.append_cancel_right same)
  · intro same
    rw [same]
    rfl

/-- Code is guarded exactly if the fields that were found lead to the one that is read. -/
theorem isGuarded_iff (joined : Resource.ofDefinition definition settings normalizer = .ok resource)
    (looksUp : LooksUp resource below condition) (object name : String) :
    condition.IsGuarded object name ↔ ∀ parent ∈ condition.parents,
      Text.split '.' parent.path.text <+: Text.split '.' condition.target.path.text := by
  have each : List.Forall₂ (fun depth field => field.path.segments ≠ [] ∧
      (Text.split '.' field.path.text).length = (below.take (depth + 1)).length)
        (List.range below.length) condition.chain := by
    apply looksUp.lookups.imp
    intro depth field found
    have isPath : below.take (depth + 1) ≠ [] := by
      simp [looksUp.nonempty]
    have known := looksUp.field joined isPath (fun _ => List.mem_of_mem_take) found
    exact ⟨known.1, by simpa using congrArg List.length known.2⟩
  have filed : ∀ field ∈ condition.chain, field.path.segments ≠ [] := by
    intro field listed
    rcases exists_left_of_mem each listed with ⟨depth, _, nonempty, _⟩
    exact nonempty
  have length : (Text.split '.' condition.target.path.text).length = below.length := by
    have same := (looksUp.field joined looksUp.nonempty (fun _ => id) looksUp.last).2
    simpa using congrArg List.length same
  rw [isGuarded_iff_texts filed]
  constructor
  · intro same parent isParent
    have listed : parent.path.text ∈ condition.chain.map (fun field => field.path.text) :=
      List.mem_map_of_mem (List.mem_append_left _ isParent)
    rw [same] at listed
    rcases List.mem_map.mp listed with ⟨depth, _, isText⟩
    have isPath : (Text.split '.' condition.target.path.text).take (depth + 1) ≠ [] := by
      simp [Text.split_ne_nil]
    have cut : Text.split '.' (".".intercalate _) = _ :=
      Text.split_intercalate isPath (fun segment isSegment =>
        Text.not_mem_of_mem_split (List.mem_of_mem_take isSegment))
    rw [← isText, cut]
    exact List.take_prefix (depth + 1) _
  · intro leads
    have allLead : ∀ field ∈ condition.chain,
        Text.split '.' field.path.text <+: Text.split '.' condition.target.path.text := by
      intro field listed
      rcases List.mem_append.mp listed with isParent | isTarget
      · exact leads field isParent
      · have same := List.mem_singleton.mp isTarget
        subst same
        exact List.prefix_rfl
    -- Look-ups keep the number of pieces, so that each field has the leading part of its depth.
    rw [← List.forall₂_eq_eq_eq, List.forall₂_map_left_iff, List.forall₂_map_right_iff, length]
    apply ((List.forall₂_and_left _ _).mpr ⟨allLead, each.flip⟩).imp
    rintro field depth ⟨isLeading, _, ofDepth⟩
    have cut : (Text.split '.' condition.target.path.text).take (depth + 1) =
        Text.split '.' field.path.text := by
      rw [List.prefix_iff_eq_take.mp isLeading, ofDepth, List.take_eq_take_iff, List.length_take]
      omega
    rw [cut]
    exact (Text.intercalate_split '.' field.path.text).symm

/-- The value that a condition reads is the last of the levels. -/
theorem getLast?_levels (filed : condition.target.path.segments ≠ []) (object : String) :
    ((condition.levels object).map Access.text).getLast? =
      some (condition.access object condition.target).text := by
  have positive := List.length_pos_iff.mpr (Text.split_ne_nil '.' condition.target.path.text)
  rcases Nat.exists_eq_add_one.mpr positive with ⟨depth, length⟩
  have whole : ".".intercalate (Text.split '.' condition.target.path.text) =
      condition.target.path.text := Text.intercalate_split '.' _
  rw [text_levels, length, List.range_succ, List.map_append, List.map_singleton,
    List.getLast?_append, List.getLast?_singleton, Option.some_or, ← length, List.take_length,
    whole, text_access filed]

end ResolvedCondition

/--
Whether the paths of a part of a resource differ by more than letter case, and no name in them
holds a dot.
-/
structure Resource.Unambiguous (resource : Resource) (root : FieldRoot) : Prop where
  apart : ∀ left ∈ (resource.fields root).values, ∀ right ∈ (resource.fields root).values,
    Text.equalIgnoringCase left.path.text right.path.text = true → left.path.text = right.path.text
  noDots : ∀ field ∈ (resource.fields root).values, ∀ segment ∈ field.path.segments,
    '.' ∉ segment.toList

namespace ResolvedCondition

variable {definition : ResourceDefinition} {settings : Settings} {normalizer : Normalizer}
  {resource : Resource} {condition : ResolvedCondition} {below : List String}

/-- Where paths differ by more than letter case, only fields that lead to the last one are found. -/
theorem leads_of_unambiguous
    (joined : Resource.ofDefinition definition settings normalizer = .ok resource)
    (looksUp : LooksUp resource below condition)
    (unambiguous : resource.Unambiguous condition.root) :
    ∀ parent ∈ condition.parents,
      Text.split '.' parent.path.text <+: Text.split '.' condition.target.path.text := by
  intro parent isParent
  rcases exists_left_of_mem looksUp.lookups (List.mem_append_left _ isParent) with
    ⟨depth, _, found⟩
  have isTarget := (Resource.similar_of_field? joined looksUp.last).1
  rcases Resource.similar_of_field? joined found with ⟨isValue, _⟩
  have isPath : below.take (depth + 1) ≠ [] := by
    simp [looksUp.nonempty]
  have parentCut := (looksUp.field joined isPath (fun _ => List.mem_of_mem_take) found).2
  have targetCut := looksUp.field joined looksUp.nonempty (fun _ => id) looksUp.last
  have segments : Text.split '.' condition.target.path.text = condition.target.path.segments :=
    Text.split_intercalate targetCut.1 (unambiguous.noDots _ isTarget)
  rcases Resource.exists_containing joined isTarget (Or.inr looksUp.scalar) (Nat.succ_pos depth)
    with ⟨outer, isOuter, outerText⟩
  have isLeading : condition.target.path.segments.take (depth + 1) ≠ [] := by
    simp [targetCut.1]
  have outerCut : Text.split '.' outer.path.text =
      condition.target.path.segments.take (depth + 1) := by
    rw [outerText]
    exact Text.split_intercalate isLeading (fun segment isSegment =>
      unambiguous.noDots _ isTarget segment (List.mem_of_mem_take isSegment))
  -- Both have the leading part of the configured path, so that they differ in letter case at most.
  have similar : Text.equalIgnoringCase parent.path.text outer.path.text = true := by
    rw [Text.equalIgnoringCase_iff_split, parentCut, outerCut, ← segments, List.map_take,
      List.map_take, targetCut.2]
  have same := unambiguous.apart parent isValue outer isOuter similar
  rw [same, outerCut, segments]
  exact List.take_prefix (depth + 1) _

end ResolvedCondition

namespace Synced

variable {definition : ResourceDefinition} {settings : Settings} {normalizer : Normalizer}
  {resource : Resource} {object : String}

/-- Conditions are resolved in their order, and each has a variable of its own. -/
theorem exists_resolved {given : List SyncedCondition} {index : Nat} {taken : List String}
    {codes : List Code} (written : codeFrom resource object index taken given = .ok codes) :
    ∃ (conditions : List ResolvedCondition) (names : List String),
      names.length = conditions.length ∧
      (given.zipIdx index).mapM (fun entry => ResolvedCondition.resolve resource entry.2 entry.1) =
        .ok conditions ∧
      codes = (conditions.zip names).flatMap (fun entry => entry.1.code object entry.2) := by
  rw [codeFrom_eq] at written
  rcases Outcome.of_bind_eq_ok written with ⟨conditions, areResolved, made⟩
  cases made
  refine ⟨conditions, _, ?_, areResolved, rfl⟩
  rw [length_freshNames, List.length_map]

/--
Every condition of a resource is guarded at all levels exactly if the fields that are found on the
way lead to the one that is read. They do so where paths differ by more than letter case.
-/
theorem guarded_iff (joined : Resource.ofDefinition definition settings normalizer = .ok resource)
    {level : Nat} {text : String} (rendered : render resource object level = .ok text) :
    ∃ (conditions : List ResolvedCondition) (names : List String),
      names.length = conditions.length ∧
      resource.settings.syncedConditions.zipIdx.mapM (fun entry =>
        ResolvedCondition.resolve resource entry.2 entry.1) = .ok conditions ∧
      text = Code.renderBehindBlank
        ((conditions.zip names).flatMap (fun entry => entry.1.code object entry.2)) level ∧
      ∀ condition ∈ conditions, ∀ name,
        ((condition.levels object).map Access.text).getLast? =
          some (condition.access object condition.target).text ∧
        (condition.IsGuarded object name ↔ ∀ parent ∈ condition.parents,
          Text.split '.' parent.path.text <+: Text.split '.' condition.target.path.text) ∧
        (resource.Unambiguous condition.root → condition.IsGuarded object name) := by
  rcases Outcome.of_bind_eq_ok rendered with ⟨codes, written, made⟩
  cases made
  rcases exists_resolved written with ⟨conditions, names, length, areResolved, rfl⟩
  refine ⟨conditions, names, length, areResolved, rfl, ?_⟩
  intro condition listed name
  rcases exists_left_of_mem (Outcome.forall₂_of_mapM_eq_ok areResolved) listed with
    ⟨_, _, resolved⟩
  rcases ResolvedCondition.looksUp_of_resolve resolved with ⟨below, looksUp⟩
  have filed := (looksUp.field joined looksUp.nonempty (fun _ => id) looksUp.last).1
  have guarded := ResolvedCondition.isGuarded_iff joined looksUp object name
  refine ⟨ResolvedCondition.getLast?_levels filed object, guarded, ?_⟩
  intro unambiguous
  exact guarded.mpr (ResolvedCondition.leads_of_unambiguous joined looksUp unambiguous)

/-- Desired state with two structures whose names differ in letter case only. -/
def catalogDefinition : ResourceDefinition where
  name := "Catalog"
  spec := .struct "CatalogSpec" [
    ("Table", .struct "Table" [("Status", Shape.scalarOf .string)]),
    ("TABLE", .struct "TableState" [("State", Shape.scalarOf .string)])]
  status := none
  operations := ∅

/-- A condition on a member of the second structure. -/
def stateCondition : SyncedCondition where
  path := some "Spec.table.state"
  values := some [.text "ACTIVE"]

/-- Settings with this condition only. -/
def catalogSettings : Settings where
  resources := .ofList [("Catalog", { syncedConditions := [stateCondition] })]

/-- The first structure is tested for presence, and the second one is read. -/
theorem guarded_iff_catalog : ∃ resource,
    Resource.ofDefinition catalogDefinition catalogSettings .default = .ok resource ∧
    ∃ text, render resource "r.ko" 1 = .ok text ∧
    ∃ condition, ResolvedCondition.resolve resource 0 stateCondition = .ok condition ∧
      condition.parents.map (fun parent => parent.path.text) = ["Table"] ∧
      condition.target.path.text = "TABLE.State" ∧
      ∀ name, ¬condition.IsGuarded "r.ko" name := by
  have facts : ∃ resource ∈
        (Resource.ofDefinition catalogDefinition catalogSettings .default).toOption,
      (render resource "r.ko" 1).toOption.isSome = true ∧
      ∃ condition ∈ (ResolvedCondition.resolve resource 0 stateCondition).toOption,
        condition.parents.map (fun parent => parent.path.text) = ["Table"] ∧
        condition.target.path.text = "TABLE.State" := by
    decide +kernel
  rcases facts with ⟨resource, made, renders, condition, resolves, parents, target⟩
  have joined := Outcome.of_mem_toOption made
  have resolved := Outcome.of_mem_toOption resolves
  rcases Option.isSome_iff_exists.mp renders with ⟨text, isText⟩
  have rendered := Outcome.of_mem_toOption isText
  refine ⟨resource, joined, text, rendered, condition, resolved, parents, target, ?_⟩
  intro name guarded
  rcases guarded_iff joined rendered with ⟨conditions, _, _, areResolved, _, each⟩
  have given : resource.settings.syncedConditions = [stateCondition] := by
    rw [Resource.settings_of_ofDefinition joined]
    rfl
  rw [given, List.zipIdx_singleton, List.mapM_cons, resolved] at areResolved
  cases areResolved
  have leads := (each condition List.mem_cons_self name).2.1.mp guarded
  have isParent : "Table" ∈ condition.parents.map (fun parent => parent.path.text) := by
    rw [parents]
    exact List.mem_cons_self
  rcases List.mem_map.mp isParent with ⟨parent, listed, isTable⟩
  have leading := leads parent listed
  rw [isTable, target] at leading
  exact absurd leading (by decide)

end Synced

end Reconcile
