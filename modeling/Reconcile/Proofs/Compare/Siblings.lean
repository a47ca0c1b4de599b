import Reconcile.Proofs.Compare.Records
import Reconcile.Proofs.Compare.References

/-!
# Order of siblings

Difference code records the outermost fields in the order of their exported names, but the members
of a structure below in the order of their schema names. The members of a structure come in the
order of their exported names as well exactly if both orders agree on those that are not left out
(`Delta.siblings_recorded`).
-/

namespace Reconcile

namespace Resource

/-- The outermost fields that comparisons do not leave out, as they are taken in turn. -/
def retainedFields (resource : Resource) : List Field :=
  resource.topLevelFields.filter (fun field => !resource.isCompareIgnored field.path)

/--
The members of a structure at a path that comparisons do not leave out, as they are taken in turn.
-/
def retainedMembers (resource : Resource) (normalizer : Normalizer) (path : FieldPath)
    (members : List (String × Shape)) : List (String × Shape) :=
  (Text.sortedBy Prod.fst members).filter (fun member =>
    !resource.isCompareIgnored (path.child (normalizer member.1).exported))

end Resource

namespace Delta

/--
Whether texts record paths one after the other, each path first and then only what is below it.
-/
inductive RecordInTurn (first second : String) : List FieldPath → List String → Prop
  | nil : RecordInTurn first second [] []
  | cons {path : FieldPath} {paths : List FieldPath} {below texts : List String}
      (inner : ∀ text ∈ below, ∃ steps, text = record first second ⟨path.segments ++ steps⟩)
      (others : RecordInTurn first second paths texts) :
      RecordInTurn first second (path :: paths) (record first second path :: (below ++ texts))

/-- Checks of items one after the other record the items that are not left out in turn. -/
theorem recordInTurn_flatMap {α : Type} {first second : String} {items : List α}
    (isIgnored : α → Bool) (siteOf : α → Site) (checks : α → List Check)
    (ignored : ∀ item, isIgnored item = true → checks item = [])
    (retained : ∀ item, isIgnored item = false → Check.VisitFrom (siteOf item) (checks item))
    (aligned : ∀ item ∈ items, Aligned first second (siteOf item)) :
    RecordInTurn first second
      ((items.filter (fun item => !isIgnored item)).map (fun item => (siteOf item).path))
      ((Check.sitesOf (items.flatMap checks)).map action) := by
  induction items with
  | nil => exact .nil
  | cons item rest ih =>
      rw [List.forall_mem_cons] at aligned
      have others := ih aligned.2
      rw [List.flatMap_cons, Check.sitesOf_append, List.map_append]
      cases isItem : isIgnored item with
      | true =>
          rw [ignored item isItem, List.filter_cons_of_neg (by simp [isItem])]
          exact others
      | false =>
          rcases retained item isItem with ⟨below, visited, inner⟩
          rw [visited, List.filter_cons_of_pos (by simp [isItem]), List.map_cons, List.map_cons,
            List.cons_append, aligned.1.action_eq]
          refine .cons ?_ others
          intro text isText
          rcases List.mem_map.mp isText with ⟨site, isBelow, rfl⟩
          rcases inner site isBelow with ⟨steps, rfl⟩
          refine ⟨steps, ?_⟩
          rw [(aligned.1.descend steps).action_eq, ← segments_descend]

section

variable {definition : ResourceDefinition} {settings : Settings} {joining normalizer : Normalizer}
  {resource : Resource} {tag : Option Field} {first second : String}

theorem recordInTurn_resource
    (joined : Resource.ofDefinition definition settings joining = .ok resource) :
    RecordInTurn first second
      (resource.retainedFields.map (fun field => ⟨[field.names.exported]⟩))
      ((Check.sitesOf ((strategy resource normalizer (tag.map Field.path)).resource resource first
        second)).map action) := by
  have filed := Resource.filed_specFields joined
  have paths : resource.retainedFields.map (fun field => (⟨[field.names.exported]⟩ : FieldPath)) =
      resource.retainedFields.map (fun field => (fieldSite first second field).path) := by
    apply List.map_congr_left
    intro field isRetained
    exact (Resource.path_topLevelFields filed (List.mem_of_mem_filter isRetained)).symm
  rw [paths, resource_eq_flatMap, Resource.retainedFields]
  apply recordInTurn_flatMap (fun field => resource.isCompareIgnored field.path)
    (fieldSite first second)
    (fun field => (strategy resource normalizer (tag.map Field.path)).outermost field
      (fieldSite first second field))
  · intro field ignored
    exact outermost_of_ignored ignored
  · intro field notIgnored
    exact visitFrom_outermost notIgnored
  · intro field isTop
    exact aligned_outermost first second filed isTop

theorem recordInTurn_body (resource : Resource) (normalizer : Normalizer) (tag : Option Field)
    {site : Site} (aligned : Aligned first second site)
    (name : String) (members : List (String × Shape)) :
    RecordInTurn first second
      ((resource.retainedMembers normalizer site.path members).map (fun member =>
        site.path.child (normalizer member.1).exported))
      ((Check.sitesOf ((strategy resource normalizer (tag.map Field.path)).body
        (.struct name members) site)).map action) := by
  rw [Strategy.body_struct]
  exact recordInTurn_flatMap
    (fun member : String × Shape =>
      resource.isCompareIgnored (site.path.child (normalizer member.1).exported))
    (fun member => site.member (normalizer member.1).exported)
    (fun member => ((strategy resource normalizer (tag.map Field.path)).memberEntry site member).2)
    (fun _ ignored => member_of_ignored ignored)
    (fun _ notIgnored => visitFrom_member notIgnored)
    (fun _ _ => aligned.member _)

end

/--
What is recorded of the outermost fields comes in the order of their exported names, and what is
recorded of the members of a structure below in the order of their schema names. So the members
come in the order of their exported names exactly if the order of names is the same in the schema.
-/
theorem siblings_recorded {definition : ResourceDefinition} {settings : Settings}
    {joining normalizer : Normalizer} {resource : Resource} {first second text : String}
    {level : Nat} (joined : Resource.ofDefinition definition settings joining = .ok resource)
    (written : compareResource resource normalizer first second level = .ok text) :
    ∃ lines, text = (Page.empty.write lines).text ∧
      (resource.Named Text.IsWord (Shape.Named normalizer (fun _ => True) Text.IsWord) →
        Text.IsDotted first → Text.IsDotted second → Line.readAll text = lines) ∧
      RecordInTurn first second
        (resource.retainedFields.map (fun field => ⟨[field.names.exported]⟩)) (recorded lines) ∧
      Text.Ascending (fun field => field.names.exported) resource.retainedFields ∧
      ∀ path name members, resource.Enters normalizer path (.struct name members) →
        (∃ before texts after, recorded lines = before ++ texts ++ after ∧
          RecordInTurn first second
            ((resource.retainedMembers normalizer path members).map (fun member =>
              path.child (normalizer member.1).exported)) texts) ∧
        (Text.Ascending (fun member => (normalizer member.1).exported)
            (resource.retainedMembers normalizer path members) ↔
          ∀ left ∈ resource.retainedMembers normalizer path members,
            ∀ right ∈ resource.retainedMembers normalizer path members,
              left.1 ≤ right.1 → (normalizer left.1).exported ≤ (normalizer right.1).exported) := by
  have filed := Resource.filed_specFields joined
  rcases planned_of_written written with ⟨tag, found, rendered⟩
  refine ⟨_, rendered.trans (Code.renderBehindBlank_eq _ _), ?_, ?_, ?_, ?_⟩
  · intro named firstDotted secondDotted
    exact readAll_of_found found named firstDotted secondDotted written
  · rw [recorded_resource]
    exact recordInTurn_resource joined
  · exact (Text.sortedBy_ascending _).filter _
  · intro path name members enters
    constructor
    · rcases Strategy.exists_fill_resource (observes resource normalizer tag) found enters first
        second with ⟨context, field, isTop, steps, segments, planned⟩
      rcases context.exists_sitesOf_fill with ⟨before, after, visited⟩
      have samePath : ((fieldSite first second field).descend steps).path = path := by
        apply congrArg FieldPath.mk
        rw [segments_descend, segments]
        rfl
      have aligned := (aligned_outermost first second filed isTop).descend steps
      have inTurn := recordInTurn_body resource normalizer tag aligned name members
      rw [samePath] at inTurn
      refine ⟨before.map action, _, after.map action, ?_, inTurn⟩
      rw [recorded_resource, planned, visited, List.map_append, List.map_append]
    · apply Text.ascending_iff ((Text.sortedBy_ascending members).filter _)
      intro left _ right _ same
      rw [same]

/-- A definition with members whose schema names and exported names are in different orders. -/
def casedDefinition : ResourceDefinition where
  name := "Thing"
  spec := .struct "ThingSpec" [
    ("Config", .struct "Config" [
      ("alpha", Shape.scalarOf .string), ("Beta", Shape.scalarOf .string)])]
  status := none
  operations := ∅

/-- Small letters come behind capitals, so that `Config.Beta` is recorded before `Config.Alpha`. -/
theorem siblings_recorded_cased :
    ∃ resource text members,
      Resource.ofDefinition casedDefinition {} .default = .ok resource ∧
      compareResource resource .default "a.ko" "b.ko" 1 = .ok text ∧
      resource.Enters .default ⟨["Config"]⟩ (.struct "Config" members) ∧
      (∃ before texts after, recorded (Line.readAll text) = before ++ texts ++ after ∧
        RecordInTurn "a.ko" "b.ko" [⟨["Config", "Beta"]⟩, ⟨["Config", "Alpha"]⟩] texts) ∧
      ¬Text.Ascending (fun member => (Normalizer.default member.1).exported)
        (resource.retainedMembers .default ⟨["Config"]⟩ members) := by
  have facts : ∃ resource ∈ (Resource.ofDefinition casedDefinition {} .default).toOption,
      resource.Named Text.IsWord (Shape.Named .default (fun _ => True) Text.IsWord) ∧
        (compareResource resource .default "a.ko" "b.ko" 1).toOption.isSome = true ∧
          (∃ field ∈ resource.topLevelFields, field.isReference = false ∧
            field.path = ⟨["Config"]⟩) ∧
            resource.isCompareIgnored ⟨["Config"]⟩ = false ∧
            (∃ tag ∈ resource.tagField.toOption, tag.isNone = true) ∧
            (resource.retainedMembers .default ⟨["Config"]⟩
              [("alpha", Shape.scalarOf .string), ("Beta", Shape.scalarOf .string)]).map
                (fun member => (Normalizer.default member.1).exported) = ["Beta", "Alpha"] := by
    decide +kernel
  rcases facts with ⟨resource, made, named, succeeds, ⟨field, isTop, noReference, path⟩, retained,
    ⟨tag, isTag, noTags⟩, names⟩
  rcases Option.isSome_iff_exists.mp succeeds with ⟨text, given⟩
  have joined := Outcome.of_mem_toOption made
  have written := Outcome.of_mem_toOption given
  have found := Outcome.of_mem_toOption isTag
  rw [Option.isNone_iff_eq_none.mp noTags] at found
  have enters := (observes resource .default none).enters_outermost found isTop noReference
    (by rw [path]; exact retained) rfl
  rcases Resource.exists_member_of_outermost joined isTop noReference with
    ⟨name, members, spec, member, listed, shape⟩
  cases spec
  rw [List.mem_singleton] at listed
  rw [path, shape, listed] at enters
  rcases siblings_recorded joined written with ⟨lines, _, isRead, _, _, below⟩
  rcases (below _ _ _ enters).1 with ⟨before, texts, after, recorded, inTurn⟩
  rw [← isRead named (by decide) (by decide)] at recorded
  refine ⟨resource, text, _, joined, written, enters, ⟨before, texts, after, recorded, ?_⟩, ?_⟩
  · have paths := congrArg (List.map (FieldPath.child ⟨["Config"]⟩)) names
    rw [List.map_map] at paths
    have inOrder := congrArg (fun paths => RecordInTurn "a.ko" "b.ko" paths texts) paths
    exact inOrder.mp inTurn
  · intro ascending
    have inOrder := List.pairwise_map.mpr ascending
    rw [names] at inOrder
    exact absurd inOrder (by decide)

end Delta

end Reconcile
