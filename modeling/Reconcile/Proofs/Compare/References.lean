import Reconcile.Proofs.Compare.Entering

/-!
# References in difference code

Reference fields are added to the fields of a resource and not to its shapes. Difference code
starts from the outermost fields and walks shapes from there, so that it records a change of
an outermost reference field, but of a nested one only if the definition declares a member in
its place (`reference_recorded_iff`).
-/

namespace Reconcile

/-- Whether members of structures lead to a path from an outermost field that is no reference. -/
def Resource.Declares (resource : Resource) (normalizer : Normalizer) (path : FieldPath) : Prop :=
  ∃ field ∈ resource.topLevelFields, field.isReference = false ∧
    ∃ steps, field.shape.Reaches normalizer steps ∧ path.segments = field.path.segments ++ steps

namespace Delta

variable {definition : ResourceDefinition} {settings : Settings} {normalizer : Normalizer}
  {resource : Resource} {field : Field} {tag : Option Field}

/-- What is not left out on the way to a path is admitted on it. -/
theorem admits_of_past {path : FieldPath} {steps : List String}
    (found : resource.tagField = .ok tag) (isTop : field ∈ resource.topLevelFields)
    (segments : path.segments = field.path.segments ++ steps)
    (past : ∀ front, front ≠ [] → front <+: path.segments →
      resource.isCompareIgnored ⟨front⟩ = false ∧
        (front ≠ path.segments → ¬resource.IsTagPath ⟨front⟩)) :
    (strategy resource normalizer (tag.map Field.path)).Admits field.path steps := by
  have outermost := (Resource.mem_topLevelFields.mp isTop).2
  have nonempty : field.path.segments ≠ [] := by
    intro empty
    simp [FieldPath.length, empty] at outermost
  rw [Strategy.admits_iff]
  intro front isPrefix
  have here := past (field.path.segments ++ front) (by simp [nonempty])
    (by rw [segments]; exact (List.prefix_append_right_inj _).mpr isPrefix)
  refine ⟨here.1, ?_⟩
  intro proper
  have noTags := here.2 (by simpa [segments] using proper)
  rw [isTagPath_iff found] at noTags
  simpa [strategy] using noTags

/-- A field that is not left out is to be recorded only where the walk over shapes comes by. -/
theorem covers_field_iff
    (joined : Resource.ofDefinition definition settings normalizer = .ok resource)
    (found : resource.tagField = .ok tag) (listed : field ∈ resource.specFields.values)
    (past : ∀ front, front ≠ [] → front <+: field.path.segments →
      resource.isCompareIgnored ⟨front⟩ = false ∧
        (front ≠ field.path.segments → ¬resource.IsTagPath ⟨front⟩)) :
    resource.Covers normalizer (IsWhole resource) field.path ↔
      field.path.length = 1 ∨ resource.Declares normalizer field.path := by
  rw [covers_iff (Resource.filed_specFields joined) found]
  constructor
  · rintro ⟨outer, isTop, steps, reaches, _, stops, segments⟩
    cases isReference : outer.isReference with
    | false => exact Or.inr ⟨outer, isTop, isReference, steps, reaches, segments⟩
    | true =>
        -- Nothing is recorded below an outermost reference field.
        rw [stops isReference, List.append_nil] at segments
        rw [FieldPath.length, segments]
        exact Or.inl (Resource.mem_topLevelFields.mp isTop).2
  · rintro (outermost | ⟨outer, isTop, noReference, steps, reaches, segments⟩)
    · have isTop := Resource.mem_topLevelFields.mpr ⟨listed, outermost⟩
      have segments : field.path.segments = field.path.segments ++ [] := by simp
      exact ⟨field, isTop, [], .here _, admits_of_past found isTop segments past,
        fun _ => rfl, segments⟩
    · refine ⟨outer, isTop, steps, reaches, admits_of_past found isTop segments past, ?_, segments⟩
      intro isReference
      rw [noReference] at isReference
      exact Bool.noConfusion isReference

theorem planned_of_written {first second text : String} {level : Nat}
    (written : compareResource resource normalizer first second level = .ok text) :
    ∃ tag, resource.tagField = .ok tag ∧
      text = Code.renderBehindBlank (Check.codeOf action
        ((strategy resource normalizer (tag.map Field.path)).resource resource first second))
          level := by
  rcases Outcome.of_bind_eq_ok written with ⟨checks, planned, written⟩
  rcases Outcome.of_bind_eq_ok written with ⟨codes, emitted, rendered⟩
  rcases Outcome.of_bind_eq_ok planned with ⟨tag, found, made⟩
  cases made
  rw [eq_codeOf_of_emit emitted] at rendered
  exact ⟨tag, Outcome.of_mapError_eq_ok found, (Except.ok.inj rendered).symm⟩

theorem met_of_written {first second text : String} {level : Nat}
    (found : resource.tagField = .ok tag)
    (written : compareResource resource normalizer first second level = .ok text) :
    Demand.unmet? (Check.demandsOf
      ((strategy resource normalizer (tag.map Field.path)).resource resource first second)) =
        none := by
  cases unmet : Demand.unmet? (Check.demandsOf
      ((strategy resource normalizer (tag.map Field.path)).resource resource first second)) with
  | none => rfl
  | some failure =>
      rw [compareResource_of_unmet (checks_of_found found) unmet level] at written
      cases written

/--
A field that is not left out is recorded if it is outermost or the definition declares a member
in its place. Otherwise, if names and operands are of words, it is not recorded; such fields are
the nested reference fields, which are in no shape.
-/
theorem field_recorded_iff {first second text : String} {level : Nat}
    (joined : Resource.ofDefinition definition settings normalizer = .ok resource)
    (listed : field ∈ resource.specFields.values)
    (past : ∀ front, front ≠ [] → front <+: field.path.segments →
      resource.isCompareIgnored ⟨front⟩ = false ∧
        (front ≠ field.path.segments → ¬resource.IsTagPath ⟨front⟩))
    (written : compareResource resource normalizer first second level = .ok text) :
    (field.path.length = 1 ∨ resource.Declares normalizer field.path →
      ∃ lines, text = (Page.empty.write lines).text ∧
        ∃ line ∈ lines, line.text = record first second field.path) ∧
      (resource.Named Text.IsWord (Shape.Named normalizer (fun _ => True) Text.IsWord) →
        (∀ segment ∈ field.path.segments, Text.IsWord segment) →
          Text.IsDotted first → Text.IsDotted second →
            ((∃ line ∈ Line.readAll text, line.text = record first second field.path) ↔
              field.path.length = 1 ∨ resource.Declares normalizer field.path)) := by
  have filed := Resource.filed_specFields joined
  rcases planned_of_written written with ⟨tag, found, rendered⟩
  have covers := covers_field_iff joined found listed past
  have nonempty : field.path.segments ≠ [] := by
    rcases List.mem_map.mp listed with ⟨entry, isEntry, rfl⟩
    rcases (filed entry isEntry).2 with ⟨parent, path⟩
    simp [path]
  constructor
  · intro isWalked
    rcases visited_of_covers first second filed found (covers.mpr isWalked) with
      ⟨site, isVisited, same⟩
    have aligned := (covers_of_visited filed found isVisited).2
    rcases Check.exists_line_of_mem_sitesOf _ level isVisited with ⟨line, inCode, isAction⟩
    refine ⟨_, rendered.trans (Code.renderBehindBlank_eq _ _), line,
      List.mem_cons_of_mem _ inCode, ?_⟩
    rw [isAction, aligned.action_eq, same]
  · intro named words firstDotted secondDotted
    constructor
    · rintro ⟨line, membership, same⟩
      have isRecord : "delta.Add(".toList <+: line.text.toList := by
        simp [same, record_eq]
      rcases covers_of_record joined named firstDotted secondDotted written membership isRecord with
        ⟨other, isCovered, otherWords, otherNonempty, sameRecord⟩
      have sameText := text_of_record (same.symm.trans sameRecord)
      rw [← FieldPath.eq_of_text nonempty otherNonempty words otherWords sameText] at isCovered
      exact covers.mp isCovered
    · intro isWalked
      rcases visited_of_covers first second filed found (covers.mpr isWalked) with
        ⟨site, isVisited, same⟩
      rw [← same]
      exact exists_record_of_visited joined named firstDotted secondDotted written found isVisited

/-- A definition with a nested member. -/
def jwtDefinition : ResourceDefinition where
  name := "Authorizer"
  spec := .struct "AuthorizerSpec" [
    ("JWTConfiguration", .struct "JWTConfiguration" [("Issuer", Shape.scalarOf .string)])]
  status := none
  operations := ∅

/-- Settings that take the nested member from another resource. -/
def issuerFromApi : Settings where
  resources := .ofList [("Authorizer", {
    fields := .ofList [("JWTConfiguration.Issuer", {
      references := some {
        resource := "API", service := none, path := "Status.APIEndpoint",
        skipStateCheck := false } })] })]

/-- The nested reference field is not left out, but a change of it is not recorded. -/
theorem nested_reference_not_recorded :
    ∃ resource text, Resource.ofDefinition jwtDefinition issuerFromApi .default = .ok resource ∧
      compareResource resource .default "a.ko" "b.ko" 1 = .ok text ∧
        ∃ field ∈ resource.specFields.values, field.isReference = true ∧
          field.path = ⟨["JWTConfiguration", "IssuerRef"]⟩ ∧
          (∀ front, front ≠ [] → front <+: field.path.segments →
            resource.isCompareIgnored ⟨front⟩ = false ∧
              (front ≠ field.path.segments → ¬resource.IsTagPath ⟨front⟩)) ∧
            ¬∃ line ∈ Line.readAll text, line.text = record "a.ko" "b.ko" field.path := by
  have facts : ∃ resource ∈ (Resource.ofDefinition jwtDefinition issuerFromApi .default).toOption,
      resource.Named Text.IsWord (Shape.Named .default (fun _ => True) Text.IsWord) ∧
        (compareResource resource .default "a.ko" "b.ko" 1).toOption.isSome = true ∧
          (∃ field ∈ resource.specFields.values, field.isReference = true ∧
            field.path = ⟨["JWTConfiguration", "IssuerRef"]⟩) ∧
            resource.isCompareIgnored ⟨["JWTConfiguration"]⟩ = false ∧
              resource.isCompareIgnored ⟨["JWTConfiguration", "IssuerRef"]⟩ = false ∧
                ∃ tag ∈ resource.tagField.toOption, tag.isNone = true ∧
                  ∀ site ∈ Check.sitesOf ((strategy resource .default (tag.map Field.path)).resource
                    resource "a.ko" "b.ko"), site.path ≠ ⟨["JWTConfiguration", "IssuerRef"]⟩ := by
    decide +kernel
  rcases facts with ⟨resource, made, named, succeeds, ⟨field, listed, isReference, path⟩,
    outerKept, innerKept, tag, isTag, noTags, unvisited⟩
  rcases Option.isSome_iff_exists.mp succeeds with ⟨text, given⟩
  have joined := Outcome.of_mem_toOption made
  have written := Outcome.of_mem_toOption given
  have found := Outcome.of_mem_toOption isTag
  have past : ∀ front, front ≠ [] → front <+: field.path.segments →
      resource.isCompareIgnored ⟨front⟩ = false ∧
        (front ≠ field.path.segments → ¬resource.IsTagPath ⟨front⟩) := by
    intro front nonempty isPrefix
    have isFront : front = ["JWTConfiguration"] ∨ front = ["JWTConfiguration", "IssuerRef"] := by
      rw [path] at isPrefix
      rcases List.prefix_cons_iff.mp isPrefix with rfl | ⟨rest, rfl, inner⟩
      · exact absurd rfl nonempty
      · simpa [List.prefix_cons_iff] using inner
    refine ⟨?_, ?_⟩
    · rcases isFront with rfl | rfl
      · exact outerKept
      · exact innerKept
    · rw [isTagPath_iff found, Option.isNone_iff_eq_none.mp noTags]
      simp
  refine ⟨resource, text, joined, written, field, listed, isReference, path, past, ?_⟩
  intro recorded
  have words : ∀ segment ∈ field.path.segments, Text.IsWord segment := by
    rw [path]
    decide
  have isWalked := ((field_recorded_iff joined listed past written).2 named words (by decide)
    (by decide)).mp recorded
  have covers := (covers_field_iff joined found listed past).mpr isWalked
  rcases visited_of_covers "a.ko" "b.ko" (Resource.filed_specFields joined) found covers with
    ⟨site, isVisited, same⟩
  exact unvisited site isVisited (same.trans path)

end Delta

end Reconcile
