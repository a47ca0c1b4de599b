import Reconcile.Proofs.Compare.Recording
import Reconcile.Proofs.Compare.Visiting
import Reconcile.Proofs.Resource.Registration

/-!
# Coverage of difference code

Difference code records exactly the paths that lead from an outermost field through members of
structures, past no ignored path and no further than the tags or a reference field
(`records_iff_covered`).
-/

namespace Reconcile

namespace Resource

/-- Whether the tags are at a path. -/
def IsTagPath (resource : Resource) (path : FieldPath) : Prop :=
  ∃ field, resource.tagField = .ok (some field) ∧ field.path = path

/-- Whether a reference field is at a path. -/
def IsReferencePath (resource : Resource) (path : FieldPath) : Prop :=
  ∃ field ∈ resource.specFields.values, field.path = path ∧ field.isReference = true

/--
Whether difference code has to record a path: it leads from an outermost field through members
of structures, it neither is ignored nor leads past an ignored path, and it leads past none of
the paths whose values are compared as a whole.
-/
structure Covers (resource : Resource) (normalizer : Normalizer) (isWhole : FieldPath → Prop)
    (path : FieldPath) : Prop where
  leads : ∃ field ∈ resource.specFields.values, field.path.length = 1 ∧
    ∃ steps, field.shape.Reaches normalizer steps ∧ path.segments = field.path.segments ++ steps
  past : ∀ front, front ≠ [] → front <+: path.segments →
    resource.isCompareIgnored ⟨front⟩ = false ∧ (front ≠ path.segments → ¬isWhole ⟨front⟩)

end Resource

namespace FieldPath

theorem text_append {path : FieldPath} {steps : List String} (nonempty : path.segments ≠ [])
    (more : steps ≠ []) :
    (⟨path.segments ++ steps⟩ : FieldPath).text =
      path.text ++ "." ++ (⟨steps⟩ : FieldPath).text := by
  simp [text, String.intercalate_append_of_ne_nil nonempty more]

theorem text_child {path : FieldPath} (nonempty : path.segments ≠ []) (name : String) :
    (path.child name).text = path.text ++ "." ++ name :=
  text_append nonempty (List.cons_ne_nil name [])

/-- A path of words is found again when its text is cut at the dots. -/
theorem split_text {path : FieldPath} (nonempty : path.segments ≠ [])
    (words : ∀ segment ∈ path.segments, Text.IsWord segment) :
    Text.split '.' path.text = path.segments :=
  Text.split_intercalate nonempty
    (fun segment membership => (words segment membership).not_mem (by decide))

/-- Paths of words with one text are one path. -/
theorem eq_of_text {left right : FieldPath} (leftNonempty : left.segments ≠ [])
    (rightNonempty : right.segments ≠ [])
    (leftWords : ∀ segment ∈ left.segments, Text.IsWord segment)
    (rightWords : ∀ segment ∈ right.segments, Text.IsWord segment) (same : left.text = right.text) :
    left = right := by
  apply congrArg FieldPath.mk
  rw [← split_text leftNonempty leftWords, ← split_text rightNonempty rightWords, same]

/-- One path of words leads to another one exactly if their texts say so. -/
theorem isPrefix_iff_text {outer path : FieldPath} (outerNonempty : outer.segments ≠ [])
    (nonempty : path.segments ≠ []) (outerWords : ∀ segment ∈ outer.segments, Text.IsWord segment)
    (words : ∀ segment ∈ path.segments, Text.IsWord segment) :
    outer.segments <+: path.segments ↔
      path.text = outer.text ∨ (outer.text ++ ".").toList <+: path.text.toList := by
  constructor
  · rintro ⟨steps, segments⟩
    have same : path = ⟨outer.segments ++ steps⟩ := congrArg FieldPath.mk segments.symm
    by_cases isEnd : steps = []
    · subst isEnd
      rw [List.append_nil] at same
      exact Or.inl (congrArg text same)
    · rw [same, text_append outerNonempty isEnd]
      exact Or.inr (by simp)
  · rintro (sameText | ⟨rest, isText⟩)
    · have same := eq_of_text nonempty outerNonempty words outerWords sameText
      exact same ▸ List.prefix_refl _
    · -- Cut at the dots, the longer text begins with the pieces of the shorter one.
      have longer : path.text = outer.text ++ String.singleton '.' ++ String.ofList rest := by
        rw [← String.toList_inj, ← isText]
        simp
      rw [← split_text outerNonempty outerWords, ← split_text nonempty words, longer,
        Text.split_append]
      exact List.prefix_append _ _

/-- Paths of words with one text go on with the same step where they have led to the same value. -/
theorem next_eq_of_text {left right : FieldPath} {outer leftSteps rightSteps : List String}
    {leftNext rightNext : String} (leftSegments : left.segments = outer ++ leftNext :: leftSteps)
    (rightSegments : right.segments = outer ++ rightNext :: rightSteps)
    (leftWords : ∀ segment ∈ left.segments, Text.IsWord segment)
    (rightWords : ∀ segment ∈ right.segments, Text.IsWord segment)
    (same : left.text = right.text) : leftNext = rightNext := by
  have equal := eq_of_text (by simp [leftSegments]) (by simp [rightSegments]) leftWords rightWords
    same
  rw [equal, rightSegments] at leftSegments
  exact (List.cons.inj (List.append_cancel_left leftSegments)).1.symm

end FieldPath

namespace Delta

/-- The line that records a difference at a path. -/
def record (first second : String) (path : FieldPath) : String :=
  "delta.Add(\"Spec." ++ path.text ++ "\", " ++ first ++ ".Spec." ++ path.text ++ ", " ++
    second ++ ".Spec." ++ path.text ++ ")"

theorem record_eq (first second : String) (path : FieldPath) :
    record first second path = "delta.Add(\"Spec." ++ path.text ++ "\", " ++ first ++ ".Spec." ++
      path.text ++ ", " ++ second ++ ".Spec." ++ path.text ++ ")" := rfl

theorem text_of_record {first second : String} {left right : FieldPath}
    (same : record first second left = record first second right) : left.text = right.text := by
  -- The path stands three times in a record, so that its length is known from that of the record.
  have lengths := congrArg String.length same
  simp only [record_eq, String.length_append] at lengths
  have equal : left.text.toList.length = right.text.toList.length := by
    simp only [String.length_toList]
    omega
  rw [record_eq, record_eq, ← String.toList_inj] at same
  simp only [String.toList_append, List.append_assoc] at same
  have behind := List.append_cancel_left same
  exact String.toList_inj.mp (List.append_inj_left behind equal)

/-- Whether the expressions of a site reach its path below the desired states. -/
structure Aligned (first second : String) (site : Site) : Prop where
  nonempty : site.path.segments ≠ []
  firstText : site.first.text = first ++ ".Spec." ++ site.path.text
  secondText : site.second.text = second ++ ".Spec." ++ site.path.text

theorem Aligned.member {first second : String} {site : Site} (aligned : Aligned first second site)
    (name : String) : Aligned first second (site.member name) where
  nonempty := by simp [Site.member]
  firstText := by
    simp only [Site.member, Access.text, FieldPath.text_child aligned.nonempty, aligned.firstText,
      String.append_assoc]
  secondText := by
    simp only [Site.member, Access.text, FieldPath.text_child aligned.nonempty,
      aligned.secondText, String.append_assoc]

theorem Aligned.descend {first second : String} {site : Site}
    (aligned : Aligned first second site) (steps : List String) :
    Aligned first second (site.descend steps) := by
  induction steps generalizing site with
  | nil => exact aligned
  | cons name rest ih => exact ih (aligned.member name)

theorem segments_descend (site : Site) (steps : List String) :
    (site.descend steps).path.segments = site.path.segments ++ steps := by
  induction steps generalizing site with
  | nil => simp [Site.descend]
  | cons name rest ih =>
      have later := ih (site.member name)
      simpa [Site.descend, Site.member] using later

theorem Aligned.action_eq {first second : String} {site : Site}
    (aligned : Aligned first second site) : action site = record first second site.path := by
  rw [Delta.action_eq, record_eq, aligned.firstText, aligned.secondText, ← String.toList_inj]
  simp

theorem aligned_fieldSite {first second : String} {field : Field} (filed : field.IsFiled)
    (outermost : field.path.length = 1) :
    Aligned first second (fieldSite first second field) := by
  have segments := filed.segments outermost
  have pathText := filed.text outermost
  rcases Site.text_ofSpec first second with ⟨firstText, secondText⟩
  refine ⟨by simp [fieldSite, segments], ?_, ?_⟩
  · simp [fieldSite, Access.text, firstText, pathText, ← String.toList_inj]
  · simp [fieldSite, Access.text, secondText, pathText, ← String.toList_inj]

theorem aligned_outermost {resource : Resource} {field : Field} (first second : String)
    (filed : ∀ entry ∈ resource.specFields.entries, entry.1 = entry.2.path.text ∧ entry.2.IsFiled)
    (isTop : field ∈ resource.topLevelFields) :
    Aligned first second (fieldSite first second field) := by
  rcases Resource.mem_topLevelFields.mp isTop with ⟨isValue, outermost⟩
  rcases List.mem_map.mp isValue with ⟨entry, isEntry, rfl⟩
  exact aligned_fieldSite (filed entry isEntry).2 outermost

/-- Whether the value at a path is compared as a whole: the tags or an outermost reference field. -/
def IsWhole (resource : Resource) (path : FieldPath) : Prop :=
  resource.IsTagPath path ∨ (path.length = 1 ∧ resource.IsReferencePath path)

section

variable {resource : Resource} {normalizer : Normalizer} {tag : Option Field} {path : FieldPath}

theorem isTagPath_iff (found : resource.tagField = .ok tag) :
    resource.IsTagPath path ↔ tag.map Field.path = some path := by
  rw [Option.map_eq_some_iff]
  constructor
  · rintro ⟨field, isTag, same⟩
    rw [found] at isTag
    exact ⟨field, Except.ok.inj isTag, same⟩
  · rintro ⟨field, rfl, same⟩
    exact ⟨field, found, same⟩

/-- Only the outermost field at a path says whether a reference field is there. -/
theorem isReferencePath_iff
    (filed : ∀ entry ∈ resource.specFields.entries, entry.1 = entry.2.path.text ∧ entry.2.IsFiled)
    {field : Field} (listed : field ∈ resource.specFields.values) :
    resource.IsReferencePath field.path ↔ field.isReference = true := by
  constructor
  · rintro ⟨other, otherListed, same, isReference⟩
    rwa [← Resource.eq_of_path filed otherListed listed same]
  · intro isReference
    exact ⟨field, listed, rfl, isReference⟩

/-- A step out of an outermost field is admitted exactly if the paths behind it are. -/
theorem past_iff
    (filed : ∀ entry ∈ resource.specFields.entries, entry.1 = entry.2.path.text ∧ entry.2.IsFiled)
    (found : resource.tagField = .ok tag) {field : Field}
    (listed : field ∈ resource.specFields.values) {name : String} {steps : List String}
    (outermost : field.path = ⟨[name]⟩) :
    (∀ front, front ≠ [] → front <+: name :: steps →
      resource.isCompareIgnored ⟨front⟩ = false ∧
        (front ≠ name :: steps → ¬IsWhole resource ⟨front⟩)) ↔
      (strategy resource normalizer (tag.map Field.path)).Admits field.path steps ∧
        (field.isReference = true → steps = []) := by
  have isReference := isReferencePath_iff filed listed
  rw [outermost] at isReference
  have isTag : ∀ front,
      (strategy resource normalizer (tag.map Field.path)).isTagField front = false ↔
        ¬resource.IsTagPath front := by
    intro front
    rw [isTagPath_iff found]
    simp [strategy]
  rw [Strategy.admits_iff, outermost]
  simp only [isTag]
  constructor
  · intro past
    refine ⟨?_, ?_⟩
    · intro front isPrefix
      have here := past (name :: front) (by simp) (List.cons_prefix_cons.mpr ⟨rfl, isPrefix⟩)
      exact ⟨here.1, fun different tags => here.2 (by simpa using different) (Or.inl tags)⟩
    · intro reference
      cases steps with
      | nil => rfl
      | cons next rest =>
          exfalso
          have here := past [name] (by simp) (List.cons_prefix_cons.mpr ⟨rfl, List.nil_prefix⟩)
          exact here.2 (by simp) (Or.inr ⟨rfl, isReference.mpr reference⟩)
  · rintro ⟨admits, stops⟩ front nonempty isPrefix
    rcases List.prefix_cons_iff.mp isPrefix with rfl | ⟨left, rfl, leftPrefix⟩
    · exact absurd rfl nonempty
    · have here := admits left leftPrefix
      refine ⟨here.1, ?_⟩
      rintro different (tags | ⟨single, reference⟩)
      · exact here.2 (fun same => different (by rw [same])) tags
      · have noMore : left = [] := by simpa [FieldPath.length] using single
        subst noMore
        rw [isReference] at reference
        exact different (by rw [stops reference])

/-- The paths to record are those of the fields that checks visit. -/
theorem covers_iff
    (filed : ∀ entry ∈ resource.specFields.entries, entry.1 = entry.2.path.text ∧ entry.2.IsFiled)
    (found : resource.tagField = .ok tag) :
    resource.Covers normalizer (IsWhole resource) path ↔
      ∃ field ∈ resource.topLevelFields, ∃ steps, field.shape.Reaches normalizer steps ∧
        (strategy resource normalizer (tag.map Field.path)).Admits field.path steps ∧
          (field.isReference = true → steps = []) ∧
            path.segments = field.path.segments ++ steps := by
  constructor
  · rintro ⟨⟨field, listed, outermost, steps, reaches, segments⟩, past⟩
    have isTop := Resource.mem_topLevelFields.mpr ⟨listed, outermost⟩
    have single := Resource.path_topLevelFields filed isTop
    rw [segments, single] at past
    rcases (past_iff filed found listed single).mp past with ⟨admits, stops⟩
    exact ⟨field, isTop, steps, reaches, admits, stops, segments⟩
  · rintro ⟨field, isTop, steps, reaches, admits, stops, segments⟩
    have single := Resource.path_topLevelFields filed isTop
    rcases Resource.mem_topLevelFields.mp isTop with ⟨listed, outermost⟩
    refine ⟨⟨field, listed, outermost, steps, reaches, segments⟩, ?_⟩
    rw [segments, single]
    exact (past_iff filed found listed single).mpr ⟨admits, stops⟩

end

theorem covers_of_visited {resource : Resource} {normalizer : Normalizer} {tag : Option Field}
    {first second : String} {site : Site}
    (filed : ∀ entry ∈ resource.specFields.entries, entry.1 = entry.2.path.text ∧ entry.2.IsFiled)
    (found : resource.tagField = .ok tag)
    (isVisited : site ∈ Check.sitesOf
      ((strategy resource normalizer (tag.map Field.path)).resource resource first second)) :
    resource.Covers normalizer (IsWhole resource) site.path ∧ Aligned first second site := by
  rcases mem_sitesOf_resource.mp isVisited with ⟨field, isTop, steps, reaches, admits, stops, rfl⟩
  refine ⟨(covers_iff filed found).mpr ⟨field, isTop, steps, reaches, admits, stops, ?_⟩, ?_⟩
  · rw [segments_descend]
    rfl
  · exact (aligned_outermost first second filed isTop).descend steps

theorem action_of_visited {definition : ResourceDefinition} {settings : Settings}
    {joining normalizer : Normalizer} {resource : Resource} {tag : Option Field}
    {first second : String} {site : Site}
    (joined : Resource.ofDefinition definition settings joining = .ok resource)
    (found : resource.tagField = .ok tag)
    (isVisited : site ∈ Check.sitesOf
      ((strategy resource normalizer (tag.map Field.path)).resource resource first second)) :
    action site = record first second site.path :=
  (covers_of_visited (Resource.filed_specFields joined) found isVisited).2.action_eq

theorem visited_of_covers {resource : Resource} {normalizer : Normalizer} {tag : Option Field}
    {path : FieldPath} (first second : String)
    (filed : ∀ entry ∈ resource.specFields.entries, entry.1 = entry.2.path.text ∧ entry.2.IsFiled)
    (found : resource.tagField = .ok tag)
    (covers : resource.Covers normalizer (IsWhole resource) path) :
    ∃ site ∈ Check.sitesOf
      ((strategy resource normalizer (tag.map Field.path)).resource resource first second),
        site.path = path := by
  rcases (covers_iff filed found).mp covers with
    ⟨field, isTop, steps, reaches, admits, stops, segments⟩
  refine ⟨(fieldSite first second field).descend steps,
    mem_sitesOf_resource.mpr ⟨field, isTop, steps, reaches, admits, stops, rfl⟩, ?_⟩
  apply congrArg FieldPath.mk
  rw [segments_descend, segments]
  rfl

section

variable {definition : ResourceDefinition} {settings : Settings} {normalizer : Normalizer}
  {resource : Resource} {first second text : String} {level : Nat}

theorem readAll_written
    (named : resource.Named Text.IsWord (Shape.Named normalizer (fun _ => True) Text.IsWord))
    (firstDotted : Text.IsDotted first) (secondDotted : Text.IsDotted second)
    (written : compareResource resource normalizer first second level = .ok text) :
    ∃ tag, resource.tagField = .ok tag ∧
      Check.SoundOf (Site.ofSpec first second) (fun _ => False) []
        ((strategy resource normalizer (tag.map Field.path)).resource resource first second) ∧
        Line.readAll text = Line.blank :: Code.linesOf (Check.codeOf action
          ((strategy resource normalizer (tag.map Field.path)).resource resource first second))
            level := by
  have inherited := Shape.inherited_named normalizer (fun _ => True)
  rcases compareResource_ok (fun _ => False) inherited named written with
    ⟨tag, checks, found, rfl, sound, rfl⟩
  have wholeRoot := Site.isWhole_ofSpec firstDotted secondDotted
  refine ⟨tag, found, sound, ?_⟩
  apply Check.readAll_body isFlat_action sound wholeRoot (by simp)
  intro blocks site reached level
  exact isPlain_action (reached.isWhole wholeRoot) (reached.pathWords Site.isWord_ofSpec)

theorem readAll_of_found {tag : Option Field} (found : resource.tagField = .ok tag)
    (named : resource.Named Text.IsWord (Shape.Named normalizer (fun _ => True) Text.IsWord))
    (firstDotted : Text.IsDotted first) (secondDotted : Text.IsDotted second)
    (written : compareResource resource normalizer first second level = .ok text) :
    Line.readAll text = Line.blank :: Code.linesOf (Check.codeOf action
      ((strategy resource normalizer (tag.map Field.path)).resource resource first second))
        level := by
  rcases readAll_written named firstDotted secondDotted written with ⟨other, isOther, _, lines⟩
  cases found.symm.trans isOther
  exact lines

theorem exists_record_of_visited {tag : Option Field} {site : Site}
    (joined : Resource.ofDefinition definition settings normalizer = .ok resource)
    (named : resource.Named Text.IsWord (Shape.Named normalizer (fun _ => True) Text.IsWord))
    (firstDotted : Text.IsDotted first) (secondDotted : Text.IsDotted second)
    (written : compareResource resource normalizer first second level = .ok text)
    (found : resource.tagField = .ok tag)
    (isVisited : site ∈ Check.sitesOf
      ((strategy resource normalizer (tag.map Field.path)).resource resource first second)) :
    ∃ line ∈ Line.readAll text, line.text = record first second site.path := by
  rcases Check.exists_line_of_mem_sitesOf _ level isVisited with ⟨line, inCode, isAction⟩
  rw [readAll_of_found found named firstDotted secondDotted written]
  exact ⟨line, List.mem_cons_of_mem _ inCode,
    isAction.trans (action_of_visited joined found isVisited)⟩

theorem covers_of_record
    (joined : Resource.ofDefinition definition settings normalizer = .ok resource)
    (named : resource.Named Text.IsWord (Shape.Named normalizer (fun _ => True) Text.IsWord))
    (firstDotted : Text.IsDotted first) (secondDotted : Text.IsDotted second)
    (written : compareResource resource normalizer first second level = .ok text)
    {line : Line} (membership : line ∈ Line.readAll text)
    (isRecord : "delta.Add(".toList <+: line.text.toList) :
    ∃ path, resource.Covers normalizer (IsWhole resource) path ∧
      (∀ segment ∈ path.segments, Text.IsWord segment) ∧ path.segments ≠ [] ∧
        line.text = record first second path := by
  rcases readAll_written named firstDotted secondDotted written with ⟨tag, found, sound, lines⟩
  rw [lines] at membership
  rcases (Check.hold_body isFlat_action sound level).of_mem membership with
    ⟨blocks, same | emitted⟩
  · simp [same] at isRecord
  · have filed := Resource.filed_specFields joined
    rcases emitted.visited_of_start (by decide) isRecord with ⟨site, isVisited, reached, same⟩
    rcases covers_of_visited filed found isVisited with ⟨covers, aligned⟩
    exact ⟨site.path, covers, reached.pathWords Site.isWord_ofSpec, aligned.nonempty,
      same.trans aligned.action_eq⟩

/--
Difference code records exactly the paths that it has to record, and every record carries the
expressions for the path that it reports.
-/
theorem records_iff_covered
    (joined : Resource.ofDefinition definition settings normalizer = .ok resource)
    (named : resource.Named Text.IsWord (Shape.Named normalizer (fun _ => True) Text.IsWord))
    (firstDotted : Text.IsDotted first) (secondDotted : Text.IsDotted second)
    (written : compareResource resource normalizer first second level = .ok text) :
    (∀ path : FieldPath, path.segments ≠ [] → (∀ segment ∈ path.segments, Text.IsWord segment) →
      ((∃ line ∈ Line.readAll text, line.text = record first second path) ↔
        resource.Covers normalizer (IsWhole resource) path)) ∧
      ∀ line ∈ Line.readAll text, "delta.Add(".toList <+: line.text.toList →
        ∃ path, resource.Covers normalizer (IsWhole resource) path ∧
          line.text = record first second path := by
  have records : ∀ line ∈ Line.readAll text, "delta.Add(".toList <+: line.text.toList → _ :=
    fun line => covers_of_record joined named firstDotted secondDotted written
  refine ⟨?_, ?_⟩
  · intro path nonempty words
    constructor
    · rintro ⟨line, membership, same⟩
      have isRecord : "delta.Add(".toList <+: line.text.toList := by
        simp [same, record_eq]
      rcases records line membership isRecord with
        ⟨other, covers, otherWords, otherNonempty, sameRecord⟩
      -- The words of a path hold no dots, so that its text tells it from all others.
      have sameText := text_of_record (same.symm.trans sameRecord)
      rwa [FieldPath.eq_of_text nonempty otherNonempty words otherWords sameText]
    · intro covers
      have filed := Resource.filed_specFields joined
      rcases readAll_written named firstDotted secondDotted written with ⟨tag, found, _, _⟩
      rcases visited_of_covers first second filed found covers with ⟨site, isVisited, rfl⟩
      exact exists_record_of_visited joined named firstDotted secondDotted written found isVisited
  · intro line membership isRecord
    rcases records line membership isRecord with ⟨path, covers, _, _, same⟩
    exact ⟨path, covers, same⟩

end

/-- A definition that declares the reference field of a nested member itself. -/
def declaredReference : ResourceDefinition where
  name := "Thing"
  spec := .struct "ThingSpec" [
    ("Name", Shape.scalarOf .string),
    ("Config", .struct "Config" [
      ("RoleName", Shape.scalarOf .string),
      ("RoleRef", .struct "RoleReference" [("Kind", Shape.scalarOf .string)])])]
  status := none
  operations := ∅

/-- Settings that take the nested member from another resource. -/
def takenFromRole : Settings where
  resources := .ofList [("Thing", {
    fields := .ofList [("Config.RoleName", {
      references := some {
        resource := "Role", service := none, path := "Spec.Name", skipStateCheck := false } })] })]

/-- The fields of the definition are named by words, and it is compared. -/
theorem records_iff_covered_declaredReference :
    ∃ resource text, Resource.ofDefinition declaredReference takenFromRole .default = .ok resource ∧
      compareResource resource .default "a.ko" "b.ko" 1 = .ok text ∧
        ∀ path : FieldPath, path.segments ≠ [] →
          (∀ segment ∈ path.segments, Text.IsWord segment) →
            ((∃ line ∈ Line.readAll text, line.text = record "a.ko" "b.ko" path) ↔
              resource.Covers .default (IsWhole resource) path) := by
  have facts : ∃ resource ∈ (Resource.ofDefinition declaredReference takenFromRole
      .default).toOption,
        resource.Named Text.IsWord (Shape.Named .default (fun _ => True) Text.IsWord) ∧
          (compareResource resource .default "a.ko" "b.ko" 1).toOption.isSome = true := by
    decide +kernel
  rcases facts with ⟨resource, made, named, succeeds⟩
  rcases Option.isSome_iff_exists.mp succeeds with ⟨text, given⟩
  have joined := Outcome.of_mem_toOption made
  have written := Outcome.of_mem_toOption given
  exact ⟨resource, text, joined, written,
    (records_iff_covered joined named (by decide) (by decide) written).1⟩

/--
A nested reference field that the definition declares is looked into, so that not all reference
fields are compared as a whole.
-/
theorem declaredReference_looked_into :
    ¬∀ (definition : ResourceDefinition) (settings : Settings) (normalizer : Normalizer)
      (resource : Resource) (first second text : String) (level : Nat),
        Resource.ofDefinition definition settings normalizer = .ok resource →
          resource.Named Text.IsWord (Shape.Named normalizer (fun _ => True) Text.IsWord) →
            Text.IsDotted first → Text.IsDotted second →
              compareResource resource normalizer first second level = .ok text →
                ∀ path : FieldPath, path.segments ≠ [] →
                  (∀ segment ∈ path.segments, Text.IsWord segment) →
                    ((∃ line ∈ Line.readAll text, line.text = record first second path) ↔
                      resource.Covers normalizer (fun path =>
                        resource.IsTagPath path ∨ resource.IsReferencePath path) path) := by
  intro exactly
  have facts : ∃ resource ∈ (Resource.ofDefinition declaredReference takenFromRole
      .default).toOption,
        resource.Named Text.IsWord (Shape.Named .default (fun _ => True) Text.IsWord) ∧
          (compareResource resource .default "a.ko" "b.ko" 1).toOption.isSome = true ∧
            (∃ field ∈ resource.specFields.values,
              field.path = ⟨["Config", "RoleRef"]⟩ ∧ field.isReference = true) ∧
              ∃ tag ∈ resource.tagField.toOption, ∃ site ∈ Check.sitesOf
                ((strategy resource .default (tag.map Field.path)).resource resource
                  "a.ko" "b.ko"),
                  site.path = ⟨["Config", "RoleRef", "Kind"]⟩ := by
    decide +kernel
  rcases facts with
    ⟨resource, made, named, succeeds, isReference, tag, isTag, site, isVisited, path⟩
  rcases Option.isSome_iff_exists.mp succeeds with ⟨text, given⟩
  have joined := Outcome.of_mem_toOption made
  have written := Outcome.of_mem_toOption given
  have found := Outcome.of_mem_toOption isTag
  have recorded := exists_record_of_visited joined named (by decide) (by decide) written found
    isVisited
  rw [path] at recorded
  have covers := (exactly _ _ _ resource _ _ text 1 joined named (by decide) (by decide) written
    ⟨["Config", "RoleRef", "Kind"]⟩ (by simp) (by decide)).mp recorded
  have past := (covers.past ["Config", "RoleRef"] (by simp) ⟨["Kind"], rfl⟩).2 (by simp)
  exact past (Or.inr isReference)

end Delta

end Reconcile
