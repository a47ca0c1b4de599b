import Reconcile.Proofs.Compare.Narrowing
import Reconcile.Proofs.Compare.References
import Reconcile.Proofs.Resource.Ancestors
import Reconcile.Proofs.Resource.Apart

/-!
# Leaving a field out

A field that is ignored on top of those that were ignored before takes its block out of difference
code and changes nothing else (`Delta.block_removed`). The plans with and without it differ in one
place, which lies below guards that are the same in both (`Delta.LeftOut`).
-/

namespace Reconcile

theorem Shape.Reaches.forall_named {normalizer : Normalizer} {ofShape ofMember : String → Prop}
    {shape : Shape} {steps : List String} (reaches : shape.Reaches normalizer steps)
    (named : shape.Named normalizer ofShape ofMember) : ∀ step ∈ steps, ofMember step := by
  induction reaches with
  | here => simp
  | step listed _ ih =>
      have ofMembers := namedMembers_iff.mp named.2 _ listed
      rw [List.forall_mem_cons]
      exact ⟨ofMembers.1, ih ofMembers.2⟩

namespace Delta

/-- Whether a text records the path that is written as another text. -/
def Reports (first second path text : String) : Prop :=
  ∃ reported : FieldPath, reported.text = path ∧ text = record first second reported

/-- Whether a text records the path that is written as another text or one below it. -/
def ReportsWithin (first second path text : String) : Prop :=
  ∃ reported : FieldPath, (reported.text = path ∨
    (path ++ ".").toList <+: reported.text.toList) ∧ text = record first second reported

/-- Whether plans differ in one place: one has checks within a path there, the other has none. -/
def LeftOut (path : FieldPath) (plan rest : List Check) : Prop :=
  ∃ (context : Check.Context) (gone : List Check), plan = context.fill gone ∧
    rest = context.fill [] ∧
      ∀ visited ∈ Check.sitesOf gone, path.segments <+: visited.path.segments

namespace LeftOut

variable {path : FieldPath} {plan rest : List Check}

theorem whole (within : ∀ visited ∈ Check.sitesOf plan, path.segments <+: visited.path.segments) :
    LeftOut path plan [] :=
  ⟨.hole, plan, rfl, rfl, within⟩

theorem guarded (leftOut : LeftOut path plan rest) (shape : Shape) (site : Site) :
    LeftOut path (Check.guarded shape site plan) (Check.guarded shape site rest) := by
  rcases leftOut with ⟨context, gone, rfl, rfl, within⟩
  exact ⟨context.guarded shape site, gone, (context.fill_guarded shape site gone).symm,
    (context.fill_guarded shape site []).symm, within⟩

/-- If one of several items differs in this way and the others are the same, so do all together. -/
theorem flatMap {α β : Type} {items : List α} {item : α} {planOf restOf : α → List Check}
    (key : α → β) (distinct : (items.map key).Nodup) (listed : item ∈ items)
    (others : ∀ other ∈ items, key other ≠ key item → restOf other = planOf other)
    (leftOut : LeftOut path (planOf item) (restOf item)) :
    LeftOut path (items.flatMap planOf) (items.flatMap restOf) := by
  rcases List.append_of_mem listed with ⟨left, right, rfl⟩
  rcases leftOut with ⟨context, gone, planned, remains, within⟩
  rw [List.map_append, List.map_cons, List.nodup_append, List.nodup_cons] at distinct
  rcases distinct with ⟨_, ⟨fresh, _⟩, apart⟩
  have inLeft : left.flatMap restOf = left.flatMap planOf := by
    apply List.flatMap_congr
    intro other isOther
    exact others other (by simp [isOther])
      (apart _ (List.mem_map_of_mem isOther) _ List.mem_cons_self)
  have inRight : right.flatMap restOf = right.flatMap planOf := by
    apply List.flatMap_congr
    intro other isOther
    refine others other (by simp [isOther]) ?_
    intro same
    rw [← same] at fresh
    exact fresh (List.mem_map_of_mem isOther)
  refine ⟨.beside (left.flatMap planOf) context (right.flatMap planOf), gone, ?_, ?_, within⟩
  · simp [planned, Check.Context.fill]
  · simp [remains, inLeft, inRight, Check.Context.fill]

end LeftOut

section

variable {resource : Resource} {normalizer : Normalizer} {tagPath : Option FieldPath}

/-- What is visited below a member. -/
theorem exists_segments_of_memberEntry {site visited : Site} {member : String × Shape}
    (isVisited : visited ∈ Check.sitesOf
      ((strategy resource normalizer tagPath).memberEntry site member).2) :
    ∃ steps, member.2.Reaches normalizer steps ∧ visited.path.segments =
      site.path.segments ++ (normalizer member.1).exported :: steps := by
  rcases (mem_sitesOf_member (mem_sitesOf_body member.2 _ visited)).mp isVisited with
    ⟨steps, reaches, _, rfl⟩
  refine ⟨steps, reaches, ?_⟩
  rw [segments_descend]
  simp [Site.member, strategy]

/-- A member that does not lead to a path stays as it is if the path is left out. -/
theorem memberEntry_narrowed_of_ne {ofShape : String → Prop} {name next : String}
    {members : List (String × Shape)} {other : String × Shape} (listed : other ∈ members)
    (named : (Shape.struct name members).Named normalizer ofShape Text.IsWord) {site : Site}
    (words : ∀ segment ∈ site.path.segments, Text.IsWord segment) {path : FieldPath}
    {steps : List String} (segments : path.segments = site.path.segments ++ next :: steps)
    (pathWords : ∀ segment ∈ path.segments, Text.IsWord segment)
    (different : (normalizer other.1).exported ≠ next) :
    ((narrowed resource normalizer tagPath path.text).memberEntry site other).2 =
      ((strategy resource normalizer tagPath).memberEntry site other).2 := by
  apply memberEntry_narrowed members other listed site
  intro visited isVisited same
  rcases exists_segments_of_memberEntry isVisited with ⟨more, reaches, visitedSegments⟩
  have otherWords := (Shape.Reaches.step listed reaches).forall_named named
  have visitedWords : ∀ segment ∈ visited.path.segments, Text.IsWord segment := by
    rw [visitedSegments, List.forall_mem_append]
    exact ⟨words, otherWords⟩
  exact different
    (FieldPath.next_eq_of_text visitedSegments segments visitedWords pathWords same)

/-- A member on the way to a visited path differs in one place if the path is left out. -/
theorem leftOut_member {ofShape : String → Prop} {shape : Shape} {steps : List String}
    (reaches : shape.Reaches normalizer steps) {site : Site} {path : FieldPath}
    (apart : Shape.ExportsApart normalizer shape.membersBelow)
    (named : shape.Named normalizer ofShape Text.IsWord)
    (words : ∀ segment ∈ site.path.segments, Text.IsWord segment)
    (admits : (strategy resource normalizer tagPath).Admits site.path steps)
    (segments : path.segments = site.path.segments ++ steps) (nonempty : site.path.segments ≠ []) :
    LeftOut path
      ((strategy resource normalizer tagPath).member shape site
        ((strategy resource normalizer tagPath).body shape site))
      ((narrowed resource normalizer tagPath path.text).member shape site
        ((narrowed resource normalizer tagPath path.text).body shape site)) := by
  induction reaches generalizing site with
  | here shape =>
      rw [List.append_nil] at segments
      have same : path = site.path := congrArg FieldPath.mk segments
      rw [member_narrowed_self (by rw [same])]
      apply LeftOut.whole
      intro visited isVisited
      rcases (mem_sitesOf_member (mem_sitesOf_body shape site visited)).mp isVisited with
        ⟨more, _, _, rfl⟩
      rw [segments_descend, segments]
      exact List.prefix_append _ _
  | @step name members member steps listed inner ih =>
      rcases admits with ⟨notIgnored, noTags, below⟩
      have stepWords := (Shape.Reaches.step listed inner).forall_named named
      have pathWords : ∀ segment ∈ path.segments, Text.IsWord segment := by
        rw [segments, List.forall_mem_append]
        exact ⟨words, stepWords⟩
      have pathNonempty : path.segments ≠ [] := by simp [segments]
      have different : site.path.text ≠ path.text := by
        intro same
        have equal := FieldPath.eq_of_text nonempty pathNonempty words pathWords same
        rw [← equal] at segments
        simp at segments
      rw [member_narrowed different, Strategy.member_eq_guarded notIgnored noTags,
        Strategy.member_eq_guarded notIgnored noTags]
      apply LeftOut.guarded
      rw [Strategy.body_struct, Strategy.body_struct]
      apply LeftOut.flatMap (fun member => (normalizer member.1).exported) _
        (Text.mem_sortedBy.mpr listed)
      · intro other isOther otherName
        exact memberEntry_narrowed_of_ne (Text.mem_sortedBy.mp isOther) named words segments
          pathWords otherName
      · rw [List.forall_mem_cons] at stepWords
        apply ih (apart.inner listed) (Shape.namedMembers_iff.mp named.2 member listed).2
        · rw [Site.member, FieldPath.segments_child, List.forall_mem_append,
            List.forall_mem_singleton]
          exact ⟨words, stepWords.1⟩
        · exact below
        · simp [Site.member, segments, strategy]
        · simp [Site.member]
      · exact ((Text.sortedBy_perm members).map _).nodup_iff.mpr apart.distinct

end

section

variable {definition : ResourceDefinition} {settings : Settings} {normalizer : Normalizer}
  {resource : Resource} {tagPath : Option FieldPath} {first second text : String} {visited : Site}
  {level : Nat} {p : String}

theorem words_of_visited {ofShape : String → Prop}
    (named : resource.Named Text.IsWord (Shape.Named normalizer ofShape Text.IsWord))
    (isVisited : visited ∈ Check.sitesOf
      ((strategy resource normalizer tagPath).resource resource first second)) :
    ∀ segment ∈ visited.path.segments, Text.IsWord segment := by
  rcases mem_sitesOf_resource.mp isVisited with ⟨field, isTop, steps, reaches, _, stops, rfl⟩
  rcases named field isTop with ⟨_, pathWords, shapeNamed⟩
  rw [segments_descend, List.forall_mem_append]
  refine ⟨pathWords, ?_⟩
  cases isReference : field.isReference with
  | true =>
      rw [stops isReference]
      simp
  | false => exact reaches.forall_named (shapeNamed isReference)

/-- The outermost field on the way to a visited path differs in one place if it is left out. -/
theorem leftOut_outermost {ofShape : String → Prop} {field : Field} {steps : List String}
    (joined : Resource.ofDefinition definition settings normalizer = .ok resource)
    (differ : Resource.PathsDiffer definition settings normalizer)
    (named : resource.Named Text.IsWord (Shape.Named normalizer ofShape Text.IsWord))
    (isTop : field ∈ resource.topLevelFields) (reaches : field.shape.Reaches normalizer steps)
    (admits : (strategy resource normalizer tagPath).Admits field.path steps)
    (stops : field.isReference = true → steps = []) :
    LeftOut ((fieldSite first second field).descend steps).path
      ((strategy resource normalizer tagPath).outermost field (fieldSite first second field))
      ((narrowed resource normalizer tagPath ((fieldSite first second field).descend
        steps).path.text).outermost field (fieldSite first second field)) := by
  cases isReference : field.isReference with
  | true =>
      have same : (fieldSite first second field).descend steps = fieldSite first second field := by
        rw [stops isReference]
        rfl
      rw [same, outermost_narrowed_self rfl]
      apply LeftOut.whole
      intro other isOther
      rcases mem_sitesOf_outermost.mp isOther with ⟨more, _, _, _, rfl⟩
      rw [segments_descend]
      exact List.prefix_append _ _
  | false =>
      rcases Resource.exists_member_of_outermost joined isTop isReference with
        ⟨name, members, spec, member, listed, shape⟩
      have apart := (Registration.textsApart_of_nodup _ 0 [] differ.of_append_left).inner
        (by rw [spec]; exact listed)
      have exported := apart.exportsApart (by simp)
      rw [← shape] at exported
      rcases named field isTop with ⟨_, pathWords, shapeNamed⟩
      have outermost : ∀ strategy : Strategy,
          strategy.outermost field (fieldSite first second field) =
            strategy.member field.shape (fieldSite first second field)
              (strategy.body field.shape (fieldSite first second field)) := by
        intro strategy
        simp [Strategy.outermost, isReference]
      rw [outermost, outermost]
      apply leftOut_member reaches exported (shapeNamed isReference) pathWords admits
        (segments_descend _ steps)
      simp [fieldSite, Resource.path_topLevelFields (Resource.filed_specFields joined) isTop]

/-- If a visited path is left out, the plan of the resource differs in one place. -/
theorem leftOut_resource {ofShape : String → Prop}
    (joined : Resource.ofDefinition definition settings normalizer = .ok resource)
    (differ : Resource.PathsDiffer definition settings normalizer)
    (named : resource.Named Text.IsWord (Shape.Named normalizer ofShape Text.IsWord))
    (isVisited : visited ∈ Check.sitesOf
      ((strategy resource normalizer tagPath).resource resource first second)) :
    LeftOut visited.path ((strategy resource normalizer tagPath).resource resource first second)
      ((narrowed resource normalizer tagPath visited.path.text).resource resource first
        second) := by
  have filed := Resource.filed_specFields joined
  have words := words_of_visited named isVisited
  rcases mem_sitesOf_resource.mp isVisited with ⟨field, isTop, steps, reaches, admits, stops, rfl⟩
  rw [resource_eq_flatMap, resource_eq_flatMap]
  apply LeftOut.flatMap Field.path (Resource.nodup_topLevelFields filed) isTop
  · -- No other field leads to the path.
    intro other isOther different
    apply outermost_narrowed
    intro otherVisited inOther same
    have otherWords := words_of_visited named
      (Check.mem_sitesOf_flatMap.mpr ⟨other, isOther, inOther⟩)
    rcases mem_sitesOf_outermost.mp inOther with ⟨more, _, _, _, rfl⟩
    have path := Resource.path_topLevelFields filed isTop
    have otherPath := Resource.path_topLevelFields filed isOther
    have names := @FieldPath.next_eq_of_text _ _ [] more steps other.names.exported
      field.names.exported (by rw [segments_descend, fieldSite, otherPath]; rfl)
      (by rw [segments_descend, fieldSite, path]; rfl) otherWords words same
    rw [path, otherPath, names] at different
    exact different rfl
  · exact leftOut_outermost joined differ named isTop reaches admits stops

/-- A line that records a path is the action at a visited site. -/
theorem exists_action_of_record {line : Line} {reported : FieldPath}
    (listed : line ∈ Line.blank :: Code.linesOf (Check.codeOf action
      ((strategy resource normalizer tagPath).resource resource first second)) level)
    (same : line.text = record first second reported) :
    ∃ visited ∈ Check.sitesOf
      ((strategy resource normalizer tagPath).resource resource first second),
        action visited = record first second reported := by
  have isRecorded := mem_recorded.mpr ⟨⟨line, listed, same⟩, isRecord_record first second reported⟩
  rw [recorded_resource] at isRecorded
  exact List.mem_map.mp isRecorded

/-- A path that is not visited is not recorded. -/
theorem not_reports_of_unvisited {tag : Option Field} {path : String} {line : Line}
    (joined : Resource.ofDefinition definition settings normalizer = .ok resource)
    (found : resource.tagField = .ok tag)
    (unvisited : ∀ visited ∈ Check.sitesOf
      ((strategy resource normalizer (tag.map Field.path)).resource resource first second),
        visited.path.text ≠ path)
    (listed : line ∈ Line.blank :: Code.linesOf (Check.codeOf action
      ((strategy resource normalizer (tag.map Field.path)).resource resource first second)) level) :
    ¬Reports first second path line.text := by
  rintro ⟨reported, isText, same⟩
  rcases exists_action_of_record listed same with ⟨visited, isVisited, isAction⟩
  rw [action_of_visited joined found isVisited] at isAction
  exact unvisited visited isVisited ((text_of_record isAction).trans isText)

/-- What is visited within a path is recorded within its text. -/
theorem reportsWithin_of_isPrefix {tag : Option Field} {ofShape : String → Prop}
    (joined : Resource.ofDefinition definition settings normalizer = .ok resource)
    (named : resource.Named Text.IsWord (Shape.Named normalizer ofShape Text.IsWord))
    (found : resource.tagField = .ok tag) {inner : Site}
    (isVisited : visited ∈ Check.sitesOf
      ((strategy resource normalizer (tag.map Field.path)).resource resource first second))
    (isInner : inner ∈ Check.sitesOf
      ((strategy resource normalizer (tag.map Field.path)).resource resource first second))
    (within : visited.path.segments <+: inner.path.segments) :
    ReportsWithin first second visited.path.text (action inner) := by
  have filed := Resource.filed_specFields joined
  have outerAligned := (covers_of_visited filed found isVisited).2
  have aligned := (covers_of_visited filed found isInner).2
  have isText := (FieldPath.isPrefix_iff_text outerAligned.nonempty aligned.nonempty
    (words_of_visited named isVisited) (words_of_visited named isInner)).mp within
  exact ⟨inner.path, isText, action_of_visited joined found isInner⟩

/-- Nothing within a path that is left out is visited. -/
theorem not_reportsWithin_of_narrowed {tag : Option Field} {ofShape : String → Prop}
    (joined : Resource.ofDefinition definition settings normalizer = .ok resource)
    (named : resource.Named Text.IsWord (Shape.Named normalizer ofShape Text.IsWord))
    (found : resource.tagField = .ok tag) {other : Site}
    (isVisited : visited ∈ Check.sitesOf
      ((strategy resource normalizer (tag.map Field.path)).resource resource first second))
    (isOther : other ∈ Check.sitesOf ((narrowed resource normalizer (tag.map Field.path)
      visited.path.text).resource resource first second)) :
    ¬ReportsWithin first second visited.path.text (action other) := by
  have filed := Resource.filed_specFields joined
  have nonempty := (covers_of_visited filed found isVisited).2.nonempty
  -- The resource with one more ignored path has the same fields and the same tags.
  have covered := @covers_of_visited (resource.ignoring ("Spec." ++ visited.path.text)) normalizer
    tag first second other filed found isOther
  have otherWords := @words_of_visited normalizer (resource.ignoring ("Spec." ++ visited.path.text))
    (tag.map Field.path) first second other ofShape named isOther
  rintro ⟨reported, isText, same⟩
  rw [covered.2.action_eq] at same
  rw [← text_of_record same] at isText
  have within := (FieldPath.isPrefix_iff_text nonempty covered.2.nonempty
    (words_of_visited named isVisited) otherWords).mpr isText
  have retained := (covered.1.past visited.path.segments nonempty within).1
  have ignored : (resource.ignoring ("Spec." ++ visited.path.text)).isCompareIgnored
      ⟨visited.path.segments⟩ = true := by
    rw [Resource.isCompareIgnored_ignoring, beq_self_eq_true, Bool.or_true]
  exact Bool.noConfusion (retained.symm.trans ignored)

/-- The lines that a plan loses if a visited path is left out. -/
theorem exists_gone {tag : Option Field} {ofShape : String → Prop}
    (joined : Resource.ofDefinition definition settings normalizer = .ok resource)
    (differ : Resource.PathsDiffer definition settings normalizer)
    (named : resource.Named Text.IsWord (Shape.Named normalizer ofShape Text.IsWord))
    (found : resource.tagField = .ok tag)
    (met : Demand.unmet? (Check.demandsOf
      ((strategy resource normalizer (tag.map Field.path)).resource resource first second)) = none)
    (isVisited : visited ∈ Check.sitesOf
      ((strategy resource normalizer (tag.map Field.path)).resource resource first second)) :
    Demand.unmet? (Check.demandsOf ((narrowed resource normalizer (tag.map Field.path)
      visited.path.text).resource resource first second)) = none ∧
    ∃ before gone after,
      Line.blank :: Code.linesOf (Check.codeOf action ((strategy resource normalizer
        (tag.map Field.path)).resource resource first second)) level = before ++ gone ++ after ∧
      Line.blank :: Code.linesOf (Check.codeOf action ((narrowed resource normalizer
        (tag.map Field.path) visited.path.text).resource resource first second)) level =
          before ++ after ∧
      ∀ text ∈ recorded gone, ReportsWithin first second visited.path.text text := by
  rcases leftOut_resource joined differ named isVisited with
    ⟨context, gone, planned, remains, within⟩
  rcases context.exists_lines_fill action level with ⟨before, after, deeper, lines⟩
  rcases context.exists_sitesOf_fill with ⟨outer, rest, sites⟩
  have untitled := @areUntitled_resource resource normalizer (tag.map Field.path) first second
  rw [planned] at met untitled
  refine ⟨?_, Line.blank :: before, Code.linesOf (Check.codeOf action gone) deeper, after, ?_, ?_,
    ?_⟩
  · rw [remains]
    exact Check.Context.unmet?_fill_nil met
  · rw [planned, lines, List.cons_append, List.cons_append]
  · rw [remains, lines, List.cons_append]
    simp [Check.codeOf, Code.linesOf]
  · rw [recorded_codeOf gone deeper (Check.Context.areUntitled_of_fill untitled)]
    intro text isText
    rcases List.mem_map.mp isText with ⟨inner, isGone, rfl⟩
    have isInner : inner ∈ Check.sitesOf
        ((strategy resource normalizer (tag.map Field.path)).resource resource first second) := by
      rw [planned, sites]
      exact List.mem_append_left _ (List.mem_append_right _ isGone)
    exact reportsWithin_of_isPrefix joined named found isVisited isInner (within inner isGone)

end

/--
A field that is ignored on top of the others takes its block out of difference code: all lines that
record its path or one below it stand in one piece, which no other line that records a difference
stands in, and without this piece the lines are those that are written then. Where its path is not
recorded, the code stays as it is.
-/
theorem block_removed {definition : ResourceDefinition} {settings : Settings}
    {normalizer : Normalizer} {resource : Resource} {first second text : String} {level : Nat}
    (joined : Resource.ofDefinition definition settings normalizer = .ok resource)
    (differ : Resource.PathsDiffer definition settings normalizer)
    (named : resource.Named Text.IsWord (Shape.Named normalizer (fun _ => True) Text.IsWord))
    (written : compareResource resource normalizer first second level = .ok text) (path : String) :
    ∃ other rest lines,
      Resource.ofDefinition definition (settings.ignoring definition.name ("Spec." ++ path))
        normalizer = .ok other ∧
      compareResource other normalizer first second level = .ok rest ∧
      text = (Page.empty.write lines).text ∧
      (Text.IsDotted first → Text.IsDotted second → Line.readAll text = lines) ∧
      (((∀ line ∈ lines, ¬Reports first second path line.text) ∧ rest = text) ∨
        ((∃ line ∈ lines, Reports first second path line.text) ∧
          ∃ before gone after, lines = before ++ gone ++ after ∧
            rest = (Page.empty.write (before ++ after)).text ∧
            (∀ record ∈ recorded gone, ReportsWithin first second path record) ∧
            ∀ line ∈ before ++ after, ¬ReportsWithin first second path line.text)) := by
  rcases planned_of_written written with ⟨tag, found, rendered⟩
  have met := met_of_written found written
  have ignoring : Resource.ofDefinition definition
      (settings.ignoring definition.name ("Spec." ++ path)) normalizer =
        .ok (resource.ignoring ("Spec." ++ path)) := by
    rw [Resource.ofDefinition_ignoring, joined]
    rfl
  have isRead := fun firstDotted secondDotted =>
    readAll_of_found found named firstDotted secondDotted written
  by_cases isVisited : ∃ visited ∈ Check.sitesOf
      ((strategy resource normalizer (tag.map Field.path)).resource resource first second),
        visited.path.text = path
  · rcases isVisited with ⟨visited, isVisited, rfl⟩
    rcases exists_gone joined differ named found met isVisited with
      ⟨stillMet, before, gone, after, lines, remains, within⟩
    refine ⟨_, _, _, ignoring, compareResource_ignoring found stillMet level,
      rendered.trans (Code.renderBehindBlank_eq _ _), isRead,
      Or.inr ⟨?_, before, gone, after, lines, ?_, within, ?_⟩⟩
    · rcases Check.exists_line_of_mem_sitesOf _ level isVisited with ⟨line, listed, same⟩
      exact ⟨line, List.mem_cons_of_mem _ listed, visited.path, rfl,
        same.trans (action_of_visited joined found isVisited)⟩
    · rw [← remains]
      exact Code.renderBehindBlank_eq _ _
    · intro line listed ⟨reported, isText, same⟩
      rw [← remains] at listed
      -- The lines that remain record what the resource with the new entry visits.
      rcases @exists_action_of_record normalizer
        (resource.ignoring ("Spec." ++ visited.path.text)) _ first second level line reported listed
        same with ⟨other, isOther, isAction⟩
      exact not_reportsWithin_of_narrowed joined named found isVisited isOther
        ⟨reported, isText, isAction⟩
  · have unvisited : ∀ visited ∈ Check.sitesOf
        ((strategy resource normalizer (tag.map Field.path)).resource resource first second),
          visited.path.text ≠ path := by
      intro visited isSite same
      exact isVisited ⟨visited, isSite, same⟩
    have stillMet := met
    rw [← resource_narrowed unvisited] at stillMet
    refine ⟨_, _, _, ignoring, compareResource_ignoring found stillMet level,
      rendered.trans (Code.renderBehindBlank_eq _ _), isRead, Or.inl ⟨?_, ?_⟩⟩
    · intro line listed
      exact not_reports_of_unvisited joined found unvisited listed
    · rw [rendered, resource_narrowed unvisited]

/-- A definition with a structure inside of a structure, between other members. -/
def quotaDefinition : ResourceDefinition where
  name := "Quota"
  spec := .struct "QuotaSpec" [
    ("Config", .struct "Config" [
      ("Group", Shape.scalarOf .string),
      ("Limits", .struct "Limits" [("Count", Shape.scalarOf .integer)]),
      ("Zones", Shape.sequenceOf (Shape.scalarOf .string))]),
    ("Name", Shape.scalarOf .string)]
  status := none
  operations := ∅

/-- The limits are taken out from between the other members. -/
theorem block_removed_limits :
    ∃ resource other text rest,
      Resource.ofDefinition quotaDefinition {} .default = .ok resource ∧
      compareResource resource .default "a.ko" "b.ko" 1 = .ok text ∧
      Resource.ofDefinition quotaDefinition
        (Settings.ignoring {} "Quota" "Spec.Config.Limits") .default = .ok other ∧
      compareResource other .default "a.ko" "b.ko" 1 = .ok rest ∧
      ∃ before gone after, Line.readAll text = before ++ gone ++ after ∧
        rest = (Page.empty.write (before ++ after)).text ∧
        (∀ record ∈ recorded gone, ReportsWithin "a.ko" "b.ko" "Config.Limits" record) ∧
        ∀ line ∈ before ++ after, ¬ReportsWithin "a.ko" "b.ko" "Config.Limits" line.text := by
  have facts : ∃ resource ∈ (Resource.ofDefinition quotaDefinition {} .default).toOption,
      Resource.PathsDiffer quotaDefinition {} .default ∧
        resource.Named Text.IsWord (Shape.Named .default (fun _ => True) Text.IsWord) ∧
          (compareResource resource .default "a.ko" "b.ko" 1).toOption.isSome = true ∧
            ∃ tag ∈ resource.tagField.toOption, ∃ site ∈ Check.sitesOf
              ((strategy resource .default (tag.map Field.path)).resource resource "a.ko" "b.ko"),
                site.path = ⟨["Config", "Limits"]⟩ := by
    decide +kernel
  rcases facts with ⟨resource, made, differ, named, succeeds, tag, isTag, site, isVisited, path⟩
  rcases Option.isSome_iff_exists.mp succeeds with ⟨text, given⟩
  have joined := Outcome.of_mem_toOption made
  have written := Outcome.of_mem_toOption given
  have found := Outcome.of_mem_toOption isTag
  rcases exists_record_of_visited joined named (by decide) (by decide) written found isVisited with
    ⟨line, listed, isRecord⟩
  rw [path] at isRecord
  rcases block_removed joined differ named written "Config.Limits" with
    ⟨other, rest, lines, ignoring, stillWritten, _, isRead, kept | ⟨_, gone⟩⟩
  · rw [isRead (by decide) (by decide)] at listed
    exact absurd ⟨_, rfl, isRecord⟩ (kept.1 line listed)
  · rw [← isRead (by decide) (by decide)] at gone
    exact ⟨resource, other, text, rest, joined, written, ignoring, stillWritten, gone⟩

end Delta

end Reconcile
