import Reconcile.Proofs.Compare.Calls
import Reconcile.Proofs.Compare.Entering

/-!
# Agreement of equality code and difference code

The two comparisons of a resource differ in what they do at a difference and in how they look
into collections. So where no collection is entered, they plan the same checks
(`Strategy.body_eq_of_direct`), and equality code is difference code that returns false instead
of recording (`Equality.agrees_with_delta`).
-/

namespace Reconcile

namespace Line

/-- A line that records a difference, replaced by the return of equality code. -/
def returning (line : Line) : Line :=
  if "delta.Add(".toList <+: line.text.toList then ⟨line.level, "return false"⟩ else line

/-- A text in which every record of a difference is replaced. -/
def returningAll (text : String) : String :=
  (Page.empty.write ((readAll text).map returning)).text

theorem returning_of_front {level : Nat} {text : String} (front : String)
    (isFront : front ∈ fronts) (begins : front.toList <+: text.toList) :
    returning ⟨level, text⟩ = ⟨level, text⟩ := by
  have apart : ∀ front ∈ fronts,
      ¬front.toList <+: "delta.Add(".toList ∧ ¬"delta.Add(".toList <+: front.toList := by
    decide
  apply if_neg
  intro isRecord
  rcases List.prefix_or_prefix_of_prefix begins isRecord with shorter | longer
  · exact (apart front isFront).1 shorter
  · exact (apart front isFront).2 longer

theorem returning_blank : returning blank = blank := by
  decide

theorem returning_close (level : Nat) : returning ⟨level, "\x7d"⟩ = ⟨level, "\x7d"⟩ :=
  returning_of_front "\x7d" (by simp [fronts]) List.prefix_rfl

theorem returning_action (level : Nat) (site : Site) :
    returning ⟨level, Delta.action site⟩ = ⟨level, Equality.action site⟩ := by
  have isRecord : "delta.Add(".toList <+: (Delta.action site).toList := by
    simp [Delta.action_eq]
  exact if_pos isRecord

end Line

namespace Check

mutual

/-- Whether a check tests presence, scalars, tags and whole values only. -/
def IsDirect : Check → Prop
  | .present _ inside => AreDirect inside
  | .unequal _ (.scalar _) => True
  | .unequal _ .whole => True
  | .tags _ => True
  | _ => False

/-- Whether all checks are direct. -/
def AreDirect : List Check → Prop
  | [] => True
  | check :: rest => check.IsDirect ∧ AreDirect rest

end

theorem areDirect_iff {checks : List Check} :
    AreDirect checks ↔ ∀ check ∈ checks, check.IsDirect := by
  induction checks with
  | nil => simp [AreDirect]
  | cons check rest ih => simp [AreDirect, ih]

theorem areDirect_flatMap {α : Type} {items : List α} {checks : α → List Check}
    (direct : ∀ item ∈ items, AreDirect (checks item)) : AreDirect (items.flatMap checks) := by
  rw [areDirect_iff]
  intro check membership
  rcases List.mem_flatMap.mp membership with ⟨item, listed, inChecks⟩
  exact areDirect_iff.mp (direct item listed) check inChecks

theorem areDirect_guarded {shape : Shape} {site : Site} {inside : List Check}
    (direct : AreDirect inside) : AreDirect (guarded shape site inside) := by
  unfold guarded
  split
  · exact ⟨direct, trivial⟩
  · exact direct

mutual

/-- Direct checks ask for nothing. -/
theorem demands_of_isDirect : (check : Check) → check.IsDirect → check.demands = []
  | .present _ inside, direct => by
      rw [demands]
      exact demandsOf_of_areDirect inside direct
  | .unequal _ (.scalar _), _ => rfl
  | .unequal _ .whole, _ => rfl
  | .tags _, _ => rfl

theorem demandsOf_of_areDirect : (checks : List Check) → AreDirect checks → demandsOf checks = []
  | [], _ => rfl
  | check :: rest, ⟨direct, restDirect⟩ => by
      rw [demandsOf, demands_of_isDirect check direct, demandsOf_of_areDirect rest restDirect]
      rfl

end

/-- A block that acts on a difference. -/
theorem lines_block {header : String} (begins : "if ".toList <+: header.toList) (site : Site)
    (level : Nat) :
    (Code.block header [.line (Equality.action site)]).lines level =
      ((Code.block header [.line (Delta.action site)]).lines level).map Line.returning := by
  have opening : Line.returning ⟨level, header ++ " \x7b"⟩ = ⟨level, header ++ " \x7b"⟩ := by
    apply Line.returning_of_front "if " (by simp [Line.fronts])
    rw [String.toList_append]
    exact begins.trans (List.prefix_append _ _)
  simp only [Code.lines, Code.linesOf, List.append_nil, List.map_cons, List.map_append,
    List.map_nil, opening, Line.returning_action, Line.returning_close]

mutual

/-- Equality code of direct checks is their difference code, but for what it does. -/
theorem lines_of_isDirect : (check : Check) → (level : Nat) → check.IsDirect →
    Code.linesOf (check.code Equality.action) level =
      (Code.linesOf (check.code Delta.action) level).map Line.returning
  | .present site inside, level, direct => by
      have insideLines := linesOf_of_areDirect inside (level + 1) direct
      simp only [code, Code.linesOf, Code.lines, List.append_nil, List.map_cons, List.map_append,
        List.map_nil, Line.returning_action, Line.returning_close, insideLines]
      rw [Line.returning_of_front "if " (by simp [Line.fronts]) (by simp),
        Line.returning_of_front "\x7d" (by simp [Line.fronts]) (by simp)]
  | .unequal site (.scalar kind), level, _ => by
      simp only [code, Code.linesOf, List.append_nil]
      exact lines_block (by simp) site level
  | .unequal site .whole, level, _ => by
      simp only [code, Code.linesOf, List.append_nil]
      exact lines_block (by simp) site level
  | .tags site, level, _ => by
      have begins : "if ".toList <+:
          "if !ackcompare.MapStringStringEqual(desiredACKTags, latestACKTags)".toList := by simp
      have block := lines_block begins site level
      have firstLine : Line.returning
          ⟨level, "desiredACKTags, _ := convertToOrderedACKTags(" ++ site.first.text ++ ")"⟩ = _ :=
        Line.returning_of_front "desiredACKTags" (by simp [Line.fronts]) (by simp)
      have secondLine : Line.returning
          ⟨level, "latestACKTags, _ := convertToOrderedACKTags(" ++ site.second.text ++ ")"⟩ = _ :=
        Line.returning_of_front "latestACKTags" (by simp [Line.fronts]) (by simp)
      simp only [code, Code.linesOf, List.append_nil, List.map_append, block]
      rw [Code.lines, Code.lines, List.map_singleton, List.map_singleton, firstLine, secondLine]

theorem linesOf_of_areDirect : (checks : List Check) → (level : Nat) → AreDirect checks →
    Code.linesOf (codeOf Equality.action checks) level =
      (Code.linesOf (codeOf Delta.action checks) level).map Line.returning
  | [], _, _ => rfl
  | check :: rest, level, ⟨direct, restDirect⟩ => by
      rw [codeOf, codeOf, Code.linesOf_append, Code.linesOf_append, List.map_append,
        lines_of_isDirect check level direct, linesOf_of_areDirect rest level restDirect]

end

end Check

namespace Strategy

mutual

/-- Whether a strategy enters no collection from a value of a shape at a path. -/
def Direct (strategy : Strategy) : Shape → FieldPath → Prop
  | .scalar .., _ => True
  | .struct _ members, path => strategy.DirectMembers members path
  | .sequence .., _ => False
  | .mapping .., _ => False

/-- Whether a strategy enters no collection from the members of a value. -/
def DirectMembers (strategy : Strategy) : List (String × Shape) → FieldPath → Prop
  | [], _ => True
  | (name, shape) :: rest, path =>
      (strategy.isIgnored (path.child (strategy.normalizer name).exported) = true ∨
        strategy.isTagField (path.child (strategy.normalizer name).exported) = true ∨
          strategy.Direct shape (path.child (strategy.normalizer name).exported)) ∧
        strategy.DirectMembers rest path

end

mutual

def decideDirect (strategy : Strategy) : (shape : Shape) → (path : FieldPath) →
    Decidable (strategy.Direct shape path)
  | .scalar .., _ => isTrue trivial
  | .struct _ members, path => decideDirectMembers strategy members path
  | .sequence .., _ => isFalse id
  | .mapping .., _ => isFalse id

def decideDirectMembers (strategy : Strategy) : (members : List (String × Shape)) →
    (path : FieldPath) → Decidable (strategy.DirectMembers members path)
  | [], _ => isTrue trivial
  | (name, shape) :: rest, path =>
      have := decideDirect strategy shape (path.child (strategy.normalizer name).exported)
      have := decideDirectMembers strategy rest path
      inferInstanceAs (Decidable
        ((strategy.isIgnored (path.child (strategy.normalizer name).exported) = true ∨
          strategy.isTagField (path.child (strategy.normalizer name).exported) = true ∨
            strategy.Direct shape (path.child (strategy.normalizer name).exported)) ∧
          strategy.DirectMembers rest path))

end

instance (strategy : Strategy) (shape : Shape) (path : FieldPath) :
    Decidable (strategy.Direct shape path) :=
  decideDirect strategy shape path

variable {strategy left right : Strategy}

mutual

/-- No collection is entered exactly if none is at the end of steps that are entered. -/
theorem direct_iff : (shape : Shape) → (path : FieldPath) →
    (strategy.Direct shape path ↔ ∀ steps target, shape.Leads strategy.normalizer steps target →
      strategy.Enters path steps → target.isCollection = false)
  | .scalar name kind, path => by
      refine ⟨fun _ steps target leads _ => ?_, fun _ => trivial⟩
      cases leads
      rfl
  | .sequence name element, path => by
      refine ⟨False.elim, fun all => ?_⟩
      exact Bool.noConfusion (all [] _ (.here _) trivial)
  | .mapping name key value, path => by
      refine ⟨False.elim, fun all => ?_⟩
      exact Bool.noConfusion (all [] _ (.here _) trivial)
  | .struct name members, path => by
      rw [Direct, directMembers_iff members path]
      constructor
      · intro all steps target leads enters
        cases leads with
        | here => rfl
        | @step _ _ member rest _ listed inner => exact all member listed rest target inner enters
      · intro all member listed steps target leads enters
        exact all _ target (.step listed leads) enters

theorem directMembers_iff : (members : List (String × Shape)) → (path : FieldPath) →
    (strategy.DirectMembers members path ↔
      ∀ member ∈ members, ∀ steps target, member.2.Leads strategy.normalizer steps target →
        strategy.Enters path ((strategy.normalizer member.1).exported :: steps) →
          target.isCollection = false)
  | [], path => by
      simp [DirectMembers]
  | (name, shape) :: rest, path => by
      have first := direct_iff shape (path.child (strategy.normalizer name).exported)
      have others := directMembers_iff rest path
      rw [DirectMembers, others, List.forall_mem_cons, first]
      refine and_congr_left (fun _ => ?_)
      simp only [Enters]
      cases strategy.isIgnored (path.child (strategy.normalizer name).exported) <;>
        cases strategy.isTagField (path.child (strategy.normalizer name).exported) <;>
          simp

end

theorem areDirect_member {shape : Shape} {site : Site} {inside : List Check}
    (direct : strategy.isIgnored site.path = true ∨ strategy.isTagField site.path = true ∨
      Check.AreDirect inside) : Check.AreDirect (strategy.member shape site inside) := by
  unfold member
  split
  · trivial
  · split
    · exact ⟨trivial, trivial⟩
    · apply Check.areDirect_guarded
      simp_all

mutual

/-- Where no collection is entered, the checks are direct. -/
theorem areDirect_body : (shape : Shape) → (site : Site) → strategy.Direct shape site.path →
    Check.AreDirect (strategy.body shape site)
  | .scalar name kind, site, _ => ⟨trivial, trivial⟩
  | .struct name members, site, direct => by
      rw [body]
      apply Check.areDirect_flatMap
      intro entry membership
      exact areDirect_members members site direct entry (Text.mem_sortedBy.mp membership)

theorem areDirect_members : (members : List (String × Shape)) → (site : Site) →
    strategy.DirectMembers members site.path →
      ∀ entry ∈ strategy.members members site, Check.AreDirect entry.2
  | [], site, _ => by
      simp [Strategy.members]
  | (name, shape) :: rest, site, ⟨first, others⟩ => by
      intro entry membership
      rcases List.mem_cons.mp membership with rfl | inRest
      · apply areDirect_member
        exact first.imp_right (Or.imp_right (areDirect_body shape _))
      · exact areDirect_members rest site others entry inRest

end

theorem member_eq {shape : Shape} {site : Site} {leftInside rightInside : List Check}
    (sameIgnored : left.isIgnored = right.isIgnored) (sameTags : left.isTagField = right.isTagField)
    (inside : left.isIgnored site.path = true ∨ left.isTagField site.path = true ∨
      leftInside = rightInside) :
    left.member shape site leftInside = right.member shape site rightInside := by
  unfold member
  rw [← sameIgnored, ← sameTags]
  rcases inside with ignored | isTags | same
  · rw [if_pos ignored, if_pos ignored]
  · rw [if_pos isTags, if_pos isTags]
  · rw [same]

mutual

/-- Where no collection is entered, strategies that leave out the same members agree. -/
theorem body_eq_of_direct (sameNames : left.normalizer = right.normalizer)
    (sameIgnored : left.isIgnored = right.isIgnored)
    (sameTags : left.isTagField = right.isTagField) : (shape : Shape) → (site : Site) →
      left.Direct shape site.path → left.body shape site = right.body shape site
  | .scalar name kind, site, _ => by
      rw [body, body]
  | .struct name members, site, direct => by
      rw [body, body, members_eq_of_direct sameNames sameIgnored sameTags members site direct]

theorem members_eq_of_direct (sameNames : left.normalizer = right.normalizer)
    (sameIgnored : left.isIgnored = right.isIgnored)
    (sameTags : left.isTagField = right.isTagField) : (members : List (String × Shape)) →
      (site : Site) → left.DirectMembers members site.path →
        left.members members site = right.members members site
  | [], site, _ => by
      rw [Strategy.members, Strategy.members]
  | (name, shape) :: rest, site, ⟨first, others⟩ => by
      have inRest := members_eq_of_direct sameNames sameIgnored sameTags rest site others
      rw [Strategy.members, Strategy.members, inRest, ← sameNames]
      congr 2
      apply member_eq sameIgnored sameTags
      exact first.imp_right (Or.imp_right
        (body_eq_of_direct sameNames sameIgnored sameTags shape (site.member _)))

end

/-- Whether a strategy enters no collection of a resource. -/
def DirectResource (strategy : Strategy) (resource : Resource) : Prop :=
  ∀ field ∈ resource.topLevelFields, field.isReference = true ∨
    strategy.isIgnored field.path = true ∨ strategy.isTagField field.path = true ∨
      strategy.Direct field.shape field.path

instance (strategy : Strategy) (resource : Resource) :
    Decidable (strategy.DirectResource resource) :=
  inferInstanceAs (Decidable (∀ field ∈ resource.topLevelFields, field.isReference = true ∨
    strategy.isIgnored field.path = true ∨ strategy.isTagField field.path = true ∨
      strategy.Direct field.shape field.path))

variable {resource : Resource} {normalizer : Normalizer} {tag : Option Field}

theorem Observes.directResource_iff (observes : strategy.Observes resource normalizer tag)
    (found : resource.tagField = .ok tag) :
    strategy.DirectResource resource ↔
      ∀ path target, resource.Enters normalizer path target → target.isCollection = false := by
  constructor
  · intro direct path target enters
    rcases (observes.enters_iff found).mp enters with
      ⟨field, isTop, noReference, notIgnored, noTags, steps, leads, below, _⟩
    rcases direct field isTop with isReference | ignored | isTags | direct
    · simp [noReference] at isReference
    · simp [notIgnored] at ignored
    · simp [noTags] at isTags
    · rw [← observes.normalizer] at leads
      exact (direct_iff field.shape field.path).mp direct steps target leads below
  · intro none field isTop
    by_cases isReference : field.isReference = true
    · exact Or.inl isReference
    by_cases ignored : strategy.isIgnored field.path = true
    · exact Or.inr (Or.inl ignored)
    by_cases isTags : strategy.isTagField field.path = true
    · exact Or.inr (Or.inr (Or.inl isTags))
    rw [Bool.not_eq_true] at isReference ignored isTags
    refine Or.inr (Or.inr (Or.inr ((direct_iff field.shape field.path).mpr ?_)))
    intro steps target leads below
    rw [observes.normalizer] at leads
    apply none ⟨field.path.segments ++ steps⟩ target
    exact (observes.enters_iff found).mpr
      ⟨field, isTop, isReference, ignored, isTags, steps, leads, below, rfl⟩

/-- Where no collection of a resource is entered, its checks are direct. -/
theorem DirectResource.areDirect (direct : strategy.DirectResource resource)
    (first second : String) :
    Check.AreDirect (strategy.resource resource first second) := by
  apply Check.areDirect_flatMap
  intro field isTop
  unfold outermost
  split
  · exact ⟨trivial, trivial⟩
  · rename_i taken
    apply areDirect_member
    rcases direct field isTop with isReference | ignored | isTags | direct
    · exact Or.inl (by simpa [isReference] using taken)
    · exact Or.inl ignored
    · exact Or.inr (Or.inl isTags)
    · exact Or.inr (Or.inr (areDirect_body field.shape _ direct))

/-- Where no collection of a resource is entered, strategies that observe its settings agree. -/
theorem Observes.resource_eq (leftObserves : left.Observes resource normalizer tag)
    (rightObserves : right.Observes resource normalizer tag)
    (direct : left.DirectResource resource) (first second : String) :
    left.resource resource first second = right.resource resource first second := by
  have sameNames := leftObserves.normalizer.trans rightObserves.normalizer.symm
  have sameIgnored := leftObserves.isIgnored.trans rightObserves.isIgnored.symm
  have sameTags : left.isTagField = right.isTagField := by
    funext path
    rw [leftObserves.isTagField, rightObserves.isTagField]
  rw [Strategy.resource, Strategy.resource, List.flatMap_def, List.flatMap_def]
  apply congrArg List.flatten
  apply List.map_congr_left
  intro field isTop
  unfold outermost
  rw [← sameIgnored]
  split
  · rfl
  · rename_i taken
    apply member_eq sameIgnored sameTags
    rcases direct field isTop with isReference | ignored | isTags | direct
    · exact Or.inl (by simpa [isReference] using taken)
    · exact Or.inl ignored
    · exact Or.inr (Or.inl isTags)
    · exact Or.inr (Or.inr (body_eq_of_direct sameNames sameIgnored sameTags field.shape _ direct))

end Strategy

namespace Equality

variable {resource : Resource} {normalizer : Normalizer}

theorem writeHelpers_empty (normalizer : Normalizer) :
    writeHelpers normalizer .empty = (.ok [], .empty) := by
  rw [writeHelpers.eq_def]
  rfl

/-- Checks that ask for nothing are written without helpers. -/
theorem write_of_demands_eq_nil {checks : List Check} (nothing : Check.demandsOf checks = [])
    (normalizer : Normalizer) (level : Nat) :
    write normalizer checks level .empty =
      (.ok ⟨Code.renderBehindBlank (Check.codeOf action checks) level, ""⟩, .empty) := by
  rw [write, nothing, HelperQueue.meet]
  simp only [writeHelpers_empty]
  rfl

/-- Where no collection is entered, both comparisons plan the same direct checks. -/
theorem exists_direct_checks {tag : Option Field} (found : resource.tagField = .ok tag)
    (noCollection : ∀ path target, resource.Enters normalizer path target →
      target.isCollection = false) (first second : String) :
    ∃ checks, Delta.checks resource normalizer first second = .ok checks ∧
      resourceChecks resource normalizer first second = .ok checks ∧ Check.AreDirect checks := by
  have ofDelta := Delta.observes resource normalizer tag
  have direct := (ofDelta.directResource_iff found).mpr noCollection
  have same := ofDelta.resource_eq (observes resource normalizer tag) direct first second
  refine ⟨_, Delta.checks_of_found found, ?_, direct.areDirect first second⟩
  rw [same]
  exact resourceChecks_of_found found

/--
Equality code of a resource of which no collection is entered is its difference code with every
record replaced by the return of false: both are written for the same resources, with the same
errors, and no helper is asked for. The lines of the difference code are those that its checks are
written as; they are found again in its text if all names and operands are of words.
-/
theorem agrees_with_delta
    (noCollection : ∀ path target, resource.Enters normalizer path target →
      target.isCollection = false) (first second : String) (level : Nat) :
    (∀ error, Delta.compareResource resource normalizer first second level = .error error ↔
      compareResource resource normalizer first second level .empty = (.error error, .empty)) ∧
      ∀ text, Delta.compareResource resource normalizer first second level = .ok text →
        ∃ checks body, Delta.checks resource normalizer first second = .ok checks ∧
          text = (Page.empty.write (Line.blank ::
            Code.linesOf (Check.codeOf Delta.action checks) level)).text ∧
          body = (Page.empty.write (Line.blank ::
            (Code.linesOf (Check.codeOf Delta.action checks) level).map Line.returning)).text ∧
          compareResource resource normalizer first second level .empty =
            (.ok ⟨body, ""⟩, .empty) ∧
          (resource.Named Text.IsWord (Shape.Named normalizer (fun _ => True) Text.IsWord) →
            Text.IsDotted first → Text.IsDotted second → body = Line.returningAll text) := by
  cases found : resource.tagField with
  | error error =>
      have deltaFails : Delta.compareResource resource normalizer first second level =
          .error (.tagField error) := by
        rw [Delta.compareResource, Delta.checks_of_missing found]
        rfl
      have equalityFails : compareResource resource normalizer first second level .empty =
          (.error (.tagField error), .empty) := by
        rw [compareResource, resourceChecks_of_missing found]
      rw [deltaFails, equalityFails]
      simp
  | ok tag =>
      rcases exists_direct_checks found noCollection first second with
        ⟨checks, ofDelta, ofEquality, direct⟩
      have nothing := Check.demandsOf_of_areDirect checks direct
      have lines := Check.linesOf_of_areDirect checks level direct
      have met : Demand.unmet? (Check.demandsOf checks) = none := by
        rw [nothing]
        rfl
      have written := Delta.compareResource_of_met ofDelta met level
      have returns : compareResource resource normalizer first second level .empty =
          (.ok ⟨Code.renderBehindBlank (Check.codeOf action checks) level, ""⟩, .empty) := by
        rw [compareResource, ofEquality]
        exact write_of_demands_eq_nil nothing normalizer level
      rw [written, returns]
      refine ⟨by simp, ?_⟩
      intro text same
      cases same
      refine ⟨checks, _, ofDelta, Code.renderBehindBlank_eq _ _, ?_, rfl, ?_⟩
      · rw [Code.renderBehindBlank_eq, lines]
      · intro named firstDotted secondDotted
        have planned : (Delta.strategy resource normalizer (tag.map Field.path)).resource resource
            first second = checks :=
          Except.ok.inj ((Delta.checks_of_found found).symm.trans ofDelta)
        rcases Delta.readAll_written named firstDotted secondDotted written with
          ⟨other, isTag, _, readBack⟩
        cases found.symm.trans isTag
        rw [planned] at readBack
        rw [Line.returningAll, readBack, Code.renderBehindBlank_eq, lines, List.map_cons,
          Line.returning_blank]

/-- A definition with tags, a structure and a nested list. -/
def taggedDefinition : ResourceDefinition where
  name := "Thing"
  spec := .struct "ThingSpec" [
    ("Tags", Shape.mappingOf .string (Shape.scalarOf .string)),
    ("RoleName", Shape.scalarOf .string),
    ("Config", .struct "Config" [
      ("Mode", Shape.scalarOf .string),
      ("Zones", Shape.sequenceOf (Shape.scalarOf .string))])]
  status := none
  operations := ∅

/-- Settings that leave out the list and take the role from another resource. -/
def zonesIgnored : Settings where
  resources := .ofList [("Thing", {
    fields := .ofList [
      ("RoleName", {
        references := some {
          resource := "Role", service := none, path := "Spec.Name", skipStateCheck := false } }),
      ("Config.Zones", { isCompareIgnored := true })] })]

/-- The only collections of the definition are the tags and the list that is left out. -/
theorem agrees_with_delta_zonesIgnored :
    ∃ resource text, Resource.ofDefinition taggedDefinition zonesIgnored .default = .ok resource ∧
      (∀ path target, resource.Enters .default path target → target.isCollection = false) ∧
        Delta.compareResource resource .default "a.ko" "b.ko" 1 = .ok text ∧
          compareResource resource .default "a.ko" "b.ko" 1 .empty =
            (.ok ⟨Line.returningAll text, ""⟩, .empty) := by
  have facts : ∃ resource ∈ (Resource.ofDefinition taggedDefinition zonesIgnored
      .default).toOption, ∃ tag ∈ resource.tagField.toOption,
        (Delta.strategy resource .default (tag.map Field.path)).DirectResource resource ∧
          resource.Named Text.IsWord (Shape.Named .default (fun _ => True) Text.IsWord) ∧
            (Delta.compareResource resource .default "a.ko" "b.ko" 1).toOption.isSome = true := by
    decide +kernel
  rcases facts with ⟨resource, made, tag, isTag, direct, named, succeeds⟩
  rcases Option.isSome_iff_exists.mp succeeds with ⟨text, given⟩
  have found := Outcome.of_mem_toOption isTag
  have written := Outcome.of_mem_toOption given
  have noCollection := ((Delta.observes resource .default tag).directResource_iff found).mp direct
  rcases (agrees_with_delta noCollection "a.ko" "b.ko" 1).2 text written with
    ⟨checks, body, _, _, _, returns, ofText⟩
  rw [ofText named (by decide) (by decide)] at returns
  exact ⟨resource, text, Outcome.of_mem_toOption made, noCollection, written, returns⟩

end Equality

end Reconcile
