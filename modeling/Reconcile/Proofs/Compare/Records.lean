import Reconcile.Proofs.Code.Nesting
import Reconcile.Proofs.Compare.Entering

/-!
# What difference code records

The lines of difference code that record a difference are those at the visited sites, in the order
in which the checks visit them (`Delta.recorded_codeOf`). Nothing is assumed of names here.
-/

namespace Reconcile

/-- Whether checks visit a site first and after it only sites below it. -/
def Check.VisitFrom (site : Site) (checks : List Check) : Prop :=
  ∃ below, sitesOf checks = site :: below ∧
    ∀ visited ∈ below, ∃ steps, visited = site.descend steps

theorem Check.VisitFrom.mem {site : Site} {checks : List Check} (visits : VisitFrom site checks) :
    site ∈ sitesOf checks := by
  rcases visits with ⟨below, visited, _⟩
  rw [visited]
  exact List.mem_cons_self

theorem Check.visitFrom_single {site : Site} {check : Check} (only : check.sites = [site]) :
    VisitFrom site [check] :=
  ⟨[], by simp [sitesOf, only], by simp⟩

namespace Delta

/-- Whether a line records a difference. -/
def isRecord (text : String) : Bool :=
  "delta.Add(".toList.isPrefixOf text.toList

/-- The texts of the lines that record differences, in order. -/
def recorded (lines : List Line) : List String :=
  (lines.map Line.text).filter isRecord

@[simp]
theorem recorded_append (left right : List Line) :
    recorded (left ++ right) = recorded left ++ recorded right := by
  simp [recorded]

theorem mem_recorded {text : String} {lines : List Line} :
    text ∈ recorded lines ↔ (∃ line ∈ lines, line.text = text) ∧ isRecord text = true := by
  rw [recorded, List.mem_filter, List.mem_map]

theorem isRecord_record (first second : String) (path : FieldPath) :
    isRecord (record first second path) = true := by
  rw [isRecord, record_eq, List.isPrefixOf_iff_prefix]
  simp

theorem isRecord_action (site : Site) : isRecord (action site) = true := by
  rw [isRecord, action_eq, List.isPrefixOf_iff_prefix]
  simp

theorem recorded_cons (line : Line) (rest : List Line) :
    recorded (line :: rest) =
      if isRecord line.text then line.text :: recorded rest else recorded rest := by
  simp [recorded, List.filter_cons]

theorem recorded_action (site : Site) (level : Nat) (rest : List Line) :
    recorded (⟨level, action site⟩ :: rest) = action site :: recorded rest := by
  simp [recorded_cons, isRecord_action]

/-- The lines of comparisons that are no actions record nothing. -/
theorem recorded_front {line : Line} (front : String) (rest : List Line)
    (isFront : front ∈ Line.fronts) (begins : front.toList <+: line.text.toList) :
    recorded (line :: rest) = recorded rest := by
  have apart : ∀ front ∈ Line.fronts, ¬front.toList <+: "delta.Add(".toList ∧
      ¬"delta.Add(".toList <+: front.toList := by
    decide
  have noRecord : isRecord line.text = false := by
    rw [← Bool.not_eq_true, isRecord, List.isPrefixOf_iff_prefix]
    intro isRecord
    rcases List.prefix_or_prefix_of_prefix begins isRecord with shorter | longer
    · exact (apart front isFront).1 shorter
    · exact (apart front isFront).2 longer
  simp [recorded_cons, noRecord]

theorem recorded_close (level : Nat) (rest : List Line) :
    recorded (⟨level, "\x7d"⟩ :: rest) = recorded rest :=
  recorded_front "\x7d" rest (by decide) (List.prefix_refl _)

theorem recorded_block {header : String} {body : List Code} {level : Nat} (front : String)
    (isFront : front ∈ Line.fronts) (begins : front.toList <+: header.toList) :
    recorded (Code.linesOf [.block header body] level) =
      recorded (Code.linesOf body (level + 1)) := by
  have whole : front.toList <+: (header ++ " \x7b").toList :=
    begins.trans (by simp)
  simp only [Code.linesOf, Code.lines, List.append_nil]
  rw [recorded_front front _ isFront whole, recorded_append, recorded_close]
  simp [recorded]

theorem recorded_branch {header otherwise : String} {body alternative : List Code} {level : Nat}
    (front : String) (isFront : front ∈ Line.fronts) (begins : front.toList <+: header.toList) :
    recorded (Code.linesOf [.branch header body otherwise alternative] level) =
      recorded (Code.linesOf body (level + 1)) ++
        recorded (Code.linesOf alternative (level + 1)) := by
  have whole : front.toList <+: (header ++ " \x7b").toList :=
    begins.trans (by simp)
  have isOtherwise : "\x7d".toList <+: ("\x7d " ++ otherwise ++ " \x7b").toList := by simp
  simp only [Code.linesOf, Code.lines, List.append_nil]
  rw [recorded_front front _ isFront whole, recorded_append,
    recorded_front "\x7d" _ (by decide) isOtherwise, recorded_append, recorded_close]
  simp [recorded]

theorem recorded_line_action (site : Site) (level : Nat) :
    recorded (Code.linesOf [.line (action site)] level) = [action site] := by
  rw [Code.linesOf, Code.lines, List.singleton_append, recorded_action]
  rfl

mutual

/-- What a check records. A remark could begin like a record, so that there must be none. -/
theorem recorded_code : (check : Check) → (level : Nat) → Code.AreUntitled (check.code action) →
    recorded (Code.linesOf (check.code action) level) = check.sites.map action
  | .present site inside, level, ⟨⟨_, untitled⟩, _⟩ => by
      rw [Check.code, recorded_branch "if " (by decide) (by simp), recorded_line_action,
        recorded_codeOf inside (level + 1) untitled]
      rfl
  | .unequal site test, level, _ => by
      rw [Check.code, recorded_block "if " (by decide) (by simp), recorded_line_action]
      rfl
  | .tags site, level, _ => by
      rw [Check.code, Code.linesOf, Code.linesOf, Code.lines, Code.lines, List.singleton_append,
        List.singleton_append, recorded_front "desiredACKTags" _ (by decide) (by simp),
        recorded_front "latestACKTags" _ (by decide) (by simp),
        recorded_block "if " (by decide) (by simp), recorded_line_action]
      rfl
  | .sized site inside, level, ⟨⟨_, untitled⟩, _⟩ => by
      rw [Check.code, recorded_branch "if " (by decide) (by simp), recorded_line_action,
        recorded_codeOf inside (level + 1) untitled]
      rfl
  | .keys site, level, _ => by
      rw [Check.code, recorded_block "for " (by decide) (by simp),
        recorded_block "if " (by decide) (by simp), recorded_line_action]
      rfl
  | .eachIndex site inside, level, ⟨untitled, _⟩ => by
      rw [Check.code, recorded_block "for " (by decide) (by simp),
        recorded_codeOf inside (level + 1) untitled, Check.sites]
  | .eachEntry site inside, level, ⟨⟨_, untitled⟩, _⟩ => by
      rw [Check.code, recorded_block "for " (by decide) (by simp), Code.linesOf, Code.lines,
        List.singleton_append, recorded_front "bv := " _ (by decide) (by simp),
        recorded_codeOf inside (level + 1) untitled, Check.sites]
  | .todo what, level, _ => by
      rw [Check.code, Code.linesOf, Code.lines, List.singleton_append,
        recorded_front "// TODO: " _ (by decide) (by simp)]
      rfl
  | .remark _ _, _, untitled => absurd untitled.1 id
  | .rejected _ _, _, _ => rfl

theorem recorded_codeOf : (checks : List Check) → (level : Nat) →
    Code.AreUntitled (Check.codeOf action checks) →
      recorded (Code.linesOf (Check.codeOf action checks) level) =
        (Check.sitesOf checks).map action
  | [], _, _ => rfl
  | check :: rest, level, untitled => by
      rw [Check.codeOf, Code.areUntitled_append] at untitled
      rw [Check.codeOf, Code.linesOf_append, recorded_append, Check.sitesOf, List.map_append,
        recorded_code check level untitled.1, recorded_codeOf rest level untitled.2]

end

/-! ### Plans without remarks -/

theorem areUntitled_flatMap {α : Type} {items : List α} {checks : α → List Check}
    (untitled : ∀ item ∈ items, Code.AreUntitled (Check.codeOf action (checks item))) :
    Code.AreUntitled (Check.codeOf action (items.flatMap checks)) := by
  induction items with
  | nil => trivial
  | cons item rest ih =>
      rw [List.forall_mem_cons] at untitled
      rw [List.flatMap_cons, Check.codeOf_append, Code.areUntitled_append]
      exact ⟨untitled.1, ih untitled.2⟩

theorem areUntitled_member {strategy : Strategy} (shape : Shape) (site : Site)
    {inside : List Check} (untitled : Code.AreUntitled (Check.codeOf action inside)) :
    Code.AreUntitled (Check.codeOf action (strategy.member shape site inside)) := by
  unfold Strategy.member
  split
  · trivial
  · split
    · exact ⟨trivial, trivial, ⟨trivial, trivial⟩, trivial⟩
    · unfold Check.guarded
      split
      · exact ⟨⟨⟨trivial, trivial⟩, untitled⟩, trivial⟩
      · exact untitled

theorem areUntitled_unequal (site : Site) (test : Test) :
    Code.AreUntitled (Check.codeOf action [.unequal site test]) :=
  ⟨⟨trivial, trivial⟩, trivial⟩

theorem areUntitled_sized (site : Site) {inside : List Check}
    (untitled : Code.AreUntitled (Check.codeOf action inside)) :
    Code.AreUntitled (Check.codeOf action [.sized site inside]) :=
  ⟨⟨⟨trivial, trivial⟩, untitled⟩, trivial⟩

theorem areUntitled_sequenceChecks (site : Site) (element : Shape) :
    Code.AreUntitled (Check.codeOf action (sequenceChecks site element)) := by
  unfold sequenceChecks
  split
  · exact areUntitled_unequal site _
  · exact areUntitled_unequal site _
  · exact areUntitled_unequal site _
  · exact ⟨trivial, trivial⟩

theorem areUntitled_mappingChecks (site : Site) (value : Shape) :
    Code.AreUntitled (Check.codeOf action (mappingChecks site value)) := by
  unfold mappingChecks
  split
  · exact areUntitled_unequal site _
  · exact areUntitled_unequal site _

variable {resource : Resource} {normalizer : Normalizer} {tagPath : Option FieldPath}

mutual

theorem areUntitled_body : (shape : Shape) → (site : Site) → Code.AreUntitled
    (Check.codeOf action ((strategy resource normalizer tagPath).body shape site))
  | .scalar name kind, site => areUntitled_unequal site _
  | .sequence name element, site =>
      areUntitled_sized site (areUntitled_sequenceChecks site element)
  | .mapping name key value, site => by
      rw [Strategy.body]
      split
      · exact areUntitled_sized site (areUntitled_mappingChecks site value)
      · trivial
  | .struct name members, site => by
      rw [Strategy.body_struct]
      apply areUntitled_flatMap
      intro member listed
      exact areUntitled_memberEntry members member (Text.mem_sortedBy.mp listed) site

theorem areUntitled_memberEntry : (members : List (String × Shape)) → ∀ member ∈ members,
    ∀ site, Code.AreUntitled
      (Check.codeOf action ((strategy resource normalizer tagPath).memberEntry site member).2)
  | [], _, listed, _ => absurd listed List.not_mem_nil
  | (name, shape) :: rest, member, listed, site => by
      rcases List.mem_cons.mp listed with rfl | inRest
      · exact areUntitled_member _ _ (areUntitled_body shape _)
      · exact areUntitled_memberEntry rest member inRest site

end

/-- Difference code has no titles, whatever the names in the resource are. -/
theorem areUntitled_resource (first second : String) : Code.AreUntitled (Check.codeOf action
    ((strategy resource normalizer tagPath).resource resource first second)) := by
  apply areUntitled_flatMap
  intro field _
  unfold Strategy.outermost
  split
  · exact areUntitled_unequal _ _
  · exact areUntitled_member _ _ (areUntitled_body _ _)

/-- The lines of difference code record the visited sites, each with what reaches it. -/
theorem recorded_resource (first second : String) (level : Nat) :
    recorded (Line.blank :: Code.linesOf (Check.codeOf action
        ((strategy resource normalizer tagPath).resource resource first second)) level) =
      (Check.sitesOf
        ((strategy resource normalizer tagPath).resource resource first second)).map action := by
  rw [← recorded_codeOf _ level (areUntitled_resource first second)]
  rfl

/-! ### The first site of a member -/

theorem visitFrom_guarded (shape : Shape) (site : Site) :
    Check.VisitFrom site (Check.guarded shape site
      ((strategy resource normalizer tagPath).body shape site)) := by
  unfold Check.guarded
  split
  · refine ⟨Check.sitesOf ((strategy resource normalizer tagPath).body shape site),
      by simp [Check.sitesOf, Check.sites], ?_⟩
    intro visited isBelow
    rcases (mem_sitesOf_body shape site visited).mp (Or.inr isBelow) with ⟨steps, _, _, same⟩
    exact ⟨steps, same⟩
  · rename_i noGuard
    cases shape with
    | scalar name kind =>
        cases kind with
        | blob => exact Check.visitFrom_single rfl
        | string => exact absurd rfl noGuard
        | integer => exact absurd rfl noGuard
        | float => exact absurd rfl noGuard
        | boolean => exact absurd rfl noGuard
        | timestamp => exact absurd rfl noGuard
    | sequence name element =>
        refine ⟨Check.sitesOf (sequenceChecks site element),
          by simp [Strategy.body, strategy, Check.sitesOf, Check.sites], ?_⟩
        intro visited isBelow
        exact ⟨[], site_of_sequenceChecks isBelow⟩
    | struct name members => exact absurd rfl noGuard
    | mapping name key value => exact absurd rfl noGuard

theorem visitFrom_member {shape : Shape} {site : Site}
    (notIgnored : resource.isCompareIgnored site.path = false) :
    Check.VisitFrom site ((strategy resource normalizer tagPath).member shape site
      ((strategy resource normalizer tagPath).body shape site)) := by
  unfold Strategy.member
  split
  · rename_i ignored
    exact Bool.noConfusion (notIgnored.symm.trans ignored)
  · split
    · exact Check.visitFrom_single rfl
    · exact visitFrom_guarded shape site

theorem visitFrom_outermost {field : Field} {site : Site}
    (notIgnored : resource.isCompareIgnored site.path = false) :
    Check.VisitFrom site ((strategy resource normalizer tagPath).outermost field site) := by
  unfold Strategy.outermost
  split
  · exact Check.visitFrom_single rfl
  · exact visitFrom_member notIgnored

theorem member_of_ignored {shape : Shape} {site : Site} {inside : List Check}
    (ignored : resource.isCompareIgnored site.path = true) :
    (strategy resource normalizer tagPath).member shape site inside = [] :=
  if_pos ignored

theorem outermost_of_ignored {field : Field} {site : Site}
    (ignored : resource.isCompareIgnored site.path = true) :
    (strategy resource normalizer tagPath).outermost field site = [] := by
  have notTaken : (field.isReference &&
      !(strategy resource normalizer tagPath).isIgnored site.path) ≠ true := by
    simp [strategy, ignored]
  rw [Strategy.outermost, if_neg notTaken, member_of_ignored ignored]

end Delta

end Reconcile
