import Reconcile.Compare.Strategy
import Reconcile.Proofs.Code.Terms

/-!
# Lines of comparisons

Every line that checks are written as has one of a few forms (`Emitted`). The forms record what
makes a line safe: the site that the line looks at is reached from the root of the comparison
through members of values that are known to be present, and a line that follows a pointer
stands in the block of a guard for that pointer. Checks that are planned accordingly
(`Check.Sound`) are written as such lines only (`holdsOf_codeOf`), so that a property of
emitted lines is shown form by form.
-/

namespace Reconcile

namespace Site

/-- The header of the block that runs if both sides are present. -/
def presentHeader (site : Site) : String :=
  "\x7d " ++ ("else if " ++ site.first.isPresent ++ " && " ++ site.second.isPresent) ++ " \x7b"

/-- Whether members of the value may be selected: it is the root or its guard is open. -/
def IsOpen (site root : Site) (blocks : List String) : Prop :=
  (site.first = root.first ∧ site.second = root.second) ∨ site.presentHeader ∈ blocks

/-- Whether a site is reached from a root through members of values that are present. -/
inductive Reached (root : Site) (blocks : List String) : Site → Prop
  | root : Reached root blocks root
  | member {site : Site} {path : FieldPath} {name : String} (reached : Reached root blocks site)
      (isOpen : site.IsOpen root blocks) (word : Text.IsWord name)
      (pathWords : ∀ segment ∈ path.segments, Text.IsWord segment) :
      Reached root blocks ⟨path, site.first.member name, site.second.member name⟩
  | index {site : Site} {position : String} (reached : Reached root blocks site)
      (word : Text.IsWord position) : Reached root blocks (site.index position)
  | held {site : Site} (reached : Reached root blocks site) :
      Reached root blocks (site.held "av" "bv")

variable {root site : Site} {blocks more : List String}

theorem IsOpen.mono (isOpen : site.IsOpen root blocks) (within : blocks ⊆ more) :
    site.IsOpen root more := by
  rcases isOpen with isRoot | guarded
  · exact Or.inl isRoot
  · exact Or.inr (within guarded)

theorem Reached.mono (reached : Reached root blocks site) (within : blocks ⊆ more) :
    Reached root more site := by
  induction reached with
  | root => exact .root
  | member _ isOpen word pathWords ih => exact .member ih (isOpen.mono within) word pathWords
  | index _ word ih => exact .index ih word
  | held _ ih => exact .held ih

theorem Reached.cons (reached : Reached root blocks site) (header : String) :
    Reached root (header :: blocks) site :=
  reached.mono (List.subset_cons_self header blocks)

theorem Reached.pathWords (reached : Reached root blocks site)
    (rootWords : ∀ segment ∈ root.path.segments, Text.IsWord segment) :
    ∀ segment ∈ site.path.segments, Text.IsWord segment := by
  induction reached with
  | root => exact rootWords
  | member _ _ _ pathWords _ => exact pathWords
  | index _ _ ih => exact ih
  | held _ ih => exact ih

end Site

/-- Whether a test may run at a site: a pointer that it follows must be known to be present. -/
def Test.IsSafe (root : Site) (blocks : List String) (site : Site) : Test → Prop
  | .scalar .blob => True
  | .scalar _ => site.IsOpen root blocks
  | .helper _ => site.presentHeader ∈ blocks
  | _ => True

/-- Whether a text consists of words with blanks between them. -/
def Text.IsPhrase (text : String) : Prop :=
  ∀ letter ∈ text.toList, isWordLetter letter = true ∨ letter = ' '

instance (text : String) : Decidable (Text.IsPhrase text) :=
  List.decidableBAll (fun letter => Text.isWordLetter letter = true ∨ letter = ' ') text.toList

theorem Text.IsPhrase.append {left right : String} (leftPhrase : IsPhrase left)
    (rightPhrase : IsPhrase right) : IsPhrase (left ++ right) := by
  intro letter membership
  rw [String.toList_append, List.mem_append] at membership
  rcases membership with inLeft | inRight
  · exact leftPhrase letter inLeft
  · exact rightPhrase letter inRight

/-- The lines of comparisons. Differences are acted on at visited sites. -/
inductive Emitted (root : Site) (action : Site → String) (asked : Shape → Prop)
    (visited : Site → Prop) (blocks : List String) : String → Prop
  | missing {site : Site} (reached : Site.Reached root blocks site) :
      Emitted root action asked visited blocks
        ("if ackcompare.HasNilDifference(" ++ site.first.text ++ ", " ++ site.second.text ++ ")" ++
          " \x7b")
  | present {site : Site} (reached : Site.Reached root blocks site) :
      Emitted root action asked visited blocks site.presentHeader
  | unequal {site : Site} {test : Test} (reached : Site.Reached root blocks site)
      (safe : test.IsSafe root blocks site) (known : ∀ shape, test = .helper shape → asked shape) :
      Emitted root action asked visited blocks ("if " ++ test.condition site ++ " \x7b")
  | firstTags {site : Site} (reached : Site.Reached root blocks site) :
      Emitted root action asked visited blocks
        ("desiredACKTags, _ := convertToOrderedACKTags(" ++ site.first.text ++ ")")
  | secondTags {site : Site} (reached : Site.Reached root blocks site) :
      Emitted root action asked visited blocks
        ("latestACKTags, _ := convertToOrderedACKTags(" ++ site.second.text ++ ")")
  | unequalTags :
      Emitted root action asked visited blocks
        ("if !ackcompare.MapStringStringEqual(desiredACKTags, latestACKTags)" ++ " \x7b")
  | nonempty {site : Site} (reached : Site.Reached root blocks site) :
      Emitted root action asked visited blocks
        ("\x7d " ++ ("else if len(" ++ site.first.text ++ ") > 0") ++ " \x7b")
  | eachKey {site : Site} (reached : Site.Reached root blocks site) :
      Emitted root action asked visited blocks ("for k := range " ++ site.first.text ++ " \x7b")
  | lacksKey {site : Site} (reached : Site.Reached root blocks site) :
      Emitted root action asked visited blocks
        ("if _, ok := " ++ site.second.text ++ "[k]; !ok" ++ " \x7b")
  | eachIndex {site : Site} (reached : Site.Reached root blocks site) :
      Emitted root action asked visited blocks ("for i := range " ++ site.first.text ++ " \x7b")
  | eachEntry {site : Site} (reached : Site.Reached root blocks site) :
      Emitted root action asked visited blocks ("for k, av := range " ++ site.first.text ++ " \x7b")
  | entryValue {site : Site} (reached : Site.Reached root blocks site) :
      Emitted root action asked visited blocks ("bv := " ++ site.second.text ++ "[k]")
  | todo {what : String} (phrase : Text.IsPhrase what) :
      Emitted root action asked visited blocks ("// TODO: " ++ what ++ " is not yet implemented")
  | action {site : Site} (reached : Site.Reached root blocks site) (isVisited : visited site) :
      Emitted root action asked visited blocks (action site)
  | close : Emitted root action asked visited blocks "\x7d"

/-- What the lines of comparisons begin with, apart from actions. -/
def Line.fronts : List String :=
  ["if ", "\x7d", "for ", "desiredACKTags", "latestACKTags", "bv := ", "// TODO: "]

namespace Emitted

variable {root : Site} {action : Site → String} {asked : Shape → Prop} {visited : Site → Prop}
  {blocks : List String} {text : String}

/-- A line of a comparison is an action at a visited site or has a known beginning. -/
theorem visited_or_front (emitted : Emitted root action asked visited blocks text) :
    (∃ site, visited site ∧ Site.Reached root blocks site ∧ text = action site) ∨
      ∃ front ∈ Line.fronts, front.toList <+: text.toList := by
  cases emitted with
  | @action site reached isVisited => exact Or.inl ⟨site, isVisited, reached, rfl⟩
  | missing reached => exact Or.inr ⟨"if ", by simp [Line.fronts], by simp⟩
  | present reached => exact Or.inr ⟨"\x7d", by simp [Line.fronts], by simp [Site.presentHeader]⟩
  | unequal reached safe known => exact Or.inr ⟨"if ", by simp [Line.fronts], by simp⟩
  | firstTags reached => exact Or.inr ⟨"desiredACKTags", by simp [Line.fronts], by simp⟩
  | secondTags reached => exact Or.inr ⟨"latestACKTags", by simp [Line.fronts], by simp⟩
  | unequalTags => exact Or.inr ⟨"if ", by simp [Line.fronts], by simp⟩
  | nonempty reached => exact Or.inr ⟨"\x7d", by simp [Line.fronts], by simp⟩
  | eachKey reached => exact Or.inr ⟨"for ", by simp [Line.fronts], by simp⟩
  | lacksKey reached => exact Or.inr ⟨"if ", by simp [Line.fronts], by simp⟩
  | eachIndex reached => exact Or.inr ⟨"for ", by simp [Line.fronts], by simp⟩
  | eachEntry reached => exact Or.inr ⟨"for ", by simp [Line.fronts], by simp⟩
  | entryValue reached => exact Or.inr ⟨"bv := ", by simp [Line.fronts], by simp⟩
  | todo phrase => exact Or.inr ⟨"// TODO: ", by simp [Line.fronts], by simp⟩
  | close => exact Or.inr ⟨"\x7d", by simp [Line.fronts], by simp⟩

theorem visited_of_start (emitted : Emitted root action asked visited blocks text) {start : String}
    (apart : ∀ front ∈ Line.fronts,
      ¬front.toList <+: start.toList ∧ ¬start.toList <+: front.toList)
    (begins : start.toList <+: text.toList) :
    ∃ site, visited site ∧ Site.Reached root blocks site ∧ text = action site := by
  rcases emitted.visited_or_front with isAction | ⟨front, isFront, beginsFront⟩
  · exact isAction
  · exfalso
    rcases List.prefix_or_prefix_of_prefix beginsFront begins with shorter | longer
    · exact (apart front isFront).1 shorter
    · exact (apart front isFront).2 longer

end Emitted

namespace Check

mutual

/-- The sites whose differences a check acts on, in order. -/
def sites : Check → List Site
  | .present site inside => site :: sitesOf inside
  | .unequal site _ => [site]
  | .tags site => [site]
  | .sized site inside => site :: sitesOf inside
  | .keys site => [site]
  | .eachIndex _ inside => sitesOf inside
  | .eachEntry _ inside => sitesOf inside
  | .todo _ => []
  | .remark _ inside => sitesOf inside
  | .rejected _ _ => []

/-- The sites whose differences checks act on, in order. -/
def sitesOf : List Check → List Site
  | [] => []
  | check :: rest => check.sites ++ sitesOf rest

end

theorem mem_sitesOf {site : Site} {checks : List Check} :
    site ∈ sitesOf checks ↔ ∃ check ∈ checks, site ∈ check.sites := by
  induction checks with
  | nil => simp [sitesOf]
  | cons check rest ih => simp [sitesOf, ih]

section

variable (root : Site) (plain : Shape → Prop)

mutual

/--
Whether a check looks at reached sites only, follows present pointers only and asks for the
helpers of plain shapes only.
-/
def Sound (blocks : List String) : Check → Prop
  | .present site inside =>
      Site.Reached root blocks site ∧ SoundOf (site.presentHeader :: blocks) inside
  | .unequal site test =>
      Site.Reached root blocks site ∧ test.IsSafe root blocks site ∧
        ∀ shape, test = .helper shape → plain shape
  | .tags site => Site.Reached root blocks site
  | .sized site inside =>
      Site.Reached root blocks site ∧
        SoundOf (("\x7d " ++ ("else if len(" ++ site.first.text ++ ") > 0") ++ " \x7b") ::
          blocks) inside
  | .keys site => Site.Reached root blocks site
  | .eachIndex site inside =>
      Site.Reached root blocks site ∧
        SoundOf (("for i := range " ++ site.first.text ++ " \x7b") :: blocks) inside
  | .eachEntry site inside =>
      Site.Reached root blocks site ∧
        SoundOf (("for k, av := range " ++ site.first.text ++ " \x7b") :: blocks) inside
  | .todo what => Text.IsPhrase what
  | .remark _ _ => False
  | .rejected _ _ => True

/-- Whether all checks are sound. -/
def SoundOf (blocks : List String) : List Check → Prop
  | [] => True
  | check :: rest => check.Sound blocks ∧ SoundOf blocks rest

end

end

theorem soundOf_iff {root : Site} {plain : Shape → Prop} {blocks : List String}
    {checks : List Check} :
    SoundOf root plain blocks checks ↔ ∀ check ∈ checks, check.Sound root plain blocks := by
  induction checks with
  | nil => simp [SoundOf]
  | cons check rest ih => simp [SoundOf, ih]

mutual

/-- A sound check demands the helpers of plain shapes only. -/
theorem plain_of_sound {root : Site} {plain : Shape → Prop} {blocks : List String} :
    (check : Check) → check.Sound root plain blocks →
      ∀ shape ∈ Demand.shapes check.demands, plain shape
  | .present _ inside, ⟨_, sound⟩ => by
      simpa [demands] using plain_of_soundOf inside sound
  | .unequal _ test, ⟨_, _, plainShapes⟩ => by
      cases test with
      | helper shape => simpa [demands, Demand.shapes] using plainShapes
      | scalar kind => simp [demands, Demand.shapes]
      | whole => simp [demands, Demand.shapes]
      | length => simp [demands, Demand.shapes]
      | textList => simp [demands, Demand.shapes]
      | textMap => simp [demands, Demand.shapes]
  | .tags _, _ => by simp [demands, Demand.shapes]
  | .sized _ inside, ⟨_, sound⟩ => by
      simpa [demands] using plain_of_soundOf inside sound
  | .keys _, _ => by simp [demands, Demand.shapes]
  | .eachIndex _ inside, ⟨_, sound⟩ => by
      simpa [demands] using plain_of_soundOf inside sound
  | .eachEntry _ inside, ⟨_, sound⟩ => by
      simpa [demands] using plain_of_soundOf inside sound
  | .todo _, _ => by simp [demands, Demand.shapes]
  | .remark _ _, impossible => impossible.elim
  | .rejected _ _, _ => by simp [demands, Demand.shapes]

theorem plain_of_soundOf {root : Site} {plain : Shape → Prop} {blocks : List String} :
    (checks : List Check) → SoundOf root plain blocks checks →
      ∀ shape ∈ Demand.shapes (demandsOf checks), plain shape
  | [], _ => by simp [demandsOf, Demand.shapes]
  | check :: rest, ⟨sound, restSound⟩ => by
      rw [demandsOf, Demand.shapes_append]
      intro shape membership
      rcases List.mem_append.mp membership with inCheck | inRest
      · exact plain_of_sound check sound shape inCheck
      · exact plain_of_soundOf rest restSound shape inRest

end

variable {root : Site} {action : Site → String} {plain asked : Shape → Prop}
  {visited : Site → Prop}

/-- Whether the statement at a difference neither opens nor closes a block. -/
def IsFlat (action : Site → String) : Prop :=
  ∀ site, Line.closes (action site) = false ∧ Line.opens (action site) = false

theorem holdsOf_action {blocks : List String} {site : Site} (flat : IsFlat action)
    (reached : Site.Reached root blocks site) (isVisited : visited site) (header : String) :
    Code.HoldsOf (Emitted root action asked visited) (header :: blocks) [.line (action site)] :=
  ⟨⟨(flat site).1, (flat site).2, .action (reached.cons header) isVisited⟩, trivial⟩

mutual

/-- A sound check is written as lines of comparisons. -/
theorem holdsOf_code (flat : IsFlat action) {blocks : List String} : (check : Check) →
    check.Sound root plain blocks → (∀ shape ∈ Demand.shapes check.demands, asked shape) →
      (∀ site ∈ check.sites, visited site) →
        Code.HoldsOf (Emitted root action asked visited) blocks (check.code action)
  | .present site inside, ⟨reached, sound⟩, known, all => by
      rw [sites, List.forall_mem_cons] at all
      have insideHolds := holdsOf_codeOf flat inside sound (by simpa [demands] using known) all.2
      rw [code]
      refine ⟨⟨by simp [Line.closes], .missing reached, holdsOf_action flat reached all.1 _, ?_,
        insideHolds, .close⟩, trivial⟩
      exact .present reached
  | .unequal site test, ⟨reached, safe, _⟩, known, all => by
      rw [sites, List.forall_mem_singleton] at all
      rw [code]
      refine ⟨⟨by simp [Line.closes], .unequal reached safe ?_, holdsOf_action flat reached all _,
        .close⟩, trivial⟩
      rintro shape rfl
      exact known shape (by simp [demands, Demand.shapes])
  | .tags site, reached, _, all => by
      rw [sites, List.forall_mem_singleton] at all
      rw [code]
      exact ⟨⟨by simp [Line.closes], Line.opens_append _ (by decide), .firstTags reached⟩,
        ⟨by simp [Line.closes], Line.opens_append _ (by decide), .secondTags reached⟩,
        ⟨by simp [Line.closes], .unequalTags, holdsOf_action flat reached all _, .close⟩,
        trivial⟩
  | .sized site inside, ⟨reached, sound⟩, known, all => by
      rw [sites, List.forall_mem_cons] at all
      have insideHolds := holdsOf_codeOf flat inside sound (by simpa [demands] using known) all.2
      rw [code]
      refine ⟨⟨by simp [Line.closes], ?_, holdsOf_action flat reached all.1 _, .nonempty reached,
        insideHolds, .close⟩, trivial⟩
      exact .unequal reached (trivial : Test.length.IsSafe root blocks site) (by simp)
  | .keys site, reached, _, all => by
      rw [sites, List.forall_mem_singleton] at all
      rw [code]
      exact ⟨⟨by simp [Line.closes], .eachKey reached,
        ⟨⟨by simp [Line.closes], .lacksKey (reached.cons _),
          holdsOf_action flat (reached.cons _) all _, .close⟩, trivial⟩, .close⟩, trivial⟩
  | .eachIndex site inside, ⟨reached, sound⟩, known, all => by
      have insideHolds := holdsOf_codeOf flat inside sound (by simpa [demands] using known)
        (by simpa [sites] using all)
      rw [code]
      exact ⟨⟨by simp [Line.closes], .eachIndex reached, insideHolds, .close⟩, trivial⟩
  | .eachEntry site inside, ⟨reached, sound⟩, known, all => by
      have insideHolds := holdsOf_codeOf flat inside sound (by simpa [demands] using known)
        (by simpa [sites] using all)
      rw [code]
      exact ⟨⟨by simp [Line.closes], .eachEntry reached,
        ⟨⟨by simp [Line.closes], Line.opens_append _ (by decide), .entryValue (reached.cons _)⟩,
          insideHolds⟩, .close⟩, trivial⟩
  | .todo what, phrase, _, _ => by
      rw [code]
      exact ⟨⟨by simp [Line.closes], Line.opens_append _ (by decide), .todo phrase⟩, trivial⟩
  | .remark text inside, impossible, _, _ => impossible.elim
  | .rejected path key, _, _, _ => by
      rw [code]
      trivial

theorem holdsOf_codeOf (flat : IsFlat action) {blocks : List String} : (checks : List Check) →
    SoundOf root plain blocks checks → (∀ shape ∈ Demand.shapes (demandsOf checks), asked shape) →
      (∀ site ∈ sitesOf checks, visited site) →
        Code.HoldsOf (Emitted root action asked visited) blocks (codeOf action checks)
  | [], _, _, _ => trivial
  | check :: rest, ⟨sound, restSound⟩, known, all => by
      rw [codeOf, Code.holdsOf_append]
      rw [demandsOf, Demand.shapes_append, List.forall_mem_append] at known
      rw [sitesOf, List.forall_mem_append] at all
      exact ⟨holdsOf_code flat check sound known.1 all.1,
        holdsOf_codeOf flat rest restSound known.2 all.2⟩

end

mutual

/-- Differences are acted on at every site of a check. -/
theorem exists_line_of_mem_sites {site : Site} : (check : Check) → (level : Nat) →
    site ∈ check.sites →
      ∃ line ∈ Code.linesOf (check.code action) level, line.text = action site
  | .present other inside, level, membership => by
      rcases List.mem_cons.mp membership with rfl | below
      · exact ⟨⟨level + 1, action site⟩, by simp [code, Code.linesOf, Code.lines], rfl⟩
      · rcases exists_line_of_mem_sitesOf inside (level + 1) below with ⟨line, inCode, same⟩
        exact ⟨line, by simp [code, Code.linesOf, Code.lines, inCode], same⟩
  | .unequal other test, level, membership => by
      rw [List.mem_singleton.mp membership]
      exact ⟨⟨level + 1, action other⟩, by simp [code, Code.linesOf, Code.lines], rfl⟩
  | .tags other, level, membership => by
      rw [List.mem_singleton.mp membership]
      exact ⟨⟨level + 1, action other⟩, by simp [code, Code.linesOf, Code.lines], rfl⟩
  | .sized other inside, level, membership => by
      rcases List.mem_cons.mp membership with rfl | below
      · exact ⟨⟨level + 1, action site⟩, by simp [code, Code.linesOf, Code.lines], rfl⟩
      · rcases exists_line_of_mem_sitesOf inside (level + 1) below with ⟨line, inCode, same⟩
        exact ⟨line, by simp [code, Code.linesOf, Code.lines, inCode], same⟩
  | .keys other, level, membership => by
      rw [List.mem_singleton.mp membership]
      exact ⟨⟨level + 1 + 1, action other⟩, by simp [code, Code.linesOf, Code.lines], rfl⟩
  | .eachIndex _ inside, level, membership => by
      rcases exists_line_of_mem_sitesOf inside (level + 1) membership with ⟨line, inCode, same⟩
      exact ⟨line, by simp [code, Code.linesOf, Code.lines, inCode], same⟩
  | .eachEntry _ inside, level, membership => by
      rcases exists_line_of_mem_sitesOf inside (level + 1) membership with ⟨line, inCode, same⟩
      exact ⟨line, by simp [code, Code.linesOf, Code.lines, inCode], same⟩
  | .remark _ inside, level, membership => by
      rcases exists_line_of_mem_sitesOf inside (level + 1) membership with ⟨line, inCode, same⟩
      exact ⟨line, by simp [code, Code.linesOf, Code.lines, inCode], same⟩
  | .todo _, _, membership => by
      exact absurd membership List.not_mem_nil
  | .rejected _ _, _, membership => by
      exact absurd membership List.not_mem_nil

theorem exists_line_of_mem_sitesOf {site : Site} : (checks : List Check) → (level : Nat) →
    site ∈ sitesOf checks →
      ∃ line ∈ Code.linesOf (codeOf action checks) level, line.text = action site
  | [], _, membership => by
      exact absurd membership List.not_mem_nil
  | check :: rest, level, membership => by
      rw [codeOf, Code.linesOf_append]
      rcases List.mem_append.mp membership with inCheck | inRest
      · rcases exists_line_of_mem_sites check level inCheck with ⟨line, inCode, same⟩
        exact ⟨line, List.mem_append_left _ inCode, same⟩
      · rcases exists_line_of_mem_sitesOf rest level inRest with ⟨line, inCode, same⟩
        exact ⟨line, List.mem_append_right _ inCode, same⟩

end

end Check

end Reconcile
