import Reconcile.Proofs.Compare.Soundness

/-!
# Visited sites

The sites whose differences difference code records are those that are reached by descending
through structures: every member on the way is visited unless it is ignored, and nothing below
an ignored member or below the tags is (`Delta.mem_sitesOf_member`).
-/

namespace Reconcile

/-- Whether steps lead through members of structures, by their exported names. -/
inductive Shape.Reaches (normalizer : Normalizer) : Shape → List String → Prop
  | here (shape : Shape) : Reaches normalizer shape []
  | step {name : String} {members : List (String × Shape)} {member : String × Shape}
      {steps : List String} (listed : member ∈ members)
      (inner : Reaches normalizer member.2 steps) :
      Reaches normalizer (.struct name members) ((normalizer member.1).exported :: steps)

/-- The site below another one along steps. -/
def Site.descend (site : Site) (steps : List String) : Site :=
  steps.foldl Site.member site

theorem Check.mem_sitesOf_flatMap {α : Type} {site : Site} {items : List α}
    {checks : α → List Check} :
    site ∈ sitesOf (items.flatMap checks) ↔ ∃ item ∈ items, site ∈ sitesOf (checks item) := by
  simp only [mem_sitesOf, List.mem_flatMap]
  constructor
  · rintro ⟨check, ⟨item, listed, inChecks⟩, visited⟩
    exact ⟨item, listed, check, inChecks, visited⟩
  · rintro ⟨item, listed, check, inChecks, visited⟩
    exact ⟨check, ⟨item, listed, inChecks⟩, visited⟩

namespace Strategy

/--
Whether a strategy goes along steps from a path: no path on the way is ignored, and none but the
last one holds the tags.
-/
def Admits (strategy : Strategy) (path : FieldPath) : List String → Prop
  | [] => strategy.isIgnored path = false
  | name :: rest =>
      strategy.isIgnored path = false ∧ strategy.isTagField path = false ∧
        strategy.Admits (path.child name) rest

/-- Whether a strategy goes along steps from a value that it has entered. -/
def AdmitsBelow (strategy : Strategy) (path : FieldPath) : List String → Prop
  | [] => True
  | name :: rest => strategy.Admits (path.child name) rest

theorem Admits.notIgnored {strategy : Strategy} {path : FieldPath} {steps : List String}
    (admits : strategy.Admits path steps) : strategy.isIgnored path = false := by
  cases steps with
  | nil => exact admits
  | cons name rest => exact admits.1

/-- The steps that a strategy admits, by the paths on the way. -/
theorem admits_iff {strategy : Strategy} {path : FieldPath} {steps : List String} :
    strategy.Admits path steps ↔
      ∀ front, front <+: steps → strategy.isIgnored ⟨path.segments ++ front⟩ = false ∧
        (front ≠ steps → strategy.isTagField ⟨path.segments ++ front⟩ = false) := by
  induction steps generalizing path with
  | nil =>
      constructor
      · intro notIgnored front isPrefix
        rw [List.prefix_nil.mp isPrefix, List.append_nil]
        exact ⟨notIgnored, fun different => absurd rfl different⟩
      · intro all
        have here := (all [] List.nil_prefix).1
        rwa [List.append_nil] at here
  | cons name rest ih =>
      have below : ∀ front, (⟨(path.child name).segments ++ front⟩ : FieldPath) =
          ⟨path.segments ++ name :: front⟩ := by
        intro front
        simp
      rw [Admits, ih]
      constructor
      · rintro ⟨notIgnored, noTags, others⟩ front isPrefix
        rcases List.prefix_cons_iff.mp isPrefix with rfl | ⟨left, rfl, leftPrefix⟩
        · rw [List.append_nil]
          exact ⟨notIgnored, fun _ => noTags⟩
        · have later := others left leftPrefix
          rw [below] at later
          exact ⟨later.1, fun different => later.2 (fun same => different (by rw [same]))⟩
      · intro all
        have here := all [] List.nil_prefix
        rw [List.append_nil] at here
        refine ⟨here.1, here.2 (by simp), ?_⟩
        intro front isPrefix
        have later := all (name :: front) (List.cons_prefix_cons.mpr ⟨rfl, isPrefix⟩)
        rw [below]
        exact ⟨later.1, fun different => later.2 (by simpa using different)⟩

theorem mem_sitesOf_inNameOrder {site : Site} {checks : List (String × List Check)} :
    site ∈ Check.sitesOf (inNameOrder checks) ↔ ∃ entry ∈ checks, site ∈ Check.sitesOf entry.2 := by
  simp only [inNameOrder, Check.mem_sitesOf_flatMap, Text.mem_sortedBy]

end Strategy

namespace Delta

variable {resource : Resource} {normalizer : Normalizer} {tagPath : Option FieldPath}
  {site visited : Site}

theorem site_of_sequenceChecks {element : Shape}
    (isVisited : visited ∈ Check.sitesOf (sequenceChecks site element)) : visited = site := by
  cases element with
  | scalar name kind =>
      cases kind <;> simpa [sequenceChecks, Check.sitesOf, Check.sites] using isVisited
  | struct name members => simpa [sequenceChecks, Check.sitesOf, Check.sites] using isVisited
  | sequence name element => simp [sequenceChecks, Check.sitesOf, Check.sites] at isVisited
  | mapping name key value => simp [sequenceChecks, Check.sitesOf, Check.sites] at isVisited

theorem site_of_mappingChecks {value : Shape}
    (isVisited : visited ∈ Check.sitesOf (mappingChecks site value)) : visited = site := by
  unfold mappingChecks at isVisited
  split at isVisited <;> simpa [Check.sitesOf, Check.sites] using isVisited

theorem site_of_body {shape : Shape} (noMembers : shape.members? = none)
    (isVisited : visited ∈
      Check.sitesOf ((strategy resource normalizer tagPath).body shape site)) :
    visited = site := by
  cases shape with
  | struct name members => simp [Shape.members?] at noMembers
  | scalar name kind => simpa [Strategy.body, Check.sitesOf, Check.sites] using isVisited
  | sequence name element =>
      simp only [Strategy.body, strategy, Check.sitesOf, Check.sites, List.append_nil,
        List.mem_cons] at isVisited
      exact isVisited.elim id site_of_sequenceChecks
  | mapping name key value =>
      rw [Strategy.body] at isVisited
      split at isVisited
      · simp only [strategy, Check.sitesOf, Check.sites, List.append_nil,
          List.mem_cons] at isVisited
        exact isVisited.elim id site_of_mappingChecks
      · simp [Check.sitesOf, Check.sites] at isVisited

theorem mem_sitesOf_guarded {shape : Shape} :
    visited ∈ Check.sitesOf (Check.guarded shape site
      ((strategy resource normalizer tagPath).body shape site)) ↔
        visited = site ∨
          visited ∈ Check.sitesOf ((strategy resource normalizer tagPath).body shape site) := by
  unfold Check.guarded
  split
  · simp [Check.sitesOf, Check.sites]
  · rename_i noGuard
    refine ⟨Or.inr, ?_⟩
    rintro (rfl | below)
    · cases shape with
      | scalar name kind =>
          cases kind with
          | blob => simp [Strategy.body, Check.sitesOf, Check.sites]
          | string => exact absurd rfl noGuard
          | integer => exact absurd rfl noGuard
          | float => exact absurd rfl noGuard
          | boolean => exact absurd rfl noGuard
          | timestamp => exact absurd rfl noGuard
      | struct name members => exact absurd rfl noGuard
      | sequence name element => simp [Strategy.body, strategy, Check.sitesOf, Check.sites]
      | mapping name key value => exact absurd rfl noGuard
    · exact below

/-- The sites of a member, given those of its value. -/
theorem mem_sitesOf_member {shape : Shape}
    (ofBody : (visited = site ∨
      visited ∈ Check.sitesOf ((strategy resource normalizer tagPath).body shape site)) ↔
        ∃ steps, shape.Reaches normalizer steps ∧
          (strategy resource normalizer tagPath).AdmitsBelow site.path steps ∧
            visited = site.descend steps) :
    visited ∈ Check.sitesOf ((strategy resource normalizer tagPath).member shape site
      ((strategy resource normalizer tagPath).body shape site)) ↔
        ∃ steps, shape.Reaches normalizer steps ∧
          (strategy resource normalizer tagPath).Admits site.path steps ∧
            visited = site.descend steps := by
  unfold Strategy.member
  split
  · rename_i ignored
    simp only [Check.sitesOf, List.not_mem_nil, false_iff]
    rintro ⟨steps, _, admits, _⟩
    rw [admits.notIgnored] at ignored
    exact Bool.noConfusion ignored
  · rename_i notIgnored
    rw [Bool.not_eq_true] at notIgnored
    split
    · rename_i isTags
      simp only [Check.sitesOf, Check.sites, List.append_nil, List.mem_singleton]
      constructor
      · rintro rfl
        exact ⟨[], .here shape, notIgnored, rfl⟩
      · rintro ⟨steps, _, admits, rfl⟩
        cases steps with
        | nil => rfl
        | cons name rest =>
            rw [admits.2.1] at isTags
            exact Bool.noConfusion isTags
    · rename_i noTags
      -- Neither ignored nor the tags: what is admitted from here is what is admitted below.
      rw [Bool.not_eq_true] at noTags
      rw [mem_sitesOf_guarded, ofBody]
      refine exists_congr (fun steps => and_congr_right (fun _ => and_congr_left (fun _ => ?_)))
      cases steps with
      | nil => exact ⟨fun _ => notIgnored, fun _ => trivial⟩
      | cons name rest => exact ⟨fun below => ⟨notIgnored, noTags, below⟩, fun admits => admits.2.2⟩

theorem mem_sitesOf_leaf {shape : Shape} (noMembers : shape.members? = none) :
    (visited = site ∨
      visited ∈ Check.sitesOf ((strategy resource normalizer tagPath).body shape site)) ↔
        ∃ steps, shape.Reaches normalizer steps ∧
          (strategy resource normalizer tagPath).AdmitsBelow site.path steps ∧
            visited = site.descend steps := by
  constructor
  · intro isVisited
    have same := isVisited.elim id (site_of_body noMembers)
    exact ⟨[], .here shape, trivial, same⟩
  · rintro ⟨steps, reaches, _, rfl⟩
    cases reaches with
    | here => exact Or.inl rfl
    | step listed inner => simp [Shape.members?] at noMembers

mutual

/-- The sites of a value and what is below it. -/
theorem mem_sitesOf_body : (shape : Shape) → (site visited : Site) →
    ((visited = site ∨
      visited ∈ Check.sitesOf ((strategy resource normalizer tagPath).body shape site)) ↔
        ∃ steps, shape.Reaches normalizer steps ∧
          (strategy resource normalizer tagPath).AdmitsBelow site.path steps ∧
            visited = site.descend steps)
  | .scalar name kind, _, _ => mem_sitesOf_leaf rfl
  | .sequence name element, _, _ => mem_sitesOf_leaf rfl
  | .mapping name key value, _, _ => mem_sitesOf_leaf rfl
  | .struct name members, site, visited => by
      have ofMembers := mem_sitesOf_members members site visited
      rw [Strategy.body, Strategy.mem_sitesOf_inNameOrder, ofMembers]
      constructor
      · rintro (rfl | ⟨member, listed, steps, reaches, admits, rfl⟩)
        · exact ⟨[], .here _, trivial, rfl⟩
        · exact ⟨(normalizer member.1).exported :: steps, .step listed reaches, admits, rfl⟩
      · rintro ⟨steps, reaches, admits, rfl⟩
        cases reaches with
        | here => exact Or.inl rfl
        | @step _ _ member rest listed inner =>
            exact Or.inr ⟨member, listed, rest, inner, admits, rfl⟩

theorem mem_sitesOf_members : (members : List (String × Shape)) → (site visited : Site) →
    ((∃ entry ∈ (strategy resource normalizer tagPath).members members site,
      visited ∈ Check.sitesOf entry.2) ↔
        ∃ member ∈ members, ∃ steps, member.2.Reaches normalizer steps ∧
          (strategy resource normalizer tagPath).Admits
            (site.path.child (normalizer member.1).exported) steps ∧
              visited = (site.member (normalizer member.1).exported).descend steps)
  | [], site, visited => by
      simp [Strategy.members]
  | (name, shape) :: rest, site, visited => by
      have first := mem_sitesOf_member
        (mem_sitesOf_body shape (site.member (normalizer name).exported) visited)
      have others := mem_sitesOf_members rest site visited
      simp only [Strategy.members, List.mem_cons, exists_eq_or_imp, others]
      exact or_congr_left first

end

/-- The site of an outermost field of the desired state. -/
def fieldSite (first second : String) (field : Field) : Site where
  path := field.path
  first := (Site.ofSpec first second).first.member field.names.exported
  second := (Site.ofSpec first second).second.member field.names.exported

theorem resource_eq_flatMap (strategy : Strategy) (resource : Resource) (first second : String) :
    strategy.resource resource first second = resource.topLevelFields.flatMap (fun field =>
      strategy.outermost field (fieldSite first second field)) := rfl

/-- The sites of an outermost field. A reference field is not descended into. -/
theorem mem_sitesOf_outermost {first second : String} {field : Field} :
    visited ∈ Check.sitesOf ((strategy resource normalizer tagPath).outermost field
      (fieldSite first second field)) ↔
        ∃ steps, field.shape.Reaches normalizer steps ∧
          (strategy resource normalizer tagPath).Admits field.path steps ∧
            (field.isReference = true → steps = []) ∧
              visited = (fieldSite first second field).descend steps := by
  unfold Strategy.outermost
  split
  · rename_i taken
    have notIgnored : (strategy resource normalizer tagPath).isIgnored field.path = false := by
      have both := (Bool.and_eq_true _ _).mp taken
      simpa [fieldSite] using both.2
    have isReference := ((Bool.and_eq_true _ _).mp taken).1
    simp only [Check.sitesOf, Check.sites, List.append_nil, List.mem_singleton]
    constructor
    · rintro rfl
      exact ⟨[], .here field.shape, notIgnored, fun _ => rfl, rfl⟩
    · rintro ⟨steps, _, _, stops, rfl⟩
      rw [stops isReference]
      rfl
  · rename_i notTaken
    rw [mem_sitesOf_member (mem_sitesOf_body field.shape _ _)]
    refine exists_congr (fun steps => and_congr_right (fun _ => and_congr_right (fun admits => ?_)))
    refine ⟨fun same => ⟨fun isReference => ?_, same⟩, And.right⟩
    exfalso
    apply notTaken
    have notIgnored := admits.notIgnored
    simp [isReference, notIgnored]

theorem mem_sitesOf_resource {first second : String} :
    visited ∈ Check.sitesOf
        ((strategy resource normalizer tagPath).resource resource first second) ↔
      ∃ field ∈ resource.topLevelFields, ∃ steps, field.shape.Reaches normalizer steps ∧
        (strategy resource normalizer tagPath).Admits field.path steps ∧
          (field.isReference = true → steps = []) ∧
            visited = (fieldSite first second field).descend steps := by
  rw [resource_eq_flatMap, Check.mem_sitesOf_flatMap]
  exact exists_congr (fun field => and_congr_right (fun _ => mem_sitesOf_outermost))

end Delta

end Reconcile
