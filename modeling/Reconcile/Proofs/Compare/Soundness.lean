import Reconcile.Compare.Delta
import Reconcile.Compare.Equality.Strategy
import Reconcile.Proofs.Compare.Roles
import Reconcile.Proofs.Outcomes
import Reconcile.Proofs.Shape.Naming

/-!
# Soundness of planned checks

Walking a shape plans sound checks: a member is looked at only where its structure is known to
be present, because structures are taken apart at open sites only and every member is guarded
before it is opened. What a strategy adds for collections must keep to the same rule
(`Strategy.IsSound`); both difference code and equality code do.
-/

namespace Reconcile

namespace Site

/-- The site of the desired state in two instances. -/
def ofSpec (first second : String) : Site :=
  ⟨.empty, .member (.root first) FieldRoot.spec.name, .member (.root second) FieldRoot.spec.name⟩

theorem text_ofSpec (first second : String) :
    (ofSpec first second).first.text = first ++ ".Spec" ∧
      (ofSpec first second).second.text = second ++ ".Spec" := by
  have spec : ∀ operand : String,
      (Access.member (.root operand) FieldRoot.spec.name).text = operand ++ "." ++ "Spec" :=
    fun _ => rfl
  have joined : "." ++ "Spec" = ".Spec" := rfl
  simp only [ofSpec, spec, String.append_assoc, joined, and_self]

theorem isWord_ofSpec {first second : String} :
    ∀ segment ∈ (ofSpec first second).path.segments, Text.IsWord segment := by
  simp [ofSpec, FieldPath.empty]

theorem isWhole_ofSpec {first second : String} (firstDotted : Text.IsDotted first)
    (secondDotted : Text.IsDotted second) : (ofSpec first second).IsWhole := by
  have dot : Term.IsWhole "." := by decide
  have spec : Term.IsWhole "Spec" := by decide
  exact ⟨((Term.isWhole_of_isDotted firstDotted).append dot).append spec,
    ((Term.isWhole_of_isDotted secondDotted).append dot).append spec⟩

variable {root site : Site} {blocks : List String} {name : String}

theorem Reached.inner (reached : Reached root blocks site) (isOpen : site.IsOpen root blocks)
    (rootWords : ∀ segment ∈ root.path.segments, Text.IsWord segment) (word : Text.IsWord name) :
    Reached root blocks (site.member name) := by
  refine reached.member isOpen word ?_
  intro segment membership
  rcases List.mem_append.mp membership with above | isName
  · exact reached.pathWords rootWords segment above
  · rw [List.mem_singleton.mp isName]
    exact word

end Site

/-- Whether the checks of a value are sound wherever the value is reached and present. -/
def Check.SoundInside (root : Site) (plain : Shape → Prop) (shape : Shape)
    (checks : Site → List Check) : Prop :=
  ∀ blocks site, Site.Reached root blocks site →
    (shape.isNullable = true → site.IsOpen root blocks) →
      Check.SoundOf root plain blocks (checks site)

/-- Whether the checks of collections are sound if those of elements and values are. -/
structure Strategy.IsSound (strategy : Strategy) (root : Site) (fits plain : Shape → Prop) :
    Prop where
  sequence : ∀ {blocks : List String} {site : Site} {element : Shape} {checks : Site → List Check},
    Site.Reached root blocks site → fits element → Check.SoundInside root plain element checks →
      Check.SoundOf root plain blocks (strategy.sequence site element checks)
  mapping : ∀ {blocks : List String} {site : Site} {value : Shape} {checks : Site → List Check},
    Site.Reached root blocks site → fits value → Check.SoundInside root plain value checks →
      Check.SoundOf root plain blocks (strategy.mapping site value checks)

section

variable {root site : Site} {plain : Shape → Prop} {blocks : List String} {shape : Shape}

theorem Check.soundOf_flatMap {α : Type} {items : List α} {checks : α → List Check}
    (sound : ∀ item ∈ items, SoundOf root plain blocks (checks item)) :
    SoundOf root plain blocks (items.flatMap checks) := by
  rw [soundOf_iff]
  intro check membership
  rcases List.mem_flatMap.mp membership with ⟨item, inItems, inChecks⟩
  exact soundOf_iff.mp (sound item inItems) check inChecks

/-- A guard opens the site behind it. -/
theorem Check.soundOf_guarded {checks : Site → List Check}
    (reached : Site.Reached root blocks site) (inside : SoundInside root plain shape checks) :
    SoundOf root plain blocks (guarded shape site (checks site)) := by
  unfold guarded
  split
  · refine ⟨⟨reached, ?_⟩, trivial⟩
    exact inside _ site (reached.cons _) (fun _ => Or.inr List.mem_cons_self)
  · rename_i noGuard
    exact inside blocks site reached (fun nullable => absurd nullable noGuard)

/-- Leaving out ignored members and comparing tags apart keeps checks sound. -/
theorem Strategy.soundOf_member {strategy : Strategy} {checks : Site → List Check}
    (reached : Site.Reached root blocks site) (inside : Check.SoundInside root plain shape checks) :
    Check.SoundOf root plain blocks (strategy.member shape site (checks site)) := by
  unfold member
  split
  · trivial
  · split
    · exact ⟨reached, trivial⟩
    · exact Check.soundOf_guarded reached inside

end

namespace Strategy

variable {strategy : Strategy} {root : Site} {fits plain : Shape → Prop}

theorem soundOf_inNameOrder {blocks : List String} {checks : List (String × List Check)}
    (sound : ∀ entry ∈ checks, Check.SoundOf root plain blocks entry.2) :
    Check.SoundOf root plain blocks (inNameOrder checks) := by
  apply Check.soundOf_flatMap
  intro entry membership
  exact sound entry (Text.mem_sortedBy.mp membership)

mutual

/-- The checks of a shape are sound wherever its value is reached and present. -/
theorem soundOf_body (careful : strategy.IsSound root fits plain)
    (inherited : Shape.Inherited strategy.normalizer fits)
    (rootWords : ∀ segment ∈ root.path.segments, Text.IsWord segment) : (shape : Shape) →
      fits shape → Check.SoundInside root plain shape (strategy.body shape)
  | .scalar name kind, _ => by
      intro blocks site reached isOpen
      rw [body]
      refine ⟨⟨reached, ?_, by simp⟩, trivial⟩
      cases kind with
      | blob => trivial
      | timestamp => exact isOpen rfl
      | string => exact isOpen rfl
      | integer => exact isOpen rfl
      | float => exact isOpen rfl
      | boolean => exact isOpen rfl
  | .struct name members, fit => by
      intro blocks site reached isOpen
      rw [body]
      apply soundOf_inNameOrder
      exact soundOf_members careful inherited rootWords members (inherited.member fit) blocks site
        reached (isOpen rfl)
  | .sequence name element, fit => by
      intro blocks site reached _
      rw [body]
      have elementFits := inherited.element fit
      exact careful.sequence reached elementFits
        (soundOf_body careful inherited rootWords element elementFits)
  | .mapping name key value, fit => by
      intro blocks site reached _
      rw [body]
      have valueFits := inherited.value fit
      split
      · exact careful.mapping reached valueFits
          (soundOf_body careful inherited rootWords value valueFits)
      · exact ⟨trivial, trivial⟩

theorem soundOf_members (careful : strategy.IsSound root fits plain)
    (inherited : Shape.Inherited strategy.normalizer fits)
    (rootWords : ∀ segment ∈ root.path.segments, Text.IsWord segment) :
    (members : List (String × Shape)) →
      (∀ member ∈ members,
        Text.IsWord (strategy.normalizer member.1).exported ∧ fits member.2) →
        ∀ blocks site, Site.Reached root blocks site → site.IsOpen root blocks →
          ∀ entry ∈ strategy.members members site, Check.SoundOf root plain blocks entry.2
  | [], _ => by simp [members]
  | (name, shape) :: rest, fit => by
      rcases fit (name, shape) List.mem_cons_self with ⟨word, shapeFits⟩
      have restFits := fun member inRest => fit member (List.mem_cons_of_mem _ inRest)
      intro blocks site reached isOpen entry membership
      rw [members] at membership
      rcases List.mem_cons.mp membership with rfl | inRest
      · exact soundOf_member (reached.inner isOpen rootWords word)
          (soundOf_body careful inherited rootWords shape shapeFits)
      · exact soundOf_members careful inherited rootWords rest restFits blocks site reached isOpen
          entry inRest

end

theorem soundOf_resource {resource : Resource} {first second : String}
    (careful : strategy.IsSound (Site.ofSpec first second) fits plain)
    (inherited : Shape.Inherited strategy.normalizer fits)
    (named : resource.Named Text.IsWord fits) :
    Check.SoundOf (Site.ofSpec first second) plain []
      (strategy.resource resource first second) := by
  apply Check.soundOf_flatMap
  intro field membership
  rcases named field membership with ⟨word, pathWords, shapeNamed⟩
  have reached : Site.Reached (Site.ofSpec first second) [] {
      path := field.path
      first := .member (Site.ofSpec first second).first field.names.exported
      second := .member (Site.ofSpec first second).second field.names.exported } :=
    Site.Reached.root.member (Or.inl ⟨rfl, rfl⟩) word pathWords
  unfold outermost
  split
  · exact ⟨⟨reached, trivial, by simp⟩, trivial⟩
  · rename_i taken
    by_cases isReference : field.isReference = true
    · have ignored : strategy.isIgnored field.path = true := by
        simpa [isReference] using taken
      simp [member, ignored, Check.SoundOf]
    · apply soundOf_member reached
      exact soundOf_body careful inherited Site.isWord_ofSpec field.shape
        (shapeNamed (by simpa using isReference))

end Strategy

theorem Shape.isPhrase_form (shape : Shape) : Text.IsPhrase shape.form := by
  have scalar : Text.IsPhrase "scalar" := by decide
  have struct : Text.IsPhrase "structure" := by decide
  have sequence : Text.IsPhrase "sequence" := by decide
  have mapping : Text.IsPhrase "mapping" := by decide
  cases shape with
  | scalar name kind => exact scalar
  | struct name members => exact struct
  | sequence name element => exact sequence
  | mapping name key value => exact mapping

namespace Delta

theorem isPhrase_todo (element : Shape) :
    Text.IsPhrase ("delta of " ++ element.form ++ " elements") := by
  have front : Text.IsPhrase "delta of " := by decide
  have back : Text.IsPhrase " elements" := by decide
  exact (front.append element.isPhrase_form).append back

theorem isSound_strategy {root : Site} {fits plain : Shape → Prop} (resource : Resource)
    (normalizer : Normalizer) (tagPath : Option FieldPath) :
    (strategy resource normalizer tagPath).IsSound root fits plain where
  sequence := by
    intro blocks site element checks reached _ _
    refine ⟨⟨reached, ?_⟩, trivial⟩
    have inner := reached.cons
      ("\x7d " ++ ("else if len(" ++ site.first.text ++ ") > 0") ++ " \x7b")
    cases element with
    | scalar name kind =>
        cases kind <;> exact ⟨⟨inner, trivial, by simp⟩, trivial⟩
    | struct name members => exact ⟨⟨inner, trivial, by simp⟩, trivial⟩
    | sequence name element => exact ⟨isPhrase_todo (.sequence name element), trivial⟩
    | mapping name key value => exact ⟨isPhrase_todo (.mapping name key value), trivial⟩
  mapping := by
    intro blocks site value checks reached _ _
    refine ⟨⟨reached, ?_⟩, trivial⟩
    have inner := reached.cons
      ("\x7d " ++ ("else if len(" ++ site.first.text ++ ") > 0") ++ " \x7b")
    unfold mappingChecks
    split <;> exact ⟨⟨inner, trivial, by simp⟩, trivial⟩

end Delta

namespace Equality

variable {root site : Site} {blocks : List String} {fits : Shape → Prop}

theorem isPhrase_todo (shape : Shape) {kind : String} (phrase : Text.IsPhrase kind) :
    Text.IsPhrase ("equality of " ++ shape.form ++ kind) := by
  have front : Text.IsPhrase "equality of " := by decide
  exact (front.append shape.isPhrase_form).append phrase

/-- A helper is called behind a guard. -/
theorem soundOf_helperCall {name : String} {members : List (String × Shape)}
    (reached : Site.Reached root blocks site)
    (fit : fits (.struct name members)) :
    Check.SoundOf root (Shape.IsPlain fits) blocks
      (helperCall (.struct name members) site) := by
  refine ⟨⟨reached, ⟨reached.cons _, List.mem_cons_self, ?_⟩, trivial⟩, trivial⟩
  intro shape same
  cases same
  exact ⟨fit, members, rfl⟩

theorem isSound_strategyWith (normalizer : Normalizer) (isIgnored isTagField : FieldPath → Bool) :
    (strategyWith normalizer isIgnored isTagField).IsSound root fits (Shape.IsPlain fits) where
  sequence := by
    intro blocks site element checks reached fit inside
    refine ⟨⟨reached, trivial, by simp⟩, ?_⟩
    have position : Text.IsWord "i" := by decide
    have kind : Text.IsPhrase " elements" := by decide
    cases element with
    | scalar name kind =>
        exact ⟨⟨reached, Check.soundOf_guarded ((reached.cons _).index position) inside⟩, trivial⟩
    | struct name members =>
        exact ⟨⟨reached, soundOf_helperCall ((reached.cons _).index position) fit⟩, trivial⟩
    | sequence name element => exact ⟨isPhrase_todo (.sequence name element) kind, trivial⟩
    | mapping name key value => exact ⟨isPhrase_todo (.mapping name key value) kind, trivial⟩
  mapping := by
    intro blocks site value checks reached fit inside
    refine ⟨⟨reached, trivial, by simp⟩, reached, ?_⟩
    have kind : Text.IsPhrase " values" := by decide
    cases value with
    | scalar name kind =>
        exact ⟨⟨reached, Check.soundOf_guarded (reached.cons _).held inside⟩, trivial⟩
    | struct name members =>
        exact ⟨⟨reached, soundOf_helperCall (reached.cons _).held fit⟩, trivial⟩
    | sequence name element => exact ⟨isPhrase_todo (.sequence name element) kind, trivial⟩
    | mapping name key value => exact ⟨isPhrase_todo (.mapping name key value) kind, trivial⟩

end Equality

end Reconcile
