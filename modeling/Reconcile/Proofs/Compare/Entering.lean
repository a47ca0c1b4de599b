import Reconcile.Compare.Equality.Basic
import Reconcile.Proofs.Compare.Contexts
import Reconcile.Proofs.Compare.Coverage
import Reconcile.Proofs.Text.Sorting

/-!
# Entered values

All comparisons that follow the settings of a resource enter the same values: those that
members of structures lead to from the outermost fields, up to ignored members, the tags and
reference fields (`Resource.Enters`). What an entered value demands is demanded by the
comparison as a whole (`Strategy.exists_demandsOf_subset`), which demands nothing else
(`Strategy.exists_entered_of_demanded`).
-/

namespace Reconcile

namespace Shape

/-- Whether values of the shape hold any number of others. -/
def isCollection : Shape → Bool
  | .sequence .. => true
  | .mapping .. => true
  | _ => false

/-- Whether steps lead through members of structures to a part, by their exported names. -/
inductive Leads (normalizer : Normalizer) : Shape → List String → Shape → Prop
  | here (shape : Shape) : Leads normalizer shape [] shape
  | step {name : String} {members : List (String × Shape)} {member : String × Shape}
      {steps : List String} {target : Shape} (listed : member ∈ members)
      (inner : Leads normalizer member.2 steps target) :
      Leads normalizer (.struct name members) ((normalizer member.1).exported :: steps) target

end Shape

/--
Whether comparisons of a resource enter a value of a shape at a path: members of structures
lead there from an outermost field that is no reference field, and neither the path nor one on
the way to it is ignored or holds the tags.
-/
structure Resource.Enters (resource : Resource) (normalizer : Normalizer) (path : FieldPath)
    (target : Shape) : Prop where
  leads : ∃ field ∈ resource.topLevelFields, field.isReference = false ∧
    ∃ steps, field.shape.Leads normalizer steps target ∧
      path.segments = field.path.segments ++ steps
  past : ∀ front, front ≠ [] → front <+: path.segments →
    resource.isCompareIgnored ⟨front⟩ = false ∧ ¬resource.IsTagPath ⟨front⟩

namespace Strategy

variable {strategy : Strategy} {path : FieldPath} {shape target : Shape} {steps : List String}

/-- Whether a strategy enters every value that steps lead to from one that it has entered. -/
def Enters (strategy : Strategy) (path : FieldPath) : List String → Prop
  | [] => True
  | name :: rest =>
      strategy.isIgnored (path.child name) = false ∧
        strategy.isTagField (path.child name) = false ∧ strategy.Enters (path.child name) rest

/-- The steps that a strategy enters, by the paths on the way. -/
theorem enters_iff :
    strategy.Enters path steps ↔
      ∀ front, front ≠ [] → front <+: steps →
        strategy.isIgnored ⟨path.segments ++ front⟩ = false ∧
          strategy.isTagField ⟨path.segments ++ front⟩ = false := by
  induction steps generalizing path with
  | nil =>
      refine ⟨fun _ front nonempty isPrefix => ?_, fun _ => trivial⟩
      exact absurd (List.prefix_nil.mp isPrefix) nonempty
  | cons name rest ih =>
      have below : ∀ front, (⟨(path.child name).segments ++ front⟩ : FieldPath) =
          ⟨path.segments ++ name :: front⟩ := by
        intro front
        simp
      rw [Enters, ih]
      constructor
      · rintro ⟨notIgnored, noTags, others⟩ front nonempty isPrefix
        rcases List.prefix_cons_iff.mp isPrefix with rfl | ⟨left, rfl, leftPrefix⟩
        · exact absurd rfl nonempty
        · by_cases isEnd : left = []
          · subst isEnd
            exact ⟨notIgnored, noTags⟩
          · have later := others left isEnd leftPrefix
            rwa [below] at later
      · intro all
        have here := all [name] (by simp) (List.cons_prefix_cons.mpr ⟨rfl, List.nil_prefix⟩)
        refine ⟨here.1, here.2, ?_⟩
        intro front _ isPrefix
        have later := all (name :: front) (by simp) (List.cons_prefix_cons.mpr ⟨rfl, isPrefix⟩)
        rwa [← below] at later

/-! ### Strategies of a resource -/

/-- Whether a strategy follows the settings of a resource whose tags are in a field. -/
structure Observes (strategy : Strategy) (resource : Resource) (normalizer : Normalizer)
    (tag : Option Field) : Prop where
  normalizer : strategy.normalizer = normalizer
  isIgnored : strategy.isIgnored = resource.isCompareIgnored
  isTagField : ∀ path, strategy.isTagField path = (tag.map Field.path == some path)

namespace Observes

variable {resource : Resource} {normalizer : Normalizer} {tag : Option Field}

theorem isTagField_eq_false (observes : strategy.Observes resource normalizer tag)
    (found : resource.tagField = .ok tag) :
    strategy.isTagField path = false ↔ ¬resource.IsTagPath path := by
  rw [observes.isTagField, Delta.isTagPath_iff found]
  simp

/-- What comparisons of a resource enter, field by field. -/
theorem enters_iff (observes : strategy.Observes resource normalizer tag)
    (found : resource.tagField = .ok tag) :
    resource.Enters normalizer path target ↔
      ∃ field ∈ resource.topLevelFields, field.isReference = false ∧
        strategy.isIgnored field.path = false ∧ strategy.isTagField field.path = false ∧
          ∃ steps, field.shape.Leads normalizer steps target ∧
            strategy.Enters field.path steps ∧ path.segments = field.path.segments ++ steps := by
  have onTheWay : ∀ field ∈ resource.topLevelFields, ∀ steps,
      (∀ front, front ≠ [] → front <+: field.path.segments ++ steps →
        resource.isCompareIgnored ⟨front⟩ = false ∧ ¬resource.IsTagPath ⟨front⟩) ↔
          strategy.isIgnored field.path = false ∧ strategy.isTagField field.path = false ∧
            strategy.Enters field.path steps := by
    intro field isTop steps
    rcases List.length_eq_one_iff.mp (Resource.mem_topLevelFields.mp isTop).2 with ⟨name, segments⟩
    have path : field.path = ⟨[name]⟩ := congrArg FieldPath.mk segments
    simp only [Strategy.enters_iff, observes.isTagField_eq_false found, observes.isIgnored, path]
    constructor
    · intro past
      have here := past [name] (by simp) (List.prefix_append _ _)
      refine ⟨here.1, here.2, ?_⟩
      intro front _ isPrefix
      exact past (name :: front) (by simp) (List.cons_prefix_cons.mpr ⟨rfl, isPrefix⟩)
    · rintro ⟨notIgnored, noTags, below⟩ front nonempty isPrefix
      rcases List.prefix_cons_iff.mp isPrefix with rfl | ⟨left, rfl, leftPrefix⟩
      · exact absurd rfl nonempty
      · by_cases isEnd : left = []
        · subst isEnd
          exact ⟨notIgnored, noTags⟩
        · exact below left isEnd leftPrefix
  constructor
  · rintro ⟨⟨field, isTop, noReference, steps, leads, segments⟩, past⟩
    rw [segments, onTheWay field isTop steps] at past
    rcases past with ⟨notIgnored, noTags, below⟩
    exact ⟨field, isTop, noReference, notIgnored, noTags, steps, leads, below, segments⟩
  · rintro ⟨field, isTop, noReference, notIgnored, noTags, steps, leads, below, segments⟩
    refine ⟨⟨field, isTop, noReference, steps, leads, segments⟩, ?_⟩
    rw [segments]
    exact (onTheWay field isTop steps).mpr ⟨notIgnored, noTags, below⟩

/-- An outermost field that is not special is entered. -/
theorem enters_outermost (observes : strategy.Observes resource normalizer tag)
    (found : resource.tagField = .ok tag) {field : Field} (isTop : field ∈ resource.topLevelFields)
    (noReference : field.isReference = false) (notIgnored : strategy.isIgnored field.path = false)
    (noTags : strategy.isTagField field.path = false) :
    resource.Enters normalizer field.path field.shape := by
  rw [observes.enters_iff found]
  exact ⟨field, isTop, noReference, notIgnored, noTags, [], .here _, trivial, by simp⟩

end Observes

/-! ### Plans of entered values -/

/-- The checks of a member under its schema name. -/
def memberEntry (strategy : Strategy) (site : Site) (member : String × Shape) :
    String × List Check :=
  let inner := site.member (strategy.normalizer member.1).exported
  (member.1, strategy.member member.2 inner (strategy.body member.2 inner))

theorem members_eq_map (members : List (String × Shape)) (site : Site) :
    strategy.members members site = members.map (strategy.memberEntry site) := by
  induction members with
  | nil => rw [Strategy.members, List.map_nil]
  | cons member rest ih => rw [Strategy.members, ih, List.map_cons, memberEntry]

/-- The members of a structure are compared in the order of their schema names. -/
theorem body_struct (name : String) (members : List (String × Shape)) (site : Site) :
    strategy.body (.struct name members) site =
      (Text.sortedBy Prod.fst members).flatMap (fun member =>
        (strategy.memberEntry site member).2) := by
  have key : Prod.fst ∘ strategy.memberEntry site = Prod.fst := rfl
  rw [body, inNameOrder, members_eq_map, Text.sortedBy_map, key, List.flatMap_map]

/-- A member that is neither ignored nor the tags is compared inside of its guard. -/
theorem member_eq_guarded {site : Site} (notIgnored : strategy.isIgnored site.path = false)
    (noTags : strategy.isTagField site.path = false) (inside : List Check) :
    strategy.member shape site inside = Check.guarded shape site inside := by
  simp [member, notIgnored, noTags]

theorem member_fill (site : Site) (notIgnored : strategy.isIgnored site.path = false)
    (noTags : strategy.isTagField site.path = false) (context : Check.Context)
    (checks : List Check) :
    strategy.member shape site (context.fill checks) =
      (context.guarded shape site).fill checks := by
  rw [Check.Context.fill_guarded, member_eq_guarded notIgnored noTags]

theorem exists_fill_flatMap {α : Type} {items : List α} {item : α} (listed : item ∈ items)
    (checks : α → List Check) (context : Check.Context) {inner : List Check}
    (ofItem : checks item = context.fill inner) :
    ∃ outer : Check.Context, items.flatMap checks = outer.fill inner := by
  rcases List.append_of_mem listed with ⟨left, right, rfl⟩
  refine ⟨.beside (left.flatMap checks) context (right.flatMap checks), ?_⟩
  simp [ofItem, Check.Context.fill]

/-- What is planned for a part is one piece of the plan of each value that it is entered from. -/
theorem exists_fill_body (site : Site) (leads : shape.Leads strategy.normalizer steps target)
    (enters : strategy.Enters site.path steps) :
    ∃ context : Check.Context, strategy.body shape site =
      context.fill (strategy.body target (site.descend steps)) := by
  induction leads generalizing site with
  | here shape => exact ⟨.hole, rfl⟩
  | @step name members member steps target listed inner ih =>
      rcases enters with ⟨notIgnored, noTags, below⟩
      rcases ih (site.member _) below with ⟨context, planned⟩
      rw [body_struct]
      apply exists_fill_flatMap (Text.mem_sortedBy.mpr listed) _ (context.guarded member.2 _)
      rw [memberEntry, planned]
      exact member_fill (site.member _) notIgnored noTags context _

/-- What is planned for an entered value is one piece of the plan of the resource. -/
theorem exists_fill_resource {resource : Resource} {normalizer : Normalizer}
    {tag : Option Field} (observes : strategy.Observes resource normalizer tag)
    (found : resource.tagField = .ok tag) (enters : resource.Enters normalizer path target)
    (first second : String) :
    ∃ context : Check.Context, ∃ field ∈ resource.topLevelFields, ∃ steps,
      path.segments = field.path.segments ++ steps ∧
        strategy.resource resource first second = context.fill
          (strategy.body target ((Delta.fieldSite first second field).descend steps)) := by
  rcases (observes.enters_iff found).mp enters with
    ⟨field, isTop, noReference, notIgnored, noTags, steps, leads, below, segments⟩
  rw [← observes.normalizer] at leads
  have notTaken : (field.isReference &&
      !strategy.isIgnored (Delta.fieldSite first second field).path) ≠ true := by
    simp [noReference]
  rcases exists_fill_body (Delta.fieldSite first second field) leads below with
    ⟨context, planned⟩
  have whole : ∃ context : Check.Context, strategy.resource resource first second = context.fill
      (strategy.body target ((Delta.fieldSite first second field).descend steps)) := by
    apply exists_fill_flatMap isTop _ (context.guarded field.shape _)
    rw [← member_fill (Delta.fieldSite first second field) notIgnored noTags, ← planned]
    exact if_neg notTaken
  rcases whole with ⟨context, resourcePlanned⟩
  exact ⟨context, field, isTop, steps, segments, resourcePlanned⟩

/-! ### Demands of entered values -/

theorem mem_demandsOf_inNameOrder {demand : Demand} {checks : List (String × List Check)} :
    demand ∈ Check.demandsOf (inNameOrder checks) ↔
      ∃ entry ∈ checks, demand ∈ Check.demandsOf entry.2 := by
  simp only [inNameOrder, Check.demandsOf_flatMap, List.mem_flatMap, Text.mem_sortedBy]

theorem demandsOf_guarded (shape : Shape) (site : Site) (inside : List Check) :
    Check.demandsOf (Check.guarded shape site inside) = Check.demandsOf inside := by
  unfold Check.guarded
  split
  · simp [Check.demandsOf, Check.demands]
  · rfl

theorem demandsOf_member {site : Site} {inside : List Check}
    (notIgnored : strategy.isIgnored site.path = false)
    (noTags : strategy.isTagField site.path = false) :
    Check.demandsOf (strategy.member shape site inside) = Check.demandsOf inside := by
  rw [member_eq_guarded notIgnored noTags, demandsOf_guarded]

theorem mem_members {members : List (String × Shape)} {member : String × Shape}
    (listed : member ∈ members) (site : Site) :
    let inner := site.member (strategy.normalizer member.1).exported
    (member.1, strategy.member member.2 inner (strategy.body member.2 inner)) ∈
      strategy.members members site := by
  induction members with
  | nil => exact absurd listed List.not_mem_nil
  | cons first rest ih =>
      rcases List.mem_cons.mp listed with rfl | inRest
      · exact List.mem_cons_self
      · exact List.mem_cons_of_mem _ (ih inRest)

/-- What an entered value demands is demanded by the comparison of the resource. -/
theorem exists_demandsOf_subset {resource : Resource} {normalizer : Normalizer}
    {tag : Option Field} (observes : strategy.Observes resource normalizer tag)
    (found : resource.tagField = .ok tag) (enters : resource.Enters normalizer path target)
    (first second : String) :
    ∃ site : Site, site.path = path ∧ Check.demandsOf (strategy.body target site) ⊆
      Check.demandsOf (strategy.resource resource first second) := by
  rcases exists_fill_resource observes found enters first second with
    ⟨context, field, isTop, steps, segments, planned⟩
  refine ⟨(Delta.fieldSite first second field).descend steps, ?_, ?_⟩
  · apply congrArg FieldPath.mk
    rw [Delta.segments_descend, segments]
    rfl
  · rcases context.exists_demandsOf_fill with ⟨before, after, demanded⟩
    rw [planned, demanded]
    intro demand membership
    exact List.mem_append_left _ (List.mem_append_right _ membership)

/-- A member that demands something is neither ignored nor the tags. -/
theorem of_demanded_member {demand : Demand} {site : Site} {inside : List Check}
    (demanded : demand ∈ Check.demandsOf (strategy.member shape site inside)) :
    strategy.isIgnored site.path = false ∧ strategy.isTagField site.path = false ∧
      demand ∈ Check.demandsOf inside := by
  unfold member at demanded
  split at demanded
  · exact absurd demanded List.not_mem_nil
  · rename_i notIgnored
    split at demanded
    · exact absurd demanded List.not_mem_nil
    · rename_i noTags
      rw [demandsOf_guarded] at demanded
      exact ⟨eq_false_of_ne_true notIgnored, eq_false_of_ne_true noTags, demanded⟩

mutual

/-- What is demanded for a value is demanded by a collection that is entered from it. -/
theorem exists_leads_of_demanded {demand : Demand} : (shape : Shape) → (site : Site) →
    demand ∈ Check.demandsOf (strategy.body shape site) →
      ∃ steps target, shape.Leads strategy.normalizer steps target ∧
        strategy.Enters site.path steps ∧ target.isCollection = true ∧
          demand ∈ Check.demandsOf (strategy.body target (site.descend steps))
  | .scalar name kind, site, demanded => by
      simp [body, Check.demandsOf, Check.demands] at demanded
  | .struct name members, site, demanded => by
      rw [body, mem_demandsOf_inNameOrder] at demanded
      rcases demanded with ⟨entry, listed, demanded⟩
      rcases exists_leads_of_demanded_members members site entry listed demanded with
        ⟨member, isMember, steps, target, leads, inner⟩
      exact ⟨_, target, .step isMember leads, inner⟩
  | .sequence name element, site, demanded =>
      ⟨[], _, .here _, trivial, rfl, demanded⟩
  | .mapping name key value, site, demanded =>
      ⟨[], _, .here _, trivial, rfl, demanded⟩

theorem exists_leads_of_demanded_members {demand : Demand} :
    (members : List (String × Shape)) → (site : Site) →
      ∀ entry ∈ strategy.members members site, demand ∈ Check.demandsOf entry.2 →
        ∃ member ∈ members, ∃ steps target, member.2.Leads strategy.normalizer steps target ∧
          let way := (strategy.normalizer member.1).exported :: steps
          strategy.Enters site.path way ∧ target.isCollection = true ∧
            demand ∈ Check.demandsOf (strategy.body target (site.descend way))
  | [], site => by
      simp [members]
  | (name, shape) :: rest, site => by
      intro entry listed demanded
      rw [members] at listed
      rcases List.mem_cons.mp listed with rfl | inRest
      · rcases of_demanded_member demanded with ⟨notIgnored, noTags, inBody⟩
        rcases exists_leads_of_demanded shape _ inBody with
          ⟨steps, target, leads, enters, inner⟩
        exact ⟨_, List.mem_cons_self, steps, target, leads, ⟨notIgnored, noTags, enters⟩, inner⟩
      · rcases exists_leads_of_demanded_members rest site entry inRest demanded with
          ⟨member, isMember, inner⟩
        exact ⟨member, List.mem_cons_of_mem _ isMember, inner⟩

end

/-- What a comparison demands is demanded for an outermost field that it enters. -/
theorem exists_field_of_demanded {resource : Resource} {first second : String} {demand : Demand}
    (demanded : demand ∈ Check.demandsOf (strategy.resource resource first second)) :
    ∃ field ∈ resource.topLevelFields, field.isReference = false ∧
      strategy.isIgnored field.path = false ∧ strategy.isTagField field.path = false ∧
        demand ∈ Check.demandsOf
          (strategy.body field.shape (Delta.fieldSite first second field)) := by
  rw [Strategy.resource, Check.demandsOf_flatMap, List.mem_flatMap] at demanded
  rcases demanded with ⟨field, isTop, demanded⟩
  unfold outermost at demanded
  split at demanded
  · simp [Check.demandsOf, Check.demands] at demanded
  · rename_i notTaken
    rcases of_demanded_member demanded with ⟨notIgnored, noTags, inBody⟩
    refine ⟨field, isTop, ?_, notIgnored, noTags, inBody⟩
    simpa [notIgnored] using notTaken

/-- What a comparison demands is demanded by a collection that it enters. -/
theorem exists_entered_of_demanded {resource : Resource} {normalizer : Normalizer}
    {tag : Option Field} (observes : strategy.Observes resource normalizer tag)
    (found : resource.tagField = .ok tag) {first second : String} {demand : Demand}
    (demanded : demand ∈ Check.demandsOf (strategy.resource resource first second)) :
    ∃ target, ∃ site : Site, resource.Enters normalizer site.path target ∧
      target.isCollection = true ∧ demand ∈ Check.demandsOf (strategy.body target site) := by
  rcases exists_field_of_demanded demanded with
    ⟨field, isTop, noReference, notIgnored, noTags, inBody⟩
  rcases exists_leads_of_demanded field.shape _ inBody with
    ⟨steps, target, leads, enters, isCollection, inTarget⟩
  rw [observes.normalizer] at leads
  refine ⟨target, _, ?_, isCollection, inTarget⟩
  rw [observes.enters_iff found]
  exact ⟨field, isTop, noReference, notIgnored, noTags, steps, leads, enters,
    Delta.segments_descend _ _⟩

end Strategy

/-! ### Checks of a resource -/

section

variable {resource : Resource} {normalizer : Normalizer} {tag : Option Field}
  {error : Resource.Error} {first second : String}

namespace Delta

theorem observes (resource : Resource) (normalizer : Normalizer) (tag : Option Field) :
    (strategy resource normalizer (tag.map Field.path)).Observes resource normalizer tag where
  normalizer := rfl
  isIgnored := rfl
  isTagField _ := rfl

theorem checks_of_found (found : resource.tagField = .ok tag) :
    checks resource normalizer first second =
      .ok ((strategy resource normalizer (tag.map Field.path)).resource resource first second) := by
  rw [checks, found]
  rfl

theorem checks_of_missing (missing : resource.tagField = .error error) :
    checks resource normalizer first second = .error (.tagField error) := by
  rw [checks, missing]
  rfl

/-- Difference code is written if all that its checks demand can be met. -/
theorem compareResource_of_met {planned : List Check}
    (isPlan : checks resource normalizer first second = .ok planned)
    (met : Demand.unmet? (Check.demandsOf planned) = none) (level : Nat) :
    compareResource resource normalizer first second level =
      .ok (Code.renderBehindBlank (Check.codeOf action planned) level) := by
  simp [compareResource, isPlan, Check.emit, met, bind, Except.bind, pure, Except.pure]

theorem compareResource_of_unmet {planned : List Check} {failure : CompareError}
    (isPlan : checks resource normalizer first second = .ok planned)
    (unmet : Demand.unmet? (Check.demandsOf planned) = some failure) (level : Nat) :
    compareResource resource normalizer first second level = .error failure := by
  simp [compareResource, isPlan, Check.emit, unmet, bind, Except.bind]

end Delta

namespace Equality

theorem observes (resource : Resource) (normalizer : Normalizer) (tag : Option Field) :
    (resourceStrategy resource normalizer (tag.map Field.path)).Observes resource normalizer
      tag where
  normalizer := rfl
  isIgnored := rfl
  isTagField _ := rfl

theorem resourceChecks_of_found (found : resource.tagField = .ok tag) :
    resourceChecks resource normalizer first second =
      .ok ((resourceStrategy resource normalizer (tag.map Field.path)).resource resource
        first second) := by
  rw [resourceChecks, found]
  rfl

theorem resourceChecks_of_missing (missing : resource.tagField = .error error) :
    resourceChecks resource normalizer first second = .error (.tagField error) := by
  rw [resourceChecks, missing]
  rfl

end Equality

end

end Reconcile
