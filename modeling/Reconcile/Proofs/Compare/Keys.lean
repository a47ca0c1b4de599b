import Reconcile.Proofs.Compare.Asking

/-!
# Keys of mappings

A mapping whose keys are no texts keeps a comparison from being written wherever the comparison
looks into it, and once the tags are found nothing else does (`unsupported_keys_rejected`). Both
comparisons look into the values that they enter. Equality code goes on from there into the
structures that collections hold, by way of helpers; difference code compares collections as a
whole, whatever is inside of them (`keys_in_list_accepted`).
-/

namespace Reconcile

/--
Whether looking into a shape, and into the structures that its collections hold, comes to a
mapping whose keys are no texts.
-/
inductive Shape.Exposes : Shape → Prop
  | key {name : String} {key : ScalarKind} {value : Shape} (noText : key ≠ .string) :
      Exposes (.mapping name key value)
  | member {name : String} {members : List (String × Shape)} {member : String × Shape}
      (listed : member ∈ members) (inner : Exposes member.2) : Exposes (.struct name members)
  | element {name : String} {element : Shape} (isStructure : element.isStructure = true)
      (inner : Exposes element) : Exposes (.sequence name element)
  | value {name : String} {key : ScalarKind} {value : Shape}
      (isStructure : value.isStructure = true) (inner : Exposes value) :
      Exposes (.mapping name key value)

namespace Demand

theorem unmet?_eq_none {demands : List Demand} :
    unmet? demands = none ↔ ∀ path key, .keyKind path key ∉ demands := by
  induction demands with
  | nil => simp [unmet?]
  | cons demand rest ih =>
      cases demand with
      | helper shape => simpa [unmet?] using ih
      | keyKind path key =>
          constructor
          · intro met
            cases met
          · intro missing
            exact absurd List.mem_cons_self (missing path key)

theorem exists_keyKind_of_unmet? {demands : List Demand} (unmet : unmet? demands ≠ none) :
    ∃ path key, .keyKind path key ∈ demands := by
  by_contra missing
  push Not at missing
  exact unmet (unmet?_eq_none.mpr missing)

theorem unsupportedKey_of_unmet? {demands : List Demand} {error : CompareError}
    (unmet : unmet? demands = some error) : ∃ path key, error = .unsupportedKey path key := by
  induction demands with
  | nil => cases unmet
  | cons demand rest ih =>
      cases demand with
      | helper shape => exact ih unmet
      | keyKind path key =>
          cases unmet
          exact ⟨path, key, rfl⟩

end Demand

theorem HelperQueue.unsupportedKey_of_meet {queue after : HelperQueue} {demands : List Demand}
    {error : CompareError} (failed : queue.meet demands = (.error error, after)) :
    ∃ path key, error = .unsupportedKey path key := by
  induction demands generalizing queue with
  | nil => simp [meet] at failed
  | cons demand rest ih =>
      cases demand with
      | helper shape => exact ih failed
      | keyKind path key =>
          simp only [meet, Prod.mk.injEq, Except.error.injEq] at failed
          exact ⟨path, key, failed.1.symm⟩

theorem Shape.size_le_totalSize {part : Shape} {shapes : List Shape} (listed : part ∈ shapes) :
    part.size ≤ totalSize shapes := by
  induction shapes with
  | nil => exact absurd listed List.not_mem_nil
  | cons first rest ih =>
      rw [totalSize]
      rcases List.mem_cons.mp listed with rfl | inRest
      · omega
      · have inner := ih inRest
        omega

namespace Equality

variable {resource : Resource} {normalizer : Normalizer} {first second : String} {level : Nat}
  {isIgnored isTagField : FieldPath → Bool} {shape : Shape}

/-! ### What is demanded -/

/-- Whether demands hold an unsupported kind of keys, or the helper of a shape that exposes one. -/
def Exposed (demands : List Demand) : Prop :=
  (∃ path key, .keyKind path key ∈ demands) ∨ ∃ part, .helper part ∈ demands ∧ part.Exposes

theorem Exposed.mono {few many : List Demand} (exposed : Exposed few) (subset : few ⊆ many) :
    Exposed many := by
  rcases exposed with ⟨path, key, demanded⟩ | ⟨part, demanded, exposes⟩
  · exact Or.inl ⟨path, key, subset demanded⟩
  · exact Or.inr ⟨part, subset demanded, exposes⟩

/-- It is single demands that expose something. -/
theorem Exposed.exists_demand {demands : List Demand} (exposed : Exposed demands) :
    ∃ demand ∈ demands, Exposed [demand] := by
  rcases exposed with ⟨path, key, demanded⟩ | ⟨part, demanded, exposes⟩
  · exact ⟨_, demanded, Or.inl ⟨path, key, List.mem_singleton_self _⟩⟩
  · exact ⟨_, demanded, Or.inr ⟨part, List.mem_singleton_self _, exposes⟩⟩

@[simp]
theorem not_exposed_nil : ¬Exposed [] := by
  simp [Exposed]

@[simp]
theorem exposed_helper_iff {part : Shape} : Exposed [.helper part] ↔ part.Exposes := by
  simp [Exposed]

@[simp]
theorem exposed_keyKind (path : FieldPath) (key : ScalarKind) : Exposed [.keyKind path key] :=
  Or.inl ⟨path, key, List.mem_singleton_self _⟩

/-- A collection demands what exposes unsupported keys exactly if it exposes them itself. -/
theorem exposed_collection_iff (isCollection : shape.isCollection = true) (site : Site) :
    Exposed (Check.demandsOf ((strategyWith normalizer isIgnored isTagField).body shape site)) ↔
      shape.Exposes := by
  cases shape with
  | scalar name kind => exact Bool.noConfusion isCollection
  | struct name members => exact Bool.noConfusion isCollection
  | sequence name element =>
      rw [demandsOf_sequence]
      constructor
      · intro exposed
        split at exposed
        · rename_i isStructure
          exact .element isStructure (exposed_helper_iff.mp exposed)
        · exact absurd exposed not_exposed_nil
      · rintro (_ | _ | ⟨isStructure, inner⟩)
        rw [if_pos isStructure]
        exact exposed_helper_iff.mpr inner
  | mapping name key value =>
      rw [demandsOf_mapping]
      constructor
      · intro exposed
        split at exposed
        · split at exposed
          · rename_i isStructure
            exact .value isStructure (exposed_helper_iff.mp exposed)
          · exact absurd exposed not_exposed_nil
        · rename_i noText
          exact .key noText
      · intro exposes
        split
        · rename_i isText
          cases exposes with
          | key noText => exact absurd isText noText
          | value isStructure inner =>
              rw [if_pos isStructure]
              exact exposed_helper_iff.mpr inner
        · exact exposed_keyKind _ _

/-- What steps lead to exposes nothing that the value does not expose from which they lead. -/
theorem exposes_of_leads {target : Shape} {steps : List String}
    (leads : shape.Leads normalizer steps target) (exposes : target.Exposes) : shape.Exposes := by
  induction leads with
  | here shape => exact exposes
  | step listed _ ih => exact .member listed (ih exposes)

/-- What is demanded for a value exposes nothing that the value does not expose. -/
theorem exposes_of_exposed {site : Site}
    (exposed : Exposed
      (Check.demandsOf ((strategyWith normalizer isIgnored isTagField).body shape site))) :
    shape.Exposes := by
  rcases exposed.exists_demand with ⟨demand, demanded, ofDemand⟩
  rcases Strategy.exists_leads_of_demanded shape site demanded with
    ⟨steps, target, leads, _, isCollection, inTarget⟩
  apply exposes_of_leads leads
  rw [← exposed_collection_iff isCollection (site.descend steps)]
  exact ofDemand.mono (List.cons_subset.mpr ⟨inTarget, List.nil_subset _⟩)

/-- A helper, which knows no settings, demands what its shape exposes. -/
theorem exposed_helper (exposes : shape.Exposes) (site : Site) :
    Exposed (Check.demandsOf ((strategy normalizer).body shape site)) := by
  induction exposes generalizing site with
  | key noText => exact (exposed_collection_iff rfl site).mpr (.key noText)
  | element isStructure inner _ =>
      exact (exposed_collection_iff rfl site).mpr (.element isStructure inner)
  | value isStructure inner _ =>
      exact (exposed_collection_iff rfl site).mpr (.value isStructure inner)
  | @member name members member listed inner ih =>
      apply (ih (site.member ((strategy normalizer).normalizer member.1).exported)).mono
      intro demand demanded
      rw [Strategy.body, Strategy.mem_demandsOf_inNameOrder]
      refine ⟨_, Strategy.mem_members listed site, ?_⟩
      rwa [Strategy.demandsOf_member rfl rfl]

/-! ### What is written -/

section

variable {checks : List Check} {added : List Shape} {helpers : List Helper} {code : EqualityCode}
  {after : HelperQueue}

/-- Every structure that a comparison asks for is written, if it is the only one of its name. -/
theorem exists_helper_of_asked
    (succeeds : (resourceCall resource normalizer first second level).Succeeds .empty checks added
      helpers code after)
    (unique : ∀ left right, resource.Holds left → resource.Holds right → left.name = right.name →
      left = right) {part : Shape} (holds : resource.Holds part)
    (asked : part ∈ Demand.shapes (Check.demandsOf checks) ∨
      ∃ helper ∈ helpers, part ∈ helper.asked) : ∃ helper ∈ helpers, helper.shape = part := by
  have written : added = helpers.map Helper.shape := by
    have pending := succeeds.advances.pending
    rw [succeeds.pending, List.append_nil] at pending
    exact pending
  have addedHolds : ∀ shape ∈ added, resource.Holds shape :=
    succeeds.passed _ (passedOn_resourceHolds resource)
      (asks_resourceHolds resource normalizer first second level)
      (fun shape isPending => absurd isPending List.not_mem_nil)
  have known := succeeds.known part asked
  rw [succeeds.advances.requested, written] at known
  rcases List.mem_map.mp known with ⟨shape, isWritten, sameName⟩
  have isAdded : shape ∈ added := by rwa [written]
  rcases List.mem_map.mp isWritten with ⟨helper, membership, rfl⟩
  exact ⟨helper, membership, unique _ _ (addedHolds _ isAdded) holds sameName⟩

/-- What is demanded by a comparison that was written exposes no unsupported keys. -/
theorem not_exposed_of_succeeds
    (succeeds : (resourceCall resource normalizer first second level).Succeeds .empty checks added
      helpers code after)
    (unique : ∀ left right, resource.Holds left → resource.Holds right → left.name = right.name →
      left = right) : ¬Exposed (Check.demandsOf checks) := by
  have holdsOfChecks : ∀ part ∈ Demand.shapes (Check.demandsOf checks), resource.Holds part :=
    asks_resourceHolds resource normalizer first second level checks succeeds.planned
  -- A helper whose shape exposes a mapping demands one of a smaller shape that does so too.
  have noHelper : ∀ size, ∀ helper ∈ helpers, resource.Holds helper.shape →
      helper.shape.size ≤ size → ¬helper.shape.Exposes := by
    intro size
    induction size with
    | zero =>
        intro helper _ _ small
        have positive := helper.shape.size_pos
        omega
    | succ size ih =>
        intro helper membership holds small exposes
        have own := succeeds.ofShape helper membership
        have exposed : Exposed (Check.demandsOf
            ((strategy normalizer).body helper.shape Helper.root)) :=
          exposed_helper exposes Helper.root
        rcases exposed with ⟨path, key, demanded⟩ | ⟨part, demanded, partExposes⟩
        · exact Demand.unmet?_eq_none.mp (succeeds.writable helper membership) path key demanded
        · have isAsked := Demand.mem_shapes.mpr demanded
          have smaller := Shape.size_le_totalSize isAsked
          have bound := demandedSize_body_lt normalizer (fun _ => false) (fun _ => false)
            helper.shape Helper.root
          have partHolds := passedOn_resourceHolds resource helper.shape holds part isAsked
          rw [own] at membership
          rcases exists_helper_of_asked succeeds unique partHolds
            (Or.inr ⟨_, membership, isAsked⟩) with ⟨other, otherMembership, rfl⟩
          refine ih other otherMembership partHolds ?_ partExposes
          unfold demandedSize at bound
          have sameSize : Shape.totalSize (Demand.shapes (Check.demandsOf
              ((strategy normalizer).body helper.shape Helper.root))) < helper.shape.size := bound
          omega
  rintro (⟨path, key, demanded⟩ | ⟨part, demanded, exposes⟩)
  · exact Demand.unmet?_eq_none.mp succeeds.met path key demanded
  · have isAsked := Demand.mem_shapes.mpr demanded
    have holds := holdsOfChecks part isAsked
    rcases exists_helper_of_asked succeeds unique holds (Or.inl isAsked) with
      ⟨helper, membership, rfl⟩
    exact noHelper helper.shape.size helper membership holds (Nat.le_refl _) exposes

end

theorem unsupportedKey_of_writeHelpers {before after : HelperQueue} {error : CompareError}
    (failed : writeHelpers normalizer before = (.error error, after)) :
    ∃ path key, error = .unsupportedKey path key := by
  fun_induction writeHelpers normalizer before with
  | case1 queue empty => simp at failed
  | case2 queue shape rest taken helper cause between met =>
      simp only [Prod.mk.injEq, Except.error.injEq] at failed
      rw [← failed.1]
      exact HelperQueue.unsupportedKey_of_meet met
  | case3 queue shape rest taken helper done between met cause later failing ih =>
      simp only [Prod.mk.injEq, Except.error.injEq] at failed
      rcases failed with ⟨rfl, rfl⟩
      exact ih failing
  | case4 queue shape rest taken helper done between met others later succeeded ih =>
      simp at failed

/-- Once the tags are found, only unsupported keys keep equality code from being written. -/
theorem unsupportedKey_of_compareResource {tag : Option Field} {before after : HelperQueue}
    {error : CompareError} (found : resource.tagField = .ok tag)
    (failed : compareResource resource normalizer first second level before =
      (.error error, after)) : ∃ path key, error = .unsupportedKey path key := by
  rw [compareResource, resourceChecks_of_found found] at failed
  dsimp only at failed
  unfold write at failed
  split at failed
  · rename_i cause queue met
    simp only [Prod.mk.injEq, Except.error.injEq] at failed
    rw [← failed.1]
    exact HelperQueue.unsupportedKey_of_meet met
  · split at failed
    · rename_i cause queue failing
      simp only [Prod.mk.injEq, Except.error.injEq] at failed
      rw [← failed.1]
      exact unsupportedKey_of_writeHelpers failing
    · simp at failed

/-- What keeps equality code from being written is exposed by what its own checks demand. -/
theorem exposed_of_compareResource {tag : Option Field} {error : CompareError}
    {after : HelperQueue} (found : resource.tagField = .ok tag)
    (failed : compareResource resource normalizer first second level .empty = (.error error, after)) :
    Exposed (Check.demandsOf ((resourceStrategy resource normalizer
      (tag.map Field.path)).resource resource first second)) := by
  generalize demands : Check.demandsOf ((resourceStrategy resource normalizer
    (tag.map Field.path)).resource resource first second) = demanded
  have run : (resourceCall resource normalizer first second level).run .empty =
      (.error error, after) := failed
  rcases Call.fails_of_run run with ⟨added, taken, fails⟩
  -- What a helper exposes is exposed by all that asks for it, down to the checks of the resource.
  have passes : PassedOn normalizer (fun shape => shape.Exposes → Exposed demanded) := by
    intro shape ofShape inner isAsked exposes
    exact ofShape (exposes_of_exposed (Or.inr ⟨inner, Demand.mem_shapes.mp isAsked, exposes⟩))
  have asks : (resourceCall resource normalizer first second level).Asks
      (fun shape => shape.Exposes → Exposed demanded) := by
    intro checks planned shape isAsked exposes
    cases planned.symm.trans (resourceChecks_of_found found)
    refine Or.inr ⟨shape, ?_, exposes⟩
    rw [← demands]
    exact Demand.mem_shapes.mp isAsked
  have nonePending : ∀ shape ∈ HelperQueue.empty.pending, shape.Exposes → Exposed demanded :=
    fun _ isPending => absurd isPending List.not_mem_nil
  have ofTaken := (fails.advances.forall_pending nonePending
    (fails.passed _ passes asks nonePending)).1
  rcases fails.cause with ⟨unwritable, _⟩ | ⟨_, written, failing, rfl, _, unwritable⟩
  · left
    rw [← demands]
    apply Demand.exists_keyKind_of_unmet?
    exact fun met => unwritable ⟨_, resourceChecks_of_found found, met⟩
  · apply ofTaken failing (List.mem_append_right _ (List.mem_singleton_self failing))
    exact exposes_of_exposed (Or.inl (Demand.exists_keyKind_of_unmet? unwritable))

/-- What the checks of a resource demand is exposed by collections that are entered. -/
theorem exists_exposing_of_exposed {tag : Option Field} (found : resource.tagField = .ok tag)
    (exposed : Exposed (Check.demandsOf ((resourceStrategy resource normalizer
      (tag.map Field.path)).resource resource first second))) :
    ∃ path target, resource.Enters normalizer path target ∧ target.isCollection = true ∧
      target.Exposes := by
  rcases exposed.exists_demand with ⟨demand, demanded, ofDemand⟩
  rcases Strategy.exists_entered_of_demanded (observes resource normalizer tag) found demanded with
    ⟨target, site, enters, isCollection, inTarget⟩
  refine ⟨site.path, target, enters, isCollection, ?_⟩
  rw [← exposed_collection_iff isCollection site]
  exact ofDemand.mono (List.cons_subset.mpr ⟨inTarget, List.nil_subset _⟩)

/-- Equality code of a resource that demands what exposes unsupported keys is not written. -/
theorem unsupportedKey_of_exposed {tag : Option Field} (found : resource.tagField = .ok tag)
    (unique : ∀ left right, resource.Holds left → resource.Holds right → left.name = right.name →
      left = right)
    (exposed : Exposed (Check.demandsOf ((resourceStrategy resource normalizer
      (tag.map Field.path)).resource resource first second))) :
    ∃ path key, (compareResource resource normalizer first second level .empty).1 =
      .error (.unsupportedKey path key) := by
  cases outcome : compareResource resource normalizer first second level .empty with
  | mk result after =>
      cases result with
      | error error =>
          rcases unsupportedKey_of_compareResource found outcome with ⟨path, key, rfl⟩
          exact ⟨path, key, rfl⟩
      | ok code =>
          exfalso
          have run : (resourceCall resource normalizer first second level).run .empty =
              (.ok code, after) := outcome
          rcases Call.succeeds_of_run run with ⟨checks, added, helpers, succeeds⟩
          rcases Outcome.of_bind_eq_ok succeeds.planned with ⟨other, isTag, made⟩
          cases made
          cases found.symm.trans (Outcome.of_mapError_eq_ok isTag)
          exact not_exposed_of_succeeds succeeds unique exposed

end Equality

/-- A comparison that enters a mapping with keys other than texts demands that kind of keys. -/
theorem Strategy.keyKind_mem_demandsOf {strategy : Strategy} {resource : Resource}
    {normalizer : Normalizer} {tag : Option Field} {path : FieldPath} {name : String}
    {key : ScalarKind} {value : Shape} (observes : strategy.Observes resource normalizer tag)
    (found : resource.tagField = .ok tag)
    (enters : resource.Enters normalizer path (.mapping name key value)) (noText : key ≠ .string)
    (first second : String) :
    .keyKind path key ∈ Check.demandsOf (strategy.resource resource first second) := by
  rcases exists_demandsOf_subset observes found enters first second with ⟨site, rfl, subset⟩
  apply subset
  rw [body, if_neg noText]
  exact List.mem_cons_self

namespace Delta

variable {resource : Resource} {normalizer : Normalizer} {tag : Option Field} {first second : String}

/-- Difference code demands nothing for a collection but keys that are texts. -/
theorem demandsOf_collection {target : Shape} {site : Site} {demand : Demand}
    (isCollection : target.isCollection = true)
    (demanded : demand ∈ Check.demandsOf
      ((strategy resource normalizer (tag.map Field.path)).body target site)) :
    ∃ name key value, target = .mapping name key value ∧ key ≠ .string := by
  cases target with
  | scalar name kind => exact Bool.noConfusion isCollection
  | struct name members => exact Bool.noConfusion isCollection
  | sequence name element =>
      simp only [Strategy.body, strategy, Check.demandsOf, Check.demands, List.append_nil]
        at demanded
      unfold sequenceChecks at demanded
      split at demanded <;> exact absurd demanded List.not_mem_nil
  | mapping name key value =>
      refine ⟨name, key, value, rfl, ?_⟩
      rintro rfl
      simp only [Strategy.body, strategy, Check.demandsOf, Check.demands, List.append_nil, if_true]
        at demanded
      unfold mappingChecks at demanded
      split at demanded <;> exact absurd demanded List.not_mem_nil

/-- Difference code is rejected for the keys of the mappings that it enters, and for no others. -/
theorem unsupportedKey_iff (found : resource.tagField = .ok tag) (level : Nat) :
    (∃ path key, compareResource resource normalizer first second level =
      .error (.unsupportedKey path key)) ↔
      ∃ path name key value, resource.Enters normalizer path (.mapping name key value) ∧
        key ≠ .string := by
  have planned : checks resource normalizer first second = .ok ((strategy resource normalizer
      (tag.map Field.path)).resource resource first second) := checks_of_found found
  constructor
  · rintro ⟨path, key, failed⟩
    have unmet : Demand.unmet? (Check.demandsOf ((strategy resource normalizer
        (tag.map Field.path)).resource resource first second)) ≠ none := by
      intro met
      rw [compareResource_of_met planned met] at failed
      cases failed
    rcases Demand.exists_keyKind_of_unmet? unmet with ⟨place, kind, demanded⟩
    rcases Strategy.exists_entered_of_demanded (observes resource normalizer tag) found demanded
      with ⟨target, site, enters, isCollection, inTarget⟩
    rcases demandsOf_collection isCollection inTarget with ⟨name, key, value, rfl, noText⟩
    exact ⟨site.path, name, key, value, enters, noText⟩
  · rintro ⟨path, name, key, value, enters, noText⟩
    have demanded := Strategy.keyKind_mem_demandsOf (observes resource normalizer tag) found enters
      noText first second
    cases unmet : Demand.unmet? (Check.demandsOf ((strategy resource normalizer
        (tag.map Field.path)).resource resource first second)) with
    | none => exact absurd demanded (Demand.unmet?_eq_none.mp unmet path key)
    | some error =>
        rcases Demand.unsupportedKey_of_unmet? unmet with ⟨failing, kind, rfl⟩
        exact ⟨failing, kind, compareResource_of_unmet planned unmet level⟩

end Delta

/--
Difference code is rejected exactly if it enters a mapping with keys other than texts. So is
equality code then, and it is rejected only if a collection that it enters exposes such a mapping.
This is enough if collections hold one structure of each name only.
-/
theorem unsupported_keys_rejected {resource : Resource} {tag : Option Field}
    (found : resource.tagField = .ok tag) (normalizer : Normalizer) (first second : String)
    (level : Nat) :
    ((∃ path key, Delta.compareResource resource normalizer first second level =
      .error (.unsupportedKey path key)) ↔
        ∃ path name key value, resource.Enters normalizer path (.mapping name key value) ∧
          key ≠ .string) ∧
      (∀ path name key value, resource.Enters normalizer path (.mapping name key value) →
        key ≠ .string →
          ∃ path key, (Equality.compareResource resource normalizer first second level .empty).1 =
            .error (.unsupportedKey path key)) ∧
      ((∃ path key, (Equality.compareResource resource normalizer first second level .empty).1 =
        .error (.unsupportedKey path key)) →
          ∃ path target, resource.Enters normalizer path target ∧ target.isCollection = true ∧
            target.Exposes) ∧
      ((∀ left right, resource.Holds left → resource.Holds right → left.name = right.name →
        left = right) →
          ∀ path target, resource.Enters normalizer path target → target.isCollection = true →
            target.Exposes →
              ∃ path key, (Equality.compareResource resource normalizer first second level
                .empty).1 = .error (.unsupportedKey path key)) := by
  refine ⟨Delta.unsupportedKey_iff found level, ?_, ?_, ?_⟩
  · intro path name key value enters noText
    have demanded := Strategy.keyKind_mem_demandsOf (Equality.observes resource normalizer tag)
      found enters noText first second
    have unwritable :
        ¬(Equality.resourceCall resource normalizer first second level).IsWritable := by
      rintro ⟨checks, planned, met⟩
      cases planned.symm.trans (Equality.resourceChecks_of_found found)
      exact Demand.unmet?_eq_none.mp met path key demanded
    rcases Equality.Call.run_unwritable unwritable .empty with ⟨error, _, after, failed, _, _⟩
    have compared : Equality.compareResource resource normalizer first second level .empty =
        (.error error, after) := failed
    rcases Equality.unsupportedKey_of_compareResource found compared with ⟨failing, kind, rfl⟩
    exact ⟨failing, kind, by rw [compared]⟩
  · rintro ⟨path, key, failed⟩
    have compared : Equality.compareResource resource normalizer first second level .empty =
        (.error (.unsupportedKey path key), _) := Prod.ext failed rfl
    exact Equality.exists_exposing_of_exposed found
      (Equality.exposed_of_compareResource found compared)
  · intro unique path target enters isCollection exposes
    apply Equality.unsupportedKey_of_exposed found unique
    rcases Strategy.exists_demandsOf_subset (Equality.observes resource normalizer tag) found enters
      first second with ⟨site, _, subset⟩
    exact ((Equality.exposed_collection_iff isCollection site).mpr exposes).mono subset

/-- A mapping with keys that are no texts. -/
def counts : Shape :=
  Shape.mappingOf .integer (Shape.scalarOf .string)

/-- A definition with such a mapping. -/
def countsAlone : ResourceDefinition where
  name := "Thing"
  spec := .struct "ThingSpec" [("Counts", counts)]
  status := none
  operations := ∅

/-- A definition with such a mapping in the structures of a list. -/
def countsInItems : ResourceDefinition where
  name := "Thing"
  spec := .struct "ThingSpec" [
    ("Items", Shape.sequenceOf (.struct "Item" [("Counts", counts)]))]
  status := none
  operations := ∅

/-- The outermost fields of a definition with a single member that are not special are entered. -/
theorem exists_entered {definition : ResourceDefinition} {name member : String} {shape : Shape}
    (spec : definition.spec = .struct name [(member, shape)])
    (facts : ∃ resource ∈ (Resource.ofDefinition definition {} .default).toOption,
      ∃ tag ∈ resource.tagField.toOption, ∃ field ∈ resource.topLevelFields,
        field.isReference = false ∧ resource.isCompareIgnored field.path = false ∧
          (tag.map Field.path == some field.path) = false) :
    ∃ resource tag, Resource.ofDefinition definition {} .default = .ok resource ∧
      resource.tagField = .ok tag ∧ ∃ field ∈ resource.topLevelFields, field.shape = shape ∧
        resource.Enters .default field.path shape := by
  rcases facts with ⟨resource, made, tag, isTag, field, isTop, noReference, notIgnored, noTags⟩
  have joined := Outcome.of_mem_toOption made
  have found := Outcome.of_mem_toOption isTag
  have enters := (Delta.observes resource .default tag).enters_outermost found isTop noReference
    notIgnored noTags
  have same : field.shape = shape := by
    rcases Resource.exists_member_of_outermost joined isTop noReference with
      ⟨_, members, otherSpec, other, listed, same⟩
    cases spec.symm.trans otherSpec
    rwa [List.mem_singleton.mp listed] at same
  rw [same] at enters
  exact ⟨resource, tag, joined, found, field, isTop, same, enters⟩

/-- Difference code for the list is written. -/
theorem exists_delta_countsInItems {resource : Resource}
    (joined : Resource.ofDefinition countsInItems {} .default = .ok resource) :
    ∃ text, Delta.compareResource resource .default "a.ko" "b.ko" 1 = .ok text := by
  have succeeds : ∃ resource ∈ (Resource.ofDefinition countsInItems {} .default).toOption,
      (Delta.compareResource resource .default "a.ko" "b.ko" 1).toOption.isSome = true := by
    decide +kernel
  rcases succeeds with ⟨other, made, succeeds⟩
  cases joined.symm.trans (Outcome.of_mem_toOption made)
  rcases Option.isSome_iff_exists.mp succeeds with ⟨text, given⟩
  exact ⟨text, Outcome.of_mem_toOption given⟩

/--
Both comparisons enter the mapping alone. In the structures of a list only equality code comes to
it, and the list holds structures of one name.
-/
theorem unsupported_keys_rejected_counts :
    (∃ resource, Resource.ofDefinition countsAlone {} .default = .ok resource ∧
      (∃ path key, Delta.compareResource resource .default "a.ko" "b.ko" 1 =
        .error (.unsupportedKey path key)) ∧
      ∃ path key, (Equality.compareResource resource .default "a.ko" "b.ko" 1 .empty).1 =
        .error (.unsupportedKey path key)) ∧
      ∃ resource, Resource.ofDefinition countsInItems {} .default = .ok resource ∧
        (∃ text, Delta.compareResource resource .default "a.ko" "b.ko" 1 = .ok text) ∧
        (¬∃ path name key value, resource.Enters .default path (.mapping name key value) ∧
          key ≠ .string) ∧
        ∃ path key, (Equality.compareResource resource .default "a.ko" "b.ko" 1 .empty).1 =
          .error (.unsupportedKey path key) := by
  constructor
  · rcases exists_entered (rfl : countsAlone.spec = .struct _ [("Counts", _)])
      (by decide +kernel) with
      ⟨resource, tag, joined, found, field, _, _, enters⟩
    rcases unsupported_keys_rejected found .default "a.ko" "b.ko" 1 with ⟨ofDelta, ofEquality, _⟩
    have noText : ScalarKind.integer ≠ .string := by decide
    exact ⟨resource, joined, ofDelta.mpr ⟨_, _, _, _, enters, noText⟩,
      ofEquality _ _ _ _ enters noText⟩
  · rcases exists_entered (rfl : countsInItems.spec = .struct _ [("Items", _)])
      (by decide +kernel) with
      ⟨resource, tag, joined, found, field, _, _, enters⟩
    rcases unsupported_keys_rejected found .default "a.ko" "b.ko" 1 with
      ⟨ofDelta, _, _, ofEquality⟩
    rcases exists_delta_countsInItems joined with ⟨text, written⟩
    have unique : ∀ left right, resource.Holds left → resource.Holds right →
        left.name = right.name → left = right := by
      intro left right holdsLeft holdsRight _
      have held : countsInItems.spec.held = [.struct "Item" [("Counts", counts)]] := rfl
      have isLeft := Shape.mem_held.mpr (holdsLeft.spec joined)
      have isRight := Shape.mem_held.mpr (holdsRight.spec joined)
      rw [held, List.mem_singleton] at isLeft isRight
      rw [isLeft, isRight]
    have exposes : (Shape.sequenceOf (.struct "Item" [("Counts", counts)])).Exposes :=
      .element rfl (.member List.mem_cons_self (.key (by decide)))
    refine ⟨resource, joined, ⟨text, written⟩, ?_, ofEquality unique _ _ enters rfl exposes⟩
    rw [← ofDelta, written]
    rintro ⟨path, key, failed⟩
    cases failed

/-- Difference code compares a list as a whole, whatever keys the mappings in it have. -/
theorem keys_in_list_accepted :
    ¬∀ (definition : ResourceDefinition) (settings : Settings) (normalizer : Normalizer)
      (resource : Resource) (first second : String) (level : Nat),
        Resource.ofDefinition definition settings normalizer = .ok resource →
          ∀ field ∈ resource.specFields.values,
            (∀ front, front ≠ [] → front <+: field.path.segments →
              resource.isCompareIgnored ⟨front⟩ = false ∧ ¬resource.IsTagPath ⟨front⟩) →
              ∀ place name key value, field.shape.Occurs place (.mapping name key value) →
                key ≠ .string →
                  (∃ path key, Delta.compareResource resource normalizer first second level =
                    .error (.unsupportedKey path key)) ∧
                  ∃ path key, (Equality.compareResource resource normalizer first second level
                    .empty).1 = .error (.unsupportedKey path key) := by
  intro rejects
  rcases exists_entered (rfl : countsInItems.spec = .struct _ [("Items", _)])
    (by decide +kernel) with
    ⟨resource, tag, joined, _, field, isTop, shape, enters⟩
  rcases exists_delta_countsInItems joined with ⟨text, written⟩
  rw [Resource.topLevelFields, Text.mem_sortedBy, List.mem_filter] at isTop
  have occurs : field.shape.Occurs [.element, .member "Counts"] counts := by
    rw [shape]
    exact .element (.member List.mem_cons_self (.here counts))
  rcases (rejects countsInItems {} .default resource "a.ko" "b.ko" 1 joined field isTop.1
    enters.past _ _ _ _ occurs (by decide)).1 with ⟨path, key, failed⟩
  rw [written] at failed
  cases failed

end Reconcile
