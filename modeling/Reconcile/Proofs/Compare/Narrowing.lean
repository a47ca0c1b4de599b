import Reconcile.Proofs.Compare.Records
import Reconcile.Proofs.Resource.Ignoring

/-!
# One more field that comparisons leave out

The strategy of a resource with one more ignored path leaves out the field there with all that is
below it. Where the path is not visited, it plans the same checks (`Delta.resource_narrowed`).
-/

namespace Reconcile

namespace Delta

variable {resource : Resource} {normalizer : Normalizer} {tagPath : Option FieldPath} {p : String}
  {first second : String}

/-- The strategy that leaves out the field at one more path. -/
def narrowed (resource : Resource) (normalizer : Normalizer) (tagPath : Option FieldPath)
    (p : String) : Strategy :=
  strategy (resource.ignoring ("Spec." ++ p)) normalizer tagPath

theorem isIgnored_narrowed (path : FieldPath) :
    (narrowed resource normalizer tagPath p).isIgnored path =
      (resource.isCompareIgnored path || p == path.text) :=
  resource.isCompareIgnored_ignoring p path

/-- The field that is left out is left out with all that is below it. -/
theorem member_narrowed_self {shape : Shape} {site : Site} {inside : List Check}
    (same : site.path.text = p) :
    (narrowed resource normalizer tagPath p).member shape site inside = [] := by
  have ignored : (narrowed resource normalizer tagPath p).isIgnored site.path = true := by
    rw [isIgnored_narrowed, same, beq_self_eq_true, Bool.or_true]
  exact if_pos ignored

theorem outermost_narrowed_self {field : Field} {site : Site} (same : site.path.text = p) :
    (narrowed resource normalizer tagPath p).outermost field site = [] := by
  have ignored : (resource.ignoring ("Spec." ++ p)).isCompareIgnored site.path = true := by
    rw [Resource.isCompareIgnored_ignoring, same, beq_self_eq_true, Bool.or_true]
  exact outermost_of_ignored ignored

theorem member_narrowed {shape : Shape} {site : Site} {inside : List Check}
    (different : site.path.text ≠ p) :
    (narrowed resource normalizer tagPath p).member shape site inside =
      (strategy resource normalizer tagPath).member shape site inside := by
  have ignored : (narrowed resource normalizer tagPath p).isIgnored site.path =
      (strategy resource normalizer tagPath).isIgnored site.path := by
    rw [isIgnored_narrowed, beq_false_of_ne different.symm, Bool.or_false]
    rfl
  rw [Strategy.member, Strategy.member, ignored]
  rfl

/-- A member below which the path is not visited stays as it is, if its value does. -/
theorem member_body_narrowed {shape : Shape} {site : Site}
    (ofBody : (∀ visited ∈ Check.sitesOf ((strategy resource normalizer tagPath).body shape site),
      visited.path.text ≠ p) → (narrowed resource normalizer tagPath p).body shape site =
        (strategy resource normalizer tagPath).body shape site)
    (unvisited : ∀ visited ∈ Check.sitesOf ((strategy resource normalizer tagPath).member shape site
      ((strategy resource normalizer tagPath).body shape site)), visited.path.text ≠ p) :
    (narrowed resource normalizer tagPath p).member shape site
        ((narrowed resource normalizer tagPath p).body shape site) =
      (strategy resource normalizer tagPath).member shape site
        ((strategy resource normalizer tagPath).body shape site) := by
  cases ignored : resource.isCompareIgnored site.path with
  | true =>
      have stillIgnored : (resource.ignoring ("Spec." ++ p)).isCompareIgnored site.path = true := by
        rw [Resource.isCompareIgnored_ignoring, ignored, Bool.true_or]
      rw [member_of_ignored ignored]
      exact member_of_ignored stillIgnored
  | false =>
      have visitsFirst : Check.VisitFrom site ((strategy resource normalizer tagPath).member shape
          site ((strategy resource normalizer tagPath).body shape site)) :=
        visitFrom_member ignored
      have different := unvisited site visitsFirst.mem
      rw [member_narrowed different]
      cases isTag : (strategy resource normalizer tagPath).isTagField site.path with
      | true => simp [Strategy.member, isTag]
      | false =>
          rw [ofBody]
          intro visited inBody
          apply unvisited
          rw [Strategy.member_eq_guarded ignored isTag]
          exact mem_sitesOf_guarded.mpr (Or.inr inBody)

mutual

/-- A value below which the path is not visited stays as it is. -/
theorem body_narrowed : (shape : Shape) → (site : Site) →
    (∀ visited ∈ Check.sitesOf ((strategy resource normalizer tagPath).body shape site),
      visited.path.text ≠ p) → (narrowed resource normalizer tagPath p).body shape site =
        (strategy resource normalizer tagPath).body shape site
  | .scalar _ _, _, _ => rfl
  | .sequence _ _, _, _ => rfl
  | .mapping _ _ _, _, _ => rfl
  | .struct name members, site, unvisited => by
      rw [Strategy.body_struct] at unvisited
      rw [Strategy.body_struct, Strategy.body_struct]
      apply List.flatMap_congr
      intro member listed
      apply memberEntry_narrowed members member (Text.mem_sortedBy.mp listed) site
      intro visited inEntry
      exact unvisited visited (Check.mem_sitesOf_flatMap.mpr ⟨member, listed, inEntry⟩)

theorem memberEntry_narrowed : (members : List (String × Shape)) → ∀ member ∈ members,
    ∀ site, (∀ visited ∈ Check.sitesOf
      ((strategy resource normalizer tagPath).memberEntry site member).2,
        visited.path.text ≠ p) →
          ((narrowed resource normalizer tagPath p).memberEntry site member).2 =
            ((strategy resource normalizer tagPath).memberEntry site member).2
  | [], _, listed, _, _ => absurd listed List.not_mem_nil
  | (name, shape) :: rest, member, listed, site, unvisited => by
      rcases List.mem_cons.mp listed with rfl | inRest
      · exact member_body_narrowed (body_narrowed shape _) unvisited
      · exact memberEntry_narrowed rest member inRest site unvisited

end

theorem outermost_narrowed {field : Field} {site : Site}
    (unvisited : ∀ visited ∈ Check.sitesOf ((strategy resource normalizer tagPath).outermost field
      site), visited.path.text ≠ p) :
    (narrowed resource normalizer tagPath p).outermost field site =
      (strategy resource normalizer tagPath).outermost field site := by
  cases ignored : resource.isCompareIgnored site.path with
  | true =>
      have stillIgnored : (resource.ignoring ("Spec." ++ p)).isCompareIgnored site.path = true := by
        rw [Resource.isCompareIgnored_ignoring, ignored, Bool.true_or]
      rw [outermost_of_ignored ignored]
      exact outermost_of_ignored stillIgnored
  | false =>
      have visitsFirst : Check.VisitFrom site
          ((strategy resource normalizer tagPath).outermost field site) :=
        visitFrom_outermost ignored
      have different := unvisited site visitsFirst.mem
      have stillRetained :
          (narrowed resource normalizer tagPath p).isIgnored site.path = false := by
        rw [isIgnored_narrowed, ignored, beq_false_of_ne different.symm, Bool.or_false]
      have retained : (strategy resource normalizer tagPath).isIgnored site.path = false := ignored
      rw [Strategy.outermost, retained] at unvisited
      rw [Strategy.outermost, Strategy.outermost, stillRetained, retained]
      split
      · rfl
      · rename_i notTaken
        rw [if_neg notTaken] at unvisited
        exact member_body_narrowed (body_narrowed field.shape site) unvisited

/-- Where the path of the field is not visited, the plan of the resource stays as it is. -/
theorem resource_narrowed
    (unvisited : ∀ visited ∈ Check.sitesOf
      ((strategy resource normalizer tagPath).resource resource first second),
        visited.path.text ≠ p) :
    (narrowed resource normalizer tagPath p).resource resource first second =
      (strategy resource normalizer tagPath).resource resource first second := by
  rw [resource_eq_flatMap] at unvisited
  rw [resource_eq_flatMap, resource_eq_flatMap]
  apply List.flatMap_congr
  intro field isTop
  apply outermost_narrowed
  intro visited inField
  exact unvisited visited (Check.mem_sitesOf_flatMap.mpr ⟨field, isTop, inField⟩)

/-- The code of the resource with one more ignored path is that of the narrowed plan. -/
theorem compareResource_ignoring {tag : Option Field} (found : resource.tagField = .ok tag)
    (met : Demand.unmet? (Check.demandsOf ((narrowed resource normalizer (tag.map Field.path)
      p).resource resource first second)) = none) (level : Nat) :
    compareResource (resource.ignoring ("Spec." ++ p)) normalizer first second level =
      .ok (Code.renderBehindBlank (Check.codeOf action ((narrowed resource normalizer
        (tag.map Field.path) p).resource resource first second)) level) :=
  @compareResource_of_met (resource.ignoring ("Spec." ++ p)) normalizer first second _
    (checks_of_found found) met level

end Delta

end Reconcile
