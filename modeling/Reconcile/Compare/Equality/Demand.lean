import Reconcile.Compare.Equality.Strategy
import Reconcile.Shape.Size

/-!
# Demands of equality

The checks of a shape ask for helpers of parts of the shape only: all the shapes asked for
together are smaller than the shape itself (`demandedSize_body_lt`). This is why writing
helpers that ask for further helpers comes to an end.
-/

namespace Reconcile.Equality

/-- The number of nodes of the shapes whose helpers are demanded by checks. -/
def demandedSize (checks : List Check) : Nat :=
  Shape.totalSize (Demand.shapes (Check.demandsOf checks))

@[simp]
theorem demandedSize_nil : demandedSize [] = 0 := by
  simp [demandedSize, Check.demandsOf, Demand.shapes, Shape.totalSize]

@[simp]
theorem demandedSize_append (left right : List Check) :
    demandedSize (left ++ right) = demandedSize left + demandedSize right := by
  simp [demandedSize, Check.demandsOf_append]

theorem demandedSize_cons (check : Check) (rest : List Check) :
    demandedSize (check :: rest) = demandedSize [check] + demandedSize rest :=
  demandedSize_append [check] rest

/-- The order of the checks does not matter. -/
theorem demandedSize_perm {left right : List Check} (same : left.Perm right) :
    demandedSize left = demandedSize right := by
  induction same with
  | nil => rfl
  | cons check _ ih => rw [demandedSize_cons, ih, ← demandedSize_cons]
  | swap first second rest =>
    have left := demandedSize_append [second, first] rest
    have right := demandedSize_append [first, second] rest
    have secondFirst := demandedSize_append [second] [first]
    have firstSecond := demandedSize_append [first] [second]
    simp only [List.cons_append, List.nil_append] at left right secondFirst firstSecond
    omega
  | trans _ _ ihLeft ihRight => exact ihLeft.trans ihRight

theorem demandedSize_inNameOrder (checks : List (String × List Check)) :
    demandedSize (Strategy.inNameOrder checks) = demandedSize (checks.flatMap Prod.snd) :=
  demandedSize_perm ((Text.sortedBy_perm _).flatMap_right _)

theorem demandedSize_guarded (shape : Shape) (site : Site) (inside : List Check) :
    demandedSize (Check.guarded shape site inside) = demandedSize inside := by
  unfold Check.guarded
  split <;> simp [demandedSize, Check.demandsOf, Check.demands]

theorem demandedSize_helperCall (shape : Shape) (site : Site) :
    demandedSize (helperCall shape site) = shape.size := by
  rw [helperCall, demandedSize_guarded]
  simp [demandedSize, Check.demandsOf, Check.demands, Demand.shapes, Shape.totalSize]

theorem demandedSize_eachIndex (site : Site) (inside : List Check) :
    demandedSize [.eachIndex site inside] = demandedSize inside := by
  simp [demandedSize, Check.demandsOf, Check.demands]

theorem demandedSize_eachEntry (site : Site) (inside : List Check) :
    demandedSize [.eachEntry site inside] = demandedSize inside := by
  simp [demandedSize, Check.demandsOf, Check.demands]

theorem demandedSize_todo (what : String) : demandedSize [.todo what] = 0 := by
  simp [demandedSize, Check.demandsOf, Check.demands, Demand.shapes, Shape.totalSize]

theorem demandedSize_elementChecks_le (site : Site) (element : Shape)
    (checks : Site → List Check)
    (bounded : ∀ inner, demandedSize (checks inner) < element.size) :
    demandedSize (elementChecks site element checks) ≤ element.size := by
  cases element with
  | scalar name kind =>
    simp only [elementChecks, demandedSize_eachIndex, demandedSize_guarded]
    exact Nat.le_of_lt (bounded _)
  | struct name members =>
    simp only [elementChecks, demandedSize_eachIndex, demandedSize_helperCall]
    exact Nat.le_refl _
  | sequence name element => simp [elementChecks, demandedSize_todo]
  | mapping name key value => simp [elementChecks, demandedSize_todo]

theorem demandedSize_valueChecks_le (site : Site) (value : Shape)
    (checks : Site → List Check)
    (bounded : ∀ inner, demandedSize (checks inner) < value.size) :
    demandedSize (valueChecks site value checks) ≤ value.size := by
  cases value with
  | scalar name kind =>
    simp only [valueChecks, demandedSize_eachEntry, demandedSize_guarded]
    exact Nat.le_of_lt (bounded _)
  | struct name members =>
    simp only [valueChecks, demandedSize_eachEntry, demandedSize_helperCall]
    exact Nat.le_refl _
  | sequence name element => simp [valueChecks, demandedSize_todo]
  | mapping name key value => simp [valueChecks, demandedSize_todo]

theorem demandedSize_member_le (strategy : Strategy) (shape : Shape) (site : Site)
    (inside : List Check) :
    demandedSize (strategy.member shape site inside) ≤ demandedSize inside := by
  unfold Strategy.member
  split
  · simp
  · split
    · simp [demandedSize, Check.demandsOf, Check.demands, Demand.shapes, Shape.totalSize]
    · exact Nat.le_of_eq (demandedSize_guarded _ _ _)

mutual

/-- The checks of a shape demand helpers for parts of the shape only. -/
theorem demandedSize_body_lt (normalizer : Normalizer) (isIgnored isTagField : FieldPath → Bool) :
    (shape : Shape) → (site : Site) →
      demandedSize ((strategyWith normalizer isIgnored isTagField).body shape site) < shape.size
  | .scalar name kind, site => by
    simp [Strategy.body, demandedSize, Check.demandsOf, Check.demands, Demand.shapes,
      Shape.totalSize, Shape.size]
  | .struct name members, site => by
    have inner := demandedSize_members_le normalizer isIgnored isTagField members site
    rw [Strategy.body, demandedSize_inNameOrder, Shape.size]
    omega
  | .sequence name element, site => by
    have inner := demandedSize_elementChecks_le site element
      ((strategyWith normalizer isIgnored isTagField).body element)
      (demandedSize_body_lt normalizer isIgnored isTagField element)
    rw [Strategy.body, Shape.size]
    exact Nat.lt_succ_of_le inner
  | .mapping name key value, site => by
    have inner := demandedSize_valueChecks_le site value
      ((strategyWith normalizer isIgnored isTagField).body value)
      (demandedSize_body_lt normalizer isIgnored isTagField value)
    rw [Strategy.body, Shape.size]
    split
    · exact Nat.lt_succ_of_le inner
    · simp [demandedSize, Check.demandsOf, Check.demands, Demand.shapes, Shape.totalSize]

theorem demandedSize_members_le (normalizer : Normalizer)
    (isIgnored isTagField : FieldPath → Bool) :
    (members : List (String × Shape)) → (site : Site) →
      demandedSize
        (((strategyWith normalizer isIgnored isTagField).members members site).flatMap Prod.snd) ≤
          Shape.sizeOfMembers members
  | [], site => by simp [Strategy.members]
  | (name, shape) :: rest, site => by
    have others := demandedSize_members_le normalizer isIgnored isTagField rest site
    have first := demandedSize_body_lt normalizer isIgnored isTagField shape
      (site.member (normalizer name).exported)
    have kept := demandedSize_member_le (strategyWith normalizer isIgnored isTagField) shape
      (site.member (normalizer name).exported)
      ((strategyWith normalizer isIgnored isTagField).body shape
        (site.member (normalizer name).exported))
    have same : (strategyWith normalizer isIgnored isTagField).normalizer = normalizer := rfl
    simp only [Strategy.members, same, List.flatMap_cons, demandedSize_append,
      Shape.sizeOfMembers]
    omega

end

end Reconcile.Equality
