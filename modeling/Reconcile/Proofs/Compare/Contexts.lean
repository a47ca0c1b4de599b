import Reconcile.Proofs.Code.Nesting
import Reconcile.Proofs.Compare.Emission

/-!
# Contexts of checks

A context is a plan with a hole in it. Whatever fills the hole is one piece of the plan: its lines,
its demands and its sites stand together, and those around them do not depend on it
(`Check.Context.exists_lines_fill`).
-/

namespace Reconcile

theorem Demand.unmet?_append_eq_none {left right : List Demand} :
    unmet? (left ++ right) = none ↔ unmet? left = none ∧ unmet? right = none := by
  induction left with
  | nil => simp [unmet?]
  | cons demand rest ih =>
      cases demand with
      | helper shape => simpa [unmet?] using ih
      | keyKind path key => simp [unmet?]

namespace Check

theorem sitesOf_append (left right : List Check) :
    sitesOf (left ++ right) = sitesOf left ++ sitesOf right := by
  induction left with
  | nil => simp [sitesOf]
  | cons check rest ih => simp [sitesOf, ih]

/-- The lines of a guard before those of what it guards. -/
def guardLines (action : Site → String) (site : Site) (level : Nat) : List Line := [
  ⟨level, "if ackcompare.HasNilDifference(" ++ site.first.text ++ ", " ++ site.second.text ++ ")" ++
    " \x7b"⟩,
  ⟨level + 1, action site⟩,
  ⟨level, site.presentHeader⟩]

theorem linesOf_present (action : Site → String) (site : Site) (inside : List Check) (level : Nat) :
    Code.linesOf (codeOf action [.present site inside]) level =
      guardLines action site level ++
        (Code.linesOf (codeOf action inside) (level + 1) ++ [⟨level, "\x7d"⟩]) := by
  simp only [codeOf, code, Code.linesOf, Code.lines, List.append_nil, List.cons_append,
    List.nil_append]
  rfl

/-- A plan with a hole. -/
inductive Context where
  | hole
  /-- Other checks before and behind. -/
  | beside (left : List Check) (context : Context) (right : List Check)
  /-- The guard of a value around. -/
  | inside (site : Site) (context : Context)

namespace Context

/-- The plan with checks in the hole. -/
def fill : Context → List Check → List Check
  | hole, checks => checks
  | beside left context right, checks => left ++ context.fill checks ++ right
  | inside site context, checks => [.present site (context.fill checks)]

/-- A context with the guard of a value around it, if the shape of the value has one. -/
def guarded (shape : Shape) (site : Site) (context : Context) : Context :=
  if shape.isNullable then inside site context else context

theorem fill_guarded (shape : Shape) (site : Site) (context : Context) (checks : List Check) :
    (context.guarded shape site).fill checks = Check.guarded shape site (context.fill checks) := by
  unfold guarded Check.guarded
  split <;> rfl

/-- What fills the hole of a plan is written in one piece. -/
theorem exists_lines_fill (action : Site → String) (context : Context) (level : Nat) :
    ∃ before after deeper, ∀ checks,
      Code.linesOf (codeOf action (context.fill checks)) level =
        before ++ Code.linesOf (codeOf action checks) deeper ++ after := by
  induction context generalizing level with
  | hole => exact ⟨[], [], level, by simp [fill]⟩
  | beside left context right ih =>
      rcases ih level with ⟨before, after, deeper, lines⟩
      refine ⟨Code.linesOf (codeOf action left) level ++ before,
        after ++ Code.linesOf (codeOf action right) level, deeper, ?_⟩
      intro checks
      simp only [fill, codeOf_append, Code.linesOf_append, lines, List.append_assoc]
  | inside site context ih =>
      rcases ih (level + 1) with ⟨before, after, deeper, lines⟩
      refine ⟨guardLines action site level ++ before, after ++ [⟨level, "\x7d"⟩], deeper, ?_⟩
      intro checks
      simp only [fill, linesOf_present, lines, List.append_assoc]

theorem exists_demandsOf_fill (context : Context) :
    ∃ before after, ∀ checks,
      demandsOf (context.fill checks) = before ++ demandsOf checks ++ after := by
  induction context with
  | hole => exact ⟨[], [], by simp [fill]⟩
  | beside left context right ih =>
      rcases ih with ⟨before, after, demanded⟩
      refine ⟨demandsOf left ++ before, after ++ demandsOf right, ?_⟩
      simp [fill, demandsOf_append, demanded]
  | inside site context ih =>
      rcases ih with ⟨before, after, demanded⟩
      exact ⟨before, after, by simp [fill, demandsOf, demands, demanded]⟩

theorem exists_sitesOf_fill (context : Context) :
    ∃ before after, ∀ checks,
      sitesOf (context.fill checks) = before ++ sitesOf checks ++ after := by
  induction context with
  | hole => exact ⟨[], [], by simp [fill]⟩
  | beside left context right ih =>
      rcases ih with ⟨before, after, visited⟩
      refine ⟨sitesOf left ++ before, after ++ sitesOf right, ?_⟩
      simp [fill, sitesOf_append, visited]
  | inside site context ih =>
      rcases ih with ⟨before, after, visited⟩
      exact ⟨site :: before, after, by simp [fill, sitesOf, sites, visited]⟩

/-- A plan that can be written can be written with nothing in the hole. -/
theorem unmet?_fill_nil {context : Context} {checks : List Check}
    (met : Demand.unmet? (demandsOf (context.fill checks)) = none) :
    Demand.unmet? (demandsOf (context.fill [])) = none := by
  rcases context.exists_demandsOf_fill with ⟨before, after, demanded⟩
  simp only [demanded, Demand.unmet?_append_eq_none] at met ⊢
  exact ⟨⟨met.1.1, rfl⟩, met.2⟩

theorem areUntitled_of_fill {action : Site → String} {context : Context} {checks : List Check}
    (untitled : Code.AreUntitled (codeOf action (context.fill checks))) :
    Code.AreUntitled (codeOf action checks) := by
  induction context with
  | hole => exact untitled
  | beside left context right ih =>
      rw [fill, codeOf_append, codeOf_append, Code.areUntitled_append,
        Code.areUntitled_append] at untitled
      exact ih untitled.1.2
  | inside site context ih => exact ih untitled.1.2

end Context

end Check

end Reconcile
