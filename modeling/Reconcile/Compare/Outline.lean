import Reconcile.Compare.Strategy

/-!
# Outlines

An outline shows how a comparison walks a shape: collections are announced by a remark and
then entered, and a difference is reported by the path of its site.
-/

namespace Reconcile.Outline

/-- What an outline is made with. -/
structure Options where
  normalizer : Normalizer
  /-- The texts of the paths to leave out. -/
  ignored : List String
  /-- The text of the path of the tags. -/
  tags : Option String

/-- The statement that reports a difference. -/
def action (site : Site) : String :=
  "diff " ++ site.path.text

/-- The strategy that announces collections and enters them. -/
def strategy (options : Options) : Strategy where
  normalizer := options.normalizer
  isIgnored path := options.ignored.contains path.text
  isTagField path := options.tags == some path.text
  sequence site element elementChecks :=
    [.remark ("sequence " ++ site.path.text ++ " of " ++ element.name)
      (elementChecks (site.index "i"))]
  mapping site value valueChecks :=
    let inner := site.index "k"
    [.remark ("mapping " ++ site.path.text ++ " of " ++ value.name)
      (Check.guarded value inner (valueChecks inner))]

/-- The outline of a present value of a shape. -/
def ofShape (options : Options) (shape : Shape) (site : Site) (level : Nat) :
    Except CompareError String := do
  let codes ← Check.emit action ((strategy options).body shape site)
  return Code.render codes level

end Reconcile.Outline
