import Reconcile.Code.Access
import Reconcile.FieldPath

/-!
# Sites of comparison

A comparison looks at the same value in two instances of a resource. A site is such a place:
the location of the value and the expressions that reach it on both sides.
-/

namespace Reconcile

/-- A value in two instances. -/
structure Site where
  /-- The location below desired state. Elements and values keep that of their collection. -/
  path : FieldPath
  first : Access
  second : Access
  deriving DecidableEq, Inhabited, Repr

namespace Site

/-- The site of a member. -/
def member (site : Site) (name : String) : Site :=
  ⟨site.path.child name, site.first.member name, site.second.member name⟩

/-- The site of an element, under the same position on both sides. -/
def index (site : Site) (position : String) : Site :=
  ⟨site.path, site.first.index position, site.second.index position⟩

/-- The site of a value that is held by two variables. -/
def held (site : Site) (first second : String) : Site :=
  ⟨site.path, .root first, .root second⟩

end Site

end Reconcile
