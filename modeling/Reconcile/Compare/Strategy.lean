import Reconcile.Compare.Check
import Reconcile.Text.Order

/-!
# Strategies of comparison

All comparisons walk a shape in the same way: scalars are tested, structures are taken apart
member by member in the order of the schema names, ignored members are left out and tags are
compared by their canonical mappings. A strategy says how collections are compared and which
members are special.
-/

namespace Reconcile

/-- What a comparison decides for itself. -/
structure Strategy where
  normalizer : Normalizer
  /-- Whether the member at a path is left out. -/
  isIgnored : FieldPath → Bool
  /-- Whether the member at a path holds the tags. -/
  isTagField : FieldPath → Bool
  /-- The checks of a sequence, given its element and the checks of an element at a site. -/
  sequence : Site → Shape → (Site → List Check) → List Check
  /-- The checks of a mapping, given its value and the checks of a value at a site. -/
  mapping : Site → Shape → (Site → List Check) → List Check

namespace Strategy

/-- The checks of a member, given the checks of its value once it is present. -/
def member (strategy : Strategy) (shape : Shape) (site : Site) (inside : List Check) :
    List Check :=
  if strategy.isIgnored site.path then []
  else if strategy.isTagField site.path then [.tags site]
  else Check.guarded shape site inside

/-- Checks under schema names, put in the order of the names. -/
def inNameOrder (checks : List (String × List Check)) : List Check :=
  (Text.sortedBy Prod.fst checks).flatMap Prod.snd

mutual

/-- The checks of a value that is present on both sides. -/
def body (strategy : Strategy) : Shape → Site → List Check
  | .scalar _ kind, site => [.unequal site (.scalar kind)]
  | .struct _ members, site => inNameOrder (strategy.members members site)
  | .sequence _ element, site => strategy.sequence site element (strategy.body element)
  | .mapping _ key value, site =>
    if key = .string then strategy.mapping site value (strategy.body value)
    else [.rejected site.path key]

/-- The checks of members under their schema names. -/
def members (strategy : Strategy) : List (String × Shape) → Site → List (String × List Check)
  | [], _ => []
  | (name, shape) :: rest, site =>
    let inner := site.member (strategy.normalizer name).exported
    (name, strategy.member shape inner (strategy.body shape inner)) ::
      strategy.members rest site

end

/-- The checks of an outermost field. A reference field is compared as a whole. -/
def outermost (strategy : Strategy) (field : Field) (site : Site) : List Check :=
  if field.isReference && !strategy.isIgnored site.path then [.unequal site .whole]
  else strategy.member field.shape site (strategy.body field.shape site)

/-- The checks of the desired state of a resource, in the order of exported names. -/
def resource (strategy : Strategy) (resource : Resource) (first second : String) : List Check :=
  let root := FieldRoot.spec.name
  resource.topLevelFields.flatMap (fun field =>
    strategy.outermost field {
      path := field.path
      first := .member (.member (.root first) root) field.names.exported
      second := .member (.member (.root second) root) field.names.exported
    })

end Strategy

end Reconcile
