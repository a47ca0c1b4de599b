import Reconcile.Code.Basic
import Reconcile.Tags.Representation

/-!
# Conversion code for tags

Code that converts the tags of a resource into a mapping of texts and back. A list of tags
has an order that the mapping loses, so its keys are recorded on the way in and replayed on
the way out.
-/

namespace Reconcile

namespace TagRepresentation

/-- The code that converts the tags in `source` into `target` and records keys in `order`. -/
def toCanonicalCode (representation : TagRepresentation) (source target order : String) :
    List Code :=
  .block ("if len(" ++ source ++ ") == 0") [.line ("return " ++ target ++ ", " ++ order)] ::
    match representation with
    | .pairs _ key value => [
        .block ("for _, t := range " ++ source) [
          .block ("if t." ++ key ++ " != nil") [
            .line (order ++ " = append(" ++ order ++ ", *t." ++ key ++ ")"),
            .branch ("if t." ++ value ++ " != nil")
              [.line (target ++ "[*t." ++ key ++ "] = *t." ++ value)]
              "else"
              [.line (target ++ "[*t." ++ key ++ "] = \"\"")]]]]
    | .mapping => [
        .block ("for k, v := range " ++ source) [
          .branch "if v == nil" [.line (target ++ "[k] = \"\"")]
            "else" [.line (target ++ "[k] = *v")]]]

/-- The code that converts the mapping in `tags` into `target`, the keys in `order` first. -/
def ofCanonicalCode (representation : TagRepresentation) (tags order target : String) :
    List Code :=
  match representation with
  | .pairs element key value =>
    let tag := "tag := svcapitypes." ++ element.goElementType ++ "\x7b" ++ key ++ ": &k, " ++
      value ++ ": &v\x7d"
    let append := target ++ " = append(" ++ target ++ ", &tag)"
    [
      .block ("for _, k := range " ++ order) [
        .line ("v, ok := " ++ tags ++ "[k]"),
        .block "if ok" [
          .line tag,
          .line append,
          .line ("delete(" ++ tags ++ ", k)")]],
      .block ("for k, v := range " ++ tags) [.line tag, .line append]]
  | .mapping => [
      .line ("_ = " ++ order),
      .block ("for k, v := range " ++ tags) [.line (target ++ "[k] = &v")]]

end TagRepresentation

namespace Tags

/-- The text of code for the representation of a resource's tags; empty if tags are ignored. -/
def renderFor (resource : Resource) (level : Nat) (code : TagRepresentation → List Code) :
    Except TagError String := do
  match ← TagRepresentation.ofResource resource with
  | some representation => return Code.renderBehindBlank (code representation) level
  | none => return ""

/-- The conversion of the tags in `source` into the mapping `target` with the keys in `order`. -/
def toCanonical (resource : Resource) (source target order : String) (level : Nat) :
    Except TagError String :=
  renderFor resource level (·.toCanonicalCode source target order)

/-- The conversion of the mapping `tags` with the keys in `order` into the tags in `target`. -/
def ofCanonical (resource : Resource) (tags order target : String) (level : Nat) :
    Except TagError String :=
  renderFor resource level (·.ofCanonicalCode tags order target)

end Tags

end Reconcile
