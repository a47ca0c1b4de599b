import Reconcile.References.Basic

/-!
# Code for references

Four pieces of code: the check that a field and its reference field agree with each other,
the question whether any reference is set, the resolution of all references into their
fields, and the clearing of resolved fields.
-/

namespace Reconcile.References

/-- The checks that not both fields are set, and that one is set if that is required. -/
def validationCode (object : String) (reference : Reference) : List Code :=
  let (openings, parent) := reference.opened object false
  let field := reference.field.names.exported
  let own := parent.member field
  let other := parent.member reference.name
  let conflict := Code.block ("if " ++ other.isPresent ++ " && " ++ own.isPresent) [
    .line ("return ackerr.ResourceReferenceAndIDNotSupportedFor(\"" ++ reference.field.path.text ++
      "\", \"" ++ reference.path.text ++ "\")")]
  let lack := Code.block ("if " ++ other.isAbsent ++ " && " ++ own.isAbsent) [
    .line ("return ackerr.ResourceReferenceOrIDRequiredFor(\"" ++ field ++ "\", \"" ++
      reference.name ++ "\")")]
  Reference.inside openings (if reference.field.isRequired then [conflict, lack] else [conflict])

/-- The code that checks all references of a resource. -/
def validate (resource : Resource) (object : String) (level : Nat) :
    Except ReferenceError String := do
  let references ← Reference.all resource
  return Code.render (references.flatMap (validationCode object)) level

/-- The loops that return true if a reference inside sequences is set. -/
def presenceCode (object : String) (reference : Reference) : List Code :=
  let (openings, parent) := reference.opened object false
  Reference.inside openings [(parent.member reference.name).ifPresent [.line "return true"]]

/-- The condition that a reference outside of sequences is set. -/
def presenceTerm (object : String) (reference : Reference) : String :=
  " || (" ++ Access.presenceChain (Reference.desired object) reference.path.segments ++ ")"

/-- The code that returns whether any reference of a resource is set. -/
def present (resource : Resource) (object : String) (level : Nat) :
    Except ReferenceError String := do
  let references ← Reference.all resource
  let (inLists, outside) := references.partition (fun reference => 0 < reference.listDepth)
  let statement := "return false" ++ String.join (outside.map (presenceTerm object))
  return Code.render (inLists.flatMap (presenceCode object) ++ [.line statement]) level

/-- The assignment of the value at an expression to the field. Lists take it at their end. -/
def assignment (object : String) (reference : Reference) (value : Access) : List Code :=
  let target := reference.concrete object
  match reference.field.shape with
  | .sequence _ element => [
      target.ifAbsent (target.text ++ " = make([]" ++ element.goType ++ ", 0, 1)"),
      .line (target.text ++ " = append(" ++ target.text ++ ", (" ++ element.goType ++ ")(" ++
        value.text ++ "))")]
  | shape => [.line (target.text ++ " = (" ++ shape.goType ++ ")(" ++ value.text ++ ")")]

/-- The resolution of one set reference, given the condition that its value is absent. -/
def resolutionBody (object : String) (reference : Reference) (access : Access)
    (valueAbsent : String) : List Code :=
  let settings := reference.settings
  let path := reference.path.text
  let state := if settings.skipStateCheck then [] else [
    .block "if !ackcondition.IsSynced(obj)" [
      .line ("ackrtlog.FromContext(ctx).Debug(\"referenced resource is not synced\", " ++
        "\"reference\", \"" ++ path ++ "\")")]]
  [
    .line "hasReferences = true",
    .line ("arr := " ++ (access.member "From").text),
    .block "if arr.Name == nil || *arr.Name == \"\"" [
      .line ("return hasReferences, fmt.Errorf(\"provided resource reference is nil or empty: " ++
        path ++ "\")")],
    .line ("obj := &" ++ settings.package ++ "." ++ settings.resource ++ "\x7b\x7d"),
    .block ("if err := getReferencedResourceState_" ++ settings.resource ++
        "(ctx, apiReader, obj, *arr.Name, namespace); err != nil")
      [.line "return hasReferences, err"]] ++
  state ++ [
    .block ("if " ++ valueAbsent) [
      .line ("return hasReferences, ackerr.ResourceReferenceMissingTargetFieldFor(\"" ++
        settings.resource ++ "\", namespace, *arr.Name, \"" ++ settings.path ++ "\")")]] ++
  assignment object reference (.member (.root "obj") settings.path)

/-- The code that resolves a reference. Lists of references are gone through in their order. -/
def resolutionCode (object : String) (reference : Reference) :
    Except ReferenceError (List Code) := do
  let valueAbsent ← reference.settings.absenceCheck "obj"
  let (openings, parent) := reference.opened object true
  let own := parent.member reference.name
  let iterator := Reference.iterator reference.listDepth
  let (openings, access) :=
    if reference.isList then (openings ++ [.each "_" iterator own], .root iterator)
    else (openings, own)
  let from' := access.member "From"
  return Reference.inside openings [
    .block ("if " ++ access.isPresent ++ " && " ++ from'.isPresent)
      (resolutionBody object reference access valueAbsent)]

/-- The code that resolves all references of a resource. -/
def resolve (resource : Resource) (object : String) (level : Nat) :
    Except ReferenceError String := do
  let references ← Reference.all resource
  let codes ← references.mapM (resolutionCode object)
  return Code.render codes.flatten level

/-- The code that empties a field whose reference is set. -/
def clearanceCode (object : String) (reference : Reference) : List Code :=
  let (openings, parent) := reference.opened object true
  let own := parent.member reference.name
  let reset := Code.line ((reference.concrete object).text ++ " = nil")
  let guarded :=
    if reference.isList then Code.block ("if len(" ++ own.text ++ ") > 0") [reset]
    else own.ifPresent [reset]
  Reference.inside openings [guarded]

/-- The code that empties all fields of a resource whose references are set. -/
def clear (resource : Resource) (object : String) (level : Nat) :
    Except ReferenceError String := do
  let references ← Reference.all resource
  return Code.render (references.flatMap (clearanceCode object)) level

end Reconcile.References
