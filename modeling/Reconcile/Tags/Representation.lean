import Reconcile.Resource.Basic

/-!
# Representations of tags

A resource holds its tags as a list of structures with a key and a value each, or as a
mapping of texts.
-/

namespace Reconcile

/-- What keeps the conversion of tags from being written. -/
inductive TagError where
  /-- The tag field cannot be found. -/
  | tagField (error : Resource.Error)
  /-- There is no tag field. -/
  | missing (resource : String)
  /-- The tag field represents no tags. -/
  | unsupportedShape (path shape key value : String)
  deriving DecidableEq, Repr

/-- The wording of an error. -/
def TagError.message : TagError → String
  | .tagField _ => "failed to look up the tag field"
  | .missing resource =>
    "resource " ++ Text.quoted resource ++
      " does not have a tag field, set tags.ignore to skip tag handling"
  | .unsupportedShape path shape key value =>
    "tag field " ++ Text.quoted path ++ " must be a list of structures with " ++
      Text.quoted key ++ " and " ++ Text.quoted value ++
      " members or a map of strings, got " ++ shape

/-- How a resource holds its tags. -/
inductive TagRepresentation where
  /-- A list of structures with a member for the key and a member for the value. -/
  | pairs (element : Shape) (key value : String)
  /-- A mapping of texts. -/
  | mapping
  deriving Inhabited, Repr

namespace TagRepresentation

/-- The representation that a shape allows, given the names of the two members. -/
def ofShape? (shape : Shape) (keyName valueName : String) : Option TagRepresentation :=
  match shape with
  | .sequence _ element => do
    let (key, _) ← element.member? keyName
    let (value, _) ← element.member? valueName
    return .pairs element key value
  | .mapping _ .string (.scalar _ .string) => some .mapping
  | _ => none

/-- The representation of the tags of a resource; none if its tags are ignored. -/
def ofResource (resource : Resource) : Except TagError (Option TagRepresentation) :=
  let tags := resource.settings.tags
  if tags.ignore then .ok none
  else
    match resource.tagField with
    | .error error => .error (.tagField error)
    | .ok none => .error (.missing resource.names.wire)
    | .ok (some field) =>
      match ofShape? field.shape tags.keyName tags.valueName with
      | some representation => .ok (some representation)
      | none =>
        .error (.unsupportedShape field.path.text field.shape.name tags.keyName tags.valueName)

end TagRepresentation

end Reconcile
