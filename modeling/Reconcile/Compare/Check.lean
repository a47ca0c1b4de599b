import Reconcile.Compare.Site
import Reconcile.Resource.Basic

/-!
# Checks

A comparison is planned as a list of checks before it is written. Checks say what is tested
where and inside which guards; what is done about a difference is added when the checks are
turned into code. A plan may also hold what keeps it from being written: a mapping whose keys
are no texts.
-/

namespace Reconcile

/-- A test whether two present values differ. -/
inductive Test where
  /-- Scalars by value, timestamps by calendar equality, blobs by bytes. -/
  | scalar (kind : ScalarKind)
  /-- Whole values. -/
  | whole
  /-- Numbers of elements. -/
  | length
  /-- Sequences of texts. -/
  | textList
  /-- Mappings of texts. -/
  | textMap
  /-- Structures, by the helper function of their shape. -/
  | helper (shape : Shape)
  deriving Inhabited, Repr

/-- The name of the helper function that compares two values of a shape. -/
def Shape.helperName (shape : Shape) : String :=
  "equal" ++ shape.name

/-- The condition that holds if the values at a site differ. -/
def Test.condition (test : Test) (site : Site) : String :=
  let first := site.first.text
  let second := site.second.text
  match test with
  | .scalar .timestamp => "!" ++ first ++ ".Equal(" ++ second ++ ")"
  | .scalar .blob => "!bytes.Equal(" ++ first ++ ", " ++ second ++ ")"
  | .scalar _ => "*" ++ first ++ " != *" ++ second
  | .whole => "!equality.Semantic.Equalities.DeepEqual(" ++ first ++ ", " ++ second ++ ")"
  | .length => "len(" ++ first ++ ") != len(" ++ second ++ ")"
  | .textList => "!ackcompare.SliceStringPEqual(" ++ first ++ ", " ++ second ++ ")"
  | .textMap => "!ackcompare.MapStringStringPEqual(" ++ first ++ ", " ++ second ++ ")"
  | .helper shape => "!" ++ shape.helperName ++ "(" ++ first ++ ", " ++ second ++ ")"

/-- A step of a comparison. -/
inductive Check where
  /-- A difference if one side is absent; `inside` if both are present. -/
  | present (site : Site) (inside : List Check)
  /-- A difference if the test says so. -/
  | unequal (site : Site) (test : Test)
  /-- A difference between tags by their canonical mappings. -/
  | tags (site : Site)
  /-- A difference between numbers of elements; `inside` if there are elements. -/
  | sized (site : Site) (inside : List Check)
  /-- A difference if a key is on the first side only. -/
  | keys (site : Site)
  /-- `inside` for every position `i` of a sequence. -/
  | eachIndex (site : Site) (inside : List Check)
  /-- `inside` for every pair of values `av` and `bv` of a mapping. -/
  | eachEntry (site : Site) (inside : List Check)
  /-- A kind of comparison that cannot be written yet. -/
  | todo (what : String)
  /-- A remark about the checks that follow it one level deeper. -/
  | remark (text : String) (inside : List Check)
  /-- A mapping whose keys are no texts. -/
  | rejected (path : FieldPath) (key : ScalarKind)
  deriving Inhabited, Repr

/-- What checks need from outside of their own code, in the order in which it comes up. -/
inductive Demand where
  /-- A helper function for a shape. -/
  | helper (shape : Shape)
  /-- That keys of another kind than text were supported. -/
  | keyKind (path : FieldPath) (key : ScalarKind)
  deriving Inhabited, Repr

/-- The shapes whose helpers are demanded, in order. -/
def Demand.shapes : List Demand → List Shape
  | [] => []
  | .helper shape :: rest => shape :: shapes rest
  | .keyKind .. :: rest => shapes rest

@[simp]
theorem Demand.shapes_append (left right : List Demand) :
    Demand.shapes (left ++ right) = Demand.shapes left ++ Demand.shapes right := by
  induction left with
  | nil => rfl
  | cons demand rest ih => cases demand <;> simp [Demand.shapes, ih]

namespace Check

mutual

/-- The code of a check; `action` is the statement that runs where a site differs. -/
def code (action : Site → String) : Check → List Code
  | .present site inside => [
      .branch
        ("if ackcompare.HasNilDifference(" ++ site.first.text ++ ", " ++ site.second.text ++ ")")
        [.line (action site)]
        ("else if " ++ site.first.isPresent ++ " && " ++ site.second.isPresent)
        (codeOf action inside)]
  | .unequal site test => [.block ("if " ++ test.condition site) [.line (action site)]]
  | .tags site => [
      .line ("desiredACKTags, _ := convertToOrderedACKTags(" ++ site.first.text ++ ")"),
      .line ("latestACKTags, _ := convertToOrderedACKTags(" ++ site.second.text ++ ")"),
      .block "if !ackcompare.MapStringStringEqual(desiredACKTags, latestACKTags)"
        [.line (action site)]]
  | .sized site inside => [
      .branch ("if " ++ Test.length.condition site) [.line (action site)]
        ("else if len(" ++ site.first.text ++ ") > 0") (codeOf action inside)]
  | .keys site => [
      .block ("for k := range " ++ site.first.text) [
        .block ("if _, ok := " ++ site.second.text ++ "[k]; !ok") [.line (action site)]]]
  | .eachIndex site inside => [
      .block ("for i := range " ++ site.first.text) (codeOf action inside)]
  | .eachEntry site inside => [
      .block ("for k, av := range " ++ site.first.text)
        (.line ("bv := " ++ site.second.text ++ "[k]") :: codeOf action inside)]
  | .todo what => [.line ("// TODO: " ++ what ++ " is not yet implemented")]
  | .remark text inside => [.titled text (codeOf action inside)]
  | .rejected _ _ => []

/-- The code of checks one after the other. -/
def codeOf (action : Site → String) : List Check → List Code
  | [] => []
  | check :: rest => check.code action ++ codeOf action rest

end

mutual

/-- What a check needs from outside. -/
def demands : Check → List Demand
  | .present _ inside => demandsOf inside
  | .unequal _ (.helper shape) => [.helper shape]
  | .sized _ inside => demandsOf inside
  | .eachIndex _ inside => demandsOf inside
  | .eachEntry _ inside => demandsOf inside
  | .remark _ inside => demandsOf inside
  | .rejected path key => [.keyKind path key]
  | _ => []

/-- What checks need from outside, in order. -/
def demandsOf : List Check → List Demand
  | [] => []
  | check :: rest => check.demands ++ demandsOf rest

end

theorem demandsOf_append (left right : List Check) :
    demandsOf (left ++ right) = demandsOf left ++ demandsOf right := by
  induction left with
  | nil => simp [demandsOf]
  | cons check rest ih => simp [demandsOf, ih]

theorem demandsOf_flatMap {α : Type} (items : List α) (checks : α → List Check) :
    demandsOf (items.flatMap checks) = items.flatMap (fun item => demandsOf (checks item)) := by
  induction items with
  | nil => simp [demandsOf]
  | cons item rest ih => simp [demandsOf_append, ih]

theorem codeOf_append (action : Site → String) (left right : List Check) :
    codeOf action (left ++ right) = codeOf action left ++ codeOf action right := by
  induction left with
  | nil => simp [codeOf]
  | cons check rest ih => simp [codeOf, ih]

/-- Checks for a value that may be absent, if its shape allows that. -/
def guarded (shape : Shape) (site : Site) (inside : List Check) : List Check :=
  if shape.isNullable then [.present site inside] else inside

end Check

/-- What keeps a comparison from being written. -/
inductive CompareError where
  /-- A mapping has keys of another kind than text. -/
  | unsupportedKey (path : FieldPath) (key : ScalarKind)
  /-- The tag field cannot be found. -/
  | tagField (error : Resource.Error)
  deriving DecidableEq, Repr

/-- The wording of an error. -/
def CompareError.message : CompareError → String
  | .unsupportedKey path key =>
    "unsupported key type " ++ key.name ++ " for map field " ++ Text.quoted path.text ++
      ", only string keys are supported"
  | .tagField _ => "failed to look up the tag field"

/-- The first demand that cannot be met. -/
def Demand.unmet? : List Demand → Option CompareError
  | [] => none
  | .helper _ :: rest => unmet? rest
  | .keyKind path key :: _ => some (.unsupportedKey path key)

/-- The code of checks at a level, unless they demand what cannot be met. -/
def Check.emit (action : Site → String) (checks : List Check) :
    Except CompareError (List Code) :=
  match Demand.unmet? (demandsOf checks) with
  | some error => .error error
  | none => .ok (codeOf action checks)

end Reconcile
