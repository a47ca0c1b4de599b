import Reconcile.Proofs.References.Collecting

/-!
# Where references are resolved to

Resolution and clearing go through the sequences around a field with loops, look at the reference
field of the element that they have reached, and write to the field through positions. The loops
and the positions come from two walks over the same parents. Both walks take the same steps, so
that replacing every loop variable by the element it stands for turns one expression into the other
(`Reference.expand_openings`), and the field belongs to the value that was looked at
(`Reference.value_expand`). The parents are the fields under the leading parts of the path of the
field (`Reference.IsContained`), and there is one opening for each of them (`Reference.Descends`,
`References.same_targets`).
-/

namespace Reconcile

namespace Access

/-- The expression with another one in the place of a name. -/
def replace (access : Access) (name : String) (other : Access) : Access :=
  match access with
  | .root text => if text = name then other else .root text
  | .member of selected => .member (of.replace name other) selected
  | .index of position => .index (of.replace name other) position

@[simp]
theorem replace_root (name : String) (other : Access) : (root name).replace name other = other :=
  if_pos rfl

@[simp]
theorem replace_member (name : String) (other of : Access) (selected : String) :
    (of.member selected).replace name other = (of.replace name other).member selected := rfl

@[simp]
theorem replace_index (name : String) (other of : Access) (position : String) :
    (of.index position).replace name other = (of.replace name other).index position := rfl

/-- What expressions stand for: values of names, members of values and elements of values. -/
structure Meaning (Value : Type) where
  root : String → Option Value
  member : Value → String → Option Value
  element : Value → String → Option Value

namespace Meaning

variable {Value : Type}

/-- The value of an expression. -/
def value (meaning : Meaning Value) : Access → Option Value
  | .root text => meaning.root text
  | .member of name => (meaning.value of).bind (meaning.member · name)
  | .index of position => (meaning.value of).bind (meaning.element · position)

theorem value_replace {meaning : Meaning Value} {name : String} {other : Access}
    (same : meaning.value (.root name) = meaning.value other) (access : Access) :
    meaning.value (access.replace name other) = meaning.value access := by
  induction access with
  | root text =>
      by_cases isName : text = name
      · subst isName
        rw [replace_root, same]
      · rw [replace, if_neg isName]
  | member of selected ih => rw [replace_member, value, ih, value]
  | index of position ih => rw [replace_index, value, ih, value]

end Meaning

end Access

namespace Opening

/-- The expression with a loop variable replaced by the element of the sequence at the position. -/
def expand : Opening → Access → Access
  | .present _, access => access
  | .each index iterator range, access => access.replace iterator (range.index index)

/-- The variables of a loop: the position and the element. -/
def loop? : Opening → Option (String × String)
  | .present _ => none
  | .each index iterator _ => some (index, iterator)

end Opening

namespace Reference

/-- The expression that reaches what is inside openings, starting from an expression. -/
def reached (start : Access) : List Opening → Access
  | [] => start
  | .present access :: rest => reached access rest
  | .each _ iterator _ :: rest => reached (.root iterator) rest

/-- The expression with all loop variables replaced, those of the innermost loop first. -/
def expand (openings : List Opening) (access : Access) : Access :=
  openings.foldr Opening.expand access

/-- Whether the variable of each loop stands for the element at the position. -/
def Steps {Value : Type} (meaning : Access.Meaning Value) (openings : List Opening) : Prop :=
  ∀ index iterator range, Opening.each index iterator range ∈ openings →
    meaning.value (.root iterator) = meaning.value (range.index index)

theorem value_expand {Value : Type} {meaning : Access.Meaning Value} {openings : List Opening}
    (steps : Steps meaning openings) (access : Access) :
    meaning.value (expand openings access) = meaning.value access := by
  induction openings with
  | nil => rfl
  | cons opening rest ih =>
      have inner := ih (fun index iterator range inRest =>
        steps index iterator range (List.mem_cons_of_mem _ inRest))
      cases opening with
      | present _ => exact inner
      | each index iterator range =>
          have same := steps index iterator range List.mem_cons_self
          rw [← inner]
          exact Access.Meaning.value_replace same _

@[simp]
theorem expand_cons (opening : Opening) (rest : List Opening) (access : Access) :
    expand (opening :: rest) access = opening.expand (expand rest access) := rfl

theorem expand_member (openings : List Opening) (access : Access) (name : String) :
    expand openings (access.member name) = (expand openings access).member name := by
  induction openings with
  | nil => rfl
  | cons opening rest ih =>
      rw [expand_cons, ih, expand_cons]
      cases opening <;> rfl

/-- Replacing the start of an expression with positions replaces nothing else in it. -/
theorem replace_indexedAccess (name : String) (other start : Access) (depth : Nat)
    (parents : List Field) :
    (indexedAccess start depth parents).replace name other =
      indexedAccess (start.replace name other) depth parents := by
  induction parents generalizing start depth with
  | nil => rfl
  | cons parent rest ih =>
      simp only [indexedAccess]
      split
      · rw [ih, Access.replace_index, Access.replace_member]
      · rw [ih, Access.replace_member]

variable {indexed : Bool}

theorem openings_cons_sequence {parent : Field} (isSequence : parent.shape.isSequence = true)
    (start : Access) (depth : Nat) (rest : List Field) :
    let inner := openings indexed (.root (iterator depth)) (depth + 1) rest
    openings indexed start depth (parent :: rest) =
      (.each (if indexed then position depth else "_") (iterator depth)
        (start.member parent.names.exported) :: inner.1, inner.2) := by
  simp only [openings, isSequence, if_true]

theorem openings_cons_structure {parent : Field} (isStructure : parent.shape.isSequence = false)
    (start : Access) (depth : Nat) (rest : List Field) :
    let access := start.member parent.names.exported
    openings indexed start depth (parent :: rest) =
      (.present access :: (openings indexed access depth rest).1,
        (openings indexed access depth rest).2) := by
  simp only [openings, isStructure, Bool.false_eq_true, if_false]

theorem openings_snd (start : Access) (depth : Nat) (parents : List Field) :
    (openings true start depth parents).2 =
      reached start (openings true start depth parents).1 := by
  induction parents generalizing start depth with
  | nil => rfl
  | cons parent rest ih =>
      cases isSequence : parent.shape.isSequence with
      | true =>
          rw [openings_cons_sequence isSequence]
          exact ih (.root (iterator depth)) (depth + 1)
      | false =>
          rw [openings_cons_structure isSequence]
          exact ih (start.member parent.names.exported) depth

/-- Replacing the loop variables leads to the expression through positions. -/
theorem expand_openings (start : Access) (depth : Nat) (parents : List Field) :
    expand (openings true start depth parents).1 (openings true start depth parents).2 =
      indexedAccess start depth parents := by
  induction parents generalizing start depth with
  | nil => rfl
  | cons parent rest ih =>
      cases isSequence : parent.shape.isSequence with
      | true =>
          -- The variable of this loop is replaced last: only the start of the inner walk has it.
          have inner := ih (.root (iterator depth)) (depth + 1)
          rw [openings_cons_sequence isSequence, indexedAccess, if_pos isSequence, expand_cons,
            inner, Opening.expand, replace_indexedAccess, Access.replace_root, if_pos rfl]
      | false =>
          rw [openings_cons_structure isSequence, indexedAccess, isSequence,
            if_neg Bool.false_ne_true, expand_cons]
          exact ih (start.member parent.names.exported) depth

example : (expand [
      .each "f0idx" "f0iter" (.member (.root "ko") "Routes"),
      .present (.member (.root "f0iter") "Target"),
      .each "f1idx" "f1iter" (.member (.member (.root "f0iter") "Target") "Peers")]
    (.member (.root "f1iter") "VPCID")).text = "ko.Routes[f0idx].Target.Peers[f1idx].VPCID" := by
  decide

/-- The loops are numbered from the outermost to the innermost. -/
theorem loops_openings (start : Access) (depth : Nat) (parents : List Field) :
    (openings true start depth parents).1.filterMap Opening.loop? =
      (List.range' depth (parents.filter (fun parent => parent.shape.isSequence)).length).map
        (fun depth => (position depth, iterator depth)) := by
  induction parents generalizing start depth with
  | nil => rfl
  | cons parent rest ih =>
      cases isSequence : parent.shape.isSequence with
      | true =>
          rw [openings_cons_sequence isSequence, List.filter_cons_of_pos (by exact isSequence),
            List.length_cons, List.range'_succ, List.map_cons,
            ← ih (.root (iterator depth)) (depth + 1)]
          rfl
      | false =>
          rw [openings_cons_structure isSequence, List.filter_cons_of_neg (by simp [isSequence])]
          exact ih (start.member parent.names.exported) depth

/--
Whether openings lead from an expression into fields, one after the other: past the check that a
structure is present, or to an element of a sequence by its loop variable.
-/
inductive Descends : Access → List Field → List Opening → Prop
  | here (start : Access) : Descends start [] []
  | present {start : Access} {parent : Field} {rest : List Field} {inside : List Opening}
      (isStructure : parent.shape.isSequence = false)
      (inner : Descends (start.member parent.names.exported) rest inside) :
      Descends start (parent :: rest) (.present (start.member parent.names.exported) :: inside)
  | each {start : Access} {parent : Field} {rest : List Field} {inside : List Opening}
      {index iterator : String} (isSequence : parent.shape.isSequence = true)
      (inner : Descends (.root iterator) rest inside) :
      Descends start (parent :: rest)
        (.each index iterator (start.member parent.names.exported) :: inside)

theorem descends_openings (start : Access) (depth : Nat) (parents : List Field) :
    Descends start parents (openings indexed start depth parents).1 := by
  induction parents generalizing start depth with
  | nil => exact .here start
  | cons parent rest ih =>
      cases isSequence : parent.shape.isSequence with
      | true =>
          rw [openings_cons_sequence isSequence]
          exact .each isSequence (ih (.root (iterator depth)) (depth + 1))
      | false =>
          rw [openings_cons_structure isSequence]
          exact .present isSequence (ih (start.member parent.names.exported) depth)

/-- The value that a reference is resolved to. -/
def source (reference : Reference) : String :=
  "obj." ++ reference.settings.path

/-- The header of a block for a reference that is set. -/
def setHeader (access : Access) : String :=
  "if " ++ access.isPresent ++ " && " ++ (access.member "From").isPresent

/-- Code that looks at a reference field at one expression and assigns to another one. -/
inductive Resolves (reference : Reference) (inspected target : Access) : List Code → Prop
  | single (front : List Code) (isSingle : reference.isList = false) :
      Resolves reference inspected target [
        .block (setHeader inspected)
          (front ++ [.line (target.text ++ " = (" ++ reference.field.shape.goType ++ ")(" ++
            reference.source ++ ")")])]
  | list (front : List Code) {name each : String} {element : Shape}
      (isList : reference.field.shape = .sequence name element)
      (isEach : each = iterator reference.listDepth) :
      Resolves reference inspected target [
        .block ("for _, " ++ each ++ " := range " ++ inspected.text) [
          .block (setHeader (.root each))
            (front ++ [
              target.ifAbsent (target.text ++ " = make([]" ++ element.goType ++ ", 0, 1)"),
              .line (target.text ++ " = append(" ++ target.text ++ ", (" ++ element.goType ++
                ")(" ++ reference.source ++ "))")])]]

/-- Code that looks at a reference field at one expression and empties another one. -/
inductive Clears (reference : Reference) (inspected target : Access) : List Code → Prop
  | single (isSingle : reference.isList = false) :
      Clears reference inspected target [
        inspected.ifPresent [.line (target.text ++ " = nil")]]
  | list (isList : reference.isList = true) :
      Clears reference inspected target [
        .block ("if len(" ++ inspected.text ++ ") > 0") [.line (target.text ++ " = nil")]]

/--
Whether two pieces of code look at the reference field of what the same blocks lead to, and write
to the field of the same value, which they reach through positions. The blocks lead into the
parents, from the outermost to the innermost.
-/
structure SameTarget (object : String) (reference : Reference) (openings : List Opening)
    (target : Access) (resolution clearance : List Code) : Prop where
  named : reference.field.reference.map Names.exported = some reference.name
  descends : Descends (desired object) reference.parents openings
  numbered : openings.filterMap Opening.loop? =
    (List.range reference.listDepth).map (fun depth => (position depth, iterator depth))
  expanded : target =
    expand openings ((reached (desired object) openings).member reference.field.names.exported)
  same : ∀ {Value : Type} (meaning : Access.Meaning Value), Steps meaning openings →
    meaning.value target =
      meaning.value ((reached (desired object) openings).member reference.field.names.exported)
  resolves : ∃ code, resolution = inside openings code ∧
    Resolves reference ((reached (desired object) openings).member reference.name) target code
  clears : ∃ code, clearance = inside openings code ∧
    Clears reference ((reached (desired object) openings).member reference.name) target code

variable {reference : Reference} {object : String}

theorem reached_opened : (reference.opened object true).2 =
    reached (desired object) (reference.opened object true).1 :=
  openings_snd (desired object) 0 reference.parents

theorem concrete_eq_expand : reference.concrete object =
    expand (reference.opened object true).1
      ((reached (desired object) (reference.opened object true).1).member
        reference.field.names.exported) := by
  rw [expand_member, ← reached_opened, opened, expand_openings, concrete]

theorem loops_opened : (reference.opened object true).1.filterMap Opening.loop? =
    (List.range reference.listDepth).map (fun depth => (position depth, iterator depth)) := by
  rw [opened, loops_openings, List.range_eq_range', listDepth]

theorem inside_append_singleton (openings : List Opening) (last : Opening) (body : List Code) :
    inside (openings ++ [last]) body = inside openings [.block last.header body] := by
  rw [inside, List.map_append, Code.nest, List.foldr_append, inside]
  rfl

end Reference

namespace References

open Reference

variable {reference : Reference} {object : String}

theorem clears_clearanceCode : ∃ code,
    clearanceCode object reference = inside (reference.opened object true).1 code ∧
      Clears reference (((reference.opened object true).2).member reference.name)
        (reference.concrete object) code := by
  refine ⟨_, rfl, ?_⟩
  cases isList : reference.isList with
  | true => exact .list isList
  | false => exact .single isList

theorem exists_element (isList : reference.isList = true) :
    ∃ name element, reference.field.shape = .sequence name element := by
  cases isShape : reference.field.shape with
  | sequence name element => exact ⟨name, element, rfl⟩
  | _ =>
      rw [Reference.isList, isShape] at isList
      cases isList

theorem assignment_single (isSingle : reference.isList = false) (value : Access) :
    assignment object reference value =
      [.line ((reference.concrete object).text ++ " = (" ++ reference.field.shape.goType ++ ")(" ++
        value.text ++ ")")] := by
  unfold assignment
  split
  · rename_i name element isSequence
    rw [Reference.isList, isSequence] at isSingle
    cases isSingle
  · rfl

theorem resolves_resolutionCode {code : List Code}
    (done : resolutionCode object reference = .ok code) : ∃ inner,
      code = inside (reference.opened object true).1 inner ∧
        Resolves reference (((reference.opened object true).2).member reference.name)
          (reference.concrete object) inner := by
  unfold resolutionCode at done
  cases isList : reference.isList with
  | true =>
      simp only [isList, if_true] at done
      rcases Outcome.of_bind_eq_ok done with ⟨valueAbsent, _, written⟩
      cases written
      refine ⟨_, inside_append_singleton _ _ _, ?_⟩
      rcases exists_element isList with ⟨name, element, isShape⟩
      rw [resolutionBody, assignment, isShape]
      exact .list _ isShape rfl
  | false =>
      simp only [isList, Bool.false_eq_true, if_false] at done
      rcases Outcome.of_bind_eq_ok done with ⟨valueAbsent, _, written⟩
      cases written
      refine ⟨_, rfl, ?_⟩
      rw [resolutionBody, assignment_single isList]
      exact .single _ isList

/-- Desired state with a list that is reached through another list and a structure. -/
def networkDefinition : ResourceDefinition where
  name := "Network"
  spec := .struct "NetworkSpec" [
    ("Groups", Shape.sequenceOf (.struct "Group" [
      ("Rule", .struct "Rule" [
        ("Zones", Shape.sequenceOf (.struct "Zone" [
          ("SubnetID", Shape.scalarOf .string),
          ("FilterIDs", Shape.sequenceOf (Shape.scalarOf .string))]))])]))]
  status := none
  operations := ∅

/-- Settings that take a value and a list of values from other resources. -/
def networkReferences : Settings where
  resources := .ofList [("Network", {
    fields := .ofList [
      ("Groups.Rule.Zones.SubnetID", { references := some {
        resource := "Subnet", service := some "ec2", path := "Status.SubnetID",
        skipStateCheck := false } }),
      ("Groups.Rule.Zones.FilterIDs", { references := some {
        resource := "Filter", service := none, path := "Status.ID", skipStateCheck := true } })] })]

end References

end Reconcile
