import Reconcile.Synced.Condition

/-!
# Code for the synced state

Code that returns early unless a resource is in its synced state. For each condition every
value on the way is checked for presence before the last one is looked up among the accepted
values, which stand in a variable of their own.
-/

namespace Reconcile

namespace Synced

/-- The statement that runs if a condition does not hold. -/
def notSynced : String :=
  "return false, nil"

/-- The spellings of a name: the stem, then the stem with numbers from 2 on. -/
def spelling (stem : String) : Nat → String
  | 0 => stem
  | number + 1 => stem ++ toString (number + 2)

/-- The first spelling of a stem that is not taken. One more spelling than names taken suffices. -/
def freshName (taken : List String) (stem : String) : String :=
  (((List.range (taken.length + 1)).map (spelling stem)).find?
    (fun name => !taken.contains name)).getD stem

end Synced

namespace ResolvedCondition

/-- The expression that reaches a field on the way, starting from a resource object. -/
def access (condition : ResolvedCondition) (object : String) (field : Field) : Access :=
  (Access.member (.root object) condition.root.name).descend field.path.segments

/-- The stem of the variable with the accepted values, after the outermost field. -/
def variableStem (condition : ResolvedCondition) : String :=
  (condition.parents.head?.getD condition.target).names.unexported ++ "Candidates"

/-- The type of an accepted value and the values between braces. -/
def candidates (condition : ResolvedCondition) : String :=
  "[]" ++ condition.kind.toScalarKind.goElementType ++ "\x7b" ++
    ", ".intercalate condition.literals ++ "\x7d"

/-- The code of a condition with the variable for its accepted values. -/
def code (condition : ResolvedCondition) (object name : String) : List Code :=
  condition.chain.map (fun field =>
    (condition.access object field).ifAbsent Synced.notSynced) ++ [
    .line (name ++ " := " ++ condition.candidates),
    .block ("if !" ++ condition.kind.membership (condition.access object condition.target) name)
      [.line Synced.notSynced]]

end ResolvedCondition

namespace Synced

/-- The code of conditions from an index on, given the variables that are taken. -/
def codeFrom (resource : Resource) (object : String) :
    Nat → List String → List SyncedCondition → Except SyncedError (List Code)
  | _, _, [] => .ok []
  | index, taken, condition :: rest => do
    let condition ← ResolvedCondition.resolve resource index condition
    let name := freshName taken condition.variableStem
    let others ← codeFrom resource object (index + 1) (name :: taken) rest
    return condition.code object name ++ others

/-- The code that checks all synced conditions of a resource in the object it is held by. -/
def render (resource : Resource) (object : String) (level : Nat) : Except SyncedError String := do
  let codes ← codeFrom resource object 0 [] resource.settings.syncedConditions
  return Code.renderBehindBlank codes level

end Synced

end Reconcile
