import Reconcile.Code.Basic

/-!
# Access expressions

Emitted code reaches a value by selecting members and indexing collections, starting from an
expression that the caller supplies. Single-sided guards test such expressions for absence.
-/

namespace Reconcile

/-- An expression that reaches a value. -/
inductive Access where
  /-- An expression supplied from outside. -/
  | root (text : String)
  /-- A member of a value. -/
  | member (of : Access) (name : String)
  /-- An element of a collection. -/
  | index (of : Access) (position : String)
  deriving DecidableEq, Inhabited, Repr

namespace Access

/-- The expression as it is written. -/
def text : Access → String
  | .root text => text
  | .member of name => of.text ++ "." ++ name
  | .index of position => of.text ++ "[" ++ position ++ "]"

/-- The members along a path, each below the one before it. -/
def along (access : Access) : List String → List Access
  | [] => []
  | name :: rest => .member access name :: along (.member access name) rest

/-- The member at the end of a path. -/
def descend (access : Access) (path : List String) : Access :=
  path.foldl .member access

/-- The test that a value is present. -/
def isPresent (access : Access) : String :=
  access.text ++ " != nil"

/-- The test that a value is absent. -/
def isAbsent (access : Access) : String :=
  access.text ++ " == nil"

/-- A condition that holds if every step along a path is present. -/
def presenceChain (root : Access) (path : List String) : String :=
  " && ".intercalate ((root.along path).map isPresent)

/-- A condition that holds if some step along a path is absent. -/
def absenceChain (root : Access) (path : List String) : String :=
  " || ".intercalate ((root.along path).map isAbsent)

/-- Runs a statement if the value is absent. -/
def ifAbsent (access : Access) (statement : String) : Code :=
  .block ("if " ++ access.isAbsent) [.line statement]

/-- The header of a block that runs if the value is present. -/
def ifPresentHeader (access : Access) : String :=
  "if " ++ access.isPresent

/-- Runs a body if the value is present. -/
def ifPresent (access : Access) (body : List Code) : Code :=
  .block access.ifPresentHeader body

end Access

end Reconcile
