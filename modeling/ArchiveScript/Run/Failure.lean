import ArchiveScript.Run.Status
import ArchiveScript.Run.Value
import ArchiveScript.Tree.Node

/-! # Failures of a run

Why a run ends early. A failure is a cause with the place in the script where it arose; the
wording of all causes is given in one place.
-/

namespace ArchiveScript

/-- Why a statement fails. -/
inductive Cause where
  /-- A node stands where no node of its kind can stand. -/
  | unexpectedNode (kind : Kind) (place : String)
  | missingField (parent : Kind) (field : Field)
  /-- A terminal whose text means nothing. -/
  | invalidLiteral (what text : String)
  /-- A mistake of the script that has no cause of its own. -/
  | mistake (reason : String)
  | undefinedVariable (name : String)
  | wrongKind (what : String) (allowed : List ValueKind) (actual : ValueKind)
  | cannotCompare (left right : ValueKind)
  | operatorNotSupported (operator : String) (kind : ValueKind)
  | unknownOperation (operation : String) (kind : ValueKind)
  | notAnInteger (text : String)
  | nestedIteration
  | rowsFailed (reason : String)
  | safeInterpolationNotAllowed
  | interpolationNotScalar (actual : ValueKind)
  | parameterInSql (name : String)
  /-- The database refused. -/
  | sql (reason : String)
  /-- A script that was run failed. -/
  | script (reason : String)
  /-- An archive tool failed, or the report could not be written. -/
  | archive (reason : String)
  | assertion
  | internal (reason : String)
  deriving DecidableEq, Repr

/-- The sorts of causes that are told apart outside. -/
inductive Category where
  | ast
  | semantic
  | sql
  | script
  | assertion
  | archive
  | internal
  deriving DecidableEq, Repr

namespace Category

def status : Category → Status
  | ast => .astError
  | semantic => .semanticError
  | sql => .sqlError
  | script => .scriptError
  | assertion => .assertionFailure
  | archive => .archiveError
  | internal => .internalError

end Category

namespace Cause

def category : Cause → Category
  | unexpectedNode .. | missingField .. | invalidLiteral .. => .ast
  | sql _ => .sql
  | script _ => .script
  | archive _ => .archive
  | assertion => .assertion
  | internal _ => .internal
  | mistake _ | undefinedVariable _ | wrongKind .. | cannotCompare .. | operatorNotSupported ..
  | unknownOperation .. | notAnInteger _ | nestedIteration | rowsFailed _
  | safeInterpolationNotAllowed | interpolationNotScalar _ | parameterInSql _ => .semantic

/-- The cause in words. -/
def reason : Cause → String
  | unexpectedNode kind place => "unexpected " ++ kind.name ++ " in " ++ place
  | missingField parent field => parent.name ++ " has no " ++ field.label
  | invalidLiteral what text => "invalid " ++ what ++ " '" ++ text ++ "'"
  | mistake reason => reason
  | undefinedVariable name => "The variable '" ++ name ++ "' has not been set."
  | wrongKind what allowed actual =>
    what ++ " must be " ++ ValueKind.describe allowed ++ ", not " ++ actual.name
  | cannotCompare left right =>
    "Cannot compare " ++ left.name ++ " with " ++ right.name ++
      "; convert explicitly (e.g. .as_integer or .as_text)"
  | operatorNotSupported operator kind =>
    "The operator '" ++ operator ++ "' cannot be applied to " ++ kind.name
  | unknownOperation operation kind =>
    "Unknown operation '." ++ operation ++ "' on " ++ kind.name
  | notAnInteger text => "'" ++ text ++ "' is not an integer"
  | nestedIteration => "Nested iteration over the same rows is not allowed"
  | rowsFailed reason => "Error in rows: " ++ reason
  | safeInterpolationNotAllowed => "Safe interpolation ($$\x7b...\x7d) is not allowed here"
  | interpolationNotScalar actual => "Interpolation must be text or integer, not " ++ actual.name
  | parameterInSql name =>
    "The command parameter '" ++ name ++ "' cannot be bound as an SQL argument"
  | sql reason => reason
  | script reason => reason
  | archive reason => reason
  | assertion => ""
  | internal reason => reason

/-- What is told of the cause. -/
def headline (cause : Cause) : String :=
  match cause.category with
  | .ast => "AST error - " ++ cause.reason
  | .semantic => "Semantic error: " ++ cause.reason
  | .sql => "SQL error - " ++ cause.reason
  | .script => "Error in script - " ++ cause.reason
  | .assertion => "Assertion failed"
  | .archive => "SIARD error - " ++ cause.reason
  | .internal => "Internal error - " ++ cause.reason

end Cause

/-- A cause with the part of the script that it is about, if that is known. -/
structure Failure where
  cause : Cause
  span : Option Span := none
  deriving DecidableEq, Repr

namespace Failure

def isInternal (failure : Failure) : Bool := failure.cause.category == .internal

/-- Sets the span. -/
def placed (failure : Failure) (span : Span) : Failure := { failure with span := some span }

/-- Sets the span unless there is one. An internal failure is nowhere in the script. -/
def orPlaced (failure : Failure) (span : Span) : Failure :=
  if failure.span.isNone && !failure.isInternal then failure.placed span else failure

def status (failure : Failure) : Status := failure.cause.category.status

def headline (failure : Failure) : String := failure.cause.headline

end Failure

namespace Value

/-- The value, if it is of an allowed kind; `what` says what it is wanted for. -/
def accept (value : Value) (allowed : List ValueKind) (what : String) : Except Failure Value :=
  if allowed.contains value.kind then .ok value
  else .error ⟨.wrongKind what allowed value.kind, none⟩

def expectText (value : Value) (what : String) : Except Failure String :=
  match value with
  | text s => .ok s
  | other => .error ⟨.wrongKind what [.text] other.kind, none⟩

def expectInteger (value : Value) (what : String) : Except Failure Int :=
  match value with
  | integer n => .ok n
  | other => .error ⟨.wrongKind what [.integer] other.kind, none⟩

def expectRows (value : Value) (what : String) : Except Failure RowsId :=
  match value with
  | rows id => .ok id
  | other => .error ⟨.wrongKind what [.rows] other.kind, none⟩

def expectConnection (value : Value) (what : String) : Except Failure Connection :=
  match value with
  | connection c => .ok c
  | other => .error ⟨.wrongKind what [.connection] other.kind, none⟩

end Value

end ArchiveScript
