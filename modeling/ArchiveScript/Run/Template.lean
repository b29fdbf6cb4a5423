import ArchiveScript.Run.Failure

/-! # Filling in templates

A verbatim block is a template: literal pieces with values between them. What the safe form of an
interpolation means depends on what the text is for. Line feeds at the end of a literal are
written only when something follows, so that a text never ends with them.
-/

namespace ArchiveScript

/-- What a template is filled in for. -/
inductive TemplateMode where
  /-- Plain text, where there is no safe form. -/
  | text
  /-- SQL for a connection: a value in the safe form becomes an argument. -/
  | sql
  /-- The body of a command, where parameters stay as they are. -/
  | command
  deriving DecidableEq, Repr

/-- A text with the arguments for its places. -/
structure Filled where
  text : String
  args : List SqlArg
  deriving DecidableEq, Repr

namespace Filled

def render (filled : Filled) : String :=
  if filled.args.isEmpty then filled.text
  else filled.text ++ " [" ++ ", ".intercalate (filled.args.map SqlArg.render) ++ "]"

end Filled

/-- A template that is being filled in. -/
structure Template where
  mode : TemplateMode
  out : String := ""
  /-- The line feeds that wait for something to follow. -/
  pending : List Char := []
  args : Array SqlArg := #[]
  deriving DecidableEq, Repr

namespace Template

/-- Writes each line feed without a carriage return before it. -/
def unifyFeeds : List Char → List Char
  | '\r' :: '\n' :: cs => '\n' :: unifyFeeds cs
  | c :: cs => c :: unifyFeeds cs
  | [] => []

/-- Writes a text after what was waiting for it. -/
def emit (template : Template) (text : List Char) : Template :=
  if text.isEmpty then template
  else
    { template with
      out := template.out ++ String.ofList (template.pending ++ text)
      pending := [] }

def pushLiteral (template : Template) (literal : List Char) : Template :=
  let literal := unifyFeeds literal
  let feeds := literal.reverse.takeWhile (· == '\n')
  let template := template.emit (literal.take (literal.length - feeds.length))
  { template with pending := template.pending ++ feeds }

/-- Writes a place for an argument. -/
def bindArg (template : Template) (arg : SqlArg) : Template :=
  let template := template.emit ['?']
  { template with args := template.args.push arg }

/-- Writes a value, in the plain or in the safe form. -/
def pushValue (template : Template) (value : Value) (safe : Bool) : Except Failure Template :=
  if safe && template.mode == .text then .error ⟨.safeInterpolationNotAllowed, none⟩
  else
    let bound := safe && template.mode == .sql
    match value with
    | .rows _ | .connection _ => .error ⟨.interpolationNotScalar value.kind, none⟩
    | .parameter name =>
      if bound then .error ⟨.parameterInSql name, none⟩
      else .ok (template.emit value.render.toList)
    | .text text => .ok (if bound then template.bindArg (.text text) else template.emit text.toList)
    | .integer n =>
      .ok (if bound then template.bindArg (.integer n) else template.emit value.render.toList)

def finish (template : Template) : Filled := ⟨template.out, template.args.toList⟩

end Template

end ArchiveScript
