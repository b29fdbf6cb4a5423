import ArchiveScript.Tree.Node

/-! # Complaints

What can be wrong with the text of a script. A complaint is a cause; its wording is given in one
place.
-/

namespace ArchiveScript

/-- Why a part of a script cannot be read. -/
inductive Complaint where
  /-- Text after the end of an item. -/
  | unexpected (rest : String)
  /-- A fixed sign or word is missing. -/
  | expectedSign (sign : String)
  /-- A thing of the language is missing. -/
  | expected (thing : String)
  | expectedAfter (sign : String) (before : String)
  | unterminatedDescription
  | unterminatedString
  | unknownEscape
  | unicodeEscape
  | inconsistentIndentation
  | repeatedField (field : Field)
  | nestedParameters
  | looseElse
  | unknownStatement (word : String)
  | unknownMetadata
  | onlyDescription (owner : Kind)
  | unknownDeclaration (allowed : List String) (owner : Kind)
  | commandTitle
  | commandBody
  | unknownCommandItem
  | openInterpolation
  deriving DecidableEq, Repr

namespace Complaint

def message : Complaint → String
  | unexpected rest => s!"unexpected '{rest}'"
  | expectedSign sign => s!"expected '{sign}'"
  | expected thing => s!"expected {thing}"
  | expectedAfter sign before => s!"expected {sign} after {before}"
  | unterminatedDescription => "unterminated description"
  | unterminatedString => "unterminated string"
  | unknownEscape => "unknown escape sequence"
  | unicodeEscape => "expected 1 to 6 hex digits and '\x7d' in a unicode escape"
  | inconsistentIndentation => "inconsistent indentation"
  | repeatedField field => "'" ++ field.label ++ "' is given more than once"
  | nestedParameters => "parameters can only be declared at the top level"
  | looseElse => "'Else' without a matching 'If'"
  | unknownStatement word => s!"unknown statement '{word}'"
  | unknownMetadata => "expected 'Schema', 'Command' or an archive field such as 'dbname:'"
  | onlyDescription owner => "only 'description:' is allowed in a " ++ owner.name
  | unknownDeclaration allowed owner =>
    "expected 'description:' or one of " ++ ", ".intercalate allowed ++ " in a " ++ owner.name
  | commandTitle => "a command needs a title"
  | commandBody => "a command needs an 'SQL:' block"
  | unknownCommandItem => "expected 'Title:', 'Parameters:' or 'SQL:'"
  | openInterpolation => "expected '\x7d' to close the interpolation"

end Complaint

/-- A complaint and the place that it is about. -/
structure Mistake where
  complaint : Complaint
  span : Span
  deriving DecidableEq, Repr

namespace Mistake

def message (mistake : Mistake) : String := mistake.complaint.message

def render (mistake : Mistake) : String := mistake.message ++ " at " ++ mistake.span.render

end Mistake

end ArchiveScript
