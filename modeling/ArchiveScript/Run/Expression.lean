import ArchiveScript.Run.Template
import ArchiveScript.Run.World
import ArchiveScript.Text.Blank

/-! # Evaluating expressions

Expressions are evaluated in a scope and change no variable. They can change the rows that they
look at, and take in new ones.
-/

namespace ArchiveScript.Run

open Eval

/-- The value of digits in base sixteen. -/
def hexValue? (digits : List Char) : Option Nat :=
  digits.foldl (fun value c => do
    let digit ← if c.isDigit then some (c.toNat - '0'.toNat)
      else if 'a' ≤ c && c ≤ 'f' then some (c.toNat - 'a'.toNat + 10)
      else if 'A' ≤ c && c ≤ 'F' then some (c.toNat - 'A'.toNat + 10)
      else none
    return 16 * (← value) + digit) (some 0)

/-- The character with the given number in base sixteen; a sign may stand before the number. -/
def charOfHex? (hex : List Char) : Option Char := do
  let digits := match hex with
    | '+' :: digits => digits
    | digits => digits
  let value ← if digits.isEmpty then none else hexValue? digits
  if h : value.isValidChar then some (Char.ofNatAux value h) else none

/-- The character that an escape sequence stands for. -/
def decodeEscape? (text : String) : Option Char :=
  match text.toList with
  | '\\' :: 'u' :: '{' :: rest =>
    if rest.getLast? = some '}' then charOfHex? rest.dropLast else none
  | ['\\', c] =>
    match c with
    | 'n' => some '\n'
    | 't' => some '\t'
    | 'r' => some '\r'
    | 'b' => some (Char.ofNat 8)
    | 'f' => some (Char.ofNat 12)
    | '0' => some (Char.ofNat 0)
    | '\\' => some '\\'
    | '"' => some '"'
    | '\'' => some '\''
    | '$' => some '$'
    | _ => none
  | _ => none

/-- The text without the line end that it may end with. -/
def withoutFinalFeed (text : String) : String :=
  match text.toList.reverse with
  | '\n' :: '\r' :: rest => String.ofList rest.reverse
  | '\n' :: rest => String.ofList rest.reverse
  | _ => text

section

variable {η κ : Type} [Cursor κ]

-- The evaluation of the expressions inside an expression.
variable (inner : Node → Eval η κ Value)

/-- The value of an interpolation. -/
def interpolated (node : Node) : Eval η κ Value :=
  match node.first? with
  | some child => inner child
  | none => fail (.unexpectedNode node.kind "an empty interpolation")

/-- The text of one piece of a string. -/
def stringPiece (piece : Node) : Eval η κ String :=
  match piece.kind with
  | .stringContent => return piece.text
  | .escapeSequence =>
    match decodeEscape? piece.text with
    | some c => return String.singleton c
    | none => fail (.invalidLiteral "escape sequence" piece.text)
  | .interpolation => do
    let value ← interpolated inner piece
    match value with
    | .text _ | .integer _ | .parameter _ => return value.render
    | .rows _ | .connection _ => failAt piece.span (.interpolationNotScalar value.kind)
  | other => fail (.unexpectedNode other "a string")

/-- The text of a string, piece by piece. -/
def stringPieces : List Child → Eval η κ String
  | [] => return ""
  | (_, piece) :: rest => do
    let text ← stringPiece inner piece
    return text ++ (← stringPieces rest)

/-- What an operation makes of the value before it. -/
def operate (value : Value) (operation : String) : Eval η κ Value :=
  match value, operation with
  | .text text, "stripped" => return .text (Text.stripped text)
  | .text text, "as_integer" =>
    match Text.integer? text with
    | some n => return .integer n
    | none => fail (.notAnInteger text)
  | .text text, "as_rows" => return .rows (← addRows (.ofText text))
  | .integer n, "as_text" => return .text (Text.ofInt n)
  | .rows rows, "size" => return .integer (← onRows (·.size rows))
  | value, operation => fail (.unknownOperation operation value.kind)

/-- The value of a variable by its name. -/
def lookUp (scope : Scope) (name : String) : Eval η κ Value :=
  match scope.resolve name with
  | some value => return value
  | none => fail (.undefinedVariable name)

/-- An expression, given how the expressions inside it are evaluated. A variable without a name
has no place of its own. -/
def basicWith (scope : Scope) (node : Node) : Eval η κ Value :=
  match node.kind with
  | .string => orAt node.span do return .text (← stringPieces inner node.children)
  | .integer =>
    match Text.integer? node.text with
    | some n => return .integer n
    | none => failAt node.span (.invalidLiteral "integer" node.text)
  | .variableInstance =>
    match node.first? with
    | none => fail (.unexpectedNode node.kind "an empty variable")
    | some child => do orAt node.span (lookUp scope (← child.identifier))
  | .dotExpression => orAt node.span do
    let left ← inner (← node.need .left)
    let operation ← (← node.need .right).identifier
    operate left operation
  | other => failAt node.span (.unexpectedNode other "a basic expression")

end

section

variable {η κ : Type} [Cursor κ]

/-- An expression in a tree of at most the given height. -/
def basicWithin (scope : Scope) : Nat → Node → Eval η κ Value
  | 0, node => failAt node.span (.unexpectedNode node.kind "a basic expression")
  | height + 1, node => basicWith (basicWithin scope height) scope node

/-- The value of a string, an integer, a variable or an operation on one of them. -/
def basic (scope : Scope) (node : Node) : Eval η κ Value := basicWithin scope node.height node

/-- Compares two integers. -/
def compareIntegers (a b : Int) : String → Option Bool
  | "==" => some (a = b)
  | "!=" => some (a ≠ b)
  | "<" => some (a < b)
  | ">" => some (a > b)
  | "<=" => some (a ≤ b)
  | ">=" => some (a ≥ b)
  | _ => none

/-- What an operator makes of an equality. -/
def ofEquality (equal : Bool) (operator : String) (kind : ValueKind) : Eval η κ Bool :=
  match operator with
  | "==" => return equal
  | "!=" => return !equal
  | other => fail (.operatorNotSupported other kind)

/-- Integers can be compared in every way, texts and rows only for equality. -/
def compareValues (left right : Value) (operator : String) : Eval η κ Bool :=
  match left, right with
  | .integer a, .integer b =>
    match compareIntegers a b operator with
    | some holds => return holds
    | none => fail (.invalidLiteral "comparison operator" operator)
  | .text a, .text b => ofEquality (a == b) operator .text
  | .rows a, .rows b =>
    if operator = "==" ∨ operator = "!=" then do
      ofEquality (← onRows (RowsStore.equal a b)) operator .rows
    else fail (.operatorNotSupported operator .rows)
  | left, right => fail (.cannotCompare left.kind right.kind)

def comparison (scope : Scope) (node : Node) : Eval η κ Bool := do
  let left ← basic scope (← node.need .left)
  let operator := (← node.need .operator).text
  let right ← basic scope (← node.need .right)
  compareValues left right operator

/-- Fills in the pieces of a template. -/
def fillPieces (scope : Scope) (template : Template) : List Child → Eval η κ Template
  | [] => return template
  | (_, piece) :: rest => do
    let push (safe : Bool) : Eval η κ Template := do
      let value ← interpolated (basic scope) piece
      placed piece.span (settle (template.pushValue value safe))
    let template ← match piece.kind with
      | .rawContent => pure (template.pushLiteral piece.text.toList)
      | .interpolation => push false
      | .safeInterpolation => push true
      | other => failAt piece.span (.unexpectedNode other "a raw block")
    fillPieces scope template rest

/-- The text of a verbatim block. -/
def raw (scope : Scope) (mode : TemplateMode) (node : Node) : Eval η κ Filled := do
  if node.kind = .raw then
    return (← fillPieces scope { mode } node.children).finish
  else failAt node.span (.unexpectedNode node.kind "place of a raw block")

/-- An expression that has to be a text. -/
def basicText (scope : Scope) (what : String) (node : Node) : Eval η κ String := do
  let value ← basic scope node
  orAt node.span (settle (value.expectText what))

/-- A text, as a verbatim block or as an expression. -/
def text (scope : Scope) (what : String) (node : Node) : Eval η κ String := do
  if node.kind = .raw then return (← raw scope .text node).text
  else basicText scope what node

end

end ArchiveScript.Run
