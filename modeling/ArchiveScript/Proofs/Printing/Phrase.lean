import ArchiveScript.Proofs.Script.Plain

/-! # Phrases

The parts of a script that stand on one line, apart from their text: names, strings, integers and
the expressions made of them. Each phrase can be printed, and has the tree that it should be read
as, without spans.
-/

namespace ArchiveScript

namespace Printing

open Node

/-- A name whose characters after the first one are of the given class. -/
structure NameOf (part : Char → Bool) where
  first : Char
  more : List Char
  isStart : isNameStart first = true
  isPart : ∀ c ∈ more, part c = true

abbrev Name := NameOf isNamePart

abbrev Key := NameOf isPropertyPart

namespace NameOf

variable {part : Char → Bool}

def print (name : NameOf part) : List Char := name.first :: name.more

def tree (name : NameOf part) : Node := terminal .identifier name.print

end NameOf

structure Digits where
  first : Char
  more : List Char
  isDigit : ∀ c ∈ first :: more, c.isDigit = true

def Digits.print (digits : Digits) : List Char := digits.first :: digits.more

structure Literal where
  chars : List Char
  plain : ∀ c ∈ chars, c ≠ '"' ∧ c ≠ '\\' ∧ c ≠ '\n'
  closed : ¬['$', '{'] <:+: chars

def Literal.trees (literal : Literal) : List Child :=
  if literal.chars.isEmpty then [] else [(none, terminal .stringContent literal.chars)]

theorem Literal.trees_eq_nil {literal : Literal} (h : literal.chars = []) : literal.trees = [] :=
  if_pos (List.isEmpty_iff.2 h)

theorem Literal.trees_eq_singleton {literal : Literal} (h : literal.chars ≠ []) :
    literal.trees = [(none, terminal .stringContent literal.chars)] :=
  if_neg (mt List.isEmpty_iff.1 h)

def Literal.empty : Literal := ⟨[], nofun, by decide⟩

inductive Escape where
  | simple (c : Char) (h : Expression.isEscape c = true)
  | unicode (digits : List Char) (h : ∀ c ∈ digits, Expression.isHexDigit c = true)
      (hn : 0 < digits.length) (hl : digits.length ≤ 6)

def Escape.print : Escape → List Char
  | simple c _ => ['\\', c]
  | unicode digits _ _ _ => '\\' :: 'u' :: '{' :: (digits ++ ['}'])

mutual

inductive Basic where
  /-- A string: a literal and then pieces, each with the literal after it. -/
  | string (literal : Literal) (pieces : Pieces)
  | integer (negative : Bool) (digits : Digits)
  | name (name : Name)
  | operation (left : Basic) (name : Name)

inductive Pieces where
  | done
  | escape (escape : Escape) (literal : Literal) (rest : Pieces)
  | interpolation (value : Basic) (literal : Literal) (rest : Pieces)

end

mutual

def Basic.print : Basic → List Char
  | .string literal pieces => '"' :: (literal.chars ++ pieces.print)
  | .integer true digits => '-' :: digits.print
  | .integer false digits => digits.print
  | .name name => name.print
  | .operation left name => left.print ++ '.' :: name.print

def Pieces.print : Pieces → List Char
  | .done => ['"']
  | .escape escape literal rest => escape.print ++ (literal.chars ++ rest.print)
  | .interpolation value literal rest =>
    '$' :: '{' :: (value.print ++ '}' :: (literal.chars ++ rest.print))

end

mutual

def Basic.tree : Basic → Node
  | .string literal pieces => branch .string (literal.trees ++ pieces.trees)
  | .integer true digits => terminal .integer ('-' :: digits.print)
  | .integer false digits => terminal .integer digits.print
  | .name name => branch .variableInstance [(none, name.tree)]
  | .operation left name =>
    branch .dotExpression [(some .left, left.tree), (some .right, name.tree)]

def Pieces.trees : Pieces → List Child
  | .done => []
  | .escape escape literal rest =>
    (none, terminal .escapeSequence escape.print) :: (literal.trees ++ rest.trees)
  | .interpolation value literal rest =>
    (none, branch .interpolation [(none, value.tree)]) :: (literal.trees ++ rest.trees)

end

structure Comparison where
  left : Basic
  sign : List Char
  isSign : sign ∈ Expression.comparisonSigns
  right : Basic

namespace Comparison

def print (comparison : Comparison) : List Char :=
  comparison.left.print ++ ' ' :: (comparison.sign ++ ' ' :: comparison.right.print)

def tree (comparison : Comparison) : Node :=
  branch .comparison [(some .left, comparison.left.tree),
    (some .operator, terminal .comparisonOperator comparison.sign),
    (some .right, comparison.right.tree)]

end Comparison

structure Quoted where
  chars : List Char
  plain : ∀ c ∈ chars, c ≠ '"' ∧ c ≠ '\n'

namespace Quoted

def print : Option Quoted → List Char
  | none => []
  | some quoted => ' ' :: '"' :: (quoted.chars ++ ['"'])

def trees : Option Quoted → List Child
  | none => []
  | some quoted => [(some .description, terminal .shortDescription quoted.chars)]

end Quoted

end Printing

end ArchiveScript
