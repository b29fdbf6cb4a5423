import ArchiveScript.Proofs.Printing.Phrase

/-! # Spaced expressions

Blanks may stand around the expressions inside a string. So an expression can be written in several
ways, of which printing is one, and its tree does not depend on the way.
-/

namespace ArchiveScript.Printing

mutual

/-- The ways to write an expression. -/
inductive Basic.Written : Basic → List Char → Prop
  | string {literal : Literal} {pieces : Pieces} {code : List Char}
      (h : Pieces.Written pieces code) :
      Basic.Written (.string literal pieces) ('"' :: (literal.chars ++ code))
  | integer (negative : Bool) (digits : Digits) :
      Basic.Written (.integer negative digits) (Basic.integer negative digits).print
  | name (word : Name) : Basic.Written (.name word) word.print
  | operation {left : Basic} {code : List Char} (h : Basic.Written left code) (word : Name) :
      Basic.Written (.operation left word) (code ++ '.' :: word.print)

inductive Pieces.Written : Pieces → List Char → Prop
  | done : Pieces.Written .done ['"']
  | escape (escape : Escape) (literal : Literal) {more : Pieces} {code : List Char}
      (h : Pieces.Written more code) :
      Pieces.Written (.escape escape literal more) (escape.print ++ (literal.chars ++ code))
  | interpolation {value : Basic} {before inside after : List Char}
      (hb : ∀ c ∈ before, Text.isIndent c = true) (hv : Basic.Written value inside)
      (ha : ∀ c ∈ after, Text.isIndent c = true) (literal : Literal) {more : Pieces}
      {code : List Char} (h : Pieces.Written more code) :
      Pieces.Written (.interpolation value literal more)
        ('$' :: '{' :: (before ++ (inside ++ (after ++ '}' :: (literal.chars ++ code)))))

end

mutual

/-- What is printed is written without blanks. -/
theorem Basic.written_print (basic : Basic) : basic.Written basic.print := by
  match basic with
  | .string literal pieces => exact .string pieces.written_print
  | .integer negative digits => exact .integer negative digits
  | .name word => exact .name word
  | .operation left word => exact .operation left.written_print word

theorem Pieces.written_print (pieces : Pieces) : pieces.Written pieces.print := by
  match pieces with
  | .done => exact .done
  | .escape escape literal more => exact .escape escape literal more.written_print
  | .interpolation value literal more =>
    exact .interpolation (List.forall_mem_nil _) value.written_print (List.forall_mem_nil _) literal
      more.written_print

end

theorem Pieces.Written.length_pos {pieces : Pieces} {code : List Char} (h : pieces.Written code) :
    0 < code.length := by
  cases h with
  | done => exact Nat.one_pos
  | escape escape => cases escape <;> simp [Escape.print]
  | interpolation => simp

end ArchiveScript.Printing
