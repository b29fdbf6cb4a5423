import ArchiveScript.Script.Scan
import ArchiveScript.Source.Line

/-! # Reading lines

The readers of items and blocks consume lines. A mistake inside a block is noted and the block
goes on; a mistake in the item itself ends the item, and the lines that it had read until then
do not count.
-/

namespace ArchiveScript

/-- What a reader of lines comes back with. -/
structure Passage (α : Type) where
  /-- What was read, or the mistake that ended the reading. -/
  outcome : Except Mistake α
  /-- The mistakes that were passed over, in order. -/
  noted : List Mistake
  /-- The lines that follow. -/
  left : List Line

/-- Steps that consume lines; `m` are the steps on one line. -/
class LineReader (r : Type → Type) (m : outParam (Type → Type)) extends Monad r where
  /-- What is read on a line. -/
  onLine {α : Type} : m α → r α
  /-- The lines that follow. -/
  peek : r (List Line)
  goto : List Line → r Unit
  /-- Notes mistakes and goes on. -/
  note : List Mistake → r Unit
  /-- Goes on after the mistake that ends a reader, at the line where the reader began. -/
  attempt {α : Type} : r α → r (Except Mistake α)

instance {r m : Type → Type} {ν : Type} [Builder m ν] [LineReader r m] : Builder r ν where
  fail complaint span := LineReader.onLine (Builder.fail complaint span)
  leaf kind start text := LineReader.onLine (Builder.leaf kind start text)
  spanning kind start stop children :=
    LineReader.onLine (Builder.spanning kind start stop children)
  spans := LineReader.onLine Builder.spans

/-- A reader of lines that comes back with trees. -/
def Reader (α : Type) := List Line → Passage α

namespace Reader

instance : Monad Reader where
  pure a := fun lines => ⟨.ok a, [], lines⟩
  bind r f := fun lines =>
    match (r lines).outcome with
    | .ok a =>
      let after := f a (r lines).left
      ⟨after.outcome, (r lines).noted ++ after.noted, after.left⟩
    | .error mistake => ⟨.error mistake, (r lines).noted, (r lines).left⟩

def inline (outcome : Except Mistake α) : Reader α := fun lines => ⟨outcome, [], lines⟩

instance : LineReader Reader (Except Mistake) where
  onLine := inline
  peek := fun lines => ⟨.ok lines, [], lines⟩
  goto lines := fun _ => ⟨.ok (), [], lines⟩
  note mistakes := fun lines => ⟨.ok (), mistakes, lines⟩
  attempt reader := fun lines =>
    match (reader lines).outcome with
    | .ok a => ⟨.ok (.ok a), (reader lines).noted, (reader lines).left⟩
    | .error mistake => ⟨.ok (.error mistake), (reader lines).noted, lines⟩

end Reader

/-- What the lines of a block may hold. -/
inductive BlockKind where
  /-- The statements of a script, where parameters may be declared. -/
  | topLevel
  | statements
  | parameters
  | properties
  | metadata
  /-- The body of a declaration of the given kind. -/
  | declaration (owner : Kind)
  | command
  deriving DecidableEq, Repr

/-- The reader of a block below a header of the given indentation, if there is a header. -/
abbrev BlockReader (r : Type → Type) (ν : Type) :=
  Option Nat → BlockKind → r (List (Option Field × ν))

section

open LineReader

variable {r m : Type → Type} {ν : Type} [Builder m ν] [LineReader r m]

/-- Passes over the lines that carry no item. -/
def skipIdle : r Unit := do goto ((← peek).dropWhile Line.isIdle)

/-- Whether an item follows that is indented deeper than `header`. -/
def hasBlock (header : Line) : r Bool := do
  skipIdle
  return (← peek).head?.any (fun line => header.indent < line.indent)

end

/-- A scan of the text of a line. -/
def Line.scan (line : Line) : Scan := ⟨line.bodyStart, line.body⟩

section

variable {ν : Type} (span : ν → Span)

/-- The start of the first of the children, or the line after the header if there is none. -/
def startOf (header : Line) (children : List (Option Field × ν)) : Nat :=
  match children with
  | [] => header.next
  | (_, child) :: _ => (span child).start

/-- Complaints about the fields that occur before among the children, given the children that
were passed. -/
def repeatedFields (passed : List (Option Field × ν)) : List (Option Field × ν) → List Mistake
  | [] => []
  | (none, child) :: rest => repeatedFields ((none, child) :: passed) rest
  | (some field, child) :: rest =>
    let later := repeatedFields ((some field, child) :: passed) rest
    if passed.any (·.1 == some field) then ⟨.repeatedField field, span child⟩ :: later else later

end

end ArchiveScript
