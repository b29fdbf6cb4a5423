import ArchiveScript.Source.Span

/-! # Line numbers

The lines of a text and the offsets at which they begin, by which offsets are turned into numbers
of lines. Lines are numbered from one, and there is a line after the last line feed.
-/

namespace ArchiveScript

/-- A text, and the offsets of the beginnings of its lines in ascending order. -/
structure LineTable where
  source : List Char
  starts : Array Nat

namespace LineTable

/-- The beginnings of the lines after the line feeds of a text at `offset`. -/
def startsFrom (offset : Nat) : List Char → List Nat
  | [] => []
  | c :: cs =>
    let next := offset + c.utf8Size
    if c = '\n' then min next Span.maxOffset :: startsFrom next cs else startsFrom next cs

def ofText (source : List Char) : LineTable := ⟨source, (0 :: startsFrom 0 source).toArray⟩

def lineCount (table : LineTable) : Nat := table.starts.size

/-- Where an offset is among ascending offsets: its index, or else the index of the first one that
is larger. Those before `low` are known to be smaller, those from `high` on to be larger, and each
step halves what is between. -/
def search (starts : Array Nat) (offset low high : Nat) (hhigh : high ≤ starts.size) :
    Except Nat Nat :=
  if h : low < high then
    let middle := low + (high - low) / 2
    have hmiddle : middle < starts.size := by omega
    if starts[middle] = offset then .ok middle
    else if starts[middle] < offset then search starts offset (middle + 1) high hhigh
    else search starts offset low middle (by omega)
  else .error low
termination_by high - low

/-- The number of the line at an index. Numbers have as many bits as offsets: a larger index counts
as the last but one number, and the number of the last one wraps around. -/
def numberAt (index : Nat) : Nat :=
  ((if index ≤ Span.maxOffset then index else Span.maxOffset - 1) + 1) % (Span.maxOffset + 1)

/-- The number of the line that an offset lies in; an offset after the text is in the last. -/
def lineOf (table : LineTable) (offset : Nat) : Nat :=
  match search table.starts offset 0 table.starts.size (Nat.le_refl _) with
  | .ok index => numberAt index
  | .error index => numberAt (index - 1)

/-- The numbers of the first and of the last line that a span touches. A span that ends where a
line begins does not touch that line. -/
def linesOf (table : LineTable) (span : Span) : Nat × Nat :=
  let first := table.lineOf span.start
  let last := if span.start < span.stop then span.stop - 1 else span.start
  (first, max first (table.lineOf last))

/-- The text of a line without its terminator. -/
def lineText? (table : LineTable) (line : Nat) : Option (List Char) := do
  let index ← if line = 0 then none else some (line - 1)
  let start ← table.starts[index]?
  let stop := table.starts[index + 1]?.getD (Text.bytes table.source)
  let text ← (Text.dropBytes start table.source).bind (Text.takeBytes (stop - start))
  let text := if text.getLast? = some '\n' then text.dropLast else text
  return if text.getLast? = some '\r' then text.dropLast else text

end LineTable

end ArchiveScript
