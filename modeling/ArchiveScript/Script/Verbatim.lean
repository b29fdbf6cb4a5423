import ArchiveScript.Script.Expression
import ArchiveScript.Script.Reader

/-! # Verbatim blocks

A verbatim block is made of the lines below a header that are empty or indented deeper, without
the empty lines at its end. Its text is kept as it stands, less the indentation of its first
line, apart from the interpolations.
-/

namespace ArchiveScript.Verbatim

open Expression
open Builder (leaf spanning spans)
open LineReader (onLine peek goto)

/-- The characters before the next interpolation. -/
def literalRun : List Char → List Char
  | '$' :: '$' :: '{' :: _ => []
  | '$' :: '{' :: _ => []
  | c :: cs => c :: literalRun cs
  | [] => []

section

variable {m : Type → Type} {ν : Type} [Builder m ν]

/-- A literal piece; there is none for an empty text. -/
def literal (start : Nat) (text : List Char) : m (List (Option Field × ν)) :=
  if text.isEmpty then return [] else return [(none, ← leaf .rawContent start text)]

/-- The pieces of one line, whose terminator belongs to its last literal piece. -/
def linePieces (ending : List Char) : Nat → Scan → m (List (Option Field × ν))
  | 0, s => literal s.pos (s.rest ++ ending)
  | n + 1, s =>
    let run := literalRun s.rest
    let opening := s.skip run.length
    match opening.rest with
    | [] => literal s.pos (run ++ ending)
    | '$' :: '$' :: _ => do
      let before ← literal s.pos run
      let (piece, after) ← interpolation basic .safeInterpolation 3 opening
      let pieces ← linePieces ending n after
      return before ++ (none, piece) :: pieces
    | _ => do
      let before ← literal s.pos run
      let (piece, after) ← interpolation basic .interpolation 2 opening
      let pieces ← linePieces ending n after
      return before ++ (none, piece) :: pieces

/-- The pieces of a line of a block that is indented by `indent`. -/
def linePiecesOf (indent : Nat) (line : Line) : m (List (Option Field × ν)) :=
  if line.isEmpty then return [(none, ← leaf .rawContent line.stop line.ending)]
  else
    let kept := line.margin.drop indent
    let start := line.start + Text.bytes (line.margin.take indent)
    linePieces line.ending (kept.length + line.body.length + 1) ⟨start, kept ++ line.body⟩

def blockPieces (indent : Nat) : List Line → m (List (Option Field × ν))
  | [] => return []
  | line :: lines => do
    let pieces ← linePiecesOf indent line
    let rest ← blockPieces indent lines
    return pieces ++ rest

end

/-- Whether a line can belong to a verbatim block below a header that is indented by `indent`. -/
def belongs (indent : Nat) (line : Line) : Bool := line.isEmpty || indent < line.indent

/-- The lines of the verbatim block at the beginning of `lines`, from its first line with text to
its last, and the lines after that one. Without a line with text there is no block, and no line
is taken. -/
def extent (indent : Nat) (lines : List Line) : List Line × List Line :=
  let candidates := lines.takeWhile (belongs indent)
  let taken := (candidates.reverse.dropWhile Line.isEmpty).reverse
  (taken.dropWhile Line.isEmpty, lines.drop taken.length)

/-- The verbatim block below `header`; a block without lines is empty. -/
def block {r m : Type → Type} {ν : Type} [Builder m ν] [LineReader r m] (header : Line) : r ν := do
  let (taken, after) := extent header.indent (← peek)
  match taken with
  | [] => leaf .raw header.next []
  | first :: _ =>
    let pieces ← onLine (blockPieces first.indent taken)
    goto after
    let start := startOf (← spans) header pieces
    spanning .raw start start pieces

end ArchiveScript.Verbatim
