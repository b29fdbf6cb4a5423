import ArchiveScript.Script.Draft

/-! # Parsing

A script is a block of statements. A block is the run of items below its header; its first item
fixes the indentation of all of them. An item that cannot be read is passed over together with
the lines below it, and the block goes on.
-/

namespace ArchiveScript

/-- The lines after a failed item: those below it are passed over, too. -/
def recover (indent : Nat) (lines : List Line) : List Line :=
  lines.dropWhile fun line => line.isEmpty || indent < line.indent

section

open Builder (fail spanning)
open LineReader (peek goto note attempt)

variable {r m : Type → Type} {ν : Type} [Builder m ν] [LineReader r m]

/-- The item of a block whose header is `line`. -/
def blockItem (block : BlockReader r ν) (kind : BlockKind) (line : Line) : r (Option Field × ν) :=
  match kind with
  | .topLevel => return (none, ← Statement.statement block line true)
  | .statements => return (none, ← Statement.statement block line false)
  | .parameters => return (none, ← Declaration.parameter line)
  | .properties => return (none, ← Statement.property line)
  | .metadata => Declaration.metadataItem block line
  | .declaration owner => Declaration.declarationItem block line owner
  | .command => Declaration.commandItem block line

/-- The items of a block, whose indentation is `expected` once it is known. The block ends
before an item that is not deeper than `parent`. No more than `fuel` lines are looked at. -/
def blockItems : Nat → Option Nat → BlockReader r ν
  | 0, _, _, _ => return []
  | fuel + 1, expected, parent, kind => do
    skipIdle
    match ← peek with
    | [] => return []
    | line :: rest =>
      if parent.any (line.indent ≤ ·) then return []
      else
        let indent := expected.getD line.indent
        goto rest
        let item ← attempt <|
          if line.indent = indent then blockItem (blockItems fuel none) kind line
          else fail .inconsistentIndentation (.between line.start line.stop)
        match item with
        | .ok child => return child :: (← blockItems fuel (some indent) parent kind)
        | .error mistake =>
          note [mistake]
          goto (recover line.indent rest)
          blockItems fuel (some indent) parent kind

/-- The node of a whole script. -/
def sourceFile (source : List Char) : r ν := do
  let lines ← peek
  let items ← blockItems (lines.length + 1) none none .topLevel
  spanning .sourceFile 0 (Text.bytes source) items

end

/-- A script that has been read: its tree without the items that could not be read, and the
mistakes in them. -/
structure Script where
  tree : Node
  mistakes : List Mistake

/-- The arena that a script has been read into, with the position of its root. -/
structure Draft where
  entries : List Entry
  root : Nat
  mistakes : List Mistake

/-- The text that an entry stands for. Only that of a terminal means something. -/
def Draft.text (source : List Char) (entry : Entry) : String :=
  if entry.kind.isTerminal then entry.text source else ""

/-- The tree below the root, whose texts are cut from the source. -/
def Draft.tree (source : List Char) (draft : Draft) : Node :=
  (Arena.nodes (text source) draft.entries)[draft.root]?.getD default

/-- Reads a script into an arena. -/
def draft (source : List Char) : Draft :=
  let (passage, entries) := sourceFile (r := DraftReader) source (Line.split source) #[]
  let root := match passage.outcome with
    | .ok root => root
    | .error _ => 0
  ⟨entries.toList, root, passage.noted⟩

/-- Reads a script. -/
def parse (source : List Char) : Script :=
  let draft := draft source
  ⟨draft.tree source, draft.mistakes⟩

end ArchiveScript
