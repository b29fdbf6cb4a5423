import ArchiveScript.Script.Statement
import ArchiveScript.Tree.Arena

/-! # Drafts

While a script is read, its nodes are put into an arena. A node is known by its position there. The
entries of an item that cannot be read stay where they are, but nothing refers to them.
-/

namespace ArchiveScript

/-- Steps on a line that put nodes into an arena. -/
def Drafting (α : Type) := Array Entry → Except Mistake α × Array Entry

namespace Drafting

instance : Monad Drafting where
  pure a := fun entries => (.ok a, entries)
  bind step f := fun entries =>
    match step entries with
    | (.ok a, entries) => f a entries
    | (.error mistake, entries) => (.error mistake, entries)

/-- Puts one more entry into the arena. -/
def add (entry : Entry) : Drafting Nat := fun entries => (.ok entries.size, entries.push entry)

/-- The span of the entry at a position. -/
def spanAt (entries : Array Entry) (position : Nat) : Span :=
  (entries[position]?.map Entry.span).getD .nowhere

/-- An entry from `start` to the furthest of `stop` and the ends of its children. -/
def enclosing (kind : Kind) (start stop : Nat) (children : List (Option Field × Nat))
    (entries : Array Entry) : Entry :=
  let furthest := children.foldl
    (fun furthest child => max furthest (spanAt entries child.2).stop) stop
  ⟨kind, .between start furthest, children⟩

instance : Builder Drafting Nat where
  fail complaint span := fun entries => (.error ⟨complaint, span⟩, entries)
  leaf kind start text := add ⟨kind, .between start (start + Text.bytes text), []⟩
  spanning kind start stop children := fun entries =>
    add (enclosing kind start stop children entries) entries
  spans := fun entries => (.ok (spanAt entries), entries)

end Drafting

/-- A reader of lines that puts nodes into an arena. -/
def DraftReader (α : Type) := List Line → Array Entry → Passage α × Array Entry

namespace DraftReader

instance : Monad DraftReader where
  pure a := fun lines entries => (⟨.ok a, [], lines⟩, entries)
  bind reader f := fun lines entries =>
    match reader lines entries with
    | (⟨.ok a, noted, left⟩, entries) =>
      let (after, entries) := f a left entries
      (⟨after.outcome, noted ++ after.noted, after.left⟩, entries)
    | (⟨.error mistake, noted, left⟩, entries) => (⟨.error mistake, noted, left⟩, entries)

def onLine (step : Drafting α) : DraftReader α := fun lines entries =>
  let (outcome, entries) := step entries
  (⟨outcome, [], lines⟩, entries)

instance : LineReader DraftReader Drafting where
  onLine := onLine
  peek := fun lines entries => (⟨.ok lines, [], lines⟩, entries)
  goto lines := fun _ entries => (⟨.ok (), [], lines⟩, entries)
  note mistakes := fun lines entries => (⟨.ok (), mistakes, lines⟩, entries)
  attempt reader := fun lines entries =>
    match reader lines entries with
    | (⟨.ok a, noted, left⟩, entries) => (⟨.ok (.ok a), noted, left⟩, entries)
    | (⟨.error mistake, noted, _⟩, entries) => (⟨.ok (.error mistake), noted, lines⟩, entries)

end DraftReader

end ArchiveScript
