import ArchiveScript.Script.Complaint

/-! # Builders

The readers of a script do not say what a node is. They build nodes in the order of the source,
each one after its children, and go on with what stands for them. A reader can be run to get the
tree itself, or to put the nodes into an arena.
-/

namespace ArchiveScript

/-- Steps that build nodes and may end with a mistake; `ν` is what stands for a node. -/
class Builder (m : Type → Type) (ν : outParam Type) extends Monad m where
  fail {α : Type} : Complaint → Span → m α
  /-- Builds a terminal that covers a text from an offset on. -/
  leaf : Kind → Nat → List Char → m ν
  /-- Builds a node from an offset to the furthest of another one and the ends of its children. -/
  spanning : Kind → Nat → Nat → List (Option Field × ν) → m ν
  /-- The spans of the nodes that have been built. -/
  spans : m (ν → Span)

instance : Builder (Except Mistake) Node where
  fail complaint span := .error ⟨complaint, span⟩
  leaf kind start text := .ok (.leaf kind start text)
  spanning kind start stop children := .ok (.spanning kind start stop children)
  spans := .ok Node.span

end ArchiveScript
