import ArchiveScript.Tree.Node

/-! # Arenas

A tree can be given as a list of entries that refer to earlier entries by their positions. An
entry that several others refer to is a child of each of them.
-/

namespace ArchiveScript

/-- A node of an arena; `children` are positions of earlier entries. -/
structure Entry where
  kind : Kind
  span : Span
  children : List (Option Field × Nat)
  deriving DecidableEq, Repr

/-- The text of the source that the entry covers. -/
def Entry.text (source : List Char) (entry : Entry) : String :=
  String.ofList (entry.span.slice source)

namespace Arena

variable (text : Entry → String)

/-- The nodes at the positions, with the names of their places. -/
def lookUp (nodes : Array Node) (places : List (Option Field × Nat)) : List (Option Field × Node) :=
  places.filterMap fun (field, position) => (nodes[position]?).map fun node => (field, node)

/-- The node of one entry above the nodes of the entries before it. -/
def grow (nodes : Array Node) (entry : Entry) : Array Node :=
  nodes.push (.mk entry.kind entry.span (text entry) (lookUp nodes entry.children))

/-- The nodes of all entries, in the order of the entries. -/
def nodes (entries : List Entry) : Array Node := entries.foldl (grow text) #[]

/-- The tree below the last entry. -/
def root? (source : List Char) (entries : List Entry) : Option Node :=
  (nodes (Entry.text source) entries).back?

end Arena

end ArchiveScript
