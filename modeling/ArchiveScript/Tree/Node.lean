import ArchiveScript.Source.Span
import ArchiveScript.Tree.Kind

/-! # Trees

A script is a tree of labelled nodes. A child may stand at a named place of its parent; the
order of all children is that of the source.
-/

namespace ArchiveScript

/-- A node with its children. The parser fills in the text of terminal kinds only, because the
text of the others means nothing. -/
inductive Node where
  | mk (kind : Kind) (span : Span) (text : String) (children : List (Option Field × Node))
  deriving Repr, Inhabited

/-- A child with the name of its place, if it has one. -/
abbrev Child := Option Field × Node

namespace Node

def kind : Node → Kind
  | mk kind _ _ _ => kind

def span : Node → Span
  | mk _ span _ _ => span

/-- The text that evaluation reads off the node. -/
def text : Node → String
  | mk _ _ text _ => text

def children : Node → List Child
  | mk _ _ _ children => children

/-- The first child at the named place. -/
def field? (node : Node) (field : Field) : Option Node :=
  (node.children.find? (fun child => child.1 == some field)).map (·.2)

/-- The first child, at whatever place. -/
def first? (node : Node) : Option Node := node.children.head?.map (·.2)

/-- A terminal that covers `text` from `start` on. A text whose end is too far for a span is lost,
because the terminal then covers nothing. -/
def leaf (kind : Kind) (start : Nat) (text : List Char) : Node :=
  let stop := start + Text.bytes text
  mk kind (.between start stop) (if stop ≤ Span.maxOffset then String.ofList text else "") []

/-- A node from `start` to the furthest of `stop` and the ends of its children. -/
def spanning (kind : Kind) (start stop : Nat) (children : List Child) : Node :=
  let furthest := children.foldl (fun furthest child => max furthest child.2.span.stop) stop
  mk kind (.between start furthest) "" children

mutual

/-- One more than the number of edges on the longest path down from the node. -/
def height : Node → Nat
  | mk _ _ _ children => heights children + 1

/-- The height of the highest child. -/
def heights : List (Option Field × Node) → Nat
  | [] => 0
  | (_, child) :: rest => max child.height (heights rest)

end

mutual

/-- The tree as an s-expression: kinds, with the names of places before the children. -/
def sexp : Node → String
  | mk kind _ _ children => "(" ++ kind.name ++ sexps children ++ ")"

def sexps : List (Option Field × Node) → String
  | [] => ""
  | (none, child) :: rest => " " ++ child.sexp ++ sexps rest
  | (some field, child) :: rest => " " ++ field.label ++ ": " ++ child.sexp ++ sexps rest

end

mutual

/-- All nodes with their depths, a parent before its children. -/
def walk (depth : Nat) : Node → List (Nat × Node)
  | mk kind span text children => (depth, mk kind span text children) :: walks (depth + 1) children

def walks (depth : Nat) : List (Option Field × Node) → List (Nat × Node)
  | [] => []
  | (_, child) :: rest => child.walk depth ++ walks depth rest

end

/-- The kind and the span of the node. -/
def summary (node : Node) : String := node.kind.name ++ "@" ++ node.span.render

theorem height_pos (node : Node) : 0 < node.height := by
  cases node; simp [height]

end Node

end ArchiveScript
