import Mathlib
import ArchiveScript.Proofs.Tree.Spans
import ArchiveScript.Script.Reader

/-! # The uses of lines

What the tree of a script uses the lines of the script for. An item has a header, on which it
begins, the other branch of a conditional has a line before it, and a verbatim block is made of
lines. All other lines of the script are blank or comments.
-/

namespace ArchiveScript

inductive LineUse where
  /-- The line is one of a verbatim block. -/
  | verbatim
  /-- The line is the header of an item. -/
  | header
  /-- The other branch of a conditional is below the line. -/
  | otherwise
  deriving DecidableEq, Repr

namespace Kind

def listsItems : Kind → Bool
  | sourceFile | statementBlock | parameters | keyValuePairs => true
  | _ => false

/-- The children of a node of the kind are items, apart from the parts on the header of the
node. -/
def ownsItems : Kind → Bool
  | siardMetadata | siardSchema | siardType | siardTable | siardColumn | siardField | siardKey
  | siardCheck | siardView | commandDeclaration => true
  | _ => false

end Kind

/-- The span begins on the line, as long as the offsets of the line fit spans. -/
def Line.Holds (line : Line) (span : Span) : Prop :=
  line.next ≤ Span.maxOffset → line.start ≤ span.start ∧ span.start ≤ line.stop

namespace Node

/-- The verbatim block below the header is made of the lines, the first and the last of which have
a text. A block without lines has its place after the header. -/
structure MadeOf (header : Line) (extent : List Line) (block : Node) : Prop where
  first : ∀ piece ∈ block.children.head?, ∃ line ∈ extent.head?,
    line.isEmpty = false ∧ line.Holds piece.2.span
  last : ∀ piece ∈ block.children.getLast?, ∃ line ∈ extent.getLast?,
    line.isEmpty = false ∧ line.Holds piece.2.span
  none : block.children = [] → extent = [] ∧
    (header.next ≤ Span.maxOffset → block.span.start = header.next)

mutual

/-- The node, read from the header on, uses the lines among all the lines of the script. The uses
are in the order of the source. -/
inductive Uses (lines : List Line) : Option Line → Node → List (LineUse × Line) → Prop
  /-- There are only blank lines between the header and the lines of a verbatim block. -/
  | verbatim {header : Line} {node : Node} {before blanks extent after : List Line}
      (hk : node.kind = .raw)
      (hl : lines = before ++ header :: (blanks ++ (extent ++ after)))
      (hb : ∀ line ∈ blanks, line.isEmpty = true) (hm : node.MadeOf header extent)
      (hc : UsesAll lines (some header) .raw node.children []) :
      Uses lines (some header) node (extent.map (LineUse.verbatim, ·))
  | other {header : Option Line} {node : Node} {uses : List (LineUse × Line)}
      (hk : node.kind ≠ .raw) (hc : UsesAll lines header node.kind node.children uses) :
      Uses lines header node uses

inductive UsesAll (lines : List Line) :
    Option Line → Kind → List Child → List (LineUse × Line) → Prop
  | nil {header : Option Line} {kind : Kind} : UsesAll lines header kind [] []
  /-- A part of the node that is not an item. -/
  | part {header : Option Line} {kind : Kind} {place : Option Field} {node : Node}
      {rest : List Child} {uses more : List (LineUse × Line)}
      (hk : kind.listsItems = false)
      (ho : kind.ownsItems = true → ∃ line ∈ header, line.Holds node.span)
      (hp : place ≠ some .alternative)
      (hn : Uses lines header node uses) (hr : UsesAll lines header kind rest more) :
      UsesAll lines header kind ((place, node) :: rest) (uses ++ more)
  /-- An item begins on its header. That of an item that is a verbatim block is before it. -/
  | item {header : Option Line} {kind : Kind} {place : Option Field} {node : Node}
      {rest : List Child} {line : Line} {uses more : List (LineUse × Line)}
      (hk : kind.listsItems = true ∨ kind.ownsItems = true)
      (hl : line ∈ lines) (hh : node.kind = .raw ∨ line.Holds node.span)
      (hn : Uses lines (some line) node uses) (hr : UsesAll lines header kind rest more) :
      UsesAll lines header kind ((place, node) :: rest) ((.header, line) :: (uses ++ more))
  /-- The other branch of a conditional, below a line at the indentation of the conditional. -/
  | otherwise {header line : Line} {node : Node} {rest : List Child}
      {uses more : List (LineUse × Line)}
      (hl : line ∈ lines) (hw : line.scan.atWord "Else".toList = true)
      (hi : line.indent = header.indent)
      (hn : Uses lines (some line) node uses)
      (hr : UsesAll lines (some header) .conditional rest more) :
      UsesAll lines (some header) .conditional ((some .alternative, node) :: rest)
        ((.otherwise, line) :: (uses ++ more))

end

end Node

/-- The uses are of some of the lines, in their order and of each line at most once. A line without
a use is blank or a comment, and only verbatim blocks use such lines. -/
inductive Covers : List (LineUse × Line) → List Line → Prop
  | nil : Covers [] []
  | idle {uses : List (LineUse × Line)} {line : Line} {lines : List Line}
      (hi : line.isIdle = true) (hr : Covers uses lines) : Covers uses (line :: lines)
  | verbatim {uses : List (LineUse × Line)} {line : Line} {lines : List Line}
      (hr : Covers uses lines) : Covers ((.verbatim, line) :: uses) (line :: lines)
  | active {use : LineUse} {uses : List (LineUse × Line)} {line : Line} {lines : List Line}
      (hi : line.isIdle = false) (hr : Covers uses lines) :
      Covers ((use, line) :: uses) (line :: lines)

namespace Covers

variable {uses more : List (LineUse × Line)} {lines after : List Line} {line : Line}

theorem append (h : Covers uses lines) (h' : Covers more after) :
    Covers (uses ++ more) (lines ++ after) := by
  induction h with
  | nil => exact h'
  | idle hi _ ih => exact .idle hi ih
  | verbatim _ ih => exact .verbatim ih
  | active hi _ ih => exact .active hi ih

theorem behind_idle {idle : List Line} (hi : ∀ line ∈ idle, line.isIdle = true)
    (h : Covers uses lines) : Covers uses (idle ++ lines) := by
  induction idle with
  | nil => exact h
  | cons line idle ih =>
    obtain ⟨hline, hidle⟩ := List.forall_mem_cons.1 hi
    exact .idle hline (ih hidle)

theorem of_verbatim (lines : List Line) : Covers (lines.map (LineUse.verbatim, ·)) lines := by
  induction lines with
  | nil => exact .nil
  | cons line lines ih => exact .verbatim ih

theorem sublist (h : Covers uses lines) : (uses.map Prod.snd).Sublist lines := by
  induction h with
  | nil => exact .slnil
  | idle _ _ ih => exact ih.cons _
  | verbatim _ ih => exact ih.cons_cons _
  | active _ _ ih => exact ih.cons_cons _

theorem mem (h : Covers uses lines) {use : LineUse} (hu : (use, line) ∈ uses) : line ∈ lines :=
  h.sublist.subset (List.mem_map_of_mem hu)

end Covers

namespace Kind

def hasParts (kind : Kind) : Bool := kind != .raw && !kind.listsItems && !kind.ownsItems

theorem ne_raw_of_ownsItems {kind : Kind} (h : kind.ownsItems = true) : kind ≠ .raw := by
  rintro rfl
  cases h

theorem listsItems_of_ownsItems {kind : Kind} (h : kind.ownsItems = true) :
    kind.listsItems = false := by
  cases kind with
  | sourceFile | statementBlock | parameters | keyValuePairs => cases h
  | _ => rfl

theorem hasParts_iff {kind : Kind} : kind.hasParts = true ↔
    kind ≠ .raw ∧ kind.listsItems = false ∧ kind.ownsItems = false := by
  simp [hasParts, and_assoc]

end Kind

namespace Node

variable {lines taken after : List Line} {header : Option Line} {kind : Kind} {node : Node}
  {place : Option Field} {children rest : List Child} {start stop : Nat}

def Capped (node : Node) : Prop := node.span.stop ≤ Span.maxOffset

structure Silent (node : Node) : Prop where
  capped : node.Capped
  uses : ∀ lines header, node.Uses lines header []

/-- The node accounts for the lines that were taken, which are some of all the lines. -/
structure Fills (lines : List Line) (header : Option Line) (taken : List Line) (node : Node) :
    Prop where
  capped : node.Capped
  accounts : ∃ uses, node.Uses lines header uses ∧ Covers uses taken

/-- The node begins on the line, unless it is a verbatim block, and it accounts for the lines below
that were taken. -/
structure Headed (lines : List Line) (line : Line) (taken : List Line) (node : Node) : Prop where
  begins : node.kind = .raw ∨ line.Holds node.span
  fills : node.Fills lines (some line) taken

structure FillAll (lines : List Line) (header : Option Line) (kind : Kind) (taken : List Line)
    (children : List Child) : Prop where
  capped : ∀ child ∈ children, child.2.Capped
  accounts : ∃ uses, UsesAll lines header kind children uses ∧ Covers uses taken

def AreItems (lines : List Line) (taken : List Line) (items : List Child) : Prop :=
  ∀ header kind, kind.listsItems = true ∨ kind.ownsItems = true →
    FillAll lines header kind taken items

/-- A node begins where it is said to begin if its own offsets fit, because those of its children
have been made to fit. -/
theorem start_spanning (kind : Kind) (hstart : start ≤ Span.maxOffset)
    (hstop : stop ≤ Span.maxOffset) (hc : ∀ child ∈ children, child.2.Capped) :
    (Node.spanning kind start stop children).span.start = start := by
  have hfurthest : furthest stop children ≤ Span.maxOffset := by
    rcases furthest_cases stop children with h | ⟨child, hm, h⟩
    · rwa [h]
    · rw [h]
      exact hc child hm
  exact congrArg Span.start (Span.between_eq hstart hfurthest)

theorem start_leaf (kind : Kind) {text : List Char}
    (h : start + Text.bytes text ≤ Span.maxOffset) : (leaf kind start text).span.start = start :=
  congrArg Span.start (Span.between_eq (Nat.le_trans (Nat.le_add_right _ _) h) h)

theorem silent_leaf (hk : kind.hasParts = true) (start : Nat) (text : List Char) :
    (leaf kind start text).Silent :=
  ⟨Span.stop_between_le_max _ _, fun _ _ => .other (Kind.hasParts_iff.1 hk).1 .nil⟩

theorem usesAll_silent (hl : kind.listsItems = false) (ho : kind.ownsItems = false)
    (hc : ∀ child ∈ children, child.1 ≠ some .alternative ∧ child.2.Silent) :
    UsesAll lines header kind children [] := by
  induction children with
  | nil => exact .nil
  | cons child rest ih =>
    obtain ⟨⟨hp, hn⟩, hrest⟩ := List.forall_mem_cons.1 hc
    exact .part hl (by simp [ho]) hp (hn.uses lines header) (ih hrest)

theorem silent_spanning (hk : kind.hasParts = true) (start stop : Nat)
    (hc : ∀ child ∈ children, child.1 ≠ some .alternative ∧ child.2.Silent) :
    (spanning kind start stop children).Silent := by
  obtain ⟨hraw, hl, ho⟩ := Kind.hasParts_iff.1 hk
  exact ⟨Span.stop_between_le_max _ _, fun _ _ => .other hraw (usesAll_silent hl ho hc)⟩

theorem Silent.fills (h : node.Silent) : node.Fills lines header [] :=
  ⟨h.capped, [], h.uses lines header, .nil⟩

theorem Fills.behind_idle {idle : List Line} (hi : ∀ line ∈ idle, line.isIdle = true)
    (h : node.Fills lines header taken) : node.Fills lines header (idle ++ taken) := by
  obtain ⟨hcapped, uses, hu, hc⟩ := h
  exact ⟨hcapped, uses, hu, hc.behind_idle hi⟩

namespace FillAll

theorem nil : FillAll lines header kind [] [] := ⟨nofun, [], .nil, .nil⟩

theorem behind_idle {idle : List Line} (hi : ∀ line ∈ idle, line.isIdle = true)
    (h : FillAll lines header kind taken children) :
    FillAll lines header kind (idle ++ taken) children := by
  obtain ⟨hcapped, uses, hu, hc⟩ := h
  exact ⟨hcapped, uses, hu, hc.behind_idle hi⟩

theorem part (hk : kind.hasParts = true) (hp : place ≠ some .alternative)
    (hn : node.Fills lines header taken) (hr : FillAll lines header kind after rest) :
    FillAll lines header kind (taken ++ after) ((place, node) :: rest) := by
  obtain ⟨_, hl, ho⟩ := Kind.hasParts_iff.1 hk
  obtain ⟨hcapped, uses, hu, hc⟩ := hn
  obtain ⟨hcapped', more, hm, hc'⟩ := hr
  exact ⟨List.forall_mem_cons.2 ⟨hcapped, hcapped'⟩, uses ++ more,
    .part hl (by simp [ho]) hp hu hm, hc.append hc'⟩

theorem single (hk : kind.hasParts = true) (hp : place ≠ some .alternative)
    (hn : node.Fills lines header taken) :
    FillAll lines header kind taken [(place, node)] := by
  have h := part hk hp hn nil
  rwa [List.append_nil] at h

theorem heading {line : Line} (hk : kind.listsItems = false) (hp : place ≠ some .alternative)
    (hn : node.Silent) (hh : line.Holds node.span)
    (hr : FillAll lines (some line) kind taken rest) :
    FillAll lines (some line) kind taken ((place, node) :: rest) := by
  obtain ⟨hcapped, more, hm, hc⟩ := hr
  exact ⟨List.forall_mem_cons.2 ⟨hn.capped, hcapped⟩, more,
    .part hk (fun _ => ⟨line, rfl, hh⟩) hp (hn.uses lines (some line)) hm, hc⟩

theorem item {line : Line} (hk : kind.listsItems = true ∨ kind.ownsItems = true)
    (hl : line ∈ lines) (hi : line.isIdle = false) (hn : node.Headed lines line taken)
    (hr : FillAll lines header kind after rest) :
    FillAll lines header kind (line :: (taken ++ after)) ((place, node) :: rest) := by
  obtain ⟨hbegins, hcapped, uses, hu, hc⟩ := hn
  obtain ⟨hcapped', more, hm, hc'⟩ := hr
  exact ⟨List.forall_mem_cons.2 ⟨hcapped, hcapped'⟩, _, .item hk hl hbegins hu hm,
    .active hi (hc.append hc')⟩

theorem spanning (hk : kind ≠ .raw) (h : FillAll lines header kind taken children)
    (start stop : Nat) : (Node.spanning kind start stop children).Fills lines header taken := by
  obtain ⟨_, uses, hu, hc⟩ := h
  exact ⟨Span.stop_between_le_max _ _, uses, .other hk hu, hc⟩

theorem otherwise {line next : Line} (hl : next ∈ lines) (hidle : next.isIdle = false)
    (hw : next.scan.atWord "Else".toList = true) (hi : next.indent = line.indent)
    (hn : node.Fills lines (some next) taken) :
    FillAll lines (some line) .conditional (next :: taken) [(some .alternative, node)] := by
  obtain ⟨hcapped, uses, hu, hc⟩ := hn
  refine ⟨List.forall_mem_singleton.2 hcapped, _, .otherwise hl hw hi hu .nil, .active hidle ?_⟩
  rwa [List.append_nil]

end FillAll

namespace AreItems

theorem nil : AreItems lines [] [] := fun _ _ _ => .nil

theorem cons {line : Line} (hl : line ∈ lines) (hi : line.isIdle = false)
    (hn : node.Headed lines line taken) (hr : AreItems lines after rest) :
    AreItems lines (line :: (taken ++ after)) ((place, node) :: rest) :=
  fun header kind hk => .item hk hl hi hn (hr header kind hk)

theorem behind_idle {idle : List Line} (hi : ∀ line ∈ idle, line.isIdle = true)
    (h : AreItems lines taken children) : AreItems lines (idle ++ taken) children :=
  fun header kind hk => (h header kind hk).behind_idle hi

end AreItems

end Node

end ArchiveScript
