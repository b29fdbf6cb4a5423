import Mathlib
import ArchiveScript.Proofs.Script.Accounts
import ArchiveScript.Proofs.Script.Phrases
import ArchiveScript.Script.Parse

/-! # Lines of items

An item is read from its header, from the block below it and, if it is a conditional, from the
block of its other branch. What it is read as lies where these lines do and uses them, as long as
nothing in its blocks is mistaken. A mistake that ends the item is on one of these lines.
-/

namespace ArchiveScript

open Node (LieInOrder Fills FillAll)

namespace Line

/-- A line that does not end a block below a header that is indented by `indent`. -/
def Below (indent : Nat) (line : Line) : Prop := line.isIdle = true ∨ indent < line.indent

/-- The line is in the block at the beginning of `lines`, and `after` is what follows it. -/
def InBlock (indent : Nat) (lines : List Line) (line : Line) (after : List Line) : Prop :=
  indent < line.indent ∧
    ∃ between, lines = between ++ line :: after ∧ ∀ other ∈ between, other.Below indent

/-- The line is the header of an item or in its block. `below` are the lines after the header. -/
def InItem (header : Line) (below : List Line) (line : Line) : Prop :=
  line = header ∨ ∃ after, line.InBlock header.indent below after

/-- The line is one of an item, whose header is given with the lines after it. -/
inductive OfItem (header : Line) (below : List Line) : Line → Prop
  | own {line : Line} (h : InItem header below line) : OfItem header below line
  /-- The other branch of a conditional is below the line. -/
  | otherwise {between after : List Line} {line : Line} (hl : below = between ++ line :: after)
      (hb : ∀ other ∈ between, other.Below header.indent) (hi : line.indent = header.indent)
      (hw : line.scan.atWord "Else".toList = true) (hc : header.scan.atWord "If".toList = true) :
      OfItem header below line

def Owns (header : Line) (taken : List Line) : Prop :=
  ∀ other ∈ taken, other.isIdle = true ∨ header.indent ≤ other.indent

structure Faults (line : Line) (mistake : Mistake) : Prop where
  holds : line.Holds mistake.span
  cites : ∀ source, Text.bytes source ≤ Span.maxOffset → line.Within source → mistake.Cites source

def FaultsItem (header : Line) (below : List Line) (mistake : Mistake) : Prop :=
  ∃ line, header.OfItem below line ∧ line.Faults mistake

end Line

/-- The reader of blocks, with fuel for all lines. -/
def readBlock : BlockReader Reader Node := fun parent kind lines =>
  blockItems (r := Reader) (lines.length + 1) none parent kind lines

def readItem (kind : BlockKind) (header : Line) : Reader Child := blockItem readBlock kind header

/-- The node begins on a line of the item, or it is a verbatim block without lines, which has its
place after the header. -/
inductive Node.Placed (header : Line) (below : List Line) (node : Node) : Prop
  | held {line : Line} (hl : header.InItem below line) (hh : line.Holds node.span)
  | empty (hn : node = .leaf .raw header.next [])
      (he : (Verbatim.extent header.indent below).1 = [])

namespace BlockKind

def holdsFields : BlockKind → Bool
  | .metadata | .declaration _ | .command => true
  | _ => false

def holds : BlockKind → BlockKind → Bool
  | .topLevel, .parameters => true
  | .topLevel, .properties | .topLevel, .metadata | .topLevel, .statements => true
  | .statements, .properties | .statements, .metadata | .statements, .statements => true
  | .metadata, .declaration kind => kind == .siardSchema
  | .metadata, .command => true
  | .declaration owner, .declaration kind => (Declaration.nested owner).any (·.2 == kind)
  | .command, .parameters => true
  | _, _ => false

end BlockKind

/-- A field that the header or the block of an item gives is given before it, too. -/
def Repeats (header : Line) (below : List Line) (mistake : Mistake) : Prop :=
  ∃ (kind : BlockKind) (parts items : List Child), kind.holdsFields = true ∧
    (readBlock (some header.indent) kind (below.dropWhile Line.isIdle)).outcome = .ok items ∧
    (∀ part ∈ parts, header.Holds part.2.span) ∧
    mistake ∈ repeatedFields Node.span [] (parts ++ items)

/-- Where the mistake is that an item repeats a field. -/
inductive Repeated (header : Line) (below : List Line) (mistake : Mistake) : Prop
  | held {line : Line} (hr : Repeats header below mistake) (hl : header.InItem below line)
      (hh : line.Holds mistake.span)
  /-- The field has an empty verbatim block, and the mistake is at the end of its line. -/
  | empty {line : Line} {after : List Line} (hr : Repeats header below mistake)
      (hl : line.InBlock header.indent below after)
      (he : (Verbatim.extent line.indent after).1 = [])
      (hs : mistake.span = .between line.next line.next)

/-- The item, which is one of a block of the kind, may have a block of another kind that begins
with the lines. -/
inductive Line.Opens (header : Line) (below : List Line) (kind : BlockKind) :
    BlockKind → List Line → Prop
  | below {inner : BlockKind} (hk : kind.holds inner = true) :
      Opens header below kind inner (below.dropWhile Line.isIdle)
  /-- The block of the other branch of a conditional. -/
  | otherwise {between after : List Line} {line : Line} (hk : kind.holds .statements = true)
      (hl : below = between ++ line :: after) (hb : ∀ other ∈ between, other.Below header.indent)
      (hi : line.indent = header.indent) (hw : line.scan.atWord "Else".toList = true)
      (hc : header.scan.atWord "If".toList = true) :
      Opens header below kind .statements (after.dropWhile Line.isIdle)

/-- The mistake is noted in a block of the item, or the item repeats a field. -/
def Line.Notes (header : Line) (below : List Line) (kind : BlockKind) (mistake : Mistake) : Prop :=
  (∃ inner lines, header.Opens below kind inner lines ∧
      mistake ∈ (readBlock (some header.indent) inner lines).noted) ∨
    Repeated header below mistake ∧ ∀ source, header.Heads source below → mistake.Cites source

/-- The node is a part of an item. It lies between `lo` and the lines that follow. -/
structure Node.IsPart (header : Line) (below : List Line) (lo : Nat) (trail : Trail)
    (node : Node) : Prop where
  owns : header.Owns trail.taken
  capped : node.Capped
  lies : ∀ source, header.Heads source trail.taken →
    node.Lies source lo (Line.endOf header.next trail.taken)
  fills : trail.noted = [] → ∀ whole, header :: below <:+ whole →
    node.Fills whole (some header) trail.taken

/-- The node begins on the header, unless it is a verbatim block. -/
structure Node.IsItem (header : Line) (below : List Line) (lo : Nat) (trail : Trail)
    (node : Node) : Prop extends IsPart header below lo trail node where
  begins : node.kind = .raw ∨ header.Holds node.span

structure Node.IsValue (header : Line) (below : List Line) (lo : Nat) (trail : Trail)
    (node : Node) : Prop extends IsItem header below lo trail node where
  deeper : ∀ other ∈ trail.taken, other.Below header.indent
  placed : node.Placed header below

structure Node.IsBody (header : Line) (below : List Line) (trail : Trail) (node : Node) : Prop
    extends IsPart header below header.next trail node where
  deeper : ∀ other ∈ trail.taken, other.Below header.indent

structure Node.IsChild (header : Line) (below : List Line) (trail : Trail) (child : Child) :
    Prop where
  item : child.2.IsItem header below header.bodyStart trail
  placed : ∀ field, child.1 = some field → child.2.Placed header below

structure AreParts (header : Line) (below : List Line) (kind : Kind) (lo : Nat) (trail : Trail)
    (children : List Child) : Prop where
  owns : header.Owns trail.taken
  capped : ∀ child ∈ children, child.2.Capped
  lies : ∀ source, header.Heads source trail.taken →
    LieInOrder source lo (Line.endOf header.next trail.taken) children
  fills : trail.noted = [] → ∀ whole, header :: below <:+ whole →
    FillAll whole (some header) kind trail.taken children

structure IsBranch (header : Line) (lines : List Line) (trail : Trail) (children : List Child) :
    Prop where
  owns : header.Owns trail.taken
  capped : ∀ child ∈ children, child.2.Capped
  lies : ∀ source offset, Text.bytes source ≤ Span.maxOffset →
    Line.Follow source offset trail.taken →
    LieInOrder source offset (Line.endOf offset trail.taken) children
  fills : trail.noted = [] → ∀ whole, lines <:+ whole →
    FillAll whole (some header) .conditional trail.taken children

structure AreItems (lines : List Line) (trail : Trail) (items : List Child) : Prop where
  capped : ∀ child ∈ items, child.2.Capped
  lies : ∀ source offset, Text.bytes source ≤ Span.maxOffset →
    Line.Follow source offset trail.taken →
    LieInOrder source offset (Line.endOf offset trail.taken) items
  fills : trail.noted = [] → ∀ whole, lines <:+ whole → Node.AreItems whole trail.taken items

/-- The lines at the beginning of `lines` were taken for items, each of which has its header in the
block of these lines. -/
structure ItemsIn (indent : Nat) (lines taken : List Line) (items : List Child) : Prop where
  deeper : ∀ other ∈ taken, other.Below indent
  fields : ∀ field node, (some field, node) ∈ items →
    ∃ header after, header.InBlock indent lines after ∧ node.Placed header after

/-- The lines at the beginning of `lines` were taken for a block, which was read as the items. -/
structure IsBlock (indent : Nat) (kind : BlockKind) (lines : List Line) (trail : Trail)
    (items : List Child) : Prop
    extends AreItems lines trail items, ItemsIn indent lines trail.taken items where
  outcome : (readBlock (some indent) kind lines).outcome = .ok items

abbrev AccountsItem {α : Type} (kind : BlockKind) (header : Line) (below lines : List Line)
    (P : Trail → α → Prop) (reader : Reader α) : Prop :=
  Reader.Accounts (header.Notes below kind) (header.FaultsItem below) lines P reader

/-- A reader of blocks reads the blocks that an item may have. It never ends with a mistake. -/
def AccountsBlocks (kind : BlockKind) (header : Line) (below : List Line)
    (block : BlockReader Reader Node) : Prop :=
  ∀ inner lines, header.Opens below kind inner lines →
    Reader.Accounts (· ∈ (readBlock (some header.indent) inner lines).noted) (fun _ => False) lines
      (IsBlock header.indent inner lines) (block (some header.indent) inner)

variable {header line : Line} {below lines : List Line}

/-! ### Lines below a header -/

theorem Line.Below.mono {indent inner : Nat} (h : line.Below inner) (hi : indent ≤ inner) :
    line.Below indent :=
  h.imp_right (Nat.lt_of_le_of_lt hi)

/-- A line of an item in a block is in the block. -/
theorem Line.InBlock.item {indent : Nat} {after : List Line}
    (hh : header.InBlock indent lines after) (h : header.InItem after line) :
    ∃ rest, line.InBlock indent lines rest := by
  obtain ⟨hdeep, between, rfl, hb⟩ := hh
  obtain rfl | ⟨rest, hdeeper, more, rfl, hm⟩ := h
  · exact ⟨after, hdeep, between, rfl, hb⟩
  · refine ⟨rest, Nat.lt_trans hdeep hdeeper, between ++ header :: more, by simp, ?_⟩
    refine List.forall_mem_append.2 ⟨hb, List.forall_mem_cons.2 ⟨.inr hdeep, fun other ho => ?_⟩⟩
    exact (hm other ho).mono (Nat.le_of_lt hdeep)

theorem Line.InBlock.behind {indent : Nat} {before after : List Line}
    (hb : ∀ other ∈ before, other.Below indent) (h : line.InBlock indent lines after) :
    line.InBlock indent (before ++ lines) after := by
  obtain ⟨hdeep, between, rfl, hbetween⟩ := h
  exact ⟨hdeep, before ++ between, (List.append_assoc ..).symm,
    List.forall_mem_append.2 ⟨hb, hbetween⟩⟩

theorem Line.InBlock.behind_idle {indent : Nat} {after : List Line}
    (h : line.InBlock indent (lines.dropWhile Line.isIdle) after) :
    line.InBlock indent lines after := by
  have hidle : ∀ other ∈ lines.takeWhile Line.isIdle, other.Below indent :=
    fun other ho => .inl (List.mem_takeWhile_imp ho)
  have hb := h.behind hidle
  rwa [List.takeWhile_append_dropWhile] at hb

theorem Line.InBlock.mem {indent : Nat} {after : List Line} (h : line.InBlock indent lines after) :
    line ∈ lines := by
  obtain ⟨-, between, rfl, -⟩ := h
  exact List.mem_append_right _ List.mem_cons_self

theorem Line.OfItem.mem (h : header.OfItem below line) : line ∈ header :: below := by
  cases h with
  | own h =>
    obtain rfl | ⟨after, h⟩ := h
    · exact List.mem_cons_self
    · exact List.mem_cons_of_mem _ h.mem
  | otherwise hl =>
    subst hl
    exact List.mem_cons_of_mem _ (List.mem_append_right _ List.mem_cons_self)

theorem Line.Owns.nil : header.Owns [] := List.forall_mem_nil _

theorem Line.Owns.append {taken more : List Line} (h : header.Owns taken) (h' : header.Owns more) :
    header.Owns (taken ++ more) :=
  List.forall_mem_append.2 ⟨h, h'⟩

theorem Line.Owns.of_below {taken : List Line} (h : ∀ other ∈ taken, other.Below header.indent) :
    header.Owns taken :=
  fun other ho => (h other ho).imp_right Nat.le_of_lt

theorem Line.Owns.of_idle {taken : List Line} (h : ∀ other ∈ taken, other.isIdle = true) :
    header.Owns taken :=
  fun other ho => .inl (h other ho)

/-- The lines that are passed over after an item that cannot be read. -/
theorem exists_skipped (header : Line) (rest : List Line) :
    ∃ skipped, rest = skipped ++ recover header.indent rest ∧
      ∀ indent < header.indent, ∀ other ∈ skipped, other.Below indent := by
  refine ⟨_, List.takeWhile_append_dropWhile.symm, fun indent hdeep other ho => ?_⟩
  have hskip := List.mem_takeWhile_imp ho
  rw [Bool.or_eq_true, decide_eq_true_eq] at hskip
  refine hskip.imp (fun hempty => ?_) (Nat.lt_trans hdeep)
  rw [Line.isIdle, hempty, Bool.true_or]

/-! ### Mistakes on a line -/

section

variable {s after : Scan} {mistake : Mistake} {source : List Char}

theorem Scan.Faults.onLine (ha : line.scan.Advances s) (h : s.Faults mistake) :
    line.Faults mistake :=
  ⟨h.begins.holds ha, fun source hs hw => (h source hs (ha.within hw.scan)).2⟩

theorem Line.Faults.onItem (h : header.Faults mistake) : header.FaultsItem below mistake :=
  ⟨header, .own (.inl rfl), h⟩

theorem Line.FaultsItem.cites (h : header.FaultsItem below mistake)
    (hh : header.Heads source below) : mistake.Cites source := by
  obtain ⟨line, ho, hf⟩ := h
  refine hf.cites source hh.fits ?_
  obtain rfl | hm := List.mem_cons.1 ho.mem
  · exact hh.within
  · exact hh.follow.within hm

theorem Brings.onItem {α : Type} {P : α → Prop} {outcome : Except Mistake α}
    (h : Brings s.Faults P outcome) (ha : header.scan.Advances s) :
    Brings (header.FaultsItem below) P outcome :=
  h.mono (fun _ hf => (hf.onLine ha).onItem) fun _ => id

theorem Scan.Faults.onItem (h : s.Faults mistake) (ha : header.scan.Advances s) :
    header.FaultsItem below mistake :=
  (h.onLine ha).onItem

theorem Line.reads_trimmed (line : Line) :
    ∃ rest, line.scan.Reads (Text.trimEnd line.body) ⟨line.trimmedStop, rest⟩ := by
  obtain ⟨rest, hr⟩ := Text.trimEnd_prefix line.body
  exact ⟨rest, hr.symm, rfl⟩

theorem Line.faults_trimmed {complaint : Complaint} (line : Line) :
    line.Faults ⟨complaint, .between line.bodyStart line.trimmedStop⟩ := by
  obtain ⟨rest, hr⟩ := line.reads_trimmed
  exact hr.advances.faults.onLine (.refl _)

theorem Line.faults_trimmedStop {complaint : Complaint} (line : Line) :
    line.Faults ⟨complaint, .between line.trimmedStop line.trimmedStop⟩ := by
  obtain ⟨rest, hr⟩ := line.reads_trimmed
  exact (hr.advances.faults_point).onLine (.refl _)

theorem Line.faults_stop {complaint : Complaint} (line : Line) :
    line.Faults ⟨complaint, .between line.stop line.stop⟩ := by
  have hr : line.scan.Advances ⟨line.stop, []⟩ := ⟨line.body, (List.append_nil _).symm, rfl⟩
  exact hr.faults_point.onLine (.refl _)

theorem Line.faults_self {complaint : Complaint} (line : Line) :
    line.Faults ⟨complaint, .between line.start line.stop⟩ := by
  refine ⟨fun hnext => ?_, fun source hs hw => ?_⟩
  · have hmax := Nat.le_trans line.stop_le_next hnext
    rw [Span.between_eq (Nat.le_trans line.start_le_stop hmax) hmax]
    exact ⟨Nat.le_refl _, line.start_le_stop⟩
  · exact .of_between hs line.start_le_stop hw.start_boundary hw.stop_boundary

end

end ArchiveScript
