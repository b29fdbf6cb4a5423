import ArchiveScript.Proofs.Printing.Verbatim

/-! # Reading blocks back

A block is read item by item. What holds of each item, that its lines are read as its child and
no more lines than those, holds of the block by induction.
-/

namespace ArchiveScript.Printing

open Node

def holdsStatements : BlockKind → Bool
  | .topLevel | .statements => true
  | _ => false

/-- What may follow an item of a block that is indented by `indent`. A statement is not followed by
the other branch of a conditional. -/
structure Follows (kind : BlockKind) (indent : Nat) (after : List Line) : Prop where
  ends : Ends indent after
  notElse : holdsStatements kind = true → ∀ line ∈ after.head?, line.indent = indent →
    line.scan.eatWord? "Else".toList = none

def Item.Reads (item : Item) (kind : BlockKind) (margin : List Char) : Prop :=
  ∀ (header : Line) (lines after : List Line) (fuel : Nat), header.margin = margin →
    header.body = item.head → Shown item.below lines → lines.length < fuel →
    Follows kind margin.length after →
    Takes (blockItem (blockItems fuel none) kind header) (lines ++ after) after item.child

/-- What the items of a block need to be read back. -/
structure Item.Fits (item : Item) (kind : BlockKind) (margin : List Char) : Prop where
  heads : Heads item.head
  notElse : holdsStatements kind = true →
    ∀ pos, Scan.eatWord? "Else".toList ⟨pos, item.head⟩ = none
  oneLine : OneLine item.head
  below : ∀ content ∈ item.below, OneLine content
  reads : item.Reads kind margin

/-- What follows a block below a header with the indentation `parent`, if there is a header. -/
def Closes (parent : Option Nat) (after : List Line) : Prop :=
  ∀ line ∈ after.head?, line.isIdle = false ∧ parent.any (line.indent ≤ ·) = true

theorem Ends.closes {indent : Nat} {after : List Line} (h : Ends indent after) :
    Closes (some indent) after := fun line hl => by simpa using h line hl

section

variable {kind : BlockKind} {margin : List Char} {items : List Item} {parent : Option Nat}
  {lines after : List Line}

theorem linesOf_cons (item : Item) (items : List Item) :
    linesOf margin (item :: items) =
      (margin ++ item.head) :: (item.below ++ linesOf margin items) := rfl

variable (hm : ∀ c ∈ margin, Text.isIndent c = true) (hi : ∀ item ∈ items, item.Fits kind margin)
  (hp : ∀ n ∈ parent, n < margin.length)

include hm hi hp

/-- The lines of a block, or what follows it, may follow an item of the block. -/
theorem follows_items (hs : Shown (linesOf margin items) lines) (hc : Closes parent after) :
    Follows kind margin.length (lines ++ after) := by
  cases items with
  | nil =>
    cases hs
    have hl (line : Line) (hl : line ∈ after.head?) : line.indent < margin.length := by
      obtain ⟨n, hn, hle⟩ := (Option.any_eq_true _ _).1 (hc line hl).2
      exact Nat.lt_of_le_of_lt (of_decide_eq_true hle) (hp n hn)
    refine ⟨fun line hm => ⟨(hc line hm).1, Nat.le_of_lt (hl line hm)⟩, fun _ line hm he => ?_⟩
    exact absurd he (Nat.ne_of_lt (hl line hm))
  | cons item items =>
    cases hs with
    | @cons _ _ line lines hl hr =>
      have hf := hi item List.mem_cons_self
      obtain ⟨hg, hb, hd⟩ := hl.item hm hf.heads
      have hn : line.indent = margin.length := congrArg List.length hg
      refine ⟨fun other ho => ?_, fun hk other ho _ => ?_⟩
      · obtain rfl := Option.some.inj ho
        exact ⟨hd, Nat.le_of_eq hn⟩
      · obtain rfl := Option.some.inj ho
        rw [Line.scan, hb]
        exact hf.notElse hk _

omit hm hi hp in
theorem blockItems_closed (hc : Closes parent after) (fuel : Nat) (expected : Option Nat) :
    Takes (blockItems (fuel + 1) expected parent kind) after after [] := by
  cases after with
  | nil => rfl
  | cons line rest =>
    obtain ⟨hi, hp⟩ := hc line rfl
    refine .skipIdle_bind hi (.peek_bind ?_)
    dsimp only
    rw [if_pos hp]
    exact .pure []

omit hm hi hp in
theorem blockItems_step {header : Line} {all rest left : List Line} {fuel : Nat}
    {expected : Option Nat} {child : Child} {children : List Child}
    (hl : all.dropWhile Line.isIdle = header :: rest) (hp : parent.any (header.indent ≤ ·) = false)
    (he : expected.getD header.indent = header.indent)
    (hc : Takes (blockItem (blockItems fuel none) kind header) rest left child)
    (hr : Takes (blockItems fuel (some header.indent) parent kind) left after children) :
    Takes (blockItems (fuel + 1) expected parent kind) all after (child :: children) := by
  refine .skipIdle_to hl (.peek_bind ?_)
  dsimp only
  rw [hp, if_neg Bool.false_ne_true, he, if_pos rfl]
  exact .goto_bind (hc.attempt.bind (hr.bind (.pure _)))

/-- A block is read as the children of its items. -/
theorem blockItems_print {fuel : Nat} {expected : Option Nat}
    (he : expected.getD margin.length = margin.length) (hs : Shown (linesOf margin items) lines)
    (hf : lines.length < fuel) (hc : Closes parent after) :
    Takes (blockItems fuel expected parent kind) (lines ++ after) after
      (items.map Item.child) := by
  induction items generalizing lines fuel expected with
  | nil =>
    cases hs
    obtain ⟨fuel, rfl⟩ : ∃ n, fuel = n + 1 := ⟨fuel - 1, by omega⟩
    exact blockItems_closed hc fuel expected
  | cons item items ih =>
    obtain ⟨fuel, rfl⟩ : ∃ n, fuel = n + 1 := ⟨fuel - 1, by omega⟩
    rw [linesOf_cons] at hs
    cases hs with
    | @cons _ _ header lines hl hr =>
      obtain ⟨below, more, rfl, hb, hn⟩ := hr.split
      rw [List.length_cons, List.length_append] at hf
      have hfit := hi item List.mem_cons_self
      have hrest : ∀ other ∈ items, other.Fits kind margin := fun other ho =>
        hi other (List.mem_cons_of_mem item ho)
      obtain ⟨hg, hbody, hd⟩ := hl.item hm hfit.heads
      have hin : header.indent = margin.length := congrArg List.length hg
      have hchild := hfit.reads header below (more ++ after) fuel hg hbody hb (by omega)
        (follows_items hm hrest hp hn hc)
      have hchildren : Takes (blockItems fuel (some margin.length) parent kind) (more ++ after)
          after (items.map Item.child) := ih hrest rfl hn (by omega)
      have hpar : parent.any (header.indent ≤ ·) = false := by
        rw [Option.any_eq_false, hin]
        exact fun n hn => decide_eq_false (Nat.not_le.2 (hp n hn))
      rw [List.cons_append, List.append_assoc]
      refine blockItems_step (List.dropWhile_cons_of_neg (by simp [hd])) hpar ?_ hchild ?_
      · rw [hin, he]
      · rw [hin]
        exact hchildren

end

structure Below (header : Line) (layout : Layout) (after : List Line) : Prop where
  deeper : header.indent < layout.margin.length
  ends : Ends header.indent after

theorem Below.inside {layout : Layout} {header : Line} {after : List Line} (number : Nat)
    (hg : header.margin = layout.margin) (he : Ends layout.margin.length after) :
    Below header (layout.inside number) after := by
  have hi : header.indent = layout.margin.length := congrArg List.length hg
  refine ⟨?_, hi ▸ he⟩
  rw [hi]
  exact layout.deeper [] number

section

variable {kind : BlockKind} {layout : Layout} {items : List Item} {header : Line}
  {lines after : List Line}

theorem hasBlock_print (hb : Below header layout after) (hn : items ≠ [])
    (hi : ∀ item ∈ items, item.Fits kind layout.margin)
    (hs : Shown (linesOf layout.margin items) lines) :
    Takes (hasBlock header) (lines ++ after) (lines ++ after) true := by
  cases items with
  | nil => exact absurd rfl hn
  | cons item items =>
    cases hs with
    | cons hl hr =>
      obtain ⟨hg, _, hd⟩ := hl.item (layout.blank []) (hi item List.mem_cons_self).heads
      exact hasBlock_takes hd (Nat.lt_of_lt_of_eq hb.deeper (congrArg List.length hg).symm)

/-- The block below a header is read as the children of its items. -/
theorem block_print {fuel : Nat} (hb : Below header layout after)
    (hi : ∀ item ∈ items, item.Fits kind layout.margin)
    (hs : Shown (linesOf layout.margin items) lines) (hf : lines.length < fuel) :
    Takes (blockItems fuel none (some header.indent) kind) (lines ++ after) after
      (items.map Item.child) :=
  blockItems_print (layout.blank []) hi (fun _ hn => Option.some.inj hn ▸ hb.deeper) rfl hs hf
    hb.ends.closes

theorem verbatim_print (hb : Below header layout after) (raw : Raw)
    (hs : Shown (raw.print layout.margin) lines) :
    Takes (Verbatim.block header) (lines ++ after) after raw.tree :=
  raw_print (layout.blank []) raw hs hb.deeper hb.ends

theorem linesOf_oneLine (hi : ∀ item ∈ items, item.Fits kind layout.margin) :
    ∀ content ∈ linesOf layout.margin items, OneLine content := by
  intro content hc
  obtain ⟨item, hm, hc⟩ := List.mem_flatMap.1 hc
  have hf := hi item hm
  rcases List.mem_cons.1 hc with rfl | hc
  · exact (margin_oneLine (layout.blank [])).append hf.oneLine
  · exact hf.below content hc

end

section

variable {α : Type} {item : Nat → α → Item}

theorem forall_mem_numbered {P : Item → Prop} {list : List α}
    (h : ∀ number, ∀ a ∈ list, P (item number a)) (number : Nat) :
    ∀ other ∈ numbered item number list, P other := by
  induction list generalizing number with
  | nil => exact nofun
  | cons a rest ih =>
    refine List.forall_mem_cons.2 ⟨h number a List.mem_cons_self, ?_⟩
    exact ih (fun number a ha => h number a (List.mem_cons_of_mem _ ha)) (number + 2)

theorem map_child_numbered (child : α → Child)
    (h : ∀ number a, (item number a).child = child a)
    (number : Nat) (list : List α) :
    (numbered item number list).map Item.child = list.map child := by
  induction list generalizing number with
  | nil => rfl
  | cons a rest ih =>
    rw [numbered, List.map_cons, List.map_cons, h, ih]

theorem numbered_ne_nil {list : List α} (h : list ≠ []) (number : Nat) :
    numbered item number list ≠ [] := by
  cases list with
  | nil => exact absurd rfl h
  | cons a rest => exact List.cons_ne_nil _ _

end

end ArchiveScript.Printing
