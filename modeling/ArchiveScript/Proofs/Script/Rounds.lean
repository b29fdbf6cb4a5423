import Mathlib
import ArchiveScript.Proofs.Script.Loops
import ArchiveScript.Proofs.Script.Trials

/-! # Rounds of blocks

The items of a block are read one after the other, each at a later line, and so are the blocks
inside them. What is read in a round depends only on what is read at later lines, so what holds of
blocks can be shown round by round.
-/

namespace ArchiveScript

open Reader

structure BlockState where
  /-- The indentation of the items, once it is known. -/
  expected : Option Nat
  /-- The indentation of the header, if there is one. -/
  parent : Option Nat
  kind : BlockKind
  lines : List Line

namespace BlockState

def Later (state next : BlockState) : Prop :=
  next.lines <:+ state.lines ∧ next.lines.length < state.lines.length

/-- A block is read whatever its lines are, and it takes none that is not below its header. -/
def Leads (state : BlockState) (passage : Passage (List Child)) : Prop :=
  (∃ items, passage.outcome = .ok items) ∧ ∃ taken, state.lines = taken ++ passage.left ∧
    ∀ indent ∈ state.parent, ∀ line ∈ taken, line.Below indent

def item (read : BlockState → Passage (List Child)) (state : BlockState) (line : Line) :
    Reader Child :=
  headItem (fun parent kind lines => read ⟨none, parent, kind, lines⟩) state.expected state.kind
    line

def after (state : BlockState) (line : Line) (below : List Line) (passage : Passage Child) :
    BlockState where
  expected := some (state.expected.getD line.indent)
  parent := state.parent
  kind := state.kind
  lines := match passage.outcome with
    | .ok _ => passage.left
    | .error _ => recover line.indent below

/-- One round of reading the items of a block. -/
def round (read : BlockState → Passage (List Child)) (state : BlockState) : Passage (List Child) :=
  match state.lines.dropWhile Line.isIdle with
  | [] => ⟨.ok [], [], []⟩
  | line :: below =>
    if state.parent.any (line.indent ≤ ·) then ⟨.ok [], [], line :: below⟩
    else
      let passage := state.item read line below
      let items := read (state.after line below passage)
      match passage.outcome with
      | .ok child => ⟨items.outcome.map (child :: ·), passage.noted ++ items.noted, items.left⟩
      | .error mistake => ⟨items.outcome, passage.noted ++ mistake :: items.noted, items.left⟩

/-- The items of a block, of which no more than `fuel` lines are looked at. -/
def bounded (fuel : Nat) (state : BlockState) : Passage (List Child) :=
  blockItems (r := Reader) fuel state.expected state.parent state.kind state.lines

def read (state : BlockState) : Passage (List Child) := bounded state.lines.length state

variable {state next : BlockState} {line : Line} {below : List Line}
  {rest rest' : BlockState → Passage (List Child)}

theorem bounded_succ (fuel : Nat) (state : BlockState) :
    bounded (fuel + 1) state = round (bounded fuel) state := by
  unfold round
  rw [bounded, blockItems_succ]
  cases state.lines.dropWhile Line.isIdle with
  | nil => rfl
  | cons line below =>
    dsimp only
    split
    · rfl
    · change proceed _ _ (state.item (bounded fuel) line below) = _
      unfold proceed after
      cases (state.item (bounded fuel) line below).outcome <;> rfl

theorem bounded_leads (fuel : Nat) (state : BlockState) (hf : state.lines.length ≤ fuel) :
    state.Leads (bounded fuel state) := by
  obtain ⟨⟨items, hi, -⟩, -, -, taken, hl, hbelow, -⟩ :=
    triedItems_tries fuel state.expected state.parent state.kind state.lines hf
  exact ⟨⟨items, hi⟩, taken, hl, hbelow⟩

theorem read_leads (state : BlockState) : state.Leads (read state) :=
  bounded_leads _ state (Nat.le_refl _)

theorem below_later (h : state.lines.dropWhile Line.isIdle = line :: below)
    (hs : next.lines <:+ below) : state.Later next := by
  have hd := List.dropWhile_suffix (l := state.lines) Line.isIdle
  rw [h] at hd
  refine ⟨hs.trans ((List.suffix_cons line below).trans hd), ?_⟩
  have hlength := hd.length_le
  rw [List.length_cons] at hlength
  exact Nat.lt_of_le_of_lt hs.length_le hlength

/-- The plain and the traced reading are the same. -/
def everything : Trace where
  mark := Line.trial
  isMark _ := false
  isKept _ := true
  isMark_field _ _ := rfl

theorem Leads.traces {indent : Nat} {passage : Passage (List Child)} (h : state.Leads passage)
    (hp : state.parent = some indent) :
    passage.Traces everything state.lines (fun _ => False)
      (fun taken => ∀ line ∈ taken, line.Below indent) passage := by
  obtain ⟨⟨items, hi⟩, taken, hl, hbelow⟩ := h
  constructor
  · rfl
  · rfl
  · rfl
  · intro _ _
    exact ⟨taken, hl, hbelow indent hp, Trace.covers_of_filter taken (by simp [everything])⟩
  · intro mistake hm
    rw [hi] at hm
    cases hm

theorem eq_of_traces {α : Type} {lines : List Line} {F P : List Line → Prop}
    {passage passage' : Passage α} (h : passage.Traces everything lines F P passage') :
    passage = passage' := by
  obtain ⟨outcome, noted, left⟩ := passage
  obtain ⟨outcome', noted', left'⟩ := passage'
  obtain ⟨houtcome, hleft, hkept, -, -⟩ := h
  simp only [everything, List.filter_true] at houtcome hleft hkept
  rw [houtcome, hleft, hkept]

/-- An item depends on the blocks at the lines below its header only, and it is followed by some
of these lines. -/
theorem item_congr (state : BlockState) (line : Line)
    (h : ∀ next : BlockState, next.lines <:+ below →
      rest next = rest' next ∧ next.Leads (rest next)) :
    state.item rest line below = state.item rest' line below ∧
      (state.after line below (state.item rest line below)).lines <:+ below := by
  have hb : TracesBlocks everything below
      (fun parent kind lines => rest ⟨none, parent, kind, lines⟩)
      (fun parent kind lines => rest' ⟨none, parent, kind, lines⟩) := by
    intro indent kind lines hl
    obtain ⟨hsame, hleads⟩ := h ⟨none, some indent, kind, lines⟩ hl
    unfold Reader.Traces
    dsimp only
    rw [← hsame]
    exact hleads.traces rfl
  have hitem := headItem_traces hb state.expected state.kind line
  constructor
  · exact eq_of_traces hitem
  · unfold after
    dsimp only
    split
    · rename_i child hc
      obtain ⟨taken, hl, -, -⟩ := hitem.read child hc
      exact ⟨taken, hl.symm⟩
    · exact List.dropWhile_suffix _

/-- The items of a block are read one by one, each of them later than the one before it, and so are
the blocks inside of an item. -/
theorem bounded_settles :
    Settles Later Leads round bounded fun state => state.lines.length := by
  apply Settles.of_bounded
  case hsize => exact fun h => h.2
  case honward =>
    intro rest rest' state h
    unfold round
    cases hl : state.lines.dropWhile Line.isIdle with
    | nil => rfl
    | cons line below =>
      obtain ⟨hitem, hafter⟩ := item_congr state line fun next hn => h next (below_later hl hn)
      dsimp only
      split
      · rfl
      · rw [← hitem, (h _ (below_later hl hafter)).1]
  case hleads => exact bounded_leads
  case hzero =>
    intro rest state hs
    rw [List.length_eq_zero_iff] at hs
    simp only [bounded, round, blockItems, hs]
    rfl
  case hsucc => exact bounded_succ

/-- An item that is read, and one that is passed over, is followed by later lines. -/
theorem after_later (state : BlockState)
    (h : state.lines.dropWhile Line.isIdle = line :: below) :
    state.Later (state.after line below (state.item read line below)) := by
  exact below_later h (item_congr state line fun next _ => ⟨rfl, read_leads next⟩).2

theorem read_topItems (lines : List Line) : read ⟨none, none, .topLevel, lines⟩ = topItems lines :=
  (bounded_settles.enough _ ⟨none, none, .topLevel, lines⟩ (Nat.le_succ _)).symm

def blocks : BlockReader Reader Node := fun parent kind lines => read ⟨none, parent, kind, lines⟩

theorem blocks_trace (below : List Line) : TracesBlocks everything below blocks blocks := by
  intro indent kind lines _
  exact (read_leads ⟨none, some indent, kind, lines⟩).traces rfl

end BlockState

end ArchiveScript
