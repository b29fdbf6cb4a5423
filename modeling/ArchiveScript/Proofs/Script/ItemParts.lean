import Mathlib
import ArchiveScript.Proofs.Script.ItemLines

/-! # Parts of items

The node for an item is made of what is read on the header, one after the other, and of what is
read from the lines below. The lemmas here put such parts together.
-/

namespace ArchiveScript

open Node (LieInOrder Silent Fills FillAll IsPart IsItem IsValue IsBody IsChild)
open Reader

variable {header line : Line} {below lines taken : List Line} {kind : Kind} {lo : Nat}
  {trail more : Trail} {node : Node} {children items : List Child} {s after : Scan}
  {source : List Char} {place : Option Field}

/-! ### Idle lines before a part -/

theorem Line.Heads.behind_idle (h : header.Heads source (taken ++ lines)) :
    header.Heads source lines ∧
      Line.endOf header.next lines ≤ Line.endOf header.next (taken ++ lines) := by
  have hright := h.follow.right
  have hle := h.left.next_le
  refine ⟨⟨h.fits, h.within, hright.mono hle⟩, ?_⟩
  rw [Line.endOf_append]
  exact hright.endOf_mono hle

theorem Node.IsPart.behind_idle {idle : List Line} (hi : ∀ line ∈ idle, line.isIdle = true)
    (h : node.IsPart header below lo trail) :
    node.IsPart header below lo (⟨[], idle⟩ ++ trail) where
  owns := (Line.Owns.of_idle hi).append h.owns
  capped := h.capped
  lies source hh :=
    have ⟨hheads, hle⟩ := hh.behind_idle
    (h.lies source hheads).mono (Nat.le_refl _) hle
  fills hn whole hw := (h.fills hn whole hw).behind_idle hi

theorem Node.IsItem.behind_idle {idle : List Line} (hi : ∀ line ∈ idle, line.isIdle = true)
    (h : node.IsItem header below lo trail) : node.IsItem header below lo (⟨[], idle⟩ ++ trail) :=
  ⟨h.toIsPart.behind_idle hi, h.begins⟩

theorem Node.IsValue.behind_idle {idle : List Line} (hi : ∀ line ∈ idle, line.isIdle = true)
    (h : node.IsValue header below lo trail) :
    node.IsValue header below lo (⟨[], idle⟩ ++ trail) :=
  ⟨h.toIsItem.behind_idle hi,
    List.forall_mem_append.2 ⟨fun other ho => .inl (hi other ho), h.deeper⟩, h.placed⟩

theorem Node.IsBody.behind_idle {idle : List Line} (hi : ∀ line ∈ idle, line.isIdle = true)
    (h : node.IsBody header below trail) : node.IsBody header below (⟨[], idle⟩ ++ trail) :=
  ⟨h.toIsPart.behind_idle hi,
    List.forall_mem_append.2 ⟨fun other ho => .inl (hi other ho), h.deeper⟩⟩

/-- Mistakes that are noted after an item change nothing. -/
theorem Node.IsItem.noting (h : node.IsItem header below lo trail) (mistakes : List Mistake) :
    node.IsItem header below lo (trail ++ ⟨mistakes, []⟩) := by
  have ht : (trail ++ ⟨mistakes, []⟩).taken = trail.taken := List.append_nil _
  refine ⟨⟨?_, h.capped, ?_, fun hn => ?_⟩, h.begins⟩
  · rw [ht]
    exact h.owns
  · rw [ht]
    exact h.lies
  · rw [ht]
    exact h.fills (List.append_eq_nil_iff.1 hn).1

/-! ### Earlier beginnings -/

theorem Node.IsPart.mono {earlier : Nat} (h : node.IsPart header below lo trail)
    (hle : earlier ≤ lo) : node.IsPart header below earlier trail :=
  { h with lies := fun source hh => (h.lies source hh).mono hle (Nat.le_refl _) }

theorem Node.IsItem.mono {earlier : Nat} (h : node.IsItem header below lo trail)
    (hle : earlier ≤ lo) : node.IsItem header below earlier trail :=
  ⟨h.toIsPart.mono hle, h.begins⟩

theorem Node.IsValue.mono {earlier : Nat} (h : node.IsValue header below lo trail)
    (hle : earlier ≤ lo) : node.IsValue header below earlier trail :=
  ⟨h.toIsItem.mono hle, h.deeper, h.placed⟩

theorem AreParts.mono {earlier : Nat} (h : AreParts header below kind lo trail children)
    (hle : earlier ≤ lo) : AreParts header below kind earlier trail children :=
  { h with lies := fun source hh => (h.lies source hh).mono hle (Nat.le_refl _) }

/-! ### Parts on the header -/

theorem Scan.Advances.pos_le_next (ha : header.scan.Advances s) : s.pos ≤ header.next := by
  have hstop : s.limit = header.stop := ha.limit_eq
  exact Nat.le_trans s.pos_le_limit (hstop ▸ header.stop_le_next)

theorem Scan.Phrases.isValue (h : s.Phrases (node, after)) (ha : header.scan.Advances s) :
    node.IsValue header below s.pos .none := by
  refine ⟨⟨⟨.nil, h.silent.capped, fun source hh => ?_, fun _ _ _ => h.silent.fills⟩,
    .inr (h.begins.holds ha)⟩, List.forall_mem_nil _, .held (.inl rfl) (h.begins.holds ha)⟩
  have hl := h.lies source hh.fits (ha.within hh.within.scan)
  exact hl.mono (Nat.le_refl _) (ha.trans h.advances).pos_le_next

theorem Scan.PhrasesAll.holds (h : s.PhrasesAll (children, after)) (ha : header.scan.Advances s) :
    ∀ child ∈ children, header.Holds child.2.span :=
  fun _ hm => (h.begins hm).holds ha

namespace AreParts

theorem nil (ha : header.scan.Advances s) : AreParts header below kind s.pos .none [] where
  owns := .nil
  capped := List.forall_mem_nil _
  lies _ _ := ha.pos_le_next
  fills _ _ _ := .nil

/-- Parts that were read on the header come before the others. -/
theorem headings {parts : List Child} (ha : header.scan.Advances s)
    (hp : s.PhrasesAll (parts, after)) (hk : kind.listsItems = false)
    (hc : AreParts header below kind after.pos trail children) :
    AreParts header below kind s.pos trail (parts ++ children) where
  owns := hc.owns
  capped := List.forall_mem_append.2 ⟨fun part hm => (hp.silent part hm).2.capped, hc.capped⟩
  lies source hh := (hp.lies source hh.fits (ha.within hh.within.scan)).append (hc.lies source hh)
  fills hn whole hw := by
    have hheld := hp.holds ha
    have hsilent := hp.silent
    clear hp
    induction parts with
    | nil => exact hc.fills hn whole hw
    | cons part parts ih =>
      obtain ⟨hholds, hheld⟩ := List.forall_mem_cons.1 hheld
      obtain ⟨⟨hplace, hpart⟩, hsilent⟩ := List.forall_mem_cons.1 hsilent
      exact .heading hk hplace hpart hholds (ih hheld hsilent)

theorem heading {last : Scan} (ha : header.scan.Advances s) (hn : s.Phrases (node, last))
    (hp : place ≠ some .alternative) (hk : kind.listsItems = false)
    (hc : AreParts header below kind last.pos trail children) :
    AreParts header below kind s.pos trail ((place, node) :: children) :=
  headings ha (.single hn hp) hk hc

theorem single (hn : node.IsPart header below lo trail) (hp : place ≠ some .alternative)
    (hk : kind.hasParts = true) : AreParts header below kind lo trail [(place, node)] where
  owns := hn.owns
  capped := List.forall_mem_singleton.2 hn.capped
  lies source hh := .singleton (hn.lies source hh)
  fills hnone whole hw := .single hk hp (hn.fills hnone whole hw)

theorem pair {value : Node} {place' : Option Field} (ha : header.scan.Advances s)
    (hn : s.Phrases (node, after)) (hv : value.IsPart header below lo trail) (hlo : after.pos ≤ lo)
    (hp : place ≠ some .alternative) (hp' : place' ≠ some .alternative)
    (hk : kind.hasParts = true) :
    AreParts header below kind s.pos trail [(place, node), (place', value)] :=
  heading ha hn hp (Kind.hasParts_iff.1 hk).2.1 ((single hv hp' hk).mono hlo)

theorem ofBlock {inner : BlockKind} {indent : Nat}
    (hi : IsBlock indent inner (below.dropWhile Line.isIdle) trail items)
    (hdeep : header.indent ≤ indent) (hlo : lo ≤ header.next)
    (hk : kind.listsItems = true ∨ kind.ownsItems = true) :
    AreParts header below kind lo trail items where
  owns := .of_below fun other ho => (hi.deeper other ho).mono hdeep
  capped := hi.capped
  lies source hh :=
    (hi.lies source header.next hh.fits hh.follow).mono hlo (Nat.le_refl _)
  fills hn whole hw := by
    refine hi.fills hn whole ?_ _ _ hk
    exact (List.dropWhile_suffix _).trans ((List.suffix_cons header below).trans hw)

theorem branches {left : List Line} (hl : below = trail.taken ++ left)
    (hn : node.IsPart header below lo trail) (hp : place ≠ some .alternative)
    (hb : IsBranch header left more children) :
    AreParts header below .conditional lo (trail ++ more) ((place, node) :: children) where
  owns := hn.owns.append hb.owns
  capped := List.forall_mem_cons.2 ⟨hn.capped, hb.capped⟩
  lies source hh := by
    rw [Trail.taken_append, Line.endOf_append]
    exact .cons (hn.lies source hh.left) (hb.lies source _ hh.fits hh.follow.right)
  fills hnone whole hw := by
    obtain ⟨hnone, hnone'⟩ := List.append_eq_nil_iff.1 hnone
    have hleft : left <:+ whole :=
      (hl ▸ List.suffix_append trail.taken left).trans ((List.suffix_cons header below).trans hw)
    exact .part rfl hp (hn.fills hnone whole hw) (hb.fills hnone' whole hleft)

theorem around (hc : AreParts header below kind s.pos trail children)
    (ha : header.scan.Advances s) (h : s.Advances after) (hk : kind ≠ .raw) :
    (Node.spanning kind s.pos after.pos children).IsItem header below s.pos trail := by
  refine ⟨⟨hc.owns, Span.stop_between_le_max _ _, fun source hh => ?_, fun hn whole hw => ?_⟩,
    .inr ((Scan.begins_spanning h kind hc.capped).holds ha)⟩
  · have hstart := ha.within hh.within.scan
    exact Node.lies_spanning hh.fits kind hstart.boundary (h.within hstart).boundary h.pos_le
      (Nat.le_trans (ha.trans h).pos_le_next hh.next_le) (hc.lies source hh)
  · exact (hc.fills hn whole hw).spanning hk _ _

theorem whole (hc : AreParts header below kind lo trail children) (hlo : header.bodyStart ≤ lo)
    (hk : kind ≠ .raw) :
    (Node.spanning kind header.bodyStart header.trimmedStop children).IsItem header below
      header.bodyStart trail := by
  obtain ⟨rest, hr⟩ := header.reads_trimmed
  exact (hc.mono hlo).around (s := header.scan) (.refl _) hr.advances hk

end AreParts

/-! ### Blocks below the header -/

theorem AreItems.nil {idle : List Line} (hi : ∀ line ∈ idle, line.isIdle = true) :
    AreItems lines ⟨[], idle⟩ [] where
  capped := List.forall_mem_nil _
  lies _ _ _ hf := hf.le_endOf
  fills _ whole _ := by
    have h : Node.AreItems whole (idle ++ []) [] := Node.AreItems.nil.behind_idle hi
    rwa [List.append_nil] at h

/-- A node around items begins where the first of them does. -/
theorem Node.LieInOrder.aroundItems {hi : Nat} (hc : LieInOrder source lo hi items)
    (hs : Text.bytes source ≤ Span.maxOffset) (hh : header.Within source)
    (hlo : header.next ≤ lo) :
    (Node.spanning kind (startOf Node.span header items) (startOf Node.span header items)
      items).Lies source header.next hi := by
  cases items with
  | nil =>
    have hb := hh.next_boundary
    have hle := Nat.le_trans hlo hc.le
    exact Node.lies_spanning hs kind hb hb (Nat.le_refl _) hle hle
  | cons item rest =>
    have hb := hc.1.span.start_boundary
    have hc' : LieInOrder source item.2.span.start hi (item :: rest) :=
      ⟨⟨hc.1.fits, Nat.le_refl _, hc.1.le_hi⟩, hc.2⟩
    have hn := Node.lies_spanning hs kind hb hb (Nat.le_refl _) hc'.le hc'
    exact hn.mono (Nat.le_trans hlo hc.1.lo_le) (Nat.le_refl _)

theorem IsBlock.isBody {inner : BlockKind} {indent : Nat}
    (hi : IsBlock indent inner (below.dropWhile Line.isIdle) trail items)
    (hdeep : header.indent ≤ indent) (hk : kind.listsItems = true) (hne : kind ≠ .raw) :
    (Node.spanning kind (startOf Node.span header items) (startOf Node.span header items)
      items).IsBody header below trail := by
  have hc : AreParts header below kind header.next trail items :=
    .ofBlock hi hdeep (Nat.le_refl _) (.inl hk)
  refine ⟨⟨hc.owns, Span.stop_between_le_max _ _, fun source hh => ?_, fun hn whole hw => ?_⟩,
    fun other ho => (hi.deeper other ho).mono hdeep⟩
  · exact (hc.lies source hh).aroundItems hh.fits hh.within (Nat.le_refl _)
  · exact (hc.fills hn whole hw).spanning hne _ _

end ArchiveScript
