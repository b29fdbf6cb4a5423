import ArchiveScript.Proofs.Tree.Reach

/-! # Spans of trees

The spans of a tree nest if those of the children of each node are inside the node's span, one
after the other, and all spans begin and end with characters of the source. The nodes of a tree
are laid one after the other in the order of the source.
-/

namespace ArchiveScript

/-- A character of the text begins at the offset, or the text ends there. -/
def Text.Boundary (source : List Char) (offset : Nat) : Prop :=
  ∃ before after, source = before ++ after ∧ Text.bytes before = offset

theorem Text.Boundary.le {source : List Char} {offset : Nat} (h : Text.Boundary source offset) :
    offset ≤ Text.bytes source := by
  obtain ⟨before, after, rfl, rfl⟩ := h
  rw [Text.bytes_append]
  omega

namespace Node

/-- The span of a node begins and ends with characters of the source, and the spans of its
children are inside it, one after the other. -/
structure SpanFits (source : List Char) (node : Node) : Prop where
  start_le_stop : node.span.start ≤ node.span.stop
  stop_le : node.span.stop ≤ Text.bytes source
  start_boundary : Text.Boundary source node.span.start
  stop_boundary : Text.Boundary source node.span.stop
  inside : ∀ child ∈ node.children,
    node.span.start ≤ child.2.span.start ∧ child.2.span.stop ≤ node.span.stop
  ordered : node.children.Pairwise fun child next => child.2.span.stop ≤ next.2.span.start

/-- The spans in the tree nest, and the tree lies between two offsets. -/
structure Lies (source : List Char) (lo hi : Nat) (node : Node) : Prop where
  fits : ∀ other, node.Reaches other → other.SpanFits source
  lo_le : lo ≤ node.span.start
  le_hi : node.span.stop ≤ hi

def LieInOrder (source : List Char) (lo hi : Nat) : List Child → Prop
  | [] => lo ≤ hi
  | child :: rest => child.2.Lies source lo hi ∧ LieInOrder source child.2.span.stop hi rest

variable {source : List Char} {lo hi : Nat} {node : Node} {children more : List Child}

theorem Lies.span (h : node.Lies source lo hi) : node.SpanFits source := h.fits node (.refl node)

theorem Lies.mono {lo' hi' : Nat} (h : node.Lies source lo hi) (hl : lo' ≤ lo) (hh : hi ≤ hi') :
    node.Lies source lo' hi' :=
  ⟨h.fits, Nat.le_trans hl h.lo_le, Nat.le_trans h.le_hi hh⟩

theorem LieInOrder.mono {lo' hi' : Nat} (h : LieInOrder source lo hi children) (hl : lo' ≤ lo)
    (hh : hi ≤ hi') : LieInOrder source lo' hi' children := by
  induction children generalizing lo lo' with
  | nil => exact Nat.le_trans hl (Nat.le_trans h hh)
  | cons child rest ih => exact ⟨h.1.mono hl hh, ih h.2 (Nat.le_refl _)⟩

theorem LieInOrder.le (h : LieInOrder source lo hi children) : lo ≤ hi := by
  cases children with
  | nil => exact h
  | cons child rest =>
    exact Nat.le_trans h.1.lo_le (Nat.le_trans h.1.span.start_le_stop h.1.le_hi)

theorem LieInOrder.mem (h : LieInOrder source lo hi children) :
    ∀ child ∈ children, child.2.Lies source lo hi := by
  induction children generalizing lo with
  | nil => simp
  | cons first rest ih =>
    intro child hc
    rcases List.mem_cons.1 hc with rfl | hc
    · exact h.1
    · exact (ih h.2 child hc).mono (Nat.le_trans h.1.lo_le h.1.span.start_le_stop) (Nat.le_refl _)

theorem LieInOrder.pairwise (h : LieInOrder source lo hi children) :
    children.Pairwise fun child next => child.2.span.stop ≤ next.2.span.start := by
  induction children generalizing lo with
  | nil => exact .nil
  | cons first rest ih =>
    constructor
    · intro next hn
      exact (h.2.mem next hn).lo_le
    · exact ih h.2

theorem LieInOrder.append {middle : Nat} (h : LieInOrder source lo middle children)
    (h' : LieInOrder source middle hi more) : LieInOrder source lo hi (children ++ more) := by
  induction children generalizing lo with
  | nil => exact h'.mono h (Nat.le_refl _)
  | cons child rest ih => exact ⟨h.1.mono (Nat.le_refl _) h'.le, ih h.2⟩

theorem LieInOrder.cons {middle : Nat} {place : Option Field} (h : node.Lies source lo middle)
    (h' : LieInOrder source middle hi more) : LieInOrder source lo hi ((place, node) :: more) :=
  ⟨h.mono (Nat.le_refl _) h'.le, h'.mono h.le_hi (Nat.le_refl _)⟩

theorem LieInOrder.singleton {place : Option Field} (h : node.Lies source lo hi) :
    LieInOrder source lo hi [(place, node)] :=
  ⟨h, h.le_hi⟩

def furthest (stop : Nat) (children : List Child) : Nat :=
  children.foldl (fun furthest child => max furthest child.2.span.stop) stop

theorem le_furthest (stop : Nat) (children : List Child) : stop ≤ furthest stop children := by
  induction children generalizing stop with
  | nil => exact Nat.le_refl stop
  | cons child rest ih => exact Nat.le_trans (Nat.le_max_left ..) (ih _)

theorem stop_le_furthest (stop : Nat) {child : Child} (h : child ∈ children) :
    child.2.span.stop ≤ furthest stop children := by
  induction children generalizing stop with
  | nil => cases h
  | cons first rest ih =>
    rcases List.mem_cons.1 h with rfl | h
    · exact Nat.le_trans (Nat.le_max_right ..) (le_furthest _ rest)
    · exact ih _ h

theorem furthest_cases (stop : Nat) (children : List Child) :
    furthest stop children = stop ∨
      ∃ child ∈ children, furthest stop children = child.2.span.stop := by
  induction children generalizing stop with
  | nil => exact .inl rfl
  | cons child rest ih =>
    rw [furthest, List.foldl_cons]
    rcases ih (max stop child.2.span.stop) with h | ⟨other, ho, h⟩
    · change furthest _ rest = _ ∨ _
      rw [h]
      rcases Nat.le_total stop child.2.span.stop with hs | hs
      · exact .inr ⟨child, List.mem_cons_self, h.trans (Nat.max_eq_right hs)⟩
      · exact .inl (Nat.max_eq_left hs)
    · exact .inr ⟨other, List.mem_cons_of_mem child ho, h⟩

theorem fits_of_children (h : node.SpanFits source)
    (hc : ∀ child ∈ node.children, ∀ other, child.2.Reaches other → other.SpanFits source) :
    ∀ other, node.Reaches other → other.SpanFits source := by
  intro other hr
  cases hr with
  | refl _ => exact h
  | step hm hr => exact hc _ hm _ hr

/-- A node around children that lie in order, up to at least `stop`. -/
theorem lies_spanning (hs : Text.bytes source ≤ Span.maxOffset) (kind : Kind) {start stop : Nat}
    (hb : Text.Boundary source start) (hb' : Text.Boundary source stop) (hle : start ≤ stop)
    (hh : stop ≤ hi) (hc : LieInOrder source start hi children) :
    (spanning kind start stop children).Lies source start hi := by
  have hf : Text.Boundary source (furthest stop children) ∧ furthest stop children ≤ hi := by
    rcases furthest_cases stop children with h | ⟨child, hm, h⟩
    · rw [h]
      exact ⟨hb', hh⟩
    · rw [h]
      exact ⟨(hc.mem child hm).span.stop_boundary, (hc.mem child hm).le_hi⟩
  have hspan : (spanning kind start stop children).span = ⟨start, furthest stop children⟩ :=
    Span.between_eq (Nat.le_trans hb.le hs) (Nat.le_trans hf.1.le hs)
  constructor
  · apply fits_of_children
    · constructor
      · rw [hspan]
        exact Nat.le_trans hle (le_furthest stop children)
      · rw [hspan]
        exact hf.1.le
      · rw [hspan]
        exact hb
      · rw [hspan]
        exact hf.1
      · intro child hm
        rw [hspan]
        exact ⟨(hc.mem child hm).lo_le, stop_le_furthest stop hm⟩
      · exact hc.pairwise
    · intro child hm
      exact (hc.mem child hm).fits
  · exact Nat.le_of_eq (congrArg Span.start hspan).symm
  · rw [hspan]
    exact hf.2

theorem lies_leaf (hs : Text.bytes source ≤ Span.maxOffset) (kind : Kind) {start : Nat}
    {text : List Char} (hb : Text.Boundary source start)
    (hb' : Text.Boundary source (start + Text.bytes text)) :
    (leaf kind start text).Lies source start (start + Text.bytes text) := by
  have hspan : (leaf kind start text).span = ⟨start, start + Text.bytes text⟩ :=
    Span.between_eq (Nat.le_trans hb.le hs) (Nat.le_trans hb'.le hs)
  constructor
  · apply fits_of_children
    · constructor
      · rw [hspan]
        exact Nat.le_add_right _ _
      · rw [hspan]
        exact hb'.le
      · rw [hspan]
        exact hb
      · rw [hspan]
        exact hb'
      · intro child hm
        cases hm
      · exact .nil
    · intro child hm
      cases hm
  · exact Nat.le_of_eq (congrArg Span.start hspan).symm
  · exact Nat.le_of_eq (congrArg Span.stop hspan)

end Node

end ArchiveScript
