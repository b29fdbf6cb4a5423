import Mathlib.Data.List.Forall2
import ArchiveScript.Proofs.Tree.Spans

/-! # Alike trees

A text can be laid out in several ways: at another place of a file, with other line ends, behind
a margin. The trees that are read from two layouts are alike. Only their spans and the literal
pieces of their templates are different, and these stand for each other.
-/

namespace ArchiveScript

namespace Span

theorem start_between_le (start stop : Nat) : (between start stop).start ≤ start := by
  unfold between ofOffsets
  split_ifs
  · exact Nat.zero_le _
  · exact Nat.zero_le _
  · exact Nat.le_refl _

theorem stop_between_le (start stop : Nat) : (between start stop).stop ≤ stop := by
  unfold between ofOffsets
  split_ifs
  · exact Nat.zero_le _
  · exact Nat.zero_le _
  · exact Nat.le_refl _

end Span

/-- How two layouts correspond: which offsets and which literal pieces stand for each other, and
the margin that every line has in addition in the second layout. -/
structure Likeness where
  offset : Nat → Nat → Prop
  literal : List Char → List Char → Prop
  margin : List Char
  /-- What is known of the texts of the first layout, each with the offset of its first byte. -/
  covers : Nat → List Char → Prop
  /-- The texts of the trees are only compared under this condition. -/
  fits : Prop
  offset_max : ∀ {a b c d}, offset a b → offset c d → offset (max a c) (max b d)
  offset_start : ∀ {a b c d}, offset a b → offset c d →
    offset (Span.between a c).start (Span.between b d).start
  offset_stop : ∀ {a b c d}, offset a b → offset c d →
    offset (Span.between a c).stop (Span.between b d).stop
  literal_refl : ∀ text, literal text text
  literal_isEmpty : ∀ {text other}, literal text other → other.isEmpty = text.isEmpty
  covers_nil : ∀ start, covers start []

def Likeness.ofOffsets (offset : Nat → Nat → Prop) (margin : List Char) (fits : Prop)
    (hmax : ∀ {a b c d}, offset a b → offset c d → offset (max a c) (max b d))
    (hstart : ∀ {a b c d}, offset a b → offset c d →
      offset (Span.between a c).start (Span.between b d).start)
    (hstop : ∀ {a b c d}, offset a b → offset c d →
      offset (Span.between a c).stop (Span.between b d).stop) :
    Likeness where
  offset := offset
  literal text other := other = text
  margin := margin
  covers _ _ := True
  fits := fits
  offset_max := hmax
  offset_start := hstart
  offset_stop := hstop
  literal_refl _ := rfl
  literal_isEmpty h := by rw [h]
  covers_nil _ := trivial

/-- The same layouts, with more known of the texts of the first one. -/
def Likeness.covering (L : Likeness) (covers : Nat → List Char → Prop)
    (hnil : ∀ start, covers start []) : Likeness :=
  { L with
    covers := covers
    covers_nil := hnil }

/-- A text that is in reach of a span in one of the layouts is so in the other one, too. -/
class Likeness.Reaches (L : Likeness) : Prop where
  offset : L.fits → ∀ {a b}, L.offset a b → (a ≤ Span.maxOffset ↔ b ≤ Span.maxOffset)

variable {L : Likeness}

structure Likeness.Texts (L : Likeness) (kind : Kind) (text text' : String) : Prop where
  same : kind ≠ .rawContent → text' = text
  literal : L.literal text.toList text'.toList

theorem Likeness.Texts.refl (kind : Kind) (text : String) : L.Texts kind text text :=
  ⟨fun _ => rfl, L.literal_refl _⟩

structure Likeness.Piece (L : Likeness) (kind : Kind) (start start' : Nat)
    (text text' : List Char) : Prop where
  begins : L.offset start start'
  ends : L.offset (start + Text.bytes text) (start' + Text.bytes text')
  same : kind ≠ .rawContent → text' = text
  literal : L.literal text text'
  covers : L.covers start text

structure Span.Alike (L : Likeness) (span span' : Span) : Prop where
  start : L.offset span.start span'.start
  stop : L.offset span.stop span'.stop

theorem Span.alike_between {start start' stop stop' : Nat} (h : L.offset start start')
    (h' : L.offset stop stop') : Alike L (between start stop) (between start' stop') :=
  ⟨L.offset_start h h', L.offset_stop h h'⟩

namespace Node

mutual

/-- The nodes are of the same kind and have texts that stand for each other, and their children are
alike. -/
inductive Alike (L : Likeness) : Node → Node → Prop
  | mk {kind : Kind} {span span' : Span} {text text' : String}
      {children children' : List (Option Field × Node)} (hs : span.Alike L span')
      (ht : L.fits → L.Texts kind text text') (hc : AllAlike L children children') :
      Alike L (.mk kind span text children) (.mk kind span' text' children')

inductive AllAlike (L : Likeness) :
    List (Option Field × Node) → List (Option Field × Node) → Prop
  | nil : AllAlike L [] []
  | cons {place : Option Field} {child child' : Node} {rest rest' : List (Option Field × Node)}
      (hp : place = none ∨ (L.fits → child'.text = child.text)) (hc : Alike L child child')
      (hr : AllAlike L rest rest') :
      AllAlike L ((place, child) :: rest) ((place, child') :: rest')

end

namespace Alike

variable {node node' : Node}

theorem kind (h : Alike L node node') : node'.kind = node.kind := by
  cases h
  rfl

theorem span (h : Alike L node node') : node.span.Alike L node'.span := by
  cases h with
  | mk hs => exact hs

theorem texts (h : Alike L node node') (hf : L.fits) : L.Texts node.kind node.text node'.text := by
  cases h with
  | mk _ ht => exact ht hf

theorem text (h : Alike L node node') (hf : L.fits) (hk : node.kind ≠ .rawContent) :
    node'.text = node.text :=
  (h.texts hf).same hk

theorem children (h : Alike L node node') : AllAlike L node.children node'.children := by
  cases h with
  | mk _ _ hc => exact hc

end Alike

structure Paired (L : Likeness) (node node' : Node) : Prop where
  alike : node.Alike L node'
  same : L.fits → node'.text = node.text

namespace AllAlike

variable {children children' more more' : List Child}

theorem forall₂ (h : AllAlike L children children') :
    List.Forall₂ (fun child child' => child.2.Alike L child'.2) children children' := by
  induction children generalizing children' with
  | nil =>
    cases h
    exact .nil
  | cons child rest ih =>
    cases h with
    | cons _ hc hr => exact .cons hc (ih hr)

theorem find (h : AllAlike L children children') (field : Field) :
    Option.Rel (Paired L) ((children.find? (·.1 == some field)).map (·.2))
      ((children'.find? (·.1 == some field)).map (·.2)) := by
  induction children generalizing children' with
  | nil =>
    cases h
    exact .none
  | cons child rest ih =>
    cases h with
    | @cons place _ _ _ _ hp hc hr =>
      rw [List.find?_cons, List.find?_cons]
      cases hf : place == some field with
      | true =>
        have hne : place ≠ none := by
          rintro rfl
          cases hf
        exact .some ⟨hc, hp.resolve_left hne⟩
      | false => exact ih hr

theorem furthest (h : AllAlike L children children') {stop stop' : Nat}
    (hs : L.offset stop stop') :
    L.offset (Node.furthest stop children) (Node.furthest stop' children') := by
  induction children generalizing children' stop stop' with
  | nil =>
    cases h
    exact hs
  | cons child rest ih =>
    cases h with
    | cons _ hc hr => exact ih hr (L.offset_max hs hc.span.stop)

end AllAlike

theorem Alike.field? {node node' : Node} (h : node.Alike L node') (field : Field) :
    Option.Rel (Paired L) (node.field? field) (node'.field? field) :=
  h.children.find field

theorem Alike.first? {node node' : Node} (h : node.Alike L node') :
    Option.Rel (Alike L) node.first? node'.first? := by
  have hc := h.children.forall₂
  unfold Node.first?
  generalize node.children = children at hc
  generalize node'.children = children' at hc
  cases hc with
  | nil => exact .none
  | cons hn _ => exact .some hn

theorem alike_spanning {kind : Kind} {start start' stop stop' : Nat}
    {children children' : List Child} (hs : L.offset start start') (ht : L.offset stop stop')
    (hc : AllAlike L children children') :
    Alike L (spanning kind start stop children) (spanning kind start' stop' children') :=
  .mk (Span.alike_between hs (hc.furthest ht)) (fun _ => .refl kind "") hc

theorem alike_leaf [L.Reaches] {kind : Kind} {start start' : Nat} {text text' : List Char}
    (h : L.Piece kind start start' text text') :
    Alike L (leaf kind start text) (leaf kind start' text') := by
  refine .mk (Span.alike_between h.begins h.ends) (fun hf => ?_) .nil
  simp only [Likeness.Reaches.offset hf h.ends]
  split
  · refine ⟨fun hk => by rw [h.same hk], ?_⟩
    rw [String.toList_ofList, String.toList_ofList]
    exact h.literal
  · exact .refl kind ""

mutual

theorem Alike.height {node node' : Node} : Alike L node node' → node'.height = node.height
  | .mk _ _ hc => by rw [Node.height, Node.height, hc.heights]

theorem AllAlike.heights {children children' : List (Option Field × Node)} :
    AllAlike L children children' → Node.heights children' = Node.heights children
  | .nil => rfl
  | .cons _ hc hr => by rw [Node.heights, Node.heights, hc.height, hr.heights]

end

mutual

/-- An s-expression shows neither spans nor texts. -/
theorem Alike.sexp {node node' : Node} : Alike L node node' → node'.sexp = node.sexp
  | .mk _ _ hc => by rw [Node.sexp, Node.sexp, hc.sexps]

theorem AllAlike.sexps {children children' : List (Option Field × Node)} :
    AllAlike L children children' → Node.sexps children' = Node.sexps children
  | .nil => rfl
  | @AllAlike.cons _ none _ _ _ _ _ hc hr => by rw [Node.sexps, Node.sexps, hc.sexp, hr.sexps]
  | @AllAlike.cons _ (some _) _ _ _ _ _ hc hr => by rw [Node.sexps, Node.sexps, hc.sexp, hr.sexps]

end

end Node

/-- Nothing is moved or put in the place of something else. -/
class Likeness.Exact (L : Likeness) : Prop where
  offset : ∀ {a b}, L.offset a b → b = a
  literal : ∀ {text other}, L.literal text other → other = text
  margin : L.margin = []
  fits : L.fits

theorem Span.Alike.eq [L.Exact] {span span' : Span} (h : span.Alike L span') : span' = span := by
  obtain ⟨start, stop⟩ := span
  obtain ⟨start', stop'⟩ := span'
  obtain rfl : start' = start := Likeness.Exact.offset h.start
  obtain rfl : stop' = stop := Likeness.Exact.offset h.stop
  rfl

theorem Likeness.Texts.eq [L.Exact] {kind : Kind} {text text' : String}
    (h : L.fits → L.Texts kind text text') : text' = text :=
  String.toList_injective (Likeness.Exact.literal (h Likeness.Exact.fits).literal)

mutual

theorem Node.Alike.eq [L.Exact] {node node' : Node} : Node.Alike L node node' → node' = node
  | .mk hs ht hc => by rw [hs.eq, hc.eq, Likeness.Texts.eq ht]

theorem Node.AllAlike.eq [L.Exact] {children children' : List (Option Field × Node)} :
    Node.AllAlike L children children' → children' = children
  | .nil => rfl
  | .cons _ hc hr => by rw [hc.eq, hr.eq]

end

end ArchiveScript
