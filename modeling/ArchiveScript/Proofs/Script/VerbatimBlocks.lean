import Mathlib
import ArchiveScript.Proofs.Script.BlockLikeness
import ArchiveScript.Proofs.Script.ItemParts

/-! # Verbatim blocks

A verbatim block takes the lines up to its last line with a text. Each of them has pieces, which
lie on it, and only the interpolations of a line can be mistaken.
-/

namespace ArchiveScript

open Node (LieInOrder Silent)
open Reader

theorem head_dropWhile {α : Type} (p : α → Bool) (list : List α) :
    ∀ a ∈ (list.dropWhile p).head?, p a = false := by
  intro a ha
  have h := List.head?_dropWhile_not p list
  rwa [Option.mem_def.1 ha] at h

namespace Scan

variable {s after last : Scan} {node : Node} {source : List Char}

def extended (s : Scan) (ending : List Char) : Scan := ⟨s.pos, s.rest ++ ending⟩

theorem Advances.extended (h : s.Advances after) (ending : List Char) :
    (s.extended ending).Advances (after.extended ending) := by
  obtain ⟨text, ht⟩ := h
  exact (ht.extend ending).advances

theorem Within.of_extended {ending : List Char} (h : (s.extended ending).Within source) :
    s.Within source := by
  obtain ⟨before, after, rfl, hb⟩ := h
  refine ⟨before, ending ++ after, ?_, hb⟩
  simp [Scan.extended]

theorem Phrases.extended (h : s.Phrases (node, after)) (ending : List Char) :
    (s.extended ending).Phrases (node, after.extended ending) :=
  ⟨h.advances.extended ending, h.silent, fun source hs hw => h.lies source hs hw.of_extended⟩

theorem PhrasesAll.append {children more : List Child} (h : s.PhrasesAll (children, after))
    (h' : after.PhrasesAll (more, last)) : s.PhrasesAll (children ++ more, last) :=
  ⟨h.advances.trans h'.advances, List.forall_mem_append.2 ⟨h.silent, h'.silent⟩,
    fun source hs hw => (h.lies source hs hw).append (h'.lies source hs (h.advances.within hw))⟩

end Scan

namespace Verbatim

open Expression Scan

variable {line header first : Line} {lines rest below chosen after : List Line} {s : Scan}
  {ending : List Char} {pieces : List Child}

/-- The pieces lie before the last scan and begin on the line. -/
structure ReadsPieces (ending : List Char) (s last : Scan) (pieces : List Child) : Prop where
  phrases : (s.extended ending).PhrasesAll (pieces, last)
  begins : s.limit + Text.bytes ending ≤ Span.maxOffset →
    ∀ piece ∈ pieces, s.pos ≤ piece.2.span.start ∧ piece.2.span.start ≤ s.limit

/-- There is a literal piece, unless its text is empty. -/
theorem literal_brings {F : Mistake → Prop} {last : Scan} {text : List Char}
    (h : (s.extended ending).Reads text last) :
    Brings F (fun pieces => ReadsPieces ending s last pieces ∧ (pieces = [] → text = []))
      (literal s.pos text) := by
  unfold literal
  split
  · rename_i he
    exact ⟨⟨.nil h.advances, fun _ => List.forall_mem_nil _⟩, fun _ => List.isEmpty_iff.1 he⟩
  · refine ⟨⟨.single (h.phrases rfl) nofun, fun hlimit => List.forall_mem_singleton.2 ?_⟩, nofun⟩
    have hprefix : text <+: (s.extended ending).rest := ⟨last.rest, h.rest.symm⟩
    have hbytes := Text.bytes_le_of_prefix hprefix
    simp only [Scan.extended, Text.bytes_append] at hbytes
    rw [Node.start_leaf]
    · exact ⟨Nat.le_refl _, s.pos_le_limit⟩
    · unfold Scan.limit at hlimit
      omega

/-- The pieces for what is left of a line and for its ending. There is one, unless nothing is left
of the line. -/
structure ArePiecesOf (ending : List Char) (s : Scan) (pieces : List Child) : Prop
    extends ReadsPieces ending s ⟨s.limit + Text.bytes ending, []⟩ pieces where
  none : pieces = [] → s.rest = []

theorem literal_rest_brings {F : Mistake → Prop} (ending : List Char) (s : Scan) :
    Brings F (ArePiecesOf ending s) (literal s.pos (s.rest ++ ending)) := by
  have hr : (s.extended ending).Reads (s.rest ++ ending) ⟨s.limit + Text.bytes ending, []⟩ := by
    refine ⟨(List.append_nil _).symm, ?_⟩
    simp only [Scan.limit, Text.bytes_append, Scan.extended, Nat.add_assoc]
  refine (literal_brings hr).mono (fun _ => id) fun pieces hpieces => ⟨hpieces.1, fun h => ?_⟩
  exact (List.append_eq_nil_iff.1 (hpieces.2 h)).1

theorem pieceAndRest_brings {n : Nat} {opening : Scan} {run : List Char}
    (hrun : s.Reads run opening) {kind : Kind} (hk : kind.hasParts = true) (opener : Nat)
    (ih : ∀ after, Brings after.Faults (ArePiecesOf ending after) (linePieces ending n after)) :
    Brings s.Faults (ArePiecesOf ending s) (do
      let before ← literal s.pos run
      let (piece, after) ← interpolation basic kind opener opening
      let pieces ← linePieces ending n after
      return before ++ (none, piece) :: pieces) := by
  refine (literal_brings (hrun.extend ending)).bind fun before ⟨hbefore, _⟩ => ?_
  refine ((interpolation_brings basic_brings hk opener opening).behind hrun.advances).bind ?_
  rintro ⟨piece, after⟩ hpiece
  have ha := hrun.advances.trans hpiece.advances
  refine ((ih after).behind ha).bind fun pieces ⟨hp, _⟩ => ?_
  rw [ha.limit_eq] at hp
  refine ⟨⟨hbefore.phrases.append (.cons (hpiece.extended ending) nofun hp.phrases), fun h => ?_⟩,
    by simp⟩
  have hbegins := (Phrases.behind hrun.advances hpiece).begins
    (Nat.le_trans (Nat.le_add_right _ _) h)
  refine List.forall_mem_append.2 ⟨hbefore.begins h, List.forall_mem_cons.2 ⟨hbegins, ?_⟩⟩
  intro other ho
  have hother := hp.begins (by rwa [ha.limit_eq]) other ho
  rw [ha.limit_eq] at hother
  exact ⟨Nat.le_trans ha.pos_le hother.1, hother.2⟩

theorem linePieces_brings (ending : List Char) (n : Nat) (s : Scan) :
    Brings s.Faults (ArePiecesOf ending s) (linePieces ending n s) := by
  induction n generalizing s with
  | zero => exact literal_rest_brings ending s
  | succ n ih =>
    have hr := prefix_reads (literalRun_begins s.rest)
    unfold linePieces
    dsimp only
    generalize s.skip (literalRun s.rest).length = opening at hr ⊢
    split
    · rename_i hn
      have he := hr.rest
      rw [hn, List.append_nil] at he
      rw [← he]
      exact literal_rest_brings ending s
    · exact pieceAndRest_brings hr rfl 3 ih
    · exact pieceAndRest_brings hr rfl 2 ih

structure ArePiecesOn (line : Line) (pieces : List Child) : Prop where
  silent : ∀ piece ∈ pieces, piece.1 ≠ some .alternative ∧ piece.2.Silent
  holds : ∀ piece ∈ pieces, line.Holds piece.2.span
  lies : ∀ source, Text.bytes source ≤ Span.maxOffset → line.Within source →
    LieInOrder source line.start line.next pieces
  ne_nil : pieces ≠ []

theorem linePiecesOf_brings (indent : Nat) (line : Line) :
    Brings (fun mistake => line.isEmpty = false ∧ line.Faults mistake) (ArePiecesOn line)
      (linePiecesOf indent line) := by
  unfold linePiecesOf
  split
  · have hr : Reads ⟨line.stop, line.ending⟩ line.ending ⟨line.next, []⟩ :=
      ⟨(List.append_nil _).symm, rfl⟩
    have hp : Phrases ⟨line.stop, line.ending⟩ (.leaf .rawContent line.stop line.ending, _) :=
      hr.phrases rfl
    refine ⟨List.forall_mem_singleton.2 ⟨nofun, hp.silent⟩, List.forall_mem_singleton.2 ?_, ?_,
      List.cons_ne_nil _ _⟩
    · intro hnext
      rw [Node.start_leaf .rawContent hnext]
      exact ⟨line.start_le_stop, Nat.le_refl _⟩
    · intro source hs hw
      have hstop := hw.scan_within (line.margin ++ line.body) line.ending [] (by simp [Line.whole])
      rw [Text.bytes_append, ← Nat.add_assoc] at hstop
      exact .singleton ((hp.lies source hs hstop).mono line.start_le_stop (Nat.le_refl _))
  · rename_i he
    have hm := List.take_append_drop indent line.margin
    have hb := congrArg Text.bytes hm
    have hw {source : List Char} (h : line.Within source) :
        Within source ⟨line.start + Text.bytes (line.margin.take indent),
          (line.margin.drop indent ++ line.body) ++ line.ending⟩ :=
      h.scan_within _ _ []
        (by rw [← List.append_assoc, ← List.append_assoc, hm, List.append_nil]; rfl)
    have hlimit : (Scan.mk (line.start + Text.bytes (line.margin.take indent))
        (line.margin.drop indent ++ line.body)).limit = line.stop := by
      simp only [Scan.limit, Line.stop, Line.bodyStart, Text.bytes_append] at hb ⊢
      omega
    have hstart := Nat.le_add_right line.start (Text.bytes (line.margin.take indent))
    refine (linePieces_brings _ _ _).mono (fun mistake hf => ⟨Bool.eq_false_iff.2 he, ?_, ?_⟩)
      fun pieces hp => ⟨hp.phrases.silent, fun piece hpiece hnext => ?_, fun source hs h => ?_,
        fun h => ?_⟩
    · intro hnext
      obtain ⟨hle, hstop⟩ := hf.begins (hlimit ▸ Nat.le_trans line.stop_le_next hnext)
      exact ⟨Nat.le_trans hstart hle, hlimit ▸ hstop⟩
    · exact fun source hs h => (hf source hs (hw h).of_extended).2
    · obtain ⟨hle, hstop⟩ := hp.begins (by rwa [hlimit]) piece hpiece
      exact ⟨Nat.le_trans hstart hle, hlimit ▸ hstop⟩
    · have hl := hp.phrases.lies source hs (hw h)
      rw [hlimit] at hl
      exact hl.mono hstart (Nat.le_refl _)
    · have hbody := (List.append_eq_nil_iff.1 (hp.none h)).2
      simp [Line.isEmpty, hbody] at he

/-- The first piece of the lines begins on their first line and the last one on their last, and
there are pieces for all lines. -/
structure ArePieces (lines : List Line) (pieces : List Child) : Prop where
  parts : ∀ piece ∈ pieces, piece.1 ≠ some .alternative ∧ piece.2.Silent
  first : ∀ piece ∈ pieces.head?, ∃ line ∈ lines.head?, line.Holds piece.2.span
  last : ∀ piece ∈ pieces.getLast?, ∃ line ∈ lines.getLast?, line.Holds piece.2.span
  none : pieces = [] → lines = []
  lies : ∀ source offset, Text.bytes source ≤ Span.maxOffset → Line.Follow source offset lines →
    LieInOrder source offset (Line.endOf offset lines) pieces

theorem ArePieces.cons {rest : List Child} (hp : ArePiecesOn line pieces)
    (hr : ArePieces lines rest) : ArePieces (line :: lines) (pieces ++ rest) := by
  constructor
  · exact List.forall_mem_append.2 ⟨hp.silent, hr.parts⟩
  · intro piece hm
    rw [List.head?_append_of_ne_nil _ hp.ne_nil] at hm
    exact ⟨line, rfl, hp.holds piece (List.mem_of_mem_head? hm)⟩
  · intro piece hm
    rw [List.getLast?_append] at hm
    cases hl : rest.getLast? with
    | none =>
      rw [hl, Option.none_or] at hm
      rw [hr.none (List.getLast?_eq_none_iff.1 hl)]
      exact ⟨line, rfl, hp.holds piece (List.mem_of_getLast? hm)⟩
    | some last =>
      rw [hl, Option.some_or] at hm
      obtain ⟨found, hf, hh⟩ := hr.last piece (hl.trans hm)
      refine ⟨found, ?_, hh⟩
      rw [List.getLast?_cons, Option.mem_def.1 hf]
      rfl
  · intro h
    exact absurd (List.append_eq_nil_iff.1 h).1 hp.ne_nil
  · rintro source offset hs ⟨hle, hw, hf⟩
    exact ((hp.lies source hs hw).mono hle (Nat.le_refl _)).append (hr.lies source _ hs hf)

theorem blockPieces_brings (indent : Nat) (lines : List Line) :
    Brings (fun mistake => ∃ line ∈ lines, line.isEmpty = false ∧ line.Faults mistake)
      (ArePieces lines) (blockPieces indent lines) := by
  induction lines with
  | nil => exact ⟨by simp, by simp, by simp, fun _ => rfl, fun _ _ _ _ => Nat.le_refl _⟩
  | cons line lines ih =>
    refine Brings.bind ((linePiecesOf_brings indent line).mono ?_ fun _ => id) fun pieces hp =>
      Brings.bind (ih.mono ?_ fun _ => id) fun rest hr => ArePieces.cons hp hr
    · exact fun mistake h => ⟨line, List.mem_cons_self, h⟩
    · rintro mistake ⟨other, ho, h⟩
      exact ⟨other, List.mem_cons_of_mem line ho, h⟩

/-! ### The lines of a block -/

theorem taken_prefix (indent : Nat) (lines : List Line) :
    ((lines.takeWhile (belongs indent)).reverse.dropWhile Line.isEmpty).reverse <+: lines := by
  refine List.IsPrefix.trans ?_ (List.takeWhile_prefix (belongs indent))
  rw [← List.reverse_suffix, List.reverse_reverse]
  exact List.dropWhile_suffix _

/-- The lines of a block follow some blank lines, and the first and the last of them have a
text. -/
theorem extent_parts {indent : Nat} (h : Verbatim.extent indent lines = (chosen, after)) :
    (∃ blanks, lines = blanks ++ (chosen ++ after) ∧ ∀ line ∈ blanks, line.isEmpty = true) ∧
      (∀ line ∈ chosen.head?, line.isEmpty = false) ∧
      ∀ line ∈ chosen.getLast?, line.isEmpty = false := by
  have htaken := taken_prefix indent lines
  obtain ⟨rfl, rfl⟩ := Prod.mk.inj h
  have hlast := head_dropWhile Line.isEmpty (lines.takeWhile (belongs indent)).reverse
  rw [← List.getLast?_reverse] at hlast
  generalize ((lines.takeWhile (belongs indent)).reverse.dropWhile Line.isEmpty).reverse = taken
    at htaken hlast ⊢
  obtain ⟨after, rfl⟩ := htaken
  rw [List.drop_left]
  refine ⟨⟨taken.takeWhile Line.isEmpty, ?_, fun line hm => List.mem_takeWhile_imp hm⟩,
    head_dropWhile _ taken, fun line hm => hlast line ?_⟩
  · rw [← List.append_assoc, List.takeWhile_append_dropWhile]
  · rw [← List.takeWhile_append_dropWhile (p := Line.isEmpty) (l := taken), List.getLast?_append,
      Option.mem_def.1 hm]
    rfl

theorem extent_suffix (indent : Nat) (lines : List Line) :
    (extent indent lines).1 ++ (extent indent lines).2 <:+ lines := by
  obtain ⟨⟨blanks, hl, -⟩, -⟩ := extent_parts (Prod.mk.eta (p := Verbatim.extent indent lines)).symm
  exact ⟨blanks, hl.symm⟩

theorem belongs_of_extent {indent : Nat} (h : Verbatim.extent indent lines = (chosen, after)) :
    ∀ line ∈ chosen, line.isEmpty = true ∨ indent < line.indent := by
  obtain ⟨rfl, -⟩ := Prod.mk.inj h
  intro line hm
  have hm := (List.dropWhile_sublist _).subset hm
  rw [List.mem_reverse] at hm
  have hm := (List.dropWhile_sublist _).subset hm
  rw [List.mem_reverse] at hm
  have hb := List.mem_takeWhile_imp hm
  rwa [belongs, Bool.or_eq_true, decide_eq_true_eq] at hb

theorem isIdle_of_blank {blanks : List Line} (h : ∀ line ∈ blanks, line.isEmpty = true) :
    ∀ line ∈ blanks, line.isIdle = true :=
  fun line hm => by rw [Line.isIdle, h line hm, Bool.true_or]

theorem below_of_extent (h : Verbatim.extent header.indent below = (chosen, after))
    {blanks : List Line} (hblanks : ∀ line ∈ blanks, line.isEmpty = true) :
    ∀ other ∈ blanks ++ chosen, other.Below header.indent := by
  refine List.forall_mem_append.2 ⟨fun other ho => .inl (isIdle_of_blank hblanks other ho), ?_⟩
  intro other ho
  refine (belongs_of_extent h other ho).imp_left fun hempty => ?_
  rw [Line.isIdle, hempty, Bool.true_or]

theorem inItem_of_extent (h : Verbatim.extent header.indent below = (chosen, after))
    (hm : line ∈ chosen) (hempty : line.isEmpty = false) : header.InItem below line := by
  obtain ⟨⟨blanks, hbelow, hblanks⟩, -, -⟩ := extent_parts h
  have hdeeper := below_of_extent h hblanks
  have hdeep := (belongs_of_extent h line hm).resolve_left (Bool.eq_false_iff.1 hempty)
  obtain ⟨before, behind, rfl⟩ := List.append_of_mem hm
  refine .inr ⟨behind ++ after, hdeep, blanks ++ before, by simp [hbelow], fun other ho => ?_⟩
  refine hdeeper other ?_
  rw [← List.append_assoc]
  exact List.mem_append_left _ ho

/-- A block without lines has its place after the header. -/
theorem empty_isValue (he : (Verbatim.extent header.indent below).1 = []) :
    (Node.leaf .raw header.next []).IsValue header below header.next .none := by
  have hm : (Node.leaf .raw header.next []).MadeOf header [] :=
    ⟨nofun, nofun, fun _ => ⟨rfl, fun hnext => Node.start_leaf .raw hnext⟩⟩
  refine ⟨⟨⟨.nil, Span.stop_between_le_max _ _, fun source hh => ?_, fun _ whole hw => ?_⟩,
    .inl rfl⟩, List.forall_mem_nil _, .empty rfl he⟩
  · have hr : Reads ⟨header.next, []⟩ [] ⟨header.next, []⟩ := ⟨rfl, rfl⟩
    obtain ⟨before, after, hs, hb⟩ := hh.within.next_boundary
    exact hr.lies hh.fits ⟨before, after, by rw [hs, List.append_nil], hb⟩ .raw
  · obtain ⟨before, rfl⟩ := hw
    have hl : before ++ header :: below = before ++ header :: ([] ++ ([] ++ below)) := rfl
    exact ⟨Span.stop_between_le_max _ _, [], .verbatim rfl hl nofun hm .nil, .nil⟩

theorem holds_spanning (hp : ArePieces (first :: rest) pieces) :
    first.Holds
      (Node.spanning .raw (startOf Node.span header pieces) (startOf Node.span header pieces)
        pieces).span := by
  intro hnext
  have hmax := Nat.le_trans first.stop_le_next hnext
  cases pieces with
  | nil => exact nomatch hp.none rfl
  | cons piece pieces =>
    obtain ⟨_, hfirst, hholds⟩ := hp.first piece rfl
    obtain rfl := Option.some.inj hfirst
    obtain ⟨hstart, hstop⟩ := hholds hnext
    have hspan : startOf Node.span header (piece :: pieces) ≤ Span.maxOffset :=
      Nat.le_trans hstop hmax
    rw [Node.start_spanning .raw hspan hspan fun child hc => (hp.parts child hc).2.capped]
    exact ⟨hstart, hstop⟩

/-- A block of lines accounts for them, and for the blank lines before the first of them. -/
theorem pieces_isValue {blanks : List Line}
    (he : Verbatim.extent header.indent below = (first :: rest, after))
    (hl : below = blanks ++ (first :: rest ++ after))
    (hblanks : ∀ line ∈ blanks, line.isEmpty = true) (hp : ArePieces (first :: rest) pieces) :
    (Node.spanning .raw (startOf Node.span header pieces) (startOf Node.span header pieces)
      pieces).IsValue header below header.next ⟨[], blanks ++ first :: rest⟩ := by
  obtain ⟨-, hfirst, hlast⟩ := extent_parts he
  have hdeeper := below_of_extent he hblanks
  have hidle := isIdle_of_blank hblanks
  refine ⟨⟨⟨.of_below hdeeper, Span.stop_between_le_max _ _, fun source hh => ?_,
    fun _ whole hw => ?_⟩, .inl rfl⟩, hdeeper,
    .held (inItem_of_extent he List.mem_cons_self (hfirst first rfl)) (holds_spanning hp)⟩
  · have hright := hh.follow.right
    have hpieces := hp.lies source _ hh.fits hright
    rw [← Line.endOf_append] at hpieces
    exact hpieces.aroundItems hh.fits hh.within hh.left.next_le
  · obtain ⟨before, rfl⟩ := hw
    have hm : (Node.spanning .raw (startOf Node.span header pieces) (startOf Node.span header
        pieces) pieces).MadeOf header (first :: rest) := by
      refine ⟨fun piece hpiece => ?_, fun piece hpiece => ?_, fun hnone => nomatch hp.none hnone⟩
      · obtain ⟨found, hf, hh⟩ := hp.first piece hpiece
        exact ⟨found, hf, hfirst found hf, hh⟩
      · obtain ⟨found, hf, hh⟩ := hp.last piece hpiece
        exact ⟨found, hf, hlast found hf, hh⟩
    have hc := (Covers.of_verbatim (first :: rest)).behind_idle hidle
    have hwhole := congrArg (before ++ header :: ·) hl
    exact ⟨Span.stop_between_le_max _ _, _,
      .verbatim rfl hwhole hblanks hm (Node.usesAll_silent rfl rfl hp.parts), hc⟩

theorem block_accounts (kind : BlockKind) (header : Line) (below : List Line) :
    AccountsItem kind header below below (Node.IsValue header below header.next)
      (block header) := by
  refine .peek_bind ?_
  rcases he : extent header.indent below with ⟨_ | ⟨first, rest⟩, after⟩
  · exact .onLine (empty_isValue (congrArg Prod.fst he))
  · obtain ⟨⟨blanks, hbelow, hblanks⟩, -, -⟩ := extent_parts he
    have hl : below = (blanks ++ first :: rest) ++ after := by rw [hbelow, List.append_assoc]
    refine .onLine_bind ((blockPieces_brings first.indent (first :: rest)).mono ?_ fun _ => id)
      fun pieces hp => .goto_bind hl (.spans_bind (.node ?_))
    · rintro mistake ⟨line, hm, hempty, hf⟩
      exact ⟨line, .own (inItem_of_extent he hm hempty), hf⟩
    · exact pieces_isValue he hbelow hblanks hp

end Verbatim

end ArchiveScript
