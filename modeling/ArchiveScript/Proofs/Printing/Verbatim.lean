import ArchiveScript.Proofs.Printing.Lines

/-! # Reading verbatim blocks back

A verbatim block ends by its indentation only. Its lines are read with the margin of the block
taken off, and the blank lines in it are kept.
-/

namespace ArchiveScript

namespace Printing

open Node Expression Scan Verbatim

variable {pos : Nat} {rest : List Char}

theorem literalRun_cons {c : Char} {cs : List Char}
    (h : c = '$' → cs.head? ≠ some '{' ∧ ¬['$', '{'] <+: cs) :
    literalRun (c :: cs) = c :: literalRun cs := by
  rw [literalRun.eq_def (c :: cs)]
  split
  · rename_i he
    obtain ⟨rfl, rfl⟩ := List.cons.inj he
    exact absurd ⟨_, rfl⟩ (h rfl).2
  · rename_i he
    obtain ⟨rfl, rfl⟩ := List.cons.inj he
    exact absurd rfl (h rfl).1
  · rename_i he
    obtain ⟨rfl, rfl⟩ := List.cons.inj he
    rfl
  · rename_i he
    cases he

theorem literalRun_append {chars : List Char} (hc : ¬['$', '{'] <:+: chars)
    (hr : literalRun rest = []) (hh : rest.head? ≠ some '{')
    (hl : chars.getLast? = some '$' → ¬['$', '{'] <+: rest) :
    literalRun (chars ++ rest) = chars := by
  induction chars with
  | nil => exact hr
  | cons c cs ih =>
    have ht : literalRun (cs ++ rest) = cs := by
      refine ih (fun hi => hc (hi.trans (List.suffix_cons c cs).isInfix)) fun he => hl ?_
      rw [List.getLast?_cons, he]
      rfl
    rw [List.cons_append, literalRun_cons, ht]
    rintro rfl
    constructor
    · intro he
      cases cs with
      | nil => exact hh he
      | cons d ds =>
        obtain rfl := Option.some.inj he
        exact hc ⟨[], ds, rfl⟩
    · rintro ⟨tail, he⟩
      cases cs with
      | nil => exact hl rfl ⟨tail, he⟩
      | cons d ds =>
        obtain ⟨rfl, hd⟩ := List.cons.inj he
        cases ds with
        | nil =>
          obtain rfl : '{' :: tail = rest := hd
          exact hh rfl
        | cons e es =>
          obtain ⟨rfl, _⟩ := List.cons.inj hd
          exact hc ⟨['$'], es, rfl⟩

theorem literal_eq (start : Nat) (text : List Char) :
    (literal start text : Plain _) = pure (rawContent text) := by
  unfold literal rawContent
  split <;> rfl

theorem linePieces_interpolation (opener : Nat) {chars opening ending : List Char} {kind : Kind}
    {n : Nat} {tree : Node} {trees : List Child}
    (hs : ∀ pos, (linePieces ending (n + 1) ⟨pos, chars ++ opening⟩ : Plain _) =
      (do
        let before ← literal pos chars
        let (piece, after) ← interpolation basic kind opener ⟨pos + Text.bytes chars, opening⟩
        let pieces ← linePieces ending n after
        return before ++ (none, piece) :: pieces))
    (hi : ∀ pos, Gives (interpolation basic kind opener ⟨pos, opening⟩) tree rest)
    (hr : ∀ pos, (linePieces ending n ⟨pos, rest⟩ : Plain _) = pure trees) :
    (linePieces ending (n + 1) ⟨pos, chars ++ opening⟩ : Plain _) =
      pure (rawContent chars ++ (none, tree) :: trees) := by
  obtain ⟨pos', hv⟩ := hi (pos + Text.bytes chars)
  rw [hs, literal_eq, pure_bind, hv, pure_bind]
  dsimp only
  rw [hr, pure_bind]

theorem linePieces_literal {chars : List Char} (hc : ¬['$', '{'] <:+: chars)
    (ending : List Char) (n : Nat) :
    (linePieces ending (n + 1) ⟨pos, chars⟩ : Plain _) = pure (rawContent (chars ++ ending)) := by
  have hr : literalRun chars = chars := by
    have ha := @literalRun_append [] chars hc rfl (by simp) fun _ => by simp
    rwa [List.append_nil] at ha
  rw [linePieces]
  dsimp only
  rw [hr, rest_skip, List.drop_length]
  exact literal_eq pos _

/-- A line is read as its pieces. -/
theorem linePieces_print (line : RawLine) {n : Nat} (hn : line.print.length ≤ n) :
    (linePieces ['\n'] (n + 1) ⟨pos, line.print⟩ : Plain _) = pure line.trees := by
  induction line generalizing pos n with
  | last text h => exact linePieces_literal text.closed _ _
  | plain text h value more ih =>
    have hr : literalRun (text.chars ++ '$' :: '{' :: (value.print ++ '}' :: more.print)) =
        text.chars := literalRun_append text.closed rfl (by simp) fun he => absurd he h
    simp only [RawLine.print, List.length_append, List.length_cons] at hn
    obtain ⟨n, rfl⟩ : ∃ m, n = m + 1 := ⟨n - 1, by omega⟩
    refine linePieces_interpolation 2 (fun pos => ?_)
      (fun pos => interpolation_of_gives (List.forall_mem_nil _) ?_) fun pos => ih (by omega)
    · rw [linePieces]
      dsimp only
      rw [hr, skip_append]
      rfl
    · exact basic_print value ⟨rfl, by simp⟩
  | safe text value more ih =>
    have hr : literalRun (text.chars ++ '$' :: '$' :: '{' :: (value.print ++ '}' :: more.print)) =
        text.chars := literalRun_append text.closed rfl (by simp) fun _ => by simp
    simp only [RawLine.print, List.length_append, List.length_cons] at hn
    obtain ⟨n, rfl⟩ : ∃ m, n = m + 1 := ⟨n - 1, by omega⟩
    refine linePieces_interpolation 3 (fun pos => ?_)
      (fun pos => interpolation_of_gives (List.forall_mem_nil _) ?_) fun pos => ih (by omega)
    · rw [linePieces]
      dsimp only
      rw [hr, skip_append]
      rfl
    · exact basic_print value ⟨rfl, by simp⟩

/-- The lines are read as the trees by a block with the margin. They belong to the block, and the
last one is not blank. -/
structure Covers (margin : List Char) (lines : List Line) (trees : List Child) : Prop where
  reads : (blockPieces margin.length lines : Plain _) = pure trees
  belongs : ∀ line ∈ lines, line.isEmpty = true ∨ margin.length ≤ line.indent
  last : lines.getLast?.any Line.isEmpty = false

namespace Covers

variable {margin : List Char} {line : Line} {lines : List Line} {pieces trees : List Child}

theorem nil : Covers margin [] [] := ⟨rfl, by simp, rfl⟩

theorem cons (hl : (linePiecesOf margin.length line : Plain _) = pure pieces)
    (hb : line.isEmpty = true ∨ margin.length ≤ line.indent)
    (he : lines = [] → line.isEmpty = false) (h : Covers margin lines trees) :
    Covers margin (line :: lines) (pieces ++ trees) := by
  refine ⟨?_, List.forall_mem_cons.2 ⟨hb, h.belongs⟩, ?_⟩
  · rw [blockPieces, hl, pure_bind, h.reads, pure_bind]
  · cases lines with
    | nil => simpa using he rfl
    | cons other lines => exact h.last

end Covers

section Block

variable {margin : List Char} (hm : ∀ c ∈ margin, Text.isIndent c = true)

include hm

theorem indented {line : Line} {content : List Char}
    (hg : line.margin = (margin ++ content).takeWhile Text.isIndent)
    (hb : line.body = (margin ++ content).dropWhile Text.isIndent) :
    margin.length ≤ line.indent ∧ line.margin.drop margin.length ++ line.body = content ∧
      line.body = content.dropWhile Text.isIndent := by
  rw [List.takeWhile_append_of_pos hm] at hg
  rw [List.dropWhile_append_of_pos hm] at hb
  refine ⟨?_, ?_, hb⟩
  · rw [Line.indent, hg, List.length_append]
    omega
  · rw [hg, List.drop_left, hb, List.takeWhile_append_dropWhile]

omit hm in
theorem isEmpty_of_visible {line : Line} {content : List Char}
    (hb : line.body = content.dropWhile Text.isIndent)
    (hv : ∃ c ∈ content, Text.isIndent c = false) : line.isEmpty = false := by
  obtain ⟨c, hc, hi⟩ := hv
  rw [Line.isEmpty, hb, List.isEmpty_eq_false_iff]
  intro hn
  have ht := List.takeWhile_append_dropWhile (p := Text.isIndent) (l := content)
  rw [hn, List.append_nil] at ht
  rw [← ht] at hc
  rw [List.all_eq_true.1 List.all_takeWhile c hc] at hi
  cases hi

theorem linePiecesOf_print {line : Line} (text : RawLine) (hs : Shows line (margin ++ text.print))
    (hv : ∃ c ∈ text.print, Text.isIndent c = false) :
    line.isEmpty = false ∧ margin.length ≤ line.indent ∧
      (linePiecesOf margin.length line : Plain _) = pure text.trees := by
  obtain ⟨hi, hk, hb⟩ := indented hm hs.margin hs.body
  have he := isEmpty_of_visible hb hv
  refine ⟨he, hi, ?_⟩
  rw [linePiecesOf, he, if_neg Bool.false_ne_true, hs.ending]
  dsimp only
  rw [← List.length_append, hk]
  exact linePieces_print text (Nat.le_refl _)

omit hm in
theorem linePiecesOf_blank {line : Line} (hs : Shows line []) (indent : Nat) :
    line.isEmpty = true ∧
      (linePiecesOf indent line : Plain _) = pure [(none, terminal .rawContent ['\n'])] := by
  have he : line.isEmpty = true := by
    rw [Line.isEmpty, hs.body]
    rfl
  refine ⟨he, ?_⟩
  rw [linePiecesOf, if_pos he, hs.ending]
  rfl

theorem Covers.text {line : Line} {lines : List Line} {trees : List Child} {text : RawLine}
    (hs : Shows line (margin ++ text.print)) (hv : ∃ c ∈ text.print, Text.isIndent c = false)
    (h : Covers margin lines trees) : Covers margin (line :: lines) (text.trees ++ trees) := by
  obtain ⟨he, hi, hp⟩ := linePiecesOf_print hm text hs hv
  exact h.cons hp (.inr hi) fun _ => he

omit hm in
theorem Covers.blanks {count : Nat} {contents : List (List Char)} {lines : List Line}
    {trees : List Child} (hs : Shown (List.replicate count [] ++ contents) lines)
    (hn : contents ≠ [])
    (h : ∀ {lines}, Shown contents lines → Covers margin lines trees) :
    Covers margin lines (List.replicate count (none, terminal .rawContent ['\n']) ++ trees) := by
  induction count generalizing lines with
  | zero => exact h hs
  | succ count ih =>
    rw [List.replicate_succ, List.cons_append] at hs ⊢
    cases hs with
    | cons hl hr =>
      obtain ⟨he, hp⟩ := linePiecesOf_blank hl margin.length
      refine (ih hr).cons hp (.inl he) ?_
      rintro rfl
      have hc := hr.length_eq
      have hp := List.length_pos_iff.2 hn
      rw [List.length_append, List.length_nil] at hc
      omega

theorem covers_entries (entries : List RawEntry) {lines : List Line}
    (hs : Shown (entries.flatMap fun entry =>
      List.replicate entry.blanks [] ++ [margin ++ entry.line.print]) lines) :
    Covers margin lines (entries.flatMap fun entry =>
      List.replicate entry.blanks (none, terminal .rawContent ['\n']) ++ entry.line.trees) := by
  induction entries generalizing lines with
  | nil =>
    cases hs
    exact .nil
  | cons entry entries ih =>
    rw [List.flatMap_cons, List.append_assoc] at hs ⊢
    refine .blanks hs (by simp) fun hs => ?_
    cases hs with
    | cons hl hr => exact .text hm hl entry.visible (ih hr)

omit hm in
/-- The lines of a block are found by their indentation. -/
theorem extent_append {indent : Nat} {lines after : List Line} {trees : List Child}
    (h : Covers margin lines trees) (hd : indent < margin.length)
    (hf : lines.head?.any Line.isEmpty = false) (he : Ends indent after) :
    extent indent (lines ++ after) = (lines, after) := by
  have hb : ∀ line ∈ lines, belongs indent line = true := by
    intro line hl
    rcases h.belongs line hl with h | h
    · simp [belongs, h]
    · simp [belongs, Nat.lt_of_lt_of_le hd h]
  have ha : after.head?.any (belongs indent) = false := by
    cases after with
    | nil => rfl
    | cons line rest =>
      obtain ⟨hi, hl⟩ := he line rfl
      have hn : line.isEmpty = false := (Bool.or_eq_false_iff.1 hi).1
      simpa [belongs, hn] using hl
  have hl : lines.reverse.dropWhile Line.isEmpty = lines.reverse :=
    dropWhile_eq_self (by rw [List.head?_reverse]; exact h.last)
  rw [extent, List.takeWhile_append_of_pos hb, takeWhile_eq_nil ha, List.append_nil, hl,
    List.reverse_reverse, dropWhile_eq_self hf, List.drop_left]

omit hm in
/-- A block whose first line is not indented any further than its margin. -/
theorem block_takes {header line : Line} {lines after : List Line} {trees : List Child}
    (h : Covers margin (line :: lines) trees) (hi : line.indent = margin.length)
    (hf : line.isEmpty = false) (hd : header.indent < margin.length)
    (he : Ends header.indent after) :
    Takes (Verbatim.block header) (line :: (lines ++ after)) after (branch .raw trees) := by
  have hx : extent header.indent (line :: (lines ++ after)) = (line :: lines, after) :=
    extent_append h hd hf he
  refine .peek_bind ?_
  rw [hx]
  exact .inline_bind (by rw [hi]; exact h.reads) (.goto_bind (.spans_bind (.inline rfl)))

theorem raw_print (raw : Raw) {header : Line} {lines after : List Line}
    (hs : Shown (raw.print margin) lines) (hd : header.indent < margin.length)
    (he : Ends header.indent after) :
    Takes (Verbatim.block header) (lines ++ after) after raw.tree := by
  cases raw with
  | empty =>
    cases hs
    have hx : extent header.indent after = ([], after) := extent_append Covers.nil hd rfl he
    refine .peek_bind ?_
    rw [List.nil_append, hx]
    exact .inline rfl
  | lines first hf rest =>
    obtain ⟨c, cs, hp, hc⟩ := hf
    cases hs with
    | @cons _ _ line lines hl hr =>
      have hv : ∃ d ∈ first.print, Text.isIndent d = false := ⟨c, hp ▸ List.mem_cons_self, hc⟩
      have hi : line.indent = margin.length := by
        rw [Line.indent, hl.margin, List.takeWhile_append_of_pos hm, takeWhile_eq_nil,
          List.append_nil]
        rw [hp]
        exact hc
      exact block_takes (.text hm hl hv (covers_entries hm rest hr)) hi
        (linePiecesOf_print hm first hl hv).1 hd he

end Block

end Printing

end ArchiveScript
