import ArchiveScript.Proofs.Printing.Singles

/-! # Verbatim blocks without interpolations

The lines of such a block are read as literal pieces, one for each line, with its terminator. The
last line of a script may do without one.
-/

namespace ArchiveScript.Printing

open Node Verbatim

variable {ending margin content : List Char} {contents : List (List Char)} {header line : Line}
  {lines : List Line}

structure Bears (line : Line) (content ending : List Char) : Prop where
  margin : line.margin = content.takeWhile Text.isIndent
  body : line.body = content.dropWhile Text.isIndent
  ending : line.ending = ending

/-- The lines have the contents and end with line feeds, but the last one ends with `ending`. -/
inductive Borne (ending : List Char) : List (List Char) → List Line → Prop
  | last {content : List Char} {line : Line} (h : Bears line content ending) :
      Borne ending [content] [line]
  | cons {content : List Char} {contents : List (List Char)} {line : Line} {lines : List Line}
      (h : Bears line content ['\n']) (hs : Borne ending contents lines) :
      Borne ending (content :: contents) (line :: lines)

theorem Borne.uncons (h : Borne ending (content :: contents) lines) :
    ∃ line rest found, lines = line :: rest ∧ Bears line content found ∧
      (contents = [] ∧ rest = [] ∨ Borne ending contents rest) := by
  cases h with
  | last h => exact ⟨_, _, _, rfl, h, .inl ⟨rfl, rfl⟩⟩
  | cons h hs => exact ⟨_, _, _, rfl, h, .inr hs⟩

theorem ofContent_bears (h : OneLine content) (start : Nat) (ending : List Char) :
    Bears (Line.ofContent start content ending) content ending := by
  rw [Line.ofContent_eq h.last]
  exact ⟨rfl, rfl, rfl⟩

theorem splitFrom_borne (h : ∀ other ∈ content :: contents, OneLine other ∧ other ≠ [])
    (he : ending = [] ∨ ending = ['\n']) (start : Nat) :
    Borne ending (content :: contents)
      (Line.splitFrom start [] (content ++ (contents.flatMap ('\n' :: ·) ++ ending))) := by
  induction contents generalizing content start with
  | nil =>
    obtain ⟨ho, hn⟩ := h content List.mem_cons_self
    rw [List.flatMap_nil, List.nil_append, Line.splitFrom_end ho.feed hn he]
    exact .last (ofContent_bears ho start ending)
  | cons next contents ih =>
    have ho := (h content List.mem_cons_self).1
    rw [List.flatMap_cons, List.cons_append, List.cons_append, List.append_assoc,
      splitFrom_content ho.feed]
    exact .cons (ofContent_bears ho start ['\n'])
      (ih (fun other hm => h other (List.mem_cons_of_mem content hm)) _)

/-- A line without interpolations that is empty if it is blank. -/
structure PlainLine (content : List Char) : Prop where
  closed : ¬['$', '{'] <:+: content
  blank : (∀ c ∈ content, Text.isIndent c = true) → content = []

theorem PlainLine.visible (h : PlainLine content) (hn : content ≠ []) :
    ∃ c ∈ content, Text.isIndent c = false := by
  have hb : ¬∀ c ∈ content, Text.isIndent c = true := fun hb => hn (h.blank hb)
  simpa using hb

def literals (texts : List (List Char)) : List Child :=
  texts.map fun text => (none, terminal .rawContent text)

variable (hm : ∀ c ∈ margin, Text.isIndent c = true)

include hm

theorem linePiecesOf_plain (hs : Bears line (margin ++ content) ending) (hp : PlainLine content) :
    (linePiecesOf margin.length line : Plain _) = pure (literals [content ++ ending]) := by
  obtain ⟨-, hk, hb⟩ := indented hm hs.margin hs.body
  cases content with
  | nil =>
    have he : line.isEmpty = true := by
      rw [Line.isEmpty, hb]
      rfl
    rw [linePiecesOf, if_pos he, hs.ending]
    rfl
  | cons c cs =>
    have he := isEmpty_of_visible hb (hp.visible (List.cons_ne_nil c cs))
    rw [linePiecesOf, he, if_neg Bool.false_ne_true, hs.ending]
    dsimp only
    rw [hk, linePieces_literal hp.closed]
    rfl

/-- Each line of a block is read as a literal, with its line feed. -/
theorem covers_plain {first : List Char} {rest : List (List Char)}
    (hs : Borne ending ((first :: rest).map (margin ++ ·)) lines)
    (hp : ∀ content ∈ first :: rest, PlainLine content)
    (hl : (first :: rest).getLast? ≠ some []) :
    ∃ texts, Covers margin lines (literals texts) ∧
      texts.flatten = first ++ (rest.flatMap ('\n' :: ·) ++ ending) := by
  induction rest generalizing first lines with
  | nil =>
    have hn : first ≠ [] := fun hn => hl (by rw [hn]; rfl)
    have hf := hp first List.mem_cons_self
    cases hs with
    | last h =>
      obtain ⟨hi, -, hb⟩ := indented hm h.margin h.body
      refine ⟨[first ++ ending], ?_, by simp⟩
      have hc := Covers.nil.cons (linePiecesOf_plain hm h hf) (.inr hi)
        fun _ => isEmpty_of_visible hb (hf.visible hn)
      rwa [List.append_nil] at hc
    | cons _ hs => cases hs
  | cons next rest ih =>
    rw [List.map_cons, List.map_cons] at hs
    cases hs with
    | @cons _ _ line lines h hs =>
      obtain ⟨hi, -, -⟩ := indented hm h.margin h.body
      have hr := linePiecesOf_plain hm h (hp first List.mem_cons_self)
      obtain ⟨texts, hc, hf⟩ := ih hs (fun other ho => hp other (List.mem_cons_of_mem first ho))
        (by rwa [List.getLast?_cons_cons] at hl)
      refine ⟨(first ++ ['\n']) :: texts, ?_, ?_⟩
      · have hn : lines ≠ [] := by
          obtain ⟨other, more, found, rfl, -⟩ := hs.uncons
          exact List.cons_ne_nil other more
        exact hc.cons hr (.inr hi) fun he => absurd he hn
      · simp [hf]

theorem Covers.block {trees : List Child} {c : Char} {cs : List Char}
    (hc : Covers margin (line :: lines) trees) (hb : Bears line (margin ++ c :: cs) ending)
    (hv : Text.isIndent c = false) (hd : header.indent < margin.length) :
    Takes (Verbatim.block header) (line :: lines) [] (branch .raw trees) := by
  have hh : (c :: cs).head?.any Text.isIndent = false := hv
  have hi : line.indent = margin.length := by
    rw [Line.indent, hb.margin, List.takeWhile_append_of_pos hm, Scan.takeWhile_eq_nil hh,
      List.append_nil]
  have hn : line.isEmpty = false := by
    refine isEmpty_of_visible hb.body ⟨c, ?_, hv⟩
    simp
  have he : Ends header.indent [] := by
    intro line hl
    cases hl
  have hr := block_takes hc hi hn hd he
  rwa [List.append_nil] at hr

theorem block_plain {first : List Char} {rest : List (List Char)}
    (hs : Borne ending ((first :: rest).map (margin ++ ·)) lines)
    (hp : ∀ content ∈ first :: rest, PlainLine content)
    (hf : ∃ c cs, first = c :: cs ∧ Text.isIndent c = false)
    (hl : (first :: rest).getLast? ≠ some []) (hd : header.indent < margin.length) :
    ∃ texts, Takes (Verbatim.block header) lines [] (branch .raw (literals texts)) ∧
      texts.flatten = first ++ (rest.flatMap ('\n' :: ·) ++ ending) := by
  obtain ⟨texts, hc, ht⟩ := covers_plain hm hs hp hl
  obtain ⟨c, cs, rfl, hv⟩ := hf
  obtain ⟨line, below, found, rfl, hb, -⟩ := hs.uncons
  exact ⟨texts, hc.block hm hb hv hd, ht⟩

omit hm in
/-- Empty lines make no block. -/
theorem block_blank (h : ∀ line ∈ lines, line.isEmpty = true) :
    Takes (Verbatim.block header) lines lines (branch .raw (literals [])) := by
  have hb : ∀ line ∈ lines, belongs header.indent line = true := fun line hl => by
    simp [belongs, h line hl]
  have ht : lines.takeWhile (belongs header.indent) = lines := by
    rw [← List.append_nil lines, List.takeWhile_append_of_pos hb]
    simp
  have hr : lines.reverse.dropWhile Line.isEmpty = [] := by
    rw [← List.append_nil lines.reverse, List.dropWhile_append_of_pos (by simpa using h)]
    rfl
  have hx : extent header.indent lines = ([], lines) := by
    rw [extent, ht, hr]
    rfl
  refine .peek_bind ?_
  rw [hx]
  exact .inline rfl

end ArchiveScript.Printing
