import Mathlib
import ArchiveScript.Proofs.Source.NumberedLines

/-! # Excerpts of a source

Below its headline, a diagnostic shows the lines that have a byte of its span. Each line of the
source has the bytes from its first one up to its line feed, and the last line has the end of the
source, too.
-/

namespace ArchiveScript

open Text

variable {source : List Char}

namespace Text

theorem eq_feed_of_mem_utf8 {c : Char} (h : 10 ∈ String.utf8EncodeChar c) : c = '\n' := by
  have hbyte : ∀ n, (10 : UInt8) = UInt8.ofNat n → n % 256 = 10 := by
    intro n hn
    simpa using (congrArg UInt8.toNat hn).symm
  unfold String.utf8EncodeChar at h
  dsimp only at h
  -- In a character of several bytes, each of them is at least 128.
  split at h
  · have hv := hbyte _ (List.mem_singleton.1 h)
    have hc : c.val.toNat = 10 := by omega
    exact Char.ext (UInt32.toNat_inj.1 hc)
  · split at h
    · simp only [List.mem_cons, List.not_mem_nil, or_false] at h
      rcases h with h | h <;> have := hbyte _ h <;> omega
    · split at h
      · simp only [List.mem_cons, List.not_mem_nil, or_false] at h
        rcases h with h | h | h <;> have := hbyte _ h <;> omega
      · simp only [List.mem_cons, List.not_mem_nil, or_false] at h
        rcases h with h | h | h | h <;> have := hbyte _ h <;> omega

/-- A line feed is the one byte 10, which no other character has. -/
theorem feeds_eq_count (text : List Char) (offset : Nat) :
    feeds text offset = ((text.flatMap String.utf8EncodeChar).take offset).count 10 := by
  induction text generalizing offset with
  | nil => rw [List.flatMap_nil, List.take_nil, List.count_nil, feeds]
  | cons c text ih =>
    rw [List.flatMap_cons, List.take_append, String.length_utf8EncodeChar, List.count_append, ← ih,
      feeds]
    congr 1
    by_cases hc : c = '\n'
    · have hs : '\n'.utf8Size = 1 := by decide
      have hu : String.utf8EncodeChar '\n' = [10] := by decide
      subst hc
      rw [hs, hu]
      cases offset <;> simp
    · have hn : 10 ∉ (String.utf8EncodeChar c).take offset :=
        fun hm => hc (eq_feed_of_mem_utf8 (List.mem_of_mem_take hm))
      rw [List.count_eq_zero_of_not_mem hn, if_neg fun h => hc h.1]

theorem feeds_le_count (text : List Char) (offset : Nat) : feeds text offset ≤ text.count '\n' := by
  have hall := feeds_append text [] offset
  rw [List.append_nil, feeds, Nat.add_zero] at hall
  rw [← hall]
  exact feeds_mono _ (Nat.le_add_left ..)

theorem feeds_le {first : List Char} {rest : List (List Char)}
    (hf : ∀ content ∈ first :: rest, '\n' ∉ content) (offset : Nat) :
    feeds (first ++ rest.flatMap ('\n' :: ·)) offset ≤ rest.length := by
  have hcount : (first ++ rest.flatMap ('\n' :: ·)).count '\n' = rest.length := by
    obtain ⟨hfirst, hrest⟩ := List.forall_mem_cons.1 hf
    clear hf
    rw [List.count_append, List.count_eq_zero_of_not_mem hfirst, Nat.zero_add]
    induction rest with
    | nil => rfl
    | cons content rest ih =>
      obtain ⟨hcontent, hrest⟩ := List.forall_mem_cons.1 hrest
      rw [List.flatMap_cons, List.count_append, ih hrest, List.count_cons_self,
        List.count_eq_zero_of_not_mem hcontent, List.length_cons, Nat.zero_add, Nat.add_comm]
  rw [← hcount]
  exact feeds_le_count _ offset

end Text

namespace LineTable

theorem lineOf_of_few_feeds (h : bytes source ≤ Span.maxOffset)
    (hfeeds : source.count '\n' < Span.maxOffset) (offset : Nat) :
    (ofText source).lineOf offset = feeds source offset + 1 := by
  rw [lineOf_ofText h, numberAt_eq (Nat.lt_of_le_of_lt (feeds_le_count source offset) hfeeds)]

end LineTable

namespace NumberedLine

/-- The line has a byte of the span, or an empty span where one of its bytes is. -/
def Touches (line : NumberedLine) (span : Span) : Prop :=
  ∃ offset, (line.start ≤ offset ∧ offset < line.stop) ∧
    (span.start ≤ offset ∧ offset < span.stop ∨ span.start = span.stop ∧ offset = span.start)

theorem touches_iff {line : NumberedLine} {span : Span} :
    line.Touches span ↔ span.start ≤ span.stop ∧ line.start < max span.stop (span.start + 1) ∧
      span.start < line.stop := by
  constructor
  · rintro ⟨offset, hline, hspan⟩
    omega
  · rintro ⟨hle, hstart, hstop⟩
    have hline : line.start < line.stop := by
      simp only [stop]
      omega
    refine ⟨max line.start span.start, by omega, by omega⟩

instance (line : NumberedLine) (span : Span) : Decidable (line.Touches span) :=
  decidable_of_iff' _ touches_iff

def text (line : NumberedLine) : List Char :=
  if line.content.getLast? = some '\r' then line.content.dropLast else line.content

def shown (line : NumberedLine) : String :=
  toString line.number ++ ":\t" ++ String.ofList line.text ++ "\n"

/-- The lines that a span touches are those with numbers from that of its first byte to that of its
last byte. -/
theorem touches_iff_number (h : bytes source ≤ Span.maxOffset)
    (hfeeds : source.count '\n' < Span.maxOffset) {line : NumberedLine}
    (hl : line ∈ ofText source) {span : Span} (hle : span.start ≤ span.stop)
    (hstop : span.stop ≤ bytes source) :
    line.Touches span ↔ ((LineTable.ofText source).linesOf span).1 ≤ line.number ∧
      line.number ≤ ((LineTable.ofText source).linesOf span).2 := by
  have hline := LineTable.lineOf_of_few_feeds h hfeeds
  have hbegin := start_le_iff hl (Nat.le_trans hle hstop)
  have hend := lt_stop_iff hl (Nat.le_trans hle hstop)
  rw [touches_iff, LineTable.linesOf, hline, hline]
  dsimp only
  split
  · have hbefore : span.stop - 1 ≤ bytes source := by omega
    have hlast := start_le_iff hl hbefore
    have hfirst := lt_stop_iff hl hbefore
    omega
  · omega

theorem text_eq_bare {line : NumberedLine} (h : '\n' ∉ line.content) :
    line.text = LineTable.bare line.content := by
  have hl : line.content.getLast? ≠ some '\n' := fun hl => h (List.mem_of_getLast? hl)
  rw [text, LineTable.bare, if_neg hl]

theorem filter_range' {low high count : Nat} (hlow : 1 ≤ low) (hle : low ≤ high)
    (hhigh : high ≤ count) :
    (List.range' 1 count).filter (fun number => low ≤ number ∧ number ≤ high) =
      List.range' low (high + 1 - low) := by
  obtain ⟨before, rfl⟩ := Nat.exists_eq_add_of_le hlow
  obtain ⟨within, hw⟩ := Nat.exists_eq_add_of_le hle
  obtain ⟨behind, rfl⟩ := Nat.exists_eq_add_of_le hhigh
  have hcount : high + behind = before + ((within + 1) + behind) := by omega
  have hsize : high + 1 - (1 + before) = within + 1 := by omega
  rw [hcount, ← List.range'_append_1, ← List.range'_append_1, List.filter_append,
    List.filter_append, hsize]
  have hnone (numbers : List Nat) (hn : ∀ n ∈ numbers, n < 1 + before ∨ high < n) :
      numbers.filter (fun number => 1 + before ≤ number ∧ number ≤ high) = [] := by
    refine List.filter_eq_nil_iff.2 fun n hm => ?_
    have := hn n hm
    rw [decide_eq_true_eq]
    omega
  have hlower : ∀ n ∈ List.range' 1 before, n < 1 + before ∨ high < n := by
    intro n hm
    exact .inl (List.mem_range'_1.1 hm).2
  have hupper : ∀ n ∈ List.range' (1 + before + (within + 1)) behind,
      n < 1 + before ∨ high < n := by
    intro n hm
    rw [List.mem_range'_1] at hm
    omega
  rw [hnone _ hlower, hnone _ hupper, List.nil_append, List.append_nil, List.filter_eq_self]
  intro n hm
  rw [List.mem_range'_1] at hm
  rw [decide_eq_true_eq]
  omega

theorem touched_numbers (h : bytes source ≤ Span.maxOffset)
    (hfeeds : source.count '\n' < Span.maxOffset) {span : Span}
    (hle : span.start ≤ span.stop) (hstop : span.stop ≤ bytes source) :
    ((ofText source).filter (·.Touches span)).map number =
      List.range' ((LineTable.ofText source).linesOf span).1
        (((LineTable.ofText source).linesOf span).2 + 1 -
          ((LineTable.ofText source).linesOf span).1) := by
  have htouch : (ofText source).filter (·.Touches span) = (ofText source).filter
      ((fun number => decide (((LineTable.ofText source).linesOf span).1 ≤ number ∧
        number ≤ ((LineTable.ofText source).linesOf span).2)) ∘ NumberedLine.number) :=
    List.filter_congr fun line hl => decide_eq_decide.2 (touches_iff_number h hfeeds hl hle hstop)
  have hpos (offset : Nat) : 1 ≤ (LineTable.ofText source).lineOf offset := by
    rw [LineTable.lineOf_of_few_feeds h hfeeds]
    exact Nat.le_add_left ..
  have hcount (offset : Nat) :
      (LineTable.ofText source).lineOf offset ≤ (source.splitOn '\n').length := by
    obtain ⟨first, rest, hs, ht, hf⟩ := splitOn_feed source
    rw [LineTable.lineOf_of_few_feeds h hfeeds, hs, ht]
    exact Nat.succ_le_succ (feeds_le hf offset)
  rw [htouch, ← List.filter_map, ofText, map_number]
  exact filter_range' (hpos _) (Nat.le_max_left ..) (Nat.max_le.2 ⟨hcount _, hcount _⟩)

end NumberedLine

namespace Diagnostic

open NumberedLine

theorem shown_eq_excerptLine (h : bytes source ≤ Span.maxOffset) {line : NumberedLine}
    (hl : line ∈ NumberedLine.ofText source) :
    line.shown = excerptLine (.ofText source) line.number := by
  obtain ⟨i, hi⟩ := List.mem_iff_getElem?.1 hl
  obtain ⟨hnumber, hcontent⟩ := of_getElem? hi
  obtain ⟨first, rest, hs, -, hf⟩ := splitOn_feed source
  have hfeed : '\n' ∉ line.content := hf _ (hs ▸ List.mem_of_getElem? hcontent)
  rw [excerptLine, shown, hnumber, LineTable.lineText?_ofText h, hcontent, Option.map_some,
    text_eq_bare hfeed]

/-- A diagnostic shows its headline and then the lines that have a byte of its span, each of them
once. A line is numbered by the bytes that are line feeds before it, and its text is shown without
the line feed and without a carriage return before that or before the end of the source. -/
theorem excerpt_shows_touched_lines (h : bytes source < 2 ^ 32)
    (hfeeds : source.count '\n' < 2 ^ 32 - 1) :
    (∀ offset ≤ bytes source, (LineTable.ofText source).lineOf offset =
      1 + ((source.flatMap String.utf8EncodeChar).take offset).count 10) ∧
    ∀ (headline : String) (span : Span), span.start ≤ span.stop → span.stop ≤ bytes source →
      render (.ofText source) ⟨headline, some span⟩ = headline ++ "\n" ++
        String.join (((NumberedLine.ofText source).filter (·.Touches span)).map shown) := by
  have hmax : bytes source ≤ Span.maxOffset := Nat.le_of_lt_succ h
  refine ⟨fun offset _ => ?_, fun headline span hle hstop => ?_⟩
  · rw [LineTable.lineOf_of_few_feeds hmax hfeeds, feeds_eq_count, Nat.add_comm]
  · have hlines : ((NumberedLine.ofText source).filter (·.Touches span)).map shown =
        (((NumberedLine.ofText source).filter (·.Touches span)).map number).map
          (excerptLine (.ofText source)) := by
      rw [List.map_map]
      exact List.map_congr_left fun line hl => shown_eq_excerptLine hmax (List.mem_filter.1 hl).1
    rw [hlines, touched_numbers hmax hfeeds hle hstop]
    rfl

theorem excerpt_shows_touched_lines_feed :
    let source := "a\r\nb\n".toList
    bytes source < 2 ^ 32 ∧ source.count '\n' < 2 ^ 32 - 1 ∧
      (LineTable.ofText source).lineOf 3 = 2 ∧
      render (.ofText source) ⟨"h", some ⟨1, 3⟩⟩ = "h\n1:\ta\n" ∧
      render (.ofText source) ⟨"h", some ⟨5, 5⟩⟩ = "h\n3:\t\n" := by
  have h : bytes "a\r\nb\n".toList < 2 ^ 32 := by decide
  have hfeeds : "a\r\nb\n".toList.count '\n' < 2 ^ 32 - 1 := by decide
  obtain ⟨hline, hshow⟩ := excerpt_shows_touched_lines h hfeeds
  exact ⟨h, hfeeds, hline 3 (by decide), hshow "h" ⟨1, 3⟩ (by decide) (by decide),
    hshow "h" ⟨5, 5⟩ (by decide) (by decide)⟩

/-- Line feeds alone can make up one line more than there are numbers, so the last line has none and
is not shown. -/
theorem render_wrapped {count : Nat} (h : count = Span.maxOffset) (headline : String) :
    let source := List.replicate count '\n'
    bytes source = count ∧ (LineTable.ofText source).lineOf count = 0 ∧
      render (.ofText source) ⟨headline, some (.point count)⟩ = headline ++ "\n" := by
  intro source
  have hbytes : bytes source = count := by
    clear h
    simp only [source]
    induction count with
    | zero => rfl
    | succ n ih =>
      rw [List.replicate_succ, bytes_cons, ih, Nat.add_comm]
      rfl
  have hline : (LineTable.ofText source).lineOf count = 0 := by
    have hfeeds := feeds_append source [] 0
    rw [List.append_nil, Nat.add_zero, hbytes, List.count_replicate_self, feeds_zero] at hfeeds
    rw [LineTable.lineOf_ofText (hbytes.trans h).le, hfeeds, Nat.add_zero, h]
    decide
  refine ⟨hbytes, hline, ?_⟩
  simp [render, excerpt, LineTable.linesOf, Span.point, hline, excerptLine, LineTable.lineText?]

/-- A carriage return at the end of the source ends no line, as there is no line feed after it. But
it is not shown with the text of the line. And the number of a line can be too large. -/
theorem excerpt_leaves_out_final_return :
    (let source := "a\r".toList
    '\n' ∉ source ∧ NumberedLine.ofText source = [⟨1, 0, source⟩] ∧
      NumberedLine.Touches ⟨1, 0, source⟩ ⟨0, 1⟩ ∧
      render (.ofText source) ⟨"h", some ⟨0, 1⟩⟩ = "h\n1:\ta\n" ∧
      render (.ofText source) ⟨"h", some ⟨0, 1⟩⟩ ≠
        "h\n" ++ (toString 1 ++ ":\t" ++ String.ofList source ++ "\n")) ∧
    let source := List.replicate Span.maxOffset '\n'
    bytes source = Span.maxOffset ∧ (LineTable.ofText source).lineOf Span.maxOffset = 0 ∧
      render (.ofText source) ⟨"h", some (.point Span.maxOffset)⟩ = "h" ++ "\n" := by
  have hshown : render (.ofText "a\r".toList) ⟨"h", some ⟨0, 1⟩⟩ = "h\n1:\ta\n" := by
    decide +kernel
  refine ⟨⟨by decide, by decide, by decide, hshown, ?_⟩, render_wrapped (Eq.refl _) "h"⟩
  rw [hshown]
  decide

end Diagnostic

end ArchiveScript
