import Mathlib
import ArchiveScript.Proofs.Printing.Lines
import ArchiveScript.Proofs.Script.LineSpans
import ArchiveScript.Proofs.Source.NumberedLines

/-! # The lines of scripts and of line tables

A script is cut into lines when it is read, and its line table is made of the same text. Both cut
it at the same places, so an offset that comes from a line leads back to that line.
-/

namespace ArchiveScript

open Text

variable {source : List Char}

namespace Line

/-- The lines follow one another without a gap, from one offset to another, and each of them has
its margin before its text. -/
def Tile (offset stop : Nat) : List Line → Prop
  | [] => offset = stop
  | line :: rest =>
    line.start = offset ∧ line.start ≤ line.bodyStart ∧ line.bodyStart ≤ line.stop ∧
      line.stop ≤ line.next ∧ Tile line.next stop rest

theorem splitFrom_tile (start : Nat) (content rest : List Char) :
    Tile start (start + bytes (content.reverse ++ rest)) (splitFrom start content rest) := by
  induction rest generalizing start content with
  | nil =>
    rw [List.append_nil, splitFrom]
    split
    · rename_i hc
      obtain rfl := List.isEmpty_iff.1 hc
      rfl
    · refine ⟨start_ofContent .., Nat.le_add_right .., Nat.le_add_right .., stop_le_next _, ?_⟩
      rw [next_ofContent, List.append_nil]
      rfl
  | cons c rest ih =>
    by_cases hc : c = '\n'
    · subst hc
      have hbytes : start + bytes (content.reverse ++ '\n' :: rest) =
          start + bytes (content.reverse ++ ['\n']) + bytes ([].reverse ++ rest) := by
        simp only [bytes_append, bytes_cons, bytes_nil, List.reverse_nil, List.nil_append]
        omega
      rw [splitFrom_feed, hbytes]
      refine ⟨start_ofContent .., Nat.le_add_right .., Nat.le_add_right .., stop_le_next _, ?_⟩
      rw [next_ofContent]
      exact ih ..
    · rw [splitFrom_char hc]
      have hi := ih start (c :: content)
      rwa [List.reverse_cons, List.append_assoc, List.singleton_append] at hi

theorem bytes_bare_le (content : List Char) : bytes (LineTable.bare content) ≤ bytes content := by
  have hdrop (text : List Char) (last : Char) :
      (if text.getLast? = some last then text.dropLast else text) <+: text := by
    split
    · exact List.dropLast_prefix text
    · exact List.prefix_refl text
  exact bytes_le_of_prefix ((hdrop _ '\r').trans (hdrop content '\n'))

theorem margin_append_body {content : List Char} (h : '\n' ∉ content) (start : Nat)
    (feed : List Char) :
    (ofContent start content feed).margin ++ (ofContent start content feed).body =
      LineTable.bare content := by
  have hl : content.getLast? ≠ some '\n' := fun hl => h (List.mem_of_getLast? hl)
  rw [LineTable.bare, if_neg hl, ofContent]
  by_cases hr : content.getLast? = some '\r'
  · rw [if_pos hr, if_pos hr]
    exact List.takeWhile_append_dropWhile
  · rw [if_neg hr, if_neg hr]
    exact List.takeWhile_append_dropWhile

theorem Within.slice {line : Line} (h : line.Within source) :
    (dropBytes line.start source).bind (takeBytes (line.stop - line.start)) =
      some (line.margin ++ line.body) := by
  obtain ⟨before, after, rfl, hb⟩ := h
  have hsize : line.stop - line.start = bytes (line.margin ++ line.body) := by
    rw [stop, bodyStart, bytes_append]
    omega
  rw [← hb, List.append_assoc, dropBytes_append, Option.bind_some, hb, hsize, whole,
    List.append_assoc, takeBytes_append]

theorem splitFrom_numbered {number start : Nat} {first : List Char} {rest : List (List Char)}
    (hf : ∀ content ∈ first :: rest, '\n' ∉ content) {index : Nat} {line : Line}
    (hl : (splitFrom start [] (first ++ rest.flatMap ('\n' :: ·)))[index]? = some line) :
    ∃ numbered feed,
      (NumberedLine.numberFrom number start (first :: rest))[index]? = some numbered ∧
      line = ofContent numbered.start numbered.content feed ∧ bytes feed ≤ 1 := by
  obtain ⟨hfirst, hrest⟩ := List.forall_mem_cons.1 hf
  induction rest generalizing first number start index with
  | nil =>
    rw [List.flatMap_nil, Printing.splitFrom_run hfirst, splitFrom] at hl
    split at hl
    · cases hl
    · rw [List.append_nil, List.reverse_reverse] at hl
      obtain ⟨hi, rfl⟩ := List.getElem?_eq_some_iff.1 hl
      obtain rfl := Nat.lt_one_iff.1 hi
      exact ⟨_, [], rfl, rfl, Nat.zero_le 1⟩
  | cons second rest ih =>
    have hmore := List.forall_mem_cons.1 hrest
    rw [List.flatMap_cons, List.cons_append, Printing.splitFrom_content hfirst] at hl
    cases index with
    | zero => exact ⟨_, ['\n'], rfl, (Option.some.inj hl).symm, Nat.le_refl 1⟩
    | succ index =>
      have hsize : bytes ['\n'] = 1 := by decide
      rw [List.getElem?_cons_succ, next_ofContent, bytes_append, hsize, ← Nat.add_assoc] at hl
      exact ih hrest hl hmore.1 hmore.2

variable {index : Nat} {line : Line}

theorem within_of_split (hl : (split source)[index]? = some line) : line.Within source := by
  obtain ⟨before, after, hsplit⟩ := List.append_of_mem (List.mem_of_getElem? hl)
  exact ((split_follow source).suffix ⟨before, hsplit.symm⟩).2.1

theorem split_numbered (hl : (split source)[index]? = some line) :
    ∃ numbered feed, (NumberedLine.ofText source)[index]? = some numbered ∧
      line = ofContent numbered.start numbered.content feed ∧ bytes feed ≤ 1 ∧
      '\n' ∉ numbered.content := by
  obtain ⟨first, rest, hs, ht, hf⟩ := splitOn_feed source
  rw [split, ht] at hl
  obtain ⟨numbered, feed, hn, he, hfeed⟩ := splitFrom_numbered hf hl
  rw [← hs] at hn
  refine ⟨numbered, feed, hn, he, hfeed, hf _ ?_⟩
  exact hs ▸ List.mem_of_getElem? (NumberedLine.of_getElem? hn).2

/-- There are no more lines than bytes, as no line is empty. -/
theorem length_splitFrom_le (start : Nat) (content rest : List Char) :
    (splitFrom start content rest).length ≤ bytes (content ++ rest) := by
  induction rest generalizing start content with
  | nil =>
    rw [splitFrom, List.append_nil]
    cases content with
    | nil => exact Nat.le_refl 0
    | cons c content =>
      have hpos := c.utf8Size_pos
      rw [bytes_cons]
      exact Nat.le_add_right_of_le hpos
  | cons c rest ih =>
    by_cases hc : c = '\n'
    · subst hc
      have hrest := ih (start + bytes (content.reverse ++ ['\n'])) []
      have hsize : bytes ('\n' :: rest) = 1 + bytes rest := rfl
      rw [List.nil_append] at hrest
      rw [splitFrom_feed, List.length_cons, bytes_append content, hsize]
      omega
    · rw [splitFrom_char hc]
      refine Nat.le_trans (ih start (c :: content)) (Nat.le_of_eq ?_)
      rw [bytes_append, bytes_append, bytes_cons, bytes_cons]
      omega

theorem index_lt_of_split (hl : (split source)[index]? = some line) : index < bytes source := by
  obtain ⟨hi, -⟩ := List.getElem?_eq_some_iff.1 hl
  exact Nat.lt_of_lt_of_le hi (length_splitFrom_le 0 [] source)

/-- The line table takes the offsets of a line to it, also one at the end of the source. -/
theorem lineOf_split (h : bytes source ≤ Span.maxOffset) (hl : (split source)[index]? = some line)
    {offset : Nat} (hstart : line.start ≤ offset)
    (hstop : offset ≤ line.stop ∨ offset < line.next) :
    (LineTable.ofText source).lineOf offset = index + 1 := by
  have hle := (within_of_split hl).next_boundary.le
  have hnext := line.stop_le_next
  obtain ⟨numbered, feed, hn, rfl, hfeed, hno⟩ := split_numbered hl
  have hmem := List.mem_of_getElem? hn
  have hnumber := (NumberedLine.of_getElem? hn).1
  have hbody := congrArg bytes (margin_append_body hno numbered.start feed)
  have hbare := bytes_bare_le numbered.content
  rw [bytes_append] at hbody
  have hto : offset < numbered.stop := by
    simp only [NumberedLine.stop, stop, bodyStart, next_ofContent, start_ofContent, bytes_append]
      at hstart hstop ⊢
    omega
  have hfrom : numbered.start ≤ offset := by rwa [start_ofContent] at hstart
  have ho : offset ≤ bytes source := by omega
  have hfirst := (NumberedLine.start_le_iff hmem ho).1 hfrom
  have hlast := (NumberedLine.lt_stop_iff hmem ho).1 hto
  have hindex := index_lt_of_split hl
  rw [LineTable.lineOf_ofText h, LineTable.numberAt_eq (by omega)]
  omega

end Line

namespace LineTable

theorem length_startsFrom {content : List Char} (h : '\n' ∉ content) (start offset : Nat)
    (rest : List Char) :
    (startsFrom offset rest).length + 1 = (Line.splitFrom start content rest).length +
      if content.reverse ++ rest = [] ∨ (content.reverse ++ rest).getLast? = some '\n' then 1
      else 0 := by
  induction rest generalizing content start offset with
  | nil =>
    have hl : content.reverse.getLast? ≠ some '\n' :=
      fun hl => h (List.mem_reverse.1 (List.mem_of_getLast? hl))
    rw [List.append_nil, startsFrom, Line.splitFrom]
    cases content <;> simp_all
  | cons c rest ih =>
    rw [startsFrom]
    by_cases hc : c = '\n'
    · subst hc
      have hi := ih List.not_mem_nil (start + bytes (content.reverse ++ ['\n']))
        (offset + '\n'.utf8Size)
      have hlast : (content.reverse ++ '\n' :: rest = [] ∨
          (content.reverse ++ '\n' :: rest).getLast? = some '\n') ↔
          ([].reverse ++ rest = [] ∨ ([].reverse ++ rest).getLast? = some '\n') := by
        rcases List.eq_nil_or_concat rest with rfl | ⟨before, last, rfl⟩ <;>
          simp [List.getLast?_cons]
      rw [if_pos rfl, Line.splitFrom_feed, List.length_cons, List.length_cons, hi]
      simp only [hlast]
      omega
    · have hi := ih (List.not_mem_cons_of_ne_of_not_mem (Ne.symm hc) h) start (offset + c.utf8Size)
      rw [List.reverse_cons, List.append_assoc, List.singleton_append] at hi
      rw [if_neg hc, Line.splitFrom_char hc, hi]

/-- The script and its line table have the same lines, apart from an empty last line that only the
table has. The table gives each line its text, and takes each of its offsets to it. -/
theorem split_agrees_with_table (h : bytes source < 2 ^ 32) :
    let table := ofText source
    (∀ index line, (Line.split source)[index]? = some line →
      (∃ text, table.lineText? (index + 1) = some text ∧
        (dropBytes line.start source).bind (takeBytes (line.stop - line.start)) = some text) ∧
      ∀ offset, line.start ≤ offset → offset < line.next → table.lineOf offset = index + 1) ∧
    Line.Tile 0 (bytes source) (Line.split source) ∧
    table.lineCount = (Line.split source).length +
      if source = [] ∨ source.getLast? = some '\n' then 1 else 0 := by
  intro table
  refine ⟨fun index line hl => ⟨?_, fun offset hstart hnext => ?_⟩, ?_, ?_⟩
  · have hslice := (Line.within_of_split hl).slice
    obtain ⟨numbered, feed, hn, rfl, -, hno⟩ := Line.split_numbered hl
    refine ⟨bare numbered.content, ?_, ?_⟩
    · rw [lineText?_ofText (Nat.le_of_lt_succ h), (NumberedLine.of_getElem? hn).2, Option.map_some]
    · rw [hslice, Line.margin_append_body hno]
  · exact Line.lineOf_split (Nat.le_of_lt_succ h) hl hstart (.inr hnext)
  · have htile := Line.splitFrom_tile 0 [] source
    rwa [Nat.zero_add] at htile
  · exact length_startsFrom List.not_mem_nil 0 0 source

theorem split_agrees_with_table_feeds :
    let source := "a\r\n\n  b\r".toList
    bytes source < 2 ^ 32 ∧ (Line.split source)[2]? = some ⟨4, [' ', ' '], ['b'], ['\r']⟩ ∧
      (ofText source).lineText? 3 = some "  b".toList ∧ (ofText source).lineOf 7 = 3 ∧
      (ofText source).lineCount = 3 := by
  have h : bytes "a\r\n\n  b\r".toList < 2 ^ 32 := by decide
  have hl : (Line.split "a\r\n\n  b\r".toList)[2]? = some ⟨4, [' ', ' '], ['b'], ['\r']⟩ := by
    decide
  obtain ⟨hlines, -, hcount⟩ := split_agrees_with_table h
  obtain ⟨⟨text, ht, hslice⟩, hoffsets⟩ := hlines 2 _ hl
  have htext : some text = some "  b".toList := hslice.symm.trans (by decide)
  exact ⟨h, hl, ht.trans htext, hoffsets 7 (by decide) (by decide), hcount.trans (by decide)⟩

end LineTable

end ArchiveScript
