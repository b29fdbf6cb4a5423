import ArchiveScript.Proofs.Printing.Statement

/-! # Scripts of one statement

A script whose first line begins a statement that reaches to the end of the script, blank lines
and comments apart, has this statement as its only child. Its last line may do without a line feed.
-/

namespace ArchiveScript

namespace Line

variable {content ending : List Char}

/-- A content that does not end with a carriage return is the text of its line. -/
theorem ofContent_eq (h : content.getLast? ≠ some '\r') (start : Nat) (feed : List Char) :
    ofContent start content feed =
      ⟨start, content.takeWhile Text.isIndent, content.dropWhile Text.isIndent, feed⟩ := by
  rw [ofContent, if_neg h]

theorem splitFrom_end (h : '\n' ∉ content) (hn : content ≠ []) (he : ending = [] ∨ ending = ['\n'])
    (start : Nat) : splitFrom start [] (content ++ ending) = [ofContent start content ending] := by
  rcases he with rfl | rfl
  · rw [Printing.splitFrom_run h, splitFrom, List.append_nil, List.reverse_reverse, if_neg]
    simpa using hn
  · rw [Printing.splitFrom_content h]
    rfl

end Line

namespace Printing

open Node

variable {source : List Char} {header : Line} {lines after : List Line} {tree : Node}

theorem reads_takes {left : List Line} {children : List Child}
    (ht : Takes (blockItems ((Line.split source).length + 1) none none .topLevel)
      (Line.split source) left children) :
    ReadsAs source (branch .sourceFile children) := by
  have hr : Takes (sourceFile source) (Line.split source) left (branch .sourceFile children) :=
    .peek_bind (ht.bind (.inline rfl))
  exact ⟨left, hr⟩

/-- The statement on the first line that is not idle is all that is read. -/
theorem reads_single (hs : (Line.split source).dropWhile Line.isIdle = header :: lines)
    (ha : ∀ line ∈ after, line.isIdle = true)
    (ht : ∀ fuel, lines.length < fuel →
      Takes (Statement.statement (blockItems fuel none) header true) lines after tree) :
    ReadsAs source (branch .sourceFile [(none, tree)]) := by
  have hlength := (List.dropWhile_suffix (l := Line.split source) Line.isIdle).length_le
  rw [hs, List.length_cons] at hlength
  obtain ⟨fuel, hf⟩ : ∃ n, (Line.split source).length = n + 1 :=
    ⟨(Line.split source).length - 1, by omega⟩
  have hitem : Takes (blockItem (blockItems (fuel + 1) none) .topLevel header) lines after
      (none, tree) := (ht _ (by omega)).bind (.pure _)
  have hidle : after.dropWhile Line.isIdle = [] := by
    rw [← List.append_nil after, List.dropWhile_append_of_pos ha]
    rfl
  have hclosed : Takes (blockItems (fuel + 1) (some header.indent) none .topLevel) after [] [] :=
    .skipIdle_to hidle (.peek_bind (.pure []))
  have hall : Takes (blockItems (fuel + 1 + 1) none none .topLevel) (Line.split source) []
      [(none, tree)] := blockItems_step hs rfl rfl hitem hclosed
  exact reads_takes (hf ▸ hall)

theorem reads_head {head ending : List Char} (hh : Heads head) (ho : OneLine head)
    (he : ending = [] ∨ ending = ['\n'])
    (ht : ∀ (header : Line) fuel, header.margin = [] → header.body = head → 0 < fuel →
      Takes (Statement.statement (blockItems fuel none) header true) [] [] tree) :
    ReadsAs (head ++ ending) (branch .sourceFile [(none, tree)]) := by
  have hs := Line.splitFrom_end ho.feed hh.nonempty he 0
  rw [Line.ofContent_eq ho.last, Scan.takeWhile_eq_nil hh.indent,
    Scan.dropWhile_eq_self hh.indent] at hs
  have hd : (⟨0, [], head, ending⟩ : Line).isIdle = false := by
    simp [Line.isIdle, Line.isEmpty, Line.isComment, hh.nonempty, hh.comment]
  have hsplit : (Line.split (head ++ ending)).dropWhile Line.isIdle = [⟨0, [], head, ending⟩] := by
    rw [Line.split, hs]
    exact List.dropWhile_cons_of_neg (by simp [hd])
  exact reads_single hsplit (List.forall_mem_nil _) fun fuel => ht _ fuel rfl rfl

theorem reads_line (statement : Simple) {ending : List Char}
    (hl : ∀ layout, statement.lines layout = []) (he : ending = [] ∨ ending = ['\n']) :
    ReadsAs (statement.head ++ ending) (branch .sourceFile [(none, statement.tree)]) := by
  have hh : Heads statement.head := (Stmt.head_begins (.simple statement)).1
  refine reads_head hh statement.head_oneLine he fun header fuel hg hbody hf => ?_
  have hb : Below header ((Layout.uniform 1 Nat.one_pos).inside 0) [] := by
    constructor
    · rw [Line.indent, hg]
      exact Nat.one_pos
    · intro line hn
      cases hn
  have hn : Shown (statement.lines ((Layout.uniform 1 Nat.one_pos).inside 0)) [] := by
    rw [hl]
    exact .nil
  exact simple_print hb statement hbody hn hf true

def longNumber (count : Nat) : Digits where
  first := '1'
  more := List.replicate count '0'
  isDigit c hc := by
    rcases List.mem_cons.1 hc with rfl | hm
    · decide
    · rw [List.eq_of_mem_replicate hm]
      decide

theorem bytes_longNumber {limit count : Nat} (h : limit ≤ count) :
    limit < Text.bytes (longNumber count).print := by
  have hbytes := Text.length_le_bytes (longNumber count).print
  simp only [Digits.print, longNumber, List.length_cons, List.length_replicate] at hbytes ⊢
  omega

end Printing

end ArchiveScript
