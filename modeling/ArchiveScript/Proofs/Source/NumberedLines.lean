import ArchiveScript.Proofs.Source.LineEnds

/-! # Numbered lines

A text is cut at its line feeds. Each piece is a line, which ends with the line feed after it, and
the last one goes up to the end of the text. A line table numbers just these lines and gives their
texts.
-/

namespace ArchiveScript

open Text

variable {source first : List Char} {rest : List (List Char)}

theorem splitOn_feed (text : List Char) :
    ∃ first rest, text.splitOn '\n' = first :: rest ∧
      text = first ++ rest.flatMap ('\n' :: ·) ∧ ∀ line ∈ first :: rest, '\n' ∉ line := by
  induction text with
  | nil => exact ⟨[], [], rfl, rfl, by simp⟩
  | cons c text ih =>
    obtain ⟨first, rest, hs, ht, hl⟩ := ih
    rw [List.splitOn_eq_splitOnP] at hs ⊢
    rw [List.splitOnP_cons_eq_if_modifyHead, hs]
    by_cases hc : c = '\n'
    · exact ⟨[], first :: rest, by simp [hc], by simp [hc, ← ht], by simpa using hl⟩
    · refine ⟨c :: first, rest, by simp [hc], by rw [List.cons_append, ← ht], ?_⟩
      rw [List.forall_mem_cons] at hl ⊢
      exact ⟨by simp [Ne.symm hc, hl.1], hl.2⟩

/-- A line with its number, the offset of its first byte, and its content, which does not include
the line feed. -/
structure NumberedLine where
  number : Nat
  start : Nat
  content : List Char
  deriving DecidableEq, Repr

namespace NumberedLine

/-- The offset after the line feed. The last line has no line feed, but it has the end of the text
in its place. -/
def stop (line : NumberedLine) : Nat := line.start + bytes line.content + 1

def numberFrom (number start : Nat) : List (List Char) → List NumberedLine
  | [] => []
  | content :: rest =>
    let line : NumberedLine := ⟨number, start, content⟩
    line :: numberFrom (number + 1) line.stop rest

def ofText (source : List Char) : List NumberedLine := numberFrom 1 0 (source.splitOn '\n')

theorem map_content (number start : Nat) (contents : List (List Char)) :
    (numberFrom number start contents).map content = contents := by
  induction contents generalizing number start with
  | nil => rfl
  | cons content contents ih => rw [numberFrom, List.map_cons, ih]

theorem map_number (number start : Nat) (contents : List (List Char)) :
    (numberFrom number start contents).map NumberedLine.number =
      List.range' number contents.length := by
  induction contents generalizing number start with
  | nil => rfl
  | cons content contents ih =>
    rw [numberFrom, List.map_cons, ih, List.length_cons, List.range'_succ]

theorem of_getElem? {index : Nat} {line : NumberedLine} (h : (ofText source)[index]? = some line) :
    line.number = index + 1 ∧ (source.splitOn '\n')[index]? = some line.content := by
  have hnumber := congrArg (·[index]?) (map_number 1 0 (source.splitOn '\n'))
  have hcontent := congrArg (·[index]?) (map_content 1 0 (source.splitOn '\n'))
  rw [ofText] at h
  simp only [List.getElem?_map, h, Option.map_some] at hnumber hcontent
  obtain ⟨hi, hn⟩ := List.getElem?_eq_some_iff.1 hnumber.symm
  rw [List.getElem_range'] at hn
  exact ⟨by omega, hcontent.symm⟩

theorem le_of_mem {number start : Nat} {contents : List (List Char)} {line : NumberedLine}
    (h : line ∈ numberFrom number start contents) : number ≤ line.number ∧ start ≤ line.start := by
  induction contents generalizing number start with
  | nil => cases h
  | cons content contents ih =>
    rcases List.mem_cons.1 h with rfl | h
    · exact ⟨Nat.le_refl _, Nat.le_refl _⟩
    · have hle := ih h
      simp only [stop] at hle
      omega

/-- The number of a line tells whether an offset is before, on or behind the line. -/
theorem place_iff {number start : Nat} (hf : ∀ content ∈ first :: rest, '\n' ∉ content)
    {line : NumberedLine} (hl : line ∈ numberFrom number start (first :: rest)) {offset : Nat}
    (ho : offset ≤ bytes (first ++ rest.flatMap ('\n' :: ·))) :
    (line.start ≤ start + offset ↔
        line.number ≤ number + feeds (first ++ rest.flatMap ('\n' :: ·)) offset) ∧
      (start + offset < line.stop ↔
        number + feeds (first ++ rest.flatMap ('\n' :: ·)) offset ≤ line.number) := by
  obtain ⟨hfirst, hrest⟩ := List.forall_mem_cons.1 hf
  induction rest generalizing first number start offset with
  | nil =>
    obtain rfl := List.mem_singleton.1 hl
    rw [List.flatMap_nil, List.append_nil] at ho ⊢
    have hz := feeds_line hfirst [] ho
    rw [List.append_nil] at hz
    simp only [hz, stop]
    omega
  | cons second rest ih =>
    rw [List.flatMap_cons, List.cons_append] at ho ⊢
    by_cases hin : offset ≤ bytes first
    · rw [feeds_line hfirst _ hin]
      rcases List.mem_cons.1 hl with rfl | hl
      · simp only [stop]
        omega
      · have hle := le_of_mem hl
        simp only [stop] at hle ⊢
        omega
    · -- The offset is behind the line feed, so it is an offset of the lines after this one.
      obtain ⟨n, rfl⟩ : ∃ n, offset = bytes first + (n + 1) := ⟨offset - bytes first - 1, by omega⟩
      have hsize : '\n'.utf8Size = 1 := by decide
      rw [bytes_append, bytes_cons, hsize] at ho
      rw [feeds_append, feeds_feed, List.count_eq_zero_of_not_mem hfirst]
      rcases List.mem_cons.1 hl with rfl | hl
      · simp only [stop]
        omega
      · have hn : n ≤ bytes (second ++ rest.flatMap ('\n' :: ·)) := by omega
        have hi := ih hrest hl hn (hrest _ List.mem_cons_self)
          fun content hc => hrest content (List.mem_cons_of_mem second hc)
        simp only [stop] at hi ⊢
        omega

theorem start_le_iff {line : NumberedLine} (hl : line ∈ ofText source) {offset : Nat}
    (ho : offset ≤ bytes source) : line.start ≤ offset ↔ line.number ≤ feeds source offset + 1 := by
  obtain ⟨first, rest, hs, rfl, hf⟩ := splitOn_feed source
  rw [ofText, hs] at hl
  rw [Nat.add_comm]
  have hp := (place_iff hf hl ho).1
  rwa [Nat.zero_add] at hp

theorem lt_stop_iff {line : NumberedLine} (hl : line ∈ ofText source) {offset : Nat}
    (ho : offset ≤ bytes source) : offset < line.stop ↔ feeds source offset + 1 ≤ line.number := by
  obtain ⟨first, rest, hs, rfl, hf⟩ := splitOn_feed source
  rw [ofText, hs] at hl
  rw [Nat.add_comm]
  have hp := (place_iff hf hl ho).2
  rwa [Nat.zero_add] at hp

end NumberedLine

namespace LineTable

open NumberedLine

theorem bare_feed {content : List Char} (h : '\n' ∉ content) :
    bare (content ++ ['\n']) = bare content := by
  have hl : content.getLast? ≠ some '\n' := fun hl => h (List.mem_of_getLast? hl)
  rw [bare, bare, List.getLast?_concat, if_pos rfl, List.dropLast_concat, if_neg hl]

theorem textsFrom_run {content : List Char} (h : '\n' ∉ content) (begun more : List Char) :
    textsFrom begun (content ++ more) = textsFrom (content.reverse ++ begun) more := by
  induction content generalizing begun with
  | nil => rfl
  | cons c content ih =>
    have hc : c ≠ '\n' := fun hc => h (hc ▸ List.mem_cons_self)
    rw [List.cons_append, textsFrom, if_neg hc, ih fun hm => h (List.mem_cons_of_mem c hm),
      List.reverse_cons, List.append_assoc, List.singleton_append]

theorem textsFrom_bare (hf : ∀ content ∈ first :: rest, '\n' ∉ content) :
    (textsFrom [] (first ++ rest.flatMap ('\n' :: ·))).map bare = (first :: rest).map bare := by
  obtain ⟨hfirst, hrest⟩ := List.forall_mem_cons.1 hf
  induction rest generalizing first with
  | nil =>
    rw [textsFrom_run hfirst, List.flatMap_nil, textsFrom, List.append_nil, List.reverse_reverse]
  | cons second rest ih =>
    have hmore := List.forall_mem_cons.1 hrest
    rw [textsFrom_run hfirst, List.flatMap_cons, List.cons_append, textsFrom, if_pos rfl,
      List.map_cons, List.map_cons, ih hrest hmore.1 hmore.2, List.append_nil, List.reverse_cons,
      List.reverse_reverse, bare_feed hfirst]

theorem lineText?_ofText (h : bytes source ≤ Span.maxOffset) (index : Nat) :
    (ofText source).lineText? (index + 1) = (source.splitOn '\n')[index]?.map bare := by
  obtain ⟨first, rest, hs, ht, hf⟩ := splitOn_feed source
  have htexts := textsFrom_bare hf
  rw [← ht, ← hs] at htexts
  have hi := congrArg (·[index]?) htexts
  rw [lineText?_succ h]
  simpa using hi

end LineTable

end ArchiveScript
