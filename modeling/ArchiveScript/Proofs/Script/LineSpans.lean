import ArchiveScript.Proofs.Script.Scans
import ArchiveScript.Script.Reader

/-! # Lines of a source

The lines of a source follow one another, and each of them stands in the source with all of its
characters. So the offsets that a line gives are those of characters.
-/

namespace ArchiveScript

variable {source : List Char}

namespace Text

theorem trimEnd_prefix (text : List Char) : trimEnd text <+: text := by
  refine ⟨(text.reverse.takeWhile isBlank).reverse, ?_⟩
  rw [trimEnd, ← List.reverse_append, List.takeWhile_append_dropWhile, List.reverse_reverse]

theorem bytes_le_of_prefix {text whole : List Char} (h : text <+: whole) :
    bytes text ≤ bytes whole := by
  obtain ⟨rest, rfl⟩ := h
  rw [bytes_append]
  exact Nat.le_add_right _ _

end Text

namespace Line

def whole (line : Line) : List Char := line.margin ++ line.body ++ line.ending

def Within (source : List Char) (line : Line) : Prop :=
  ∃ before after, source = before ++ line.whole ++ after ∧ Text.bytes before = line.start

/-- The lines are lines of the source that follow one another from the offset on. -/
def Follow (source : List Char) (offset : Nat) : List Line → Prop
  | [] => offset ≤ Text.bytes source
  | line :: rest => offset ≤ line.start ∧ line.Within source ∧ Follow source line.next rest

variable {line : Line} {lines : List Line} {offset : Nat}

theorem Within.boundary_add (h : line.Within source) {text : List Char}
    (ht : text <+: line.whole) : Text.Boundary source (line.start + Text.bytes text) := by
  obtain ⟨before, after, rfl, hb⟩ := h
  obtain ⟨rest, hr⟩ := ht
  refine ⟨before ++ text, rest ++ after, ?_, ?_⟩
  · rw [← hr]
    simp only [List.append_assoc]
  · rw [Text.bytes_append, hb]

/-- The rest of a line after the beginning of it, with what follows in the line. -/
theorem Within.scan_within (h : line.Within source) (text rest more : List Char)
    (ht : line.whole = text ++ rest ++ more) :
    Scan.Within source ⟨line.start + Text.bytes text, rest⟩ := by
  obtain ⟨before, after, rfl, hb⟩ := h
  refine ⟨before ++ text, more ++ after, ?_, ?_⟩
  · rw [ht]
    simp only [List.append_assoc]
  · rw [Text.bytes_append, hb]

theorem Within.scan (h : line.Within source) : line.scan.Within source :=
  h.scan_within line.margin line.body line.ending rfl

theorem Within.next_boundary (h : line.Within source) : Text.Boundary source line.next := by
  have hb := h.boundary_add (List.prefix_refl line.whole)
  rwa [whole, Text.bytes_append, Text.bytes_append, ← Nat.add_assoc, ← Nat.add_assoc] at hb

theorem bodyStart_le_trimmedStop (line : Line) : line.bodyStart ≤ line.trimmedStop :=
  Nat.le_add_right _ _

theorem stop_le_next (line : Line) : line.stop ≤ line.next := Nat.le_add_right _ _

theorem trimmedStop_le_next (line : Line) : line.trimmedStop ≤ line.next := by
  have h := Text.bytes_le_of_prefix (Text.trimEnd_prefix line.body)
  have h' := line.stop_le_next
  simp only [trimmedStop, stop] at h' ⊢
  omega

theorem start_le_next (line : Line) : line.start ≤ line.next := by
  simp only [next, stop, bodyStart]
  omega

theorem bodyStart_le_next (line : Line) : line.bodyStart ≤ line.next :=
  Nat.le_trans line.bodyStart_le_trimmedStop line.trimmedStop_le_next

theorem start_le_bodyStart (line : Line) : line.start ≤ line.bodyStart :=
  Nat.le_add_right _ _

theorem start_le_stop (line : Line) : line.start ≤ line.stop := by
  simp only [stop, bodyStart]
  omega

theorem Within.start_boundary (h : line.Within source) : Text.Boundary source line.start :=
  h.boundary_add List.nil_prefix

theorem Within.stop_boundary (h : line.Within source) : Text.Boundary source line.stop := by
  have hb := h.boundary_add (List.prefix_append (line.margin ++ line.body) line.ending)
  rwa [Text.bytes_append, ← Nat.add_assoc] at hb

theorem Follow.mono {earlier : Nat} (h : Follow source offset lines) (he : earlier ≤ offset) :
    Follow source earlier lines := by
  cases lines with
  | nil => exact Nat.le_trans he h
  | cons line rest => exact ⟨Nat.le_trans he h.1, h.2⟩

theorem Follow.tail {rest : List Line} (h : Follow source offset (line :: rest)) :
    Follow source offset rest :=
  h.2.2.mono (Nat.le_trans h.1 line.start_le_next)

theorem Follow.suffix {rest : List Line} (h : Follow source offset lines) (hr : rest <:+ lines) :
    Follow source offset rest := by
  obtain ⟨before, rfl⟩ := hr
  induction before with
  | nil => exact h
  | cons line before ih => exact ih h.tail

theorem Follow.within (h : Follow source offset lines) (hm : line ∈ lines) :
    line.Within source := by
  induction lines generalizing offset with
  | nil => cases hm
  | cons first rest ih =>
    rcases List.mem_cons.1 hm with rfl | hm
    · exact h.2.1
    · exact ih h.2.2 hm

theorem whole_ofContent (start : Nat) (content feed : List Char) :
    (ofContent start content feed).whole = content ++ feed := by
  have hw (text ending : List Char) :
      Line.whole ⟨start, text.takeWhile Text.isIndent, text.dropWhile Text.isIndent, ending⟩ =
        text ++ ending := by
    rw [whole, List.takeWhile_append_dropWhile]
  unfold ofContent
  by_cases h : content.getLast? = some '\r'
  · obtain ⟨text, rfl⟩ := List.getLast?_eq_some_iff.1 h
    simp [hw]
  · simp [h, hw]

theorem next_eq (line : Line) : line.next = line.start + Text.bytes line.whole := by
  simp only [next, stop, bodyStart, whole, Text.bytes_append]
  omega

theorem start_ofContent (start : Nat) (content feed : List Char) :
    (ofContent start content feed).start = start := by
  unfold ofContent
  split
  rfl

theorem next_ofContent (start : Nat) (content feed : List Char) :
    (ofContent start content feed).next = start + Text.bytes (content ++ feed) := by
  rw [next_eq, whole_ofContent, start_ofContent]

theorem splitFrom_feed (start : Nat) (content rest : List Char) :
    splitFrom start content ('\n' :: rest) = ofContent start content.reverse ['\n'] ::
      splitFrom (start + Text.bytes (content.reverse ++ ['\n'])) [] rest := by
  rw [splitFrom, if_pos rfl, ← next_ofContent]

theorem splitFrom_char {c : Char} (hc : c ≠ '\n') (start : Nat) (content rest : List Char) :
    splitFrom start content (c :: rest) = splitFrom start (c :: content) rest := by
  rw [splitFrom, if_neg hc]

theorem splitFrom_follow (before : List Char) {content rest : List Char} {start : Nat}
    (hs : source = before ++ content.reverse ++ rest) (hb : Text.bytes before = start) :
    Follow source start (splitFrom start content rest) := by
  induction rest generalizing before content start with
  | nil =>
    unfold splitFrom
    split
    · change start ≤ Text.bytes source
      rw [hs, Text.bytes_append, Text.bytes_append, ← hb]
      omega
    · have hw : (ofContent start content.reverse []).Within source := by
        refine ⟨before, [], ?_, ?_⟩
        · rw [whole_ofContent, hs]
          simp
        · rw [start_ofContent, hb]
      exact ⟨Nat.le_of_eq (start_ofContent ..).symm, hw, hw.next_boundary.le⟩
  | cons c rest ih =>
    unfold splitFrom
    split
    · rename_i hc
      subst hc
      have hw : (ofContent start content.reverse ['\n']).Within source := by
        refine ⟨before, rest, ?_, ?_⟩
        · rw [whole_ofContent, hs]
          simp
        · rw [start_ofContent, hb]
      refine ⟨Nat.le_of_eq (start_ofContent ..).symm, hw, ?_⟩
      apply ih (before ++ content.reverse ++ ['\n'])
      · rw [hs]
        simp
      · rw [next_eq, whole_ofContent, start_ofContent, ← hb]
        simp only [Text.bytes_append]
        omega
    · apply ih before _ hb
      rw [hs, List.reverse_cons]
      simp

theorem split_follow (source : List Char) : Follow source 0 (split source) :=
  splitFrom_follow [] rfl rfl

theorem splitFrom_ascend (start : Nat) (content rest : List Char) :
    (∀ line ∈ splitFrom start content rest, start ≤ line.start) ∧
      (splitFrom start content rest).Pairwise fun line next => line.start < next.start := by
  induction rest generalizing start content with
  | nil =>
    unfold splitFrom
    split
    · exact ⟨by simp, .nil⟩
    · exact ⟨List.forall_mem_singleton.2 (Nat.le_of_eq (start_ofContent ..).symm),
        List.pairwise_singleton _ _⟩
  | cons c rest ih =>
    by_cases hc : c = '\n'
    · subst hc
      obtain ⟨hafter, hrest⟩ := ih (start + Text.bytes (content.reverse ++ ['\n'])) []
      have hpos : 0 < Text.bytes (content.reverse ++ ['\n']) := by
        rw [Text.bytes_append, Text.bytes_cons]
        have := Char.utf8Size_pos '\n'
        omega
      rw [splitFrom_feed]
      constructor
      · refine List.forall_mem_cons.2 ⟨Nat.le_of_eq (start_ofContent ..).symm, fun line hm => ?_⟩
        exact Nat.le_trans (Nat.le_add_right _ _) (hafter line hm)
      · refine List.pairwise_cons.2 ⟨fun line hm => ?_, hrest⟩
        rw [start_ofContent]
        exact Nat.lt_of_lt_of_le (Nat.lt_add_of_pos_right hpos) (hafter line hm)
    · rw [splitFrom_char hc]
      exact ih start (c :: content)

end Line

end ArchiveScript
