import ArchiveScript.Proofs.Script.Scans
import ArchiveScript.Script.Reader

/-! # Spans of mistakes

The span of a mistake covers a part of the source, whose characters it does not cut. The mistake
about an unknown escape is the exception: its span is two bytes long, and the character behind the
backslash may have more than one.
-/

namespace ArchiveScript

variable {source : List Char}

namespace Mistake

/-- The mistake is about an unknown escape, and its span ends inside of the character that follows
the backslash. -/
structure CutsEscape (source : List Char) (mistake : Mistake) : Prop where
  complaint : mistake.complaint = .unknownEscape
  stop_eq : mistake.span.stop = mistake.span.start + 2
  wide : ∃ before c after, source = before ++ '\\' :: c :: after ∧
    Text.bytes before = mistake.span.start ∧ 1 < c.utf8Size

/-- The span of the mistake is a part of the source, and only after the backslash of an unknown
escape may it end inside of a character. -/
structure Cites (source : List Char) (mistake : Mistake) : Prop where
  start_le_stop : mistake.span.start ≤ mistake.span.stop
  stop_le : mistake.span.stop ≤ Text.bytes source
  start_boundary : Text.Boundary source mistake.span.start
  stop_boundary : Text.Boundary source mistake.span.stop ∨ mistake.CutsEscape source

end Mistake

theorem Text.not_boundary_inside {before after : List Char} {c : Char} {offset : Nat}
    (hs : source = before ++ c :: after) (hlo : Text.bytes before < offset)
    (hhi : offset < Text.bytes before + c.utf8Size) : ¬ Text.Boundary source offset := by
  rintro ⟨first, second, hsource, rfl⟩
  rw [hs, List.append_eq_append_iff] at hsource
  obtain ⟨more, rfl, hmore⟩ | ⟨more, rfl, -⟩ := hsource
  · cases more with
    | nil => simp at hlo
    | cons d more =>
      obtain ⟨rfl, -⟩ := List.cons.inj hmore
      rw [Text.bytes_append, Text.bytes_cons] at hhi
      omega
  · rw [Text.bytes_append] at hlo
    omega

theorem Mistake.CutsEscape.not_boundary {mistake : Mistake} (h : mistake.CutsEscape source) :
    ¬ Text.Boundary source mistake.span.stop := by
  obtain ⟨before, c, after, hsource, hb, hwide⟩ := h.wide
  have hbytes : Text.bytes (before ++ ['\\']) = mistake.span.start + 1 := by
    rw [Text.bytes_append, hb]
    rfl
  have hsplit : source = (before ++ ['\\']) ++ c :: after := by
    rw [hsource, List.append_assoc]
    rfl
  refine Text.not_boundary_inside hsplit ?_ ?_
  · rw [h.stop_eq, hbytes]
    omega
  · rw [h.stop_eq, hbytes]
    omega

theorem Mistake.Cites.of_node {complaint : Complaint} {node : Node} (h : node.SpanFits source) :
    Mistake.Cites source ⟨complaint, node.span⟩ :=
  ⟨h.start_le_stop, h.stop_le, h.start_boundary, .inl h.stop_boundary⟩

theorem exists_of_repeatedFields {passed children : List Child} {mistake : Mistake}
    (h : mistake ∈ repeatedFields Node.span passed children) :
    ∃ field node, (some field, node) ∈ children ∧
      mistake = ⟨.repeatedField field, node.span⟩ := by
  induction children generalizing passed with
  | nil => cases h
  | cons child rest ih =>
    obtain ⟨_ | field, node⟩ := child
    · obtain ⟨field', node', hm, he⟩ := ih h
      exact ⟨field', node', List.mem_cons_of_mem _ hm, he⟩
    · have hrest (h : mistake ∈ repeatedFields Node.span ((some field, node) :: passed) rest) :
          ∃ field' node', (some field', node') ∈ (some field, node) :: rest ∧
            mistake = ⟨.repeatedField field', node'.span⟩ := by
        obtain ⟨field', node', hm, he⟩ := ih h
        exact ⟨field', node', List.mem_cons_of_mem _ hm, he⟩
      rw [repeatedFields] at h
      split at h
      · rcases List.mem_cons.1 h with rfl | h
        · exact ⟨field, node, List.mem_cons_self, rfl⟩
        · exact hrest h
      · exact hrest h

theorem Node.LieInOrder.repeatedFields_cite {lo hi : Nat} {passed children : List Child}
    (h : Node.LieInOrder source lo hi children) :
    ∀ mistake ∈ repeatedFields Node.span passed children, mistake.Cites source := by
  intro mistake hm
  obtain ⟨field, node, hmem, rfl⟩ := exists_of_repeatedFields hm
  exact .of_node (h.mem _ hmem).span

section

variable (hs : Text.bytes source ≤ Span.maxOffset)

include hs

theorem Mistake.Cites.of_between {complaint : Complaint} {start stop : Nat} (hle : start ≤ stop)
    (hstart : Text.Boundary source start) (hstop : Text.Boundary source stop) :
    Mistake.Cites source ⟨complaint, .between start stop⟩ := by
  have hspan := Span.between_eq (Nat.le_trans hstart.le hs) (Nat.le_trans hstop.le hs)
  constructor <;> rw [hspan]
  · exact hle
  · exact hstop.le
  · exact hstart
  · exact .inl hstop

namespace Scan

variable {s after : Scan}

/-- The span of an unknown escape ends inside of the character after the backslash, if this one has
more than one byte. -/
theorem Within.cites_escape (hw : s.Within source) (hhead : s.rest.head? = some '\\') :
    Mistake.Cites source ⟨.unknownEscape, .between s.pos (min (s.pos + 2) s.limit)⟩ := by
  obtain ⟨rest, hrest⟩ := List.head?_eq_some_iff.1 hhead
  have hslash : ('\\').utf8Size = 1 := rfl
  -- The span is one of whole characters after `n` of them.
  have hwhole (n : Nat) (hn : min (s.pos + 2) s.limit = (s.skip n).pos) :
      Mistake.Cites source ⟨.unknownEscape, .between s.pos (min (s.pos + 2) s.limit)⟩ := by
    have ha := skip_advances n s
    rw [hn]
    exact .of_between hs ha.pos_le hw.boundary (ha.within hw).boundary
  cases rest with
  | nil => exact hwhole 1 (by simp [skip, limit, hrest, hslash])
  | cons c rest =>
    have hpos := c.utf8Size_pos
    have hstop : min (s.pos + 2) s.limit = s.pos + 2 := by
      simp only [limit, hrest, Text.bytes_cons, hslash]
      omega
    rcases Nat.eq_or_lt_of_le hpos with hone | hwide
    · exact hwhole 2 (by simp [hstop, skip, hrest, hslash, ← hone])
    · have hstart := hw.boundary
      obtain ⟨before, after, hsource, hb⟩ := hw
      have hin : s.pos + 2 ≤ Text.bytes source := by
        rw [hsource, hrest]
        simp only [Text.bytes_append, Text.bytes_cons, hslash, hb]
        omega
      have hsplit : source = before ++ '\\' :: c :: (rest ++ after) := by simp [hsource, hrest]
      rw [hstop, Span.between_eq (by omega) (by omega)]
      exact ⟨Nat.le_add_right _ _, hin, hstart, .inr ⟨rfl, rfl, _, _, _, hsplit, hb, hwide⟩⟩

variable {complaint : Complaint}

theorem Advances.cites (h : s.Advances after) (hw : s.Within source) :
    Mistake.Cites source ⟨complaint, .between s.pos after.pos⟩ :=
  .of_between hs h.pos_le hw.boundary (h.within hw).boundary

/-- The mistake is about all that was left of a line when the reader was at an earlier place. -/
theorem Advances.cites_limit (h : s.Advances after) (hw : s.Within source) :
    Mistake.Cites source ⟨complaint, .between s.pos after.limit⟩ := by
  have hlast := skip_advances s.rest.length s
  have hpos : (s.skip s.rest.length).pos = after.limit := by
    rw [h.limit_eq, skip, List.take_length, limit]
  rw [← hpos]
  exact hlast.cites hs hw

end Scan

end

end ArchiveScript
