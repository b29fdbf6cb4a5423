import ArchiveScript.Proofs.Tree.Spans
import ArchiveScript.Script.Scan

/-! # Scans of a line

A scan moves on by the text that it reads. So a scan of a line of the source stands at a character
of it, whatever has been read.
-/

namespace ArchiveScript

variable {source : List Char}

namespace Scan

/-- The second scan is the first one after it has read the text. -/
structure Reads (s : Scan) (text : List Char) (after : Scan) : Prop where
  rest : s.rest = text ++ after.rest
  pos : after.pos = s.pos + Text.bytes text

def Advances (s after : Scan) : Prop := ∃ text, s.Reads text after

def Within (source : List Char) (s : Scan) : Prop :=
  ∃ before after, source = before ++ s.rest ++ after ∧ Text.bytes before = s.pos

variable {s after : Scan} {text : List Char}

theorem Reads.advances (h : s.Reads text after) : s.Advances after := ⟨text, h⟩

theorem Reads.trans {more : List Char} {last : Scan} (h : s.Reads text after)
    (h' : after.Reads more last) : s.Reads (text ++ more) last := by
  constructor
  · rw [h.rest, h'.rest, List.append_assoc]
  · rw [h'.pos, h.pos, Text.bytes_append, Nat.add_assoc]

theorem Reads.take (h : s.Reads text after) {n : Nat} (hn : n = text.length) :
    s.rest.take n = text := by
  rw [h.rest, hn, List.take_left]

theorem Reads.length_eq (h : s.Reads text after) :
    s.rest.length = text.length + after.rest.length := by
  rw [h.rest, List.length_append]

theorem Advances.refl (s : Scan) : s.Advances s := ⟨[], rfl, rfl⟩

theorem Advances.trans {last : Scan} (h : s.Advances after) (h' : after.Advances last) :
    s.Advances last := by
  obtain ⟨text, ht⟩ := h
  obtain ⟨more, hm⟩ := h'
  exact ⟨text ++ more, ht.trans hm⟩

theorem Advances.pos_le (h : s.Advances after) : s.pos ≤ after.pos := by
  obtain ⟨text, ht⟩ := h
  rw [ht.pos]
  exact Nat.le_add_right _ _

theorem Advances.limit_eq (h : s.Advances after) : after.limit = s.limit := by
  obtain ⟨text, ht⟩ := h
  rw [limit, limit, ht.pos, ht.rest, Text.bytes_append, Nat.add_assoc]

theorem Reads.extend (h : s.Reads text after) (more : List Char) :
    Reads ⟨s.pos, s.rest ++ more⟩ text ⟨after.pos, after.rest ++ more⟩ :=
  ⟨by rw [h.rest, List.append_assoc], h.pos⟩

theorem Reads.within (h : s.Reads text after) (hw : s.Within source) : after.Within source := by
  obtain ⟨before, last, hs, hb⟩ := hw
  refine ⟨before ++ text, last, ?_, ?_⟩
  · rw [hs, h.rest]
    simp only [List.append_assoc]
  · rw [Text.bytes_append, hb, h.pos]

theorem Advances.within (h : s.Advances after) (hw : s.Within source) : after.Within source :=
  h.elim fun _ ht => ht.within hw

theorem Within.boundary (h : s.Within source) : Text.Boundary source s.pos := by
  obtain ⟨before, after, hs, hb⟩ := h
  exact ⟨before, s.rest ++ after, by rw [hs, List.append_assoc], hb⟩

theorem skip_reads (n : Nat) (s : Scan) : s.Reads (s.rest.take n) (s.skip n) :=
  ⟨(List.take_append_drop n s.rest).symm, rfl⟩

theorem skipWhile_reads (p : Char → Bool) (s : Scan) :
    s.Reads (s.rest.takeWhile p) (s.skipWhile p) :=
  ⟨List.takeWhile_append_dropWhile.symm, rfl⟩

theorem skipBlanks_advances (s : Scan) : s.Advances s.skipBlanks := ⟨_, skipWhile_reads _ s⟩

theorem skip_advances (n : Nat) (s : Scan) : s.Advances (s.skip n) := ⟨_, skip_reads n s⟩

theorem skip_skip (n m : Nat) (s : Scan) : (s.skip n).skip m = s.skip (n + m) := by
  simp only [skip, List.take_add, Text.bytes_append, List.drop_drop, Nat.add_assoc]

theorem prefix_reads (h : text <+: s.rest) : s.Reads text (s.skip text.length) := by
  have hk := skip_reads text.length s
  rwa [← List.prefix_iff_eq_take.1 h] at hk

theorem eat?_reads {sign : List Char} (h : s.eat? sign = some after) : s.Reads sign after := by
  unfold eat? at h
  split at h
  · rename_i hp
    obtain rfl := Option.some.inj h
    exact prefix_reads (List.isPrefixOf_iff_prefix.1 hp)
  · cases h

theorem prefix_of_atWord {word : List Char} (h : s.atWord word = true) : word <+: s.rest :=
  List.isPrefixOf_iff_prefix.1 (Bool.and_eq_true_iff.1 h).1

theorem atWord_of_eatWord? {word : List Char} (h : s.eatWord? word = some after) :
    s.atWord word = true := by
  rw [eatWord?, Option.ite_none_right_eq_some] at h
  exact h.1

theorem eatWord?_advances {word : List Char} (h : s.eatWord? word = some after) :
    s.Advances after := by
  unfold eatWord? at h
  split at h
  · obtain rfl := Option.some.inj h
    exact skip_advances _ s
  · cases h

theorem nameOf?_reads {part : Char → Bool} (h : s.nameOf? part = some (text, after)) :
    s.Reads text after := by
  unfold nameOf? at h
  split at h
  · cases h
    exact skipWhile_reads part s
  · cases h

end Scan

end ArchiveScript
