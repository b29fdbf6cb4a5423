import ArchiveScript.Proofs.Run.Likeness
import ArchiveScript.Proofs.Run.Rendering
import ArchiveScript.Proofs.Script.Layouts
import ArchiveScript.Proofs.Source.LineEnds

/-! # Scripts with other line ends

A script with carriage returns before its line feeds has the lines of the script without them,
each at the place to which its offset has moved. So both are read alike. The places are only known
while all offsets fit spans, but nothing else depends on them.
-/

namespace ArchiveScript

namespace Template

theorem unifyFeeds_crlf {text : List Char} (h : '\r' ∉ text) :
    unifyFeeds (Text.crlf text) = text := by
  induction text with
  | nil => rfl
  | cons c cs ih =>
    have hcs := ih fun hm => h (List.mem_cons_of_mem c hm)
    by_cases hf : c = '\n'
    · subst hf
      rw [Text.crlf_feed, unifyFeeds, hcs]
    · rw [Text.crlf_char hf, unifyFeeds_char (fun hc => h (hc ▸ List.mem_cons_self)), hcs]

theorem unifyFeeds_isEmpty (text : List Char) : (unifyFeeds text).isEmpty = text.isEmpty := by
  unfold unifyFeeds
  split <;> rfl

end Template

open Text (crlf place)

def Likeness.lineEnds (source : List Char) : Likeness where
  offset a b := Text.bytes (crlf source) ≤ Span.maxOffset → b = place source a ∧ b ≤ Span.maxOffset
  literal text other := Template.unifyFeeds other = Template.unifyFeeds text
  margin := []
  covers _ _ := True
  fits := Text.bytes (crlf source) ≤ Span.maxOffset
  offset_max := by
    intro a b c d h h' hsize
    obtain ⟨rfl, hb⟩ := h hsize
    obtain ⟨rfl, hd⟩ := h' hsize
    exact ⟨(Text.place_max source a c).symm, Nat.max_le.2 ⟨hb, hd⟩⟩
  offset_start := by
    intro a b c d h h' hsize
    obtain ⟨rfl, hb⟩ := h hsize
    obtain ⟨rfl, hd⟩ := h' hsize
    have ha := Nat.le_trans (Text.le_place source a) hb
    have hc := Nat.le_trans (Text.le_place source c) hd
    rw [Span.between_eq hb hd, Span.between_eq ha hc]
    exact ⟨rfl, hb⟩
  offset_stop := by
    intro a b c d h h' hsize
    obtain ⟨rfl, hb⟩ := h hsize
    obtain ⟨rfl, hd⟩ := h' hsize
    have ha := Nat.le_trans (Text.le_place source a) hb
    have hc := Nat.le_trans (Text.le_place source c) hd
    rw [Span.between_eq hb hd, Span.between_eq ha hc]
    exact ⟨rfl, hd⟩
  literal_refl _ := rfl
  literal_isEmpty {text other} h := by
    rw [← Template.unifyFeeds_isEmpty other, h, Template.unifyFeeds_isEmpty]
  covers_nil _ := trivial

instance {source : List Char} : (Likeness.lineEnds source).Reaches where
  offset := by
    intro hsize a b h
    obtain ⟨rfl, hb⟩ := h hsize
    exact iff_of_true (Nat.le_trans (Text.le_place source a) hb) hb

theorem Likeness.lineEnds_unifies {source : List Char}
    (hsize : Text.bytes (crlf source) ≤ Span.maxOffset) : (Likeness.lineEnds source).Unifies :=
  ⟨hsize, fun _ _ h => h⟩

theorem Likeness.lineEnds_offset {source before line after : List Char}
    (hs : source = before ++ (line ++ after)) (hl : '\n' ∉ line) {n : Nat}
    (hn : n ≤ Text.bytes line) :
    (Likeness.lineEnds source).offset (Text.bytes before + n) (Text.bytes (crlf before) + n) := by
  subst hs
  intro hsize
  rw [Text.crlf_append, Text.crlf_append, Text.crlf_of_no_feed hl, Text.bytes_append,
    Text.bytes_append] at hsize
  constructor
  · exact (Text.place_line hl before after hn).symm
  · omega

theorem Likeness.lineEnds_boundary {source : List Char} (before after : List Char)
    (hs : source = before ++ after) :
    (Likeness.lineEnds source).offset (Text.bytes before) (Text.bytes (crlf before)) :=
  @lineEnds_offset source before [] after hs List.not_mem_nil 0 (Nat.le_refl 0)

namespace Line

variable {source before content feed after : List Char}

theorem ofContent_of_no_return (h : '\r' ∉ content) (start : Nat) (feed : List Char) :
    ofContent start content feed =
      ⟨start, content.takeWhile Text.isIndent, content.dropWhile Text.isIndent, feed⟩ := by
  have hl : content.getLast? ≠ some '\r' := fun hl => h (List.mem_of_getLast? hl)
  rw [ofContent, if_neg hl]

theorem ofContent_return (start : Nat) (content feed : List Char) :
    ofContent start (content ++ ['\r']) feed =
      ⟨start, content.takeWhile Text.isIndent, content.dropWhile Text.isIndent, '\r' :: feed⟩ := by
  rw [ofContent, if_pos List.getLast?_concat, List.dropLast_concat]

/-- The same content, with the other line end. -/
theorem alike_crlf (hs : source = before ++ (content ++ (feed ++ after))) (hc : '\n' ∉ content)
    (hr : '\r' ∉ content ++ feed) :
    Line.Alike (.lineEnds source)
      ⟨Text.bytes before, content.takeWhile Text.isIndent, content.dropWhile Text.isIndent, feed⟩
      ⟨Text.bytes (crlf before), content.takeWhile Text.isIndent, content.dropWhile Text.isIndent,
        crlf feed⟩ := by
  have hw : content.takeWhile Text.isIndent ++ content.dropWhile Text.isIndent = content :=
    List.takeWhile_append_dropWhile
  have hbytes := congrArg Text.bytes hw
  rw [Text.bytes_append] at hbytes
  constructor
  · rfl
  · rfl
  · exact Likeness.lineEnds_boundary before _ hs
  · intro n hn
    exact Likeness.lineEnds_offset hs hc (Nat.le_trans hn (Nat.le_of_eq hbytes))
  · have hs' : source = before ++ (content ++ feed) ++ after := by
      rw [hs, List.append_assoc, List.append_assoc]
    have hnext := Likeness.lineEnds_boundary _ after hs'
    rw [Text.crlf_append, Text.crlf_append, Text.crlf_of_no_feed hc, Text.bytes_append before,
      Text.bytes_append (crlf before)] at hnext
    rw [next_eq, next_eq, whole, whole]
    dsimp only
    rwa [hw]
  · intro run hrun
    dsimp only at hrun
    rw [hw] at hrun
    have hrun' : '\n' ∉ run := fun hm => hc (hrun.subset hm)
    have hr' : '\r' ∉ run ++ feed := by
      intro hm
      rcases List.mem_append.1 hm with hm | hm
      · exact hr (List.mem_append_left feed (hrun.subset hm))
      · exact hr (List.mem_append_right content hm)
    have hlit := Template.unifyFeeds_crlf hr'
    rw [Text.crlf_append, Text.crlf_of_no_feed hrun'] at hlit
    exact hlit.trans (Template.unifyFeeds_of_no_return hr').symm
  · exact fun _ _ _ _ => trivial

theorem ofContent_feed_alike (hs : source = before ++ (content ++ '\n' :: after))
    (hc : '\n' ∉ content) (hr : '\r' ∉ content) :
    (ofContent (Text.bytes before) content ['\n']).Alike (.lineEnds source)
      (ofContent (Text.bytes (crlf before)) (content ++ ['\r']) ['\n']) := by
  rw [ofContent_of_no_return hr, ofContent_return]
  apply @alike_crlf source before content ['\n'] after hs hc
  simpa using hr

theorem ofContent_last_alike (hs : source = before ++ content) (hc : '\n' ∉ content)
    (hr : '\r' ∉ content) :
    (ofContent (Text.bytes before) content []).Alike (.lineEnds source)
      (ofContent (Text.bytes (crlf before)) content []) := by
  rw [ofContent_of_no_return hr, ofContent_of_no_return hr]
  apply @alike_crlf source before content [] [] _ hc
  · rwa [List.append_nil]
  · rwa [List.append_nil, List.append_nil]

theorem splitFrom_crlf {rest : List Char} (hs : source = before ++ (content.reverse ++ rest))
    (hc : '\n' ∉ content) (hr : '\r' ∉ content) (hr' : '\r' ∉ rest) :
    AllAlike (.lineEnds source) (splitFrom (Text.bytes before) content rest)
      (splitFrom (Text.bytes (crlf before)) content (crlf rest)) := by
  have hc' : '\n' ∉ content.reverse := fun hm => hc (List.mem_reverse.1 hm)
  have hrev : '\r' ∉ content.reverse := fun hm => hr (List.mem_reverse.1 hm)
  -- Both splits have read whole lines up to `before`, and the same content since then.
  induction rest generalizing before content with
  | nil =>
    rw [List.append_nil] at hs
    rw [Text.crlf_nil]
    unfold splitFrom
    split
    · exact .nil
    · exact .cons (ofContent_last_alike hs hc' hrev) .nil
  | cons c rest ih =>
    have hrest : '\r' ∉ rest := fun hm => hr' (List.mem_cons_of_mem c hm)
    by_cases hf : c = '\n'
    · subst hf
      have hne : '\r' ≠ '\n' := by decide
      have hnext : Text.bytes before + Text.bytes (content.reverse ++ ['\n']) =
          Text.bytes (before ++ (content.reverse ++ ['\n'])) := (Text.bytes_append _ _).symm
      have hnext' : Text.bytes (crlf before) + Text.bytes (('\r' :: content).reverse ++ ['\n']) =
          Text.bytes (crlf (before ++ (content.reverse ++ ['\n']))) := by
        rw [Text.crlf_append, Text.crlf_append, Text.crlf_of_no_feed hc', ← Text.bytes_append,
          List.reverse_cons, List.append_assoc]
        rfl
      rw [Text.crlf_feed, splitFrom_char hne, splitFrom_feed, splitFrom_feed, hnext, hnext',
        List.reverse_cons]
      apply List.Forall₂.cons (ofContent_feed_alike hs hc' hrev)
      apply ih _ List.not_mem_nil List.not_mem_nil hrest List.not_mem_nil List.not_mem_nil
      rw [hs]
      simp
    · have hcr : c ≠ '\r' := fun h => hr' (h ▸ List.mem_cons_self)
      have hcontent : '\n' ∉ c :: content := List.not_mem_cons_of_ne_of_not_mem (Ne.symm hf) hc
      have hcontent' : '\r' ∉ c :: content := List.not_mem_cons_of_ne_of_not_mem hcr.symm hr
      rw [Text.crlf_char hf, splitFrom_char hf, splitFrom_char hf]
      apply ih _ hcontent hcontent' hrest
      · exact fun hm => hcontent (List.mem_reverse.1 hm)
      · exact fun hm => hcontent' (List.mem_reverse.1 hm)
      · rw [hs, List.reverse_cons, List.append_assoc, List.singleton_append]

theorem split_crlf (h : '\r' ∉ source) :
    AllAlike (.lineEnds source) (split source) (split (crlf source)) :=
  @splitFrom_crlf source [] [] source rfl List.not_mem_nil List.not_mem_nil h

end Line

/-- A text without carriage returns is read like the same text with them. -/
theorem parse_crlf {source : List Char} (h : '\r' ∉ source) :
    (parse source).Alike (.lineEnds source) (parse (crlf source)) := by
  apply parse_alike (Line.split_crlf h)
  · exact Likeness.lineEnds_boundary [] source rfl
  · exact Likeness.lineEnds_boundary source [] (List.append_nil source).symm

end ArchiveScript
