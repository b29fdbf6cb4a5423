import ArchiveScript.Proofs.Source.LineSearch
import ArchiveScript.Source.Excerpt

/-! # Line ends

A text whose lines end with line feeds can be written with a carriage return before each of them.
Each offset moves by the number of line feeds before it. So it stays in its line, and the lines of
both texts read the same without their terminators.
-/

namespace ArchiveScript

namespace Text

/-- The text with a carriage return before each line feed. -/
def crlf (text : List Char) : List Char :=
  text.flatMap fun c => if c = '\n' then ['\r', '\n'] else [c]

theorem crlf_nil : crlf [] = [] := rfl

theorem crlf_feed (text : List Char) : crlf ('\n' :: text) = '\r' :: '\n' :: crlf text := rfl

theorem crlf_char {c : Char} (hc : c ≠ '\n') (text : List Char) :
    crlf (c :: text) = c :: crlf text := by
  rw [crlf, List.flatMap_cons, if_neg hc]
  rfl

theorem crlf_of_no_feed {text : List Char} (h : '\n' ∉ text) : crlf text = text := by
  induction text with
  | nil => rfl
  | cons c cs ih =>
    rw [crlf_char (fun hc => h (hc ▸ List.mem_cons_self)),
      ih fun hm => h (List.mem_cons_of_mem c hm)]

theorem crlf_append (text more : List Char) : crlf (text ++ more) = crlf text ++ crlf more :=
  List.flatMap_append

def feeds : List Char → Nat → Nat
  | [], _ => 0
  | c :: cs, offset =>
    (if c = '\n' ∧ c.utf8Size ≤ offset then 1 else 0) + feeds cs (offset - c.utf8Size)

@[simp]
theorem feeds_zero (text : List Char) : feeds text 0 = 0 := by
  induction text with
  | nil => rfl
  | cons c cs ih => simp [feeds, ih, Nat.ne_of_gt c.utf8Size_pos]

theorem feeds_feed (text : List Char) (offset : Nat) :
    feeds ('\n' :: text) (offset + 1) = feeds text offset + 1 := by
  have hs : '\n'.utf8Size = 1 := by decide
  rw [feeds, hs, if_pos ⟨rfl, Nat.le_add_left 1 offset⟩, Nat.add_sub_cancel, Nat.add_comm]

theorem feeds_char {c : Char} (hc : c ≠ '\n') (text : List Char) (offset : Nat) :
    feeds (c :: text) offset = feeds text (offset - c.utf8Size) := by
  rw [feeds, if_neg (fun h => hc h.1), Nat.zero_add]

theorem feeds_mono (text : List Char) {offset later : Nat} (h : offset ≤ later) :
    feeds text offset ≤ feeds text later := by
  induction text generalizing offset later with
  | nil => exact Nat.le_refl 0
  | cons c cs ih =>
    have hr := ih (Nat.sub_le_sub_right h c.utf8Size)
    rw [feeds, feeds]
    split
    · rename_i hc
      rw [if_pos ⟨hc.1, Nat.le_trans hc.2 h⟩]
      exact Nat.add_le_add_left hr 1
    · rw [Nat.zero_add]
      exact Nat.le_trans hr (Nat.le_add_left ..)

theorem feeds_append (text more : List Char) (n : Nat) :
    feeds (text ++ more) (bytes text + n) = text.count '\n' + feeds more n := by
  induction text with
  | nil => rw [List.nil_append, bytes_nil, Nat.zero_add, List.count_nil, Nat.zero_add]
  | cons c cs ih =>
    have ho : bytes (c :: cs) + n - c.utf8Size = bytes cs + n := by rw [bytes_cons]; omega
    rw [List.cons_append]
    by_cases hc : c = '\n'
    · subst hc
      have hf : bytes ('\n' :: cs) + n = bytes cs + n + 1 := by
        rw [bytes_cons, show '\n'.utf8Size = 1 by decide]
        omega
      rw [hf, feeds_feed, ih, List.count_cons_self]
      omega
    · rw [feeds_char hc, ho, ih, List.count_cons_of_ne hc]

theorem feeds_line {line : List Char} (hl : '\n' ∉ line) (after : List Char) {n : Nat}
    (hn : n ≤ bytes line) : feeds (line ++ after) n = 0 := by
  induction line generalizing n with
  | nil =>
    obtain rfl := Nat.le_zero.1 hn
    exact feeds_zero _
  | cons c cs ih =>
    have hc : c ≠ '\n' := fun hc => hl (hc ▸ List.mem_cons_self)
    rw [bytes_cons] at hn
    rw [List.cons_append, feeds_char hc]
    exact ih (fun hm => hl (List.mem_cons_of_mem c hm)) (by omega)

theorem bytes_crlf (text : List Char) : bytes (crlf text) = bytes text + text.count '\n' := by
  induction text with
  | nil => rfl
  | cons c cs ih =>
    by_cases hc : c = '\n'
    · subst hc
      have hs : '\r'.utf8Size = 1 := by decide
      rw [crlf_feed, bytes_cons, bytes_cons, bytes_cons, ih, hs, List.count_cons_self]
      omega
    · rw [crlf_char hc, bytes_cons, bytes_cons, ih, List.count_cons_of_ne hc, Nat.add_assoc]

/-- Where the byte at an offset of a text stands when carriage returns have been put in. -/
def place (text : List Char) (offset : Nat) : Nat := offset + feeds text offset

theorem place_mono (text : List Char) {offset later : Nat} (h : offset ≤ later) :
    place text offset ≤ place text later :=
  Nat.add_le_add h (feeds_mono text h)

theorem le_place (text : List Char) (offset : Nat) : offset ≤ place text offset :=
  Nat.le_add_right _ _

theorem place_max (text : List Char) (a b : Nat) :
    place text (max a b) = max (place text a) (place text b) := by
  rcases Nat.le_total a b with h | h
  · rw [Nat.max_eq_right h, Nat.max_eq_right (place_mono text h)]
  · rw [Nat.max_eq_left h, Nat.max_eq_left (place_mono text h)]

theorem place_line {line : List Char} (hl : '\n' ∉ line) (before after : List Char) {n : Nat}
    (hn : n ≤ bytes line) :
    place (before ++ (line ++ after)) (bytes before + n) = bytes (crlf before) + n := by
  rw [place, feeds_append, feeds_line hl after hn, bytes_crlf]
  omega

/-- What is written for one byte is in the line of that byte. -/
theorem feeds_crlf (text : List Char) {a b : Nat} (hb : place text a ≤ b)
    (hb' : b < place text (a + 1)) : feeds (crlf text) b = feeds text a := by
  unfold place at hb hb'
  -- A line feed takes up two bytes, so both offsets go on behind it only if `a` does.
  induction text generalizing a b with
  | nil => rfl
  | cons c cs ih =>
    by_cases hc : c = '\n'
    · subst hc
      have hr : '\r' ≠ '\n' := by decide
      have hs : '\r'.utf8Size = 1 := by decide
      rw [feeds_feed] at hb'
      rw [crlf_feed, feeds_char hr, hs]
      cases a with
      | zero =>
        have hz : b - 1 = 0 := by
          rw [feeds_zero] at hb'
          omega
        rw [hz, feeds_zero, feeds_zero]
      | succ a =>
        rw [feeds_feed] at hb
        obtain ⟨b, rfl⟩ := Nat.exists_eq_add_of_le' (show 2 ≤ b by omega)
        have hi : feeds (crlf cs) b = feeds cs a := ih (by omega) (by omega)
        rw [Nat.add_sub_cancel (n := b + 1) (m := 1), feeds_feed, feeds_feed, hi]
    · rw [crlf_char hc, feeds_char hc, feeds_char hc]
      rw [feeds_char hc] at hb hb'
      by_cases ha : a < c.utf8Size
      · have hz : a + 1 - c.utf8Size = 0 := by omega
        have hz' : a - c.utf8Size = 0 := by omega
        rw [hz, feeds_zero] at hb'
        have hz'' : b - c.utf8Size = 0 := by omega
        rw [hz', hz'', feeds_zero, feeds_zero]
      · have hs : a + 1 - c.utf8Size = a - c.utf8Size + 1 := by omega
        rw [hs] at hb'
        exact ih (by omega) (by omega)

end Text

namespace LineTable

open Text

variable {source : List Char}

theorem countP_startsFrom {offset : Nat} {text : List Char}
    (h : offset + bytes text ≤ Span.maxOffset) (a : Nat) :
    (startsFrom offset text).countP (· ≤ a) = feeds text (a - offset) := by
  induction text generalizing offset with
  | nil => rfl
  | cons c cs ih =>
    have hpos := c.utf8Size_pos
    rw [bytes_cons, ← Nat.add_assoc] at h
    rw [startsFrom, feeds, Nat.sub_sub, ← ih h]
    have hm : min (offset + c.utf8Size) Span.maxOffset = offset + c.utf8Size := by omega
    have hle : offset + c.utf8Size ≤ a ↔ c.utf8Size ≤ a - offset := by omega
    by_cases hc : c = '\n'
    · subst hc
      rw [if_pos rfl, List.countP_cons, hm, Nat.add_comm]
      simp only [decide_eq_true_eq, hle, true_and]
    · rw [if_neg hc, if_neg (fun h => hc h.1), Nat.zero_add]

theorem lineOf_ofText (h : bytes source ≤ Span.maxOffset) (offset : Nat) :
    (ofText source).lineOf offset = numberAt (feeds source offset) := by
  rw [lineOf_ofText_eq_countP h, ofText, List.countP_toArray, List.countP_cons,
    countP_startsFrom (by omega)]
  simp

theorem lineOf_crlf (h : bytes (crlf source) ≤ Span.maxOffset) {a b : Nat}
    (hb : place source a ≤ b) (hb' : b < place source (a + 1)) :
    (ofText (crlf source)).lineOf b = (ofText source).lineOf a := by
  have hs : bytes source ≤ Span.maxOffset := by
    rw [bytes_crlf] at h
    omega
  rw [lineOf_ofText h, lineOf_ofText hs, feeds_crlf source hb hb']

theorem place_lt_place (source : List Char) {a b : Nat} (h : a < b) :
    place source a < place source b := by
  have hm := feeds_mono source (Nat.le_of_lt h)
  unfold place
  omega

theorem linesOf_crlf (h : bytes (crlf source) ≤ Span.maxOffset) {span span' : Span}
    (hs : span'.start = place source span.start) (ht : span'.stop = place source span.stop) :
    (ofText (crlf source)).linesOf span' = (ofText source).linesOf span := by
  have hstart := lineOf_crlf h (Nat.le_of_eq hs.symm)
    (hs ▸ place_lt_place source (Nat.lt_succ_self _))
  unfold linesOf
  dsimp only
  rw [hstart]
  by_cases hlt : span.start < span.stop
  · -- Behind a line feed, one byte back is the line feed in both texts, but its place is that of
    -- the carriage return. Both of these are in the same line.
    have hlt' := place_lt_place source hlt
    have hpred := place_lt_place source (Nat.sub_one_lt_of_lt hlt)
    have hsucc : span.stop - 1 + 1 = span.stop := by omega
    have hlast : (ofText (crlf source)).lineOf (span'.stop - 1) =
        (ofText source).lineOf (span.stop - 1) := by
      apply lineOf_crlf h
      · omega
      · rw [hsucc]
        omega
    rw [if_pos hlt, if_pos (by omega), hlast]
  · have hle := place_mono source (Nat.not_lt.1 hlt)
    rw [if_neg hlt, if_neg (by omega), hstart]

theorem textsFrom_crlf {begun text : List Char} (hb : '\r' ∉ begun) (ht : '\r' ∉ text) :
    (textsFrom begun (crlf text)).map bare = (textsFrom begun text).map bare := by
  induction text generalizing begun with
  | nil => rfl
  | cons c cs ih =>
    have hc : c ≠ '\r' := fun hc => ht (hc ▸ List.mem_cons_self)
    have hcs : '\r' ∉ cs := fun hm => ht (List.mem_cons_of_mem c hm)
    by_cases hf : c = '\n'
    · subst hf
      have hl : begun.head? ≠ some '\r' := fun h => hb (List.mem_of_mem_head? h)
      have hbare : bare ('\n' :: '\r' :: begun).reverse = bare ('\n' :: begun).reverse := by
        simp [bare, hl]
      have hr : '\r' ≠ '\n' := by decide
      rw [crlf_feed, textsFrom, if_neg hr, textsFrom, if_pos rfl, textsFrom, if_pos rfl,
        List.map_cons, List.map_cons, hbare, ih List.not_mem_nil hcs]
    · rw [crlf_char hf, textsFrom, if_neg hf, textsFrom, if_neg hf]
      apply ih _ hcs
      exact List.not_mem_cons_of_ne_of_not_mem hc.symm hb

theorem lineText?_crlf (hs : '\r' ∉ source) (h : bytes (crlf source) ≤ Span.maxOffset)
    (line : Nat) :
    (ofText (crlf source)).lineText? line = (ofText source).lineText? line := by
  have hsize : bytes source ≤ Span.maxOffset := by
    rw [bytes_crlf] at h
    omega
  cases line with
  | zero => rfl
  | succ n =>
    have hn := congrArg (·[n]?) (textsFrom_crlf List.not_mem_nil hs)
    rw [lineText?_succ h, lineText?_succ hsize]
    simpa using hn

end LineTable

namespace Diagnostic

/-- The same lines are shown for both texts. -/
theorem render_crlf {source : List Char} (hs : '\r' ∉ source)
    (h : Text.bytes (Text.crlf source) ≤ Span.maxOffset) {headline : String}
    {span span' : Option Span}
    (hspan : Option.Rel (fun span span' => span'.start = Text.place source span.start ∧
      span'.stop = Text.place source span.stop) span span') :
    render (.ofText (Text.crlf source)) ⟨headline, span'⟩ =
      render (.ofText source) ⟨headline, span⟩ := by
  have hl : excerptLine (.ofText (Text.crlf source)) = excerptLine (.ofText source) := by
    funext line
    rw [excerptLine, excerptLine, LineTable.lineText?_crlf hs h]
  cases hspan with
  | none => rfl
  | some hp =>
    unfold render excerpt
    rw [Option.map_some, Option.map_some, hl, LineTable.linesOf_crlf h hp.1 hp.2]

end Diagnostic

end ArchiveScript
