import ArchiveScript.Proofs.Script.Simulation
import ArchiveScript.Script.Expression

/-! # Expressions in two layouts

What a reader of a line does depends on the characters that are left, and not on where they are.
So two scans of the same characters find alike expressions or complain alike.
-/

namespace ArchiveScript

open Grammar
open Builder (fail leaf spanning)

variable {L : Likeness} {line line' : Line} {m m' : Type → Type} {ν ν' : Type} [Builder m ν]
  [Builder m' ν'] (S : Simulation L m m') {held : Held ν ν'}

namespace Expression

open Scan

variable {s s' : Scan}

theorem stringRun_begins (text : List Char) : stringRun text <+: text := by
  induction text with
  | nil => exact List.nil_prefix
  | cons c cs ih =>
    unfold stringRun
    split
    case h_4 h =>
      obtain ⟨rfl, rfl⟩ := List.cons.inj h
      exact List.cons_prefix_cons.2 ⟨rfl, ih⟩
    all_goals exact List.nil_prefix

/-- What is between the backslash and the closing brace are digits. -/
theorem lexeme_unicode {digits after : Scan} {chars : List Char}
    (hs : s.rest = '\\' :: 'u' :: chars)
    (hd : (s.skip 2).eat? ['{'] = some digits) {count : Nat}
    (hcount : digits.rest.length - (digits.skipWhile isHexDigit).rest.length = count)
    (hn : ¬(count = 0 ∨ 6 < count))
    (ha : (digits.skipWhile isHexDigit).eat? ['}'] = some after) :
    Lexeme .escapeSequence (s.rest.take (count + 4)) := by
  have hread := skipWhile_reads isHexDigit digits
  have hhex : ∀ c ∈ digits.rest.takeWhile isHexDigit, isHexDigit c = true :=
    List.all_eq_true.1 List.all_takeWhile
  have hall := (skip_reads 2 s).trans ((eat?_reads hd).trans (hread.trans (eat?_reads ha)))
  rw [hs] at hall
  have hlength := hread.length_eq
  generalize digits.rest.takeWhile isHexDigit = hex at hhex hall hlength
  rw [hall.take (by simp; omega)]
  exact .unicode hhex (by omega) (by omega)

theorem escape_alike {chars : List Char} (hs : s.rest = '\\' :: chars)
    (h : s.Alike L line line' s') :
    S.Rel held (Finding (· = .escapeSequence) L line line' held) (escape s) (escape s') := by
  have h1 := h.skip 1
  have hchars : (s.skip 1).rest = chars := by rw [rest_skip, hs, List.drop_one, List.tail_cons]
  unfold escape
  rw [h1.rest, hchars]
  have hfail : S.Rel held (Finding (· = .escapeSequence) L line line' held)
      (fail .unknownEscape (.between s.pos (min (s.pos + 2) s.limit)))
      (fail .unknownEscape (.between s'.pos (min (s'.pos + 2) s'.limit))) := by
    apply S.fail
    apply Span.alike_between h.pos
    have ho := h.offset (Nat.min_le_right 2 (Text.bytes s.rest))
    rwa [limit, limit, h.rest, Nat.add_min_add_left, Nat.add_min_add_left]
  split
  · have h2 := h.skip 2
    dsimp only
    rcases h2.eat?_cases ['{'] with ⟨he, he'⟩ | ⟨digits, digits', he, he', hd⟩
    · rw [he, he']
      exact S.fail h2.point
    · rw [he, he']
      have hr := hd.skipWhile isHexDigit
      dsimp only
      rw [hd.rest, hr.rest, h.rest]
      generalize hcount :
        digits.rest.length - (digits.skipWhile isHexDigit).rest.length = count
      by_cases hc : count = 0 ∨ 6 < count
      · rw [if_pos hc, if_pos hc]
        exact S.fail (Span.alike_between h.pos hr.pos)
      · rw [if_neg hc, if_neg hc]
        rcases hr.eat?_cases ['}'] with ⟨hq, hq'⟩ | ⟨after, after', hq, hq', ha⟩
        · rw [hq, hq']
          exact S.fail (Span.alike_between h.pos hr.pos)
        · rw [hq, hq']
          exact S.terminal rfl (lexeme_unicode hs he hcount hc hq) (h.piece (List.take_prefix _ _))
            ha
  · rename_i c _ _
    rw [h.rest]
    split
    · rename_i hc
      have ht : Lexeme .escapeSequence (s.rest.take 2) := by
        rw [hs]
        exact .escape hc
      exact S.terminal rfl ht (h.piece (List.take_prefix _ _)) (h.skip 2)
    · exact hfail
  · exact hfail

section

variable {inner : Scan → m (ν × Scan)} {inner' : Scan → m' (ν' × Scan)}
  (hi : ∀ {held s s'}, s.Alike L line line' s' →
    S.Rel held (Finding (· ∈ basicKinds) L line line' held) (inner s) (inner' s'))

include hi

theorem interpolation_alike {kind : Kind} (hk : kind ∈ interpolationKinds) (opener : Nat)
    (h : s.Alike L line line' s') :
    S.Rel held (Finding (· = kind) L line line' held) (interpolation inner kind opener s)
      (interpolation inner' kind opener s') := by
  refine S.bind (hi (h.skip opener)) ?_
  rintro ⟨value, rest⟩ ⟨value', rest'⟩ _ ⟨⟨_, hb, rfl⟩, hv⟩
  have hp := produces_interpolation hk hb
  have hb := hv.skipBlanks
  dsimp only at hb ⊢
  rcases hb.eat?_cases ['}'] with ⟨he, he'⟩ | ⟨last, last', he, he', hl⟩
  · rw [he, he']
    exact S.fail hb.point
  · rw [he, he']
    exact S.composed rfl hp h.pos hl.pos .single hl

theorem stringPieces_alike {opened opened' : Nat} (ho : L.offset opened opened') (n : Nat)
    (h : s.Alike L line line' s') :
    S.Rel held (FindingAll (Piece stringKinds) L line line' held) (stringPieces inner opened n s)
      (stringPieces inner' opened' n s') := by
  induction n generalizing s s' held with
  | zero => exact S.fail (Span.alike_between ho h.limit)
  | succ n ih =>
    -- A piece that has been built is followed by the other pieces.
    have hnext {piece : ν} {piece' : ν'} {kind : Kind} {rest rest' : Scan}
        (hk : kind ∈ stringKinds) (hr : rest.Alike L line line' rest') :
        S.Rel (⟨piece, piece', kind⟩ :: held) (FindingAll (Piece stringKinds) L line line' held)
          (do
            let found ← stringPieces inner opened n rest
            return ((none, piece) :: found.1, found.2))
          (do
            let found ← stringPieces inner' opened' n rest'
            return ((none, piece') :: found.1, found.2)) :=
      S.bind (ih hr) fun _ _ _ hp => S.pure ⟨.cons ⟨rfl, hk⟩ hp.grown, hp.scan⟩
    unfold stringPieces
    rw [h.rest]
    split
    · exact S.fail (Span.alike_between ho h.limit)
    · exact S.pure ⟨.nil, h.skip 1⟩
    · rename_i hs
      refine S.bind (escape_alike S hs h) ?_
      rintro ⟨piece, s⟩ ⟨piece', s'⟩ _ ⟨⟨_, rfl, rfl⟩, hp⟩
      exact hnext (by decide) hp
    · refine S.bind (interpolation_alike S hi (by decide) 2 h) ?_
      rintro ⟨piece, s⟩ ⟨piece', s'⟩ _ ⟨⟨_, rfl, rfl⟩, hp⟩
      exact hnext (by decide) hp
    · refine S.bind (S.leaf (.free (by decide)) (h.piece (stringRun_begins s.rest))) ?_
      rintro piece piece' _ rfl
      exact hnext (by decide) (h.skip _)

theorem string_alike (h : s.Alike L line line' s') :
    S.Rel held (Finding (· ∈ basicKinds) L line line' held) (string inner s)
      (string inner' s') := by
  unfold string
  rw [h.rest]
  refine S.bind (stringPieces_alike S hi h.pos s.rest.length (h.skip 1)) ?_
  rintro ⟨pieces, rest⟩ ⟨pieces', rest'⟩ now ⟨⟨_, hs, hg⟩, hr⟩
  have hp : Produces .string _ := hs
  exact S.composed (by decide) hp h.pos hr.pos hg hr

end

theorem lexeme_integer {digits : Scan}
    (hd : (if s.rest.head? = some '-' then s.skip 1 else s) = digits)
    (hn : (digits.skipWhile Char.isDigit).rest.length ≠ digits.rest.length) :
    Lexeme .integer
      (s.rest.take (s.rest.length - (digits.skipWhile Char.isDigit).rest.length)) := by
  have hread := skipWhile_reads Char.isDigit digits
  have hdigits : ∀ c ∈ digits.rest.takeWhile Char.isDigit, c.isDigit = true :=
    List.all_eq_true.1 List.all_takeWhile
  have hlength := hread.length_eq
  have hne : digits.rest.takeWhile Char.isDigit ≠ [] := by
    intro he
    rw [he] at hlength
    simp only [List.length_nil, Nat.zero_add] at hlength
    exact hn hlength.symm
  have hsign : ∃ sign, (sign = [] ∨ sign = ['-']) ∧ s.Reads sign digits := by
    subst hd
    split
    · rename_i hh
      obtain ⟨rest, hr⟩ := List.head?_eq_some_iff.1 hh
      refine ⟨['-'], .inr rfl, ?_⟩
      have h := skip_reads 1 s
      rwa [hr] at h
    · exact ⟨[], .inl rfl, rfl, rfl⟩
  obtain ⟨sign, hs, hr⟩ := hsign
  have hall := hr.trans hread
  have htotal := hall.length_eq
  rw [hall.take (by omega)]
  exact .integer hs hne hdigits

theorem integer_alike (h : s.Alike L line line' s') :
    S.Rel held (Finding (· ∈ basicKinds) L line line' held) (integer s) (integer s') := by
  unfold integer
  rw [h.rest]
  have hd : Scan.Alike L line line' (if s.rest.head? = some '-' then s.skip 1 else s)
      (if s.rest.head? = some '-' then s'.skip 1 else s') := by
    split
    · exact h.skip 1
    · exact h
  dsimp only
  generalize hx : (if s.rest.head? = some '-' then s.skip 1 else s) = digits at hd ⊢
  generalize (if s.rest.head? = some '-' then s'.skip 1 else s') = digits' at hd ⊢
  have hr := hd.skipWhile Char.isDigit
  rw [hd.rest, hr.rest]
  split
  · exact S.fail hr.point
  · rename_i hn
    exact S.terminal (by decide) (lexeme_integer hx hn) (h.piece (List.take_prefix _ _)) hr

theorem primary_alike {inner : Scan → m (ν × Scan)} {inner' : Scan → m' (ν' × Scan)}
    (hi : ∀ {held s s'}, s.Alike L line line' s' →
      S.Rel held (Finding (· ∈ basicKinds) L line line' held) (inner s) (inner' s'))
    (h : s.Alike L line line' s') :
    S.Rel held (Finding (· ∈ basicKinds) L line line' held) (primary inner s)
      (primary inner' s') := by
  unfold primary
  rw [h.rest]
  split
  · exact string_alike S hi h
  · split
    · exact integer_alike S h
    · rcases h.nameOf?_cases isNamePart with ⟨hn, hn'⟩ | ⟨name, rest, rest', hn, hn', hp, hr⟩
      · rw [name?, name?, hn, hn']
        exact S.fail h.restSpan
      · rw [name?, name?, hn, hn']
        refine S.bind (S.leaf (.free (by decide)) (h.piece hp)) ?_
        rintro name name' _ rfl
        exact S.composed (by decide) rfl h.pos hr.pos .single hr
  · exact S.fail h.restSpan

theorem operations_alike {start start' : Nat} (ho : L.offset start start') (n : Nat) {left : ν}
    {left' : ν'} {kind : Kind} (hk : kind ∈ basicKinds) (h : s.Alike L line line' s') :
    S.Rel (⟨left, left', kind⟩ :: held) (Finding (· ∈ basicKinds) L line line' held)
      (operations start n left s) (operations start' n left' s') := by
  induction n generalizing left left' kind s s' with
  | zero => exact S.pure ⟨⟨kind, hk, rfl⟩, h⟩
  | succ n ih =>
    unfold operations
    rw [h.rest]
    split
    · have hp := h.skip 1
      dsimp only
      rcases hp.nameOf?_cases isNamePart with ⟨hn, hn'⟩ | ⟨name, rest, rest', hn, hn', ht, hr⟩
      · rw [name?, name?, hn, hn']
        exact S.pure ⟨⟨kind, hk, rfl⟩, h⟩
      · rw [name?, name?, hn, hn']
        refine S.bind (S.leaf (.free (by decide)) (hp.piece ht)) ?_
        rintro right right' _ rfl
        refine S.bind (S.spanning ⟨_, hk, rfl⟩ ho hr.pos (.cons .single)) ?_
        rintro both both' _ rfl
        exact ih (by decide) hr
    · exact S.pure ⟨⟨kind, hk, rfl⟩, h⟩

theorem basicWithin_alike (depth : Nat) (h : s.Alike L line line' s') :
    S.Rel held (Finding (· ∈ basicKinds) L line line' held) (basicWithin depth s)
      (basicWithin depth s') := by
  have hb := h.skipBlanks
  induction depth generalizing s s' held with
  | zero => exact S.fail hb.restSpan
  | succ depth ih =>
    refine S.bind (primary_alike S (fun h => ih h h.skipBlanks) hb) ?_
    rintro ⟨left, rest⟩ ⟨left', rest'⟩ _ ⟨⟨_, hk, rfl⟩, hr⟩
    dsimp only at hr ⊢
    rw [hr.rest]
    exact operations_alike S hb.pos _ hk hr

theorem basic_alike (h : s.Alike L line line' s') :
    S.Rel held (Finding (· ∈ basicKinds) L line line' held) (basic s) (basic s') := by
  unfold basic
  rw [h.rest]
  exact basicWithin_alike S _ h

theorem comparison_alike (h : s.Alike L line line' s') :
    S.Rel held (Finding (· = .comparison) L line line' held) (comparison s) (comparison s') := by
  refine S.bind (basic_alike S h) ?_
  rintro ⟨left, s⟩ ⟨left', s'⟩ _ ⟨⟨kind, hk, rfl⟩, hl⟩
  have hb := hl.skipBlanks
  dsimp only at hb ⊢
  rw [hb.rest]
  split
  · exact S.fail hb.point
  · rename_i sign hf
    have hsign : sign.isPrefixOf s.skipBlanks.rest = true := by
      simpa using List.find?_some hf
    have hp := List.isPrefixOf_iff_prefix.1 hsign
    have ht := Lexeme.comparisonOperator (List.mem_of_find?_eq_some hf)
    refine S.bind (S.leaf ht (hb.piece hp)) ?_
    rintro operator operator' _ rfl
    refine S.bind (basic_alike S (hb.skip sign.length)) ?_
    rintro ⟨right, rest⟩ ⟨right', rest'⟩ _ ⟨⟨_, hk', rfl⟩, hr⟩
    refine S.bind S.spans ?_
    rintro span span' _ ⟨rfl, hs⟩
    have hstart : L.offset (span left).start (span' left').start :=
      (hs ⟨left, left', kind⟩ (by simp)).start
    exact S.composed rfl ⟨_, hk, _, hk', rfl⟩ hstart hstart (.cons (.cons .single)) hr

end Expression

end ArchiveScript
