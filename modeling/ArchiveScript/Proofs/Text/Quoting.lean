import Mathlib
import ArchiveScript.Text.Quoted

/-! # Reading quoted texts back

Which characters are written by their number is left open: whatever they are, no character is
written with the beginning of another, and a quoted text says where it ends.
-/

namespace ArchiveScript.Text

/-- How a character is written between quotes when some characters are written by their number.
Those that have a backslash and a letter keep it. -/
def quoteCharBut (hidden : Char → Bool) (c : Char) : List Char :=
  if c = '"' then ['\\', '"']
  else if c = '\\' then ['\\', '\\']
  else if c = '\n' then ['\\', 'n']
  else if c = '\t' then ['\\', 't']
  else if c = '\r' then ['\\', 'r']
  else if c = Char.ofNat 0 then ['\\', '0']
  else if hidden c then ['\\', 'u', '{'] ++ hexDigits c.toNat ++ ['}']
  else [c]

def quotedBut (hidden : Char → Bool) (s : String) : String :=
  String.ofList ('"' :: s.toList.flatMap (quoteCharBut hidden) ++ ['"'])

theorem quotedBut_isPrintable : quotedBut (fun c => !isPrintable c) = quoted := by
  have hchar : quoteCharBut (fun c => !isPrintable c) = quoteChar := by
    funext c
    simp only [quoteCharBut, quoteChar]
    by_cases h : isPrintable c = true <;> simp [h]
  funext s
  rw [quotedBut, quoted, hchar]

theorem append_cons_inj {stop : Char} {first second x y : List Char} (hf : stop ∉ first)
    (hs : stop ∉ second) (h : first ++ stop :: x = second ++ stop :: y) :
    first = second ∧ x = y := by
  induction first generalizing second with
  | nil =>
    cases second with
    | nil => exact ⟨rfl, (List.cons.inj h).2⟩
    | cons d second => exact absurd (List.mem_cons.2 (.inl (List.cons.inj h).1)) hs
  | cons c first ih =>
    cases second with
    | nil => exact absurd (List.mem_cons.2 (.inl (List.cons.inj h).1.symm)) hf
    | cons d second =>
      obtain ⟨rfl, hrest⟩ := List.cons.inj h
      have hboth := ih (List.not_mem_of_not_mem_cons hf) (List.not_mem_of_not_mem_cons hs) hrest
      exact ⟨congrArg _ hboth.1, hboth.2⟩

/-! ### Numbers -/

theorem digitChar_inj {d e : Nat} (hd : d < 16) (he : e < 16) (h : d.digitChar = e.digitChar) :
    d = e := by
  have hall : ∀ d < 16, ∀ e < 16, Nat.digitChar d = Nat.digitChar e → d = e := by decide
  exact hall d hd e he h

theorem hexDigits_of_le {n : Nat} (h : 16 ≤ n) :
    hexDigits n = hexDigits (n / 16) ++ [(n % 16).digitChar] :=
  Nat.toDigits_of_base_le (by decide) h

theorem hexDigits_of_lt {n : Nat} (h : n < 16) : hexDigits n = [n.digitChar] :=
  Nat.toDigits_of_lt_base h

theorem mem_hexDigits {c : Char} {n : Nat} (h : c ∈ hexDigits n) :
    ∃ d < 16, c = Nat.digitChar d := by
  induction n using Nat.strong_induction_on with
  | _ n ih =>
  rcases Nat.lt_or_ge n 16 with hn | hn
  · rw [hexDigits_of_lt hn, List.mem_singleton] at h
    exact ⟨n, hn, h⟩
  · rw [hexDigits_of_le hn, List.mem_append, List.mem_singleton] at h
    rcases h with h | h
    · exact ih _ (Nat.div_lt_self (by omega) (by decide)) h
    · exact ⟨n % 16, Nat.mod_lt _ (by decide), h⟩

theorem brace_notMem_hexDigits (n : Nat) : '\x7d' ∉ hexDigits n := by
  have hall : ∀ d < 16, '\x7d' ≠ Nat.digitChar d := by decide
  intro h
  obtain ⟨d, hd, hbrace⟩ := mem_hexDigits h
  exact hall d hd hbrace

theorem hexDigits_ne {m n : Nat} (hm : m < 16) (hn : 16 ≤ n) : hexDigits m ≠ hexDigits n := by
  intro h
  rw [hexDigits_of_lt hm, hexDigits_of_le hn] at h
  have hlen := congrArg List.length h
  rw [List.length_append, List.length_singleton, List.length_singleton] at hlen
  have hpos : 0 < (hexDigits (n / 16)).length := List.length_pos_iff.2 Nat.toDigits_ne_nil
  omega

theorem hexDigits_injective : Function.Injective hexDigits := by
  intro m n h
  induction m using Nat.strong_induction_on generalizing n with
  | _ m ih =>
  rcases Nat.lt_or_ge m 16 with hm | hm <;> rcases Nat.lt_or_ge n 16 with hn | hn
  · rw [hexDigits_of_lt hm, hexDigits_of_lt hn, List.singleton_inj] at h
    exact digitChar_inj hm hn h
  · exact absurd h (hexDigits_ne hm hn)
  · exact absurd h.symm (hexDigits_ne hn hm)
  · rw [hexDigits_of_le hm, hexDigits_of_le hn] at h
    obtain ⟨hfront, hlast⟩ := List.append_inj' h rfl
    have hdiv : m / 16 = n / 16 := ih _ (Nat.div_lt_self (by omega) (by decide)) hfront
    have hmod : m % 16 = n % 16 :=
      digitChar_inj (Nat.mod_lt _ (by decide)) (Nat.mod_lt _ (by decide))
        (List.singleton_inj.1 hlast)
    omega

/-! ### Characters -/

def letters : List (Char × Char) :=
  [('"', '"'), ('\\', '\\'), ('n', '\n'), ('t', '\t'), ('r', '\r'), ('0', Char.ofNat 0)]

section

variable {hidden : Char → Bool} {c d : Char} {u v : List Char}

theorem quoteCharBut_cases (hidden : Char → Bool) (c : Char) :
    (∃ letter, (letter, c) ∈ letters ∧ quoteCharBut hidden c = ['\\', letter]) ∨
      quoteCharBut hidden c = ['\\', 'u', '{'] ++ hexDigits c.toNat ++ ['\x7d'] ∨
      c ≠ '\\' ∧ c ≠ '"' ∧ quoteCharBut hidden c = [c] := by
  rw [quoteCharBut]
  split_ifs with hquote hslash hfeed htab hreturn hnul hhidden
  · exact .inl ⟨_, by rw [hquote]; decide, rfl⟩
  · exact .inl ⟨_, by rw [hslash]; decide, rfl⟩
  · exact .inl ⟨_, by rw [hfeed]; decide, rfl⟩
  · exact .inl ⟨_, by rw [htab]; decide, rfl⟩
  · exact .inl ⟨_, by rw [hreturn]; decide, rfl⟩
  · exact .inl ⟨_, by rw [hnul]; decide, rfl⟩
  · exact .inr (.inl rfl)
  · exact .inr (.inr ⟨hslash, hquote, rfl⟩)

theorem letters_inj {letter : Char} (hc : (letter, c) ∈ letters) (hd : (letter, d) ∈ letters) :
    c = d := by
  have hall : ∀ first ∈ letters, ∀ second ∈ letters, first.1 = second.1 → first.2 = second.2 := by
    decide
  exact hall _ hc _ hd rfl

theorem letters_ne_u {letter : Char} (hc : (letter, c) ∈ letters) : letter ≠ 'u' := by
  have hall : ∀ pair ∈ letters, pair.1 ≠ 'u' := by decide
  exact hall _ hc

/-- Characters are written so that none is the beginning of another. -/
theorem quoteCharBut_append_inj
    (h : quoteCharBut hidden c ++ u = quoteCharBut hidden d ++ v) : c = d ∧ u = v := by
  rcases quoteCharBut_cases hidden c with ⟨l, hl, hc⟩ | hc | ⟨hc', -, hc⟩ <;>
    rcases quoteCharBut_cases hidden d with ⟨m, hm, hd⟩ | hd | ⟨hd', -, hd⟩ <;>
      simp only [hc, hd, List.cons_append, List.nil_append, List.append_assoc, List.cons.injEq,
        true_and] at h
  · exact ⟨letters_inj hl (h.1 ▸ hm), h.2⟩
  · exact absurd h.1 (letters_ne_u hl)
  · exact absurd h.1.symm hd'
  · exact absurd h.1.symm (letters_ne_u hm)
  · obtain ⟨hdigits, hrest⟩ :=
      append_cons_inj (brace_notMem_hexDigits _) (brace_notMem_hexDigits _) h
    exact ⟨Char.toNat_inj.1 (hexDigits_injective hdigits), hrest⟩
  · exact absurd h.1.symm hd'
  · exact absurd h.1 hc'
  · exact absurd h.1 hc'
  · exact h

theorem quoteCharBut_ne_quote : quoteCharBut hidden c ++ u ≠ '"' :: v := by
  rcases quoteCharBut_cases hidden c with ⟨l, hl, hc⟩ | hc | ⟨-, hquote, hc⟩ <;> rw [hc] <;>
    intro h
  · exact absurd (List.cons.inj h).1 (by decide)
  · exact absurd (List.cons.inj h).1 (by decide)
  · exact hquote (List.cons.inj h).1

theorem flatMap_quoteCharBut_inj {first second : List Char}
    (h : first.flatMap (quoteCharBut hidden) ++ '"' :: u =
      second.flatMap (quoteCharBut hidden) ++ '"' :: v) : first = second ∧ u = v := by
  induction first generalizing second with
  | nil =>
    cases second with
    | nil => exact ⟨rfl, (List.cons.inj h).2⟩
    | cons d second =>
      rw [List.flatMap_cons, List.append_assoc] at h
      exact absurd h.symm quoteCharBut_ne_quote
  | cons c first ih =>
    cases second with
    | nil =>
      rw [List.flatMap_cons, List.append_assoc] at h
      exact absurd h quoteCharBut_ne_quote
    | cons d second =>
      rw [List.flatMap_cons, List.flatMap_cons, List.append_assoc, List.append_assoc] at h
      obtain ⟨rfl, hrest⟩ := quoteCharBut_append_inj h
      have hboth := ih hrest
      exact ⟨congrArg _ hboth.1, hboth.2⟩

/-- A quoted text says what it quotes and where it ends. -/
theorem quotedBut_append_inj {first second : String}
    (h : (quotedBut hidden first).toList ++ u = (quotedBut hidden second).toList ++ v) :
    first = second ∧ u = v := by
  simp only [quotedBut, String.toList_ofList, List.cons_append, List.append_assoc,
    List.nil_append, List.cons.injEq, true_and] at h
  obtain ⟨htext, hrest⟩ := flatMap_quoteCharBut_inj h
  exact ⟨String.toList_inj.1 htext, hrest⟩

end

end ArchiveScript.Text
