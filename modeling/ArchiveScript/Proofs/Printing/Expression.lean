import ArchiveScript.Proofs.Printing.Spacing

/-! # Reading phrases back

The readers of a line read a phrase as its tree, in whichever way it is written and whatever follows
it, if only no character that would continue the phrase comes next.
-/

namespace ArchiveScript

namespace Scan

theorem takeWhile_eq_nil {α : Type} {p : α → Bool} {list : List α}
    (h : list.head?.any p = false) : list.takeWhile p = [] := by
  cases list with
  | nil => rfl
  | cons c cs => exact List.takeWhile_cons_of_neg (by simpa using h)

theorem dropWhile_eq_self {α : Type} {p : α → Bool} {list : List α}
    (h : list.head?.any p = false) : list.dropWhile p = list := by
  cases list with
  | nil => rfl
  | cons c cs => exact List.dropWhile_cons_of_neg (by simpa using h)

variable {pos : Nat} {rest : List Char}

theorem skipWhile_append {p : Char → Bool} {chars : List Char} (hc : ∀ c ∈ chars, p c = true)
    (hr : rest.head?.any p = false) :
    skipWhile p ⟨pos, chars ++ rest⟩ = ⟨pos + Text.bytes chars, rest⟩ := by
  rw [skipWhile, List.takeWhile_append_of_pos hc, List.dropWhile_append_of_pos hc,
    takeWhile_eq_nil hr, dropWhile_eq_self hr, List.append_nil]

theorem skipBlanks_of_head (h : rest.head?.any Text.isIndent = false) :
    skipBlanks ⟨pos, rest⟩ = ⟨pos, rest⟩ :=
  @skipWhile_append pos rest _ [] (by simp) h

theorem skipBlanks_append {blanks : List Char} (hb : ∀ c ∈ blanks, Text.isIndent c = true)
    (h : rest.head?.any Text.isIndent = false) :
    skipBlanks ⟨pos, blanks ++ rest⟩ = ⟨pos + Text.bytes blanks, rest⟩ :=
  skipWhile_append hb h

theorem skipBlanks_space (h : rest.head?.any Text.isIndent = false) :
    skipBlanks ⟨pos, ' ' :: rest⟩ = ⟨pos + 1, rest⟩ :=
  skipBlanks_append (List.forall_mem_singleton.2 rfl) h

theorem skip_append (chars : List Char) :
    skip chars.length ⟨pos, chars ++ rest⟩ = ⟨pos + Text.bytes chars, rest⟩ := by
  rw [skip, List.take_left, List.drop_left]

theorem eatWord?_append {word : List Char} (h : rest.head?.any isNamePart = false) :
    eatWord? word ⟨pos, word ++ rest⟩ = some ⟨pos + Text.bytes word, rest⟩ := by
  have hw : atWord word ⟨pos, word ++ rest⟩ = true := by
    rw [atWord, List.drop_left, h, List.isPrefixOf_iff_prefix.2 (List.prefix_append word rest)]
    rfl
  rw [eatWord?, if_pos hw, skip_append]

theorem eat?_of_head {sign : Char} (h : rest.head? ≠ some sign) :
    eat? [sign] ⟨pos, rest⟩ = none := by
  refine if_neg fun hp => h ?_
  obtain ⟨t, rfl⟩ := List.isPrefixOf_iff_prefix.1 hp
  rfl

end Scan

namespace Printing

open Node Expression Scan

variable {pos : Nat} {rest : List Char}

section Names

theorem isNamePart_of_isNameStart {c : Char} (h : isNameStart c = true) : isNamePart c = true := by
  simp only [isNameStart, isNamePart, Char.isAlphanum, Bool.or_eq_true] at h ⊢
  rcases h with h | h
  · exact .inl (.inl h)
  · exact .inr h

theorem isIndent_of_isNamePart {c : Char} (h : isNamePart c = true) : Text.isIndent c = false := by
  cases hi : Text.isIndent c with
  | false => rfl
  | true =>
    simp only [Text.isIndent, Bool.or_eq_true, beq_iff_eq] at hi
    rcases hi with rfl | rfl <;> revert h <;> decide

theorem nameOf?_print {part : Char → Bool} (hp : ∀ c, isNamePart c = true → part c = true)
    (name : NameOf part) (hr : rest.head?.any part = false) :
    nameOf? part ⟨pos, name.print ++ rest⟩ =
      some (name.print, ⟨pos + Text.bytes name.print, rest⟩) := by
  have hc : ∀ c ∈ name.print, part c = true :=
    List.forall_mem_cons.2 ⟨hp _ (isNamePart_of_isNameStart name.isStart), name.isPart⟩
  have hs : (name.print ++ rest).head?.any isNameStart = true := name.isStart
  rw [nameOf?, if_pos hs, skipWhile_append hc hr, List.takeWhile_append_of_pos hc,
    takeWhile_eq_nil hr, List.append_nil]

theorem name?_print (name : Name) (hr : rest.head?.any isNamePart = false) :
    name? ⟨pos, name.print ++ rest⟩ = some (name.print, ⟨pos + Text.bytes name.print, rest⟩) :=
  nameOf?_print (fun _ h => h) name hr

theorem NameOf.head_not_indent {part : Char → Bool} (name : NameOf part) :
    (name.print ++ rest).head?.any Text.isIndent = false :=
  isIndent_of_isNamePart (isNamePart_of_isNameStart name.isStart)

end Names

/-- The value is read, and `rest` is left. -/
def Gives {α : Type} (outcome : Plain (α × Scan)) (a : α) (rest : List Char) : Prop :=
  ∃ pos, outcome = pure (a, ⟨pos, rest⟩)

theorem Gives.bind {α β : Type} {outcome : Plain β} {b : β} {f : β → Plain (α × Scan)} {a : α}
    (ho : outcome = pure b) (hf : Gives (f b) a rest) : Gives (outcome >>= f) a rest := by
  rwa [ho, pure_bind]

/-- No character comes next that would continue an expression. -/
structure Stops (rest : List Char) : Prop where
  name : rest.head?.any isNamePart = false
  point : rest.head? ≠ some '.'

section Strings

theorem stringRun_cons {c : Char} {cs : List Char} (hq : c ≠ '"') (hb : c ≠ '\\')
    (ho : ¬(c = '$' ∧ cs.head? = some '{')) : stringRun (c :: cs) = c :: stringRun cs := by
  rw [stringRun.eq_def (c :: cs)]
  split
  · rename_i h
    exact absurd (List.cons.inj h).1 hq
  · rename_i h
    exact absurd (List.cons.inj h).1 hb
  · rename_i h
    obtain ⟨rfl, rfl⟩ := List.cons.inj h
    exact absurd ⟨rfl, rfl⟩ ho
  · rename_i h
    obtain ⟨rfl, rfl⟩ := List.cons.inj h
    rfl
  · rename_i h
    cases h

theorem stringRun_append {chars : List Char}
    (hp : ∀ c ∈ chars, c ≠ '"' ∧ c ≠ '\\' ∧ c ≠ '\n') (hc : ¬['$', '{'] <:+: chars)
    (hr : stringRun rest = []) (hh : rest.head? ≠ some '{') :
    stringRun (chars ++ rest) = chars := by
  induction chars with
  | nil => exact hr
  | cons c cs ih =>
    obtain ⟨hq, hb, _⟩ := hp c List.mem_cons_self
    have ho : ¬(c = '$' ∧ (cs ++ rest).head? = some '{') := by
      rintro ⟨rfl, ho⟩
      cases cs with
      | nil => exact hh ho
      | cons d ds =>
        obtain rfl := Option.some.inj ho
        exact hc ⟨[], ds, rfl⟩
    rw [List.cons_append, stringRun_cons hq hb ho, ih fun d hd => hp d (List.mem_cons_of_mem c hd)]
    intro hi
    exact hc (hi.trans (List.suffix_cons c cs).isInfix)

theorem Escape.print_eq_cons (escape : Escape) :
    ∃ chars, escape.print = '\\' :: chars := by
  cases escape with
  | simple c h => exact ⟨_, rfl⟩
  | unicode digits h hn hl => exact ⟨_, rfl⟩

theorem escape_print (escape : Escape) :
    Gives (Expression.escape ⟨pos, escape.print ++ rest⟩)
      (terminal .escapeSequence escape.print) rest := by
  cases escape with
  | simple c h =>
    have hu : c ≠ 'u' := by
      rintro rfl
      revert h
      decide
    rw [Escape.print, List.cons_append, List.cons_append, List.nil_append, Expression.escape]
    dsimp only [rest_skip, List.drop_succ_cons, List.drop_zero]
    split
    · rename_i he
      exact absurd (List.cons.inj he).1 hu
    · rename_i he
      obtain ⟨rfl, rfl⟩ := List.cons.inj he
      rw [if_pos h]
      exact ⟨_, rfl⟩
    · rename_i he
      cases he
  | unicode digits h hn hl =>
    have hs : skipWhile isHexDigit ⟨pos + 3, digits ++ '}' :: rest⟩ =
        ⟨pos + 3 + Text.bytes digits, '}' :: rest⟩ := skipWhile_append h rfl
    have he : eat? ['{'] (skip 2 ⟨pos, '\\' :: 'u' :: '{' :: (digits ++ '}' :: rest)⟩) =
        some ⟨pos + 3, digits ++ '}' :: rest⟩ := rfl
    have hc : (digits ++ '}' :: rest).length - ('}' :: rest).length = digits.length := by simp
    have ho : ¬(digits.length = 0 ∨ 6 < digits.length) := by omega
    have ht : ('\\' :: 'u' :: '{' :: (digits ++ '}' :: rest)).take (digits.length + 4) =
        '\\' :: 'u' :: '{' :: (digits ++ ['}']) := by
      simp [List.take_append, List.take_of_length_le]
    rw [Escape.print, List.cons_append, List.cons_append, List.cons_append, List.append_assoc,
      List.singleton_append, Expression.escape]
    dsimp only [rest_skip, List.drop_succ_cons, List.drop_zero]
    rw [he]
    dsimp only
    rw [hs]
    dsimp only
    rw [hc, if_neg ho, ht]
    exact ⟨_, rfl⟩

/-- What comes after a literal ends it. -/
theorem Pieces.Written.ends_literal {pieces : Pieces} {code : List Char} (h : pieces.Written code)
    (rest : List Char) :
    stringRun (code ++ rest) = [] ∧ (code ++ rest).head? ≠ some '{' := by
  cases h with
  | done => exact ⟨rfl, by simp⟩
  | escape escape literal => cases escape <;> exact ⟨rfl, by simp [Escape.print]⟩
  | interpolation => exact ⟨rfl, by simp⟩

theorem stringPieces_literal {inner : Scan → Plain (Node × Scan)} {opened n : Nat}
    {literal : Literal} {pieces : Pieces} {code : List Char} {trees : List Child}
    (hw : pieces.Written code)
    (hp : ∀ pos m, code.length ≤ m →
      Gives (stringPieces inner opened m ⟨pos, code ++ rest⟩) trees rest)
    (hn : literal.chars.length + code.length ≤ n) :
    Gives (stringPieces inner opened n ⟨pos, literal.chars ++ (code ++ rest)⟩)
      (literal.trees ++ trees) rest := by
  obtain ⟨hr, hh⟩ := hw.ends_literal rest
  have hs := stringRun_append literal.plain literal.closed hr hh
  cases hl : literal.chars with
  | nil =>
    rw [Literal.trees_eq_nil hl]
    exact hp pos n (by omega)
  | cons c cs =>
    have ht := Literal.trees_eq_singleton (hl ▸ List.cons_ne_nil c cs)
    rw [hl] at hs hn ht
    obtain ⟨m, rfl⟩ : ∃ m, n = m + 1 := ⟨n - 1, by simp at hn; omega⟩
    obtain ⟨pos', he⟩ := hp (pos + Text.bytes (c :: cs)) m (by simp at hn; omega)
    rw [stringPieces, ht]
    dsimp only
    -- The literal is not empty, so nothing that ends it comes first.
    split
    · rename_i h
      cases h
    · rename_i h
      rw [h] at hs
      cases hs
    · rename_i h
      rw [h] at hs
      cases hs
    · rename_i h
      rw [h] at hs
      cases hs
    · rw [hs, skip_append, he]
      exact ⟨_, rfl⟩

variable {inner : Scan → Plain (Node × Scan)} {opened n : Nat} {chars middle : List Char}
  {tree : Node} {trees : List Child}

theorem interpolation_of_gives {kind : Kind} {opener : Nat} {s : Scan} {after : List Char}
    (ha : ∀ c ∈ after, Text.isIndent c = true)
    (h : Gives (inner (s.skip opener)) tree (after ++ '}' :: rest)) :
    Gives (interpolation inner kind opener s) (branch kind [(none, tree)]) rest := by
  obtain ⟨pos, he⟩ := h
  have hb : skipBlanks ⟨pos, after ++ '}' :: rest⟩ = ⟨pos + Text.bytes after, '}' :: rest⟩ :=
    skipBlanks_append ha rfl
  have hc (pos : Nat) : eat? ['}'] ⟨pos, '}' :: rest⟩ = some ⟨pos + 1, rest⟩ := rfl
  refine ⟨pos + Text.bytes after + 1, ?_⟩
  rw [interpolation, he, pure_bind]
  dsimp only
  rw [hb, hc]
  rfl

theorem stringPieces_escape (he : Gives (Expression.escape ⟨pos, '\\' :: chars⟩) tree middle)
    (hr : ∀ pos, Gives (stringPieces inner opened n ⟨pos, middle⟩) trees rest) :
    Gives (stringPieces inner opened (n + 1) ⟨pos, '\\' :: chars⟩) ((none, tree) :: trees)
      rest := by
  obtain ⟨pos', he⟩ := he
  obtain ⟨pos'', hn⟩ := hr pos'
  refine ⟨pos'', ?_⟩
  rw [stringPieces]
  dsimp only
  rw [he, pure_bind]
  dsimp only
  rw [hn]
  rfl

theorem stringPieces_interpolation {after : List Char} (ha : ∀ c ∈ after, Text.isIndent c = true)
    (hi : Gives (inner ⟨pos + 2, chars⟩) tree (after ++ '}' :: middle))
    (hr : ∀ pos, Gives (stringPieces inner opened n ⟨pos, middle⟩) trees rest) :
    Gives (stringPieces inner opened (n + 1) ⟨pos, '$' :: '{' :: chars⟩)
      ((none, branch .interpolation [(none, tree)]) :: trees) rest := by
  obtain ⟨pos', he⟩ :
      Gives (interpolation inner .interpolation 2 ⟨pos, '$' :: '{' :: chars⟩) _ middle :=
    interpolation_of_gives ha hi
  obtain ⟨pos'', hn⟩ := hr pos'
  refine ⟨pos'', ?_⟩
  rw [stringPieces]
  dsimp only
  rw [he, pure_bind]
  dsimp only
  rw [hn]
  rfl

theorem primary_string (h : Gives
    (stringPieces inner pos (chars.length + 1) ⟨pos + 1, chars⟩) trees rest) :
    Gives (primary inner ⟨pos, '"' :: chars⟩) (branch .string trees) rest := by
  obtain ⟨pos', he⟩ := h
  have hs : stringPieces inner pos ('"' :: chars).length (skip 1 ⟨pos, '"' :: chars⟩) =
      pure (trees, ⟨pos', rest⟩) := he
  refine ⟨pos', ?_⟩
  rw [primary, string, hs]
  rfl

end Strings

section Primaries

variable {inner : Scan → Plain (Node × Scan)}

theorem not_digit_of_isNameStart {c : Char} (h : isNameStart c = true) :
    ¬(c = '-' ∨ c.isDigit = true) := by
  rintro (rfl | hd)
  · revert h
    decide
  · have h : (decide (c.val ≥ 'A'.val ∧ c.val ≤ 'Z'.val) ||
      (decide (c.val ≥ 'a'.val) && decide (c.val ≤ 'z'.val)) || c == '_') = true := h
    rw [Char.isDigit_iff_toNat] at hd
    simp only [Bool.or_eq_true, Bool.and_eq_true, decide_eq_true_eq, beq_iff_eq, ge_iff_le,
      UInt32.le_iff_toNat_le] at h
    rcases h with (⟨h, _⟩ | ⟨h, _⟩) | rfl
    · exact absurd (Nat.le_trans h hd.2) (by decide)
    · exact absurd (Nat.le_trans h hd.2) (by decide)
    · exact absurd hd.2 (by decide)

theorem primary_name (name : Name) (hr : rest.head?.any isNamePart = false) :
    Gives (primary inner ⟨pos, name.print ++ rest⟩) (Basic.name name).tree rest := by
  have hs := name.isStart
  unfold primary
  split
  · rename_i h
    rw [(List.cons.inj h).1] at hs
    exact absurd hs (by decide)
  · rename_i h
    obtain ⟨rfl, -⟩ := List.cons.inj h
    rw [if_neg (not_digit_of_isNameStart hs), name?_print name hr]
    exact ⟨_, rfl⟩
  · rename_i h
    cases h

theorem integer_of_skips {s digits after : Scan}
    (hd : (if s.rest.head? = some '-' then s.skip 1 else s) = digits)
    (ha : digits.skipWhile Char.isDigit = after) (hl : after.rest.length ≠ digits.rest.length) :
    integer s =
      (pure (terminal .integer (s.rest.take (s.rest.length - after.rest.length)), after) :
        Plain _) := by
  subst hd ha
  rw [integer, if_neg hl]
  rfl

theorem not_digit_of_not_part (h : rest.head?.any isNamePart = false) :
    rest.head?.any Char.isDigit = false := by
  cases rest with
  | nil => rfl
  | cons c cs =>
    have hc : isNamePart c = false := h
    simp only [isNamePart, Char.isAlphanum, Bool.or_eq_false_iff] at hc
    exact hc.1.2

theorem integer_print (negative : Bool) (digits : Digits)
    (hr : rest.head?.any isNamePart = false) :
    Gives (integer ⟨pos, (Basic.integer negative digits).print ++ rest⟩)
      (Basic.integer negative digits).tree rest := by
  have hs (pos : Nat) : skipWhile Char.isDigit ⟨pos, digits.print ++ rest⟩ =
      ⟨pos + Text.bytes digits.print, rest⟩ :=
    skipWhile_append digits.isDigit (not_digit_of_not_part hr)
  have hl : rest.length ≠ (digits.print ++ rest).length := by
    simp only [Digits.print, List.length_append, List.length_cons]
    omega
  have ht (text : List Char) :
      (text ++ rest).take ((text ++ rest).length - rest.length) = text := by
    rw [List.length_append, Nat.add_sub_cancel, List.take_left]
  cases negative with
  | true =>
    have hi : (if ('-' :: (digits.print ++ rest)).head? = some '-' then
        skip 1 ⟨pos, '-' :: (digits.print ++ rest)⟩ else ⟨pos, '-' :: (digits.print ++ rest)⟩) =
        (⟨pos + 1, digits.print ++ rest⟩ : Scan) := if_pos rfl
    have hread := @integer_of_skips ⟨pos, '-' :: (digits.print ++ rest)⟩ _ _ hi (hs (pos + 1)) hl
    dsimp only at hread
    rw [← List.cons_append, ht] at hread
    exact ⟨_, hread⟩
  | false =>
    have hm : digits.first ≠ '-' := by
      intro h
      have hd := digits.isDigit _ List.mem_cons_self
      rw [h] at hd
      exact absurd hd (by decide)
    have hi : (if (digits.print ++ rest).head? = some '-' then
        skip 1 ⟨pos, digits.print ++ rest⟩ else ⟨pos, digits.print ++ rest⟩) =
        (⟨pos, digits.print ++ rest⟩ : Scan) := if_neg fun h => hm (Option.some.inj h)
    have hread := @integer_of_skips ⟨pos, digits.print ++ rest⟩ _ _ hi (hs pos) hl
    dsimp only at hread
    rw [ht] at hread
    exact ⟨_, hread⟩

theorem primary_integer (negative : Bool) (digits : Digits)
    (hr : rest.head?.any isNamePart = false) :
    Gives (primary inner ⟨pos, (Basic.integer negative digits).print ++ rest⟩)
      (Basic.integer negative digits).tree rest := by
  have hd := digits.isDigit _ List.mem_cons_self
  have hp : primary inner ⟨pos, (Basic.integer negative digits).print ++ rest⟩ =
      integer ⟨pos, (Basic.integer negative digits).print ++ rest⟩ := by
    cases negative with
    | true => rfl
    | false =>
      unfold primary
      split
      · rename_i h
        rw [(List.cons.inj h).1] at hd
        exact absurd hd (by decide)
      · rename_i h
        obtain ⟨rfl, -⟩ := List.cons.inj h
        rw [if_pos (.inr hd)]
      · rename_i h
        cases h
  rw [hp]
  exact integer_print negative digits hr

end Primaries

/-- An outcome comes to the tree by the operations after it. -/
def LeadsTo (start : Nat) (outcome : Plain (Node × Scan)) (tree : Node)
    (rest : List Char) : Prop :=
  ∃ left middle, outcome = pure (left, middle) ∧
    ∃ pos, ∀ n, middle.rest.length ≤ n → ∃ m, rest.length ≤ m ∧
      (operations start n left middle : Plain _) = operations start m tree ⟨pos, rest⟩

theorem Gives.leadsTo {outcome : Plain (Node × Scan)} {tree : Node}
    (h : Gives outcome tree rest) (start : Nat) : LeadsTo start outcome tree rest := by
  obtain ⟨pos, ho⟩ := h
  exact ⟨tree, _, ho, pos, fun n hn => ⟨n, hn, rfl⟩⟩

/-- How the first part of an expression is read where an expression of its length can be. -/
def Basic.Reads (basic : Basic) (code : List Char) : Prop :=
  ∀ depth start pos rest, code.length ≤ depth → rest.head?.any isNamePart = false →
    LeadsTo start (primary (basicWithin depth) ⟨pos, code ++ rest⟩) basic.tree rest

theorem Basic.Written.head_not_indent {basic : Basic} {code : List Char} (h : basic.Written code)
    (rest : List Char) : (code ++ rest).head?.any Text.isIndent = false := by
  cases h with
  | string _ => rfl
  | integer negative digits =>
    cases negative with
    | true => rfl
    | false =>
      refine isIndent_of_isNamePart ?_
      simp [isNamePart, Char.isAlphanum, digits.isDigit _ List.mem_cons_self]
  | name word => exact word.head_not_indent
  | operation hl word =>
    rw [List.append_assoc]
    exact hl.head_not_indent _

theorem Basic.head_not_indent (basic : Basic) (rest : List Char) :
    (basic.print ++ rest).head?.any Text.isIndent = false :=
  basic.written_print.head_not_indent rest

theorem Basic.print_not_indent (basic : Basic) :
    basic.print.head?.any Text.isIndent = false := by
  have h := basic.head_not_indent []
  rwa [List.append_nil] at h

theorem Basic.print_ne_nil (basic : Basic) : basic.print ≠ [] := by
  match basic with
  | .string literal pieces => exact List.cons_ne_nil _ _
  | .integer true digits => exact List.cons_ne_nil _ _
  | .integer false digits => exact List.cons_ne_nil _ _
  | .name word => exact List.cons_ne_nil _ _
  | .operation left word => simp [Basic.print]

theorem Basic.print_cases (basic : Basic) :
    (∃ c cs, basic.print = c :: cs ∧ (c = '"' ∨ c = '-' ∨ c.isDigit = true)) ∨
      ∀ c ∈ basic.print, isNamePart c = true ∨ c = '.' := by
  have hn (word : Name) : ∀ c ∈ word.print, isNamePart c = true := List.forall_mem_cons.2
    ⟨isNamePart_of_isNameStart word.isStart, word.isPart⟩
  match basic with
  | .string literal pieces => exact .inl ⟨_, _, rfl, .inl rfl⟩
  | .integer true digits => exact .inl ⟨_, _, rfl, .inr (.inl rfl)⟩
  | .integer false digits =>
    exact .inl ⟨_, _, rfl, .inr (.inr (digits.isDigit _ List.mem_cons_self))⟩
  | .name word => exact .inr fun c hc => .inl (hn word c hc)
  | .operation left word =>
    rcases left.print_cases with ⟨c, cs, hp, hc⟩ | h
    · refine .inl ⟨c, cs ++ '.' :: word.print, ?_, hc⟩
      rw [Basic.print, hp, List.cons_append]
    · refine .inr fun c hc => ?_
      rcases List.mem_append.1 hc with hc | hc
      · exact h c hc
      · rcases List.mem_cons.1 hc with rfl | hc
        · exact .inr rfl
        · exact .inl (hn word c hc)

theorem Basic.head_ne_colon (basic : Basic) (rest : List Char) :
    (basic.print ++ rest).head? ≠ some ':' := by
  intro h
  rcases basic.print_cases with ⟨c, cs, hp, hc⟩ | hc
  · rw [hp] at h
    obtain rfl := Option.some.inj h
    exact absurd hc (by decide)
  · cases hp : basic.print with
    | nil => exact basic.print_ne_nil hp
    | cons c cs =>
      rw [hp] at h hc
      obtain rfl := Option.some.inj h
      exact absurd (hc _ List.mem_cons_self) (by decide)

theorem operations_of_stops {start n : Nat} {node : Node} (hs : Stops rest) :
    operations start n node ⟨pos, rest⟩ = (pure (node, ⟨pos, rest⟩) : Plain _) := by
  cases n with
  | zero => rfl
  | succ n =>
    unfold operations
    split
    · rename_i h
      exact absurd (congrArg List.head? h) hs.point
    · rfl

/-- An expression is read to its end, and the blanks before it do not matter. -/
theorem Basic.Reads.basicWithin {basic : Basic} {before code : List Char} (h : basic.Reads code)
    (hw : basic.Written code) (hb : ∀ c ∈ before, Text.isIndent c = true) {depth : Nat}
    (hd : code.length < depth) (hs : Stops rest) :
    Gives (basicWithin depth ⟨pos, before ++ (code ++ rest)⟩) basic.tree rest := by
  obtain ⟨depth, rfl⟩ : ∃ n, depth = n + 1 := ⟨depth - 1, by omega⟩
  obtain ⟨left, middle, hp, pos', hm⟩ :=
    h depth (pos + Text.bytes before) (pos + Text.bytes before) rest (by omega) hs.name
  obtain ⟨m, _, ho⟩ := hm _ (Nat.le_refl _)
  refine ⟨pos', ?_⟩
  rw [Expression.basicWithin, basicWith, skipBlanks_append hb (hw.head_not_indent rest), hp]
  exact ho.trans (operations_of_stops hs)

theorem operations_print (start : Nat) (left : Node) (name : Name)
    (hr : rest.head?.any isNamePart = false) : ∃ pos', ∀ m,
      (operations start (m + 1) left ⟨pos, '.' :: (name.print ++ rest)⟩ : Plain _) =
        operations start m (branch .dotExpression [(some .left, left), (some .right, name.tree)])
          ⟨pos', rest⟩ := by
  have hn : name? (skip 1 ⟨pos, '.' :: (name.print ++ rest)⟩) =
      some (name.print, ⟨pos + 1 + Text.bytes name.print, rest⟩) := name?_print name hr
  refine ⟨pos + 1 + Text.bytes name.print, fun m => ?_⟩
  rw [operations]
  dsimp only
  rw [hn]
  rfl

def Pieces.Reads (pieces : Pieces) (code : List Char) : Prop :=
  ∀ depth opened n pos rest, code.length ≤ depth → code.length ≤ n →
    Gives (stringPieces (basicWithin depth) opened n ⟨pos, code ++ rest⟩) pieces.trees rest

theorem stops_closing {after : List Char} (ha : ∀ c ∈ after, Text.isIndent c = true) :
    Stops (after ++ '}' :: rest) := by
  cases after with
  | nil => exact ⟨rfl, by simp⟩
  | cons c cs =>
    have hi := ha c List.mem_cons_self
    constructor
    · change isNamePart c = false
      refine Bool.eq_false_iff.2 fun hn => ?_
      rw [isIndent_of_isNamePart hn] at hi
      cases hi
    · intro hc
      obtain rfl : c = '.' := Option.some.inj hc
      cases hi

mutual

theorem Basic.Written.reads {basic : Basic} {code : List Char} (hw : basic.Written code) :
    basic.Reads code := by
  intro depth start pos rest hd hr
  match hw with
  | @Basic.Written.string literal pieces code h =>
    rw [List.length_cons, List.length_append] at hd
    rw [List.cons_append, List.append_assoc]
    refine (primary_string (stringPieces_literal h (fun p m hm => ?_) ?_)).leadsTo start
    · exact h.reads depth pos m p rest (by omega) hm
    · simp only [List.length_append]
      omega
  | .integer negative digits => exact (primary_integer negative digits hr).leadsTo start
  | .name word => exact (primary_name word hr).leadsTo start
  | @Basic.Written.operation left code h word =>
    rw [List.length_append] at hd
    rw [List.append_assoc, List.cons_append]
    obtain ⟨first, middle, hp, pos', hm⟩ := h.reads depth start pos
      ('.' :: (word.print ++ rest)) (by omega) rfl
    obtain ⟨pos'', ho⟩ := operations_print start left.tree word hr
    refine ⟨first, middle, hp, pos'', fun n hn => ?_⟩
    obtain ⟨m, hl, he⟩ := hm n hn
    rw [List.length_cons, List.length_append] at hl
    obtain ⟨k, rfl⟩ : ∃ k, m = k + 1 := ⟨m - 1, by omega⟩
    exact ⟨k, by omega, he.trans (ho k)⟩

theorem Pieces.Written.reads {pieces : Pieces} {code : List Char} (hw : pieces.Written code) :
    pieces.Reads code := by
  intro depth opened n pos rest hd hn
  obtain ⟨n, rfl⟩ : ∃ m, n = m + 1 := ⟨n - 1, by have := hw.length_pos; omega⟩
  match hw with
  | .done => exact ⟨_, rfl⟩
  | @Pieces.Written.escape escape literal more code h =>
    obtain ⟨chars, he⟩ := escape.print_eq_cons
    simp only [he, List.length_append, List.length_cons] at hd hn
    have hl (p : Nat) : Gives (stringPieces (basicWithin depth) opened n
        ⟨p, literal.chars ++ (code ++ rest)⟩) (literal.trees ++ more.trees) rest :=
      stringPieces_literal h (fun q m hm => h.reads depth opened m q rest (by omega) hm) (by omega)
    have hg := @escape_print pos (literal.chars ++ (code ++ rest)) escape
    rw [List.append_assoc, List.append_assoc, he, List.cons_append]
    rw [he, List.cons_append, ← he] at hg
    exact stringPieces_escape hg hl
  | @Pieces.Written.interpolation value before inside after hb hv ha literal more code h =>
    simp only [List.length_cons, List.length_append] at hd hn
    have hl (p : Nat) : Gives (stringPieces (basicWithin depth) opened n
        ⟨p, literal.chars ++ (code ++ rest)⟩) (literal.trees ++ more.trees) rest :=
      stringPieces_literal h (fun q m hm => h.reads depth opened m q rest (by omega) hm) (by omega)
    have hi : Gives (basicWithin depth
        ⟨pos + 2, before ++ (inside ++ (after ++ '}' :: (literal.chars ++ (code ++ rest))))⟩)
        value.tree (after ++ '}' :: (literal.chars ++ (code ++ rest))) :=
      hv.reads.basicWithin hv hb (by omega) (stops_closing ha)
    simp only [List.cons_append, List.append_assoc]
    exact stringPieces_interpolation ha hi hl

end

/-- However an expression is written, it is read as its tree. -/
theorem Basic.Written.gives {basic : Basic} {before code : List Char} (hw : basic.Written code)
    (hb : ∀ c ∈ before, Text.isIndent c = true) (hs : Stops rest) :
    Gives (Expression.basic ⟨pos, before ++ (code ++ rest)⟩) basic.tree rest := by
  refine hw.reads.basicWithin hw hb ?_ hs
  simp only [List.length_append]
  omega

theorem basic_print (basic : Basic) (hs : Stops rest) :
    Gives (Expression.basic ⟨pos, basic.print ++ rest⟩) basic.tree rest :=
  basic.written_print.gives (List.forall_mem_nil _) hs

theorem basic_space_print (basic : Basic) (hs : Stops rest) :
    Gives (Expression.basic ⟨pos, ' ' :: (basic.print ++ rest)⟩) basic.tree rest :=
  basic.written_print.gives (List.forall_mem_singleton.2 rfl) hs

theorem basic_print_end (basic : Basic) :
    Gives (Expression.basic ⟨pos, basic.print⟩) basic.tree [] := by
  have h : Gives (Expression.basic ⟨pos, basic.print ++ []⟩) basic.tree [] :=
    basic_print basic ⟨rfl, nofun⟩
  rwa [List.append_nil] at h

theorem Basic.Written.gives_space_end {basic : Basic} {code : List Char} (hw : basic.Written code) :
    Gives (Expression.basic ⟨pos, ' ' :: code⟩) basic.tree [] := by
  have h : Gives (Expression.basic ⟨pos, [' '] ++ (code ++ [])⟩) basic.tree [] :=
    hw.gives (List.forall_mem_singleton.2 rfl) ⟨rfl, nofun⟩
  rwa [List.append_nil] at h

theorem basic_space_print_end (basic : Basic) :
    Gives (Expression.basic ⟨pos, ' ' :: basic.print⟩) basic.tree [] :=
  basic.written_print.gives_space_end

theorem comparisonSigns_find {sign : List Char} (h : sign ∈ comparisonSigns) :
    comparisonSigns.find? (·.isPrefixOf (sign ++ ' ' :: rest)) = some sign ∧
      (sign ++ ' ' :: rest).head?.any Text.isIndent = false := by
  simp only [comparisonSigns, List.mem_cons, List.not_mem_nil, or_false] at h
  rcases h with rfl | rfl | rfl | rfl | rfl | rfl <;> exact ⟨rfl, rfl⟩

theorem comparison_print (comparison : Comparison) (hs : Stops rest) :
    Gives (Expression.comparison ⟨pos, ' ' :: (comparison.print ++ rest)⟩) comparison.tree
      rest := by
  obtain ⟨left, sign, hsign, right⟩ := comparison
  obtain ⟨hf, hi⟩ := @comparisonSigns_find (right.print ++ rest) sign hsign
  obtain ⟨pos₁, hl⟩ :=
    @basic_space_print pos (' ' :: (sign ++ ' ' :: (right.print ++ rest))) left ⟨rfl, by simp⟩
  obtain ⟨pos₂, hr⟩ := @basic_space_print (pos₁ + 1 + Text.bytes sign) rest right hs
  refine ⟨pos₂, ?_⟩
  rw [Comparison.print, List.append_assoc, List.cons_append, List.append_assoc, List.cons_append,
    Expression.comparison, hl, pure_bind]
  dsimp only
  rw [skipBlanks_space hi]
  dsimp only
  rw [hf]
  dsimp only
  rw [skip_append, hr]
  rfl

theorem identifier_print (thing : String) (name : Name) (hr : rest.head?.any isNamePart = false) :
    Gives (Scan.identifier thing ⟨pos, ' ' :: (name.print ++ rest)⟩) name.tree rest := by
  refine ⟨pos + 1 + Text.bytes name.print, ?_⟩
  rw [Scan.identifier, skipBlanks_space name.head_not_indent]
  dsimp only
  rw [name?_print name hr]
  rfl

theorem identifier_start_print (thing : String) (name : Name)
    (hr : rest.head?.any isNamePart = false) :
    Gives (Scan.identifier thing ⟨pos, name.print ++ rest⟩) name.tree rest := by
  refine ⟨pos + Text.bytes name.print, ?_⟩
  rw [Scan.identifier, skipBlanks_of_head name.head_not_indent]
  dsimp only
  rw [name?_print name hr]
  rfl

def Quoted.tree? (quoted : Option Quoted) : Option Node :=
  quoted.map fun quoted => terminal .shortDescription quoted.chars

theorem Quoted.trees_eq (quoted : Option Quoted) :
    Quoted.trees quoted =
      (Quoted.tree? quoted).toList.map fun node => (some Field.description, node) := by
  cases quoted <;> rfl

theorem description?_print (quoted : Option Quoted) (hr : rest = [] ∨ rest = [':']) :
    Gives (description? ⟨pos, Quoted.print quoted ++ rest⟩) (Quoted.tree? quoted) rest := by
  cases quoted with
  | none =>
    refine ⟨pos, ?_⟩
    rcases hr with rfl | rfl <;> rfl
  | some quoted =>
    have hc : ∀ c ∈ quoted.chars, (c != '"') = true := fun c hm => by
      simpa using (quoted.plain c hm).1
    have ht : (quoted.chars ++ '"' :: rest).takeWhile (· != '"') = quoted.chars := by
      rw [List.takeWhile_append_of_pos hc, takeWhile_eq_nil rfl, List.append_nil]
    have hl : quoted.chars.length < (quoted.chars ++ '"' :: rest).length := by
      rw [List.length_append, List.length_cons]
      omega
    have hs : skip (quoted.chars.length + 1) ⟨pos + 2, quoted.chars ++ '"' :: rest⟩ =
        ⟨pos + 2 + Text.bytes (quoted.chars ++ ['"']), rest⟩ := by
      have ha := @skip_append (pos + 2) rest (quoted.chars ++ ['"'])
      rw [List.append_assoc, List.length_append] at ha
      exact ha
    refine ⟨pos + 2 + Text.bytes (quoted.chars ++ ['"']), ?_⟩
    rw [Quoted.print, List.cons_append, List.cons_append, List.append_assoc, List.singleton_append,
      description?, skipBlanks_space rfl]
    dsimp only
    have hi : skip 1 ⟨pos + 1, '"' :: (quoted.chars ++ '"' :: rest)⟩ =
        ⟨pos + 2, quoted.chars ++ '"' :: rest⟩ := rfl
    rw [hi]
    dsimp only
    rw [ht, if_pos hl, hs]
    rfl

end Printing

end ArchiveScript
