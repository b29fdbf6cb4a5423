import ArchiveScript.Proofs.Run.Located
import ArchiveScript.Proofs.Run.StringTexts
import ArchiveScript.Proofs.Script.Grammatical

/-! # Escape sequences without a character

An escape sequence that is read stands for a character, unless it gives a number that no character
has. Nothing but such a number makes a run fail for an escape sequence.
-/

namespace ArchiveScript

open Grammar Run

/-- An escape sequence that gives the number of no character. -/
def Numberless (text : String) : Prop :=
  ∃ digits, (∀ digit ∈ digits, Expression.isHexDigit digit = true) ∧
    1 ≤ digits.length ∧ digits.length ≤ 6 ∧
    text = String.ofList ('\\' :: 'u' :: '{' :: (digits ++ ['}'])) ∧
    ¬ (hexNumber digits).isValidChar

theorem mem_of_isHexDigit {digit : Char} (h : Expression.isHexDigit digit = true) :
    digit ∈ "0123456789abcdefABCDEF".toList := by
  have hsmall : ∀ n < 128, Expression.isHexDigit (Char.ofNat n) = true →
      Char.ofNat n ∈ "0123456789abcdefABCDEF".toList := by decide
  have hlt : digit.toNat < 128 := by
    simp only [Expression.isHexDigit, Char.isDigit, Bool.or_eq_true, Bool.and_eq_true,
      decide_eq_true_eq, Char.le_def, UInt32.le_iff_toNat_le] at h
    change digit.val.toNat < 128
    rcases h with (⟨-, h⟩ | ⟨-, h⟩) | ⟨-, h⟩ <;> exact Nat.lt_of_le_of_lt h (by decide)
  have hmem := hsmall digit.toNat hlt
  rw [Char.ofNat_toNat] at hmem
  exact hmem h

theorem charOfHex?_eq_none_iff {digits : List Char} (hn : 0 < digits.length)
    (h : ∀ digit ∈ digits, digit ∈ "0123456789abcdefABCDEF".toList) :
    charOfHex? digits = none ↔ ¬ (hexNumber digits).isValidChar := by
  have he : digits ≠ [] := List.ne_nil_of_length_pos hn
  unfold charOfHex?
  split
  · exact absurd (h '+' List.mem_cons_self) (by decide)
  · dsimp only
    rw [if_neg (by simpa using he), hexValue?_eq h]
    simp

/-- The escape sequences that can be read stand for characters, if their numbers do. -/
theorem decodeEscape?_lexeme {text : List Char} (h : Lexeme .escapeSequence text) :
    decodeEscape? (String.ofList text) = none ↔ Numberless (String.ofList text) := by
  cases h with
  | free hk => exact absurd hk (by decide)
  | @escape c h =>
    have hc : ∀ c ∈ "ntrbf0\\\"'$".toList,
        (decodeEscape? (String.ofList ['\\', c])).isSome = true :=
      List.all_iff_forall_prop.1 (by decide)
    apply iff_of_false
    · exact Option.isSome_iff_ne_none.1 (hc c (List.contains_iff_mem.1 h))
    · rintro ⟨digits, -, -, -, htext, -⟩
      have hlength := congrArg List.length (String.ofList_injective htext)
      simp at hlength
  | @unicode digits h hn hl =>
    rw [decodeEscape?_unicode,
      charOfHex?_eq_none_iff hn fun digit hm => mem_of_isHexDigit (h digit hm)]
    constructor
    · exact fun hv => ⟨digits, h, hn, hl, rfl, hv⟩
    · rintro ⟨digits', -, -, -, htext, hv⟩
      have hsame : digits = digits' := by simpa using String.ofList_injective htext
      exact hsame ▸ hv

variable {η κ : Type} [Cursor κ] [Host η κ]

/-- A run fails for an escape sequence only if there is one in the tree that cannot be decoded. -/
theorem undecoded_of_failure {settings : Settings} {tree : Node} {world after : World η κ}
    {failure : Failure} (hw : ∃ entries, world.scope.inner = .bindings entries)
    (h : script settings tree world = (.error failure, after)) {text : String}
    (hc : failure.cause = .invalidLiteral "escape sequence" text) : tree.Undecoded text := by
  unfold script at h
  split at h
  · rw [block_eq] at h
    obtain ⟨before, statement, rest, between, hchildren, hb, hs⟩ := statements_error h
    have hv := statements_scope settings before hw
    rw [hb] at hv
    obtain ⟨node, hn, hfound⟩ := (statement_at hv hs).escape text hc
    have hm : statement ∈ tree.children := by
      rw [hchildren]
      exact List.mem_append_right before List.mem_cons_self
    exact ⟨node, .step hm hn, hfound⟩
  · cases h
    cases hc

/-- Of the escape sequences that are read in reach of spans, wherever they stand, only those with a
number that no character has cannot be decoded. A run of the script fails for nothing but such an
escape sequence of it, and one without any does not fail for an escape sequence. -/
theorem undecoded_only_numberless {source : List Char} (hsize : Text.bytes source < 2 ^ 32)
    (settings : Settings) (world : World η κ)
    (hw : ∃ entries, world.scope.inner = .bindings entries) :
    (∀ found, (parse source).tree.Reaches found → found.kind = .escapeSequence →
      (decodeEscape? found.text = none ↔ Numberless found.text)) ∧
    ∀ failure text, (script settings (parse source).tree world).1 = .error failure →
      failure.cause = .invalidLiteral "escape sequence" text →
      Numberless text ∧ ∃ found, (parse source).tree.Reaches found ∧
        found.kind = .escapeSequence ∧ found.text = text := by
  have hread : ∀ found, (parse source).tree.Reaches found → found.kind = .escapeSequence →
      (decodeEscape? found.text = none ↔ Numberless found.text) := by
    intro found hr hk
    have hspells := (parse_spells (Nat.le_of_lt_succ hsize)).of_reaches hr
    have ht := decodeEscape?_lexeme (hspells.lexeme hk rfl)
    rwa [String.ofList_toList] at ht
  refine ⟨hread, fun failure text hfailed hc => ?_⟩
  obtain ⟨found, hr, hk, rfl, hd⟩ := undecoded_of_failure hw (Prod.fst_eq_iff.1 hfailed) hc
  exact ⟨(hread found hr hk).1 hd, found, hr, hk, rfl⟩

/-- `Log "\u{d800}"`, a log line with the number of a surrogate. -/
def surrogateLine : List Char := "Log \"\\u\x7bd800\x7d\"\n".toList

def surrogateTree : Node :=
  .mk .sourceFile ⟨0, 15⟩ "" [(none, .mk .log ⟨0, 14⟩ "" [(some .value,
    .mk .string ⟨4, 14⟩ "" [(none, .mk .escapeSequence ⟨5, 13⟩ "\\u\x7bd800\x7d" [])])])]

theorem parse_surrogateLine : (parse surrogateLine).tree = surrogateTree := by
  cbv

theorem run_surrogateLine :
    (script ⟨.empty, "/work"⟩ (parse surrogateLine).tree emptyStage).1 =
      .error ⟨.invalidLiteral "escape sequence" "\\u\x7bd800\x7d", some ⟨4, 14⟩⟩ := by
  rw [parse_surrogateLine]
  rfl

theorem undecoded_only_numberless_surrogate :
    Text.bytes surrogateLine < 2 ^ 32 ∧ (∃ entries, emptyStage.scope.inner = .bindings entries) ∧
      Numberless "\\u\x7bd800\x7d" := by
  have hsize : Text.bytes surrogateLine < 2 ^ 32 := by decide
  have hw : ∃ entries, emptyStage.scope.inner = .bindings entries := ⟨.empty, rfl⟩
  refine ⟨hsize, hw, ?_⟩
  have hfailures := (undecoded_only_numberless hsize ⟨.empty, "/work"⟩ emptyStage hw).2
  exact (hfailures _ _ run_surrogateLine rfl).1

/-- A script without mistakes in it that fails for an escape sequence, which is in its tree and
stands for no character. -/
theorem surrogate_read_not_decoded :
    (parse surrogateLine).mistakes = [] ∧
      (∃ found, (parse surrogateLine).tree.Reaches found ∧ found.kind = .escapeSequence ∧
        decodeEscape? found.text = none) ∧
      ∃ failure, (script ⟨.empty, "/work"⟩ (parse surrogateLine).tree emptyStage).1 =
          .error failure ∧ failure.status = .astError ∧
        failure.headline = "AST error - invalid escape sequence '\\u\x7bd800\x7d'" := by
  refine ⟨by cbv, ?_, _, run_surrogateLine, rfl, by decide⟩
  obtain ⟨found, hr, hk, htext, hd⟩ :=
    undecoded_of_failure ⟨.empty, rfl⟩ (Prod.fst_eq_iff.1 run_surrogateLine) rfl
  exact ⟨found, hr, hk, (congrArg decodeEscape? htext).trans hd⟩

end ArchiveScript
