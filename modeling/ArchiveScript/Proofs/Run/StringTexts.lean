import Mathlib
import ArchiveScript.Proofs.Run.Assignment
import ArchiveScript.Proofs.Run.LostTexts

/-! # Texts as string literals

Every text can be written as a string literal. Quotes, backslashes and dollar signs stand behind a
backslash, line feeds and carriage returns are escape sequences, and every other character stands
for itself or is given by its number. However a text is written, the literal is read as one string,
and it evaluates to the text.
-/

namespace ArchiveScript

def hexDigitValue (digit : Char) : Nat := "0123456789abcdef".toList.idxOf digit.toLower

def hexNumber (digits : List Char) : Nat :=
  digits.foldl (fun number digit => 16 * number + hexDigitValue digit) 0

structure Numbers (digits : List Char) (c : Char) : Prop where
  hex : ∀ digit ∈ digits, digit ∈ "0123456789abcdefABCDEF".toList
  nonempty : 0 < digits.length
  short : digits.length ≤ 6
  value : hexNumber digits = c.toNat

/-- The ways to write a character in a string literal. -/
inductive Spelling : Char → List Char → Prop
  | quoted {c : Char} (h : c ∈ ['"', '\\', '$']) : Spelling c ['\\', c]
  | feed : Spelling '\n' ['\\', 'n']
  | carriageReturn : Spelling '\r' ['\\', 'r']
  | itself {c : Char} (h : c ∉ ['"', '\\', '$', '\n', '\r']) : Spelling c [c]
  | number {c : Char} {digits : List Char} (h : c ∉ ['"', '\\', '$', '\n', '\r'])
      (hd : Numbers digits c) : Spelling c ('\\' :: 'u' :: '{' :: (digits ++ ['}']))

/-- The ways to write a text in a string literal. -/
inductive Spells : List Char → List Char → Prop
  | nil : Spells [] []
  | cons {c : Char} {text code rest : List Char} (h : Spelling c code) (hr : Spells text rest) :
      Spells (c :: text) (code ++ rest)

theorem exists_spelling (c : Char) : ∃ code, Spelling c code := by
  by_cases hq : c ∈ ['"', '\\', '$']
  · exact ⟨_, .quoted hq⟩
  · by_cases hf : c = '\n'
    · exact ⟨_, hf ▸ Spelling.feed⟩
    · by_cases hr : c = '\r'
      · exact ⟨_, hr ▸ Spelling.carriageReturn⟩
      · refine ⟨_, .itself ?_⟩
        simp only [List.mem_cons, List.not_mem_nil, not_or] at hq ⊢
        exact ⟨hq.1, hq.2.1, hq.2.2.1, hf, hr, not_false⟩

theorem exists_spells (text : List Char) : ∃ code, Spells text code := by
  induction text with
  | nil => exact ⟨_, .nil⟩
  | cons c text ih =>
    obtain ⟨code, hc⟩ := exists_spelling c
    obtain ⟨rest, hr⟩ := ih
    exact ⟨_, .cons hc hr⟩

namespace Run

section Decoding

variable {digits : List Char} {c : Char}

theorem hexValue?_eq (h : ∀ digit ∈ digits, digit ∈ "0123456789abcdefABCDEF".toList) :
    hexValue? digits = some (hexNumber digits) := by
  have hv : ∀ digit ∈ "0123456789abcdefABCDEF".toList,
      digit.isDigit = true ∧ digit.toNat - '0'.toNat = hexDigitValue digit ∨
      digit.isDigit = false ∧ ('a' ≤ digit && digit ≤ 'f') = true ∧
        digit.toNat - 'a'.toNat + 10 = hexDigitValue digit ∨
      digit.isDigit = false ∧ ('a' ≤ digit && digit ≤ 'f') = false ∧
        ('A' ≤ digit && digit ≤ 'F') = true ∧
        digit.toNat - 'A'.toNat + 10 = hexDigitValue digit :=
    List.all_iff_forall_prop.1 (by decide)
  rw [hexValue?, hexNumber]
  generalize 0 = number
  induction digits generalizing number with
  | nil => rfl
  | cons digit digits ih =>
    have hr := ih (fun other ho => h other (List.mem_cons_of_mem digit ho))
      (16 * number + hexDigitValue digit)
    rw [List.foldl_cons, List.foldl_cons, ← hr]
    rcases hv digit (h digit List.mem_cons_self) with ⟨hd, hn⟩ | ⟨hd, hl, hn⟩ | ⟨hd, hl, hu, hn⟩
    · rw [hd, ← hn]
      rfl
    · rw [hd, hl, ← hn]
      rfl
    · rw [hd, hl, hu, ← hn]
      rfl

theorem charOfHex?_eq (h : Numbers digits c) : charOfHex? digits = some c := by
  have he : digits ≠ [] := List.ne_nil_of_length_pos h.nonempty
  have hv : (hexNumber digits).isValidChar := h.value ▸ c.valid
  have hc : Char.ofNatAux (hexNumber digits) hv = c := by
    apply Char.ext
    apply UInt32.toNat_inj.1
    exact h.value
  unfold charOfHex?
  split
  · exact absurd (h.hex '+' List.mem_cons_self) (by decide)
  · dsimp only
    rw [if_neg (by simpa using he), hexValue?_eq h.hex]
    exact (dif_pos hv).trans (congrArg some hc)

theorem decodeEscape?_unicode (digits : List Char) :
    decodeEscape? (String.ofList ('\\' :: 'u' :: '{' :: (digits ++ ['}']))) =
      charOfHex? digits := by
  rw [decodeEscape?, String.toList_ofList]
  change (if (digits ++ ['}']).getLast? = some '}'
    then charOfHex? (digits ++ ['}']).dropLast else none) = charOfHex? digits
  rw [List.getLast?_concat, if_pos rfl, List.dropLast_concat]

theorem decodeEscape?_number (h : Numbers digits c) :
    decodeEscape? (String.ofList ('\\' :: 'u' :: '{' :: (digits ++ ['}']))) = some c :=
  (decodeEscape?_unicode digits).trans (charOfHex?_eq h)

end Decoding

section Reading

open Printing Node

variable {η κ : Type} [Cursor κ] {inner : Node → Eval η κ Value} {c : Char}
  {text code rest : List Char} {children more : List Child}

/-- A character that does not stand for itself is spelled by an escape sequence. -/
theorem spelling_cases (h : Spelling c code) :
    code = [c] ∧ c ∉ ['"', '\\', '$', '\n', '\r'] ∨
      ∃ escape : Escape, escape.print = code ∧ decodeEscape? (String.ofList code) = some c := by
  cases h with
  | quoted h =>
    have hq : ∀ q ∈ ['"', '\\', '$'], Expression.isEscape q = true ∧
        decodeEscape? (String.ofList ['\\', q]) = some q :=
      List.all_iff_forall_prop.1 (by decide)
    exact .inr ⟨.simple c (hq c h).1, rfl, (hq c h).2⟩
  | feed => exact .inr ⟨.simple 'n' rfl, rfl, by decide⟩
  | carriageReturn => exact .inr ⟨.simple 'r' rfl, rfl, by decide⟩
  | itself h => exact .inl ⟨rfl, h⟩
  | number h hd =>
    have hx : ∀ digit ∈ "0123456789abcdefABCDEF".toList, Expression.isHexDigit digit = true :=
      List.all_iff_forall_prop.1 (by decide)
    exact .inr ⟨.unicode _ (fun digit hm => hx digit (hd.hex digit hm)) hd.nonempty hd.short, rfl,
      decodeEscape?_number hd⟩

/-- The pieces of a string come to the text. -/
inductive Tells : List Child → List Char → Prop
  | nil : Tells [] []
  | content {piece : Child} {rest : List Child} {text : List Char}
      (hk : piece.2.kind = .stringContent) (hr : Tells rest text) :
      Tells (piece :: rest) (piece.2.text.toList ++ text)
  | escape {piece : Child} {rest : List Child} {c : Char} {text : List Char}
      (hk : piece.2.kind = .escapeSequence) (hd : decodeEscape? piece.2.text = some c)
      (hr : Tells rest text) : Tells (piece :: rest) (c :: text)

namespace Tells

theorem of_bares (h : Tells (bares children) text) : Tells children text := by
  induction children generalizing text with
  | nil => exact h
  | cons child rest ih =>
    cases h with
    | content hk hr =>
      rw [text_bare]
      exact .content ((kind_bare _).symm.trans hk) (ih hr)
    | escape hk hd hr =>
      rw [text_bare] at hd
      exact .escape ((kind_bare _).symm.trans hk) hd (ih hr)

theorem literal (literal : Literal) (h : Tells more rest) :
    Tells (literal.trees ++ more) (literal.chars ++ rest) := by
  rw [Literal.trees]
  cases hc : literal.chars with
  | nil => exact h
  | cons d ds =>
    have hl := @content (none, terminal .stringContent (d :: ds)) _ _ rfl h
    simpa [terminal, Node.text] using hl

omit [Cursor κ] in
theorem stringPieces_append (h : Tells children text) (others : List Child) :
    stringPieces inner (children ++ others) =
      stringPieces inner others >>= fun told => pure (String.ofList text ++ told) := by
  induction h with
  | nil =>
    have he (told : String) : String.ofList [] ++ told = told := String.empty_append
    simp only [he, List.nil_append, bind_pure]
  | content hk _ ih =>
    simp only [List.cons_append, stringPieces, stringPiece, hk, pure_bind, ih, bind_assoc,
      String.ofList_append, String.ofList_toList, String.append_assoc]
  | escape hk hd _ ih =>
    simp only [List.cons_append, stringPieces, stringPiece, hk, hd, pure_bind, ih, bind_assoc,
      String.ofList_cons, String.append_assoc]

omit [Cursor κ] in
theorem stringPieces_run (h : Tells children text) (world : World η κ) :
    stringPieces inner children world = (.ok (String.ofList text), world) := by
  have hr : stringPieces inner (children ++ []) = _ := h.stringPieces_append []
  rw [List.append_nil] at hr
  rw [hr, stringPieces, pure_bind, String.append_empty]
  rfl

end Tells

def plainLiteral (chars : List Char) (h : ∀ c ∈ chars, c ∉ ['"', '\\', '$', '\n', '\r']) :
    Literal where
  chars := chars
  plain c hc := by
    have hp := h c hc
    simp only [List.mem_cons, not_or] at hp
    exact ⟨hp.1, hp.2.1, hp.2.2.2.1⟩
  closed hi := by
    have hm : '$' ∈ chars := hi.subset List.mem_cons_self
    exact absurd (by decide) (h '$' hm)

/-- A spelled text is a literal and then pieces, the quote after it apart. -/
theorem exists_pieces (h : Spells text code) :
    ∃ (literal : Literal) (pieces : Pieces) (rest : List Char),
      (∀ c ∈ literal.chars, c ∉ ['"', '\\', '$', '\n', '\r']) ∧
      literal.chars ++ pieces.print = code ++ ['"'] ∧ text = literal.chars ++ rest ∧
      Tells pieces.trees rest := by
  induction h with
  | nil =>
    exact ⟨plainLiteral [] nofun, .done, [], nofun, rfl, rfl, .nil⟩
  | @cons c text code rest hs _ ih =>
    obtain ⟨literal, pieces, told, hl, hp, rfl, ht⟩ := ih
    rcases spelling_cases hs with ⟨rfl, hc⟩ | ⟨escape, rfl, hd⟩
    · have hn : ∀ d ∈ c :: literal.chars, d ∉ ['"', '\\', '$', '\n', '\r'] :=
        List.forall_mem_cons.2 ⟨hc, hl⟩
      refine ⟨plainLiteral (c :: literal.chars) hn, pieces, told, hn, ?_, rfl, ht⟩
      exact congrArg (c :: ·) hp
    · refine ⟨plainLiteral [] nofun, .escape escape literal pieces, _, nofun, ?_, rfl, ?_⟩
      · rw [List.append_assoc, ← hp]
        rfl
      · exact .escape rfl hd (.literal literal ht)

end Reading

section Evaluation

open Printing Node

variable {η κ : Type} [Cursor κ] {node : Node} {literal : Literal} {pieces : Pieces}
  {rest : List Char}

omit [Cursor κ] in
theorem string_kind (hb : node.bare = (Basic.string literal pieces).tree) :
    node.kind = .string := by
  rw [← kind_bare, hb]
  rfl

theorem string_run (hb : node.bare = (Basic.string literal pieces).tree)
    (ht : Tells pieces.trees rest) (scope : Scope) (world : World η κ) :
    basic scope node world = (.ok (.text (String.ofList (literal.chars ++ rest))), world) := by
  have hc : bares node.children = literal.trees ++ pieces.trees := by
    rw [← children_bare, hb]
    rfl
  have htold : Tells node.children (literal.chars ++ rest) := .of_bares (hc ▸ .literal literal ht)
  rw [basic_eq, basicWith, string_kind hb]
  dsimp only
  rw [Eval.orAt, Eval.run_bind, htold.stringPieces_run]
  rfl

end Evaluation

def stringScript (name : Printing.Name) (code ending : List Char) : List Char :=
  "Set ".toList ++ (name.print ++ " = ".toList ++ '"' :: (code ++ ['"'])) ++ ending

/-- The script is read as one statement, which sets the variable to a string whose pieces come to
the text. -/
theorem reads_stringScript (name : Printing.Name) {text code ending : List Char}
    (h : Spells text code) (he : ending = [] ∨ ending = ['\n']) :
    ∃ (literal : Printing.Literal) (pieces : Printing.Pieces) (rest : List Char),
      ReadsAs (stringScript name code ending) (.branch .sourceFile
        [(none, assignment name (Printing.Basic.string literal pieces).tree)]) ∧
      text = literal.chars ++ rest ∧ Tells pieces.trees rest := by
  obtain ⟨literal, pieces, rest, -, hp, htext, ht⟩ := exists_pieces h
  have hhead : (Printing.Simple.set name (.basic (.string literal pieces))).head =
      "Set ".toList ++ (name.print ++ " = ".toList ++
        '"' :: (literal.chars ++ pieces.print)) := rfl
  rw [hp] at hhead
  have hreads :=
    Printing.reads_line (.set name (.basic (.string literal pieces))) (fun _ => rfl) he
  rw [hhead] at hreads
  exact ⟨literal, pieces, rest, hreads, htext, ht⟩

/-- Every text can be spelled in a string literal. Whatever spelling is chosen, a script that sets
a variable to the literal has no mistakes, and its one statement has a string as its value. The
string comes to the text wherever it is evaluated, and the script binds the variable to it. -/
theorem string_carries_text {η κ : Type} [Cursor κ] [Host η κ] (name : Printing.Name)
    (text : String) :
    (∃ code, Spells text.toList code) ∧
      ∀ code ending, Spells text.toList code → (ending = [] ∨ ending = ['\n']) →
        Text.bytes (stringScript name code ending) < 2 ^ 32 →
        (parse (stringScript name code ending)).mistakes = [] ∧
        ∃ node value, (parse (stringScript name code ending)).tree.children = [(none, node)] ∧
          node.kind = .set ∧ node.field? .value = some value ∧ value.kind = .string ∧
          (∀ (scope : Scope) (world : World η κ),
            basic scope value world = (.ok (.text text), world)) ∧
          ∀ (settings : Settings) (world : World η κ) (entries : Dict Value) (outer : List Frame),
            world.scope = ⟨.bindings entries, outer⟩ →
            script settings (parse (stringScript name code ending)).tree world =
              (.ok (), { world with
                scope := ⟨.bindings (entries.insert (String.ofList name.print) (.text text)),
                  outer⟩ }) := by
  constructor
  · exact exists_spells text.toList
  · intro code ending hs he hsize
    obtain ⟨literal, pieces, rest, hreads, htext, ht⟩ := reads_stringScript name hs he
    obtain ⟨hm, hroot⟩ := hreads.in_reach (Nat.le_of_lt_succ hsize)
    obtain ⟨node, hc, hb⟩ := Node.exists_sole_of_bare hroot
    obtain ⟨value, hf, hvb⟩ := assignment_value hb
    have hv {child : Node} (hcb : child.bare = (Printing.Basic.string literal pieces).tree)
        (scope : Scope) (world : World η κ) :
        basic scope child world = (.ok (.text text), world) := by
      rw [string_run hcb ht, ← htext, String.ofList_toList]
    refine ⟨hm, node, value, hc, assignment_kind hb, hf, string_kind hvb, hv hvb, ?_⟩
    intro settings world entries outer hw
    have hx (child : Node) (hcb : child.bare = (Printing.Basic.string literal pieces).tree) :
        expression settings child world = (.ok (.text text), world) := by
      rw [expression, string_kind hcb]
      exact hv hcb world.scope world
    rw [script_eq _ (kind_parse _), hc, statements, Eval.run_bind, assignment_run hb hx hw]
    rfl

/-- A letter by its number, a quote and a line feed as escape sequences, and letters that stand for
themselves. -/
theorem string_carries_text_escaped :
    let code := ['\\', 'u', '{', '0', '0', 'e', '9', '}', '\\', '"', 'é', ' ', '\\', 'n']
    let ended := script ⟨.empty, "/work"⟩ (parse (stringScript ⟨'x', [], rfl, nofun⟩ code [])).tree
      ({ host := {} } : World Rehearsal (FaultyCursor TableCursor))
    Spells "é\"é \n".toList code ∧ ended.1 = .ok () ∧
      ended.2.scope.resolve "x" = some (.text "é\"é \n") := by
  intro code ended
  have hn : Numbers ['0', '0', 'e', '9'] 'é' :=
    ⟨List.all_iff_forall_prop.1 (by decide), by decide, by decide, by decide⟩
  have hs : Spells "é\"é \n".toList code :=
    .cons (.number (by decide) hn) (.cons (.quoted (by decide)) (.cons (.itself (by decide))
      (.cons (.itself (by decide)) (.cons .feed .nil))))
  obtain ⟨-, node, value, -, -, -, -, -, hr⟩ :=
    (@string_carries_text Rehearsal (FaultyCursor TableCursor) _ _ ⟨'x', [], rfl, nofun⟩
      "é\"é \n").2 code [] hs (.inl rfl) (by decide)
  have he : ended = _ := hr ⟨.empty, "/work"⟩ { host := {} } .empty [] rfl
  refine ⟨hs, ?_, ?_⟩
  · rw [he]
  · rw [he]
    rfl

theorem spells_letters (count : Nat) : Spells (Text.lettersTo count) (Text.lettersTo count) := by
  have hletters {text : List Char} (h : ∀ c ∈ text, c = 'a' ∨ c = 'z') : Spells text text := by
    induction text with
    | nil => exact .nil
    | cons c text ih =>
      have hc : c ∉ ['"', '\\', '$', '\n', '\r'] := by
        rcases h c List.mem_cons_self with rfl | rfl
        · decide
        · decide
      exact .cons (.itself hc) (ih fun d hd => h d (List.mem_cons_of_mem c hd))
  exact hletters fun c hc => Text.letter_of_mem hc

theorem string_letters_lost (name : Printing.Name) {count : Nat} (h : Span.maxOffset ≤ count)
    {η κ : Type} [Cursor κ] [Host η κ] (settings : Settings) (world : World η κ)
    (hs : world.scope = .root) (other : String) :
    let source := stringScript name (Text.lettersTo count) []
    (parse source).mistakes = [] ∧
      (script settings (parse source).tree world).2.scope.resolve other ≠
        some (.text (String.ofList (Text.lettersTo count))) := by
  intro source
  have hreads : ReadsAs source (.branch .sourceFile [(none, assignment name
      (.branch .string [(none, .terminal .stringContent (Text.lettersTo count))]))]) := by
    rw [← lettersString_tree]
    exact Printing.reads_line (.set name (.basic (.string (lettersLiteral count) .done)))
      (fun _ => rfl) (.inl rfl)
  obtain ⟨root, line, place, shown, child, hp, hchild⟩ := exists_of_fades_assignment hreads.fades.2
  obtain ⟨quoted, _, rfl, hpieces⟩ := hchild.exists_branch
  obtain ⟨piece, _, rfl, hpiece, hnone⟩ := hpieces.exists_cons
  cases hnone
  have hsize : Span.maxOffset < Text.bytes (Text.lettersTo count) := by
    rw [Text.bytes_lettersTo]
    exact Nat.lt_succ_of_le h
  obtain ⟨span, rfl⟩ := hpiece.lost (.of_bytes hsize)
  refine ⟨hreads.fades.1, ?_⟩
  rw [hp]
  exact resolve_of_empty_text rfl hs other (lettersText_ne_empty count)

/-- A text that is too long for a span is lost. -/
theorem string_loses_text :
    let text := String.ofList (Text.lettersTo Span.maxOffset)
    let source := stringScript ⟨'x', [], rfl, nofun⟩ (Text.lettersTo Span.maxOffset) []
    let world : World Rehearsal (FaultyCursor TableCursor) := { host := {} }
    Spells text.toList (Text.lettersTo Span.maxOffset) ∧ (parse source).mistakes = [] ∧
      (script ⟨.empty, "/work"⟩ (parse source).tree world).2.scope.resolve "x" ≠
        some (.text text) := by
  intro text source world
  refine ⟨?_, string_letters_lost _ (Nat.le_refl _) _ world rfl "x"⟩
  rw [String.toList_ofList]
  exact spells_letters _

end Run

end ArchiveScript
