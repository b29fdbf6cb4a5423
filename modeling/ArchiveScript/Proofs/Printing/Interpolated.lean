import ArchiveScript.Proofs.Printing.PlainBlocks

/-! # Interpolated lines

A line of text with expressions between `${` and `}` can stand between quotes, as a string, or below
a header, as a verbatim block. The two are read by readers that have nothing to do with each other,
and both cut the line into the same literals and expressions.
-/

namespace ArchiveScript.Printing

open Node Expression Scan Verbatim

/-- Lines with expressions between `${` and `}`. What stands outside of the expressions neither ends
a string nor opens a safe interpolation. -/
inductive Interpolated : List Char → Prop
  | nil : Interpolated []
  | char {c : Char} {rest : List Char} (hc : c ∉ ['"', '\\', '\r', '\n'])
      (ho : ¬['$', '{'] <+: c :: rest) (hs : ¬['$', '$', '{'] <+: c :: rest)
      (h : Interpolated rest) : Interpolated (c :: rest)
  | value {value : Basic} {before code after rest : List Char}
      (hb : ∀ c ∈ before, Text.isIndent c = true) (hv : value.Written code)
      (ha : ∀ c ∈ after, Text.isIndent c = true) (h : Interpolated rest) :
      Interpolated ('$' :: '{' :: (before ++ (code ++ (after ++ '}' :: rest))))

def Literal.cons (c : Char) (literal : Literal) (hc : c ≠ '"' ∧ c ≠ '\\' ∧ c ≠ '\n')
    (ho : ¬['$', '{'] <+: c :: literal.chars) : Literal where
  chars := c :: literal.chars
  plain := List.forall_mem_cons.2 ⟨hc, literal.plain⟩
  closed := fun hi => (List.infix_cons_iff.1 hi).elim ho literal.closed

/-- The line is the literal, and after it the values, each with its literal. -/
inductive Cut : Literal → List (Basic × Literal) → List Char → Prop
  | last (literal : Literal) (hr : '\r' ∉ literal.chars) : Cut literal [] literal.chars
  | value (literal : Literal) (hr : '\r' ∉ literal.chars)
      (hd : literal.chars.getLast? ≠ some '$') {value : Basic} {next : Literal}
      {more : List (Basic × Literal)} {before code after rest : List Char}
      (hb : ∀ c ∈ before, Text.isIndent c = true) (hv : value.Written code)
      (ha : ∀ c ∈ after, Text.isIndent c = true) (h : Cut next more rest) :
      Cut literal ((value, next) :: more)
        (literal.chars ++ '$' :: '{' :: (before ++ (code ++ (after ++ '}' :: rest))))

def piecesOf : List (Basic × Literal) → Pieces
  | [] => .done
  | (value, literal) :: more => .interpolation value literal (piecesOf more)

def lineTrees (ending : List Char) : Literal → List (Basic × Literal) → List Child
  | literal, [] => rawContent (literal.chars ++ ending)
  | literal, (value, next) :: more =>
    rawContent literal.chars ++
      (none, branch .interpolation [(none, value.tree)]) :: lineTrees ending next more

variable {code margin ending : List Char} {literal : Literal} {values : List (Basic × Literal)}
  {header line : Line}

theorem Interpolated.oneLine (h : Interpolated code) : OneLine code := by
  induction h with
  | nil => decide
  | char hc _ _ _ ih =>
    simp only [List.mem_cons, not_or] at hc
    exact .cons ⟨hc.2.2.2.1, hc.2.2.1⟩ ih
  | value hb hv ha _ ih =>
    refine .cons (by decide) (.cons (by decide) ((margin_oneLine hb).append (hv.oneLine.append ?_)))
    exact (margin_oneLine ha).append (.cons (by decide) ih)

namespace Cut

theorem isPrefix (h : Cut literal values code) : literal.chars <+: code := by
  cases h with
  | last => exact List.prefix_rfl
  | value => exact List.prefix_append ..

theorem cons {c : Char} (hc : c ∉ ['"', '\\', '\r', '\n']) (ho : ¬['$', '{'] <+: c :: code)
    (hs : ¬['$', '$', '{'] <+: c :: code) (h : Cut literal values code) :
    ∃ longer, Cut longer values (c :: code) := by
  simp only [List.mem_cons, List.not_mem_nil, or_false, not_or] at hc
  obtain ⟨hq, hb, hr, hf⟩ := hc
  have hclosed : ¬['$', '{'] <+: c :: literal.chars := fun hp =>
    ho (hp.trans (List.cons_prefix_cons.2 ⟨rfl, h.isPrefix⟩))
  refine ⟨literal.cons c ⟨hq, hb, hf⟩ hclosed, ?_⟩
  have hreturn (hl : '\r' ∉ literal.chars) :
      '\r' ∉ (literal.cons c ⟨hq, hb, hf⟩ hclosed).chars :=
    List.not_mem_cons_of_ne_of_not_mem (Ne.symm hr) hl
  cases h with
  | last _ hl => exact .last _ (hreturn hl)
  | value _ hl hd hbefore hv hafter h =>
    refine .value _ (hreturn hl) ?_ hbefore hv hafter h
    intro (hlast : (c :: literal.chars).getLast? = some '$')
    cases hchars : literal.chars with
    | nil =>
      -- The dollar sign would make the interpolation after it a safe one.
      rw [hchars] at hlast
      obtain rfl := Option.some.inj hlast
      rw [hchars] at hs
      exact hs ⟨_, rfl⟩
    | cons d ds =>
      rw [hchars] at hlast hd
      exact hd hlast

end Cut

theorem Interpolated.exists_cut (h : Interpolated code) :
    ∃ literal values, Cut literal values code := by
  induction h with
  | nil => exact ⟨.empty, [], .last .empty List.not_mem_nil⟩
  | char hc ho hs _ ih =>
    obtain ⟨literal, values, h⟩ := ih
    obtain ⟨longer, hl⟩ := h.cons hc ho hs
    exact ⟨longer, values, hl⟩
  | value hb hv ha _ ih =>
    obtain ⟨literal, values, h⟩ := ih
    exact ⟨.empty, _, .value .empty List.not_mem_nil nofun hb hv ha h⟩

/-- Between quotes the line is a string. -/
theorem Cut.written (h : Cut literal values code) :
    (Basic.string literal (piecesOf values)).Written ('"' :: (code ++ ['"'])) := by
  obtain ⟨tail, hw, ht⟩ :
      ∃ tail, (piecesOf values).Written tail ∧ code ++ ['"'] = literal.chars ++ tail := by
    induction h with
    | last literal => exact ⟨_, .done, rfl⟩
    | value literal _ _ hb hv ha _ ih =>
      obtain ⟨tail, hw, ht⟩ := ih
      refine ⟨_, .interpolation hb hv ha _ hw, ?_⟩
      simp [← ht]
  rw [ht]
  exact .string hw

/-- In a verbatim block the line is read as its pieces. -/
theorem Cut.linePieces (h : Cut literal values code) (ending : List Char) (pos : Nat) {n : Nat}
    (hn : code.length ≤ n) :
    (linePieces ending (n + 1) ⟨pos, code⟩ : Plain _) =
      pure (lineTrees ending literal values) := by
  induction h generalizing pos n with
  | last literal => exact linePieces_literal literal.closed _ _
  | @value literal _ hd value next more before code after rest hb hv ha _ ih =>
    have hr : literalRun (literal.chars ++
        '$' :: '{' :: (before ++ (code ++ (after ++ '}' :: rest)))) = literal.chars :=
      literalRun_append literal.closed rfl (by simp) fun he => absurd he hd
    simp only [List.length_append, List.length_cons] at hn
    obtain ⟨n, rfl⟩ : ∃ m, n = m + 1 := ⟨n - 1, by omega⟩
    refine linePieces_interpolation 2 (fun pos => ?_)
      (fun pos => interpolation_of_gives ha (hv.gives hb (stops_closing ha)))
      fun pos => ih pos (by omega)
    rw [Verbatim.linePieces]
    dsimp only
    rw [hr, skip_append]
    rfl

section Block

variable (hm : ∀ c ∈ margin, Text.isIndent c = true)

include hm

theorem Cut.covers (h : Cut literal values code) (hb : Bears line (margin ++ code) ending)
    (hv : ∃ c ∈ code, Text.isIndent c = false) :
    Covers margin [line] (lineTrees ending literal values) := by
  obtain ⟨hi, hk, hbody⟩ := indented hm hb.margin hb.body
  have he := isEmpty_of_visible hbody hv
  have hr : (linePiecesOf margin.length line : Plain _) =
      pure (lineTrees ending literal values) := by
    rw [linePiecesOf, he, if_neg Bool.false_ne_true, hb.ending]
    dsimp only
    rw [← List.length_append, hk]
    exact h.linePieces ending _ (Nat.le_refl _)
  have hc := Covers.nil.cons hr (.inr hi) fun _ => he
  rwa [List.append_nil] at hc

end Block

/-- A script that logs the line as a string. -/
def logString (code ending : List Char) : List Char :=
  "Log ".toList ++ '"' :: (code ++ ['"']) ++ ending

/-- A script that logs the line as a verbatim block behind a margin. -/
def logBlock (margin code ending : List Char) : List Char :=
  "Log:".toList ++ ('\n' :: (margin ++ code) ++ ending)

def logTree (value : Node) : Node := branch .log [(some .value, value)]

theorem reads_logString (h : Cut literal values code) (he : ending = [] ∨ ending = ['\n']) :
    ReadsAs (logString code ending)
      (branch .sourceFile [(none, logTree (Basic.string literal (piecesOf values)).tree)]) := by
  have hh : Heads ("Log ".toList ++ '"' :: (code ++ ['"'])) := .of_part rfl
  have ho : OneLine ("Log ".toList ++ '"' :: (code ++ ['"'])) :=
    .append (by decide) h.written.oneLine
  exact reads_head hh ho he fun header _ _ hbody _ => log_takes h.written _ true hbody

/-- A statement with the line as its verbatim block is read as the pieces of the line. -/
theorem reads_lineBlock {head : List Char} {wrap : Node → Node} (hh : Heads head)
    (hhead : OneLine head)
    (ht : ∀ (header : Line) fuel lines after tree, header.body = head →
      Takes (Verbatim.block header) lines after tree →
        Takes (Statement.statement (blockItems fuel none) header true) lines after (wrap tree))
    (h : Cut literal values code) (ho : OneLine code)
    (hm : ∀ c ∈ margin, Text.isIndent c = true) (hn : margin ≠ [])
    (hc : ∃ c cs, code = c :: cs ∧ Text.isIndent c = false)
    (he : ending = [] ∨ ending = ['\n']) :
    ReadsAs (head ++ ('\n' :: (margin ++ code) ++ ending))
      (branch .sourceFile [(none, wrap (branch .raw (lineTrees ending literal values)))]) := by
  have hlines : ∀ content ∈ [head, margin ++ code], OneLine content ∧ content ≠ [] := by
    refine List.forall_mem_cons.2 ⟨⟨hhead, hh.nonempty⟩, List.forall_mem_singleton.2 ⟨?_, ?_⟩⟩
    · exact (margin_oneLine hm).append ho
    · simp [hn]
  have hs := splitFrom_borne hlines he 0
  rw [List.flatMap_singleton] at hs
  change Borne ending _ (Line.split (head ++ ('\n' :: (margin ++ code) ++ ending))) at hs
  generalize hsplit : Line.split (head ++ ('\n' :: (margin ++ code) ++ ending)) = lines at hs
  obtain ⟨c, cs, rfl, hv⟩ := hc
  cases hs with
  | @cons _ _ header below hheader hbelow =>
    cases hbelow with
    | @last _ line hline =>
      have hg : header.margin = [] := by rw [hheader.margin, Scan.takeWhile_eq_nil hh.indent]
      have hb : header.body = head := by rw [hheader.body, Scan.dropWhile_eq_self hh.indent]
      have hd : header.indent < margin.length := by
        rw [Line.indent, hg]
        exact List.length_pos_iff.2 hn
      have hi : header.isIdle = false := by
        simp [Line.isIdle, Line.isEmpty, Line.isComment, hb, hh.nonempty, hh.comment]
      have hblock := (h.covers hm hline ⟨c, List.mem_cons_self, hv⟩).block hm hline hv hd
      refine reads_single ?_ (List.forall_mem_nil _) fun fuel _ => ht _ fuel _ _ _ hb hblock
      rw [hsplit]
      exact List.dropWhile_cons_of_neg (by simp [hi])
    | cons _ hs => cases hs

theorem reads_logBlock (h : Cut literal values code) (ho : OneLine code)
    (hm : ∀ c ∈ margin, Text.isIndent c = true) (hn : margin ≠ [])
    (hc : ∃ c cs, code = c :: cs ∧ Text.isIndent c = false)
    (he : ending = [] ∨ ending = ['\n']) :
    ReadsAs (logBlock margin code ending)
      (branch .sourceFile [(none, logTree (branch .raw (lineTrees ending literal values)))]) :=
  reads_lineBlock (.of_part rfl) (by decide) (fun _ _ _ _ _ => logRaw_takes _ true) h ho hm hn hc he

end ArchiveScript.Printing
