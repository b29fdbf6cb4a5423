import Mathlib
import ArchiveScript.Proofs.Run.Assignment
import ArchiveScript.Proofs.Run.Composition
import ArchiveScript.Proofs.Run.Rendering
import ArchiveScript.Proofs.Source.NumberedLines

/-! # Texts as verbatim blocks

A text can be written as a verbatim block: its lines are indented and put below a header. The
margin is taken off again, the lines come together as they were, and what the last one ends with
does not count.
-/

namespace ArchiveScript

/-- A text that a verbatim block carries. It has no carriage returns and opens no interpolation, its
first line is not indented, its blank lines are empty, and it does not end with a line feed. -/
structure BlockText (text : List Char) : Prop where
  noReturn : '\r' ∉ text
  noOpening : ¬['$', '{'] <:+: text
  begins : ∀ c ∈ text.head?, c ≠ ' ' ∧ c ≠ '\t' ∧ c ≠ '\n'
  blanks : ∀ line ∈ text.splitOn '\n', (∀ c ∈ line, c = ' ' ∨ c = '\t') → line = []
  ends : text.getLast? ≠ some '\n'

/-- The lines of a text; an empty text has an empty line or none. -/
def HasLines (text : List Char) (lines : List (List Char)) : Prop :=
  lines = text.splitOn '\n' ∨ text = [] ∧ lines = []

section Lines

variable {text first line : List Char} {rest : List (List Char)}

theorem infix_of_line (ht : text = first ++ rest.flatMap ('\n' :: ·)) (hl : line ∈ first :: rest) :
    line <:+: text := by
  subst ht
  rcases List.mem_cons.1 hl with rfl | hl
  · exact (List.prefix_append _ _).isInfix
  · obtain ⟨before, after, rfl⟩ := List.append_of_mem hl
    refine ⟨first ++ before.flatMap ('\n' :: ·) ++ ['\n'], after.flatMap ('\n' :: ·), ?_⟩
    simp

theorem last_line_ne_nil (ht : text = first ++ rest.flatMap ('\n' :: ·)) (hn : text ≠ [])
    (hl : text.getLast? ≠ some '\n') : (first :: rest).getLast? ≠ some [] := by
  intro he
  rcases List.eq_nil_or_concat rest with rfl | ⟨init, last, rfl⟩
  · simp_all
  · rw [List.concat_eq_append, ← List.cons_append, List.getLast?_concat, Option.some.injEq] at he
    simp [ht, he] at hl

end Lines

namespace BlockText

variable {text first : List Char} {rest : List (List Char)} (h : BlockText text)

include h

theorem plainLine (hs : text.splitOn '\n' = first :: rest)
    (ht : text = first ++ rest.flatMap ('\n' :: ·)) :
    ∀ line ∈ first :: rest, Printing.PlainLine line := by
  intro line hl
  constructor
  · intro hi
    exact h.noOpening (hi.trans (infix_of_line ht hl))
  · intro hb
    refine h.blanks line (hs ▸ hl) fun c hc => ?_
    simpa [Text.isIndent] using hb c hc

theorem first_visible (ht : text = first ++ rest.flatMap ('\n' :: ·)) (hn : text ≠ []) :
    ∃ c cs, first = c :: cs ∧ Text.isIndent c = false := by
  cases first with
  | nil =>
    cases rest with
    | nil => exact absurd ht hn
    | cons next rest =>
      have hb := h.begins '\n' (by rw [ht]; rfl)
      exact absurd rfl hb.2.2
  | cons c cs =>
    have hb := h.begins c (by rw [ht]; rfl)
    exact ⟨c, cs, rfl, by simp [Text.isIndent, hb.1, hb.2.1]⟩

theorem oneLine {margin line : List Char} (hm : ∀ c ∈ margin, Text.isIndent c = true)
    (hi : line <:+: text) (hf : '\n' ∉ line) : Printing.OneLine (margin ++ line) := by
  refine (Printing.margin_oneLine hm).append (.of_forall fun c hc => ⟨?_, ?_⟩)
  · rintro rfl
    exact hf hc
  · rintro rfl
    exact h.noReturn (hi.subset hc)

end BlockText

namespace Mark

theorem ofLiteral_of_no_return {text : List Char} (h : '\r' ∉ text) :
    ofLiteral text = text.map fun c => (c, c == '\n') := by
  rw [ofLiteral, Template.unifyFeeds_of_no_return h]

/-- The line feeds after a text do not count. -/
theorem shown_text {text feeds : List Char} (h : text.getLast? ≠ some '\n')
    (hf : ∀ c ∈ feeds, c = '\n') : shown ((text ++ feeds).map fun c => (c, c == '\n')) = text := by
  have hm : feeds.map (fun c => (c, c == '\n')) = feeds.map fun c => (c, true) := by
    refine List.map_congr_left fun c hc => ?_
    rw [hf c hc]
    rfl
  rw [List.map_append, hm, shown_append_feeds]
  rcases List.eq_nil_or_concat text with rfl | ⟨init, c, rfl⟩
  · rfl
  · have hc : (c == '\n') = false := by simpa using h
    simp [hc, shown_append_singleton, Function.comp_def]

end Mark

namespace Printing

open Node

variable {text margin ending : List Char} {lines : List (List Char)} {header : Line}
  {below : List Line}

theorem below_isEmpty (hl : HasLines [] lines) (hm : ∀ c ∈ margin, Text.isIndent c = true)
    (hb : lines = [] ∧ below = [] ∨ Borne ending (lines.map (margin ++ ·)) below) :
    ∀ line ∈ below, line.isEmpty = true := by
  rcases hb with ⟨-, rfl⟩ | hb
  · exact nofun
  · rcases hl with rfl | ⟨-, rfl⟩
    · rw [List.splitOn_nil, List.map_singleton] at hb
      cases hb with
      | last hline =>
        refine List.forall_mem_singleton.2 ?_
        rw [Line.isEmpty, (indented hm hline.margin hline.body).2.2]
        rfl
      | cons _ hs => cases hs
    · cases hb

/-- The lines of a text below a header are read as the text. -/
theorem block_text (h : BlockText text) (hl : HasLines text lines)
    (hm : ∀ c ∈ margin, Text.isIndent c = true) (hd : header.indent < margin.length)
    (he : ∀ c ∈ ending, c = '\n')
    (hb : lines = [] ∧ below = [] ∨ Borne ending (lines.map (margin ++ ·)) below) :
    ∃ texts after feeds,
      Takes (Verbatim.block header) below after (Node.branch .raw (literals texts)) ∧
      (∀ line ∈ after, line.isIdle = true) ∧ texts.flatten = text ++ feeds ∧
      ∀ c ∈ feeds, c = '\n' := by
  obtain ⟨first, rest, hs, ht, hf⟩ := splitOn_feed text
  by_cases hn : text = []
  · subst hn
    have hblank := below_isEmpty hl hm hb
    refine ⟨[], below, [], block_blank hblank, ?_, rfl, List.forall_mem_nil _⟩
    intro line hline
    rw [Line.isIdle, hblank line hline, Bool.true_or]
  · obtain rfl : lines = first :: rest := by
      rcases hl with hl | hl
      · rw [hl, hs]
      · exact absurd hl.1 hn
    rcases hb with hb | hb
    · cases hb.1
    · obtain ⟨texts, htakes, htexts⟩ := block_plain hm hb (h.plainLine hs ht)
        (h.first_visible ht hn) (last_line_ne_nil ht hn h.ends) hd
      refine ⟨texts, [], ending, htakes, List.forall_mem_nil _, ?_, he⟩
      rw [htexts, ← List.append_assoc, ← ht]

theorem isIndent_of_mem_spaces (count : Nat) :
    ∀ c ∈ List.replicate count ' ', Text.isIndent c = true := by
  intro c hc
  rw [List.eq_of_mem_replicate hc]
  rfl

/-- A script that sets a variable to a verbatim block of lines that are indented by spaces. -/
def blockScript (name : Name) (count : Nat) (lines : List (List Char)) (tail : List Char) :
    List Char :=
  "Set ".toList ++ (name.print ++ [':']) ++
    (lines.flatMap (fun line => '\n' :: (List.replicate count ' ' ++ line)) ++ tail)

theorem split_blockScript (name : Name) {count : Nat} (h : BlockText text)
    (hl : HasLines text lines) (hk : 0 < count) (he : ending = [] ∨ ending = ['\n']) :
    ∃ header below, Line.split (blockScript name count lines ending) = header :: below ∧
      header.margin = [] ∧ header.body = "Set ".toList ++ (name.print ++ [':']) ∧
      (lines = [] ∧ below = [] ∨
        Borne ending (lines.map (List.replicate count ' ' ++ ·)) below) := by
  obtain ⟨first, rest, hs, ht, hf⟩ := splitOn_feed text
  have hm := isIndent_of_mem_spaces count
  have hhead : OneLine ("Set ".toList ++ (name.print ++ [':'])) :=
    .append (by decide) ((Name.oneLine name).append (by decide))
  have hlines : ∀ line ∈ lines, OneLine (List.replicate count ' ' ++ line) := by
    intro line hline
    rcases hl with rfl | ⟨-, rfl⟩
    · rw [hs] at hline
      exact h.oneLine hm (infix_of_line ht hline) (hf line hline)
    · cases hline
  have hall : ∀ content ∈ ("Set ".toList ++ (name.print ++ [':'])) ::
      lines.map (List.replicate count ' ' ++ ·), OneLine content ∧ content ≠ [] := by
    refine List.forall_mem_cons.2 ⟨⟨hhead, List.cons_ne_nil _ _⟩, ?_⟩
    refine List.forall_mem_map.2 fun line hline => ⟨hlines line hline, ?_⟩
    simp [Nat.ne_of_gt hk]
  have hborne := splitFrom_borne hall he 0
  rw [List.flatMap_map] at hborne
  obtain ⟨header, below, found, hsplit, hbears, hbelow⟩ := hborne.uncons
  refine ⟨header, below, hsplit, ?_, ?_, ?_⟩
  · rw [hbears.margin]
    rfl
  · rw [hbears.body]
    rfl
  · simpa using hbelow

theorem isIdle_of_body {name : Name} {header : Line}
    (h : header.body = "Set ".toList ++ (name.print ++ [':'])) : header.isIdle = false := by
  rw [Line.isIdle, Line.isEmpty, Line.isComment, h]
  rfl

theorem reads_blockScript (name : Name) {count : Nat} (h : BlockText text)
    (hl : HasLines text lines) (hk : 0 < count) (he : ending = [] ∨ ending = ['\n']) :
    ∃ texts feeds, ReadsAs (blockScript name count lines ending)
        (Node.branch .sourceFile
          [(none, Run.assignment name (Node.branch .raw (literals texts)))]) ∧
      texts.flatten = text ++ feeds ∧ ∀ c ∈ feeds, c = '\n' := by
  obtain ⟨header, below, hs, hg, hh, hb⟩ := split_blockScript name h hl hk he
  have hm := isIndent_of_mem_spaces count
  have hd : header.indent < (List.replicate count ' ').length := by
    rw [Line.indent, hg, List.length_replicate]
    exact hk
  have hfeed : ∀ c ∈ ending, c = '\n' := by
    rcases he with rfl | rfl
    · exact List.forall_mem_nil _
    · simp
  obtain ⟨texts, after, feeds, ht, ha, hf, hn⟩ := block_text h hl hm hd hfeed hb
  have hi := isIdle_of_body hh
  refine ⟨texts, feeds, reads_single ?_ ha fun _ _ => setRaw_takes name _ true hh ht, hf, hn⟩
  rw [hs]
  exact List.dropWhile_cons_of_neg (by simp [hi])

/-- The script is read as one statement, which sets the variable to a block with the text. -/
theorem parse_blockScript (name : Name) {count : Nat} (h : BlockText text)
    (hl : HasLines text lines) (hk : 0 < count) (he : ending = [] ∨ ending = ['\n'])
    (hsize : Text.bytes (blockScript name count lines ending) ≤ Span.maxOffset) :
    ∃ node texts feeds, (parse (blockScript name count lines ending)).mistakes = [] ∧
      (parse (blockScript name count lines ending)).tree.children = [(none, node)] ∧
      node.bare = Run.assignment name (Node.branch .raw (literals texts)) ∧
      texts.flatten = text ++ feeds ∧ ∀ c ∈ feeds, c = '\n' := by
  obtain ⟨texts, feeds, hreads, hf, hn⟩ := reads_blockScript name h hl hk he
  obtain ⟨hmistakes, hroot⟩ := hreads.in_reach hsize
  obtain ⟨node, hc, hbare⟩ := exists_sole_of_bare hroot
  exact ⟨node, texts, feeds, hmistakes, hc, hbare, hf, hn⟩

end Printing

namespace Run

open Eval Node Printing

variable {η κ : Type} [Cursor κ] {scope : Scope} {world : World η κ} {node : Node}
  {children : List Child} {texts : List (List Char)}

theorem fillPieces_literals {template : Template} {marks : List Mark}
    (hb : bares children = literals texts) (hs : template.Shows marks) :
    ∃ filled, fillPieces scope template children world = (.ok filled, world) ∧
      filled.Shows (marks ++ texts.flatMap Mark.ofLiteral) := by
  induction children generalizing texts template marks with
  | nil =>
    obtain rfl := List.map_eq_nil_iff.1 hb.symm
    exact ⟨template, rfl, by simpa using hs⟩
  | cons child rest ih =>
    cases texts with
    | nil => cases hb
    | cons text texts =>
      obtain ⟨hc, hr⟩ := List.cons.inj hb
      have hp : child.2.bare = terminal .rawContent text := congrArg Prod.snd hc
      have hk : child.2.kind = .rawContent := by rw [← kind_bare, hp]; rfl
      have ht : child.2.text.toList = text := by
        rw [← text_bare, hp]
        exact String.toList_ofList
      have hf : fillPiece scope template child.2 world =
          (.ok (template.pushLiteral text), world) := by
        rw [fillPiece, hk, ht]
        rfl
      rw [fillPieces_cons, run_bind, hf, List.flatMap_cons, ← List.append_assoc]
      exact ih hr (hs.pushLiteral text)

theorem raw_run {mode : TemplateMode} (hb : node.bare = Node.branch .raw (literals texts)) :
    ∃ filled, raw scope mode node world = (.ok filled, world) ∧
      filled.text = String.ofList (Mark.shown (texts.flatMap Mark.ofLiteral)) := by
  have hk : node.kind = .raw := by rw [← kind_bare, hb]; rfl
  have hc : bares node.children = literals texts := by rw [← children_bare, hb]; rfl
  obtain ⟨filled, hf, hs⟩ : ∃ filled, fillPieces scope { mode } node.children world =
      (.ok filled, world) ∧ filled.Shows ([] ++ texts.flatMap Mark.ofLiteral) :=
    fillPieces_literals hc (Template.shows_nil mode)
  refine ⟨filled.finish, ?_, hs.out⟩
  rw [raw, if_pos hk, run_bind, hf]
  rfl

theorem flatMap_ofLiteral {text : List Char} (h : texts.flatten = text) (hr : '\r' ∉ text) :
    texts.flatMap Mark.ofLiteral = text.map fun c => (c, c == '\n') := by
  subst h
  rw [List.map_flatten, List.flatMap_def]
  refine congrArg List.flatten (List.map_congr_left fun piece hp => ?_)
  exact Mark.ofLiteral_of_no_return fun hm => hr (List.mem_flatten.2 ⟨piece, hp, hm⟩)

/-- What can stand after the last line of a block: nothing, its line feed, or other statements that
have no mistakes and begin at the margin. -/
inductive BlockTail : List Char → Prop
  | nothing : BlockTail []
  | feed : BlockTail ['\n']
  | statements {more : List Char} (hm : (parse more).mistakes = [])
      (hh : ∃ line rest, Line.split more = line :: rest ∧ line.isIdle = false ∧ line.indent = 0) :
      BlockTail ('\n' :: more)

theorem blockScript_append (name : Name) (count : Nat) (lines : List (List Char))
    (more : List Char) :
    blockScript name count lines ('\n' :: more) = blockScript name count lines ['\n'] ++ more := by
  have happend (before after : List Char) :
      before ++ (after ++ '\n' :: more) = before ++ (after ++ ['\n']) ++ more := by simp
  exact happend _ _

theorem getLast?_blockScript (name : Name) (count : Nat) (lines : List (List Char)) :
    (blockScript name count lines ['\n']).getLast? = some '\n' := by
  have hlast (before after : List Char) :
      (before ++ (after ++ ['\n'])).getLast? = some '\n' := by simp
  exact hlast _ _

theorem blockScript_margin (name : Name) {text : List Char} {lines : List (List Char)}
    {count : Nat} (h : BlockText text) (hl : HasLines text lines) (hk : 0 < count) :
    ∀ line ∈ ((Line.split (blockScript name count lines ['\n'])).dropWhile Line.isIdle).head?,
      line.indent = 0 := by
  intro line hline
  obtain ⟨header, below, hs, hg, hh, -⟩ := split_blockScript name h hl hk (.inr rfl)
  have hi := isIdle_of_body hh
  rw [hs, List.dropWhile_cons_of_neg (by simp [hi])] at hline
  obtain rfl := Option.some.inj hline
  rw [Line.indent, hg]
  rfl

theorem parse_blockScript_tail (name : Name) {text tail : List Char} {lines : List (List Char)}
    {count : Nat} (h : BlockText text) (hl : HasLines text lines) (hk : 0 < count)
    (ht : BlockTail tail)
    (hsize : Text.bytes (blockScript name count lines tail) ≤ Span.maxOffset) :
    ∃ node rest texts feeds, (parse (blockScript name count lines tail)).mistakes = [] ∧
      (parse (blockScript name count lines tail)).tree.children = (none, node) :: rest ∧
      (tail = [] ∨ tail = ['\n'] → rest = []) ∧
      node.bare = assignment name (Node.branch .raw (literals texts)) ∧
      texts.flatten = text ++ feeds ∧ ∀ c ∈ feeds, c = '\n' := by
  cases ht with
  | nothing =>
    obtain ⟨node, texts, feeds, hm, hc, hp⟩ := parse_blockScript name h hl hk (.inl rfl) hsize
    exact ⟨node, [], texts, feeds, hm, hc, fun _ => rfl, hp⟩
  | feed =>
    obtain ⟨node, texts, feeds, hm, hc, hp⟩ := parse_blockScript name h hl hk (.inr rfl) hsize
    exact ⟨node, [], texts, feeds, hm, hc, fun _ => rfl, hp⟩
  | @statements more hmore hhead =>
    rw [blockScript_append] at hsize
    have hfirst : Text.bytes (blockScript name count lines ['\n']) ≤ Span.maxOffset := by
      rw [Text.bytes_append] at hsize
      exact Nat.le_trans (Nat.le_add_right _ _) hsize
    obtain ⟨node, texts, feeds, hm, hc, hp⟩ := parse_blockScript name h hl hk (.inr rfl) hfirst
    obtain ⟨hchildren, hmistakes⟩ :=
      parse_clean_append (Nat.lt_succ_of_le hsize) hm hmore
        (.inr (getLast?_blockScript name count lines)) (blockScript_margin name h hl hk) hhead
    rw [← blockScript_append] at hchildren hmistakes
    rw [hc, List.singleton_append] at hchildren
    refine ⟨node, _, texts, feeds, hmistakes, hchildren, ?_, hp⟩
    · rintro (hn | hn)
      · cases hn
      · obtain ⟨line, rest, hsplit, -⟩ := hhead
        obtain rfl := (List.cons.inj hn).2
        cases hsplit

variable [Host η κ]

/-- A text stands as a verbatim block below a header, its lines indented by a number of spaces. The
script has no mistakes, whatever statements follow, and its first statement binds the variable to
the text. -/
theorem block_carries_text (name : Name) (text : String) {lines : List (List Char)} {count : Nat}
    {tail : List Char} (h : BlockText text.toList) (hl : HasLines text.toList lines)
    (hk : 0 < count) (ht : BlockTail tail)
    (hsize : Text.bytes (blockScript name count lines tail) < 2 ^ 32) :
    (parse (blockScript name count lines tail)).mistakes = [] ∧
      ∃ node rest, (parse (blockScript name count lines tail)).tree.children =
          (none, node) :: rest ∧
        (tail = [] ∨ tail = ['\n'] → rest = []) ∧ node.kind = .set ∧
        ∀ (settings : Settings) (world : World η κ) (entries : Dict Value) (outer : List Frame),
          world.scope = ⟨.bindings entries, outer⟩ →
          statementWith settings (block settings) node world =
            (.ok (), { world with
              scope := ⟨.bindings (entries.insert (String.ofList name.print) (.text text)),
                outer⟩ }) := by
  obtain ⟨node, rest, texts, feeds, hm, hc, hr, hb, hf, hn⟩ :=
    parse_blockScript_tail name h hl hk ht (Nat.le_of_lt_succ hsize)
  refine ⟨hm, node, rest, hc, hr, assignment_kind hb, ?_⟩
  intro settings world entries outer hw
  have hreturn : '\r' ∉ text.toList ++ feeds := by
    intro hmem
    rcases List.mem_append.1 hmem with hmem | hmem
    · exact h.noReturn hmem
    · exact absurd (hn _ hmem) (by decide)
  have hv (child : Node) (hcb : child.bare = Node.branch .raw (literals texts)) :
      expression settings child world = (.ok (.text text), world) := by
    have hk : child.kind = .raw := by rw [← kind_bare, hcb]; rfl
    obtain ⟨filled, hraw, htext⟩ := @raw_run η κ _ world.scope world child texts .text hcb
    rw [flatMap_ofLiteral hf hreturn, Mark.shown_text h.ends hn, String.ofList_toList] at htext
    rw [expression, hk]
    dsimp only
    rw [run_get, run_bind, hraw, ← htext]
    rfl
  exact assignment_run hb hv hw

/-- The text has a line that looks like a comment, one that is indented and an empty one. -/
theorem block_carries_text_comment :
    let text := "#a\n  $b\n\nc"
    let source := blockScript ⟨'x', [], rfl, nofun⟩ 2 (text.toList.splitOn '\n')
      "\nLog x\n".toList
    BlockText text.toList ∧ (parse source).mistakes = [] ∧
      ∃ node rest, (parse source).tree.children = (none, node) :: rest ∧
        (statementWith ⟨.empty, "/work"⟩ (block ⟨.empty, "/work"⟩) node
          ({ host := {} } : World Rehearsal (FaultyCursor TableCursor))).2.scope.resolve "x" =
            some (.text text) := by
  intro text source
  have hlines : text.toList.splitOn '\n' = ["#a".toList, "  $b".toList, [], ['c']] := by decide
  have h : BlockText text.toList := by
    refine ⟨by decide, by decide, ?_, ?_, by decide⟩
    · intro c hc
      have hfirst : text.toList.head? = some '#' := by decide
      rw [hfirst] at hc
      obtain rfl := Option.some.inj hc
      decide
    · rw [hlines]
      simp
  have ht : BlockTail "\nLog x\n".toList :=
    .statements (by cbv) ⟨_, _, rfl, by decide, by decide⟩
  obtain ⟨hm, node, rest, hc, -, -, hr⟩ :=
    @block_carries_text Rehearsal (FaultyCursor TableCursor) _ _ ⟨'x', [], rfl, nofun⟩ text _ 2 _
      h (.inl rfl) (by decide) ht (by decide)
  refine ⟨h, hm, node, rest, hc, ?_⟩
  rw [hr ⟨.empty, "/work"⟩ { host := {} } .empty [] rfl]
  rfl

theorem splitOn_letters (count : Nat) :
    (Text.lettersTo count).splitOn '\n' = [Text.lettersTo count] :=
  List.splitOnP_eq_singleton fun c hc => by
    rcases Text.letter_of_mem hc with rfl | rfl
    · decide
    · decide

theorem blockText_letters (count : Nat) : BlockText (Text.lettersTo count) where
  noReturn := Text.not_mem_lettersTo (by decide) (by decide) count
  noOpening h :=
    Text.not_mem_lettersTo (by decide) (by decide) count (h.subset List.mem_cons_self)
  begins c hc := by
    rcases Text.letter_of_mem (List.mem_of_mem_head? hc) with rfl | rfl
    · decide
    · decide
  blanks line hl hblank := by
    rw [splitOn_letters, List.mem_singleton] at hl
    subst hl
    exact absurd (hblank 'z' (by simp [Text.lettersTo])) (by decide)
  ends h := by
    rw [Text.lettersTo, List.getLast?_concat] at h
    exact absurd h (by decide)

theorem block_letters_lost (name : Name) {count : Nat} (h : Span.maxOffset ≤ count)
    (settings : Settings) (world : World η κ) (hs : world.scope = .root) (other : String) :
    let source := blockScript name 1 [Text.lettersTo count] []
    (parse source).mistakes = [] ∧
      (script settings (parse source).tree world).2.scope.resolve other ≠
        some (.text (String.ofList (Text.lettersTo count))) := by
  intro source
  have hreads : ReadsAs source (Node.branch .sourceFile [(none, assignment name
      (Node.branch .raw [(none, Node.terminal .rawContent (Text.lettersTo count))]))]) := by
    have hhead : OneLine ("Set ".toList ++ (name.print ++ [':'])) :=
      .append (by decide) ((Name.oneLine name).append (by decide))
    have hs : source = "Set ".toList ++ (name.print ++ [':']) ++
        ('\n' :: ([' '] ++ Text.lettersTo count) ++ []) := by
      simp [source, blockScript]
    rw [hs]
    exact reads_lettersBlock (.of_part rfl) hhead (fun _ _ _ _ _ => setRaw_takes name _ true)
      (isIndent_of_mem_spaces 1) (List.cons_ne_nil ' ' []) count
  obtain ⟨root, line, place, shown, child, hp, hchild⟩ := exists_of_fades_assignment hreads.fades.2
  obtain ⟨block, _, rfl, hpieces⟩ := hchild.exists_branch
  obtain ⟨piece, _, rfl, hpiece, hnone⟩ := hpieces.exists_cons
  cases hnone
  have hsize : Span.maxOffset < Text.bytes (Text.lettersTo count) := by
    rw [Text.bytes_lettersTo]
    exact Nat.lt_succ_of_le h
  obtain ⟨span, rfl⟩ := hpiece.lost (.of_bytes hsize)
  refine ⟨hreads.fades.1, ?_⟩
  rw [hp]
  exact resolve_of_empty_text rfl hs other (lettersText_ne_empty count)

/-- A text that is too long for a span is lost. -/
theorem block_loses_text :
    let text := Text.lettersTo Span.maxOffset
    let source := blockScript ⟨'x', [], rfl, nofun⟩ 1 [text] []
    let world : World Rehearsal (FaultyCursor TableCursor) := { host := {} }
    BlockText text ∧ HasLines text [text] ∧ (parse source).mistakes = [] ∧
      (script ⟨.empty, "/work"⟩ (parse source).tree world).2.scope.resolve "x" ≠
        some (.text (String.ofList text)) :=
  ⟨blockText_letters _, .inl (splitOn_letters _).symm,
    block_letters_lost _ (Nat.le_refl _) _ _ rfl "x"⟩

end Run

end ArchiveScript
