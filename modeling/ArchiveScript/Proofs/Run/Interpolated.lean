import ArchiveScript.Proofs.Run.BlockTexts
import ArchiveScript.Proofs.Run.LostTexts
import ArchiveScript.Proofs.Run.Margin
import ArchiveScript.Proofs.Run.SafeValues
import ArchiveScript.Proofs.Run.StringTexts

/-! # Interpolated lines as strings and as blocks

A string puts the texts of its pieces together, and a verbatim block fills in a template. For the
same line they evaluate the same expressions in the same order and come to the same text, or they
fail for the same cause.
-/

namespace ArchiveScript

open Printing

instance : Likeness.anywhere.Unifies where
  fits := trivial
  feeds text text' h := by
    obtain rfl : text' = text := h
    rfl

namespace Node

mutual

theorem alike_of_bare : ∀ {node node' : Node}, node.bare = node'.bare →
    node.Alike (.anywhere) node'
  | .mk .., .mk .., h => by
    rw [bare, bare] at h
    injection h with hk _ ht hc
    subst hk ht
    exact .mk ⟨trivial, trivial⟩ (fun _ => .refl _ _) (allAlike_of_bares hc)

theorem allAlike_of_bares : ∀ {children children' : List Child}, bares children = bares children' →
    AllAlike (.anywhere) children children'
  | [], [], _ => .nil
  | (_, _) :: _, (_, _) :: _, h => by
    rw [bares, bares] at h
    injection h with hc hr
    injection hc with hp hn
    subst hp
    have ht : _ = _ := congrArg Node.text hn
    rw [text_bare, text_bare] at ht
    exact .cons (.inr fun _ => ht.symm) (alike_of_bare hn) (allAlike_of_bares hr)

end

end Node

namespace Mark

variable {text chars feeds : List Char}

/-- A literal of one line, and the line feeds after it. -/
theorem ofLiteral_line (hr : '\r' ∉ chars) (hn : '\n' ∉ chars) (hf : ∀ c ∈ feeds, c = '\n') :
    ofLiteral (chars ++ feeds) = ofText chars ++ feeds.map fun c => (c, true) := by
  have hreturn : '\r' ∉ chars ++ feeds := by
    intro hm
    rcases List.mem_append.1 hm with hm | hm
    · exact hr hm
    · exact absurd (hf _ hm) (by decide)
  rw [ofLiteral_of_no_return hreturn, List.map_append, ofText]
  refine congrArg₂ _ (List.map_congr_left fun c hc => ?_) (List.map_congr_left fun c hc => ?_)
  · have hne : c ≠ '\n' := fun he => hn (he ▸ hc)
    rw [beq_false_of_ne hne]
  · rw [hf c hc, beq_self_eq_true]

theorem ofText_append (first second : List Char) :
    ofText (first ++ second) = ofText first ++ ofText second := List.map_append

theorem shown_ofText (text : List Char) : shown (ofText text) = text := by
  rcases List.eq_nil_or_concat text with rfl | ⟨init, c, rfl⟩
  · rfl
  · have hc : ofText (init.concat c) = ofText init ++ [(c, false)] := by simp [ofText]
    rw [hc, shown_append_singleton]
    simp [ofText, Function.comp_def]

end Mark

namespace Run

open Eval Node

variable {η κ : Type} [Cursor κ] {scope : Scope} {world : World η κ} {node node' : Node}
  {code text chars ending : List Char} {literal : Literal} {values : List (Basic × Literal)}
  {children children' : List Child} {template : Template}

theorem fillPieces_append (template : Template) (first second : List Child) :
    (fillPieces scope template (first ++ second) : Eval η κ Template) =
      fillPieces scope template first >>= fun filled => fillPieces scope filled second := by
  induction first generalizing template with
  | nil => rfl
  | cons piece rest ih => simp only [List.cons_append, fillPieces_cons, ih, bind_assoc]

/-- A value is written into a string as into a block, and refused by both for the same cause. -/
theorem piece_concur (hk : node.kind = .interpolation) (hb : node.bare = node'.bare)
    {marks : List Mark} (hs : template.Shows marks) :
    Concur (.anywhere) (fun told filled => filled.Shows (marks ++ Mark.ofText told.toList))
      (stringPiece (basic scope) node : Eval η κ String) (fillPiece scope template node') := by
  have ha := alike_of_bare hb
  have hk' : node'.kind = .interpolation := ha.kind.trans hk
  rw [stringPiece, fillPiece, hk, hk']
  refine (Concur.interpolated (fun _ _ => Concur.basic) ha).seq fun value => ?_
  cases hv : value.isScalar with
  | true =>
    rw [Template.pushValue_plain hv]
    cases value
    case rows | connection => cases hv
    all_goals exact fun _ => .ok (hs.emit_text _)
  | false =>
    rw [Template.pushValue_plain_refused hv]
    cases value
    case text | integer | parameter => cases hv
    all_goals exact fun _ => .error ⟨rfl, .some ha.span⟩

theorem rawContent_run (scope : Scope) (world : World η κ) (hb : bares children = rawContent chars)
    {marks : List Mark} (hs : template.Shows marks) :
    ∃ filled, fillPieces scope template children world = (.ok filled, world) ∧
      filled.Shows (marks ++ Mark.ofLiteral chars) := by
  cases chars with
  | nil =>
    obtain rfl : children = [] := List.map_eq_nil_iff.1 ((bares_eq_map _).symm.trans hb)
    exact ⟨template, rfl, by simpa [Mark.ofLiteral, Template.unifyFeeds] using hs⟩
  | cons c cs =>
    obtain ⟨filled, hf, hm⟩ :=
      @fillPieces_literals η κ _ scope world children [c :: cs] template marks hb hs
    rw [List.flatMap_singleton] at hm
    exact ⟨filled, hf, hm⟩

theorem exists_of_bares_append {first second : List Child} (h : bares children = first ++ second) :
    ∃ start rest, children = start ++ rest ∧ bares start = first ∧ bares rest = second := by
  rw [bares_eq_map] at h
  obtain ⟨start, rest, rfl, rfl, rfl⟩ := List.map_eq_append_iff.1 h
  exact ⟨start, rest, rfl, bares_eq_map _, bares_eq_map _⟩

/-- What the pieces of the line come to as a string is what they write as a block. -/
theorem cut_concur (scope : Scope) (h : Cut literal values code) (hf : ∀ c ∈ ending, c = '\n')
    (hs : bares children = literal.trees ++ (piecesOf values).trees)
    (hl : bares children' = lineTrees ending literal values)
    (ht : template.Shows (Mark.ofText text)) :
    Concur (.anywhere) (fun told filled => filled.out = String.ofList text ++ told)
      (stringPieces (basic scope) children : Eval η κ String)
      (fillPieces scope template children') := by
  induction h generalizing text template children children' with
  | last literal hr =>
    have htells : Tells (bares children) (literal.chars ++ []) := hs ▸ .literal literal .nil
    intro world
    obtain ⟨filled, hfilled, hshows⟩ := rawContent_run scope world hl ht
    rw [List.append_nil] at htells
    rw [htells.of_bares.stringPieces_run, hfilled]
    refine .ok (hshows.out.trans ?_)
    rw [Mark.ofLiteral_line hr literal.feed_notMem hf, ← List.append_assoc,
      Mark.shown_append_feeds, ← Mark.ofText_append, Mark.shown_ofText, String.ofList_append]
  | @value literal hr _ value next more _ _ _ _ _ _ _ _ ih =>
    obtain ⟨start, others, rfl, hstart, hothers⟩ := exists_of_bares_append hs
    obtain ⟨piece, rest, rfl, hpiece, hrest⟩ := exists_of_bares_cons hothers
    obtain ⟨start', others', rfl, hstart', hothers'⟩ := exists_of_bares_append hl
    obtain ⟨piece', rest', rfl, hpiece', hrest'⟩ := exists_of_bares_cons hothers'
    have htells : Tells (bares start) (literal.chars ++ []) := by
      rw [hstart, ← List.append_nil literal.trees]
      exact .literal literal .nil
    have hk : piece.kind = .interpolation := by
      rw [← kind_bare, hpiece]
      rfl
    intro world
    obtain ⟨filled, hfilled, hshows⟩ := rawContent_run scope world hstart' ht
    have hline := Mark.ofLiteral_line hr literal.feed_notMem (List.forall_mem_nil _)
    rw [List.append_nil] at htells hline
    rw [hline, List.map_nil, List.append_nil, ← Mark.ofText_append] at hshows
    have hothers : Concur (.anywhere)
        (fun told filled => filled.out = String.ofList (text ++ literal.chars) ++ told)
        (stringPieces (basic scope) ((none, piece) :: rest) : Eval η κ String)
        (fillPieces scope filled ((none, piece') :: rest')) := by
      rw [stringPieces, fillPieces_cons]
      refine (piece_concur hk (hpiece.trans hpiece'.symm) hshows).bind fun told more hmore => ?_
      rw [← Mark.ofText_append] at hmore
      refine (ih hrest hrest' hmore).map_left fun others last hlast => ?_
      rw [hlast, String.ofList_append, String.ofList_toList, String.append_assoc]
    rw [htells.of_bares.stringPieces_append, fillPieces_append, run_bind (fillPieces _ _ _),
      hfilled]
    refine hothers.map_left (fun told last hlast => ?_) world
    rw [hlast, String.ofList_append, String.append_assoc]

/-- Both runs log the same line, or they fail for the same cause. Apart from that they change
nothing but rows, and these alike. -/
def LogAlike (world : World η κ) (ended ended' : Except Failure Unit × World η κ) : Prop :=
  ∃ rows,
    (∃ line, ended = (.ok (), { world with rows, trace := world.trace.push (.log line) }) ∧
      ended' = (.ok (), { world with rows, trace := world.trace.push (.log line) })) ∨
    ∃ failure failure', ended = (.error failure, { world with rows }) ∧
      ended' = (.error failure', { world with rows }) ∧ failure'.cause = failure.cause

section Logging

variable {tree child : Node} {x x' : Eval η κ Unit}

omit [Cursor κ] in
theorem orPlaced_cause (failure : Failure) (span : Span) :
    (failure.orPlaced span).cause = failure.cause := by
  rw [Failure.orPlaced]
  split <;> rfl

omit [Cursor κ] in
theorem LogAlike.orAt (h : LogAlike world (x world) (x' world)) (span span' : Span) :
    LogAlike world (orAt span x world) (orAt span' x' world) := by
  obtain ⟨rows, ⟨line, hx, hx'⟩ | ⟨failure, failure', hx, hx', hc⟩⟩ := h
  · refine ⟨rows, .inl ⟨line, ?_, ?_⟩⟩
    · rw [Eval.orAt, hx]
    · rw [Eval.orAt, hx']
  · refine ⟨rows, .inr ⟨failure.orPlaced span, failure'.orPlaced span', ?_, ?_, ?_⟩⟩
    · rw [Eval.orAt, hx]
    · rw [Eval.orAt, hx']
    · rw [orPlaced_cause, orPlaced_cause, hc]

theorem log_raw_run (hv : node.field? .value = some child) (hk : child.kind = .raw)
    (world : World η κ) :
    log node world =
      match fillPieces world.scope { mode := .text } child.children world with
      | (.ok filled, after) => (.ok (), { after with trace := after.trace.push (.log filled.out) })
      | (.error failure, after) => (.error failure, after) := by
  rw [log, run_get, run_need hv, if_pos hk, run_bind, raw, if_pos hk, run_bind]
  rcases fillPieces world.scope { mode := .text } child.children world with
    ⟨failure | filled, after⟩ <;> rfl

theorem log_alike (h : Cut literal values code) (hf : ∀ c ∈ ending, c = '\n')
    (hs : node.bare = logTree (Basic.string literal (piecesOf values)).tree)
    (hl : node'.bare = logTree (Node.branch .raw (lineTrees ending literal values)))
    (world : World η κ) : LogAlike world (log node world) (log node' world) := by
  obtain ⟨child, hv, hchild⟩ := field?_of_bare .value hs rfl
  obtain ⟨child', hv', hchild'⟩ := field?_of_bare .value hl rfl
  have hk : child.kind = .string := string_kind hchild
  have hk' : child'.kind = .raw := by
    rw [← kind_bare, hchild']
    rfl
  have hpieces : bares child.children = literal.trees ++ (piecesOf values).trees := by
    rw [← children_bare, hchild]
    rfl
  have hline : bares child'.children = lineTrees ending literal values := by
    rw [← children_bare, hchild']
    rfl
  have hkeeps : Keeps (fun now => ∃ rows, now = { world with rows })
      (stringPieces (basic world.scope) child.children : Eval η κ String) :=
    .of_moves (Counts.stringPieces (fun _ => (Countable.rows world).counts.basic _ _)
      (Inherits.composes _) _)
  obtain ⟨⟨rows, hrows⟩, -⟩ := hkeeps world ⟨_, rfl⟩
  have hshows : Template.Shows { mode := .text } (Mark.ofText []) := Template.shows_nil .text
  have hends := cut_concur world.scope h hf hpieces hline hshows world
  rw [log_string_run hv hk, log_raw_run hv' hk']
  generalize stringPieces (basic world.scope) child.children world = told at hends hrows
  generalize fillPieces world.scope { mode := .text } child'.children world = filled at hends
  refine ⟨rows, ?_⟩
  cases hends with
  | @ok told filled after hout =>
    obtain rfl : after = { world with rows } := hrows
    refine .inl ⟨told, rfl, ?_⟩
    dsimp only
    rw [hout, String.ofList_nil, String.empty_append]
  | @error failure failure' after halike =>
    obtain rfl : after = { world with rows } := hrows
    refine .inr ⟨failure.orPlaced child.span, failure', rfl, rfl, ?_⟩
    rw [orPlaced_cause, halike.cause]

variable [Host η κ]

theorem script_logAlike {source source' : List Char} (hk : node.kind = .log)
    (hk' : node'.kind = .log) (hs : (parse source).tree.children = [(none, node)])
    (hs' : (parse source').tree.children = [(none, node')]) (settings : Settings)
    (h : LogAlike world (log node world) (log node' world)) :
    LogAlike world (script settings (parse source).tree world)
      (script settings (parse source').tree world) := by
  rw [script_eq _ (kind_parse _), script_eq _ (kind_parse _), hs, hs', statements_log hk,
    statements_log hk']
  exact h.orAt _ _

/-- A line with interpolations can be logged as a string and as a verbatim block. Both scripts have
no mistakes, and they run alike: they log the same line or fail for the same cause. -/
theorem interpolated_line_logs_alike {margin ending' : List Char} (h : Interpolated code)
    (hn : code ≠ []) (hi : code.head?.any Text.isIndent = false)
    (hm : ∀ c ∈ margin, Text.isIndent c = true) (hmargin : margin ≠ [])
    (he : ending = [] ∨ ending = ['\n']) (he' : ending' = [] ∨ ending' = ['\n'])
    (hsize : Text.bytes (logString code ending) < 2 ^ 32)
    (hsize' : Text.bytes (logBlock margin code ending') < 2 ^ 32) :
    (parse (logString code ending)).mistakes = [] ∧
      (parse (logBlock margin code ending')).mistakes = [] ∧
      ∀ (settings : Settings) (world : World η κ),
        LogAlike world (script settings (parse (logString code ending)).tree world)
          (script settings (parse (logBlock margin code ending')).tree world) := by
  obtain ⟨literal, values, hcut⟩ := h.exists_cut
  obtain ⟨c, cs, rfl⟩ := List.exists_cons_of_ne_nil hn
  obtain ⟨hclean, hroot⟩ := (reads_logString hcut he).in_reach (Nat.le_of_lt_succ hsize)
  obtain ⟨hclean', hroot'⟩ :=
    (reads_logBlock hcut h.oneLine hm hmargin ⟨c, cs, rfl, hi⟩ he').in_reach
      (Nat.le_of_lt_succ hsize')
  obtain ⟨node, hc, hb⟩ := exists_sole_of_bare hroot
  obtain ⟨node', hc', hb'⟩ := exists_sole_of_bare hroot'
  have hfeeds : ∀ c ∈ ending', c = '\n' := by
    rcases he' with rfl | rfl
    · exact List.forall_mem_nil _
    · exact List.forall_mem_singleton.2 rfl
  have hk {node : Node} {value : Node} (hb : node.bare = logTree value) : node.kind = .log := by
    rw [← kind_bare, hb]
    rfl
  refine ⟨hclean, hclean', fun settings world => ?_⟩
  exact script_logAlike (hk hb) (hk hb') hc hc' settings (log_alike hcut hfeeds hb hb' world)

/-- A line with blanks around its expression, and a dollar sign that opens nothing. -/
def dollarLine : List Char := ['$', 'a', '$', '{', ' ', 'x', '\t', '}', '{']

theorem interpolated_dollarLine : Interpolated dollarLine := by
  have hvalue : Interpolated ('$' :: '{' :: ([' '] ++ (['x'] ++ (['\t'] ++ '}' :: ['{'])))) :=
    .value (List.forall_mem_singleton.2 rfl) (.name ⟨'x', [], rfl, List.forall_mem_nil _⟩)
      (List.forall_mem_singleton.2 rfl)
      (.char (by decide) (by decide) (by decide) .nil)
  exact .char (by decide) (by decide) (by decide)
    (.char (by decide) (by decide) (by decide) hvalue)

def feedStage : World Rehearsal (FaultyCursor TableCursor) :=
  { host := {}, scope := ⟨.bindings (Dict.empty.insert "x" (.text "\n")), []⟩ }

/-- The line feed of the value is logged in both cases. -/
theorem interpolated_line_logs_alike_feed :
    let asString := script ⟨.empty, "/work"⟩ (parse (logString dollarLine [])).tree feedStage
    let asBlock := script ⟨.empty, "/work"⟩ (parse (logBlock ['\t'] dollarLine ['\n'])).tree
      feedStage
    (parse (logString dollarLine [])).mistakes = [] ∧
      (parse (logBlock ['\t'] dollarLine ['\n'])).mistakes = [] ∧
      LogAlike feedStage asString asBlock ∧ asBlock.2.trace = #[.log "$a\n\x7b"] := by
  obtain ⟨hclean, hclean', halike⟩ :=
    @interpolated_line_logs_alike Rehearsal (FaultyCursor TableCursor) _ dollarLine [] _ ['\t']
      ['\n'] interpolated_dollarLine (by decide) rfl (List.forall_mem_singleton.2 rfl)
      (List.cons_ne_nil _ _) (.inl rfl) (.inr rfl) (by decide) (by decide)
  exact ⟨hclean, hclean', halike ⟨.empty, "/work"⟩ feedStage, by cbv⟩

/-- A block of one piece without a text is logged as the empty line. -/
theorem script_log_empty_block (settings : Settings) (world : World η κ)
    (root line block piece : Span) :
    script settings (.mk .sourceFile root "" [(none, .mk .log line "" [(some .value,
      .mk .raw block "" [(none, .mk .rawContent piece "" [])])])]) world =
        (.ok (), { world with trace := world.trace.push (.log "") }) := by
  rw [script_eq settings rfl]
  dsimp only [Node.children]
  rw [statements_log rfl, Eval.orAt, log_raw_run rfl rfl]
  rfl

omit [Cursor κ] [Host η κ] in
theorem LogAlike.trace_eq {ended ended' : Except Failure Unit × World η κ}
    (h : LogAlike world ended ended') : ended.2.trace = ended'.2.trace := by
  obtain ⟨_, ⟨_, rfl, rfl⟩ | ⟨_, _, rfl, rfl, -⟩⟩ := h
  · rfl
  · rfl

theorem interpolated_letters (count : Nat) : Interpolated (Text.lettersTo count) := by
  have hletter {c : Char} {rest : List Char} (hc : c = 'a' ∨ c = 'z') (h : Interpolated rest) :
      Interpolated (c :: rest) := by
    rcases hc with rfl | rfl
    · exact .char (by decide) (by simp) (by simp) h
    · exact .char (by decide) (by simp) (by simp) h
  rw [Text.lettersTo]
  induction count with
  | zero => exact hletter (.inr rfl) .nil
  | succ count ih => exact hletter (.inl rfl) ih

theorem interpolated_letters_lost {count : Nat} (h : count + 7 = Span.maxOffset)
    (settings : Settings) (world : World η κ) :
    let code := Text.lettersTo count
    (parse (logString code [])).mistakes = [] ∧
      (parse (logBlock [' ', ' '] code [])).mistakes = [] ∧
      ¬LogAlike world (script settings (parse (logString code [])).tree world)
        (script settings (parse (logBlock [' ', ' '] code [])).tree world) := by
  intro code
  have hcut := cut_letters count
  have hstring : ReadsAs (logString code []) (lettersTree count) := reads_logString hcut (.inl rfl)
  have hblock : ReadsAs (logBlock [' ', ' '] code []) (Node.branch .sourceFile
      [(none, logTree (Node.branch .raw [(none, Node.terminal .rawContent code)]))]) :=
    reads_lettersBlock (.of_part rfl) (by decide) (fun _ _ _ _ _ => logRaw_takes _ true)
      (isIndent_of_mem_spaces 2) (List.cons_ne_nil ' ' [' ']) count
  have hsize : Text.bytes (logString code []) ≤ Span.maxOffset := by
    have hs : logString code [] = logLetters count := List.append_nil _
    rw [hs, bytes_logLetters, h]
  have hreach : Text.OutOfReach (logBlock [' ', ' '] code []) code := by
    have hlead : Text.bytes "Log:\n  ".toList = 7 := by decide
    exact Text.outOfReach_lettersTo "Log:\n  ".toList [] rfl (by decide) (by omega)
  refine ⟨hstring.fades.1, hblock.fades.1, fun halike => ?_⟩
  obtain ⟨root, line, block, piece, htree, hpiece⟩ := exists_of_fades_piece hblock.fades.2
  obtain ⟨span, rfl⟩ := hpiece.lost hreach
  have htrace := halike.trace_eq
  rw [htree, script_log_empty_block, logs_letters hstring hsize] at htrace
  exact lost_ne_logged world count htrace.symm

/-- If the text of a line ends out of reach of spans in the block only, the empty line is logged
there. -/
theorem interpolated_block_loses_text :
    let code := Text.lettersTo (Span.maxOffset - 7)
    Interpolated code ∧ (parse (logString code [])).mistakes = [] ∧
      (parse (logBlock [' ', ' '] code [])).mistakes = [] ∧
      ¬LogAlike feedStage (script ⟨.empty, "/work"⟩ (parse (logString code [])).tree feedStage)
        (script ⟨.empty, "/work"⟩ (parse (logBlock [' ', ' '] code [])).tree feedStage) := by
  have h : Span.maxOffset - 7 + 7 = Span.maxOffset := Nat.sub_add_cancel (by decide)
  exact ⟨interpolated_letters _, interpolated_letters_lost h ⟨.empty, "/work"⟩ feedStage⟩

end Logging

end Run

end ArchiveScript
