import ArchiveScript.Proofs.Printing.Interpolated
import ArchiveScript.Proofs.Run.Ensures
import ArchiveScript.Proofs.Run.Recursion
import ArchiveScript.Run.Rehearsal

/-! # Lines that are logged out of reach

A script can be so long that the text of its string ends out of reach of spans. The string is still
read as one, but what is logged is the empty line.
-/

namespace ArchiveScript

namespace Text

/-- Letters with a mark at their end. There may be too many of them to be written out. -/
@[irreducible]
def lettersTo (count : Nat) : List Char := List.replicate count 'a' ++ ['z']

theorem bytes_replicate (count : Nat) (c : Char) :
    bytes (List.replicate count c) = count * c.utf8Size := by
  induction count with
  | zero => rw [List.replicate_zero, bytes_nil, Nat.zero_mul]
  | succ count ih => rw [List.replicate_succ, bytes_cons, ih, Nat.succ_mul, Nat.add_comm]

theorem bytes_lettersTo (count : Nat) : bytes (lettersTo count) = count + 1 := by
  rw [lettersTo, bytes_append, bytes_replicate]
  exact congrArg (· + 1) (Nat.mul_one count)

theorem lettersTo_ne_nil (count : Nat) : lettersTo count ≠ [] := by
  rw [lettersTo]
  exact List.append_ne_nil_of_right_ne_nil _ (List.cons_ne_nil _ _)

theorem letter_of_mem {count : Nat} {c : Char} (h : c ∈ lettersTo count) : c = 'a' ∨ c = 'z' := by
  rw [lettersTo] at h
  exact (List.mem_append.1 h).imp List.eq_of_mem_replicate List.mem_singleton.1

theorem not_mem_lettersTo {c : Char} (ha : c ≠ 'a') (hz : c ≠ 'z') (count : Nat) :
    c ∉ lettersTo count :=
  fun hm => (letter_of_mem hm).elim ha hz

/-- The last letter tells how far the letters reach. -/
theorem outOfReach_lettersTo {source : List Char} {count : Nat} (lead rest : List Char)
    (hs : source = lead ++ (lettersTo count ++ rest)) (hlead : 'z' ∉ lead)
    (hreach : Span.maxOffset ≤ bytes lead + count) : OutOfReach source (lettersTo count) := by
  have hfirst : source = (lead ++ List.replicate count 'a') ++ 'z' :: rest := by
    rw [hs, lettersTo]
    simp
  refine .of_mark hfirst ?_ (by simp [lettersTo]) ?_
  · rw [List.mem_append, not_or]
    exact ⟨hlead, fun hm => absurd (List.eq_of_mem_replicate hm) (by decide)⟩
  · have ha : 'a'.utf8Size = 1 := by decide
    rw [bytes_append, bytes_replicate, ha]
    omega

end Text

namespace Run

open Printing Text

def lettersLiteral (count : Nat) : Literal where
  chars := lettersTo count
  plain c hc := by
    rcases letter_of_mem hc with rfl | rfl
    · decide
    · decide
  closed h := not_mem_lettersTo (by decide) (by decide) count (h.subset List.mem_cons_self)

theorem lettersLiteral_trees (count : Nat) :
    (lettersLiteral count).trees = [(none, .terminal .stringContent (lettersTo count))] :=
  Literal.trees_eq_singleton (lettersTo_ne_nil count)

def logLetters (count : Nat) : List Char := "Log ".toList ++ '"' :: (lettersTo count ++ ['"'])

theorem bytes_logLetters (count : Nat) : bytes (logLetters count) = count + 7 := by
  rw [logLetters, bytes_append, bytes_cons, bytes_append, bytes_lettersTo]
  have hhead : bytes "Log ".toList = 4 := by decide
  have hquote : bytes ['"'] = 1 := by decide
  have hsize : '"'.utf8Size = 1 := by decide
  omega

theorem cut_letters (count : Nat) : Cut (lettersLiteral count) [] (lettersTo count) :=
  .last (lettersLiteral count) (not_mem_lettersTo (by decide) (by decide) count)

theorem oneLine_logLetters (count : Nat) : OneLine (logLetters count) :=
  .append (by decide) (cut_letters count).written.oneLine

def lettersTree (count : Nat) : Node :=
  .branch .sourceFile [(none, logTree (Basic.string (lettersLiteral count) .done).tree)]

theorem isIdle_logLetters (start count : Nat) (margin : List Char) :
    (⟨start, margin, logLetters count, []⟩ : Line).isIdle = false := by
  have hh : Heads (logLetters count) := .of_part rfl
  simp [Line.isIdle, Line.isEmpty, Line.isComment, hh.nonempty, hh.comment]

theorem splitFrom_logLetters {margin : List Char} (hm : ∀ c ∈ margin, isIndent c = true)
    (start count : Nat) :
    Line.splitFrom start [] (margin ++ logLetters count) =
      [⟨start, margin, logLetters count, []⟩] := by
  have hh : Heads (logLetters count) := .of_part rfl
  have ho := (margin_oneLine hm).append (oneLine_logLetters count)
  have hend := Line.splitFrom_end ho.feed (List.append_ne_nil_of_right_ne_nil _ hh.nonempty)
    (.inl rfl) start
  rwa [List.append_nil, Line.ofContent_eq ho.last, List.takeWhile_append_of_pos hm,
    List.dropWhile_append_of_pos hm, Scan.takeWhile_eq_nil hh.indent,
    Scan.dropWhile_eq_self hh.indent, List.append_nil] at hend

theorem lettersString_tree (count : Nat) : (Basic.string (lettersLiteral count) .done).tree =
    .branch .string [(none, .terminal .stringContent (lettersTo count))] := by
  have htrees : (lettersLiteral count).trees ++ Pieces.done.trees = _ :=
    (List.append_nil _).trans (lettersLiteral_trees count)
  rw [Basic.tree, htrees]

theorem lettersTree_eq (count : Nat) :
    lettersTree count = .branch .sourceFile
      [(none, logTree (.branch .string [(none, .terminal .stringContent (lettersTo count))]))] := by
  rw [lettersTree, lettersString_tree]

theorem reads_logLetters {source lead margin : List Char} {idle : List Line} {start count : Nat}
    (hlead : ∀ rest, Line.split (lead ++ rest) = idle ++ Line.splitFrom start [] rest)
    (hidle : ∀ line ∈ idle, line.isIdle = true) (hm : ∀ c ∈ margin, isIndent c = true)
    (hs : source = lead ++ (margin ++ logLetters count)) :
    ReadsAs source (lettersTree count) := by
  have hsplit : Line.split source = idle ++ [⟨start, margin, logLetters count, []⟩] := by
    rw [hs, hlead, splitFrom_logLetters hm]
  have hdrop : (Line.split source).dropWhile Line.isIdle =
      [⟨start, margin, logLetters count, []⟩] := by
    rw [hsplit, List.dropWhile_append_of_pos hidle]
    exact List.dropWhile_cons_of_neg (by simp [isIdle_logLetters])
  exact reads_single hdrop (List.forall_mem_nil _)
    fun _ _ => log_takes (cut_letters count).written _ true rfl

theorem oneLine_letters (count : Nat) : OneLine (lettersTo count) where
  feed := not_mem_lettersTo (by decide) (by decide) count
  last h := not_mem_lettersTo (by decide) (by decide) count (List.mem_of_getLast? h)

theorem reads_lettersBlock {head margin : List Char} {wrap : Node → Node} (hh : Heads head)
    (hhead : OneLine head)
    (ht : ∀ (header : Line) fuel lines after tree, header.body = head →
      Takes (Verbatim.block header) lines after tree →
        Takes (Statement.statement (blockItems fuel none) header true) lines after (wrap tree))
    (hm : ∀ c ∈ margin, isIndent c = true) (hn : margin ≠ []) (count : Nat) :
    ReadsAs (head ++ ('\n' :: (margin ++ lettersTo count) ++ [])) (.branch .sourceFile
      [(none, wrap (.branch .raw [(none, .terminal .rawContent (lettersTo count))]))]) := by
  obtain ⟨c, cs, hc⟩ := List.exists_cons_of_ne_nil (lettersTo_ne_nil count)
  have hindent : isIndent c = false := by
    rcases letter_of_mem (hc ▸ List.mem_cons_self) with rfl | rfl
    · decide
    · decide
  have htrees : lineTrees [] (lettersLiteral count) [] =
      [(none, .terminal .rawContent (lettersTo count))] := by
    rw [lineTrees, List.append_nil]
    exact if_neg (mt List.isEmpty_iff.1 (lettersTo_ne_nil count))
  rw [← htrees]
  exact reads_lineBlock hh hhead ht (cut_letters count) (oneLine_letters count) hm hn
    ⟨c, cs, hc, hindent⟩ (.inl rfl)

theorem lettersText_ne_empty (count : Nat) : String.ofList (lettersTo count) ≠ "" := by
  intro h
  have hl : lettersTo count = [] := String.toList_ofList.symm.trans (congrArg String.toList h)
  exact lettersTo_ne_nil count hl

theorem lost_ne_logged {η κ : Type} (world : World η κ) (count : Nat) :
    world.trace.push (.log "") ≠ world.trace.push (.log (String.ofList (lettersTo count))) := by
  intro h
  injection Array.push_inj_right.1 h with ht
  exact lettersText_ne_empty count ht.symm

open Eval

variable {η κ : Type} [Cursor κ] {node child : Node}

theorem log_string_run (hv : node.field? .value = some child) (hk : child.kind = .string)
    (world : World η κ) :
    log node world =
      match stringPieces (basic world.scope) child.children world with
      | (.ok told, after) => (.ok (), { after with trace := after.trace.push (.log told) })
      | (.error failure, after) => (.error (failure.orPlaced child.span), after) := by
  have hraw : child.kind ≠ .raw := by
    rw [hk]
    decide
  rw [log, run_get, run_need hv, if_neg hraw, run_bind, basic_eq, basicWith, hk]
  dsimp only
  rw [Eval.orAt, run_bind]
  rcases stringPieces (basic world.scope) child.children world with ⟨failure | told, after⟩ <;> rfl

variable [Host η κ]

theorem statements_log {settings : Settings} (hk : node.kind = .log) :
    (statements settings (block settings) [(none, node)] : Eval η κ Unit) =
      orAt node.span (log node) := by
  rw [statements_singleton, statementWith, hk]

theorem script_log_piece (settings : Settings) (world : World η κ) (root line quoted piece : Span)
    (text : String) :
    script settings (.mk .sourceFile root "" [(none, .mk .log line "" [(some .value,
      .mk .string quoted "" [(none, .mk .stringContent piece text [])])])]) world =
        (.ok (), { world with trace := world.trace.push (.log text) }) := by
  have hp : stringPieces (basic world.scope) [(none, .mk .stringContent piece text [])] world =
      (.ok text, world) := by
    rw [stringPieces, stringPieces]
    change (Except.ok (text ++ ""), world) = _
    rw [String.append_empty]
  rw [script_eq settings rfl]
  dsimp only [Node.children]
  rw [statements_log rfl, orAt, log_string_run rfl rfl]
  dsimp only [Node.children]
  rw [hp]

section Letters

variable {source : List Char} {count : Nat}

theorem exists_of_fades_piece {node : Node} {kind pieceKind : Kind} {text : List Char}
    (h : node.Fades source (.branch .sourceFile
      [(none, logTree (.branch kind [(none, .terminal pieceKind text)]))])) :
    ∃ root line whole piece, node = .mk .sourceFile root "" [(none, .mk .log line ""
      [(some .value, .mk kind whole "" [(none, piece)])])] ∧
      piece.Fades source (.terminal pieceKind text) := by
  obtain ⟨root, items, rfl, hitems⟩ := h.exists_branch
  obtain ⟨item, _, rfl, hitem, hnone⟩ := hitems.exists_cons
  cases hnone
  obtain ⟨line, values, rfl, hvalues⟩ := hitem.exists_branch
  obtain ⟨value, _, rfl, hvalue, hnone⟩ := hvalues.exists_cons
  cases hnone
  obtain ⟨whole, pieces, rfl, hpieces⟩ := hvalue.exists_branch
  obtain ⟨piece, _, rfl, hpiece, hnone⟩ := hpieces.exists_cons
  cases hnone
  exact ⟨root, line, whole, piece, rfl, hpiece⟩

/-- In reach of spans, the letters are logged. -/
theorem logs_letters (h : ReadsAs source (lettersTree count))
    (hsize : bytes source ≤ Span.maxOffset) (settings : Settings) (world : World η κ) :
    script settings (parse source).tree world =
      (.ok (), { world with
        trace := world.trace.push (.log (String.ofList (lettersTo count))) }) := by
  obtain ⟨root, line, quoted, piece, hs, hpiece⟩ :=
    exists_of_fades_piece (lettersTree_eq count ▸ h.fades.2)
  obtain ⟨span, rfl⟩ := hpiece.kept hsize
  rw [hs]
  exact script_log_piece settings world root line quoted span _

/-- Out of reach of spans, the empty line is logged. -/
theorem logs_nothing (h : ReadsAs source (lettersTree count))
    (ho : OutOfReach source (lettersTo count)) (settings : Settings) (world : World η κ) :
    script settings (parse source).tree world =
      (.ok (), { world with trace := world.trace.push (.log "") }) := by
  obtain ⟨root, line, quoted, piece, hs, hpiece⟩ :=
    exists_of_fades_piece (lettersTree_eq count ▸ h.fades.2)
  obtain ⟨span, rfl⟩ := hpiece.lost ho
  rw [hs]
  exact script_log_piece settings world root line quoted span _

theorem outOfReach_logLetters {lead : List Char} (hs : source = lead ++ logLetters count)
    (hlead : 'z' ∉ lead) (hreach : Span.maxOffset ≤ bytes lead + count + 5) :
    OutOfReach source (lettersTo count) := by
  have hhead : bytes "Log \"".toList = 5 := by decide
  have hbytes := bytes_append lead "Log \"".toList
  refine outOfReach_lettersTo (lead ++ "Log \"".toList) ['"'] ?_ ?_ (by omega)
  · rw [hs, logLetters]
    simp
  · simp [hlead]

end Letters

end Run

end ArchiveScript
