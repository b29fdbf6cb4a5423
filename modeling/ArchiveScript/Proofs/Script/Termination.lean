import Mathlib
import ArchiveScript.Proofs.Script.Drafts
import ArchiveScript.Proofs.Script.Rounds

/-! # Parsing ends

The items of a block are read one after the other, each at a later line, and so are the blocks
inside them. The readers look ahead and come back, but no line is tried as an item twice, and at the
end all lines of a script have been passed.
-/

namespace ArchiveScript

open Reader BlockState Expression Scan Statement

/-- The loops on a line end, because each of their rounds goes on at a later place of it. -/
structure LineLoopsEnd : Prop where
  /-- Blanks, names and digits. -/
  classes : ∀ p, Loops Passes (fun s after => s.Advances after) (skipRound p) (skipWhile p)
  escapes : ∀ s, s.rest ≠ [] → Finds (fun found => s.Passes found.2) (escape s)
  /-- Expressions inside of others. -/
  expressions : Settles Passes LeadsOn basicWith basicWithin fun s => s.rest.length
  strings : ∀ depth opened, Settles Passes (fun _ _ => True)
    (stringRound (basicWithin depth) opened) (stringPieces (basicWithin depth) opened)
    fun s => s.rest.length
  operations : ∀ start, Settles (fun state next : Node × Scan => state.2.Passes next.2)
    (fun _ _ => True) (operationsRound start)
    (fun n state => Expression.operations start n state.1 state.2) fun state => state.2.rest.length
  verbatim : ∀ ending, Settles Passes (fun _ _ => True) (Verbatim.lineRound ending)
    (Verbatim.linePieces ending) fun s => s.rest.length
  names : Settles Passes (fun _ _ => True) variablesRound moreVariables fun s => s.rest.length

theorem line_loops_end : LineLoopsEnd where
  classes := skipWhile_loops
  escapes _ h := escape_passes h
  expressions := basicWithin_settles
  strings depth opened := stringPieces_settles (basicWithin_leadsOn depth) opened
  operations := operations_settles
  verbatim := Verbatim.linePieces_settles
  names := moreVariables_settles

def openings (s : Scan) : List (Option Scan) :=
  [eatWords? "connection" "to" s, eatQuery? s, eatWords? "execute" "using" s]

/-- Where the readers go on after they have looked ahead. -/
structure ComesBack : Prop where
  /-- At most one form of an expression opens it. -/
  forms : ∀ s, (openings s).countP Option.isSome ≤ 1
  /-- If none does, the expression is read from its beginning. -/
  expression : ∀ block line s, (∀ opening ∈ openings s.skipBlanks, opening = none) →
    (Statement.expression block line s : Reader Node) = LineReader.onLine do
      let (value, rest) ← basic s.skipBlanks
      rest.finish
      return value
  /-- An item of a metadata block that is none of those that it may be takes no line. -/
  metadata : ∀ block line lines, line.scan.eatWord? "Schema".toList = none →
    line.scan.eatWord? "Command".toList = none → Declaration.archiveField? line.scan = none →
    (Declaration.metadataItem block line : Reader Child) lines =
      ⟨.error ⟨.unknownMetadata, line.scan.restSpan⟩, [], lines⟩
  /-- A conditional without another branch leaves the next item. Another branch is read from the
  lines below its own. -/
  otherwise : ∀ line lines,
    Statement.otherwise blocks line lines = ⟨.ok [], [], lines.dropWhile Line.isIdle⟩ ∨
      ∃ next after, lines.dropWhile Line.isIdle = next :: after ∧ next.indent = line.indent ∧
        next.scan.atWord "Else".toList = true ∧
        Finds (fun _ => (Statement.otherwise blocks line lines).left <:+ after)
          (Statement.otherwise blocks line lines).outcome
  /-- A verbatim block is followed by the lines after its extent. -/
  verbatim : ∀ (header : Line) lines, (Verbatim.extent header.indent lines).2 <:+ lines ∧
    Finds (fun _ => ((Verbatim.block header : Reader Node) lines).left =
        (Verbatim.extent header.indent lines).2)
      ((Verbatim.block header : Reader Node) lines).outcome

theorem head_of_eatWord? {s after : Scan} {c : Char} {word : List Char}
    (h : s.eatWord? (c :: word) = some after) : s.rest.head? = some c := by
  obtain ⟨rest, hr⟩ := prefix_of_atWord (atWord_of_eatWord? h)
  rw [← hr]
  rfl

theorem head_of_eatWords? {s after : Scan} {first second : String} {c : Char} {word : List Char}
    (h : eatWords? first second s = some after) (hw : first.toList = c :: word) :
    s.rest.head? = some c := by
  unfold eatWords? at h
  simp only [Option.bind_eq_bind, Option.bind_eq_some_iff] at h
  obtain ⟨rest, hr, -⟩ := h
  rw [hw] at hr
  exact head_of_eatWord? hr

/-- The words that open an expression begin with different letters. -/
theorem openings_exclude (s : Scan) : (openings s).countP Option.isSome ≤ 1 := by
  have hc : (eatWords? "connection" "to" s).isSome = true → s.rest.head? = some 'c' := by
    rw [Option.isSome_iff_exists]
    exact fun ⟨_, h⟩ => head_of_eatWords? h rfl
  have hq : (eatQuery? s).isSome = true → s.rest.head? = some 'q' := by
    unfold eatQuery?
    rw [Option.isSome_iff_exists]
    simp only [Option.bind_eq_bind, Option.bind_eq_some_iff]
    exact fun ⟨_, _, h, _⟩ => head_of_eatWord? h
  have he : (eatWords? "execute" "using" s).isSome = true → s.rest.head? = some 'e' := by
    rw [Option.isSome_iff_exists]
    exact fun ⟨_, h⟩ => head_of_eatWords? h rfl
  simp only [openings, List.countP_cons, List.countP_nil]
  split <;> split <;> split <;> simp_all

theorem otherwise_comes_back (line : Line) (lines : List Line) :
    Statement.otherwise blocks line lines = ⟨.ok [], [], lines.dropWhile Line.isIdle⟩ ∨
      ∃ next after, lines.dropWhile Line.isIdle = next :: after ∧ next.indent = line.indent ∧
        next.scan.atWord "Else".toList = true ∧
        Finds (fun _ => (Statement.otherwise blocks line lines).left <:+ after)
          (Statement.otherwise blocks line lines).outcome := by
  have hrun (reader : List Line → Reader (List Child)) :
      (do skipIdle; reader (← LineReader.peek)) lines =
        reader (lines.dropWhile Line.isIdle) (lines.dropWhile Line.isIdle) := rfl
  unfold Statement.otherwise
  rw [hrun]
  cases lines.dropWhile Line.isIdle with
  | nil => exact .inl rfl
  | cons next after =>
    by_cases hi : next.indent = line.indent
    · cases hw : next.scan.eatWord? "Else".toList with
      | none =>
        left
        simp only [hi, hw]
        rfl
      | some rest =>
        right
        refine ⟨next, after, rfl, hi, atWord_of_eatWord? hw, ?_⟩
        have hbranch : Reader.Traces everything after (fun _ => True) (fun _ => True) (do
            LineReader.onLine rest.blockColon
            return [(some Field.alternative, ← statements blocks next)]) (do
            LineReader.onLine rest.blockColon
            return [(some Field.alternative, ← statements blocks next)]) := by
          refine .onLine_seq fun _ => Traces.map ?_
          exact (statements_trace (blocks_trace after) next (List.suffix_refl _)).mono
            (fun _ => id) fun _ _ => trivial
        simp only [hi, hw]
        intro children hc
        obtain ⟨taken, ht, -⟩ := hbranch.read children hc
        exact ⟨taken, ht.symm⟩
    · left
      simp only [hi]
      rfl

theorem extent_after_nil {indent : Nat} {lines : List Line}
    (h : (Verbatim.extent indent lines).1 = []) : (Verbatim.extent indent lines).2 = lines := by
  unfold Verbatim.extent at h ⊢
  have hhead := head_dropWhile Line.isEmpty (lines.takeWhile (Verbatim.belongs indent)).reverse
  dsimp only at h ⊢
  generalize (lines.takeWhile (Verbatim.belongs indent)).reverse.dropWhile Line.isEmpty = taken
    at h hhead ⊢
  cases taken with
  | nil => rfl
  | cons last taken =>
    have hempty := List.dropWhile_eq_nil_iff.1 h last (by simp)
    rw [hhead last rfl] at hempty
    cases hempty

theorem verbatim_comes_back (header : Line) (lines : List Line) :
    (Verbatim.extent header.indent lines).2 <:+ lines ∧
      Finds (fun _ => ((Verbatim.block header : Reader Node) lines).left =
          (Verbatim.extent header.indent lines).2)
        ((Verbatim.block header : Reader Node) lines).outcome := by
  refine ⟨(List.suffix_append _ _).trans (Verbatim.extent_suffix header.indent lines), ?_⟩
  have hrun (reader : List Line → Reader Node) :
      (do reader (← LineReader.peek)) lines = reader lines lines := rfl
  have hnone := @extent_after_nil header.indent lines
  unfold Verbatim.block
  rw [hrun]
  generalize Verbatim.extent header.indent lines = found at hnone ⊢
  obtain ⟨_ | ⟨first, rest⟩, after⟩ := found
  · exact .ok (hnone rfl).symm
  · dsimp only
    cases Verbatim.blockPieces (m := Except Mistake) first.indent (first :: rest) with
    | error mistake => exact .error mistake
    | ok pieces => exact .ok rfl

theorem comes_back : ComesBack where
  forms := openings_exclude
  expression block line s h := by
    unfold Statement.expression
    dsimp only
    simp only [openings, List.forall_mem_cons] at h
    rw [h.1, h.2.1, h.2.2.1]
  metadata block line lines hs hc hf := by
    unfold Declaration.metadataItem
    simp only [hs, hc, hf]
    rfl
  otherwise := otherwise_comes_back
  verbatim := verbatim_comes_back

/-- Reading a script ends. -/
structure ParsingEnds (source : List Char) : Prop where
  /-- Blocks are read in rounds. What is read in a round depends only on what is read at later
  lines, both of the other items and inside of the item. -/
  blocks : Settles Later Leads round bounded fun state => state.lines.length
  /-- Nothing else is read in such rounds. -/
  only : ∀ other, (∀ state, other state = round other state) → other = read
  /-- Each item is followed by later lines, whether it was read or passed over. -/
  items : ∀ (state : BlockState) line below, state.lines.dropWhile Line.isIdle = line :: below →
    state.Later (state.after line below (state.item read line below))
  lines : LineLoopsEnd
  returns : ComesBack
  /-- A reading of the script that notes the lines that it tries as items comes to the same. -/
  traced : (triedScript source).outcome = (topItems (Line.split source)).outcome ∧
    (triedScript source).left = (topItems (Line.split source)).left
  /-- No line is tried again. -/
  trials : (trialOffsets source).Pairwise (· < ·)
  /-- At the end, all lines have been passed. -/
  passed : ∃ items,
    read ⟨none, none, .topLevel, Line.split source⟩ = ⟨.ok items, (parse source).mistakes, []⟩ ∧
      (parse source).tree = .spanning .sourceFile 0 (Text.bytes source) items

/-- Every text is read as a script, whatever it is. -/
theorem parsing_ends (source : List Char) : ParsingEnds source where
  blocks := bounded_settles
  only _ h := bounded_settles.unique h
  items state _ _ h := after_later state h
  lines := line_loops_end
  returns := comes_back
  traced := by
    obtain ⟨⟨items, hplain, htraced⟩, hleft, -⟩ := triedScript_tries source
    exact ⟨htraced.trans hplain.symm, hleft⟩
  trials := trialOffsets_ascend source
  passed := by
    obtain ⟨⟨items, hitems, -⟩, -⟩ := triedScript_tries source
    obtain ⟨htree, hmistakes⟩ := parse_of_topItems hitems rfl
    refine ⟨items, ?_, htree⟩
    rw [read_topItems, hmistakes, ← hitems, ← topItems_left source]

end ArchiveScript
