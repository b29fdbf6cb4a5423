import Mathlib
import ArchiveScript.Proofs.Run.Margin
import ArchiveScript.Proofs.Script.Composition
import ArchiveScript.Proofs.Tree.Grammar
import ArchiveScript.Run.Rehearsal

/-! # Running scripts one after the other

A text of two scripts runs like the first one and, unless that fails, then like the second one.
Only the place of a failure in the second one is further on.
-/

namespace ArchiveScript

namespace Statement

variable {block : BlockReader Reader Node} {line : Line} {topLevel : Bool}

theorem keyword_ne_else (entry : String × (Scan → Reader Node))
    (h : entry ∈ keywords block line topLevel) :
    ¬ entry.1.toList <+: "Else".toList ∧ ¬ "Else".toList <+: entry.1.toList := by
  have hwords : ∀ word ∈ ["Parameters", "Nop", "Set", "Execute", "For", "If", "Assert", "Log",
      "SIARD"], ¬ word.toList <+: "Else".toList ∧ ¬ "Else".toList <+: word.toList := by decide
  have hword : entry.1 ∈ (keywords block line topLevel).map Prod.fst :=
    List.mem_map.2 ⟨entry, h, rfl⟩
  exact hwords entry.1 hword

theorem statement_else (h : line.scan.atWord "Else".toList = true) :
    statement block line topLevel =
      Builder.fail .looseElse (.between line.bodyStart line.trimmedStop) := by
  have helse := Scan.prefix_of_atWord h
  unfold statement
  dsimp only
  split
  · rename_i reading hreading
    obtain ⟨⟨keyword, read⟩, hmem, hread⟩ := List.exists_of_findSome?_eq_some hreading
    obtain ⟨rest, hrest, -⟩ := Option.map_eq_some_iff.1 hread
    obtain ⟨hshort, hlong⟩ := keyword_ne_else _ hmem
    have hkeyword := Scan.prefix_of_atWord (Scan.atWord_of_eatWord? hrest)
    rcases List.prefix_or_prefix_of_prefix hkeyword helse with hp | hp
    · exact absurd hp hshort
    · exact absurd hp hlong
  · rw [h]
    rfl

end Statement

theorem topItems_else {line : Line} {rest : List Line} (hi : line.isIdle = false)
    (he : line.scan.atWord "Else".toList = true) : (topItems (line :: rest)).noted ≠ [] := by
  have hdrop : (line :: rest).dropWhile Line.isIdle = line :: rest := by
    rw [List.dropWhile_cons, hi, if_neg Bool.false_ne_true]
  have hitem : (headItem (blockItems (rest.length + 1) none) none .topLevel line rest).outcome =
      .error ⟨.looseElse, .between line.bodyStart line.trimmedStop⟩ := by
    rw [headItem, Option.getD_none, if_pos rfl, blockItem, Statement.statement_else he]
    rfl
  rw [topItems, blockItems_succ, hdrop]
  simp [proceed, hitem]

variable {first second : List Char}

/-- Two scripts without mistakes, one after the other, have no mistakes, and have the items of the
first one followed by those of the second one, where these stand. -/
theorem parse_clean_append (hsize : Text.bytes (first ++ second) < 2 ^ 32)
    (hfirst : (parse first).mistakes = []) (hsecond : (parse second).mistakes = [])
    (hend : first = [] ∨ first.getLast? = some '\n')
    (hmargin : ∀ line ∈ ((Line.split first).dropWhile Line.isIdle).head?, line.indent = 0)
    (hhead : ∃ line rest, Line.split second = line :: rest ∧ line.isIdle = false ∧
      line.indent = 0) :
    (parse (first ++ second)).tree.children = (parse first).tree.children ++
        Node.shifts (Text.bytes first) (parse second).tree.children ∧
      (parse (first ++ second)).mistakes = [] := by
  obtain ⟨line, rest, hlines, hi, hz⟩ := hhead
  have he : line.scan.atWord "Else".toList = false := by
    by_contra hword
    have hmistakes := @topItems_else line rest hi (Bool.eq_true_of_not_eq_false hword)
    obtain ⟨items, hitems⟩ := blockItems_ok ((line :: rest).length + 1) none none .topLevel
      (line :: rest)
    rw [← hlines] at hmistakes hitems
    exact hmistakes ((parse_of_topItems hitems rfl).2 ▸ hsecond)
  have happend := parse_append first second hsize hend hmargin ⟨line, rest, hlines, hi, hz, he⟩
  rwa [hfirst, hsecond] at happend

/-- The items of a second script are alike where they stand behind a first one. -/
theorem shifts_alike (hsize : Text.bytes (first ++ second) < 2 ^ 32) :
    Node.AllAlike (.shift (Text.bytes first)) (parse second).tree.children
      (Node.shifts (Text.bytes first) (parse second).tree.children) := by
  have hmax : Text.bytes second + Text.bytes first ≤ Span.maxOffset := by
    rw [Text.bytes_append, Nat.add_comm] at hsize
    exact Nat.le_of_lt_succ hsize
  obtain ⟨items, hitems⟩ := blockItems_ok ((Line.split second).length + 1) none none .topLevel
    (Line.split second)
  have hm := topItems_meets (Line.split_alike hmax)
  have hi : (topItems (Line.split second)).outcome = .ok items := hitems
  rw [(parse_of_topItems hitems rfl).1]
  change Node.AllAlike _ items (Node.shifts _ items)
  generalize topItems (Line.split second) = passage at hm hi
  generalize topItems (Line.splitFrom (Text.bytes first) [] second) = passage' at hm
  cases hm with
  | ok ha =>
    obtain rfl := Except.ok.inj hi
    exact ha.eq_shifts ▸ ha
  | error => cases hi

/-- The same failure, `d` bytes further. -/
def Failure.shift (d : Nat) (failure : Failure) : Failure :=
  { failure with span := failure.span.map (Span.shift d) }

theorem Failure.Alike.eq_shift {d : Nat} {failure failure' : Failure}
    (h : failure.Alike (.shift d) failure') : failure' = failure.shift d := by
  obtain ⟨cause, span⟩ := failure
  obtain ⟨cause', span'⟩ := failure'
  obtain ⟨hc, hs⟩ := h
  obtain rfl : cause' = cause := hc
  dsimp only at hs
  cases hs with
  | none => rfl
  | some hs => rw [hs.eq_shift]; rfl

instance {d : Nat} : (Likeness.shift d).Unifies where
  fits := trivial
  feeds := by
    rintro text _ rfl
    rfl

namespace Run

open Eval

variable {η κ : Type} [Cursor κ] [Host η κ] {settings : Settings}

theorem statements_append (block : Node → Eval η κ Unit) (items more : List Child) :
    statements settings block (items ++ more) =
      statements settings block items >>= fun _ => statements settings block more := by
  induction items with
  | nil => rw [List.nil_append, statements, pure_bind]
  | cons child rest ih => rw [List.cons_append, statements, statements, ih, bind_assoc]

/-- A text of two scripts without mistakes, the first of which ends with a line, while both begin
with a statement at the margin. It has no mistakes, and it runs like the first script. If that
ends well, it goes on like the second one, from the state that it has come to then. Only a failure
in the second script is at the place to which its text has moved. -/
theorem script_append (settings : Settings) (first second : List Char) (world : World η κ)
    (hsize : Text.bytes (first ++ second) < 2 ^ 32)
    (hfirst : (parse first).mistakes = []) (hsecond : (parse second).mistakes = [])
    (hend : first = [] ∨ first.getLast? = some '\n')
    (hmargin : ∀ line ∈ ((Line.split first).dropWhile Line.isIdle).head?, line.indent = 0)
    (hhead : ∃ line rest, Line.split second = line :: rest ∧ line.isIdle = false ∧
      line.indent = 0) :
    (parse (first ++ second)).mistakes = [] ∧
      (∀ failure after, script settings (parse first).tree world = (.error failure, after) →
        script settings (parse (first ++ second)).tree world = (.error failure, after)) ∧
      ∀ between, script settings (parse first).tree world = (.ok (), between) →
        (∀ after, script settings (parse second).tree between = (.ok (), after) →
          script settings (parse (first ++ second)).tree world = (.ok (), after)) ∧
        ∀ failure after, script settings (parse second).tree between = (.error failure, after) →
          script settings (parse (first ++ second)).tree world =
            (.error (failure.shift (Text.bytes first)), after) := by
  obtain ⟨hchildren, hmistakes⟩ :=
    parse_clean_append hsize hfirst hsecond hend hmargin hhead
  have hwhole : (script settings (parse (first ++ second)).tree : Eval η κ Unit) =
      script settings (parse first).tree >>= fun _ => statements settings (block settings)
        (Node.shifts (Text.bytes first) (parse second).tree.children) := by
    rw [script_eq settings (kind_parse _), script_eq settings (kind_parse _), hchildren,
      statements_append]
  have hmoved : Concur (.shift (Text.bytes first)) Eq
      (script settings (parse second).tree : Eval η κ Unit)
      (statements settings (block settings)
        (Node.shifts (Text.bytes first) (parse second).tree.children)) := by
    rw [script_eq settings (kind_parse _)]
    exact Concur.statements (fun _ _ hn => Concur.block hn) (shifts_alike hsize).forall₂
  refine ⟨hmistakes, ?_, ?_⟩
  · intro failure after hrun
    rw [hwhole, run_bind, hrun]
  · intro between hrun
    have hends := hmoved between
    rw [hwhole, run_bind, hrun]
    dsimp only
    generalize statements settings (block settings) _ between = ended at hends ⊢
    constructor
    · intro after hafter
      rw [hafter] at hends
      cases hends with
      | ok => rfl
    · intro failure after hafter
      rw [hafter] at hends
      cases hends with
      | error hf => rw [hf.eq_shift]

def greeting : List Char := "Set a = \"é\"\nLog:\n  $\x7ba\x7d\n\n".toList

def failingCheck : List Char := "Log a\nAssert a == \"e\"\n".toList

theorem script_append_failing :
    let ended := script ⟨.empty, "/work"⟩ (parse (greeting ++ failingCheck)).tree
      ({ host := {} } : World Rehearsal (FaultyCursor TableCursor))
    ended.1 = .error ⟨.assertion, some ⟨32, 47⟩⟩ ∧
      ended.2.trace.toList = [.log "é", .log "é"] := by
  let world : World Rehearsal (FaultyCursor TableCursor) := { host := {} }
  have hrun : (script ⟨.empty, "/work"⟩ (parse greeting).tree world).1 = .ok () := by cbv
  have hfail : (script ⟨.empty, "/work"⟩ (parse failingCheck).tree
      (script ⟨.empty, "/work"⟩ (parse greeting).tree world).2).1 =
      .error ⟨.assertion, some ⟨6, 21⟩⟩ := by cbv
  obtain ⟨-, -, hrest⟩ := script_append ⟨.empty, "/work"⟩ greeting failingCheck world (by decide)
    (by cbv) (by cbv) (by decide) (by decide) ⟨_, _, rfl, by decide, by decide⟩
  have hended := (hrest _ (Prod.fst_eq_iff.1 hrun)).2 _ _ (Prod.fst_eq_iff.1 hfail)
  rw [hended]
  exact ⟨rfl, by cbv⟩

theorem appended_letters_lost {count : Nat} (h : count + 7 = Span.maxOffset)
    (settings : Settings) (world : World η κ) :
    let second := logLetters count
    (parse second).mistakes = [] ∧
      (∃ line rest, Line.split second = line :: rest ∧ line.isIdle = false ∧ line.indent = 0) ∧
      (script settings (parse (['\n', '\n'] ++ second)).tree world).2.trace ≠
        (script settings (parse second).tree world).2.trace := by
  intro second
  have hreads : ReadsAs second (lettersTree count) :=
    @reads_logLetters _ [] [] [] 0 _ (fun _ => rfl) (List.forall_mem_nil _)
      (List.forall_mem_nil _) rfl
  have hreads' : ReadsAs (['\n', '\n'] ++ second) (lettersTree count) :=
    @reads_logLetters _ ['\n', '\n'] [] [⟨0, [], [], ['\n']⟩, ⟨1, [], [], ['\n']⟩] 2 _
      (fun _ => rfl) (by decide) (List.forall_mem_nil _) rfl
  have hsize : Text.bytes second ≤ Span.maxOffset := Nat.le_of_eq ((bytes_logLetters count).trans h)
  have hreach : Text.OutOfReach (['\n', '\n'] ++ second) (Text.lettersTo count) := by
    have hfeeds : Text.bytes ['\n', '\n'] = 2 := by decide
    exact outOfReach_logLetters rfl (by decide) (by omega)
  have hsplit : Line.split second = [⟨0, [], second, []⟩] :=
    @splitFrom_logLetters [] (List.forall_mem_nil _) 0 count
  refine ⟨hreads.fades.1, ⟨_, _, hsplit, isIdle_logLetters 0 count [], rfl⟩, ?_⟩
  rw [logs_nothing hreads' hreach, logs_letters hreads hsize]
  exact lost_ne_logged world count

/-- If the second script is moved out of reach of spans, the empty line is logged. -/
theorem script_append_loses_text :
    let first := ['\n', '\n']
    let second := logLetters (Span.maxOffset - 7)
    let world : World Rehearsal (FaultyCursor TableCursor) := { host := {} }
    (parse first).mistakes = [] ∧ first.getLast? = some '\n' ∧
      (∀ line ∈ ((Line.split first).dropWhile Line.isIdle).head?, line.indent = 0) ∧
      script ⟨.empty, "/work"⟩ (parse first).tree world = (.ok (), world) ∧
      (parse second).mistakes = [] ∧
      (∃ line rest, Line.split second = line :: rest ∧ line.isIdle = false ∧ line.indent = 0) ∧
      (script ⟨.empty, "/work"⟩ (parse (first ++ second)).tree world).2.trace ≠
        (script ⟨.empty, "/work"⟩ (parse second).tree world).2.trace := by
  intro first second world
  have hfirst : (parse first).tree = .mk .sourceFile ⟨0, 2⟩ "" [] := by cbv
  have hrun : script ⟨.empty, "/work"⟩ (parse first).tree world = (.ok (), world) := by
    rw [hfirst]
    rfl
  have hlost := appended_letters_lost (Nat.sub_add_cancel (by decide)) ⟨.empty, "/work"⟩ world
  exact ⟨by cbv, rfl, by decide, hrun, hlost⟩

end Run

end ArchiveScript
