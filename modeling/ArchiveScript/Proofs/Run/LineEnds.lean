import Mathlib
import ArchiveScript.Proofs.Run.LostTexts
import ArchiveScript.Proofs.Script.LineEnds
import ArchiveScript.Run.Rehearsal
import ArchiveScript.Run.Session

/-! # Sessions do not depend on line ends

A script with carriage returns before its line feeds is read and run like the script without them,
and what is said of it shows the same lines.
-/

namespace ArchiveScript

open Text (crlf)

variable {source : List Char}

/-- Diagnostics of places that stand for each other show the same lines. -/
theorem Diagnostic.render_alike (h : '\r' ∉ source)
    (hsize : Text.bytes (crlf source) ≤ Span.maxOffset) {headline : String}
    {span span' : Option Span} (hs : Option.Rel (Span.Alike (.lineEnds source)) span span') :
    render (.ofText (crlf source)) ⟨headline, span'⟩ =
      render (.ofText source) ⟨headline, span⟩ := by
  apply render_crlf h hsize
  cases hs with
  | none => exact .none
  | some hs => exact .some ⟨(hs.start hsize).1, (hs.stop hsize).1⟩

namespace Session

theorem mistakeDiagnostic_alike (h : '\r' ∉ source)
    (hsize : Text.bytes (crlf source) ≤ Span.maxOffset) {mistake mistake' : Mistake}
    (hm : mistake.Alike (.lineEnds source) mistake') :
    (mistakeDiagnostic mistake').render (.ofText (crlf source)) =
      (mistakeDiagnostic mistake).render (.ofText source) := by
  unfold mistakeDiagnostic Mistake.message
  rw [hm.complaint]
  exact Diagnostic.render_alike h hsize (.some hm.span)

theorem failureDiagnostic_alike (h : '\r' ∉ source)
    (hsize : Text.bytes (crlf source) ≤ Span.maxOffset) {failure failure' : Failure}
    (hf : failure.Alike (.lineEnds source) failure') :
    (failureDiagnostic failure').render (.ofText (crlf source)) =
      (failureDiagnostic failure).render (.ofText source) := by
  unfold failureDiagnostic Failure.headline
  rw [hf.cause]
  exact Diagnostic.render_alike h hsize hf.span

theorem mistakeDiagnostics_alike (h : '\r' ∉ source)
    (hsize : Text.bytes (crlf source) ≤ Span.maxOffset) {mistakes mistakes' : List Mistake}
    (hm : List.Forall₂ (Mistake.Alike (.lineEnds source)) mistakes mistakes') :
    mistakes'.map (fun mistake => (mistakeDiagnostic mistake).render (.ofText (crlf source))) =
      mistakes.map fun mistake => (mistakeDiagnostic mistake).render (.ofText source) := by
  induction hm with
  | nil => rfl
  | cons hm _ ih => rw [List.map_cons, List.map_cons, mistakeDiagnostic_alike h hsize hm, ih]

variable {η κ : Type} [Cursor κ] [Host η κ]

theorem runText_crlf (settings : Settings) (timings : Timings) (h : '\r' ∉ source)
    (hsize : Text.bytes (crlf source) ≤ Span.maxOffset) (world : World η κ) :
    runText settings timings (crlf source) world = runText settings timings source world := by
  obtain ⟨htree, hmistakes⟩ := parse_crlf h
  have hempty : (parse (crlf source)).mistakes.isEmpty = (parse source).mistakes.isEmpty := by
    generalize (parse source).mistakes = mistakes at hmistakes
    generalize (parse (crlf source)).mistakes = mistakes' at hmistakes
    cases hmistakes <;> rfl
  unfold runText
  dsimp only
  rw [hempty]
  split
  · have hu := Likeness.lineEnds_unifies hsize
    have hrun := Run.Concur.script settings htree world
    generalize Run.script settings (parse source).tree world = done at hrun
    generalize Run.script settings (parse (crlf source)).tree world = done' at hrun
    cases hrun with
    | ok _ => rfl
    | error hf =>
      have hc := hf.cause
      dsimp only
      rw [failureDiagnostic_alike h hsize hf, Failure.status, Failure.status, hc]
  · rw [mistakeDiagnostics_alike h hsize hmistakes]

/-- A script file without carriage returns, and the same file with one before each line feed: both
sessions end with the same status, say the same and come to the same state, which includes what the
host has been asked for and the log lines, in their order. -/
theorem line_ends_immaterial (settings : Settings) (timings : Timings) (path : Path)
    (source : String) (world : World η κ) (h : '\r' ∉ source.toList)
    (hsize : Text.bytes (crlf source.toList) < 2 ^ 32) :
    runFile settings timings path (.ok (String.ofList (crlf source.toList))) world =
      runFile settings timings path (.ok source) world := by
  have hrun := runText_crlf settings timings h (Nat.le_of_lt_succ hsize) world
  unfold runFile
  dsimp only
  rw [String.toList_ofList]
  exact hrun

/-- A script with an empty line and with values at line ends in its verbatim block, whose last
statement fails. -/
def failingLog : String :=
  "Set a = \"é\"\nLog:\n  $\x7ba\x7d\n\n  then $\x7ba\x7d\n\nAssert a == \"e\"\n"

theorem line_ends_immaterial_failing_log :
    let ending := runFile ⟨.empty, "/work"⟩ ⟨false, 0, 0, 0⟩ "log"
      (.ok (String.ofList (crlf failingLog.toList)))
      ({ host := {} } : World Rehearsal (FaultyCursor TableCursor))
    '\r' ∉ failingLog.toList ∧ ending.status = .assertionFailure ∧
      ending.world.trace.toList = [.log "é\n\nthen é"] ∧
      ending.diagnostics = "Assertion failed\n7:\tAssert a == \"e\"\n" := by
  have hr : '\r' ∉ failingLog.toList := by decide
  have hsame := line_ends_immaterial ⟨.empty, "/work"⟩ ⟨false, 0, 0, 0⟩ "log" failingLog
    ({ host := {} } : World Rehearsal (FaultyCursor TableCursor)) hr (by decide)
  refine ⟨hr, ?_, ?_, ?_⟩
  · rw [hsame]
    cbv
  · rw [hsame]
    cbv
  · rw [hsame]
    cbv

theorem runText_of_ok {settings : Settings} (timings : Timings) {source : List Char}
    {world after : World η κ} (hm : (parse source).mistakes = [])
    (hr : Run.script settings (parse source).tree world = (.ok (), after)) :
    (runText settings timings source world).world = after := by
  unfold runText
  dsimp only
  rw [hm, hr]
  rfl

theorem crlf_letters_lost {count : Nat} (h : count + 9 = Span.maxOffset) (settings : Settings)
    (timings : Timings) (world : World η κ) :
    let source := '\n' :: '\n' :: Run.logLetters count
    '\r' ∉ source ∧ (runText settings timings (crlf source) world).world.trace ≠
      (runText settings timings source world).world.trace := by
  intro source
  have hcrlf : crlf source = ['\r', '\n', '\r', '\n'] ++ Run.logLetters count :=
    congrArg (['\r', '\n', '\r', '\n'] ++ ·)
      (Text.crlf_of_no_feed (Run.oneLine_logLetters count).feed)
  have hreads : ReadsAs source (Run.lettersTree count) :=
    @Run.reads_logLetters _ ['\n', '\n'] [] [⟨0, [], [], ['\n']⟩, ⟨1, [], [], ['\n']⟩] 2 _
      (fun _ => rfl) (by decide) (List.forall_mem_nil _) rfl
  have hreads' : ReadsAs (crlf source) (Run.lettersTree count) :=
    @Run.reads_logLetters _ ['\r', '\n', '\r', '\n'] []
      [⟨0, [], [], ['\r', '\n']⟩, ⟨2, [], [], ['\r', '\n']⟩] 4 _ (fun _ => rfl) (by decide)
      (List.forall_mem_nil _) hcrlf
  have hsize : Text.bytes source ≤ Span.maxOffset := by
    have hletters := Run.bytes_logLetters count
    have hfeeds : Text.bytes ['\n', '\n'] = 2 := by decide
    have hs : Text.bytes (['\n', '\n'] ++ Run.logLetters count) = _ := Text.bytes_append _ _
    change Text.bytes (['\n', '\n'] ++ Run.logLetters count) ≤ _
    omega
  have hreach : Text.OutOfReach (crlf source) (Text.lettersTo count) := by
    have hfeeds : Text.bytes ['\r', '\n', '\r', '\n'] = 4 := by decide
    exact Run.outOfReach_logLetters hcrlf (by decide) (by omega)
  constructor
  · simp [source, Run.logLetters, Text.not_mem_lettersTo]
  · rw [runText_of_ok timings hreads'.fades.1 (Run.logs_nothing hreads' hreach settings world),
      runText_of_ok timings hreads.fades.1 (Run.logs_letters hreads hsize settings world)]
    exact Run.lost_ne_logged world count

/-- If the carriage returns move the text of a string out of reach of spans, the empty line is
logged. -/
theorem line_ends_lose_text :
    let source := String.ofList ('\n' :: '\n' :: Run.logLetters (Span.maxOffset - 9))
    let world : World Rehearsal (FaultyCursor TableCursor) := { host := {} }
    '\r' ∉ source.toList ∧
      (runFile ⟨.empty, "/work"⟩ ⟨false, 0, 0, 0⟩ "log"
        (.ok (String.ofList (crlf source.toList))) world).world.trace ≠
      (runFile ⟨.empty, "/work"⟩ ⟨false, 0, 0, 0⟩ "log" (.ok source) world).world.trace := by
  intro source world
  have h : Span.maxOffset - 9 + 9 = Span.maxOffset := Nat.sub_add_cancel (by decide)
  unfold runFile
  dsimp only
  rw [String.toList_ofList, String.toList_ofList]
  exact crlf_letters_lost h _ _ world

end Session

end ArchiveScript
