import ArchiveScript.Proofs.Path.Extensions
import ArchiveScript.Proofs.Run.ArchiveOutput
import ArchiveScript.Proofs.Run.Provenance
import ArchiveScript.Script.Parse

/-! # Where reports go

The report on the commands of an archive goes next to it, under the name of the archive with the
extension of reports. If the archive has that extension itself, or if its path ends in no name, the
report takes the place of the archive, or the archive is deleted as if it were an old report.
-/

namespace ArchiveScript

namespace Event

def archive? : Event → Option Path
  | .extract _ path | .adjust path _ _ => some path
  | _ => none

def report? : Event → Option Path
  | .generate path _ | .remove path => some path
  | _ => none

end Event

namespace Run

open Eval

variable {η κ : Type}

/-- What holds of each call and of each answer to it holds of all that is seen. -/
theorem Succeed.forall_events {P : Event → Prop} {host after : η} {calls : List (HostCall η)}
    {events : List Event} (h : Succeed host calls events after)
    (hc : ∀ call ∈ calls, P call.event ∧
      ∀ host answer after, call.act host = (.ok answer, after) → ∀ event ∈ answer, P event) :
    ∀ event ∈ events, P event := by
  induction h with
  | nil => exact nofun
  | cons ha _ ih =>
    rw [List.forall_mem_cons] at hc
    obtain ⟨⟨hevent, hanswer⟩, hrest⟩ := hc
    intro event hmem
    rcases List.mem_cons.1 hmem with rfl | hmem
    · exact hevent
    rcases List.mem_append.1 hmem with hmem | hmem
    · exact hanswer _ _ _ ha event hmem
    · exact ih hrest event hmem

theorem Succeed.mem_events {host after : η} {calls : List (HostCall η)} {events : List Event}
    (h : Succeed host calls events after) {call : HostCall η} (hc : call ∈ calls) :
    call.event ∈ events := by
  induction h with
  | nil => cases hc
  | cons _ _ ih =>
    rcases List.mem_cons.1 hc with rfl | hc
    · exact List.mem_cons_self
    · exact List.mem_cons_of_mem _ (List.mem_append_right _ (ih hc))

/-- What is seen is about no archive but the one at `path`, and about no report but the one that
belongs to it. -/
structure About (path : Path) (event : Event) : Prop where
  archive : event.archive? = none ∨ event.archive? = some path
  report : event.report? = none ∨ event.report? = some (Path.withExtension path reportExtension)

theorem unseen_answer {act : Act η Unit} {host after : η} {answer : List Event}
    (h : unseen act host = (.ok answer, after)) : answer = [] := by
  rw [unseen, act_bind] at h
  rcases hact : act host with ⟨_ | _, between⟩
  · rw [hact] at h
    cases h
  · rw [hact] at h
    cases h
    rfl

theorem about_unseen {path : Path} {event : Event} (h : About path event) (act : Act η Unit) :
    About path event ∧ ∀ host answer after, unseen act host = (.ok answer, after) →
      ∀ event ∈ answer, About path event := by
  refine ⟨h, fun host answer after ha event hmem => ?_⟩
  rw [unseen_answer ha] at hmem
  cases hmem

variable [Host η κ]

theorem about_outputCalls {ledger : Ledger} {name : String} {connection : Connection}
    {path : Path} {call : HostCall η} (h : call ∈ outputCalls ledger name connection path) :
    About path call.event ∧ ∀ host answer after, call.act host = (.ok answer, after) →
      ∀ event ∈ answer, About path event := by
  rcases List.mem_append.1 h with h | h
  · rcases List.mem_cons.1 h with rfl | h
    · exact about_unseen ⟨.inr rfl, .inl rfl⟩ _
    · obtain ⟨metadata, -, rfl⟩ := List.mem_map.1 h
      exact about_unseen ⟨.inr rfl, .inl rfl⟩ _
  · obtain rfl := List.mem_singleton.1 h
    cases ledger.commands name with
    | cons command commands => exact about_unseen ⟨.inl rfl, .inr rfl⟩ _
    | nil =>
      refine ⟨⟨.inl rfl, .inr rfl⟩, fun host answer after ha => ?_⟩
      rw [reportCall] at ha
      dsimp only at ha
      rw [act_bind] at ha
      rcases hact : (Host.removeReport (Path.withExtension path reportExtension) host :
          Except HostError Bool × η) with ⟨_ | existed, between⟩
      · rw [hact] at ha
        cases ha
      · rw [hact] at ha
        cases ha
        intro event hmem
        obtain rfl := List.mem_singleton.1 hmem
        exact ⟨.inl rfl, .inl rfl⟩

/-- An archive output that ends well extracts the archive and writes or deletes the report. -/
def Complete (path : Path) (events : List Event) : Prop :=
  (∃ connection, .extract connection path ∈ events) ∧
    ∃ event ∈ events, event.report? = some (Path.withExtension path reportExtension)

theorem complete_output {ledger : Ledger} {name : String} {connection : Connection} {path : Path}
    {host after : η} {events : List Event}
    (h : Succeed host (outputCalls ledger name connection path) events after) :
    Complete path events := by
  constructor
  · exact ⟨connection, h.mem_events (List.mem_append_left _ List.mem_cons_self)⟩
  · refine ⟨_, h.mem_events (List.mem_append_right _ (List.mem_singleton_self _)), ?_⟩
    cases ledger.commands name <;> rfl

section

variable [Cursor κ] {settings : Settings} {node : Node} {world ready : World η κ}

omit [Host η κ] in
/-- The archive is in the directory for archives, unless the text for it leads elsewhere. -/
theorem exists_file {name : String} {connection : Connection} {path : Path}
    (h : outputOperands settings node world = (.ok (name, connection, path), ready)) :
    ∃ file, path = Path.join settings.dir file := by
  obtain ⟨_, _, -, h⟩ := ok_of_bind h
  obtain ⟨_, _, -, h⟩ := ok_of_bind h
  obtain ⟨_, _, -, h⟩ := ok_of_bind h
  obtain ⟨_, _, -, h⟩ := ok_of_bind h
  obtain ⟨_, _, -, h⟩ := ok_of_bind h
  obtain ⟨file, _, -, h⟩ := ok_of_bind h
  cases h
  exact ⟨file, rfl⟩

theorem about_output (settings : Settings) (hk : node.kind = .siardOutput)
    (block : Node → Eval η κ Unit) (world : World η κ) :
    ∃ file events, (statementWith settings block node world).2.trace.toList =
        world.trace.toList ++ events ∧
      (∀ event ∈ events, About (Path.join settings.dir file) event) ∧
      ((statementWith settings block node world).1 = .ok () →
        Complete (Path.join settings.dir file) events) := by
  obtain ⟨rows, hready⟩ := outputOperands_rows settings node world
  rcases ho : (outputOperands settings node world : _ × World η κ) with
    ⟨failure | ⟨name, connection, path⟩, ready⟩
  · rw [ho] at hready
    have hrun : statementWith settings block node world =
        (.error (failure.orPlaced node.span), ready) := by
      rw [statementWith_output hk, orAt, run_bind, ho]
    rw [hrun, hready]
    refine ⟨"", [], (List.append_nil _).symm, List.forall_mem_nil _, ?_⟩
    intro hok
    cases hok
  rw [ho] at hready
  dsimp only at hready
  obtain ⟨file, rfl⟩ := exists_file ho
  have htrace : ready.trace.toList = world.trace.toList := by rw [hready]
  rcases output_cases hk block ho with
    ⟨events, host, hs, he⟩ | ⟨made, call, rest, events, host, error, after, hcalls, hs, -, he⟩
  · refine ⟨file, events, ?_, ?_, fun _ => complete_output hs⟩
    · rw [he, toList_called, htrace]
    · exact hs.forall_events fun call hc => about_outputCalls hc
  · refine ⟨file, events ++ [call.event], ?_, ?_, ?_⟩
    · rw [he, toList_called, htrace]
    · have habout {c : HostCall η} (hc : c ∈ made ++ call :: rest) := by
        exact about_outputCalls (hcalls ▸ hc)
      intro event hmem
      rcases List.mem_append.1 hmem with hmem | hmem
      · exact hs.forall_events (fun c hc => habout (List.mem_append_left _ hc)) event hmem
      · obtain rfl := List.mem_singleton.1 hmem
        exact (habout (by simp)).1
    · rw [he]
      intro hok
      cases hok

/-- An archive output is about one archive and one report: when it ends well it has extracted the
one, and written or deleted the other. The report stands where the archive stands, so that the
archive is overwritten or deleted, just if the path of the archive ends in no name or in one with
the extension of reports. Only of the name `..roae` at the end of a text the extension is cut off
to no avail. -/
theorem report_covers_archive_iff (settings : Settings) (span : Span) (text : String)
    (children : List Child) (block : Node → Eval η κ Unit) (world : World η κ) :
    ∃ file events,
      let archive := Path.join settings.dir file
      let report := Path.withExtension archive reportExtension
      let run := statementWith settings block (.mk .siardOutput span text children) world
      run.2.trace.toList = world.trace.toList ++ events ∧
      (∀ event ∈ events, (event.archive? = none ∨ event.archive? = some archive) ∧
        (event.report? = none ∨ event.report? = some report)) ∧
      (run.1 = .ok () → (∃ connection, .extract connection archive ∈ events) ∧
        ∃ event ∈ events, event.report? = some report) ∧
      (Path.same report archive = true ↔ Path.lastName? archive = none ∨
        ∃ stem, stem ≠ "" ∧ Path.lastName? archive = some (stem ++ "." ++ "roae") ∧
          (stem = "." → (Path.pieces archive).getLast? ≠ some "..roae".toList)) := by
  have hk : Node.kind (.mk .siardOutput span text children) = .siardOutput := rfl
  obtain ⟨file, events, htrace, habout, hcomplete⟩ := about_output settings hk block world
  refine ⟨file, events, htrace, fun event hmem => ?_, hcomplete, ?_⟩
  · exact ⟨(habout event hmem).archive, (habout event hmem).report⟩
  · exact Path.same_withExtension_iff (by decide) (by decide) _

/-- The archive that has just been extracted is deleted. -/
theorem archive_deleted_as_report :
    let read := parse "SIARD output db to \"a.roae\"\n".toList
    let run := script ⟨.empty, "/work"⟩ read.tree staleWorld
    read.mistakes = [] ∧ run.1 = .ok () ∧ run.2.trace =
      #[.extract ⟨0, "jdbc:db", .empty⟩ "/work/a.roae", .remove "/work/a.roae",
        .removed false] := by
  refine ⟨?_, ?_, ?_⟩ <;> cbv

end

end Run

end ArchiveScript
