import Mathlib
import ArchiveScript.Proofs.Run.Operands
import ArchiveScript.Run.Rehearsal

/-! # The calls of an archive output

An archive output calls the host two or three times: it extracts the archive, adjusts it if
something is declared for it, and writes the report on its commands or deletes an old one. The
first call that fails is the last one.
-/

namespace ArchiveScript.Run

open Eval

/-- A call of the host: what is seen of it before it is carried out, and what it does, which comes
back with what is seen of the answer. -/
structure HostCall (η : Type) where
  event : Event
  act : Act η (List Event)

variable {η κ : Type}

/-- The calls succeed one after the other, and the events are what is seen of them. -/
inductive Succeed : η → List (HostCall η) → List Event → η → Prop
  | nil (host : η) : Succeed host [] [] host
  | cons {host between after : η} {call : HostCall η} {calls : List (HostCall η)}
      {answer events : List Event} (ha : call.act host = (.ok answer, between))
      (hr : Succeed between calls events after) :
      Succeed host (call :: calls) (call.event :: answer ++ events) after

namespace HostCall

def run (call : HostCall η) : Eval η κ Unit := fun world =>
  match call.act world.host with
  | (.ok answer, host) => (.ok (), called world (call.event :: answer) host)
  | (.error error, host) => (.error ⟨.archive error.message, none⟩, called world [call.event] host)

def runAll : List (HostCall η) → Eval η κ Unit
  | [] => return
  | call :: calls => do
    call.run
    runAll calls

/-- All calls are made and succeed, or those before the first one that fails do, and this is the
last one made. -/
theorem runAll_cases (calls : List (HostCall η)) (world : World η κ) :
    (∃ events host, Succeed world.host calls events host ∧
      runAll calls world = (.ok (), called world events host)) ∨
    ∃ made call rest events host error after, calls = made ++ call :: rest ∧
      Succeed world.host made events host ∧ call.act host = (.error error, after) ∧
      runAll calls world =
        (.error ⟨.archive error.message, none⟩, called world (events ++ [call.event]) after) := by
  induction calls generalizing world with
  | nil =>
    refine .inl ⟨[], world.host, .nil _, ?_⟩
    simp [called, runAll]
    rfl
  | cons call calls ih =>
    rw [runAll, run_bind]
    rcases hact : call.act world.host with ⟨error | answer, between⟩
    · refine .inr ⟨[], call, calls, [], world.host, error, between, rfl, .nil _, hact, ?_⟩
      simp [run, hact]
    · have hrun : call.run world =
          (.ok (), called world (call.event :: answer) between) := by simp [run, hact]
      rw [hrun]
      dsimp only
      rcases ih (called world (call.event :: answer) between) with
        ⟨events, host, hs, he⟩ | ⟨made, last, rest, events, host, error, after, rfl, hs, ha, he⟩
      · refine .inl ⟨_, host, .cons hact hs, ?_⟩
        rw [he, called_called]
      · refine .inr ⟨call :: made, last, rest, _, host, error, after, rfl, .cons hact hs, ha, ?_⟩
        rw [he, called_called, List.append_assoc]

theorem runAll_append (calls more : List (HostCall η)) :
    (runAll (calls ++ more) : Eval η κ Unit) = runAll calls >>= fun _ => runAll more := by
  induction calls with
  | nil => rw [List.nil_append, runAll, pure_bind]
  | cons call calls ih => rw [List.cons_append, runAll, runAll, ih, bind_assoc]

theorem runAll_singleton (call : HostCall η) :
    (runAll [call] : Eval η κ Unit) = call.run := by
  rw [runAll, runAll]
  exact bind_pure call.run

theorem runAll_ledger {α : Type} (calls : List (HostCall η)) (k : Ledger → Eval η κ α)
    (world : World η κ) :
    (runAll calls >>= fun _ => get >>= fun now => k now.ledger) world =
      (runAll calls >>= fun _ => k world.ledger) world := by
  rw [run_bind, run_bind]
  rcases runAll_cases calls world with
    ⟨events, host, -, he⟩ | ⟨made, last, rest, events, host, error, after, -, -, -, he⟩
  · rw [he]
    rfl
  · rw [he]

end HostCall

def unseen (act : Act η Unit) : Act η (List Event) := do
  act
  return []

theorem run_unseen (event : Event) (act : Act η Unit) :
    (HostCall.run ⟨event, unseen act⟩ : Eval η κ Unit) = Eval.call event .archive act := by
  funext world
  rw [HostCall.run, call_run]
  dsimp only
  rw [unseen, act_bind]
  rcases act world.host with ⟨_ | _, _⟩ <;> rfl

section

variable [Host η κ]

def extractCall (connection : Connection) (path : Path) : HostCall η :=
  ⟨.extract connection path, unseen (Host.extract connection path)⟩

def adjustCall (connection : Connection) (path : Path) (metadata : Outline ArchiveKind) :
    HostCall η :=
  ⟨.adjust path metadata connection, unseen (Host.adjust path metadata connection)⟩

/-- Writes the report on commands, or deletes an old one if there are none. -/
def reportCall (report : Path) : List (Outline CommandKind) → HostCall η
  | [] => ⟨.remove report, do
    let existed ← Host.removeReport report
    return [.removed existed]⟩
  | commands => ⟨.generate report commands, unseen (Host.writeReport report commands)⟩

/-- The calls for the archive of a connection, by what is declared for its name. -/
def outputCalls (ledger : Ledger) (name : String) (connection : Connection) (path : Path) :
    List (HostCall η) :=
  extractCall connection path :: (ledger.archive? name).toList.map (adjustCall connection path) ++
    [reportCall (Path.withExtension path reportExtension) (ledger.commands name)]

theorem run_remove (report : Path) :
    ((reportCall report [] : HostCall η).run : Eval η κ Unit) =
      Eval.call (.remove report) .archive (Host.removeReport report) >>= fun existed =>
        record (.removed existed) := by
  funext world
  rw [run_bind, call_run, reportCall, HostCall.run]
  dsimp only
  rw [act_bind]
  rcases Host.removeReport report world.host with ⟨_ | existed, host⟩
  · rfl
  · dsimp only
    rw [record_run, called_called]
    rfl

theorem runAll_report (report : Path) (commands : List (Outline CommandKind)) :
    (HostCall.runAll [reportCall report commands] : Eval η κ Unit) =
      match commands with
      | [] => do
        let existed ← Eval.call (.remove report) .archive (Host.removeReport report)
        record (.removed existed)
      | commands => Eval.call (.generate report commands) .archive
        (Host.writeReport report commands) := by
  rw [HostCall.runAll_singleton]
  cases commands with
  | nil => exact run_remove report
  | cons command commands => exact run_unseen _ _

def outputOperands [Cursor κ] (settings : Settings) (node : Node) :
    Eval η κ (String × Connection × Path) := do
  let name ← (← node.need .connection).identifier
  let scope := (← get).scope
  let connection ← connectionOf scope node
  let file ← text scope "The file name" (← node.need .file)
  return (name, connection, Path.join settings.dir file)

def output (name : String) (connection : Connection) (path : Path) : Eval η κ Unit := do
  HostCall.runAll [extractCall connection path]
  HostCall.runAll (((← get).ledger.archive? name).toList.map (adjustCall connection path))
  HostCall.runAll [reportCall (Path.withExtension path reportExtension)
    ((← get).ledger.commands name)]

theorem siardOutput_eq [Cursor κ] (settings : Settings) (node : Node) :
    (siardOutput settings node : Eval η κ Unit) =
      outputOperands settings node >>= fun (name, connection, path) =>
        output name connection path := by
  unfold siardOutput outputOperands output
  simp only [bind_assoc, pure_bind]
  refine bind_congr fun nameNode => bind_congr fun name => bind_congr fun world => ?_
  refine bind_congr fun connection => bind_congr fun fileNode => bind_congr fun file => ?_
  rw [HostCall.runAll_singleton, extractCall, run_unseen]
  refine bind_congr fun _ => bind_congr fun now => ?_
  cases now.ledger.archive? name with
  | none =>
    rw [Option.toList_none, List.map_nil, HostCall.runAll, pure_bind]
    exact bind_congr fun now => (runAll_report _ _).symm
  | some metadata =>
    rw [Option.toList_some, List.map_singleton, HostCall.runAll_singleton, adjustCall, run_unseen]
    exact bind_congr fun _ => bind_congr fun now => (runAll_report _ _).symm

/-- What is declared when the first call is made is declared when the others are. -/
theorem output_run (name : String) (connection : Connection) (path : Path) (world : World η κ) :
    output name connection path world =
      HostCall.runAll (outputCalls world.ledger name connection path) world := by
  let adjustment (ledger : Ledger) : List (HostCall η) :=
    (ledger.archive? name).toList.map (adjustCall connection path)
  let ending (ledger : Ledger) : List (HostCall η) :=
    [reportCall (Path.withExtension path reportExtension) (ledger.commands name)]
  change (HostCall.runAll [extractCall connection path] >>= fun _ => get >>= fun now =>
    HostCall.runAll (adjustment now.ledger) >>= fun _ => get >>= fun now =>
      HostCall.runAll (ending now.ledger)) world = _
  rw [HostCall.runAll_ledger _ fun ledger => HostCall.runAll (adjustment ledger) >>= fun _ =>
    get >>= fun now => HostCall.runAll (ending now.ledger)]
  rw [← bind_assoc, ← HostCall.runAll_append, HostCall.runAll_ledger _ fun ledger =>
    HostCall.runAll (ending ledger), ← HostCall.runAll_append]
  rfl

omit [Host η κ] in
theorem outputOperands_rows [Cursor κ] (settings : Settings) (node : Node) (world : World η κ) :
    ∃ rows, (outputOperands settings node world).2 = { world with rows } := by
  have h : Keeps (fun now => ∃ rows, now = { world with rows })
      (outputOperands settings node : Eval η κ (String × Connection × Path)) := by
    refine .seq (Keeps.need _ _) fun nameNode => .seq (Keeps.identifier _) fun name => ?_
    refine Ensures.get.bind fun now _ => .seq (Keeps.connectionOf _ _) fun connection => ?_
    refine .seq (Keeps.need _ _) fun fileNode => ?_
    refine .seq (Keeps.text (Countable.rows world) _ _ _) fun file => ?_
    exact .pure trivial
  exact (h world ⟨_, rfl⟩).1

end

namespace Succeed

theorem last {calls : List (HostCall η)} {call : HostCall η} {events : List Event}
    {host after : η} (h : Succeed host (calls ++ [call]) events after) :
    ∃ between answer, call.act between = (.ok answer, after) := by
  induction calls generalizing host events with
  | nil =>
    cases h with
    | cons ha hr =>
      cases hr
      exact ⟨_, _, ha⟩
  | cons first calls ih =>
    cases h with
    | cons _ hr => exact ih hr

end Succeed

theorem writeReport_run (path : Path) (commands : List (Outline CommandKind)) (host : Rehearsal) :
    Host.writeReport path commands host =
      match host.generateFailure with
      | some message => (.error ⟨message⟩, host)
      | none => (.ok (), host.addReport path) := by
  change (Rehearsal.failing host.generateFailure >>= fun _ =>
    modify (·.addReport path) : Act Rehearsal Unit) host = _
  cases host.generateFailure <;> rfl

theorem removeReport_run (path : Path) (host : Rehearsal) :
    Host.removeReport path host =
      match host.removeFailure with
      | some message => (.error ⟨message⟩, host)
      | none => (.ok (host.hasReport path), host.eraseReport path) := by
  change (Rehearsal.failing host.removeFailure >>= fun _ => (do
    let existed := (← get).hasReport path
    modify (·.eraseReport path)
    return existed) : Act Rehearsal Bool) host = _
  cases host.removeFailure <;> rfl

/-- After the report has been written, or an old one deleted, there is a report if there are
commands. -/
theorem hasReport_reportCall {report : Path} {commands : List (Outline CommandKind)}
    {host after : Rehearsal} {answer : List Event}
    (h : (reportCall report commands).act host = (.ok answer, after)) :
    after.hasReport report = true ↔ commands ≠ [] := by
  cases commands with
  | nil =>
    rw [reportCall] at h
    dsimp only at h
    rw [act_bind, removeReport_run] at h
    cases hf : host.removeFailure with
    | some message =>
      rw [hf] at h
      cases h
    | none =>
      rw [hf] at h
      cases h
      simp [Rehearsal.hasReport, Rehearsal.eraseReport]
  | cons command commands =>
    change unseen (Host.writeReport report (command :: commands)) host = _ at h
    rw [unseen, act_bind, writeReport_run] at h
    cases hf : host.generateFailure with
    | some message =>
      rw [hf] at h
      cases h
    | none =>
      rw [hf] at h
      cases h
      simp [Rehearsal.hasReport, Rehearsal.addReport]

section

variable [Cursor κ] [Host η κ] {settings : Settings} {node : Node} {world : World η κ}

theorem statementWith_output (hk : node.kind = .siardOutput) (block : Node → Eval η κ Unit) :
    statementWith settings block node =
      Eval.orAt node.span (outputOperands settings node >>= fun (name, connection, path) =>
        output name connection path) := by
  rw [← siardOutput_eq, statementWith, hk]

theorem output_cases (hk : node.kind = .siardOutput) (block : Node → Eval η κ Unit)
    {ready : World η κ} {name : String} {connection : Connection} {path : Path}
    (h : outputOperands settings node world = (.ok (name, connection, path), ready)) :
    (∃ events host,
      Succeed world.host (outputCalls world.ledger name connection path) events host ∧
      statementWith settings block node world = (.ok (), called ready events host)) ∨
    ∃ made call rest events host error after,
      outputCalls world.ledger name connection path = made ++ call :: rest ∧
      Succeed world.host made events host ∧ call.act host = (.error error, after) ∧
      statementWith settings block node world =
        (.error ⟨.archive error.message, some node.span⟩,
          called ready (events ++ [call.event]) after) := by
  obtain ⟨rows, hrows⟩ := outputOperands_rows settings node world
  rw [h] at hrows
  dsimp only at hrows
  subst hrows
  rw [statementWith_output hk, Eval.orAt, run_bind, h]
  dsimp only
  rw [output_run]
  rcases HostCall.runAll_cases (outputCalls world.ledger name connection path)
    { world with rows } with
    ⟨events, host, hs, he⟩ | ⟨made, call, rest, events, host, error, after, hc, hs, ha, he⟩
  · refine .inl ⟨events, host, hs, ?_⟩
    rw [he]
  · refine .inr ⟨made, call, rest, events, host, error, after, hc, hs, ha, ?_⟩
    rw [he]
    rfl

theorem operands_of_ok (hk : node.kind = .siardOutput) {block : Node → Eval η κ Unit}
    {after : World η κ} (h : statementWith settings block node world = (.ok (), after)) :
    ∃ name connection path ready,
      outputOperands settings node world = (.ok (name, connection, path), ready) := by
  rw [statementWith_output hk, Eval.orAt, run_bind] at h
  rcases ho : outputOperands settings node world with ⟨_ | ⟨name, connection, path⟩, ready⟩
  · rw [ho] at h
    cases h
  · exact ⟨name, connection, path, ready, rfl⟩

end

/-- An archive output whose operands can be evaluated, which only changes rows. It calls the host
to extract the archive, to adjust it if something is declared for the name of the connection, and
to write the report or delete an old one. Either all of these calls succeed, and the statement
ends well, or the calls before one that fails do, which is the last one, and the statement fails
for the reason that the host gives. In a rehearsal, there is a report after each output that ends
well just if commands are declared, whatever reports there were before. -/
theorem siard_output_calls (settings : Settings) (node : Node) (hk : node.kind = .siardOutput) :
    (∀ {η κ : Type} [Cursor κ] [Host η κ] (block : Node → Eval η κ Unit) (world ready : World η κ)
        (name : String) (connection : Connection) (path : Path),
      outputOperands settings node world = (.ok (name, connection, path), ready) →
      (∃ rows, ready = { world with rows }) ∧
        ((∃ events host,
          Succeed world.host (outputCalls world.ledger name connection path) events host ∧
          statementWith settings block node world = (.ok (), called ready events host)) ∨
        ∃ made call rest events host error after,
          outputCalls world.ledger name connection path = made ++ call :: rest ∧
          Succeed world.host made events host ∧ call.act host = (.error error, after) ∧
          statementWith settings block node world =
            (.error ⟨.archive error.message, some node.span⟩,
              called ready (events ++ [call.event]) after))) ∧
    ∀ (block : Node → Eval Rehearsal (FaultyCursor TableCursor) Unit)
        (world after : World Rehearsal (FaultyCursor TableCursor)),
      statementWith settings block node world = (.ok (), after) →
      ∃ name connection path ready,
        outputOperands settings node world = (.ok (name, connection, path), ready) ∧
        (after.host.hasReport (Path.withExtension path reportExtension) = true ↔
          world.ledger.commands name ≠ []) := by
  refine ⟨fun block world ready name connection path h => ⟨?_, output_cases hk block h⟩, ?_⟩
  · obtain ⟨rows, hrows⟩ := outputOperands_rows settings node world
    rw [h] at hrows
    exact ⟨rows, hrows⟩
  · intro block world after hended
    obtain ⟨name, connection, path, ready, ho⟩ := operands_of_ok hk hended
    refine ⟨name, connection, path, ready, ho, ?_⟩
    rcases output_cases hk block ho with ⟨events, host, hs, he⟩ | ⟨_, _, _, _, _, _, _, -, -, -, he⟩
    · rw [hended] at he
      obtain rfl : after = called ready events host := congrArg Prod.snd he
      obtain ⟨between, answer, hlast⟩ := hs.last
      exact hasReport_reportCall hlast
    · rw [hended] at he
      cases he

def outputNode : Node :=
  .mk .siardOutput (.point 0) "" [
    (some .connection, .mk .identifier (.point 0) "db" []),
    (some .file, .mk .string (.point 0) "" [
      (none, .mk .stringContent (.point 0) "out.siard" [])])]

/-- A state in which nothing is declared, and in which there is a report from before. -/
def staleWorld : World Rehearsal (FaultyCursor TableCursor) where
  host := Rehearsal.addReport {} "/work/out.roae"
  scope := ⟨.bindings ⟨[("db", .connection ⟨0, "jdbc:db", .empty⟩)]⟩, []⟩

theorem siard_output_calls_stale_report :
    ∃ after, statementWith ⟨.empty, "/work"⟩ (fun _ => return) outputNode staleWorld =
        (.ok (), after) ∧
      staleWorld.host.hasReport "/work/out.roae" = true ∧
      after.host.hasReport "/work/out.roae" = false := by
  have hok : (statementWith ⟨.empty, "/work"⟩ (fun _ => return) outputNode staleWorld).1 =
      .ok () := by cbv
  have hended := Prod.fst_eq_iff.1 hok
  obtain ⟨name, connection, path, ready, ho, hreport⟩ :=
    (siard_output_calls ⟨.empty, "/work"⟩ outputNode rfl).2 _ _ _ hended
  have hoperands : (outputOperands ⟨.empty, "/work"⟩ outputNode staleWorld).1 =
      .ok ("db", ⟨0, "jdbc:db", .empty⟩, "/work/out.siard") := by cbv
  rw [ho] at hoperands
  obtain ⟨rfl, -, rfl⟩ : name = "db" ∧ connection = _ ∧ path = "/work/out.siard" := by
    simpa using hoperands
  have hpath : Path.withExtension "/work/out.siard" reportExtension = "/work/out.roae" := by cbv
  have hnone : staleWorld.ledger.commands "db" = [] := by cbv
  rw [hpath] at hreport
  exact ⟨_, hended, by cbv, Bool.eq_false_iff.2 fun ht => hreport.1 ht hnone⟩

end ArchiveScript.Run
