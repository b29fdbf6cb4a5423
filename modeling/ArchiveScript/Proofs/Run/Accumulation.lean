import ArchiveScript.Proofs.Run.Items
import ArchiveScript.Proofs.Run.Visits
import ArchiveScript.Run.Rehearsal

/-! # What a run has declared

The ledger is what the metadata blocks that a run has come to have entered, one block after the
other. A block enters its items in order, up to the first one that cannot be evaluated; nothing
of that one is in the ledger, and everything before it is.
-/

namespace ArchiveScript

namespace Declared

def enter (declared : Declared) : LedgerEntry → Declared
  | .archive outline => { declared with archive := declared.archive.push outline }
  | .command outline => { declared with commands := declared.commands ++ [outline] }

def ofEntries (entries : List LedgerEntry) : Declared :=
  ⟨.mk .metadata "" "" (entries.filterMap LedgerEntry.archive?),
    entries.filterMap LedgerEntry.command?⟩

theorem enterAll_ofEntries (before entries : List LedgerEntry) :
    entries.foldl enter (ofEntries before) = ofEntries (before ++ entries) := by
  induction entries generalizing before with
  | nil => rw [List.foldl_nil, List.append_nil]
  | cons entry rest ih =>
    have he : (ofEntries before).enter entry = ofEntries (before ++ [entry]) := by
      cases entry <;>
        simp [ofEntries, enter, Outline.push, LedgerEntry.archive?, LedgerEntry.command?]
    rw [List.foldl_cons, he, ih, List.append_assoc, List.singleton_append]

end Declared

namespace Ledger

theorem enter_eq_update (ledger : Ledger) (connection : String) (entry : LedgerEntry) :
    ledger.enter connection entry = ledger.update connection (·.enter entry) := by
  cases entry <;> rfl

/-- What is entered for a connection comes after what it had, and belongs to no other one. -/
theorem get?_enterAll (ledger : Ledger) (connection name : String) (f : Declared → Declared)
    (entries : List LedgerEntry) :
    (entries.foldl (·.enter connection) (ledger.update connection f)).get? name =
      if name = connection then
        some (entries.foldl Declared.enter (f ((ledger.get? connection).getD .nothing)))
      else ledger.get? name := by
  induction entries generalizing ledger f with
  | nil => exact ledger.get?_update connection name f
  | cons entry rest ih =>
    rw [List.foldl_cons, enter_eq_update, ih, get?_update, get?_update, if_pos rfl]
    split <;> rfl

end Ledger

namespace Run

open Eval

variable {η κ : Type} [Cursor κ]

section

variable (settings : Settings)

/-- What items enter for a connection: the entries of all of them, or of those before the first one
that cannot be evaluated. -/
def declared (connection : String) : List Declarable → World η κ → List LedgerEntry
  | [], _ => []
  | item :: rest, world =>
    match evaluate settings item world with
    | (.ok entry, after) =>
      entry :: declared connection rest
        { after with ledger := after.ledger.enter connection entry }
    | (.error _, _) => []

namespace Visit

def connection? (visit : Visit η κ) : Option String :=
  if visit.node.kind = .siardMetadata then visit.node.connectionName? else none

def isFor (connection : String) (visit : Visit η κ) : Bool := visit.connection? = some connection

/-- The state in which the first item of the block is evaluated. -/
def touched (visit : Visit η κ) (connection : String) : World η κ :=
  { visit.world with ledger := visit.world.ledger.touch connection }

def entriesFor (connection : String) (visit : Visit η κ) : List LedgerEntry :=
  if visit.isFor connection then
    declared settings connection visit.node.items (visit.touched connection)
  else []

def enterInto (ledger : Ledger) (visit : Visit η κ) : Ledger :=
  match visit.connection? with
  | none => ledger
  | some connection =>
    (visit.entriesFor settings connection).foldl (·.enter connection) (ledger.touch connection)

end Visit

/-- The items are evaluated one after the other, and each is entered before the next one. -/
inductive Declares (connection : String) :
    List Declarable → World η κ → List LedgerEntry → World η κ → Prop
  | nil (world : World η κ) : Declares connection [] world [] world
  | cons {item : Declarable} {rest : List Declarable} {entry : LedgerEntry}
      {entries : List LedgerEntry} {world between after : World η κ}
      (he : evaluate settings item world = (.ok entry, between))
      (hr : Declares connection rest
        { between with ledger := between.ledger.enter connection entry } entries after) :
      Declares connection (item :: rest) world (entry :: entries) after

/-- All items are entered, or those before the first one that fails, which ends the part. -/
theorem declareAll_cases (connection : String) (items : List Declarable) (world : World η κ) :
    ∃ done left between, items = done ++ left ∧
      Declares settings connection done world (declared settings connection items world) between ∧
      match left with
      | [] => declareAll settings connection items world = (.ok (), between)
      | item :: _ => ∃ failure after, evaluate settings item between = (.error failure, after) ∧
        declareAll settings connection items world = (.error failure, after) := by
  induction items generalizing world with
  | nil => exact ⟨[], [], world, rfl, .nil world, rfl⟩
  | cons item rest ih =>
    rw [declared, declareAll, run_bind]
    rcases he : evaluate settings item world with ⟨failure | entry, after⟩
    · exact ⟨[], item :: rest, world, rfl, .nil world, failure, after, he, rfl⟩
    · obtain ⟨done, left, between, rfl, hd, hl⟩ :=
        ih { after with ledger := after.ledger.enter connection entry }
      exact ⟨item :: done, left, between, rfl, .cons he hd, hl⟩

theorem declareAll_ledger (connection : String) (items : List Declarable) (world : World η κ) :
    (declareAll settings connection items world).2.ledger =
      (declared settings connection items world).foldl (·.enter connection) world.ledger := by
  induction items generalizing world with
  | nil => rfl
  | cons item rest ih =>
    have hq := (evaluate_quiet settings item).after world
    rw [declared, declareAll, run_bind]
    rcases he : evaluate settings item world with ⟨failure | entry, after⟩
    · rw [he] at hq
      exact hq
    · rw [he] at hq
      have hl : after.ledger = world.ledger := hq
      rw [List.foldl_cons, ← hl]
      exact ih { after with ledger := after.ledger.enter connection entry }

theorem siardMetadata_run {node : Node} {connection : String}
    (hn : node.connectionName? = some connection) (world : World η κ) :
    siardMetadata settings node world =
      declareAll settings connection node.items
        { world with ledger := world.ledger.touch connection } := by
  obtain ⟨child, hc, ht⟩ := Option.bind_eq_some_iff.1 hn
  split at ht
  · rename_i hk
    cases ht
    rw [siardMetadata_eq, Node.need, hc]
    simp only [pure_bind, Node.identifier, if_pos hk]
    rfl
  · cases ht

theorem siardMetadata_nameless {node : Node} (hn : node.connectionName? = none)
    (world : World η κ) : (siardMetadata settings node world).2.ledger = world.ledger := by
  rw [siardMetadata_eq, Node.need]
  cases hc : node.field? .connection with
  | none => rfl
  | some child =>
    have hk : child.kind ≠ .identifier := by
      intro hk
      simp [Node.connectionName?, hc, hk] at hn
    simp only [pure_bind, Node.identifier, if_neg hk]
    rfl

/-- The part enters what the statements that it visits enter. -/
def Accumulates {α : Type} (x : Eval η κ α) (visits : Visits η κ) : Prop :=
  ∀ world, (x world).2.ledger = (visits world).foldl (Visit.enterInto settings) world.ledger

namespace Accumulates

variable {settings} {α β : Type} {x : Eval η κ α} {f : α → Eval η κ β} {first : Visits η κ}
  {rest : α → Visits η κ}

theorem quiet (hx : Moves SameLedger SameLedger x) : Accumulates settings x fun _ => [] :=
  hx.after

theorem bind (hx : Accumulates settings x first) (hf : ∀ a, Accumulates settings (f a) (rest a)) :
    Accumulates settings (x >>= f) fun world => first world ++ Visits.after x rest world := by
  intro world
  have hw := hx world
  rw [run_bind, List.foldl_append, ← hw, Visits.after]
  rcases x world with ⟨_ | a, between⟩
  · rfl
  · exact hf a between

theorem quiet_bind (hx : Moves SameLedger SameLedger x)
    (hf : ∀ a world between, x world = (.ok a, between) → Accumulates settings (f a) (rest a)) :
    Accumulates settings (x >>= f) (.after x rest) := by
  intro world
  have hw : (x world).2.ledger = world.ledger := hx.after world
  rw [run_bind, ← hw, Visits.after]
  rcases hx : x world with ⟨_ | a, between⟩
  · rfl
  · exact hf a world between hx between

theorem orAt (hx : Accumulates settings x first) (span : Span) :
    Accumulates settings (orAt span x) first := by
  intro world
  rw [← hx world, Eval.orAt]
  rcases x world with ⟨_ | _, _⟩ <;> rfl

theorem locking {id : RowsId} {x : Eval η κ Unit} (hx : Accumulates settings x first) :
    Accumulates settings (locking id x) (.after (Eval.onRows (·.lock id)) fun _ => first) := by
  intro world
  rw [Eval.locking, run_bind, Visits.after, Eval.onRows]
  rcases world.rows.lock id with ⟨_ | _, locked⟩
  · rfl
  · exact hx { world with rows := locked }

theorem nextRound_quiet (loop : Loop) :
    Moves SameLedger SameLedger (nextRound loop : Eval η κ Bool) := by
  have ha : Admits (SameLedger : World η κ → World η κ → Prop) := SameLedger.admits
  refine ha.seq (.onRows_after fun _ => rfl) fun next => ?_
  cases next with
  | none => exact ha.pure _
  | some row => exact ha.seq (ha.bindCells _ _) fun _ => ha.pure _

theorem loopHead_quiet (node : Node) :
    Moves SameLedger SameLedger (loopHead node : Eval η κ Loop) := by
  have ha : Admits (SameLedger : World η κ → World η κ → Prop) := SameLedger.admits
  refine ha.seq (ha.need _ _) fun _ => ha.seq (ha.mapM fun child _ => ha.identifier _) fun _ => ?_
  refine ha.seq (ha.need _ _) fun _ => ha.seq ha.get fun _ => ?_
  refine ha.seq (ha.counts.basic _ _) fun _ => ha.seq ((ha.settle _).orAt _) fun _ => ?_
  exact ha.seq (ha.need _ _) fun _ => ha.pure _

theorem branch_quiet (node : Node) :
    Moves SameLedger SameLedger (branch node : Eval η κ (Option Node)) := by
  have ha : Admits (SameLedger : World η κ → World η κ → Prop) := SameLedger.admits
  refine ha.seq ha.get fun _ => ha.seq (ha.need _ _) fun _ => ha.seq (ha.comparison _ _) fun _ => ?_
  split
  · exact ha.seq (ha.need _ _) fun _ => ha.pure _
  · exact ha.pure _

theorem metadata {node : Node} (hm : node.kind = .siardMetadata) :
    Accumulates settings (siardMetadata settings node : Eval η κ Unit)
      fun world => [⟨node, world⟩] := by
  intro world
  rw [List.foldl_cons, List.foldl_nil, Visit.enterInto, Visit.connection?, if_pos hm]
  cases hn : node.connectionName? with
  | none => exact siardMetadata_nameless settings hn world
  | some connection =>
    rw [siardMetadata_run settings hn, declareAll_ledger]
    simp only [Visit.entriesFor, Visit.isFor, Visit.connection?, if_pos hm, hn, decide_true]
    rfl

variable [Host η κ]

theorem rounds {loop : Loop} {body : Visits η κ}
    (hb : Accumulates settings (block settings loop.body) body) (rounds : Nat) :
    Accumulates settings (forRows loop.rows loop.names (block settings loop.body) rounds)
      (roundVisits settings loop body rounds) := by
  induction rounds with
  | zero => exact fun _ => rfl
  | succ rounds ih =>
    rw [forRows_succ]
    refine quiet_bind (nextRound_quiet loop) fun more _ _ _ => ?_
    cases more with
    | false => exact fun _ => rfl
    | true => exact hb.bind fun _ => ih

section

variable {node : Node}
  (hb : ∀ field inner, node.field? field = some inner →
    Accumulates settings (block settings inner : Eval η κ Unit) (visits settings inner))

include hb

theorem inside (hk : node.kind = .forLoop ∨ node.kind = .conditional) :
    Accumulates settings (statementWith settings (block settings) node : Eval η κ Unit)
      (insideVisits settings (visits settings) node) := by
  unfold insideVisits statementWith
  rcases hk with hk | hk <;> rw [hk] <;> refine orAt ?_ _
  · rw [forLoop_eq]
    refine quiet_bind (loopHead_quiet node) fun loop _ _ hl => ?_
    refine locking fun world => ?_
    exact (rounds (hb _ _ ((loopHead_body node).ok hl)) _) world
  · rw [conditional_eq]
    refine quiet_bind (branch_quiet node) fun chosen _ _ hc => ?_
    cases chosen with
    | none => exact fun _ => rfl
    | some inner =>
      obtain ⟨field, hf⟩ := (branch_block node).ok hc inner rfl
      exact hb field inner hf

/-- A statement enters what it declares itself and what is declared inside it. -/
theorem statement :
    Accumulates settings (statementWith settings (block settings) node : Eval η κ Unit)
      fun world => ⟨node, world⟩ :: insideVisits settings (visits settings) node world := by
  intro world
  rcases Grammar.blockPlaces_cases node.kind with hk | hk
  · rw [insideVisits_flat settings hk]
    by_cases hm : node.kind = .siardMetadata
    · have hs : Accumulates settings
          (statementWith settings (Run.block settings) node : Eval η κ Unit)
          fun world => [⟨node, world⟩] := by
        refine orAt ?_ _
        rw [hm]
        exact metadata hm
      exact hs world
    · have hn : Visit.enterInto settings world.ledger ⟨node, world⟩ = world.ledger := by
        simp only [Visit.enterInto, Visit.connection?, if_neg hm]
      rw [List.foldl_cons, hn]
      refine quiet (SameLedger.admits.statementWith settings (fun field hf => ?_)
        fun h => absurd h hm) world
      rw [hk] at hf
      cases hf
  · have hn : Visit.enterInto settings world.ledger ⟨node, world⟩ = world.ledger := by
      rcases hk with hk | hk <;> simp [Visit.enterInto, Visit.connection?, hk]
    rw [List.foldl_cons, hn]
    exact inside hb hk world

end

theorem statements {children : List Child}
    (h : ∀ child ∈ children, ∀ field inner, child.2.field? field = some inner →
      Accumulates settings (block settings inner : Eval η κ Unit) (visits settings inner)) :
    Accumulates settings (statements settings (block settings) children : Eval η κ Unit)
      (statementVisits settings (visits settings) children) := by
  induction children with
  | nil => exact fun _ => rfl
  | cons child rest ih =>
    exact (statement (h child List.mem_cons_self)).bind fun _ =>
      ih fun other ho => h other (List.mem_cons_of_mem child ho)

theorem block (node : Node) :
    Accumulates settings (block settings node : Eval η κ Unit) (visits settings node) := by
  -- The blocks inside the statements of a block are lower than it is.
  induction hn : node.height using Nat.strongRecOn generalizing node with
  | _ height ih =>
    rw [block_eq, visits_eq]
    refine statements fun child hc field inner hf => ih inner.height ?_ inner rfl
    exact hn ▸ Nat.lt_trans (Node.height_lt_of_field? hf) (Node.height_lt_of_mem hc)

theorem script (tree : Node) :
    Accumulates settings (script settings tree : Eval η κ Unit) (scriptVisits settings tree) := by
  unfold Run.script scriptVisits
  split
  · exact block tree
  · exact fun _ => rfl

end Accumulates

theorem flatMap_entriesFor_eq_nil {visits : List (Visit η κ)} {name : String}
    (h : visits.any (·.isFor name) = false) :
    visits.flatMap (Visit.entriesFor settings name) = [] := by
  refine List.flatMap_eq_nil_iff.2 fun visit hv => ?_
  have hf : visit.isFor name = false := by simpa using List.any_eq_false.1 h visit hv
  rw [Visit.entriesFor, hf]
  rfl

/-- What a connection has after statements: what they enter for it, behind what it had. -/
theorem get?_enterInto (visits : List (Visit η κ)) (ledger : Ledger) (name : String) :
    (visits.foldl (Visit.enterInto settings) ledger).get? name =
      if visits.any (·.isFor name) then
        some ((visits.flatMap (Visit.entriesFor settings name)).foldl Declared.enter
          ((ledger.get? name).getD .nothing))
      else ledger.get? name := by
  induction visits generalizing ledger with
  | nil => rfl
  | cons visit rest ih =>
    have hv : (Visit.enterInto settings ledger visit).get? name =
        if visit.isFor name then
          some ((visit.entriesFor settings name).foldl Declared.enter
            ((ledger.get? name).getD .nothing))
        else ledger.get? name := by
      rw [Visit.enterInto, Visit.isFor]
      cases hc : visit.connection? with
      | none => simp
      | some connection =>
        refine (ledger.get?_enterAll connection name id _).trans ?_
        by_cases hn : name = connection
        · simp [hn]
        · simp [hn, Ne.symm hn]
    rw [List.foldl_cons, ih, hv, List.any_cons, List.flatMap_cons, List.foldl_append]
    cases hf : visit.isFor name with
    | false =>
      have hnil : visit.entriesFor settings name = [] := by
        rw [Visit.entriesFor, hf]
        rfl
      simp [hnil]
    | true =>
      cases hr : rest.any (·.isFor name) with
      | false => simp [flatMap_entriesFor_eq_nil settings hr]
      | true => simp

/-- The statement enters for the connection what its items say, one after the other. It ends well
after the last of them, or with the failure of the first one that fails. -/
def Visit.EntersInOrder [Host η κ] (connection : String) (visit : Visit η κ) : Prop :=
  ∃ done left between, visit.node.items = done ++ left ∧
    Declares settings connection done (visit.touched connection)
      (visit.entriesFor settings connection) between ∧
    match left with
    | [] => statementWith settings (block settings) visit.node visit.world = (.ok (), between)
    | item :: _ => ∃ failure after, evaluate settings item between = (.error failure, after) ∧
      after.ledger = between.ledger ∧
      statementWith settings (block settings) visit.node visit.world =
        (.error (failure.orPlaced visit.node.span), after)

variable {settings} [Host η κ]

theorem Visit.entersInOrder {visit : Visit η κ} {connection : String}
    (h : visit.isFor connection = true) : visit.EntersInOrder settings connection := by
  have hc : visit.connection? = some connection := of_decide_eq_true h
  obtain ⟨node, world⟩ := visit
  obtain ⟨hm, hn⟩ : node.kind = .siardMetadata ∧ node.connectionName? = some connection := by
    simpa [Visit.connection?] using hc
  obtain ⟨done, left, between, hi, hd, hl⟩ := declareAll_cases settings connection node.items
    (Visit.touched ⟨node, world⟩ connection)
  have hs : statementWith settings (Run.block settings) node world =
      orAt node.span (declareAll settings connection node.items)
        (Visit.touched ⟨node, world⟩ connection) := by
    simp only [statementWith, hm, orAt, siardMetadata_run settings hn]
    rfl
  refine ⟨done, left, between, hi, ?_, ?_⟩
  · rw [Visit.entriesFor, h]
    exact hd
  · cases left with
    | nil =>
      dsimp only at hl ⊢
      rw [hs, orAt, hl]
    | cons item rest =>
      obtain ⟨failure, after, he, ha⟩ := hl
      have hq := (evaluate_quiet settings item).after between
      rw [he] at hq
      refine ⟨failure, after, he, hq, ?_⟩
      rw [hs, orAt, ha]

end

section

variable [Host η κ]

/-- From an empty ledger, a run gives a root to each connection that it has come to a metadata
block for, and to no other one. What is declared for a connection are the entries of these blocks,
one block after the other. The entries of a block are those of its items in order, up to the first
item that fails, which ends the block and enters nothing. A statement leaves alone what a connection
has if neither it nor what is visited inside it is for that connection. -/
theorem ledger_accumulates (settings : Settings) (tree : Node) (start : World η κ) :
    let world := { start with ledger := .empty }
    let reached := scriptVisits settings tree world
    let ledger := (script settings tree world).2.ledger
    (∀ name,
      let entries := reached.flatMap (Visit.entriesFor settings name)
      ledger.archive? name =
        (if reached.any (·.isFor name) then
          some (.mk .metadata "" "" (entries.filterMap LedgerEntry.archive?))
        else none) ∧
      ledger.commands name = entries.filterMap LedgerEntry.command?) ∧
    ∀ visit ∈ reached, ∀ name,
      (visit.isFor name = true → visit.EntersInOrder settings name) ∧
      ((visit :: insideVisits settings (visits settings) visit.node visit.world).any
          (·.isFor name) = false →
        (statementWith settings (block settings) visit.node visit.world).2.ledger.get? name =
          visit.world.ledger.get? name) := by
  intro world reached ledger
  refine ⟨fun name => ?_, fun visit _ name => ⟨Visit.entersInOrder, fun hv => ?_⟩⟩
  · have hg := get?_enterInto settings reached .empty name
    rw [← Accumulates.script tree world] at hg
    have he : (reached.flatMap (Visit.entriesFor settings name)).foldl Declared.enter
        ((Ledger.empty.get? name).getD .nothing) =
          .ofEntries (reached.flatMap (Visit.entriesFor settings name)) :=
      Declared.enterAll_ofEntries [] _
    rw [he] at hg
    rw [Ledger.archive?, Ledger.commands, hg]
    cases hr : reached.any (·.isFor name) with
    | false => simp [flatMap_entriesFor_eq_nil settings hr, Ledger.get?, Ledger.empty]
    | true => exact ⟨rfl, rfl⟩
  · rw [Accumulates.statement (fun _ inner _ => .block inner) visit.world, get?_enterInto, hv]
    rfl

end

/-- A block for a connection with its contact before its name, and a schema without a name. -/
def partialBlock : Node :=
  .mk .siardMetadata (.point 0) ""
    [(some .connection, .mk .identifier (.point 0) "c" []),
      (some .archiver, .mk .raw (.point 0) "" [(none, .mk .rawContent (.point 0) "A" [])]),
      (some .dbname, .mk .raw (.point 0) "" [(none, .mk .rawContent (.point 0) "D" [])]),
      (none, .mk .siardSchema (.point 0) "" [])]

/-- The fields are in the archive, in their own order, and nothing of the schema is, whose failure
ends the run. -/
theorem ledger_accumulates_partial :
    let tree : Node := .mk .sourceFile (.point 0) "" [(none, partialBlock)]
    let ended := script ⟨.empty, "/work"⟩ tree
      ({ host := {} } : World Rehearsal (FaultyCursor TableCursor))
    ended.1 = .error ⟨.missingField .siardSchema .name, some (.point 0)⟩ ∧
      ended.2.ledger.archive? "c" = some (.mk .metadata "" ""
        [.leaf .info "dbname" "D", .leaf .info "archiver" "A"]) ∧
      ended.2.ledger.archive? "d" = none := by
  intro tree ended
  have h := (ledger_accumulates ⟨.empty, "/work"⟩ tree
    ({ host := {} } : World Rehearsal (FaultyCursor TableCursor))).1
  exact ⟨rfl, (h "c").1.trans rfl, (h "d").1.trans rfl⟩

end Run

end ArchiveScript
