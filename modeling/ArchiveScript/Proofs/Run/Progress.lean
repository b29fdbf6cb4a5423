import ArchiveScript.Proofs.Run.Steps

/-! # How runs go on

Every part of a run goes on by steps, from every state that the run has come to and however the
part ends. So the states in which a run comes to its statements, and the one in which it ends, are
reached by steps.
-/

namespace ArchiveScript.Run

open Eval

variable {η κ α β : Type}

def FairIn [Host η κ] (start : World η κ) (failure : Failure) : Prop :=
  ∃ now, Steps start now ∧ Fair now.scope failure

/-- The part goes on by steps, which may change the variables. -/
abbrev GoesOn [Host η κ] (start : World η κ) (eval : Eval η κ α) : Prop :=
  Ensures (Steps start) (fun _ => True) (FairIn start) eval

def Begins [Host η κ] (start : World η κ) (scope : Scope) (eval : Eval η κ α) : Prop :=
  ∀ world, At start scope world → Steps start (eval world).2 ∧
    ∀ failure, (eval world).1 = .error failure → FairIn start failure

section

variable [Host η κ] {start : World η κ} {scope : Scope} {x : Eval η κ α} {f : α → Eval η κ β}

theorem Begins.of_evaluates {Q : α → Prop} (h : Evaluates start scope Q x) :
    Begins start scope x := by
  intro world hw
  obtain ⟨ha, ho⟩ := h world hw
  refine ⟨ha.1, fun failure hf => ⟨world, hw.1, ?_⟩⟩
  rw [hf] at ho
  exact hw.2 ▸ ho

theorem Begins.bind {Q : α → Prop} (hx : Evaluates start scope Q x)
    (hf : ∀ a, Q a → Begins start scope (f a)) : Begins start scope (x >>= f) := by
  intro world hw
  have hb := Begins.of_evaluates hx world hw
  obtain ⟨ha, ho⟩ := hx world hw
  rw [run_bind]
  rcases hr : x world with ⟨failure | a, between⟩
  · rw [hr] at hb
    refine ⟨hb.1, fun other ho => ?_⟩
    cases ho
    exact hb.2 failure rfl
  · rw [hr] at ha ho
    exact hf a ho between ha

theorem Begins.seq (hx : Evaluates start scope (fun _ => True) x)
    (hf : ∀ a, Begins start scope (f a)) : Begins start scope (x >>= f) :=
  Begins.bind hx fun a _ => hf a

theorem GoesOn.begins (h : GoesOn start x) (scope : Scope) : Begins start scope x := by
  intro world hw
  obtain ⟨ha, ho⟩ := h world hw.1
  refine ⟨ha, fun failure hf => ?_⟩
  rw [hf] at ho
  exact ho

theorem GoesOn.of_begins (h : ∀ scope, Begins start scope x) : GoesOn start x := by
  intro world hs
  obtain ⟨ha, ho⟩ := h world.scope world ⟨hs, rfl⟩
  refine ⟨ha, ?_⟩
  cases hx : (x world).1 with
  | ok a => trivial
  | error failure => exact ho failure hx

theorem GoesOn.of_evaluates {Q : α → Prop} (h : ∀ scope, Evaluates start scope Q x) :
    GoesOn start x := .of_begins fun scope => .of_evaluates (h scope)

theorem GoesOn.get {f : World η κ → Eval η κ α} (h : ∀ now, Begins start now.scope (f now)) :
    GoesOn start (get >>= f) := by
  refine .of_begins fun scope world hw => ?_
  rw [run_get]
  exact h world world ⟨hw.1, rfl⟩

end

namespace GoesOn

variable [Host η κ] {start : World η κ} {x : Eval η κ α}

theorem pure (a : α) : GoesOn start (pure a) := Ensures.pure trivial

theorem fail {cause : Cause} (h : cause.refusesParameter = false) :
    GoesOn start (fail cause : Eval η κ α) := of_evaluates fun _ => .fail (Q := fun _ => True) h

theorem orAt (h : GoesOn start x) (span : Span) : GoesOn start (orAt span x) :=
  Ensures.orAt h fun _ ⟨now, hs, hf⟩ => ⟨now, hs, hf.orPlaced span⟩

theorem need (node : Node) (field : Field) : GoesOn start (node.need field) :=
  of_evaluates fun _ => .need node field

theorem identifier (node : Node) : GoesOn start node.identifier :=
  of_evaluates fun _ => .identifier node

theorem onScope {operation : Scope → Except ScopeError Scope}
    (h : ∀ world scope, Steps start world → operation world.scope = .ok scope →
      Steps start { world with scope }) :
    GoesOn start (onScope operation : Eval η κ Unit) :=
  Ensures.onScope h fun world error hs _ => ⟨world, hs, .of_cause (by cases error; rfl)⟩

theorem bindText (name text : String) :
    GoesOn start (Eval.bind name (.text text) : Eval η κ Unit) :=
  onScope fun _ _ hs ho => hs.tail (.bind (.inl (.text text)) ho)

theorem unbind (name : String) : GoesOn start (Eval.unbind name : Eval η κ Unit) :=
  onScope fun _ _ hs ho => hs.tail (.unbind ho)

theorem bindParameter (settings : Settings) (parameter : Node) :
    GoesOn start (bindParameter settings parameter : Eval η κ (Outline CommandKind)) := by
  unfold Run.bindParameter
  split
  · refine (need _ _).seq fun _ => (identifier _).seq fun name => ?_
    dsimp only
    split
    · exact (bindText _ _).seq fun _ => pure _
    · exact (unbind _).seq fun _ => pure _
  · exact of_evaluates fun _ => .failAt (Q := fun _ => True) rfl

theorem bindParameters (settings : Settings) (list : List Child) :
    GoesOn start (bindParameters settings list : Eval η κ (List (Outline CommandKind))) := by
  induction list with
  | nil => exact pure _
  | cons parameter rest ih =>
    rw [bindParameters_cons]
    exact (bindParameter _ _).seq fun _ => ih.seq fun _ => pure _

theorem bindCells (names : List String) (row : Row) :
    GoesOn start (bindCells names row : Eval η κ Unit) := by
  induction names generalizing row with
  | nil => exact pure _
  | cons name names ih =>
    unfold Run.bindCells
    dsimp only
    split
    · exact (bindText _ _).seq fun _ => ih _
    · exact (unbind _).seq fun _ => ih _

variable [Cursor κ]

theorem command (settings : Settings) (node : Node) :
    GoesOn start (command settings node : Eval η κ (Outline CommandKind)) := by
  have hb (title : String) (entries : List (Outline CommandKind)) : GoesOn start (do
      let scope := (← MonadState.get).scope.command (entries.map Outline.name)
      let body ← raw scope .command (← node.need .body)
      Pure.pure (.mk .command "" title (entries ++ [.leaf .sql "" body.text])) :
        Eval η κ (Outline CommandKind)) := by
    refine get fun now => .seq (.need _ _) fun _ => ?_
    have hm : TemplateMode.command = .sql →
        now.scope.command (entries.map Outline.name) = now.scope := nofun
    exact .seq (.raw hm _) fun _ => (pure _).begins _
  refine get fun now => .seq (.need _ _) fun _ => .seq (.text _ _) fun title => begins ?_ _
  dsimp only
  split
  · exact (bindParameters _ _).seq (hb title)
  · exact (pure _).seq (hb title)

theorem set (settings : Settings) (node : Node) :
    GoesOn start (set settings node : Eval η κ Unit) := by
  refine (need _ _).seq fun _ => (identifier _).seq fun name => (need _ _).seq fun valueNode => ?_
  -- Whether the value is given depends on the state after the expression, so `bind` does not apply.
  intro world hs
  have he := Evaluates.expression settings valueNode world ⟨hs, rfl⟩
  rw [run_bind]
  rcases hx : expression settings valueNode world with ⟨failure | value, after⟩
  · rw [hx] at he
    exact ⟨he.1.1, world, hs, he.2⟩
  · have hg := (expression_given hx).2
    rw [hx] at he
    dsimp only
    rw [Eval.bind, Eval.onScope]
    cases hb : after.scope.bind name value with
    | ok scope => exact ⟨he.1.1.tail (.bind hg hb), trivial⟩
    | error error => exact ⟨he.1.1, after, he.1.1, .of_cause (by cases error; rfl)⟩

theorem declareItem (settings : Settings) (connection : String) (item : Node) :
    GoesOn start (declareItem settings connection item : Eval η κ Unit) := by
  unfold Run.declareItem
  split
  · exact get fun now => .seq (.declaration _) fun _ => .of_evaluates (.onLedger _)
  · exact (command _ _).seq fun _ => of_evaluates fun _ => .onLedger _
  · exact pure _

theorem declareItems (settings : Settings) (connection : String) (items : List Child) :
    GoesOn start (declareItems settings connection items : Eval η κ Unit) := by
  induction items with
  | nil => exact pure _
  | cons item rest ih =>
    rw [declareItems_cons]
    exact (declareItem _ _ _).seq fun _ => ih

theorem siardMetadata (settings : Settings) (node : Node) :
    GoesOn start (siardMetadata settings node : Eval η κ Unit) := by
  refine (need _ _).seq fun _ => (identifier _).seq fun connection => ?_
  refine Ensures.seq (of_evaluates fun _ => .onLedger _) fun _ => ?_
  refine Ensures.seq (of_evaluates fun _ => .declareInfo _ _ _) fun _ => ?_
  exact declareItems _ _ _

theorem locking {x : Eval η κ Unit} (h : GoesOn start x) (id : RowsId) :
    GoesOn start (locking id x) := by
  refine Ensures.seq (of_evaluates fun _ => .onRows _) fun _ world hs => ?_
  obtain ⟨ha, ho⟩ := h world hs
  -- The rows are freed also if `x` fails.
  exact ⟨ha.tail (.inside _ _ _), ho⟩

theorem nextRound (loop : Loop) : GoesOn start (nextRound loop : Eval η κ Bool) := by
  refine Ensures.seq (of_evaluates fun _ => .onRows _) fun next => ?_
  cases next with
  | none => exact pure _
  | some row => exact (bindCells _ _).seq fun _ => pure _

section

variable {run : Node → Eval η κ Unit}

theorem forRows {loop : Loop} (hr : GoesOn start (run loop.body)) (rounds : Nat) :
    GoesOn start (forRows loop.rows loop.names (run loop.body) rounds) := by
  induction rounds with
  | zero => exact pure _
  | succ rounds ih =>
    rw [forRows_succ]
    refine (nextRound _).seq fun more => ?_
    split
    · exact hr.seq fun _ => ih
    · exact pure _

theorem forLoop {node : Node}
    (hr : ∀ field inner, node.field? field = some inner → GoesOn start (run inner)) :
    GoesOn start (forLoop run node) := by
  rw [forLoop_eq]
  refine ((loopHead_body node).ensures (of_evaluates fun _ => .loopHead node)).bind ?_
  exact fun loop hb => locking (Ensures.get.bind fun _ _ => forRows (hr _ _ hb) _) _

theorem conditional {node : Node}
    (hr : ∀ field inner, node.field? field = some inner → GoesOn start (run inner)) :
    GoesOn start (conditional run node) := by
  rw [conditional_eq]
  refine ((branch_block node).ensures (of_evaluates fun _ => .branch node)).bind ?_
  rintro (_ | block) hb
  · exact pure _
  · obtain ⟨field, hf⟩ := hb block rfl
    exact hr field block hf

theorem statementWith (settings : Settings) {node : Node}
    (hr : ∀ field inner, node.field? field = some inner → GoesOn start (run inner)) :
    GoesOn start (statementWith settings run node) := by
  refine orAt ?_ _
  split
  · exact pure _
  · exact (bindParameters _ _).discard
  · exact set _ _
  · exact Ensures.discard (of_evaluates fun _ => .runScript _ _)
  · exact of_evaluates fun _ => .executeSql _
  · exact siardMetadata _ _
  · exact of_evaluates fun _ => .siardOutput _ _
  · exact forLoop hr
  · exact of_evaluates fun _ => .log _
  · exact of_evaluates fun _ => .assert _
  · exact conditional hr
  · exact fail rfl

theorem statements (settings : Settings) {children : List Child}
    (h : ∀ child ∈ children, GoesOn start (Run.statementWith settings run child.2)) :
    GoesOn start (statements settings run children) := by
  induction children with
  | nil => exact pure _
  | cons child rest ih =>
    refine (h child List.mem_cons_self).seq fun _ => ?_
    exact ih fun other ho => h other (List.mem_cons_of_mem child ho)

end

theorem block (settings : Settings) (node : Node) :
    GoesOn start (block settings node : Eval η κ Unit) := by
  unfold Run.block
  generalize node.height = height
  induction height generalizing node with
  | zero => exact pure ()
  | succ height ih =>
    exact statements settings fun child _ => statementWith settings fun _ inner _ => ih inner

theorem statement (settings : Settings) (node : Node) :
    GoesOn start (Run.statementWith settings (Run.block settings) node : Eval η κ Unit) :=
  statementWith settings fun _ inner _ => block settings inner

/-- A run goes on by steps from the first to the last. -/
theorem script (settings : Settings) (tree : Node) :
    GoesOn start (script settings tree : Eval η κ Unit) := by
  unfold Run.script
  split
  · exact block _ _
  · exact of_evaluates fun _ => .failAt (Q := fun _ => True) rfl

end GoesOn

/-- What is visited from a state that the run has come to is visited in such states. -/
def Visits.Along [Host η κ] (start : World η κ) (visits : Visits η κ) : Prop :=
  ∀ world, Steps start world → ∀ visit ∈ visits world, Steps start visit.world

namespace Visits.Along

variable [Host η κ] {start : World η κ}

theorem nil : Along start fun _ => [] := fun _ _ _ h => nomatch h

theorem append {first second : Visits η κ} (hf : Along start first) (hs : Along start second) :
    Along start fun world => first world ++ second world := by
  intro world hw visit hv
  rcases List.mem_append.1 hv with hv | hv
  · exact hf world hw visit hv
  · exact hs world hw visit hv

theorem after {x : Eval η κ α} {rest : α → Visits η κ} (hx : GoesOn start x)
    (hr : ∀ a, Along start (rest a)) : Along start (.after x rest) := by
  intro world hw visit hv
  have hb := (hx world hw).1
  unfold Visits.after at hv
  rcases he : x world with ⟨_ | a, between⟩
  · rw [he] at hv
    cases hv
  · rw [he] at hv hb
    exact hr a between hb visit hv

variable [Cursor κ] {settings : Settings}

theorem rounds {loop : Loop} {body : Visits η κ} (hb : Along start body) (rounds : Nat) :
    Along start (roundVisits settings loop body rounds) := by
  induction rounds with
  | zero => exact nil
  | succ rounds ih =>
    refine after (.nextRound loop) fun more => ?_
    cases more with
    | false => exact nil
    | true => exact append hb (after (.block settings _) fun _ => ih)

theorem inside {inner : Node → Visits η κ} (hi : ∀ node, Along start (inner node)) (node : Node) :
    Along start (insideVisits settings inner node) := by
  unfold insideVisits
  split
  · refine after (.of_evaluates fun _ => .loopHead node) fun loop => ?_
    refine after (.of_evaluates fun _ => .onRows _) fun _ world hw => ?_
    exact rounds (hi _) _ world hw
  · refine after (.of_evaluates fun _ => .branch node) fun chosen => ?_
    cases chosen with
    | none => exact nil
    | some block => exact hi block
  · exact nil

theorem statements {inner : Node → Visits η κ} (hi : ∀ node, Along start (inner node))
    (children : List Child) : Along start (statementVisits settings inner children) := by
  induction children with
  | nil => exact nil
  | cons child rest ih =>
    intro world hw visit hv
    rcases List.mem_append.1 hv with hv | hv
    · rcases List.mem_cons.1 hv with rfl | hv
      · exact hw
      · exact inside hi child.2 world hw visit hv
    · exact after (.statement settings _) (fun _ => ih) world hw visit hv

theorem visits (settings : Settings) (node : Node) : Along start (visits settings node) := by
  unfold Run.visits
  generalize node.height = height
  induction height generalizing node with
  | zero => exact nil
  | succ height ih => exact statements ih _

theorem script (settings : Settings) (tree : Node) : Along start (scriptVisits settings tree) := by
  unfold scriptVisits
  split
  · exact visits settings tree
  · exact nil

end Visits.Along

end ArchiveScript.Run
