import ArchiveScript.Proofs.Rows.Underway
import ArchiveScript.Proofs.Run.Progress
import ArchiveScript.Run.Rehearsal

/-! # Rounds of loops

A loop over the rows of a table makes one round for each of them, in their order. Before the body
runs, the variables of the loop are bound to the cells of the row. The body may do what it likes: it
may count the rows, compare them, try to go through them, and bind all names anew.
-/

namespace ArchiveScript

def LastAt (names : List String) (name : String) (position : Nat) : Prop :=
  names[position]? = some name ∧ name ∉ names.drop (position + 1)

/-- Names are bound to the cells of a row and all others are left alone. A name that stands at
several positions gets the last cell, and one whose cell has no value or is missing is unbound. -/
structure BindsRow (names : List String) (row : Row) (entries after : Dict Value) : Prop where
  named : ∀ name position, LastAt names name position →
    after.get? name = row[position]?.join.map .text
  other : ∀ name, name ∉ names → after.get? name = entries.get? name

theorem BindsRow.cons {name : String} {names : List String} {row : Row}
    {entries between after : Dict Value} (hb : BindsRow names row.tail between after)
    (hn : between.get? name = row.head?.join.map .text)
    (ho : ∀ other, other ≠ name → between.get? other = entries.get? other) :
    BindsRow (name :: names) row entries after where
  named other position := by
    rintro ⟨hp, hl⟩
    cases position with
    | zero =>
      obtain rfl : name = other := Option.some.inj hp
      rw [hb.other name hl, hn, List.head?_eq_getElem?]
    | succ position =>
      rw [hb.named other position ⟨hp, hl⟩, List.getElem?_tail]
  other other hm := by
    rw [List.mem_cons, not_or] at hm
    rw [hb.other other hm.2, ho other hm.1]

def Scope.Inside (outer : List Frame) (scope : Scope) : Prop :=
  ∃ entries : Dict Value, scope = ⟨.bindings entries, outer⟩

namespace Run

open Eval

variable {η κ : Type}

theorem bindCells_cons (name : String) (names : List String) (row : Row) :
    (bindCells (name :: names) row : Eval η κ Unit) =
      (match row.head?.join with
        | some cell => bind name (.text cell)
        | none => unbind name) >>= fun _ => bindCells names row.tail := by
  rcases row with _ | ⟨_ | _, _⟩ <;> rfl

section

variable {outer : List Frame} {world : World η κ} {entries : Dict Value}

theorem bindCell_run (hw : world.scope = ⟨.bindings entries, outer⟩) (name : String)
    (cell : Option String) :
    ∃ after, (match cell with
        | some cell => bind name (.text cell)
        | none => unbind name : Eval η κ Unit) world =
          (.ok (), { world with scope := ⟨.bindings after, outer⟩ }) ∧
      after.get? name = cell.map .text ∧
      ∀ other, other ≠ name → after.get? other = entries.get? other := by
  cases cell with
  | some cell =>
    refine ⟨_, bind_run hw name (.text cell), ?_, ?_⟩
    · simp
    · intro other ho
      simp [ho]
  | none =>
    refine ⟨_, unbind_run hw name, ?_, ?_⟩
    · simp
    · intro other ho
      simp [ho]

theorem bindCells_run {names : List String} {row : Row}
    (hw : world.scope = ⟨.bindings entries, outer⟩) :
    ∃ after, bindCells names row world =
        (.ok (), { world with scope := ⟨.bindings after, outer⟩ }) ∧
      BindsRow names row entries after := by
  induction names generalizing row world entries with
  | nil =>
    refine ⟨entries, ?_, nofun, fun _ _ => rfl⟩
    rw [← hw]
    rfl
  | cons name names ih =>
    obtain ⟨between, hr, hn, ho⟩ := bindCell_run hw name row.head?.join
    obtain ⟨after, hs, hb⟩ := @ih { world with scope := ⟨.bindings between, outer⟩ } between
      row.tail rfl
    refine ⟨after, ?_, hb.cons hn ho⟩
    rw [bindCells_cons, run_bind, hr]
    exact hs

end

section

variable [Host η κ] {outer : List Frame} {start now next : World η κ}

theorem Step.inside_frames (h : Step now next) (hs : now.scope.Inside outer) :
    next.scope.Inside outer := by
  cases h with
  | inside | call | connect => exact hs
  | bind _ hb =>
    obtain ⟨entries, he⟩ := hs
    rw [he] at hb
    cases hb
    exact ⟨_, rfl⟩
  | unbind hb =>
    obtain ⟨entries, he⟩ := hs
    rw [he] at hb
    cases hb
    exact ⟨_, rfl⟩

theorem Steps.inside_frames (h : Steps start now) (hs : start.scope.Inside outer) :
    now.scope.Inside outer := by
  induction h with
  | refl => exact hs
  | tail _ hn ih => exact hn.inside_frames ih

end

variable [Cursor κ] {embed : TableCursor → κ}

/-- What a run does leaves a traversal under way where it is. -/
theorem Inherits.underway (he : Embeds embed) (id : RowsId) (content rest : List Row) :
    Admits (Inherits fun world : World η κ => world.rows.Underway embed id content rest) where
  toComposes := Inherits.composes _
  outside _ _ _ _ h := h
  scope _ _ h := h
  add _ rows _ h := h.add rows
  size _ other h := h.size he other
  equal _ left right h := h.equal he left right
  locking {x} other hx := by
    refine .of_after fun world h => ?_
    rw [Eval.locking, run_bind, Eval.onRows]
    by_cases hne : other = id
    · subst hne
      obtain ⟨after, ho, hu⟩ := h.lock_self he
      rw [ho]
      exact hu
    · have hu := h.lock_ne hne
      generalize world.rows.lock other = passed at hu ⊢
      rcases passed with ⟨_ | _, locked⟩
      · exact hu
      · have hm := hx fun world h => h.next_ne hne
        exact (hm.after { world with rows := locked } hu).free_ne hne

variable [Host η κ] {world : World η κ} {outer : List Frame}

theorem block_underway (he : Embeds embed) (settings : Settings) (node : Node) {id : RowsId}
    {content rest : List Row} (h : world.rows.Underway embed id content rest) :
    (block settings node world).2.rows.Underway embed id content rest :=
  ((Inherits.underway he id content rest).block settings (fun _ _ h => h) node).after world h

theorem block_inside (settings : Settings) (node : Node) (h : world.scope.Inside outer) :
    (block settings node world).2.scope.Inside outer :=
  (GoesOn.block settings node world .refl).1.inside_frames h

variable (settings : Settings)

structure Pass (η κ : Type) where
  /-- The state that the round begins in. -/
  prior : World η κ
  row : Row
  /-- The state that the body begins in. -/
  before : World η κ
  outcome : Except Failure Unit
  after : World η κ

/-- From a state in which its rows are locked, a loop makes these rounds and ends. There is no
bound on their number. -/
inductive Rounds (loop : Loop) :
    World η κ → List (Pass η κ) → Except Failure Unit → World η κ → Prop
  | ended {world after : World η κ} (hn : onRows (·.next loop.rows) world = (.ok none, after)) :
      Rounds loop world [] (.ok ()) after
  | failed {world between before after : World η κ} {row : Row} {failure : Failure}
      (hn : onRows (·.next loop.rows) world = (.ok (some row), between))
      (hc : bindCells loop.names row between = (.ok (), before))
      (hb : block settings loop.body before = (.error failure, after)) :
      Rounds loop world [⟨world, row, before, .error failure, after⟩] (.error failure) after
  | passed {world between before after ended : World η κ} {row : Row} {passes : List (Pass η κ)}
      {outcome : Except Failure Unit}
      (hn : onRows (·.next loop.rows) world = (.ok (some row), between))
      (hc : bindCells loop.names row between = (.ok (), before))
      (hb : block settings loop.body before = (.ok (), after))
      (hr : Rounds loop after passes outcome ended) :
      Rounds loop world (⟨world, row, before, .ok (), after⟩ :: passes) outcome ended

variable {settings} {loop : Loop} {after : World η κ} {passes : List (Pass η κ)}
  {outcome : Except Failure Unit} {failure : Failure}

namespace Rounds

/-- With enough rounds, the loop ends as it does without a bound. -/
theorem forRows_eq (h : Rounds settings loop world passes outcome after) {rounds : Nat}
    (hn : passes.length < rounds) :
    forRows loop.rows loop.names (block settings loop.body) rounds world = (outcome, after) := by
  induction h generalizing rounds with
  | ended hnext =>
    cases rounds with
    | zero => cases hn
    | succ rounds =>
      rw [forRows, run_bind, hnext]
      rfl
  | failed hnext hc hb =>
    cases rounds with
    | zero => cases hn
    | succ rounds =>
      rw [forRows, run_bind, hnext]
      dsimp only
      rw [run_bind, hc]
      dsimp only
      rw [run_bind, hb]
  | passed hnext hc hb _ ih =>
    cases rounds with
    | zero => cases hn
    | succ rounds =>
      rw [forRows, run_bind, hnext]
      dsimp only
      rw [run_bind, hc]
      dsimp only
      rw [run_bind, hb]
      exact ih (Nat.lt_of_succ_lt_succ hn)

theorem outcome_of_error (h : Rounds settings loop world passes outcome after) {number : Nat}
    {pass : Pass η κ} (hp : passes[number]? = some pass) (hf : pass.outcome = .error failure) :
    passes.length = number + 1 ∧ outcome = .error failure := by
  induction h generalizing number with
  | ended => cases hp
  | failed =>
    cases number with
    | zero =>
      cases hp
      exact ⟨rfl, hf⟩
    | succ number => cases hp
  | passed _ _ _ _ ih =>
    cases number with
    | zero =>
      cases hp
      cases hf
    | succ number =>
      obtain ⟨hl, ho⟩ := ih hp
      exact ⟨congrArg Nat.succ hl, ho⟩

/-- The loop fails only if the body does in the last round. -/
theorem last_of_error (h : Rounds settings loop world passes (.error failure) after) :
    ∃ pass, passes.getLast? = some pass ∧ pass.outcome = .error failure := by
  generalize ho : Except.error failure = outcome at h
  induction h with
  | ended => cases ho
  | failed => exact ⟨_, rfl, rfl⟩
  | passed _ _ _ _ ih =>
    obtain ⟨pass, hl, hf⟩ := ih ho
    refine ⟨pass, ?_, hf⟩
    rw [List.getLast?_cons, hl]
    rfl

end Rounds

/-- The variables of the loop are bound to the cells of the row when the body begins, and nothing
else has changed in the scope since the round began. -/
def Pass.BindsRow (loop : Loop) (outer : List Frame) (pass : Pass η κ) : Prop :=
  ∃ entries after, pass.prior.scope = ⟨.bindings entries, outer⟩ ∧
    pass.before.scope = ⟨.bindings after, outer⟩ ∧
    ArchiveScript.BindsRow loop.names pass.row entries after

omit [Host η κ] in
/-- While a row is to come, the loop takes it into its variables. -/
theorem round_begins (he : Embeds embed) (loop : Loop) {row : Row} {content rest : List Row}
    (hu : world.rows.Underway embed loop.rows content (row :: rest)) {entries : Dict Value}
    (hw : world.scope = ⟨.bindings entries, outer⟩) :
    ∃ between before bound, onRows (·.next loop.rows) world = (.ok (some row), between) ∧
      bindCells loop.names row between = (.ok (), before) ∧
      before.scope = ⟨.bindings bound, outer⟩ ∧ BindsRow loop.names row entries bound ∧
      before.rows.Underway embed loop.rows content rest := by
  obtain ⟨rows, hn, hu⟩ := hu.next he
  have hnext : onRows (·.next loop.rows) world = (.ok (some row), { world with rows }) := by
    rw [onRows, hn]
  obtain ⟨bound, hc, hb⟩ := @bindCells_run η κ outer { world with rows } entries loop.names row hw
  exact ⟨_, _, bound, hnext, hc, rfl, hb, hu⟩

/-- A loop comes to an end from any point of a traversal of its rows. -/
theorem exists_rounds (he : Embeds embed) (settings : Settings) (loop : Loop)
    {content rest : List Row} (hu : world.rows.Underway embed loop.rows content rest)
    (hs : world.scope.Inside outer) :
    ∃ passes outcome after, Rounds settings loop world passes outcome after ∧
      passes.map Pass.row <+: rest ∧ (outcome = .ok () → passes.length = rest.length) ∧
      ∀ pass ∈ passes, pass.BindsRow loop outer := by
  induction rest generalizing world with
  | nil =>
    obtain ⟨rows, hn⟩ := hu.next_end he
    have hnext : onRows (·.next loop.rows) world = (.ok none, { world with rows }) := by
      rw [onRows, hn]
    exact ⟨[], _, _, .ended hnext, List.nil_prefix, fun _ => rfl, List.forall_mem_nil _⟩
  | cons row rest ih =>
    obtain ⟨entries, hw⟩ := hs
    obtain ⟨between, before, bound, hn, hc, hbound, hb, hunder⟩ := round_begins he loop hu hw
    have hpass (outcome : Except Failure Unit) (after : World η κ) :
        Pass.BindsRow loop outer ⟨world, row, before, outcome, after⟩ :=
      ⟨entries, bound, hw, hbound, hb⟩
    -- The body leaves the rest of the rows and the frames as they are, which is all that the
    -- rounds after it need.
    replace hunder := block_underway he settings loop.body hunder
    have hinside := block_inside settings loop.body ⟨bound, hbound⟩
    rcases hx : block settings loop.body before with ⟨failure | _, after⟩
    · refine ⟨_, _, _, .failed hn hc hx, ⟨rest, rfl⟩, ?_, ?_⟩
      · intro ho
        cases ho
      · intro pass hm
        obtain rfl := List.mem_singleton.1 hm
        exact hpass _ _
    · rw [hx] at hunder hinside
      obtain ⟨passes, outcome, ended, hr, hp, hl, hb⟩ := ih hunder hinside
      refine ⟨_, _, _, .passed hn hc hx hr, ?_, ?_, ?_⟩
      · exact (List.cons_prefix_cons ..).2 ⟨rfl, hp⟩
      · intro ho
        exact congrArg Nat.succ (hl ho)
      · exact List.forall_mem_cons.2 ⟨hpass _ _, hb⟩

theorem forLoop_run {run : Node → Eval η κ Unit} {node : Node} (hk : node.kind = .forLoop)
    {begun : World η κ} {locked : RowsStore κ} (hl : loopHead node world = (.ok loop, begun))
    (ho : begun.rows.lock loop.rows = (.ok (), locked))
    (hr : forRows loop.rows loop.names (run loop.body) (locked.roundLimit loop.rows)
      { begun with rows := locked } = (outcome, after)) :
    statementWith settings run node world =
      (outcome.mapError (·.orPlaced node.span),
        { after with rows := after.rows.free loop.rows }) := by
  rw [statementWith, hk]
  dsimp only
  rw [orAt, forLoop_eq, run_bind, hl]
  dsimp only
  rw [locking, run_bind, onRows, ho]
  dsimp only
  rw [run_get, hr]
  cases outcome <;> rfl

/-- A loop over rows of a table that nothing has locked comes to an end, whatever its body does. It
begins no more rounds than there are rows, and in the order of the rows. Each round binds the
variables of the loop to the cells of its row and changes nothing else in the scope before the body
begins. If no body fails there is a round for each row, and otherwise the loop ends with the round
whose body fails. -/
theorem loop_runs_each_row (he : Embeds embed) (settings : Settings) {node : Node}
    (hk : node.kind = .forLoop) {begun : World η κ} {loop : Loop}
    (hl : loopHead node world = (.ok loop, begun)) {rows : Rows TableCursor}
    (hr : begun.rows.get? loop.rows = some (rows.map embed)) (hu : rows.locked = false)
    {entries : Dict Value} (hs : world.scope = ⟨.bindings entries, outer⟩) :
    ∃ passes outcome after,
      Rounds settings loop { begun with rows := (begun.rows.lock loop.rows).2 }
        passes outcome after ∧
      statementWith settings (block settings) node world =
        (outcome.mapError (·.orPlaced node.span),
          { after with rows := after.rows.free loop.rows }) ∧
      (outcome = .ok () → passes.length = rows.view.content.length) ∧
      (∀ failure, outcome = .error failure →
        ∃ pass, passes.getLast? = some pass ∧ pass.outcome = .error failure) ∧
      ∀ number pass, passes[number]? = some pass →
        rows.view.content[number]? = some pass.row ∧ pass.BindsRow loop outer ∧
        ∀ failure, pass.outcome = .error failure →
          passes.length = number + 1 ∧ outcome = .error failure := by
  have hscope : begun.scope = world.scope := ((Evaluates.loopHead node).ok hl).1
  obtain ⟨locked, hlock, hunder⟩ := RowsStore.Underway.lock he hr hu
  obtain ⟨passes, outcome, after, hrounds, hp, hall, hb⟩ :=
    @exists_rounds η κ _ embed _ { begun with rows := locked } outer he settings loop _ _ hunder
      ⟨entries, hscope.trans hs⟩
  have hrun : forRows loop.rows loop.names (block settings loop.body)
      (locked.roundLimit loop.rows) { begun with rows := locked } = (outcome, after) := by
    apply hrounds.forRows_eq
    have hlength := hp.length_le
    rw [List.length_map] at hlength
    exact Nat.lt_of_le_of_lt hlength (hunder.length_lt_roundLimit he)
  rw [hlock]
  refine ⟨passes, outcome, after, hrounds, forLoop_run hk hl hlock hrun, hall, ?_, ?_⟩
  · rintro failure rfl
    exact hrounds.last_of_error
  · intro number pass hpass
    refine ⟨?_, hb pass (List.mem_of_getElem? hpass), fun _ => hrounds.outcome_of_error hpass⟩
    obtain ⟨tail, ht⟩ := hp
    have hlt : number < (passes.map Pass.row).length := by
      rw [List.length_map]
      exact (List.getElem?_eq_some_iff.1 hpass).1
    rw [← ht, List.getElem?_append_left hlt, List.getElem?_map, hpass]
    rfl

def countingBody : Node :=
  .mk .statementBlock (.point 0) "" [(none, .mk .set (.point 0) ""
    [(some .name, .leaf .identifier 0 ['y']),
      (some .value, .mk .dotExpression (.point 0) ""
        [(some .left, .mk .variableInstance (.point 0) "" [(none, .leaf .identifier 0 ['h'])]),
          (some .right, .leaf .identifier 0 ['s', 'i', 'z', 'e'])])])]

def countingLoop : Node :=
  .mk .forLoop (.point 0) ""
    [(some .loopVariables, .mk .forVariables (.point 0) ""
        [(none, .leaf .identifier 0 ['x']), (none, .leaf .identifier 0 ['y']),
          (none, .leaf .identifier 0 ['x'])]),
      (some .rows, .mk .variableInstance (.point 0) "" [(none, .leaf .identifier 0 ['h'])]),
      (some .body, countingBody)]

/-- The answer to a query, read to its end. The second row is short, and the first one has a cell
without a value. -/
def readToEnd : Rows TableCursor :=
  ⟨false, .live ⟨3, #[[some "a", none, some "b"], [some "c", some "d"]], 3⟩, none⟩

def countingWorld : World Rehearsal (FaultyCursor TableCursor) where
  host := {}
  scope := ⟨.bindings (.ofList [("h", .rows 0)]), []⟩
  rows := ⟨#[readToEnd.map (⟨·, none⟩)]⟩

/-- There are two rounds, although the rows are counted for the first time in the first of them. -/
theorem loop_runs_each_row_counted :
    let settings : Settings := ⟨.empty, "/work"⟩
    let loop : Loop := ⟨["x", "y", "x"], 0, countingBody⟩
    loopHead countingLoop countingWorld = (.ok loop, countingWorld) ∧
      countingWorld.rows.get? 0 = some (readToEnd.map (⟨·, none⟩)) ∧
      ∃ passes after,
        Rounds settings loop { countingWorld with rows := (countingWorld.rows.lock 0).2 } passes
          (.ok ()) after ∧
        passes.length = 2 ∧
        ∀ pass, passes[1]? = some pass →
          pass.row = [some "c", some "d", none] ∧ pass.BindsRow loop [] := by
  intro settings loop
  have hl : loopHead countingLoop countingWorld = (.ok loop, countingWorld) := rfl
  have hg : countingWorld.rows.get? 0 = some (readToEnd.map (⟨·, none⟩)) := rfl
  have hok : (statementWith settings (block settings) countingLoop countingWorld).1.toBool =
      true := by decide +kernel
  obtain ⟨passes, outcome, after, hr, hrun, hall, -, hpasses⟩ :=
    loop_runs_each_row FaultyCursor.embeds settings rfl hl hg rfl rfl
  rw [hrun] at hok
  cases outcome with
  | error failure => cases hok
  | ok =>
    refine ⟨hl, hg, passes, after, hr, hall rfl, ?_⟩
    intro pass hp
    obtain ⟨hrow, hb, -⟩ := hpasses 1 pass hp
    exact ⟨(Option.some.inj hrow).symm, hb⟩

end Run

end ArchiveScript
