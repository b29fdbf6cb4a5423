import ArchiveScript.Proofs.Run.SafeValues
import ArchiveScript.Proofs.Run.Visits

/-! # The steps of a run

A run goes on by steps of a few sorts. It looks at rows, declares something, binds and unbinds
variables, and calls the host. What can be bound is written in the script, is held by a variable,
or is a connection that was opened; and what is asked of a connection is asked of one that a
variable holds.
-/

namespace ArchiveScript

def Event.connection? : Event → Option Connection
  | update connection _ _ | query connection _ _ | extract connection _ => some connection
  | adjust _ _ connection => some connection
  | _ => none

def Event.isOpened : Event → Bool
  | opened _ => true
  | _ => false

/-- The cause is a parameter of a command in the place of a value. -/
def Cause.refusesParameter : Cause → Bool
  | parameterInSql _ => true
  | wrongKind _ _ actual => actual == .parameter
  | cannotCompare left right => left == .parameter || right == .parameter
  | operatorNotSupported _ kind => kind == .parameter
  | interpolationNotScalar actual => actual == .parameter
  | _ => false

/-- There is one frame, whose variables hold values with `P`. -/
def Scope.Holds (P : Value → Prop) (scope : Scope) : Prop :=
  ∃ entries : Dict Value, scope = ⟨.bindings entries, []⟩ ∧
    ∀ name value, entries.get? name = some value → P value

abbrev Scope.Plain (scope : Scope) : Prop := scope.Holds (·.kind ≠ .parameter)

namespace Scope.Holds

variable {P : Value → Prop} {scope after : Scope} {name : String} {value : Value}

theorem root : Scope.root.Holds P := ⟨.empty, rfl, fun _ _ h => nomatch h⟩

theorem resolve (h : scope.Holds P) (hr : scope.resolve name = some value) : P value := by
  obtain ⟨entries, rfl, hv⟩ := h
  refine hv name value ?_
  rw [← hr]
  simp only [Scope.resolve, frames, List.findSome?_cons, List.findSome?_nil, Frame.get?]
  cases entries.get? name <;> rfl

theorem bind (h : scope.Holds P) (hv : P value) (hs : scope.bind name value = .ok after) :
    after.Holds P := by
  obtain ⟨entries, rfl, he⟩ := h
  obtain rfl := Except.ok.inj hs
  refine ⟨_, rfl, fun other found hf => ?_⟩
  rw [Dict.get?_insert] at hf
  split at hf
  · exact Option.some.inj hf ▸ hv
  · exact he other found hf

theorem unbind (h : scope.Holds P) (hs : scope.unbind name = .ok after) : after.Holds P := by
  obtain ⟨entries, rfl, he⟩ := h
  obtain rfl := Except.ok.inj hs
  refine ⟨_, rfl, fun other found hf => ?_⟩
  rw [Dict.get?_erase] at hf
  split at hf
  · cases hf
  · exact he other found hf

theorem mono {Q : Value → Prop} (h : scope.Holds P) (hq : ∀ value, P value → Q value) :
    scope.Holds Q := by
  obtain ⟨entries, rfl, he⟩ := h
  exact ⟨entries, rfl, fun name value hv => hq value (he name value hv)⟩

end Scope.Holds

theorem Template.refusesParameter_pushValue {template : Template} {value : Value} {safe : Bool}
    {failure : Failure} (h : template.pushValue value safe = .error failure)
    (hv : template.mode = .sql → value.kind ≠ .parameter) :
    failure.cause.refusesParameter = false := by
  unfold pushValue at h
  split at h
  · cases h
    rfl
  · dsimp only at h
    split at h
    · cases h
      rfl
    · cases h
      rfl
    · split at h
      · rename_i hb
        simp only [Bool.and_eq_true, beq_iff_eq] at hb
        exact absurd rfl (hv hb.2)
      · cases h
    · cases h
    · cases h

namespace Run

open Eval

variable {η κ α β : Type}

/-- A value that needs no source, or that a variable of the scope holds. -/
inductive Known (scope : Scope) : Value → Prop
  | text (s : String) : Known scope (.text s)
  | integer (n : Int) : Known scope (.integer n)
  | rows (id : RowsId) : Known scope (.rows id)
  | held {name : String} {value : Value} (h : scope.resolve name = some value) : Known scope value

def Given (world : World η κ) (value : Value) : Prop :=
  Known world.scope value ∨ ∃ connection, value = .connection connection ∧
    .opened connection ∈ world.trace

def Held (scope : Scope) (connection : Connection) : Prop :=
  ∃ name, scope.resolve name = some (.connection connection)

/-- What can happen next in a run. -/
inductive Step [Host η κ] : World η κ → World η κ → Prop
  | inside (world : World η κ) (rows : RowsStore κ) (ledger : Ledger) :
      Step world { world with rows, ledger }
  | bind {world : World η κ} {name : String} {value : Value} {scope : Scope}
      (hv : Given world value) (hs : world.scope.bind name value = .ok scope) :
      Step world { world with scope }
  | unbind {world : World η κ} {name : String} {scope : Scope}
      (hs : world.scope.unbind name = .ok scope) : Step world { world with scope }
  | call {world : World η κ} {event : Event} (host : η) (ho : event.isOpened = false)
      (hu : ∀ connection, event.connection? = some connection → Held world.scope connection) :
      Step world (called world [event] host)
  | connect {world : World η κ} {url : String} {properties : Dict String} {link : Link} {host : η}
      (hc : Host.connect url properties world.host = (.ok link, host)) :
      Step world { called world [.connect url properties,
        .opened ⟨world.opened, link.url, link.properties⟩] host with opened := world.opened + 1 }

/-- The states that a run comes to. -/
inductive Steps [Host η κ] (start : World η κ) : World η κ → Prop
  | refl : Steps start start
  | tail {now next : World η κ} (h : Steps start now) (hs : Step now next) : Steps start next

def At [Host η κ] (start : World η κ) (scope : Scope) (now : World η κ) : Prop :=
  Steps start now ∧ now.scope = scope

/-- If no variable holds a parameter, none is refused. -/
def Fair (scope : Scope) (failure : Failure) : Prop :=
  scope.Plain → failure.cause.refusesParameter = false

/-- The part goes on by steps and leaves the variables alone, and its value satisfies `Q`. -/
abbrev Evaluates [Host η κ] (start : World η κ) (scope : Scope) (Q : α → Prop)
    (eval : Eval η κ α) : Prop :=
  Ensures (At start scope) Q (Fair scope) eval

theorem Fair.of_cause {scope : Scope} {failure : Failure}
    (h : failure.cause.refusesParameter = false) : Fair scope failure := fun _ => h

theorem Fair.placed {scope : Scope} {failure : Failure} (h : Fair scope failure) (span : Span) :
    Fair scope (failure.placed span) := h

theorem Fair.orPlaced {scope : Scope} {failure : Failure} (h : Fair scope failure) (span : Span) :
    Fair scope (failure.orPlaced span) := by
  unfold Failure.orPlaced
  split
  · exact h
  · exact h

theorem Known.kind_ne {scope : Scope} {value : Value} (h : Known scope value)
    (hp : scope.Plain) : value.kind ≠ .parameter := by
  cases h with
  | held hr => exact hp.resolve hr
  | _ => nofun

namespace Evaluates

variable [Host η κ] {start : World η κ} {scope look : Scope} {Q : α → Prop}

/-- What is known of a value holds wherever the part is evaluated. -/
theorem ok {x : Eval η κ α} {world after : World η κ} {a : α}
    (h : Evaluates world world.scope Q x) (hx : x world = (.ok a, after)) :
    after.scope = world.scope ∧ Q a := by
  have hw := h world ⟨.refl, rfl⟩
  rw [hx] at hw
  exact ⟨hw.1.2, hw.2⟩

theorem fail {cause : Cause} (h : cause.refusesParameter = false) :
    Evaluates start scope Q (fail cause) := Ensures.fail (.of_cause h)

theorem failAt {span : Span} {cause : Cause} (h : cause.refusesParameter = false) :
    Evaluates start scope Q (failAt span cause) := Ensures.failAt (.of_cause h)

theorem orAt {x : Eval η κ α} (h : Evaluates start scope Q x) (span : Span) :
    Evaluates start scope Q (orAt span x) :=
  Ensures.orAt h fun _ hf => hf.orPlaced span

theorem placed {x : Eval η κ α} (h : Evaluates start scope Q x) (span : Span) :
    Evaluates start scope Q (placed span x) :=
  Ensures.placed h fun _ hf => hf.placed span

theorem need (node : Node) (field : Field) :
    Evaluates start scope (fun _ => True) (node.need field) :=
  Ensures.need (fun _ _ => trivial) fun _ => .of_cause rfl

theorem identifier (node : Node) : Evaluates start scope (fun _ => True) node.identifier :=
  Ensures.identifier (fun _ => trivial) fun _ => .of_cause rfl

theorem onRows (operation : RowsStore κ → Except RowsError α × RowsStore κ) :
    Evaluates start scope (fun _ => True) (onRows operation : Eval η κ α) :=
  Ensures.onRows (fun world hw => ⟨hw.1.tail (.inside world _ _), hw.2⟩)
    fun error => .of_cause (by cases error <;> rfl)

theorem addRows (rows : Rows κ) :
    Evaluates start scope (fun _ => True) (addRows rows : Eval η κ RowsId) :=
  fun world hw => ⟨⟨hw.1.tail (.inside world _ _), hw.2⟩, trivial⟩

theorem onLedger (operation : Ledger → Ledger) :
    Evaluates start scope (fun _ => True) (onLedger operation : Eval η κ Unit) :=
  fun world hw => ⟨⟨hw.1.tail (.inside world _ _), hw.2⟩, trivial⟩

theorem call {event : Event} {cause : String → Cause} {act : Act η α}
    (ho : event.isOpened = false)
    (hu : ∀ connection, event.connection? = some connection → Held scope connection)
    (he : ∀ message, (cause message).refusesParameter = false) :
    Evaluates start scope (fun _ => True) (call event cause act : Eval η κ α) := by
  rintro world ⟨hs, rfl⟩
  have hc (host : η) : Steps start (called world [event] host) := hs.tail (.call host ho hu)
  rw [call_run]
  rcases act world.host with ⟨error | a, host⟩
  · exact ⟨⟨hc host, rfl⟩, .of_cause (he _)⟩
  · exact ⟨⟨hc host, rfl⟩, trivial⟩

theorem record {event : Event} (ho : event.isOpened = false) (hu : event.connection? = none) :
    Evaluates start scope (fun _ => True) (record event : Eval η κ Unit) := by
  rintro world ⟨hs, rfl⟩
  rw [record_run]
  exact ⟨⟨hs.tail (.call _ ho fun _ h => nomatch hu.symm.trans h), rfl⟩, trivial⟩

/-! ### Expressions -/

theorem lookUp (name : String) : Evaluates start scope (Known look) (lookUp look name) := by
  unfold Run.lookUp
  split
  · rename_i value hr
    exact Ensures.pure (.held hr)
  · exact fail rfl

theorem interpolated {inner : Node → Eval η κ Value}
    (hi : ∀ node, Evaluates start scope (Known look) (inner node)) (node : Node) :
    Evaluates start scope (Known look) (interpolated inner node) := by
  unfold Run.interpolated
  split
  · exact hi _
  · exact fail rfl

theorem stringPieces {inner : Node → Eval η κ Value}
    (hi : ∀ node, Evaluates start scope (Known look) (inner node)) (pieces : List Child) :
    Evaluates start scope (fun _ => True) (stringPieces inner pieces) := by
  induction pieces with
  | nil => exact Ensures.pure trivial
  | cons piece rest ih =>
    refine Ensures.seq ?_ fun _ => ih.seq fun _ => Ensures.pure trivial
    unfold stringPiece
    split
    · exact Ensures.pure trivial
    · split
      · exact Ensures.pure trivial
      · exact fail rfl
    · refine (interpolated hi _).bind fun value _ => ?_
      cases value
      case rows | connection => exact failAt rfl
      all_goals exact Ensures.pure trivial
    · exact fail rfl

theorem ofEquality {equal : Bool} {operator : String} {kind : ValueKind} (hk : kind ≠ .parameter) :
    Evaluates start scope (fun _ => True) (ofEquality equal operator kind : Eval η κ Bool) := by
  unfold Run.ofEquality
  split
  · exact Ensures.pure trivial
  · exact Ensures.pure trivial
  · exact fail (by simpa [Cause.refusesParameter] using hk)

variable [Cursor κ]

theorem operate (value : Value) (operation : String) :
    Evaluates start scope (Known look) (operate value operation : Eval η κ Value) := by
  unfold Run.operate
  split
  · exact Ensures.pure (.text _)
  · split
    · exact Ensures.pure (.integer _)
    · exact fail rfl
  · exact (addRows _).bind fun id _ => Ensures.pure (.rows id)
  · exact Ensures.pure (.text _)
  · exact (onRows _).bind fun n _ => Ensures.pure (.integer _)
  · exact fail rfl

theorem basicWith {inner : Node → Eval η κ Value}
    (hi : ∀ node, Evaluates start scope (Known look) (inner node)) (node : Node) :
    Evaluates start scope (Known look) (basicWith inner look node) := by
  unfold Run.basicWith
  split
  · exact orAt ((stringPieces hi _).bind fun _ _ => Ensures.pure (.text _)) _
  · split
    · exact Ensures.pure (.integer _)
    · exact failAt rfl
  · split
    · exact fail rfl
    · exact (identifier _).seq fun name => (lookUp name).orAt _
  · refine orAt ((need _ _).seq fun _ => (hi _).bind fun value _ => ?_) _
    exact (need _ _).seq fun _ => (identifier _).seq fun _ => operate _ _
  · exact failAt rfl

/-- An expression comes to a value that needs no source, or to that of a variable. -/
theorem basic (node : Node) :
    Evaluates start scope (Known look) (basic look node : Eval η κ Value) := by
  unfold Run.basic
  generalize node.height = height
  induction height generalizing node with
  | zero => exact failAt rfl
  | succ height ih => exact basicWith ih node

theorem compareValues {left right : Value} (hl : Known scope left) (hr : Known scope right)
    (operator : String) :
    Evaluates start scope (fun _ => True) (compareValues left right operator : Eval η κ Bool) := by
  unfold Run.compareValues
  split
  · split
    · exact Ensures.pure trivial
    · exact fail rfl
  · exact ofEquality nofun
  · split
    · exact (onRows _).seq fun _ => ofEquality nofun
    · exact fail rfl
  · refine Ensures.fail fun hp => ?_
    have hl' := hl.kind_ne hp
    have hr' := hr.kind_ne hp
    simp [Cause.refusesParameter, hl', hr']

theorem comparison (node : Node) :
    Evaluates start scope (fun _ => True) (comparison scope node : Eval η κ Bool) := by
  refine (need _ _).seq fun _ => (basic _).bind fun left hl => (need _ _).seq fun _ => ?_
  exact (need _ _).seq fun _ => (basic _).bind fun right hr => compareValues hl hr _

theorem expect {what : String} {allowed : List ValueKind} {value : Value} (hv : Known scope value) :
    Fair scope ⟨.wrongKind what allowed value.kind, none⟩ := fun hp => by
  simpa [Cause.refusesParameter] using hv.kind_ne hp

/-- Where values become arguments, they are those of the variables of the run. -/
theorem fillPiece {mode : TemplateMode} (hm : mode = .sql → look = scope) {template : Template}
    (ht : template.mode = mode) (piece : Node) :
    Evaluates start scope (·.mode = mode)
      (fillPiece look template piece : Eval η κ Template) := by
  have hv (safe : Bool) : Evaluates start scope (·.mode = mode)
      (fillValue look template piece safe : Eval η κ Template) := by
    refine (interpolated basic piece).bind fun value hk => placed (Ensures.settle ?_ ?_) _
    · exact fun filled hf => (Template.mode_pushValue hf).trans ht
    · intro failure hf hp
      refine Template.refusesParameter_pushValue hf fun hs => ?_
      rw [hm (ht.symm.trans hs)] at hk
      exact hk.kind_ne hp
  unfold Run.fillPiece
  split
  · exact Ensures.pure ((Template.mode_pushLiteral _).trans ht)
  · exact hv false
  · exact hv true
  · exact failAt rfl

theorem fillPieces {mode : TemplateMode} (hm : mode = .sql → look = scope) {template : Template}
    (ht : template.mode = mode) (pieces : List Child) :
    Evaluates start scope (fun _ => True)
      (fillPieces look template pieces : Eval η κ Template) := by
  induction pieces generalizing template with
  | nil => exact Ensures.pure trivial
  | cons piece rest ih =>
    rw [fillPieces_cons]
    exact (fillPiece hm ht piece.2).bind fun _ hf => ih hf

theorem raw {mode : TemplateMode} (hm : mode = .sql → look = scope) (node : Node) :
    Evaluates start scope (fun _ => True) (raw look mode node : Eval η κ Filled) := by
  unfold Run.raw
  split
  · exact (fillPieces hm rfl _).seq fun _ => Ensures.pure trivial
  · exact failAt rfl

theorem basicText (what : String) (node : Node) :
    Evaluates start scope (fun _ => True) (basicText scope what node : Eval η κ String) := by
  refine (basic _).bind fun value hv => orAt (Ensures.settle (fun _ _ => trivial) ?_) _
  intro failure hf
  cases value <;> cases hf <;> exact expect hv

theorem text (what : String) (node : Node) :
    Evaluates start scope (fun _ => True) (text scope what node : Eval η κ String) := by
  unfold Run.text
  split
  · exact (raw (fun _ => rfl) _).seq fun _ => Ensures.pure trivial
  · exact basicText _ _

/-! ### What is done outside -/

omit [Cursor κ] in
theorem connectionOf (node : Node) :
    Evaluates start scope (Held scope) (connectionOf scope node : Eval η κ Connection) := by
  refine (need _ _).seq fun nameNode => (identifier _).seq fun name => ?_
  cases hr : scope.resolve name with
  | none => exact fail rfl
  | some value =>
    refine placed (Ensures.settle ?_ ?_) _
    · intro connection hc
      cases value <;> cases hc
      exact ⟨name, hr⟩
    · intro failure hf
      cases value <;> cases hf <;> exact expect (.held hr)

theorem propertiesFrom (properties : Dict String) (pairs : List Child) :
    Evaluates start scope (fun _ => True)
      (propertiesFrom scope properties pairs : Eval η κ (Dict String)) := by
  induction pairs generalizing properties with
  | nil => exact Ensures.pure trivial
  | cons pair rest ih =>
    refine (need _ _).seq fun _ => (identifier _).seq fun _ => (need _ _).seq fun _ => ?_
    exact (orAt (text _ _) _).seq fun _ => ih _

theorem runScript (settings : Settings) (node : Node) :
    Evaluates start scope (fun _ => True) (runScript settings node : Eval η κ String) := by
  refine Ensures.get.bind ?_
  rintro now ⟨-, rfl⟩
  refine (need _ _).seq fun _ => (basicText _ _).seq fun _ => (need _ _).seq fun _ => ?_
  exact (raw (fun _ => rfl) _).seq fun _ => call rfl nofun fun _ => rfl

theorem query (node : Node) :
    Evaluates start scope (fun _ => True) (query node : Eval η κ RowsId) := by
  refine Ensures.get.bind ?_
  rintro now ⟨-, rfl⟩
  refine (connectionOf _).bind fun connection hc => (need _ _).seq fun _ => ?_
  refine (raw (fun _ => rfl) _).seq fun sql => ?_
  refine Ensures.seq (call rfl ?_ fun _ => rfl) fun _ => addRows _
  rintro _ ⟨⟩
  exact hc

theorem executeSql (node : Node) :
    Evaluates start scope (fun _ => True) (executeSql node : Eval η κ Unit) := by
  refine Ensures.get.bind ?_
  rintro now ⟨-, rfl⟩
  refine (connectionOf _).bind fun connection hc => (need _ _).seq fun _ => ?_
  refine (raw (fun _ => rfl) _).seq fun sql => call rfl ?_ fun _ => rfl
  rintro _ ⟨⟩
  exact hc

theorem log (node : Node) :
    Evaluates start scope (fun _ => True) (log node : Eval η κ Unit) := by
  refine Ensures.get.bind ?_
  rintro now ⟨-, rfl⟩
  refine (need _ _).seq fun valueNode => ?_
  dsimp only
  split
  · refine (raw (fun _ => rfl) _).seq fun _ => ?_
    exact Ensures.seq (Ensures.pure trivial) fun _ => record rfl rfl
  · refine (basic _).bind fun value hv => ?_
    refine Ensures.seq (orAt (Ensures.settle (fun _ _ => trivial) ?_) _) fun _ =>
      Ensures.seq (Ensures.pure trivial) fun _ => record rfl rfl
    intro failure hf
    unfold Value.accept at hf
    split at hf
    · cases hf
    · cases hf
      exact expect hv

theorem assert (node : Node) :
    Evaluates start scope (fun _ => True) (assert node : Eval η κ Unit) := by
  refine Ensures.get.bind ?_
  rintro now ⟨-, rfl⟩
  refine (need _ _).seq fun _ => (comparison _).seq fun _ => ?_
  split
  · exact failAt rfl
  · exact Ensures.pure trivial

theorem loopHead (node : Node) :
    Evaluates start scope (fun _ => True) (loopHead node : Eval η κ Loop) := by
  refine (need _ _).seq fun _ => (Ensures.mapM fun child _ => identifier child.2).bind fun _ _ => ?_
  refine (need _ _).seq fun _ => Ensures.get.bind ?_
  rintro now ⟨-, rfl⟩
  refine (basic _).bind fun source hs => ?_
  refine Ensures.seq (orAt (Ensures.settle (fun _ _ => trivial) ?_) _) fun _ =>
    (need _ _).seq fun _ => Ensures.pure trivial
  intro failure hf
  cases source <;> cases hf <;> exact expect hs

theorem branch (node : Node) :
    Evaluates start scope (fun _ => True) (branch node : Eval η κ (Option Node)) := by
  refine Ensures.get.bind ?_
  rintro now ⟨-, rfl⟩
  refine (need _ _).seq fun _ => (comparison _).seq fun _ => ?_
  split
  · exact (need _ _).seq fun _ => Ensures.pure trivial
  · exact Ensures.pure trivial

theorem declareInfo (connection : String) (node : Node) (fields : List Field) :
    Evaluates start scope (fun _ => True)
      (declareInfo connection node fields : Eval η κ Unit) := by
  induction fields with
  | nil => exact Ensures.pure trivial
  | cons field rest ih =>
    unfold Run.declareInfo
    dsimp only
    split
    · exact ih
    · refine Ensures.get.bind ?_
      rintro now ⟨-, rfl⟩
      exact (text _ _).seq fun _ => (onLedger _).seq fun _ => ih

theorem declarationWith {inner : Node → Eval η κ (Outline ArchiveKind)}
    (hi : ∀ node, Evaluates start scope (fun _ => True) (inner node)) (node : Node) :
    Evaluates start scope (fun _ => True) (declarationWith inner scope node) := by
  unfold Run.declarationWith
  split
  · exact failAt rfl
  · have hn (nested : List Child) (build : List (Outline ArchiveKind) → Outline ArchiveKind) :
        Evaluates start scope (fun _ => True) (do
          let entries ← Eval.orAt node.span (nested.mapM fun child => inner child.2)
          Pure.pure (build entries)) :=
      (orAt (Ensures.mapM fun child _ => hi child.2) _).bind fun _ _ => Ensures.pure trivial
    refine (need _ _).seq fun _ => (identifier _).seq fun _ => ?_
    dsimp only
    split
    · exact Ensures.seq (Ensures.pure trivial) fun _ => hn _ _
    · split
      · exact Ensures.seq (Ensures.pure trivial) fun _ => hn _ _
      · exact (text _ _).seq fun _ => hn _ _

theorem declaration (node : Node) :
    Evaluates start scope (fun _ => True)
      (declaration scope node : Eval η κ (Outline ArchiveKind)) := by
  unfold Run.declaration
  generalize node.height = height
  induction height generalizing node with
  | zero => exact failAt rfl
  | succ height ih => exact declarationWith ih node

theorem siardOutput (settings : Settings) (node : Node) :
    Evaluates start scope (fun _ => True) (siardOutput settings node : Eval η κ Unit) := by
  refine (need _ _).seq fun _ => (identifier _).seq fun _ => Ensures.get.bind ?_
  rintro now ⟨-, rfl⟩
  refine (connectionOf _).bind fun connection hc => (need _ _).seq fun _ => ?_
  have hu : ∀ other, some connection = some other → Held now.scope other := by
    rintro _ ⟨⟩
    exact hc
  refine (text _ _).seq fun _ => Ensures.seq (call rfl hu fun _ => rfl) fun _ => ?_
  refine Ensures.get.bind fun _ _ => ?_
  dsimp only
  split
  case' h_1 => refine Ensures.seq (call rfl hu fun _ => rfl) fun _ => ?_
  all_goals
    refine Ensures.get.bind fun _ _ => ?_
    split
    · exact Ensures.seq (call rfl nofun fun _ => rfl) fun _ => record rfl rfl
    · exact call rfl nofun fun _ => rfl

end Evaluates

/-! ### Connections -/

section

variable [Cursor κ] [Host η κ]

def connectionArgs (node : Node) : Eval η κ (String × Dict String) := do
  let scope := (← get).scope
  let url ← basicText scope "The URL" (← node.need .url)
  let properties ← match node.field? .properties with
    | some pairs => propertiesFrom scope .empty pairs.children
    | none => pure .empty
  return (url, properties)

omit [Cursor κ] in
def openConnection (url : String) (properties : Dict String) : Eval η κ Connection := do
  let link ← call (.connect url properties) .sql (Host.connect url properties)
  let connection : Connection := ⟨(← get).opened, link.url, link.properties⟩
  modify fun world => { world with opened := world.opened + 1 }
  record (.opened connection)
  return connection

theorem connect_eq (node : Node) :
    (connect node : Eval η κ Connection) =
      connectionArgs node >>= fun args => openConnection args.1 args.2 := by
  simp only [connect, connectionArgs, openConnection, bind_assoc, pure_bind]
  refine bind_congr fun now => bind_congr fun urlNode => bind_congr fun url => ?_
  cases node.field? .properties <;> simp only [bind_assoc, pure_bind]

omit [Cursor κ] in
theorem openConnection_run (url : String) (properties : Dict String) (world : World η κ) :
    openConnection url properties world =
      match Host.connect url properties world.host with
      | (.ok link, host) =>
        let connection : Connection := ⟨world.opened, link.url, link.properties⟩
        (.ok connection, { called world [.connect url properties, .opened connection] host with
          opened := world.opened + 1 })
      | (.error error, host) =>
        (.error ⟨.sql error.message, none⟩, called world [.connect url properties] host) := by
  rw [openConnection, run_bind, call_run]
  rcases Host.connect url properties world.host with ⟨error | link, host⟩
  · rfl
  · let connection : Connection := ⟨world.opened, link.url, link.properties⟩
    let counted : World η κ :=
      { called world [.connect url properties] host with opened := world.opened + 1 }
    have hc : called counted [.opened connection] counted.host =
        { called world [.connect url properties, .opened connection] host with
          opened := world.opened + 1 } :=
      congrArg (fun world : World η κ => { world with opened := counted.opened })
        (called_called world [.connect url properties] [.opened connection] host host)
    change (record (.opened connection) >>= fun _ => pure connection) counted = _
    rw [run_bind, record_run, hc]
    rfl

end

namespace Evaluates

variable [Cursor κ] [Host η κ] {start : World η κ} {scope : Scope}

theorem connectionArgs (node : Node) :
    Evaluates start scope (fun _ => True)
      (connectionArgs node : Eval η κ (String × Dict String)) := by
  refine Ensures.get.bind ?_
  rintro now ⟨-, rfl⟩
  refine (need _ _).seq fun _ => (basicText _ _).seq fun _ => ?_
  dsimp only
  split
  · exact (propertiesFrom _ _).seq fun _ => Ensures.pure trivial
  · exact Ensures.seq (Ensures.pure trivial) fun _ => Ensures.pure trivial

omit [Cursor κ] in
theorem openConnection (url : String) (properties : Dict String) :
    Evaluates start scope (fun _ => True)
      (openConnection url properties : Eval η κ Connection) := by
  rintro world ⟨hs, rfl⟩
  rw [openConnection_run]
  rcases hc : Host.connect url properties world.host with ⟨error | link, host⟩
  · exact ⟨⟨hs.tail (.call host rfl nofun), rfl⟩, .of_cause rfl⟩
  · exact ⟨⟨hs.tail (.connect hc), rfl⟩, trivial⟩

theorem connect (node : Node) :
    Evaluates start scope (fun _ => True) (connect node : Eval η κ Connection) := by
  rw [connect_eq]
  exact (connectionArgs node).seq fun _ => openConnection _ _

/-- An expression comes to a value that needs no source or to that of a variable, unless it opens
a connection. -/
theorem expression (settings : Settings) (node : Node) :
    Evaluates start scope (fun value => node.kind ≠ .connection → Known scope value)
      (expression settings node : Eval η κ Value) := by
  unfold Run.expression
  split
  · rename_i hk
    exact (connect node).bind fun _ _ => Ensures.pure fun hn => absurd hk hn
  · exact (query node).bind fun _ _ => Ensures.pure fun _ => .rows _
  · exact (runScript settings node).bind fun _ _ => Ensures.pure fun _ => .text _
  · refine Ensures.get.bind ?_
    rintro now ⟨-, rfl⟩
    exact (raw (fun _ => rfl) _).bind fun _ _ => Ensures.pure fun _ => .text _
  · refine Ensures.get.bind ?_
    rintro now ⟨-, rfl⟩
    exact (basic _).mono fun _ hv _ => hv

end Evaluates

theorem connect_opened [Cursor κ] [Host η κ] {node : Node} {world after : World η κ}
    {connection : Connection} (h : connect node world = (.ok connection, after)) :
    .opened connection ∈ after.trace := by
  rw [connect_eq] at h
  obtain ⟨⟨url, properties⟩, between, -, ho⟩ := ok_of_bind h
  rw [openConnection_run] at ho
  rcases hc : Host.connect url properties between.host with ⟨_ | link, host⟩
  · rw [hc] at ho
    cases ho
  · rw [hc] at ho
    cases ho
    simp [called]

/-- What an expression comes to is held by a variable, or was opened. -/
theorem expression_given [Cursor κ] [Host η κ] {settings : Settings} {node : Node}
    {world after : World η κ} {value : Value}
    (h : expression settings node world = (.ok value, after)) :
    after.scope = world.scope ∧ Given after value := by
  obtain ⟨hs, hv⟩ := (Evaluates.expression settings node).ok h
  refine ⟨hs, ?_⟩
  by_cases hk : node.kind = .connection
  · rw [expression, hk] at h
    obtain ⟨connection, between, hc, hr⟩ := ok_of_bind h
    cases hr
    exact .inr ⟨connection, rfl, connect_opened hc⟩
  · exact .inl (hs ▸ hv hk)

end Run

end ArchiveScript
