import ArchiveScript.Proofs.Run.Ensures
import ArchiveScript.Proofs.Run.Recursion
import ArchiveScript.Proofs.Tree.Reach
import ArchiveScript.Run.Rehearsal

/-! # Failures have a place

Failures arise without a place in many of the helpers of a run. Each statement places those that
come out of it, so that every failure of a script is at a node of the statement that failed. This
holds for all trees, those that are no scripts included.
-/

namespace ArchiveScript

/-- An escape sequence below `top` has this text and stands for no character. -/
def Node.Undecoded (top : Node) (text : String) : Prop :=
  ∃ node, top.Reaches node ∧ node.kind = .escapeSequence ∧ node.text = text ∧
    Run.decodeEscape? text = none

namespace Cause

def isPlain : Cause → Bool
  | internal _ => false
  | invalidLiteral what _ => what != "escape sequence"
  | _ => true

theorem not_internal_of_isPlain {cause : Cause} (h : cause.isPlain = true) :
    (cause.category == .internal) = false := by
  cases cause with
  | internal reason => cases h
  | _ => rfl

theorem ne_escape_of_isPlain {cause : Cause} (h : cause.isPlain = true) (text : String) :
    cause ≠ .invalidLiteral "escape sequence" text := by
  rintro rfl
  revert h
  exact nofun

end Cause

namespace Failure

/-- The failure is not one of the run itself, and its place, if it has one, is a node below
`top`. If an escape sequence could not be decoded, it is one below `top`. -/
structure Within (top : Node) (failure : Failure) : Prop where
  ordinary : failure.isInternal = false
  place : ∀ span, failure.span = some span → ∃ node, top.Reaches node ∧ span = node.span
  escape : ∀ text, failure.cause = .invalidLiteral "escape sequence" text → top.Undecoded text

/-- The failure is not one of the run itself, and is placed at a node below `top`. If an escape
sequence could not be decoded, it is one below `top`. -/
structure At (top : Node) (failure : Failure) : Prop where
  ordinary : failure.isInternal = false
  place : ∃ node, top.Reaches node ∧ failure.span = some node.span
  escape : ∀ text, failure.cause = .invalidLiteral "escape sequence" text → top.Undecoded text

variable {top node : Node} {failure : Failure}

theorem Within.unplaced {cause : Cause} (h : cause.isPlain = true) : Within top ⟨cause, none⟩ where
  ordinary := Cause.not_internal_of_isPlain h
  place := nofun
  escape text hc := absurd hc (Cause.ne_escape_of_isPlain h text)

theorem Within.undecoded (hn : top.Reaches node) (hk : node.kind = .escapeSequence)
    (hd : Run.decodeEscape? node.text = none) :
    Within top ⟨.invalidLiteral "escape sequence" node.text, none⟩ := by
  refine ⟨rfl, nofun, fun text hc => ?_⟩
  cases hc
  exact ⟨node, hn, hk, rfl, hd⟩

theorem Within.placed (h : failure.Within top) (hn : top.Reaches node) :
    (failure.placed node.span).Within top := by
  constructor
  · exact h.ordinary
  · intro span hs
    exact ⟨node, hn, (Option.some.inj hs).symm⟩
  · exact h.escape

/-- A failure within a node has a place as soon as the node places it. -/
theorem Within.orPlaced_at (h : failure.Within top) (hn : top.Reaches node) :
    (failure.orPlaced node.span).At top := by
  rw [orPlaced, h.ordinary]
  cases hs : failure.span with
  | none => exact ⟨h.ordinary, ⟨node, hn, rfl⟩, h.escape⟩
  | some span =>
    obtain ⟨found, hr, rfl⟩ := h.place span hs
    exact ⟨h.ordinary, ⟨found, hr, hs⟩, h.escape⟩

theorem At.within (h : failure.At top) : failure.Within top := by
  obtain ⟨ho, ⟨node, hn, hs⟩, hescape⟩ := h
  constructor
  · exact ho
  · intro span he
    exact ⟨node, hn, Option.some.inj (he.symm.trans hs)⟩
  · exact hescape

theorem Within.orPlaced (h : failure.Within top) (hn : top.Reaches node) :
    (failure.orPlaced node.span).Within top :=
  (h.orPlaced_at hn).within

end Failure

namespace Run

open Eval

/-- The part runs in a scope of variables, leaves one, and fails within `top` if it fails. -/
def Stays {η κ α : Type} (top : Node) (eval : Eval η κ α) : Prop :=
  Ensures (fun world => ∃ entries, world.scope.inner = .bindings entries) (fun _ => True)
    (Failure.Within top) eval

namespace Stays

variable {η κ α β : Type} {top node : Node}

section

variable {x : Eval η κ α} {f : α → Eval η κ β}

theorem pure (a : α) : Stays top (pure a : Eval η κ α) := Ensures.pure trivial

theorem bind (hx : Stays top x) (hf : ∀ a, Stays top (f a)) : Stays top (x >>= f) :=
  Ensures.seq hx hf

theorem discard (h : Stays top x) : Stays top (Functor.discard x) := Ensures.discard h

theorem get : Stays top (get : Eval η κ (World η κ)) := Ensures.get.mono fun _ _ => trivial

theorem fail {cause : Cause} (h : cause.isPlain = true) :
    Stays top (fail cause : Eval η κ α) := Ensures.fail (.unplaced h)

theorem failAt {cause : Cause} (hn : top.Reaches node) (h : cause.isPlain = true) :
    Stays top (failAt node.span cause : Eval η κ α) := by
  have hf : Failure.Within top ⟨cause, none⟩ := .unplaced h
  exact Ensures.failAt (hf.placed hn)

theorem orAt (hn : top.Reaches node) (h : Stays top x) : Stays top (orAt node.span x) :=
  Ensures.orAt h fun _ hf => hf.orPlaced hn

theorem placed (hn : top.Reaches node) (h : Stays top x) : Stays top (placed node.span x) :=
  Ensures.placed h fun _ hf => hf.placed hn

theorem settle {outcome : Except Failure α}
    (h : ∀ failure, outcome = .error failure → failure.Within top) :
    Stays top (settle outcome : Eval η κ α) :=
  Ensures.settle (fun _ _ => trivial) h

theorem record (event : Event) : Stays top (record event : Eval η κ Unit) :=
  Ensures.record (fun _ _ _ _ _ h => h) event

theorem onLedger (operation : Ledger → Ledger) : Stays top (onLedger operation : Eval η κ Unit) :=
  Ensures.onLedger (fun _ _ _ _ _ h => h) operation

theorem call {event : Event} {cause : String → Cause} {act : Act η α}
    (h : ∀ message, (cause message).isPlain = true) :
    Stays top (call event cause act : Eval η κ α) :=
  Ensures.call (fun _ _ _ _ _ h => h) fun message => .unplaced (h message)

theorem onRows (operation : RowsStore κ → Except RowsError α × RowsStore κ) :
    Stays top (onRows operation : Eval η κ α) := by
  apply Ensures.onRows (fun _ hw => hw)
  intro error
  apply Failure.Within.unplaced
  cases error <;> rfl

theorem addRows (rows : Rows κ) : Stays top (addRows rows : Eval η κ RowsId) :=
  fun _ hw => ⟨hw, trivial⟩

theorem bindName (name : String) (value : Value) :
    Stays top (Eval.bind name value : Eval η κ Unit) := by
  apply Ensures.onScope
  · rintro world scope ⟨entries, he⟩ ho
    rw [Scope.bind, he] at ho
    obtain rfl := Except.ok.inj ho
    exact ⟨_, rfl⟩
  · rintro world error ⟨entries, he⟩ ho
    rw [Scope.bind, he] at ho
    cases ho

theorem unbindName (name : String) : Stays top (Eval.unbind name : Eval η κ Unit) := by
  apply Ensures.onScope
  · rintro world scope ⟨entries, he⟩ ho
    rw [Scope.unbind, he] at ho
    obtain rfl := Except.ok.inj ho
    exact ⟨_, rfl⟩
  · rintro world error ⟨entries, he⟩ ho
    rw [Scope.unbind, he] at ho
    cases ho

theorem need {field : Field} {f : Node → Eval η κ β} (hn : top.Reaches node)
    (hf : ∀ child, top.Reaches child → Stays top (f child)) :
    Stays top (node.need field >>= f) := by
  refine Ensures.bind (Q := top.Reaches) ?_ hf
  apply Ensures.need
  · intro child hc
    exact hn.field? hc
  · intro _
    exact (Failure.Within.unplaced rfl).placed hn

theorem identifier (hn : top.Reaches node) : Stays top (node.identifier : Eval η κ String) := by
  apply Ensures.identifier
  · exact fun _ => trivial
  · intro _
    exact (Failure.Within.unplaced rfl).placed hn

theorem mapM {γ : Type} {f : γ → Eval η κ α} {list : List γ} (h : ∀ c ∈ list, Stays top (f c)) :
    Stays top (list.mapM f) :=
  (Ensures.mapM h).mono fun _ _ => trivial

theorem locking [Cursor κ] (h : Stays top x) (id : RowsId) : Stays top (locking id x) := by
  refine (onRows _).bind fun _ => ?_
  intro world hw
  exact h world hw

end

section Expressions

variable {scope : Scope}

theorem interpolated {inner : Node → Eval η κ Value}
    (hi : ∀ child, top.Reaches child → Stays top (inner child)) (hn : top.Reaches node) :
    Stays top (interpolated inner node) := by
  unfold Run.interpolated
  split
  · rename_i child hc
    exact hi child (hn.first? hc)
  · exact fail rfl

theorem stringPiece {inner : Node → Eval η κ Value}
    (hi : ∀ child, top.Reaches child → Stays top (inner child)) (hn : top.Reaches node) :
    Stays top (stringPiece inner node) := by
  unfold Run.stringPiece
  split
  · exact pure _
  · rename_i hk
    split
    · exact pure _
    · rename_i hd
      exact Ensures.fail (.undecoded hn hk hd)
  · refine (interpolated hi hn).bind fun value => ?_
    cases value
    case rows | connection => exact failAt hn rfl
    all_goals exact pure _
  · exact fail rfl

theorem stringPieces {inner : Node → Eval η κ Value} {pieces : List Child}
    (hi : ∀ child, top.Reaches child → Stays top (inner child))
    (hp : ∀ piece ∈ pieces, top.Reaches piece.2) : Stays top (stringPieces inner pieces) := by
  induction pieces with
  | nil => exact pure _
  | cons piece rest ih =>
    have hr := ih fun other ho => hp other (List.mem_cons_of_mem piece ho)
    exact (stringPiece hi (hp piece List.mem_cons_self)).bind fun _ => hr.bind fun _ => pure _

theorem lookUp (name : String) : Stays top (lookUp scope name : Eval η κ Value) := by
  unfold Run.lookUp
  split
  · exact pure _
  · exact fail rfl

variable [Cursor κ]

theorem operate (value : Value) (operation : String) :
    Stays top (operate value operation : Eval η κ Value) := by
  unfold Run.operate
  split
  · exact pure _
  · split
    · exact pure _
    · exact fail rfl
  · exact (addRows _).bind fun _ => pure _
  · exact pure _
  · exact (onRows _).bind fun _ => pure _
  · exact fail rfl

theorem basicWith {inner : Node → Eval η κ Value}
    (hi : ∀ child, top.Reaches child → Stays top (inner child)) (hn : top.Reaches node) :
    Stays top (basicWith inner scope node) := by
  unfold Run.basicWith
  split
  · exact ((stringPieces hi fun _ hp => hn.child hp).bind fun _ => pure _).orAt hn
  · split
    · exact pure _
    · exact failAt hn rfl
  · split
    · exact fail rfl
    · rename_i child hc
      exact (identifier (hn.first? hc)).bind fun _ => (lookUp _).orAt hn
  · refine orAt hn (need hn fun left hl => (hi left hl).bind fun value => ?_)
    exact need hn fun right hr => (identifier hr).bind fun _ => operate _ _
  · exact failAt hn rfl

theorem basicWithin (height : Nat) (hn : top.Reaches node) :
    Stays top (basicWithin scope height node : Eval η κ Value) := by
  induction height generalizing node with
  | zero => exact failAt hn rfl
  | succ height ih => exact basicWith (fun _ => ih) hn

theorem basic (hn : top.Reaches node) : Stays top (basic scope node : Eval η κ Value) :=
  basicWithin node.height hn

omit [Cursor κ] in
theorem ofEquality (equal : Bool) (operator : String) (kind : ValueKind) :
    Stays top (ofEquality equal operator kind : Eval η κ Bool) := by
  unfold Run.ofEquality
  split
  · exact pure _
  · exact pure _
  · exact fail rfl

theorem compareValues (left right : Value) (operator : String) :
    Stays top (compareValues left right operator : Eval η κ Bool) := by
  unfold Run.compareValues
  split
  · split
    · exact pure _
    · exact fail rfl
  · exact ofEquality _ _ _
  · split
    · exact (onRows _).bind fun _ => ofEquality _ _ _
    · exact fail rfl
  · exact fail rfl

theorem comparison (hn : top.Reaches node) :
    Stays top (comparison scope node : Eval η κ Bool) := by
  refine need hn fun _ hl => (basic hl).bind fun left => need hn fun operator _ => ?_
  exact need hn fun _ hr => (basic hr).bind fun right => compareValues left right _

omit [Cursor κ] in
theorem pushValue (template : Template) (value : Value) (safe : Bool) (hn : top.Reaches node) :
    Stays top (Eval.placed node.span (Eval.settle (template.pushValue value safe)) :
      Eval η κ Template) := by
  refine placed hn (settle fun failure hf => ?_)
  unfold Template.pushValue at hf
  split at hf
  · cases hf
    exact .unplaced rfl
  · dsimp only at hf
    split at hf
    · cases hf
      exact .unplaced rfl
    · cases hf
      exact .unplaced rfl
    · split at hf
      · cases hf
        exact .unplaced rfl
      · cases hf
    · cases hf
    · cases hf

theorem fillPiece (template : Template) (hn : top.Reaches node) :
    Stays top (fillPiece scope template node : Eval η κ Template) := by
  have hv (safe : Bool) : Stays top (fillValue scope template node safe : Eval η κ Template) :=
    (interpolated (fun _ => basic) hn).bind fun _ => pushValue _ _ _ hn
  unfold Run.fillPiece
  split
  · exact pure _
  · exact hv false
  · exact hv true
  · exact failAt hn rfl

theorem fillPieces {pieces : List Child} (hp : ∀ piece ∈ pieces, top.Reaches piece.2)
    (template : Template) :
    Stays top (fillPieces scope template pieces : Eval η κ Template) := by
  induction pieces generalizing template with
  | nil => exact pure _
  | cons piece rest ih =>
    rw [fillPieces_cons]
    refine (fillPiece template (hp piece List.mem_cons_self)).bind fun filled => ?_
    exact ih (fun other ho => hp other (List.mem_cons_of_mem piece ho)) filled

theorem raw {mode : TemplateMode} (hn : top.Reaches node) :
    Stays top (raw scope mode node : Eval η κ Filled) := by
  unfold Run.raw
  split
  · exact (fillPieces (fun _ hp => hn.child hp) _).bind fun _ => pure _
  · exact failAt hn rfl

theorem basicText {what : String} (hn : top.Reaches node) :
    Stays top (basicText scope what node : Eval η κ String) := by
  refine (basic hn).bind fun value => orAt hn (settle fun failure hf => ?_)
  cases value <;> cases hf <;> exact .unplaced rfl

theorem text {what : String} (hn : top.Reaches node) :
    Stays top (text scope what node : Eval η κ String) := by
  unfold Run.text
  split
  · exact (raw hn).bind fun _ => pure _
  · exact basicText hn

end Expressions

section Declarations

variable {settings : Settings}

theorem bindParameter (hn : top.Reaches node) :
    Stays top (bindParameter settings node : Eval η κ (Outline CommandKind)) := by
  unfold Run.bindParameter
  split
  · refine need hn fun _ hi => (identifier hi).bind fun _ => ?_
    dsimp only
    split
    · exact (bindName _ _).bind fun _ => pure _
    · exact (unbindName _).bind fun _ => pure _
  · exact failAt hn rfl

theorem bindParameters {list : List Child} (hl : ∀ parameter ∈ list, top.Reaches parameter.2) :
    Stays top (bindParameters settings list : Eval η κ (List (Outline CommandKind))) := by
  induction list with
  | nil => exact pure _
  | cons parameter rest ih =>
    have hr := ih fun other ho => hl other (List.mem_cons_of_mem parameter ho)
    rw [bindParameters_cons]
    refine (bindParameter (hl parameter List.mem_cons_self)).bind fun _ => ?_
    exact hr.bind fun _ => pure _

variable [Cursor κ] {scope : Scope}

theorem declarationWith {inner : Node → Eval η κ (Outline ArchiveKind)}
    (hi : ∀ child, top.Reaches child → Stays top (inner child)) (hn : top.Reaches node) :
    Stays top (declarationWith inner scope node) := by
  have hm (build : List (Outline ArchiveKind) → Outline ArchiveKind) : Stays top (do
      let entries ← Eval.orAt node.span
        ((node.children.filter fun child => (declarationKind? child.2.kind).isSome).mapM
          fun child => inner child.2)
      Pure.pure (build entries) : Eval η κ (Outline ArchiveKind)) := by
    refine (orAt hn (mapM fun child hc => ?_)).bind fun _ => pure _
    exact hi child.2 (hn.child (List.mem_filter.1 hc).1)
  unfold Run.declarationWith
  split
  · exact failAt hn rfl
  · refine need hn fun _ hn' => (identifier hn').bind fun name => ?_
    dsimp only
    split
    · exact (pure _).bind fun _ => hm _
    · rename_i child hc
      split
      · exact (pure _).bind fun _ => hm _
      · exact (text (hn.field? hc)).bind fun _ => hm _

theorem declarationWithin (height : Nat) (hn : top.Reaches node) :
    Stays top (declarationWithin scope height node : Eval η κ (Outline ArchiveKind)) := by
  induction height generalizing node with
  | zero => exact failAt hn rfl
  | succ height ih => exact declarationWith (fun _ => ih) hn

theorem command (hn : top.Reaches node) :
    Stays top (command settings node : Eval η κ (Outline CommandKind)) := by
  have hb (title : String) (entries : List (Outline CommandKind)) : Stays top (do
      let scope := (← MonadState.get).scope.command (entries.map Outline.name)
      let body ← Run.raw scope .command (← node.need .body)
      Pure.pure (.mk .command "" title (entries ++ [.leaf .sql "" body.text])) :
        Eval η κ (Outline CommandKind)) :=
    get.bind fun _ => need hn fun _ hr => (raw hr).bind fun _ => pure _
  refine get.bind fun _ => need hn fun _ ht => (text ht).bind fun title => ?_
  dsimp only
  split
  · rename_i list hl
    exact (bindParameters fun _ hp => (hn.field? hl).child hp).bind (hb title)
  · exact (pure _).bind (hb title)

theorem declareInfo {connection : String} (hn : top.Reaches node) (fields : List Field) :
    Stays top (declareInfo connection node fields : Eval η κ Unit) := by
  induction fields with
  | nil => exact pure _
  | cons field rest ih =>
    unfold Run.declareInfo
    dsimp only
    split
    · exact ih
    · rename_i child hc
      refine get.bind fun _ => (text (hn.field? hc)).bind fun _ => ?_
      exact (onLedger _).bind fun _ => ih

theorem declareItems {connection : String} {items : List Child}
    (hi : ∀ item ∈ items, top.Reaches item.2) :
    Stays top (declareItems settings connection items : Eval η κ Unit) := by
  induction items with
  | nil => exact pure _
  | cons item rest ih =>
    have hn := hi item List.mem_cons_self
    have hr := ih fun other ho => hi other (List.mem_cons_of_mem item ho)
    rw [declareItems_cons]
    refine bind ?_ fun _ => hr
    unfold declareItem
    split
    · exact get.bind fun _ => (declarationWithin _ hn).bind fun _ => onLedger _
    · exact (command hn).bind fun _ => onLedger _
    · exact pure _

theorem siardMetadata (hn : top.Reaches node) :
    Stays top (siardMetadata settings node : Eval η κ Unit) := by
  refine need hn fun _ hi => (identifier hi).bind fun _ => (onLedger _).bind fun _ => ?_
  exact (declareInfo hn _).bind fun _ => declareItems fun _ hm => hn.child hm

end Declarations

section Statements

variable {settings : Settings} {scope : Scope}

theorem connectionOf (hn : top.Reaches node) :
    Stays top (connectionOf scope node : Eval η κ Connection) := by
  refine need hn fun name hi => (identifier hi).bind fun _ => ?_
  split
  · exact fail rfl
  · rename_i value _
    refine placed hi (settle fun failure hf => ?_)
    cases value <;> cases hf <;> exact .unplaced rfl

theorem bindCells (names : List String) (row : Row) :
    Stays top (bindCells names row : Eval η κ Unit) := by
  induction names generalizing row with
  | nil => exact pure _
  | cons name names ih =>
    unfold Run.bindCells
    dsimp only
    split
    · exact (bindName _ _).bind fun _ => ih _
    · exact (unbindName _).bind fun _ => ih _

variable [Cursor κ]

theorem propertiesFrom {pairs : List Child} (hp : ∀ pair ∈ pairs, top.Reaches pair.2)
    (properties : Dict String) :
    Stays top (propertiesFrom scope properties pairs : Eval η κ (Dict String)) := by
  induction pairs generalizing properties with
  | nil => exact pure _
  | cons pair rest ih =>
    have hn := hp pair List.mem_cons_self
    refine need hn fun _ hi => (identifier hi).bind fun _ => need hn fun _ ht => ?_
    refine ((text ht).orAt hn).bind fun _ => ?_
    exact ih (fun other ho => hp other (List.mem_cons_of_mem pair ho)) _

theorem log (hn : top.Reaches node) : Stays top (log node : Eval η κ Unit) := by
  refine get.bind fun _ => need hn fun child hc => ?_
  dsimp only
  split
  · exact (raw hc).bind fun _ => (pure _).bind fun _ => record _
  · refine (basic hc).bind fun value => bind ?_ fun _ => (pure _).bind fun _ => record _
    refine orAt hc (settle fun failure hf => ?_)
    unfold Value.accept at hf
    split at hf
    · cases hf
    · cases hf
      exact .unplaced rfl

theorem assert (hn : top.Reaches node) : Stays top (assert node : Eval η κ Unit) := by
  refine get.bind fun _ => need hn fun _ hc => (comparison hc).bind fun _ => ?_
  split
  · exact failAt hn rfl
  · exact pure _

theorem forRows {body : Eval η κ Unit} (hb : Stays top body) (rows : RowsId)
    (names : List String) (rounds : Nat) : Stays top (forRows rows names body rounds) := by
  induction rounds with
  | zero => exact pure _
  | succ rounds ih =>
    refine (onRows _).bind fun next => ?_
    cases next with
    | none => exact pure _
    | some row => exact (bindCells _ _).bind fun _ => hb.bind fun _ => ih

variable [Host η κ]

theorem runScript (hn : top.Reaches node) :
    Stays top (runScript settings node : Eval η κ String) := by
  refine get.bind fun _ => need hn fun _ hb => (basicText hb).bind fun _ => ?_
  exact need hn fun _ hr => (raw hr).bind fun _ => call fun _ => rfl

theorem connect (hn : top.Reaches node) : Stays top (connect node : Eval η κ Connection) := by
  have hc (url : String) (properties : Dict String) : Stays top (do
      let link ← Eval.call (.connect url properties) .sql (Host.connect url properties)
      let connection : Connection := ⟨(← MonadState.get).opened, link.url, link.properties⟩
      modify fun world => { world with opened := world.opened + 1 }
      Eval.record (.opened connection)
      Pure.pure connection : Eval η κ Connection) := by
    refine (call fun _ => rfl).bind fun _ => get.bind fun _ => ?_
    exact bind (fun _ hw => ⟨hw, trivial⟩) fun _ => (record _).bind fun _ => pure _
  refine get.bind fun _ => need hn fun _ hb => (basicText hb).bind fun url => ?_
  dsimp only
  split
  · rename_i pairs hp
    exact (propertiesFrom (fun _ hm => (hn.field? hp).child hm) _).bind (hc url)
  · exact (pure _).bind (hc url)

theorem query (hn : top.Reaches node) : Stays top (query node : Eval η κ RowsId) := by
  refine get.bind fun _ => (connectionOf hn).bind fun _ => need hn fun _ hr => ?_
  exact (raw hr).bind fun _ => (call fun _ => rfl).bind fun _ => addRows _

theorem executeSql (hn : top.Reaches node) : Stays top (executeSql node : Eval η κ Unit) := by
  refine get.bind fun _ => (connectionOf hn).bind fun _ => need hn fun _ hr => ?_
  exact (raw hr).bind fun _ => call fun _ => rfl

theorem expression (hn : top.Reaches node) :
    Stays top (expression settings node : Eval η κ Value) := by
  unfold Run.expression
  split
  · exact (connect hn).bind fun _ => pure _
  · exact (query hn).bind fun _ => pure _
  · exact (runScript hn).bind fun _ => pure _
  · exact get.bind fun _ => (raw hn).bind fun _ => pure _
  · exact get.bind fun _ => basic hn

theorem set (hn : top.Reaches node) : Stays top (set settings node : Eval η κ Unit) := by
  refine need hn fun _ hi => (identifier hi).bind fun _ => ?_
  exact need hn fun _ hv => (expression hv).bind fun _ => bindName _ _

theorem siardOutput (hn : top.Reaches node) :
    Stays top (siardOutput settings node : Eval η κ Unit) := by
  refine need hn fun _ hi => (identifier hi).bind fun _ => get.bind fun _ => ?_
  refine (connectionOf hn).bind fun _ => need hn fun _ ht => (text ht).bind fun _ => ?_
  refine (call fun _ => rfl).bind fun _ => get.bind fun _ => ?_
  dsimp only
  split
  case' h_1 => refine (call fun _ => rfl).bind fun _ => ?_
  all_goals
    refine get.bind fun _ => ?_
    split
    · exact (call fun _ => rfl).bind fun _ => record _
    · exact call fun _ => rfl

variable {run : Node → Eval η κ Unit} (hb : ∀ child, top.Reaches child → Stays top (run child))

include hb

omit [Host η κ] in
theorem forLoop (hn : top.Reaches node) : Stays top (forLoop run node) := by
  refine need hn fun list hl => (mapM fun child hc => ?_).bind fun names => ?_
  · exact identifier (hl.child hc)
  refine need hn fun _ hs => get.bind fun _ => (basic hs).bind fun source => ?_
  refine (orAt hs (settle fun failure hf => ?_)).bind fun rows => ?_
  · cases source <;> cases hf <;> exact .unplaced rfl
  refine need hn fun body hr => ?_
  exact locking (get.bind fun _ => forRows (hb body hr) _ _ _) _

omit [Host η κ] in
theorem conditional (hn : top.Reaches node) : Stays top (conditional run node) := by
  refine get.bind fun _ => need hn fun _ hc => (comparison hc).bind fun holds => ?_
  split
  · exact need hn hb
  · split
    · rename_i alternative ha
      exact hb alternative (hn.field? ha)
    · exact pure _

/-- What fails within a statement has a place when it comes out of the statement. -/
theorem statementWith (hn : top.Reaches node) :
    Ensures (fun world => ∃ entries, world.scope.inner = .bindings entries) (fun _ => True)
      (Failure.At top) (statementWith settings run node) := by
  apply Ensures.orAt (E := Failure.Within top)
  · split
    · exact pure _
    · exact (bindParameters fun _ hp => hn.child hp).discard
    · exact set hn
    · exact (runScript hn).discard
    · exact executeSql hn
    · exact siardMetadata hn
    · exact siardOutput hn
    · exact forLoop hb hn
    · exact log hn
    · exact assert hn
    · exact conditional hb hn
    · exact fail rfl
  · intro failure hf
    exact hf.orPlaced_at hn

theorem statements {children : List Child} (hc : ∀ child ∈ children, top.Reaches child.2) :
    Stays top (statements settings run children) := by
  induction children with
  | nil => exact pure _
  | cons child rest ih =>
    have hs : Stays top (Run.statementWith settings run child.2) :=
      (statementWith hb (hc child List.mem_cons_self)).mono_failure fun _ hf => hf.within
    exact hs.bind fun _ => ih fun other ho => hc other (List.mem_cons_of_mem child ho)

omit hb in
theorem blockWithin (height : Nat) (hn : top.Reaches node) :
    Stays top (blockWithin settings height node : Eval η κ Unit) := by
  induction height generalizing node with
  | zero => exact pure _
  | succ height ih => exact statements (fun _ => ih) fun _ hc => hn.child hc

omit hb in
theorem block (hn : top.Reaches node) : Stays top (block settings node : Eval η κ Unit) :=
  blockWithin node.height hn

end Statements

end Stays

section

variable {η κ : Type} [Cursor κ] [Host η κ] {settings : Settings} {world after : World η κ}
  {failure : Failure}

/-- Statements fail when one of them fails, after those before it have run to their ends. -/
theorem statements_error {run : Node → Eval η κ Unit} {children : List Child}
    (h : statements settings run children world = (.error failure, after)) :
    ∃ before child rest between, children = before ++ child :: rest ∧
      statements settings run before world = (.ok (), between) ∧
      statementWith settings run child.2 between = (.error failure, after) := by
  induction children generalizing world with
  | nil => cases h
  | cons child rest ih =>
    rw [statements, run_bind] at h
    rcases hs : statementWith settings run child.2 world with ⟨_ | _, between⟩
    · rw [hs] at h
      cases h
      exact ⟨[], child, rest, world, rfl, rfl, hs⟩
    · rw [hs] at h
      obtain ⟨before, failed, others, last, rfl, hb, hf⟩ := ih h
      refine ⟨child :: before, failed, others, last, rfl, ?_, hf⟩
      rw [statements, run_bind, hs]
      exact hb

theorem statements_scope (settings : Settings) (children : List Child) {world : World η κ}
    (hw : ∃ entries, world.scope.inner = .bindings entries) :
    ∃ entries, (statements settings (block settings) children world).2.scope.inner =
      .bindings entries := by
  have hs : Stays (.mk .sourceFile .nowhere "" children)
      (statements settings (block settings) children : Eval η κ Unit) :=
    Stays.statements (fun _ hn => Stays.block hn) fun _ hc => .step hc (.refl _)
  exact (hs world hw).1

theorem statement_at {node : Node} (hw : ∃ entries, world.scope.inner = .bindings entries)
    (h : statementWith settings (block settings) node world = (.error failure, after)) :
    failure.At node := by
  have hb (below : Node) (hn : node.Reaches below) :
      Stays node (block settings below : Eval η κ Unit) := Stays.block hn
  have hs : Ensures _ (fun _ => True) (Failure.At node)
      (statementWith settings (block settings) node) := Stays.statementWith hb (.refl node)
  have ha := hs world hw
  rw [h] at ha
  exact ha.2

/-- A run of any tree from a scope without bindings fails at a place, and never within itself. A
tree that is no script fails at its root; a script fails in one of its statements, after the
statements before it have run to their ends, and the place is that of a node of this statement. -/
theorem failures_located (settings : Settings) (tree : Node) (world after : World η κ)
    (failure : Failure) (hw : world.scope = .root)
    (h : script settings tree world = (.error failure, after)) :
    failure.isInternal = false ∧
      (tree.kind ≠ .sourceFile ∧ failure.span = some tree.span ∨
        tree.kind = .sourceFile ∧ ∃ before statement rest between,
          tree.children = before ++ statement :: rest ∧
          statements settings (block settings) before world = (.ok (), between) ∧
          statementWith settings (block settings) statement.2 between = (.error failure, after) ∧
          ∃ node, statement.2.Reaches node ∧ failure.span = some node.span) := by
  unfold script at h
  split at h
  · rename_i hk
    rw [block_eq] at h
    obtain ⟨before, statement, rest, between, hc, hb, hs⟩ := statements_error h
    have hv := statements_scope settings before ⟨.empty, by rw [hw]; rfl⟩
    rw [hb] at hv
    have ha := statement_at hv hs
    exact ⟨ha.ordinary, .inr ⟨hk, before, statement, rest, between, hc, hb, hs, ha.place⟩⟩
  · rename_i hk
    cases h
    exact ⟨rfl, .inl ⟨hk, rfl⟩⟩

end

/-- A tree that no script has: a log line in a loop shows a string with an interpolation of
nothing. -/
def hollowString : Node :=
  let name (start : Nat) (text : String) : Node := .mk .identifier ⟨start, start + 1⟩ text []
  let rows : Node := .mk .dotExpression ⟨9, 20⟩ ""
    [(some .left, .mk .string ⟨9, 12⟩ "" [(none, .mk .stringContent ⟨10, 11⟩ "a" [])]),
      (some .right, .mk .identifier ⟨13, 20⟩ "as_rows" [])]
  let message : Node := .mk .string ⟨30, 35⟩ "" [(none, .mk .interpolation ⟨31, 34⟩ "" [])]
  let body : Node := .mk .statementBlock ⟨25, 35⟩ ""
    [(none, .mk .log ⟨25, 35⟩ "" [(some .value, message)])]
  .mk .sourceFile ⟨0, 36⟩ ""
    [(none, .mk .nop ⟨0, 0⟩ "Nop" []),
      (none, .mk .forLoop ⟨0, 35⟩ ""
        [(some .loopVariables, .mk .forVariables ⟨4, 5⟩ "" [(none, name 4 "x")]),
          (some .rows, rows), (some .body, body)])]

def emptyStage : World Rehearsal (FaultyCursor TableCursor) := { host := {} }

/-- The interpolation has no value and the helper that finds this out knows no place, but the
failure is placed at the string. -/
theorem failures_located_hollow_string :
    ∃ failure after,
      script ⟨.empty, "/work"⟩ hollowString emptyStage = (.error failure, after) ∧
      failure = ⟨.unexpectedNode .interpolation "an empty interpolation", some ⟨30, 35⟩⟩ ∧
      failure.isInternal = false ∧
      ∃ statement ∈ hollowString.children, ∃ node, statement.2.Reaches node ∧
        failure.span = some node.span := by
  have ho : (script ⟨.empty, "/work"⟩ hollowString emptyStage).1 =
      .error ⟨.unexpectedNode .interpolation "an empty interpolation", some ⟨30, 35⟩⟩ := by
    rfl
  rcases hr : script ⟨.empty, "/work"⟩ hollowString emptyStage with ⟨outcome, after⟩
  rw [hr] at ho
  obtain rfl := ho
  obtain ⟨hi, ⟨hk, _⟩ | ⟨_, before, statement, rest, _, hc, _, _, hn⟩⟩ :=
    failures_located ⟨.empty, "/work"⟩ hollowString emptyStage after _ rfl hr
  · exact absurd rfl hk
  · refine ⟨_, after, rfl, rfl, hi, statement, ?_, hn⟩
    rw [hc]
    exact List.mem_append_right before List.mem_cons_self

end Run

end ArchiveScript
