import Mathlib
import ArchiveScript.Proofs.Run.LostTexts
import ArchiveScript.Proofs.Run.Assignment
import ArchiveScript.Proofs.Script.Grammatical

/-! # Trees of the grammar run as they are meant to

A run of a tree of the grammar may fail for what the script says or for what the host answers,
but never because a node is missing, or is not of a kind that the run knows.
-/

namespace ArchiveScript

/-- Whether the cause is a tree that is not of the grammar, or the run itself. -/
def Cause.blamesTree : Cause → Bool
  | unexpectedNode .. | missingField .. | internal _ => true
  | invalidLiteral what _ => what == "integer" || what == "comparison operator"
  | _ => false

namespace Run

open Eval Grammar

/-- The part runs in a scope of variables, leaves one, and does not fail because of the tree. -/
def Blameless {η κ α : Type} (eval : Eval η κ α) : Prop :=
  Ensures (fun world => ∃ entries, world.scope.inner = .bindings entries) (fun _ => True)
    (fun failure => failure.cause.blamesTree = false) eval

namespace Blameless

variable {η κ α β : Type}

section

variable {x : Eval η κ α} {f : α → Eval η κ β} {node : Node}

theorem pure (a : α) : Blameless (pure a : Eval η κ α) := Ensures.pure trivial

theorem bind (hx : Blameless x) (hf : ∀ a, Blameless (f a)) : Blameless (x >>= f) :=
  Ensures.seq hx hf

theorem discard (h : Blameless x) : Blameless (Functor.discard x) := Ensures.discard h

theorem get : Blameless (get : Eval η κ (World η κ)) := Ensures.get.mono fun _ _ => trivial

theorem fail {cause : Cause} (h : cause.blamesTree = false) :
    Blameless (fail cause : Eval η κ α) := Ensures.fail h

theorem failAt {span : Span} {cause : Cause} (h : cause.blamesTree = false) :
    Blameless (failAt span cause : Eval η κ α) := Ensures.failAt h

theorem orAt (h : Blameless x) (span : Span) : Blameless (orAt span x) := by
  refine Ensures.orAt h fun failure hf => ?_
  unfold Failure.orPlaced
  split
  · exact hf
  · exact hf

theorem placed (h : Blameless x) (span : Span) : Blameless (placed span x) :=
  Ensures.placed h fun _ hf => hf

theorem settle {outcome : Except Failure α}
    (h : ∀ failure, outcome = .error failure → failure.cause.blamesTree = false) :
    Blameless (settle outcome : Eval η κ α) :=
  Ensures.settle (fun _ _ => trivial) h

theorem record (event : Event) : Blameless (record event : Eval η κ Unit) :=
  Ensures.record (fun _ _ _ _ _ h => h) event

theorem onLedger (operation : Ledger → Ledger) : Blameless (onLedger operation : Eval η κ Unit) :=
  Ensures.onLedger (fun _ _ _ _ _ h => h) operation

theorem call {event : Event} {cause : String → Cause} {act : Act η α}
    (h : ∀ message, (cause message).blamesTree = false) :
    Blameless (call event cause act : Eval η κ α) :=
  Ensures.call (fun _ _ _ _ _ h => h) h

theorem onRows (operation : RowsStore κ → Except RowsError α × RowsStore κ) :
    Blameless (onRows operation : Eval η κ α) :=
  Ensures.onRows (fun _ hw => hw) fun error => by cases error <;> rfl

theorem addRows (rows : Rows κ) : Blameless (addRows rows : Eval η κ RowsId) :=
  fun _ hw => ⟨hw, trivial⟩

theorem bindName (name : String) (value : Value) :
    Blameless (Eval.bind name value : Eval η κ Unit) := by
  refine Ensures.onScope ?_ ?_
  · rintro world scope ⟨entries, he⟩ ho
    rw [Scope.bind, he] at ho
    obtain rfl := Except.ok.inj ho
    exact ⟨_, rfl⟩
  · rintro world error ⟨entries, he⟩ ho
    rw [Scope.bind, he] at ho
    cases ho

theorem unbindName (name : String) : Blameless (Eval.unbind name : Eval η κ Unit) := by
  refine Ensures.onScope ?_ ?_
  · rintro world scope ⟨entries, he⟩ ho
    rw [Scope.unbind, he] at ho
    obtain rfl := Except.ok.inj ho
    exact ⟨_, rfl⟩
  · rintro world error ⟨entries, he⟩ ho
    rw [Scope.unbind, he] at ho
    cases ho

theorem need {field : Field} {P : Node → Prop} {f : Node → Eval η κ β} (h : node.Has field P)
    (hf : ∀ child, P child → Blameless (f child)) : Blameless (node.need field >>= f) := by
  obtain ⟨child, hc, hp⟩ := h
  rw [Node.need, hc]
  exact hf child hp

theorem identifier (h : IsName node) : Blameless (node.identifier : Eval η κ String) :=
  Ensures.identifier (fun _ => trivial) fun hn => absurd h hn

theorem mapM {γ : Type} {f : γ → Eval η κ α} {list : List γ} (h : ∀ c ∈ list, Blameless (f c)) :
    Blameless (list.mapM f) :=
  (Ensures.mapM h).mono fun _ _ => trivial

theorem locking [Cursor κ] (h : Blameless x) (id : RowsId) : Blameless (locking id x) :=
  (onRows _).bind fun _ world hw => h world hw

end

section Expressions

theorem interpolated {inner : Node → Eval η κ Value} {P : Node → Prop} {piece : Node}
    (hi : ∀ value, P value → Blameless (inner value)) (h : piece.Wraps P) :
    Blameless (interpolated inner piece) := by
  obtain ⟨value, hv, hp⟩ := h
  rw [Run.interpolated, hv]
  exact hi value hp

theorem stringPieces {inner : Node → Eval η κ Value} {pieces : List Child}
    (hk : ∀ piece ∈ pieces, piece.2.kind ∈ stringKinds)
    (hi : ∀ piece ∈ pieces, piece.2.kind = .interpolation →
      Blameless (Run.interpolated inner piece.2)) :
    Blameless (stringPieces inner pieces) := by
  induction pieces with
  | nil => exact pure _
  | cons piece rest ih =>
    have hr := ih (fun other ho => hk other (List.mem_cons_of_mem piece ho))
      fun other ho => hi other (List.mem_cons_of_mem piece ho)
    refine bind ?_ fun _ => hr.bind fun _ => pure _
    have hp := hk piece List.mem_cons_self
    unfold stringPiece
    split
    · exact pure _
    · split
      · exact pure _
      · exact fail rfl
    · rename_i hn
      refine (hi piece List.mem_cons_self hn).bind fun value => ?_
      cases value
      case rows | connection => exact failAt rfl
      all_goals exact pure _
    · rename_i hc he hn
      simp only [stringKinds, List.mem_cons, List.not_mem_nil, or_false] at hp
      rcases hp with h | h | h
      · exact absurd h hc
      · exact absurd h he
      · exact absurd h hn

theorem lookUp (scope : Scope) (name : String) :
    Blameless (lookUp scope name : Eval η κ Value) := by
  unfold Run.lookUp
  split
  · exact pure _
  · exact fail rfl

theorem operate [Cursor κ] (value : Value) (operation : String) :
    Blameless (operate value operation : Eval η κ Value) := by
  unfold Run.operate
  split
  · exact pure _
  · split
    · exact pure _
    · exact fail rfl
  · exact (addRows _).bind fun _ => pure _
  · exact pure _
  · exact (onRows _).bind fun _ => pure _
  · exact fail rfl

theorem ofEquality (equal : Bool) (operator : String) (kind : ValueKind) :
    Blameless (ofEquality equal operator kind : Eval η κ Bool) := by
  unfold Run.ofEquality
  split
  · exact pure _
  · exact pure _
  · exact fail rfl

theorem pushValue (template : Template) (value : Value) (safe : Bool) (span : Span) :
    Blameless (Eval.placed span (Eval.settle (template.pushValue value safe)) :
      Eval η κ Template) := by
  refine placed (settle fun failure hf => ?_) span
  unfold Template.pushValue at hf
  split at hf
  · cases hf
    rfl
  · dsimp only at hf
    split at hf
    · cases hf
      rfl
    · cases hf
      rfl
    · split at hf
      · cases hf
        rfl
      · cases hf
    · cases hf
    · cases hf

variable [Cursor κ] {scope : Scope} {node : Node}

theorem basic (h : IsBasic node) : Blameless (Run.basic scope node : Eval η κ Value) := by
  induction h with
  | @string node hk hp hf _ ih =>
    rw [basic_eq, basicWith, hk]
    refine orAt ((stringPieces hp fun piece hm hi => ?_).bind fun _ => pure _) _
    obtain ⟨value, hv⟩ := Option.isSome_iff_exists.1 (hf piece hm hi)
    rw [Run.interpolated, hv]
    exact ih piece hm value hi hv
  | @integer node hk ht =>
    rw [basic_eq, basicWith, hk]
    obtain ⟨n, hn⟩ := Option.isSome_iff_exists.1 ht
    dsimp only
    rw [hn]
    exact pure _
  | @variableInstance node hk hn =>
    obtain ⟨child, hc, hi⟩ := hn
    rw [basic_eq, basicWith, hk]
    dsimp only
    rw [hc]
    exact (identifier hi).bind fun _ => (lookUp _ _).orAt _
  | @operation node left hk hl _ hr ih =>
    rw [basic_eq, basicWith, hk]
    refine orAt (need (P := (· = left)) ⟨left, hl, rfl⟩ ?_) _
    rintro _ rfl
    refine ih.bind fun value => ?_
    exact need hr fun _ hi => (identifier hi).bind fun _ => operate _ _

theorem compareValues (left right : Value) {operator : String} (h : operator ∈ comparisonTexts) :
    Blameless (compareValues left right operator : Eval η κ Bool) := by
  unfold Run.compareValues
  split
  · split
    · exact pure _
    · rename_i a b hn
      simp only [comparisonTexts, List.mem_cons, List.not_mem_nil, or_false] at h
      rcases h with rfl | rfl | rfl | rfl | rfl | rfl <;> cases hn
  · exact ofEquality _ _ _
  · split
    · exact (onRows _).bind fun _ => ofEquality _ _ _
    · exact fail rfl
  · exact fail rfl

theorem comparison (h : IsComparison node) :
    Blameless (comparison scope node : Eval η κ Bool) := by
  refine need h.left fun _ hl => (basic hl).bind fun left => need h.operator fun operator ho => ?_
  exact need h.right fun _ hr => (basic hr).bind fun right => compareValues left right ho

theorem fillValue (template : Template) {piece : Node} (h : piece.Wraps IsBasic) (safe : Bool) :
    Blameless (fillValue scope template piece safe : Eval η κ Template) :=
  (interpolated (fun _ => basic) h).bind fun _ => pushValue _ _ _ _

theorem fillPieces {pieces : List Child} (h : ∀ piece ∈ pieces, IsRawPiece piece.2)
    (template : Template) :
    Blameless (fillPieces scope template pieces : Eval η κ Template) := by
  induction pieces generalizing template with
  | nil => exact pure _
  | cons piece rest ih =>
    rw [fillPieces_cons]
    refine bind ?_ (ih fun other ho => h other (List.mem_cons_of_mem piece ho))
    rcases h piece List.mem_cons_self with hk | ⟨hk, hw⟩
    · rw [fillPiece, hk]
      exact pure _
    · simp only [interpolationKinds, List.mem_cons, List.not_mem_nil, or_false] at hk
      rcases hk with hk | hk
      · rw [fillPiece, hk]
        exact fillValue _ hw _
      · rw [fillPiece, hk]
        exact fillValue _ hw _

theorem raw {mode : TemplateMode} (h : IsRaw node) :
    Blameless (raw scope mode node : Eval η κ Filled) := by
  rw [Run.raw, if_pos h.kind]
  exact (fillPieces h.pieces _).bind fun _ => pure _

theorem basicText {what : String} (h : IsBasic node) :
    Blameless (basicText scope what node : Eval η κ String) := by
  refine (basic h).bind fun value => (settle fun failure hf => ?_).orAt _
  cases value <;> cases hf <;> rfl

theorem text {what : String} (h : IsText node) :
    Blameless (text scope what node : Eval η κ String) := by
  unfold Run.text
  split
  · rename_i hk
    exact (raw (h.raw hk)).bind fun _ => pure _
  · rename_i hk
    exact basicText (h.basic hk)

end Expressions

section Declarations

variable {settings : Settings} {node : Node}

theorem bindParameter (h : IsParameter node) :
    Blameless (bindParameter settings node : Eval η κ (Outline CommandKind)) := by
  rw [Run.bindParameter, if_pos h.kind]
  refine need h.name fun _ hi => (identifier hi).bind fun _ => ?_
  dsimp only
  split
  · exact (bindName _ _).bind fun _ => pure _
  · exact (unbindName _).bind fun _ => pure _

theorem bindParameters {list : List Child} (h : ∀ parameter ∈ list, IsParameter parameter.2) :
    Blameless (bindParameters settings list : Eval η κ (List (Outline CommandKind))) := by
  induction list with
  | nil => exact pure _
  | cons parameter rest ih =>
    rw [bindParameters_cons]
    refine (bindParameter (h parameter List.mem_cons_self)).bind fun _ => ?_
    exact (ih fun other ho => h other (List.mem_cons_of_mem parameter ho)).bind fun _ => pure _

variable [Cursor κ] {scope : Scope}

theorem declaration (h : IsDeclaration node) :
    Blameless (declaration scope node : Eval η κ (Outline ArchiveKind)) := by
  induction h with
  | @mk node hk hn hd _ ih =>
    obtain ⟨kind, hk⟩ := Option.isSome_iff_exists.1 hk
    have hm (build : List (Outline ArchiveKind) → Outline ArchiveKind) : Blameless (do
        let entries ← Eval.orAt node.span
          ((node.children.filter fun child => (declarationKind? child.2.kind).isSome).mapM
            fun child => Run.declaration scope child.2)
        Pure.pure (build entries) : Eval η κ (Outline ArchiveKind)) := by
      refine (orAt (mapM fun child hc => ?_) _).bind fun _ => pure _
      obtain ⟨hc, hs⟩ := List.mem_filter.1 hc
      exact ih child hc hs
    rw [declaration_eq, declarationWith, hk]
    refine need hn fun _ hi => (identifier hi).bind fun name => ?_
    dsimp only
    split
    · exact (pure _).bind fun _ => hm _
    · rename_i child hc
      split
      · exact (pure _).bind fun _ => hm _
      · rename_i hs
        exact (text ((hd child hc).resolve_left hs)).bind fun _ => hm _

theorem command (h : IsCommand node) :
    Blameless (command settings node : Eval η κ (Outline CommandKind)) := by
  refine get.bind fun _ => need h.title fun _ ht => (text ht).bind fun title => ?_
  have hb (entries : List (Outline CommandKind)) : Blameless (do
      let scope := (← MonadState.get).scope.command (entries.map Outline.name)
      let body ← Run.raw scope .command (← node.need .body)
      Pure.pure (.mk .command "" title (entries ++ [.leaf .sql "" body.text])) :
        Eval η κ (Outline CommandKind)) :=
    get.bind fun _ => need h.body fun _ hr => (raw hr).bind fun _ => pure _
  dsimp only
  split
  · rename_i list hl
    exact (bindParameters (h.parameters list hl)).bind hb
  · exact (pure _).bind hb

theorem declareInfo {connection : String} {fields : List Field}
    (h : ∀ field ∈ fields, node.MayHave field IsText) :
    Blameless (declareInfo connection node fields : Eval η κ Unit) := by
  induction fields with
  | nil => exact pure _
  | cons field rest ih =>
    have hr := ih fun other ho => h other (List.mem_cons_of_mem field ho)
    unfold Run.declareInfo
    dsimp only
    split
    · exact hr
    · rename_i child hc
      refine get.bind fun _ => (text (h field List.mem_cons_self child hc)).bind fun _ => ?_
      exact (onLedger _).bind fun _ => hr

theorem declareItems {connection : String} {items : List Child}
    (hs : ∀ item ∈ items, item.2.kind = .siardSchema → IsDeclaration item.2)
    (hc : ∀ item ∈ items, item.2.kind = .commandDeclaration → IsCommand item.2) :
    Blameless (declareItems settings connection items : Eval η κ Unit) := by
  induction items with
  | nil => exact pure _
  | cons item rest ih =>
    rw [declareItems_cons]
    refine bind ?_ fun _ => ih (fun other ho => hs other (List.mem_cons_of_mem item ho))
      fun other ho => hc other (List.mem_cons_of_mem item ho)
    unfold declareItem
    split
    · rename_i hk
      have hd := hs item List.mem_cons_self hk
      exact get.bind fun _ => (declaration hd).bind fun _ => onLedger _
    · rename_i hk
      exact (command (hc item List.mem_cons_self hk)).bind fun _ => onLedger _
    · exact pure _

theorem siardMetadata (h : IsMetadata node) :
    Blameless (siardMetadata settings node : Eval η κ Unit) := by
  refine need h.connection fun _ hi => (identifier hi).bind fun _ => (onLedger _).bind fun _ => ?_
  exact (declareInfo h.info).bind fun _ => declareItems h.schemas h.commands

end Declarations

section Statements

variable {settings : Settings} {node : Node} {scope : Scope}

theorem connectionOf (h : node.Has .connection IsName) :
    Blameless (connectionOf scope node : Eval η κ Connection) := by
  refine need h fun _ hi => (identifier hi).bind fun _ => ?_
  split
  · exact fail rfl
  · rename_i value _
    refine (settle fun failure hf => ?_).placed _
    cases value <;> cases hf <;> rfl

theorem bindCells (names : List String) (row : Row) :
    Blameless (bindCells names row : Eval η κ Unit) := by
  induction names generalizing row with
  | nil => exact pure _
  | cons name names ih =>
    unfold Run.bindCells
    dsimp only
    split
    · exact (bindName _ _).bind fun _ => ih _
    · exact (unbindName _).bind fun _ => ih _

variable [Cursor κ]

theorem propertiesFrom {pairs : List Child} (h : ∀ pair ∈ pairs, IsProperty pair.2)
    (properties : Dict String) :
    Blameless (propertiesFrom scope properties pairs : Eval η κ (Dict String)) := by
  induction pairs generalizing properties with
  | nil => exact pure _
  | cons pair rest ih =>
    have hp := h pair List.mem_cons_self
    refine need hp.key fun _ hi => (identifier hi).bind fun _ => need hp.value fun _ ht => ?_
    exact ((text ht).orAt _).bind fun _ =>
      ih (fun other ho => h other (List.mem_cons_of_mem pair ho)) _

theorem log (h : node.Has .value IsText) : Blameless (log node : Eval η κ Unit) := by
  refine get.bind fun _ => need h fun child ht => ?_
  dsimp only
  split
  · rename_i hk
    exact (raw (ht.raw hk)).bind fun _ => (pure _).bind fun _ => record _
  · rename_i hk
    refine (basic (ht.basic hk)).bind fun value => bind ?_ fun _ => (pure _).bind fun _ => record _
    refine (settle fun failure hf => ?_).orAt _
    unfold Value.accept at hf
    split at hf
    · cases hf
    · cases hf
      rfl

theorem assert (h : node.Has .condition IsComparison) :
    Blameless (assert node : Eval η κ Unit) := by
  refine get.bind fun _ => need h fun _ hc => (comparison hc).bind fun _ => ?_
  split
  · exact failAt rfl
  · exact pure _

theorem forRows {body : Eval η κ Unit} (hb : Blameless body) (rows : RowsId)
    (names : List String) (rounds : Nat) : Blameless (forRows rows names body rounds) := by
  induction rounds with
  | zero => exact pure _
  | succ rounds ih =>
    refine (onRows _).bind fun next => ?_
    cases next with
    | none => exact pure _
    | some row => exact (bindCells _ _).bind fun _ => hb.bind fun _ => ih

variable [Host η κ]

theorem runScript (h : IsScriptCall node) :
    Blameless (runScript settings node : Eval η κ String) := by
  refine get.bind fun _ => need h.interpreter fun _ hb => (basicText hb).bind fun _ => ?_
  exact need h.script fun _ hr => (raw hr).bind fun _ => call fun _ => rfl

theorem connect (hu : node.Has .url IsBasic)
    (hp : node.MayHave .properties (Node.All · IsProperty)) :
    Blameless (connect node : Eval η κ Connection) := by
  have hc (url : String) (properties : Dict String) : Blameless (do
      let link ← Eval.call (.connect url properties) .sql (Host.connect url properties)
      let connection : Connection := ⟨(← MonadState.get).opened, link.url, link.properties⟩
      modify fun world => { world with opened := world.opened + 1 }
      Eval.record (.opened connection)
      Pure.pure connection : Eval η κ Connection) := by
    refine (call fun _ => rfl).bind fun _ => get.bind fun _ => ?_
    exact bind (fun _ hw => ⟨hw, trivial⟩) fun _ => (record _).bind fun _ => pure _
  refine get.bind fun _ => need hu fun _ hb => (basicText hb).bind fun url => ?_
  dsimp only
  split
  · rename_i pairs hn
    exact (propertiesFrom (hp pairs hn) _).bind (hc url)
  · exact (pure _).bind (hc url)

theorem query (h : IsSqlCall node) : Blameless (query node : Eval η κ RowsId) := by
  refine get.bind fun _ => (connectionOf h.connection).bind fun _ => need h.sql fun _ hr => ?_
  exact (raw hr).bind fun _ => (call fun _ => rfl).bind fun _ => addRows _

theorem executeSql (h : IsSqlCall node) : Blameless (executeSql node : Eval η κ Unit) := by
  refine get.bind fun _ => (connectionOf h.connection).bind fun _ => need h.sql fun _ hr => ?_
  exact (raw hr).bind fun _ => call fun _ => rfl

theorem expression (h : IsExpression node) :
    Blameless (expression settings node : Eval η κ Value) := by
  cases h with
  | text ht =>
    rcases ht with hr | hb
    · rw [Run.expression, hr.kind]
      exact get.bind fun _ => (raw hr).bind fun _ => pure _
    · have hk := hb.kind_mem
      simp only [basicKinds, List.mem_cons, List.not_mem_nil, or_false] at hk
      unfold Run.expression
      rcases hk with hk | hk | hk | hk <;> rw [hk] <;> exact get.bind fun _ => basic hb
  | connection hk hu hp =>
    rw [Run.expression, hk]
    exact (connect hu hp).bind fun _ => pure _
  | query hk h =>
    rw [Run.expression, hk]
    exact (query h).bind fun _ => pure _
  | scriptResult hk h =>
    rw [Run.expression, hk]
    exact (runScript h).bind fun _ => pure _

theorem siardOutput (hc : node.Has .connection IsName) (hf : node.Has .file IsText) :
    Blameless (siardOutput settings node : Eval η κ Unit) := by
  refine need hc fun _ hi => (identifier hi).bind fun _ => get.bind fun _ => ?_
  refine (connectionOf hc).bind fun _ => need hf fun _ ht => (text ht).bind fun _ => ?_
  refine (call fun _ => rfl).bind fun _ => get.bind fun _ => ?_
  dsimp only
  split
  case' h_1 => refine (call fun _ => rfl).bind fun _ => ?_
  all_goals
    refine get.bind fun _ => ?_
    split
    · exact (call fun _ => rfl).bind fun _ => record _
    · exact call fun _ => rfl

theorem block (h : ∀ child ∈ node.children,
      Blameless (statementWith settings (Run.block settings) child.2 : Eval η κ Unit)) :
    Blameless (block settings node : Eval η κ Unit) := by
  rw [block_eq]
  generalize node.children = children at h
  induction children with
  | nil => exact pure _
  | cons child rest ih =>
    refine (h child List.mem_cons_self).bind fun _ => ?_
    exact ih fun other ho => h other (List.mem_cons_of_mem child ho)

theorem statement (h : IsStatement node) :
    Blameless (statementWith settings (Run.block settings) node : Eval η κ Unit) := by
  induction h with
  | nop hk =>
    rw [statementWith, hk]
    exact (pure _).orAt _
  | parameters hk hp =>
    rw [statementWith, hk]
    exact (bindParameters hp).discard.orAt _
  | set hk hn hv =>
    rw [statementWith, hk]
    refine orAt (need hn fun _ hi => (identifier hi).bind fun _ => ?_) _
    exact need hv fun _ he => (expression he).bind fun _ => bindName _ _
  | executeUsing hk h =>
    rw [statementWith, hk]
    exact (runScript h).discard.orAt _
  | executeSql hk h =>
    rw [statementWith, hk]
    exact (executeSql h).orAt _
  | siardMetadata hk h =>
    rw [statementWith, hk]
    exact (siardMetadata h).orAt _
  | siardOutput hk hc hf =>
    rw [statementWith, hk]
    exact (siardOutput hc hf).orAt _
  | log hk hv =>
    rw [statementWith, hk]
    exact (log hv).orAt _
  | assert hk hc =>
    rw [statementWith, hk]
    exact (assert hc).orAt _
  | @forLoop node body hk hn hr hb _ ih =>
    rw [statementWith, hk]
    refine orAt (need hn fun names hi => (mapM fun child hc => ?_).bind fun names => ?_) _
    · exact identifier (hi child hc)
    refine need hr fun _ hs => get.bind fun _ => (basic hs).bind fun source => ?_
    refine ((settle fun failure hf => ?_).orAt _).bind fun rows => ?_
    · cases source <;> cases hf <;> rfl
    refine need (P := (· = body)) ⟨body, hb, rfl⟩ ?_
    rintro _ rfl
    exact locking (get.bind fun _ => forRows (block ih) _ _ _) _
  | @conditional node consequent hk hc ht _ _ ih ih' =>
    rw [statementWith, hk]
    refine orAt (get.bind fun _ => need hc fun _ hq => (comparison hq).bind fun holds => ?_) _
    split
    · refine need (P := (· = consequent)) ⟨consequent, ht, rfl⟩ ?_
      rintro _ rfl
      exact block ih
    · split
      · rename_i alternative ha
        exact block (ih' alternative ha)
      · exact pure _

/-- A script of the grammar runs to its end, or fails for a reason of its own. -/
theorem script {tree : Node} (h : IsScript tree) :
    Blameless (script settings tree : Eval η κ Unit) := by
  rw [Run.script, if_pos h.kind]
  exact block fun child hc => statement (h.statements child hc)

end Statements

end Blameless

section

variable {η κ : Type} [Cursor κ] [Host η κ]

/-- The tree of a script in reach of spans has all that a run of it relies on. So a run of the
script never fails for a node that is missing or that it does not know, and never within itself,
whatever the parameters, the directory and the host are. -/
theorem parsed_runs_blameless (settings : Settings) (source : List Char) (host : η)
    (hsize : Text.bytes source < 2 ^ 32) :
    IsScript (parse source).tree ∧
      ∀ failure, (script settings (parse source).tree ({ host } : World η κ)).1 = .error failure →
        (∀ reason, failure.cause ≠ .internal reason) ∧
        (∀ kind place, failure.cause ≠ .unexpectedNode kind place) ∧
        (∀ parent field, failure.cause ≠ .missingField parent field) ∧
        ∀ what text, failure.cause = .invalidLiteral what text →
          what ≠ "integer" ∧ what ≠ "comparison operator" := by
  have hs := parse_isScript (Nat.le_of_lt_succ hsize)
  refine ⟨hs, fun failure hf => ?_⟩
  have hr : Blameless (script settings (parse source).tree : Eval η κ Unit) := Blameless.script hs
  have hb := (hr { host } ⟨_, rfl⟩).2
  rw [hf] at hb
  refine ⟨?_, ?_, ?_, ?_⟩
  · rintro reason hc
    simp [hc, Cause.blamesTree] at hb
  · rintro kind place hc
    simp [hc, Cause.blamesTree] at hb
  · rintro parent field hc
    simp [hc, Cause.blamesTree] at hb
  · rintro what text hc
    simpa [hc, Cause.blamesTree] using hb

def strayAssertion : List Char := "Assert a.as_integer == 6\n".toList

theorem parsed_runs_blameless_stray :
    IsScript (parse strayAssertion).tree ∧
      ∃ failure, (script ⟨.empty, "/work"⟩ (parse strayAssertion).tree
          ({ host := {} } : World Rehearsal (FaultyCursor TableCursor))).1 = .error failure ∧
        ∀ reason, failure.cause ≠ .internal reason := by
  have hfails : (script ⟨.empty, "/work"⟩ (parse strayAssertion).tree
      ({ host := {} } : World Rehearsal (FaultyCursor TableCursor))).1 =
        .error ⟨.undefinedVariable "a", some ⟨7, 8⟩⟩ := by cbv
  obtain ⟨hs, hb⟩ := @parsed_runs_blameless Rehearsal (FaultyCursor TableCursor) _ _
    ⟨.empty, "/work"⟩ strayAssertion {} (by decide)
  exact ⟨hs, _, hfails, (hb _ hfails).1⟩

def numberScript (count : Nat) : List Char :=
  "Set x = ".toList ++ (Printing.longNumber count).print

theorem number_lost {count : Nat} (h : Span.maxOffset ≤ count) (settings : Settings)
    (world : World η κ) :
    (parse (numberScript count)).mistakes = [] ∧
      ∃ failure, (script settings (parse (numberScript count)).tree world).1 = .error failure ∧
        failure.cause = .invalidLiteral "integer" "" := by
  have hreads : ReadsAs (numberScript count) (.branch .sourceFile
      [(none, assignment ⟨'x', [], rfl, List.forall_mem_nil _⟩
        (.terminal .integer (Printing.longNumber count).print))]) := by
    have hline := Printing.reads_line (.set ⟨'x', [], rfl, List.forall_mem_nil _⟩
      (.basic (.integer false (Printing.longNumber count)))) (fun _ => rfl) (.inl rfl)
    rwa [List.append_nil] at hline
  obtain ⟨root, line, place, shown, child, hp, hchild⟩ := exists_of_fades_assignment hreads.fades.2
  obtain ⟨span, rfl⟩ := hchild.lost (.of_bytes (Printing.bytes_longNumber h))
  refine ⟨hreads.fades.1, ⟨.invalidLiteral "integer" "", some span⟩, ?_, rfl⟩
  rw [hp, script_eq settings rfl]
  dsimp only [Node.children]
  rw [statements_singleton, statementWith, Eval.orAt]
  dsimp only [Node.kind]
  rw [set, run_need rfl, run_identifier rfl, run_need rfl]
  rfl

/-- An integer out of reach of spans has no text, and so it is none. -/
theorem unreachable_integer_blamed :
    let source := numberScript Span.maxOffset
    let world : World Rehearsal (FaultyCursor TableCursor) := { host := {} }
    (parse source).mistakes = [] ∧
      ∃ failure, (script ⟨.empty, "/work"⟩ (parse source).tree world).1 = .error failure ∧
        failure.cause = .invalidLiteral "integer" "" :=
  number_lost (Nat.le_refl _) _ _

end

end Run

end ArchiveScript
