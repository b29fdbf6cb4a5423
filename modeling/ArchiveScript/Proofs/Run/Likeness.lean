import ArchiveScript.Proofs.Run.Ensures
import ArchiveScript.Proofs.Run.Recursion
import ArchiveScript.Proofs.Tree.Alike

/-! # Runs of alike trees

Of a tree, a run reads the kinds and the texts, and of a literal piece only what is left of it when
all line feeds are written in one way. So alike trees run alike: they do the same to the state, and
if they fail, they fail for the same cause, at places that stand for each other.
-/

namespace ArchiveScript

variable {L : Likeness}

structure Failure.Alike (L : Likeness) (failure failure' : Failure) : Prop where
  cause : failure'.cause = failure.cause
  span : Option.Rel (Span.Alike L) failure.span failure'.span

namespace Failure.Alike

variable {failure failure' : Failure} {span span' : Span}

theorem at_span {cause : Cause} (h : span.Alike L span') :
    Failure.Alike L ⟨cause, some span⟩ ⟨cause, some span'⟩ :=
  ⟨rfl, .some h⟩

theorem placed (h : failure.Alike L failure') (hs : span.Alike L span') :
    (failure.placed span).Alike L (failure'.placed span') :=
  ⟨h.cause, .some hs⟩

theorem orPlaced (h : failure.Alike L failure') (hs : span.Alike L span') :
    (failure.orPlaced span).Alike L (failure'.orPlaced span') := by
  have hi : failure'.isInternal = failure.isInternal := by rw [isInternal, isInternal, h.cause]
  have hn : failure'.span.isNone = failure.span.isNone := by
    have hspan := h.span
    generalize failure.span = place at hspan
    generalize failure'.span = place' at hspan
    cases hspan <;> rfl
  rw [Failure.orPlaced, Failure.orPlaced, hi, hn]
  split
  · exact h.placed hs
  · exact h

end Failure.Alike

/-- The texts of both layouts are in reach of spans. Literal pieces that stand for each other are
filled in alike, because all line feeds are written in one way. -/
class Likeness.Unifies (L : Likeness) : Prop where
  fits : L.fits
  feeds : ∀ text text', L.literal text text' →
    Template.unifyFeeds text' = Template.unifyFeeds text

namespace Node

variable [L.Unifies] {node node' : Node}

theorem Alike.same_text (h : node.Alike L node') (hk : node.kind ≠ .rawContent) :
    node'.text = node.text :=
  h.text Likeness.Unifies.fits hk

theorem Alike.same_feeds (h : node.Alike L node') :
    Template.unifyFeeds node'.text.toList = Template.unifyFeeds node.text.toList :=
  Likeness.Unifies.feeds _ _ (h.texts Likeness.Unifies.fits).literal

theorem Paired.text (h : node.Paired L node') : node'.text = node.text :=
  h.same Likeness.Unifies.fits

end Node

namespace Run

open Eval

variable {η κ α α' β β' : Type}

/-- Both parts have come to the same state, with values that are related or with failures that are
alike. -/
inductive Ends (L : Likeness) (R : α → α' → Prop) :
    Except Failure α × World η κ → Except Failure α' × World η κ → Prop
  | ok {a : α} {a' : α'} {world : World η κ} (h : R a a') : Ends L R (.ok a, world) (.ok a', world)
  | error {failure failure' : Failure} {world : World η κ} (h : failure.Alike L failure') :
      Ends L R (.error failure, world) (.error failure', world)

/-- From every state, both parts of a run do the same. -/
def Concur (L : Likeness) (R : α → α' → Prop) (eval : Eval η κ α) (eval' : Eval η κ α') : Prop :=
  ∀ world, Ends L R (eval world) (eval' world)

/-- The part reads nothing of a tree, so it gives no place to its failures. -/
def Placeless (eval : Eval η κ α) : Prop :=
  Ensures (fun _ => True) (fun _ => True) (·.span = none) eval

namespace Placeless

theorem call {event : Event} {cause : String → Cause} {act : Act η α} :
    Placeless (call event cause act : Eval η κ α) :=
  Ensures.call (fun _ _ _ _ _ _ => trivial) fun _ => rfl

theorem record (event : Event) : Placeless (record event : Eval η κ Unit) :=
  Ensures.record (fun _ _ _ _ _ _ => trivial) event

theorem onLedger (operation : Ledger → Ledger) : Placeless (onLedger operation : Eval η κ Unit) :=
  Ensures.onLedger (fun _ _ _ _ _ _ => trivial) operation

theorem onRows (operation : RowsStore κ → Except RowsError α × RowsStore κ) :
    Placeless (onRows operation : Eval η κ α) :=
  Ensures.onRows (fun _ _ => trivial) fun _ => rfl

theorem addRows (rows : Rows κ) : Placeless (addRows rows : Eval η κ RowsId) :=
  fun _ _ => ⟨trivial, trivial⟩

theorem bindName (name : String) (value : Value) :
    Placeless (Eval.bind name value : Eval η κ Unit) :=
  Ensures.onScope (fun _ _ _ _ => trivial) fun _ _ _ _ => rfl

theorem unbindName (name : String) : Placeless (Eval.unbind name : Eval η κ Unit) :=
  Ensures.onScope (fun _ _ _ _ => trivial) fun _ _ _ _ => rfl

theorem lookUp (scope : Scope) (name : String) :
    Placeless (lookUp scope name : Eval η κ Value) := by
  unfold Run.lookUp
  split
  · exact Ensures.pure trivial
  · exact Ensures.fail rfl

theorem operate [Cursor κ] (value : Value) (operation : String) :
    Placeless (operate value operation : Eval η κ Value) := by
  unfold Run.operate
  split
  · exact Ensures.pure trivial
  · split
    · exact Ensures.pure trivial
    · exact Ensures.fail rfl
  · exact Ensures.seq (addRows _) fun _ => Ensures.pure trivial
  · exact Ensures.pure trivial
  · exact Ensures.seq (onRows _) fun _ => Ensures.pure trivial
  · exact Ensures.fail rfl

theorem ofEquality (equal : Bool) (operator : String) (kind : ValueKind) :
    Placeless (ofEquality equal operator kind : Eval η κ Bool) := by
  unfold Run.ofEquality
  split
  · exact Ensures.pure trivial
  · exact Ensures.pure trivial
  · exact Ensures.fail rfl

theorem compareValues [Cursor κ] (left right : Value) (operator : String) :
    Placeless (compareValues left right operator : Eval η κ Bool) := by
  unfold Run.compareValues
  split
  · split
    · exact Ensures.pure trivial
    · exact Ensures.fail rfl
  · exact ofEquality _ _ _
  · split
    · exact Ensures.seq (onRows _) fun _ => ofEquality _ _ _
    · exact Ensures.fail rfl
  · exact Ensures.fail rfl

theorem pushValue (template : Template) (value : Value) (safe : Bool) :
    Placeless (settle (template.pushValue value safe) : Eval η κ Template) := by
  apply Ensures.settle (fun _ _ => trivial)
  intro failure hf
  unfold Template.pushValue at hf
  split at hf
  · cases hf
    rfl
  · dsimp only at hf
    split at hf
    · cases hf
      rfl
    · cases hf
      rfl
    · split at hf
      · cases hf
        rfl
      · cases hf
    · cases hf
    · cases hf

theorem expectText (value : Value) (what : String) :
    Placeless (settle (value.expectText what) : Eval η κ String) := by
  apply Ensures.settle (fun _ _ => trivial)
  intro failure hf
  cases value <;> cases hf <;> rfl

theorem expectRows (value : Value) (what : String) :
    Placeless (settle (value.expectRows what) : Eval η κ RowsId) := by
  apply Ensures.settle (fun _ _ => trivial)
  intro failure hf
  cases value <;> cases hf <;> rfl

theorem expectConnection (value : Value) (what : String) :
    Placeless (settle (value.expectConnection what) : Eval η κ Connection) := by
  apply Ensures.settle (fun _ _ => trivial)
  intro failure hf
  cases value <;> cases hf <;> rfl

theorem accept (value : Value) (allowed : List ValueKind) (what : String) :
    Placeless (settle (value.accept allowed what) : Eval η κ Value) := by
  apply Ensures.settle (fun _ _ => trivial)
  intro failure hf
  unfold Value.accept at hf
  split at hf
  · cases hf
  · cases hf
    rfl

theorem bindCells (names : List String) (row : Row) :
    Placeless (bindCells names row : Eval η κ Unit) := by
  induction names generalizing row with
  | nil => exact Ensures.pure trivial
  | cons name names ih =>
    unfold Run.bindCells
    dsimp only
    split
    · exact Ensures.seq (bindName _ _) fun _ => ih _
    · exact Ensures.seq (unbindName _) fun _ => ih _

end Placeless

namespace Concur

section

variable {R : α → α' → Prop} {Q : β → β' → Prop} {x : Eval η κ α} {x' : Eval η κ α'}
  {f : α → Eval η κ β} {f' : α' → Eval η κ β'} {span span' : Span}

theorem pure {a : α} {a' : α'} (h : R a a') :
    Concur L R (pure a : Eval η κ α) (pure a' : Eval η κ α') :=
  fun _ => .ok h

theorem bind (hx : Concur L R x x') (hf : ∀ a a', R a a' → Concur L Q (f a) (f' a')) :
    Concur L Q (x >>= f) (x' >>= f') := by
  intro world
  have h := hx world
  rw [run_bind, run_bind]
  generalize x world = done at h
  generalize x' world = done' at h
  cases h with
  | ok ha => exact hf _ _ ha _
  | error he => exact .error he

theorem seq {x' : Eval η κ α} {f' : α → Eval η κ β'} (hx : Concur L Eq x x')
    (hf : ∀ a, Concur L Q (f a) (f' a)) : Concur L Q (x >>= f) (x' >>= f') :=
  hx.bind fun a _ ha => ha ▸ hf a

theorem map_left {g : α → β} {Q : β → α' → Prop} (h : Concur L R x x')
    (hg : ∀ a a', R a a' → Q (g a) a') : Concur L Q (x >>= fun a => Pure.pure (g a)) x' := by
  rw [← bind_pure x']
  exact h.bind fun a a' ha => pure (hg a a' ha)

theorem discard (h : Concur L R x x') :
    Concur L Eq (Functor.discard x) (Functor.discard x') := by
  have hd {γ : Type} (y : Eval η κ γ) : Functor.discard y = y >>= fun _ => Pure.pure () := by
    rw [bind_pure_comp]
    rfl
  rw [hd, hd]
  exact h.bind fun _ _ _ => pure rfl

/-- A part that reads nothing of the trees is the same part. -/
theorem same (h : Placeless x) : Concur L Eq x x := by
  intro world
  have hw := h world trivial
  rcases hx : x world with ⟨failure | a, after⟩
  · rw [hx] at hw
    obtain ⟨cause, span⟩ := failure
    obtain rfl : span = none := hw.2
    exact .error ⟨rfl, .none⟩
  · exact .ok rfl

theorem get : Concur L Eq (get : Eval η κ (World η κ)) (MonadState.get) := fun _ => .ok rfl

theorem fail {cause : Cause} : Concur L R (fail cause : Eval η κ α) (fail cause : Eval η κ α') :=
  fun _ => .error ⟨rfl, .none⟩

theorem failAt {cause : Cause} (h : span.Alike L span') :
    Concur L R (failAt span cause : Eval η κ α) (failAt span' cause : Eval η κ α') :=
  fun _ => .error (.at_span h)

theorem orAt (hs : span.Alike L span') (h : Concur L R x x') :
    Concur L R (orAt span x) (orAt span' x') := by
  intro world
  have hw := h world
  rw [Eval.orAt, Eval.orAt]
  generalize x world = done at hw
  generalize x' world = done' at hw
  cases hw with
  | ok ha => exact .ok ha
  | error he => exact .error (he.orPlaced hs)

theorem placed (hs : span.Alike L span') (h : Concur L R x x') :
    Concur L R (placed span x) (placed span' x') := by
  intro world
  have hw := h world
  rw [Eval.placed, Eval.placed]
  generalize x world = done at hw
  generalize x' world = done' at hw
  cases hw with
  | ok ha => exact .ok ha
  | error he => exact .error (he.placed hs)

theorem locking [Cursor κ] (h : Concur L R x x') (id : RowsId) :
    Concur L R (locking id x) (locking id x') := by
  refine (same (Placeless.onRows _)).seq fun _ => ?_
  intro world
  have hw := h world
  dsimp only
  generalize x world = done at hw
  generalize x' world = done' at hw
  cases hw with
  | ok ha => exact .ok ha
  | error he => exact .error he

theorem mapM {γ γ' : Type} {S : γ → γ' → Prop} {g : γ → Eval η κ α} {g' : γ' → Eval η κ α}
    {list : List γ} {list' : List γ'} (hl : List.Forall₂ S list list')
    (h : ∀ c c', S c c' → Concur L Eq (g c) (g' c')) :
    Concur L Eq (list.mapM g) (list'.mapM g') := by
  induction hl with
  | nil => exact pure rfl
  | cons hc _ ih =>
    rw [List.mapM_cons, List.mapM_cons]
    exact (h _ _ hc).seq fun _ => ih.seq fun _ => pure rfl

end

section Nodes

variable [L.Unifies] {Q : β → β' → Prop} {node node' : Node} (hn : node.Alike L node')

include hn

omit [L.Unifies] in
theorem need {field : Field} {f : Node → Eval η κ β} {f' : Node → Eval η κ β'}
    (hf : ∀ child child', child.Paired L child' → Concur L Q (f child) (f' child')) :
    Concur L Q (node.need field >>= f) (node'.need field >>= f') := by
  have hc := hn.field? field
  unfold Node.need
  generalize node.field? field = child at hc
  generalize node'.field? field = child' at hc
  cases hc with
  | some hc => exact hf _ _ hc
  | none =>
    rw [hn.kind]
    intro world
    exact .error (.at_span hn.span)

theorem identifier :
    Concur L Eq (node.identifier : Eval η κ String) (node'.identifier : Eval η κ String) := by
  rw [Node.identifier, Node.identifier, hn.kind]
  split
  · rename_i hk
    rw [hn.same_text (by rw [hk]; decide)]
    exact pure rfl
  · exact failAt hn.span

end Nodes

section Expressions

variable [L.Unifies] {scope : Scope} {node node' : Node} {inner inner' : Node → Eval η κ Value}

omit [L.Unifies] in
theorem interpolated
    (hi : ∀ child child', child.Alike L child' → Concur L Eq (inner child) (inner' child'))
    (hn : node.Alike L node') :
    Concur L Eq (interpolated inner node) (interpolated inner' node') := by
  have hc := hn.first?
  unfold Run.interpolated
  rw [hn.kind]
  generalize node.first? = child at hc
  generalize node'.first? = child' at hc
  cases hc with
  | some hc => exact hi _ _ hc
  | none => exact fail

theorem stringPiece
    (hi : ∀ child child', child.Alike L child' → Concur L Eq (inner child) (inner' child'))
    (hn : node.Alike L node') :
    Concur L Eq (stringPiece inner node) (stringPiece inner' node') := by
  have ht (hk : node.kind ≠ .rawContent) : node'.text = node.text := hn.same_text hk
  unfold Run.stringPiece
  rw [hn.kind]
  split
  · rename_i hk
    rw [ht (by rw [hk]; decide)]
    exact pure rfl
  · rename_i hk
    rw [ht (by rw [hk]; decide)]
    split
    · exact pure rfl
    · exact fail
  · refine (interpolated hi hn).seq fun value => ?_
    cases value
    case rows | connection => exact failAt hn.span
    all_goals exact pure rfl
  · exact fail

theorem stringPieces {pieces pieces' : List Child}
    (hi : ∀ child child', child.Alike L child' → Concur L Eq (inner child) (inner' child'))
    (hp : List.Forall₂ (fun piece piece' => piece.2.Alike L piece'.2) pieces pieces') :
    Concur L Eq (stringPieces inner pieces) (stringPieces inner' pieces') := by
  induction hp with
  | nil => exact pure rfl
  | cons hc _ ih => exact (stringPiece hi hc).seq fun _ => ih.seq fun _ => pure rfl

variable [Cursor κ]

theorem basicWith
    (hi : ∀ child child', child.Alike L child' → Concur L Eq (inner child) (inner' child'))
    (hn : node.Alike L node') :
    Concur L Eq (basicWith inner scope node) (basicWith inner' scope node') := by
  unfold Run.basicWith
  rw [hn.kind]
  split
  · exact ((stringPieces hi hn.children.forall₂).seq fun _ => pure rfl).orAt hn.span
  · rename_i hk
    rw [hn.same_text (by rw [hk]; decide)]
    split
    · exact pure rfl
    · exact failAt hn.span
  · have hc := hn.first?
    generalize node.first? = child at hc
    generalize node'.first? = child' at hc
    cases hc with
    | none => exact fail
    | some hc => exact (identifier hc).seq fun _ => (same (.lookUp _ _)).orAt hn.span
  · refine orAt hn.span (need hn fun _ _ hl => (hi _ _ hl.alike).seq fun value => ?_)
    exact need hn fun _ _ hr => (identifier hr.alike).seq fun _ => same (.operate _ _)
  · exact failAt hn.span

theorem basicWithin (height : Nat) (hn : node.Alike L node') :
    Concur L Eq (basicWithin scope height node : Eval η κ Value)
      (basicWithin scope height node') := by
  induction height generalizing node node' with
  | zero =>
    unfold Run.basicWithin
    rw [hn.kind]
    exact failAt hn.span
  | succ height ih => exact basicWith (fun _ _ => ih) hn

theorem basic (hn : node.Alike L node') :
    Concur L Eq (basic scope node : Eval η κ Value) (basic scope node') := by
  unfold Run.basic
  rw [hn.height]
  exact basicWithin _ hn

theorem comparison (hn : node.Alike L node') :
    Concur L Eq (comparison scope node : Eval η κ Bool) (comparison scope node') := by
  refine need hn fun _ _ hl => (basic hl.alike).seq fun left => need hn fun _ _ ho => ?_
  rw [ho.text]
  exact need hn fun _ _ hr => (basic hr.alike).seq fun right => same (.compareValues left right _)

end Expressions

section Templates

variable [Cursor κ] {scope : Scope} {node node' : Node} [L.Unifies]

theorem fillPiece (template : Template) (hn : node.Alike L node') :
    Concur L Eq (fillPiece scope template node : Eval η κ Template)
      (fillPiece scope template node') := by
  have hv (safe : Bool) : Concur L Eq (fillValue scope template node safe : Eval η κ Template)
      (fillValue scope template node' safe) :=
    (interpolated (fun _ _ => basic) hn).seq fun _ => (same (.pushValue _ _ _)).placed hn.span
  unfold Run.fillPiece
  rw [hn.kind]
  split
  · rw [Template.pushLiteral, Template.pushLiteral, hn.same_feeds]
    exact pure rfl
  · exact hv false
  · exact hv true
  · exact failAt hn.span

theorem fillPieces {pieces pieces' : List Child}
    (hp : List.Forall₂ (fun piece piece' => piece.2.Alike L piece'.2) pieces pieces')
    (template : Template) :
    Concur L Eq (fillPieces scope template pieces : Eval η κ Template)
      (fillPieces scope template pieces') := by
  induction hp generalizing template with
  | nil => exact pure rfl
  | cons hc _ ih =>
    rw [fillPieces_cons, fillPieces_cons]
    exact (fillPiece template hc).seq fun filled => ih filled

theorem raw {mode : TemplateMode} (hn : node.Alike L node') :
    Concur L Eq (raw scope mode node : Eval η κ Filled) (raw scope mode node') := by
  unfold Run.raw
  rw [hn.kind]
  split
  · exact (fillPieces hn.children.forall₂ _).seq fun _ => pure rfl
  · exact failAt hn.span

theorem basicText {what : String} (hn : node.Alike L node') :
    Concur L Eq (basicText scope what node : Eval η κ String) (basicText scope what node') :=
  (basic hn).seq fun _ => (same (.expectText _ _)).orAt hn.span

theorem text {what : String} (hn : node.Alike L node') :
    Concur L Eq (text scope what node : Eval η κ String) (text scope what node') := by
  unfold Run.text
  rw [hn.kind]
  split
  · exact (raw hn).seq fun _ => pure rfl
  · exact basicText hn

end Templates

section Declarations

variable [L.Unifies] {settings : Settings} {node node' : Node}

theorem bindParameter (hn : node.Alike L node') :
    Concur L Eq (bindParameter settings node : Eval η κ (Outline CommandKind))
      (bindParameter settings node') := by
  have hd : (node'.field? .description).map Node.text =
      (node.field? .description).map Node.text := by
    have hc := hn.field? .description
    generalize node.field? .description = child at hc
    generalize node'.field? .description = child' at hc
    cases hc with
    | none => rfl
    | some hc => exact congrArg some hc.text
  unfold Run.bindParameter
  rw [hn.kind, hd]
  split
  · refine need hn fun _ _ hi => (identifier hi.alike).seq fun _ => ?_
    dsimp only
    split
    · exact (same (.bindName _ _)).seq fun _ => pure rfl
    · exact (same (.unbindName _)).seq fun _ => pure rfl
  · exact failAt hn.span

theorem bindParameters {list list' : List Child}
    (hl : List.Forall₂ (fun parameter parameter' => parameter.2.Alike L parameter'.2) list list') :
    Concur L Eq (bindParameters settings list : Eval η κ (List (Outline CommandKind)))
      (bindParameters settings list') := by
  induction hl with
  | nil => exact pure rfl
  | cons hc _ ih =>
    rw [bindParameters_cons, bindParameters_cons]
    exact (bindParameter hc).seq fun _ => ih.seq fun _ => pure rfl

variable [Cursor κ] {scope : Scope}

theorem declarationWith {inner inner' : Node → Eval η κ (Outline ArchiveKind)}
    (hi : ∀ child child', child.Alike L child' → Concur L Eq (inner child) (inner' child'))
    (hn : node.Alike L node') :
    Concur L Eq (declarationWith inner scope node) (declarationWith inner' scope node') := by
  -- A literal piece is no declaration, so it is left out in both trees.
  have hnested : List.Forall₂ (fun child child' => child.2.Alike L child'.2)
      (node.children.filter fun child => (declarationKind? child.2.kind).isSome)
      (node'.children.filter fun child => (declarationKind? child.2.kind).isSome) := by
    apply List.rel_filter _ hn.children.forall₂
    intro child child' hc
    dsimp only
    rw [hc.kind]
  have hm (build : List (Outline ArchiveKind) → Outline ArchiveKind) :=
    ((mapM hnested fun _ _ hc => hi _ _ hc).orAt hn.span).seq fun entries =>
      (pure rfl : Concur L Eq (Pure.pure (build entries) : Eval η κ _) (Pure.pure (build entries)))
  unfold Run.declarationWith
  rw [hn.kind]
  split
  · exact failAt hn.span
  · refine need hn fun _ _ hi => (identifier hi.alike).seq fun name => ?_
    have hc := hn.field? .description
    generalize node.field? .description = child at hc
    generalize node'.field? .description = child' at hc
    dsimp only
    cases hc with
    | none => exact (pure rfl).seq fun _ => hm _
    | some hc =>
      dsimp only
      rw [hc.alike.kind, hc.text]
      split
      · exact (pure rfl).seq fun _ => hm _
      · exact (text hc.alike).seq fun _ => hm _

theorem declaration (hn : node.Alike L node') :
    Concur L Eq (declaration scope node : Eval η κ (Outline ArchiveKind))
      (declaration scope node') := by
  have hw (height : Nat) (node node' : Node) (hn : node.Alike L node') :
      Concur L Eq (declarationWithin scope height node : Eval η κ (Outline ArchiveKind))
        (declarationWithin scope height node') := by
    induction height generalizing node node' with
    | zero =>
      unfold Run.declarationWithin
      rw [hn.kind]
      exact failAt hn.span
    | succ height ih => exact declarationWith ih hn
  unfold Run.declaration
  rw [hn.height]
  exact hw _ _ _ hn

theorem command (hn : node.Alike L node') :
    Concur L Eq (command settings node : Eval η κ (Outline CommandKind))
      (command settings node') := by
  refine get.seq fun _ => need hn fun _ _ ht => (text ht.alike).seq fun title => ?_
  have hl := hn.field? .parameters
  generalize node.field? .parameters = list at hl
  generalize node'.field? .parameters = list' at hl
  dsimp only
  cases hl
  case' some hl => refine (bindParameters hl.alike.children.forall₂).seq fun entries => ?_
  case' none => refine (pure rfl).seq fun entries => ?_
  all_goals exact get.seq fun _ => need hn fun _ _ hr => (raw hr.alike).seq fun _ => pure rfl

theorem declareInfo {connection : String} (hn : node.Alike L node') (fields : List Field) :
    Concur L Eq (declareInfo connection node fields : Eval η κ Unit)
      (declareInfo connection node' fields) := by
  induction fields with
  | nil => exact pure rfl
  | cons field rest ih =>
    have hc := hn.field? field
    unfold Run.declareInfo
    generalize node.field? field = child at hc
    generalize node'.field? field = child' at hc
    dsimp only
    cases hc with
    | none => exact ih
    | some hc =>
      refine get.seq fun _ => (text hc.alike).seq fun _ => ?_
      exact (same (.onLedger _)).seq fun _ => ih

theorem declareItem {connection : String} (hn : node.Alike L node') :
    Concur L Eq (declareItem settings connection node : Eval η κ Unit)
      (declareItem settings connection node') := by
  unfold Run.declareItem
  rw [hn.kind]
  split
  · exact get.seq fun _ => (declaration hn).seq fun _ => same (.onLedger _)
  · exact (command hn).seq fun _ => same (.onLedger _)
  · exact pure rfl

theorem declareItems {connection : String} {items items' : List Child}
    (hi : List.Forall₂ (fun item item' => item.2.Alike L item'.2) items items') :
    Concur L Eq (declareItems settings connection items : Eval η κ Unit)
      (declareItems settings connection items') := by
  induction hi with
  | nil => exact pure rfl
  | cons hc _ ih =>
    rw [declareItems_cons, declareItems_cons]
    exact (declareItem hc).seq fun _ => ih

theorem siardMetadata (hn : node.Alike L node') :
    Concur L Eq (siardMetadata settings node : Eval η κ Unit) (siardMetadata settings node') := by
  refine need hn fun _ _ hi => (identifier hi.alike).seq fun _ => ?_
  refine (same (.onLedger _)).seq fun _ => (declareInfo hn _).seq fun _ => ?_
  exact declareItems hn.children.forall₂

end Declarations

section Statements

variable [L.Unifies] {settings : Settings} {scope : Scope} {node node' : Node}

theorem connectionOf (hn : node.Alike L node') :
    Concur L Eq (connectionOf scope node : Eval η κ Connection) (connectionOf scope node') := by
  refine need hn fun _ _ hi => (identifier hi.alike).seq fun _ => ?_
  split
  · exact fail
  · exact (same (.expectConnection _ _)).placed hi.alike.span

variable [Cursor κ]

theorem assert (hn : node.Alike L node') :
    Concur L Eq (assert node : Eval η κ Unit) (assert node') := by
  refine get.seq fun _ => need hn fun _ _ hc => (comparison hc.alike).seq fun _ => ?_
  split
  · exact failAt hn.span
  · exact pure rfl

omit [L.Unifies] in
theorem forRows {body body' : Eval η κ Unit} (hb : Concur L Eq body body') (rows : RowsId)
    (names : List String) (rounds : Nat) :
    Concur L Eq (forRows rows names body rounds) (forRows rows names body' rounds) := by
  induction rounds with
  | zero => exact pure rfl
  | succ rounds ih =>
    refine (same (.onRows _)).seq fun next => ?_
    cases next with
    | none => exact pure rfl
    | some row => exact (same (.bindCells _ _)).seq fun _ => hb.seq fun _ => ih

theorem propertiesFrom {pairs pairs' : List Child}
    (hp : List.Forall₂ (fun pair pair' => pair.2.Alike L pair'.2) pairs pairs')
    (properties : Dict String) :
    Concur L Eq (propertiesFrom scope properties pairs : Eval η κ (Dict String))
      (propertiesFrom scope properties pairs') := by
  induction hp generalizing properties with
  | nil => exact pure rfl
  | cons hc _ ih =>
    refine need hc fun _ _ hi => (identifier hi.alike).seq fun _ => need hc fun _ _ ht => ?_
    exact ((text ht.alike).orAt hc.span).seq fun _ => ih _

theorem log (hn : node.Alike L node') : Concur L Eq (log node : Eval η κ Unit) (log node') := by
  refine get.seq fun _ => need hn fun _ _ hc => ?_
  rw [hc.alike.kind]
  dsimp only
  split
  · exact (raw hc.alike).seq fun _ => (pure rfl).seq fun _ => same (.record _)
  · refine (basic hc.alike).seq fun _ => ((same (.accept _ _ _)).orAt hc.alike.span).seq fun _ => ?_
    exact (pure rfl).seq fun _ => same (.record _)

variable [Host η κ]

theorem runScript (hn : node.Alike L node') :
    Concur L Eq (runScript settings node : Eval η κ String) (runScript settings node') := by
  refine get.seq fun _ => need hn fun _ _ hb => (basicText hb.alike).seq fun _ => ?_
  exact need hn fun _ _ hr => (raw hr.alike).seq fun _ => same .call

theorem connect (hn : node.Alike L node') :
    Concur L Eq (connect node : Eval η κ Connection) (connect node') := by
  refine get.seq fun _ => need hn fun _ _ hb => (basicText hb.alike).seq fun url => ?_
  have hp := hn.field? .properties
  generalize node.field? .properties = pairs at hp
  generalize node'.field? .properties = pairs' at hp
  dsimp only
  cases hp
  case' some hp => refine (propertiesFrom hp.alike.children.forall₂ _).seq fun _ => ?_
  case' none => refine (pure rfl).seq fun _ => ?_
  all_goals
    refine (same .call).seq fun _ => get.seq fun _ => seq ?_ fun _ => ?_
    · exact fun _ => .ok rfl
    · exact (same (.record _)).seq fun _ => pure rfl

theorem query (hn : node.Alike L node') :
    Concur L Eq (query node : Eval η κ RowsId) (query node') := by
  refine get.seq fun _ => (connectionOf hn).seq fun _ => need hn fun _ _ hr => ?_
  exact (raw hr.alike).seq fun _ => (same .call).seq fun _ => same (.addRows _)

theorem executeSql (hn : node.Alike L node') :
    Concur L Eq (executeSql node : Eval η κ Unit) (executeSql node') := by
  refine get.seq fun _ => (connectionOf hn).seq fun _ => need hn fun _ _ hr => ?_
  exact (raw hr.alike).seq fun _ => same .call

theorem expression (hn : node.Alike L node') :
    Concur L Eq (expression settings node : Eval η κ Value) (expression settings node') := by
  unfold Run.expression
  rw [hn.kind]
  split
  · exact (connect hn).seq fun _ => pure rfl
  · exact (query hn).seq fun _ => pure rfl
  · exact (runScript hn).seq fun _ => pure rfl
  · exact get.seq fun _ => (raw hn).seq fun _ => pure rfl
  · exact get.seq fun _ => basic hn

theorem set (hn : node.Alike L node') :
    Concur L Eq (set settings node : Eval η κ Unit) (set settings node') := by
  refine need hn fun _ _ hi => (identifier hi.alike).seq fun _ => ?_
  exact need hn fun _ _ hv => (expression hv.alike).seq fun _ => same (.bindName _ _)

theorem siardOutput (hn : node.Alike L node') :
    Concur L Eq (siardOutput settings node : Eval η κ Unit) (siardOutput settings node') := by
  refine need hn fun _ _ hi => (identifier hi.alike).seq fun _ => get.seq fun _ => ?_
  refine (connectionOf hn).seq fun _ => need hn fun _ _ ht => (text ht.alike).seq fun _ => ?_
  refine (same .call).seq fun _ => get.seq fun _ => ?_
  dsimp only
  split
  case' h_1 => refine (same .call).seq fun _ => ?_
  all_goals
    refine get.seq fun _ => ?_
    split
    · exact (same .call).seq fun _ => same (.record _)
    · exact same .call

variable {run run' : Node → Eval η κ Unit}
  (hb : ∀ child child', child.Alike L child' → Concur L Eq (run child) (run' child'))

include hb

omit [Host η κ] in
theorem forLoop (hn : node.Alike L node') :
    Concur L Eq (forLoop run node) (forLoop run' node') := by
  refine need hn fun _ _ hl => ?_
  refine (mapM hl.alike.children.forall₂ fun _ _ hc => identifier hc).seq fun names => ?_
  refine need hn fun _ _ hs => get.seq fun _ => (basic hs.alike).seq fun source => ?_
  refine ((same (.expectRows _ _)).orAt hs.alike.span).seq fun rows => ?_
  refine need hn fun body body' hr => ?_
  exact locking (get.seq fun _ => forRows (hb body body' hr.alike) _ _ _) _

omit [Host η κ] in
theorem conditional (hn : node.Alike L node') :
    Concur L Eq (conditional run node) (conditional run' node') := by
  refine get.seq fun _ => need hn fun _ _ hc => (comparison hc.alike).seq fun holds => ?_
  split
  · exact need hn fun child child' hr => hb child child' hr.alike
  · have ha := hn.field? .alternative
    generalize node.field? .alternative = child at ha
    generalize node'.field? .alternative = child' at ha
    cases ha with
    | none => exact pure rfl
    | some ha => exact hb _ _ ha.alike

theorem statementWith (hn : node.Alike L node') :
    Concur L Eq (statementWith settings run node) (statementWith settings run' node') := by
  apply orAt hn.span
  rw [hn.kind]
  split
  · exact pure rfl
  · exact (bindParameters hn.children.forall₂).discard
  · exact set hn
  · exact (runScript hn).discard
  · exact executeSql hn
  · exact siardMetadata hn
  · exact siardOutput hn
  · exact forLoop hb hn
  · exact log hn
  · exact assert hn
  · exact conditional hb hn
  · exact fail

theorem statements {children children' : List Child}
    (hc : List.Forall₂ (fun child child' => child.2.Alike L child'.2) children children') :
    Concur L Eq (statements settings run children) (statements settings run' children') := by
  induction hc with
  | nil => exact pure rfl
  | cons hn _ ih => exact (statementWith hb hn).seq fun _ => ih

omit hb in
theorem block (hn : node.Alike L node') :
    Concur L Eq (block settings node : Eval η κ Unit) (block settings node') := by
  have hw (height : Nat) (node node' : Node) (hn : node.Alike L node') :
      Concur L Eq (blockWithin settings height node : Eval η κ Unit)
        (blockWithin settings height node') := by
    induction height generalizing node node' with
    | zero => exact pure rfl
    | succ height ih => exact statements ih hn.children.forall₂
  unfold Run.block
  rw [hn.height]
  exact hw _ _ _ hn

omit hb in
/-- Alike scripts run alike. -/
theorem script (settings : Settings) (hn : node.Alike L node') :
    Concur L Eq (script settings node : Eval η κ Unit) (script settings node') := by
  unfold Run.script
  rw [hn.kind]
  split
  · exact block hn
  · exact failAt hn.span

end Statements

end Concur

end Run

end ArchiveScript
