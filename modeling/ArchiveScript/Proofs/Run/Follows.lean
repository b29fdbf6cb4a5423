import ArchiveScript.Proofs.Rows.Measures
import ArchiveScript.Proofs.Run.Rendering
import ArchiveScript.Proofs.Run.SafeValues

/-! # Expressions in two scopes

The same expression is evaluated twice, in scopes and from states that need not be the same. Of
rows it looks at their number only, so that it comes to the same both times if the values of its
variables are the same and rows come to the same numbers. A reference to a parameter may also stand
against the text that it is written as, until the first of the two refuses the reference.
-/

namespace ArchiveScript

namespace Value

/-- The values are the same and hold no rows but known ones, or they are a reference to a parameter
and, if this is allowed, its placeholder. -/
inductive Stands (spelled : Bool) (held : RowsId → Prop) : Value → Value → Prop
  | same {value : Value} (h : ∀ id, value = .rows id → held id) : Stands spelled held value value
  | placeholder (h : spelled = true) (name : String) :
      Stands spelled held (.parameter name) (.text (placeholder name))

/-- As expressions come to them: rows that come to the same number are no different. -/
inductive Matches {κ : Type} [Cursor κ] (spelled : Bool) (store store' : RowsStore κ) :
    Value → Value → Prop
  | same {value : Value} (h : ∀ id, value ≠ .rows id) : Matches spelled store store' value value
  | rows {id id' : RowsId} (h : store'.measured id' = store.measured id) :
      Matches spelled store store' (.rows id) (.rows id')
  | placeholder (h : spelled = true) (name : String) :
      Matches spelled store store' (.parameter name) (.text (placeholder name))

theorem Stands.matches {κ : Type} [Cursor κ] {spelled : Bool} {held : RowsId → Prop}
    {store store' : RowsStore κ} {value value' : Value} (h : Stands spelled held value value')
    (hs : store.Alike held store') : Matches spelled store store' value value' := by
  cases h with
  | same h =>
    cases value with
    | rows id =>
      obtain ⟨outcome, hm, hm'⟩ := hs id (h id rfl)
      exact .rows (hm'.trans hm.symm)
    | _ => exact .same nofun
  | placeholder h name => exact .placeholder h name

end Value

/-- What the names stand for in both scopes stands for each other. -/
def Scope.Stands (spelled : Bool) (held : RowsId → Prop) (scope scope' : Scope) : Prop :=
  ∀ name, Option.Rel (Value.Stands spelled held) (scope.resolve name) (scope'.resolve name)

namespace Template

/-- In a command, it makes no difference whether a value is written in the safe form, nor whether a
placeholder is a reference or a text. -/
theorem pushValue_matches {κ : Type} [Cursor κ] {spelled : Bool} {store store' : RowsStore κ}
    {template : Template} (hm : template.mode = .command) {value value' : Value}
    (h : Value.Matches spelled store store' value value') (safe : Bool) :
    template.pushValue value' safe = template.pushValue value safe := by
  cases h with
  | same | rows => rfl
  | placeholder h name => simp [pushValue, hm, Value.render]

end Template

namespace Run

open Eval

variable {η κ α β α' β' : Type}

/-- Both parts have ended alike: with values that are related, in states that are, or with the same
failure. Where a reference may stand against its placeholder, nothing is said once the first part
has failed. -/
inductive Paired (spelled : Bool) (I : World η κ → World η κ → Prop)
    (R : World η κ → World η κ → α → α' → Prop) :
    Except Failure α × World η κ → Except Failure α' × World η κ → Prop
  | ok {a : α} {a' : α'} {after after' : World η κ} (hi : I after after')
      (hr : R after after' a a') :
      Paired spelled I R (.ok a, after) (.ok a', after')
  | error {failure : Failure} {after after' : World η κ} :
      Paired spelled I R (.error failure, after) (.error failure, after')
  | failed (h : spelled = true) {failure : Failure} {after : World η κ}
      {ended' : Except Failure α' × World η κ} : Paired spelled I R (.error failure, after) ended'

namespace Paired

variable {spelled : Bool} {I : World η κ → World η κ → Prop}
  {R : World η κ → World η κ → α → α' → Prop} {ended : Except Failure α × World η κ}
  {ended' : Except Failure α' × World η κ}

theorem cases_exact (h : Paired false I R ended ended') :
    (∃ failure after after', ended = (.error failure, after) ∧ ended' = (.error failure, after')) ∨
      ∃ a a' after after', ended = (.ok a, after) ∧ ended' = (.ok a', after') ∧ I after after' ∧
        R after after' a a' := by
  cases h with
  | ok hi hr => exact .inr ⟨_, _, _, _, rfl, rfl, hi, hr⟩
  | error => exact .inl ⟨_, _, _, rfl, rfl⟩
  | failed h => cases h

theorem exists_ok {a : α} {after : World η κ} (h : Paired spelled I R (.ok a, after) ended') :
    ∃ a' after', ended' = (.ok a', after') ∧ R after after' a a' := by
  cases h with
  | ok hi hr => exact ⟨_, _, rfl, hr⟩

end Paired

/-- From all related states, both parts end alike. -/
def Follows (spelled : Bool) (I : World η κ → World η κ → Prop)
    (R : World η κ → World η κ → α → α' → Prop) (x : Eval η κ α) (x' : Eval η κ α') : Prop :=
  ∀ world world', I world world' → Paired spelled I R (x world) (x' world')

namespace Follows

variable {spelled : Bool} {I : World η κ → World η κ → Prop}
  {R : World η κ → World η κ → α → α' → Prop} {Q : World η κ → World η κ → β → β' → Prop}
  {x : Eval η κ α} {x' : Eval η κ α'} {f : α → Eval η κ β} {f' : α' → Eval η κ β'}

theorem pure {a : α} {a' : α'} (h : ∀ world world', R world world' a a') :
    Follows spelled I R (pure a) (pure a') :=
  fun _ _ hi => .ok hi (h _ _)

theorem bind (hx : Follows spelled I R x x')
    (hf : ∀ a a' world world', I world world' → R world world' a a' →
      Paired spelled I Q (f a world) (f' a' world')) :
    Follows spelled I Q (x >>= f) (x' >>= f') := by
  intro world world' hi
  have h := hx world world' hi
  rw [run_bind, run_bind]
  generalize x world = ended at h
  generalize x' world' = ended' at h
  cases h with
  | ok hi hr => exact hf _ _ _ _ hi hr
  | error => exact .error
  | failed h => exact .failed h

theorem seq {x' : Eval η κ α} {f' : α → Eval η κ β'}
    (hx : Follows spelled I (fun _ _ => Eq) x x') (hf : ∀ a, Follows spelled I Q (f a) (f' a)) :
    Follows spelled I Q (x >>= f) (x' >>= f') :=
  hx.bind fun a _ world world' hi ha => ha ▸ hf a world world' hi

theorem fail (cause : Cause) : Follows spelled I R (fail cause) (fail cause) := fun _ _ _ => .error

theorem failAt (span : Span) (cause : Cause) :
    Follows spelled I R (failAt span cause) (failAt span cause) :=
  fun _ _ _ => .error

theorem orAt (h : Follows spelled I R x x') (span : Span) :
    Follows spelled I R (orAt span x) (orAt span x') := by
  intro world world' hi
  have hp := h world world' hi
  rw [Eval.orAt, Eval.orAt]
  generalize x world = ended at hp
  generalize x' world' = ended' at hp
  cases hp with
  | ok hi ha => exact .ok hi ha
  | error => exact .error
  | failed h => exact .failed h

theorem placed (h : Follows spelled I R x x') (span : Span) :
    Follows spelled I R (placed span x) (placed span x') := by
  intro world world' hi
  have hp := h world world' hi
  rw [Eval.placed, Eval.placed]
  generalize x world = ended at hp
  generalize x' world' = ended' at hp
  cases hp with
  | ok hi ha => exact .ok hi ha
  | error => exact .error
  | failed h => exact .failed h

theorem need (node : Node) (field : Field) :
    Follows spelled I (fun _ _ => Eq) (node.need field) (node.need field) := by
  unfold Node.need
  split
  · exact pure fun _ _ => rfl
  · exact failAt _ _

theorem identifier (node : Node) :
    Follows spelled I (fun _ _ => Eq) node.identifier node.identifier := by
  unfold Node.identifier
  split
  · exact pure fun _ _ => rfl
  · exact failAt _ _

end Follows

section

variable [Cursor κ]

abbrev AlikeRows (held : RowsId → Prop) (world world' : World η κ) : Prop :=
  world.rows.Alike held world'.rows

abbrev MatchIn (spelled : Bool) (world world' : World η κ) : Value → Value → Prop :=
  Value.Matches spelled world.rows world'.rows

namespace Follows

variable {spelled : Bool} {held : RowsId → Prop}

theorem operate_same {value : Value} (hv : ∀ id, value ≠ .rows id) (operation : String) :
    Follows spelled (AlikeRows held) (MatchIn spelled)
      (operate value operation : Eval η κ Value) (operate value operation) := by
  unfold Run.operate
  split
  · exact pure fun _ _ => .same nofun
  · split
    · exact pure fun _ _ => .same nofun
    · exact fail _
  · rename_i text
    intro world world' hi
    have hm := world.rows.measured_add (.ofText text)
    have hm' := world'.rows.measured_add (.ofText text)
    exact .ok (hi.grow (RowsStore.remembers_add _ _) (RowsStore.remembers_add _ _))
      (.rows (hm'.trans hm.symm))
  · exact pure fun _ _ => .same nofun
  · exact absurd rfl (hv _)
  · exact fail _

/-- Rows are operated on alike if they come to the same number. -/
theorem operate_rows {world world' : World η κ} (hi : AlikeRows held world world') {id id' : RowsId}
    (h : world'.rows.measured id' = world.rows.measured id) (operation : String) :
    Paired spelled (AlikeRows held) (MatchIn spelled) (operate (.rows id) operation world)
      (operate (.rows id') operation world') := by
  by_cases ho : operation = "size"
  · subst ho
    have hs : (world'.rows.size id').1 = (world.rows.size id).1 := by
      rw [RowsStore.size_eq, RowsStore.size_eq, h]
    simp only [Run.operate, run_bind, Eval.onRows]
    rcases hr : world.rows.size id with ⟨error | n, rows⟩
    all_goals
      rcases hr' : world'.rows.size id' with ⟨error' | n', rows'⟩
      all_goals
        rw [hr, hr'] at hs
        cases hs
    · exact .error
    · exact .ok (hi.grow (RowsStore.remembers_size hr) (RowsStore.remembers_size hr'))
        (.same (by simp))
  · have hf (id : RowsId) : (Run.operate (.rows id) operation : Eval η κ Value) =
        Eval.fail (.unknownOperation operation .rows) := by
      unfold Run.operate
      split <;> simp_all [Value.kind]
    rw [hf, hf]
    exact .error

theorem operate {world world' : World η κ} (hi : AlikeRows held world world') {value value' : Value}
    (h : MatchIn spelled world world' value value') (operation : String) :
    Paired spelled (AlikeRows held) (MatchIn spelled) (operate value operation world)
      (operate value' operation world') := by
  cases h with
  | same h => exact operate_same h operation world world' hi
  | rows h => exact operate_rows hi h operation
  | placeholder h name => exact .failed h

section

variable {inner inner' : Node → Eval η κ Value}
  (hn : ∀ node, Follows spelled (AlikeRows held) (MatchIn spelled) (inner node) (inner' node))

include hn

theorem interpolated (node : Node) :
    Follows spelled (AlikeRows held) (MatchIn spelled) (interpolated inner node)
      (interpolated inner' node) := by
  unfold Run.interpolated
  split
  · exact hn _
  · exact fail _

theorem stringPiece (piece : Node) :
    Follows spelled (AlikeRows held) (fun _ _ => Eq) (stringPiece inner piece)
      (stringPiece inner' piece) := by
  unfold Run.stringPiece
  split
  · exact pure fun _ _ => rfl
  · split
    · exact pure fun _ _ => rfl
    · exact fail _
  · refine (interpolated hn piece).bind fun value value' world world' hi hv => ?_
    cases hv with
    | same h =>
      cases value with
      | rows id => exact absurd rfl (h id)
      | connection c => exact .error
      | _ => exact .ok hi rfl
    | rows h => exact .error
    | placeholder h name => exact .ok hi rfl
  · exact fail _

theorem stringPieces (pieces : List Child) :
    Follows spelled (AlikeRows held) (fun _ _ => Eq) (stringPieces inner pieces)
      (stringPieces inner' pieces) := by
  induction pieces with
  | nil => exact pure fun _ _ => rfl
  | cons piece rest ih =>
    exact (stringPiece hn piece.2).seq fun _ => ih.seq fun _ => pure fun _ _ => rfl

theorem basicWith {scope scope' : Scope} (hs : scope.Stands spelled held scope') (node : Node) :
    Follows spelled (AlikeRows held) (MatchIn spelled) (basicWith inner scope node)
      (basicWith inner' scope' node) := by
  unfold Run.basicWith
  split
  · exact ((stringPieces hn _).seq fun _ => pure fun _ _ => .same nofun).orAt _
  · split
    · exact pure fun _ _ => .same nofun
    · exact failAt _ _
  · split
    · exact fail _
    · refine (identifier _).seq fun name => orAt (fun world world' hi => ?_) _
      have hv := hs name
      unfold lookUp
      generalize scope.resolve name = found at hv
      generalize scope'.resolve name = found' at hv
      cases hv with
      | none => exact .error
      | some hv => exact .ok hi (hv.matches hi)
  · refine orAt ((need _ _).seq fun left => (hn left).bind ?_) _
    intro value value' world world' hi hv
    -- Between the value and what is made of it, only a name is read.
    simp only [Node.need, Node.identifier]
    cases node.field? .right with
    | none => exact .error
    | some right =>
      by_cases hk : right.kind = .identifier
      · simp only [pure_bind, if_pos hk]
        exact operate hi hv _
      · simp only [pure_bind, if_neg hk]
        exact .error
  · exact failAt _ _

end

variable {scope scope' : Scope} (hs : scope.Stands spelled held scope')

include hs

theorem basic (node : Node) :
    Follows spelled (AlikeRows held) (MatchIn spelled) (basic scope node : Eval η κ Value)
      (basic scope' node) := by
  unfold Run.basic
  generalize node.height = height
  induction height generalizing node with
  | zero => exact failAt _ _
  | succ height ih => exact basicWith ih hs node

theorem fillValue {template : Template} (hm : template.mode = .command) (piece : Node)
    (safe : Bool) :
    Follows spelled (AlikeRows held)
      (fun _ _ filled filled' => filled' = filled ∧ filled.mode = .command)
      (fillValue scope template piece safe : Eval η κ Template)
      (fillValue scope' template piece safe) := by
  refine (interpolated (basic hs) piece).bind fun value value' world world' hi hv => ?_
  refine placed (fun world world' hi => ?_) _ world world' hi
  rw [Template.pushValue_matches hm hv]
  cases hp : template.pushValue value safe with
  | error failure => exact .error
  | ok filled => exact .ok hi ⟨rfl, (Template.mode_pushValue hp).trans hm⟩

theorem fillPieces {template : Template} (hm : template.mode = .command) (pieces : List Child) :
    Follows spelled (AlikeRows held) (fun _ _ => Eq)
      (fillPieces scope template pieces : Eval η κ Template)
      (fillPieces scope' template pieces) := by
  induction pieces generalizing template with
  | nil => exact pure fun _ _ => rfl
  | cons piece rest ih =>
    rw [fillPieces_cons, fillPieces_cons]
    have hp : Follows spelled (AlikeRows held)
        (fun _ _ filled filled' => filled' = filled ∧ filled.mode = .command)
        (fillPiece scope template piece.2 : Eval η κ Template)
        (fillPiece scope' template piece.2) := by
      unfold fillPiece
      split
      · exact pure fun _ _ => ⟨rfl, (Template.mode_pushLiteral _).trans hm⟩
      · exact fillValue hs hm _ _
      · exact fillValue hs hm _ _
      · exact failAt _ _
    refine hp.bind ?_
    rintro filled _ world world' hi ⟨rfl, hf⟩
    exact ih hf world world' hi

theorem raw (node : Node) :
    Follows spelled (AlikeRows held) (fun _ _ => Eq) (raw scope .command node : Eval η κ Filled)
      (raw scope' .command node) := by
  unfold Run.raw
  split
  · exact (fillPieces hs rfl _).seq fun _ => pure fun _ _ => rfl
  · exact failAt _ _

end Follows

end

end Run

end ArchiveScript
