import ArchiveScript.Proofs.Run.Ensures

/-! # How parts of a run move the state

A part of a run moves the state from one to another. Where the moves that end with a value and
those that end with a failure compose, the parts of a run can be put together.
-/

namespace ArchiveScript.Run

open Eval

variable {η κ α β : Type}

/-- The part moves the state by `T` if it comes to a value, and by `U` if it fails. -/
def Moves (T U : World η κ → World η κ → Prop) (eval : Eval η κ α) : Prop :=
  ∀ world, match eval world with
    | (.ok _, after) => T world after
    | (.error _, after) => U world after

/-- Moves with a value can be followed by others, and by a failure. -/
structure Composes (T U : World η κ → World η κ → Prop) : Prop where
  refl : ∀ world, T world world
  stay : ∀ world, U world world
  trans : ∀ {world between after}, T world between → T between after → T world after
  fall : ∀ {world between after}, T world between → U between after → U world after

namespace Moves

variable {T U R : World η κ → World η κ → Prop} {x : Eval η κ α}

theorem ok (h : Moves T U x) {world after : World η κ} {a : α} (hx : x world = (.ok a, after)) :
    T world after := by
  have hw := h world
  rw [hx] at hw
  exact hw

/-- Where failures are no different, all ends of the part are moves. -/
theorem after (h : Moves R R x) (world : World η κ) : R world (x world).2 := by
  have hw := h world
  rcases hx : x world with ⟨_ | _, _⟩
  · rw [hx] at hw
    exact hw
  · rw [hx] at hw
    exact hw

theorem of_after (h : ∀ world, R world (x world).2) : Moves R R x := by
  intro world
  have hw := h world
  rcases hx : x world with ⟨_ | _, _⟩
  · rw [hx] at hw
    exact hw
  · rw [hx] at hw
    exact hw

theorem orAt (h : Moves T U x) (span : Span) : Moves T U (orAt span x) := by
  intro world
  have hw := h world
  rw [Eval.orAt]
  rcases hx : x world with ⟨_ | _, _⟩
  · rw [hx] at hw
    exact hw
  · rw [hx] at hw
    exact hw

theorem placed (h : Moves T U x) (span : Span) : Moves T U (placed span x) := by
  intro world
  have hw := h world
  rw [Eval.placed]
  rcases hx : x world with ⟨_ | _, _⟩
  · rw [hx] at hw
    exact hw
  · rw [hx] at hw
    exact hw

theorem onRows {operation : RowsStore κ → Except RowsError α × RowsStore κ}
    (ht : ∀ world a rows, operation world.rows = (.ok a, rows) → T world { world with rows })
    (hu : ∀ world error rows, operation world.rows = (.error error, rows) →
      U world { world with rows }) : Moves T U (onRows operation : Eval η κ α) := by
  intro world
  rw [Eval.onRows]
  rcases ho : operation world.rows with ⟨_ | _, rows⟩
  · exact hu world _ rows ho
  · exact ht world _ rows ho

theorem onRows_after {operation : RowsStore κ → Except RowsError α × RowsStore κ}
    (h : ∀ world, R world { world with rows := (operation world.rows).2 }) :
    Moves R R (Eval.onRows operation : Eval η κ α) := by
  refine .onRows (fun world a rows ho => ?_) fun world error rows ho => ?_
  · simpa only [ho] using h world
  · simpa only [ho] using h world

end Moves

namespace Composes

variable {T U : World η κ → World η κ → Prop} {x : Eval η κ α} {f : α → Eval η κ β}

theorem of_trans {R : World η κ → World η κ → Prop} (hr : ∀ world, R world world)
    (ht : ∀ {world between after}, R world between → R between after → R world after) :
    Composes R R :=
  ⟨hr, hr, ht, ht⟩

theorem seq (hc : Composes T U) (hx : Moves T U x) (hf : ∀ a, Moves T U (f a)) :
    Moves T U (x >>= f) := by
  intro world
  have hw := hx world
  rw [run_bind]
  rcases hr : x world with ⟨_ | a, between⟩
  · rw [hr] at hw
    exact hw
  · rw [hr] at hw
    have hb := hf a between
    dsimp only
    rcases hs : f a between with ⟨_ | _, after⟩
    · rw [hs] at hb
      exact hc.fall hw hb
    · rw [hs] at hb
      exact hc.trans hw hb

variable (hc : Composes T U)

include hc

theorem pure (a : α) : Moves T U (pure a : Eval η κ α) := fun world => hc.refl world

theorem get : Moves T U (get : Eval η κ (World η κ)) := fun world => hc.refl world

theorem fail (cause : Cause) : Moves T U (fail cause : Eval η κ α) := fun world => hc.stay world

theorem failAt (span : Span) (cause : Cause) : Moves T U (failAt span cause : Eval η κ α) :=
  fun world => hc.stay world

theorem settle (outcome : Except Failure α) : Moves T U (settle outcome : Eval η κ α) := by
  intro world
  cases outcome
  · exact hc.stay world
  · exact hc.refl world

theorem discard (hx : Moves T U x) : Moves T U (Functor.discard x) := by
  have hd : Functor.discard x = x >>= fun _ => Pure.pure () := by
    rw [bind_pure_comp]
    rfl
  rw [hd]
  exact hc.seq hx fun _ => hc.pure _

theorem need (node : Node) (field : Field) : Moves T U (node.need field : Eval η κ Node) := by
  unfold Node.need
  split
  · exact hc.pure _
  · exact hc.failAt _ _

theorem identifier (node : Node) : Moves T U (node.identifier : Eval η κ String) := by
  unfold Node.identifier
  split
  · exact hc.pure _
  · exact hc.failAt _ _

theorem mapM {γ : Type} {f : γ → Eval η κ α} {list : List γ} (h : ∀ c ∈ list, Moves T U (f c)) :
    Moves T U (list.mapM f) := by
  induction list with
  | nil => exact hc.pure _
  | cons c rest ih =>
    rw [List.mapM_cons]
    refine hc.seq (h c List.mem_cons_self) fun _ => ?_
    exact hc.seq (ih fun d hd => h d (List.mem_cons_of_mem c hd)) fun _ => hc.pure _

theorem lookUp (scope : Scope) (name : String) :
    Moves T U (lookUp scope name : Eval η κ Value) := by
  unfold Run.lookUp
  split
  · exact hc.pure _
  · exact hc.fail _

theorem connectionOf (scope : Scope) (node : Node) :
    Moves T U (connectionOf scope node : Eval η κ Connection) := by
  refine hc.seq (hc.need _ _) fun _ => hc.seq (hc.identifier _) fun _ => ?_
  split
  · exact hc.fail _
  · exact (hc.settle _).placed _

end Composes

/-! ### Calls of the host -/

def called (world : World η κ) (events : List Event) (host : η) : World η κ :=
  { world with host, trace := world.trace ++ events.toArray }

theorem called_called (world : World η κ) (events more : List Event) (between host : η) :
    called (called world events between) more host = called world (events ++ more) host := by
  simp [called]

theorem record_run (event : Event) (world : World η κ) :
    Eval.record event world = (.ok (), called world [event] world.host) := by
  rw [called, Array.append_singleton]
  rfl

theorem call_run (event : Event) (cause : String → Cause) (act : Act η α) (world : World η κ) :
    Eval.call event cause act world =
      match act world.host with
      | (.ok a, host) => (.ok a, called world [event] host)
      | (.error error, host) =>
        (.error ⟨cause error.message, none⟩, called world [event] host) := by
  rw [Eval.call, run_bind, record_run]
  rfl

end ArchiveScript.Run
