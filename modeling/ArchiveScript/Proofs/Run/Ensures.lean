import ArchiveScript.Run.Statement

/-! # Invariants of parts of a run

A part of a run ensures an invariant if it leads from every state with the invariant to one that
has it, too. What can be said of its value, or of its failure, goes with that.
-/

namespace ArchiveScript.Eval

variable {η κ α β : Type}

theorem run_bind (x : Eval η κ α) (f : α → Eval η κ β) (world : World η κ) :
    (x >>= f) world =
      match x world with
      | (.ok a, world) => f a world
      | (.error failure, world) => (.error failure, world) := by
  have h : (x >>= f) world = ExceptT.bindCont f (x world).1 (x world).2 := rfl
  rw [h]
  rcases x world with ⟨_ | _, _⟩ <;> rfl

theorem run_get (k : World η κ → Eval η κ α) (world : World η κ) :
    (get >>= k : Eval η κ α) world = k world world := rfl

theorem run_need {node child : Node} {field : Field} (h : node.field? field = some child)
    (k : Node → Eval η κ α) (world : World η κ) :
    (node.need field >>= k) world = k child world := by
  rw [Node.need, h, pure_bind]

theorem run_identifier {node : Node} (h : node.kind = .identifier) (k : String → Eval η κ α)
    (world : World η κ) : (node.identifier >>= k) world = k node.text world := by
  rw [Node.identifier, if_pos h, pure_bind]

theorem bind_run {world : World η κ} {entries : Dict Value} {outer : List Frame}
    (h : world.scope = ⟨.bindings entries, outer⟩) (name : String) (value : Value) :
    bind name value world =
      (.ok (), { world with scope := ⟨.bindings (entries.insert name value), outer⟩ }) := by
  simp only [Eval.bind, onScope, h]
  rfl

theorem unbind_run {world : World η κ} {entries : Dict Value} {outer : List Frame}
    (h : world.scope = ⟨.bindings entries, outer⟩) (name : String) :
    unbind name world =
      (.ok (), { world with scope := ⟨.bindings (entries.erase name), outer⟩ }) := by
  simp only [Eval.unbind, onScope, h]
  rfl

/-- A sequence that succeeds is one of parts that succeed. -/
theorem ok_of_bind {x : Eval η κ α} {f : α → Eval η κ β} {world after : World η κ} {b : β}
    (h : (x >>= f) world = (.ok b, after)) :
    ∃ a between, x world = (.ok a, between) ∧ f a between = (.ok b, after) := by
  rw [run_bind] at h
  rcases hx : x world with ⟨failure | a, between⟩
  · rw [hx] at h
    cases h
  · rw [hx] at h
    exact ⟨a, between, rfl, h⟩

/-- From a state with `I` the part comes to a state with `I`, and ends with a value that satisfies
`Q` or with a failure that satisfies `E`. -/
def Ensures (I : World η κ → Prop) (Q : α → Prop) (E : Failure → Prop) (eval : Eval η κ α) : Prop :=
  ∀ world, I world → I (eval world).2 ∧
    match (eval world).1 with
    | .ok a => Q a
    | .error failure => E failure

/-- The invariant speaks of variables and rows only. -/
def Steady (I : World η κ → Prop) : Prop :=
  ∀ world host ledger opened trace, I world → I { world with host, ledger, opened, trace }

namespace Ensures

variable {I : World η κ → Prop} {Q : α → Prop} {R : β → Prop} {E : Failure → Prop}

theorem pure {a : α} (h : Q a) : Ensures I Q E (pure a) := fun _ hw => ⟨hw, h⟩

theorem bind {x : Eval η κ α} {f : α → Eval η κ β} (hx : Ensures I Q E x)
    (hf : ∀ a, Q a → Ensures I R E (f a)) : Ensures I R E (x >>= f) := by
  intro world hw
  have h := hx world hw
  rw [run_bind]
  rcases hr : x world with ⟨_ | a, after⟩
  · rw [hr] at h
    exact h
  · rw [hr] at h
    exact hf a h.2 after h.1

theorem seq {x : Eval η κ α} {f : α → Eval η κ β} (hx : Ensures I (fun _ => True) E x)
    (hf : ∀ a, Ensures I R E (f a)) : Ensures I R E (x >>= f) :=
  hx.bind fun a _ => hf a

theorem mono {Q' : α → Prop} {x : Eval η κ α} (h : Ensures I Q E x) (hq : ∀ a, Q a → Q' a) :
    Ensures I Q' E x := by
  intro world hw
  obtain ⟨hi, ho⟩ := h world hw
  refine ⟨hi, ?_⟩
  cases hr : (x world).1 with
  | ok a => rw [hr] at ho; exact hq a ho
  | error failure => rw [hr] at ho; exact ho

theorem mono_failure {E' : Failure → Prop} {x : Eval η κ α} (h : Ensures I Q E x)
    (he : ∀ failure, E failure → E' failure) : Ensures I Q E' x := by
  intro world hw
  obtain ⟨hi, ho⟩ := h world hw
  constructor
  · exact hi
  · cases hr : (x world).1 with
    | ok a => rw [hr] at ho; exact ho
    | error failure => rw [hr] at ho; exact he failure ho

theorem discard {x : Eval η κ α} (h : Ensures I Q E x) :
    Ensures I (fun _ => True) E (Functor.discard x) := by
  have hd : Functor.discard x = x >>= fun _ => Pure.pure () := by
    rw [bind_pure_comp]
    rfl
  rw [hd]
  exact h.bind fun _ _ => pure trivial

theorem get : Ensures I I E (get : Eval η κ (World η κ)) := fun _ hw => ⟨hw, hw⟩

theorem fail {cause : Cause} (h : E ⟨cause, none⟩) : Ensures I Q E (fail cause) :=
  fun _ hw => ⟨hw, h⟩

theorem failAt {span : Span} {cause : Cause} (h : E ⟨cause, some span⟩) :
    Ensures I Q E (failAt span cause) :=
  fun _ hw => ⟨hw, h⟩

theorem orAt {E' : Failure → Prop} {x : Eval η κ α} {span : Span} (h : Ensures I Q E x)
    (he : ∀ failure, E failure → E' (failure.orPlaced span)) : Ensures I Q E' (orAt span x) := by
  intro world hw
  have hx := h world hw
  rw [Eval.orAt]
  rcases hr : x world with ⟨failure | a, after⟩
  · rw [hr] at hx
    exact ⟨hx.1, he failure hx.2⟩
  · rw [hr] at hx
    exact hx

theorem placed {x : Eval η κ α} {span : Span} (h : Ensures I Q E x)
    (he : ∀ failure, E failure → E (failure.placed span)) : Ensures I Q E (placed span x) := by
  intro world hw
  have hx := h world hw
  rw [Eval.placed]
  rcases hr : x world with ⟨failure | a, after⟩
  · rw [hr] at hx
    exact ⟨hx.1, he failure hx.2⟩
  · rw [hr] at hx
    exact hx

theorem settle {outcome : Except Failure α} (hq : ∀ a, outcome = .ok a → Q a)
    (he : ∀ failure, outcome = .error failure → E failure) : Ensures I Q E (settle outcome) := by
  intro world hw
  refine ⟨hw, ?_⟩
  cases outcome with
  | ok a => exact hq a rfl
  | error failure => exact he failure rfl

theorem record (hI : Steady I) (event : Event) :
    Ensures I (fun _ => True) E (record event : Eval η κ Unit) :=
  fun world hw => ⟨hI world world.host world.ledger world.opened _ hw, trivial⟩

theorem onLedger (hI : Steady I) (operation : Ledger → Ledger) :
    Ensures I (fun _ => True) E (onLedger operation : Eval η κ Unit) :=
  fun world hw => ⟨hI world world.host _ world.opened world.trace hw, trivial⟩

theorem call (hI : Steady I) {event : Event} {cause : String → Cause} {act : Act η α}
    (he : ∀ message, E ⟨cause message, none⟩) :
    Ensures I (fun _ => True) E (call event cause act : Eval η κ α) := by
  refine seq (record hI event) fun _ world hw => ?_
  rcases act world.host with ⟨error | a, host⟩
  · exact ⟨hI world host world.ledger world.opened world.trace hw, he _⟩
  · exact ⟨hI world host world.ledger world.opened world.trace hw, trivial⟩

theorem onRows {operation : RowsStore κ → Except RowsError α × RowsStore κ}
    (hI : ∀ world, I world → I { world with rows := (operation world.rows).2 })
    (he : ∀ error : RowsError, E ⟨error.cause, none⟩) :
    Ensures I (fun _ => True) E (onRows operation : Eval η κ α) := by
  intro world hw
  have h := hI world hw
  rw [Eval.onRows]
  rcases hr : operation world.rows with ⟨error | a, rows⟩
  · rw [hr] at h
    exact ⟨h, he _⟩
  · rw [hr] at h
    exact ⟨h, trivial⟩

theorem onScope {operation : Scope → Except ScopeError Scope}
    (hI : ∀ world scope, I world → operation world.scope = .ok scope → I { world with scope })
    (he : ∀ world error, I world → operation world.scope = .error error → E error.toFailure) :
    Ensures I (fun _ => True) E (onScope operation : Eval η κ Unit) := by
  intro world hw
  rw [Eval.onScope]
  cases hr : operation world.scope with
  | ok scope => exact ⟨hI world scope hw hr, trivial⟩
  | error error => exact ⟨hw, he world error hw hr⟩

theorem need {P : Node → Prop} {node : Node} {field : Field}
    (hq : ∀ child, node.field? field = some child → P child)
    (he : node.field? field = none → E ⟨.missingField node.kind field, some node.span⟩) :
    Ensures I P E (node.need field : Eval η κ Node) := by
  rw [Node.need]
  cases hf : node.field? field with
  | some child => exact pure (hq child hf)
  | none => exact failAt (he hf)

theorem identifier {P : String → Prop} {node : Node} (hq : node.kind = .identifier → P node.text)
    (he : node.kind ≠ .identifier →
      E ⟨.unexpectedNode node.kind "place of an identifier", some node.span⟩) :
    Ensures I P E (node.identifier : Eval η κ String) := by
  rw [Node.identifier]
  split
  · rename_i h
    exact pure (hq h)
  · rename_i h
    exact failAt (he h)

theorem mapM {γ : Type} {f : γ → Eval η κ α} {list : List γ}
    (h : ∀ c ∈ list, Ensures I Q E (f c)) :
    Ensures I (fun values => ∀ a ∈ values, Q a) E (list.mapM f) := by
  induction list with
  | nil => exact pure (by simp)
  | cons c rest ih =>
    rw [List.mapM_cons]
    refine (h c List.mem_cons_self).bind fun a ha => ?_
    refine (ih fun d hd => h d (List.mem_cons_of_mem c hd)).bind fun values hv => ?_
    refine pure fun b hb => ?_
    rcases List.mem_cons.1 hb with rfl | hb
    · exact ha
    · exact hv b hb

end Ensures

abbrev Gives (Q : α → Prop) (eval : Eval η κ α) : Prop :=
  Ensures (fun _ => True) Q (fun _ => True) eval

namespace Gives

variable {Q : α → Prop} {x : Eval η κ α}

theorem ok (h : Gives Q x) {world after : World η κ} {a : α} (hx : x world = (.ok a, after)) :
    Q a := by
  have hw := (h world trivial).2
  rw [hx] at hw
  exact hw

theorem of_any (x : Eval η κ α) : Gives (fun _ => True) x :=
  fun _ _ => ⟨trivial, by split <;> trivial⟩

theorem ensures {I : World η κ → Prop} {R : α → Prop} {E : Failure → Prop} (h : Gives Q x)
    (hx : Ensures I R E x) : Ensures I Q E x := by
  intro world hw
  obtain ⟨hi, ho⟩ := hx world hw
  have hq := (h world trivial).2
  refine ⟨hi, ?_⟩
  cases hr : (x world).1 with
  | ok a => rw [hr] at hq; exact hq
  | error failure => rw [hr] at ho; exact ho

theorem seq {R : β → Prop} {f : α → Eval η κ β} (hf : ∀ a, Gives R (f a)) : Gives R (x >>= f) :=
  (of_any x).bind fun a _ => hf a

theorem orAt (h : Gives Q x) (span : Span) : Gives Q (orAt span x) :=
  Ensures.orAt h fun _ _ => trivial

theorem need (node : Node) (field : Field) :
    Gives (node.field? field = some ·) (node.need field : Eval η κ Node) :=
  Ensures.need (fun _ h => h) fun _ => trivial

end Gives

end ArchiveScript.Eval
