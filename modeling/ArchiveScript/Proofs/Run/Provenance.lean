import ArchiveScript.Proofs.Run.Progress

/-! # Where connections come from

Everything that a run asks of a connection it asks of one that it has opened before: a variable
that holds a connection was set to it when it was opened, or to the value of such a variable.
-/

namespace ArchiveScript

/-- Each event of the trace has `P` after the events before it. -/
def Throughout (P : List Event → Event → Prop) (trace : List Event) : Prop :=
  ∀ before event after, trace = before ++ event :: after → P before event

namespace Throughout

variable {P : List Event → Event → Prop} {trace : List Event} {event : Event}

theorem nil : Throughout P [] := fun before event after h =>
  absurd h.symm (List.append_ne_nil_of_right_ne_nil before (List.cons_ne_nil event after))

theorem concat (h : Throughout P trace) (he : P trace event) : Throughout P (trace ++ [event]) := by
  intro before last after hs
  rcases List.eq_nil_or_concat after with rfl | ⟨rest, final, rfl⟩
  · obtain ⟨rfl, hl⟩ := List.append_inj' hs rfl
    exact List.singleton_inj.1 hl ▸ he
  · rw [List.concat_eq_append, ← List.cons_append, ← List.append_assoc] at hs
    exact h before last rest (List.append_inj' hs rfl).1

end Throughout

namespace Run

variable {η κ : Type} [Host η κ] {start now : World η κ}

/-- The connection was opened just now: the host has answered to a call with it, and its serial
number is that of the connections before it. -/
def JustOpened (start : World η κ) (before : List Event) (connection : Connection) : Prop :=
  connection.serial = (before.filter Event.isOpened).length ∧
  ∃ earlier url properties, before = earlier ++ [.connect url properties] ∧
    ∃ now host, Steps start now ∧ now.trace.toList = earlier ∧
      Host.connect url properties now.host = (.ok ⟨connection.url, connection.properties⟩, host)

/-- What is asked of a connection is asked after it was opened, and it was opened by the host. -/
structure Founded (start : World η κ) (before : List Event) (event : Event) : Prop where
  asks : ∀ connection, event.connection? = some connection → .opened connection ∈ before
  opens : ∀ connection, event = .opened connection → JustOpened start before connection

/-- The connections that variables hold were opened, like those of which something was asked. -/
structure Accounted (start now : World η κ) : Prop where
  opened_eq : now.opened = (now.trace.toList.filter Event.isOpened).length
  holds : now.scope.Holds fun value =>
    ∀ connection, value = .connection connection → .opened connection ∈ now.trace
  founded : Throughout (Founded start) now.trace.toList

omit [Host η κ] in
theorem toList_called (world : World η κ) (events : List Event) (host : η) :
    (called world events host).trace.toList = world.trace.toList ++ events := by
  simp [called]

/-- What variables hold stays opened while the trace grows. -/
theorem Accounted.holds_called (ha : Accounted start now) (events : List Event) (host : η) :
    now.scope.Holds fun value => ∀ connection, value = .connection connection →
      .opened connection ∈ (called now events host).trace := by
  refine ha.holds.mono fun value hv connection hc => ?_
  have ho := Array.mem_def.1 (hv connection hc)
  rw [Array.mem_def, toList_called]
  exact List.mem_append_left _ ho

theorem Founded.of_unconnected {before : List Event} {event : Event} (ho : event.isOpened = false)
    (hc : event.connection? = none) : Founded start before event where
  asks connection h := nomatch hc.symm.trans h
  opens connection h := by
    rw [h] at ho
    cases ho

theorem Accounted.step {next : World η κ} (ha : Accounted start now) (hn : Steps start now)
    (h : Step now next) : Accounted start next := by
  cases h with
  | inside => exact ⟨ha.opened_eq, ha.holds, ha.founded⟩
  | bind hv hs =>
    refine ⟨ha.opened_eq, ha.holds.bind ?_ hs, ha.founded⟩
    rintro connection rfl
    rcases hv with hk | ⟨_, hc, ho⟩
    · cases hk with
      | held hr => exact ha.holds.resolve hr connection rfl
    · cases hc
      exact ho
  | unbind hs => exact ⟨ha.opened_eq, ha.holds.unbind hs, ha.founded⟩
  | @call event host ho hu =>
    refine ⟨?_, ha.holds_called _ _, ?_⟩
    · rw [toList_called, List.filter_append, List.filter_cons_of_neg (by simp [ho]),
        List.filter_nil, List.append_nil]
      exact ha.opened_eq
    · rw [toList_called]
      refine ha.founded.concat ⟨fun connection hc => ?_, fun connection h => ?_⟩
      · obtain ⟨name, hr⟩ := hu connection hc
        exact Array.mem_def.1 (ha.holds.resolve hr connection rfl)
      · rw [h] at ho
        cases ho
  | @connect url properties link host hc =>
    refine ⟨?_, ha.holds_called _ host, ?_⟩
    · dsimp only
      rw [toList_called, List.filter_append, List.length_append, ← ha.opened_eq]
      rfl
    -- The call asks nothing of a connection, and the answer is the event after it.
    · have hconnect : Throughout (Founded start)
          (now.trace.toList ++ [.connect url properties]) :=
        ha.founded.concat (.of_unconnected rfl rfl)
      simp only [toList_called]
      rw [← List.singleton_append, ← List.append_assoc]
      refine hconnect.concat ⟨nofun, fun connection h => ?_⟩
      obtain rfl := Event.opened.inj h
      refine ⟨?_, _, _, _, rfl, now, host, hn, rfl, hc⟩
      simp [Event.isOpened, ha.opened_eq]

theorem Steps.accounted (hs : Accounted start start) (h : Steps start now) :
    Accounted start now := by
  induction h with
  | refl => exact hs
  | tail hn hs ih => exact ih.step hn hs

theorem accounted_start (host : η) : Accounted ({ host } : World η κ) { host } :=
  ⟨rfl, .root, .nil⟩

variable [Cursor κ]

theorem founded_script (settings : Settings) (tree : Node) (host : η) :
    Throughout (Founded ({ host } : World η κ))
      (script settings tree ({ host } : World η κ)).2.trace.toList :=
  ((GoesOn.script settings tree { host } .refl).1.accounted (accounted_start host)).founded

def BindsLast {α : Type} (eval : Eval η κ α) : Prop :=
  ∀ world failure after, eval world = (.error failure, after) → after.scope = world.scope

namespace BindsLast

variable {α β : Type} {x : Eval η κ α} {f : α → Eval η κ β}

omit [Cursor κ] in
/-- What comes before has to leave the variables alone. -/
theorem after (hx : ∀ start scope, Evaluates start scope (fun _ => True) x)
    (hf : ∀ a, BindsLast (f a)) : BindsLast (x >>= f) := by
  intro world failure after h
  obtain ⟨⟨-, hs⟩, -⟩ := hx world world.scope world ⟨.refl, rfl⟩
  rw [Eval.run_bind] at h
  rcases hr : x world with ⟨_ | a, between⟩
  · rw [hr] at h hs
    cases h
    exact hs
  · rw [hr] at h hs
    exact (hf a between failure after h).trans hs

omit [Host η κ] [Cursor κ] in
theorem orAt (h : BindsLast x) (span : Span) : BindsLast (Eval.orAt span x) := by
  intro world failure after ho
  rw [Eval.orAt] at ho
  rcases hr : x world with ⟨inner | a, between⟩
  · rw [hr] at ho
    cases ho
    exact h world inner _ hr
  · rw [hr] at ho
    cases ho

omit [Host η κ] [Cursor κ] in
theorem bind (name : String) (value : Value) :
    BindsLast (Eval.bind name value : Eval η κ Unit) := by
  intro world failure after h
  rw [Eval.bind, Eval.onScope] at h
  cases ho : world.scope.bind name value with
  | ok scope =>
    rw [ho] at h
    cases h
  | error error =>
    rw [ho] at h
    cases h
    rfl

theorem set (settings : Settings) (node : Node) :
    BindsLast (Run.set settings node : Eval η κ Unit) := by
  refine after (fun _ _ => .need _ _) fun _ => after (fun _ _ => .identifier _) fun name => ?_
  refine after (fun _ _ => .need _ _) fun _ => ?_
  refine after (fun _ _ => ?_) fun value => bind name value
  exact (Evaluates.expression settings _).mono fun _ _ => trivial

end BindsLast

theorem connect_rehearsal {url : String} {properties : Dict String} {link : Link}
    {host host' : Rehearsal} (h : Host.connect url properties host = (.ok link, host')) :
    link = ⟨url, properties⟩ := by
  have hr : Host.connect url properties host =
      if host.refuses then (.error ⟨"cannot connect to " ++ url⟩, host)
      else (.ok ⟨url, properties⟩, host) := by
    obtain ⟨_, _, refuses⟩ := host
    cases refuses <;> rfl
  rw [hr] at h
  split at h
  · cases h
  · cases h
    rfl

/-- What is asked of a connection in a run is asked after this connection was opened in it, in
answer to a call. In a rehearsal it has the address and the properties that were given with the
call. A statement that fails to set a variable leaves all variables as they were. -/
theorem connections_opened_before (settings : Settings) (tree : Node) (host : η)
    (rehearsal : Rehearsal) :
    (let start : World η κ := { host }
      let trace := (script settings tree start).2.trace.toList
      (∀ before event after connection, trace = before ++ event :: after →
        event.connection? = some connection → .opened connection ∈ before) ∧
      ∀ before connection after, trace = before ++ .opened connection :: after →
        JustOpened start before connection) ∧
    (let start : World Rehearsal (FaultyCursor TableCursor) := { host := rehearsal }
      let trace := (script settings tree start).2.trace.toList
      ∀ before connection after, trace = before ++ .opened connection :: after →
        ∃ earlier, before = earlier ++ [.connect connection.url connection.properties]) ∧
    ∀ (block : Node → Eval η κ Unit) (node : Node) (world after : World η κ) (failure : Failure),
      node.kind = .set → statementWith settings block node world = (.error failure, after) →
        after.scope = world.scope := by
  refine ⟨⟨fun before event after connection ht => ?_, fun before connection after ht => ?_⟩,
    fun before connection after ht => ?_, fun block node world after failure hk h => ?_⟩
  · exact ((founded_script settings tree host) before event after ht).asks connection
  · exact ((founded_script settings tree host) before _ after ht).opens connection rfl
  · obtain ⟨-, earlier, url, properties, rfl, now, _, -, -, hc⟩ :=
      ((founded_script settings tree rehearsal) before _ after ht).opens connection rfl
    cases connect_rehearsal hc
    exact ⟨earlier, rfl⟩
  · rw [statementWith, hk] at h
    exact (BindsLast.set settings node).orAt node.span world failure after h

end Run

end ArchiveScript
