import ArchiveScript.Proofs.Rows.Views

/-! # Counting in the middle of a traversal

Rows are counted by going to the last one and back. The number is always the right one. Whoever
goes through the rows meanwhile does not notice it, with one exception: live rows that are counted
for the first time after their end was met begin again with the first row.
-/

namespace ArchiveScript

inductive RowsCall where
  | lock
  | next
  | free
  | size
  deriving DecidableEq, Repr

inductive RowsReply where
  | locked (begun : Bool)
  | row (row : Option Row)
  | freed
  | count (n : Nat)
  | failed (error : HostError)
  deriving DecidableEq, Repr

namespace RowsReply

def of {α : Type} (reply : α → RowsReply) : Except HostError α → RowsReply
  | .ok a => reply a
  | .error error => .failed error

end RowsReply

namespace Rows

variable {κ : Type} [Cursor κ]

def call (rows : Rows κ) : RowsCall → RowsReply × Rows κ
  | .lock => (.of .locked rows.tryLock.1, rows.tryLock.2)
  | .next => (.of .row rows.next.1, rows.next.2)
  | .free => (.freed, rows.free)
  | .size => (.of .count rows.measure.1, rows.measure.2)

def after (rows : Rows κ) (calls : List RowsCall) : Rows κ :=
  calls.foldl (fun rows call => (rows.call call).2) rows

def told (rows : Rows κ) : List RowsCall → List (RowsCall × RowsReply)
  | [] => []
  | call :: calls => (call, (rows.call call).1) :: told (rows.call call).2 calls

end Rows

namespace RowsView

def call (view : RowsView) : RowsCall → RowsReply × RowsView
  | .lock => (.locked view.tryLock.1, view.tryLock.2)
  | .next => (.row view.next.1, view.next.2)
  | .free => (.freed, view.free)
  | .size => (.count view.measure.1, view.measure.2)

def after (view : RowsView) (calls : List RowsCall) : RowsView :=
  calls.foldl (fun view call => (view.call call).2) view

def told (view : RowsView) : List RowsCall → List (RowsCall × RowsReply)
  | [] => []
  | call :: calls => (call, (view.call call).1) :: told (view.call call).2 calls

theorem told_append (view : RowsView) (first second : List RowsCall) :
    view.told (first ++ second) = view.told first ++ (view.after first).told second := by
  induction first generalizing view with
  | nil => rfl
  | cons call first ih =>
    rw [List.cons_append, told, ih]
    rfl

@[simp]
theorem content_call (view : RowsView) (call : RowsCall) :
    (view.call call).2.content = view.content := by
  cases call <;> simp [RowsView.call]

/-- The number that is kept is that of the rows, and behind the last row none is to come. -/
structure Coherent (view : RowsView) : Prop where
  size_eq : ∀ n, view.size = some n → n = view.content.length
  rest_eq : view.past = true → view.rest = []

theorem Coherent.measure_fst {view : RowsView} (h : view.Coherent) :
    view.measure.1 = view.content.length := by
  unfold RowsView.measure
  split
  · rename_i n hn
    exact h.size_eq n hn
  · rfl

theorem Coherent.call {view : RowsView} (h : view.Coherent) (call : RowsCall) :
    (view.call call).2.Coherent := by
  cases call with
  | lock =>
    change view.tryLock.2.Coherent
    unfold tryLock
    split
    · exact h
    · exact ⟨h.size_eq, nofun⟩
  | next =>
    refine ⟨h.size_eq, fun ho => ?_⟩
    have he : view.rest = [] := List.isEmpty_iff.1 (Bool.and_eq_true_iff.1 ho).2
    exact congrArg List.tail he
  | free => exact ⟨h.size_eq, h.rest_eq⟩
  | size =>
    change view.measure.2.Coherent
    unfold RowsView.measure
    split
    · exact h
    · exact ⟨fun n hn => (Option.some.inj hn).symm, nofun⟩

theorem Coherent.after {view : RowsView} (h : view.Coherent) (calls : List RowsCall) :
    (view.after calls).Coherent := by
  induction calls generalizing view with
  | nil => exact h
  | cons call calls ih => exact ih (h.call call)

/-- However often rows are counted, it is always the same number. -/
theorem Coherent.told {view : RowsView} (h : view.Coherent) {calls : List RowsCall}
    {reply : RowsReply} (ht : (.size, reply) ∈ view.told calls) :
    reply = .count view.content.length := by
  induction calls generalizing view with
  | nil => cases ht
  | cons call calls ih =>
    rw [RowsView.told, List.mem_cons] at ht
    rcases ht with ht | ht
    · cases ht
      exact congrArg RowsReply.count h.measure_fst
    · rw [ih (h.call call) ht, content_call]

/-! ### Calls without a count -/

@[simp]
theorem live_call (view : RowsView) (call : RowsCall) : (view.call call).2.live = view.live := by
  cases call with
  | lock => cases h : view.locked <;> simp [RowsView.call, tryLock, h]
  | next => rfl
  | free => rfl
  | size => cases h : view.size <;> simp [RowsView.call, RowsView.measure, h]

theorem map_fst_told (view : RowsView) (calls : List RowsCall) :
    (view.told calls).map Prod.fst = calls := by
  induction calls generalizing view with
  | nil => rfl
  | cons call calls ih => rw [RowsView.told, List.map_cons, ih]

end RowsView

/-- Whether the last row that was asked for was not there any more, after one more reply. -/
def RowsReply.ends (ended : Bool) : RowsReply → Bool
  | .row answer => answer.isNone
  | .locked true => false
  | _ => ended

/-- The end has been met, and no traversal has begun since then. -/
def ended (told : List (RowsCall × RowsReply)) : Bool :=
  told.foldl (fun ended said => said.2.ends ended) false

namespace RowsView

theorem past_call {view : RowsView} {call : RowsCall} (hc : call ≠ .size) {ended : Bool}
    (ho : view.past = (view.live && ended)) :
    (view.call call).2.past = (view.live && (view.call call).1.ends ended) := by
  cases call with
  | lock => cases h : view.locked <;> simp [RowsView.call, tryLock, h, RowsReply.ends, ho]
  | next => cases h : view.rest <;> simp [RowsView.call, next, h, RowsReply.ends]
  | free => exact ho
  | size => exact absurd rfl hc

theorem past_after {view : RowsView} {calls : List RowsCall} (hc : .size ∉ calls) {ended : Bool}
    (ho : view.past = (view.live && ended)) :
    (view.after calls).past =
      (view.live && (view.told calls).foldl (fun ended said => said.2.ends ended) ended) := by
  induction calls generalizing view ended with
  | nil => exact ho
  | cons call calls ih =>
    rw [List.mem_cons, not_or] at hc
    have ho' := past_call (Ne.symm hc.1) ho
    rw [← live_call view call] at ho'
    have h := ih hc.2 ho'
    rw [live_call] at h
    exact h

theorem size_call {view : RowsView} {call : RowsCall} (hc : call ≠ .size) :
    (view.call call).2.size = view.size := by
  cases call with
  | lock => cases h : view.locked <;> simp [RowsView.call, tryLock, h]
  | next => rfl
  | free => rfl
  | size => exact absurd rfl hc

theorem size_after {view : RowsView} {calls : List RowsCall} (hc : .size ∉ calls) :
    (view.after calls).size = view.size := by
  induction calls generalizing view with
  | nil => rfl
  | cons call calls ih =>
    rw [List.mem_cons, not_or] at hc
    exact (ih hc.2).trans (size_call (Ne.symm hc.1))

@[simp]
theorem content_after (view : RowsView) (calls : List RowsCall) :
    (view.after calls).content = view.content := by
  induction calls generalizing view with
  | nil => rfl
  | cons call calls ih => exact (ih _).trans (view.content_call call)

end RowsView

/-! ### Leaving out the counts -/

def uncounted (calls : List RowsCall) : List RowsCall := calls.filter fun call => call ≠ .size

def toldOthers (told : List (RowsCall × RowsReply)) : List (RowsCall × RowsReply) :=
  told.filter fun said => said.1 ≠ .size

theorem toldOthers_append (first second : List (RowsCall × RowsReply)) :
    toldOthers (first ++ second) = toldOthers first ++ toldOthers second :=
  List.filter_append ..

theorem uncounted_of_not_mem {calls : List RowsCall} (hc : .size ∉ calls) :
    uncounted calls = calls :=
  List.filter_eq_self.2 fun _ hmem => decide_eq_true fun h => hc (h ▸ hmem)

namespace RowsView

theorem toldOthers_told {view : RowsView} {calls : List RowsCall} (hc : .size ∉ calls) :
    toldOthers (view.told calls) = view.told calls := by
  refine List.filter_eq_self.2 fun said hs => decide_eq_true fun h => hc ?_
  have hmem : said.1 ∈ calls := view.map_fst_told calls ▸ List.mem_map_of_mem hs
  exact h ▸ hmem

/-- Nothing but a count makes a difference between a number that is known and one that is not. -/
theorem call_of_others (view : RowsView) {call : RowsCall} (hc : call ≠ .size) (size : Option Nat)
    (past : Bool) :
    ∃ past', { view with size, past }.call call =
      ((view.call call).1, { (view.call call).2 with size, past := past' }) := by
  cases call with
  | lock =>
    simp only [RowsView.call, tryLock]
    split
    · exact ⟨past, rfl⟩
    · exact ⟨false, rfl⟩
  | next => exact ⟨_, rfl⟩
  | free => exact ⟨past, rfl⟩
  | size => exact absurd rfl hc

/-- Once the number of the rows is known, further counts are not noticed. -/
theorem toldOthers_of_size {view : RowsView} {n : Nat} (hs : view.size = some n)
    (size : Option Nat) (past : Bool) (calls : List RowsCall) :
    toldOthers (view.told calls) = { view with size, past }.told (uncounted calls) := by
  induction calls generalizing view past with
  | nil => rfl
  | cons call calls ih =>
    by_cases hc : call = .size
    · subst hc
      have hcall : view.call .size = (.count n, view) := by
        simp only [RowsView.call, RowsView.measure, hs]
      rw [RowsView.told, hcall]
      exact ih hs past
    · obtain ⟨past', hcall⟩ := view.call_of_others hc size past
      have hu : uncounted (call :: calls) = call :: uncounted calls :=
        List.filter_cons_of_pos (decide_eq_true hc)
      rw [hu, RowsView.told, RowsView.told, hcall, ← ih ((size_call hc).trans hs)]
      exact List.filter_cons_of_pos (decide_eq_true hc)

/-- A count has to go back, and does not know where to. -/
def CountedLate (view : RowsView) : Prop :=
  view.size = none ∧ view.past = true ∧ view.content ≠ []

theorem toldOthers_measure {view : RowsView} (h : view.Coherent) (hl : ¬ view.CountedLate)
    (calls : List RowsCall) :
    toldOthers (view.measure.2.told calls) = view.told (uncounted calls) := by
  cases hs : view.size with
  | some n =>
    have hm : view.measure.2 = view := by
      unfold RowsView.measure
      rw [hs]
    rw [hm]
    exact toldOthers_of_size hs view.size view.past calls
  | none =>
    have hrest : (if view.past then view.content else view.rest) = view.rest := by
      split
      · rename_i ho
        rw [h.rest_eq ho]
        exact Classical.byContradiction fun hc => hl ⟨hs, ho, hc⟩
      · rfl
    have hm : view.measure.2 =
        { view with past := false, size := some view.content.length } := by
      unfold RowsView.measure
      rw [hs]
      dsimp only
      rw [hrest]
    rw [hm]
    exact toldOthers_of_size rfl view.size view.past calls

theorem CountedLate.next {view : RowsView} (hl : view.CountedLate) :
    view.measure.2.next.1 = view.content.head? := by
  obtain ⟨hs, ho, -⟩ := hl
  simp only [RowsView.measure, hs, RowsView.next, if_pos ho]

/-- After a count in the middle of a traversal, other calls are answered as if there had been none,
unless it is made too late. -/
theorem counts_unseen {view : RowsView} (h : view.Coherent) :
    (∀ calls, toldOthers (view.measure.2.told calls) = view.told (uncounted calls)) ↔
      ¬ view.CountedLate := by
  refine ⟨fun hu hl => ?_, toldOthers_measure h⟩
  have hreply : view.measure.2.next.1 = view.next.1 := by
    have hn := hu [.next]
    injection hn with hn
    exact RowsReply.row.inj (Prod.mk.inj hn).2
  rw [hl.next, RowsView.next, h.rest_eq hl.2.1] at hreply
  exact hl.2.2 (List.head?_eq_none_iff.1 hreply)

end RowsView

namespace Rows

variable (rows : Rows TableCursor)

theorem call_eq (call : RowsCall) :
    ((rows.call call).1, (rows.call call).2.view) = rows.view.call call := by
  cases call with
  | lock => exact congrArg (fun seen => (RowsReply.of .locked seen.1, seen.2)) rows.seen_tryLock
  | next => exact congrArg (fun seen => (RowsReply.of .row seen.1, seen.2)) rows.seen_next
  | free => exact Prod.ext rfl rows.view_free
  | size => exact congrArg (fun seen => (RowsReply.of .count seen.1, seen.2)) rows.seen_measure

theorem view_call (call : RowsCall) : (rows.call call).2.view = (rows.view.call call).2 :=
  congrArg Prod.snd (rows.call_eq call)

theorem view_after (calls : List RowsCall) : (rows.after calls).view = rows.view.after calls := by
  induction calls generalizing rows with
  | nil => rfl
  | cons call calls ih => exact (ih _).trans (congrArg (·.after calls) (rows.view_call call))

theorem told_eq (calls : List RowsCall) : rows.told calls = rows.view.told calls := by
  induction calls generalizing rows with
  | nil => rfl
  | cons call calls ih => rw [told, RowsView.told, ih, view_call, ← rows.call_eq call]

end Rows

namespace RowsOrigin

theorem coherent (origin : RowsOrigin) : origin.rows.view.Coherent := by
  rw [view_rows]
  refine ⟨fun n hn => ?_, nofun⟩
  dsimp only at hn ⊢
  split at hn
  · cases hn
  · exact (Option.some.inj hn).symm

/-- Leaving out all counts changes no reply to the other calls. -/
def CountsUnseen (origin : RowsOrigin) (calls : List RowsCall) : Prop :=
  toldOthers (origin.rows.told calls) = origin.rows.told (uncounted calls)

instance (origin : RowsOrigin) (calls : List RowsCall) : Decidable (origin.CountsUnseen calls) :=
  inferInstanceAs (Decidable (_ = _))

/-- The rows are those of a query, there are some, and their end has just been met. -/
def Exhausted (origin : RowsOrigin) (before : List RowsCall) : Prop :=
  origin.isQuery = true ∧ origin.content ≠ [] ∧ ended (origin.rows.told before) = true

theorem countedLate_iff (origin : RowsOrigin) {before : List RowsCall} (hb : .size ∉ before) :
    (origin.rows.view.after before).CountedLate ↔ origin.Exhausted before := by
  have hv := origin.view_rows
  have hbegun : origin.rows.view.past = (origin.rows.view.live && false) := by
    rw [hv, Bool.and_false]
  have ho := RowsView.past_after hb hbegun
  rw [RowsView.CountedLate, RowsView.size_after hb, RowsView.content_after, ho, Exhausted, ended,
    Rows.told_eq, hv]
  cases origin.isQuery <;> simp [and_comm]

/-- Every count of rows comes to their number. The first one in the middle of a traversal is not
noticed by the other calls, whatever comes after it, just if the rows are not exhausted: the rows
of a query whose end has just been met begin again with the first one. -/
theorem counts_unseen_iff (origin : RowsOrigin) :
    (∀ calls reply, (.size, reply) ∈ origin.rows.told calls →
      reply = .count origin.content.length) ∧
    ∀ before, .size ∉ before →
      ((∀ more, origin.CountsUnseen (before ++ .size :: more)) ↔ ¬ origin.Exhausted before) ∧
      (origin.Exhausted before →
        origin.rows.told (before ++ [.size, .next]) = origin.rows.told before ++
          [(.size, .count origin.content.length), (.next, .row origin.content.head?)]) := by
  have hcontent : origin.rows.view.content = origin.content := by rw [view_rows]
  refine ⟨fun calls reply hr => ?_, fun before hb => ?_⟩
  · rw [Rows.told_eq] at hr
    rw [origin.coherent.told hr, hcontent]
  have hcoherent := origin.coherent.after before
  have hlate := origin.countedLate_iff hb
  refine ⟨?_, fun he => ?_⟩
  · rw [← hlate, ← RowsView.counts_unseen hcoherent]
    refine forall_congr' fun more => ?_
    have hu : uncounted (before ++ .size :: more) = before ++ uncounted more := by
      rw [uncounted, List.filter_append, ← uncounted, uncounted_of_not_mem hb]
      rfl
    rw [CountsUnseen, Rows.told_eq, Rows.told_eq, hu, RowsView.told_append, RowsView.told_append,
      toldOthers_append, RowsView.toldOthers_told hb, List.append_cancel_left_eq]
    rfl
  · have hnext := (hlate.2 he).next
    rw [RowsView.content_after, hcontent] at hnext
    rw [Rows.told_eq, Rows.told_eq, RowsView.told_append, RowsView.told, RowsView.told,
      RowsView.told, RowsView.call, RowsView.call, hnext, hcoherent.measure_fst,
      RowsView.content_after, hcontent]

/-- The only row comes a second time. -/
theorem not_countsUnseen_behind_last :
    ¬ (query 1 [[some "a"]]).CountsUnseen [.lock, .next, .next, .size, .next] := by
  decide

end RowsOrigin

end ArchiveScript
