import Mathlib
import ArchiveScript.Proofs.Rows.Counting
import ArchiveScript.Proofs.Rows.Traversals

/-! # Equality of rows

Two rows values are compared by going through both of them together. Whatever has been done to them
before, this decides whether they hold the same rows, since nothing changes what rows hold and each
traversal begins with the first row.
-/

namespace ArchiveScript

namespace RowsStore

variable {store : RowsStore TableCursor} {id : RowsId} {α : Type}

def view? (store : RowsStore TableCursor) (id : RowsId) : Option RowsView :=
  (store.get? id).map Rows.view

def content? (store : RowsStore TableCursor) (id : RowsId) : Option (List Row) :=
  (store.view? id).map (·.content)

theorem view?_set {rows : Rows TableCursor} (h : id < store.all.size) (j : RowsId) :
    (store.set id rows).view? j = if j = id then some rows.view else store.view? j := by
  simp only [view?, get?, set, Array.getElem?_setIfInBounds]
  by_cases hj : id = j
  · subst hj
    simp [h]
  · simp [hj, Ne.symm hj]

theorem isLocked_of_view? {view : RowsView} (h : store.view? id = some view) :
    store.isLocked id = view.locked := by
  obtain ⟨rows, hg, rfl⟩ := Option.map_eq_some_iff.1 h
  rw [isLocked_of_get? hg, rows.locked_view]

theorem exists_view? {content : List Row} (h : store.content? id = some content) :
    ∃ view, store.view? id = some view ∧ view.content = content :=
  Option.map_eq_some_iff.1 h

/-! ### What operations answer -/

/-- The second store is the first one, but for what is seen of some rows. -/
def Sees (before : RowsStore TableCursor) (id : RowsId) (view : RowsView)
    (after : RowsStore TableCursor) : Prop :=
  ∀ j, after.view? j = if j = id then some view else before.view? j

theorem Sees.self {view : RowsView} {after : RowsStore TableCursor} (h : Sees store id view after) :
    after.view? id = some view := by
  rw [h id, if_pos rfl]

theorem Sees.other {view : RowsView} {after : RowsStore TableCursor} (h : Sees store id view after)
    {j : RowsId} (hj : j ≠ id) : after.view? j = store.view? j := by
  rw [h j, if_neg hj]

theorem onRows_eq {view after : RowsView} {default a : α}
    {operation : Rows TableCursor → Except HostError α × Rows TableCursor}
    (hv : store.view? id = some view)
    (ho : ∀ rows, rows.view = view → Rows.seen (operation rows) = (.ok a, after)) :
    ∃ store', store.onRows id default operation = (.ok a, store') ∧
      Sees store id after store' := by
  obtain ⟨rows, hg, hr⟩ := Option.map_eq_some_iff.1 hv
  have hs := ho rows hr
  rw [Rows.seen, Prod.mk.injEq] at hs
  refine ⟨store.set id (operation rows).2, ?_, fun j => ?_⟩
  · rw [onRows, hg]
    dsimp only
    rw [hs.1]
    rfl
  · rw [view?_set (lt_size_of_get? hg), hs.2]

theorem next_eq {view : RowsView} (hv : store.view? id = some view) :
    ∃ after, store.next id = (.ok view.next.1, after) ∧ Sees store id view.next.2 after :=
  onRows_eq hv fun rows hr => hr ▸ rows.seen_next

theorem lock_eq {view : RowsView} (hv : store.view? id = some view) (hl : view.locked = false) :
    ∃ after, store.lock id = (.ok (), after) ∧
      Sees store id { view with locked := true, rest := view.content, past := false } after := by
  have ht : view.tryLock =
      (true, { view with locked := true, rest := view.content, past := false }) := by
    simp [RowsView.tryLock, hl]
  have hseen (rows : Rows TableCursor) (hr : rows.view = view) :
      Rows.seen rows.tryLock = (.ok view.tryLock.1, view.tryLock.2) := hr ▸ rows.seen_tryLock
  rw [ht] at hseen
  obtain ⟨after, ho, hs⟩ := onRows_eq hv hseen
  exact ⟨after, by rw [lock, ho], hs⟩

theorem roundLimit_eq {view : RowsView} (hv : store.view? id = some view) :
    store.roundLimit id = view.content.length + 1 := by
  obtain ⟨rows, hg, rfl⟩ := Option.map_eq_some_iff.1 hv
  rw [roundLimit, hg, ← rows.rowLimit_eq]
  rfl

/-- With enough rounds, a comparison of two traversals tells whether the same rows are to come. -/
theorem compareRest_fst {left right : RowsId} (hne : left ≠ right) {a b : RowsView}
    (hl : store.view? left = some a) (hr : store.view? right = some b) {rounds : Nat}
    (hn : a.rest.length < rounds) :
    (compareRest left right rounds store).1 = .ok (decide (a.rest = b.rest)) := by
  induction rounds generalizing store a b with
  | zero => exact absurd hn (Nat.not_lt_zero _)
  | succ rounds ih =>
    obtain ⟨between, ho, hs⟩ := next_eq hl
    obtain ⟨after, ho', hs'⟩ := next_eq ((hs.other hne.symm).trans hr)
    have hl' := (hs'.other hne).trans hs.self
    have hr' := hs'.self
    rw [compareRest, ho]
    dsimp only
    rw [ho']
    -- The comparison ends with the first side that ends, so rounds for one of them are enough.
    rcases hx : a.rest with _ | ⟨x, xs⟩
    · rcases hy : b.rest with _ | ⟨y, ys⟩
      · simp [RowsView.next, hx, hy]
      · simp [RowsView.next, hx, hy]
    · rcases hy : b.rest with _ | ⟨y, ys⟩
      · simp [RowsView.next, hx, hy]
      · have hlen : a.next.2.rest.length < rounds := by
          rw [hx] at hn
          simpa [RowsView.next, hx] using hn
        have h := ih hl' hr' hlen
        simp only [RowsView.next, hx, hy, List.head?_cons, List.tail_cons] at h ⊢
        by_cases hxy : x = y
        · simp [hxy, h]
        · simp [hxy]

theorem equal_fst {left right : RowsId} (hne : left ≠ right) {a b : List Row}
    (ha : store.content? left = some a) (hb : store.content? right = some b)
    (hl : store.isLocked left = false) (hr : store.isLocked right = false) :
    (equal left right store).1 = .ok (decide (a = b)) := by
  obtain ⟨first, hv, rfl⟩ := exists_view? ha
  obtain ⟨second, hw, rfl⟩ := exists_view? hb
  rw [isLocked_of_view? hv] at hl
  rw [isLocked_of_view? hw] at hr
  obtain ⟨between, ho, hs⟩ := lock_eq hv hl
  obtain ⟨begun, ho', hs'⟩ := lock_eq ((hs.other hne.symm).trans hw) hr
  have hv' := (hs'.other hne).trans hs.self
  rw [equal, if_neg hne, ho]
  dsimp only
  rw [ho']
  dsimp only
  rw [roundLimit_eq hv']
  exact compareRest_fst hne hv' hs'.self (Nat.lt_succ_self _)

theorem drainRest_fst {view : RowsView} (hv : store.view? id = some view) {rounds : Nat}
    (hn : view.rest.length < rounds) : (drainRest id rounds store).1 = (view.rest, none) := by
  induction rounds generalizing store view with
  | zero => exact absurd hn (Nat.not_lt_zero _)
  | succ rounds ih =>
    obtain ⟨after, ho, hs⟩ := next_eq hv
    rw [drainRest, ho]
    rcases hx : view.rest with _ | ⟨row, rest⟩
    · simp [RowsView.next, hx]
    · have hlen : view.next.2.rest.length < rounds := by
        rw [hx] at hn
        simpa [RowsView.next, hx] using hn
      have h := ih hs.self hlen
      simp only [RowsView.next, hx, List.head?_cons, List.tail_cons] at h ⊢
      exact congrArg (fun passed => (row :: passed.1, passed.2)) h

theorem drain_fst {content : List Row} (hc : store.content? id = some content)
    (hl : store.isLocked id = false) : (drain id store).1 = .ok (content, none) := by
  obtain ⟨view, hv, rfl⟩ := exists_view? hc
  rw [isLocked_of_view? hv] at hl
  obtain ⟨begun, ho, hs⟩ := lock_eq hv hl
  rw [drain, ho]
  dsimp only
  rw [roundLimit_eq hs.self, drainRest_fst hs.self (Nat.lt_succ_self _)]

/-! ### What rows hold -/

theorem content?_set {rows : Rows TableCursor} {found : Rows TableCursor}
    (hg : store.get? id = some found) (h : rows.view.content = found.view.content) :
    (store.set id rows).content? = store.content? := by
  funext j
  rw [content?, view?_set (lt_size_of_get? hg), content?]
  split
  · rename_i hj
    rw [hj, view?, hg]
    exact congrArg some h
  · rfl

theorem content?_onRows {default : α}
    {operation : Rows TableCursor → Except HostError α × Rows TableCursor}
    (ho : ∀ rows, (operation rows).2.view.content = rows.view.content) :
    (store.onRows id default operation).2.content? = store.content? := by
  unfold onRows
  cases hg : store.get? id with
  | none => rfl
  | some rows => exact content?_set hg (ho rows)

theorem content?_next (store : RowsStore TableCursor) (id : RowsId) :
    (store.next id).2.content? = store.content? :=
  content?_onRows fun rows => congrArg (·.2.content) rows.seen_next

theorem content?_size (store : RowsStore TableCursor) (id : RowsId) :
    (store.size id).2.content? = store.content? :=
  content?_onRows fun rows =>
    (congrArg (·.2.content) rows.seen_measure).trans rows.view.content_measure

theorem content?_lock (store : RowsStore TableCursor) (id : RowsId) :
    (store.lock id).2.content? = store.content? := by
  have h : (store.onRows id true Rows.tryLock).2.content? = store.content? :=
    content?_onRows fun rows =>
      (congrArg (·.2.content) rows.seen_tryLock).trans rows.view.content_tryLock
  rw [← h, lock]
  rcases store.onRows id true Rows.tryLock with ⟨_ | _ | _, _⟩ <;> rfl

theorem content?_free (store : RowsStore TableCursor) (id : RowsId) :
    (store.free id).content? = store.content? := by
  unfold free
  cases hg : store.get? id with
  | none => rfl
  | some rows => exact content?_set hg (congrArg (·.content) rows.view_free)

theorem content?_compareRest (left right : RowsId) (rounds : Nat) (store : RowsStore TableCursor) :
    (compareRest left right rounds store).2.content? = store.content? :=
  compareRest_keeps (T := fun before after => after.content? = before.content?) (fun _ => rfl)
    (fun h h' => h'.trans h) (fun store => store.content?_next left)
    (fun store => store.content?_next right) rounds store

theorem content?_equal (left right : RowsId) (store : RowsStore TableCursor) :
    (equal left right store).2.content? = store.content? := by
  unfold equal
  split
  · rfl
  have hl := store.content?_lock left
  generalize store.lock left = passed at hl ⊢
  rcases passed with ⟨_ | _, between⟩
  · exact hl
  have hr := (between.content?_lock right).trans hl
  dsimp only
  generalize between.lock right = passed at hr ⊢
  rcases passed with ⟨_ | _, begun⟩
  · exact (begun.content?_free left).trans hr
  · dsimp only
    rw [content?_free, content?_free, content?_compareRest]
    exact hr

end RowsStore

namespace Traversals

open RowsStore

/-- Nothing that can be done changes what rows hold. -/
theorem content?_act (state : Traversals TableCursor) (action : RowsAction) :
    (state.act action).2.store.content? = state.store.content? := by
  cases action with
  | traverse rows =>
    have h := state.store.content?_lock rows
    rw [act]
    generalize state.store.lock rows = passed at h ⊢
    rcases passed with ⟨_ | _, store⟩ <;> exact h
  | next traversal =>
    rw [act]
    split
    · rw [answer_snd]
      exact content?_next ..
    · rfl
  | drop traversal =>
    rw [act]
    split
    · exact content?_free ..
    · rfl
  | size rows =>
    rw [act, answer_snd]
    exact content?_size ..
  | columnCount rows => rfl
  | equal left right =>
    rw [act, answer_snd]
    exact content?_equal ..

theorem content?_after (state : Traversals TableCursor) (actions : List RowsAction) :
    (state.after actions).store.content? = state.store.content? := by
  induction actions generalizing state with
  | nil => rfl
  | cons action actions ih => exact (ih _).trans (state.content?_act action)

end Traversals

/-- Rows to which some calls were made before they were shared. -/
structure UsedRows where
  origin : RowsOrigin
  calls : List RowsCall := []

namespace UsedRows

def rows (used : UsedRows) : Rows TableCursor := used.origin.rows.after used.calls

theorem content_rows (used : UsedRows) : used.rows.view.content = used.origin.content := by
  rw [rows, Rows.view_after, RowsView.content_after, RowsOrigin.view_rows]

def store (handles : List UsedRows) (actions : List RowsAction) : RowsStore TableCursor :=
  ((Traversals.unread (handles.map rows)).after actions).store

theorem content?_store {handles : List UsedRows} {id : RowsId} {used : UsedRows}
    (h : handles[id]? = some used) (actions : List RowsAction) :
    (store handles actions).content? id = some used.origin.content := by
  rw [store, Traversals.content?_after, RowsStore.content?, RowsStore.view?, RowsStore.get?,
    Traversals.unread, ← used.content_rows]
  simp [h]

variable {handles : List UsedRows} {actions : List RowsAction}

/-- Two different rows values, neither of which is being traversed. -/
structure Comparable (handles : List UsedRows) (actions : List RowsAction)
    (left right : Fin handles.length) : Prop where
  ne : left ≠ right
  left_free : (store handles actions).isLocked left = false
  right_free : (store handles actions).isLocked right = false

variable {left right : Fin handles.length}

theorem Comparable.symm (h : Comparable handles actions left right) :
    Comparable handles actions right left :=
  ⟨h.ne.symm, h.right_free, h.left_free⟩

theorem content?_fin (id : Fin handles.length) (actions : List RowsAction) :
    (store handles actions).content? id = some handles[id].origin.content :=
  content?_store (List.getElem?_eq_getElem id.isLt) actions

theorem Comparable.equal_fst (h : Comparable handles actions left right) :
    (RowsStore.equal left right (store handles actions)).1 =
      .ok (decide (handles[left].origin.content = handles[right].origin.content)) :=
  RowsStore.equal_fst (Fin.val_ne_of_ne h.ne) (content?_fin left actions)
    (content?_fin right actions) h.left_free h.right_free

/-- Of rows that are not being traversed the comparison tells whether they hold the same rows. So it
does not matter which comes first and what has been done to them before, and what is equal to the
same is equal. After it no rows are locked that were not before, and all hold what they held. Rows
are equal to themselves also while they are being traversed. -/
theorem equal_decides_content (handles : List UsedRows) (actions : List RowsAction) :
    (∀ left right, Comparable handles actions left right →
      (RowsStore.equal left right (store handles actions)).1 =
          .ok (decide (handles[left].origin.content = handles[right].origin.content)) ∧
        (RowsStore.equal right left (store handles actions)).1 =
          (RowsStore.equal left right (store handles actions)).1 ∧
        (∀ actions', Comparable handles actions' left right →
          (RowsStore.equal left right (store handles actions')).1 =
            (RowsStore.equal left right (store handles actions)).1) ∧
        (∀ id : Fin handles.length,
          let after := (RowsStore.equal left right (store handles actions)).2
          after.isLocked id = (store handles actions).isLocked id ∧
            (after.isLocked id = false →
              (RowsStore.drain id after).1 = .ok (handles[id].origin.content, none)))) ∧
    (∀ left middle right, Comparable handles actions left middle →
      Comparable handles actions middle right → Comparable handles actions left right →
        (RowsStore.equal left middle (store handles actions)).1 = .ok true →
        (RowsStore.equal middle right (store handles actions)).1 = .ok true →
        (RowsStore.equal left right (store handles actions)).1 = .ok true) ∧
    ∀ id, RowsStore.equal id id (store handles actions) = (.ok true, store handles actions) := by
  refine ⟨fun left right h => ⟨h.equal_fst, ?_, fun actions' h' => ?_, fun id => ?_⟩,
    fun left middle right hlm hmr hlr h h' => ?_, fun id => ?_⟩
  · rw [h.equal_fst, h.symm.equal_fst]
    simp only [eq_comm]
  · rw [h.equal_fst, h'.equal_fst]
  · refine ⟨(RowsStore.sameLocks_equal left right _).isLocked_eq id, fun hfree => ?_⟩
    refine RowsStore.drain_fst ?_ hfree
    rw [RowsStore.content?_equal]
    exact content?_fin id actions
  · rw [hlm.equal_fst, Except.ok.injEq, decide_eq_true_eq] at h
    rw [hmr.equal_fst, Except.ok.injEq, decide_eq_true_eq] at h'
    rw [hlr.equal_fst, Except.ok.injEq, decide_eq_true_eq, h, h']
  · rw [RowsStore.equal, if_pos rfl]

/-- Rows of a text and of a query that was read before, while other rows are being traversed. The
second row of each of the first two is as wide as their first one. -/
theorem equal_decides_content_underway :
    let text : UsedRows := { origin := .text "a\tb\nc" }
    let query : UsedRows := {
      origin := .query 2 [[some "a", some "b", some "cut off"], [some "c"]]
      calls := [.lock, .next, .free] }
    let other : UsedRows := { origin := .text "a\tb" }
    let handles := [text, query, other, text]
    let actions := [RowsAction.traverse 3, .next 0, .traverse 2, .next 1, .drop 1]
    Comparable handles actions 0 1 ∧ Comparable handles actions 0 2 ∧
      (RowsStore.equal 0 1 (store handles actions)).1 = .ok true ∧
      (RowsStore.equal 0 2 (store handles actions)).1 = .ok false ∧
      (RowsStore.drain 1 (RowsStore.equal 0 1 (store handles actions)).2).1 =
        .ok ([[some "a", some "b"], [some "c", none]], none) := by
  intro text query other handles actions
  have hsame : Comparable handles actions 0 1 := ⟨by decide, by decide +kernel, by decide +kernel⟩
  have hdiffer : Comparable handles actions 0 2 :=
    ⟨by decide, by decide +kernel, by decide +kernel⟩
  obtain ⟨hequal, -, -, hafter⟩ := (equal_decides_content handles actions).1 0 1 hsame
  obtain ⟨hunequal, -⟩ := (equal_decides_content handles actions).1 0 2 hdiffer
  obtain ⟨hlocked, hdrain⟩ := hafter 1
  exact ⟨hsame, hdiffer, hequal, hunequal, hdrain (hlocked.trans hsame.right_free)⟩

end UsedRows

end ArchiveScript
