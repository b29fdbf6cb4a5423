import ArchiveScript.Rows.Store

/-! # Locks of rows

What each operation does to the locks of a store. Only beginning a traversal takes a lock, only
freeing releases one, and a comparison leaves all locks as they were.
-/

namespace ArchiveScript

namespace Rows

variable {κ : Type} [Cursor κ]

@[simp]
theorem locked_next (rows : Rows κ) : rows.next.2.locked = rows.locked := by
  unfold next
  split
  · rfl
  · split <;> rfl

@[simp]
theorem locked_measure (rows : Rows κ) : rows.measure.2.locked = rows.locked := by
  unfold measure
  split
  · rfl
  · split
    · rename_i cursor _
      rcases hr : rows.onCursor cursor countRows with ⟨_ | _, after⟩
      · exact congrArg (fun passed => passed.2.locked) hr.symm
      · exact congrArg (fun passed => passed.2.locked) hr.symm
    · rfl

/-- A traversal begins on rows without a lock and takes it; one that does not begin leaves the
lock as it is. -/
theorem tryLock_cases (rows : Rows κ) :
    (rows.tryLock.1 = .ok true ∧ rows.locked = false ∧ rows.tryLock.2.locked = true) ∨
      (rows.tryLock.1 ≠ .ok true ∧ rows.tryLock.2.locked = rows.locked) := by
  unfold tryLock
  cases hl : rows.locked with
  | true => exact .inr ⟨by simp, hl⟩
  | false =>
    simp only [Bool.false_eq_true, if_false]
    split
    · rename_i cursor _
      have hc : (rows.onCursor cursor Cursor.beforeFirst).2.locked = rows.locked := rfl
      rcases hr : rows.onCursor cursor Cursor.beforeFirst with ⟨_ | _, after⟩
      · rw [hr] at hc
        exact .inr ⟨by simp, hc.trans hl⟩
      · exact .inl ⟨rfl, trivial, rfl⟩
    · exact .inl ⟨rfl, trivial, rfl⟩

end Rows

namespace RowsStore

variable {κ : Type} {α : Type}

theorem isLocked_set (store : RowsStore κ) (id j : RowsId) (rows : Rows κ) :
    (store.set id rows).isLocked j =
      if j = id ∧ id < store.all.size then rows.locked else store.isLocked j := by
  simp only [isLocked, get?, set, Array.getElem?_setIfInBounds]
  by_cases hj : id = j
  · subst hj
    by_cases hs : id < store.all.size <;> simp [hs]
  · simp [hj, Ne.symm hj]

@[simp]
theorem size_set (store : RowsStore κ) (id : RowsId) (rows : Rows κ) :
    (store.set id rows).all.size = store.all.size := by
  simp [set]

theorem lt_size_of_get? {store : RowsStore κ} {id : RowsId} {rows : Rows κ}
    (h : store.get? id = some rows) : id < store.all.size :=
  (Array.getElem?_eq_some_iff.1 h).1

theorem isLocked_of_get? {store : RowsStore κ} {id : RowsId} {rows : Rows κ}
    (h : store.get? id = some rows) : store.isLocked id = rows.locked := by
  simp [isLocked, h]

/-- The second store has grown out of the first: all rows of the first have the locks that they
had, and the new ones have none. -/
structure SameLocks (before after : RowsStore κ) : Prop where
  size_le : before.all.size ≤ after.all.size
  isLocked_eq : ∀ id, after.isLocked id = before.isLocked id

namespace SameLocks

variable {first second third : RowsStore κ}

theorem refl (store : RowsStore κ) : SameLocks store store := ⟨Nat.le_refl _, fun _ => rfl⟩

theorem trans (h : SameLocks first second) (h' : SameLocks second third) :
    SameLocks first third :=
  ⟨Nat.le_trans h.size_le h'.size_le, fun id => (h'.isLocked_eq id).trans (h.isLocked_eq id)⟩

theorem set {store : RowsStore κ} {id : RowsId} {rows : Rows κ}
    (h : rows.locked = store.isLocked id) : SameLocks store (store.set id rows) := by
  refine ⟨by simp, fun j => ?_⟩
  rw [isLocked_set]
  split
  · rename_i hj
    rw [h, hj.1]
  · rfl

theorem add {store : RowsStore κ} {rows : Rows κ} (h : rows.locked = false) :
    SameLocks store (store.add rows).2 := by
  refine ⟨by simp [RowsStore.add], fun id => ?_⟩
  simp only [isLocked, get?, RowsStore.add, Array.getElem?_push]
  split
  · rename_i hid
    simp [hid, h]
  · rfl

theorem onRows {store : RowsStore κ} {id : RowsId} {default : α}
    {operation : Rows κ → Except HostError α × Rows κ}
    (h : ∀ rows, (operation rows).2.locked = rows.locked) :
    SameLocks store (store.onRows id default operation).2 := by
  unfold RowsStore.onRows
  cases hg : store.get? id with
  | none => exact refl store
  | some rows => exact set ((h rows).trans (isLocked_of_get? hg).symm)

theorem get?_old {before after : RowsStore κ} (h : SameLocks before after) {id : RowsId}
    {rows : Rows κ} (hb : before.get? id = some rows) :
    ∃ rows', after.get? id = some rows' ∧ rows'.locked = rows.locked := by
  have hs : id < after.all.size := Nat.lt_of_lt_of_le (lt_size_of_get? hb) h.size_le
  have ha : after.get? id = some after.all[id] := Array.getElem?_eq_getElem hs
  refine ⟨_, ha, ?_⟩
  rw [← isLocked_of_get? ha, ← isLocked_of_get? hb]
  exact h.isLocked_eq id

theorem get?_new {before after : RowsStore κ} (h : SameLocks before after) {id : RowsId}
    {rows : Rows κ} (hb : before.get? id = none) (ha : after.get? id = some rows) :
    rows.locked = false := by
  rw [← isLocked_of_get? ha, h.isLocked_eq, isLocked, hb]
  rfl

end SameLocks

theorem isLocked_free (store : RowsStore κ) (id j : RowsId) :
    (store.free id).isLocked j = if j = id then false else store.isLocked j := by
  unfold free
  cases hg : store.get? id with
  | none =>
    by_cases hj : j = id
    · subst hj
      simp [isLocked, hg]
    · simp [hj]
  | some rows =>
    have hs := lt_size_of_get? hg
    simp [isLocked_set, hs]

@[simp]
theorem size_free (store : RowsStore κ) (id : RowsId) :
    (store.free id).all.size = store.all.size := by
  unfold free
  cases store.get? id with
  | none => rfl
  | some rows => exact size_set store id _

/-- Freeing at the end of a traversal gives back the locks from before its beginning. -/
structure Locks (before : RowsStore κ) (id : RowsId) (after : RowsStore κ) : Prop where
  size_eq : after.all.size = before.all.size
  was_free : before.isLocked id = false
  others : ∀ j, j ≠ id → after.isLocked j = before.isLocked j

theorem Locks.free {before after final : RowsStore κ} {id : RowsId} (h : Locks before id after)
    (hs : SameLocks after final) : SameLocks before (final.free id) := by
  refine ⟨?_, fun j => ?_⟩
  · rw [size_free, ← h.size_eq]
    exact hs.size_le
  · rw [isLocked_free]
    by_cases hj : j = id
    · rw [if_pos hj, hj, h.was_free]
    · rw [if_neg hj, hs.isLocked_eq, h.others j hj]

variable [Cursor κ]

/-- Beginning a traversal takes the lock of its rows and no other, or fails and takes none. -/
theorem lock_cases (store : RowsStore κ) (id : RowsId) :
    (∃ after, store.lock id = (.ok (), after) ∧ Locks store id after) ∨
      ∃ error after, store.lock id = (.error error, after) ∧ SameLocks store after := by
  unfold lock RowsStore.onRows
  cases hg : store.get? id with
  | none =>
    refine .inl ⟨store, rfl, rfl, ?_, fun _ _ => rfl⟩
    simp [isLocked, hg]
  | some rows =>
    have hl := isLocked_of_get? hg
    have ht := rows.tryLock_cases
    dsimp only
    generalize rows.tryLock = passed at ht ⊢
    rcases passed with ⟨outcome, after⟩
    rcases ht with ⟨ho, hb, -⟩ | ⟨ho, ha⟩
    · obtain rfl : outcome = .ok true := ho
      refine .inl ⟨_, rfl, size_set .., hl.trans hb, fun j hj => ?_⟩
      exact (isLocked_set store id j after).trans (if_neg fun h => hj h.1)
    · have hs : SameLocks store (store.set id after) := .set (ha.trans hl.symm)
      rcases outcome with error | began
      · exact .inr ⟨_, _, rfl, hs⟩
      · cases began with
        | false => exact .inr ⟨_, _, rfl, hs⟩
        | true => exact absurd rfl ho

theorem sameLocks_next (store : RowsStore κ) (id : RowsId) : SameLocks store (store.next id).2 :=
  .onRows Rows.locked_next

theorem sameLocks_size (store : RowsStore κ) (id : RowsId) : SameLocks store (store.size id).2 :=
  .onRows Rows.locked_measure

/-- What each row that is asked for keeps is kept by a comparison of two traversals. -/
theorem compareRest_keeps {T : RowsStore κ → RowsStore κ → Prop} (hrefl : ∀ store, T store store)
    (htrans : ∀ {first second third}, T first second → T second third → T first third)
    {left right : RowsId} (hleft : ∀ store, T store (store.next left).2)
    (hright : ∀ store, T store (store.next right).2) (rounds : Nat) (store : RowsStore κ) :
    T store (compareRest left right rounds store).2 := by
  induction rounds generalizing store with
  | zero => exact hrefl store
  | succ rounds ih =>
    have hl := hleft store
    unfold compareRest
    rcases hn : store.next left with ⟨error | a, between⟩
    · rw [hn] at hl
      exact hl
    · rw [hn] at hl
      have hr := hright between
      rcases hn' : between.next right with ⟨error | b, after⟩
      · rw [hn'] at hr
        simp only [hn']
        exact htrans hl hr
      · rw [hn'] at hr
        simp only [hn']
        cases a with
        | none => cases b <;> exact htrans hl hr
        | some a =>
          cases b with
          | none => exact htrans hl hr
          | some b =>
            simp only
            split
            · exact htrans (htrans hl hr) (ih after)
            · exact htrans hl hr

theorem sameLocks_compareRest (left right : RowsId) (rounds : Nat) (store : RowsStore κ) :
    SameLocks store (compareRest left right rounds store).2 :=
  compareRest_keeps .refl .trans (fun store => store.sameLocks_next left)
    (fun store => store.sameLocks_next right) rounds store

theorem sameLocks_equal (left right : RowsId) (store : RowsStore κ) :
    SameLocks store (equal left right store).2 := by
  unfold equal
  split
  · exact .refl store
  rcases store.lock_cases left with ⟨first, ho, hl⟩ | ⟨_, after, ho, hs⟩
  · simp only [ho]
    rcases first.lock_cases right with ⟨second, ho', hl'⟩ | ⟨_, after, ho', hs'⟩
    · simp only [ho']
      exact hl.free (hl'.free (sameLocks_compareRest left right _ second))
    · simp only [ho']
      exact hl.free hs'
  · simp only [ho]
    exact hs

end RowsStore

end ArchiveScript
