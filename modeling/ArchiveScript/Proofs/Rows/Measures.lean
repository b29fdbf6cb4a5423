import ArchiveScript.Proofs.Rows.Locks

/-! # The numbers of rows

Rows are counted once: the number is kept with them. So it makes no difference to what counting
comes to whether rows have been counted before.
-/

namespace ArchiveScript

variable {κ : Type} [Cursor κ]

theorem Rows.measure_again {rows after : Rows κ} {n : Nat} (h : rows.measure = (.ok n, after)) :
    after.measure = (.ok n, after) := by
  unfold measure at h
  split at h
  · rename_i size hs
    cases h
    rw [measure, hs]
  · split at h
    · rename_i cursor _
      rcases hr : rows.onCursor cursor countRows with ⟨_ | size, counted⟩
      · rw [hr] at h
        cases h
      · rw [hr] at h
        cases h
        rfl
    · cases h
      rfl

namespace RowsStore

def measured (store : RowsStore κ) (id : RowsId) : Option (Except HostError Nat) :=
  (store.get? id).map (·.measure.1)

/-- The rows of the first store come to the same numbers in the second. -/
def Remembers (before after : RowsStore κ) : Prop :=
  ∀ id outcome, before.measured id = some outcome → after.measured id = some outcome

theorem Remembers.refl (store : RowsStore κ) : Remembers store store := fun _ _ h => h

theorem Remembers.trans {first second third : RowsStore κ} (h : Remembers first second)
    (h' : Remembers second third) : Remembers first third :=
  fun id outcome hm => h' id outcome (h id outcome hm)

theorem measured_add (store : RowsStore κ) (rows : Rows κ) :
    (store.add rows).2.measured (store.add rows).1 = some rows.measure.1 := by
  simp [measured, add, get?]

theorem remembers_add (store : RowsStore κ) (rows : Rows κ) :
    Remembers store (store.add rows).2 := by
  intro id outcome h
  obtain ⟨found, hf, rfl⟩ := Option.map_eq_some_iff.1 h
  have hs : id ≠ store.all.size := Nat.ne_of_lt (lt_size_of_get? hf)
  have hg : (store.add rows).2.get? id = store.get? id := by
    simp [get?, add, Array.getElem?_push, hs]
  rw [measured, hg, hf]
  rfl

/-- Counting comes to what is measured, and rows that are not there count as none. -/
theorem size_eq (store : RowsStore κ) (id : RowsId) :
    (store.size id).1 = match store.measured id with
      | some outcome => outcome.mapError .cursor
      | none => .ok 0 := by
  rw [size, onRows, measured]
  cases store.get? id <;> rfl

theorem remembers_size {store after : RowsStore κ} {id : RowsId} {n : Nat}
    (h : store.size id = (.ok n, after)) : Remembers store after := by
  rw [size, onRows] at h
  cases hg : store.get? id with
  | none =>
    rw [hg] at h
    cases h
    exact .refl store
  | some rows =>
    rw [hg] at h
    rcases hm : rows.measure with ⟨_ | size, counted⟩
    · dsimp only at h
      rw [hm] at h
      cases (Prod.mk.inj h).1
    · simp only [hm, Prod.mk.injEq] at h
      obtain ⟨-, rfl⟩ := h
      intro j outcome hj
      obtain ⟨found, hf, rfl⟩ := Option.map_eq_some_iff.1 hj
      by_cases hid : j = id
      · subst hid
        obtain rfl := Option.some.inj (hg.symm.trans hf)
        have hs := lt_size_of_get? hg
        have hset : (store.set j counted).get? j = some counted := by
          simp [get?, set, hs]
        rw [measured, hset, Option.map_some, hm, Rows.measure_again hm]
      · have hset : (store.set id counted).get? j = store.get? j := by
          simp [get?, set, Ne.symm hid]
        rw [measured, hset, hf]
        rfl

/-- The rows that are held are in both stores and come to the same numbers. -/
def Alike (held : RowsId → Prop) (store store' : RowsStore κ) : Prop :=
  ∀ id, held id → ∃ outcome, store.measured id = some outcome ∧ store'.measured id = some outcome

theorem Alike.grow {held : RowsId → Prop} {store store' after after' : RowsStore κ}
    (h : Alike held store store') (hs : Remembers store after) (hs' : Remembers store' after') :
    Alike held after after' := by
  intro id hid
  obtain ⟨outcome, hm, hm'⟩ := h id hid
  exact ⟨outcome, hs id outcome hm, hs' id outcome hm'⟩

end RowsStore

end ArchiveScript
