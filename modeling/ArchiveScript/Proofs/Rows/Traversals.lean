import ArchiveScript.Proofs.Rows.Locks

/-! # Traversals of rows

The lock of rows is kept with the rows, and a traversal by whoever has begun it. Whatever is done
to several rows and their traversals, in whatever order, the two go together: rows are locked as
long as there is a traversal of them, and there is never a second one.
-/

namespace ArchiveScript

namespace Rows

variable {κ : Type} [Cursor κ]

theorem tryLock_eq_false_iff (rows : Rows κ) : rows.tryLock.1 = .ok false ↔ rows.locked = true := by
  unfold tryLock
  cases hl : rows.locked with
  | true => simp
  | false =>
    simp only [Bool.false_eq_true, if_false, iff_false]
    split
    · split <;> simp
    · simp

end Rows

namespace RowsStore

variable {κ : Type} [Cursor κ]

theorem lock_eq_locked_iff (store : RowsStore κ) (id : RowsId) :
    (store.lock id).1 = .error .locked ↔ store.isLocked id = true := by
  unfold lock RowsStore.onRows
  cases hg : store.get? id with
  | none => simp [isLocked, hg]
  | some rows =>
    rw [isLocked_of_get? hg, ← rows.tryLock_eq_false_iff]
    dsimp only
    rcases rows.tryLock with ⟨error | began, after⟩
    · refine iff_of_false ?_ ?_ <;> intro h <;> cases h
    · cases began
      · exact iff_of_true rfl rfl
      · refine iff_of_false ?_ ?_ <;> intro h <;> cases h

theorem isLocked_lock {store : RowsStore κ} {id : RowsId} (hid : id < store.all.size)
    (hb : (store.lock id).1 = .ok ()) : (store.lock id).2.isLocked id = true := by
  have hg : store.get? id = some store.all[id] := Array.getElem?_eq_getElem hid
  have ht := store.all[id].tryLock_cases
  unfold lock RowsStore.onRows at hb ⊢
  rw [hg] at hb ⊢
  dsimp only at hb ⊢
  generalize store.all[id].tryLock = passed at ht hb ⊢
  rcases passed with ⟨error | began, after⟩
  · cases hb
  · cases began with
    | false => cases hb
    | true =>
      obtain ⟨-, -, hl⟩ := ht.resolve_right fun h => h.1 rfl
      exact (isLocked_set store id id after).trans ((if_pos ⟨rfl, hid⟩).trans hl)

end RowsStore

/-- What can be done to rows by those who hold their names, and to traversals by those who have
begun them. A traversal goes by the number of those that were begun before it. -/
inductive RowsAction where
  | traverse (rows : RowsId)
  | next (traversal : Nat)
  | drop (traversal : Nat)
  | size (rows : RowsId)
  | columnCount (rows : RowsId)
  | equal (left right : RowsId)

inductive RowsAnswer where
  | begun
  | row (row : Option Row)
  | dropped
  | count (n : Nat)
  | verdict (same : Bool)
  | failed (error : RowsError)
  /-- The traversal has not begun, or is over. -/
  | noTraversal

/-- A store of rows with the traversals of them that were begun, in order. A traversal that is
over has no rows any more. -/
structure Traversals (κ : Type) where
  store : RowsStore κ
  begun : List (Option RowsId) := []

namespace Traversals

variable {κ α : Type}

def alive (state : Traversals κ) (rows : RowsId) : Nat := state.begun.count (some rows)

def rowsOf? (state : Traversals κ) (traversal : Nat) : Option RowsId :=
  state.begun[traversal]?.join

def answer (state : Traversals κ) (reply : α → RowsAnswer) :
    Except RowsError α × RowsStore κ → RowsAnswer × Traversals κ
  | (.ok a, store) => (reply a, { state with store })
  | (.error error, store) => (.failed error, { state with store })

variable [Cursor κ]

/-- A traversal begins when its rows can be locked, and they are freed when it is dropped. -/
def act (state : Traversals κ) : RowsAction → RowsAnswer × Traversals κ
  | .traverse rows =>
    match state.store.lock rows with
    | (.ok _, store) => (.begun, ⟨store, state.begun ++ [some rows]⟩)
    | (.error error, store) => (.failed error, { state with store })
  | .next traversal =>
    match state.rowsOf? traversal with
    | some rows => state.answer .row (state.store.next rows)
    | none => (.noTraversal, state)
  | .drop traversal =>
    match state.rowsOf? traversal with
    | some rows => (.dropped, ⟨state.store.free rows, state.begun.set traversal none⟩)
    | none => (.noTraversal, state)
  | .size rows => state.answer .count (state.store.size rows)
  | .columnCount rows => (.count (state.store.columnCount rows), state)
  | .equal left right => state.answer .verdict (RowsStore.equal left right state.store)

def after (state : Traversals κ) (actions : List RowsAction) : Traversals κ :=
  actions.foldl (fun state action => (state.act action).2) state

def unread (rows : List (Rows κ)) : Traversals κ := { store := ⟨rows.toArray⟩ }

/-- The store has at least `n` rows, and the lock of each of these tells how many traversals of
them there are. -/
structure InStep (n : Nat) (state : Traversals κ) : Prop where
  size_le : n ≤ state.store.all.size
  alive_eq : ∀ id < n, state.alive id = (state.store.isLocked id).toNat

section

variable {n : Nat} {state : Traversals κ}

omit [Cursor κ] in
theorem InStep.locked_iff (h : InStep n state) {id : RowsId} (hid : id < n) :
    state.store.isLocked id = true ↔ state.alive id = 1 := by
  rw [h.alive_eq id hid]
  cases state.store.isLocked id <;> simp

omit [Cursor κ] in
theorem InStep.alive_le_one (h : InStep n state) {id : RowsId} (hid : id < n) :
    state.alive id ≤ 1 := by
  rw [h.alive_eq id hid]
  exact Bool.toNat_le _

omit [Cursor κ] in
theorem InStep.of_sameLocks {next : Traversals κ} (h : InStep n state)
    (hs : state.store.SameLocks next.store) (hb : next.begun = state.begun) : InStep n next := by
  refine ⟨Nat.le_trans h.size_le hs.size_le, fun id hid => ?_⟩
  rw [hs.isLocked_eq, alive, hb]
  exact h.alive_eq id hid

omit [Cursor κ] in
theorem answer_snd (reply : α → RowsAnswer) (result : Except RowsError α × RowsStore κ) :
    (state.answer reply result).2 = { state with store := result.2 } := by
  rcases result with ⟨_ | _, _⟩ <;> rfl

omit [Cursor κ] in
theorem lt_length_of_rowsOf? {traversal : Nat} {rows : RowsId}
    (h : state.rowsOf? traversal = some rows) :
    ∃ hlt : traversal < state.begun.length, state.begun[traversal] = some rows :=
  List.getElem?_eq_some_iff.1 (Option.join_eq_some_iff.1 h)

/-- What an action does to locks and traversals: nothing, or a traversal begins or is over. -/
theorem act_cases (state : Traversals κ) (action : RowsAction) :
    (state.store.SameLocks (state.act action).2.store ∧
        (state.act action).2.begun = state.begun) ∨
      (∃ rows store, state.store.lock rows = (.ok (), store) ∧ state.store.Locks rows store ∧
        state.act action = (.begun, ⟨store, state.begun ++ [some rows]⟩)) ∨
      ∃ traversal rows, state.rowsOf? traversal = some rows ∧
        state.act action = (.dropped, ⟨state.store.free rows, state.begun.set traversal none⟩) := by
  cases action with
  | traverse rows =>
    rw [act]
    rcases state.store.lock_cases rows with ⟨store, ho, hl⟩ | ⟨_, store, ho, hs⟩
    · rw [ho]
      exact .inr (.inl ⟨rows, store, ho, hl, rfl⟩)
    · rw [ho]
      exact .inl ⟨hs, rfl⟩
  | next traversal =>
    rw [act]
    split
    · rw [answer_snd]
      exact .inl ⟨state.store.sameLocks_next _, rfl⟩
    · exact .inl ⟨.refl _, rfl⟩
  | drop traversal =>
    rw [act]
    split
    · rename_i rows hr
      exact .inr (.inr ⟨traversal, rows, hr, rfl⟩)
    · exact .inl ⟨.refl _, rfl⟩
  | size rows =>
    rw [act, answer_snd]
    exact .inl ⟨state.store.sameLocks_size rows, rfl⟩
  | columnCount rows => exact .inl ⟨.refl _, rfl⟩
  | equal left right =>
    rw [act, answer_snd]
    exact .inl ⟨RowsStore.sameLocks_equal left right state.store, rfl⟩

theorem InStep.traverse (h : InStep n state) {rows : RowsId} {store : RowsStore κ}
    (ho : state.store.lock rows = (.ok (), store)) (hl : state.store.Locks rows store) :
    InStep n ⟨store, state.begun ++ [some rows]⟩ := by
  refine ⟨hl.size_eq ▸ h.size_le, fun id hid => ?_⟩
  have hcount : Traversals.alive ⟨store, state.begun ++ [some rows]⟩ id =
      (state.store.isLocked id).toNat + [some rows].count (some id) := by
    rw [← h.alive_eq id hid, Traversals.alive, List.count_append, Traversals.alive]
  rw [hcount]
  by_cases hj : id = rows
  · subst hj
    have hb := RowsStore.isLocked_lock (Nat.lt_of_lt_of_le hid h.size_le) (congrArg Prod.fst ho)
    rw [ho] at hb
    rw [hl.was_free, hb]
    simp
  · have hne : some id ∉ [some rows] := by simpa using hj
    rw [hl.others id hj, List.count_eq_zero_of_not_mem hne, Nat.add_zero]

omit [Cursor κ] in
theorem InStep.drop (h : InStep n state) {traversal : Nat} {rows : RowsId}
    (hr : state.rowsOf? traversal = some rows) :
    InStep n ⟨state.store.free rows, state.begun.set traversal none⟩ := by
  obtain ⟨hlt, hb⟩ := lt_length_of_rowsOf? hr
  refine ⟨by simpa using h.size_le, fun id hid => ?_⟩
  have hcount : Traversals.alive ⟨state.store.free rows, state.begun.set traversal none⟩ id =
      state.alive id - if id = rows then 1 else 0 := by
    rw [Traversals.alive, List.count_set hlt, hb, Traversals.alive]
    simp [@eq_comm _ id rows]
  rw [hcount, RowsStore.isLocked_free]
  by_cases hj : id = rows
  · have hle := h.alive_le_one hid
    rw [if_pos hj, if_pos hj, Bool.toNat_false]
    omega
  · rw [if_neg hj, if_neg hj, Nat.sub_zero]
    exact h.alive_eq id hid

/-- Whatever is done next, locks and traversals stay in step. -/
theorem InStep.act (h : InStep n state) (action : RowsAction) :
    InStep n (state.act action).2 := by
  rcases state.act_cases action with ⟨hs, hb⟩ | ⟨rows, store, ho, hl, ha⟩ | ⟨_, rows, hr, ha⟩
  · exact h.of_sameLocks hs hb
  · exact ha ▸ h.traverse ho hl
  · exact ha ▸ h.drop hr

theorem InStep.after (h : InStep n state) (actions : List RowsAction) :
    InStep n (state.after actions) := by
  induction actions generalizing state with
  | nil => exact h
  | cons action actions ih => exact ih (h.act action)

omit [Cursor κ] in
theorem inStep_unread {rows : List (Rows κ)} (h : ∀ r ∈ rows, r.locked = false) :
    InStep rows.length (unread rows) := by
  refine ⟨Nat.le_of_eq List.size_toArray.symm, fun id hid => ?_⟩
  have hl : (unread rows).store.isLocked id = false := by
    simp [unread, RowsStore.isLocked, RowsStore.get?, hid, h]
  rw [hl]
  rfl

/-- What fails changes no lock. -/
theorem sameLocks_of_failed {action : RowsAction} {error : RowsError}
    (h : (state.act action).1 = .failed error) :
    state.store.SameLocks (state.act action).2.store := by
  rcases state.act_cases action with ⟨hs, -⟩ | ⟨_, _, -, -, ha⟩ | ⟨_, _, -, ha⟩
  · exact hs
  · rw [ha] at h
    cases h
  · rw [ha] at h
    cases h

theorem act_traverse_locked_iff (rows : RowsId) :
    (state.act (.traverse rows)).1 = .failed .locked ↔ state.store.isLocked rows = true := by
  rw [← state.store.lock_eq_locked_iff, act]
  rcases state.store.lock rows with ⟨error | _, store⟩
  · simp
  · simp

end

/-- Rows that nobody has locked, to which anything is done by those who hold them. After that, and
so after each part of it, rows are locked just if exactly one traversal of them is alive, and there
are never more. A traversal is refused as a second one just if there is one, and whatever fails
next changes no lock. -/
theorem locks_follow_traversals (rows : List (Rows κ)) (hfree : ∀ r ∈ rows, r.locked = false)
    (actions : List RowsAction) :
    let state := (unread rows).after actions
    (∀ id < rows.length,
      (state.store.isLocked id = true ↔ state.alive id = 1) ∧ state.alive id ≤ 1 ∧
        ((state.act (.traverse id)).1 = .failed .locked ↔ 0 < state.alive id)) ∧
    ∀ action error, (state.act action).1 = .failed error → ∀ id,
      (state.act action).2.store.isLocked id = state.store.isLocked id := by
  intro state
  have h : InStep rows.length state := (inStep_unread hfree).after actions
  refine ⟨fun id hid => ⟨h.locked_iff hid, h.alive_le_one hid, ?_⟩, fun action error he => ?_⟩
  · have hle := h.alive_le_one hid
    rw [act_traverse_locked_iff, h.locked_iff hid]
    omega
  · exact (sameLocks_of_failed he).isLocked_eq

/-- A table, and live rows that can be rewound only once. -/
def stubbornRows : List (Rows (FaultyCursor TableCursor)) :=
  [⟨false, .table 1 #[[some "a"], [some "b"]] 0, some 2⟩,
    .live ⟨{ columns := 1, rows := #[[some "a"]] }, some ⟨.beforeFirst, 1, "gone"⟩⟩]

/-- The table is being traversed, and a comparison with it that has rewound the live rows was
refused. -/
def refusedComparison : List RowsAction := [.traverse 0, .next 0, .equal 1 0]

theorem locks_follow_traversals_stubborn :
    let state := (unread stubbornRows).after refusedComparison
    state.store.isLocked 0 = true ∧ (state.act (.traverse 0)).1 = .failed .locked ∧
      state.store.isLocked 1 = false ∧
      (state.act (.traverse 1)).1 = .failed (.cursor ⟨"gone"⟩) ∧
      (state.act (.traverse 1)).2.store.isLocked 1 = false := by
  intro state
  obtain ⟨hlocks, hfailed⟩ := locks_follow_traversals stubbornRows (by decide) refusedComparison
  obtain ⟨hlocked, -, hrefused⟩ := hlocks 0 (by decide)
  obtain ⟨hfree, -, -⟩ := hlocks 1 (by decide)
  have hone : state.alive 0 = 1 := by decide
  have hnone : ¬ state.alive 1 = 1 := by decide
  have hunlocked := Bool.eq_false_iff.2 (mt hfree.1 hnone)
  have hgone : (state.act (.traverse 1)).1 = .failed (.cursor ⟨"gone"⟩) := by rfl
  have hrefuses := hrefused.2 (Nat.lt_of_lt_of_eq Nat.one_pos hone.symm)
  refine ⟨hlocked.2 hone, hrefuses, hunlocked, hgone, ?_⟩
  exact (hfailed _ _ hgone 1).trans hunlocked

end Traversals

end ArchiveScript
