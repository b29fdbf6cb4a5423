import ArchiveScript.Proofs.Rows.Embedding

/-! # Traversals under way

While rows over a table are being traversed, what is still to come of them changes only when the
next row is asked for. To count them leads back to where the traversal was, they cannot be compared
with others or be traversed once more, and whatever is done with other rows of the store leaves them
alone.
-/

namespace ArchiveScript

/-- Rows that hold `content` are being traversed, and `rest` is still to come. -/
structure RowsView.Underway (view : RowsView) (content rest : List Row) : Prop where
  locked : view.locked = true
  content : view.content = content
  rest : view.rest = rest
  past : view.past = false

namespace RowsView.Underway

variable {view : RowsView} {row : Row} {content rest : List Row}

theorem begin (h : view.locked = false) :
    view.tryLock.1 = true ∧ view.tryLock.2.Underway view.content view.content := by
  rw [tryLock, h]
  exact ⟨rfl, rfl, rfl, rfl, rfl⟩

theorem tryLock (h : view.Underway content rest) : view.tryLock = (false, view) := by
  rw [RowsView.tryLock, h.locked]
  rfl

theorem next (h : view.Underway content (row :: rest)) :
    view.next.1 = some row ∧ view.next.2.Underway content rest := by
  rw [RowsView.next, h.rest]
  exact ⟨rfl, h.locked, h.content, rfl, Bool.and_false _⟩

theorem next_end (h : view.Underway content []) : view.next.1 = none := by
  rw [RowsView.next, h.rest]
  rfl

theorem measure (h : view.Underway content rest) : view.measure.2.Underway content rest := by
  unfold RowsView.measure
  split
  · exact h
  · rw [h.past]
    exact ⟨h.locked, h.content, h.rest, rfl⟩

end RowsView.Underway

namespace RowsStore

section

variable {κ α : Type} {store : RowsStore κ} {id other : RowsId} {rows found : Rows κ}

theorem get?_set_self (h : store.get? id = some found) : (store.set id rows).get? id = some rows :=
  Array.getElem?_setIfInBounds_self_of_lt (lt_size_of_get? h)

theorem get?_set_ne (h : other ≠ id) : (store.set other rows).get? id = store.get? id :=
  Array.getElem?_setIfInBounds_ne h

theorem get?_add (h : store.get? id = some found) : (store.add rows).2.get? id = some found := by
  have hs : id ≠ store.all.size := Nat.ne_of_lt (lt_size_of_get? h)
  rw [← h]
  simp [RowsStore.add, get?, Array.getElem?_push, hs]

variable {default : α} {operation : Rows κ → Except HostError α × Rows κ}

theorem get?_onRows_ne (h : other ≠ id) :
    (store.onRows other default operation).2.get? id = store.get? id := by
  unfold onRows
  cases store.get? other with
  | none => rfl
  | some rows => exact get?_set_ne h

theorem get?_free_ne (h : other ≠ id) : (store.free other).get? id = store.get? id := by
  unfold free
  cases store.get? other with
  | none => rfl
  | some rows => exact get?_set_ne h

theorem get?_lock_ne [Cursor κ] (h : other ≠ id) :
    (store.lock other).2.get? id = store.get? id := by
  rw [← @get?_onRows_ne _ _ store id other true Rows.tryLock h, lock]
  rcases store.onRows other true Rows.tryLock with ⟨_ | _ | _, _⟩ <;> rfl

end

variable {κ : Type} {embed : TableCursor → κ} {store after : RowsStore κ} {id other : RowsId}
  {content rest : List Row} {row : Row}

/-- What an operation on rows over a table answers and leaves to be seen does not depend on the
cursors among which they are. -/
theorem onRows_map {α : Type} {default a : α} {rows : Rows TableCursor} {view : RowsView}
    {operation : Rows κ → Except HostError α × Rows κ}
    {plain : Rows TableCursor → Except HostError α × Rows TableCursor}
    (hg : store.get? id = some (rows.map embed))
    (ho : operation (rows.map embed) = ((plain rows).1, (plain rows).2.map embed))
    (hs : Rows.seen (plain rows) = (.ok a, view)) :
    ∃ (rows' : Rows TableCursor) (after : RowsStore κ),
      store.onRows id default operation = (.ok a, after) ∧
      after.get? id = some (rows'.map embed) ∧ rows'.view = view := by
  rw [Rows.seen, Prod.mk.injEq] at hs
  refine ⟨(plain rows).2, store.set id ((plain rows).2.map embed), ?_, get?_set_self hg, hs.2⟩
  rw [onRows, hg]
  dsimp only
  rw [ho, hs.1]
  rfl

def Underway (embed : TableCursor → κ) (id : RowsId) (content rest : List Row)
    (store : RowsStore κ) : Prop :=
  ∃ rows : Rows TableCursor, store.get? id = some (rows.map embed) ∧ rows.view.Underway content rest

namespace Underway

theorem of_get? (h : store.Underway embed id content rest) (hg : after.get? id = store.get? id) :
    after.Underway embed id content rest := by
  obtain ⟨rows, hr, hu⟩ := h
  exact ⟨rows, hg.trans hr, hu⟩

theorem add (h : store.Underway embed id content rest) (rows : Rows κ) :
    (store.add rows).2.Underway embed id content rest := by
  obtain ⟨found, hr, hu⟩ := h
  exact ⟨found, get?_add hr, hu⟩

theorem free_ne (h : store.Underway embed id content rest) (hne : other ≠ id) :
    (store.free other).Underway embed id content rest := h.of_get? (get?_free_ne hne)

variable [Cursor κ] (he : Embeds embed)

theorem lock_ne (h : store.Underway embed id content rest) (hne : other ≠ id) :
    (store.lock other).2.Underway embed id content rest := h.of_get? (get?_lock_ne hne)

theorem next_ne (h : store.Underway embed id content rest) (hne : other ≠ id) :
    (store.next other).2.Underway embed id content rest := h.of_get? (get?_onRows_ne hne)

include he

theorem lock {rows : Rows TableCursor} (hg : store.get? id = some (rows.map embed))
    (hl : rows.locked = false) :
    ∃ after, store.lock id = (.ok (), after) ∧
      after.Underway embed id rows.view.content rows.view.content := by
  obtain ⟨hb, hu⟩ := RowsView.Underway.begin (rows.locked_view.trans hl)
  have hs := rows.seen_tryLock
  rw [hb] at hs
  obtain ⟨rows', after, ho, hg', hv⟩ := onRows_map hg (rows.map_tryLock he) hs
  refine ⟨after, ?_, rows', hg', hv ▸ hu⟩
  rw [RowsStore.lock, ho]

theorem lock_self (h : store.Underway embed id content rest) :
    ∃ after, store.lock id = (.error .locked, after) ∧
      after.Underway embed id content rest := by
  obtain ⟨rows, hg, hu⟩ := h
  have hs := rows.seen_tryLock
  rw [hu.tryLock] at hs
  obtain ⟨rows', after, ho, hg', hv⟩ := onRows_map hg (rows.map_tryLock he) hs
  refine ⟨after, ?_, rows', hg', hv ▸ hu⟩
  rw [RowsStore.lock, ho]

theorem next (h : store.Underway embed id content (row :: rest)) :
    ∃ after, store.next id = (.ok (some row), after) ∧
      after.Underway embed id content rest := by
  obtain ⟨rows, hg, hu⟩ := h
  obtain ⟨hn, hu'⟩ := hu.next
  have hs := rows.seen_next
  rw [hn] at hs
  obtain ⟨rows', after, ho, hg', hv⟩ := onRows_map hg (rows.map_next he) hs
  exact ⟨after, ho, rows', hg', hv ▸ hu'⟩

theorem next_end (h : store.Underway embed id content []) :
    ∃ after, store.next id = (.ok none, after) := by
  obtain ⟨rows, hg, hu⟩ := h
  have hs := rows.seen_next
  rw [hu.next_end] at hs
  obtain ⟨_, after, ho, -⟩ := onRows_map hg (rows.map_next he) hs
  exact ⟨after, ho⟩

theorem size (h : store.Underway embed id content rest) (other : RowsId) :
    (store.size other).2.Underway embed id content rest := by
  by_cases hne : other = id
  · subst hne
    obtain ⟨rows, hg, hu⟩ := h
    obtain ⟨rows', after, ho, hg', hv⟩ := onRows_map hg (rows.map_measure he) rows.seen_measure
    rw [RowsStore.size, ho]
    exact ⟨rows', hg', hv ▸ hu.measure⟩
  · exact h.of_get? (get?_onRows_ne hne)

theorem equal (h : store.Underway embed id content rest) (left right : RowsId) :
    (RowsStore.equal left right store).2.Underway embed id content rest := by
  unfold RowsStore.equal
  split
  · exact h
  by_cases hl : left = id
  · subst hl
    obtain ⟨after, ho, hu⟩ := h.lock_self he
    rw [ho]
    exact hu
  have hu := h.lock_ne hl
  generalize store.lock left = passed at hu ⊢
  rcases passed with ⟨_ | _, between⟩
  · exact hu
  dsimp only at hu ⊢
  by_cases hr : right = id
  · subst hr
    obtain ⟨after, ho, hu'⟩ := hu.lock_self he
    rw [ho]
    exact hu'.free_ne hl
  have hu' := hu.lock_ne hr
  generalize between.lock right = passed at hu' ⊢
  rcases passed with ⟨_ | _, begun⟩
  · exact hu'.free_ne hl
  · have hc := compareRest_keeps (T := fun before after : RowsStore κ =>
        before.Underway embed id content rest → after.Underway embed id content rest)
      (fun _ hw => hw) (fun hb ha hw => ha (hb hw)) (fun _ hw => hw.next_ne hl)
      (fun _ hw => hw.next_ne hr) (begun.roundLimit left) begun hu'
    exact (hc.free_ne hr).free_ne hl

/-- There are enough rounds for all rows and to find their end. -/
theorem length_lt_roundLimit (h : store.Underway embed id content rest) :
    content.length < store.roundLimit id := by
  obtain ⟨rows, hg, hu⟩ := h
  have hr := rows.length_le_rowLimit he
  rw [hu.content] at hr
  rw [roundLimit, hg]
  exact Nat.lt_succ_of_le hr

end Underway

end RowsStore

end ArchiveScript
