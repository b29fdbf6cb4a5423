import ArchiveScript.Source.LineTable

/-! # The search for a line

The offsets at which lines begin ascend, as long as they fit spans. So the search tells how many of
them an offset has reached, and this is the number of its line. The line itself is what the text has
between its beginning and the next one.
-/

namespace ArchiveScript.LineTable

open Text

variable {starts : Array Nat} {offset : Nat}

/-- An offset has reached just the first `count` of the given ones. -/
structure Reached (starts : Array Nat) (offset count : Nat) : Prop where
  count_le : count ≤ starts.size
  le_iff : ∀ i (h : i < starts.size), starts[i] ≤ offset ↔ i < count

def Located (starts : Array Nat) (offset : Nat) : Except Nat Nat → Prop
  | .ok index => Reached starts offset (index + 1)
  | .error index => Reached starts offset index

theorem lt_of_pairwise (h : starts.toList.Pairwise (· < ·)) {i j : Nat} (hij : i < j)
    (hj : j < starts.size) : starts[i] < starts[j] :=
  List.pairwise_iff_getElem.1 h i j (Nat.lt_trans hij hj) hj hij

/-- The offsets before the window of the search are smaller, and those behind it are larger. -/
theorem located_search (h : starts.toList.Pairwise (· < ·)) {low high : Nat}
    (hhigh : high ≤ starts.size) (hle : low ≤ high)
    (hbefore : ∀ i (hi : i < low), starts[i] < offset)
    (hbehind : ∀ i, high ≤ i → ∀ hi : i < starts.size, offset < starts[i]) :
    Located starts offset (search starts offset low high hhigh) := by
  fun_induction search starts offset low high hhigh with
  | case1 low high hhigh hlt middle hmiddle heq =>
    refine ⟨hmiddle, fun i hi => ?_⟩
    rw [← heq]
    rcases Nat.lt_trichotomy i middle with hlt | rfl | hgt
    · have := lt_of_pairwise h hlt hmiddle
      omega
    · omega
    · have := lt_of_pairwise h hgt hi
      omega
  | case2 low high hhigh hlt middle hmiddle hne hless ih =>
    have hm : middle = low + (high - low) / 2 := rfl
    refine ih (by omega) (fun i hi => ?_) hbehind
    rcases Nat.lt_or_eq_of_le (Nat.le_of_lt_succ hi) with hi | rfl
    · exact Nat.lt_trans (lt_of_pairwise h hi hmiddle) hless
    · exact hless
  | case3 low high hhigh hlt middle hmiddle hne hnot ih =>
    have hm : middle = low + (high - low) / 2 := rfl
    have hmore : offset < starts[middle] := by omega
    refine ih (by omega) hbefore fun i hi hsize => ?_
    rcases Nat.lt_or_eq_of_le hi with hi | rfl
    · exact Nat.lt_trans hmore (lt_of_pairwise h hi hsize)
    · exact hmore
  | case4 low high hhigh hlt =>
    obtain rfl : low = high := by omega
    refine ⟨hhigh, fun i hi => ⟨fun hi' => ?_, fun hi' => Nat.le_of_lt (hbefore i hi')⟩⟩
    exact Nat.lt_of_not_le fun hge => Nat.not_le_of_lt (hbehind i hge hi) hi'

theorem Reached.countP_eq {count : Nat} (h : Reached starts offset count) :
    starts.countP (· ≤ offset) = count := by
  have hsize : starts.toList.length = starts.size := rfl
  have hcount := h.count_le
  have hlength : (starts.toList.take count).length = count := by
    rw [List.length_take]
    exact Nat.min_eq_left hcount
  have hall : ∀ start ∈ starts.toList.take count, decide (start ≤ offset) = true := by
    intro start hs
    obtain ⟨i, hi, rfl⟩ := List.mem_take_iff_getElem.1 hs
    rw [Nat.lt_min] at hi
    exact decide_eq_true ((h.le_iff i hi.2).2 hi.1)
  have hnone : ∀ start ∈ starts.toList.drop count, ¬ decide (start ≤ offset) = true := by
    intro start hs
    obtain ⟨i, hi, rfl⟩ := List.mem_drop_iff_getElem.1 hs
    rw [decide_eq_true_eq]
    exact mt (h.le_iff (count + i) (by omega)).1 (by omega)
  rw [← Array.countP_toList, ← List.take_append_drop count starts.toList, List.countP_append,
    List.countP_eq_length.2 hall, List.countP_eq_zero.2 hnone, hlength, Nat.add_zero]

theorem numberAt_eq {index : Nat} (h : index < Span.maxOffset) : numberAt index = index + 1 := by
  rw [numberAt, if_pos (Nat.le_of_lt h), Nat.mod_eq_of_lt (Nat.succ_lt_succ h)]

/-- An offset is on the last of the lines that it has reached. -/
theorem lineOf_eq_countP {table : LineTable} (h : table.starts.toList.Pairwise (· < ·))
    (offset : Nat) :
    table.lineOf offset = numberAt (table.starts.countP (· ≤ offset) - 1) := by
  have hl : Located table.starts offset
      (search table.starts offset 0 table.starts.size (Nat.le_refl _)) :=
    located_search h _ (Nat.zero_le _) nofun fun i hi hsize => absurd hsize (Nat.not_lt.2 hi)
  rw [lineOf]
  generalize search table.starts offset 0 table.starts.size (Nat.le_refl _) = found at hl
  cases found with
  | ok index => rw [Reached.countP_eq hl, Nat.add_sub_cancel]
  | error index => rw [Reached.countP_eq hl]

theorem startsFrom_ascend {begin : Nat} {text : List Char}
    (h : begin + bytes text ≤ Span.maxOffset) :
    (startsFrom begin text).Pairwise (· < ·) ∧ ∀ start ∈ startsFrom begin text, begin < start := by
  induction text generalizing begin with
  | nil => exact ⟨.nil, nofun⟩
  | cons c text ih =>
    have hpos := c.utf8Size_pos
    rw [bytes_cons, ← Nat.add_assoc] at h
    obtain ⟨hrest, hmore⟩ := ih h
    have hmin : min (begin + c.utf8Size) Span.maxOffset = begin + c.utf8Size :=
      Nat.min_eq_left (by omega)
    rw [startsFrom]
    split
    · rw [hmin]
      refine ⟨hrest.cons hmore, List.forall_mem_cons.2 ⟨by omega, fun start hs => ?_⟩⟩
      have := hmore start hs
      omega
    · refine ⟨hrest, fun start hs => ?_⟩
      have := hmore start hs
      omega

theorem lineOf_ofText_eq_countP {source : List Char} (h : bytes source ≤ Span.maxOffset)
    (offset : Nat) :
    (ofText source).lineOf offset = numberAt ((ofText source).starts.countP (· ≤ offset) - 1) := by
  have hsize : 0 + bytes source ≤ Span.maxOffset := by rwa [Nat.zero_add]
  obtain ⟨hrest, hmore⟩ := startsFrom_ascend hsize
  have hstarts : (ofText source).starts.toList.Pairwise (· < ·) := hrest.cons hmore
  exact lineOf_eq_countP hstarts offset

/-- The lines of a text. `begun` holds, in reverse, what the current line has so far. -/
def textsFrom (begun : List Char) : List Char → List (List Char)
  | [] => [begun.reverse]
  | c :: cs =>
    if c = '\n' then (c :: begun).reverse :: textsFrom [] cs else textsFrom (c :: begun) cs

def pieceAt (source : List Char) (starts : List Nat) (index : Nat) : Option (List Char) :=
  starts[index]?.bind fun start =>
    (dropBytes start source).bind (takeBytes (starts[index + 1]?.getD (bytes source) - start))

theorem pieceAt_first (before piece after : List Char) {starts : List Nat}
    (h : starts[0]?.getD (bytes (before ++ (piece ++ after))) = bytes before + bytes piece) :
    pieceAt (before ++ (piece ++ after)) (bytes before :: starts) 0 = some piece := by
  rw [pieceAt, List.getElem?_cons_zero, List.getElem?_cons_succ, h, Option.bind_some,
    dropBytes_append, Option.bind_some, Nat.add_sub_cancel_left, takeBytes_append]

theorem pieceAt_startsFrom (before begun rest : List Char)
    (h : bytes (before ++ (begun.reverse ++ rest)) ≤ Span.maxOffset) (index : Nat) :
    pieceAt (before ++ (begun.reverse ++ rest))
      (bytes before :: startsFrom (bytes before + bytes begun.reverse) rest) index =
        (textsFrom begun rest)[index]? := by
  induction rest generalizing before begun index with
  | nil =>
    cases index with
    | zero =>
      refine pieceAt_first before begun.reverse [] ?_
      rw [List.append_nil, bytes_append]
      rfl
    | succ index => rfl
  | cons c rest ih =>
    rw [startsFrom, textsFrom]
    by_cases hc : c = '\n'
    · subst hc
      have hline : bytes before + bytes begun.reverse + '\n'.utf8Size =
          bytes (before ++ (begun.reverse ++ ['\n'])) := by
        rw [bytes_append, bytes_append, Nat.add_assoc]
        rfl
      have hsource : before ++ (begun.reverse ++ '\n' :: rest) =
          (before ++ (begun.reverse ++ ['\n'])) ++ ([].reverse ++ rest) := by simp
      rw [hsource] at h ⊢
      have hmin : min (bytes (before ++ (begun.reverse ++ ['\n']))) Span.maxOffset =
          bytes (before ++ (begun.reverse ++ ['\n'])) := by
        refine Nat.min_eq_left (Nat.le_trans ?_ h)
        rw [bytes_append (before ++ _)]
        exact Nat.le_add_right ..
      rw [if_pos rfl, if_pos rfl, hline]
      rw [hmin, List.reverse_cons]
      cases index with
      | zero =>
        rw [List.append_assoc]
        refine pieceAt_first before (begun.reverse ++ ['\n']) _ ?_
        rw [← bytes_append]
        rfl
      | succ index => exact ih _ [] h index
    · have hsource : before ++ (begun.reverse ++ c :: rest) =
          before ++ ((c :: begun).reverse ++ rest) := by simp
      have hline : bytes before + bytes begun.reverse + c.utf8Size =
          bytes before + bytes (c :: begun).reverse := by
        rw [List.reverse_cons, bytes_append, ← Nat.add_assoc]
        rfl
      rw [hsource] at h ⊢
      rw [if_neg hc, if_neg hc, hline]
      exact ih before (c :: begun) h index

def bare (line : List Char) : List Char :=
  let text := if line.getLast? = some '\n' then line.dropLast else line
  if text.getLast? = some '\r' then text.dropLast else text

theorem lineText?_succ {source : List Char} (h : bytes source ≤ Span.maxOffset) (index : Nat) :
    (ofText source).lineText? (index + 1) = (textsFrom [] source)[index]?.map bare := by
  have hpiece := pieceAt_startsFrom [] [] source h index
  have hstarts (n : Nat) : (ofText source).starts[n]? = (0 :: startsFrom 0 source)[n]? :=
    List.getElem?_toArray
  rw [← hpiece, pieceAt, Option.map_bind]
  change ((ofText source).starts[index]?.bind fun start => ((dropBytes start source).bind
    (takeBytes ((ofText source).starts[index + 1]?.getD (bytes source) - start))).bind
      fun text => some (bare text)) = _
  rw [hstarts, hstarts]
  congr 1
  funext start
  exact Option.map_eq_bind.symm

end ArchiveScript.LineTable
