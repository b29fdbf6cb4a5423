import Mathlib
import ArchiveScript.Proofs.Script.BlockLikeness
import ArchiveScript.Proofs.Script.Phrases
import ArchiveScript.Script.Statement

/-! # Loops on a line

The loops on a line are bounded by what is left of it, and their bounds are never reached: each
round of a loop goes on at a later place or ends the loop. So what a loop does is determined by its
rounds alone.
-/

namespace ArchiveScript

section

variable {σ β : Type}

/-- A loop that ends. `round` is one of its rounds, given what comes of the rounds after it, and
`run` is what comes of all of them, which satisfies `leads`. A round goes on at later states only,
and no state has later ones for ever. -/
structure Loops (later : σ → σ → Prop) (leads : σ → β → Prop) (round : (σ → β) → σ → β)
    (run : σ → β) : Prop where
  again : ∀ state, run state = round run state
  led : ∀ state, leads state (run state)
  onward : ∀ {rest rest' : σ → β} {state : σ},
    (∀ next, later state next → rest next = rest' next ∧ leads next (rest next)) →
      round rest state = round rest' state
  ends : WellFounded fun next state => later state next

/-- Of a loop that is bounded by a number of rounds: the size of a state is a bound that suffices,
and larger ones make no difference. -/
structure Settles (later : σ → σ → Prop) (leads : σ → β → Prop) (round : (σ → β) → σ → β)
    (bounded : Nat → σ → β) (size : σ → Nat) : Prop
    extends Loops later leads round (fun state => bounded (size state) state) where
  enough : ∀ n state, size state ≤ n → bounded n state = bounded (size state) state

variable {later : σ → σ → Prop} {leads : σ → β → Prop} {round : (σ → β) → σ → β}

/-- What a loop does is determined by its rounds. -/
theorem Loops.unique {run other : σ → β} (h : Loops later leads round run)
    (ho : ∀ state, other state = round other state) : other = run := by
  funext state
  induction state using h.ends.induction with
  | _ state ih =>
    rw [ho, h.again]
    exact (h.onward fun next hl => ⟨(ih next hl).symm, h.led next⟩).symm

section

variable (bounded : Nat → σ → β) (size : σ → Nat)
  (hsize : ∀ {state next}, later state next → size next < size state)
  (honward : ∀ {rest rest' : σ → β} {state : σ},
    (∀ next, later state next → rest next = rest' next ∧ leads next (rest next)) →
      round rest state = round rest' state)
  (hleads : ∀ n state, size state ≤ n → leads state (bounded n state))
  (hzero : ∀ rest state, size state = 0 → bounded 0 state = round rest state)
  (hsucc : ∀ n state, bounded (n + 1) state = round (bounded n) state)

include hsize honward hleads hzero hsucc

theorem bounded_eq {n m : Nat} {state : σ} (hn : size state ≤ n) (hm : size state ≤ m) :
    bounded n state = bounded m state := by
  induction n generalizing m state with
  | zero =>
    cases m with
    | zero => rfl
    | succ m => rw [hsucc, hzero _ _ (Nat.le_zero.1 hn)]
  | succ n ih =>
    cases m with
    | zero => rw [hsucc, hzero _ _ (Nat.le_zero.1 hm)]
    | succ m =>
      rw [hsucc, hsucc]
      apply honward
      intro next hl
      have hnext : size next ≤ n := Nat.le_of_lt_succ (Nat.lt_of_lt_of_le (hsize hl) hn)
      have hnext' : size next ≤ m := Nat.le_of_lt_succ (Nat.lt_of_lt_of_le (hsize hl) hm)
      exact ⟨ih hnext hnext', hleads n next hnext⟩

theorem Settles.of_bounded : Settles later leads round bounded size where
  again state := by
    have hmore := bounded_eq bounded size hsize honward hleads hzero hsucc
      (Nat.le_refl (size state)) (Nat.le_succ (size state))
    rw [hmore, hsucc]
    apply honward
    intro next hl
    have hnext : size next ≤ size state := Nat.le_of_lt (hsize hl)
    refine ⟨?_, hleads _ next hnext⟩
    exact bounded_eq bounded size hsize honward hleads hzero hsucc hnext (Nat.le_refl _)
  led state := hleads _ state (Nat.le_refl _)
  onward := honward
  ends := Subrelation.wf hsize (measure size).wf
  enough _ _ hn := bounded_eq bounded size hsize honward hleads hzero hsucc hn (Nat.le_refl _)

end

end

namespace Scan

variable {s after : Scan} {text : List Char}

def Passes (s after : Scan) : Prop := s.Advances after ∧ s.pos < after.pos

theorem Reads.passes (h : s.Reads text after) (ht : text ≠ []) : s.Passes after := by
  refine ⟨h.advances, ?_⟩
  have hlength := Text.length_le_bytes text
  have hpos := List.length_pos_iff.2 ht
  have hafter := h.pos
  omega

theorem Passes.trans {last : Scan} (h : s.Passes after) (h' : after.Advances last) :
    s.Passes last :=
  ⟨h.1.trans h', Nat.lt_of_lt_of_le h.2 h'.pos_le⟩

theorem Advances.passes {last : Scan} (h : s.Advances after) (h' : after.Passes last) :
    s.Passes last :=
  ⟨h.trans h'.1, Nat.lt_of_le_of_lt h.pos_le h'.2⟩

theorem Passes.length_lt (h : s.Passes after) : after.rest.length < s.rest.length := by
  obtain ⟨⟨text, hread⟩, hlt⟩ := h
  have hpos := hread.pos
  cases text with
  | nil =>
    rw [Text.bytes_nil] at hpos
    omega
  | cons c text =>
    rw [hread.length_eq, List.length_cons]
    omega

theorem skip_passes (h : s.rest ≠ []) (n : Nat) : s.Passes (s.skip (n + 1)) := by
  refine (skip_reads (n + 1) s).passes ?_
  cases hr : s.rest with
  | nil => exact absurd hr h
  | cons c rest => simp

theorem eat?_passes {sign : List Char} (h : s.eat? sign = some after) (hs : sign ≠ []) :
    s.Passes after :=
  (eat?_reads h).passes hs

def skipRound (p : Char → Bool) (rest : Scan → Scan) (s : Scan) : Scan :=
  match s.rest with
  | c :: _ => if p c then rest (s.skip 1) else s
  | [] => s

theorem skipWhile_loops (p : Char → Bool) :
    Loops Passes (fun s after => s.Advances after) (skipRound p) (skipWhile p) where
  again s := by
    obtain ⟨pos, rest⟩ := s
    cases rest with
    | nil => simp [skipRound, skipWhile]
    | cons c rest =>
      by_cases hc : p c = true
      · simp [skipRound, skipWhile, skip, hc, Nat.add_assoc]
      · simp [skipRound, skipWhile, hc]
  led s := (skipWhile_reads p s).advances
  onward {rest rest' s} h := by
    unfold skipRound
    split
    · rename_i c cs hs
      split
      · exact (h _ (skip_passes (by simp [hs]) 0)).1
      · rfl
    · rfl
  ends := Subrelation.wf (fun h => h.length_lt) (measure fun s : Scan => s.rest.length).wf

end Scan

/-- Of two readings that go on differently, only what they go on with after a success counts. -/
theorem Finds.bind_congr {α β : Type} {P : α → Prop} {outcome : Except Mistake α}
    {f f' : α → Except Mistake β} (ho : Finds P outcome) (hf : ∀ a, P a → f a = f' a) :
    (outcome >>= f) = (outcome >>= f') := by
  cases outcome with
  | error mistake => rfl
  | ok a => exact hf a (ho a rfl)

namespace Expression

open Scan

variable {s : Scan} {inner inner' : Scan → Except Mistake (Node × Scan)}

abbrev LeadsOn (s : Scan) (outcome : Except Mistake (Node × Scan)) : Prop :=
  Finds (fun found => s.Advances found.2) outcome

theorem escape_passes (h : s.rest ≠ []) : Finds (fun found => s.Passes found.2) (escape s) := by
  unfold escape
  split
  · dsimp only
    split
    · exact .error _
    · rename_i digits hd
      split
      · rename_i last hl
        rw [Option.ite_none_left_eq_some] at hl
        have hclose := (skipWhile_reads isHexDigit digits).advances.trans (eat?_reads hl.2).advances
        exact .ok ((skip_passes h 1).trans ((eat?_reads hd).advances.trans hclose))
      · exact .error _
  · split
    · exact .ok (skip_passes h 1)
    · exact .error _
  · exact .error _

theorem interpolation_passes (h : s.rest ≠ []) (kind : Kind) (opener : Nat)
    (hi : LeadsOn (s.skip (opener + 1)) (inner (s.skip (opener + 1)))) :
    Finds (fun found => s.Passes found.2) (interpolation inner kind (opener + 1) s) := by
  refine hi.bind fun ⟨value, rest⟩ hv => ?_
  dsimp only
  split
  · rename_i last hl
    have hclose := (skipBlanks_advances rest).trans (eat?_reads hl).advances
    exact .ok ((skip_passes h opener).trans (hv.trans hclose))
  · exact .error _

def stringRound (inner : Scan → Except Mistake (Node × Scan)) (opened : Nat)
    (rest : Scan → Except Mistake (List Child × Scan)) (s : Scan) :
    Except Mistake (List Child × Scan) :=
  match s.rest with
  | [] => Builder.fail .unterminatedString (.between opened s.limit)
  | '"' :: _ => .ok ([], s.skip 1)
  | '\\' :: _ => do
    let (piece, s) ← escape s
    let (pieces, s) ← rest s
    .ok ((none, piece) :: pieces, s)
  | '$' :: '{' :: _ => do
    let (piece, s) ← interpolation inner .interpolation 2 s
    let (pieces, s) ← rest s
    .ok ((none, piece) :: pieces, s)
  | _ => do
    let run := stringRun s.rest
    let (pieces, after) ← rest (s.skip run.length)
    .ok ((none, .leaf .stringContent s.pos run) :: pieces, after)

theorem stringRound_congr {opened : Nat} {rest rest' : Scan → Except Mistake (List Child × Scan)}
    (hi : ∀ t, s.Passes t → inner t = inner' t ∧ LeadsOn t (inner t))
    (hr : ∀ t, s.Passes t → rest t = rest' t) :
    stringRound inner opened rest s = stringRound inner' opened rest' s := by
  unfold stringRound
  split
  · rfl
  · rfl
  · rename_i hs
    refine (escape_passes (by simp [hs])).bind_congr fun ⟨piece, after⟩ hp => ?_
    dsimp only
    rw [hr after hp]
  · rename_i hs
    have hne : s.rest ≠ [] := by simp [hs]
    obtain ⟨he, hl⟩ := hi _ (skip_passes hne 1)
    have hsame : interpolation inner .interpolation 2 s =
        interpolation inner' .interpolation 2 s := by
      unfold interpolation
      rw [he]
    rw [← hsame]
    refine (interpolation_passes hne _ 1 hl).bind_congr fun ⟨piece, after⟩ hp => ?_
    dsimp only
    rw [hr after hp]
  · rename_i hnil hquote hslash hopen
    have hrun : stringRun s.rest ≠ [] := by
      unfold stringRun
      split
      · rename_i hs
        exact absurd hs (hquote _)
      · rename_i hs
        exact absurd hs (hslash _)
      · rename_i hs
        exact absurd hs (hopen _)
      · exact List.cons_ne_nil _ _
      · rename_i hs
        exact absurd hs hnil
    dsimp only
    rw [hr _ ((prefix_reads (stringRun_begins s.rest)).passes hrun)]

theorem stringPieces_settles (hi : ∀ t, LeadsOn t (inner t)) (opened : Nat) :
    Settles Passes (fun _ _ => True) (stringRound inner opened) (stringPieces inner opened)
      fun s => s.rest.length := by
  apply Settles.of_bounded
  case hsize => exact fun h => h.length_lt
  case honward => exact fun h => stringRound_congr (fun t _ => ⟨rfl, hi t⟩) fun t ht => (h t ht).1
  case hleads => exact fun _ _ _ => trivial
  case hzero =>
    intro rest s hs
    rw [List.length_eq_zero_iff] at hs
    simp [stringPieces, stringRound, hs]
  case hsucc => exact fun _ _ => rfl

theorem stringPieces_congr {first : Scan} (hf : first.Passes s)
    (hi : ∀ t, first.Passes t → inner t = inner' t ∧ LeadsOn t (inner t)) (opened n : Nat) :
    stringPieces inner opened n s = stringPieces inner' opened n s := by
  induction n generalizing s with
  | zero => rfl
  | succ n ih =>
    exact stringRound_congr (fun t ht => hi t (hf.1.passes ht)) fun t ht => ih (hf.1.passes ht)

theorem basicWithin_leadsOn (depth : Nat) (s : Scan) : LeadsOn s (basicWithin depth s) :=
  (basicWithin_brings depth s).finds.mono fun _ h => h.advances

/-- An expression depends on the expressions at later places only. -/
theorem basicWith_congr (hi : ∀ t, s.Passes t → inner t = inner' t ∧ LeadsOn t (inner t)) :
    basicWith inner s = basicWith inner' s := by
  have hblanks := skipBlanks_advances s
  have hprimary : primary inner s.skipBlanks = primary inner' s.skipBlanks := by
    unfold primary
    split
    · rename_i hs
      have hopen := skip_passes (s := s.skipBlanks) (by simp [hs]) 0
      unfold string
      rw [stringPieces_congr (hblanks.passes hopen) hi]
    · rfl
    · rfl
  unfold basicWith
  dsimp only
  rw [hprimary]

/-- Expressions stand inside of expressions, each later than the one around it. -/
theorem basicWithin_settles :
    Settles Passes LeadsOn basicWith basicWithin fun s => s.rest.length := by
  apply Settles.of_bounded
  case hsize => exact fun h => h.length_lt
  case honward => exact fun h => basicWith_congr h
  case hleads => exact fun depth s _ => basicWithin_leadsOn depth s
  case hzero =>
    intro rest s hs
    rw [List.length_eq_zero_iff] at hs
    simp [basicWithin, basicWith, primary, skipBlanks, skipWhile, hs]
    rfl
  case hsucc => exact fun _ _ => rfl

def operationsRound (start : Nat) (rest : Node × Scan → Except Mistake (Node × Scan))
    (state : Node × Scan) : Except Mistake (Node × Scan) :=
  match state.2.rest with
  | '.' :: _ =>
    let atName := state.2.skip 1
    match atName.name? with
    | some (name, after) =>
      let right := .leaf .identifier atName.pos name
      let both := [(some .left, state.1), (some .right, right)]
      rest (.spanning .dotExpression start after.pos both, after)
    | none => .ok state
  | _ => .ok state

theorem operations_settles (start : Nat) :
    Settles (fun state next : Node × Scan => state.2.Passes next.2) (fun _ _ => True)
      (operationsRound start) (fun n state => operations start n state.1 state.2)
      fun state => state.2.rest.length := by
  apply Settles.of_bounded
  case hsize => exact fun h => h.length_lt
  case honward =>
    intro rest rest' state h
    unfold operationsRound
    split
    · rename_i hs
      dsimp only
      split
      · rename_i name after hn
        have hpoint := skip_passes (s := state.2) (by simp [hs]) 0
        exact (h _ (hpoint.trans (nameOf?_reads hn).advances)).1
      · rfl
    · rfl
  case hleads => exact fun _ _ _ => trivial
  case hzero =>
    intro rest state hs
    rw [List.length_eq_zero_iff] at hs
    simp only [operations, operationsRound, hs]
    rfl
  case hsucc => exact fun _ _ => rfl

end Expression

namespace Verbatim

open Expression Scan

def lineRound (ending : List Char) (rest : Scan → Except Mistake (List Child)) (s : Scan) :
    Except Mistake (List Child) :=
  let run := literalRun s.rest
  let opening := s.skip run.length
  match opening.rest with
  | [] => literal s.pos (run ++ ending)
  | '$' :: '$' :: _ => do
    let before ← literal s.pos run
    let (piece, after) ← interpolation basic .safeInterpolation 3 opening
    let pieces ← rest after
    return before ++ (none, piece) :: pieces
  | _ => do
    let before ← literal s.pos run
    let (piece, after) ← interpolation basic .interpolation 2 opening
    let pieces ← rest after
    return before ++ (none, piece) :: pieces

theorem linePieces_settles (ending : List Char) :
    Settles Passes (fun _ _ => True) (lineRound ending) (linePieces ending)
      fun s => s.rest.length := by
  apply Settles.of_bounded
  case hsize => exact fun h => h.length_lt
  case honward =>
    intro rest rest' s h
    have hskip := skip_advances (literalRun s.rest).length s
    unfold lineRound
    dsimp only
    generalize s.skip (literalRun s.rest).length = opening at hskip ⊢
    have hpiece (kind : Kind) (opener : Nat) (ho : opening.rest ≠ []) :
        (do
          let before ← literal s.pos (literalRun s.rest)
          let (piece, after) ← interpolation basic kind (opener + 1) opening
          let pieces ← rest after
          return before ++ (none, piece) :: pieces : Except Mistake (List Child)) = (do
          let before ← literal s.pos (literalRun s.rest)
          let (piece, after) ← interpolation basic kind (opener + 1) opening
          let pieces ← rest' after
          return before ++ (none, piece) :: pieces) := by
      refine Finds.bind_congr (P := fun _ => True) (fun _ _ => trivial) fun before _ => ?_
      have hled := basicWithin_leadsOn ((opening.skip (opener + 1)).rest.length + 1)
        (opening.skip (opener + 1))
      refine (interpolation_passes ho kind opener hled).bind_congr fun ⟨piece, after⟩ hp => ?_
      dsimp only
      rw [(h after (hskip.passes hp)).1]
    split
    · rfl
    · rename_i ho
      exact hpiece _ 2 (by simp [ho])
    · rename_i ho _
      exact hpiece _ 1 ho
  case hleads => exact fun _ _ _ => trivial
  case hzero =>
    intro rest s hs
    rw [List.length_eq_zero_iff] at hs
    simp [linePieces, lineRound, literalRun, skip, hs]
  case hsucc => exact fun _ _ => rfl

end Verbatim

namespace Statement

open Scan

def variablesRound (rest : Scan → Except Mistake (List Child × Scan)) (s : Scan) :
    Except Mistake (List Child × Scan) :=
  let s := s.skipBlanks
  match s.eat? [','] with
  | none => .ok ([], s)
  | some after => do
    let (name, after) ← after.identifier "a loop variable"
    let (names, after) ← rest after
    return ((none, name) :: names, after)

theorem moreVariables_settles :
    Settles Passes (fun _ _ => True) variablesRound moreVariables fun s => s.rest.length := by
  apply Settles.of_bounded
  case hsize => exact fun h => h.length_lt
  case honward =>
    intro rest rest' s h
    unfold variablesRound
    dsimp only
    split
    · rfl
    · rename_i after ha
      have hcomma := (skipBlanks_advances s).passes (eat?_passes ha (by simp))
      refine (identifier_brings _ after).finds.bind_congr fun ⟨name, last⟩ hn => ?_
      dsimp only
      rw [(h last (hcomma.trans hn.advances)).1]
  case hleads => exact fun _ _ _ => trivial
  case hzero =>
    intro rest s hs
    rw [List.length_eq_zero_iff] at hs
    simp [moreVariables, variablesRound, skipBlanks, skipWhile, eat?, hs]
    rfl
  case hsucc => exact fun _ _ => rfl

end Statement

end ArchiveScript
