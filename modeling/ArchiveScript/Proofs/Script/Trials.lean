import Mathlib
import ArchiveScript.Proofs.Script.TracedItems

/-! # Trials of lines

A block tries its lines as items, one after the other, and its items try those of the blocks inside
them. After an item that cannot be read the block goes on at a line that the item may have passed.
Nevertheless, no line is tried twice.
-/

namespace ArchiveScript

open Reader

def Line.trial (line : Line) : Mistake := ⟨.expected "an item", line.start, line.start⟩

def trials : Trace where
  mark := Line.trial
  isMark mistake := mistake.complaint = .expected "an item"
  isKept _ := false
  isMark_field _ _ := rfl

/-- An item is followed by the other items of its block, whether it can be read or not. `tried` is
its trial, unless it does not stand at the margin of its block. -/
def proceedTried (items : Reader (List Child)) (behind : List Line) (tried : List Mistake)
    (passage : Passage Child) : Passage (List Child) :=
  match passage.outcome with
  | .ok child =>
    let after := items passage.left
    ⟨after.outcome.map (child :: ·), tried ++ (passage.noted ++ after.noted), after.left⟩
  | .error _ =>
    let after := items behind
    ⟨after.outcome, tried ++ (passage.noted ++ after.noted), after.left⟩

def triedItems : Nat → Option Nat → BlockReader Reader Node
  | 0, _, _, _ => fun lines => ⟨.ok [], [], lines⟩
  | fuel + 1, expected, parent, kind => fun lines =>
    match lines.dropWhile Line.isIdle with
    | [] => ⟨.ok [], [], []⟩
    | line :: rest =>
      if parent.any (line.indent ≤ ·) then ⟨.ok [], [], line :: rest⟩
      else
        let indent := expected.getD line.indent
        let tried := if line.indent = indent then [line.trial] else []
        proceedTried (triedItems fuel (some indent) parent kind) (recover line.indent rest) tried
          (headItem (triedItems fuel none) expected kind line rest)

section

variable {α : Type} {before after list other : List α}

theorem dropWhile_suffix_append (p : α → Bool) (before list : List α) :
    list.dropWhile p <:+ (before ++ list).dropWhile p := by
  rw [List.dropWhile_append]
  split
  · exact List.suffix_refl _
  · exact (List.dropWhile_suffix p).trans (List.suffix_append _ _)

theorem prefix_of_head {P : α → Prop} (h : before <+: list ++ after) (hb : ∀ a ∈ before, P a)
    (ha : ∀ a ∈ after.head?, ¬ P a) : before <+: list := by
  induction list generalizing before with
  | nil =>
    cases before with
    | nil => exact List.prefix_refl _
    | cons a before =>
      obtain ⟨more, hm⟩ := h
      rw [List.nil_append] at hm
      subst hm
      exact absurd (hb a List.mem_cons_self) (ha a rfl)
  | cons b list ih =>
    cases before with
    | nil => exact List.nil_prefix
    | cons a before =>
      rw [List.cons_append, List.cons_prefix_cons] at h
      rw [List.cons_prefix_cons]
      exact ⟨h.1, ih h.2 (List.forall_mem_cons.1 hb).2⟩

theorem prefix_append_dropWhile {p : α → Bool} (h : before <+: list) (hb : ∀ a ∈ before, p a = true)
    (hs : other <:+ list) : (before ++ other.dropWhile p).Sublist list := by
  have hbefore : before <+: list.takeWhile p := by
    obtain ⟨after, rfl⟩ := h
    rw [List.takeWhile_append_of_pos hb]
    exact List.prefix_append _ _
  have hother : other.dropWhile p <:+ list.dropWhile p := by
    obtain ⟨skipped, rfl⟩ := hs
    exact dropWhile_suffix_append p skipped other
  conv_rhs => rw [← List.takeWhile_append_dropWhile (p := p) (l := list)]
  exact hbefore.sublist.append hother.sublist

end

variable {line : Line} {lines rest : List Line} {expected parent : Option Nat}
  {plain traced : Passage (List Child)}

/-- The line is passed over where an item of a block is looked for, whose indentation may be
known. -/
def Line.isPassed (expected : Option Nat) (line : Line) : Bool :=
  expected.any fun indent => line.isIdle || indent < line.indent

theorem Line.isPassed_some {indent : Nat} :
    line.isPassed (some indent) = true ↔ line.Below indent := by
  simp [isPassed, Below]

theorem dropWhile_header (h : line.isIdle = false) (taken : List Line) :
    (line :: taken).dropWhile (Line.isPassed (some line.indent)) = line :: taken := by
  simp [Line.isPassed, h]

/-- The traced reading of a block is the plain one, and it tries some of the lines that it takes,
each of them once and in their order. It goes on to the first line that is not below its header. -/
structure Passage.Tries (expected parent : Option Nat) (lines : List Line)
    (plain traced : Passage (List Child)) : Prop where
  complete : ∃ items, plain.outcome = .ok items ∧ traced.outcome = .ok items
  left : traced.left = plain.left
  ends : ∀ line ∈ plain.left.head?, line.isIdle = false ∧ ∃ indent ∈ parent, line.indent ≤ indent
  read : ∃ taken, lines = taken ++ plain.left ∧
    (∀ indent ∈ parent, ∀ line ∈ taken, line.Below indent) ∧
    trials.Covers (taken.dropWhile (Line.isPassed expected)) traced.noted

namespace Passage.Tries

theorem traces {indent : Nat} (h : Passage.Tries none (some indent) lines plain traced) :
    plain.Traces trials lines (fun _ => False) (fun taken => ∀ line ∈ taken, line.Below indent)
      traced := by
  obtain ⟨⟨items, hplain, htraced⟩, hleft, -, taken, hl, hbelow, hc⟩ := h
  constructor
  · rw [hplain, htraced]
  · exact hleft
  · simp [trials]
  · exact fun _ _ => ⟨taken, hl, hbelow indent rfl, hc.sublist (List.dropWhile_sublist _)⟩
  · intro mistake hm
    rw [hplain] at hm
    cases hm

theorem behind {before : List Line} (h : Passage.Tries expected parent lines plain traced)
    (hb : ∀ indent ∈ parent, ∀ line ∈ before, line.Below indent) :
    Passage.Tries expected parent (before ++ lines) plain traced := by
  obtain ⟨hcomplete, hleft, hends, taken, rfl, hbelow, hc⟩ := h
  refine ⟨hcomplete, hleft, hends, before ++ taken, (List.append_assoc ..).symm, ?_, ?_⟩
  · exact fun indent hi => List.forall_mem_append.2 ⟨hb indent hi, hbelow indent hi⟩
  · exact hc.sublist (dropWhile_suffix_append _ before taken).sublist

theorem first {indent : Nat} (h : Passage.Tries (some indent) parent lines plain traced)
    (he : expected.getD indent = indent) : Passage.Tries expected parent lines plain traced := by
  cases expected with
  | some other =>
    obtain rfl : other = indent := he
    exact h
  | none =>
    obtain ⟨hcomplete, hleft, hends, taken, hl, hbelow, hc⟩ := h
    refine ⟨hcomplete, hleft, hends, taken, hl, hbelow, ?_⟩
    have hall : taken.dropWhile (Line.isPassed none) = taken := by
      cases taken <;> rfl
    rw [hall]
    exact hc.sublist (List.dropWhile_sublist _)

section

variable {items items' : Reader (List Child)} {passage passage' : Passage Child}
  (hidle : line.isIdle = false) (hp : ∀ indent ∈ parent, indent < line.indent)
  (hitem : passage.Traces trials rest (fun taken => ∀ other ∈ taken, other.Below line.indent)
    line.Owns passage')
  (hafter : ∀ left, left <:+ rest →
    Passage.Tries (some line.indent) parent left (items left) (items' left))

include hidle hp hitem hafter

theorem item_read {child : Child} (hc : passage.outcome = .ok child) :
    Passage.Tries (some line.indent) parent (line :: rest)
      ⟨(items passage.left).outcome.map (child :: ·), passage.noted ++ (items passage.left).noted,
        (items passage.left).left⟩
      ⟨(items' passage.left).outcome.map (child :: ·),
        [line.trial] ++ (passage'.noted ++ (items' passage.left).noted),
        (items' passage.left).left⟩ := by
  have htrial : trials.Covers [line] [line.trial] := List.Sublist.refl _
  obtain ⟨taken, hrest, howns, hmarks⟩ := hitem.read child hc
  obtain ⟨⟨more, hm, hm'⟩, hleft, hends, others, hothers, hbelow, hmarks'⟩ :=
    hafter passage.left (hrest ▸ List.suffix_append taken _)
  refine ⟨⟨child :: more, ?_, ?_⟩, hleft, hends, line :: (taken ++ others), ?_, ?_, ?_⟩
  · exact congrArg (Except.map (child :: ·)) hm
  · exact congrArg (Except.map (child :: ·)) hm'
  · rw [List.cons_append, List.append_assoc, ← hothers, ← hrest]
  · intro indent hi
    have howned : ∀ other ∈ taken, other.Below indent :=
      fun other ho => (howns other ho).imp_right (Nat.lt_of_lt_of_le (hp indent hi))
    exact List.forall_mem_cons.2 ⟨.inr (hp indent hi),
      List.forall_mem_append.2 ⟨howned, hbelow indent hi⟩⟩
  · rw [dropWhile_header hidle]
    exact htrial.append (hmarks.append (hmarks'.sublist (List.dropWhile_sublist _)))

/-- A line is tried, and after its item, which cannot be read, those lines are that are not below
it. The block may come back to lines that the item has tried, but it does not try them. -/
theorem item_failed {mistake : Mistake} (hm : passage.outcome = .error mistake) :
    Passage.Tries (some line.indent) parent (line :: rest)
      ⟨(items (recover line.indent rest)).outcome,
        passage.noted ++ mistake :: (items (recover line.indent rest)).noted,
        (items (recover line.indent rest)).left⟩
      ⟨(items' (recover line.indent rest)).outcome,
        [line.trial] ++ (passage'.noted ++ (items' (recover line.indent rest)).noted),
        (items' (recover line.indent rest)).left⟩ := by
  have htrial : trials.Covers [line] [line.trial] := List.Sublist.refl _
  obtain ⟨skipped, hrest, hskipped⟩ := exists_skipped line rest
  obtain ⟨hcomplete, hleft, hends, others, hothers, hbelow, hmarks'⟩ :=
    hafter _ ⟨skipped, hrest.symm⟩
  have hwhole : rest = (skipped ++ others) ++ (items (recover line.indent rest)).left := by
    rw [List.append_assoc, ← hothers, ← hrest]
  refine ⟨hcomplete, hleft, hends, line :: (skipped ++ others), ?_, ?_, ?_⟩
  · rw [List.cons_append, ← hwhole]
  · intro indent hi
    refine List.forall_mem_cons.2 ⟨.inr (hp indent hi), List.forall_mem_append.2 ?_⟩
    exact ⟨hskipped indent (hp indent hi), hbelow indent hi⟩
  · rw [dropWhile_header hidle]
    refine htrial.append ?_
    rcases hitem.failed mistake hm with hnone | ⟨taken, htaken, hdeeper, hmarks⟩
    · have hall := (Trace.covers_of_filter [] hnone).append hmarks'
      exact (hall.sublist (List.dropWhile_sublist _)).behind skipped
    · -- The item tries lines before the next one that is not below it, the block only from there.
      have hbefore : taken <+: skipped ++ others := by
        apply prefix_of_head (P := Line.Below line.indent) (hwhole ▸ htaken) hdeeper
        rintro next hnext (hn | hn)
        · rw [(hends next hnext).1] at hn
          cases hn
        · obtain ⟨_, indent, hi, hle⟩ := hends next hnext
          have := hp indent hi
          omega
      have hpassed : ∀ other ∈ taken, other.isPassed (some line.indent) = true :=
        fun other ho => Line.isPassed_some.2 (hdeeper other ho)
      exact (hmarks.append hmarks').sublist
        (prefix_append_dropWhile hbefore hpassed (List.suffix_append skipped others))

/-- After a line that is tried, the block goes on whether the item can be read or not. -/
theorem proceed :
    Passage.Tries (some line.indent) parent (line :: rest)
      (ArchiveScript.proceed items (recover line.indent rest) passage)
      (proceedTried items' (recover line.indent rest) [line.trial] passage') := by
  unfold ArchiveScript.proceed proceedTried
  rw [hitem.outcome, hitem.left]
  cases ho : passage.outcome with
  | ok child => exact item_read hidle hp hitem hafter ho
  | error mistake => exact item_failed hidle hp hitem hafter ho

end

theorem misplaced {items items' : Reader (List Child)}
    (hp : ∀ indent ∈ parent, indent < line.indent)
    (h : Passage.Tries expected parent (recover line.indent rest)
      (items (recover line.indent rest)) (items' (recover line.indent rest)))
    (mistake : Mistake) :
    Passage.Tries expected parent (line :: rest)
      (ArchiveScript.proceed items (recover line.indent rest) ⟨.error mistake, [], rest⟩)
      (proceedTried items' (recover line.indent rest) [] ⟨.error mistake, [], rest⟩) := by
  obtain ⟨skipped, hrest, hskipped⟩ := exists_skipped line rest
  have hbefore : ∀ indent ∈ parent, ∀ other ∈ line :: skipped, other.Below indent :=
    fun indent hi => List.forall_mem_cons.2 ⟨.inr (hp indent hi), hskipped indent (hp indent hi)⟩
  obtain ⟨hcomplete, hleft, hends, hread⟩ := h.behind hbefore
  rw [List.cons_append, ← hrest] at hread
  exact ⟨hcomplete, hleft, hends, hread⟩

end Passage.Tries

/-- With fuel for all lines, the trials of a block are in the order of the lines. -/
theorem triedItems_tries (fuel : Nat) (expected parent : Option Nat) (kind : BlockKind)
    (lines : List Line) (hf : lines.length ≤ fuel) :
    Passage.Tries expected parent lines (blockItems (r := Reader) fuel expected parent kind lines)
      (triedItems fuel expected parent kind lines) := by
  induction fuel generalizing expected parent kind lines with
  | zero =>
    obtain rfl := List.length_eq_zero_iff.1 (Nat.le_zero.1 hf)
    exact ⟨⟨[], rfl, rfl⟩, rfl, nofun, [], rfl, nofun, trials.covers_nil _⟩
  | succ fuel ih =>
    have hpassed (indent : Nat) : ∀ line ∈ lines.takeWhile Line.isIdle, line.Below indent :=
      fun line hm => .inl (List.mem_takeWhile_imp hm)
    have hsplit := (List.takeWhile_append_dropWhile (p := Line.isIdle) (l := lines)).symm
    have hlength := (List.dropWhile_suffix (l := lines) Line.isIdle).length_le
    have hactive := head_dropWhile Line.isIdle lines
    unfold triedItems
    rw [blockItems_succ]
    generalize lines.takeWhile Line.isIdle = idle at hpassed hsplit
    generalize lines.dropWhile Line.isIdle = active at hsplit hlength hactive ⊢
    subst hsplit
    have hnone {left : List Line} (hl : left = active) (he : ∀ line ∈ left.head?,
        ∃ indent ∈ parent, line.indent ≤ indent) : Passage.Tries expected parent (idle ++ active)
          ⟨.ok [], [], left⟩ ⟨.ok [], [], left⟩ := by
      subst hl
      refine ⟨⟨[], rfl, rfl⟩, rfl, fun line hm => ⟨hactive line hm, he line hm⟩, idle, rfl, ?_, ?_⟩
      · exact fun indent _ => hpassed indent
      · exact trials.covers_nil _
    cases active with
    | nil => exact hnone rfl nofun
    | cons line rest =>
      dsimp only
      split
      · rename_i hparent
        apply hnone rfl
        rintro _ ⟨⟩
        simpa [Option.any_eq_true] using hparent
      · rename_i hparent
        have hp : ∀ indent ∈ parent, indent < line.indent := by
          rintro indent hi
          obtain rfl := Option.mem_def.1 hi
          simpa using hparent
        have hshort {left : List Line} (hl : left <:+ rest) : left.length ≤ fuel := by
          have hle := hl.length_le
          rw [List.length_cons] at hlength
          omega
        apply Passage.Tries.behind
        · by_cases hi : line.indent = expected.getD line.indent
          · have hb : TracesBlocks trials rest (blockItems fuel none) (triedItems fuel none) :=
              fun indent kind left hl => (ih none (some indent) kind left (hshort hl)).traces
            rw [if_pos hi, ← hi]
            apply Passage.Tries.first ?_ hi.symm
            have hitem := headItem_traces hb expected kind line
            apply Passage.Tries.proceed (hactive line rfl) hp hitem
            exact fun left hl => ih (some line.indent) parent kind left (hshort hl)
          · have hsuffix : recover line.indent rest <:+ rest := List.dropWhile_suffix _
            have hafter := ih (some (expected.getD line.indent)) parent kind _ (hshort hsuffix)
            rw [if_neg hi]
            unfold headItem
            rw [if_neg hi, if_neg hi]
            cases expected with
            | none => exact absurd rfl hi
            | some indent => exact Passage.Tries.misplaced hp hafter _
        · exact fun indent _ => hpassed indent

def triedScript (source : List Char) : Passage (List Child) :=
  triedItems ((Line.split source).length + 1) none none .topLevel (Line.split source)

/-- The offsets of the lines of a script that are tried as items, in the order of their trials. -/
def trialOffsets (source : List Char) : List Nat :=
  ((triedScript source).noted.filter trials.isMark).map (·.span.start)

theorem triedScript_tries (source : List Char) :
    Passage.Tries none none (Line.split source) (topItems (Line.split source))
      (triedScript source) :=
  triedItems_tries _ none none .topLevel _ (Nat.le_succ _)

theorem topItems_left (source : List Char) : (topItems (Line.split source)).left = [] := by
  obtain ⟨-, -, hends, -⟩ := triedScript_tries source
  rw [← List.head?_eq_none_iff, Option.eq_none_iff_forall_not_mem]
  intro line hl
  obtain ⟨-, indent, hi, -⟩ := hends line hl
  cases hi

/-- Lines are tried from the first one to the last one, and none of them twice. -/
theorem trialOffsets_ascend (source : List Char) : (trialOffsets source).Pairwise (· < ·) := by
  obtain ⟨-, -, -, taken, hl, -, hc⟩ := triedScript_tries source
  have hsub : (trialOffsets source).Sublist ((Line.split source).map Line.start) := by
    have htaken : taken.Sublist (Line.split source) := by
      rw [hl]
      exact List.sublist_append_left taken _
    have htrials := (hc.sublist ((List.dropWhile_sublist _).trans htaken)).map (·.span.start)
    rwa [List.map_map] at htrials
  have hlines := (Line.splitFrom_ascend 0 [] source).2
  rw [← List.pairwise_map] at hlines
  exact hlines.sublist hsub

/-- The last line is tried inside of the command, which cannot be read. The block around the command
comes back to the comment, and it does not try the last line again. -/
example : trialOffsets "SIARD metadata for c:\n  Command:\n    Title: \"\"\n #\n    SQL\n".toList =
    [0, 22, 33, 50] := by
  cbv

end ArchiveScript
