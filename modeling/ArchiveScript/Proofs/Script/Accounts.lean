import Mathlib
import ArchiveScript.Proofs.Script.Blocks
import ArchiveScript.Proofs.Script.LineSpans
import ArchiveScript.Proofs.Script.Yields

/-! # What readers account for

A reader of lines takes some of those that it is given and notes mistakes on the way. What it
comes back with is related to both, so that one specification of a reader says where its result
lies, which lines it uses and what its mistakes are about.
-/

namespace ArchiveScript

variable {α β : Type}

structure Trail where
  /-- The mistakes that were noted. -/
  noted : List Mistake
  /-- The lines that were taken. -/
  taken : List Line

namespace Trail

def none : Trail := ⟨[], []⟩

instance : Append Trail where
  append trail more := ⟨trail.noted ++ more.noted, trail.taken ++ more.taken⟩

@[simp]
theorem noted_append (trail more : Trail) : (trail ++ more).noted = trail.noted ++ more.noted := rfl

@[simp]
theorem taken_append (trail more : Trail) : (trail ++ more).taken = trail.taken ++ more.taken := rfl

@[simp]
theorem append_none (trail : Trail) : trail ++ none = trail := by
  change Trail.mk (trail.noted ++ []) (trail.taken ++ []) = trail
  rw [List.append_nil, List.append_nil]

end Trail

variable {N F : Mistake → Prop} {lines : List Line} {P : Trail → α → Prop} {Q : Trail → β → Prop}

/-- What a passage over the lines accounts for. The mistakes that were noted satisfy `N`, and one
that ended it satisfies `F`. Without such a one, some of the lines were taken and the others left,
and `P` holds of what is left behind and of what was read. -/
structure Passage.Accounts (N F : Mistake → Prop) (lines : List Line) (P : Trail → α → Prop)
    (passage : Passage α) : Prop where
  noted : ∀ mistake ∈ passage.noted, N mistake
  outcome : Brings F (fun a => ∃ taken, lines = taken ++ passage.left ∧ P ⟨passage.noted, taken⟩ a)
    passage.outcome

theorem Passage.Accounts.read {passage : Passage α} (h : passage.Accounts N F lines P) {a : α}
    (ha : passage.outcome = .ok a) :
    ∃ taken, lines = taken ++ passage.left ∧ P ⟨passage.noted, taken⟩ a :=
  h.outcome.finds a ha

theorem Passage.Accounts.failed {passage : Passage α} (h : passage.Accounts N F lines P)
    {mistake : Mistake} (hm : passage.outcome = .error mistake) : F mistake := by
  have ho := h.outcome
  rwa [hm] at ho

theorem Passage.Accounts.mono {N' F' : Mistake → Prop} {P' : Trail → α → Prop}
    {passage : Passage α} (h : passage.Accounts N F lines P)
    (hN : ∀ mistake ∈ passage.noted, N mistake → N' mistake)
    (hF : ∀ mistake, passage.outcome = .error mistake → F mistake → F' mistake)
    (hP : ∀ trail a, passage.outcome = .ok a → P trail a → P' trail a) :
    passage.Accounts N' F' lines P' := by
  refine ⟨fun mistake hm => hN mistake hm (h.noted mistake hm), ?_⟩
  cases ho : passage.outcome with
  | error mistake => exact hF mistake ho (h.failed ho)
  | ok a =>
    obtain ⟨taken, hl, hp⟩ := h.read ho
    exact ⟨taken, hl, hP _ a ho hp⟩

namespace Reader

abbrev Accounts (N F : Mistake → Prop) (lines : List Line) (P : Trail → α → Prop)
    (reader : Reader α) : Prop :=
  (reader lines).Accounts N F lines P

namespace Accounts

theorem onLine {outcome : Except Mistake α} (h : Brings F (P .none) outcome) :
    Accounts N F lines P (LineReader.onLine outcome) :=
  ⟨List.forall_mem_nil _, h.mono (fun _ => id) fun _ hp => ⟨[], rfl, hp⟩⟩

theorem pure {a : α} (h : P .none a) : Accounts N F lines P (pure a) :=
  ⟨List.forall_mem_nil _, [], rfl, h⟩

theorem done {trail : Trail} {a : α} (h : P trail a) :
    Accounts N F lines (fun more b => P (trail ++ more) b) (Pure.pure a) :=
  pure (by rwa [Trail.append_none])

theorem fail {complaint : Complaint} {span : Span} (h : F ⟨complaint, span⟩) :
    Accounts N F lines P (Builder.fail complaint span) :=
  onLine (.fail h)

theorem mono {N' F' : Mistake → Prop} {P' : Trail → α → Prop} {reader : Reader α}
    (h : Accounts N F lines P reader) (hN : ∀ mistake, N mistake → N' mistake)
    (hF : ∀ mistake, F mistake → F' mistake) (hP : ∀ trail a, P trail a → P' trail a) :
    Accounts N' F' lines P' reader :=
  Passage.Accounts.mono h (fun mistake _ => hN mistake) (fun mistake _ => hF mistake)
    fun trail a _ => hP trail a

theorem bind {reader : Reader α} {f : α → Reader β} (h : Accounts N F lines P reader)
    (hf : ∀ trail left a, lines = trail.taken ++ left → P trail a →
      Accounts N F left (fun more b => Q (trail ++ more) b) (f a)) :
    Accounts N F lines Q (reader >>= f) := by
  rw [Accounts, run_bind]
  cases ho : (reader lines).outcome with
  | error mistake => exact ⟨h.noted, Passage.Accounts.failed h ho⟩
  | ok a =>
    obtain ⟨taken, hl, hp⟩ := Passage.Accounts.read h ho
    obtain ⟨hnoted, hread⟩ := hf _ (reader lines).left a hl hp
    refine ⟨List.forall_mem_append.2 ⟨h.noted, hnoted⟩, hread.mono (fun _ => id) ?_⟩
    rintro b ⟨more, hm, hq⟩
    refine ⟨taken ++ more, ?_, hq⟩
    rw [List.append_assoc]
    exact hl.trans (congrArg (taken ++ ·) hm)

theorem map {reader : Reader α} {g : α → β} (h : Accounts N F lines P reader)
    (hg : ∀ trail a, P trail a → Q trail (g a)) :
    Accounts N F lines Q (do return g (← reader)) :=
  h.bind fun trail _ a _ hp => .done (hg trail a hp)

theorem onLine_bind {R : α → Prop} {outcome : Except Mistake α} {f : α → Reader β}
    (ho : Brings F R outcome) (hf : ∀ a, R a → Accounts N F lines Q (f a)) :
    Accounts N F lines Q (LineReader.onLine outcome >>= f) := by
  cases outcome with
  | error mistake => exact ⟨List.forall_mem_nil _, ho⟩
  | ok a => exact hf a ho

theorem node {trail : Trail} {node : Node} {P : Trail → Node → Prop} (h : P trail node) :
    Accounts N F lines (fun more b => P (trail ++ more) b) (LineReader.onLine (.ok node)) :=
  done h

theorem node_bind {node : Node} {f : Node → Reader β} (hf : Accounts N F lines Q (f node)) :
    Accounts N F lines Q (LineReader.onLine (.ok node) >>= f) :=
  hf

theorem pure_bind {a : α} {f : α → Reader β} (hf : Accounts N F lines Q (f a)) :
    Accounts N F lines Q (Pure.pure a >>= f) :=
  hf

theorem spans_bind {f : (Node → Span) → Reader β} (hf : Accounts N F lines Q (f Node.span)) :
    Accounts N F lines Q (Builder.spans >>= f) :=
  hf

theorem peek_bind {f : List Line → Reader β} (hf : Accounts N F lines Q (f lines)) :
    Accounts N F lines Q (LineReader.peek >>= f) :=
  hf

theorem note_bind {mistakes : List Mistake} {f : Unit → Reader β}
    (hm : ∀ mistake ∈ mistakes, N mistake)
    (hf : Accounts N F lines (fun more b => Q (⟨mistakes, []⟩ ++ more) b) (f ())) :
    Accounts N F lines Q (LineReader.note mistakes >>= f) :=
  ⟨List.forall_mem_append.2 ⟨hm, hf.noted⟩, hf.outcome⟩

theorem goto_bind {taken left : List Line} {f : Unit → Reader β} (hl : lines = taken ++ left)
    (hf : Accounts N F left (fun more b => Q (⟨[], taken⟩ ++ more) b) (f ())) :
    Accounts N F lines Q (LineReader.goto left >>= f) := by
  refine ⟨hf.noted, hf.outcome.mono (fun _ => id) ?_⟩
  rintro b ⟨more, hm, hq⟩
  refine ⟨taken ++ more, ?_, hq⟩
  rw [List.append_assoc, hl]
  exact congrArg (taken ++ ·) hm

theorem skipIdle_bind {f : Unit → Reader β}
    (hf : ∀ idle, lines = idle ++ lines.dropWhile Line.isIdle →
      (∀ line ∈ idle, line.isIdle = true) →
      Accounts N F (lines.dropWhile Line.isIdle) (fun more b => Q (⟨[], idle⟩ ++ more) b) (f ())) :
    Accounts N F lines Q (skipIdle >>= f) :=
  have hl := (List.takeWhile_append_dropWhile (p := Line.isIdle) (l := lines)).symm
  goto_bind hl (hf _ hl fun _ hm => List.mem_takeWhile_imp hm)

/-- Passing over idle lines changes nothing for a condition that they do not matter to. -/
theorem hasBlock_bind {header : Line} {f : Bool → Reader β}
    (hq : ∀ idle trail b, (∀ line ∈ idle, line.isIdle = true) → Q trail b →
      Q (⟨[], idle⟩ ++ trail) b)
    (hf : ∀ has, Accounts N F (lines.dropWhile Line.isIdle) Q (f has)) :
    Accounts N F lines Q (hasBlock header >>= f) :=
  skipIdle_bind (f := fun _ => f _) fun idle _ hidle =>
    (hf _).mono (fun _ => id) (fun _ => id) fun trail b => hq idle trail b hidle

end Accounts

end Reader

/-! ### Where the lines end -/

namespace Line

/-- The offset after lines that begin at the given one or later. -/
def endOf (offset : Nat) (lines : List Line) : Nat := lines.foldl (fun _ line => line.next) offset

variable {source : List Char} {header line : Line} {offset : Nat} {taken more : List Line}

theorem endOf_cons (offset : Nat) (line : Line) (lines : List Line) :
    endOf offset (line :: lines) = endOf line.next lines := rfl

theorem endOf_append (offset : Nat) (lines more : List Line) :
    endOf offset (lines ++ more) = endOf (endOf offset lines) more :=
  List.foldl_append

theorem Follow.le (h : Follow source offset lines) : offset ≤ Text.bytes source := by
  induction lines generalizing offset with
  | nil => exact h
  | cons line rest ih => exact Nat.le_trans h.1 (Nat.le_trans line.start_le_next (ih h.2.2))

theorem Follow.le_endOf (h : Follow source offset lines) : offset ≤ endOf offset lines := by
  induction lines generalizing offset with
  | nil => exact Nat.le_refl _
  | cons line rest ih => exact Nat.le_trans h.1 (Nat.le_trans line.start_le_next (ih h.2.2))

theorem Follow.endOf_mono {earlier : Nat} (h : Follow source offset lines)
    (he : earlier ≤ offset) : endOf earlier lines ≤ endOf offset lines := by
  cases lines with
  | nil => exact he
  | cons line rest => exact Nat.le_refl _

theorem Follow.left (h : Follow source offset (taken ++ more)) : Follow source offset taken := by
  induction taken generalizing offset with
  | nil => exact h.le
  | cons line rest ih => exact ⟨h.1, h.2.1, ih h.2.2⟩

theorem Follow.right (h : Follow source offset (taken ++ more)) :
    Follow source (endOf offset taken) more := by
  induction taken generalizing offset with
  | nil => exact h
  | cons line rest ih => exact ih h.2.2

/-- The lines come after the header in a source whose offsets fit spans. -/
structure Heads (source : List Char) (header : Line) (lines : List Line) : Prop where
  fits : Text.bytes source ≤ Span.maxOffset
  within : header.Within source
  follow : Follow source header.next lines

namespace Heads

theorem next_le (h : header.Heads source taken) : header.next ≤ endOf header.next taken :=
  h.follow.le_endOf

theorem left (h : header.Heads source (taken ++ more)) : header.Heads source taken :=
  ⟨h.fits, h.within, h.follow.left⟩

end Heads

end Line

end ArchiveScript
