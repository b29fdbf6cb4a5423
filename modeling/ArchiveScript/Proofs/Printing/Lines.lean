import ArchiveScript.Proofs.Printing.Contents
import ArchiveScript.Proofs.Printing.Expression
import ArchiveScript.Proofs.Script.Yields
import ArchiveScript.Script.Parse

/-! # Printed lines

A printed text is split into the lines that were printed. Each reader of lines takes the lines
that belong to its item, and leaves those that follow.
-/

namespace ArchiveScript.Printing

open Node

structure Shows (line : Line) (content : List Char) : Prop where
  margin : line.margin = content.takeWhile Text.isIndent
  body : line.body = content.dropWhile Text.isIndent
  ending : line.ending = ['\n']

inductive Shown : List (List Char) → List Line → Prop
  | nil : Shown [] []
  | cons {content : List Char} {contents : List (List Char)} {line : Line} {lines : List Line}
      (h : Shows line content) (hs : Shown contents lines) :
      Shown (content :: contents) (line :: lines)

namespace Shown

variable {contents more : List (List Char)} {lines : List Line}

theorem length_eq (h : Shown contents lines) : lines.length = contents.length := by
  induction h with
  | nil => rfl
  | cons _ _ ih => rw [List.length_cons, List.length_cons, ih]

theorem split (h : Shown (contents ++ more) lines) :
    ∃ first second, lines = first ++ second ∧ Shown contents first ∧ Shown more second := by
  induction contents generalizing lines with
  | nil => exact ⟨[], lines, rfl, .nil, h⟩
  | cons content contents ih =>
    cases h with
    | cons hl hs =>
      obtain ⟨first, second, rfl, hf, hm⟩ := ih hs
      exact ⟨_ :: first, second, rfl, .cons hl hf, hm⟩

end Shown

theorem splitFrom_run {content : List Char} (h : '\n' ∉ content) (start : Nat)
    (begun rest : List Char) :
    Line.splitFrom start begun (content ++ rest) =
      Line.splitFrom start (content.reverse ++ begun) rest := by
  induction content generalizing begun with
  | nil => rfl
  | cons c cs ih =>
    have hc : c ≠ '\n' := fun hc => h (hc ▸ List.mem_cons_self)
    rw [List.cons_append, Line.splitFrom, if_neg hc, ih (fun hm => h (List.mem_cons_of_mem c hm)),
      List.reverse_cons, List.append_assoc, List.singleton_append]

theorem splitFrom_content {content rest : List Char} (h : '\n' ∉ content) (start : Nat) :
    Line.splitFrom start [] (content ++ '\n' :: rest) =
      Line.ofContent start content ['\n'] ::
        Line.splitFrom (Line.ofContent start content ['\n']).next [] rest := by
  rw [splitFrom_run h, Line.splitFrom, if_pos rfl, List.append_nil, List.reverse_reverse]

theorem ofContent_shows {content : List Char} (h : OneLine content) (start : Nat) :
    Shows (Line.ofContent start content ['\n']) content := by
  rw [Line.ofContent, if_neg h.last]
  exact ⟨rfl, rfl, rfl⟩

/-- Printed lines are the lines of the text. -/
theorem split_shown {contents : List (List Char)} (h : ∀ content ∈ contents, OneLine content) :
    Shown contents (Line.split (contents.flatMap (· ++ ['\n']))) := by
  rw [Line.split]
  generalize 0 = start
  induction contents generalizing start with
  | nil => exact .nil
  | cons content contents ih =>
    have hc := h content List.mem_cons_self
    rw [List.flatMap_cons, List.append_assoc, List.singleton_append, splitFrom_content hc.feed]
    exact .cons (ofContent_shows hc start)
      (ih (fun other ho => h other (List.mem_cons_of_mem content ho)) _)

structure Heads (head : List Char) : Prop where
  indent : head.head?.any Text.isIndent = false
  nonempty : head ≠ []
  comment : head.head? ≠ some '#'

theorem Shows.item {line : Line} {margin head : List Char} (h : Shows line (margin ++ head))
    (hm : ∀ c ∈ margin, Text.isIndent c = true) (hh : Heads head) :
    line.margin = margin ∧ line.body = head ∧ line.isIdle = false := by
  have hb : line.body = head := by
    rw [h.body, List.dropWhile_append_of_pos hm, Scan.dropWhile_eq_self hh.indent]
  refine ⟨?_, hb, ?_⟩
  · rw [h.margin, List.takeWhile_append_of_pos hm, Scan.takeWhile_eq_nil hh.indent,
      List.append_nil]
  · simp [Line.isIdle, Line.isEmpty, Line.isComment, hb, hh.nonempty, hh.comment]

/-- The reader reads `a`, notes nothing and leaves the lines `after`. -/
def Takes {α : Type} (reader : PlainReader α) (lines after : List Line) (a : α) : Prop :=
  reader lines = ⟨.ok a, [], after⟩

namespace Takes

variable {α β : Type} {a : α} {b : β} {lines middle after : List Line} {f : α → PlainReader β}

theorem pure (a : α) : Takes (pure a) lines lines a := rfl

theorem bind {reader : PlainReader α} (hr : Takes reader lines middle a)
    (hf : Takes (f a) middle after b) : Takes (reader >>= f) lines after b := by
  have h := Reader.run_bind reader f lines
  rw [show reader lines = _ from hr] at h
  dsimp only at h
  rw [show f a middle = _ from hf] at h
  exact h

theorem inline {outcome : Plain α} (ho : outcome = Pure.pure a) :
    Takes (LineReader.onLine outcome) lines lines a := by
  rw [ho]
  rfl

theorem inline_ok {outcome : Plain α} {g : α → Plain β} (ho : outcome = Pure.pure a)
    (hf : Takes (LineReader.onLine (g a)) lines after b) :
    Takes (LineReader.onLine (outcome >>= g)) lines after b := by
  rw [ho]
  exact hf

theorem attempt {reader : PlainReader α} (h : Takes reader lines after a) :
    Takes (LineReader.attempt reader) lines after (.ok a) := by
  have hr := Reader.run_attempt reader lines
  rw [show reader lines = _ from h] at hr
  exact hr

theorem peek_bind {f : List Line → PlainReader β} (hf : Takes (f lines) lines after b) :
    Takes (LineReader.peek >>= f) lines after b := hf

theorem goto_bind {f : Unit → PlainReader β} (hf : Takes (f ()) middle after b) :
    Takes (LineReader.goto middle >>= f) lines after b := hf

theorem spans_bind {f : (Node → Span) → PlainReader β} (hf : Takes (f Node.span) lines after b) :
    Takes (Builder.spans >>= f) lines after b := hf

theorem skipIdle_to {f : Unit → PlainReader β} (hl : lines.dropWhile Line.isIdle = middle)
    (hf : Takes (f ()) middle after b) : Takes (skipIdle >>= f) lines after b := by
  subst hl
  exact bind (a := ()) (peek_bind rfl) hf

theorem skipIdle_bind {line : Line} {f : Unit → PlainReader β} (hi : line.isIdle = false)
    (hf : Takes (f ()) (line :: lines) after b) :
    Takes (skipIdle >>= f) (line :: lines) after b :=
  skipIdle_to (List.dropWhile_cons_of_neg (by simp [hi])) hf

theorem note_bind {mistakes : List Mistake} {f : Unit → PlainReader β} (hn : mistakes = [])
    (hf : Takes (f ()) lines after b) : Takes (LineReader.note mistakes >>= f) lines after b := by
  rw [hn]
  exact hf

theorem inline_bind {outcome : Plain α} (ho : outcome = Pure.pure a)
    (hf : Takes (f a) lines after b) : Takes (LineReader.onLine outcome >>= f) lines after b :=
  bind (inline ho) hf

theorem gives_bind {outcome : Plain (α × Scan)} {f : α × Scan → PlainReader β}
    {rest : List Char} (ho : Gives outcome a rest)
    (hf : ∀ pos, Takes (f (a, ⟨pos, rest⟩)) lines after b) :
    Takes (LineReader.onLine outcome >>= f) lines after b := by
  obtain ⟨pos, he⟩ := ho
  exact inline_bind he (hf pos)

end Takes

/-- An item follows, or nothing: it is on a line that is not idle and not deeper than `indent`. -/
def Ends (indent : Nat) (after : List Line) : Prop :=
  ∀ line ∈ after.head?, line.isIdle = false ∧ line.indent ≤ indent

theorem hasBlock_takes {header line : Line} {lines : List Line} (hi : line.isIdle = false)
    (hd : header.indent < line.indent) :
    Takes (hasBlock header) (line :: lines) (line :: lines) true := by
  refine .skipIdle_bind hi (.peek_bind ?_)
  rw [List.head?_cons, Option.any_some, decide_eq_true hd]
  exact .pure true

end ArchiveScript.Printing
