import ArchiveScript.Proofs.Printing.Document
import ArchiveScript.Proofs.Printing.Spacing

/-! # Contents of lines

No printed phrase holds a line feed, and none ends with a carriage return, so that each is a part
of one line.
-/

namespace ArchiveScript.Printing

/-- A content that ends where its line ends. -/
structure OneLine (content : List Char) : Prop where
  feed : '\n' ∉ content
  last : content.getLast? ≠ some '\r'

instance (content : List Char) : Decidable (OneLine content) :=
  decidable_of_iff ('\n' ∉ content ∧ content.getLast? ≠ some '\r')
    ⟨fun h => ⟨h.1, h.2⟩, fun h => ⟨h.feed, h.last⟩⟩

namespace OneLine

variable {first second : List Char}

theorem of_forall (h : ∀ c ∈ first, c ≠ '\n' ∧ c ≠ '\r') : OneLine first :=
  ⟨fun hm => (h _ hm).1 rfl, fun hl => (h _ (List.mem_of_getLast? hl)).2 rfl⟩

theorem append (hf : OneLine first) (hs : OneLine second) : OneLine (first ++ second) := by
  refine ⟨fun hm => (List.mem_append.1 hm).elim hf.feed hs.feed, fun hl => ?_⟩
  rw [List.getLast?_append, Option.or_eq_some_iff] at hl
  rcases hl with hl | ⟨_, hl⟩
  · exact hs.last hl
  · exact hf.last hl

theorem cons {c : Char} (hc : c ≠ '\n' ∧ c ≠ '\r') (h : OneLine first) : OneLine (c :: first) :=
  (of_forall (List.forall_mem_singleton.2 hc)).append h

theorem after (hf : '\n' ∉ first) (hs : OneLine second) (hn : second ≠ []) :
    OneLine (first ++ second) := by
  refine ⟨fun hm => (List.mem_append.1 hm).elim hf hs.feed, fun hl => ?_⟩
  rw [List.getLast?_append, Option.or_eq_some_iff] at hl
  rcases hl with hl | ⟨hl, _⟩
  · exact hs.last hl
  · exact hn (List.getLast?_eq_none_iff.1 hl)

end OneLine

section Phrases

theorem NameOf.oneLine {part : Char → Bool} (name : NameOf part)
    (hp : ∀ c, part c = true → c ≠ '\n' ∧ c ≠ '\r') : OneLine name.print := by
  refine .of_forall (List.forall_mem_cons.2 ⟨?_, fun c hc => hp c (name.isPart c hc)⟩)
  have hs := name.isStart
  constructor <;> intro he <;> rw [he] at hs <;> exact absurd hs (by decide)

theorem Name.oneLine (name : Name) : OneLine name.print :=
  NameOf.oneLine name fun c hc => by
    constructor <;> rintro rfl <;> exact absurd hc (by decide)

theorem Key.oneLine (key : Key) : OneLine key.print :=
  NameOf.oneLine key fun c hc => by
    constructor <;> rintro rfl <;> exact absurd hc (by decide)

theorem Digits.oneLine (digits : Digits) : OneLine digits.print :=
  .of_forall fun c hc => by
    have hd := digits.isDigit c hc
    constructor <;> rintro rfl <;> exact absurd hd (by decide)

theorem Escape.oneLine (escape : Escape) : OneLine escape.print := by
  cases escape with
  | simple c h =>
    refine .cons (by decide) (.of_forall (List.forall_mem_singleton.2 ?_))
    constructor <;> rintro rfl <;> exact absurd h (by decide)
  | unicode digits h hn hl =>
    refine .cons (by decide) (.cons (by decide) (.cons (by decide) (.append ?_ (by decide))))
    refine .of_forall fun c hc => ?_
    have hx := h c hc
    constructor <;> rintro rfl <;> exact absurd hx (by decide)

theorem Literal.feed_notMem (literal : Literal) : '\n' ∉ literal.chars := fun hm =>
  (literal.plain _ hm).2.2 rfl

theorem margin_oneLine {margin : List Char} (hm : ∀ c ∈ margin, Text.isIndent c = true) :
    OneLine margin :=
  .of_forall fun c hc => by
    have hi := hm c hc
    constructor <;> rintro rfl <;> exact absurd hi (by decide)

mutual

theorem Basic.Written.oneLine {basic : Basic} {code : List Char} (h : basic.Written code) :
    OneLine code := by
  match h with
  | @Basic.Written.string literal _ _ h =>
    exact .cons (by decide) (.after literal.feed_notMem h.oneLine
      (List.ne_nil_of_length_pos h.length_pos))
  | .integer true digits => exact .cons (by decide) digits.oneLine
  | .integer false digits => exact digits.oneLine
  | .name word => exact Name.oneLine word
  | .operation h word => exact h.oneLine.append (.cons (by decide) (Name.oneLine word))

theorem Pieces.Written.oneLine {pieces : Pieces} {code : List Char} (h : pieces.Written code) :
    OneLine code := by
  match h with
  | .done => decide
  | .escape escape literal h =>
    exact escape.oneLine.append (.after literal.feed_notMem h.oneLine
      (List.ne_nil_of_length_pos h.length_pos))
  | .interpolation hb hv ha literal h =>
    refine .cons (by decide) (.cons (by decide) ((margin_oneLine hb).append (hv.oneLine.append ?_)))
    refine (margin_oneLine ha).append (.cons (by decide) ?_)
    exact .after literal.feed_notMem h.oneLine (List.ne_nil_of_length_pos h.length_pos)

end

theorem Basic.oneLine (basic : Basic) : OneLine basic.print :=
  basic.written_print.oneLine

theorem Comparison.oneLine (comparison : Comparison) : OneLine comparison.print := by
  have hs : ∀ sign ∈ Expression.comparisonSigns, OneLine sign := by decide
  refine comparison.left.oneLine.append (.cons (by decide) ?_)
  exact (hs _ comparison.isSign).append (.cons (by decide) comparison.right.oneLine)

theorem Quoted.oneLine (quoted : Option Quoted) : OneLine (Quoted.print quoted) := by
  cases quoted with
  | none => decide
  | some quoted =>
    refine .cons (by decide) (.cons (by decide) (.after ?_ (by decide) (by simp)))
    exact fun hm => (quoted.plain _ hm).2 rfl

end Phrases

section Verbatims

theorem RawLine.oneLine (line : RawLine) : OneLine line.print := by
  induction line with
  | last text h => exact ⟨text.plain, h⟩
  | plain text h value more ih =>
    refine .after text.plain ?_ (by simp)
    exact .cons (by decide) (.cons (by decide) (value.oneLine.append (.cons (by decide) ih)))
  | safe text value more ih =>
    refine .after text.plain (.cons (by decide) ?_) (by simp)
    exact .cons (by decide) (.cons (by decide) (value.oneLine.append (.cons (by decide) ih)))

theorem Raw.oneLine {margin : List Char} (hm : ∀ c ∈ margin, Text.isIndent c = true) (raw : Raw) :
    ∀ content ∈ raw.print margin, OneLine content := by
  cases raw with
  | empty => exact nofun
  | lines first h rest =>
    refine List.forall_mem_cons.2 ⟨(margin_oneLine hm).append first.oneLine, fun content hc => ?_⟩
    obtain ⟨entry, _, hc⟩ := List.mem_flatMap.1 hc
    rcases List.mem_append.1 hc with hc | hc
    · rw [List.eq_of_mem_replicate hc]
      decide
    · rw [List.mem_singleton.1 hc]
      exact (margin_oneLine hm).append entry.line.oneLine

end Verbatims

end ArchiveScript.Printing
