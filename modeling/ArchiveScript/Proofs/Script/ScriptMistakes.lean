import Mathlib
import ArchiveScript.Proofs.Script.BlockAccounts
import ArchiveScript.Proofs.Script.LineAgreement

/-! # Mistakes of scripts

Each mistake of a script is about one of its items and on a line of it, unless a repeated field has
an empty block. Its span can be sliced, unless it cuts an unknown escape.
-/

namespace ArchiveScript

variable {line : Line}

/-- A span on a line of a script starts on the numbered line of the source for it. -/
theorem Line.Holds.lineOf_start {source : List Char} (h : Text.bytes source ≤ Span.maxOffset)
    {index : Nat} (hl : (Line.split source)[index]? = some line) {span : Span}
    (hh : line.Holds span) : (LineTable.ofText source).lineOf span.start = index + 1 := by
  have hnext := (Line.within_of_split hl).next_boundary.le
  obtain ⟨hstart, hstop⟩ := hh (Nat.le_trans hnext h)
  exact Line.lineOf_split h hl hstart (.inl hstop)

/-- A mistake of a script is about one of its items. -/
theorem parse_mistakes_blame_items (source : List Char) :
    ∀ mistake ∈ (parse source).mistakes, Blames (Line.split source) mistake := by
  obtain ⟨_, -, -, hnotes⟩ := parse_accounts source
  exact fun mistake hm => (hnotes mistake hm).blames .start (List.suffix_refl _)

def openBranch : List Char := "If \"a\" == \"a\":\n    Nop\nElse\n".toList

theorem parse_mistakes_blame_items_branch :
    (parse openBranch).mistakes =
        [⟨.expectedSign ":", ⟨27, 27⟩⟩, ⟨.looseElse, ⟨23, 27⟩⟩] ∧
      Blames (Line.split openBranch) ⟨.expectedSign ":", ⟨27, 27⟩⟩ ∧
      Blames (Line.split openBranch) ⟨.looseElse, ⟨23, 27⟩⟩ := by
  have hm : (parse openBranch).mistakes =
      [⟨.expectedSign ":", ⟨27, 27⟩⟩, ⟨.looseElse, ⟨23, 27⟩⟩] := by cbv
  have hblames := parse_mistakes_blame_items openBranch
  rw [hm, List.forall_mem_cons, List.forall_mem_singleton] at hblames
  exact ⟨hm, hblames⟩

/-- Metadata that gives a field twice, the second time with an empty verbatim block. -/
def repeatedName : List Char :=
  "SIARD metadata for c:\n    dbname: \"a\"\n    dbname:\nNop\n".toList

/-- The mistake that a field is repeated can be on the line of the statement after the metadata,
which is not a line of the metadata. -/
theorem repeated_field_blames_next_statement :
    let metadata : Line := ⟨0, [], "SIARD metadata for c:".toList, ['\n']⟩
    let field : Line := ⟨22, "    ".toList, "dbname: \"a\"".toList, ['\n']⟩
    let again : Line := ⟨38, "    ".toList, "dbname:".toList, ['\n']⟩
    let nop : Line := ⟨50, [], "Nop".toList, ['\n']⟩
    Line.split repeatedName = [metadata, field, again, nop] ∧
      (parse repeatedName).mistakes = [⟨.repeatedField .dbname, ⟨50, 50⟩⟩] ∧
      (LineTable.ofText repeatedName).lineOf 50 = 4 ∧
      Diagnostic.render (.ofText repeatedName)
          ⟨(Complaint.repeatedField .dbname).message, some ⟨50, 50⟩⟩ =
        "'dbname' is given more than once\n4:\tNop\n" ∧
      nop.Holds ⟨50, 50⟩ ∧
      ∀ line, metadata.InItem [field, again, nop] line → ¬ line.Holds ⟨50, 50⟩ := by
  intro metadata field again nop
  have hsplit : Line.split repeatedName = [metadata, field, again, nop] := by decide +kernel
  have hnop : nop.Holds ⟨50, 50⟩ := fun _ => by decide
  have hshort : Text.bytes repeatedName ≤ Span.maxOffset := by decide +kernel
  have hlast : (Line.split repeatedName)[3]? = some nop := by
    rw [hsplit]
    rfl
  refine ⟨hsplit, by cbv, hnop.lineOf_start hshort hlast, by decide +kernel, hnop, ?_⟩
  have hmetadata : ¬ metadata.Holds ⟨50, 50⟩ := fun h => absurd (h (by decide)) (by decide)
  have hfield : ¬ field.Holds ⟨50, 50⟩ := fun h => absurd (h (by decide)) (by decide)
  have hagain : ¬ again.Holds ⟨50, 50⟩ := fun h => absurd (h (by decide)) (by decide)
  rintro line (rfl | ⟨after, hdeep, between, hl, -⟩)
  · exact hmetadata
  · have hm : line ∈ [field, again, nop] := hl ▸ List.mem_append_right _ List.mem_cons_self
    simp only [List.mem_cons, List.not_mem_nil, or_false] at hm
    rcases hm with rfl | rfl | rfl
    · exact hfield
    · exact hagain
    · exact absurd hdeep (by decide)

/-- The span of a mistake is a part of the source that begins with a character. It ends with one,
too, unless the mistake is about an unknown escape of a character of more than one byte. -/
theorem mistake_spans_sliceable (source : List Char) (h : Text.bytes source < 2 ^ 32) :
    ∀ mistake ∈ (parse source).mistakes, mistake.span.start ≤ mistake.span.stop ∧
      mistake.span.stop ≤ Text.bytes source ∧ Text.Boundary source mistake.span.start ∧
      (Text.Boundary source mistake.span.stop ↔ ¬ mistake.CutsEscape source) := by
  intro mistake hm
  obtain ⟨_, -, -, hnotes⟩ := parse_accounts source
  obtain ⟨hle, hin, hstart, hstop⟩ := (hnotes mistake hm).cites source 0 (Nat.le_of_lt_succ h)
    (Line.split_follow source)
  refine ⟨hle, hin, hstart, fun hboundary hcut => hcut.not_boundary hboundary, fun hwhole => ?_⟩
  exact hstop.resolve_right hwhole

/-- A string with an unknown escape of one byte, and one with an unknown escape of two. -/
def unknownEscapes : List Char := "Log \"\\q\"\nLog \"\\é\"\n".toList

theorem unknownEscapes_mistakes :
    (parse unknownEscapes).mistakes = [⟨.unknownEscape, ⟨5, 7⟩⟩, ⟨.unknownEscape, ⟨14, 16⟩⟩] := by
  decide +kernel

theorem unknownEscapes_cut :
    Mistake.CutsEscape unknownEscapes ⟨.unknownEscape, ⟨14, 16⟩⟩ :=
  ⟨rfl, rfl, "Log \"\\q\"\nLog \"".toList, 'é', "\"\n".toList, by decide, by decide, by decide⟩

theorem mistake_spans_sliceable_escapes :
    Text.bytes unknownEscapes < 2 ^ 32 ∧ Text.Boundary unknownEscapes 14 ∧
      ¬ Text.Boundary unknownEscapes 16 := by
  have hshort : Text.bytes unknownEscapes < 2 ^ 32 := by decide
  have hall := mistake_spans_sliceable unknownEscapes hshort
  rw [unknownEscapes_mistakes, List.forall_mem_cons, List.forall_mem_singleton] at hall
  obtain ⟨-, -, -, hstart, hstop⟩ := hall
  exact ⟨hshort, hstart, fun h => hstop.1 h unknownEscapes_cut⟩

/-- The span of an unknown escape may end inside of a character, and then it covers no text. -/
theorem unknown_escape_not_sliceable :
    Span.slice ⟨14, 16⟩ unknownEscapes = [] ∧
      ¬ ∀ source, Text.bytes source < 2 ^ 32 → ∀ mistake ∈ (parse source).mistakes,
        mistake.span.start ≤ mistake.span.stop ∧ mistake.span.stop ≤ Text.bytes source ∧
          Text.Boundary source mistake.span.start ∧ Text.Boundary source mistake.span.stop := by
  refine ⟨by decide +kernel, fun hclaim => ?_⟩
  have hall := hclaim unknownEscapes (by decide)
  rw [unknownEscapes_mistakes, List.forall_mem_cons, List.forall_mem_singleton] at hall
  exact unknownEscapes_cut.not_boundary hall.2.2.2.2

end ArchiveScript
