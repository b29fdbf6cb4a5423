import ArchiveScript.Text.Size

/-! # Spans

A span is a half-open range of byte offsets into a script. Nodes, complaints and failures carry
one, and the diagnostics turn it back into lines.
-/

namespace ArchiveScript

/-- The bytes from `start` up to, but not including, `stop`. -/
structure Span where
  start : Nat
  stop : Nat
  deriving DecidableEq, Repr, Inhabited

namespace Span

/-- No offset of a span is larger. -/
def maxOffset : Nat := 4294967295

/-- The span of a place that has no offset. -/
def nowhere : Span := ⟨0, 0⟩

/-- An empty span. -/
def point (offset : Nat) : Span := ⟨offset, offset⟩

/-- The span between two offsets, or the first of them that is too large for a span. -/
def ofOffsets (start stop : Nat) : Except Nat Span :=
  if start > maxOffset then .error start
  else if stop > maxOffset then .error stop
  else .ok ⟨start, stop⟩

/-- The span between two offsets, or `nowhere` if one of them is too large. -/
def between (start stop : Nat) : Span :=
  match ofOffsets start stop with
  | .ok span => span
  | .error _ => nowhere

/-- Why an offset has no place in a span. -/
def offsetMessage (offset : Nat) : String :=
  s!"offset {offset} does not fit a span (scripts are limited to {maxOffset} bytes)"

/-- The text that the span covers; a span that does not begin and end with a character of the
source covers none. -/
def slice (span : Span) (source : List Char) : List Char :=
  if span.start ≤ span.stop then
    ((Text.dropBytes span.start source).bind (Text.takeBytes (span.stop - span.start))).getD []
  else []

def render (span : Span) : String := s!"{span.start}..{span.stop}"

theorem between_eq {start stop : Nat} (h : start ≤ maxOffset) (h' : stop ≤ maxOffset) :
    between start stop = ⟨start, stop⟩ := by
  simp [between, ofOffsets, Nat.not_lt.2 h, Nat.not_lt.2 h']

theorem slice_append (before text after : List Char) :
    slice ⟨Text.bytes before, Text.bytes before + Text.bytes text⟩ (before ++ (text ++ after)) =
      text := by
  simp [slice, Text.dropBytes_append, Text.takeBytes_append]

theorem slice_empty (offset : Nat) (source : List Char) : slice ⟨offset, offset⟩ source = [] := by
  cases h : Text.dropBytes offset source <;> simp [slice, h, Text.takeBytes]

theorem slice_nowhere (source : List Char) : nowhere.slice source = [] := slice_empty 0 source

theorem between_eq_nowhere (start : Nat) {stop : Nat} (h : maxOffset < stop) :
    between start stop = nowhere := by
  unfold between ofOffsets
  by_cases hs : start > maxOffset
  · rw [if_pos hs]
  · rw [if_neg hs, if_pos h]

theorem stop_between_le_max (start stop : Nat) : (between start stop).stop ≤ maxOffset := by
  rcases Nat.lt_or_ge maxOffset stop with h | h
  · rw [between_eq_nowhere start h]
    exact Nat.zero_le _
  · rcases Nat.lt_or_ge maxOffset start with h' | h'
    · simp [between, ofOffsets, h', nowhere]
    · rwa [between_eq h' h]

end Span

end ArchiveScript
