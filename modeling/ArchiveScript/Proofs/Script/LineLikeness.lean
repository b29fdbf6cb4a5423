import ArchiveScript.Proofs.Script.LineSpans
import ArchiveScript.Proofs.Tree.Alike

/-! # Lines in two layouts

A line is scanned for its characters, wherever they are. Two scans of the same characters pass
over the same, and they complain alike.
-/

namespace ArchiveScript

variable {L : Likeness} {closing : List Line} {line line' : Line} {α β α' β' : Type}

structure Mistake.Alike (L : Likeness) (mistake mistake' : Mistake) : Prop where
  complaint : mistake'.complaint = mistake.complaint
  span : mistake.span.Alike L mistake'.span

namespace Line

/-- The line has the same text in both layouts, but for the margin that all lines have in the
second one. -/
structure Alike (L : Likeness) (line line' : Line) : Prop where
  margin : line'.margin = L.margin ++ line.margin
  body : line'.body = line.body
  start : L.offset line.start line'.start
  offset : ∀ n ≤ Text.bytes line.margin + Text.bytes line.body,
    L.offset (line.start + n) (line'.start + Text.bytes L.margin + n)
  next : L.offset line.next line'.next
  literal : ∀ run, run <:+ line.margin ++ line.body →
    L.literal (run ++ line.ending) (run ++ line'.ending)
  covers : ∀ before text after, line.whole = before ++ (text ++ after) →
    L.covers (line.start + Text.bytes before) text

abbrev AllAlike (L : Likeness) : List Line → List Line → Prop := List.Forall₂ (Alike L)

/-- No block goes on behind these lines: the first of them carries an item that stands at the
margin and is no branch of a conditional above it. -/
def Closes (closing : List Line) : Prop :=
  ∀ line ∈ closing.head?, line.isIdle = false ∧ line.indent = 0 ∧
    line.scan.eatWord? "Else".toList = none

namespace Alike

theorem indent (h : line.Alike L line') : line'.indent = L.margin.length + line.indent := by
  rw [Line.indent, h.margin, List.length_append, Line.indent]

theorem bodyStart (h : line.Alike L line') :
    line'.bodyStart = line'.start + Text.bytes L.margin + Text.bytes line.margin := by
  rw [Line.bodyStart, h.margin, Text.bytes_append, Nat.add_assoc]

theorem isEmpty (h : line.Alike L line') : line'.isEmpty = line.isEmpty := by
  rw [Line.isEmpty, h.body, Line.isEmpty]

theorem isIdle (h : line.Alike L line') : line'.isIdle = line.isIdle := by
  rw [Line.isIdle, Line.isIdle, h.isEmpty, isComment, isComment, h.body]

end Alike

namespace AllAlike

variable {lines lines' : List Line}

theorem dropWhile (h : AllAlike L lines lines') {p : Line → Bool} {p' : Line → Bool}
    (hp : ∀ line line', line.Alike L line' → p' line' = p line) :
    AllAlike L (lines.dropWhile p) (lines'.dropWhile p') := by
  induction h with
  | nil => exact .nil
  | cons hl hr ih =>
    rw [List.dropWhile_cons, List.dropWhile_cons, hp _ _ hl]
    split
    · exact ih
    · exact .cons hl hr

theorem takeWhile (h : AllAlike L lines lines') {p : Line → Bool} {p' : Line → Bool}
    (hp : ∀ line line', line.Alike L line' → p' line' = p line) :
    AllAlike L (lines.takeWhile p) (lines'.takeWhile p') := by
  induction h with
  | nil => exact .nil
  | cons hl hr ih =>
    rw [List.takeWhile_cons, List.takeWhile_cons, hp _ _ hl]
    split
    · exact .cons hl ih
    · exact .nil

end AllAlike

theorem closes_nil : Closes [] := fun _ h => by cases h

/-- Lines that a condition passes over end before the closing lines. -/
theorem dropWhile_closing {p : Line → Bool} (hp : ∀ line ∈ closing.head?, p line = false)
    (lines : List Line) : (lines ++ closing).dropWhile p = lines.dropWhile p ++ closing := by
  have hc : closing.dropWhile p = closing := by
    cases closing with
    | nil => rfl
    | cons line rest => rw [List.dropWhile_cons, hp line rfl, if_neg Bool.false_ne_true]
  rw [List.dropWhile_append]
  split
  · rename_i h
    rw [hc, List.isEmpty_iff.1 h, List.nil_append]
  · rfl

theorem takeWhile_closing {p : Line → Bool} (hp : ∀ line ∈ closing.head?, p line = false)
    (lines : List Line) : (lines ++ closing).takeWhile p = lines.takeWhile p := by
  have hc : closing.takeWhile p = [] := by
    cases closing with
    | nil => rfl
    | cons line rest => rw [List.takeWhile_cons, hp line rfl, if_neg Bool.false_ne_true]
  rw [List.takeWhile_append]
  split
  · rename_i h
    have hall : lines.takeWhile p = lines := (List.takeWhile_prefix p).eq_of_length h
    rw [hc, List.append_nil, hall]
  · rfl

end Line

namespace Scan

/-- The same characters of two lines that are alike are left. -/
structure Alike (L : Likeness) (line line' : Line) (s s' : Scan) : Prop where
  lines : line.Alike L line'
  rest : s'.rest = s.rest
  suffix : s.rest <:+ line.margin ++ line.body
  limit_eq : s.limit = line.stop
  limit_eq' : s'.limit = line'.stop

namespace Alike

variable {s s' : Scan}

theorem offset (h : s.Alike L line line' s') {m : Nat} (hm : m ≤ Text.bytes s.rest) :
    L.offset (s.pos + m) (s'.pos + m) := by
  obtain ⟨before, hb⟩ := h.suffix
  have hbytes := congrArg Text.bytes hb
  have hlimit := h.limit_eq
  have hlimit' := h.limit_eq'
  have hbody := h.lines.bodyStart
  rw [Text.bytes_append, Text.bytes_append] at hbytes
  simp only [Scan.limit, h.rest, Line.stop, Line.bodyStart, h.lines.body] at hlimit hlimit' hbody
  have ho := h.lines.offset (Text.bytes before + m) (by omega)
  have hp : s.pos + m = line.start + (Text.bytes before + m) := by omega
  have hp' : s'.pos + m = line'.start + Text.bytes L.margin + (Text.bytes before + m) := by omega
  rwa [hp, hp']

theorem pos (h : s.Alike L line line' s') : L.offset s.pos s'.pos := h.offset (Nat.zero_le _)

theorem limit (h : s.Alike L line line' s') : L.offset s.limit s'.limit := by
  have ho := h.offset (Nat.le_refl _)
  rwa [Scan.limit, Scan.limit, h.rest]

theorem point (h : s.Alike L line line' s') : s.point.Alike L s'.point :=
  Span.alike_between h.pos h.pos

theorem restSpan (h : s.Alike L line line' s') : s.restSpan.Alike L s'.restSpan :=
  Span.alike_between h.pos h.limit

theorem skip (h : s.Alike L line line' s') (n : Nat) :
    (s.skip n).Alike L line line' (s'.skip n) := by
  constructor
  · exact h.lines
  · rw [rest_skip, rest_skip, h.rest]
  · exact (List.drop_suffix n s.rest).trans h.suffix
  · rw [limit_skip, h.limit_eq]
  · rw [limit_skip, h.limit_eq']

theorem skipWhile (h : s.Alike L line line' s') (p : Char → Bool) :
    (s.skipWhile p).Alike L line line' (s'.skipWhile p) := by
  constructor
  · exact h.lines
  · rw [rest_skipWhile, rest_skipWhile, h.rest]
  · exact (List.dropWhile_suffix p).trans h.suffix
  · rw [limit_skipWhile, h.limit_eq]
  · rw [limit_skipWhile, h.limit_eq']

theorem skipBlanks (h : s.Alike L line line' s') :
    s.skipBlanks.Alike L line line' s'.skipBlanks :=
  h.skipWhile _

theorem eat?_cases (h : s.Alike L line line' s') (sign : List Char) :
    s.eat? sign = none ∧ s'.eat? sign = none ∨
      ∃ rest rest', s.eat? sign = some rest ∧ s'.eat? sign = some rest' ∧
        rest.Alike L line line' rest' := by
  unfold eat?
  rw [h.rest]
  split
  · exact .inr ⟨_, _, rfl, rfl, h.skip _⟩
  · exact .inl ⟨rfl, rfl⟩

theorem eatWord?_cases (h : s.Alike L line line' s') (word : List Char) :
    s.eatWord? word = none ∧ s'.eatWord? word = none ∨
      ∃ rest rest', s.eatWord? word = some rest ∧ s'.eatWord? word = some rest' ∧
        rest.Alike L line line' rest' := by
  unfold eatWord? atWord
  rw [h.rest]
  split
  · exact .inr ⟨_, _, rfl, rfl, h.skip _⟩
  · exact .inl ⟨rfl, rfl⟩

theorem firstWord_cases (h : s.Alike L line line' s') (f : α → Scan → β)
    (f' : α' → Scan → β') {R : β → β' → Prop} {words : List (String × α)}
    {words' : List (String × α')}
    (hw : List.Forall₂ (fun word word' => word'.1 = word.1 ∧
      ∀ rest rest', rest.Alike L line line' rest' → R (f word.2 rest) (f' word'.2 rest'))
      words words') :
    (words.findSome? fun word => (s.eatWord? word.1.toList).map (f word.2)) = none ∧
        (words'.findSome? fun word => (s'.eatWord? word.1.toList).map (f' word.2)) = none ∨
      ∃ b b', (words.findSome? fun word => (s.eatWord? word.1.toList).map (f word.2)) = some b ∧
        (words'.findSome? fun word => (s'.eatWord? word.1.toList).map (f' word.2)) = some b' ∧
        R b b' := by
  induction hw with
  | nil => exact .inl ⟨rfl, rfl⟩
  | @cons word word' _ _ hword _ ih =>
    obtain ⟨hword, hr⟩ := hword
    rw [List.findSome?_cons, List.findSome?_cons, hword]
    rcases h.eatWord?_cases word.1.toList with ⟨he, he'⟩ | ⟨rest, rest', he, he', ha⟩
    · simpa only [he, he', Option.map_none] using ih
    · simp only [he, he', Option.map_some]
      exact .inr ⟨_, _, rfl, rfl, hr _ _ ha⟩

theorem nameOf?_cases (h : s.Alike L line line' s') (part : Char → Bool) :
    s.nameOf? part = none ∧ s'.nameOf? part = none ∨
      ∃ name rest rest', s.nameOf? part = some (name, rest) ∧
        s'.nameOf? part = some (name, rest') ∧ name <+: s.rest ∧ rest.Alike L line line' rest' := by
  unfold nameOf?
  rw [h.rest]
  split
  · exact .inr ⟨_, _, _, rfl, rfl, List.takeWhile_prefix part, h.skipWhile part⟩
  · exact .inl ⟨rfl, rfl⟩

theorem offset_of_prefix (h : s.Alike L line line' s') {text : List Char} (ht : text <+: s.rest) :
    L.offset (s.pos + Text.bytes text) (s'.pos + Text.bytes text) := by
  obtain ⟨rest, hr⟩ := ht
  apply h.offset
  rw [← hr, Text.bytes_append]
  exact Nat.le_add_right _ _

/-- A text within the line stands where the scan is. -/
theorem covers (h : s.Alike L line line' s') {text after : List Char}
    (ht : s.rest ++ line.ending = text ++ after) : L.covers s.pos text := by
  obtain ⟨before, hb⟩ := h.suffix
  have hbytes := congrArg Text.bytes hb
  have hlimit := h.limit_eq
  rw [Text.bytes_append, Text.bytes_append] at hbytes
  simp only [Scan.limit, Line.stop, Line.bodyStart] at hlimit
  have hpos : s.pos = line.start + Text.bytes before := by omega
  rw [hpos]
  apply h.lines.covers before text after
  rw [Line.whole, ← hb, List.append_assoc, ht]

theorem piece (h : s.Alike L line line' s') {text : List Char} (ht : text <+: s.rest)
    {kind : Kind} : L.Piece kind s.pos s'.pos text text := by
  obtain ⟨rest, hr⟩ := ht
  refine ⟨h.pos, h.offset_of_prefix ⟨rest, hr⟩, fun _ => rfl, L.literal_refl text, ?_⟩
  have hw : s.rest ++ line.ending = text ++ (rest ++ line.ending) := by
    rw [← hr, List.append_assoc]
  exact h.covers hw

theorem piece_ending (h : s.Alike L line line' s') :
    L.Piece .rawContent s.pos s'.pos (s.rest ++ line.ending) (s.rest ++ line'.ending) := by
  refine ⟨h.pos, ?_, fun hk => absurd rfl hk, h.lines.literal _ h.suffix, ?_⟩
  · have hlimit := h.limit_eq
    have hlimit' := h.limit_eq'
    have hn := h.lines.next
    rw [Scan.limit, h.rest] at hlimit'
    simp only [Scan.limit, Line.next, Text.bytes_append] at hlimit hn ⊢
    rwa [← Nat.add_assoc, ← Nat.add_assoc, hlimit, hlimit']
  · exact h.covers (List.append_nil _).symm

end Alike

end Scan

namespace Line.Alike

theorem scan(h : line.Alike L line') : line.scan.Alike L line line' line'.scan :=
  ⟨h, h.body, List.suffix_append _ _, rfl, rfl⟩

theorem bodyStart_offset (h : line.Alike L line') : L.offset line.bodyStart line'.bodyStart :=
  h.scan.pos

theorem trimmedStop (h : line.Alike L line') : L.offset line.trimmedStop line'.trimmedStop := by
  have ho := h.scan.offset_of_prefix (Text.trimEnd_prefix line.body)
  rwa [Line.trimmedStop, Line.trimmedStop, h.body]

theorem stop (h : line.Alike L line') : L.offset line.stop line'.stop := by
  have ho := h.scan.limit
  rwa [Scan.limit, Scan.limit, Line.scan, Line.scan] at ho

end Line.Alike

section Exact

variable [L.Exact]

theorem Mistake.Alike.eq {mistake mistake' : Mistake} (h : mistake.Alike L mistake') :
    mistake' = mistake := by
  obtain ⟨complaint, span⟩ := mistake
  obtain ⟨complaint', span'⟩ := mistake'
  obtain rfl : complaint' = complaint := h.complaint
  obtain rfl : span' = span := h.span.eq
  rfl

theorem Mistake.all_eq {mistakes mistakes' : List Mistake}
    (h : List.Forall₂ (Mistake.Alike L) mistakes mistakes') : mistakes' = mistakes := by
  induction h with
  | nil => rfl
  | cons hm _ ih => rw [hm.eq, ih]

theorem Line.Alike.eq {line line' : Line} (h : line.Alike L line') : line' = line := by
  obtain ⟨start, margin, body, ending⟩ := line
  obtain ⟨start', margin', body', ending'⟩ := line'
  obtain rfl : margin' = margin := by
    have hm := h.margin
    rwa [Likeness.Exact.margin, List.nil_append] at hm
  obtain rfl : body' = body := h.body
  obtain rfl : start' = start := Likeness.Exact.offset h.start
  obtain rfl : ending' = ending := Likeness.Exact.literal (h.literal [] List.nil_suffix)
  rfl

theorem Line.AllAlike.eq {lines lines' : List Line} (h : AllAlike L lines lines') :
    lines' = lines := by
  induction h with
  | nil => rfl
  | cons hl _ ih => rw [hl.eq, ih]

end Exact

end ArchiveScript
