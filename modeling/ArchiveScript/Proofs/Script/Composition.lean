import Mathlib
import ArchiveScript.Proofs.Script.Layouts

/-! # Scripts one after the other

A script that begins with a statement at the margin is read the same way wherever it stands. So a
text of two scripts is read as the first one, whatever cannot be read in it, and then the second
one, at the offsets that it has there.
-/

namespace ArchiveScript

def Span.shift (d : Nat) (span : Span) : Span := ⟨span.start + d, span.stop + d⟩

def Mistake.shift (d : Nat) (mistake : Mistake) : Mistake :=
  ⟨mistake.complaint, mistake.span.shift d⟩

namespace Node

mutual

/-- The tree of the same text, `d` bytes further. -/
def shift (d : Nat) : Node → Node
  | mk kind span text children => mk kind (span.shift d) text (shifts d children)

def shifts (d : Nat) : List (Option Field × Node) → List (Option Field × Node)
  | [] => []
  | (place, child) :: rest => (place, child.shift d) :: shifts d rest

end

end Node

/-- The same text, `d` bytes further, where all offsets have a place in a span. -/
def Likeness.shift (d : Nat) : Likeness :=
  .ofOffsets (fun a b => b = a + d ∧ b ≤ Span.maxOffset) [] True
    (by
      rintro a b c e ⟨rfl, h⟩ ⟨rfl, h'⟩
      omega)
    (by
      rintro a b c e ⟨rfl, h⟩ ⟨rfl, h'⟩
      rw [Span.between_eq h h', Span.between_eq (by omega) (by omega)]
      exact ⟨rfl, h⟩)
    (by
      rintro a b c e ⟨rfl, h⟩ ⟨rfl, h'⟩
      rw [Span.between_eq h h', Span.between_eq (by omega) (by omega)]
      exact ⟨rfl, h'⟩)

/-- The same text at the same offsets, however large they are. -/
def Likeness.same : Likeness :=
  .ofOffsets Eq [] True (fun h h' => h ▸ h' ▸ rfl) (fun h h' => h ▸ h' ▸ rfl)
    (fun h h' => h ▸ h' ▸ rfl)

instance {d : Nat} : (Likeness.shift d).Reaches := by
  constructor
  rintro - a b ⟨rfl, h⟩
  omega

instance : Likeness.same.Reaches := ⟨fun _ _ _ h => h ▸ Iff.rfl⟩

instance : Likeness.same.Exact := ⟨Eq.symm, id, rfl, trivial⟩

variable {d : Nat} {L : Likeness}

theorem Span.Alike.eq_shift {span span' : Span} (h : span.Alike (.shift d) span') :
    span' = span.shift d := by
  obtain ⟨start, stop⟩ := span
  obtain ⟨start', stop'⟩ := span'
  obtain ⟨⟨rfl, _⟩, ⟨rfl, _⟩⟩ := h
  rfl

theorem Mistake.Alike.eq_shift {mistake mistake' : Mistake}
    (h : mistake.Alike (.shift d) mistake') : mistake' = mistake.shift d := by
  obtain ⟨complaint, span⟩ := mistake
  obtain ⟨complaint', span'⟩ := mistake'
  obtain ⟨hc, hs⟩ := h
  obtain rfl : complaint' = complaint := hc
  rw [Mistake.shift, ← hs.eq_shift]

mutual

theorem Node.Alike.eq_shift {node node' : Node} :
    Node.Alike (.shift d) node node' → node' = node.shift d
  | .mk hs ht hc => by
    rw [Node.shift, ← hs.eq_shift, ← hc.eq_shifts, String.toList_injective (ht trivial).literal]

theorem Node.AllAlike.eq_shifts {children children' : List (Option Field × Node)} :
    Node.AllAlike (.shift d) children children' → children' = Node.shifts d children
  | .nil => rfl
  | .cons _ hc hr => by rw [Node.shifts, ← hc.eq_shift, ← hr.eq_shifts]

end

namespace Line

theorem ofContent_at (start : Nat) (content feed : List Char) :
    ofContent start content feed = { ofContent 0 content feed with start } := by
  unfold ofContent
  split
  rfl

theorem ofContent_alike {start : Nat} {content feed : List Char}
    (h : start + Text.bytes (content ++ feed) + d ≤ Span.maxOffset) :
    (ofContent start content feed).Alike (.shift d) (ofContent (start + d) content feed) := by
  have hbytes := congrArg Text.bytes (whole_ofContent 0 content feed)
  have hnext := next_ofContent start content feed
  have hnext' := next_ofContent (start + d) content feed
  rw [ofContent_at] at hnext hnext' ⊢
  rw [ofContent_at (start + d)]
  rw [whole, Text.bytes_append, Text.bytes_append] at hbytes
  constructor
  · rfl
  · rfl
  · exact ⟨rfl, by dsimp only; omega⟩
  · intro n hn
    dsimp only at hn ⊢
    constructor
    · change start + d + 0 + n = start + n + d
      omega
    · change start + d + 0 + n ≤ Span.maxOffset
      omega
  · rw [hnext, hnext']
    exact ⟨by omega, by omega⟩
  · exact fun _ _ => rfl
  · exact fun _ _ _ _ => trivial

theorem splitFrom_alike {start : Nat} {content rest : List Char}
    (h : start + Text.bytes (content.reverse ++ rest) + d ≤ Span.maxOffset) :
    AllAlike (.shift d) (splitFrom start content rest) (splitFrom (start + d) content rest) := by
  induction rest generalizing start content with
  | nil =>
    unfold splitFrom
    split
    · exact .nil
    · exact .cons (ofContent_alike h) .nil
  | cons c rest ih =>
    by_cases hc : c = '\n'
    · subst hc
      have hshift : start + d + Text.bytes (content.reverse ++ ['\n']) =
          start + Text.bytes (content.reverse ++ ['\n']) + d := by omega
      simp only [Text.bytes_append, Text.bytes_cons] at h
      rw [splitFrom_feed, splitFrom_feed, hshift]
      constructor
      · apply ofContent_alike
        simp only [Text.bytes_append, Text.bytes_cons, Text.bytes_nil]
        omega
      · apply ih
        simp only [Text.bytes_append, Text.bytes_cons, Text.bytes_nil, List.reverse_nil]
        omega
    · rw [splitFrom_char hc, splitFrom_char hc]
      apply ih
      rw [List.reverse_cons, List.append_assoc]
      exact h

/-- The lines of two texts are those of each of them if the first one ends with a line. -/
theorem splitFrom_append {start : Nat} {content first second : List Char}
    (h : content = [] ∧ first = [] ∨ first.getLast? = some '\n') :
    splitFrom start content (first ++ second) = splitFrom start content first ++
      splitFrom (start + Text.bytes (content.reverse ++ first)) [] second := by
  induction first generalizing start content with
  | nil =>
    obtain rfl : content = [] := by simpa using h
    simp [splitFrom]
  | cons c first ih =>
    have hlast : (c :: first).getLast? = some '\n' := by simpa using h
    rw [List.cons_append]
    by_cases hc : c = '\n'
    · subst hc
      have hf : first = [] ∨ first.getLast? = some '\n' := by
        cases first with
        | nil => exact .inl rfl
        | cons c' first => exact .inr (by simpa using hlast)
      have hstart : start + Text.bytes (content.reverse ++ '\n' :: first) =
          start + Text.bytes (content.reverse ++ ['\n']) + Text.bytes ([].reverse ++ first) := by
        simp only [Text.bytes_append, Text.bytes_cons, Text.bytes_nil, List.reverse_nil]
        omega
      rw [splitFrom_feed, splitFrom_feed, ih (by simpa using hf), hstart, List.cons_append]
    · have hf : first.getLast? = some '\n' := by
        cases first with
        | nil => exact absurd (by simpa using hlast) hc
        | cons c' first => simpa using hlast
      rw [splitFrom_char hc, splitFrom_char hc, ih (.inr hf), List.reverse_cons, List.append_assoc,
        List.singleton_append]

theorem split_append {first second : List Char}
    (h : first = [] ∨ first.getLast? = some '\n') :
    split (first ++ second) = split first ++ splitFrom (Text.bytes first) [] second := by
  have hs := @splitFrom_append 0 [] first second (by simpa using h)
  rwa [List.reverse_nil, List.nil_append, Nat.zero_add] at hs

theorem split_alike {source : List Char} (h : Text.bytes source + d ≤ Span.maxOffset) :
    AllAlike (.shift d) (split source) (splitFrom d [] source) := by
  have hs := @splitFrom_alike d 0 [] source (by simpa using h)
  rwa [Nat.zero_add] at hs

end Line

theorem Mistake.eq_shifts {mistakes mistakes' : List Mistake}
    (h : List.Forall₂ (Mistake.Alike (.shift d)) mistakes mistakes') :
    mistakes' = mistakes.map (Mistake.shift d) := by
  induction h with
  | nil => rfl
  | cons hm _ ih => rw [List.map_cons, ← hm.eq_shift, ih]

variable {closing : List Line}

/-- The second passage is the first one, but other lines follow the lines that it leaves. -/
inductive Passage.Extends (closing lines : List Line) {α : Type} : Passage α → Passage α → Prop
  | ok {a : α} {noted : List Mistake} {left : List Line} (hl : left <:+ lines) :
      Extends closing lines ⟨.ok a, noted, left⟩ ⟨.ok a, noted, left ++ closing⟩
  | error {mistake : Mistake} {noted : List Mistake} {left left' : List Line} :
      Extends closing lines ⟨.error mistake, noted, left⟩ ⟨.error mistake, noted, left'⟩

theorem Passage.Meets.eq [L.Exact] {α : Type} {R : α → α → List Line → Prop} {lines : List Line}
    {passage passage' : Passage α} (h : Passage.Meets L closing lines R passage passage')
    (hr : ∀ a a' left, R a a' left → a' = a) : passage.Extends closing lines passage' := by
  cases h with
  | ok ha hn hl hrest =>
    rw [hr _ _ _ ha, Mistake.all_eq hn, hrest.eq]
    exact .ok hl
  | error hm hn =>
    rw [hm.eq, Mistake.all_eq hn]
    exact .error

theorem Line.alike_same (line : Line) : line.Alike .same line :=
  ⟨rfl, rfl, rfl, fun _ _ => rfl, rfl, fun _ _ => rfl, fun _ _ _ _ => trivial⟩

theorem Line.allAlike_same (lines : List Line) : AllAlike .same lines lines :=
  List.forall₂_same.2 fun line _ => line.alike_same

theorem Likeness.map_same (expected : Option Nat) :
    expected.map (Likeness.same.margin.length + ·) = expected := by
  cases expected <;> simp [Likeness.same, Likeness.ofOffsets]

theorem blockItems_extends (hc : Line.Closes closing) {lines : List Line} {fuel fuel' : Nat}
    (hf : lines.length < fuel) (hf' : lines.length < fuel') (expected : Option Nat)
    {parent : Option Nat} (hp : parent = none → closing = []) (kind : BlockKind) :
    (blockItems (r := Reader) fuel expected parent kind lines).Extends closing lines
      (blockItems (r := Reader) fuel' expected parent kind (lines ++ closing)) := by
  have hall : (layouts .same closing).Rel lines [] (BuiltAll (Grammar.BlockItem _) [])
      (blockItems fuel expected parent kind) (blockItems fuel' _ _ kind) :=
    blockItems_alike _ hc hf hf' expected hp kind
  have hm := hall lines (Line.allAlike_same lines) (List.forall_mem_nil _)
  rw [Likeness.map_same, Likeness.map_same] at hm
  refine hm.eq ?_
  rintro _ _ _ ⟨_, hn, hi⟩
  exact (Node.AllAlike.of_items hi hn).eq

/-- Fuel for all lines is enough. -/
theorem blockItems_enough {lines : List Line} {fuel fuel' : Nat} (hf : lines.length < fuel)
    (hf' : lines.length < fuel') (expected parent : Option Nat) (kind : BlockKind) :
    blockItems (r := Reader) fuel' expected parent kind lines =
      blockItems (r := Reader) fuel expected parent kind lines := by
  have hp : parent = none → ([] : List Line) = [] := fun _ => rfl
  have h := blockItems_extends Line.closes_nil hf hf' expected hp kind
  obtain ⟨items, hi⟩ := blockItems_ok fuel expected parent kind lines
  rw [List.append_nil] at h
  generalize blockItems (r := Reader) fuel expected parent kind lines = passage at h hi ⊢
  generalize blockItems (r := Reader) fuel' expected parent kind lines = passage' at h ⊢
  cases h with
  | ok _ => rw [List.append_nil]
  | error => cases hi

/-- An item is the same with closing lines behind it, and so are the blocks inside of it. -/
theorem blockItem_extends (hc : Line.Closes closing) {lines : List Line}
    {block block' : BlockReader Reader Node}
    (hb : BlocksAlike (layouts .same closing) lines block block') (kind : BlockKind)
    (line : Line) :
    (blockItem block kind line lines).Extends closing lines
      (blockItem block' kind line (lines ++ closing)) := by
  have hall : (layouts .same closing).Rel lines [] (BuiltAt (Grammar.BlockItem _) []) _ _ :=
    blockItem_alike _ hc hb kind line.alike_same (List.suffix_refl lines)
  refine (hall lines (Line.allAlike_same lines) (List.forall_mem_nil _)).eq ?_
  rintro ⟨place, node⟩ ⟨_, node'⟩ left ⟨now, hn, rfl, _, _, rfl⟩
  have he := (hn _ List.mem_cons_self).1.eq
  exact congrArg _ he

theorem headItem_extends (hc : Line.Closes closing) {lines : List Line} {fuel fuel' : Nat}
    (hf : lines.length < fuel) (hf' : lines.length < fuel') (expected : Option Nat)
    (kind : BlockKind) (line : Line) :
    (headItem (blockItems fuel none) expected kind line lines).Extends closing lines
      (headItem (blockItems fuel' none) expected kind line (lines ++ closing)) := by
  have hb : BlocksAlike (layouts .same closing) lines (blockItems fuel none)
      (blockItems fuel' none) := by
    intro parent kind after held ha
    have hlength := ha.length_le
    have hsome : some parent = none → closing = [] := nofun
    exact blockItems_alike _ hc (by omega) (by omega) none hsome kind
  unfold headItem
  split
  · exact blockItem_extends hc hb kind line
  · exact .error

/-- The items and the mistakes of the first passage, followed by those of the second one. -/
structure Joins (whole first second : Passage (List Child)) : Prop where
  outcome : ∀ items more, first.outcome = .ok items → second.outcome = .ok more →
    whole.outcome = .ok (items ++ more)
  noted : whole.noted = first.noted ++ second.noted

theorem Joins.empty {passage : Passage (List Child)} {left : List Line} :
    Joins passage ⟨.ok [], [], left⟩ passage := by
  constructor
  · intro items more hi hm
    obtain rfl := Except.ok.inj hi
    exact hm
  · rfl

theorem Joins.proceed {items items' : Reader (List Child)} {behind lines : List Line}
    {passage passage' : Passage Child} {second : Passage (List Child)}
    (hp : passage.Extends closing lines passage')
    (hl : ∀ left, left <:+ lines → Joins (items (left ++ closing)) (items' left) second)
    (hb : Joins (items (behind ++ closing)) (items' behind) second) :
    Joins (proceed items (behind ++ closing) passage') (proceed items' behind passage) second := by
  cases hp with
  | @ok child noted left hleft =>
    have hl := hl left hleft
    constructor
    · intro all more ha hm
      change Except.map (child :: ·) (items' left).outcome = .ok all at ha
      change Except.map (child :: ·) (items (left ++ closing)).outcome = _
      cases hr : (items' left).outcome with
      | error mistake =>
        rw [hr] at ha
        cases ha
      | ok rest =>
        rw [hr] at ha
        obtain rfl := Except.ok.inj ha
        rw [hl.outcome rest more hr hm]
        rfl
    · have hn := hl.noted
      dsimp only [ArchiveScript.proceed] at hn ⊢
      rw [hn, List.append_assoc]
  | error =>
    constructor
    · exact hb.outcome
    · have hn := hb.noted
      dsimp only [ArchiveScript.proceed] at hn ⊢
      rw [hn]
      simp

def AtMargin (expected : Option Nat) (lines : List Line) : Prop :=
  expected = some 0 ∨
    expected = none ∧ ∀ line ∈ (lines.dropWhile Line.isIdle).head?, line.indent = 0

theorem AtMargin.blockItems {expected : Option Nat} {lines : List Line}
    (h : AtMargin expected lines) (fuel : Nat) (kind : BlockKind) :
    blockItems (r := Reader) fuel expected none kind lines =
      blockItems (r := Reader) fuel (some 0) none kind lines := by
  rcases h with rfl | ⟨rfl, hi⟩
  · rfl
  · cases fuel with
    | zero => rfl
    | succ fuel =>
      rw [blockItems_succ, blockItems_succ]
      generalize lines.dropWhile Line.isIdle = items at hi ⊢
      cases items with
      | nil => rfl
      | cons line rest =>
        have hz : line.indent = 0 := hi line rfl
        simp [headItem, hz]

/-- The items of lines at the margin, followed by those of lines that no block above them goes on
into. -/
theorem blockItems_joins {second : List Line} (hc : Line.Closes second) {fuel fuel' fuel'' : Nat}
    {first : List Line} (hf : first.length + second.length < fuel) (hf' : first.length < fuel')
    (hf'' : second.length < fuel'') {expected : Option Nat} (hm : AtMargin expected first)
    (kind : BlockKind) :
    Joins (blockItems (r := Reader) fuel expected none kind (first ++ second))
      (blockItems (r := Reader) fuel' expected none kind first)
      (blockItems (r := Reader) fuel'' (some 0) none kind second) := by
  induction fuel generalizing fuel' first expected with
  | zero => exact absurd hf (Nat.not_lt_zero _)
  | succ fuel ih =>
    obtain ⟨fuel', rfl⟩ := Nat.exists_eq_add_one_of_ne_zero (Nat.ne_zero_of_lt hf')
    have hclosed (line : Line) (h : line ∈ second.head?) : line.isIdle = false := (hc line h).1
    have hidle := Line.dropWhile_closing hclosed first
    have hlength := (List.dropWhile_suffix (l := first) Line.isIdle).length_le
    rw [blockItems_succ fuel' expected none kind first]
    cases hx : first.dropWhile Line.isIdle with
    | nil =>
      have hstays : second.dropWhile Line.isIdle = second := Line.dropWhile_closing hclosed []
      have hwhole : blockItems (r := Reader) (fuel + 1) expected none kind (first ++ second) =
          blockItems (r := Reader) (fuel + 1) expected none kind second := by
        rw [blockItems_succ, blockItems_succ, hidle, hx, List.nil_append, hstays]
      have hmargin : AtMargin expected second := by
        rcases hm with h | ⟨h, _⟩
        · exact .inl h
        · rw [AtMargin, hstays]
          exact .inr ⟨h, fun line hl => (hc line hl).2.1⟩
      rw [hwhole, hmargin.blockItems, blockItems_enough hf'' (by omega)]
      exact .empty
    | cons line rest =>
      rw [hx, List.length_cons] at hlength
      have hindent : expected.getD line.indent = 0 := by
        rcases hm with rfl | ⟨rfl, hi⟩
        · rfl
        · rw [hx] at hi
          exact hi line rfl
      have hfuel' : rest.length < fuel' := by omega
      have hfuel : rest.length < fuel := by omega
      have hitem := headItem_extends hc hfuel' hfuel expected kind line
      have hrecover :
          recover line.indent (rest ++ second) = recover line.indent rest ++ second := by
        apply Line.dropWhile_closing
        intro line hl
        obtain ⟨hidle, hi, _⟩ := hc line hl
        have he := (Bool.or_eq_false_iff.1 hidle).1
        simp [hi, he]
      have hnext {left : List Line} (hl : left <:+ rest) :
          Joins (blockItems (r := Reader) fuel (some 0) none kind (left ++ second))
            (blockItems (r := Reader) fuel' (some 0) none kind left)
            (blockItems (r := Reader) fuel'' (some 0) none kind second) := by
        have := hl.length_le
        exact ih (by omega) (by omega) (.inl rfl)
      rw [blockItems_succ, hidle, hx, List.cons_append]
      dsimp only
      rw [Option.any_none, if_neg Bool.false_ne_true, hindent, hrecover]
      exact .proceed hitem (fun left hl => hnext hl) (hnext (List.dropWhile_suffix _))

theorem atMargin_of_closes {lines : List Line} (hc : Line.Closes lines) : AtMargin none lines := by
  have hstays : lines.dropWhile Line.isIdle = lines :=
    Line.dropWhile_closing (fun line h => (hc line h).1) []
  rw [AtMargin, hstays]
  exact .inr ⟨rfl, fun line h => (hc line h).2.1⟩

theorem topItems_joins {first second : List Line} (hc : Line.Closes second)
    (hm : AtMargin none first) :
    Joins (topItems (first ++ second)) (topItems first) (topItems second) := by
  have hj := blockItems_joins hc (Nat.lt_succ_self _) (Nat.lt_succ_self _) (Nat.lt_succ_self _) hm
    .topLevel
  rwa [← (atMargin_of_closes hc).blockItems, ← List.length_append] at hj

theorem topItems_meets [L.Reaches] {lines lines' : List Line} (h : Line.AllAlike L lines lines') :
    Passage.Meets L [] lines (fun items items' _ => Node.AllAlike L items items') (topItems lines)
      (topItems lines') := by
  have hlt : lines.length < lines'.length + 1 := Nat.lt_succ_of_le (Nat.le_of_eq h.length_eq)
  have hp : (none : Option Nat) = none → ([] : List Line) = [] := fun _ => rfl
  have hall : (layouts L []).Rel lines [] (BuiltAll (Grammar.BlockItem _) [])
      (blockItems (lines.length + 1) none none .topLevel)
      (blockItems (lines'.length + 1) none none .topLevel) :=
    blockItems_alike _ Line.closes_nil (Nat.lt_succ_self _) hlt none hp .topLevel
  have hm := hall lines' h (List.forall_mem_nil _)
  rw [List.append_nil] at hm
  refine hm.mono ?_
  rintro _ _ _ ⟨_, hn, hi⟩
  exact .of_items hi hn

theorem topItems_shift {lines lines' : List Line} (h : Line.AllAlike (.shift d) lines lines')
    {items : List Child} (ho : (topItems lines).outcome = .ok items) :
    (topItems lines').outcome = .ok (Node.shifts d items) ∧
      (topItems lines').noted = (topItems lines).noted.map (Mistake.shift d) := by
  have hm := topItems_meets h
  generalize topItems lines = passage at hm ho ⊢
  generalize topItems lines' = passage' at hm ⊢
  cases hm with
  | ok hi hn =>
    obtain rfl := Except.ok.inj ho
    exact ⟨congrArg _ hi.eq_shifts, Mistake.eq_shifts hn⟩
  | error _ _ => cases ho

theorem Line.Closes.of_alike {lines lines' : List Line} (hc : Closes lines)
    (h : AllAlike L lines lines') (hm : L.margin = []) : Closes lines' := by
  cases h with
  | nil => exact hc
  | cons hl _ =>
    intro line ho
    obtain rfl := Option.some.inj ho
    obtain ⟨hi, hz, he⟩ := hc _ rfl
    refine ⟨?_, ?_, ?_⟩
    · rw [hl.isIdle, hi]
    · rw [hl.indent, hm, hz, List.length_nil]
    · rcases hl.scan.eatWord?_cases "Else".toList with ⟨_, he'⟩ | ⟨rest, _, hr, _, _⟩
      · exact he'
      · rw [he] at hr
        cases hr

theorem Line.closes_of_head {lines rest : List Line} {line : Line} (h : lines = line :: rest)
    (hi : line.isIdle = false) (hz : line.indent = 0)
    (he : line.scan.atWord "Else".toList = false) : Closes lines := by
  subst h
  intro other ho
  obtain rfl := Option.some.inj ho
  refine ⟨hi, hz, ?_⟩
  rw [Scan.eatWord?, he, if_neg Bool.false_ne_true]

/-- Two scripts one after the other, each of which begins at the margin, are read as the items and
the mistakes of the first one and, after them, those of the second one at their offsets. -/
theorem parse_append (first second : List Char) (hsize : Text.bytes (first ++ second) < 2 ^ 32)
    (hend : first = [] ∨ first.getLast? = some '\n')
    (hmargin : ∀ line ∈ ((Line.split first).dropWhile Line.isIdle).head?, line.indent = 0)
    (hhead : ∃ line rest, Line.split second = line :: rest ∧ line.isIdle = false ∧
      line.indent = 0 ∧ line.scan.atWord "Else".toList = false) :
    (parse (first ++ second)).tree.children = (parse first).tree.children ++
        Node.shifts (Text.bytes first) (parse second).tree.children ∧
      (parse (first ++ second)).mistakes = (parse first).mistakes ++
        (parse second).mistakes.map (Mistake.shift (Text.bytes first)) := by
  obtain ⟨line, rest, hlines, hi, hz, he⟩ := hhead
  have hmax : Text.bytes first + Text.bytes second ≤ Span.maxOffset := by
    rw [Text.bytes_append] at hsize
    exact Nat.le_of_lt_succ hsize
  have hsecond : Line.AllAlike (.shift (Text.bytes first)) (Line.split second)
      (Line.splitFrom (Text.bytes first) [] second) := Line.split_alike (by omega)
  have hcloses := (Line.closes_of_head hlines hi hz he).of_alike hsecond rfl
  obtain ⟨items, hitems⟩ := blockItems_ok ((Line.split first).length + 1) none none .topLevel
    (Line.split first)
  obtain ⟨more, hmore⟩ := blockItems_ok ((Line.split second).length + 1) none none .topLevel
    (Line.split second)
  have hmoved := topItems_shift hsecond hmore
  have hjoins := topItems_joins hcloses (.inr ⟨rfl, hmargin⟩)
  rw [← Line.split_append hend] at hjoins
  have hwhole := parse_of_topItems (hjoins.outcome items _ hitems hmoved.1) hjoins.noted
  have hbefore := parse_of_topItems hitems rfl
  have hafter := parse_of_topItems hmore rfl
  rw [hwhole.1, hwhole.2, hmoved.2, hbefore.1, hbefore.2, hafter.1, hafter.2]
  exact ⟨rfl, rfl⟩

def faultyStart : List Char := "# é\nSet\nIf a == 1:\n  Nop\n".toList

def faultyEnd : List Char := "Log\nSet b:\n  c\n\n".toList

theorem parse_append_faulty :
    (parse faultyStart).mistakes.length = 1 ∧ (parse faultyEnd).mistakes.length = 1 ∧
      (parse (faultyStart ++ faultyEnd)).tree.children = (parse faultyStart).tree.children ++
        Node.shifts (Text.bytes faultyStart) (parse faultyEnd).tree.children ∧
      (parse (faultyStart ++ faultyEnd)).mistakes = (parse faultyStart).mistakes ++
        (parse faultyEnd).mistakes.map (Mistake.shift (Text.bytes faultyStart)) := by
  refine ⟨by cbv, by cbv, parse_append faultyStart faultyEnd ?_ ?_ ?_ ?_⟩
  · decide
  · decide
  · decide
  · exact ⟨_, _, rfl, by decide, by decide, by decide⟩

end ArchiveScript
