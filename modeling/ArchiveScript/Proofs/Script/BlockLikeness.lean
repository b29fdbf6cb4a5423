import ArchiveScript.Proofs.Script.ExpressionLikeness
import ArchiveScript.Script.Declaration

/-! # Items and blocks in two layouts

Readers of lines do not see where the lines are, how far all of them are indented and how they
end. Nor do they see lines behind the end of their item: what follows an item in the second
layout stays as it is.
-/

namespace ArchiveScript

open Grammar
open Builder (fail leaf spanning spans)

variable {L : Likeness} {closing : List Line} {line line' : Line} {m m' r r' : Type → Type}
  {ν ν' : Type} [Builder m ν] [Builder m' ν'] [LineReader r m] [LineReader r' m']

section

variable {held now : Held ν ν'} {shape : Shape} {children : List (Option Field × ν)}
  {children' : List (Option Field × ν')} {span : ν → Span} {span' : ν' → Span}
  (hs : ∀ twin ∈ now, (span twin.left).Alike L (span' twin.right))

include hs

theorem startOf_alike (h : line.Alike L line') (hg : Grown held shape children children' now) :
    L.offset (startOf span line children) (startOf span' line' children') := by
  cases hg with
  | nil => exact h.next
  | cons hr => exact (hs _ (hr.subset List.mem_cons_self)).start

theorem repeatedFields_alike (hg : Grown held shape children children' now) :
    List.Forall₂ (Mistake.Alike L) (repeatedFields span [] children)
      (repeatedFields span' [] children') := by
  have hp : ∀ p : Option Field → Bool, ([] : List (Option Field × ν')).any (p ·.1) =
      ([] : List (Option Field × ν)).any (p ·.1) := fun _ => rfl
  generalize ([] : List (Option Field × ν)) = passed at hp ⊢
  generalize ([] : List (Option Field × ν')) = passed' at hp ⊢
  induction hg generalizing passed passed' with
  | nil => exact .nil
  | @cons _ _ place node node' _ _ _ _ hr ih =>
    have hlater := ih hs ((place, node) :: passed) ((place, node') :: passed') fun p => by
      rw [List.any_cons, List.any_cons, hp]
    cases place with
    | none => exact hlater
    | some field =>
      unfold repeatedFields
      rw [hp (· == some field)]
      split
      · exact .cons ⟨rfl, hs _ (hr.subset List.mem_cons_self)⟩ hlater
      · exact hlater

end

namespace Verbatim

open Expression Scan

section

variable (S : Simulation L m m') {held : Held ν ν'} {s s' : Scan}

theorem literal_alike {start start' : Nat} {text text' : List Char}
    (h : L.Piece .rawContent start start' text text') :
    S.Rel held (Grows (Piece rawKinds) held) (literal start text : m _) (literal start' text') := by
  unfold literal
  rw [L.literal_isEmpty h.literal]
  split
  · exact S.pure .nil
  · refine S.bind (S.leaf (.free (by decide)) h) ?_
    rintro _ _ _ rfl
    exact S.pure (.cons ⟨rfl, by decide⟩ .nil)

theorem literalRun_begins (text : List Char) : literalRun text <+: text := by
  induction text with
  | nil => exact List.nil_prefix
  | cons c cs ih =>
    unfold literalRun
    split
    case h_3 h =>
      obtain ⟨rfl, rfl⟩ := List.cons.inj h
      exact List.cons_prefix_cons.2 ⟨rfl, ih⟩
    all_goals exact List.nil_prefix

theorem pieceAndRest_alike {n : Nat} (h : s.Alike L line line' s')
    (ih : ∀ {held : Held ν ν'} {after after' : Scan}, after.Alike L line line' after' →
      S.Rel held (Grows (Piece rawKinds) held) (linePieces line.ending n after : m _)
        (linePieces line'.ending n after')) {kind : Kind} (hk : kind ∈ interpolationKinds)
    (opener : Nat) :
    S.Rel held (Grows (Piece rawKinds) held)
      (do
        let before ← literal s.pos (literalRun s.rest)
        let (piece, after) ← interpolation basic kind opener (s.skip (literalRun s.rest).length)
        let pieces ← linePieces line.ending n after
        return before ++ (none, piece) :: pieces : m (List (Option Field × ν)))
      (do
        let before ← literal s'.pos (literalRun s.rest)
        let (piece, after) ← interpolation basic kind opener
          (s'.skip (literalRun s.rest).length)
        let pieces ← linePieces line'.ending n after
        return before ++ (none, piece) :: pieces) := by
  have ho := h.skip (literalRun s.rest).length
  refine S.bind (literal_alike S (h.piece (literalRun_begins s.rest))) ?_
  rintro before before' _ hb
  refine S.bind (interpolation_alike S (basic_alike S) hk opener ho) ?_
  rintro ⟨piece, after⟩ ⟨piece', after'⟩ _ ⟨⟨_, rfl, rfl⟩, ha⟩
  refine S.bind (ih ha) ?_
  rintro pieces pieces' _ hp
  exact S.pure (hb.append (.cons ⟨rfl, List.mem_cons_of_mem _ hk⟩ hp))

theorem linePieces_alike (n : Nat) (h : s.Alike L line line' s') :
    S.Rel held (Grows (Piece rawKinds) held) (linePieces line.ending n s : m _)
      (linePieces line'.ending n s') := by
  induction n generalizing s s' held with
  | zero =>
    unfold linePieces
    rw [h.rest]
    exact literal_alike S h.piece_ending
  | succ n ih =>
    have hr := literalRun_begins s.rest
    have ho := h.skip (literalRun s.rest).length
    unfold linePieces
    dsimp only
    rw [h.rest, ho.rest]
    split
    · rename_i hn
      have he : literalRun s.rest = s.rest := by
        have hp := List.prefix_iff_eq_append.1 hr
        rw [rest_skip] at hn
        rwa [hn, List.append_nil] at hp
      rw [he]
      exact literal_alike S h.piece_ending
    · exact pieceAndRest_alike S h ih (by decide) _
    · exact pieceAndRest_alike S h ih (by decide) _

theorem linePiecesOf_alike (indent : Nat) (h : line.Alike L line') :
    S.Rel held (Grows (Piece rawKinds) held) (linePiecesOf indent line : m _)
      (linePiecesOf (L.margin.length + indent) line') := by
  unfold linePiecesOf
  rw [h.isEmpty]
  split
  · rename_i he
    have hb : line.body = [] := List.isEmpty_iff.1 he
    have hp := (h.scan.skip line.body.length).piece_ending
    refine S.bind (S.leaf (.free (by decide)) ?_) fun _ _ _ hn =>
      S.pure (hn ▸ .cons ⟨rfl, by decide⟩ .nil)
    simpa [Line.scan, Scan.skip, Line.stop, h.body, hb] using hp
  · have hdrop : line'.margin.drop (L.margin.length + indent) = line.margin.drop indent := by
      rw [h.margin, List.drop_length_add_append]
    have htake : line'.margin.take (L.margin.length + indent) =
        L.margin ++ line.margin.take indent := by
      rw [h.margin, List.take_length_add_append]
    have hm := congrArg Text.bytes (List.take_append_drop indent line.margin)
    rw [Text.bytes_append] at hm
    dsimp only
    rw [hdrop, htake, h.body]
    apply linePieces_alike
    constructor
    · exact h
    · rfl
    · have hs := List.drop_suffix indent line.margin
      obtain ⟨before, hb⟩ := hs
      exact ⟨before, by rw [← List.append_assoc, hb]⟩
    · simp only [limit, Line.stop, Line.bodyStart, Text.bytes_append]
      omega
    · have hbody := h.bodyStart
      simp only [limit, Line.stop, h.body, Text.bytes_append]
      omega

theorem blockPieces_alike (indent : Nat) {lines lines' : List Line}
    (h : Line.AllAlike L lines lines') :
    S.Rel held (Grows (Piece rawKinds) held) (blockPieces indent lines : m _)
      (blockPieces (L.margin.length + indent) lines') := by
  induction h generalizing held with
  | nil => exact S.pure .nil
  | cons hl hr ih =>
    refine S.bind (linePiecesOf_alike S indent hl) fun pieces pieces' _ hp => ?_
    exact S.bind ih fun rest rest' _ hr => S.pure (hp.append hr)

end

/-- A block ends before the closing lines. -/
theorem extent_alike (hc : Line.Closes closing) (indent : Nat) {lines lines' : List Line}
    (h : Line.AllAlike L lines lines') :
    ∃ taken after, extent (L.margin.length + indent) (lines' ++ closing) =
        (taken, after ++ closing) ∧
      Line.AllAlike L (extent indent lines).1 taken ∧
      Line.AllAlike L (extent indent lines).2 after := by
  have hbelongs (line line' : Line) (h : line.Alike L line') :
      belongs (L.margin.length + indent) line' = belongs indent line := by
    simp [belongs, h.isEmpty, h.indent]
  have hclosing (line : Line) (hl : line ∈ closing.head?) :
      belongs (L.margin.length + indent) line = false := by
    obtain ⟨hidle, hi, _⟩ := hc line hl
    have he := (Bool.or_eq_false_iff.1 hidle).1
    simp [belongs, hi, he]
  have hempty (line line' : Line) (h : line.Alike L line') : line'.isEmpty = line.isEmpty :=
    h.isEmpty
  have hcandidates := Line.AllAlike.dropWhile (List.rel_reverse (h.takeWhile hbelongs)) hempty
  have ht : Line.AllAlike L _ _ := List.rel_reverse hcandidates
  have hlength := ht.length_eq
  have hle : ((lines'.takeWhile (belongs (L.margin.length + indent))).reverse.dropWhile
      Line.isEmpty).reverse.length ≤ lines'.length := by
    rw [List.length_reverse]
    refine Nat.le_trans (List.dropWhile_suffix _).length_le ?_
    rw [List.length_reverse]
    exact (List.takeWhile_prefix _).length_le
  refine ⟨_, lines'.drop _, ?_, ht.dropWhile hempty, List.forall₂_drop _ h⟩
  unfold extent
  dsimp only
  rw [Line.takeWhile_closing hclosing, List.drop_append_of_le_length hle, hlength]

variable (T : LineSimulation L closing r r') {lines : List Line} {held : Held ν ν'}

theorem block_alike (hc : Line.Closes closing) (h : line.Alike L line') :
    T.Rel lines held (Built (· = .raw) held) (block line) (block line') := by
  refine T.peek_bind fun lines' hl => ?_
  obtain ⟨taken', after', he, ht, ha⟩ := extent_alike hc line.indent hl
  have hafter : (extent line.indent lines).2 <:+ lines := List.drop_suffix _ _
  rw [h.indent, he]
  rcases hx : extent line.indent lines with ⟨taken, after⟩
  rw [hx] at ht ha hafter
  cases ht with
  | nil =>
    have hnext : L.offset (line.next + Text.bytes []) (line'.next + Text.bytes []) := h.next
    exact T.leaf rfl .emptyBlock
      ⟨h.next, hnext, fun _ => rfl, L.literal_refl [], L.covers_nil _⟩
  | cons hf hr =>
    dsimp only
    rw [hf.indent]
    refine T.onLine_bind (blockPieces_alike T.steps _ (.cons hf hr)) fun pieces pieces' now hp => ?_
    obtain ⟨_, hshape, hg⟩ := hp
    refine T.goto_bind hafter ha (T.spans_bind fun span span' hs => ?_)
    have hstart := startOf_alike hs h hg
    exact T.spanning rfl hshape hstart hstart hg

end Verbatim

variable (T : LineSimulation L closing r r') {lines below : List Line} {held : Held ν ν'}

/-- Blocks below a line are read alike, at these lines and at those after them. -/
abbrev BlocksAlike (T : LineSimulation L closing r r') (below : List Line)
    (block : BlockReader r ν) (block' : BlockReader r' ν') : Prop :=
  ∀ parent kind lines held, lines <:+ below → T.Rel lines held (BuiltAll (BlockItem kind) held)
    (block (some parent) kind) (block' (some (L.margin.length + parent)) kind)

variable {T} {block : BlockReader r ν} {block' : BlockReader r' ν'}

theorem BlocksAlike.ofHeader (hb : BlocksAlike T below block block') (h : line.Alike L line')
    (kind : BlockKind) (hl : lines <:+ below) :
    T.Rel (lines.dropWhile Line.isIdle) held (BuiltAll (BlockItem kind) held)
      (block (some line.indent) kind) (block' (some line'.indent) kind) := by
  rw [h.indent]
  exact hb line.indent kind _ held ((List.dropWhile_suffix _).trans hl)

variable (T)

namespace Declaration

open Expression Scan

variable {s s' : Scan}

section

variable (S : Simulation L m m')

theorem value_alike (h : s.Alike L line line' s') :
    S.Rel held (fun node node' now => ∃ kind ∈ basicKinds, now = ⟨node, node', kind⟩ :: held)
      (do
        let (value, rest) ← basic s
        rest.finish
        return value : m ν)
      (do
        let (value, rest) ← basic s'
        rest.finish
        return value) := by
  refine S.bind (basic_alike S h) ?_
  rintro ⟨value, rest⟩ ⟨value', rest'⟩ _ ⟨hv, hr⟩
  refine S.bind (S.finish hr) ?_
  rintro _ _ _ rfl
  exact S.pure hv

end

theorem parameter_alike (h : line.Alike L line') :
    T.Rel lines held (Built (· = .parameter) held) (parameter line) (parameter line') := by
  refine T.mono (T.onLine (P := fun node node' now => now = ⟨node, node', .parameter⟩ :: held) ?_)
    fun _ _ _ _ h => ⟨_, rfl, h.2⟩
  refine T.steps.bind (T.steps.identifier h.scan _) ?_
  rintro ⟨name, s⟩ ⟨name', s'⟩ _ ⟨⟨_, rfl, rfl⟩, hn⟩
  refine T.steps.bind (T.steps.description? hn) ?_
  rintro ⟨description, s⟩ ⟨description', s'⟩ now ⟨⟨_, hshape, hg⟩, hd⟩
  refine T.steps.bind (T.steps.finish hd) ?_
  rintro _ _ _ rfl
  exact T.steps.spanning ⟨_, hshape, rfl⟩ h.bodyStart_offset h.trimmedStop (.cons hg)

section

variable (hc : Line.Closes closing)

include hc

theorem fieldValue_alike (h : s.Alike L line line' s') :
    T.Rel lines held (Built (· ∈ textKinds) held) (fieldValue line s) (fieldValue line' s') := by
  have hb := h.skipBlanks
  unfold fieldValue
  dsimp only
  rw [hb.rest]
  split
  · refine T.mono (Verbatim.block_alike T hc h.lines) ?_
    rintro _ _ _ _ ⟨_, rfl, hn⟩
    exact ⟨_, List.mem_cons_self, hn⟩
  · refine T.mono (T.onLine (value_alike T.steps hb)) ?_
    rintro _ _ _ _ ⟨-, kind, hk, hn⟩
    exact ⟨kind, List.mem_cons_of_mem _ hk, hn⟩

variable {T} {block : BlockReader r ν} {block' : BlockReader r' ν'}
  (hb : BlocksAlike T below block block')

include hb

theorem parameters_alike (h : line.Alike L line') (hl : lines <:+ below) :
    T.Rel lines held (Built (· = .parameters) held) (parameters block line)
      (parameters block' line') := by
  refine T.hasBlock_bind hc h fun has => ?_
  split
  · refine T.bind (hb.ofHeader h _ hl) fun items items' _ now _ ⟨_, hi, hg⟩ => ?_
    exact T.spanning rfl hi h.bodyStart_offset h.trimmedStop hg
  · exact T.fail (Span.alike_between h.trimmedStop h.trimmedStop)

theorem declaration_alike {kind : Kind} (hk : kind ∈ declarationKinds)
    (h : s.Alike L line line' s') (hl : lines <:+ below) :
    T.Rel lines held (Built (· = kind) held) (declaration block line kind s)
      (declaration block' line' kind s') := by
  refine T.onLine_bind (T.steps.identifier h _) ?_
  rintro ⟨name, s⟩ ⟨name', s'⟩ _ ⟨⟨_, rfl, rfl⟩, hn⟩
  refine T.onLine_bind (T.steps.description? hn) ?_
  rintro ⟨description, s⟩ ⟨description', s'⟩ described ⟨⟨_, hshape, hdescribed⟩, hd⟩
  have hblanks := hd.skipBlanks
  -- The items, if there are any, become children after the name and the description.
  have hitems {lines : List Line} {now : Held ν ν'} {items : List (Option Field × ν)}
      {items' : List (Option Field × ν')}
      (hi : Grows (BlockItem (.declaration kind)) described items items' now) :
      T.Rel lines now (Built (· = kind) held)
        (do
          LineReader.note (repeatedFields (← spans) [] ((some .name, name) ::
            description.toList.map (fun node => (some Field.description, node)) ++ items))
          spanning kind line.bodyStart s.skipBlanks.pos ((some .name, name) ::
            description.toList.map (fun node => (some Field.description, node)) ++ items))
        (do
          LineReader.note (repeatedFields (← spans) [] ((some .name, name') ::
            description'.toList.map (fun node => (some Field.description, node)) ++ items'))
          spanning kind line'.bodyStart s'.skipBlanks.pos ((some .name, name') ::
            description'.toList.map (fun node => (some Field.description, node)) ++ items')) := by
    obtain ⟨_, hi, hg⟩ := hi
    have hall : Grown held _ ((some .name, name) ::
        description.toList.map (fun node => (some Field.description, node)) ++ items)
        ((some .name, name') ::
          description'.toList.map (fun node => (some Field.description, node)) ++ items') now :=
      .cons (hdescribed.append hg)
    refine T.spans_bind fun span span' hs => T.note_bind (repeatedFields_alike hs hall) ?_
    exact T.spanning rfl ((produces_declaration hk).2 ⟨_, _, hshape, hi, rfl⟩)
      h.lines.bodyStart_offset hblanks.pos hall
  dsimp only at hblanks ⊢
  rcases hblanks.eat?_cases [':'] with ⟨he, he'⟩ | ⟨rest, rest', he, he', hr⟩
  · rw [he, he']
    exact T.finish_bind hblanks
      (T.bind (T.pure (Q := BuiltAll _ _) .nil) fun _ _ _ _ _ hi => hitems hi)
  · rw [he, he']
    refine T.finish_bind hr (T.hasBlock_bind hc h.lines fun has => ?_)
    split
    · exact T.bind (hb.ofHeader h.lines _ hl) fun _ _ _ _ _ hi => hitems hi
    · exact T.bind (T.pure (Q := BuiltAll _ _) .nil) fun _ _ _ _ _ hi => hitems hi

omit hc hb in
theorem nested_mem {owner : Kind} {entry : String × Kind} (h : entry ∈ nested owner) :
    entry.2 ∈ declarationKinds := by
  revert h entry
  cases owner <;> decide

theorem declarationItem_alike (owner : Kind) (h : line.Alike L line') (hl : lines <:+ below) :
    T.Rel lines held (BuiltAt (BlockItem (.declaration owner)) held)
      (declarationItem block line owner) (declarationItem block' line' owner) := by
  have hs := h.scan
  unfold declarationItem
  dsimp only
  rcases hs.eatWord?_cases "description".toList with ⟨he, he'⟩ | ⟨rest, rest', he, he', hr⟩
  · rw [he, he']
    have hfirst := hs.firstWord_cases (fun kind rest => (kind, rest))
      (fun kind rest => (kind, rest))
      (R := fun found found' => found'.1 = found.1 ∧ found.1 ∈ declarationKinds ∧
        found.1 ∈ (nested owner).map (·.2) ∧ found.2.Alike L line line' found'.2)
      (List.forall₂_same.2 fun _ hm => ⟨rfl, fun _ _ hr =>
          ⟨rfl, nested_mem hm, List.mem_map_of_mem hm, hr⟩⟩ :
        List.Forall₂ _ (nested owner) (nested owner))
    dsimp only
    rcases hfirst with ⟨he, he'⟩ | ⟨⟨kind, rest⟩, ⟨kind', rest'⟩, he, he', rfl, hk, hm, hr⟩
    · rw [he, he']
      exact T.fail hs.restSpan
    · rw [he, he']
      refine T.child (declaration_alike hc hb hk hr hl) ?_
      rintro _ rfl
      exact hm
  · rw [he, he']
    have hblanks := hr.skipBlanks
    dsimp only
    rcases hblanks.eat?_cases [':'] with ⟨he, he'⟩ | ⟨last, last', he, he', hl⟩
    · rw [he, he']
      exact T.fail hblanks.point
    · rw [he, he']
      exact T.child (fieldValue_alike T hc hl) fun _ hk => ⟨rfl, hk⟩

omit hc hb in
theorem commandTitle_alike (S : Simulation L m m') (h : s.Alike L line line' s') :
    S.Rel held (Grows (BlockItem .command) held)
      (match s.eat? [':'] with
      | some rest => do
        rest.finish
        return []
      | none => do
        let (title, rest) ← basic s
        rest.blockColon
        return [(some Field.title, title)] : m (List (Option Field × ν)))
      (match s'.eat? [':'] with
      | some rest => do
        rest.finish
        return []
      | none => do
        let (title, rest) ← basic s'
        rest.blockColon
        return [(some Field.title, title)]) := by
  rcases h.eat?_cases [':'] with ⟨he, he'⟩ | ⟨rest, rest', he, he', hr⟩
  · rw [he, he']
    refine S.bind (basic_alike S h) ?_
    rintro ⟨title, rest⟩ ⟨title', rest'⟩ _ ⟨⟨_, hk, rfl⟩, hr⟩
    refine S.bind (S.blockColon hr) ?_
    rintro _ _ _ rfl
    exact S.pure (.cons (.inl ⟨rfl, List.mem_cons_of_mem _ hk⟩) .nil)
  · rw [he, he']
    refine S.bind (S.finish hr) ?_
    rintro _ _ _ rfl
    exact S.pure .nil

theorem command_alike (h : s.Alike L line line' s') (hl : lines <:+ below) :
    T.Rel lines held (Built (· = .commandDeclaration) held) (command block line s)
      (command block' line' s') := by
  have hstart := h.lines.bodyStart_offset
  have hstop := h.lines.trimmedStop
  unfold command
  refine T.onLine_bind (commandTitle_alike T.steps h.skipBlanks) fun title title' now ht => ?_
  refine T.hasBlock_bind hc h.lines fun has => ?_
  split
  · refine T.bind (hb.ofHeader h.lines _ hl) fun items items' _ now _ hi => ?_
    obtain ⟨shape, hshape, hall⟩ := ht.append hi
    have htitle := hall.any_place (· == some .title)
    have hbody := hall.any_place (· == some .body)
    refine T.spans_bind fun span span' hs => T.note_bind (repeatedFields_alike hs hall) ?_
    rw [htitle.1, htitle.2, hbody.1, hbody.2]
    split
    · exact T.fail (Span.alike_between hstart hstop)
    · rename_i htitle
      split
      · exact T.fail (Span.alike_between hstart hstop)
      · rename_i hbody
        exact T.spanning rfl ⟨hshape, by simpa using htitle, by simpa using hbody⟩ hstart hstop
          hall
  · exact T.fail (Span.alike_between hstop hstop)

theorem commandItem_alike (h : line.Alike L line') (hl : lines <:+ below) :
    T.Rel lines held (BuiltAt (BlockItem .command) held) (commandItem block line)
      (commandItem block' line') := by
  have hs := h.scan
  unfold commandItem
  dsimp only
  rcases hs.eatWord?_cases "Title".toList with ⟨he, he'⟩ | ⟨rest, rest', he, he', hr⟩
  · rw [he, he']
    dsimp only
    rcases hs.eatWord?_cases "Parameters".toList with ⟨he, he'⟩ | ⟨rest, rest', he, he', hr⟩
    · rw [he, he']
      dsimp only
      rcases hs.eatWord?_cases "SQL".toList with ⟨he, he'⟩ | ⟨rest, rest', he, he', hr⟩
      · rw [he, he']
        exact T.fail hs.restSpan
      · rw [he, he']
        exact T.blockColon_bind hr (T.child (Verbatim.block_alike T hc h) fun _ hk =>
          .inr (.inr ⟨rfl, hk⟩))
    · rw [he, he']
      exact T.blockColon_bind hr (T.child (parameters_alike hc hb h hl) fun _ hk =>
        .inr (.inl ⟨rfl, hk⟩))
  · rw [he, he']
    have hblanks := hr.skipBlanks
    dsimp only
    rcases hblanks.eat?_cases [':'] with ⟨he, he'⟩ | ⟨last, last', he, he', hl⟩
    · rw [he, he']
      exact T.fail hblanks.point
    · rw [he, he']
      exact T.child (fieldValue_alike T hc hl) fun _ hk => .inl ⟨rfl, hk⟩

omit hc hb in
theorem archiveField?_cases (h : s.Alike L line line' s') :
    archiveField? s = none ∧ archiveField? s' = none ∨
      ∃ field rest rest', archiveField? s = some (field, rest) ∧
        archiveField? s' = some (field, rest') ∧ field ∈ Field.archiveInfo ∧
          rest.Alike L line line' rest' := by
  unfold archiveField? name?
  rcases h.nameOf?_cases isNamePart with ⟨hn, hn'⟩ | ⟨name, rest, rest', hn, hn', _, hr⟩
  · rw [hn, hn']
    exact .inl ⟨rfl, rfl⟩
  · rw [hn, hn']
    simp only [Option.bind_eq_bind, Option.bind_some]
    cases hf : Field.archiveInfo? (String.ofList name) with
    | none => exact .inl ⟨rfl, rfl⟩
    | some field =>
      have hm : field ∈ Field.archiveInfo := List.mem_of_find?_eq_some hf
      rcases hr.skipBlanks.eat?_cases [':'] with ⟨he, he'⟩ | ⟨last, last', he, he', hl⟩
      · simp [he, he']
      · simp [he, he', hm, hl]

theorem metadataItem_alike (h : line.Alike L line') (hl : lines <:+ below) :
    T.Rel lines held (BuiltAt (BlockItem .metadata) held) (metadataItem block line)
      (metadataItem block' line') := by
  have hs := h.scan
  unfold metadataItem
  dsimp only
  rcases hs.eatWord?_cases "Schema".toList with ⟨he, he'⟩ | ⟨rest, rest', he, he', hr⟩
  · rw [he, he']
    dsimp only
    rcases hs.eatWord?_cases "Command".toList with ⟨he, he'⟩ | ⟨rest, rest', he, he', hr⟩
    · rw [he, he']
      dsimp only
      rcases archiveField?_cases hs with ⟨he, he'⟩ | ⟨field, rest, rest', he, he', hm, hr⟩
      · rw [he, he']
        exact T.fail hs.restSpan
      · rw [he, he']
        exact T.child (fieldValue_alike T hc hr) fun _ hk => ⟨hm, hk⟩
    · rw [he, he']
      exact T.child (command_alike hc hb hr hl) fun _ hk => .inr hk
  · rw [he, he']
    exact T.child (declaration_alike hc hb (by decide) hr hl) fun _ hk => .inl hk

theorem metadata_alike (h : line.Alike L line') (hl : lines <:+ below) {connection : ν}
    {connection' : ν'} :
    T.Rel lines (⟨connection, connection', .identifier⟩ :: held) (Built (· = .siardMetadata) held)
      (metadata block line connection) (metadata block' line' connection') := by
  refine T.hasBlock_bind hc h fun has => ?_
  split
  · refine T.bind (hb.ofHeader h _ hl) fun items items' _ now _ ⟨_, hi, hg⟩ => ?_
    have hall : Grown held _ ((some .connection, connection) :: items)
        ((some .connection, connection') :: items') now := .cons hg
    refine T.spans_bind fun span span' hs => T.note_bind (repeatedFields_alike hs hall) ?_
    exact T.spanning rfl ⟨_, hi, rfl⟩ h.bodyStart_offset h.trimmedStop hall
  · exact T.fail (Span.alike_between h.trimmedStop h.trimmedStop)

end

end Declaration

end ArchiveScript
