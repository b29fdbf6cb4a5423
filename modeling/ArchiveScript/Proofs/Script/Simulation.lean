import ArchiveScript.Proofs.Script.LineLikeness
import ArchiveScript.Proofs.Script.Productions

/-! # Simulations

What a reader does depends neither on the builder that it is run with nor on the layout of its
text. To compare two builders, it is enough to compare their steps: whatever relates these relates
all readers that are made of them. Since nodes may be put at places of a store, a simulation
follows what has been built on both sides and waits to become a child of another node.
-/

namespace ArchiveScript

open Grammar

section

structure Twin (ν ν' : Type) where
  left : ν
  right : ν'
  kind : Kind

/-- What has been built on both sides and is no child of another node yet, the latest first. -/
abbrev Held (ν ν' : Type) := List (Twin ν ν')

variable {ν ν' : Type}

/-- The children stand at the same places, and they are what has been built since `held`. -/
inductive Grown : Held ν ν' → Shape → List (Option Field × ν) → List (Option Field × ν') →
    Held ν ν' → Prop
  | nil {held : Held ν ν'} : Grown held [] [] [] held
  | cons {held now : Held ν ν'} {place : Option Field} {node : ν} {node' : ν'} {kind : Kind}
      {shape : Shape} {rest : List (Option Field × ν)} {rest' : List (Option Field × ν')}
      (hr : Grown (⟨node, node', kind⟩ :: held) shape rest rest' now) :
      Grown held ((place, kind) :: shape) ((place, node) :: rest) ((place, node') :: rest') now

def Grows (K : Option Field → Kind → Prop) (held : Held ν ν') (children : List (Option Field × ν))
    (children' : List (Option Field × ν')) (now : Held ν ν') : Prop :=
  ∃ shape : Shape, shape.All K ∧ Grown held shape children children' now

def GrowsMaybe (entry : Option Field × Kind) (held : Held ν ν')
    (children : List (Option Field × ν)) (children' : List (Option Field × ν'))
    (now : Held ν ν') : Prop :=
  ∃ shape : Shape, shape.Optional entry ∧ Grown held shape children children' now

variable {held now later : Held ν ν'} {shape shape' : Shape}
  {children more : List (Option Field × ν)} {children' more' : List (Option Field × ν')}
  {place : Option Field} {kind : Kind} {node : ν} {node' : ν'}

namespace Grown

theorem single : Grown held [(place, kind)] [(place, node)] [(place, node')]
    (⟨node, node', kind⟩ :: held) :=
  .cons .nil

theorem append (h : Grown held shape children children' now)
    (h' : Grown now shape' more more' later) :
    Grown held (shape ++ shape') (children ++ more) (children' ++ more') later := by
  induction h with
  | nil => exact h'
  | cons _ ih => exact .cons (ih h')

theorem subset (h : Grown held shape children children' now) : held ⊆ now := by
  induction h with
  | nil => exact List.Subset.refl _
  | cons _ ih => exact fun _ hm => ih (List.mem_cons_of_mem _ hm)

/-- Nothing is a child of two nodes. -/
theorem perm (h : Grown held shape children children' now) :
    (now.map (·.right)).Perm (children'.map (·.2) ++ held.map (·.right)) := by
  induction h with
  | nil => exact .refl _
  | cons _ ih => exact ih.trans List.perm_middle

theorem any_place (h : Grown held shape children children' now) (p : Option Field → Bool) :
    children.any (p ·.1) = shape.any (p ·.1) ∧ children'.any (p ·.1) = shape.any (p ·.1) := by
  induction h with
  | nil => exact ⟨rfl, rfl⟩
  | cons _ ih => simp only [List.any_cons, ih, and_self]

end Grown

namespace Grows

variable {K : Option Field → Kind → Prop}

theorem nil : Grows K held [] [] held := ⟨[], by simp, .nil⟩

theorem cons (hk : K place kind)
    (h : Grows K (⟨node, node', kind⟩ :: held) children children' now) :
    Grows K held ((place, node) :: children) ((place, node') :: children') now := by
  obtain ⟨shape, hs, hg⟩ := h
  exact ⟨_, Shape.all_cons.2 ⟨hk, hs⟩, .cons hg⟩

theorem append (h : Grows K held children children' now) (h' : Grows K now more more' later) :
    Grows K held (children ++ more) (children' ++ more') later := by
  obtain ⟨shape, hs, hg⟩ := h
  obtain ⟨shape', hs', hg'⟩ := h'
  exact ⟨_, Shape.all_append.2 ⟨hs, hs'⟩, hg.append hg'⟩

end Grows

end

variable {L : Likeness} {line line' : Line} {m m' : Type → Type} {ν ν' : Type} [Builder m ν]
  [Builder m' ν']

/-- A comparison of what two builders do on lines of two layouts. -/
structure Simulation (L : Likeness) (m m' : Type → Type) {ν ν' : Type} [Builder m ν]
    [Builder m' ν'] where
  /-- From what is held on, both steps do alike, and what they come to is related. -/
  Rel {α α' : Type} : Held ν ν' → (α → α' → Held ν ν' → Prop) → m α → m' α' → Prop
  pure {α α' : Type} {held : Held ν ν'} {Q : α → α' → Held ν ν' → Prop} {a : α} {a' : α'} :
    Q a a' held → Rel held Q (Pure.pure a) (Pure.pure a')
  bind {α α' β β' : Type} {held : Held ν ν'} {P : α → α' → Held ν ν' → Prop}
    {Q : β → β' → Held ν ν' → Prop} {step : m α} {step' : m' α'} {f : α → m β}
    {f' : α' → m' β'} :
    Rel held P step step' → (∀ a a' now, P a a' now → Rel now Q (f a) (f' a')) →
      Rel held Q (step >>= f) (step' >>= f')
  fail {α α' : Type} {held : Held ν ν'} {Q : α → α' → Held ν ν' → Prop} {complaint : Complaint}
    {span span' : Span} : span.Alike L span' →
      Rel held Q (Builder.fail complaint span) (Builder.fail complaint span')
  leaf {held : Held ν ν'} {kind : Kind} {start start' : Nat} {text text' : List Char} :
    Lexeme kind text → L.Piece kind start start' text text' →
      Rel held (fun node node' now => now = ⟨node, node', kind⟩ :: held)
        (Builder.leaf kind start text) (Builder.leaf kind start' text')
  spanning {held now : Held ν ν'} {kind : Kind} {shape : Shape} {start start' stop stop' : Nat}
    {children : List (Option Field × ν)} {children' : List (Option Field × ν')} :
    Produces kind shape → L.offset start start' → L.offset stop stop' →
      Grown held shape children children' now →
        Rel now (fun node node' after => after = ⟨node, node', kind⟩ :: held)
          (Builder.spanning kind start stop children)
          (Builder.spanning kind start' stop' children')
  spans {held : Held ν ν'} :
    Rel held (fun span span' now => now = held ∧
      ∀ twin ∈ held, (span twin.left).Alike L (span' twin.right)) Builder.spans Builder.spans

/-- One more node has been built on both sides, of a kind that `K` admits, up to alike scans. -/
structure Finding (K : Kind → Prop) (L : Likeness) (line line' : Line) (held : Held ν ν')
    (found : ν × Scan) (found' : ν' × Scan) (now : Held ν ν') : Prop where
  now : ∃ kind, K kind ∧ now = ⟨found.1, found'.1, kind⟩ :: held
  scan : found.2.Alike L line line' found'.2

structure FindingAll (K : Option Field → Kind → Prop) (L : Likeness) (line line' : Line)
    (held : Held ν ν') (found : List (Option Field × ν) × Scan)
    (found' : List (Option Field × ν') × Scan) (now : Held ν ν') : Prop where
  grown : Grows K held found.1 found'.1 now
  scan : found.2.Alike L line line' found'.2

namespace Simulation

open Scan

variable (S : Simulation L m m') {held : Held ν ν'} {s s' : Scan} {K : Kind → Prop}

theorem terminal {kind : Kind} {start start' : Nat} {text text' : List Char} {rest rest' : Scan}
    (hk : K kind) (ht : Lexeme kind text) (h : L.Piece kind start start' text text')
    (hr : rest.Alike L line line' rest') :
    S.Rel held (Finding K L line line' held)
      (do return (← Builder.leaf kind start text, rest))
      (do return (← Builder.leaf kind start' text', rest')) :=
  S.bind (S.leaf ht h) fun _ _ _ hn => S.pure ⟨⟨kind, hk, hn⟩, hr⟩

theorem composed {now : Held ν ν'} {kind : Kind} {shape : Shape} {start start' stop stop' : Nat}
    {children : List (Option Field × ν)} {children' : List (Option Field × ν')} {rest rest' : Scan}
    (hk : K kind) (hp : Produces kind shape) (hs : L.offset start start')
    (ht : L.offset stop stop') (hc : Grown held shape children children' now)
    (hr : rest.Alike L line line' rest') :
    S.Rel now (Finding K L line line' held)
      (do return (← Builder.spanning kind start stop children, rest))
      (do return (← Builder.spanning kind start' stop' children', rest')) :=
  S.bind (S.spanning hp hs ht hc) fun _ _ _ hn => S.pure ⟨⟨kind, hk, hn⟩, hr⟩

theorem finish (h : s.Alike L line line' s') :
    S.Rel held (fun _ _ now => now = held) (s.finish : m Unit) s'.finish := by
  have hb := h.skipBlanks
  unfold Scan.finish
  dsimp only
  rw [hb.rest]
  split
  · exact S.pure rfl
  · exact S.fail hb.restSpan

theorem blockColon (h : s.Alike L line line' s') :
    S.Rel held (fun _ _ now => now = held) (s.blockColon : m Unit) s'.blockColon := by
  have hb := h.skipBlanks
  unfold Scan.blockColon
  dsimp only
  rcases hb.eat?_cases [':'] with ⟨he, he'⟩ | ⟨rest, rest', he, he', hr⟩
  · rw [he, he']
    exact S.fail hb.point
  · rw [he, he']
    exact S.finish hr

theorem word (h : s.Alike L line line' s') (w : String) :
    S.Rel held (fun rest rest' now => now = held ∧ rest.Alike L line line' rest')
      (s.word w : m Scan) (s'.word w) := by
  have hb := h.skipBlanks
  unfold Scan.word
  dsimp only
  rcases hb.eatWord?_cases w.toList with ⟨he, he'⟩ | ⟨rest, rest', he, he', hr⟩
  · rw [he, he']
    exact S.fail hb.point
  · rw [he, he']
    exact S.pure ⟨rfl, hr⟩

theorem identifier (h : s.Alike L line line' s') (thing : String) :
    S.Rel held (Finding (· = .identifier) L line line' held) (s.identifier thing)
      (s'.identifier thing) := by
  have hb := h.skipBlanks
  unfold Scan.identifier Scan.name?
  dsimp only
  rcases hb.nameOf?_cases isNamePart with ⟨hn, hn'⟩ | ⟨name, rest, rest', hn, hn', hp, hr⟩
  · rw [hn, hn']
    exact S.fail hb.point
  · rw [hn, hn']
    exact S.terminal rfl (.free (by decide)) (hb.piece hp) hr

/-- A description may have been built on both sides. It is a child of what it describes. -/
structure Described (L : Likeness) (line line' : Line) (held : Held ν ν')
    (found : Option ν × Scan) (found' : Option ν' × Scan) (now : Held ν ν') : Prop where
  grown : GrowsMaybe (some .description, .shortDescription) held
    (found.1.toList.map fun node => (some Field.description, node))
    (found'.1.toList.map fun node => (some Field.description, node)) now
  scan : found.2.Alike L line line' found'.2

theorem description? (h : s.Alike L line line' s') :
    S.Rel held (Described L line line' held) (s.description? : m (Option ν × Scan))
      s'.description? := by
  have hb := h.skipBlanks
  unfold Scan.description?
  dsimp only
  rw [hb.rest]
  split
  · have hi := hb.skip 1
    rw [hi.rest]
    split
    · refine S.bind (S.leaf (.free (by decide)) (hi.piece (List.takeWhile_prefix _))) ?_
      rintro _ _ _ rfl
      exact S.pure ⟨⟨_, .inr rfl, .single⟩, hi.skip _⟩
    · exact S.fail (Span.alike_between hb.pos hb.limit)
  · exact S.pure ⟨⟨_, .inl rfl, .nil⟩, hb⟩

end Simulation

variable {r r' : Type → Type} [LineReader r m] [LineReader r' m']

/-- A comparison of two readers of lines, the second of which has closing lines behind those that
are alike. -/
structure LineSimulation (L : Likeness) (closing : List Line) (r r' : Type → Type)
    {m m' : Type → Type} {ν ν' : Type} [Builder m ν] [Builder m' ν'] [LineReader r m]
    [LineReader r' m'] where
  steps : Simulation L m m'
  /-- From the lines of the first reader and from what is held on, both do alike. What they come
  to, and the lines that the first one leaves, are related. -/
  Rel {α α' : Type} : List Line → Held ν ν' → (α → α' → List Line → Held ν ν' → Prop) →
    r α → r' α' → Prop
  pure {α α' : Type} {lines : List Line} {held : Held ν ν'}
    {Q : α → α' → List Line → Held ν ν' → Prop} {a : α} {a' : α'} :
    Q a a' lines held → Rel lines held Q (Pure.pure a) (Pure.pure a')
  bind {α α' β β' : Type} {lines : List Line} {held : Held ν ν'}
    {P : α → α' → List Line → Held ν ν' → Prop} {Q : β → β' → List Line → Held ν ν' → Prop}
    {reader : r α} {reader' : r' α'} {f : α → r β} {f' : α' → r' β'} :
    Rel lines held P reader reader' →
      (∀ a a' left now, left <:+ lines → P a a' left now → Rel left now Q (f a) (f' a')) →
        Rel lines held Q (reader >>= f) (reader' >>= f')
  mono {α α' : Type} {lines : List Line} {held : Held ν ν'}
    {P Q : α → α' → List Line → Held ν ν' → Prop} {reader : r α} {reader' : r' α'} :
    Rel lines held P reader reader' → (∀ a a' left now, P a a' left now → Q a a' left now) →
      Rel lines held Q reader reader'
  onLine {α α' : Type} {lines : List Line} {held : Held ν ν'} {P : α → α' → Held ν ν' → Prop}
    {step : m α} {step' : m' α'} : steps.Rel held P step step' →
      Rel lines held (fun a a' left now => left = lines ∧ P a a' now)
        (LineReader.onLine step) (LineReader.onLine step')
  peek {lines : List Line} {held : Held ν ν'} :
    Rel lines held (fun seen seen' left now => left = lines ∧ now = held ∧ seen = lines ∧
        ∃ lines', Line.AllAlike L lines lines' ∧ seen' = lines' ++ closing)
      LineReader.peek LineReader.peek
  goto {lines left left' : List Line} {held : Held ν ν'} :
    left <:+ lines → Line.AllAlike L left left' →
      Rel lines held (fun _ _ after now => after = left ∧ now = held)
        (LineReader.goto left) (LineReader.goto (left' ++ closing))
  note {lines : List Line} {held : Held ν ν'} {mistakes mistakes' : List Mistake} :
    List.Forall₂ (Mistake.Alike L) mistakes mistakes' →
      Rel lines held (fun _ _ left now => left = lines ∧ now = held)
        (LineReader.note mistakes) (LineReader.note mistakes')
  attempt {α α' : Type} {lines : List Line} {held : Held ν ν'}
    {Q : α → α' → List Line → Held ν ν' → Prop} {reader : r α} {reader' : r' α'} :
    Rel lines [] Q reader reader' →
      Rel lines held (fun outcome outcome' left now =>
          (∃ a a' own, outcome = .ok a ∧ outcome' = .ok a' ∧ now = own ++ held ∧ Q a a' left own) ∨
          ∃ mistake mistake', outcome = .error mistake ∧ outcome' = .error mistake' ∧
            left = lines ∧ now = held ∧ mistake.Alike L mistake')
        (LineReader.attempt reader) (LineReader.attempt reader')

def Built (K : Kind → Prop) (held : Held ν ν') (node : ν) (node' : ν') (_ : List Line)
    (now : Held ν ν') : Prop :=
  ∃ kind, K kind ∧ now = ⟨node, node', kind⟩ :: held

def BuiltAt (K : Option Field → Kind → Prop) (held : Held ν ν') (child : Option Field × ν)
    (child' : Option Field × ν') (_ : List Line) (now : Held ν ν') : Prop :=
  child'.1 = child.1 ∧ ∃ kind, K child.1 kind ∧ now = ⟨child.2, child'.2, kind⟩ :: held

def BuiltAll (K : Option Field → Kind → Prop) (held : Held ν ν')
    (children : List (Option Field × ν)) (children' : List (Option Field × ν')) (_ : List Line)
    (now : Held ν ν') : Prop :=
  Grows K held children children' now

namespace LineSimulation

variable {closing : List Line} (T : LineSimulation L closing r r') {lines : List Line}
  {held now : Held ν ν'} {α α' β β' : Type} {Q : α → α' → List Line → Held ν ν' → Prop}
  {K : Kind → Prop}

theorem fail {complaint : Complaint} {span span' : Span} (h : span.Alike L span') :
    T.Rel lines held Q (Builder.fail complaint span) (Builder.fail complaint span') := by
  refine T.mono (T.onLine (P := fun a a' now => Q a a' lines now) (T.steps.fail h)) ?_
  rintro _ _ _ _ ⟨rfl, hq⟩
  exact hq

theorem onLine_bind {P : β → β' → Held ν ν' → Prop} {step : m β} {step' : m' β'} {f : β → r α}
    {f' : β' → r' α'} (h : T.steps.Rel held P step step')
    (hf : ∀ b b' now, P b b' now → T.Rel lines now Q (f b) (f' b')) :
    T.Rel lines held Q (LineReader.onLine step >>= f) (LineReader.onLine step' >>= f') := by
  refine T.bind (T.onLine h) ?_
  rintro b b' _ now - ⟨rfl, hp⟩
  exact hf b b' now hp

theorem finish_bind {s s' : Scan} (h : s.Alike L line line' s') {f : Unit → r α}
    {f' : Unit → r' α'} (hf : T.Rel lines held Q (f ()) (f' ())) :
    T.Rel lines held Q (LineReader.onLine s.finish >>= f) (LineReader.onLine s'.finish >>= f') := by
  refine T.onLine_bind (T.steps.finish h) ?_
  rintro _ _ _ rfl
  exact hf

theorem blockColon_bind {s s' : Scan} (h : s.Alike L line line' s') {f : Unit → r α}
    {f' : Unit → r' α'} (hf : T.Rel lines held Q (f ()) (f' ())) :
    T.Rel lines held Q (LineReader.onLine s.blockColon >>= f)
      (LineReader.onLine s'.blockColon >>= f') := by
  refine T.onLine_bind (T.steps.blockColon h) ?_
  rintro _ _ _ rfl
  exact hf

theorem leaf {kind : Kind} {start start' : Nat} {text text' : List Char} (hk : K kind)
    (ht : Lexeme kind text) (h : L.Piece kind start start' text text') :
    T.Rel lines held (Built K held) (Builder.leaf kind start text)
      (Builder.leaf kind start' text') :=
  T.mono (T.onLine (T.steps.leaf ht h)) fun _ _ _ _ h => ⟨kind, hk, h.2⟩

theorem spanning {kind : Kind} {shape : Shape} {start start' stop stop' : Nat}
    {children : List (Option Field × ν)} {children' : List (Option Field × ν')} (hk : K kind)
    (hp : Produces kind shape) (hs : L.offset start start') (ht : L.offset stop stop')
    (hc : Grown held shape children children' now) :
    T.Rel lines now (Built K held)
      (Builder.spanning kind start stop children) (Builder.spanning kind start' stop' children') :=
  T.mono (T.onLine (T.steps.spanning hp hs ht hc)) fun _ _ _ _ h => ⟨kind, hk, h.2⟩

theorem spans_bind {f : (ν → Span) → r α} {f' : (ν' → Span) → r' α'}
    (hf : ∀ span span', (∀ twin ∈ held, (span twin.left).Alike L (span' twin.right)) →
      T.Rel lines held Q (f span) (f' span')) :
    T.Rel lines held Q (Builder.spans >>= f) (Builder.spans >>= f') := by
  refine T.onLine_bind T.steps.spans ?_
  rintro span span' _ ⟨rfl, hs⟩
  exact hf span span' hs

theorem peek_bind {f : List Line → r α} {f' : List Line → r' α'}
    (hf : ∀ lines', Line.AllAlike L lines lines' →
      T.Rel lines held Q (f lines) (f' (lines' ++ closing))) :
    T.Rel lines held Q (LineReader.peek >>= f) (LineReader.peek >>= f') := by
  refine T.bind T.peek ?_
  rintro _ _ _ _ - ⟨rfl, rfl, rfl, lines', hl, rfl⟩
  exact hf lines' hl

theorem goto_bind {left left' : List Line} {f : Unit → r α} {f' : Unit → r' α'}
    (hs : left <:+ lines) (hl : Line.AllAlike L left left')
    (hf : T.Rel left held Q (f ()) (f' ())) :
    T.Rel lines held Q (LineReader.goto left >>= f)
      (LineReader.goto (left' ++ closing) >>= f') := by
  refine T.bind (T.goto hs hl) ?_
  rintro _ _ _ _ - ⟨rfl, rfl⟩
  exact hf

theorem note_bind {mistakes mistakes' : List Mistake} {f : Unit → r α} {f' : Unit → r' α'}
    (h : List.Forall₂ (Mistake.Alike L) mistakes mistakes')
    (hf : T.Rel lines held Q (f ()) (f' ())) :
    T.Rel lines held Q (LineReader.note mistakes >>= f) (LineReader.note mistakes' >>= f') := by
  refine T.bind (T.note h) ?_
  rintro _ _ _ _ - ⟨rfl, rfl⟩
  exact hf

theorem child {reader : r ν} {reader' : r' ν'} {At : Option Field → Kind → Prop}
    {place : Option Field} (h : T.Rel lines held (Built K held) reader reader')
    (hk : ∀ kind, K kind → At place kind) :
    T.Rel lines held (BuiltAt At held) (do return (place, ← reader))
      (do return (place, ← reader')) :=
  T.bind h fun _ _ _ _ _ ⟨kind, hn, he⟩ => T.pure ⟨rfl, kind, hk kind hn, he⟩

theorem skipIdle_bind (hc : Line.Closes closing) {f : Unit → r α} {f' : Unit → r' α'}
    (hf : T.Rel (lines.dropWhile Line.isIdle) held Q (f ()) (f' ())) :
    T.Rel lines held Q (skipIdle >>= f) (skipIdle >>= f') := by
  have h : T.Rel lines held
      (fun _ _ left now => left = lines.dropWhile Line.isIdle ∧ now = held) skipIdle skipIdle := by
    refine T.peek_bind fun lines' hl => ?_
    have hd : (lines' ++ closing).dropWhile Line.isIdle =
        lines'.dropWhile Line.isIdle ++ closing :=
      Line.dropWhile_closing (fun line h => (hc line h).1) lines'
    rw [hd]
    exact T.goto (List.dropWhile_suffix _) (hl.dropWhile fun _ _ h => h.isIdle)
  refine T.bind h ?_
  rintro _ _ _ _ - ⟨rfl, rfl⟩
  exact hf

/-- No closing line is in a block below a line. -/
theorem hasBlock_bind (hc : Line.Closes closing) {header header' : Line}
    (hh : header.Alike L header') {f : Bool → r α} {f' : Bool → r' α'}
    (hf : ∀ has, T.Rel (lines.dropWhile Line.isIdle) held Q (f has) (f' has)) :
    T.Rel lines held Q (hasBlock header >>= f) (hasBlock header' >>= f') := by
  have h : T.Rel lines held
      (fun has has' left now => has' = has ∧ left = lines.dropWhile Line.isIdle ∧ now = held)
      (hasBlock header) (hasBlock header') := by
    refine T.skipIdle_bind hc (T.peek_bind fun lines' hl => T.pure ⟨?_, rfl, rfl⟩)
    generalize lines.dropWhile Line.isIdle = left at hl
    cases hl with
    | nil =>
      rw [List.nil_append]
      cases closing with
      | nil => rfl
      | cons line rest =>
        have hz : ¬header'.indent < line.indent := by
          rw [(hc line rfl).2.1]
          exact Nat.not_lt_zero _
        simp [hz]
    | cons hl _ => simp [hl.indent, hh.indent]
  refine T.bind h ?_
  rintro _ _ _ _ - ⟨rfl, rfl, rfl⟩
  exact hf _

end LineSimulation

end ArchiveScript
