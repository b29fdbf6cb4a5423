import ArchiveScript.Proofs.Script.Drafts

/-! # Trees of two layouts

The trees that are read from two layouts are alike, and so are the mistakes in them.
-/

namespace ArchiveScript

open Grammar

variable {L : Likeness} {closing lines : List Line} {α β α' β' : Type}

inductive Agree (L : Likeness) (R : α → α' → Prop) : Except Mistake α → Except Mistake α' → Prop
  | ok {a : α} {a' : α'} (h : R a a') : Agree L R (.ok a) (.ok a')
  | error {mistake mistake' : Mistake} (h : mistake.Alike L mistake') :
      Agree L R (.error mistake) (.error mistake')

/-- Both passages succeed, with things that are related, or both fail alike. They have noted the
same and, if they succeed, leave lines that are alike, with the closing lines behind them. -/
inductive Passage.Meets (L : Likeness) (closing lines : List Line)
    (R : α → α' → List Line → Prop) : Passage α → Passage α' → Prop
  | ok {a : α} {a' : α'} {noted noted' : List Mistake} {left rest : List Line} (h : R a a' left)
      (hn : List.Forall₂ (Mistake.Alike L) noted noted') (hl : left <:+ lines)
      (hr : Line.AllAlike L left rest) :
      Meets L closing lines R ⟨.ok a, noted, left⟩ ⟨.ok a', noted', rest ++ closing⟩
  | error {mistake mistake' : Mistake} {noted noted' : List Mistake} {left left' : List Line}
      (h : mistake.Alike L mistake') (hn : List.Forall₂ (Mistake.Alike L) noted noted') :
      Meets L closing lines R ⟨.error mistake, noted, left⟩ ⟨.error mistake', noted', left'⟩

structure Twin.Alike (L : Likeness) (twin : Twin Node Node) : Prop where
  tree : twin.left.Alike L twin.right
  kind : twin.left.kind = twin.kind

theorem Node.AllAlike.of_grown {held now : Held Node Node} {shape : Shape}
    {children children' : List Child} (hg : Grown held shape children children' now)
    (hs : shape.All Unliteral)
    (h : ∀ twin ∈ now, twin.Alike L) : Node.AllAlike L children children' := by
  induction hg with
  | nil => exact .nil
  | cons hr ih =>
    obtain ⟨hp, hs⟩ := Shape.all_cons.1 hs
    have hn := h _ (hr.subset List.mem_cons_self)
    exact .cons (hp.imp_right fun hk hf => hn.tree.text hf (hn.kind ▸ hk)) hn.tree (ih hs h)

theorem Node.AllAlike.of_items {held now : Held Node Node} {kind : BlockKind}
    {children children' : List Child} (hi : Grows (BlockItem kind) held children children' now)
    (h : ∀ twin ∈ now, twin.Alike L) : Node.AllAlike L children children' := by
  obtain ⟨shape, hs, hg⟩ := hi
  exact .of_grown hg (fun child hm => (hs child hm).unliteral) h

theorem Agree.bind {R : α → α' → Prop} {Q : β → β' → Prop} {outcome : Except Mistake α}
    {outcome' : Except Mistake α'} {f : α → Except Mistake β} {f' : α' → Except Mistake β'}
    (ho : Agree L R outcome outcome') (hf : ∀ a a', R a a' → Agree L Q (f a) (f' a')) :
    Agree L Q (outcome >>= f) (outcome' >>= f') := by
  cases ho with
  | ok h => exact hf _ _ h
  | error h => exact .error h

/-- Steps like those that build trees, but other trees are built: `leaf` makes their terminals and
`spanning` their inner nodes. -/
def Making (_ : Kind → Nat → List Char → Node) (_ : Kind → Nat → Nat → List Child → Node)
    (α : Type) := Except Mistake α

def MakingReader (_ : Kind → Nat → List Char → Node) (_ : Kind → Nat → Nat → List Child → Node)
    (α : Type) := Reader α

section

variable {leaf : Kind → Nat → List Char → Node} {spanning : Kind → Nat → Nat → List Child → Node}

instance : Monad (Making leaf spanning) := inferInstanceAs (Monad (Except Mistake))

instance : LawfulMonad (Making leaf spanning) :=
  inferInstanceAs (LawfulMonad (Except Mistake))

instance : Builder (Making leaf spanning) Node where
  fail complaint span := Except.error ⟨complaint, span⟩
  leaf kind start text := Except.ok (leaf kind start text)
  spanning kind start stop children := Except.ok (spanning kind start stop children)
  spans := Except.ok Node.span

instance : LineReader (MakingReader leaf spanning) (Making leaf spanning) :=
  inferInstanceAs (LineReader Reader (Except Mistake))

/-- What is made of alike pieces and children is related by `R`. -/
structure Likeness.Makes (L : Likeness) (R : Twin Node Node → Prop)
    (leaf : Kind → Nat → List Char → Node)
    (spanning : Kind → Nat → Nat → List Child → Node) : Prop where
  leaf : ∀ {kind start start' text text'}, Lexeme kind text →
    L.Piece kind start start' text text' →
      R ⟨.leaf kind start text, leaf kind start' text', kind⟩
  spanning : ∀ {held now kind shape start start' stop stop' children children'},
    Produces kind shape → L.offset start start' → L.offset stop stop' →
      Grown held shape children children' now → (∀ twin ∈ now, R twin) →
        R ⟨.spanning kind start stop children, spanning kind start' stop' children', kind⟩
  span : ∀ {twin}, R twin → twin.left.span.Alike L twin.right.span

variable {R : Twin Node Node → Prop}

def layoutSteps (hm : L.Makes R leaf spanning) :
    Simulation L (Except Mistake) (Making leaf spanning) where
  Rel held Q outcome outcome' := (∀ twin ∈ held, R twin) →
    Agree L (fun a a' => ∃ now : Held Node Node, (∀ twin ∈ now, R twin) ∧ Q a a' now)
      outcome outcome'
  pure hq hh := .ok ⟨_, hh, hq⟩
  bind h hf hh := (h hh).bind fun a a' ⟨now, hn, hp⟩ => hf a a' now hp hn
  fail hs _ := .error ⟨rfl, hs⟩
  leaf hl hp hh := .ok ⟨_, List.forall_mem_cons.2 ⟨hm.leaf hl hp, hh⟩, rfl⟩
  spanning hp hs ht hg hh := .ok ⟨_, List.forall_mem_cons.2
    ⟨hm.spanning hp hs ht hg hh, fun twin ht => hh twin (hg.subset ht)⟩, rfl⟩
  spans hh := .ok ⟨_, hh, rfl, fun twin ht => hm.span (hh twin ht)⟩

end

namespace Passage

variable {R : α → α' → List Line → Prop} {Q : β → β' → List Line → Prop} {reader : Reader α}
  {reader' : Reader α'} {f : α → Reader β} {f' : α' → Reader β'} {other : List Line}

theorem Meets.bind (h : Meets L closing lines R (reader lines) (reader' other))
    (hf : ∀ a a' left rest, left <:+ lines → R a a' left → Line.AllAlike L left rest →
      Meets L closing left Q (f a left) (f' a' (rest ++ closing))) :
    Meets L closing lines Q ((reader >>= f) lines) ((reader' >>= f') other) := by
  rw [Reader.run_bind, Reader.run_bind]
  generalize reader lines = passage at h ⊢
  generalize reader' other = passage' at h ⊢
  cases h with
  | error h hn => exact .error h hn
  | @ok a a' _ _ left rest h hn hl hr =>
    have ha := hf a a' left rest hl h hr
    dsimp only
    generalize f a left = after at ha ⊢
    generalize f' a' (rest ++ closing) = after' at ha ⊢
    cases ha with
    | ok h hn' hl' hr' => exact .ok h (List.rel_append hn hn') (hl'.trans hl) hr'
    | error h hn' => exact .error h (List.rel_append hn hn')

theorem Meets.mono {S : α → α' → List Line → Prop} {passage : Passage α} {passage' : Passage α'}
    (h : Meets L closing lines R passage passage') (hs : ∀ a a' left, R a a' left → S a a' left) :
    Meets L closing lines S passage passage' := by
  cases h with
  | ok h hn hl hr => exact .ok (hs _ _ _ h) hn hl hr
  | error h hn => exact .error h hn

/-- What is tried goes on where it began if it fails. -/
theorem Meets.attempt (h : Meets L closing lines R (reader lines) (reader' (other ++ closing)))
    (hl : Line.AllAlike L lines other) {S : Except Mistake α → Except Mistake α' → List Line → Prop}
    (hok : ∀ a a' left, R a a' left → S (.ok a) (.ok a') left)
    (herror : ∀ mistake mistake', mistake.Alike L mistake' →
      S (.error mistake) (.error mistake') lines) :
    Meets L closing lines S
      ((LineReader.attempt reader : Reader (Except Mistake α)) lines)
      ((LineReader.attempt reader' : Reader (Except Mistake α')) (other ++ closing)) := by
  rw [Reader.run_attempt, Reader.run_attempt]
  generalize reader lines = passage at h ⊢
  generalize reader' (other ++ closing) = passage' at h ⊢
  cases h with
  | ok ha hn hs hr => exact .ok (hok _ _ _ ha) hn hs hr
  | error hm hn => exact .ok (herror _ _ hm) hn (List.suffix_refl _) hl

end Passage

def layoutsOf {R : Twin Node Node → Prop} {leaf : Kind → Nat → List Char → Node}
    {spanning : Kind → Nat → Nat → List Child → Node} (hm : L.Makes R leaf spanning)
    (closing : List Line) : LineSimulation L closing Reader (MakingReader leaf spanning) where
  steps := layoutSteps hm
  Rel lines held Q reader reader' := ∀ lines', Line.AllAlike L lines lines' →
    (∀ twin ∈ held, R twin) → Passage.Meets L closing lines
      (fun a a' left => ∃ now : Held Node Node, (∀ twin ∈ now, R twin) ∧ Q a a' left now)
      (reader lines) (reader' (lines' ++ closing))
  pure hq _ hl hh := .ok ⟨_, hh, hq⟩ .nil (List.suffix_refl _) hl
  bind h hf lines' hl hh := (h lines' hl hh).bind fun a a' left rest hs ⟨now, hn, hp⟩ hr =>
    hf a a' left now hs hp rest hr hn
  mono h hq lines' hl hh := (h lines' hl hh).mono fun a a' left ⟨now, hn, hp⟩ =>
    ⟨now, hn, hq a a' left now hp⟩
  onLine h lines' hl hh := by
    cases h hh with
    | ok ha =>
      obtain ⟨now, hn, hp⟩ := ha
      exact .ok ⟨now, hn, rfl, hp⟩ .nil (List.suffix_refl _) hl
    | error hm => exact .error hm .nil
  peek lines' hl hh := .ok ⟨_, hh, rfl, rfl, rfl, lines', hl, rfl⟩ .nil (List.suffix_refl _) hl
  goto hs hl' _ _ hh := .ok ⟨_, hh, rfl, rfl⟩ .nil hs hl'
  note hm _ hl hh := .ok ⟨_, hh, rfl, rfl⟩ hm (List.suffix_refl _) hl
  attempt h lines' hl hh := (h lines' hl nofun).attempt hl
    (fun _ _ _ ⟨own, ho, hq⟩ =>
      ⟨own ++ _, List.forall_mem_append.2 ⟨ho, hh⟩, .inl ⟨_, _, own, rfl, rfl, rfl, hq⟩⟩)
    fun _ _ hm => ⟨_, hh, .inr ⟨_, _, rfl, rfl, rfl, rfl, hm⟩⟩

theorem Node.alike_makes (L : Likeness) [L.Reaches] :
    L.Makes (Twin.Alike L) Node.leaf Node.spanning where
  leaf _ hp := ⟨Node.alike_leaf hp, rfl⟩
  spanning hp hs ht hg hh := ⟨Node.alike_spanning hs ht (.of_grown hg hp.unliteral hh), rfl⟩
  span h := h.tree.span

def layouts (L : Likeness) [L.Reaches] (closing : List Line) :
    LineSimulation L closing Reader Reader :=
  layoutsOf (Node.alike_makes L) closing

structure Script.Alike (L : Likeness) (script script' : Script) : Prop where
  tree : script.tree.Alike L script'.tree
  mistakes : List.Forall₂ (Mistake.Alike L) script.mistakes script'.mistakes

/-- A script is built as the other nodes are that are made of alike lines. -/
theorem parse_makes {R : Twin Node Node → Prop} {leaf : Kind → Nat → List Char → Node}
    {spanning : Kind → Nat → Nat → List Child → Node} (hm : L.Makes R leaf spanning)
    {source source' : List Char} (h : Line.AllAlike L (Line.split source) (Line.split source'))
    (hstart : L.offset 0 0) (hstop : L.offset (Text.bytes source) (Text.bytes source')) :
    ∃ tree mistakes left,
      sourceFile (r := MakingReader leaf spanning) source' (Line.split source') =
        ⟨.ok tree, mistakes, left⟩ ∧
      R ⟨(parse source).tree, tree, .sourceFile⟩ ∧
      List.Forall₂ (Mistake.Alike L) (parse source).mistakes mistakes := by
  have hall : (layoutsOf hm []).Rel (Line.split source) [] (Built (· = .sourceFile) [])
      (sourceFile source) (sourceFile source') := sourceFile_alike _ hstart hstop
  have hp := hall _ h nofun
  obtain ⟨left, hr⟩ := parse_reads source
  rw [List.append_nil, hr] at hp
  generalize sourceFile (r := MakingReader leaf spanning) source' (Line.split source') =
    passage at hp ⊢
  cases hp with
  | ok ha hn =>
    obtain ⟨now, hh, _, rfl, rfl⟩ := ha
    exact ⟨_, _, _, rfl, hh _ List.mem_cons_self, hn⟩

theorem parse_alike [L.Reaches] {source source' : List Char}
    (h : Line.AllAlike L (Line.split source) (Line.split source')) (hstart : L.offset 0 0)
    (hstop : L.offset (Text.bytes source) (Text.bytes source')) :
    (parse source).Alike L (parse source') := by
  obtain ⟨tree, mistakes, left, hr, ht, hn⟩ := parse_makes (Node.alike_makes L) h hstart hstop
  obtain ⟨left', hr'⟩ := parse_reads source'
  obtain ⟨ho, rfl, -⟩ := Passage.mk.inj (hr'.symm.trans hr)
  obtain rfl := Except.ok.inj ho
  exact ⟨ht.tree, hn⟩

end ArchiveScript
