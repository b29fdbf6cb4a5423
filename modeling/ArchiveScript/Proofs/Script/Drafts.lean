import ArchiveScript.Proofs.Script.Blocks
import ArchiveScript.Proofs.Script.StatementLikeness
import ArchiveScript.Proofs.Tree.Arena

/-! # Trees of drafts

A script that is read into an arena has the tree there that the readers of trees come back with.
What is held while an item is read belongs to the reader of the item alone: it is lost if the item
cannot be read, and otherwise each node becomes the child of one other node.
-/

namespace ArchiveScript

open Grammar

variable {source : List Char} {entries : List Entry} {held now frame : Held Node Nat}
  {α α' β β' : Type}

/-- The same text at the same offsets, which is that of a source. -/
def Likeness.cut (source : List Char) : Likeness :=
  .covering
    (.ofOffsets (fun a b => b = a) [] True (fun h h' => h ▸ h' ▸ rfl) (fun h h' => h ▸ h' ▸ rfl)
      fun h h' => h ▸ h' ▸ rfl)
    (fun start text => Span.slice ⟨start, start + Text.bytes text⟩ source = text)
    fun start => Span.slice_empty start source

instance : (Likeness.cut source).Exact := ⟨id, id, rfl, trivial⟩

namespace Draft

/-- What is held stands in the arena, and each entry is held once or has one parent. -/
structure Holds (source : List Char) (entries : List Entry) (held : Held Node Nat) : Prop where
  found : ∀ twin ∈ held, (Arena.nodes (text source) entries)[twin.right]? = some twin.left
  ascends : Arena.Ascends entries
  once : (Arena.references entries ++ held.map (·.right)).Nodup

namespace Holds

theorem empty : Holds source [] [] where
  found := nofun
  ascends := fun position entry h => by simp at h
  once := List.nodup_nil

theorem sublist (h : Holds source entries now) (hs : held.Sublist now) :
    Holds source entries held where
  found twin hm := h.found twin (hs.subset hm)
  ascends := h.ascends
  once := h.once.sublist ((List.Sublist.refl _).append (hs.map _))

/-- A new entry takes its children from what is held and is held itself. -/
theorem add {entry : Entry} {node : Node} (h : Holds source entries now)
    (hp : (now.map (·.right)).Perm (entry.children.map (·.2) ++ held.map (·.right)))
    (hs : held ⊆ now)
    (hn : (Arena.nodes (text source) (entries ++ [entry]))[entries.length]? = some node)
    (kind : Kind) :
    Holds source (entries ++ [entry]) (⟨node, entries.length, kind⟩ :: held) := by
  have hlt : ∀ position ∈ Arena.references entries ++ now.map (·.right),
      position < entries.length := by
    refine List.forall_mem_append.2 ⟨fun position hm => h.ascends.lt_of_mem hm, ?_⟩
    intro position hm
    obtain ⟨twin, htwin, rfl⟩ := List.mem_map.1 hm
    exact Arena.lt_of_getElem?_nodes (h.found twin htwin)
  have hall := (List.Perm.refl (Arena.references entries)).append hp
  constructor
  · intro twin hm
    rcases List.mem_cons.1 hm with rfl | hm
    · exact hn
    · exact Arena.getElem?_nodes_mono (h.found twin (hs hm)) entry
  · apply h.ascends.concat
    intro child hc
    apply hlt
    exact hall.mem_iff.2 (List.mem_append_right _ (List.mem_append_left _ (List.mem_map_of_mem hc)))
  · have hnodup : (entries.length :: (Arena.references entries ++
        (entry.children.map (·.2) ++ held.map (·.right)))).Nodup :=
      List.nodup_cons.2 ⟨fun hm => Nat.lt_irrefl _ (hlt _ (hall.mem_iff.2 hm)),
        hall.nodup_iff.1 h.once⟩
    rw [Arena.references_concat, List.map_cons]
    refine (List.Perm.nodup_iff ?_).1 hnodup
    rw [← List.append_assoc]
    exact List.perm_middle.symm

theorem leaf {kind : Kind} {start start' : Nat} {text text' : List Char}
    (h : Holds source entries held) (hl : Lexeme kind text)
    (hp : (Likeness.cut source).Piece kind start start' text text') :
    Holds source
      (entries ++ [⟨kind, .between start' (start' + Text.bytes text'), []⟩])
      (⟨.leaf kind start text, entries.length, kind⟩ :: held) := by
  obtain rfl : start' = start := hp.begins
  obtain rfl : text' = text := hp.literal
  refine h.add (.refl _) (List.Subset.refl _) ?_ _
  rw [Arena.getElem?_nodes_concat, if_pos rfl]
  have htext : Draft.text source ⟨kind, .between start' (start' + Text.bytes text'), []⟩ =
      if start' + Text.bytes text' ≤ Span.maxOffset then String.ofList text' else "" := by
    have hslice : Span.slice ⟨start', start' + Text.bytes text'⟩ source = text' := hp.covers
    unfold Draft.text Entry.text
    split
    · split
      · rw [Span.between_eq (by omega) (by assumption), hslice]
      · rw [Span.between_eq_nowhere _ (by omega), Span.slice_nowhere]
    · rename_i hk
      obtain ⟨-, rfl⟩ := hl.terminal.resolve_left hk
      exact (ite_self _).symm
  simp only [htext]
  rfl

theorem lookUp {children : List Child} {children' : List (Option Field × Nat)}
    {shape : Shape} (h : Holds source entries now) (hg : Grown held shape children children' now) :
    Arena.lookUp (Arena.nodes (text source) entries) children' = children := by
  induction hg with
  | nil => rfl
  | cons hr ih => rw [Arena.lookUp_cons (h.found _ (hr.subset List.mem_cons_self)), ih h]

theorem spanAt {entries : Array Entry} (h : Holds source entries.toList held) {twin : Twin Node Nat}
    (hm : twin ∈ held) : Drafting.spanAt entries twin.right = twin.left.span := by
  have hs := Arena.span_nodes (text source) entries.toList twin.right
  rw [h.found twin hm, Array.getElem?_toList] at hs
  rw [Drafting.spanAt, ← hs]
  rfl

theorem furthest {children : List Child} {children' : List (Option Field × Nat)}
    {entries : Array Entry} {shape : Shape} (h : Holds source entries.toList now)
    (hg : Grown held shape children children' now) (stop : Nat) :
    (children'.foldl
      (fun furthest child => max furthest (Drafting.spanAt entries child.2).stop) stop) =
        children.foldl (fun furthest child => max furthest child.2.span.stop) stop := by
  induction hg generalizing stop with
  | nil => rfl
  | cons hr ih =>
    rw [List.foldl_cons, List.foldl_cons, h.spanAt (hr.subset List.mem_cons_self), ih h]

theorem spanning {kind : Kind} {shape : Shape} {start start' stop stop' : Nat}
    {children : List Child} {children' : List (Option Field × Nat)} {entries : Array Entry}
    (h : Holds source entries.toList (now ++ frame)) (hp : Produces kind shape)
    (hs : start' = start) (ht : stop' = stop) (hg : Grown held shape children children' now) :
    Holds source
      (entries.toList ++ [Drafting.enclosing kind start' stop' children' entries])
      (⟨.spanning kind start stop children, entries.size, kind⟩ :: (held ++ frame)) := by
  subst hs ht
  have hsize : entries.size = entries.toList.length := Array.length_toList.symm
  have hnow : Holds source entries.toList now := h.sublist (List.sublist_append_left now frame)
  have htext (span : Span) : Draft.text source ⟨kind, span, children'⟩ = "" := by
    rw [Draft.text, hp.inner, if_neg Bool.false_ne_true]
  rw [hsize]
  refine h.add ?_ (fun twin hm => ?_) ?_ _
  · rw [List.map_append, List.map_append, ← List.append_assoc]
    exact hg.perm.append_right _
  · exact (List.mem_append.1 hm).elim (fun hm => List.mem_append_left _ (hg.subset hm))
      (List.mem_append_right _)
  · rw [Arena.getElem?_nodes_concat, if_pos rfl]
    simp only [Drafting.enclosing, hnow.furthest hg, hnow.lookUp hg, htext]
    rfl

end Holds

end Draft

theorem Drafting.run_bind (step : Drafting α) (f : α → Drafting β) (entries : Array Entry) :
    (step >>= f) entries =
      match step entries with
      | (.ok a, entries) => f a entries
      | (.error mistake, entries) => (.error mistake, entries) := rfl

namespace DraftReader

theorem run_bind (reader : DraftReader α) (f : α → DraftReader β) (lines : List Line)
    (entries : Array Entry) :
    (reader >>= f) lines entries =
      match reader lines entries with
      | (⟨.ok a, noted, left⟩, entries) =>
        let (after, entries) := f a left entries
        (⟨after.outcome, noted ++ after.noted, after.left⟩, entries)
      | (⟨.error mistake, noted, left⟩, entries) => (⟨.error mistake, noted, left⟩, entries) := rfl

theorem run_attempt (reader : DraftReader α) (lines : List Line) (entries : Array Entry) :
    (LineReader.attempt reader : DraftReader (Except Mistake α)) lines entries =
      match reader lines entries with
      | (⟨.ok a, noted, left⟩, entries) => (⟨.ok (.ok a), noted, left⟩, entries)
      | (⟨.error mistake, noted, _⟩, entries) =>
        (⟨.ok (.error mistake), noted, lines⟩, entries) := rfl

end DraftReader

namespace Draft

/-- A step comes to the same on both sides. What is held then is in the arena, or at least what was
there from the beginning. -/
inductive Steps (source : List Char) (frame : Held Node Nat)
    (Q : α → α' → Held Node Nat → Prop) :
    Except Mistake α → Except Mistake α' × Array Entry → Prop
  | ok {a : α} {a' : α'} {entries : Array Entry} {now : Held Node Nat} (hq : Q a a' now)
      (h : Holds source entries.toList (now ++ frame)) :
      Steps source frame Q (.ok a) (.ok a', entries)
  | error {mistake : Mistake} {entries : Array Entry} (h : Holds source entries.toList frame) :
      Steps source frame Q (.error mistake) (.error mistake, entries)

def steps (source : List Char) : Simulation (.cut source) (Except Mistake) Drafting where
  Rel held Q outcome step := ∀ (entries : Array Entry) frame,
    Holds source entries.toList (held ++ frame) → Steps source frame Q outcome (step entries)
  pure hq entries frame h := .ok hq h
  bind {_ _ _ _ _ _ _ outcome step f g} h hf entries frame hh := by
    have hs := h entries frame hh
    rw [Drafting.run_bind]
    generalize step entries = done at hs ⊢
    cases hs with
    | ok hq hh' => exact hf _ _ _ hq _ frame hh'
    | error hh' => exact .error hh'
  fail hs entries frame h := by
    obtain rfl := hs.eq
    exact .error (h.sublist (List.sublist_append_right _ _))
  leaf hl hp entries frame h := by
    have hadded := h.leaf hl hp
    rw [Array.length_toList, ← Array.toList_push] at hadded
    exact .ok rfl hadded
  spanning hp hs ht hg entries frame h := by
    have hadded := h.spanning hp hs ht hg
    rw [← Array.toList_push] at hadded
    exact .ok rfl hadded
  spans {held} entries frame h := by
    refine .ok ⟨rfl, fun twin hm => ?_⟩ h
    rw [h.spanAt (List.mem_append_left _ hm)]
    exact ⟨rfl, rfl⟩

inductive Passes (source : List Char) (lines : List Line) (frame : Held Node Nat)
    (Q : α → α' → List Line → Held Node Nat → Prop) :
    Passage α → Passage α' × Array Entry → Prop
  | ok {a : α} {a' : α'} {noted : List Mistake} {left : List Line} {entries : Array Entry}
      {now : Held Node Nat} (hq : Q a a' left now) (hl : left <:+ lines)
      (h : Holds source entries.toList (now ++ frame)) :
      Passes source lines frame Q ⟨.ok a, noted, left⟩ (⟨.ok a', noted, left⟩, entries)
  | error {mistake : Mistake} {noted : List Mistake} {left : List Line} {entries : Array Entry}
      (h : Holds source entries.toList frame) :
      Passes source lines frame Q ⟨.error mistake, noted, left⟩
        (⟨.error mistake, noted, left⟩, entries)

def readers (source : List Char) : LineSimulation (.cut source) [] Reader DraftReader where
  steps := steps source
  Rel lines held Q reader reader' := (∀ line ∈ lines, line.Alike (.cut source) line) →
    ∀ (entries : Array Entry) frame, Holds source entries.toList (held ++ frame) →
      Passes source lines frame Q (reader lines) (reader' lines entries)
  pure hq _ entries frame h := .ok hq (List.suffix_refl _) h
  bind {_ _ _ _ lines _ _ _ reader reader' f f'} h hf hl entries frame hh := by
    have hs := h hl entries frame hh
    rw [Reader.run_bind, DraftReader.run_bind]
    generalize reader lines = passage at hs ⊢
    generalize reader' lines entries = done at hs ⊢
    cases hs with
    | error hh' => exact .error hh'
    | @ok a a' _ left after now hq hs' hh' =>
      have ha := hf a a' left now hs' hq (fun line hm => hl line (hs'.subset hm)) after frame hh'
      dsimp only
      generalize f a left = passage at ha ⊢
      generalize f' a' left after = done at ha ⊢
      cases ha with
      | ok hq hs hh => exact .ok hq (hs.trans hs') hh
      | error hh => exact .error hh
  mono {_ _ lines _ _ _ reader reader'} h hq hl entries frame hh := by
    have hs := h hl entries frame hh
    generalize reader lines = passage at hs ⊢
    generalize reader' lines entries = done at hs ⊢
    cases hs with
    | ok hp hs hh => exact .ok (hq _ _ _ _ hp) hs hh
    | error hh => exact .error hh
  onLine {_ _ lines _ _ step step'} h hl entries frame hh := by
    have hs := h entries frame hh
    change Passes source lines frame _ ⟨step, [], lines⟩
      (let (outcome, entries) := step' entries; (⟨outcome, [], lines⟩, entries))
    generalize step' entries = done at hs ⊢
    cases hs with
    | ok hq hh => exact .ok ⟨rfl, hq⟩ (List.suffix_refl _) hh
    | error hh => exact .error hh
  peek hl entries frame hh := by
    have hall := List.forall₂_same.2 hl
    exact .ok ⟨rfl, rfl, rfl, _, hall, (List.append_nil _).symm⟩ (List.suffix_refl _) hh
  goto hs hl _ entries frame hh := by
    obtain rfl := hl.eq
    rw [List.append_nil]
    exact .ok ⟨rfl, rfl⟩ hs hh
  note hm hl entries frame hh := by
    obtain rfl := Mistake.all_eq hm
    exact .ok ⟨rfl, rfl⟩ (List.suffix_refl _) hh
  attempt {_ _ lines held _ reader reader'} h hl entries frame hh := by
    have hs := h hl entries (held ++ frame) hh
    rw [Reader.run_attempt, DraftReader.run_attempt]
    generalize reader lines = passage at hs ⊢
    generalize reader' lines entries = done at hs ⊢
    cases hs with
    | ok hq hs hh =>
      rw [← List.append_assoc] at hh
      exact .ok (.inl ⟨_, _, _, rfl, rfl, rfl, hq⟩) hs hh
    | error hh =>
      exact .ok (.inr ⟨_, _, rfl, rfl, rfl, rfl, rfl, rfl, rfl⟩) (List.suffix_refl _) hh

end Draft

theorem Line.Within.alike_cut {line : Line} (h : line.Within source) :
    line.Alike (.cut source) line := by
  constructor
  · rfl
  · rfl
  · rfl
  · exact fun _ _ => rfl
  · rfl
  · exact fun _ _ => rfl
  · obtain ⟨before, after, rfl, hb⟩ := h
    intro first text rest hw
    have hs := Span.slice_append (before ++ first) text (rest ++ after)
    rw [Text.bytes_append, hb] at hs
    change Span.slice _ _ = _
    rw [hw]
    simpa only [List.append_assoc] using hs

/-- The node of a whole script is put into an arena as it is read without one. -/
theorem draft_passes (source : List Char) :
    Draft.Passes source (Line.split source) [] (Built (· = .sourceFile) [])
      (sourceFile (r := Reader) source (Line.split source))
      (sourceFile (r := DraftReader) source (Line.split source) #[]) :=
  sourceFile_alike (Draft.readers source) rfl rfl
    (fun _ hm => ((Line.split_follow source).within hm).alike_cut) #[] [] .empty

theorem draft_holds (source : List Char) :
    ∃ tree left, sourceFile (r := Reader) source (Line.split source) =
        ⟨.ok tree, (draft source).mistakes, left⟩ ∧
      Draft.Holds source (draft source).entries [⟨tree, (draft source).root, .sourceFile⟩] := by
  obtain ⟨items, hitems⟩ := blockItems_ok ((Line.split source).length + 1) none none .topLevel
    (Line.split source)
  have h := draft_passes source
  rw [run_sourceFile hitems] at h ⊢
  unfold draft
  generalize sourceFile (r := DraftReader) source (Line.split source) #[] = done at h ⊢
  cases h with
  | ok hq hl hh =>
    obtain ⟨_, rfl, rfl⟩ := hq
    exact ⟨_, _, rfl, hh⟩

/-- A script is what the readers of trees come back with. -/
theorem parse_reads (source : List Char) :
    ∃ left, sourceFile (r := Reader) source (Line.split source) =
      ⟨.ok (parse source).tree, (parse source).mistakes, left⟩ := by
  obtain ⟨tree, left, hr, hh⟩ := draft_holds source
  have hfound := hh.found _ List.mem_cons_self
  refine ⟨left, ?_⟩
  rw [hr]
  simp [parse, Draft.tree, hfound]

theorem parse_of_topItems {source : List Char} {items : List Child} {mistakes : List Mistake}
    (ho : (topItems (Line.split source)).outcome = .ok items)
    (hn : (topItems (Line.split source)).noted = mistakes) :
    (parse source).tree = .spanning .sourceFile 0 (Text.bytes source) items ∧
      (parse source).mistakes = mistakes := by
  obtain ⟨left, hr⟩ := parse_reads source
  rw [run_sourceFile ho, hn] at hr
  exact ⟨(Except.ok.inj (congrArg Passage.outcome hr)).symm, (congrArg Passage.noted hr).symm⟩

theorem kind_parse (source : List Char) : (parse source).tree.kind = .sourceFile := by
  obtain ⟨items, hitems⟩ := blockItems_ok ((Line.split source).length + 1) none none .topLevel
    (Line.split source)
  rw [(parse_of_topItems hitems rfl).1]
  rfl

/-- In the arena of a script, children come before their parents. Each node below the root has
exactly one parent, and the root has none. -/
theorem draft_rooted (source : List Char) :
    Arena.Rooted (draft source).entries (draft source).root := by
  obtain ⟨_, _, _, hh⟩ := draft_holds source
  exact .of_nodup hh.ascends hh.once

end ArchiveScript
