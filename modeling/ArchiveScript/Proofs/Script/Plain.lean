import ArchiveScript.Proofs.Script.Layouts

/-! # Trees without spans

What a script means is in the kinds and the texts of its tree. To say what is read, a script can be
read as a tree without spans, whose terminals keep their texts wherever they are. It is the tree of
the script as long as all of that is in reach of spans. The texts of terminals that end out of reach
are lost.
-/

namespace ArchiveScript

open Grammar

namespace Node

mutual

def bare : Node → Node
  | mk kind _ text children => mk kind .nowhere text (bares children)

def bares : List (Option Field × Node) → List (Option Field × Node)
  | [] => []
  | (place, child) :: rest => (place, child.bare) :: bares rest

end

def terminal (kind : Kind) (text : List Char) : Node := mk kind .nowhere (String.ofList text) []

def branch (kind : Kind) (children : List Child) : Node := mk kind .nowhere "" children

theorem bares_cons (child : Child) (rest : List Child) :
    bares (child :: rest) = (child.1, child.2.bare) :: bares rest := rfl

theorem bares_eq_map (children : List Child) :
    bares children = children.map fun child => (child.1, child.2.bare) := by
  induction children with
  | nil => rfl
  | cons child rest ih =>
    rw [bares_cons, ih]
    rfl

end Node

abbrev Plain : Type → Type :=
  Making (fun kind _ text => Node.terminal kind text) fun kind _ _ children =>
    Node.branch kind children

abbrev PlainReader : Type → Type :=
  MakingReader (fun kind _ text => Node.terminal kind text) fun kind _ _ children =>
    Node.branch kind children

def Likeness.anywhere : Likeness :=
  .ofOffsets (fun _ _ => True) [] True (fun _ _ => trivial) (fun _ _ => trivial) fun _ _ => trivial

theorem Line.alike_anywhere (line : Line) : line.Alike .anywhere line where
  margin := rfl
  body := rfl
  start := trivial
  offset _ _ := trivial
  next := trivial
  literal _ _ := rfl
  covers _ _ _ _ := trivial

def Text.StandsAt (source : List Char) (start : Nat) (text : List Char) : Prop :=
  ∃ before after, source = before ++ (text ++ after) ∧ Text.bytes before = start

/-- The same text, wherever it stands in the source. -/
def Likeness.found (source : List Char) : Likeness :=
  Likeness.anywhere.covering (fun start text => text = [] ∨ Text.StandsAt source start text)
    fun _ => .inl rfl

variable {source : List Char}

theorem Line.Within.alike_found {line : Line} (h : line.Within source) :
    line.Alike (.found source) line where
  margin := rfl
  body := rfl
  start := trivial
  offset _ _ := trivial
  next := trivial
  literal _ _ := rfl
  covers first text rest hw := by
    obtain ⟨before, after, rfl, hb⟩ := h
    refine .inr ⟨before ++ first, rest ++ after, ?_, ?_⟩
    · rw [hw]
      simp only [List.append_assoc]
    · rw [Text.bytes_append, hb]

theorem Line.split_alike_found (source : List Char) :
    AllAlike (.found source) (split source) (split source) :=
  List.forall₂_same.2 fun _ hm => ((split_follow source).within hm).alike_found

/-- Wherever the text stands in the source, it ends out of reach of spans. -/
def Text.OutOfReach (source text : List Char) : Prop :=
  ∀ start, StandsAt source start text → Span.maxOffset < start + Text.bytes text

theorem Text.OutOfReach.of_bytes {text : List Char} (h : Span.maxOffset < Text.bytes text) :
    Text.OutOfReach source text :=
  fun _ _ => Nat.lt_of_lt_of_le h (Nat.le_add_left _ _)

/-- A text with a mark that comes once, and late, is out of reach. -/
theorem Text.OutOfReach.of_mark {mark : Char} {first rest text : List Char}
    (hs : source = first ++ mark :: rest) (hf : mark ∉ first) (ht : mark ∈ text)
    (hreach : Span.maxOffset ≤ Text.bytes first) : Text.OutOfReach source text := by
  rintro _ ⟨before, after, hsource, rfl⟩
  obtain ⟨head, tail, rfl⟩ := List.mem_iff_append.1 ht
  have hmark := mark.utf8Size_pos
  have hle : Text.bytes first ≤ Text.bytes (before ++ head) := by
    have heq : first ++ mark :: rest = (before ++ head) ++ mark :: (tail ++ after) := by
      rw [← hs, hsource]
      simp
    rcases List.append_eq_append_iff.1 heq with ⟨more, hmore, -⟩ | ⟨more, hfirst, hrest⟩
    · rw [hmore, Text.bytes_append]
      exact Nat.le_add_right _ _
    · cases more with
      | nil => exact Nat.le_of_eq (congrArg Text.bytes (hfirst.trans (List.append_nil _)))
      | cons c cs =>
        obtain rfl := (List.cons.inj hrest).1
        exact absurd (hfirst ▸ List.mem_append_right _ List.mem_cons_self) hf
  simp only [Text.bytes_append, Text.bytes_cons] at hle ⊢
  omega

theorem Node.text_leaf {kind : Kind} {start start' : Nat} {text text' : List Char}
    (h : (Likeness.found source).Piece kind start start' text text')
    (hsize : Text.bytes source ≤ Span.maxOffset) :
    (leaf kind start text).text = String.ofList text := by
  rcases h.covers with rfl | ⟨before, after, rfl, rfl⟩
  · exact ite_self _
  · simp only [Text.bytes_append] at hsize
    exact if_pos (by omega)

namespace Node

mutual

/-- The first tree has the kinds and the fields of the second one, which has no spans. It has lost
texts that are out of reach. -/
inductive Fades (source : List Char) : Node → Node → Prop
  | mk {kind : Kind} {span : Span} {text text' : String}
      {children children' : List (Option Field × Node)} (ht : text = text' ∨ text = "")
      (hk : Text.bytes source ≤ Span.maxOffset → text = text')
      (hl : Text.OutOfReach source text'.toList → text = "")
      (hc : AllFade source children children') :
      Fades source (.mk kind span text children) (.mk kind .nowhere text' children')

inductive AllFade (source : List Char) :
    List (Option Field × Node) → List (Option Field × Node) → Prop
  | nil : AllFade source [] []
  | cons {place : Option Field} {child child' : Node} {rest rest' : List (Option Field × Node)}
      (hc : Fades source child child') (hr : AllFade source rest rest') :
      AllFade source ((place, child) :: rest) ((place, child') :: rest')

end

namespace Fades

variable {node : Node} {kind : Kind} {text : List Char} {children' : List Child}

theorem lost (h : Fades source node (terminal kind text)) (ht : Text.OutOfReach source text) :
    ∃ span, node = .mk kind span "" [] := by
  cases h with
  | mk _ _ hl hc =>
    cases hc
    rw [hl (by rwa [String.toList_ofList])]
    exact ⟨_, rfl⟩

theorem kept (h : Fades source node (terminal kind text))
    (hsize : Text.bytes source ≤ Span.maxOffset) :
    ∃ span, node = .mk kind span (String.ofList text) [] := by
  cases h with
  | mk _ hk _ hc =>
    cases hc
    rw [hk hsize]
    exact ⟨_, rfl⟩

theorem exists_terminal (h : Fades source node (terminal kind text)) :
    ∃ span shown, node = .mk kind span shown [] := by
  cases h with
  | mk _ _ _ hc =>
    cases hc
    exact ⟨_, _, rfl⟩

theorem exists_branch (h : Fades source node (branch kind children')) :
    ∃ span children, node = .mk kind span "" children ∧ AllFade source children children' := by
  cases h with
  | mk ht _ _ hc =>
    rw [ht.elim id id]
    exact ⟨_, _, rfl, hc⟩

end Fades

theorem AllFade.exists_cons {children rest' : List Child} {place : Option Field} {child' : Node}
    (h : AllFade source children ((place, child') :: rest')) :
    ∃ child rest, children = (place, child) :: rest ∧ child.Fades source child' ∧
      AllFade source rest rest' := by
  cases h with
  | cons hc hr => exact ⟨_, _, rfl, hc, hr⟩

theorem AllFade.of_grown {held now : Held Node Node} {shape : Shape}
    {children children' : List Child} (hg : Grown held shape children children' now)
    (h : ∀ twin ∈ now, twin.left.Fades source twin.right) : AllFade source children children' := by
  induction hg with
  | nil => exact .nil
  | cons hr ih => exact .cons (h _ (hr.subset List.mem_cons_self)) (ih h)

end Node

mutual

theorem Node.Fades.bare {node node' : Node} (hsize : Text.bytes source ≤ Span.maxOffset) :
    Node.Fades source node node' → node.bare = node'
  | .mk _ hk _ hc => by rw [Node.bare, hk hsize, hc.bares hsize]

theorem Node.AllFade.bares {children children' : List (Option Field × Node)}
    (hsize : Text.bytes source ≤ Span.maxOffset) :
    Node.AllFade source children children' → Node.bares children = children'
  | .nil => rfl
  | .cons hc hr => by rw [Node.bares, hc.bare hsize, hr.bares hsize]

end

theorem Node.fades_leaf {kind : Kind} {start start' : Nat} {text text' : List Char}
    (h : (Likeness.found source).Piece kind start start' text text') :
    (leaf kind start text).Fades source (terminal kind text') := by
  obtain rfl : text' = text := h.literal
  refine .mk ?_ (text_leaf h) ?_ .nil
  · exact (Decidable.em _).imp (if_pos ·) (if_neg ·)
  · intro ho
    rw [String.toList_ofList] at ho
    rcases h.covers with rfl | hs
    · exact ite_self _
    · exact if_neg (Nat.not_le.2 (ho start hs))

theorem Node.fades_makes (source : List Char) :
    (Likeness.found source).Makes (fun twin => twin.left.Fades source twin.right)
      (fun kind _ text => terminal kind text) fun kind _ _ children => branch kind children where
  leaf _ h := Node.fades_leaf h
  spanning _ _ _ hg hh := .mk (.inl rfl) (fun _ => rfl) (fun _ => rfl) (.of_grown hg hh)
  span _ := ⟨trivial, trivial⟩

/-- The text is read as the tree without mistakes, wherever the parts of it stand. -/
def ReadsAs (source : List Char) (tree : Node) : Prop :=
  ∃ left, sourceFile (r := PlainReader) source (Line.split source) = ⟨.ok tree, [], left⟩

namespace ReadsAs

variable {tree : Node}

/-- The tree of a script has lost texts that are out of reach. -/
theorem fades (h : ReadsAs source tree) :
    (parse source).mistakes = [] ∧ (parse source).tree.Fades source tree := by
  obtain ⟨left, hr⟩ := h
  obtain ⟨tree', mistakes, left', hr', ht, hn⟩ :=
    parse_makes (Node.fades_makes source) (Line.split_alike_found source) trivial trivial
  obtain ⟨ho, rfl, -⟩ := Passage.mk.inj (hr.symm.trans hr')
  obtain rfl := Except.ok.inj ho
  exact ⟨List.forall₂_nil_right_iff.1 hn, ht⟩

/-- A script in reach of spans is read as its tree without spans, apart from the spans. -/
theorem in_reach (h : ReadsAs source tree) (hsize : Text.bytes source ≤ Span.maxOffset) :
    (parse source).mistakes = [] ∧ (parse source).tree.bare = tree :=
  h.fades.imp_right fun hf => hf.bare hsize

end ReadsAs

end ArchiveScript
