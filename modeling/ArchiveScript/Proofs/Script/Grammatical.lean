import ArchiveScript.Proofs.Script.Plain
import ArchiveScript.Proofs.Tree.Grammar
import ArchiveScript.Proofs.Tree.Reach

/-! # Trees that are read are of the grammar

All nodes of a script have the children of a production, and in reach of spans their terminals have
the texts of terminals. This holds for texts with mistakes, too, because an item with a mistake is
left out of its block.
-/

namespace ArchiveScript

open Grammar

namespace Text

theorem digitsFrom?_isSome {value : Nat} {digits : List Char}
    (h : ∀ c ∈ digits, c.isDigit = true) : (digitsFrom? value digits).isSome := by
  induction digits generalizing value with
  | nil => rfl
  | cons c cs ih =>
    rw [digitsFrom?, h c List.mem_cons_self, if_pos rfl]
    split
    · exact ih fun d hd => h d (List.mem_cons_of_mem c hd)
    · exact ih fun d hd => h d (List.mem_cons_of_mem c hd)

theorem magnitude?_isSome {digits : List Char} (hn : digits ≠ [])
    (h : ∀ c ∈ digits, c.isDigit = true) : (magnitude? digits).isSome := by
  cases digits with
  | nil => exact absurd rfl hn
  | cons c cs =>
    rw [magnitude?, if_pos (h c List.mem_cons_self)]
    exact digitsFrom?_isSome h

theorem integer?_isSome {digits : List Char} (hn : digits ≠ [])
    (h : ∀ c ∈ digits, c.isDigit = true) :
    (integer? (String.ofList digits)).isSome ∧
      (integer? (String.ofList ('-' :: digits))).isSome := by
  obtain ⟨n, hm⟩ := Option.isSome_iff_exists.1 (magnitude?_isSome hn h)
  constructor
  · unfold integer?
    rw [String.toList_ofList]
    split
    · exact absurd (h '-' List.mem_cons_self) (by decide)
    · exact absurd (h '+' List.mem_cons_self) (by decide)
    · rw [hm]
      rfl
  · unfold integer?
    rw [String.toList_ofList]
    simp only [hm]
    rfl

end Text

namespace Grammar

theorem Lexeme.integer?_isSome {text : List Char} (h : Lexeme .integer text) :
    (Text.integer? (String.ofList text)).isSome := by
  cases h with
  | free hk => exact absurd hk (by decide)
  | integer hs hn hd =>
    obtain rfl | rfl := hs
    · exact (Text.integer?_isSome hn hd).1
    · exact (Text.integer?_isSome hn hd).2

theorem Lexeme.mem_comparisonTexts {text : List Char} (h : Lexeme .comparisonOperator text) :
    String.ofList text ∈ comparisonTexts := by
  cases h with
  | free hk => exact absurd hk (by decide)
  | comparisonOperator hs =>
    have hall : ∀ sign ∈ Expression.comparisonSigns, String.ofList sign ∈ comparisonTexts := by
      decide
    exact hall _ hs

def Shape.kind? (shape : Shape) (field : Field) : Option Kind :=
  (shape.find? (·.1 == some field)).map (·.2)

end Grammar

namespace Node

def shape (node : Node) : Shape := node.children.map fun child => (child.1, child.2.kind)

inductive Throughout (P : Node → Prop) : Node → Prop
  | mk {node : Node} (h : P node) (hc : ∀ child ∈ node.children, Throughout P child.2) :
      Throughout P node

/-- The node is a terminal, or it has the children of a production. -/
def Expands (node : Node) : Prop :=
  node.kind.isTerminal = true ∨ Produces node.kind node.shape

/-- The node is no terminal, or it has the text of one. -/
def Spells (node : Node) : Prop :=
  node.kind.isTerminal = true → Lexeme node.kind node.text.toList

def Regular (node : Node) : Prop := node.Expands ∧ node.Spells

variable {P Q : Node → Prop} {node : Node} {kind : Kind} {place : Option Field} {field : Field}

theorem Throughout.self (h : node.Throughout P) : P node := by
  cases h with
  | mk h => exact h

theorem Throughout.child (h : node.Throughout P) : ∀ child ∈ node.children,
    child.2.Throughout P := by
  cases h with
  | mk _ hc => exact hc

theorem Throughout.of_reaches (h : node.Throughout P) {found : Node} (hr : node.Reaches found) :
    P found := by
  induction hr with
  | refl => exact h.self
  | step hm _ ih => exact ih (h.child _ hm)

theorem Throughout.and (h : node.Throughout P) (h' : node.Throughout Q) :
    node.Throughout fun node => P node ∧ Q node := by
  induction h with
  | mk hp _ ih =>
    cases h' with
    | mk hq hc => exact .mk ⟨hp, hq⟩ fun child hm => ih child hm (hc child hm)

theorem Expands.produces (h : node.Expands) (hk : node.kind = kind)
    (ht : kind.isTerminal = false) : Produces kind node.shape := by
  subst hk
  exact h.resolve_left (by simp [ht])

theorem Spells.lexeme (h : node.Spells) (hk : node.kind = kind) (ht : kind.isTerminal = true) :
    Lexeme kind node.text.toList := by
  subst hk
  exact h ht

theorem mem_shape {child : Child} (h : child ∈ node.children) :
    (child.1, child.2.kind) ∈ node.shape :=
  List.mem_map_of_mem h

theorem field?_kind (node : Node) (field : Field) :
    (node.field? field).map (·.kind) = node.shape.kind? field := by
  rw [field?, shape, Shape.kind?, List.find?_map]
  simp only [Option.map_map]
  rfl

theorem has_of_shape (h : node.shape.kind? field = some kind) :
    node.Has field fun child => child.kind = kind ∧ (some field, child) ∈ node.children := by
  rw [← field?_kind, Option.map_eq_some_iff] at h
  obtain ⟨child, hf, hk⟩ := h
  exact ⟨child, hf, hk, mem_of_field? hf⟩

theorem wraps_of_shape {rest : Shape} (h : node.shape = (place, kind) :: rest) :
    node.Wraps fun child => child.kind = kind ∧ (place, child) ∈ node.children := by
  obtain ⟨⟨_, child⟩, more, hc, he, -⟩ := List.map_eq_cons_iff.1 h
  obtain ⟨rfl, rfl⟩ := Prod.mk.inj he
  exact ⟨child, by rw [first?, hc]; rfl, rfl, by rw [hc]; exact List.mem_cons_self⟩

theorem Has.mono (h : node.Has field P) (hpq : ∀ child, P child → Q child) : node.Has field Q := by
  obtain ⟨child, hf, hp⟩ := h
  exact ⟨child, hf, hpq child hp⟩

theorem Wraps.mono (h : node.Wraps P) (hpq : ∀ child, P child → Q child) : node.Wraps Q := by
  obtain ⟨child, hf, hp⟩ := h
  exact ⟨child, hf, hpq child hp⟩

end Node

/-- What holds of all nodes that can be built holds throughout the first tree, which is of the kind
that has been built. -/
structure Twin.Throughout (L : Likeness) (P : Node → Prop) (twin : Twin Node Node) : Prop where
  all : twin.left.Throughout P
  kind : twin.left.kind = twin.kind
  span : twin.left.span.Alike L twin.right.span

theorem Node.shape_of_grown {L : Likeness} {P : Node → Prop} {held now : Held Node Node}
    {shape : Shape} {children children' : List Child}
    (hg : Grown held shape children children' now) (h : ∀ twin ∈ now, twin.Throughout L P) :
    children.map (fun child => (child.1, child.2.kind)) = shape ∧
      ∀ child ∈ children, child.2.Throughout P := by
  induction hg with
  | nil => exact ⟨rfl, nofun⟩
  | cons hr ih =>
    have hn := h _ (hr.subset List.mem_cons_self)
    obtain ⟨hs, hc⟩ := ih h
    exact ⟨by rw [List.map_cons, hs, hn.kind], List.forall_mem_cons.2 ⟨hn.all, hc⟩⟩

theorem Node.throughout_makes {L : Likeness} {P : Node → Prop}
    (hs : ∀ start stop, (Span.between start stop).Alike L .nowhere)
    (hleaf : ∀ {kind start start' text text'}, Lexeme kind text →
      L.Piece kind start start' text text' → P (.leaf kind start text))
    (hspanning : ∀ {kind start stop children},
      Produces kind (Node.spanning kind start stop children).shape →
        P (.spanning kind start stop children)) :
    L.Makes (Twin.Throughout L P) (fun kind _ text => terminal kind text)
      fun kind _ _ children => branch kind children where
  leaf ht hp := ⟨.mk (hleaf ht hp) nofun, rfl, hs _ _⟩
  spanning hp _ _ hg hh := by
    obtain ⟨hshape, hc⟩ := shape_of_grown hg hh
    subst hshape
    exact ⟨.mk (hspanning hp) hc, rfl, hs _ _⟩
  span h := h.span

/-- All nodes of a script have the children of a production. -/
theorem parse_expands (source : List Char) : (parse source).tree.Throughout Node.Expands := by
  have hm := Node.throughout_makes (L := .anywhere) (P := Node.Expands)
    (fun _ _ => ⟨trivial, trivial⟩) (fun ht _ => ?_) fun hp => .inr hp
  · have hlines := List.forall₂_same.2 fun line (_ : line ∈ Line.split source) =>
      line.alike_anywhere
    obtain ⟨_, _, _, _, ht, _⟩ := parse_makes hm hlines trivial trivial
    exact ht.all
  · rcases ht.terminal with hk | ⟨rfl, -⟩
    · exact .inl hk
    · exact .inr Shape.all_nil

theorem parse_spells {source : List Char} (hsize : Text.bytes source ≤ Span.maxOffset) :
    (parse source).tree.Throughout Node.Spells := by
  have hm := Node.throughout_makes (L := .found source) (P := Node.Spells)
    (fun _ _ => ⟨trivial, trivial⟩) (fun {_ _ _ text _} ht hp => ?_) fun hp hk => ?_
  · obtain ⟨_, _, _, _, ht, _⟩ := parse_makes hm (Line.split_alike_found source) trivial trivial
    exact ht.all
  · intro hk
    rw [Node.text_leaf hp hsize, String.toList_ofList]
    exact ht
  · rw [Node.kind_spanning, hp.inner] at hk
    cases hk

/-- A script in reach of spans has the children of productions and the texts of terminals. -/
theorem parse_regular {source : List Char} (hsize : Text.bytes source ≤ Span.maxOffset) :
    (parse source).tree.Throughout Node.Regular :=
  (parse_expands source).and (parse_spells hsize)

namespace Grammar

open Node

variable {node : Node} {shape : Shape} {kind : Kind}

theorem isBasic_and_wraps (h : node.Throughout Regular) :
    (node.kind ∈ basicKinds → IsBasic node) ∧
      (node.kind ∈ interpolationKinds → node.Wraps IsBasic) := by
  induction h with
  | @mk node hn _ ih =>
    have hexpands := hn.1
    constructor
    · intro hk
      simp only [basicKinds, List.mem_cons, List.not_mem_nil, or_false] at hk
      rcases hk with hk | hk | hk | hk
      · have hp : node.shape.All (Piece stringKinds) := hexpands.produces hk rfl
        refine .of_pieces hk fun piece hm => ⟨(hp _ (mem_shape hm)).2, fun hi => ?_⟩
        exact (ih piece hm).2 (hi ▸ by decide)
      · have ht := (hn.2.lexeme hk rfl).integer?_isSome
        rw [String.ofList_toList] at ht
        exact .integer hk ht
      · have hp : node.shape = _ := hexpands.produces hk rfl
        exact .variableInstance hk ((wraps_of_shape hp).mono fun _ hc => hc.1)
      · obtain ⟨left, hl, hs⟩ : Produces .dotExpression node.shape := hexpands.produces hk rfl
        obtain ⟨child, hf, rfl, hm⟩ : node.Has .left _ := has_of_shape (by rw [hs]; rfl)
        refine .operation hk hf ((ih _ hm).1 hl) ?_
        exact (has_of_shape (by rw [hs]; rfl)).mono fun _ hc => hc.1
    · intro hk
      obtain ⟨value, hv, hs⟩ : ∃ value ∈ basicKinds, node.shape = [(none, value)] := by
        simp only [interpolationKinds, List.mem_cons, List.not_mem_nil, or_false] at hk
        rcases hk with hk | hk <;> exact hexpands.produces hk rfl
      refine (wraps_of_shape hs).mono ?_
      rintro child ⟨rfl, hm⟩
      exact (ih _ hm).1 hv

theorem isBasic (h : node.Throughout Regular) (hk : node.kind ∈ basicKinds) : IsBasic node :=
  (isBasic_and_wraps h).1 hk

theorem isRaw (h : node.Throughout Regular) (hk : node.kind = .raw) : IsRaw node := by
  have hp : node.shape.All (Piece rawKinds) := h.self.1.produces hk rfl
  refine ⟨hk, fun piece hm => ?_⟩
  rcases List.mem_cons.1 (hp _ (mem_shape hm)).2 with hr | hi
  · exact .inl hr
  · exact .inr ⟨hi, (isBasic_and_wraps (h.child _ hm)).2 hi⟩

theorem isText (h : node.Throughout Regular) (hk : node.kind ∈ textKinds) : IsText node := by
  rcases List.mem_cons.1 hk with hr | hb
  · exact .inl (isRaw h hr)
  · exact .inr (isBasic h hb)

section

variable (h : node.Throughout Regular) {field : Field} (hs : node.shape.kind? field = some kind)

include h hs

theorem has_child {P : Node → Prop}
    (hp : ∀ child : Node, child.Throughout Regular → child.kind = kind → P child) :
    node.Has field P := by
  refine (has_of_shape hs).mono ?_
  rintro child ⟨hk, hm⟩
  exact hp child (h.child _ hm) hk

theorem has_name (hk : kind = .identifier) : node.Has field IsName :=
  has_child h hs fun _ _ hc => hc.trans hk

theorem has_basic (hk : kind ∈ basicKinds) : node.Has field IsBasic :=
  has_child h hs fun _ hc hk' => isBasic hc (hk' ▸ hk)

theorem has_text (hk : kind ∈ textKinds) : node.Has field IsText :=
  has_child h hs fun _ hc hk' => isText hc (hk' ▸ hk)

theorem has_raw (hk : kind = .raw) : node.Has field IsRaw :=
  has_child h hs fun _ hc hk' => isRaw hc (hk'.trans hk)

end

theorem isComparison (h : node.Throughout Regular) (hk : node.kind = .comparison) :
    IsComparison node := by
  obtain ⟨left, hl, right, hr, hs⟩ : Produces .comparison node.shape := h.self.1.produces hk rfl
  refine ⟨has_basic h (by rw [hs]; rfl) hl, ?_, has_basic h (by rw [hs]; rfl) hr⟩
  refine has_child h (by rw [hs]; rfl) fun operator hc ho => ?_
  have ht := (hc.self.2.lexeme ho rfl).mem_comparisonTexts
  rwa [String.ofList_toList] at ht

theorem isParameter (h : node.Throughout Regular) (hk : node.kind = .parameter) :
    IsParameter node := by
  obtain ⟨described, _, hs⟩ : Produces .parameter node.shape := h.self.1.produces hk rfl
  exact ⟨hk, has_name h (by rw [hs]; rfl) rfl⟩

theorem all_isParameter (h : node.Throughout Regular) (hk : node.kind = .parameters) :
    node.All IsParameter := by
  have hs : node.shape.All (BlockItem .parameters) := h.self.1.produces hk rfl
  exact fun child hm => isParameter (h.child _ hm) (hs _ (mem_shape hm)).2

theorem isProperty (h : node.Throughout Regular) (hk : node.kind = .keyValuePair) :
    IsProperty node := by
  obtain ⟨value, hv, hs⟩ : Produces .keyValuePair node.shape := h.self.1.produces hk rfl
  exact ⟨has_name h (by rw [hs]; rfl) rfl, has_text h (by rw [hs]; rfl) hv⟩

theorem isSqlCall (h : node.Throughout Regular) (hs : node.shape = sqlCall) : IsSqlCall node :=
  ⟨has_name h (by rw [hs]; rfl) rfl, has_raw h (by rw [hs]; rfl) rfl⟩

theorem isScriptCall (h : node.Throughout Regular) (hs : ScriptCall node.shape) :
    IsScriptCall node := by
  obtain ⟨interpreter, hi, hs⟩ := hs
  exact ⟨has_basic h (by rw [hs]; rfl) hi, has_raw h (by rw [hs]; rfl) rfl⟩

theorem isExpression (h : node.Throughout Regular) (hk : node.kind ∈ expressionKinds) :
    IsExpression node := by
  simp only [expressionKinds, List.mem_cons] at hk
  rcases hk with hk | hk | hk | hk
  · obtain ⟨url, hu, properties, hp, hs⟩ : Produces .connection node.shape :=
      h.self.1.produces hk rfl
    refine .connection hk (has_basic h (by rw [hs]; rfl) hu) (.of_mem fun child hm hf => ?_)
    have hc := mem_shape hm
    rw [hs, hf] at hc
    have hpairs : child.2.kind = .keyValuePairs := by
      rcases hp with rfl | rfl
      · simp at hc
      · simpa using hc
    have hall : child.2.shape.All (BlockItem .properties) :=
      (h.child _ hm).self.1.produces hpairs rfl
    exact fun pair hm' => isProperty ((h.child _ hm).child _ hm') (hall _ (mem_shape hm')).2
  · exact .query hk (isSqlCall h (h.self.1.produces hk rfl))
  · exact .scriptResult hk (isScriptCall h (h.self.1.produces hk rfl))
  · exact .text (isText h hk)

theorem isSome_declarationKind? :
    (Run.declarationKind? kind).isSome = true ↔ kind ∈ declarationKinds := by
  cases kind <;> decide

theorem declares (h : node.Expands) (hk : node.kind ∈ declarationKinds) :
    Declares node.kind node.shape := by
  have ht : node.kind.isTerminal = false := by
    revert hk
    generalize node.kind = kind
    cases kind <;> decide
  exact (produces_declaration hk).1 (h.produces rfl ht)

theorem declared_child (h : node.Expands) (hk : node.kind ∈ declarationKinds) {child : Child}
    (hm : child ∈ node.children) :
    child.1 = some .name ∧ child.2.kind = .identifier ∨
      child.1 = some .description ∧ child.2.kind = .shortDescription ∨
        BlockItem (.declaration node.kind) child.1 child.2.kind := by
  obtain ⟨described, items, hd, hi, hs⟩ := declares h hk
  have hm' := mem_shape hm
  rw [hs, List.mem_cons, List.mem_append] at hm'
  rcases hm' with he | hm' | hm'
  · exact .inl (Prod.mk.inj he)
  · refine .inr (.inl ?_)
    rcases hd with rfl | rfl
    · cases hm'
    · exact Prod.mk.inj (List.mem_singleton.1 hm')
  · exact .inr (.inr (hi _ hm'))

theorem isDeclaration (h : node.Throughout Regular) (hk : node.kind ∈ declarationKinds) :
    IsDeclaration node := by
  induction h with
  | @mk node hn hc ih =>
    have hname : node.Has .name IsName := by
      obtain ⟨described, items, -, -, hs⟩ := declares hn.1 hk
      exact has_name (.mk hn hc) (by rw [hs]; rfl) rfl
    refine .mk (isSome_declarationKind?.2 hk) hname (.of_mem fun child hm hf => ?_)
      fun child hm hk' => ih child hm (isSome_declarationKind?.1 hk')
    rcases declared_child hn.1 hk hm with ⟨he, -⟩ | ⟨-, he⟩ | hi
    · rw [hf] at he
      cases he
    · exact .inl he
    · rw [hf] at hi
      exact .inr (isText (hc child hm) hi.2)

theorem isCommand (h : node.Throughout Regular) (hk : node.kind = .commandDeclaration) :
    IsCommand node := by
  obtain ⟨hi, ht, hb⟩ : Produces .commandDeclaration node.shape := h.self.1.produces hk rfl
  rw [shape, List.any_map] at ht hb
  refine ⟨(MayHave.of_mem fun child hm hf => ?_).has ht, .of_mem fun child hm hf => ?_,
    (MayHave.of_mem fun child hm hf => ?_).has hb⟩
  all_goals
    have hc := hi _ (mem_shape hm)
    rw [hf] at hc
    rcases hc with ⟨he, hk'⟩ | ⟨he, hk'⟩ | ⟨he, hk'⟩ <;> cases he
  · exact isText (h.child _ hm) hk'
  · exact all_isParameter (h.child _ hm) hk'
  · exact isRaw (h.child _ hm) hk'

theorem isMetadata (h : node.Throughout Regular) (hk : node.kind = .siardMetadata) :
    IsMetadata node := by
  obtain ⟨items, hi, hs⟩ : Produces .siardMetadata node.shape := h.self.1.produces hk rfl
  have hchild {child : Child} (hm : child ∈ node.children) :
      child.1 = some .connection ∨ BlockItem .metadata child.1 child.2.kind := by
    have hm' := mem_shape hm
    rw [hs, List.mem_cons] at hm'
    exact hm'.imp (fun he => (Prod.mk.inj he).1) (hi _)
  refine ⟨has_name h (by rw [hs]; rfl) rfl, fun field hf => .of_mem fun child hm hc => ?_,
    fun child hm hk' => isDeclaration (h.child _ hm) (hk' ▸ by decide),
    fun child hm hk' => isCommand (h.child _ hm) hk'⟩
  have hc' := hchild hm
  rw [hc] at hc'
  rcases hc' with he | hc'
  · cases he
    exact absurd hf (by decide)
  · exact isText (h.child _ hm) hc'.2

theorem isStatement_and_all (h : node.Throughout Regular) :
    (node.kind ∈ statementKinds → IsStatement node) ∧
      (node.kind = .statementBlock → ∀ child ∈ node.children, IsStatement child.2) := by
  induction h with
  | @mk node hn hc ih =>
    have h := Throughout.mk hn hc
    have hexpands := hn.1
    constructor
    · intro hk
      simp only [statementKinds, List.mem_cons, List.not_mem_nil, or_false] at hk
      rcases hk with hk | hk | hk | hk | hk | hk | hk | hk | hk | hk | hk
      · exact .parameters hk (all_isParameter h hk)
      · exact .nop hk
      · obtain ⟨value, hv, hs⟩ : Produces .set node.shape := hexpands.produces hk rfl
        refine .set hk (has_name h (by rw [hs]; rfl) rfl) ?_
        exact has_child h (by rw [hs]; rfl) fun _ hc hk' => isExpression hc (hk' ▸ hv)
      · exact .executeUsing hk (isScriptCall h (hexpands.produces hk rfl))
      · exact .executeSql hk (isSqlCall h (hexpands.produces hk rfl))
      · obtain ⟨rows, hr, hs⟩ : Produces .forLoop node.shape := hexpands.produces hk rfl
        obtain ⟨body, hf, hb, hm⟩ : node.Has .body _ := has_of_shape (by rw [hs]; rfl)
        refine .forLoop hk ?_ (has_basic h (by rw [hs]; rfl) hr) hf ((ih _ hm).2 hb)
        refine has_child h (by rw [hs]; rfl) fun names hc hk' => ?_
        have hp : names.shape.All (Piece [.identifier]) := hc.self.1.produces hk' rfl
        exact fun name hm => List.mem_singleton.1 (hp _ (mem_shape hm)).2
      · obtain ⟨branch, hb, hs⟩ : Produces .conditional node.shape := hexpands.produces hk rfl
        obtain ⟨consequent, hf, ht, hm⟩ : node.Has .consequent _ := has_of_shape (by rw [hs]; rfl)
        refine .conditional hk (has_child h (by rw [hs]; rfl) fun _ => isComparison) hf
          ((ih _ hm).2 ht) fun alternative ha => (ih _ (mem_of_field? ha)).2 ?_
        have hm' := mem_shape (mem_of_field? ha)
        rw [hs] at hm'
        rcases hb with rfl | rfl
        · simp at hm'
        · simpa using hm'
      · have hs : node.shape = _ := hexpands.produces hk rfl
        exact .assert hk (has_child h (by rw [hs]; rfl) fun _ => isComparison)
      · obtain ⟨value, hv, hs⟩ : Produces .log node.shape := hexpands.produces hk rfl
        exact .log hk (has_text h (by rw [hs]; rfl) hv)
      · exact .siardMetadata hk (isMetadata h hk)
      · obtain ⟨file, hf, hs⟩ : Produces .siardOutput node.shape := hexpands.produces hk rfl
        refine .siardOutput hk (has_name h (by rw [hs]; rfl) rfl) ?_
        exact has_text h (by rw [hs]; rfl) (List.mem_cons_of_mem _ hf)
    · intro hk child hm
      have hs : node.shape.All (BlockItem .statements) := hexpands.produces hk rfl
      exact (ih child hm).1 (hs _ (mem_shape hm)).2

end Grammar

/-- The tree of a script in reach of spans is of the grammar. -/
theorem parse_isScript {source : List Char} (hsize : Text.bytes source ≤ Span.maxOffset) :
    IsScript (parse source).tree := by
  have h := parse_regular hsize
  have hs : (parse source).tree.shape.All (BlockItem .topLevel) :=
    h.self.1.produces (kind_parse source) rfl
  refine ⟨kind_parse source, fun child hm => ?_⟩
  exact (isStatement_and_all (h.child _ hm)).1 (hs _ (Node.mem_shape hm)).2

end ArchiveScript
