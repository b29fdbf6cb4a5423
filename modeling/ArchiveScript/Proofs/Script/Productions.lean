import ArchiveScript.Script.Declaration

/-! # Productions of the grammar

Which texts the terminals of a tree have, and which children its other nodes have. A production
tells of its children where they stand and of which kinds they are.
-/

namespace ArchiveScript.Grammar

def freeKinds : List Kind := [.identifier, .stringContent, .rawContent, .shortDescription, .nop]

/-- The texts of terminals. A verbatim block without lines is a terminal, too. -/
inductive Lexeme : Kind → List Char → Prop
  | free {kind : Kind} {text : List Char} (hk : kind ∈ freeKinds) : Lexeme kind text
  | integer {sign digits : List Char} (hs : sign = [] ∨ sign = ['-']) (hn : digits ≠ [])
      (h : ∀ digit ∈ digits, digit.isDigit = true) : Lexeme .integer (sign ++ digits)
  | comparisonOperator {sign : List Char} (h : sign ∈ Expression.comparisonSigns) :
      Lexeme .comparisonOperator sign
  | escape {c : Char} (h : Expression.isEscape c = true) : Lexeme .escapeSequence ['\\', c]
  | unicode {digits : List Char} (h : ∀ digit ∈ digits, Expression.isHexDigit digit = true)
      (hn : 0 < digits.length) (hl : digits.length ≤ 6) :
      Lexeme .escapeSequence ('\\' :: 'u' :: '{' :: (digits ++ ['}']))
  | emptyBlock : Lexeme .raw []

theorem Lexeme.terminal {kind : Kind} {text : List Char} (h : Lexeme kind text) :
    kind.isTerminal = true ∨ kind = .raw ∧ text = [] := by
  cases h with
  | free hk =>
    have hall : ∀ kind ∈ freeKinds, kind.isTerminal = true := by decide
    exact .inl (hall kind hk)
  | integer | comparisonOperator | escape | unicode => exact .inl rfl
  | emptyBlock => exact .inr ⟨rfl, rfl⟩

def stringKinds : List Kind := [.stringContent, .escapeSequence, .interpolation]

def interpolationKinds : List Kind := [.interpolation, .safeInterpolation]

def rawKinds : List Kind := .rawContent :: interpolationKinds

def basicKinds : List Kind := [.string, .integer, .variableInstance, .dotExpression]

def textKinds : List Kind := .raw :: basicKinds

def expressionKinds : List Kind := .connection :: .query :: .scriptResult :: textKinds

def statementKinds : List Kind :=
  [.parameters, .nop, .set, .executeUsing, .executeSql, .forLoop, .conditional, .assert, .log,
    .siardMetadata, .siardOutput]

def declarationKinds : List Kind :=
  [.siardSchema, .siardType, .siardTable, .siardView, .siardColumn, .siardField, .siardKey,
    .siardCheck]

abbrev Shape := List (Option Field × Kind)

def BlockItem : BlockKind → Option Field → Kind → Prop
  | .topLevel, place, kind | .statements, place, kind => place = none ∧ kind ∈ statementKinds
  | .parameters, place, kind => place = none ∧ kind = .parameter
  | .properties, place, kind => place = none ∧ kind = .keyValuePair
  | .metadata, none, kind => kind = .siardSchema ∨ kind = .commandDeclaration
  | .metadata, some field, kind => field ∈ Field.archiveInfo ∧ kind ∈ textKinds
  | .declaration owner, none, kind => kind ∈ (Declaration.nested owner).map (·.2)
  | .declaration _, some field, kind => field = .description ∧ kind ∈ textKinds
  | .command, place, kind => place = some .title ∧ kind ∈ textKinds ∨
      place = some .parameters ∧ kind = .parameters ∨ place = some .body ∧ kind = .raw

def Piece (kinds : List Kind) (place : Option Field) (kind : Kind) : Prop :=
  place = none ∧ kind ∈ kinds

def Shape.All (shape : Shape) (K : Option Field → Kind → Prop) : Prop :=
  ∀ child ∈ shape, K child.1 child.2

section

variable {K : Option Field → Kind → Prop} {shape more : Shape} {place : Option Field} {kind : Kind}

@[simp]
theorem Shape.all_nil : Shape.All [] K := nofun

@[simp]
theorem Shape.all_cons : Shape.All ((place, kind) :: shape) K ↔ K place kind ∧ shape.All K :=
  List.forall_mem_cons

@[simp]
theorem Shape.all_append : Shape.All (shape ++ more) K ↔ shape.All K ∧ more.All K :=
  List.forall_mem_append

end

def Shape.Optional (shape : Shape) (entry : Option Field × Kind) : Prop :=
  shape = [] ∨ shape = [entry]

def sqlCall : Shape := [(some .connection, .identifier), (some .sql, .raw)]

def ScriptCall (shape : Shape) : Prop :=
  ∃ interpreter ∈ basicKinds, shape = [(some .interpreter, interpreter), (some .script, .raw)]

def Declares (kind : Kind) (shape : Shape) : Prop :=
  ∃ described items : Shape, described.Optional (some .description, .shortDescription) ∧
    items.All (BlockItem (.declaration kind)) ∧
      shape = (some .name, .identifier) :: (described ++ items)

/-- The children that a node of the given kind can have, unless it is a terminal. -/
def Produces : Kind → Shape → Prop
  | .sourceFile, shape => shape.All (BlockItem .topLevel)
  | .parameters, shape => shape.All (BlockItem .parameters)
  | .parameter, shape => ∃ described : Shape,
      described.Optional (some .description, .shortDescription) ∧
        shape = (some .name, .identifier) :: described
  | .statementBlock, shape => shape.All (BlockItem .statements)
  | .set, shape => ∃ value ∈ expressionKinds,
      shape = [(some .name, .identifier), (some .value, value)]
  | .query, shape | .executeSql, shape => shape = sqlCall
  | .scriptResult, shape | .executeUsing, shape => ScriptCall shape
  | .siardMetadata, shape => ∃ items : Shape, items.All (BlockItem .metadata) ∧
      shape = (some .connection, .identifier) :: items
  | .siardOutput, shape => ∃ file ∈ basicKinds,
      shape = [(some .connection, .identifier), (some .file, file)]
  | .forLoop, shape => ∃ rows ∈ basicKinds, shape =
      [(some .loopVariables, .forVariables), (some .rows, rows), (some .body, .statementBlock)]
  | .forVariables, shape => shape.All (Piece [.identifier])
  | .log, shape => ∃ value ∈ textKinds, shape = [(some .value, value)]
  | .assert, shape => shape = [(some .condition, .comparison)]
  | .conditional, shape => ∃ branch : Shape,
      branch.Optional (some .alternative, .statementBlock) ∧
        shape = (some .condition, .comparison) :: (some .consequent, .statementBlock) :: branch
  | .connection, shape => ∃ url ∈ basicKinds, ∃ properties : Shape,
      properties.Optional (some .properties, .keyValuePairs) ∧
        shape = (some .url, url) :: properties
  | .keyValuePairs, shape => shape.All (BlockItem .properties)
  | .keyValuePair, shape => ∃ value ∈ textKinds,
      shape = [(some .key, .identifier), (some .value, value)]
  | .comparison, shape => ∃ left ∈ basicKinds, ∃ right ∈ basicKinds, shape =
      [(some .left, left), (some .operator, .comparisonOperator), (some .right, right)]
  | .dotExpression, shape => ∃ left ∈ basicKinds,
      shape = [(some .left, left), (some .right, .identifier)]
  | .variableInstance, shape => shape = [(none, .identifier)]
  | .string, shape => shape.All (Piece stringKinds)
  | .interpolation, shape | .safeInterpolation, shape => ∃ value ∈ basicKinds,
      shape = [(none, value)]
  | .raw, shape => shape.All (Piece rawKinds)
  | .siardSchema, shape => Declares .siardSchema shape
  | .siardType, shape => Declares .siardType shape
  | .siardTable, shape => Declares .siardTable shape
  | .siardColumn, shape => Declares .siardColumn shape
  | .siardField, shape => Declares .siardField shape
  | .siardKey, shape => Declares .siardKey shape
  | .siardCheck, shape => Declares .siardCheck shape
  | .siardView, shape => Declares .siardView shape
  | .commandDeclaration, shape => shape.All (BlockItem .command) ∧
      shape.any (·.1 == some .title) = true ∧ shape.any (·.1 == some .body) = true
  | .identifier, _ | .integer, _ | .stringContent, _ | .escapeSequence, _ | .rawContent, _
  | .comparisonOperator, _ | .shortDescription, _ | .nop, _ => False

section

variable {kind : Kind} {shape : Shape}

theorem produces_interpolation {value : Kind} (hk : kind ∈ interpolationKinds)
    (hv : value ∈ basicKinds) : Produces kind [(none, value)] := by
  simp only [interpolationKinds, List.mem_cons, List.not_mem_nil, or_false] at hk
  rcases hk with rfl | rfl <;> exact ⟨value, hv, rfl⟩

theorem produces_declaration (hk : kind ∈ declarationKinds) :
    Produces kind shape ↔ Declares kind shape := by
  simp only [declarationKinds, List.mem_cons, List.not_mem_nil, or_false] at hk
  rcases hk with rfl | rfl | rfl | rfl | rfl | rfl | rfl | rfl <;> exact Iff.rfl

theorem Produces.inner (h : Produces kind shape) : kind.isTerminal = false := by
  cases kind with
  | identifier | integer | stringContent | escapeSequence | rawContent | comparisonOperator
  | shortDescription | nop => exact h.elim
  | _ => rfl

/-- The child is no literal piece of a template, or it stands at no named place. -/
def Unliteral (place : Option Field) (kind : Kind) : Prop := place = none ∨ kind ≠ .rawContent

theorem unliteral_of_mem {kinds : List Kind} {place : Option Field} (h : kind ∈ kinds)
    (hk : Kind.rawContent ∉ kinds) : Unliteral place kind := by
  refine .inr ?_
  rintro rfl
  exact hk h

theorem BlockItem.unliteral {block : BlockKind} {place : Option Field}
    (h : BlockItem block place kind) : Unliteral place kind := by
  cases block with
  | topLevel | statements | parameters | properties => exact .inl h.1
  | metadata =>
    cases place with
    | none => exact .inl rfl
    | some field => exact unliteral_of_mem h.2 (by decide)
  | declaration owner =>
    cases place with
    | none => exact .inl rfl
    | some field => exact unliteral_of_mem h.2 (by decide)
  | command =>
    rcases h with ⟨-, h⟩ | ⟨-, rfl⟩ | ⟨-, rfl⟩
    · exact unliteral_of_mem h (by decide)
    · exact .inr (by decide)
    · exact .inr (by decide)

theorem Declares.unliteral (h : Declares kind shape) : shape.All Unliteral := by
  obtain ⟨described, items, hd, hi, rfl⟩ := h
  have hitems : items.All Unliteral := fun child hm => (hi child hm).unliteral
  rcases hd with rfl | rfl <;> simp [hitems, Unliteral]

theorem Produces.unliteral (h : Produces kind shape) : shape.All Unliteral := by
  have hbasic {kind : Kind} {place : Option Field} (h : kind ∈ basicKinds) :
      Unliteral place kind := unliteral_of_mem h (by decide)
  have htext {kind : Kind} {place : Option Field} (h : kind ∈ textKinds) :
      Unliteral place kind := unliteral_of_mem h (by decide)
  have hexpression {kind : Kind} {place : Option Field} (h : kind ∈ expressionKinds) :
      Unliteral place kind := unliteral_of_mem h (by decide)
  have hfixed {place : Option Field} {kind : Kind} (h : kind ≠ .rawContent) :
      Unliteral place kind := .inr h
  have hitems {block : BlockKind} {shape : Shape} (h : shape.All (BlockItem block)) :
      shape.All Unliteral := fun child hm => (h child hm).unliteral
  have hpieces {kinds : List Kind} {shape : Shape} (h : shape.All (Piece kinds)) :
      shape.All Unliteral := fun child hm => .inl (h child hm).1
  cases kind with
  | sourceFile | parameters | statementBlock | keyValuePairs => exact hitems h
  | string | raw | forVariables => exact hpieces h
  | commandDeclaration => exact hitems h.1
  | siardSchema | siardType | siardTable | siardColumn | siardField | siardKey | siardCheck
  | siardView => exact Declares.unliteral h
  | siardMetadata =>
    obtain ⟨items, hi, rfl⟩ := h
    simp [hfixed, hitems hi]
  | parameter | conditional =>
    obtain ⟨rest, rfl | rfl, rfl⟩ := h <;> simp [hfixed]
  | connection =>
    obtain ⟨url, hu, properties, rfl | rfl, rfl⟩ := h <;> simp [hfixed, hbasic hu]
  | query | executeSql | variableInstance | assert =>
    obtain rfl := h
    simp [sqlCall, hfixed]
  | scriptResult | executeUsing | siardOutput | forLoop | dotExpression | interpolation
  | safeInterpolation =>
    obtain ⟨value, hv, rfl⟩ := h
    simp [hfixed, hbasic hv]
  | comparison =>
    obtain ⟨left, hl, right, hr, rfl⟩ := h
    simp [hfixed, hbasic hl, hbasic hr]
  | set =>
    obtain ⟨value, hv, rfl⟩ := h
    simp [hfixed, hexpression hv]
  | log | keyValuePair =>
    obtain ⟨value, hv, rfl⟩ := h
    simp [hfixed, htext hv]
  | _ => exact h.elim

end

end ArchiveScript.Grammar
