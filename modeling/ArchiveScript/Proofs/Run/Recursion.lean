import ArchiveScript.Run.Statement

/-! # Evaluation without heights

Expressions, declarations and blocks are evaluated along the height of their trees. The height
is always enough: each of them is evaluated like its parts, whatever the height.
-/

namespace ArchiveScript

namespace Node

theorem height_le_heights {children : List Child} {child : Child} (h : child ∈ children) :
    child.2.height ≤ heights children := by
  induction children with
  | nil => cases h
  | cons first rest ih =>
    rw [heights]
    rcases List.mem_cons.1 h with rfl | h
    · exact Nat.le_max_left ..
    · exact Nat.le_trans (ih h) (Nat.le_max_right ..)

theorem height_lt_of_mem {node : Node} {child : Child} (h : child ∈ node.children) :
    child.2.height < node.height := by
  cases node
  exact Nat.lt_succ_of_le (height_le_heights h)

theorem height_lt_of_field? {node child : Node} {field : Field}
    (h : node.field? field = some child) : child.height < node.height := by
  obtain ⟨found, hf, rfl⟩ := Option.map_eq_some_iff.1 h
  exact height_lt_of_mem (List.mem_of_find?_eq_some hf)

theorem height_lt_of_first? {node child : Node} (h : node.first? = some child) :
    child.height < node.height := by
  obtain ⟨found, hf, rfl⟩ := Option.map_eq_some_iff.1 h
  exact height_lt_of_mem (List.mem_of_mem_head? hf)

section Recursion

variable {β : Type} {within : Nat → Node → β} {step : (Node → β) → Node → β}

/-- A recursion that has come as far as the height of its tree has come to its end. -/
theorem within_eq_within (hw : ∀ n node, within (n + 1) node = step (within n) node)
    (hs : ∀ f g node, (∀ child, height child < node.height → f child = g child) →
      step f node = step g node)
    {n m : Nat} {node : Node} (hn : node.height ≤ n) (hm : node.height ≤ m) :
    within n node = within m node := by
  induction n generalizing m node with
  | zero => exact absurd node.height_pos (Nat.not_lt.2 hn)
  | succ n ih =>
    cases m with
    | zero => exact absurd node.height_pos (Nat.not_lt.2 hm)
    | succ m =>
      rw [hw, hw]
      refine hs _ _ node fun child hc => ih ?_ ?_
      · omega
      · omega

theorem within_height (hw : ∀ n node, within (n + 1) node = step (within n) node)
    (hs : ∀ f g node, (∀ child, height child < node.height → f child = g child) →
      step f node = step g node) (node : Node) :
    within node.height node = step (fun child => within child.height child) node := by
  rw [within_eq_within hw hs (Nat.le_refl _) (Nat.le_succ node.height), hw]
  exact hs _ _ node fun child hc => within_eq_within hw hs (Nat.le_of_lt hc) (Nat.le_refl _)

end Recursion

end Node

namespace Run

variable {η κ : Type} [Cursor κ]

section Expressions

variable {f g : Node → Eval η κ Value} {scope : Scope} {node : Node}

omit [Cursor κ] in
theorem interpolated_congr (h : ∀ child, child.height < node.height → f child = g child) :
    interpolated f node = interpolated g node := by
  unfold interpolated
  cases hc : node.first? with
  | none => rfl
  | some child => exact h child (Node.height_lt_of_first? hc)

omit [Cursor κ] in
theorem stringPieces_congr {pieces : List Child}
    (h : ∀ piece ∈ pieces, ∀ child, child.height < piece.2.height → f child = g child) :
    stringPieces f pieces = stringPieces g pieces := by
  induction pieces with
  | nil => rfl
  | cons piece rest ih =>
    have hp := interpolated_congr (h piece List.mem_cons_self)
    simp only [stringPieces, stringPiece, hp,
      ih fun other ho => h other (List.mem_cons_of_mem piece ho)]

omit [Cursor κ] in
theorem need_bind_congr {α : Type} {f g : Node → Eval η κ α} {field : Field}
    (h : ∀ child, child.height < node.height → f child = g child) :
    node.need field >>= f = node.need field >>= g := by
  unfold Node.need
  cases hc : node.field? field with
  | none => rfl
  | some child => exact h child (Node.height_lt_of_field? hc)

theorem basicWith_congr (h : ∀ child, child.height < node.height → f child = g child) :
    basicWith f scope node = basicWith g scope node := by
  have hs : stringPieces f node.children = stringPieces g node.children :=
    stringPieces_congr fun piece hp child hc =>
      h child (Nat.lt_trans hc (Node.height_lt_of_mem hp))
  have ho : (do
      let left ← f (← node.need .left)
      let operation ← (← node.need .right).identifier
      operate left operation) = (do
      let left ← g (← node.need .left)
      let operation ← (← node.need .right).identifier
      operate left operation) :=
    need_bind_congr fun child hc => by rw [h child hc]
  simp only [basicWith, hs, ho]

theorem basic_eq (scope : Scope) (node : Node) :
    (basic scope node : Eval η κ Value) = basicWith (basic scope) scope node :=
  Node.within_height (fun _ _ => rfl) (fun _ _ _ => basicWith_congr) node

def fillValue (scope : Scope) (template : Template) (piece : Node) (safe : Bool) :
    Eval η κ Template := do
  let value ← interpolated (basic scope) piece
  Eval.placed piece.span (Eval.settle (template.pushValue value safe))

def fillPiece (scope : Scope) (template : Template) (piece : Node) : Eval η κ Template :=
  match piece.kind with
  | .rawContent => pure (template.pushLiteral piece.text.toList)
  | .interpolation => fillValue scope template piece false
  | .safeInterpolation => fillValue scope template piece true
  | other => Eval.failAt piece.span (.unexpectedNode other "a raw block")

theorem fillPieces_cons (scope : Scope) (template : Template) (piece : Child) (rest : List Child) :
    (fillPieces scope template (piece :: rest) : Eval η κ Template) =
      fillPiece scope template piece.2 >>= fun filled => fillPieces scope filled rest := by
  rw [fillPieces, fillPiece]
  dsimp only
  cases piece.2.kind <;> rfl

end Expressions

section Declarations

variable {f g : Node → Eval η κ (Outline ArchiveKind)} {scope : Scope} {node : Node}

omit [Cursor κ] in
theorem mapM_congr {α : Type} {f g : Child → Eval η κ α} {children : List Child}
    (h : ∀ child ∈ children, f child = g child) : children.mapM f = children.mapM g := by
  induction children with
  | nil => rfl
  | cons child rest ih =>
    rw [List.mapM_cons, List.mapM_cons, h child List.mem_cons_self,
      ih fun other ho => h other (List.mem_cons_of_mem child ho)]

theorem declarationWith_congr (h : ∀ child, child.height < node.height → f child = g child) :
    declarationWith f scope node = declarationWith g scope node := by
  have hm : (node.children.filter fun child => (declarationKind? child.2.kind).isSome).mapM
        (fun child => f child.2) =
      (node.children.filter fun child => (declarationKind? child.2.kind).isSome).mapM
        (fun child => g child.2) :=
    mapM_congr fun child hc => h child.2 (Node.height_lt_of_mem (List.mem_filter.1 hc).1)
  simp only [declarationWith, hm]

theorem declaration_eq (scope : Scope) (node : Node) :
    (declaration scope node : Eval η κ (Outline ArchiveKind)) =
      declarationWith (declaration scope) scope node :=
  Node.within_height (fun _ _ => rfl) (fun _ _ _ => declarationWith_congr) node

omit [Cursor κ] in
def bindParameter (settings : Settings) (parameter : Node) : Eval η κ (Outline CommandKind) := do
  if parameter.kind = .parameter then
    let name ← (← parameter.need .name).identifier
    match settings.parameters.get? name with
    | some value => Eval.bind name (.text value)
    | none => Eval.unbind name
    return .leaf .parameter name (((parameter.field? .description).map Node.text).getD "")
  else Eval.failAt parameter.span (.unexpectedNode parameter.kind "a parameter list")

omit [Cursor κ] in
theorem bindParameters_cons (settings : Settings) (parameter : Child) (rest : List Child) :
    (bindParameters settings (parameter :: rest) : Eval η κ (List (Outline CommandKind))) =
      bindParameter settings parameter.2 >>= fun entry =>
        bindParameters settings rest >>= fun entries => pure (entry :: entries) := by
  unfold bindParameter
  rw [bindParameters]
  by_cases hk : parameter.2.kind = .parameter
  · simp only [hk, ne_eq, not_true_eq_false, if_false, if_true, bind_assoc]
    refine bind_congr fun nameNode => bind_congr fun name => ?_
    cases settings.parameters.get? name <;> simp only [bind_assoc, pure_bind]
  · simp only [hk, ne_eq, not_false_eq_true, if_true, if_false]
    rfl

def declareItem (settings : Settings) (connection : String) (item : Node) : Eval η κ Unit := do
  match item.kind with
  | .siardSchema =>
    let schema ← declaration (← get).scope item
    Eval.onLedger (·.declare connection schema)
  | .commandDeclaration =>
    let entry ← command settings item
    Eval.onLedger (·.declareCommand connection entry)
  | _ => pure ()

theorem declareItems_cons (settings : Settings) (connection : String) (item : Child)
    (rest : List Child) :
    (declareItems settings connection (item :: rest) : Eval η κ Unit) =
      declareItem settings connection item.2 >>= fun _ =>
        declareItems settings connection rest := by
  rw [declareItems, declareItem]
  dsimp only
  cases item.2.kind <;> simp only [bind_assoc, pure_bind]

end Declarations

section Blocks

variable [Host η κ] {settings : Settings} {f g : Node → Eval η κ Unit} {node : Node}

theorem statementWith_congr (h : ∀ child, child.height < node.height → f child = g child) :
    statementWith settings f node = statementWith settings g node := by
  have hl : forLoop f node = forLoop g node := by
    unfold forLoop
    refine bind_congr fun variablesNode => bind_congr fun names => bind_congr fun rowsNode => ?_
    refine bind_congr fun world => bind_congr fun source => bind_congr fun rows => ?_
    exact need_bind_congr fun child hc => by rw [h child hc]
  have hc : conditional f node = conditional g node := by
    unfold conditional
    refine bind_congr fun condition => bind_congr fun world => bind_congr fun holds => ?_
    cases holds with
    | true => exact need_bind_congr h
    | false =>
      cases ha : node.field? .alternative with
      | none => rfl
      | some child => exact h child (Node.height_lt_of_field? ha)
  simp only [statementWith, hl, hc]

theorem statements_congr {children : List Child}
    (h : ∀ child ∈ children, ∀ inner, inner.height < child.2.height → f inner = g inner) :
    statements settings f children = statements settings g children := by
  induction children with
  | nil => rfl
  | cons child rest ih =>
    rw [statements, statements, statementWith_congr (h child List.mem_cons_self),
      ih fun other ho => h other (List.mem_cons_of_mem child ho)]

/-- A block is run by running its statements, and they run the blocks inside them. -/
theorem block_eq (settings : Settings) (node : Node) :
    (block settings node : Eval η κ Unit) =
      statements settings (block settings) node.children := by
  refine @Node.within_height _ (blockWithin settings)
    (fun f node => statements settings f node.children) (fun _ _ => rfl) ?_ node
  intro f g node h
  exact statements_congr fun child hc inner hi =>
    h inner (Nat.lt_trans hi (Node.height_lt_of_mem hc))

theorem script_eq (settings : Settings) {node : Node} (hk : node.kind = .sourceFile) :
    (script settings node : Eval η κ Unit) =
      statements settings (block settings) node.children := by
  rw [script, if_pos hk, block_eq]

theorem statements_singleton (settings : Settings) (inner : Node → Eval η κ Unit) (node : Node) :
    statements settings inner [(none, node)] = statementWith settings inner node := by
  rw [statements, statements]
  exact bind_pure _

end Blocks

end Run

end ArchiveScript
