import ArchiveScript.Proofs.Run.Operands
import ArchiveScript.Proofs.Run.Rendering
import ArchiveScript.Run.Rehearsal

/-! # Safe values in SQL

A value in the safe form never becomes a part of an SQL text. The text of two runs is the same if
their plain values are, whatever the safe ones are; the safe ones are the arguments.
-/

namespace ArchiveScript

namespace SqlArg

def value : SqlArg → Value
  | text s => .text s
  | integer n => .integer n

end SqlArg

namespace Value

def isScalar : Value → Bool
  | text _ | integer _ | parameter _ => true
  | rows _ | connection _ => false

theorem exists_arg {value : Value} (h : value.kind = .text ∨ value.kind = .integer) :
    ∃ arg : SqlArg, arg.value = value := by
  cases value with
  | text s => exact ⟨.text s, rfl⟩
  | integer n => exact ⟨.integer n, rfl⟩
  | _ => simp [kind] at h

end Value

/-- A piece of a verbatim block with the value that stands in it. -/
inductive Part where
  | literal (text : String)
  | plain (value : Value)
  | safe (value : Value)

namespace Part

/-- What a part writes into an SQL text; a safe one writes a question mark. -/
def sqlMarks : Part → List Mark
  | literal text => Mark.ofLiteral text.toList
  | plain value => Mark.ofText value.render.toList
  | safe _ => Mark.ofText ['?']

def plainValue? : Part → Option Value
  | plain value => some value
  | _ => none

def safeValue? : Part → Option Value
  | safe value => some value
  | _ => none

end Part

def plainValues (parts : List Part) : List Value := parts.filterMap Part.plainValue?

def safeValues (parts : List Part) : List Value := parts.filterMap Part.safeValue?

section

variable {parts : List Part}

@[simp]
theorem safeValues_literal (text : String) :
    safeValues (.literal text :: parts) = safeValues parts := rfl

@[simp]
theorem safeValues_plain (value : Value) : safeValues (.plain value :: parts) = safeValues parts :=
  rfl

@[simp]
theorem safeValues_safe (value : Value) :
    safeValues (.safe value :: parts) = value :: safeValues parts := rfl

end

/-- The SQL text of parts: all that they write, without the line feeds of literals at the end. -/
def sqlText (parts : List Part) : String :=
  String.ofList (Mark.shown (parts.flatMap Part.sqlMarks))

namespace Template

variable {template : Template} {marks : List Mark}

theorem pushValue_plain {value : Value} (h : value.isScalar = true) :
    template.pushValue value false = .ok (template.emit value.render.toList) := by
  cases value with
  | rows | connection => simp [Value.isScalar] at h
  | _ => rfl

theorem pushValue_plain_refused {value : Value} (h : value.isScalar = false) :
    template.pushValue value false = .error ⟨.interpolationNotScalar value.kind, none⟩ := by
  cases value with
  | rows | connection => rfl
  | _ => simp [Value.isScalar] at h

theorem pushValue_safe (hm : template.mode = .sql) (arg : SqlArg) :
    template.pushValue arg.value true = .ok (template.bindArg arg) := by
  cases arg <;> simp [pushValue, SqlArg.value, hm]

theorem Shows.bindArg (h : template.Shows marks) (arg : SqlArg) :
    (template.bindArg arg).Shows (marks ++ Mark.ofText ['?']) :=
  let he := h.emit_text ['?']
  ⟨he.out, he.pending⟩

theorem mode_emit (text : List Char) : (template.emit text).mode = template.mode := by
  unfold emit
  split <;> rfl

theorem args_emit (text : List Char) : (template.emit text).args = template.args := by
  unfold emit
  split <;> rfl

theorem mode_pushLiteral (literal : List Char) :
    (template.pushLiteral literal).mode = template.mode := by
  unfold pushLiteral
  exact mode_emit _

theorem args_pushLiteral (literal : List Char) :
    (template.pushLiteral literal).args = template.args := by
  unfold pushLiteral
  exact args_emit _

theorem mode_bindArg (arg : SqlArg) : (template.bindArg arg).mode = template.mode := by
  unfold bindArg
  exact mode_emit _

theorem args_bindArg (arg : SqlArg) :
    (template.bindArg arg).args.toList = template.args.toList ++ [arg] := by
  simp [bindArg, args_emit]

theorem mode_pushValue {filled : Template} {value : Value} {safe : Bool}
    (h : template.pushValue value safe = .ok filled) : filled.mode = template.mode := by
  unfold pushValue at h
  split at h
  · cases h
  · dsimp only at h
    split at h
    · cases h
    · cases h
    · split at h
      · cases h
      · cases h
        exact mode_emit _
    all_goals
      cases h
      split
      · exact mode_bindArg _
      · exact mode_emit _

end Template

namespace Run

variable {η κ : Type} [Cursor κ]

/-- The pieces of a verbatim block, evaluated one after the other, come to the parts. -/
inductive Reads (scope : Scope) : List Child → World η κ → List Part → World η κ → Prop
  | nil (world : World η κ) : Reads scope [] world [] world
  | literal {piece : Child} {rest : List Child} {world after : World η κ} {parts : List Part}
      (hk : piece.2.kind = .rawContent) (hr : Reads scope rest world parts after) :
      Reads scope (piece :: rest) world (.literal piece.2.text :: parts) after
  | plain {piece : Child} {rest : List Child} {world between after : World η κ}
      {parts : List Part} {value : Value} (hk : piece.2.kind = .interpolation)
      (hv : interpolated (basic scope) piece.2 world = (.ok value, between))
      (hr : Reads scope rest between parts after) :
      Reads scope (piece :: rest) world (.plain value :: parts) after
  | safe {piece : Child} {rest : List Child} {world between after : World η κ}
      {parts : List Part} {value : Value} (hk : piece.2.kind = .safeInterpolation)
      (hv : interpolated (basic scope) piece.2 world = (.ok value, between))
      (hr : Reads scope rest between parts after) :
      Reads scope (piece :: rest) world (.safe value :: parts) after

/-- The failure at the first plain value that cannot be written. -/
def refusal? : List Child → List Part → Option Failure
  | piece :: pieces, .plain value :: parts =>
    if value.isScalar then refusal? pieces parts
    else some ⟨.interpolationNotScalar value.kind, some piece.2.span⟩
  | _ :: pieces, _ :: parts => refusal? pieces parts
  | _, _ => none

theorem fillValue_run {scope : Scope} {template : Template} {piece : Node} {safe : Bool}
    {world between : World η κ} {value : Value}
    (hv : interpolated (basic scope) piece world = (.ok value, between)) :
    fillValue scope template piece safe world =
      match template.pushValue value safe with
      | .ok filled => (.ok filled, between)
      | .error failure => (.error (failure.placed piece.span), between) := by
  rw [fillValue, Eval.run_bind, hv]
  simp only [Eval.placed, Eval.settle]
  cases template.pushValue value safe <;> rfl

section

variable {scope : Scope} {template : Template} {piece : Child} {world between : World η κ}
  {value : Value}

theorem fillPiece_literal (hk : piece.2.kind = .rawContent) :
    fillPiece scope template piece.2 world =
      (.ok (template.pushLiteral piece.2.text.toList), world) := by
  rw [fillPiece, hk]
  rfl

theorem fillPiece_plain (hk : piece.2.kind = .interpolation)
    (hv : interpolated (basic scope) piece.2 world = (.ok value, between))
    (hc : value.isScalar = true) :
    fillPiece scope template piece.2 world =
      (.ok (template.emit value.render.toList), between) := by
  rw [fillPiece, hk]
  exact (fillValue_run hv).trans (by rw [Template.pushValue_plain hc])

theorem fillPiece_refused (hk : piece.2.kind = .interpolation)
    (hv : interpolated (basic scope) piece.2 world = (.ok value, between))
    (hc : value.isScalar = false) :
    fillPiece scope template piece.2 world =
      (.error ⟨.interpolationNotScalar value.kind, some piece.2.span⟩, between) := by
  rw [fillPiece, hk]
  refine (fillValue_run hv).trans ?_
  rw [Template.pushValue_plain_refused hc]
  rfl

theorem fillPiece_safe {arg : SqlArg} (hk : piece.2.kind = .safeInterpolation)
    (hv : interpolated (basic scope) piece.2 world = (.ok arg.value, between))
    (hm : template.mode = .sql) :
    fillPiece scope template piece.2 world = (.ok (template.bindArg arg), between) := by
  rw [fillPiece, hk]
  exact (fillValue_run hv).trans (by rw [Template.pushValue_safe hm])

end

def Fills (marks : List Mark) (args : List SqlArg) (after : World η κ) :
    Option Failure → Except Failure Template × World η κ → Prop
  | some failure, ended => ended.1 = .error failure
  | none, ended =>
    ∃ filled, ended = (.ok filled, after) ∧ filled.Shows marks ∧ filled.args.toList = args

/-- The template is determined by the parts: what it shows by their marks, and its arguments by
the safe values. -/
theorem fillPieces_fills {scope : Scope} {pieces : List Child} {world after : World η κ}
    {parts : List Part} (h : Reads scope pieces world parts after)
    (hs : ∀ value ∈ safeValues parts, value.kind = .text ∨ value.kind = .integer) :
    ∃ args : List SqlArg, args.map SqlArg.value = safeValues parts ∧
      ∀ (template : Template) (marks : List Mark), template.mode = .sql → template.Shows marks →
        Fills (marks ++ parts.flatMap Part.sqlMarks) (template.args.toList ++ args) after
          (refusal? pieces parts) (fillPieces scope template pieces world) := by
  induction h with
  | nil world =>
    refine ⟨[], rfl, fun template marks _ ht => ⟨template, rfl, ?_, ?_⟩⟩
    · simpa using ht
    · simp
  | @literal piece rest world after parts hk _ ih =>
    rw [safeValues_literal] at hs ⊢
    obtain ⟨args, ha, hf⟩ := ih hs
    refine ⟨args, ha, fun template marks hm ht => ?_⟩
    have hn := hf _ _ ((template.mode_pushLiteral _).trans hm) (ht.pushLiteral piece.2.text.toList)
    rw [Template.args_pushLiteral] at hn
    rw [fillPieces_cons, Eval.run_bind, fillPiece_literal hk, List.flatMap_cons,
      ← List.append_assoc]
    exact hn
  | @plain piece rest world between after parts value hk hv _ ih =>
    rw [safeValues_plain] at hs ⊢
    obtain ⟨args, ha, hf⟩ := ih hs
    refine ⟨args, ha, fun template marks hm ht => ?_⟩
    cases hc : value.isScalar with
    | true =>
      have hn := hf _ _ ((template.mode_emit _).trans hm) (ht.emit_text value.render.toList)
      rw [Template.args_emit] at hn
      rw [fillPieces_cons, Eval.run_bind, fillPiece_plain hk hv hc, refusal?, hc, List.flatMap_cons,
        ← List.append_assoc]
      exact hn
    | false =>
      rw [fillPieces_cons, Eval.run_bind, fillPiece_refused hk hv hc, refusal?, hc]
      rfl
  | @safe piece rest world between after parts value hk hv _ ih =>
    rw [safeValues_safe] at hs ⊢
    obtain ⟨args, ha, hf⟩ := ih fun v h => hs v (List.mem_cons_of_mem value h)
    obtain ⟨arg, rfl⟩ := Value.exists_arg (hs value List.mem_cons_self)
    refine ⟨arg :: args, congrArg (arg.value :: ·) ha, fun template marks hm ht => ?_⟩
    have hn := hf _ _ ((template.mode_bindArg arg).trans hm) (ht.bindArg arg)
    rw [Template.args_bindArg, List.append_assoc template.args.toList] at hn
    rw [fillPieces_cons, Eval.run_bind, fillPiece_safe hk hv hm, List.flatMap_cons,
      ← List.append_assoc]
    exact hn

/-- Two readings of the same pieces with the same plain values differ in the safe values only. -/
theorem Reads.agree {scope₁ scope₂ : Scope} {pieces : List Child}
    {world₁ after₁ world₂ after₂ : World η κ} {parts₁ parts₂ : List Part}
    (h₁ : Reads scope₁ pieces world₁ parts₁ after₁) (h₂ : Reads scope₂ pieces world₂ parts₂ after₂)
    (hp : plainValues parts₁ = plainValues parts₂) :
    parts₁.flatMap Part.sqlMarks = parts₂.flatMap Part.sqlMarks ∧
      refusal? pieces parts₁ = refusal? pieces parts₂ := by
  induction h₁ generalizing world₂ parts₂ with
  | nil =>
    cases h₂
    exact ⟨rfl, rfl⟩
  | literal hk _ ih =>
    cases h₂ with
    | literal _ hr =>
      obtain ⟨hm, hf⟩ := ih hr hp
      exact ⟨congrArg (_ ++ ·) hm, hf⟩
    | plain hk' => simp [hk] at hk'
    | safe hk' => simp [hk] at hk'
  | plain hk _ _ ih =>
    cases h₂ with
    | plain _ _ hr =>
      obtain ⟨rfl, hq⟩ := List.cons.inj hp
      obtain ⟨hm, hf⟩ := ih hr hq
      refine ⟨congrArg (_ ++ ·) hm, ?_⟩
      rw [refusal?, refusal?, hf]
    | literal hk' => simp [hk] at hk'
    | safe hk' => simp [hk] at hk'
  | safe hk _ _ ih =>
    cases h₂ with
    | safe _ _ hr =>
      obtain ⟨hm, hf⟩ := ih hr hp
      exact ⟨congrArg (_ ++ ·) hm, hf⟩
    | literal hk' => simp [hk] at hk'
    | plain hk' => simp [hk] at hk'

theorem refusal?_eq_none {scope : Scope} {pieces : List Child} {world after : World η κ}
    {parts : List Part} (h : Reads scope pieces world parts after)
    (hc : ∀ value ∈ plainValues parts, value.isScalar = true) : refusal? pieces parts = none := by
  induction h with
  | nil => rfl
  | literal _ _ ih => exact ih hc
  | @plain _ _ _ _ _ _ value _ _ _ ih =>
    rw [refusal?, hc value List.mem_cons_self]
    exact ih fun v hv => hc v (List.mem_cons_of_mem value hv)
  | safe _ _ _ ih => exact ih hc

def sqlOutcome (pieces : List Child) (parts : List Part) : Except Failure String :=
  match refusal? pieces parts with
  | some failure => .error failure
  | none => .ok (sqlText parts)

theorem raw_sql {block : Node} {scope : Scope} {world after : World η κ} {parts : List Part}
    (hk : block.kind = .raw) (h : Reads scope block.children world parts after)
    (hs : ∀ value ∈ safeValues parts, value.kind = .text ∨ value.kind = .integer) :
    ∃ args : List SqlArg, args.map SqlArg.value = safeValues parts ∧
      (raw scope .sql block world).1 =
        (sqlOutcome block.children parts).map (Filled.mk · args) ∧
      ∀ text, sqlOutcome block.children parts = .ok text →
        raw scope .sql block world = (.ok ⟨text, args⟩, after) := by
  obtain ⟨args, ha, hf⟩ := fillPieces_fills h hs
  have hfills := hf { mode := .sql } [] rfl (Template.shows_nil _)
  refine ⟨args, ha, ?_⟩
  rw [raw, if_pos hk, Eval.run_bind]
  unfold sqlOutcome
  cases hr : refusal? block.children parts with
  | some failure =>
    rw [hr] at hfills
    rcases hw : fillPieces scope { mode := .sql } block.children world with ⟨ended, world'⟩
    rw [hw] at hfills
    obtain rfl : ended = .error failure := hfills
    exact ⟨rfl, fun text ht => nomatch ht⟩
  | none =>
    rw [hr] at hfills
    obtain ⟨filled, he, hshows, hargs⟩ := hfills
    have hfinish : filled.finish = ⟨sqlText parts, args⟩ := by
      rw [Template.finish, hargs, sqlText]
      simpa using hshows.out
    rw [he]
    dsimp only
    rw [hfinish]
    refine ⟨rfl, fun text ht => ?_⟩
    obtain rfl := Except.ok.inj ht
    rfl

section Handing

variable [Host η κ]

/-- A statement and a query that hold the block hand over the text and the arguments, and nothing
else. -/
def HandsOver (block : Node) (scope : Scope) (world after : World η κ) (text : String)
    (args : List SqlArg) : Prop :=
  ∀ node connection, world.scope = scope → node.field? .sql = some block →
    (connectionOf scope node world).1 = .ok connection →
    executeSql node world = Eval.call (.update connection text args) .sql
      (Host.update connection text args) after ∧
    query node world = (Eval.call (.query connection text args) .sql
      (Host.query connection text args) >>= fun cursor => Eval.addRows (.live cursor)) after

omit [Cursor κ] [Host η κ] in
theorem connectionOf_run (scope : Scope) (node : Node) (world : World η κ) :
    (connectionOf scope node world).2 = world := by
  have h : Keeps (· = world) (connectionOf scope node : Eval η κ Connection) :=
    Keeps.connectionOf scope node
  exact (h world rfl).1

omit [Host η κ] in
theorem run_with_sql {α : Type} {block node : Node} {world after : World η κ} {text : String}
    {args : List SqlArg} {connection : Connection} (k : Connection → Filled → Eval η κ α)
    (h : raw world.scope .sql block world = (.ok ⟨text, args⟩, after))
    (hf : node.field? .sql = some block)
    (hc : (connectionOf world.scope node world).1 = .ok connection) :
    (connectionOf world.scope node >>= fun found => node.need .sql >>= fun sql =>
      raw world.scope .sql sql >>= k found) world = k connection ⟨text, args⟩ after := by
  have hr : connectionOf world.scope node world = (.ok connection, world) :=
    Prod.ext hc (connectionOf_run _ _ _)
  have hn : (node.need .sql : Eval η κ Node) = pure block := by rw [Node.need, hf]
  simp only [Eval.run_bind, hr, hn, pure_bind, h]

theorem handsOver_of_raw {block : Node} {scope : Scope} {world after : World η κ} {text : String}
    {args : List SqlArg} (h : raw scope .sql block world = (.ok ⟨text, args⟩, after)) :
    HandsOver block scope world after text args := by
  rintro node connection rfl hf hc
  constructor
  · rw [executeSql, Eval.run_get]
    rw [run_with_sql _ h hf hc]
  · rw [query, Eval.run_get]
    rw [run_with_sql _ h hf hc]

/-- Two runs of a verbatim block as SQL whose plain values are the same write the same text, or
fail alike. The text has a question mark in the place of each safe value, the arguments are the
safe values in their order, and these are what the database is given. -/
theorem safe_values_never_inlined {block : Node} {scope₁ scope₂ : Scope}
    {world₁ after₁ world₂ after₂ : World η κ} {parts₁ parts₂ : List Part}
    (hk : block.kind = .raw)
    (h₁ : Reads scope₁ block.children world₁ parts₁ after₁)
    (h₂ : Reads scope₂ block.children world₂ parts₂ after₂)
    (hp : plainValues parts₁ = plainValues parts₂)
    (hs₁ : ∀ value ∈ safeValues parts₁, value.kind = .text ∨ value.kind = .integer)
    (hs₂ : ∀ value ∈ safeValues parts₂, value.kind = .text ∨ value.kind = .integer) :
    ∃ (outcome : Except Failure String) (args₁ args₂ : List SqlArg),
      args₁.map SqlArg.value = safeValues parts₁ ∧
      args₂.map SqlArg.value = safeValues parts₂ ∧
      (raw scope₁ .sql block world₁).1 = outcome.map (Filled.mk · args₁) ∧
      (raw scope₂ .sql block world₂).1 = outcome.map (Filled.mk · args₂) ∧
      ((∀ value ∈ plainValues parts₁, value.isScalar = true) → outcome = .ok (sqlText parts₁)) ∧
      ∀ text, outcome = .ok text → text = sqlText parts₁ ∧
        HandsOver block scope₁ world₁ after₁ text args₁ ∧
        HandsOver block scope₂ world₂ after₂ text args₂ := by
  obtain ⟨hm, hr⟩ := h₁.agree h₂ hp
  have ho : sqlOutcome block.children parts₁ = sqlOutcome block.children parts₂ := by
    rw [sqlOutcome, sqlOutcome, hr, sqlText, sqlText, hm]
  obtain ⟨args₁, ha₁, he₁, hd₁⟩ := raw_sql hk h₁ hs₁
  obtain ⟨args₂, ha₂, he₂, hd₂⟩ := raw_sql hk h₂ hs₂
  rw [← ho] at he₂ hd₂
  refine ⟨sqlOutcome block.children parts₁, args₁, args₂, ha₁, ha₂, he₁, he₂, ?_, ?_⟩
  · intro hc
    rw [sqlOutcome, refusal?_eq_none h₁ hc]
  · intro text ht
    refine ⟨?_, handsOver_of_raw (hd₁ text ht), handsOver_of_raw (hd₂ text ht)⟩
    unfold sqlOutcome at ht
    split at ht
    · cases ht
    · exact (Except.ok.inj ht).symm

end Handing

def variableChild (name : String) : Child :=
  (none, .mk .variableInstance (.point 0) "" [(none, .mk .identifier (.point 0) name [])])

def insertion : Node :=
  .mk .raw (.point 0) "" [
    (none, .mk .rawContent (.point 0) "INSERT INTO " []),
    (none, .mk .interpolation (.point 0) "" [variableChild "table"]),
    (none, .mk .rawContent (.point 0) " VALUES (" []),
    (none, .mk .safeInterpolation (.point 0) "" [variableChild "name"]),
    (none, .mk .rawContent (.point 0) ")\n" [])]

def insertionWorld (name : Value) : World Rehearsal (FaultyCursor TableCursor) where
  host := {}
  scope := ⟨.bindings ⟨[("table", .text "people"), ("name", name)]⟩, []⟩

/-- A name that looks like SQL and a number end up in the same text. -/
theorem insertion_never_inlined : ∃ text,
    (raw (insertionWorld (.text "'); --")).scope .sql insertion
      (insertionWorld (.text "'); --"))).1 = .ok ⟨text, [.text "'); --"]⟩ ∧
    (raw (insertionWorld (.integer 7)).scope .sql insertion
      (insertionWorld (.integer 7))).1 = .ok ⟨text, [.integer 7]⟩ := by
  have hr (name : Value) : Reads (insertionWorld name).scope insertion.children
      (insertionWorld name) [.literal "INSERT INTO ", .plain (.text "people"),
        .literal " VALUES (", .safe name, .literal ")\n"] (insertionWorld name) :=
    .literal rfl (.plain rfl rfl (.literal rfl (.safe rfl rfl (.literal rfl (.nil _)))))
  obtain ⟨outcome, args₁, args₂, ha₁, ha₂, he₁, he₂, ho, -⟩ :=
    safe_values_never_inlined rfl (hr (.text "'); --")) (hr (.integer 7)) rfl
      (by simp [safeValues, Part.safeValue?, Value.kind])
      (by simp [safeValues, Part.safeValue?, Value.kind])
  have hi : ∀ arg other : SqlArg, arg.value = other.value → arg = other := by
    rintro (_ | _) (_ | _) h <;> cases h <;> rfl
  obtain rfl : args₁ = [.text "'); --"] := (List.map_inj_right hi).1 ha₁
  obtain rfl : args₂ = [.integer 7] := (List.map_inj_right hi).1 ha₂
  rw [ho (by simp [plainValues, Part.plainValue?, Value.isScalar])] at he₁ he₂
  exact ⟨_, he₁, he₂⟩

end Run

end ArchiveScript
