import ArchiveScript.Proofs.Run.SafeValues

/-! # What templates come to

A template is filled with literals and values in any order, and a value that is refused leaves it
as it is. Its text is all that was written without the line feeds of literals at the end, and so
it does not matter where a literal is cut in two.
-/

namespace ArchiveScript

namespace Value

def arg? : Value → Option SqlArg
  | text s => some (.text s)
  | integer n => some (.integer n)
  | rows _ | connection _ | parameter _ => none

theorem eq_value_of_arg? {value : Value} {arg : SqlArg} (h : value.arg? = some arg) :
    value = arg.value := by
  cases value <;> cases h <;> rfl

/-- What the value writes into a text, unless it is refused. -/
def marks? (value : Value) : Option (List Mark) :=
  if value.isScalar then some (Mark.ofText value.render.toList) else none

end Value

namespace Part

/-- What the part writes, unless it is refused. -/
def marks? (mode : TemplateMode) : Part → Option (List Mark)
  | literal text => some (Mark.ofLiteral text.toList)
  | plain value => value.marks?
  | safe value =>
    match mode with
    | .text => none
    | .sql => value.arg?.map fun _ => Mark.ofText ['?']
    | .command => value.marks?

def arg? (mode : TemplateMode) : Part → Option SqlArg
  | safe value => if mode = .sql then value.arg? else none
  | literal _ | plain _ => none

end Part

namespace Template

variable {template filled : Template} {part : Part} {written marks : List Mark}

def put (template : Template) : Part → Except Failure Template
  | .literal text => .ok (template.pushLiteral text.toList)
  | .plain value => template.pushValue value false
  | .safe value => template.pushValue value true

/-- Puts parts into the template; those that are refused leave it as it is. -/
def putAll (template : Template) (parts : List Part) : Template :=
  parts.foldl (fun template part => (template.put part).toOption.getD template) template

theorem pushValue_command (hm : template.mode = .command) (value : Value) (safe : Bool) :
    template.pushValue value safe = template.pushValue value false := by
  cases value <;> simp [pushValue, hm]

theorem pushValue_refused (hm : template.mode = .sql) {value : Value} (h : value.arg? = none) :
    ∃ failure, template.pushValue value true = .error failure := by
  cases value with
  | text | integer => cases h
  | rows | connection | parameter => simp [pushValue, hm]

/-- The second template has come from the first one by what was written and the argument. -/
structure Gains (template : Template) (written : List Mark) (arg : Option SqlArg)
    (filled : Template) : Prop where
  mode : filled.mode = template.mode
  args : filled.args.toList = template.args.toList ++ arg.toList
  shows : ∀ marks, template.Shows marks → filled.Shows (marks ++ written)

theorem gains_emit (text : List Char) :
    Gains template (Mark.ofText text) none (template.emit text) where
  mode := mode_emit text
  args := by simp [args_emit]
  shows _ h := h.emit_text text

theorem gains_pushLiteral (literal : List Char) :
    Gains template (Mark.ofLiteral literal) none (template.pushLiteral literal) where
  mode := mode_pushLiteral literal
  args := by simp [args_pushLiteral]
  shows _ h := h.pushLiteral literal

theorem gains_bindArg (arg : SqlArg) :
    Gains template (Mark.ofText ['?']) (some arg) (template.bindArg arg) where
  mode := mode_bindArg arg
  args := args_bindArg arg
  shows _ h := h.bindArg arg

theorem pushValue_gains {value : Value} (h : value.marks? = some written) :
    ∃ filled, template.pushValue value false = .ok filled ∧ Gains template written none filled := by
  rw [Value.marks?, Option.ite_none_right_eq_some] at h
  obtain ⟨hs, ho⟩ := h
  obtain rfl := Option.some.inj ho
  exact ⟨_, pushValue_plain hs, gains_emit _⟩

theorem pushValue_fails {value : Value} (h : value.marks? = none) :
    ∃ failure, template.pushValue value false = .error failure := by
  have hs : value.isScalar = false := by simpa [Value.marks?] using h
  exact ⟨_, pushValue_plain_refused hs⟩

theorem put_gains (h : part.marks? template.mode = some written) :
    ∃ filled, template.put part = .ok filled ∧
      Gains template written (part.arg? template.mode) filled := by
  cases part with
  | literal text =>
    obtain rfl := Option.some.inj h
    exact ⟨_, rfl, gains_pushLiteral _⟩
  | plain value => exact pushValue_gains h
  | safe value =>
    cases hm : template.mode with
    | text => simp [Part.marks?, hm] at h
    | sql =>
      simp only [Part.marks?, hm, Option.map_eq_some_iff] at h
      obtain ⟨arg, ha, rfl⟩ := h
      obtain rfl := Value.eq_value_of_arg? ha
      rw [Part.arg?, if_pos rfl, ha]
      exact ⟨_, pushValue_safe hm arg, gains_bindArg arg⟩
    | command =>
      simp only [Part.marks?, hm] at h
      rw [put, pushValue_command hm]
      exact pushValue_gains h

theorem put_fails (h : part.marks? template.mode = none) :
    ∃ failure, template.put part = .error failure := by
  cases part with
  | literal text => cases h
  | plain value => exact pushValue_fails h
  | safe value =>
    cases hm : template.mode with
    | text => exact ⟨⟨.safeInterpolationNotAllowed, none⟩, by simp [put, pushValue, hm]⟩
    | sql => exact pushValue_refused hm (by simpa [Part.marks?, hm] using h)
    | command =>
      simp only [Part.marks?, hm] at h
      rw [put, pushValue_command hm]
      exact pushValue_fails h

/-- A part is refused just if there is nothing that it would write. -/
theorem put_error_iff (template : Template) (part : Part) :
    (∃ failure, template.put part = .error failure) ↔ part.marks? template.mode = none := by
  constructor
  · rintro ⟨failure, hf⟩
    cases hw : part.marks? template.mode with
    | none => rfl
    | some written =>
      obtain ⟨filled, hp, -⟩ := put_gains hw
      rw [hp] at hf
      cases hf
  · exact put_fails

theorem arg?_of_refused {mode : TemplateMode} (h : part.marks? mode = none) :
    part.arg? mode = none := by
  cases part with
  | literal | plain => rfl
  | safe value => cases mode <;> simp_all [Part.marks?, Part.arg?]

def marksOf (mode : TemplateMode) (parts : List Part) : List Mark :=
  parts.flatMap fun part => (part.marks? mode).getD []

theorem putAll_shows (h : template.Shows marks) (parts : List Part) :
    (template.putAll parts).Shows (marks ++ marksOf template.mode parts) ∧
      (template.putAll parts).args.toList =
        template.args.toList ++ parts.filterMap (Part.arg? template.mode) := by
  induction parts generalizing template marks with
  | nil => simpa [putAll, marksOf] using h
  | cons part rest ih =>
    cases hw : part.marks? template.mode with
    | none =>
      obtain ⟨failure, hp⟩ := put_fails hw
      have hput : template.putAll (part :: rest) = template.putAll rest := by
        simp [putAll, hp, Except.toOption]
      rw [hput, List.filterMap_cons_none (arg?_of_refused hw)]
      simpa [marksOf, hw] using ih h
    | some more =>
      obtain ⟨filled, hp, hg⟩ := put_gains hw
      have hput : template.putAll (part :: rest) = filled.putAll rest := by
        simp [putAll, hp, Except.toOption]
      obtain ⟨hs, ha⟩ := ih (hg.shows marks h)
      rw [hg.mode] at hs ha
      rw [hput, ha, hg.args]
      constructor
      · simpa [marksOf, hw] using hs
      · cases hpa : part.arg? template.mode <;> simp [hpa]

theorem marksOf_split (mode : TemplateMode) (before after : List Part) {first second : String}
    (h : Parted first.toList second.toList) :
    marksOf mode (before ++ .literal (first ++ second) :: after) =
      marksOf mode (before ++ .literal first :: .literal second :: after) := by
  simp [marksOf, Part.marks?, Mark.ofLiteral, unifyFeeds_append h]

theorem finish_putAll (mode : TemplateMode) (parts : List Part) :
    (putAll { mode } parts).finish =
      ⟨String.ofList (Mark.shown (marksOf mode parts)), parts.filterMap (Part.arg? mode)⟩ := by
  obtain ⟨hs, ha⟩ := putAll_shows (shows_nil mode) parts
  rw [finish, hs.out, ha]
  rfl

theorem finish_putAll_split (mode : TemplateMode) (before after : List Part) {first second : String}
    (h : Parted first.toList second.toList) :
    (putAll { mode } (before ++ .literal (first ++ second) :: after)).finish =
      (putAll { mode } (before ++ .literal first :: .literal second :: after)).finish := by
  have ha : (before ++ .literal (first ++ second) :: after).filterMap (Part.arg? mode) =
      (before ++ .literal first :: .literal second :: after).filterMap (Part.arg? mode) := by
    simp [List.filterMap_cons, Part.arg?]
  rw [finish_putAll, finish_putAll, marksOf_split mode before after h, ha]

/-- Put together, parts come to the text that those of them that are not refused have written, up to
the last character that is not a line feed of a literal, and to the arguments that they give. A part
is refused just if it has nothing to write, and a literal writes itself with plain line feeds. Where
a literal is cut does not matter, unless it is cut in the middle of a line end. -/
theorem shows_what_was_written (mode : TemplateMode) (parts : List Part) :
    (putAll { mode } parts).finish =
        ⟨String.ofList (Mark.shown (marksOf mode parts)), parts.filterMap (Part.arg? mode)⟩ ∧
      (∀ (template : Template) (part : Part),
        (∃ failure, template.put part = .error failure) ↔ part.marks? template.mode = none) ∧
      (∀ first second : List Char,
        unifyFeeds (first ++ '\r' :: '\n' :: second) =
            unifyFeeds first ++ '\n' :: unifyFeeds second ∧
          (¬ ['\r', '\n'] <:+: first → unifyFeeds first = first)) ∧
      ∀ (before after : List Part) (first second : String),
        Parted first.toList second.toList →
          (putAll { mode } (before ++ .literal (first ++ second) :: after)).finish =
            (putAll { mode } (before ++ .literal first :: .literal second :: after)).finish := by
  refine ⟨finish_putAll mode parts, put_error_iff, ?_, ?_⟩
  · intro first second
    exact ⟨unifyFeeds_pair first second, unifyFeeds_of_no_pair⟩
  · intro before after first second h
    exact finish_putAll_split mode before after h

/-- The parameter is refused, the line feed of the value stays, and the last one does not. -/
theorem shows_what_was_written_sql :
    let parts : List Part :=
      [.literal "a = ", .safe (.integer 5), .safe (.parameter "p"), .literal "\r\n",
        .plain (.text ""), .literal "\n", .plain (.text "b\n")]
    Parted "c\r".toList "d\r\n".toList ∧
      (putAll { mode := .sql } (parts ++ [.literal "c\r", .literal "d\r\n"])).finish =
        ⟨"a = ?\n\nb\nc\rd", [.integer 5]⟩ := by
  intro parts
  have hcut : Parted "c\r".toList "d\r\n".toList := by decide
  have h := shows_what_was_written .sql (parts ++ [.literal ("c\r" ++ "d\r\n")])
  refine ⟨hcut, ?_⟩
  rw [← h.2.2.2 parts [] "c\r" "d\r\n" hcut, h.1]
  decide

end Template

end ArchiveScript
