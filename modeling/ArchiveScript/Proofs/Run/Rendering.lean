import ArchiveScript.Run.Template

/-! # What a template writes

The text of a template is all that was written to it, in order, without the line feeds of literals
at its end. The template holds those back, and this is all that it holds back.
-/

namespace ArchiveScript

namespace Template

theorem unifyFeeds_char {c : Char} (hc : c ≠ '\r') (text : List Char) :
    unifyFeeds (c :: text) = c :: unifyFeeds text := by
  rw [unifyFeeds]
  rintro rest rfl
  exact absurd rfl hc

/-- Where two texts meet, no carriage return stands before a line feed. -/
def Parted (first second : List Char) : Prop :=
  ¬ (first.getLast? = some '\r' ∧ second.head? = some '\n')

instance (first second : List Char) : Decidable (Parted first second) :=
  inferInstanceAs (Decidable (¬ _))

theorem unifyFeeds_append {first second : List Char} (h : Parted first second) :
    unifyFeeds (first ++ second) = unifyFeeds first ++ unifyFeeds second := by
  fun_induction unifyFeeds first with
  | case1 cs ih =>
    have hcs : Parted cs second := by
      intro hp
      apply h
      rw [List.getLast?_cons_cons, List.getLast?_cons, hp.1]
      exact ⟨rfl, hp.2⟩
    rw [List.cons_append, List.cons_append, unifyFeeds, ih hcs]
    rfl
  | case2 c cs hc ih =>
    have hcs : Parted cs second := by
      intro hp
      apply h
      rw [List.getLast?_cons, hp.1]
      exact ⟨rfl, hp.2⟩
    rw [List.cons_append, unifyFeeds, ih hcs]
    · rfl
    -- A line feed after this character comes from the second text only if the first one ends here.
    · rintro rest rfl hr
      cases cs with
      | nil =>
        apply h
        rw [List.nil_append] at hr
        rw [hr]
        exact ⟨rfl, rfl⟩
      | cons d ds => exact hc ds rfl (by rw [(List.cons.inj hr).1])
  | case3 => rfl

/-- A line feed loses the carriage return before it. -/
theorem unifyFeeds_pair (first second : List Char) :
    unifyFeeds (first ++ '\r' :: '\n' :: second) =
      unifyFeeds first ++ '\n' :: unifyFeeds second := by
  rw [unifyFeeds_append (by simp [Parted]), unifyFeeds]

theorem unifyFeeds_of_no_pair {text : List Char} (h : ¬ ['\r', '\n'] <:+: text) :
    unifyFeeds text = text := by
  fun_induction unifyFeeds text with
  | case1 cs ih => exact absurd ⟨[], cs, rfl⟩ h
  | case2 c cs hc ih => rw [ih fun hi => h (hi.trans (List.suffix_cons c cs).isInfix)]
  | case3 => rfl

theorem unifyFeeds_of_no_return {text : List Char} (h : '\r' ∉ text) : unifyFeeds text = text :=
  unifyFeeds_of_no_pair fun hi => h (hi.subset List.mem_cons_self)

end Template

/-- A character that was written, and whether it is a line feed of a literal. -/
abbrev Mark := Char × Bool

namespace Mark

def ofLiteral (literal : List Char) : List Mark :=
  (Template.unifyFeeds literal).map fun c => (c, c == '\n')

def ofText (text : List Char) : List Mark := text.map fun c => (c, false)

/-- The marks up to the last one that is not a line feed of a literal. -/
def shown (marks : List Mark) : List Char := (marks.reverse.dropWhile (·.2)).reverse.map (·.1)

def waiting (marks : List Mark) : List Char := (marks.reverse.takeWhile (·.2)).reverse.map (·.1)

theorem shown_append_waiting (marks : List Mark) :
    shown marks ++ waiting marks = marks.map (·.1) := by
  have h := congrArg List.reverse
    (List.takeWhile_append_dropWhile (p := fun mark : Mark => mark.2) (l := marks.reverse))
  rw [List.reverse_append, List.reverse_reverse] at h
  rw [shown, waiting, ← List.map_append, h]

theorem shown_append_singleton (marks : List Mark) (c : Char) :
    shown (marks ++ [(c, false)]) = (marks ++ [(c, false)]).map (·.1) := by
  simp [shown]

theorem waiting_append_singleton (marks : List Mark) (c : Char) :
    waiting (marks ++ [(c, false)]) = [] := by
  simp [waiting]

theorem shown_append_feeds (marks : List Mark) (feeds : List Char) :
    shown (marks ++ feeds.map fun c => (c, true)) = shown marks := by
  have h : ∀ mark ∈ (feeds.map fun c => (c, true)).reverse, mark.2 = true := by
    simp
  rw [shown, List.reverse_append, List.dropWhile_append_of_pos h, shown]

theorem waiting_append_feeds (marks : List Mark) (feeds : List Char) :
    waiting (marks ++ feeds.map fun c => (c, true)) = waiting marks ++ feeds := by
  have h : ∀ mark ∈ (feeds.map fun c => (c, true)).reverse, mark.2 = true := by
    simp
  rw [waiting, List.reverse_append, List.takeWhile_append_of_pos h, List.reverse_append,
    List.map_append, List.reverse_reverse, waiting, List.map_map]
  congr 1
  exact List.map_id' feeds

end Mark

namespace Template

/-- The template has written the marks, and holds back those that wait. -/
structure Shows (template : Template) (marks : List Mark) : Prop where
  out : template.out = String.ofList (Mark.shown marks)
  pending : template.pending = Mark.waiting marks

theorem shows_nil (mode : TemplateMode) : Shows { mode } [] := ⟨rfl, rfl⟩

variable {template : Template} {marks : List Mark}

/-- Marks whose last one does not wait are written with all that waited. -/
theorem Shows.emit (h : template.Shows marks) (more : List Mark) (c : Char) :
    (template.emit ((more ++ [(c, false)]).map (·.1))).Shows (marks ++ (more ++ [(c, false)])) := by
  have ht : ((more ++ [(c, false)]).map (·.1)).isEmpty = false := by simp
  rw [Template.emit, ht, ← List.append_assoc]
  refine ⟨?_, (Mark.waiting_append_singleton _ c).symm⟩
  have hm := Mark.shown_append_waiting marks
  simp only [Bool.false_eq_true, if_false]
  rw [Mark.shown_append_singleton, h.out, h.pending, ← String.ofList_append,
    ← List.append_assoc, hm]
  simp

theorem Shows.emit_text (h : template.Shows marks) (text : List Char) :
    (template.emit text).Shows (marks ++ Mark.ofText text) := by
  rcases List.eq_nil_or_concat text with rfl | ⟨init, c, rfl⟩
  · simpa [Mark.ofText, Template.emit] using h
  · have he := h.emit (Mark.ofText init) c
    simpa [Mark.ofText, Function.comp_def] using he

theorem Shows.hold (h : template.Shows marks) (feeds : List Char) :
    { template with pending := template.pending ++ feeds }.Shows
      (marks ++ feeds.map fun c => (c, true)) := by
  refine ⟨?_, ?_⟩
  · rw [Mark.shown_append_feeds]
    exact h.out
  · rw [Mark.waiting_append_feeds, h.pending]

theorem split_feeds (literal : List Char) :
    ∃ content n, literal = content ++ List.replicate n '\n' ∧
      literal.reverse.takeWhile (· == '\n') = List.replicate n '\n' ∧
      content.getLast? ≠ some '\n' := by
  have h := congrArg List.reverse (List.takeWhile_append_dropWhile (p := (· == '\n'))
    (l := literal.reverse))
  rw [List.reverse_append, List.reverse_reverse] at h
  have hf : literal.reverse.takeWhile (· == '\n') =
      List.replicate (literal.reverse.takeWhile (· == '\n')).length '\n' := by
    refine List.eq_replicate_iff.2 ⟨rfl, fun c hc => ?_⟩
    have ha := List.all_eq_true.1 List.all_takeWhile c hc
    simpa using ha
  refine ⟨(literal.reverse.dropWhile (· == '\n')).reverse, _, ?_, hf, ?_⟩
  · rw [hf, List.reverse_replicate] at h
    exact h.symm
  · rw [List.getLast?_reverse]
    intro hc
    have hd := List.head?_dropWhile_not (· == '\n') literal.reverse
    rw [hc] at hd
    simp at hd

theorem Shows.pushLiteral (h : template.Shows marks) (literal : List Char) :
    (template.pushLiteral literal).Shows (marks ++ Mark.ofLiteral literal) := by
  obtain ⟨content, n, hl, hf, hc⟩ := split_feeds (unifyFeeds literal)
  have ht : (unifyFeeds literal).take
      ((unifyFeeds literal).length - (List.replicate n '\n').length) = content := by
    rw [hl]
    simp
  have hm : Mark.ofLiteral literal = content.map (fun c => (c, c == '\n')) ++
      (List.replicate n '\n').map fun c => (c, true) := by
    rw [Mark.ofLiteral, hl]
    simp
  have he : (template.emit content).Shows (marks ++ content.map fun c => (c, c == '\n')) := by
    rcases List.eq_nil_or_concat content with rfl | ⟨init, c, rfl⟩
    · simpa [Template.emit] using h
    · have hn : c ≠ '\n' := by simpa using hc
      have he := h.emit (init.map fun c => (c, c == '\n')) c
      have hb : (c == '\n') = false := by simpa using hn
      simpa [Function.comp_def, hb] using he
  rw [Template.pushLiteral, hf, ht, hm, ← List.append_assoc]
  exact he.hold _

end Template

end ArchiveScript
