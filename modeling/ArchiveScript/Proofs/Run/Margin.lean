import Mathlib
import ArchiveScript.Proofs.Run.Likeness
import ArchiveScript.Proofs.Run.LostTexts
import ArchiveScript.Proofs.Script.Layouts

/-! # Scripts behind a margin

A script is read by comparing the indentations of its lines with each other. So a margin before
all of its lines changes neither what is read, nor the complaints, nor what a run does.
-/

namespace ArchiveScript

namespace Text

/-- The text with the margin before each of its lines. `atStart` tells whether the next character
is the first one of a line. -/
def behindFrom (margin : List Char) (atStart : Bool) : List Char → List Char
  | [] => []
  | c :: cs => (if atStart then margin else []) ++ c :: behindFrom margin (c == '\n') cs

def behind (margin source : List Char) : List Char := behindFrom margin true source

/-- The text with `k` more spaces before each of its lines. -/
def indented (k : Nat) (source : List Char) : List Char := behind (List.replicate k ' ') source

-- Empty lines get the margin, and there is no line behind the last line feed.
example : indented 2 "a\n\n b\n".toList = "  a\n  \n   b\n".toList := by decide

variable {margin : List Char}

theorem behind_cons (c : Char) (cs : List Char) :
    behind margin (c :: cs) = margin ++ behindFrom margin false (c :: cs) := rfl

theorem behindFrom_feed (rest : List Char) :
    behindFrom margin false ('\n' :: rest) = '\n' :: behind margin rest := rfl

theorem behindFrom_char {c : Char} (hc : c ≠ '\n') (rest : List Char) :
    behindFrom margin false (c :: rest) = c :: behindFrom margin false rest := by
  rw [behindFrom, beq_false_of_ne hc]
  rfl

theorem behindFrom_of_no_feed {source : List Char} (h : '\n' ∉ source) :
    behindFrom margin false source = source := by
  induction source with
  | nil => rfl
  | cons c cs ih =>
    rw [behindFrom_char (fun hc => h (hc ▸ List.mem_cons_self)),
      ih fun hm => h (List.mem_cons_of_mem c hm)]

/-- A text of one line stands behind the margin. -/
theorem behind_of_no_feed {source : List Char} (hn : source ≠ []) (h : '\n' ∉ source) :
    behind margin source = margin ++ source := by
  obtain ⟨c, cs, rfl⟩ := List.exists_cons_of_ne_nil hn
  rw [behind_cons, behindFrom_of_no_feed h]

end Text

/-- The same text with a margin before each line, at offsets that belong to the two texts. -/
def Likeness.behind (margin source source' : List Char) : Likeness :=
  .ofOffsets (fun a b => a ≤ Text.bytes source ∧ b ≤ Text.bytes source') margin
    (Text.bytes source ≤ Span.maxOffset ∧ Text.bytes source' ≤ Span.maxOffset)
    (fun h h' => ⟨Nat.max_le.2 ⟨h.1, h'.1⟩, Nat.max_le.2 ⟨h.2, h'.2⟩⟩)
    (fun h _' => ⟨Nat.le_trans (Span.start_between_le _ _) h.1,
      Nat.le_trans (Span.start_between_le _ _) h.2⟩)
    (fun _ h' => ⟨Nat.le_trans (Span.stop_between_le _ _) h'.1,
      Nat.le_trans (Span.stop_between_le _ _) h'.2⟩)

instance {margin source source' : List Char} : (Likeness.behind margin source source').Reaches :=
  ⟨fun hf _ _ h => iff_of_true (Nat.le_trans h.1 hf.1) (Nat.le_trans h.2 hf.2)⟩

theorem Likeness.behind_unifies {margin source source' : List Char}
    (h : Text.bytes source ≤ Span.maxOffset) (h' : Text.bytes source' ≤ Span.maxOffset) :
    (Likeness.behind margin source source').Unifies where
  fits := ⟨h, h'⟩
  feeds := by
    rintro text _ rfl
    rfl

namespace Line

variable {margin source source' : List Char}

theorem ofContent_margin (hm : ∀ c ∈ margin, Text.isIndent c = true) (start start' : Nat)
    (content feed : List Char) :
    ofContent start' (margin ++ content) feed =
      let line := ofContent start content feed
      ⟨start', margin ++ line.margin, line.body, line.ending⟩ := by
  have hr : (margin ++ content).getLast? = some '\r' ↔ content.getLast? = some '\r' := by
    cases content with
    | nil =>
      have hn : margin.getLast? ≠ some '\r' := by
        intro hl
        exact absurd (hm _ (List.mem_of_getLast? hl)) (by decide)
      simpa using hn
    | cons c cs => rw [List.getLast?_append_of_ne_nil _ (List.cons_ne_nil c cs)]
  have htake (text : List Char) : (margin ++ text).takeWhile Text.isIndent =
      margin ++ text.takeWhile Text.isIndent := List.takeWhile_append_of_pos hm
  have hdrop (text : List Char) : (margin ++ text).dropWhile Text.isIndent =
      text.dropWhile Text.isIndent := List.dropWhile_append_of_pos hm
  unfold ofContent
  by_cases hl : content.getLast? = some '\r'
  · have hne : content ≠ [] := by
      rintro rfl
      cases hl
    rw [if_pos hl, if_pos (hr.2 hl), List.dropLast_append_of_ne_nil hne]
    dsimp only
    rw [htake, hdrop]
  · rw [if_neg hl, if_neg (mt hr.1 hl)]
    dsimp only
    rw [htake, hdrop]

theorem ofContent_behind (hm : ∀ c ∈ margin, Text.isIndent c = true) {start start' : Nat}
    {content feed : List Char} (h : start + Text.bytes (content ++ feed) ≤ Text.bytes source)
    (h' : start' + Text.bytes (margin ++ content ++ feed) ≤ Text.bytes source') :
    (ofContent start content feed).Alike (.behind margin source source')
      (ofContent start' (margin ++ content) feed) := by
  have hstart : (ofContent start content feed).start = start := start_ofContent _ _ _
  rw [← next_ofContent] at h h'
  rw [ofContent_margin hm start start'] at h' ⊢
  generalize ofContent start content feed = line at h h' hstart ⊢
  simp only [next, stop, bodyStart, Text.bytes_append] at h h'
  constructor
  · rfl
  · rfl
  · exact ⟨by omega, by dsimp only; omega⟩
  · intro n hn
    exact ⟨by omega, by dsimp only [Likeness.behind, Likeness.ofOffsets]; omega⟩
  · simp only [next, stop, bodyStart, Text.bytes_append]
    exact ⟨by omega, by omega⟩
  · exact fun _ _ => rfl
  · exact fun _ _ _ _ => trivial

theorem splitFrom_margin (hm : ∀ c ∈ margin, Text.isIndent c = true) (start : Nat)
    (content rest : List Char) :
    splitFrom start content (margin ++ rest) =
      splitFrom start (margin.reverse ++ content) rest := by
  induction margin generalizing content with
  | nil => rfl
  | cons c cs ih =>
    have hc : c ≠ '\n' := by
      rintro rfl
      exact absurd (hm '\n' List.mem_cons_self) (by decide)
    rw [List.cons_append, splitFrom_char hc, ih fun c h => hm c (List.mem_cons_of_mem _ h),
      List.reverse_cons, List.append_assoc, List.singleton_append]

/-- Both splits are within a line, or before one. -/
theorem splitFrom_behindFrom (hm : ∀ c ∈ margin, Text.isIndent c = true) {start start' : Nat}
    {content rest : List Char} (hne : content ++ rest ≠ [])
    (h : start + Text.bytes (content.reverse ++ rest) ≤ Text.bytes source)
    (h' : start' + Text.bytes (margin ++ (content.reverse ++ Text.behindFrom margin false rest)) ≤
      Text.bytes source') :
    AllAlike (.behind margin source source') (splitFrom start content rest)
      (splitFrom start' (content ++ margin.reverse) (Text.behindFrom margin false rest)) := by
  induction rest generalizing start start' content with
  | nil =>
    rw [List.append_nil] at hne
    have hc : content.isEmpty = false := List.isEmpty_eq_false_iff.2 hne
    have hc' : (content ++ margin.reverse).isEmpty = false :=
      List.isEmpty_eq_false_iff.2 (List.append_ne_nil_of_left_ne_nil hne _)
    rw [Text.behindFrom, splitFrom, splitFrom, hc, hc', List.reverse_append, List.reverse_reverse]
    rw [Text.behindFrom, ← List.append_assoc] at h'
    exact .cons (ofContent_behind hm h h') .nil
  | cons c rest ih =>
    by_cases hc : c = '\n'
    · subst hc
      rw [Text.behindFrom_feed] at h'
      rw [Text.behindFrom_feed, splitFrom_feed, splitFrom_feed, List.reverse_append,
        List.reverse_reverse]
      simp only [Text.bytes_append, Text.bytes_cons] at h h'
      constructor
      · apply ofContent_behind hm
        · simp only [Text.bytes_append, Text.bytes_cons, Text.bytes_nil]
          omega
        · simp only [Text.bytes_append, Text.bytes_cons, Text.bytes_nil]
          omega
      · cases rest with
        | nil => exact .nil
        | cons c rest =>
          rw [Text.behind_cons] at h' ⊢
          rw [splitFrom_margin hm, List.append_nil]
          apply @ih _ _ [] (List.cons_ne_nil c rest)
          · simp only [Text.bytes_append, Text.bytes_cons, Text.bytes_nil, List.reverse_nil,
              List.nil_append] at h ⊢
            omega
          · simp only [Text.bytes_append, Text.bytes_cons, Text.bytes_nil, List.reverse_nil,
              List.nil_append] at h' ⊢
            omega
    · rw [Text.behindFrom_char hc] at h' ⊢
      rw [splitFrom_char hc, splitFrom_char hc]
      apply ih (List.cons_ne_nil _ _)
      · rw [List.reverse_cons, List.append_assoc]
        exact h
      · rw [List.reverse_cons, List.append_assoc]
        exact h'

theorem split_behind (hm : ∀ c ∈ margin, Text.isIndent c = true) (source : List Char) :
    AllAlike (.behind margin source (Text.behind margin source)) (split source)
      (split (Text.behind margin source)) := by
  cases source with
  | nil => exact .nil
  | cons c cs =>
    have hle : 0 + Text.bytes (margin ++ Text.behindFrom margin false (c :: cs)) ≤
        Text.bytes (Text.behind margin (c :: cs)) := Nat.le_of_eq (Nat.zero_add _)
    have hall := @splitFrom_behindFrom margin (c :: cs) (Text.behind margin (c :: cs)) hm 0 0 []
      (c :: cs) (List.cons_ne_nil c cs) (Nat.le_of_eq (Nat.zero_add _)) hle
    rw [split, split, Text.behind_cons, splitFrom_margin hm, List.append_nil]
    exact hall

end Line

theorem Text.bytes_le_behindFrom (margin : List Char) (atStart : Bool) (source : List Char) :
    bytes source ≤ bytes (behindFrom margin atStart source) := by
  induction source generalizing atStart with
  | nil => exact Nat.le_refl _
  | cons c cs ih =>
    have hcs := ih (c == '\n')
    rw [behindFrom, bytes_append, bytes_cons, bytes_cons]
    omega

/-- A text is read like the same text behind a margin. -/
theorem parse_behind {margin : List Char} (hm : ∀ c ∈ margin, Text.isIndent c = true)
    (source : List Char) :
    (parse source).Alike (.behind margin source (Text.behind margin source))
      (parse (Text.behind margin source)) :=
  parse_alike (Line.split_behind hm source) ⟨Nat.zero_le _, Nat.zero_le _⟩
    ⟨Nat.le_refl _, Nat.le_refl _⟩

theorem Mistake.messages_alike {L : Likeness} {mistakes mistakes' : List Mistake}
    (h : List.Forall₂ (Mistake.Alike L) mistakes mistakes') :
    mistakes'.map Mistake.message = mistakes.map Mistake.message := by
  induction h with
  | nil => rfl
  | cons hm _ ih => rw [List.map_cons, List.map_cons, ih, message, message, hm.complaint]

namespace Run

theorem Ends.same {L : Likeness} {η κ α : Type} {ended ended' : Except Failure α × World η κ}
    (h : Ends L Eq ended ended') :
    ended'.2 = ended.2 ∧ ended'.1.mapError Failure.cause = ended.1.mapError Failure.cause := by
  cases h with
  | ok ha =>
    subst ha
    exact ⟨rfl, rfl⟩
  | error hf => exact ⟨rfl, congrArg Except.error hf.cause⟩

/-- A script with `k` more spaces before each line is read as the same s-expression, with the same
messages. If its offsets fit spans, its runs come to the same state, which includes the variables,
the declared metadata, what the host has been asked for and the log lines, in their order, and they
end well or fail for the same cause. -/
theorem indentation_immaterial (k : Nat) (source : List Char) :
    (parse (Text.indented k source)).tree.sexp = (parse source).tree.sexp ∧
      (parse (Text.indented k source)).mistakes.map Mistake.message =
        (parse source).mistakes.map Mistake.message ∧
      (Text.bytes (Text.indented k source) < 2 ^ 32 →
        ∀ {η κ : Type} [Cursor κ] [Host η κ] (settings : Settings) (world : World η κ),
          let ended := script settings (parse source).tree world
          let ended' := script settings (parse (Text.indented k source)).tree world
          ended'.2 = ended.2 ∧
            ended'.1.mapError Failure.cause = ended.1.mapError Failure.cause) := by
  have hm : ∀ c ∈ List.replicate k ' ', Text.isIndent c = true := by
    intro c hc
    obtain ⟨_, rfl⟩ := List.mem_replicate.1 hc
    rfl
  obtain ⟨htree, hmistakes⟩ := parse_behind hm source
  refine ⟨htree.sexp, Mistake.messages_alike hmistakes, fun hsize η κ _ _ settings world => ?_⟩
  have hbehind : Text.bytes (Text.behind (List.replicate k ' ') source) ≤ Span.maxOffset :=
    Nat.le_of_lt_succ hsize
  have hsource := Nat.le_trans (Text.bytes_le_behindFrom _ true source) hbehind
  have hu : (Likeness.behind (List.replicate k ' ') source _).Unifies :=
    Likeness.behind_unifies hsource hbehind
  exact (Concur.script settings htree world).same

/-- A verbatim block with an empty line, and a statement that fails. -/
def gappedLog : List Char := "Log:\n  a\n\n  b\nLog c\n".toList

theorem indentation_immaterial_gapped_log :
    let ended := script ⟨.empty, "/work"⟩ (parse (Text.indented 3 gappedLog)).tree
      ({ host := {} } : World Rehearsal (FaultyCursor TableCursor))
    ended.2.trace = #[.log "a\n\nb"] ∧
      ended.1.mapError Failure.cause = .error (.undefinedVariable "c") := by
  obtain ⟨-, -, hruns⟩ := indentation_immaterial 3 gappedLog
  obtain ⟨hworld, hcause⟩ := hruns (by decide) ⟨.empty, "/work"⟩
    ({ host := {} } : World Rehearsal (FaultyCursor TableCursor))
  intro ended
  constructor
  · rw [show ended.2 = _ from hworld]
    cbv
  · rw [show ended.1.mapError Failure.cause = _ from hcause]
    cbv

theorem indented_letters_lost {count : Nat} (h : count + 7 = Span.maxOffset)
    {η κ : Type} [Cursor κ] [Host η κ] (settings : Settings) (world : World η κ) :
    (parse (logLetters count)).mistakes = [] ∧
      (script settings (parse (Text.indented 2 (logLetters count))).tree world).2.trace ≠
        (script settings (parse (logLetters count)).tree world).2.trace := by
  have hreads : ReadsAs (logLetters count) (lettersTree count) :=
    @reads_logLetters _ [] [] [] 0 _ (fun _ => rfl) (List.forall_mem_nil _)
      (List.forall_mem_nil _) rfl
  have hs : Text.indented 2 (logLetters count) = [' ', ' '] ++ logLetters count :=
    Text.behind_of_no_feed (List.cons_ne_nil _ _) (oneLine_logLetters count).feed
  have hmargin : ∀ c ∈ [' ', ' '], Text.isIndent c = true :=
    List.forall_mem_cons.2 ⟨rfl, List.forall_mem_singleton.2 rfl⟩
  have hindented : ReadsAs (Text.indented 2 (logLetters count)) (lettersTree count) :=
    @reads_logLetters _ [] [' ', ' '] [] 0 _ (fun _ => rfl) (List.forall_mem_nil _) hmargin hs
  have hsize : Text.bytes (logLetters count) ≤ Span.maxOffset :=
    Nat.le_of_eq ((bytes_logLetters count).trans h)
  have hmargin : Text.bytes [' ', ' '] = 2 := by decide
  refine ⟨hreads.fades.1, ?_⟩
  rw [logs_nothing hindented (outOfReach_logLetters hs (by decide) (by omega)),
    logs_letters hreads hsize]
  exact lost_ne_logged world _

/-- If the margin moves the text of a string out of reach of spans, the empty line is logged. -/
theorem indentation_loses_text :
    let source := logLetters (Span.maxOffset - 7)
    let world : World Rehearsal (FaultyCursor TableCursor) := { host := {} }
    (parse source).mistakes = [] ∧
      (script ⟨.empty, "/work"⟩ (parse (Text.indented 2 source)).tree world).2.trace ≠
        (script ⟨.empty, "/work"⟩ (parse source).tree world).2.trace :=
  indented_letters_lost (Nat.sub_add_cancel (by decide)) _ _

end Run

end ArchiveScript
