import Mathlib
import ArchiveScript.Proofs.Script.Statements

/-! # Traced items

The reader of an item only passes on what the blocks inside the item note. So if blocks that note a
mark at some of their lines take the place of blocks that do the same without it, the item is read
as before, and the marks are noted in the order of the lines.
-/

namespace ArchiveScript

/-- What tells a traced reading from the plain one. -/
structure Trace where
  /-- What is noted at a line. -/
  mark : Line → Mistake
  isMark : Mistake → Bool
  /-- The mistakes that both readings note. -/
  isKept : Mistake → Bool
  isMark_field : ∀ field span, isMark ⟨.repeatedField field, span⟩ = false

variable {α β : Type} {trace : Trace} {line : Line} {lines taken before : List Line}
  {noted noted' : List Mistake}

def Trace.Covers (trace : Trace) (taken : List Line) (noted : List Mistake) : Prop :=
  (noted.filter trace.isMark).Sublist (taken.map trace.mark)

theorem Trace.Covers.append (h : trace.Covers before noted) (h' : trace.Covers taken noted') :
    trace.Covers (before ++ taken) (noted ++ noted') := by
  rw [Covers, List.filter_append, List.map_append]
  exact List.Sublist.append h h'

theorem Trace.Covers.sublist (h : trace.Covers taken noted) (hs : taken.Sublist lines) :
    trace.Covers lines noted :=
  List.Sublist.trans h (hs.map _)

theorem Trace.Covers.behind (before : List Line) (h : trace.Covers taken noted) :
    trace.Covers (before ++ taken) noted :=
  h.sublist (List.sublist_append_right before taken)

theorem Trace.covers_of_filter (taken : List Line) (h : noted.filter trace.isMark = []) :
    trace.Covers taken noted := by
  rw [Covers, h]
  exact List.nil_sublist _

theorem Trace.covers_nil (trace : Trace) (taken : List Line) : trace.Covers taken [] :=
  covers_of_filter taken rfl

theorem Trace.filter_fields (trace : Trace) (children : List Child) :
    (repeatedFields Node.span [] children).filter trace.isMark = [] := by
  rw [List.filter_eq_nil_iff]
  intro mistake hm
  obtain ⟨field, node, _, rfl⟩ := exists_of_repeatedFields hm
  simp [trace.isMark_field]

theorem Trace.covers_fields (trace : Trace) (children : List Child) :
    trace.Covers [] (repeatedFields Node.span [] children) :=
  covers_of_filter [] (trace.filter_fields children)

/-- The traced passage is the plain one but for its marks. Its marks are those of lines that it
takes, where `P` holds of what it takes. A passage that fails has marks of the first lines, of which
`F` holds, or none. -/
structure Passage.Traces (trace : Trace) (lines : List Line) (F P : List Line → Prop)
    (plain traced : Passage α) : Prop where
  outcome : traced.outcome = plain.outcome
  left : traced.left = plain.left
  kept : traced.noted.filter trace.isKept = plain.noted.filter trace.isKept
  read : Finds (fun _ => ∃ taken, lines = taken ++ plain.left ∧ P taken ∧
    trace.Covers taken traced.noted) plain.outcome
  failed : ∀ mistake, plain.outcome = .error mistake → traced.noted.filter trace.isMark = [] ∨
    ∃ taken, taken <+: lines ∧ F taken ∧ trace.Covers taken traced.noted

namespace Reader

theorem run_bind_return (reader : Reader α) (g : α → β) (lines : List Line) :
    (do return g (← reader) : Reader β) lines =
      ⟨(reader lines).outcome.map g, (reader lines).noted, (reader lines).left⟩ := by
  rw [run_bind]
  cases ho : (reader lines).outcome with
  | error mistake => rfl
  | ok a =>
    change Passage.mk (.ok (g a)) ((reader lines).noted ++ []) (reader lines).left = _
    rw [List.append_nil]
    rfl

abbrev Traces (trace : Trace) (lines : List Line) (F P : List Line → Prop)
    (plain traced : Reader α) : Prop :=
  (plain lines).Traces trace lines F P (traced lines)

namespace Traces

variable {F P Q : List Line → Prop} {reader reader' : Reader α} {f f' : α → Reader β}

theorem onLine {outcome : Except Mistake α} (h : P []) :
    Traces trace lines F P (LineReader.onLine outcome) (LineReader.onLine outcome) where
  outcome := rfl
  left := rfl
  kept := rfl
  read := fun _ _ => ⟨[], rfl, h, trace.covers_nil []⟩
  failed := fun _ _ => .inl rfl

theorem pure {a : α} (h : P []) : Traces trace lines F P (pure a) (pure a) := onLine h

theorem fail {complaint : Complaint} {span : Span} :
    Traces trace lines F P (Builder.fail complaint span : Reader α)
      (Builder.fail complaint span) where
  outcome := rfl
  left := rfl
  kept := rfl
  read := .error _
  failed := fun _ _ => .inl rfl

theorem mono {F' P' : List Line → Prop} (h : Traces trace lines F P reader reader')
    (hF : ∀ taken, F taken → F' taken) (hP : ∀ taken, P taken → P' taken) :
    Traces trace lines F' P' reader reader' where
  outcome := h.outcome
  left := h.left
  kept := h.kept
  read := h.read.mono fun _ ⟨taken, hl, hp, hc⟩ => ⟨taken, hl, hP taken hp, hc⟩
  failed := fun mistake hm => (h.failed mistake hm).imp_right
    fun ⟨taken, ht, hf, hc⟩ => ⟨taken, ht, hF taken hf, hc⟩

theorem bind (h : Traces trace lines F P reader reader')
    (hf : ∀ a taken left, lines = taken ++ left → P taken →
      Traces trace left (fun more => F (taken ++ more)) (fun more => Q (taken ++ more))
        (f a) (f' a))
    (hF : ∀ taken, P taken → F taken) :
    Traces trace lines F Q (reader >>= f) (reader' >>= f') := by
  unfold Traces
  rw [run_bind, run_bind, h.outcome, h.left]
  cases ho : (reader lines).outcome with
  | error mistake =>
    exact ⟨rfl, rfl, h.kept, .error _, fun _ _ => h.failed mistake ho⟩
  | ok a =>
    obtain ⟨taken, hl, hp, hc⟩ := h.read a ho
    have ha := hf a taken _ hl hp
    constructor
    · exact ha.outcome
    · exact ha.left
    · dsimp only
      rw [List.filter_append, List.filter_append, h.kept, ha.kept]
    · intro b hb
      obtain ⟨more, hm, hq, hc'⟩ := ha.read b hb
      refine ⟨taken ++ more, ?_, hq, hc.append hc'⟩
      rw [List.append_assoc]
      exact hl.trans (congrArg (taken ++ ·) hm)
    · intro mistake hm
      right
      rcases ha.failed mistake hm with hn | ⟨more, hmore, hF', hc'⟩
      · refine ⟨taken, ⟨_, hl.symm⟩, hF taken hp, ?_⟩
        have hall := hc.append (trace.covers_of_filter [] hn)
        rwa [List.append_nil] at hall
      · refine ⟨taken ++ more, ?_, hF', hc.append hc'⟩
        conv_rhs => rw [hl]
        exact (List.prefix_append_right_inj taken).2 hmore

theorem onLine_seq {outcome : Except Mistake α}
    (hf : ∀ a, Traces trace lines F Q (f a) (f' a)) :
    Traces trace lines F Q (LineReader.onLine outcome >>= f)
      (LineReader.onLine outcome >>= f') := by
  cases outcome with
  | error mistake => exact ⟨rfl, rfl, rfl, .error _, fun _ _ => .inl rfl⟩
  | ok a => exact hf a

theorem spans_bind {f f' : (Node → Span) → Reader β}
    (hf : Traces trace lines F Q (f Node.span) (f' Node.span)) :
    Traces trace lines F Q (Builder.spans >>= f) (Builder.spans >>= f') :=
  hf

theorem map {g : α → β} (h : Traces trace lines F P reader reader') :
    Traces trace lines F P (do return g (← reader)) (do return g (← reader')) := by
  unfold Traces
  rw [run_bind_return, run_bind_return]
  constructor
  · exact congrArg (Except.map g) h.outcome
  · exact h.left
  · exact h.kept
  · exact h.read.map fun _ => id
  · intro mistake hm
    dsimp only at hm
    cases ho : (reader lines).outcome with
    | error own => exact h.failed own ho
    | ok a =>
      rw [ho] at hm
      cases hm

theorem note_bind {children : List Child} {f f' : Unit → Reader β}
    (hf : Traces trace lines F Q (f ()) (f' ())) :
    Traces trace lines F Q (LineReader.note (repeatedFields Node.span [] children) >>= f)
      (LineReader.note (repeatedFields Node.span [] children) >>= f') := by
  have hfields (noted : List Mistake) :
      (repeatedFields Node.span [] children ++ noted).filter trace.isMark =
        noted.filter trace.isMark := by
    rw [List.filter_append, trace.filter_fields, List.nil_append]
  constructor
  · exact hf.outcome
  · exact hf.left
  · change (repeatedFields Node.span [] children ++ (f' () lines).noted).filter trace.isKept =
      (repeatedFields Node.span [] children ++ (f () lines).noted).filter trace.isKept
    rw [List.filter_append, List.filter_append, hf.kept]
  · intro b hb
    obtain ⟨taken, hl, hq, hc⟩ := hf.read b hb
    exact ⟨taken, hl, hq, (trace.covers_fields children).append hc⟩
  · intro mistake hm
    refine (hf.failed mistake hm).imp (fun hn => (hfields _).trans hn) ?_
    rintro ⟨taken, hl, hF, hc⟩
    exact ⟨taken, hl, hF, (trace.covers_fields children).append hc⟩

theorem peek_bind {f f' : List Line → Reader β}
    (hf : Traces trace lines F Q (f lines) (f' lines)) :
    Traces trace lines F Q (LineReader.peek >>= f) (LineReader.peek >>= f') :=
  hf

theorem goto_bind {left : List Line} {f f' : Unit → Reader β} (hl : lines = taken ++ left)
    (hf : Traces trace left (fun more => F (taken ++ more)) (fun more => Q (taken ++ more))
      (f ()) (f' ())) :
    Traces trace lines F Q (LineReader.goto left >>= f) (LineReader.goto left >>= f') where
  outcome := hf.outcome
  left := hf.left
  kept := hf.kept
  read := by
    refine hf.read.mono fun b ⟨more, hm, hq, hc⟩ => ⟨taken ++ more, ?_, hq, hc.behind taken⟩
    rw [List.append_assoc, hl]
    exact congrArg (taken ++ ·) hm
  failed mistake hm := by
    refine (hf.failed mistake hm).imp_right ?_
    rintro ⟨more, hmore, hF, hc⟩
    refine ⟨taken ++ more, ?_, hF, hc.behind taken⟩
    rw [hl]
    exact (List.prefix_append_right_inj taken).2 hmore

theorem skipIdle_bind {f g : Unit → Reader β}
    (hf : ∀ idle, lines = idle ++ lines.dropWhile Line.isIdle →
      (∀ line ∈ idle, line.isIdle = true) →
      Traces trace (lines.dropWhile Line.isIdle) (fun more => F (idle ++ more))
        (fun more => Q (idle ++ more)) (f ()) (g ())) :
    Traces trace lines F Q (skipIdle >>= f) (skipIdle >>= g) :=
  have hl := (List.takeWhile_append_dropWhile (p := Line.isIdle) (l := lines)).symm
  goto_bind hl (hf _ hl fun _ hm => List.mem_takeWhile_imp hm)

theorem hasBlock_bind {header : Line} {f g : Bool → Reader β}
    (hf : ∀ has idle, lines = idle ++ lines.dropWhile Line.isIdle →
      (∀ line ∈ idle, line.isIdle = true) →
      Traces trace (lines.dropWhile Line.isIdle) (fun more => F (idle ++ more))
        (fun more => Q (idle ++ more)) (f has) (g has)) :
    Traces trace lines F Q (hasBlock header >>= f) (hasBlock header >>= g) :=
  skipIdle_bind (f := fun _ => f _) (g := fun _ => g _) fun idle hl hi => hf _ idle hl hi

end Traces

end Reader

open Reader

variable {header : Line} {below : List Line} {block block' : BlockReader Reader Node}

/-- The marks of an item are those of lines that it takes. If it fails, they are in its block. -/
abbrev TracesItem (trace : Trace) (header : Line) (lines : List Line) (plain traced : Reader α) :
    Prop :=
  Traces trace lines (fun taken => ∀ other ∈ taken, other.Below header.indent) header.Owns
    plain traced

abbrev TracesValue (trace : Trace) (header : Line) (lines : List Line) (plain traced : Reader α) :
    Prop :=
  Traces trace lines (fun taken => ∀ other ∈ taken, other.Below header.indent)
    (fun taken => ∀ other ∈ taken, other.Below header.indent) plain traced

/-- The marks of blocks at the lines of an item are those of lines in these blocks. A block never
fails. -/
abbrev TracesBlocks (trace : Trace) (below : List Line) (block block' : BlockReader Reader Node) :
    Prop :=
  ∀ indent kind lines, lines <:+ below →
    Traces trace lines (fun _ => False) (fun taken => ∀ other ∈ taken, other.Below indent)
      (block (some indent) kind) (block' (some indent) kind)

theorem TracesItem.of_value {reader reader' : Reader α}
    (h : TracesValue trace header lines reader reader') :
    TracesItem trace header lines reader reader' :=
  h.mono (fun _ => id) fun _ => Line.Owns.of_below

/-- Without blocks, there are no marks. -/
theorem AccountsItem.traces {F P : List Line → Prop} {P' : Trail → α → Prop} {kind : BlockKind}
    {reader : Reader α} (h : AccountsItem kind header below lines P' reader)
    (hk : ∀ inner, kind.holds inner = false) (hP : ∀ trail a, P' trail a → P trail.taken) :
    Traces trace lines F P reader reader := by
  have hnone : (reader lines).noted.filter trace.isMark = [] := by
    rw [List.filter_eq_nil_iff]
    intro mistake hm
    have hr : Repeats header below mistake := by
      rcases h.noted mistake hm with ⟨_, _, ho, -⟩ | ⟨hr, -⟩
      · cases ho <;> simp_all
      · cases hr <;> assumption
    obtain ⟨_, _, _, _, _, _, hfields⟩ := hr
    obtain ⟨_, _, _, rfl⟩ := exists_of_repeatedFields hfields
    simp [trace.isMark_field]
  constructor
  · rfl
  · rfl
  · rfl
  · intro a ha
    obtain ⟨taken, hl, hp⟩ := h.read ha
    exact ⟨taken, hl, hP _ a hp, Trace.covers_of_filter taken hnone⟩
  · exact fun _ _ => .inl hnone

theorem TracesBlocks.onItem (hb : TracesBlocks trace below block block') {F : List Line → Prop}
    {idle : List Line} (hi : ∀ line ∈ idle, line.isIdle = true) (hl : lines <:+ below)
    (kind : BlockKind) :
    Traces trace (lines.dropWhile Line.isIdle) F
      (fun more => ∀ other ∈ idle ++ more, other.Below header.indent)
      (block (some header.indent) kind) (block' (some header.indent) kind) := by
  apply (hb header.indent kind _ ((List.dropWhile_suffix _).trans hl)).mono
  · exact fun _ => False.elim
  · intro more hm
    exact List.forall_mem_append.2 ⟨fun other ho => .inl (hi other ho), hm⟩

theorem Verbatim.block_traces (header : Line) (lines : List Line) :
    TracesValue trace header lines (Verbatim.block header) (Verbatim.block header) :=
  (block_accounts .parameters header lines).traces (fun _ => rfl) fun _ _ h => h.deeper

namespace Declaration

open Expression Scan

theorem fieldValue_traces (header : Line) (lines : List Line) (s : Scan) :
    TracesValue trace header lines (fieldValue header s) (fieldValue header s) := by
  unfold fieldValue
  dsimp only
  split
  · exact Verbatim.block_traces header lines
  · exact .onLine nofun

variable (hb : TracesBlocks trace below block block')

include hb

theorem parameters_traces :
    TracesValue trace header below (parameters block header) (parameters block' header) := by
  apply Traces.hasBlock_bind
  intro has idle _ hidle
  split
  · exact (hb.onItem hidle (List.suffix_refl _) .parameters).map
  · exact .fail

theorem declaration_traces (kind : Kind) (s : Scan) :
    TracesItem trace header below (declaration block header kind s)
      (declaration block' header kind s) := by
  apply TracesItem.of_value
  refine .onLine_seq fun ⟨name, s'⟩ => .onLine_seq fun ⟨description, last⟩ => ?_
  dsimp only
  split
  · refine .onLine_seq fun _ => .hasBlock_bind fun has idle _ hidle => ?_
    split
    · refine (hb.onItem hidle (List.suffix_refl _) (.declaration kind)).bind ?_ fun _ => id
      intro items taken left _ ht
      exact .spans_bind (.note_bind (.onLine (by rwa [List.append_nil])))
    · refine (Traces.pure (P := (· = [])) rfl).bind ?_ ?_
      · rintro items _ left _ rfl
        refine .spans_bind (.note_bind (.onLine ?_))
        simpa using fun other ho => .inl (hidle other ho)
      · rintro _ rfl
        simpa using fun other ho => .inl (hidle other ho)
  · refine .onLine_seq fun _ => (Traces.pure (P := (· = [])) rfl).bind ?_ ?_
    · rintro items _ left _ rfl
      exact .spans_bind (.note_bind (.onLine nofun))
    · rintro _ rfl
      exact nofun

theorem declarationItem_traces (owner : Kind) :
    TracesItem trace header below (declarationItem block header owner)
      (declarationItem block' header owner) := by
  unfold declarationItem
  dsimp only
  split
  · split
    · exact .of_value (fieldValue_traces header below _).map
    · exact .fail
  · split
    · exact (declaration_traces hb _ _).map
    · exact .fail

theorem command_traces (s : Scan) :
    TracesItem trace header below (command block header s) (command block' header s) := by
  apply TracesItem.of_value
  refine .onLine_seq fun title => .hasBlock_bind fun has idle _ hidle => ?_
  split
  · refine (hb.onItem hidle (List.suffix_refl _) .command).bind ?_ fun _ => id
    intro items taken left _ ht
    apply Traces.spans_bind
    apply Traces.note_bind
    split
    · exact .fail
    · split
      · exact .fail
      · exact .onLine (by rwa [List.append_nil])
  · exact .fail

theorem commandItem_traces :
    TracesItem trace header below (commandItem block header) (commandItem block' header) := by
  apply TracesItem.of_value
  unfold commandItem
  dsimp only
  split
  · split
    · exact (fieldValue_traces header below _).map
    · exact .fail
  · split
    · exact .onLine_seq fun _ => (parameters_traces hb).map
    · split
      · exact .onLine_seq fun _ => (Verbatim.block_traces header below).map
      · exact .fail

theorem metadataItem_traces :
    TracesItem trace header below (metadataItem block header) (metadataItem block' header) := by
  unfold metadataItem
  dsimp only
  split
  · exact (declaration_traces hb _ _).map
  · split
    · exact (command_traces hb _).map
    · split
      · exact .of_value (fieldValue_traces header below _).map
      · exact .fail

theorem metadata_traces (connection : Node) :
    TracesItem trace header below (metadata block header connection)
      (metadata block' header connection) := by
  apply TracesItem.of_value
  refine .hasBlock_bind fun has idle _ hidle => ?_
  split
  · refine (hb.onItem hidle (List.suffix_refl _) .metadata).bind ?_ fun _ => id
    intro items taken left _ ht
    exact .spans_bind (.note_bind (.onLine (by rwa [List.append_nil])))
  · exact .fail

end Declaration

namespace Statement

open Expression Scan

theorem query_traces (header : Line) (lines : List Line) (start : Nat) (s : Scan) :
    TracesValue trace header lines (query header start s) (query header start s) := by
  refine .onLine_seq fun ⟨connection, last⟩ => ?_
  dsimp only
  split
  · exact .fail
  · exact .onLine_seq fun _ => (Verbatim.block_traces header lines).map

theorem scriptResult_traces (header : Line) (lines : List Line) (start : Nat) (s : Scan) :
    TracesValue trace header lines (scriptResult header start s) (scriptResult header start s) :=
  .onLine_seq fun _ => .onLine_seq fun _ => (Verbatim.block_traces header lines).map

variable (hb : TracesBlocks trace below block block')

include hb

/-- The statements below a line, which have no marks if there are none. -/
theorem statements_trace {F : List Line → Prop} (line : Line) (hl : lines <:+ below) :
    Traces trace lines F (fun taken => ∀ other ∈ taken, other.Below line.indent)
      (statements block line) (statements block' line) := by
  apply Traces.hasBlock_bind
  intro has idle _ hidle
  split
  · exact (hb.onItem hidle hl .statements).map
  · exact .fail

theorem connection_traces (start : Nat) (s : Scan) :
    TracesValue trace header below (connection block header start s)
      (connection block' header start s) := by
  refine .onLine_seq fun ⟨url, rest⟩ => ?_
  dsimp only
  split
  · refine .onLine_seq fun _ => .hasBlock_bind fun has idle _ hidle => ?_
    split
    · exact (hb.onItem hidle (List.suffix_refl _) .properties).map
    · exact .fail
  · exact .onLine_seq fun _ => .pure nofun

theorem expression_traces (s : Scan) :
    TracesValue trace header below (expression block header s) (expression block' header s) := by
  unfold expression
  dsimp only
  split
  · exact connection_traces hb _ _
  · split
    · exact query_traces header below _ _
    · split
      · exact scriptResult_traces header below _ _
      · exact .onLine nofun

theorem set_traces (s : Scan) :
    TracesValue trace header below (set block header s) (set block' header s) := by
  refine .onLine_seq fun ⟨name, rest⟩ => ?_
  dsimp only
  split
  · exact (expression_traces hb _).map
  · exact .onLine_seq fun _ => (Verbatim.block_traces header below).map
  · exact .fail

theorem forLoop_traces (s : Scan) :
    TracesValue trace header below (forLoop block header s) (forLoop block' header s) := by
  refine .onLine_seq fun _ => .onLine_seq fun _ => .spans_bind (.onLine_seq fun _ => ?_)
  refine .onLine_seq fun _ => .onLine_seq fun _ => .onLine_seq fun _ => ?_
  exact (statements_trace hb header (List.suffix_refl _)).map

theorem otherwise_traces {F : List Line → Prop} (header : Line) (hl : lines <:+ below) :
    Traces trace lines F header.Owns (otherwise block header) (otherwise block' header) := by
  refine .skipIdle_bind fun idle _ hidle => .peek_bind ?_
  have howns : header.Owns idle := .of_idle hidle
  have hsuffix := (List.dropWhile_suffix (l := lines) Line.isIdle).trans hl
  generalize lines.dropWhile Line.isIdle = active at hsuffix ⊢
  have hnone : Traces trace active (fun more => F (idle ++ more))
      (fun more => header.Owns (idle ++ more)) (pure ([] : List Child)) (pure []) :=
    .pure (by rwa [List.append_nil])
  cases active with
  | nil => exact hnone
  | cons next after =>
    dsimp only
    split
    · rename_i hindent
      split
      · refine .goto_bind (List.singleton_append (x := next) (l := after)).symm ?_
        refine .onLine_seq fun _ => Traces.map ?_
        apply (statements_trace hb next ((List.suffix_cons next after).trans hsuffix)).mono
        · exact fun _ => id
        · intro more hm
          refine howns.append (List.forall_mem_append.2 ⟨?_, fun other ho => ?_⟩)
          · exact List.forall_mem_singleton.2 (.inr (Nat.le_of_eq hindent.symm))
          · exact (hm other ho).imp_right fun h => by omega
      · exact hnone
    · exact hnone

theorem conditional_traces (s : Scan) :
    TracesItem trace header below (conditional block header s) (conditional block' header s) := by
  refine .onLine_seq fun _ => .onLine_seq fun _ => ?_
  refine (statements_trace hb header (List.suffix_refl _)).bind ?_ fun _ => id
  intro consequent taken left hl ht
  apply Traces.map
  apply (otherwise_traces hb header (hl ▸ List.suffix_append taken left)).mono
  · exact fun _ => id
  · exact fun more hm => (Line.Owns.of_below ht).append hm

theorem siard_traces (s : Scan) :
    TracesItem trace header below (siard block header s) (siard block' header s) := by
  unfold siard
  dsimp only
  split
  · exact .onLine_seq fun _ => .onLine_seq fun _ => .onLine_seq fun _ =>
      Declaration.metadata_traces hb _
  · split
    · exact .onLine .nil
    · exact .fail

theorem parameters_traces (topLevel : Bool) (s : Scan) :
    TracesItem trace header below (parameters block header topLevel s)
      (parameters block' header topLevel s) := by
  unfold parameters
  split
  · exact .onLine_seq fun _ => TracesItem.of_value (Declaration.parameters_traces hb)
  · exact .fail

omit hb in
theorem execute_traces (header : Line) (lines : List Line) (s : Scan) :
    TracesItem trace header lines (execute header s) (execute header s) := by
  apply TracesItem.of_value
  unfold execute
  dsimp only
  split
  · exact .onLine_seq fun _ => .onLine_seq fun _ => (Verbatim.block_traces header lines).map
  · split
    · exact .onLine_seq fun _ => .onLine_seq fun _ => .onLine_seq fun _ =>
        (Verbatim.block_traces header lines).map
    · exact .fail

omit hb in
theorem log_traces (header : Line) (lines : List Line) (s : Scan) :
    TracesItem trace header lines (log header s) (log header s) := by
  apply TracesItem.of_value
  unfold log
  split
  · exact .onLine_seq fun _ => (Verbatim.block_traces header lines).map
  · exact (Traces.onLine nofun).map

omit hb in
theorem firstWord_related {R : Reader Node → Reader Node → Prop}
    {words words' : List (String × (Scan → Reader Node))}
    (h : List.Forall₂ (fun word word' => word'.1 = word.1 ∧ ∀ rest, R (word.2 rest) (word'.2 rest))
      words words') (s : Scan) :
    (words.findSome? fun word => (s.eatWord? word.1.toList).map word.2) = none ∧
        (words'.findSome? fun word => (s.eatWord? word.1.toList).map word.2) = none ∨
      ∃ reading reading',
        (words.findSome? fun word => (s.eatWord? word.1.toList).map word.2) = some reading ∧
        (words'.findSome? fun word => (s.eatWord? word.1.toList).map word.2) = some reading' ∧
        R reading reading' := by
  induction h with
  | nil => exact .inl ⟨rfl, rfl⟩
  | @cons word word' _ _ hword _ ih =>
    obtain ⟨hword, hr⟩ := hword
    rw [List.findSome?_cons, List.findSome?_cons, hword]
    cases s.eatWord? word.1.toList with
    | none => exact ih
    | some rest => exact .inr ⟨_, _, rfl, rfl, hr rest⟩

theorem statement_traces (topLevel : Bool) :
    TracesItem trace header below (statement block header topLevel)
      (statement block' header topLevel) := by
  have hreaders : List.Forall₂ (fun (word word' : String × (Scan → Reader Node)) =>
      word'.1 = word.1 ∧ ∀ rest, TracesItem trace header below (word.2 rest) (word'.2 rest))
      (keywords block header topLevel) (keywords block' header topLevel) := by
    refine .cons ⟨rfl, parameters_traces hb topLevel⟩ (.cons ⟨rfl, fun _ => .onLine .nil⟩ ?_)
    refine .cons ⟨rfl, fun _ => .of_value (set_traces hb _)⟩ ?_
    refine .cons ⟨rfl, execute_traces header below⟩ ?_
    refine .cons ⟨rfl, fun _ => .of_value (forLoop_traces hb _)⟩ ?_
    refine .cons ⟨rfl, conditional_traces hb⟩ (.cons ⟨rfl, fun _ => .onLine .nil⟩ ?_)
    exact .cons ⟨rfl, log_traces header below⟩ (.cons ⟨rfl, siard_traces hb⟩ .nil)
  unfold statement
  dsimp only
  rcases firstWord_related hreaders header.scan with ⟨he, he'⟩ | ⟨reading, reading', he, he', hr⟩
  · rw [he, he']
    exact .fail
  · rw [he, he']
    exact hr

end Statement

theorem blockItem_traces (hb : TracesBlocks trace below block block') (kind : BlockKind)
    (header : Line) :
    TracesItem trace header below (blockItem block kind header)
      (blockItem block' kind header) := by
  have hparameter : TracesItem trace header below (Declaration.parameter header)
      (Declaration.parameter header) :=
    (Declaration.parameter_accounts .parameters header below).traces (fun _ => rfl)
      fun _ _ h => h.owns
  have hproperty : TracesItem trace header below (Statement.property header)
      (Statement.property header) :=
    (Statement.property_accounts .properties header below).traces (fun _ => rfl)
      fun _ _ h => h.owns
  cases kind with
  | topLevel => exact (Statement.statement_traces hb true).map
  | statements => exact (Statement.statement_traces hb false).map
  | parameters => exact hparameter.map
  | properties => exact hproperty.map
  | metadata => exact Declaration.metadataItem_traces hb
  | declaration owner => exact Declaration.declarationItem_traces hb owner
  | command => exact Declaration.commandItem_traces hb

theorem headItem_traces (hb : TracesBlocks trace below block block') (expected : Option Nat)
    (kind : BlockKind) (header : Line) :
    TracesItem trace header below (headItem block expected kind header)
      (headItem block' expected kind header) := by
  unfold headItem
  split
  · exact blockItem_traces hb kind header
  · exact .fail

end ArchiveScript
