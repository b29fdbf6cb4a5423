import Mathlib
import ArchiveScript.Proofs.Script.ExpressionLikeness
import ArchiveScript.Proofs.Script.LineSpans
import ArchiveScript.Proofs.Script.MistakeSpans
import ArchiveScript.Proofs.Script.Yields
import ArchiveScript.Proofs.Tree.LineUse

/-! # Phrases

What is read from the text of a line lies between the place where its reader began and the place
where it ended, and it uses no line of its own. What cannot be read is a mistake about a part of
the text that the reader has come to.
-/

namespace ArchiveScript

open Node (LieInOrder Silent)

namespace Scan

variable {s after last : Scan} {source : List Char}

/-- The span begins at one of the characters that are left, as long as their offsets fit spans. -/
def Begins (s : Scan) (span : Span) : Prop :=
  s.limit ≤ Span.maxOffset → s.pos ≤ span.start ∧ span.start ≤ s.limit

/-- The mistake is about a part of what is left, whatever the source is. -/
def Faults (s : Scan) (mistake : Mistake) : Prop :=
  ∀ source, Text.bytes source ≤ Span.maxOffset → s.Within source →
    s.pos ≤ mistake.span.start ∧ mistake.Cites source

/-- What was read lies between the scan before and the one after it, and it uses no line. -/
structure Phrases (s : Scan) (found : Node × Scan) : Prop where
  advances : s.Advances found.2
  silent : found.1.Silent
  lies : ∀ source, Text.bytes source ≤ Span.maxOffset → s.Within source →
    found.1.Lies source s.pos found.2.pos

structure PhrasesAll (s : Scan) (found : List Child × Scan) : Prop where
  advances : s.Advances found.2
  silent : ∀ child ∈ found.1, child.1 ≠ some .alternative ∧ child.2.Silent
  lies : ∀ source, Text.bytes source ≤ Span.maxOffset → s.Within source →
    LieInOrder source s.pos found.2.pos found.1

theorem pos_le_limit (s : Scan) : s.pos ≤ s.limit := Nat.le_add_right _ _

theorem Advances.pos_le_limit (h : s.Advances after) : after.pos ≤ s.limit :=
  h.limit_eq ▸ after.pos_le_limit

theorem Within.limit_le (h : s.Within source) : s.limit ≤ Text.bytes source := by
  obtain ⟨before, after, rfl, hb⟩ := h
  simp only [limit, Text.bytes_append, hb]
  omega

theorem exists_source (s : Scan) : ∃ source, s.Within source ∧ Text.bytes source = s.limit := by
  have hb (n : Nat) : Text.bytes (List.replicate n ' ') = n := by
    induction n with
    | zero => rfl
    | succ n ih =>
      rw [List.replicate_succ, Text.bytes_cons, ih]
      exact Nat.add_comm 1 n
  refine ⟨List.replicate s.pos ' ' ++ s.rest, ⟨_, [], (List.append_nil _).symm, hb s.pos⟩, ?_⟩
  rw [Text.bytes_append, hb, limit]

/-! ### Mistakes on a line -/

theorem Faults.behind {mistake : Mistake} (h : s.Advances after) (hf : after.Faults mistake) :
    s.Faults mistake := by
  intro source hs hw
  obtain ⟨hle, hc⟩ := hf source hs (h.within hw)
  exact ⟨Nat.le_trans h.pos_le hle, hc⟩

theorem Faults.begins {mistake : Mistake} (h : s.Faults mistake) : s.Begins mistake.span := by
  intro hlimit
  obtain ⟨source, hw, hb⟩ := s.exists_source
  obtain ⟨hle, hc⟩ := h source (hb ▸ hlimit) hw
  exact ⟨hle, hb ▸ Nat.le_trans hc.start_le_stop hc.stop_le⟩

theorem Faults.of_cites {complaint : Complaint} {stop : Nat} (hstop : stop ≤ s.limit)
    (h : ∀ source, Text.bytes source ≤ Span.maxOffset → s.Within source →
      Mistake.Cites source ⟨complaint, .between s.pos stop⟩) :
    s.Faults ⟨complaint, .between s.pos stop⟩ := by
  intro source hs hw
  have hlimit := Nat.le_trans hw.limit_le hs
  have hspan := Span.between_eq (Nat.le_trans s.pos_le_limit hlimit) (Nat.le_trans hstop hlimit)
  exact ⟨Nat.le_of_eq (congrArg Span.start hspan).symm, h source hs hw⟩

theorem Advances.faults {complaint : Complaint} (h : s.Advances after) :
    s.Faults ⟨complaint, .between s.pos after.pos⟩ :=
  .of_cites h.pos_le_limit fun _ hs hw => h.cites hs hw

/-- The mistake is about all that was left of a line when the reader was at an earlier place. -/
theorem Advances.faults_limit {complaint : Complaint} (h : s.Advances after) :
    s.Faults ⟨complaint, .between s.pos after.limit⟩ :=
  .of_cites (Nat.le_of_eq h.limit_eq) fun _ hs hw => h.cites_limit hs hw

theorem Advances.faults_point {complaint : Complaint} (h : s.Advances after) :
    s.Faults ⟨complaint, after.point⟩ :=
  .behind h (Advances.refl after).faults

theorem Advances.faults_rest {complaint : Complaint} (h : s.Advances after) :
    s.Faults ⟨complaint, after.restSpan⟩ :=
  .behind h (Advances.refl after).faults_limit

theorem faults_escape (hslash : s.rest.head? = some '\\') :
    s.Faults ⟨.unknownEscape, .between s.pos (min (s.pos + 2) s.limit)⟩ :=
  .of_cites (Nat.min_le_right _ _) fun _ hs hw => hw.cites_escape hs hslash

end Scan

theorem Brings.behind {s after : Scan} {α : Type} {P : α → Prop} {outcome : Except Mistake α}
    (h : s.Advances after) (ho : Brings after.Faults P outcome) : Brings s.Faults P outcome :=
  ho.mono (fun _ => .behind h) fun _ => id

/-! ### What is read on a line -/

namespace Scan

variable {s after last : Scan} {source : List Char}

theorem Reads.lies {text : List Char} (h : s.Reads text after)
    (hs : Text.bytes source ≤ Span.maxOffset) (hw : s.Within source) (kind : Kind) :
    (Node.leaf kind s.pos text).Lies source s.pos after.pos := by
  rw [h.pos]
  apply Node.lies_leaf hs kind hw.boundary
  rw [← h.pos]
  exact (h.within hw).boundary

theorem Reads.phrases {text : List Char} (h : s.Reads text after) {kind : Kind}
    (hk : kind.hasParts = true) : s.Phrases (.leaf kind s.pos text, after) :=
  ⟨h.advances, Node.silent_leaf hk _ _, fun _ hs hw => h.lies hs hw kind⟩

namespace Phrases

variable {node : Node}

theorem behind {found : Node × Scan} (h : s.Advances after) (hp : after.Phrases found) :
    s.Phrases found :=
  ⟨h.trans hp.advances, hp.silent, fun source hs hw =>
    (hp.lies source hs (h.within hw)).mono h.pos_le (Nat.le_refl _)⟩

theorem ahead (hp : s.Phrases (node, after)) (h : after.Advances last) :
    s.Phrases (node, last) :=
  ⟨hp.advances.trans h, hp.silent, fun source hs hw =>
    (hp.lies source hs hw).mono (Nat.le_refl _) h.pos_le⟩

theorem begins (h : s.Phrases (node, after)) : s.Begins node.span := by
  intro hlimit
  obtain ⟨source, hw, hb⟩ := s.exists_source
  have hl := h.lies source (hb ▸ hlimit) hw
  exact ⟨hl.lo_le, hb ▸ Nat.le_trans hl.span.start_le_stop hl.span.stop_le⟩

end Phrases

namespace PhrasesAll

variable {node : Node} {place : Option Field} {children : List Child}

theorem nil (h : s.Advances after) : s.PhrasesAll ([], after) :=
  ⟨h, nofun, fun _ _ _ => h.pos_le⟩

theorem cons (h : s.Phrases (node, after)) (hp : place ≠ some .alternative)
    (hr : after.PhrasesAll (children, last)) : s.PhrasesAll ((place, node) :: children, last) :=
  ⟨h.advances.trans hr.advances, List.forall_mem_cons.2 ⟨⟨hp, h.silent⟩, hr.silent⟩,
    fun source hs hw => .cons (h.lies source hs hw)
      (hr.lies source hs (h.advances.within hw))⟩

theorem single (h : s.Phrases (node, after)) (hp : place ≠ some .alternative) :
    s.PhrasesAll ([(place, node)], after) :=
  cons h hp (nil (.refl after))

theorem behind {found : List Child × Scan} (h : s.Advances after) (hp : after.PhrasesAll found) :
    s.PhrasesAll found :=
  ⟨h.trans hp.advances, hp.silent, fun source hs hw =>
    (hp.lies source hs (h.within hw)).mono h.pos_le (Nat.le_refl _)⟩

theorem begins (h : s.PhrasesAll (children, after)) {child : Child} (hm : child ∈ children) :
    s.Begins child.2.span := by
  intro hlimit
  obtain ⟨source, hw, hb⟩ := s.exists_source
  have hl := (h.lies source (hb ▸ hlimit) hw).mem child hm
  exact ⟨hl.lo_le, hb ▸ Nat.le_trans hl.span.start_le_stop hl.span.stop_le⟩

theorem around {kind : Kind} (h : s.PhrasesAll (children, after)) (hk : kind.hasParts = true) :
    s.Phrases (.spanning kind s.pos after.pos children, after) :=
  ⟨h.advances, Node.silent_spanning hk _ _ h.silent, fun source hs hw =>
    Node.lies_spanning hs kind hw.boundary (h.advances.within hw).boundary h.advances.pos_le
      (Nat.le_refl _) (h.lies source hs hw)⟩

theorem aroundFirst {kind : Kind} (h : s.PhrasesAll ((place, node) :: children, after))
    (hk : kind.hasParts = true) :
    s.Phrases (.spanning kind node.span.start node.span.start ((place, node) :: children),
      after) := by
  refine ⟨h.advances, Node.silent_spanning hk _ _ h.silent, fun source hs hw => ?_⟩
  obtain ⟨hn, hr⟩ := h.lies source hs hw
  have hstart := hn.span.start_boundary
  have hc : LieInOrder source node.span.start after.pos ((place, node) :: children) :=
    ⟨⟨hn.fits, Nat.le_refl _, hn.le_hi⟩, hr⟩
  have hl := Node.lies_spanning hs kind hstart hstart (Nat.le_refl _) hc.le hc
  exact hl.mono hn.lo_le (Nat.le_refl _)

end PhrasesAll

theorem begins_spanning (h : s.Advances after) (kind : Kind) {children : List Child}
    (hc : ∀ child ∈ children, child.2.Capped) :
    s.Begins (Node.spanning kind s.pos after.pos children).span := by
  intro hlimit
  have hstart := Node.start_spanning kind (Nat.le_trans s.pos_le_limit hlimit)
    (Nat.le_trans h.pos_le_limit hlimit) hc
  rw [hstart]
  exact ⟨Nat.le_refl _, s.pos_le_limit⟩

/-- On a line, what a scan of it begins with begins on the line. -/
theorem Begins.holds {line : Line} {span : Span} (hb : s.Begins span)
    (ha : line.scan.Advances s) : line.Holds span := by
  intro hnext
  have hlimit : s.limit = line.stop := ha.limit_eq
  obtain ⟨hpos, hle⟩ := hb (hlimit ▸ Nat.le_trans line.stop_le_next hnext)
  exact ⟨Nat.le_trans (Nat.le_trans (Nat.le_add_right _ _) ha.pos_le) hpos, hlimit ▸ hle⟩

/-! ### Readers on a line -/

theorem finish_brings (s : Scan) : Brings s.Faults (fun _ => True) s.finish := by
  unfold finish
  dsimp only
  split
  · trivial
  · exact .fail (skipBlanks_advances s).faults_rest

theorem blockColon_brings (s : Scan) : Brings s.Faults (fun _ => True) s.blockColon := by
  have hb := skipBlanks_advances s
  unfold blockColon
  dsimp only
  split
  · rename_i after h
    exact (finish_brings after).behind (hb.trans (eat?_reads h).advances)
  · exact .fail hb.faults_point

theorem word_brings (w : String) (s : Scan) : Brings s.Faults s.Advances (s.word w) := by
  have hb := skipBlanks_advances s
  unfold word
  dsimp only
  split
  · rename_i h
    exact hb.trans (eatWord?_advances h)
  · exact .fail hb.faults_point

theorem identifier_brings (thing : String) (s : Scan) :
    Brings s.Faults s.Phrases (s.identifier thing) := by
  have hb := skipBlanks_advances s
  unfold identifier
  dsimp only
  split
  · rename_i h
    exact Phrases.behind hb ((nameOf?_reads h).phrases rfl)
  · exact .fail hb.faults_point

theorem description?_brings (s : Scan) :
    Brings s.Faults (fun found => s.Advances found.2 ∧ ∀ node ∈ found.1, s.Phrases (node, found.2))
      s.description? := by
  have hb := skipBlanks_advances s
  unfold description?
  dsimp only
  split
  · split
    · generalize hi : s.skipBlanks.skip 1 = inner
      have hopen : s.Advances inner := hi ▸ hb.trans (skip_advances 1 _)
      have hr := prefix_reads (List.takeWhile_prefix (l := inner.rest) (· != '"'))
      have hclose := skip_advances 1 (inner.skip (inner.rest.takeWhile (· != '"')).length)
      rw [skip_skip] at hclose
      refine ⟨hopen.trans (hr.advances.trans hclose), fun node hn => ?_⟩
      obtain rfl := Option.some.inj hn
      exact .behind hopen ((hr.phrases rfl).ahead hclose)
    · exact .fail (.behind hb (Advances.refl _).faults_limit)
  · exact ⟨hb, nofun⟩

end Scan

namespace Expression

open Scan

variable {s : Scan}

theorem escape_brings (hslash : s.rest.head? = some '\\') :
    Brings s.Faults s.Phrases (escape s) := by
  unfold escape
  split
  · rename_i after hu
    dsimp only
    split
    · exact .fail (skip_advances 2 s).faults_point
    · rename_i digits hd
      split
      · rename_i last hl
        rw [Option.ite_none_left_eq_some] at hl
        -- The backslash, the letter and the brace are three characters, the closing brace is one.
        have hr := ((skip_reads 2 s).trans (eat?_reads hd)).trans
          ((skipWhile_reads isHexDigit digits).trans (eat?_reads hl.2))
        have h2 : (s.rest.take 2).length = 2 := by
          have hl := congrArg List.length hu
          rw [rest_skip, List.length_drop, List.length_cons] at hl
          rw [List.length_take]
          omega
        have hk := (skipWhile_reads isHexDigit digits).length_eq
        have ht := hr.take (n := digits.rest.length - (digits.skipWhile isHexDigit).rest.length + 4)
          (by simp only [List.length_append, List.length_singleton, h2]; omega)
        rw [ht]
        exact hr.phrases rfl
      · have hdigits := (skipWhile_reads isHexDigit digits).advances
        have ha := ((skip_advances 2 s).trans (eat?_reads hd).advances).trans hdigits
        exact .fail ha.faults
  · split
    · exact (skip_reads 2 s).phrases rfl
    · exact .fail (faults_escape hslash)
  · exact .fail (faults_escape hslash)

theorem integer_brings (s : Scan) : Brings s.Faults s.Phrases (integer s) := by
  unfold integer
  generalize hd : (if s.rest.head? = some '-' then s.skip 1 else s) = digits
  have ha : s.Advances digits := by
    split at hd
    · exact hd ▸ skip_advances 1 s
    · exact hd ▸ .refl s
  have hdigits := skipWhile_reads Char.isDigit digits
  dsimp only
  split
  · exact .fail (ha.trans hdigits.advances).faults_point
  · obtain ⟨sign, hsign⟩ := ha
    have hr := hsign.trans hdigits
    rw [hr.take (by rw [hr.length_eq, Nat.add_sub_cancel])]
    exact hr.phrases rfl

section

variable {inner : Scan → Except Mistake (Node × Scan)}
  (hi : ∀ s, Brings s.Faults s.Phrases (inner s))

include hi

theorem interpolation_brings {kind : Kind} (hk : kind.hasParts = true) (opener : Nat) (s : Scan) :
    Brings s.Faults s.Phrases (interpolation inner kind opener s) := by
  have hopen := skip_advances opener s
  refine ((hi _).behind hopen).bind fun ⟨value, rest⟩ hv => ?_
  dsimp only
  split
  · rename_i last hl
    have hclose := (skipBlanks_advances rest).trans (eat?_reads hl).advances
    have hvalue : (s.skip opener).PhrasesAll ([(none, value)], last) :=
      .single (hv.ahead hclose) nofun
    exact (hvalue.behind hopen).around hk
  · have ha := (hopen.trans hv.advances).trans (skipBlanks_advances rest)
    exact .fail ha.faults_point

/-- An unterminated string is a mistake about all of the string, from its opening quote on. -/
theorem stringPieces_brings {opened : Scan} (n : Nat) (ha : opened.Advances s) :
    Brings opened.Faults s.PhrasesAll (stringPieces inner opened.pos n s) := by
  induction n generalizing s with
  | zero => exact .fail ha.faults_limit
  | succ n ih =>
    have hrest {piece : Node} {rest : Scan} (hp : s.Phrases (piece, rest)) :
        Brings opened.Faults s.PhrasesAll (do
          let (pieces, last) ← stringPieces inner opened.pos n rest
          return ((none, piece) :: pieces, last)) :=
      (ih (ha.trans hp.advances)).bind fun _ hr => .cons hp nofun hr
    unfold stringPieces
    split
    · exact .fail ha.faults_limit
    · exact .nil (skip_advances 1 s)
    · rename_i hr
      refine ((escape_brings ?_).behind ha).bind fun _ => hrest
      rw [hr, List.head?_cons]
    · exact ((interpolation_brings hi rfl 2 s).behind ha).bind fun _ => hrest
    · exact hrest ((prefix_reads (stringRun_begins s.rest)).phrases rfl)

theorem string_brings (s : Scan) : Brings s.Faults s.Phrases (string inner s) := by
  have hopen := skip_advances 1 s
  exact (stringPieces_brings hi _ hopen).bind fun _ hp => (hp.behind hopen).around rfl

theorem primary_brings (s : Scan) : Brings s.Faults s.Phrases (primary inner s) := by
  unfold primary
  split
  · exact string_brings hi s
  · split
    · exact integer_brings s
    · split
      · rename_i hn
        have hname : s.Phrases (.leaf .identifier s.pos _, _) := (nameOf?_reads hn).phrases rfl
        exact PhrasesAll.around (.single hname nofun) rfl
      · exact .fail (Advances.refl s).faults_rest
  · exact .fail (Advances.refl s).faults_rest

end

/-- The operations are after the expression that they are put after, and all of it begins at the
same place. -/
theorem operations_brings {first : Scan} (n : Nat) {left : Node} (h : first.Phrases (left, s)) :
    Brings first.Faults first.Phrases (operations first.pos n left s) := by
  induction n generalizing left s with
  | zero => exact h
  | succ n ih =>
    unfold operations
    split
    · dsimp only
      split
      · rename_i name rest hn
        have hright : (s.skip 1).Phrases (.leaf .identifier (s.skip 1).pos name, rest) :=
          (nameOf?_reads hn).phrases rfl
        refine ih (PhrasesAll.around (.cons h (by decide) (.single ?_ (by decide))) rfl)
        exact .behind (skip_advances 1 s) hright
      · exact h
    · exact h

theorem basicWithin_brings (depth : Nat) (s : Scan) :
    Brings s.Faults s.Phrases (basicWithin depth s) := by
  have hb := skipBlanks_advances s
  induction depth generalizing s with
  | zero => exact .fail hb.faults_rest
  | succ depth ih =>
    have hinner (s : Scan) := ih s (skipBlanks_advances s)
    refine ((primary_brings hinner s.skipBlanks).behind hb).bind fun ⟨left, rest⟩ hl => ?_
    exact (operations_brings _ hl).mono (fun _ => .behind hb) fun _ => .behind hb

theorem basic_brings (s : Scan) : Brings s.Faults s.Phrases (basic s) := basicWithin_brings _ s

theorem basic_finish_brings (s : Scan) :
    Brings s.Faults (fun node => ∃ rest, s.Phrases (node, rest)) (do
      let (value, rest) ← basic s
      rest.finish
      return value) := by
  refine (basic_brings s).bind fun ⟨value, rest⟩ hv => ?_
  exact ((finish_brings rest).behind hv.advances).bind fun _ _ => ⟨rest, hv⟩

theorem comparison_brings (s : Scan) : Brings s.Faults s.Phrases (comparison s) := by
  refine (basic_brings s).bind fun ⟨left, after⟩ hl => ?_
  have hb := skipBlanks_advances after
  dsimp only
  split
  · exact .fail (hl.advances.trans hb).faults_point
  · rename_i sign hf
    have hsign : sign.isPrefixOf after.skipBlanks.rest = true := by
      simpa using List.find?_some hf
    have hp := prefix_reads (List.isPrefixOf_iff_prefix.1 hsign)
    have ha := (hl.advances.trans hb).trans hp.advances
    refine ((basic_brings _).behind ha).bind fun ⟨right, rest⟩ hr => ?_
    have hoperator : after.skipBlanks.Phrases
        (.leaf .comparisonOperator after.skipBlanks.pos sign, after.skipBlanks.skip sign.length) :=
      hp.phrases rfl
    refine PhrasesAll.aroundFirst (.cons (hl.ahead hb) nofun ?_) rfl
    exact .cons hoperator nofun (.single hr nofun)

end Expression

end ArchiveScript
