import Mathlib
import ArchiveScript.Proofs.Script.Drafts
import ArchiveScript.Proofs.Script.Rounds

/-! # What blocks account for

Each round of a block reads one item. Its mistakes are about this item or about one in a block
inside of it, and what the block is read as lies and uses lines item by item.
-/

namespace ArchiveScript

open Node (LieInOrder IsChild)
open Reader

variable {header line : Line} {below lines taken left : List Line} {trail more : Trail}
  {child : Child} {items : List Child} {source : List Char}

/-! ### Items one after the other -/

theorem Node.IsChild.headed (h : IsChild header below trail child) (hn : trail.noted = [])
    {whole : List Line} (hw : header :: below <:+ whole) :
    child.2.Headed whole header trail.taken :=
  ⟨h.item.begins, h.item.fills hn whole hw⟩

namespace AreItems

theorem behind_idle {idle : List Line} (hi : ∀ line ∈ idle, line.isIdle = true)
    (h : AreItems lines trail items) : AreItems (idle ++ lines) (⟨[], idle⟩ ++ trail) items where
  capped := h.capped
  lies source offset hs hf := by
    rw [Trail.taken_append, Line.endOf_append]
    exact (h.lies source _ hs hf.right).mono hf.left.le_endOf (Nat.le_refl _)
  fills hn whole hw :=
    (h.fills hn whole ((List.suffix_append idle lines).trans hw)).behind_idle hi

/-- After a mistake, only the places of the items matter. -/
theorem behind_mistake {noted : List Mistake} {mistake : Mistake} (passed : List Line)
    (h : AreItems left trail items) :
    AreItems lines ⟨noted ++ mistake :: trail.noted, passed ++ trail.taken⟩ items where
  capped := h.capped
  lies source offset hs hf := by
    rw [Line.endOf_append]
    exact (h.lies source _ hs hf.right).mono hf.left.le_endOf (Nat.le_refl _)
  fills hn := absurd (List.append_eq_nil_iff.1 hn).2 (List.cons_ne_nil _ _)

theorem cons (hi : header.isIdle = false) (hl : below = trail.taken ++ left)
    (hc : IsChild header below trail child) (h : AreItems left more items) :
    AreItems (header :: below) (⟨[], [header]⟩ ++ (trail ++ more)) (child :: items) where
  capped := List.forall_mem_cons.2 ⟨hc.item.capped, h.capped⟩
  lies source offset hs hf := by
    obtain ⟨hle, hw, hf⟩ : Line.Follow source offset (header :: (trail.taken ++ more.taken)) := hf
    have hchild := hc.item.lies source ⟨hs, hw, hf.left⟩
    have hend : Line.endOf offset (header :: (trail.taken ++ more.taken)) =
        Line.endOf (Line.endOf header.next trail.taken) more.taken := by
      rw [Line.endOf_cons, Line.endOf_append]
    have hstart := Nat.le_trans hle header.start_le_bodyStart
    exact hend ▸ .cons (hchild.mono hstart (Nat.le_refl _)) (h.lies source _ hs hf.right)
  fills hn whole hw := by
    obtain ⟨hn, hn'⟩ : trail.noted = [] ∧ more.noted = [] := List.append_eq_nil_iff.1 hn
    have hleft : left <:+ whole :=
      (hl ▸ List.suffix_append trail.taken left).trans ((List.suffix_cons header below).trans hw)
    have hitems : Node.AreItems whole (header :: (trail.taken ++ more.taken)) (child :: items) :=
      (h.fills hn' whole hleft).cons (hw.subset List.mem_cons_self) hi (hc.headed hn hw)
    exact hitems

end AreItems

namespace ItemsIn

variable {indent : Nat}

theorem nil (h : ∀ other ∈ taken, other.Below indent) : ItemsIn indent lines taken [] :=
  ⟨h, nofun⟩

theorem behind {before : List Line} (hb : ∀ other ∈ before, other.Below indent)
    (h : ItemsIn indent lines taken items) :
    ItemsIn indent (before ++ lines) (before ++ taken) items := by
  refine ⟨List.forall_mem_append.2 ⟨hb, h.deeper⟩, fun field node hm => ?_⟩
  obtain ⟨header, after, hin, hplaced⟩ := h.fields field node hm
  exact ⟨header, after, hin.behind hb, hplaced⟩

theorem cons (hdeep : indent < header.indent) (hl : below = trail.taken ++ left)
    (hc : IsChild header below trail child) (h : ItemsIn indent left taken items) :
    ItemsIn indent (header :: below) (header :: (trail.taken ++ taken)) (child :: items) := by
  have hbefore : ∀ other ∈ header :: trail.taken, other.Below indent :=
    List.forall_mem_cons.2 ⟨.inr hdeep, fun other ho =>
      (hc.item.owns other ho).imp_right (Nat.lt_of_lt_of_le hdeep)⟩
  have hrest := h.behind hbefore
  rw [List.cons_append, ← hl] at hrest
  refine ⟨hrest.deeper, fun field node hm => ?_⟩
  rcases List.mem_cons.1 hm with rfl | hm
  · exact ⟨header, below, ⟨hdeep, [], rfl, nofun⟩, hc.placed field rfl⟩
  · exact hrest.fields field node hm

end ItemsIn

namespace BlockState

structure ComesTo (state : BlockState) (header : Line) (below : List Line) : Prop where
  lines : state.lines.dropWhile Line.isIdle = header :: below
  deeper : ∀ indent ∈ state.parent, indent < header.indent

/-- The header stands at the margin of the block, which its first item sets. -/
def AtMargin (state : BlockState) (header : Line) : Prop :=
  header.indent = state.expected.getD header.indent

/-- Where the reading of the script stands on the way to a mistake. -/
inductive Reached (whole : List Line) (mistake : Mistake) : BlockState → Prop
  | start : Reached whole mistake ⟨none, none, .topLevel, whole⟩
  /-- The block goes on after an item. -/
  | next {state : BlockState} {header : Line} {below : List Line}
      (h : Reached whole mistake state) (hc : state.ComesTo header below) :
      Reached whole mistake
        (state.after header below (headItem readBlock state.expected state.kind header below))
  /-- The item has a block inside of it, and in both the mistake is noted. -/
  | inside {state : BlockState} {header : Line} {below lines : List Line} {inner : BlockKind}
      (h : Reached whole mistake state) (hc : state.ComesTo header below)
      (hs : state.AtMargin header) (ho : header.Opens below state.kind inner lines)
      (hi : mistake ∈ (readItem state.kind header below).noted)
      (hb : mistake ∈ (readBlock (some header.indent) inner lines).noted) :
      Reached whole mistake ⟨none, some header.indent, inner, lines⟩

end BlockState

/-- A mistake of a script is about one of its items, to which the reading comes in one of its
blocks. -/
inductive Blames (whole : List Line) (mistake : Mistake) : Prop
  /-- The item cannot be read, and the mistake is on one of its lines. -/
  | failed {state : BlockState} {header line : Line} {below : List Line}
      (hb : state.Reached whole mistake) (hc : state.ComesTo header below)
      (hs : state.AtMargin header) (hl : header :: below <:+ whole)
      (hm : (readItem state.kind header below).outcome = .error mistake)
      (ho : header.OfItem below line) (hh : line.Holds mistake.span)
  /-- The item does not stand at the margin of its block, and the mistake is about its header. -/
  | misplaced {state : BlockState} {header : Line} {below : List Line}
      (hb : state.Reached whole mistake) (hc : state.ComesTo header below)
      (hs : ¬ state.AtMargin header) (hl : header :: below <:+ whole)
      (hm : mistake = ⟨.inconsistentIndentation, .between header.start header.stop⟩)
      (hh : header.Holds mistake.span)
  /-- The item repeats a field. -/
  | repeated {state : BlockState} {header : Line} {below : List Line}
      (hb : state.Reached whole mistake) (hc : state.ComesTo header below)
      (hs : state.AtMargin header) (hl : header :: below <:+ whole)
      (hm : mistake ∈ (readItem state.kind header below).noted) (hr : Repeated header below mistake)

namespace BlockState

variable {whole : List Line} {state : BlockState} {mistake : Mistake}

structure Notes (whole : List Line) (state : BlockState) (mistake : Mistake) : Prop where
  blames : state.Reached whole mistake → state.lines <:+ whole → Blames whole mistake
  cites : ∀ source offset, Text.bytes source ≤ Span.maxOffset →
    Line.Follow source offset state.lines → mistake.Cites source

/-- The items of a block lie in order, use its lines and stand below its header. -/
structure Reads (state : BlockState) (trail : Trail) (items : List Child) : Prop where
  ordered : AreItems state.lines trail items
  inBlock : ∀ indent ∈ state.parent, ItemsIn indent state.lines trail.taken items

theorem readBlock_eq : readBlock = blocks := by
  funext parent kind lines
  exact bounded_settles.enough _ ⟨none, parent, kind, lines⟩ (Nat.le_succ _)

theorem ComesTo.suffix (hc : state.ComesTo header below) : header :: below <:+ state.lines :=
  hc.lines ▸ List.dropWhile_suffix _

theorem ComesTo.heads (hc : state.ComesTo header below) {offset : Nat}
    (hs : Text.bytes source ≤ Span.maxOffset) (hf : Line.Follow source offset state.lines) :
    header.Heads source below :=
  have hf := hf.suffix hc.suffix
  ⟨hs, hf.2.1, hf.2.2⟩

theorem opens_suffix {kind inner : BlockKind} (ho : header.Opens below kind inner lines) :
    lines <:+ below := by
  cases ho with
  | below => exact List.dropWhile_suffix _
  | @otherwise between after line _ hl =>
    refine (List.dropWhile_suffix _).trans ⟨between ++ [line], ?_⟩
    rw [hl, List.append_assoc]
    rfl

section

variable (hall : ∀ next : BlockState, next.lines <:+ below →
  (read next).Accounts (next.Notes whole) (fun _ => False) next.lines next.Reads)

include hall

theorem blocks_account (kind : BlockKind) (header : Line) :
    AccountsBlocks kind header below blocks := by
  intro inner lines ho
  have hnext := hall ⟨none, some header.indent, inner, lines⟩ (opens_suffix ho)
  rw [readBlock_eq]
  refine Passage.Accounts.mono hnext (fun _ hm _ => hm) (fun _ _ => id) fun trail items hi h => ?_
  refine ⟨h.ordered, h.inBlock _ rfl, ?_⟩
  rw [readBlock_eq]
  exact hi

/-- What is noted in an item is about the item or about a block inside of it. -/
theorem item_accounts (hc : state.ComesTo header below) :
    (state.item read header below).Accounts (state.Notes whole) (state.Notes whole) below
      (IsChild header below) := by
  have hitem := blockItem_accounts (blocks_account hall state.kind header)
  change (headItem blocks state.expected state.kind header below).Accounts _ _ _ _
  unfold headItem
  split
  · rename_i hs
    refine Passage.Accounts.mono hitem ?_ ?_ fun _ _ _ => id
    · rintro mistake hm (⟨inner, lines, ho, hb⟩ | ⟨hr, hcites⟩)
      · have hsuffix := opens_suffix ho
        have hnotes := (hall ⟨none, some header.indent, inner, lines⟩ hsuffix).noted mistake
          (by rwa [readBlock_eq] at hb)
        have hlines := hsuffix.trans ((List.suffix_cons header below).trans hc.suffix)
        refine ⟨fun hreached hw => ?_, fun source offset hs hf => ?_⟩
        · exact hnotes.blames (.inside hreached hc hs ho (by rwa [readItem, readBlock_eq]) hb)
            (hlines.trans hw)
        · exact hnotes.cites source offset hs (hf.suffix hlines)
      · refine ⟨fun hreached hw => ?_, fun source offset hs hf => hcites source (hc.heads hs hf)⟩
        exact .repeated hreached hc hs (hc.suffix.trans hw) (by rwa [readItem, readBlock_eq]) hr
    · intro mistake hm hf
      refine ⟨fun hreached hw => ?_, fun source offset hs hfollow =>
        hf.cites (hc.heads hs hfollow)⟩
      obtain ⟨line, ho, hline⟩ := hf
      exact .failed hreached hc hs (hc.suffix.trans hw) (by rwa [readItem, readBlock_eq]) ho
        hline.holds
  · rename_i hs
    refine Accounts.fail ⟨fun hreached hw => ?_, fun source offset hsource hf => ?_⟩
    · exact .misplaced hreached hc hs (hc.suffix.trans hw) rfl header.faults_self.holds
    · exact header.faults_self.cites source hsource (hc.heads hsource hf).within

end

/-- What is noted after an item is noted in the block. -/
theorem Notes.of_after (hc : state.ComesTo header below)
    (h : (state.after header below (state.item read header below)).Notes whole mistake)
    (hsuffix : (state.after header below (state.item read header below)).lines <:+ below) :
    state.Notes whole mistake := by
  have hlines := hsuffix.trans ((List.suffix_cons header below).trans hc.suffix)
  refine ⟨fun hreached hw => h.blames ?_ (hlines.trans hw), fun source offset hs hf =>
    h.cites source offset hs (hf.suffix hlines)⟩
  have hnext := hreached.next hc
  rwa [readBlock_eq] at hnext

theorem ComesTo.split (hc : state.ComesTo header below) :
    ∃ idle, state.lines = idle ++ header :: below ∧ (∀ line ∈ idle, line.isIdle = true) ∧
      header.isIdle = false := by
  refine ⟨state.lines.takeWhile Line.isIdle, ?_, fun line hm => List.mem_takeWhile_imp hm, ?_⟩
  · rw [← hc.lines]
    exact (List.takeWhile_append_dropWhile (p := Line.isIdle)).symm
  · refine head_dropWhile Line.isIdle state.lines header ?_
    rw [hc.lines]
    rfl

theorem Reads.read {passage : Passage Child} (hc : state.ComesTo header below)
    (hok : passage.outcome = .ok child) (hl : below = trail.taken ++ passage.left)
    (hchild : IsChild header below trail child)
    (hmore : (state.after header below passage).lines = more.taken ++ left)
    (h : (state.after header below passage).Reads more items) :
    ∃ taken, state.lines = taken ++ left ∧
      state.Reads ⟨trail.noted ++ more.noted, taken⟩ (child :: items) := by
  have hleft : (state.after header below passage).lines = passage.left := by
    unfold after
    rw [hok]
  obtain ⟨idle, hlines, hidle, hactive⟩ := hc.split
  obtain ⟨hordered, hin⟩ := h
  rw [hleft] at hmore hordered hin
  refine ⟨idle ++ header :: (trail.taken ++ more.taken), ?_, ?_, fun indent hi => ?_⟩
  · rw [hlines, hl, hmore]
    simp only [List.append_assoc, List.cons_append]
  · rw [hlines]
    exact (AreItems.cons hactive hl hchild hordered).behind_idle hidle
  · rw [hlines]
    exact (ItemsIn.cons (hc.deeper indent hi) hl hchild (hin indent hi)).behind
      fun line hm => .inl (hidle line hm)

theorem Reads.recovered {passage : Passage Child} (noted : List Mistake)
    (hc : state.ComesTo header below) (herror : passage.outcome = .error mistake)
    (hmore : (state.after header below passage).lines = more.taken ++ left)
    (h : (state.after header below passage).Reads more items) :
    ∃ taken, state.lines = taken ++ left ∧
      state.Reads ⟨noted ++ mistake :: more.noted, taken⟩ items := by
  have hleft : (state.after header below passage).lines = recover header.indent below := by
    unfold after
    rw [herror]
  obtain ⟨idle, hlines, hidle, -⟩ := hc.split
  obtain ⟨skipped, hbelow, hskipped⟩ := exists_skipped header below
  obtain ⟨hordered, hin⟩ := h
  rw [hleft] at hmore hordered hin
  have hlines : state.lines = (idle ++ header :: skipped) ++ recover header.indent below := by
    rw [List.append_assoc, List.cons_append, ← hbelow, hlines]
  refine ⟨(idle ++ header :: skipped) ++ more.taken, ?_, hordered.behind_mistake _,
    fun indent hi => ?_⟩
  · rw [hlines, hmore, List.append_assoc (idle ++ header :: skipped)]
  · have hdeep := hc.deeper indent hi
    rw [hlines]
    exact (hin indent hi).behind (List.forall_mem_append.2 ⟨fun line hm => .inl (hidle line hm),
      List.forall_mem_cons.2 ⟨.inr hdeep, hskipped indent hdeep⟩⟩)

theorem none_accounts {left : List Line} (hl : state.lines.dropWhile Line.isIdle = left) :
    Passage.Accounts (state.Notes whole) (fun _ => False) state.lines state.Reads
      ⟨.ok [], [], left⟩ := by
  have hidle : ∀ line ∈ state.lines.takeWhile Line.isIdle, line.isIdle = true :=
    fun line hm => List.mem_takeWhile_imp hm
  refine ⟨List.forall_mem_nil _, _, ?_, .nil hidle, fun indent _ => .nil fun line hm =>
    .inl (hidle line hm)⟩
  rw [← hl]
  exact (List.takeWhile_append_dropWhile (p := Line.isIdle)).symm

theorem round_accounts {rest : BlockState → Passage (List Child)} (hc : state.ComesTo header below)
    (hitem : (state.item rest header below).Accounts (state.Notes whole) (state.Notes whole) below
      (IsChild header below))
    (hnoted : ∀ mistake ∈ (rest (state.after header below (state.item rest header below))).noted,
      state.Notes whole mistake)
    (hrest : (rest (state.after header below (state.item rest header below))).Accounts
      (fun _ => True) (fun _ => False)
      (state.after header below (state.item rest header below)).lines
      (state.after header below (state.item rest header below)).Reads) :
    (round rest state).Accounts (state.Notes whole) (fun _ => False) state.lines state.Reads := by
  have hparent : ¬ state.parent.any (header.indent ≤ ·) = true := by
    rw [Option.any_eq_true]
    rintro ⟨indent, hi, hle⟩
    exact Nat.not_le_of_lt (hc.deeper indent hi) (of_decide_eq_true hle)
  unfold round
  rw [hc.lines]
  dsimp only
  rw [if_neg hparent]
  generalize state.item rest header below = passage at hitem hnoted hrest ⊢
  generalize rest (state.after header below passage) = following at hnoted hrest ⊢
  cases hitems : following.outcome with
  | error mistake => exact (hrest.failed hitems).elim
  | ok items =>
    obtain ⟨more, hmore, hreads⟩ := hrest.read hitems
    cases hchild : passage.outcome with
    | ok child =>
      obtain ⟨taken, hl, hc'⟩ := hitem.read hchild
      refine ⟨List.forall_mem_append.2 ⟨hitem.noted, hnoted⟩, ?_⟩
      exact hreads.read hc hchild hl hc' hmore
    | error mistake =>
      refine ⟨List.forall_mem_append.2 ⟨hitem.noted,
        List.forall_mem_cons.2 ⟨hitem.failed hchild, hnoted⟩⟩, ?_⟩
      exact hreads.recovered _ hc hchild hmore

/-- What a block accounts for, round by round. -/
theorem read_accounts (whole : List Line) (state : BlockState) :
    (read state).Accounts (state.Notes whole) (fun _ => False) state.lines state.Reads := by
  induction state using bounded_settles.ends.induction with
  | _ state ih =>
    have hround : read state = round read state := bounded_settles.again state
    rw [hround]
    cases hlines : state.lines.dropWhile Line.isIdle with
    | nil =>
      unfold round
      rw [hlines]
      exact none_accounts hlines
    | cons header below =>
      by_cases hparent : state.parent.any (header.indent ≤ ·) = true
      · unfold round
        rw [hlines]
        dsimp only
        rw [if_pos hparent]
        exact none_accounts hlines
      · have hc : state.ComesTo header below := by
          refine ⟨hlines, fun indent hi => ?_⟩
          rw [Option.mem_def.1 hi] at hparent
          simpa using hparent
        have hlater : (state.after header below (state.item read header below)).lines <:+ below :=
          (item_congr state header fun next _ => ⟨rfl, read_leads next⟩).2
        have hrest := ih _ (below_later hlines hlater)
        refine round_accounts hc ?_ (fun mistake hm => ?_) ?_
        · exact item_accounts (fun next hn => ih next (below_later hlines hn)) hc
        · exact .of_after hc (hrest.noted mistake hm) hlater
        · exact hrest.mono (fun _ _ _ => trivial) (fun _ _ => id) fun _ _ _ => id

end BlockState

/-- The items of a script use all of its lines, and its mistakes are those of its blocks. -/
theorem parse_accounts (source : List Char) :
    ∃ items, (parse source).tree = .spanning .sourceFile 0 (Text.bytes source) items ∧
      AreItems (Line.split source) ⟨(parse source).mistakes, Line.split source⟩ items ∧
      ∀ mistake ∈ (parse source).mistakes,
        BlockState.Notes (Line.split source) ⟨none, none, .topLevel, Line.split source⟩
          mistake := by
  have h := BlockState.read_accounts (Line.split source)
    ⟨none, none, .topLevel, Line.split source⟩
  rw [BlockState.read_topItems] at h
  cases hitems : (topItems (Line.split source)).outcome with
  | error mistake => exact (h.failed hitems).elim
  | ok items =>
    obtain ⟨htree, hmistakes⟩ := parse_of_topItems hitems rfl
    obtain ⟨taken, hlines, hreads⟩ := h.read hitems
    rw [topItems_left, List.append_nil] at hlines
    rw [hmistakes]
    refine ⟨items, htree, ?_, h.noted⟩
    have hordered := hreads.ordered
    rwa [← hlines] at hordered

end ArchiveScript
