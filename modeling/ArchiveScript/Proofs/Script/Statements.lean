import Mathlib
import ArchiveScript.Proofs.Script.Declarations

/-! # What statements account for

A statement is read from its line and the block below it, a conditional from its other branch, too.
-/

namespace ArchiveScript

open Node (IsPart IsItem IsValue IsBody IsChild)
open Reader

variable {kind : BlockKind} {header : Line} {below lines : List Line} {s : Scan}
  {block : BlockReader Reader Node}

theorem AccountsItem.wrap {lo lo' start stop : Nat} {owner : Kind} {reader : Reader Node}
    {children : Node → List Child}
    (h : AccountsItem kind header below lines (IsItem header below lo) reader)
    (hn : ∀ trail node, node.IsPart header below lo trail →
      (Node.spanning owner start stop (children node)).IsItem header below lo' trail) :
    AccountsItem kind header below lines (IsItem header below lo')
      (do Builder.spanning owner start stop (children (← reader))) := by
  refine h.bind fun trail left node _ hv => ?_
  exact .node (hn trail node hv.toIsPart)

theorem verbatim_accounts (kind : BlockKind) (below : List Line) (ha : header.scan.Advances s) :
    AccountsItem kind header below below (IsItem header below s.pos) (Verbatim.block header) :=
  (Verbatim.block_accounts kind header below).mono (fun _ => id) (fun _ => id)
    fun _ _ hn => (hn.mono ha.pos_le_next).toIsItem

theorem basic_accounts (ha : header.scan.Advances s) :
    AccountsItem kind header below lines (IsItem header below s.pos) (LineReader.onLine do
      let (value, rest) ← Expression.basic s
      rest.finish
      return value) :=
  (Declaration.value_accounts ha).mono (fun _ => id) (fun _ => id) fun _ _ hn => hn.toIsItem

theorem AccountsItem.earlier {lo earlier : Nat} {reader : Reader Node}
    (h : AccountsItem kind header below lines (IsItem header below lo) reader)
    (hle : earlier ≤ lo) :
    AccountsItem kind header below lines (IsItem header below earlier) reader :=
  h.mono (fun _ => id) (fun _ => id) fun _ _ hn => hn.mono hle

namespace Statement

open Expression Scan

theorem eatWords?_advances {first second : String} {after : Scan}
    (h : eatWords? first second s = some after) : s.Advances after := by
  unfold eatWords? at h
  simp only [Option.bind_eq_bind, Option.bind_eq_some_iff] at h
  obtain ⟨rest, hr, hw⟩ := h
  split at hw
  · exact ((eatWord?_advances hr).trans (skipBlanks_advances rest)).trans (eatWord?_advances hw)
  · cases hw

theorem eatQuery?_advances {after : Scan} (h : eatQuery? s = some after) : s.Advances after := by
  unfold eatQuery? at h
  simp only [Option.bind_eq_bind, Option.bind_eq_some_iff] at h
  obtain ⟨rest, hr, hw⟩ := h
  exact ((eatWord?_advances hr).trans (skipBlanks_advances rest)).trans (eat?_reads hw).advances

theorem property_accounts (kind : BlockKind) (header : Line) (below : List Line) :
    AccountsItem kind header below below (IsItem header below header.bodyStart)
      (property header) := by
  have hstart := Advances.refl header.scan
  unfold property
  dsimp only
  split
  · exact .fail (hstart.faults_point.onItem hstart)
  · rename_i name rest hn
    have hkey : header.scan.Phrases (.leaf .identifier header.scan.pos name, rest) :=
      (nameOf?_reads hn).phrases rfl
    have hblanks := skipBlanks_advances rest
    have ha := hkey.advances.trans hblanks
    have hpair (trail : Trail) (value : Node) (hv : value.IsPart header below rest.pos trail) :
        (Node.spanning .keyValuePair header.bodyStart header.trimmedStop
          [(some .key, .leaf .identifier header.scan.pos name), (some .value, value)]).IsItem
          header below header.bodyStart trail :=
      AreParts.whole (.pair hstart hkey hv (Nat.le_refl _) nofun nofun rfl) (Nat.le_refl _) nofun
    refine .node_bind ?_
    split
    · rename_i after he
      have he := (eat?_reads he).advances
      exact AccountsItem.wrap ((basic_accounts (ha.trans he)).earlier (hblanks.trans he).pos_le)
        hpair
    · rename_i after _ he
      refine .onLine_bind ((finish_brings after).onItem (ha.trans (eat?_reads he).advances))
        fun _ _ => ?_
      exact AccountsItem.wrap (verbatim_accounts kind below hkey.advances) hpair
    · exact .fail (ha.faults_point.onItem hstart)

theorem query_accounts (ha : header.scan.Advances s) {after : Scan} (hafter : s.Advances after) :
    AccountsItem kind header below below (IsItem header below s.pos)
      (query header s.pos after) := by
  have hstart := Advances.refl header.scan
  refine .onLine_bind ((identifier_brings _ after).onItem (ha.trans hafter))
    fun ⟨connection, last⟩ hn => ?_
  have hn := Phrases.behind hafter hn
  have hlast := (ha.trans hn.advances).trans (skipBlanks_advances last)
  dsimp only
  split
  · exact .fail (hlast.faults_point.onItem hstart)
  · rename_i rest hr
    have hr := (eat?_reads hr).advances
    have hclose := hn.ahead ((skipBlanks_advances last).trans hr)
    refine .onLine_bind ((blockColon_brings rest).onItem (hlast.trans hr)) fun _ _ => ?_
    refine AccountsItem.wrap (verbatim_accounts kind below (hlast.trans hr)) fun _ _ hv => ?_
    exact AreParts.around (.pair ha hclose hv (Nat.le_refl _) nofun nofun rfl) ha hclose.advances
      nofun

theorem scriptResult_accounts (ha : header.scan.Advances s) {after : Scan}
    (hafter : s.Advances after) :
    AccountsItem kind header below below (IsItem header below s.pos)
      (scriptResult header s.pos after) := by
  refine .onLine_bind ((basic_brings after).onItem (ha.trans hafter))
    fun ⟨interpreter, rest⟩ hn => ?_
  have hn := Phrases.behind hafter hn
  have hrest := ha.trans hn.advances
  refine .onLine_bind ((blockColon_brings rest).onItem hrest) fun _ _ => ?_
  refine AccountsItem.wrap (verbatim_accounts kind below hrest) fun _ _ hv => ?_
  exact AreParts.around (.pair ha hn hv (Nat.le_refl _) nofun nofun rfl) ha hn.advances nofun

theorem execute_accounts (ha : header.scan.Advances s) :
    AccountsItem kind header below below (IsItem header below header.bodyStart)
      (execute header s) := by
  have ha := ha.trans (skipBlanks_advances s)
  unfold execute
  dsimp only
  split
  · rename_i rest hr
    have ha := ha.trans (eatWord?_advances hr)
    refine .onLine_bind ((basic_brings rest).onItem ha) fun ⟨interpreter, last⟩ hn => ?_
    have hlast := ha.trans hn.advances
    refine .onLine_bind ((blockColon_brings last).onItem hlast) fun _ _ => ?_
    refine AccountsItem.wrap (verbatim_accounts kind below hlast) fun _ _ hv => ?_
    exact AreParts.whole (.pair ha hn hv (Nat.le_refl _) nofun nofun rfl) ha.pos_le nofun
  · split
    · rename_i rest hr
      have ha := ha.trans (eatWord?_advances hr)
      refine .onLine_bind ((word_brings "on" rest).onItem ha) fun after hafter => ?_
      have ha := ha.trans hafter
      refine .onLine_bind ((identifier_brings _ after).onItem ha) fun ⟨connection, last⟩ hn => ?_
      have hlast := ha.trans hn.advances
      refine .onLine_bind ((blockColon_brings last).onItem hlast) fun _ _ => ?_
      refine AccountsItem.wrap (verbatim_accounts kind below hlast) fun _ _ hv => ?_
      exact AreParts.whole (.pair ha hn hv (Nat.le_refl _) nofun nofun rfl) ha.pos_le nofun
    · exact .fail (ha.faults_point.onItem (.refl _))

theorem moreVariables_brings (n : Nat) (s : Scan) :
    Brings s.Faults s.PhrasesAll (moreVariables n s) := by
  have hb := skipBlanks_advances s
  induction n generalizing s with
  | zero => exact .nil hb
  | succ n ih =>
    unfold moreVariables
    dsimp only
    split
    · exact .nil hb
    · rename_i rest hr
      have ha := hb.trans (eat?_reads hr).advances
      refine ((identifier_brings _ rest).behind ha).bind fun ⟨name, after⟩ hn => ?_
      have hn := Phrases.behind ha hn
      refine ((ih after (skipBlanks_advances after)).behind hn.advances).bind fun _ hm => ?_
      exact .cons hn nofun hm

theorem assertion_accounts (ha : header.scan.Advances s) :
    AccountsItem kind header below lines (IsItem header below header.bodyStart)
      (assertion header s) := by
  refine .onLine (Brings.bind ((comparison_brings s).onItem ha) fun ⟨condition, rest⟩ hc => ?_)
  have hrest := ha.trans hc.advances
  refine Brings.bind ((finish_brings rest).onItem hrest) fun _ _ => ?_
  have hall : AreParts header below .assert s.pos .none [(some .condition, condition)] :=
    .heading ha hc nofun rfl (.nil hrest)
  exact hall.whole ha.pos_le nofun

theorem log_accounts (ha : header.scan.Advances s) :
    AccountsItem kind header below below (IsItem header below header.bodyStart) (log header s) := by
  have hnode (trail : Trail) (value : Node) (hv : value.IsPart header below s.pos trail) :
      (Node.spanning .log header.bodyStart header.trimmedStop [(some .value, value)]).IsItem header
        below header.bodyStart trail :=
    AreParts.whole (.single hv nofun rfl) ha.pos_le nofun
  unfold log
  dsimp only
  split
  · rename_i rest hr
    refine .onLine_bind ((finish_brings rest).onItem (ha.trans (eat?_reads hr).advances))
      fun _ _ => ?_
    exact AccountsItem.wrap (verbatim_accounts kind below ha) hnode
  · exact AccountsItem.wrap (basic_accounts ha) hnode

theorem nop_accounts (ha : header.scan.Advances s) :
    AccountsItem kind header below lines (IsItem header below header.bodyStart)
      (nop header s) := by
  refine .onLine (Brings.bind ((finish_brings s).onItem ha) fun _ _ => ?_)
  obtain ⟨rest, hr⟩ := header.reads_trimmed
  have hn : header.scan.Phrases (.leaf .nop header.bodyStart (Text.trimEnd header.body), _) :=
    hr.phrases rfl
  exact (hn.isValue (.refl _)).toIsItem

variable (hb : AccountsBlocks kind header below block)

include hb

/-- The statements below a line of the item. Without any, the mistake is at the end of this line. -/
theorem statements_accounts {line : Line}
    (ho : header.Opens below kind .statements (lines.dropWhile Line.isIdle))
    (hl : header.OfItem below line) (hi : line.indent = header.indent) :
    AccountsItem kind header below lines (IsBody line lines) (statements block line) := by
  refine .hasBlock_bind (fun _ _ _ hi h => h.behind_idle hi) fun has => ?_
  split
  · have hitems := hb.onItem ho
    rw [← hi] at hitems
    refine Accounts.bind hitems fun trail left items _ hitems => .spans_bind (.node ?_)
    exact hitems.isBody (Nat.le_refl _) rfl nofun
  · exact .fail ⟨line, hl, line.faults_stop⟩

theorem connection_accounts (hk : kind.holds .properties = true) (ha : header.scan.Advances s)
    {after : Scan} (hafter : s.Advances after) :
    AccountsItem kind header below below (IsItem header below s.pos)
      (connection block header s.pos after) := by
  refine .onLine_bind ((basic_brings after).onItem (ha.trans hafter)) fun ⟨url, rest⟩ hu => ?_
  have hu := (Phrases.behind hafter hu).ahead (skipBlanks_advances rest)
  have hrest := ha.trans hu.advances
  have hnode {trail : Trail} {properties : List Child}
      (hp : AreParts header below .connection rest.skipBlanks.pos trail properties) :
      (Node.spanning .connection s.pos rest.skipBlanks.pos ((some .url, url) :: properties)).IsItem
        header below s.pos trail :=
    AreParts.around (.heading ha hu nofun rfl hp) ha hu.advances nofun
  dsimp only
  split
  · rename_i last hw
    refine .onLine_bind ((blockColon_brings last).onItem (hrest.trans (eatWord?_advances hw)))
      fun _ _ => .hasBlock_bind (fun _ _ _ hi h => h.behind_idle hi) fun has => ?_
    split
    · refine (hb.under hk).bind fun trail left items _ hi => .spans_bind (.node_bind (.node ?_))
      have hpairs : (Node.spanning .keyValuePairs (startOf Node.span header items)
          (startOf Node.span header items) items).IsBody header below trail :=
        hi.isBody (Nat.le_refl _) rfl nofun
      exact hnode (.single (hpairs.toIsPart.mono hrest.pos_le_next) nofun rfl)
    · exact .fail (hrest.faults_point.onItem (.refl _))
  · exact .onLine_bind ((finish_brings _).onItem hrest) fun _ _ =>
      .pure_bind (.node (hnode (.nil hrest)))

theorem expression_accounts (hk : kind.holds .properties = true) (ha : header.scan.Advances s) :
    AccountsItem kind header below below (IsItem header below s.pos)
      (expression block header s) := by
  have hb' := skipBlanks_advances s
  have ha := ha.trans hb'
  have hlater {reader : Reader Node}
      (h : AccountsItem kind header below below (IsItem header below s.skipBlanks.pos) reader) :=
    h.earlier hb'.pos_le
  unfold expression
  dsimp only
  split
  · rename_i hw
    exact hlater (connection_accounts hb hk ha (eatWords?_advances hw))
  · split
    · rename_i hw
      exact hlater (query_accounts ha (eatQuery?_advances hw))
    · split
      · rename_i hw
        exact hlater (scriptResult_accounts ha (eatWords?_advances hw))
      · exact hlater (basic_accounts ha)

theorem set_accounts (hk : kind.holds .properties = true) (ha : header.scan.Advances s) :
    AccountsItem kind header below below (IsItem header below header.bodyStart)
      (set block header s) := by
  refine .onLine_bind ((identifier_brings _ s).onItem ha) fun ⟨name, rest⟩ hn => ?_
  have hrest := ha.trans hn.advances
  have hblanks := skipBlanks_advances rest
  have hnode (trail : Trail) (value : Node) (hv : value.IsPart header below rest.pos trail) :
      (Node.spanning .set header.bodyStart header.trimmedStop
        [(some .name, name), (some .value, value)]).IsItem header below header.bodyStart trail :=
    AreParts.whole (.pair ha hn hv (Nat.le_refl _) nofun nofun rfl) ha.pos_le nofun
  dsimp only
  split
  · rename_i after he
    have he := hblanks.trans (eat?_reads he).advances
    have hv := AccountsItem.earlier (expression_accounts hb hk (hrest.trans he)) he.pos_le
    exact AccountsItem.wrap hv hnode
  · rename_i after _ he
    have he := hblanks.trans (eat?_reads he).advances
    refine .onLine_bind ((finish_brings after).onItem (hrest.trans he)) fun _ _ => ?_
    exact AccountsItem.wrap (verbatim_accounts kind below hrest) hnode
  · exact .fail ((hrest.trans hblanks).faults_point.onItem (.refl _))

theorem forLoop_accounts (hk : kind.holds .statements = true) (ha : header.scan.Advances s) :
    AccountsItem kind header below below (IsItem header below header.bodyStart)
      (forLoop block header s) := by
  refine .onLine_bind ((identifier_brings _ s).onItem ha) fun ⟨first, rest⟩ hf => ?_
  refine .onLine_bind ((moreVariables_brings _ rest).onItem (ha.trans hf.advances))
    fun ⟨more, last⟩ hm => .spans_bind (.node_bind ?_)
  have hnames : s.Phrases (.spanning .forVariables first.span.start first.span.start
      ((none, first) :: more), last) :=
    PhrasesAll.aroundFirst (.cons hf nofun hm) rfl
  have hlast := ha.trans hnames.advances
  refine .onLine_bind ((word_brings "in" last).onItem hlast) fun after hw => ?_
  have hafter := hlast.trans hw
  refine .onLine_bind ((basic_brings after).onItem hafter) fun ⟨rows, final⟩ hr => ?_
  have hfinal := hafter.trans hr.advances
  refine .onLine_bind ((blockColon_brings final).onItem hfinal) fun _ _ => ?_
  refine (statements_accounts hb (.below hk) (.own (.inl rfl)) rfl).bind
    fun trail left body _ hbody => .node ?_
  have hrows : AreParts header below .forLoop after.pos trail
      [(some .rows, rows), (some .body, body)] :=
    .pair hafter hr hbody.toIsPart hfinal.pos_le_next nofun nofun rfl
  exact AreParts.whole (.heading ha hnames nofun rfl (hrows.mono hw.pos_le)) ha.pos_le nofun

/-- The other branch of a conditional is below a line with the word for it, which is the first line
after the block of the conditional. -/
theorem otherwise_accounts (hk : kind.holds .statements = true)
    (hc : header.scan.atWord "If".toList = true) {taken more : List Line}
    (hl : below = taken ++ more) (ht : ∀ other ∈ taken, other.Below header.indent) :
    AccountsItem kind header below more (IsBranch header more) (otherwise block header) := by
  refine .skipIdle_bind fun idle hidle hall => .peek_bind ?_
  have howns : header.Owns idle := .of_idle hall
  have hnone : IsBranch header more (⟨[], idle⟩ ++ .none) [] := by
    rw [Trail.append_none]
    refine ⟨howns, List.forall_mem_nil _, fun _ _ _ hf => hf.le_endOf, fun _ whole _ => ?_⟩
    have h : Node.FillAll whole (some header) .conditional (idle ++ []) [] :=
      Node.FillAll.nil.behind_idle hall
    rwa [List.append_nil] at h
  have hactive := head_dropWhile Line.isIdle more
  generalize more.dropWhile Line.isIdle = left at hidle hactive ⊢
  cases left with
  | nil => exact .pure hnone
  | cons next after =>
    dsimp only
    split
    · rename_i hindent
      split
      · rename_i rest hr
        have hword := atWord_of_eatWord? hr
        have hbelow : below = (taken ++ idle) ++ next :: after := by
          rw [hl, hidle, List.append_assoc]
        have hbetween : ∀ other ∈ taken ++ idle, other.Below header.indent :=
          List.forall_mem_append.2 ⟨ht, fun other ho => .inl (hall other ho)⟩
        have hitem : header.OfItem below next := .otherwise hbelow hbetween hindent hword hc
        refine .goto_bind (List.singleton_append (x := next) (l := after)).symm ?_
        refine .onLine_bind ((blockColon_brings rest).mono (fun _ hf => ?_) fun _ => id)
          fun _ _ => ?_
        · exact ⟨next, hitem, hf.onLine (eatWord?_advances hr)⟩
        · refine (statements_accounts hb (.otherwise hk hbelow hbetween hindent hword hc) hitem
            hindent).map fun trail body hbody => ?_
          refine ⟨?_, List.forall_mem_singleton.2 hbody.capped, fun source offset hs hf => ?_,
            fun hn whole hw => ?_⟩
          · refine howns.append (List.forall_mem_append.2 ⟨?_, fun other ho => ?_⟩)
            · exact List.forall_mem_singleton.2 (.inr (Nat.le_of_eq hindent.symm))
            · exact (hbody.deeper other ho).imp_right fun h => by omega
          · obtain ⟨hstart, hwithin, hfollow⟩ := hf.right
            have hend : Line.endOf offset (idle ++ ([next] ++ trail.taken)) =
                Line.endOf next.next trail.taken := by
              rw [Line.endOf_append]
              rfl
            have hle := Nat.le_trans hf.left.le_endOf (Nat.le_trans hstart next.start_le_next)
            exact hend ▸ .singleton
              ((hbody.lies source ⟨hs, hwithin, hfollow⟩).mono hle (Nat.le_refl _))
          · have hnext : next :: after <:+ whole := (hidle ▸ List.suffix_append idle _).trans hw
            refine Node.FillAll.behind_idle hall ?_
            exact .otherwise (hnext.subset List.mem_cons_self) (hactive next rfl) hword hindent
              (hbody.fills hn whole hnext)
      · exact .pure hnone
    · exact .pure hnone

theorem conditional_accounts (hk : kind.holds .statements = true)
    (hc : header.scan.atWord "If".toList = true) (ha : header.scan.Advances s) :
    AccountsItem kind header below below (IsItem header below header.bodyStart)
      (conditional block header s) := by
  refine .onLine_bind ((comparison_brings s).onItem ha) fun ⟨condition, rest⟩ hcond => ?_
  have hrest := ha.trans hcond.advances
  refine .onLine_bind ((blockColon_brings rest).onItem hrest) fun _ _ => ?_
  refine (statements_accounts hb (.below hk) (.own (.inl rfl)) rfl).bind
    fun trail left consequent hl hthen => ?_
  refine (otherwise_accounts hb hk hc hl hthen.deeper).bind fun more _ branch _ helse => .onLine ?_
  have hparts : AreParts header below .conditional header.next (trail ++ more)
      ((some .consequent, consequent) :: branch) :=
    .branches hl hthen.toIsPart nofun helse
  rw [Trail.append_none]
  exact AreParts.whole (.heading ha hcond nofun rfl (hparts.mono hrest.pos_le_next)) ha.pos_le nofun

theorem siard_accounts (hk : kind.holds .metadata = true) (ha : header.scan.Advances s) :
    AccountsItem kind header below below (IsItem header below header.bodyStart)
      (siard block header s) := by
  have ha := ha.trans (skipBlanks_advances s)
  unfold siard
  dsimp only
  split
  · rename_i rest hr
    have ha := ha.trans (eatWord?_advances hr)
    refine .onLine_bind ((word_brings "for" rest).onItem ha) fun after hw => ?_
    have ha := ha.trans hw
    refine .onLine_bind ((identifier_brings _ after).onItem ha) fun ⟨connection, last⟩ hn => ?_
    refine .onLine_bind ((blockColon_brings last).onItem (ha.trans hn.advances)) fun _ _ => ?_
    exact Declaration.metadata_accounts hb hk ha hn
  · split
    · rename_i rest hr
      have ha := ha.trans (eatWord?_advances hr)
      refine .onLine (Brings.bind ((identifier_brings _ rest).onItem ha)
        fun ⟨connection, after⟩ hn => ?_)
      have hafter := ha.trans hn.advances
      refine Brings.bind ((word_brings "to" after).onItem hafter) fun last hw => ?_
      have hlast := hafter.trans hw
      refine Brings.bind ((basic_brings last).onItem hlast) fun ⟨file, final⟩ hf => ?_
      have hfinal := hlast.trans hf.advances
      refine Brings.bind ((finish_brings final).onItem hfinal) fun _ _ => ?_
      have hfile : AreParts header below .siardOutput last.pos .none [(some .file, file)] :=
        .heading hlast hf nofun rfl (.nil hfinal)
      exact AreParts.whole (.heading ha hn nofun rfl (hfile.mono hw.pos_le)) ha.pos_le nofun
    · exact .fail (ha.faults_point.onItem (.refl _))

theorem parameters_accounts {topLevel : Bool}
    (hk : topLevel = true → kind.holds .parameters = true) (ha : header.scan.Advances s) :
    AccountsItem kind header below below (IsItem header below header.bodyStart)
      (parameters block header topLevel s) := by
  unfold parameters
  split
  · rename_i htop
    refine .onLine_bind ((blockColon_brings s).onItem ha) fun _ _ => ?_
    exact (Declaration.parameters_accounts hb (hk htop)).mono (fun _ => id) (fun _ => id)
      fun _ _ hn => hn.toIsItem
  · exact .fail header.faults_trimmed.onItem

theorem statement_accounts {topLevel : Bool}
    (hk : kind = if topLevel = true then .topLevel else .statements) :
    AccountsItem kind header below below (IsItem header below header.bodyStart)
      (statement block header topLevel) := by
  have hparameters : topLevel = true → kind.holds .parameters = true := by
    rintro rfl
    rw [hk]
    rfl
  have hholds : kind.holds .properties = true ∧ kind.holds .metadata = true ∧
      kind.holds .statements = true := by
    cases topLevel <;> exact hk ▸ ⟨rfl, rfl, rfl⟩
  obtain ⟨hproperties, hmetadata, hstatements⟩ := hholds
  unfold statement
  dsimp only
  split
  · rename_i reading hf
    obtain ⟨⟨keyword, read⟩, hm, hp⟩ := List.exists_of_findSome?_eq_some hf
    obtain ⟨rest, hr, rfl⟩ := Option.map_eq_some_iff.1 hp
    have ha := eatWord?_advances hr
    have hw := atWord_of_eatWord? hr
    simp only [keywords, List.mem_cons, List.not_mem_nil, or_false, Prod.mk.injEq] at hm
    rcases hm with ⟨_, rfl⟩ | ⟨_, rfl⟩ | ⟨_, rfl⟩ | ⟨_, rfl⟩ | ⟨_, rfl⟩ | ⟨rfl, rfl⟩ | ⟨_, rfl⟩ |
      ⟨_, rfl⟩ | ⟨_, rfl⟩
    · exact parameters_accounts hb hparameters ha
    · exact nop_accounts ha
    · exact set_accounts hb hproperties ha
    · exact execute_accounts ha
    · exact forLoop_accounts hb hstatements ha
    · exact conditional_accounts hb hstatements hw ha
    · exact assertion_accounts ha
    · exact log_accounts ha
    · exact siard_accounts hb hmetadata ha
  · exact .fail header.faults_trimmed.onItem

end Statement

theorem blockItem_accounts (hb : AccountsBlocks kind header below block) :
    AccountsItem kind header below below (IsChild header below) (blockItem block kind header) := by
  cases kind with
  | topLevel => exact AccountsItem.child (Statement.statement_accounts hb rfl)
  | statements => exact AccountsItem.child (Statement.statement_accounts hb rfl)
  | parameters => exact AccountsItem.child (Declaration.parameter_accounts _ header below)
  | properties => exact AccountsItem.child (Statement.property_accounts _ header below)
  | metadata => exact Declaration.metadataItem_accounts hb rfl
  | declaration owner => exact Declaration.declarationItem_accounts hb rfl
  | command => exact Declaration.commandItem_accounts hb rfl

end ArchiveScript
