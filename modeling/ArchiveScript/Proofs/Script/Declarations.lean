import Mathlib
import ArchiveScript.Proofs.Script.VerbatimBlocks

/-! # What declarations account for

The items of metadata, and the fields, the parameters and the blocks that they are made of. The
fields of an item are checked after its block, and one that is given again is noted.
-/

namespace ArchiveScript

open Node (IsItem IsValue IsChild)
open Reader

variable {kind : BlockKind} {header : Line} {below lines : List Line} {s : Scan}
  {block : BlockReader Reader Node}

namespace AccountsItem

theorem child {reader : Reader Node}
    (h : AccountsItem kind header below lines (IsItem header below header.bodyStart) reader) :
    AccountsItem kind header below lines (IsChild header below) (do return (none, ← reader)) :=
  h.map fun _ _ hn => ⟨hn, nofun⟩

theorem field {lo : Nat} {reader : Reader Node}
    (h : AccountsItem kind header below lines (IsValue header below lo) reader)
    (hlo : header.bodyStart ≤ lo) (place : Option Field) :
    AccountsItem kind header below lines (IsChild header below) (do return (place, ← reader)) :=
  h.map fun _ _ hn => ⟨(hn.mono hlo).toIsItem, fun _ _ => hn.placed⟩

end AccountsItem

theorem AccountsBlocks.onItem (hb : AccountsBlocks kind header below block) {inner : BlockKind}
    (ho : header.Opens below kind inner lines) :
    AccountsItem kind header below lines (IsBlock header.indent inner lines)
      (block (some header.indent) inner) :=
  (hb inner lines ho).mono (fun _ hm => .inl ⟨inner, lines, ho, hm⟩) (fun _ => False.elim)
    fun _ _ => id

theorem AccountsBlocks.under (hb : AccountsBlocks kind header below block) {inner : BlockKind}
    (hk : kind.holds inner = true) :
    AccountsItem kind header below (below.dropWhile Line.isIdle)
      (IsBlock header.indent inner (below.dropWhile Line.isIdle))
      (block (some header.indent) inner) :=
  hb.onItem (.below hk)

section

variable {inner : BlockKind} {trail : Trail} {left : List Line} {after : Scan}
  {parts items : List Child}

/-- Every field that is repeated is one of the header or of the block. -/
theorem repeated_of_isBlock (hk : inner.holdsFields = true)
    (hp : ∀ part ∈ parts, header.Holds part.2.span)
    (hi : IsBlock header.indent inner (below.dropWhile Line.isIdle) trail items) :
    ∀ mistake ∈ repeatedFields Node.span [] (parts ++ items), Repeated header below mistake := by
  intro mistake hm
  have hr : Repeats header below mistake := ⟨inner, parts, items, hk, hi.outcome, hp, hm⟩
  obtain ⟨field, node, hmem, rfl⟩ := exists_of_repeatedFields hm
  rcases List.mem_append.1 hmem with hmem | hmem
  · exact .held hr (.inl rfl) (hp _ hmem)
  · obtain ⟨item, after, hitem, hplace⟩ := hi.fields field node hmem
    cases hplace with
    | held hl hh => exact .held hr (.inr (hitem.item hl |>.imp fun _ h => h.behind_idle)) hh
    | empty hn he =>
      subst hn
      exact .empty hr hitem.behind_idle he rfl

theorem notes_of_isBlock (hk : inner.holdsFields = true) (ha : header.scan.Advances s)
    (hp : s.PhrasesAll (parts, after))
    (hl : below.dropWhile Line.isIdle = trail.taken ++ left)
    (hi : IsBlock header.indent inner (below.dropWhile Line.isIdle) trail items) :
    ∀ mistake ∈ repeatedFields Node.span [] (parts ++ items), header.Notes below kind mistake := by
  refine fun mistake hm =>
    .inr ⟨repeated_of_isBlock hk (hp.holds ha) hi mistake hm, fun source hh => ?_⟩
  have hf := hh.follow.suffix (List.dropWhile_suffix Line.isIdle)
  rw [hl] at hf
  have hlo := (ha.trans hp.advances).pos_le_next
  have hc := (hp.lies source hh.fits (ha.within hh.within.scan)).append
    ((hi.lies source _ hh.fits hf.left).mono hlo (Nat.le_refl _))
  exact hc.repeatedFields_cite mistake hm

/-- The fields of an item are checked before the node for it is made. -/
theorem check_accounts {owner : Kind} {start stop : Nat}
    (hn : (Node.spanning owner start stop items).IsItem header below header.bodyStart trail)
    (hm : ∀ mistake ∈ repeatedFields Node.span [] items, header.Notes below kind mistake) :
    AccountsItem kind header below lines
      (fun more => IsItem header below header.bodyStart (trail ++ more)) (do
        LineReader.note (repeatedFields (← Builder.spans) [] items)
        Builder.spanning owner start stop items) := by
  refine .spans_bind (.note_bind hm (.onLine ?_))
  rw [Trail.append_none]
  exact hn.noting _

end

namespace Declaration

open Expression Scan

theorem described_phrases {last : Scan} {description : Option Node} (hlast : s.Advances last)
    (hd : ∀ node ∈ description, s.Phrases (node, last)) :
    s.PhrasesAll (description.toList.map fun node => (some Field.description, node), last) := by
  cases description with
  | none => exact .nil hlast
  | some node => exact .single (hd node rfl) nofun

theorem value_accounts (ha : header.scan.Advances s) :
    AccountsItem kind header below lines (IsValue header below s.pos) (LineReader.onLine do
      let (value, rest) ← basic s
      rest.finish
      return value) :=
  .onLine (((basic_finish_brings s).onItem ha).mono (fun _ => id) fun _ ⟨_, hv⟩ => hv.isValue ha)

theorem fieldValue_accounts (ha : header.scan.Advances s) :
    AccountsItem kind header below below (IsValue header below s.pos) (fieldValue header s) := by
  have hb := skipBlanks_advances s
  unfold fieldValue
  dsimp only
  split
  · exact (Verbatim.block_accounts kind header below).mono (fun _ => id) (fun _ => id)
      fun _ _ hn => hn.mono ha.pos_le_next
  · exact (value_accounts (ha.trans hb)).mono (fun _ => id) (fun _ => id)
      fun _ _ hn => hn.mono hb.pos_le

theorem parameter_accounts (kind : BlockKind) (header : Line) (below : List Line) :
    AccountsItem kind header below below (IsItem header below header.bodyStart)
      (parameter header) := by
  refine .onLine (Brings.bind ((identifier_brings _ _).onItem (.refl _)) fun ⟨name, s⟩ hn => ?_)
  have ha := hn.advances
  refine Brings.bind ((description?_brings s).onItem ha) fun ⟨description, last⟩ ⟨hlast, hd⟩ => ?_
  have hparts : header.scan.PhrasesAll ((some .name, name) :: _, last) :=
    .cons hn nofun (described_phrases hlast hd)
  refine Brings.bind ((finish_brings last).onItem hparts.advances) fun _ _ => ?_
  have hall : AreParts header below .parameter header.bodyStart .none _ :=
    .headings (.refl _) hparts rfl (.nil hparts.advances)
  rw [List.append_nil] at hall
  exact hall.whole (Nat.le_refl _) nofun

variable (hb : AccountsBlocks kind header below block)

include hb

theorem parameters_accounts (hk : kind.holds .parameters = true) :
    AccountsItem kind header below below (IsValue header below header.bodyStart)
      (parameters block header) := by
  refine .hasBlock_bind (fun _ _ _ hi h => h.behind_idle hi) fun has => ?_
  split
  · refine (hb.under hk).bind fun trail left items _ hi => .node ?_
    have hall : AreParts header below .parameters header.bodyStart trail items :=
      .ofBlock hi (Nat.le_refl _) header.bodyStart_le_next (.inl rfl)
    have hn := hall.whole (Nat.le_refl _) nofun
    exact ⟨hn, hi.deeper, .held (.inl rfl) (hn.begins.resolve_left nofun)⟩
  · exact .fail header.faults_trimmedStop.onItem

theorem declaration_accounts {owner : Kind} (hk : kind.holds (.declaration owner) = true)
    (ho : owner.ownsItems = true) (ha : header.scan.Advances s) :
    AccountsItem kind header below below (IsItem header below header.bodyStart)
      (declaration block header owner s) := by
  refine .onLine_bind ((identifier_brings _ s).onItem ha) fun ⟨name, s'⟩ hn => ?_
  refine .onLine_bind ((description?_brings s').onItem (ha.trans hn.advances))
    fun ⟨description, last⟩ ⟨hlast, hd⟩ => ?_
  have hparts : s.PhrasesAll ((some .name, name) :: _, last) :=
    .cons hn nofun (described_phrases hlast hd)
  have hnone : repeatedFields Node.span [] ((some Field.name, name) ::
      description.toList.map (fun node => (some Field.description, node)) ++ []) = [] := by
    cases description <;> rfl
  have hlast := ha.trans hparts.advances
  have hstop := hlast.trans (skipBlanks_advances last)
  dsimp only
  generalize (some Field.name, name) ::
    description.toList.map (fun node => (some Field.description, node)) = parts at hparts hnone ⊢
  have hnode {trail : Trail} {items : List Child}
      (hi : AreParts header below owner last.pos trail items) :
      (Node.spanning owner header.bodyStart last.skipBlanks.pos (parts ++ items)).IsItem header
        below header.bodyStart trail := by
    have hall := AreParts.headings ha hparts (Kind.listsItems_of_ownsItems ho) hi
    exact (hall.mono ha.pos_le).around (.refl _) hstop (Kind.ne_raw_of_ownsItems ho)
  have hempty {left : List Line} : AccountsItem kind header below left
      (IsItem header below header.bodyStart) (do
        LineReader.note (repeatedFields (← Builder.spans) [] (parts ++ []))
        Builder.spanning owner header.bodyStart last.skipBlanks.pos (parts ++ [])) := by
    refine check_accounts (hnode (.nil hlast)) ?_
    rw [hnone]
    exact List.forall_mem_nil _
  split
  · rename_i rest hr
    refine .onLine_bind ((finish_brings rest).onItem (hstop.trans (eat?_reads hr).advances))
      fun _ _ => .hasBlock_bind (fun _ _ _ hi h => h.behind_idle hi) fun has => ?_
    split
    · refine (hb.under hk).bind fun trail left items hl hi => ?_
      exact check_accounts (hnode (.ofBlock hi (Nat.le_refl _) hlast.pos_le_next (.inr ho)))
        (notes_of_isBlock rfl ha hparts hl hi)
    · exact .pure_bind hempty
  · exact .onLine_bind ((finish_brings _).onItem hstop) fun _ _ => .pure_bind hempty

omit hb in
theorem nested_ownsItems (owner : Kind) : ∀ entry ∈ nested owner, entry.2.ownsItems = true := by
  cases owner <;> decide

theorem declarationItem_accounts {owner : Kind} (hk : kind = .declaration owner) :
    AccountsItem kind header below below (IsChild header below)
      (declarationItem block header owner) := by
  have hstart := Advances.refl header.scan
  unfold declarationItem
  dsimp only
  split
  · rename_i rest hr
    have ha := (eatWord?_advances hr).trans (skipBlanks_advances rest)
    split
    · rename_i last hlast
      have ha := ha.trans (eat?_reads hlast).advances
      exact AccountsItem.field (fieldValue_accounts ha) ha.pos_le _
    · exact .fail (ha.faults_point.onItem hstart)
  · split
    · rename_i hf
      obtain ⟨⟨keyword, inner⟩, hmem, hm⟩ := List.exists_of_findSome?_eq_some hf
      obtain ⟨_, hr, he⟩ := Option.map_eq_some_iff.1 hm
      obtain ⟨rfl, rfl⟩ := Prod.mk.inj he
      have hholds : kind.holds (.declaration inner) = true := by
        rw [hk]
        exact List.any_eq_true.2 ⟨_, hmem, beq_self_eq_true _⟩
      exact AccountsItem.child
        (declaration_accounts hb hholds (nested_ownsItems owner _ hmem) (eatWord?_advances hr))
    · exact .fail (hstart.faults_rest.onItem hstart)

omit hb in
theorem commandTitle_brings (s : Scan) :
    Brings s.Faults (fun title => ∃ last, s.PhrasesAll (title, last))
      (match s.eat? [':'] with
      | some rest => do
        rest.finish
        return []
      | none => do
        let (title, rest) ← basic s
        rest.blockColon
        return [(some Field.title, title)]) := by
  split
  · rename_i rest hr
    have ha := (eat?_reads hr).advances
    exact ((finish_brings rest).behind ha).bind fun _ _ => ⟨rest, .nil ha⟩
  · refine (basic_brings s).bind fun ⟨title, rest⟩ ht => ?_
    exact ((blockColon_brings rest).behind ht.advances).bind fun _ _ => ⟨rest, .single ht nofun⟩

theorem command_accounts (hk : kind.holds .command = true) (ha : header.scan.Advances s) :
    AccountsItem kind header below below (IsItem header below header.bodyStart)
      (command block header s) := by
  have ha := ha.trans (skipBlanks_advances s)
  unfold command
  refine .onLine_bind ((commandTitle_brings _).onItem ha) fun title ⟨last, ht⟩ =>
    .hasBlock_bind (fun _ _ _ hi h => h.behind_idle hi) fun has => ?_
  split
  · refine (hb.under hk).bind fun trail left items hl hi => .spans_bind ?_
    refine .note_bind (notes_of_isBlock rfl ha ht hl hi) ?_
    split
    · exact .fail header.faults_trimmed.onItem
    · split
      · exact .fail header.faults_trimmed.onItem
      · have hlo := (ha.trans ht.advances).pos_le_next
        have hall : AreParts header below .commandDeclaration _ trail (title ++ items) :=
          .headings ha ht rfl (.ofBlock hi (Nat.le_refl _) hlo (.inr rfl))
        refine .onLine ?_
        rw [Trail.append_none]
        exact (hall.whole ha.pos_le nofun).noting _
  · exact .fail header.faults_trimmedStop.onItem

theorem commandItem_accounts (hk : kind = .command) :
    AccountsItem kind header below below (IsChild header below) (commandItem block header) := by
  have hstart := Advances.refl header.scan
  unfold commandItem
  dsimp only
  split
  · rename_i rest hr
    have ha := (eatWord?_advances hr).trans (skipBlanks_advances rest)
    split
    · rename_i last hlast
      have ha := ha.trans (eat?_reads hlast).advances
      exact AccountsItem.field (fieldValue_accounts ha) ha.pos_le _
    · exact .fail (ha.faults_point.onItem hstart)
  · split
    · rename_i rest hr
      refine .onLine_bind ((blockColon_brings rest).onItem (eatWord?_advances hr)) fun _ _ => ?_
      exact AccountsItem.field (parameters_accounts hb (hk ▸ rfl)) (Nat.le_refl _) _
    · split
      · rename_i rest hr
        refine .onLine_bind ((blockColon_brings rest).onItem (eatWord?_advances hr)) fun _ _ => ?_
        exact AccountsItem.field (Verbatim.block_accounts kind header below)
          header.bodyStart_le_next _
      · exact .fail (hstart.faults_rest.onItem hstart)

omit hb in
theorem archiveField?_advances {rest : Scan} {field : Field}
    (hf : archiveField? s = some (field, rest)) : s.Advances rest := by
  unfold archiveField? at hf
  simp only [Option.bind_eq_bind, Option.bind_eq_some_iff] at hf
  obtain ⟨⟨word, after⟩, hw, found, _, last, hl, hp⟩ := hf
  obtain ⟨rfl, rfl⟩ := Prod.mk.inj (Option.some.inj hp)
  exact ((nameOf?_reads hw).advances.trans (skipBlanks_advances after)).trans
    (eat?_reads hl).advances

theorem metadataItem_accounts (hk : kind = .metadata) :
    AccountsItem kind header below below (IsChild header below) (metadataItem block header) := by
  have hstart := Advances.refl header.scan
  unfold metadataItem
  dsimp only
  split
  · rename_i hr
    exact AccountsItem.child (declaration_accounts hb (hk ▸ rfl) rfl (eatWord?_advances hr))
  · split
    · rename_i hr
      exact AccountsItem.child (command_accounts hb (hk ▸ rfl) (eatWord?_advances hr))
    · split
      · rename_i hf
        have ha := archiveField?_advances hf
        exact AccountsItem.field (fieldValue_accounts ha) ha.pos_le _
      · exact .fail (hstart.faults_rest.onItem hstart)

theorem metadata_accounts (hk : kind.holds .metadata = true) (ha : header.scan.Advances s)
    {connection : Node} {last : Scan} (hn : s.Phrases (connection, last)) :
    AccountsItem kind header below below (IsItem header below header.bodyStart)
      (metadata block header connection) := by
  refine .hasBlock_bind (fun _ _ _ hi h => h.behind_idle hi) fun has => ?_
  split
  · refine (hb.under hk).bind fun trail left items hl hi => ?_
    have hparts : s.PhrasesAll ([(some .connection, connection)], last) := .single hn nofun
    have hlo := (ha.trans hn.advances).pos_le_next
    have hall : AreParts header below .siardMetadata s.pos trail
        ((some .connection, connection) :: items) :=
      .headings ha hparts rfl (.ofBlock hi (Nat.le_refl _) hlo (.inr rfl))
    exact check_accounts (hall.whole ha.pos_le nofun) (notes_of_isBlock rfl ha hparts hl hi)
  · exact .fail header.faults_trimmedStop.onItem

end Declaration

end ArchiveScript
