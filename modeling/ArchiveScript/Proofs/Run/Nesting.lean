import Mathlib
import ArchiveScript.Proofs.Run.Items
import ArchiveScript.Proofs.Run.Parameters
import ArchiveScript.Proofs.Script.Nesting
import ArchiveScript.Run.Rehearsal

/-! # The nesting of what is declared

A run declares its archives as the script nests them. Because only nested declarations are read,
all archives that a script declares are nested, and each of its commands has one text.
-/

namespace ArchiveScript

open Grammar

/-- What an item of a metadata block declares may stand below the root, or is a command. -/
def LedgerEntry.Nests : LedgerEntry → Prop
  | archive outline => outline.kind ∈ ArchiveKind.metadata.below ∧ outline.Nests
  | command outline => outline.IsCommand

def Declarable.Nests : Declarable → Prop
  | info _ _ | command _ => True
  | schema node => DeclaresNested .schema node

/-- Every archive has a root with nested entries, and every command is one. -/
def Ledger.Nests (ledger : Ledger) : Prop :=
  ∀ name, (∀ root, ledger.archive? name = some root → root.kind = .metadata ∧ root.Nests) ∧
    ∀ command ∈ ledger.commands name, command.IsCommand

namespace Ledger.Nests

theorem empty : Ledger.empty.Nests := fun _ => ⟨nofun, nofun⟩

theorem update {ledger : Ledger} (h : ledger.Nests) (connection : String) {f : Declared → Declared}
    (hf : ∀ declared, declared.archive.kind = .metadata → declared.archive.Nests →
      (∀ command ∈ declared.commands, command.IsCommand) →
      (f declared).archive.kind = .metadata ∧ (f declared).archive.Nests ∧
        ∀ command ∈ (f declared).commands, command.IsCommand) :
    (ledger.update connection f).Nests := by
  intro name
  rw [archive?, commands, get?_update]
  by_cases hn : name = connection
  · have hd : ((ledger.get? connection).getD .nothing).archive.kind = .metadata ∧
        ((ledger.get? connection).getD .nothing).archive.Nests ∧
        ∀ command ∈ ((ledger.get? connection).getD .nothing).commands, command.IsCommand := by
      have hc := h connection
      rw [archive?, commands] at hc
      cases hg : ledger.get? connection with
      | none => exact ⟨rfl, .leaf _ _ _, nofun⟩
      | some declared =>
        rw [hg] at hc
        exact ⟨(hc.1 _ rfl).1, (hc.1 _ rfl).2, hc.2⟩
    obtain ⟨hk, ha, hc⟩ := hf _ hd.1 hd.2.1 hd.2.2
    rw [if_pos hn]
    refine ⟨fun root hr => ?_, hc⟩
    obtain rfl := Option.some.inj hr
    exact ⟨hk, ha⟩
  · rw [if_neg hn]
    exact h name

theorem touch {ledger : Ledger} (h : ledger.Nests) (connection : String) :
    (ledger.touch connection).Nests :=
  h.update connection fun _ hk ha hc => ⟨hk, ha, hc⟩

theorem enter {ledger : Ledger} (h : ledger.Nests) (connection : String) {entry : LedgerEntry}
    (he : entry.Nests) : (ledger.enter connection entry).Nests := by
  cases entry with
  | archive outline =>
    refine h.update connection fun declared hk ha hc => ⟨?_, ?_, hc⟩
    · exact (declared.archive.kind_push outline).trans hk
    · exact ha.push (hk ▸ he.1) he.2
  | command outline =>
    refine h.update connection fun declared hk ha hc => ⟨hk, ha, fun command hm => ?_⟩
    rcases List.mem_append.1 hm with hm | hm
    · exact hc command hm
    · exact List.mem_singleton.1 hm ▸ he

end Ledger.Nests

namespace Run

open Eval

variable {η κ : Type} [Cursor κ]

/-- A declaration comes to an entry with entries below it that are nested as it is. -/
theorem declaration_nests (scope : Scope) {kind : ArchiveKind} {node : Node}
    (h : DeclaresNested kind node) :
    Gives (fun outline => outline.kind = kind ∧ outline.Nests)
      (declaration scope node : Eval η κ (Outline ArchiveKind)) := by
  induction h with
  | @mk kind node hk hb hn ih =>
    have hm : Gives (fun entries => ∀ entry ∈ entries, entry.kind ∈ kind.below ∧ entry.Nests)
        (Eval.orAt node.span ((node.children.filter fun child =>
          (declarationKind? child.2.kind).isSome).mapM fun child =>
            (declaration scope child.2 : Eval η κ (Outline ArchiveKind)))) := by
      refine Gives.orAt (Ensures.mapM fun child hc => ?_) _
      obtain ⟨hc, hs⟩ := List.mem_filter.1 hc
      obtain ⟨inner, hi⟩ := Option.isSome_iff_exists.1 hs
      exact (ih child hc inner hi).mono fun outline ho => ⟨ho.1 ▸ hb child hc inner hi, ho.2⟩
    have he (name description : String) : Gives
        (fun outline => outline.kind = kind ∧ outline.Nests) (do
          let entries ← Eval.orAt node.span ((node.children.filter fun child =>
            (declarationKind? child.2.kind).isSome).mapM fun child => declaration scope child.2)
          pure (.mk kind name description entries) : Eval η κ (Outline ArchiveKind)) :=
      hm.bind fun entries he => .pure
        ⟨rfl, .mk (fun entry hm => (he entry hm).1) fun entry hm => (he entry hm).2⟩
    rw [declaration_eq, declarationWith, hk]
    refine .seq fun _ => .seq fun _ => ?_
    dsimp only
    split
    · exact .seq fun _ => he _ _
    · split
      · exact .seq fun _ => he _ _
      · exact .seq fun _ => he _ _

variable (settings : Settings)

theorem command_isCommand (node : Node) :
    Gives Outline.IsCommand (command settings node : Eval η κ (Outline CommandKind)) := by
  have hc (title : String) {entries : List (Outline CommandKind)}
      (he : ∃ parameters : List (String × String),
        entries = parameters.map fun parameter => .leaf .parameter parameter.1 parameter.2) :
      Gives Outline.IsCommand (do
        let scope := (← get).scope.command (entries.map Outline.name)
        let body ← raw scope .command (← node.need .body)
        return .mk .command "" title (entries ++ [.leaf .sql "" body.text]) :
          Eval η κ (Outline CommandKind)) := by
    obtain ⟨parameters, rfl⟩ := he
    refine .seq fun _ => .seq fun _ => ?_
    exact .seq fun body => .pure ⟨title, body.text, parameters, rfl⟩
  refine .seq fun _ => .seq fun _ => ?_
  refine .seq fun title => ?_
  dsimp only
  split
  · exact (bindParameters_leaves settings _).bind fun _ ⟨described, he, _⟩ =>
      hc title ⟨described, he⟩
  · exact (Ensures.pure (Q := (· = [])) rfl).bind fun _ he => hc title ⟨[], he⟩

theorem evaluate_nests {item : Declarable} (h : item.Nests) :
    Gives LedgerEntry.Nests (evaluate settings item : Eval η κ LedgerEntry) := by
  cases item with
  | info field value =>
    refine .seq fun _ => .seq fun _ => .pure ?_
    exact ⟨List.mem_cons_self, .leaf _ _ _⟩
  | schema node =>
    refine .seq fun _ => (declaration_nests _ h).bind fun outline ho => .pure ?_
    exact ⟨ho.1 ▸ by decide, ho.2⟩
  | command node => exact (command_isCommand settings node).bind fun _ hc => .pure hc

def KeepsNested (world after : World η κ) : Prop := world.ledger.Nests → after.ledger.Nests

theorem KeepsNested.admits : Admits (KeepsNested : World η κ → World η κ → Prop) :=
  .of_ledger (S := fun before after => before.Nests → after.Nests) (fun _ h => h)
    fun hb ha h => ha (hb h)

theorem declareAll_nests (connection : String) {items : List Declarable}
    (h : ∀ item ∈ items, item.Nests) :
    Moves KeepsNested KeepsNested (declareAll settings connection items : Eval η κ Unit) := by
  induction items with
  | nil => exact KeepsNested.admits.pure _
  | cons item rest ih =>
    refine .of_after fun world hw => ?_
    have hq := (evaluate_quiet settings item).after world
    have he := (evaluate_nests settings (h item List.mem_cons_self) world trivial).2
    rw [declareAll, run_bind]
    rcases hr : evaluate settings item world with ⟨_ | entry, between⟩
    · rw [hr] at hq
      exact hq ▸ hw
    · rw [hr] at hq he
      have hb : (between.ledger.enter connection entry).Nests :=
        Ledger.Nests.enter (hq ▸ hw) connection he
      exact (ih fun other ho => h other (List.mem_cons_of_mem item ho)).after
        { between with ledger := between.ledger.enter connection entry } hb

theorem siardMetadata_nests {node : Node}
    (h : ∀ child ∈ node.children, child.2.kind = .siardSchema → DeclaresNested .schema child.2) :
    Moves KeepsNested KeepsNested (siardMetadata settings node : Eval η κ Unit) := by
  have ha : Admits (KeepsNested : World η κ → World η κ → Prop) := KeepsNested.admits
  have hi : ∀ item ∈ node.items, item.Nests := by
    intro item hm
    rcases List.mem_append.1 hm with hm | hm
    · obtain ⟨field, -, hf⟩ := List.mem_filterMap.1 hm
      obtain ⟨value, -, rfl⟩ := Option.map_eq_some_iff.1 hf
      trivial
    · obtain ⟨child, hc, hf⟩ := List.mem_filterMap.1 hm
      unfold Declarable.of? at hf
      split at hf
      · rename_i hk
        cases hf
        exact h child hc hk
      · cases hf
        trivial
      · cases hf
  rw [siardMetadata_eq]
  refine ha.seq (ha.need _ _) fun _ => ha.seq (ha.identifier _) fun connection => ?_
  refine ha.seq (fun world hw => hw.touch connection) fun _ => ?_
  exact declareAll_nests settings connection hi

variable [Host η κ]

theorem statement_nests {node : Node} (h : NestsSchemas node) :
    Moves KeepsNested KeepsNested
      (statementWith settings (block settings) node : Eval η κ Unit) := by
  have ha : Admits (KeepsNested : World η κ → World η κ → Prop) := KeepsNested.admits
  induction h with
  | mk hm hb ih =>
    refine ha.statementWith settings (fun field hf inner hi => ?_) fun hk =>
      siardMetadata_nests settings (hm hk)
    rw [block_eq]
    exact ha.statements settings fun child hc => ih field hf inner hi child hc

/-- However a run of a script ends, every archive that it has declared has a root of information
and schemas, with schemas of types, tables and views, tables of columns, keys and checks, views of
columns, and columns and fields of fields; and every command has its parameters and one text. -/
theorem archives_nest (settings : Settings) (source : List Char) (start : World η κ)
    (name : String) :
    let ledger := (script settings (parse source).tree { start with ledger := .empty }).2.ledger
    (∀ root, ledger.archive? name = some root → root.kind = .metadata ∧ root.Nests) ∧
      ∀ command ∈ ledger.commands name, command.IsCommand := by
  have hs : Moves KeepsNested KeepsNested
      (script settings (parse source).tree : Eval η κ Unit) := by
    rw [script, if_pos (kind_parse source), block_eq]
    exact KeepsNested.admits.statements settings fun child hc =>
      statement_nests settings (parse_nests source child hc)
  exact hs.after { start with ledger := .empty } Ledger.Nests.empty name

/-- A column that stands in a schema is left out, and the one in the table is declared. -/
example :
    let source := "SIARD metadata for c:\n  Schema s:\n    Column a\n    Table t:\n      Column b\n"
    (script ⟨.empty, "/work"⟩ (parse source.toList).tree
      ({ host := {} } : World Rehearsal (FaultyCursor TableCursor))).2.ledger.archive? "c" =
        some (.mk .metadata "" "" [.mk .schema "s" "" [.mk .table "t" ""
          [.leaf .column "b" ""]]]) := by
  cbv

end Run

end ArchiveScript
