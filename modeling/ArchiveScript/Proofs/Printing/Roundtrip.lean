import Mathlib
import ArchiveScript.Proofs.Printing.Singles
import ArchiveScript.Proofs.Run.Assignment

/-! # Parsing what was printed

A document that is printed in any layout is parsed without mistakes, and the tree that comes out
is the tree of the document.
-/

namespace ArchiveScript.Printing

open Node

theorem TopItem.fits (item : TopItem) (layout : Layout) (number : Nat) :
    (item.item layout number).Fits .topLevel layout.margin := by
  cases item with
  | stmt statement => exact (statement.prints layout number).fits rfl
  | parameters list =>
    refine ⟨.of_part rfl, fun _ _ => rfl, (by decide : OneLine "Parameters:".toList),
      list.lines_oneLine, fun header lines after fuel hg hh hs hf ha => ?_⟩
    have hb := Below.inside number hg ha.ends
    rw [blockItem, Statement.statement, Line.scan, hh]
    exact .bind (.inline_bind rfl (parameters_print hb list hs hf)) (.pure _)

theorem Document.items_fit (document : Document) (layout : Layout) :
    ∀ item ∈ numbered (TopItem.item layout) 0 document, item.Fits .topLevel layout.margin :=
  forall_mem_numbered (fun number item _ => TopItem.fits item layout number) 0

theorem reads_print (layout : Layout) (document : Document) :
    ReadsAs (document.print layout) document.tree := by
  have hi := document.items_fit layout
  have hs : Shown _ (Line.split (document.print layout)) := split_shown (linesOf_oneLine hi)
  have ht : Takes
      (blockItems ((Line.split (document.print layout)).length + 1) none none .topLevel)
      (Line.split (document.print layout) ++ []) []
      ((numbered (TopItem.item layout) 0 document).map Item.child) :=
    blockItems_print (layout.blank []) hi (fun n hn => by cases hn) rfl hs (Nat.lt_succ_self _)
      (fun line hl => by cases hl)
  rw [List.append_nil, map_child_numbered TopItem.child fun _ _ => rfl] at ht
  exact reads_takes ht

/-- Parsing inverts printing: the text of a document is read without mistakes as the tree of the
document, if it is in reach of spans. -/
theorem parse_print (layout : Layout) (document : Document)
    (hsize : Text.bytes (document.print layout) < 2 ^ 32) :
    (parse (document.print layout)).mistakes = [] ∧
      (parse (document.print layout)).tree.bare = document.tree :=
  (reads_print layout document).in_reach (Nat.le_of_lt_succ hsize)

/-- A conditional inside of another one, whose other branch is that of the outer one. -/
def nestedDocument : Document :=
  [.stmt (.alternative
    ⟨.name ⟨'a', [], rfl, nofun⟩, ['<'], by decide, .name ⟨'b', [], rfl, nofun⟩⟩
    (.one (.conditional
      ⟨.name ⟨'b', [], rfl, nofun⟩, ['<'], by decide, .name ⟨'c', [], rfl, nofun⟩⟩
      (.one (.simple .nop))))
    (.one (.simple .nop)))]

theorem parse_print_nested :
    let source := "If a < b:\n  If b < c:\n    Nop\nElse:\n  Nop\n".toList
    nestedDocument.print (.uniform 2 (by decide)) = source ∧ (parse source).mistakes = [] ∧
      (parse source).tree.bare = nestedDocument.tree := by
  have hp : nestedDocument.print (.uniform 2 (by decide)) =
      "If a < b:\n  If b < c:\n    Nop\nElse:\n  Nop\n".toList := rfl
  have hs := parse_print (.uniform 2 (by decide)) nestedDocument (by rw [hp]; decide)
  exact ⟨hp, hp ▸ hs⟩

def numberDocument (count : Nat) : Document :=
  [.stmt (.simple (.set ⟨'x', [], rfl, nofun⟩ (.basic (.integer false (longNumber count)))))]

theorem printed_number_lost {count : Nat} (h : Span.maxOffset ≤ count) (layout : Layout) :
    let document := numberDocument count
    (parse (document.print layout)).mistakes = [] ∧
      (parse (document.print layout)).tree.bare ≠ document.tree := by
  intro document
  obtain ⟨hm, hf⟩ := (reads_print layout document).fades
  obtain ⟨root, line, place, shown, child, hp, hchild⟩ :=
    @Run.exists_of_fades_assignment _ (.terminal .integer (longNumber count).print)
      ⟨'x', [], rfl, nofun⟩ _ hf
  obtain ⟨span, rfl⟩ := hchild.lost (.of_bytes (bytes_longNumber h))
  refine ⟨hm, fun hb => ?_⟩
  have ht := congrArg (fun node => (node.first?.bind (field? · .value)).map text) hb
  rw [hp] at ht
  change some "" = some (String.ofList (longNumber count).print) at ht
  have hl : [] = (longNumber count).print :=
    (congrArg String.toList (Option.some.inj ht)).trans String.toList_ofList
  cases hl

/-- A number that is too long for a span is lost. -/
theorem printed_text_lost :
    let layout := Layout.uniform 2 (by decide)
    let document := numberDocument Span.maxOffset
    (parse (document.print layout)).mistakes = [] ∧
      (parse (document.print layout)).tree.bare ≠ document.tree :=
  printed_number_lost (Nat.le_refl _) _

end ArchiveScript.Printing
