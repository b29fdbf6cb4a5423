import Mathlib
import ArchiveScript.Proofs.Script.BlockAccounts

/-! # Trees of scripts

Whatever mistakes are in a script, the spans of its tree nest. The tree of a script without mistakes
accounts for all of its lines.
-/

namespace ArchiveScript

theorem parse_lies {source : List Char} (hs : Text.bytes source ≤ Span.maxOffset) :
    (parse source).tree.Lies source 0 (Text.bytes source) := by
  have hstart : Text.Boundary source 0 := ⟨[], source, rfl, rfl⟩
  have hstop : Text.Boundary source (Text.bytes source) := ⟨source, [], by simp, rfl⟩
  have hfollow := Line.split_follow source
  obtain ⟨items, htree, hitems, -⟩ := parse_accounts source
  have hlast : (Line.endOf 0 (Line.split source)) ≤ Text.bytes source := by
    rw [← List.append_nil (Line.split source)] at hfollow
    exact hfollow.right.le
  rw [htree]
  exact Node.lies_spanning hs .sourceFile hstart hstop (Nat.zero_le _) (Nat.le_refl _)
    ((hitems.lies source 0 hs hfollow).mono (Nat.le_refl _) hlast)

/-- Whatever mistakes are in a script, every span of its tree begins and ends with a character of
the source, is inside that of the parent and comes after those of the siblings before it. In the
arena that the tree stands in, children come before their parents and every node has one parent but
the root, which has none. -/
theorem spans_nest (source : List Char) (h : Text.bytes source < 2 ^ 32) :
    (∀ node, (parse source).tree.Reaches node → node.SpanFits source) ∧
      Arena.Rooted (draft source).entries (draft source).root ∧
      (Arena.nodes (Draft.text source) (draft source).entries)[(draft source).root]? =
        some (parse source).tree := by
  refine ⟨(parse_lies (Nat.le_of_lt_succ h)).fits, draft_rooted source, ?_⟩
  obtain ⟨tree, left, hr, hh⟩ := draft_holds source
  obtain ⟨_, hp⟩ := parse_reads source
  obtain rfl : tree = (parse source).tree :=
    Except.ok.inj (congrArg Passage.outcome (hr.symm.trans hp))
  exact hh.found _ List.mem_cons_self

def wideScript : List Char := "Set = 1\nLog \"é\"\n".toList

theorem spans_nest_wide_script :
    (parse wideScript).mistakes.length = 1 ∧ Text.bytes wideScript < 2 ^ 32 ∧
      (∀ node, (parse wideScript).tree.Reaches node → node.SpanFits wideScript) ∧
      Arena.Rooted (draft wideScript).entries (draft wideScript).root ∧
      (Arena.nodes (Draft.text wideScript)
        (draft wideScript).entries)[(draft wideScript).root]? = some (parse wideScript).tree :=
  ⟨by cbv, by decide, spans_nest wideScript (by decide)⟩

end ArchiveScript
