import ArchiveScript.Proofs.Script.Yields
import ArchiveScript.Script.Parse

/-! # Blocks of trees

The items of a block are read one after the other. An item that cannot be read is passed over, so a
block can always be read.
-/

namespace ArchiveScript

/-- The item at the head of a block, or the complaint that it stands at another margin than the
items before it. -/
def headItem (block : BlockReader Reader Node) (expected : Option Nat) (kind : BlockKind)
    (line : Line) : Reader Child :=
  if line.indent = expected.getD line.indent then blockItem block kind line
  else Builder.fail .inconsistentIndentation (.between line.start line.stop)

/-- Goes on with the items after one that has been read, or behind one that could not be. -/
def proceed (items : Reader (List Child)) (behind : List Line) (passage : Passage Child) :
    Passage (List Child) :=
  match passage.outcome with
  | .ok child =>
    let after := items passage.left
    ⟨after.outcome.map (child :: ·), passage.noted ++ after.noted, after.left⟩
  | .error mistake =>
    let after := items behind
    ⟨after.outcome, passage.noted ++ mistake :: after.noted, after.left⟩

/-- What a block does after it has come to an item. -/
theorem run_item (rest behind lines : List Line) (item : Reader Child)
    (items : Reader (List Child)) (next : Except Mistake Child → Reader (List Child))
    (hok : ∀ child, next (.ok child) = (do return child :: (← items)))
    (herror : ∀ mistake, next (.error mistake) = (do
      LineReader.note [mistake]
      LineReader.goto behind
      items)) :
    (LineReader.goto rest >>= fun _ => LineReader.attempt item >>= next) lines =
      proceed items behind (item rest) := by
  have hgoto (f : Unit → Reader (List Child)) (left : List Line) :
      (LineReader.goto left >>= f) lines = f () left := rfl
  unfold proceed
  rw [hgoto, Reader.run_bind, Reader.run_attempt]
  cases (item rest).outcome with
  | error mistake =>
    dsimp only
    rw [herror]
    rfl
  | ok child =>
    dsimp only
    rw [hok, Reader.run_bind]
    cases (items (item rest).left).outcome with
    | error mistake => rfl
    | ok others =>
      have hnoted (noted noted' : List Mistake) : noted ++ (noted' ++ []) = noted ++ noted' := by
        rw [List.append_nil]
      exact congrArg (Passage.mk _ · _) (hnoted _ _)

theorem blockItems_succ (fuel : Nat) (expected parent : Option Nat) (kind : BlockKind)
    (lines : List Line) :
    blockItems (r := Reader) (fuel + 1) expected parent kind lines =
      match lines.dropWhile Line.isIdle with
      | [] => ⟨.ok [], [], []⟩
      | line :: rest =>
        if parent.any (line.indent ≤ ·) then ⟨.ok [], [], line :: rest⟩
        else proceed (blockItems fuel (some (expected.getD line.indent)) parent kind)
          (recover line.indent rest)
          (headItem (blockItems fuel none) expected kind line rest) := by
  conv => lhs; unfold blockItems
  change (match lines.dropWhile Line.isIdle with
      | [] => (pure [] : Reader (List Child))
      | line :: rest => _) (lines.dropWhile Line.isIdle) = _
  cases lines.dropWhile Line.isIdle with
  | nil => rfl
  | cons line rest =>
    dsimp only
    split
    · rfl
    · exact run_item rest (recover line.indent rest) (line :: rest)
        (headItem (blockItems fuel none) expected kind line)
        (blockItems fuel (some (expected.getD line.indent)) parent kind) _ (fun _ => rfl)
        fun _ => rfl

/-- The items of a block can always be read, because one that cannot is passed over. -/
theorem blockItems_ok (fuel : Nat) (expected parent : Option Nat) (kind : BlockKind)
    (lines : List Line) :
    ∃ items, (blockItems (r := Reader) fuel expected parent kind lines).outcome = .ok items := by
  induction fuel generalizing expected lines with
  | zero => exact ⟨[], rfl⟩
  | succ fuel ih =>
    rw [blockItems_succ]
    split
    · exact ⟨[], rfl⟩
    · split
      · exact ⟨[], rfl⟩
      · rename_i line rest _ _
        unfold proceed
        split
        · rename_i child _
          obtain ⟨items, hi⟩ := ih (some (expected.getD line.indent))
            (headItem (blockItems fuel none) expected kind line rest).left
          exact ⟨child :: items, congrArg (Except.map (child :: ·)) hi⟩
        · exact ih _ _

def topItems (lines : List Line) : Passage (List Child) :=
  blockItems (r := Reader) (lines.length + 1) none none .topLevel lines

theorem run_sourceFile {source : List Char} {lines : List Line} {items : List Child}
    (h : (topItems lines).outcome = .ok items) :
    sourceFile (r := Reader) source lines =
      ⟨.ok (.spanning .sourceFile 0 (Text.bytes source) items), (topItems lines).noted,
        (topItems lines).left⟩ := by
  have hpeek (f : List Line → Reader Node) : (LineReader.peek >>= f) lines = f lines lines := rfl
  unfold sourceFile
  rw [hpeek, Reader.run_bind]
  unfold topItems at h ⊢
  rw [h]
  exact congrArg (Passage.mk _ · _) (List.append_nil _)

end ArchiveScript
