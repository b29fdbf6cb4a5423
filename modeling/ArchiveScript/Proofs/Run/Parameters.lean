import ArchiveScript.Proofs.Run.Ensures
import ArchiveScript.Proofs.Run.Recursion

/-! # What a parameter list comes to

A parameter list comes to an entry for each of its parameters, with its name. The value that the
parameter is bound to is not in the entry.
-/

namespace ArchiveScript.Run

open Eval

variable {η κ : Type} (settings : Settings)

def parameterName (parameter : Child) : String :=
  ((parameter.2.field? .name).map Node.text).getD ""

def parameterNames (list : Node) : List String := list.children.map parameterName

theorem parameterName_eq {parameter : Child} {child : Node}
    (h : parameter.2.field? .name = some child) : parameterName parameter = child.text := by
  rw [parameterName, h]
  rfl

theorem bindParameter_leaf (parameter : Child) :
    Gives (fun entry => ∃ description,
        entry = .leaf .parameter (parameterName parameter) description)
      (bindParameter settings parameter.2 : Eval η κ (Outline CommandKind)) := by
  unfold bindParameter
  split
  · refine (Gives.need _ _).bind fun child hc => ?_
    rw [parameterName_eq hc]
    refine (Ensures.identifier (P := (· = child.text)) (fun _ => rfl) fun _ => trivial).bind ?_
    rintro name rfl
    dsimp only
    split
    · exact Gives.seq fun _ => .pure ⟨_, rfl⟩
    · exact Gives.seq fun _ => .pure ⟨_, rfl⟩
  · exact .failAt trivial

theorem bindParameters_leaves (list : List Child) :
    Gives (fun entries => ∃ described : List (String × String),
        entries = described.map (fun entry => .leaf .parameter entry.1 entry.2) ∧
          described.map Prod.fst = list.map parameterName)
      (bindParameters settings list : Eval η κ (List (Outline CommandKind))) := by
  induction list with
  | nil => exact .pure ⟨[], rfl, rfl⟩
  | cons parameter rest ih =>
    rw [bindParameters_cons]
    refine (bindParameter_leaf settings parameter).bind fun entry he => ih.bind fun entries hs => ?_
    obtain ⟨description, rfl⟩ := he
    obtain ⟨described, rfl, hn⟩ := hs
    refine .pure ⟨(parameterName parameter, description) :: described, rfl, ?_⟩
    rw [List.map_cons, List.map_cons, hn]

end ArchiveScript.Run
