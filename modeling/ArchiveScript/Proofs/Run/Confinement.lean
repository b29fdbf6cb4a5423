import ArchiveScript.Proofs.Run.Progress

/-! # Where parameters of commands are seen

While the body of a command is written down, its parameters stand for themselves. No variable ever
holds one of them, so that nothing else in a run meets a parameter.
-/

namespace ArchiveScript.Run

variable {η κ : Type} [Host η κ] {start now : World η κ}

omit [Host η κ] in
theorem Given.kind_ne {value : Value} (h : Given now value) (hp : now.scope.Plain) :
    value.kind ≠ .parameter := by
  rcases h with hk | ⟨connection, rfl, -⟩
  · exact hk.kind_ne hp
  · nofun

theorem Step.plain {next : World η κ} (h : Step now next) (hp : now.scope.Plain) :
    next.scope.Plain := by
  cases h with
  | inside | call | connect => exact hp
  | bind hv hs => exact hp.bind (hv.kind_ne hp) hs
  | unbind hs => exact hp.unbind hs

theorem Steps.plain (h : Steps start now) (hp : start.scope.Plain) : now.scope.Plain := by
  induction h with
  | refl => exact hp
  | tail _ hs ih => exact hs.plain ih

variable [Cursor κ]

/-- What the pieces of a verbatim block come to is known where they are evaluated. -/
theorem Reads.known {scope : Scope} {pieces : List Child} {world after : World η κ}
    {parts : List Part} (h : Reads scope pieces world parts after) :
    ∀ value ∈ plainValues parts ++ safeValues parts, Known scope value := by
  have hknown {piece : Child} {world between : World η κ} {value : Value}
      (hv : interpolated (basic scope) piece.2 world = (.ok value, between)) : Known scope value :=
    ((Evaluates.interpolated Evaluates.basic piece.2).ok hv).2
  induction h with
  | nil => nofun
  | literal _ _ ih => exact ih
  | plain _ hv _ ih =>
    intro value hm
    rcases List.mem_cons.1 hm with rfl | hm
    · exact hknown hv
    · exact ih value hm
  | @safe _ _ _ _ _ parts _ _ hv _ ih =>
    intro value hm
    rw [safeValues_safe, List.mem_append, List.mem_cons] at hm
    rcases hm with hm | rfl | hm
    · exact ih value (List.mem_append_left _ hm)
    · exact hknown hv
    · exact ih value (List.mem_append_right _ hm)

/-- A run never binds a parameter of a command, in no state that it comes to. So whatever it
evaluates with its variables is something else: what it sets variables to, what it logs, compares or
goes through, and what it writes into texts. It does not fail because of a parameter either. -/
theorem parameters_confined (settings : Settings) (tree : Node) (host : η) :
    let start : World η κ := { host }
    let ended := script settings tree start
    Steps start ended.2 ∧
    (∀ visit ∈ scriptVisits settings tree start, Steps start visit.world) ∧
    (∀ now, Steps start now →
      now.scope.Plain ∧
      (∀ node value after, expression settings node now = (.ok value, after) →
        value.kind ≠ .parameter) ∧
      (∀ node (world : World η κ) value after, basic now.scope node world = (.ok value, after) →
        value.kind ≠ .parameter) ∧
      ∀ pieces (world : World η κ) parts after, Reads now.scope pieces world parts after →
        ∀ value ∈ plainValues parts ++ safeValues parts, value.kind ≠ .parameter) ∧
    ∀ failure, ended.1 = .error failure → failure.cause.refusesParameter = false := by
  intro start ended
  have hgoes := GoesOn.script settings tree start .refl
  have hplain : start.scope.Plain := .root
  refine ⟨hgoes.1, Visits.Along.script settings tree start .refl, fun now hn => ?_,
    fun failure hf => ?_⟩
  · have hp := hn.plain hplain
    refine ⟨hp, fun node value after hv => ?_, fun node world value after hv => ?_,
      fun pieces world parts after hr value hv => (hr.known value hv).kind_ne hp⟩
    · obtain ⟨hs, hg⟩ := expression_given hv
      exact hg.kind_ne (hs ▸ hp)
    · exact ((Evaluates.basic node).ok hv).2.kind_ne hp
  · have hfails := hgoes.2
    dsimp only [ended] at hf
    rw [hf] at hfails
    obtain ⟨now, hn, hfair⟩ := hfails
    exact hfair (hn.plain hplain)

end ArchiveScript.Run
