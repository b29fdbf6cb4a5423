import ArchiveScript.Script.Reader

/-! # What readers come back with

A reader yields something that satisfies a condition if all that it reads satisfies it, whatever
the text is. Of a reading that ends with a mistake nothing is said.
-/

namespace ArchiveScript

variable {α β : Type} {P : α → Prop} {Q : β → Prop}

/-- What was read on a line, if it could be read, satisfies `P`. -/
def Finds (P : α → Prop) (outcome : Except Mistake α) : Prop := ∀ a, outcome = .ok a → P a

namespace Finds

theorem ok {a : α} (h : P a) : Finds P (.ok a) := by
  intro b hb
  obtain rfl := Except.ok.inj hb
  exact h

theorem error (mistake : Mistake) : Finds P (.error mistake) := fun _ h => nomatch h

theorem bind {outcome : Except Mistake α} {f : α → Except Mistake β} (ho : Finds P outcome)
    (hf : ∀ a, P a → Finds Q (f a)) : Finds Q (outcome >>= f) := by
  cases outcome with
  | error mistake => exact error mistake
  | ok a => exact hf a (ho a rfl)

theorem mono {P' : α → Prop} {outcome : Except Mistake α} (ho : Finds P outcome)
    (h : ∀ a, P a → P' a) : Finds P' outcome :=
  fun a ha => h a (ho a ha)

theorem map {outcome : Except Mistake α} {f : α → β} (ho : Finds P outcome)
    (hf : ∀ a, P a → Q (f a)) : Finds Q (outcome.map f) := by
  cases outcome with
  | error mistake => exact error mistake
  | ok a => exact ok (hf a (ho a rfl))

end Finds

/-- What was read on a line satisfies `P`, and a mistake that there is instead satisfies `F`. -/
def Brings (F : Mistake → Prop) (P : α → Prop) : Except Mistake α → Prop
  | .ok a => P a
  | .error mistake => F mistake

namespace Brings

variable {F : Mistake → Prop}

theorem fail {complaint : Complaint} {span : Span} (h : F ⟨complaint, span⟩) :
    Brings F P (Builder.fail complaint span) :=
  h

theorem bind {outcome : Except Mistake α} {f : α → Except Mistake β} (ho : Brings F P outcome)
    (hf : ∀ a, P a → Brings F Q (f a)) : Brings F Q (outcome >>= f) := by
  cases outcome with
  | error mistake => exact ho
  | ok a => exact hf a ho

theorem mono {F' : Mistake → Prop} {P' : α → Prop} {outcome : Except Mistake α}
    (ho : Brings F P outcome) (hF : ∀ mistake, F mistake → F' mistake) (hP : ∀ a, P a → P' a) :
    Brings F' P' outcome := by
  cases outcome with
  | error mistake => exact hF mistake ho
  | ok a => exact hP a ho

theorem finds {outcome : Except Mistake α} (ho : Brings F P outcome) : Finds P outcome := by
  rintro a rfl
  exact ho

end Brings

namespace Reader

theorem run_bind (reader : Reader α) (f : α → Reader β) (lines : List Line) :
    (reader >>= f) lines =
      match (reader lines).outcome with
      | .ok a =>
        let after := f a (reader lines).left
        ⟨after.outcome, (reader lines).noted ++ after.noted, after.left⟩
      | .error mistake => ⟨.error mistake, (reader lines).noted, (reader lines).left⟩ := rfl

theorem run_attempt (reader : Reader α) (lines : List Line) :
    (LineReader.attempt reader : Reader (Except Mistake α)) lines =
      match (reader lines).outcome with
      | .ok a => ⟨.ok (.ok a), (reader lines).noted, (reader lines).left⟩
      | .error mistake => ⟨.ok (.error mistake), (reader lines).noted, lines⟩ := rfl

end Reader

end ArchiveScript
