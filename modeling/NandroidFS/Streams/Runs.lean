import Mathlib.Logic.Relation
import Mathlib.Tactic.Common

/-!
# Runs of a relation

What a step preserves a run preserves, a measure that every step lowers bounds every run, and a run
that cannot be infinite can be continued until nothing is possible any more.
-/

namespace NandroidFS

namespace Runs

variable {α : Type} {Step : α → α → Prop} {P : α → Prop} {a b : α}

/-- **The rule for invariants.** -/
theorem invariant (hstep : ∀ a b, P a → Step a b → P b) (ha : P a)
    (hrun : Relation.ReflTransGen Step a b) : P b := by
  induction hrun with
  | refl => exact ha
  | tail _ hs ih => exact hstep _ _ ih hs

/-- A state from which there is no step has no infinite run. -/
theorem acc_of_stuck (h : ∀ b, ¬Step a b) : Acc (fun b a => Step a b) a :=
  Acc.intro _ fun b hb => (h b hb).elim

/-- **The rule for termination.** -/
theorem acc_of_measure (m : α → ℕ) (hstep : ∀ a b, P a → Step a b → P b ∧ m b < m a) (ha : P a) :
    Acc (fun b a => Step a b) a := by
  induction hm : m a using Nat.strongRecOn generalizing a with
  | ind n ih =>
    subst hm
    refine Acc.intro _ fun b hb => ?_
    obtain ⟨hPb, hlt⟩ := hstep a b ha hb
    exact ih (m b) hlt hPb rfl

/-- Where no run is infinite, some run comes to its end. -/
theorem exists_stuck (h : Acc (fun b a => Step a b) a) :
    ∃ b, Relation.ReflTransGen Step a b ∧ ∀ c, ¬Step b c := by
  induction h with
  | intro a _ ih =>
    by_cases hmove : ∃ b, Step a b
    · obtain ⟨b, hb⟩ := hmove
      obtain ⟨c, hrun, hstuck⟩ := ih b hb
      exact ⟨c, hrun.head hb, hstuck⟩
    · exact ⟨a, .refl, fun c hc => hmove ⟨c, hc⟩⟩

end Runs

end NandroidFS
