import Mathlib.Algebra.BigOperators.Group.Finset.Basic
import Mathlib.Algebra.Order.BigOperators.Group.Finset
import Mathlib.Data.Fintype.Fin
import Mathlib.Tactic.Common
import SecureMessaging.Lib.Runs

variable {σ ε ω : Type*} {step : σ → ε → ω → σ → Prop} {start s : σ} {trace : List (ε × ω)}

/-- No step is possible. -/
def Quiescent (step : σ → ε → ω → σ → Prop) (s : σ) : Prop := ∀ e out s', ¬step s e out s'

namespace Run

/-- A run is no longer than what its steps use up of a measure. -/
theorem length_le {P : σ → Prop} {μ : σ → Nat} (init : P start)
    (less : ∀ {s e out s'}, P s → step s e out s' → P s' ∧ μ s' < μ s) (run : Run step start trace s) :
    P s ∧ trace.length + μ s ≤ μ start := by
  induction run with
  | init => exact ⟨init, by simp⟩
  | next _ h ih =>
    obtain ⟨hP, hlength⟩ := ih
    obtain ⟨hP', hless⟩ := less hP h
    refine ⟨hP', ?_⟩
    rw [List.length_append, List.length_singleton]
    omega

/-- With a measure that every step uses up, each state leads to one where nothing is possible any more. -/
theorem exists_quiescent {P : σ → Prop} {μ : σ → Nat}
    (less : ∀ {s e out s'}, P s → step s e out s' → P s' ∧ μ s' < μ s) (start : σ) (init : P start) :
    ∃ trace s, Run step start trace s ∧ Quiescent step s := by
  induction hμ : μ start using Nat.strongRecOn generalizing start with
  | ind n ih =>
    by_cases hquiet : Quiescent step start
    · exact ⟨[], start, .init, hquiet⟩
    · simp only [Quiescent, not_forall, not_not] at hquiet
      obtain ⟨e, out, next, hstep⟩ := hquiet
      obtain ⟨hP, hless⟩ := less init hstep
      have hlt : μ next < n := by
        rw [← hμ]
        exact hless
      obtain ⟨trace, s, run, hs⟩ := ih (μ next) hlt next hP rfl
      exact ⟨(e, out) :: trace, s, run.cons hstep, hs⟩

end Run

/-- A family of counts that changes at one place changes its sum by as much. -/
theorem sum_update {ι : Type*} [Fintype ι] [DecidableEq ι] (f : ι → Nat) (i : ι) (count : Nat) :
    ∑ k, Function.update f i count k + f i = ∑ k, f k + count := by
  have hsame : ∑ k ∈ Finset.univ.erase i, Function.update f i count k = ∑ k ∈ Finset.univ.erase i, f k := by
    refine Finset.sum_congr rfl ?_
    intro k hk
    exact Function.update_of_ne (Finset.ne_of_mem_erase hk) count f
  have hafter := Finset.add_sum_erase Finset.univ (Function.update f i count) (Finset.mem_univ i)
  have hbefore := Finset.add_sum_erase Finset.univ f (Finset.mem_univ i)
  rw [hsame, Function.update_self] at hafter
  omega
