import SecureMessaging.Lib.Runs

variable {σ ε ω τ δ ν : Type*} {step : σ → ε → ω → σ → Prop} {step' : τ → δ → ν → τ → Prop}

/-- One step of a machine, or none if there is nothing to be seen of it. -/
def StepOrStay (step : τ → δ → ν → τ → Prop) (t : τ) : Option (δ × ν) → τ → Prop
  | some (e, out), t' => step t e out t'
  | none, t' => t' = t

theorem StepOrStay.run {t t' : τ} {seen : Option (δ × ν)} (h : StepOrStay step' t seen t') :
    Run step' t seen.toList t' := by
  cases seen with
  | none =>
    obtain rfl : t' = t := h
    exact .init
  | some entry =>
    obtain ⟨e, out⟩ := entry
    exact .cons h .init

namespace Run

variable {start s : σ} {start' : τ} {trace : List (ε × ω)}

/-- A machine whose steps are matched by runs of another one is simulated by it; the relation sees both
histories. -/
theorem simulate {R : List (ε × ω) → List (δ × ν) → σ → τ → Prop} (init : R [] [] start start')
    (keep : ∀ {trace trace' s t e out s'}, R trace trace' s t → step s e out s' →
      ∃ later t', Run step' t later t' ∧ R (trace ++ [(e, out)]) (trace' ++ later) s' t')
    (run : Run step start trace s) : ∃ trace' t, Run step' start' trace' t ∧ R trace trace' s t := by
  induction run with
  | init => exact ⟨[], start', .init, init⟩
  | next _ h ih =>
    obtain ⟨trace', t, run', hR⟩ := ih
    obtain ⟨later, t', hlater, hR'⟩ := keep hR h
    exact ⟨trace' ++ later, t', run'.append hlater, hR'⟩

/-- The same with an abstraction function, an invariant and what is to be seen of each step. -/
theorem refines {abstraction : σ → τ} {observe : ε × ω → Option (δ × ν)} {P : σ → Prop} (init : P start)
    (keep : ∀ {s e out s'}, P s → step s e out s' →
      StepOrStay step' (abstraction s) (observe (e, out)) (abstraction s') ∧ P s')
    (run : Run step start trace s) :
    Run step' (abstraction start) (trace.filterMap observe) (abstraction s) ∧ P s := by
  have hsimulate : ∃ trace' t, Run step' (abstraction start) trace' t ∧
      trace' = trace.filterMap observe ∧ t = abstraction s ∧ P s := by
    refine run.simulate (R := fun trace trace' s t => trace' = trace.filterMap observe ∧ t = abstraction s ∧ P s)
      ⟨rfl, rfl, init⟩ ?_
    rintro trace trace' s t e out s' ⟨rfl, rfl, hP⟩ h
    obtain ⟨hstep, hP'⟩ := keep hP h
    refine ⟨(observe (e, out)).toList, abstraction s', hstep.run, ?_, rfl, hP'⟩
    rw [List.filterMap_append]
    cases ho : observe (e, out) with
    | none => simp [ho]
    | some entry => simp [ho]
  obtain ⟨trace', t, run', rfl, rfl, hP⟩ := hsimulate
  exact ⟨run', hP⟩

/-- A run of which every step can be taken by the other machine, too, with the same event and output. -/
theorem mirror {step' : τ → ε → ω → τ → Prop} {R : σ → τ → Prop} (run : Run step start trace s)
    (allowed : ε × ω → Prop) (init : R start start')
    (keep : ∀ {s t e out s'}, R s t → allowed (e, out) → step s e out s' → ∃ t', step' t e out t' ∧ R s' t')
    (h : ∀ entry ∈ trace, allowed entry) : ∃ t, Run step' start' trace t ∧ R s t := by
  induction run with
  | init => exact ⟨start', .init, init⟩
  | next _ hstep ih =>
    obtain ⟨t, run', hR⟩ := ih fun entry hentry => h entry (List.mem_append_left _ hentry)
    obtain ⟨t', hstep', hR'⟩ := keep hR (h _ (List.mem_append_right _ (List.mem_singleton_self _))) hstep
    exact ⟨t', run'.next hstep', hR'⟩

end Run
