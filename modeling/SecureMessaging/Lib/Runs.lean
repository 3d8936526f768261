import Mathlib.Data.List.Induction

/-- The finite runs of a machine. The environment picks an event, the machine
answers with an output and a next state; the trace lists both, oldest first. -/
inductive Run {σ ε ω : Type*} (step : σ → ε → ω → σ → Prop) (start : σ) : List (ε × ω) → σ → Prop
  | init : Run step start [] start
  | next {trace s e out s'} : Run step start trace s → step s e out s' →
      Run step start (trace ++ [(e, out)]) s'

/-- The steps that are only taken where a condition on the state before holds. -/
def Guarded {σ ε ω : Type*} (allowed : σ → ε → Prop) (step : σ → ε → ω → σ → Prop) :
    σ → ε → ω → σ → Prop :=
  fun s e out s' => allowed s e ∧ step s e out s'

namespace Run

variable {σ ε ω : Type*} {step step' : σ → ε → ω → σ → Prop} {start s : σ} {trace : List (ε × ω)}

/-- What holds at the start and is kept by every step holds in every state reached. -/
theorem invariant {P : σ → Prop} (init : P start)
    (keep : ∀ {s e out s'}, P s → step s e out s' → P s') (run : Run step start trace s) : P s := by
  induction run with
  | init => exact init
  | next _ h ih => exact keep ih h

/-- The same rule for a property of the state and the history that led to it. -/
theorem history {P : List (ε × ω) → σ → Prop} (init : P [] start)
    (keep : ∀ {trace s e out s'}, Run step start trace s → P trace s → step s e out s' →
      P (trace ++ [(e, out)]) s') (run : Run step start trace s) : P trace s := by
  induction run with
  | init => exact init
  | next run h ih => exact keep run ih h

theorem mono (h : ∀ {s e out s'}, step s e out s' → step' s e out s')
    (run : Run step start trace s) : Run step' start trace s := by
  induction run with
  | init => exact .init
  | next _ hs ih => exact .next ih (h hs)

theorem unguarded {allowed : σ → ε → Prop} (run : Run (Guarded allowed step) start trace s) :
    Run step start trace s :=
  run.mono fun h => h.2

theorem append {middle : σ} {before after : List (ε × ω)} (first : Run step start before middle)
    (second : Run step middle after s) : Run step start (before ++ after) s := by
  induction second with
  | init => simpa using first
  | next _ h ih => simpa using ih.next h

/-- Every entry of a trace is a step that was taken on the way. -/
theorem at_entry {before after : List (ε × ω)} {e : ε} {out : ω}
    (run : Run step start (before ++ (e, out) :: after) s) :
    ∃ s₁ s₂, Run step start before s₁ ∧ step s₁ e out s₂ ∧ Run step s₂ after s := by
  induction after using List.reverseRecOn generalizing s with
  | nil =>
    generalize hl : before ++ [(e, out)] = trace at run
    cases run with
    | init => simp at hl
    | next run h =>
      obtain ⟨rfl, he⟩ := List.append_inj' hl rfl
      obtain ⟨rfl, rfl⟩ : e = _ ∧ out = _ := by simpa using he
      exact ⟨_, _, run, h, .init⟩
  | append_singleton after entry ih =>
    generalize hl : before ++ (e, out) :: (after ++ [entry]) = trace at run
    cases run with
    | init => simp at hl
    | @next trace' _ e' out' _ run h =>
      have hl' : (before ++ (e, out) :: after) ++ [entry] = trace' ++ [(e', out')] := by simpa using hl
      obtain ⟨rfl, he⟩ := List.append_inj' hl' rfl
      obtain rfl : entry = (e', out') := by simpa using he
      obtain ⟨s₁, s₂, hbefore, hstep, hafter⟩ := ih run
      exact ⟨s₁, s₂, hbefore, hstep, hafter.next h⟩

/-- What comes in at the back and goes out at the front is neither lost nor doubled, and keeps its order. -/
theorem conserved {α : Type*} {inflow outflow : ε × ω → List α} {Q : σ → List α} (empty : Q start = [])
    (keep : ∀ {s e out s'}, step s e out s' → Q s ++ inflow (e, out) = outflow (e, out) ++ Q s')
    (run : Run step start trace s) : trace.flatMap inflow = trace.flatMap outflow ++ Q s := by
  induction run with
  | init => rw [empty, List.flatMap_nil, List.flatMap_nil, List.append_nil]
  | next _ h ih =>
    rw [List.flatMap_append, List.flatMap_append, List.flatMap_singleton, List.flatMap_singleton, ih,
      List.append_assoc, keep h, List.append_assoc]

/-- Two runs with the same observations stay related if each pair of steps
with one observation keeps the relation. -/
theorem lockstep {β : Type*} {observe : ε × ω → β} {R : List (ε × ω) → List (ε × ω) → σ → σ → Prop}
    {start' s' : σ} {trace' : List (ε × ω)} (init : R [] [] start start')
    (keep : ∀ {trace trace' s s' e e' out out' t t'}, R trace trace' s s' → step s e out t →
      step s' e' out' t' → observe (e, out) = observe (e', out') →
      R (trace ++ [(e, out)]) (trace' ++ [(e', out')]) t t')
    (run : Run step start trace s) (run' : Run step start' trace' s')
    (same : trace.map observe = trace'.map observe) : R trace trace' s s' := by
  induction run generalizing trace' s' with
  | init =>
    cases run' with
    | init => exact init
    | next => simp at same
  | next _ h ih =>
    cases run' with
    | init => simp at same
    | next run' h' =>
      simp only [List.map_append, List.map_cons, List.map_nil] at same
      obtain ⟨hbefore, hlast⟩ := List.append_inj' same rfl
      exact keep (ih run' hbefore) h h' (List.singleton_inj.mp hlast)

theorem cons {middle : σ} {e : ε} {out : ω} (h : step start e out middle) (run : Run step middle trace s) :
    Run step start ((e, out) :: trace) s := by
  have first : Run step start ([] ++ [(e, out)]) middle := .next .init h
  exact first.append run

/-- If only allowed events happened, the run is one of the guarded machine. -/
theorem guarded {allowed : ε → Prop} (run : Run step start trace s) (h : ∀ e ∈ trace.map Prod.fst, allowed e) :
    Run (Guarded (fun _ e => allowed e) step) start trace s := by
  induction run with
  | init => exact .init
  | next _ hs ih =>
    rw [List.map_append, List.map_singleton] at h
    refine .next (ih fun e he => h e (List.mem_append_left _ he)) ⟨?_, hs⟩
    exact h _ (List.mem_append_right _ (List.mem_singleton_self _))

/-- A machine that does not get stuck on certain events runs on every list of them. -/
theorem of_allowed {allowed : ε → Prop} (total : ∀ s e, allowed e → ∃ out s', step s e out s') (start : σ)
    (events : List ε) (h : ∀ e ∈ events, allowed e) :
    ∃ trace s, Run step start trace s ∧ trace.map Prod.fst = events := by
  induction events generalizing start with
  | nil => exact ⟨[], start, .init, rfl⟩
  | cons e events ih =>
    obtain ⟨he, hevents⟩ := List.forall_mem_cons.mp h
    obtain ⟨out, next, hstep⟩ := total start e he
    obtain ⟨trace, s, run, hmap⟩ := ih next hevents
    exact ⟨(e, out) :: trace, s, run.cons hstep, by rw [List.map_cons, hmap]⟩

/-- A machine that never gets stuck runs on every list of events. -/
theorem of_total (total : ∀ s e, ∃ out s', step s e out s') (start : σ) (events : List ε) :
    ∃ trace s, Run step start trace s ∧ trace.map Prod.fst = events := by
  have hall : ∀ e ∈ events, (fun _ : ε => True) e := fun _ _ => trivial
  exact of_allowed (fun s e _ => total s e) start events hall

/-- A machine whose steps are computed, run on a list of events; `none` if it gets stuck. -/
def execute (next : σ → ε → Option (ω × σ)) : σ → List ε → Option (List (ε × ω) × σ)
  | s, [] => some ([], s)
  | s, e :: events =>
    match next s e with
    | none => none
    | some (out, s') =>
      match execute next s' events with
      | none => none
      | some (trace, t) => some ((e, out) :: trace, t)

theorem of_execute {next : σ → ε → Option (ω × σ)} {events : List ε}
    (sound : ∀ {s e out s'}, next s e = some (out, s') → step s e out s')
    (h : execute next start events = some (trace, s)) : Run step start trace s := by
  induction events generalizing start trace with
  | nil =>
    cases h
    exact .init
  | cons e events ih =>
    unfold execute at h
    split at h
    next => cases h
    next out s' hnext =>
      split at h
      next => cases h
      next trace' t hrest =>
        cases h
        exact cons (sound hnext) (ih hrest)

theorem execute_events {next : σ → ε → Option (ω × σ)} {events : List ε}
    (h : execute next start events = some (trace, s)) : trace.map Prod.fst = events := by
  induction events generalizing start trace with
  | nil =>
    cases h
    rfl
  | cons e events ih =>
    unfold execute at h
    split at h
    next => cases h
    next out s' _ =>
      split at h
      next => cases h
      next trace' t hrest =>
        cases h
        rw [List.map_cons, ih hrest]

/-- What a computed run reaches is reachable. -/
theorem exists_of_execute {next : σ → ε → Option (ω × σ)} (events : List ε)
    (good : List (ε × ω) → σ → Bool) (sound : ∀ {s e out s'}, next s e = some (out, s') → step s e out s')
    (h : (execute next start events).any (fun reached => good reached.1 reached.2) = true) :
    ∃ trace s, Run step start trace s ∧ good trace s = true := by
  cases he : execute next start events with
  | none =>
    rw [he] at h
    cases h
  | some reached =>
    rw [he] at h
    exact ⟨reached.1, reached.2, of_execute sound he, h⟩

end Run
