import SecureMessaging.Lib.Progress
import SecureMessaging.Lib.Simulation
import SecureMessaging.ThreadPool

namespace SecureMessaging

/-- The pool with its condition variable: the threads that sleep in `_mutex_condition`, the callers of
`Enqueue` that have left the section that holds the mutex and not called `notify_one` yet, and whether the
destructor has called `notify_all`. -/
structure WaitingPool (n : Nat) (J : Type) where
  pool : ThreadPool n J
  asleep : Fin n → Bool
  notices : Nat
  announced : Bool

namespace WaitingPool

/-- As before, with the calls of `notify_one` (and the thread that wakes up, if one sleeps) and of `notify_all`
apart from the sections before them, and wake-ups that nobody called for. -/
inductive Event (n : Nat) (J : Type)
  | enqueue (job : J)
  | busy
  | turn (i : Fin n)
  | call (i : Fin n)
  | finish (i : Fin n)
  | notifyOne (woken : Option (Fin n))
  | spurious (i : Fin n)
  | deconstruct
  | notifyAll
  | join

variable {n : Nat} {J : Type}

def start (n : Nat) (J : Type) : WaitingPool n J := ⟨ThreadPool.start n J, fun _ => false, 0, false⟩

/-- The condition that a thread waits for. -/
def wanted (pool : ThreadPool n J) : Bool := !pool.jobQueue.isEmpty || pool.deconstructing

/-- A step of the pool that leaves the condition variable alone. -/
def stepPool (pool : WaitingPool n J) (event : ThreadPool.Event n J) :
    Option (ThreadPool.Observation J × WaitingPool n J) :=
  (pool.pool.act event).map fun (out, core) => (out, { pool with pool := core })

def act (pool : WaitingPool n J) : Event n J → Option (ThreadPool.Observation J × WaitingPool n J)
  | .enqueue job => stepPool { pool with notices := pool.notices + 1 } (.enqueue job)
  | .busy => pool.stepPool .busy
  | .turn i =>
    if pool.asleep i then none
    else
      let asleep := if wanted pool.pool then pool.asleep else Function.update pool.asleep i true
      stepPool { pool with asleep := asleep } (.turn i)
  | .call i => pool.stepPool (.call i)
  | .finish i => pool.stepPool (.finish i)
  | .notifyOne (some i) =>
    if 0 < pool.notices ∧ pool.asleep i = true then
      some (.silent, { pool with notices := pool.notices - 1, asleep := Function.update pool.asleep i false })
    else none
  | .notifyOne none =>
    if 0 < pool.notices ∧ ∀ i, pool.asleep i = false then some (.silent, { pool with notices := pool.notices - 1 })
    else none
  | .spurious i =>
    if pool.asleep i then some (.silent, { pool with asleep := Function.update pool.asleep i false }) else none
  | .deconstruct => pool.stepPool .deconstruct
  | .notifyAll =>
    if pool.pool.deconstructing && !pool.announced then
      some (.silent, { pool with asleep := fun _ => false, announced := true })
    else none
  | .join => if pool.announced then pool.stepPool .join else none

def Step (pool : WaitingPool n J) (event : Event n J) (out : ThreadPool.Observation J) (next : WaitingPool n J) :
    Prop :=
  pool.act event = some (out, next)

variable {pool next : WaitingPool n J} {event : Event n J} {out : ThreadPool.Observation J}
  {trace : List (Event n J × ThreadPool.Observation J)}

/-- All that a step can do. -/
inductive Effect (pool : WaitingPool n J) : Event n J → ThreadPool.Observation J → WaitingPool n J → Prop
  | enqueued {job} : Effect pool (.enqueue job) .silent
      { pool with
        pool := { pool.pool with jobQueue := pool.pool.jobQueue ++ [job] }
        notices := pool.notices + 1 }
  | asked {output} : Effect pool .busy (.busy output) pool
  | slept {i} (awake : pool.asleep i = false) (ready : pool.pool.workers i = .ready) (empty : pool.pool.jobQueue = [])
      (open' : pool.pool.deconstructing = false) :
      Effect pool (.turn i) .silent { pool with asleep := Function.update pool.asleep i true }
  | exited {i} (awake : pool.asleep i = false) (ready : pool.pool.workers i = .ready)
      (ends : pool.pool.deconstructing = true) :
      Effect pool (.turn i) .silent
        { pool with pool := { pool.pool with workers := Function.update pool.pool.workers i .exited } }
  | took {i job rest} (awake : pool.asleep i = false) (ready : pool.pool.workers i = .ready)
      (open' : pool.pool.deconstructing = false) (front : pool.pool.jobQueue = job :: rest) :
      Effect pool (.turn i) (.took job) { pool with
        pool := { pool.pool with
          jobQueue := rest
          workers := Function.update pool.pool.workers i (.taken job) } }
  | called {i job} (taken : pool.pool.workers i = .taken job) :
      Effect pool (.call i) (.called job)
        { pool with pool := { pool.pool with workers := Function.update pool.pool.workers i (.running job) } }
  | returned {i job} (running : pool.pool.workers i = .running job) :
      Effect pool (.finish i) (.returned job)
        { pool with pool := { pool.pool with workers := Function.update pool.pool.workers i .ready } }
  | woken {i} (notice : 0 < pool.notices) (asleep : pool.asleep i = true) :
      Effect pool (.notifyOne (some i)) .silent
        { pool with notices := pool.notices - 1, asleep := Function.update pool.asleep i false }
  | unheard (notice : 0 < pool.notices) (awake : ∀ i, pool.asleep i = false) :
      Effect pool (.notifyOne none) .silent { pool with notices := pool.notices - 1 }
  | spurious {i} (asleep : pool.asleep i = true) :
      Effect pool (.spurious i) .silent { pool with asleep := Function.update pool.asleep i false }
  | deconstructed : Effect pool .deconstruct .silent
      { pool with pool := { pool.pool with deconstructing := true } }
  | announced (ends : pool.pool.deconstructing = true) (first : pool.announced = false) :
      Effect pool .notifyAll .silent { pool with asleep := fun _ => false, announced := true }
  | joined (told : pool.announced = true) (h : pool.pool.joined < n)
      (exited : pool.pool.workers ⟨pool.pool.joined, h⟩ = .exited) :
      Effect pool .join .silent { pool with pool := { pool.pool with joined := pool.pool.joined + 1 } }

theorem effect_of_turn {i : Fin n} (h : Step pool (.turn i) out next) : Effect pool (.turn i) out next := by
  obtain ⟨⟨queue, deconstructing, workers, joined⟩, asleep, notices, announced⟩ := pool
  unfold Step act at h
  dsimp only at h
  split at h
  next => cases h
  next hasleep =>
    have hawake : asleep i = false := Bool.eq_false_iff.mpr hasleep
    obtain ⟨⟨out', core⟩, hact, heq⟩ := Option.map_eq_some_iff.mp h
    cases hready : workers i with
    | ready =>
      cases deconstructing with
      | true =>
        simp only [ThreadPool.act, hready, Bool.or_true, if_true] at hact
        simp only [wanted, Bool.or_true, if_true] at heq
        cases hact
        cases heq
        exact .exited hawake hready rfl
      | false =>
        cases queue with
        | nil =>
          simp only [ThreadPool.act, hready, List.isEmpty_nil, Bool.not_true, Bool.or_false, Bool.false_eq_true,
            if_false] at hact
          simp only [wanted, List.isEmpty_nil, Bool.not_true, Bool.or_false, Bool.false_eq_true, if_false] at heq
          cases hact
          cases heq
          exact .slept hawake hready rfl rfl
        | cons job rest =>
          simp only [ThreadPool.act, hready, List.isEmpty_cons, Bool.not_false, Bool.true_or, Bool.false_eq_true,
            if_true, if_false] at hact
          simp only [wanted, List.isEmpty_cons, Bool.not_false, Bool.true_or, if_true] at heq
          cases hact
          cases heq
          exact .took hawake hready rfl rfl
    | taken => simp [ThreadPool.act, hready] at hact
    | running => simp [ThreadPool.act, hready] at hact
    | exited => simp [ThreadPool.act, hready] at hact

theorem core_of_stepPool {e : ThreadPool.Event n J} (h : pool.stepPool e = some (out, next)) :
    ∃ core, ThreadPool.Step pool.pool e out core ∧ next = { pool with pool := core } := by
  obtain ⟨⟨out', core⟩, hact, heq⟩ := Option.map_eq_some_iff.mp h
  cases heq
  exact ⟨core, hact, rfl⟩

theorem effect_of_step (h : Step pool event out next) : Effect pool event out next := by
  cases event with
  | enqueue job =>
    cases h
    exact .enqueued
  | busy =>
    cases h
    exact .asked
  | turn i => exact effect_of_turn h
  | call i =>
    obtain ⟨core, hcore, rfl⟩ := core_of_stepPool h
    cases ThreadPool.effect_of_step hcore with
    | called taken => exact .called taken
  | finish i =>
    obtain ⟨core, hcore, rfl⟩ := core_of_stepPool h
    cases ThreadPool.effect_of_step hcore with
    | returned running => exact .returned running
  | notifyOne woken =>
    cases woken with
    | none =>
      unfold Step act at h
      dsimp only at h
      split at h
      next hboth =>
        cases h
        exact .unheard hboth.1 hboth.2
      next => cases h
    | some i =>
      unfold Step act at h
      dsimp only at h
      split at h
      next hboth =>
        cases h
        exact .woken hboth.1 hboth.2
      next => cases h
  | spurious i =>
    unfold Step act at h
    dsimp only at h
    split at h
    next hasleep =>
      cases h
      exact .spurious hasleep
    next => cases h
  | deconstruct =>
    obtain ⟨core, hcore, rfl⟩ := core_of_stepPool h
    cases ThreadPool.effect_of_step hcore with
    | deconstructed => exact .deconstructed
  | notifyAll =>
    unfold Step act at h
    dsimp only at h
    split at h
    next hboth =>
      cases h
      obtain ⟨hends, hfirst⟩ := (Bool.and_eq_true _ _).mp hboth
      exact .announced hends (by simpa using hfirst)
    next => cases h
  | join =>
    unfold Step act at h
    dsimp only at h
    split at h
    next htold =>
      obtain ⟨core, hcore, rfl⟩ := core_of_stepPool h
      cases ThreadPool.effect_of_step hcore with
      | joined hlt hexited => exact .joined htold hlt hexited
    next => cases h

/-- The step of the pool without its condition variable. -/
def observe : Event n J × ThreadPool.Observation J → Option (ThreadPool.Event n J × ThreadPool.Observation J)
  | (.enqueue job, out) => some (.enqueue job, out)
  | (.busy, out) => some (.busy, out)
  | (.turn i, out) => some (.turn i, out)
  | (.call i, out) => some (.call i, out)
  | (.finish i, out) => some (.finish i, out)
  | (.deconstruct, out) => some (.deconstruct, out)
  | (.join, out) => some (.join, out)
  | _ => none

theorem observe_step (h : Step pool event out next) :
    StepOrStay ThreadPool.Step pool.pool (observe (event, out)) next.pool := by
  have hstep : ∀ {before : WaitingPool n J} {e}, before.stepPool e = some (out, next) → before.pool = pool.pool →
      ThreadPool.Step pool.pool e out next.pool := by
    intro before e hcore hbefore
    obtain ⟨core, hact, rfl⟩ := core_of_stepPool hcore
    rw [← hbefore]
    exact hact
  cases event with
  | enqueue job => exact hstep h rfl
  | busy => exact hstep h rfl
  | turn i =>
    unfold Step act at h
    dsimp only at h
    split at h
    next => cases h
    next => exact hstep h rfl
  | call i => exact hstep h rfl
  | finish i => exact hstep h rfl
  | deconstruct => exact hstep h rfl
  | join =>
    unfold Step act at h
    dsimp only at h
    split at h
    next => exact hstep h rfl
    next => cases h
  | notifyOne woken =>
    cases effect_of_step h with
    | woken => exact rfl
    | unheard => exact rfl
  | spurious i =>
    cases effect_of_step h with
    | spurious => exact rfl
  | notifyAll =>
    cases effect_of_step h with
    | announced => exact rfl

theorem pool_run (run : Run Step (start n J) trace pool) :
    Run ThreadPool.Step (ThreadPool.start n J) (trace.filterMap observe) pool.pool := by
  have hrefines : Run ThreadPool.Step (start n J).pool (trace.filterMap observe) pool.pool ∧ True :=
    run.refines (P := fun _ => True) trivial fun _ h => ⟨observe_step h, trivial⟩
  exact hrefines.1

/-- The threads that are about to look at the queue. -/
def lookout : Worker J → Bool → Nat
  | .ready, false => 1
  | _, _ => 0

/-- The steps that a thread can take before it sleeps or ends. -/
def effort : Worker J → Bool → Nat
  | .ready, true => 0
  | .ready, false => 1
  | .running _, _ => 2
  | .taken _, _ => 3
  | .exited, _ => 0

def total (count : Worker J → Bool → Nat) (workers : Fin n → Worker J) (asleep : Fin n → Bool) : Nat :=
  ∑ i, count (workers i) (asleep i)

theorem total_worker (count : Worker J → Bool → Nat) (workers : Fin n → Worker J) (asleep : Fin n → Bool)
    (i : Fin n) (worker : Worker J) :
    total count (Function.update workers i worker) asleep + count (workers i) (asleep i) =
      total count workers asleep + count worker (asleep i) := by
  have hupdate : (fun k => count (Function.update workers i worker k) (asleep k)) =
      Function.update (fun k => count (workers k) (asleep k)) i (count worker (asleep i)) := by
    funext k
    exact Function.apply_update (fun k w => count w (asleep k)) workers i worker k
  unfold total
  rw [hupdate]
  exact sum_update _ i _

theorem total_asleep (count : Worker J → Bool → Nat) (workers : Fin n → Worker J) (asleep : Fin n → Bool)
    (i : Fin n) (sleeps : Bool) :
    total count workers (Function.update asleep i sleeps) + count (workers i) (asleep i) =
      total count workers asleep + count (workers i) sleeps := by
  have hupdate : (fun k => count (workers k) (Function.update asleep i sleeps k)) =
      Function.update (fun k => count (workers k) (asleep k)) i (count (workers i) sleeps) := by
    funext k
    exact Function.apply_update (fun k b => count (workers k) b) asleep i sleeps k
  unfold total
  rw [hupdate]
  exact sum_update _ i _

/-- While a thread sleeps there is for each waiting job a thread that is about to look for it, or a call
of `notify_one` that is still to come. -/
structure Alert (pool : WaitingPool n J) : Prop where
  drowsy : ∀ i, pool.asleep i = true → pool.pool.workers i = .ready
  watched : pool.pool.deconstructing = false → (∃ i, pool.asleep i = true) →
    pool.pool.jobQueue.length ≤ pool.notices + total lookout pool.pool.workers pool.asleep
  told : pool.announced = true → pool.pool.deconstructing = true ∧ ∀ i, pool.asleep i = false
  ends : ∀ i, pool.pool.workers i = .exited → pool.pool.deconstructing = true
  joined_le : pool.pool.joined ≤ n

theorem alert_start : Alert (start n J) := by
  refine ⟨?_, ?_, ?_, ?_, Nat.zero_le n⟩
  · intro i hi
    cases hi
  · rintro _ ⟨i, hi⟩
    cases hi
  · intro h
    cases h
  · intro i hi
    cases hi

theorem Alert.awake (alert : Alert pool) {i : Fin n} (hi : pool.pool.workers i ≠ .ready) :
    pool.asleep i = false := by
  by_contra hasleep
  exact hi (alert.drowsy i (by simpa using hasleep))

/-- What a thread that is awake does makes no other thread drowsy. -/
theorem Alert.drowsy_other (alert : Alert pool) {i : Fin n} (hi : pool.asleep i = false) (worker : Worker J) {k : Fin n}
    (hk : pool.asleep k = true) : Function.update pool.pool.workers i worker k = .ready := by
  have hki : k ≠ i := by
    rintro rfl
    rw [hi] at hk
    cases hk
  rw [Function.update_of_ne hki]
  exact alert.drowsy k hk

theorem Alert.ends_other (alert : Alert pool) (i : Fin n) (worker : Worker J) (hworker : worker ≠ .exited) {k : Fin n}
    (hk : Function.update pool.pool.workers i worker k = .exited) : pool.pool.deconstructing = true := by
  by_cases hki : k = i
  · subst hki
    rw [Function.update_self] at hk
    exact absurd hk hworker
  · rw [Function.update_of_ne hki] at hk
    exact alert.ends k hk

theorem asleep_of_update {asleep : Fin n → Bool} {i k : Fin n} (h : Function.update asleep i false k = true) :
    asleep k = true := by
  by_cases hki : k = i
  · subst hki
    rw [Function.update_self] at h
    cases h
  · rwa [Function.update_of_ne hki] at h

/-- A thread that wakes up looks at the queue next. -/
theorem Alert.lookout_woken (alert : Alert pool) {i : Fin n} (hi : pool.asleep i = true) :
    total lookout pool.pool.workers (Function.update pool.asleep i false) =
      total lookout pool.pool.workers pool.asleep + 1 := by
  have htotal := total_asleep lookout pool.pool.workers pool.asleep i false
  rw [hi, alert.drowsy i hi] at htotal
  exact htotal

/-- A thread that wakes up makes up for one call of `notify_one`. -/
theorem Alert.wake (alert : Alert pool) {i : Fin n} (hi : pool.asleep i = true) {notices : Nat}
    (hnotices : pool.notices ≤ notices + 1) :
    Alert { pool with asleep := Function.update pool.asleep i false, notices := notices } := by
  refine ⟨fun k hk => alert.drowsy k (asleep_of_update hk), ?_, ?_, alert.ends, alert.joined_le⟩
  · intro hopen _
    have hle := alert.watched hopen ⟨i, hi⟩
    have htotal := alert.lookout_woken hi
    dsimp only
    omega
  · intro htold
    rw [(alert.told htold).2 i] at hi
    cases hi

/-- A thread that is awake gets on without looking at the queue. -/
theorem Alert.proceed (alert : Alert pool) {i : Fin n} (awake : pool.asleep i = false) {worker : Worker J}
    (hworker : worker ≠ .exited) (hlookout : lookout (pool.pool.workers i) false ≤ lookout worker false) :
    Alert { pool with pool := { pool.pool with workers := Function.update pool.pool.workers i worker } } := by
  refine ⟨fun k hk => alert.drowsy_other awake worker hk, ?_, alert.told,
    fun k hk => alert.ends_other i worker hworker hk, alert.joined_le⟩
  intro hopen hasleep
  have hle := alert.watched hopen hasleep
  have htotal := total_worker lookout pool.pool.workers pool.asleep i worker
  rw [awake] at htotal
  dsimp only
  omega

theorem alert_step (alert : Alert pool) (h : Effect pool event out next) : Alert next := by
  obtain ⟨drowsy, watched, told, ends, joined_le⟩ := alert
  have alert : Alert pool := ⟨drowsy, watched, told, ends, joined_le⟩
  cases h with
  | enqueued =>
    refine ⟨drowsy, ?_, told, ends, joined_le⟩
    intro hopen hasleep
    have hle := watched hopen hasleep
    dsimp only
    rw [List.length_append, List.length_singleton]
    omega
  | asked => exact alert
  | @slept i awake ready empty hopen =>
    refine ⟨?_, ?_, ?_, ends, joined_le⟩
    · intro k hk
      by_cases hki : k = i
      · rw [hki]
        exact ready
      · exact drowsy k (by simpa [Function.update_of_ne hki] using hk)
    · intro _ _
      dsimp only
      rw [empty]
      exact Nat.zero_le _
    · intro htold
      rw [(told htold).1] at hopen
      cases hopen
  | @exited i awake ready hends =>
    refine ⟨fun k hk => alert.drowsy_other awake .exited hk, ?_, told, fun _ _ => hends, joined_le⟩
    intro hopen
    rw [hends] at hopen
    cases hopen
  | @took i job rest awake ready hopen front =>
    refine ⟨fun k hk => alert.drowsy_other awake _ hk, ?_, told, fun k hk => alert.ends_other i (.taken job) nofun hk, joined_le⟩
    intro _ hasleep
    have hle := watched hopen hasleep
    have htotal := total_worker lookout pool.pool.workers pool.asleep i (.taken job)
    rw [ready, awake] at htotal
    rw [front, List.length_cons] at hle
    simp only [lookout] at htotal
    dsimp only
    omega
  | @called i job taken =>
    have awake := alert.awake (i := i) (by rw [taken]; exact nofun)
    exact alert.proceed awake nofun (by rw [taken]; exact Nat.le_refl _)
  | @returned i job running =>
    have awake := alert.awake (i := i) (by rw [running]; exact nofun)
    exact alert.proceed awake nofun (by rw [running]; exact Nat.zero_le _)
  | woken _ hi => exact alert.wake hi (by omega)
  | unheard notice awake =>
    refine ⟨drowsy, ?_, told, ends, joined_le⟩
    rintro _ ⟨i, hi⟩
    rw [awake i] at hi
    cases hi
  | spurious hi => exact alert.wake hi (by omega)
  | deconstructed =>
    refine ⟨drowsy, ?_, fun htold => ⟨rfl, (told htold).2⟩, fun _ _ => rfl, joined_le⟩
    intro hopen
    cases hopen
  | announced hends =>
    refine ⟨?_, ?_, fun _ => ⟨hends, fun _ => rfl⟩, ends, joined_le⟩
    · intro k hk
      cases hk
    · rintro _ ⟨k, hk⟩
      cases hk
  | joined _ hlt => exact ⟨drowsy, watched, told, ends, hlt⟩

theorem alert_of_run (run : Run Step (start n J) trace pool) : Alert pool :=
  run.invariant alert_start fun alert h => alert_step alert (effect_of_step h)

/-- While a thread sleeps in the condition variable no job waits without somebody on the way to it, however the
calls of `notify_one` fall between the threads' sections; and after `notify_all` no thread ever sleeps again. -/
theorem no_wakeup_lost (run : Run Step (start n J) trace pool) :
    (pool.pool.deconstructing = false → (∃ i, pool.asleep i = true) →
      pool.pool.jobQueue.length ≤ pool.notices + total lookout pool.pool.workers pool.asleep) ∧
    (pool.announced = true → ∀ i, pool.asleep i = false) := by
  have alert := alert_of_run run
  exact ⟨alert.watched, fun htold => (alert.told htold).2⟩

/-- What the threads, the callers of `notify_one` and the destructor do by themselves. -/
def internal : Event n J → Bool
  | .turn _ | .call _ | .finish _ | .notifyOne _ | .notifyAll | .join => true
  | .enqueue _ | .busy | .spurious _ | .deconstruct => false

def Internal : WaitingPool n J → Event n J → ThreadPool.Observation J → WaitingPool n J → Prop :=
  Guarded (fun _ event => internal event = true) Step

/-- An upper bound for the internal steps that are still to come. -/
def work (pool : WaitingPool n J) : Nat :=
  3 * pool.pool.jobQueue.length + 2 * pool.notices + total effort pool.pool.workers pool.asleep +
    (n - pool.pool.joined) + if pool.announced then 0 else n + 1

theorem total_awake (workers : Fin n → Worker J) (asleep : Fin n → Bool) :
    total effort workers (fun _ => false) ≤ total effort workers asleep + n := by
  have hone : ∀ i, effort (workers i) false ≤ effort (workers i) (asleep i) + 1 := by
    intro i
    cases workers i <;> cases asleep i <;> simp [effort]
  have hsum : ∑ i, effort (workers i) false ≤ ∑ i, (effort (workers i) (asleep i) + 1) :=
    Finset.sum_le_sum fun i _ => hone i
  have hones : ∑ _i : Fin n, 1 = n := by simp
  rw [Finset.sum_add_distrib, hones] at hsum
  exact hsum

theorem work_less (alert : Alert pool) (hinternal : internal event = true) (h : Effect pool event out next) :
    next.work < pool.work := by
  cases h with
  | enqueued => cases hinternal
  | asked => cases hinternal
  | @slept i awake ready =>
    have htotal := total_asleep effort pool.pool.workers pool.asleep i true
    rw [ready, awake] at htotal
    simp only [effort] at htotal
    simp only [work]
    omega
  | @exited i awake ready =>
    have htotal := total_worker effort pool.pool.workers pool.asleep i .exited
    rw [ready, awake] at htotal
    simp only [effort] at htotal
    simp only [work]
    omega
  | @took i job rest awake ready _ front =>
    have htotal := total_worker effort pool.pool.workers pool.asleep i (.taken job)
    rw [ready, awake] at htotal
    simp only [effort] at htotal
    simp only [work, front, List.length_cons]
    omega
  | @called i job taken =>
    have htotal := total_worker effort pool.pool.workers pool.asleep i (.running job)
    rw [taken] at htotal
    simp only [effort] at htotal
    simp only [work]
    omega
  | @returned i job running =>
    have awake := alert.awake (i := i) (by rw [running]; exact nofun)
    have htotal := total_worker effort pool.pool.workers pool.asleep i .ready
    rw [running, awake] at htotal
    simp only [effort] at htotal
    simp only [work]
    omega
  | @woken i notice hi =>
    have htotal := total_asleep effort pool.pool.workers pool.asleep i false
    rw [hi, alert.drowsy i hi] at htotal
    simp only [effort] at htotal
    simp only [work]
    omega
  | unheard notice =>
    simp only [work]
    omega
  | spurious => cases hinternal
  | deconstructed => cases hinternal
  | announced _ hfirst =>
    have htotal := total_awake pool.pool.workers pool.asleep
    simp only [work, hfirst, Bool.false_eq_true, if_false, if_true]
    omega
  | joined _ hlt =>
    simp only [work]
    omega

theorem stepPool_possible {e : ThreadPool.Event n J} {core : ThreadPool n J} (h : pool.pool.act e = some (out, core)) :
    pool.stepPool e = some (out, { pool with pool := core }) := by
  rw [stepPool, h]
  rfl

theorem turn_possible {i : Fin n} (hawake : pool.asleep i = false) (hready : pool.pool.workers i = .ready) :
    ∃ out next, Step pool (.turn i) out next := by
  have hcore : ∃ out core, pool.pool.act (.turn i) = some (out, core) := by
    simp only [ThreadPool.act, hready]
    split
    · split
      · exact ⟨_, _, rfl⟩
      · split <;> exact ⟨_, _, rfl⟩
    · exact ⟨_, _, rfl⟩
  obtain ⟨out, core, hact⟩ := hcore
  simp only [Step, act, hawake, Bool.false_eq_true, if_false]
  exact ⟨_, _, stepPool_possible hact⟩

/-- Every thread is asleep or at its end, and nobody is about to be notified. -/
theorem rest_of_quiescent (hquiet : Quiescent Internal pool) :
    pool.notices = 0 ∧ ∀ i, pool.asleep i = true ∨ pool.pool.workers i = .exited := by
  refine ⟨?_, ?_⟩
  · by_contra hnotices
    have hpos : 0 < pool.notices := Nat.pos_of_ne_zero hnotices
    by_cases hsleeps : ∃ i, pool.asleep i = true
    · obtain ⟨i, hi⟩ := hsleeps
      exact hquiet (.notifyOne (some i)) _ _ ⟨rfl, if_pos ⟨hpos, hi⟩⟩
    · have hawake : ∀ i, pool.asleep i = false := by simpa using hsleeps
      exact hquiet (.notifyOne none) _ _ ⟨rfl, if_pos ⟨hpos, hawake⟩⟩
  · intro i
    by_contra hneither
    obtain ⟨hsleeps, hexited⟩ := not_or.mp hneither
    have hawake : pool.asleep i = false := by simpa using hsleeps
    cases hworker : pool.pool.workers i with
    | ready =>
      obtain ⟨out, next, hturn⟩ := turn_possible hawake hworker
      exact hquiet _ _ _ ⟨rfl, hturn⟩
    | taken job =>
      have hcall : pool.pool.act (.call i) = some (.called job,
          { pool.pool with workers := Function.update pool.pool.workers i (.running job) }) := by
        simp only [ThreadPool.act, hworker]
      exact hquiet (.call i) _ _ ⟨rfl, stepPool_possible hcall⟩
    | running job =>
      have hfinish : pool.pool.act (.finish i) = some (.returned job,
          { pool.pool with workers := Function.update pool.pool.workers i .ready }) := by
        simp only [ThreadPool.act, hworker]
      exact hquiet (.finish i) _ _ ⟨rfl, stepPool_possible hfinish⟩
    | exited => exact hexited hworker

/-- Without threads about to look for a job, sleepers are only left where there is none. -/
theorem Alert.idle (alert : Alert pool) (hn : 0 < n) (hquiet : Quiescent Internal pool)
    (hopen : pool.pool.deconstructing = false) :
    pool.pool.jobQueue = [] ∧ ∀ i, pool.pool.workers i = .ready := by
  obtain ⟨hnotices, hworkers⟩ := rest_of_quiescent hquiet
  have hasleep : ∀ i, pool.asleep i = true := by
    intro i
    rcases hworkers i with hsleeps | hexited
    · exact hsleeps
    · rw [alert.ends i hexited] at hopen
      cases hopen
  have hnobody : total lookout pool.pool.workers pool.asleep = 0 := by
    refine Finset.sum_eq_zero ?_
    intro i _
    rw [hasleep i]
    cases pool.pool.workers i <;> rfl
  have hle := alert.watched hopen ⟨⟨0, hn⟩, hasleep _⟩
  rw [hnotices, hnobody] at hle
  exact ⟨List.length_eq_zero_iff.mp (Nat.le_zero.mp hle), fun i => alert.drowsy i (hasleep i)⟩

/-- A destructor that was called has told all threads and joined them. -/
theorem Alert.ended (alert : Alert pool) (hquiet : Quiescent Internal pool)
    (hends : pool.pool.deconstructing = true) :
    pool.pool.joined = n ∧ ∀ i, pool.pool.workers i = .exited := by
  have htold : pool.announced = true := by
    by_contra hfirst
    have hboth : (pool.pool.deconstructing && !pool.announced) = true := by
      rw [hends, Bool.eq_false_iff.mpr hfirst]
      rfl
    exact hquiet .notifyAll _ _ ⟨rfl, if_pos hboth⟩
  have hexited : ∀ i, pool.pool.workers i = .exited := by
    intro i
    rcases (rest_of_quiescent hquiet).2 i with hsleeps | hexited
    · rw [(alert.told htold).2 i] at hsleeps
      cases hsleeps
    · exact hexited
  refine ⟨?_, hexited⟩
  by_contra hjoined
  have hlt : pool.pool.joined < n := Nat.lt_of_le_of_ne alert.joined_le hjoined
  have hjoin : pool.pool.act .join = some (.silent, { pool.pool with joined := pool.pool.joined + 1 }) := by
    simp only [ThreadPool.act, hlt, dite_true, hends, hexited]
  have hstep : Step pool .join _ _ := (if_pos htold).trans (stepPool_possible hjoin)
  exact hquiet .join _ _ ⟨rfl, hstep⟩

/-- The queue is empty, the jobs that came in were all taken, and each thread has returned from those that it
took; or, if the destructor was called, all threads have been joined. -/
def Drained (trace : List (Event n J × ThreadPool.Observation J)) (pool : WaitingPool n J) : Prop :=
  let seen := trace.filterMap observe
  if pool.pool.deconstructing then pool.pool.joined = n ∧ ∀ i, pool.pool.workers i = .exited
  else pool.pool.jobQueue = [] ∧
    (seen.filterMap ThreadPool.removal).map Prod.snd = seen.filterMap ThreadPool.enqueued ∧
    ∀ i, shareOf i (seen.filterMap ThreadPool.returning) = shareOf i (seen.filterMap ThreadPool.removal)

theorem drained_of_quiescent (hn : 0 < n) (run : Run Step (start n J) trace pool)
    (hquiet : Quiescent Internal pool) : Drained trace pool := by
  have alert := alert_of_run run
  unfold Drained
  dsimp only
  split
  next hends => exact alert.ended hquiet hends
  next hopen =>
    obtain ⟨hempty, hready⟩ := alert.idle hn hquiet (Bool.eq_false_iff.mpr hopen)
    obtain ⟨order, begins, ends⟩ := ThreadPool.handedOut_of_run (pool_run run)
    refine ⟨hempty, ?_, ?_⟩
    · rw [hempty, List.append_nil] at order
      exact order
    · intro i
      have hheld : pool.pool.held i = [] := congrArg Worker.pending (hready i)
      have hbusy : pool.pool.busyWith i = [] := congrArg Worker.current (hready i)
      have hbegun := begins i
      have hended := ends i
      rw [hheld, List.append_nil] at hbegun
      rw [hbusy, List.append_nil] at hended
      rw [hended, hbegun]

theorem internal_step (alert : Alert pool) (h : Internal pool event out next) : Alert next ∧ next.work < pool.work := by
  have heffect := effect_of_step h.2
  exact ⟨alert_step alert heffect, work_less alert h.1 heffect⟩

/-- From any state the threads come to rest by themselves after a bounded number of steps, and no deadlock is
possible: where they rest every job has been run, or the destructor has joined all of them. -/
theorem pool_drains (hn : 0 < n) (run : Run Step (start n J) trace pool) :
    (∀ later last, Run Internal pool later last →
      later.length ≤ pool.work ∧ (Quiescent Internal last → Drained (trace ++ later) last)) ∧
    ∃ later last, Run Internal pool later last ∧ Quiescent Internal last := by
  have alert := alert_of_run run
  refine ⟨?_, Run.exists_quiescent (P := Alert) (μ := work) internal_step pool alert⟩
  intro later last hlater
  obtain ⟨_, hlength⟩ := hlater.length_le (P := Alert) alert internal_step
  refine ⟨by omega, ?_⟩
  intro hquiet
  exact drained_of_quiescent hn (run.append hlater.unguarded) hquiet

/-- Two threads sleep; one wakes up for the first of two jobs. -/
def sleepersRun : List (Event 2 Nat) :=
  [.turn 0, .turn 1, .enqueue 7, .notifyOne (some 1), .turn 1, .enqueue 8]

theorem no_wakeup_lost_sleepersRun : ∃ trace pool, Run Step (start 2 Nat) trace pool ∧
    pool.pool.jobQueue = [8] ∧ pool.pool.jobQueue.length ≤ pool.notices + total lookout pool.pool.workers pool.asleep := by
  obtain ⟨trace, pool, run, hgood⟩ := @Run.exists_of_execute _ _ _ Step (start 2 Nat) act sleepersRun
    (fun _ pool => pool.pool.jobQueue == [8] && pool.asleep 0 && !pool.pool.deconstructing) (fun h => h) (by decide)
  simp only [Bool.and_eq_true, beq_iff_eq, Bool.not_eq_true'] at hgood
  obtain ⟨⟨hqueue, hsleeps⟩, hopen⟩ := hgood
  exact ⟨trace, pool, run, hqueue, (no_wakeup_lost run).1 hopen ⟨0, hsleeps⟩⟩

theorem pool_drains_sleepersRun : ∃ trace pool, Run Step (start 2 Nat) trace pool ∧ pool.pool.jobQueue = [8] ∧
    ∃ later last, Run Internal pool later last ∧ later.length ≤ pool.work ∧ Drained (trace ++ later) last := by
  obtain ⟨trace, pool, run, hgood⟩ := @Run.exists_of_execute _ _ _ Step (start 2 Nat) act sleepersRun
    (fun _ pool => pool.pool.jobQueue == [8]) (fun h => h) (by decide)
  obtain ⟨hbound, later, last, hlater, hquiet⟩ := pool_drains Nat.zero_lt_two run
  obtain ⟨hlength, hdrained⟩ := hbound later last hlater
  exact ⟨trace, pool, run, beq_iff_eq.mp hgood, later, last, hlater, hlength, hdrained hquiet⟩

end WaitingPool

end SecureMessaging
