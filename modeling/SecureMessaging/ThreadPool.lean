import SecureMessaging.Lib.Handout
import SecureMessaging.Lib.Runs

namespace SecureMessaging

/-- Where a thread is in `ThreadLoop`: in front of the section that holds the mutex or waiting in it,
behind the section with a job, in the job, or at its end. -/
inductive Worker (J : Type)
  | ready
  | taken (job : J)
  | running (job : J)
  | exited

/-- The job that a thread took and did not call yet. -/
def Worker.pending {J : Type} : Worker J → List J
  | .taken job => [job]
  | _ => []

/-- The job that a thread called and that did not return yet. -/
def Worker.current {J : Type} : Worker J → List J
  | .running job => [job]
  | _ => []

/-- `joined` counts the threads that the destructor has joined. -/
structure ThreadPool (n : Nat) (J : Type) where
  jobQueue : List J
  deconstructing : Bool
  workers : Fin n → Worker J
  joined : Nat

namespace ThreadPool

/-- A call of `Enqueue` or `Busy`, a thread's section that holds the mutex, the call of its job and
the return from it, and of the destructor the section that sets the flag and the join of the next thread. -/
inductive Event (n : Nat) (J : Type)
  | enqueue (job : J)
  | busy
  | turn (i : Fin n)
  | call (i : Fin n)
  | finish (i : Fin n)
  | deconstruct
  | join

/-- `readEmpty` is a call of `front` on an empty queue. -/
inductive Observation (J : Type)
  | silent
  | busy (output : Bool)
  | took (job : J)
  | called (job : J)
  | returned (job : J)
  | readEmpty

variable {n : Nat} {J : Type}

def start (n : Nat) (J : Type) : ThreadPool n J := ⟨[], false, fun _ => .ready, 0⟩

/-- One step, if it is possible; a thread that wakes up and finds nothing waits again. -/
def act (pool : ThreadPool n J) : Event n J → Option (Observation J × ThreadPool n J)
  | .enqueue job => some (.silent, { pool with jobQueue := pool.jobQueue ++ [job] })
  | .busy => some (.busy !pool.jobQueue.isEmpty, pool)
  | .turn i =>
    match pool.workers i with
    | .ready =>
      if !pool.jobQueue.isEmpty || pool.deconstructing then
        if pool.deconstructing then
          some (.silent, { pool with workers := Function.update pool.workers i .exited })
        else
          match pool.jobQueue with
          | job :: rest =>
            some (.took job, { pool with
              jobQueue := rest
              workers := Function.update pool.workers i (.taken job) })
          | [] => some (.readEmpty, pool)
      else some (.silent, pool)
    | _ => none
  | .call i =>
    match pool.workers i with
    | .taken job => some (.called job, { pool with workers := Function.update pool.workers i (.running job) })
    | _ => none
  | .finish i =>
    match pool.workers i with
    | .running job => some (.returned job, { pool with workers := Function.update pool.workers i .ready })
    | _ => none
  | .deconstruct => if pool.deconstructing then none else some (.silent, { pool with deconstructing := true })
  | .join =>
    if h : pool.joined < n then
      match pool.deconstructing, pool.workers ⟨pool.joined, h⟩ with
      | true, .exited => some (.silent, { pool with joined := pool.joined + 1 })
      | _, _ => none
    else none

def Step (pool : ThreadPool n J) (event : Event n J) (out : Observation J) (next : ThreadPool n J) : Prop :=
  pool.act event = some (out, next)

variable {pool next : ThreadPool n J} {event : Event n J} {out : Observation J}
  {trace : List (Event n J × Observation J)}

/-- All that a step can do. -/
inductive Effect (pool : ThreadPool n J) : Event n J → Observation J → ThreadPool n J → Prop
  | enqueued {job} : Effect pool (.enqueue job) .silent { pool with jobQueue := pool.jobQueue ++ [job] }
  | asked {output} : Effect pool .busy (.busy output) pool
  | waited {i} : Effect pool (.turn i) .silent pool
  | exited {i} (ready : pool.workers i = .ready) :
      Effect pool (.turn i) .silent { pool with workers := Function.update pool.workers i .exited }
  | took {i job rest} (ready : pool.workers i = .ready) (open' : pool.deconstructing = false)
      (front : pool.jobQueue = job :: rest) :
      Effect pool (.turn i) (.took job)
        { pool with jobQueue := rest, workers := Function.update pool.workers i (.taken job) }
  | called {i job} (taken : pool.workers i = .taken job) :
      Effect pool (.call i) (.called job) { pool with workers := Function.update pool.workers i (.running job) }
  | returned {i job} (running : pool.workers i = .running job) :
      Effect pool (.finish i) (.returned job) { pool with workers := Function.update pool.workers i .ready }
  | deconstructed : Effect pool .deconstruct .silent { pool with deconstructing := true }
  | joined (h : pool.joined < n) (exited : pool.workers ⟨pool.joined, h⟩ = .exited) :
      Effect pool .join .silent { pool with joined := pool.joined + 1 }

theorem effect_of_turn {i : Fin n} (h : Step pool (.turn i) out next) : Effect pool (.turn i) out next := by
  unfold Step act at h
  dsimp only at h
  split at h
  next hready =>
    split at h
    next hawake =>
      split at h
      next =>
        cases h
        exact .exited hready
      next hopen =>
        have hopen' : pool.deconstructing = false := Bool.eq_false_iff.mpr hopen
        split at h
        next job rest hqueue =>
          cases h
          exact .took hready hopen' hqueue
        next hempty =>
          -- the thread waits until there is a job or the pool ends
          rw [hempty, hopen'] at hawake
          cases hawake
    next =>
      cases h
      exact .waited
  next => cases h

theorem effect_of_step (h : Step pool event out next) : Effect pool event out next := by
  cases event with
  | enqueue job =>
    cases h
    exact .enqueued
  | busy =>
    cases h
    exact .asked
  | turn i => exact effect_of_turn h
  | call i =>
    unfold Step act at h
    dsimp only at h
    split at h
    next job htaken =>
      cases h
      exact .called htaken
    next => cases h
  | finish i =>
    unfold Step act at h
    dsimp only at h
    split at h
    next job hrunning =>
      cases h
      exact .returned hrunning
    next => cases h
  | deconstruct =>
    unfold Step act at h
    dsimp only at h
    split at h
    next => cases h
    next =>
      cases h
      exact .deconstructed
  | join =>
    unfold Step act at h
    dsimp only at h
    split at h
    next hlt =>
      split at h
      next _ hexited =>
        cases h
        exact .joined hlt hexited
      next => cases h
    next => cases h

def enqueued : Event n J × Observation J → Option J
  | (.enqueue job, _) => some job
  | _ => none

/-- The thread that took a job off the queue, and the job. -/
def removal : Event n J × Observation J → Option (Fin n × J)
  | (.turn i, .took job) => some (i, job)
  | _ => none

def calling : Event n J × Observation J → Option (Fin n × J)
  | (.call i, .called job) => some (i, job)
  | _ => none

def returning : Event n J × Observation J → Option (Fin n × J)
  | (.finish i, .returned job) => some (i, job)
  | _ => none

/-- The jobs that the threads have in hand. -/
def held (pool : ThreadPool n J) (i : Fin n) : List J := (pool.workers i).pending

def busyWith (pool : ThreadPool n J) (i : Fin n) : List J := (pool.workers i).current

theorem held_update (pool : ThreadPool n J) (queue : List J) (flag : Bool) (i : Fin n) (worker : Worker J)
    (count : Nat) : held ⟨queue, flag, Function.update pool.workers i worker, count⟩ =
      Function.update pool.held i worker.pending :=
  Function.comp_update Worker.pending pool.workers i worker

theorem busyWith_update (pool : ThreadPool n J) (queue : List J) (flag : Bool) (i : Fin n) (worker : Worker J)
    (count : Nat) : busyWith ⟨queue, flag, Function.update pool.workers i worker, count⟩ =
      Function.update pool.busyWith i worker.current :=
  Function.comp_update Worker.current pool.workers i worker

/-- What was taken off the queue and what is in it are the jobs in the order they came in; each thread
called what it took, and nothing else, in that order. -/
def HandedOut (trace : List (Event n J × Observation J)) (pool : ThreadPool n J) : Prop :=
  Handout (trace.filterMap enqueued) pool.jobQueue (trace.filterMap removal) (trace.filterMap calling)
    (trace.filterMap returning) pool.held pool.busyWith

theorem filterMap_concat {α β : Type} (f : α → Option β) (xs : List α) (x : α) :
    (xs ++ [x]).filterMap f = xs.filterMap f ++ (f x).toList := by
  rw [List.filterMap_append]
  cases hx : f x <;> simp [hx]

/-- A step that is about no job changes none of the lists. -/
theorem HandedOut.silent (h : HandedOut trace pool) (hqueue : next.jobQueue = pool.jobQueue)
    (hheld : next.held = pool.held) (hbusy : next.busyWith = pool.busyWith)
    (hnone : enqueued (event, out) = none ∧ removal (event, out) = none ∧ calling (event, out) = none ∧
      returning (event, out) = none) : HandedOut (trace ++ [(event, out)]) next := by
  obtain ⟨henqueued, hremoval, hcalling, hreturning⟩ := hnone
  unfold HandedOut at h ⊢
  rw [filterMap_concat, filterMap_concat, filterMap_concat, filterMap_concat, henqueued, hremoval, hcalling,
    hreturning, hqueue, hheld, hbusy]
  simp only [Option.toList_none, List.append_nil]
  exact h

theorem held_same {i : Fin n} {before after : Worker J} (h : pool.workers i = before)
    (hpending : after.pending = before.pending) : Function.update pool.held i after.pending = pool.held :=
  Function.update_eq_self_iff.mpr (hpending.trans (congrArg Worker.pending h).symm)

theorem busyWith_same {i : Fin n} {before after : Worker J} (h : pool.workers i = before)
    (hcurrent : after.current = before.current) : Function.update pool.busyWith i after.current = pool.busyWith :=
  Function.update_eq_self_iff.mpr (hcurrent.trans (congrArg Worker.current h).symm)

theorem handedOut_step (h : HandedOut trace pool) (heffect : Effect pool event out next) :
    HandedOut (trace ++ [(event, out)]) next := by
  cases heffect with
  | @enqueued job =>
    unfold HandedOut at h ⊢
    rw [filterMap_concat, filterMap_concat, filterMap_concat, filterMap_concat]
    simp only [enqueued, removal, calling, returning, Option.toList_none, Option.toList_some, List.append_nil]
    exact h.arrive job
  | asked => exact h.silent rfl rfl rfl ⟨rfl, rfl, rfl, rfl⟩
  | waited => exact h.silent rfl rfl rfl ⟨rfl, rfl, rfl, rfl⟩
  | @exited i ready =>
    refine h.silent rfl ?_ ?_ ⟨rfl, rfl, rfl, rfl⟩
    · rw [held_update]
      exact held_same ready rfl
    · rw [busyWith_update]
      exact busyWith_same ready rfl
  | @took i job rest ready _ front =>
    have hheld : pool.held i = [] := congrArg Worker.pending ready
    have hbusy : Function.update pool.busyWith i (Worker.current (.taken job)) = pool.busyWith :=
      busyWith_same ready rfl
    unfold HandedOut at h ⊢
    rw [front] at h
    rw [filterMap_concat, filterMap_concat, filterMap_concat, filterMap_concat, held_update, busyWith_update, hbusy]
    simp only [enqueued, removal, calling, returning, Option.toList_none, Option.toList_some, List.append_nil]
    exact h.remove hheld
  | @called i job taken =>
    have hheld : pool.held i = [job] := congrArg Worker.pending taken
    have hbusy : pool.busyWith i = [] := congrArg Worker.current taken
    unfold HandedOut at h ⊢
    rw [filterMap_concat, filterMap_concat, filterMap_concat, filterMap_concat, held_update, busyWith_update]
    simp only [enqueued, removal, calling, returning, Option.toList_none, Option.toList_some, List.append_nil]
    exact h.start hheld hbusy
  | @returned i job running =>
    have hheld : Function.update pool.held i (Worker.pending .ready) = pool.held :=
      held_same running rfl
    have hbusy : pool.busyWith i = [job] := congrArg Worker.current running
    unfold HandedOut at h ⊢
    rw [filterMap_concat, filterMap_concat, filterMap_concat, filterMap_concat, held_update, busyWith_update, hheld]
    simp only [enqueued, removal, calling, returning, Option.toList_none, Option.toList_some, List.append_nil]
    exact h.finish hbusy
  | deconstructed => exact h.silent rfl rfl rfl ⟨rfl, rfl, rfl, rfl⟩
  | joined => exact h.silent rfl rfl rfl ⟨rfl, rfl, rfl, rfl⟩

theorem handedOut_of_run (run : Run Step (start n J) trace pool) : HandedOut trace pool := by
  have hstart : HandedOut [] (start n J) := Handout.empty
  refine run.history (P := HandedOut) hstart ?_
  intro trace pool event out next _ h hstep
  exact handedOut_step h (effect_of_step hstep)

theorem deconstructing_stays (h : Effect pool event out next) (hflag : pool.deconstructing = true) :
    next.deconstructing = true ∧ removal (event, out) = none := by
  cases h with
  | enqueued => exact ⟨hflag, rfl⟩
  | asked => exact ⟨hflag, rfl⟩
  | waited => exact ⟨hflag, rfl⟩
  | exited => exact ⟨hflag, rfl⟩
  | took _ hopen => cases hopen.symm.trans hflag
  | called => exact ⟨hflag, rfl⟩
  | returned => exact ⟨hflag, rfl⟩
  | deconstructed => exact ⟨rfl, rfl⟩
  | joined => exact ⟨hflag, rfl⟩

/-- Once the flag is set nothing is taken off the queue. -/
theorem no_removal (run : Run Step pool trace next) (hflag : pool.deconstructing = true) :
    next.deconstructing = true ∧ trace.filterMap removal = [] := by
  refine run.history (P := fun trace next => next.deconstructing = true ∧ trace.filterMap removal = [])
    ⟨hflag, rfl⟩ ?_
  intro trace s event out s' _ h hstep
  obtain ⟨hset, hnone⟩ := h
  obtain ⟨hset', hnone'⟩ := deconstructing_stays (effect_of_step hstep) hset
  refine ⟨hset', ?_⟩
  rw [filterMap_concat, hnone, hnone']
  rfl

theorem no_removal_after {before after : List (Event n J × Observation J)}
    (run : Run Step (start n J) (before ++ (.deconstruct, out) :: after) pool) : after.filterMap removal = [] := by
  obtain ⟨s, s', _, hstep, hafter⟩ := run.at_entry
  have hset : s'.deconstructing = true := by
    cases effect_of_step hstep with
    | deconstructed => rfl
  exact (no_removal hafter hset).2

theorem not_readEmpty (h : Effect pool event out next) : out ≠ .readEmpty := by
  rintro rfl
  cases h

theorem never_readEmpty (run : Run Step pool trace next) {entry : Event n J × Observation J} (h : entry ∈ trace) :
    entry.2 ≠ .readEmpty := by
  obtain ⟨before, after, rfl⟩ := List.append_of_mem h
  obtain ⟨event, out⟩ := entry
  obtain ⟨_, _, _, hstep, _⟩ := run.at_entry
  exact not_readEmpty (effect_of_step hstep)

theorem exited_stays (h : Effect pool event out next) {i : Fin n} (hi : pool.workers i = .exited) :
    next.workers i = .exited := by
  have hother : ∀ {k : Fin n} {worker : Worker J}, pool.workers k = worker → worker ≠ .exited →
      ∀ after, Function.update pool.workers k after i = .exited := by
    intro k worker hk hworker after
    have hik : i ≠ k := by
      rintro rfl
      exact hworker (hk.symm.trans hi)
    rw [Function.update_of_ne hik, hi]
  cases h with
  | enqueued => exact hi
  | asked => exact hi
  | waited => exact hi
  | exited ready => exact hother ready nofun _
  | took ready => exact hother ready nofun _
  | called taken => exact hother taken nofun _
  | returned running => exact hother running nofun _
  | deconstructed => exact hi
  | joined => exact hi

/-- The threads that were joined are at their end. -/
def JoinedExited (pool : ThreadPool n J) : Prop := ∀ i : Fin n, i.val < pool.joined → pool.workers i = .exited

theorem joinedExited_step (h : JoinedExited pool) (heffect : Effect pool event out next) : JoinedExited next := by
  intro i hi
  cases heffect with
  | joined hlt hexited =>
    have hi' : i.val < pool.joined + 1 := hi
    rcases Nat.lt_succ_iff_lt_or_eq.mp hi' with hbefore | hlast
    · exact h i hbefore
    · have heq : i = ⟨pool.joined, hlt⟩ := Fin.ext hlast
      rw [heq]
      exact hexited
  | enqueued => exact h i hi
  | asked => exact h i hi
  | waited => exact h i hi
  | exited ready => exact exited_stays (.exited ready) (h i hi)
  | took ready hopen front => exact exited_stays (.took ready hopen front) (h i hi)
  | called taken => exact exited_stays (.called taken) (h i hi)
  | returned running => exact exited_stays (.returned running) (h i hi)
  | deconstructed => exact h i hi

theorem joinedExited_of_run (run : Run Step (start n J) trace pool) : JoinedExited pool := by
  have hstart : JoinedExited (start n J) := fun _ hi => absurd hi (Nat.not_lt_zero _)
  exact run.invariant hstart fun h hstep => joinedExited_step h (effect_of_step hstep)

/-- Whatever order the threads, the callers of `Enqueue` and the destructor run in, the jobs leave the
queue in the order they came, each is run once and by the thread that took it, and none is left running. -/
theorem jobs_handed_out (n : Nat) (J : Type) (trace : List (Event n J × Observation J)) (pool : ThreadPool n J)
    (run : Run Step (start n J) trace pool) :
    HandedOut trace pool ∧
    ((trace.filterMap enqueued).Nodup → ∀ job ∈ (trace.filterMap removal).map Prod.snd,
      ∃ i, job ∈ shareOf i (trace.filterMap calling) ++ pool.held i ∧
        (shareOf i (trace.filterMap calling) ++ pool.held i).Nodup ∧
        ∀ k, k ≠ i → job ∉ shareOf k (trace.filterMap calling) ++ pool.held k) ∧
    (∀ entry ∈ trace, entry.2 ≠ .readEmpty) ∧
    (∀ before out after, trace = before ++ (.deconstruct, out) :: after → after.filterMap removal = []) ∧
    (pool.joined = n → ∀ i, pool.workers i = .exited) := by
  have handedOut := handedOut_of_run run
  refine ⟨handedOut, fun hdistinct job hjob => handedOut.once hdistinct hjob, fun entry h => never_readEmpty run h,
    ?_, ?_⟩
  · rintro before out after rfl
    exact no_removal_after run
  · intro hall i
    exact joinedExited_of_run run i (by rw [hall]; exact i.isLt)

/-- Two of the threads run two of three jobs at the same time, the second one ends first, and the destructor is
called while the first one is still in its job. -/
def threeThreads : List (Event 3 Nat) :=
  [.enqueue 7, .turn 1, .enqueue 8, .turn 2, .enqueue 9, .call 2, .call 1, .finish 2, .deconstruct, .turn 0, .turn 2,
    .join, .finish 1, .turn 1, .join, .join]

theorem jobs_handed_out_threeThreads : ∃ trace pool, Run Step (start 3 Nat) trace pool ∧ HandedOut trace pool ∧
    trace.filterMap removal = [(1, 7), (2, 8)] ∧ trace.filterMap returning = [(2, 8), (1, 7)] ∧
    pool.jobQueue = [9] ∧ (∀ k, k ≠ 1 → 7 ∉ shareOf k (trace.filterMap calling) ++ pool.held k) ∧
    ∀ i, pool.workers i = .exited := by
  obtain ⟨trace, pool, run, hgood⟩ := @Run.exists_of_execute _ _ _ Step (start 3 Nat) act threeThreads
    (fun trace pool => trace.filterMap enqueued == [7, 8, 9] && trace.filterMap removal == [(1, 7), (2, 8)] &&
      trace.filterMap returning == [(2, 8), (1, 7)] && shareOf 1 (trace.filterMap calling) == [7] &&
      pool.jobQueue == [9] && pool.joined == 3) (fun h => h) (by decide)
  simp only [Bool.and_eq_true, beq_iff_eq] at hgood
  obtain ⟨⟨⟨⟨⟨henqueued, hremoval⟩, hreturning⟩, hcalled⟩, hqueue⟩, hjoined⟩ := hgood
  obtain ⟨handedOut, once, _, _, hexited⟩ := jobs_handed_out 3 Nat trace pool run
  refine ⟨trace, pool, run, handedOut, hremoval, hreturning, hqueue, ?_, hexited hjoined⟩
  have hdistinct : (trace.filterMap enqueued).Nodup := by
    rw [henqueued]
    decide
  have htaken : 7 ∈ (trace.filterMap removal).map Prod.snd := by
    rw [hremoval]
    decide
  obtain ⟨i, _, _, hothers⟩ := once hdistinct 7 htaken
  have hcalled' : 7 ∈ shareOf 1 (trace.filterMap calling) ++ pool.held 1 := by
    rw [hcalled]
    exact List.mem_cons_self
  have hone : i = 1 := by
    by_contra hne
    exact hothers 1 (Ne.symm hne) hcalled'
  rw [hone] at hothers
  exact hothers

end ThreadPool

end SecureMessaging
