import Mathlib.Logic.Function.Basic
import SecureMessaging.ServerSteps

namespace SecureMessaging

/-- The constant `MAX_EVENTS`. -/
def maxEvents : Nat := 1024

/-- The server with what the kernel keeps for it: for each descriptor the requests that arrived
and were not received, whether its peer hung up and whether `epoll_wait` will report it; `batch`
are the reported events that `HandleEvents` has not come to yet. -/
structure EventLoop (χ : Type) where
  server : Server χ
  listener : Int
  unread : Int → List MessageBuffer
  hungUp : Int → Bool
  ready : Int → Bool
  batch : List Int

inductive Poll (χ : Type)
  | arrive (fd : Int) (request : MessageBuffer)
  | hangUp (fd : Int)
  | epollWait (fds : List Int)
  | accept (fd : Int) (agreed : Option χ)
  | handle (chatResult responseResult : Int)

namespace EventLoop

variable {χ : Type}

def start (listener : Int) : EventLoop χ :=
  ⟨Server.init, listener, fun _ => [], fun _ => false, fun _ => false, []⟩

/-- What `epoll_wait` may report: the listening socket, and clients' descriptors that are ready. -/
def reportable (loop : EventLoop χ) (fd : Int) : Bool :=
  fd == loop.listener || loop.server.registered fd && loop.ready fd

/-- A step of the kernel or of the loop in `HandleEvents`; none if it is not possible, if
`Receive` would block or if an exception ends the server. -/
def act (sha256 : List UInt8 → Digest) (loop : EventLoop χ) : Poll χ → Option (Output χ × EventLoop χ)
  | .arrive fd request =>
    if loop.hungUp fd then none
    else some (Output.silent, { loop with
      unread := Function.update loop.unread fd (loop.unread fd ++ [request])
      ready := Function.update loop.ready fd true })
  | .hangUp fd => some (Output.silent, { loop with
      hungUp := Function.update loop.hungUp fd true
      ready := Function.update loop.ready fd true })
  | .epollWait fds =>
    if loop.batch = [] ∧ fds.Nodup ∧ fds.length ≤ maxEvents ∧ fds.all loop.reportable = true then
      some (Output.silent, { loop with ready := fun fd => loop.ready fd && !fds.contains fd, batch := fds })
    else none
  | .accept fd agreed =>
    match loop.batch with
    | head :: rest =>
      -- the listening socket is open, so `Accept` returns another descriptor
      if head = loop.listener ∧ fd ≠ loop.listener then
        match loop.server.handleEvent sha256 (.accept fd agreed) with
        | .ok (server, out) => some (out, { loop with server := server, batch := rest })
        | .error _ => none
      else none
    | [] => none
  | .handle chatResult responseResult =>
    match loop.batch with
    | fd :: rest =>
      if fd = loop.listener then none
      else if loop.server.sessions.isEstablished fd then
        match loop.unread fd with
        | request :: later =>
          match loop.server.handleEvent sha256 (.ready fd (some request) chatResult responseResult) with
          | .ok (server, out) =>
            some (out, { loop with server := server, unread := Function.update loop.unread fd later, batch := rest })
          | .error _ => none
        | [] =>
          if loop.hungUp fd then
            match loop.server.handleEvent sha256 (.ready fd none chatResult responseResult) with
            | .ok (server, out) =>
              some (out, { loop with
                server := server
                hungUp := Function.update loop.hungUp fd false
                ready := Function.update loop.ready fd false
                batch := rest })
            | .error _ => none
          else none
      else some (Output.silent, { loop with batch := rest })
    | [] => none

def Step (sha256 : List UInt8 → Digest) (loop : EventLoop χ) (event : Poll χ) (out : Output χ)
    (next : EventLoop χ) : Prop :=
  loop.act sha256 event = some (out, next)

/-- A request only arrives where no readiness is pending that it could be folded into. -/
def unfolded (loop : EventLoop χ) : Poll χ → Bool
  | .arrive fd _ => !loop.ready fd
  | _ => true

variable {sha256 : List UInt8 → Digest} {loop next : EventLoop χ} {trace : List (Poll χ × Output χ)}

/-- All that a step can do. -/
inductive Turn (sha256 : List UInt8 → Digest) (loop : EventLoop χ) : Poll χ → Output χ → EventLoop χ → Prop
  | arrived {fd request} :
      Turn sha256 loop (.arrive fd request) Output.silent { loop with
        unread := Function.update loop.unread fd (loop.unread fd ++ [request])
        ready := Function.update loop.ready fd true }
  | hungUp {fd} :
      Turn sha256 loop (.hangUp fd) Output.silent { loop with
        hungUp := Function.update loop.hungUp fd true
        ready := Function.update loop.ready fd true }
  | reported {fds} (idle : loop.batch = []) (nodup : fds.Nodup) (reports : fds.all loop.reportable = true) :
      Turn sha256 loop (.epollWait fds) Output.silent
        { loop with ready := fun fd => loop.ready fd && !fds.contains fd, batch := fds }
  | accepted {fd agreed rest server out} (event : loop.batch = loop.listener :: rest) (fresh : fd ≠ loop.listener)
      (step : Server.Step sha256 loop.server (.accept fd agreed) out server) :
      Turn sha256 loop (.accept fd agreed) out { loop with server := server, batch := rest }
  | handled {fd request later chatResult responseResult rest server out} (event : loop.batch = fd :: rest)
      (unread : loop.unread fd = request :: later)
      (step : Server.Step sha256 loop.server (.ready fd (some request) chatResult responseResult) out server) :
      Turn sha256 loop (.handle chatResult responseResult) out
        { loop with server := server, unread := Function.update loop.unread fd later, batch := rest }
  | closed {fd chatResult responseResult rest server out} (event : loop.batch = fd :: rest)
      (unread : loop.unread fd = []) (hungUp : loop.hungUp fd = true)
      (step : Server.Step sha256 loop.server (.ready fd none chatResult responseResult) out server) :
      Turn sha256 loop (.handle chatResult responseResult) out { loop with
        server := server
        hungUp := Function.update loop.hungUp fd false
        ready := Function.update loop.ready fd false
        batch := rest }
  | skipped {fd chatResult responseResult rest} (event : loop.batch = fd :: rest) (client : fd ≠ loop.listener)
      (absent : loop.server.sessions.sessions fd = none) :
      Turn sha256 loop (.handle chatResult responseResult) Output.silent { loop with batch := rest }

theorem turn_of_step {event : Poll χ} {out : Output χ} (h : Step sha256 loop event out next) :
    Turn sha256 loop event out next := by
  unfold Step act at h
  cases event with
  | arrive fd request =>
    dsimp only at h
    split at h
    next => cases h
    next =>
      cases h
      exact .arrived
  | hangUp fd =>
    cases h
    exact .hungUp
  | epollWait fds =>
    dsimp only at h
    split at h
    next hcond =>
      cases h
      exact .reported hcond.1 hcond.2.1 hcond.2.2.2
    next => cases h
  | accept fd agreed =>
    dsimp only at h
    split at h
    next head rest hbatch =>
      split at h
      next hcond =>
        obtain ⟨hhead, hfresh⟩ := hcond
        split at h
        next server out' hstep =>
          cases h
          rw [hhead] at hbatch
          exact .accepted hbatch hfresh hstep
        next => cases h
      next => cases h
    next => cases h
  | handle chatResult responseResult =>
    dsimp only at h
    split at h
    next fd rest hbatch =>
      split at h
      next => cases h
      next hclient =>
        split at h
        next =>
          split at h
          next request later hunread =>
            split at h
            next server out' hstep =>
              cases h
              exact .handled hbatch hunread hstep
            next => cases h
          next hunread =>
            split at h
            next hhungUp =>
              split at h
              next server out' hstep =>
                cases h
                exact .closed hbatch hunread hhungUp hstep
              next => cases h
            next => cases h
        next hestablished =>
          cases h
          have habsent : loop.server.sessions.isEstablished fd = false := by simpa using hestablished
          exact .skipped hbatch hclient (Table.contains_eq_false.mp habsent)
    next => cases h

/-- A client's descriptor has no more unread requests than reports that are still to come. -/
structure Covered (loop : EventLoop χ) : Prop where
  present : ∀ fd, loop.server.registered fd = true → ∃ session, loop.server.sessions.sessions fd = some session
  listener_apart : loop.server.registered loop.listener = false
  listed : ∀ fd ∈ loop.batch, fd = loop.listener ∨ loop.server.registered fd = true
  nodup : loop.batch.Nodup
  unread_le : ∀ fd, fd ≠ loop.listener →
    (loop.unread fd).length ≤ (if loop.ready fd then 1 else 0) + loop.batch.count fd

theorem covered_start (listener : Int) : Covered (start listener : EventLoop χ) := by
  refine ⟨?_, rfl, ?_, List.nodup_nil, ?_⟩
  · intro fd hfd
    cases hfd
  · intro fd hfd
    cases hfd
  · intro fd _
    exact Nat.zero_le _

theorem covered_arrived {fd : Int} (covered : Covered loop) (request : MessageBuffer)
    (hready : loop.ready fd = false) : Covered { loop with
      unread := Function.update loop.unread fd (loop.unread fd ++ [request])
      ready := Function.update loop.ready fd true } := by
  obtain ⟨present, apart, listed, nodup, unread_le⟩ := covered
  refine ⟨present, apart, listed, nodup, ?_⟩
  intro k hk
  have hle := unread_le k hk
  by_cases hkfd : k = fd
  · subst hkfd
    simp only [hready, Bool.false_eq_true, if_false] at hle
    simp only [Function.update_self, List.length_append, List.length_singleton, if_true]
    omega
  · simp only [Function.update_of_ne hkfd]
    exact hle

theorem covered_hungUp (covered : Covered loop) (fd : Int) :
    Covered { loop with
      hungUp := Function.update loop.hungUp fd true
      ready := Function.update loop.ready fd true } := by
  obtain ⟨present, apart, listed, nodup, unread_le⟩ := covered
  refine ⟨present, apart, listed, nodup, ?_⟩
  intro k hk
  have hle := unread_le k hk
  by_cases hkfd : k = fd
  · subst hkfd
    simp only [Function.update_self, if_true]
    split at hle
    · exact hle
    · omega
  · simp only [Function.update_of_ne hkfd]
    exact hle

/-- A report moves from the readiness of a descriptor into the batch. -/
theorem covered_reported {fds : List Int} (covered : Covered loop) (idle : loop.batch = []) (hnodup : fds.Nodup)
    (reports : fds.all loop.reportable = true) :
    Covered { loop with ready := fun fd => loop.ready fd && !fds.contains fd, batch := fds } := by
  obtain ⟨present, apart, _, _, unread_le⟩ := covered
  refine ⟨present, apart, ?_, hnodup, ?_⟩
  · intro fd hfd
    have hreport := List.all_eq_true.mp reports fd hfd
    simp only [reportable, Bool.or_eq_true, beq_iff_eq, Bool.and_eq_true] at hreport
    rcases hreport with hlistener | hclient
    · exact Or.inl hlistener
    · exact Or.inr hclient.1
  · intro k hk
    have hle := unread_le k hk
    rw [idle, List.count_nil] at hle
    by_cases hmem : k ∈ fds
    · have hcount : 1 ≤ fds.count k := List.one_le_count_iff.mpr hmem
      have hone : (loop.unread k).length ≤ 1 := by
        split at hle
        · omega
        · omega
      dsimp only
      omega
    · have hcontains : fds.contains k = false := by simpa using hmem
      simp only [hcontains, Bool.not_false, Bool.and_true]
      omega

/-- What the server does with the front of the batch leaves the rest of it in order. -/
theorem covered_front {fd : Int} {rest : List Int} {event : Event χ} {out : Output χ} {server : Server χ}
    {unread : Int → List MessageBuffer} {hungUp ready : Int → Bool} (covered : Covered loop)
    (hbatch : loop.batch = fd :: rest) (h : Server.Effect sha256 loop.server event out server)
    (haccept : ∀ agreed, event ≠ .accept loop.listener agreed)
    (hclose : ∀ k chatResult responseResult, event = .ready k none chatResult responseResult → k = fd)
    (hunread : ∀ k, k ≠ loop.listener → (unread k).length ≤ (if ready k then 1 else 0) + rest.count k) :
    Covered { loop with server := server, unread := unread, hungUp := hungUp, ready := ready, batch := rest } := by
  obtain ⟨present, apart, listed, nodup, _⟩ := covered
  rw [hbatch] at listed nodup
  obtain ⟨hfresh, hrest⟩ := List.nodup_cons.mp nodup
  refine ⟨fun k hk => Server.present_step present h hk, Server.unregistered_stays h haccept apart, ?_, hrest, hunread⟩
  intro k hk
  rcases listed k (List.mem_cons_of_mem _ hk) with hlistener | hclient
  · exact Or.inl hlistener
  · refine Or.inr (Server.registered_stays h ?_ hclient)
    intro chatResult responseResult hevent
    rw [hclose k chatResult responseResult hevent] at hk
    exact hfresh hk

theorem covered_turn {event : Poll χ} {out : Output χ} (covered : Covered loop)
    (hunfolded : loop.unfolded event = true) (h : Turn sha256 loop event out next) : Covered next := by
  have hunread := covered.unread_le
  cases h with
  | @arrived fd request =>
    have hready : loop.ready fd = false := by simpa [unfolded] using hunfolded
    exact covered_arrived covered request hready
  | @hungUp fd => exact covered_hungUp covered fd
  | @reported fds idle nodup reports => exact covered_reported covered idle nodup reports
  | @accepted fd agreed rest server out event fresh step =>
    refine covered_front covered event (Server.effect_of_step step) ?_ ?_ ?_
    · intro agreed haccept
      cases haccept
      exact fresh rfl
    · intro k chatResult responseResult hclose
      cases hclose
    · intro k hk
      have hle := hunread k hk
      rw [event, List.count_cons_of_ne (Ne.symm hk)] at hle
      exact hle
  | @handled fd request later chatResult responseResult rest server out event unread step =>
    refine covered_front covered event (Server.effect_of_step step) (fun _ haccept => by cases haccept) ?_ ?_
    · intro k chatResult responseResult hclose
      cases hclose
    · intro k hk
      have hle := hunread k hk
      rw [event] at hle
      by_cases hkfd : k = fd
      · subst hkfd
        rw [unread, List.length_cons, List.count_cons_self] at hle
        rw [Function.update_self]
        omega
      · rw [List.count_cons_of_ne (Ne.symm hkfd)] at hle
        rw [Function.update_of_ne hkfd]
        exact hle
  | @closed fd chatResult responseResult rest server out event unread _ step =>
    refine covered_front covered event (Server.effect_of_step step) (fun _ haccept => by cases haccept) ?_ ?_
    · intro k chatResult responseResult hclose
      cases hclose
      rfl
    · intro k hk
      have hle := hunread k hk
      rw [event] at hle
      by_cases hkfd : k = fd
      · subst hkfd
        rw [unread]
        exact Nat.zero_le _
      · rw [List.count_cons_of_ne (Ne.symm hkfd)] at hle
        rw [Function.update_of_ne hkfd]
        exact hle
  | @skipped fd chatResult responseResult rest event client absent =>
    have hmem : fd ∈ loop.batch := by
      rw [event]
      exact List.mem_cons_self ..
    rcases covered.listed fd hmem with hlistener | hregistered
    · exact absurd hlistener client
    · obtain ⟨session, hs⟩ := covered.present fd hregistered
      rw [absent] at hs
      cases hs

/-- If no request was folded into a pending readiness, each connection with an unread request
is ready whenever `HandleEvents` is through with its events. -/
theorem nothing_left_behind {listener : Int}
    (run : Run (Guarded (fun loop event => loop.unfolded event = true) (Step sha256)) (start listener) trace loop)
    (hdone : loop.batch = []) :
    ∀ fd, loop.server.registered fd = true → loop.unread fd ≠ [] → loop.ready fd = true := by
  have covered : Covered loop := run.invariant (covered_start listener)
    fun covered h => covered_turn covered h.1 (turn_of_step h.2)
  intro fd hfd hunread
  have hclient : fd ≠ loop.listener := by
    intro hlistener
    rw [hlistener, covered.listener_apart] at hfd
    cases hfd
  have hle := covered.unread_le fd hclient
  have hpos := List.length_pos_iff.mpr hunread
  rw [hdone, List.count_nil] at hle
  cases hready : loop.ready fd with
  | true => rfl
  | false =>
    simp only [hready, Bool.false_eq_true, if_false] at hle
    omega

def advance (sha256 : List UInt8 → Digest) (allowed : EventLoop χ → Poll χ → Bool) (loop : EventLoop χ)
    (event : Poll χ) : Option (Output χ × EventLoop χ) :=
  if allowed loop event then loop.act sha256 event else none

theorem step_of_advance {allowed : EventLoop χ → Poll χ → Bool} {event : Poll χ} {out : Output χ}
    (h : advance sha256 allowed loop event = some (out, next)) :
    Guarded (fun loop event => allowed loop event = true) (Step sha256) loop event out next := by
  unfold advance at h
  split at h
  next hallowed => exact ⟨hallowed, h⟩
  next => cases h

theorem reaches_of_execute (sha256 : List UInt8 → Digest) (allowed : EventLoop χ → Poll χ → Bool) (listener : Int)
    (events : List (Poll χ)) (good : EventLoop χ → Bool)
    (h : (Run.execute (advance sha256 allowed) (start listener) events).any (fun reached => good reached.2) = true) :
    ∃ trace loop, Run (Guarded (fun loop event => allowed loop event = true) (Step sha256)) (start listener)
      trace loop ∧ good loop = true :=
  Run.exists_of_execute events (fun _ loop => good loop) step_of_advance h

def pings (fd : Int) : Poll χ :=
  .arrive fd ((Request.ping ⟨⟩).message.serialize (ByteVector.zero messageBufferSize)).2

/-- The second ping arrives while the first is handled. -/
def spacedRun : List (Poll Nat) :=
  [.epollWait [3], .accept 5 (some 0), pings 5, .epollWait [5], pings 5, .handle 1 1]

theorem nothing_left_behind_spacedRun : ∃ trace loop,
    Run (Guarded (fun loop event => loop.unfolded event = true) (Step Server.paddedDigest))
      (start 3 : EventLoop Nat) trace loop ∧ loop.unread 5 ≠ [] ∧ loop.ready 5 = true := by
  obtain ⟨trace, loop, run, hgood⟩ := reaches_of_execute Server.paddedDigest unfolded 3 spacedRun
    (fun loop => loop.batch.isEmpty && loop.server.registered 5 && !(loop.unread 5).isEmpty) (by decide +kernel)
  simp only [Bool.and_eq_true, List.isEmpty_iff, Bool.not_eq_true', List.isEmpty_eq_false_iff] at hgood
  obtain ⟨⟨hdone, hregistered⟩, hunread⟩ := hgood
  exact ⟨trace, loop, run, hunread, nothing_left_behind run hdone 5 hregistered hunread⟩

/-- Both pings arrive before the server looks. -/
def foldedRun : List (Poll Nat) :=
  [.epollWait [3], .accept 5 (some 0), pings 5, pings 5, .epollWait [5], .handle 1 1]

theorem request_left_behind : ¬∀ trace (loop : EventLoop Nat) listener,
    Run (Step Server.paddedDigest) (start listener) trace loop → loop.batch = [] →
    ∀ fd, loop.server.registered fd = true → loop.unread fd ≠ [] → loop.ready fd = true := by
  intro h
  obtain ⟨trace, loop, run, hgood⟩ := reaches_of_execute Server.paddedDigest (fun _ _ => true) 3 foldedRun
    (fun loop => loop.batch.isEmpty && loop.server.registered 5 && !(loop.unread 5).isEmpty && !loop.ready 5)
    (by decide +kernel)
  simp only [Bool.and_eq_true, List.isEmpty_iff, Bool.not_eq_true', List.isEmpty_eq_false_iff] at hgood
  obtain ⟨⟨⟨hdone, hregistered⟩, hunread⟩, hready⟩ := hgood
  rw [h trace loop 3 run.unguarded hdone 5 hregistered hunread] at hready
  cases hready

end EventLoop

end SecureMessaging
