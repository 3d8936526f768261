import SecureMessaging.EventLoop
import SecureMessaging.ServiceRefinement

namespace SecureMessaging

namespace EventLoop

variable {χ : Type} {sha256 : List UInt8 → Digest} {loop next : EventLoop χ} {trace : List (Poll χ × Output χ)}

/-- The descriptors that are still to come in a batch belong to connections that are there. -/
structure Reported (loop : EventLoop χ) : Prop where
  present : ∀ fd, loop.server.registered fd = true → ∃ session, loop.server.sessions.sessions fd = some session
  listener_apart : loop.server.registered loop.listener = false
  listed : ∀ fd ∈ loop.batch, fd = loop.listener ∨ loop.server.registered fd = true
  nodup : loop.batch.Nodup

theorem reported_start (listener : Int) : Reported (start listener : EventLoop χ) := by
  refine ⟨?_, rfl, ?_, List.nodup_nil⟩
  · intro fd hfd
    cases hfd
  · intro fd hfd
    cases hfd

/-- What is done for the front of a batch closes no connection that is reported behind it. -/
theorem reported_front {fd : Int} {rest : List Int} {event : Event χ} {out : Output χ} {server : Server χ}
    {unread : Int → List MessageBuffer} {hungUp ready : Int → Bool} (reported : Reported loop)
    (hbatch : loop.batch = fd :: rest) (h : Server.Effect sha256 loop.server event out server)
    (haccept : ∀ agreed, event ≠ .accept loop.listener agreed)
    (hclose : ∀ k chatResult responseResult, event = .ready k none chatResult responseResult → k = fd) :
    Reported { loop with server := server, unread := unread, hungUp := hungUp, ready := ready, batch := rest } := by
  obtain ⟨present, apart, listed, nodup⟩ := reported
  rw [hbatch] at listed nodup
  obtain ⟨hfresh, hrest⟩ := List.nodup_cons.mp nodup
  refine ⟨fun k hk => Server.present_step present h hk, Server.unregistered_stays h haccept apart, ?_, hrest⟩
  intro k hk
  rcases listed k (List.mem_cons_of_mem _ hk) with hlistener | hclient
  · exact Or.inl hlistener
  · refine Or.inr (Server.registered_stays h ?_ hclient)
    intro chatResult responseResult hevent
    rw [hclose k chatResult responseResult hevent] at hk
    exact hfresh hk

theorem Reported.established (reported : Reported loop) {fd : Int} (hfd : fd ∈ loop.batch) :
    fd = loop.listener ∨
      loop.server.registered fd = true ∧ ∃ session, loop.server.sessions.sessions fd = some session := by
  rcases reported.listed fd hfd with hlistener | hregistered
  · exact Or.inl hlistener
  · exact Or.inr ⟨hregistered, reported.present fd hregistered⟩

theorem reported_turn {event : Poll χ} {out : Output χ} (reported : Reported loop)
    (h : Turn sha256 loop event out next) : Reported next := by
  obtain ⟨present, apart, listed, nodup⟩ := reported
  cases h with
  | arrived => exact ⟨present, apart, listed, nodup⟩
  | hungUp => exact ⟨present, apart, listed, nodup⟩
  | @reported fds idle hnodup reports =>
    refine ⟨present, apart, ?_, hnodup⟩
    intro fd hfd
    have hreport := List.all_eq_true.mp reports fd hfd
    simp only [reportable, Bool.or_eq_true, beq_iff_eq, Bool.and_eq_true] at hreport
    rcases hreport with hlistener | hclient
    · exact Or.inl hlistener
    · exact Or.inr hclient.1
  | @accepted fd agreed rest server out event fresh step =>
    refine reported_front ⟨present, apart, listed, nodup⟩ event (Server.effect_of_step step) ?_ ?_
    · intro agreed haccept
      cases haccept
      exact fresh rfl
    · intro k chatResult responseResult hclose
      cases hclose
  | handled event _ step =>
    refine reported_front ⟨present, apart, listed, nodup⟩ event (Server.effect_of_step step)
      (fun _ haccept => by cases haccept) ?_
    intro k chatResult responseResult hclose
    cases hclose
  | closed event _ _ step =>
    refine reported_front ⟨present, apart, listed, nodup⟩ event (Server.effect_of_step step)
      (fun _ haccept => by cases haccept) ?_
    intro k chatResult responseResult hclose
    cases hclose
    rfl
  | @skipped fd chatResult responseResult rest event client absent =>
    have hmem : fd ∈ loop.batch := by
      rw [event]
      exact List.mem_cons_self
    rcases Reported.established ⟨present, apart, listed, nodup⟩ hmem with hlistener | ⟨_, session, hs⟩
    · exact absurd hlistener client
    · rw [absent] at hs
      cases hs

theorem reported_of_run {listener : Int} (run : Run (Step sha256) (start listener) trace loop) : Reported loop :=
  run.invariant (reported_start listener) fun reported h => reported_turn reported (turn_of_step h)

/-- However the events of a batch are mixed, and whatever was accepted or closed before its turn came, each
descriptor in it is the listening socket or a registered connection with a session: the branch for requests
without a secure connection is never taken. -/
theorem reports_established {listener : Int} (run : Run (Step sha256) (start listener) trace loop) {fd : Int}
    (hfd : fd ∈ loop.batch) : fd = loop.listener ∨
      loop.server.registered fd = true ∧ ∃ session, loop.server.sessions.sessions fd = some session :=
  (reported_of_run run).established hfd

/-- The client is reported together with the listening socket. -/
def mixedBatch : List (Poll Nat) :=
  [.epollWait [3], .accept 5 (some 0), pings 5, .epollWait [3, 5], .accept 6 (some 1)]

theorem reports_established_mixedBatch : ∃ trace loop,
    Run (Step Server.paddedDigest) (start 3 : EventLoop Nat) trace loop ∧ loop.listener = 3 ∧ 5 ∈ loop.batch ∧
      ∃ session, loop.server.sessions.sessions 5 = some session := by
  obtain ⟨trace, loop, run, hgood⟩ := reaches_of_execute Server.paddedDigest (fun _ _ => true) 3 mixedBatch
    (fun loop => loop.listener == 3 && loop.batch == [5]) (by decide +kernel)
  obtain ⟨hlistener, hbatch⟩ := (Bool.and_eq_true _ _).mp hgood
  have hlistener' : loop.listener = 3 := beq_iff_eq.mp hlistener
  have hmem : 5 ∈ loop.batch := by simp [beq_iff_eq.mp hbatch]
  have hclient : (5 : Int) ≠ loop.listener := by rw [hlistener']; decide
  exact ⟨trace, loop, run.unguarded, hlistener', hmem,
    ((reports_established run.unguarded hmem).resolve_left hclient).2⟩

/-- What the server answered, in the order in which it did. -/
def answered {ε : Type} (entry : ε × Output χ) : Option (Output χ) :=
  if entry.2.response.isSome then some entry.2 else none

/-- The requests that arrive at a descriptor. -/
def arrived (fd : Int) : Poll χ × Output χ → List MessageBuffer
  | (.arrive k request, _) => if k = fd then [request] else []
  | _ => []

def hangsUp (fd : Int) : Poll χ × Output χ → Bool
  | (.hangUp k, _) => k == fd
  | _ => false

/-- A connection that is accepted, with its channel. -/
def accepted : Poll χ × Output χ → Option (Int × χ)
  | (.accept fd (some channel), _) => if fd = -1 then none else some (fd, channel)
  | _ => none

/-- What the service does in a run, without what it answers. -/
abbrev Seen (χ : Type) : Type :=
  ChatService.Event Int χ ByteString ByteString ByteString × ChatService.Outcome χ ByteString ByteString

def demanded (fd : Int) : Seen χ → List (ChatService.Demand ByteString ByteString ByteString)
  | (.ask k demand, _) => if k = fd then [demand] else []
  | _ => []

def disconnects (fd : Int) : Seen χ → Bool
  | (.disconnect k, _) => k == fd
  | _ => false

def connected : Seen χ → Option (Int × χ)
  | (.connect fd channel, _) => some (fd, channel)
  | _ => none

/-- Between two states of the loop the server handled what came in: the connections in the order in which they
were accepted and the requests of each descriptor in the order in which they arrived, up to the ones that are
unread; it gave the same answers in the same order, and ended no connection more often than its peer hung up. -/
structure Serves (loop : EventLoop χ) (trace : List (Poll χ × Output χ)) (next : EventLoop χ)
    (served : List (Event χ × Output χ)) : Prop where
  answers : served.filterMap answered = trace.filterMap answered
  connects : (served.filterMap Server.observe).filterMap connected = trace.filterMap accepted
  demands : ∀ fd, (loop.unread fd ++ trace.flatMap (arrived fd)).map Server.demandIn =
    (served.filterMap Server.observe).flatMap (demanded fd) ++ (next.unread fd).map Server.demandIn
  hangUps : ∀ fd, (served.filterMap Server.observe).countP (disconnects fd) + (next.hungUp fd).toNat ≤
    (loop.hungUp fd).toNat + trace.countP (hangsUp fd)

theorem Serves.refl : Serves loop [] loop [] := by
  refine ⟨rfl, rfl, ?_, ?_⟩
  · intro fd
    simp
  · intro fd
    simp

theorem Serves.append {later : List (Poll χ × Output χ)} {served more : List (Event χ × Output χ)}
    {last : EventLoop χ} (before : Serves loop trace next served) (after : Serves next later last more) :
    Serves loop (trace ++ later) last (served ++ more) := by
  refine ⟨?_, ?_, ?_, ?_⟩
  · rw [List.filterMap_append, List.filterMap_append, before.answers, after.answers]
  · rw [List.filterMap_append, List.filterMap_append, List.filterMap_append, before.connects, after.connects]
  · intro fd
    have hbefore := before.demands fd
    have hafter := after.demands fd
    rw [List.map_append] at hafter
    rw [List.flatMap_append, ← List.append_assoc, List.map_append, hbefore, List.append_assoc, hafter,
      List.filterMap_append, List.flatMap_append, List.append_assoc]
  · intro fd
    have hbefore := before.hangUps fd
    have hafter := after.hangUps fd
    rw [List.filterMap_append, List.countP_append, List.countP_append]
    omega

def asks (fd : Int) (request : Request) : Poll Nat :=
  .arrive fd (request.message.serialize (ByteVector.zero messageBufferSize)).2

end EventLoop

end SecureMessaging
