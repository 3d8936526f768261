import SecureMessaging.ServerSteps
import SecureMessaging.Lib.Ledger

namespace SecureMessaging

namespace Server

variable {χ : Type} {sha256 : List UInt8 → Digest} {server : Server χ} {trace : List (Event χ × Output χ)}
  {u p : ByteString}

/-- The request that was handled in one turn of the event loop, and its answer. -/
def exchange : Event χ × Output χ → Option (Int × Request × Response)
  | (.ready fd (some buffer) _ _, out) =>
    match requestIn buffer, out.response with
    | some request, some response => some (fd, request, response)
    | _, _ => none
  | _ => none

/-- A Register or Login request for `u` that was answered Success. -/
def Registers (entry : Event χ × Output χ) (u p : ByteString) : Prop :=
  ∃ fd, exchange entry = some (fd, .register ⟨u, p⟩, .success ⟨⟩)

def LogsIn (entry : Event χ × Output χ) (fd : Int) (u p : ByteString) : Prop :=
  exchange entry = some (fd, .login ⟨u, p⟩, .success ⟨⟩)

theorem exchange_ready {fd chatResult responseResult : Int} {buffer : MessageBuffer} {out : Output χ} {k : Int}
    {request : Request} {response : Response}
    (h : exchange (.ready fd (some buffer) chatResult responseResult, out) = some (k, request, response)) :
    k = fd ∧ requestIn buffer = some request ∧ out.response = some response := by
  unfold exchange at h
  dsimp only at h
  split at h
  next hreq hresp =>
    cases h
    exact ⟨rfl, hreq, hresp⟩
  next => cases h

theorem exchange_silent {event : Event χ} : exchange (event, Output.silent) = none := by
  unfold exchange Output.silent
  split
  next heq =>
    cases heq
    simp
  next => rfl

theorem exchange_answered {fd chatResult responseResult : Int} {buffer : MessageBuffer} {request : Request}
    {response : Response} {forwarded replied : Option (Delivery χ)} (h : requestIn buffer = some request) :
    exchange (.ready fd (some buffer) chatResult responseResult, ⟨some response, forwarded, replied⟩) =
      some (fd, request, response) := by
  simp only [exchange, h]

theorem registers_of_ready {fd chatResult responseResult : Int} {buffer : MessageBuffer} {out : Output χ}
    (h : Registers (.ready fd (some buffer) chatResult responseResult, out) u p) :
    requestIn buffer = some (.register ⟨u, p⟩) ∧ out.response = some (.success ⟨⟩) := by
  obtain ⟨k, hk⟩ := h
  obtain ⟨_, hreq, hresp⟩ := exchange_ready hk
  exact ⟨hreq, hresp⟩

theorem not_registers_silent {event : Event χ} : ¬Registers (event, Output.silent) u p := by
  intro h
  obtain ⟨fd, hfd⟩ := h
  rw [exchange_silent] at hfd
  cases hfd

/-- The accounts change by successful Register requests only. -/
theorem accounts_of_effect {event : Event χ} {out : Output χ} {next : Server χ}
    (h : Effect sha256 server event out next) :
    (∃ u p, Registers (event, out) u p ∧ server.accounts.accounts u = none ∧
      next.accounts.accounts = server.accounts.accounts.assign u (AccountRegistry.hashPassword sha256 p)) ∨
    ((∀ u p, ¬Registers (event, out) u p) ∧ next.accounts = server.accounts) := by
  cases h with
  | rejected => exact Or.inr ⟨fun _ _ => not_registers_silent, rfl⟩
  | connected => exact Or.inr ⟨fun _ _ => not_registers_silent, rfl⟩
  | ignored => exact Or.inr ⟨fun _ _ => not_registers_silent, rfl⟩
  | destroyed => exact Or.inr ⟨fun _ _ => not_registers_silent, rfl⟩
  | leaked => exact Or.inr ⟨fun _ _ => not_registers_silent, rfl⟩
  | answered present answer =>
    cases answer with
    | refused short =>
      refine Or.inr ⟨?_, by simp⟩
      intro u p hreg
      have hresp := (registers_of_ready hreg).2
      cases hresp
    | ping request =>
      refine Or.inr ⟨?_, by simp⟩
      intro u p hreg
      have hreq := (registers_of_ready hreg).1
      rw [request] at hreq
      cases hreq
    | @registered m request absent =>
      exact Or.inl ⟨m.username, m.password, ⟨_, exchange_answered request⟩, absent, by simp⟩
    | loggedIn request =>
      refine Or.inr ⟨?_, by simp⟩
      intro u p hreg
      have hreq := (registers_of_ready hreg).1
      rw [request] at hreq
      cases hreq
    | chatted request =>
      refine Or.inr ⟨?_, by simp⟩
      intro u p hreg
      have hreq := (registers_of_ready hreg).1
      rw [request] at hreq
      cases hreq

/-- What a step does to the sessions. -/
inductive SessionChange (sha256 : List UInt8 → Digest) (server : Server χ) :
    Event χ → Output χ → SessionManager χ → Prop
  | kept {event out} (nobody : ∀ fd u p, ¬LogsIn (event, out) fd u p) :
      SessionChange sha256 server event out server.sessions
  | created {fd channel out} :
      SessionChange sha256 server (.accept fd (some channel)) out
        { server.sessions with
          sessions := server.sessions.sessions.emplace fd ⟨channel, ByteString.empty, false⟩ }
  | destroyed {fd session chatResult responseResult out} (present : server.sessions.sessions fd = some session)
      (authenticated : session.authenticated = true) :
      SessionChange sha256 server (.ready fd none chatResult responseResult) out
        ⟨server.sessions.sessions.erase fd, server.sessions.userToFd.erase session.username⟩
  | authenticated {fd session buffer chatResult responseResult m forwarded replied}
      (request : requestIn buffer = some (.login m))
      (stored : server.accounts.accounts m.username = some (AccountRegistry.hashPassword sha256 m.password))
      (present : server.sessions.sessions fd = some session)
      (free : server.sessions.isEstablishedUser m.username = false) :
      SessionChange sha256 server (.ready fd (some buffer) chatResult responseResult)
        ⟨some (.success ⟨⟩), forwarded, replied⟩
        ⟨server.sessions.sessions.assign fd ⟨session.channel, m.username, true⟩,
          server.sessions.userToFd.emplace m.username fd⟩

theorem not_logsIn_silent {event : Event χ} {fd : Int} : ¬LogsIn (event, Output.silent) fd u p := by
  intro h
  rw [LogsIn, exchange_silent] at h
  cases h

theorem logsIn_of_ready {fd chatResult responseResult k : Int} {buffer : MessageBuffer} {out : Output χ}
    (h : LogsIn (.ready fd (some buffer) chatResult responseResult, out) k u p) :
    k = fd ∧ requestIn buffer = some (.login ⟨u, p⟩) ∧ out.response = some (.success ⟨⟩) :=
  exchange_ready h

theorem sessions_of_effect {event : Event χ} {out : Output χ} {next : Server χ}
    (h : Effect sha256 server event out next) : SessionChange sha256 server event out next.sessions := by
  cases h with
  | rejected => exact .kept fun _ _ _ => not_logsIn_silent
  | connected => exact .created
  | ignored => exact .kept fun _ _ _ => not_logsIn_silent
  | destroyed present authenticated => exact .destroyed present authenticated
  | leaked => exact .kept fun _ _ _ => not_logsIn_silent
  | answered present answer =>
    rw [sendResponse_sessions]
    cases answer with
    | refused =>
      refine .kept ?_
      intro k u p hlogin
      have hresp := (logsIn_of_ready hlogin).2.2
      cases hresp
    | ping request =>
      refine .kept ?_
      intro k u p hlogin
      have hreq := (logsIn_of_ready hlogin).2.1
      rw [request] at hreq
      cases hreq
    | registered request =>
      refine .kept ?_
      intro k u p hlogin
      have hreq := (logsIn_of_ready hlogin).2.1
      rw [request] at hreq
      cases hreq
    | loggedIn request stored present free => exact .authenticated request stored present free
    | chatted request =>
      rw [sendResponse_sessions]
      refine .kept ?_
      intro k u p hlogin
      have hreq := (logsIn_of_ready hlogin).2.1
      rw [request] at hreq
      cases hreq

theorem Registers.unique {entry : Event χ × Output χ} {v q : ByteString} (h : Registers entry u p)
    (h' : Registers entry v q) : u = v ∧ p = q := by
  obtain ⟨fd, hfd⟩ := h
  obtain ⟨fd', hfd'⟩ := h'
  rw [hfd] at hfd'
  cases hfd'
  exact ⟨rfl, rfl⟩

/-- The trace has one Register request for `u` that was answered Success, and it was for `p`. -/
def RegisteredOnce (trace : List (Event χ × Output χ)) (u p : ByteString) : Prop :=
  ∃ before entry after, trace = before ++ entry :: after ∧ Registers entry u p ∧
    ∀ other ∈ before ++ after, ∀ q, ¬Registers other u q

/-- The accounts after a run are those that were registered in it, each once. -/
structure AccountHistory (sha256 : List UInt8 → Digest) (trace : List (Event χ × Output χ)) (server : Server χ) :
    Prop where
  stored : ∀ entry ∈ trace, ∀ u p, Registers entry u p →
    server.accounts.accounts u = some (AccountRegistry.hashPassword sha256 p)
  registered : ∀ u hash, server.accounts.accounts u = some hash →
    ∃ p, RegisteredOnce trace u p ∧ hash = AccountRegistry.hashPassword sha256 p

/-- The entry is a registration of `u`, and `hash` is that of its password. -/
def StoresHash (sha256 : List UInt8 → Digest) (entry : Event χ × Output χ) (u hash : ByteString) : Prop :=
  ∃ p, Registers entry u p ∧ hash = AccountRegistry.hashPassword sha256 p

theorem accounts_ledger_step {event : Event χ} {out : Output χ} {next : Server χ}
    (ledger : Ledger (StoresHash sha256) trace server.accounts.accounts)
    (h : Effect sha256 server event out next) :
    Ledger (StoresHash sha256) (trace ++ [(event, out)]) next.accounts.accounts := by
  rcases accounts_of_effect h with ⟨v, q, hreg, habsent, hnext⟩ | ⟨hno, hnext⟩
  · rw [hnext]
    refine ledger.write habsent ⟨q, hreg, rfl⟩ ?_
    intro u hash hstores
    obtain ⟨p, hu, rfl⟩ := hstores
    obtain ⟨rfl, rfl⟩ := hu.unique hreg
    exact ⟨rfl, rfl⟩
  · rw [hnext]
    refine ledger.keep ?_
    intro u hash hstores
    obtain ⟨p, hu, _⟩ := hstores
    exact hno u p hu

theorem accounts_ledger (run : Run (Step sha256) init trace server) :
    Ledger (StoresHash sha256) trace server.accounts.accounts := by
  refine run.history (P := fun trace server => Ledger (StoresHash sha256) trace server.accounts.accounts)
    Ledger.empty ?_
  intro trace server event out next _ ledger h
  exact accounts_ledger_step ledger (effect_of_step h)

theorem accountHistory (run : Run (Step sha256) init trace server) : AccountHistory sha256 trace server := by
  have ledger := accounts_ledger run
  refine ⟨?_, ?_⟩
  · intro entry hentry u p hreg
    exact ledger.stored entry hentry u _ ⟨p, hreg, rfl⟩
  · intro u hash hu
    obtain ⟨before, entry, after, hsplit, ⟨p, hreg, hhash⟩, hothers⟩ := ledger.written u hash hu
    refine ⟨p, ⟨before, entry, after, hsplit, hreg, ?_⟩, hhash⟩
    intro other hother q hreg'
    exact hothers other hother _ ⟨q, hreg', rfl⟩

end Server

end SecureMessaging
