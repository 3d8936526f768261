import SecureMessaging.History
import SecureMessaging.Registration

namespace SecureMessaging

/-- A session bears the name of an account if it is authenticated, and no name otherwise. -/
structure Session.Named {χ : Type} (accounts : AccountRegistry) (session : Session χ) : Prop where
  authenticated : session.authenticated = true → accounts.contains session.username = true
  anonymous : session.authenticated = false → session.username = ByteString.empty

/-- The names in the maps of the session manager. -/
structure NamesRegistered {χ : Type} (accounts : AccountRegistry) (sessions : SessionManager χ) : Prop where
  routes : ∀ u fd, sessions.userToFd u = some fd → accounts.contains u = true
  sessions : ∀ fd session, sessions.sessions fd = some session → Session.Named accounts session

variable {χ : Type} {accounts : AccountRegistry} {sessions : SessionManager χ} {fd : Int} {u : ByteString}

theorem NamesRegistered.empty (accounts : AccountRegistry) :
    NamesRegistered accounts (SessionManager.empty : SessionManager χ) := by
  refine ⟨?_, ?_⟩
  · intro u fd hroute
    cases hroute
  · intro fd session hs
    cases hs

theorem NamesRegistered.mono {accounts' : AccountRegistry} (names : NamesRegistered accounts sessions)
    (h : ∀ u, accounts.contains u = true → accounts'.contains u = true) : NamesRegistered accounts' sessions := by
  refine ⟨?_, ?_⟩
  · intro u fd hroute
    exact h u (names.routes u fd hroute)
  · intro fd session hs
    have hnamed := names.sessions fd session hs
    exact ⟨fun hauth => h _ (hnamed.authenticated hauth), hnamed.anonymous⟩

theorem NamesRegistered.assign {session : Session χ} (names : NamesRegistered accounts sessions)
    (h : Session.Named accounts session) :
    NamesRegistered accounts { sessions with sessions := sessions.sessions.assign fd session } := by
  refine ⟨names.routes, ?_⟩
  intro k session' hs
  by_cases hk : k = fd
  · subst hk
    cases (Table.assign_self _ _ _).symm.trans hs
    exact h
  · exact names.sessions k session' ((Table.assign_ne hk).symm.trans hs)

theorem NamesRegistered.route (names : NamesRegistered accounts sessions) (h : accounts.contains u = true) :
    NamesRegistered accounts { sessions with userToFd := sessions.userToFd.emplace u fd } := by
  refine ⟨?_, names.sessions⟩
  intro v k hroute
  by_cases hv : v = u
  · subst hv
    exact h
  · exact names.routes v k ((Table.emplace_ne hv).symm.trans hroute)

theorem NamesRegistered.erase (names : NamesRegistered accounts sessions) (fd : Int) (u : ByteString) :
    NamesRegistered accounts ⟨sessions.sessions.erase fd, sessions.userToFd.erase u⟩ := by
  refine ⟨?_, ?_⟩
  · intro v k hroute
    exact names.routes v k (Table.erase_eq_some.mp hroute).2
  · intro k session hs
    exact names.sessions k session (Table.erase_eq_some.mp hs).2

namespace Server

variable {χ : Type} {sha256 : List UInt8 → Digest} {server next : Server χ} {event : Event χ} {out : Output χ}
  {trace : List (Event χ × Output χ)} {fd : Int} {u : ByteString}

theorem handled_of_exchange {request : Request} {response : Response} (h : Step sha256 server event out next)
    (hexchange : exchange (event, out) = some (fd, request, response)) :
    ∃ buffer chatResult handled,
      handleRequest sha256 { server with messageBuffer := buffer } fd request chatResult = .ok handled ∧
      next.accounts = handled.server.accounts := by
  cases effect_of_step h with
  | rejected => cases exchange_silent.symm.trans hexchange
  | connected => cases exchange_silent.symm.trans hexchange
  | ignored => cases exchange_silent.symm.trans hexchange
  | destroyed => cases exchange_silent.symm.trans hexchange
  | leaked => cases exchange_silent.symm.trans hexchange
  | @answered k session buffer chatResult responseResult handled present answer =>
    obtain ⟨rfl, hreq, _⟩ := exchange_ready hexchange
    obtain ⟨handled', hhandled, _, hnext⟩ := handled_of_step present h
    have hencoded : request.message.encode <+: { server with messageBuffer := buffer }.messageBuffer.bytes :=
      requestIn_iff.mp hreq
    refine ⟨buffer, chatResult, handled', (handleBufferedRequest_request chatResult hencoded).symm.trans hhandled, ?_⟩
    rw [hnext, sendResponse_accounts]

theorem handleRegister_accounts {m : Register} {handled : Handled χ}
    (h : handleRegister sha256 server fd m = .ok handled) :
    handled.server.accounts = (server.accounts.register sha256 m.username m.password).2 := by
  unfold handleRegister at h
  dsimp only at h
  split at h
  next =>
    cases h
    rfl
  next =>
    cases h
    rfl

/-- What a running server does with its accounts are calls of `Register`. -/
theorem accounts_step (h : Step sha256 server event out next) :
    next.accounts = server.accounts ∨
      ∃ call errors, AccountRegistry.Step sha256 server.accounts call errors next.accounts := by
  rcases accounts_of_effect (effect_of_step h) with ⟨u, p, ⟨k, hexchange⟩, _⟩ | ⟨_, hsame⟩
  · obtain ⟨buffer, chatResult, handled, hhandled, hnext⟩ := handled_of_exchange h hexchange
    have haccounts : handled.server.accounts = (server.accounts.register sha256 u p).2 :=
      @handleRegister_accounts χ sha256 { server with messageBuffer := buffer } k ⟨u, p⟩ handled hhandled
    exact Or.inr ⟨(u, p), (server.accounts.register sha256 u p).1, Prod.ext rfl (hnext.trans haccounts).symm⟩
  · exact Or.inl hsame

theorem accounts_run (run : Run (Step sha256) init trace server) :
    ∃ calls, Run (AccountRegistry.Step sha256) AccountRegistry.empty calls server.accounts := by
  refine run.invariant
    (P := fun server => ∃ calls, Run (AccountRegistry.Step sha256) AccountRegistry.empty calls server.accounts)
    ⟨[], .init⟩ ?_
  intro server event out next hcalls h
  obtain ⟨calls, hrun⟩ := hcalls
  rcases accounts_step h with hsame | ⟨call, errors, hstep⟩
  · exact ⟨calls, by rw [hsame]; exact hrun⟩
  · exact ⟨_, hrun.next hstep⟩

/-- Accounts are never removed. -/
theorem contains_of_step (h : Step sha256 server event out next) (hu : server.accounts.contains u = true) :
    next.accounts.contains u = true := by
  rcases accounts_of_effect (effect_of_step h) with ⟨v, p, _, _, hnext⟩ | ⟨_, hsame⟩
  · obtain ⟨hash, hstored⟩ := Table.contains_iff.mp hu
    refine Table.contains_iff.mpr ?_
    rw [hnext]
    by_cases huv : u = v
    · subst huv
      exact ⟨_, Table.assign_self _ _ _⟩
    · exact ⟨hash, (Table.assign_ne huv).trans hstored⟩
  · rw [hsame]
    exact hu

theorem names_change {after : SessionManager χ} (names : NamesRegistered server.accounts server.sessions)
    (h : SessionChange sha256 server event out after) : NamesRegistered server.accounts after := by
  cases h with
  | kept => exact names
  | @created k channel =>
    cases hk : server.sessions.sessions k with
    | some session =>
      rw [Table.emplace_present hk]
      exact names
    | none =>
      rw [Table.emplace_absent hk]
      refine names.assign ⟨?_, fun _ => rfl⟩
      intro hauth
      cases hauth
  | destroyed => exact names.erase _ _
  | authenticated request stored present free =>
    have hname : server.accounts.contains _ = true := Table.contains_iff.mpr ⟨_, stored⟩
    refine (names.assign ⟨fun _ => hname, ?_⟩).route hname
    intro hanonymous
    cases hanonymous

theorem names_step (names : NamesRegistered server.accounts server.sessions)
    (h : Step sha256 server event out next) : NamesRegistered next.accounts next.sessions := by
  have hsessions : NamesRegistered server.accounts next.sessions :=
    names_change names (sessions_of_effect (effect_of_step h))
  exact hsessions.mono fun u hu => contains_of_step h hu

theorem names_of_run (run : Run (Step sha256) init trace server) : NamesRegistered server.accounts server.sessions :=
  run.invariant (P := fun server => NamesRegistered server.accounts server.sessions) (NamesRegistered.empty _)
    fun names h => names_step names h

theorem validUsername_of_run (run : Run (Step sha256) init trace server) (hu : server.accounts.contains u = true) :
    AccountRegistry.ValidUsername u := by
  obtain ⟨calls, hcalls⟩ := accounts_run run
  exact AccountRegistry.valid_of_run hcalls hu

/-- Whoever is in the name map or logged in has an account, and a name that follows the rules. -/
theorem names_in_use (run : Run (Step sha256) init trace server) :
    NamesRegistered server.accounts server.sessions ∧
      (∀ u fd, server.sessions.userToFd u = some fd → AccountRegistry.ValidUsername u) ∧
      ∀ fd session, server.sessions.sessions fd = some session → session.authenticated = true →
        AccountRegistry.ValidUsername session.username := by
  have names := names_of_run run
  refine ⟨names, ?_, ?_⟩
  · intro u fd hroute
    exact validUsername_of_run run (names.routes u fd hroute)
  · intro fd session hs hauth
    exact validUsername_of_run run ((names.sessions fd session hs).authenticated hauth)

/-- A name that a closed connection left in the name map. -/
def staleNameRun : List (Event Nat) :=
  [.accept 5 (some 0), asks 5 (registering alice), asks 5 (registering brian), asks 5 (.login alice),
    asks 5 (.login brian), .ready 5 none 1 1]

theorem names_in_use_staleNameRun : ∃ trace server,
    Run (Step paddedDigest) (init : Server Nat) trace server ∧ server.sessions.userToFd alice.username = some 5 ∧
      server.sessions.isEstablished 5 = false ∧ AccountRegistry.ValidUsername alice.username := by
  obtain ⟨trace, server, run, hgood⟩ := reaches_of_execute paddedDigest (fun _ _ => true) staleNameRun
    (fun _ s => s.sessions.userToFd alice.username == some 5 && !s.sessions.isEstablished 5) (by decide +kernel)
  obtain ⟨hroute, hclosed⟩ := (Bool.and_eq_true _ _).mp hgood
  have hroute' : server.sessions.userToFd alice.username = some 5 := by simpa using hroute
  exact ⟨trace, server, run.unguarded, hroute', by simpa using hclosed,
    (names_in_use run.unguarded).2.1 _ _ hroute'⟩

end Server

end SecureMessaging
