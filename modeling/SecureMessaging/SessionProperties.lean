import SecureMessaging.SessionInvariants

namespace SecureMessaging

namespace Server

variable {χ : Type} {sha256 : List UInt8 → Digest} {server : Server χ} {trace : List (Event χ × Output χ)}

/-- No two descriptors have sessions that are logged in as one user. -/
def SingleLogin (sessions : SessionManager χ) : Prop :=
  ∀ fd fd' session session', sessions.sessions fd = some session → sessions.sessions fd' = some session' →
    session.authenticated = true → session'.authenticated = true → session.username = session'.username →
    fd = fd'

theorem single_login
    (run : Run (Guarded (fun s e => cleanLogin sha256 s e = true) (Step sha256)) init trace server) :
    SingleLogin server.sessions := by
  intro fd fd' session session' hs hs' hauth hauth' hname
  have hu : session.user = some session.username := Session.user_eq_some.mpr ⟨hauth, rfl⟩
  have hu' : session'.user = some session.username := Session.user_eq_some.mpr ⟨hauth', hname.symm⟩
  exact (owned_of_run run).unique hs hu hs' hu'

/-- Two logins, a closing and a login again. -/
def cleanRun : List (Event Nat) :=
  [.accept 5 (some 0), .accept 6 (some 1), asks 5 (registering alice), asks 5 (registering brian),
    asks 5 (.login alice), asks 6 (.login alice), .ready 5 none 1 1, asks 6 (.login alice)]

theorem single_login_cleanRun : ∃ trace server,
    Run (Guarded (fun s e => cleanLogin paddedDigest s e = true) (Step paddedDigest)) (init : Server Nat)
      trace server ∧ server.sessions.userToFd alice.username = some 6 ∧ SingleLogin server.sessions := by
  obtain ⟨trace, server, run, hroute⟩ := reaches_of_execute paddedDigest (cleanLogin paddedDigest) cleanRun
    (fun _ s => s.sessions.userToFd alice.username == some 6) (by decide +kernel)
  exact ⟨trace, server, run, by simpa using hroute, single_login run⟩

def sameUser (sessions : SessionManager χ) (fd fd' : Int) : Bool :=
  match sessions.sessions fd, sessions.sessions fd' with
  | some session, some session' =>
    session.authenticated && session'.authenticated && session.username == session'.username
  | _, _ => false

theorem not_singleLogin {sessions : SessionManager χ} {fd fd' : Int} (hne : fd ≠ fd')
    (h : sameUser sessions fd fd' = true) : ¬SingleLogin sessions := by
  intro hsingle
  unfold sameUser at h
  split at h
  next session session' hs hs' =>
    simp only [Bool.and_eq_true, beq_iff_eq] at h
    exact hne (hsingle fd fd' session session' hs hs' h.1.1 h.1.2 h.2)
  next => cases h

/-- One connection logs in under two names and closes; the first name stays in the name map. -/
def doubleLoginRun : List (Event Nat) :=
  [.accept 5 (some 0), .accept 6 (some 1), .accept 7 (some 2), asks 5 (registering alice),
    asks 5 (registering brian), asks 5 (.login alice), asks 5 (.login brian), .ready 5 none 1 1,
    asks 6 (.login alice), asks 7 (.login alice)]

theorem double_login : ¬∀ trace server,
    Run (Step paddedDigest) (init : Server Nat) trace server → SingleLogin server.sessions := by
  intro h
  obtain ⟨trace, server, run, hsame⟩ := reaches_of_execute paddedDigest (fun _ _ => true) doubleLoginRun
    (fun _ s => sameUser s.sessions 6 7) (by decide +kernel)
  exact not_singleLogin (by decide) hsame (h trace server run.unguarded)

/-- The session that a chat for `recipient` was passed to is logged in as `recipient`. -/
def ReachesRecipient (server : Server χ) (recipient : ByteString) (delivery : Delivery χ) : Prop :=
  ∃ fd session, server.sessions.userToFd recipient = some fd ∧ server.sessions.sessions fd = some session ∧
    delivery.channel = session.channel ∧ session.authenticated = true ∧ session.username = recipient

theorem chat_reaches_recipient {fd chatResult responseResult : Int} {buffer : MessageBuffer} {m : SendChat}
    {out : Output χ} {next : Server χ} {delivery : Delivery χ}
    (run : Run (Guarded (fun s e => freshLogin sha256 s e = true) (Step sha256)) init trace server)
    (hreq : requestIn buffer = some (.sendChat m))
    (hstep : Step sha256 server (.ready fd (some buffer) chatResult responseResult) out next)
    (hforward : out.forwarded = some delivery) : ReachesRecipient server m.recipient delivery := by
  obtain ⟨_, _, _, _, m', session, fd', session', hevent, hreq', _, _, hroute, htarget, hdelivery⟩ :=
    forwarded_of_effect (effect_of_step hstep) hforward
  cases hevent
  rw [hreq] at hreq'
  cases hreq'
  obtain ⟨target, ht, huser⟩ := (linked_of_run run m.recipient fd').mp hroute
  have hsame : target = session' := Option.some.inj (ht.symm.trans htarget)
  obtain ⟨hauth, hname⟩ := Session.user_eq_some.mp huser
  rw [hsame] at hauth hname
  refine ⟨fd', session', hroute, htarget, ?_, hauth, hname⟩
  rw [hdelivery, sendResponse_delivery]

theorem requestIn_hello :
    requestIn ((Request.sendChat hello).message.serialize (ByteVector.zero messageBufferSize)).2 =
      some (.sendChat hello) :=
  requestIn_serialized (by decide +kernel)

/-- The server would forward the chat of `event`. -/
def forwards (server : Server Nat) (event : Event Nat) : Bool :=
  (advance paddedDigest (fun _ _ => true) server event).any fun r => r.1.forwarded.isSome

/-- Each of two users logs in on a connection of their own. -/
def chatRun : List (Event Nat) :=
  [.accept 5 (some 0), .accept 6 (some 1), asks 5 (registering alice), asks 5 (registering brian),
    asks 6 (.login alice), asks 5 (.login brian)]

theorem chat_reaches_recipient_chatRun : ∃ trace server out next delivery,
    Run (Guarded (fun s e => freshLogin paddedDigest s e = true) (Step paddedDigest)) (init : Server Nat)
      trace server ∧ Step paddedDigest server (asks 5 (.sendChat hello)) out next ∧
      out.forwarded = some delivery ∧ ReachesRecipient server alice.username delivery := by
  obtain ⟨trace, server, run, hforwards⟩ := reaches_of_execute paddedDigest (freshLogin paddedDigest) chatRun
    (fun _ s => forwards s (asks 5 (.sendChat hello))) (by decide +kernel)
  obtain ⟨out, next, hstep, hsome⟩ := step_of_computed _ (fun out => out.forwarded.isSome) hforwards
  obtain ⟨delivery, hforward⟩ := Option.isSome_iff_exists.mp hsome
  exact ⟨trace, server, out, next, delivery, run, hstep, hforward,
    chat_reaches_recipient run requestIn_hello hstep hforward⟩

/-- The entry of the name map for `u` points to a session of somebody else. -/
def misroutes (sessions : SessionManager χ) (u : ByteString) : Bool :=
  (sessions.userToFd u).any fun fd => (sessions.sessions fd).any fun session => session.username != u

theorem not_reachesRecipient {u : ByteString} {delivery : Delivery χ}
    (h : misroutes server.sessions u = true) : ¬ReachesRecipient server u delivery := by
  intro hreach
  obtain ⟨fd, session, hroute, hs, _, _, hname⟩ := hreach
  simp [misroutes, hroute, hs, hname] at h

/-- One connection logs in under two names and then sends a chat to the first. -/
def twoNamesRun : List (Event Nat) :=
  [.accept 5 (some 0), .accept 6 (some 1), asks 5 (registering alice), asks 5 (registering brian),
    asks 5 (.login alice), asks 5 (.login brian)]

theorem chat_misrouted : ¬∀ trace server fd buffer chatResult responseResult m out next delivery,
    Run (Step paddedDigest) (init : Server Nat) trace server → requestIn buffer = some (.sendChat m) →
    Step paddedDigest server (.ready fd (some buffer) chatResult responseResult) out next →
    out.forwarded = some delivery → ReachesRecipient server m.recipient delivery := by
  intro h
  obtain ⟨trace, server, run, hgood⟩ := reaches_of_execute paddedDigest (fun _ _ => true) twoNamesRun
    (fun _ s => misroutes s.sessions alice.username && forwards s (asks 5 (.sendChat hello)))
    (by decide +kernel)
  obtain ⟨hmis, hforwards⟩ := (Bool.and_eq_true _ _).mp hgood
  obtain ⟨out, next, hstep, hsome⟩ := step_of_computed _ (fun out => out.forwarded.isSome) hforwards
  obtain ⟨delivery, hforward⟩ := Option.isSome_iff_exists.mp hsome
  have hreach := h trace server 5 _ 1 1 hello out next delivery run.unguarded requestIn_hello hstep hforward
  exact not_reachesRecipient hmis hreach

/-- No session under `fd`, and no name that leads to it. -/
def Vacant (sessions : SessionManager χ) (fd : Int) : Prop :=
  sessions.sessions fd = none ∧ ∀ u, sessions.userToFd u ≠ some fd

theorem vacant_step {event : Event χ} {out : Output χ} {sessions : SessionManager χ} {fd : Int}
    (vacant : Vacant server.sessions fd) (hevent : ∀ agreed, event ≠ .accept fd agreed)
    (h : SessionChange sha256 server event out sessions) : Vacant sessions fd := by
  obtain ⟨hnone, hfree⟩ := vacant
  cases h with
  | kept => exact ⟨hnone, hfree⟩
  | @created k channel =>
    have hk : fd ≠ k := by
      intro hk
      exact hevent _ (by rw [hk])
    exact ⟨(Table.emplace_ne hk).trans hnone, hfree⟩
  | @destroyed k session _ _ _ present =>
    have hk : fd ≠ k := by
      intro hk
      rw [← hk, hnone] at present
      cases present
    refine ⟨(Table.erase_ne hk).trans hnone, ?_⟩
    intro u hu
    exact hfree u (Table.erase_eq_some.mp hu).2
  | @authenticated k session _ _ _ m _ _ _ _ present =>
    have hk : fd ≠ k := by
      intro hk
      rw [← hk, hnone] at present
      cases present
    refine ⟨(Table.assign_ne hk).trans hnone, ?_⟩
    intro u hu
    dsimp only at hu
    by_cases hum : u = m.username
    · subst hum
      cases hold : server.sessions.userToFd m.username with
      | none =>
        rw [Table.emplace_absent hold, Table.assign_self] at hu
        exact hk (Option.some.inj hu).symm
      | some k' =>
        rw [Table.emplace_present hold] at hu
        exact hfree _ hu
    · rw [Table.emplace_ne hum] at hu
      exact hfree u hu

/-- Closing `fd` leaves nothing of it behind, and whatever happens until it is accepted
again, its new session then starts clean. -/
def LifeCycle (sha256 : List UInt8 → Digest) (server : Server χ) (fd : Int) : Prop :=
  ∃ closed, server.closeConnection fd = .ok closed ∧ Vacant closed.sessions fd ∧
    ∀ trace later, Run (Step sha256) closed trace later →
      (∀ entry ∈ trace, ∀ agreed, entry.1 ≠ .accept fd agreed) → ∀ channel,
      (later.establishConnection fd (some channel)).sessions.sessions fd =
        some ⟨channel, ByteString.empty, false⟩ ∧
      ∀ u, (later.establishConnection fd (some channel)).sessions.userToFd u ≠ some fd

theorem lifeCycle_of_vacant {fd : Int} {closed : Server χ} (hclose : server.closeConnection fd = .ok closed)
    (vacant : Vacant closed.sessions fd) : LifeCycle sha256 server fd := by
  refine ⟨closed, hclose, vacant, ?_⟩
  intro trace later run hquiet channel
  have hlater : (∀ entry ∈ trace, ∀ agreed, entry.1 ≠ .accept fd agreed) → Vacant later.sessions fd := by
    refine run.history (P := fun trace s =>
      (∀ entry ∈ trace, ∀ agreed, entry.1 ≠ .accept fd agreed) → Vacant s.sessions fd) (fun _ => vacant) ?_
    intro trace s e out s' _ ih hstep hquiet
    have hbefore := ih fun entry hentry => hquiet entry (List.mem_append_left _ hentry)
    have hlast := hquiet (e, out) (List.mem_append_right _ (List.mem_singleton_self _))
    exact vacant_step hbefore hlast (sessions_of_effect (effect_of_step hstep))
  obtain ⟨hnone, hfree⟩ := hlater hquiet
  refine ⟨?_, hfree⟩
  have hnew : later.sessions.sessions.emplace fd ⟨channel, ByteString.empty, false⟩ =
      later.sessions.sessions.assign fd ⟨channel, ByteString.empty, false⟩ := Table.emplace_absent hnone
  exact (congrFun hnew fd).trans (Table.assign_self _ _ _)

theorem lifeCycle_iff {fd : Int} {session : Session χ} (hs : server.sessions.sessions fd = some session) :
    LifeCycle sha256 server fd ↔
      session.authenticated = true ∧ ∀ u, server.sessions.userToFd u = some fd → u = session.username := by
  constructor
  · intro hlife
    obtain ⟨closed, hclose, ⟨hnone, hfree⟩, _⟩ := hlife
    rcases closeConnection_cases server fd with ⟨session', hs', hauth, hok⟩ | ⟨_, hok⟩
    · cases Option.some.inj (hs.symm.trans hs')
      cases Except.ok.inj (hok.symm.trans hclose)
      refine ⟨hauth, ?_⟩
      intro u hu
      by_contra hne
      exact hfree u (Table.erase_eq_some.mpr ⟨hne, hu⟩)
    · cases Except.ok.inj (hok.symm.trans hclose)
      rw [hs] at hnone
      cases hnone
  · intro hcond
    obtain ⟨hauth, honly⟩ := hcond
    rcases closeConnection_cases server fd with ⟨session', hs', _, hok⟩ | ⟨hno, _⟩
    · cases Option.some.inj (hs.symm.trans hs')
      refine lifeCycle_of_vacant hok ⟨Table.erase_self _ _, ?_⟩
      intro u hu
      obtain ⟨hne, hu⟩ := Table.erase_eq_some.mp hu
      exact hne (honly u hu)
    · have hunauth := hno session hs
      rw [hauth] at hunauth
      cases hunauth

/-- In any state the closing of `fd` is clean iff its session is logged in and no other name leads
to it; if all logins so far were fresh, no other name does. -/
theorem closing_clean {fd : Int} {session : Session χ} (hs : server.sessions.sessions fd = some session) :
    (LifeCycle sha256 server fd ↔
      session.authenticated = true ∧ ∀ u, server.sessions.userToFd u = some fd → u = session.username) ∧
    ∀ trace, Run (Guarded (fun s e => freshLogin sha256 s e = true) (Step sha256)) init trace server →
      (LifeCycle sha256 server fd ↔ session.authenticated = true) := by
  refine ⟨lifeCycle_iff hs, ?_⟩
  intro trace run
  constructor
  · intro hlife
    exact ((lifeCycle_iff hs).mp hlife).1
  · intro hauth
    refine (lifeCycle_iff hs).mpr ⟨hauth, ?_⟩
    intro u hu
    obtain ⟨session', hs', huser⟩ := (linked_of_run run u fd).mp hu
    cases Option.some.inj (hs.symm.trans hs')
    exact (Session.user_eq_some.mp huser).2.symm

theorem closing_clean_chatRun : ∃ trace server session,
    Run (Guarded (fun s e => freshLogin paddedDigest s e = true) (Step paddedDigest)) (init : Server Nat)
      trace server ∧ server.sessions.sessions 5 = some session ∧ LifeCycle paddedDigest server 5 := by
  obtain ⟨trace, server, run, hgood⟩ := reaches_of_execute paddedDigest (freshLogin paddedDigest) chatRun
    (fun _ s => (s.sessions.sessions 5).any fun session => session.authenticated) (by decide +kernel)
  obtain ⟨session, hs, hauth⟩ := (Option.any_eq_true _ _).mp hgood
  exact ⟨trace, server, session, run, hs, ((closing_clean hs).2 trace run).mpr hauth⟩

/-- A connection that never logs in leaves its session behind. -/
theorem session_leaked : ¬∀ trace server fd session,
    Run (Step paddedDigest) (init : Server Nat) trace server →
    server.sessions.sessions fd = some session → LifeCycle paddedDigest server fd := by
  intro h
  obtain ⟨trace, server, run, hgood⟩ := reaches_of_execute paddedDigest (fun _ _ => true) [.accept 5 (some 0)]
    (fun _ s => (s.sessions.sessions 5).any fun session => !session.authenticated) (by decide +kernel)
  obtain ⟨session, hs, hunauth⟩ := (Option.any_eq_true _ _).mp hgood
  have hauth := (lifeCycle_iff hs).mp (h trace server 5 session run.unguarded hs)
  rw [hauth.1] at hunauth
  cases hunauth

/-- A Login request for `u` with `p` on `fd` is answered Success, whatever the sends return. -/
def LoginSucceeds (sha256 : List UInt8 → Digest) (server : Server χ) (fd : Int) (u p : ByteString) : Prop :=
  ∀ buffer chatResult responseResult, requestIn buffer = some (.login ⟨u, p⟩) →
    ∃ out next, Step sha256 server (.ready fd (some buffer) chatResult responseResult) out next ∧
      out.response = some (.success ⟨⟩)

theorem loginSucceeds_of_free {fd : Int} {session : Session χ} {u p : ByteString}
    (hstored : server.accounts.accounts u = some (AccountRegistry.hashPassword sha256 p))
    (hs : server.sessions.sessions fd = some session) (hfree : server.sessions.isEstablishedUser u = false) :
    LoginSucceeds sha256 server fd u p := by
  intro buffer chatResult responseResult hreq
  have hhandle : handleBufferedRequest sha256 { server with messageBuffer := buffer } fd chatResult =
      handleRequest sha256 { server with messageBuffer := buffer } fd (.login ⟨u, p⟩) chatResult :=
    handleBufferedRequest_request chatResult (requestIn_iff.mp hreq)
  rcases handleLogin_cases sha256 { server with messageBuffer := buffer } fd ⟨u, p⟩ with
    ⟨session', _, _, _, hok⟩ | ⟨hno, _⟩
  · exact ⟨_, _, step_of_handled responseResult hs (hhandle.trans hok), rfl⟩
  · rcases hno with hno | hno | hno
    · exact absurd hstored hno
    · have hs' : server.sessions.sessions fd = none := hno
      rw [hs] at hs'
      cases hs'
    · have hest' : server.sessions.isEstablishedUser u = true := hno
      rw [hfree] at hest'
      cases hest'

theorem login_succeeds {entry : Event χ × Output χ} {fd : Int} {session : Session χ} {u p : ByteString}
    (run : Run (Guarded (fun s e => freshLogin sha256 s e = true) (Step sha256)) init trace server)
    (hentry : entry ∈ trace) (hregister : Registers entry u p)
    (hnobody : ∀ fd session, server.sessions.sessions fd = some session → session.authenticated = true →
      session.username ≠ u)
    (hs : server.sessions.sessions fd = some session) : LoginSucceeds sha256 server fd u p := by
  have hstored := (accountHistory run.unguarded).stored entry hentry u p hregister
  have hfree : server.sessions.isEstablishedUser u = false := by
    cases hest : server.sessions.isEstablishedUser u with
    | false => rfl
    | true =>
      obtain ⟨k, held, hroute, _⟩ := SessionManager.isEstablishedUser_iff.mp hest
      obtain ⟨target, ht, huser⟩ := (linked_of_run run u k).mp hroute
      obtain ⟨hauth, hname⟩ := Session.user_eq_some.mp huser
      exact absurd hname (hnobody k target ht hauth)
  exact loginSucceeds_of_free hstored hs hfree

theorem accepted_of_session (run : Run (Step sha256) init trace server) {fd : Int} {session : Session χ}
    (hs : server.sessions.sessions fd = some session) : ∃ entry ∈ trace, ∃ agreed, entry.1 = .accept fd agreed := by
  have hall : ∀ fd session, server.sessions.sessions fd = some session →
      ∃ entry ∈ trace, ∃ agreed, entry.1 = .accept fd agreed := by
    refine run.history (P := fun trace s => ∀ fd session, s.sessions.sessions fd = some session →
      ∃ entry ∈ trace, ∃ agreed, entry.1 = .accept fd agreed) ?_ ?_
    · intro fd session hs
      cases hs
    · intro trace s e out s' _ ih hstep fd session hs
      have hnew : (∃ session, s.sessions.sessions fd = some session) ∨ ∃ agreed, e = .accept fd agreed := by
        have hchange := sessions_of_effect (effect_of_step hstep)
        generalize s'.sessions = sessions at hs hchange
        cases hchange with
        | kept => exact Or.inl ⟨session, hs⟩
        | @created k channel =>
          by_cases hk : fd = k
          · exact Or.inr ⟨some channel, by rw [hk]⟩
          · exact Or.inl ⟨session, (Table.emplace_ne hk).symm.trans hs⟩
        | destroyed => exact Or.inl ⟨session, (Table.erase_eq_some.mp hs).2⟩
        | @authenticated k old _ _ _ m _ _ _ _ present =>
          by_cases hk : fd = k
          · exact Or.inl ⟨old, by rw [hk, present]⟩
          · exact Or.inl ⟨session, (Table.assign_ne hk).symm.trans hs⟩
      rcases hnew with ⟨old, hold⟩ | ⟨agreed, he⟩
      · obtain ⟨entry, hentry, hagreed⟩ := ih fd old hold
        exact ⟨entry, List.mem_append_left _ hentry, hagreed⟩
      · exact ⟨(e, out), List.mem_append_right _ (List.mem_singleton_self _), agreed, he⟩
  exact hall fd session hs

/-- No descriptor of the trace has a session that is logged in as `u`. -/
def nobodyIs (u : ByteString) (trace : List (Event χ × Output χ)) (sessions : SessionManager χ) : Bool :=
  trace.all fun entry =>
    match entry.1 with
    | .accept fd _ => (sessions.sessions fd).all fun session => !(session.authenticated && session.username == u)
    | .ready _ _ _ _ => true

theorem nobody_of_nobodyIs {u : ByteString} (run : Run (Step sha256) init trace server)
    (h : nobodyIs u trace server.sessions = true) {fd : Int} {session : Session χ}
    (hs : server.sessions.sessions fd = some session) (hauth : session.authenticated = true) :
    session.username ≠ u := by
  obtain ⟨entry, hentry, agreed, he⟩ := accepted_of_session run hs
  have hone := List.all_eq_true.mp h entry hentry
  simpa [he, hs, hauth] using hone

def hasRegistered (account : Login) (trace : List (Event Nat × Output Nat)) : Bool :=
  trace.any fun entry => exchange entry == some (5, registering account, .success ⟨⟩)

theorem registers_of_hasRegistered {account : Login} {trace : List (Event Nat × Output Nat)}
    (h : hasRegistered account trace = true) :
    ∃ entry ∈ trace, Registers entry account.username account.password := by
  obtain ⟨entry, hentry, hone⟩ := List.any_eq_true.mp h
  exact ⟨entry, hentry, 5, beq_iff_eq.mp hone⟩

theorem login_succeeds_cleanRun : ∃ trace server,
    Run (Guarded (fun s e => freshLogin paddedDigest s e = true) (Step paddedDigest)) (init : Server Nat)
      trace server ∧ LoginSucceeds paddedDigest server 6 brian.username brian.password := by
  obtain ⟨trace, server, run, hgood⟩ := reaches_of_execute paddedDigest (freshLogin paddedDigest) cleanRun
    (fun trace s => hasRegistered brian trace && nobodyIs brian.username trace s.sessions &&
      (s.sessions.sessions 6).isSome) (by decide +kernel)
  obtain ⟨hboth, hsome⟩ := (Bool.and_eq_true _ _).mp hgood
  obtain ⟨hregistered, hnobody⟩ := (Bool.and_eq_true _ _).mp hboth
  obtain ⟨entry, hentry, hregisters⟩ := registers_of_hasRegistered hregistered
  obtain ⟨session, hs⟩ := Option.isSome_iff_exists.mp hsome
  exact ⟨trace, server, run, login_succeeds run hentry hregisters
    (fun _ _ hs' hauth => nobody_of_nobodyIs run.unguarded hnobody hs' hauth) hs⟩

theorem user_locked_out : ¬∀ trace server entry fd session u p,
    Run (Step paddedDigest) (init : Server Nat) trace server → entry ∈ trace → Registers entry u p →
    (∀ fd session, server.sessions.sessions fd = some session → session.authenticated = true →
      session.username ≠ u) →
    server.sessions.sessions fd = some session → LoginSucceeds paddedDigest server fd u p := by
  intro h
  obtain ⟨trace, server, run, hgood⟩ := reaches_of_execute paddedDigest (fun _ _ => true) twoNamesRun
    (fun trace s => hasRegistered alice trace && nobodyIs alice.username trace s.sessions &&
      (s.sessions.sessions 6).isSome &&
      (advance paddedDigest (fun _ _ => true) s (asks 6 (.login alice))).any
        fun r => r.1.response != some (.success ⟨⟩)) (by decide +kernel)
  obtain ⟨hall, hrefused⟩ := (Bool.and_eq_true _ _).mp hgood
  obtain ⟨hboth, hsome⟩ := (Bool.and_eq_true _ _).mp hall
  obtain ⟨hregistered, hnobody⟩ := (Bool.and_eq_true _ _).mp hboth
  obtain ⟨entry, hentry, hregisters⟩ := registers_of_hasRegistered hregistered
  obtain ⟨session, hs⟩ := Option.isSome_iff_exists.mp hsome
  obtain ⟨out, next, hstep, hfail⟩ := step_of_computed _ (fun out => out.response != some (.success ⟨⟩)) hrefused
  have hlogin := h trace server entry 6 session alice.username alice.password run.unguarded hentry hregisters
    (fun _ _ hs' hauth => nobody_of_nobodyIs run.unguarded hnobody hs' hauth) hs
  have hreq : requestIn ((Request.login alice).message.serialize (ByteVector.zero messageBufferSize)).2 =
      some (.login alice) := requestIn_serialized (by decide +kernel)
  obtain ⟨out', next', hstep', hok⟩ := hlogin _ 1 1 hreq
  have hsame := Except.ok.inj (hstep.symm.trans hstep')
  rw [(Prod.mk.inj hsame).2, hok] at hfail
  simp at hfail

end Server

end SecureMessaging
