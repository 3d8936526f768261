import SecureMessaging.History

namespace SecureMessaging

namespace Server

variable {χ : Type} {sha256 : List UInt8 → Digest} {server : Server χ} {trace : List (Event χ × Output χ)}
  {event : Event χ} {out : Output χ}

/-- A descriptor is only accepted when its previous connection was closed, and only one
that was accepted and not closed since gets ready. -/
def inCycle (server : Server χ) : Event χ → Bool
  | .accept fd _ => !server.registered fd
  | .ready fd _ _ _ => server.registered fd

/-- The last login on the connection of `fd`, since it was accepted last, was for `u` with `p`. -/
def LoggedInSince (trace : List (Event χ × Output χ)) (fd : Int) (u p : ByteString) : Prop :=
  ∃ before entry after, trace = before ++ entry :: after ∧ LogsIn entry fd u p ∧
    ∀ later ∈ after, (∀ agreed, later.1 ≠ .accept fd agreed) ∧ ∀ v q, ¬LogsIn later fd v q

theorem LoggedInSince.now {entry : Event χ × Output χ} {fd : Int} {u p : ByteString}
    (h : LogsIn entry fd u p) : LoggedInSince (trace ++ [entry]) fd u p := by
  refine ⟨trace, entry, [], rfl, h, ?_⟩
  intro later hlater
  cases hlater

theorem LoggedInSince.later {entry : Event χ × Output χ} {fd : Int} {u p : ByteString}
    (h : LoggedInSince trace fd u p) (haccept : ∀ agreed, entry.1 ≠ .accept fd agreed)
    (hlogin : ∀ v q, ¬LogsIn entry fd v q) : LoggedInSince (trace ++ [entry]) fd u p := by
  obtain ⟨before, first, after, htrace, hfirst, hafter⟩ := h
  refine ⟨before, first, after ++ [entry], by rw [htrace]; simp, hfirst, ?_⟩
  intro later hlater
  rcases List.mem_append.mp hlater with hold | hnew
  · exact hafter later hold
  · rw [List.mem_singleton.mp hnew]
    exact ⟨haccept, hlogin⟩

/-- Whoever is logged in did so on the open connection, with the password of the account. -/
def Genuine (sha256 : List UInt8 → Digest) (trace : List (Event χ × Output χ)) (server : Server χ) : Prop :=
  ∀ fd session, server.sessions.sessions fd = some session → session.authenticated = true →
    server.registered fd = true ∧ ∃ p, LoggedInSince trace fd session.username p ∧
      server.accounts.accounts session.username = some (AccountRegistry.hashPassword sha256 p)

theorem accounts_kept {next : Server χ} {u hash : ByteString} (h : Effect sha256 server event out next)
    (hu : server.accounts.accounts u = some hash) : next.accounts.accounts u = some hash := by
  rcases accounts_of_effect h with ⟨v, q, _, habsent, hnext⟩ | ⟨_, hnext⟩
  · have huv : u ≠ v := by
      intro huv
      rw [huv, habsent] at hu
      cases hu
    rw [hnext, Table.assign_ne huv]
    exact hu
  · rw [hnext]
    exact hu

theorem unauthenticated_of_close {next : Server χ} {fd chatResult responseResult : Int} {session : Session χ}
    (h : Effect sha256 server (.ready fd none chatResult responseResult) out next)
    (hs : next.sessions.sessions fd = some session) : session.authenticated = false := by
  cases h with
  | ignored absent =>
    rw [absent] at hs
    cases hs
  | destroyed =>
    have hgone : (none : Option (Session χ)) = some session := (Table.erase_self _ fd).symm.trans hs
    cases hgone
  | leaked present unauthenticated =>
    cases Option.some.inj (present.symm.trans hs)
    exact unauthenticated

theorem Genuine.step {next : Server χ} (genuine : Genuine sha256 trace server)
    (hcycle : inCycle server event = true) (h : Effect sha256 server event out next) :
    Genuine sha256 (trace ++ [(event, out)]) next := by
  intro fd session hs hauth
  have hopen : ∀ chatResult responseResult, event ≠ .ready fd none chatResult responseResult := by
    intro chatResult responseResult he
    rw [he] at h
    rw [unauthenticated_of_close h hs] at hauth
    cases hauth
  have hregistered : server.registered fd = true → next.registered fd = true := by
    intro hreg
    rcases registered_of_effect h hreg with hstill | ⟨chatResult, responseResult, he⟩
    · exact hstill
    · exact absurd he (hopen chatResult responseResult)
  -- a session that was there before keeps its login, unless this is a new one
  have hold : server.sessions.sessions fd = some session → (∀ v q, ¬LogsIn (event, out) fd v q) →
      next.registered fd = true ∧ ∃ p, LoggedInSince (trace ++ [(event, out)]) fd session.username p ∧
        next.accounts.accounts session.username = some (AccountRegistry.hashPassword sha256 p) := by
    intro hbefore hnologin
    obtain ⟨hreg, p, hsince, hstored⟩ := genuine fd session hbefore hauth
    have haccept : ∀ agreed, event ≠ .accept fd agreed := by
      intro agreed he
      rw [he] at hcycle
      simp [inCycle, hreg] at hcycle
    exact ⟨hregistered hreg, p, hsince.later haccept hnologin, accounts_kept h hstored⟩
  have hchange := sessions_of_effect h
  generalize next.sessions = sessions at hs hchange
  cases hchange with
  | kept nobody => exact hold hs fun v q => nobody fd v q
  | @created k channel =>
    cases hk : server.sessions.sessions k with
    | some previous =>
      have hs' : server.sessions.sessions fd = some session := by
        rw [← hs]
        exact congrFun (Table.emplace_present hk).symm fd
      exact hold hs' fun v q hlogin => by cases hlogin
    | none =>
      by_cases hfd : fd = k
      · subst hfd
        have hnew := (congrFun (Table.emplace_absent hk) fd).symm.trans hs
        rw [Table.assign_self] at hnew
        cases hnew
        cases hauth
      · exact hold ((Table.emplace_ne hfd).symm.trans hs) fun v q hlogin => by cases hlogin
  | @destroyed k gone =>
    exact hold (Table.erase_eq_some.mp hs).2 fun v q hlogin => by cases hlogin
  | @authenticated k old buffer chatResult responseResult m forwarded replied request stored present =>
    by_cases hfd : fd = k
    · subst hfd
      have hnew := (Table.assign_self _ _ _).symm.trans hs
      cases hnew
      have hlogin : LogsIn (.ready fd (some buffer) chatResult responseResult,
          (⟨some (.success ⟨⟩), forwarded, replied⟩ : Output χ)) fd m.username m.password :=
        exchange_answered request
      exact ⟨hregistered hcycle, m.password, .now hlogin, accounts_kept h stored⟩
    · refine hold ((Table.assign_ne hfd).symm.trans hs) ?_
      intro v q hlogin
      exact hfd (logsIn_of_ready hlogin).1

theorem genuine_of_run
    (run : Run (Guarded (fun s e => inCycle s e = true) (Step sha256)) init trace server) :
    Genuine sha256 trace server := by
  refine run.history (P := fun trace s => Genuine sha256 trace s) ?_ ?_
  · intro fd session hs
    cases hs
  · intro trace s e out s' _ genuine hstep
    exact genuine.step hstep.1 (effect_of_step hstep.2)

theorem message_of_forwarded {fd chatResult responseResult : Int} {received : Option MessageBuffer}
    {next : Server χ} {delivery : Delivery χ}
    (hstep : Step sha256 server (.ready fd received chatResult responseResult) out next)
    (hforward : out.forwarded = some delivery) :
    ∃ session content, server.sessions.sessions fd = some session ∧ session.authenticated = true ∧
      delivery.message = ⟨.receiveChat, ⟨session.username, content⟩⟩ := by
  obtain ⟨_, _, _, _, m, session, _, _, hevent, _, hs, hauth, _, _, hdelivery⟩ :=
    forwarded_of_effect (effect_of_step hstep) hforward
  cases hevent
  exact ⟨session, m.content, hs, hauth, by rw [hdelivery, sendResponse_delivery]⟩

/-- Whose name a forwarded chat carries has logged in on the sending connection, with a password
that hashes to that of the account. -/
theorem sender_authentic {received : Option MessageBuffer} {fd chatResult responseResult : Int} {next : Server χ}
    {delivery : Delivery χ} {u content : ByteString}
    (run : Run (Guarded (fun s e => inCycle s e = true) (Step sha256)) init trace server)
    (hstep : Step sha256 server (.ready fd received chatResult responseResult) out next)
    (hforward : out.forwarded = some delivery)
    (hchat : delivery.message = ⟨.receiveChat, ⟨u, content⟩⟩) :
    ∃ p q, LoggedInSince trace fd u p ∧ RegisteredOnce trace u q ∧ sha256 p.data = sha256 q.data := by
  obtain ⟨session, _, hs, hauth, hmessage⟩ := message_of_forwarded hstep hforward
  have hname : session.username = u := by
    rw [hmessage] at hchat
    cases hchat
    rfl
  obtain ⟨_, p, hsince, hstored⟩ := genuine_of_run run fd session hs hauth
  rw [hname] at hsince hstored
  obtain ⟨q, honce, hhash⟩ := (accountHistory run.unguarded).registered u _ hstored
  exact ⟨p, q, hsince, honce, AccountRegistry.hashPassword_inj hhash⟩

/-- A descriptor is reused by somebody else, who then sends a chat. -/
def reuseRun : List (Event Nat) :=
  [.accept 5 (some 0), .accept 6 (some 1), asks 5 (registering alice), asks 5 (registering brian),
    asks 5 (.login alice), .ready 5 none 1 1, .accept 5 (some 2), asks 6 (.login alice), asks 5 (.login brian)]

def brianSends : Event Nat := asks 5 (.sendChat hello)

theorem sender_authentic_reuseRun : ∃ trace server out next delivery content p q,
    Run (Guarded (fun s e => inCycle s e = true) (Step paddedDigest)) (init : Server Nat) trace server ∧
      Step paddedDigest server brianSends out next ∧ out.forwarded = some delivery ∧
      delivery.message = ⟨.receiveChat, ⟨brian.username, content⟩⟩ ∧
      LoggedInSince trace 5 brian.username p ∧ RegisteredOnce trace brian.username q ∧
      paddedDigest p.data = paddedDigest q.data := by
  obtain ⟨trace, server, run, hgood⟩ := reaches_of_execute paddedDigest inCycle reuseRun
    (fun _ s => (s.sessions.sessions 5).any (fun session => session.username == brian.username) &&
      (advance paddedDigest (fun _ _ => true) s brianSends).any fun r => r.1.forwarded.isSome)
    (by decide +kernel)
  obtain ⟨hbrian, hforwards⟩ := (Bool.and_eq_true _ _).mp hgood
  obtain ⟨out, next, hstep, hsome⟩ := step_of_computed _ (fun out => out.forwarded.isSome) hforwards
  obtain ⟨delivery, hforward⟩ := Option.isSome_iff_exists.mp hsome
  obtain ⟨session, content, hs, _, hmessage⟩ := message_of_forwarded hstep hforward
  have hname : session.username = brian.username := by simpa [hs] using hbrian
  rw [hname] at hmessage
  obtain ⟨p, q, hsince, honce, hhash⟩ := sender_authentic run hstep hforward hmessage
  exact ⟨trace, server, out, next, delivery, content, p, q, run, hstep, hforward, hmessage, hsince, honce, hhash⟩

end Server

end SecureMessaging
