import SecureMessaging.Commuting
import SecureMessaging.Lib.Simulation
import SecureMessaging.RegistrationReports

namespace SecureMessaging

variable {χ : Type} {sha256 : List UInt8 → Digest} {u stored : ByteString}

/-- The server with one more account. -/
def Server.withAccount (server : Server χ) (u stored : ByteString) : Server χ :=
  { server with accounts := ⟨server.accounts.accounts.assign u stored⟩ }

def Handled.withAccount (handled : Handled χ) (u stored : ByteString) : Handled χ :=
  { handled with server := handled.server.withAccount u stored }

@[simp] theorem Server.withAccount_sessions (server : Server χ) (u stored : ByteString) :
    (server.withAccount u stored).sessions = server.sessions := rfl

/-- A request about the account itself: a registration of the name, which may be refused for its password, too,
or a login with a password of the stored hash. -/
def Request.tells (sha256 : List UInt8 → Digest) (u stored : ByteString) : Request → Bool
  | .register m => m.username = u
  | .login m => m.username = u && AccountRegistry.hashPassword sha256 m.password = stored
  | .ping _ => false
  | .sendChat _ => false

def Event.tells (sha256 : List UInt8 → Digest) (u stored : ByteString) : Event χ → Bool
  | .ready _ (some buffer) _ _ => (Server.requestIn buffer).any (Request.tells sha256 u stored)
  | _ => false

theorem AccountRegistry.register_assign {accounts : Table ByteString ByteString} {v password : ByteString}
    (h : v ≠ u) :
    (⟨accounts.assign u stored⟩ : AccountRegistry).register sha256 v password =
      (((⟨accounts⟩ : AccountRegistry).register sha256 v password).1,
        ⟨((⟨accounts⟩ : AccountRegistry).register sha256 v password).2.accounts.assign u stored⟩) := by
  have hcontains : (accounts.assign u stored).contains v = accounts.contains v := by
    simp only [Table.contains, Table.assign_ne h]
  have hname : (⟨accounts.assign u stored⟩ : AccountRegistry).validateUsername v =
      (⟨accounts⟩ : AccountRegistry).validateUsername v := by
    simp only [validateUsername, hcontains]
  unfold register
  rw [hname]
  dsimp only
  split
  · have hemplace : (accounts.assign u stored).emplace v (hashPassword sha256 password) =
        (accounts.emplace v (hashPassword sha256 password)).assign u stored := by
      simp only [Table.emplace, hcontains]
      split
      · rfl
      · exact Table.assign_comm _ _ _ h.symm
    rw [hemplace]
  · rfl

/-- Its first flag says whether the name was registered before, whatever the other ones say. -/
theorem AccountRegistry.register_registered (registry : AccountRegistry) (username password : ByteString) :
    (registry.register sha256 username password).1.testBit 0 = registry.contains username := by
  rw [register_errors, Nat.testBit_or, validatePassword_testBit]
  cases hcontains : registry.contains username with
  | true =>
    rw [validateUsername_registered hcontains]
    rfl
  | false =>
    rw [validateUsername_testBit hcontains]
    simp

/-- It is seen in the text. -/
theorem AccountRegistry.errorString_registered {error other : Nat}
    (h : errorString error = errorString other) : error.testBit 0 = other.testBit 0 := by
  have hlines : errorLines error = errorLines other := by
    rw [← errorString_pieces, ← errorString_pieces, h]
  have hline : ∀ flags, asciiBytes "Username already registered" ∈ errorLines flags ↔ flags.testBit 0 = true :=
    fun flags => (mem_errorLines (by decide)).trans (and_flag flags 0)
  rw [Bool.eq_iff_iff, ← hline, ← hline, hlines]

namespace Server

variable {server next : Server χ} {fd result : Int}

theorem sendResponse_withAccount (server : Server χ) (channel : χ) (message : Message) (result : Int) :
    (server.withAccount u stored).sendResponse channel message result =
      ((server.sendResponse channel message result).1,
        (server.sendResponse channel message result).2.1.withAccount u stored,
        (server.sendResponse channel message result).2.2) := by
  unfold sendResponse
  dsimp only [withAccount]
  split <;> rfl

theorem handleRegister_withAccount {m : Register} (h : m.username ≠ u) :
    handleRegister sha256 (server.withAccount u stored) fd m =
      (handleRegister sha256 server fd m).map fun handled => handled.withAccount u stored := by
  have hregister : (server.withAccount u stored).accounts.register sha256 m.username m.password = _ :=
    AccountRegistry.register_assign h
  unfold handleRegister
  rw [hregister]
  dsimp only
  split <;> rfl

theorem handleLogin_withAccount {m : Login} (absent : server.accounts.accounts u = none)
    (h : (Request.login m).tells sha256 u stored = false) :
    handleLogin sha256 (server.withAccount u stored) fd m =
      (handleLogin sha256 server fd m).map fun handled => handled.withAccount u stored := by
  have hsame : (server.withAccount u stored).accounts.accounts m.username =
      some (AccountRegistry.hashPassword sha256 m.password) ↔
      server.accounts.accounts m.username = some (AccountRegistry.hashPassword sha256 m.password) := by
    by_cases hname : m.username = u
    · have hwrong : AccountRegistry.hashPassword sha256 m.password ≠ stored := by
        simpa [Request.tells, hname] using h
      simp [withAccount, hname, absent, hwrong.symm]
    · simp only [withAccount, Table.assign_ne hname]
  by_cases hstored : server.accounts.accounts m.username = some (AccountRegistry.hashPassword sha256 m.password)
  · rcases server.sessions.authenticate_cases fd m.username with ⟨session, _, _, hauth⟩ | ⟨_, hauth⟩
    · rw [handleLogin_stored hstored hauth, handleLogin_stored (hsame.mpr hstored) hauth]
      rfl
    · rw [handleLogin_stored hstored hauth, handleLogin_stored (hsame.mpr hstored) hauth]
      rfl
  · rw [handleLogin_incorrect hstored, handleLogin_incorrect (fun hother => hstored (hsame.mp hother))]
    rfl

theorem handleSendChat_withAccount (server : Server χ) (fd : Int) (m : SendChat) (result : Int) :
    handleSendChat (server.withAccount u stored) fd m result =
      (handleSendChat server fd m result).map fun handled => handled.withAccount u stored := by
  have hsessions : (server.withAccount u stored).sessions = server.sessions := rfl
  cases hs : server.sessions.sessions fd with
  | none =>
    have hat : server.sessions.isAuthenticated fd = .error .outOfRange := by
      simp [SessionManager.isAuthenticated, Table.atKey, hs, bind, Except.bind]
    simp only [handleSendChat, hsessions, hat, bind, Except.bind]
    rfl
  | some session =>
    have hs' : (server.withAccount u stored).sessions.sessions fd = some session := hs
    rcases handleSendChat_cases server m result hs with ⟨k, target, hauth, hroute, htarget, hok⟩ | ⟨hno, _⟩
    · have hok' := handleSendChat_passes result hs' hauth hroute htarget
      rw [sendResponse_withAccount] at hok'
      rw [hok, hok']
      generalize server.sendResponse target.channel _ result = passed
      rfl
    · cases hauth : session.authenticated with
      | false =>
        rw [handleSendChat_unauthenticated m result hs hauth, handleSendChat_unauthenticated m result hs' hauth]
        rfl
      | true =>
        have hr : server.sessions.isEstablishedUser m.recipient = false :=
          hno.resolve_left (by rw [hauth]; exact Bool.false_ne_true.symm)
        have hr' : (server.withAccount u stored).sessions.isEstablishedUser m.recipient = false := hr
        rw [handleSendChat_noRecipient result hs hauth hr, handleSendChat_noRecipient result hs' hauth hr']
        rfl

theorem handleBufferedRequestAs_withAccount {T : Type} [Inhabited T] {deserialize : T → MessageBuffer → Decoded T}
    {handle handle' : T → Fallible (Handled χ)} (wrap : T → Request)
    (h : ∀ m, requestAs deserialize wrap server.messageBuffer = some (wrap m) →
      handle' m = (handle m).map fun handled => handled.withAccount u stored) :
    (server.withAccount u stored).handleBufferedRequestAs deserialize handle' =
      (server.handleBufferedRequestAs deserialize handle).map fun handled => handled.withAccount u stored := by
  have hbuffer : (server.withAccount u stored).messageBuffer = server.messageBuffer := rfl
  unfold handleBufferedRequestAs
  rw [hbuffer]
  cases hr : (deserialize default server.messageBuffer).result with
  | error e =>
    simp only [hr, bind, Except.bind]
    rfl
  | ok accepted =>
    simp only [hr, bind, Except.bind]
    cases accepted with
    | true =>
      have hm : requestAs deserialize wrap server.messageBuffer =
          some (wrap (deserialize default server.messageBuffer).object) := by simp [requestAs, hr]
      exact h _ hm
    | false => rfl

/-- The account makes no difference to a request that is not about it. -/
theorem handleBufferedRequest_withAccount (absent : server.accounts.accounts u = none)
    (h : (requestIn server.messageBuffer).any (Request.tells sha256 u stored) = false) :
    handleBufferedRequest sha256 (server.withAccount u stored) fd result =
      (handleBufferedRequest sha256 server fd result).map fun handled => handled.withAccount u stored := by
  obtain ⟨id, rest, hb, _⟩ := messageBuffer_read server.messageBuffer
  have hb' : (server.withAccount u stored).messageBuffer.bytes = id :: rest := hb
  rw [handleBufferedRequest_eq result hb, handleBufferedRequest_eq result hb']
  rw [requestIn_eq hb] at h
  rcases typeId_cases id with rfl | rfl | rfl | rfl | hother
  · rw [byTypeId_ping] at h
    rw [byTypeId_ping, byTypeId_ping]
    exact handleBufferedRequestAs_withAccount .ping fun m _ => rfl
  · rw [byTypeId_register] at h
    rw [byTypeId_register, byTypeId_register]
    refine handleBufferedRequestAs_withAccount .register fun m hm => ?_
    rw [hm] at h
    exact handleRegister_withAccount (by simpa [Request.tells] using h)
  · rw [byTypeId_login] at h
    rw [byTypeId_login, byTypeId_login]
    refine handleBufferedRequestAs_withAccount .login fun m hm => ?_
    rw [hm] at h
    exact handleLogin_withAccount absent h
  · rw [byTypeId_sendChat] at h
    rw [byTypeId_sendChat, byTypeId_sendChat]
    exact handleBufferedRequestAs_withAccount .sendChat fun m _ =>
      handleSendChat_withAccount server fd m result
  · rw [hother, hother]
    rfl

/-- A turn of the loop that is not about the account; what is left in the buffer may differ, but is not read. -/
theorem handleEvent_withAccount {event : Event χ} (absent : server.accounts.accounts u = none)
    (h : event.tells sha256 u stored = false) (buffer : MessageBuffer) :
    ∃ left : Server χ → MessageBuffer,
      handleEvent sha256 { server.withAccount u stored with messageBuffer := buffer } event =
        (handleEvent sha256 server event).map fun r =>
          ({ r.1.withAccount u stored with messageBuffer := left r.1 }, r.2) := by
  cases event with
  | accept fd agreed =>
    refine ⟨fun _ => buffer, ?_⟩
    unfold handleEvent
    dsimp only
    split
    · cases agreed <;> rfl
    · rfl
  | ready fd received chatResult responseResult =>
    cases hs : server.sessions.sessions fd with
    | none =>
      refine ⟨fun _ => buffer, ?_⟩
      have he : server.sessions.isEstablished fd = false := Table.contains_eq_false.mpr hs
      simp only [handleEvent, withAccount_sessions, he, Bool.false_eq_true, if_false]
      rfl
    | some session =>
      have he : server.sessions.isEstablished fd = true := SessionManager.isEstablished_iff.mpr ⟨session, hs⟩
      have hchannel := SessionManager.getChannel_ok hs
      cases received with
      | none =>
        refine ⟨fun _ => buffer, ?_⟩
        simp only [handleEvent, withAccount_sessions, he, hchannel, if_true, closeConnection, bind, Except.bind]
        cases server.sessions.destroy fd <;> rfl
      | some received =>
        refine ⟨fun next => next.messageBuffer, ?_⟩
        generalize hheld : ({ server with messageBuffer := received } : Server χ) = held
        have habsent : held.accounts.accounts u = none := by
          rw [← hheld]
          exact absent
        have htells : (requestIn held.messageBuffer).any (Request.tells sha256 u stored) = false := by
          rw [← hheld]
          exact h
        have hhandled := @handleBufferedRequest_withAccount χ sha256 u stored held fd chatResult habsent htells
        have hheld' : (⟨received, server.sessions, (server.withAccount u stored).accounts,
            (server.withAccount u stored).registered⟩ : Server χ) = held.withAccount u stored := by
          rw [← hheld]
          rfl
        simp only [handleEvent, withAccount_sessions, he, hchannel, if_true, bind, Except.bind]
        rw [hheld, hheld', hhandled]
        cases handleBufferedRequest sha256 held fd chatResult with
        | error e => rfl
        | ok handled =>
          dsimp only [Except.map, Handled.withAccount]
          rw [sendResponse_withAccount]
          rfl

theorem absent_step {event : Event χ} {out : Output χ} (absent : server.accounts.accounts u = none)
    (htells : event.tells sha256 u stored = false) (h : Step sha256 server event out next) :
    next.accounts.accounts u = none := by
  cases effect_of_step h with
  | rejected => exact absent
  | connected => exact absent
  | ignored => exact absent
  | destroyed => exact absent
  | leaked => exact absent
  | @answered fd session buffer _ _ handled _ answer =>
    rw [sendResponse_accounts]
    cases answer with
    | refused => exact absent
    | ping => exact absent
    | @registered m request =>
      have hquiet : (requestIn buffer).any (Request.tells sha256 u stored) = false := htells
      have hother : u ≠ m.username := by
        rintro rfl
        rw [request] at hquiet
        simp [Request.tells] at hquiet
      exact (Table.assign_ne hother).trans absent
    | loggedIn => exact absent
    | chatted =>
      dsimp only
      rw [sendResponse_accounts]
      exact absent

/-- The second server has one account more. -/
structure OneMore (u stored : ByteString) (server server' : Server χ) : Prop where
  absent : server.accounts.accounts u = none
  same : ∃ buffer, server' = { server.withAccount u stored with messageBuffer := buffer }

variable {server' next' : Server χ} {event : Event χ} {out : Output χ}

theorem OneMore.sessions_eq (h : OneMore u stored server server') : server'.sessions = server.sessions := by
  obtain ⟨_, _, rfl⟩ := h
  rfl

theorem OneMore.accounts_eq (h : OneMore u stored server server') :
    server'.accounts.accounts u = some stored := by
  obtain ⟨_, _, rfl⟩ := h
  exact Table.assign_self _ _ _

theorem tells_ready (h : event.tells sha256 u stored = true) :
    ∃ fd buffer chatResult responseResult request, event = .ready fd (some buffer) chatResult responseResult ∧
      requestIn buffer = some request ∧ request.tells sha256 u stored = true := by
  unfold Event.tells at h
  split at h
  next fd buffer chatResult responseResult =>
    cases hrequest : requestIn buffer with
    | none =>
      rw [hrequest] at h
      cases h
    | some request =>
      rw [hrequest] at h
      exact ⟨fd, buffer, chatResult, responseResult, request, rfl, hrequest, h⟩
  next => cases h

/-- What is not answered is not done. -/
theorem unanswered {buffer : MessageBuffer} {chatResult responseResult : Int}
    (h : Step sha256 server (.ready fd (some buffer) chatResult responseResult) out next)
    (hnone : out.response = none) :
    server.sessions.sessions fd = none ∧ out = Output.silent ∧ next = server := by
  cases effect_of_step h with
  | ignored absent => exact ⟨absent, rfl, rfl⟩
  | answered => cases hnone

theorem step_unanswered (buffer : MessageBuffer) (chatResult responseResult : Int)
    (hs : server.sessions.sessions fd = none) :
    Step sha256 server (.ready fd (some buffer) chatResult responseResult) Output.silent server := by
  have he : server.sessions.isEstablished fd = false := Table.contains_eq_false.mpr hs
  simp only [Step, handleEvent, he, Bool.false_eq_true, if_false]
  rfl

/-- A request that tells but is not answered changes nothing, and would not in a server with other accounts. -/
theorem stays_of_tells (htells : event.tells sha256 u stored = true)
    (hquiet : out.response.isSome = true → event.tells sha256 u stored = false)
    (h : Step sha256 server event out next) : next = server ∧
      ∀ other : Server χ, other.sessions = server.sessions → Step sha256 other event out other := by
  obtain ⟨fd, buffer, chatResult, responseResult, _, rfl, _⟩ := tells_ready htells
  have hnone : out.response = none := by
    by_contra hsome
    rw [hquiet (Option.isSome_iff_ne_none.mpr hsome)] at htells
    cases htells
  obtain ⟨hs, rfl, rfl⟩ := unanswered h hnone
  refine ⟨rfl, ?_⟩
  intro other hother
  rw [← hother] at hs
  exact step_unanswered buffer chatResult responseResult hs

theorem oneMore_step (h : OneMore u stored server server')
    (hquiet : out.response.isSome = true → event.tells sha256 u stored = false)
    (hstep : Step sha256 server event out next) :
    ∃ next', Step sha256 server' event out next' ∧ OneMore u stored next next' := by
  cases htells : event.tells sha256 u stored with
  | true =>
    obtain ⟨rfl, hstays⟩ := stays_of_tells htells hquiet hstep
    exact ⟨server', hstays server' h.sessions_eq, h⟩
  | false =>
    obtain ⟨absent, buffer, rfl⟩ := h
    obtain ⟨left, hevent⟩ := handleEvent_withAccount absent htells buffer
    have hok : server.handleEvent sha256 event = .ok (next, out) := hstep
    rw [hok] at hevent
    exact ⟨_, hevent, absent_step absent htells hstep, left next, rfl⟩

theorem oneMore_step' (h : OneMore u stored server server')
    (hquiet : out.response.isSome = true → event.tells sha256 u stored = false)
    (hstep : Step sha256 server' event out next') :
    ∃ next, Step sha256 server event out next ∧ OneMore u stored next next' := by
  cases htells : event.tells sha256 u stored with
  | true =>
    obtain ⟨rfl, hstays⟩ := stays_of_tells htells hquiet hstep
    exact ⟨server, hstays server h.sessions_eq.symm, h⟩
  | false =>
    obtain ⟨absent, buffer, rfl⟩ := h
    obtain ⟨left, hevent⟩ := handleEvent_withAccount absent htells buffer
    have hok : handleEvent sha256 { server.withAccount u stored with messageBuffer := buffer } event =
        .ok (next', out) := hstep
    rw [hok] at hevent
    cases hplain : server.handleEvent sha256 event with
    | error e =>
      rw [hplain] at hevent
      cases hevent
    | ok r =>
      obtain ⟨next, out'⟩ := r
      rw [hplain] at hevent
      obtain ⟨rfl, rfl⟩ := Prod.mk.inj (Except.ok.inj hevent)
      exact ⟨next, hplain, absent_step absent htells hplain, left next, rfl⟩

/-- Both servers answer, but not the same. -/
def Distinguishes (sha256 : List UInt8 → Digest) (server server' : Server χ) (event : Event χ) : Prop :=
  ∃ out out' next next', Step sha256 server event out next ∧ Step sha256 server' event out' next' ∧
    out.response.isSome = true ∧ out'.response.isSome = true ∧ out.response ≠ out'.response

/-- The answer to a login without an account, or with a wrong password, and to no other login. -/
theorem incorrect_iff {session : Session χ} {buffer : MessageBuffer} {m : Login} {chatResult responseResult : Int}
    (hs : server.sessions.sessions fd = some session) (hrequest : requestIn buffer = some (.login m))
    (h : Step sha256 server (.ready fd (some buffer) chatResult responseResult) out next) :
    out.response = some (failure FailureText.incorrect) ↔
      server.accounts.accounts m.username ≠ some (AccountRegistry.hashPassword sha256 m.password) := by
  obtain ⟨handled, hhandled, rfl, _⟩ := handled_of_step hs h
  have hencoded : (Request.login m).message.encode <+: { server with messageBuffer := buffer }.messageBuffer.bytes :=
    requestIn_iff.mp hrequest
  have hlogin : handleLogin sha256 { server with messageBuffer := buffer } fd m = .ok handled :=
    (handleBufferedRequest_request chatResult hencoded).symm.trans hhandled
  constructor
  · intro hincorrect hstored
    rcases server.sessions.authenticate_cases fd m.username with ⟨_, _, _, hauth⟩ | ⟨_, hauth⟩
    · have hok := @handleLogin_stored χ sha256 { server with messageBuffer := buffer } fd m _ _ hstored hauth
      cases Except.ok.inj (hok.symm.trans hlogin)
      cases hincorrect
    · have hok := @handleLogin_stored χ sha256 { server with messageBuffer := buffer } fd m _ _ hstored hauth
      cases Except.ok.inj (hok.symm.trans hlogin)
      have htext : FailureText.alreadyLoggedIn = FailureText.incorrect :=
        congrArg Failure.what (Response.failure.inj (Option.some.inj hincorrect))
      exact absurd htext (by decide)
  · intro hwrong
    have hok := @handleLogin_incorrect χ sha256 { server with messageBuffer := buffer } fd m hwrong
    cases Except.ok.inj (hok.symm.trans hlogin)
    rfl

/-- Whether it is accepted or refused, a registration shows if the name was taken. -/
theorem taken_of_response {session session' : Session χ} {buffer : MessageBuffer} {m : Register} {out' : Output χ}
    {chatResult responseResult : Int} (hs : server.sessions.sessions fd = some session)
    (hs' : server'.sessions.sessions fd = some session') (hrequest : requestIn buffer = some (.register m))
    (h : Step sha256 server (.ready fd (some buffer) chatResult responseResult) out next)
    (h' : Step sha256 server' (.ready fd (some buffer) chatResult responseResult) out' next')
    (hsame : out.response = out'.response) :
    server.accounts.contains m.username = server'.accounts.contains m.username := by
  rw [response_of_register hs hrequest h, response_of_register hs' hrequest h'] at hsame
  rw [← @AccountRegistry.register_registered sha256 _ m.username m.password,
    ← @AccountRegistry.register_registered sha256 _ m.username m.password]
  generalize (server.accounts.register sha256 m.username m.password).1 = errors at hsame ⊢
  generalize (server'.accounts.register sha256 m.username m.password).1 = errors' at hsame ⊢
  split at hsame
  next haccepted =>
    split at hsame
    next haccepted' => rw [haccepted, haccepted']
    next => cases hsame
  next =>
    split at hsame
    next => cases hsame
    next =>
      have htext : AccountRegistry.errorString errors = AccountRegistry.errorString errors' :=
        congrArg Failure.what (Response.failure.inj (Option.some.inj hsame))
      exact AccountRegistry.errorString_registered htext

/-- A request that tells is answered with and without the account, but not alike. -/
theorem oneMore_distinguished {session : Session χ} {buffer : MessageBuffer} {chatResult responseResult : Int}
    (h : OneMore u stored server server') (hs : server.sessions.sessions fd = some session)
    (htells : (Event.ready fd (some buffer) chatResult responseResult : Event χ).tells sha256 u stored = true) :
    Distinguishes sha256 server server' (.ready fd (some buffer) chatResult responseResult) := by
  obtain ⟨_, _, _, _, request, hevent, hrequest, htells'⟩ := tells_ready htells
  cases hevent
  have hs' : server'.sessions.sessions fd = some session := by
    rw [h.sessions_eq]
    exact hs
  have hbuffer : Resizable Request.types buffer := resizable_of_encoded (requestIn_iff.mp hrequest)
  obtain ⟨out, next, hstep⟩ := request_returns sha256 hs hbuffer chatResult responseResult
  obtain ⟨out', next', hstep'⟩ := request_returns sha256 hs' hbuffer chatResult responseResult
  obtain ⟨_, _, hout, _⟩ := handled_of_step hs hstep
  obtain ⟨_, _, hout', _⟩ := handled_of_step hs' hstep'
  refine ⟨out, out', next, next', hstep, hstep', by rw [hout]; rfl, by rw [hout']; rfl, ?_⟩
  intro hsame
  cases request with
  | ping => cases htells'
  | sendChat => cases htells'
  | register m =>
    have hname : m.username = u := by simpa [Request.tells] using htells'
    have habsent : server.accounts.contains m.username = false := by
      rw [hname]
      exact Table.contains_eq_false.mpr h.absent
    have hpresent : server'.accounts.contains m.username = true := by
      rw [hname]
      exact Table.contains_iff.mpr ⟨_, h.accounts_eq⟩
    rw [taken_of_response hs hs' hrequest hstep hstep' hsame, hpresent] at habsent
    cases habsent
  | login m =>
    have hboth : m.username = u ∧ AccountRegistry.hashPassword sha256 m.password = stored := by
      simpa [Request.tells] using htells'
    obtain ⟨hname, hhash⟩ := hboth
    have hincorrect : out.response = some (failure FailureText.incorrect) := by
      refine (incorrect_iff hs hrequest hstep).mpr ?_
      rw [hname, h.absent]
      nofun
    rw [hsame] at hincorrect
    refine (incorrect_iff hs' hrequest hstep').mp hincorrect ?_
    rw [hname, hhash]
    exact h.accounts_eq

/-- An event that both servers answer alike does not tell. -/
theorem oneMore_alike (h : OneMore u stored server server') (hstep : Step sha256 server event out next)
    (hstep' : Step sha256 server' event out next') :
    (out.response.isSome = true → event.tells sha256 u stored = false) ∧ OneMore u stored next next' := by
  have hquiet : out.response.isSome = true → event.tells sha256 u stored = false := by
    intro hsome
    by_contra htells
    have htells' : event.tells sha256 u stored = true := by simpa using htells
    obtain ⟨fd, buffer, chatResult, responseResult, _, rfl, _⟩ := tells_ready htells'
    cases hs : server.sessions.sessions fd with
    | none =>
      cases effect_of_step hstep with
      | ignored => cases hsome
      | answered present =>
        rw [hs] at present
        cases present
    | some session =>
      obtain ⟨_, _, _, _, hfirst, hsecond, _, _, hdiffers⟩ := oneMore_distinguished h hs htells'
      have hout := (Prod.mk.inj (Except.ok.inj (hfirst.symm.trans hstep))).2
      have hout' := (Prod.mk.inj (Except.ok.inj (hsecond.symm.trans hstep'))).2
      exact hdiffers (congrArg Output.response (hout.trans hout'.symm))
  obtain ⟨other, hother, hmore⟩ := oneMore_step h hquiet hstep
  obtain rfl := (Prod.mk.inj (Except.ok.inj (hother.symm.trans hstep'))).1
  exact ⟨hquiet, hmore⟩

/-- What a registration that succeeds leaves behind. -/
theorem oneMore_registered {buffer : MessageBuffer} {m : Register} {chatResult responseResult : Int}
    (hreq : requestIn buffer = some (.register m)) (hsuccess : out.response = some (.success ⟨⟩))
    (hstep : Step sha256 server (.ready fd (some buffer) chatResult responseResult) out next) :
    OneMore m.username (AccountRegistry.hashPassword sha256 m.password) server next := by
  cases hs : server.sessions.sessions fd with
  | none =>
    cases effect_of_step hstep with
    | ignored => cases hsuccess
    | answered present =>
      rw [hs] at present
      cases present
  | some session =>
    obtain ⟨handled, hhandled, rfl, rfl⟩ := handled_of_step hs hstep
    have hhandles : handleRequest sha256 { server with messageBuffer := buffer } fd (.register m) chatResult =
        .ok handled :=
      (handleBufferedRequest_request chatResult (requestIn_iff.mp hreq)).symm.trans hhandled
    rcases handleRegister_cases sha256 { server with messageBuffer := buffer } fd m with
      ⟨habsent, hok⟩ | ⟨text, _, hok⟩
    · cases Except.ok.inj (hok.symm.trans hhandles)
      refine ⟨habsent, ((Response.success ⟨⟩).message.serialize buffer).2, ?_⟩
      rw [sendResponse_server]
      rfl
    · cases Except.ok.inj (hok.symm.trans hhandles)
      cases hsuccess

/-- No request that tells is answered. -/
def Quiet (sha256 : List UInt8 → Digest) (u stored : ByteString) (trace : List (Event χ × Output χ)) : Prop :=
  ∀ entry ∈ trace, entry.2.response.isSome = true → entry.1.tells sha256 u stored = false

theorem oneMore_run {last last' : Server χ} {trace : List (Event χ × Output χ)}
    (h : OneMore u stored server server') (run : Run (Step sha256) server trace last)
    (run' : Run (Step sha256) server' trace last') : Quiet sha256 u stored trace ∧ OneMore u stored last last' := by
  have hsame : trace.map id = trace.map id := rfl
  refine run.lockstep (R := fun trace _ s t => Quiet sha256 u stored trace ∧ OneMore u stored s t)
    ⟨fun entry hentry => absurd hentry List.not_mem_nil, h⟩ ?_ run' hsame
  rintro trace _ s s' event _ out _ t t' ⟨hquiet, hmore⟩ hstep hstep' hsame
  cases hsame
  obtain ⟨hquiet', hmore'⟩ := oneMore_alike hmore hstep hstep'
  refine ⟨?_, hmore'⟩
  intro entry hentry
  rcases List.mem_append.mp hentry with hold | hnew
  · exact hquiet entry hold
  · rw [List.mem_singleton.mp hnew]
    exact hquiet'

/-- Whether a name is registered shows in the answers to registrations of it, also to those that are refused, and
to logins with a password of its hash, and in nothing else: after a registration the server goes on as it would
have without until such a request is answered, and is told from it by each one that is. -/
theorem accounts_hidden {buffer : MessageBuffer} {m : Register} {chatResult responseResult : Int}
    (hreq : requestIn buffer = some (.register m)) (hsuccess : out.response = some (.success ⟨⟩))
    (hstep : Step sha256 server (.ready fd (some buffer) chatResult responseResult) out next)
    (trace : List (Event χ × Output χ)) :
    (Quiet sha256 m.username (AccountRegistry.hashPassword sha256 m.password) trace →
      ((∃ last, Run (Step sha256) server trace last) ↔ ∃ last, Run (Step sha256) next trace last)) ∧
    ∀ last last', Run (Step sha256) server trace last → Run (Step sha256) next trace last' →
      Quiet sha256 m.username (AccountRegistry.hashPassword sha256 m.password) trace ∧
      ∀ k session asked chatResult responseResult, last.sessions.sessions k = some session →
        (Event.ready k (some asked) chatResult responseResult : Event χ).tells sha256 m.username
          (AccountRegistry.hashPassword sha256 m.password) = true →
        Distinguishes sha256 last last' (.ready k (some asked) chatResult responseResult) := by
  have hmore := oneMore_registered hreq hsuccess hstep
  generalize AccountRegistry.hashPassword sha256 m.password = stored at hmore ⊢
  refine ⟨?_, ?_⟩
  · intro hquiet
    constructor
    · rintro ⟨last, run⟩
      obtain ⟨last', run', _⟩ := run.mirror _ hmore (fun h hentry hstep => oneMore_step h hentry hstep) hquiet
      exact ⟨last', run'⟩
    · rintro ⟨last, run⟩
      obtain ⟨last', run', _⟩ := run.mirror (R := fun s t => OneMore m.username stored t s) _ hmore
        (fun h hentry hstep => oneMore_step' h hentry hstep) hquiet
      exact ⟨last', run'⟩
  · intro last last' run run'
    obtain ⟨hquiet, hmore'⟩ := oneMore_run hmore run run'
    exact ⟨hquiet, fun k session asked chatResult responseResult hs htells => oneMore_distinguished hmore' hs htells⟩

def wrongGuess : ByteString := ⟨asciiBytes "aliceAdams124!", by decide +kernel⟩

/-- A stranger tries to log in as Alice and, logged in under a name of his own, to chat with her. -/
def probes : List (Event Nat) :=
  [asks 6 (.login ⟨alice.username, wrongGuess⟩), asks 6 (registering brian), asks 6 (.login brian),
    asks 6 (.sendChat hello)]

/-- Only his registration of her name tells him something, although it is refused for its password, too. -/
theorem accounts_hidden_probes : ∃ next out trace last last',
    Step paddedDigest twoConnections (asks 5 (registering alice)) out next ∧ trace.map Prod.fst = probes ∧
      Run (Step paddedDigest) twoConnections trace last ∧ Run (Step paddedDigest) next trace last' ∧
      Distinguishes paddedDigest last last' (asks 6 (.register weakRegister)) := by
  have hcomputed : ((advance paddedDigest (fun _ _ => true) twoConnections (asks 5 (registering alice))).any fun r =>
      r.1.response == some (.success ⟨⟩)) = true ∧
      (Run.execute (advance paddedDigest fun _ _ => true) twoConnections probes).any (fun reached =>
        reached.2.sessions.isEstablished 6) = true ∧
      (∀ event ∈ probes, event.tells paddedDigest alice.username
        (AccountRegistry.hashPassword paddedDigest alice.password) = false) := by decide +kernel
  obtain ⟨hregisters, hexecutes, hprobes⟩ := hcomputed
  obtain ⟨out, next, hstep, hsuccess⟩ := step_of_computed (asks 5 (registering alice))
    (fun out => out.response == some (.success ⟨⟩)) hregisters
  obtain ⟨⟨trace, last⟩, hexecute, hpresent⟩ := (Option.any_eq_true _ _).mp hexecutes
  obtain ⟨session, hs⟩ := SessionManager.isEstablished_iff.mp hpresent
  have hevents : trace.map Prod.fst = probes := Run.execute_events hexecute
  have hrun := (Run.of_execute step_of_advance hexecute).unguarded
  have hreq : requestIn ((registering alice).message.serialize (ByteVector.zero messageBufferSize)).2 =
      some (.register ⟨alice.username, alice.password⟩) := requestIn_serialized (by decide +kernel)
  have hweak : requestIn ((Request.register weakRegister).message.serialize (ByteVector.zero messageBufferSize)).2 =
      some (.register weakRegister) := requestIn_serialized (by decide +kernel)
  have hquiet : Quiet paddedDigest alice.username (AccountRegistry.hashPassword paddedDigest alice.password) trace := by
    intro entry hentry _
    refine hprobes entry.1 ?_
    rw [← hevents]
    exact List.mem_map_of_mem hentry
  obtain ⟨hsame, htells⟩ := accounts_hidden hreq (beq_iff_eq.mp hsuccess) hstep trace
  obtain ⟨last', hrun'⟩ := (hsame hquiet).mp ⟨last, hrun⟩
  refine ⟨next, out, trace, last, last', hstep, hevents, hrun, hrun',
    (htells last last' hrun hrun').2 6 session _ 1 1 hs ?_⟩
  unfold Event.tells
  dsimp only
  rw [hweak]
  simp [Request.tells, weakRegister]

end Server

end SecureMessaging
