import SecureMessaging.Forwarding

namespace SecureMessaging

/-- What a request changes in the maps of the server. -/
inductive Change (χ : Type)
  | nothing
  | account (username hash : ByteString)
  | login (fd : Int) (channel : χ) (username : ByteString)

namespace Change

variable {χ : Type}

def accounts : Change χ → AccountRegistry → AccountRegistry
  | account username hash, registry => ⟨registry.accounts.emplace username hash⟩
  | nothing, registry | login _ _ _, registry => registry

def sessions : Change χ → SessionManager χ → SessionManager χ
  | login fd channel username, manager =>
    ⟨manager.sessions.assign fd ⟨channel, username, true⟩, manager.userToFd.emplace username fd⟩
  | nothing, manager | account _ _, manager => manager

end Change

/-- The answer to a request, what it changes, and the chat that is passed on with the channel it goes to. -/
structure Verdict (χ : Type) where
  response : Response
  change : Change χ
  chat : Option (χ × Message)

/-- The username a request names. -/
def Request.name : Request → Option ByteString
  | ping _ => none
  | register m => some m.username
  | login m => some m.username
  | sendChat m => some m.recipient

/-- The channel of the session that the name map points to. -/
def SessionManager.route {χ : Type} (manager : SessionManager χ) (username : ByteString) : Option χ :=
  ((manager.userToFd username).bind manager.sessions).map Session.channel

theorem SessionManager.route_isSome {χ : Type} (manager : SessionManager χ) (username : ByteString) :
    (manager.route username).isSome = manager.isEstablishedUser username := by
  unfold route isEstablishedUser isEstablished Table.contains
  cases manager.userToFd username with
  | none => rfl
  | some fd => simp

namespace Server

variable {χ : Type} {sha256 : List UInt8 → Digest} {server server' : Server χ} {fd fd' : Int}
  {session session' : Session χ} {request request' : Request} {result result' : Int}

/-- What `HandleRequest` comes to for a descriptor with `session`. Of the maps it only looks at
the entries of the name that the request names. -/
def verdict (sha256 : List UInt8 → Digest) (server : Server χ) (fd : Int) (session : Session χ) (result : Int) :
    Request → Verdict χ
  | .ping _ => ⟨.success ⟨⟩, .nothing, none⟩
  | .register m =>
    let errors := server.accounts.validateUsername m.username ||| AccountRegistry.validatePassword m.password
    if errors = 0 then ⟨.success ⟨⟩, .account m.username (AccountRegistry.hashPassword sha256 m.password), none⟩
    else ⟨failure (AccountRegistry.errorString errors), .nothing, none⟩
  | .login m =>
    if server.accounts.accounts m.username = some (AccountRegistry.hashPassword sha256 m.password) then
      if (server.sessions.route m.username).isSome then ⟨failure FailureText.alreadyLoggedIn, .nothing, none⟩
      else ⟨.success ⟨⟩, .login fd session.channel m.username, none⟩
    else ⟨failure FailureText.incorrect, .nothing, none⟩
  | .sendChat m =>
    if session.authenticated then
      match server.sessions.route m.recipient with
      | some channel =>
        let message : Message := ⟨.receiveChat, ⟨session.username, m.content⟩⟩
        ⟨if message.encode.length ≤ messageBufferSize.toNat ∧ result ≠ -1 then .success ⟨⟩
          else failure FailureText.chatFailed, .nothing, some (channel, message)⟩
      | none => ⟨failure FailureText.noRecipient, .nothing, none⟩
    else ⟨failure FailureText.unauthenticated, .nothing, none⟩

def changed (server : Server χ) (change : Change χ) : Server χ :=
  { server with accounts := change.accounts server.accounts, sessions := change.sessions server.sessions }

/-- The verdict carried out: only here the message buffer comes in. -/
def carryOut (server : Server χ) (verdict : Verdict χ) (result : Int) : Handled χ :=
  match verdict.chat with
  | none => ⟨server.changed verdict.change, verdict.response, none⟩
  | some (channel, message) =>
    let passed := (server.changed verdict.change).sendResponse channel message result
    ⟨passed.2.1, verdict.response, some passed.2.2⟩

theorem carryOut_quiet {verdict : Verdict χ} (h : verdict.chat = none) :
    server.carryOut verdict result = ⟨server.changed verdict.change, verdict.response, none⟩ := by
  unfold carryOut
  rw [h]

theorem carryOut_chat {response : Response} {channel : χ} {message : Message} :
    server.carryOut ⟨response, .nothing, some (channel, message)⟩ result =
      ⟨(server.sendResponse channel message result).2.1, response,
        some (server.sendResponse channel message result).2.2⟩ := rfl

theorem sendResponse_response (server : Server χ) (channel : χ) (message : Message) (result : Int) :
    (if (server.sendResponse channel message result).1 then Response.success ⟨⟩
      else failure FailureText.chatFailed) =
      if message.encode.length ≤ messageBufferSize.toNat ∧ result ≠ -1 then .success ⟨⟩
      else failure FailureText.chatFailed := by
  rcases server.sendResponse_cases channel message result with ⟨hfits, hpassed, _⟩ | ⟨hno, hpassed, _⟩
  · rw [hpassed, if_pos rfl, if_pos hfits]
  · rw [hpassed, if_neg Bool.false_ne_true, if_neg hno]

theorem handleRegister_verdict (session : Session χ) (m : Register) (result : Int) :
    handleRegister sha256 server fd m =
      .ok (server.carryOut (verdict sha256 server fd session result (.register m)) result) := by
  by_cases herrors : server.accounts.validateUsername m.username |||
      AccountRegistry.validatePassword m.password = 0
  · have hverdict : verdict sha256 server fd session result (.register m) =
        ⟨.success ⟨⟩, .account m.username (AccountRegistry.hashPassword sha256 m.password), none⟩ := if_pos herrors
    have hregister : server.accounts.register sha256 m.username m.password = (_, ⟨_⟩) := if_pos herrors
    rw [hverdict, carryOut_quiet rfl]
    simp only [handleRegister, hregister, if_pos herrors]
    rfl
  · have hverdict : verdict sha256 server fd session result (.register m) = ⟨failure (AccountRegistry.errorString
        (server.accounts.validateUsername m.username ||| AccountRegistry.validatePassword m.password)),
        .nothing, none⟩ := if_neg herrors
    have hregister : server.accounts.register sha256 m.username m.password = (_, server.accounts) := if_neg herrors
    rw [hverdict, carryOut_quiet rfl]
    simp only [handleRegister, hregister, if_neg herrors]
    rfl

theorem handleLogin_verdict (m : Login) (result : Int) (hs : server.sessions.sessions fd = some session) :
    handleLogin sha256 server fd m =
      .ok (server.carryOut (verdict sha256 server fd session result (.login m)) result) := by
  by_cases hstored : server.accounts.accounts m.username =
      some (AccountRegistry.hashPassword sha256 m.password)
  · rcases server.sessions.authenticate_cases fd m.username with
      ⟨session', hs', hfree, hauth⟩ | ⟨hno, hauth⟩
    · cases Option.some.inj (hs.symm.trans hs')
      have hverdict : verdict sha256 server fd session result (.login m) =
          ⟨.success ⟨⟩, .login fd session.channel m.username, none⟩ := by
        simp [verdict, hstored, SessionManager.route_isSome, hfree]
      rw [hverdict, carryOut_quiet rfl, handleLogin_stored hstored hauth]
      rfl
    · have hused : server.sessions.isEstablishedUser m.username = true := by
        simpa [hs] using hno
      have hverdict : verdict sha256 server fd session result (.login m) =
          ⟨failure FailureText.alreadyLoggedIn, .nothing, none⟩ := by
        simp [verdict, hstored, SessionManager.route_isSome, hused]
      rw [hverdict, carryOut_quiet rfl, handleLogin_stored hstored hauth]
      rfl
  · have hverdict : verdict sha256 server fd session result (.login m) =
        ⟨failure FailureText.incorrect, .nothing, none⟩ := if_neg hstored
    rw [hverdict, carryOut_quiet rfl, handleLogin_incorrect hstored]
    rfl

theorem handleSendChat_verdict (m : SendChat) (result : Int) (hs : server.sessions.sessions fd = some session) :
    handleSendChat server fd m result =
      .ok (server.carryOut (verdict sha256 server fd session result (.sendChat m)) result) := by
  cases ha : session.authenticated with
  | false =>
    have hverdict : verdict sha256 server fd session result (.sendChat m) =
        ⟨failure FailureText.unauthenticated, .nothing, none⟩ := by simp [verdict, ha]
    rw [hverdict, carryOut_quiet rfl, handleSendChat_unauthenticated m result hs ha]
    rfl
  | true =>
    cases hr : server.sessions.isEstablishedUser m.recipient with
    | false =>
      have hroute : server.sessions.route m.recipient = none := by
        simpa [hr] using server.sessions.route_isSome m.recipient
      have hverdict : verdict sha256 server fd session result (.sendChat m) =
          ⟨failure FailureText.noRecipient, .nothing, none⟩ := by simp [verdict, ha, hroute]
      rw [hverdict, carryOut_quiet rfl, handleSendChat_noRecipient result hs ha hr]
      rfl
    | true =>
      obtain ⟨k, target, hk, htarget⟩ := SessionManager.isEstablishedUser_iff.mp hr
      have hroute : server.sessions.route m.recipient = some target.channel := by
        simp [SessionManager.route, hk, htarget]
      have hverdict : verdict sha256 server fd session result (.sendChat m) =
          ⟨if (Message.encode ⟨.receiveChat, ⟨session.username, m.content⟩⟩).length ≤ messageBufferSize.toNat ∧
              result ≠ -1 then .success ⟨⟩ else failure FailureText.chatFailed,
            .nothing, some (target.channel, ⟨.receiveChat, ⟨session.username, m.content⟩⟩)⟩ := by
        simp only [verdict, ha, hroute, if_true]
      rw [handleSendChat_passes result hs ha hk htarget, hverdict, carryOut_chat]
      dsimp only
      rw [sendResponse_response]

/-- `HandleRequest` is its verdict, carried out. -/
theorem handleRequest_verdict (sha256 : List UInt8 → Digest) (hs : server.sessions.sessions fd = some session)
    (request : Request) (result : Int) :
    handleRequest sha256 server fd request result =
      .ok (server.carryOut (verdict sha256 server fd session result request) result) := by
  cases request with
  | ping m => rfl
  | register m => exact handleRegister_verdict session m result
  | login m => exact handleLogin_verdict m result hs
  | sendChat m => exact handleSendChat_verdict m result hs

end Server

end SecureMessaging
