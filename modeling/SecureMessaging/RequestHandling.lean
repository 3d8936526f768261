import SecureMessaging.Server

namespace SecureMessaging

namespace Server

variable {χ : Type} {sha256 : List UInt8 → Digest} {server : Server χ} {fd : Int}

theorem sendResponse_server (server : Server χ) (channel : χ) (message : Message) (result : Int) :
    (server.sendResponse channel message result).2.1 =
      { server with messageBuffer := (message.serialize server.messageBuffer).2 } := by
  unfold sendResponse
  dsimp only
  split <;> rfl

@[simp] theorem sendResponse_sessions (server : Server χ) (channel : χ) (message : Message) (result : Int) :
    (server.sendResponse channel message result).2.1.sessions = server.sessions := by
  rw [sendResponse_server]

@[simp] theorem sendResponse_accounts (server : Server χ) (channel : χ) (message : Message) (result : Int) :
    (server.sendResponse channel message result).2.1.accounts = server.accounts := by
  rw [sendResponse_server]

@[simp] theorem sendResponse_registered (server : Server χ) (channel : χ) (message : Message) (result : Int) :
    (server.sendResponse channel message result).2.1.registered = server.registered := by
  rw [sendResponse_server]

/-- The vector that goes to `Send` is the message buffer, and there is one if the message fits. -/
theorem sendResponse_delivery (server : Server χ) (channel : χ) (message : Message) (result : Int) :
    (server.sendResponse channel message result).2.2 =
      ⟨channel, message, if (message.serialize server.messageBuffer).1
        then some (message.serialize server.messageBuffer).2 else none, result⟩ := by
  unfold sendResponse
  cases hs : (message.serialize server.messageBuffer).1 <;> simp [hs]

/-- `HandleRequest`, whatever the type of the request. -/
def handleRequest (sha256 : List UInt8 → Digest) (server : Server χ) (fd : Int) (request : Request)
    (result : Int) : Fallible (Handled χ) :=
  match request with
  | .ping m => server.handlePing fd m
  | .register m => server.handleRegister sha256 fd m
  | .login m => server.handleLogin sha256 fd m
  | .sendChat m => server.handleSendChat fd m result

theorem handleBufferedRequestAs_accepts (type : MessageType) [Inhabited type.Object] {m : type.Object}
    {handle : type.Object → Fallible (Handled χ)} (h : type.encode m <+: server.messageBuffer.bytes) :
    server.handleBufferedRequestAs type.deserialize handle = handle m := by
  obtain ⟨hr, hobj⟩ := deserialize_accepts default h
  simp [handleBufferedRequestAs, hr, hobj, bind, Except.bind]

theorem messageBuffer_read (buffer : MessageBuffer) :
    ∃ id rest, buffer.bytes = id :: rest ∧ ∃ reader : ByteReader messageBufferSize,
      (ByteReader.new buffer).read 1 = some ([id], reader) := by
  have h1 : (1 : UInt64).toNat = 1 := rfl
  have hlen := buffer.length_eq
  rw [messageBufferSize_toNat] at hlen
  obtain ⟨id, rest, hb⟩ := List.exists_cons_of_length_pos (show 0 < buffer.bytes.length by omega)
  rcases (ByteReader.new buffer).read_cases 1 with ⟨hshort, _⟩ | ⟨reader, _, hread, _⟩
  · rw [ByteReader.unread_new, h1] at hshort
    omega
  · rw [ByteReader.unread_new, h1, hb] at hread
    exact ⟨id, rest, hb, reader, hread⟩

/-- The choice among the request types by the first byte. -/
def byTypeId {α : Type} (id : UInt8) (ping register login sendChat other : α) : α :=
  if id = Ping.typeId then ping
  else if id = Register.typeId then register
  else if id = Login.typeId then login
  else if id = SendChat.typeId then sendChat
  else other

theorem byTypeId_ping {α : Type} (ping register login sendChat other : α) :
    byTypeId Ping.typeId ping register login sendChat other = ping := rfl

theorem byTypeId_register {α : Type} (ping register login sendChat other : α) :
    byTypeId Register.typeId ping register login sendChat other = register := rfl

theorem byTypeId_login {α : Type} (ping register login sendChat other : α) :
    byTypeId Login.typeId ping register login sendChat other = login := rfl

theorem byTypeId_sendChat {α : Type} (ping register login sendChat other : α) :
    byTypeId SendChat.typeId ping register login sendChat other = sendChat := rfl

theorem typeId_cases (id : UInt8) :
    id = Ping.typeId ∨ id = Register.typeId ∨ id = Login.typeId ∨ id = SendChat.typeId ∨
      ∀ (α : Type) (ping register login sendChat other : α),
        byTypeId id ping register login sendChat other = other := by
  by_cases hping : id = Ping.typeId
  · exact Or.inl hping
  by_cases hregister : id = Register.typeId
  · exact Or.inr (Or.inl hregister)
  by_cases hlogin : id = Login.typeId
  · exact Or.inr (Or.inr (Or.inl hlogin))
  by_cases hsendChat : id = SendChat.typeId
  · exact Or.inr (Or.inr (Or.inr (Or.inl hsendChat)))
  · refine Or.inr (Or.inr (Or.inr (Or.inr ?_)))
    intro α ping register login sendChat other
    simp [byTypeId, hping, hregister, hlogin, hsendChat]

/-- The dispatcher looks at the first byte only. -/
theorem handleBufferedRequest_eq (result : Int) {id : UInt8} {rest : List UInt8}
    (hb : server.messageBuffer.bytes = id :: rest) :
    handleBufferedRequest sha256 server fd result = byTypeId id
      (server.handleBufferedRequestAs Ping.deserialize fun request => server.handlePing fd request)
      (server.handleBufferedRequestAs Register.deserialize fun request => server.handleRegister sha256 fd request)
      (server.handleBufferedRequestAs Login.deserialize fun request => server.handleLogin sha256 fd request)
      (server.handleBufferedRequestAs SendChat.deserialize fun request => server.handleSendChat fd request result)
      (pure ⟨server, failure FailureText.typeIdUnrecognized, none⟩) := by
  obtain ⟨id', rest', hb', reader, hread⟩ := messageBuffer_read server.messageBuffer
  rw [hb] at hb'
  obtain ⟨rfl, rfl⟩ := List.cons.inj hb'
  unfold handleBufferedRequest
  rw [hread]
  simp only [List.cons.injEq, and_true, byTypeId]

theorem typeId_of_isPrefix {m : Message} {bytes : List UInt8} (h : m.encode <+: bytes) :
    ∃ rest, bytes = m.type.typeId :: rest := by
  obtain ⟨tail, ht⟩ := h
  obtain ⟨rest, he⟩ := encode_eq_cons m.type m.object
  exact ⟨rest ++ tail, by rw [← ht, Message.encode, he]; rfl⟩

/-- A buffer that starts with a request is handled as that request. -/
theorem handleBufferedRequest_request {request : Request} (result : Int)
    (h : request.message.encode <+: server.messageBuffer.bytes) :
    handleBufferedRequest sha256 server fd result = handleRequest sha256 server fd request result := by
  cases request with
  | ping m =>
    obtain ⟨rest, hb⟩ : ∃ rest, server.messageBuffer.bytes = Ping.typeId :: rest := typeId_of_isPrefix h
    rw [handleBufferedRequest_eq result hb, byTypeId_ping]
    exact handleBufferedRequestAs_accepts .ping h
  | register m =>
    obtain ⟨rest, hb⟩ : ∃ rest, server.messageBuffer.bytes = Register.typeId :: rest := typeId_of_isPrefix h
    rw [handleBufferedRequest_eq result hb, byTypeId_register]
    exact handleBufferedRequestAs_accepts .register h
  | login m =>
    obtain ⟨rest, hb⟩ : ∃ rest, server.messageBuffer.bytes = Login.typeId :: rest := typeId_of_isPrefix h
    rw [handleBufferedRequest_eq result hb, byTypeId_login]
    exact handleBufferedRequestAs_accepts .login h
  | sendChat m =>
    obtain ⟨rest, hb⟩ : ∃ rest, server.messageBuffer.bytes = SendChat.typeId :: rest := typeId_of_isPrefix h
    rw [handleBufferedRequest_eq result hb, byTypeId_sendChat]
    exact handleBufferedRequestAs_accepts .sendChat h

/-- The request a buffer holds, if it holds one that `HandleBufferedRequest` accepts. -/
def requestAs {T : Type} [Inhabited T] (deserialize : T → MessageBuffer → Decoded T) (wrap : T → Request)
    (buffer : MessageBuffer) : Option Request :=
  let decoded := deserialize default buffer
  match decoded.result with
  | .ok true => some (wrap decoded.object)
  | _ => none

def requestIn (buffer : MessageBuffer) : Option Request :=
  match buffer.bytes with
  | [] => none
  | id :: _ =>
    if id = Ping.typeId then requestAs Ping.deserialize .ping buffer
    else if id = Register.typeId then requestAs Register.deserialize .register buffer
    else if id = Login.typeId then requestAs Login.deserialize .login buffer
    else if id = SendChat.typeId then requestAs SendChat.deserialize .sendChat buffer
    else none

theorem requestAs_iff (type : MessageType) [Inhabited type.Object] {wrap : type.Object → Request}
    {buffer : MessageBuffer} {request : Request} :
    requestAs type.deserialize wrap buffer = some request ↔
      ∃ m, type.encode m <+: buffer.bytes ∧ wrap m = request := by
  constructor
  · intro h
    unfold requestAs at h
    dsimp only at h
    split at h
    next hr => exact ⟨_, deserialize_iff.mp ⟨hr, rfl⟩, Option.some.inj h⟩
    next => cases h
  · rintro ⟨m, hpre, rfl⟩
    obtain ⟨hr, hobj⟩ := deserialize_accepts default hpre
    simp [requestAs, hr, hobj]

theorem requestIn_eq {buffer : MessageBuffer} {id : UInt8} {rest : List UInt8} (hb : buffer.bytes = id :: rest) :
    requestIn buffer = byTypeId id (requestAs Ping.deserialize .ping buffer)
      (requestAs Register.deserialize .register buffer) (requestAs Login.deserialize .login buffer)
      (requestAs SendChat.deserialize .sendChat buffer) none := by
  unfold requestIn
  rw [hb]
  rfl

theorem requestIn_encoded {buffer : MessageBuffer} {request : Request} (h : requestIn buffer = some request) :
    request.message.encode <+: buffer.bytes := by
  obtain ⟨id, rest, hb, _⟩ := messageBuffer_read buffer
  rw [requestIn_eq hb] at h
  rcases typeId_cases id with rfl | rfl | rfl | rfl | hother
  · rw [byTypeId_ping] at h
    obtain ⟨m, hpre, rfl⟩ := (requestAs_iff .ping).mp h
    exact hpre
  · rw [byTypeId_register] at h
    obtain ⟨m, hpre, rfl⟩ := (requestAs_iff .register).mp h
    exact hpre
  · rw [byTypeId_login] at h
    obtain ⟨m, hpre, rfl⟩ := (requestAs_iff .login).mp h
    exact hpre
  · rw [byTypeId_sendChat] at h
    obtain ⟨m, hpre, rfl⟩ := (requestAs_iff .sendChat).mp h
    exact hpre
  · rw [hother] at h
    cases h

theorem requestIn_iff {buffer : MessageBuffer} {request : Request} :
    requestIn buffer = some request ↔ request.message.encode <+: buffer.bytes := by
  refine ⟨requestIn_encoded, ?_⟩
  intro h
  cases request with
  | ping m =>
    obtain ⟨rest, hb⟩ : ∃ rest, buffer.bytes = Ping.typeId :: rest := typeId_of_isPrefix h
    rw [requestIn_eq hb, byTypeId_ping]
    exact (requestAs_iff .ping).mpr ⟨m, h, rfl⟩
  | register m =>
    obtain ⟨rest, hb⟩ : ∃ rest, buffer.bytes = Register.typeId :: rest := typeId_of_isPrefix h
    rw [requestIn_eq hb, byTypeId_register]
    exact (requestAs_iff .register).mpr ⟨m, h, rfl⟩
  | login m =>
    obtain ⟨rest, hb⟩ : ∃ rest, buffer.bytes = Login.typeId :: rest := typeId_of_isPrefix h
    rw [requestIn_eq hb, byTypeId_login]
    exact (requestAs_iff .login).mpr ⟨m, h, rfl⟩
  | sendChat m =>
    obtain ⟨rest, hb⟩ : ∃ rest, buffer.bytes = SendChat.typeId :: rest := typeId_of_isPrefix h
    rw [requestIn_eq hb, byTypeId_sendChat]
    exact (requestAs_iff .sendChat).mpr ⟨m, h, rfl⟩

theorem handleBufferedRequestAs_refuses {T : Type} [Inhabited T] {deserialize : T → MessageBuffer → Decoded T}
    {wrap : T → Request} {handle : T → Fallible (Handled χ)} {handled : Handled χ}
    (h : requestAs deserialize wrap server.messageBuffer = none)
    (hok : server.handleBufferedRequestAs deserialize handle = .ok handled) :
    handled = ⟨server, failure FailureText.deserialization, none⟩ := by
  cases hr : (deserialize default server.messageBuffer).result with
  | error e => simp [handleBufferedRequestAs, hr, bind, Except.bind] at hok
  | ok accepted =>
    cases accepted with
    | true => simp [requestAs, hr] at h
    | false =>
      have hfail : server.handleBufferedRequestAs deserialize handle =
          .ok ⟨server, failure FailureText.deserialization, none⟩ := by
        simp [handleBufferedRequestAs, hr, bind, Except.bind, pure, Except.pure]
      rw [hfail] at hok
      exact (Except.ok.inj hok).symm

/-- The bytes of a failure text; that of `ErrorString` is the longest. -/
abbrev Short (text : ByteString) : Prop := text.data.length ≤ 294

theorem handleBufferedRequest_refuses {result : Int} {handled : Handled χ}
    (h : requestIn server.messageBuffer = none)
    (hok : handleBufferedRequest sha256 server fd result = .ok handled) :
    ∃ text, Short text ∧ handled = ⟨server, failure text, none⟩ := by
  obtain ⟨id, rest, hb, _⟩ := messageBuffer_read server.messageBuffer
  have hshort : Short FailureText.deserialization := by decide
  rw [handleBufferedRequest_eq result hb] at hok
  rw [requestIn_eq hb] at h
  rcases typeId_cases id with rfl | rfl | rfl | rfl | hother
  · rw [byTypeId_ping] at h hok
    exact ⟨_, hshort, handleBufferedRequestAs_refuses h hok⟩
  · rw [byTypeId_register] at h hok
    exact ⟨_, hshort, handleBufferedRequestAs_refuses h hok⟩
  · rw [byTypeId_login] at h hok
    exact ⟨_, hshort, handleBufferedRequestAs_refuses h hok⟩
  · rw [byTypeId_sendChat] at h hok
    exact ⟨_, hshort, handleBufferedRequestAs_refuses h hok⟩
  · rw [hother] at hok
    exact ⟨_, by decide, (Except.ok.inj hok).symm⟩

theorem handleRegister_cases (sha256 : List UInt8 → Digest) (server : Server χ) (fd : Int) (m : Register) :
    (server.accounts.accounts m.username = none ∧ handleRegister sha256 server fd m =
      .ok ⟨{ server with accounts :=
        ⟨server.accounts.accounts.assign m.username (AccountRegistry.hashPassword sha256 m.password)⟩ },
        .success ⟨⟩, none⟩) ∨
    ∃ text, Short text ∧ handleRegister sha256 server fd m = .ok ⟨server, failure text, none⟩ := by
  rcases AccountRegistry.register_cases sha256 server.accounts m.username m.password with
    ⟨habsent, hregister⟩ | ⟨errors, herrors, hregister⟩
  · exact Or.inl ⟨habsent, by simp only [handleRegister, hregister, AccountRegistry.Error.none, if_true]; rfl⟩
  · have hne : errors ≠ 0 := herrors
    refine Or.inr ⟨AccountRegistry.errorString errors, AccountRegistry.errorString_length errors, ?_⟩
    simp only [handleRegister, hregister, if_neg hne]
    rfl

theorem handleLogin_incorrect {m : Login}
    (h : server.accounts.accounts m.username ≠ some (AccountRegistry.hashPassword sha256 m.password)) :
    handleLogin sha256 server fd m = .ok ⟨server, failure FailureText.incorrect, none⟩ := by
  have hmatch : server.accounts.matchingPassword sha256 m.username m.password = .ok false := by
    rw [AccountRegistry.matchingPassword_eq]
    simpa using h
  cases hcontains : server.accounts.contains m.username <;>
    simp [handleLogin, hcontains, hmatch, bind, Except.bind, pure, Except.pure]

/-- With the right password the session manager decides. -/
theorem handleLogin_stored {m : Login} {success : Bool} {sessions : SessionManager χ}
    (h : server.accounts.accounts m.username = some (AccountRegistry.hashPassword sha256 m.password))
    (hauth : server.sessions.authenticate fd m.username = .ok (success, sessions)) :
    handleLogin sha256 server fd m = .ok ⟨{ server with sessions := sessions },
      if success then .success ⟨⟩ else failure FailureText.alreadyLoggedIn, none⟩ := by
  have hcontains : server.accounts.contains m.username = true := Table.contains_iff.mpr ⟨_, h⟩
  have hmatch : server.accounts.matchingPassword sha256 m.username m.password = .ok true := by
    rw [AccountRegistry.matchingPassword_eq, h, beq_self_eq_true]
  cases success <;> simp [handleLogin, hcontains, hmatch, hauth, bind, Except.bind, pure, Except.pure]

theorem handleLogin_cases (sha256 : List UInt8 → Digest) (server : Server χ) (fd : Int) (m : Login) :
    (∃ session, server.accounts.accounts m.username = some (AccountRegistry.hashPassword sha256 m.password) ∧
      server.sessions.sessions fd = some session ∧ server.sessions.isEstablishedUser m.username = false ∧
      handleLogin sha256 server fd m = .ok ⟨{ server with sessions :=
        ⟨server.sessions.sessions.assign fd ⟨session.channel, m.username, true⟩,
          server.sessions.userToFd.emplace m.username fd⟩ }, .success ⟨⟩, none⟩) ∨
    ((server.accounts.accounts m.username ≠ some (AccountRegistry.hashPassword sha256 m.password) ∨
        server.sessions.sessions fd = none ∨ server.sessions.isEstablishedUser m.username = true) ∧
      ∃ text, Short text ∧ handleLogin sha256 server fd m = .ok ⟨server, failure text, none⟩) := by
  by_cases hstored : server.accounts.accounts m.username =
      some (AccountRegistry.hashPassword sha256 m.password)
  · rcases server.sessions.authenticate_cases fd m.username with
      ⟨session, hsession, hfree, hauth⟩ | ⟨hno, hauth⟩
    · exact Or.inl ⟨session, hstored, hsession, hfree, handleLogin_stored hstored hauth⟩
    · exact Or.inr ⟨Or.inr hno, FailureText.alreadyLoggedIn, by decide, handleLogin_stored hstored hauth⟩
  · exact Or.inr ⟨Or.inl hstored, FailureText.incorrect, by decide, handleLogin_incorrect hstored⟩

theorem handleSendChat_unauthenticated {session : Session χ} (m : SendChat) (result : Int)
    (hs : server.sessions.sessions fd = some session) (ha : session.authenticated = false) :
    handleSendChat server fd m result = .ok ⟨server, failure FailureText.unauthenticated, none⟩ := by
  have hauth := SessionManager.isAuthenticated_ok hs
  simp [handleSendChat, hauth, ha, bind, Except.bind, pure, Except.pure]

theorem handleSendChat_noRecipient {session : Session χ} {m : SendChat} (result : Int)
    (hs : server.sessions.sessions fd = some session) (ha : session.authenticated = true)
    (hr : server.sessions.isEstablishedUser m.recipient = false) :
    handleSendChat server fd m result = .ok ⟨server, failure FailureText.noRecipient, none⟩ := by
  have hauth := SessionManager.isAuthenticated_ok hs
  simp [handleSendChat, hauth, ha, hr, bind, Except.bind, pure, Except.pure]

theorem handleSendChat_passes {session session' : Session χ} {m : SendChat} {fd' : Int} (result : Int)
    (hs : server.sessions.sessions fd = some session) (ha : session.authenticated = true)
    (hroute : server.sessions.userToFd m.recipient = some fd')
    (hs' : server.sessions.sessions fd' = some session') :
    handleSendChat server fd m result =
      let passed := server.sendResponse session'.channel ⟨.receiveChat, ⟨session.username, m.content⟩⟩ result
      .ok ⟨passed.2.1, if passed.1 then .success ⟨⟩ else failure FailureText.chatFailed, some passed.2.2⟩ := by
  have hauth := SessionManager.isAuthenticated_ok hs
  have hr := SessionManager.isEstablishedUser_iff.mpr ⟨fd', session', hroute, hs'⟩
  have hchannel := SessionManager.getChannelUser_ok hroute hs'
  have hname := SessionManager.getUsername_ok hs
  simp only [handleSendChat, hauth, ha, hr, hchannel, hname, bind, Except.bind, if_true]
  generalize server.sendResponse session'.channel _ result = passed
  cases hsent : passed.1 <;> simp [pure, Except.pure]

/-- A chat is passed on to the session that the recipient's entry of the name map points to. -/
theorem handleSendChat_cases (server : Server χ) {fd : Int} {session : Session χ} (m : SendChat) (result : Int)
    (hs : server.sessions.sessions fd = some session) :
    (∃ fd' session', session.authenticated = true ∧ server.sessions.userToFd m.recipient = some fd' ∧
      server.sessions.sessions fd' = some session' ∧ handleSendChat server fd m result =
        let passed := server.sendResponse session'.channel ⟨.receiveChat, ⟨session.username, m.content⟩⟩ result
        .ok ⟨passed.2.1, if passed.1 then .success ⟨⟩ else failure FailureText.chatFailed, some passed.2.2⟩) ∨
    ((session.authenticated = false ∨ server.sessions.isEstablishedUser m.recipient = false) ∧
      ∃ text, Short text ∧ handleSendChat server fd m result = .ok ⟨server, failure text, none⟩) := by
  cases ha : session.authenticated with
  | false =>
    exact Or.inr ⟨Or.inl rfl, FailureText.unauthenticated, by decide, handleSendChat_unauthenticated m result hs ha⟩
  | true =>
    cases hr : server.sessions.isEstablishedUser m.recipient with
    | false =>
      exact Or.inr ⟨Or.inr rfl, FailureText.noRecipient, by decide, handleSendChat_noRecipient result hs ha hr⟩
    | true =>
      obtain ⟨fd', session', hroute, hs'⟩ := SessionManager.isEstablishedUser_iff.mp hr
      exact Or.inl ⟨fd', session', rfl, hroute, hs', handleSendChat_passes result hs ha hroute hs'⟩

end Server

end SecureMessaging
