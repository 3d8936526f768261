import SecureMessaging.AccountRegistry
import SecureMessaging.RoundTrip
import SecureMessaging.SessionManager

namespace SecureMessaging

/-- `MESSAGE_BUFFER_SIZE`. -/
def messageBufferSize : UInt64 := 65536

@[simp] theorem messageBufferSize_toNat : messageBufferSize.toNat = 65536 := rfl

abbrev MessageBuffer := ByteVector messageBufferSize

inductive Request
  | ping (m : Ping)
  | login (m : Login)
  | register (m : Register)
  | sendChat (m : SendChat)
  deriving DecidableEq

inductive Response
  | success (m : Success)
  | failure (m : Failure)
  | receiveChat (m : ReceiveChat)
  deriving DecidableEq

def Request.message : Request → Message
  | ping m => ⟨.ping, m⟩
  | login m => ⟨.login, m⟩
  | register m => ⟨.register, m⟩
  | sendChat m => ⟨.sendChat, m⟩

def Response.message : Response → Message
  | success m => ⟨.success, m⟩
  | failure m => ⟨.failure, m⟩
  | receiveChat m => ⟨.receiveChat, m⟩

/-- One call of `SendResponse`: the vector is what `Serialize` made of the message
buffer and `SecureChannel::Send` got, `result` what `Send` returned. -/
structure Delivery (χ : Type) where
  channel : χ
  message : Message
  vector : Option MessageBuffer
  result : Int

/-- `registered` are the descriptors in the epoll set. -/
structure Server (χ : Type) where
  messageBuffer : MessageBuffer
  sessions : SessionManager χ
  accounts : AccountRegistry
  registered : Int → Bool

/-- What `HandleRequest` leaves behind, with the chat it passed on, if any. -/
structure Handled (χ : Type) where
  server : Server χ
  response : Response
  forwarded : Option (Delivery χ)

structure Output (χ : Type) where
  response : Option Response
  forwarded : Option (Delivery χ)
  replied : Option (Delivery χ)

def Output.silent {χ : Type} : Output χ := ⟨none, none, none⟩

/-- What one turn of the event loop finds: a new connection and the outcome of its
key agreement, or a ready descriptor with what `Receive` put into the buffer (`none`
if it returned 0 or less) and what `Send` will return for a forwarded chat and for the response. -/
inductive Event (χ : Type)
  | accept (fd : Int) (agreed : Option χ)
  | ready (fd : Int) (received : Option MessageBuffer) (chatResult responseResult : Int)

namespace FailureText

def alreadyLoggedIn : ByteString := ⟨asciiBytes "A user is already logged in under that account", by decide⟩
def incorrect : ByteString := ⟨asciiBytes "Incorrect password or username", by decide⟩
def chatFailed : ByteString := ⟨asciiBytes "Chat failed to send", by decide⟩
def noRecipient : ByteString := ⟨asciiBytes "Recipient does not exist", by decide⟩
def unauthenticated : ByteString := ⟨asciiBytes "Client unauthenticated", by decide⟩
def deserialization : ByteString := ⟨asciiBytes "Request deserialization failed", by decide⟩
def typeIdUnrecognized : ByteString := ⟨asciiBytes "Type ID unrecognized", by decide⟩
def typeIdUnread : ByteString := ⟨asciiBytes "Failed to read type ID", by decide⟩

end FailureText

namespace Server

variable {χ : Type}

def init : Server χ :=
  ⟨ByteVector.zero messageBufferSize, SessionManager.empty, AccountRegistry.empty, fun _ => false⟩

def establishConnection (server : Server χ) (fd : Int) (agreed : Option χ) : Server χ :=
  let (created, sessions) := server.sessions.create fd agreed
  if created then
    { server with sessions := sessions, registered := fun k => if k = fd then true else server.registered k }
  else { server with sessions := sessions }

def closeConnection (server : Server χ) (fd : Int) : Fallible (Server χ) := do
  let (_, sessions) ← server.sessions.destroy fd
  pure { server with sessions := sessions, registered := fun k => if k = fd then false else server.registered k }

/-- Whether the message was sent, and the server with the buffer it was written into. -/
def sendResponse (server : Server χ) (channel : χ) (message : Message) (result : Int) :
    Bool × Server χ × Delivery χ :=
  let (serialized, buffer) := message.serialize server.messageBuffer
  let server := { server with messageBuffer := buffer }
  if serialized then (result != -1, server, ⟨channel, message, some buffer, result⟩)
  else (false, server, ⟨channel, message, none, result⟩)

def failure (text : ByteString) : Response := .failure ⟨text⟩

/-- `HandleRequest<Ping>`. -/
def handlePing (server : Server χ) (_fd : Int) (_request : Ping) : Fallible (Handled χ) :=
  pure ⟨server, .success ⟨⟩, none⟩

/-- `HandleRequest<Register>`. -/
def handleRegister (sha256 : List UInt8 → Digest) (server : Server χ) (_fd : Int) (request : Register) :
    Fallible (Handled χ) :=
  let (error, accounts) := server.accounts.register sha256 request.username request.password
  let server := { server with accounts := accounts }
  if error = 0 then pure ⟨server, .success ⟨⟩, none⟩
  else pure ⟨server, failure (AccountRegistry.errorString error), none⟩

/-- `HandleRequest<Login>`. -/
def handleLogin (sha256 : List UInt8 → Digest) (server : Server χ) (fd : Int) (request : Login) :
    Fallible (Handled χ) := do
  if server.accounts.contains request.username then
    if ← server.accounts.matchingPassword sha256 request.username request.password then
      let (success, sessions) ← server.sessions.authenticate fd request.username
      let server := { server with sessions := sessions }
      if success then pure ⟨server, .success ⟨⟩, none⟩
      else pure ⟨server, failure FailureText.alreadyLoggedIn, none⟩
    else pure ⟨server, failure FailureText.incorrect, none⟩
  else pure ⟨server, failure FailureText.incorrect, none⟩

/-- `HandleRequest<SendChat>`. -/
def handleSendChat (server : Server χ) (fd : Int) (request : SendChat) (result : Int) :
    Fallible (Handled χ) := do
  if ← server.sessions.isAuthenticated fd then
    if server.sessions.isEstablishedUser request.recipient then
      let channel ← server.sessions.getChannelUser request.recipient
      let username ← server.sessions.getUsername fd
      let (sent, server, delivery) :=
        server.sendResponse channel ⟨.receiveChat, ⟨username, request.content⟩⟩ result
      if sent then pure ⟨server, .success ⟨⟩, some delivery⟩
      else pure ⟨server, failure FailureText.chatFailed, some delivery⟩
    else pure ⟨server, failure FailureText.noRecipient, none⟩
  else pure ⟨server, failure FailureText.unauthenticated, none⟩

/-- `HandleBufferedRequestAs<T>`, given the members `Deserialize` and `HandleRequest<T>`. -/
def handleBufferedRequestAs {T : Type} [Inhabited T] (server : Server χ)
    (deserialize : T → MessageBuffer → Decoded T) (handle : T → Fallible (Handled χ)) :
    Fallible (Handled χ) := do
  let decoded := deserialize default server.messageBuffer
  if ← decoded.result then handle decoded.object
  else pure ⟨server, failure FailureText.deserialization, none⟩

def handleBufferedRequest (sha256 : List UInt8 → Digest) (server : Server χ) (fd : Int) (result : Int) :
    Fallible (Handled χ) :=
  match (ByteReader.new server.messageBuffer).read 1 with
  | some (id, _) =>
    if id = [Ping.typeId] then
      server.handleBufferedRequestAs Ping.deserialize fun request => server.handlePing fd request
    else if id = [Register.typeId] then
      server.handleBufferedRequestAs Register.deserialize fun request => server.handleRegister sha256 fd request
    else if id = [Login.typeId] then
      server.handleBufferedRequestAs Login.deserialize fun request => server.handleLogin sha256 fd request
    else if id = [SendChat.typeId] then
      server.handleBufferedRequestAs SendChat.deserialize fun request => server.handleSendChat fd request result
    else pure ⟨server, failure FailureText.typeIdUnrecognized, none⟩
  | none => pure ⟨server, failure FailureText.typeIdUnread, none⟩

/-- The body of the loop in `HandleEvents`. -/
def handleEvent (sha256 : List UInt8 → Digest) (server : Server χ) (event : Event χ) :
    Fallible (Server χ × Output χ) := do
  match event with
  | .accept fd agreed =>
    if fd ≠ -1 then pure (server.establishConnection fd agreed, Output.silent)
    else pure (server, Output.silent)
  | .ready fd received chatResult responseResult =>
    if server.sessions.isEstablished fd then
      let channel ← server.sessions.getChannel fd
      match received with
      | some buffer =>
        let handled ← handleBufferedRequest sha256 { server with messageBuffer := buffer } fd chatResult
        let (_, server, reply) := handled.server.sendResponse channel handled.response.message responseResult
        pure (server, ⟨some handled.response, handled.forwarded, some reply⟩)
      | none =>
        let server ← server.closeConnection fd
        pure (server, Output.silent)
    else pure (server, Output.silent)

/-- One step of a running server; an exception ends the run. -/
def Step (sha256 : List UInt8 → Digest) (server : Server χ) (event : Event χ) (out : Output χ)
    (next : Server χ) : Prop :=
  server.handleEvent sha256 event = .ok (next, out)

end Server

end SecureMessaging
