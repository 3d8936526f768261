import SecureMessaging.SessionProperties

namespace SecureMessaging

/-- Whatever object it is read into, the vector decodes to the message. -/
def Message.HeldBy (message : Message) (vector : MessageBuffer) : Prop :=
  ∀ previous : message.type.Object, (message.type.deserialize previous vector).result = .ok true ∧
    (message.type.deserialize previous vector).object = message.object

/-- `Send` was called and did not return -1. -/
def Delivery.sent {χ : Type} (delivery : Delivery χ) : Bool := delivery.vector.isSome && delivery.result != -1

namespace Server

variable {χ : Type} {sha256 : List UInt8 → Digest} {server : Server χ} {fd : Int}

theorem sendResponse_held (server : Server χ) (channel : χ) {message : Message} (result : Int)
    (h : message.encode.length ≤ messageBufferSize.toNat) : ∃ vector,
    (server.sendResponse channel message result).2.2 = ⟨channel, message, some vector, result⟩ ∧
      message.HeldBy vector := by
  have hdelivery : (server.sendResponse channel message result).2.2 = _ := sendResponse_fits channel result h
  have hencoded := vector_of_sendResponse (congrArg Delivery.vector hdelivery)
  exact ⟨_, hdelivery, fun previous => deserialize_accepts previous hencoded⟩

/-- The message goes out if it fits and `Send` does not return -1. -/
theorem sendResponse_cases (server : Server χ) (channel : χ) (message : Message) (result : Int) :
    ((message.encode.length ≤ messageBufferSize.toNat ∧ result ≠ -1) ∧
      (server.sendResponse channel message result).1 = true ∧
      (server.sendResponse channel message result).2.2.sent = true) ∨
    (¬(message.encode.length ≤ messageBufferSize.toNat ∧ result ≠ -1) ∧
      (server.sendResponse channel message result).1 = false ∧
      (server.sendResponse channel message result).2.2.sent = false) := by
  have hfit : (message.serialize server.messageBuffer).1 = true ↔
      message.encode.length ≤ messageBufferSize.toNat := serialize_success
  rw [← hfit]
  unfold sendResponse
  cases hserialized : (message.serialize server.messageBuffer).1 with
  | false => simp [hserialized, Delivery.sent]
  | true => by_cases hresult : result = -1 <;> simp [hserialized, hresult, Delivery.sent]

/-- What a SendChat request does for a descriptor with a session. -/
structure Forwards (server : Server χ) (session : Session χ) (m : SendChat) (result : Int)
    (response : Response) (forwarded : Option (Delivery χ)) : Prop where
  success : response = .success ⟨⟩ ↔ session.authenticated = true ∧
    server.sessions.isEstablishedUser m.recipient = true ∧
    (MessageType.receiveChat.encode ⟨session.username, m.content⟩).length ≤ messageBufferSize.toNat ∧ result ≠ -1
  sent : response = .success ⟨⟩ → ∃ k target vector, server.sessions.userToFd m.recipient = some k ∧
    server.sessions.sessions k = some target ∧
    forwarded = some ⟨target.channel, ⟨.receiveChat, ⟨session.username, m.content⟩⟩, some vector, result⟩ ∧
    Message.HeldBy ⟨.receiveChat, ⟨session.username, m.content⟩⟩ vector
  unsent : response ≠ .success ⟨⟩ → ∀ delivery, forwarded = some delivery → delivery.sent = false

theorem forwards_of_route {session target : Session χ} {m : SendChat} {k : Int} (result : Int)
    (hauth : session.authenticated = true) (hroute : server.sessions.userToFd m.recipient = some k)
    (htarget : server.sessions.sessions k = some target) :
    let passed := server.sendResponse target.channel ⟨.receiveChat, ⟨session.username, m.content⟩⟩ result
    Forwards server session m result (if passed.1 then .success ⟨⟩ else failure FailureText.chatFailed)
      (some passed.2.2) := by
  have hestablished := SessionManager.isEstablishedUser_iff.mpr ⟨k, target, hroute, htarget⟩
  rcases server.sendResponse_cases target.channel ⟨.receiveChat, ⟨session.username, m.content⟩⟩ result with
    ⟨⟨hfits, hresult⟩, hpassed, _⟩ | ⟨hno, hpassed, hunsent⟩
  · obtain ⟨vector, hdelivery, hheld⟩ := server.sendResponse_held target.channel result hfits
    dsimp only
    rw [hpassed, if_pos rfl]
    refine ⟨?_, ?_, ?_⟩
    · exact ⟨fun _ => ⟨hauth, hestablished, hfits, hresult⟩, fun _ => rfl⟩
    · intro _
      exact ⟨k, target, vector, hroute, htarget, congrArg some hdelivery, hheld⟩
    · intro hfailed
      exact absurd rfl hfailed
  · dsimp only
    rw [hpassed, if_neg Bool.false_ne_true]
    refine ⟨?_, ?_, ?_⟩
    · constructor
      · intro hsuccess
        cases hsuccess
      · intro hall
        exact absurd hall.2.2 hno
    · intro hsuccess
      cases hsuccess
    · intro _ delivery hforward
      rw [← Option.some.inj hforward]
      exact hunsent

theorem handleSendChat_forwards {session : Session χ} (m : SendChat) (result : Int)
    (hs : server.sessions.sessions fd = some session) : ∃ handled,
    handleSendChat server fd m result = .ok handled ∧
      Forwards server session m result handled.response handled.forwarded := by
  rcases handleSendChat_cases server m result hs with
    ⟨k, target, hauth, hroute, htarget, hok⟩ | ⟨hno, text, _, hok⟩
  · refine ⟨_, hok, ?_⟩
    dsimp only
    exact forwards_of_route result hauth hroute htarget
  · refine ⟨_, hok, ?_, ?_, ?_⟩
    · constructor
      · intro hsuccess
        cases hsuccess
      · intro hall
        obtain ⟨hauth, hestablished, _⟩ := hall
        rcases hno with hauth' | hestablished'
        · rw [hauth] at hauth'
          cases hauth'
        · rw [hestablished] at hestablished'
          cases hestablished'
    · intro hsuccess
      cases hsuccess
    · intro _ delivery hforward
      cases hforward

/-- A SendChat request from connection to connection: it is answered Success exactly if the chat went out,
once, on the channel of the session that the name map gives, and what then goes back to `fd` decodes to
the answer. -/
theorem chat_forwarded (sha256 : List UInt8 → Digest) {session : Session χ} {buffer : MessageBuffer} {m : SendChat}
    (hs : server.sessions.sessions fd = some session)
    (hrequest : (Request.sendChat m).message.encode <+: buffer.bytes) (chatResult responseResult : Int) :
    ∃ out next response reply vector,
      Step sha256 server (.ready fd (some buffer) chatResult responseResult) out next ∧
      out = ⟨some response, out.forwarded, some reply⟩ ∧
      Forwards server session m chatResult response out.forwarded ∧
      reply.channel = session.channel ∧ reply.vector = some vector ∧ response.message.HeldBy vector := by
  have hbuffered : handleBufferedRequest sha256 { server with messageBuffer := buffer } fd chatResult =
      handleRequest sha256 { server with messageBuffer := buffer } fd (.sendChat m) chatResult :=
    handleBufferedRequest_request chatResult hrequest
  have hforwards : ∃ handled, handleSendChat { server with messageBuffer := buffer } fd m chatResult = .ok handled ∧
      Forwards { server with messageBuffer := buffer } session m chatResult handled.response handled.forwarded :=
    handleSendChat_forwards m chatResult hs
  obtain ⟨handled, hok, hchat⟩ := hforwards
  have hhandled := hbuffered.trans hok
  have hanswer : Answer sha256 { server with messageBuffer := buffer } fd chatResult handled :=
    answer_of_handled hs hhandled
  obtain ⟨vector, hvector, hheld⟩ :=
    handled.server.sendResponse_held session.channel responseResult hanswer.response_fits
  refine ⟨_, _, handled.response, _, vector, step_of_handled responseResult hs hhandled, rfl, ?_, ?_, ?_, hheld⟩
  · exact ⟨hchat.success, hchat.sent, hchat.unsent⟩
  · rw [hvector]
  · rw [hvector]

theorem chat_forwarded_chatRun : ∃ trace server out next,
    Run (Step paddedDigest) (init : Server Nat) trace server ∧
      Step paddedDigest server (asks 5 (.sendChat hello)) out next ∧ out.response = some (.success ⟨⟩) := by
  obtain ⟨trace, server, run, hgood⟩ := reaches_of_execute paddedDigest (fun _ _ => true) chatRun
    (fun _ s => (s.sessions.sessions 5).any (fun session => session.authenticated &&
      (MessageType.receiveChat.encode ⟨session.username, hello.content⟩).length ≤ messageBufferSize.toNat) &&
      s.sessions.isEstablishedUser hello.recipient) (by decide +kernel)
  obtain ⟨hsender, hrecipient⟩ := (Bool.and_eq_true _ _).mp hgood
  obtain ⟨session, hs, hready⟩ := (Option.any_eq_true _ _).mp hsender
  obtain ⟨hauth, hfits⟩ := (Bool.and_eq_true _ _).mp hready
  obtain ⟨out, next, response, _, _, hstep, hout, hforwards, _⟩ :=
    chat_forwarded paddedDigest hs (requestIn_iff.mp requestIn_hello) 1 1
  have hsuccess := hforwards.success.mpr ⟨hauth, hrecipient, of_decide_eq_true hfits, by decide⟩
  exact ⟨trace, server, out, next, run.unguarded, hstep, by rw [hout, hsuccess]⟩

end Server

end SecureMessaging
