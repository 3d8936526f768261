import SecureMessaging.Inbox

namespace SecureMessaging

/-- What the server does about one call of `SendRequest`: the result of `Send`, and what `Receive`
gives to that call from then on. Where this ends without an answer the call does not return, be it that
`Receive` blocks or that there is no end of chats. -/
structure Answer where
  result : Int
  received : Stream

/-- Behind any chats `Receive` gives something that is no chat, and no length in it makes `resize` throw. -/
def Replied (stream : Stream) : Prop :=
  ∃ front buffer rest, stream = front ++ some buffer :: rest ∧
    (∀ received ∈ front, ∃ chat, chatIn received = some chat) ∧ chatIn (some buffer) = none ∧
    Resizable Response.types buffer

/-- The request cannot be sent, or the server replies to it before it disconnects. -/
def Answered (request : Request) (answer : Answer) : Prop :=
  request.message.encode.length ≤ messageBufferSize.toNat → answer.result ≠ 0 → Replied answer.received

theorem Replied.cons {received : Option MessageBuffer} {chat : ReceiveChat} {stream : Stream}
    (hchat : chatIn received = some chat) (h : Replied stream) : Replied (received :: stream) := by
  obtain ⟨front, buffer, rest, rfl, hfront, hreply⟩ := h
  refine ⟨received :: front, buffer, rest, rfl, ?_, hreply⟩
  intro other hother
  rcases List.mem_cons.mp hother with rfl | hmem
  · exact ⟨chat, hchat⟩
  · exact hfront other hmem

namespace Client

variable {client : Client} {buffer : MessageBuffer}

theorem deserializeAs_returns {T : Type} [Inhabited T] {deserialize : T → MessageBuffer → Decoded T}
    {outcome : Except RequestError T} (h : client.deserializeAs deserialize = .ok outcome) :
    ∃ accepted, (deserialize default client.messageBuffer).result = .ok accepted := by
  unfold deserializeAs at h
  dsimp only at h
  cases hresult : (deserialize default client.messageBuffer).result with
  | error e =>
    rw [hresult] at h
    cases h
  | ok accepted => exact ⟨accepted, rfl⟩

/-- `GetResponse` throws only where a `resize` does. -/
theorem resizable_of_getResponse {called : Client × Option (Except RequestError Response)}
    (h : client.getResponse (some buffer) = .ok called) : Resizable Response.types buffer := by
  obtain ⟨id, rest, hb, hpeek⟩ := peek_id buffer
  have hbind : ∀ {α β : Type} {first : Fallible α} {rest : α → Fallible β} {b : β},
      (first >>= rest) = .ok b → ∃ a, first = .ok a := by
    intro α β first rest b hboth
    cases first with
    | error e => cases hboth
    | ok a => exact ⟨a, rfl⟩
  have hdefault : ∀ (type : MessageType) [Inhabited type.Object] {outcome : Except RequestError type.Object},
      type ≠ .stringList → ({ client with messageBuffer := buffer } : Client).deserializeAs type.deserialize =
        .ok outcome → ∀ previous, ∃ accepted, (type.deserialize previous buffer).result = .ok accepted := by
    intro type _ outcome htype hcall previous
    obtain ⟨accepted, hok⟩ := deserializeAs_returns hcall
    exact ⟨accepted, (deserialize_result htype previous default buffer).trans hok⟩
  unfold getResponse at h
  dsimp only at h
  rw [hpeek] at h
  dsimp only at h
  intro type htype previous
  by_cases hid : id = type.typeId
  · have hthree : type = .success ∨ type = .failure ∨ type = .receiveChat := by simpa [Response.types] using htype
    rcases hthree with rfl | rfl | rfl
    · have hid' : id = Success.typeId := hid
      rw [hid', if_pos rfl] at h
      obtain ⟨outcome, hcall⟩ := hbind h
      exact hdefault .success (by decide) hcall previous
    · have hid' : id = Failure.typeId := hid
      have hne : ¬[Failure.typeId] = [Success.typeId] := by decide
      rw [hid', if_neg hne, if_pos rfl] at h
      obtain ⟨outcome, hcall⟩ := hbind h
      exact hdefault .failure (by decide) hcall previous
    · have hid' : id = ReceiveChat.typeId := hid
      have hne : ¬[ReceiveChat.typeId] = [Success.typeId] := by decide
      have hne' : ¬[ReceiveChat.typeId] = [Failure.typeId] := by decide
      rw [hid', if_neg hne, if_neg hne', if_pos rfl] at h
      obtain ⟨outcome, hcall⟩ := hbind h
      exact hdefault .receiveChat (by decide) hcall previous
  · exact deserialize_other hb hid previous

/-- A chat makes `GetResponse` call itself again, anything else ends it. -/
theorem getResponse_reads (client : Client) (hbuffer : Resizable Response.types buffer) :
    (∃ chat after, chatIn (some buffer) = some chat ∧ client.getResponse (some buffer) = .ok (after, none)) ∨
    ∃ outcome after, chatIn (some buffer) = none ∧ outcome ≠ .error .disconnected ∧
      client.getResponse (some buffer) = .ok (after, some outcome) := by
  have hreceived : ∀ buffer', some buffer = some buffer' → Resizable Response.types buffer' := by
    intro buffer' hsome
    rw [← Option.some.inj hsome]
    exact hbuffer
  rcases client.getResponse_cases hreceived with
    ⟨chat, after, hchat, _, hcall⟩ | ⟨outcome, after, hnochat, hconcludes, _, hcall⟩
  · exact Or.inl ⟨chat, after, hchat, hcall⟩
  · refine Or.inr ⟨outcome, after, hnochat, ?_, hcall⟩
    rintro rfl
    cases hconcludes

/-- By induction on the chats in front. -/
theorem awaitResponse_of_replied {stream : Stream} (client : Client) (h : Replied stream) :
    ∃ outcome after rest, client.awaitResponse stream = .ok (some outcome, after, rest) ∧
      outcome ≠ .error .disconnected := by
  obtain ⟨front, buffer, rest, rfl, hfront, hnochat, hbuffer⟩ := h
  induction front generalizing client with
  | nil =>
    rcases client.getResponse_reads hbuffer with ⟨chat, _, hchat, _⟩ | ⟨outcome, after, _, hne, hcall⟩
    · cases hnochat.symm.trans hchat
    · refine ⟨outcome, after, rest, ?_, hne⟩
      simp only [List.nil_append, awaitResponse, hcall, bind, Except.bind]
      rfl
  | cons received front ih =>
    obtain ⟨chat, hchat⟩ := hfront received List.mem_cons_self
    obtain ⟨chatBuffer, rfl⟩ : ∃ chatBuffer, received = some chatBuffer := by
      cases received with
      | none => cases hchat
      | some chatBuffer => exact ⟨chatBuffer, rfl⟩
    have hcall : client.getResponse (some chatBuffer) = .ok (⟨chatBuffer, client.inbox ++ [chat]⟩, none) :=
      getResponse_chat (chatIn_iff.mp hchat)
    obtain ⟨outcome, after, rest', hawait, hne⟩ := ih ⟨chatBuffer, client.inbox ++ [chat]⟩
      fun other hother => hfront other (List.mem_cons_of_mem _ hother)
    refine ⟨outcome, after, rest', ?_, hne⟩
    simp only [List.cons_append, awaitResponse, hcall, bind, Except.bind]
    exact hawait

/-- By induction on the stream: what was taken off it without an outcome were chats. -/
theorem replied_of_awaitResponse {stream rest : Stream} {outcome : Except RequestError Response} {after : Client}
    (h : client.awaitResponse stream = .ok (some outcome, after, rest)) (hne : outcome ≠ .error .disconnected) :
    Replied stream := by
  induction stream generalizing client with
  | nil => cases h
  | cons received stream ih =>
    cases received with
    | none =>
      cases h
      exact absurd rfl hne
    | some buffer =>
      unfold awaitResponse at h
      cases hcall : client.getResponse (some buffer) with
      | error e =>
        rw [hcall] at h
        cases h
      | ok called =>
        have hbuffer := resizable_of_getResponse hcall
        rcases client.getResponse_reads hbuffer with ⟨chat, after', hchat, hagain⟩ | ⟨_, _, hnochat, _, _⟩
        · simp only [hagain, bind, Except.bind] at h
          exact (ih h).cons hchat
        · exact ⟨[], buffer, stream, rfl, fun _ hmem => absurd hmem List.not_mem_nil, hnochat, hbuffer⟩

theorem sendRequest_error {after : Client} {request : Message} {result : Int} {error : RequestError}
    (h : client.sendRequest request result = (.error error, after)) : error ≠ .disconnected := by
  unfold sendRequest at h
  dsimp only at h
  split at h
  next =>
    split at h
    next => cases h
    next =>
      cases h
      exact RequestError.noConfusion
  next =>
    cases h
    exact RequestError.noConfusion

end Client

/-- The `_session` of a `ClientCLI`; `requests` counts its calls of `SendRequest`. -/
structure ClientSession where
  client : Client
  connected : Bool
  requests : Nat

namespace ClientSession

/-- `Connect`, given what `EstablishKey` returns. -/
def connect (session : ClientSession) (established : Bool) : ClientSession :=
  if established then { session with connected := true } else session

def disconnect (session : ClientSession) : ClientSession := { session with connected := false }

def isConnected (session : ClientSession) : Bool := session.connected

/-- None if the call does not return. -/
def sendRequest (server : Nat → Answer) (session : ClientSession) (request : Message) :
    Fallible (Option (Except RequestError Response × ClientSession)) := do
  let answer := server session.requests
  let conversation : Conversation := ⟨session.client, answer.received, false⟩
  match ← conversation.converse (.sendRequest request answer.result) with
  | (.returned outcome, after) =>
    pure (some (outcome, { session with client := after.client, requests := session.requests + 1 }))
  | _ => pure none

variable {server : Nat → Answer} {session after : ClientSession} {request : Request}

theorem sendRequest_after {outcome : Except RequestError Response} {message : Message}
    (h : session.sendRequest server message = .ok (some (outcome, after))) :
    after.connected = session.connected ∧ after.requests = session.requests + 1 := by
  unfold sendRequest at h
  dsimp only at h
  cases hcall : (⟨session.client, (server session.requests).received, false⟩ : Conversation).converse
      (.sendRequest message (server session.requests).result) with
  | error e =>
    rw [hcall] at h
    cases h
  | ok called =>
    obtain ⟨reply, conversation⟩ := called
    rw [hcall] at h
    cases reply with
    | returned outcome' =>
      cases h
      exact ⟨rfl, rfl⟩
    | unread chats => cases h
    | waiting => cases h

/-- The call returns an outcome other than a disconnection exactly if the server answers it. -/
theorem sendRequest_answered (server : Nat → Answer) (session : ClientSession) (request : Request) :
    Answered request (server session.requests) ↔ ∃ outcome after,
      session.sendRequest server request.message = .ok (some (outcome, after)) ∧ outcome ≠ .error .disconnected := by
  obtain ⟨written, hwritten⟩ : ∃ written : Client, written =
      { session.client with messageBuffer := (request.message.serialize session.client.messageBuffer).2 } := ⟨_, rfl⟩
  rcases session.client.sendRequest_cases request.message (server session.requests).result with
    ⟨hfits, hresult, hsend⟩ | ⟨hno, error, hsend⟩
  · rw [← hwritten] at hsend
    constructor
    · intro hanswered
      obtain ⟨outcome, after, rest, hawait, hne⟩ := written.awaitResponse_of_replied (hanswered hfits hresult)
      refine ⟨outcome, ⟨after, session.connected, session.requests + 1⟩, ?_, hne⟩
      simp only [sendRequest, Conversation.converse, hsend, hawait, bind, Except.bind]
      rfl
    · rintro ⟨outcome, after, h, hne⟩ _ _
      cases hawait : written.awaitResponse (server session.requests).received with
      | error e =>
        simp only [sendRequest, Conversation.converse, hsend, hawait, bind, Except.bind] at h
        cases h
      | ok awaited =>
        obtain ⟨answer, next, rest⟩ := awaited
        simp only [sendRequest, Conversation.converse, hsend, hawait, bind, Except.bind] at h
        cases answer with
        | none => cases h
        | some outcome' =>
          cases h
          exact Client.replied_of_awaitResponse hawait hne
  · rw [← hwritten] at hsend
    constructor
    · intro _
      refine ⟨.error error, ⟨written, session.connected, session.requests + 1⟩, ?_, ?_⟩
      · simp only [sendRequest, Conversation.converse, hsend, bind, Except.bind]
        rfl
      · intro hdisconnected
        exact Client.sendRequest_error hsend (Except.error.inj hdisconnected)
    · intro _ hfits hresult
      exact absurd ⟨hfits, hresult⟩ hno

end ClientSession

end SecureMessaging
