import SecureMessaging.Server

namespace SecureMessaging

inductive RequestError
  | send
  | disconnected
  | timeout
  | serialization
  | deserialization
  deriving DecidableEq

structure Client where
  messageBuffer : MessageBuffer
  inbox : List ReceiveChat

namespace Client

def init : Client := ⟨ByteVector.zero messageBufferSize, []⟩

def getUnread (client : Client) : List ReceiveChat × Client := (client.inbox, { client with inbox := [] })

/-- `SendRequest` up to its call of `GetResponse`, given what `Send` returns. -/
def sendRequest (client : Client) (request : Message) (result : Int) :
    Except RequestError MessageBuffer × Client :=
  let (serialized, buffer) := request.serialize client.messageBuffer
  let client := { client with messageBuffer := buffer }
  if serialized then
    if result ≠ 0 then (.ok buffer, client) else (.error .send, client)
  else (.error .serialization, client)

/-- `DeserializeAs<T>`. -/
def deserializeAs {T : Type} [Inhabited T] (client : Client) (deserialize : T → MessageBuffer → Decoded T) :
    Fallible (Except RequestError T) := do
  let decoded := deserialize default client.messageBuffer
  if ← decoded.result then pure (.ok decoded.object) else pure (.error .deserialization)

/-- One call of `GetResponse`, given what `Receive` puts into the buffer (`none` if it
returned 0 or less); without a result the function calls itself again. -/
def getResponse (client : Client) (received : Option MessageBuffer) :
    Fallible (Client × Option (Except RequestError Response)) := do
  match received with
  | some buffer =>
    let client := { client with messageBuffer := buffer }
    match (ByteReader.new client.messageBuffer).peek 1 with
    | some id =>
      if id = [Success.typeId] then
        let outcome ← client.deserializeAs Success.deserialize
        pure (client, some (outcome.map .success))
      else if id = [Failure.typeId] then
        let outcome ← client.deserializeAs Failure.deserialize
        pure (client, some (outcome.map .failure))
      else if id = [ReceiveChat.typeId] then
        match ← client.deserializeAs ReceiveChat.deserialize with
        | .ok chat => pure ({ client with inbox := client.inbox ++ [chat] }, none)
        | .error error => pure (client, some (.error error))
      else pure (client, some (.error .deserialization))
    -- the buffer is never too short for a type ID
    | none => pure (client, some (.error .deserialization))
  | none => pure (client, some (.error .disconnected))

/-- The buffer changes and is what gets sent, whatever comes of it. -/
theorem sendRequest_cases (client : Client) (request : Message) (result : Int) :
    (request.encode.length ≤ messageBufferSize.toNat ∧ result ≠ 0 ∧ client.sendRequest request result =
      (.ok (request.serialize client.messageBuffer).2,
        { client with messageBuffer := (request.serialize client.messageBuffer).2 })) ∨
    (¬(request.encode.length ≤ messageBufferSize.toNat ∧ result ≠ 0) ∧ ∃ error,
      client.sendRequest request result =
        (.error error, { client with messageBuffer := (request.serialize client.messageBuffer).2 })) := by
  have hfit : (request.serialize client.messageBuffer).1 = true ↔
      request.encode.length ≤ messageBufferSize.toNat := serialize_success
  unfold sendRequest
  dsimp only
  rw [← hfit]
  split
  next hserialized =>
    split
    next hresult => exact Or.inl ⟨hserialized, hresult, rfl⟩
    next hresult => exact Or.inr ⟨fun hboth => hresult hboth.2, _, rfl⟩
  next hserialized => exact Or.inr ⟨fun hboth => hserialized hboth.1, _, rfl⟩

theorem getResponse_buffer {client after : Client} {buffer : MessageBuffer}
    {result : Option (Except RequestError Response)}
    (h : client.getResponse (some buffer) = .ok (after, result)) : after.messageBuffer = buffer := by
  have hthen : ∀ {T : Type} (decoded : Fallible (Except RequestError T))
      (answer : Except RequestError T → Fallible (Client × Option (Except RequestError Response))),
      (∀ outcome, answer outcome = .ok (after, result) → after.messageBuffer = buffer) →
      decoded.bind answer = .ok (after, result) → after.messageBuffer = buffer := by
    intro T decoded answer hanswer hbind
    cases decoded with
    | error e => cases hbind
    | ok outcome => exact hanswer outcome hbind
  have hpure : ∀ {after' : Client} {result' : Option (Except RequestError Response)},
      (pure (after', result') : Fallible _) = .ok (after, result) → after'.messageBuffer = buffer →
      after.messageBuffer = buffer := by
    intro after' result' hsame hbuffer
    rw [← (Prod.mk.inj (Except.ok.inj hsame)).1, hbuffer]
  unfold getResponse at h
  dsimp only at h
  split at h
  next id _ =>
    split at h
    next => exact hthen _ _ (fun outcome hout => hpure hout rfl) h
    next =>
      split at h
      next => exact hthen _ _ (fun outcome hout => hpure hout rfl) h
      next =>
        split at h
        next =>
          refine hthen _ _ ?_ h
          intro outcome hout
          cases outcome with
          | ok chat => exact hpure hout rfl
          | error error => exact hpure hout rfl
        next => exact hpure h rfl
  next => exact hpure h rfl

theorem sendRequest_holds {client after : Client} {request : Message} {result : Int} {vector : MessageBuffer}
    (h : client.sendRequest request result = (.ok vector, after)) : request.encode <+: vector.bytes := by
  rcases client.sendRequest_cases request result with ⟨hfits, _, hsend⟩ | ⟨_, error, hsend⟩
  · have hbytes : (request.serialize client.messageBuffer).2.bytes = _ := serialize_bytes_of_fits hfits
    have hvector := (Prod.mk.inj (hsend.symm.trans h)).1
    rw [← Except.ok.inj hvector, hbytes]
    exact List.prefix_append _ _
  · have herror := (Prod.mk.inj (hsend.symm.trans h)).1
    cases herror

theorem deserializeAs_accepts {client : Client} (type : MessageType) [Inhabited type.Object] {m : type.Object}
    (h : type.encode m <+: client.messageBuffer.bytes) :
    client.deserializeAs type.deserialize = .ok (.ok m) := by
  obtain ⟨hr, hobj⟩ := deserialize_accepts default h
  simp [deserializeAs, hr, hobj, bind, Except.bind, pure, Except.pure]

theorem peek_typeId {m : Message} {buffer : MessageBuffer} (h : m.encode <+: buffer.bytes) :
    (ByteReader.new buffer).peek 1 = some [m.type.typeId] := by
  obtain ⟨tail, ht⟩ := h
  obtain ⟨rest, he⟩ := encode_eq_cons m.type m.object
  have hb : buffer.bytes = m.type.typeId :: (rest ++ tail) := by
    rw [← ht, Message.encode, he]
    rfl
  have h1 : (1 : UInt64).toNat = 1 := rfl
  rw [ByteReader.peek_eq, ByteReader.unread_new, hb, h1]
  rfl

theorem getResponse_success {client : Client} {buffer : MessageBuffer}
    (h : (Response.success ⟨⟩).message.encode <+: buffer.bytes) :
    client.getResponse (some buffer) = .ok ({ client with messageBuffer := buffer }, some (.ok (.success ⟨⟩))) := by
  have hpeek : (ByteReader.new buffer).peek 1 = some [Success.typeId] := peek_typeId h
  have hdecode : ({ client with messageBuffer := buffer } : Client).deserializeAs Success.deserialize =
      .ok (.ok ⟨⟩) := deserializeAs_accepts .success h
  unfold getResponse
  dsimp only
  rw [hpeek]
  dsimp only
  rw [if_pos rfl, hdecode]
  rfl

theorem getResponse_failure {client : Client} {buffer : MessageBuffer} {m : Failure}
    (h : (Response.failure m).message.encode <+: buffer.bytes) :
    client.getResponse (some buffer) = .ok ({ client with messageBuffer := buffer }, some (.ok (.failure m))) := by
  have hpeek : (ByteReader.new buffer).peek 1 = some [Failure.typeId] := peek_typeId h
  have hdecode : ({ client with messageBuffer := buffer } : Client).deserializeAs Failure.deserialize =
      .ok (.ok m) := deserializeAs_accepts .failure h
  have hne : ¬[Failure.typeId] = [Success.typeId] := by decide
  unfold getResponse
  dsimp only
  rw [hpeek]
  dsimp only
  rw [if_neg hne, if_pos rfl, hdecode]
  rfl

theorem getResponse_chat {client : Client} {buffer : MessageBuffer} {chat : ReceiveChat}
    (h : (Response.receiveChat chat).message.encode <+: buffer.bytes) :
    client.getResponse (some buffer) = .ok (⟨buffer, client.inbox ++ [chat]⟩, none) := by
  have hpeek : (ByteReader.new buffer).peek 1 = some [ReceiveChat.typeId] := peek_typeId h
  have hdecode : ({ client with messageBuffer := buffer } : Client).deserializeAs ReceiveChat.deserialize =
      .ok (.ok chat) := deserializeAs_accepts .receiveChat h
  have hne : ¬[ReceiveChat.typeId] = [Success.typeId] := by decide
  have hne' : ¬[ReceiveChat.typeId] = [Failure.typeId] := by decide
  unfold getResponse
  dsimp only
  rw [hpeek]
  dsimp only
  rw [if_neg hne, if_neg hne', if_pos rfl, hdecode]
  rfl

end Client

end SecureMessaging
