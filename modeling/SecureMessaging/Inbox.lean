import SecureMessaging.Client
import SecureMessaging.HostileBytes

namespace SecureMessaging

/-- What `GetResponse` reads its buffer as. -/
def Response.types : List MessageType := [.success, .failure, .receiveChat]

/-- What successive calls of `Receive` give, `none` being a disconnection. -/
abbrev Stream := List (Option MessageBuffer)

namespace Client

/-- `GetResponse` with all its calls of itself: the outcome, the client it leaves and the rest of the
stream. Without an outcome it is still waiting for `Receive`. -/
def awaitResponse (client : Client) : Stream → Fallible (Option (Except RequestError Response) × Client × Stream)
  | [] => pure (none, client, [])
  | received :: stream => do
    match ← client.getResponse received with
    | (client, some outcome) => pure (some outcome, client, stream)
    | (client, none) => client.awaitResponse stream

variable {client : Client} {buffer : MessageBuffer}

theorem deserializeAs_refuses (type : MessageType) [Inhabited type.Object]
    (hbuffer : ∃ accepted, (type.deserialize default client.messageBuffer).result = .ok accepted)
    (hno : ∀ m, ¬type.encode m <+: client.messageBuffer.bytes) :
    client.deserializeAs type.deserialize = .ok (.error .deserialization) := by
  obtain ⟨accepted, hok⟩ := hbuffer
  cases accepted with
  | true => exact absurd (deserialize_iff.mp ⟨hok, rfl⟩) (hno _)
  | false => simp [deserializeAs, hok, bind, Except.bind, pure, Except.pure]

theorem peek_id (buffer : MessageBuffer) :
    ∃ id rest, buffer.bytes = id :: rest ∧ (ByteReader.new buffer).peek 1 = some [id] := by
  obtain ⟨id, rest, hb, _⟩ := Server.messageBuffer_read buffer
  have h1 : (1 : UInt64).toNat = 1 := rfl
  refine ⟨id, rest, hb, ?_⟩
  rw [ByteReader.peek_eq, ByteReader.unread_new, hb, h1]
  rfl

/-- A buffer that holds no response ends the waiting, and changes nothing but the message buffer. -/
theorem getResponse_malformed (hbuffer : Resizable Response.types buffer)
    (hno : ∀ response : Response, ¬response.message.encode <+: buffer.bytes) :
    client.getResponse (some buffer) =
      .ok ({ client with messageBuffer := buffer }, some (.error .deserialization)) := by
  obtain ⟨id, rest, _, hpeek⟩ := peek_id buffer
  have hsuccess : ({ client with messageBuffer := buffer } : Client).deserializeAs Success.deserialize =
      .ok (.error .deserialization) :=
    deserializeAs_refuses .success (hbuffer .success (by decide) default) fun m => hno (.success m)
  have hfailure : ({ client with messageBuffer := buffer } : Client).deserializeAs Failure.deserialize =
      .ok (.error .deserialization) :=
    deserializeAs_refuses .failure (hbuffer .failure (by decide) default) fun m => hno (.failure m)
  have hchat : ({ client with messageBuffer := buffer } : Client).deserializeAs ReceiveChat.deserialize =
      .ok (.error .deserialization) :=
    deserializeAs_refuses .receiveChat (hbuffer .receiveChat (by decide) default) fun m => hno (.receiveChat m)
  unfold getResponse
  dsimp only
  rw [hpeek]
  dsimp only
  split
  · rw [hsuccess]
    rfl
  · split
    · rw [hfailure]
      rfl
    · split
      · rw [hchat]
        rfl
      · rfl

end Client

/-- The chat a buffer is a well-formed encoding of, read as `GetResponse` reads it. -/
def chatIn (received : Option MessageBuffer) : Option ReceiveChat :=
  received.bind fun buffer =>
    let decoded := ReceiveChat.deserialize default buffer
    match decoded.result with
    | .ok true => some decoded.object
    | _ => none

theorem chatIn_iff {buffer : MessageBuffer} {chat : ReceiveChat} :
    chatIn (some buffer) = some chat ↔ MessageType.receiveChat.encode chat <+: buffer.bytes := by
  have hdecode : (MessageType.receiveChat.deserialize default buffer).result = .ok true ∧
      (MessageType.receiveChat.deserialize default buffer).object = chat ↔ _ := deserialize_iff
  rw [← hdecode]
  constructor
  · intro h
    unfold chatIn at h
    dsimp only [Option.bind_some] at h
    split at h
    next hr => exact ⟨hr, Option.some.inj h⟩
    next => cases h
  · intro h
    obtain ⟨hr, hobj⟩ := h
    have hr' : (ReceiveChat.deserialize default buffer).result = .ok true := hr
    have hobj' : (ReceiveChat.deserialize default buffer).object = chat := hobj
    simp [chatIn, hr', hobj']

/-- What the buffer that ends the waiting means for the caller. -/
inductive Concludes : Option MessageBuffer → Except RequestError Response → Prop
  | disconnected : Concludes none (.error .disconnected)
  | answered {buffer response} (holds : response.message.encode <+: buffer.bytes)
      (nochat : chatIn (some buffer) = none) : Concludes (some buffer) (.ok response)
  | malformed {buffer} (nothing : ∀ response : Response, ¬response.message.encode <+: buffer.bytes) :
      Concludes (some buffer) (.error .deserialization)

namespace Client

variable {client : Client}

/-- A call of `GetResponse` files the chat it got and calls itself, or it ends with the outcome. -/
theorem getResponse_cases (client : Client) {received : Option MessageBuffer}
    (hreceived : ∀ buffer, received = some buffer → Resizable Response.types buffer) :
    (∃ chat after, chatIn received = some chat ∧ after.inbox = client.inbox ++ [chat] ∧
      client.getResponse received = .ok (after, none)) ∨
    ∃ outcome after, chatIn received = none ∧ Concludes received outcome ∧ after.inbox = client.inbox ∧
      client.getResponse received = .ok (after, some outcome) := by
  cases received with
  | none => exact Or.inr ⟨_, _, rfl, .disconnected, rfl, rfl⟩
  | some buffer =>
    cases hchat : chatIn (some buffer) with
    | some chat =>
      have hholds := chatIn_iff.mp hchat
      exact Or.inl ⟨chat, _, rfl, rfl, getResponse_chat hholds⟩
    | none =>
      by_cases hholds : ∃ response : Response, response.message.encode <+: buffer.bytes
      · obtain ⟨response, hresponse⟩ := hholds
        refine Or.inr ⟨.ok response, { client with messageBuffer := buffer }, rfl, .answered hresponse hchat, rfl, ?_⟩
        cases response with
        | success m => exact getResponse_success hresponse
        | failure m => exact getResponse_failure hresponse
        | receiveChat m =>
          rw [chatIn_iff.mpr hresponse] at hchat
          cases hchat
      · have hno : ∀ response : Response, ¬response.message.encode <+: buffer.bytes := by
          intro response hresponse
          exact hholds ⟨response, hresponse⟩
        exact Or.inr ⟨_, { client with messageBuffer := buffer }, rfl, .malformed hno, rfl,
          getResponse_malformed (hreceived buffer rfl) hno⟩

/-- What a call of `GetResponse` takes off the stream: the chats in front and the one that is no
chat behind them, or all of it if there are only chats so far. -/
inductive Takes (stream : Stream) : Option (Except RequestError Response) → List ReceiveChat → Stream → Prop
  | ended {front last rest outcome} (split : stream = front ++ last :: rest)
      (chats : ∀ received ∈ front, ∃ chat, chatIn received = some chat) (nochat : chatIn last = none)
      (concludes : Concludes last outcome) : Takes stream (some outcome) (front.filterMap chatIn) rest
  | waits (chats : ∀ received ∈ stream, ∃ chat, chatIn received = some chat) :
      Takes stream none (stream.filterMap chatIn) []

theorem Takes.cons {stream rest : Stream} {received : Option MessageBuffer} {chat : ReceiveChat}
    {outcome : Option (Except RequestError Response)} {filed : List ReceiveChat}
    (hchat : chatIn received = some chat) (h : Takes stream outcome filed rest) :
    Takes (received :: stream) outcome (chat :: filed) rest := by
  have hmem : ∀ front : Stream, (∀ r ∈ front, ∃ c, chatIn r = some c) →
      ∀ r ∈ received :: front, ∃ c, chatIn r = some c := by
    intro front hfront r hr
    rcases List.mem_cons.mp hr with hhead | htail
    · exact ⟨chat, by rw [hhead, hchat]⟩
    · exact hfront r htail
  have hfiled : ∀ front : Stream, (received :: front).filterMap chatIn = chat :: front.filterMap chatIn :=
    fun front => List.filterMap_cons_some hchat
  cases h with
  | @ended front last rest outcome split chats nochat concludes =>
    rw [← hfiled]
    exact .ended (by rw [split]; rfl) (hmem front chats) nochat concludes
  | waits chats =>
    rw [← hfiled]
    exact .waits (hmem stream chats)

theorem Takes.consumed {stream rest : Stream} {outcome : Option (Except RequestError Response)}
    {filed : List ReceiveChat} (h : Takes stream outcome filed rest) :
    ∃ consumed, stream = consumed ++ rest ∧ consumed.filterMap chatIn = filed := by
  cases h with
  | @ended front last rest outcome split chats nochat concludes =>
    refine ⟨front ++ [last], by simp [split], ?_⟩
    rw [List.filterMap_append, List.filterMap_cons_none nochat, List.filterMap_nil, List.append_nil]
  | waits chats => exact ⟨stream, (List.append_nil stream).symm, rfl⟩

/-- By induction on the stream: each chat in front is filed by one call that calls itself again. -/
theorem awaitResponse_takes (client : Client) {stream : Stream}
    (hstream : ∀ buffer, some buffer ∈ stream → Resizable Response.types buffer) :
    ∃ outcome after rest filed, client.awaitResponse stream = .ok (outcome, after, rest) ∧
      Takes stream outcome filed rest ∧ after.inbox = client.inbox ++ filed := by
  induction stream generalizing client with
  | nil => exact ⟨none, client, [], [], rfl, .waits (by simp), by simp⟩
  | cons received stream ih =>
    have hreceived : ∀ buffer, received = some buffer → Resizable Response.types buffer := by
      intro buffer hbuffer
      exact hstream buffer (by rw [hbuffer]; exact List.mem_cons_self)
    rcases client.getResponse_cases hreceived with
      ⟨chat, after, hchat, hinbox, hcall⟩ | ⟨outcome, after, hnochat, hconcludes, hinbox, hcall⟩
    · obtain ⟨outcome, last, rest, filed, hrest, htakes, hlast⟩ :=
        ih after fun buffer hbuffer => hstream buffer (List.mem_cons_of_mem _ hbuffer)
      refine ⟨outcome, last, rest, chat :: filed, ?_, htakes.cons hchat, ?_⟩
      · simp only [awaitResponse, hcall, bind, Except.bind]
        exact hrest
      · rw [hlast, hinbox, List.append_assoc]
        rfl
    · have htakes : Takes (received :: stream) (some outcome) (([] : Stream).filterMap chatIn) stream :=
        .ended rfl (fun _ hnil => absurd hnil List.not_mem_nil) hnochat hconcludes
      refine ⟨some outcome, after, stream, [], ?_, htakes, by rw [hinbox, List.append_nil]⟩
      simp only [awaitResponse, hcall, bind, Except.bind]
      rfl

end Client

/-- A client with the stream its channel delivers; `waiting` if its last call has not returned. -/
structure Conversation where
  client : Client
  stream : Stream
  waiting : Bool

/-- `result` is what `Send` returns if it is called. -/
inductive Call
  | getUnread
  | sendRequest (request : Message) (result : Int)

inductive Reply
  | unread (chats : List ReceiveChat)
  | returned (outcome : Except RequestError Response)
  | waiting

namespace Conversation

def converse (conversation : Conversation) : Call → Fallible (Reply × Conversation)
  | .getUnread =>
    let (chats, client) := conversation.client.getUnread
    pure (.unread chats, { conversation with client := client })
  | .sendRequest request result =>
    match conversation.client.sendRequest request result with
    | (.error error, client) => pure (.returned (.error error), { conversation with client := client })
    | (.ok _, client) => do
      match ← client.awaitResponse conversation.stream with
      | (some outcome, client, stream) => pure (.returned outcome, ⟨client, stream, false⟩)
      | (none, client, stream) => pure (.waiting, ⟨client, stream, true⟩)

/-- Nothing is called before the last call has returned, and an exception ends the run. -/
def Step (conversation : Conversation) (call : Call) (reply : Reply) (next : Conversation) : Prop :=
  conversation.waiting = false ∧ conversation.converse call = .ok (reply, next)

/-- The chats a call gave to its caller. -/
def handedOut : Call × Reply → List ReceiveChat
  | (_, .unread chats) => chats
  | _ => []

/-- The reply to a SendRequest call whose message was sent. -/
def replyOf : Option (Except RequestError Response) → Reply
  | some outcome => .returned outcome
  | none => .waiting

variable {conversation next : Conversation} {request : Message} {result : Int} {reply : Reply}

/-- A message that cannot be sent consumes nothing; one that is sent takes the stream up to its answer. -/
theorem sendRequest_cases (conversation : Conversation) (request : Message) (result : Int)
    (hstream : ∀ buffer, some buffer ∈ conversation.stream → Resizable Response.types buffer) :
    (∃ outcome filed after rest,
      (request.encode.length ≤ messageBufferSize.toNat ∧ result ≠ 0) ∧
      conversation.converse (.sendRequest request result) =
        .ok (replyOf outcome, ⟨after, rest, outcome.isNone⟩) ∧
      Client.Takes conversation.stream outcome filed rest ∧ after.inbox = conversation.client.inbox ++ filed) ∨
    ∃ error after, ¬(request.encode.length ≤ messageBufferSize.toNat ∧ result ≠ 0) ∧
      conversation.converse (.sendRequest request result) =
        .ok (.returned (.error error), { conversation with client := after }) ∧
      after.inbox = conversation.client.inbox := by
  obtain ⟨written, hwritten⟩ : ∃ written : Client, written =
      { conversation.client with messageBuffer := (request.serialize conversation.client.messageBuffer).2 } := ⟨_, rfl⟩
  have hsame : written.inbox = conversation.client.inbox := by rw [hwritten]
  rcases conversation.client.sendRequest_cases request result with ⟨hfits, hresult, hsend⟩ | ⟨hno, error, hsend⟩
  · obtain ⟨outcome, after, rest, filed, hawait, htakes, hinbox⟩ := written.awaitResponse_takes hstream
    rw [← hwritten] at hsend
    rw [hsame] at hinbox
    refine Or.inl ⟨outcome, filed, after, rest, ⟨hfits, hresult⟩, ?_, htakes, hinbox⟩
    simp only [converse, hsend, hawait, bind, Except.bind]
    cases outcome <;> rfl
  · rw [← hwritten] at hsend
    refine Or.inr ⟨error, written, hno, ?_, hsame⟩
    simp only [converse, hsend]
    rfl

/-- The chats handed out so far and then the inbox are the chats in what was taken off the stream. -/
def Kept (client : Client) (stream : Stream) (trace : List (Call × Reply)) (now : Conversation) : Prop :=
  ∃ consumed, stream = consumed ++ now.stream ∧
    trace.flatMap handedOut ++ now.client.inbox = client.inbox ++ consumed.filterMap chatIn

theorem kept_step {client : Client} {stream : Stream} {trace : List (Call × Reply)} {call : Call}
    (hstream : ∀ buffer, some buffer ∈ stream → Resizable Response.types buffer)
    (kept : Kept client stream trace conversation) (h : Step conversation call reply next) :
    Kept client stream (trace ++ [(call, reply)]) next := by
  obtain ⟨consumed, hsplit, hchats⟩ := kept
  have hleft : ∀ buffer, some buffer ∈ conversation.stream → Resizable Response.types buffer := by
    intro buffer hbuffer
    exact hstream buffer (by rw [hsplit]; exact List.mem_append_right _ hbuffer)
  obtain ⟨_, hcall⟩ := h
  unfold Kept
  rw [List.flatMap_append, List.flatMap_singleton]
  cases call with
  | getUnread =>
    obtain ⟨rfl, rfl⟩ := Prod.mk.inj (Except.ok.inj hcall)
    refine ⟨consumed, hsplit, ?_⟩
    rw [← hchats]
    exact List.append_nil _
  | sendRequest request result =>
    rcases conversation.sendRequest_cases request result hleft with
      ⟨outcome, filed, after, rest, _, hok, htakes, hinbox⟩ | ⟨error, after, _, hok, hinbox⟩
    · obtain ⟨rfl, rfl⟩ := Prod.mk.inj (Except.ok.inj (hok.symm.trans hcall))
      obtain ⟨taken, htaken, hfiled⟩ := htakes.consumed
      have hnone : handedOut (.sendRequest request result, replyOf outcome) = [] := by
        cases outcome <;> rfl
      refine ⟨consumed ++ taken, by rw [hsplit, htaken, List.append_assoc], ?_⟩
      rw [hnone, hinbox, List.append_nil, List.filterMap_append, hfiled, ← List.append_assoc, hchats,
        List.append_assoc]
    · obtain ⟨rfl, rfl⟩ := Prod.mk.inj (Except.ok.inj (hok.symm.trans hcall))
      refine ⟨consumed, hsplit, ?_⟩
      rw [hinbox]
      exact (congrArg (· ++ conversation.client.inbox) (List.append_nil _)).trans hchats

theorem step_of_call (hwaiting : conversation.waiting = false)
    (hstream : ∀ buffer, some buffer ∈ conversation.stream → Resizable Response.types buffer) (call : Call) :
    ∃ reply next, Step conversation call reply next := by
  cases call with
  | getUnread => exact ⟨_, _, hwaiting, rfl⟩
  | sendRequest request result =>
    rcases conversation.sendRequest_cases request result hstream with
      ⟨_, _, _, _, _, hok, _⟩ | ⟨_, _, _, hok, _⟩
    · exact ⟨_, _, hwaiting, hok⟩
    · exact ⟨_, _, hwaiting, hok⟩

/-- Whatever calls a client makes on whatever stream, no chat is lost, doubled or out of order, and each
SendRequest whose message was sent takes the stream up to the first buffer that is no chat. -/
theorem chats_kept {client : Client} {stream : Stream} {trace : List (Call × Reply)}
    (hstream : ∀ buffer, some buffer ∈ stream → Resizable Response.types buffer)
    (run : Run Step ⟨client, stream, false⟩ trace conversation) :
    Kept client stream trace conversation ∧
    (conversation.waiting = false → ∀ call, ∃ reply next, Step conversation call reply next) ∧
    ∀ request result reply next, Step conversation (.sendRequest request result) reply next →
      (request.encode.length ≤ messageBufferSize.toNat ∧ result ≠ 0 →
        ∃ outcome filed, Client.Takes conversation.stream outcome filed next.stream ∧ reply = replyOf outcome ∧
          next.client.inbox = conversation.client.inbox ++ filed) ∧
      (¬(request.encode.length ≤ messageBufferSize.toNat ∧ result ≠ 0) →
        ∃ error, reply = .returned (.error error) ∧ next.stream = conversation.stream ∧
          next.client.inbox = conversation.client.inbox) := by
  have kept : Kept client stream trace conversation := by
    refine run.history (P := Kept client stream) ⟨[], rfl, (List.append_nil _).symm⟩ ?_
    intro trace s call reply s' _ kept h
    exact kept_step hstream kept h
  obtain ⟨consumed, hsplit, _⟩ := id kept
  have hleft : ∀ buffer, some buffer ∈ conversation.stream → Resizable Response.types buffer := by
    intro buffer hbuffer
    exact hstream buffer (by rw [hsplit]; exact List.mem_append_right _ hbuffer)
  refine ⟨kept, fun hwaiting call => step_of_call hwaiting hleft call, ?_⟩
  intro request result reply next h
  obtain ⟨_, hcall⟩ := h
  rcases conversation.sendRequest_cases request result hleft with
    ⟨outcome, filed, after, rest, hsent, hok, htakes, hinbox⟩ | ⟨error, after, hno, hok, hinbox⟩
  · obtain ⟨rfl, rfl⟩ := Prod.mk.inj (Except.ok.inj (hok.symm.trans hcall))
    refine ⟨fun _ => ⟨outcome, filed, htakes, rfl, hinbox⟩, ?_⟩
    intro hno
    exact absurd hsent hno
  · obtain ⟨rfl, rfl⟩ := Prod.mk.inj (Except.ok.inj (hok.symm.trans hcall))
    refine ⟨?_, fun _ => ⟨error, rfl, rfl, hinbox⟩⟩
    intro hsent
    exact absurd hsent hno

def bufferOf (response : Response) : MessageBuffer :=
  (response.message.serialize (ByteVector.zero messageBufferSize)).2

theorem bufferOf_holds {response : Response} (h : response.message.encode.length ≤ messageBufferSize.toNat) :
    response.message.encode <+: (bufferOf response).bytes := by
  have hbytes : (bufferOf response).bytes = _ := serialize_bytes_of_fits h
  rw [hbytes]
  exact List.prefix_append _ _

/-- A chat comes in between the request and its answer. -/
def interrupted : Stream :=
  [some (bufferOf (.receiveChat ⟨Server.alice.username, Server.hello.content⟩)), some (bufferOf (.success ⟨⟩))]

theorem chats_kept_interrupted : ∃ reply now,
    Run Step ⟨Client.init, interrupted, false⟩ [(.sendRequest (Request.ping ⟨⟩).message 1, reply)] now ∧
      Kept Client.init interrupted [(.sendRequest (Request.ping ⟨⟩).message 1, reply)] now := by
  have hchat : (Response.receiveChat ⟨Server.alice.username, Server.hello.content⟩).message.encode <+: _ :=
    bufferOf_holds (by decide +kernel)
  have hsuccess : (Response.success ⟨⟩).message.encode <+: _ := bufferOf_holds (by decide +kernel)
  have hstream : ∀ buffer, some buffer ∈ interrupted → Resizable Response.types buffer := by
    intro buffer hbuffer
    rcases List.mem_cons.mp hbuffer with hfirst | hsecond
    · rw [Option.some.inj hfirst]
      exact resizable_of_encoded hchat
    · rw [Option.some.inj (List.mem_singleton.mp hsecond)]
      exact resizable_of_encoded hsuccess
  obtain ⟨reply, now, hstep⟩ := (chats_kept hstream (.init)).2.1 rfl (.sendRequest (Request.ping ⟨⟩).message 1)
  have run : Run Step ⟨Client.init, interrupted, false⟩ [(.sendRequest (Request.ping ⟨⟩).message 1, reply)] now :=
    .next .init hstep
  exact ⟨reply, now, run, (chats_kept hstream run).1⟩

end Conversation

/-- The chat that the client who receives a vector reads it as. -/
def chatHeld (vector : MessageBuffer) : Option ReceiveChat := chatIn (some vector)

theorem chatHeld_answer {response : Response} {vector : MessageBuffer}
    (hanswer : response = .success ⟨⟩ ∨ ∃ text, response = Server.failure text)
    (holds : response.message.encode <+: vector.bytes) : chatHeld vector = none := by
  cases hchat : chatHeld vector with
  | none => rfl
  | some chat =>
    have hprefix : (Response.receiveChat chat).message.encode <+: vector.bytes := chatIn_iff.mp hchat
    have hsame := Message.encode_prefix_inj holds hprefix
    rcases hanswer with hsuccess | ⟨text, hfailure⟩
    · rw [hsuccess] at hsame
      cases hsame
    · rw [hfailure] at hsame
      cases hsame

end SecureMessaging
