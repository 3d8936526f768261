import SecureMessaging.ClientSession
import SecureMessaging.Lib.Simulation
import SecureMessaging.Pairing
import SecureMessaging.SenderHistory
import SecureMessaging.SessionInvariants

namespace SecureMessaging

/-- The chat that a message brings. -/
def Message.chat : Message → Option ReceiveChat
  | ⟨.receiveChat, chat⟩ => some chat
  | _ => none

/-- `SendRequest` leaves the inbox alone. -/
theorem Client.sendRequest_inbox {client after : Client} {request : Message} {result : Int}
    {outcome : Except RequestError MessageBuffer} (h : client.sendRequest request result = (outcome, after)) :
    after.inbox = client.inbox := by
  rcases client.sendRequest_cases request result with ⟨_, _, hsend⟩ | ⟨_, error, hsend⟩
  · have hafter := (Prod.mk.inj (hsend.symm.trans h)).2
    rw [← hafter]
  · have hafter := (Prod.mk.inj (hsend.symm.trans h)).2
    rw [← hafter]

namespace Server

variable {χ : Type} {sha256 : List UInt8 → Digest} {server next : Server χ}

/-- What a forwarded vector is read as by the client that receives it. -/
theorem chat_of_forwarded {event : Event χ} {out : Output χ} {delivery : Delivery χ}
    (h : Step sha256 server event out next) (hforward : out.forwarded = some delivery) :
    ∃ chat, delivery.message = ⟨.receiveChat, chat⟩ ∧
      ∀ vector, delivery.vector = some vector → chatHeld vector = some chat := by
  obtain ⟨_, _, _, _, m, sender, _, _, _, _, _, _, _, _, hdelivery⟩ :=
    forwarded_of_effect (effect_of_step h) hforward
  refine ⟨⟨sender.username, m.content⟩, by rw [hdelivery, sendResponse_delivery], ?_⟩
  intro vector hvector
  rw [hdelivery] at hvector
  exact chatIn_iff.mpr (vector_of_sendResponse hvector)

/-- Only a request is answered. -/
theorem silent_of_effect {event : Event χ} {out : Output χ} (h : Effect sha256 server event out next)
    (hevent : ∀ fd buffer chatResult responseResult, event ≠ .ready fd (some buffer) chatResult responseResult) :
    out = Output.silent := by
  cases h with
  | rejected => rfl
  | connected => rfl
  | ignored => rfl
  | destroyed => rfl
  | leaked => rfl
  | answered => exact absurd rfl (hevent _ _ _ _)

/-- An authenticated session was there before, or its login was handled just now. -/
theorem authenticated_of_effect {event : Event χ} {out : Output χ} {fd : Int} {session : Session χ}
    (h : Effect sha256 server event out next) (hs : next.sessions.sessions fd = some session)
    (hauth : session.authenticated = true) :
    server.sessions.sessions fd = some session ∨
    ∃ old buffer chatResult responseResult p, event = .ready fd (some buffer) chatResult responseResult ∧
      server.sessions.sessions fd = some old ∧ session.channel = old.channel ∧
      requestIn buffer = some (.login ⟨session.username, p⟩) ∧
      server.accounts.accounts session.username = some (AccountRegistry.hashPassword sha256 p) := by
  have hchange := sessions_of_effect h
  generalize next.sessions = sessions at hs hchange
  cases hchange with
  | kept => exact Or.inl hs
  | @created k channel =>
    rcases Table.emplace_eq_some hs with hold | hnew
    · exact Or.inl hold
    · rw [hnew] at hauth
      cases hauth
  | destroyed => exact Or.inl (Table.erase_eq_some.mp hs).2
  | @authenticated k old buffer chatResult responseResult m forwarded replied request stored present =>
    by_cases hfd : fd = k
    · subst hfd
      have hnew := (Table.assign_self _ _ _).symm.trans hs
      cases hnew
      exact Or.inr ⟨old, buffer, chatResult, responseResult, m.password, rfl, present, rfl, request, stored⟩
    · exact Or.inl ((Table.assign_ne hfd).symm.trans hs)

end Server

/-- The chats that are on their way to the user. -/
def Peer.pending (peer : Peer) : List ReceiveChat :=
  peer.client.inbox ++ peer.toClient.filterMap chatHeld

namespace Network

variable {ι : Type} [DecidableEq ι] {sha256 : List UInt8 → Digest} {net next : Network ι}
  {trace : List (Action ι × Observation ι)}

/-- The vectors `client` put on its channel. -/
def requested (client : ι) : Action ι × Observation ι → List MessageBuffer
  | (.sendRequest k _ result, .sent (.ok vector)) => if k = client ∧ result > 0 then [vector] else []
  | _ => []

/-- The vectors of `client` that the server took off its channel. -/
def handled (client : ι) : Action ι × Observation ι → List MessageBuffer
  | (_, .served k vector _) => if k = client then [vector] else []
  | _ => []

/-- The chat that a call of `SendResponse` puts on the channel of `client`. -/
def chatFor (client : ι) : Option (Delivery ι) → List ReceiveChat
  | some ⟨channel, message, some _, result⟩ => if result > 0 ∧ channel = client then message.chat.toList else []
  | _ => []

/-- The chats the server put on the channel of `client`. -/
def passedOn (client : ι) : Action ι × Observation ι → List ReceiveChat
  | (_, .served _ _ out) => chatFor client out.forwarded
  | _ => []

/-- The chats that the user of `client` was given. -/
def read (client : ι) : Action ι × Observation ι → List ReceiveChat
  | (.getUnread k, .unread chats) => if k = client then chats else []
  | _ => []

theorem toServer_deliver (peers : ι → Peer) (delivery : Option (Delivery ι)) (client : ι) :
    (deliver peers delivery client).toServer = (peers client).toServer := by
  rw [deliver_apply]

theorem pending_deliver (peers : ι → Peer) (delivery : Option (Delivery ι)) (client : ι) :
    (deliver peers delivery client).pending = (peers client).pending ++
      (arrivals delivery client).filterMap chatHeld := by
  rw [deliver_apply]
  unfold Peer.pending
  rw [List.filterMap_append, List.append_assoc]

theorem takeRequest_pending (peers : ι → Peer) (k : ι) (rest : List MessageBuffer) (client : ι) :
    (takeRequest peers k rest client).pending = (peers client).pending := by
  unfold takeRequest
  by_cases hclient : client = k
  · subst hclient
    rw [Function.update_self]
    rfl
  · rw [Function.update_of_ne hclient]

/-- What a client does without changing a queue of its own. -/
theorem queue_kept {α : Type} {Q : Peer → List α} {peers : ι → Peer} {k : ι} {peer : Peer}
    (h : Q peer = Q (peers k)) (client : ι) :
    Q (peers client) ++ [] = [] ++ Q (Function.update peers k peer client) := by
  rw [List.append_nil, List.nil_append]
  by_cases hclient : client = k
  · subst hclient
    rw [Function.update_self, h]
  · rw [Function.update_of_ne hclient]

theorem pending_inbox {peer : Peer} {client : Client} {waiting : Option Message} {toServer : List MessageBuffer}
    (h : client.inbox = peer.client.inbox) :
    (⟨client, waiting, toServer, peer.toClient⟩ : Peer).pending = peer.pending := by
  unfold Peer.pending
  rw [h]

theorem requests_step {action : Action ι} {seen : Observation ι} (client : ι)
    (h : Step sha256 net action seen next) :
    (net.peers client).toServer ++ requested client (action, seen) =
      handled client (action, seen) ++ (next.peers client).toServer := by
  cases move_of_step h with
  | accepted => exact List.append_nil _
  | closed => exact List.append_nil _
  | @served fd chatResult responseResult session buffer rest server out present queue step =>
    have hqueue : (deliver (deliver (takeRequest net.peers session.channel rest) out.forwarded) out.replied
        client).toServer = (takeRequest net.peers session.channel rest client).toServer := by
      rw [toServer_deliver, toServer_deliver]
    have hnone : requested client (.serve fd chatResult responseResult, .served session.channel buffer out) = [] := rfl
    rw [hqueue, hnone, List.append_nil]
    by_cases hclient : session.channel = client
    · subst hclient
      have htake : takeRequest net.peers session.channel rest session.channel =
          { net.peers session.channel with toServer := rest } := Function.update_self _ _ _
      have htaken : handled session.channel (.serve fd chatResult responseResult, .served session.channel buffer out) =
          [buffer] := if_pos rfl
      rw [htake, htaken, queue]
      rfl
    · have htake : takeRequest net.peers session.channel rest client = net.peers client :=
        Function.update_of_ne (Ne.symm hclient) _ _
      have htaken : handled client (.serve fd chatResult responseResult, .served session.channel buffer out) = [] :=
        if_neg hclient
      rw [htake, htaken]
      rfl
  | refused =>
    refine queue_kept (Q := Peer.toServer) ?_ client
    rfl
  | @sent k request result vector after idle outcome =>
    have hnone : handled client (.sendRequest k request result, .sent (.ok vector)) = [] := rfl
    rw [hnone, List.nil_append]
    unfold requested
    dsimp only
    by_cases hclient : k = client
    · subst hclient
      rw [Function.update_self]
      by_cases hresult : result > 0
      · rw [if_pos ⟨rfl, hresult⟩, if_pos hresult]
      · rw [if_neg fun hboth => hresult hboth.2, if_neg hresult, List.append_nil]
    · rw [Function.update_of_ne (Ne.symm hclient), if_neg fun hboth => hclient hboth.1, List.append_nil]
  | received =>
    refine queue_kept (Q := Peer.toServer) ?_ client
    rfl
  | disconnected =>
    refine queue_kept (Q := Peer.toServer) ?_ client
    rfl
  | unread =>
    refine queue_kept (Q := Peer.toServer) ?_ client
    rfl

theorem arrivals_chatFor {delivery : Option (Delivery ι)} (client : ι)
    (h : ∀ d, delivery = some d → ∃ chat, d.message = ⟨.receiveChat, chat⟩ ∧
      ∀ vector, d.vector = some vector → chatHeld vector = some chat) :
    (arrivals delivery client).filterMap chatHeld = chatFor client delivery := by
  unfold arrivals
  split
  next channel message vector result =>
    unfold chatFor
    obtain ⟨chat, hmessage, hread⟩ := h _ rfl
    have hvector : chatHeld vector = some chat := hread vector rfl
    dsimp only at hmessage ⊢
    by_cases hresult : result > 0 ∧ channel = client
    · rw [if_pos hresult, if_pos hresult, hmessage, List.filterMap_cons_some hvector]
      rfl
    · rw [if_neg hresult, if_neg hresult, List.filterMap_nil]
  next hno =>
    rw [List.filterMap_nil]
    unfold chatFor
    split
    next => exact absurd rfl (hno _ _ _ _)
    next => rfl

/-- The vectors that a handled request sends to a client bring the chat that is passed on, and no other. -/
theorem arrivals_served {fd chatResult responseResult : Int} {session : Session ι} {buffer : MessageBuffer}
    {out : Output ι} {server : Server ι} (client : ι) (present : net.server.sessions.sessions fd = some session)
    (step : Server.Step sha256 net.server (.ready fd (some buffer) chatResult responseResult) out server) :
    (arrivals out.forwarded client).filterMap chatHeld =
        passedOn client (.serve fd chatResult responseResult, .served session.channel buffer out) ∧
      (arrivals out.replied client).filterMap chatHeld = [] := by
  refine ⟨?_, ?_⟩
  · have hchat : ∀ delivery, out.forwarded = some delivery → ∃ chat, delivery.message = ⟨.receiveChat, chat⟩ ∧
        ∀ vector, delivery.vector = some vector → chatHeld vector = some chat := by
      intro delivery hforward
      exact Server.chat_of_forwarded step hforward
    exact arrivals_chatFor client hchat
  · obtain ⟨⟨response, vector, _, hanswer, hreply, hholds⟩, _⟩ := Server.served_of_step present step
    have hnone : chatHeld vector = none := chatHeld_answer hanswer hholds
    rw [hreply]
    unfold arrivals
    dsimp only
    split
    next => rw [List.filterMap_cons_none hnone, List.filterMap_nil]
    next => exact List.filterMap_nil

/-- A vector that is received is filed if it holds a chat. -/
theorem pending_received {peer : Peer} {buffer : MessageBuffer} {rest : List MessageBuffer} {after : Client}
    {result : Option (Except RequestError Response)} {waiting : Option Message}
    (queue : peer.toClient = buffer :: rest)
    (outcome : peer.client.getResponse (some buffer) = .ok (after, result)) :
    (⟨after, waiting, peer.toServer, rest⟩ : Peer).pending = peer.pending := by
  have hbuffer : Resizable Response.types buffer := Client.resizable_of_getResponse outcome
  have hreceived : ∀ other, some buffer = some other → Resizable Response.types other := by
    intro other hother
    rw [← Option.some.inj hother]
    exact hbuffer
  unfold Peer.pending
  rw [queue]
  rcases peer.client.getResponse_cases hreceived with
    ⟨chat, client, hchat, hinbox, hcall⟩ | ⟨response, client, hchat, _, hinbox, hcall⟩
  · obtain ⟨rfl, _⟩ := Prod.mk.inj (Except.ok.inj (hcall.symm.trans outcome))
    have hheld : chatHeld buffer = some chat := hchat
    rw [List.filterMap_cons_some hheld, hinbox, List.append_assoc]
    rfl
  · obtain ⟨rfl, _⟩ := Prod.mk.inj (Except.ok.inj (hcall.symm.trans outcome))
    have hheld : chatHeld buffer = none := hchat
    rw [List.filterMap_cons_none hheld, hinbox]

theorem chats_step {action : Action ι} {seen : Observation ι} (client : ι) (h : Step sha256 net action seen next) :
    (net.peers client).pending ++ passedOn client (action, seen) =
      read client (action, seen) ++ (next.peers client).pending := by
  cases move_of_step h with
  | accepted => exact List.append_nil _
  | closed => exact List.append_nil _
  | @served fd chatResult responseResult session buffer rest server out present queue step =>
    obtain ⟨hchats, hanswer⟩ := arrivals_served client present step
    have hnone : read client (.serve fd chatResult responseResult, .served session.channel buffer out) = [] := rfl
    rw [hnone, List.nil_append]
    dsimp only
    rw [pending_deliver, pending_deliver, takeRequest_pending, hchats, hanswer, List.append_nil]
  | refused _ outcome =>
    refine queue_kept (Q := Peer.pending) ?_ client
    exact pending_inbox (Client.sendRequest_inbox outcome)
  | sent _ outcome =>
    refine queue_kept (Q := Peer.pending) ?_ client
    exact pending_inbox (Client.sendRequest_inbox outcome)
  | received waits queue outcome =>
    refine queue_kept (Q := Peer.pending) ?_ client
    exact pending_received queue outcome
  | disconnected =>
    refine queue_kept (Q := Peer.pending) ?_ client
    rfl
  | @unread k idle =>
    have hnone : passedOn client (.getUnread k, .unread (net.peers k).client.inbox) = [] := rfl
    rw [hnone, List.append_nil]
    unfold read
    dsimp only
    by_cases hclient : k = client
    · subst hclient
      rw [if_pos rfl, Function.update_self]
      rfl
    · rw [if_neg hclient, Function.update_of_ne (Ne.symm hclient), List.nil_append]

theorem requests_conserved (run : Run (Step sha256) init trace net) (client : ι) :
    trace.flatMap (requested client) = trace.flatMap (handled client) ++ (net.peers client).toServer :=
  run.conserved (Q := fun n => (n.peers client).toServer) rfl fun hstep => requests_step client hstep

theorem chats_conserved (run : Run (Step sha256) init trace net) (client : ι) :
    trace.flatMap (passedOn client) = trace.flatMap (read client) ++ (net.peers client).pending :=
  run.conserved (Q := fun n => (n.peers client).pending) rfl fun hstep => chats_step client hstep

/-- The turn of the event loop that a step is to the server. -/
def turn : Action ι × Observation ι → Option (Event ι × Output ι)
  | (.accept fd agreed, .accepted) => some (.accept fd agreed, Output.silent)
  | (.close fd, .closed) => some (.ready fd none 0 0, Output.silent)
  | (.serve fd chatResult responseResult, .served _ buffer out) =>
    some (.ready fd (some buffer) chatResult responseResult, out)
  | _ => none

theorem turn_step {action : Action ι} {seen : Observation ι} (h : Step sha256 net action seen next) :
    StepOrStay (Server.Step sha256) net.server (turn (action, seen)) next.server := by
  cases move_of_step h with
  | @accepted fd agreed server out step =>
    have hsilent : out = Output.silent := by
      refine Server.silent_of_effect (Server.effect_of_step step) ?_
      intro k buffer chatResult responseResult hevent
      cases hevent
    rw [hsilent] at step
    exact step
  | @closed fd server out step =>
    have hsilent : out = Output.silent := by
      refine Server.silent_of_effect (Server.effect_of_step step) ?_
      intro k buffer chatResult responseResult hevent
      cases hevent
    rw [hsilent] at step
    exact step
  | served _ _ step => exact step
  | refused => rfl
  | sent => rfl
  | received => rfl
  | disconnected => rfl
  | unread => rfl

/-- The server is not about to accept a login on a connection that is logged in already. -/
def freshLogin (sha256 : List UInt8 → Digest) (net : Network ι) : Action ι → Bool
  | .serve fd chatResult responseResult =>
    match net.server.sessions.sessions fd with
    | some session =>
      match (net.peers session.channel).toServer with
      | buffer :: _ => Server.freshLogin sha256 net.server (.ready fd (some buffer) chatResult responseResult)
      | [] => true
    | none => true
  | _ => true

/-- `act`, unless it is such a login. -/
def actFresh (sha256 : List UInt8 → Digest) (net : Network ι) (action : Action ι) :
    Option (Observation ι × Network ι) :=
  if net.freshLogin sha256 action then net.act sha256 action else none

theorem step_of_actFresh {action : Action ι} {seen : Observation ι}
    (h : actFresh sha256 net action = some (seen, next)) :
    Guarded (fun n action => n.freshLogin sha256 action = true) (Step sha256) net action seen next := by
  unfold actFresh at h
  split at h
  next hfresh => exact ⟨hfresh, h⟩
  next => cases h

theorem fresh_turn {action : Action ι} {seen : Observation ι} (hfresh : net.freshLogin sha256 action = true)
    (h : Step sha256 net action seen next) :
    StepOrStay (Guarded (fun s e => Server.freshLogin sha256 s e = true) (Server.Step sha256)) net.server
      (turn (action, seen)) next.server := by
  have hturn := turn_step h
  cases move_of_step h with
  | accepted => exact ⟨rfl, hturn⟩
  | closed => exact ⟨rfl, hturn⟩
  | @served fd chatResult responseResult session buffer rest server out present queue step =>
    have hserver : Server.freshLogin sha256 net.server (.ready fd (some buffer) chatResult responseResult) = true := by
      simpa only [freshLogin, present, queue] using hfresh
    exact ⟨hserver, hturn⟩
  | refused => rfl
  | sent => rfl
  | received => rfl
  | disconnected => rfl
  | unread => rfl

theorem fresh_server_run
    (run : Run (Guarded (fun n action => n.freshLogin sha256 action = true) (Step sha256)) init trace net) :
    Run (Guarded (fun s e => Server.freshLogin sha256 s e = true) (Server.Step sha256)) Server.init
      (trace.filterMap turn) net.server := by
  have hboth : Run (Guarded (fun s e => Server.freshLogin sha256 s e = true) (Server.Step sha256)) Server.init
      (trace.filterMap turn) net.server ∧ True :=
    run.refines (P := fun _ => True) trivial fun _ hstep => ⟨fresh_turn hstep.1 hstep.2, trivial⟩
  exact hboth.1

/-- What the server does in a network is what it does on its own. -/
theorem server_run (run : Run (Step sha256) init trace net) :
    Run (Server.Step sha256) Server.init (trace.filterMap turn) net.server := by
  have hboth : Run (Server.Step sha256) Server.init (trace.filterMap turn) net.server ∧ True :=
    run.refines (P := fun _ => True) trivial fun _ hstep => ⟨turn_step hstep, trivial⟩
  exact hboth.1

/-- `client` put `request` on its channel: `Send` returned a number of bytes. -/
def Asked (trace : List (Action ι × Observation ι)) (client : ι) (request : Request) : Prop :=
  ∃ result vector, 0 < result ∧ (.sendRequest client request.message result, .sent (.ok vector)) ∈ trace

omit [DecidableEq ι] in
theorem Asked.mono {before : List (Action ι × Observation ι)} {client : ι} {request : Request}
    (h : Asked before client request) (hsub : ∀ entry ∈ before, entry ∈ trace) : Asked trace client request := by
  obtain ⟨result, vector, hsent, hmem⟩ := h
  exact ⟨result, vector, hsent, hsub _ hmem⟩

/-- A request that the server handles was sent by the client on whose channel it came. -/
theorem asked_of_served {client : ι} {buffer : MessageBuffer} {out : Output ι} {request : Request}
    {action : Action ι} (run : Run (Step sha256) init trace net)
    (hentry : (action, .served client buffer out) ∈ trace) (hrequest : Server.requestIn buffer = some request) :
    Asked trace client request := by
  have hhandled : buffer ∈ trace.flatMap (handled client) := by
    refine List.mem_flatMap.mpr ⟨_, hentry, ?_⟩
    unfold handled
    dsimp only
    rw [if_pos rfl]
    exact List.mem_singleton_self buffer
  have hrequested : buffer ∈ trace.flatMap (requested client) := by
    rw [requests_conserved run client]
    exact List.mem_append_left _ hhandled
  obtain ⟨entry, hmem, hbuffer⟩ := List.mem_flatMap.mp hrequested
  obtain ⟨before, after, htrace⟩ := List.append_of_mem hmem
  unfold requested at hbuffer
  split at hbuffer
  next k m result vector =>
    split at hbuffer
    next hboth =>
      obtain rfl := List.mem_singleton.mp hbuffer
      obtain ⟨rfl, hsent⟩ := hboth
      rw [htrace] at run
      obtain ⟨earlier, later, _, hstep, _⟩ := run.at_entry
      cases move_of_step hstep with
      | sent _ outcome =>
        have hholds := Client.sendRequest_holds outcome
        have hsame : m = request.message :=
          Message.encode_prefix_inj hholds (Server.requestIn_iff.mp hrequest)
        rw [hsame] at hmem
        exact ⟨result, buffer, hsent, hmem⟩
    next => cases hbuffer
  next => cases hbuffer

/-- The same for the step that is taken next. -/
theorem asked_of_step {client : ι} {buffer : MessageBuffer} {out : Output ι} {request : Request}
    {fd chatResult responseResult : Int} (run : Run (Step sha256) init trace net)
    (hstep : Step sha256 net (.serve fd chatResult responseResult) (.served client buffer out) next)
    (hrequest : Server.requestIn buffer = some request) : Asked trace client request := by
  have hlast : (.serve fd chatResult responseResult, .served client buffer out) ∈
      trace ++ [(Action.serve fd chatResult responseResult, Observation.served client buffer out)] :=
    List.mem_append_right _ (List.mem_singleton_self _)
  obtain ⟨result, vector, hsent, hmem⟩ := asked_of_served (run.next hstep) hlast hrequest
  rcases List.mem_append.mp hmem with hold | hnew
  · exact ⟨result, vector, hsent, hold⟩
  · cases List.mem_singleton.mp hnew

omit [DecidableEq ι] in
theorem served_of_turn {entry : Action ι × Observation ι} {fd chatResult responseResult : Int}
    {buffer : MessageBuffer} {out : Output ι}
    (h : turn entry = some (.ready fd (some buffer) chatResult responseResult, out)) :
    ∃ client, entry = (.serve fd chatResult responseResult, .served client buffer out) := by
  unfold turn at h
  split at h
  next => cases h
  next => cases h
  next client _ _ =>
    cases h
    exact ⟨client, rfl⟩
  next => cases h

/-- Whoever has a session with a user's name sent the login, with a password of the account. -/
def LoginsAsked (sha256 : List UInt8 → Digest) (trace : List (Action ι × Observation ι)) (net : Network ι) : Prop :=
  ∀ fd session, net.server.sessions.sessions fd = some session → session.authenticated = true →
    ∃ p, Asked trace session.channel (.login ⟨session.username, p⟩) ∧
      net.server.accounts.accounts session.username = some (AccountRegistry.hashPassword sha256 p)

theorem LoginsAsked.step {action : Action ι} {seen : Observation ι} (h : LoginsAsked sha256 trace net)
    (run : Run (Step sha256) init trace net) (hstep : Step sha256 net action seen next) :
    LoginsAsked sha256 (trace ++ [(action, seen)]) next := by
  intro fd session hs hauth
  have hlater : ∀ {client request}, Asked trace client request → Asked (trace ++ [(action, seen)]) client request := by
    intro client request hasked
    exact hasked.mono fun entry hentry => List.mem_append_left _ hentry
  have hturn := turn_step hstep
  cases hentry : turn (action, seen) with
  | none =>
    rw [hentry] at hturn
    have hserver : next.server = net.server := hturn
    rw [hserver] at hs ⊢
    obtain ⟨p, hasked, hstored⟩ := h fd session hs hauth
    exact ⟨p, hlater hasked, hstored⟩
  | some entry =>
    obtain ⟨event, out⟩ := entry
    rw [hentry] at hturn
    have heffect : Server.Effect sha256 net.server event out next.server := Server.effect_of_step hturn
    rcases Server.authenticated_of_effect heffect hs hauth with
      hbefore | ⟨old, buffer, chatResult, responseResult, p, hevent, hold, hchannel, hrequest, hstored⟩
    · obtain ⟨p, hasked, hstored⟩ := h fd session hbefore hauth
      exact ⟨p, hlater hasked, Server.accounts_kept heffect hstored⟩
    · rw [hevent] at hentry
      obtain ⟨client, hserved⟩ := served_of_turn hentry
      cases hserved
      have hclient : old.channel = client := by
        cases move_of_step hstep with
        | served present => exact congrArg Session.channel (Option.some.inj (hold.symm.trans present))
      have hasked := asked_of_step run hstep hrequest
      rw [hchannel, hclient]
      exact ⟨p, hlater hasked, Server.accounts_kept heffect hstored⟩

theorem loginsAsked_of_run (run : Run (Step sha256) init trace net) : LoginsAsked sha256 trace net := by
  refine run.history (P := LoginsAsked sha256) ?_ ?_
  · intro fd session hs
    cases hs
  · intro trace n action seen n' run ih hstep
    exact ih.step run hstep

/-- The server took a Register of `client` for `u` with the password `q` and answered it with Success. -/
def Registers (entry : Action ι × Observation ι) (client : ι) (u q : ByteString) : Prop :=
  ∃ fd chatResult responseResult buffer out,
    entry = (.serve fd chatResult responseResult, .served client buffer out) ∧
    Server.requestIn buffer = some (.register ⟨u, q⟩) ∧ out.response = some (.success ⟨⟩)

/-- One Register for `u` was answered with Success, and `client` had sent it, with the password `q`. -/
def RegisteredOnce (trace : List (Action ι × Observation ι)) (client : ι) (u q : ByteString) : Prop :=
  ∃ before entry after, trace = before ++ entry :: after ∧ Registers entry client u q ∧
    Asked before client (.register ⟨u, q⟩) ∧ ∀ other ∈ before ++ after, ∀ k p, ¬Registers other k u p

omit [DecidableEq ι] in
theorem Registers.turn {entry : Action ι × Observation ι} {client : ι} {u q : ByteString}
    (h : Registers entry client u q) : ∃ seen, turn entry = some seen ∧ Server.Registers seen u q := by
  obtain ⟨fd, chatResult, responseResult, buffer, out, rfl, hrequest, hresponse⟩ := h
  refine ⟨_, rfl, fd, ?_⟩
  simp only [Server.exchange, hrequest, hresponse]

omit [DecidableEq ι] in
theorem registers_of_turn {entry : Action ι × Observation ι} {seen : Event ι × Output ι} {u q : ByteString}
    (hturn : turn entry = some seen) (h : Server.Registers seen u q) : ∃ client, Registers entry client u q := by
  obtain ⟨event, out⟩ := seen
  obtain ⟨k, hexchange⟩ := h
  unfold Server.exchange at hexchange
  split at hexchange
  next fd buffer chatResult responseResult out' hentry =>
    cases hentry
    obtain ⟨client, hserved⟩ := served_of_turn hturn
    split at hexchange
    next request response hrequest hresponse =>
      cases hexchange
      exact ⟨client, _, chatResult, responseResult, buffer, out, hserved, hrequest, hresponse⟩
    next => cases hexchange
  next => cases hexchange

/-- Every account was registered by a client, once. -/
theorem registered_of_stored {u hash : ByteString} (run : Run (Step sha256) init trace net)
    (hstored : net.server.accounts.accounts u = some hash) :
    ∃ client q, RegisteredOnce trace client u q ∧ hash = AccountRegistry.hashPassword sha256 q := by
  obtain ⟨q, ⟨served, seen, rest, hsplit, hregisters, hothers⟩, hhash⟩ :=
    (Server.accountHistory (server_run run)).registered u hash hstored
  -- the step of the network whose turn this was
  obtain ⟨first, last, rfl, rfl, hlast⟩ := List.filterMap_eq_append_iff.mp hsplit
  obtain ⟨silent, entry, after, rfl, hsilent, hturn, rfl⟩ := List.filterMap_eq_cons_iff.mp hlast
  obtain ⟨client, hentry⟩ := registers_of_turn hturn hregisters
  obtain ⟨fd, chatResult, responseResult, buffer, out, rfl, hrequest, _⟩ := id hentry
  rw [← List.append_assoc] at run ⊢
  obtain ⟨n, n', hbefore, hstep, _⟩ := run.at_entry
  refine ⟨client, q, ⟨first ++ silent, _, after, rfl, hentry, asked_of_step hbefore hstep hrequest, ?_⟩, hhash⟩
  intro other hother k p hother'
  obtain ⟨seen', hseen, hregisters'⟩ := hother'.turn
  refine hothers seen' ?_ p hregisters'
  rcases List.mem_append.mp hother with hfront | hafter
  · rcases List.mem_append.mp hfront with hfirst | hmiddle
    · exact List.mem_append_left _ (List.mem_filterMap.mpr ⟨other, hfirst, hseen⟩)
    · rw [hsilent other hmiddle] at hseen
      cases hseen
  · exact List.mem_append_right _ (List.mem_filterMap.mpr ⟨other, hafter, hseen⟩)

theorem mem_passedOn {client : ι} {action : Action ι} {seen : Observation ι} {chat : ReceiveChat}
    (h : chat ∈ passedOn client (action, seen)) :
    ∃ k buffer out delivery, seen = .served k buffer out ∧ out.forwarded = some delivery ∧
      delivery.channel = client ∧ delivery.message = ⟨.receiveChat, chat⟩ := by
  unfold passedOn at h
  split at h
  next k buffer out hentry =>
    obtain ⟨rfl, rfl⟩ := Prod.mk.inj hentry
    unfold chatFor at h
    split at h
    next channel message vector result hforward =>
      split at h
      next hsent =>
        refine ⟨k, buffer, out, _, rfl, hforward, hsent.2, ?_⟩
        have hmessage : message.chat = some chat := Option.mem_toList.mp h
        unfold Message.chat at hmessage
        split at hmessage
        next =>
          cases hmessage
          rfl
        next => cases hmessage
      next => cases h
    next => cases h
  next => cases h

/-- A chat is passed on for somebody who is logged in under the name it carries. -/
theorem sender_of_passed {action : Action ι} {seen : Observation ι} {reader : ι} {chat : ReceiveChat}
    (hstep : Step sha256 net action seen next) (hchat : chat ∈ passedOn reader (action, seen)) :
    ∃ fd chatResult responseResult session buffer out recipient,
      Step sha256 net (.serve fd chatResult responseResult) (.served session.channel buffer out) next ∧
      Server.requestIn buffer = some (.sendChat ⟨recipient, chat.content⟩) ∧
      net.server.sessions.sessions fd = some session ∧ session.authenticated = true ∧
      session.username = chat.sender := by
  obtain ⟨k, buffer, out, delivery, hseen, hforward, _, hmessage⟩ := mem_passedOn hchat
  subst hseen
  have hmove := move_of_step hstep
  cases hmove with
  | @served fd chatResult responseResult session _ rest server _ present queue step =>
    obtain ⟨fd', buffer', _, _, m, sender, _, _, hevent, hrequest, hsender, hauth, _, _, hdelivery⟩ :=
      Server.forwarded_of_effect (Server.effect_of_step step) hforward
    cases hevent
    have hsame : sender = session := Option.some.inj (hsender.symm.trans present)
    subst hsame
    rw [hdelivery, Server.sendResponse_delivery] at hmessage
    cases hmessage
    exact ⟨fd, chatResult, responseResult, sender, buffer, out, m.recipient, hstep, hrequest, present, hauth, rfl⟩

/-- It was sent by a client that had asked to be logged in as the user it is said to come from, and the password
had the hash of the one that this user was registered with. -/
theorem passed_was_written {action : Action ι} {seen : Observation ι} {reader : ι} {chat : ReceiveChat}
    (run : Run (Step sha256) init trace net) (hstep : Step sha256 net action seen next)
    (hchat : chat ∈ passedOn reader (action, seen)) :
    ∃ writer recipient p registrant q, Asked trace writer (.sendChat ⟨recipient, chat.content⟩) ∧
      Asked trace writer (.login ⟨chat.sender, p⟩) ∧ RegisteredOnce trace registrant chat.sender q ∧
      sha256 p.data = sha256 q.data := by
  obtain ⟨fd, _, _, session, buffer, out, recipient, hserve, hrequest, present, hauth, hname⟩ :=
    sender_of_passed hstep hchat
  have hwrote := asked_of_step run hserve hrequest
  obtain ⟨p, hlogin, hstored⟩ := loginsAsked_of_run run fd session present hauth
  rw [hname] at hlogin hstored
  obtain ⟨registrant, q, hregistered, hhash⟩ := registered_of_stored run hstored
  exact ⟨session.channel, recipient, p, registrant, q, hwrote, hlogin, hregistered, AccountRegistry.hashPassword_inj hhash⟩

/-- Every chat that a user can get to read was passed on before. -/
theorem passed_of_pending {reader : ι} {chat : ReceiveChat} (run : Run (Step sha256) init trace net)
    (hpending : chat ∈ (net.peers reader).pending) : ∃ before entry after n n', trace = before ++ entry :: after ∧
      Run (Step sha256) init before n ∧ Step sha256 n entry.1 entry.2 n' ∧ chat ∈ passedOn reader entry := by
  have hpassed : chat ∈ trace.flatMap (passedOn reader) := by
    rw [chats_conserved run reader]
    exact List.mem_append_right _ hpending
  obtain ⟨⟨action, seen⟩, hmem, hentry⟩ := List.mem_flatMap.mp hpassed
  obtain ⟨before, after, htrace⟩ := List.append_of_mem hmem
  have hrun := run
  rw [htrace] at hrun
  obtain ⟨n, n', hbefore, hserve, _⟩ := hrun.at_entry
  exact ⟨before, (action, seen), after, n, n', htrace, hbefore, hserve, hentry⟩

/-- A chat that a user reads was sent by a client that had asked to be logged in as the user it names, and the
password had the hash of the one that this user was registered with. -/
theorem read_was_written {reader : ι} {chats : List ReceiveChat} {chat : ReceiveChat}
    (run : Run (Step sha256) init trace net) (hstep : Step sha256 net (.getUnread reader) (.unread chats) next)
    (hchat : chat ∈ chats) :
    ∃ before entry after writer recipient p registrant q, trace = before ++ entry :: after ∧
      chat ∈ passedOn reader entry ∧ Asked before writer (.sendChat ⟨recipient, chat.content⟩) ∧
      Asked before writer (.login ⟨chat.sender, p⟩) ∧ RegisteredOnce before registrant chat.sender q ∧
      sha256 p.data = sha256 q.data := by
  have hpending : chat ∈ (net.peers reader).pending := by
    cases move_of_step hstep with
    | unread => exact List.mem_append_left _ hchat
  obtain ⟨before, entry, after, n, n', htrace, hbefore, hserve, hentry⟩ := passed_of_pending run hpending
  obtain ⟨writer, recipient, p, registrant, q, hwrote, hlogin, hregistered, hhash⟩ :=
    passed_was_written hbefore hserve hentry
  exact ⟨before, entry, after, writer, recipient, p, registrant, q, htrace, hentry, hwrote, hlogin, hregistered, hhash⟩

/-- A chat is passed from a client that is logged in as its sender to one that is logged in as its recipient. -/
theorem parties_of_passed {action : Action ι} {seen : Observation ι} {reader : ι} {chat : ReceiveChat}
    (linked : net.server.sessions.Linked) (hstep : Step sha256 net action seen next)
    (hchat : chat ∈ passedOn reader (action, seen)) :
    ∃ fd chatResult responseResult session buffer out recipient fd' target,
      Step sha256 net (.serve fd chatResult responseResult) (.served session.channel buffer out) next ∧
      Server.requestIn buffer = some (.sendChat ⟨recipient, chat.content⟩) ∧
      (net.server.sessions.sessions fd = some session ∧ session.authenticated = true ∧
        session.username = chat.sender) ∧
      net.server.sessions.sessions fd' = some target ∧ target.channel = reader ∧
      target.authenticated = true ∧ target.username = recipient := by
  obtain ⟨_, buffer, out, delivery, hseen, hforward, hchannel, hmessage⟩ := mem_passedOn hchat
  subst hseen
  cases move_of_step hstep with
  | @served fd chatResult responseResult session _ rest server _ present queue step =>
    obtain ⟨_, _, _, _, m, sender, fd', target, hevent, hrequest, hsender, hauth, hroute, htarget, hdelivery⟩ :=
      Server.forwarded_of_effect (Server.effect_of_step step) hforward
    cases hevent
    have hsame : sender = session := Option.some.inj (hsender.symm.trans present)
    subst hsame
    rw [hdelivery, Server.sendResponse_delivery] at hchannel hmessage
    cases hmessage
    obtain ⟨named, hnamed, huser⟩ := (linked m.recipient fd').mp hroute
    have htarget' : named = target := Option.some.inj (hnamed.symm.trans htarget)
    obtain ⟨hauth', hname'⟩ := Session.user_eq_some.mp huser
    rw [htarget'] at hauth' hname'
    exact ⟨fd, chatResult, responseResult, sender, buffer, out, m.recipient, fd', target, hstep, hrequest,
      ⟨present, hauth, rfl⟩, htarget, hchannel, hauth', hname'⟩

/-- Both had asked to be logged in as these. -/
theorem passed_between {action : Action ι} {seen : Observation ι} {reader : ι} {chat : ReceiveChat}
    (run : Run (Guarded (fun n action => n.freshLogin sha256 action = true) (Step sha256)) init trace net)
    (hstep : Step sha256 net action seen next) (hchat : chat ∈ passedOn reader (action, seen)) :
    ∃ writer recipient p p', Asked trace writer (.sendChat ⟨recipient, chat.content⟩) ∧
      Asked trace writer (.login ⟨chat.sender, p⟩) ∧ Asked trace reader (.login ⟨recipient, p'⟩) ∧
      net.server.accounts.accounts recipient = some (AccountRegistry.hashPassword sha256 p') := by
  have linked := Server.linked_of_run (fresh_server_run run)
  obtain ⟨fd, _, _, session, buffer, out, recipient, fd', target, hserve, hrequest, ⟨present, hauth, hname⟩, present',
    hreader, hauth', hname'⟩ := parties_of_passed linked hstep hchat
  have hlogins := loginsAsked_of_run run.unguarded
  obtain ⟨p, hlogin, _⟩ := hlogins fd session present hauth
  obtain ⟨p', hlogin', hstored'⟩ := hlogins fd' target present' hauth'
  rw [hname] at hlogin
  rw [hreader, hname'] at hlogin'
  rw [hname'] at hstored'
  exact ⟨session.channel, recipient, p, p', asked_of_step run.unguarded hserve hrequest, hlogin, hlogin', hstored'⟩

/-- Where no login is accepted on a connection that is logged in already, a chat that a user reads was sent to
a user that this client had asked to be logged in as, and the password had the hash of the one that this user
was registered with. -/
theorem read_was_meant {reader : ι} {chats : List ReceiveChat} {chat : ReceiveChat}
    (run : Run (Guarded (fun n action => n.freshLogin sha256 action = true) (Step sha256)) init trace net)
    (hstep : Step sha256 net (.getUnread reader) (.unread chats) next) (hchat : chat ∈ chats) :
    ∃ before entry after writer recipient p registrant q, trace = before ++ entry :: after ∧
      chat ∈ passedOn reader entry ∧ Asked before writer (.sendChat ⟨recipient, chat.content⟩) ∧
      Asked before reader (.login ⟨recipient, p⟩) ∧ RegisteredOnce before registrant recipient q ∧
      sha256 p.data = sha256 q.data := by
  have hpending : chat ∈ (net.peers reader).pending := by
    cases move_of_step hstep with
    | unread => exact List.mem_append_left _ hchat
  obtain ⟨before, entry, after, _, _, htrace, _, _, hentry⟩ := passed_of_pending run.unguarded hpending
  have hrun := run
  rw [htrace] at hrun
  obtain ⟨n, n', hbefore, hserve, _⟩ := hrun.at_entry
  obtain ⟨writer, recipient, _, p, hwrote, _, hlogin, hstored⟩ := passed_between hbefore hserve.2 hentry
  obtain ⟨registrant, q, hregistered, hhash⟩ := registered_of_stored hbefore.unguarded hstored
  exact ⟨before, entry, after, writer, recipient, p, registrant, q, htrace, hentry, hwrote, hlogin, hregistered,
    AccountRegistry.hashPassword_inj hhash⟩

def greeting : ByteString := ⟨asciiBytes "Peace and love on planet Earth.", by decide +kernel⟩

/-- Brian's chat comes in while Alice waits for the answer to her ping. -/
def greetingRun : List (Action Nat) :=
  bothLogIn ++
    [.sendRequest 1 (Request.sendChat ⟨Server.alice.username, greeting⟩).message 1,
      .sendRequest 0 (Request.ping ⟨⟩).message 1, .serve 6 1 1, .serve 5 1 1, .receive 0, .receive 0]

theorem greetingRun_reaches : ∃ trace net,
    Run (Guarded (fun n action => n.freshLogin Server.paddedDigest action = true) (Step Server.paddedDigest))
      (init : Network Nat) trace net ∧ trace.map Prod.fst = greetingRun ∧
      (net.peers 0).waiting = none ∧ (net.peers 0).client.inbox = [⟨Server.brian.username, greeting⟩] := by
  have hexecute : (Run.execute (actFresh Server.paddedDigest) (init : Network Nat) greetingRun).any (fun reached =>
      (reached.2.peers 0).waiting.isNone &&
        (reached.2.peers 0).client.inbox == [⟨Server.brian.username, greeting⟩]) = true := by decide +kernel
  cases he : Run.execute (actFresh Server.paddedDigest) (init : Network Nat) greetingRun with
  | none =>
    rw [he] at hexecute
    cases hexecute
  | some reached =>
    obtain ⟨trace, net⟩ := reached
    rw [he] at hexecute
    obtain ⟨hwaiting, hinbox⟩ := (Bool.and_eq_true _ _).mp hexecute
    exact ⟨trace, net, Run.of_execute step_of_actFresh he, Run.execute_events he,
      Option.isNone_iff_eq_none.mp hwaiting, beq_iff_eq.mp hinbox⟩

/-- Alice can read the chat. -/
theorem greetingRun_read : ∃ trace net chats next,
    Run (Guarded (fun n action => n.freshLogin Server.paddedDigest action = true) (Step Server.paddedDigest))
      (init : Network Nat) trace net ∧
      Step Server.paddedDigest net (.getUnread 0) (.unread chats) next ∧
      (⟨Server.brian.username, greeting⟩ : ReceiveChat) ∈ chats := by
  obtain ⟨trace, net, run, _, hidle, hinbox⟩ := greetingRun_reaches
  obtain ⟨next, hstep⟩ : ∃ next, Step Server.paddedDigest net (.getUnread 0) (.unread (net.peers 0).client.inbox)
      next := by
    unfold Step act
    dsimp only
    rw [hidle]
    exact ⟨_, rfl⟩
  have hchat : (⟨Server.brian.username, greeting⟩ : ReceiveChat) ∈ (net.peers 0).client.inbox := by
    rw [hinbox]
    exact List.mem_singleton_self _
  exact ⟨trace, net, _, next, run, hstep, hchat⟩

theorem read_was_written_greetingRun : ∃ trace net chats next before writer recipient p registrant q,
    Run (Step Server.paddedDigest) (init : Network Nat) trace net ∧
      Step Server.paddedDigest net (.getUnread 0) (.unread chats) next ∧
      (⟨Server.brian.username, greeting⟩ : ReceiveChat) ∈ chats ∧ before <+: trace ∧
      Asked before writer (.sendChat ⟨recipient, greeting⟩) ∧
      Asked before writer (.login ⟨Server.brian.username, p⟩) ∧
      RegisteredOnce before registrant Server.brian.username q := by
  obtain ⟨trace, net, chats, next, run, hstep, hchat⟩ := greetingRun_read
  obtain ⟨before, entry, after, writer, recipient, p, registrant, q, htrace, _, hwrote, hlogin, hregistered, _⟩ :=
    read_was_written run.unguarded hstep hchat
  exact ⟨trace, net, chats, next, before, writer, recipient, p, registrant, q, run.unguarded, hstep, hchat,
    ⟨_, htrace.symm⟩, hwrote, hlogin, hregistered⟩

theorem read_was_meant_greetingRun : ∃ trace net chats next before writer recipient p registrant q,
    Run (Guarded (fun n action => n.freshLogin Server.paddedDigest action = true) (Step Server.paddedDigest))
      (init : Network Nat) trace net ∧
      Step Server.paddedDigest net (.getUnread 0) (.unread chats) next ∧
      (⟨Server.brian.username, greeting⟩ : ReceiveChat) ∈ chats ∧ before <+: trace ∧
      Asked before writer (.sendChat ⟨recipient, greeting⟩) ∧ Asked before 0 (.login ⟨recipient, p⟩) ∧
      RegisteredOnce before registrant recipient q := by
  obtain ⟨trace, net, chats, next, run, hstep, hchat⟩ := greetingRun_read
  obtain ⟨before, entry, after, writer, recipient, p, registrant, q, htrace, _, hwrote, hlogin, hregistered, _⟩ :=
    read_was_meant run hstep hchat
  exact ⟨trace, net, chats, next, before, writer, recipient, p, registrant, q, run, hstep, hchat,
    ⟨_, htrace.symm⟩, hwrote, hlogin, hregistered⟩

end Network

end SecureMessaging
