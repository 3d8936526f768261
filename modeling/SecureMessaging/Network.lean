import Mathlib.Logic.Function.Basic
import SecureMessaging.Client
import SecureMessaging.ServerSteps

namespace SecureMessaging

/-- A client with the request it waits for an answer to, and what is under way on its channel. -/
structure Peer where
  client : Client
  waiting : Option Message
  toServer : List MessageBuffer
  toClient : List MessageBuffer

/-- The channel of a session is known by the client at its other end. -/
structure Network (ι : Type) where
  server : Server ι
  peers : ι → Peer

/-- The steps of the server and of the clients, with what `Send` returns where it is called. -/
inductive Action (ι : Type)
  | accept (fd : Int) (agreed : Option ι)
  | serve (fd : Int) (chatResult responseResult : Int)
  | close (fd : Int)
  | sendRequest (client : ι) (request : Message) (result : Int)
  | receive (client : ι)
  | disconnect (client : ι)
  | getUnread (client : ι)

inductive Observation (ι : Type)
  | accepted
  | closed
  | served (client : ι) (received : MessageBuffer) (out : Output ι)
  | sent (outcome : Except RequestError MessageBuffer)
  | received (result : Option (Except RequestError Response))
  | unread (chats : List ReceiveChat)

namespace Network

variable {ι : Type} [DecidableEq ι]

def init : Network ι := ⟨Server.init, fun _ => ⟨Client.init, none, [], []⟩⟩

/-- A vector is under way to the client if it was serialized and `Send` reports bytes. -/
def deliver (peers : ι → Peer) : Option (Delivery ι) → ι → Peer
  | some ⟨channel, _, some vector, result⟩ =>
    if result > 0 then
      Function.update peers channel { peers channel with toClient := (peers channel).toClient ++ [vector] }
    else peers
  | _ => peers

def takeRequest (peers : ι → Peer) (client : ι) (rest : List MessageBuffer) : ι → Peer :=
  Function.update peers client { peers client with toServer := rest }

/-- A step, unless it cannot be taken or ends in an exception. -/
def act (sha256 : List UInt8 → Digest) (net : Network ι) : Action ι → Option (Observation ι × Network ι)
  | .accept fd agreed =>
    match net.server.handleEvent sha256 (.accept fd agreed) with
    | .ok (server, _) => some (.accepted, { net with server := server })
    | .error _ => none
  | .close fd =>
    match net.server.handleEvent sha256 (.ready fd none 0 0) with
    | .ok (server, _) => some (.closed, { net with server := server })
    | .error _ => none
  | .serve fd chatResult responseResult =>
    match net.server.sessions.sessions fd with
    | some session =>
      match (net.peers session.channel).toServer with
      | buffer :: rest =>
        match net.server.handleEvent sha256 (.ready fd (some buffer) chatResult responseResult) with
        | .ok (server, out) =>
          some (.served session.channel buffer out,
            ⟨server, deliver (deliver (takeRequest net.peers session.channel rest) out.forwarded) out.replied⟩)
        | .error _ => none
      | [] => none
    | none => none
  | .sendRequest client request result =>
    let peer := net.peers client
    match peer.waiting with
    | none =>
      let (outcome, next) := peer.client.sendRequest request result
      match outcome with
      | .ok vector =>
        let toServer := if result > 0 then peer.toServer ++ [vector] else peer.toServer
        some (.sent outcome,
          { net with peers := Function.update net.peers client ⟨next, some request, toServer, peer.toClient⟩ })
      | .error _ =>
        some (.sent outcome, { net with peers := Function.update net.peers client { peer with client := next } })
    | some _ => none
  | .receive client =>
    let peer := net.peers client
    match peer.waiting, peer.toClient with
    | some request, buffer :: rest =>
      match peer.client.getResponse (some buffer) with
      | .ok (next, result) =>
        let waiting := if result.isSome then none else some request
        some (.received result,
          { net with peers := Function.update net.peers client ⟨next, waiting, peer.toServer, rest⟩ })
      | .error _ => none
    | _, _ => none
  | .disconnect client =>
    let peer := net.peers client
    match peer.waiting with
    | some request =>
      match peer.client.getResponse none with
      | .ok (next, result) =>
        let waiting := if result.isSome then none else some request
        some (.received result,
          { net with peers := Function.update net.peers client { peer with client := next, waiting := waiting } })
      | .error _ => none
    | none => none
  | .getUnread client =>
    let peer := net.peers client
    match peer.waiting with
    | none =>
      let (chats, next) := peer.client.getUnread
      some (.unread chats, { net with peers := Function.update net.peers client { peer with client := next } })
    | some _ => none

def Step (sha256 : List UInt8 → Digest) (net : Network ι) (action : Action ι) (seen : Observation ι)
    (next : Network ι) : Prop :=
  net.act sha256 action = some (seen, next)

variable {sha256 : List UInt8 → Digest} {net next : Network ι}

/-- All that a step can do. -/
inductive Move (sha256 : List UInt8 → Digest) (net : Network ι) : Action ι → Observation ι → Network ι → Prop
  | accepted {fd agreed server out} (step : Server.Step sha256 net.server (.accept fd agreed) out server) :
      Move sha256 net (.accept fd agreed) .accepted { net with server := server }
  | closed {fd server out} (step : Server.Step sha256 net.server (.ready fd none 0 0) out server) :
      Move sha256 net (.close fd) .closed { net with server := server }
  | served {fd chatResult responseResult session buffer rest server out}
      (present : net.server.sessions.sessions fd = some session)
      (queue : (net.peers session.channel).toServer = buffer :: rest)
      (step : Server.Step sha256 net.server (.ready fd (some buffer) chatResult responseResult) out server) :
      Move sha256 net (.serve fd chatResult responseResult) (.served session.channel buffer out)
        ⟨server, deliver (deliver (takeRequest net.peers session.channel rest) out.forwarded) out.replied⟩
  | refused {client request result error after} (idle : (net.peers client).waiting = none)
      (outcome : (net.peers client).client.sendRequest request result = (.error error, after)) :
      Move sha256 net (.sendRequest client request result) (.sent (.error error))
        { net with peers := Function.update net.peers client { net.peers client with client := after } }
  | sent {client request result vector after} (idle : (net.peers client).waiting = none)
      (outcome : (net.peers client).client.sendRequest request result = (.ok vector, after)) :
      Move sha256 net (.sendRequest client request result) (.sent (.ok vector))
        { net with peers := Function.update net.peers client ⟨after, some request,
          if result > 0 then (net.peers client).toServer ++ [vector] else (net.peers client).toServer,
          (net.peers client).toClient⟩ }
  | received {client request buffer rest after result} (waits : (net.peers client).waiting = some request)
      (queue : (net.peers client).toClient = buffer :: rest)
      (outcome : (net.peers client).client.getResponse (some buffer) = .ok (after, result)) :
      Move sha256 net (.receive client) (.received result)
        { net with peers := Function.update net.peers client ⟨after,
          if result.isSome then none else some request, (net.peers client).toServer, rest⟩ }
  | disconnected {client request} (waits : (net.peers client).waiting = some request) :
      Move sha256 net (.disconnect client) (.received (some (.error .disconnected)))
        { net with peers := Function.update net.peers client { net.peers client with waiting := none } }
  | unread {client} (idle : (net.peers client).waiting = none) :
      Move sha256 net (.getUnread client) (.unread (net.peers client).client.inbox)
        { net with peers := Function.update net.peers client { net.peers client with
          client := { (net.peers client).client with inbox := [] } } }

theorem move_of_step {action : Action ι} {seen : Observation ι} (h : Step sha256 net action seen next) :
    Move sha256 net action seen next := by
  unfold Step act at h
  cases action with
  | accept fd agreed =>
    dsimp only at h
    split at h
    next server out hstep =>
      cases h
      exact .accepted hstep
    next => cases h
  | close fd =>
    dsimp only at h
    split at h
    next server out hstep =>
      cases h
      exact .closed hstep
    next => cases h
  | serve fd chatResult responseResult =>
    dsimp only at h
    split at h
    next session hs =>
      split at h
      next buffer rest hqueue =>
        split at h
        next server out hstep =>
          cases h
          exact .served hs hqueue hstep
        next => cases h
      next => cases h
    next => cases h
  | sendRequest client request result =>
    dsimp only at h
    split at h
    next hidle =>
      generalize hsend : (net.peers client).client.sendRequest request result = sending at h
      obtain ⟨outcome, after⟩ := sending
      cases outcome with
      | ok vector =>
        cases h
        exact .sent hidle hsend
      | error error =>
        cases h
        exact .refused hidle hsend
    next => cases h
  | receive client =>
    dsimp only at h
    split at h
    next request buffer rest hwaits hqueue =>
      split at h
      next after result houtcome =>
        cases h
        exact .received hwaits hqueue houtcome
      next => cases h
    next => cases h
  | disconnect client =>
    dsimp only at h
    split at h
    next request hwaits =>
      cases h
      exact .disconnected hwaits
    next => cases h
  | getUnread client =>
    dsimp only at h
    split at h
    next hidle =>
      cases h
      exact .unread hidle
    next => cases h

/-- What one call of `SendResponse` adds to the vectors under way to a client. -/
def arrivals (delivery : Option (Delivery ι)) (client : ι) : List MessageBuffer :=
  match delivery with
  | some ⟨channel, _, some vector, result⟩ => if result > 0 ∧ channel = client then [vector] else []
  | _ => []

theorem deliver_apply (peers : ι → Peer) (delivery : Option (Delivery ι)) (client : ι) :
    deliver peers delivery client =
      { peers client with toClient := (peers client).toClient ++ arrivals delivery client } := by
  have hsame : (peers client).toClient ++ [] = (peers client).toClient := List.append_nil _
  unfold deliver arrivals
  split
  next channel message vector result =>
    by_cases hresult : result > 0
    · by_cases hclient : channel = client
      · subst hclient
        simp [hresult]
      · simp [hresult, hclient, Function.update_of_ne (Ne.symm hclient)]
    · simp [hresult]
  next => rw [hsame]

theorem mem_arrivals {delivery : Option (Delivery ι)} {client : ι} {vector : MessageBuffer}
    (h : vector ∈ arrivals delivery client) :
    ∃ d, delivery = some d ∧ d.channel = client ∧ d.vector = some vector := by
  unfold arrivals at h
  split at h
  next channel message sent result =>
    split at h
    next hboth => exact ⟨_, rfl, hboth.2, by rw [List.mem_singleton.mp h]⟩
    next => cases h
  next => cases h

def actIf (allowed : Action ι → Bool) (sha256 : List UInt8 → Digest) (net : Network ι) (action : Action ι) :
    Option (Observation ι × Network ι) :=
  if allowed action then net.act sha256 action else none

theorem step_of_actIf {allowed : Action ι → Bool} {action : Action ι} {seen : Observation ι}
    (h : actIf allowed sha256 net action = some (seen, next)) :
    Guarded (fun _ action => allowed action = true) (Step sha256) net action seen next := by
  unfold actIf at h
  split at h
  next hallowed => exact ⟨hallowed, h⟩
  next => cases h

theorem reaches_of_execute (sha256 : List UInt8 → Digest) (allowed : Action ι → Bool) (actions : List (Action ι))
    (good : List (Action ι × Observation ι) → Network ι → Bool)
    (h : (Run.execute (actIf allowed sha256) init actions).any (fun reached => good reached.1 reached.2) = true) :
    ∃ trace net, Run (Guarded (fun _ action => allowed action = true) (Step sha256)) init trace net ∧
      good trace net = true :=
  Run.exists_of_execute actions good step_of_actIf h

/-- Clients 0 and 1 register and log in. -/
def bothLogIn : List (Action Nat) :=
  [.accept 5 (some 0), .accept 6 (some 1), .sendRequest 0 (Server.registering Server.alice).message 1,
    .serve 5 1 1, .receive 0, .sendRequest 0 (Request.login Server.alice).message 1, .serve 5 1 1, .receive 0,
    .sendRequest 1 (Server.registering Server.brian).message 1, .serve 6 1 1, .receive 1,
    .sendRequest 1 (Request.login Server.brian).message 1, .serve 6 1 1, .receive 1]

end Network

end SecureMessaging
