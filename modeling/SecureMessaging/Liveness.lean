import SecureMessaging.ClientSession
import SecureMessaging.Dispatch
import SecureMessaging.Lib.Progress
import SecureMessaging.Pairing

namespace SecureMessaging

/-- A message that goes out was one that `Send` takes. -/
theorem Client.result_of_sendRequest {client after : Client} {request : Message} {result : Int}
    {vector : MessageBuffer} (h : client.sendRequest request result = (.ok vector, after)) : result ≠ 0 := by
  rcases client.sendRequest_cases request result with ⟨_, hresult, _⟩ | ⟨_, error, hsend⟩
  · exact hresult
  · cases (Prod.mk.inj (hsend.symm.trans h)).1

/-- Nothing on the two queues is malformed, and a client that waits is not forgotten. -/
structure Peer.Flowing (peer : Peer) : Prop where
  requests : ∀ vector ∈ peer.toServer, ∃ m : Message, m.encode <+: vector.bytes
  answers : ∀ vector ∈ peer.toClient, ∃ response : Response, response.message.encode <+: vector.bytes
  owed : peer.waiting ≠ none → peer.toServer ≠ [] ∨ ∃ vector ∈ peer.toClient, chatHeld vector = none

/-- What is still to be done about the vectors of a client. -/
def Peer.load (peer : Peer) : Nat := 3 * peer.toServer.length + peer.toClient.length

theorem Peer.Flowing.deliver {peer : Peer} {extra : List MessageBuffer} (h : peer.Flowing)
    (hextra : ∀ vector ∈ extra, ∃ response : Response, response.message.encode <+: vector.bytes) :
    ({ peer with toClient := peer.toClient ++ extra } : Peer).Flowing := by
  refine ⟨h.requests, ?_, ?_⟩
  · intro vector hvector
    rcases List.mem_append.mp hvector with hold | hnew
    · exact h.answers vector hold
    · exact hextra vector hnew
  · intro hwaits
    rcases h.owed hwaits with hqueue | ⟨vector, hvector, hanswer⟩
    · exact Or.inl hqueue
    · exact Or.inr ⟨vector, List.mem_append_left _ hvector, hanswer⟩

theorem Peer.Flowing.idle {peer : Peer} (h : peer.Flowing) (client : Client) :
    ({ peer with client := client, waiting := none } : Peer).Flowing :=
  ⟨h.requests, h.answers, fun hwaits => absurd rfl hwaits⟩

/-- A chat is no answer, so the answer is among the rest. -/
theorem Peer.Flowing.received {peer : Peer} {buffer : MessageBuffer} {rest : List MessageBuffer} {after : Client}
    {request : Message} {result : Option (Except RequestError Response)} (h : peer.Flowing)
    (queue : peer.toClient = buffer :: rest) (waits : peer.waiting = some request)
    (outcome : peer.client.getResponse (some buffer) = .ok (after, result)) :
    (⟨after, if result.isSome then none else some request, peer.toServer, rest⟩ : Peer).Flowing := by
  have hrest : ∀ vector ∈ rest, vector ∈ peer.toClient := by
    intro vector hvector
    rw [queue]
    exact List.mem_cons_of_mem _ hvector
  refine ⟨h.requests, fun vector hvector => h.answers vector (hrest vector hvector), ?_⟩
  intro hwaits
  have hnone : result = none := by
    cases result with
    | none => rfl
    | some value => exact absurd rfl hwaits
  have hbusy : peer.waiting ≠ none := by
    rw [waits]
    exact Option.some_ne_none request
  rcases h.owed hbusy with hqueue | ⟨vector, hvector, hanswer⟩
  · exact Or.inl hqueue
  · rw [queue] at hvector
    rcases List.mem_cons.mp hvector with hfirst | hlater
    · have hreceived : ∀ other, some buffer = some other → Resizable Response.types other := by
        intro other hother
        rw [← Option.some.inj hother]
        exact Client.resizable_of_getResponse outcome
      rcases peer.client.getResponse_cases hreceived with
        ⟨chat, client, hchat, _, _⟩ | ⟨response, client, _, _, _, hcall⟩
      · have hheld : chatHeld buffer = some chat := hchat
        rw [hfirst, hheld] at hanswer
        cases hanswer
      · have hsome := (Prod.mk.inj (Except.ok.inj (hcall.symm.trans outcome))).2
        rw [hnone] at hsome
        cases hsome
    · exact Or.inr ⟨vector, hlater, hanswer⟩

/-- Connections stay while requests are handled. -/
theorem Server.channels_of_effect {χ : Type} {sha256 : List UInt8 → Digest} {server next : Server χ} {fd : Int}
    {buffer : MessageBuffer} {chatResult responseResult : Int} {out : Output χ}
    (h : Effect sha256 server (.ready fd (some buffer) chatResult responseResult) out next) :
    next.channels = server.channels := by
  cases h with
  | ignored => rfl
  | answered _ answer =>
    have hframe := answer.frame.2.2
    rw [channels_of_sessions (sendResponse_sessions _ _ _ _), hframe]
    rfl

namespace Network

variable {ι : Type} [DecidableEq ι] {sha256 : List UInt8 → Digest} {net next : Network ι}
  {trace : List (Action ι × Observation ι)}

/-- Every vector that is sent arrives, nobody stops waiting, and no `Receive` of the server fails, so that no
connection is closed. -/
def flows : Action ι → Bool
  | .disconnect _ => false
  | .close _ => false
  | .sendRequest _ _ result => 0 ≤ result
  | .serve _ _ responseResult => 0 < responseResult
  | _ => true

theorem answers_of_served {fd chatResult responseResult : Int} {session : Session ι} {buffer : MessageBuffer}
    {out : Output ι} {server : Server ι} (present : net.server.sessions.sessions fd = some session)
    (step : Server.Step sha256 net.server (.ready fd (some buffer) chatResult responseResult) out server)
    (client : ι) : ∀ vector ∈ arrivals out.forwarded client ++ arrivals out.replied client,
      ∃ response : Response, response.message.encode <+: vector.bytes := by
  obtain ⟨⟨response, sent, _, _, hreply, hholds⟩, hforward⟩ := Server.served_of_step present step
  intro vector hvector
  rcases List.mem_append.mp hvector with hchat | hanswer
  · obtain ⟨delivery, hdelivery, _, hheld⟩ := mem_arrivals hchat
    obtain ⟨chat, hprefix⟩ := hforward delivery vector hdelivery hheld
    exact ⟨_, hprefix⟩
  · obtain ⟨delivery, hdelivery, _, hheld⟩ := mem_arrivals hanswer
    rw [hreply] at hdelivery
    cases hdelivery
    cases hheld
    exact ⟨response, hholds⟩

/-- The client whose request was handled has the answer on its queue. -/
theorem answer_arrives {fd chatResult responseResult : Int} {session : Session ι} {buffer : MessageBuffer}
    {out : Output ι} {server : Server ι} (hresult : 0 < responseResult)
    (present : net.server.sessions.sessions fd = some session)
    (step : Server.Step sha256 net.server (.ready fd (some buffer) chatResult responseResult) out server) :
    ∃ vector ∈ arrivals out.replied session.channel, chatHeld vector = none := by
  obtain ⟨⟨response, vector, _, hanswer, hreply, hholds⟩, _⟩ := Server.served_of_step present step
  have harrival : arrivals out.replied session.channel = [vector] := by
    rw [hreply]
    exact if_pos ⟨hresult, rfl⟩
  refine ⟨vector, ?_, chatHeld_answer hanswer hholds⟩
  rw [harrival]
  exact List.mem_singleton_self vector

theorem deliver_twice (peers : ι → Peer) (first second : Option (Delivery ι)) (client : ι) :
    deliver (deliver peers first) second client = { peers client with
      toClient := (peers client).toClient ++ (arrivals first client ++ arrivals second client) } := by
  rw [deliver_apply, deliver_apply]
  dsimp only
  rw [List.append_assoc]

theorem flowing_update {peers : ι → Peer} {k : ι} {peer : Peer} (h : ∀ k, (peers k).Flowing) (hpeer : peer.Flowing)
    (client : ι) : (Function.update peers k peer client).Flowing := by
  by_cases hclient : client = k
  · subst hclient
    rw [Function.update_self]
    exact hpeer
  · rw [Function.update_of_ne hclient]
    exact h client

theorem flowing_step {action : Action ι} {seen : Observation ι} (h : ∀ k, (net.peers k).Flowing)
    (hflows : flows action = true) (hmove : Move sha256 net action seen next) (client : ι) :
    (next.peers client).Flowing := by
  cases hmove with
  | accepted => exact h client
  | closed => cases hflows
  | @served fd chatResult responseResult session buffer rest server out present queue step =>
    have hanswers := answers_of_served present step client
    dsimp only
    rw [deliver_twice]
    by_cases hclient : client = session.channel
    · subst hclient
      have htake : takeRequest net.peers session.channel rest session.channel =
          { net.peers session.channel with toServer := rest } := Function.update_self _ _ _
      rw [htake]
      obtain ⟨vector, hvector, hanswer⟩ := answer_arrives (of_decide_eq_true hflows) present step
      refine ⟨?_, ?_, fun _ => Or.inr ⟨vector, ?_, hanswer⟩⟩
      · intro other hother
        refine (h session.channel).requests other ?_
        rw [queue]
        exact List.mem_cons_of_mem _ hother
      · intro other hother
        rcases List.mem_append.mp hother with hold | hnew
        · exact (h session.channel).answers other hold
        · exact hanswers other hnew
      · exact List.mem_append_right _ (List.mem_append_right _ hvector)
    · have htake : takeRequest net.peers session.channel rest client = net.peers client :=
        Function.update_of_ne hclient _ _
      rw [htake]
      exact (h client).deliver hanswers
  | @refused k request result error after idle =>
    refine flowing_update h ?_ client
    dsimp only
    rw [idle]
    exact (h k).idle after
  | @sent k request result vector after idle outcome =>
    refine flowing_update h ?_ client
    have hnonzero : result ≠ 0 := Client.result_of_sendRequest outcome
    have hnonneg : 0 ≤ result := of_decide_eq_true hflows
    have hpositive : result > 0 := by omega
    rw [if_pos hpositive]
    refine ⟨?_, (h k).answers, fun _ => Or.inl (List.append_ne_nil_of_right_ne_nil _ (List.cons_ne_nil _ _))⟩
    intro other hother
    rcases List.mem_append.mp hother with hold | hnew
    · exact (h k).requests other hold
    · rw [List.mem_singleton.mp hnew]
      exact ⟨request, Client.sendRequest_holds outcome⟩
  | @received k request buffer rest after result waits queue outcome =>
    exact flowing_update h ((h k).received queue waits outcome) client
  | disconnected => cases hflows
  | @unread k idle =>
    refine flowing_update h ?_ client
    dsimp only
    rw [idle]
    exact (h k).idle _

theorem flowing_of_run (run : Run (Guarded (fun _ action => flows action = true) (Step sha256)) init trace net)
    (client : ι) : (net.peers client).Flowing := by
  have hall : ∀ k, (net.peers k).Flowing := by
    refine run.invariant (P := fun n => ∀ k, (n.peers k).Flowing) ?_ ?_
    · intro k
      refine ⟨?_, ?_, fun hwaits => absurd rfl hwaits⟩
      · intro vector hvector
        cases hvector
      · intro vector hvector
        cases hvector
    · intro n action seen n' h hstep k
      exact flowing_step h hstep.1 (move_of_step hstep.2) k
  exact hall client

/-- What goes on without the users: the server's turns, and the clients' calls of `Receive`. -/
def internal : Action ι → Bool
  | .serve _ _ responseResult => 0 < responseResult
  | .receive _ => true
  | _ => false

def Internal (sha256 : List UInt8 → Digest) :
    Network ι → Action ι → Observation ι → Network ι → Prop :=
  Guarded (fun _ action => internal action = true) (Step sha256)

omit [DecidableEq ι] in
theorem flows_of_internal {action : Action ι} (h : internal action = true) : flows action = true := by
  cases action with
  | serve => exact h
  | receive => rfl
  | accept | close | sendRequest | disconnect | getUnread => cases h

variable [Fintype ι]

/-- An upper bound for the internal steps that are still to come. -/
def work (net : Network ι) : Nat := ∑ k, (net.peers k).load

omit [Fintype ι] in
theorem serve_possible {fd : Int} {session : Session ι} {buffer : MessageBuffer} {rest : List MessageBuffer}
    (sha256 : List UInt8 → Digest) (h : (net.peers session.channel).Flowing)
    (present : net.server.sessions.sessions fd = some session)
    (queue : (net.peers session.channel).toServer = buffer :: rest) :
    ∃ seen next, Internal sha256 net (.serve fd 1 1) seen next := by
  have hmem : buffer ∈ (net.peers session.channel).toServer := by
    rw [queue]
    exact List.mem_cons_self ..
  obtain ⟨m, hholds⟩ := h.requests buffer hmem
  have hbuffer : Resizable Request.types buffer := resizable_of_encoded hholds
  obtain ⟨out, server, hstep⟩ := Server.request_returns sha256 present hbuffer 1 1
  have hact : net.act sha256 (.serve fd 1 1) = some (.served session.channel buffer out,
      ⟨server, deliver (deliver (takeRequest net.peers session.channel rest) out.forwarded) out.replied⟩) := by
    have hevent : net.server.handleEvent sha256 (.ready fd (some buffer) 1 1) = .ok (server, out) := hstep
    unfold act
    dsimp only
    rw [present]
    dsimp only
    rw [queue]
    dsimp only
    rw [hevent]
  exact ⟨_, _, rfl, hact⟩

omit [Fintype ι] in
theorem receive_possible {client : ι} {request : Message} {buffer : MessageBuffer} {rest : List MessageBuffer}
    (sha256 : List UInt8 → Digest) (h : (net.peers client).Flowing)
    (waits : (net.peers client).waiting = some request) (queue : (net.peers client).toClient = buffer :: rest) :
    ∃ seen next, Internal sha256 net (.receive client) seen next := by
  have hmem : buffer ∈ (net.peers client).toClient := by
    rw [queue]
    exact List.mem_cons_self ..
  obtain ⟨response, hholds⟩ := h.answers buffer hmem
  have hreceived : ∀ other, some buffer = some other → Resizable Response.types other := by
    intro other hother
    rw [← Option.some.inj hother]
    exact resizable_of_encoded hholds
  obtain ⟨after, result, hcall⟩ : ∃ after result,
      (net.peers client).client.getResponse (some buffer) = .ok (after, result) := by
    rcases (net.peers client).client.getResponse_cases hreceived with
      ⟨_, after, _, _, hcall⟩ | ⟨outcome, after, _, _, _, hcall⟩
    · exact ⟨after, none, hcall⟩
    · exact ⟨after, some outcome, hcall⟩
  have hact : net.act sha256 (.receive client) = some (.received result, { net with
      peers := Function.update net.peers client ⟨after, if result.isSome then none else some request,
        (net.peers client).toServer, rest⟩ }) := by
    unfold act
    dsimp only
    rw [waits, queue]
    dsimp only
    rw [hcall]
  exact ⟨_, _, rfl, hact⟩

omit [Fintype ι] in
/-- A client that waits can go on, or the server can with its request. -/
theorem idle_of_quiescent {fd : Int} {session : Session ι} (h : ∀ k, (net.peers k).Flowing)
    (hquiet : Quiescent (Internal sha256) net) (present : net.server.sessions.sessions fd = some session) :
    (net.peers session.channel).waiting = none := by
  have hnorequest : (net.peers session.channel).toServer = [] := by
    cases queue : (net.peers session.channel).toServer with
    | nil => rfl
    | cons buffer rest =>
      obtain ⟨seen, next, hstep⟩ := serve_possible sha256 (h session.channel) present queue
      exact absurd hstep (hquiet _ _ _)
  cases waits : (net.peers session.channel).waiting with
  | none => rfl
  | some request =>
    have hbusy : (net.peers session.channel).waiting ≠ none := by
      rw [waits]
      exact Option.some_ne_none request
    rcases (h session.channel).owed hbusy with hqueue | ⟨vector, hvector, _⟩
    · exact absurd hnorequest hqueue
    · cases queue : (net.peers session.channel).toClient with
      | nil =>
        rw [queue] at hvector
        cases hvector
      | cons buffer rest =>
        obtain ⟨seen, next, hstep⟩ := receive_possible sha256 (h session.channel) waits queue
        exact absurd hstep (hquiet _ _ _)

omit [Fintype ι] in
theorem channels_internal {action : Action ι} {seen : Observation ι} (hinternal : internal action = true)
    (hmove : Move sha256 net action seen next) : next.server.channels = net.server.channels := by
  cases hmove with
  | served present queue step => exact Server.channels_of_effect (Server.effect_of_step step)
  | received => rfl
  | accepted | closed | refused | sent | disconnected | unread => cases hinternal

theorem load_update (peers : ι → Peer) (i : ι) (peer : Peer) :
    ∑ k, (Function.update peers i peer k).load + (peers i).load = ∑ k, (peers k).load + peer.load := by
  have hsum := sum_update (fun k => (peers k).load) i peer.load
  have hsame : (fun k => (Function.update peers i peer k).load) =
      Function.update (fun k => (peers k).load) i peer.load := by
    funext k
    by_cases hk : k = i
    · subst hk
      rw [Function.update_self, Function.update_self]
    · rw [Function.update_of_ne hk, Function.update_of_ne hk]
  rw [hsame]
  exact hsum

theorem load_deliver (peers : ι → Peer) (delivery : Option (Delivery ι)) :
    ∑ k, (deliver peers delivery k).load ≤ ∑ k, (peers k).load + 1 := by
  unfold deliver
  split
  next channel message vector result =>
    split
    next =>
      have hsum := load_update peers channel
        { peers channel with toClient := (peers channel).toClient ++ [vector] }
      simp only [Peer.load, List.length_append, List.length_singleton] at hsum ⊢
      omega
    next => exact Nat.le_succ _
  next => exact Nat.le_succ _

theorem work_less {action : Action ι} {seen : Observation ι} (hinternal : internal action = true)
    (hmove : Move sha256 net action seen next) : next.work < net.work := by
  cases hmove with
  | @served fd chatResult responseResult session buffer rest server out present queue step =>
    have htaken := load_update net.peers session.channel { net.peers session.channel with toServer := rest }
    have hforwarded := load_deliver (takeRequest net.peers session.channel rest) out.forwarded
    have hreplied := load_deliver (deliver (takeRequest net.peers session.channel rest) out.forwarded) out.replied
    unfold work
    unfold takeRequest at hforwarded hreplied ⊢
    simp only [Peer.load, queue, List.length_cons] at htaken hforwarded hreplied ⊢
    omega
  | @received k request buffer rest after result waits queue outcome =>
    have htaken := load_update net.peers k
      ⟨after, if result.isSome then none else some request, (net.peers k).toServer, rest⟩
    unfold work
    simp only [Peer.load, queue, List.length_cons] at htaken ⊢
    omega
  | accepted | closed | refused | sent | disconnected | unread => cases hinternal

/-- What an internal step keeps. -/
theorem settling {net start : Network ι} {action : Action ι} {seen : Observation ι}
    (h : (∀ k, (net.peers k).Flowing) ∧ net.server.channels = start.server.channels)
    (hstep : Internal sha256 net action seen next) :
    ((∀ k, (next.peers k).Flowing) ∧ next.server.channels = start.server.channels) ∧ next.work < net.work := by
  obtain ⟨hflowing, hchannels⟩ := h
  obtain ⟨hinternal, hact⟩ := hstep
  have hmove := move_of_step hact
  refine ⟨⟨?_, ?_⟩, work_less hinternal hmove⟩
  · intro k
    exact flowing_step hflowing (flows_of_internal hinternal) hmove k
  · rw [channels_internal hinternal hmove]
    exact hchannels

/-- Once the users do nothing more, no client whose connection is open waits for its answer for ever: the steps
that are left are bounded, and where they end nobody waits. -/
theorem requests_answered
    (run : Run (Guarded (fun _ action => flows action = true) (Step sha256)) init trace net) :
    (∀ later last, Run (Internal sha256) net later last → later.length ≤ net.work ∧
      (Quiescent (Internal sha256) last → ∀ fd client, net.server.channels fd = some client →
        (last.peers client).waiting = none)) ∧
    ∃ later last, Run (Internal sha256) net later last ∧ Quiescent (Internal sha256) last := by
  have hstart : (∀ k, (net.peers k).Flowing) ∧ net.server.channels = net.server.channels :=
    ⟨flowing_of_run run, rfl⟩
  refine ⟨?_, Run.exists_quiescent (μ := work) (fun h hstep => settling h hstep) net hstart⟩
  intro later last hlater
  have hbound : ((∀ k, (last.peers k).Flowing) ∧ last.server.channels = net.server.channels) ∧
      later.length + last.work ≤ net.work := hlater.length_le (μ := work) hstart fun h hstep => settling h hstep
  obtain ⟨⟨hflowing, hchannels⟩, hlength⟩ := hbound
  refine ⟨by omega, ?_⟩
  intro hquiet fd client hopen
  rw [← hchannels] at hopen
  obtain ⟨session, present, rfl⟩ := Option.map_eq_some_iff.mp hopen
  exact idle_of_quiescent hflowing hquiet present

/-- Two clients wait, one for the answer to a ping and one for that to a registration. -/
def waitingRun : List (Action Bool) :=
  [.accept 5 (some false), .accept 6 (some true), .sendRequest false (Request.ping ⟨⟩).message 1,
    .sendRequest true (Server.registering Server.brian).message 1]

theorem requests_answered_waitingRun : ∃ trace net later last,
    Run (Guarded (fun _ action => flows action = true) (Step Server.paddedDigest)) (init : Network Bool) trace
      net ∧
    (∀ client, (net.peers client).waiting.isSome = true) ∧ Run (Internal Server.paddedDigest) net later last ∧
      later.length ≤ net.work ∧ ∀ client, (last.peers client).waiting = none := by
  obtain ⟨trace, net, run, hgood⟩ := reaches_of_execute Server.paddedDigest flows waitingRun
    (fun _ net => decide (∀ client, (net.peers client).waiting.isSome = true) &&
      decide (net.server.channels 5 = some false ∧ net.server.channels 6 = some true)) (by decide +kernel)
  obtain ⟨hwaiting, hopen⟩ := (Bool.and_eq_true _ _).mp hgood
  obtain ⟨hfirst, hsecond⟩ := of_decide_eq_true hopen
  obtain ⟨hsettles, later, last, hlater, hquiet⟩ := requests_answered run
  obtain ⟨hlength, hidle⟩ := hsettles later last hlater
  refine ⟨trace, net, later, last, run, of_decide_eq_true hwaiting, hlater, hlength, ?_⟩
  intro client
  cases client with
  | false => exact hidle hquiet 5 false hfirst
  | true => exact hidle hquiet 6 true hsecond

end Network

end SecureMessaging
