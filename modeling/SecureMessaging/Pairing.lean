import SecureMessaging.Network

namespace SecureMessaging

namespace Server

variable {χ : Type} {sha256 : List UInt8 → Digest} {server next : Server χ}

/-- What a request of a connection with a session leads to. -/
theorem served_of_step {fd chatResult responseResult : Int} {buffer : MessageBuffer} {session : Session χ}
    {out : Output χ} (hs : server.sessions.sessions fd = some session)
    (h : Step sha256 server (.ready fd (some buffer) chatResult responseResult) out next) :
    (∃ response vector, out.response = some response ∧
      (response = .success ⟨⟩ ∨ ∃ text, response = failure text) ∧
      out.replied = some ⟨session.channel, response.message, some vector, responseResult⟩ ∧
      response.message.encode <+: vector.bytes) ∧
    ∀ delivery vector, out.forwarded = some delivery → delivery.vector = some vector →
      ∃ chat, (Response.receiveChat chat).message.encode <+: vector.bytes := by
  have heffect := effect_of_step h
  refine ⟨?_, ?_⟩
  · cases heffect with
    | ignored absent =>
      rw [hs] at absent
      cases absent
    | @answered _ session' _ _ _ handled present answer =>
      have hsame : session' = session := Option.some.inj (present.symm.trans hs)
      rw [hsame]
      have hfits : (handled.server.sendResponse session.channel handled.response.message responseResult).2.2 = _ :=
        sendResponse_fits session.channel responseResult answer.response_fits
      refine ⟨handled.response, _, rfl, ?_, congrArg some hfits, ?_⟩
      · rcases answer.response_cases with hsuccess | ⟨text, _, hfailure⟩
        · exact Or.inl hsuccess
        · exact Or.inr ⟨text, hfailure⟩
      · exact vector_of_sendResponse (congrArg Delivery.vector hfits)
  · intro delivery vector hforward hvector
    obtain ⟨_, _, _, _, m, sender, _, _, _, _, _, _, _, _, hdelivery⟩ := forwarded_of_effect heffect hforward
    rw [hdelivery] at hvector
    have hprefix := vector_of_sendResponse hvector
    exact ⟨⟨sender.username, m.content⟩, hprefix⟩

end Server

namespace Network

variable {ι : Type} {trace : List (Action ι × Observation ι)}

/-- Steps other than a `Receive` that fails. -/
def staysConnected : Action ι → Bool
  | .disconnect _ => false
  | _ => true

/-- The entry is not about a request of `client`: none is sent, handled or answered. -/
def Quiet (client : ι) : Action ι × Observation ι → Prop
  | (.sendRequest k _ _, _) => k ≠ client
  | (.serve _ _ _, .served k _ _) => k ≠ client
  | (.receive k, .received result) => k ≠ client ∨ result = none
  | _ => True

/-- The last request of `client` was put into `vector` and sent, and nothing came of it yet. -/
def SentLast (trace : List (Action ι × Observation ι)) (client : ι) (request : Message) (vector : MessageBuffer) :
    Prop :=
  ∃ before result after,
    trace = before ++ (.sendRequest client request result, .sent (.ok vector)) :: after ∧
    ∀ entry ∈ after, Quiet client entry

/-- The last request of `client` was sent, and `response` is what the server made of it. -/
def AnsweredLast (trace : List (Action ι × Observation ι)) (client : ι) (request : Message)
    (response : Response) : Prop :=
  ∃ before result vector middle fd chatResult responseResult out after,
    trace = before ++ (.sendRequest client request result, .sent (.ok vector)) ::
      (middle ++ (.serve fd chatResult responseResult, .served client vector out) :: after) ∧
    request.encode <+: vector.bytes ∧ out.response = some response ∧
    ∀ entry ∈ middle ++ after, Quiet client entry

/-- Vectors that hold forwarded chats. -/
def Chats (vectors : List MessageBuffer) : Prop :=
  ∀ vector ∈ vectors, ∃ chat, (Response.receiveChat chat).message.encode <+: vector.bytes

/-- Where the exchange of a client with the server stands. -/
inductive Phase (trace : List (Action ι × Observation ι)) (client : ι) : Peer → Prop
  | idle {c toClient} (chats : Chats toClient) : Phase trace client ⟨c, none, [], toClient⟩
  | asked {c request vector toClient} (chats : Chats toClient) (sent : SentLast trace client request vector)
      (holds : request.encode <+: vector.bytes) : Phase trace client ⟨c, some request, [vector], toClient⟩
  | lost {c request toClient} (chats : Chats toClient) : Phase trace client ⟨c, some request, [], toClient⟩
  | answered {c request vector response before after} (earlier : Chats before) (later : Chats after)
      (answer : response = .success ⟨⟩ ∨ ∃ text, response = Server.failure text)
      (holds : response.message.encode <+: vector.bytes)
      (paired : AnsweredLast trace client request response) :
      Phase trace client ⟨c, some request, [], before ++ vector :: after⟩

theorem SentLast.later {client : ι} {request : Message} {vector : MessageBuffer}
    {entry : Action ι × Observation ι} (h : SentLast trace client request vector) (hquiet : Quiet client entry) :
    SentLast (trace ++ [entry]) client request vector := by
  obtain ⟨before, result, after, htrace, hafter⟩ := h
  refine ⟨before, result, after ++ [entry], by rw [htrace]; simp, ?_⟩
  intro other hother
  rcases List.mem_append.mp hother with hold | hnew
  · exact hafter other hold
  · rw [List.mem_singleton.mp hnew]
    exact hquiet

theorem AnsweredLast.later {client : ι} {request : Message} {response : Response}
    {entry : Action ι × Observation ι} (h : AnsweredLast trace client request response)
    (hquiet : Quiet client entry) : AnsweredLast (trace ++ [entry]) client request response := by
  obtain ⟨before, result, vector, middle, fd, chatResult, responseResult, out, after, htrace, hholds, hout,
    hothers⟩ := h
  refine ⟨before, result, vector, middle, fd, chatResult, responseResult, out, after ++ [entry],
    by rw [htrace]; simp, hholds, hout, ?_⟩
  intro other hother
  rw [← List.append_assoc] at hother
  rcases List.mem_append.mp hother with hold | hnew
  · exact hothers other hold
  · rw [List.mem_singleton.mp hnew]
    exact hquiet

theorem SentLast.answered {client : ι} {request : Message} {vector : MessageBuffer} {response : Response}
    {fd chatResult responseResult : Int} {out : Output ι} (h : SentLast trace client request vector)
    (hholds : request.encode <+: vector.bytes) (hout : out.response = some response) :
    AnsweredLast (trace ++ [(.serve fd chatResult responseResult, .served client vector out)]) client request
      response := by
  obtain ⟨before, result, after, htrace, hafter⟩ := h
  refine ⟨before, result, vector, after, fd, chatResult, responseResult, out, [], by rw [htrace]; simp, hholds,
    hout, ?_⟩
  intro other hother
  rw [List.append_nil] at hother
  exact hafter other hother

theorem Chats.append {first second : List MessageBuffer} (h : Chats first) (h' : Chats second) :
    Chats (first ++ second) := by
  intro vector hvector
  rcases List.mem_append.mp hvector with hfirst | hsecond
  · exact h vector hfirst
  · exact h' vector hsecond

theorem Phase.later {client : ι} {peer : Peer} {entry : Action ι × Observation ι}
    (h : Phase trace client peer) (hquiet : Quiet client entry) : Phase (trace ++ [entry]) client peer := by
  cases h with
  | idle chats => exact .idle chats
  | asked chats sent holds => exact .asked chats (sent.later hquiet) holds
  | lost chats => exact .lost chats
  | answered earlier later answer holds paired =>
    exact .answered earlier later answer holds (paired.later hquiet)

/-- More chats on the way to a client change nothing. -/
theorem Phase.deliver {client : ι} {peer : Peer} {extra : List MessageBuffer} (h : Phase trace client peer)
    (hextra : Chats extra) : Phase trace client { peer with toClient := peer.toClient ++ extra } := by
  cases h with
  | idle chats => exact .idle (chats.append hextra)
  | asked chats sent holds => exact .asked (chats.append hextra) sent holds
  | lost chats => exact .lost (chats.append hextra)
  | @answered c request vector response before after earlier later answer holds paired =>
    have hqueue : before ++ vector :: after ++ extra = before ++ vector :: (after ++ extra) := by simp
    dsimp only
    rw [hqueue]
    exact .answered earlier (later.append hextra) answer holds paired

theorem Phase.of_idle {client : ι} {peer : Peer} (h : Phase trace client peer) (idle : peer.waiting = none) :
    peer.toServer = [] ∧ Chats peer.toClient := by
  cases h with
  | idle chats => exact ⟨rfl, chats⟩
  | asked => cases idle
  | lost => cases idle
  | answered => cases idle

variable [DecidableEq ι] {sha256 : List UInt8 → Digest} {net next : Network ι}

theorem chats_arrivals {delivery : Option (Delivery ι)} {client : ι}
    (h : ∀ d vector, delivery = some d → d.vector = some vector →
      ∃ chat, (Response.receiveChat chat).message.encode <+: vector.bytes) : Chats (arrivals delivery client) := by
  intro vector hvector
  obtain ⟨d, hd, _, hv⟩ := mem_arrivals hvector
  exact h d vector hd hv

/-- The handling of a request of `k`, as another client sees it. -/
theorem phase_served_ne {client k : ι} {fd chatResult responseResult : Int} {buffer : MessageBuffer}
    {rest : List MessageBuffer} {out : Output ι} {reply : Delivery ι} (hne : client ≠ k)
    (h : Phase trace client (net.peers client)) (hreply : out.replied = some reply) (hchannel : reply.channel = k)
    (hforward : ∀ d vector, out.forwarded = some d → d.vector = some vector →
      ∃ chat, (Response.receiveChat chat).message.encode <+: vector.bytes) :
    Phase (trace ++ [(.serve fd chatResult responseResult, .served k buffer out)]) client
      (deliver (deliver (takeRequest net.peers k rest) out.forwarded) out.replied client) := by
  have hnone : arrivals out.replied client = [] := by
    refine List.eq_nil_iff_forall_not_mem.mpr ?_
    intro vector hvector
    obtain ⟨d, hd, hc, _⟩ := mem_arrivals hvector
    have hsame : reply = d := Option.some.inj (hreply.symm.trans hd)
    rw [← hsame, hchannel] at hc
    exact hne hc.symm
  have htake : takeRequest net.peers k rest client = net.peers client := Function.update_of_ne hne _ _
  rw [deliver_apply, deliver_apply, hnone, htake]
  dsimp only
  rw [List.append_nil]
  have hquiet : Quiet client (.serve fd chatResult responseResult, .served k buffer out) := Ne.symm hne
  exact (h.later hquiet).deliver (chats_arrivals hforward)

/-- The handling of a client's own request. -/
theorem phase_served {client : ι} {fd chatResult responseResult : Int} {buffer vector : MessageBuffer}
    {rest : List MessageBuffer} {out : Output ι} {response : Response}
    (h : Phase trace client (net.peers client)) (hqueue : (net.peers client).toServer = buffer :: rest)
    (hout : out.response = some response)
    (hanswer : response = .success ⟨⟩ ∨ ∃ text, response = Server.failure text)
    (hreply : out.replied = some ⟨client, response.message, some vector, responseResult⟩)
    (hholds : response.message.encode <+: vector.bytes)
    (hforward : ∀ d vector, out.forwarded = some d → d.vector = some vector →
      ∃ chat, (Response.receiveChat chat).message.encode <+: vector.bytes) :
    Phase (trace ++ [(.serve fd chatResult responseResult, .served client buffer out)]) client
      (deliver (deliver (takeRequest net.peers client rest) out.forwarded) out.replied client) := by
  have htake : takeRequest net.peers client rest client = { net.peers client with toServer := rest } :=
    Function.update_self _ _ _
  rw [deliver_apply, deliver_apply, htake, hreply]
  generalize net.peers client = peer at h hqueue
  have hchats : Chats (arrivals out.forwarded client) := chats_arrivals hforward
  cases h with
  | idle => cases hqueue
  | lost => cases hqueue
  | answered => cases hqueue
  | @asked c request sent toClient chats hsent hrequest =>
    cases hqueue
    by_cases hresult : responseResult > 0
    · have harrival : arrivals (some (⟨client, response.message, some vector, responseResult⟩ : Delivery ι))
          client = [vector] := if_pos ⟨hresult, rfl⟩
      dsimp only
      rw [harrival]
      have hnone : Chats [] := by
        intro v hv
        cases hv
      exact .answered (chats.append hchats) hnone hanswer hholds (hsent.answered hrequest hout)
    · have harrival : arrivals (some (⟨client, response.message, some vector, responseResult⟩ : Delivery ι))
          client = [] := if_neg fun hboth => hresult hboth.1
      dsimp only
      rw [harrival, List.append_nil]
      exact .lost (chats.append hchats)

omit [DecidableEq ι] in
/-- A client that waits takes the next vector off its channel. -/
theorem phase_received {client : ι} {request : Message} {buffer : MessageBuffer} {rest : List MessageBuffer}
    {after : Client} {result : Option (Except RequestError Response)}
    (h : Phase trace client (net.peers client)) (hwaits : (net.peers client).waiting = some request)
    (hqueue : (net.peers client).toClient = buffer :: rest)
    (houtcome : (net.peers client).client.getResponse (some buffer) = .ok (after, result)) :
    Phase (trace ++ [(.receive client, .received result)]) client
        ⟨after, if result.isSome then none else some request, (net.peers client).toServer, rest⟩ ∧
      ∀ response, result = some (.ok response) → AnsweredLast trace client request response ∧ Chats rest := by
  have hskipped : ∀ {vectors : List MessageBuffer}, Chats (buffer :: vectors) → result = none ∧ Chats vectors := by
    intro vectors chats
    obtain ⟨chat, hprefix⟩ := chats buffer (List.mem_cons_self ..)
    rw [Client.getResponse_chat hprefix] at houtcome
    exact ⟨(Prod.mk.inj (Except.ok.inj houtcome)).2.symm, fun v hv => chats v (List.mem_cons_of_mem _ hv)⟩
  -- a chat leaves the exchange where it is
  have hquiet : result = none → Quiet client ((.receive client, .received result) : Action ι × Observation ι) :=
    fun hnone => Or.inr hnone
  generalize net.peers client = peer at h hwaits hqueue houtcome
  cases h with
  | idle => cases hwaits
  | asked chats sent holds =>
    cases hwaits
    cases hqueue
    obtain ⟨rfl, hrest⟩ := hskipped chats
    exact ⟨.asked hrest (sent.later (hquiet rfl)) holds, fun response hresponse => by cases hresponse⟩
  | lost chats =>
    cases hwaits
    cases hqueue
    obtain ⟨rfl, hrest⟩ := hskipped chats
    exact ⟨.lost hrest, fun response hresponse => by cases hresponse⟩
  | @answered c sent vector response before late earlier later answer holds paired =>
    cases hwaits
    cases before with
    | nil =>
      cases hqueue
      have hresult : result = some (.ok response) := by
        rcases answer with hsuccess | ⟨text, hfailure⟩
        · subst hsuccess
          rw [Client.getResponse_success holds] at houtcome
          exact (Prod.mk.inj (Except.ok.inj houtcome)).2.symm
        · subst hfailure
          rw [Client.getResponse_failure holds] at houtcome
          exact (Prod.mk.inj (Except.ok.inj houtcome)).2.symm
      subst hresult
      refine ⟨.idle later, ?_⟩
      intro response' hresponse'
      cases hresponse'
      exact ⟨paired, later⟩
    | cons first before =>
      cases hqueue
      obtain ⟨rfl, hbefore⟩ := hskipped earlier
      exact ⟨.answered hbefore later answer holds (paired.later (hquiet rfl)),
        fun response hresponse => by cases hresponse⟩

/-- What happens at another client. -/
theorem phase_other {client k : ι} {entry : Action ι × Observation ι} (peer : Peer) (hne : client ≠ k)
    (h : Phase trace client (net.peers client)) (hquiet : Quiet client entry) :
    Phase (trace ++ [entry]) client (Function.update net.peers k peer client) := by
  rw [Function.update_of_ne hne]
  exact h.later hquiet

omit [DecidableEq ι] in
theorem phase_sent {client : ι} {request : Message} {result : Int} {vector : MessageBuffer} {after : Client}
    (h : Phase trace client (net.peers client)) (idle : (net.peers client).waiting = none)
    (outcome : (net.peers client).client.sendRequest request result = (.ok vector, after)) :
    Phase (trace ++ [(.sendRequest client request result, .sent (.ok vector))]) client ⟨after, some request,
      if result > 0 then (net.peers client).toServer ++ [vector] else (net.peers client).toServer,
      (net.peers client).toClient⟩ := by
  obtain ⟨hqueue, chats⟩ := h.of_idle idle
  have hsent : SentLast (trace ++ [(.sendRequest client request result, .sent (.ok vector))]) client request
      vector := by
    refine ⟨trace, result, [], rfl, ?_⟩
    intro entry hentry
    cases hentry
  rw [hqueue]
  by_cases hresult : result > 0
  · rw [if_pos hresult]
    exact .asked chats hsent (Client.sendRequest_holds outcome)
  · rw [if_neg hresult]
    exact .lost chats

theorem phase_move {action : Action ι} {seen : Observation ι} (client : ι)
    (h : ∀ k, Phase trace k (net.peers k)) (hstays : staysConnected action = true)
    (hmove : Move sha256 net action seen next) : Phase (trace ++ [(action, seen)]) client (next.peers client) := by
  cases hmove with
  | accepted => exact (h client).later trivial
  | closed => exact (h client).later trivial
  | @served fd chatResult responseResult session buffer rest server out present queue step =>
    obtain ⟨⟨response, vector, hout, hanswer, hreply, hholds⟩, hforward⟩ := Server.served_of_step present step
    by_cases hclient : client = session.channel
    · subst hclient
      exact phase_served (h _) queue hout hanswer hreply hholds hforward
    · exact phase_served_ne hclient (h client) hreply rfl hforward
  | @refused k request result error after idle =>
    by_cases hclient : client = k
    · subst hclient
      obtain ⟨hqueue, chats⟩ := (h client).of_idle idle
      dsimp only
      rw [Function.update_self, idle, hqueue]
      exact .idle chats
    · exact phase_other _ hclient (h client) (Ne.symm hclient)
  | @sent k request result vector after idle outcome =>
    by_cases hclient : client = k
    · subst hclient
      dsimp only
      rw [Function.update_self]
      exact phase_sent (h client) idle outcome
    · exact phase_other _ hclient (h client) (Ne.symm hclient)
  | @received k request buffer rest after result waits queue outcome =>
    by_cases hclient : client = k
    · subst hclient
      dsimp only
      rw [Function.update_self]
      exact (phase_received (h client) waits queue outcome).1
    · exact phase_other _ hclient (h client) (Or.inl (Ne.symm hclient))
  | disconnected => cases hstays
  | @unread k idle =>
    by_cases hclient : client = k
    · subst hclient
      obtain ⟨hqueue, chats⟩ := (h client).of_idle idle
      dsimp only
      rw [Function.update_self, idle, hqueue]
      exact .idle chats
    · exact phase_other _ hclient (h client) trivial

theorem phase_of_run
    (run : Run (Guarded (fun _ action => staysConnected action = true) (Step sha256)) init trace net) (client : ι) :
    Phase trace client (net.peers client) := by
  have hall : ∀ k, Phase trace k (net.peers k) := by
    refine run.history (P := fun trace n => ∀ k, Phase trace k (n.peers k)) ?_ ?_
    · intro k
      have hnone : Chats [] := by
        intro vector hvector
        cases hvector
      exact .idle hnone
    · intro trace n action seen n' _ ih hstep k
      exact phase_move k ih hstep.1 (move_of_step hstep.2)
  exact hall client

/-- A response that `SendRequest` returns is the answer to its request, and no other answer is
on its way to the client. -/
theorem responses_pair {client : ι} {response : Response}
    (run : Run (Guarded (fun _ action => staysConnected action = true) (Step sha256)) init trace net)
    (hstep : Step sha256 net (.receive client) (.received (some (.ok response))) next) :
    ∃ request, (net.peers client).waiting = some request ∧ AnsweredLast trace client request response ∧
      ∀ vector ∈ (next.peers client).toClient, ∀ m : Message, m.type = .success ∨ m.type = .failure →
        ¬m.encode <+: vector.bytes := by
  have hmove := move_of_step hstep
  cases hmove with
  | @received _ request buffer rest after result waits queue outcome =>
    obtain ⟨hpaired, hchats⟩ := (phase_received (phase_of_run run client) waits queue outcome).2 response rfl
    refine ⟨request, waits, hpaired, ?_⟩
    intro vector hvector m htype hprefix
    dsimp only at hvector
    rw [Function.update_self] at hvector
    obtain ⟨chat, hchat⟩ := hchats vector hvector
    have hsame := Message.encode_prefix_inj hprefix hchat
    rw [hsame] at htype
    rcases htype with htype | htype
    · cases htype
    · cases htype

/-- The response that a `Receive` of the client makes `SendRequest` return. -/
def returned (net : Network ι) (client : ι) : Option Response :=
  match net.act Server.paddedDigest (.receive client) with
  | some (.received (some (.ok response)), _) => some response
  | _ => none

theorem step_of_returned {client : ι} {response : Response} (h : returned net client = some response) :
    ∃ next, Step Server.paddedDigest net (.receive client) (.received (some (.ok response))) next := by
  unfold returned at h
  split at h
  next response' next hact =>
    cases h
    exact ⟨next, hact⟩
  next => cases h

/-- A chat comes in between the ping of a client and its answer. -/
def interruptedRun : List (Action Nat) :=
  bothLogIn ++
    [.sendRequest 1 (Request.sendChat ⟨Server.alice.username, Server.alice.username⟩).message 1,
      .sendRequest 0 (Request.ping ⟨⟩).message 1, .serve 6 1 1, .serve 5 1 1, .receive 0]

theorem responses_pair_interruptedRun : ∃ trace net next request,
    Run (Guarded (fun _ action => staysConnected action = true) (Step Server.paddedDigest)) (init : Network Nat)
      trace net ∧
    Step Server.paddedDigest net (.receive 0) (.received (some (.ok (.success ⟨⟩)))) next ∧
    AnsweredLast trace 0 request (.success ⟨⟩) := by
  obtain ⟨trace, net, run, hgood⟩ := reaches_of_execute Server.paddedDigest staysConnected interruptedRun
    (fun _ net => returned net 0 == some (.success ⟨⟩)) (by decide +kernel)
  obtain ⟨next, hstep⟩ := step_of_returned (beq_iff_eq.mp hgood)
  obtain ⟨request, _, hpaired, _⟩ := responses_pair run hstep
  exact ⟨trace, net, next, request, run, hstep, hpaired⟩

end Network

end SecureMessaging
