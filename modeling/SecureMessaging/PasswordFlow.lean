import SecureMessaging.Network
import SecureMessaging.TwoServers

namespace SecureMessaging

def Request.credentials : Request → Option (ByteString × ByteString)
  | .login m => some (m.username, m.password)
  | .register m => some (m.username, m.password)
  | _ => none

theorem encode_credentials {request : Request} {u p : ByteString} (h : request.credentials = some (u, p)) :
    request.message.encode = (messageWrites request.message.type.typeId [u, p]).flatten := by
  cases request with
  | login m =>
    obtain ⟨rfl, rfl⟩ := Prod.mk.inj (Option.some.inj h)
    rfl
  | register m =>
    obtain ⟨rfl, rfl⟩ := Prod.mk.inj (Option.some.inj h)
    rfl
  | ping | sendChat => cases h

theorem withoutPassword_type (request : Request) : request.withoutPassword.message.type = request.message.type := by
  cases request <;> rfl

/-- Two requests that differ in the password only have the same bytes in front of it. -/
theorem encode_front {request request' : Request} {u p p' : ByteString}
    (h : request.credentials = some (u, p)) (h' : request'.credentials = some (u, p'))
    (hsame : request.withoutPassword = request'.withoutPassword) (hlen : p.data.length = p'.data.length) :
    ∃ front : List UInt8, front.length = 17 + u.data.length ∧
      request.message.encode = front ++ p.data ∧ request'.message.encode = front ++ p'.data := by
  have hsize : p'.size = p.size := by
    apply UInt64.toNat_inj.mp
    rw [ByteString.size_toNat, ByteString.size_toNat, hlen]
  have htype : request'.message.type = request.message.type := by
    rw [← withoutPassword_type request, ← withoutPassword_type request', hsame]
  refine ⟨request.message.type.typeId :: (hostBytes u.size ++ u.data ++ hostBytes p.size), ?_, ?_, ?_⟩
  · simp only [List.length_cons, List.length_append, hostBytes_length]
    omega
  · rw [encode_credentials h]
    simp [messageWrites, fieldWrites]
  · rw [encode_credentials h', htype]
    simp [messageWrites, fieldWrites, hsize]

/-- What a buffer holds as a request is decided by any message it starts with. -/
theorem requestIn_congr {m : Message} {buffer buffer' : MessageBuffer} (h : m.encode <+: buffer.bytes)
    (h' : m.encode <+: buffer'.bytes) : Server.requestIn buffer = Server.requestIn buffer' := by
  have hone : ∀ b : MessageBuffer, m.encode <+: b.bytes → ∀ request,
      Server.requestIn b = some request ↔ request.message = m := by
    intro b hb request
    rw [Server.requestIn_iff]
    constructor
    · intro hrequest
      exact Message.encode_prefix_inj hrequest hb
    · intro hrequest
      rw [hrequest]
      exact hb
  apply Option.ext
  intro request
  rw [hone buffer h, hone buffer' h']

/-- How far the buffer of a client and the vectors on its channel were overwritten from
the front since the secret was put into a buffer. -/
structure Cover where
  buffer : Nat
  toServer : List Nat
  toClient : List Nat

namespace Cover

def all (level : Nat) : Cover := ⟨level, [], []⟩

def wrote (cover : Cover) (level : Nat) (sent : Bool) : Cover :=
  ⟨level, if sent then cover.toServer ++ [level] else cover.toServer, cover.toClient⟩

end Cover

structure AlikePeers (offset : Nat) (secret secret' : List UInt8) (cover : Cover) (peer peer' : Peer) : Prop where
  buffer : Residue offset secret secret' cover.buffer peer.client.messageBuffer.bytes
    peer'.client.messageBuffer.bytes
  toServer : List.Forall₃ (fun level (vector vector' : MessageBuffer) =>
    Residue offset secret secret' level vector.bytes vector'.bytes ∧
      (Server.requestIn vector).map Request.withoutPassword = (Server.requestIn vector').map Request.withoutPassword)
    cover.toServer peer.toServer peer'.toServer
  toClient : List.Forall₃ (fun level (vector vector' : MessageBuffer) =>
    Residue offset secret secret' level vector.bytes vector'.bytes) cover.toClient peer.toClient peer'.toClient

namespace Network

variable {ι : Type} [DecidableEq ι] {sha256 : List UInt8 → Digest} {net net' next next' : Network ι}
  {offset : Nat} {secret secret' : List UInt8} {covers : ι → Cover}

/-- The vectors behind the front of the queue move up, and a new one is as well covered as the server's buffer. -/
def coversNext (covers : ι → Cover) : Action ι × Observation ι → ι → Cover
  | (.sendRequest client request result, .sent outcome) =>
    Function.update covers client ((covers client).wrote (max (covers client).buffer request.written)
      (outcome.isOk && decide (result > 0)))
  | (.serve _ _ _, .served client _ out) =>
    let cover := (covers client).toServer.headD 0
    let behind := coverAfter cover out.forwarded
    let taken := Function.update covers client { covers client with toServer := (covers client).toServer.tail }
    fun k => { taken k with toClient := (taken k).toClient ++ (arrivals out.forwarded k).map (fun _ => behind) ++
      (arrivals out.replied k).map fun _ => coverAfter behind out.replied }
  | (.receive client, _) =>
    Function.update covers client
      ⟨(covers client).toClient.headD 0, (covers client).toServer, (covers client).toClient.tail⟩
  | _ => covers

def answered : Observation ι → Option Response
  | .served _ _ out => out.response
  | _ => none

/-- What an observer of the events, the requests and the responses sees. -/
def visible (entry : Action ι × Observation ι) : Action ι × Option Response := (entry.1, answered entry.2)

structure Alike (offset : Nat) (secret secret' : List UInt8) (covers : ι → Cover) (net net' : Network ι) : Prop where
  sessions : net.server.sessions = net'.server.sessions
  peers : ∀ k, AlikePeers offset secret secret' (covers k) (net.peers k) (net'.peers k)

theorem alike_update {covers : ι → Cover} {peers peers' : ι → Peer} {client : ι} {cover : Cover} {peer peer' : Peer}
    (h : ∀ k, AlikePeers offset secret secret' (covers k) (peers k) (peers' k))
    (hone : AlikePeers offset secret secret' cover peer peer') (k : ι) :
    AlikePeers offset secret secret' (Function.update covers client cover k) (Function.update peers client peer k)
      (Function.update peers' client peer' k) := by
  by_cases hk : k = client
  · rw [hk, Function.update_self, Function.update_self, Function.update_self]
    exact hone
  · rw [Function.update_of_ne hk, Function.update_of_ne hk, Function.update_of_ne hk]
    exact h k

/-- The same when nothing is written into a buffer. -/
theorem alike_keep {covers : ι → Cover} {peers peers' : ι → Peer} {client : ι} {peer peer' : Peer}
    (h : ∀ k, AlikePeers offset secret secret' (covers k) (peers k) (peers' k))
    (hone : AlikePeers offset secret secret' (covers client) peer peer') (k : ι) :
    AlikePeers offset secret secret' (covers k) (Function.update peers client peer k)
      (Function.update peers' client peer' k) := by
  have hk : AlikePeers offset secret secret' (Function.update covers client (covers client) k)
      (Function.update peers client peer k) (Function.update peers' client peer' k) := alike_update h hone k
  rw [Function.update_eq_self] at hk
  exact hk

theorem wrote_alike {cover : Cover} {peer peer' : Peer} {level : Nat} {after after' : Client}
    {vector vector' : MessageBuffer} {waiting waiting' : Option Message} (result : Int)
    (h : AlikePeers offset secret secret' cover peer peer')
    (hbuffer : Residue offset secret secret' level after.messageBuffer.bytes after'.messageBuffer.bytes)
    (hvector : Residue offset secret secret' level vector.bytes vector'.bytes)
    (hrequest : (Server.requestIn vector).map Request.withoutPassword =
      (Server.requestIn vector').map Request.withoutPassword) :
    AlikePeers offset secret secret' (cover.wrote level (decide (result > 0)))
      ⟨after, waiting, if result > 0 then peer.toServer ++ [vector] else peer.toServer, peer.toClient⟩
      ⟨after', waiting', if result > 0 then peer'.toServer ++ [vector'] else peer'.toServer, peer'.toClient⟩ := by
  refine ⟨hbuffer, ?_, h.toClient⟩
  by_cases hresult : result > 0
  · have hsent := decide_eq_true hresult
    rw [Cover.wrote, if_pos hresult, if_pos hresult, if_pos hsent]
    exact h.toServer.append (.cons ⟨hvector, hrequest⟩ .nil)
  · have hsent : ¬decide (result > 0) = true := by simpa using hresult
    rw [Cover.wrote, if_neg hresult, if_neg hresult, if_neg hsent]
    exact h.toServer

theorem arrivals_alike {cover : Nat} {delivery delivery' : Option (Delivery ι)}
    (h : AlikeSends offset secret secret' cover delivery delivery') (k : ι) :
    List.Forall₃ (fun level (vector vector' : MessageBuffer) =>
        Residue offset secret secret' level vector.bytes vector'.bytes)
      ((arrivals delivery k).map fun _ => coverAfter cover delivery) (arrivals delivery k) (arrivals delivery' k) := by
  cases h with
  | none => exact .nil
  | @some d d' alike =>
    obtain ⟨channel, message, vector, result⟩ := d
    obtain ⟨channel', message', vector', result'⟩ := d'
    obtain ⟨hchannel, _, hresult, hvector⟩ := alike
    dsimp only at hchannel hresult hvector
    subst hchannel hresult
    rcases hvector with ⟨hnone, hnone'⟩ | ⟨sent, sent', hsent, hsent', hresidue⟩
    · subst hnone hnone'
      exact .nil
    · subst hsent hsent'
      unfold arrivals
      dsimp only
      split
      next => exact .cons hresidue .nil
      next => exact .nil

theorem served_alike {client : ι} {buffer buffer' : MessageBuffer} {rest rest' : List MessageBuffer}
    {out out' : Output ι} (h : ∀ k, AlikePeers offset secret secret' (covers k) (net.peers k) (net'.peers k))
    (hqueue : (net.peers client).toServer = buffer :: rest) (hqueue' : (net'.peers client).toServer = buffer' :: rest')
    (hforward : AlikeSends offset secret secret' ((covers client).toServer.headD 0) out.forwarded out'.forwarded)
    (hreply : AlikeSends offset secret secret' (coverAfter ((covers client).toServer.headD 0) out.forwarded)
      out.replied out'.replied) {fd chatResult responseResult : Int} (k : ι) :
    AlikePeers offset secret secret'
      (coversNext covers (.serve fd chatResult responseResult, .served client buffer out) k)
      (deliver (deliver (takeRequest net.peers client rest) out.forwarded) out.replied k)
      (deliver (deliver (takeRequest net'.peers client rest') out'.forwarded) out'.replied k) := by
  have htail : AlikePeers offset secret secret' { covers client with toServer := (covers client).toServer.tail }
      { net.peers client with toServer := rest } { net'.peers client with toServer := rest' } := by
    obtain ⟨hbuffer, htoServer, htoClient⟩ := h client
    rw [hqueue, hqueue'] at htoServer
    obtain ⟨level, levels, hlevels, _, hrest⟩ := htoServer.of_cons
    rw [hlevels]
    exact ⟨hbuffer, hrest, htoClient⟩
  obtain ⟨hbuffer, htoServer, htoClient⟩ := alike_update h htail k
  rw [deliver_apply, deliver_apply, deliver_apply, deliver_apply]
  refine ⟨hbuffer, htoServer, ?_⟩
  exact (htoClient.append (arrivals_alike hforward k)).append (arrivals_alike hreply k)

/-- The same request, put into the buffers of both runs. -/
theorem sendRequest_alike {client client' after after' : Client} {request : Message} {result : Int} {cover : Nat}
    {outcome outcome' : Except RequestError MessageBuffer}
    (hres : Residue offset secret secret' cover client.messageBuffer.bytes client'.messageBuffer.bytes)
    (h : client.sendRequest request result = (outcome, after))
    (h' : client'.sendRequest request result = (outcome', after')) :
    Residue offset secret secret' (max cover request.written) after.messageBuffer.bytes after'.messageBuffer.bytes ∧
      ((∃ error error', outcome = .error error ∧ outcome' = .error error') ∨
      ∃ vector vector', outcome = .ok vector ∧ outcome' = .ok vector' ∧
        Residue offset secret secret' (max cover request.written) vector.bytes vector'.bytes ∧
        Server.requestIn vector = Server.requestIn vector') := by
  have hresidue := serialize_residue request hres
  rcases client.sendRequest_cases request result with ⟨hfits, hresult, hsend⟩ | ⟨hno, error, hsend⟩
  · rcases client'.sendRequest_cases request result with ⟨_, _, hsend'⟩ | ⟨hno', _, _⟩
    · obtain ⟨houtcome, hafter⟩ := Prod.mk.inj (hsend.symm.trans h)
      obtain ⟨houtcome', hafter'⟩ := Prod.mk.inj (hsend'.symm.trans h')
      have hholds := Client.sendRequest_holds hsend
      have hholds' := Client.sendRequest_holds hsend'
      rw [← hafter, ← hafter', ← houtcome, ← houtcome']
      exact ⟨hresidue, Or.inr ⟨_, _, rfl, rfl, hresidue, requestIn_congr hholds hholds'⟩⟩
    · exact absurd ⟨hfits, hresult⟩ hno'
  · rcases client'.sendRequest_cases request result with ⟨hfits, hresult, _⟩ | ⟨_, error', hsend'⟩
    · exact absurd ⟨hfits, hresult⟩ hno
    · obtain ⟨houtcome, hafter⟩ := Prod.mk.inj (hsend.symm.trans h)
      obtain ⟨houtcome', hafter'⟩ := Prod.mk.inj (hsend'.symm.trans h')
      rw [← hafter, ← hafter', ← houtcome, ← houtcome']
      exact ⟨hresidue, Or.inl ⟨error, error', rfl, rfl⟩⟩

omit [DecidableEq ι] in
/-- In both runs the server looks at the same session, and takes alike requests off its channel. -/
theorem front_alike {fd : Int} {session session' : Session ι} {buffer buffer' : MessageBuffer}
    {rest rest' : List MessageBuffer} (h : Alike offset secret secret' covers net net')
    (present : net.server.sessions.sessions fd = some session)
    (present' : net'.server.sessions.sessions fd = some session')
    (queue : (net.peers session.channel).toServer = buffer :: rest)
    (queue' : (net'.peers session'.channel).toServer = buffer' :: rest') :
    session = session' ∧
      Residue offset secret secret' ((covers session.channel).toServer.headD 0) buffer.bytes buffer'.bytes ∧
      (Server.requestIn buffer).map Request.withoutPassword =
        (Server.requestIn buffer').map Request.withoutPassword := by
  have hsession : session = session' := by
    rw [← h.sessions, present] at present'
    exact Option.some.inj present'
  subst hsession
  have htoServer := (h.peers session.channel).toServer
  rw [queue, queue'] at htoServer
  obtain ⟨level, levels, hlevels, hfront, _⟩ := htoServer.of_cons
  rw [hlevels]
  exact ⟨rfl, hfront⟩

theorem alike_step {action : Action ι} {seen seen' : Observation ι} (h : Alike offset secret secret' covers net net')
    (hstep : Step sha256 net action seen next) (hstep' : Step sha256 net' action seen' next')
    (hsame : visible (action, seen) = visible (action, seen')) :
    Alike offset secret secret' (coversNext covers (action, seen)) next next' := by
  have hsessions := h.sessions
  have hpeers := h.peers
  have hmove := move_of_step hstep
  have hmove' := move_of_step hstep'
  cases hmove with
  | accepted step =>
    cases hmove' with
    | accepted step' => exact ⟨Server.accept_alike hsessions step step', hpeers⟩
  | closed step =>
    cases hmove' with
    | closed step' => exact ⟨Server.close_alike hsessions step step', hpeers⟩
  | @served fd chatResult responseResult session buffer rest server out present queue step =>
    cases hmove' with
    | @served _ _ _ session' buffer' rest' server' out' present' queue' step' =>
      obtain ⟨rfl, hresidue, hrequest⟩ := front_alike h present present' queue queue'
      obtain ⟨hforward, hthen⟩ := Server.ready_alike hsessions present hrequest hresidue step step'
      have hresponse : out.response = out'.response := (Prod.mk.inj hsame).2
      obtain ⟨hnext, hreply⟩ := hthen hresponse
      exact ⟨hnext, served_alike hpeers queue queue' hforward hreply⟩
  | @sent client request result vector after idle outcome =>
    cases hmove' with
    | @refused _ _ _ error after' idle' outcome' =>
      rcases (sendRequest_alike (hpeers client).buffer outcome outcome').2 with
        ⟨_, _, hok, _⟩ | ⟨_, _, _, herror, _⟩
      · cases hok
      · cases herror
    | @sent _ _ _ vector' after' idle' outcome' =>
      obtain ⟨hbuffer, hvectors⟩ := sendRequest_alike (hpeers client).buffer outcome outcome'
      refine ⟨hsessions, alike_update hpeers ?_⟩
      rcases hvectors with ⟨_, _, hok, _⟩ | ⟨_, _, hok, hok', hresidue, hrequest⟩
      · cases hok
      · cases hok
        cases hok'
        exact wrote_alike result (hpeers client) hbuffer hresidue (congrArg _ hrequest)
  | @refused client request result error after idle outcome =>
    cases hmove' with
    | @refused _ _ _ error' after' idle' outcome' =>
      obtain ⟨hbuffer, _⟩ := sendRequest_alike (hpeers client).buffer outcome outcome'
      exact ⟨hsessions, alike_update hpeers ⟨hbuffer, (hpeers client).toServer, (hpeers client).toClient⟩⟩
    | @sent _ _ _ vector' after' idle' outcome' =>
      rcases (sendRequest_alike (hpeers client).buffer outcome outcome').2 with
        ⟨_, _, _, hok⟩ | ⟨_, _, herror, _⟩
      · cases hok
      · cases herror
  | @received client request buffer rest after result waits queue outcome =>
    cases hmove' with
    | @received _ request' buffer' rest' after' result' waits' queue' outcome' =>
      obtain ⟨_, htoServer, htoClient⟩ := hpeers client
      rw [queue, queue'] at htoClient
      obtain ⟨level, levels, hlevels, hresidue, hrest⟩ := htoClient.of_cons
      refine ⟨hsessions, alike_update hpeers ⟨?_, htoServer, ?_⟩⟩
      · dsimp only
        rw [Client.getResponse_buffer outcome, Client.getResponse_buffer outcome', hlevels]
        exact hresidue
      · dsimp only
        rw [hlevels]
        exact hrest
  | @disconnected client request waits =>
    cases hmove' with
    | @disconnected _ request' waits' =>
      obtain ⟨hbuffer, htoServer, htoClient⟩ := hpeers client
      exact ⟨hsessions, alike_keep hpeers ⟨hbuffer, htoServer, htoClient⟩⟩
  | @unread client idle =>
    cases hmove' with
    | @unread _ idle' =>
      obtain ⟨hbuffer, htoServer, htoClient⟩ := hpeers client
      exact ⟨hsessions, alike_keep hpeers ⟨hbuffer, htoServer, htoClient⟩⟩

theorem alike_run {start start' : Network ι} {trace trace' : List (Action ι × Observation ι)}
    (h : Alike offset secret secret' covers start start') (run : Run (Step sha256) start trace net)
    (run' : Run (Step sha256) start' trace' net') (same : trace.map visible = trace'.map visible) :
    Alike offset secret secret' (trace.foldl coversNext covers) net net' := by
  refine Run.lockstep
    (R := fun trace _ net net' => Alike offset secret secret' (trace.foldl coversNext covers) net net')
    h ?_ run run' same
  intro trace _ net net' action action' seen seen' next next' ih hstep hstep' hsame
  obtain rfl : action = action' := congrArg Prod.fst hsame
  rw [List.foldl_append]
  exact alike_step ih hstep hstep' hsame

/-- The same actions from the same start lead to the same place. -/
theorem run_functional {start : Network ι} {trace trace' : List (Action ι × Observation ι)}
    (run : Run (Step sha256) start trace net) (run' : Run (Step sha256) start trace' net')
    (same : trace.map visible = trace'.map visible) : trace = trace' ∧ net = net' := by
  refine Run.lockstep (R := fun trace trace' net net' => trace = trace' ∧ net = net') ⟨rfl, rfl⟩ ?_ run run' same
  intro trace trace' net net' action action' seen seen' next next' ih hstep hstep' hsame
  obtain ⟨htrace, hnet⟩ := ih
  obtain rfl : action = action' := congrArg Prod.fst hsame
  subst htrace hnet
  obtain ⟨hseen, hnext⟩ := Prod.mk.inj (Option.some.inj (hstep.symm.trans hstep'))
  exact ⟨by rw [hseen], hnext⟩

/-- The covers after a run in which `client` put a secret at `offset` into its buffer; `clean` is the end
of the secret, and the request was sent if `sent`. -/
def coversOf (offset clean : Nat) (before : List (Action ι × Observation ι)) (client : ι) (sent : Bool)
    (after : List (Action ι × Observation ι)) : ι → Cover :=
  let earlier := before.foldl coversNext fun _ => Cover.all clean
  after.foldl coversNext (Function.update earlier client ((earlier client).wrote offset sent))

def chatCover (covers : ι → Cover) (client : ι) (delivery : Delivery ι) : Nat :=
  max ((covers client).toServer.headD 0) delivery.message.written

/-- Two runs that see the same but for the password in one request that `client` sent. -/
structure OnePassword (sha256 : List UInt8 → Digest) (client : ι) (u p p' : ByteString) (request request' : Request)
    (result : Int) (before before' after after' : List (Action ι × Observation ι)) (net net' : Network ι) : Prop where
  credentials : request.credentials = some (u, p)
  credentials' : request'.credentials = some (u, p')
  kind : request.withoutPassword = request'.withoutPassword
  length_eq : p.data.length = p'.data.length
  run : ∃ vector, Run (Step sha256) init
    (before ++ (.sendRequest client request.message result, .sent (.ok vector)) :: after) net
  run' : ∃ vector, Run (Step sha256) init
    (before' ++ (.sendRequest client request'.message result, .sent (.ok vector)) :: after') net'
  earlier : before.map visible = before'.map visible
  later : after.map visible = after'.map visible

variable {client : ι} {u p p' : ByteString} {request request' : Request} {result : Int}
  {before before' after after' : List (Action ι × Observation ι)}

theorem sendRequest_overwrites {sender after : Client} {m : Message} {vector : MessageBuffer}
    (h : sender.sendRequest m result = (.ok vector, after)) :
    m.encode.length ≤ messageBufferSize.toNat ∧ after.messageBuffer = vector ∧
      vector.bytes = sender.messageBuffer.bytes.overwrite 0 m.encode := by
  rcases sender.sendRequest_cases m result with ⟨hfits, _, hsend⟩ | ⟨_, error, hsend⟩
  · obtain ⟨hvector, hafter⟩ := Prod.mk.inj (hsend.symm.trans h)
    have hbytes : (m.serialize sender.messageBuffer).2.bytes = _ := serialize_bytes m.type m.object _
    have hall : (fitting messageBufferSize.toNat (m.type.writes m.object)).flatten = m.encode :=
      congrArg List.flatten (fitting_all hfits)
    rw [← hafter, ← Except.ok.inj hvector]
    exact ⟨hfits, rfl, by rw [hbytes, hall]⟩
  · have herror := (Prod.mk.inj (hsend.symm.trans h)).1
    cases herror

/-- The request with the secret, and what it leaves behind in the two runs. -/
theorem secret_alike {vector vector' : MessageBuffer} (hcred : request.credentials = some (u, p))
    (hcred' : request'.credentials = some (u, p')) (hkind : request.withoutPassword = request'.withoutPassword)
    (hlen : p.data.length = p'.data.length)
    (h : Alike (17 + u.data.length) p.data p'.data covers net net)
    (hstep : Step sha256 net (.sendRequest client request.message result) (.sent (.ok vector)) next)
    (hstep' : Step sha256 net (.sendRequest client request'.message result) (.sent (.ok vector')) next') :
    Alike (17 + u.data.length) p.data p'.data (Function.update covers client
      ((covers client).wrote (17 + u.data.length) (decide (result > 0)))) next next' := by
  have hmove := move_of_step hstep
  have hmove' := move_of_step hstep'
  cases hmove with
  | @sent _ _ _ _ after _ outcome =>
    cases hmove' with
    | @sent _ _ _ _ after' _ outcome' =>
      obtain ⟨hfits, hbuffer, hbytes⟩ := sendRequest_overwrites outcome
      obtain ⟨_, hbuffer', hbytes'⟩ := sendRequest_overwrites outcome'
      obtain ⟨front, hfront, hencode, hencode'⟩ := encode_front hcred hcred' hkind hlen
      rw [hencode] at hfits hbytes
      rw [hencode'] at hbytes'
      have hroom : (front ++ p.data).length ≤ (net.peers client).client.messageBuffer.bytes.length := by
        rw [ByteVector.length_eq]
        exact hfits
      have hresidue := Residue.write hlen hroom
      rw [← hbytes, ← hbytes', hfront] at hresidue
      have hheld := Server.requestIn_iff.mpr (Client.sendRequest_holds outcome)
      have hheld' := Server.requestIn_iff.mpr (Client.sendRequest_holds outcome')
      refine ⟨h.sessions, alike_update h.peers (wrote_alike result (h.peers client) ?_ hresidue ?_)⟩
      · rw [hbuffer, hbuffer']
        exact hresidue
      · rw [hheld, hheld']
        exact congrArg some hkind

theorem OnePassword.alike
    (h : OnePassword sha256 client u p p' request request' result before before' after after' net net') :
    Alike (17 + u.data.length) p.data p'.data
      (coversOf (17 + u.data.length) (17 + u.data.length + p.data.length) before client (decide (result > 0)) after)
      net net' := by
  obtain ⟨vector, run⟩ := h.run
  obtain ⟨vector', run'⟩ := h.run'
  obtain ⟨s₁, s₂, hbefore, hsecret, hafter⟩ := run.at_entry
  obtain ⟨s₁', s₂', hbefore', hsecret', hafter'⟩ := run'.at_entry
  obtain ⟨_, hsame⟩ := run_functional hbefore hbefore' h.earlier
  rw [← hsame] at hsecret'
  have hclean : ∀ xs : List UInt8, Residue (17 + u.data.length) p.data p'.data
      (17 + u.data.length + p.data.length) xs xs := fun xs => Residue.covered (Nat.le_refl _)
  have hinit : Alike (17 + u.data.length) p.data p'.data
      (fun _ : ι => Cover.all (17 + u.data.length + p.data.length)) init init :=
    ⟨rfl, fun _ => ⟨hclean _, .nil, .nil⟩⟩
  have hearlier := alike_run hinit hbefore hbefore rfl
  exact alike_run (secret_alike h.credentials h.credentials' h.kind h.length_eq hearlier hsecret hsecret')
    hafter hafter' h.later

/-- The vector with a forwarded chat is the same in both runs exactly if the passwords agree in what was not
overwritten since. -/
theorem password_hidden {k k' : ι} {fd chatResult responseResult : Int} {buffer buffer' vector : MessageBuffer}
    {out out' : Output ι} {delivery : Delivery ι} {covers : ι → Cover}
    (runs : OnePassword sha256 client u p p' request request' result before before' after after' net net')
    (hcovers : covers =
      coversOf (17 + u.data.length) (17 + u.data.length + p.data.length) before client (decide (result > 0)) after)
    (hstep : Step sha256 net (.serve fd chatResult responseResult) (.served k buffer out) next)
    (hstep' : Step sha256 net' (.serve fd chatResult responseResult) (.served k' buffer' out') next')
    (hforward : out.forwarded = some delivery) (hvector : delivery.vector = some vector) :
    ∃ delivery' vector', out'.forwarded = some delivery' ∧ delivery'.channel = delivery.channel ∧
      delivery'.vector = some vector' ∧
      (vector = vector' ↔ p.data.drop (chatCover covers k delivery - (17 + u.data.length)) =
        p'.data.drop (chatCover covers k delivery - (17 + u.data.length))) := by
  have halike := runs.alike
  rw [← hcovers] at halike
  have hmove := move_of_step hstep
  have hmove' := move_of_step hstep'
  cases hmove with
  | @served _ _ _ session _ rest server _ present queue step =>
    cases hmove' with
    | @served _ _ _ session' _ rest' server' _ present' queue' step' =>
      obtain ⟨rfl, hresidue, hrequest⟩ := front_alike halike present present' queue queue'
      have hsends := (Server.ready_alike halike.sessions present hrequest hresidue step step').1
      rw [hforward] at hsends
      generalize hforward' : out'.forwarded = forwarded' at hsends
      cases hsends with
      | @some _ delivery' alike =>
        obtain ⟨hchannel, _, _, hvectors⟩ := alike
        rcases hvectors with ⟨hnone, _⟩ | ⟨sent, sent', hsent, hsent', hboth⟩
        · rw [hnone] at hvector
          cases hvector
        · obtain rfl : sent = vector := Option.some.inj (hsent.symm.trans hvector)
          refine ⟨delivery', sent', rfl, hchannel.symm, hsent', ?_⟩
          rw [chatCover, ← hboth.eq_iff runs.length_eq]
          exact ByteVector.ext_iff

/-- A computed run with one request among its actions, and the next event that it serves. -/
structure Flow where
  before : List (Action Nat × Observation Nat)
  vector : MessageBuffer
  after : List (Action Nat × Observation Nat)
  net : Network Nat
  buffer : MessageBuffer
  out : Output Nat
  next : Network Nat

def flow (before : List (Action Nat)) (request : Request) (after : List (Action Nat)) : Option Flow :=
  match Run.execute (act Server.paddedDigest) init before with
  | some (first, s₁) =>
    match s₁.act Server.paddedDigest (.sendRequest 0 request.message 1) with
    | some (.sent (.ok vector), s₂) =>
      match Run.execute (act Server.paddedDigest) s₂ after with
      | some (second, net) =>
        match net.act Server.paddedDigest (.serve 5 1 1) with
        | some (.served 0 buffer out, next) => some ⟨first, vector, second, net, buffer, out, next⟩
        | _ => none
      | none => none
    | _ => none
  | none => none

theorem flow_sound {before after : List (Action Nat)} {f : Flow} (h : flow before request after = some f) :
    Run (Step Server.paddedDigest) init
        (f.before ++ (.sendRequest 0 request.message 1, .sent (.ok f.vector)) :: f.after) f.net ∧
      Step Server.paddedDigest f.net (.serve 5 1 1) (.served 0 f.buffer f.out) f.next ∧
      f.before.map Prod.fst = before ∧ f.after.map Prod.fst = after := by
  unfold flow at h
  split at h
  next first s₁ hfirst =>
    split at h
    next vector s₂ hsecret =>
      split at h
      next second net hsecond =>
        split at h
        next buffer out next hserve =>
          cases h
          have hbefore : Run (Step Server.paddedDigest) init first s₁ := Run.of_execute (fun hstep => hstep) hfirst
          have hafter : Run (Step Server.paddedDigest) s₂ second net :=
            Run.of_execute (fun hstep => hstep) hsecond
          exact ⟨hbefore.append (.cons hsecret hafter), hserve, Run.execute_events hfirst, Run.execute_events hsecond⟩
        next => cases h
      next => cases h
    next => cases h
  next => cases h

def chloe : ByteString := ⟨asciiBytes "chloe_carter", by decide⟩

def firstPassword : ByteString := ⟨asciiBytes "chloeCarter345#", by decide⟩

def secondPassword : ByteString := ⟨asciiBytes "chloeCarter345$", by decide⟩

/-- Client 0 logs in, registers another account and then sends a chat to client 1. -/
def chatFlow (password content : ByteString) : Option Flow :=
  flow bothLogIn (.register ⟨chloe, password⟩)
    [.serve 5 1 1, .receive 0, .sendRequest 0 (Request.sendChat ⟨Server.brian.username, content⟩).message 1]

omit [DecidableEq ι] in
theorem map_visible {trace trace' : List (Action ι × Observation ι)}
    (hactions : trace.map Prod.fst = trace'.map Prod.fst)
    (hresponses : trace.map (fun entry => answered entry.2) = trace'.map fun entry => answered entry.2) :
    trace.map visible = trace'.map visible := by
  have hzip : ∀ t : List (Action ι × Observation ι),
      t.map visible = (t.map Prod.fst).zip (t.map fun entry => answered entry.2) := by
    intro t
    rw [List.zip_map']
    rfl
  rw [hzip, hzip, hactions, hresponses]

def sameResponses (f f' : Flow) : Bool :=
  f.before.map (fun entry => answered entry.2) = f'.before.map (fun entry => answered entry.2) ∧
    f.after.map (fun entry => answered entry.2) = f'.after.map (fun entry => answered entry.2) ∧
    f.out.response = f'.out.response

/-- The two runs with one chat are as `OnePassword` wants them, if the responses are the same. -/
theorem chatFlows_differ {content : ByteString} {f f' : Flow} (hf : chatFlow firstPassword content = some f)
    (hf' : chatFlow secondPassword content = some f') (hsame : sameResponses f f' = true) :
    OnePassword Server.paddedDigest 0 chloe firstPassword secondPassword (.register ⟨chloe, firstPassword⟩)
      (.register ⟨chloe, secondPassword⟩) 1 f.before f'.before f.after f'.after f.net f'.net := by
  unfold chatFlow at hf hf'
  unfold sameResponses at hsame
  obtain ⟨run, _, hbefore, hafter⟩ := flow_sound hf
  obtain ⟨run', _, hbefore', hafter'⟩ := flow_sound hf'
  obtain ⟨hearlier, hlater, _⟩ := of_decide_eq_true hsame
  have hlen : firstPassword.data.length = secondPassword.data.length := by decide
  have hkind : ∀ p q : ByteString, (Request.register ⟨chloe, p⟩).withoutPassword =
      (Request.register ⟨chloe, q⟩).withoutPassword := fun _ _ => rfl
  exact ⟨rfl, rfl, hkind _ _, hlen, ⟨_, run⟩, ⟨_, run'⟩, map_visible (hbefore.trans hbefore'.symm) hearlier,
    map_visible (hafter.trans hafter'.symm) hlater⟩

theorem exists_chatFlows (content : ByteString) (good : Flow → Flow → Bool)
    (h : ((chatFlow firstPassword content).any fun f => (chatFlow secondPassword content).any (good f)) = true) :
    ∃ f f', chatFlow firstPassword content = some f ∧ chatFlow secondPassword content = some f' ∧
      good f f' = true := by
  obtain ⟨f, hf, hrest⟩ := (Option.any_eq_true _ _).mp h
  obtain ⟨f', hf', hgood⟩ := (Option.any_eq_true _ _).mp hrest
  exact ⟨f, f', hf, hf', hgood⟩

def chat (out : Output Nat) : Option (Delivery Nat × MessageBuffer) :=
  match out.forwarded with
  | some delivery =>
    match delivery.vector with
    | some vector => if delivery.channel = 1 then some (delivery, vector) else none
    | none => none
  | none => none

theorem chat_eq {out : Output Nat} {delivery : Delivery Nat} {vector : MessageBuffer}
    (h : chat out = some (delivery, vector)) :
    out.forwarded = some delivery ∧ delivery.channel = 1 ∧ delivery.vector = some vector := by
  unfold chat at h
  split at h
  next hforward =>
    split at h
    next hvector =>
      split at h
      next hchannel =>
        cases h
        exact ⟨hforward, hchannel, hvector⟩
      next => cases h
    next => cases h
  next => cases h

/-- The chat itself is empty, and the recipient reads the password behind it. -/
theorem password_leaked :
    ∃ (before before' after after' : List (Action Nat × Observation Nat)) (net net' next next' : Network Nat)
      (buffer buffer' vector vector' : MessageBuffer) (out out' : Output Nat) (delivery delivery' : Delivery Nat),
    OnePassword Server.paddedDigest 0 chloe firstPassword secondPassword (.register ⟨chloe, firstPassword⟩)
      (.register ⟨chloe, secondPassword⟩) 1 before before' after after' net net' ∧
    Step Server.paddedDigest net (.serve 5 1 1) (.served 0 buffer out) next ∧
    Step Server.paddedDigest net' (.serve 5 1 1) (.served 0 buffer' out') next' ∧ out.response = out'.response ∧
    Server.requestIn buffer = some (.sendChat ⟨Server.brian.username, ByteString.empty⟩) ∧
    out.forwarded = some delivery ∧ delivery.channel = 1 ∧ delivery.vector = some vector ∧
    out'.forwarded = some delivery' ∧ delivery'.channel = 1 ∧ delivery'.vector = some vector' ∧ vector ≠ vector' := by
  obtain ⟨f, f', hf, hf', hgood⟩ := exists_chatFlows ByteString.empty (fun f f' => sameResponses f f' &&
    (Server.requestIn f.buffer == some (.sendChat ⟨Server.brian.username, ByteString.empty⟩)) &&
    (chat f.out).any fun c => (chat f'.out).any fun c' => c.2.bytes[43]? != c'.2.bytes[43]?) (by decide +kernel)
  simp only [Bool.and_eq_true, beq_iff_eq, Option.any_eq_true, bne_iff_ne] at hgood
  obtain ⟨⟨hsame, hrequest⟩, ⟨delivery, vector⟩, hchat, ⟨delivery', vector'⟩, hchat', hbyte⟩ := hgood
  obtain ⟨hforward, hchannel, hvector⟩ := chat_eq hchat
  obtain ⟨hforward', hchannel', hvector'⟩ := chat_eq hchat'
  have hresponse : f.out.response = f'.out.response := (of_decide_eq_true hsame).2.2
  refine ⟨_, _, _, _, _, _, _, _, _, _, vector, vector', _, _, delivery, delivery', chatFlows_differ hf hf' hsame,
    (flow_sound hf).2.1, (flow_sound hf').2.1, hresponse, hrequest, hforward, hchannel, hvector, hforward', hchannel',
    hvector', ?_⟩
  intro heq
  rw [heq] at hbyte
  exact hbyte rfl

def longContent : ByteString := ⟨asciiBytes "See you at the station at seven in the evening", by decide⟩

theorem password_hidden_coveredRun :
    ∃ (before before' after after' : List (Action Nat × Observation Nat)) (net net' next next' : Network Nat)
      (buffer buffer' vector : MessageBuffer) (out out' : Output Nat) (delivery delivery' : Delivery Nat),
    OnePassword Server.paddedDigest 0 chloe firstPassword secondPassword (.register ⟨chloe, firstPassword⟩)
      (.register ⟨chloe, secondPassword⟩) 1 before before' after after' net net' ∧
    Step Server.paddedDigest net (.serve 5 1 1) (.served 0 buffer out) next ∧
    Step Server.paddedDigest net' (.serve 5 1 1) (.served 0 buffer' out') next' ∧
    out.forwarded = some delivery ∧ delivery.vector = some vector ∧
    out'.forwarded = some delivery' ∧ delivery'.channel = delivery.channel ∧ delivery'.vector = some vector := by
  obtain ⟨f, f', hf, hf', hgood⟩ := exists_chatFlows longContent (fun f f' => sameResponses f f' &&
    (chat f.out).any fun c => decide (44 ≤ chatCover (coversOf (17 + chloe.data.length)
      (17 + chloe.data.length + firstPassword.data.length) f.before 0 (decide ((1 : Int) > 0)) f.after) 0 c.1))
    (by decide +kernel)
  simp only [Bool.and_eq_true, Option.any_eq_true, decide_eq_true_eq] at hgood
  obtain ⟨hsame, ⟨delivery, vector⟩, hchat, hcover⟩ := hgood
  dsimp only at hcover
  obtain ⟨hforward, _, hvector⟩ := chat_eq hchat
  obtain ⟨delivery', vector', hforward', hchannel, hvector', hiff⟩ :=
    password_hidden (chatFlows_differ hf hf' hsame) rfl (flow_sound hf).2.1 (flow_sound hf').2.1 hforward hvector
  have hoffset : chloe.data.length = 12 := by decide
  have hlength : firstPassword.data.length = 15 := by decide
  have hlength' : secondPassword.data.length = 15 := by decide
  have hsent : vector = vector' := by
    refine hiff.mpr ?_
    rw [List.drop_eq_nil_of_le (by omega), List.drop_eq_nil_of_le (by omega)]
  refine ⟨_, _, _, _, _, _, _, _, _, _, vector, _, _, delivery, delivery', chatFlows_differ hf hf' hsame,
    (flow_sound hf).2.1, (flow_sound hf').2.1, hforward, hvector, hforward', hchannel, ?_⟩
  rw [hvector', hsent]

end Network

end SecureMessaging
