import SecureMessaging.Lib.Residue
import SecureMessaging.ServerSteps

namespace SecureMessaging

def Request.withoutPassword : Request → Request
  | .login m => .login ⟨m.username, ByteString.empty⟩
  | .register m => .register ⟨m.username, ByteString.empty⟩
  | .ping m => .ping m
  | .sendChat m => .sendChat m

/-- How many bytes `Serialize` writes into a message buffer. -/
def Message.written (m : Message) : Nat := (fitting messageBufferSize.toNat (m.type.writes m.object)).flatten.length

variable {offset cover : Nat} {secret secret' : List UInt8}

theorem serialize_residue {buffer buffer' : MessageBuffer} (m : Message)
    (h : Residue offset secret secret' cover buffer.bytes buffer'.bytes) :
    Residue offset secret secret' (max cover m.written) (m.serialize buffer).2.bytes (m.serialize buffer').2.bytes := by
  have hbytes : (m.serialize buffer).2.bytes = _ := serialize_bytes m.type m.object buffer
  have hbytes' : (m.serialize buffer').2.bytes = _ := serialize_bytes m.type m.object buffer'
  rw [hbytes, hbytes']
  exact h.overwrite _

/-- Two deliveries of one message, in vectors that differ by the uncovered rest of the secrets. -/
structure AlikeDeliveries {χ : Type} (offset : Nat) (secret secret' : List UInt8) (cover : Nat)
    (delivery delivery' : Delivery χ) : Prop where
  channel : delivery.channel = delivery'.channel
  message : delivery.message = delivery'.message
  result : delivery.result = delivery'.result
  vector : (delivery.vector = none ∧ delivery'.vector = none) ∨
    ∃ vector vector', delivery.vector = some vector ∧ delivery'.vector = some vector' ∧
      Residue offset secret secret' cover vector.bytes vector'.bytes

/-- How much of the server's buffer is covered after a call of `SendResponse`, if there was one. -/
def coverAfter {χ : Type} (cover : Nat) : Option (Delivery χ) → Nat
  | some delivery => max cover delivery.message.written
  | none => cover

inductive AlikeSends {χ : Type} (offset : Nat) (secret secret' : List UInt8) (cover : Nat) :
    Option (Delivery χ) → Option (Delivery χ) → Prop
  | none : AlikeSends offset secret secret' cover none none
  | some {delivery delivery'}
      (alike : AlikeDeliveries offset secret secret' (max cover delivery.message.written) delivery delivery') :
      AlikeSends offset secret secret' cover (some delivery) (some delivery')

namespace Server

variable {χ : Type} {sha256 : List UInt8 → Digest} {server server' : Server χ} {fd result : Int}
  {session : Session χ} {handled handled' : Handled χ}

theorem sendResponse_alike (channel : χ) (message : Message) (result : Int)
    (h : Residue offset secret secret' cover server.messageBuffer.bytes server'.messageBuffer.bytes) :
    AlikeDeliveries offset secret secret' (max cover message.written)
      (server.sendResponse channel message result).2.2 (server'.sendResponse channel message result).2.2 := by
  have hresidue := serialize_residue message h
  have hsame : (message.serialize server.messageBuffer).1 = (message.serialize server'.messageBuffer).1 :=
    Bool.eq_iff_iff.mpr (serialize_success.trans serialize_success.symm)
  rw [sendResponse_delivery, sendResponse_delivery, ← hsame]
  refine ⟨rfl, rfl, rfl, ?_⟩
  dsimp only
  split
  · exact Or.inr ⟨_, _, rfl, rfl, hresidue⟩
  · exact Or.inl ⟨rfl, rfl⟩

theorem sendResponse_buffer_alike (channel : χ) (message : Message) (result : Int)
    (h : Residue offset secret secret' cover server.messageBuffer.bytes server'.messageBuffer.bytes) :
    Residue offset secret secret' (max cover message.written)
      (server.sendResponse channel message result).2.1.messageBuffer.bytes
      (server'.sendResponse channel message result).2.1.messageBuffer.bytes := by
  rw [sendResponse_server, sendResponse_server]
  exact serialize_residue message h

/-- What a request leaves behind in two runs. -/
structure AlikeHandled (offset : Nat) (secret secret' : List UInt8) (cover : Nat) (handled handled' : Handled χ) :
    Prop where
  sessions : handled.response = handled'.response → handled.server.sessions = handled'.server.sessions
  forwarded : AlikeSends offset secret secret' cover handled.forwarded handled'.forwarded
  buffer : Residue offset secret secret' (coverAfter cover handled.forwarded)
    handled.server.messageBuffer.bytes handled'.server.messageBuffer.bytes

/-- A request that forwards nothing. -/
theorem AlikeHandled.quiet
    (hsessions : handled.response = handled'.response → handled.server.sessions = handled'.server.sessions)
    (hnone : handled.forwarded = none) (hnone' : handled'.forwarded = none)
    (hres : Residue offset secret secret' cover handled.server.messageBuffer.bytes
      handled'.server.messageBuffer.bytes) : AlikeHandled offset secret secret' cover handled handled' := by
  refine ⟨hsessions, ?_, ?_⟩
  · rw [hnone, hnone']
    exact .none
  · rw [hnone]
    exact hres

theorem handleRegister_alike {m m' : Register} (hsessions : server.sessions = server'.sessions)
    (hres : Residue offset secret secret' cover server.messageBuffer.bytes server'.messageBuffer.bytes)
    (h : handleRegister sha256 server fd m = .ok handled) (h' : handleRegister sha256 server' fd m' = .ok handled') :
    AlikeHandled offset secret secret' cover handled handled' := by
  have hone : ∀ (s : Server χ) (m : Register) (handled : Handled χ),
      handleRegister sha256 s fd m = .ok handled → handled.server.sessions = s.sessions ∧
        handled.forwarded = none ∧ handled.server.messageBuffer = s.messageBuffer := by
    intro s m handled h
    rcases handleRegister_cases sha256 s fd m with ⟨_, hok⟩ | ⟨text, _, hok⟩
    · cases Except.ok.inj (hok.symm.trans h)
      exact ⟨rfl, rfl, rfl⟩
    · cases Except.ok.inj (hok.symm.trans h)
      exact ⟨rfl, rfl, rfl⟩
  obtain ⟨hs, hf, hb⟩ := hone server m handled h
  obtain ⟨hs', hf', hb'⟩ := hone server' m' handled' h'
  refine .quiet ?_ hf hf' ?_
  · intro _
    rw [hs, hs', hsessions]
  · rw [hb, hb']
    exact hres

theorem handleLogin_alike {m m' : Login} (hname : m.username = m'.username)
    (hsessions : server.sessions = server'.sessions)
    (hres : Residue offset secret secret' cover server.messageBuffer.bytes server'.messageBuffer.bytes)
    (h : handleLogin sha256 server fd m = .ok handled) (h' : handleLogin sha256 server' fd m' = .ok handled') :
    AlikeHandled offset secret secret' cover handled handled' := by
  rcases handleLogin_cases sha256 server fd m with ⟨session, _, hs, _, hok⟩ | ⟨_, text, _, hok⟩
  · cases Except.ok.inj (hok.symm.trans h)
    rcases handleLogin_cases sha256 server' fd m' with ⟨session', _, hs', _, hok'⟩ | ⟨_, text', _, hok'⟩
    · cases Except.ok.inj (hok'.symm.trans h')
      rw [← hsessions] at hs'
      have hsession : session = session' := Option.some.inj (hs.symm.trans hs')
      refine .quiet ?_ rfl rfl hres
      intro _
      rw [hsession, hname, hsessions]
    · cases Except.ok.inj (hok'.symm.trans h')
      refine .quiet ?_ rfl rfl hres
      intro hresponse
      cases hresponse
  · cases Except.ok.inj (hok.symm.trans h)
    rcases handleLogin_cases sha256 server' fd m' with ⟨session', _, hs', _, hok'⟩ | ⟨_, text', _, hok'⟩
    · cases Except.ok.inj (hok'.symm.trans h')
      refine .quiet ?_ rfl rfl hres
      intro hresponse
      cases hresponse
    · cases Except.ok.inj (hok'.symm.trans h')
      exact .quiet (fun _ => hsessions) rfl rfl hres

theorem handleSendChat_alike {m : SendChat} (hsessions : server.sessions = server'.sessions)
    (hs : server.sessions.sessions fd = some session)
    (hres : Residue offset secret secret' cover server.messageBuffer.bytes server'.messageBuffer.bytes)
    (h : handleSendChat server fd m result = .ok handled) (h' : handleSendChat server' fd m result = .ok handled') :
    AlikeHandled offset secret secret' cover handled handled' := by
  have hs' : server'.sessions.sessions fd = some session := by rw [← hsessions, hs]
  rcases handleSendChat_cases server m result hs with ⟨k, target, hauth, hroute, htarget, hok⟩ | ⟨hno, text, _, hok⟩
  · rcases handleSendChat_cases server' m result hs' with
      ⟨k', target', _, hroute', htarget', hok'⟩ | ⟨hno', _, _, _⟩
    · cases Except.ok.inj (hok.symm.trans h)
      cases Except.ok.inj (hok'.symm.trans h')
      rw [← hsessions] at hroute' htarget'
      have hk : k = k' := Option.some.inj (hroute.symm.trans hroute')
      rw [← hk] at htarget'
      have htargets : target = target' := Option.some.inj (htarget.symm.trans htarget')
      rw [← htargets]
      generalize (⟨.receiveChat, ⟨session.username, m.content⟩⟩ : Message) = message
      have hmessage : (server.sendResponse target.channel message result).2.2.message = message := by
        rw [sendResponse_delivery]
      refine ⟨?_, .some ?_, ?_⟩
      · intro _
        dsimp only
        rw [sendResponse_sessions, sendResponse_sessions, hsessions]
      · rw [hmessage]
        exact sendResponse_alike _ _ _ hres
      · unfold coverAfter
        dsimp only
        rw [hmessage]
        exact sendResponse_buffer_alike _ _ _ hres
    · have hest := SessionManager.isEstablishedUser_iff.mpr ⟨k, target, hroute, htarget⟩
      rw [← hsessions, hauth, hest] at hno'
      rcases hno' with hno' | hno'
      · cases hno'
      · cases hno'
  · rcases handleSendChat_cases server' m result hs' with
      ⟨k', target', hauth', hroute', htarget', _⟩ | ⟨_, text', _, hok'⟩
    · have hest := SessionManager.isEstablishedUser_iff.mpr ⟨k', target', hroute', htarget'⟩
      rw [hsessions, hauth', hest] at hno
      rcases hno with hno | hno
      · cases hno
      · cases hno
    · cases Except.ok.inj (hok.symm.trans h)
      cases Except.ok.inj (hok'.symm.trans h')
      exact .quiet (fun _ => hsessions) rfl rfl hres

theorem handled_alike (hsessions : server.sessions = server'.sessions)
    (hs : server.sessions.sessions fd = some session)
    (hrequest : (requestIn server.messageBuffer).map Request.withoutPassword =
      (requestIn server'.messageBuffer).map Request.withoutPassword)
    (hres : Residue offset secret secret' cover server.messageBuffer.bytes server'.messageBuffer.bytes)
    (h : handleBufferedRequest sha256 server fd result = .ok handled)
    (h' : handleBufferedRequest sha256 server' fd result = .ok handled') :
    AlikeHandled offset secret secret' cover handled handled' := by
  cases hreq : requestIn server.messageBuffer with
  | none =>
    rw [hreq] at hrequest
    have hreq' : requestIn server'.messageBuffer = none := Option.map_eq_none_iff.mp hrequest.symm
    obtain ⟨text, _, hhandled⟩ := handleBufferedRequest_refuses hreq h
    obtain ⟨text', _, hhandled'⟩ := handleBufferedRequest_refuses hreq' h'
    rw [hhandled, hhandled']
    exact .quiet (fun _ => hsessions) rfl rfl hres
  | some request =>
    rw [hreq] at hrequest
    obtain ⟨request', hreq', hsame⟩ := Option.map_eq_some_iff.mp hrequest.symm
    rw [handleBufferedRequest_request result (requestIn_iff.mp hreq)] at h
    rw [handleBufferedRequest_request result (requestIn_iff.mp hreq')] at h'
    unfold handleRequest at h h'
    cases request with
    | ping m =>
      cases request' with
      | ping m' =>
        cases Except.ok.inj h
        cases Except.ok.inj h'
        exact .quiet (fun _ => hsessions) rfl rfl hres
      | login | register | sendChat => cases hsame
    | register m =>
      cases request' with
      | register m' => exact handleRegister_alike hsessions hres h h'
      | ping | login | sendChat => cases hsame
    | login m =>
      cases request' with
      | login m' =>
        have hblank : Request.login ⟨m'.username, ByteString.empty⟩ = .login ⟨m.username, ByteString.empty⟩ := hsame
        obtain ⟨hname, _⟩ := Login.mk.inj (Request.login.inj hblank)
        exact handleLogin_alike hname.symm hsessions hres h h'
      | ping | register | sendChat => cases hsame
    | sendChat m =>
      cases request' with
      | sendChat m' =>
        have hm : m' = m := Request.sendChat.inj hsame
        rw [hm] at h'
        exact handleSendChat_alike hsessions hs hres h h'
      | ping | login | register => cases hsame

variable {next next' : Server χ} {out out' : Output χ}

theorem accept_alike {agreed : Option χ} (hsessions : server.sessions = server'.sessions)
    (h : Step sha256 server (.accept fd agreed) out next) (h' : Step sha256 server' (.accept fd agreed) out' next') :
    next.sessions = next'.sessions := by
  have hone : ∀ (s t : Server χ) (out : Output χ), Step sha256 s (.accept fd agreed) out t →
      t.sessions = if fd ≠ -1 then (s.sessions.create fd agreed).2 else s.sessions := by
    intro s t out hstep
    unfold Step handleEvent at hstep
    dsimp only at hstep
    split at hstep
    next hfd =>
      obtain ⟨rfl, _⟩ := Prod.mk.inj (Except.ok.inj hstep)
      rw [if_pos hfd]
      unfold establishConnection
      dsimp only
      split <;> rfl
    next hfd =>
      obtain ⟨rfl, _⟩ := Prod.mk.inj (Except.ok.inj hstep)
      rw [if_neg hfd]
  rw [hone server next out h, hone server' next' out' h', hsessions]

theorem close_alike {chatResult responseResult : Int} (hsessions : server.sessions = server'.sessions)
    (h : Step sha256 server (.ready fd none chatResult responseResult) out next)
    (h' : Step sha256 server' (.ready fd none chatResult responseResult) out' next') :
    next.sessions = next'.sessions := by
  have hone : ∀ (s t : Server χ) (out : Output χ), Step sha256 s (.ready fd none chatResult responseResult) out t →
      (∃ session, s.sessions.sessions fd = some session ∧ session.authenticated = true ∧
        t.sessions = ⟨s.sessions.sessions.erase fd, s.sessions.userToFd.erase session.username⟩) ∨
      ((∀ session, s.sessions.sessions fd = some session → session.authenticated = false) ∧
        t.sessions = s.sessions) := by
    intro s t out hstep
    have heffect := effect_of_step hstep
    cases heffect with
    | ignored absent =>
      refine Or.inr ⟨?_, rfl⟩
      intro session hs
      rw [absent] at hs
      cases hs
    | @destroyed _ session _ _ present authenticated => exact Or.inl ⟨session, present, authenticated, rfl⟩
    | @leaked _ session _ _ present unauthenticated =>
      refine Or.inr ⟨?_, rfl⟩
      intro session' hs
      rw [← Option.some.inj (present.symm.trans hs), unauthenticated]
  rcases hone server next out h with ⟨session, hs, hauth, hnext⟩ | ⟨hno, hnext⟩
  · rcases hone server' next' out' h' with ⟨session', hs', _, hnext'⟩ | ⟨hno', _⟩
    · rw [← hsessions] at hs' hnext'
      have hsession : session = session' := Option.some.inj (hs.symm.trans hs')
      rw [hnext, hnext', hsession]
    · rw [hsessions] at hs
      rw [hno' session hs] at hauth
      cases hauth
  · rcases hone server' next' out' h' with ⟨session', hs', hauth', _⟩ | ⟨_, hnext'⟩
    · rw [← hsessions] at hs'
      rw [hno session' hs'] at hauth'
      cases hauth'
    · rw [hnext, hnext', hsessions]

theorem ready_alike {buffer buffer' : MessageBuffer} {chatResult responseResult : Int}
    (hsessions : server.sessions = server'.sessions) (hs : server.sessions.sessions fd = some session)
    (hrequest : (requestIn buffer).map Request.withoutPassword = (requestIn buffer').map Request.withoutPassword)
    (hres : Residue offset secret secret' cover buffer.bytes buffer'.bytes)
    (h : Step sha256 server (.ready fd (some buffer) chatResult responseResult) out next)
    (h' : Step sha256 server' (.ready fd (some buffer') chatResult responseResult) out' next') :
    AlikeSends offset secret secret' cover out.forwarded out'.forwarded ∧
      (out.response = out'.response → next.sessions = next'.sessions ∧
        AlikeSends offset secret secret' (coverAfter cover out.forwarded) out.replied out'.replied) := by
  have hs' : server'.sessions.sessions fd = some session := by rw [← hsessions, hs]
  obtain ⟨handled, hhandled, hout, hnext⟩ := handled_of_step hs h
  obtain ⟨handled', hhandled', hout', hnext'⟩ := handled_of_step hs' h'
  have hhandling : AlikeHandled offset secret secret' cover handled handled' := by
    generalize hheld : ({ server with messageBuffer := buffer } : Server χ) = held at hhandled
    generalize hheld' : ({ server' with messageBuffer := buffer' } : Server χ) = held' at hhandled'
    have hsame : held.sessions = held'.sessions := by rw [← hheld, ← hheld', hsessions]
    have hbuffer : held.messageBuffer = buffer := by rw [← hheld]
    have hbuffer' : held'.messageBuffer = buffer' := by rw [← hheld']
    rw [← hbuffer, ← hbuffer'] at hrequest hres
    exact handled_alike hsame (by rw [← hheld]; exact hs) hrequest hres hhandled hhandled'
  obtain ⟨halike, hforwarded, hbuffer⟩ := hhandling
  rw [hout, hout']
  refine ⟨hforwarded, ?_⟩
  intro hresponse
  have hresponse : handled.response = handled'.response := Option.some.inj hresponse
  rw [hnext, hnext', sendResponse_sessions, sendResponse_sessions, ← hresponse]
  refine ⟨halike hresponse, .some ?_⟩
  have hmessage : (handled.server.sendResponse session.channel handled.response.message responseResult).2.2.message =
      handled.response.message := by
    rw [sendResponse_delivery]
  rw [hmessage]
  exact sendResponse_alike _ _ _ hbuffer

end Server

end SecureMessaging
