import SecureMessaging.HostileBytes

namespace SecureMessaging

theorem Request.message_inj {request other : Request} (h : request.message = other.message) :
    request = other := by
  cases request <;> cases other <;> cases h <;> rfl

namespace Server

variable {χ : Type} {sha256 : List UInt8 → Digest} {server next : Server χ} {fd : Int}

theorem handleBufferedRequest_unrecognized (sha256 : List UInt8 → Digest) {session : Session χ}
    (hs : server.sessions.sessions fd = some session) (hbuffer : Resizable Request.types server.messageBuffer)
    (hno : ∀ request : Request, ¬request.message.encode <+: server.messageBuffer.bytes) (result : Int) :
    ∃ text, handleBufferedRequest sha256 server fd result = .ok ⟨server, failure text, none⟩ := by
  obtain ⟨handled, hok⟩ := handleBufferedRequest_returns sha256 hs hbuffer result
  have hnone : requestIn server.messageBuffer = none := by
    cases hreq : requestIn server.messageBuffer with
    | none => rfl
    | some request => exact absurd (requestIn_iff.mp hreq) (hno request)
  obtain ⟨text, _, rfl⟩ := handleBufferedRequest_refuses hnone hok
  exact ⟨text, hok⟩

/-- The message buffer holds at most one request; `HandleBufferedRequest` does what `HandleRequest`
does for it, and without one it refuses and changes nothing. -/
theorem dispatch_exact (sha256 : List UInt8 → Digest) {session : Session χ}
    (hs : server.sessions.sessions fd = some session) (hbuffer : Resizable Request.types server.messageBuffer)
    (result : Int) :
    (∀ request : Request, request.message.encode <+: server.messageBuffer.bytes →
      (∀ other : Request, other.message.encode <+: server.messageBuffer.bytes → other = request) ∧
      ∃ handled, handleRequest sha256 server fd request result = .ok handled ∧
        handleBufferedRequest sha256 server fd result = .ok handled) ∧
    ((∀ request : Request, ¬request.message.encode <+: server.messageBuffer.bytes) →
      ∃ text, handleBufferedRequest sha256 server fd result = .ok ⟨server, failure text, none⟩) := by
  refine ⟨?_, fun hno => handleBufferedRequest_unrecognized sha256 hs hbuffer hno result⟩
  intro request hrequest
  refine ⟨?_, ?_⟩
  · intro other hother
    exact Request.message_inj (Message.encode_prefix_inj hother hrequest)
  · obtain ⟨handled, hok⟩ := handleRequest_returns sha256 hs request result
    exact ⟨handled, hok, (handleBufferedRequest_request result hrequest).trans hok⟩

theorem dispatch_exact_shortLogin : ∃ handled,
    handleRequest paddedDigest shortLogin 5 (.login alice) 1 = .ok handled ∧
      handleBufferedRequest paddedDigest shortLogin 5 1 = .ok handled := by
  obtain ⟨session, hs⟩ := shortLogin_present
  have hbuffer : Resizable Request.types shortLogin.messageBuffer := resizable_of_encoded shortLogin_encoded
  exact ((dispatch_exact paddedDigest hs hbuffer 1).1 (.login alice) shortLogin_encoded).2

/-- What a request answered Success may change. -/
def ChangedBy (sha256 : List UInt8 → Digest) (server next : Server χ) (fd : Int) : Request → Prop
  | .register m =>
    server.accounts.accounts m.username = none ∧
    next.accounts.accounts m.username = some (AccountRegistry.hashPassword sha256 m.password) ∧
    (∀ u, u ≠ m.username → next.accounts.accounts u = server.accounts.accounts u) ∧
    next.sessions = server.sessions
  | .login m =>
    next.accounts = server.accounts ∧
    (∃ session, server.sessions.sessions fd = some session ∧
      next.sessions.sessions fd = some { session with username := m.username, authenticated := true }) ∧
    (∀ k, k ≠ fd → next.sessions.sessions k = server.sessions.sessions k) ∧
    ∀ u, u ≠ m.username → next.sessions.userToFd u = server.sessions.userToFd u
  | .ping _ | .sendChat _ => next.accounts = server.accounts ∧ next.sessions = server.sessions

theorem ChangedBy.of_maps {after : Server χ} {request : Request} (h : ChangedBy sha256 server next fd request)
    (haccounts : after.accounts = next.accounts) (hsessions : after.sessions = next.sessions) :
    ChangedBy sha256 server after fd request := by
  cases request <;> simpa only [ChangedBy, haccounts, hsessions] using h

/-- The channel of each session. -/
def channels (server : Server χ) (k : Int) : Option χ := (server.sessions.sessions k).map Session.channel

theorem channels_of_sessions (h : next.sessions = server.sessions) : next.channels = server.channels := by
  unfold channels
  rw [h]

/-- What an answer leaves of the maps. -/
theorem Answer.frame {result : Int} {handled : Handled χ} (h : Answer sha256 server fd result handled) :
    ((∃ text, handled.response = failure text) →
      handled.server.accounts = server.accounts ∧ handled.server.sessions = server.sessions) ∧
    (handled.response = .success ⟨⟩ → ∃ request, requestIn server.messageBuffer = some request ∧
      ChangedBy sha256 server handled.server fd request) ∧
    handled.server.channels = server.channels := by
  cases h with
  | refused =>
    refine ⟨fun _ => ⟨rfl, rfl⟩, ?_, rfl⟩
    intro hsuccess
    cases hsuccess
  | ping request => exact ⟨fun _ => ⟨rfl, rfl⟩, fun _ => ⟨_, request, rfl, rfl⟩, rfl⟩
  | registered request absent =>
    refine ⟨?_, ?_, rfl⟩
    · intro hfailure
      obtain ⟨text, htext⟩ := hfailure
      cases htext
    · intro _
      exact ⟨_, request, absent, Table.assign_self _ _ _, fun u hu => Table.assign_ne hu, rfl⟩
  | loggedIn request stored present free =>
    refine ⟨?_, ?_, ?_⟩
    · intro hfailure
      obtain ⟨text, htext⟩ := hfailure
      cases htext
    · intro _
      exact ⟨_, request, rfl, ⟨_, present, Table.assign_self _ _ _⟩, fun k hk => Table.assign_ne hk,
        fun u hu => Table.emplace_ne hu⟩
    · funext k
      by_cases hk : k = fd
      · subst hk
        simp [channels, present]
      · simp [channels, Table.assign_ne hk]
  | chatted request =>
    dsimp only
    refine ⟨?_, ?_, ?_⟩
    · intro _
      rw [sendResponse_accounts, sendResponse_sessions]
      exact ⟨rfl, rfl⟩
    · intro _
      refine ⟨_, request, ?_⟩
      unfold ChangedBy
      rw [sendResponse_accounts, sendResponse_sessions]
      exact ⟨rfl, rfl⟩
    · exact channels_of_sessions (sendResponse_sessions _ _ _ _)

/-- Each buffer on a descriptor with a session is answered. A Failure leaves all maps as they were, a
Success changes what the request is about, and no session comes, goes or gets another channel. -/
theorem request_frame (sha256 : List UInt8 → Digest) {session : Session χ} {buffer : MessageBuffer}
    (hs : server.sessions.sessions fd = some session) (hbuffer : Resizable Request.types buffer)
    (chatResult responseResult : Int) :
    ∃ out next response, Step sha256 server (.ready fd (some buffer) chatResult responseResult) out next ∧
      out.response = some response ∧ (response = .success ⟨⟩ ∨ ∃ text, response = failure text) ∧
      ((∃ text, response = failure text) →
        next.accounts = server.accounts ∧ next.sessions = server.sessions) ∧
      (response = .success ⟨⟩ →
        ∃ request, requestIn buffer = some request ∧ ChangedBy sha256 server next fd request) ∧
      next.channels = server.channels := by
  obtain ⟨handled, hhandled⟩ := @handleBufferedRequest_returns χ { server with messageBuffer := buffer } fd sha256
    session hs hbuffer chatResult
  have hanswer : Answer sha256 { server with messageBuffer := buffer } fd chatResult handled :=
    answer_of_handled hs hhandled
  obtain ⟨hfailure, hsuccess, hchannels⟩ := hanswer.frame
  have hstep := step_of_handled responseResult hs hhandled
  refine ⟨_, _, handled.response, hstep, rfl, ?_, ?_, ?_, ?_⟩
  · rcases hanswer.response_cases with hresponse | ⟨text, _, hresponse⟩
    · exact Or.inl hresponse
    · exact Or.inr ⟨text, hresponse⟩
  · rw [sendResponse_accounts, sendResponse_sessions]
    exact hfailure
  · intro hresponse
    obtain ⟨request, hrequest, hchanged⟩ := hsuccess hresponse
    refine ⟨request, hrequest, hchanged.of_maps ?_ ?_⟩
    · rw [sendResponse_accounts]
    · rw [sendResponse_sessions]
  · rw [channels_of_sessions (sendResponse_sessions _ _ _ _)]
    exact hchannels

theorem request_frame_alice : ∃ out next response,
    Step paddedDigest shortLogin (asks 5 (registering alice)) out next ∧ out.response = some response ∧
      next.channels = shortLogin.channels := by
  obtain ⟨session, hs⟩ := shortLogin_present
  have hfits : (registering alice).message.encode.length ≤ messageBufferSize.toNat := by decide +kernel
  obtain ⟨out, next, response, hstep, hresponse, _, _, _, hchannels⟩ := request_frame paddedDigest hs
    (resizable_of_encoded (requestIn_iff.mp (requestIn_serialized hfits))) 1 1
  exact ⟨out, next, response, hstep, hresponse, hchannels⟩

end Server

end SecureMessaging
