import SecureMessaging.Lib.Runs
import SecureMessaging.RequestHandling

namespace SecureMessaging

namespace Server

variable {χ : Type} {sha256 : List UInt8 → Digest} {server next : Server χ} {fd : Int}

/-- What a recipient finds at the front of the vector that was sent. -/
theorem vector_of_sendResponse {channel : χ} {message : Message} {result : Int} {vector : MessageBuffer}
    (h : (server.sendResponse channel message result).2.2.vector = some vector) :
    message.encode <+: vector.bytes := by
  rw [sendResponse_delivery] at h
  dsimp only at h
  split at h
  next hserialized =>
    have hfits := serialize_success.mp hserialized
    have hbytes : (message.serialize server.messageBuffer).2.bytes = _ := serialize_bytes_of_fits hfits
    rw [← Option.some.inj h, hbytes]
    exact List.prefix_append _ _
  next => cases h

theorem sendResponse_fits (channel : χ) {message : Message} (result : Int)
    (h : message.encode.length ≤ messageBufferSize.toNat) :
    (server.sendResponse channel message result).2.2 =
      ⟨channel, message, some (message.serialize server.messageBuffer).2, result⟩ := by
  have hserialized : (message.serialize server.messageBuffer).1 = true := serialize_success.mpr h
  rw [sendResponse_delivery, if_pos hserialized]

/-- All that `HandleBufferedRequest` can do for a descriptor with a session. -/
inductive Answer (sha256 : List UInt8 → Digest) (server : Server χ) (fd : Int) (result : Int) :
    Handled χ → Prop
  | refused {text} (short : Short text) : Answer sha256 server fd result ⟨server, failure text, none⟩
  | ping {m} (request : requestIn server.messageBuffer = some (.ping m)) :
      Answer sha256 server fd result ⟨server, .success ⟨⟩, none⟩
  | registered {m} (request : requestIn server.messageBuffer = some (.register m))
      (absent : server.accounts.accounts m.username = none) :
      Answer sha256 server fd result ⟨{ server with accounts :=
        ⟨server.accounts.accounts.assign m.username (AccountRegistry.hashPassword sha256 m.password)⟩ },
        .success ⟨⟩, none⟩
  | loggedIn {m session} (request : requestIn server.messageBuffer = some (.login m))
      (stored : server.accounts.accounts m.username = some (AccountRegistry.hashPassword sha256 m.password))
      (present : server.sessions.sessions fd = some session)
      (free : server.sessions.isEstablishedUser m.username = false) :
      Answer sha256 server fd result ⟨{ server with sessions :=
        ⟨server.sessions.sessions.assign fd ⟨session.channel, m.username, true⟩,
          server.sessions.userToFd.emplace m.username fd⟩ }, .success ⟨⟩, none⟩
  | chatted {m session fd' session'} (request : requestIn server.messageBuffer = some (.sendChat m))
      (present : server.sessions.sessions fd = some session) (authenticated : session.authenticated = true)
      (route : server.sessions.userToFd m.recipient = some fd')
      (target : server.sessions.sessions fd' = some session') :
      Answer sha256 server fd result
        (let passed := server.sendResponse session'.channel ⟨.receiveChat, ⟨session.username, m.content⟩⟩ result
         ⟨passed.2.1, if passed.1 then .success ⟨⟩ else failure FailureText.chatFailed, some passed.2.2⟩)

theorem answer_of_request {request : Request} {session : Session χ} {result : Int} {handled : Handled χ}
    (hreq : requestIn server.messageBuffer = some request) (hs : server.sessions.sessions fd = some session)
    (h : handleRequest sha256 server fd request result = .ok handled) :
    Answer sha256 server fd result handled := by
  cases request with
  | ping m =>
    cases Except.ok.inj h
    exact .ping hreq
  | register m =>
    rcases handleRegister_cases sha256 server fd m with ⟨habsent, hok⟩ | ⟨text, hshort, hok⟩
    · cases Except.ok.inj (hok.symm.trans h)
      exact .registered hreq habsent
    · cases Except.ok.inj (hok.symm.trans h)
      exact .refused hshort
  | login m =>
    rcases handleLogin_cases sha256 server fd m with
      ⟨session', hstored, hs', hfree, hok⟩ | ⟨_, text, hshort, hok⟩
    · cases Except.ok.inj (hok.symm.trans h)
      exact .loggedIn hreq hstored hs' hfree
    · cases Except.ok.inj (hok.symm.trans h)
      exact .refused hshort
  | sendChat m =>
    rcases handleSendChat_cases server m result hs with
      ⟨fd', session', hauth, hroute, hs', hok⟩ | ⟨_, text, hshort, hok⟩
    · cases Except.ok.inj (hok.symm.trans h)
      exact .chatted hreq hs hauth hroute hs'
    · cases Except.ok.inj (hok.symm.trans h)
      exact .refused hshort

theorem answer_of_handled {session : Session χ} {result : Int} {handled : Handled χ}
    (hs : server.sessions.sessions fd = some session)
    (h : handleBufferedRequest sha256 server fd result = .ok handled) :
    Answer sha256 server fd result handled := by
  cases hreq : requestIn server.messageBuffer with
  | none =>
    obtain ⟨text, hshort, rfl⟩ := handleBufferedRequest_refuses hreq h
    exact .refused hshort
  | some request =>
    rw [handleBufferedRequest_request result (requestIn_iff.mp hreq)] at h
    exact answer_of_request hreq hs h

theorem Answer.registered_eq {result : Int} {handled : Handled χ} (h : Answer sha256 server fd result handled) :
    handled.server.registered = server.registered := by
  cases h with
  | refused => rfl
  | ping => rfl
  | registered => rfl
  | loggedIn => rfl
  | chatted =>
    dsimp only
    rw [sendResponse_registered]

/-- A request is answered by a Success or by a Failure with one of the server's texts. -/
theorem Answer.response_cases {result : Int} {handled : Handled χ} (h : Answer sha256 server fd result handled) :
    handled.response = .success ⟨⟩ ∨ ∃ text, Short text ∧ handled.response = failure text := by
  cases h with
  | refused short => exact Or.inr ⟨_, short, rfl⟩
  | ping => exact Or.inl rfl
  | registered => exact Or.inl rfl
  | loggedIn => exact Or.inl rfl
  | chatted =>
    dsimp only
    split
    · exact Or.inl rfl
    · exact Or.inr ⟨_, by decide, rfl⟩

theorem Answer.response_fits {result : Int} {handled : Handled χ} (h : Answer sha256 server fd result handled) :
    handled.response.message.encode.length ≤ messageBufferSize.toNat := by
  rw [messageBufferSize_toNat]
  rcases h.response_cases with hsuccess | ⟨text, hshort, hfailure⟩
  · rw [hsuccess]
    decide
  · have hlen : (failure text).message.encode.length = 9 + text.data.length := by
      simp [failure, Response.message, Message.encode, MessageType.encode, MessageType.writes, messageWrites,
        fieldWrites]
      omega
    have hbound : text.data.length ≤ 294 := hshort
    rw [hfailure, hlen]
    omega

/-- All that one turn of the event loop can do. -/
inductive Effect (sha256 : List UInt8 → Digest) (server : Server χ) : Event χ → Output χ → Server χ → Prop
  | rejected {fd agreed} (why : fd = -1 ∨ agreed = none) :
      Effect sha256 server (.accept fd agreed) Output.silent server
  | connected {fd channel} (valid : fd ≠ -1) :
      Effect sha256 server (.accept fd (some channel)) Output.silent
        { server with
          sessions := { server.sessions with
            sessions := server.sessions.sessions.emplace fd ⟨channel, ByteString.empty, false⟩ }
          registered := fun k => if k = fd then true else server.registered k }
  | ignored {fd received chatResult responseResult} (absent : server.sessions.sessions fd = none) :
      Effect sha256 server (.ready fd received chatResult responseResult) Output.silent server
  | destroyed {fd session chatResult responseResult} (present : server.sessions.sessions fd = some session)
      (authenticated : session.authenticated = true) :
      Effect sha256 server (.ready fd none chatResult responseResult) Output.silent
        { server with
          sessions := ⟨server.sessions.sessions.erase fd, server.sessions.userToFd.erase session.username⟩
          registered := fun k => if k = fd then false else server.registered k }
  | leaked {fd session chatResult responseResult} (present : server.sessions.sessions fd = some session)
      (unauthenticated : session.authenticated = false) :
      Effect sha256 server (.ready fd none chatResult responseResult) Output.silent
        { server with registered := fun k => if k = fd then false else server.registered k }
  | answered {fd session buffer chatResult responseResult handled}
      (present : server.sessions.sessions fd = some session)
      (answer : Answer sha256 { server with messageBuffer := buffer } fd chatResult handled) :
      Effect sha256 server (.ready fd (some buffer) chatResult responseResult)
        ⟨some handled.response, handled.forwarded,
          some (handled.server.sendResponse session.channel handled.response.message responseResult).2.2⟩
        (handled.server.sendResponse session.channel handled.response.message responseResult).2.1

theorem closeConnection_cases (server : Server χ) (fd : Int) :
    (∃ session, server.sessions.sessions fd = some session ∧ session.authenticated = true ∧
      server.closeConnection fd = .ok { server with
        sessions := ⟨server.sessions.sessions.erase fd, server.sessions.userToFd.erase session.username⟩
        registered := fun k => if k = fd then false else server.registered k }) ∨
    ((∀ session, server.sessions.sessions fd = some session → session.authenticated = false) ∧
      server.closeConnection fd =
        .ok { server with registered := fun k => if k = fd then false else server.registered k }) := by
  rcases server.sessions.destroy_cases fd with ⟨session, hs, hauth, hdestroy⟩ | ⟨hno, hdestroy⟩
  · exact Or.inl ⟨session, hs, hauth, by simp [closeConnection, hdestroy, bind, Except.bind, pure, Except.pure]⟩
  · exact Or.inr ⟨hno, by simp [closeConnection, hdestroy, bind, Except.bind, pure, Except.pure]⟩

theorem step_of_handled {session : Session χ} {buffer : MessageBuffer} {chatResult : Int} {handled : Handled χ}
    (responseResult : Int) (hs : server.sessions.sessions fd = some session)
    (h : handleBufferedRequest sha256 { server with messageBuffer := buffer } fd chatResult = .ok handled) :
    Step sha256 server (.ready fd (some buffer) chatResult responseResult)
      ⟨some handled.response, handled.forwarded,
        some (handled.server.sendResponse session.channel handled.response.message responseResult).2.2⟩
      (handled.server.sendResponse session.channel handled.response.message responseResult).2.1 := by
  have hest := SessionManager.isEstablished_iff.mpr ⟨session, hs⟩
  have hchannel := SessionManager.getChannel_ok hs
  simp only [Step, handleEvent, hest, hchannel, h, if_true, bind, Except.bind]
  rfl

theorem handled_of_step {out : Output χ} {session : Session χ} {buffer : MessageBuffer}
    {chatResult responseResult : Int} (hs : server.sessions.sessions fd = some session)
    (h : Step sha256 server (.ready fd (some buffer) chatResult responseResult) out next) :
    ∃ handled, handleBufferedRequest sha256 { server with messageBuffer := buffer } fd chatResult = .ok handled ∧
      out = ⟨some handled.response, handled.forwarded,
        some (handled.server.sendResponse session.channel handled.response.message responseResult).2.2⟩ ∧
      next = (handled.server.sendResponse session.channel handled.response.message responseResult).2.1 := by
  have hest := SessionManager.isEstablished_iff.mpr ⟨session, hs⟩
  have hchannel := SessionManager.getChannel_ok hs
  simp only [Step, handleEvent, hest, hchannel, if_true, bind, Except.bind] at h
  cases hhandled : handleBufferedRequest sha256 { server with messageBuffer := buffer } fd chatResult with
  | error e => simp [hhandled] at h
  | ok handled =>
    simp only [hhandled] at h
    obtain ⟨hnext, hout⟩ := Prod.mk.inj (Except.ok.inj h)
    exact ⟨handled, rfl, hout.symm, hnext.symm⟩

theorem effect_of_step {event : Event χ} {out : Output χ} (h : Step sha256 server event out next) :
    Effect sha256 server event out next := by
  cases event with
  | accept fd agreed =>
    unfold Step handleEvent at h
    dsimp only at h
    split at h
    next hfd =>
      obtain ⟨rfl, rfl⟩ := Prod.mk.inj (Except.ok.inj h)
      cases agreed with
      | none => exact .rejected (Or.inr rfl)
      | some channel => exact .connected hfd
    next hfd =>
      obtain ⟨rfl, rfl⟩ := Prod.mk.inj (Except.ok.inj h)
      exact .rejected (Or.inl (not_not.mp hfd))
  | ready fd received chatResult responseResult =>
    cases hs : server.sessions.sessions fd with
    | none =>
      have he : server.sessions.isEstablished fd = false := Table.contains_eq_false.mpr hs
      simp only [Step, handleEvent, he, Bool.false_eq_true, if_false] at h
      obtain ⟨rfl, rfl⟩ := Prod.mk.inj (Except.ok.inj h)
      exact .ignored hs
    | some session =>
      have he : server.sessions.isEstablished fd = true := SessionManager.isEstablished_iff.mpr ⟨session, hs⟩
      have hchannel := SessionManager.getChannel_ok hs
      cases received with
      | none =>
        rcases closeConnection_cases server fd with ⟨session', hs', hauth, hclose⟩ | ⟨hno, hclose⟩
        · simp only [Step, handleEvent, he, hchannel, hclose, if_true, bind, Except.bind] at h
          obtain ⟨rfl, rfl⟩ := Prod.mk.inj (Except.ok.inj h)
          exact .destroyed hs' hauth
        · simp only [Step, handleEvent, he, hchannel, hclose, if_true, bind, Except.bind] at h
          obtain ⟨rfl, rfl⟩ := Prod.mk.inj (Except.ok.inj h)
          exact .leaked hs (hno session hs)
      | some buffer =>
        obtain ⟨handled, hhandled, rfl, rfl⟩ := handled_of_step hs h
        exact .answered hs (answer_of_handled hs hhandled)

/-- A chat is only forwarded for a SendChat request of a user that is logged in. -/
theorem forwarded_of_effect {event : Event χ} {out : Output χ} {delivery : Delivery χ}
    (h : Effect sha256 server event out next) (hforward : out.forwarded = some delivery) :
    ∃ fd buffer chatResult responseResult m session fd' session',
      event = .ready fd (some buffer) chatResult responseResult ∧ requestIn buffer = some (.sendChat m) ∧
      server.sessions.sessions fd = some session ∧ session.authenticated = true ∧
      server.sessions.userToFd m.recipient = some fd' ∧ server.sessions.sessions fd' = some session' ∧
      delivery = (sendResponse { server with messageBuffer := buffer } session'.channel
        ⟨.receiveChat, ⟨session.username, m.content⟩⟩ chatResult).2.2 := by
  cases h with
  | rejected => cases hforward
  | connected => cases hforward
  | ignored => cases hforward
  | destroyed => cases hforward
  | leaked => cases hforward
  | answered _ answer =>
    cases answer with
    | refused => cases hforward
    | ping => cases hforward
    | registered => cases hforward
    | loggedIn => cases hforward
    | chatted request present authenticated route target =>
      exact ⟨_, _, _, _, _, _, _, _, rfl, request, present, authenticated, route, target,
        (Option.some.inj hforward).symm⟩

/-- A descriptor stays registered until it is closed. -/
theorem registered_of_effect {event : Event χ} {out : Output χ} (h : Effect sha256 server event out next)
    (hfd : server.registered fd = true) :
    next.registered fd = true ∨ ∃ chatResult responseResult, event = .ready fd none chatResult responseResult := by
  cases h with
  | rejected => exact Or.inl hfd
  | @connected k channel =>
    refine Or.inl ?_
    by_cases hk : fd = k <;> simp [hk, hfd]
  | ignored => exact Or.inl hfd
  | @destroyed k _ chatResult responseResult =>
    by_cases hk : fd = k
    · exact Or.inr ⟨chatResult, responseResult, by rw [hk]⟩
    · exact Or.inl (by simp [hk, hfd])
  | @leaked k _ chatResult responseResult =>
    by_cases hk : fd = k
    · exact Or.inr ⟨chatResult, responseResult, by rw [hk]⟩
    · exact Or.inl (by simp [hk, hfd])
  | answered _ answer =>
    refine Or.inl ?_
    rw [sendResponse_registered, answer.registered_eq]
    exact hfd

theorem Answer.session_kept {result : Int} {handled : Handled χ} {k : Int} {session : Session χ}
    (h : Answer sha256 server fd result handled) (hs : server.sessions.sessions k = some session) :
    ∃ session', handled.server.sessions.sessions k = some session' := by
  cases h with
  | refused => exact ⟨session, hs⟩
  | ping => exact ⟨session, hs⟩
  | registered => exact ⟨session, hs⟩
  | @loggedIn m previous =>
    by_cases hk : k = fd
    · subst hk
      exact ⟨_, Table.assign_self _ _ _⟩
    · exact ⟨session, (Table.assign_ne hk).trans hs⟩
  | chatted =>
    dsimp only
    rw [sendResponse_sessions]
    exact ⟨session, hs⟩

/-- A registered descriptor has a session. -/
theorem present_step {event : Event χ} {out : Output χ} {k : Int}
    (present : ∀ fd, server.registered fd = true → ∃ session, server.sessions.sessions fd = some session)
    (h : Effect sha256 server event out next) (hk : next.registered k = true) :
    ∃ session, next.sessions.sessions k = some session := by
  cases h with
  | rejected => exact present k hk
  | @connected fd channel =>
    cases hfd : server.sessions.sessions fd with
    | some previous =>
      rw [Table.emplace_present hfd]
      by_cases hkfd : k = fd
      · exact ⟨previous, by rw [hkfd, hfd]⟩
      · exact present k (by simpa [hkfd] using hk)
    | none =>
      rw [Table.emplace_absent hfd]
      by_cases hkfd : k = fd
      · subst hkfd
        exact ⟨_, Table.assign_self _ _ _⟩
      · obtain ⟨session, hs⟩ := present k (by simpa [hkfd] using hk)
        exact ⟨session, (Table.assign_ne hkfd).trans hs⟩
  | ignored => exact present k hk
  | @destroyed fd =>
    by_cases hkfd : k = fd
    · simp [hkfd] at hk
    · obtain ⟨session, hs⟩ := present k (by simpa [hkfd] using hk)
      exact ⟨session, (Table.erase_ne hkfd).trans hs⟩
  | @leaked fd =>
    by_cases hkfd : k = fd
    · simp [hkfd] at hk
    · exact present k (by simpa [hkfd] using hk)
  | answered _ answer =>
    rw [sendResponse_registered, answer.registered_eq] at hk
    rw [sendResponse_sessions]
    obtain ⟨session, hs⟩ := present k hk
    exact answer.session_kept hs

theorem accepted_of_registered {event : Event χ} {out : Output χ} (h : Effect sha256 server event out next)
    (hfd : next.registered fd = true) : server.registered fd = true ∨ ∃ agreed, event = .accept fd agreed := by
  cases h with
  | rejected => exact Or.inl hfd
  | @connected k channel =>
    by_cases hk : fd = k
    · exact Or.inr ⟨some channel, by rw [hk]⟩
    · exact Or.inl (by simpa [hk] using hfd)
  | ignored => exact Or.inl hfd
  | @destroyed k =>
    by_cases hk : fd = k
    · simp [hk] at hfd
    · exact Or.inl (by simpa [hk] using hfd)
  | @leaked k =>
    by_cases hk : fd = k
    · simp [hk] at hfd
    · exact Or.inl (by simpa [hk] using hfd)
  | answered _ answer =>
    refine Or.inl ?_
    rw [sendResponse_registered, answer.registered_eq] at hfd
    exact hfd

theorem registered_stays {event : Event χ} {out : Output χ} (h : Effect sha256 server event out next)
    (hopen : ∀ chatResult responseResult, event ≠ .ready fd none chatResult responseResult)
    (hfd : server.registered fd = true) : next.registered fd = true := by
  rcases registered_of_effect h hfd with hstill | ⟨chatResult, responseResult, hclose⟩
  · exact hstill
  · exact absurd hclose (hopen chatResult responseResult)

theorem unregistered_stays {event : Event χ} {out : Output χ} (h : Effect sha256 server event out next)
    (haccept : ∀ agreed, event ≠ .accept fd agreed) (hfd : server.registered fd = false) :
    next.registered fd = false := by
  by_contra hnext
  rcases accepted_of_registered h (by simpa using hnext) with hbefore | ⟨agreed, hevent⟩
  · rw [hfd] at hbefore
    cases hbefore
  · exact haccept agreed hevent

/-- A step as a function, taken only where `allowed`. -/
def advance (sha256 : List UInt8 → Digest) (allowed : Server χ → Event χ → Bool) (server : Server χ)
    (event : Event χ) : Option (Output χ × Server χ) :=
  if allowed server event then
    match server.handleEvent sha256 event with
    | .ok (next, out) => some (out, next)
    | .error _ => none
  else none

theorem step_of_advance {allowed : Server χ → Event χ → Bool} {event : Event χ} {out : Output χ}
    (h : advance sha256 allowed server event = some (out, next)) :
    Guarded (fun s e => allowed s e = true) (Step sha256) server event out next := by
  unfold advance at h
  split at h
  next hallowed =>
    split at h
    next hstep =>
      cases h
      exact ⟨hallowed, hstep⟩
    next => cases h
  next => cases h

theorem reaches_of_execute (sha256 : List UInt8 → Digest) (allowed : Server χ → Event χ → Bool)
    (events : List (Event χ)) (good : List (Event χ × Output χ) → Server χ → Bool)
    (h : (Run.execute (advance sha256 allowed) init events).any (fun reached => good reached.1 reached.2) = true) :
    ∃ trace server, Run (Guarded (fun s e => allowed s e = true) (Step sha256)) init trace server ∧
      good trace server = true :=
  Run.exists_of_execute events good step_of_advance h

theorem step_of_computed (event : Event χ) (good : Output χ → Bool)
    (h : (advance sha256 (fun _ _ => true) server event).any (fun r => good r.1) = true) :
    ∃ out next, Step sha256 server event out next ∧ good out = true := by
  cases ha : advance sha256 (fun _ _ => true) server event with
  | none =>
    rw [ha] at h
    cases h
  | some r =>
    rw [ha] at h
    exact ⟨r.1, r.2, (step_of_advance ha).2, h⟩

/-- A digest for runs on concrete passwords, different for those used there. -/
def paddedDigest (bytes : List UInt8) : Digest := ⟨(bytes ++ List.replicate 32 0).take 32, by simp⟩

def alice : Login := ⟨⟨asciiBytes "alice_adams", by decide⟩, ⟨asciiBytes "aliceAdams123!", by decide⟩⟩

def brian : Login := ⟨⟨asciiBytes "brian_baker", by decide⟩, ⟨asciiBytes "brianBaker234@", by decide⟩⟩

def hello : SendChat := ⟨alice.username, ⟨asciiBytes "I love you.", by decide⟩⟩

def registering (account : Login) : Request := .register ⟨account.username, account.password⟩

/-- A descriptor gets ready with a request that was written into a buffer of zero bytes. -/
def asks (fd : Int) (request : Request) : Event χ :=
  .ready fd (some (request.message.serialize (ByteVector.zero messageBufferSize)).2) 1 1

theorem requestIn_serialized {request : Request} (h : request.message.encode.length ≤ messageBufferSize.toNat) :
    requestIn (request.message.serialize (ByteVector.zero messageBufferSize)).2 = some request := by
  refine requestIn_iff.mpr ?_
  have hbytes : (request.message.serialize (ByteVector.zero messageBufferSize)).2.bytes = _ :=
    serialize_bytes_of_fits h
  rw [hbytes]
  exact List.prefix_append _ _

end Server

end SecureMessaging
