import SecureMessaging.Dispatch

namespace SecureMessaging

/-- An event on which no `resize` throws. -/
def Event.Harmless {χ : Type} : Event χ → Prop
  | .ready _ (some buffer) _ _ => Resizable Request.types buffer
  | _ => True

namespace Server

variable {χ : Type} {sha256 : List UInt8 → Digest} {server : Server χ} {fd : Int}

theorem accept_returns (sha256 : List UInt8 → Digest) (server : Server χ) (fd : Int) (agreed : Option χ) :
    ∃ out next, Step sha256 server (.accept fd agreed) out next := by
  unfold Step handleEvent
  by_cases hfd : fd ≠ -1
  · exact ⟨_, _, if_pos hfd⟩
  · exact ⟨_, _, if_neg hfd⟩

theorem ignored_returns (sha256 : List UInt8 → Digest) (received : Option MessageBuffer)
    (chatResult responseResult : Int) (h : server.sessions.sessions fd = none) :
    Step sha256 server (.ready fd received chatResult responseResult) Output.silent server := by
  have habsent : ¬server.sessions.isEstablished fd = true :=
    Bool.eq_false_iff.mp (Table.contains_eq_false.mpr h)
  exact if_neg habsent

/-- `Destroy` looks the session up only after `IsEstablished` found it. -/
theorem closing_returns (sha256 : List UInt8 → Digest) {session : Session χ} (chatResult responseResult : Int)
    (hs : server.sessions.sessions fd = some session) :
    ∃ next, Step sha256 server (.ready fd none chatResult responseResult) Output.silent next := by
  have hest := SessionManager.isEstablished_iff.mpr ⟨session, hs⟩
  have hchannel := SessionManager.getChannel_ok hs
  obtain ⟨next, hclose⟩ : ∃ next, server.closeConnection fd = .ok next := by
    rcases closeConnection_cases server fd with ⟨_, _, _, hclose⟩ | ⟨_, hclose⟩
    · exact ⟨_, hclose⟩
    · exact ⟨_, hclose⟩
  refine ⟨next, ?_⟩
  simp only [Step, handleEvent, hest, hchannel, hclose, if_true, bind, Except.bind]
  rfl

theorem harmless_returns (sha256 : List UInt8 → Digest) (server : Server χ) {event : Event χ}
    (h : event.Harmless) : ∃ out next, Step sha256 server event out next := by
  cases event with
  | accept fd agreed => exact accept_returns sha256 server fd agreed
  | ready fd received chatResult responseResult =>
    cases hs : server.sessions.sessions fd with
    | none => exact ⟨_, _, ignored_returns sha256 received chatResult responseResult hs⟩
    | some session =>
      cases received with
      | none =>
        obtain ⟨next, hstep⟩ := closing_returns sha256 chatResult responseResult hs
        exact ⟨_, next, hstep⟩
      | some buffer => exact request_returns sha256 hs h chatResult responseResult

theorem getChannel_iff {channel : χ} :
    server.sessions.getChannel fd = .ok channel ↔ server.channels fd = some channel := by
  unfold channels
  cases hs : server.sessions.sessions fd with
  | none => simp [SessionManager.getChannel, Table.atKey, hs, bind, Except.bind]
  | some session => simp [SessionManager.getChannel_ok hs]

/-- What stands behind the reference that `HandleEvents` takes when the response is sent: every session
is still there with its channel. -/
structure ReferenceKept (server after : Server χ) (fd : Int) (channel : χ) : Prop where
  sessions : after.channels = server.channels
  same : after.sessions.getChannel fd = .ok channel

theorem reference_kept {session : Session χ} {buffer : MessageBuffer} {chatResult : Int} {handled : Handled χ}
    (hs : server.sessions.sessions fd = some session)
    (h : handleBufferedRequest sha256 { server with messageBuffer := buffer } fd chatResult = .ok handled) :
    ReferenceKept server handled.server fd session.channel := by
  have hanswer : Answer sha256 { server with messageBuffer := buffer } fd chatResult handled := answer_of_handled hs h
  have hchannels : handled.server.channels = server.channels := hanswer.frame.2.2
  refine ⟨hchannels, getChannel_iff.mpr ?_⟩
  rw [hchannels]
  exact getChannel_iff.mp (SessionManager.getChannel_ok hs)

/-- No event on which no `resize` throws ends the server, so each `at` finds its key; and the reference
taken before `HandleBufferedRequest` is good until the response is sent. -/
theorem lookups_succeed (sha256 : List UInt8 → Digest) :
    (∀ events : List (Event χ), (∀ event ∈ events, event.Harmless) →
      ∃ trace server, Run (Step sha256) init trace server ∧ trace.map Prod.fst = events) ∧
    ∀ (trace : List (Event χ × Output χ)) (server : Server χ), Run (Step sha256) init trace server →
      (∀ event, event.Harmless → ∃ out next, Step sha256 server event out next) ∧
      ∀ fd buffer chatResult responseResult, server.sessions.isEstablished fd = true →
        Resizable Request.types buffer → ∃ channel handled delivery next,
          server.sessions.getChannel fd = .ok channel ∧
          handleBufferedRequest sha256 { server with messageBuffer := buffer } fd chatResult = .ok handled ∧
          ReferenceKept server handled.server fd channel ∧ delivery.channel = channel ∧
          Step sha256 server (.ready fd (some buffer) chatResult responseResult)
            ⟨some handled.response, handled.forwarded, some delivery⟩ next := by
  refine ⟨?_, ?_⟩
  · intro events hevents
    exact Run.of_allowed (fun server event (h : event.Harmless) => harmless_returns sha256 server h) init events hevents
  · intro trace server _
    refine ⟨fun _ h => harmless_returns sha256 server h, ?_⟩
    intro fd buffer chatResult responseResult hest hbuffer
    obtain ⟨session, hs⟩ := SessionManager.isEstablished_iff.mp hest
    obtain ⟨handled, hhandled⟩ := @handleBufferedRequest_returns χ { server with messageBuffer := buffer } fd sha256
      session hs hbuffer chatResult
    refine ⟨session.channel, handled, _, _, SessionManager.getChannel_ok hs, hhandled, reference_kept hs hhandled, ?_,
      step_of_handled responseResult hs hhandled⟩
    rw [sendResponse_delivery]

theorem harmless_asks {request : Request} (h : request.message.encode.length ≤ messageBufferSize.toNat) :
    (asks fd request : Event χ).Harmless :=
  resizable_of_encoded (requestIn_iff.mp (requestIn_serialized h))

/-- A connection logs in under two names and closes; then a chat is sent to the name that stays in the name map. -/
def staleRun : List (Event Nat) :=
  [.accept 5 (some 0), .accept 6 (some 1), asks 5 (registering alice), asks 5 (registering brian),
    asks 5 (.login alice), asks 5 (.login brian), .ready 5 none 1 1, asks 6 (.login brian)]

theorem lookups_succeed_staleRun : ∃ trace server,
    Run (Step paddedDigest) (init : Server Nat) trace server ∧ trace.map Prod.fst = staleRun ∧
      ∃ out next, Step paddedDigest server (asks 6 (.sendChat hello)) out next := by
  have halice : (asks 5 (registering alice) : Event Nat).Harmless := harmless_asks (by decide +kernel)
  have hbrian : (asks 5 (registering brian) : Event Nat).Harmless := harmless_asks (by decide +kernel)
  have hlogin : ∀ fd, (asks fd (.login alice) : Event Nat).Harmless := fun _ => harmless_asks (by decide +kernel)
  have hlogin' : ∀ fd, (asks fd (.login brian) : Event Nat).Harmless := fun _ => harmless_asks (by decide +kernel)
  have hchat : (asks 6 (.sendChat hello) : Event Nat).Harmless := harmless_asks (by decide +kernel)
  have hall : ∀ event ∈ staleRun, event.Harmless := by
    simp only [staleRun, List.forall_mem_cons]
    exact ⟨trivial, trivial, halice, hbrian, hlogin 5, hlogin' 5, trivial, hlogin' 6,
      fun _ h => absurd h List.not_mem_nil⟩
  obtain ⟨trace, server, run, hevents⟩ := (lookups_succeed paddedDigest).1 staleRun hall
  exact ⟨trace, server, run, hevents, ((lookups_succeed paddedDigest).2 trace server run).1 _ hchat⟩

end Server

end SecureMessaging
