import SecureMessaging.Verdict

namespace SecureMessaging

variable {χ : Type}

theorem AccountRegistry.validateUsername_congr {registry registry' : AccountRegistry} {u : ByteString}
    (h : registry'.accounts u = registry.accounts u) : registry'.validateUsername u = registry.validateUsername u := by
  unfold validateUsername Table.contains
  rw [h]

namespace Change

variable {change change' : Change χ} {fd fd' : Int} {channel channel' : χ} {name name' : Option ByteString}
  {u : ByteString}

/-- A change that a request naming `name` makes on the connection of `fd`. -/
def About (fd : Int) (channel : χ) (name : Option ByteString) : Change χ → Prop
  | nothing => True
  | account u _ => name = some u
  | login k c u => k = fd ∧ c = channel ∧ name = some u

theorem About.accounts_other (h : change.About fd channel name) (hu : name ≠ some u) (registry : AccountRegistry) :
    (change.accounts registry).accounts u = registry.accounts u := by
  cases change with
  | nothing => rfl
  | account v hash =>
    have hv : u ≠ v := by
      intro huv
      exact hu (by rw [huv]; exact h)
    exact Table.emplace_ne hv
  | login => rfl

theorem About.sessions_other (h : change.About fd channel name) {k : Int} (hk : k ≠ fd)
    (manager : SessionManager χ) : (change.sessions manager).sessions k = manager.sessions k := by
  cases change with
  | nothing => rfl
  | account => rfl
  | login k' c v =>
    obtain ⟨rfl, _, _⟩ := h
    exact Table.assign_ne hk

/-- A login under another name does not turn a route. -/
theorem About.route_other {manager : SessionManager χ} {session : Session χ}
    (h : change.About fd session.channel name) (hs : manager.sessions fd = some session) (hu : name ≠ some u) :
    (change.sessions manager).route u = manager.route u := by
  cases change with
  | nothing => rfl
  | account => rfl
  | login k c v =>
    obtain ⟨rfl, rfl, hname⟩ := h
    have hv : u ≠ v := by
      intro huv
      exact hu (by rw [huv]; exact hname)
    have hentry : ((login k session.channel v).sessions manager).userToFd u = manager.userToFd u :=
      Table.emplace_ne hv
    have hchannel : ∀ j, (((login k session.channel v).sessions manager).sessions j).map Session.channel =
        (manager.sessions j).map Session.channel := by
      intro j
      by_cases hj : j = k
      · subst hj
        simp [sessions, hs]
      · simp [sessions, Table.assign_ne hj]
    unfold SessionManager.route
    rw [hentry, Option.map_bind, Option.map_bind]
    exact congrArg (Option.bind _) (funext hchannel)

theorem accounts_comm (h : change.About fd channel name) (h' : change'.About fd' channel' name')
    (hnames : ∀ u, name = some u → name' ≠ some u) (registry : AccountRegistry) :
    change'.accounts (change.accounts registry) = change.accounts (change'.accounts registry) := by
  cases change with
  | nothing => rfl
  | login => rfl
  | account u hash =>
    cases change' with
    | nothing => rfl
    | login => rfl
    | account v hash' =>
      have huv : u ≠ v := by
        intro huv
        exact hnames u h (by rw [huv]; exact h')
      exact congrArg AccountRegistry.mk (Table.emplace_comm registry.accounts hash hash' huv)

theorem sessions_comm (h : change.About fd channel name) (h' : change'.About fd' channel' name')
    (hfd : fd ≠ fd') (hnames : ∀ u, name = some u → name' ≠ some u) (manager : SessionManager χ) :
    change'.sessions (change.sessions manager) = change.sessions (change'.sessions manager) := by
  cases change with
  | nothing => rfl
  | account => rfl
  | login k c u =>
    cases change' with
    | nothing => rfl
    | account => rfl
    | login k' c' v =>
      obtain ⟨rfl, _, hu⟩ := h
      obtain ⟨rfl, _, hv⟩ := h'
      have huv : u ≠ v := by
        intro huv
        exact hnames u hu (by rw [huv]; exact hv)
      have hsessions := Table.assign_comm manager.sessions ⟨c, u, true⟩ ⟨c', v, true⟩ hfd
      have hnames := Table.emplace_comm manager.userToFd k k' huv
      simp only [sessions, hsessions, hnames]

end Change

namespace Server

variable {sha256 : List UInt8 → Digest} {server server' : Server χ} {fd fd' : Int}
  {session session' : Session χ} {request request' : Request} {result result' : Int}

theorem verdict_about (sha256 : List UInt8 → Digest) (server : Server χ) (fd : Int) (session : Session χ)
    (result : Int) (request : Request) :
    (verdict sha256 server fd session result request).change.About fd session.channel request.name := by
  cases request with
  | ping m => trivial
  | register m =>
    unfold verdict
    dsimp only
    split
    · rfl
    · trivial
  | login m =>
    unfold verdict
    dsimp only
    split
    · split
      · trivial
      · exact ⟨rfl, rfl, rfl⟩
    · trivial
  | sendChat m =>
    unfold verdict
    dsimp only
    split
    · split
      · trivial
      · trivial
    · trivial

/-- A request only looks at what the maps have for the name in it. -/
theorem verdict_congr (haccounts : ∀ u, request.name = some u →
      server'.accounts.accounts u = server.accounts.accounts u)
    (hroutes : ∀ u, request.name = some u → server'.sessions.route u = server.sessions.route u) :
    verdict sha256 server' fd session result request = verdict sha256 server fd session result request := by
  cases request with
  | ping m => rfl
  | register m =>
    have hvalid := AccountRegistry.validateUsername_congr (haccounts m.username rfl)
    simp only [verdict, hvalid]
  | login m => simp only [verdict, haccounts m.username rfl, hroutes m.username rfl]
  | sendChat m => simp only [verdict, hroutes m.recipient rfl]

theorem carryOut_response (verdict : Verdict χ) : (server.carryOut verdict result).response = verdict.response := by
  obtain ⟨response, change, chat⟩ := verdict
  cases chat <;> rfl

theorem carryOut_accounts (verdict : Verdict χ) :
    (server.carryOut verdict result).server.accounts = verdict.change.accounts server.accounts := by
  obtain ⟨response, change, chat⟩ := verdict
  cases chat with
  | none => rfl
  | some passed => exact sendResponse_accounts _ _ _ _

theorem carryOut_sessions (verdict : Verdict χ) :
    (server.carryOut verdict result).server.sessions = verdict.change.sessions server.sessions := by
  obtain ⟨response, change, chat⟩ := verdict
  cases chat with
  | none => rfl
  | some passed => exact sendResponse_sessions _ _ _ _

/-- The chat that went out, if one did, with the channel it went to. -/
def chats (forwarded : Option (Delivery χ)) : List (χ × Message) :=
  (forwarded.filter Delivery.sent).toList.map fun delivery => (delivery.channel, delivery.message)

theorem chats_sendResponse (server : Server χ) (channel : χ) (message : Message) (result : Int) :
    chats (some (server.sendResponse channel message result).2.2) =
      if message.encode.length ≤ messageBufferSize.toNat ∧ result ≠ -1 then [(channel, message)] else [] := by
  have hdelivery := server.sendResponse_delivery channel message result
  have hchannel := congrArg Delivery.channel hdelivery
  have hmessage := congrArg Delivery.message hdelivery
  rcases server.sendResponse_cases channel message result with ⟨hfits, _, hsent⟩ | ⟨hno, _, hsent⟩
  · rw [if_pos hfits]
    simp [chats, Option.filter, hsent, hchannel, hmessage]
  · rw [if_neg hno]
    simp [chats, Option.filter, hsent]

/-- What goes out is up to the verdict and the result of `Send`, not to the message buffer. -/
theorem carryOut_chats (server server' : Server χ) (verdict : Verdict χ) (result : Int) :
    chats (server'.carryOut verdict result).forwarded = chats (server.carryOut verdict result).forwarded := by
  obtain ⟨response, change, chat⟩ := verdict
  cases chat with
  | none => rfl
  | some passed =>
    obtain ⟨channel, message⟩ := passed
    exact (chats_sendResponse _ channel message result).trans (chats_sendResponse _ channel message result).symm

theorem verdict_after (hs : server.sessions.sessions fd = some session)
    (haccounts : server'.accounts =
      (verdict sha256 server fd session result request).change.accounts server.accounts)
    (hsessions : server'.sessions =
      (verdict sha256 server fd session result request).change.sessions server.sessions)
    (hnames : ∀ u, request'.name = some u → request.name ≠ some u) :
    verdict sha256 server' fd' session' result' request' = verdict sha256 server fd' session' result' request' := by
  have habout := verdict_about sha256 server fd session result request
  refine verdict_congr ?_ ?_
  · intro u hu
    rw [haccounts]
    exact habout.accounts_other (hnames u hu) server.accounts
  · intro u hu
    rw [hsessions]
    exact habout.route_other hs (hnames u hu)

theorem handled_after (hs : server.sessions.sessions fd = some session)
    (hs' : server.sessions.sessions fd' = some session') (hfd : fd' ≠ fd)
    (hnames : ∀ u, request'.name = some u → request.name ≠ some u) (result result' : Int) :
    let first := server.carryOut (verdict sha256 server fd session result request) result
    handleRequest sha256 first.server fd' request' result' =
      .ok (first.server.carryOut (verdict sha256 server fd' session' result' request') result') := by
  intro first
  have haccounts : first.server.accounts = _ := carryOut_accounts _
  have hsessions : first.server.sessions = _ := carryOut_sessions _
  have habout := verdict_about sha256 server fd session result request
  have hkept : first.server.sessions.sessions fd' = some session' := by
    rw [hsessions, habout.sessions_other hfd]
    exact hs'
  rw [handleRequest_verdict sha256 hkept, verdict_after hs haccounts hsessions hnames]

/-- What two requests come to in one order and in the other. -/
structure Commute (first second first' second' : Handled χ) : Prop where
  accounts : second.server.accounts = second'.server.accounts
  sessions : second.server.sessions = second'.server.sessions
  response : first.response = second'.response
  response' : second.response = first'.response
  chats : (chats first.forwarded ++ chats second.forwarded).Perm
    (chats first'.forwarded ++ chats second'.forwarded)

theorem handled_commute (sha256 : List UInt8 → Digest) (hs : server.sessions.sessions fd = some session)
    (hs' : server.sessions.sessions fd' = some session') (hfd : fd ≠ fd')
    (hnames : ∀ u, request.name = some u → request'.name ≠ some u) (result result' : Int) :
    ∃ first second first' second', handleRequest sha256 server fd request result = .ok first ∧
      handleRequest sha256 first.server fd' request' result' = .ok second ∧
      handleRequest sha256 server fd' request' result' = .ok first' ∧
      handleRequest sha256 first'.server fd request result = .ok second' ∧ Commute first second first' second' := by
  have hnames' : ∀ u, request'.name = some u → request.name ≠ some u := by
    intro u hu' hu
    exact hnames u hu hu'
  have habout := verdict_about sha256 server fd session result request
  have habout' := verdict_about sha256 server fd' session' result' request'
  refine ⟨_, _, _, _, handleRequest_verdict sha256 hs request result, handled_after hs hs' hfd.symm hnames' _ _,
    handleRequest_verdict sha256 hs' request' result', handled_after hs' hs hfd hnames _ _, ?_⟩
  refine ⟨?_, ?_, ?_, ?_, ?_⟩
  · rw [carryOut_accounts, carryOut_accounts, carryOut_accounts, carryOut_accounts]
    exact Change.accounts_comm habout habout' hnames server.accounts
  · rw [carryOut_sessions, carryOut_sessions, carryOut_sessions, carryOut_sessions]
    exact Change.sessions_comm habout habout' hfd hnames server.sessions
  · rw [carryOut_response, carryOut_response]
  · rw [carryOut_response, carryOut_response]
  · have hsecond := carryOut_chats server
      (server.carryOut (verdict sha256 server fd session result request) result).server
      (verdict sha256 server fd' session' result' request') result'
    have hsecond' := carryOut_chats server
      (server.carryOut (verdict sha256 server fd' session' result' request') result').server
      (verdict sha256 server fd session result request) result
    rw [hsecond, hsecond']
    exact List.perm_append_comm

/-- What one turn of the event loop makes of a verdict. -/
structure Turn (server : Server χ) (verdict : Verdict χ) (chatResult : Int) (out : Output χ) (next : Server χ) :
    Prop where
  accounts : next.accounts = verdict.change.accounts server.accounts
  sessions : next.sessions = verdict.change.sessions server.sessions
  response : out.response = some verdict.response
  chats : chats out.forwarded = chats (server.carryOut verdict chatResult).forwarded

theorem step_verdict (sha256 : List UInt8 → Digest) {buffer : MessageBuffer}
    (hs : server.sessions.sessions fd = some session) (hrequest : request.message.encode <+: buffer.bytes)
    (chatResult responseResult : Int) :
    ∃ out next, Step sha256 server (.ready fd (some buffer) chatResult responseResult) out next ∧
      Turn server (verdict sha256 server fd session chatResult request) chatResult out next := by
  generalize hreceived : ({ server with messageBuffer := buffer } : Server χ) = received
  have haccounts : received.accounts = server.accounts := by rw [← hreceived]
  have hsessions : received.sessions = server.sessions := by rw [← hreceived]
  have hs' : received.sessions.sessions fd = some session := by rw [hsessions, hs]
  have hrequest' : request.message.encode <+: received.messageBuffer.bytes := by rwa [← hreceived]
  have hverdict : verdict sha256 received fd session chatResult request =
      verdict sha256 server fd session chatResult request :=
    verdict_congr (fun u _ => by rw [haccounts]) (fun u _ => by rw [hsessions])
  have hhandled := (handleBufferedRequest_request chatResult hrequest').trans
    (handleRequest_verdict sha256 hs' request chatResult)
  rw [hverdict] at hhandled
  rw [← hreceived] at hhandled
  refine ⟨_, _, step_of_handled responseResult hs hhandled, ?_, ?_, ?_, ?_⟩
  · rw [sendResponse_accounts, carryOut_accounts]
  · rw [sendResponse_sessions, carryOut_sessions]
  · rw [carryOut_response]
  · exact carryOut_chats _ _ _ _

theorem turn_after {out : Output χ} (hs : server.sessions.sessions fd = some session)
    (hs' : server.sessions.sessions fd' = some session') (hfd : fd' ≠ fd)
    (hnames : ∀ u, request'.name = some u → request.name ≠ some u)
    (turn : Turn server (verdict sha256 server fd session result request) result out server')
    {buffer' : MessageBuffer} (hrequest' : request'.message.encode <+: buffer'.bytes)
    (result' responseResult' : Int) :
    ∃ out' next, Step sha256 server' (.ready fd' (some buffer') result' responseResult') out' next ∧
      Turn server' (verdict sha256 server fd' session' result' request') result' out' next := by
  have habout := verdict_about sha256 server fd session result request
  have hkept : server'.sessions.sessions fd' = some session' := by
    rw [turn.sessions, habout.sessions_other hfd]
    exact hs'
  have hnext := step_verdict sha256 hkept hrequest' result' responseResult'
  rwa [verdict_after hs turn.accounts turn.sessions hnames] at hnext

/-- The same for the outputs of two turns of the event loop and the servers they end in. -/
structure TurnsCommute (first second first' second' : Output χ) (last last' : Server χ) : Prop where
  accounts : last.accounts = last'.accounts
  sessions : last.sessions = last'.sessions
  response : first.response = second'.response
  response' : second.response = first'.response
  chats : (chats first.forwarded ++ chats second.forwarded).Perm
    (chats first'.forwarded ++ chats second'.forwarded)

theorem turns_commute (sha256 : List UInt8 → Digest) {buffer buffer' : MessageBuffer}
    (hs : server.sessions.sessions fd = some session) (hs' : server.sessions.sessions fd' = some session')
    (hfd : fd ≠ fd') (hnames : ∀ u, request.name = some u → request'.name ≠ some u)
    (hrequest : request.message.encode <+: buffer.bytes) (hrequest' : request'.message.encode <+: buffer'.bytes)
    (result responseResult result' responseResult' : Int) :
    ∃ first second first' second' middle middle' last last',
      Step sha256 server (.ready fd (some buffer) result responseResult) first middle ∧
      Step sha256 middle (.ready fd' (some buffer') result' responseResult') second last ∧
      Step sha256 server (.ready fd' (some buffer') result' responseResult') first' middle' ∧
      Step sha256 middle' (.ready fd (some buffer) result responseResult) second' last' ∧
      TurnsCommute first second first' second' last last' := by
  have hnames' : ∀ u, request'.name = some u → request.name ≠ some u := by
    intro u hu' hu
    exact hnames u hu hu'
  obtain ⟨first, middle, hfirst, turn⟩ := step_verdict sha256 hs hrequest result responseResult
  obtain ⟨first', middle', hfirst', turn'⟩ := step_verdict sha256 hs' hrequest' result' responseResult'
  obtain ⟨second, last, hsecond, after⟩ := turn_after hs hs' hfd.symm hnames' turn hrequest' result' responseResult'
  obtain ⟨second', last', hsecond', after'⟩ := turn_after hs' hs hfd hnames turn' hrequest result responseResult
  have habout := verdict_about sha256 server fd session result request
  have habout' := verdict_about sha256 server fd' session' result' request'
  refine ⟨first, second, first', second', middle, middle', last, last', hfirst, hsecond, hfirst', hsecond', ?_⟩
  refine ⟨?_, ?_, ?_, ?_, ?_⟩
  · rw [after.accounts, after'.accounts, turn.accounts, turn'.accounts]
    exact Change.accounts_comm habout habout' hnames server.accounts
  · rw [after.sessions, after'.sessions, turn.sessions, turn'.sessions]
    exact Change.sessions_comm habout habout' hfd hnames server.sessions
  · rw [turn.response, after'.response]
  · rw [after.response, turn'.response]
  · rw [after.chats, after'.chats, turn.chats, turn'.chats, carryOut_chats server middle, carryOut_chats server middle']
    exact List.perm_append_comm

/-- Requests on two connections that name different users can be handled in either order, one call of
`HandleRequest` after the other as well as in two turns of the event loop. -/
theorem requests_commute (sha256 : List UInt8 → Digest) (hs : server.sessions.sessions fd = some session)
    (hs' : server.sessions.sessions fd' = some session') (hfd : fd ≠ fd')
    (hnames : ∀ u, request.name = some u → request'.name ≠ some u) (result result' : Int) :
    (∃ first second first' second', handleRequest sha256 server fd request result = .ok first ∧
      handleRequest sha256 first.server fd' request' result' = .ok second ∧
      handleRequest sha256 server fd' request' result' = .ok first' ∧
      handleRequest sha256 first'.server fd request result = .ok second' ∧
      Commute first second first' second') ∧
    ∀ (buffer buffer' : MessageBuffer) (responseResult responseResult' : Int),
      request.message.encode <+: buffer.bytes → request'.message.encode <+: buffer'.bytes →
      ∃ first second first' second' middle middle' last last',
        Step sha256 server (.ready fd (some buffer) result responseResult) first middle ∧
        Step sha256 middle (.ready fd' (some buffer') result' responseResult') second last ∧
        Step sha256 server (.ready fd' (some buffer') result' responseResult') first' middle' ∧
        Step sha256 middle' (.ready fd (some buffer) result responseResult) second' last' ∧
        TurnsCommute first second first' second' last last' := by
  refine ⟨handled_commute sha256 hs hs' hfd hnames result result', ?_⟩
  intro buffer buffer' responseResult responseResult' hrequest hrequest'
  exact turns_commute sha256 hs hs' hfd hnames hrequest hrequest' result responseResult result' responseResult'

/-- Two connections without a login. -/
def twoConnections : Server Nat := ((init : Server Nat).establishConnection 5 (some 0)).establishConnection 6 (some 1)

theorem requests_commute_twoConnections : ∃ first second first' second',
    handleRequest paddedDigest twoConnections 5 (registering alice) 1 = .ok first ∧
      handleRequest paddedDigest first.server 6 (.login brian) 1 = .ok second ∧
      handleRequest paddedDigest twoConnections 6 (.login brian) 1 = .ok first' ∧
      handleRequest paddedDigest first'.server 5 (registering alice) 1 = .ok second' ∧
      Commute first second first' second' := by
  have hpresent : (twoConnections.sessions.sessions 5).isSome = true := by decide
  have hpresent' : (twoConnections.sessions.sessions 6).isSome = true := by decide
  obtain ⟨session, hs⟩ := Option.isSome_iff_exists.mp hpresent
  obtain ⟨session', hs'⟩ := Option.isSome_iff_exists.mp hpresent'
  have hnames : ∀ u, (registering alice).name = some u → (Request.login brian).name ≠ some u := by
    intro u hu hu'
    exact absurd (hu.trans hu'.symm) (by decide)
  exact (requests_commute paddedDigest hs hs' (by decide) hnames 1 1).1

end Server

end SecureMessaging
