import SecureMessaging.CommandLoop
import SecureMessaging.Lib.Decimal
import SecureMessaging.Logger
import SecureMessaging.ServerSteps

namespace SecureMessaging

/-- `ToString` of a request. -/
def Request.text : Request → List UInt8
  | .ping _ => asciiBytes "Ping"
  | .login m => asciiBytes "Login: " ++ m.username.data ++ asciiBytes ", " ++ m.password.data
  | .register m => asciiBytes "Register: " ++ m.username.data ++ asciiBytes ", " ++ m.password.data
  | .sendChat m => asciiBytes "Send Chat: To " ++ m.recipient.data ++ asciiBytes " - " ++ m.content.data

namespace AccountRegistry

def attempt (username password : ByteString) : LogEntry :=
  ⟨.info, asciiBytes "[AccountRegistry] Attempting to register \"" ++ username.data ++
    asciiBytes "\" with password \"" ++ password.data ++ asciiBytes "\""⟩

def registerLog (registry : AccountRegistry) (username password : ByteString) : List LogEntry :=
  let errors := registry.validateUsername username ||| validatePassword password
  attempt username password :: if errors = Error.none then []
    else [⟨.error, asciiBytes "[AccountRegistery]\n" ++ (errorString errors).data⟩]

end AccountRegistry

namespace Server

variable {χ : Type}

/-- What is logged on the way through `HandleRequest`. -/
def handleRequestLog (server : Server χ) : Request → List LogEntry
  | .register m => server.accounts.registerLog m.username m.password
  | .ping _ => []
  | .login _ => []
  | .sendChat _ => []

def received (request : Request) : LogEntry :=
  ⟨.info, asciiBytes "[Server] Received: \"" ++ request.text ++ asciiBytes "\""⟩

/-- An exception of `Deserialize` goes by the log. -/
def handleBufferedRequestAsLog {T : Type} [Inhabited T] (server : Server χ)
    (deserialize : T → MessageBuffer → Decoded T) (wrap : T → Request) : List LogEntry :=
  let decoded := deserialize default server.messageBuffer
  match decoded.result with
  | .ok true => received (wrap decoded.object) :: server.handleRequestLog (wrap decoded.object)
  | _ => []

def typeIdRead (id : UInt8) : LogEntry :=
  ⟨.trace, asciiBytes "[Server] Request Type ID: \"" ++ decimal id.toNat ++ asciiBytes "\""⟩

def handleBufferedRequestLog (server : Server χ) : List LogEntry :=
  match (ByteReader.new server.messageBuffer).read 1 with
  | some ([id], _) =>
    typeIdRead id ::
      if id = Ping.typeId then server.handleBufferedRequestAsLog Ping.deserialize .ping
      else if id = Register.typeId then server.handleBufferedRequestAsLog Register.deserialize .register
      else if id = Login.typeId then server.handleBufferedRequestAsLog Login.deserialize .login
      else if id = SendChat.typeId then server.handleBufferedRequestAsLog SendChat.deserialize .sendChat
      else []
  | _ => []

def replied (sent : Bool) (response : Response) : LogEntry :=
  if sent then ⟨.info, asciiBytes "[Server] Sent: \"" ++ response.text ++ asciiBytes "\""⟩
  else ⟨.error, asciiBytes "[Server] Failed to send: \"" ++ response.text ++ asciiBytes "\""⟩

def establishing (fd : Int) : LogEntry := ⟨.info, asciiBytes "[Server] Establishing connection " ++ decimal fd⟩

def closing (fd : Int) : LogEntry := ⟨.info, asciiBytes "[Server] Closing connection " ++ decimal fd⟩

def unsecured (fd : Int) : LogEntry :=
  ⟨.error, asciiBytes "[Server] Received request from host without secure connection: " ++ decimal fd⟩

/-- What the body of the loop in `HandleEvents` logs. -/
def handleEventLog (sha256 : List UInt8 → Digest) (server : Server χ) : Event χ → List LogEntry
  | .accept fd _ =>
    [⟨.trace, asciiBytes "[Server] Handling event"⟩, ⟨.trace, asciiBytes "[Server] Event coming from new client"⟩] ++
      if fd ≠ -1 then [establishing fd] else []
  | .ready fd received chatResult responseResult =>
    [⟨.trace, asciiBytes "[Server] Handling event"⟩,
      ⟨.trace, asciiBytes "[Server] Event coming from connected client"⟩] ++
      match server.sessions.sessions fd, received with
      | none, _ => [unsecured fd]
      | some session, some buffer =>
        ⟨.trace, asciiBytes "[Server] Receiving data across secure channel"⟩ ::
          (handleBufferedRequestLog { server with messageBuffer := buffer } ++
            match handleBufferedRequest sha256 { server with messageBuffer := buffer } fd chatResult with
            | .ok handled =>
              [replied (handled.server.sendResponse session.channel handled.response.message responseResult).1
                handled.response]
            | .error _ => [])
      | some _, none => [⟨.trace, asciiBytes "[Server] Receiving data across secure channel"⟩, closing fd]

end Server

/-- The server, and the logger of the process. -/
structure LoggedServer (χ : Type) where
  server : Server χ
  logger : Logger

/-- A call of `HandleEvents`, or one turn of the loop in it. -/
inductive Activity (χ : Type)
  | check
  | turn (event : Event χ)

namespace LoggedServer

variable {χ : Type}

/-- After the constructor, at the loop of `Run`. -/
def start (logger : Logger) : LoggedServer χ :=
  ⟨Server.init, logger.writeAll [⟨.info, asciiBytes "[Server] Constructed"⟩, ⟨.info, asciiBytes "[Server] Running"⟩]⟩

inductive Step (sha256 : List UInt8 → Digest) (logged : LoggedServer χ) :
    Activity χ → Output χ → LoggedServer χ → Prop
  | checked : Step sha256 logged .check Output.silent
      { logged with logger := logged.logger.write ⟨.trace, asciiBytes "[Server] Checking epoll event queue"⟩ }
  | turned {event out next} (step : Server.Step sha256 logged.server event out next) :
      Step sha256 logged (.turn event) out
        ⟨next, logged.logger.writeAll (logged.server.handleEventLog sha256 event)⟩

end LoggedServer

namespace Server

variable {χ : Type} {sha256 : List UInt8 → Digest} {server next : Server χ} {fd : Int} {u stored : ByteString}

theorem handleBufferedRequestAsLog_eq {T : Type} [Inhabited T] (server : Server χ)
    (deserialize : T → MessageBuffer → Decoded T) (wrap : T → Request) :
    server.handleBufferedRequestAsLog deserialize wrap =
      (requestAs deserialize wrap server.messageBuffer).elim [] fun request =>
        received request :: server.handleRequestLog request := by
  unfold handleBufferedRequestAsLog requestAs
  cases hr : (deserialize default server.messageBuffer).result with
  | error e => simp only [hr, Option.elim]
  | ok accepted => cases accepted <;> simp only [hr, Option.elim]

theorem handleBufferedRequestLog_eq (server : Server χ) : ∃ id,
    server.handleBufferedRequestLog = typeIdRead id :: (requestIn server.messageBuffer).elim [] fun request =>
      received request :: server.handleRequestLog request := by
  obtain ⟨id, rest, hb, reader, hread⟩ := messageBuffer_read server.messageBuffer
  refine ⟨id, ?_⟩
  unfold handleBufferedRequestLog
  rw [hread, requestIn_eq hb]
  simp only [handleBufferedRequestAsLog_eq, byTypeId]
  split
  · rfl
  · split
    · rfl
    · split
      · rfl
      · split <;> rfl

theorem handleEventLog_request (sha256 : List UInt8 → Digest) {session : Session χ} {buffer : MessageBuffer}
    {request : Request} {chatResult responseResult : Int} (hs : server.sessions.sessions fd = some session)
    (hreq : requestIn buffer = some request) {entry : LogEntry}
    (hentry : entry ∈ received request :: server.handleRequestLog request) :
    entry ∈ server.handleEventLog sha256 (.ready fd (some buffer) chatResult responseResult) := by
  obtain ⟨id, hlog⟩ := handleBufferedRequestLog_eq { server with messageBuffer := buffer }
  have hreq' : requestIn ({ server with messageBuffer := buffer } : Server χ).messageBuffer = some request := hreq
  rw [hreq'] at hlog
  have hmem : entry ∈ handleBufferedRequestLog { server with messageBuffer := buffer } := by
    rw [hlog]
    exact List.mem_cons_of_mem _ hentry
  unfold handleEventLog
  dsimp only
  rw [hs]
  exact List.mem_append_right _ (List.mem_cons_of_mem _ (List.mem_append_left _ hmem))

/-- The texts that the server has for a failure. -/
def failureTexts : List ByteString :=
  [FailureText.alreadyLoggedIn, FailureText.incorrect, FailureText.chatFailed, FailureText.noRecipient,
    FailureText.unauthenticated, FailureText.deserialization, FailureText.typeIdUnrecognized]

/-- A response in which nothing comes from a request. -/
inductive Fixed : Response → Prop
  | success : Fixed (.success ⟨⟩)
  | refused {text} (text_mem : text ∈ failureTexts) : Fixed (failure text)
  | rules (errors : Nat) : Fixed (failure (AccountRegistry.errorString errors))

theorem fixed_of_request {session : Session χ} {request : Request} {result : Int} {handled : Handled χ}
    (hs : server.sessions.sessions fd = some session)
    (h : handleRequest sha256 server fd request result = .ok handled) : Fixed handled.response := by
  cases request with
  | ping m =>
    cases Except.ok.inj h
    exact .success
  | register m =>
    simp only [handleRequest, handleRegister] at h
    split at h
    · cases Except.ok.inj h
      exact .success
    · cases Except.ok.inj h
      exact .rules _
  | login m =>
    by_cases hstored : server.accounts.accounts m.username =
        some (AccountRegistry.hashPassword sha256 m.password)
    · rcases server.sessions.authenticate_cases fd m.username with ⟨_, _, _, hauth⟩ | ⟨_, hauth⟩
      · cases Except.ok.inj ((handleLogin_stored hstored hauth).symm.trans h)
        exact .success
      · cases Except.ok.inj ((handleLogin_stored hstored hauth).symm.trans h)
        exact .refused (by decide)
    · cases Except.ok.inj ((handleLogin_incorrect hstored).symm.trans h)
      exact .refused (by decide)
  | sendChat m =>
    cases ha : session.authenticated with
    | false =>
      cases Except.ok.inj ((handleSendChat_unauthenticated m result hs ha).symm.trans h)
      exact .refused (by decide)
    | true =>
      cases hr : server.sessions.isEstablishedUser m.recipient with
      | false =>
        cases Except.ok.inj ((handleSendChat_noRecipient result hs ha hr).symm.trans h)
        exact .refused (by decide)
      | true =>
        obtain ⟨fd', session', hroute, hs'⟩ := SessionManager.isEstablishedUser_iff.mp hr
        cases Except.ok.inj ((handleSendChat_passes result hs ha hroute hs').symm.trans h)
        dsimp only
        split
        · exact .success
        · exact .refused (by decide)

theorem fixed_of_handled {session : Session χ} {result : Int} {handled : Handled χ}
    (hs : server.sessions.sessions fd = some session)
    (h : handleBufferedRequest sha256 server fd result = .ok handled) : Fixed handled.response := by
  cases hreq : requestIn server.messageBuffer with
  | some request =>
    rw [handleBufferedRequest_request result (requestIn_iff.mp hreq)] at h
    exact fixed_of_request hs h
  | none =>
    obtain ⟨id, rest, hb, _⟩ := messageBuffer_read server.messageBuffer
    have hrefuses : handled.response = failure FailureText.deserialization ∨
        handled.response = failure FailureText.typeIdUnrecognized := by
      rw [handleBufferedRequest_eq result hb] at h
      rw [requestIn_eq hb] at hreq
      rcases typeId_cases id with rfl | rfl | rfl | rfl | hother
      · rw [byTypeId_ping] at h hreq
        exact Or.inl (congrArg Handled.response (handleBufferedRequestAs_refuses hreq h))
      · rw [byTypeId_register] at h hreq
        exact Or.inl (congrArg Handled.response (handleBufferedRequestAs_refuses hreq h))
      · rw [byTypeId_login] at h hreq
        exact Or.inl (congrArg Handled.response (handleBufferedRequestAs_refuses hreq h))
      · rw [byTypeId_sendChat] at h hreq
        exact Or.inl (congrArg Handled.response (handleBufferedRequestAs_refuses hreq h))
      · rw [hother] at h
        exact Or.inr (congrArg Handled.response (Except.ok.inj h)).symm
    rcases hrefuses with hrefuses | hrefuses
    · rw [hrefuses]
      exact .refused (by decide)
    · rw [hrefuses]
      exact .refused (by decide)

/-- A message of the log in which nothing comes from a request. -/
inductive Harmless : List UInt8 → Prop
  | rules (errors : Nat) : Harmless (asciiBytes "[AccountRegistery]\n" ++ (AccountRegistry.errorString errors).data)
  | unsent {response} (fixed : Fixed response) : Harmless (replied false response).message
  | unsecured (fd : Int) : Harmless (unsecured fd).message

theorem harmless_register {registry : AccountRegistry} {username password : ByteString} {entry : LogEntry}
    (hentry : entry ∈ registry.registerLog username password) (hlevel : entry.level.value < Level.info.value) :
    entry.level = .error ∧ Harmless entry.message := by
  rcases List.mem_cons.mp hentry with rfl | hrest
  · exact absurd hlevel (Nat.lt_irrefl _)
  · split at hrest
    next => exact absurd hrest List.not_mem_nil
    next =>
      obtain rfl := List.mem_singleton.mp hrest
      exact ⟨rfl, .rules _⟩

theorem harmless_request {entry : LogEntry} (hentry : entry ∈ server.handleBufferedRequestLog)
    (hlevel : entry.level.value < Level.info.value) : entry.level = .error ∧ Harmless entry.message := by
  obtain ⟨id, hlog⟩ := handleBufferedRequestLog_eq server
  rw [hlog] at hentry
  rcases List.mem_cons.mp hentry with rfl | hrest
  · exact absurd hlevel Level.trace_above_info
  · cases hreq : requestIn server.messageBuffer with
    | none =>
      rw [hreq] at hrest
      exact absurd hrest List.not_mem_nil
    | some request =>
      rw [hreq] at hrest
      rcases List.mem_cons.mp hrest with rfl | hrequest
      · exact absurd hlevel (Nat.lt_irrefl _)
      · cases request with
        | register m => exact harmless_register hrequest hlevel
        | ping | login | sendChat => exact absurd hrequest List.not_mem_nil

/-- Below `Info` is nothing but errors, and no error tells what was asked for. -/
theorem harmless_event {event : Event χ} {entry : LogEntry} (hentry : entry ∈ server.handleEventLog sha256 event)
    (hlevel : entry.level.value < Level.info.value) : entry.level = .error ∧ Harmless entry.message := by
  have htrace : ∀ message, entry ≠ ⟨.trace, message⟩ := by
    rintro message rfl
    exact Level.trace_above_info hlevel
  have hinfo : ∀ message, entry ≠ ⟨.info, message⟩ := by
    rintro message rfl
    exact Nat.lt_irrefl _ hlevel
  cases event with
  | accept fd agreed =>
    rcases List.mem_append.mp hentry with hhead | hrest
    · rcases List.mem_pair.mp hhead with hfirst | hsecond
      · exact absurd hfirst (htrace _)
      · exact absurd hsecond (htrace _)
    · split at hrest
      next => exact absurd (List.mem_singleton.mp hrest) (hinfo _)
      next => exact absurd hrest List.not_mem_nil
  | ready fd received chatResult responseResult =>
    rcases List.mem_append.mp hentry with hhead | hrest
    · rcases List.mem_pair.mp hhead with hfirst | hsecond
      · exact absurd hfirst (htrace _)
      · exact absurd hsecond (htrace _)
    · split at hrest
      next =>
        obtain rfl := List.mem_singleton.mp hrest
        exact ⟨rfl, .unsecured fd⟩
      next session buffer hs =>
        rcases List.mem_cons.mp hrest with hreceiving | hrest
        · exact absurd hreceiving (htrace _)
        · rcases List.mem_append.mp hrest with hrequest | hreply
          · exact harmless_request hrequest hlevel
          · split at hreply
            next handled hhandled =>
              have hfixed : Fixed handled.response := fixed_of_handled (by exact hs) hhandled
              have hentry := List.mem_singleton.mp hreply
              generalize (handled.server.sendResponse session.channel handled.response.message responseResult).1 =
                sent at hentry
              cases sent with
              | true => exact absurd hentry (hinfo _)
              | false =>
                rw [hentry]
                exact ⟨rfl, .unsent hfixed⟩
            next => exact absurd hreply List.not_mem_nil
      next =>
        rcases List.mem_pair.mp hrest with hreceiving | hclosing
        · exact absurd hreceiving (htrace _)
        · exact absurd hclosing (hinfo _)

/-- An account that is new was asked for in a request. -/
theorem registers_of_step {event : Event χ} {out : Output χ} (h : Step sha256 server event out next)
    (hnext : next.accounts.accounts u = some stored) :
    server.accounts.accounts u = some stored ∨ ∃ fd buffer chatResult responseResult session password,
      event = .ready fd (some buffer) chatResult responseResult ∧ server.sessions.sessions fd = some session ∧
      requestIn buffer = some (.register ⟨u, password⟩) ∧
      stored = AccountRegistry.hashPassword sha256 password := by
  cases effect_of_step h with
  | rejected => exact Or.inl hnext
  | connected => exact Or.inl hnext
  | ignored => exact Or.inl hnext
  | destroyed => exact Or.inl hnext
  | leaked => exact Or.inl hnext
  | @answered fd session buffer chatResult responseResult handled present answer =>
    rw [sendResponse_accounts] at hnext
    cases answer with
    | refused => exact Or.inl hnext
    | ping => exact Or.inl hnext
    | @registered m request =>
      rcases Table.assign_eq_some.mp hnext with ⟨rfl, hstored⟩ | ⟨_, hbefore⟩
      · exact Or.inr ⟨fd, buffer, chatResult, responseResult, session, m.password, rfl, present, request, hstored⟩
      · exact Or.inl hbefore
    | loggedIn => exact Or.inl hnext
    | chatted =>
      dsimp only at hnext
      rw [sendResponse_accounts] at hnext
      exact Or.inl hnext

end Server

namespace LoggedServer

variable {χ : Type} {sha256 : List UInt8 → Digest} {logged next last : LoggedServer χ} {logger : Logger}
  {trace : List (Activity χ × Output χ)}

def activityLog (sha256 : List UInt8 → Digest) (logged : LoggedServer χ) : Activity χ → List LogEntry
  | .check => [⟨.trace, asciiBytes "[Server] Checking epoll event queue"⟩]
  | .turn event => logged.server.handleEventLog sha256 event

theorem logger_step {activity : Activity χ} {out : Output χ} (h : Step sha256 logged activity out next) :
    next.logger = logged.logger.writeAll (logged.activityLog sha256 activity) := by
  cases h <;> rfl

/-- Each account stands in the text together with a password of it. -/
structure Disclosed (sha256 : List UInt8 → Digest) (level : Level) (logged : LoggedServer χ) : Prop where
  level : logged.logger.minLevel = level
  text : ∃ text, logged.logger.target = some text ∧
    ∀ u stored, logged.server.accounts.accounts u = some stored → ∃ password,
      AccountRegistry.hashPassword sha256 password = stored ∧ (AccountRegistry.attempt u password).line <:+: text

theorem disclosed_step {level : Level} (hlevel : Level.info.value ≤ level.value) {activity : Activity χ}
    {out : Output χ} (disclosed : Disclosed sha256 level logged) (h : Step sha256 logged activity out next) :
    Disclosed sha256 level next := by
  obtain ⟨hminLevel, text, htarget, haccounts⟩ := disclosed
  have hlogger := logger_step h
  have htarget' : next.logger.target = some (text ++ Logger.shown level (logged.activityLog sha256 activity)) := by
    rw [hlogger, Logger.writeAll_target, htarget, hminLevel]
    rfl
  refine ⟨by rw [hlogger, Logger.writeAll_minLevel, hminLevel], _, htarget', ?_⟩
  intro u stored hstored
  have hold : logged.server.accounts.accounts u = some stored → ∃ password,
      AccountRegistry.hashPassword sha256 password = stored ∧
      (AccountRegistry.attempt u password).line <:+:
        text ++ Logger.shown level (logged.activityLog sha256 activity) := by
    intro hbefore
    obtain ⟨password, hhash, hline⟩ := haccounts u stored hbefore
    exact ⟨password, hhash, hline.trans (List.prefix_append _ _).isInfix⟩
  cases h with
  | checked => exact hold hstored
  | @turned event out next hstep =>
    rcases Server.registers_of_step hstep hstored with
      hbefore | ⟨fd, buffer, chatResult, responseResult, session, password, rfl, hs, hreq, rfl⟩
    · exact hold hbefore
    · have hentry : AccountRegistry.attempt u password ∈
          logged.server.handleEventLog sha256 (.ready fd (some buffer) chatResult responseResult) :=
        Server.handleEventLog_request sha256 hs hreq (List.mem_cons_of_mem _ List.mem_cons_self)
      exact ⟨password, rfl, (Logger.infix_of_shown hentry hlevel).trans (List.suffix_append _ _).isInfix⟩

theorem disclosed_start {level : Level} (hlevel : logger.minLevel = level) {text : List UInt8}
    (htarget : logger.target = some text) : Disclosed sha256 level (start logger : LoggedServer χ) := by
  have htarget' := Logger.writeAll_target logger
    [⟨.info, asciiBytes "[Server] Constructed"⟩, ⟨.info, asciiBytes "[Server] Running"⟩]
  rw [htarget] at htarget'
  refine ⟨(Logger.writeAll_minLevel _ _).trans hlevel, _, htarget', ?_⟩
  intro u stored hstored
  cases hstored

/-- At the level that `main` sets, or a finer one, whoever reads the log can log in under every name. -/
theorem log_discloses_accounts {text : List UInt8} (htarget : logger.target = some text)
    (hlevel : Level.info.value ≤ logger.minLevel.value) (run : Run (Step sha256) (start logger) trace last) :
    ∃ text, last.logger.target = some text ∧
      ∀ u, last.server.accounts.contains u = true → ∃ password,
        (AccountRegistry.attempt u password).line <:+: text ∧
        last.server.accounts.matchingPassword sha256 u password = .ok true := by
  have hdisclosed : Disclosed sha256 logger.minLevel last :=
    run.invariant (disclosed_start rfl htarget) fun h hstep => disclosed_step hlevel h hstep
  obtain ⟨text, htext, haccounts⟩ := hdisclosed.text
  refine ⟨text, htext, ?_⟩
  intro u hcontains
  obtain ⟨stored, hstored⟩ := Table.contains_iff.mp hcontains
  obtain ⟨password, hhash, hline⟩ := haccounts u stored hstored
  refine ⟨password, hline, ?_⟩
  rw [AccountRegistry.matchingPassword_eq, hstored, hhash, beq_self_eq_true]

/-- Logging takes no part in what the server does. -/
theorem run_of_server {events : List (Event χ × Output χ)} {server : Server χ} (logger : Logger)
    (run : Run (Server.Step sha256) Server.init events server) :
    ∃ trace last, Run (Step sha256) (start logger) trace last ∧ last.server = server := by
  induction run with
  | init => exact ⟨[], start logger, .init, rfl⟩
  | next _ hstep ih =>
    obtain ⟨trace, last, run, rfl⟩ := ih
    exact ⟨_, _, run.next (.turned hstep), rfl⟩

def frank : Login :=
  ⟨⟨asciiBytes "frank_fisher", by decide +kernel⟩, ⟨asciiBytes "frankFisher345#", by decide +kernel⟩⟩

theorem frank_registers : ∃ trace server, Run (Server.Step Server.paddedDigest) (Server.init : Server Nat) trace server ∧
    server.accounts.contains frank.username = true := by
  obtain ⟨trace, server, run, hcontains⟩ := Server.reaches_of_execute Server.paddedDigest (fun _ _ => true)
    [.accept 5 (some 0), Server.asks 5 (Server.registering frank)]
    (fun _ server => server.accounts.contains frank.username) (by decide +kernel)
  exact ⟨trace, server, run.unguarded, hcontains⟩

/-- The logger that `main` sets up. -/
def mainLogger : Logger := (Logger.init.setTarget).setLevel .info

theorem log_discloses_accounts_frank : ∃ trace last text password,
    Run (Step Server.paddedDigest) (start mainLogger : LoggedServer Nat) trace last ∧
      last.logger.target = some text ∧ (AccountRegistry.attempt frank.username password).line <:+: text ∧
      last.server.accounts.matchingPassword Server.paddedDigest frank.username password = .ok true := by
  obtain ⟨_, server, hserver, hcontains⟩ := frank_registers
  obtain ⟨trace, last, run, rfl⟩ := run_of_server mainLogger hserver
  obtain ⟨text, htext, haccounts⟩ := log_discloses_accounts rfl (Nat.le_refl _) run
  obtain ⟨password, hline, hmatches⟩ := haccounts frank.username hcontains
  exact ⟨trace, last, text, password, run, htext, hline, hmatches⟩

/-- Only harmless errors were added to the text. -/
def Discreet (level : Level) (text : List UInt8) (logged : LoggedServer χ) : Prop :=
  logged.logger.minLevel = level ∧ ∃ messages, (∀ message ∈ messages, Server.Harmless message) ∧
    logged.logger.target = some (text ++ Logger.errorText messages)

theorem discreet_step {level : Level} {text : List UInt8} (hlevel : level.value < Level.info.value)
    {activity : Activity χ} {out : Output χ} (discreet : Discreet level text logged)
    (h : Step sha256 logged activity out next) : Discreet level text next := by
  obtain ⟨hminLevel, messages, hharmless, htarget⟩ := discreet
  have hlogger := logger_step h
  have hadded : ∃ added, (∀ message ∈ added, Server.Harmless message) ∧
      Logger.shown level (logged.activityLog sha256 activity) = Logger.errorText added := by
    refine Logger.shown_errors fun entry hentry hpass => ?_
    have hbelow : entry.level.value < Level.info.value := Nat.lt_of_le_of_lt hpass hlevel
    cases activity with
    | check =>
      have htrace : entry.level = .trace := congrArg LogEntry.level (List.mem_singleton.mp hentry)
      rw [htrace] at hbelow
      exact absurd hbelow Level.trace_above_info
    | turn event =>
      have hlogged : entry ∈ logged.server.handleEventLog sha256 event := hentry
      exact Server.harmless_event hlogged hbelow
  obtain ⟨added, hharmless', hshown⟩ := hadded
  have hminLevel' : next.logger.minLevel = level := by rw [hlogger, Logger.writeAll_minLevel, hminLevel]
  refine ⟨hminLevel', messages ++ added, ?_, ?_⟩
  · intro message hmessage
    rcases List.mem_append.mp hmessage with hold | hnew
    · exact hharmless message hold
    · exact hharmless' message hnew
  · rw [hlogger, Logger.writeAll_target, htarget, hminLevel, hshown, Logger.errorText_append, ← List.append_assoc]
    rfl

/-- At a coarser level than `Info` nothing that a client sent gets into the log. -/
theorem log_below_info_harmless {text : List UInt8} (htarget : logger.target = some text)
    (hlevel : logger.minLevel.value < Level.info.value) (run : Run (Step sha256) (start logger) trace last) :
    ∃ messages, (∀ message ∈ messages, Server.Harmless message) ∧
      last.logger.target = some (text ++ Logger.errorText messages) := by
  have hstart : Discreet logger.minLevel text (start logger : LoggedServer χ) := by
    refine ⟨Logger.writeAll_minLevel _ _, [], fun _ h => absurd h List.not_mem_nil, ?_⟩
    have hquiet : Logger.shown logger.minLevel [⟨.info, asciiBytes "[Server] Constructed"⟩,
        ⟨.info, asciiBytes "[Server] Running"⟩] = [] := by
      simp [Logger.shown, Nat.not_le.mpr hlevel]
    unfold start
    rw [Logger.writeAll_target, htarget, hquiet]
    rfl
  exact (run.invariant hstart fun h hstep => discreet_step hlevel h hstep).2

theorem log_below_info_harmless_frank : ∃ trace last messages,
    Run (Step Server.paddedDigest) (start (mainLogger.setLevel .error) : LoggedServer Nat) trace last ∧
      last.server.accounts.contains frank.username = true ∧
      (∀ message ∈ messages, Server.Harmless message) ∧ last.logger.target = some (Logger.errorText messages) := by
  obtain ⟨_, server, hserver, hcontains⟩ := frank_registers
  obtain ⟨trace, last, run, rfl⟩ := run_of_server (mainLogger.setLevel .error) hserver
  obtain ⟨messages, hharmless, htext⟩ := log_below_info_harmless rfl (by decide) run
  exact ⟨trace, last, messages, run, hcontains, hharmless, htext⟩

end LoggedServer

end SecureMessaging
