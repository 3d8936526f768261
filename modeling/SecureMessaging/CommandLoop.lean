import SecureMessaging.ClientSession
import SecureMessaging.CommandLanguage
import SecureMessaging.Lib.InputStream

namespace SecureMessaging

def requestErrorAsString : RequestError → List UInt8
  | .send => asciiBytes "On send"
  | .disconnected => asciiBytes "Server disconnected"
  | .timeout => asciiBytes "Timeout occurred"
  | .serialization => asciiBytes "Request serialization failed"
  | .deserialization => asciiBytes "Response deserialization failed"

/-- `ToString` of a response. -/
def Response.text : Response → List UInt8
  | .success _ => asciiBytes "Success"
  | .failure m => asciiBytes "Failure: " ++ m.what.data
  | .receiveChat m => asciiBytes "Receive Chat: From " ++ m.sender.data ++ asciiBytes " - " ++ m.content.data

/-- What `RunCommand` got for a request, and what it wrote to `std::cout`. -/
structure CommandOutput where
  outcome : Option (Except RequestError Response)
  printed : List UInt8

/-- `<< std::endl`. -/
def endLine (text : List UInt8) : List UInt8 := text ++ [newline]

/-- None if the command does not return. -/
def runCommand (server : Nat → Answer) (session : ClientSession) :
    Command → Fallible (Option (CommandOutput × ClientSession))
  | .request request => do
    match ← session.sendRequest server request.message with
    | some (.ok response, session) => pure (some (⟨some (.ok response), endLine response.text⟩, session))
    | some (.error error, session) =>
      pure (some (⟨some (.error error), endLine (asciiBytes "Error: " ++ requestErrorAsString error)⟩, session))
    | none => pure none
  | .type .checkInbox =>
    let (unread, client) := session.client.getUnread
    let printed := unread.flatMap fun chat => endLine (chat.sender.data ++ asciiBytes "] " ++ chat.content.data)
    pure (some (⟨none, printed⟩, { session with client := client }))
  | .type .quit => pure (some (⟨none, []⟩, session.disconnect))
  | .type .parseFailure => pure (some (⟨none, endLine (asciiBytes "Command failed to parse")⟩, session))

/-- `Run` at the test of its loop. -/
structure CommandLoop where
  session : ClientSession
  cin : InputStream
  input : ByteString

namespace CommandLoop

/-- After `Connect` has succeeded, with a text on `std::cin`. -/
def start (client : Client) (text : List UInt8) : CommandLoop :=
  ⟨(ClientSession.mk client false 0).connect true, InputStream.ofText text, ByteString.empty⟩

/-- The body of the loop. -/
def turn (server : Nat → Answer) (loop : CommandLoop) :
    Fallible (Option ((Command × CommandOutput) × CommandLoop)) := do
  let (input, cin) := loop.cin.getline loop.input
  let command ← buildCommand input
  match ← runCommand server loop.session command with
  | some (output, session) => pure (some ((command, output), ⟨session, cin, input⟩))
  | none => pure none

/-- A turn of the loop; a call that does not return and an exception both end the run. -/
def Turn (server : Nat → Answer) (loop : CommandLoop) (command : Command) (output : CommandOutput)
    (next : CommandLoop) : Prop :=
  loop.session.isConnected = true ∧ loop.turn server = .ok (some ((command, output), next))

/-- The command of a line, if a string can hold it. -/
def lineCommand (line : List UInt8) : Option Command :=
  if h : line.length ≤ stringMaxSize then (buildCommand ⟨line, h⟩).toOption else none

/-- A quit command, or a request that ended in a disconnection. -/
def Stops (entry : Command × CommandOutput) : Prop :=
  entry.1 = .type .quit ∨ entry.2.outcome = some (.error .disconnected)

/-- `Run` executes the commands of the lines in order and each once, up to the first that stops it or
to the end, and returns. -/
def LinesExecuted (server : Nat → Answer) (client : Client) (text : List UInt8) : Prop :=
  ∃ trace last, Run (Turn server) (start client text) trace last ∧ last.session.isConnected = false ∧
    ∃ done rest, text.pieces newline = done ++ rest ∧
      done.map lineCommand = trace.map (fun entry => some entry.1) ∧
      (∀ entry ∈ trace.dropLast, ¬Stops entry) ∧ (rest = [] ∨ ∃ entry ∈ trace.getLast?, Stops entry)

/-- The requests among some commands. -/
def requestsOf (commands : List Command) : List Request :=
  commands.filterMap fun command =>
    match command with
    | .request request => some request
    | .type _ => none

/-- There is a quit line, and the server answers the requests of the lines in front of the first. -/
def QuitReached (server : Nat → Answer) (text : List UInt8) : Prop :=
  ∃ front quit rest, text.pieces newline = front ++ quit :: rest ∧ lineCommand quit = some (.type .quit) ∧
    (∀ line ∈ front, line.length ≤ stringMaxSize ∧ lineCommand line ≠ some (.type .quit)) ∧
    ∀ k request, (requestsOf (front.filterMap lineCommand))[k]? = some request → Answered request (server k)

variable {server : Nat → Answer} {client : Client} {text : List UInt8} {session after : ClientSession}
  {command : Command} {output : CommandOutput} {loop next last : CommandLoop}
  {trace : List (Command × CommandOutput)}

theorem runCommand_request {request : Request}
    (h : runCommand server session (.request request) = .ok (some (output, after))) :
    ∃ outcome, session.sendRequest server request.message = .ok (some (outcome, after)) ∧
      output.outcome = some outcome := by
  cases hsend : session.sendRequest server request.message with
  | error e =>
    simp only [runCommand, hsend, bind, Except.bind] at h
    cases h
  | ok sent =>
    simp only [runCommand, hsend, bind, Except.bind] at h
    cases sent with
    | none => cases h
    | some answered =>
      obtain ⟨outcome, next⟩ := answered
      cases outcome with
      | ok response =>
        cases h
        exact ⟨_, rfl, rfl⟩
      | error error =>
        cases h
        exact ⟨_, rfl, rfl⟩

theorem runCommand_returned {request : Request} {outcome : Except RequestError Response}
    (h : session.sendRequest server request.message = .ok (some (outcome, after))) :
    ∃ output, runCommand server session (.request request) = .ok (some (output, after)) ∧
      output.outcome = some outcome := by
  simp only [runCommand, h, bind, Except.bind]
  cases outcome with
  | ok response => exact ⟨_, rfl, rfl⟩
  | error error => exact ⟨_, rfl, rfl⟩

/-- Of the other commands quit alone disconnects, and all of them return. -/
theorem runCommand_type (server : Nat → Answer) (session : ClientSession) (type : CommandType) :
    ∃ output after, runCommand server session (.type type) = .ok (some (output, after)) ∧ output.outcome = none ∧
      after.requests = session.requests ∧ (type = .quit → after.connected = false) ∧
      (type ≠ .quit → after.connected = session.connected) := by
  cases type with
  | quit => exact ⟨_, _, rfl, rfl, rfl, fun _ => rfl, fun hne => absurd rfl hne⟩
  | checkInbox => exact ⟨_, _, rfl, rfl, rfl, fun hquit => (nomatch hquit), fun _ => rfl⟩
  | parseFailure => exact ⟨_, _, rfl, rfl, rfl, fun hquit => (nomatch hquit), fun _ => rfl⟩

theorem runCommand_connected (h : runCommand server session command = .ok (some (output, after)))
    (hquit : command ≠ .type .quit) : after.connected = session.connected := by
  cases command with
  | request request =>
    obtain ⟨outcome, hsend, _⟩ := runCommand_request h
    exact (ClientSession.sendRequest_after hsend).1
  | type type =>
    obtain ⟨output', after', hrun, _, _, _, hconnected⟩ := runCommand_type server session type
    cases h.symm.trans hrun
    exact hconnected fun htype => hquit (congrArg Command.type htype)

/-- An answered request and any other command but quit let the loop go on. -/
theorem runCommand_goes_on (hquit : command ≠ .type .quit)
    (hanswered : ∀ request, command = .request request → Answered request (server session.requests)) :
    ∃ output after, runCommand server session command = .ok (some (output, after)) ∧ ¬Stops (command, output) := by
  cases command with
  | request request =>
    obtain ⟨outcome, after, hsend, hne⟩ :=
      (ClientSession.sendRequest_answered server session request).mp (hanswered request rfl)
    obtain ⟨output, hrun, houtcome⟩ := runCommand_returned hsend
    refine ⟨output, after, hrun, ?_⟩
    rintro (hc | hdisconnected)
    · exact hquit hc
    · exact hne (Option.some.inj (houtcome.symm.trans hdisconnected))
  | type type =>
    obtain ⟨output, after, hrun, houtcome, _⟩ := runCommand_type server session type
    refine ⟨output, after, hrun, ?_⟩
    rintro (hc | hdisconnected)
    · exact hquit hc
    · cases houtcome.symm.trans hdisconnected

/-- What a turn did: it read into the string, built a command from it and ran that. -/
theorem Turn.cases (h : Turn server loop command output next) :
    loop.session.connected = true ∧ buildCommand next.input = .ok command ∧
      runCommand server loop.session command = .ok (some (output, next.session)) ∧
      loop.cin.getline loop.input = (next.input, next.cin) := by
  obtain ⟨hconnected, hturn⟩ := h
  refine ⟨hconnected, ?_⟩
  unfold turn at hturn
  dsimp only at hturn
  cases hbuild : buildCommand (loop.cin.getline loop.input).1 with
  | error e =>
    rw [hbuild] at hturn
    cases hturn
  | ok built =>
    rw [hbuild] at hturn
    cases hrun : runCommand server loop.session built with
    | error e =>
      simp only [bind, Except.bind, hrun] at hturn
      cases hturn
    | ok ran =>
      simp only [bind, Except.bind, hrun] at hturn
      cases ran with
      | none => cases hturn
      | some returned =>
        obtain ⟨output', session'⟩ := returned
        cases hturn
        exact ⟨hbuild, hrun, rfl⟩

/-- A line that is still to come is the one that the next turn runs. -/
theorem turn_line {line : List UInt8} {tail : List (List UInt8)} (hconnected : loop.session.connected = true)
    (hlines : loop.cin.lines = line :: tail) (hcommand : lineCommand line = some command)
    (hrun : runCommand server loop.session command = .ok (some (output, after))) :
    ∃ next, Turn server loop command output next ∧ next.session = after ∧ next.cin.lines = tail := by
  unfold lineCommand at hcommand
  split at hcommand
  next hfits =>
    obtain ⟨cin, hgetline, htail⟩ := InputStream.getline_line loop.input hlines hfits
    have hbuild : buildCommand ⟨line, hfits⟩ = .ok command := by
      cases hbuilt : buildCommand ⟨line, hfits⟩ with
      | error e =>
        rw [hbuilt] at hcommand
        cases hcommand
      | ok built =>
        rw [hbuilt] at hcommand
        rw [Option.some.inj hcommand]
    refine ⟨⟨after, cin, ⟨line, hfits⟩⟩, ⟨hconnected, ?_⟩, rfl, htail⟩
    simp only [turn, hgetline, hbuild, hrun, bind, Except.bind]
    rfl
  next => cases hcommand

theorem lineCommand_fits {line : List UInt8} : (∃ command, lineCommand line = some command) ↔
    line.length ≤ stringMaxSize := by
  unfold lineCommand
  constructor
  · rintro ⟨command, h⟩
    split at h
    next hfits => exact hfits
    next => cases h
  · intro hfits
    obtain ⟨command, hbuild⟩ := buildCommand_returns ⟨line, hfits⟩
    rw [dif_pos hfits, hbuild]
    exact ⟨command, rfl⟩

theorem commands_of_lines {lines : List (List UInt8)}
    (h : lines.map lineCommand = trace.map fun entry => some entry.1) :
    lines.filterMap lineCommand = trace.map Prod.fst := by
  have hlines : (lines.map lineCommand).filterMap id = lines.filterMap lineCommand := List.filterMap_map
  have htrace : (trace.map fun entry => some entry.1).filterMap id = trace.map Prod.fst := by
    rw [List.filterMap_map]
    exact congrFun List.filterMap_eq_map trace
  rw [← hlines, h, htrace]

theorem requestsOf_append (commands others : List Command) :
    requestsOf (commands ++ others) = requestsOf commands ++ requestsOf others :=
  List.filterMap_append

/-- The calls of `SendRequest` are counted, and if none ended in a disconnection each was answered. -/
structure RequestsAnswered (server : Nat → Answer) (trace : List (Command × CommandOutput)) (last : CommandLoop) :
    Prop where
  count : last.session.requests = (requestsOf (trace.map Prod.fst)).length
  answered : (∀ entry ∈ trace, ¬Stops entry) →
    ∀ k request, (requestsOf (trace.map Prod.fst))[k]? = some request → Answered request (server k)

theorem requestsAnswered_turn (before : RequestsAnswered server trace loop)
    (h : Turn server loop command output next) : RequestsAnswered server (trace ++ [(command, output)]) next := by
  obtain ⟨_, _, hrun, _⟩ := h.cases
  have hall : (trace ++ [(command, output)]).map Prod.fst = trace.map Prod.fst ++ [command] := by
    rw [List.map_append, List.map_singleton]
  have hstill : (∀ entry ∈ trace ++ [(command, output)], ¬Stops entry) → ∀ entry ∈ trace, ¬Stops entry := by
    intro hstops entry hentry
    exact hstops entry (List.mem_append_left _ hentry)
  cases command with
  | type type =>
    obtain ⟨output', after', hrun', _, hsame, _, _⟩ := runCommand_type server loop.session type
    cases hrun.symm.trans hrun'
    have hrequests : requestsOf ((trace ++ [(Command.type type, output)]).map Prod.fst) =
        requestsOf (trace.map Prod.fst) := by
      rw [hall, requestsOf_append]
      exact List.append_nil _
    refine ⟨?_, ?_⟩
    · rw [hrequests, hsame]
      exact before.count
    · intro hstops
      rw [hrequests]
      exact before.answered (hstill hstops)
  | request request =>
    obtain ⟨outcome, hsend, houtcome⟩ := runCommand_request hrun
    have hrequests : requestsOf ((trace ++ [(Command.request request, output)]).map Prod.fst) =
        requestsOf (trace.map Prod.fst) ++ [request] := by
      rw [hall, requestsOf_append]
      rfl
    refine ⟨?_, ?_⟩
    · rw [hrequests, List.length_append, ← before.count]
      exact (ClientSession.sendRequest_after hsend).2
    · intro hstops k asked hasked
      rw [hrequests, List.getElem?_append] at hasked
      split at hasked
      next => exact before.answered (hstill hstops) k asked hasked
      next hk =>
        -- the request of this turn is the last
        obtain ⟨hzero, hlast⟩ := List.getElem?_eq_some_iff.mp hasked
        rw [List.length_singleton] at hzero
        have hcount := before.count
        have hindex : k = loop.session.requests := by omega
        have hsame : request = asked := by simpa [hindex, hcount] using hlast
        have hne : outcome ≠ .error .disconnected := by
          rintro rfl
          exact hstops _ (List.mem_append_right _ (List.mem_singleton_self _)) (Or.inr houtcome)
        rw [← hsame, hindex]
        exact (ClientSession.sendRequest_answered server loop.session request).mpr ⟨outcome, _, hsend, hne⟩

theorem requestsAnswered_of_run (run : Run (Turn server) (start client text) trace last) :
    RequestsAnswered server trace last := by
  refine run.history (P := RequestsAnswered server) ⟨rfl, fun _ k request h => by simp [requestsOf] at h⟩ ?_
  intro trace loop command output next _ before h
  exact requestsAnswered_turn before h

/-- A line that is no quit takes one turn, if its request is answered. -/
theorem line_turn {line : List UInt8} {tail : List (List UInt8)} (hconnected : loop.session.connected = true)
    (hlines : loop.cin.lines = line :: tail) (hfits : line.length ≤ stringMaxSize)
    (hquit : lineCommand line ≠ some (.type .quit))
    (hanswered : ∀ request, lineCommand line = some (.request request) →
      Answered request (server loop.session.requests)) :
    ∃ command output next, lineCommand line = some command ∧ Turn server loop command output next ∧
      ¬Stops (command, output) ∧ next.session.connected = true ∧ next.cin.lines = tail := by
  obtain ⟨command, hcommand⟩ := lineCommand_fits.mpr hfits
  have hother : command ≠ .type .quit := by
    rintro rfl
    exact hquit hcommand
  have hrequest : ∀ request, command = .request request → Answered request (server loop.session.requests) := by
    rintro request rfl
    exact hanswered request hcommand
  obtain ⟨output, after, hrun, hgoes⟩ := runCommand_goes_on hother hrequest
  obtain ⟨next, hturn, hsession, htail⟩ := turn_line hconnected hlines hcommand hrun
  refine ⟨command, output, next, hcommand, hturn, hgoes, ?_, htail⟩
  rw [hsession, runCommand_connected hrun hother]
  exact hconnected

/-- By induction on the lines: each is read and run by a turn of its own. -/
theorem lines_run {front : List (List UInt8)} (tail : List (List UInt8)) (hlines : text.pieces newline = front ++ tail)
    (hfront : ∀ line ∈ front, line.length ≤ stringMaxSize ∧ lineCommand line ≠ some (.type .quit))
    (hanswered : ∀ k request, (requestsOf (front.filterMap lineCommand))[k]? = some request →
      Answered request (server k)) :
    ∃ trace last, Run (Turn server) (start client text) trace last ∧ last.session.connected = true ∧
      last.cin.lines = tail ∧ front.map lineCommand = trace.map (fun entry => some entry.1) ∧
      ∀ entry ∈ trace, ¬Stops entry := by
  induction front using List.reverseRecOn generalizing tail with
  | nil => exact ⟨[], _, .init, rfl, hlines, rfl, fun _ hentry => absurd hentry List.not_mem_nil⟩
  | append_singleton front line ih =>
    have hbefore : ∀ k request, (requestsOf (front.filterMap lineCommand))[k]? = some request →
        Answered request (server k) := by
      intro k request hk
      refine hanswered k request ?_
      rw [List.filterMap_append, requestsOf_append]
      exact (List.getElem?_append_left (List.getElem?_eq_some_iff.mp hk).1).trans hk
    obtain ⟨trace, loop, run, hconnected, hrest, hmap, hstops⟩ := ih (line :: tail)
      (by rw [hlines, List.append_assoc]; rfl) (fun line hline => hfront line (List.mem_append_left _ hline)) hbefore
    have hnext : ∀ request, lineCommand line = some (.request request) →
        Answered request (server loop.session.requests) := by
      intro request hcommand
      refine hanswered _ request ?_
      have hone : requestsOf ([line].filterMap lineCommand) = [request] := by
        rw [List.filterMap_cons_some hcommand]
        rfl
      rw [List.filterMap_append, requestsOf_append, commands_of_lines hmap, hone, (requestsAnswered_of_run run).count]
      exact List.getElem?_concat_length
    obtain ⟨hfits, hquit⟩ := hfront line (List.mem_append_right _ (List.mem_singleton_self _))
    obtain ⟨command, output, next, hcommand, hturn, hgoes, hconnected', htail⟩ :=
      line_turn hconnected hrest hfits hquit hnext
    refine ⟨trace ++ [(command, output)], next, run.next hturn, hconnected', htail, ?_, ?_⟩
    · rw [List.map_append, List.map_append, hmap, List.map_singleton, hcommand]
      rfl
    · intro entry hentry
      rcases List.mem_append.mp hentry with hmem | hmem
      · exact hstops entry hmem
      · rw [List.mem_singleton.mp hmem]
        exact hgoes

/-- Only a quit ends the loop, so a run that returned reached one. -/
theorem quitReached_of_executed (h : LinesExecuted server client text) : QuitReached server text := by
  obtain ⟨trace, last, run, hreturned, done, rest, hlines, hmap, hstops, _⟩ := h
  cases run with
  | init => cases hreturned
  | @next before loop command output _ run hturn =>
    obtain ⟨hconnected, _, hrun, _⟩ := hturn.cases
    have hquit : command = .type .quit := by
      by_contra hother
      have hstill := runCommand_connected hrun hother
      rw [hconnected] at hstill
      cases hstill.symm.trans hreturned
    rw [List.map_append] at hmap
    obtain ⟨front, quit, rfl, hfront, hline⟩ := List.map_eq_append_iff.mp hmap
    obtain ⟨line, rfl, hlast⟩ := List.map_eq_singleton_iff.mp hline
    rw [List.dropLast_concat] at hstops
    refine ⟨front, line, rest, ?_, hlast.trans (congrArg some hquit), ?_, ?_⟩
    · rw [hlines, List.append_assoc]
      rfl
    · intro line hline
      have hmem : lineCommand line ∈ before.map fun entry => some entry.1 := by
        rw [← hfront]
        exact List.mem_map_of_mem hline
      obtain ⟨entry, hentry, hcommand⟩ := List.mem_map.mp hmem
      refine ⟨lineCommand_fits.mp ⟨_, hcommand.symm⟩, ?_⟩
      intro hc
      exact hstops entry hentry (Or.inl (Option.some.inj (hcommand.trans hc)))
    · intro k request hk
      rw [commands_of_lines hfront] at hk
      exact (requestsAnswered_of_run run).answered hstops k request hk

theorem executed_of_quitReached (h : QuitReached server text) : LinesExecuted server client text := by
  obtain ⟨front, quit, rest, hlines, hquit, hfront, hanswered⟩ := h
  obtain ⟨trace, loop, run, hconnected, htail, hmap, hstops⟩ := lines_run (quit :: rest) hlines hfront hanswered
  obtain ⟨output, after, hrun, _, _, hends, _⟩ := runCommand_type server loop.session .quit
  obtain ⟨next, hturn, hsession, _⟩ := turn_line hconnected htail hquit hrun
  refine ⟨trace ++ [(.type .quit, output)], next, run.next hturn, ?_, front ++ [quit], rest, ?_, ?_, ?_, ?_⟩
  · rw [ClientSession.isConnected, hsession]
    exact hends rfl
  · rw [hlines, List.append_assoc]
    rfl
  · rw [List.map_append, List.map_append, hmap, List.map_singleton, hquit]
    rfl
  · rw [List.dropLast_concat]
    exact hstops
  · refine Or.inr ⟨(.type .quit, output), ?_, Or.inl rfl⟩
    rw [List.getLast?_concat]
    rfl

/-- `IsConnected` is what the loop tests and quit alone ends it, so the loop does what it should exactly
if there is a quit line and nothing in front of it should have stopped it. -/
theorem lines_executed_iff (server : Nat → Answer) (client : Client) (text : List UInt8) :
    LinesExecuted server client text ↔ QuitReached server text :=
  ⟨quitReached_of_executed, executed_of_quitReached⟩

/-- The message that answers a request in the end. -/
def pong : Answer := ⟨1, [some (Conversation.bufferOf (.success ⟨⟩))]⟩

/-- A ping without a newline behind it, to a server that answers. -/
theorem ping_not_executed_once : ¬LinesExecuted (fun _ => pong) Client.init (asciiBytes "ping") := by
  intro h
  obtain ⟨front, quit, rest, hlines, hquit, _⟩ := quitReached_of_executed h
  have hword : newline ∉ asciiBytes "ping" := by decide
  have hne : asciiBytes "ping" ≠ [] := by decide
  rw [List.pieces_of_not_mem hword, if_neg hne] at hlines
  have hmem : quit ∈ [asciiBytes "ping"] := by
    rw [hlines]
    exact List.mem_append_right _ List.mem_cons_self
  rw [List.mem_singleton.mp hmem] at hquit
  have hfits : (asciiBytes "ping").length ≤ stringMaxSize := by decide
  have hping : buildCommand ⟨asciiBytes "ping", hfits⟩ = .ok (.request (.ping ⟨⟩)) := buildCommand_ping rfl
  rw [lineCommand, dif_pos hfits, hping] at hquit
  cases hquit

/-- No line is left, and the string does not hold a quit. -/
structure Over (loop : CommandLoop) : Prop where
  lines : loop.cin.lines = []
  input : buildCommand loop.input ≠ .ok (.type .quit)
  connected : loop.session.connected = true

theorem over_turn (hover : Over loop) (h : Turn server loop command output next) : Over next := by
  obtain ⟨_, hbuild, hrun, hgetline⟩ := h.cases
  obtain ⟨hstill, hstring⟩ := InputStream.getline_over loop.input hover.lines
  rw [hgetline] at hstill hstring
  dsimp only at hstill hstring
  have hinput : buildCommand next.input ≠ .ok (.type .quit) := by
    rcases hstring with hleft | hempty
    · rw [hleft]
      exact hover.input
    · rw [hempty, buildCommand_empty]
      intro hquit
      cases hquit
  have hother : command ≠ .type .quit := by
    rintro rfl
    exact hinput hbuild
  refine ⟨hstill, hinput, ?_⟩
  rw [runCommand_connected hrun hother]
  exact hover.connected

/-- The end of the input is never noticed: the command of the string that is left, or that of an empty
string, is run again and again. -/
theorem never_returns (hover : Over loop) (run : Run (Turn server) loop trace last) :
    last.session.isConnected = true :=
  (run.invariant hover over_turn).connected

end CommandLoop

end SecureMessaging
