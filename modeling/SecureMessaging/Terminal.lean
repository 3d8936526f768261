import SecureMessaging.CommandLoop
import SecureMessaging.Dispatch
import SecureMessaging.EndToEnd
import SecureMessaging.RegisteredNames

namespace SecureMessaging

def bracket : UInt8 := 93

/-- The line that `RunCommand` prints for a chat of the inbox. -/
def chatLine (chat : ReceiveChat) : List UInt8 := chat.sender.data ++ asciiBytes "] " ++ chat.content.data

theorem runCommand_checkInbox (server : Nat → Answer) (session : ClientSession) :
    runCommand server session (.type .checkInbox) = .ok (some (
      ⟨none, session.client.inbox.flatMap fun chat => endLine (chatLine chat)⟩,
      { session with client := { session.client with inbox := [] } })) := rfl

/-- A line read as a chat: what stands in front of the first bracket, and what stands behind it and a space. -/
def readLine (line : List UInt8) : List UInt8 × List UInt8 :=
  (line.takeWhile (· != bracket), (line.dropWhile (· != bracket)).drop 2)

def readScreen (screen : List UInt8) : List (List UInt8 × List UInt8) := (screen.pieces newline).map readLine

def ReceiveChat.fields (chat : ReceiveChat) : List UInt8 × List UInt8 := (chat.sender.data, chat.content.data)

/-- A chat that cannot be taken for anything else on the screen. -/
structure ReceiveChat.Plain (chat : ReceiveChat) : Prop where
  named : bracket ∉ chat.sender.data
  sender : newline ∉ chat.sender.data
  content : newline ∉ chat.content.data

theorem readLine_chatLine {chat : ReceiveChat} (h : chat.Plain) : readLine (chatLine chat) = chat.fields := by
  have hall : ∀ c ∈ chat.sender.data, (c != bracket) = true := by
    intro c hc
    rw [bne_iff_ne]
    rintro rfl
    exact h.named hc
  have hbehind : asciiBytes "] " = bracket :: [space] := by decide
  unfold readLine chatLine ReceiveChat.fields
  rw [hbehind, List.append_assoc, List.takeWhile_append_of_pos hall, List.dropWhile_append_of_pos hall,
    List.cons_append, List.takeWhile_cons_of_neg (by simp), List.dropWhile_cons_of_neg (by simp), List.append_nil]
  rfl

/-- What is printed for an inbox is read back chat by chat. -/
theorem readScreen_inbox {chats : List ReceiveChat} (h : ∀ chat ∈ chats, chat.Plain) :
    readScreen (chats.flatMap fun chat => endLine (chatLine chat)) = chats.map ReceiveChat.fields := by
  have hlines : ∀ line ∈ chats.map chatLine, newline ∉ line := by
    intro line hline
    obtain ⟨chat, hchat, rfl⟩ := List.mem_map.mp hline
    have hplain := h chat hchat
    have hbehind : newline ∉ asciiBytes "] " := by decide
    unfold chatLine
    rw [List.mem_append, List.mem_append]
    rintro ((hsender | hbracket) | hcontent)
    · exact hplain.sender hsender
    · exact hbehind hbracket
    · exact hplain.content hcontent
  have hscreen : (chats.flatMap fun chat => endLine (chatLine chat)) =
      (chats.map chatLine).flatMap fun line => line ++ [newline] := by
    rw [List.flatMap_map]
    rfl
  unfold readScreen
  rw [hscreen, List.pieces_ended hlines, List.map_map]
  refine List.map_congr_left ?_
  intro chat hchat
  exact readLine_chatLine (h chat hchat)

/-- The names of users have neither a bracket nor a newline in them. -/
theorem plain_of_valid {u : ByteString} (h : AccountRegistry.ValidUsername u) :
    bracket ∉ u.data ∧ newline ∉ u.data := by
  have hbracket : ¬(AccountRegistry.IsAlphanumeric bracket ∨ AccountRegistry.IsUnderscore bracket) := by
    simp [AccountRegistry.IsAlphanumeric, AccountRegistry.IsLowercase, AccountRegistry.IsUppercase,
      AccountRegistry.IsDigit, AccountRegistry.IsUnderscore, bracket]
  have hnewline : ¬(AccountRegistry.IsAlphanumeric newline ∨ AccountRegistry.IsUnderscore newline) := by
    simp [AccountRegistry.IsAlphanumeric, AccountRegistry.IsLowercase, AccountRegistry.IsUppercase,
      AccountRegistry.IsDigit, AccountRegistry.IsUnderscore, newline]
  exact ⟨fun hmem => hbracket (h.plain bracket hmem), fun hmem => hnewline (h.plain newline hmem)⟩

/-- A message that `BuildCommand` made of a line of input. -/
def Typed (message : Message) : Prop :=
  ∃ (line : ByteString) (request : Request), newline ∉ line.data ∧ buildCommand line = .ok (.request request) ∧
    message = request.message

/-- A chat that was typed is part of its line. -/
theorem content_of_typed {recipient content : ByteString} (h : Typed (Request.sendChat ⟨recipient, content⟩).message) :
    newline ∉ content.data := by
  obtain ⟨line, request, hline, hbuilt, hsame⟩ := h
  have hrequest : Request.sendChat ⟨recipient, content⟩ = request := Request.message_inj hsame
  subst hrequest
  have hpart : ∀ c ∈ content.data, c ∈ (Request.sendChat ⟨recipient, content⟩).rendering := by
    intro c hc
    rw [Request.rendering, Request.words, rendering_fields]
    exact List.mem_append_right _ (List.mem_cons_of_mem _ (List.mem_append_right _ (List.mem_cons_of_mem _ hc)))
  intro hmem
  apply hline
  rcases rendering_of_buildCommand hbuilt with hdata | hdata
  · rw [hdata]
    exact hpart newline hmem
  · rw [hdata]
    exact List.mem_append_left _ (hpart newline hmem)

namespace Network

variable {ι : Type} [DecidableEq ι] {sha256 : List UInt8 → Digest} {net next : Network ι}
  {trace : List (Action ι × Observation ι)}

/-- The clients are run by users who type their commands. -/
def TypedAction : Action ι → Prop
  | .sendRequest _ message _ => Typed message
  | _ => True

theorem typed_of_asked {writer : ι} {request : Request}
    (run : Run (Guarded (fun _ action => TypedAction action) (Step sha256)) init trace net)
    (h : Asked trace writer request) : Typed request.message := by
  obtain ⟨result, vector, _, hmem⟩ := h
  obtain ⟨before, after, htrace⟩ := List.append_of_mem hmem
  rw [htrace] at run
  obtain ⟨n, n', _, hstep, _⟩ := run.at_entry
  exact hstep.1

/-- Everything that is on its way to a user can be told apart on the screen. -/
theorem plain_of_pending {reader : ι} {chat : ReceiveChat}
    (run : Run (Guarded (fun _ action => TypedAction action) (Step sha256)) init trace net)
    (h : chat ∈ (net.peers reader).pending) : chat.Plain := by
  obtain ⟨before, entry, after, n, n', htrace, hbefore, hserve, hentry⟩ := passed_of_pending run.unguarded h
  obtain ⟨fd, _, _, session, buffer, out, recipient, hstep, hrequest, present, hauth, hname⟩ :=
    sender_of_passed hserve hentry
  have hasked : Asked trace session.channel (.sendChat ⟨recipient, chat.content⟩) := by
    refine (asked_of_step hbefore hstep hrequest).mono ?_
    intro other hother
    rw [htrace]
    exact List.mem_append_left _ hother
  have hserver := server_run hbefore
  have hregistered : n.server.accounts.contains session.username = true :=
    ((Server.names_of_run hserver).sessions fd session present).authenticated hauth
  obtain ⟨hbracket, hnewline⟩ := plain_of_valid (Server.validUsername_of_run hserver hregistered)
  rw [hname] at hbracket hnewline
  exact ⟨hbracket, hnewline, content_of_typed (typed_of_asked run hasked)⟩

theorem screen_of_run (run : Run (Guarded (fun _ action => TypedAction action) (Step sha256)) init trace net)
    (reader : ι) :
    readScreen ((net.peers reader).client.inbox.flatMap fun chat => endLine (chatLine chat)) =
      (net.peers reader).client.inbox.map ReceiveChat.fields := by
  have hplain : ∀ chat ∈ (net.peers reader).client.inbox, chat.Plain := by
    intro chat hchat
    exact plain_of_pending run (List.mem_append_left _ hchat)
  exact readScreen_inbox hplain

/-- Among users who type their commands, what `check` prints can be read back: it shows the chats of the
inbox, each with its sender and its text, and empties the inbox. -/
theorem screen_read_back (run : Run (Guarded (fun _ action => TypedAction action) (Step sha256)) init trace net)
    (reader : ι) (server : Nat → Answer) (session : ClientSession)
    (hsession : session.client = (net.peers reader).client) :
    ∃ output after, runCommand server session (.type .checkInbox) = .ok (some (output, after)) ∧
      readScreen output.printed = (net.peers reader).client.inbox.map ReceiveChat.fields ∧
      after.client.inbox = [] := by
  refine ⟨_, _, runCommand_checkInbox server session, ?_, rfl⟩
  dsimp only
  rw [hsession]
  exact screen_of_run run reader

/-- `client` sent a request that was built of a line of its user: of the words of the request, and at most one
space behind them. -/
def Entered (trace : List (Action ι × Observation ι)) (client : ι) (request : Request) : Prop :=
  Asked trace client request ∧ ∃ line : ByteString, newline ∉ line.data ∧
    buildCommand line = .ok (.request request) ∧ (line.data = request.rendering ∨ line.data = request.rendering ++ [space])

theorem entered_of_asked {writer : ι} {request : Request}
    (run : Run (Guarded (fun _ action => TypedAction action) (Step sha256)) init trace net)
    (h : Asked trace writer request) : Entered trace writer request := by
  obtain ⟨line, request', hline, hbuilt, hsame⟩ := typed_of_asked run h
  obtain rfl : request = request' := Request.message_inj hsame
  exact ⟨h, line, hline, hbuilt, rendering_of_buildCommand hbuilt⟩

/-- Every line that `check` prints was typed: the text as a chat, by somebody who had typed a login under the
name in front of it, and for a name that the user of this screen had typed a login under. -/
theorem screen_was_typed
    (run : Run (Guarded (fun _ action => TypedAction action)
      (Guarded (fun n action => n.freshLogin sha256 action = true) (Step sha256))) init trace net)
    {reader : ι} {server : Nat → Answer} {session after : ClientSession} {output : CommandOutput}
    {name text : List UInt8} (hsession : session.client = (net.peers reader).client)
    (hcheck : runCommand server session (.type .checkInbox) = .ok (some (output, after)))
    (hline : (name, text) ∈ readScreen output.printed) :
    ∃ before entry later writer sender recipient content p q, trace = before ++ entry :: later ∧
      name = sender.data ∧ text = content.data ∧ (⟨sender, content⟩ : ReceiveChat) ∈ passedOn reader entry ∧
      Entered before writer (.sendChat ⟨recipient, content⟩) ∧ Entered before writer (.login ⟨sender, p⟩) ∧
      Entered before reader (.login ⟨recipient, q⟩) := by
  have htyped : Run (Guarded (fun _ action => TypedAction action) (Step sha256)) init trace net :=
    run.mono fun hstep => ⟨hstep.1, hstep.2.2⟩
  have hprinted : output.printed = (net.peers reader).client.inbox.flatMap fun chat => endLine (chatLine chat) := by
    rw [runCommand_checkInbox, hsession] at hcheck
    cases hcheck
    rfl
  rw [hprinted, screen_of_run htyped] at hline
  obtain ⟨chat, hchat, hfields⟩ := List.mem_map.mp hline
  obtain ⟨hname, htext⟩ := Prod.mk.inj hfields
  obtain ⟨before, entry, later, _, _, htrace, _, _, hpassed⟩ :=
    passed_of_pending htyped.unguarded (List.mem_append_left _ hchat)
  have hrun := run
  rw [htrace] at hrun
  obtain ⟨n, n', hbefore, hserve, _⟩ := hrun.at_entry
  have hbefore' : Run (Guarded (fun _ action => TypedAction action) (Step sha256)) init before n :=
    hbefore.mono fun hstep => ⟨hstep.1, hstep.2.2⟩
  obtain ⟨writer, recipient, p, q, hwrote, hlogin, hlogin', _⟩ := passed_between hbefore.unguarded hserve.2.2 hpassed
  exact ⟨before, entry, later, writer, chat.sender, recipient, chat.content, p, q, htrace, hname.symm, htext.symm,
    hpassed, entered_of_asked hbefore' hwrote, entered_of_asked hbefore' hlogin, entered_of_asked hbefore' hlogin'⟩

/-- The messages of the run are typed. -/
theorem greetingRun_typed : ∀ action ∈ greetingRun, TypedAction action := by
  have hregister : ∀ account : Login, ∀ line : ByteString, newline ∉ line.data →
      space ∉ account.username.data → space ∉ account.password.data → account.password.data ≠ [] →
      line.data = (Server.registering account).rendering → Typed (Server.registering account).message := by
    intro account line hline hu hp hne hdata
    exact ⟨line, _, hline, buildCommand_register hu hp hne hdata, rfl⟩
  have hlogin : ∀ account : Login, ∀ line : ByteString, newline ∉ line.data →
      space ∉ account.username.data → space ∉ account.password.data → account.password.data ≠ [] →
      line.data = (Request.login account).rendering → Typed (Request.login account).message := by
    intro account line hline hu hp hne hdata
    exact ⟨line, _, hline, buildCommand_login hu hp hne hdata, rfl⟩
  have halice := hregister Server.alice ⟨asciiBytes "register alice_adams aliceAdams123!", by decide⟩ (by decide)
    (by decide) (by decide) (by decide) (by decide)
  have hbrian := hregister Server.brian ⟨asciiBytes "register brian_baker brianBaker234@", by decide⟩ (by decide)
    (by decide) (by decide) (by decide) (by decide)
  have halice' := hlogin Server.alice ⟨asciiBytes "login alice_adams aliceAdams123!", by decide⟩ (by decide)
    (by decide) (by decide) (by decide) (by decide)
  have hbrian' := hlogin Server.brian ⟨asciiBytes "login brian_baker brianBaker234@", by decide⟩ (by decide)
    (by decide) (by decide) (by decide) (by decide)
  have hping : Typed (Request.ping ⟨⟩).message :=
    ⟨⟨asciiBytes "ping", by decide⟩, _, by decide, buildCommand_ping rfl, rfl⟩
  have hchat : Typed (Request.sendChat ⟨Server.alice.username, greeting⟩).message := by
    obtain ⟨chat, hbuilt, hdata⟩ := buildCommand_chat (u := Server.alice.username) (c := greeting)
      (s := ⟨asciiBytes "chat alice_adams Peace and love on planet Earth.", by decide⟩) (by decide) (by decide)
      (by decide)
    have hsame : chat = greeting := ByteString.ext hdata
    rw [hsame] at hbuilt
    exact ⟨_, _, by decide, hbuilt, rfl⟩
  simp only [greetingRun, bothLogIn, List.cons_append, List.nil_append, List.forall_mem_cons]
  exact ⟨trivial, trivial, halice, trivial, trivial, halice', trivial, trivial, hbrian, trivial, trivial, hbrian',
    trivial, trivial, hchat, hping, trivial, trivial, trivial, trivial, fun _ h => absurd h List.not_mem_nil⟩

/-- Brian's chat on the screen of Alice. -/
theorem screen_read_back_greetingRun : ∃ trace net output after,
    Run (Guarded (fun _ action => TypedAction action) (Step Server.paddedDigest)) (init : Network Nat) trace net ∧
      runCommand (fun _ => ⟨0, []⟩) ⟨(net.peers 0).client, true, 0⟩ (.type .checkInbox) = .ok (some (output, after)) ∧
      readScreen output.printed = [(Server.brian.username.data, greeting.data)] := by
  obtain ⟨trace, net, run, hevents, _, hinbox⟩ := greetingRun_reaches
  have htyped : ∀ action ∈ trace.map Prod.fst, TypedAction action := by
    rw [hevents]
    exact greetingRun_typed
  obtain ⟨output, after, hrun, hscreen, _⟩ := screen_read_back (run.unguarded.guarded htyped) 0 (fun _ => ⟨0, []⟩)
    ⟨(net.peers 0).client, true, 0⟩ rfl
  rw [hinbox] at hscreen
  exact ⟨trace, net, output, after, run.unguarded.guarded htyped, hrun, hscreen⟩

/-- Brian typed a login and the chat, and Alice a login. -/
theorem screen_was_typed_greetingRun : ∃ trace net output after writer sender recipient content p q,
    Run (Step Server.paddedDigest) (init : Network Nat) trace net ∧
      runCommand (fun _ => ⟨0, []⟩) ⟨(net.peers 0).client, true, 0⟩ (.type .checkInbox) = .ok (some (output, after)) ∧
      readScreen output.printed = [(Server.brian.username.data, greeting.data)] ∧
      sender.data = Server.brian.username.data ∧ content.data = greeting.data ∧
      Entered trace writer (.sendChat ⟨recipient, content⟩) ∧ Entered trace writer (.login ⟨sender, p⟩) ∧
      Entered trace 0 (.login ⟨recipient, q⟩) := by
  obtain ⟨trace, net, run, hevents, _, hinbox⟩ := greetingRun_reaches
  have htyped : ∀ action ∈ trace.map Prod.fst, TypedAction action := by
    rw [hevents]
    exact greetingRun_typed
  have hcheck := runCommand_checkInbox (fun _ => ⟨0, []⟩) ⟨(net.peers 0).client, true, 0⟩
  have hscreen := screen_of_run (run.unguarded.guarded htyped) 0
  rw [hinbox] at hscreen
  have hline : (Server.brian.username.data, greeting.data) ∈
      readScreen ((net.peers 0).client.inbox.flatMap fun chat => endLine (chatLine chat)) := by
    rw [hinbox, hscreen]
    exact List.mem_singleton_self _
  obtain ⟨before, entry, later, writer, sender, recipient, content, p, q, rfl, hname, htext, _, hwrote, hlogin,
    hlogin'⟩ := screen_was_typed (run.guarded htyped) rfl hcheck hline
  have hlater : ∀ {client : Nat} {request : Request}, Entered before client request →
      Entered (before ++ entry :: later) client request := by
    rintro client request ⟨hasked, hbuilt⟩
    exact ⟨hasked.mono fun _ => List.mem_append_left _, hbuilt⟩
  refine ⟨_, net, _, _, writer, sender, recipient, content, p, q, run.unguarded, hcheck, ?_, hname.symm, htext.symm,
    hlater hwrote, hlater hlogin, hlater hlogin'⟩
  dsimp only
  rw [hinbox]
  exact hscreen

end Network

end SecureMessaging
