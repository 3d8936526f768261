import SecureMessaging.CommandLine

namespace SecureMessaging

inductive CommandType
  | quit
  | checkInbox
  | parseFailure
  deriving DecidableEq

/-- The variant `Command`. -/
inductive Command
  | request (request : Request)
  | type (type : CommandType)
  deriving DecidableEq

/-- The arguments from the third on, joined by spaces, as `BuildCommand` collects them. -/
def joinChat (args : List ByteString) : Fallible ByteString :=
  (joinWithSpaces (args.drop 2)).foldlM ByteString.pushBack ByteString.empty

/-- What `BuildCommand` makes of the arguments. -/
def commandOf (args : List ByteString) : Fallible Command :=
  match args with
  | [] => pure (.type .parseFailure)
  | keyword :: _ =>
    if keyword.data = asciiBytes "ping" ∧ args.length = 1 then pure (.request (.ping ⟨⟩))
    else if keyword.data = asciiBytes "login" ∧ args.length = 3 then
      pure (.request (.login ⟨args.getD 1 ByteString.empty, args.getD 2 ByteString.empty⟩))
    else if keyword.data = asciiBytes "register" ∧ args.length = 3 then
      pure (.request (.register ⟨args.getD 1 ByteString.empty, args.getD 2 ByteString.empty⟩))
    else if keyword.data = asciiBytes "chat" ∧ args.length ≥ 3 then do
      let chat ← joinChat args
      pure (.request (.sendChat ⟨args.getD 1 ByteString.empty, chat⟩))
    else if keyword.data = asciiBytes "check" then pure (.type .checkInbox)
    else if keyword.data = asciiBytes "quit" then pure (.type .quit)
    else pure (.type .parseFailure)

def buildCommand (command : ByteString) : Fallible Command := do
  let args ← parseCommandArguments command
  commandOf args

/-- How a request is typed: its keyword and its fields. -/
def Request.words : Request → List (List UInt8)
  | .ping _ => [asciiBytes "ping"]
  | .login m => [asciiBytes "login", m.username.data, m.password.data]
  | .register m => [asciiBytes "register", m.username.data, m.password.data]
  | .sendChat m => [asciiBytes "chat", m.recipient.data, m.content.data]

/-- The words of a request with a single space between each two. -/
def Request.rendering (request : Request) : List UInt8 := List.intercalate [space] request.words

variable {keyword u p : ByteString} {args : List ByteString}

theorem joinWithSpaces_cons (h : args ≠ []) (keyword : ByteString) :
    joinWithSpaces (keyword :: args) = keyword.data ++ space :: joinWithSpaces args := by
  have hmap : args.map ByteString.data ≠ [] := fun hnil => h (List.map_eq_nil_iff.mp hnil)
  rw [joinWithSpaces, List.map_cons, List.intercalate_cons_of_ne_nil hmap, List.append_assoc]
  rfl

/-- Joining cannot give more than the line that was split. -/
theorem joinChat_ok (hargs : args ≠ []) (hmax : (joinWithSpaces (keyword :: u :: args)).length ≤ stringMaxSize) :
    ∃ chat, joinChat (keyword :: u :: args) = .ok chat ∧ chat.data = joinWithSpaces args := by
  have hroom : ByteString.empty.data.length + (joinWithSpaces args).length ≤ stringMaxSize := by
    rw [joinWithSpaces_cons (List.cons_ne_nil u args), joinWithSpaces_cons hargs] at hmax
    simp only [List.length_append, List.length_cons] at hmax
    have hempty : ByteString.empty.data.length = 0 := rfl
    omega
  exact ByteString.foldlM_pushBack ByteString.empty hroom

theorem commandOf_login (h : keyword.data = asciiBytes "login") :
    commandOf [keyword, u, p] = .ok (.request (.login ⟨u, p⟩)) := by
  have hping : asciiBytes "login" ≠ asciiBytes "ping" := by decide
  simp [commandOf, h, hping, pure, Except.pure]

theorem commandOf_register (h : keyword.data = asciiBytes "register") :
    commandOf [keyword, u, p] = .ok (.request (.register ⟨u, p⟩)) := by
  have hping : asciiBytes "register" ≠ asciiBytes "ping" := by decide
  have hlogin : asciiBytes "register" ≠ asciiBytes "login" := by decide
  simp [commandOf, h, hping, hlogin, pure, Except.pure]

theorem commandOf_chat (h : keyword.data = asciiBytes "chat") (hargs : args ≠ [])
    (hmax : (joinWithSpaces (keyword :: u :: args)).length ≤ stringMaxSize) :
    ∃ chat, commandOf (keyword :: u :: args) = .ok (.request (.sendChat ⟨u, chat⟩)) ∧
      chat.data = joinWithSpaces args := by
  obtain ⟨chat, hchat, hdata⟩ := joinChat_ok hargs hmax
  refine ⟨chat, ?_, hdata⟩
  have hping : asciiBytes "chat" ≠ asciiBytes "ping" := by decide
  have hlogin : asciiBytes "chat" ≠ asciiBytes "login" := by decide
  have hregister : asciiBytes "chat" ≠ asciiBytes "register" := by decide
  have hcount : (keyword :: u :: args).length ≥ 3 := by
    have hpos := List.length_pos_iff.mpr hargs
    simp only [List.length_cons]
    omega
  simp only [commandOf, h, hping, hlogin, hregister, hcount, hchat, false_and, and_self, if_false, if_true]
  rfl

theorem rendering_fields (keyword u p : List UInt8) :
    List.intercalate [space] [keyword, u, p] = keyword ++ space :: (u ++ space :: p) := by
  simp [List.intercalate_cons_cons]

theorem joinWithSpaces_fields (keyword u p : ByteString) :
    joinWithSpaces [keyword, u, p] = keyword.data ++ space :: (u.data ++ space :: p.data) :=
  rendering_fields keyword.data u.data p.data

/-- What `args.size() >= 3` says of the arguments behind the keyword. -/
theorem args_of_count {rest : List ByteString} (h : (keyword :: rest).length ≥ 3) :
    ∃ u more, rest = u :: more ∧ more ≠ [] := by
  match rest, h with
  | u :: p :: more, _ => exact ⟨u, p :: more, rfl, List.cons_ne_nil p more⟩

/-- The arguments make a request whose words they are, or another command. -/
theorem commandOf_cases (hmax : (joinWithSpaces args).length ≤ stringMaxSize) :
    (∃ type, commandOf args = .ok (.type type)) ∨
    ∃ request, commandOf args = .ok (.request request) ∧ joinWithSpaces args = request.rendering := by
  unfold commandOf
  split
  next => exact Or.inl ⟨_, rfl⟩
  next keyword rest =>
    split
    next hping =>
      obtain ⟨keyword', hone⟩ := List.length_eq_one_iff.mp hping.2
      cases hone
      exact Or.inr ⟨_, rfl, congrArg (fun word => List.intercalate [space] [word]) hping.1⟩
    next =>
      split
      next hlogin =>
        obtain ⟨_, u, p, hthree⟩ := List.length_eq_three.mp hlogin.2
        cases hthree
        refine Or.inr ⟨_, rfl, ?_⟩
        rw [joinWithSpaces_fields, hlogin.1]
        exact (rendering_fields _ _ _).symm
      next =>
        split
        next hregister =>
          obtain ⟨_, u, p, hthree⟩ := List.length_eq_three.mp hregister.2
          cases hthree
          refine Or.inr ⟨_, rfl, ?_⟩
          rw [joinWithSpaces_fields, hregister.1]
          exact (rendering_fields _ _ _).symm
        next =>
          split
          next hchat =>
            obtain ⟨u, more, rfl, hmore⟩ := args_of_count hchat.2
            obtain ⟨chat, hjoin, hdata⟩ := joinChat_ok hmore hmax
            refine Or.inr ⟨.sendChat ⟨u, chat⟩, by rw [hjoin]; rfl, ?_⟩
            rw [joinWithSpaces_cons (List.cons_ne_nil u more), joinWithSpaces_cons hmore, hchat.1, ← hdata]
            exact (rendering_fields _ _ _).symm
          next =>
            split
            next => exact Or.inl ⟨_, rfl⟩
            next =>
              split
              next => exact Or.inl ⟨_, rfl⟩
              next => exact Or.inl ⟨_, rfl⟩

/-- The arguments of a line, with its pieces. -/
theorem buildCommand_eq (s : ByteString) : ∃ args, args.map ByteString.data = s.data.pieces space ∧
    s.data = joinWithSpaces args ++ List.lastSep space s.data ∧ buildCommand s = commandOf args := by
  obtain ⟨args, hargs, hparse⟩ := parseCommandArguments_pieces s
  refine ⟨args, hargs, ?_, ?_⟩
  · rw [joinWithSpaces, hargs, List.intercalate_pieces]
  · rw [buildCommand, hparse]
    rfl

/-- The arguments joined are no longer than the line. -/
theorem joined_le {s : ByteString} (h : s.data = joinWithSpaces args ++ List.lastSep space s.data) :
    (joinWithSpaces args).length ≤ stringMaxSize := by
  have hsize := s.size_le
  rw [h, List.length_append] at hsize
  omega

/-- Joining cannot give more than the line, so nothing in `BuildCommand` throws. -/
theorem buildCommand_returns (s : ByteString) : ∃ command, buildCommand s = .ok command := by
  obtain ⟨args, _, hline, hcommand⟩ := buildCommand_eq s
  rw [hcommand]
  rcases commandOf_cases (joined_le hline) with ⟨_, htype⟩ | ⟨_, hrequest, _⟩
  · exact ⟨_, htype⟩
  · exact ⟨_, hrequest⟩

/-- A request is built from its rendering, with a space behind it or without. -/
theorem rendering_of_buildCommand {s : ByteString} {request : Request}
    (h : buildCommand s = .ok (.request request)) :
    s.data = request.rendering ∨ s.data = request.rendering ++ [space] := by
  obtain ⟨args, _, hline, hcommand⟩ := buildCommand_eq s
  rw [hcommand] at h
  rcases commandOf_cases (joined_le hline) with ⟨_, htype⟩ | ⟨request', hrequest, hwords⟩
  · cases htype.symm.trans h
  · cases hrequest.symm.trans h
    rw [← hwords]
    unfold List.lastSep at hline
    split at hline
    next => exact Or.inr hline
    next => exact Or.inl (hline.trans (List.append_nil _))

/-- A keyword and a field without spaces are pieces of their own. -/
theorem pieces_rendering {word u : List UInt8} (hword : space ∉ word) (hu : space ∉ u) (rest : List UInt8) :
    (word ++ space :: (u ++ space :: rest)).pieces space = word :: u :: rest.pieces space := by
  rw [List.pieces_append hword, List.pieces_append hu]

theorem args_of_pieces {s : ByteString} {word u rest : List UInt8} (hword : space ∉ word) (hu : space ∉ u)
    (hargs : args.map ByteString.data = s.data.pieces space)
    (hs : s.data = word ++ space :: (u ++ space :: rest)) :
    ∃ keyword u' more, args = keyword :: u' :: more ∧ keyword.data = word ∧ u'.data = u ∧
      more.map ByteString.data = rest.pieces space := by
  rw [hs, pieces_rendering hword hu] at hargs
  obtain ⟨keyword, behind, rfl, hkeyword, hbehind⟩ := List.map_eq_cons_iff.mp hargs
  obtain ⟨u', more, rfl, hu', hmore⟩ := List.map_eq_cons_iff.mp hbehind
  exact ⟨keyword, u', more, rfl, hkeyword, hu', hmore⟩

theorem buildCommand_ping {s : ByteString} (h : s.data = asciiBytes "ping") :
    buildCommand s = .ok (.request (.ping ⟨⟩)) := by
  obtain ⟨args, hargs, _, hcommand⟩ := buildCommand_eq s
  have hword : space ∉ asciiBytes "ping" := by decide
  have hne : asciiBytes "ping" ≠ [] := by decide
  rw [h, List.pieces_of_not_mem hword, if_neg hne] at hargs
  obtain ⟨keyword, rfl, hkeyword⟩ := List.map_eq_singleton_iff.mp hargs
  rw [hcommand]
  simp [commandOf, hkeyword, pure, Except.pure]

/-- An empty line is no command. -/
theorem buildCommand_empty : buildCommand ByteString.empty = .ok (.type .parseFailure) := by
  obtain ⟨args, hargs, _, hcommand⟩ := buildCommand_eq ByteString.empty
  have hnone : args.map ByteString.data = [] := hargs.trans (List.pieces_nil space)
  rw [hcommand, List.map_eq_nil_iff.mp hnone]
  rfl

/-- Two fields without spaces, the second not empty. -/
theorem args_of_fields {s u p : ByteString} {word : List UInt8} (hword : space ∉ word) (hu : space ∉ u.data)
    (hp : space ∉ p.data) (hne : p.data ≠ []) (hargs : args.map ByteString.data = s.data.pieces space)
    (hs : s.data = word ++ space :: (u.data ++ space :: p.data)) :
    ∃ keyword, args = [keyword, u, p] ∧ keyword.data = word := by
  obtain ⟨keyword, u', more, rfl, hkeyword, hu', hmore⟩ := args_of_pieces hword hu hargs hs
  rw [List.pieces_of_not_mem hp, if_neg hne] at hmore
  obtain ⟨p', rfl, hp'⟩ := List.map_eq_singleton_iff.mp hmore
  rw [ByteString.ext hu', ByteString.ext hp']
  exact ⟨keyword, rfl, hkeyword⟩

theorem buildCommand_login {s : ByteString} (hu : space ∉ u.data) (hp : space ∉ p.data) (hne : p.data ≠ [])
    (hs : s.data = (Request.login ⟨u, p⟩).rendering) : buildCommand s = .ok (.request (.login ⟨u, p⟩)) := by
  obtain ⟨args, hargs, _, hcommand⟩ := buildCommand_eq s
  have hword : space ∉ asciiBytes "login" := by decide
  obtain ⟨keyword, rfl, hkeyword⟩ := args_of_fields hword hu hp hne hargs (hs.trans (rendering_fields _ _ _))
  rw [hcommand, commandOf_login hkeyword]

theorem buildCommand_register {s : ByteString} (hu : space ∉ u.data) (hp : space ∉ p.data) (hne : p.data ≠ [])
    (hs : s.data = (Request.register ⟨u, p⟩).rendering) : buildCommand s = .ok (.request (.register ⟨u, p⟩)) := by
  obtain ⟨args, hargs, _, hcommand⟩ := buildCommand_eq s
  have hword : space ∉ asciiBytes "register" := by decide
  obtain ⟨keyword, rfl, hkeyword⟩ := args_of_fields hword hu hp hne hargs (hs.trans (rendering_fields _ _ _))
  rw [hcommand, commandOf_register hkeyword]

/-- The text of a chat without one space at its end. -/
def chatText (c : List UInt8) : List UInt8 := if c.getLast? = some space then c.dropLast else c

theorem chatText_eq {c text : List UInt8} (h : text ++ List.lastSep space c = c) : text = chatText c := by
  unfold List.lastSep at h
  unfold chatText
  split at h
  next hlast => rw [if_pos hlast, ← h, List.dropLast_concat]
  next hlast => rw [if_neg hlast, ← h, List.append_nil]

theorem buildCommand_chat {s c : ByteString} (hu : space ∉ u.data) (hne : c.data ≠ [])
    (hs : s.data = (Request.sendChat ⟨u, c⟩).rendering) :
    ∃ chat, buildCommand s = .ok (.request (.sendChat ⟨u, chat⟩)) ∧ chat.data = chatText c.data := by
  obtain ⟨args, hargs, hline, hcommand⟩ := buildCommand_eq s
  have hword : space ∉ asciiBytes "chat" := by decide
  obtain ⟨keyword, u', more, rfl, hkeyword, hu', hmore⟩ :=
    args_of_pieces hword hu hargs (hs.trans (rendering_fields _ _ _))
  have hnone : more ≠ [] := by
    rintro rfl
    exact List.pieces_ne_nil hne hmore.symm
  obtain ⟨chat, hchat, hdata⟩ := commandOf_chat hkeyword hnone (joined_le hline)
  rw [hcommand, ← ByteString.ext hu']
  refine ⟨chat, hchat, chatText_eq ?_⟩
  rw [hdata, joinWithSpaces, hmore, List.intercalate_pieces]

/-- Login, Register and SendChat requests are built from their renderings, a chat without the space
its text may end in, and from nothing else but these with one space behind. -/
theorem command_language :
    (∀ s u p : ByteString, space ∉ u.data → space ∉ p.data → p.data ≠ [] →
      (s.data = (Request.login ⟨u, p⟩).rendering → buildCommand s = .ok (.request (.login ⟨u, p⟩))) ∧
      (s.data = (Request.register ⟨u, p⟩).rendering → buildCommand s = .ok (.request (.register ⟨u, p⟩)))) ∧
    (∀ s u c : ByteString, space ∉ u.data → c.data ≠ [] → s.data = (Request.sendChat ⟨u, c⟩).rendering →
      ∃ chat, buildCommand s = .ok (.request (.sendChat ⟨u, chat⟩)) ∧ chat.data = chatText c.data) ∧
    ∀ (s : ByteString) (request : Request), buildCommand s = .ok (.request request) →
      s.data = request.rendering ∨ s.data = request.rendering ++ [space] := by
  refine ⟨?_, ?_, ?_⟩
  · intro s u p hu hp hne
    exact ⟨buildCommand_login hu hp hne, buildCommand_register hu hp hne⟩
  · intro s u c hu hne hs
    exact buildCommand_chat hu hne hs
  · intro s request h
    exact rendering_of_buildCommand h

def bob : ByteString := ⟨asciiBytes "bob", by decide⟩

/-- A login, and a chat that begins and ends in two spaces. -/
theorem command_language_bob :
    buildCommand ⟨asciiBytes "login bob bob", by decide⟩ = .ok (.request (.login ⟨bob, bob⟩)) ∧
    ∃ chat : ByteString, buildCommand ⟨asciiBytes "chat bob   hi  ", by decide⟩ =
        .ok (.request (.sendChat ⟨bob, chat⟩)) ∧ chat.data = asciiBytes "  hi " ∧
      ((⟨asciiBytes "chat bob   hi  ", by decide⟩ : ByteString).data = (Request.sendChat ⟨bob, chat⟩).rendering ∨
        (⟨asciiBytes "chat bob   hi  ", by decide⟩ : ByteString).data =
          (Request.sendChat ⟨bob, chat⟩).rendering ++ [space]) := by
  obtain ⟨chat, hbuilt, hchat⟩ := command_language.2.1 ⟨asciiBytes "chat bob   hi  ", by decide⟩ bob
    ⟨asciiBytes "  hi  ", by decide⟩ (by decide) (by decide) (by decide)
  exact ⟨(command_language.1 _ bob bob (by decide) (by decide) (by decide)).1 (by decide), chat, hbuilt, hchat,
    command_language.2.2 _ _ hbuilt⟩

end SecureMessaging
