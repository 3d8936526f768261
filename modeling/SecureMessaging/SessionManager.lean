import SecureMessaging.Lib.Containers

namespace SecureMessaging

/-- The class `SecureChannel` is not part of the sources; `χ` are its objects. -/
structure Session (χ : Type) where
  channel : χ
  username : ByteString
  authenticated : Bool

structure SessionManager (χ : Type) where
  sessions : Table Int (Session χ)
  userToFd : Table ByteString Int

namespace SessionManager

variable {χ : Type}

def empty : SessionManager χ := ⟨Table.empty, Table.empty⟩

/-- `agreed` is the channel with its key if `EstablishKey` succeeds. -/
def create (manager : SessionManager χ) (fd : Int) (agreed : Option χ) : Bool × SessionManager χ :=
  match agreed with
  | some channel =>
    (true, { manager with sessions := manager.sessions.emplace fd ⟨channel, ByteString.empty, false⟩ })
  | none => (false, manager)

def isEstablished (manager : SessionManager χ) (fd : Int) : Bool := manager.sessions.contains fd

/-- `IsEstablished(username)`. -/
def isEstablishedUser (manager : SessionManager χ) (username : ByteString) : Bool :=
  match manager.userToFd username with
  | some fd => manager.isEstablished fd
  | none => false

def getChannel (manager : SessionManager χ) (fd : Int) : Fallible χ := do
  let session ← manager.sessions.atKey fd
  pure session.channel

/-- `GetChannel(username)`. -/
def getChannelUser (manager : SessionManager χ) (username : ByteString) : Fallible χ := do
  let fd ← manager.userToFd.atKey username
  manager.getChannel fd

def getUsername (manager : SessionManager χ) (fd : Int) : Fallible ByteString := do
  let session ← manager.sessions.atKey fd
  pure session.username

def isAuthenticated (manager : SessionManager χ) (fd : Int) : Fallible Bool := do
  let session ← manager.sessions.atKey fd
  pure session.authenticated

def destroy (manager : SessionManager χ) (fd : Int) : Fallible (Bool × SessionManager χ) := do
  if manager.isEstablished fd then
    if ← manager.isAuthenticated fd then
      let username ← manager.getUsername fd
      pure (true, ⟨manager.sessions.erase fd, manager.userToFd.erase username⟩)
    else pure (false, manager)
  else pure (false, manager)

def authenticate (manager : SessionManager χ) (fd : Int) (username : ByteString) :
    Fallible (Bool × SessionManager χ) := do
  if manager.isEstablished fd && !manager.isEstablishedUser username then
    let userToFd := manager.userToFd.emplace username fd
    let session ← manager.sessions.atKey fd
    pure (true, ⟨manager.sessions.assign fd { session with username := username, authenticated := true }, userToFd⟩)
  else pure (false, manager)

def unauthenticate (manager : SessionManager χ) (fd : Int) : Fallible (Bool × SessionManager χ) := do
  if manager.isEstablished fd then
    let session ← manager.sessions.atKey fd
    if session.authenticated then
      let session := { session with username := ByteString.empty, authenticated := false }
      pure (true, { manager with sessions := manager.sessions.assign fd session })
    else pure (false, manager)
  else pure (false, manager)

theorem isEstablished_iff {manager : SessionManager χ} {fd : Int} :
    manager.isEstablished fd = true ↔ ∃ session, manager.sessions fd = some session :=
  Table.contains_iff

theorem isEstablishedUser_iff {manager : SessionManager χ} {username : ByteString} :
    manager.isEstablishedUser username = true ↔
      ∃ fd session, manager.userToFd username = some fd ∧ manager.sessions fd = some session := by
  unfold isEstablishedUser
  cases hu : manager.userToFd username with
  | none => simp
  | some fd => simp [isEstablished_iff]

theorem getChannel_ok {manager : SessionManager χ} {fd : Int} {session : Session χ}
    (h : manager.sessions fd = some session) : manager.getChannel fd = .ok session.channel := by
  simp [getChannel, Table.atKey_ok h, bind, Except.bind, pure, Except.pure]

theorem getUsername_ok {manager : SessionManager χ} {fd : Int} {session : Session χ}
    (h : manager.sessions fd = some session) : manager.getUsername fd = .ok session.username := by
  simp [getUsername, Table.atKey_ok h, bind, Except.bind, pure, Except.pure]

theorem isAuthenticated_ok {manager : SessionManager χ} {fd : Int} {session : Session χ}
    (h : manager.sessions fd = some session) : manager.isAuthenticated fd = .ok session.authenticated := by
  simp [isAuthenticated, Table.atKey_ok h, bind, Except.bind, pure, Except.pure]

theorem getChannelUser_ok {manager : SessionManager χ} {username : ByteString} {fd : Int} {session : Session χ}
    (hu : manager.userToFd username = some fd) (h : manager.sessions fd = some session) :
    manager.getChannelUser username = .ok session.channel := by
  simp [getChannelUser, Table.atKey_ok hu, getChannel_ok h, bind, Except.bind]

theorem destroy_cases (manager : SessionManager χ) (fd : Int) :
    (∃ session, manager.sessions fd = some session ∧ session.authenticated = true ∧ manager.destroy fd =
      .ok (true, ⟨manager.sessions.erase fd, manager.userToFd.erase session.username⟩)) ∨
    ((∀ session, manager.sessions fd = some session → session.authenticated = false) ∧
      manager.destroy fd = .ok (false, manager)) := by
  cases hs : manager.sessions fd with
  | none =>
    have he : manager.isEstablished fd = false := Table.contains_eq_false.mpr hs
    exact Or.inr ⟨by simp, by simp [destroy, he, pure, Except.pure]⟩
  | some session =>
    have he : manager.isEstablished fd = true := isEstablished_iff.mpr ⟨session, hs⟩
    cases ha : session.authenticated with
    | true =>
      refine Or.inl ⟨session, rfl, ha, ?_⟩
      simp [destroy, he, isAuthenticated_ok hs, ha, getUsername_ok hs, bind, Except.bind, pure, Except.pure]
    | false =>
      refine Or.inr ⟨by simp [ha], ?_⟩
      simp [destroy, he, isAuthenticated_ok hs, ha, bind, Except.bind, pure, Except.pure]

theorem authenticate_cases (manager : SessionManager χ) (fd : Int) (username : ByteString) :
    (∃ session, manager.sessions fd = some session ∧ manager.isEstablishedUser username = false ∧
      manager.authenticate fd username =
        .ok (true, ⟨manager.sessions.assign fd ⟨session.channel, username, true⟩,
          manager.userToFd.emplace username fd⟩)) ∨
    ((manager.sessions fd = none ∨ manager.isEstablishedUser username = true) ∧
      manager.authenticate fd username = .ok (false, manager)) := by
  cases hs : manager.sessions fd with
  | none =>
    have he : manager.isEstablished fd = false := Table.contains_eq_false.mpr hs
    exact Or.inr ⟨Or.inl rfl, by simp [authenticate, he, pure, Except.pure]⟩
  | some session =>
    have he : manager.isEstablished fd = true := isEstablished_iff.mpr ⟨session, hs⟩
    cases hu : manager.isEstablishedUser username with
    | true => exact Or.inr ⟨Or.inr rfl, by simp [authenticate, hu, pure, Except.pure]⟩
    | false =>
      refine Or.inl ⟨session, rfl, rfl, ?_⟩
      simp [authenticate, he, hu, Table.atKey_ok hs, bind, Except.bind, pure, Except.pure]

theorem unauthenticate_cases (manager : SessionManager χ) (fd : Int) :
    (∃ session, manager.sessions fd = some session ∧ session.authenticated = true ∧ manager.unauthenticate fd =
      .ok (true, ⟨manager.sessions.assign fd ⟨session.channel, ByteString.empty, false⟩, manager.userToFd⟩)) ∨
    ((∀ session, manager.sessions fd = some session → session.authenticated = false) ∧
      manager.unauthenticate fd = .ok (false, manager)) := by
  cases hs : manager.sessions fd with
  | none =>
    have he : manager.isEstablished fd = false := Table.contains_eq_false.mpr hs
    exact Or.inr ⟨by simp, by simp [unauthenticate, he, pure, Except.pure]⟩
  | some session =>
    have he : manager.isEstablished fd = true := isEstablished_iff.mpr ⟨session, hs⟩
    cases ha : session.authenticated with
    | true =>
      refine Or.inl ⟨session, rfl, ha, ?_⟩
      simp [unauthenticate, he, Table.atKey_ok hs, ha, bind, Except.bind, pure, Except.pure]
    | false =>
      refine Or.inr ⟨by simp [ha], ?_⟩
      simp [unauthenticate, he, Table.atKey_ok hs, ha, bind, Except.bind, pure, Except.pure]

end SessionManager

end SecureMessaging
