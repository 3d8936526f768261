import SecureMessaging.History
import SecureMessaging.Lib.Index

namespace SecureMessaging

/-- The user a session is logged in as. -/
def Session.user {χ : Type} (session : Session χ) : Option ByteString :=
  if session.authenticated then some session.username else none

theorem Session.user_eq_some {χ : Type} {session : Session χ} {u : ByteString} :
    session.user = some u ↔ session.authenticated = true ∧ session.username = u := by
  unfold Session.user
  split
  next h => simp [h]
  next h => simp [h]

theorem Session.user_eq_none {χ : Type} {session : Session χ} :
    session.user = none ↔ session.authenticated = false := by
  unfold Session.user
  split
  next h => simp [h]
  next h => simpa using h

namespace SessionManager

variable {χ : Type} {manager : SessionManager χ} {fd : Int} {u : ByteString}

/-- The name map has every user that is logged in. -/
def Owned (manager : SessionManager χ) : Prop :=
  Index.Complete Session.user manager.sessions manager.userToFd

/-- The name map has the users that are logged in and no others. -/
def Linked (manager : SessionManager χ) : Prop :=
  Index.Exact Session.user manager.sessions manager.userToFd

theorem Linked.free (h : manager.Linked) (hu : manager.isEstablishedUser u = false) :
    manager.userToFd u = none := by
  cases hfd : manager.userToFd u with
  | none => rfl
  | some fd =>
    obtain ⟨session, hsession, _⟩ := (h u fd).mp hfd
    have hest := isEstablishedUser_iff.mpr ⟨fd, session, hfd, hsession⟩
    rw [hu] at hest
    cases hest

end SessionManager

namespace Server

variable {χ : Type} {sha256 : List UInt8 → Digest} {server : Server χ} {event : Event χ} {out : Output χ}
  {trace : List (Event χ × Output χ)}

/-- The descriptor and the name of a Login request that passes the checks of
`HandleRequest<Login>` and `Authenticate`. -/
def acceptedLogin (sha256 : List UInt8 → Digest) (server : Server χ) : Event χ → Option (Int × ByteString)
  | .ready fd (some buffer) _ _ =>
    match requestIn buffer with
    | some (.login m) =>
      if server.accounts.accounts m.username = some (AccountRegistry.hashPassword sha256 m.password) ∧
          server.sessions.isEstablished fd = true ∧ server.sessions.isEstablishedUser m.username = false then
        some (fd, m.username)
      else none
    | _ => none
  | _ => none

/-- A login is only accepted on a connection that is not logged in yet. -/
def freshLogin (sha256 : List UInt8 → Digest) (server : Server χ) (event : Event χ) : Bool :=
  (acceptedLogin sha256 server event).all fun login =>
    (server.sessions.sessions login.1).all fun session => !session.authenticated

/-- A login is only accepted for a name that is not left in the name map by a session that is gone. -/
def cleanLogin (sha256 : List UInt8 → Digest) (server : Server χ) (event : Event χ) : Bool :=
  (acceptedLogin sha256 server event).all fun login => !server.sessions.userToFd.contains login.2

theorem acceptedLogin_eq (chatResult responseResult : Int) {fd : Int} {buffer : MessageBuffer} {m : Login}
    {session : Session χ} (request : requestIn buffer = some (.login m))
    (stored : server.accounts.accounts m.username = some (AccountRegistry.hashPassword sha256 m.password))
    (present : server.sessions.sessions fd = some session)
    (free : server.sessions.isEstablishedUser m.username = false) :
    acceptedLogin sha256 server (.ready fd (some buffer) chatResult responseResult) = some (fd, m.username) := by
  have hest := SessionManager.isEstablished_iff.mpr ⟨session, present⟩
  simp only [acceptedLogin, request]
  exact if_pos ⟨stored, hest, free⟩

theorem owned_step {sessions : SessionManager χ} (owned : server.sessions.Owned)
    (clean : cleanLogin sha256 server event = true) (h : SessionChange sha256 server event out sessions) :
    sessions.Owned := by
  cases h with
  | kept => exact owned
  | created => exact Index.Complete.emplace owned (Session.user_eq_none.mpr rfl)
  | destroyed present authenticated =>
    exact Index.Complete.erase owned present (Session.user_eq_some.mpr ⟨authenticated, rfl⟩)
  | @authenticated fd session buffer chatResult responseResult m _ _ request stored present free =>
    have hlogin := acceptedLogin_eq chatResult responseResult request stored present free
    have hfree : server.sessions.userToFd m.username = none := by
      simpa [cleanLogin, hlogin, Table.contains] using clean
    exact Index.Complete.rename owned hfree (Session.user_eq_some.mpr ⟨rfl, rfl⟩)

theorem linked_step {sessions : SessionManager χ} (linked : server.sessions.Linked)
    (fresh : freshLogin sha256 server event = true) (h : SessionChange sha256 server event out sessions) :
    sessions.Linked := by
  cases h with
  | kept => exact linked
  | created => exact Index.Exact.emplace linked (Session.user_eq_none.mpr rfl)
  | destroyed present authenticated =>
    exact Index.Exact.erase linked present (Session.user_eq_some.mpr ⟨authenticated, rfl⟩)
  | @authenticated fd session buffer chatResult responseResult m _ _ request stored present free =>
    have hlogin := acceptedLogin_eq chatResult responseResult request stored present free
    have hnameless : session.authenticated = false := by
      simpa [freshLogin, hlogin, present] using fresh
    have hfree := linked.free free
    exact Index.Exact.rename linked present (Session.user_eq_none.mpr hnameless) hfree
      (Session.user_eq_some.mpr ⟨rfl, rfl⟩)

theorem owned_of_run
    (run : Run (Guarded (fun s e => cleanLogin sha256 s e = true) (Step sha256)) init trace server) :
    server.sessions.Owned := by
  have start : (init : Server χ).sessions.Owned := Index.Complete.empty
  exact run.invariant (P := fun s => s.sessions.Owned) start
    fun owned h => owned_step owned h.1 (sessions_of_effect (effect_of_step h.2))

theorem linked_of_run
    (run : Run (Guarded (fun s e => freshLogin sha256 s e = true) (Step sha256)) init trace server) :
    server.sessions.Linked := by
  have start : (init : Server χ).sessions.Linked := Index.Exact.empty
  exact run.invariant (P := fun s => s.sessions.Linked) start
    fun linked h => linked_step linked h.1 (sessions_of_effect (effect_of_step h.2))

end Server

end SecureMessaging
