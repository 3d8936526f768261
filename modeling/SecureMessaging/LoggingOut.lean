import SecureMessaging.SessionManager
import SecureMessaging.Lib.Runs

namespace SecureMessaging

namespace SessionManager

variable {χ : Type} {manager manager' : SessionManager χ} {fd : Int} {session : Session χ}
  {username : ByteString} {answered : Bool}

/-- The calls that write to the maps. -/
inductive Call (χ : Type)
  | create (fd : Int) (agreed : Option χ)
  | authenticate (fd : Int) (username : ByteString)
  | unauthenticate (fd : Int)
  | destroy (fd : Int)

def answer (manager : SessionManager χ) : Call χ → Fallible (Bool × SessionManager χ)
  | .create fd agreed => .ok (manager.create fd agreed)
  | .authenticate fd username => manager.authenticate fd username
  | .unauthenticate fd => manager.unauthenticate fd
  | .destroy fd => manager.destroy fd

def Step (manager : SessionManager χ) (call : Call χ) (answered : Bool) (manager' : SessionManager χ) : Prop :=
  manager.answer call = .ok (answered, manager')

/-- A session that is not logged in carries no name. -/
def Anonymous (manager : SessionManager χ) : Prop :=
  ∀ fd session, manager.sessions fd = some session → session.authenticated = false →
    session.username = ByteString.empty

theorem anonymous_empty : Anonymous (empty : SessionManager χ) := by
  intro fd session hs
  cases hs

theorem Anonymous.assign (h : Anonymous manager) {userToFd : Table ByteString Int}
    (hnew : session.authenticated = false → session.username = ByteString.empty) :
    Anonymous ⟨manager.sessions.assign fd session, userToFd⟩ := by
  intro k other hother hauth
  by_cases hk : k = fd
  · subst hk
    have hsame : some session = some other := (Table.assign_self _ _ _).symm.trans hother
    cases hsame
    exact hnew hauth
  · exact h k other ((Table.assign_ne hk).symm.trans hother) hauth

theorem anonymous_step {call : Call χ} (h : Anonymous manager) (hstep : Step manager call answered manager') :
    Anonymous manager' := by
  unfold Step at hstep
  cases call with
  | create fd agreed =>
    cases agreed with
    | none =>
      cases hstep
      exact h
    | some channel =>
      cases hstep
      cases hold : manager.sessions fd with
      | some old =>
        have hsame : manager.sessions.emplace fd ⟨channel, ByteString.empty, false⟩ = manager.sessions :=
          Table.emplace_present hold
        rw [hsame]
        exact h
      | none =>
        rw [Table.emplace_absent hold]
        exact h.assign fun _ => rfl
  | authenticate fd username =>
    rcases manager.authenticate_cases fd username with ⟨old, _, _, hans⟩ | ⟨_, hans⟩
    · cases hans.symm.trans hstep
      apply h.assign
      intro hauth
      cases hauth
    · cases hans.symm.trans hstep
      exact h
  | unauthenticate fd =>
    rcases manager.unauthenticate_cases fd with ⟨old, _, _, hans⟩ | ⟨_, hans⟩
    · cases hans.symm.trans hstep
      exact h.assign fun _ => rfl
    · cases hans.symm.trans hstep
      exact h
  | destroy fd =>
    rcases manager.destroy_cases fd with ⟨old, _, _, hans⟩ | ⟨_, hans⟩
    · cases hans.symm.trans hstep
      intro k other hother hauth
      exact h k other (Table.erase_eq_some.mp hother).2 hauth
    · cases hans.symm.trans hstep
      exact h

theorem anonymous_run {trace : List (Call χ × Bool)} (run : Run Step empty trace manager) : Anonymous manager :=
  run.invariant anonymous_empty anonymous_step

/-- Logging in as `username` and out again takes everything back, and the name can be used again. -/
def Undone (manager : SessionManager χ) (fd : Int) (username : ByteString) : Prop :=
  ∃ loggedIn loggedOut, manager.authenticate fd username = .ok (true, loggedIn) ∧
    loggedIn.unauthenticate fd = .ok (true, loggedOut) ∧ loggedOut.sessions fd = manager.sessions fd ∧
    loggedOut.userToFd = manager.userToFd ∧ loggedOut.isEstablishedUser username = false ∧
    ∀ fd', loggedOut.isEstablished fd' = true →
      ∃ next, loggedOut.authenticate fd' username = .ok (true, next)

/-- `Unauthenticate` takes the name out of the session, but not out of the name map. -/
theorem login_logout (clean : Anonymous manager) (hs : manager.sessions fd = some session)
    (hauth : session.authenticated = false) (hfree : manager.userToFd username = none) :
    ∃ loggedIn, manager.authenticate fd username = .ok (true, loggedIn) ∧
      loggedIn.unauthenticate fd = .ok (true, ⟨manager.sessions, manager.userToFd.assign username fd⟩) := by
  have hout : manager.isEstablishedUser username = false := by simp [isEstablishedUser, hfree]
  rcases manager.authenticate_cases fd username with ⟨old, hold, _, hin⟩ | ⟨hrefused, _⟩
  · obtain rfl : session = old := Option.some.inj (hs.symm.trans hold)
    refine ⟨_, hin, ?_⟩
    rcases unauthenticate_cases ⟨manager.sessions.assign fd ⟨session.channel, username, true⟩,
      manager.userToFd.emplace username fd⟩ fd with ⟨current, hcurrent, _, hlogout⟩ | ⟨hno, _⟩
    · rw [hlogout]
      have hsame : some _ = some current := (Table.assign_self _ _ _).symm.trans hcurrent
      cases hsame
      have hback : (⟨session.channel, ByteString.empty, false⟩ : Session χ) = session := by
        have hname := clean fd session hs hauth
        cases session
        cases hname
        cases hauth
        rfl
      simp only [hback, Table.assign_assign, Table.assign_present hs, Table.emplace_absent hfree]
    · have hin := hno _ (Table.assign_self _ _ _)
      cases hin
  · rcases hrefused with hnone | huser
    · rw [hs] at hnone
      cases hnone
    · rw [hout] at huser
      cases huser

/-- A name that points to a session is refused to everyone. -/
theorem authenticate_taken (hu : manager.userToFd username = some fd) (hs : manager.sessions fd = some session)
    (fd' : Int) : manager.authenticate fd' username = .ok (false, manager) := by
  have htaken : manager.isEstablishedUser username = true := isEstablishedUser_iff.mpr ⟨fd, session, hu, hs⟩
  rcases manager.authenticate_cases fd' username with ⟨_, _, hfree, _⟩ | ⟨_, hans⟩
  · rw [htaken] at hfree
    cases hfree
  · exact hans

theorem not_undone (clean : Anonymous manager) (hs : manager.sessions fd = some session)
    (hauth : session.authenticated = false) (hfree : manager.userToFd username = none) :
    ¬Undone manager fd username := by
  intro ⟨loggedIn, loggedOut, hin, hout, _, hnames, _⟩
  obtain ⟨between, hin', hout'⟩ := login_logout clean hs hauth hfree
  cases hin.symm.trans hin'
  cases hout.symm.trans hout'
  have hentry : manager.userToFd.assign username fd username = manager.userToFd username := congrFun hnames username
  rw [Table.assign_self, hfree] at hentry
  cases hentry

/-- After logging out the sessions are what they were, but the name is still taken: it cannot be
used again by anyone, and it leads to the session that has logged out. -/
theorem logout_keeps_name {trace : List (Call χ × Bool)} (run : Run Step empty trace manager)
    (hs : manager.sessions fd = some session) (hauth : session.authenticated = false)
    (hfree : manager.userToFd username = none) :
    ¬Undone manager fd username ∧
    ∃ loggedIn loggedOut, manager.authenticate fd username = .ok (true, loggedIn) ∧
      loggedIn.unauthenticate fd = .ok (true, loggedOut) ∧ loggedOut.sessions = manager.sessions ∧
      loggedOut.userToFd = manager.userToFd.assign username fd ∧
      loggedOut.isEstablishedUser username = true ∧
      ∀ fd', loggedOut.authenticate fd' username = .ok (false, loggedOut) := by
  have clean := anonymous_run run
  obtain ⟨loggedIn, hin, hout⟩ := login_logout clean hs hauth hfree
  have hentry : manager.userToFd.assign username fd username = some fd := Table.assign_self _ _ _
  refine ⟨not_undone clean hs hauth hfree, loggedIn, _, hin, hout, rfl, rfl, ?_, ?_⟩
  · exact isEstablishedUser_iff.mpr ⟨fd, session, hentry, hs⟩
  · intro fd'
    have hrefused := @authenticate_taken χ ⟨manager.sessions, manager.userToFd.assign username fd⟩ fd session
      username hentry hs fd'
    exact hrefused

def elena : ByteString := ⟨asciiBytes "elena_emerson", by decide⟩

/-- One connection, on which nobody has logged in. -/
def connected : SessionManager Nat := ((empty : SessionManager Nat).create 5 (some 0)).2

theorem connected_run : Run Step empty [(.create 5 (some 0), true)] connected :=
  Run.cons rfl .init

theorem logout_keeps_name_elena : ¬Undone connected 5 elena ∧
    ∃ loggedIn loggedOut, connected.authenticate 5 elena = .ok (true, loggedIn) ∧
      loggedIn.unauthenticate 5 = .ok (true, loggedOut) ∧ loggedOut.sessions = connected.sessions ∧
      loggedOut.userToFd = connected.userToFd.assign elena 5 ∧ loggedOut.isEstablishedUser elena = true ∧
      ∀ fd', loggedOut.authenticate fd' elena = .ok (false, loggedOut) :=
  logout_keeps_name connected_run rfl rfl rfl

theorem name_kept : ¬∀ (trace : List (Call Nat × Bool)) manager fd session username,
    Run Step (empty : SessionManager Nat) trace manager → manager.sessions fd = some session →
    session.authenticated = false → manager.userToFd username = none → Undone manager fd username := by
  intro h
  have hundone := h _ connected 5 ⟨0, ByteString.empty, false⟩ elena connected_run rfl rfl rfl
  exact not_undone (anonymous_run connected_run) rfl rfl rfl hundone

end SessionManager

end SecureMessaging
