import SecureMessaging.Sockets

namespace SecureMessaging

/-- The address and port of a socket are those last noted on its handle, and zero without one. -/
def TcpSocket.Placed (socket : TcpSocket) (log : List SocketEvent) : Prop :=
  (socket.sockfd = -1 → socket.address = ⟨0⟩ ∧ socket.port = 0) ∧
  (socket.sockfd ≠ -1 →
    (socket.address, socket.port) = (socketLife.lastNote log socket.sockfd).getD (⟨0⟩, 0))

namespace Sockets

variable {ι : Type} {objects : Table ι SocketObject} {log : List SocketEvent} {i j : ι}
  {kind : SocketKind} {socket : TcpSocket} {object : SocketObject} {event : SocketEvent} {handle : Int}

def handleOf (socket : TcpSocket) : Option Int :=
  if socket.sockfd = -1 then none else some socket.sockfd

/-- The handle that each live object holds. -/
def held (objects : Table ι SocketObject) : Table ι Int :=
  fun i => (objects i).bind fun object => handleOf object.socket

theorem handleOf_closed (h : socket.sockfd = -1) : handleOf socket = none := by
  simp [handleOf, h]

theorem handleOf_open (h : socket.sockfd ≠ -1) : handleOf socket = some socket.sockfd := by
  simp [handleOf, h]

theorem held_of_object (h : objects i = some object) : held objects i = handleOf object.socket := by
  simp [held, h]

theorem held_iff : held objects i = some handle ↔
    handle ≠ -1 ∧ ∃ object, objects i = some object ∧ object.socket.sockfd = handle := by
  unfold held
  cases hobject : objects i with
  | none => simp
  | some object =>
    simp only [Option.bind_some, handleOf, Option.some.injEq, exists_eq_left']
    by_cases hclosed : object.socket.sockfd = -1
    · simp only [hclosed, if_true]
      constructor
      · intro h
        cases h
      · intro ⟨hne, hsame⟩
        exact absurd hsame.symm hne
    · simp only [hclosed, if_false, Option.some.injEq]
      constructor
      · intro h
        exact ⟨h ▸ hclosed, h⟩
      · intro h
        exact h.2

/-- Each handle has exactly one owner. -/
structure OneOwner (sockets : Sockets ι) : Prop where
  opened : ∀ handle, socketLife.isOpen sockets.log handle = true ↔
    handle ≠ -1 ∧ ∃ i object, sockets.objects i = some object ∧ object.socket.sockfd = handle
  unique : ∀ i j object object', sockets.objects i = some object → sockets.objects j = some object' →
    object.socket.sockfd ≠ -1 → object.socket.sockfd = object'.socket.sockfd → i = j
  closes : ∀ later before handle, sockets.log = later ++ .close handle :: before →
    socketLife.isOpen before handle = true
  placed : ∀ i object, sockets.objects i = some object → object.socket.Placed sockets.log

/-- The same as an invariant of the objects and the log. -/
structure Sound (objects : Table ι SocketObject) (log : List SocketEvent) : Prop where
  owned : socketLife.Owned log (held objects)
  placed : ∀ i object, objects i = some object → object.socket.Placed log

theorem placed_event (h : socket.Placed log)
    (hother : socket.sockfd ≠ -1 → event.opens ≠ some socket.sockfd ∧ ∀ v, event.notes ≠ some (socket.sockfd, v)) :
    socket.Placed (event :: log) := by
  refine ⟨h.1, ?_⟩
  intro hopen
  obtain ⟨hopens, hnotes⟩ := hother hopen
  have hlast : socketLife.lastNote (event :: log) socket.sockfd = socketLife.lastNote log socket.sockfd :=
    Lifetimes.lastNote_skip hopens hnotes
  rw [hlast]
  exact h.2 hopen

theorem Sound.isOpen (h : Sound objects log) (hi : objects i = some object) (hopen : object.socket.sockfd ≠ -1) :
    socketLife.isOpen log object.socket.sockfd = true := by
  have hheld : held objects i = some object.socket.sockfd := (held_of_object hi).trans (handleOf_open hopen)
  exact (h.owned.shared.holder _).mpr ⟨i, hheld⟩

theorem sound_empty : Sound (Table.empty : Table ι SocketObject) [] := by
  refine ⟨Lifetimes.Owned.empty, ?_⟩
  intro i object hi
  cases hi

/-- An event that neither opens nor closes a handle and says nothing about one. -/
theorem Sound.quiet (h : Sound objects log) (event : SocketEvent) (hopens : event.opens = none)
    (hcloses : event.closes = none) (hnotes : event.notes = none) : Sound objects (event :: log) := by
  refine ⟨h.owned.skip hopens hcloses, ?_⟩
  intro i object hi
  exact placed_event (h.placed i object hi) fun _ => ⟨by simp [hopens], by simp [hnotes]⟩

variable [DecidableEq ι]

/-- The objects after one of them was written. -/
theorem placed_assign (hnew : socket.Placed log)
    (hold : ∀ j object, j ≠ i → objects j = some object → object.socket.Placed log) :
    ∀ j object, objects.assign i ⟨kind, socket⟩ j = some object → object.socket.Placed log := by
  intro j object hj
  by_cases hji : j = i
  · subst hji
    have hsame : some ⟨kind, socket⟩ = some object := (Table.assign_self _ _ _).symm.trans hj
    cases hsame
    exact hnew
  · exact hold j object hji ((Table.assign_ne hji).symm.trans hj)

theorem held_assign_open (h : socket.sockfd ≠ -1) :
    held (objects.assign i ⟨kind, socket⟩) = (held objects).assign i socket.sockfd := by
  funext j
  by_cases hj : j = i
  · subst hj
    simp [held, handleOf_open h]
  · simp [held, Table.assign_ne hj]

theorem held_assign_closed (h : socket.sockfd = -1) :
    held (objects.assign i ⟨kind, socket⟩) = (held objects).erase i := by
  funext j
  by_cases hj : j = i
  · subst hj
    simp [held, handleOf_closed h]
  · simp [held, Table.assign_ne hj, Table.erase_ne hj]

theorem held_erase : held (objects.erase i) = (held objects).erase i := by
  funext j
  by_cases hj : j = i
  · subst hj
    simp [held]
  · simp [held, Table.erase_ne hj]

/-- `construct`: a new object has no handle. -/
theorem Sound.construct (h : Sound objects log) (hi : objects i = none) :
    Sound (objects.assign i ⟨kind, TcpSocket.default⟩) log := by
  have hnone : held objects i = none := by simp [held, hi]
  refine ⟨?_, placed_assign ?_ fun j object _ hj => h.placed j object hj⟩
  · rw [held_assign_closed rfl, Table.erase_absent hnone]
    exact h.owned
  · exact ⟨fun _ => ⟨rfl, rfl⟩, fun hopen => absurd rfl hopen⟩

/-- A handle that was not open goes to an object without one. -/
theorem Sound.acquire (h : Sound objects log) (hi : objects i = some ⟨kind, socket⟩) (hclosed : socket.sockfd = -1)
    (hhandle : handle ≠ -1) (hfresh : socketLife.isOpen log handle = false)
    (hopens : event.opens = some handle) (hcloses : event.closes = none) (hnotes : event.notes = none) :
    Sound (objects.assign i ⟨kind, { socket with sockfd := handle }⟩) (event :: log) := by
  have hnone : held objects i = none := (held_of_object hi).trans (handleOf_closed hclosed)
  have hzero : socket.address = ⟨0⟩ ∧ socket.port = 0 := (h.placed i _ hi).1 hclosed
  refine ⟨?_, placed_assign ?_ fun j object hne hj => ?_⟩
  · rw [held_assign_open hhandle]
    exact h.owned.acquire hopens hcloses hfresh hnone
  · refine ⟨fun hno => absurd hno hhandle, fun _ => ?_⟩
    have hlast : socketLife.lastNote (event :: log) handle = none := Lifetimes.lastNote_opens hopens
    simp only [hlast, Option.getD_none, hzero.1, hzero.2]
  · refine placed_event (h.placed j object hj) fun hopen => ⟨?_, by simp [hnotes]⟩
    intro hsame
    have hlive := h.isOpen hj hopen
    rw [← Option.some.inj (hopens.symm.trans hsame), hfresh] at hlive
    cases hlive

theorem Sound.close (h : Sound objects log) (hi : objects i = some ⟨kind, socket⟩) :
    Sound (objects.assign i ⟨kind, (socket.close log).1⟩) (socket.close log).2 := by
  unfold TcpSocket.close
  by_cases hclosed : socket.sockfd = -1
  · obtain ⟨haddress, hport⟩ := (h.placed i _ hi).1 hclosed
    have hsame : (⟨socket.sockfd, ⟨0⟩, 0⟩ : TcpSocket) = socket := by
      cases socket
      cases haddress
      cases hport
      rfl
    rw [if_neg (not_not.mpr hclosed), hsame, Table.assign_present hi]
    exact h
  · rw [if_pos hclosed]
    have hheld : held objects i = some socket.sockfd := (held_of_object hi).trans (handleOf_open hclosed)
    refine ⟨?_, placed_assign ?_ fun j object _ hj => ?_⟩
    · rw [held_assign_closed rfl]
      exact h.owned.release rfl rfl hheld
    · exact ⟨fun _ => ⟨rfl, rfl⟩, fun hopen => absurd rfl hopen⟩
    · exact placed_event (h.placed j object hj) fun _ => ⟨by simp [SocketEvent.opens], by simp [SocketEvent.notes]⟩

theorem close_closed (socket : TcpSocket) (log : List SocketEvent) : (socket.close log).1.sockfd = -1 := by
  unfold TcpSocket.close
  split
  next => rfl
  next h => exact not_not.mp h

/-- A `Connect` or `Listen` has returned true. -/
theorem Sound.succeed (h : Sound objects log) (hi : objects i = some ⟨kind, socket⟩) (hopen : socket.sockfd ≠ -1)
    (address : IpAddress) (port : Int) :
    Sound (objects.assign i ⟨kind, { socket with address := address, port := port }⟩)
      (.succeeded socket.sockfd address port :: log) := by
  have hheld : held objects i = some socket.sockfd := (held_of_object hi).trans (handleOf_open hopen)
  have howned : socketLife.Owned (.succeeded socket.sockfd address port :: log) (held objects) :=
    h.owned.skip rfl rfl
  refine ⟨?_, placed_assign ?_ fun j object hne hj => ?_⟩
  · have hsame : held (objects.assign i ⟨kind, { socket with address := address, port := port }⟩) =
        (held objects).assign i socket.sockfd := held_assign_open hopen
    rw [hsame, Table.assign_present hheld]
    exact howned
  · refine ⟨fun hno => absurd hno hopen, fun _ => ?_⟩
    have hlast : socketLife.lastNote (.succeeded socket.sockfd address port :: log) socket.sockfd =
        some (address, port) := Lifetimes.lastNote_notes rfl rfl
    simp only [hlast, Option.getD_some]
  · refine placed_event (h.placed j object hj) fun hopen' => ⟨by simp [SocketEvent.opens], ?_⟩
    intro v hnotes
    have hsame : socket.sockfd = object.socket.sockfd := congrArg Prod.fst (Option.some.inj hnotes)
    have hother : held objects j = some socket.sockfd := by
      rw [hsame]
      exact (held_of_object hj).trans (handleOf_open hopen')
    exact hne (h.owned.shared.unique j i _ hother hheld)

theorem Sound.succeed_assigned (h : Sound (objects.assign i ⟨kind, socket⟩) log) (hopen : socket.sockfd ≠ -1)
    (address : IpAddress) (port : Int) :
    Sound (objects.assign i ⟨kind, { socket with address := address, port := port }⟩)
      (.succeeded socket.sockfd address port :: log) := by
  have hdone := h.succeed (Table.assign_self _ _ _) hopen address port
  rw [Table.assign_assign] at hdone
  exact hdone

/-- The new object takes the handle and the address over, and the source keeps neither. -/
theorem Sound.move (h : Sound objects log) (hi : objects i = some ⟨kind, socket⟩) (hj : objects j = none) :
    Sound ((objects.assign i ⟨kind, socket.move.2⟩).assign j ⟨kind, socket.move.1⟩) log := by
  have hnone : held objects j = none := by simp [held, hj]
  have hfresh : held (objects.assign i ⟨kind, socket.move.2⟩) = (held objects).erase i := held_assign_closed rfl
  refine ⟨?_, ?_⟩
  · by_cases hclosed : socket.sockfd = -1
    · have htarget : held ((objects.assign i ⟨kind, socket.move.2⟩).assign j ⟨kind, socket.move.1⟩) =
          (held (objects.assign i ⟨kind, socket.move.2⟩)).erase j := held_assign_closed hclosed
      have hsource : held objects i = none := (held_of_object hi).trans (handleOf_closed hclosed)
      rw [htarget, hfresh, Table.erase_absent hsource, Table.erase_absent hnone]
      exact h.owned
    · have htarget : held ((objects.assign i ⟨kind, socket.move.2⟩).assign j ⟨kind, socket.move.1⟩) =
          (held (objects.assign i ⟨kind, socket.move.2⟩)).assign j socket.sockfd := held_assign_open hclosed
      have hsource : held objects i = some socket.sockfd := (held_of_object hi).trans (handleOf_open hclosed)
      rw [htarget, hfresh]
      exact h.owned.transfer hsource hnone
  · apply placed_assign (h.placed i _ hi)
    intro k object _ hk
    have hsource : socket.move.2.Placed log := ⟨fun _ => ⟨rfl, rfl⟩, fun hopen => absurd rfl hopen⟩
    exact placed_assign hsource (fun k object _ hk => h.placed k object hk) k object hk

/-- An object without a handle can go. -/
theorem Sound.erase (h : Sound objects log) (hi : objects i = some ⟨kind, socket⟩) (hclosed : socket.sockfd = -1) :
    Sound (objects.erase i) log := by
  have hnone : held objects i = none := (held_of_object hi).trans (handleOf_closed hclosed)
  refine ⟨?_, ?_⟩
  · rw [held_erase, Table.erase_absent hnone]
    exact h.owned
  · intro j object hj
    exact h.placed j object (Table.erase_eq_some.mp hj).2

variable {kernel : Kernel} {log' : List SocketEvent} {success : Bool} {socket' : TcpSocket}

/-- The call of `socket()`, for an object without a handle. -/
theorem Sound.socketCall (h : Sound objects log) (fresh : kernel.Fresh) (hi : objects i = some ⟨kind, socket⟩)
    (hclosed : socket.sockfd = -1) :
    Sound (objects.assign i ⟨kind, { socket with sockfd := kernel.socket log }⟩)
      (.socket (kernel.socket log) :: log) := by
  by_cases hfailed : kernel.socket log = -1
  · have hsame : ({ socket with sockfd := kernel.socket log } : TcpSocket) = socket := by
      rw [hfailed, ← hclosed]
    have hquiet : (SocketEvent.socket (kernel.socket log)).opens = none := by simp [SocketEvent.opens, hfailed]
    rw [hsame, Table.assign_present hi]
    exact h.quiet _ hquiet rfl rfl
  · have hopens : (SocketEvent.socket (kernel.socket log)).opens = some (kernel.socket log) := by
      simp [SocketEvent.opens, hfailed]
    have hfree := (fresh.socket log).resolve_left hfailed
    exact h.acquire hi hclosed hfailed hfree hopens rfl rfl

theorem Sound.connect (h : Sound objects log) (fresh : kernel.Fresh) (hi : objects i = some ⟨.client, socket⟩)
    {remoteAddress : IpAddress} {port : Int}
    (hconnect : TcpClient.connect kernel socket remoteAddress port log = (success, socket', log')) :
    Sound (objects.assign i ⟨.client, socket'⟩) (report success socket'.sockfd remoteAddress port log') := by
  obtain ⟨client, before, hclose, hclosed, hsound⟩ : ∃ client before,
      (if socket.sockfd ≠ -1 then socket.close log else (socket, log)) = (client, before) ∧
      client.sockfd = -1 ∧ Sound (objects.assign i ⟨.client, client⟩) before := by
    by_cases hopen : socket.sockfd ≠ -1
    · exact ⟨_, _, if_pos hopen, close_closed socket log, h.close hi⟩
    · refine ⟨_, _, if_neg hopen, not_not.mp hopen, ?_⟩
      rw [Table.assign_present hi]
      exact h
  have hcall := hsound.socketCall fresh (Table.assign_self _ _ _) hclosed
  rw [Table.assign_assign] at hcall
  unfold TcpClient.connect at hconnect
  simp only [hclose] at hconnect
  split at hconnect
  next =>
    cases hconnect
    exact hcall
  next hopen =>
    have hcalled := fun result =>
      hcall.quiet (.connect (kernel.socket before) (sockAddr remoteAddress port) result) rfl rfl rfl
    split at hconnect
    next =>
      cases hconnect
      exact hcalled _
    next =>
      cases hconnect
      exact (hcalled _).succeed_assigned hopen remoteAddress port

theorem Sound.listen (h : Sound objects log) (fresh : kernel.Fresh) (hi : objects i = some ⟨.listener, socket⟩)
    {remoteAddress : IpAddress} {port : Int}
    (hlisten : TcpListener.listen kernel socket remoteAddress port log = (success, socket', log')) :
    Sound (objects.assign i ⟨.listener, socket'⟩) (report success socket'.sockfd remoteAddress port log') := by
  obtain ⟨listener, before, hopened, hsound⟩ : ∃ listener before,
      (if socket.sockfd = -1 then
        ({ socket with sockfd := kernel.socket log }, .socket (kernel.socket log) :: log)
      else (socket, log)) = (listener, before) ∧ Sound (objects.assign i ⟨.listener, listener⟩) before := by
    by_cases hclosed : socket.sockfd = -1
    · exact ⟨_, _, if_pos hclosed, h.socketCall fresh hi hclosed⟩
    · refine ⟨_, _, if_neg hclosed, ?_⟩
      rw [Table.assign_present hi]
      exact h
  unfold TcpListener.listen at hlisten
  simp only [hopened] at hlisten
  split at hlisten
  next =>
    cases hlisten
    exact hsound
  next hopen =>
    have hset := hsound.quiet (.setsockopt listener.sockfd) rfl rfl rfl
    have hbound := fun result =>
      hset.quiet (.bind listener.sockfd (sockAddr remoteAddress port) result) rfl rfl rfl
    split at hlisten
    next =>
      cases hlisten
      exact hbound _
    next =>
      have hlistening := fun bound result =>
        (hbound bound).quiet (.listen listener.sockfd 128 result) rfl rfl rfl
      split at hlisten
      next =>
        cases hlisten
        exact hlistening _ _
      next =>
        cases hlisten
        exact (hlistening _ _).succeed_assigned hopen remoteAddress port

/-- The temporary of `Accept` has lost its handle before it is destroyed. -/
theorem accept_cases (kernel : Kernel) (listener : TcpSocket) (log : List SocketEvent) :
    (kernel.accept log listener.sockfd = -1 ∧ ∃ error, TcpListener.accept kernel listener log =
      (.error error, .accept listener.sockfd (-1) :: log)) ∨
    (kernel.accept log listener.sockfd ≠ -1 ∧ TcpListener.accept kernel listener log =
      (.ok (TcpClient.ofHandle (kernel.accept log listener.sockfd)),
        .accept listener.sockfd (kernel.accept log listener.sockfd) :: log)) := by
  unfold TcpListener.accept
  by_cases hfailed : kernel.accept log listener.sockfd = -1
  · refine Or.inl ⟨hfailed, ?_⟩
    simp only [hfailed, if_true]
    split
    all_goals exact ⟨_, rfl⟩
  · refine Or.inr ⟨hfailed, ?_⟩
    simp only [if_neg hfailed]
    rfl

theorem Sound.accept (h : Sound objects log) (fresh : kernel.Fresh) (hj : objects j = none)
    (hhandle : kernel.accept log socket.sockfd ≠ -1) :
    Sound (objects.assign j ⟨.client, TcpClient.ofHandle (kernel.accept log socket.sockfd)⟩)
      (.accept socket.sockfd (kernel.accept log socket.sockfd) :: log) := by
  have hopens : (SocketEvent.accept socket.sockfd (kernel.accept log socket.sockfd)).opens =
      some (kernel.accept log socket.sockfd) := by simp [SocketEvent.opens, hhandle]
  have hfree := (fresh.accept log socket.sockfd).resolve_left hhandle
  have hnew : Sound (objects.assign j ⟨.client, TcpSocket.default⟩) log := h.construct hj
  have haccepted := hnew.acquire (Table.assign_self _ _ _) rfl hhandle hfree hopens rfl rfl
  rw [Table.assign_assign] at haccepted
  exact haccepted

theorem sound_step {sockets sockets' : Sockets ι} {action : Action ι} {answer : Answer} (fresh : kernel.Fresh)
    (h : Sound sockets.objects sockets.log) (hstep : Step kernel sockets action answer sockets') :
    Sound sockets'.objects sockets'.log := by
  unfold Step at hstep
  cases action with
  | construct i kind =>
    dsimp only [next] at hstep
    split at hstep
    next hi =>
      cases hstep
      exact h.construct hi
    next => cases hstep
  | connect i remoteAddress port =>
    dsimp only [next] at hstep
    split at hstep
    next socket hi =>
      cases hstep
      exact h.connect fresh hi rfl
    next => cases hstep
  | listen i remoteAddress port =>
    dsimp only [next] at hstep
    split at hstep
    next socket hi =>
      cases hstep
      exact h.listen fresh hi rfl
    next => cases hstep
  | accept i j =>
    dsimp only [next] at hstep
    split at hstep
    next socket hi hj =>
      rcases accept_cases kernel socket sockets.log with ⟨hfailed, error, hans⟩ | ⟨hhandle, hans⟩
      · rw [hans] at hstep
        cases hstep
        exact h.quiet _ rfl rfl rfl
      · rw [hans] at hstep
        cases hstep
        exact h.accept fresh hj hhandle
    next => cases hstep
  | move i j =>
    dsimp only [next] at hstep
    split at hstep
    next kind socket hi hj =>
      cases hstep
      exact h.move hi hj
    next => cases hstep
  | close i =>
    dsimp only [next] at hstep
    split at hstep
    next kind socket hi =>
      cases hstep
      exact h.close hi
    next => cases hstep
  | destroy i =>
    dsimp only [next] at hstep
    split at hstep
    next kind socket hi =>
      cases hstep
      have hclosed := (h.close hi).erase (Table.assign_self _ _ _) (close_closed socket sockets.log)
      rw [Table.erase_assign] at hclosed
      exact hclosed
    next => cases hstep

theorem sound_run {sockets : Sockets ι} {trace : List (Action ι × Answer)} (fresh : kernel.Fresh)
    (run : Run (Step kernel) empty trace sockets) : Sound sockets.objects sockets.log :=
  run.invariant (P := fun sockets => Sound sockets.objects sockets.log) sound_empty (sound_step fresh)

theorem handles_owned {sockets : Sockets ι} {trace : List (Action ι × Answer)} (fresh : kernel.Fresh)
    (run : Run (Step kernel) empty trace sockets) : OneOwner sockets := by
  have h := sound_run fresh run
  refine ⟨?_, ?_, ?_, h.placed⟩
  · intro handle
    have hholder := h.owned.shared.holder handle
    simp only [held_iff, exists_and_left] at hholder
    exact hholder
  · intro i j object object' hi hj hopen hsame
    have hheld : held sockets.objects i = some object.socket.sockfd := held_iff.mpr ⟨hopen, object, hi, rfl⟩
    have hheld' : held sockets.objects j = some object.socket.sockfd :=
      held_iff.mpr ⟨hopen, object', hj, hsame.symm⟩
    exact h.owned.shared.unique i j _ hheld hheld'
  · intro later before handle hlog
    exact h.owned.hits later _ before handle hlog rfl

/-- The lowest handle from 3 on that is not open. -/
def lowestFree (log : List SocketEvent) : Int :=
  match (List.range (log.length + 1)).find? fun n => !socketLife.isOpen log (n + 3 : Int) with
  | some n => n + 3
  | none => -1

theorem lowestFree_fresh (log : List SocketEvent) :
    lowestFree log = -1 ∨ socketLife.isOpen log (lowestFree log) = false := by
  unfold lowestFree
  split
  next n hfind =>
    have hfree := List.find?_some hfind
    exact Or.inr (by simpa using hfree)
  next => exact Or.inl rfl

/-- Has the handle been bound since it was opened? -/
def isBound (sockfd : Int) : List SocketEvent → Bool
  | [] => false
  | .bind fd _ 0 :: earlier => if fd = sockfd then true else isBound sockfd earlier
  | event :: earlier => if event.opens = some sockfd then false else isBound sockfd earlier

def localKernel : Kernel where
  socket := lowestFree
  connect _ _ _ := 0
  bind log sockfd _ := if isBound sockfd log then -1 else 0
  listen _ _ _ := 0
  accept log sockfd := if isBound sockfd log then lowestFree log else -1
  errno _ := .inval

theorem localKernel_fresh : localKernel.Fresh := by
  refine ⟨lowestFree_fresh, ?_⟩
  intro log sockfd
  unfold localKernel
  dsimp only
  split
  next => exact lowestFree_fresh log
  next => exact Or.inl rfl

def localHost : IpAddress := ⟨0x7F000001⟩

/-- A second `Listen` on the bound handle fails, the accepted client moves, and its first name is destroyed
while the connection stays open. -/
def localRun : List (Action Nat) :=
  [.construct 0 .listener, .listen 0 localHost 5000, .construct 1 .client, .connect 1 localHost 5000,
    .accept 0 2, .move 2 3, .destroy 2, .listen 0 localHost 6000, .connect 1 localHost 5000, .close 0]

/-- The client has been connected twice, each time on the same number. -/
def reconnected (_ : List (Action Nat × Answer)) (sockets : Sockets Nat) : Bool :=
  sockets.objects 1 == some ⟨.client, ⟨4, localHost, 5000⟩⟩

theorem handles_owned_localRun : ∃ trace sockets, Run (Step localKernel) (empty : Sockets Nat) trace sockets ∧
    reconnected trace sockets = true ∧ OneOwner sockets := by
  have hrun : (Run.execute (next localKernel) (empty : Sockets Nat) localRun).any
      (fun reached => reconnected reached.1 reached.2) = true := by decide +kernel
  obtain ⟨trace, sockets, run, hgood⟩ := Run.exists_of_execute localRun reconnected (fun h => h) hrun
  exact ⟨trace, sockets, run, hgood, handles_owned localKernel_fresh run⟩

end Sockets

end SecureMessaging
