import SecureMessaging.Lib.Containers
import SecureMessaging.Lib.Ownership
import SecureMessaging.Lib.Runs

namespace SecureMessaging

structure IpAddress where
  value : UInt32
  deriving DecidableEq, Repr

def IpAddress.toInteger (address : IpAddress) : UInt32 := address.value

/-- `sockaddr_in` of the family `AF_INET`, in host byte order. -/
structure SockAddr where
  port : UInt16
  address : UInt32
  deriving DecidableEq, Repr

/-- `htons` takes the port to its low 16 bits. -/
def sockAddr (address : IpAddress) (port : Int) : SockAddr :=
  ⟨UInt16.ofInt port, address.toInteger⟩

/-- What a system call did, or that a `Connect` or `Listen` has returned true on a handle. -/
inductive SocketEvent
  | socket (result : Int)
  | setsockopt (sockfd : Int)
  | connect (sockfd : Int) (addr : SockAddr) (result : Int)
  | bind (sockfd : Int) (addr : SockAddr) (result : Int)
  | listen (sockfd backlog result : Int)
  | accept (sockfd result : Int)
  | close (sockfd : Int)
  | succeeded (sockfd : Int) (address : IpAddress) (port : Int)
  deriving DecidableEq, Repr

namespace SocketEvent

/-- `socket` and `accept` open the handle that they return. -/
def opens : SocketEvent → Option Int
  | socket result | accept _ result => if result = -1 then none else some result
  | _ => none

def closes : SocketEvent → Option Int
  | close sockfd => some sockfd
  | _ => none

def notes : SocketEvent → Option (Int × IpAddress × Int)
  | succeeded sockfd address port => some (sockfd, address, port)
  | _ => none

end SocketEvent

def socketLife : Lifetimes SocketEvent Int (IpAddress × Int) :=
  ⟨SocketEvent.opens, SocketEvent.closes, SocketEvent.notes⟩

/-- The values of `errno` that `Accept` tells apart. -/
inductive Errno
  | again
  | wouldBlock
  | notSock
  | inval
  | other
  deriving DecidableEq, Repr

/-- The system calls, which answer after what has happened so far (newest first). -/
structure Kernel where
  socket : List SocketEvent → Int
  connect : List SocketEvent → Int → SockAddr → Int
  bind : List SocketEvent → Int → SockAddr → Int
  listen : List SocketEvent → Int → Int → Int
  accept : List SocketEvent → Int → Int
  errno : List SocketEvent → Errno

/-- A new handle is one that is not open. -/
structure Kernel.Fresh (kernel : Kernel) : Prop where
  socket : ∀ log, kernel.socket log = -1 ∨ socketLife.isOpen log (kernel.socket log) = false
  accept : ∀ log sockfd, kernel.accept log sockfd = -1 ∨
    socketLife.isOpen log (kernel.accept log sockfd) = false

structure TcpSocket where
  sockfd : Int
  address : IpAddress
  port : Int
  deriving DecidableEq, Repr

namespace TcpSocket

inductive Error
  | notReady
  | disconnected
  | unexpected
  deriving DecidableEq, Repr

/-- The default constructor. -/
def default : TcpSocket := ⟨-1, ⟨0⟩, 0⟩

/-- The move constructor: the new socket and what is left of the source. -/
def move (socket : TcpSocket) : TcpSocket × TcpSocket :=
  (⟨socket.sockfd, socket.address, socket.port⟩, ⟨-1, ⟨0⟩, 0⟩)

/-- `Close`, which is also what the destructor does. -/
def close (socket : TcpSocket) (log : List SocketEvent) : TcpSocket × List SocketEvent :=
  if socket.sockfd ≠ -1 then (⟨-1, ⟨0⟩, 0⟩, .close socket.sockfd :: log)
  else (⟨socket.sockfd, ⟨0⟩, 0⟩, log)

end TcpSocket

namespace TcpClient

/-- The constructor from a handle. -/
def ofHandle (handle : Int) : TcpSocket := { TcpSocket.default with sockfd := handle }

def connect (kernel : Kernel) (client : TcpSocket) (remoteAddress : IpAddress) (port : Int)
    (log : List SocketEvent) : Bool × TcpSocket × List SocketEvent :=
  let (client, log) := if client.sockfd ≠ -1 then client.close log else (client, log)
  let sockfd := kernel.socket log
  let client := { client with sockfd := sockfd }
  let log := .socket sockfd :: log
  if client.sockfd = -1 then (false, client, log)
  else
    let addr := sockAddr remoteAddress port
    let result := kernel.connect log client.sockfd addr
    let log := .connect client.sockfd addr result :: log
    if result = -1 then (false, client, log)
    else (true, { client with address := remoteAddress, port := port }, log)

end TcpClient

namespace TcpListener

def listen (kernel : Kernel) (listener : TcpSocket) (remoteAddress : IpAddress) (port : Int)
    (log : List SocketEvent) : Bool × TcpSocket × List SocketEvent :=
  let (listener, log) :=
    if listener.sockfd = -1 then
      let sockfd := kernel.socket log
      ({ listener with sockfd := sockfd }, .socket sockfd :: log)
    else (listener, log)
  if listener.sockfd = -1 then (false, listener, log)
  else
    let log := .setsockopt listener.sockfd :: log
    let addr := sockAddr remoteAddress port
    let result := kernel.bind log listener.sockfd addr
    let log := .bind listener.sockfd addr result :: log
    if result = -1 then (false, listener, log)
    else
      let result := kernel.listen log listener.sockfd 128
      let log := .listen listener.sockfd 128 result :: log
      if result = -1 then (false, listener, log)
      else (true, { listener with address := remoteAddress, port := port }, log)

/-- The local `TcpClient` is moved into the result and then destroyed. -/
def accept (kernel : Kernel) (listener : TcpSocket) (log : List SocketEvent) :
    Except TcpSocket.Error TcpSocket × List SocketEvent :=
  let handle := kernel.accept log listener.sockfd
  let log := .accept listener.sockfd handle :: log
  if handle = -1 then
    match kernel.errno log with
    | .again | .wouldBlock => (.error .notReady, log)
    | .notSock | .inval => (.error .disconnected, log)
    | .other => (.error .unexpected, log)
  else
    let socket := TcpClient.ofHandle handle
    let (result, socket) := socket.move
    let (_, log) := socket.close log
    (.ok result, log)

end TcpListener

inductive SocketKind
  | client
  | listener
  deriving DecidableEq, Repr

/-- `TcpClient` and `TcpListener` have no members besides those of `TcpSocket`. -/
structure SocketObject where
  kind : SocketKind
  socket : TcpSocket
  deriving DecidableEq, Repr

/-- The live objects by their names `ι`, and what has happened so far. -/
structure Sockets (ι : Type) where
  objects : Table ι SocketObject
  log : List SocketEvent

namespace Sockets

variable {ι : Type}

def empty : Sockets ι := ⟨Table.empty, []⟩

inductive Action (ι : Type)
  | construct (object : ι) (kind : SocketKind)
  | connect (client : ι) (remoteAddress : IpAddress) (port : Int)
  | listen (listener : ι) (remoteAddress : IpAddress) (port : Int)
  | accept (listener result : ι)
  | move (source target : ι)
  | close (object : ι)
  | destroy (object : ι)

/-- What the caller of an action gets. -/
inductive Answer
  | done
  | returned (success : Bool)
  | failed (error : TcpSocket.Error)
  deriving DecidableEq, Repr

/-- A `Connect` or `Listen` that has returned true goes into the log. -/
def report (success : Bool) (sockfd : Int) (remoteAddress : IpAddress) (port : Int) (log : List SocketEvent) :
    List SocketEvent :=
  if success then .succeeded sockfd remoteAddress port :: log else log

variable [DecidableEq ι]

/-- Only a live object can be used, and a new object gets a name that no live object has. -/
def next (kernel : Kernel) (sockets : Sockets ι) : Action ι → Option (Answer × Sockets ι)
  | .construct i kind =>
    match sockets.objects i with
    | none => some (.done, { sockets with objects := sockets.objects.assign i ⟨kind, TcpSocket.default⟩ })
    | some _ => none
  | .connect i remoteAddress port =>
    match sockets.objects i with
    | some ⟨.client, socket⟩ =>
      let (success, socket, log) := TcpClient.connect kernel socket remoteAddress port sockets.log
      some (.returned success, ⟨sockets.objects.assign i ⟨.client, socket⟩,
        report success socket.sockfd remoteAddress port log⟩)
    | _ => none
  | .listen i remoteAddress port =>
    match sockets.objects i with
    | some ⟨.listener, socket⟩ =>
      let (success, socket, log) := TcpListener.listen kernel socket remoteAddress port sockets.log
      some (.returned success, ⟨sockets.objects.assign i ⟨.listener, socket⟩,
        report success socket.sockfd remoteAddress port log⟩)
    | _ => none
  | .accept i j =>
    match sockets.objects i, sockets.objects j with
    | some ⟨.listener, socket⟩, none =>
      match TcpListener.accept kernel socket sockets.log with
      | (.ok result, log) => some (.done, ⟨sockets.objects.assign j ⟨.client, result⟩, log⟩)
      | (.error error, log) => some (.failed error, { sockets with log := log })
    | _, _ => none
  | .move i j =>
    match sockets.objects i, sockets.objects j with
    | some ⟨kind, socket⟩, none =>
      let (target, source) := socket.move
      some (.done, { sockets with objects := (sockets.objects.assign i ⟨kind, source⟩).assign j ⟨kind, target⟩ })
    | _, _ => none
  | .close i =>
    match sockets.objects i with
    | some ⟨kind, socket⟩ =>
      let (socket, log) := socket.close sockets.log
      some (.done, ⟨sockets.objects.assign i ⟨kind, socket⟩, log⟩)
    | none => none
  | .destroy i =>
    match sockets.objects i with
    | some ⟨_, socket⟩ => some (.done, ⟨sockets.objects.erase i, (socket.close sockets.log).2⟩)
    | none => none

def Step (kernel : Kernel) (sockets : Sockets ι) (action : Action ι) (answer : Answer) (sockets' : Sockets ι) :
    Prop :=
  next kernel sockets action = some (answer, sockets')

end Sockets

end SecureMessaging
