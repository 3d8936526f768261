import SecureMessaging.ChatService
import SecureMessaging.Lib.Simulation
import SecureMessaging.Registration
import SecureMessaging.SessionProperties

namespace SecureMessaging

namespace Server

variable {χ : Type} {sha256 : List UInt8 → Digest} {server next : Server χ} {fd : Int}
  {trace : List (Event χ × Output χ)}

open ChatService (Demand Outcome Refusal)

def policy (sha256 : List UInt8 → Digest) : Policy ByteString ByteString ByteString where
  admits u p := AccountRegistry.ValidUsername u ∧ AccountRegistry.ValidPassword p
  digest := AccountRegistry.hashPassword sha256

/-- The connections are the descriptors in the epoll set; the name map is not part of the service. -/
def connection (server : Server χ) (fd : Int) : Option (Connection χ ByteString) :=
  if server.registered fd then (server.sessions.sessions fd).map fun session => ⟨session.channel, session.user⟩
  else none

def service (server : Server χ) : ChatService Int χ ByteString ByteString :=
  ⟨server.accounts.accounts, server.connection⟩

def demandOf : Request → Demand ByteString ByteString ByteString
  | .ping _ => .ping
  | .register m => .register m.username m.password
  | .login m => .login m.username m.password
  | .sendChat m => .chat m.recipient m.content

def demandIn (buffer : MessageBuffer) : Demand ByteString ByteString ByteString :=
  ((requestIn buffer).map demandOf).getD .unreadable

def refusalOf (text : ByteString) : Refusal :=
  if text = FailureText.incorrect then .incorrect
  else if text = FailureText.alreadyLoggedIn then .occupied
  else if text = FailureText.unauthenticated then .stranger
  else if text = FailureText.noRecipient then .absent
  else .unsent

def refusalTo (demand : Demand ByteString ByteString ByteString) (text : ByteString) : Refusal :=
  match demand with
  | .register _ _ => .invalid
  | .unreadable => .unreadable
  | _ => refusalOf text

def outcomeOf (demand : Demand ByteString ByteString ByteString) :
    Response → Option (Delivery χ) → Outcome χ ByteString ByteString
  | .failure m, _ => .refused (refusalTo demand m.what)
  | .success _, some ⟨channel, ⟨.receiveChat, chat⟩, _, _⟩ => .delivered channel chat.sender chat.content
  | _, _ => .done

/-- What a turn of the event loop is to the service. -/
def observe : Event χ × Output χ →
    Option (ChatService.Event Int χ ByteString ByteString ByteString × Outcome χ ByteString ByteString)
  | (.accept fd (some channel), _) => if fd = -1 then none else some (.connect fd channel, .silent)
  | (.accept _ none, _) => none
  | (.ready fd none _ _, _) => some (.disconnect fd, .silent)
  | (.ready fd (some buffer) _ _, out) =>
    out.response.map fun response => (.ask fd (demandIn buffer), outcomeOf (demandIn buffer) response out.forwarded)

end Server

end SecureMessaging
