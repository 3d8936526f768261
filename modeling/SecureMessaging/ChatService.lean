import SecureMessaging.Lib.Containers
import SecureMessaging.Lib.Runs

namespace SecureMessaging

/-- The rules for new accounts, and what is kept of a password. -/
structure Policy (υ π ρ : Type*) where
  admits : υ → π → Prop
  digest : π → ρ

/-- Where the messages of a connection go, and who is logged in on it. -/
structure Connection (χ υ : Type*) where
  channel : χ
  user : Option υ

/-- What the server is there for: users with accounts log in on connections and send each other chats. -/
structure ChatService (κ χ υ ρ : Type*) where
  accounts : Table υ ρ
  connections : Table κ (Connection χ υ)

namespace ChatService

inductive Demand (υ π μ : Type*)
  | ping
  | register (user : υ) (password : π)
  | login (user : υ) (password : π)
  | chat (recipient : υ) (text : μ)
  | unreadable

inductive Event (κ χ υ π μ : Type*)
  | connect (k : κ) (channel : χ)
  | disconnect (k : κ)
  | ask (k : κ) (demand : Demand υ π μ)

inductive Refusal
  | invalid
  | incorrect
  | occupied
  | stranger
  | absent
  | unsent
  | unreadable
  deriving DecidableEq

inductive Outcome (χ υ μ : Type*)
  | silent
  | done
  | delivered (channel : χ) (sender : υ) (text : μ)
  | refused (why : Refusal)

variable {κ χ υ π ρ μ : Type*}

def empty : ChatService κ χ υ ρ := ⟨Table.empty, Table.empty⟩

/-- Somebody is logged in under the name. -/
def Online (service : ChatService κ χ υ ρ) (u : υ) : Prop :=
  ∃ k connection, service.connections k = some connection ∧ connection.user = some u

variable [DecidableEq κ] [DecidableEq υ]

/-- The steps of the service. A chat can always get lost on the way to its recipient. -/
inductive Step (policy : Policy υ π ρ) (service : ChatService κ χ υ ρ) :
    Event κ χ υ π μ → Outcome χ υ μ → ChatService κ χ υ ρ → Prop
  | connected {k channel} (fresh : service.connections k = none) :
      Step policy service (.connect k channel) .silent
        { service with connections := service.connections.assign k ⟨channel, none⟩ }
  | disconnected {k} :
      Step policy service (.disconnect k) .silent { service with connections := service.connections.erase k }
  | pinged {k} : Step policy service (.ask k .ping) .done service
  | registered {k u p} (free : service.accounts u = none) (admitted : policy.admits u p) :
      Step policy service (.ask k (.register u p)) .done
        { service with accounts := service.accounts.assign u (policy.digest p) }
  | invalid {k u p} (why : service.accounts u ≠ none ∨ ¬policy.admits u p) :
      Step policy service (.ask k (.register u p)) (.refused .invalid) service
  | loggedIn {k connection u p} (present : service.connections k = some connection)
      (anonymous : connection.user = none) (stored : service.accounts u = some (policy.digest p))
      (free : ¬service.Online u) :
      Step policy service (.ask k (.login u p)) .done
        { service with connections := service.connections.assign k ⟨connection.channel, some u⟩ }
  | occupied {k u p} (stored : service.accounts u = some (policy.digest p)) (online : service.Online u) :
      Step policy service (.ask k (.login u p)) (.refused .occupied) service
  | incorrect {k u p} (why : service.accounts u ≠ some (policy.digest p)) :
      Step policy service (.ask k (.login u p)) (.refused .incorrect) service
  | delivered {k k' connection connection' u v text} (present : service.connections k = some connection)
      (sender : connection.user = some u) (target : service.connections k' = some connection')
      (recipient : connection'.user = some v) :
      Step policy service (.ask k (.chat v text)) (.delivered connection'.channel u text) service
  | unsent {k connection u v text} (present : service.connections k = some connection)
      (sender : connection.user = some u) (online : service.Online v) :
      Step policy service (.ask k (.chat v text)) (.refused .unsent) service
  | absent {k connection u v text} (present : service.connections k = some connection)
      (sender : connection.user = some u) (offline : ¬service.Online v) :
      Step policy service (.ask k (.chat v text)) (.refused .absent) service
  | stranger {k connection v text} (present : service.connections k = some connection)
      (anonymous : connection.user = none) :
      Step policy service (.ask k (.chat v text)) (.refused .stranger) service
  | unreadable {k} : Step policy service (.ask k .unreadable) (.refused .unreadable) service

variable {policy : Policy υ π ρ} {service next : ChatService κ χ υ ρ} {event : Event κ χ υ π μ}
  {out : Outcome χ υ μ} {trace : List (Event κ χ υ π μ × Outcome χ υ μ)}

theorem accounts_kept {u : υ} {stored : ρ} (h : Step policy service event out next)
    (hu : service.accounts u = some stored) : next.accounts u = some stored := by
  cases h with
  | @registered k v p free =>
    have huv : u ≠ v := by
      rintro rfl
      rw [hu] at free
      cases free
    exact (Table.assign_ne huv).trans hu
  | _ => exact hu

end ChatService

end SecureMessaging
