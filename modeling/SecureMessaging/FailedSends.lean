import SecureMessaging.Inbox

namespace SecureMessaging

/-- `SendRequest` goes on to `GetResponse`. -/
def Client.Waits (client : Client) (request : Message) (result : Int) : Prop :=
  ∃ vector after, client.sendRequest request result = (.ok vector, after)

/-- `SendResponse` reports the message as sent. -/
def Server.CountsAsSent {χ : Type} (server : Server χ) (channel : χ) (message : Message) (result : Int) : Prop :=
  (server.sendResponse channel message result).1 = true

theorem Client.waits_iff {client : Client} {request : Message} (result : Int)
    (h : request.encode.length ≤ messageBufferSize.toNat) : client.Waits request result ↔ result ≠ 0 := by
  rcases client.sendRequest_cases request result with ⟨_, hresult, hsend⟩ | ⟨hno, error, hsend⟩
  · exact iff_of_true ⟨_, _, hsend⟩ hresult
  · refine iff_of_false ?_ fun hresult => hno ⟨h, hresult⟩
    rintro ⟨vector, after, hwaits⟩
    have hboth := (Prod.mk.inj (hsend.symm.trans hwaits)).1
    cases hboth

theorem Server.countsAsSent_iff {χ : Type} {server : Server χ} {channel : χ} {message : Message} (result : Int)
    (h : message.encode.length ≤ messageBufferSize.toNat) :
    server.CountsAsSent channel message result ↔ result ≠ -1 := by
  have hserialized : (message.serialize server.messageBuffer).1 = true := serialize_success.mpr h
  unfold CountsAsSent sendResponse
  dsimp only
  rw [if_pos hserialized]
  exact bne_iff_ne

/-- The two sides read what `Send` returned in the same way, and a failed request is over. -/
structure SendsAgree {χ : Type} (conversation : Conversation) (server : Server χ) (channel : χ) (request : Message)
    (result : Int) : Prop where
  waits : conversation.client.Waits request result ↔ server.CountsAsSent channel request result
  failed : result = -1 → ∃ after, conversation.converse (.sendRequest request result) =
    .ok (.returned (.error .send), { conversation with client := after }) ∧
      after.inbox = conversation.client.inbox

variable {χ : Type} {conversation : Conversation} {request : Message}

/-- `Client::SendRequest` tests the result against 0 and `Server::SendResponse` against -1. -/
theorem sends_agree_iff (server : Server χ) (channel : χ) (result : Int)
    (h : (request.serialize conversation.client.messageBuffer).1 = true) :
    SendsAgree conversation server channel request result ↔ result ≠ 0 ∧ result ≠ -1 := by
  have hfits : request.encode.length ≤ messageBufferSize.toNat := serialize_success.mp h
  have hclient : conversation.client.Waits request result ↔ result ≠ 0 := Client.waits_iff result hfits
  have hserver : server.CountsAsSent channel request result ↔ result ≠ -1 := Server.countsAsSent_iff result hfits
  constructor
  · intro hagree
    have hsame : result ≠ 0 ↔ result ≠ -1 := by rw [← hclient, ← hserver, hagree.waits]
    omega
  · intro hresult
    refine ⟨?_, fun hfailed => absurd hfailed hresult.2⟩
    rw [hclient, hserver]
    exact iff_of_true hresult.1 hresult.2

theorem ping_serializes :
    ((Request.ping ⟨⟩).message.serialize (ByteVector.zero messageBufferSize)).1 = true :=
  serialize_success.mpr (by decide +kernel)

theorem sends_agree_ping :
    SendsAgree ⟨Client.init, [], false⟩ (Server.init : Server Nat) 0 (Request.ping ⟨⟩).message 1 :=
  (sends_agree_iff Server.init 0 1 ping_serializes).mpr (by decide)

/-- The server is gone when a Ping is sent; the client does not notice. -/
theorem failed_send_missed : ¬∀ (conversation : Conversation) (server : Server Nat) (channel : Nat)
    (request : Message) (result : Int), (request.serialize conversation.client.messageBuffer).1 = true →
    SendsAgree conversation server channel request result := by
  intro h
  have hagree := h ⟨Client.init, [], false⟩ Server.init 0 (Request.ping ⟨⟩).message (-1) ping_serializes
  have hfits : (Request.ping ⟨⟩).message.encode.length ≤ messageBufferSize.toNat := serialize_success.mp ping_serializes
  have hwaits : Client.init.Waits (Request.ping ⟨⟩).message (-1) := (Client.waits_iff (-1) hfits).mpr (by decide)
  exact (Server.countsAsSent_iff (-1) hfits).mp (hagree.waits.mp hwaits) rfl

end SecureMessaging
