import SecureMessaging.Messages

namespace SecureMessaging

variable {size : UInt64}

inductive MessageType
  | ping | login | register | logout | deleteAccount | changePassword | activeUsers
  | sendChat | receiveChat | success | failure | stringList
  deriving DecidableEq

@[reducible] def MessageType.Object : MessageType → Type
  | .ping => Ping
  | .login => Login
  | .register => Register
  | .logout => Logout
  | .deleteAccount => DeleteAccount
  | .changePassword => ChangePassword
  | .activeUsers => ActiveUsers
  | .sendChat => SendChat
  | .receiveChat => ReceiveChat
  | .success => Success
  | .failure => Failure
  | .stringList => StringList

def MessageType.typeId : MessageType → UInt8
  | .ping => Ping.typeId
  | .login => Login.typeId
  | .register => Register.typeId
  | .logout => Logout.typeId
  | .deleteAccount => DeleteAccount.typeId
  | .changePassword => ChangePassword.typeId
  | .activeUsers => ActiveUsers.typeId
  | .sendChat => SendChat.typeId
  | .receiveChat => ReceiveChat.typeId
  | .success => Success.typeId
  | .failure => Failure.typeId
  | .stringList => StringList.typeId

def MessageType.serialize : (type : MessageType) → type.Object → ByteVector size → Bool × ByteVector size
  | .ping, m => Ping.serialize m
  | .login, m => Login.serialize m
  | .register, m => Register.serialize m
  | .logout, m => Logout.serialize m
  | .deleteAccount, m => DeleteAccount.serialize m
  | .changePassword, m => ChangePassword.serialize m
  | .activeUsers, m => ActiveUsers.serialize m
  | .sendChat, m => SendChat.serialize m
  | .receiveChat, m => ReceiveChat.serialize m
  | .success, m => Success.serialize m
  | .failure, m => Failure.serialize m
  | .stringList, m => StringList.serialize m

def MessageType.deserialize : (type : MessageType) → type.Object → ByteVector size → Decoded type.Object
  | .ping, m => Ping.deserialize m
  | .login, m => Login.deserialize m
  | .register, m => Register.deserialize m
  | .logout, m => Logout.deserialize m
  | .deleteAccount, m => DeleteAccount.deserialize m
  | .changePassword, m => ChangePassword.deserialize m
  | .activeUsers, m => ActiveUsers.deserialize m
  | .sendChat, m => SendChat.deserialize m
  | .receiveChat, m => ReceiveChat.deserialize m
  | .success, m => Success.deserialize m
  | .failure, m => Failure.deserialize m
  | .stringList, m => StringList.deserialize m

/-- The values a type's `Serialize` writes, in order. -/
def MessageType.writes : (type : MessageType) → type.Object → List (List UInt8)
  | .ping, _ => messageWrites Ping.typeId []
  | .login, m => messageWrites Login.typeId [m.username, m.password]
  | .register, m => messageWrites Register.typeId [m.username, m.password]
  | .logout, _ => messageWrites Logout.typeId []
  | .deleteAccount, _ => messageWrites DeleteAccount.typeId []
  | .changePassword, m => messageWrites ChangePassword.typeId [m.newPassword]
  | .activeUsers, _ => messageWrites ActiveUsers.typeId []
  | .sendChat, m => messageWrites SendChat.typeId [m.recipient, m.content]
  | .receiveChat, m => messageWrites ReceiveChat.typeId [m.sender, m.content]
  | .success, _ => messageWrites Success.typeId []
  | .failure, m => messageWrites Failure.typeId [m.what]
  | .stringList, m => StringList.writes m

def MessageType.encode (type : MessageType) (m : type.Object) : List UInt8 := (type.writes m).flatten

/-- An object behind a `Message&`. -/
structure Message where
  type : MessageType
  object : type.Object

def Message.serialize (m : Message) (bytes : ByteVector size) : Bool × ByteVector size :=
  m.type.serialize m.object bytes

def Message.encode (m : Message) : List UInt8 := m.type.encode m.object

theorem fieldWrites_bound {fields : List ByteString} :
    ∀ value ∈ fieldWrites fields, value.length < 2 ^ 64 := by
  induction fields with
  | nil => simp [fieldWrites]
  | cons field fields ih =>
    intro value hm
    simp only [fieldWrites, List.mem_cons] at hm
    rcases hm with rfl | rfl | hm
    · simp
    · exact field.length_lt
    · exact ih value hm

theorem messageWrites_bound {typeId : UInt8} {fields : List ByteString} :
    ∀ value ∈ messageWrites typeId fields, value.length < 2 ^ 64 := by
  intro value hm
  rcases List.mem_cons.mp hm with rfl | hm
  · simp
  · exact fieldWrites_bound value hm

theorem MessageType.writes_bound (type : MessageType) (m : type.Object) :
    ∀ value ∈ type.writes m, value.length < 2 ^ 64 := by
  cases type
  case stringList =>
    intro value hm
    simp only [writes, StringList.writes, List.mem_cons] at hm
    rcases hm with rfl | rfl | hm
    · simp
    · simp
    · exact fieldWrites_bound value hm
  all_goals exact messageWrites_bound

theorem MessageType.serialize_eq (type : MessageType) (m : type.Object) (bytes : ByteVector size) :
    type.serialize m bytes = serializeWrites (type.writes m) bytes := by
  cases type <;> rfl

theorem serialize_success {type : MessageType} {m : type.Object} {bytes : ByteVector size} :
    (type.serialize m bytes).1 = true ↔ (type.encode m).length ≤ size.toNat := by
  have hspec := (ByteWriter.new bytes).writeAll_spec (type.writes_bound m)
    (show (0 : UInt64).toNat + size.toNat = size.toNat by simp)
  rw [type.serialize_eq]
  exact hspec.1

/-- Whatever fits is copied over the front of the vector. -/
theorem serialize_bytes (type : MessageType) (m : type.Object) (bytes : ByteVector size) :
    (type.serialize m bytes).2.bytes =
      bytes.bytes.overwrite 0 (fitting size.toNat (type.writes m)).flatten := by
  have hspec := (ByteWriter.new bytes).writeAll_spec (type.writes_bound m)
    (show (0 : UInt64).toNat + size.toNat = size.toNat by simp)
  rw [type.serialize_eq]
  exact hspec.2

theorem serialize_bytes_of_fits {type : MessageType} {m : type.Object} {bytes : ByteVector size}
    (h : (type.encode m).length ≤ size.toNat) :
    (type.serialize m bytes).2.bytes = type.encode m ++ bytes.bytes.drop (type.encode m).length := by
  have hroom : 0 + (type.encode m).length ≤ bytes.bytes.length := by
    rw [bytes.length_eq]; omega
  have hfit : (fitting size.toNat (type.writes m)).flatten = type.encode m := by
    rw [fitting_all h, MessageType.encode]
  rw [serialize_bytes, hfit, List.overwrite_eq_take_drop hroom]
  simp

/-- The length field in front of the unread bytes. -/
def nextLength (reader : ByteReader size) : UInt64 := hostWord (reader.unread.take 8)

/-- What reading one field can do. -/
theorem readField_cases (field : ByteString) (reader : ByteReader size) :
    (reader.unread.length < 8 ∧ readField field reader = ⟨.ok none, field, []⟩) ∨
    (8 ≤ reader.unread.length ∧
      (readField field reader).resizes = [⟨(nextLength reader).toNat, reader.unread.length - 8⟩] ∧
      ((stringMaxSize < (nextLength reader).toNat ∧
          (readField field reader).result = .error .lengthError) ∨
        ((nextLength reader).toNat ≤ stringMaxSize ∧
          reader.unread.length - 8 < (nextLength reader).toNat ∧ (readField field reader).result = .ok none) ∨
        ((nextLength reader).toNat ≤ stringMaxSize ∧ (nextLength reader).toNat ≤ reader.unread.length - 8 ∧
          ∃ next : ByteReader size, (readField field reader).result = .ok (some next) ∧
            (readField field reader).object.data =
              (reader.unread.drop 8).take (nextLength reader).toNat ∧
            next.unread = reader.unread.drop (8 + (nextLength reader).toNat)))) := by
  rcases reader.read_cases 8 with ⟨hshort, hread⟩ | ⟨behind, hlen, hread, hbehind⟩
  · exact Or.inl ⟨by simpa using hshort, by simp [readField, hread]⟩
  · have h8 : (8 : UInt64).toNat = 8 := rfl
    rw [h8] at hlen hread hbehind
    have hblen : behind.unread.length = reader.unread.length - 8 := by rw [hbehind, List.length_drop]
    have hcount : hostWord (reader.unread.take 8) = nextLength reader := rfl
    refine Or.inr ⟨hlen, ?_⟩
    cases hresize : field.resize (nextLength reader) with
    | error e =>
      unfold ByteString.resize at hresize
      split at hresize
      next => cases hresize
      next hbig =>
        cases hresize
        have hone : readField field reader =
            ⟨.error .lengthError, field, [⟨(nextLength reader).toNat, behind.unread.length⟩]⟩ := by
          simp only [readField, hread, hcount, ByteString.resize, dif_neg hbig]
        rw [hone, hblen]
        exact ⟨rfl, Or.inl ⟨by omega, rfl⟩⟩
    | ok resized =>
      have hmax : (nextLength reader).toNat ≤ stringMaxSize := by
        unfold ByteString.resize at hresize
        split at hresize
        next hle => exact hle
        next => cases hresize
      rcases behind.read_cases (nextLength reader) with ⟨hshort, hdata⟩ | ⟨next, hfit, hdata, hnext⟩
      · have hone : readField field reader =
            ⟨.ok none, resized, [⟨(nextLength reader).toNat, behind.unread.length⟩]⟩ := by
          simp only [readField, hread, hcount, hresize, hdata]
        rw [hone, hblen]
        exact ⟨rfl, Or.inr (Or.inl ⟨hmax, by omega, rfl⟩)⟩
      · have hone : readField field reader =
            ⟨.ok (some next), resized.fill (behind.unread.take (nextLength reader).toNat),
              [⟨(nextLength reader).toNat, behind.unread.length⟩]⟩ := by
          simp only [readField, hread, hcount, hresize, hdata]
        have hfill : (resized.fill (behind.unread.take (nextLength reader).toNat)).data =
            behind.unread.take (nextLength reader).toNat := by
          apply ByteString.fill_data
          rw [ByteString.resize_length hresize, List.length_take]
          omega
        rw [hone, hblen]
        refine ⟨rfl, Or.inr (Or.inr ⟨hmax, by omega, next, rfl, ?_, ?_⟩)⟩
        · rw [hfill, hbehind]
        · rw [hnext, hbehind, List.drop_drop]

end SecureMessaging
