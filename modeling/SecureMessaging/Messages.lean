import SecureMessaging.Serialization

namespace SecureMessaging

variable {size : UInt64}

/-- A call of `resize`: the length asked for and the bytes of the buffer not read by then. -/
structure Resize where
  requested : Nat
  unread : Nat
  deriving DecidableEq

/-- What a `Deserialize` does: its result, the object it leaves and its `resize` calls. -/
structure Decoded (α : Type) where
  result : Fallible Bool
  object : α
  resizes : List Resize

def Decoded.map {α β : Type} (f : α → β) (d : Decoded α) : Decoded β := ⟨d.result, f d.object, d.resizes⟩

/-- `ok none` when a read fails, else the reader behind the field. -/
structure FieldRead (size : UInt64) where
  result : Fallible (Option (ByteReader size))
  object : ByteString
  resizes : List Resize

/-- `Read(&size, 8) && (field.resize(size), Read(field.data(), size))`. -/
def readField (field : ByteString) (reader : ByteReader size) : FieldRead size :=
  match reader.read 8 with
  | none => ⟨.ok none, field, []⟩
  | some (word, behind) =>
    let count := hostWord word
    let asked : List Resize := [⟨count.toNat, behind.unread.length⟩]
    match field.resize count with
    | .error e => ⟨.error e, field, asked⟩
    | .ok resized =>
      match behind.read count with
      | none => ⟨.ok none, resized, asked⟩
      | some (bytes, next) => ⟨.ok (some next), resized.fill bytes, asked⟩

def readFields : List ByteString → ByteReader size → Decoded (List ByteString)
  | [], _ => ⟨.ok true, [], []⟩
  | field :: fields, reader =>
    let one := readField field reader
    match one.result with
    | .error e => ⟨.error e, one.object :: fields, one.resizes⟩
    | .ok none => ⟨.ok false, one.object :: fields, one.resizes⟩
    | .ok (some next) =>
      let rest := readFields fields next
      ⟨rest.result, one.object :: rest.object, one.resizes ++ rest.resizes⟩

theorem readFields_length (fields : List ByteString) (reader : ByteReader size) :
    (readFields fields reader).object.length = fields.length := by
  induction fields generalizing reader with
  | nil => rfl
  | cons field fields ih =>
    unfold readFields
    dsimp only
    split
    · rfl
    · rfl
    · simp [ih]

/-- The values written for the fields of a message, each behind its length. -/
def fieldWrites : List ByteString → List (List UInt8)
  | [] => []
  | field :: fields => hostBytes field.size :: field.data :: fieldWrites fields

def messageWrites (typeId : UInt8) (fields : List ByteString) : List (List UInt8) :=
  [typeId] :: fieldWrites fields

def serializeWrites (writes : List (List UInt8)) (bytes : ByteVector size) : Bool × ByteVector size :=
  let (success, writer) := (ByteWriter.new bytes).writeAll writes
  (success, writer.bytes)

def serializeFields (typeId : UInt8) (fields : List ByteString) (bytes : ByteVector size) :
    Bool × ByteVector size :=
  serializeWrites (messageWrites typeId fields) bytes

def deserializeFields (typeId : UInt8) (fields : List ByteString) (bytes : ByteVector size) :
    Decoded (List ByteString) :=
  match (ByteReader.new bytes).read 1 with
  | none => ⟨.ok false, fields, []⟩
  | some (id, reader) =>
    if id = [typeId] then readFields fields reader else ⟨.ok false, fields, []⟩

structure Ping where
  deriving DecidableEq, Inhabited

def Ping.typeId : UInt8 := 1

def Ping.serialize (_ : Ping) (bytes : ByteVector size) : Bool × ByteVector size :=
  serializeFields typeId [] bytes

def Ping.deserialize (m : Ping) (bytes : ByteVector size) : Decoded Ping :=
  (deserializeFields typeId [] bytes).map fun _ => m

structure Login where
  username : ByteString
  password : ByteString
  deriving DecidableEq, Inhabited

def Login.typeId : UInt8 := 2

def Login.serialize (m : Login) (bytes : ByteVector size) : Bool × ByteVector size :=
  serializeFields typeId [m.username, m.password] bytes

def Login.deserialize (m : Login) (bytes : ByteVector size) : Decoded Login :=
  (deserializeFields typeId [m.username, m.password] bytes).map fun
    | [username, password] => ⟨username, password⟩
    | _ => m

structure Register where
  username : ByteString
  password : ByteString
  deriving DecidableEq, Inhabited

def Register.typeId : UInt8 := 3

def Register.serialize (m : Register) (bytes : ByteVector size) : Bool × ByteVector size :=
  serializeFields typeId [m.username, m.password] bytes

def Register.deserialize (m : Register) (bytes : ByteVector size) : Decoded Register :=
  (deserializeFields typeId [m.username, m.password] bytes).map fun
    | [username, password] => ⟨username, password⟩
    | _ => m

structure Logout where
  deriving DecidableEq, Inhabited

def Logout.typeId : UInt8 := 4

def Logout.serialize (_ : Logout) (bytes : ByteVector size) : Bool × ByteVector size :=
  serializeFields typeId [] bytes

def Logout.deserialize (m : Logout) (bytes : ByteVector size) : Decoded Logout :=
  (deserializeFields typeId [] bytes).map fun _ => m

structure DeleteAccount where
  deriving DecidableEq, Inhabited

def DeleteAccount.typeId : UInt8 := 5

def DeleteAccount.serialize (_ : DeleteAccount) (bytes : ByteVector size) : Bool × ByteVector size :=
  serializeFields typeId [] bytes

def DeleteAccount.deserialize (m : DeleteAccount) (bytes : ByteVector size) : Decoded DeleteAccount :=
  (deserializeFields typeId [] bytes).map fun _ => m

structure ChangePassword where
  newPassword : ByteString
  deriving DecidableEq, Inhabited

def ChangePassword.typeId : UInt8 := 6

def ChangePassword.serialize (m : ChangePassword) (bytes : ByteVector size) : Bool × ByteVector size :=
  serializeFields typeId [m.newPassword] bytes

def ChangePassword.deserialize (m : ChangePassword) (bytes : ByteVector size) : Decoded ChangePassword :=
  (deserializeFields typeId [m.newPassword] bytes).map fun
    | [newPassword] => ⟨newPassword⟩
    | _ => m

structure ActiveUsers where
  deriving DecidableEq, Inhabited

def ActiveUsers.typeId : UInt8 := 7

def ActiveUsers.serialize (_ : ActiveUsers) (bytes : ByteVector size) : Bool × ByteVector size :=
  serializeFields typeId [] bytes

def ActiveUsers.deserialize (m : ActiveUsers) (bytes : ByteVector size) : Decoded ActiveUsers :=
  (deserializeFields typeId [] bytes).map fun _ => m

/-- `recipient` is the field `to`. -/
structure SendChat where
  recipient : ByteString
  content : ByteString
  deriving DecidableEq, Inhabited

def SendChat.typeId : UInt8 := 8

def SendChat.serialize (m : SendChat) (bytes : ByteVector size) : Bool × ByteVector size :=
  serializeFields typeId [m.recipient, m.content] bytes

def SendChat.deserialize (m : SendChat) (bytes : ByteVector size) : Decoded SendChat :=
  (deserializeFields typeId [m.recipient, m.content] bytes).map fun
    | [recipient, content] => ⟨recipient, content⟩
    | _ => m

/-- `sender` is the field `from`. -/
structure ReceiveChat where
  sender : ByteString
  content : ByteString
  deriving DecidableEq, Inhabited

def ReceiveChat.typeId : UInt8 := 9

def ReceiveChat.serialize (m : ReceiveChat) (bytes : ByteVector size) : Bool × ByteVector size :=
  serializeFields typeId [m.sender, m.content] bytes

def ReceiveChat.deserialize (m : ReceiveChat) (bytes : ByteVector size) : Decoded ReceiveChat :=
  (deserializeFields typeId [m.sender, m.content] bytes).map fun
    | [sender, content] => ⟨sender, content⟩
    | _ => m

structure Success where
  deriving DecidableEq, Inhabited

def Success.typeId : UInt8 := 10

def Success.serialize (_ : Success) (bytes : ByteVector size) : Bool × ByteVector size :=
  serializeFields typeId [] bytes

def Success.deserialize (m : Success) (bytes : ByteVector size) : Decoded Success :=
  (deserializeFields typeId [] bytes).map fun _ => m

structure Failure where
  what : ByteString
  deriving DecidableEq, Inhabited

def Failure.typeId : UInt8 := 11

def Failure.serialize (m : Failure) (bytes : ByteVector size) : Bool × ByteVector size :=
  serializeFields typeId [m.what] bytes

def Failure.deserialize (m : Failure) (bytes : ByteVector size) : Decoded Failure :=
  (deserializeFields typeId [m.what] bytes).map fun
    | [what] => ⟨what⟩
    | _ => m

/-- `max_size()` of a `std::vector<std::string>`: `PTRDIFF_MAX / sizeof(std::string)`. -/
def stringVectorMaxSize : Nat := 2 ^ 58 - 1

structure StringList where
  value : List ByteString
  size_le : value.length ≤ stringVectorMaxSize
  deriving DecidableEq

instance : Inhabited StringList := ⟨⟨[], by decide⟩⟩

def StringList.typeId : UInt8 := 12

def StringList.writes (m : StringList) : List (List UInt8) :=
  [typeId] :: hostBytes (UInt64.ofNat m.value.length) :: fieldWrites m.value

def StringList.serialize (m : StringList) (bytes : ByteVector size) : Bool × ByteVector size :=
  serializeWrites m.writes bytes

/-- `value.resize(list_size)`, new elements being empty strings. -/
def resizeStrings (value : List ByteString) (count : Nat) : List ByteString :=
  value.take count ++ List.replicate (count - value.length) ByteString.empty

theorem resizeStrings_length (value : List ByteString) (count : Nat) :
    (resizeStrings value count).length = count := by
  simp only [resizeStrings, List.length_append, List.length_take, List.length_replicate]
  omega

def StringList.deserialize (m : StringList) (bytes : ByteVector size) : Decoded StringList :=
  match (ByteReader.new bytes).read 1 with
  | none => ⟨.ok false, m, []⟩
  | some (id, reader) =>
    if id = [typeId] then
      match reader.read 8 with
      | none => ⟨.ok false, m, []⟩
      | some (word, behind) =>
        let count := (hostWord word).toNat
        let asked : Resize := ⟨count, behind.unread.length⟩
        if h : count ≤ stringVectorMaxSize then
          let rest := readFields (resizeStrings m.value count) behind
          ⟨rest.result, ⟨rest.object, by rwa [readFields_length, resizeStrings_length]⟩, asked :: rest.resizes⟩
        else ⟨.error .lengthError, m, [asked]⟩
    else ⟨.ok false, m, []⟩

end SecureMessaging
