import SecureMessaging.Codec

namespace SecureMessaging

variable {size : UInt64}

/-- A `ByteWriter` as the machine has it: the vector is `size` bytes of the memory from `base` on,
and nothing but the test in `Write` keeps a copy inside. -/
structure MemoryWriter where
  memory : List UInt8
  base : Nat
  size : UInt64
  start : UInt64

namespace MemoryWriter

def new (memory : List UInt8) (base : Nat) (size : UInt64) : MemoryWriter := ⟨memory, base, size, 0⟩

def write (writer : MemoryWriter) (value : List UInt8) : Bool × MemoryWriter :=
  let count := UInt64.ofNat value.length
  if writer.size - writer.start ≥ count then
    (true, { writer with
      memory := writer.memory.overwrite (writer.base + writer.start.toNat) value
      start := writer.start + count })
  else (false, writer)

def writeAll : MemoryWriter → List (List UInt8) → Bool × MemoryWriter
  | writer, [] => (true, writer)
  | writer, value :: values =>
    match writer.write value with
    | (true, next) => next.writeAll values
    | (false, next) => (false, next)

/-- The vector of `writer`, with `before` in front of it and `behind` after it. -/
def around (before behind : List UInt8) (writer : ByteWriter size) : MemoryWriter :=
  ⟨before ++ writer.bytes.bytes ++ behind, before.length, size, writer.start⟩

theorem write_around (before behind : List UInt8) (writer : ByteWriter size) {value : List UInt8}
    (hv : value.length < 2 ^ 64) :
    (around before behind writer).write value =
      ((writer.write value).1, around before behind (writer.write value).2) := by
  unfold write ByteWriter.write around
  dsimp only
  split
  next hfit =>
    have hcount : (UInt64.ofNat value.length).toNat = value.length := by
      simpa using Nat.mod_eq_of_lt hv
    have hinside : writer.start.toNat + value.length ≤ writer.bytes.bytes.length := by
      rw [ge_iff_le, UInt64.le_iff_toNat_le, UInt64.toNat_sub_of_le _ _ writer.start_le, hcount] at hfit
      have hstart := writer.start_le
      rw [UInt64.le_iff_toNat_le] at hstart
      rw [writer.bytes.length_eq]
      omega
    rw [List.overwrite_inside hinside]
  next => rfl

/-- By induction on the writes: no copy leaves the vector. -/
theorem writeAll_around (before behind : List UInt8) (writer : ByteWriter size) {values : List (List UInt8)}
    (hv : ∀ value ∈ values, value.length < 2 ^ 64) :
    (around before behind writer).writeAll values =
      ((writer.writeAll values).1, around before behind (writer.writeAll values).2) := by
  induction values generalizing writer with
  | nil => rfl
  | cons value values ih =>
    have hrest := fun w hw => hv w (List.mem_cons_of_mem _ hw)
    unfold writeAll ByteWriter.writeAll
    rw [write_around before behind writer (hv value List.mem_cons_self)]
    obtain ⟨success, next⟩ := writer.write value
    cases success with
    | true => exact ih next hrest
    | false => rfl

end MemoryWriter

/-- The strings of a message, in the order they are written. -/
def MessageType.strings : (type : MessageType) → type.Object → List ByteString
  | .login, m => [m.username, m.password]
  | .register, m => [m.username, m.password]
  | .changePassword, m => [m.newPassword]
  | .sendChat, m => [m.recipient, m.content]
  | .receiveChat, m => [m.sender, m.content]
  | .failure, m => [m.what]
  | .stringList, m => m.value
  | .ping, _ | .logout, _ | .deleteAccount, _ | .activeUsers, _ | .success, _ => []

/-- One byte for the type, eight for the count of a list, and for each string eight and its own. -/
def MessageType.fullLength (type : MessageType) (m : type.Object) : Nat :=
  1 + (if type = .stringList then 8 else 0) + ((type.strings m).map fun string => 8 + string.data.length).sum

theorem fieldWrites_length (fields : List ByteString) :
    (fieldWrites fields).flatten.length = (fields.map fun field => 8 + field.data.length).sum := by
  induction fields with
  | nil => rfl
  | cons field fields ih =>
    simp only [fieldWrites, List.flatten_cons, List.length_append, hostBytes_length, List.map_cons, List.sum_cons, ih]
    omega

theorem messageWrites_length (typeId : UInt8) (fields : List ByteString) :
    (messageWrites typeId fields).flatten.length = 1 + (fields.map fun field => 8 + field.data.length).sum := by
  rw [messageWrites, List.flatten_cons, List.length_append, fieldWrites_length]
  rfl

theorem encode_length (type : MessageType) (m : type.Object) : (type.encode m).length = type.fullLength m := by
  cases type with
  | stringList =>
    have hwrites : (MessageType.stringList.encode m).length =
        (StringList.typeId :: (hostBytes (UInt64.ofNat m.value.length) ++ (fieldWrites m.value).flatten)).length := rfl
    rw [hwrites, List.length_cons, List.length_append, hostBytes_length, fieldWrites_length]
    simp only [MessageType.fullLength, MessageType.strings, if_true]
    omega
  | ping | login | register | logout | deleteAccount | changePassword | activeUsers | sendChat | receiveChat
  | success | failure => exact messageWrites_length _ _

theorem fitting_prefix (room : Nat) (values : List (List UInt8)) : fitting room values <+: values := by
  induction values generalizing room with
  | nil => exact List.prefix_refl _
  | cons value values ih =>
    unfold fitting
    split
    · exact List.cons_prefix_cons.mpr ⟨rfl, ih _⟩
    · exact List.nil_prefix

/-- `Serialize` on a vector that lies at `base` in the memory. -/
def serializeInPlace (writes : List (List UInt8)) (memory : List UInt8) (base : Nat) (size : UInt64) :
    Bool × List UInt8 :=
  let (success, writer) := (MemoryWriter.new memory base size).writeAll writes
  (success, writer.memory)

theorem serializeInPlace_eq (type : MessageType) (m : type.Object) (bytes : ByteVector size)
    (before behind : List UInt8) :
    serializeInPlace (type.writes m) (before ++ bytes.bytes ++ behind) before.length size =
      ((type.serialize m bytes).1, before ++ (type.serialize m bytes).2.bytes ++ behind) := by
  have haround := MemoryWriter.writeAll_around before behind (ByteWriter.new bytes) (type.writes_bound m)
  have hnew : MemoryWriter.new (before ++ bytes.bytes ++ behind) before.length size =
      MemoryWriter.around before behind (ByteWriter.new bytes) := rfl
  rw [serializeInPlace, hnew, haround, type.serialize_eq]
  rfl

/-- What does not fit breaks off the encoding somewhere before its end. -/
theorem serialize_broken {type : MessageType} {m : type.Object} {bytes : ByteVector size}
    (h : (type.serialize m bytes).1 = false) :
    ∃ front, front <+: type.encode m ∧ front.length < (type.encode m).length ∧
      (type.serialize m bytes).2.bytes = front ++ bytes.bytes.drop front.length := by
  have hroom := fitting_length_le size.toNat (type.writes m)
  have hlong : size.toNat < (type.encode m).length := by
    by_contra hle
    rw [serialize_success.mpr (Nat.not_lt.mp hle)] at h
    cases h
  refine ⟨(fitting size.toNat (type.writes m)).flatten, ?_, by omega, ?_⟩
  · obtain ⟨rest, hrest⟩ := fitting_prefix size.toNat (type.writes m)
    exact ⟨rest.flatten, by rw [← List.flatten_append, hrest, MessageType.encode]⟩
  · have hinside : 0 + (fitting size.toNat (type.writes m)).flatten.length ≤ bytes.bytes.length := by
      rw [bytes.length_eq]
      omega
    rw [serialize_bytes, List.overwrite_eq_take_drop hinside]
    simp

/-- `Serialize` writes the encoding of its message over the front of the vector, or as much of it as
whole values fit, and touches nothing else of the vector or of the memory around it. -/
theorem serialize_writes_prefix (type : MessageType) (m : type.Object) (bytes : ByteVector size) :
    ((type.serialize m bytes).1 = true ↔ type.fullLength m ≤ bytes.bytes.length) ∧
    (type.encode m).length = type.fullLength m ∧
    (type.serialize m bytes).2.bytes.length = bytes.bytes.length ∧
    ((type.serialize m bytes).1 = true →
      (type.serialize m bytes).2.bytes = type.encode m ++ bytes.bytes.drop (type.encode m).length) ∧
    ((type.serialize m bytes).1 = false → ∃ front, front <+: type.encode m ∧
      front.length < (type.encode m).length ∧
      (type.serialize m bytes).2.bytes = front ++ bytes.bytes.drop front.length) ∧
    ∀ before behind, serializeInPlace (type.writes m) (before ++ bytes.bytes ++ behind) before.length size =
      ((type.serialize m bytes).1, before ++ (type.serialize m bytes).2.bytes ++ behind) := by
  refine ⟨?_, encode_length type m, ?_, ?_, serialize_broken, serializeInPlace_eq type m bytes⟩
  · rw [serialize_success, encode_length, bytes.length_eq]
  · rw [ByteVector.length_eq, bytes.length_eq]
  · intro hsuccess
    exact serialize_bytes_of_fits (serialize_success.mp hsuccess)

end SecureMessaging
