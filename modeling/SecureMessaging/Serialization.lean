import SecureMessaging.Lib.Containers
import SecureMessaging.Lib.WordBytes

namespace SecureMessaging

/-- A `std::vector<uint8_t>` of a given 64-bit size. -/
structure ByteVector (size : UInt64) where
  bytes : List UInt8
  length_eq : bytes.length = size.toNat

variable {size : UInt64}

@[ext] theorem ByteVector.ext {v w : ByteVector size} (h : v.bytes = w.bytes) : v = w := by
  cases v; cases w; cases h; rfl

/-- The value-initialised vector `std::vector<uint8_t>(size)`. -/
def ByteVector.zero (size : UInt64) : ByteVector size :=
  ⟨List.replicate size.toNat 0, by simp⟩

/-- A 64-bit length as it lies in memory, least significant byte first. -/
def hostBytes (word : UInt64) : List UInt8 := WordBytes.split 8 word.toNat

def hostWord (bytes : List UInt8) : UInt64 := UInt64.ofNat (WordBytes.join bytes)

@[simp] theorem hostBytes_length (word : UInt64) : (hostBytes word).length = 8 :=
  WordBytes.split_length 8 word.toNat

@[simp] theorem hostWord_hostBytes (word : UInt64) : hostWord (hostBytes word) = word := by
  have hj : WordBytes.join (hostBytes word) = word.toNat :=
    WordBytes.join_split (by simpa using word.toNat_lt)
  simp [hostWord, hj]

theorem hostBytes_hostWord {bytes : List UInt8} (hl : bytes.length = 8) :
    hostBytes (hostWord bytes) = bytes := by
  have hlt := WordBytes.join_lt bytes
  rw [hl] at hlt
  have hn : (hostWord bytes).toNat = WordBytes.join bytes := by
    simpa [hostWord] using hlt
  rw [hostBytes, hn, WordBytes.split_join hl]

/-- A cursor never stands behind the end of its vector. -/
structure ByteReader (size : UInt64) where
  bytes : ByteVector size
  start : UInt64
  start_le : start ≤ size

namespace ByteReader

def new (bytes : ByteVector size) : ByteReader size := ⟨bytes, 0, UInt64.zero_le⟩

/-- The bytes copied out by `std::memcpy`, or nothing when the bounds test fails. -/
def peek (reader : ByteReader size) (count : UInt64) : Option (List UInt8) :=
  if size - reader.start ≥ count then
    some ((reader.bytes.bytes.drop reader.start.toNat).take count.toNat)
  else none

theorem add_le {start count : UInt64} (hs : start ≤ size) (hc : size - start ≥ count) :
    start + count ≤ size := by
  rw [ge_iff_le, UInt64.le_iff_toNat_le, UInt64.toNat_sub_of_le _ _ hs] at hc
  rw [UInt64.le_iff_toNat_le] at hs ⊢
  rw [UInt64.toNat_add]
  have := size.toNat_lt
  omega

theorem le_of_peek {reader : ByteReader size} {count : UInt64} {value : List UInt8}
    (h : reader.peek count = some value) : size - reader.start ≥ count := by
  unfold peek at h
  split at h
  next hc => exact hc
  next => cases h

def read (reader : ByteReader size) (count : UInt64) : Option (List UInt8 × ByteReader size) :=
  match h : reader.peek count with
  | some value => some (value, ⟨reader.bytes, reader.start + count, add_le reader.start_le (le_of_peek h)⟩)
  | none => none

/-- The bytes a reader has not passed yet. -/
def unread (reader : ByteReader size) : List UInt8 := reader.bytes.bytes.drop reader.start.toNat

theorem unread_length (reader : ByteReader size) :
    reader.unread.length = (size - reader.start).toNat := by
  simp [unread, reader.bytes.length_eq, UInt64.toNat_sub_of_le _ _ reader.start_le]

@[simp] theorem unread_new (bytes : ByteVector size) : (new bytes).unread = bytes.bytes := by
  simp [unread, new]

theorem peek_eq (reader : ByteReader size) (count : UInt64) :
    reader.peek count =
      if count.toNat ≤ reader.unread.length then some (reader.unread.take count.toNat) else none := by
  simp only [peek, unread_length, ge_iff_le, UInt64.le_iff_toNat_le]
  rfl

/-- A read fails and moves nothing, or it takes the next bytes off the unread ones. -/
theorem read_cases (reader : ByteReader size) (count : UInt64) :
    (reader.unread.length < count.toNat ∧ reader.read count = none) ∨
    ∃ next : ByteReader size, count.toNat ≤ reader.unread.length ∧
      reader.read count = some (reader.unread.take count.toNat, next) ∧
      next.unread = reader.unread.drop count.toNat := by
  have hp := reader.peek_eq count
  by_cases hc : count.toNat ≤ reader.unread.length
  · rw [if_pos hc] at hp
    have hle := le_of_peek hp
    refine Or.inr ⟨⟨reader.bytes, reader.start + count, add_le reader.start_le hle⟩, hc, ?_, ?_⟩
    · unfold read
      split
      next value hv =>
        rw [hp] at hv
        cases Option.some.inj hv
        rfl
      next hn => rw [hp] at hn; cases hn
    · have hs := add_le reader.start_le hle
      rw [UInt64.le_iff_toNat_le] at hs
      have hst := reader.start_le
      rw [UInt64.le_iff_toNat_le] at hst
      rw [ge_iff_le, UInt64.le_iff_toNat_le, UInt64.toNat_sub_of_le _ _ reader.start_le] at hle
      have hadd : (reader.start + count).toNat = reader.start.toNat + count.toNat := by
        rw [UInt64.toNat_add]
        have := size.toNat_lt
        omega
      simp [unread, hadd, Nat.add_comm]
  · rw [if_neg hc] at hp
    refine Or.inl ⟨by omega, ?_⟩
    unfold read
    split
    next value hv => rw [hp] at hv; cases hv
    next => rfl

end ByteReader

structure ByteWriter (size : UInt64) where
  bytes : ByteVector size
  start : UInt64
  start_le : start ≤ size

namespace ByteWriter

def new (bytes : ByteVector size) : ByteWriter size := ⟨bytes, 0, UInt64.zero_le⟩

/-- `value` are the bytes behind the pointer, as many as the caller's `size` says. -/
def write (writer : ByteWriter size) (value : List UInt8) : Bool × ByteWriter size :=
  let count := UInt64.ofNat value.length
  if h : size - writer.start ≥ count then
    (true, ⟨⟨writer.bytes.bytes.overwrite writer.start.toNat value, by simpa using writer.bytes.length_eq⟩,
      writer.start + count, ByteReader.add_le writer.start_le h⟩)
  else (false, writer)

/-- Writes joined by `&&`: the first one that fails ends the chain. -/
def writeAll : ByteWriter size → List (List UInt8) → Bool × ByteWriter size
  | writer, [] => (true, writer)
  | writer, value :: values =>
    match writer.write value with
    | (true, next) => next.writeAll values
    | (false, next) => (false, next)

/-- A write fails and changes nothing, or it copies the whole value and moves behind it. -/
theorem write_cases (writer : ByteWriter size) {value : List UInt8} (hv : value.length < 2 ^ 64) :
    (size.toNat < writer.start.toNat + value.length ∧ writer.write value = (false, writer)) ∨
    ∃ next : ByteWriter size, writer.start.toNat + value.length ≤ size.toNat ∧
      writer.write value = (true, next) ∧ next.start.toNat = writer.start.toNat + value.length ∧
      next.bytes.bytes = writer.bytes.bytes.overwrite writer.start.toNat value := by
  have hcount : (UInt64.ofNat value.length).toNat = value.length := by
    simpa using Nat.mod_eq_of_lt hv
  have hst := writer.start_le
  rw [UInt64.le_iff_toNat_le] at hst
  have htest : size - writer.start ≥ UInt64.ofNat value.length ↔
      writer.start.toNat + value.length ≤ size.toNat := by
    rw [ge_iff_le, UInt64.le_iff_toNat_le, UInt64.toNat_sub_of_le _ _ writer.start_le, hcount]
    omega
  by_cases hfit : writer.start.toNat + value.length ≤ size.toNat
  · have hge := htest.mpr hfit
    refine Or.inr ⟨⟨⟨writer.bytes.bytes.overwrite writer.start.toNat value, by
      simpa using writer.bytes.length_eq⟩, writer.start + UInt64.ofNat value.length,
      ByteReader.add_le writer.start_le hge⟩, hfit, ?_, ?_, rfl⟩
    · rw [write, dif_pos hge]
    · have hlt := size.toNat_lt
      simp only [UInt64.toNat_add, hcount]
      omega
  · refine Or.inl ⟨by omega, ?_⟩
    rw [write, dif_neg (by rwa [htest])]

end ByteWriter

/-- The values of a chain of writes that fit into `room` bytes, up to the first that does not. -/
def fitting (room : Nat) : List (List UInt8) → List (List UInt8)
  | [] => []
  | value :: values => if value.length ≤ room then value :: fitting (room - value.length) values else []

theorem fitting_length_le (room : Nat) (values : List (List UInt8)) :
    (fitting room values).flatten.length ≤ room := by
  induction values generalizing room with
  | nil => simp [fitting]
  | cons value values ih =>
    unfold fitting
    split
    next hfit =>
      have := ih (room - value.length)
      simp only [List.flatten_cons, List.length_append]
      omega
    next => simp

theorem fitting_all {room : Nat} {values : List (List UInt8)} (h : values.flatten.length ≤ room) :
    fitting room values = values := by
  induction values generalizing room with
  | nil => rfl
  | cons value values ih =>
    simp only [List.flatten_cons, List.length_append] at h
    rw [fitting, if_pos (by omega), ih (by omega)]

/-- A chain of writes succeeds exactly when everything fits, and what it leaves
in the vector are the values that did. -/
theorem ByteWriter.writeAll_spec (writer : ByteWriter size) {values : List (List UInt8)}
    (hv : ∀ value ∈ values, value.length < 2 ^ 64) {room : Nat}
    (hroom : writer.start.toNat + room = size.toNat) :
    ((writer.writeAll values).1 = true ↔ values.flatten.length ≤ room) ∧
    (writer.writeAll values).2.bytes.bytes =
      writer.bytes.bytes.overwrite writer.start.toNat (fitting room values).flatten := by
  induction values generalizing writer room with
  | nil => simp [writeAll, fitting]
  | cons value values ih =>
    rcases writer.write_cases (hv value (by simp)) with ⟨hlong, hw⟩ | ⟨next, hfit, hw, hstart, hbytes⟩
    · have hno : ¬value.length ≤ room := by omega
      simp only [writeAll, hw, fitting, if_neg hno, List.flatten_cons, List.flatten_nil, List.length_append,
        List.overwrite_nil_source, and_true, Bool.false_eq_true, false_iff]
      omega
    · obtain ⟨hok, hrest⟩ := ih next (fun v hm => hv v (List.mem_cons_of_mem _ hm))
        (show next.start.toNat + (room - value.length) = size.toNat by omega)
      have hyes : value.length ≤ room := by omega
      have hlen := fitting_length_le (room - value.length) values
      simp only [writeAll, hw, fitting, if_pos hyes, List.flatten_cons, List.length_append]
      refine ⟨by rw [hok]; omega, ?_⟩
      rw [hrest, hbytes, hstart, List.overwrite_overwrite]
      rw [writer.bytes.length_eq]
      omega

end SecureMessaging
