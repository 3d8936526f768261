import SecureMessaging.Lib.Runs
import SecureMessaging.Serialization

namespace SecureMessaging

/-- A `ByteReader` as it lies in memory; nothing keeps `_start` inside the vector. -/
structure RawReader where
  bytes : List UInt8
  start : UInt64

/-- A `ByteWriter` as it lies in memory. -/
structure RawWriter where
  bytes : List UInt8
  start : UInt64

/-- The bounds test `_bytes.size() - _start >= size`. -/
def fits (bytes : List UInt8) (start size : UInt64) : Bool :=
  UInt64.ofNat bytes.length - start ≥ size

namespace RawReader

def new (bytes : List UInt8) : RawReader := ⟨bytes, 0⟩

/-- The bytes that `std::memcpy` copied to where the caller's pointer points. -/
def peek (reader : RawReader) (size : UInt64) : Option (List UInt8) :=
  if fits reader.bytes reader.start size then
    some ((reader.bytes.drop reader.start.toNat).take size.toNat)
  else none

def read (reader : RawReader) (size : UInt64) : Option (List UInt8) × RawReader :=
  match reader.peek size with
  | some value => (some value, { reader with start := reader.start + size })
  | none => (none, reader)

inductive Call
  | peek (size : UInt64)
  | read (size : UInt64)

def Call.size : Call → UInt64
  | peek size => size
  | read size => size

/-- A call and the bytes it copied out, if it returned true. -/
def Step (reader : RawReader) : Call → Option (List UInt8) → RawReader → Prop
  | .peek size, out, next => out = reader.peek size ∧ next = reader
  | .read size, out, next => reader.read size = (out, next)

end RawReader

namespace RawWriter

def new (bytes : List UInt8) : RawWriter := ⟨bytes, 0⟩

/-- The bytes from where a pointer points on. -/
def valueAt (memory : Nat → UInt8) (size : UInt64) : List UInt8 := (List.range size.toNat).map memory

def write (writer : RawWriter) (value : Nat → UInt8) (size : UInt64) : Bool × RawWriter :=
  if fits writer.bytes writer.start size then
    (true, ⟨writer.bytes.overwrite writer.start.toNat (valueAt value size), writer.start + size⟩)
  else (false, writer)

/-- A call of `Write` with a pointer and a size. -/
structure Call where
  value : Nat → UInt8
  size : UInt64

def Step (writer : RawWriter) (call : Call) (success : Bool) (next : RawWriter) : Prop :=
  writer.write call.value call.size = (success, next)

theorem valueAt_length (memory : Nat → UInt8) (size : UInt64) : (valueAt memory size).length = size.toNat := by
  rw [valueAt, List.length_map, List.length_range]

end RawWriter

/-- Nothing wraps around, and the test is the one over the natural numbers. -/
structure Bounded (bytes : List UInt8) (start size : UInt64) : Prop where
  difference : (UInt64.ofNat bytes.length - start).toNat = bytes.length - start.toNat
  test : fits bytes start size = true ↔ start.toNat + size.toNat ≤ bytes.length
  sum : start.toNat + size.toNat ≤ bytes.length → (start + size).toNat = start.toNat + size.toNat

theorem bounded {bytes : List UInt8} {start : UInt64} (hlen : bytes.length < 2 ^ 64)
    (hstart : start.toNat ≤ bytes.length) (size : UInt64) : Bounded bytes start size := by
  have hsize : (UInt64.ofNat bytes.length).toNat = bytes.length := by
    rw [UInt64.toNat_ofNat']
    exact Nat.mod_eq_of_lt hlen
  have hle : start ≤ UInt64.ofNat bytes.length := by
    rw [UInt64.le_iff_toNat_le, hsize]
    exact hstart
  have hdifference : (UInt64.ofNat bytes.length - start).toNat = bytes.length - start.toNat := by
    rw [UInt64.toNat_sub_of_le _ _ hle, hsize]
  refine ⟨hdifference, ?_, ?_⟩
  · unfold fits
    rw [decide_eq_true_iff, ge_iff_le, UInt64.le_iff_toNat_le, hdifference]
    omega
  · intro hfit
    rw [UInt64.toNat_add]
    exact Nat.mod_eq_of_lt (by omega)

namespace RawReader

variable {original : List UInt8} {reader next : RawReader} {trace : List (Call × Option (List UInt8))} {call : Call}
  {out : Option (List UInt8)}

/-- What a call of `Peek` or `Read` does to the reader. -/
structure Safe (reader : RawReader) (call : Call) (out : Option (List UInt8)) (next : RawReader) : Prop where
  bounded : Bounded reader.bytes reader.start call.size
  copied : ∀ value, out = some value → reader.start.toNat + call.size.toNat ≤ reader.bytes.length ∧
    value = (reader.bytes.drop reader.start.toNat).take call.size.toNat
  failed : out = none → next = reader
  peeked : ∀ size, call = .peek size → next = reader

/-- What the successful calls of `Read` copied out. -/
def taken : Call × Option (List UInt8) → List UInt8
  | (.read _, some value) => value
  | _ => []

/-- The cursor stands inside the vector, behind the bytes that were read. -/
structure Behind (original : List UInt8) (trace : List (Call × Option (List UInt8))) (reader : RawReader) :
    Prop where
  vector : reader.bytes = original
  start_le : reader.start.toNat ≤ original.length
  read : trace.flatMap taken = original.take reader.start.toNat

theorem peek_cases (hlen : reader.bytes.length < 2 ^ 64) (hstart : reader.start.toNat ≤ reader.bytes.length)
    (size : UInt64) :
    (reader.start.toNat + size.toNat ≤ reader.bytes.length ∧
      reader.peek size = some ((reader.bytes.drop reader.start.toNat).take size.toNat)) ∨
    (reader.bytes.length < reader.start.toNat + size.toNat ∧ reader.peek size = none) := by
  have htest := (SecureMessaging.bounded hlen hstart size).test
  unfold peek
  by_cases hfit : reader.start.toNat + size.toNat ≤ reader.bytes.length
  · exact Or.inl ⟨hfit, if_pos (htest.mpr hfit)⟩
  · exact Or.inr ⟨by omega, if_neg fun h => hfit (htest.mp h)⟩

theorem read_cases (hlen : reader.bytes.length < 2 ^ 64) (hstart : reader.start.toNat ≤ reader.bytes.length)
    (size : UInt64) :
    (reader.start.toNat + size.toNat ≤ reader.bytes.length ∧
      reader.read size = (some ((reader.bytes.drop reader.start.toNat).take size.toNat),
        { reader with start := reader.start + size })) ∨
    (reader.bytes.length < reader.start.toNat + size.toNat ∧ reader.read size = (none, reader)) := by
  rcases peek_cases hlen hstart size with ⟨hfit, hpeek⟩ | ⟨hshort, hpeek⟩
  · exact Or.inl ⟨hfit, by rw [read, hpeek]⟩
  · exact Or.inr ⟨hshort, by rw [read, hpeek]⟩

theorem safe_of_step (hlen : reader.bytes.length < 2 ^ 64) (hstart : reader.start.toNat ≤ reader.bytes.length)
    (h : Step reader call out next) : Safe reader call out next := by
  have hbounded := SecureMessaging.bounded hlen hstart call.size
  cases call with
  | peek size =>
    obtain ⟨rfl, rfl⟩ := h
    refine ⟨hbounded, ?_, fun _ => rfl, fun _ _ => rfl⟩
    intro value hvalue
    rcases peek_cases hlen hstart size with ⟨hfit, hpeek⟩ | ⟨_, hpeek⟩
    · exact ⟨hfit, Option.some.inj (hvalue.symm.trans hpeek)⟩
    · cases hpeek.symm.trans hvalue
  | read size =>
    have hmoved : ∀ other, Call.read size = .peek other → next = reader := by
      intro other hcall
      cases hcall
    rcases read_cases hlen hstart size with ⟨hfit, hread⟩ | ⟨_, hread⟩
    · obtain ⟨rfl, rfl⟩ := Prod.mk.inj (hread.symm.trans h)
      refine ⟨hbounded, ?_, ?_, hmoved⟩
      · intro value hvalue
        exact ⟨hfit, (Option.some.inj hvalue).symm⟩
      · intro hnone
        cases hnone
    · obtain ⟨rfl, rfl⟩ := Prod.mk.inj (hread.symm.trans h)
      refine ⟨hbounded, ?_, fun _ => rfl, hmoved⟩
      intro value hvalue
      cases hvalue

/-- One call takes the bytes next to those read before, or none. -/
theorem behind_step (hlen : original.length < 2 ^ 64) (behind : Behind original trace reader)
    (h : Step reader call out next) : Behind original (trace ++ [(call, out)]) next := by
  obtain ⟨hvector, hstart, hread⟩ := behind
  have hstays : taken (call, out) = [] → next = reader → Behind original (trace ++ [(call, out)]) next := by
    intro hnothing hsame
    subst hsame
    refine ⟨hvector, hstart, ?_⟩
    rw [List.flatMap_append, List.flatMap_singleton, hnothing, List.append_nil, hread]
  have hlen' : reader.bytes.length < 2 ^ 64 := by rwa [hvector]
  have hstart' : reader.start.toNat ≤ reader.bytes.length := by rwa [hvector]
  cases call with
  | peek size => exact hstays rfl h.2
  | read size =>
    rcases read_cases hlen' hstart' size with ⟨hfit, hok⟩ | ⟨_, hfails⟩
    · obtain ⟨rfl, rfl⟩ := Prod.mk.inj (hok.symm.trans h)
      have hsum := (bounded hlen' hstart' size).sum hfit
      rw [hvector] at hfit
      refine ⟨hvector, by rw [hsum]; exact hfit, ?_⟩
      rw [List.flatMap_append, List.flatMap_singleton, hread, hsum, hvector, List.take_add]
      rfl
    · obtain ⟨rfl, rfl⟩ := Prod.mk.inj (hfails.symm.trans h)
      exact hstays rfl rfl

theorem behind_of_run (hlen : original.length < 2 ^ 64) (run : Run Step (new original) trace reader) :
    Behind original trace reader := by
  refine run.history (P := Behind original) ⟨rfl, Nat.zero_le _, rfl⟩ ?_
  intro trace reader call out next _ behind h
  exact behind_step hlen behind h

end RawReader

namespace RawWriter

variable {original : List UInt8} {writer next : RawWriter} {trace : List (Call × Bool)} {call : Call} {success : Bool}

/-- What a call of `Write` does to the writer. -/
structure Safe (writer : RawWriter) (call : Call) (success : Bool) (next : RawWriter) : Prop where
  bounded : Bounded writer.bytes writer.start call.size
  copied : success = true → writer.start.toNat + call.size.toNat ≤ writer.bytes.length
  failed : success = false → next = writer

/-- The value of a call that returned true. -/
def written : Call × Bool → List UInt8
  | (call, true) => valueAt call.value call.size
  | (_, false) => []

/-- The vector holds what was written and behind it, from the cursor on, its old bytes. -/
structure Behind (original : List UInt8) (trace : List (Call × Bool)) (writer : RawWriter) : Prop where
  length_eq : writer.bytes.length = original.length
  start_le : writer.start.toNat ≤ original.length
  written_length : (trace.flatMap written).length = writer.start.toNat
  vector : writer.bytes = trace.flatMap written ++ original.drop writer.start.toNat

theorem write_cases (hlen : writer.bytes.length < 2 ^ 64) (hstart : writer.start.toNat ≤ writer.bytes.length)
    (call : Call) :
    (writer.start.toNat + call.size.toNat ≤ writer.bytes.length ∧ writer.write call.value call.size =
      (true, ⟨writer.bytes.overwrite writer.start.toNat (valueAt call.value call.size), writer.start + call.size⟩)) ∨
    (writer.bytes.length < writer.start.toNat + call.size.toNat ∧
      writer.write call.value call.size = (false, writer)) := by
  have htest := (SecureMessaging.bounded hlen hstart call.size).test
  unfold write
  by_cases hfit : writer.start.toNat + call.size.toNat ≤ writer.bytes.length
  · exact Or.inl ⟨hfit, if_pos (htest.mpr hfit)⟩
  · exact Or.inr ⟨by omega, if_neg fun h => hfit (htest.mp h)⟩

theorem safe_of_step (hlen : writer.bytes.length < 2 ^ 64) (hstart : writer.start.toNat ≤ writer.bytes.length)
    (h : Step writer call success next) : Safe writer call success next := by
  have hbounded := SecureMessaging.bounded hlen hstart call.size
  rcases write_cases hlen hstart call with ⟨hfit, hwrite⟩ | ⟨_, hwrite⟩
  · obtain ⟨rfl, rfl⟩ := Prod.mk.inj (hwrite.symm.trans h)
    refine ⟨hbounded, fun _ => hfit, ?_⟩
    intro hfalse
    cases hfalse
  · obtain ⟨rfl, rfl⟩ := Prod.mk.inj (hwrite.symm.trans h)
    refine ⟨hbounded, ?_, fun _ => rfl⟩
    intro htrue
    cases htrue

theorem behind_step (hlen : original.length < 2 ^ 64) (behind : Behind original trace writer)
    (h : Step writer call success next) : Behind original (trace ++ [(call, success)]) next := by
  obtain ⟨hlength, hstart, hwritten, hvector⟩ := behind
  have hlen' : writer.bytes.length < 2 ^ 64 := by rwa [hlength]
  have hstart' : writer.start.toNat ≤ writer.bytes.length := by rwa [hlength]
  rcases write_cases hlen' hstart' call with ⟨hfit, hok⟩ | ⟨_, hfails⟩
  · obtain ⟨rfl, rfl⟩ := Prod.mk.inj (hok.symm.trans h)
    have hsum := (bounded hlen' hstart' call.size).sum hfit
    have hvalue := valueAt_length call.value call.size
    have hall : (trace ++ [(call, true)]).flatMap written =
        trace.flatMap written ++ valueAt call.value call.size := by
      rw [List.flatMap_append, List.flatMap_singleton]
      rfl
    rw [hlength] at hfit
    refine ⟨by rw [List.overwrite_length, hlength], by rw [hsum]; exact hfit, ?_, ?_⟩
    · rw [hall, List.length_append, hwritten, hvalue, hsum]
    · have htail : 0 + (valueAt call.value call.size).length ≤ (original.drop writer.start.toNat).length := by
        rw [hvalue, List.length_drop]
        omega
      have hinto : writer.bytes.overwrite writer.start.toNat (valueAt call.value call.size) =
          trace.flatMap written ++ (original.drop writer.start.toNat).overwrite 0 (valueAt call.value call.size) := by
        rw [← List.overwrite_behind, ← hvector, hwritten, Nat.add_zero]
      rw [hinto, List.overwrite_eq_take_drop htail, hall, hsum, hvalue, List.take_zero, List.nil_append,
        List.drop_drop, Nat.zero_add, List.append_assoc]
  · obtain ⟨rfl, rfl⟩ := Prod.mk.inj (hfails.symm.trans h)
    have hall : (trace ++ [(call, false)]).flatMap written = trace.flatMap written := by
      rw [List.flatMap_append, List.flatMap_singleton]
      exact List.append_nil _
    exact ⟨hlength, hstart, by rw [hall, hwritten], by rw [hall]; exact hvector⟩

theorem behind_of_run (hlen : original.length < 2 ^ 64) (run : Run Step (new original) trace writer) :
    Behind original trace writer := by
  refine run.history (P := Behind original) ⟨rfl, Nat.zero_le _, rfl, rfl⟩ ?_
  intro trace writer call success next _ behind h
  exact behind_step hlen behind h

end RawWriter

/-- After any calls a cursor is inside its vector, nothing was lost, and the next call is safe. -/
theorem cursors_safe {original : List UInt8} (hlen : original.length < 2 ^ 64) :
    (∀ trace reader, Run RawReader.Step (RawReader.new original) trace reader →
      RawReader.Behind original trace reader ∧
      ∀ call out next, RawReader.Step reader call out next → RawReader.Safe reader call out next) ∧
    ∀ trace writer, Run RawWriter.Step (RawWriter.new original) trace writer →
      RawWriter.Behind original trace writer ∧
      ∀ call success next, RawWriter.Step writer call success next → RawWriter.Safe writer call success next := by
  refine ⟨?_, ?_⟩
  · intro trace reader run
    have behind := RawReader.behind_of_run hlen run
    have hstart := behind.start_le
    rw [← behind.vector] at hstart hlen
    exact ⟨behind, fun _ _ _ h => RawReader.safe_of_step hlen hstart h⟩
  · intro trace writer run
    have behind := RawWriter.behind_of_run hlen run
    have hstart := behind.start_le
    rw [← behind.length_eq] at hstart hlen
    exact ⟨behind, fun _ _ _ h => RawWriter.safe_of_step hlen hstart h⟩

/-- A read of a huge size fails between two that succeed. -/
theorem cursors_safe_threeBytes : ∃ trace reader,
    Run RawReader.Step (RawReader.new [7, 8, 9]) trace reader ∧ RawReader.Behind [7, 8, 9] trace reader ∧
      reader.start = 3 := by
  have hfirst : RawReader.Step (RawReader.new [7, 8, 9]) (.read 1) (some [7]) ⟨[7, 8, 9], 1⟩ := rfl
  have hhuge : RawReader.Step ⟨[7, 8, 9], 1⟩ (.read 18446744073709551615) none ⟨[7, 8, 9], 1⟩ := rfl
  have hlast : RawReader.Step ⟨[7, 8, 9], 1⟩ (.read 2) (some [8, 9]) ⟨[7, 8, 9], 3⟩ := rfl
  have run := ((Run.init.next hfirst).next hhuge).next hlast
  exact ⟨_, _, run, ((cursors_safe (by decide)).1 _ _ run).1, rfl⟩

variable {size : UInt64}

/-- The cursors of the other modules, without the proof that they carry. -/
def ByteReader.raw (reader : ByteReader size) : RawReader := ⟨reader.bytes.bytes, reader.start⟩

def ByteWriter.raw (writer : ByteWriter size) : RawWriter := ⟨writer.bytes.bytes, writer.start⟩

theorem fits_iff (bytes : ByteVector size) (start count : UInt64) :
    fits bytes.bytes start count = true ↔ size - start ≥ count := by
  have hsize : UInt64.ofNat bytes.bytes.length = size := by
    rw [bytes.length_eq, UInt64.ofNat_toNat]
  rw [fits, hsize, decide_eq_true_iff]

theorem ByteReader.peek_raw (reader : ByteReader size) (count : UInt64) :
    reader.raw.peek count = reader.peek count := by
  unfold RawReader.peek ByteReader.peek
  by_cases hfit : size - reader.start ≥ count
  · rw [if_pos hfit]
    exact if_pos ((fits_iff reader.bytes reader.start count).mpr hfit)
  · rw [if_neg hfit]
    exact if_neg fun h => hfit ((fits_iff reader.bytes reader.start count).mp h)

theorem ByteReader.read_of_peek {reader : ByteReader size} {count : UInt64} {value : List UInt8}
    (h : reader.peek count = some value) :
    ∃ next, reader.read count = some (value, next) ∧ next.raw = ⟨reader.bytes.bytes, reader.start + count⟩ := by
  refine ⟨⟨reader.bytes, reader.start + count, add_le reader.start_le (le_of_peek h)⟩, ?_, rfl⟩
  unfold read
  split
  next other hother =>
    cases Option.some.inj (hother.symm.trans h)
    rfl
  next hnone => cases hnone.symm.trans h

theorem ByteReader.read_of_not_peek {reader : ByteReader size} {count : UInt64} (h : reader.peek count = none) :
    reader.read count = none := by
  unfold read
  split
  next other hother => cases hother.symm.trans h
  next => rfl

/-- A cursor with its proof reads as one without. -/
theorem ByteReader.read_raw (reader : ByteReader size) (count : UInt64) :
    reader.raw.read count = match reader.read count with
      | some (value, next) => (some value, next.raw)
      | none => (none, reader.raw) := by
  have hraw := reader.peek_raw count
  unfold RawReader.read
  cases hpeek : reader.peek count with
  | some value =>
    obtain ⟨next, hread, hnext⟩ := read_of_peek hpeek
    rw [hraw, hpeek, hread]
    exact congrArg (Prod.mk (some value)) hnext.symm
  | none => rw [hraw, hpeek, read_of_not_peek hpeek]

theorem ByteWriter.write_raw (writer : ByteWriter size) (call : RawWriter.Call) :
    writer.raw.write call.value call.size =
      ((writer.write (RawWriter.valueAt call.value call.size)).1,
        (writer.write (RawWriter.valueAt call.value call.size)).2.raw) := by
  have hcount : UInt64.ofNat (RawWriter.valueAt call.value call.size).length = call.size := by
    rw [RawWriter.valueAt_length, UInt64.ofNat_toNat]
  have htest : fits writer.raw.bytes writer.raw.start call.size = true ↔ size - writer.start ≥ call.size :=
    fits_iff writer.bytes writer.start call.size
  unfold RawWriter.write
  by_cases hfit : size - writer.start ≥ call.size
  · have hwrite : writer.write (RawWriter.valueAt call.value call.size) = (true, _) :=
      dif_pos (by rw [hcount]; exact hfit)
    rw [if_pos (htest.mpr hfit), hwrite]
    simp only [ByteWriter.raw, hcount]
  · have hwrite : writer.write (RawWriter.valueAt call.value call.size) = (false, writer) :=
      dif_neg (by rw [hcount]; exact hfit)
    rw [if_neg fun h => hfit (htest.mp h), hwrite]

end SecureMessaging
