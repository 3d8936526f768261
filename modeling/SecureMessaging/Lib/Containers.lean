import Mathlib.Algebra.Order.Ring.Nat
import SecureMessaging.Lib.Overwrite

/-- The exceptions that the standard containers and `std::filesystem` throw. -/
inductive StdException
  | lengthError
  | outOfRange
  | filesystemError
  deriving DecidableEq, Repr

/-- A computation that may end by an exception. -/
abbrev Fallible (α : Type*) := Except StdException α

/-- An ordered map, seen through its lookups: `find`, `contains` and `at` read it,
`emplace` keeps an entry that is already there and `erase` drops one. -/
abbrev Table (κ ν : Type*) := κ → Option ν

namespace Table

variable {κ ν : Type*}

def empty : Table κ ν := fun _ => none

def contains (table : Table κ ν) (key : κ) : Bool := (table key).isSome

/-- The checked lookup `at`. -/
def atKey (table : Table κ ν) (key : κ) : Fallible ν :=
  match table key with
  | some value => .ok value
  | none => .error .outOfRange

@[simp] theorem empty_apply (key : κ) : (empty : Table κ ν) key = none := rfl

theorem contains_iff {table : Table κ ν} {key : κ} :
    table.contains key = true ↔ ∃ value, table key = some value := by
  simp [contains, Option.isSome_iff_exists]

theorem contains_eq_false {table : Table κ ν} {key : κ} :
    table.contains key = false ↔ table key = none := by
  simp [contains]

theorem atKey_ok {table : Table κ ν} {key : κ} {value : ν} (h : table key = some value) :
    table.atKey key = .ok value := by
  simp [atKey, h]

variable [DecidableEq κ]

def assign (table : Table κ ν) (key : κ) (value : ν) : Table κ ν :=
  fun k => if k = key then some value else table k

def emplace (table : Table κ ν) (key : κ) (value : ν) : Table κ ν :=
  if table.contains key then table else table.assign key value

def erase (table : Table κ ν) (key : κ) : Table κ ν :=
  fun k => if k = key then none else table k

@[simp] theorem assign_self (table : Table κ ν) (key : κ) (value : ν) :
    table.assign key value key = some value := by
  simp [assign]

theorem assign_ne {table : Table κ ν} {key k : κ} {value : ν} (h : k ≠ key) :
    table.assign key value k = table k := by
  simp [assign, h]

theorem assign_eq_some {table : Table κ ν} {key k : κ} {value v : ν} :
    table.assign key value k = some v ↔ k = key ∧ v = value ∨ k ≠ key ∧ table k = some v := by
  by_cases h : k = key <;> simp [assign, h, eq_comm]

theorem assign_assign (table : Table κ ν) (key : κ) (value value' : ν) :
    (table.assign key value).assign key value' = table.assign key value' := by
  funext k
  by_cases h : k = key
  · subst h
    rw [assign_self, assign_self]
  · rw [assign_ne h, assign_ne h, assign_ne h]

theorem assign_present {table : Table κ ν} {key : κ} {value : ν} (h : table key = some value) :
    table.assign key value = table := by
  funext k
  by_cases hk : k = key
  · subst hk
    rw [assign_self, h]
  · exact assign_ne hk

theorem assign_comm (table : Table κ ν) {key key' : κ} (value value' : ν) (h : key ≠ key') :
    (table.assign key value).assign key' value' = (table.assign key' value').assign key value := by
  funext k
  by_cases hk : k = key
  · subst hk
    rw [assign_ne h, assign_self, assign_self]
  · by_cases hk' : k = key'
    · subst hk'
      rw [assign_self, assign_ne hk, assign_self]
    · rw [assign_ne hk', assign_ne hk, assign_ne hk, assign_ne hk']

theorem emplace_present {table : Table κ ν} {key : κ} {old value : ν} (h : table key = some old) :
    table.emplace key value = table := by
  simp [emplace, contains, h]

theorem emplace_absent {table : Table κ ν} {key : κ} {value : ν} (h : table key = none) :
    table.emplace key value = table.assign key value := by
  simp [emplace, contains, h]

theorem emplace_ne {table : Table κ ν} {key k : κ} {value : ν} (h : k ≠ key) :
    table.emplace key value k = table k := by
  unfold emplace
  split
  · rfl
  · exact assign_ne h

theorem emplace_eq_some {table : Table κ ν} {key k : κ} {value v : ν} (h : table.emplace key value k = some v) :
    table k = some v ∨ v = value := by
  cases hkey : table key with
  | some old =>
    rw [emplace_present hkey] at h
    exact Or.inl h
  | none =>
    rw [emplace_absent hkey] at h
    rcases assign_eq_some.mp h with ⟨_, hnew⟩ | ⟨_, hold⟩
    · exact Or.inr hnew
    · exact Or.inl hold

theorem emplace_comm (table : Table κ ν) {key key' : κ} (value value' : ν) (h : key ≠ key') :
    (table.emplace key value).emplace key' value' = (table.emplace key' value').emplace key value := by
  have hother : table.emplace key value key' = table key' := emplace_ne h.symm
  have hother' : table.emplace key' value' key = table key := emplace_ne h
  cases hkey : table key with
  | some old =>
    rw [emplace_present hkey, emplace_present (hother'.trans hkey)]
  | none =>
    cases hkey' : table key' with
    | some old => rw [emplace_present hkey', emplace_present (hother.trans hkey')]
    | none =>
      rw [emplace_absent (hother.trans hkey'), emplace_absent (hother'.trans hkey), emplace_absent hkey,
        emplace_absent hkey', assign_comm table value value' h]

@[simp] theorem erase_self (table : Table κ ν) (key : κ) : table.erase key key = none := by
  simp [erase]

theorem erase_ne {table : Table κ ν} {key k : κ} (h : k ≠ key) : table.erase key k = table k := by
  simp [erase, h]

theorem erase_absent {table : Table κ ν} {key : κ} (h : table key = none) : table.erase key = table := by
  funext k
  by_cases hk : k = key
  · subst hk
    rw [erase_self, h]
  · exact erase_ne hk

theorem erase_assign (table : Table κ ν) (key : κ) (value : ν) :
    (table.assign key value).erase key = table.erase key := by
  funext k
  by_cases h : k = key
  · subst h
    rw [erase_self, erase_self]
  · rw [erase_ne h, erase_ne h, assign_ne h]

theorem erase_eq_some {table : Table κ ν} {key k : κ} {value : ν} :
    table.erase key k = some value ↔ k ≠ key ∧ table k = some value := by
  by_cases h : k = key <;> simp [erase, h]

end Table

/-- `std::string::max_size()`: `(SIZE_MAX - 1) / 2` bytes with libstdc++ from C++20 on; it is `2 ^ 62 - 1` before,
where the allocator counts to `PTRDIFF_MAX`. -/
def stringMaxSize : Nat := 2 ^ 63 - 1

/-- A byte string is never longer than its `max_size()`. -/
structure ByteString where
  data : List UInt8
  size_le : data.length ≤ stringMaxSize
  deriving DecidableEq

namespace ByteString

@[ext] theorem ext {s t : ByteString} (h : s.data = t.data) : s = t := by
  cases s; cases t; cases h; rfl

def empty : ByteString := ⟨[], by decide⟩

instance : Inhabited ByteString := ⟨empty⟩

def size (s : ByteString) : UInt64 := UInt64.ofNat s.data.length

theorem length_lt (s : ByteString) : s.data.length < 2 ^ 64 :=
  Nat.lt_of_le_of_lt s.size_le (by decide)

@[simp] theorem size_toNat (s : ByteString) : s.size.toNat = s.data.length := by
  simp only [size, UInt64.toNat_ofNat']
  exact Nat.mod_eq_of_lt s.length_lt

/-- `resize` cuts the string or fills it up with zero bytes. Up to `max_size()` the memory is taken to be there:
`std::bad_alloc` is left out. -/
def resize (s : ByteString) (count : UInt64) : Fallible ByteString :=
  if h : count.toNat ≤ stringMaxSize then
    .ok ⟨s.data.take count.toNat ++ List.replicate (count.toNat - s.data.length) 0, by
      simp only [List.length_append, List.length_take, List.length_replicate]; omega⟩
  else .error .lengthError

/-- Copying bytes to where `data()` points. -/
def fill (s : ByteString) (bytes : List UInt8) : ByteString :=
  ⟨s.data.overwrite 0 bytes, by simpa using s.size_le⟩

theorem resize_length {s t : ByteString} {count : UInt64} (h : s.resize count = .ok t) :
    t.data.length = count.toNat := by
  unfold resize at h
  split at h
  next =>
    cases Except.ok.inj h
    simp only [List.length_append, List.length_take, List.length_replicate]
    omega
  next => cases h

theorem fill_data {s : ByteString} {bytes : List UInt8} (h : bytes.length = s.data.length) :
    (s.fill bytes).data = bytes :=
  List.overwrite_whole h

end ByteString

/-- The bytes of an ASCII literal. -/
def asciiBytes (text : String) : List UInt8 := text.toList.map fun c => UInt8.ofNat c.toNat
