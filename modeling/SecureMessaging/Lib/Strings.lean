import SecureMessaging.Lib.Containers

namespace ByteString

/-- `std::string::npos`. -/
def npos : Nat := 2 ^ 64 - 1

/-- `std::string::find` of a character from a position on; `none` is `npos`. -/
def find (s : ByteString) (c : UInt8) (pos : Nat) : Option Nat :=
  ((s.data.drop pos).findIdx? fun x => x == c).map fun k => pos + k

def substr (s : ByteString) (pos count : Nat) : Fallible ByteString :=
  if pos ≤ s.data.length then
    .ok ⟨(s.data.drop pos).take count, by
      have hmax := s.size_le
      simp only [List.length_take, List.length_drop]
      omega⟩
  else .error .outOfRange

/-- `operator+=` of a character. -/
def pushBack (s : ByteString) (c : UInt8) : Fallible ByteString :=
  if h : s.data.length < stringMaxSize then
    .ok ⟨s.data ++ [c], by
      rw [List.length_append, List.length_singleton]
      exact h⟩
  else .error .lengthError

theorem find_some {s : ByteString} {c : UInt8} {pos j : Nat} (h : s.find c pos = some j) :
    ∃ front rest, s.data.drop pos = front ++ c :: rest ∧ c ∉ front ∧ j = pos + front.length := by
  obtain ⟨k, hk, rfl⟩ := Option.map_eq_some_iff.mp h
  obtain ⟨hlt, hc, hbefore⟩ := List.findIdx?_eq_some_iff_getElem.mp hk
  refine ⟨(s.data.drop pos).take k, (s.data.drop pos).drop (k + 1), ?_, ?_, ?_⟩
  · have hget : (s.data.drop pos)[k] = c := by simpa using hc
    rw [← hget, ← List.drop_eq_getElem_cons hlt, List.take_append_drop]
  · intro hmem
    obtain ⟨i, hi, hget⟩ := List.mem_take_iff_getElem.mp hmem
    have hne := hbefore i (by omega)
    rw [hget, beq_self_eq_true] at hne
    exact hne rfl
  · rw [List.length_take]
    omega

theorem find_none {s : ByteString} {c : UInt8} {pos : Nat} (h : s.find c pos = none) : c ∉ s.data.drop pos := by
  intro hmem
  have hnone := List.findIdx?_eq_none_iff.mp (Option.map_eq_none_iff.mp h) c hmem
  rw [beq_self_eq_true] at hnone
  cases hnone

theorem find_lt {s : ByteString} {c : UInt8} {pos j : Nat} (h : s.find c pos = some j) :
    pos ≤ j ∧ j < s.data.length := by
  obtain ⟨front, rest, hdrop, _, hj⟩ := find_some h
  have hlength := congrArg List.length hdrop
  rw [List.length_drop, List.length_append, List.length_cons] at hlength
  omega

theorem substr_ok {s : ByteString} {pos : Nat} (count : Nat) (h : pos ≤ s.data.length) :
    ∃ piece, s.substr pos count = .ok piece ∧ piece.data = (s.data.drop pos).take count := by
  rw [substr, if_pos h]
  exact ⟨_, rfl, rfl⟩

/-- Characters that fit are all appended. -/
theorem foldlM_pushBack {bytes : List UInt8} (s : ByteString) (h : s.data.length + bytes.length ≤ stringMaxSize) :
    ∃ t, bytes.foldlM pushBack s = .ok t ∧ t.data = s.data ++ bytes := by
  induction bytes generalizing s with
  | nil => exact ⟨s, rfl, (List.append_nil _).symm⟩
  | cons c bytes ih =>
    rw [List.length_cons] at h
    have hroom : s.data.length < stringMaxSize := by omega
    obtain ⟨next, hpush, hnext⟩ : ∃ next, s.pushBack c = .ok next ∧ next.data = s.data ++ [c] := by
      rw [pushBack, dif_pos hroom]
      exact ⟨_, rfl, rfl⟩
    obtain ⟨t, hrest, ht⟩ := ih next (by rw [hnext, List.length_append, List.length_singleton]; omega)
    refine ⟨t, ?_, by rw [ht, hnext, List.append_assoc]; rfl⟩
    rw [List.foldlM_cons, hpush]
    exact hrest

end ByteString
