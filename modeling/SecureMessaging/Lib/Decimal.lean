import Mathlib.Tactic.IntervalCases
import SecureMessaging.Lib.Containers

/-- `std::to_string`, which is also what `operator<<` of a stream writes. -/
def decimal (n : Int) : List UInt8 := asciiBytes (toString n)

/-- The number that some digits stand for. -/
def decimalValue (digits : List UInt8) : Nat := Nat.ofDigitChars 10 (digits.map fun d => Char.ofNat d.toNat) 0

theorem decimal_natCast (n : Nat) : decimal n = (Nat.toDigits 10 n).map fun c => UInt8.ofNat c.toNat := by
  have hstring : toString (n : Int) = toString n := rfl
  rw [decimal, hstring, Nat.toString_eq_repr, asciiBytes, Nat.toList_repr]

theorem digit_range {c : Char} (h : c.isDigit = true) : 48 ≤ c.toNat ∧ c.toNat ≤ 57 := by
  simp only [Char.isDigit, Bool.and_eq_true, decide_eq_true_eq] at h
  exact h

theorem decimalValue_decimal (n : Nat) : decimalValue (decimal n) = n := by
  have hback : ∀ c ∈ Nat.toDigits 10 n, Char.ofNat (UInt8.ofNat c.toNat).toNat = c := by
    intro c hc
    obtain ⟨_, hhigh⟩ := digit_range (Nat.isDigit_of_mem_toDigits (by decide) (by decide) hc)
    have hbyte : (UInt8.ofNat c.toNat).toNat = c.toNat := by
      rw [UInt8.toNat_ofNat']
      omega
    rw [hbyte, Char.ofNat_toNat]
  have hmap : ((Nat.toDigits 10 n).map fun c => UInt8.ofNat c.toNat).map (fun d => Char.ofNat d.toNat) =
      Nat.toDigits 10 n := by
    rw [List.map_map]
    exact (List.map_congr_left hback).trans (List.map_id' _)
  rw [decimalValue, decimal_natCast, hmap, Nat.ofDigitChars_ten_toDigits]

theorem decimal_digit {n : Nat} {d : UInt8} (h : d ∈ decimal n) : 48 ≤ d.toNat ∧ d.toNat ≤ 57 := by
  rw [decimal_natCast] at h
  obtain ⟨c, hc, rfl⟩ := List.mem_map.mp h
  obtain ⟨hlow, hhigh⟩ := digit_range (Nat.isDigit_of_mem_toDigits (by decide) (by decide) hc)
  rw [UInt8.toNat_ofNat']
  omega

theorem decimal_ne_nil (n : Nat) : decimal n ≠ [] := by
  rw [decimal_natCast]
  intro hnil
  exact Nat.toDigits_ne_nil (List.map_eq_nil_iff.mp hnil)

theorem digitChar_toNat {n : Nat} (h : n < 10) : n.digitChar.toNat = 48 + n := by
  interval_cases n <;> rfl

theorem decimal_one {n : Nat} (h : n < 10) : decimal n = [UInt8.ofNat (48 + n)] := by
  rw [decimal_natCast, Nat.toDigits_of_lt_base h, List.map_singleton, digitChar_toNat h]

theorem decimal_two {n : Nat} (hlow : 10 ≤ n) (hhigh : n < 100) :
    decimal n = [UInt8.ofNat (48 + n / 10), UInt8.ofNat (48 + n % 10)] := by
  have htens : n / 10 < 10 := by omega
  have hones : n % 10 < 10 := Nat.mod_lt _ (by decide)
  rw [decimal_natCast, Nat.toDigits_of_base_le (by decide) hlow, Nat.toDigits_of_lt_base htens]
  simp only [List.singleton_append, List.map_cons, List.map_nil, digitChar_toNat htens, digitChar_toNat hones]
