import Mathlib.Algebra.Order.Ring.Nat

namespace WordBytes

/-- The lowest `width` bytes of a number, least significant first. -/
def split : Nat → Nat → List UInt8
  | 0, _ => []
  | width + 1, n => UInt8.ofNat n :: split width (n / 256)

/-- The number whose bytes are given, least significant first. -/
def join : List UInt8 → Nat
  | [] => 0
  | byte :: bytes => byte.toNat + 256 * join bytes

@[simp] theorem split_length (width n : Nat) : (split width n).length = width := by
  induction width generalizing n with
  | zero => rfl
  | succ width ih => simp [split, ih]

theorem join_lt (bytes : List UInt8) : join bytes < 256 ^ bytes.length := by
  induction bytes with
  | nil => simp [join]
  | cons byte bytes ih =>
    have hb := byte.toNat_lt
    simp only [join, List.length_cons, Nat.pow_succ]
    omega

theorem join_split {width n : Nat} (hn : n < 256 ^ width) : join (split width n) = n := by
  induction width generalizing n with
  | zero => simp at hn; simp [split, join, hn]
  | succ width ih =>
    have hq : n / 256 < 256 ^ width := by
      rw [Nat.pow_succ] at hn
      exact Nat.div_lt_of_lt_mul (by omega)
    have hlow : (UInt8.ofNat n).toNat = n % 256 := by simp
    simp only [split, join, ih hq, hlow]
    omega

theorem split_join {width : Nat} {bytes : List UInt8} (hl : bytes.length = width) :
    split width (join bytes) = bytes := by
  induction bytes generalizing width with
  | nil => cases hl; rfl
  | cons byte bytes ih =>
    have hb := byte.toNat_lt
    subst hl
    have hq : (byte.toNat + 256 * join bytes) / 256 = join bytes := by omega
    have hlow : UInt8.ofNat (byte.toNat + 256 * join bytes) = byte := by
      apply UInt8.toNat_inj.mp
      simp only [UInt8.toNat_ofNat']
      omega
    simp only [List.length_cons, split, join, hq, hlow, ih rfl]

end WordBytes
