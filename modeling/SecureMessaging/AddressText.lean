import SecureMessaging.Lib.Decimal
import SecureMessaging.Lib.Splitting
import SecureMessaging.Sockets

namespace SecureMessaging

namespace IpAddress

/-- The constructor from four bytes. -/
def ofBytes (byte1 byte2 byte3 byte4 : UInt8) : IpAddress :=
  ⟨byte1.toUInt32 <<< 24 ||| byte2.toUInt32 <<< 16 ||| byte3.toUInt32 <<< 8 ||| byte4.toUInt32 <<< 0⟩

/-- The byte that `ToString` casts out of the value. -/
def byte (address : IpAddress) (shift : UInt32) : UInt8 := (address.value >>> shift).toUInt8

/-- `ToString`. -/
def text (address : IpAddress) : List UInt8 :=
  decimal (address.byte 24).toNat ++ asciiBytes "." ++ decimal (address.byte 16).toNat ++ asciiBytes "." ++
    decimal (address.byte 8).toNat ++ asciiBytes "." ++ decimal (address.byte 0).toNat

def dot : UInt8 := 46

/-- Reads four numbers with dots between them. -/
def ofText (text : List UInt8) : Option IpAddress :=
  match (text.pieces dot).map decimalValue with
  | [a, b, c, d] => some (ofBytes (UInt8.ofNat a) (UInt8.ofNat b) (UInt8.ofNat c) (UInt8.ofNat d))
  | _ => none

variable (address : IpAddress) (b₁ b₂ b₃ b₄ : UInt8)

theorem ofBytes_byte : ofBytes (address.byte 24) (address.byte 16) (address.byte 8) (address.byte 0) = address := by
  suffices h : (ofBytes (address.byte 24) (address.byte 16) (address.byte 8) (address.byte 0)).value = address.value by
    cases address
    exact congrArg IpAddress.mk h
  apply UInt32.eq_of_toBitVec_eq
  ext i hi
  simp only [ofBytes, byte, UInt32.shiftRight_zero, UInt32.shiftLeft_zero, UInt32.toBitVec_or,
    UInt32.toBitVec_shiftLeft, UInt8.toBitVec_toUInt32, UInt32.toBitVec_toUInt8, UInt32.toBitVec_shiftRight,
    UInt32.toBitVec_ofNat, BitVec.ofNat_eq_ofNat, BitVec.reduceMod, BitVec.ushiftRight_eq', BitVec.toNat_ofNat,
    Nat.reducePow, Nat.reduceMod, BitVec.shiftLeft_eq', BitVec.getElem_or, BitVec.getElem_shiftLeft,
    BitVec.getElem_setWidth, BitVec.getLsbD_setWidth, BitVec.getLsbD_ushiftRight]
  grind

theorem byte_ofBytes : (ofBytes b₁ b₂ b₃ b₄).byte 24 = b₁ ∧ (ofBytes b₁ b₂ b₃ b₄).byte 16 = b₂ ∧
    (ofBytes b₁ b₂ b₃ b₄).byte 8 = b₃ ∧ (ofBytes b₁ b₂ b₃ b₄).byte 0 = b₄ := by
  refine ⟨?_, ?_, ?_, ?_⟩
  all_goals
    apply UInt8.eq_of_toBitVec_eq
    ext i hi
    simp only [byte, ofBytes, UInt32.toBitVec_toUInt8, UInt32.toBitVec_shiftRight, UInt32.toBitVec_or,
      UInt32.toBitVec_shiftLeft, UInt8.toBitVec_toUInt32, UInt32.toBitVec_ofNat, BitVec.ofNat_eq_ofNat,
      BitVec.reduceMod, BitVec.shiftLeft_eq', BitVec.ushiftRight_eq', BitVec.toNat_ofNat, Nat.reducePow,
      Nat.reduceMod, BitVec.getElem_setWidth, BitVec.getLsbD_ushiftRight, BitVec.getLsbD_or,
      BitVec.getLsbD_shiftLeft, BitVec.getLsbD_setWidth]
    grind

theorem dot_not_mem (n : Nat) : dot ∉ decimal n := by
  intro hmem
  have hrange := decimal_digit hmem
  exact absurd hrange.1 (by decide)

theorem pieces_text : address.text.pieces dot = [decimal (address.byte 24).toNat, decimal (address.byte 16).toNat,
    decimal (address.byte 8).toNat, decimal (address.byte 0).toNat] := by
  have hdot : asciiBytes "." = [dot] := by decide
  simp only [text, hdot, List.append_assoc, List.cons_append, List.nil_append]
  rw [List.pieces_append (dot_not_mem _), List.pieces_append (dot_not_mem _), List.pieces_append (dot_not_mem _),
    List.pieces_of_not_mem (dot_not_mem _), if_neg (decimal_ne_nil _)]

/-- The text of an address determines it, and is that of the bytes it was made of. -/
theorem text_read_back : (∀ address : IpAddress, ofText address.text = some address) ∧
    ∀ b₁ b₂ b₃ b₄ : UInt8, (ofBytes b₁ b₂ b₃ b₄).text =
      List.intercalate [dot] ([b₁, b₂, b₃, b₄].map fun b => decimal b.toNat) := by
  refine ⟨?_, ?_⟩
  · intro address
    have hnumbers : (address.text.pieces dot).map decimalValue = [(address.byte 24).toNat, (address.byte 16).toNat,
        (address.byte 8).toNat, (address.byte 0).toNat] := by
      rw [pieces_text]
      simp only [List.map_cons, List.map_nil, decimalValue_decimal]
    simp only [ofText, hnumbers, UInt8.ofNat_toNat, ofBytes_byte]
  · intro b₁ b₂ b₃ b₄
    obtain ⟨h₁, h₂, h₃, h₄⟩ := byte_ofBytes b₁ b₂ b₃ b₄
    have hdot : asciiBytes "." = [dot] := by decide
    rw [text, h₁, h₂, h₃, h₄, hdot]
    simp [List.intercalate]

end IpAddress

end SecureMessaging
