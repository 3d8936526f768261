import SecureMessaging.SecureKey

namespace SecureMessaging

/-- The key pair is one that `GenerateKeyPair` made, and both public keys have their memory. -/
structure KeyAgreement (lib : CryptoLibrary) where
  privateKey : List UInt8
  publicKey : List UInt8
  otherKey : List UInt8
  salt : List UInt8
  generated : lib.generates privateKey publicKey
  publicKey_length : publicKey.length = lib.publicKeyLength
  otherKey_length : otherKey.length = lib.publicKeyLength

namespace KeyAgreement

variable {lib : CryptoLibrary}

/-- `memory` is what the other key's memory holds before anything is written to it. -/
def new (privateKey publicKey memory : List UInt8) (hpair : lib.generates privateKey publicKey)
    (hpublic : publicKey.length = lib.publicKeyLength) (hother : memory.length = lib.publicKeyLength) :
    KeyAgreement lib :=
  ⟨privateKey, publicKey, memory, [], hpair, hpublic, hother⟩

def getPublicKey (agreement : KeyAgreement lib) : List UInt8 := agreement.publicKey

/-- What is copied to the pointer from `GetOtherKey`. -/
def setOtherKey (agreement : KeyAgreement lib) (bytes : List UInt8) : KeyAgreement lib :=
  { agreement with
    otherKey := agreement.otherKey.overwrite 0 bytes
    otherKey_length := by rw [List.overwrite_length]; exact agreement.otherKey_length }

/-- `ResizeSalt`, with what the new memory holds. -/
def resizeSalt (agreement : KeyAgreement lib) (memory : List UInt8) : KeyAgreement lib :=
  { agreement with salt := memory }

/-- What is copied to the pointer from `GetSalt`; `GenerateSalt` puts random bytes there. -/
def setSalt (agreement : KeyAgreement lib) (bytes : List UInt8) : KeyAgreement lib :=
  { agreement with salt := agreement.salt.overwrite 0 bytes }

def info : List UInt8 := asciiBytes "secure messaging"

def agree (agreement : KeyAgreement lib) : Option SecureKey :=
  match lib.agree agreement.privateKey agreement.otherKey with
  | none => none
  | some shared => some ⟨lib.deriveKey shared agreement.salt info⟩

/-- Each side holds the public key of the other, and the salts are equal. -/
structure Mirrored (a b : KeyAgreement lib) : Prop where
  other : a.otherKey = b.publicKey
  other' : b.otherKey = a.publicKey
  salt : a.salt = b.salt

theorem setOtherKey_whole (a b : KeyAgreement lib) : (a.setOtherKey b.getPublicKey).otherKey = b.publicKey :=
  List.overwrite_whole (b.publicKey_length.trans a.otherKey_length.symm)

/-- Copying the public keys across and a salt into memory of its size leaves the sides mirrored. -/
theorem mirrored_exchange (a b : KeyAgreement lib) {salt memory : List UInt8} (h : salt.length = memory.length) :
    Mirrored ((a.setOtherKey b.getPublicKey).resizeSalt salt)
      (((b.setOtherKey a.getPublicKey).resizeSalt memory).setSalt salt) :=
  ⟨setOtherKey_whole a b, setOtherKey_whole b a, (List.overwrite_whole h).symm⟩

/-- Both sides derive the same key. -/
theorem agree_mirrored {a b : KeyAgreement lib} (hlib : lib.Sound) (h : Mirrored a b) :
    ∃ key, a.agree = some key ∧ b.agree = some key := by
  obtain ⟨shared, ha, hb⟩ := hlib.agreement a.privateKey a.publicKey b.privateKey b.publicKey a.generated b.generated
  refine ⟨⟨lib.deriveKey shared a.salt info⟩, ?_, ?_⟩
  · rw [agree, h.other, ha]
  · rw [agree, h.other', hb, h.salt]

end KeyAgreement

/-- Memory of so many blocks. -/
structure HasBlocks (memory : List UInt8) (blocks : UInt64) : Prop where
  addressable : blocks.toNat * 16 < 2 ^ 64
  allocated : blocks.toNat * 16 ≤ memory.length

/-- A call that fills the first so many blocks of `dest` with the bytes, and nothing behind them. -/
structure Written.Fills (written : Written) (dest : List UInt8) (blocks : Nat) (bytes : List UInt8) : Prop where
  length : written.length.toNat = blocks * 16
  filled : written.dest.take (blocks * 16) = bytes
  whole : bytes.length = blocks * 16
  behind : written.dest.drop (blocks * 16) = dest.drop (blocks * 16)

theorem Written.fills_append {dest bytes : List UInt8} {blocks : Nat} (hbytes : bytes.length = blocks * 16)
    (hblocks : blocks * 16 < 2 ^ 64) :
    Written.Fills ⟨bytes ++ dest.drop (blocks * 16), UInt64.ofNat (blocks * 16)⟩ dest blocks bytes where
  length := UInt64.toNat_ofNat_of_lt' hblocks
  filled := List.take_left' hbytes
  whole := hbytes
  behind := List.drop_left' hbytes

/-- Whoever agrees on a key can talk: the ciphertext takes one block more than the plaintext, and
wherever its blocks are copied to, the other side gets the plaintext back. -/
theorem parties_talk {lib : CryptoLibrary} (hlib : lib.Sound) (a b : KeyAgreement lib)
    (hother : a.otherKey = b.publicKey) (hother' : b.otherKey = a.publicKey) (hsalt : a.salt = b.salt) :
    ∃ keyA keyB, a.agree = some keyA ∧ b.agree = some keyB ∧
      ∀ (src dest : List UInt8) (n destBlocks : UInt64) (iv : AesBlock), HasBlocks src n →
        HasBlocks dest destBlocks → n.toNat + 1 ≤ destBlocks.toNat →
        ∃ sent ciphertext, keyA.encrypt lib dest src destBlocks n iv = (sent, iv) ∧
          sent.Fills dest (n.toNat + 1) ciphertext ∧
          ∀ (src' dest' : List UInt8) (destBlocks' : UInt64), ciphertext <+: src' → HasBlocks dest' destBlocks' →
            n.toNat ≤ destBlocks'.toNat →
            ∃ received, keyB.decrypt lib dest' src' destBlocks' (n + 1) iv = some received ∧
              received.Fills dest' n.toNat (src.take (n.toNat * 16)) := by
  obtain ⟨key, ha, hb⟩ := KeyAgreement.agree_mirrored hlib ⟨hother, hother', hsalt⟩
  refine ⟨key, key, ha, hb, ?_⟩
  intro src dest n destBlocks iv hsrc hdest hroom
  have hplain : (src.take (n.toNat * 16)).length = n.toNat * 16 := List.length_take_of_le hsrc.allocated
  have hblocks : (n.toNat + 1) * 16 < 2 ^ 64 := by
    have hsize := hdest.addressable
    omega
  refine ⟨_, _, SecureKey.encrypt_fills hsrc.allocated hroom hdest.addressable hdest.allocated,
    Written.fills_append (SecureKey.ciphertext_length hsrc.allocated) hblocks, ?_⟩
  intro src' dest' destBlocks' hcopied hdest' hroom'
  obtain ⟨rest, hrest⟩ := hcopied
  refine ⟨_, SecureKey.decrypt_returns hlib hplain hrest.symm hblocks hroom' hdest'.addressable hdest'.allocated, ?_⟩
  exact Written.fills_append hplain hsrc.addressable

/-- Multiples of 3 as public keys, and a cipher that combines a block with the first half of the key. -/
def multipleLibrary : CryptoLibrary where
  publicKeyLength := 1
  generates privateKey publicKey := ∃ k : UInt8, privateKey = [k] ∧ publicKey = [k * 3]
  agree privateKey otherKey :=
    match privateKey, otherKey with
    | [k], [y] => some [k * y]
    | _, _ => none
  deriveKey shared salt info := Block.ofBytes 32 (shared ++ salt ++ info)
  aesEncryption key block := block.xor (Block.ofBytes 16 key.val)
  aesDecryption key block := block.xor (Block.ofBytes 16 key.val)

theorem multipleLibrary_sound : multipleLibrary.Sound where
  agreement := by
    rintro _ _ _ _ ⟨k, rfl, rfl⟩ ⟨k', rfl, rfl⟩
    have hswap : k' * (k * 3) = k * (k' * 3) := by
      rw [← UInt8.mul_assoc, UInt8.mul_comm k' k, UInt8.mul_assoc]
    exact ⟨[k * (k' * 3)], rfl, congrArg (fun shared => some [shared]) hswap⟩
  permutation key block := block.xor_cancel (Block.ofBytes 16 key.val)

def multipleAgreement (k : UInt8) (memory : List UInt8) (h : memory.length = 1) : KeyAgreement multipleLibrary :=
  let agreement : KeyAgreement multipleLibrary := KeyAgreement.new [k] [k * 3] memory ⟨k, rfl, rfl⟩ rfl h
  agreement.resizeSalt (asciiBytes "salt")

/-- Private keys 5 and 7, and a plaintext of two blocks. -/
theorem parties_talk_multiples : ∃ keyA keyB,
    (multipleAgreement 5 [21] rfl).agree = some keyA ∧ (multipleAgreement 7 [15] rfl).agree = some keyB ∧
    ∃ sent received iv,
      keyA.encrypt multipleLibrary (List.replicate 64 0) (asciiBytes "Two whole blocks of a plaintext.") 4 2 iv =
        (sent, iv) ∧ sent.length = 48 ∧
      keyB.decrypt multipleLibrary (List.replicate 32 0) sent.dest 2 3 iv = some received ∧
      received.dest = asciiBytes "Two whole blocks of a plaintext." := by
  obtain ⟨keyA, keyB, ha, hb, htalk⟩ := parties_talk multipleLibrary_sound (multipleAgreement 5 [21] rfl)
    (multipleAgreement 7 [15] rfl) rfl rfl rfl
  obtain ⟨sent, ciphertext, hsent, hfills, hback⟩ := htalk (asciiBytes "Two whole blocks of a plaintext.")
    (List.replicate 64 0) 2 4 (Block.ofBytes 16 []) ⟨by decide, by decide⟩ ⟨by decide, by decide⟩ (by decide)
  have hcopied : ciphertext <+: sent.dest := by
    rw [← hfills.filled]
    exact List.take_prefix _ _
  obtain ⟨received, hreceived, hplain⟩ := hback sent.dest (List.replicate 32 0) 2 hcopied
    ⟨by decide, by decide⟩ (by decide)
  refine ⟨keyA, keyB, ha, hb, sent, received, _, hsent, UInt64.toNat_inj.mp hfills.length, hreceived, ?_⟩
  have hnone : received.dest.drop 32 = [] := hplain.behind
  have hall : received.dest.take 32 = received.dest := List.take_of_length_le (List.drop_eq_nil_iff.mp hnone)
  exact hall.symm.trans hplain.filled

end SecureMessaging
