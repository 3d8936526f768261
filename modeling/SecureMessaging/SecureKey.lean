import SecureMessaging.Lib.BlockChaining
import SecureMessaging.Lib.Containers
import SecureMessaging.Sinks

namespace SecureMessaging

/-- `SecureKey::BlockSize`. -/
def blockSize : UInt64 := 16

abbrev AesBlock := Block 16

/-- A `SecByteBlock` of 32 bytes. -/
abbrev KeyBytes := Block 32

/-- What `KeyAgreement` and `SecureKey` take from CryptoPP: `PublicKeyLength`, the key pairs that
`GenerateKeyPair` can make, `Agree` (none if it fails), `DeriveKey` for 32 bytes, and AES under a key
in both directions. -/
structure CryptoLibrary where
  publicKeyLength : Nat
  generates : List UInt8 → List UInt8 → Prop
  agree : List UInt8 → List UInt8 → Option (List UInt8)
  deriveKey : List UInt8 → List UInt8 → List UInt8 → KeyBytes
  aesEncryption : KeyBytes → AesBlock → AesBlock
  aesDecryption : KeyBytes → AesBlock → AesBlock

/-- Agreement of generated key pairs succeeds and is symmetric, and AES decrypts what it encrypted. -/
structure CryptoLibrary.Sound (lib : CryptoLibrary) : Prop where
  agreement : ∀ privateKey publicKey privateKey' publicKey', lib.generates privateKey publicKey →
    lib.generates privateKey' publicKey' → ∃ shared, lib.agree privateKey publicKey' = some shared ∧
      lib.agree privateKey' publicKey = some shared
  permutation : ∀ key block, lib.aesDecryption key (lib.aesEncryption key block) = block

structure SecureKey where
  value : KeyBytes

/-- The memory at `dest` and what `TotalPutLength` returned. -/
structure Written where
  dest : List UInt8
  length : UInt64

namespace SecureKey

/-- `random` is what `GenerateBlock` puts into `iv`. -/
def encrypt (lib : CryptoLibrary) (key : SecureKey) (dest src : List UInt8) (destBlocks srcBlocks : UInt64)
    (random : AesBlock) : Written × AesBlock :=
  let srcSize := srcBlocks * blockSize
  let destSize := destBlocks * blockSize
  let iv := random
  let sink := ArraySink.new dest destSize.toNat
  let sink := sink.put (cbcEncrypt 16 (lib.aesEncryption key.value) iv (src.take srcSize.toNat))
  (⟨sink.memory, UInt64.ofNat sink.totalPutLength⟩, iv)

/-- None if the filter throws `InvalidCiphertext`. -/
def decrypt (lib : CryptoLibrary) (key : SecureKey) (dest src : List UInt8) (destBlocks srcBlocks : UInt64)
    (iv : AesBlock) : Option Written :=
  let srcSize := srcBlocks * blockSize
  let destSize := destBlocks * blockSize
  let sink := ArraySink.new dest destSize.toNat
  match cbcDecrypt 16 (lib.aesDecryption key.value) iv (src.take srcSize.toNat) with
  | some plaintext =>
    let sink := sink.put plaintext
    some ⟨sink.memory, UInt64.ofNat sink.totalPutLength⟩
  | none => none

theorem bytes_toNat {blocks : UInt64} (h : blocks.toNat * 16 < 2 ^ 64) :
    (blocks * blockSize).toNat = blocks.toNat * 16 := by
  have hsize : blockSize.toNat = 16 := rfl
  rw [UInt64.toNat_mul, hsize]
  exact Nat.mod_eq_of_lt h

/-- A sink with room for everything. -/
theorem put_new {dest bytes : List UInt8} {size : Nat} (hfits : bytes.length ≤ size) (hsize : size ≤ dest.length) :
    (ArraySink.new dest size).put bytes =
      ⟨bytes ++ dest.drop bytes.length, size, bytes.length⟩ := by
  have hput : 0 + bytes.length ≤ size := by omega
  have hcopy : 0 + bytes.length ≤ dest.length := by omega
  have hall : (ArraySink.new dest size).put bytes =
      ⟨dest.overwrite 0 bytes, size, 0 + bytes.length⟩ := ArraySink.put_fits hput
  rw [hall, List.overwrite_eq_take_drop hcopy, Nat.zero_add, List.take_zero, List.nil_append]

variable {lib : CryptoLibrary} {key : SecureKey} {dest src : List UInt8} {destBlocks srcBlocks : UInt64} {iv : AesBlock}

/-- There is one block more in the ciphertext than in the plaintext. -/
theorem ciphertext_length (hsrc : srcBlocks.toNat * 16 ≤ src.length) :
    (cbcEncrypt 16 (lib.aesEncryption key.value) iv (src.take (srcBlocks.toNat * 16))).length =
      (srcBlocks.toNat + 1) * 16 := by
  have htake : (src.take (srcBlocks.toNat * 16)).length = srcBlocks.toNat * 16 := List.length_take_of_le hsrc
  rw [cbcEncrypt_length (by decide), htake, Nat.mul_div_cancel _ (by decide)]

theorem encrypt_fills (hsrc : srcBlocks.toNat * 16 ≤ src.length) (hroom : srcBlocks.toNat + 1 ≤ destBlocks.toNat)
    (hsize : destBlocks.toNat * 16 < 2 ^ 64) (hdest : destBlocks.toNat * 16 ≤ dest.length) :
    key.encrypt lib dest src destBlocks srcBlocks iv =
      (⟨cbcEncrypt 16 (lib.aesEncryption key.value) iv (src.take (srcBlocks.toNat * 16)) ++
          dest.drop ((srcBlocks.toNat + 1) * 16),
        UInt64.ofNat ((srcBlocks.toNat + 1) * 16)⟩, iv) := by
  have hlength : (cbcEncrypt 16 (lib.aesEncryption key.value) iv (src.take (srcBlocks.toNat * 16))).length =
      (srcBlocks.toNat + 1) * 16 := ciphertext_length hsrc
  have hfits : (cbcEncrypt 16 (lib.aesEncryption key.value) iv (src.take (srcBlocks.toNat * 16))).length ≤
      destBlocks.toNat * 16 := by omega
  unfold encrypt
  dsimp only
  rw [bytes_toNat hsize, bytes_toNat (by omega), put_new hfits hdest, hlength]
  rfl

theorem decrypt_returns (hlib : lib.Sound) {rest plaintext : List UInt8}
    (hplain : plaintext.length = srcBlocks.toNat * 16)
    (hsrc : src = cbcEncrypt 16 (lib.aesEncryption key.value) iv plaintext ++ rest)
    (hblocks : (srcBlocks.toNat + 1) * 16 < 2 ^ 64) (hroom : srcBlocks.toNat ≤ destBlocks.toNat)
    (hsize : destBlocks.toNat * 16 < 2 ^ 64) (hdest : destBlocks.toNat * 16 ≤ dest.length) :
    key.decrypt lib dest src destBlocks (srcBlocks + 1) iv =
      some ⟨plaintext ++ dest.drop (srcBlocks.toNat * 16), UInt64.ofNat (srcBlocks.toNat * 16)⟩ := by
  have hlength : (cbcEncrypt 16 (lib.aesEncryption key.value) iv plaintext).length = (srcBlocks.toNat + 1) * 16 := by
    rw [cbcEncrypt_length (by decide), hplain, Nat.mul_div_cancel _ (by decide)]
  have hone : (srcBlocks + 1).toNat = srcBlocks.toNat + 1 := by
    have h1 : (1 : UInt64).toNat = 1 := rfl
    rw [UInt64.toNat_add, h1]
    exact Nat.mod_eq_of_lt (by omega)
  have hbytes : ((srcBlocks + 1) * blockSize).toNat = (srcBlocks.toNat + 1) * 16 := by
    rw [bytes_toNat (by rw [hone]; exact hblocks), hone]
  have htake : src.take ((srcBlocks.toNat + 1) * 16) = cbcEncrypt 16 (lib.aesEncryption key.value) iv plaintext := by
    rw [hsrc]
    exact List.take_left' hlength
  have hfits : plaintext.length ≤ destBlocks.toNat * 16 := by omega
  unfold decrypt
  dsimp only
  rw [bytes_toNat hsize, hbytes, htake, cbcDecrypt_cbcEncrypt (by decide) (by decide) (hlib.permutation key.value)]
  dsimp only
  rw [put_new hfits hdest, hplain]
  rfl

end SecureKey

end SecureMessaging
