import SecureMessaging.KeyAgreement

namespace SecureMessaging

/-- What fills all of the memory is the memory. -/
theorem Written.Fills.whole_dest {written : Written} {dest bytes : List UInt8} {blocks : Nat}
    (h : written.Fills dest blocks bytes) (hdest : dest.length = blocks * 16) : written.dest = bytes := by
  have hnone : written.dest.drop (blocks * 16) = [] := by
    rw [h.behind]
    exact List.drop_eq_nil_of_le (Nat.le_of_eq hdest)
  have hall : written.dest.take (blocks * 16) = written.dest :=
    List.take_of_length_le (List.drop_eq_nil_iff.mp hnone)
  exact hall.symm.trans h.filled

namespace SecureKey

variable {lib : CryptoLibrary} {key : SecureKey} {src dest : List UInt8} {n destBlocks : UInt64}

theorem encrypt_filled (lib : CryptoLibrary) (key : SecureKey) (iv : AesBlock) (hsrc : HasBlocks src n)
    (hdest : HasBlocks dest destBlocks) (hroom : n.toNat + 1 ≤ destBlocks.toNat) :
    ∃ sent, key.encrypt lib dest src destBlocks n iv = (sent, iv) ∧
      sent.Fills dest (n.toNat + 1) (cbcEncrypt 16 (lib.aesEncryption key.value) iv (src.take (n.toNat * 16))) := by
  have hblocks : (n.toNat + 1) * 16 < 2 ^ 64 := by
    have hsize := hdest.addressable
    omega
  exact ⟨_, encrypt_fills hsrc.allocated hroom hdest.addressable hdest.allocated,
    Written.fills_append (ciphertext_length hsrc.allocated) hblocks⟩

/-- What begins with the ciphertext of some whole blocks is decrypted to them, whoever made it. -/
theorem decrypt_filled (hlib : lib.Sound) {plaintext : List UInt8} {iv : AesBlock}
    (hplain : plaintext.length = n.toNat * 16) (hblocks : (n.toNat + 1) * 16 < 2 ^ 64)
    (hcopied : cbcEncrypt 16 (lib.aesEncryption key.value) iv plaintext <+: src) (hdest : HasBlocks dest destBlocks)
    (hroom : n.toNat ≤ destBlocks.toNat) :
    ∃ received, key.decrypt lib dest src destBlocks (n + 1) iv = some received ∧
      received.Fills dest n.toNat plaintext := by
  obtain ⟨rest, hrest⟩ := hcopied
  refine ⟨_, decrypt_returns hlib hplain hrest.symm hblocks hroom hdest.addressable hdest.allocated, ?_⟩
  exact Written.fills_append hplain (by omega)

end SecureKey

/-- Who changes bits of the initialization vector on the way changes the same bits of the first block of the
plaintext and nothing else, without the key, and `Decrypt` does not notice it. -/
theorem tampering_unnoticed {lib : CryptoLibrary} (hlib : lib.Sound) (key : SecureKey) {src dest : List UInt8}
    {n destBlocks : UInt64} (iv change : AesBlock) (hsrc : HasBlocks src n) (hdest : HasBlocks dest destBlocks)
    (hn : 0 < n.toNat) (hroom : n.toNat + 1 ≤ destBlocks.toNat) :
    ∃ sent ciphertext, key.encrypt lib dest src destBlocks n iv = (sent, iv) ∧
      sent.Fills dest (n.toNat + 1) ciphertext ∧
      ∀ (src' dest' : List UInt8) (destBlocks' : UInt64), ciphertext <+: src' → HasBlocks dest' destBlocks' →
        n.toNat ≤ destBlocks'.toNat →
        ∃ received, key.decrypt lib dest' src' destBlocks' (n + 1) (iv.xor change) = some received ∧
          received.Fills dest' n.toNat (changeFirst 16 change (src.take (n.toNat * 16))) := by
  have hplain : (src.take (n.toNat * 16)).length = n.toNat * 16 := List.length_take_of_le hsrc.allocated
  have hfirst : 16 ≤ (src.take (n.toNat * 16)).length := by omega
  have hsize := hdest.addressable
  have hchanged : (changeFirst 16 change (src.take (n.toNat * 16))).length = n.toNat * 16 :=
    (changeFirst_length change hfirst).trans hplain
  obtain ⟨sent, hsent, hfills⟩ := SecureKey.encrypt_filled lib key iv hsrc hdest hroom
  refine ⟨sent, _, hsent, hfills, ?_⟩
  intro src' dest' destBlocks' hcopied hdest' hroom'
  rw [← cbcEncrypt_changeFirst (by decide) iv change hfirst] at hcopied
  exact SecureKey.decrypt_filled hlib hchanged (by omega) hcopied hdest' hroom'

/-- One bit that makes an "a" out of the first capital letter. -/
theorem tampering_unnoticed_capital : ∃ key : SecureKey, ∃ sent received iv change,
    key.encrypt multipleLibrary (List.replicate 48 0) (asciiBytes "A single block.!") 3 1 iv = (sent, iv) ∧
    key.decrypt multipleLibrary (List.replicate 16 0) sent.dest 1 2 (iv.xor change) = some received ∧
    received.dest = asciiBytes "a single block.!" := by
  obtain ⟨sent, ciphertext, hsent, hfills, hback⟩ := tampering_unnoticed multipleLibrary_sound
    ⟨Block.ofBytes 32 [5]⟩ (Block.ofBytes 16 []) (Block.ofBytes 16 [32])
    (⟨by decide, by decide⟩ : HasBlocks (asciiBytes "A single block.!") 1)
    (⟨by decide, by decide⟩ : HasBlocks (List.replicate 48 0) 3) (by decide) (by decide)
  have hcopied : ciphertext <+: sent.dest := by
    rw [← hfills.filled]
    exact List.take_prefix _ _
  obtain ⟨received, hreceived, hplain⟩ := hback sent.dest (List.replicate 16 0) 1 hcopied
    ⟨by decide, by decide⟩ (by decide)
  have hdest := hplain.whole_dest (by decide)
  exact ⟨_, sent, received, _, _, hsent, hreceived, hdest.trans (by decide)⟩

/-- Who takes blocks away from the front of a ciphertext and gives the last of them as the initialization vector
takes the same blocks away from the plaintext, and `Decrypt` does not notice that either. -/
theorem truncation_unnoticed {lib : CryptoLibrary} (hlib : lib.Sound) (key : SecureKey) {src dest : List UInt8}
    {n k destBlocks : UInt64} (iv : AesBlock) (hsrc : HasBlocks src n) (hdest : HasBlocks dest destBlocks)
    (hk : 0 < k) (hkn : k ≤ n) (hroom : n.toNat + 1 ≤ destBlocks.toNat) :
    ∃ sent ciphertext, key.encrypt lib dest src destBlocks n iv = (sent, iv) ∧
      sent.Fills dest (n.toNat + 1) ciphertext ∧
      ∃ last : AesBlock, last.val = (ciphertext.drop ((k.toNat - 1) * 16)).take 16 ∧
        ∀ (src' dest' : List UInt8) (destBlocks' : UInt64), ciphertext.drop (k.toNat * 16) <+: src' →
          HasBlocks dest' destBlocks' → n.toNat - k.toNat ≤ destBlocks'.toNat →
          ∃ received, key.decrypt lib dest' src' destBlocks' (n - k + 1) last = some received ∧
            received.Fills dest' (n.toNat - k.toNat) ((src.take (n.toNat * 16)).drop (k.toNat * 16)) := by
  have hpos : 0 < k.toNat := UInt64.lt_iff_toNat_lt.mp hk
  have hle : k.toNat ≤ n.toNat := UInt64.le_iff_toNat_le.mp hkn
  have hrest : (n - k).toNat = n.toNat - k.toNat := UInt64.toNat_sub_of_le n k hkn
  have hsize := hdest.addressable
  have hplain : (src.take (n.toNat * 16)).length = n.toNat * 16 := List.length_take_of_le hsrc.allocated
  have hcut : k.toNat * 16 ≤ (src.take (n.toNat * 16)).length := by omega
  have hkept : ((src.take (n.toNat * 16)).drop (k.toNat * 16)).length = (n - k).toNat * 16 := by
    rw [List.length_drop, hplain, hrest, Nat.sub_mul]
  obtain ⟨last, hlast, hdrop⟩ := @cbcEncrypt_drop 16 (lib.aesEncryption key.value) (by decide) iv k.toNat hpos _ hcut
  obtain ⟨sent, hsent, hfills⟩ := SecureKey.encrypt_filled lib key iv hsrc hdest hroom
  refine ⟨sent, _, hsent, hfills, last, hlast, ?_⟩
  intro src' dest' destBlocks' hcopied hdest' hroom'
  rw [hdrop] at hcopied
  rw [← hrest] at hroom' ⊢
  exact SecureKey.decrypt_filled hlib hkept (by omega) hcopied hdest' hroom'

/-- The first half of a plaintext of two blocks is lost. -/
theorem truncation_unnoticed_half : ∃ key : SecureKey, ∃ sent received iv last,
    key.encrypt multipleLibrary (List.replicate 48 0) (asciiBytes "I do not say so.I do say so now.") 3 2 iv =
      (sent, iv) ∧
    key.decrypt multipleLibrary (List.replicate 16 0) (sent.dest.drop 16) 1 2 last = some received ∧
    received.dest = asciiBytes "I do say so now." := by
  obtain ⟨sent, ciphertext, hsent, hfills, last, _, hback⟩ := truncation_unnoticed (k := 1) multipleLibrary_sound
    ⟨Block.ofBytes 32 [5]⟩ (Block.ofBytes 16 [])
    (⟨by decide, by decide⟩ : HasBlocks (asciiBytes "I do not say so.I do say so now.") 2)
    (⟨by decide, by decide⟩ : HasBlocks (List.replicate 48 0) 3) (by decide) (by decide) (by decide)
  have hcopied : ciphertext.drop 16 <+: sent.dest.drop 16 := by
    rw [← hfills.filled, List.drop_take]
    exact List.take_prefix _ _
  obtain ⟨received, hreceived, hplain⟩ := hback (sent.dest.drop 16) (List.replicate 16 0) 1 hcopied
    ⟨by decide, by decide⟩ (by decide)
  have hdest := hplain.whole_dest (by decide)
  exact ⟨_, sent, received, _, last, hsent, hreceived, hdest.trans (by decide)⟩

end SecureMessaging
