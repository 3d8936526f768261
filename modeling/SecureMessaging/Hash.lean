import SecureMessaging.AccountRegistry
import SecureMessaging.Sinks

namespace SecureMessaging

/-- `Hash`, with the memory at `dest` before and after and the bytes at `src`; the sink gets the
size of the input for its own. -/
def hash (sha256 : List UInt8 → Digest) (dest src : List UInt8) (size : UInt64) : List UInt8 :=
  let digest := sha256 (src.take size.toNat)
  ((ArraySink.new dest size.toNat).put (hexEncode digest.val)).memory

variable {sha256 : List UInt8 → Digest} {x : ByteString} {dest : List UInt8}

/-- The text of `HashPassword` is at the front of the destination, and the rest of it is as before. -/
structure HashAgrees (sha256 : List UInt8 → Digest) (x : ByteString) (dest : List UInt8) : Prop where
  text : (hash sha256 dest x.data x.size).take 64 = (AccountRegistry.hashPassword sha256 x).data
  rest : (hash sha256 dest x.data x.size).drop 64 = dest.drop 64

theorem hashPassword_length (sha256 : List UInt8 → Digest) (x : ByteString) :
    (AccountRegistry.hashPassword sha256 x).data.length = 64 := by
  have hdigest := (sha256 x.data).property
  have htext : (AccountRegistry.hashPassword sha256 x).data.length = 2 * (sha256 x.data).val.length :=
    hexEncode_length _
  omega

theorem kept_length (sha256 : List UInt8 → Digest) (x : ByteString) :
    ((AccountRegistry.hashPassword sha256 x).data.take x.data.length).length = min x.data.length 64 := by
  rw [List.length_take, hashPassword_length]

/-- `Hash` stores as much of the text as the input is long. -/
theorem hash_eq (h : 64 ≤ dest.length) : hash sha256 dest x.data x.size =
    (AccountRegistry.hashPassword sha256 x).data.take x.data.length ++ dest.drop (min x.data.length 64) := by
  have hkept := kept_length sha256 x
  have hfits : 0 + ((AccountRegistry.hashPassword sha256 x).data.take x.data.length).length ≤ dest.length := by omega
  have hsource : x.data.take x.size.toNat = x.data := by rw [ByteString.size_toNat, List.take_length]
  have hhash : hash sha256 dest x.data x.size =
      dest.overwrite 0 ((AccountRegistry.hashPassword sha256 x).data.take x.data.length) := by
    unfold hash
    dsimp only
    rw [hsource, ByteString.size_toNat, ArraySink.new_put]
    rfl
  rw [hhash, List.overwrite_eq_take_drop hfits, hkept, List.take_zero, List.nil_append, Nat.zero_add]

theorem hash_rest (h : 64 ≤ dest.length) : (hash sha256 dest x.data x.size).drop 64 = dest.drop 64 := by
  have hkept := kept_length sha256 x
  rw [hash_eq h, List.drop_append, hkept, List.drop_eq_nil_of_le (by omega), List.nil_append, List.drop_drop]
  congr 1
  omega

/-- What the sink dropped has to be in the destination already. -/
theorem hashAgrees_iff (hdest : 64 ≤ dest.length) : HashAgrees sha256 x dest ↔
    (dest.drop x.data.length).take (64 - x.data.length) =
      (AccountRegistry.hashPassword sha256 x).data.drop x.data.length := by
  have hkept := kept_length sha256 x
  have htext : (hash sha256 dest x.data x.size).take 64 =
      (AccountRegistry.hashPassword sha256 x).data.take x.data.length ++
        (dest.drop x.data.length).take (64 - x.data.length) := by
    rw [hash_eq hdest, List.take_append, hkept, List.take_of_length_le (by omega)]
    rcases Nat.le_total x.data.length 64 with hshort | hlong
    · rw [Nat.min_eq_left hshort]
    · rw [Nat.min_eq_right hlong, Nat.sub_self, Nat.sub_eq_zero_of_le hlong, List.take_zero, List.take_zero]
  have hsplit : (AccountRegistry.hashPassword sha256 x).data =
      (AccountRegistry.hashPassword sha256 x).data.take x.data.length ++
        (AccountRegistry.hashPassword sha256 x).data.drop x.data.length := (List.take_append_drop _ _).symm
  constructor
  · intro hagrees
    exact List.append_cancel_left (htext.symm.trans (hagrees.text.trans hsplit))
  · intro hrest
    refine ⟨?_, hash_rest hdest⟩
    rw [htext, hrest, List.take_append_drop]

theorem hashAgrees_long (hdest : 64 ≤ dest.length) (h : 64 ≤ x.data.length) : HashAgrees sha256 x dest := by
  refine (hashAgrees_iff hdest).mpr ?_
  have hlength := hashPassword_length sha256 x
  rw [Nat.sub_eq_zero_of_le h, List.take_zero, List.drop_eq_nil_of_le (by omega)]

/-- Two destinations that differ everywhere cannot both hold the text. -/
theorem long_of_hashAgrees (h : ∀ dest : List UInt8, 64 ≤ dest.length → HashAgrees sha256 x dest) :
    64 ≤ x.data.length := by
  by_contra hshort
  have hfull : ∀ byte : UInt8, 64 ≤ (List.replicate 64 byte).length := by
    intro byte
    rw [List.length_replicate]
  have hzeros := (hashAgrees_iff (hfull 0)).mp (h _ (hfull 0))
  have hones := (hashAgrees_iff (hfull 1)).mp (h _ (hfull 1))
  have hsame := hzeros.trans hones.symm
  obtain ⟨n, hn⟩ : ∃ n, 64 - x.data.length = n + 1 := ⟨63 - x.data.length, by omega⟩
  rw [List.drop_replicate, List.drop_replicate, hn, List.take_replicate, List.take_replicate, Nat.min_self,
    List.replicate_succ, List.replicate_succ] at hsame
  exact absurd (List.cons.inj hsame).1 (by decide)

/-- `Hash` and `HashPassword` agree on any destination exactly for inputs of 64 bytes or more; for a shorter
input the rest of the text has to be in the destination already. -/
theorem hash_agrees (sha256 : List UInt8 → Digest) (x : ByteString) :
    ((∀ dest : List UInt8, 64 ≤ dest.length → HashAgrees sha256 x dest) ↔ 64 ≤ x.data.length) ∧
    ∀ dest : List UInt8, 64 ≤ dest.length → (HashAgrees sha256 x dest ↔ 64 ≤ x.data.length ∨
      (dest.drop x.data.length).take (64 - x.data.length) =
        (AccountRegistry.hashPassword sha256 x).data.drop x.data.length) := by
  refine ⟨⟨long_of_hashAgrees, fun hlong dest hdest => hashAgrees_long hdest hlong⟩, ?_⟩
  intro dest hdest
  constructor
  · intro hagrees
    exact Or.inr ((hashAgrees_iff hdest).mp hagrees)
  · rintro (hlong | hrest)
    · exact hashAgrees_long hdest hlong
    · exact (hashAgrees_iff hdest).mpr hrest

/-- 64 bytes are enough. -/
theorem hash_agrees_longInput : HashAgrees (fun _ => ⟨List.replicate 32 0, by simp⟩)
    ⟨List.replicate 64 65, by decide⟩ (List.replicate 80 1) := by
  have hlong : 64 ≤ (ByteString.mk (List.replicate 64 65) (by decide)).data.length := by decide
  exact (hash_agrees _ _).1.mpr hlong _ (by decide)

/-- Of three bytes the digest's text keeps three characters. -/
theorem short_digest : ¬∀ (sha256 : List UInt8 → Digest) (x : ByteString) (dest : List UInt8),
    64 ≤ dest.length → HashAgrees sha256 x dest := by
  intro h
  have htext := (h (fun _ => ⟨List.replicate 32 0, by simp⟩) ⟨asciiBytes "abc", by decide⟩ (List.replicate 64 0)
    (by simp)).text
  exact absurd htext (by decide +kernel)

end SecureMessaging
