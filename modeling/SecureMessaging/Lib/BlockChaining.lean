import Mathlib.Data.List.Basic

/-- A block of bytes. -/
abbrev Block (size : Nat) := { bytes : List UInt8 // bytes.length = size }

namespace Block

variable {size : Nat}

def xor (a b : Block size) : Block size :=
  ⟨List.zipWith (· ^^^ ·) a.val b.val, by rw [List.length_zipWith, a.property, b.property, Nat.min_self]⟩

theorem zipWith_xor_cancel {xs ys : List UInt8} (h : xs.length = ys.length) :
    List.zipWith (· ^^^ ·) (List.zipWith (· ^^^ ·) xs ys) ys = xs := by
  induction xs generalizing ys with
  | nil => rfl
  | cons x xs ih =>
    obtain ⟨y, ys, rfl⟩ := List.exists_cons_of_length_pos (show 0 < ys.length by rw [← h]; exact Nat.succ_pos _)
    have hrest : xs.length = ys.length := Nat.succ.inj h
    rw [List.zipWith_cons_cons, List.zipWith_cons_cons, ih hrest, UInt8.xor_assoc, UInt8.xor_self, UInt8.xor_zero]

theorem xor_cancel (a b : Block size) : (a.xor b).xor b = a :=
  Subtype.ext (zipWith_xor_cancel (a.property.trans b.property.symm))

theorem zipWith_xor_shift {xs ys zs : List UInt8} (hy : ys.length = xs.length) (hz : zs.length = xs.length) :
    List.zipWith (· ^^^ ·) (List.zipWith (· ^^^ ·) xs zs) (List.zipWith (· ^^^ ·) ys zs) =
      List.zipWith (· ^^^ ·) xs ys := by
  induction xs generalizing ys zs with
  | nil => simp
  | cons x xs ih =>
    obtain ⟨y, ys, rfl⟩ := List.exists_cons_of_length_pos (show 0 < ys.length by rw [hy]; exact Nat.succ_pos _)
    obtain ⟨z, zs, rfl⟩ := List.exists_cons_of_length_pos (show 0 < zs.length by rw [hz]; exact Nat.succ_pos _)
    have hbyte : (x ^^^ z) ^^^ (y ^^^ z) = x ^^^ y := by
      rw [UInt8.xor_comm y z, UInt8.xor_assoc, ← UInt8.xor_assoc z z y, UInt8.xor_self, UInt8.zero_xor]
    simp only [List.zipWith_cons_cons, hbyte, ih (Nat.succ.inj hy) (Nat.succ.inj hz)]

/-- The same change on both sides cancels out. -/
theorem xor_shift (a b change : Block size) : (a.xor change).xor (b.xor change) = a.xor b :=
  Subtype.ext (zipWith_xor_shift (b.property.trans a.property.symm) (change.property.trans a.property.symm))

/-- The front of some bytes as a block. -/
def ofBytes (size : Nat) (bytes : List UInt8) : Block size :=
  ⟨(bytes ++ List.replicate size 0).take size, by simp⟩

theorem ofBytes_val {bytes : List UInt8} (h : size ≤ bytes.length) : (ofBytes size bytes).val = bytes.take size :=
  List.take_append_of_le_length h

theorem ofBytes_append {bytes : List UInt8} (h : size ≤ bytes.length) (rest : List UInt8) :
    ofBytes size (bytes ++ rest) = ofBytes size bytes := by
  refine Subtype.ext ?_
  rw [ofBytes_val h, ofBytes_val (by rw [List.length_append]; omega), List.take_append_of_le_length h]

/-- The first blocks of some bytes. -/
def split (size : Nat) : Nat → List UInt8 → List (Block size)
  | 0, _ => []
  | n + 1, bytes => ofBytes size bytes :: split size n (bytes.drop size)

def join (blocks : List (Block size)) : List UInt8 := blocks.flatMap Subtype.val

theorem join_cons (block : Block size) (blocks : List (Block size)) :
    join (block :: blocks) = block.val ++ join blocks := rfl

theorem join_append (blocks rest : List (Block size)) : join (blocks ++ rest) = join blocks ++ join rest :=
  List.flatMap_append

theorem join_length (blocks : List (Block size)) : (join blocks).length = blocks.length * size := by
  induction blocks with
  | nil => simp [join]
  | cons block blocks ih =>
    rw [join_cons, List.length_append, ih, block.property, List.length_cons, Nat.succ_mul, Nat.add_comm]

theorem split_length (n : Nat) (bytes : List UInt8) : (split size n bytes).length = n := by
  induction n generalizing bytes with
  | zero => rfl
  | succ n ih => rw [split, List.length_cons, ih]

theorem split_join (blocks : List (Block size)) : split size blocks.length (join blocks) = blocks := by
  induction blocks with
  | nil => rfl
  | cons block blocks ih =>
    have hfront : (join (block :: blocks)).take size = block.val := List.take_left' block.property
    have hrest : (join (block :: blocks)).drop size = join blocks := List.drop_left' block.property
    have hlong : size ≤ (join (block :: blocks)).length := by
      rw [join_length, List.length_cons, Nat.succ_mul]
      omega
    have hblock : ofBytes size (join (block :: blocks)) = block := Subtype.ext ((ofBytes_val hlong).trans hfront)
    rw [List.length_cons, split, hblock, hrest, ih]

theorem join_split {n : Nat} {bytes : List UInt8} (h : bytes.length = n * size) : join (split size n bytes) = bytes := by
  induction n generalizing bytes with
  | zero =>
    rw [Nat.zero_mul] at h
    rw [List.eq_nil_of_length_eq_zero h]
    rfl
  | succ n ih =>
    have hlong : size ≤ bytes.length := by
      rw [h, Nat.succ_mul]
      omega
    have hrest : (bytes.drop size).length = n * size := by
      rw [List.length_drop, h, Nat.succ_mul, Nat.add_sub_cancel]
    rw [split, join_cons, ofBytes_val hlong, ih hrest, List.take_append_drop]

/-- Whole blocks in front are split off by themselves. -/
theorem split_append {k : Nat} {front : List UInt8} (h : front.length = k * size) (n : Nat) (rest : List UInt8) :
    split size (k + n) (front ++ rest) = split size k front ++ split size n rest := by
  induction k generalizing front with
  | zero =>
    rw [Nat.zero_mul] at h
    obtain rfl := List.eq_nil_of_length_eq_zero h
    rw [Nat.zero_add, List.nil_append, split, List.nil_append]
  | succ k ih =>
    have hlong : size ≤ front.length := by
      rw [h, Nat.succ_mul]
      omega
    have hfront : (front.drop size).length = k * size := by
      rw [List.length_drop, h, Nat.succ_mul, Nat.add_sub_cancel]
    rw [Nat.add_right_comm, split, split, ofBytes_append hlong, List.drop_append_of_le_length hlong, ih hfront,
      List.cons_append]

/-- The last block is where it is expected. -/
theorem getLastD_val {blocks : List (Block size)} (h : 0 < blocks.length) (default : Block size) :
    (blocks.getLastD default).val = (join blocks).drop ((blocks.length - 1) * size) := by
  obtain ⟨init, last, rfl⟩ : ∃ init last, blocks = init ++ [last] :=
    ⟨_, _, (List.dropLast_append_getLast (List.ne_nil_of_length_pos h)).symm⟩
  have hinit : (join init).length = (init.length + 1 - 1) * size := join_length init
  have hlast : join [last] = last.val := List.append_nil _
  rw [List.getLastD_concat, List.length_append, List.length_singleton, join_append, List.drop_left' hinit, hlast]

end Block

/-- Cipher block chaining: each block is combined with the ciphertext before it. -/
def chainEncrypt {β : Type*} (xor : β → β → β) (encrypt : β → β) : β → List β → List β
  | _, [] => []
  | previous, block :: blocks =>
    encrypt (xor block previous) :: chainEncrypt xor encrypt (encrypt (xor block previous)) blocks

def chainDecrypt {β : Type*} (xor : β → β → β) (decrypt : β → β) : β → List β → List β
  | _, [] => []
  | previous, block :: blocks => xor (decrypt block) previous :: chainDecrypt xor decrypt block blocks

section

variable {β : Type*} {xor : β → β → β} {encrypt decrypt : β → β}

theorem chainEncrypt_length (previous : β) (blocks : List β) :
    (chainEncrypt xor encrypt previous blocks).length = blocks.length := by
  induction blocks generalizing previous with
  | nil => rfl
  | cons block blocks ih => rw [chainEncrypt, List.length_cons, List.length_cons, ih]

/-- Every block comes back, whatever was before the first. -/
theorem chainDecrypt_chainEncrypt (hxor : ∀ a b, xor (xor a b) b = a) (hcipher : ∀ b, decrypt (encrypt b) = b)
    (previous : β) (blocks : List β) :
    chainDecrypt xor decrypt previous (chainEncrypt xor encrypt previous blocks) = blocks := by
  induction blocks generalizing previous with
  | nil => rfl
  | cons block blocks ih => rw [chainEncrypt, chainDecrypt, hcipher, hxor, ih]

/-- What comes later depends on what was before only through the last block of the ciphertext. -/
theorem chainEncrypt_append (previous : β) (blocks rest : List β) :
    chainEncrypt xor encrypt previous (blocks ++ rest) =
      chainEncrypt xor encrypt previous blocks ++
        chainEncrypt xor encrypt ((chainEncrypt xor encrypt previous blocks).getLastD previous) rest := by
  induction blocks generalizing previous with
  | nil => rfl
  | cons block blocks ih => rw [List.cons_append, chainEncrypt, chainEncrypt, ih, List.getLastD_cons, List.cons_append]

end

/-- PKCS padding: as many bytes as are missing from the last block, or a whole block of them, each
of them their number. -/
def pkcsPad (size : Nat) (bytes : List UInt8) : List UInt8 :=
  let missing := size - bytes.length % size
  bytes ++ List.replicate missing (UInt8.ofNat missing)

/-- Removing the padding; none if there is no padding that could be. -/
def pkcsUnpad (size : Nat) (bytes : List UInt8) : Option (List UInt8) :=
  match bytes.getLast? with
  | some pad =>
    if 1 ≤ pad.toNat ∧ pad.toNat ≤ size ∧
        bytes.drop (bytes.length - pad.toNat) = List.replicate pad.toNat pad then
      some (bytes.take (bytes.length - pad.toNat))
    else none
  | none => none

section

variable {size : Nat}

theorem pkcsPad_length (hsize : 0 < size) (bytes : List UInt8) :
    (pkcsPad size bytes).length = (bytes.length / size + 1) * size := by
  have hmod := Nat.mod_lt bytes.length hsize
  have hdiv := Nat.div_add_mod bytes.length size
  unfold pkcsPad
  dsimp only
  rw [List.length_append, List.length_replicate, Nat.succ_mul, Nat.mul_comm]
  omega

theorem pkcsPad_append {k : Nat} {front : List UInt8} (h : front.length = k * size) (rest : List UInt8) :
    pkcsPad size (front ++ rest) = front ++ pkcsPad size rest := by
  have hmissing : (front ++ rest).length % size = rest.length % size := by
    rw [List.length_append, h, Nat.mul_add_mod_self_right]
  unfold pkcsPad
  rw [hmissing, List.append_assoc]

theorem pkcsUnpad_pkcsPad (hsize : 0 < size) (hbyte : size < 256) (bytes : List UInt8) :
    pkcsUnpad size (pkcsPad size bytes) = some bytes := by
  have hmod := Nat.mod_lt bytes.length hsize
  unfold pkcsPad
  dsimp only
  generalize hmissing : size - bytes.length % size = missing
  obtain ⟨k, rfl⟩ : ∃ k, missing = k + 1 := ⟨missing - 1, by omega⟩
  have hpad : (UInt8.ofNat (k + 1)).toNat = k + 1 := by
    rw [UInt8.toNat_ofNat']
    exact Nat.mod_eq_of_lt (by omega)
  have hlast : (bytes ++ List.replicate (k + 1) (UInt8.ofNat (k + 1))).getLast? = some (UInt8.ofNat (k + 1)) := by
    rw [List.replicate_succ', ← List.append_assoc, List.getLast?_concat]
  have hlength : (bytes ++ List.replicate (k + 1) (UInt8.ofNat (k + 1))).length - (k + 1) = bytes.length := by
    rw [List.length_append, List.length_replicate, Nat.add_sub_cancel]
  unfold pkcsUnpad
  rw [hlast]
  dsimp only
  rw [hpad, hlength, List.drop_left, List.take_left, if_pos ⟨by omega, by omega, rfl⟩]

end

/-- Bytes of any length, padded and chained. -/
def cbcEncrypt (size : Nat) (encrypt : Block size → Block size) (iv : Block size) (bytes : List UInt8) : List UInt8 :=
  let padded := pkcsPad size bytes
  Block.join (chainEncrypt Block.xor encrypt iv (Block.split size (padded.length / size) padded))

/-- None if the bytes are no whole blocks or end in no padding. -/
def cbcDecrypt (size : Nat) (decrypt : Block size → Block size) (iv : Block size) (bytes : List UInt8) :
    Option (List UInt8) :=
  if bytes.length % size = 0 then
    pkcsUnpad size (Block.join (chainDecrypt Block.xor decrypt iv (Block.split size (bytes.length / size) bytes)))
  else none

section

variable {size : Nat} {encrypt decrypt : Block size → Block size}

theorem cbcEncrypt_length (hsize : 0 < size) (iv : Block size) (bytes : List UInt8) :
    (cbcEncrypt size encrypt iv bytes).length = (bytes.length / size + 1) * size := by
  have hpadded := pkcsPad_length hsize bytes
  unfold cbcEncrypt
  dsimp only
  rw [Block.join_length, chainEncrypt_length, Block.split_length, hpadded, Nat.mul_div_cancel _ hsize]

theorem cbcDecrypt_cbcEncrypt (hsize : 0 < size) (hbyte : size < 256) (hcipher : ∀ b, decrypt (encrypt b) = b)
    (iv : Block size) (bytes : List UInt8) :
    cbcDecrypt size decrypt iv (cbcEncrypt size encrypt iv bytes) = some bytes := by
  have hlength : (cbcEncrypt size encrypt iv bytes).length = (bytes.length / size + 1) * size :=
    cbcEncrypt_length hsize iv bytes
  have hpadded := pkcsPad_length hsize bytes
  have hwhole : (cbcEncrypt size encrypt iv bytes).length % size = 0 := by rw [hlength, Nat.mul_mod_left]
  have hcount : (cbcEncrypt size encrypt iv bytes).length / size = (pkcsPad size bytes).length / size := by
    rw [hlength, hpadded]
  have hchain : Block.split size ((pkcsPad size bytes).length / size) (cbcEncrypt size encrypt iv bytes) =
      chainEncrypt Block.xor encrypt iv (Block.split size ((pkcsPad size bytes).length / size) (pkcsPad size bytes)) := by
    have hblocks := Block.split_join (chainEncrypt Block.xor encrypt iv
      (Block.split size ((pkcsPad size bytes).length / size) (pkcsPad size bytes)))
    rw [chainEncrypt_length, Block.split_length] at hblocks
    exact hblocks
  have hdivides : (pkcsPad size bytes).length = (pkcsPad size bytes).length / size * size := by
    rw [hpadded, Nat.mul_div_cancel _ hsize]
  rw [cbcDecrypt, if_pos hwhole, hcount, hchain, chainDecrypt_chainEncrypt Block.xor_cancel hcipher,
    Block.join_split hdivides, pkcsUnpad_pkcsPad hsize hbyte]

/-- The bytes with a change to the bits of their first block. -/
def changeFirst (size : Nat) (change : Block size) (bytes : List UInt8) : List UInt8 :=
  ((Block.ofBytes size bytes).xor change).val ++ bytes.drop size

theorem changeFirst_length (change : Block size) {bytes : List UInt8} (h : size ≤ bytes.length) :
    (changeFirst size change bytes).length = bytes.length := by
  have hblock := ((Block.ofBytes size bytes).xor change).property
  rw [changeFirst, List.length_append, hblock, List.length_drop]
  omega

/-- Changing the first block and the block before it in the same way leaves the ciphertext as it is. -/
theorem cbcEncrypt_changeFirst (hsize : 0 < size) (iv change : Block size) {bytes : List UInt8}
    (h : size ≤ bytes.length) :
    cbcEncrypt size encrypt (iv.xor change) (changeFirst size change bytes) = cbcEncrypt size encrypt iv bytes := by
  have hlength := changeFirst_length change h
  have hblock := ((Block.ofBytes size bytes).xor change).property
  obtain ⟨tail, htail, htail'⟩ : ∃ tail, pkcsPad size bytes = bytes ++ tail ∧
      pkcsPad size (changeFirst size change bytes) = changeFirst size change bytes ++ tail := by
    refine ⟨_, rfl, ?_⟩
    unfold pkcsPad
    rw [hlength]
  have hcount : 0 < (pkcsPad size bytes).length / size := by
    rw [pkcsPad_length hsize, Nat.mul_div_cancel _ hsize]
    exact Nat.succ_pos _
  obtain ⟨n, hn⟩ : ∃ n, (pkcsPad size bytes).length / size = n + 1 := ⟨_, (Nat.succ_pred_eq_of_pos hcount).symm⟩
  have hn' : (pkcsPad size (changeFirst size change bytes)).length / size = n + 1 := by
    rw [pkcsPad_length hsize, hlength, ← pkcsPad_length hsize, hn]
  have hfront : Block.ofBytes size (bytes ++ tail) = Block.ofBytes size bytes := Block.ofBytes_append h tail
  have hfront' : Block.ofBytes size (changeFirst size change bytes ++ tail) =
      (Block.ofBytes size bytes).xor change := by
    refine Subtype.ext ?_
    rw [Block.ofBytes_val (by rw [List.length_append, hlength]; omega), changeFirst, List.append_assoc]
    exact List.take_left' hblock
  have hrest : (changeFirst size change bytes ++ tail).drop size = (bytes ++ tail).drop size := by
    have hdrop : (changeFirst size change bytes ++ tail).drop size = bytes.drop size ++ tail := by
      rw [changeFirst, List.append_assoc]
      exact List.drop_left' hblock
    rw [hdrop, List.drop_append_of_le_length h]
  unfold cbcEncrypt
  dsimp only
  rw [hn, hn', htail, htail', Block.split, Block.split, hfront, hfront', hrest, chainEncrypt, chainEncrypt,
    Block.xor_shift]

/-- The ciphertext of some whole blocks and of what comes after them. -/
theorem cbcEncrypt_append (hsize : 0 < size) (iv : Block size) {k : Nat} {front : List UInt8}
    (h : front.length = k * size) (rest : List UInt8) :
    cbcEncrypt size encrypt iv (front ++ rest) =
      Block.join (chainEncrypt Block.xor encrypt iv (Block.split size k front)) ++
        cbcEncrypt size encrypt
          ((chainEncrypt Block.xor encrypt iv (Block.split size k front)).getLastD iv) rest := by
  have hcount : (front ++ pkcsPad size rest).length / size = k + (pkcsPad size rest).length / size := by
    rw [List.length_append, h, Nat.add_comm, Nat.add_mul_div_right _ _ hsize, Nat.add_comm]
  unfold cbcEncrypt
  dsimp only
  rw [pkcsPad_append h, hcount, Block.split_append h, chainEncrypt_append, Block.join_append]

/-- Without its first blocks, a ciphertext is that of the rest of the bytes, with the last block that is missing
as the initialization vector. -/
theorem cbcEncrypt_drop (hsize : 0 < size) (iv : Block size) {k : Nat} (hk : 0 < k) {bytes : List UInt8}
    (h : k * size ≤ bytes.length) :
    ∃ iv' : Block size, iv'.val = ((cbcEncrypt size encrypt iv bytes).drop ((k - 1) * size)).take size ∧
      (cbcEncrypt size encrypt iv bytes).drop (k * size) = cbcEncrypt size encrypt iv' (bytes.drop (k * size)) := by
  have hfront : (bytes.take (k * size)).length = k * size := List.length_take_of_le h
  generalize hblocks : chainEncrypt Block.xor encrypt iv (Block.split size k (bytes.take (k * size))) = blocks
  have hcount : blocks.length = k := by rw [← hblocks, chainEncrypt_length, Block.split_length]
  have hwhole : cbcEncrypt size encrypt iv bytes =
      Block.join blocks ++ cbcEncrypt size encrypt (blocks.getLastD iv) (bytes.drop (k * size)) := by
    rw [← hblocks, ← cbcEncrypt_append hsize iv hfront, List.take_append_drop]
  have hjoin : (Block.join blocks).length = k * size := by rw [Block.join_length, hcount]
  have hlast : (blocks.getLastD iv).val = (Block.join blocks).drop ((k - 1) * size) := by
    rw [← hcount]
    exact Block.getLastD_val (by omega) iv
  refine ⟨blocks.getLastD iv, ?_, ?_⟩
  · have hbefore : (k - 1) * size ≤ (Block.join blocks).length := by
      rw [hjoin]
      exact Nat.mul_le_mul_right size (Nat.sub_le k 1)
    rw [hwhole, List.drop_append_of_le_length hbefore, ← hlast]
    exact (List.take_left' (blocks.getLastD iv).property).symm
  · rw [hwhole]
    exact List.drop_left' hjoin

end
