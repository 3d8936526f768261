import SecureMessaging.Codec

namespace SecureMessaging

variable {size : UInt64}

theorem append_prefix_iff {xs ys zs : List UInt8} :
    xs ++ ys <+: zs ↔ xs = zs.take xs.length ∧ ys <+: zs.drop xs.length := by
  constructor
  · rintro ⟨rest, rfl⟩
    simp
  · rintro ⟨hx, rest, hy⟩
    refine ⟨rest, ?_⟩
    rw [List.append_assoc, hy]
    nth_rewrite 1 [hx]
    exact List.take_append_drop _ _

/-- A buffer starts with an encoded field when its length word and as many bytes behind it say so. -/
theorem fieldWrites_cons_isPrefix {field : ByteString} {fields : List ByteString} {bytes : List UInt8} :
    (fieldWrites (field :: fields)).flatten <+: bytes ↔
      8 ≤ bytes.length ∧ field.size = hostWord (bytes.take 8) ∧
        field.data = (bytes.drop 8).take field.data.length ∧
        (fieldWrites fields).flatten <+: bytes.drop (8 + field.data.length) := by
  simp only [fieldWrites, List.flatten_cons, append_prefix_iff, hostBytes_length, List.drop_drop]
  constructor
  · rintro ⟨hword, hdata, hrest⟩
    have hlen := congrArg List.length hword
    simp only [hostBytes_length, List.length_take] at hlen
    refine ⟨by omega, ?_, hdata, hrest⟩
    rw [← hword, hostWord_hostBytes]
  · rintro ⟨hlen, hsize, hdata, hrest⟩
    refine ⟨?_, hdata, hrest⟩
    rw [hsize, hostBytes_hostWord (by rw [List.length_take]; omega)]

/-- An encoded field is as long as its length word says. -/
theorem fieldWrites_word {field : ByteString} {fields : List ByteString} {bytes : List UInt8}
    (h : (fieldWrites (field :: fields)).flatten <+: bytes) :
    (hostWord (bytes.take 8)).toNat = field.data.length ∧ field.data.length ≤ bytes.length - 8 := by
  obtain ⟨_, hsize, hdata, _⟩ := fieldWrites_cons_isPrefix.mp h
  have hle := congrArg List.length hdata
  rw [List.length_take, List.length_drop] at hle
  refine ⟨?_, by omega⟩
  rw [← hsize, ByteString.size_toNat]

theorem readField_next {field : ByteString} {reader next : ByteReader size}
    (h : (readField field reader).result = .ok (some next)) :
    8 ≤ reader.unread.length ∧ (nextLength reader).toNat ≤ reader.unread.length - 8 ∧
      (readField field reader).object.data = (reader.unread.drop 8).take (nextLength reader).toNat ∧
      next.unread = reader.unread.drop (8 + (nextLength reader).toNat) := by
  rcases readField_cases field reader with ⟨_, hone⟩ | ⟨hlen, _, hcases⟩
  · rw [hone] at h
    cases h
  · rcases hcases with ⟨_, hresult⟩ | ⟨_, _, hresult⟩ | ⟨_, hfit, next', hresult, hdata, hnext⟩
    · rw [hresult] at h
      cases h
    · rw [hresult] at h
      cases h
    · cases hresult.symm.trans h
      exact ⟨hlen, hfit, hdata, hnext⟩

/-- An encoded field is accepted. -/
theorem readField_encoded {field g : ByteString} {gs : List ByteString} {reader : ByteReader size}
    (h : (fieldWrites (g :: gs)).flatten <+: reader.unread) :
    ∃ next, (readField field reader).result = .ok (some next) := by
  obtain ⟨hlen, _, _, _⟩ := fieldWrites_cons_isPrefix.mp h
  obtain ⟨hword, hfit⟩ : (nextLength reader).toNat = g.data.length ∧ _ := fieldWrites_word h
  have hmax := g.size_le
  rcases readField_cases field reader with ⟨hshort, _⟩ | ⟨_, _, hcases⟩
  · omega
  · rcases hcases with ⟨hbig, _⟩ | ⟨_, hlong, _⟩ | ⟨_, _, next, hresult, _, _⟩
    · omega
    · omega
    · exact ⟨next, hresult⟩

theorem readFields_accepted {field : ByteString} {fields : List ByteString} {reader : ByteReader size}
    (h : (readFields (field :: fields) reader).result = .ok true) :
    ∃ next, (readField field reader).result = .ok (some next) := by
  unfold readFields at h
  dsimp only at h
  split at h
  next => cases h
  next => cases h
  next next hresult => exact ⟨next, hresult⟩

/-- The fields are read back exactly from a buffer that starts with their encoding. -/
theorem readFields_iff {fields decoded : List ByteString} {reader : ByteReader size} :
    ((readFields fields reader).result = .ok true ∧ (readFields fields reader).object = decoded) ↔
      decoded.length = fields.length ∧ (fieldWrites decoded).flatten <+: reader.unread := by
  induction fields generalizing reader decoded with
  | nil =>
    constructor
    · rintro ⟨_, rfl⟩
      simp [readFields, fieldWrites]
    · rintro ⟨hl, _⟩
      cases List.length_eq_zero_iff.mp hl
      exact ⟨rfl, rfl⟩
  | cons field fields ih =>
    have hone : ∀ next, (readField field reader).result = .ok (some next) → readFields (field :: fields) reader =
        ⟨(readFields fields next).result, (readField field reader).object :: (readFields fields next).object,
          (readField field reader).resizes ++ (readFields fields next).resizes⟩ := by
      intro next hresult
      simp [readFields, hresult]
    constructor
    · rintro ⟨hr, rfl⟩
      obtain ⟨next, hresult⟩ := readFields_accepted hr
      obtain ⟨hlen, hfit, hdata, hnext⟩ := readField_next hresult
      have hobj : (readField field reader).object.data.length = (nextLength reader).toNat := by
        rw [hdata, List.length_take, List.length_drop]
        omega
      rw [hone next hresult] at hr ⊢
      obtain ⟨hl, hpre⟩ := ih.mp ⟨hr, rfl⟩
      refine ⟨by simpa using hl, fieldWrites_cons_isPrefix.mpr ⟨hlen, ?_, ?_, ?_⟩⟩
      · apply UInt64.toNat_inj.mp
        rw [ByteString.size_toNat, hobj, nextLength]
      · rw [hobj, hdata]
      · rwa [hobj, ← hnext]
    · rintro ⟨hl, hpre⟩
      obtain ⟨g, gs, rfl⟩ := List.exists_cons_of_length_eq_add_one hl
      obtain ⟨next, hresult⟩ := readField_encoded hpre
      obtain ⟨_, _, hdata, hnext⟩ := readField_next hresult
      have hcount : (nextLength reader).toNat = g.data.length := (fieldWrites_word hpre).1
      obtain ⟨_, _, hgdata, hgs⟩ := fieldWrites_cons_isPrefix.mp hpre
      have hg : (readField field reader).object = g := by
        apply ByteString.ext
        rw [hdata, hcount, ← hgdata]
      rw [← hcount, ← hnext] at hgs
      obtain ⟨hr, hobject⟩ := ih.mpr ⟨by simpa using hl, hgs⟩
      rw [hone next hresult]
      exact ⟨hr, by rw [hg, hobject]⟩

/-- The first byte decides whether the fields are read at all. -/
theorem deserializeFields_cases (typeId : UInt8) (fields : List ByteString) (bytes : ByteVector size) :
    (∃ rest, bytes.bytes = typeId :: rest ∧ ∃ reader : ByteReader size, reader.unread = rest ∧
      deserializeFields typeId fields bytes = readFields fields reader) ∨
    ((∀ rest, bytes.bytes ≠ typeId :: rest) ∧
      deserializeFields typeId fields bytes = ⟨.ok false, fields, []⟩) := by
  rcases (ByteReader.new bytes).read_cases 1 with ⟨hshort, hread⟩ | ⟨next, hlen, hread, hnext⟩
  · have h1 : (1 : UInt64).toNat = 1 := rfl
    rw [ByteReader.unread_new, h1] at hshort
    refine Or.inr ⟨?_, by simp [deserializeFields, hread]⟩
    intro rest hb
    simp [hb] at hshort
  · have h1 : (1 : UInt64).toNat = 1 := rfl
    rw [ByteReader.unread_new, h1] at hlen hread hnext
    obtain ⟨id, rest, hb⟩ := List.exists_cons_of_length_pos (show 0 < bytes.bytes.length from hlen)
    have hid : bytes.bytes.take 1 = [id] := by simp [hb]
    by_cases hsame : id = typeId
    · subst id
      refine Or.inl ⟨rest, hb, next, by simp [hnext, hb], ?_⟩
      simp [deserializeFields, hread, hid]
    · refine Or.inr ⟨?_, by simp [deserializeFields, hread, hid, hsame]⟩
      intro other hb'
      rw [hb] at hb'
      exact hsame (List.cons.inj hb').1

theorem deserializeFields_iff {typeId : UInt8} {fields decoded : List ByteString} {bytes : ByteVector size}
    (hl : decoded.length = fields.length) :
    ((deserializeFields typeId fields bytes).result = .ok true ∧
      (deserializeFields typeId fields bytes).object = decoded) ↔
      (messageWrites typeId decoded).flatten <+: bytes.bytes := by
  have hwrites : (messageWrites typeId decoded).flatten = typeId :: (fieldWrites decoded).flatten := rfl
  rcases deserializeFields_cases typeId fields bytes with ⟨rest, hb, reader, hunread, heq⟩ | ⟨hne, heq⟩
  · rw [heq, readFields_iff, hunread, hwrites, hb, List.prefix_cons_inj]
    exact and_iff_right hl
  · rw [heq, hwrites]
    constructor
    · rintro ⟨hr, _⟩
      cases hr
    · rintro ⟨rest, hb⟩
      exact absurd hb.symm (hne _)

theorem StringList.writes_flatten (m : StringList) :
    m.writes.flatten =
      StringList.typeId :: (hostBytes (UInt64.ofNat m.value.length) ++ (fieldWrites m.value).flatten) := rfl

theorem StringList.count_toNat (m : StringList) : (UInt64.ofNat m.value.length).toNat = m.value.length := by
  have hmax : stringVectorMaxSize < 2 ^ 64 := by decide
  simpa using Nat.mod_eq_of_lt (Nat.lt_of_le_of_lt m.size_le hmax)

@[ext] theorem StringList.ext {m n : StringList} (h : m.value = n.value) : m = n := by
  cases m; cases n; cases h; rfl

/-- What `StringList::Deserialize` can do. -/
theorem StringList.deserialize_cases (m : StringList) (bytes : ByteVector size) :
    ((∀ rest, bytes.bytes ≠ typeId :: rest) ∧ m.deserialize bytes = ⟨.ok false, m, []⟩) ∨
    ∃ rest, bytes.bytes = typeId :: rest ∧
      ((rest.length < 8 ∧ m.deserialize bytes = ⟨.ok false, m, []⟩) ∨
      (8 ≤ rest.length ∧ stringVectorMaxSize < (hostWord (rest.take 8)).toNat ∧
        m.deserialize bytes =
          ⟨.error .lengthError, m, [⟨(hostWord (rest.take 8)).toNat, rest.length - 8⟩]⟩) ∨
      (8 ≤ rest.length ∧ (hostWord (rest.take 8)).toNat ≤ stringVectorMaxSize ∧
        ∃ reader : ByteReader size, reader.unread = rest.drop 8 ∧
          (m.deserialize bytes).result =
            (readFields (resizeStrings m.value (hostWord (rest.take 8)).toNat) reader).result ∧
          (m.deserialize bytes).object.value =
            (readFields (resizeStrings m.value (hostWord (rest.take 8)).toNat) reader).object ∧
          (m.deserialize bytes).resizes = ⟨(hostWord (rest.take 8)).toNat, rest.length - 8⟩ ::
            (readFields (resizeStrings m.value (hostWord (rest.take 8)).toNat) reader).resizes)) := by
  have h1 : (1 : UInt64).toNat = 1 := rfl
  have h8 : (8 : UInt64).toNat = 8 := rfl
  rcases (ByteReader.new bytes).read_cases 1 with ⟨hshort, hread⟩ | ⟨next, hlen, hread, hnext⟩
  · rw [ByteReader.unread_new, h1] at hshort
    refine Or.inl ⟨?_, by simp [deserialize, hread]⟩
    intro rest hb
    simp [hb] at hshort
  · rw [ByteReader.unread_new, h1] at hlen hread hnext
    obtain ⟨id, rest, hb⟩ := List.exists_cons_of_length_pos (show 0 < bytes.bytes.length from hlen)
    have hid : bytes.bytes.take 1 = [id] := by simp [hb]
    have hrest : next.unread = rest := by simp [hnext, hb]
    by_cases hsame : id = typeId
    · subst id
      refine Or.inr ⟨rest, hb, ?_⟩
      rcases next.read_cases 8 with ⟨hshort, hword⟩ | ⟨behind, hlong, hword, hbehind⟩
      · rw [hrest, h8] at hshort
        exact Or.inl ⟨hshort, by simp [deserialize, hread, hid, hword]⟩
      · rw [hrest, h8] at hlong hword hbehind
        have hblen : behind.unread.length = rest.length - 8 := by rw [hbehind, List.length_drop]
        by_cases hmax : (hostWord (rest.take 8)).toNat ≤ stringVectorMaxSize
        · refine Or.inr (Or.inr ⟨hlong, hmax, behind, hbehind, ?_, ?_, ?_⟩)
          all_goals simp [deserialize, hread, hid, hword, hmax, hblen]
        · refine Or.inr (Or.inl ⟨hlong, by omega, ?_⟩)
          simp [deserialize, hread, hid, hword, hmax, hblen]
    · refine Or.inl ⟨?_, by simp [deserialize, hread, hid, hsame]⟩
      intro other hb'
      rw [hb] at hb'
      exact hsame (List.cons.inj hb').1

theorem StringList.deserialize_iff {m decoded : StringList} {bytes : ByteVector size} :
    ((m.deserialize bytes).result = .ok true ∧ (m.deserialize bytes).object = decoded) ↔
      decoded.writes.flatten <+: bytes.bytes := by
  have hencoded : ∀ rest, bytes.bytes = typeId :: rest → (decoded.writes.flatten <+: bytes.bytes ↔
      hostBytes (UInt64.ofNat decoded.value.length) = rest.take 8 ∧
        (fieldWrites decoded.value).flatten <+: rest.drop 8) := by
    intro rest hb
    rw [hb, writes_flatten, List.prefix_cons_inj, append_prefix_iff, hostBytes_length]
  rcases m.deserialize_cases bytes with ⟨hne, heq⟩ | ⟨rest, hb, hcases⟩
  · rw [heq]
    constructor
    · rintro ⟨hr, _⟩
      cases hr
    · rintro ⟨rest, hb⟩
      exact absurd hb.symm (hne _)
  · rw [hencoded rest hb]
    rcases hcases with ⟨hshort, heq⟩ | ⟨hlong, hbig, heq⟩ | ⟨hlong, hmax, reader, hunread, hres, hobj, _⟩
    · rw [heq]
      constructor
      · rintro ⟨hr, _⟩
        cases hr
      · rintro ⟨hword, _⟩
        have hlen := congrArg List.length hword
        simp only [hostBytes_length, List.length_take] at hlen
        omega
    · rw [heq]
      constructor
      · rintro ⟨hr, _⟩
        cases hr
      · rintro ⟨hword, _⟩
        rw [← hword, hostWord_hostBytes, count_toNat] at hbig
        have := decoded.size_le
        omega
    · rw [hres, ← StringList.ext_iff.symm, hobj, readFields_iff, resizeStrings_length, hunread]
      constructor
      · rintro ⟨hl, hpre⟩
        refine ⟨?_, hpre⟩
        have hword : UInt64.ofNat decoded.value.length = hostWord (rest.take 8) := by
          apply UInt64.toNat_inj.mp
          rw [count_toNat, hl]
        rw [hword, hostBytes_hostWord (by rw [List.length_take]; omega)]
      · rintro ⟨hword, hpre⟩
        refine ⟨?_, hpre⟩
        rw [← hword, hostWord_hostBytes, count_toNat]

theorem deserializeFields_length (typeId : UInt8) (fields : List ByteString) (bytes : ByteVector size) :
    (deserializeFields typeId fields bytes).object.length = fields.length := by
  rcases deserializeFields_cases typeId fields bytes with ⟨_, _, reader, _, heq⟩ | ⟨_, heq⟩
  · rw [heq, readFields_length]
  · rw [heq]

/-- The same for an object built from its fields. -/
theorem deserializeFields_map_iff {α : Type} {typeId : UInt8} {previous : List ByteString}
    {build : List ByteString → α} (fields : α → List ByteString) {bytes : ByteVector size} {m : α}
    (hlen : (fields m).length = previous.length)
    (hfields : ∀ decoded, decoded.length = previous.length → fields (build decoded) = decoded)
    (hbuild : build (fields m) = m) :
    (((deserializeFields typeId previous bytes).map build).result = .ok true ∧
      ((deserializeFields typeId previous bytes).map build).object = m) ↔
      (messageWrites typeId (fields m)).flatten <+: bytes.bytes := by
  rw [← deserializeFields_iff hlen]
  have hl := deserializeFields_length typeId previous bytes
  constructor
  · rintro ⟨hr, hobj⟩
    refine ⟨hr, ?_⟩
    rw [← hfields _ hl]
    exact congrArg fields hobj
  · rintro ⟨hr, hobj⟩
    refine ⟨hr, ?_⟩
    simp only [Decoded.map, hobj, hbuild]

theorem pair_of_length {decoded : List ByteString} (h : decoded.length = 2) :
    ∃ first second, decoded = [first, second] := by
  match decoded, h with
  | [first, second], _ => exact ⟨first, second, rfl⟩

theorem single_of_length {decoded : List ByteString} (h : decoded.length = 1) :
    ∃ first, decoded = [first] := by
  match decoded, h with
  | [first], _ => exact ⟨first, rfl⟩

/-- Each `Deserialize` accepts exactly the buffers that start with the message's encoding. -/
theorem deserialize_iff {type : MessageType} {previous m : type.Object} {bytes : ByteVector size} :
    ((type.deserialize previous bytes).result = .ok true ∧ (type.deserialize previous bytes).object = m) ↔
      type.encode m <+: bytes.bytes := by
  cases type with
  | ping | logout | deleteAccount | activeUsers | success =>
    refine deserializeFields_map_iff (fun _ => []) rfl ?_ rfl
    intro decoded hl
    exact (List.length_eq_zero_iff.mp hl).symm
  | login =>
    refine deserializeFields_map_iff (fun m : Login => [m.username, m.password]) rfl ?_ rfl
    intro decoded hl
    obtain ⟨first, second, rfl⟩ := pair_of_length hl
    rfl
  | register =>
    refine deserializeFields_map_iff (fun m : Register => [m.username, m.password]) rfl ?_ rfl
    intro decoded hl
    obtain ⟨first, second, rfl⟩ := pair_of_length hl
    rfl
  | sendChat =>
    refine deserializeFields_map_iff (fun m : SendChat => [m.recipient, m.content]) rfl ?_ rfl
    intro decoded hl
    obtain ⟨first, second, rfl⟩ := pair_of_length hl
    rfl
  | receiveChat =>
    refine deserializeFields_map_iff (fun m : ReceiveChat => [m.sender, m.content]) rfl ?_ rfl
    intro decoded hl
    obtain ⟨first, second, rfl⟩ := pair_of_length hl
    rfl
  | changePassword =>
    refine deserializeFields_map_iff (fun m : ChangePassword => [m.newPassword]) rfl ?_ rfl
    intro decoded hl
    obtain ⟨first, rfl⟩ := single_of_length hl
    rfl
  | failure =>
    refine deserializeFields_map_iff (fun m : Failure => [m.what]) rfl ?_ rfl
    intro decoded hl
    obtain ⟨first, rfl⟩ := single_of_length hl
    rfl
  | stringList => exact StringList.deserialize_iff

theorem deserialize_accepts {type : MessageType} {m : type.Object} {bytes : ByteVector size}
    (previous : type.Object) (h : type.encode m <+: bytes.bytes) :
    (type.deserialize previous bytes).result = .ok true ∧ (type.deserialize previous bytes).object = m :=
  deserialize_iff.mpr h

theorem decode_serialized {type : MessageType} {m : type.Object} {bytes : ByteVector size}
    (h : (type.serialize m bytes).1 = true) : type.encode m <+: (type.serialize m bytes).2.bytes := by
  rw [serialize_bytes_of_fits (serialize_success.mp h)]
  exact List.prefix_append _ _

theorem encode_eq_cons (type : MessageType) (m : type.Object) :
    ∃ rest, type.encode m = type.typeId :: rest := by
  cases type <;> exact ⟨_, rfl⟩

theorem MessageType.typeId_inj {type type' : MessageType} (h : type.typeId = type'.typeId) : type = type' := by
  cases type <;> cases type' <;> first | rfl | exact absurd h (by decide)

/-- No buffer starts with the encodings of two messages. -/
theorem Message.encode_prefix_inj {m m' : Message} {bytes : ByteVector size}
    (h : m.encode <+: bytes.bytes) (h' : m'.encode <+: bytes.bytes) : m = m' := by
  obtain ⟨type, object⟩ := m
  obtain ⟨type', object'⟩ := m'
  have hid : type.typeId = type'.typeId := by
    obtain ⟨rest, he⟩ := encode_eq_cons type object
    obtain ⟨rest', he'⟩ := encode_eq_cons type' object'
    obtain ⟨tail, ht⟩ := h
    obtain ⟨tail', ht'⟩ := h'
    simp only [encode, he, he', List.cons_append] at ht ht'
    exact (List.cons.inj (ht.trans ht'.symm)).1
  obtain rfl := MessageType.typeId_inj hid
  have hobject : object = object' :=
    (deserialize_accepts object h).2.symm.trans (deserialize_accepts object h').2
  rw [hobject]

/-- `type.encode m` is what `Serialize` writes into a buffer with enough room.
`Deserialize` answers true and leaves `m` exactly on the buffers that start with
it: it gives back what was serialised, and writing an accepted message again
changes no byte of the buffer it was read from. -/
theorem codec_exact (type : MessageType) (m : type.Object) :
    (∀ {size : UInt64} (buffer : ByteVector size), (type.encode m).length ≤ size.toNat →
      (type.serialize m buffer).1 = true ∧
      (type.serialize m buffer).2.bytes = type.encode m ++ buffer.bytes.drop (type.encode m).length) ∧
    ∀ {size : UInt64} (bytes : ByteVector size) (previous : type.Object),
      (((type.deserialize previous bytes).result = .ok true ∧ (type.deserialize previous bytes).object = m) ↔
        ∃ rest, bytes.bytes = type.encode m ++ rest) ∧
      ((type.serialize m bytes).1 = true →
        (type.deserialize previous (type.serialize m bytes).2).result = .ok true ∧
        (type.deserialize previous (type.serialize m bytes).2).object = m) ∧
      ((type.deserialize previous bytes).result = .ok true →
        (type.deserialize previous bytes).object = m → type.serialize m bytes = (true, bytes)) := by
  refine ⟨fun buffer hfit => ⟨serialize_success.mpr hfit, serialize_bytes_of_fits hfit⟩, ?_⟩
  intro size bytes previous
  have hprefix : type.encode m <+: bytes.bytes ↔ ∃ rest, bytes.bytes = type.encode m ++ rest :=
    ⟨fun ⟨rest, h⟩ => ⟨rest, h.symm⟩, fun ⟨rest, h⟩ => ⟨rest, h.symm⟩⟩
  refine ⟨deserialize_iff.trans hprefix, ?_, ?_⟩
  · intro hs
    exact deserialize_accepts previous (decode_serialized hs)
  · intro hr hobj
    obtain ⟨rest, hb⟩ := deserialize_iff.mp ⟨hr, hobj⟩
    have hlen := congrArg List.length hb
    rw [bytes.length_eq, List.length_append] at hlen
    have hfit : (type.encode m).length ≤ size.toNat := by omega
    apply Prod.ext
    · exact serialize_success.mpr hfit
    · apply ByteVector.ext
      rw [serialize_bytes_of_fits hfit, ← hb, List.drop_left]

end SecureMessaging
