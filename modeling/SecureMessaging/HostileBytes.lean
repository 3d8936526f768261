import SecureMessaging.ServerSteps

namespace SecureMessaging

variable {size : UInt64}

/-- No exception, and no `resize` beyond what is left of the buffer. -/
def Decoded.Survives {α : Type} (d : Decoded α) : Prop :=
  (∃ accepted, d.result = .ok accepted) ∧ ∀ resize ∈ d.resizes, resize.requested ≤ resize.unread

/-- Each of the next `count` length words that is reached fits what follows it, and `max_size()`. -/
def fieldsFit : Nat → List UInt8 → Bool
  | 0, _ => true
  | count + 1, unread =>
    if unread.length < 8 then true
    else
      let length := (hostWord (unread.take 8)).toNat
      length ≤ unread.length - 8 && length ≤ stringMaxSize && fieldsFit count (unread.drop (8 + length))

/-- The same for the element count of a string list and its strings. -/
def listFits (unread : List UInt8) : Bool :=
  if unread.length < 8 then true
  else
    let count := (hostWord (unread.take 8)).toNat
    count ≤ unread.length - 8 && count ≤ stringVectorMaxSize && fieldsFit count (unread.drop 8)

def MessageType.fieldCount : MessageType → Nat
  | .login | .register | .sendChat | .receiveChat => 2
  | .changePassword | .failure => 1
  | .ping | .logout | .deleteAccount | .activeUsers | .success | .stringList => 0

/-- The lengths in a buffer are no lie for a message of the type. -/
def lengthsFit (type : MessageType) : List UInt8 → Bool
  | [] => true
  | id :: rest => id != type.typeId || if type = .stringList then listFits rest else fieldsFit type.fieldCount rest

theorem fieldsFit_long {count : Nat} {unread : List UInt8} (h : 8 ≤ unread.length) :
    fieldsFit (count + 1) unread = true ↔
      ((hostWord (unread.take 8)).toNat ≤ unread.length - 8 ∧ (hostWord (unread.take 8)).toNat ≤ stringMaxSize) ∧
        fieldsFit count (unread.drop (8 + (hostWord (unread.take 8)).toNat)) = true := by
  simp only [fieldsFit, if_neg (Nat.not_lt.mpr h), Bool.and_eq_true, decide_eq_true_eq]

theorem listFits_long {rest : List UInt8} (h : 8 ≤ rest.length) :
    listFits rest = true ↔
      ((hostWord (rest.take 8)).toNat ≤ rest.length - 8 ∧
        (hostWord (rest.take 8)).toNat ≤ stringVectorMaxSize) ∧
      fieldsFit (hostWord (rest.take 8)).toNat (rest.drop 8) = true := by
  simp only [listFits, if_neg (Nat.not_lt.mpr h), Bool.and_eq_true, decide_eq_true_eq]

theorem readFields_survives {fields : List ByteString} {reader : ByteReader size} :
    (readFields fields reader).Survives ↔ fieldsFit fields.length reader.unread = true := by
  induction fields generalizing reader with
  | nil => simp [readFields, Decoded.Survives, fieldsFit]
  | cons field fields ih =>
    rcases readField_cases field reader with ⟨hshort, hone⟩ | ⟨hlen, hasked, hcases⟩
    · have hread : readFields (field :: fields) reader = ⟨.ok false, field :: fields, []⟩ := by
        simp [readFields, hone]
      simp [hread, Decoded.Survives, fieldsFit, hshort]
    · have hfit : fieldsFit (field :: fields).length reader.unread = true ↔
          ((nextLength reader).toNat ≤ reader.unread.length - 8 ∧ (nextLength reader).toNat ≤ stringMaxSize) ∧
            fieldsFit fields.length (reader.unread.drop (8 + (nextLength reader).toNat)) = true :=
        fieldsFit_long hlen
      rw [hfit]
      rcases hcases with ⟨hbig, hresult⟩ | ⟨_, hlong, hresult⟩ | ⟨hmax, hle, next, hresult, _, hnext⟩
      · constructor
        · intro hsurvives
          obtain ⟨accepted, hok⟩ := hsurvives.1
          simp [readFields, hresult] at hok
        · intro h
          have hle := h.1.2
          omega
      · constructor
        · intro hsurvives
          have hread : (readFields (field :: fields) reader).resizes = (readField field reader).resizes := by
            simp [readFields, hresult]
          have hle := hsurvives.2 ⟨(nextLength reader).toNat, reader.unread.length - 8⟩
            (by rw [hread, hasked]; exact List.mem_singleton_self _)
          dsimp only at hle
          omega
        · intro h
          have hle := h.1.1
          omega
      · have hread : readFields (field :: fields) reader =
            ⟨(readFields fields next).result, (readField field reader).object :: (readFields fields next).object,
              (readField field reader).resizes ++ (readFields fields next).resizes⟩ := by
          simp [readFields, hresult]
        rw [hread, ← hnext, ← ih]
        constructor
        · intro hsurvives
          refine ⟨⟨hle, hmax⟩, hsurvives.1, ?_⟩
          intro resize hresize
          exact hsurvives.2 resize (List.mem_append_right _ hresize)
        · intro h
          obtain ⟨_, hok, hrest⟩ := h
          refine ⟨hok, ?_⟩
          intro resize hresize
          rcases List.mem_append.mp hresize with hfirst | hlater
          · rw [hasked] at hfirst
            rw [List.mem_singleton.mp hfirst]
            exact hle
          · exact hrest resize hlater

theorem deserializeFields_survives {typeId : UInt8} {fields : List ByteString} {bytes : ByteVector size} :
    (deserializeFields typeId fields bytes).Survives ↔
      ∀ rest, bytes.bytes = typeId :: rest → fieldsFit fields.length rest = true := by
  rcases deserializeFields_cases typeId fields bytes with ⟨rest, hb, reader, hunread, heq⟩ | ⟨hne, heq⟩
  · rw [heq, readFields_survives, hunread]
    constructor
    · intro hfit other hother
      rw [hb] at hother
      rw [← (List.cons.inj hother).2]
      exact hfit
    · intro h
      exact h rest hb
  · rw [heq]
    constructor
    · intro _ rest hb
      exact absurd hb (hne rest)
    · intro _
      exact ⟨⟨false, rfl⟩, by simp⟩

theorem StringList.deserialize_survives {m : StringList} {bytes : ByteVector size} :
    (m.deserialize bytes).Survives ↔ ∀ rest, bytes.bytes = typeId :: rest → listFits rest = true := by
  rcases m.deserialize_cases bytes with ⟨hne, heq⟩ | ⟨rest, hb, hcases⟩
  · rw [heq]
    constructor
    · intro _ rest hb
      exact absurd hb (hne rest)
    · intro _
      exact ⟨⟨false, rfl⟩, by simp⟩
  · have hrest : (∀ other, bytes.bytes = typeId :: other → listFits other = true) ↔ listFits rest = true := by
      constructor
      · intro h
        exact h rest hb
      · intro hfit other hother
        rw [hb] at hother
        rw [← (List.cons.inj hother).2]
        exact hfit
    rw [hrest]
    rcases hcases with ⟨hshort, heq⟩ | ⟨hlong, hbig, heq⟩ | ⟨hlong, hmax, reader, hunread, hres, _, hasked⟩
    · rw [heq]
      simp [Decoded.Survives, listFits, hshort]
    · rw [heq, listFits_long hlong]
      constructor
      · intro hsurvives
        obtain ⟨accepted, hok⟩ := hsurvives.1
        cases hok
      · intro h
        have hle := h.1.2
        omega
    · have hfields : (readFields (resizeStrings m.value (hostWord (rest.take 8)).toNat) reader).Survives ↔ _ :=
        readFields_survives
      rw [resizeStrings_length, hunread] at hfields
      rw [listFits_long hlong, ← hfields]
      unfold Decoded.Survives
      rw [hres, hasked]
      constructor
      · intro hsurvives
        have hle := hsurvives.2 _ (List.mem_cons_self ..)
        refine ⟨⟨hle, hmax⟩, hsurvives.1, ?_⟩
        intro resize hresize
        exact hsurvives.2 resize (List.mem_cons_of_mem _ hresize)
      · intro h
        obtain ⟨⟨hle, _⟩, hok, hrest⟩ := h
        refine ⟨hok, ?_⟩
        intro resize hresize
        rcases List.mem_cons.mp hresize with hfirst | hlater
        · rw [hfirst]
          exact hle
        · exact hrest resize hlater

theorem lengthsFit_iff {type : MessageType} {bytes : List UInt8} :
    lengthsFit type bytes = true ↔ ∀ rest, bytes = type.typeId :: rest →
      (if type = .stringList then listFits rest else fieldsFit type.fieldCount rest) = true := by
  cases bytes with
  | nil => simp [lengthsFit]
  | cons id rest =>
    unfold lengthsFit
    rw [Bool.or_eq_true, bne_iff_ne]
    constructor
    · intro h other hother
      obtain ⟨hid, hrest⟩ := List.cons.inj hother
      rcases h with hne | hfit
      · exact absurd hid hne
      · rw [← hrest]
        exact hfit
    · intro h
      by_cases hid : id = type.typeId
      · exact Or.inr (h rest (by rw [hid]))
      · exact Or.inl hid

theorem deserialize_survives (type : MessageType) (m : type.Object) (bytes : ByteVector size) :
    (type.deserialize m bytes).Survives ↔ lengthsFit type bytes.bytes = true := by
  rw [lengthsFit_iff]
  cases type with
  | stringList => exact StringList.deserialize_survives
  | ping | login | register | logout | deleteAccount | changePassword | activeUsers | sendChat | receiveChat
  | success | failure => exact deserializeFields_survives

theorem fieldsFit_of_encoded {decoded : List ByteString} {unread : List UInt8}
    (h : (fieldWrites decoded).flatten <+: unread) : fieldsFit decoded.length unread = true := by
  induction decoded generalizing unread with
  | nil => rfl
  | cons field fields ih =>
    obtain ⟨hlen, _, _, hrest⟩ := fieldWrites_cons_isPrefix.mp h
    obtain ⟨hword, hfit⟩ := fieldWrites_word h
    rw [List.length_cons, fieldsFit_long hlen, hword]
    exact ⟨⟨hfit, field.size_le⟩, ih hrest⟩

theorem fieldWrites_length_ge (fields : List ByteString) : fields.length ≤ (fieldWrites fields).flatten.length := by
  induction fields with
  | nil => exact Nat.le_refl 0
  | cons field fields ih =>
    simp only [fieldWrites, List.flatten_cons, List.length_append, List.length_cons, hostBytes_length]
    omega

theorem listFits_of_encoded {m : StringList} {unread : List UInt8}
    (h : hostBytes (UInt64.ofNat m.value.length) ++ (fieldWrites m.value).flatten <+: unread) :
    listFits unread = true := by
  obtain ⟨hword, hrest⟩ := append_prefix_iff.mp h
  rw [hostBytes_length] at hword hrest
  have hlen : 8 ≤ unread.length := by
    have heq := congrArg List.length hword
    rw [hostBytes_length, List.length_take] at heq
    omega
  have hcount : (hostWord (unread.take 8)).toNat = m.value.length := by
    rw [← hword, hostWord_hostBytes, StringList.count_toNat]
  have hfit : m.value.length ≤ unread.length - 8 := by
    have hle := hrest.length_le
    have hge := fieldWrites_length_ge m.value
    rw [List.length_drop] at hle
    omega
  rw [listFits_long hlen, hcount]
  exact ⟨⟨hfit, m.size_le⟩, fieldsFit_of_encoded hrest⟩

theorem encode_fields {type : MessageType} (htype : type ≠ .stringList) (m : type.Object) :
    ∃ fields : List ByteString, fields.length = type.fieldCount ∧
      type.encode m = type.typeId :: (fieldWrites fields).flatten := by
  cases type with
  | stringList => exact absurd rfl htype
  | ping | login | register | logout | deleteAccount | changePassword | activeUsers | sendChat | receiveChat
  | success | failure => exact ⟨_, rfl, rfl⟩

/-- What a message was written into is no lie, whatever type it is read as. -/
theorem lengthsFit_of_encoded {m : Message} {bytes : List UInt8} (h : m.encode <+: bytes) (type : MessageType) :
    lengthsFit type bytes = true := by
  rw [lengthsFit_iff]
  intro rest hb
  obtain ⟨type', object⟩ := m
  obtain ⟨behind, hencode⟩ := encode_eq_cons type' object
  have hbehind : type'.typeId = type.typeId ∧ behind <+: rest := by
    have hprefix : type'.encode object <+: bytes := h
    rw [hencode, hb] at hprefix
    exact List.cons_prefix_cons.mp hprefix
  obtain rfl := MessageType.typeId_inj hbehind.1
  split
  next hlist =>
    subst hlist
    have hlist : behind = hostBytes (UInt64.ofNat object.value.length) ++ (fieldWrites object.value).flatten :=
      (List.cons.inj hencode).2.symm
    rw [hlist] at hbehind
    exact listFits_of_encoded hbehind.2
  next hlist =>
    obtain ⟨fields, hcount, hfields⟩ := encode_fields hlist object
    rw [hencode] at hfields
    rw [(List.cons.inj hfields).2] at hbehind
    rw [← hcount]
    exact fieldsFit_of_encoded hbehind.2

/-- No length field makes `resize` throw when the buffer is read as one of `types`. -/
def Resizable (types : List MessageType) (buffer : MessageBuffer) : Prop :=
  ∀ type ∈ types, ∀ previous : type.Object, ∃ accepted, (type.deserialize previous buffer).result = .ok accepted

/-- What `HandleBufferedRequest` reads its buffer as. -/
def Request.types : List MessageType := [.ping, .register, .login, .sendChat]

theorem resizable_of_lengthsFit {types : List MessageType} {buffer : MessageBuffer}
    (h : ∀ type, lengthsFit type buffer.bytes = true) : Resizable types buffer := by
  intro type _ previous
  exact ((deserialize_survives type previous buffer).mpr (h type)).1

theorem resizable_of_encoded {types : List MessageType} {buffer : MessageBuffer} {m : Message}
    (h : m.encode <+: buffer.bytes) : Resizable types buffer :=
  resizable_of_lengthsFit (lengthsFit_of_encoded h)

/-- Nothing is resized for a buffer of another type. -/
theorem deserialize_other {buffer : MessageBuffer} {type : MessageType} {id : UInt8} {rest : List UInt8}
    (hb : buffer.bytes = id :: rest) (hne : id ≠ type.typeId) (previous : type.Object) :
    ∃ accepted, (type.deserialize previous buffer).result = .ok accepted := by
  refine ((deserialize_survives type previous buffer).mpr (lengthsFit_iff.mpr ?_)).1
  intro other hother
  exact absurd (List.cons.inj (hb.symm.trans hother)).1 hne

theorem readField_result (field field' : ByteString) (reader : ByteReader size) :
    (readField field reader).result = (readField field' reader).result := by
  unfold readField
  split
  next => rfl
  next word behind _ =>
    dsimp only
    unfold ByteString.resize
    by_cases hmax : (hostWord word).toNat ≤ stringMaxSize
    · rw [dif_pos hmax, dif_pos hmax]
      dsimp only
      cases behind.read (hostWord word) <;> rfl
    · rw [dif_neg hmax, dif_neg hmax]

/-- What comes of reading some fields does not depend on what they held before. -/
theorem readFields_result {fields fields' : List ByteString} (h : fields.length = fields'.length)
    (reader : ByteReader size) : (readFields fields reader).result = (readFields fields' reader).result := by
  induction fields generalizing fields' reader with
  | nil =>
    rw [List.eq_nil_of_length_eq_zero h.symm]
  | cons field fields ih =>
    cases fields' with
    | nil => cases h
    | cons field' fields' =>
      have hone := readField_result field field' reader
      unfold readFields
      dsimp only
      rw [hone]
      cases (readField field' reader).result with
      | error e => rfl
      | ok read =>
        cases read with
        | none => rfl
        | some next => exact ih (Nat.succ.inj h) next

theorem deserializeFields_result {fields fields' : List ByteString} (h : fields.length = fields'.length)
    (typeId : UInt8) (bytes : ByteVector size) :
    (deserializeFields typeId fields bytes).result = (deserializeFields typeId fields' bytes).result := by
  unfold deserializeFields
  split
  next => rfl
  next =>
    split
    next => exact readFields_result h _
    next => rfl

theorem deserialize_result {type : MessageType} (htype : type ≠ .stringList) (m m' : type.Object)
    (bytes : ByteVector size) : (type.deserialize m bytes).result = (type.deserialize m' bytes).result := by
  cases type with
  | stringList => exact absurd rfl htype
  | ping | login | register | logout | deleteAccount | changePassword | activeUsers | sendChat | receiveChat
  | success | failure =>
    refine deserializeFields_result ?_ _ bytes
    rfl

namespace Server

variable {χ : Type} {sha256 : List UInt8 → Digest} {server : Server χ} {fd : Int}

theorem handleRequest_returns (sha256 : List UInt8 → Digest) {session : Session χ}
    (hs : server.sessions.sessions fd = some session) (request : Request) (result : Int) :
    ∃ handled, handleRequest sha256 server fd request result = .ok handled := by
  cases request with
  | ping m => exact ⟨_, rfl⟩
  | register m =>
    rcases handleRegister_cases sha256 server fd m with ⟨_, hok⟩ | ⟨_, _, hok⟩
    · exact ⟨_, hok⟩
    · exact ⟨_, hok⟩
  | login m =>
    rcases handleLogin_cases sha256 server fd m with ⟨_, _, _, _, hok⟩ | ⟨_, _, _, hok⟩
    · exact ⟨_, hok⟩
    · exact ⟨_, hok⟩
  | sendChat m =>
    rcases handleSendChat_cases server m result hs with ⟨_, _, _, _, _, hok⟩ | ⟨_, _, _, hok⟩
    · exact ⟨_, hok⟩
    · exact ⟨_, hok⟩

theorem handleBufferedRequestAs_returns {T : Type} [Inhabited T] {deserialize : T → MessageBuffer → Decoded T}
    {handle : T → Fallible (Handled χ)}
    (hresult : ∃ accepted, (deserialize default server.messageBuffer).result = .ok accepted)
    (hhandle : ∀ m, ∃ handled, handle m = .ok handled) :
    ∃ handled, server.handleBufferedRequestAs deserialize handle = .ok handled := by
  obtain ⟨accepted, hok⟩ := hresult
  unfold handleBufferedRequestAs
  simp only [hok, bind, Except.bind]
  split
  · exact hhandle _
  · exact ⟨_, rfl⟩

theorem handleBufferedRequest_returns (sha256 : List UInt8 → Digest) {session : Session χ}
    (hs : server.sessions.sessions fd = some session) (hbuffer : Resizable Request.types server.messageBuffer)
    (result : Int) : ∃ handled, handleBufferedRequest sha256 server fd result = .ok handled := by
  obtain ⟨id, rest, hb, _⟩ := messageBuffer_read server.messageBuffer
  rw [handleBufferedRequest_eq result hb]
  rcases typeId_cases id with rfl | rfl | rfl | rfl | hother
  · rw [byTypeId_ping]
    exact handleBufferedRequestAs_returns (hbuffer .ping (by decide) default)
      fun m => handleRequest_returns sha256 hs (.ping m) result
  · rw [byTypeId_register]
    exact handleBufferedRequestAs_returns (hbuffer .register (by decide) default)
      fun m => handleRequest_returns sha256 hs (.register m) result
  · rw [byTypeId_login]
    exact handleBufferedRequestAs_returns (hbuffer .login (by decide) default)
      fun m => handleRequest_returns sha256 hs (.login m) result
  · rw [byTypeId_sendChat]
    exact handleBufferedRequestAs_returns (hbuffer .sendChat (by decide) default)
      fun m => handleRequest_returns sha256 hs (.sendChat m) result
  · rw [hother]
    exact ⟨_, rfl⟩

theorem request_returns (sha256 : List UInt8 → Digest) {session : Session χ} {buffer : MessageBuffer}
    (hs : server.sessions.sessions fd = some session) (hbuffer : Resizable Request.types buffer)
    (chatResult responseResult : Int) :
    ∃ out next, Step sha256 server (.ready fd (some buffer) chatResult responseResult) out next := by
  obtain ⟨handled, hhandled⟩ := @handleBufferedRequest_returns χ { server with messageBuffer := buffer } fd sha256
    session hs hbuffer chatResult
  exact ⟨_, _, step_of_handled responseResult hs hhandled⟩

/-- Decoding goes well exactly if the lengths in the buffer are no lies, and then
`HandleBufferedRequest` ends without an exception. -/
theorem decoding_survives (sha256 : List UInt8 → Digest) :
    (∀ (size : UInt64) (type : MessageType) (m : type.Object) (bytes : ByteVector size),
      (type.deserialize m bytes).Survives ↔ lengthsFit type bytes.bytes = true) ∧
    ∀ (χ : Type) (server : Server χ) (fd result : Int), (∃ session, server.sessions.sessions fd = some session) →
      (∀ type, lengthsFit type server.messageBuffer.bytes = true) →
      ∃ handled, handleBufferedRequest sha256 server fd result = .ok handled := by
  refine ⟨fun size type m bytes => deserialize_survives type m bytes, ?_⟩
  intro χ server fd result hpresent hfit
  obtain ⟨session, hs⟩ := hpresent
  exact handleBufferedRequest_returns sha256 hs (resizable_of_lengthsFit hfit) result

def throws {α : Type} (computation : Fallible α) (exception : StdException) : Bool :=
  match computation with
  | .ok _ => false
  | .error e => e == exception

theorem throws_iff {α : Type} {computation : Fallible α} {exception : StdException} :
    throws computation exception = true ↔ computation = .error exception := by
  cases computation with
  | ok a => simp [throws]
  | error e => simp [throws]

def shortLogin : Server Nat :=
  { (init : Server Nat).establishConnection 5 (some 0) with
    messageBuffer := ((Request.login alice).message.serialize (ByteVector.zero messageBufferSize)).2 }

theorem shortLogin_encoded : (Request.login alice).message.encode <+: shortLogin.messageBuffer.bytes := by
  have hshort : (Request.login alice).message.encode.length ≤ messageBufferSize.toNat := by decide +kernel
  have hbytes : shortLogin.messageBuffer.bytes = _ := serialize_bytes_of_fits hshort
  rw [hbytes]
  exact List.prefix_append _ _

theorem shortLogin_present : ∃ session, shortLogin.sessions.sessions 5 = some session :=
  Option.isSome_iff_exists.mp (by decide)

/-- On a buffer that a client wrote. -/
theorem decoding_survives_shortLogin :
    (Login.deserialize default shortLogin.messageBuffer).Survives ∧
      ∃ handled, handleBufferedRequest paddedDigest shortLogin 5 1 = .ok handled := by
  have hfit := lengthsFit_of_encoded shortLogin_encoded
  exact ⟨((decoding_survives paddedDigest).1 _ .login default _).mpr (hfit .login),
    (decoding_survives paddedDigest).2 Nat shortLogin 5 1 shortLogin_present hfit⟩

/-- A Login request with a user name of 2^64 - 1 bytes. -/
def hostileLogin : MessageBuffer :=
  ⟨(Login.typeId :: List.replicate 8 255) ++ List.replicate 65527 0, by
    simp only [List.length_append, List.length_cons, List.length_replicate, messageBufferSize_toNat]⟩

def hostileServer : Server Nat :=
  { (init : Server Nat).establishConnection 5 (some 0) with messageBuffer := hostileLogin }

theorem hostile_login : ¬(Login.deserialize default hostileLogin).Survives ∧
    handleBufferedRequest paddedDigest hostileServer 5 1 = .error .lengthError := by
  refine ⟨?_, ?_⟩
  · intro hsurvives
    obtain ⟨accepted, hok⟩ := hsurvives.1
    have hthrows : throws (Login.deserialize default hostileLogin).result .lengthError = true := by decide +kernel
    rw [hok] at hthrows
    cases hthrows
  · have hthrows : throws (handleBufferedRequest paddedDigest hostileServer 5 1) .lengthError = true := by
      decide +kernel
    exact throws_iff.mp hthrows

end Server

end SecureMessaging
