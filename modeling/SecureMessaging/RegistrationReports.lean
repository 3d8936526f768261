import SecureMessaging.HostileBytes
import SecureMessaging.Lib.InputStream
import SecureMessaging.RegisteredNames

namespace SecureMessaging

namespace AccountRegistry

/-- The text of a line without the newline it ends in. -/
def errorLine (entry : Nat × String) : List UInt8 := (asciiBytes entry.2).dropLast

def errorLines (error : Nat) : List (List UInt8) :=
  (errorTexts.filter fun entry => error &&& entry.1 ≠ 0).map errorLine

theorem errorLine_ended :
    ∀ entry ∈ errorTexts, asciiBytes entry.2 = errorLine entry ++ [newline] ∧ newline ∉ errorLine entry ∧
      errorLine entry ≠ [] := by
  decide

theorem errorLine_inj : ∀ entry ∈ errorTexts, ∀ other ∈ errorTexts, errorLine entry = errorLine other →
    entry.1 = other.1 := by
  decide

theorem errorOutput_lines {texts : List (Nat × String)} (error : Nat)
    (h : ∀ entry ∈ texts, asciiBytes entry.2 = errorLine entry ++ [newline]) :
    errorOutput texts error =
      ((texts.filter fun entry => error &&& entry.1 ≠ 0).map errorLine).flatMap fun line => line ++ [newline] := by
  induction texts with
  | nil => rfl
  | cons entry texts ih =>
    obtain ⟨hentry, htexts⟩ := List.forall_mem_cons.mp h
    have hcons : errorOutput (entry :: texts) error =
        (if error &&& entry.1 ≠ 0 then asciiBytes entry.2 else []) ++ errorOutput texts error := rfl
    rw [hcons, ih htexts]
    by_cases hset : error &&& entry.1 ≠ 0
    · have hkept : (entry :: texts).filter (fun entry => error &&& entry.1 ≠ 0) =
          entry :: texts.filter fun entry => error &&& entry.1 ≠ 0 := List.filter_cons_of_pos (decide_eq_true hset)
      rw [if_pos hset, hkept, List.map_cons, List.flatMap_cons, hentry]
    · have hdropped : (entry :: texts).filter (fun entry => error &&& entry.1 ≠ 0) =
          texts.filter fun entry => error &&& entry.1 ≠ 0 := List.filter_cons_of_neg (by simpa using hset)
      rw [if_neg hset, hdropped, List.nil_append]

/-- The text of an error is read back line by line. -/
theorem errorString_pieces (error : Nat) : (errorString error).data.pieces newline = errorLines error := by
  have houtput : errorOutput errorTexts error = (errorLines error).flatMap fun line => line ++ [newline] :=
    errorOutput_lines error fun entry hentry => (errorLine_ended entry hentry).1
  have hlines : ∀ line ∈ errorLines error, newline ∉ line ∧ line ≠ [] := by
    intro line hline
    obtain ⟨entry, hentry, rfl⟩ := List.mem_map.mp hline
    exact (errorLine_ended entry (List.mem_of_mem_filter hentry)).2
  have hdata : (errorString error).data = ((errorLines error).flatMap fun line => line ++ [newline]).dropLast := by
    rw [← houtput]
    rfl
  rw [hdata, List.pieces_dropLast hlines]

/-- A line stands in the text if its flag is set. -/
theorem mem_errorLines {error flag : Nat} {line : List UInt8}
    (h : (flag, line) ∈ errorTexts.map fun entry => (entry.1, errorLine entry)) :
    line ∈ errorLines error ↔ error &&& flag ≠ 0 := by
  obtain ⟨entry, hentry, hpair⟩ := List.mem_map.mp h
  obtain ⟨rfl, rfl⟩ := Prod.mk.inj hpair
  constructor
  · intro hline
    obtain ⟨other, hother, hsame⟩ := List.mem_map.mp hline
    obtain ⟨hmem, hset⟩ := List.mem_filter.mp hother
    have hflag : other.1 = entry.1 := errorLine_inj other hmem entry hentry hsame
    rw [← hflag]
    exact of_decide_eq_true hset
  · intro hset
    exact List.mem_map.mpr ⟨entry, List.mem_filter.mpr ⟨hentry, decide_eq_true hset⟩, rfl⟩

/-- The lines name each rule that is broken, once, and nothing else. -/
structure Listed (registry : AccountRegistry) (username password : ByteString) (lines : List (List UInt8)) :
    Prop where
  registered : asciiBytes "Username already registered" ∈ lines ↔ registry.contains username = true
  short : asciiBytes "Username under 8 characters" ∈ lines ↔ username.data.length < 8
  long : asciiBytes "Username over 32 characters" ∈ lines ↔ username.data.length > 32
  special : asciiBytes "Username contains special character(s)" ∈ lines ↔
    ∃ c ∈ username.data, ¬(IsAlphanumeric c ∨ IsUnderscore c)
  passwordShort : asciiBytes "Password under 12 characters" ∈ lines ↔ password.data.length < 12
  lowercase : asciiBytes "Password missing a lowercase character" ∈ lines ↔ ∀ c ∈ password.data, ¬IsLowercase c
  uppercase : asciiBytes "Password missing an uppercase character" ∈ lines ↔ ∀ c ∈ password.data, ¬IsUppercase c
  passwordSpecial : asciiBytes "Password missing a special character" ∈ lines ↔
    ∀ c ∈ password.data, IsAlphanumeric c
  number : asciiBytes "Password missing a number" ∈ lines ↔ ∀ c ∈ password.data, ¬IsDigit c
  once : lines.Nodup
  others : ∀ line ∈ lines, line ∈ errorTexts.map errorLine

theorem listed_of_reported {registry : AccountRegistry} {username password : ByteString} {errors : Nat}
    (h : Reported registry username password errors) : Listed registry username password (errorLines errors) := by
  have hnodup : (errorTexts.map errorLine).Nodup := by decide
  refine ⟨?_, ?_, ?_, ?_, ?_, ?_, ?_, ?_, ?_, ?_, ?_⟩
  · exact (mem_errorLines (by decide)).trans h.registered
  · exact (mem_errorLines (by decide)).trans h.short
  · exact (mem_errorLines (by decide)).trans h.long
  · exact (mem_errorLines (by decide)).trans h.special
  · exact (mem_errorLines (by decide)).trans h.passwordShort
  · exact (mem_errorLines (by decide)).trans h.lowercase
  · exact (mem_errorLines (by decide)).trans h.uppercase
  · exact (mem_errorLines (by decide)).trans h.passwordSpecial
  · exact (mem_errorLines (by decide)).trans h.number
  · exact (List.Sublist.map errorLine List.filter_sublist).nodup hnodup
  · intro line hline
    exact (List.Sublist.map errorLine List.filter_sublist).subset hline

/-- A registration that fails says why. -/
theorem errorLines_ne_nil {registry : AccountRegistry} {username password : ByteString} {errors : Nat}
    (h : Reported registry username password errors) (hne : errors ≠ 0) : errorLines errors ≠ [] := by
  intro hnil
  have hclear : ∀ entry ∈ errorTexts, errors &&& entry.1 = 0 := by
    intro entry hentry
    by_contra hset
    have hline : errorLine entry ∈ errorLines errors :=
      List.mem_map_of_mem (List.mem_filter.mpr ⟨hentry, decide_eq_true hset⟩)
    rw [hnil] at hline
    cases hline
  have hflags : errorTexts.map Prod.fst = (List.range 9).map fun i => 2 ^ i := by decide
  apply hne
  apply Nat.eq_of_testBit_eq
  intro i
  rw [Nat.zero_testBit]
  by_cases hi : i < 9
  · have hmem : 2 ^ i ∈ errorTexts.map Prod.fst := by
      rw [hflags]
      exact List.mem_map_of_mem (List.mem_range.mpr hi)
    obtain ⟨entry, hentry, hflag⟩ := List.mem_map.mp hmem
    have hzero := hclear entry hentry
    rw [hflag] at hzero
    have hbit := and_flag errors i
    cases htest : errors.testBit i with
    | false => rfl
    | true => exact absurd hzero (hbit.mpr htest)
  · exact h.others i (by omega)

end AccountRegistry

namespace Server

variable {χ : Type} {sha256 : List UInt8 → Digest} {server next : Server χ} {trace : List (Event χ × Output χ)}

theorem handleRegister_response {fd : Int} {m : Register} {handled : Handled χ}
    (h : handleRegister sha256 server fd m = .ok handled) :
    handled.response = if (server.accounts.register sha256 m.username m.password).1 = 0 then .success ⟨⟩
      else failure (AccountRegistry.errorString (server.accounts.register sha256 m.username m.password).1) := by
  unfold handleRegister at h
  dsimp only at h
  split at h
  next hnone =>
    cases h
    exact (if_pos hnone).symm
  next hsome =>
    cases h
    exact (if_neg hsome).symm

theorem response_of_register {fd chatResult responseResult : Int} {buffer : MessageBuffer} {session : Session χ}
    {m : Register} {out : Output χ} (hs : server.sessions.sessions fd = some session)
    (hrequest : requestIn buffer = some (.register m))
    (h : Step sha256 server (.ready fd (some buffer) chatResult responseResult) out next) :
    out.response = some (if (server.accounts.register sha256 m.username m.password).1 = 0 then .success ⟨⟩
      else failure (AccountRegistry.errorString (server.accounts.register sha256 m.username m.password).1)) := by
  obtain ⟨handled, hhandled, rfl, _⟩ := handled_of_step hs h
  have hencoded : (Request.register m).message.encode <+: { server with messageBuffer := buffer }.messageBuffer.bytes :=
    requestIn_iff.mp hrequest
  have hregister : handleRegister sha256 { server with messageBuffer := buffer } fd m = .ok handled :=
    (handleBufferedRequest_request chatResult hencoded).symm.trans hhandled
  have hanswer := @handleRegister_response χ sha256 { server with messageBuffer := buffer } fd m handled hregister
  exact congrArg some hanswer

/-- The answer to a Register request tells the user which rules are broken: all of them, and only these. -/
theorem registration_explained {fd chatResult responseResult : Int} {buffer : MessageBuffer} {session : Session χ}
    {m : Register} {out : Output χ} (run : Run (Step sha256) init trace server)
    (hs : server.sessions.sessions fd = some session) (hrequest : requestIn buffer = some (.register m))
    (h : Step sha256 server (.ready fd (some buffer) chatResult responseResult) out next) :
    (out.response = some (.success ⟨⟩) ∧ AccountRegistry.Listed server.accounts m.username m.password []) ∨
    ∃ text : ByteString, out.response = some (failure text) ∧ text.data.pieces newline ≠ [] ∧
      AccountRegistry.Listed server.accounts m.username m.password (text.data.pieces newline) := by
  have hresponse := response_of_register hs hrequest h
  have hvalid : server.accounts.contains m.username = true → AccountRegistry.ValidUsername m.username :=
    fun hregistered => validUsername_of_run run hregistered
  have hreported : AccountRegistry.Reported server.accounts m.username m.password
      (server.accounts.register sha256 m.username m.password).1 := AccountRegistry.reported hvalid m.password
  generalize (server.accounts.register sha256 m.username m.password).1 = errors at hresponse hreported
  have hlisted := AccountRegistry.listed_of_reported hreported
  by_cases hzero : errors = 0
  · rw [if_pos hzero] at hresponse
    subst hzero
    exact Or.inl ⟨hresponse, hlisted⟩
  · rw [if_neg hzero] at hresponse
    refine Or.inr ⟨_, hresponse, ?_, ?_⟩
    · rw [AccountRegistry.errorString_pieces]
      exact AccountRegistry.errorLines_ne_nil hreported hzero
    · rw [AccountRegistry.errorString_pieces]
      exact hlisted

/-- A registration with the user name as the password. -/
def weakRegister : Register := ⟨alice.username, alice.username⟩

theorem registration_explained_weakRegister : ∃ trace server out next text,
    Run (Step paddedDigest) (init : Server Nat) trace server ∧
      Step paddedDigest server (asks 5 (.register weakRegister)) out next ∧ out.response = some (failure text) ∧
      asciiBytes "Password under 12 characters" ∈ text.data.pieces newline := by
  have haccept : Step paddedDigest (init : Server Nat) (.accept 5 (some 0)) Output.silent
      (init.establishConnection 5 (some 0)) := rfl
  have run := Run.init.next haccept
  have hfits : (Request.register weakRegister).message.encode.length ≤ messageBufferSize.toNat := by decide
  have hrequest := requestIn_serialized hfits
  obtain ⟨session, hs⟩ := shortLogin_present
  have hencoded := requestIn_iff.mp hrequest
  obtain ⟨out, next, hstep⟩ := request_returns paddedDigest hs (resizable_of_encoded hencoded) 1 1
  have hshort : weakRegister.password.data.length < 12 := by decide
  rcases registration_explained run hs hrequest hstep with ⟨_, hlisted⟩ | ⟨text, hresponse, _, hlisted⟩
  · cases hlisted.passwordShort.mpr hshort
  · exact ⟨_, _, out, next, text, run, hstep, hresponse, hlisted.passwordShort.mpr hshort⟩

end Server

end SecureMessaging
