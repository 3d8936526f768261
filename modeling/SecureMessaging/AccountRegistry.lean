import SecureMessaging.Lib.Containers

namespace SecureMessaging

/-- SHA-256 stays a parameter: some function to digests of 32 bytes. -/
abbrev Digest := { bytes : List UInt8 // bytes.length = 32 }

def hexDigit (n : Nat) : UInt8 := if n < 10 then UInt8.ofNat (48 + n) else UInt8.ofNat (55 + n)

/-- Two uppercase hexadecimal characters for each byte. -/
def hexEncode (bytes : List UInt8) : List UInt8 :=
  bytes.flatMap fun byte => [hexDigit (byte.toNat / 16), hexDigit (byte.toNat % 16)]

theorem hexEncode_length (bytes : List UInt8) : (hexEncode bytes).length = 2 * bytes.length := by
  induction bytes with
  | nil => rfl
  | cons byte bytes ih =>
    have hcons : hexEncode (byte :: bytes) =
        hexDigit (byte.toNat / 16) :: hexDigit (byte.toNat % 16) :: hexEncode bytes := rfl
    simp only [hcons, List.length_cons, ih]
    omega

theorem hexDigit_inj {m n : Nat} (hm : m < 16) (hn : n < 16) (h : hexDigit m = hexDigit n) : m = n := by
  have hval : ∀ k, k < 16 → (hexDigit k).toNat = if k < 10 then 48 + k else 55 + k := by
    intro k hk
    unfold hexDigit
    split
    all_goals
      simp only [UInt8.toNat_ofNat']
      omega
  have hh := congrArg UInt8.toNat h
  rw [hval m hm, hval n hn] at hh
  split at hh <;> split at hh <;> omega

theorem hexEncode_inj {xs ys : List UInt8} (h : hexEncode xs = hexEncode ys) : xs = ys := by
  induction xs generalizing ys with
  | nil =>
    cases ys with
    | nil => rfl
    | cons y ys => cases h
  | cons x xs ih =>
    cases ys with
    | nil => cases h
    | cons y ys =>
      obtain ⟨hhigh, htail⟩ := List.cons.inj h
      obtain ⟨hlow, hrest⟩ := List.cons.inj htail
      have hx := x.toNat_lt
      have hy := y.toNat_lt
      have hq := hexDigit_inj (by omega) (by omega) hhigh
      have hr := hexDigit_inj (by omega) (by omega) hlow
      have hxy : x = y := UInt8.toNat_inj.mp (by omega)
      rw [hxy, ih hrest]

/-- `std::string::find_first_of`; `none` is `npos`. -/
def findFirstOf (text : ByteString) (set : List UInt8) : Option Nat :=
  text.data.findIdx? fun c => set.contains c

def findFirstNotOf (text : ByteString) (set : List UInt8) : Option Nat :=
  text.data.findIdx? fun c => !set.contains c

structure AccountRegistry where
  accounts : Table ByteString ByteString

namespace AccountRegistry

namespace Error

def none : Nat := 0
def usernameAlreadyRegistered : Nat := 1
def usernameUnder8Characters : Nat := 2
def usernameOver32Characters : Nat := 4
def usernameContainsSpecialCharacters : Nat := 8
def passwordUnder12Characters : Nat := 16
def passwordMissingLowercaseCharacter : Nat := 32
def passwordMissingUppercaseCharacter : Nat := 64
def passwordMissingSpecialCharacter : Nat := 128
def passwordMissingNumber : Nat := 256

end Error

def lowercase : List UInt8 := asciiBytes "abcdefghijklmnopqrstuvwxyz"
def uppercase : List UInt8 := asciiBytes "ABCDEFGHIJKLMNOPQRSTUVWXYZ"
def digits : List UInt8 := asciiBytes "0123456789"

def empty : AccountRegistry := ⟨Table.empty⟩

def validateUsername (registry : AccountRegistry) (username : ByteString) : Nat :=
  if registry.accounts.contains username then Error.usernameAlreadyRegistered
  else
    (if username.data.length < 8 then Error.usernameUnder8Characters
      else if username.data.length > 32 then Error.usernameOver32Characters else 0) |||
    (if (findFirstNotOf username (lowercase ++ uppercase ++ digits ++ asciiBytes "_")).isSome then
      Error.usernameContainsSpecialCharacters else 0)

def validatePassword (password : ByteString) : Nat :=
  (if password.data.length < 12 then Error.passwordUnder12Characters else 0) |||
  (if (findFirstOf password lowercase).isNone then Error.passwordMissingLowercaseCharacter else 0) |||
  (if (findFirstOf password uppercase).isNone then Error.passwordMissingUppercaseCharacter else 0) |||
  (if (findFirstNotOf password (lowercase ++ uppercase ++ digits)).isNone then
    Error.passwordMissingSpecialCharacter else 0) |||
  (if (findFirstOf password digits).isNone then Error.passwordMissingNumber else 0)

def hashPassword (sha256 : List UInt8 → Digest) (password : ByteString) : ByteString :=
  ⟨hexEncode (sha256 password.data).val, by
    have hmax : 64 ≤ stringMaxSize := by decide
    have hd := (sha256 password.data).property
    rw [hexEncode_length]
    omega⟩

/-- The error flags and the registry after the call. -/
def register (sha256 : List UInt8 → Digest) (registry : AccountRegistry) (username password : ByteString) :
    Nat × AccountRegistry :=
  let errors := registry.validateUsername username ||| validatePassword password
  if errors = Error.none then (errors, ⟨registry.accounts.emplace username (hashPassword sha256 password)⟩)
  else (errors, registry)

def contains (registry : AccountRegistry) (username : ByteString) : Bool :=
  registry.accounts.contains username

def matchingPassword (sha256 : List UInt8 → Digest) (registry : AccountRegistry)
    (username password : ByteString) : Fallible Bool := do
  if registry.contains username then
    let stored ← registry.accounts.atKey username
    pure (stored == hashPassword sha256 password)
  else pure false

/-- The lines of `ErrorString`, each behind the flag it stands for. -/
def errorTexts : List (Nat × String) :=
  [(Error.usernameAlreadyRegistered, "Username already registered\n"),
    (Error.usernameUnder8Characters, "Username under 8 characters\n"),
    (Error.usernameOver32Characters, "Username over 32 characters\n"),
    (Error.usernameContainsSpecialCharacters, "Username contains special character(s)\n"),
    (Error.passwordUnder12Characters, "Password under 12 characters\n"),
    (Error.passwordMissingLowercaseCharacter, "Password missing a lowercase character\n"),
    (Error.passwordMissingUppercaseCharacter, "Password missing an uppercase character\n"),
    (Error.passwordMissingSpecialCharacter, "Password missing a special character\n"),
    (Error.passwordMissingNumber, "Password missing a number\n")]

def errorOutput (texts : List (Nat × String)) (error : Nat) : List UInt8 :=
  texts.flatMap fun entry => if error &&& entry.1 ≠ 0 then asciiBytes entry.2 else []

theorem errorOutput_length_le (texts : List (Nat × String)) (error : Nat) :
    (errorOutput texts error).length ≤ (texts.map fun entry => (asciiBytes entry.2).length).sum := by
  induction texts with
  | nil => simp [errorOutput]
  | cons entry texts ih =>
    have hcons : errorOutput (entry :: texts) error =
        (if error &&& entry.1 ≠ 0 then asciiBytes entry.2 else []) ++ errorOutput texts error := rfl
    rw [hcons, List.length_append, List.map_cons, List.sum_cons]
    split
    · omega
    · simp only [List.length_nil]
      omega

theorem errorTexts_length (error : Nat) : (errorOutput errorTexts error).length ≤ 294 :=
  errorOutput_length_le errorTexts error

/-- The last newline is erased again. -/
def errorString (error : Nat) : ByteString :=
  ⟨(errorOutput errorTexts error).dropLast, by
    have hmax : 294 ≤ stringMaxSize := by decide
    have hlen := errorTexts_length error
    rw [List.length_dropLast]
    omega⟩

theorem errorString_length (error : Nat) : (errorString error).data.length ≤ 294 := by
  have hlen := errorTexts_length error
  simp only [errorString, List.length_dropLast]
  omega

/-- A call that returns no error adds the account; any other changes nothing. -/
theorem register_cases (sha256 : List UInt8 → Digest) (registry : AccountRegistry)
    (username password : ByteString) :
    (registry.accounts username = none ∧ registry.register sha256 username password =
      (Error.none, ⟨registry.accounts.assign username (hashPassword sha256 password)⟩)) ∨
    ∃ errors, errors ≠ Error.none ∧ registry.register sha256 username password = (errors, registry) := by
  by_cases he : registry.validateUsername username ||| validatePassword password = Error.none
  · have habsent : registry.accounts username = none := by
      by_contra hpresent
      have hc : registry.accounts.contains username = true := by
        simpa [Table.contains, Option.isSome_iff_ne_none] using hpresent
      have hone : registry.validateUsername username = 1 := by
        simp [validateUsername, hc, Error.usernameAlreadyRegistered]
      rw [hone] at he
      have := Nat.or_eq_zero_iff.mp he
      omega
    refine Or.inl ⟨habsent, ?_⟩
    simp only [register, he, if_true, Table.emplace_absent habsent]
  · exact Or.inr ⟨_, he, by simp only [register, if_neg he]⟩

theorem matchingPassword_eq (sha256 : List UInt8 → Digest) (registry : AccountRegistry)
    (username password : ByteString) :
    registry.matchingPassword sha256 username password =
      .ok (registry.accounts username == some (hashPassword sha256 password)) := by
  unfold matchingPassword contains
  cases hu : registry.accounts username with
  | none =>
    have hc : registry.accounts.contains username = false := Table.contains_eq_false.mpr hu
    simp [hc, pure, Except.pure]
  | some stored =>
    have hc : registry.accounts.contains username = true := Table.contains_iff.mpr ⟨stored, hu⟩
    simp [hc, Table.atKey_ok hu, bind, Except.bind, pure, Except.pure]

theorem hashPassword_inj {sha256 : List UInt8 → Digest} {p q : ByteString}
    (h : hashPassword sha256 p = hashPassword sha256 q) : sha256 p.data = sha256 q.data :=
  Subtype.ext (hexEncode_inj (congrArg ByteString.data h))

end AccountRegistry

end SecureMessaging
