import Mathlib.Data.Nat.Bitwise
import SecureMessaging.AccountRegistry
import SecureMessaging.Lib.Ledger
import SecureMessaging.Lib.Runs

namespace SecureMessaging

namespace AccountRegistry

def IsLowercase (c : UInt8) : Prop := 97 ≤ c.toNat ∧ c.toNat ≤ 122

def IsUppercase (c : UInt8) : Prop := 65 ≤ c.toNat ∧ c.toNat ≤ 90

def IsDigit (c : UInt8) : Prop := 48 ≤ c.toNat ∧ c.toNat ≤ 57

def IsAlphanumeric (c : UInt8) : Prop := IsLowercase c ∨ IsUppercase c ∨ IsDigit c

def IsUnderscore (c : UInt8) : Prop := c.toNat = 95

/-- 8 to 32 characters, all of them letters, digits or underscores. -/
structure ValidUsername (username : ByteString) : Prop where
  long : 8 ≤ username.data.length
  short : username.data.length ≤ 32
  plain : ∀ c ∈ username.data, IsAlphanumeric c ∨ IsUnderscore c

/-- At least 12 characters, one of each kind among them. -/
structure ValidPassword (password : ByteString) : Prop where
  long : 12 ≤ password.data.length
  lowercase : ∃ c ∈ password.data, IsLowercase c
  uppercase : ∃ c ∈ password.data, IsUppercase c
  digit : ∃ c ∈ password.data, IsDigit c
  special : ∃ c ∈ password.data, ¬IsAlphanumeric c

/-- A literal holds the bytes of a range if it does so for all 256 of them. -/
theorem mem_literal {text : String} {low high : Nat}
    (h : ∀ n, n < 256 → (UInt8.ofNat n ∈ asciiBytes text ↔ low ≤ n ∧ n ≤ high)) (c : UInt8) :
    c ∈ asciiBytes text ↔ low ≤ c.toNat ∧ c.toNat ≤ high := by
  have hc := h c.toNat c.toNat_lt
  rwa [UInt8.ofNat_toNat] at hc

theorem mem_lowercase (c : UInt8) : c ∈ lowercase ↔ IsLowercase c := mem_literal (by decide +kernel) c

theorem mem_uppercase (c : UInt8) : c ∈ uppercase ↔ IsUppercase c := mem_literal (by decide +kernel) c

theorem mem_digits (c : UInt8) : c ∈ digits ↔ IsDigit c := mem_literal (by decide +kernel) c

theorem mem_underscore (c : UInt8) : c ∈ asciiBytes "_" ↔ IsUnderscore c := by
  have hrange : c ∈ asciiBytes "_" ↔ 95 ≤ c.toNat ∧ c.toNat ≤ 95 := mem_literal (by decide +kernel) c
  unfold IsUnderscore
  rw [hrange]
  omega

theorem mem_alphanumeric (c : UInt8) : c ∈ lowercase ++ uppercase ++ digits ↔ IsAlphanumeric c := by
  rw [List.mem_append, List.mem_append, mem_lowercase, mem_uppercase, mem_digits, or_assoc]
  rfl

theorem mem_usernameCharacters (c : UInt8) :
    c ∈ lowercase ++ uppercase ++ digits ++ asciiBytes "_" ↔ IsAlphanumeric c ∨ IsUnderscore c := by
  rw [List.mem_append, mem_alphanumeric, mem_underscore]

theorem findFirstOf_isNone {text : ByteString} {set : List UInt8} :
    (findFirstOf text set).isNone = true ↔ ∀ c ∈ text.data, c ∉ set := by
  simp [findFirstOf]

theorem findFirstNotOf_isNone {text : ByteString} {set : List UInt8} :
    (findFirstNotOf text set).isNone = true ↔ ∀ c ∈ text.data, c ∈ set := by
  simp [findFirstNotOf]

theorem findFirstNotOf_isSome {text : ByteString} {set : List UInt8} :
    (findFirstNotOf text set).isSome = true ↔ ∃ c ∈ text.data, c ∉ set := by
  have hnone : (findFirstNotOf text set).isNone = true ↔ ∀ c ∈ text.data, c ∈ set := findFirstNotOf_isNone
  rw [← Option.not_isNone, Bool.not_eq_true', ← Bool.not_eq_true, hnone]
  simp

theorem and_flag (errors i : Nat) : errors &&& 2 ^ i ≠ 0 ↔ errors.testBit i = true := by
  rw [Nat.and_two_pow]
  cases errors.testBit i <;> simp

theorem flag_testBit {flag k : Nat} (hflag : flag = 2 ^ k) (condition : Prop) [Decidable condition] (i : Nat) :
    (if condition then flag else 0).testBit i = (decide condition && decide (k = i)) := by
  by_cases hc : condition <;> simp [hc, hflag, Nat.testBit_two_pow]

/-- No name is too short and too long, so the `else if` on the length hides nothing. -/
theorem lengthFlags (username : ByteString) :
    (if username.data.length < 8 then Error.usernameUnder8Characters
      else if username.data.length > 32 then Error.usernameOver32Characters else 0) =
    (if username.data.length < 8 then Error.usernameUnder8Characters else 0) |||
      (if username.data.length > 32 then Error.usernameOver32Characters else 0) := by
  split
  next hshort =>
    have hlong : ¬username.data.length > 32 := by omega
    rw [if_neg hlong, Nat.or_zero]
  next => rw [Nat.zero_or]

theorem validateUsername_registered {registry : AccountRegistry} {username : ByteString}
    (h : registry.contains username = true) :
    registry.validateUsername username = Error.usernameAlreadyRegistered := by
  have hcontains : registry.accounts.contains username = true := h
  rw [validateUsername, if_pos hcontains]

theorem validateUsername_testBit {registry : AccountRegistry} {username : ByteString}
    (h : registry.contains username = false) (i : Nat) :
    (registry.validateUsername username).testBit i =
      (decide (username.data.length < 8) && decide (1 = i) ||
        decide (username.data.length > 32) && decide (2 = i) ||
        decide ((findFirstNotOf username (lowercase ++ uppercase ++ digits ++ asciiBytes "_")).isSome = true) &&
          decide (3 = i)) := by
  have hcontains : ¬registry.accounts.contains username = true := Bool.eq_false_iff.mp h
  have hshort : Error.usernameUnder8Characters = 2 ^ 1 := rfl
  have hlong : Error.usernameOver32Characters = 2 ^ 2 := rfl
  have hspecial : Error.usernameContainsSpecialCharacters = 2 ^ 3 := rfl
  rw [validateUsername, if_neg hcontains, lengthFlags, Nat.testBit_or, Nat.testBit_or, flag_testBit hshort,
    flag_testBit hlong, flag_testBit hspecial]

theorem validatePassword_testBit (password : ByteString) (i : Nat) :
    (validatePassword password).testBit i =
      (decide (password.data.length < 12) && decide (4 = i) ||
        decide ((findFirstOf password lowercase).isNone = true) && decide (5 = i) ||
        decide ((findFirstOf password uppercase).isNone = true) && decide (6 = i) ||
        decide ((findFirstNotOf password (lowercase ++ uppercase ++ digits)).isNone = true) && decide (7 = i) ||
        decide ((findFirstOf password digits).isNone = true) && decide (8 = i)) := by
  have hshort : Error.passwordUnder12Characters = 2 ^ 4 := rfl
  have hlowercase : Error.passwordMissingLowercaseCharacter = 2 ^ 5 := rfl
  have huppercase : Error.passwordMissingUppercaseCharacter = 2 ^ 6 := rfl
  have hspecial : Error.passwordMissingSpecialCharacter = 2 ^ 7 := rfl
  have hnumber : Error.passwordMissingNumber = 2 ^ 8 := rfl
  rw [validatePassword, Nat.testBit_or, Nat.testBit_or, Nat.testBit_or, Nat.testBit_or, flag_testBit hshort,
    flag_testBit hlowercase, flag_testBit huppercase, flag_testBit hspecial, flag_testBit hnumber]

/-- Where registered names follow the rules, the early exit for them hides nothing either. -/
theorem username_testBit {registry : AccountRegistry} {username : ByteString}
    (hvalid : registry.contains username = true → ValidUsername username) (i : Nat) :
    (registry.validateUsername username).testBit i =
      (decide (registry.contains username = true) && decide (0 = i) ||
        decide (username.data.length < 8) && decide (1 = i) ||
        decide (username.data.length > 32) && decide (2 = i) ||
        decide ((findFirstNotOf username (lowercase ++ uppercase ++ digits ++ asciiBytes "_")).isSome = true) &&
          decide (3 = i)) := by
  cases hcontains : registry.contains username with
  | true =>
    have hname := hvalid hcontains
    have hshort : ¬username.data.length < 8 := by
      have hlong := hname.long
      omega
    have hlong : ¬username.data.length > 32 := by
      have hshort := hname.short
      omega
    have hplain : ¬(findFirstNotOf username (lowercase ++ uppercase ++ digits ++ asciiBytes "_")).isSome = true := by
      intro hfound
      obtain ⟨c, hc, hother⟩ := findFirstNotOf_isSome.mp hfound
      exact hother ((mem_usernameCharacters c).mpr (hname.plain c hc))
    have hregistered : Error.usernameAlreadyRegistered = 2 ^ 0 := rfl
    rw [validateUsername_registered hcontains, hregistered, Nat.testBit_two_pow, decide_eq_false hshort,
      decide_eq_false hlong, decide_eq_false hplain]
    simp
  | false =>
    rw [validateUsername_testBit hcontains]
    simp

/-- Each flag of `errors` stands for its rule being broken, whatever the others say. -/
structure Reported (registry : AccountRegistry) (username password : ByteString) (errors : Nat) : Prop where
  registered : errors &&& Error.usernameAlreadyRegistered ≠ 0 ↔ registry.contains username = true
  short : errors &&& Error.usernameUnder8Characters ≠ 0 ↔ username.data.length < 8
  long : errors &&& Error.usernameOver32Characters ≠ 0 ↔ username.data.length > 32
  special : errors &&& Error.usernameContainsSpecialCharacters ≠ 0 ↔
    ∃ c ∈ username.data, ¬(IsAlphanumeric c ∨ IsUnderscore c)
  passwordShort : errors &&& Error.passwordUnder12Characters ≠ 0 ↔ password.data.length < 12
  lowercase : errors &&& Error.passwordMissingLowercaseCharacter ≠ 0 ↔ ∀ c ∈ password.data, ¬IsLowercase c
  uppercase : errors &&& Error.passwordMissingUppercaseCharacter ≠ 0 ↔ ∀ c ∈ password.data, ¬IsUppercase c
  passwordSpecial : errors &&& Error.passwordMissingSpecialCharacter ≠ 0 ↔ ∀ c ∈ password.data, IsAlphanumeric c
  number : errors &&& Error.passwordMissingNumber ≠ 0 ↔ ∀ c ∈ password.data, ¬IsDigit c
  others : ∀ i, 9 ≤ i → errors.testBit i = false

theorem register_errors (sha256 : List UInt8 → Digest) (registry : AccountRegistry)
    (username password : ByteString) :
    (registry.register sha256 username password).1 =
      registry.validateUsername username ||| validatePassword password := by
  unfold register
  dsimp only
  split <;> rfl

theorem reported {sha256 : List UInt8 → Digest} {registry : AccountRegistry} {username : ByteString}
    (hvalid : registry.contains username = true → ValidUsername username) (password : ByteString) :
    Reported registry username password (registry.register sha256 username password).1 := by
  have hbits : ∀ i, (registry.register sha256 username password).1.testBit i =
      ((registry.validateUsername username).testBit i || (validatePassword password).testBit i) := by
    intro i
    rw [register_errors, Nat.testBit_or]
  simp only [username_testBit hvalid, validatePassword_testBit] at hbits
  generalize (registry.register sha256 username password).1 = errors at hbits
  refine ⟨?_, ?_, ?_, ?_, ?_, ?_, ?_, ?_, ?_, ?_⟩
  · exact (and_flag errors 0).trans (by rw [hbits]; simp)
  · exact (and_flag errors 1).trans (by rw [hbits]; simp)
  · exact (and_flag errors 2).trans (by rw [hbits]; simp)
  · have hset : errors.testBit 3 = true ↔
        (findFirstNotOf username (lowercase ++ uppercase ++ digits ++ asciiBytes "_")).isSome = true := by
      rw [hbits]
      simp
    simp only [findFirstNotOf_isSome, mem_usernameCharacters] at hset
    exact (and_flag errors 3).trans hset
  · exact (and_flag errors 4).trans (by rw [hbits]; simp)
  · have hset : errors.testBit 5 = true ↔ (findFirstOf password lowercase).isNone = true := by
      rw [hbits]
      simp
    simp only [findFirstOf_isNone, mem_lowercase] at hset
    exact (and_flag errors 5).trans hset
  · have hset : errors.testBit 6 = true ↔ (findFirstOf password uppercase).isNone = true := by
      rw [hbits]
      simp
    simp only [findFirstOf_isNone, mem_uppercase] at hset
    exact (and_flag errors 6).trans hset
  · have hset : errors.testBit 7 = true ↔
        (findFirstNotOf password (lowercase ++ uppercase ++ digits)).isNone = true := by
      rw [hbits]
      simp
    simp only [findFirstNotOf_isNone, mem_alphanumeric] at hset
    exact (and_flag errors 7).trans hset
  · have hset : errors.testBit 8 = true ↔ (findFirstOf password digits).isNone = true := by
      rw [hbits]
      simp
    simp only [findFirstOf_isNone, mem_digits] at hset
    exact (and_flag errors 8).trans hset
  · intro i hi
    have hne : ∀ k, k < 9 → decide (k = i) = false := by
      intro k hk
      exact decide_eq_false (by omega)
    rw [hbits]
    simp [hne]

theorem clear_iff {P : Prop} {flag : Nat} (h : 0 &&& flag ≠ 0 ↔ P) : ¬P := by
  intro hp
  exact h.mpr hp (Nat.zero_and flag)

theorem valid_of_reported {registry : AccountRegistry} {username password : ByteString}
    (h : Reported registry username password 0) :
    registry.contains username = false ∧ ValidUsername username ∧ ValidPassword password := by
  have hshort := clear_iff h.short
  have hlong := clear_iff h.long
  have hspecial := clear_iff h.special
  have hpassword := clear_iff h.passwordShort
  have hlowercase := clear_iff h.lowercase
  have huppercase := clear_iff h.uppercase
  have hother := clear_iff h.passwordSpecial
  have hnumber := clear_iff h.number
  push Not at hspecial hlowercase huppercase hother hnumber
  refine ⟨Bool.eq_false_iff.mpr (clear_iff h.registered), ⟨by omega, by omega, hspecial⟩, ?_⟩
  exact ⟨by omega, hlowercase, huppercase, hnumber, hother⟩

theorem validateUsername_valid {registry : AccountRegistry} {username : ByteString}
    (h : registry.contains username = false) (hvalid : ValidUsername username) :
    registry.validateUsername username = 0 := by
  have hlong := hvalid.long
  have hshort := hvalid.short
  have hplain : ¬(findFirstNotOf username (lowercase ++ uppercase ++ digits ++ asciiBytes "_")).isSome = true := by
    intro hfound
    obtain ⟨c, hc, hother⟩ := findFirstNotOf_isSome.mp hfound
    exact hother ((mem_usernameCharacters c).mpr (hvalid.plain c hc))
  have hcontains : ¬registry.accounts.contains username = true := Bool.eq_false_iff.mp h
  rw [validateUsername, if_neg hcontains, if_neg (by omega), if_neg (by omega), if_neg hplain, Nat.zero_or]

theorem validatePassword_valid {password : ByteString} (hvalid : ValidPassword password) :
    validatePassword password = 0 := by
  obtain ⟨hlong, ⟨a, ha, hlower⟩, ⟨b, hb, hupper⟩, ⟨c, hc, hdigit⟩, ⟨d, hd, hspecial⟩⟩ := hvalid
  have hlowercase : ¬(findFirstOf password lowercase).isNone = true := by
    intro hnone
    exact findFirstOf_isNone.mp hnone a ha ((mem_lowercase a).mpr hlower)
  have huppercase : ¬(findFirstOf password uppercase).isNone = true := by
    intro hnone
    exact findFirstOf_isNone.mp hnone b hb ((mem_uppercase b).mpr hupper)
  have hnumber : ¬(findFirstOf password digits).isNone = true := by
    intro hnone
    exact findFirstOf_isNone.mp hnone c hc ((mem_digits c).mpr hdigit)
  have hother : ¬(findFirstNotOf password (lowercase ++ uppercase ++ digits)).isNone = true := by
    intro hnone
    exact hspecial ((mem_alphanumeric d).mp (findFirstNotOf_isNone.mp hnone d hd))
  rw [validatePassword, if_neg (by omega), if_neg hlowercase, if_neg huppercase, if_neg hother, if_neg hnumber]
  rfl

theorem register_iff {sha256 : List UInt8 → Digest} {registry : AccountRegistry} {username password : ByteString} :
    (registry.register sha256 username password).1 = Error.none ↔
      registry.contains username = false ∧ ValidUsername username ∧ ValidPassword password := by
  constructor
  · intro hnone
    cases hcontains : registry.contains username with
    | true =>
      rw [register_errors, validateUsername_registered hcontains] at hnone
      have hone := (Nat.or_eq_zero_iff.mp hnone).1
      cases hone
    | false =>
      have hreported : Reported registry username password (registry.register sha256 username password).1 := by
        refine reported ?_ password
        intro hregistered
        rw [hcontains] at hregistered
        cases hregistered
      rw [hnone] at hreported
      exact ⟨rfl, (valid_of_reported hreported).2⟩
  · intro h
    obtain ⟨hfree, hname, hpassword⟩ := h
    rw [register_errors, validateUsername_valid hfree hname, validatePassword_valid hpassword]
    rfl

/-- A call of `Register` with a username and a password, and the errors it returns. -/
def Step (sha256 : List UInt8 → Digest) (registry : AccountRegistry) (call : ByteString × ByteString)
    (errors : Nat) (next : AccountRegistry) : Prop :=
  registry.register sha256 call.1 call.2 = (errors, next)

variable {sha256 : List UInt8 → Digest} {registry next : AccountRegistry}
  {trace : List ((ByteString × ByteString) × Nat)} {call : ByteString × ByteString} {errors : Nat} {u p : ByteString}

/-- The entry is a call for `u` that returned 0, and `hash` is that of its password. -/
def Writes (sha256 : List UInt8 → Digest) (entry : (ByteString × ByteString) × Nat) (u hash : ByteString) : Prop :=
  ∃ p, entry = ((u, p), Error.none) ∧ hash = hashPassword sha256 p

theorem ledger_step (ledger : Ledger (Writes sha256) trace registry.accounts)
    (h : Step sha256 registry call errors next) :
    Ledger (Writes sha256) (trace ++ [(call, errors)]) next.accounts := by
  obtain ⟨u, p⟩ := call
  rcases register_cases sha256 registry u p with ⟨hfree, hregister⟩ | ⟨errors', herrors, hregister⟩
  · obtain ⟨rfl, rfl⟩ := Prod.mk.inj (hregister.symm.trans h)
    refine ledger.write hfree ⟨p, rfl, rfl⟩ ?_
    intro v hash hwrites
    obtain ⟨q, hentry, rfl⟩ := hwrites
    cases hentry
    exact ⟨rfl, rfl⟩
  · obtain ⟨rfl, rfl⟩ := Prod.mk.inj (hregister.symm.trans h)
    refine ledger.keep ?_
    intro v hash hwrites
    obtain ⟨q, hentry, _⟩ := hwrites
    exact herrors (Prod.mk.inj hentry).2

theorem ledger_of_run (run : Run (Step sha256) empty trace registry) :
    Ledger (Writes sha256) trace registry.accounts := by
  refine run.history (P := fun trace registry => Ledger (Writes sha256) trace registry.accounts) Ledger.empty ?_
  intro trace registry call errors next _ ledger h
  exact ledger_step ledger h

/-- Registered names follow the rules: `Register` lets no other name in. -/
theorem valid_of_run (run : Run (Step sha256) empty trace registry) (hu : registry.contains u = true) :
    ValidUsername u := by
  obtain ⟨hash, hstored⟩ := Table.contains_iff.mp hu
  obtain ⟨before, entry, after, hsplit, ⟨p, rfl, _⟩, _⟩ := (ledger_of_run run).written u hash hstored
  rw [hsplit] at run
  obtain ⟨earlier, later, _, hstep, _⟩ := run.at_entry
  have hnone : (earlier.register sha256 u p).1 = Error.none := congrArg Prod.fst hstep
  exact (register_iff.mp hnone).2.1

/-- `Register` reports every broken rule and no other. -/
theorem errors_complete (run : Run (Step sha256) empty trace registry) (username password : ByteString) :
    Reported registry username password (registry.register sha256 username password).1 :=
  reported (fun hregistered => valid_of_run run hregistered) password

def zeroDigest (_ : List UInt8) : Digest := ⟨List.replicate 32 0, by simp⟩

def dorothy : ByteString × ByteString :=
  (⟨asciiBytes "dorothy_d", by decide⟩, ⟨asciiBytes "dorothyDean4#", by decide⟩)

theorem errors_complete_dorothy : ∃ trace registry,
    Run (Step zeroDigest) empty trace registry ∧ registry.contains dorothy.1 = true ∧
      Reported registry dorothy.1 dorothy.1 (registry.register zeroDigest dorothy.1 dorothy.1).1 := by
  have hstep : Step zeroDigest empty dorothy (empty.register zeroDigest dorothy.1 dorothy.2).1
      (empty.register zeroDigest dorothy.1 dorothy.2).2 := rfl
  have run := Run.init.next hstep
  exact ⟨_, _, run, by decide +kernel, errors_complete run dorothy.1 dorothy.1⟩

/-- The one call for `u` that returned 0 was for `p`. -/
def Won (trace : List ((ByteString × ByteString) × Nat)) (u p : ByteString) : Prop :=
  ∃ before after, trace = before ++ ((u, p), Error.none) :: after ∧
    ∀ q, ((u, q), Error.none) ∉ before ++ after

theorem won_of_stored {hash : ByteString} (ledger : Ledger (Writes sha256) trace registry.accounts)
    (h : registry.accounts u = some hash) : ∃ p, Won trace u p ∧ hash = hashPassword sha256 p := by
  obtain ⟨before, entry, after, hsplit, ⟨p, rfl, hhash⟩, hothers⟩ := ledger.written u hash h
  refine ⟨p, ⟨before, after, hsplit, ?_⟩, hhash⟩
  intro q hq
  exact hothers _ hq _ ⟨q, rfl, rfl⟩

theorem stored_of_won (ledger : Ledger (Writes sha256) trace registry.accounts) (h : Won trace u p) :
    registry.accounts u = some (hashPassword sha256 p) := by
  obtain ⟨before, after, hsplit, _⟩ := h
  exact ledger.stored _ (by rw [hsplit]; simp) u _ ⟨p, rfl, rfl⟩

/-- What the calls of `Register` come to, told by their arguments alone. -/
structure FirstWins (sha256 : List UInt8 → Digest) (trace : List ((ByteString × ByteString) × Nat))
    (registry : AccountRegistry) : Prop where
  accepted : ∀ before u p errors after, trace = before ++ ((u, p), errors) :: after →
    (errors = Error.none ↔ ValidUsername u ∧ ValidPassword p ∧ ∀ q, ((u, q), Error.none) ∉ before)
  contains : ∀ u, registry.contains u = true ↔ ∃ p, Won trace u p
  matching : ∀ u q, registry.matchingPassword sha256 u q = .ok true ↔
    ∃ p, Won trace u p ∧ sha256 q.data = sha256 p.data

theorem accepted_iff {before after : List ((ByteString × ByteString) × Nat)}
    (run : Run (Step sha256) empty (before ++ ((u, p), errors) :: after) registry) :
    errors = Error.none ↔ ValidUsername u ∧ ValidPassword p ∧ ∀ q, ((u, q), Error.none) ∉ before := by
  obtain ⟨earlier, later, hbefore, hstep, _⟩ := run.at_entry
  have herrors : (earlier.register sha256 u p).1 = errors := congrArg Prod.fst hstep
  have hfree : earlier.contains u = false ↔ ∀ q, ((u, q), Error.none) ∉ before := by
    have hledger := ledger_of_run hbefore
    unfold AccountRegistry.contains
    rw [Table.contains_eq_false, hledger.free_iff]
    constructor
    · intro hno q hq
      exact hno _ hq _ ⟨q, rfl, rfl⟩
    · intro hno entry hentry hash hwrites
      obtain ⟨q, rfl, _⟩ := hwrites
      exact hno q hentry
  rw [← herrors, register_iff, hfree]
  exact ⟨fun h => ⟨h.2.1, h.2.2, h.1⟩, fun h => ⟨h.2.2, h.1, h.2.1⟩⟩

theorem firstWins_of_run (run : Run (Step sha256) empty trace registry) : FirstWins sha256 trace registry := by
  have ledger := ledger_of_run run
  refine ⟨?_, ?_, ?_⟩
  · intro before u p errors after hsplit
    rw [hsplit] at run
    exact accepted_iff run
  · intro u
    constructor
    · intro hcontains
      obtain ⟨hash, hstored⟩ := Table.contains_iff.mp hcontains
      obtain ⟨p, hwon, _⟩ := won_of_stored ledger hstored
      exact ⟨p, hwon⟩
    · intro hwon
      obtain ⟨p, hp⟩ := hwon
      exact Table.contains_iff.mpr ⟨_, stored_of_won ledger hp⟩
  · intro u q
    rw [matchingPassword_eq, Except.ok.injEq, beq_iff_eq]
    constructor
    · intro hstored
      obtain ⟨p, hwon, hhash⟩ := won_of_stored ledger hstored
      exact ⟨p, hwon, hashPassword_inj hhash⟩
    · intro h
      obtain ⟨p, hwon, hsame⟩ := h
      have hhash : hashPassword sha256 q = hashPassword sha256 p := by
        apply ByteString.ext
        simp only [hashPassword, hsame]
      rw [stored_of_won ledger hwon, hhash]

theorem register_returns (sha256 : List UInt8 → Digest) (registry : AccountRegistry)
    (call : ByteString × ByteString) : ∃ errors next, Step sha256 registry call errors next :=
  ⟨_, _, rfl⟩

/-- The first valid registration of a name wins, in every sequence of calls. -/
theorem first_valid_registration_wins (sha256 : List UInt8 → Digest) (calls : List (ByteString × ByteString)) :
    ∃ trace registry, Run (Step sha256) empty trace registry ∧ trace.map Prod.fst = calls ∧
      FirstWins sha256 trace registry := by
  obtain ⟨trace, registry, run, hcalls⟩ := Run.of_total (register_returns sha256) empty calls
  exact ⟨trace, registry, run, hcalls, firstWins_of_run run⟩

end AccountRegistry

end SecureMessaging
