import SecureMessaging.Hash
import SecureMessaging.Lib.Decimal
import SecureMessaging.Lib.Simulation
import SecureMessaging.Registration

namespace SecureMessaging

/-- What `status` says of a path: that nothing is there, that it cannot say, or where the path leads. -/
inductive Resolution
  | missing
  | failing
  | found (node : Nat)
  deriving DecidableEq

/-- A regular file, or something that no text stays in, such as a directory. -/
inductive FileNode
  | file (content : List UInt8)
  | other
  deriving DecidableEq

/-- Several paths can lead to one node: they are spellings of each other, or links. -/
structure FileSystem where
  resolve : ByteString → Resolution
  nodes : Nat → FileNode

/-- A `std::ofstream` on a node, and the text that goes through it: it empties the file if it can open it, and
else nothing happens. -/
def FileSystem.rewrite (files : FileSystem) (node : Nat) (opens : Bool) (text : List UInt8) : FileSystem :=
  match opens, files.nodes node with
  | true, .file _ => { files with nodes := Function.update files.nodes node (.file text) }
  | _, _ => files

namespace FileSystem

variable (files : FileSystem) (node : Nat) (opens : Bool) (text : List UInt8)

@[simp] theorem rewrite_resolve : (files.rewrite node opens text).resolve = files.resolve := by
  unfold rewrite
  split <;> rfl

theorem rewrite_unopened : files.rewrite node false text = files := rfl

variable {files node}

theorem rewrite_ne {k : Nat} (h : k ≠ node) : (files.rewrite node opens text).nodes k = files.nodes k := by
  unfold rewrite
  split
  next => exact Function.update_of_ne h _ _
  next => rfl

theorem rewrite_file {old : List UInt8} (h : files.nodes node = .file old) :
    (files.rewrite node true text).nodes node = .file text := by
  simp [rewrite, h]

/-- What was a file is one, and nothing else is. -/
theorem rewrite_isFile (k : Nat) : (∃ content, (files.rewrite node opens text).nodes k = .file content) ↔
    ∃ content, files.nodes k = .file content := by
  by_cases hk : k = node
  · subst hk
    unfold rewrite
    split
    next old hfile =>
      dsimp only
      rw [Function.update_self, hfile]
      exact ⟨fun _ => ⟨old, rfl⟩, fun _ => ⟨text, rfl⟩⟩
    next => exact Iff.rfl
  · rw [rewrite_ne opens text hk]

end FileSystem

namespace AccountRegistry

/-- `opens` says whether the stream can open what is there. The name is on its way into the file when `at`
throws. -/
def saveAccount (registry : AccountRegistry) (files : FileSystem) (username filepath : ByteString) (opens : Bool) :
    Fallible Bool × FileSystem :=
  match files.resolve filepath with
  | .missing => (.ok false, files)
  | .failing => (.error .filesystemError, files)
  | .found node =>
    let name := decimal username.data.length ++ username.data
    match registry.accounts.atKey username with
    | .ok hash => (.ok true, files.rewrite node opens (name ++ decimal hash.data.length ++ hash.data))
    | .error e => (.error e, files.rewrite node opens name)

end AccountRegistry

/-- The registry and the files around it. -/
structure AccountStore where
  registry : AccountRegistry
  files : FileSystem

namespace AccountStore

inductive Call
  | register (username password : ByteString)
  | save (username filepath : ByteString) (opens : Bool)

inductive Returned
  | errors (errors : Nat)
  | saved (result : Fallible Bool)

def act (sha256 : List UInt8 → Digest) (store : AccountStore) : Call → Returned × AccountStore
  | .register username password =>
    let (errors, registry) := store.registry.register sha256 username password
    (.errors errors, { store with registry := registry })
  | .save username filepath opens =>
    let (result, files) := store.registry.saveAccount store.files username filepath opens
    (.saved result, { store with files := files })

def Step (sha256 : List UInt8 → Digest) (store : AccountStore) (call : Call) (returned : Returned)
    (next : AccountStore) : Prop :=
  store.act sha256 call = (returned, next)

/-- Reads a size: one with a single digit is 8 or 9. -/
def readSize : List UInt8 → Option (Nat × List UInt8)
  | [] => none
  | first :: rest =>
    if 56 ≤ first.toNat then some (decimalValue [first], rest)
    else
      match rest with
      | [] => none
      | second :: rest => some (decimalValue [first, second], rest)

def readField (bytes : List UInt8) : Option (List UInt8 × List UInt8) := do
  let (size, rest) ← readSize bytes
  if size ≤ rest.length then some (rest.take size, rest.drop size) else none

/-- The name and the hash at the front, and what stands behind them. -/
def readAccount (bytes : List UInt8) : Option (List UInt8 × List UInt8 × List UInt8) := do
  let (name, rest) ← readField bytes
  let (hash, rest) ← readField rest
  some (name, hash, rest)

theorem readSize_decimal {n : Nat} (hlow : 8 ≤ n) (hhigh : n < 80) (rest : List UInt8) :
    readSize (decimal n ++ rest) = some (n, rest) := by
  have hvalue := decimalValue_decimal n
  by_cases h : n < 10
  · have hdigit : (UInt8.ofNat (48 + n)).toNat = 48 + n := by
      rw [UInt8.toNat_ofNat']
      omega
    rw [decimal_one h] at hvalue ⊢
    have hlarge : 56 ≤ (UInt8.ofNat (48 + n)).toNat := by omega
    simp only [List.singleton_append, readSize, if_pos hlarge, hvalue]
  · have hdigit : (UInt8.ofNat (48 + n / 10)).toNat = 48 + n / 10 := by
      rw [UInt8.toNat_ofNat']
      omega
    rw [decimal_two (by omega) (by omega)] at hvalue ⊢
    have hsmall : ¬56 ≤ (UInt8.ofNat (48 + n / 10)).toNat := by omega
    simp only [List.cons_append, List.nil_append, readSize, if_neg hsmall, hvalue]

theorem readField_decimal {text : List UInt8} (hlow : 8 ≤ text.length) (hhigh : text.length < 80)
    (rest : List UInt8) : readField (decimal text.length ++ text ++ rest) = some (text, rest) := by
  have hsize := readSize_decimal hlow hhigh (text ++ rest)
  rw [← List.append_assoc] at hsize
  simp only [readField, hsize, Option.bind_eq_bind, Option.bind_some, List.length_append, Nat.le_add_right, if_true,
    List.take_left, List.drop_left]

theorem readAccount_record {name hash : List UInt8} (hlow : 8 ≤ name.length) (hhigh : name.length ≤ 32)
    (hhash : hash.length = 64) (rest : List UInt8) :
    readAccount (decimal name.length ++ name ++ (decimal hash.length ++ hash) ++ rest) = some (name, hash, rest) := by
  have hname := readField_decimal hlow (by omega : name.length < 80) (decimal hash.length ++ hash ++ rest)
  have hfield := readField_decimal (by omega : 8 ≤ hash.length) (by omega : hash.length < 80) rest
  rw [List.append_assoc]
  simp only [readAccount, hname, hfield, Option.bind_eq_bind, Option.bind_some]

variable {sha256 : List UInt8 → Digest} {store next last : AccountStore} {files : FileSystem} {call : Call}
  {returned : Returned} {trace : List (Call × Returned)} {u path : ByteString}

/-- The calls of `Register` among the calls. -/
def registration : Call × Returned → Option ((ByteString × ByteString) × Nat)
  | (.register username password, .errors errors) => some ((username, password), errors)
  | _ => none

theorem registry_run (run : Run (Step sha256) ⟨AccountRegistry.empty, files⟩ trace last) :
    Run (AccountRegistry.Step sha256) AccountRegistry.empty (trace.filterMap registration) last.registry := by
  have hrefines : Run (AccountRegistry.Step sha256) (registry ⟨AccountRegistry.empty, files⟩)
      (trace.filterMap registration) last.registry ∧ True := by
    refine run.refines (P := fun _ => True) trivial ?_
    intro store call returned next _ h
    refine ⟨?_, trivial⟩
    cases call with
    | register username password =>
      obtain ⟨rfl, rfl⟩ := Prod.mk.inj h
      exact rfl
    | save username filepath opens =>
      obtain ⟨rfl, rfl⟩ := Prod.mk.inj h
      exact rfl
  exact hrefines.1

/-- The accounts are those of the calls of `Register` that returned no error. -/
theorem stored_iff {hash : ByteString} (run : Run (Step sha256) ⟨AccountRegistry.empty, files⟩ trace last) :
    last.registry.accounts u = some hash ↔ ∃ p, (.register u p, .errors AccountRegistry.Error.none) ∈ trace ∧
      hash = AccountRegistry.hashPassword sha256 p := by
  have ledger := AccountRegistry.ledger_of_run (registry_run run)
  constructor
  · intro hstored
    obtain ⟨before, entry, after, hsplit, ⟨p, rfl, hhash⟩, _⟩ := ledger.written u hash hstored
    have hmem : ((u, p), AccountRegistry.Error.none) ∈ trace.filterMap registration := by
      rw [hsplit]
      exact List.mem_append_right _ List.mem_cons_self
    obtain ⟨⟨call, returned⟩, hentry, hcall⟩ := List.mem_filterMap.mp hmem
    unfold registration at hcall
    split at hcall
    next heq =>
      cases hcall
      rw [heq] at hentry
      exact ⟨p, hentry, hhash⟩
    next => cases hcall
  · rintro ⟨p, hmem, rfl⟩
    exact ledger.stored _ (List.mem_filterMap.mpr ⟨_, hmem, rfl⟩) u _ ⟨p, rfl, rfl⟩

theorem account_kept {hash : ByteString} (h : Step sha256 store call returned next)
    (hstored : store.registry.accounts u = some hash) : next.registry.accounts u = some hash := by
  cases call with
  | save username filepath opens =>
    obtain ⟨rfl, rfl⟩ := Prod.mk.inj h
    exact hstored
  | register username password =>
    have hnext : (⟨(store.registry.register sha256 username password).2, store.files⟩ : AccountStore) = next :=
      (Prod.mk.inj h).2
    rw [← hnext]
    rcases AccountRegistry.register_cases sha256 store.registry username password with
      ⟨hfree, hregister⟩ | ⟨errors, _, hregister⟩
    · rw [hregister]
      have hother : u ≠ username := by
        rintro rfl
        rw [hfree] at hstored
        cases hstored
      exact (Table.assign_ne hother).trans hstored
    · rw [hregister]
      exact hstored

theorem saveAccount_found {node : Nat} (registry : AccountRegistry) (u : ByteString) (opens : Bool)
    (h : files.resolve path = .found node) :
    (∃ hash, registry.accounts u = some hash ∧ registry.saveAccount files u path opens = (.ok true,
      files.rewrite node opens (decimal u.data.length ++ u.data ++ (decimal hash.data.length ++ hash.data)))) ∨
    (registry.accounts u = none ∧ registry.saveAccount files u path opens = (.error .outOfRange,
      files.rewrite node opens (decimal u.data.length ++ u.data))) := by
  unfold AccountRegistry.saveAccount
  rw [h]
  dsimp only
  cases hu : registry.accounts u with
  | none =>
    have hat : registry.accounts.atKey u = .error .outOfRange := by simp [Table.atKey, hu]
    rw [hat]
    exact Or.inr ⟨rfl, rfl⟩
  | some hash =>
    rw [Table.atKey_ok hu]
    dsimp only
    rw [List.append_assoc (decimal u.data.length ++ u.data)]
    exact Or.inl ⟨hash, rfl, rfl⟩

theorem saveAccount_cases (registry : AccountRegistry) (files : FileSystem) (u path : ByteString) (opens : Bool) :
    (registry.saveAccount files u path opens).2 = files ∨ ∃ node text, files.resolve path = .found node ∧
      (registry.saveAccount files u path opens).2 = files.rewrite node opens text := by
  cases hpath : files.resolve path with
  | missing =>
    unfold AccountRegistry.saveAccount
    rw [hpath]
    exact Or.inl rfl
  | failing =>
    unfold AccountRegistry.saveAccount
    rw [hpath]
    exact Or.inl rfl
  | found node =>
    rcases saveAccount_found registry u opens hpath with ⟨hash, _, hsave⟩ | ⟨_, hsave⟩
    · exact Or.inr ⟨node, _, rfl, congrArg Prod.snd hsave⟩
    · exact Or.inr ⟨node, _, rfl, congrArg Prod.snd hsave⟩

/-- The call saves to a path that leads to the node, and the stream can open it. -/
def Call.Opens (files : FileSystem) (node : Nat) : Call → Prop
  | .save _ path opens => opens = true ∧ files.resolve path = .found node
  | .register _ _ => False

theorem files_step (node : Nat) (h : Step sha256 store call returned next) :
    next.files.resolve = store.files.resolve ∧
      (¬call.Opens store.files node → next.files.nodes node = store.files.nodes node) ∧
      ((∃ content, next.files.nodes node = .file content) ↔ ∃ content, store.files.nodes node = .file content) := by
  cases call with
  | register username password =>
    obtain ⟨rfl, rfl⟩ := Prod.mk.inj h
    exact ⟨rfl, fun _ => rfl, Iff.rfl⟩
  | save username filepath opens =>
    have hnext : (store.registry.saveAccount store.files username filepath opens).2 = next.files :=
      congrArg files (Prod.mk.inj h).2
    rw [← hnext]
    rcases saveAccount_cases store.registry store.files username filepath opens with
      hsave | ⟨found, text, hpath, hsave⟩
    · rw [hsave]
      exact ⟨rfl, fun _ => rfl, Iff.rfl⟩
    · rw [hsave]
      refine ⟨FileSystem.rewrite_resolve _ _ _ _, ?_, FileSystem.rewrite_isFile opens text node⟩
      intro hunopened
      by_cases hnode : node = found
      · subst hnode
        have hopens : opens = false := Bool.eq_false_iff.mpr fun hopens => hunopened ⟨hopens, hpath⟩
        rw [hopens, FileSystem.rewrite_unopened]
      · exact FileSystem.rewrite_ne opens text hnode

/-- Paths lead where they led, what was a file is one, and who does not open it does not change it. -/
structure Intact (start : AccountStore) (node : Nat) (trace : List (Call × Returned)) (store : AccountStore) : Prop where
  resolve : store.files.resolve = start.files.resolve
  unopened : (∀ entry ∈ trace, ¬entry.1.Opens start.files node) → store.files.nodes node = start.files.nodes node
  isFile : (∃ content, store.files.nodes node = .file content) ↔ ∃ content, start.files.nodes node = .file content

theorem Call.opens_congr {other : FileSystem} {node : Nat} (h : other.resolve = files.resolve) :
    call.Opens other node ↔ call.Opens files node := by
  cases call with
  | register => exact Iff.rfl
  | save => rw [Call.Opens, Call.Opens, h]

theorem intact_of_run (node : Nat) (run : Run (Step sha256) store trace last) : Intact store node trace last := by
  refine run.history (P := Intact store node) ⟨rfl, fun _ => rfl, Iff.rfl⟩ ?_
  intro trace middle call returned next _ intact h
  obtain ⟨hresolve, hunopened, hisFile⟩ := files_step node h
  refine ⟨hresolve.trans intact.resolve, ?_, hisFile.trans intact.isFile⟩
  intro hnone
  have hbefore : ∀ entry ∈ trace, ¬entry.1.Opens store.files node :=
    fun entry hentry => hnone entry (List.mem_append_left _ hentry)
  have hlast : ¬call.Opens store.files node := hnone _ (List.mem_append_right _ (List.mem_singleton_self _))
  rw [← Call.opens_congr intact.resolve] at hlast
  exact (hunopened hlast).trans (intact.unopened hbefore)

theorem account_of_run {hash : ByteString} (run : Run (Step sha256) store trace last)
    (hstored : store.registry.accounts u = some hash) : last.registry.accounts u = some hash :=
  run.invariant (P := fun store : AccountStore => store.registry.accounts u = some hash) hstored
    fun hkept hstep => account_kept hstep hkept

/-- What a save leaves in the file that it opens. -/
theorem saved_step {node : Nat} {old : List UInt8} (hpath : store.files.resolve path = .found node)
    (hfile : store.files.nodes node = .file old) (h : Step sha256 store (.save u path true) returned next) :
    next.registry = store.registry ∧
    ((∃ hash, store.registry.accounts u = some hash ∧ returned = .saved (.ok true) ∧ next.files.nodes node =
        .file (decimal u.data.length ++ u.data ++ (decimal hash.data.length ++ hash.data))) ∨
      (store.registry.accounts u = none ∧ returned = .saved (.error .outOfRange) ∧
        next.files.nodes node = .file (decimal u.data.length ++ u.data))) := by
  obtain ⟨hcall, hnext⟩ := Prod.mk.inj h
  have hreturned : Returned.saved (store.registry.saveAccount store.files u path true).1 = returned := hcall
  have hfiles : (store.registry.saveAccount store.files u path true).2 = next.files := congrArg files hnext
  refine ⟨(congrArg registry hnext).symm, ?_⟩
  rcases saveAccount_found store.registry u true hpath with ⟨hash, hstored, hsave⟩ | ⟨hstored, hsave⟩
  · rw [hsave] at hreturned hfiles
    refine Or.inl ⟨hash, hstored, hreturned.symm, ?_⟩
    rw [← hfiles]
    exact FileSystem.rewrite_file _ hfile
  · rw [hsave] at hreturned hfiles
    refine Or.inr ⟨hstored, hreturned.symm, ?_⟩
    rw [← hfiles]
    exact FileSystem.rewrite_file _ hfile

/-- Names and hashes have the lengths that a record is read by. -/
theorem lengths_of_run {hash : ByteString} (run : Run (Step sha256) ⟨AccountRegistry.empty, files⟩ trace last)
    (hstored : last.registry.accounts u = some hash) :
    8 ≤ u.data.length ∧ u.data.length ≤ 32 ∧ hash.data.length = 64 := by
  have hregistrations := registry_run run
  have hcontains : last.registry.contains u = true := Table.contains_iff.mpr ⟨hash, hstored⟩
  have hvalid : AccountRegistry.ValidUsername u := AccountRegistry.valid_of_run hregistrations hcontains
  obtain ⟨_, _, _, _, ⟨password, _, rfl⟩, _⟩ :=
    (AccountRegistry.ledger_of_run hregistrations).written u hash hstored
  exact ⟨hvalid.long, hvalid.short, hashPassword_length sha256 password⟩

/-- The last save that opened a file, by whichever path, leaves in it all that it holds. For a registered name
this is an account that is read back whole and alone, although nothing stands between the sizes and the texts:
registered names have 8 to 32 characters and hashes 64. Else the call throws, and leaves half a record. -/
theorem saved_account_read_back (run : Run (Step sha256) ⟨AccountRegistry.empty, files⟩ trace last) (node : Nat) :
    Intact ⟨AccountRegistry.empty, files⟩ node trace last ∧
    ∀ before u path returned after, trace = before ++ (.save u path true, returned) :: after →
      files.resolve path = .found node → (∃ old, files.nodes node = .file old) →
      (∀ entry ∈ after, ¬entry.1.Opens files node) →
      ∃ content, last.files.nodes node = .file content ∧
        ((returned = .saved (.ok true) ∧ ∃ p hash, (.register u p, .errors AccountRegistry.Error.none) ∈ before ∧
            hash = AccountRegistry.hashPassword sha256 p ∧ last.registry.accounts u = some hash ∧
            readAccount content = some (u.data, hash.data, [])) ∨
          (returned = .saved (.error .outOfRange) ∧
            (∀ p, (.register u p, .errors AccountRegistry.Error.none) ∉ before) ∧
            content = decimal u.data.length ++ u.data)) := by
  refine ⟨intact_of_run node run, ?_⟩
  rintro before u path returned after rfl hpath hold hlast
  obtain ⟨earlier, saved, hbefore, hsave, hafter⟩ := run.at_entry
  have hearlier := intact_of_run node hbefore
  have hlater := intact_of_run node hafter
  have hpath' : earlier.files.resolve path = .found node := by
    rw [hearlier.resolve]
    exact hpath
  obtain ⟨old, hfile⟩ := hearlier.isFile.mpr hold
  have hresolve : saved.files.resolve = files.resolve := (files_step node hsave).1.trans hearlier.resolve
  have hkept : last.files.nodes node = saved.files.nodes node := by
    refine hlater.unopened ?_
    intro entry hentry
    rw [Call.opens_congr hresolve]
    exact hlast entry hentry
  obtain ⟨hregistry, ⟨hash, hstored, hreturned, hwritten⟩ | ⟨hstored, hreturned, hwritten⟩⟩ :=
    saved_step hpath' hfile hsave
  · have hsaved : saved.registry.accounts u = some hash := by rw [hregistry, hstored]
    obtain ⟨p, hregistered, hhash⟩ := (stored_iff hbefore).mp hstored
    obtain ⟨hlong, hshort, hlength⟩ := lengths_of_run hbefore hstored
    have hread := readAccount_record hlong hshort hlength []
    rw [List.append_nil] at hread
    exact ⟨_, hkept.trans hwritten, Or.inl ⟨hreturned, p, hash, hregistered, hhash, account_of_run hafter hsaved,
      hread⟩⟩
  · refine ⟨_, hkept.trans hwritten, Or.inr ⟨hreturned, ?_, rfl⟩⟩
    intro p hregistered
    rw [(stored_iff hbefore).mpr ⟨p, hregistered, rfl⟩] at hstored
    cases hstored

def isSaved : Returned → Bool
  | .saved (.ok true) => true
  | _ => false

theorem isSaved_iff {returned : Returned} : isSaved returned = true ↔ returned = .saved (.ok true) := by
  constructor
  · intro h
    unfold isSaved at h
    split at h
    next => rfl
    next => cases h
  · rintro rfl
    rfl

def grace : ByteString × ByteString :=
  (⟨asciiBytes "42_grace", by decide⟩, ⟨asciiBytes "graceGreen456$", by decide⟩)

def accountsPath : ByteString := ⟨asciiBytes "accounts.txt", by decide +kernel⟩

def sameFile : ByteString := ⟨asciiBytes "./accounts.txt", by decide +kernel⟩

/-- An empty file, and two paths that lead to it. -/
def twoSpellings : FileSystem :=
  ⟨fun path => if path = accountsPath ∨ path = sameFile then .found 7 else .missing, fun _ => .file []⟩

/-- Dorothy's account is saved, and a name that nobody registered. -/
def savingRun : List Call :=
  [.register grace.1 grace.2, .register AccountRegistry.dorothy.1 AccountRegistry.dorothy.2,
    .save AccountRegistry.dorothy.1 accountsPath true, .save sameFile accountsPath true]

theorem saved_account_read_back_grace : ∃ trace last p hash content,
    Run (Step AccountRegistry.zeroDigest) ⟨AccountRegistry.empty, twoSpellings⟩ trace last ∧
      trace.map Prod.fst = savingRun ++ [.save grace.1 sameFile true] ∧
      (.register grace.1 p, .errors AccountRegistry.Error.none) ∈ trace ∧ last.files.nodes 7 = .file content ∧
      readAccount content = some (grace.1.data, hash, []) := by
  have hcomputed : (Run.execute (fun store call => some (act AccountRegistry.zeroDigest store call))
      ⟨AccountRegistry.empty, twoSpellings⟩ savingRun).any (fun reached =>
        isSaved (reached.2.act AccountRegistry.zeroDigest (.save grace.1 sameFile true)).1) = true := by
    decide +kernel
  have hsound : ∀ {store : AccountStore} {call : Call} {returned : Returned} {next : AccountStore},
      some (act AccountRegistry.zeroDigest store call) = some (returned, next) →
      Step AccountRegistry.zeroDigest store call returned next := fun h => Option.some.inj h
  obtain ⟨⟨trace, store⟩, hexecute, hgood⟩ := (Option.any_eq_true _ _).mp hcomputed
  have hevents : trace.map Prod.fst = savingRun := Run.execute_events hexecute
  have hstep : Step AccountRegistry.zeroDigest store (.save grace.1 sameFile true) (.saved (.ok true)) _ :=
    Prod.ext (isSaved_iff.mp hgood) rfl
  have run := (Run.of_execute hsound hexecute).next hstep
  have hpath : twoSpellings.resolve sameFile = .found 7 := by simp [twoSpellings]
  obtain ⟨content, hcontent, ⟨_, p, hash, hregistered, _, _, hread⟩ | ⟨hreturned, _⟩⟩ :=
    (saved_account_read_back run 7).2 trace _ _ _ [] rfl hpath ⟨[], rfl⟩ (fun _ h => absurd h List.not_mem_nil)
  · exact ⟨_, _, p, hash.data, content, run, by simp [hevents], List.mem_append_left _ hregistered, hcontent, hread⟩
  · cases hreturned

end AccountStore

end SecureMessaging
