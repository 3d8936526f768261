import SecureMessaging.Lib.Containers

variable {κ ν σ : Type*} {name : σ → Option ν} {records : Table κ σ} {index : Table ν κ}

namespace Index

/-- Every named record is found under its name. -/
def Complete (name : σ → Option ν) (records : Table κ σ) (index : Table ν κ) : Prop :=
  ∀ key record n, records key = some record → name record = some n → index n = some key

/-- The index has the named records and nothing else. -/
def Exact (name : σ → Option ν) (records : Table κ σ) (index : Table ν κ) : Prop :=
  ∀ n key, index n = some key ↔ ∃ record, records key = some record ∧ name record = some n

theorem Exact.complete (h : Exact name records index) : Complete name records index :=
  fun key record n hrecord hname => (h n key).mpr ⟨record, hrecord, hname⟩

theorem Complete.empty : Complete name (Table.empty : Table κ σ) index := by
  intro key record n hrecord
  cases hrecord

theorem Exact.empty : Exact name (Table.empty : Table κ σ) (Table.empty : Table ν κ) := by
  intro n key
  simp

theorem Complete.unique (h : Complete name records index) {key key' : κ} {record record' : σ} {n : ν}
    (hrecord : records key = some record) (hname : name record = some n)
    (hrecord' : records key' = some record') (hname' : name record' = some n) : key = key' := by
  have hkey := h key record n hrecord hname
  have hkey' := h key' record' n hrecord' hname'
  exact Option.some.inj (hkey.symm.trans hkey')

theorem Exact.nameless (h : Exact name records index) {key : κ} {record : σ}
    (hrecord : records key = some record) (hname : name record = none) (n : ν) : index n ≠ some key := by
  intro hn
  obtain ⟨record', hrecord', hname'⟩ := (h n key).mp hn
  have hsame := Option.some.inj (hrecord.symm.trans hrecord')
  rw [← hsame, hname] at hname'
  cases hname'

variable [DecidableEq κ]

theorem Complete.emplace (h : Complete name records index) {key : κ} {record : σ} (hname : name record = none) :
    Complete name (records.emplace key record) index := by
  intro k r n hr hn
  cases hkey : records key with
  | some old =>
    rw [Table.emplace_present hkey] at hr
    exact h k r n hr hn
  | none =>
    rw [Table.emplace_absent hkey] at hr
    by_cases hk : k = key
    · subst hk
      rw [Table.assign_self] at hr
      cases hr
      rw [hname] at hn
      cases hn
    · rw [Table.assign_ne hk] at hr
      exact h k r n hr hn

theorem Exact.emplace (h : Exact name records index) {key : κ} {record : σ} (hname : name record = none) :
    Exact name (records.emplace key record) index := by
  intro n k
  constructor
  · intro hn
    obtain ⟨r, hr, hrn⟩ := (h n k).mp hn
    by_cases hk : k = key
    · subst hk
      exact ⟨r, by rw [Table.emplace_present hr, hr], hrn⟩
    · exact ⟨r, by rw [Table.emplace_ne hk, hr], hrn⟩
  · intro hex
    obtain ⟨r, hr, hrn⟩ := hex
    exact h.complete.emplace hname k r n hr hrn

variable [DecidableEq ν]

theorem Complete.erase (h : Complete name records index) {key : κ} {record : σ} {n : ν}
    (hrecord : records key = some record) (hname : name record = some n) :
    Complete name (records.erase key) (index.erase n) := by
  intro k r m hr hm
  obtain ⟨hk, hr⟩ := Table.erase_eq_some.mp hr
  refine Table.erase_eq_some.mpr ⟨?_, h k r m hr hm⟩
  intro hmn
  subst hmn
  exact hk (h.unique hr hm hrecord hname)

theorem Exact.erase (h : Exact name records index) {key : κ} {record : σ} {n : ν}
    (hrecord : records key = some record) (hname : name record = some n) :
    Exact name (records.erase key) (index.erase n) := by
  intro m k
  constructor
  · intro hm
    obtain ⟨hmn, hm⟩ := Table.erase_eq_some.mp hm
    obtain ⟨r, hr, hrm⟩ := (h m k).mp hm
    refine ⟨r, Table.erase_eq_some.mpr ⟨?_, hr⟩, hrm⟩
    intro hk
    subst hk
    have hsame := Option.some.inj (hr.symm.trans hrecord)
    rw [hsame, hname] at hrm
    exact hmn (Option.some.inj hrm).symm
  · intro hex
    obtain ⟨r, hr, hrm⟩ := hex
    exact h.complete.erase hrecord hname k r m hr hrm

/-- A record takes a name that the index does not have; what it was called before stays in the index. -/
theorem Complete.rename (h : Complete name records index) {key : κ} {record : σ} {n : ν}
    (hfree : index n = none) (hname : name record = some n) :
    Complete name (records.assign key record) (index.emplace n key) := by
  intro k r m hr hm
  rw [Table.emplace_absent hfree]
  by_cases hk : k = key
  · subst hk
    rw [Table.assign_self] at hr
    cases hr
    rw [hname] at hm
    cases hm
    exact Table.assign_self index n k
  · rw [Table.assign_ne hk] at hr
    have hold := h k r m hr hm
    have hmn : m ≠ n := by
      intro hmn
      rw [hmn, hfree] at hold
      cases hold
    rw [Table.assign_ne hmn]
    exact hold

theorem Exact.rename (h : Exact name records index) {key : κ} {old record : σ} {n : ν}
    (hold : records key = some old) (hnameless : name old = none) (hfree : index n = none)
    (hname : name record = some n) : Exact name (records.assign key record) (index.emplace n key) := by
  intro m k
  constructor
  · intro hm
    rw [Table.emplace_absent hfree] at hm
    by_cases hmn : m = n
    · subst hmn
      rw [Table.assign_self] at hm
      cases hm
      exact ⟨record, Table.assign_self records key record, hname⟩
    · rw [Table.assign_ne hmn] at hm
      have hk : k ≠ key := by
        intro hk
        subst hk
        exact h.nameless hold hnameless m hm
      rw [Table.assign_ne hk]
      exact (h m k).mp hm
  · intro hex
    obtain ⟨r, hr, hrm⟩ := hex
    exact h.complete.rename hfree hname k r m hr hrm

end Index
