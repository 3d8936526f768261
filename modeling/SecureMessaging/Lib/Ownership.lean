import SecureMessaging.Lib.Containers

/-- Each live resource has one holder, and nothing else is held. -/
structure SharedOut {ι ρ : Type*} (live : ρ → Prop) (held : Table ι ρ) : Prop where
  holder : ∀ r, live r ↔ ∃ i, held i = some r
  unique : ∀ i j r, held i = some r → held j = some r → i = j

namespace SharedOut

variable {ι ρ : Type*} {live live' : ρ → Prop} {held : Table ι ρ} {i j : ι} {r : ρ}

theorem congr (h : SharedOut live held) (hsame : ∀ s, live' s ↔ live s) : SharedOut live' held :=
  ⟨fun s => (hsame s).trans (h.holder s), h.unique⟩

variable [DecidableEq ι]

/-- A resource that was not live goes to someone who holds nothing. -/
theorem assign (h : SharedOut live held) (hfresh : ¬live r) (hfree : held i = none) :
    SharedOut (fun s => s = r ∨ live s) (held.assign i r) := by
  have hnobody : ∀ j, held j ≠ some r := fun j hj => hfresh ((h.holder r).mpr ⟨j, hj⟩)
  have hheld : ∀ j s, held.assign i r j = some s ↔ (j = i ∧ s = r) ∨ (j ≠ i ∧ held j = some s) := by
    intro j s
    by_cases hj : j = i
    · subst hj
      simp [eq_comm]
    · simp [Table.assign_ne hj, hj]
  refine ⟨?_, ?_⟩
  · intro s
    rw [h.holder s]
    constructor
    · rintro (hsame | ⟨j, hj⟩)
      · exact ⟨i, (hheld i s).mpr (Or.inl ⟨rfl, hsame⟩)⟩
      · refine ⟨j, (hheld j s).mpr (Or.inr ⟨?_, hj⟩)⟩
        intro hsame
        rw [hsame, hfree] at hj
        cases hj
    · rintro ⟨j, hj⟩
      rcases (hheld j s).mp hj with ⟨_, hsame⟩ | ⟨_, hj'⟩
      · exact Or.inl hsame
      · exact Or.inr ⟨j, hj'⟩
  · intro j k s hj hk
    rcases (hheld j s).mp hj with ⟨hji, hsr⟩ | ⟨_, hj'⟩
    · rcases (hheld k s).mp hk with ⟨hki, _⟩ | ⟨_, hk'⟩
      · rw [hji, hki]
      · rw [hsr] at hk'
        exact absurd hk' (hnobody k)
    · rcases (hheld k s).mp hk with ⟨_, hsr⟩ | ⟨_, hk'⟩
      · rw [hsr] at hj'
        exact absurd hj' (hnobody j)
      · exact h.unique j k s hj' hk'

/-- The holder gives its resource up. -/
theorem erase (h : SharedOut live held) (hi : held i = some r) :
    SharedOut (fun s => s ≠ r ∧ live s) (held.erase i) := by
  refine ⟨?_, ?_⟩
  · intro s
    rw [h.holder s]
    constructor
    · intro ⟨hne, j, hj⟩
      refine ⟨j, Table.erase_eq_some.mpr ⟨?_, hj⟩⟩
      intro hsame
      rw [hsame] at hj
      exact hne (Option.some.inj (hj.symm.trans hi))
    · intro ⟨j, hj⟩
      obtain ⟨hne, hj'⟩ := Table.erase_eq_some.mp hj
      refine ⟨?_, j, hj'⟩
      intro hsame
      rw [hsame] at hj'
      exact hne (h.unique j i r hj' hi)
  · intro j k s hj hk
    exact h.unique j k s (Table.erase_eq_some.mp hj).2 (Table.erase_eq_some.mp hk).2

/-- What one holds goes over to another, who holds nothing. -/
theorem transfer (h : SharedOut live held) (hi : held i = some r) (hj : held j = none) :
    SharedOut live ((held.erase i).assign j r) := by
  have hfree : held.erase i j = none := by
    by_cases hji : j = i
    · rw [hji, Table.erase_self]
    · rw [Table.erase_ne hji, hj]
  have hlive : live r := (h.holder r).mpr ⟨i, hi⟩
  apply ((h.erase hi).assign (fun hr => hr.1 rfl) hfree).congr
  intro s
  by_cases hs : s = r
  · rw [hs]
    simp [hlive]
  · simp [hs]

end SharedOut

/-- What the entries of a log do to resources: they open one, close one or note a value on one. -/
structure Lifetimes (ε ρ ν : Type*) where
  opens : ε → Option ρ
  closes : ε → Option ρ
  notes : ε → Option (ρ × ν)

namespace Lifetimes

variable {ε ρ ν ι : Type*} [DecidableEq ρ] {life : Lifetimes ε ρ ν} {log : List ε} {e : ε} {r s : ρ} {v : ν}

/-- Is the resource open after the log? The newest entry is the head. -/
def isOpen (life : Lifetimes ε ρ ν) : List ε → ρ → Bool
  | [], _ => false
  | e :: earlier, r =>
    if life.opens e = some r then true
    else if life.closes e = some r then false
    else life.isOpen earlier r

/-- The newest value noted on the resource since it was last opened. -/
def lastNote (life : Lifetimes ε ρ ν) : List ε → ρ → Option ν
  | [], _ => none
  | e :: earlier, r =>
    if life.opens e = some r then none
    else
      match life.notes e with
      | some (noted, v) => if noted = r then some v else life.lastNote earlier r
      | none => life.lastNote earlier r

theorem isOpen_opens (h : life.opens e = some r) : life.isOpen (e :: log) r = true := by
  simp [isOpen, h]

theorem isOpen_closes (ho : life.opens e = none) (hc : life.closes e = some r) :
    life.isOpen (e :: log) r = false := by
  simp [isOpen, ho, hc]

theorem isOpen_skip (ho : life.opens e ≠ some r) (hc : life.closes e ≠ some r) :
    life.isOpen (e :: log) r = life.isOpen log r := by
  simp [isOpen, ho, hc]

theorem lastNote_opens (h : life.opens e = some r) : life.lastNote (e :: log) r = none := by
  simp [lastNote, h]

theorem lastNote_notes (ho : life.opens e = none) (hn : life.notes e = some (r, v)) :
    life.lastNote (e :: log) r = some v := by
  simp [lastNote, ho, hn]

theorem lastNote_skip (ho : life.opens e ≠ some r) (hn : ∀ v, life.notes e ≠ some (r, v)) :
    life.lastNote (e :: log) r = life.lastNote log r := by
  cases hnotes : life.notes e with
  | none => simp [lastNote, ho, hnotes]
  | some note =>
    have hne : note.1 ≠ r := by
      intro hsame
      exact hn note.2 (by rw [hnotes, ← hsame])
    simp [lastNote, ho, hnotes, hne]

/-- The open resources are shared out, and each close in the log hit one that was open. -/
structure Owned (life : Lifetimes ε ρ ν) (log : List ε) (held : Table ι ρ) : Prop where
  shared : SharedOut (fun r => life.isOpen log r = true) held
  hits : ∀ later e before r, log = later ++ e :: before → life.closes e = some r →
    life.isOpen before r = true

namespace Owned

variable {held : Table ι ρ} {i j : ι}

theorem empty : Owned life [] (Table.empty : Table ι ρ) := by
  refine ⟨⟨?_, ?_⟩, ?_⟩
  · intro r
    simp [isOpen]
  · intro i j r hi
    cases hi
  · intro later e before r hsplit
    simp at hsplit

theorem hits_cons (h : Owned life log held) (hc : ∀ r, life.closes e = some r → life.isOpen log r = true) :
    ∀ later e' before r, e :: log = later ++ e' :: before → life.closes e' = some r →
      life.isOpen before r = true := by
  intro later e' before r hsplit hclose
  cases later with
  | nil =>
    obtain ⟨rfl, rfl⟩ : e = e' ∧ log = before := by simpa using hsplit
    exact hc r hclose
  | cons first later =>
    obtain ⟨_, hlog⟩ : e = first ∧ log = later ++ e' :: before := by simpa using hsplit
    exact h.hits later e' before r hlog hclose

theorem skip (h : Owned life log held) (ho : life.opens e = none) (hc : life.closes e = none) :
    Owned life (e :: log) held := by
  refine ⟨h.shared.congr fun r => ?_, h.hits_cons fun r hr => ?_⟩
  · rw [isOpen_skip (by simp [ho]) (by simp [hc])]
  · rw [hc] at hr
    cases hr

variable [DecidableEq ι]

theorem acquire (h : Owned life log held) (ho : life.opens e = some r) (hc : life.closes e = none)
    (hfresh : life.isOpen log r = false) (hfree : held i = none) :
    Owned life (e :: log) (held.assign i r) := by
  have hdead : ¬life.isOpen log r = true := by simp [hfresh]
  refine ⟨(h.shared.assign hdead hfree).congr fun s => ?_, h.hits_cons fun s hs => ?_⟩
  · by_cases hs : s = r
    · simp [hs, isOpen_opens ho]
    · rw [isOpen_skip (by simp [ho, Ne.symm hs]) (by simp [hc])]
      simp [hs]
  · rw [hc] at hs
    cases hs

theorem release (h : Owned life log held) (ho : life.opens e = none) (hc : life.closes e = some r)
    (hi : held i = some r) : Owned life (e :: log) (held.erase i) := by
  refine ⟨(h.shared.erase hi).congr fun s => ?_, h.hits_cons fun s hs => ?_⟩
  · by_cases hs : s = r
    · simp [hs, isOpen_closes ho hc]
    · rw [isOpen_skip (by simp [ho]) (by simp [hc, Ne.symm hs])]
      simp [hs]
  · obtain rfl : r = s := Option.some.inj (hc.symm.trans hs)
    exact (h.shared.holder r).mpr ⟨i, hi⟩

theorem transfer (h : Owned life log held) (hi : held i = some r) (hj : held j = none) :
    Owned life log ((held.erase i).assign j r) :=
  ⟨h.shared.transfer hi hj, h.hits⟩

end Owned

end Lifetimes
