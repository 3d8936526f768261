import SecureMessaging.Lib.Containers

/-- A table whose entries are written once and never change, against the history of what was done:
every write is still there, and behind every entry there is one write. -/
structure Ledger {α κ ν : Type*} (writes : α → κ → ν → Prop) (history : List α) (table : Table κ ν) : Prop where
  stored : ∀ entry ∈ history, ∀ k v, writes entry k v → table k = some v
  written : ∀ k v, table k = some v → ∃ before entry after, history = before ++ entry :: after ∧
    writes entry k v ∧ ∀ other ∈ before ++ after, ∀ w, ¬writes other k w

namespace Ledger

variable {α κ ν : Type*} {writes : α → κ → ν → Prop} {history : List α} {table : Table κ ν} {entry : α}

theorem empty : Ledger writes [] (Table.empty : Table κ ν) := by
  refine ⟨?_, ?_⟩
  · intro entry hentry
    cases hentry
  · intro k v hk
    cases hk

/-- An entry that writes nothing goes into the history only. -/
theorem keep (h : Ledger writes history table) (hno : ∀ k v, ¬writes entry k v) :
    Ledger writes (history ++ [entry]) table := by
  refine ⟨?_, ?_⟩
  · intro other hother k v hw
    rcases List.mem_append.mp hother with hold | hnew
    · exact h.stored other hold k v hw
    · rw [List.mem_singleton.mp hnew] at hw
      exact absurd hw (hno k v)
  · intro k v hk
    obtain ⟨before, first, after, hsplit, hw, hothers⟩ := h.written k v hk
    refine ⟨before, first, after ++ [entry], by rw [hsplit]; simp, hw, ?_⟩
    intro other hother w
    rw [← List.append_assoc] at hother
    rcases List.mem_append.mp hother with hold | hnew
    · exact hothers other hold w
    · rw [List.mem_singleton.mp hnew]
      exact hno k w

/-- A write finds its place free, and does not touch the others. -/
theorem write [DecidableEq κ] {k : κ} {v : ν} (h : Ledger writes history table) (hfree : table k = none)
    (hw : writes entry k v) (honly : ∀ k' v', writes entry k' v' → k' = k ∧ v' = v) :
    Ledger writes (history ++ [entry]) (table.assign k v) := by
  refine ⟨?_, ?_⟩
  · intro other hother k' v' hw'
    rcases List.mem_append.mp hother with hold | hnew
    · have hstored := h.stored other hold k' v' hw'
      have hne : k' ≠ k := by
        intro hsame
        rw [hsame, hfree] at hstored
        cases hstored
      rw [Table.assign_ne hne, hstored]
    · rw [List.mem_singleton.mp hnew] at hw'
      obtain ⟨rfl, rfl⟩ := honly k' v' hw'
      exact Table.assign_self _ _ _
  · intro k' v' hk'
    by_cases hsame : k' = k
    · subst hsame
      rw [Table.assign_self] at hk'
      refine ⟨history, entry, [], rfl, ?_, ?_⟩
      · rw [← Option.some.inj hk']
        exact hw
      · intro other hother w hother'
        rw [List.append_nil] at hother
        have hstored := h.stored other hother k' w hother'
        rw [hfree] at hstored
        cases hstored
    · rw [Table.assign_ne hsame] at hk'
      obtain ⟨before, first, after, hsplit, hfirst, hothers⟩ := h.written k' v' hk'
      refine ⟨before, first, after ++ [entry], by rw [hsplit]; simp, hfirst, ?_⟩
      intro other hother w hother'
      rw [← List.append_assoc] at hother
      rcases List.mem_append.mp hother with hold | hnew
      · exact hothers other hold w hother'
      · rw [List.mem_singleton.mp hnew] at hother'
        exact hsame (honly k' w hother').1

/-- A place is free as long as nobody wrote to it. -/
theorem free_iff (h : Ledger writes history table) {k : κ} :
    table k = none ↔ ∀ entry ∈ history, ∀ v, ¬writes entry k v := by
  constructor
  · intro hfree entry hentry v hw
    rw [h.stored entry hentry k v hw] at hfree
    cases hfree
  · intro hno
    cases hk : table k with
    | none => rfl
    | some v =>
      obtain ⟨before, entry, after, hsplit, hw, _⟩ := h.written k v hk
      exact absurd hw (hno entry (by rw [hsplit]; simp) v)

end Ledger
