import Mathlib.Data.List.Basic

variable {α : Type*} [DecidableEq α]

/-- The pieces that each separator ends, and what is left behind the last one if there is anything. -/
def List.pieces (sep : α) (xs : List α) : List (List α) :=
  if (xs.splitOn sep).getLast? = some [] then (xs.splitOn sep).dropLast else xs.splitOn sep

/-- The separator that a list ends in, if it does. -/
def List.lastSep (sep : α) (xs : List α) : List α := if xs.getLast? = some sep then [sep] else []

namespace List

variable {sep : α} {xs front rest : List α}

/-- A list has no separator, or it is a piece without one, a separator and the rest. -/
theorem pieces_induction (sep : α) {P : List α → Prop} (last : ∀ xs, sep ∉ xs → P xs)
    (step : ∀ front rest, sep ∉ front → P rest → P (front ++ sep :: rest)) (xs : List α) : P xs := by
  induction hn : xs.length using Nat.strongRecOn generalizing xs with
  | ind n ih =>
    by_cases hsep : sep ∈ xs
    · obtain ⟨front, rest, rfl, hfront⟩ := List.eq_append_cons_of_mem hsep
      have hshort : rest.length < n := by
        rw [← hn, List.length_append, List.length_cons]
        omega
      exact step front rest hfront (ih rest.length hshort rest rfl)
    · exact last xs hsep

theorem pieces_of_not_mem (h : sep ∉ xs) : xs.pieces sep = if xs = [] then [] else [xs] := by
  rw [pieces, List.splitOn_eq_singleton h]
  simp

/-- A separator ends the piece in front of it. -/
theorem pieces_append (h : sep ∉ front) (rest : List α) :
    (front ++ sep :: rest).pieces sep = front :: rest.pieces sep := by
  obtain ⟨piece, behind, hrest⟩ := List.exists_cons_of_ne_nil (List.splitOn_ne_nil sep rest)
  rw [pieces, pieces, List.splitOn_append_cons_self_of_not_mem h, hrest, List.getLast?_cons_cons]
  split
  · rw [List.dropLast_cons_cons]
  · rfl

theorem pieces_nil (sep : α) : ([] : List α).pieces sep = [] :=
  (pieces_of_not_mem List.not_mem_nil).trans (if_pos rfl)

theorem pieces_ne_nil (h : xs ≠ []) : xs.pieces sep ≠ [] := by
  induction xs using pieces_induction sep with
  | last xs hsep =>
    rw [pieces_of_not_mem hsep, if_neg h]
    exact List.cons_ne_nil _ _
  | step front rest hfront _ =>
    rw [pieces_append hfront]
    exact List.cons_ne_nil _ _

theorem not_mem_of_mem_pieces {piece : List α} (h : piece ∈ xs.pieces sep) : sep ∉ piece := by
  induction xs using pieces_induction sep with
  | last xs hsep =>
    rw [pieces_of_not_mem hsep] at h
    split at h
    next => exact absurd h List.not_mem_nil
    next =>
      rw [List.mem_singleton.mp h]
      exact hsep
  | step front rest hfront ih =>
    rw [pieces_append hfront] at h
    rcases List.mem_cons.mp h with rfl | hrest
    · exact hfront
    · exact ih hrest

theorem lastSep_of_not_mem (h : sep ∉ xs) : lastSep sep xs = [] :=
  if_neg fun hlast => h (List.mem_of_getLast? hlast)

theorem lastSep_append (front rest : List α) :
    lastSep sep (front ++ sep :: rest) = if rest = [] then [sep] else lastSep sep rest := by
  unfold lastSep
  rw [List.getLast?_append_cons]
  cases rest with
  | nil => simp
  | cons x rest => rw [List.getLast?_cons_cons, if_neg (List.cons_ne_nil x rest)]

/-- Joining the pieces gives the list back, but for a separator at its end. -/
theorem intercalate_pieces (sep : α) (xs : List α) :
    List.intercalate [sep] (xs.pieces sep) ++ lastSep sep xs = xs := by
  induction xs using pieces_induction sep with
  | last xs hsep =>
    rw [lastSep_of_not_mem hsep, pieces_of_not_mem hsep, List.append_nil]
    split
    next hnil => rw [hnil, List.intercalate_nil]
    next => exact List.intercalate_singleton
  | step front rest hfront ih =>
    rw [pieces_append hfront, lastSep_append]
    by_cases hnil : rest = []
    · rw [if_pos hnil, hnil, pieces_nil, List.intercalate_singleton]
    · rw [if_neg hnil, List.intercalate_cons_of_ne_nil (pieces_ne_nil hnil), List.append_assoc, ih, List.append_assoc]
      rfl

theorem length_pieces (sep : α) (xs : List α) :
    (xs.pieces sep).length = xs.count sep + if xs ≠ [] ∧ xs.getLast? ≠ some sep then 1 else 0 := by
  induction xs using pieces_induction sep with
  | last xs hsep =>
    have hlast : xs.getLast? ≠ some sep := fun h => hsep (List.mem_of_getLast? h)
    rw [pieces_of_not_mem hsep, List.count_eq_zero_of_not_mem hsep]
    by_cases hnil : xs = []
    · simp [hnil]
    · simp [hnil, hlast]
  | step front rest hfront ih =>
    rw [pieces_append hfront, List.length_cons, ih, List.count_append, List.count_cons_self,
      List.count_eq_zero_of_not_mem hfront, List.getLast?_append_cons]
    cases rest with
    | nil => simp
    | cons x rest =>
      have hcons : x :: rest ≠ [] := List.cons_ne_nil x rest
      have hfull : front ++ sep :: x :: rest ≠ [] := List.append_ne_nil_of_right_ne_nil front (List.cons_ne_nil _ _)
      simp only [List.getLast?_cons_cons, hcons, hfull, ne_eq, not_false_eq_true, true_and]
      omega

/-- Lines that are each ended by the separator are read back. -/
theorem pieces_ended {lines : List (List α)} (h : ∀ line ∈ lines, sep ∉ line) :
    (lines.flatMap fun line => line ++ [sep]).pieces sep = lines := by
  induction lines with
  | nil => exact pieces_nil sep
  | cons line lines ih =>
    obtain ⟨hline, hlines⟩ := List.forall_mem_cons.mp h
    rw [List.flatMap_cons, List.append_assoc, List.singleton_append, pieces_append hline, ih hlines]

/-- The last separator is not needed if the last line is not empty. -/
theorem pieces_dropLast {lines : List (List α)} (h : ∀ line ∈ lines, sep ∉ line ∧ line ≠ []) :
    (lines.flatMap fun line => line ++ [sep]).dropLast.pieces sep = lines := by
  induction lines with
  | nil => exact pieces_nil sep
  | cons line lines ih =>
    obtain ⟨⟨hline, hne⟩, hlines⟩ := List.forall_mem_cons.mp h
    rw [List.flatMap_cons]
    cases lines with
    | nil =>
      rw [List.flatMap_nil, List.append_nil, List.dropLast_concat, pieces_of_not_mem hline, if_neg hne]
    | cons second others =>
      have hrest : (second :: others).flatMap (fun line => line ++ [sep]) ≠ [] := by simp
      rw [List.dropLast_append_of_ne_nil hrest, List.append_assoc, List.singleton_append, pieces_append hline,
        ih hlines]

end List
