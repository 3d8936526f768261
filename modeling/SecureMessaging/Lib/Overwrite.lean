import Mathlib.Data.List.Basic

variable {α : Type*}

/-- Copy a source over the entries from an offset on; the length never changes,
and what would land behind the end is dropped. -/
def List.overwrite : List α → Nat → List α → List α
  | [], _, _ => []
  | x :: xs, _, [] => x :: xs
  | _ :: xs, 0, s :: source => s :: overwrite xs 0 source
  | x :: xs, offset + 1, source => x :: overwrite xs offset source

namespace List

@[simp] theorem overwrite_nil_source (xs : List α) (offset : Nat) : xs.overwrite offset [] = xs := by
  cases xs <;> rfl

@[simp] theorem overwrite_length (xs : List α) (offset : Nat) (source : List α) :
    (xs.overwrite offset source).length = xs.length := by
  fun_induction overwrite xs offset source <;> simp_all

theorem getElem?_overwrite (xs : List α) (offset : Nat) (source : List α) (j : Nat) :
    (xs.overwrite offset source)[j]? =
      if offset ≤ j ∧ j < offset + source.length ∧ j < xs.length then source[j - offset]? else xs[j]? := by
  fun_induction overwrite xs offset source generalizing j with
  | case1 => simp
  | case2 x xs offset => simp; omega
  | case3 x xs s source ih =>
    cases j with
    | zero => simp
    | succ j => simp [ih]
  | case4 x xs offset source hne ih =>
    cases j with
    | zero => simp
    | succ j => simp [ih, Nat.succ_add]

theorem overwrite_eq_take_drop {xs source : List α} {offset : Nat}
    (h : offset + source.length ≤ xs.length) :
    xs.overwrite offset source = xs.take offset ++ source ++ xs.drop (offset + source.length) := by
  apply List.ext_getElem?
  intro j
  rw [getElem?_overwrite]
  by_cases hlow : j < offset
  · rw [if_neg (by omega), List.append_assoc, List.getElem?_append_left (by simp; omega)]
    simp [hlow]
  · by_cases hmid : j < offset + source.length
    · rw [if_pos (by omega), List.append_assoc, List.getElem?_append_right (by simp; omega),
        List.getElem?_append_left (by simp; omega)]
      simp [show min offset xs.length = offset by omega]
    · rw [if_neg (by omega), List.getElem?_append_right (by simp; omega), List.getElem?_drop]
      congr 1
      simp only [List.length_append, List.length_take]
      omega

/-- A source as long as the target replaces it. -/
theorem overwrite_whole {xs source : List α} (h : source.length = xs.length) :
    xs.overwrite 0 source = source := by
  have hle : 0 + source.length ≤ xs.length := by omega
  simpa [h] using overwrite_eq_take_drop hle

/-- Two copies one behind the other are one copy of both sources. -/
theorem overwrite_overwrite {xs first second : List α} {offset : Nat}
    (h : offset + first.length + second.length ≤ xs.length) :
    (xs.overwrite offset first).overwrite (offset + first.length) second =
      xs.overwrite offset (first ++ second) := by
  apply List.ext_getElem?
  intro j
  simp only [getElem?_overwrite, overwrite_length, List.length_append]
  by_cases hsecond : offset + first.length ≤ j ∧ j < offset + first.length + second.length
  · rw [if_pos (by omega), if_pos (by omega), List.getElem?_append_right (by omega)]
    congr 1
    omega
  · rw [if_neg (by omega)]
    by_cases hfirst : offset ≤ j ∧ j < offset + first.length
    · rw [if_pos (by omega), if_pos (by omega), List.getElem?_append_left (by omega)]
    · rw [if_neg (by omega), if_neg (by omega)]

theorem overwrite_behind (front xs : List α) (offset : Nat) (source : List α) :
    (front ++ xs).overwrite (front.length + offset) source = front ++ xs.overwrite offset source := by
  induction front with
  | nil => simp
  | cons x front ih =>
    cases source with
    | nil => simp
    | cons s source =>
      have hoffset : (x :: front).length + offset = (front.length + offset) + 1 := by
        simp only [List.length_cons]
        omega
      rw [hoffset, List.cons_append, overwrite, ih, List.cons_append]
      intro h
      cases h

/-- A copy that ends inside a list leaves alone what stands around it. -/
theorem overwrite_inside {front xs behind source : List α} {offset : Nat}
    (h : offset + source.length ≤ xs.length) :
    (front ++ xs ++ behind).overwrite (front.length + offset) source =
      front ++ xs.overwrite offset source ++ behind := by
  have hlong : offset + source.length ≤ (xs ++ behind).length := by
    rw [List.length_append]
    omega
  rw [List.append_assoc, overwrite_behind, overwrite_eq_take_drop hlong, overwrite_eq_take_drop h,
    List.take_append_of_le_length (by omega), List.drop_append_of_le_length h]
  simp only [List.append_assoc]

end List
