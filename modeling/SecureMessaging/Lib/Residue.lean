import SecureMessaging.Lib.Overwrite

variable {α : Type*}

/-- Two buffers that agree but for a window, where from `cover` on each holds its own secret. -/
structure Residue (offset : Nat) (secret secret' : List α) (cover : Nat) (xs ys : List α) : Prop where
  length_eq : xs.length = ys.length
  outside : ∀ j, j < cover ∨ j < offset ∨ offset + secret.length ≤ j → xs[j]? = ys[j]?
  left : ∀ j, cover ≤ offset + j → j < secret.length → xs[offset + j]? = secret[j]?
  right : ∀ j, cover ≤ offset + j → j < secret.length → ys[offset + j]? = secret'[j]?

namespace Residue

variable {offset cover : Nat} {secret secret' xs ys : List α}

theorem covered (h : offset + secret.length ≤ cover) : Residue offset secret secret' cover xs xs := by
  refine ⟨rfl, fun _ _ => rfl, ?_, ?_⟩
  · intro j hj hlt
    omega
  · intro j hj hlt
    omega

/-- Where the two secrets are written, behind the same bytes. -/
theorem write {front : List α} (hlen : secret.length = secret'.length)
    (hroom : (front ++ secret).length ≤ xs.length) :
    Residue front.length secret secret' front.length (xs.overwrite 0 (front ++ secret))
      (xs.overwrite 0 (front ++ secret')) := by
  rw [List.length_append] at hroom
  refine ⟨by simp, ?_, ?_, ?_⟩
  · intro j hj
    rw [List.getElem?_overwrite, List.getElem?_overwrite]
    simp only [List.length_append, Nat.zero_add, Nat.sub_zero, Nat.zero_le, true_and]
    by_cases hfront : j < front.length
    · rw [if_pos (by omega), if_pos (by omega), List.getElem?_append_left hfront,
        List.getElem?_append_left hfront]
    · rw [if_neg (by omega), if_neg (by omega)]
  · intro j _ hlt
    rw [List.getElem?_overwrite, if_pos (by simp only [List.length_append]; omega),
      List.getElem?_append_right (by omega)]
    congr 1
    omega
  · intro j _ hlt
    rw [List.getElem?_overwrite, if_pos (by simp only [List.length_append]; omega),
      List.getElem?_append_right (by omega)]
    congr 1
    omega

/-- Writing the same bytes over the front of both covers more. -/
theorem overwrite (h : Residue offset secret secret' cover xs ys) (source : List α) :
    Residue offset secret secret' (max cover source.length) (xs.overwrite 0 source) (ys.overwrite 0 source) := by
  obtain ⟨hlen, houtside, hleft, hright⟩ := h
  have hbehind : ∀ (zs : List α) j, source.length ≤ j → (zs.overwrite 0 source)[j]? = zs[j]? := by
    intro zs j hj
    rw [List.getElem?_overwrite, if_neg (by omega)]
  refine ⟨by simpa using hlen, ?_, ?_, ?_⟩
  · intro j hj
    by_cases hsource : j < source.length
    · rw [List.getElem?_overwrite, List.getElem?_overwrite]
      by_cases hxs : j < xs.length
      · rw [if_pos (by omega), if_pos (by omega)]
      · rw [if_neg (by omega), if_neg (by omega), List.getElem?_eq_none (by omega),
          List.getElem?_eq_none (by omega)]
    · rw [hbehind xs j (by omega), hbehind ys j (by omega)]
      exact houtside j (by omega)
  · intro j hj hlt
    rw [hbehind xs _ (by omega)]
    exact hleft j (by omega) hlt
  · intro j hj hlt
    rw [hbehind ys _ (by omega)]
    exact hright j (by omega) hlt

/-- The buffers are the same exactly if the uncovered parts of the secrets are. -/
theorem eq_iff (h : Residue offset secret secret' cover xs ys) (hlen : secret.length = secret'.length) :
    xs = ys ↔ secret.drop (cover - offset) = secret'.drop (cover - offset) := by
  obtain ⟨_, houtside, hleft, hright⟩ := h
  constructor
  · intro heq
    apply List.ext_getElem?
    intro j
    rw [List.getElem?_drop, List.getElem?_drop]
    by_cases hlt : cover - offset + j < secret.length
    · rw [← hleft _ (by omega) hlt, ← hright _ (by omega) hlt, heq]
    · rw [List.getElem?_eq_none (by omega), List.getElem?_eq_none (by omega)]
  · intro heq
    apply List.ext_getElem?
    intro j
    by_cases hin : cover ≤ j ∧ offset ≤ j ∧ j < offset + secret.length
    · have hj : offset + (j - offset) = j := by omega
      have hl := hleft (j - offset) (by omega) (by omega)
      have hr := hright (j - offset) (by omega) (by omega)
      rw [hj] at hl hr
      have htail := congrArg (fun zs : List α => zs[j - offset - (cover - offset)]?) heq
      simp only [List.getElem?_drop] at htail
      have hindex : cover - offset + (j - offset - (cover - offset)) = j - offset := by omega
      rw [hindex] at htail
      rw [hl, hr, htail]
    · exact houtside j (by omega)

end Residue

/-- Three lists that are related entry by entry. -/
inductive List.Forall₃ {β γ : Type*} (R : α → β → γ → Prop) : List α → List β → List γ → Prop
  | nil : Forall₃ R [] [] []
  | cons {a b c as bs cs} : R a b c → Forall₃ R as bs cs → Forall₃ R (a :: as) (b :: bs) (c :: cs)

theorem List.Forall₃.append {β γ : Type*} {R : α → β → γ → Prop} {as as' : List α} {bs bs' : List β}
    {cs cs' : List γ} (h : Forall₃ R as bs cs) (h' : Forall₃ R as' bs' cs') :
    Forall₃ R (as ++ as') (bs ++ bs') (cs ++ cs') := by
  induction h with
  | nil => exact h'
  | cons hone _ ih => exact .cons hone ih

theorem List.Forall₃.of_cons {β γ : Type*} {R : α → β → γ → Prop} {as : List α} {b : β} {bs : List β} {c : γ}
    {cs : List γ} (h : Forall₃ R as (b :: bs) (c :: cs)) :
    ∃ a as', as = a :: as' ∧ R a b c ∧ Forall₃ R as' bs cs := by
  cases h with
  | cons hone hrest => exact ⟨_, _, rfl, hone, hrest⟩
