import Mathlib.Data.List.Nodup
import Mathlib.Logic.Function.Basic

variable {ι J : Type*} [DecidableEq ι]

/-- The jobs that a list gives to `i`. -/
def shareOf (i : ι) (pairs : List (ι × J)) : List J :=
  pairs.filterMap fun pair => if pair.1 = i then some pair.2 else none

@[simp] theorem shareOf_append (i : ι) (pairs others : List (ι × J)) :
    shareOf i (pairs ++ others) = shareOf i pairs ++ shareOf i others :=
  List.filterMap_append

@[simp] theorem shareOf_self (i : ι) (job : J) : shareOf i [(i, job)] = [job] := by
  simp [shareOf]

theorem shareOf_ne {i k : ι} (h : k ≠ i) (job : J) : shareOf i [(k, job)] = [] := by
  simp [shareOf, h]

theorem mem_shareOf {i : ι} {job : J} {pairs : List (ι × J)} : job ∈ shareOf i pairs ↔ (i, job) ∈ pairs := by
  unfold shareOf
  rw [List.mem_filterMap]
  constructor
  · rintro ⟨⟨k, other⟩, hmem, hsome⟩
    split at hsome
    next hk =>
      cases hsome
      rw [← hk]
      exact hmem
    next => cases hsome
  · intro hmem
    exact ⟨_, hmem, if_pos rfl⟩

theorem shareOf_sublist (i : ι) (pairs : List (ι × J)) : (shareOf i pairs).Sublist (pairs.map Prod.snd) := by
  induction pairs with
  | nil => exact List.Sublist.refl _
  | cons pair pairs ih =>
    obtain ⟨k, job⟩ := pair
    have hcons : shareOf i ((k, job) :: pairs) = shareOf i [(k, job)] ++ shareOf i pairs :=
      shareOf_append i [(k, job)] pairs
    rw [hcons]
    by_cases hk : k = i
    · subst hk
      rw [shareOf_self]
      exact ih.cons_cons job
    · rw [shareOf_ne hk]
      exact ih.cons job

/-- What each worker has done of what was due, in the same order; `left` is what it still has in hand. -/
def Settled (due did : List (ι × J)) (left : ι → List J) : Prop :=
  ∀ i, shareOf i did ++ left i = shareOf i due

namespace Settled

variable {due did : List (ι × J)} {left : ι → List J} {i : ι} {job : J}

theorem charge (h : Settled due did left) (hi : left i = []) :
    Settled (due ++ [(i, job)]) did (Function.update left i [job]) := by
  intro k
  have hk := h k
  by_cases hki : k = i
  · subst hki
    rw [hi, List.append_nil] at hk
    rw [Function.update_self, shareOf_append, shareOf_self, hk]
  · have hik : i ≠ k := fun heq => hki heq.symm
    rw [Function.update_of_ne hki, shareOf_append, shareOf_ne hik, List.append_nil, hk]

theorem pay (h : Settled due did left) (hi : left i = [job]) :
    Settled due (did ++ [(i, job)]) (Function.update left i []) := by
  intro k
  have hk := h k
  by_cases hki : k = i
  · subst hki
    rw [hi] at hk
    rw [Function.update_self, shareOf_append, shareOf_self, List.append_nil, hk]
  · have hik : i ≠ k := fun heq => hki heq.symm
    rw [Function.update_of_ne hki, shareOf_append, shareOf_ne hik, List.append_nil, hk]

end Settled

/-- The books of a queue that several workers take jobs from: what came in and what waits, what each of
them took off, began and ended, and what each has taken and not begun, or begun and not ended. -/
structure Handout (arrived waiting : List J) (removed begun ended : List (ι × J)) (held busy : ι → List J) :
    Prop where
  order : removed.map Prod.snd ++ waiting = arrived
  begins : Settled removed begun held
  ends : Settled begun ended busy

namespace Handout

variable {arrived waiting : List J} {removed begun ended : List (ι × J)} {held busy : ι → List J} {i : ι} {job : J}

theorem empty : Handout [] [] ([] : List (ι × J)) [] [] (fun _ => []) (fun _ => []) :=
  ⟨rfl, fun _ => rfl, fun _ => rfl⟩

theorem arrive (h : Handout arrived waiting removed begun ended held busy) (job : J) :
    Handout (arrived ++ [job]) (waiting ++ [job]) removed begun ended held busy := by
  refine ⟨?_, h.begins, h.ends⟩
  rw [← h.order, List.append_assoc]

/-- A worker with empty hands takes the first job. -/
theorem remove (h : Handout arrived (job :: waiting) removed begun ended held busy) (hi : held i = []) :
    Handout arrived waiting (removed ++ [(i, job)]) begun ended (Function.update held i [job]) busy := by
  refine ⟨?_, h.begins.charge hi, h.ends⟩
  rw [← h.order, List.map_append, List.append_assoc]
  rfl

theorem start (h : Handout arrived waiting removed begun ended held busy) (hi : held i = [job])
    (hbusy : busy i = []) : Handout arrived waiting removed (begun ++ [(i, job)]) ended
      (Function.update held i []) (Function.update busy i [job]) :=
  ⟨h.order, h.begins.pay hi, h.ends.charge hbusy⟩

theorem finish (h : Handout arrived waiting removed begun ended held busy) (hi : busy i = [job]) :
    Handout arrived waiting removed begun (ended ++ [(i, job)]) held (Function.update busy i []) :=
  ⟨h.order, h.begins, h.ends.pay hi⟩

/-- Of jobs that can be told apart each one that was taken is with one worker, once, begun or about to be. -/
theorem once (h : Handout arrived waiting removed begun ended held busy) (hdistinct : arrived.Nodup)
    (hjob : job ∈ removed.map Prod.snd) : ∃ i, job ∈ shareOf i begun ++ held i ∧ (shareOf i begun ++ held i).Nodup ∧
      ∀ k, k ≠ i → job ∉ shareOf k begun ++ held k := by
  have hremoved : (removed.map Prod.snd).Nodup := by
    rw [← h.order] at hdistinct
    exact (List.nodup_append.mp hdistinct).1
  obtain ⟨⟨i, _⟩, hmem, rfl⟩ := List.mem_map.mp hjob
  refine ⟨i, ?_, ?_, ?_⟩
  · rw [h.begins i]
    exact mem_shareOf.mpr hmem
  · rw [h.begins i]
    exact hremoved.sublist (shareOf_sublist i removed)
  · intro k hk hother
    rw [h.begins k, mem_shareOf] at hother
    have hsame := List.inj_on_of_nodup_map hremoved hother hmem rfl
    exact hk (congrArg Prod.fst hsame)

end Handout
