import KernelTraining.Machine.Heap
import Mathlib.Data.List.Perm.Basic

/-!
# Calls in progress

A system that takes steps on behalf of calls in progress keeps them in a list, and a step
replaces one entry.  What is counted over the list changes by what that entry contributes
(`countP_set`), and what holds of all entries has to be checked for the new one only
(`forall_getElem?_set`).  A new call comes to the end of the list, so that the numbers of
the others stay what they are (`forall_getElem?_concat`).

Mutual exclusion is a count too: if at most one call is inside, then two calls that are both
inside are one and the same (`eq_of_countP_le_one`).

What one entry contributes is put as a number, 0 or 1, on both sides of an equation; so a lemma
says what is gained and lost without a subtraction, and linear arithmetic does the rest.
-/

namespace KernelTraining.Machine

/-! ## Error numbers of calls that do not wait -/

def EAGAIN : ℤ := 11
def EBUSY : ℤ := 16

/-! ## Lists of calls -/

section Calls

variable {α : Type*} {calls : List α} {i : ℕ} {c : α}

/-- The calls are the one at `i` and the others. -/
theorem countP_eraseIdx (hc : calls[i]? = some c) (p : α → Bool) :
    calls.countP p = (calls.eraseIdx i).countP p + if p c then 1 else 0 := by
  obtain ⟨hi, rfl⟩ := List.getElem?_eq_some_iff.mp hc
  rw [← (List.getElem_cons_eraseIdx_perm hi).countP_eq, List.countP_cons]

theorem countP_set (hc : calls[i]? = some c) (c' : α) (p : α → Bool) :
    (calls.set i c').countP p + (if p c then 1 else 0) =
      calls.countP p + if p c' then 1 else 0 := by
  obtain ⟨hi, rfl⟩ := List.getElem?_eq_some_iff.mp hc
  have hle := List.boole_getElem_le_countP (p := p) hi
  rw [List.countP_set hi]
  omega

/-- An entry that counts as much as the one it replaces. -/
theorem countP_set_of_eq (hc : calls[i]? = some c) {d : α} {p : α → Bool} (heq : p d = p c) :
    (calls.set i d).countP p = calls.countP p := by
  have hset := countP_set hc d p
  rw [heq] at hset
  omega

/-- A property of the entries and their places holds after a step if it holds of the new
entry and of the others. -/
theorem forall_getElem?_set {P : ℕ → α → Prop} {c' : α} (hnew : P i c')
    (hother : ∀ j d, j ≠ i → calls[j]? = some d → P j d) :
    ∀ j d, (calls.set i c')[j]? = some d → P j d := by
  intro j d hd
  rw [List.getElem?_set] at hd
  split_ifs at hd with hij hlt
  · obtain rfl := Option.some.inj hd
    exact hij ▸ hnew
  · exact hother j d (Ne.symm hij) hd

/-- If only one entry counts, it is in one place. -/
theorem eq_of_countP_le_one {p : α → Bool} (hcount : calls.countP p ≤ 1) {j : ℕ} {d : α}
    (hc : calls[i]? = some c) (hd : calls[j]? = some d) (hpc : p c = true) (hpd : p d = true) :
    i = j := by
  by_contra hne
  obtain ⟨hi, rfl⟩ := List.getElem?_eq_some_iff.mp hc
  obtain ⟨hj, rfl⟩ := List.getElem?_eq_some_iff.mp hd
  have hsplit := countP_eraseIdx (List.getElem?_eq_getElem hi) p
  rw [if_pos hpc] at hsplit
  have hpos : 0 < (calls.eraseIdx i).countP p :=
    List.countP_pos_iff.mpr ⟨calls[j], List.mem_eraseIdx_iff_getElem.mpr ⟨j, hj, Ne.symm hne, rfl⟩,
      hpd⟩
  omega

theorem forall_getElem?_concat {P : ℕ → α → Prop} {c' : α} (hnew : P calls.length c')
    (hall : ∀ j d, calls[j]? = some d → P j d) : ∀ j d, (calls ++ [c'])[j]? = some d → P j d := by
  intro j d hd
  rcases Nat.lt_trichotomy j calls.length with hj | rfl | hj
  · rw [List.getElem?_append_left hj] at hd
    exact hall j d hd
  · rw [List.getElem?_concat_length] at hd
    exact Option.some.inj hd ▸ hnew
  · rw [List.getElem?_eq_none (by rw [List.length_append, List.length_singleton]; omega)] at hd
    cases hd

end Calls

end KernelTraining.Machine
