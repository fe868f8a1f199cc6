import Mathlib.Data.Nat.ModEq
import Mathlib.Algebra.BigOperators.Group.List.Basic

/-!
# One's complement sums

In one's complement arithmetic on the numbers up to `m` a carry out of the top is added
back at the bottom, so addition is addition modulo `m`, except that zero has two
representations, `0` and `m`.  A sum is 0 only if all its terms are, so a sum is
determined by the ordinary one: it is `endAround m` of it.

* `endAround` picks the representative of a residue: the one in `1, …, m`, and `0` only for the
  number 0 itself.  It is characterised by three things, its bound, its residue, and when it is
  0 (`endAround_eq`), and every computation below shows these three and no more.
* Adding one number is adding to the representative (`onesAdd_endAround`), and by induction so
  is adding many (`onesSum_eq`).
* An ordinary sum in which the carries are still in the upper digits has them added back at the
  end.  Each time it loses a multiple of `m` (`carry_modEq`), becomes smaller (`carry_lt`), and
  does not become 0 (`carry_eq_zero_iff`).  So folding ends, and it ends at the representative
  (`carryAround_eq`).
-/

namespace KernelTraining.Abstract

/-- One's complement addition of numbers up to `m`. -/
def onesAdd (m a b : ℕ) : ℕ := if a + b ≤ m then a + b else a + b - m

/-- The one's complement sum of a list of numbers up to `m`. -/
def onesSum (m : ℕ) (ws : List ℕ) : ℕ := ws.foldl (onesAdd m) 0

/-- The representative of `n` modulo `m` in `1, …, m`, and 0 for 0. -/
def endAround (m n : ℕ) : ℕ := if n = 0 then 0 else (n - 1) % m + 1

variable {m n r : ℕ}

@[simp] theorem endAround_zero (m : ℕ) : endAround m 0 = 0 := rfl

theorem endAround_le (hm : 0 < m) (n : ℕ) : endAround m n ≤ m := by
  unfold endAround
  split_ifs
  · exact hm.le
  · exact Nat.mod_lt _ hm

/-- The representative is determined by its residue, and by being 0 or not. -/
theorem endAround_eq (hr : r ≤ m) (hmod : r ≡ n [MOD m]) (hzero : r = 0 ↔ n = 0) :
    endAround m n = r := by
  rcases n with _ | n
  · exact (hzero.mpr rfl).symm
  rcases r with _ | r
  · exact absurd (hzero.mp rfl) (by omega)
  have hpred : r ≡ n [MOD m] := Nat.ModEq.add_right_cancel' 1 hmod
  show n % m + 1 = r + 1
  rw [← hpred, Nat.mod_eq_of_lt (by omega)]

theorem endAround_eq_zero_iff : endAround m n = 0 ↔ n = 0 := by
  unfold endAround
  split_ifs with hn <;> simp [hn]

theorem endAround_modEq (m n : ℕ) : endAround m n ≡ n [MOD m] := by
  rcases n with _ | n
  · rfl
  · exact (Nat.mod_modEq n m).add_right 1

/-- A sum that is a negative zero. -/
theorem endAround_eq_self_iff (hm : 0 < m) : endAround m n = m ↔ n ≠ 0 ∧ m ∣ n := by
  constructor
  · intro heq
    have hmod := endAround_modEq m n
    rw [heq] at hmod
    refine ⟨?_, (Nat.modEq_zero_iff_dvd).mp (hmod.symm.trans ?_)⟩
    · intro hn
      rw [hn, endAround_zero] at heq
      omega
    · simp [Nat.ModEq]
  · rintro ⟨hn, hdvd⟩
    refine endAround_eq le_rfl ?_ (iff_of_false (by omega) hn)
    exact (Nat.modEq_zero_iff_dvd.mpr dvd_rfl).trans (Nat.modEq_zero_iff_dvd.mpr hdvd).symm

/-- Adding to a sum is adding to its representative. -/
theorem onesAdd_endAround (hm : 0 < m) (n : ℕ) {a : ℕ} (ha : a ≤ m) :
    onesAdd m (endAround m n) a = endAround m (n + a) := by
  have hle := endAround_le hm n
  have hzero : endAround m n = 0 ↔ n = 0 := endAround_eq_zero_iff
  have hadd : endAround m n + a ≡ n + a [MOD m] := (endAround_modEq m n).add_right a
  symm
  unfold onesAdd
  split_ifs with hfits
  · exact endAround_eq hfits hadd (by omega)
  · refine endAround_eq (by omega) ?_ (by omega)
    calc endAround m n + a - m ≡ m + (endAround m n + a - m) [MOD m] := by simp [Nat.ModEq]
      _ = endAround m n + a := Nat.add_sub_cancel' (by omega)
      _ ≡ n + a [MOD m] := hadd

theorem foldl_onesAdd (hm : 0 < m) (ws : List ℕ) (hws : ∀ w ∈ ws, w ≤ m) (n : ℕ) :
    ws.foldl (onesAdd m) (endAround m n) = endAround m (n + ws.sum) := by
  induction ws generalizing n with
  | nil => rfl
  | cons w ws ih =>
      rw [List.forall_mem_cons] at hws
      rw [List.foldl_cons, onesAdd_endAround hm n hws.1, ih hws.2, List.sum_cons, Nat.add_assoc]

/-- **The one's complement sum is determined by the ordinary sum.** -/
theorem onesSum_eq (hm : 0 < m) {ws : List ℕ} (hws : ∀ w ∈ ws, w ≤ m) :
    onesSum m ws = endAround m ws.sum := by
  have hfold := foldl_onesAdd hm ws hws 0
  rwa [endAround_zero, Nat.zero_add] at hfold

/-! ## Folding

An ordinary sum is brought into range by adding what lies above the low digit back in,
until nothing does. -/

/-- One carry takes a multiple of `m` from the sum. -/
theorem carry_modEq (m n : ℕ) : n / (m + 1) + n % (m + 1) ≡ n [MOD m] := by
  have hone : 1 ≡ m + 1 [MOD m] := by simp [Nat.ModEq]
  calc n / (m + 1) + n % (m + 1)
      = 1 * (n / (m + 1)) + n % (m + 1) := by rw [Nat.one_mul]
    _ ≡ (m + 1) * (n / (m + 1)) + n % (m + 1) [MOD m] := (hone.mul_right _).add_right _
    _ = n := Nat.div_add_mod n (m + 1)

theorem carry_eq_zero_iff : n / (m + 1) + n % (m + 1) = 0 ↔ n = 0 := by
  have hdiv := Nat.div_add_mod n (m + 1)
  constructor
  · intro hzero
    rw [Nat.add_eq_zero_iff] at hzero
    rw [← hdiv, hzero.1, hzero.2, Nat.mul_zero]
  · rintro rfl
    simp

theorem carry_lt (hm : 0 < m) (hn : m < n) : n / (m + 1) + n % (m + 1) < n := by
  have hdiv := Nat.div_add_mod n (m + 1)
  have hcarry : 0 < n / (m + 1) := Nat.div_pos hn (Nat.succ_pos m)
  have htaken : 0 < m * (n / (m + 1)) := Nat.mul_pos hm hcarry
  rw [Nat.add_mul, Nat.one_mul] at hdiv
  omega

/-- Adds the carry back in until there is none. -/
def carryAround (m : ℕ) (hm : 0 < m) (n : ℕ) : ℕ :=
  if n ≤ m then n else carryAround m hm (n / (m + 1) + n % (m + 1))
termination_by n
decreasing_by exact carry_lt hm (by omega)

/-- **Where folding ends**: at the representative of the sum. -/
theorem carryAround_eq (hm : 0 < m) (n : ℕ) : carryAround m hm n = endAround m n := by
  induction n using carryAround.induct m hm with
  | case1 n hfits =>
      rw [carryAround, if_pos hfits]
      exact (endAround_eq hfits rfl Iff.rfl).symm
  | case2 n hover ih =>
      rw [carryAround, if_neg hover, ih]
      refine (endAround_eq (endAround_le hm _) ?_ ?_).symm
      · exact (endAround_modEq m _).trans (carry_modEq m n)
      · rw [endAround_eq_zero_iff, carry_eq_zero_iff]

end KernelTraining.Abstract
