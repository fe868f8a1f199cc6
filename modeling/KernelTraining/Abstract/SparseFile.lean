import Mathlib.Data.Nat.Notation
import Mathlib.Order.Bounds.Basic
import Mathlib.Order.Lattice.Nat

/-!
# Files with unknown parts

What a caller knows of the contents of a file it did not write completely: a partial map from
positions to values.  `store` is a write, and `Sub` says that one map knows no more than
another.

A ghost of this kind is kept beside a program that has the real file.  A write makes known what
it covers and nothing else (`mem_dom_store`), and `store_of_mem` and `store_of_notMem` say what
is known at a position afterwards; so a statement about the whole file is shown for a position
under the write and for one beside it.

The size of such a file is its high-water mark, one past the highest position that is known.
`HighWater` says this as it is understood, with a case for the file of which nothing is known;
`highWater_iff` makes it the least bound of the known positions, without a case, and this is
what one reasons with (`HighWater.store`).
-/

namespace KernelTraining.Abstract

/-- A file, known at some of its positions. -/
def SparseFile (α : Type*) := ℕ → Option α

namespace SparseFile

variable {α : Type*} {m : SparseFile α} {p x : ℕ} {data : List α}

def empty : SparseFile α := fun _ => none

/-- The file after `data` has been written at position `p`. -/
def store (m : SparseFile α) (p : ℕ) (data : List α) : SparseFile α := fun x =>
  if p ≤ x ∧ x < p + data.length then data[x - p]? else m x

/-- Whatever `m` knows, `m'` knows as well. -/
def Sub (m m' : SparseFile α) : Prop := ∀ x a, m x = some a → m' x = some a

/-- The positions the file is known at. -/
def dom (m : SparseFile α) : Set ℕ := {x | m x ≠ none}

theorem store_of_mem (hx : p ≤ x ∧ x < p + data.length) : m.store p data x = data[x - p]? :=
  if_pos hx

theorem store_of_notMem (hx : ¬ (p ≤ x ∧ x < p + data.length)) : m.store p data x = m x :=
  if_neg hx

@[simp] theorem store_nil (m : SparseFile α) (p : ℕ) : m.store p [] = m := by
  funext x
  apply store_of_notMem
  intro h
  rw [List.length_nil] at h
  omega

/-- Two writes, one behind the other. -/
theorem store_store (m : SparseFile α) (p : ℕ) (data data' : List α) :
    (m.store p data).store (p + data.length) data' = m.store p (data ++ data') := by
  funext x
  by_cases hnew : p + data.length ≤ x ∧ x < p + data.length + data'.length
  · rw [store_of_mem hnew, store_of_mem (by rw [List.length_append]; omega),
      List.getElem?_append_right (by omega), Nat.sub_sub]
  rw [store_of_notMem hnew]
  by_cases hold : p ≤ x ∧ x < p + data.length
  · rw [store_of_mem hold, store_of_mem (by rw [List.length_append]; omega),
      List.getElem?_append_left (by omega)]
  · rw [store_of_notMem hold, store_of_notMem (by rw [List.length_append]; omega)]

/-- A write makes known what it covers, and nothing else. -/
theorem mem_dom_store : x ∈ (m.store p data).dom ↔ (p ≤ x ∧ x < p + data.length) ∨ x ∈ m.dom := by
  by_cases hx : p ≤ x ∧ x < p + data.length
  · have hsome : data[x - p]? ≠ none := by
      rw [ne_eq, List.getElem?_eq_none_iff]
      omega
    simp only [dom, Set.mem_ofPred_eq, store_of_mem hx, hsome, ne_eq, not_false_eq_true, hx,
      true_or, and_self]
  · simp only [dom, Set.mem_ofPred_eq, store_of_notMem hx, hx, false_or]

theorem empty_sub (m : SparseFile α) : Sub empty m := fun _ _ h => by simp [empty] at h

/-! ## The highest known position -/

/-- `n` is one past the highest known position, and 0 if there is none. -/
def HighWater (m : SparseFile α) (n : ℕ) : Prop :=
  (m.dom = ∅ ∧ n = 0) ∨ ∃ x, IsGreatest m.dom x ∧ n = x + 1

/-- The high-water mark is the least bound of the known positions. -/
theorem highWater_iff {n : ℕ} : m.HighWater n ↔ ∀ k, n ≤ k ↔ ∀ x ∈ m.dom, x < k := by
  constructor
  · rintro (⟨hempty, rfl⟩ | ⟨x, ⟨hx, hgreatest⟩, rfl⟩) k
    · simp [hempty]
    · exact ⟨fun hk y hy => lt_of_le_of_lt (hgreatest hy) hk, fun hk => hk x hx⟩
  · intro hleast
    have hbound : ∀ x ∈ m.dom, x < n := (hleast n).mp le_rfl
    rcases n with _ | n
    · refine .inl ⟨Set.eq_empty_of_forall_notMem fun x hx => ?_, rfl⟩
      exact absurd (hbound x hx) (Nat.not_lt_zero x)
    · refine .inr ⟨n, ⟨?_, fun x hx => Nat.le_of_lt_succ (hbound x hx)⟩, rfl⟩
      -- otherwise `n` would be a smaller bound
      by_contra hn
      have hsmaller : n + 1 ≤ n := (hleast n).mpr fun x hx => by
        have hlt := hbound x hx
        have hne : x ≠ n := fun heq => hn (heq ▸ hx)
        omega
      omega

theorem HighWater.unique {n k : ℕ} (hn : m.HighWater n) (hk : m.HighWater k) : n = k := by
  rw [highWater_iff] at hn hk
  exact le_antisymm ((hn k).mpr ((hk k).mp le_rfl)) ((hk n).mpr ((hn n).mp le_rfl))

theorem highWater_empty : (empty : SparseFile α).HighWater 0 := by
  refine .inl ⟨Set.eq_empty_of_forall_notMem fun x hx => ?_, rfl⟩
  exact hx rfl

/-- A write moves the mark to its end, if that is higher. -/
theorem HighWater.store {n : ℕ} (hn : m.HighWater n) (hdata : data ≠ []) :
    (m.store p data).HighWater (max n (p + data.length)) := by
  have hpos := List.length_pos_iff.mpr hdata
  rw [highWater_iff] at hn ⊢
  intro k
  rw [max_le_iff, hn k]
  constructor
  · rintro ⟨hold, hend⟩ x hx
    rcases mem_dom_store.mp hx with hnew | hmem
    · omega
    · exact hold x hmem
  · intro hall
    refine ⟨fun x hx => hall x (mem_dom_store.mpr (.inr hx)), ?_⟩
    have hlast := hall (p + data.length - 1) (mem_dom_store.mpr (.inl (by omega)))
    omega

end SparseFile

end KernelTraining.Abstract
