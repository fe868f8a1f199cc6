import KernelTraining.Abstract.Queue

/-!
# Circular buffers

A circular buffer of `size` cells with a read index `rp` and a write index `wp`; it is empty
if the two are equal, so one cell always stays free.  What it holds runs from `rp` to `wp`,
through the end of the cells if need be.  A transfer moves one contiguous run: at most
`run` cells can be read from `rp` on, and at most `room` cells written from `wp` on, before
an index wraps or meets the other one.

Such a buffer is a bounded queue (`RingBuffer.queue`), and the two transfers are what the queue
does (`RingBuffer.queue_write`, `RingBuffer.queue_read`).

* The indices are within the buffer by their type, and so is the condition that there are
  enough cells.  A buffer of size 0 or 1 is allowed, in which nothing is ever stored; there the
  cells may be missing altogether (`RingBuffer.fits`).
* `contents` has two cases, as the indices can be in either order, and an index at the end of
  the cells is set to 0, which changes the order.  So each transfer has three cases:
  before the end, up to it, and behind the other index.  `contents_write` and `contents_read`
  go through them once, and nothing later looks at the indices again.
* What a write changes is a stretch of the cells, and `overwriteAt` has the few facts about
  lists that are needed for it.  `scribble` is a write that is not completed: it has changed
  only cells that are free.
-/

namespace KernelTraining.Abstract

variable {α : Type*}

/-! ## Writing over a stretch of a list -/

/-- `cells` with `xs` written over them from `p` on. -/
def overwriteAt (cells : List α) (p : ℕ) (xs : List α) : List α :=
  cells.take p ++ xs ++ cells.drop (p + xs.length)

section OverwriteAt

variable {cells xs : List α} {p : ℕ}

theorem length_overwriteAt (h : p + xs.length ≤ cells.length) :
    (overwriteAt cells p xs).length = cells.length := by
  simp only [overwriteAt, List.length_append, List.length_take, List.length_drop]
  omega

theorem take_overwriteAt (h : p + xs.length ≤ cells.length) :
    (overwriteAt cells p xs).take (p + xs.length) = cells.take p ++ xs := by
  apply List.take_left'
  rw [List.length_append, List.length_take]
  omega

theorem drop_overwriteAt (h : p + xs.length ≤ cells.length) :
    (overwriteAt cells p xs).drop (p + xs.length) = cells.drop (p + xs.length) := by
  apply List.drop_left'
  rw [List.length_append, List.length_take]
  omega

/-- What lies behind the stretch is as it was. -/
theorem drop_take_overwriteAt (h : p + xs.length ≤ cells.length) {k : ℕ} (hk : p + xs.length ≤ k)
    (m : ℕ) : ((overwriteAt cells p xs).take m).drop k = (cells.take m).drop k := by
  obtain ⟨d, rfl⟩ := Nat.exists_eq_add_of_le hk
  rw [List.drop_take, List.drop_take, ← List.drop_drop, drop_overwriteAt h, List.drop_drop]

end OverwriteAt

/-! ## The buffer -/

structure RingBuffer (α : Type*) where
  cells : List α
  size : ℕ
  rp : ℕ
  wp : ℕ
  /-- A buffer of one cell never has anything in it, so the cell need not be there. -/
  fits : size ≤ max 1 cells.length
  rp_lt : rp < max 1 size
  wp_lt : wp < max 1 size

namespace RingBuffer

/-- What is in the buffer, in the order in which it was put there. -/
def contents (r : RingBuffer α) : List α :=
  if r.rp ≤ r.wp then (r.cells.take r.wp).drop r.rp
  else (r.cells.take r.size).drop r.rp ++ r.cells.take r.wp

/-- The number of cells that are free, apart from the one that always is. -/
def free (r : RingBuffer α) : ℕ := r.size - 1 - r.contents.length

/-- The number of cells that can be read in one go. -/
def run (r : RingBuffer α) : ℕ := if r.rp ≤ r.wp then r.wp - r.rp else r.size - r.rp

/-- The number of cells that can be written in one go. -/
def room (r : RingBuffer α) : ℕ :=
  min r.free (if r.rp ≤ r.wp then r.size - r.wp else r.rp - r.wp - 1)

/-- The index `n` cells after `p`; at the end of the cells it wraps. -/
def next (r : RingBuffer α) (p n : ℕ) : ℕ := if p + n = r.size then 0 else p + n

section Bounds

variable (r : RingBuffer α)

theorem size_le_of_wrapped (hwrapped : r.wp < r.rp) : r.size ≤ r.cells.length := by
  have := r.fits
  have := r.rp_lt
  omega

theorem wp_le : r.wp ≤ r.cells.length := by
  have := r.fits
  have := r.wp_lt
  omega

theorem length_contents :
    r.contents.length = if r.rp ≤ r.wp then r.wp - r.rp else r.size - r.rp + r.wp := by
  have hwp := r.wp_le
  unfold contents
  split_ifs with h
  · rw [List.length_drop, List.length_take]
    omega
  · have hsize := r.size_le_of_wrapped (by omega)
    rw [List.length_append, List.length_drop, List.length_take, List.length_take]
    omega

theorem length_contents_le : r.contents.length ≤ r.size - 1 := by
  have := r.rp_lt
  have := r.wp_lt
  rw [length_contents]
  split_ifs <;> omega

theorem contents_eq_nil_iff : r.contents = [] ↔ r.rp = r.wp := by
  have := r.rp_lt
  have := r.wp_lt
  rw [← List.length_eq_zero_iff, length_contents]
  split_ifs <;> omega

theorem run_le : r.run ≤ r.contents.length := by
  rw [length_contents, run]
  split_ifs <;> omega

/-- A buffer that is not empty has something to read in one go. -/
theorem run_pos (hne : r.rp ≠ r.wp) : 0 < r.run := by
  have := r.rp_lt
  have := r.wp_lt
  unfold run
  split_ifs <;> omega

theorem next_lt {p n : ℕ} (hp : p < max 1 r.size) (hn : p + n ≤ r.size) :
    r.next p n < max 1 r.size := by
  unfold next
  split_ifs <;> omega

theorem wp_add_room_le : r.wp + r.room ≤ r.size ∨ r.size = 0 := by
  have := r.rp_lt
  have := r.wp_lt
  unfold room
  split_ifs <;> omega

end Bounds

/-! ## The two transfers -/

/-- A buffer of at least one cell that holds nothing yet. -/
def ofCells (cells : List α) (size : ℕ) (h : size ≤ max 1 cells.length) : RingBuffer α where
  cells := cells
  size := size
  rp := 0
  wp := 0
  fits := h
  rp_lt := by omega
  wp_lt := by omega

theorem wp_add_le (r : RingBuffer α) {n : ℕ} (hn : n ≤ r.room) : r.wp + n ≤ r.size := by
  have hle := r.wp_add_room_le
  have := r.wp_lt
  have : r.room ≤ r.free := Nat.min_le_left _ _
  have : r.free ≤ r.size - 1 := Nat.sub_le _ _
  omega

theorem wp_add_le_length (r : RingBuffer α) {n : ℕ} (hn : n ≤ r.room) :
    r.wp + n ≤ r.cells.length := by
  have := r.wp_add_le hn
  have := r.fits
  have : r.room ≤ r.free := Nat.min_le_left _ _
  have : r.free ≤ r.size - 1 := Nat.sub_le _ _
  have := r.wp_lt
  omega

theorem rp_add_le (r : RingBuffer α) {n : ℕ} (hn : n ≤ r.run) : r.rp + n ≤ r.size := by
  have := r.rp_lt
  have := r.wp_lt
  unfold run at hn
  split_ifs at hn <;> omega

/-- `xs` are written from the write index on. -/
def write (r : RingBuffer α) (xs : List α) (h : xs.length ≤ r.room) : RingBuffer α where
  cells := overwriteAt r.cells r.wp xs
  size := r.size
  rp := r.rp
  wp := r.next r.wp xs.length
  fits := by
    rw [length_overwriteAt (r.wp_add_le_length h)]
    exact r.fits
  rp_lt := r.rp_lt
  wp_lt := r.next_lt r.wp_lt (r.wp_add_le h)

/-- `n` cells are given back from the read index on. -/
def read (r : RingBuffer α) (n : ℕ) (h : n ≤ r.run) : RingBuffer α where
  cells := r.cells
  size := r.size
  rp := r.next r.rp n
  wp := r.wp
  fits := r.fits
  rp_lt := r.next_lt r.rp_lt (r.rp_add_le h)
  wp_lt := r.wp_lt

/-- **A write appends.** -/
theorem contents_write (r : RingBuffer α) {xs : List α} (h : xs.length ≤ r.room) :
    (r.write xs h).contents = r.contents ++ xs := by
  have hlength := r.wp_add_le_length h
  have hle := r.wp_add_le h
  have htake := take_overwriteAt hlength
  have hwp := r.wp_lt
  have hrp := r.rp_lt
  have hfree : xs.length ≤ r.size - 1 - r.contents.length := Nat.le_trans h (Nat.min_le_left _ _)
  have hgap := Nat.le_trans h (Nat.min_le_right _ _)
  have hwpLe := r.wp_le
  rw [length_contents] at hfree
  by_cases horder : r.rp ≤ r.wp
  · rw [if_pos horder] at hfree hgap
    by_cases hwraps : r.wp + xs.length = r.size
    · -- the index wraps, and unless the buffer has no cells the reader is ahead of it
      have hnext : (r.write xs h).wp = 0 := if_pos hwraps
      by_cases hrp0 : r.rp = 0
      · have hxs : xs = [] := List.length_eq_zero_iff.mp (by omega)
        subst hxs
        have hwp0 : r.wp = 0 := by omega
        simp [contents, write, next, hrp0, hwp0]
      · have hahead : ¬ (r.write xs h).rp ≤ (r.write xs h).wp := by
          rw [hnext]
          exact hrp0 ∘ Nat.le_zero.mp
        unfold contents
        rw [if_neg hahead, if_pos horder, hnext, List.take_zero, List.append_nil]
        show ((overwriteAt r.cells r.wp xs).take r.size).drop r.rp = _
        rw [← hwraps, htake, List.drop_append_of_le_length (by rw [List.length_take]; omega)]
    · have hnext : (r.write xs h).wp = r.wp + xs.length := if_neg hwraps
      have hbehind : (r.write xs h).rp ≤ (r.write xs h).wp := by
        rw [hnext]
        exact Nat.le_trans horder (Nat.le_add_right _ _)
      unfold contents
      rw [if_pos hbehind, if_pos horder, hnext]
      show ((overwriteAt r.cells r.wp xs).take (r.wp + xs.length)).drop r.rp = _
      rw [htake, List.drop_append_of_le_length (by rw [List.length_take]; omega)]
  · rw [if_neg horder] at hfree hgap
    have hwraps : r.wp + xs.length ≠ r.size := by omega
    have hnext : (r.write xs h).wp = r.wp + xs.length := if_neg hwraps
    have hahead : ¬ (r.write xs h).rp ≤ (r.write xs h).wp := by
      rw [hnext]
      show ¬ r.rp ≤ _
      omega
    unfold contents
    rw [if_neg hahead, if_neg horder, hnext]
    show ((overwriteAt r.cells r.wp xs).take r.size).drop r.rp ++
      (overwriteAt r.cells r.wp xs).take (r.wp + xs.length) = _
    rw [drop_take_overwriteAt hlength (by omega), htake, List.append_assoc]

/-- A write whose index is not advanced in the end: only free cells have changed. -/
def scribble (r : RingBuffer α) (xs : List α) (h : xs.length ≤ r.room) : RingBuffer α where
  cells := overwriteAt r.cells r.wp xs
  size := r.size
  rp := r.rp
  wp := r.wp
  fits := (r.write xs h).fits
  rp_lt := r.rp_lt
  wp_lt := r.wp_lt

theorem contents_scribble (r : RingBuffer α) {xs : List α} (h : xs.length ≤ r.room) :
    (r.scribble xs h).contents = r.contents := by
  have hlength := r.wp_add_le_length h
  have hgap := Nat.le_trans h (Nat.min_le_right _ _)
  have hrp := r.rp_lt
  have htake : (overwriteAt r.cells r.wp xs).take r.wp = r.cells.take r.wp := by
    rw [overwriteAt, List.append_assoc, List.take_left' (by rw [List.length_take]; omega)]
  by_cases horder : r.rp ≤ r.wp
  · have horder' : (r.scribble xs h).rp ≤ (r.scribble xs h).wp := horder
    rw [contents, contents, if_pos horder, if_pos horder']
    exact congrArg (List.drop r.rp) htake
  · have horder' : ¬ (r.scribble xs h).rp ≤ (r.scribble xs h).wp := horder
    rw [contents, contents, if_neg horder, if_neg horder']
    rw [if_neg horder] at hgap
    show ((overwriteAt r.cells r.wp xs).take r.size).drop r.rp ++
      (overwriteAt r.cells r.wp xs).take r.wp = _
    rw [drop_take_overwriteAt hlength (by omega), htake]

/-- **A read takes from the front**: it finds the first items there … -/
theorem take_contents (r : RingBuffer α) {n : ℕ} (h : n ≤ r.run) :
    (r.cells.drop r.rp).take n = r.contents.take n := by
  have hwp := r.wp_le
  unfold run at h
  unfold contents
  by_cases horder : r.rp ≤ r.wp
  · rw [if_pos horder] at h ⊢
    rw [List.drop_take, List.take_take, Nat.min_eq_left h]
  · rw [if_neg horder] at h ⊢
    have hsize := r.size_le_of_wrapped (by omega)
    rw [List.take_append_of_le_length (by rw [List.length_drop, List.length_take]; omega),
      List.drop_take, List.take_take, Nat.min_eq_left h]

/-- … and leaves the others. -/
theorem contents_read (r : RingBuffer α) {n : ℕ} (h : n ≤ r.run) :
    (r.read n h).contents = r.contents.drop n := by
  have hwp := r.wp_lt
  have hrp := r.rp_lt
  have hrun := h
  unfold run at hrun
  by_cases horder : r.rp ≤ r.wp
  · rw [if_pos horder] at hrun
    by_cases hwraps : r.rp + n = r.size
    · have hnone : r.size = 0 := by omega
      have hempty : r.contents = [] := r.contents_eq_nil_iff.mpr (by omega)
      rw [hempty, List.drop_nil, contents_eq_nil_iff]
      show r.next r.rp n = r.wp
      rw [next, if_pos hwraps]
      omega
    · have hnext : (r.read n h).rp = r.rp + n := if_neg hwraps
      have hbehind : (r.read n h).rp ≤ (r.read n h).wp := by
        rw [hnext]
        show r.rp + n ≤ r.wp
        omega
      unfold contents
      rw [if_pos hbehind, if_pos horder, hnext, List.drop_drop]
      rfl
  · rw [if_neg horder] at hrun
    have hsize := r.size_le_of_wrapped (by omega)
    have hfirst : ((r.cells.take r.size).drop r.rp).length = r.size - r.rp := by
      rw [List.length_drop, List.length_take]
      omega
    by_cases hwraps : r.rp + n = r.size
    · have hnext : (r.read n h).rp = 0 := if_pos hwraps
      have hbehind : (r.read n h).rp ≤ (r.read n h).wp := by
        rw [hnext]
        exact Nat.zero_le _
      unfold contents
      rw [if_pos hbehind, if_neg horder, hnext, List.drop_zero, List.drop_left' (by omega)]
      rfl
    · have hnext : (r.read n h).rp = r.rp + n := if_neg hwraps
      have hahead : ¬ (r.read n h).rp ≤ (r.read n h).wp := by
        rw [hnext]
        show ¬ r.rp + n ≤ r.wp
        omega
      unfold contents
      rw [if_neg hahead, if_neg horder, hnext, List.drop_append_of_le_length (by omega),
        List.drop_drop]
      rfl

/-! ## The queue -/

def queue (r : RingBuffer α) : Queue α := ⟨r.size - 1, r.contents, r.length_contents_le⟩

variable [DecidableEq α]

theorem queue_write (r : RingBuffer α) {xs : List α} (h : xs.length ≤ r.room) :
    r.queue.apply (.put xs) = some (r.write xs h).queue := by
  have hfits : (r.queue.items ++ xs).length ≤ r.queue.capacity := by
    have := (r.write xs h).length_contents_le
    rwa [contents_write] at this
  rw [Queue.apply, dif_pos hfits]
  exact congrArg some (Queue.ext rfl (r.contents_write h).symm)

theorem queue_read (r : RingBuffer α) {n : ℕ} (h : n ≤ r.run) :
    r.queue.apply (.get (r.contents.take n)) = some (r.read n h).queue := by
  have hlength : (r.contents.take n).length = n := by
    rw [List.length_take]
    exact Nat.min_eq_left (Nat.le_trans h r.run_le)
  have hfront : r.contents.take n <+: r.queue.items := List.take_prefix _ _
  rw [Queue.apply, if_pos hfront]
  refine congrArg some (Queue.ext rfl ?_)
  show r.contents.drop (r.contents.take n).length = (r.read n h).contents
  rw [hlength, contents_read]

end RingBuffer

end KernelTraining.Abstract
