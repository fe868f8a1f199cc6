import KernelTraining.Machine.Libfs

/-!
# The debugfs file foo

`task08_read_foo` and `task08_write_foo` of `Task08.c`, without the semaphore, which is
the subject of `Task08/Semaphore.lean`.  The page `data` is seen as the memory from
`data` on: what lies past `PAGE_SIZE` belongs to somebody else.

Both calls leave the transfer to a helper of the kernel.  A write gives it the whole page for a
buffer, and keeps its result in `size`, an `int`, whatever that is; a read gives it `size` for
the length, and that is a `size_t`, so a negative one is a huge length (`readFoo_some` is about
the others only).

The size of a page is the kernel's, and so are the helpers; `Kernel` has both.  Two things are
used of the page size, that it is positive and that it is an `int`, so neither a result of the
helper nor a position in the page is ever cut (`wrap32_le_pageSize`, `wrap64_le_pageSize`).

The lemmas below are one for each way a call can go: a write at a negative position, one that
has nothing to copy or no room for it, one of which nothing could be copied, and one that gets
past `k` bytes; and a read that has nothing to deliver, or delivers `k` bytes.
-/

namespace KernelTraining.Task08

open Machine

/-- What the module takes from the kernel. -/
structure Kernel extends Libfs where
  pageSize : ℕ
  pageSize_pos : 0 < pageSize
  pageSize_le : pageSize ≤ 2147483647

/-- Linux with pages of 4096 bytes. -/
def Kernel.linux : Kernel := { Libfs.linux with
  pageSize := 4096
  pageSize_pos := by decide
  pageSize_le := by decide }

/-- The memory from `data` on, and `size`. -/
structure Foo where
  data : ℕ → UInt8
  size : ℤ

/-- The return value of `task08_write_foo`, `*f_pos`, and what it leaves. -/
structure FooOut where
  retval : ℤ
  fPos : ℤ
  foo : Foo

/-- `task08_read_foo`: `size` is passed on as a `size_t`. -/
def task08ReadFoo (K : Kernel) (s : Foo) (count : ℕ) (fPos : ℤ) (fault : Option ℕ) : ReadOut :=
  K.simpleReadFromBuffer count fPos s.data (toULong s.size) fault

/-- `task08_write_foo`: the value of the assignment to `size`, an `int`, is returned. -/
def task08WriteFoo (K : Kernel) (s : Foo) (buf : List UInt8) (fPos : ℤ) (fault : Option ℕ) :
    FooOut :=
  let out := K.simpleWriteToBuffer s.data K.pageSize fPos buf fault
  let size := wrap32 out.retval
  ⟨size, out.ppos, ⟨out.memory, size⟩⟩

/-! ## What they do -/

section Calls

variable {K : Kernel} {s : Foo} {buf : List UInt8} {p : ℕ}

theorem wrap32_le_pageSize {k : ℕ} (hk : k ≤ K.pageSize) : wrap32 k = k := by
  have := K.pageSize_le
  exact wrap32_eq (by omega) (by unfold intMax; omega)

theorem wrap64_le_pageSize {k : ℕ} (hk : p + k ≤ K.pageSize) :
    wrap64 ((p : ℤ) + k) = ((p + k : ℕ) : ℤ) := by
  have := K.pageSize_le
  rw [Int.natCast_add]
  exact wrap64_eq (by omega) (by omega)

theorem writeFoo_negative {fPos : ℤ} (hneg : fPos < 0) (fault : Option ℕ) :
    task08WriteFoo K s buf fPos fault = ⟨-EINVAL, fPos, ⟨s.data, -EINVAL⟩⟩ := by
  simp only [task08WriteFoo, K.write_negative hneg]
  rfl

theorem writeFoo_nothing (hnothing : K.pageSize ≤ p ∨ buf = []) (fault : Option ℕ) :
    task08WriteFoo K s buf p fault = ⟨0, p, ⟨s.data, 0⟩⟩ := by
  simp only [task08WriteFoo, K.write_nothing hnothing]
  rfl

/-- A write that gets past `k` of the `n` bytes there is room for. -/
theorem writeFoo_some (hp : p < K.pageSize) {fault : Option ℕ} {n k : ℕ}
    (hn : min buf.length (K.pageSize - p) = n) (hk : transferred fault n = k) (hpos : 0 < k) :
    task08WriteFoo K s buf p fault =
      ⟨k, ((p + k : ℕ) : ℤ), ⟨overwrite s.data p (padded buf k n), k⟩⟩ := by
  have hle := transferred_le fault n
  have hbuf : buf ≠ [] := by
    rintro rfl
    rw [List.length_nil] at hn
    omega
  have hwrite : K.simpleWriteToBuffer s.data K.pageSize p buf fault = _ :=
    K.write_some hp hbuf hn hk
  rw [if_neg (by omega)] at hwrite
  simp only [task08WriteFoo, hwrite, wrap32_le_pageSize (show k ≤ K.pageSize by omega),
    wrap64_le_pageSize (show p + k ≤ K.pageSize by omega)]

/-- A write of which not a single byte can be copied. -/
theorem writeFoo_fault (hp : p < K.pageSize) (hbuf : buf ≠ []) {fault : Option ℕ} {n : ℕ}
    (hn : min buf.length (K.pageSize - p) = n) (hk : transferred fault n = 0) :
    task08WriteFoo K s buf p fault =
      ⟨-EFAULT, p, ⟨overwrite s.data p (padded buf 0 n), -EFAULT⟩⟩ := by
  have hwrite : K.simpleWriteToBuffer s.data K.pageSize p buf fault = _ :=
    K.write_some hp hbuf hn hk
  rw [if_pos rfl] at hwrite
  simp only [task08WriteFoo, hwrite]
  rfl

theorem toULong_size {size : ℕ} (hsize : size ≤ K.pageSize) : toULong size = size := by
  have := K.pageSize_le
  exact toULong_natCast (by omega)

theorem readFoo_nothing {size count : ℕ} (hsize : s.size = size) (hle : size ≤ K.pageSize)
    (hnothing : size ≤ p ∨ count = 0) (fault : Option ℕ) :
    task08ReadFoo K s count p fault = ⟨0, p, []⟩ := by
  rw [task08ReadFoo, hsize, toULong_size hle, K.read_nothing hnothing]

/-- A read that delivers `k` bytes. -/
theorem readFoo_some {size count : ℕ} (hsize : s.size = size) (hle : size ≤ K.pageSize)
    (hp : p < size) {fault : Option ℕ} {k : ℕ}
    (hk : transferred fault (min count (size - p)) = k) (hpos : 0 < k) :
    task08ReadFoo K s count p fault =
      ⟨k, ((p + k : ℕ) : ℤ), (List.range k).map fun i => s.data (p + i)⟩ := by
  have hcopied := transferred_le fault (min count (size - p))
  have hread : K.simpleReadFromBuffer count p s.data size fault = _ :=
    K.read_some hp (show 0 < count by omega) hk
  rw [if_neg (by omega)] at hread
  rw [task08ReadFoo, hsize, toULong_size hle, hread,
    wrap64_le_pageSize (show p + k ≤ K.pageSize by omega)]

/-- Whatever a read delivers lies below `size`. -/
theorem readFoo_copied {size count : ℕ} (hsize : s.size = size) (hle : size ≤ K.pageSize)
    (fPos : ℤ) (fault : Option ℕ) {i : ℕ} {b : UInt8}
    (hb : (task08ReadFoo K s count fPos fault).copied[i]? = some b) :
    0 ≤ fPos ∧ fPos.toNat + i < size ∧ s.data (fPos.toNat + i) = b := by
  rcases lt_or_ge fPos 0 with hneg | hnonneg
  · rw [task08ReadFoo, K.read_negative hneg] at hb
    simp at hb
  obtain ⟨p, rfl⟩ := Int.eq_ofNat_of_zero_le hnonneg
  have hcopied := transferred_le fault (min count (size - p))
  by_cases hnothing : size ≤ p ∨ count = 0
  · rw [readFoo_nothing hsize hle hnothing] at hb
    simp at hb
  rcases Nat.eq_zero_or_pos (transferred fault (min count (size - p))) with hzero | hpos
  · have hread : K.simpleReadFromBuffer count p s.data size fault = _ :=
      K.read_some (show p < size by omega) (show 0 < count by omega) hzero
    rw [if_pos rfl] at hread
    rw [task08ReadFoo, hsize, toULong_size hle, hread] at hb
    simp at hb
  · rw [readFoo_some hsize hle (by omega) rfl hpos] at hb
    simp only [List.getElem?_map, Option.map_eq_some_iff, List.getElem?_eq_some_iff,
      List.length_range, List.getElem_range] at hb
    obtain ⟨_, ⟨hi, rfl⟩, hdata⟩ := hb
    rw [Int.toNat_natCast]
    exact ⟨hnonneg, by omega, hdata⟩

end Calls

end KernelTraining.Task08
