import KernelTraining.Machine.UserCopy
import KernelTraining.Machine.Words

/-!
# The buffer helpers of the kernel

`simple_read_from_buffer` and `simple_write_to_buffer` belong to the kernel, not to the
modules.  `Libfs` is what the modules rely on: both clamp a transfer to the size of the
buffer, copy at `*ppos`, advance it, and return the number of bytes copied, or an error
when the position is negative or not a single byte could be copied.

The memory a buffer lies in is a function from offsets, because a module can hand over
a length that is too large.

A module is verified for any helpers of this kind, and `Libfs.linux` shows that there are some.
Each field covers one way a call can go, with the position, the count and the length of the
buffer as it finds them, and says everything the call returns and leaves.  A copy that stops on
the way leaves zeros in the rest of its destination (`padded`), which is what `copy_from_user`
does.
-/

namespace KernelTraining.Machine

/-- How many of `n` bytes a user copy transfers. -/
def transferred (fault : Option ℕ) (n : ℕ) : ℕ :=
  match fault with
  | none => n
  | some j => min j n

theorem transferred_le (fault : Option ℕ) (n : ℕ) : transferred fault n ≤ n := by
  unfold transferred
  split <;> omega

@[simp] theorem transferred_none (n : ℕ) : transferred none n = n := rfl

/-- When a copy into `m + 1` bytes does not fill them. -/
theorem transferred_min_succ_le_iff {fault : Option ℕ} {n m : ℕ} :
    transferred fault (min n (m + 1)) ≤ m ↔ n ≤ m ∨ ∃ j ≤ m, fault = some j := by
  cases fault with
  | none =>
      rw [transferred_none]
      simp only [reduceCtorEq, and_false, exists_false, or_false]
      omega
  | some j =>
      simp only [transferred, Option.some.injEq, exists_eq_right']
      omega

/-- Memory with `bytes` written over it from offset `off` on. -/
def overwrite (memory : ℕ → UInt8) (off : ℕ) (bytes : List UInt8) : ℕ → UInt8 := fun j =>
  if off ≤ j ∧ j < off + bytes.length then bytes.getD (j - off) 0 else memory j

/-- A byte of memory under `bytes`. -/
theorem overwrite_of_mem {memory : ℕ → UInt8} {off j : ℕ} {bytes : List UInt8}
    (hj : off ≤ j ∧ j < off + bytes.length) :
    overwrite memory off bytes j = bytes.getD (j - off) 0 :=
  if_pos hj

/-- A byte of memory past `bytes`. -/
theorem overwrite_of_le {memory : ℕ → UInt8} {off j : ℕ} {bytes : List UInt8}
    (hj : off + bytes.length ≤ j) : overwrite memory off bytes j = memory j :=
  if_neg (by omega)

/-- What `copy_from_user` leaves in the `n` bytes of its destination when it gets past
`k` of them: the rest is cleared. -/
def padded (src : List UInt8) (k n : ℕ) : List UInt8 := src.take k ++ List.replicate (n - k) 0

theorem length_padded {src : List UInt8} {k n : ℕ} (hk : k ≤ n) (hn : n ≤ src.length) :
    (padded src k n).length = n := by
  simp only [padded, List.length_append, List.length_take, List.length_replicate]
  omega

theorem padded_self (v : List UInt8) : padded v v.length v.length = v := by
  rw [padded, List.take_length, Nat.sub_self, List.replicate_zero, List.append_nil]

/-- The return value of `simple_write_to_buffer`, `*ppos` and the memory afterwards. -/
structure WriteOut where
  retval : ℤ
  ppos : ℤ
  memory : ℕ → UInt8

/-- The return value of `simple_read_from_buffer`, `*ppos` afterwards, and the bytes that
reached the user. -/
structure ReadOut where
  retval : ℤ
  ppos : ℤ
  copied : List UInt8
  deriving DecidableEq

/-- The two helpers, as the kernel documents them. -/
structure Libfs where
  /-- The arguments are the memory from `to` on, `available`, `*ppos`, the `count` bytes at
  `from`, and the first of these that cannot be copied. -/
  simpleWriteToBuffer : (ℕ → UInt8) → ℕ → ℤ → List UInt8 → Option ℕ → WriteOut
  /-- The arguments are `count`, `*ppos`, the memory from `from` on, `available`, and the
  first byte that cannot be copied. -/
  simpleReadFromBuffer : ℕ → ℤ → (ℕ → UInt8) → ℕ → Option ℕ → ReadOut
  write_negative : ∀ {memory available ppos src fault}, ppos < 0 →
    simpleWriteToBuffer memory available ppos src fault = ⟨-EINVAL, ppos, memory⟩
  write_nothing : ∀ {memory available src fault} {p : ℕ}, available ≤ p ∨ src = [] →
    simpleWriteToBuffer memory available p src fault = ⟨0, p, memory⟩
  write_some : ∀ {memory available src fault} {p n k : ℕ}, p < available → src ≠ [] →
    min src.length (available - p) = n → transferred fault n = k →
    simpleWriteToBuffer memory available p src fault =
      if k = 0 then ⟨-EFAULT, p, overwrite memory p (padded src k n)⟩
      else ⟨k, wrap64 (p + k), overwrite memory p (padded src k n)⟩
  read_negative : ∀ {count ppos src available fault}, ppos < 0 →
    simpleReadFromBuffer count ppos src available fault = ⟨-EINVAL, ppos, []⟩
  read_nothing : ∀ {count src available fault} {p : ℕ}, available ≤ p ∨ count = 0 →
    simpleReadFromBuffer count p src available fault = ⟨0, p, []⟩
  read_some : ∀ {count src available fault} {p k : ℕ}, p < available → 0 < count →
    transferred fault (min count (available - p)) = k →
    simpleReadFromBuffer count p src available fault =
      if k = 0 then ⟨-EFAULT, p, []⟩
      else ⟨k, wrap64 (p + k), (List.range k).map fun i => src (p + i)⟩

/-- Helpers that do just that. -/
def Libfs.linux : Libfs where
  simpleWriteToBuffer memory available ppos src fault :=
    if ppos < 0 then ⟨-EINVAL, ppos, memory⟩
    else if available ≤ ppos.toNat ∨ src.length = 0 then ⟨0, ppos, memory⟩
    else
      let n := min src.length (available - ppos.toNat)
      let k := transferred fault n
      let stored := overwrite memory ppos.toNat (padded src k n)
      if k = 0 then ⟨-EFAULT, ppos, stored⟩ else ⟨k, wrap64 (ppos + k), stored⟩
  simpleReadFromBuffer count ppos src available fault :=
    if ppos < 0 then ⟨-EINVAL, ppos, []⟩
    else if available ≤ ppos.toNat ∨ count = 0 then ⟨0, ppos, []⟩
    else
      let k := transferred fault (min count (available - ppos.toNat))
      if k = 0 then ⟨-EFAULT, ppos, []⟩
      else ⟨k, wrap64 (ppos + k), (List.range k).map fun i => src (ppos.toNat + i)⟩
  write_negative h := if_pos h
  write_nothing h := by
    rw [if_neg (by omega), Int.toNat_natCast, if_pos (by simpa using h)]
  write_some hp hsrc hn hk := by
    subst hn hk
    rw [if_neg (by omega), Int.toNat_natCast, if_neg (by simpa using ⟨hp, hsrc⟩)]
  read_negative h := if_pos h
  read_nothing h := by
    rw [if_neg (by omega), Int.toNat_natCast, if_pos h]
  read_some hp hcount hk := by
    subst hk
    rw [if_neg (by omega), Int.toNat_natCast, if_neg (by omega)]

end KernelTraining.Machine
