import KernelTraining.Machine.Heap

/-!
# Byte windows and copies between kernel and user memory

A user copy can stop at a bad user page: `copy_from_user` and `copy_to_user`
then report how many bytes they did not copy.  The page is the environment's
choice, given as `fault : Option ℕ`, the index of the first byte that cannot be
copied; an index at or past the length of the copy means that nothing goes
wrong.

The kernel side of a copy is a window of a block, and it is a fault if it does not lie in it
(`window`); so is an index into an array of pointers that is out of range (`index`).  A copy to
the user delivers the bytes before the one that fails.  A copy from the user leaves zeros from
there on, and nothing outside its window changes (`getElem?_copyFromUser_of_outside`).
-/

namespace KernelTraining.Machine

/-! ## Error numbers -/

def EPERM : ℤ := 1
def EBADF : ℤ := 9
def ENOMEM : ℤ := 12
def EFAULT : ℤ := 14
def EINVAL : ℤ := 22
def ENOTTY : ℤ := 25
def ERESTARTSYS : ℤ := 512

/-! ## Windows of a block -/

/-- `entries[i]` with a C index. -/
def index {β : Type*} (entries : List β) (i : ℤ) : Except Fault β :=
  if i < 0 then .error .outOfBounds
  else
    match entries[i.toNat]? with
    | none => .error .outOfBounds
    | some entry => .ok entry

/-- The offset of `n` bytes from `off` on, which must lie in the block. -/
def window (bytes : List UInt8) (off : ℤ) (n : ℕ) : Except Fault ℕ :=
  if 0 ≤ off ∧ off + n ≤ bytes.length then .ok off.toNat else .error .outOfBounds

theorem index_eq {β : Type*} {entries : List β} {i : ℤ} {n : ℕ} {entry : β} (hi : i = n)
    (hentry : entries[n]? = some entry) : index entries i = .ok entry := by
  subst hi
  simp [index, hentry]

theorem window_eq {bytes : List UInt8} {off : ℤ} {n m : ℕ} (hoff : off = m)
    (hfits : m + n ≤ bytes.length) : window bytes off n = .ok m := by
  subst hoff
  rw [window, if_pos ⟨by omega, by omega⟩, Int.toNat_natCast]

/-- `bytes` with `new` written over it from offset `off` on. -/
def patch (bytes : List UInt8) (off : ℕ) (new : List UInt8) : List UInt8 :=
  bytes.take off ++ new ++ bytes.drop (off + new.length)

theorem length_patch {bytes new : List UInt8} {off : ℕ} (h : off + new.length ≤ bytes.length) :
    (patch bytes off new).length = bytes.length := by
  simp only [patch, List.length_append, List.length_take, List.length_drop]
  omega

theorem getElem?_patch {bytes new : List UInt8} {off : ℕ} (h : off + new.length ≤ bytes.length)
    (i : ℕ) : (patch bytes off new)[i]? =
      if off ≤ i ∧ i < off + new.length then new[i - off]? else bytes[i]? := by
  have htake : (bytes.take off).length = off := by
    rw [List.length_take]
    omega
  unfold patch
  split_ifs with hi
  · rw [List.append_assoc, List.getElem?_append_right (by omega), htake,
      List.getElem?_append_left (by omega)]
  · rcases Nat.lt_or_ge i off with hlt | hge
    · rw [List.append_assoc, List.getElem?_append_left (by omega), List.getElem?_take_of_lt hlt]
    · rw [List.getElem?_append_right (by rw [List.length_append]; omega), List.length_append,
        htake, List.getElem?_drop]
      congr 1
      omega

/-! ## User copies -/

/-- `copy_from_user(dst + off, src, n)`, `src` being the `n` bytes the user
supplies: the destination afterwards and the number of bytes not copied.  On a
fault the bytes before the bad page are stored and the rest of the destination is
cleared. -/
def copyFromUser (dst : List UInt8) (off : ℕ) (src : List UInt8) (fault : Option ℕ) :
    List UInt8 × ℕ :=
  match fault with
  | none => (patch dst off src, 0)
  | some j =>
      if j < src.length then
        (patch dst off (src.take j ++ List.replicate (src.length - j) 0), src.length - j)
      else (patch dst off src, 0)

/-- `copy_to_user(buf, src, n)`: the bytes that reach the user and the number of
bytes not copied. -/
def copyToUser (src : List UInt8) (fault : Option ℕ) : List UInt8 × ℕ :=
  match fault with
  | none => (src, 0)
  | some j => (src.take j, src.length - j)

@[simp] theorem copyFromUser_none (dst : List UInt8) (off : ℕ) (src : List UInt8) :
    copyFromUser dst off src none = (patch dst off src, 0) := rfl

@[simp] theorem copyToUser_none (src : List UInt8) : copyToUser src none = (src, 0) := rfl

theorem length_copyFromUser {dst src : List UInt8} {off : ℕ} (fault : Option ℕ)
    (h : off + src.length ≤ dst.length) :
    (copyFromUser dst off src fault).1.length = dst.length := by
  unfold copyFromUser
  split
  · exact length_patch h
  · split_ifs with hj
    · apply length_patch
      simp only [List.length_append, List.length_take, List.length_replicate]
      omega
    · exact length_patch h

/-- Copies of equally many bytes stop at the same byte, and what reaches the user differs
only where the bytes do. -/
theorem copyToUser_congr {src src' : List UInt8} (hlength : src'.length = src.length)
    (fault : Option ℕ) :
    (copyToUser src' fault).2 = (copyToUser src fault).2 ∧
      (copyToUser src' fault).1.length = (copyToUser src fault).1.length ∧
      ∀ k : ℕ, src'[k]? = src[k]? →
        (copyToUser src' fault).1[k]? = (copyToUser src fault).1[k]? := by
  cases fault with
  | none => exact ⟨rfl, hlength, fun k hk => hk⟩
  | some j =>
      refine ⟨by simp only [copyToUser, hlength], ?_, ?_⟩
      · simp only [copyToUser, List.length_take, hlength]
      · intro k hk
        simp only [copyToUser, List.getElem?_take, hk]

/-- Outside the window of the copy nothing changes. -/
theorem getElem?_copyFromUser_of_outside {dst src : List UInt8} {off i : ℕ} (fault : Option ℕ)
    (h : off + src.length ≤ dst.length) (hi : i < off ∨ off + src.length ≤ i) :
    (copyFromUser dst off src fault).1[i]? = dst[i]? := by
  unfold copyFromUser
  split
  · rw [getElem?_patch h, if_neg (by omega)]
  · split_ifs with hj
    · have hlen : (src.take ‹ℕ› ++ List.replicate (src.length - ‹ℕ›) (0 : UInt8)).length =
          src.length := by
        simp only [List.length_append, List.length_take, List.length_replicate]
        omega
      rw [getElem?_patch (by omega), if_neg (by omega)]
    · rw [getElem?_patch h, if_neg (by omega)]

end KernelTraining.Machine
