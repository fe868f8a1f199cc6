import KernelTraining.Machine.Words
import KernelTraining.Machine.UserCopy

/-!
# The scull device

Translation of the data management of `Scull/main.c` onto the heap of
`Machine/Heap.lean`: `scull_trim`, `scull_follow` and the sections of
`scull_read` and `scull_write` that run with the device semaphore held.  The
locals `quantum` and `qset`, which both functions load before they take the
semaphore, are parameters of those sections.

`memset` right after `kmalloc` is part of the contents the block is allocated
with; a quantum is not cleared, so it starts with whatever the allocator left in
it (`junk`).

## Loops and numbers

* **Both loops go over the list of items**, and neither is structural.  `scull_trim` frees the
  item it is at, so the number of blocks bounds its rounds (`trimLoop`), and a list that goes
  round in a circle runs into freed memory and not out of rounds.  `scull_follow` counts its
  `int` down to zero (`followLoop`), which for a negative number takes almost `2^32` rounds.
* **Positions are `long` and their parts `int`**, so `locate` wraps what it computes, and the
  locals of the two sections stay integers.  That they are the row and the column of the byte
  is a theorem, under the conditions of `Scull.Locate`.
* **What a transfer needs is allocated one after the other** (`ensureArray`, `ensureQuantum`),
  and each step that fails leaves what the ones before it have added.
-/

namespace KernelTraining.Scull

open Machine

/-! ## Data -/

/-- `struct scull_qset`. -/
structure ScullQset where
  data : Option Addr
  next : Option Addr
  deriving DecidableEq

/-- The three kinds of block the driver allocates: a list item, the pointer array
of an item, and a quantum. -/
inductive Block where
  | qset (node : ScullQset)
  | ptrs (entries : List (Option Addr))
  | quantum (bytes : List UInt8)
  deriving DecidableEq

/-- `struct scull_dev`, without the semaphore and the character device. -/
structure ScullDev where
  data : Option Addr
  quantum : ℤ
  qset : ℤ
  size : ℕ
  deriving DecidableEq

/-- What the kernel answers during one call: whether `down_interruptible` is
interrupted, the answers of `kmalloc`, the bytes a fresh quantum holds, and the
first byte a user copy cannot reach. -/
structure Env where
  interrupted : Bool := false
  answers : List (Option Addr) := []
  junk : ℕ → UInt8 := fun _ => 0
  fault : Option ℕ := none

def loadQset (h : Heap Block) (p : Option Addr) : Except Fault ScullQset := do
  match ← load h p with
  | .qset node => pure node
  | _ => .error .badAccess

def loadPtrs (h : Heap Block) (p : Option Addr) : Except Fault (List (Option Addr)) := do
  match ← load h p with
  | .ptrs entries => pure entries
  | _ => .error .badAccess

def loadQuantum (h : Heap Block) (p : Option Addr) : Except Fault (List UInt8) := do
  match ← load h p with
  | .quantum bytes => pure bytes
  | _ => .error .badAccess

theorem loadQset_eq {h : Heap Block} {a : Addr} {node : ScullQset}
    (ha : h.get a = some (.qset node)) : loadQset h (some a) = .ok node := by
  simp only [loadQset, load_eq ha, ok_bind]
  rfl

theorem loadPtrs_eq {h : Heap Block} {a : Addr} {entries : List (Option Addr)}
    (ha : h.get a = some (.ptrs entries)) : loadPtrs h (some a) = .ok entries := by
  simp only [loadPtrs, load_eq ha, ok_bind]
  rfl

theorem loadQuantum_eq {h : Heap Block} {a : Addr} {bytes : List UInt8}
    (ha : h.get a = some (.quantum bytes)) : loadQuantum h (some a) = .ok bytes := by
  simp only [loadQuantum, load_eq ha, ok_bind]
  rfl

theorem loadPtrs_ok {h : Heap Block} {p : Option Addr} {entries : List (Option Addr)}
    (hload : loadPtrs h p = .ok entries) : ∃ a, p = some a ∧ h.get a = some (.ptrs entries) := by
  obtain ⟨block, hblock, hload⟩ := bind_eq_ok.mp hload
  obtain ⟨a, rfl, hget⟩ := load_ok hblock
  cases block with
  | qset node => cases hload
  | ptrs found => exact ⟨a, rfl, Except.ok.inj hload ▸ hget⟩
  | quantum bytes => cases hload

theorem loadQuantum_ok {h : Heap Block} {p : Option Addr} {bytes : List UInt8}
    (hload : loadQuantum h p = .ok bytes) : ∃ a, p = some a ∧ h.get a = some (.quantum bytes) := by
  obtain ⟨block, hblock, hload⟩ := bind_eq_ok.mp hload
  obtain ⟨a, rfl, hget⟩ := load_ok hblock
  cases block with
  | qset node => cases hload
  | ptrs entries => cases hload
  | quantum found => exact ⟨a, rfl, Except.ok.inj hload ▸ hget⟩

/-- `kmalloc` of a size computed in C: a negative `int` becomes a `size_t` no
allocator can satisfy. -/
def kmallocSize (size : ℤ) (h : Heap Block) (block : Block) (answers : List (Option Addr)) :
    Option Addr × Heap Block × List (Option Addr) :=
  if size < 0 then (none, h, answers.tail) else kmalloc h block answers

@[simp] theorem kmallocSize_natCast (size : ℕ) (h : Heap Block) (block : Block)
    (answers : List (Option Addr)) :
    kmallocSize size h block answers = kmalloc h block answers := by
  rw [kmallocSize, if_neg (by omega)]

/-! ## `scull_trim` -/

/-- `data[0]`, …, `data[qset - 1]`, the entries the inner loop of `scull_trim`
frees. -/
def firstEntries (entries : List (Option Addr)) (qset : ℤ) : Except Fault (List (Option Addr)) :=
  if qset ≤ entries.length then .ok (entries.take qset.toNat) else .error .outOfBounds

/-- One round of the loop over the list items: what the item at `dptr` refers to
is freed, then the item.  Returns its successor. -/
def trimItem (qset : ℤ) (h : Heap Block) (dptr : Addr) :
    Except Fault (Option Addr × Heap Block) := do
  let node ← loadQset h (some dptr)
  let h ←
    match node.data with
    | none => pure h
    | some data => do
        let entries ← loadPtrs h (some data)
        let entries ← firstEntries entries qset
        let h ← kfreeAll h entries
        let h ← kfree h (some data)
        store h dptr (.qset { node with data := none })
  let h ← kfree h (some dptr)
  pure (node.next, h)

/-- The loop over the list items.  Each round frees the item it is at, so the
number of allocated blocks bounds the rounds; past it there is no block left to
look at. -/
def trimLoop (qset : ℤ) : ℕ → Heap Block → Option Addr → Except Fault (Heap Block)
  | _, h, none => .ok h
  | 0, _, some _ => .error .badAccess
  | rounds + 1, h, some dptr => do
      let (next, h) ← trimItem qset h dptr
      trimLoop qset rounds h next

/-- `scull_trim`, given the two parameters it copies into the device. -/
def scullTrim (scullQuantum scullQset : ℤ) (h : Heap Block) (dev : ScullDev) :
    Except Fault (ScullDev × Heap Block) := do
  let h ← trimLoop dev.qset h.card h dev.data
  pure ({ data := none, quantum := scullQuantum, qset := scullQset, size := 0 }, h)

/-! ## `scull_follow` -/

/-- A list item as `memset` leaves it. -/
def emptyQset : Block := .qset ⟨none, none⟩

/-- The loop `while (n--)` from the item at `qs`, for `n` more rounds. -/
def followLoop : ℕ → Heap Block → Addr → List (Option Addr) →
    Except Fault (Option Addr × Heap Block × List (Option Addr))
  | 0, h, qs, answers => .ok (some qs, h, answers)
  | n + 1, h, qs, answers => do
      let node ← loadQset h (some qs)
      match node.next with
      | some next => followLoop n h next answers
      | none =>
          match kmalloc h emptyQset answers with
          | (none, h, answers) => pure (none, h, answers)
          | (some next, h, answers) => do
              let h ← store h qs (.qset { node with next := some next })
              followLoop n h next answers

/-- `scull_follow`.  The loop counts an `int` down to zero, through the negative
values if it starts there, so it makes `n` modulo `2^32` rounds. -/
def scullFollow (h : Heap Block) (dev : ScullDev) (n : ℤ) (answers : List (Option Addr)) :
    Except Fault (Option Addr × ScullDev × Heap Block × List (Option Addr)) := do
  match dev.data with
  | some qs => do
      let (p, h, answers) ← followLoop (toUInt n) h qs answers
      pure (p, dev, h, answers)
  | none =>
      match kmalloc h emptyQset answers with
      | (none, h, answers) => pure (none, dev, h, answers)
      | (some qs, h, answers) => do
          let (p, h, answers) ← followLoop (toUInt n) h qs answers
          pure (p, { dev with data := some qs }, h, answers)

/-! ## Reading and writing -/

/-- `item`, `s_pos` and `q_pos` of a file position. -/
structure Location where
  item : ℤ
  sPos : ℤ
  qPos : ℤ
  deriving DecidableEq

/-- "find listitem, qset index and offset in the quantum": the four assignments
`scull_read` and `scull_write` share.  `item` and `rest` are `int`s. -/
def locate (quantum itemsize fPos : ℤ) : Except Fault Location :=
  if itemsize = 0 then .error .divideByZero
  else
    let item := wrap32 (fPos.tdiv itemsize)
    let rest := wrap32 (fPos.tmod itemsize)
    if quantum = 0 then .error .divideByZero
    else .ok ⟨item, rest.tdiv quantum, rest.tmod quantum⟩

/-- "only up to the end of this quantum": the comparison is made as `size_t`. -/
def clampToQuantum (count : ℕ) (quantum qPos : ℤ) : ℕ :=
  if toULong (quantum - qPos) < count then toULong (quantum - qPos) else count

/-- What a call of `scull_read` or `scull_write` returns and leaves: the return
value, `*f_pos`, the bytes copied to the user, the device and the heap. -/
structure Out where
  retval : ℤ
  fPos : ℤ
  copied : List UInt8
  dev : ScullDev
  heap : Heap Block

/-- `scull_read` from the moment it holds the semaphore. -/
def scullReadLocked (quantum qset : ℤ) (h : Heap Block) (dev : ScullDev) (count : ℕ) (fPos : ℤ)
    (env : Env) : Except Fault Out := do
  let itemsize := wrap32 (quantum * qset)
  if dev.size ≤ toULong fPos then pure ⟨0, fPos, [], dev, h⟩
  else
    let count := if dev.size < toULong (fPos + count) then toULong (dev.size - fPos) else count
    let loc ← locate quantum itemsize fPos
    let (dptr, dev, h, _) ← scullFollow h dev loc.item env.answers
    match dptr with
    | none => pure ⟨0, fPos, [], dev, h⟩
    | some dptr => do
        let node ← loadQset h (some dptr)
        match node.data with
        | none => pure ⟨0, fPos, [], dev, h⟩
        | some data => do
            let entries ← loadPtrs h (some data)
            match ← index entries loc.sPos with
            | none => pure ⟨0, fPos, [], dev, h⟩
            | some q => do
                let count := clampToQuantum count quantum loc.qPos
                let bytes ← loadQuantum h (some q)
                let off ← window bytes loc.qPos count
                let (copied, left) := copyToUser ((bytes.drop off).take count) env.fault
                if left ≠ 0 then pure ⟨-EFAULT, fPos, copied, dev, h⟩
                else pure ⟨count, wrap64 (fPos + count), copied, dev, h⟩

/-- `if (!dptr->data)` of `scull_write`: the pointer array of the item, allocated
if need be. -/
def ensureArray (h : Heap Block) (dptr : Addr) (qset : ℤ) (answers : List (Option Addr)) :
    Except Fault (Option Addr × Heap Block × List (Option Addr)) := do
  let node ← loadQset h (some dptr)
  match node.data with
  | some data => pure (some data, h, answers)
  | none =>
      match kmallocSize qset h (.ptrs (List.replicate qset.toNat none)) answers with
      | (none, h, answers) => pure (none, h, answers)
      | (some data, h, answers) => do
          let h ← store h dptr (.qset { node with data := some data })
          pure (some data, h, answers)

/-- The contents of a quantum the allocator has just returned. -/
def freshQuantum (quantum : ℤ) (junk : ℕ → UInt8) : List UInt8 :=
  (List.range quantum.toNat).map junk

/-- `if (!dptr->data[s_pos])` of `scull_write`: the quantum, allocated if need be. -/
def ensureQuantum (h : Heap Block) (data : Addr) (sPos quantum : ℤ) (junk : ℕ → UInt8)
    (answers : List (Option Addr)) :
    Except Fault (Option Addr × Heap Block × List (Option Addr)) := do
  let entries ← loadPtrs h (some data)
  match ← index entries sPos with
  | some q => pure (some q, h, answers)
  | none =>
      match kmallocSize quantum h (.quantum (freshQuantum quantum junk)) answers with
      | (none, h, answers) => pure (none, h, answers)
      | (some q, h, answers) => do
          let h ← store h data (.ptrs (entries.set sPos.toNat (some q)))
          pure (some q, h, answers)

/-- `scull_write` from the moment it holds the semaphore; `buf` holds the `count`
bytes of the user. -/
def scullWriteLocked (quantum qset : ℤ) (h : Heap Block) (dev : ScullDev) (buf : List UInt8)
    (fPos : ℤ) (env : Env) : Except Fault Out := do
  let itemsize := wrap32 (quantum * qset)
  let loc ← locate quantum itemsize fPos
  let (dptr, dev, h, answers) ← scullFollow h dev loc.item env.answers
  match dptr with
  | none => pure ⟨-ENOMEM, fPos, [], dev, h⟩
  | some dptr => do
      let (data, h, answers) ← ensureArray h dptr qset answers
      match data with
      | none => pure ⟨-ENOMEM, fPos, [], dev, h⟩
      | some data => do
          let (q, h, _) ← ensureQuantum h data loc.sPos quantum env.junk answers
          match q with
          | none => pure ⟨-ENOMEM, fPos, [], dev, h⟩
          | some q => do
              let count := clampToQuantum buf.length quantum loc.qPos
              let bytes ← loadQuantum h (some q)
              let off ← window bytes loc.qPos count
              let (bytes, left) := copyFromUser bytes off (buf.take count) env.fault
              let h ← store h q (.quantum bytes)
              if left ≠ 0 then pure ⟨-EFAULT, fPos, [], dev, h⟩
              else
                let fPos := wrap64 (fPos + count)
                let dev :=
                  if dev.size < toULong fPos then { dev with size := toULong fPos } else dev
                pure ⟨count, fPos, [], dev, h⟩

/-- `scull_read`. -/
def scullRead (h : Heap Block) (dev : ScullDev) (count : ℕ) (fPos : ℤ) (env : Env) :
    Except Fault Out :=
  if env.interrupted then .ok ⟨-ERESTARTSYS, fPos, [], dev, h⟩
  else scullReadLocked dev.quantum dev.qset h dev count fPos env

/-- `scull_write`. -/
def scullWrite (h : Heap Block) (dev : ScullDev) (buf : List UInt8) (fPos : ℤ) (env : Env) :
    Except Fault Out :=
  if env.interrupted then .ok ⟨-ERESTARTSYS, fPos, [], dev, h⟩
  else scullWriteLocked dev.quantum dev.qset h dev buf fPos env

end KernelTraining.Scull
