import KernelTraining.Abstract.RingBuffer
import KernelTraining.Machine.UserCopy
import KernelTraining.Machine.Words

/-!
# The pipe device

`pipe.c` of the scull distribution (`scull.tar`): a device is a circular buffer between
`buffer` and `end`, with a pointer `rp` to read at and a pointer `wp` to write at.  The
pointers are offsets from the start of the buffer here.

Each operation has a function for what it does while it holds the semaphore of the device.
Three of them come in two parts, since something can happen between these:

* a transfer copies (`scullPRead`, `scullPWrite`) and then sets its pointer
  (`ScullPipe.advanceRp`, `ScullPipe.advanceWp`); other calls look at the pointers without
  the semaphore.  A transfer that finds nothing to move says so, and has to wait;
* an opening looks for a buffer and allocates one if there is none (`scullPOpen`), and then
  takes the size of the buffer, the pointers and the counters in hand
  (`ScullPipe.reopen`).  It reads `scull_p_buffer` in both parts, and `kmalloc` may sleep
  between them while somebody sets another size.

`nreaders`, `nwriters` and their sum are C `int`s, and go round.

The second half is what the callers need to know of these functions, and they do not unfold
them.  `ScullPipe.Points` says that the sizes and pointers are those of a circular buffer,
and `ScullPipe.Holds` that its bytes are there as well.  Of a device that holds a buffer,
`scullPRead_spec` and `scullPWrite_spec` say what a transfer returns and that it does not
fault, and `ScullPipe.Holds.advanceRp` and `ScullPipe.Holds.advanceWp` that the pointers
afterwards are those of the buffer.  An opening needs no buffer to begin with:
`scullPOpen_spec` says that it finds one, or allocates one, or changes nothing.
-/

namespace KernelTraining.Pipe

open Machine Abstract

/-- The two bits of `f_mode`, `FMODE_READ` and `FMODE_WRITE`. -/
inductive Dir where
  | read
  | write
  deriving DecidableEq

structure Mode where
  read : Bool
  write : Bool
  deriving DecidableEq

def Mode.has (mode : Mode) : Dir → Bool
  | .read => mode.read
  | .write => mode.write

/-- `struct scull_pipe`, except for its semaphore and its queues. -/
structure ScullPipe where
  buffer : Option (List UInt8)
  bufEnd : ℤ
  buffersize : ℤ
  rp : ℕ
  wp : ℕ
  nreaders : ℤ
  nwriters : ℤ
  deriving DecidableEq

/-- The number of openings for a direction. -/
def ScullPipe.openings (dev : ScullPipe) : Dir → ℤ
  | .read => dev.nreaders
  | .write => dev.nwriters

/-- A device that `scull_p_init` has cleared. -/
def ScullPipe.cleared : ScullPipe := ⟨none, 0, 0, 0, 0, 0, 0⟩

/-- What a call returns, and the bytes that have reached the user. -/
structure Answer where
  retval : ℤ
  user : List UInt8
  deriving DecidableEq

/-- What a call meets with: a pending signal, `O_NONBLOCK`, the user byte at which a copy
stops, and the memory that the allocator has, with what is in it. -/
structure Env where
  signal : Bool := false
  nonblock : Bool := false
  fault : Option ℕ := none
  memory : Option (ℕ → UInt8) := some fun _ => 0

/-- The bytes `rp` and `wp` point into. -/
def ScullPipe.bytes (dev : ScullPipe) : Except Fault (List UInt8) :=
  match dev.buffer with
  | none => .error .badAccess
  | some bytes => .ok bytes

/-- How much space is free? -/
def spacefree (dev : ScullPipe) : Except Fault ℤ :=
  if dev.rp = dev.wp then .ok (wrap32 (dev.buffersize - 1))
  else if dev.buffersize = 0 then .error .divideByZero
  else .ok (wrap32 ((dev.rp + dev.buffersize - dev.wp).tmod dev.buffersize - 1))

/-- A pointer `count` bytes further on; at `end` it goes back to `buffer`. -/
def ScullPipe.wrapped (dev : ScullPipe) (p count : ℕ) : ℕ :=
  if ((p + count : ℕ) : ℤ) = dev.bufEnd then 0 else p + count

/-- `scull_p_read` with the semaphore held, up to and with the copy; nothing if there is
nothing to read. -/
def scullPRead (dev : ScullPipe) (count : ℕ) (fault : Option ℕ) :
    Except Fault (Option Answer) :=
  if dev.rp = dev.wp then .ok none
  else do
    let count :=
      if dev.rp < dev.wp then min count (toULong (dev.wp - dev.rp))
      else min count (toULong (dev.bufEnd - dev.rp))
    let bytes ← dev.bytes
    let off ← window bytes dev.rp count
    let (user, left) := copyToUser ((bytes.drop off).take count) fault
    if left ≠ 0 then pure (some ⟨-EFAULT, user⟩) else pure (some ⟨count, user⟩)

/-- `scull_p_write` with the semaphore held, up to and with the copy; nothing if there is no
space. -/
def scullPWrite (dev : ScullPipe) (buf : List UInt8) (fault : Option ℕ) :
    Except Fault (Option (Answer × ScullPipe)) := do
  let free ← spacefree dev
  if free = 0 then pure none
  else
    let count := min buf.length (toULong free)
    let count :=
      if dev.rp ≤ dev.wp then min count (toULong (dev.bufEnd - dev.wp))
      else min count (toULong (dev.rp - dev.wp - 1))
    let bytes ← dev.bytes
    let off ← window bytes dev.wp count
    let (bytes, left) := copyFromUser bytes off (buf.take count) fault
    let dev := { dev with buffer := some bytes }
    if left ≠ 0 then pure (some (⟨-EFAULT, []⟩, dev)) else pure (some (⟨count, []⟩, dev))

/-- `scull_p_read` after its copy. -/
def ScullPipe.advanceRp (dev : ScullPipe) (count : ℕ) : ScullPipe :=
  { dev with rp := dev.wrapped dev.rp count }

/-- `scull_p_write` after its copy. -/
def ScullPipe.advanceWp (dev : ScullPipe) (count : ℕ) : ScullPipe :=
  { dev with wp := dev.wrapped dev.wp count }

/-- `scull_p_open` with the semaphore held, up to and with the allocation of a buffer if there
is none. -/
def scullPOpen (scullPBuffer : ℤ) (dev : ScullPipe) (memory : Option (ℕ → UInt8)) :
    Answer × ScullPipe :=
  match dev.buffer with
  | some _ => (⟨0, []⟩, dev)
  | none =>
      -- a negative size is a huge `size_t`, for which there is no memory
      if scullPBuffer < 0 then (⟨-ENOMEM, []⟩, dev)
      else
        match memory with
        | none => (⟨-ENOMEM, []⟩, dev)
        | some junk =>
            (⟨0, []⟩, { dev with buffer := some ((List.range scullPBuffer.toNat).map junk) })

/-- `scull_p_open` after its allocation.  It reads `scull_p_buffer` again. -/
def ScullPipe.reopen (scullPBuffer : ℤ) (dev : ScullPipe) (mode : Mode) : ScullPipe :=
  { dev with
    bufEnd := scullPBuffer
    buffersize := scullPBuffer
    rp := 0
    wp := 0
    nreaders := if mode.read then wrap32 (dev.nreaders + 1) else dev.nreaders
    nwriters := if mode.write then wrap32 (dev.nwriters + 1) else dev.nwriters }

/-- `scull_p_release` with the semaphore held. -/
def scullPRelease (dev : ScullPipe) (mode : Mode) : Answer × ScullPipe :=
  let nreaders := if mode.read then wrap32 (dev.nreaders - 1) else dev.nreaders
  let nwriters := if mode.write then wrap32 (dev.nwriters - 1) else dev.nwriters
  (⟨0, []⟩,
    { dev with
      nreaders := nreaders
      nwriters := nwriters
      buffer := if wrap32 (nreaders + nwriters) = 0 then none else dev.buffer })

def POLLIN : ℤ := 1
def POLLOUT : ℤ := 4
def POLLRDNORM : ℤ := 64
def POLLWRNORM : ℤ := 256

/-- `scull_p_poll` with the semaphore held; the bits of the mask are distinct. -/
def scullPPoll (dev : ScullPipe) : Except Fault (Answer × ScullPipe) := do
  let free ← spacefree dev
  let readable := if dev.rp ≠ dev.wp then POLLIN + POLLRDNORM else 0
  let writable := if free ≠ 0 then POLLOUT + POLLWRNORM else 0
  pure (⟨readable + writable, []⟩, dev)

/-- An opening has found a buffer, has allocated one, or fails and changes nothing. -/
inductive OpenSpec (scullPBuffer : ℤ) (dev : ScullPipe) : Answer × ScullPipe → Prop
  | found (bytes : List UInt8) (hbuffer : dev.buffer = some bytes) :
      OpenSpec scullPBuffer dev (⟨0, []⟩, dev)
  | allocated (bytes : List UInt8) (hnone : dev.buffer = none)
      (hlength : (bytes.length : ℤ) = scullPBuffer) :
      OpenSpec scullPBuffer dev (⟨0, []⟩, { dev with buffer := some bytes })
  | failed (hnone : dev.buffer = none) : OpenSpec scullPBuffer dev (⟨-ENOMEM, []⟩, dev)

theorem scullPOpen_spec (scullPBuffer : ℤ) (dev : ScullPipe) (memory : Option (ℕ → UInt8)) :
    OpenSpec scullPBuffer dev (scullPOpen scullPBuffer dev memory) := by
  unfold scullPOpen
  split
  · rename_i bytes hbuffer
    exact .found bytes hbuffer
  · rename_i hnone
    split_ifs with hneg
    · exact .failed hnone
    · cases memory with
      | none => exact .failed hnone
      | some junk =>
          refine .allocated _ hnone ?_
          rw [List.length_map, List.length_range]
          omega

/-! ## The device as a circular buffer -/

/-- The sizes and pointers of the device are those of the circular buffer `r`. -/
structure ScullPipe.Points (dev : ScullPipe) (r : RingBuffer UInt8) : Prop where
  buffersize : dev.buffersize = r.size
  bufEnd : dev.bufEnd = r.size
  rp : dev.rp = r.rp
  wp : dev.wp = r.wp
  size_le : (r.size : ℤ) ≤ intMax

/-- The device is the circular buffer `r`, as far as its buffer is allocated at all. -/
structure ScullPipe.Holds (dev : ScullPipe) (r : RingBuffer UInt8) : Prop extends
    dev.Points r where
  cells : ∀ bytes ∈ dev.buffer, bytes = r.cells

section Points

variable {dev : ScullPipe} {r : RingBuffer UInt8}

theorem ScullPipe.Points.spacefree_eq (points : dev.Points r) :
    spacefree dev = .ok ((r.size : ℤ) - 1 - r.contents.length) := by
  have hsize := points.size_le
  have hrp := r.rp_lt
  have hwp := r.wp_lt
  have hlength := r.length_contents
  have hle := r.length_contents_le
  unfold intMax at hsize
  rw [spacefree, points.rp, points.wp, points.buffersize]
  by_cases hempty : r.rp = r.wp
  · rw [if_pos hempty, wrap32_eq (by omega) (by unfold intMax; omega)]
    rw [if_pos hempty.le] at hlength
    congr 1
    omega
  · rw [if_neg hempty, if_neg (by omega)]
    have hmod : ((r.rp : ℤ) + r.size - r.wp).tmod r.size = r.size - r.contents.length := by
      rw [Int.tmod_eq_emod_of_nonneg (by omega)]
      split_ifs at hlength with horder
      · rw [Int.emod_eq_of_lt (by omega) (by omega)]
        omega
      · rw [show (r.rp : ℤ) + r.size - r.wp = r.size - r.contents.length + r.size by omega,
          Int.add_emod_right, Int.emod_eq_of_lt (by omega) (by omega)]
    rw [hmod, wrap32_eq (by omega) (by unfold intMax; omega)]
    congr 1
    omega

/-- There is nothing to read if the buffer is empty. -/
theorem ScullPipe.Points.empty_iff (points : dev.Points r) :
    dev.rp = dev.wp ↔ r.contents = [] := by
  rw [points.rp, points.wp, r.contents_eq_nil_iff]

theorem ScullPipe.Points.wrapped_eq (points : dev.Points r) (p count : ℕ) :
    dev.wrapped p count = r.next p count := by
  unfold ScullPipe.wrapped RingBuffer.next
  rw [points.bufEnd]
  simp only [Int.natCast_inj]

theorem ScullPipe.Holds.bytes_eq (holds : dev.Holds r) (halloc : dev.buffer ≠ none) :
    dev.bytes = .ok r.cells := by
  obtain ⟨bytes, hbytes⟩ := Option.ne_none_iff_exists'.mp halloc
  rw [ScullPipe.bytes, hbytes, holds.cells bytes hbytes]

end Points

section Transfers

variable {dev : ScullPipe} {r : RingBuffer UInt8}

theorem ScullPipe.Holds.advanceRp (holds : dev.Holds r) {n : ℕ} (h : n ≤ r.run) :
    (dev.advanceRp n).Holds (r.read n h) where
  buffersize := holds.buffersize
  bufEnd := holds.bufEnd
  rp := by
    show dev.wrapped dev.rp n = r.next r.rp n
    rw [holds.wrapped_eq, holds.rp]
  wp := holds.wp
  cells := holds.cells
  size_le := holds.size_le

theorem ScullPipe.Holds.advanceWp {xs : List UInt8} {h : xs.length ≤ r.room}
    (holds : dev.Holds (r.scribble xs h)) : (dev.advanceWp xs.length).Holds (r.write xs h) where
  buffersize := holds.buffersize
  bufEnd := holds.bufEnd
  rp := holds.rp
  wp := by
    show dev.wrapped dev.wp xs.length = r.next r.wp xs.length
    rw [holds.wrapped_eq, holds.wp]
    rfl
  cells := holds.cells
  size_le := holds.size_le

/-- A read from a buffer that holds something copies as many bytes as there are in one go,
unless the copy fails. -/
theorem scullPRead_spec (holds : dev.Holds r) (halloc : dev.buffer ≠ none)
    (hne : dev.rp ≠ dev.wp) (count : ℕ) (fault : Option ℕ) :
    scullPRead dev count fault =
        .ok (some ⟨(min count r.run : ℕ), r.contents.take (min count r.run)⟩) ∨
      ∃ user, scullPRead dev count fault = .ok (some ⟨-EFAULT, user⟩) := by
  have hsize := holds.size_le
  have hrp := r.rp_lt
  have hwp := r.wp_lt
  unfold intMax at hsize
  have hcount : (if dev.rp < dev.wp then min count (toULong (dev.wp - dev.rp))
      else min count (toULong (dev.bufEnd - dev.rp))) = min count r.run := by
    have hne' : r.rp ≠ r.wp := by rwa [holds.rp, holds.wp] at hne
    rw [holds.rp, holds.wp, holds.bufEnd, RingBuffer.run]
    split_ifs
    · rw [toULong_eq (by omega) (by omega)]
      omega
    · omega
    · omega
    · rw [toULong_eq (by omega) (by omega)]
      omega
  have hrun := r.rp_add_le (Nat.min_le_right count r.run)
  have hfits := r.fits
  have hwindow : window r.cells dev.rp (min count r.run) = .ok r.rp := by
    apply window_eq (by rw [holds.rp])
    have := r.run_le
    have := r.length_contents_le
    omega
  have htake := r.take_contents (Nat.min_le_right count r.run)
  simp only [scullPRead, if_neg hne, hcount, holds.bytes_eq halloc, ok_bind, hwindow, htake]
  by_cases hleft : (copyToUser (r.contents.take (min count r.run)) fault).2 = 0
  · left
    have huser : (copyToUser (r.contents.take (min count r.run)) fault).1 =
        r.contents.take (min count r.run) := by
      cases fault with
      | none => rfl
      | some j =>
          have hj : (r.contents.take (min count r.run)).length - j = 0 := hleft
          exact List.take_of_length_le (by omega)
    rw [if_neg (not_not.mpr hleft), huser]
    rfl
  · right
    rw [if_pos hleft]
    exact ⟨_, rfl⟩

/-- A write to a buffer that is not full copies as many bytes as there is room for in one
go; if the copy fails, something else is in the free cells. -/
theorem scullPWrite_spec (holds : dev.Holds r) (halloc : dev.buffer ≠ none)
    (hfree : spacefree dev ≠ .ok 0) (buf : List UInt8) (fault : Option ℕ) :
    ∃ (xs : List UInt8) (h : xs.length ≤ r.room) (answer : Answer) (dev' : ScullPipe),
      scullPWrite dev buf fault = .ok (some (answer, dev')) ∧ dev'.Holds (r.scribble xs h) ∧
      (xs = buf.take (min buf.length r.room) ∧ answer = ⟨(min buf.length r.room : ℕ), []⟩ ∨
        answer = ⟨-EFAULT, []⟩) ∧
      dev' = { dev with buffer := dev'.buffer } ∧ dev'.buffer ≠ none := by
  have hsize := holds.size_le
  have hrp := r.rp_lt
  have hwp := r.wp_lt
  have hfits := r.fits
  have hlength := r.length_contents
  have hlengthLe := r.length_contents_le
  unfold intMax at hsize
  have hspace := holds.spacefree_eq
  have hfree' : (r.size : ℤ) - 1 - r.contents.length ≠ 0 := by
    intro h
    rw [hspace, h] at hfree
    exact hfree rfl
  -- the two minima of the code are the room of the buffer
  have hcount : (if dev.rp ≤ dev.wp then
        min (min buf.length (toULong ((r.size : ℤ) - 1 - r.contents.length)))
          (toULong (dev.bufEnd - dev.wp))
      else min (min buf.length (toULong ((r.size : ℤ) - 1 - r.contents.length)))
          (toULong (dev.rp - dev.wp - 1))) = min buf.length r.room := by
    rw [holds.rp, holds.wp, holds.bufEnd, RingBuffer.room, RingBuffer.free]
    by_cases hzero : r.size = 0
    · have hp : r.rp ≤ r.wp := by omega
      rw [if_pos hp, if_pos hp, toULong_eq (x := (r.size : ℤ) - r.wp) (by omega) (by omega)]
      omega
    · rw [toULong_eq (x := (r.size : ℤ) - 1 - r.contents.length) (by omega) (by omega)]
      split_ifs at hlength ⊢
      · rw [toULong_eq (by omega) (by omega)]
        omega
      · rw [toULong_eq (by omega) (by omega)]
        omega
  have hle : min buf.length r.room ≤ r.room := Nat.min_le_right _ _
  have htake : (buf.take (min buf.length r.room)).length = min buf.length r.room := by
    rw [List.length_take]
    exact Nat.min_eq_left (Nat.min_le_left _ _)
  have hwindow : window r.cells dev.wp (min buf.length r.room) = .ok r.wp :=
    window_eq (by rw [holds.wp]) (r.wp_add_le_length hle)
  simp only [scullPWrite, hspace, ok_bind, if_neg hfree', hcount, holds.bytes_eq halloc, hwindow]
  -- what is in the cells afterwards
  obtain ⟨xs, hxs, hcells, hwhole⟩ : ∃ xs : List UInt8, xs.length ≤ r.room ∧
      (copyFromUser r.cells r.wp (buf.take (min buf.length r.room)) fault).1 =
        overwriteAt r.cells r.wp xs ∧
      ((copyFromUser r.cells r.wp (buf.take (min buf.length r.room)) fault).2 = 0 →
        xs = buf.take (min buf.length r.room)) := by
    unfold copyFromUser
    cases fault with
    | none => exact ⟨_, htake.le.trans hle, rfl, fun _ => rfl⟩
    | some j =>
        dsimp only
        split_ifs with hj
        · refine ⟨_, ?_, rfl, fun h => absurd h (by dsimp only; omega)⟩
          rw [List.length_append, List.length_take, List.length_replicate]
          omega
        · exact ⟨_, htake.le.trans hle, rfl, fun _ => rfl⟩
  have hholds : ScullPipe.Holds { dev with buffer := some (overwriteAt r.cells r.wp xs) }
      (r.scribble xs hxs) :=
    { buffersize := holds.buffersize
      bufEnd := holds.bufEnd
      rp := holds.rp
      wp := holds.wp
      cells := by
        rintro bytes ⟨⟩
        rfl
      size_le := holds.size_le }
  rw [hcells]
  by_cases hleft : (copyFromUser r.cells r.wp (buf.take (min buf.length r.room)) fault).2 = 0
  · rw [if_neg (not_not.mpr hleft)]
    exact ⟨xs, hxs, _, _, rfl, hholds, .inl ⟨hwhole hleft, rfl⟩, rfl, Option.some_ne_none _⟩
  · rw [if_pos hleft]
    exact ⟨xs, hxs, _, _, rfl, hholds, .inr rfl, rfl, Option.some_ne_none _⟩

end Transfers

end KernelTraining.Pipe
