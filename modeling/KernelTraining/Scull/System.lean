import KernelTraining.Machine.Run
import KernelTraining.Scull.Device
import KernelTraining.Scull.Ioctl

/-!
# The module as its callers see it

The state of the loaded module (its parameters, its devices, the heap) together
with the open files, and the file operations as calls on it, one at a time.  A
file remembers the device `scull_open` found for it and its position.

## How a call ends

* With a **reply**: the value it returns and the bytes that have reached the user.  An error
  number is a reply like any other, and so are the refusals of the VFS, which come before the
  driver sees the call: of a minor number without a device, of a number that is no open file,
  and of a transfer whose position and count do not pass `rwVerifyArea`.
* With a **fault**, when the driver touches memory it does not own or divides by zero.  There
  is no state after a fault, so a run that comes to its end has met none.

Calls one at a time are what the semaphore makes of transfers as long as nobody else changes
the parameters; `Scull.Interleaving` takes them apart into their steps.  A device is trimmed
in one step in either: only an opening does it, and it holds the semaphore all the time.
`State.transfer` is what `read` and `write` share, so facts about positions and about the other
files are proved of it once.
-/

namespace KernelTraining.Scull

open Machine

structure File where
  dev : ℕ
  fPos : ℤ
  deriving DecidableEq

structure State where
  globals : Globals
  devices : List ScullDev
  heap : Heap Block
  files : List File

/-- `scull_init_module`, for parameters given at load time. -/
def scullInit (scullQuantum scullQset : ℤ) (scullNrDevs : ℕ) : State where
  globals := ⟨scullQuantum, scullQset⟩
  devices := List.replicate scullNrDevs
    { data := none, quantum := scullQuantum, qset := scullQset, size := 0 }
  heap := .empty
  files := []

/-- The loop of `scull_cleanup_module`: every device is trimmed, one after the other,
before the devices themselves are given up. -/
def scullCleanupModule (g : Globals) (h : Heap Block) : List ScullDev → Except Fault (Heap Block)
  | [] => .ok h
  | dev :: devices => do
      let (_, h) ← scullTrim g.quantum g.qset h dev
      scullCleanupModule g h devices

/-- A call of one of the file operations.  `fd` is the number of the open file. -/
inductive Call where
  | open (minor flags : ℕ) (env : Env)
  | read (fd count : ℕ) (env : Env)
  | write (fd : ℕ) (buf : List UInt8) (env : Env)
  | llseek (fd : ℕ) (off : ℤ) (whence : ℕ)
  | ioctl (cmd arg : ℕ) (env : IoctlEnv)

/-- The return value and the bytes that reached the user. -/
structure Reply where
  retval : ℤ
  copied : List UInt8 := []
  deriving DecidableEq

def ENXIO : ℤ := 6

/-- `scull_open`, and the new file when it succeeds.  A minor number without a
device is refused before the driver sees the call. -/
def scullOpen (s : State) (minor flags : ℕ) (env : Env) : Except Fault (Reply × State) :=
  match s.devices[minor]? with
  | none => .ok (⟨- ENXIO, []⟩, s)
  | some dev =>
      if writeOnly flags then
        if env.interrupted then .ok (⟨-ERESTARTSYS, []⟩, s)
        else do
          let (dev, h) ← scullTrim s.globals.quantum s.globals.qset s.heap dev
          pure (⟨0, []⟩, { s with
            devices := s.devices.set minor dev
            heap := h
            files := s.files ++ [⟨minor, 0⟩] })
      else .ok (⟨0, []⟩, { s with files := s.files ++ [⟨minor, 0⟩] })

/-- `scull_llseek`: the return value and the position afterwards. -/
def scullLlseek (dev : ScullDev) (fPos off : ℤ) (whence : ℕ) : ℤ × ℤ :=
  let newpos : Option ℤ :=
    match whence with
    | 0 => some (wrap64 off)
    | 1 => some (wrap64 (fPos + off))
    | 2 => some (wrap64 (dev.size + off))
    | _ => none
  match newpos with
  | none => (-EINVAL, fPos)
  | some newpos => if newpos < 0 then (-EINVAL, fPos) else (newpos, newpos)

/-- A file position is never negative. -/
theorem scullLlseek_nonneg {dev : ScullDev} {fPos : ℤ} (h : 0 ≤ fPos) (off : ℤ) (whence : ℕ) :
    0 ≤ (scullLlseek dev fPos off whence).2 := by
  have key : ∀ newpos : ℤ, 0 ≤ (if newpos < 0 then (-EINVAL, fPos) else (newpos, newpos)).2 := by
    intro newpos
    split_ifs <;> omega
  rcases whence with _ | _ | _ | whence
  · exact key (wrap64 off)
  · exact key (wrap64 (fPos + off))
  · exact key (wrap64 (dev.size + off))
  · exact h

/-- The check the VFS makes before a transfer: it neither starts at a negative
position nor runs past the end of `loff_t`. -/
def rwVerifyArea (fPos : ℤ) (count : ℕ) : Bool :=
  0 ≤ fPos ∧ fPos + count < 9223372036854775808

theorem rwVerifyArea_iff {fPos : ℤ} {count : ℕ} :
    rwVerifyArea fPos count = true ↔
      ∃ p : ℕ, fPos = p ∧ p + count < 9223372036854775808 := by
  simp only [rwVerifyArea, decide_eq_true_eq]
  constructor
  · rintro ⟨hnonneg, hend⟩
    obtain ⟨p, rfl⟩ := Int.eq_ofNat_of_zero_le hnonneg
    exact ⟨p, rfl, by omega⟩
  · rintro ⟨p, rfl, hend⟩
    exact ⟨Int.natCast_nonneg p, by omega⟩

/-- An open file and its device. -/
def State.lookup (s : State) (fd : ℕ) : Option (File × ScullDev) := do
  let file ← s.files[fd]?
  let dev ← s.devices[file.dev]?
  pure (file, dev)

/-- The state after a transfer through `fd`. -/
def State.settle (s : State) (fd : ℕ) (file : File) (out : Out) : State :=
  { s with
    devices := s.devices.set file.dev out.dev
    heap := out.heap
    files := s.files.set fd { file with fPos := out.fPos } }

/-- What a transfer through `fd` reports and leaves. -/
def State.finish (s : State) (fd : ℕ) (file : File) (out : Out) : Reply × State :=
  (⟨out.retval, out.copied⟩, s.settle fd file out)

/-- A transfer of `count` bytes through `fd`.  The VFS refuses it on a number that
is no open file, and when it does not pass the check. -/
def State.transfer (s : State) (fd count : ℕ) (op : ScullDev → ℤ → Except Fault Out) :
    Except Fault (Reply × State) :=
  match s.lookup fd with
  | none => .ok (⟨-EBADF, []⟩, s)
  | some (file, dev) =>
      if rwVerifyArea file.fPos count then (op dev file.fPos).map (s.finish fd file)
      else .ok (⟨-EINVAL, []⟩, s)

/-- One call. -/
def State.call (s : State) : Call → Except Fault (Reply × State)
  | .open minor flags env => scullOpen s minor flags env
  | .read fd count env =>
      s.transfer fd count fun dev fPos => scullRead s.heap dev count fPos env
  | .write fd buf env =>
      s.transfer fd buf.length fun dev fPos => scullWrite s.heap dev buf fPos env
  | .llseek fd off whence =>
      match s.lookup fd with
      | none => .ok (⟨-EBADF, []⟩, s)
      | some (file, dev) =>
          let (retval, fPos) := scullLlseek dev file.fPos off whence
          .ok (⟨retval, []⟩, { s with files := s.files.set fd { file with fPos := fPos } })
  | .ioctl cmd arg env =>
      let out := scullIoctl s.globals cmd arg env
      .ok (⟨out.retval, []⟩, { s with globals := out.globals })

end KernelTraining.Scull
