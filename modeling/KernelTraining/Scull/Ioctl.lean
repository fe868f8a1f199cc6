import KernelTraining.Machine.Words
import KernelTraining.Machine.UserCopy

/-!
# The ioctl commands

`scull_ioctl` reads and writes the two module parameters `scull_quantum` and
`scull_qset`.  Six commands exist for each of them, with the same code for both, so
each command is one definition over the parameter it acts on, and the `switch` of
the source applies it to the one or the other.

One pair of commands differs in the source: `SCULL_IOCXQUANTUM` gives the old value back with
`__put_user`, and `SCULL_IOCXQSET` with `put_user`, which asks `access_ok` once more.  The
command word of either has the direction bits, so the answer has been yes at the beginning of
`scull_ioctl`, and the two do the same (`ioctlExchange`).

Command words are built and taken apart by the `_IOC` macros: two bits of
direction, fourteen of size, eight of type and eight of number.
-/

namespace KernelTraining.Scull

open Machine

/-! ## Command words -/

/-- `_IOC(dir, type, nr, size)`. -/
def ioc (dir type nr size : ℕ) : ℕ := dir * 1073741824 + size * 65536 + type * 256 + nr

/-- `_IOC_DIR`: bit 0 is `_IOC_WRITE`, bit 1 is `_IOC_READ`. -/
def iocDir (cmd : ℕ) : ℕ := cmd / 1073741824 % 4

/-- `_IOC_TYPE`. -/
def iocType (cmd : ℕ) : ℕ := cmd / 256 % 256

/-- `_IOC_NR`. -/
def iocNr (cmd : ℕ) : ℕ := cmd % 256

/-- `SCULL_IOC_MAGIC`, the character `k`. -/
def scullIocMagic : ℕ := 107

def scullIocMaxnr : ℕ := 14

/-- `_IO(SCULL_IOC_MAGIC, nr)`, and `_IOW`, `_IOR`, `_IOWR` of an `int`. -/
def scullIo (nr : ℕ) : ℕ := ioc 0 scullIocMagic nr 0
def scullIow (nr : ℕ) : ℕ := ioc 1 scullIocMagic nr 4
def scullIor (nr : ℕ) : ℕ := ioc 2 scullIocMagic nr 4
def scullIowr (nr : ℕ) : ℕ := ioc 3 scullIocMagic nr 4

/-- The module parameters the commands act on. -/
inductive Param where
  | quantum
  | qset
  deriving DecidableEq, Repr

/-- Set, Tell, Get, Query, eXchange and sHift, and the reset of both parameters. -/
inductive Command where
  | reset
  | set (p : Param)
  | tell (p : Param)
  | get (p : Param)
  | query (p : Param)
  | exchange (p : Param)
  | shift (p : Param)
  deriving DecidableEq, Repr

/-- The command words of `scull.h`. -/
def Command.code : Command → ℕ
  | .reset => scullIo 0
  | .set .quantum => scullIow 1
  | .set .qset => scullIow 2
  | .tell .quantum => scullIo 3
  | .tell .qset => scullIo 4
  | .get .quantum => scullIor 5
  | .get .qset => scullIor 6
  | .query .quantum => scullIo 7
  | .query .qset => scullIo 8
  | .exchange .quantum => scullIowr 9
  | .exchange .qset => scullIowr 10
  | .shift .quantum => scullIo 11
  | .shift .qset => scullIo 12

/-- The cases of the `switch`, in its order. -/
def Command.all : List Command :=
  [.reset, .set .quantum, .tell .quantum, .get .quantum, .query .quantum, .exchange .quantum,
    .shift .quantum, .set .qset, .tell .qset, .get .qset, .query .qset, .exchange .qset,
    .shift .qset]

def switchCommand (cmd : ℕ) : Option Command := Command.all.find? fun c => c.code = cmd

/-- Every command is found under its own word. -/
theorem switchCommand_code (c : Command) : switchCommand c.code = some c := by
  rcases c with _ | p | p | p | p | p | p <;> (try cases p) <;> decide

/-! ## The commands -/

/-- `scull_quantum` and `scull_qset`. -/
structure Globals where
  quantum : ℤ
  qset : ℤ
  deriving DecidableEq

def Globals.get (g : Globals) : Param → ℤ
  | .quantum => g.quantum
  | .qset => g.qset

def Globals.put (g : Globals) (p : Param) (value : ℤ) : Globals :=
  match p with
  | .quantum => { g with quantum := value }
  | .qset => { g with qset := value }

/-- `SCULL_QUANTUM` and `SCULL_QSET`. -/
def Globals.default : Globals := ⟨4000, 1000⟩

/-- What the kernel and the user memory answer during one ioctl: `access_ok`,
`capable(CAP_SYS_ADMIN)`, the `int` a `__get_user` finds at `arg` (`none` when it
faults), and whether a `__put_user` there succeeds. -/
structure IoctlEnv where
  accessOk : Bool := true
  capable : Bool := true
  user : Option ℤ := none
  putOk : Bool := true

/-- The return value, the parameters afterwards, and what was stored at `arg`. -/
structure IoctlOut where
  retval : ℤ
  globals : Globals
  stored : Option ℤ
  deriving DecidableEq

/-- `__get_user` of an `int`: the error code and the value the destination gets,
which is zero on a fault. -/
def getUser (env : IoctlEnv) : ℤ × ℤ :=
  match env.user with
  | some value => (0, wrap32 value)
  | none => (-EFAULT, 0)

/-- `__put_user` of an `int`: the error code and what is stored. -/
def putUser (env : IoctlEnv) (value : ℤ) : ℤ × Option ℤ :=
  if env.putOk then (0, some value) else (-EFAULT, none)

def ioctlReset : IoctlOut := ⟨0, .default, none⟩

def ioctlSet (p : Param) (g : Globals) (env : IoctlEnv) : IoctlOut :=
  if !env.capable then ⟨-EPERM, g, none⟩
  else ⟨(getUser env).1, g.put p (getUser env).2, none⟩

def ioctlTell (p : Param) (g : Globals) (arg : ℕ) (env : IoctlEnv) : IoctlOut :=
  if !env.capable then ⟨-EPERM, g, none⟩ else ⟨0, g.put p (wrap32 arg), none⟩

def ioctlGet (p : Param) (g : Globals) (env : IoctlEnv) : IoctlOut :=
  ⟨(putUser env (g.get p)).1, g, (putUser env (g.get p)).2⟩

/-- "Query: return it (it's positive)". -/
def ioctlQuery (p : Param) (g : Globals) : IoctlOut := ⟨g.get p, g, none⟩

/-- `SCULL_IOCXQUANTUM` and `SCULL_IOCXQSET`.  The `put_user` of the latter is taken for a
`__put_user`. -/
def ioctlExchange (p : Param) (g : Globals) (env : IoctlEnv) : IoctlOut :=
  if !env.capable then ⟨-EPERM, g, none⟩
  else
    let tmp := g.get p
    let g := g.put p (getUser env).2
    if (getUser env).1 = 0 then ⟨(putUser env tmp).1, g, (putUser env tmp).2⟩
    else ⟨(getUser env).1, g, none⟩

def ioctlShift (p : Param) (g : Globals) (arg : ℕ) (env : IoctlEnv) : IoctlOut :=
  if !env.capable then ⟨-EPERM, g, none⟩ else ⟨g.get p, g.put p (wrap32 arg), none⟩

def Command.exec (c : Command) (g : Globals) (arg : ℕ) (env : IoctlEnv) : IoctlOut :=
  match c with
  | .reset => ioctlReset
  | .set p => ioctlSet p g env
  | .tell p => ioctlTell p g arg env
  | .get p => ioctlGet p g env
  | .query p => ioctlQuery p g
  | .exchange p => ioctlExchange p g env
  | .shift p => ioctlShift p g arg env

/-- `scull_ioctl`. -/
def scullIoctl (g : Globals) (cmd arg : ℕ) (env : IoctlEnv) : IoctlOut :=
  if iocType cmd ≠ scullIocMagic then ⟨-ENOTTY, g, none⟩
  else if scullIocMaxnr < iocNr cmd then ⟨-ENOTTY, g, none⟩
  else if iocDir cmd ≠ 0 ∧ !env.accessOk then ⟨-EFAULT, g, none⟩
  else
    match switchCommand cmd with
    | none => ⟨-ENOTTY, g, none⟩
    | some c => c.exec g arg env

/-! ## What a call does -/

/-- A command whose argument is accessible is executed. -/
theorem scullIoctl_code (c : Command) (g : Globals) (arg : ℕ) (env : IoctlEnv)
    (haccess : iocDir c.code = 0 ∨ env.accessOk = true) :
    scullIoctl g c.code arg env = c.exec g arg env := by
  have hword : iocType c.code = scullIocMagic ∧ iocNr c.code ≤ scullIocMaxnr := by
    rcases c with _ | p | p | p | p | p | p <;> (try cases p) <;> decide
  have hdir : ¬ (iocDir c.code ≠ 0 ∧ (!env.accessOk) = true) := by
    rintro ⟨hdir, hok⟩
    rcases haccess with h | h
    · exact hdir h
    · simp [h] at hok
  rw [scullIoctl, if_neg (not_not.mpr hword.1), if_neg (by omega), if_neg hdir,
    switchCommand_code]

end KernelTraining.Scull
