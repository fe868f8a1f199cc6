import KernelTraining.Machine.Words
import KernelTraining.Machine.UserCopy

/-!
# The lifo device

Translation of `LIFO/main.c`.  `lifo_read` and `lifo_write` copy one byte at a time and keep
the head of the list in a local until they are done; what they do with one byte (`consume`,
`produce`) and at their end (`commit`) are definitions of their own, which the calls run to
completion here and which other callers come between in `Lifo/Interleaving.lean`.

Two things in which a model could easily be kinder than the code:

* The loop index is an `int`, and the count is a `size_t`, so `i < count` is a comparison in
  64 bits (`Cursor.goesOn`), and `dev->fset` is an `int` that goes round.
* The result of `kmalloc` is not checked.  A write that gets no node stores through a null
  pointer, which is a fault here.

A loop over the list gets as many rounds as there are blocks allocated; a list on which it is
not done by then has been followed into a block that has been freed, or in a circle.
-/

namespace KernelTraining.Lifo

open Machine

/-- `struct lifo_node`. -/
structure LifoNode where
  next : Option Addr
  value : UInt8
  deriving DecidableEq

/-- `struct lifo_dev`, without the character device. -/
structure LifoDev where
  data : Option Addr
  fset : ℤ
  deriving DecidableEq

structure State where
  dev : LifoDev
  heap : Heap LifoNode

/-- The device as `lifo_init_module` leaves it. -/
def lifoInit : State := ⟨⟨none, 0⟩, .empty⟩

/-- What the kernel answers during one call: the answers of `kmalloc`, what a fresh
node holds, and the index of the byte that cannot be copied. -/
structure Env where
  answers : List (Option Addr) := []
  junk : LifoNode := ⟨none, 0⟩
  fault : Option ℕ := none

/-! ## `lifo_trim` and `lifo_open` -/

/-- The loop of `lifo_trim`.  Each round frees the node it is at, so the number of
allocated nodes bounds the rounds. -/
def trimLoop : ℕ → Heap LifoNode → Option Addr → Except Fault (Heap LifoNode)
  | _, h, none => .ok h
  | 0, _, some _ => .error .badAccess
  | rounds + 1, h, some ptr => do
      let node ← load h (some ptr)
      let h ← kfree h (some ptr)
      trimLoop rounds h node.next

/-- `lifo_trim`. -/
def lifoTrim (s : State) : Except Fault State := do
  let h ← trimLoop s.heap.card s.heap s.dev.data
  pure ⟨{ s.dev with fset := 0 }, h⟩

/-- `lifo_open`. -/
def lifoOpen (s : State) (flags : ℕ) : Except Fault State :=
  if writeOnly flags then lifoTrim s else .ok s

/-! ## The locals of a transfer -/

/-- `i`, `ptr` and `retval`. -/
structure Cursor where
  i : ℤ
  ptr : Option Addr
  retval : ℤ
  deriving DecidableEq

/-- A transfer that starts. -/
def Cursor.start (s : State) : Cursor := ⟨0, s.dev.data, 0⟩

/-- The loop condition `i < count`, a comparison of `size_t` values. -/
def Cursor.goesOn (c : Cursor) (count : ℕ) : Bool := toULong c.i < count

/-- `dev->data = ptr`. -/
def commit (s : State) (c : Cursor) : State := { s with dev.data := c.ptr }

/-- What a call returns, the bytes that reached the user, and what it leaves. -/
structure Out where
  retval : ℤ
  copied : List UInt8
  state : State

/-! ## `lifo_read` -/

/-- The number of bytes a read will try for. -/
def clampCount (s : State) (count : ℕ) : ℕ :=
  if toULong s.dev.fset < count then toULong s.dev.fset else count

/-- The rest of the loop body once the byte of `node`, the node at `ptr`, has
reached the user. -/
def consume (s : State) (c : Cursor) (node : LifoNode) : Except Fault (State × Cursor) := do
  let h ← kfree s.heap c.ptr
  pure (⟨{ s.dev with fset := wrap32 (s.dev.fset - 1) }, h⟩,
    ⟨wrap32 (c.i + 1), node.next, c.retval + 1⟩)

/-- The loop of `lifo_read`; it cannot go round more than `count` times. -/
def readLoop (count : ℕ) (env : Env) : ℕ → State → Cursor → List UInt8 → Except Fault Out
  | 0, s, c, copied => .ok ⟨c.retval, copied, commit s c⟩
  | rounds + 1, s, c, copied =>
      if c.goesOn count then do
        let node ← load s.heap c.ptr
        if env.fault = some c.i.toNat then pure ⟨-EFAULT, copied, s⟩
        else
          let (s, c) ← consume s c node
          readLoop count env rounds s c (copied ++ [node.value])
      else .ok ⟨c.retval, copied, commit s c⟩

/-- `lifo_read`. -/
def lifoRead (s : State) (count : ℕ) (fPos : ℤ) (env : Env) : Except Fault Out :=
  if fPos ≠ 0 then .ok ⟨-EINVAL, [], s⟩
  else readLoop (clampCount s count) env (clampCount s count) s (.start s) []

/-! ## `lifo_write` -/

/-- The rest of the loop body once `byte` has come from the user, `a` being the
address of the new node. -/
def produce (s : State) (c : Cursor) (a : Addr) (byte : UInt8) :
    Except Fault (State × Cursor) := do
  let h ← store s.heap a ⟨c.ptr, byte⟩
  pure (⟨{ s.dev with fset := wrap32 (s.dev.fset + 1) }, h⟩,
    ⟨wrap32 (c.i + 1), some a, c.retval + 1⟩)

/-- The loop of `lifo_write`.  The result of `kmalloc` is not checked: copying to
`&new->value` through a null pointer is a fault, whatever the user address.  When the
copy fails the destination is cleared and the node is left behind. -/
def writeLoop (buf : List UInt8) (env : Env) :
    ℕ → State → Cursor → List (Option Addr) → Except Fault Out
  | 0, s, c, _ => .ok ⟨c.retval, [], commit s c⟩
  | rounds + 1, s, c, answers =>
      if c.goesOn buf.length then
        match kmalloc s.heap env.junk answers with
        | (none, _, _) => .error .nullDeref
        | (some a, h, answers) =>
            if env.fault = some c.i.toNat then do
              let h ← store h a { env.junk with value := 0 }
              pure ⟨-EFAULT, [], { s with heap := h }⟩
            else do
              let (s, c) ← produce { s with heap := h } c a (buf.getD c.i.toNat 0)
              writeLoop buf env rounds s c answers
      else .ok ⟨c.retval, [], commit s c⟩

/-- `lifo_write`. -/
def lifoWrite (s : State) (buf : List UInt8) (env : Env) : Except Fault Out :=
  writeLoop buf env buf.length s (.start s) env.answers

/-! ## Calls -/

inductive Call where
  | open (flags : ℕ)
  | read (count : ℕ) (fPos : ℤ) (env : Env)
  | write (buf : List UInt8) (env : Env)

/-- One call. -/
def State.call (s : State) : Call → Except Fault Out
  | .open flags => (lifoOpen s flags).map fun s => ⟨0, [], s⟩
  | .read count fPos env => lifoRead s count fPos env
  | .write buf env => lifoWrite s buf env

/-- One call, of which only the state afterwards matters. -/
def State.step (s : State) (c : Call) : Except Fault State := (s.call c).map Out.state

end KernelTraining.Lifo
