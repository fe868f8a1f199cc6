import KernelTraining.Machine.Calls
import KernelTraining.Machine.Run
import KernelTraining.Pipe.Device

/-!
# Callers of the pipe device

Any number of calls are in the functions of the pipe device, and their steps interleave.  A
call takes the semaphore, does its section, and gives the semaphore back.  A read that finds
nothing and a write that finds no space then go to sleep on a queue and start again when
somebody has woken them up: `scull_p_read` through `wait_event_interruptible`,
`scull_getwritespace` with the steps of that macro written out.  Both test the condition
they wait for without the semaphore, and so see what the others store with it; the stores of
one of its parts (the two fields of a pointer that wraps, say) are one step here.

A section is one step or two.  `Op.body` is the call up to and with its copy or its
allocation; a call that goes on from there (`Op.goesOn`) is `Stage.halfway`, and `Op.commit`
sets the pointers in a step of its own.

Besides the calls, the system has the files that are open on the device, the parameter
`scull_p_buffer` with the ioctl that sets it at any time, and a history of what the sections
have done to the bytes in the buffer.  The VFS makes calls through open files of the right
mode only (`admits`), and a file that is closed is released by a call of its own.

All invariants of the device are proved from `Concurrent.effect`, which says once what a
step can do: a call gets somewhere without the semaphore (`Outside`, which also says what it
has just seen if it goes to sleep), takes it, does one of the parts of its section, gives it
back or returns.  The first of these invariants is here (`sem_balanced`).  It needs no
assumption on the calls: the semaphore is down as often as there are calls inside
(`Concurrent.Balanced`), which the step lemma `Concurrent.Balanced.effect` has from the
counts of `Machine.countP_set`.
-/

namespace KernelTraining.Pipe

open Machine Abstract

inductive WaitQueue where
  | inq
  | outq
  deriving DecidableEq

/-- A call through a file, and the openings and closings themselves. -/
inductive Op where
  | open (mode : Mode)
  | release (mode : Mode)
  | read (fd count : ℕ)
  | write (fd : ℕ) (buf : List UInt8)
  | poll (fd : ℕ)
  deriving DecidableEq

namespace Op

/-- What the call does while it holds the semaphore, up to and with its copy or its
allocation. -/
def body (scullPBuffer : ℤ) (dev : ScullPipe) (env : Env) :
    Op → Except Fault (Option (Answer × ScullPipe))
  | .open _ => .ok (some (scullPOpen scullPBuffer dev env.memory))
  | .release mode => .ok (some (scullPRelease dev mode))
  | .read _ count => (scullPRead dev count env.fault).map (Option.map (·, dev))
  | .write _ buf => scullPWrite dev buf env.fault
  | .poll _ => (scullPPoll dev).map some

/-- Bytes have been copied, or there is a buffer, and the pointers have to follow. -/
def goesOn (answer : Answer) : Op → Bool
  | .open _ => answer.retval = 0
  | .read _ _ => 0 ≤ answer.retval
  | .write _ _ => 0 ≤ answer.retval
  | _ => false

/-- What the call does to the pointers after that. -/
def commit (scullPBuffer : ℤ) (answer : Answer) (dev : ScullPipe) : Op → ScullPipe
  | .open mode => dev.reopen scullPBuffer mode
  | .read _ _ => dev.advanceRp answer.retval.toNat
  | .write _ _ => dev.advanceWp answer.retval.toNat
  | _ => dev

/-- `scull_p_release` and `scull_p_poll` use `down`, the others `down_interruptible`. -/
def interruptible : Op → Bool
  | .release _ => false
  | .poll _ => false
  | _ => true

/-- The file the call is made through, and the mode this takes. -/
def uses : Op → Option (ℕ × Option Dir)
  | .read fd _ => some (fd, some .read)
  | .write fd _ => some (fd, some .write)
  | .poll fd => some (fd, none)
  | _ => none

/-- The queue the call sleeps on. -/
def queue : Op → Option WaitQueue
  | .read _ _ => some .inq
  | .write _ _ => some .outq
  | _ => none

/-- The queue the call wakes up when it has moved bytes. -/
def wakes : Op → Option WaitQueue
  | .read _ _ => some .outq
  | .write _ _ => some .inq
  | _ => none

/-- What the bytes in the buffer have seen of a call that has moved the pointers. -/
def moved (scullPBuffer : ℤ) (answer : Answer) : Op → List (QueueOp UInt8)
  | .open _ => [.reset (scullPBuffer.toNat - 1)]
  | .read _ _ => [.get answer.user]
  | .write _ buf => [.put (buf.take answer.retval.toNat)]
  | _ => []

end Op

/-- What a sleeper on the queue waits for. -/
def ready (dev : ScullPipe) : WaitQueue → Except Fault Bool
  | .inq => .ok (dev.rp ≠ dev.wp)
  | .outq => (spacefree dev).map fun free => free ≠ 0

/-- Where a call is in the code. -/
inductive Stage where
  /-- `down` or `down_interruptible` comes next. -/
  | entering
  /-- The semaphore is held, and the body comes next. -/
  | holding
  /-- The semaphore is held, bytes have been copied or there is a buffer, and the pointers come
  next. -/
  | halfway (answer : Answer)
  /-- `up` comes next, and after it waiting if there is no answer. -/
  | leaving (answer : Option Answer)
  /-- `wake_up_interruptible` comes next. -/
  | waking (answer : Answer)
  /-- The first test of `wait_event_interruptible` comes next. -/
  | testing
  /-- `prepare_to_wait` comes next. -/
  | preparing
  /-- In the queue; the test before `schedule` comes next. -/
  | queued (woken : Bool)
  /-- In `schedule`. -/
  | asleep (woken : Bool)
  | returned (answer : Answer)
  deriving DecidableEq

/-- The call holds the semaphore. -/
def Stage.inside : Stage → Bool
  | .holding => true
  | .halfway _ => true
  | .leaving _ => true
  | _ => false

/-- The call has neither the semaphore nor an answer. -/
def Stage.idle : Stage → Bool
  | .entering => true
  | .testing => true
  | .preparing => true
  | .queued _ => true
  | .asleep _ => true
  | _ => false

def Stage.answer : Stage → Option Answer
  | .leaving answer => answer
  | .waking answer => some answer
  | .returned answer => some answer
  | _ => none

structure Call where
  op : Op
  stage : Stage
  deriving DecidableEq

/-- The call has not returned. -/
def Call.busy (c : Call) : Bool :=
  match c.stage with
  | .returned _ => false
  | _ => true

/-- `wake_up_interruptible`, as far as this call is concerned. -/
def Call.wakeUp (q : WaitQueue) (c : Call) : Call :=
  if c.op.queue = some q then
    match c.stage with
    | .queued _ => { c with stage := .queued true }
    | .asleep _ => { c with stage := .asleep true }
    | _ => c
  else c

structure Concurrent where
  scullPBuffer : ℤ
  dev : ScullPipe
  /-- The count of the semaphore. -/
  sem : ℕ
  /-- The modes of the files, and nothing for a file that has been closed. -/
  files : List (Option Mode)
  calls : List Call
  /-- What the sections have done to the bytes, with the numbers of the calls. -/
  log : List (ℕ × QueueOp UInt8)

/-- A call is made, a file closed, `scull_p_buffer` set, or call `i` makes its next step. -/
inductive Action where
  | call (op : Op)
  | close (fd : ℕ)
  | tell (arg : ℕ)
  | next (i : ℕ) (env : Env)

namespace Concurrent

/-- `scull_p_init` has run. -/
def init (scullPBuffer : ℤ) : Concurrent := ⟨scullPBuffer, .cleared, 1, [], [], []⟩

def mode (x : Concurrent) (fd : ℕ) : Option Mode := x.files[fd]?.join

/-- The VFS makes calls through open files of the right mode, and releases by itself. -/
def admits (x : Concurrent) (op : Op) : Bool :=
  match op.uses with
  | some (fd, dir) => (x.mode fd).any fun mode => dir.all mode.has
  | none =>
      match op with
      | .release _ => false
      | _ => true

def advance (x : Concurrent) (i : ℕ) (c : Call) (stage : Stage) : Concurrent :=
  { x with calls := x.calls.set i { c with stage := stage } }

/-- The wait is over; `scull_getwritespace` looks for a signal first. -/
def resumed (op : Op) (env : Env) : Stage :=
  match op with
  | .write _ _ => if env.signal then .returned ⟨-ERESTARTSYS, []⟩ else .entering
  | _ => .entering

/-- The test of the condition, and `schedule` if it fails. -/
def retest (x : Concurrent) (c : Call) (env : Env) (woken : Bool) : Except Fault Stage :=
  match c.op with
  | .read _ _ => do
      if ← ready x.dev .inq then pure .entering
      else if env.signal then pure (.returned ⟨-ERESTARTSYS, []⟩)
      else pure (.asleep woken)
  | _ => do
      if ← ready x.dev .outq then pure (resumed c.op env)
      else pure (.asleep woken)

/-- The call after its section: files are opened and sleepers woken up. -/
def finish (op : Op) (answer : Answer) : Stage :=
  match op.wakes with
  | some _ => if 0 ≤ answer.retval then .waking answer else .returned answer
  | none => .returned answer

/-- The file that a successful opening has made. -/
def opened (op : Op) (answer : Answer) : List (Option Mode) :=
  match op with
  | .open mode => if answer.retval = 0 then [some mode] else []
  | _ => []

def wakeUp (x : Concurrent) (q : Option WaitQueue) : Concurrent :=
  match q with
  | some q => { x with calls := x.calls.map (Call.wakeUp q) }
  | none => x

/-- The next step of call `i`, which is `c`. -/
def next (x : Concurrent) (i : ℕ) (c : Call) (env : Env) : Except Fault Concurrent :=
  match c.stage with
  | .entering =>
      if env.signal ∧ c.op.interruptible then
        .ok (x.advance i c (.returned ⟨-ERESTARTSYS, []⟩))
      else
        match x.sem with
        | 0 => .ok x
        | sem + 1 => .ok { x.advance i c .holding with sem := sem }
  | .holding =>
      (c.op.body x.scullPBuffer x.dev env).map fun out =>
        match out with
        | none => x.advance i c (.leaving none)
        | some (answer, dev) =>
            if c.op.goesOn answer then { x.advance i c (.halfway answer) with dev := dev }
            else { x.advance i c (.leaving (some answer)) with dev := dev }
  | .halfway answer =>
      .ok { x.advance i c (.leaving (some answer)) with
        dev := c.op.commit x.scullPBuffer answer x.dev
        log := x.log ++ (c.op.moved x.scullPBuffer answer).map (i, ·) }
  | .leaving none =>
      .ok { x.advance i c (if env.nonblock then .returned ⟨-EAGAIN, []⟩
            else if c.op.queue = some .inq then .testing else .preparing) with
        sem := x.sem + 1 }
  | .leaving (some answer) =>
      .ok { x.advance i c (finish c.op answer) with
        sem := x.sem + 1
        files := x.files ++ opened c.op answer }
  | .waking answer => .ok ((x.advance i c (.returned answer)).wakeUp c.op.wakes)
  | .testing =>
      (ready x.dev .inq).map fun r => x.advance i c (if r then .entering else .preparing)
  | .preparing => .ok (x.advance i c (.queued false))
  | .queued woken => (x.retest c env woken).map (x.advance i c)
  | .asleep woken =>
      if woken ∨ env.signal then
        .ok (x.advance i c (if c.op.queue = some .inq then .preparing else resumed c.op env))
      else .ok x
  | .returned _ => .ok x

def step (x : Concurrent) : Action → Except Fault Concurrent
  | .call op => .ok (if x.admits op then { x with calls := x.calls ++ [⟨op, .entering⟩] } else x)
  | .close fd =>
      match x.mode fd with
      | none => .ok x
      | some mode =>
          -- the file is released when the last call through it has returned
          if ∃ c ∈ x.calls, c.busy = true ∧ c.op.uses.map Prod.fst = some fd then .ok x
          else .ok { x with
            files := x.files.set fd none
            calls := x.calls ++ [⟨.release mode, .entering⟩] }
  | .tell arg => .ok { x with scullPBuffer := wrap32 arg }
  | .next i env =>
      match x.calls[i]? with
      | none => .ok x
      | some c => x.next i c env

/-! ## What a step can do -/

/-- A stage without the semaphore and without an answer, or with a failure for one. -/
def Unanswered (stage : Stage) : Prop :=
  stage.idle = true ∨ ∃ e : ℤ, 0 < e ∧ stage = .returned ⟨-e, []⟩

/-- Where call `c` can get to without the semaphore: a call goes to sleep when it has just
seen that what it waits for is not there, and a release does not give up. -/
structure Outside (x : Concurrent) (c : Call) (stage : Stage) : Prop where
  unanswered : Unanswered stage
  release : ∀ mode, c.op = .release mode → stage.idle = true
  asleep : ∀ q, c.op.queue = some q → stage = .asleep false → ready x.dev q = .ok false

inductive Effect (x : Concurrent) : Action → Concurrent → Prop
  | stays (a : Action) : Effect x a x
  | called (op : Op) (hadmits : x.admits op = true) :
      Effect x (.call op) { x with calls := x.calls ++ [⟨op, .entering⟩] }
  | closed (fd : ℕ) (mode : Mode) (hmode : x.mode fd = some mode)
      (hidle : ∀ c ∈ x.calls, c.busy = true → c.op.uses.map Prod.fst ≠ some fd) :
      Effect x (.close fd) { x with
        files := x.files.set fd none
        calls := x.calls ++ [⟨.release mode, .entering⟩] }
  | told (arg : ℕ) : Effect x (.tell arg) { x with scullPBuffer := wrap32 arg }
  /-- A step outside the semaphore. -/
  | moves (i : ℕ) (env : Env) (c : Call) (stage : Stage) (hc : x.calls[i]? = some c)
      (hfrom : c.stage.idle = true) (hto : Outside x c stage) :
      Effect x (.next i env) (x.advance i c stage)
  | acquires (i : ℕ) (env : Env) (c : Call) (sem : ℕ) (hc : x.calls[i]? = some c)
      (hstage : c.stage = .entering) (hsem : x.sem = sem + 1) :
      Effect x (.next i env) { x.advance i c .holding with sem := sem }
  /-- A transfer that finds nothing to move. -/
  | blocks (i : ℕ) (env : Env) (c : Call) (hc : x.calls[i]? = some c) (hstage : c.stage = .holding)
      (hbody : c.op.body x.scullPBuffer x.dev env = .ok none) :
      Effect x (.next i env) (x.advance i c (.leaving none))
  | acts (i : ℕ) (env : Env) (c : Call) (answer : Answer) (dev : ScullPipe)
      (hc : x.calls[i]? = some c) (hstage : c.stage = .holding)
      (hbody : c.op.body x.scullPBuffer x.dev env = .ok (some (answer, dev)))
      (hdone : c.op.goesOn answer = false) :
      Effect x (.next i env) { x.advance i c (.leaving (some answer)) with dev := dev }
  /-- The copy of a transfer, or the allocation of an opening. -/
  | begins (i : ℕ) (env : Env) (c : Call) (answer : Answer) (dev : ScullPipe)
      (hc : x.calls[i]? = some c) (hstage : c.stage = .holding)
      (hbody : c.op.body x.scullPBuffer x.dev env = .ok (some (answer, dev)))
      (hgoesOn : c.op.goesOn answer = true) :
      Effect x (.next i env) { x.advance i c (.halfway answer) with dev := dev }
  /-- The pointers after that. -/
  | commits (i : ℕ) (env : Env) (c : Call) (answer : Answer) (hc : x.calls[i]? = some c)
      (hstage : c.stage = .halfway answer) :
      Effect x (.next i env) { x.advance i c (.leaving (some answer)) with
        dev := c.op.commit x.scullPBuffer answer x.dev
        log := x.log ++ (c.op.moved x.scullPBuffer answer).map (i, ·) }
  /-- `up`, to wait. -/
  | releases (i : ℕ) (env : Env) (c : Call) (stage : Stage) (hc : x.calls[i]? = some c)
      (hstage : c.stage = .leaving none) (hto : Unanswered stage) (hawake : stage ≠ .asleep false) :
      Effect x (.next i env) { x.advance i c stage with sem := x.sem + 1 }
  /-- `up`, with an answer. -/
  | answers (i : ℕ) (env : Env) (c : Call) (answer : Answer) (hc : x.calls[i]? = some c)
      (hstage : c.stage = .leaving (some answer)) :
      Effect x (.next i env) { x.advance i c (finish c.op answer) with
        sem := x.sem + 1
        files := x.files ++ opened c.op answer }
  | wakes (i : ℕ) (env : Env) (c : Call) (answer : Answer) (hc : x.calls[i]? = some c)
      (hstage : c.stage = .waking answer) :
      Effect x (.next i env) ((x.advance i c (.returned answer)).wakeUp c.op.wakes)

theorem Outside.of_idle (x : Concurrent) (c : Call) {stage : Stage} (hidle : stage.idle = true)
    (hawake : stage ≠ .asleep false) : Outside x c stage where
  unanswered := .inl hidle
  release := fun _ _ => hidle
  asleep := fun _ _ h => absurd h hawake

theorem outside_resumed (x : Concurrent) (c : Call) (env : Env) :
    Outside x c (resumed c.op env) := by
  unfold resumed
  split
  · rename_i fd buf hop
    split_ifs
    · exact {
        unanswered := .inr ⟨ERESTARTSYS, by decide, rfl⟩
        release := fun mode h => by rw [hop] at h; cases h
        asleep := fun _ _ h => by cases h }
    · exact .of_idle x c rfl Stage.noConfusion
  · exact .of_idle x c rfl Stage.noConfusion

theorem outside_retest {x : Concurrent} {c : Call} {env : Env} {woken : Bool} {stage : Stage}
    (hretest : x.retest c env woken = .ok stage) : Outside x c stage := by
  unfold retest at hretest
  split at hretest
  · rename_i fd count hop
    obtain ⟨r, hr, hrest⟩ := bind_eq_ok.mp hretest
    split_ifs at hrest with htest hsignal
    · obtain rfl := Except.ok.inj hrest
      exact .of_idle x c rfl Stage.noConfusion
    · obtain rfl := Except.ok.inj hrest
      exact {
        unanswered := .inr ⟨ERESTARTSYS, by decide, rfl⟩
        release := fun mode h => by rw [hop] at h; cases h
        asleep := fun _ _ h => by cases h }
    · obtain rfl := Except.ok.inj hrest
      refine ⟨.inl rfl, fun _ _ => rfl, ?_⟩
      intro q hq _
      rw [hop] at hq
      obtain rfl := Option.some.inj hq
      rw [hr, Bool.eq_false_iff.mpr htest]
  · rename_i hop
    obtain ⟨r, hr, hrest⟩ := bind_eq_ok.mp hretest
    split_ifs at hrest with htest
    · obtain rfl := Except.ok.inj hrest
      exact outside_resumed x c env
    · obtain rfl := Except.ok.inj hrest
      refine ⟨.inl rfl, fun _ _ => rfl, ?_⟩
      intro q hq _
      cases hop' : c.op with
      | read fd count => exact absurd hop' (hop fd count)
      | write fd buf =>
          rw [hop'] at hq
          obtain rfl := Option.some.inj hq
          rw [hr, Bool.eq_false_iff.mpr htest]
      | _ => rw [hop'] at hq; cases hq

/-- **One step.** -/
theorem effect {x x' : Concurrent} {a : Action} (hstep : x.step a = .ok x') : Effect x a x' := by
  cases a with
  | call op =>
      obtain rfl := Except.ok.inj hstep
      split_ifs with hadmits
      · exact .called op hadmits
      · exact .stays _
  | close fd =>
      simp only [step] at hstep
      cases hmode : x.mode fd with
      | none =>
          rw [hmode] at hstep
          exact Except.ok.inj hstep ▸ .stays _
      | some mode =>
          simp only [hmode] at hstep
          split_ifs at hstep with hbusy
          · exact Except.ok.inj hstep ▸ .stays _
          · obtain rfl := Except.ok.inj hstep
            exact .closed fd mode hmode fun c hc hb huses => hbusy ⟨c, hc, hb, huses⟩
  | tell arg => exact Except.ok.inj hstep ▸ .told arg
  | next i env =>
      simp only [step] at hstep
      cases hc : x.calls[i]? with
      | none =>
          rw [hc] at hstep
          exact Except.ok.inj hstep ▸ .stays _
      | some c =>
          simp only [hc, next] at hstep
          split at hstep
          · rename_i hstage
            split_ifs at hstep with hsignal
            · obtain rfl := Except.ok.inj hstep
              refine .moves i env c _ hc (by rw [hstage]; rfl) ?_
              exact {
                unanswered := .inr ⟨ERESTARTSYS, by decide, rfl⟩
                release := fun mode h => by simp [h, Op.interruptible] at hsignal
                asleep := fun _ _ h => by cases h }
            · split at hstep
              · exact Except.ok.inj hstep ▸ .stays _
              · rename_i sem hsem
                obtain rfl := Except.ok.inj hstep
                exact .acquires i env c sem hc hstage hsem
          · rename_i hstage
            cases hbody : c.op.body x.scullPBuffer x.dev env with
            | error fault => rw [hbody] at hstep; cases hstep
            | ok out =>
                rw [hbody] at hstep
                obtain rfl := Except.ok.inj hstep
                cases out with
                | none => exact .blocks i env c hc hstage hbody
                | some out =>
                    dsimp only
                    split_ifs with hgoesOn
                    · exact .begins i env c out.1 out.2 hc hstage hbody hgoesOn
                    · exact .acts i env c out.1 out.2 hc hstage hbody (by simpa using hgoesOn)
          · rename_i answer hstage
            obtain rfl := Except.ok.inj hstep
            exact .commits i env c answer hc hstage
          · rename_i hstage
            obtain rfl := Except.ok.inj hstep
            refine .releases i env c _ hc hstage ?_ ?_
            · split_ifs
              · exact .inr ⟨EAGAIN, by decide, rfl⟩
              · exact .inl rfl
              · exact .inl rfl
            · split_ifs <;> exact Stage.noConfusion
          · rename_i answer hstage
            obtain rfl := Except.ok.inj hstep
            exact .answers i env c answer hc hstage
          · rename_i answer hstage
            obtain rfl := Except.ok.inj hstep
            exact .wakes i env c answer hc hstage
          · rename_i hstage
            cases hr : ready x.dev .inq with
            | error fault => rw [hr] at hstep; cases hstep
            | ok r =>
                rw [hr] at hstep
                obtain rfl := Except.ok.inj hstep
                refine .moves i env c _ hc (by rw [hstage]; rfl) ?_
                cases r <;> exact .of_idle x c rfl Stage.noConfusion
          · rename_i hstage
            obtain rfl := Except.ok.inj hstep
            exact .moves i env c _ hc (by rw [hstage]; rfl) (.of_idle x c rfl Stage.noConfusion)
          · rename_i woken hstage
            cases hretest : x.retest c env woken with
            | error fault => rw [hretest] at hstep; cases hstep
            | ok stage =>
                rw [hretest] at hstep
                obtain rfl := Except.ok.inj hstep
                exact .moves i env c stage hc (by rw [hstage]; rfl) (outside_retest hretest)
          · rename_i woken hstage
            split_ifs at hstep
            · obtain rfl := Except.ok.inj hstep
              exact .moves i env c _ hc (by rw [hstage]; rfl) (.of_idle x c rfl Stage.noConfusion)
            · obtain rfl := Except.ok.inj hstep
              exact .moves i env c _ hc (by rw [hstage]; rfl) (outside_resumed x c env)
            · exact Except.ok.inj hstep ▸ .stays _
          · exact Except.ok.inj hstep ▸ .stays _

end Concurrent

/-! ## Mutual exclusion -/

/-- The semaphore is held by the call that is inside, and by nobody else. -/
def Concurrent.Balanced (x : Concurrent) : Prop := x.sem + x.calls.countP (·.stage.inside) = 1

@[simp] theorem Stage.inside_entering : Stage.entering.inside = false := rfl

@[simp] theorem Stage.inside_holding : Stage.holding.inside = true := rfl

@[simp] theorem Stage.inside_leaving (answer : Option Answer) :
    (Stage.leaving answer).inside = true := rfl

theorem Unanswered.inside {stage : Stage} (h : Concurrent.Unanswered stage) :
    stage.inside = false := by
  rcases h with h | ⟨e, -, rfl⟩
  · cases stage <;> first | rfl | cases h
  · rfl

theorem Stage.inside_of_idle {stage : Stage} (h : stage.idle = true) : stage.inside = false := by
  cases stage <;> first | rfl | cases h

theorem Concurrent.inside_finish (op : Op) (answer : Answer) :
    (Concurrent.finish op answer).inside = false := by
  unfold Concurrent.finish
  split
  · split_ifs <;> rfl
  · rfl

/-- Waking up does not let anybody in. -/
theorem Call.inside_wakeUp (q : WaitQueue) (c : Call) :
    (c.wakeUp q).stage.inside = c.stage.inside := by
  unfold Call.wakeUp
  split_ifs
  · split
    · rename_i h; rw [h]; rfl
    · rename_i h; rw [h]; rfl
    · rfl
  · rfl

theorem Concurrent.countP_inside_wakeUp (x : Concurrent) (q : Option WaitQueue) :
    (x.wakeUp q).calls.countP (·.stage.inside) = x.calls.countP (·.stage.inside) := by
  cases q with
  | none => rfl
  | some q =>
      show (x.calls.map (Call.wakeUp q)).countP _ = _
      rw [List.countP_map]
      exact List.countP_congr fun c _ => by
        show (c.wakeUp q).stage.inside = true ↔ _
        rw [c.inside_wakeUp]

theorem Concurrent.wakeUp_sem (x : Concurrent) (q : Option WaitQueue) :
    (x.wakeUp q).sem = x.sem := by
  cases q <;> rfl

theorem Concurrent.Balanced.effect {x x' : Concurrent} {a : Action} (balanced : x.Balanced)
    (heffect : Effect x a x') : x'.Balanced := by
  unfold Concurrent.Balanced at balanced ⊢
  cases heffect with
  | stays => exact balanced
  | called op => rwa [List.countP_append]
  | closed fd mode => rwa [List.countP_append]
  | told arg => exact balanced
  | moves i env c stage hc hfrom hto =>
      have hcount := countP_set_of_eq (p := (·.stage.inside)) hc (d := { c with stage := stage })
        ((Unanswered.inside hto.unanswered).trans (Stage.inside_of_idle hfrom).symm)
      exact (congrArg (x.sem + ·) hcount).trans balanced
  | acquires i env c sem hc hstage hsem =>
      have hcount := countP_set hc { c with stage := .holding } (·.stage.inside)
      simp only [hstage, Stage.inside_entering, Stage.inside_holding, if_true,
        Bool.false_eq_true, if_false] at hcount
      show sem + (x.calls.set i _).countP _ = 1
      omega
  | blocks i env c hc hstage =>
      have hcount := countP_set_of_eq (p := (·.stage.inside)) hc
        (d := { c with stage := .leaving none }) (by rw [hstage]; rfl)
      exact (congrArg (x.sem + ·) hcount).trans balanced
  | acts i env c answer dev hc hstage =>
      have hcount := countP_set_of_eq (p := (·.stage.inside)) hc
        (d := { c with stage := .leaving (some answer) }) (by rw [hstage]; rfl)
      exact (congrArg (x.sem + ·) hcount).trans balanced
  | begins i env c answer dev hc hstage =>
      have hcount := countP_set_of_eq (p := (·.stage.inside)) hc
        (d := { c with stage := .halfway answer }) (by rw [hstage]; rfl)
      exact (congrArg (x.sem + ·) hcount).trans balanced
  | commits i env c answer hc hstage =>
      have hcount := countP_set_of_eq (p := (·.stage.inside)) hc
        (d := { c with stage := .leaving (some answer) }) (by rw [hstage]; rfl)
      exact (congrArg (x.sem + ·) hcount).trans balanced
  | releases i env c stage hc hstage hto =>
      have hcount := countP_set hc { c with stage := stage } (·.stage.inside)
      simp only [hstage, Stage.inside_leaving, Unanswered.inside hto, if_true,
        Bool.false_eq_true, if_false] at hcount
      show x.sem + 1 + (x.calls.set i _).countP _ = 1
      omega
  | answers i env c answer hc hstage =>
      have hcount :=
        countP_set hc { c with stage := Concurrent.finish c.op answer } (·.stage.inside)
      simp only [hstage, Stage.inside_leaving, Concurrent.inside_finish, if_true,
        Bool.false_eq_true, if_false] at hcount
      show x.sem + 1 + (x.calls.set i _).countP _ = 1
      omega
  | wakes i env c answer hc hstage =>
      rw [Concurrent.wakeUp_sem, Concurrent.countP_inside_wakeUp]
      have hcount := countP_set_of_eq (p := (·.stage.inside)) hc
        (d := { c with stage := .returned answer }) (by rw [hstage]; rfl)
      exact (congrArg (x.sem + ·) hcount).trans balanced

theorem Concurrent.balanced_init (scullPBuffer : ℤ) : (Concurrent.init scullPBuffer).Balanced := rfl

/-- **The semaphore is balanced on every path.**  Whatever the calls and the order of their
steps, in every state that is reached at most one call is between `down` and `up`, and the
semaphore is free if there is none. -/
theorem sem_balanced {scullPBuffer : ℤ} {actions : List Action} {x : Concurrent}
    (hrun : actions.foldlM Concurrent.step (.init scullPBuffer) = .ok x) : x.Balanced :=
  reached (Q := Concurrent.Balanced)
    (fun _ _ _ balanced hstep => balanced.effect (Concurrent.effect hstep))
    (Concurrent.balanced_init scullPBuffer) hrun

/-- A reader finds nothing and goes to sleep, a writer finds space for two of its bytes and
wakes it up, and it reads them. -/
def handover : List Action :=
  [.call (.open ⟨true, true⟩), .next 0 {}, .next 0 {}, .next 0 {}, .next 0 {},
    .call (.read 0 5), .next 1 {}, .next 1 {}, .next 1 {}, .next 1 {}, .next 1 {}, .next 1 {},
    .call (.write 0 [7, 8, 9]), .next 2 {}, .next 2 {}, .next 2 {}, .next 2 {}, .next 2 {},
    .next 1 {}, .next 1 {}, .next 1 {}, .next 1 {}, .next 1 {}, .next 1 {}, .next 1 {}, .next 1 {}]

theorem sem_balanced_handover :
    ∃ x, handover.foldlM Concurrent.step (.init 3) = .ok x ∧ x.Balanced :=
  ⟨_, rfl, sem_balanced (show handover.foldlM Concurrent.step (.init 3) = .ok _ from rfl)⟩

/-- Everybody has returned: the opening, the reader and the writer. -/
example : (handover.foldlM Concurrent.step (.init 3)).map (fun x => x.calls.map Call.stage) =
    .ok [.returned ⟨0, []⟩, .returned ⟨2, [7, 8]⟩, .returned ⟨2, []⟩] := by decide

end KernelTraining.Pipe
