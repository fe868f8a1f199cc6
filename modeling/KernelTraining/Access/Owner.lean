import KernelTraining.Machine.Openings
import KernelTraining.Machine.Run
import KernelTraining.Machine.UserCopy
import KernelTraining.Machine.WaitQueue
import KernelTraining.Machine.Words

/-!
# The devices of one user at a time

While somebody has `sculluid` or `scullwuid` open, it belongs to the user who has found it
free, and only calls of that user, of somebody who did `su` and of the superuser can open it
as well.  `scull_u_open` refuses the others at once; `scull_w_open` has them wait for
`scull_w_available`, which it tests with the lock before it goes to sleep and without it
after, and `scull_w_release` wakes them up when the count is zero.

In every run of such calls the users who have the device open have an id in common
(`users_share`), and nobody sleeps on a device that would let it in, unless the release that
will wake it up is on its way (`no_sleeper_forgotten`).

## Strategy

The two devices differ in what a refused opening does, not in whom they let in
(`scullUOpen_eq`), so they share the system, its step lemma `Concurrent.effect` and the
invariant `Counted`: the count is the number of openings that have been let in and not
released, and the owner lets in every one of their users.

* **The owner changes only at a count of zero.**  Nobody has the device open then
  (`Counted.count_eq_zero_iff`), so there is nobody whose right to be there would have to be
  proved again for the new owner.  All others were let in by an owner who is still there.
* **The count goes round.**  It is an `int`, and is compared with zero.  `Few` bounds the
  number of openings before a step; up to 2^32 - 1 of them the count is not zero by accident.
* **Sleepers test without the lock.**  `Waits` says what an opening has just seen when it
  goes to sleep; `Watched` is the promise that somebody will wake it up if that is no longer
  so.  As long as the owner stays, nobody is let in who was not before (`Admits.mono`); only
  the release that makes the count zero lets everybody in (`admits_of_zero`), and this is the
  one that goes on to wake the sleepers up.
-/

namespace KernelTraining.Access

open Machine

/-- What the devices look at in `current`: its two ids, and `capable(CAP_DAC_OVERRIDE)`. -/
structure Cred where
  uid : ℕ
  euid : ℕ
  override : Bool
  deriving DecidableEq

/-- `scull_u_count` and `scull_u_owner`, or `scull_w_count` and `scull_w_owner`. -/
structure Gate where
  count : ℤ
  owner : ℕ
  deriving DecidableEq

/-- The section of `scull_u_open`; nothing if it returns `-EBUSY`. -/
def scullUOpen (gate : Gate) (cred : Cred) : Option Gate :=
  if gate.count ≠ 0 ∧ gate.owner ≠ cred.uid ∧ gate.owner ≠ cred.euid ∧ cred.override = false then
    none
  else
    let owner := if gate.count = 0 then cred.uid else gate.owner
    some ⟨wrap32 (gate.count + 1), owner⟩

def scullURelease (gate : Gate) : Gate := { gate with count := wrap32 (gate.count - 1) }

def scullWAvailable (gate : Gate) (cred : Cred) : Bool :=
  gate.count = 0 ∨ gate.owner = cred.uid ∨ gate.owner = cred.euid ∨ cred.override = true

/-- The section of `scull_w_open`; nothing if it has to wait. -/
def scullWOpen (gate : Gate) (cred : Cred) : Option Gate :=
  if scullWAvailable gate cred then
    let owner := if gate.count = 0 then cred.uid else gate.owner
    some ⟨wrap32 (gate.count + 1), owner⟩
  else none

/-- The section of `scull_w_release`, and its `temp`. -/
def scullWRelease (gate : Gate) : Gate × ℤ :=
  let gate := { gate with count := wrap32 (gate.count - 1) }
  (gate, gate.count)

/-- The two devices let the same users in. -/
theorem scullUOpen_eq (gate : Gate) (cred : Cred) :
    scullUOpen gate cred = scullWOpen gate cred := by
  unfold scullUOpen scullWOpen scullWAvailable
  by_cases hcount : gate.count = 0
  · simp [hcount]
  · by_cases huid : gate.owner = cred.uid
    · simp [huid]
    · by_cases heuid : gate.owner = cred.euid
      · simp [heuid]
      · cases cred.override <;> simp [hcount, huid, heuid]

namespace Owner

inductive Device where
  | sculluid
  | scullwuid
  deriving DecidableEq

inductive Op where
  | open (cred : Cred) (nonblock : Bool)
  | release (cred : Cred)
  deriving DecidableEq

/-- Where a call is in the code. -/
inductive Stage where
  /-- The section comes next. -/
  | entering
  /-- The device is open, and the call has not returned yet. -/
  | granted
  /-- The first test of `wait_event_interruptible` comes next. -/
  | testing
  /-- `prepare_to_wait` comes next. -/
  | preparing
  /-- In the queue; the test before `schedule` comes next. -/
  | queued (woken : Bool)
  /-- In `schedule`. -/
  | asleep (woken : Bool)
  /-- `wake_up_interruptible_sync` comes next. -/
  | waking
  | returned (retval : ℤ)
  deriving DecidableEq

structure Call where
  op : Op
  stage : Stage
  deriving DecidableEq

/-- The opener of the file that the call stands for. -/
def Call.stands (c : Call) : Option Cred :=
  match c.op, c.stage with
  | .open cred _, .granted => some cred
  | .release cred, .entering => some cred
  | _, _ => none

/-- `wake_up_interruptible_sync`, as far as this call is concerned. -/
def Call.wakeUp (c : Call) : Call :=
  match c.stage with
  | .queued _ => { c with stage := .queued true }
  | .asleep _ => { c with stage := .asleep true }
  | _ => c

/-- Asleep, and nobody has woken it up. -/
def Call.sleeps (c : Call) : Bool := decide (c.stage = .asleep false)

/-- A release that is about to wake up everybody. -/
def Call.wakes (c : Call) : Bool :=
  match c.op, c.stage with
  | .release _, .waking => true
  | _, _ => false

/-- The device, the files with their openers, which are `none` when they have been closed,
and the calls. -/
structure Concurrent where
  gate : Gate
  files : List (Option Cred)
  calls : List Call

/-- A call is made, a file closed, or call `i` makes its next step, perhaps with a signal. -/
inductive Action where
  | call (cred : Cred) (nonblock : Bool)
  | close (fd : ℕ)
  | next (i : ℕ) (signal : Bool)

/-- The section of `open`. -/
def Device.enter (device : Device) (gate : Gate) (cred : Cred) : Option Gate :=
  match device with
  | .sculluid => scullUOpen gate cred
  | .scullwuid => scullWOpen gate cred

theorem Device.enter_eq (device : Device) (gate : Gate) (cred : Cred) :
    device.enter gate cred = scullWOpen gate cred := by
  cases device with
  | sculluid => exact scullUOpen_eq gate cred
  | scullwuid => rfl

namespace Concurrent

def init : Concurrent := ⟨⟨0, 0⟩, [], []⟩

def advance (x : Concurrent) (i : ℕ) (c : Call) (stage : Stage) : Concurrent :=
  { x with calls := x.calls.set i { c with stage := stage } }

/-- An opening that is not let in. -/
def refused (device : Device) (nonblock : Bool) : Stage :=
  match device with
  | .sculluid => .returned (-EBUSY)
  | .scullwuid => if nonblock then .returned (-EAGAIN) else .testing

/-- The section of a release. -/
def release (device : Device) (gate : Gate) : Gate × Stage :=
  match device with
  | .sculluid => (scullURelease gate, .returned 0)
  | .scullwuid =>
      let (gate, temp) := scullWRelease gate
      (gate, if temp = 0 then .waking else .returned 0)

/-- The next step of call `i`, which is `c`. -/
def next (device : Device) (x : Concurrent) (i : ℕ) (c : Call) (signal : Bool) : Concurrent :=
  match c.op, c.stage with
  | .open cred nonblock, .entering =>
      match device.enter x.gate cred with
      | none => x.advance i c (refused device nonblock)
      | some gate => { x.advance i c .granted with gate := gate }
  | .open cred _, .granted => { x.advance i c (.returned 0) with files := x.files ++ [some cred] }
  | .open cred _, .testing =>
      x.advance i c (if scullWAvailable x.gate cred then .entering else .preparing)
  | .open _ _, .preparing => x.advance i c (.queued false)
  | .open cred _, .queued woken =>
      x.advance i c
        (if scullWAvailable x.gate cred then .entering
        else if signal then .returned (-ERESTARTSYS)
        else .asleep woken)
  | .open _ _, .asleep woken => if woken ∨ signal then x.advance i c .preparing else x
  | .release _, .entering =>
      { x.advance i c (release device x.gate).2 with gate := (release device x.gate).1 }
  | .release _, .waking =>
      { x with calls := (x.calls.set i { c with stage := .returned 0 }).map Call.wakeUp }
  | _, _ => x

def step (device : Device) (x : Concurrent) : Action → Except Fault Concurrent
  | .call cred nonblock => .ok { x with calls := x.calls ++ [⟨.open cred nonblock, .entering⟩] }
  | .close fd =>
      match x.files[fd]? with
      | some (some cred) => .ok { x with
          files := x.files.set fd none
          calls := x.calls ++ [⟨.release cred, .entering⟩] }
      | _ => .ok x
  | .next i signal =>
      match x.calls[i]? with
      | none => .ok x
      | some c => .ok (x.next device i c signal)

/-- The openings of the device, from the section of `open` to that of `release`. -/
def openings (x : Concurrent) : ℕ := holders Call.stands (fun _ => true) x.files x.calls

/-- One of them is this user's. -/
def HasOpen (x : Concurrent) (cred : Cred) : Prop :=
  some cred ∈ x.files ∨ ∃ c ∈ x.calls, c.stands = some cred

/-- The counter does not go round. -/
def Few (x : Concurrent) (_ : Action) : Prop := x.openings < 4294967295

instance (x : Concurrent) (a : Action) : Decidable (Few x a) :=
  inferInstanceAs (Decidable (_ < _))

end Concurrent

/-- One of the ids of the one user is one of the other's. -/
def Shares (c d : Cred) : Prop :=
  ∃ id, (id = c.uid ∨ id = c.euid) ∧ (id = d.uid ∨ id = d.euid)

/-- The opening could go on. -/
def Admits (gate : Gate) (c : Call) : Prop :=
  match c.op with
  | .open cred _ => scullWAvailable gate cred = true
  | .release _ => False

/-- The device counts its openings, whose users have an id in common, unless they are allowed
to override this; and the next opening is let in if and only if nobody has the device open, or
the owner is its user. -/
structure Concurrent.Guarded (device : Device) (x : Concurrent) : Prop where
  count : x.gate.count = wrap32 x.openings
  share : ∀ c d, x.HasOpen c → x.HasOpen d → c.override = true ∨ d.override = true ∨ Shares c d
  grants : x.openings < 4294967295 → ∀ i cred nonblock,
    x.calls[i]? = some ⟨.open cred nonblock, .entering⟩ → ∀ signal x',
      x.step device (.next i signal) = .ok x' →
      (x'.calls[i]? = some ⟨.open cred nonblock, .granted⟩ ↔ x.openings = 0 ∨
        x.gate.owner = cred.uid ∨ x.gate.owner = cred.euid ∨ cred.override = true)

/-! ## What a step can do -/

namespace Concurrent

/-- Where an opening can get to without being let in: it goes to sleep when it has just seen
that it is not. -/
structure Waits (x : Concurrent) (cred : Cred) (stage : Stage) : Prop where
  notGranted : stage ≠ .granted
  asleep : stage = .asleep false → scullWAvailable x.gate cred = false

inductive Effect (device : Device) (x : Concurrent) : Action → Concurrent → Prop
  | stays (a : Action) : Effect device x a x
  | called (cred : Cred) (nonblock : Bool) :
      Effect device x (.call cred nonblock)
        { x with calls := x.calls ++ [⟨.open cred nonblock, .entering⟩] }
  | closed (fd : ℕ) (cred : Cred) (hfile : x.files[fd]? = some (some cred)) :
      Effect device x (.close fd) { x with
        files := x.files.set fd none
        calls := x.calls ++ [⟨.release cred, .entering⟩] }
  | granted (i : ℕ) (signal : Bool) (cred : Cred) (nonblock : Bool)
      (hc : x.calls[i]? = some ⟨.open cred nonblock, .entering⟩)
      (havailable : scullWAvailable x.gate cred = true) :
      Effect device x (.next i signal) { x.advance i ⟨.open cred nonblock, .entering⟩ .granted with
        gate := ⟨wrap32 (x.gate.count + 1), if x.gate.count = 0 then cred.uid else x.gate.owner⟩ }
  | opened (i : ℕ) (signal : Bool) (cred : Cred) (nonblock : Bool)
      (hc : x.calls[i]? = some ⟨.open cred nonblock, .granted⟩) :
      Effect device x (.next i signal)
        { x.advance i ⟨.open cred nonblock, .granted⟩ (.returned 0) with
          files := x.files ++ [some cred] }
  | waits (i : ℕ) (signal : Bool) (c : Call) (stage : Stage) (cred : Cred) (nonblock : Bool)
      (hc : x.calls[i]? = some c) (hop : c.op = .open cred nonblock) (hfrom : c.stage ≠ .granted)
      (hto : Waits x cred stage) : Effect device x (.next i signal) (x.advance i c stage)
  | released (i : ℕ) (signal : Bool) (cred : Cred)
      (hc : x.calls[i]? = some ⟨.release cred, .entering⟩) (stage : Stage)
      (hstage : stage ≠ .entering ∧ stage ≠ .asleep false)
      (hwaking : device = .scullwuid → wrap32 (x.gate.count - 1) = 0 → stage = .waking) :
      Effect device x (.next i signal) { x.advance i ⟨.release cred, .entering⟩ stage with
        gate := { x.gate with count := wrap32 (x.gate.count - 1) } }
  | wakes (i : ℕ) (signal : Bool) (cred : Cred)
      (hc : x.calls[i]? = some ⟨.release cred, .waking⟩) :
      Effect device x (.next i signal)
        { x with calls := (x.calls.set i ⟨.release cred, .returned 0⟩).map Call.wakeUp }

theorem waits_refused (device : Device) (x : Concurrent) (cred : Cred) (nonblock : Bool) :
    Waits x cred (refused device nonblock) := by
  unfold refused
  split
  · exact ⟨Stage.noConfusion, fun h => by cases h⟩
  · split_ifs <;> exact ⟨Stage.noConfusion, fun h => by cases h⟩

theorem release_stage (device : Device) (gate : Gate) :
    (release device gate).2 = .waking ∨ (release device gate).2 = .returned 0 := by
  cases device with
  | sculluid => exact .inr rfl
  | scullwuid => exact ite_eq_or_eq _ _ _

theorem next_of_available {device : Device} {x : Concurrent} {cred : Cred}
    (havailable : scullWAvailable x.gate cred = true) (i : ℕ) (nonblock signal : Bool) :
    x.next device i ⟨.open cred nonblock, .entering⟩ signal =
      { x.advance i ⟨.open cred nonblock, .entering⟩ .granted with
        gate := ⟨wrap32 (x.gate.count + 1),
          if x.gate.count = 0 then cred.uid else x.gate.owner⟩ } := by
  simp only [next, Device.enter_eq, scullWOpen, havailable, if_true]

theorem next_of_not_available {device : Device} {x : Concurrent} {cred : Cred}
    (havailable : ¬ scullWAvailable x.gate cred = true) (i : ℕ) (nonblock signal : Bool) :
    x.next device i ⟨.open cred nonblock, .entering⟩ signal =
      x.advance i ⟨.open cred nonblock, .entering⟩ (refused device nonblock) := by
  simp only [next, Device.enter_eq, scullWOpen, havailable, Bool.false_eq_true, if_false]

theorem effect_entering {device : Device} {x : Concurrent} {i : ℕ} {cred : Cred} {nonblock : Bool}
    (hc : x.calls[i]? = some ⟨.open cred nonblock, .entering⟩) (signal : Bool) :
    Effect device x (.next i signal)
      (x.next device i ⟨.open cred nonblock, .entering⟩ signal) := by
  by_cases havailable : scullWAvailable x.gate cred = true
  · rw [next_of_available havailable]
    exact .granted i signal cred nonblock hc havailable
  · rw [next_of_not_available havailable]
    exact .waits i signal _ _ cred nonblock hc rfl Stage.noConfusion
      (waits_refused device x cred nonblock)

/-- **One step.** -/
theorem effect {device : Device} {x x' : Concurrent} {a : Action}
    (hstep : x.step device a = .ok x') : Effect device x a x' := by
  cases a with
  | call cred nonblock => exact Except.ok.inj hstep ▸ .called cred nonblock
  | close fd =>
      simp only [step] at hstep
      split at hstep
      · rename_i cred hfile
        exact Except.ok.inj hstep ▸ .closed fd cred hfile
      · exact Except.ok.inj hstep ▸ .stays _
  | next i signal =>
      simp only [step] at hstep
      cases hc : x.calls[i]? with
      | none =>
          rw [hc] at hstep
          exact Except.ok.inj hstep ▸ .stays _
      | some c =>
          simp only [hc] at hstep
          obtain rfl := Except.ok.inj hstep
          obtain ⟨op, stage⟩ := c
          cases op with
          | «open» cred nonblock =>
              have hwaits : ∀ stage', stage ≠ .granted → Waits x cred stage' →
                  Effect device x (.next i signal)
                    (x.advance i ⟨.open cred nonblock, stage⟩ stage') :=
                fun stage' hfrom hto => .waits i signal _ stage' cred nonblock hc rfl hfrom hto
              cases stage with
              | entering => exact effect_entering hc signal
              | granted => exact .opened i signal cred nonblock hc
              | testing =>
                  refine hwaits _ Stage.noConfusion ?_
                  split_ifs <;> exact ⟨Stage.noConfusion, fun h => by cases h⟩
              | preparing =>
                  exact hwaits _ Stage.noConfusion ⟨Stage.noConfusion, fun h => by cases h⟩
              | queued woken =>
                  refine hwaits _ Stage.noConfusion ?_
                  split_ifs with havailable hsignal
                  · exact ⟨Stage.noConfusion, fun h => by cases h⟩
                  · exact ⟨Stage.noConfusion, fun h => by cases h⟩
                  · exact ⟨Stage.noConfusion, fun _ => Bool.eq_false_iff.mpr havailable⟩
              | asleep woken =>
                  simp only [next]
                  split_ifs
                  · exact hwaits _ Stage.noConfusion ⟨Stage.noConfusion, fun h => by cases h⟩
                  · exact .stays _
              | waking => exact .stays _
              | returned retval => exact .stays _
          | release cred =>
              cases stage with
              | entering =>
                  cases device with
                  | sculluid =>
                      exact .released i signal cred hc _ ⟨Stage.noConfusion, Stage.noConfusion⟩
                        fun h => by cases h
                  | scullwuid =>
                      refine .released i signal cred hc _ ?_ fun _ hzero => if_pos hzero
                      rcases release_stage .scullwuid x.gate with hstage | hstage
                      · rw [hstage]
                        exact ⟨Stage.noConfusion, Stage.noConfusion⟩
                      · rw [hstage]
                        exact ⟨Stage.noConfusion, Stage.noConfusion⟩
              | waking => exact .wakes i signal cred hc
              | _ => exact .stays _

end Concurrent

/-! ## Who has the device open -/

/-- The owner lets the user in. -/
def letsIn (owner : ℕ) (cred : Cred) : Bool :=
  owner = cred.uid ∨ owner = cred.euid ∨ cred.override = true

theorem scullWAvailable_iff {gate : Gate} {cred : Cred} :
    scullWAvailable gate cred = true ↔ gate.count = 0 ∨ letsIn gate.owner cred = true := by
  simp only [scullWAvailable, letsIn, decide_eq_true_eq]

namespace Concurrent

structure Counted (x : Concurrent) : Prop where
  few : x.openings ≤ 4294967295
  count : x.gate.count = wrap32 x.openings
  admitted : holders Call.stands (fun cred => !letsIn x.gate.owner cred) x.files x.calls = 0

section Steps

variable {device : Device} {x x' : Concurrent} {a : Action}

/-- The count is zero if and only if nobody has the device open. -/
theorem Counted.count_eq_zero_iff (counted : Counted x) : x.gate.count = 0 ↔ x.openings = 0 := by
  have hfew := counted.few
  rw [counted.count]
  unfold wrap32
  omega

/-- A step that does not change who has the device open. -/
theorem Counted.of_holders (counted : Counted x) (hgate : x'.gate = x.gate)
    (hholders : ∀ p, holders Call.stands p x'.files x'.calls =
      holders Call.stands p x.files x.calls) : Counted x' := by
  have hopenings : x'.openings = x.openings := hholders _
  refine ⟨hopenings ▸ counted.few, ?_, ?_⟩
  · rw [hgate, hopenings, counted.count]
  · rw [hgate, hholders]
    exact counted.admitted

theorem stands_wakeUp (c : Call) : c.wakeUp.stands = c.stands := by
  obtain ⟨op, stage⟩ := c
  cases stage <;> cases op <;> rfl

/-- An opening is let in: it finds nobody, or the owner lets it in. -/
theorem Counted.granted (counted : Counted x) (hfew : x.openings < 4294967295) {i : ℕ} {cred : Cred}
    {nonblock : Bool} (hc : x.calls[i]? = some ⟨.open cred nonblock, .entering⟩)
    (havailable : scullWAvailable x.gate cred = true)
    (hcalls : x'.calls = x.calls.set i ⟨.open cred nonblock, .granted⟩)
    (hfiles : x'.files = x.files)
    (hgate : x'.gate = ⟨wrap32 (x.gate.count + 1),
      if x.gate.count = 0 then cred.uid else x.gate.owner⟩) : Counted x' := by
  have hset : ∀ p, holders Call.stands p x'.files x'.calls =
      holders Call.stands p x.files x.calls + if p cred then 1 else 0 := by
    intro p
    rw [hcalls, hfiles]
    exact @holders_set _ _ Call.stands _ _ _ _ _ hc ⟨.open cred nonblock, .granted⟩
  have hone : x'.openings = x.openings + 1 := hset fun _ => true
  refine ⟨by omega, ?_, ?_⟩
  · rw [hgate, hone, counted.count]
    show wrap32 (wrap32 x.openings + 1) = _
    unfold wrap32
    omega
  · rw [hset, hgate]
    dsimp only
    by_cases hzero : x.gate.count = 0
    · have hnobody := counted.count_eq_zero_iff.mp hzero
      have hnone : holders Call.stands (fun user => !letsIn cred.uid user) x.files x.calls = 0 :=
        Nat.le_zero.mp ((holders_mono fun _ _ => rfl).trans hnobody.le)
      rw [if_pos hzero, hnone, if_neg (by simp [letsIn])]
    · have hin := (scullWAvailable_iff.mp havailable).resolve_left hzero
      rw [if_neg hzero, counted.admitted, if_neg (by simp [hin])]

/-- A release. -/
theorem Counted.released (counted : Counted x) {i : ℕ} {cred : Cred}
    (hc : x.calls[i]? = some ⟨.release cred, .entering⟩) {stage : Stage}
    (hstage : stage ≠ .entering)
    (hcalls : x'.calls = x.calls.set i ⟨.release cred, stage⟩) (hfiles : x'.files = x.files)
    (hgate : x'.gate = { x.gate with count := wrap32 (x.gate.count - 1) }) : Counted x' := by
  have hnone : Call.stands ⟨.release cred, stage⟩ = none := by
    cases stage <;> first | rfl | exact absurd rfl hstage
  have hset : ∀ p, holders Call.stands p x'.files x'.calls + (if p cred then 1 else 0) =
      holders Call.stands p x.files x.calls := by
    intro p
    have hset := @holders_set _ _ Call.stands p x.files _ _ _ hc ⟨.release cred, stage⟩
    rw [hnone] at hset
    rw [hcalls, hfiles]
    exact hset
  have hone : x'.openings + 1 = x.openings := hset fun _ => true
  have hfew := counted.few
  refine ⟨by omega, ?_, ?_⟩
  · rw [hgate, counted.count, ← hone]
    dsimp only
    unfold wrap32
    omega
  · have hsame := hset fun user => !letsIn x.gate.owner user
    rw [counted.admitted] at hsame
    rw [hgate]
    dsimp only
    omega

theorem Counted.effect (counted : Counted x) (hfew : Few x a) (heffect : Effect device x a x') :
    Counted x' := by
  cases heffect with
  | stays => exact counted
  | called cred nonblock => exact counted.of_holders rfl fun p => holders_concat rfl
  | closed fd cred hfile => exact counted.of_holders rfl fun p => holders_close hfile rfl
  | granted i signal cred nonblock hc havailable =>
      exact counted.granted hfew hc havailable rfl rfl rfl
  | opened i signal cred nonblock hc =>
      exact counted.of_holders rfl fun p => holders_open hc rfl rfl
  | waits i signal c stage cred nonblock hc hop hfrom hto =>
      have hnone : ∀ stage : Stage, stage ≠ .granted → Call.stands ⟨c.op, stage⟩ = none := by
        intro stage hstage
        rw [hop]
        cases stage <;> first | rfl | exact absurd rfl hstage
      refine counted.of_holders rfl fun p => holders_set_of_eq hc ?_
      exact (hnone stage hto.notGranted).trans (hnone c.stage hfrom).symm
  | released i signal cred hc stage hstage => exact counted.released hc hstage.1 rfl rfl rfl
  | wakes i signal cred hc =>
      refine counted.of_holders rfl fun p => ?_
      exact (holders_map stands_wakeUp).trans (holders_set_of_eq hc rfl)

theorem Counted.init : Counted init where
  few := Nat.zero_le _
  count := by decide
  admitted := by decide

theorem Counted.letsIn (counted : Counted x) {cred : Cred} (hopen : x.HasOpen cred) :
    letsIn x.gate.owner cred = true := by
  by_contra hout
  have hp : (!Owner.letsIn x.gate.owner cred) = true := by simpa using hout
  have hadmitted := counted.admitted
  rcases hopen with hfile | ⟨c, hc, hstands⟩
  · exact (holders_pos_of_file hfile hp).ne' hadmitted
  · exact (holders_pos_of_call hc hstands hp).ne' hadmitted

theorem Counted.guarded (counted : Counted x) : x.Guarded device where
  count := counted.count
  share := by
    intro c d hc hd
    have hcin := counted.letsIn hc
    have hdin := counted.letsIn hd
    simp only [Owner.letsIn, decide_eq_true_eq] at hcin hdin
    by_cases hcover : c.override = true
    · exact .inl hcover
    by_cases hdover : d.override = true
    · exact .inr (.inl hdover)
    refine .inr (.inr ⟨x.gate.owner, ?_, ?_⟩)
    · exact hcin.imp_right fun h => h.resolve_right hcover
    · exact hdin.imp_right fun h => h.resolve_right hdover
  grants := by
    intro hfew i cred nonblock hc signal x' hstep
    have hi := (List.getElem?_eq_some_iff.mp hc).1
    have hiff : scullWAvailable x.gate cred = true ↔ x.openings = 0 ∨ x.gate.owner = cred.uid ∨
        x.gate.owner = cred.euid ∨ cred.override = true := by
      rw [scullWAvailable_iff, counted.count_eq_zero_iff]
      simp only [Owner.letsIn, decide_eq_true_eq]
    rw [← hiff]
    simp only [step, hc] at hstep
    obtain rfl := Except.ok.inj hstep
    by_cases havailable : scullWAvailable x.gate cred = true
    · rw [next_of_available havailable]
      exact iff_of_true (List.getElem?_set_self hi) havailable
    · rw [next_of_not_available havailable]
      refine iff_of_false ?_ havailable
      show ¬ (x.calls.set i _)[i]? = _
      rw [List.getElem?_set_self hi]
      intro h
      exact (waits_refused device x cred nonblock).notGranted
        (congrArg Call.stage (Option.some.inj h))

/-! ## Who sleeps -/

/-- A sleeper that the device would let in is about to be woken up. -/
def Watched (x : Concurrent) : Prop := Awaited Call.sleeps Call.wakes (Admits x.gate) x.calls

theorem sleeps_wakeUp (c : Call) : c.wakeUp.sleeps = false := by
  obtain ⟨op, stage⟩ := c
  cases stage <;> rfl

theorem wakes_of_open {c : Call} {cred : Cred} {nonblock : Bool}
    (hop : c.op = .open cred nonblock) : c.wakes = false := by
  rw [Call.wakes, hop]

theorem sleeps_of_ne {op : Op} {stage : Stage} (h : stage ≠ .asleep false) :
    Call.sleeps ⟨op, stage⟩ = false := decide_eq_false h

/-- Whoever the device lets in with an owner who has it open is let in by the owner. -/
theorem Admits.mono {gate gate' : Gate} {c : Call} (h : Admits gate' c)
    (howner : gate'.owner = gate.owner) (hcount : gate'.count = 0 → gate.count = 0) :
    Admits gate c := by
  obtain ⟨op, stage⟩ := c
  cases op with
  | «open» cred nonblock =>
      have h' : scullWAvailable gate' cred = true := h
      show scullWAvailable gate cred = true
      rw [scullWAvailable_iff] at h' ⊢
      rw [howner] at h'
      exact h'.imp_left hcount
  | release cred => exact h.elim

/-- Everybody is let in when the count is zero. -/
theorem admits_of_zero {gate : Gate} (hzero : gate.count = 0) {c : Call} {gate' : Gate}
    (h : Admits gate' c) : Admits gate c := by
  obtain ⟨op, stage⟩ := c
  cases op with
  | «open» cred nonblock => exact scullWAvailable_iff.mpr (.inl hzero)
  | release cred => exact h.elim

theorem Watched.effect (watched : x.Watched) (counted : Counted x) (hfew : Few x a)
    (heffect : Effect .scullwuid x a x') : x'.Watched := by
  cases heffect with
  | stays => exact watched
  | called cred nonblock => exact Awaited.concat watched rfl
  | closed fd cred hfile => exact Awaited.concat watched rfl
  | granted i signal cred nonblock hc havailable =>
      refine Awaited.set watched hc (fun d _ _ hd => .inl ?_) (fun h => by cases h)
        (fun h => by cases h)
      by_cases hzero : x.gate.count = 0
      · exact admits_of_zero hzero hd
      · -- the new count is not zero, and the owner is the old one
        refine Admits.mono hd (if_neg hzero) fun hnew => ?_
        have hcount := counted.count
        have hopenings : x.openings ≠ 0 := fun h => hzero (counted.count_eq_zero_iff.mpr h)
        unfold Few at hfew
        change wrap32 (x.gate.count + 1) = 0 at hnew
        rw [hcount] at hnew
        unfold wrap32 at hnew
        omega
  | opened i signal cred nonblock hc =>
      exact Awaited.set watched hc (fun d _ _ hd => .inl hd) (fun h => by cases h)
        (fun h => by cases h)
  | waits i signal c stage cred nonblock hc hop hfrom hto =>
      refine Awaited.set watched hc (fun d _ _ hd => .inl hd) ?_ ?_
      · intro hsleeps hadmits
        have hclosed := hto.asleep (of_decide_eq_true hsleeps)
        rw [Admits, hop] at hadmits
        exact absurd hadmits (Bool.eq_false_iff.mp hclosed)
      · intro hwakes
        rw [wakes_of_open hop] at hwakes
        cases hwakes
  | released i signal cred hc stage hstage hwaking =>
      refine Awaited.set watched hc ?_ ?_ (fun h => by cases h)
      · intro d _ _ hd
        by_cases hzero : wrap32 (x.gate.count - 1) = 0
        · right
          rw [hwaking rfl hzero]
          rfl
        · exact .inl (Admits.mono hd rfl fun h => absurd h hzero)
      · intro hsleeps
        rw [sleeps_of_ne hstage.2] at hsleeps
        cases hsleeps
  | wakes i signal cred hc =>
      refine Awaited.of_awake fun d hd => ?_
      obtain ⟨c, -, rfl⟩ := List.mem_map.mp hd
      exact sleeps_wakeUp c

end Steps

/-! ## Runs -/

theorem step_ok (device : Device) (x : Concurrent) (a : Action) :
    ∃ x', x.step device a = .ok x' := by
  cases a with
  | call cred nonblock => exact ⟨_, rfl⟩
  | close fd =>
      simp only [step]
      split <;> exact ⟨_, rfl⟩
  | next i signal =>
      simp only [step]
      split <;> exact ⟨_, rfl⟩

/-- **The users of a device have an id in common.**  Take any calls of `sculluid`, or of
`scullwuid`, in any interleaving of their steps, as long as the counter does not go round.  In
every state the device counts its openings, those included that are about to return or to be
released; any two users who have it open share an id, real or effective, if neither has the
capability to override that; and an opening is let in if and only if nobody has the device, or
one of its ids is the owner's, or it has that capability. -/
theorem users_share (device : Device) (actions : List Action)
    (hfew : EveryStep (step device) Few init actions) :
    EveryState (step device) (Guarded device) init actions := by
  have hcounted : EveryState (step device) Counted init actions :=
    hfew.everyState (fun x a counted hfew => by
      obtain ⟨x', hx'⟩ := step_ok device x a
      exact ⟨x', hx', counted.effect hfew (effect hx')⟩) Counted.init
  exact hcounted.mono fun _ counted => counted.guarded

/-- Another user waits, and is woken up when the first has released the device. -/
def changing : List Action :=
  [.call ⟨1, 1, false⟩ false, .next 0 false, .next 0 false,
    .call ⟨2, 2, false⟩ false, .next 1 false, .next 1 false, .next 1 false, .next 1 false,
    .close 0, .next 2 false, .next 2 false, .next 1 false, .next 1 false, .next 1 false,
    .next 1 false, .next 1 false]

theorem users_share_changing :
    EveryState (step .scullwuid) (Guarded .scullwuid) init changing :=
  users_share .scullwuid changing (by decide)

/-- **No sleeper is forgotten.**  In every run of calls of `scullwuid`, as long as the counter
does not go round, whoever sleeps although the device would let it in, because it is free or
belongs to one of its ids by now, is about to be woken up by a release. -/
theorem no_sleeper_forgotten (actions : List Action)
    (hfew : EveryStep (step .scullwuid) Few init actions) :
    EveryState (step .scullwuid) Watched init actions := by
  have hboth : EveryState (step .scullwuid) (fun x => Counted x ∧ x.Watched) init actions :=
    hfew.everyState (fun x a ⟨counted, watched⟩ hfew => by
      obtain ⟨x', hx'⟩ := step_ok .scullwuid x a
      exact ⟨x', hx', counted.effect hfew (effect hx'), watched.effect counted hfew (effect hx')⟩)
      ⟨Counted.init, fun _ h => by cases h⟩
  exact hboth.mono fun _ h => h.2

theorem no_sleeper_forgotten_changing :
    EveryState (step .scullwuid) Watched init changing :=
  no_sleeper_forgotten changing (by decide)

example : (changing.foldlM (step .scullwuid) init).map (fun x => (x.gate, x.calls.map Call.stage)) =
    .ok (⟨1, 2⟩, [.returned 0, .returned 0, .returned 0]) := by decide

end Concurrent

end Owner

end KernelTraining.Access
