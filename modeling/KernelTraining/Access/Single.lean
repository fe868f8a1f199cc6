import KernelTraining.Machine.Openings
import KernelTraining.Machine.Run
import KernelTraining.Machine.UserCopy
import KernelTraining.Machine.Words

/-!
# The single-open device

`scull_s_open` counts `scull_s_available` down, and takes the count back if that has not made
it zero: no lock is held from one to the other, so other calls see the count of somebody who
is about to be refused.  Whoever gets the device for writing trims it, without the semaphore
of the device, which the transfers through its files hold.  (That semaphore orders the
transfers among themselves only, and is left out here.)

So the counter alone has to see to it that nobody else works on the device meanwhile
(`single_exclusive`).  What it costs is that an opening is also refused while somebody else
is being refused.

## Strategy

The counter is one less the openings that have the device, and less those that are being
refused, from the moment they have counted down until they count up again (`Counted`).  Each
step of a call changes the counter by what it changes the `weight` of that call
(`Counted.next`); an opening that returns hands its weight over to its file
(`Counted.opened`).

* The counter gets to zero for an opening exactly if there is neither an opening nor a refusal
  (`Counted.wrap32_eq_zero_iff`).  So a second opening is never let in, and there is no need
  to look at the order of the steps that were made before.
* A call that trims the device stands for an opening, and a transfer needs a file that stands
  for one.  As there is one opening at most, the two do not meet (`Counted.exclusive`).
* The counter goes round, and a zero could then be that of 2^32 refusals.  `Few` bounds them
  before a step.
-/

namespace KernelTraining.Access

open Machine

namespace Single

/-- The openings and closings, and the reads and writes through a file. -/
inductive Op where
  | open (wronly : Bool)
  | release
  | transfer (fd : ℕ)
  deriving DecidableEq

/-- Where a call is in the code. -/
inductive Stage where
  /-- `atomic_dec_and_test`, `atomic_inc` of a release, or a section comes next. -/
  | entering
  /-- `atomic_inc` of an opening comes next. -/
  | refused
  /-- The device is open, and is being trimmed if the file is write-only. -/
  | granted
  /-- In the section of a transfer. -/
  | inside
  | returned (retval : ℤ)
  deriving DecidableEq

structure Call where
  op : Op
  stage : Stage
  deriving DecidableEq

def Call.busy (c : Call) : Bool :=
  match c.stage with
  | .returned _ => false
  | _ => true

/-- The calls that stand for an open file. -/
def Call.stands (c : Call) : Option Unit :=
  match c.op, c.stage with
  | .open _, .granted => some ()
  | .release, .entering => some ()
  | _, _ => none

/-- `scull_trim` without the semaphore. -/
def Call.trims (c : Call) : Bool := decide (c = ⟨.open true, .granted⟩)

/-- The call works on the data. -/
def Call.transfers (c : Call) : Bool := decide (c.stage = .inside)

/-- `scull_s_available`, the files, which are `none` when they have been closed, and the
calls. -/
structure Concurrent where
  available : ℤ
  files : List (Option Unit)
  calls : List Call

/-- A call is made, a file closed, or call `i` makes its next step. -/
inductive Action where
  | call (op : Op)
  | close (fd : ℕ)
  | next (i : ℕ)

namespace Concurrent

def init : Concurrent := ⟨1, [], []⟩

/-- Transfers are made through open files, and the VFS releases by itself. -/
def admits (x : Concurrent) : Op → Bool
  | .open _ => true
  | .release => false
  | .transfer fd => x.files[fd]? = some (some ())

def advance (x : Concurrent) (i : ℕ) (c : Call) (stage : Stage) : Concurrent :=
  { x with calls := x.calls.set i { c with stage := stage } }

/-- The next step of call `i`, which is `c`. -/
def next (x : Concurrent) (i : ℕ) (c : Call) : Concurrent :=
  match c.op, c.stage with
  | .open _, .entering =>
      let available := wrap32 (x.available - 1)
      { x.advance i c (if available = 0 then .granted else .refused) with available := available }
  | .open _, .refused =>
      { x.advance i c (.returned (-EBUSY)) with available := wrap32 (x.available + 1) }
  | .open _, .granted =>
      { x.advance i c (.returned 0) with files := x.files ++ [some ()] }
  | .release, .entering =>
      { x.advance i c (.returned 0) with available := wrap32 (x.available + 1) }
  | .transfer _, .entering => x.advance i c .inside
  | .transfer _, .inside => x.advance i c (.returned 0)
  | _, _ => x

def step (x : Concurrent) : Action → Except Fault Concurrent
  | .call op => .ok (if x.admits op then { x with calls := x.calls ++ [⟨op, .entering⟩] } else x)
  | .close fd =>
      match x.files[fd]? with
      | some (some ()) =>
          -- the file is released when the last call through it has returned
          if ∃ c ∈ x.calls, c.busy = true ∧ c.op = .transfer fd then .ok x
          else .ok { x with
            files := x.files.set fd none
            calls := x.calls ++ [⟨.release, .entering⟩] }
      | _ => .ok x
  | .next i =>
      match x.calls[i]? with
      | none => .ok x
      | some c => .ok (x.next i c)

/-- Who has the device open. -/
def openings (x : Concurrent) : ℕ := holders Call.stands (fun _ => true) x.files x.calls

/-- Who has been refused and has not taken the count back yet. -/
def refusals (x : Concurrent) : ℕ := x.calls.countP fun c => decide (c.stage = .refused)

/-- The counter does not go round. -/
def Few (x : Concurrent) (_ : Action) : Prop := x.refusals < 4294967295

instance (x : Concurrent) (a : Action) : Decidable (Few x a) :=
  inferInstanceAs (Decidable (_ < _))

/-- One opening at most, which works on the device alone; and the next opening gets the
device if and only if nobody has it and nobody is being refused. -/
structure Exclusive (x : Concurrent) : Prop where
  single : x.openings ≤ 1
  alone : ∀ c ∈ x.calls, c.trims = true → ∀ d ∈ x.calls, d.transfers = false
  available : x.available = wrap32 (1 - x.openings - x.refusals)
  grants : x.refusals < 4294967295 → ∀ i wronly, x.calls[i]? = some ⟨.open wronly, .entering⟩ →
    ∀ x', x.step (.next i) = .ok x' →
      (x'.calls[i]? = some ⟨.open wronly, .granted⟩ ↔ x.openings = 0 ∧ x.refusals = 0)

/-! ## What a step can do -/

inductive Effect (x : Concurrent) : Action → Concurrent → Prop
  | stays (a : Action) : Effect x a x
  | called (op : Op) (hadmits : x.admits op = true) :
      Effect x (.call op) { x with calls := x.calls ++ [⟨op, .entering⟩] }
  | closed (fd : ℕ) (hfile : x.files[fd]? = some (some ()))
      (hidle : ∀ c ∈ x.calls, c.busy = true → c.op ≠ .transfer fd) :
      Effect x (.close fd) { x with
        files := x.files.set fd none
        calls := x.calls ++ [⟨.release, .entering⟩] }
  | granted (i : ℕ) (wronly : Bool) (hc : x.calls[i]? = some ⟨.open wronly, .entering⟩)
      (hzero : wrap32 (x.available - 1) = 0) :
      Effect x (.next i)
        { x.advance i ⟨.open wronly, .entering⟩ .granted with
          available := wrap32 (x.available - 1) }
  | refused (i : ℕ) (wronly : Bool) (hc : x.calls[i]? = some ⟨.open wronly, .entering⟩)
      (hne : wrap32 (x.available - 1) ≠ 0) :
      Effect x (.next i)
        { x.advance i ⟨.open wronly, .entering⟩ .refused with
          available := wrap32 (x.available - 1) }
  | takenBack (i : ℕ) (wronly : Bool) (hc : x.calls[i]? = some ⟨.open wronly, .refused⟩) :
      Effect x (.next i) { x.advance i ⟨.open wronly, .refused⟩ (.returned (-EBUSY)) with
        available := wrap32 (x.available + 1) }
  | opened (i : ℕ) (wronly : Bool) (hc : x.calls[i]? = some ⟨.open wronly, .granted⟩) :
      Effect x (.next i) { x.advance i ⟨.open wronly, .granted⟩ (.returned 0) with
        files := x.files ++ [some ()] }
  | released (i : ℕ) (hc : x.calls[i]? = some ⟨.release, .entering⟩) :
      Effect x (.next i) { x.advance i ⟨.release, .entering⟩ (.returned 0) with
        available := wrap32 (x.available + 1) }
  /-- A transfer enters its section, or leaves it. -/
  | moves (i fd : ℕ) (c : Call) (stage : Stage) (hc : x.calls[i]? = some c)
      (hop : c.op = .transfer fd) (hbusy : c.busy = true)
      (hstage : stage = .inside ∨ stage = .returned 0)
      (hfrom : c.stage ≠ .refused) : Effect x (.next i) (x.advance i c stage)

/-- **One step.** -/
theorem effect {x x' : Concurrent} {a : Action} (hstep : x.step a = .ok x') : Effect x a x' := by
  cases a with
  | call op =>
      obtain rfl := Except.ok.inj hstep
      split_ifs with hadmits
      · exact .called op hadmits
      · exact .stays _
  | close fd =>
      simp only [step] at hstep
      split at hstep
      · rename_i hfile
        split_ifs at hstep with hbusy
        · exact Except.ok.inj hstep ▸ .stays _
        · obtain rfl := Except.ok.inj hstep
          exact .closed fd hfile fun c hc hb hop => hbusy ⟨c, hc, hb, hop⟩
      · exact Except.ok.inj hstep ▸ .stays _
  | next i =>
      simp only [step] at hstep
      cases hc : x.calls[i]? with
      | none =>
          rw [hc] at hstep
          exact Except.ok.inj hstep ▸ .stays _
      | some c =>
          simp only [hc] at hstep
          obtain rfl := Except.ok.inj hstep
          obtain ⟨op, stage⟩ := c
          cases op with
          | «open» wronly =>
              cases stage with
              | entering =>
                  simp only [next]
                  split_ifs with hzero
                  · exact .granted i wronly hc hzero
                  · exact .refused i wronly hc hzero
              | refused => exact .takenBack i wronly hc
              | granted => exact .opened i wronly hc
              | inside => exact .stays _
              | returned retval => exact .stays _
          | release =>
              cases stage with
              | entering => exact .released i hc
              | _ => exact .stays _
          | transfer fd =>
              cases stage with
              | entering => exact .moves i fd _ _ hc rfl rfl (.inl rfl) Stage.noConfusion
              | inside => exact .moves i fd _ _ hc rfl rfl (.inr rfl) Stage.noConfusion
              | _ => exact .stays _

/-! ## The invariant -/

structure Counted (x : Concurrent) : Prop where
  few : x.refusals ≤ 4294967295
  single : x.openings ≤ 1
  available : x.available = wrap32 (1 - x.openings - x.refusals)
  users : ∀ c ∈ x.calls, c.busy = true → ∀ fd, c.op = .transfer fd → x.files[fd]? = some (some ())
  inside : ∀ c ∈ x.calls, c.stage = .inside → ∃ fd, c.op = .transfer fd

section Steps

variable {x x' : Concurrent} {a : Action} {i : ℕ} {c : Call} {stage : Stage}

/-- What a call takes off the counter. -/
def weight (c : Call) : ℤ :=
  (if c.stands.isSome then 1 else 0) + if c.stage = .refused then 1 else 0

/-- What the counter is after some more or less. -/
theorem wrap32_add (x y : ℤ) : wrap32 (wrap32 x + y) = wrap32 (x + y) := by
  unfold wrap32
  omega

/-- A step of one call that neither opens nor closes a file. -/
theorem Counted.next (counted : Counted x) (hc : x.calls[i]? = some c) (hbusy : c.busy = true)
    (hcalls : x'.calls = x.calls.set i { c with stage := stage }) (hfiles : x'.files = x.files)
    (hgranted : (Call.stands { c with stage := stage }).isSome → c.stands.isSome ∨ x.openings = 0)
    (hrefused : stage = .refused → x.refusals < 4294967295)
    (havailable : x'.available =
      wrap32 (x.available + (weight c - weight { c with stage := stage })))
    (hinside : stage = .inside → ∃ fd, c.op = .transfer fd) : Counted x' := by
  have hisSome : ∀ m : Option Unit, (m.any fun _ => true) = m.isSome := fun m => by cases m <;> rfl
  have hopenings : x'.openings + (if c.stands.isSome then 1 else 0) =
      x.openings + if (Call.stands { c with stage := stage }).isSome then 1 else 0 := by
    unfold openings
    rw [hcalls, hfiles, ← hisSome, ← hisSome]
    exact holders_set hc _
  have hrefusals : x'.refusals + (if c.stage = .refused then 1 else 0) =
      x.refusals + if stage = .refused then 1 else 0 := by
    have hset := countP_set hc { c with stage := stage } fun c => decide (c.stage = .refused)
    simp only [decide_eq_true_eq] at hset
    rw [refusals, hcalls]
    exact hset
  have hsingle := counted.single
  have hfew := counted.few
  refine ⟨?_, ?_, ?_, ?_, ?_⟩
  · by_cases hstage : stage = .refused
    · have hlt := hrefused hstage
      rw [if_pos hstage] at hrefusals
      omega
    · rw [if_neg hstage] at hrefusals
      omega
  · by_cases hstands : (Call.stands { c with stage := stage }).isSome
    · rw [if_pos hstands] at hopenings
      rcases hgranted hstands with hbefore | hnobody
      · rw [if_pos hbefore] at hopenings
        omega
      · omega
    · rw [if_neg hstands] at hopenings
      omega
  · rw [havailable, counted.available, wrap32_add]
    congr 1
    unfold weight
    split_ifs at hopenings hrefusals ⊢ <;> omega
  · intro d hd hbusy' fd hop
    rw [hcalls] at hd
    rw [hfiles]
    rcases List.mem_or_eq_of_mem_set hd with hold | rfl
    · exact counted.users d hold hbusy' fd hop
    · exact counted.users c (List.mem_of_getElem? hc) hbusy fd hop
  · intro d hd hstage
    rw [hcalls] at hd
    rcases List.mem_or_eq_of_mem_set hd with hold | rfl
    · exact counted.inside d hold hstage
    · exact hinside hstage

/-- A new call. -/
theorem Counted.concat (counted : Counted x) {op : Op}
    (hcalls : x'.calls = x.calls ++ [⟨op, .entering⟩]) (havailable : x'.available = x.available)
    (hopenings : x'.openings = x.openings)
    (hfiles : ∀ c ∈ x.calls, c.busy = true → ∀ fd, c.op = .transfer fd →
      x'.files[fd]? = x.files[fd]?)
    (hadmits : ∀ fd, op = .transfer fd → x'.files[fd]? = some (some ())) : Counted x' := by
  have hrefusals : x'.refusals = x.refusals := by
    unfold refusals
    rw [hcalls, List.countP_append]
    rfl
  refine ⟨hrefusals ▸ counted.few, hopenings ▸ counted.single, ?_, ?_, ?_⟩
  · rw [havailable, hopenings, hrefusals, counted.available]
  · intro d hd hbusy fd hop
    rw [hcalls] at hd
    rcases List.mem_append.mp hd with hold | hnew
    · rw [hfiles d hold hbusy fd hop]
      exact counted.users d hold hbusy fd hop
    · obtain rfl := List.mem_singleton.mp hnew
      exact hadmits fd hop
  · intro d hd hstage
    rw [hcalls] at hd
    rcases List.mem_append.mp hd with hold | hnew
    · exact counted.inside d hold hstage
    · rw [List.mem_singleton.mp hnew] at hstage
      cases hstage

/-- An opening returns, and the file is there instead. -/
theorem Counted.opened (counted : Counted x) {wronly : Bool}
    (hc : x.calls[i]? = some ⟨.open wronly, .granted⟩) :
    Counted { x.advance i ⟨.open wronly, .granted⟩ (.returned 0) with
      files := x.files ++ [some ()] } := by
  have hopenings : ({ x.advance i ⟨.open wronly, .granted⟩ (.returned 0) with
      files := x.files ++ [some ()] } : Concurrent).openings = x.openings :=
    holders_open hc rfl rfl
  have hrefusals : ({ x.advance i ⟨.open wronly, .granted⟩ (.returned 0) with
      files := x.files ++ [some ()] } : Concurrent).refusals = x.refusals :=
    countP_set_of_eq (p := fun c => decide (c.stage = .refused)) hc rfl
  refine ⟨hrefusals ▸ counted.few, hopenings ▸ counted.single, ?_, ?_, ?_⟩
  · rw [hopenings, hrefusals]
    exact counted.available
  · intro d hd hbusy fd hop
    rcases List.mem_or_eq_of_mem_set hd with hold | rfl
    · have hfile := counted.users d hold hbusy fd hop
      show (x.files ++ [some ()])[fd]? = _
      rwa [List.getElem?_append_left (List.getElem?_eq_some_iff.mp hfile).1]
    · cases hbusy
  · intro d hd hstage
    rcases List.mem_or_eq_of_mem_set hd with hold | rfl
    · exact counted.inside d hold hstage
    · cases hstage

/-- The counter gets to zero for an opening if and only if there is nobody else. -/
theorem Counted.wrap32_eq_zero_iff (counted : Counted x) (hfew : x.refusals < 4294967295) :
    wrap32 (x.available - 1) = 0 ↔ x.openings = 0 ∧ x.refusals = 0 := by
  have hsingle := counted.single
  rw [counted.available]
  unfold wrap32
  omega

theorem Counted.exclusive (counted : Counted x) : x.Exclusive where
  single := counted.single
  available := counted.available
  grants := by
    intro hfew i wronly hc x' hstep
    have hi := (List.getElem?_eq_some_iff.mp hc).1
    rw [← counted.wrap32_eq_zero_iff hfew]
    simp only [step, hc] at hstep
    obtain rfl := Except.ok.inj hstep
    show (x.calls.set i _)[i]? = _ ↔ _
    rw [List.getElem?_set_self hi]
    split_ifs with hzero
    · exact iff_of_true rfl hzero
    · exact iff_of_false (fun h => by cases h) hzero
  alone := by
    intro c hc htrims d hd
    obtain rfl := of_decide_eq_true htrims
    by_contra hinside
    rw [Bool.not_eq_false] at hinside
    have hstage : d.stage = .inside := of_decide_eq_true hinside
    obtain ⟨fd, hop⟩ := counted.inside d hd hstage
    have hfile := counted.users d hd (by rw [Call.busy, hstage]) fd hop
    -- the file of the transfer and the opening are two
    have hfiles : 0 < x.files.countP (Option.any fun _ => true) :=
      List.countP_pos_iff.mpr ⟨some (), List.mem_of_getElem? hfile, rfl⟩
    have hcalls : 0 < x.calls.countP fun c => c.stands.any fun _ => true :=
      List.countP_pos_iff.mpr ⟨_, hc, rfl⟩
    have hsingle := counted.single
    unfold openings holders at hsingle
    omega

theorem Counted.effect (counted : Counted x) (hfew : Few x a) (heffect : Effect x a x') :
    Counted x' := by
  cases heffect with
  | stays => exact counted
  | called op hadmits =>
      have hnone : Call.stands ⟨op, .entering⟩ = none := by
        cases op with
        | release => cases hadmits
        | _ => rfl
      refine counted.concat rfl rfl (holders_concat hnone) (fun _ _ _ _ _ => rfl) ?_
      rintro fd rfl
      exact of_decide_eq_true hadmits
  | closed fd hfile hidle =>
      refine counted.concat rfl rfl (holders_close hfile rfl) ?_ fun fd h => by cases h
      intro c hc hbusy fd' hop
      have hne : fd ≠ fd' := fun h => hidle c hc hbusy (h ▸ hop)
      exact List.getElem?_set_ne hne
  | granted i wronly hc hzero =>
      have hnobody := (counted.wrap32_eq_zero_iff hfew).mp hzero
      exact counted.next hc rfl rfl rfl (fun _ => .inr hnobody.1) (fun h => by cases h)
        (congrArg wrap32 (Int.sub_eq_add_neg)) (fun h => by cases h)
  | refused i wronly hc hne =>
      exact counted.next hc rfl rfl rfl (fun h => by cases h) (fun _ => hfew)
        (congrArg wrap32 (Int.sub_eq_add_neg)) (fun h => by cases h)
  | takenBack i wronly hc =>
      exact counted.next hc rfl rfl rfl (fun h => by cases h) (fun h => by cases h) rfl
        (fun h => by cases h)
  | opened i wronly hc => exact counted.opened hc
  | released i hc =>
      exact counted.next hc rfl rfl rfl (fun h => by cases h) (fun h => by cases h) rfl
        (fun h => by cases h)
  | moves i fd c stage hc hop hbusy hstage hfrom =>
      have hstands : ∀ stage, Call.stands ⟨c.op, stage⟩ = none := fun stage => by
        rw [hop]
        rfl
      have hnone : Call.stands { c with stage := stage } = none := hstands stage
      have hweight : weight c - weight { c with stage := stage } = 0 := by
        have hbefore : c.stands = none := hstands c.stage
        unfold weight
        rw [hnone, hbefore, if_neg hfrom]
        rcases hstage with rfl | rfl <;> rfl
      refine counted.next hc hbusy rfl rfl (fun h => ?_) (fun h => ?_) ?_ (fun _ => ⟨fd, hop⟩)
      · rw [hnone] at h
        cases h
      · rcases hstage with rfl | rfl <;> cases h
      · rw [hweight]
        show x.available = _
        rw [counted.available, wrap32_add, add_zero]

theorem Counted.init : Counted init where
  few := by decide
  single := by decide
  available := rfl
  users := fun _ h => by cases h
  inside := fun _ h => by cases h

end Steps

/-- **One opening at a time, without a lock.**  Whatever the calls and the order of their
steps, as long as the counter does not go round, in every state at most one opening has the
device, files that are about to be released included, and while it trims the device no transfer
is in its section.  The counter is one less for the opening and for everybody who is being
refused, so that the next opening gets the device if and only if there is neither. -/
theorem single_exclusive (actions : List Action) (hfew : EveryStep step Few init actions) :
    EveryState step Exclusive init actions := by
  have hcounted : EveryState step Counted init actions :=
    hfew.everyState (fun x a counted hfew => by
      obtain ⟨x', hx'⟩ : ∃ x', x.step a = .ok x' := by
        cases a with
        | call op => exact ⟨_, rfl⟩
        | close fd =>
            simp only [step]
            split
            · split_ifs <;> exact ⟨_, rfl⟩
            · exact ⟨_, rfl⟩
        | next i =>
            simp only [step]
            split <;> exact ⟨_, rfl⟩
      exact ⟨x', hx', counted.effect hfew (effect hx')⟩) Counted.init
  exact hcounted.mono fun _ counted => counted.exclusive

/-- A second opening is refused, and before it has taken the count back, so is a third,
although the file has been released. -/
def refusing : List Action :=
  [.call (.open true), .next 0, .next 0, .call (.open false), .next 1, .close 0, .next 2,
    .call (.open false), .next 3, .next 1, .next 3]

theorem single_exclusive_refusing : EveryState step Exclusive init refusing :=
  single_exclusive refusing (by decide)

example : (refusing.foldlM step init).map (fun x => x.calls.map Call.stage) =
    .ok [.returned 0, .returned (-EBUSY), .returned 0, .returned (-EBUSY)] := by decide

end Concurrent

end Single

end KernelTraining.Access
