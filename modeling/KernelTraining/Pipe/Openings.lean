import KernelTraining.Machine.Openings
import KernelTraining.Pipe.Callers

/-!
# Openings of the pipe device

The device counts its readers and its writers, has a buffer from its first opening on, and
frees it when nobody reads or writes any more.  A file counts from the moment
`scull_p_open` has raised the counters until `scull_p_release` lowers them, which is not
the time the VFS has it open.

In every state that is reached the counters are the numbers of such files, a transfer in
progress finds a buffer, and there is none once everything has been closed
(`openings_counted`).

## Strategy

Three things stand between the counters and the files.

* **Who counts.**  A call stands for a file (`Call.stands`) after its opening has raised the
  counters and before its release has lowered them.  `Concurrent.holders` counts these calls
  and the open files, so that it changes with the counters, and only then.
* **The buffer comes first.**  Between its allocation and its counters an opening has a
  buffer that nobody stands for (`Call.opens`).  It holds the semaphore all the while, so
  there is one such call at most (`opening_eq_zero`), and the buffer is not freed meanwhile;
  but a call at rest cannot tell from the counters that there is no buffer.
* **The counters go round.**  They are `int`s, and an opening that finds one at `INT_MAX`
  makes it negative.  `Concurrent.Few` says that there are fewer files than that, and is
  asked of the state before each opening that raises the counters (`AtOpenings`) and of no
  other step; then a counter is the number it stands for, and its sum is zero exactly if
  nobody has the device open.

`Account` is the book-keeping: a step leaves all of this alone, gives an opening its buffer,
has a file count or no longer count.  `Account.of_effect` reads it off `Concurrent.effect`,
and `Counted.effect` is the invariant step.  Which calls may be halfway at all is an
invariant of its own that needs no counters (`Concurrent.Staged`).
-/

namespace KernelTraining.Pipe

open Machine Abstract Concurrent

/-! ## Who counts -/

/-- The mode of the file the call stands for: one that has been counted and is not open
yet, or one that is closed already and still counted. -/
def Call.stands (c : Call) : Option Mode :=
  match c.op with
  | .open mode =>
      match c.stage with
      | .leaving (some answer) => if answer.retval = 0 then some mode else none
      | _ => none
  | .release mode => if c.stage.idle ∨ c.stage = .holding then some mode else none
  | _ => none

/-- The number of files of such a mode, open or about to be opened or released. -/
def Concurrent.holders (p : Mode → Bool) (x : Concurrent) : ℕ :=
  Machine.holders Call.stands p x.files x.calls

/-- The call is an opening that has its buffer, and sets the pointers next. -/
def Call.opens (c : Call) : Bool :=
  match c.op, c.stage with
  | .open _, .halfway _ => true
  | _, _ => false

/-- The number of such openings. -/
def Concurrent.opening (x : Concurrent) : ℕ := x.calls.countP Call.opens

/-- Such an opening is made in a state that satisfies `P`. -/
def AtOpenings (P : Concurrent → Prop) (x : Concurrent) : Action → Prop
  | .next i _ => ∀ c ∈ x.calls[i]?, c.opens = true → P x
  | _ => True

instance (P : Concurrent → Prop) (x : Concurrent) [Decidable (P x)] :
    ∀ a, Decidable (AtOpenings P x a)
  | .next i _ => inferInstanceAs (Decidable (∀ c ∈ x.calls[i]?, c.opens = true → P x))
  | .call _ => isTrue trivial
  | .close _ => isTrue trivial
  | .tell _ => isTrue trivial

/-- Neither counter is at its maximum. -/
def Concurrent.Few (x : Concurrent) : Prop :=
  (x.holders (·.has .read) : ℤ) < intMax ∧ (x.holders (·.has .write) : ℤ) < intMax

instance (x : Concurrent) : Decidable x.Few := by
  unfold Concurrent.Few
  infer_instance

theorem Concurrent.Few.lt {x : Concurrent} (few : x.Few) (d : Dir) :
    (x.holders (·.has d) : ℤ) < intMax := by
  cases d with
  | read => exact few.1
  | write => exact few.2

/-- Only transfers wait, and who is halfway has succeeded so far. -/
structure Concurrent.Staged (x : Concurrent) : Prop where
  waits : ∀ c ∈ x.calls, c.stage = .leaving none → c.op.queue ≠ none
  halfway : ∀ c ∈ x.calls, ∀ answer, c.stage = .halfway answer → c.op.goesOn answer = true

theorem mode_eq_some_iff {x : Concurrent} {fd : ℕ} {mode : Mode} :
    x.mode fd = some mode ↔ x.files[fd]? = some (some mode) := by
  unfold Concurrent.mode
  cases x.files[fd]? with
  | none => simp
  | some file => simp

section Stands

variable {op : Op}

/-- A transfer stands for no file. -/
theorem stands_of_queue (h : op.queue ≠ none) (stage : Stage) : Call.stands ⟨op, stage⟩ = none := by
  cases op <;> first | rfl | exact absurd rfl h

theorem stands_of_idle {stage stage' : Stage} (h : stage.idle = true) (h' : stage'.idle = true) :
    Call.stands ⟨op, stage'⟩ = Call.stands ⟨op, stage⟩ := by
  cases op with
  | «open» mode =>
      have hnone : ∀ stage : Stage, stage.idle = true →
          Call.stands ⟨.open mode, stage⟩ = none := by
        intro stage hidle
        cases stage <;> first | rfl | cases hidle
      rw [hnone stage h, hnone stage' h']
  | release mode => simp only [Call.stands, h, h', true_or, if_true]
  | _ => rfl

theorem stands_outside {x : Concurrent} {c : Call} {stage : Stage} (hfrom : c.stage.idle = true)
    (hto : Outside x c stage) : Call.stands ⟨c.op, stage⟩ = c.stands := by
  rcases hto.unanswered with hidle | ⟨e, he, rfl⟩
  · exact stands_of_idle hfrom hidle
  · obtain ⟨op, stage⟩ := c
    cases op with
    | release mode => cases hto.release mode rfl
    | «open» mode => cases stage <;> first | rfl | cases hfrom
    | _ => rfl

theorem stands_wakeUp (q : WaitQueue) (c : Call) : (c.wakeUp q).stands = c.stands := by
  unfold Call.wakeUp
  split_ifs with hq
  · have htransfer : c.op.queue ≠ none := by simp [hq]
    obtain ⟨op, stage⟩ := c
    split <;> simp only [stands_of_queue htransfer]
  · rfl

end Stands

theorem opens_eq_false {c : Call} (h : ∀ answer, c.stage ≠ .halfway answer) : c.opens = false := by
  obtain ⟨op, stage⟩ := c
  cases op with
  | «open» mode =>
      cases stage with
      | halfway answer => exact absurd rfl (h answer)
      | _ => rfl
  | _ => rfl

theorem opens_of_queue {op : Op} (h : op.queue ≠ none) (stage : Stage) :
    Call.opens ⟨op, stage⟩ = false := by
  cases op <;> first | rfl | exact absurd rfl h

/-- Without the semaphore no call is halfway. -/
theorem halfway_of_unanswered {stage : Stage} (h : Unanswered stage) (answer : Answer) :
    stage ≠ .halfway answer := by
  rintro rfl
  rcases h with hidle | ⟨e, -, h⟩
  · cases hidle
  · cases h

theorem answer_finish (op : Op) (answer : Answer) : (finish op answer).answer = some answer := by
  unfold finish
  split
  · split_ifs <;> rfl
  · rfl

theorem halfway_finish (op : Op) (answer other : Answer) : finish op answer ≠ .halfway other := by
  intro h
  have hanswer := answer_finish op answer
  rw [h] at hanswer
  cases hanswer

theorem opens_wakeUp (q : WaitQueue) (c : Call) : (c.wakeUp q).opens = c.opens := by
  unfold Call.wakeUp
  split_ifs with hq
  · have htransfer : c.op.queue ≠ none := by simp [hq]
    obtain ⟨op, stage⟩ := c
    split <;> simp only [opens_of_queue htransfer]
  · rfl

theorem inside_of_opens {c : Call} (h : c.opens = true) : c.stage.inside = true := by
  obtain ⟨op, stage⟩ := c
  cases op <;> cases stage <;> first | rfl | cases h

/-- Nobody else opens the device while a call holds the semaphore. -/
theorem opening_eq_zero {x : Concurrent} (balanced : x.Balanced) {i : ℕ} {c : Call}
    (hc : x.calls[i]? = some c) (hinside : c.stage.inside = true) (hopens : c.opens = false) :
    x.opening = 0 := by
  have hcount : x.calls.countP (·.stage.inside) ≤ 1 := by
    unfold Concurrent.Balanced at balanced
    omega
  rw [Concurrent.opening, List.countP_eq_zero]
  intro d hd hd'
  obtain ⟨j, hj⟩ := List.mem_iff_getElem?.mp hd
  obtain rfl := eq_of_countP_le_one hcount hj hc (inside_of_opens hd') hinside
  obtain rfl := Option.some.inj (hj.symm.trans hc)
  rw [hopens] at hd'
  cases hd'

/-- What goes on is an opening or a transfer. -/
theorem goesOn_cases {op : Op} {answer : Answer} (h : op.goesOn answer = true) :
    op.queue ≠ none ∨ ∃ mode, op = .open mode ∧ answer.retval = 0 := by
  cases op with
  | «open» mode => exact .inr ⟨mode, rfl, of_decide_eq_true h⟩
  | read fd count => exact .inl (Option.some_ne_none _)
  | write fd buf => exact .inl (Option.some_ne_none _)
  | _ => cases h

/-! ## Bodies and counters -/

section Bodies

variable {scullPBuffer : ℤ} {dev dev' : ScullPipe} {env : Env} {answer : Answer}

theorem body_open {mode : Mode}
    (hbody : (Op.open mode).body scullPBuffer dev env = .ok (some (answer, dev'))) :
    OpenSpec scullPBuffer dev (answer, dev') := by
  rw [← Option.some.inj (Except.ok.inj hbody)]
  exact scullPOpen_spec scullPBuffer dev env.memory

theorem body_read {fd count : ℕ}
    (hbody : (Op.read fd count).body scullPBuffer dev env = .ok (some (answer, dev'))) :
    dev' = dev ∧ scullPRead dev count env.fault = .ok (some answer) := by
  simp only [Op.body] at hbody
  cases hread : scullPRead dev count env.fault with
  | error fault => rw [hread] at hbody; cases hbody
  | ok out =>
      rw [hread] at hbody
      have hout := Except.ok.inj hbody
      cases out with
      | none => cases hout
      | some a =>
          obtain ⟨rfl, rfl⟩ := Prod.mk.inj (Option.some.inj hout)
          exact ⟨rfl, rfl⟩

theorem body_poll {fd : ℕ}
    (hbody : (Op.poll fd).body scullPBuffer dev env = .ok (some (answer, dev'))) : dev' = dev := by
  simp only [Op.body, scullPPoll] at hbody
  cases hfree : spacefree dev with
  | error fault => rw [hfree] at hbody; cases hbody
  | ok free =>
      rw [hfree] at hbody
      exact (Prod.mk.inj (Option.some.inj (Except.ok.inj hbody))).2.symm

/-- A write changes bytes of the buffer. -/
theorem scullPWrite_dev {buf : List UInt8} {fault : Option ℕ}
    (hwrite : scullPWrite dev buf fault = .ok (some (answer, dev'))) :
    ∃ old bytes, dev.buffer = some old ∧ bytes.length = old.length ∧
      dev' = { dev with buffer := some bytes } := by
  obtain ⟨free, -, hwrite⟩ := bind_eq_ok.mp hwrite
  by_cases hfull : free = 0
  · rw [if_pos hfull] at hwrite
    cases hwrite
  · rw [if_neg hfull] at hwrite
    dsimp only at hwrite
    generalize hcount : (if dev.rp ≤ dev.wp then
        min (min buf.length (toULong free)) (toULong (dev.bufEnd - dev.wp))
      else min (min buf.length (toULong free)) (toULong (dev.rp - dev.wp - 1))) = count at hwrite
    have hcount' : count ≤ buf.length := by
      rw [← hcount]
      split_ifs <;> omega
    obtain ⟨old, hold, hwrite⟩ := bind_eq_ok.mp hwrite
    obtain ⟨off, hoff, hwrite⟩ := bind_eq_ok.mp hwrite
    have hbuffer : dev.buffer = some old := by
      unfold ScullPipe.bytes at hold
      split at hold
      · cases hold
      · rename_i bytes hbytes
        rw [hbytes, Except.ok.inj hold]
    have hlength : (copyFromUser old off (buf.take count) fault).1.length = old.length := by
      apply length_copyFromUser
      unfold window at hoff
      split_ifs at hoff with hwindow
      obtain rfl := Except.ok.inj hoff
      rw [List.length_take, Nat.min_eq_left hcount']
      omega
    split_ifs at hwrite <;>
      exact ⟨old, _, hbuffer, hlength,
        (Prod.mk.inj (Option.some.inj (Except.ok.inj hwrite))).2.symm⟩

end Bodies

/-- What a step does to the counters and to those who count. -/
inductive Account (x x' : Concurrent) : Prop
  | same (holders : ∀ p, x'.holders p = x.holders p)
      (openings : ∀ d, x'.dev.openings d = x.dev.openings d) (opening : x'.opening = x.opening)
      (buffer : x'.dev.buffer = none ↔ x.dev.buffer = none)
  | begun (holders : ∀ p, x'.holders p = x.holders p)
      (openings : ∀ d, x'.dev.openings d = x.dev.openings d) (opening : 0 < x'.opening)
      (buffer : x'.dev.buffer ≠ none)
  | opened (mode : Mode) (few : x.Few) (opening : 0 < x.opening)
      (holders : ∀ p, x'.holders p = x.holders p + if p mode then 1 else 0)
      (openings : ∀ d, x'.dev.openings d =
        if mode.has d then wrap32 (x.dev.openings d + 1) else x.dev.openings d)
      (buffer : x'.dev.buffer = x.dev.buffer)
  | released (mode : Mode) (opening : x'.opening = 0)
      (holders : ∀ p, x'.holders p + (if p mode then 1 else 0) = x.holders p)
      (openings : ∀ d, x'.dev.openings d =
        if mode.has d then wrap32 (x.dev.openings d - 1) else x.dev.openings d)
      (buffer : x'.dev.buffer =
        if wrap32 (x'.dev.openings .read + x'.dev.openings .write) = 0 then none
        else x.dev.buffer)

section Steps

variable {x x' : Concurrent} {a : Action}

/-- A step that changes one call, and neither the counters nor what the call stands for. -/
theorem Account.of_stands {i : ℕ} {c : Call} {stage : Stage} (hc : x.calls[i]? = some c)
    (hcalls : x'.calls = x.calls.set i { c with stage := stage }) (hfiles : x'.files = x.files)
    (hstands : Call.stands { c with stage := stage } = c.stands)
    (hopens : Call.opens { c with stage := stage } = c.opens)
    (openings : ∀ d, x'.dev.openings d = x.dev.openings d)
    (buffer : x'.dev.buffer = none ↔ x.dev.buffer = none) : Account x x' := by
  refine .same (fun p => ?_) openings ?_ buffer
  · rw [Concurrent.holders, hcalls, hfiles]
    exact holders_set_of_eq hc hstands
  · rw [Concurrent.opening, hcalls]
    exact countP_set_of_eq hc hopens

/-- A body that is done at once. -/
theorem Account.acts {i : ℕ} {env : Env} {c : Call} {answer : Answer} {dev : ScullPipe}
    (balanced : x.Balanced) (hc : x.calls[i]? = some c) (hstage : c.stage = .holding)
    (hbody : c.op.body x.scullPBuffer x.dev env = .ok (some (answer, dev)))
    (hdone : c.op.goesOn answer = false)
    (hcalls : x'.calls = x.calls.set i { c with stage := .leaving (some answer) })
    (hfiles : x'.files = x.files) (hdev : x'.dev = dev) : Account x x' := by
  obtain ⟨op, stage⟩ := c
  obtain rfl : stage = .holding := hstage
  replace hcalls : x'.calls = x.calls.set i ⟨op, .leaving (some answer)⟩ := hcalls
  cases op with
  | «open» mode =>
      cases body_open hbody with
      | found bytes => cases hdone
      | allocated bytes => cases hdone
      | failed => exact .of_stands hc hcalls hfiles rfl rfl (fun d => by rw [hdev]) (by rw [hdev])
  | release mode =>
      obtain ⟨rfl, rfl⟩ := Prod.mk.inj (Option.some.inj (Except.ok.inj hbody))
      refine .released mode ?_ ?_ ?_ (by rw [hdev]; rfl)
      · rw [Concurrent.opening, hcalls, countP_set_of_eq hc]
        · exact opening_eq_zero balanced hc rfl rfl
        · rfl
      · intro p
        rw [Concurrent.holders, hcalls, hfiles]
        have hp := @holders_set _ _ Call.stands p x.files _ _ _ hc
          ⟨.release mode, .leaving (some ⟨0, []⟩)⟩
        rw [show Call.stands ⟨.release mode, .holding⟩ = some mode by simp [Call.stands],
          show Call.stands ⟨.release mode, .leaving (some ⟨0, []⟩)⟩ = none by
            simp [Call.stands, Stage.idle]] at hp
        exact hp
      · intro d
        rw [hdev]
        cases d <;> rfl
  | read fd count =>
      obtain ⟨rfl, -⟩ := body_read hbody
      exact .of_stands hc hcalls hfiles rfl rfl (fun d => by rw [hdev]) (by rw [hdev])
  | write fd buf =>
      obtain ⟨old, bytes, hold, -, rfl⟩ := scullPWrite_dev hbody
      refine .of_stands hc hcalls hfiles rfl rfl (fun d => ?_) ?_
      · rw [hdev]
        cases d <;> rfl
      · rw [hdev, hold]
        exact iff_of_false (Option.some_ne_none _) (Option.some_ne_none _)
  | poll fd =>
      obtain rfl := body_poll hbody
      exact .of_stands hc hcalls hfiles rfl rfl (fun d => by rw [hdev]) (by rw [hdev])

/-- A body that goes on with the pointers: an opening has its buffer now. -/
theorem Account.begins {i : ℕ} {env : Env} {c : Call} {answer : Answer} {dev : ScullPipe}
    (hc : x.calls[i]? = some c) (hstage : c.stage = .holding)
    (hbody : c.op.body x.scullPBuffer x.dev env = .ok (some (answer, dev)))
    (hgoesOn : c.op.goesOn answer = true)
    (hcalls : x'.calls = x.calls.set i { c with stage := .halfway answer })
    (hfiles : x'.files = x.files) (hdev : x'.dev = dev) : Account x x' := by
  obtain ⟨op, stage⟩ := c
  obtain rfl : stage = .holding := hstage
  replace hcalls : x'.calls = x.calls.set i ⟨op, .halfway answer⟩ := hcalls
  cases op with
  | «open» mode =>
      have hopening : 0 < x'.opening := by
        rw [Concurrent.opening, hcalls]
        have hset := List.getElem?_set_self (a := (⟨.open mode, .halfway answer⟩ : Call))
          (List.getElem?_eq_some_iff.mp hc).1
        exact List.countP_pos_iff.mpr ⟨_, List.mem_of_getElem? hset, rfl⟩
      have hholders : ∀ p, x'.holders p = x.holders p := by
        intro p
        rw [Concurrent.holders, hcalls, hfiles]
        exact holders_set_of_eq hc rfl
      cases body_open hbody with
      | found bytes hbuffer =>
          refine .begun hholders (fun d => by rw [hdev]) hopening ?_
          rw [hdev, hbuffer]
          exact Option.some_ne_none _
      | allocated bytes =>
          refine .begun hholders (fun d => ?_) hopening (by rw [hdev]; exact Option.some_ne_none _)
          rw [hdev]
          cases d <;> rfl
      | failed => cases hgoesOn
  | read fd count =>
      obtain ⟨rfl, -⟩ := body_read hbody
      exact .of_stands hc hcalls hfiles rfl rfl (fun d => by rw [hdev]) (by rw [hdev])
  | write fd buf =>
      obtain ⟨old, bytes, hold, -, rfl⟩ := scullPWrite_dev hbody
      refine .of_stands hc hcalls hfiles rfl rfl (fun d => ?_) ?_
      · rw [hdev]
        cases d <;> rfl
      · rw [hdev, hold]
        exact iff_of_false (Option.some_ne_none _) (Option.some_ne_none _)
  | _ => cases hgoesOn

/-- The pointers: the file of an opening counts from now on. -/
theorem Account.commits {i : ℕ} {env : Env} {c : Call} {answer : Answer}
    (staged : x.Staged) (hfew : AtOpenings Concurrent.Few x (.next i env))
    (hc : x.calls[i]? = some c) (hstage : c.stage = .halfway answer)
    (hcalls : x'.calls = x.calls.set i { c with stage := .leaving (some answer) })
    (hfiles : x'.files = x.files) (hdev : x'.dev = c.op.commit x.scullPBuffer answer x.dev) :
    Account x x' := by
  have hgoesOn := staged.halfway c (List.mem_of_getElem? hc) answer hstage
  obtain ⟨op, stage⟩ := c
  obtain rfl : stage = .halfway answer := hstage
  replace hcalls : x'.calls = x.calls.set i ⟨op, .leaving (some answer)⟩ := hcalls
  cases op with
  | «open» mode =>
      have hzero : answer.retval = 0 := of_decide_eq_true hgoesOn
      refine .opened mode (hfew _ hc rfl) ?_ ?_ ?_ (by rw [hdev]; rfl)
      · exact List.countP_pos_iff.mpr ⟨_, List.mem_of_getElem? hc, rfl⟩
      · intro p
        rw [Concurrent.holders, hcalls, hfiles]
        have hp := @holders_set _ _ Call.stands p x.files _ _ _ hc
          ⟨.open mode, .leaving (some answer)⟩
        rw [show Call.stands ⟨.open mode, .leaving (some answer)⟩ = some mode from if_pos hzero]
          at hp
        exact hp
      · intro d
        rw [hdev]
        cases d <;> rfl
  | read fd count =>
      refine .of_stands hc hcalls hfiles rfl rfl (fun d => ?_) (by rw [hdev]; rfl)
      rw [hdev]
      cases d <;> rfl
  | write fd buf =>
      refine .of_stands hc hcalls hfiles rfl rfl (fun d => ?_) (by rw [hdev]; rfl)
      rw [hdev]
      cases d <;> rfl
  | _ => cases hgoesOn

/-- Closing a file makes a release stand for it. -/
theorem Account.closed {fd : ℕ} {mode : Mode} (hmode : x.mode fd = some mode) :
    Account x { x with
      files := x.files.set fd none
      calls := x.calls ++ [⟨.release mode, .entering⟩] } := by
  refine .same (fun p => ?_) (fun _ => rfl) ?_ Iff.rfl
  · exact holders_close (mode_eq_some_iff.mp hmode) (by simp [Call.stands, Stage.idle])
  · exact List.countP_append

/-- An opening that returns leaves a file behind. -/
theorem Account.answers {i : ℕ} {c : Call} {answer : Answer} (hc : x.calls[i]? = some c)
    (hstage : c.stage = .leaving (some answer)) :
    Account x { x.advance i c (finish c.op answer) with
      sem := x.sem + 1
      files := x.files ++ Concurrent.opened c.op answer } := by
  obtain ⟨op, stage⟩ := c
  obtain rfl : stage = .leaving (some answer) := hstage
  have hopens : Call.opens ⟨op, finish op answer⟩ = Call.opens ⟨op, .leaving (some answer)⟩ :=
    (opens_eq_false (halfway_finish op answer)).trans
      (opens_eq_false fun _ => Stage.noConfusion).symm
  cases op with
  | «open» mode =>
      by_cases hanswer : answer.retval = 0
      · refine .same (fun p => ?_) (fun _ => rfl) (countP_set_of_eq hc hopens) Iff.rfl
        rw [Concurrent.holders, Concurrent.opened, if_pos hanswer]
        exact holders_open hc (if_pos hanswer) rfl
      · refine .of_stands hc rfl ?_ (if_neg hanswer).symm hopens (fun _ => rfl) Iff.rfl
        rw [Concurrent.opened, if_neg hanswer]
        exact List.append_nil _
  | _ => exact .of_stands hc rfl (List.append_nil _) rfl hopens (fun _ => rfl) Iff.rfl

theorem wakeUp_files (x : Concurrent) (q : Option WaitQueue) : (x.wakeUp q).files = x.files := by
  cases q <;> rfl

theorem wakeUp_dev (x : Concurrent) (q : Option WaitQueue) : (x.wakeUp q).dev = x.dev := by
  cases q <;> rfl

theorem holders_wakeUp (p : Mode → Bool) (x : Concurrent) (q : Option WaitQueue) :
    (x.wakeUp q).holders p = x.holders p := by
  cases q with
  | none => rfl
  | some q => exact holders_map (stands_wakeUp q)

theorem opening_wakeUp (x : Concurrent) (q : Option WaitQueue) :
    (x.wakeUp q).opening = x.opening := by
  cases q with
  | none => rfl
  | some q =>
      show (x.calls.map (Call.wakeUp q)).countP _ = _
      rw [List.countP_map]
      exact List.countP_congr fun c _ => by
        show (c.wakeUp q).opens = true ↔ _
        rw [opens_wakeUp]

theorem halfway_of_wakeUp {q : WaitQueue} {c : Call} {answer : Answer}
    (h : (c.wakeUp q).stage = .halfway answer) : c.stage = .halfway answer := by
  unfold Call.wakeUp at h
  split_ifs at h
  · split at h
    · cases h
    · cases h
    · exact h
  · exact h

theorem Account.of_effect (balanced : x.Balanced) (staged : x.Staged)
    (hfew : AtOpenings Concurrent.Few x a) (heffect : Effect x a x') : Account x x' := by
  cases heffect with
  | stays => exact .same (fun _ => rfl) (fun _ => rfl) rfl Iff.rfl
  | called op hadmits =>
      refine .same (fun p => holders_concat ?_) (fun _ => rfl) ?_ Iff.rfl
      · cases op <;> first | rfl | cases hadmits
      · refine List.countP_append.trans ?_
        rw [List.countP_singleton, opens_eq_false fun _ => Stage.noConfusion]
        rfl
  | closed fd mode hmode => exact .closed hmode
  | told arg =>
      refine .same (fun p => ?_) (fun _ => rfl) ?_ Iff.rfl
      · simp only [Concurrent.holders]
      · simp only [Concurrent.opening]
  | moves i env c stage hc hfrom hto =>
      refine .of_stands hc rfl rfl (stands_outside hfrom hto) ?_ (fun _ => rfl) Iff.rfl
      rw [opens_eq_false (halfway_of_unanswered (.inl hfrom)),
        opens_eq_false (c := ⟨c.op, stage⟩) (halfway_of_unanswered hto.unanswered)]
  | acquires i env c sem hc hstage =>
      obtain ⟨op, stage⟩ := c
      obtain rfl : stage = .entering := hstage
      exact .of_stands hc rfl rfl (by cases op <;> rfl) (by cases op <;> rfl) (fun _ => rfl) Iff.rfl
  | blocks i env c hc hstage hbody =>
      obtain ⟨op, stage⟩ := c
      obtain rfl : stage = .holding := hstage
      refine .of_stands hc rfl rfl ?_ (by cases op <;> rfl) (fun _ => rfl) Iff.rfl
      cases op <;> first | rfl | cases Except.ok.inj hbody
  | acts i env c answer dev hc hstage hbody hdone =>
      exact .acts balanced hc hstage hbody hdone rfl rfl rfl
  | begins i env c answer dev hc hstage hbody hgoesOn =>
      exact .begins hc hstage hbody hgoesOn rfl rfl rfl
  | commits i env c answer hc hstage => exact .commits staged hfew hc hstage rfl rfl rfl
  | releases i env c stage hc hstage hto =>
      have htransfer := staged.waits c (List.mem_of_getElem? hc) hstage
      obtain ⟨op, stage⟩ := c
      refine .of_stands hc rfl rfl ?_ ?_ (fun _ => rfl) Iff.rfl
      · rw [stands_of_queue htransfer, stands_of_queue htransfer]
      · rw [opens_of_queue htransfer, opens_of_queue htransfer]
  | answers i env c answer hc hstage => exact .answers hc hstage
  | wakes i env c answer hc hstage =>
      obtain ⟨op, stage⟩ := c
      obtain rfl : stage = .waking answer := hstage
      refine .same ?_ ?_ ?_ ?_
      · intro p
        rw [holders_wakeUp]
        exact holders_set_of_eq (d := ⟨op, .returned answer⟩) hc (by cases op <;> rfl)
      · intro d
        rw [wakeUp_dev]
        rfl
      · rw [opening_wakeUp]
        exact countP_set_of_eq (d := ⟨op, .returned answer⟩) hc (by cases op <;> rfl)
      · rw [wakeUp_dev]
        rfl

theorem op_wakeUp (q : WaitQueue) (c : Call) : (c.wakeUp q).op = c.op := by
  unfold Call.wakeUp
  split_ifs
  · split <;> rfl
  · rfl

end Steps

/-! ## The counters -/

/-- The counters are right, whoever is in a call has the file it needs, and there is a
buffer if somebody reads or writes or is about to, and none if there is nobody at all. -/
structure Counted (x : Concurrent) : Prop where
  staged : x.Staged
  openings : ∀ d, x.dev.openings d = x.holders (·.has d)
  bounded : ∀ d, x.dev.openings d ≤ intMax
  users : ∀ c ∈ x.calls, c.busy = true → ∀ fd dir, c.op.uses = some (fd, dir) →
    ∃ mode, x.mode fd = some mode ∧ dir.all mode.has = true
  pinned : ∀ d, 0 < x.dev.openings d → x.dev.buffer ≠ none
  begun : 0 < x.opening → x.dev.buffer ≠ none
  freed : x.opening = 0 → x.holders (fun _ => true) = 0 → x.dev.buffer = none

section Counters

variable {x x' : Concurrent} {a : Action}

/-- A file that counts for something counts. -/
theorem holders_le (p : Mode → Bool) (x : Concurrent) : x.holders p ≤ x.holders fun _ => true :=
  holders_mono fun _ _ => rfl

theorem busy_wakeUp (q : WaitQueue) (c : Call) : (c.wakeUp q).busy = c.busy := by
  unfold Call.wakeUp
  split_ifs
  · split
    · rename_i h; rw [Call.busy, Call.busy, h]
    · rename_i h; rw [Call.busy, Call.busy, h]
    · rfl
  · rfl

/-- The calls after a wake-up are the calls before it, woken up. -/
theorem mem_wakeUp {q : Option WaitQueue} {c' : Call} (hc' : c' ∈ (x.wakeUp q).calls) :
    c' ∈ x.calls ∨ ∃ q, ∃ c ∈ x.calls, c' = c.wakeUp q := by
  cases q with
  | none => exact .inl hc'
  | some q =>
      obtain ⟨c, hc, rfl⟩ := List.mem_map.mp hc'
      exact .inr ⟨q, c, hc, rfl⟩

/-- Where the calls of the next state come from. -/
theorem mem_calls (heffect : Effect x a x') {c' : Call} (hc' : c' ∈ x'.calls) :
    (∃ c ∈ x.calls, c.op = c'.op ∧ (c'.busy = true → c.busy = true)) ∨
      (∃ op, x.admits op = true ∧ x'.files = x.files ∧ c' = ⟨op, .entering⟩) ∨
      ∃ mode, c' = ⟨.release mode, .entering⟩ := by
  have hset : ∀ {i : ℕ} {c : Call} {stage : Stage}, x.calls[i]? = some c → c.busy = true →
      c' ∈ x.calls.set i { c with stage := stage } →
        ∃ c ∈ x.calls, c.op = c'.op ∧ (c'.busy = true → c.busy = true) := by
    intro i c stage hc hbusy hmem
    rcases List.mem_or_eq_of_mem_set hmem with hold | rfl
    · exact ⟨c', hold, rfl, id⟩
    · exact ⟨c, List.mem_of_getElem? hc, rfl, fun _ => hbusy⟩
  cases heffect with
  | stays => exact .inl ⟨c', hc', rfl, id⟩
  | called op hadmits =>
      rcases List.mem_append.mp hc' with hold | hnew
      · exact .inl ⟨c', hold, rfl, id⟩
      · exact .inr (.inl ⟨op, hadmits, rfl, List.mem_singleton.mp hnew⟩)
  | closed fd mode =>
      rcases List.mem_append.mp hc' with hold | hnew
      · exact .inl ⟨c', hold, rfl, id⟩
      · exact .inr (.inr ⟨mode, List.mem_singleton.mp hnew⟩)
  | told arg => exact .inl ⟨c', hc', rfl, id⟩
  | moves i env c stage hc hfrom =>
      refine .inl (hset hc ?_ hc')
      obtain ⟨op, stage⟩ := c
      cases stage <;> first | rfl | cases hfrom
  | acquires i env c sem hc hstage => exact .inl (hset hc (by rw [Call.busy, hstage]) hc')
  | blocks i env c hc hstage => exact .inl (hset hc (by rw [Call.busy, hstage]) hc')
  | acts i env c answer dev hc hstage => exact .inl (hset hc (by rw [Call.busy, hstage]) hc')
  | begins i env c answer dev hc hstage => exact .inl (hset hc (by rw [Call.busy, hstage]) hc')
  | commits i env c answer hc hstage => exact .inl (hset hc (by rw [Call.busy, hstage]) hc')
  | releases i env c stage hc hstage => exact .inl (hset hc (by rw [Call.busy, hstage]) hc')
  | answers i env c answer hc hstage => exact .inl (hset hc (by rw [Call.busy, hstage]) hc')
  | wakes i env c answer hc hstage =>
      have hbusy : c.busy = true := by rw [Call.busy, hstage]
      rcases mem_wakeUp hc' with hmem | ⟨q, d, hd, rfl⟩
      · exact .inl (hset hc hbusy hmem)
      · rcases List.mem_or_eq_of_mem_set hd with hold | rfl
        · exact .inl ⟨d, hold, (op_wakeUp q d).symm, fun h => (busy_wakeUp q d).symm.trans h⟩
        · refine .inl ⟨c, List.mem_of_getElem? hc, ?_, fun _ => hbusy⟩
          rw [op_wakeUp]

/-- The files that calls are made through stay open. -/
theorem mode_of_effect (heffect : Effect x a x') {c : Call} (hc : c ∈ x.calls)
    (hbusy : c.busy = true) {fd : ℕ} (huses : c.op.uses.map Prod.fst = some fd) {mode : Mode}
    (hmode : x.mode fd = some mode) : x'.mode fd = some mode := by
  rw [mode_eq_some_iff] at hmode ⊢
  have hfd := (List.getElem?_eq_some_iff.mp hmode).1
  cases heffect with
  | closed fd' mode' hmode' hidle =>
      have hne : fd' ≠ fd := fun h => hidle c hc hbusy (h ▸ huses)
      show (x.files.set fd' none)[fd]? = _
      rwa [List.getElem?_set_ne hne]
  | answers i env c answer =>
      show (x.files ++ Concurrent.opened c.op answer)[fd]? = _
      rwa [List.getElem?_append_left hfd]
  | wakes i env c answer =>
      rw [wakeUp_files]
      exact hmode
  | _ => exact hmode

theorem waits_of_unanswered {stage : Stage} (h : Unanswered stage) : stage ≠ .leaving none := by
  rintro rfl
  rcases h with hidle | ⟨e, -, h⟩
  · cases hidle
  · cases h

/-- A step of one call. -/
theorem Concurrent.Staged.set {i : ℕ} {c : Call} {stage : Stage} (staged : x.Staged)
    (hcalls : x'.calls = x.calls.set i { c with stage := stage })
    (waits : stage = .leaving none → c.op.queue ≠ none)
    (halfway : ∀ answer, stage = .halfway answer → c.op.goesOn answer = true) : x'.Staged where
  waits := by
    rw [hcalls]
    intro d hd
    rcases List.mem_or_eq_of_mem_set hd with hold | rfl
    · exact staged.waits d hold
    · exact waits
  halfway := by
    rw [hcalls]
    intro d hd
    rcases List.mem_or_eq_of_mem_set hd with hold | rfl
    · exact staged.halfway d hold
    · exact halfway

theorem Concurrent.Staged.concat {op : Op} (staged : x.Staged)
    (hcalls : x'.calls = x.calls ++ [⟨op, .entering⟩]) : x'.Staged where
  waits := by
    rw [hcalls]
    intro d hd
    rcases List.mem_append.mp hd with hold | hnew
    · exact staged.waits d hold
    · obtain rfl := List.mem_singleton.mp hnew
      exact Stage.noConfusion
  halfway := by
    rw [hcalls]
    intro d hd
    rcases List.mem_append.mp hd with hold | hnew
    · exact staged.halfway d hold
    · obtain rfl := List.mem_singleton.mp hnew
      exact fun _ => Stage.noConfusion

theorem Concurrent.Staged.wakeUp (staged : x.Staged) (q : Option WaitQueue) :
    (x.wakeUp q).Staged where
  waits := by
    intro d hd
    rcases mem_wakeUp hd with hold | ⟨q, c, hc, rfl⟩
    · exact staged.waits d hold
    · intro hstage
      rw [op_wakeUp]
      refine staged.waits c hc ?_
      unfold Call.wakeUp at hstage
      split_ifs at hstage
      · split at hstage
        · cases hstage
        · cases hstage
        · exact hstage
      · exact hstage
  halfway := by
    intro d hd answer
    rcases mem_wakeUp hd with hold | ⟨q, c, hc, rfl⟩
    · exact staged.halfway d hold answer
    · intro hstage
      rw [op_wakeUp]
      exact staged.halfway c hc answer (halfway_of_wakeUp hstage)

theorem Concurrent.Staged.effect (staged : x.Staged) (heffect : Effect x a x') : x'.Staged := by
  cases heffect with
  | stays => exact staged
  | called op => exact staged.concat rfl
  | closed fd mode => exact staged.concat rfl
  | told arg => exact ⟨staged.waits, staged.halfway⟩
  | moves i env c stage hc hfrom hto =>
      exact staged.set rfl (fun h => absurd h (waits_of_unanswered hto.unanswered))
        fun answer h => absurd h (halfway_of_unanswered hto.unanswered answer)
  | acquires => exact staged.set rfl Stage.noConfusion fun _ => Stage.noConfusion
  | blocks i env c hc hstage hbody =>
      refine staged.set rfl (fun _ => ?_) fun _ => Stage.noConfusion
      obtain ⟨op, stage⟩ := c
      cases op with
      | read fd count => exact Option.some_ne_none _
      | write fd buf => exact Option.some_ne_none _
      | poll fd =>
          simp only [Op.body, scullPPoll] at hbody
          cases hfree : spacefree x.dev with
          | error fault => rw [hfree] at hbody; cases hbody
          | ok free => rw [hfree] at hbody; cases Except.ok.inj hbody
      | _ => cases Except.ok.inj hbody
  | acts => exact staged.set rfl (fun h => by cases h) fun _ => Stage.noConfusion
  | begins i env c answer dev hc hstage hbody hgoesOn =>
      exact staged.set rfl Stage.noConfusion fun _ h => Stage.halfway.inj h ▸ hgoesOn
  | commits => exact staged.set rfl (fun h => by cases h) fun _ => Stage.noConfusion
  | releases i env c stage hc hstage hto =>
      exact staged.set rfl (fun h => absurd h (waits_of_unanswered hto))
        fun answer h => absurd h (halfway_of_unanswered hto answer)
  | answers i env c answer =>
      refine staged.set rfl (fun h => ?_) fun other h => absurd h (halfway_finish c.op answer other)
      have hanswer := answer_finish c.op answer
      rw [h] at hanswer
      cases hanswer
  | wakes i env c answer =>
      have hset : (x.advance i c (.returned answer)).Staged :=
        staged.set rfl Stage.noConfusion fun _ => Stage.noConfusion
      exact hset.wakeUp _

theorem Counted.effect (counted : Counted x) (balanced : x.Balanced)
    (hfew : AtOpenings Concurrent.Few x a) (heffect : Effect x a x') : Counted x' := by
  have haccount := Account.of_effect balanced counted.staged hfew heffect
  have hopenings : ∀ d, x'.dev.openings d = x'.holders (·.has d) ∧ x'.dev.openings d ≤ intMax := by
    intro d
    have hd := counted.openings d
    have hbounded := counted.bounded d
    cases haccount with
    | same holders openings => rw [openings, holders]; exact ⟨hd, hbounded⟩
    | begun holders openings => rw [openings, holders]; exact ⟨hd, hbounded⟩
    | opened mode few opening holders openings =>
        have hlt := few.lt d
        rw [openings, holders]
        split_ifs
        · rw [wrap32_eq (by omega) (by omega)]
          omega
        · exact ⟨hd, hbounded⟩
    | released mode opening holders openings =>
        have hsum := holders (·.has d)
        rw [openings]
        split_ifs at hsum ⊢
        · rw [wrap32_eq (by omega) (by omega)]
          omega
        · omega
  refine ⟨counted.staged.effect heffect, fun d => (hopenings d).1, fun d => (hopenings d).2,
    ?_, ?_, ?_, ?_⟩
  · intro c' hc' hbusy fd dir huses
    rcases mem_calls heffect hc' with
      ⟨c, hc, hop, hbusy'⟩ | ⟨op, hadmits, hfiles, rfl⟩ | ⟨mode, rfl⟩
    · rw [← hop] at huses
      obtain ⟨mode, hmode, hall⟩ := counted.users c hc (hbusy' hbusy) fd dir huses
      exact ⟨mode, mode_of_effect heffect hc (hbusy' hbusy) (by rw [huses]; rfl) hmode, hall⟩
    · simp only [Concurrent.admits, show op.uses = some (fd, dir) from huses] at hadmits
      obtain ⟨mode, hmode, hall⟩ := (Option.any_eq_true _ _).mp hadmits
      refine ⟨mode, ?_, hall⟩
      rwa [Concurrent.mode, hfiles]
    · cases huses
  · intro d hd
    cases haccount with
    | same holders openings opening buffer =>
        rw [openings] at hd
        rw [Ne, buffer]
        exact counted.pinned d hd
    | begun holders openings opening buffer => exact buffer
    | opened mode few opening holders openings buffer =>
        rw [buffer]
        exact counted.begun opening
    | released mode opening holders openings buffer =>
        obtain ⟨hread, hreadLe⟩ := hopenings .read
        obtain ⟨hwrite, hwriteLe⟩ := hopenings .write
        unfold intMax at hreadLe hwriteLe
        have hpos : x'.dev.openings .read + x'.dev.openings .write ≠ 0 := by
          cases d <;> omega
        rw [buffer, if_neg (by rwa [wrap32_eq_zero_iff (by omega) (by omega)])]
        refine counted.pinned d ?_
        have hsum := holders (·.has d)
        have hd' := counted.openings d
        have hnow := (hopenings d).1
        omega
  · intro hopening
    cases haccount with
    | same holders openings opening buffer =>
        rw [Ne, buffer]
        exact counted.begun (opening ▸ hopening)
    | begun holders openings opening buffer => exact buffer
    | opened mode few opening holders openings buffer =>
        rw [buffer]
        exact counted.begun opening
    | released mode opening => omega
  · intro hopening hnobody
    cases haccount with
    | same holders openings opening buffer =>
        rw [holders] at hnobody
        exact buffer.mpr (counted.freed (opening ▸ hopening) hnobody)
    | begun holders openings opening => omega
    | opened mode few opening holders =>
        rw [holders, if_pos rfl] at hnobody
        cases hnobody
    | released mode opening holders openings buffer =>
        have hread := (hopenings .read).1
        have hwrite := (hopenings .write).1
        have hread' := holders_le (·.has .read) x'
        have hwrite' := holders_le (·.has .write) x'
        rw [buffer, if_pos (by rw [wrap32_eq_zero_iff (by omega) (by omega)]; omega)]

theorem Counted.init (scullPBuffer : ℤ) : Counted (.init scullPBuffer) where
  staged :=
    { waits := fun _ hc => by cases hc
      halfway := fun _ hc => by cases hc }
  openings := fun d => by cases d <;> rfl
  bounded := fun d => by cases d <;> exact show (0 : ℤ) ≤ intMax by decide
  users := fun _ hc => by cases hc
  pinned := fun d hd => by cases d <;> cases hd
  begun := fun h => by cases h
  freed := fun _ _ => rfl

/-- Whoever is in a transfer finds a buffer. -/
theorem Counted.alloc (counted : Counted x) {c : Call} (hc : c ∈ x.calls) (hbusy : c.busy = true)
    (htransfer : c.op.queue ≠ none) : x.dev.buffer ≠ none := by
  obtain ⟨fd, d, huses⟩ : ∃ fd d, c.op.uses = some (fd, some d) := by
    cases hop : c.op with
    | read fd count => exact ⟨fd, .read, rfl⟩
    | write fd buf => exact ⟨fd, .write, rfl⟩
    | _ => rw [hop] at htransfer; exact absurd rfl htransfer
  obtain ⟨mode, hmode, hall⟩ := counted.users c hc hbusy fd (some d) huses
  refine counted.pinned d ?_
  have hpos : 0 < x.holders (·.has d) :=
    holders_pos_of_file (List.mem_of_getElem? (mode_eq_some_iff.mp hmode)) hall
  rw [counted.openings]
  exact Int.natCast_pos.mpr hpos

theorem reached_counted {scullPBuffer : ℤ} {actions : List Action}
    (hfew : EveryStep Concurrent.step (AtOpenings Concurrent.Few) (.init scullPBuffer) actions)
    (hrun : actions.foldlM Concurrent.step (.init scullPBuffer) = .ok x) :
    x.Balanced ∧ Counted x := by
  refine hfew.reached (Q := fun x => x.Balanced ∧ Counted x) ?_
    ⟨balanced_init scullPBuffer, .init scullPBuffer⟩ hrun
  rintro x a x' ⟨balanced, counted⟩ hfew hstep
  have heffect := Concurrent.effect hstep
  exact ⟨balanced.effect heffect, counted.effect balanced hfew heffect⟩

/-- **The device counts its openings.**  Whatever the calls and the order of their steps, as
long as no opening finds a counter at its maximum, in every state that is reached `nreaders`
and `nwriters` are the numbers of files open for reading and for writing, opened but not yet
returned and closed but not yet released ones included; every transfer in progress finds a
buffer; and when there is no such file of any mode and no opening that has just got a buffer,
the buffer has been freed. -/
theorem openings_counted {scullPBuffer : ℤ} {actions : List Action}
    (hfew : EveryStep Concurrent.step (AtOpenings Concurrent.Few) (.init scullPBuffer) actions)
    (hrun : actions.foldlM Concurrent.step (.init scullPBuffer) = .ok x) :
    (∀ d, x.dev.openings d = x.holders (·.has d)) ∧
      (∀ c ∈ x.calls, c.busy = true → c.op.queue ≠ none → x.dev.buffer ≠ none) ∧
      (x.opening = 0 → x.holders (fun _ => true) = 0 → x.dev.buffer = none) := by
  have counted : Counted x := (reached_counted hfew hrun).2
  exact ⟨counted.openings, fun c hc => counted.alloc hc, counted.freed⟩

theorem openings_counted_handover :
    ∃ x, handover.foldlM Concurrent.step (.init 3) = .ok x ∧
      ∀ d, x.dev.openings d = x.holders (·.has d) :=
  ⟨_, rfl, (openings_counted (by decide)
    (show handover.foldlM Concurrent.step (.init 3) = .ok _ from rfl)).1⟩

end Counters

end KernelTraining.Pipe
