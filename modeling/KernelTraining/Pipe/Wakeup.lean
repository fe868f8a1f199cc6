import KernelTraining.Machine.WaitQueue
import KernelTraining.Pipe.History

/-!
# Wake-ups

A call that has found nothing to do is in `schedule` until somebody wakes it up.  A transfer
that has moved bytes wakes up the queue on the other side, after it has given the semaphore
back; between its pointer and that step the sleepers there could go on and are still asleep.

So a sleeper that could go on should be about to be woken up (`NoLostWakeup`).  The transfers
see to that, but an opening makes a full buffer empty and wakes up nobody: it is the only
step that can leave a writer asleep next to an empty buffer (`no_lost_wakeup_iff`).

## Strategy

Whether somebody could go on depends on the pointers, so two kinds of step matter.

* **Going to sleep.**  A sleeper has tested its condition in the step before, without the
  semaphore.  `Outside` has kept what it saw, so that it cannot have been ready then; every
  step after that either leaves the pointers alone or is one of the second kind.
* **Setting the pointers.**  `ready_commit` says for whom this makes a difference: a read
  makes room for the writers, a write brings bytes for the readers, and each of them wakes up
  just these afterwards (`Call.willWake`).  `ready_body` says that the part of a section
  before the pointers changes nobody's condition, a new buffer included.

`NoLostWakeup.effect` puts this together for all steps but the pointers of an opening.  For
these, `noLostWakeup_open_iff` is an equivalence: nobody is left behind exactly if the
opening finds no writer asleep, or makes no space for him, or he is about to be woken up
already (`Concurrent.Awake`).  The theorem about runs is an equivalence for this reason: a
run that loses a wake-up has done so at an opening that was not `Awake`.
-/

namespace KernelTraining.Pipe

open Machine Abstract Concurrent

/-- Asleep on the queue, and nobody has woken it up. -/
def Call.sleepsOn (q : WaitQueue) (c : Call) : Bool :=
  decide (c.op.queue = some q) && decide (c.stage = .asleep false)

/-- The call is going to wake up the queue: it has moved its pointer. -/
def Call.willWake (q : WaitQueue) (c : Call) : Bool :=
  decide (c.op.wakes = some q) &&
    match c.stage with
    | .leaving (some answer) => decide (0 ≤ answer.retval)
    | .waking _ => true
    | _ => false

/-- Whoever is asleep and could go on is about to be woken up. -/
def Concurrent.NoLostWakeup (x : Concurrent) : Prop :=
  ∀ q, Awaited (Call.sleepsOn q) (Call.willWake q) (fun _ => ready x.dev q = .ok true) x.calls

/-- If a writer is asleep, then an opening makes no space for him, or somebody is about to wake
him up. -/
def Concurrent.Awake (x : Concurrent) : Prop :=
  (∃ d ∈ x.calls, d.sleepsOn .outq = true) →
    x.scullPBuffer = 1 ∨ ∃ d ∈ x.calls, d.willWake .outq = true

instance (x : Concurrent) : Decidable x.Awake := by
  unfold Concurrent.Awake
  infer_instance

instance (x : Concurrent) : Decidable x.NoLostWakeup :=
  decidable_of_iff (∀ q ∈ [WaitQueue.inq, .outq], ∀ d ∈ x.calls, d.sleepsOn q = true →
      ready x.dev q = .ok true → ∃ w ∈ x.calls, w.willWake q = true) <| by
    constructor
    · intro h q
      cases q with
      | inq => exact h .inq (by simp)
      | outq => exact h .outq (by simp)
    · exact fun h q _ => h q

/-! ## Who sleeps and who wakes -/

section Stages

variable {q : WaitQueue} {c : Call}

theorem sleepsOn_eq_false {stage : Stage} (op : Op) (h : stage ≠ .asleep false) :
    Call.sleepsOn q ⟨op, stage⟩ = false := by
  rw [Call.sleepsOn, decide_eq_false h, Bool.and_false]

theorem willWake_of_idle (h : c.stage.idle = true) : c.willWake q = false := by
  obtain ⟨op, stage⟩ := c
  cases stage <;> first | exact Bool.and_false _ | cases h

/-- Waking up does not change who is going to wake whom up. -/
theorem willWake_wakeUp (q q' : WaitQueue) (c : Call) :
    (c.wakeUp q').willWake q = c.willWake q := by
  obtain ⟨op, stage⟩ := c
  unfold Call.wakeUp
  split_ifs
  · cases stage <;> rfl
  · rfl

theorem sleepsOn_wakeUp (q q' : WaitQueue) (c : Call) :
    (c.wakeUp q').sleepsOn q = (c.sleepsOn q && decide (q ≠ q')) := by
  obtain ⟨op, stage⟩ := c
  unfold Call.wakeUp
  split_ifs with hq
  · -- the call sleeps on `q'`, if it sleeps
    have hq' : op.queue = some q' := hq
    cases stage with
    | asleep woken =>
        by_cases hqq : q = q'
        · simp [Call.sleepsOn, hqq]
        · simp [Call.sleepsOn, hq', Ne.symm hqq]
    | _ => simp [Call.sleepsOn]
  · have hq' : op.queue ≠ some q' := hq
    by_cases hqq : q = q'
    · subst hqq
      simp [Call.sleepsOn, hq']
    · simp [hqq]

end Stages

section Steps

variable {x x' : Concurrent} {a : Action} {r : RingBuffer UInt8}

theorem ready_congr {dev dev' : ScullPipe} (hrp : dev'.rp = dev.rp) (hwp : dev'.wp = dev.wp)
    (hsize : dev'.buffersize = dev.buffersize) (q : WaitQueue) : ready dev' q = ready dev q := by
  cases q with
  | inq => rw [ready, ready, hrp, hwp]
  | outq => rw [ready, ready, spacefree, spacefree, hrp, hwp, hsize]

/-- A step of one call, which goes on being about to wake somebody up if it was: whoever could
go on after it could before, or the call is going to wake them up. -/
theorem Concurrent.NoLostWakeup.set (h : x.NoLostWakeup) {i : ℕ} {c : Call} {stage : Stage}
    (hc : x.calls[i]? = some c) (hcalls : x'.calls = x.calls.set i { c with stage := stage })
    (hready : ∀ q, ready x'.dev q = .ok true →
      ready x.dev q = .ok true ∨ Call.willWake q { c with stage := stage } = true)
    (hsleeps : ∀ q, Call.sleepsOn q { c with stage := stage } = true → ready x'.dev q ≠ .ok true)
    (hwakes : ∀ q, c.willWake q = true → Call.willWake q { c with stage := stage } = true) :
    x'.NoLostWakeup := by
  intro q
  rw [hcalls]
  exact (h q).set hc (fun _ _ _ => hready q) (hsleeps q) (hwakes q)

/-- A new call neither sleeps nor wakes anybody up. -/
theorem Concurrent.NoLostWakeup.concat (h : x.NoLostWakeup) {op : Op}
    (hcalls : x'.calls = x.calls ++ [⟨op, .entering⟩]) (hdev : x'.dev = x.dev) :
    x'.NoLostWakeup := by
  intro q
  rw [hcalls, hdev]
  exact (h q).concat (sleepsOn_eq_false op Stage.noConfusion)

/-- The wake-up itself. -/
theorem Concurrent.NoLostWakeup.wakes (h : x.NoLostWakeup) {i : ℕ} {c : Call} (answer : Answer)
    (hc : x.calls[i]? = some c) :
    ((x.advance i c (.returned answer)).wakeUp c.op.wakes).NoLostWakeup := by
  intro q
  rw [wakeUp_dev]
  -- on another queue than the one that is woken up, the call has woken up nobody
  have hother : c.op.wakes ≠ some q → Awaited (Call.sleepsOn q) (Call.willWake q)
      (fun _ => ready x.dev q = .ok true) (x.calls.set i { c with stage := .returned answer }) := by
    intro hne
    refine (h q).set hc (fun _ _ _ => .inl) ?_ ?_
    · intro hsleeps
      rw [sleepsOn_eq_false _ Stage.noConfusion] at hsleeps
      cases hsleeps
    · intro hwakes
      simp [Call.willWake, hne] at hwakes
  cases hwakes : c.op.wakes with
  | none => exact hother (by simp [hwakes])
  | some q' =>
      show Awaited _ _ _ ((x.calls.set i { c with stage := .returned answer }).map (Call.wakeUp q'))
      by_cases hq : q = q'
      · subst hq
        refine .of_awake fun d hd => ?_
        obtain ⟨d, -, rfl⟩ := List.mem_map.mp hd
        rw [sleepsOn_wakeUp]
        simp
      · refine (hother (by simp [hwakes, Ne.symm hq])).map (fun d hd => ?_) (fun _ => id)
          fun d hd => ?_
        · rw [sleepsOn_wakeUp, Bool.and_eq_true] at hd
          exact hd.1
        · rwa [willWake_wakeUp]

/-! ## What the pointers do to the sleepers -/

theorem ready_inq_iff {dev : ScullPipe} (points : dev.Points r) :
    ready dev .inq = .ok true ↔ r.contents ≠ [] := by
  rw [Ne, ← points.empty_iff, ready]
  simp

theorem ready_outq_iff {dev : ScullPipe} (points : dev.Points r) :
    ready dev .outq = .ok true ↔ (r.size : ℤ) - 1 - r.contents.length ≠ 0 := by
  rw [ready, points.spacefree_eq]
  simp [Except.map]

/-- After its pointer a transfer has made room or brought bytes for those it wakes up, and
for nobody else. -/
theorem ready_commit (holds : x.dev.Holds r) {op : Op} {answer : Answer}
    (begun : Begun r answer op) (htransfer : op.queue ≠ none)
    (hdev : x'.dev = op.commit x.scullPBuffer answer x.dev) (q : WaitQueue)
    (hq : ready x'.dev q = .ok true) : ready x.dev q = .ok true ∨ op.wakes = some q := by
  cases op with
  | read fd count =>
      obtain ⟨n, hcount, hrun, hpos, rfl⟩ := begun
      cases q with
      | outq => exact .inr rfl
      | inq =>
          have holds' : x'.dev.Holds (r.read n hrun) := hdev ▸ holds.advanceRp hrun
          rw [ready_inq_iff holds'.toPoints, r.contents_read hrun] at hq
          refine .inl ((ready_inq_iff holds.toPoints).mpr ?_)
          intro hempty
          rw [hempty, List.drop_nil] at hq
          exact hq rfl
  | write fd buf =>
      obtain ⟨n, r₀, h, hn, rfl, rfl⟩ := begun
      cases q with
      | inq => exact .inr rfl
      | outq =>
          have hlength : (buf.take n).length = n := by
            rw [List.length_take]
            exact Nat.min_eq_left hn
          have holds' : x'.dev.Holds (r₀.write (buf.take n) h) := by
            have hadvance := holds.advanceWp
            rw [hlength] at hadvance
            exact hdev ▸ hadvance
          rw [ready_outq_iff holds'.toPoints, r₀.contents_write h, List.length_append] at hq
          refine .inl ((ready_outq_iff holds.toPoints).mpr ?_)
          have hle := (r₀.write (buf.take n) h).length_contents_le
          rw [r₀.contents_write h, List.length_append] at hle
          rw [r₀.contents_scribble h]
          change (r₀.size : ℤ) - 1 - _ ≠ 0 at hq
          change _ ≤ r₀.size - 1 at hle
          show (r₀.size : ℤ) - 1 - _ ≠ 0
          push_cast at hq
          omega
  | _ => exact absurd rfl htransfer

/-- What comes before the pointers leaves them alone. -/
theorem ready_body {op : Op} {env : Env} {answer : Answer} {dev : ScullPipe}
    (hbody : op.body x.scullPBuffer x.dev env = .ok (some (answer, dev))) (q : WaitQueue) :
    ready dev q = ready x.dev q := by
  cases op with
  | «open» mode =>
      cases body_open hbody with
      | allocated bytes => exact ready_congr rfl rfl rfl q
      | _ => rfl
  | release mode =>
      obtain ⟨-, rfl⟩ := Prod.mk.inj (Option.some.inj (Except.ok.inj hbody))
      exact ready_congr rfl rfl rfl q
  | read fd count => rw [(body_read hbody).1]
  | write fd buf =>
      obtain ⟨old, bytes, -, -, rfl⟩ := scullPWrite_dev hbody
      exact ready_congr rfl rfl rfl q
  | poll fd => rw [body_poll hbody]

/-- Every step but the pointers of an opening. -/
theorem Concurrent.NoLostWakeup.effect (h : x.NoLostWakeup) (queued : Queued x r)
    (balanced : x.Balanced) (staged : x.Staged)
    (hopens : ∀ i env, a = .next i env → ∀ c ∈ x.calls[i]?, c.opens = false)
    (heffect : Effect x a x') : x'.NoLostWakeup := by
  cases heffect with
  | stays => exact h
  | called op => exact h.concat rfl rfl
  | closed fd mode => exact h.concat rfl rfl
  | told arg => exact fun q hq => h q hq
  | moves i env c stage hc hfrom hto =>
      refine h.set hc rfl (fun q hq => .inl hq) ?_ ?_
      · intro q hsleeps hq
        rw [Call.sleepsOn, Bool.and_eq_true, decide_eq_true_eq, decide_eq_true_eq] at hsleeps
        have hready := hto.asleep q hsleeps.1 hsleeps.2
        rw [show ready x.dev q = .ok true from hq] at hready
        cases hready
      · intro q hwakes
        rw [willWake_of_idle hfrom] at hwakes
        cases hwakes
  | acquires i env c sem hc hstage =>
      refine h.set hc rfl (fun q hq => .inl hq) ?_ ?_
      · intro q hsleeps
        rw [sleepsOn_eq_false _ Stage.noConfusion] at hsleeps
        cases hsleeps
      · intro q hwakes
        rw [willWake_of_idle (by rw [hstage]; rfl)] at hwakes
        cases hwakes
  | blocks i env c hc hstage =>
      refine h.set hc rfl (fun q hq => .inl hq) ?_ ?_
      · intro q hsleeps
        rw [sleepsOn_eq_false _ Stage.noConfusion] at hsleeps
        cases hsleeps
      · intro q hwakes
        simp [Call.willWake, hstage] at hwakes
  | acts i env c answer dev hc hstage hbody =>
      refine h.set hc rfl (fun q hq => .inl ((ready_body hbody q).symm.trans hq)) ?_ ?_
      · intro q hsleeps
        rw [sleepsOn_eq_false _ Stage.noConfusion] at hsleeps
        cases hsleeps
      · intro q hwakes
        simp [Call.willWake, hstage] at hwakes
  | begins i env c answer dev hc hstage hbody =>
      refine h.set hc rfl (fun q hq => .inl ((ready_body hbody q).symm.trans hq)) ?_ ?_
      · intro q hsleeps
        rw [sleepsOn_eq_false _ Stage.noConfusion] at hsleeps
        cases hsleeps
      · intro q hwakes
        simp [Call.willWake, hstage] at hwakes
  | commits i env c answer hc hstage =>
      have begun := queued.begun i c hc answer hstage
      have hclosed := hopens i env rfl c hc
      have holds := queued.holds (opening_eq_zero balanced hc (by rw [hstage]; rfl) hclosed)
      have htransfer : c.op.queue ≠ none := by
        have hgoesOn := staged.halfway c (List.mem_of_getElem? hc) answer hstage
        refine (goesOn_cases hgoesOn).resolve_right ?_
        rintro ⟨mode, hop, -⟩
        rw [Call.opens, hop, hstage] at hclosed
        cases hclosed
      refine h.set hc rfl ?_ ?_ ?_
      · intro q hq
        refine (ready_commit holds begun htransfer rfl q hq).imp_right fun hwakes => ?_
        have hanswer : 0 ≤ answer.retval := by
          cases hop : c.op with
          | read fd count =>
              rw [hop] at begun
              obtain ⟨n, -, -, -, rfl⟩ := begun
              exact Int.natCast_nonneg n
          | write fd buf =>
              rw [hop] at begun
              obtain ⟨n, -, -, -, rfl, -⟩ := begun
              exact Int.natCast_nonneg n
          | _ => rw [hop] at htransfer; exact absurd rfl htransfer
        simp [Call.willWake, hwakes, hanswer]
      · intro q hsleeps
        rw [sleepsOn_eq_false _ Stage.noConfusion] at hsleeps
        cases hsleeps
      · intro q hwakes
        simp [Call.willWake, hstage] at hwakes
  | releases i env c stage hc hstage hto hawake =>
      refine h.set hc rfl (fun q hq => .inl hq) ?_ ?_
      · intro q hsleeps
        rw [sleepsOn_eq_false _ hawake] at hsleeps
        cases hsleeps
      · intro q hwakes
        simp [Call.willWake, hstage] at hwakes
  | answers i env c answer hc hstage =>
      refine h.set hc rfl (fun q hq => .inl hq) ?_ ?_
      · intro q hsleeps
        rw [sleepsOn_eq_false] at hsleeps
        · cases hsleeps
        · intro hfinish
          have hanswer := answer_finish c.op answer
          rw [hfinish] at hanswer
          cases hanswer
      · intro q hwakes
        simp only [Call.willWake, hstage, Bool.and_eq_true, decide_eq_true_eq] at hwakes
        simp [Call.willWake, finish, hwakes.1, hwakes.2]
  | wakes i env c answer hc hstage => exact h.wakes answer hc

theorem noLostWakeup_iff : x.NoLostWakeup ↔ ∀ q, ready x.dev q = .ok true →
    (∃ c ∈ x.calls, c.sleepsOn q = true) → ∃ c ∈ x.calls, c.willWake q = true := by
  constructor
  · rintro h q hq ⟨d, hd, hsleeps⟩
    exact h q d hd hsleeps hq
  · intro h q d hd hsleeps hq
    exact h q hq ⟨d, hd, hsleeps⟩

/-- Who sleeps and who wakes whom up is not changed by a call that does neither. -/
theorem exists_mem_set_iff {i : ℕ} {c d : Call} {p : Call → Bool} (hc : x.calls[i]? = some c)
    (hp : p c = false) (hp' : p d = false) :
    (∃ e ∈ x.calls.set i d, p e = true) ↔ ∃ e ∈ x.calls, p e = true := by
  rw [← List.countP_pos_iff, ← List.countP_pos_iff, countP_set_of_eq hc (hp'.trans hp.symm)]

/-- **An opening leaves no sleeper behind exactly when it finds none**, or makes no space, or
the sleepers are about to be woken up anyway. -/
theorem noLostWakeup_open_iff (ok : x.Ok) {i : ℕ} {env : Env} {c : Call}
    (hc : x.calls[i]? = some c) (hopens : c.opens = true) (hfits : x.Fits)
    (hstep : x.step (.next i env) = .ok x') :
    x'.NoLostWakeup ↔ AtOpenings Concurrent.Awake x (.next i env) := by
  obtain ⟨-, counted, r, queued⟩ := ok
  have halloc := counted.begun (List.countP_pos_iff.mpr ⟨c, List.mem_of_getElem? hc, hopens⟩)
  obtain ⟨mode, answer, rfl⟩ : ∃ mode answer, c = ⟨.open mode, .halfway answer⟩ := by
    obtain ⟨op, stage⟩ := c
    cases op with
    | «open» mode =>
        cases stage with
        | halfway answer => exact ⟨mode, answer, rfl⟩
        | _ => cases hopens
    | _ => cases hopens
  -- the call itself neither sleeps nor wakes anybody up
  have hsleeps (q : WaitQueue) (stage : Stage) : Call.sleepsOn q ⟨.open mode, stage⟩ = false :=
    Bool.false_and _
  have hwakes (q : WaitQueue) (stage : Stage) : Call.willWake q ⟨.open mode, stage⟩ = false :=
    Bool.false_and _
  have hasleep (q : WaitQueue) :=
    exists_mem_set_iff (d := ⟨.open mode, .leaving (some answer)⟩) hc (hsleeps q _) (hsleeps q _)
  have hwaking (q : WaitQueue) :=
    exists_mem_set_iff (d := ⟨.open mode, .leaving (some answer)⟩) hc (hwakes q _) (hwakes q _)
  have hawake : AtOpenings Concurrent.Awake x (.next i env) ↔ x.Awake :=
    ⟨fun hawake => hawake _ hc rfl, fun hawake _ _ _ => hawake⟩
  obtain ⟨bytes, hbuffer⟩ := Option.ne_none_iff_exists'.mp halloc
  obtain ⟨r', holds', hqueue⟩ :=
    ScullPipe.reopen_holds queued.range hbuffer (hfits bytes hbuffer) mode
  have hcontents : r'.contents = [] := congrArg Queue.items hqueue
  simp only [Concurrent.step, hc, Concurrent.next] at hstep
  obtain rfl := Except.ok.inj hstep
  have hinq : ¬ ready (x.dev.reopen x.scullPBuffer mode) .inq = .ok true := by
    rw [ready_inq_iff holds'.toPoints, hcontents]
    exact fun h => h rfl
  have houtq : ready (x.dev.reopen x.scullPBuffer mode) .outq = .ok true ↔ x.scullPBuffer ≠ 1 := by
    have hsize : x.scullPBuffer = r'.size := holds'.buffersize
    rw [ready_outq_iff holds'.toPoints, hcontents, hsize, List.length_nil]
    omega
  rw [hawake, noLostWakeup_iff, Concurrent.Awake]
  constructor
  · intro h' hsleeper
    by_cases hsize1 : x.scullPBuffer = 1
    · exact .inl hsize1
    · exact .inr ((hwaking .outq).mp (h' .outq (houtq.mpr hsize1) ((hasleep .outq).mpr hsleeper)))
  · intro hcond q hq hsleeper
    cases q with
    | inq => exact absurd hq hinq
    | outq =>
        rcases hcond ((hasleep .outq).mp hsleeper) with hsize1 | hwaker
        · exact absurd hsize1 (houtq.mp hq)
        · exact (hwaking .outq).mpr hwaker

end Steps

theorem Concurrent.NoLostWakeup.init (scullPBuffer : ℤ) :
    (Concurrent.init scullPBuffer).NoLostWakeup := by
  intro q c hc
  cases hc

/-- A pipe for one byte is full, a writer goes to sleep, and somebody opens the device. -/
def stranding : List Action :=
  [.call (.open ⟨true, true⟩), .next 0 {}, .next 0 {}, .next 0 {}, .next 0 {},
    .call (.write 0 [1]), .next 1 {}, .next 1 {}, .next 1 {}, .next 1 {}, .next 1 {},
    .call (.write 0 [2]), .next 2 {}, .next 2 {}, .next 2 {}, .next 2 {}, .next 2 {},
    .call (.open ⟨true, false⟩), .next 3 {}, .next 3 {}, .next 3 {}, .next 3 {}]

end KernelTraining.Pipe
