import KernelTraining.Scull.Interleaving
import KernelTraining.Scull.Sparse

/-!
# Concurrent callers share one sparse file

What callers of any number learn from each other when the steps of their calls are
interleaved.  A transfer takes effect in its locked section, and nowhere else: at that
moment it answers as a call of its own would, against what all the sections before it have
made known.  So every interleaving can be told as one sequence of transfers and openings on
sparse files (`sections_linearize`), provided that the sections find the parameters of their
snapshots.

They do when nobody changes `scull_quantum` or `scull_qset` while the module is in use
(`constant_parameters_linearize`).

## Strategy

The steps are those of `Scull.Interleaving`, the knowledge is that of `Scull.Sparse`.  The
ghost advances at a section and at an opening (`Contents.next`); a snapshot and an ioctl tell
nothing.

* `Known.section` is a section: its reply keeps to what is known (`Answered`), and it fails
  when the wait is interrupted or there is no memory for a write, and in no other case
  (`Pending.failure`).  A section that is run late finds what the others have made known
  meanwhile, so nothing has to be said about the time between its two steps.  A read that starts
  behind the end of the device looks at none of its data, so it may have a stale snapshot
  (`Known.section_end`).
* `Known.tells` has a case for each step, and the run follows from the invariant rule.
* **Which snapshots are stale** depends on the steps in between.  With parameters that stay,
  every device and every snapshot has those of the module (`Concurrent.Uniform`): a trim gives
  a device the parameters it has already.  So the second theorem follows from the first, and
  has no condition on snapshots left.
-/

namespace KernelTraining.Scull

open Machine Abstract

/-! ## What is known, section by section -/

/-- What the section of pending transfer `i` answers. -/
def Concurrent.reply (x : Concurrent) (i : ℕ) (env : Env) : Option (Pending × Reply) := do
  let t ← x.pending[i]?
  let dev ← x.state.devices[t.dev]?
  if env.interrupted then pure (t, ⟨-ERESTARTSYS, []⟩)
  else
    match t.section x.state.heap dev env with
    | .ok out => pure (t, ⟨out.retval, out.copied⟩)
    | .error _ => none

/-- What is known after a transfer has been answered. -/
def Contents.transferred (M : Contents) (t : Pending) (reply : Reply) : Contents :=
  match t.transfer with
  | .read _ => M
  | .write buf =>
      if 0 ≤ reply.retval then
        Function.update M t.dev ((M t.dev).store t.fPos (buf.take reply.retval.toNat))
      else M

/-- A transfer tells about its own device only. -/
theorem Contents.transferred_eq (M : Contents) (t : Pending) (reply : Reply) :
    M.transferred t reply = Function.update M t.dev (M.transferred t reply t.dev) := by
  funext j
  by_cases hj : j = t.dev
  · rw [hj, Function.update_self]
  · rw [Function.update_of_ne hj]
    unfold Contents.transferred
    cases t.transfer with
    | read count => rfl
    | write buf =>
        dsimp only
        split_ifs
        · rw [Function.update_of_ne hj]
        · rfl

/-- What is known after a step.  Only sections and openings tell anything. -/
def Contents.next (M : Contents) (x : Concurrent) : Action → Contents
  | .lock i env =>
      match x.reply i env with
      | some (t, reply) => M.transferred t reply
      | none => M
  | .open minor flags env =>
      match scullOpen x.state minor flags env with
      | .ok (reply, _) => M.after x.state (.open minor flags env) reply
      | .error _ => M
  | .enter _ => M
  | .ioctl .. => M

/-- One step, with what is known. -/
def ghostStep (x : Concurrent × Contents) (a : Action) : Except Fault (Concurrent × Contents) :=
  (x.1.step a).map fun x' => (x', x.2.next x.1 a)

/-- Why a section fails, if it does: the wait for the semaphore was interrupted, or there is no
memory for a write. -/
def Pending.failure (t : Pending) (h : Heap Block) (dev : ScullDev) (env : Env) : Option ℤ :=
  if env.interrupted then some ERESTARTSYS
  else
    match t.transfer with
    | .read _ => none
    | .write _ =>
        if Supplied h (missingAt h dev t.fPos) env.answers then none else some ENOMEM

/-- What a transfer answers, and leaves of its device, when what is known of the devices is
`M` before and `M'` afterwards. -/
def Answered (M M' : Contents) (t : Pending) (reply : Reply) (dev dev' : ScullDev) : Prop :=
  match t.transfer with
  | .read count =>
      M' = M ∧ dev'.size = dev.size ∧
        (reply.retval < 0 ∧ reply.copied = [] ∨
          ∃ k : ℕ, reply.retval = k ∧
            ReadCorrect (M t.dev) count t.fPos dev.size k reply.copied)
  | .write buf =>
      reply.retval < 0 ∧ M' = M ∧ dev'.size = dev.size ∨
        ∃ k : ℕ, reply.retval = k ∧ k ≤ buf.length ∧ (k = 0 → buf = []) ∧
          dev'.size = max dev.size (t.fPos + k) ∧
          M' = Function.update M t.dev ((M t.dev).store t.fPos (buf.take k))

/-- What a step does, as the callers see it. -/
def Told (x : Concurrent) (M : Contents) (a : Action) (x' : Concurrent) : Prop :=
  match a with
  | .enter _ => x'.state = x.state
  | .lock i env => ∀ t ∈ x.pending[i]?, ∀ dev ∈ x.state.devices[t.dev]?,
      (∀ j ≠ t.dev, x'.state.devices[j]? = x.state.devices[j]?) ∧
        ∃ reply dev', x.reply i env = some (t, reply) ∧
          Excused (t.failure x.state.heap dev env) reply ∧
          x'.state.devices[t.dev]? = some dev' ∧ Answered M (M.next x a) t reply dev dev'
  | .open minor flags env => ∃ reply, scullOpen x.state minor flags env = .ok (reply, x'.state) ∧
      Contract x.state M (.open minor flags env) reply x'.state
  | .ioctl .. => x'.state.devices = x.state.devices ∧ x'.state.files = x.state.files

/-- The step returns, and tells nothing but what is known. -/
def Linearizes (x : Concurrent × Contents) (a : Action) : Prop :=
  ∃ x', x.1.step a = .ok x' ∧ Told x.1 x.2 a x'

/-- The steps of the contract: sections without bad user pages and at positions whose item
number fits an `int`, and ioctls that leave parameters a trim can use. -/
def AdmissibleStep (x : Concurrent) : Action → Prop
  | .lock i env => env.fault = none ∧ ∀ t ∈ x.pending[i]?, ∀ dev ∈ x.state.devices[t.dev]?,
      (t.fPos : ℤ) / (dev.quantum * dev.qset) < 2147483648
  | .ioctl cmd arg env => (scullIoctl x.state.globals cmd arg env).globals.Usable
  | _ => True

instance (x : Concurrent) : ∀ a, Decidable (AdmissibleStep x a)
  | .enter _ | .open .. => inferInstanceAs (Decidable True)
  | .lock .. => inferInstanceAs (Decidable (_ ∧ _))
  | .ioctl .. => inferInstanceAs (Decidable (Globals.Usable _))

/-! ## One section -/

section Sections

variable {s : State} {M : Contents} {own : ℕ → Owned} {t : Pending} {dev : ScullDev}

/-- The section answers as a call of its own would, and the device still owns its data. -/
def AnswersAlone (s : State) (M : Contents) {G : Geometry} (L : Layout G) (t : Pending)
    (dev : ScullDev) (env : Env) : Prop :=
  ∃ out, ∃ L' : Layout G, t.section s.heap dev env = .ok out ∧
    Owns out.heap out.dev L' ∧ Frame s.heap L.blocks out.heap L'.blocks ∧
    Excused (t.failure s.heap dev env) ⟨out.retval, out.copied⟩ ∧
    Holds L' out.dev (M.transferred t ⟨out.retval, out.copied⟩ t.dev) ∧
    Answered M (M.transferred t ⟨out.retval, out.copied⟩) t ⟨out.retval, out.copied⟩ dev out.dev

theorem failure_read {count : ℕ} (htransfer : t.transfer = .read count) {env : Env}
    (hgranted : env.interrupted = false) : t.failure s.heap dev env = none := by
  simp only [Pending.failure, hgranted, htransfer, Bool.false_eq_true, if_false]

theorem Known.section_read (known : Known s M own) (hdev : s.devices[t.dev]? = some dev)
    {count : ℕ} (htransfer : t.transfer = .read count)
    (hparams : t.quantum = dev.quantum ∧ t.qset = dev.qset) {env : Env}
    (hfault : env.fault = none) (hgranted : env.interrupted = false)
    (hreaches : (own t.dev).geometry.Reaches t.fPos) :
    AnswersAlone s M (own t.dev).layout t dev env := by
  have owns := known.inv.owns hdev
  have holds := known.holds hdev
  have hfits := t.fits
  rw [htransfer, Transfer.count] at hfits
  obtain ⟨k, copied, hout, hcorrect, -⟩ := holds.read (h := s.heap) hreaches count hfault
  refine ⟨⟨k, ((t.fPos + k : ℕ) : ℤ), copied, dev, s.heap⟩, _, ?_, owns, .refl _ _,
    .of_none (failure_read htransfer hgranted) (Int.natCast_nonneg k), ?_, ?_⟩
  · simp only [Pending.section, htransfer, hparams.1, hparams.2]
    rw [scullReadLocked_eq owns holds.covers (fun _ => hreaches) hfits, hout]
  · simpa only [Contents.transferred, htransfer] using holds
  · simp only [Answered, Contents.transferred, htransfer]
    exact ⟨trivial, trivial, .inr ⟨k, rfl, hcorrect⟩⟩

theorem Known.section_write (known : Known s M own) (hdev : s.devices[t.dev]? = some dev)
    {buf : List UInt8} (htransfer : t.transfer = .write buf)
    (hparams : t.quantum = dev.quantum ∧ t.qset = dev.qset) {env : Env}
    (hfault : env.fault = none) (hgranted : env.interrupted = false)
    (hreaches : (own t.dev).geometry.Reaches t.fPos) :
    AnswersAlone s M (own t.dev).layout t dev env := by
  have owns := known.inv.owns hdev
  have hfits := t.fits
  rw [htransfer] at hfits
  obtain ⟨out, L', hout, -, owns', frame, hnodes, written, hsupplied⟩ :=
    scullWriteLocked_spec owns buf hfits env
  have hfailure : t.failure s.heap dev env =
      if Supplied s.heap (missingAt s.heap dev t.fPos) env.answers then none
      else some ENOMEM := by
    simp only [Pending.failure, hgranted, htransfer, Bool.false_eq_true, if_false]
  rw [← owns.missingAt_eq] at hsupplied
  refine ⟨out, L', ?_, owns', frame, ?_⟩
  · simp only [Pending.section, htransfer, hparams.1, hparams.2]
    exact hout
  simp only [Answered, Contents.transferred, htransfer]
  rw [hfailure]
  rcases (known.holds hdev).write hreaches hfault hnodes written with
    ⟨hretval, -, hsize, holds'⟩ | ⟨k, hk, hle, hzero, -, hsize, holds'⟩
  · have hneg : out.retval < 0 := by
      rw [hretval]
      decide
    rw [if_neg (not_le.mpr hneg)]
    exact ⟨.of_supplied hsupplied (absurd hretval ·), holds', .inl ⟨hneg, rfl, hsize⟩⟩
  · have hexcused : Excused _ ⟨out.retval, out.copied⟩ :=
      .of_supplied hsupplied fun _ => hk ▸ Int.natCast_nonneg k
    refine ⟨hexcused, ?_⟩
    rw [hk, if_pos (Int.natCast_nonneg k), Int.toNat_natCast, Function.update_self]
    exact ⟨holds', .inr ⟨k, rfl, hle, hzero, hsize, rfl⟩⟩

/-- Whatever the snapshot says, there is nothing behind the end. -/
theorem Known.section_end (known : Known s M own) (hdev : s.devices[t.dev]? = some dev)
    {count : ℕ} (htransfer : t.transfer = .read count) (hend : dev.size ≤ t.fPos) {env : Env}
    (hgranted : env.interrupted = false) : AnswersAlone s M (own t.dev).layout t dev env := by
  have holds := known.holds hdev
  have hfits := t.fits
  rw [htransfer] at hfits
  have hpos : t.fPos < 18446744073709551616 := by omega
  have hunknown : M t.dev t.fPos = none := by
    by_contra hknown
    exact absurd (holds.lt_size _ hknown) (not_lt.mpr hend)
  refine ⟨⟨0, t.fPos, [], dev, s.heap⟩, _, ?_, known.inv.owns hdev, .refl _ _,
    .of_none (failure_read htransfer hgranted) le_rfl, ?_, ?_⟩
  · simp only [Pending.section, htransfer, scullReadLocked, toULong_natCast hpos, if_pos hend]
    rfl
  · simpa only [Contents.transferred, htransfer] using holds
  · simp only [Answered, Contents.transferred, htransfer]
    refine ⟨trivial, trivial, .inr ⟨0, rfl, Nat.zero_le _, ?_, rfl, ?_, fun _ => .inr hunknown⟩⟩
    · exact le_max_of_le_left le_rfl
    · exact fun j hj => absurd hj (Nat.not_lt_zero j)

/-- **A section answers as a call of its own would.** -/
theorem Known.section (known : Known s M own) (hdev : s.devices[t.dev]? = some dev)
    (hcurrent : (t.quantum = dev.quantum ∧ t.qset = dev.qset) ∨
      (dev.size ≤ t.fPos ∧ t.transfer.isRead)) {env : Env} (hfault : env.fault = none)
    (hgranted : env.interrupted = false)
    (hreach : (t.fPos : ℤ) / (dev.quantum * dev.qset) < 2147483648) :
    AnswersAlone s M (own t.dev).layout t dev env := by
  have hreaches := reaches_of_admissible (known.inv.owns hdev) hreach
  cases htransfer : t.transfer with
  | read count =>
      rcases hcurrent with hparams | ⟨hend, -⟩
      · exact known.section_read hdev htransfer hparams hfault hgranted hreaches
      · exact known.section_end hdev htransfer hend hgranted
  | write buf =>
      rcases hcurrent with hparams | ⟨-, hisRead⟩
      · exact known.section_write hdev htransfer hparams hfault hgranted hreaches
      · rw [htransfer] at hisRead
        cases hisRead

end Sections

/-! ## One step -/

/-- The device has the parameters of the module. -/
def ScullDev.IsSet (dev : ScullDev) (g : Globals) : Prop :=
  dev.quantum = g.quantum ∧ dev.qset = g.qset

/-- Devices keep their parameters, or take those of the module. -/
def Inherits (s s' : State) : Prop :=
  ∀ (j : ℕ) (dev' : ScullDev), s'.devices[j]? = some dev' → dev'.IsSet s.globals ∨
    ∃ dev, s.devices[j]? = some dev ∧ dev'.quantum = dev.quantum ∧ dev'.qset = dev.qset

section Steps

variable {s s' : State} {x : Concurrent} {M : Contents} {own : ℕ → Owned} {a : Action}

theorem Inherits.of_eq (hdevices : s'.devices = s.devices) : Inherits s s' :=
  fun _ dev' hdev => .inr ⟨dev', hdevices ▸ hdev, rfl, rfl⟩

theorem Inherits.set {i : ℕ} {dev' : ScullDev} (hdevices : s'.devices = s.devices.set i dev')
    (hdev' : dev'.IsSet s.globals ∨
      ∃ dev, s.devices[i]? = some dev ∧ dev'.quantum = dev.quantum ∧ dev'.qset = dev.qset) :
    Inherits s s' := by
  intro j d hd
  rw [hdevices] at hd
  by_cases hj : i = j
  · subst hj
    have hi : i < s.devices.length := by
      simpa using (List.getElem?_eq_some_iff.mp hd).1
    rw [List.getElem?_set_self hi, Option.some.injEq] at hd
    exact hd ▸ hdev'
  · rw [List.getElem?_set_ne hj] at hd
    exact .inr ⟨d, hd, rfl, rfl⟩

/-- The parameters of the module after a step. -/
def Concurrent.globalsAfter (x : Concurrent) : Action → Globals
  | .ioctl cmd arg env => (scullIoctl x.state.globals cmd arg env).globals
  | _ => x.state.globals

/-- What a step of the contract does. -/
def Tells (x : Concurrent) (M : Contents) (a : Action) : Prop :=
  ∃ x', x.step a = .ok x' ∧ Told x M a x' ∧ x'.state.globals = x.globalsAfter a ∧
    Inherits x.state x'.state ∧ ∃ own', Known x'.state (M.next x a) own'

theorem Known.tells_lock (known : Known x.state M own) {i : ℕ} {env : Env} {t : Pending}
    {dev : ScullDev} (ht : x.pending[i]? = some t) (hdev : x.state.devices[t.dev]? = some dev)
    (hadm : AdmissibleStep x (.lock i env)) (hcurrent : SnapshotCurrent x (.lock i env)) :
    Tells x M (.lock i env) := by
  have hi := (List.getElem?_eq_some_iff.mp hdev).1
  obtain ⟨hfault, hreach⟩ := hadm
  by_cases hint : env.interrupted = true
  · have hreply : x.reply i env = some (t, ⟨-ERESTARTSYS, []⟩) := by
      simp only [Concurrent.reply, ht, hdev, hint, Option.bind_eq_bind, Option.bind_some, if_true]
      rfl
    have hnext : M.next x (.lock i env) = M := by
      simp only [Contents.next, hreply, Contents.transferred]
      cases t.transfer <;> rfl
    refine ⟨{ x with pending := x.pending.eraseIdx i }, ?_, ?_, rfl, .of_eq rfl, own, ?_⟩
    · simp only [Concurrent.step, ht, hdev, hint, if_true]
    · intro t' ht' dev' hdev'
      obtain rfl := Option.some.inj (ht.symm.trans ht')
      obtain rfl := Option.some.inj (hdev.symm.trans hdev')
      have hexcused : Excused (t.failure x.state.heap dev env) ⟨-ERESTARTSYS, []⟩ := by
        rw [Pending.failure, if_pos hint]
        rfl
      refine ⟨fun _ _ => rfl, _, dev, hreply, hexcused, hdev, ?_⟩
      rw [hnext, Answered]
      cases t.transfer with
      | read count => exact ⟨rfl, rfl, .inl ⟨by decide, rfl⟩⟩
      | write buf => exact .inl ⟨by decide, rfl, rfl⟩
    · rwa [hnext]
  · have hgranted : env.interrupted = false := by simpa using hint
    obtain ⟨out, L', hout, owns', frame, hexcused, holds', hanswered⟩ := known.section hdev
      (hcurrent hgranted t ht dev hdev) hfault hgranted (hreach t ht dev hdev)
    have hreply : x.reply i env = some (t, ⟨out.retval, out.copied⟩) := by
      simp only [Concurrent.reply, ht, hdev, Option.bind_eq_bind, Option.bind_some, if_neg hint,
        hout]
      rfl
    have hnext : M.next x (.lock i env) = M.transferred t ⟨out.retval, out.copied⟩ := by
      simp only [Contents.next, hreply]
    have owns := known.inv.owns hdev
    refine ⟨⟨x.state.release t.dev out, x.pending.eraseIdx i⟩, ?_, ?_, rfl, ?_,
      Function.update own t.dev ⟨_, L'⟩, ?_⟩
    · simp only [Concurrent.step, ht, hdev, if_neg hint, hout]
      rfl
    · intro t' ht' dev' hdev'
      obtain rfl := Option.some.inj (ht.symm.trans ht')
      obtain rfl := Option.some.inj (hdev.symm.trans hdev')
      refine ⟨fun j hj => List.getElem?_set_ne hj.symm, _, out.dev, hreply, hexcused,
        List.getElem?_set_self hi, ?_⟩
      rwa [hnext]
    · exact .set rfl (.inr ⟨dev, hdev, owns'.quantum.trans owns.quantum.symm,
        owns'.qset.trans owns.qset.symm⟩)
    · rw [hnext, M.transferred_eq]
      exact known.update (o := ⟨_, L'⟩) hi owns' frame known.inv.files holds'

theorem Known.tells_open (known : Known x.state M own) (husable : x.state.globals.Usable)
    (minor flags : ℕ) (env : Env) : Tells x M (.open minor flags env) := by
  obtain ⟨reply, s', hopen, hcontract, own', known'⟩ :=
    known.open fun _ : Trims x.state minor flags env => husable
  have hnext : M.next x (.open minor flags env) =
      M.after x.state (.open minor flags env) reply := by
    simp only [Contents.next]
    rw [show scullOpen x.state minor flags env = .ok (reply, s') from hopen]
  obtain ⟨_, _, hopen', hglobals, -⟩ :=
    known.inv.open fun _ : Trims x.state minor flags env => husable
  obtain ⟨rfl, rfl⟩ := Prod.mk.inj (Except.ok.inj (hopen.symm.trans hopen'))
  refine ⟨{ x with state := s' }, ?_, ⟨reply, hopen, hcontract⟩, hglobals, ?_, own',
    hnext ▸ known'⟩
  · simp only [Concurrent.step, hopen']
    rfl
  · by_cases htrims : Trims x.state minor flags env
    · obtain ⟨h', hcall, -⟩ := known.inv.call_open_of_trims htrims
      obtain ⟨-, rfl⟩ := Prod.mk.inj (Except.ok.inj (hopen.symm.trans hcall))
      exact .set rfl (.inl ⟨rfl, rfl⟩)
    · rcases State.call_open_of_not_trims htrims with ⟨_, _, hcall, -⟩ | ⟨-, -, hcall⟩
      all_goals
        obtain ⟨-, rfl⟩ := Prod.mk.inj (Except.ok.inj (hopen.symm.trans hcall))
        exact .of_eq rfl

/-- **A step of the contract tells nothing but what is known**, as long as no section is run
with a stale snapshot. -/
theorem Known.tells (known : Known x.state M own) (husable : x.state.globals.Usable)
    (hadm : AdmissibleStep x a) (hcurrent : SnapshotCurrent x a) : Tells x M a := by
  cases a with
  | enter request =>
      cases hdev : x.state.devices[request.dev]? with
      | none =>
          refine ⟨x, ?_, rfl, rfl, .of_eq rfl, own, known⟩
          simp only [Concurrent.step, hdev]
      | some dev =>
          refine ⟨{ x with
            pending := x.pending ++ [{ request with quantum := dev.quantum, qset := dev.qset }] },
            ?_, rfl, rfl, .of_eq rfl, own, known⟩
          simp only [Concurrent.step, hdev]
  | lock i env =>
      have hskip (hnone : ∀ t ∈ x.pending[i]?, x.state.devices[t.dev]? = none)
          (hstep : x.step (.lock i env) = .ok x) : Tells x M (.lock i env) := by
        have hnext : M.next x (.lock i env) = M := by
          simp only [Contents.next, Concurrent.reply]
          cases ht : x.pending[i]? with
          | none => rfl
          | some t =>
              simp only [Option.bind_eq_bind, Option.bind_some, hnone t ht, Option.bind_none]
        refine ⟨x, hstep, ?_, rfl, .of_eq rfl, own, by rwa [hnext]⟩
        intro t ht dev hdev
        rw [hnone t ht] at hdev
        cases hdev
      cases ht : x.pending[i]? with
      | none =>
          refine hskip (fun t ht' => by rw [ht] at ht'; cases ht') ?_
          simp only [Concurrent.step, ht]
      | some t =>
          cases hdev : x.state.devices[t.dev]? with
          | none =>
              refine hskip (fun t' ht' => Option.some.inj (ht.symm.trans ht') ▸ hdev) ?_
              simp only [Concurrent.step, ht, hdev]
          | some dev => exact known.tells_lock ht hdev hadm hcurrent
  | «open» minor flags env => exact known.tells_open husable minor flags env
  | ioctl cmd arg env =>
      exact ⟨_, rfl, ⟨rfl, rfl⟩, rfl, .of_eq rfl, own, known.keep _ known.inv.files⟩

theorem AdmissibleStep.usable (hadm : AdmissibleStep x a) (husable : x.state.globals.Usable) :
    (x.globalsAfter a).Usable := by
  cases a with
  | ioctl cmd arg env => exact hadm
  | enter | lock | «open» => exact husable

end Steps

/-! ## Runs -/

/-- Nobody changes `scull_quantum` or `scull_qset`. -/
def KeepsParameters (x : Concurrent) : Action → Prop
  | .ioctl cmd arg env => (scullIoctl x.state.globals cmd arg env).globals = x.state.globals
  | _ => True

instance (x : Concurrent) : ∀ a, Decidable (KeepsParameters x a)
  | .enter _ | .lock .. | .open .. => inferInstanceAs (Decidable True)
  | .ioctl .. => inferInstanceAs (Decidable (_ = _))

/-- Devices and snapshots have the parameters of the module. -/
structure Concurrent.Uniform (x : Concurrent) : Prop where
  devices : ∀ dev ∈ x.state.devices, dev.IsSet x.state.globals
  pending : ∀ t ∈ x.pending, t.quantum = x.state.globals.quantum ∧
    t.qset = x.state.globals.qset

section Uniform

variable {x x' : Concurrent} {a : Action}

theorem KeepsParameters.globalsAfter (hkeeps : KeepsParameters x a) :
    x.globalsAfter a = x.state.globals := by
  cases a with
  | ioctl cmd arg env => exact hkeeps
  | enter | lock | «open» => rfl

/-- Then no snapshot is stale. -/
theorem Concurrent.Uniform.snapshotCurrent (uniform : x.Uniform) (a : Action) :
    SnapshotCurrent x a := by
  cases a with
  | lock i env =>
      intro _ t ht dev hdev
      obtain ⟨hquantum, hqset⟩ := uniform.pending t (List.mem_of_getElem? ht)
      have hset := uniform.devices dev (List.mem_of_getElem? hdev)
      exact .inl ⟨hquantum.trans hset.1.symm, hqset.trans hset.2.symm⟩
  | enter | ioctl | «open» => trivial

/-- A step adds at most a snapshot of the device it finds. -/
theorem Concurrent.mem_pending (hstep : x.step a = .ok x') {t : Pending} (ht : t ∈ x'.pending) :
    t ∈ x.pending ∨ ∃ dev ∈ x.state.devices, t.quantum = dev.quantum ∧ t.qset = dev.qset := by
  cases a with
  | enter request =>
      simp only [Concurrent.step] at hstep
      split at hstep
      · exact .inl (Except.ok.inj hstep ▸ ht)
      · rename_i dev hdev
        rw [← Except.ok.inj hstep] at ht
        rcases List.mem_append.mp ht with hold | hnew
        · exact .inl hold
        · rw [List.mem_singleton.mp hnew]
          exact .inr ⟨dev, List.mem_of_getElem? hdev, rfl, rfl⟩
  | lock i env =>
      simp only [Concurrent.step] at hstep
      split at hstep
      · exact .inl (Except.ok.inj hstep ▸ ht)
      split at hstep
      · exact .inl (Except.ok.inj hstep ▸ ht)
      split_ifs at hstep
      · rw [← Except.ok.inj hstep] at ht
        exact .inl (List.mem_of_mem_eraseIdx ht)
      · obtain ⟨out, -, rfl⟩ := map_eq_ok.mp hstep
        exact .inl (List.mem_of_mem_eraseIdx ht)
  | «open» minor flags env =>
      obtain ⟨r, -, rfl⟩ := map_eq_ok.mp hstep
      exact .inl ht
  | ioctl cmd arg env =>
      rw [← Except.ok.inj hstep] at ht
      exact .inl ht

theorem Concurrent.Uniform.step (uniform : x.Uniform) (hkeeps : KeepsParameters x a)
    (hstep : x.step a = .ok x') (hglobals : x'.state.globals = x.globalsAfter a)
    (inherits : Inherits x.state x'.state) : x'.Uniform := by
  rw [hkeeps.globalsAfter] at hglobals
  constructor
  · intro dev' hdev'
    obtain ⟨j, hj⟩ := List.mem_iff_getElem?.mp hdev'
    rw [hglobals]
    rcases inherits j dev' hj with hset | ⟨dev, hdev, hquantum, hqset⟩
    · exact hset
    · have hset := uniform.devices dev (List.mem_of_getElem? hdev)
      exact ⟨hquantum.trans hset.1, hqset.trans hset.2⟩
  · intro t ht
    rw [hglobals]
    rcases Concurrent.mem_pending hstep ht with hold | ⟨dev, hdev, hquantum, hqset⟩
    · exact uniform.pending t hold
    · have hset := uniform.devices dev hdev
      exact ⟨hquantum.trans hset.1, hqset.trans hset.2⟩

end Uniform

/-- **With parameters that stay, scull is linearizable.**  If nobody changes `scull_quantum` or
`scull_qset`, then whatever the interleaving of the callers, every step returns, no section
leaves its block, and every transfer answers as one of its own would. -/
theorem constant_parameters_linearize {scullQuantum scullQset : ℤ}
    (husable : (Globals.mk scullQuantum scullQset).Usable) (scullNrDevs : ℕ)
    (actions : List Action)
    (hadm : EveryStep ghostStep (fun x a => AdmissibleStep x.1 a ∧ KeepsParameters x.1 a)
      (.init scullQuantum scullQset scullNrDevs, fun _ => .empty) actions) :
    EveryStep ghostStep Linearizes
      (.init scullQuantum scullQset scullNrDevs, fun _ => .empty) actions := by
  refine hadm.everyStep
    (Q := fun x => x.1.state.globals.Usable ∧ x.1.Uniform ∧ ∃ own, Known x.1.state x.2 own) ?_
    ⟨husable, ⟨fun dev hdev => ?_, fun _ ht => by cases ht⟩, _, Known.init husable scullNrDevs⟩
  · rintro ⟨x, M⟩ a ⟨husable, uniform, own, known⟩ ⟨hadm, hkeeps⟩
    obtain ⟨x', hstep, htold, hglobals, inherits, known'⟩ :=
      known.tells husable hadm (uniform.snapshotCurrent a)
    refine ⟨⟨x', hstep, htold⟩, ?_⟩
    intro y hy
    simp only [ghostStep, hstep, Except.map, Except.ok.injEq] at hy
    exact hy ▸ ⟨hglobals ▸ hadm.usable husable, uniform.step hkeeps hstep hglobals inherits, known'⟩
  · rw [List.eq_of_mem_replicate hdev]
    exact ⟨rfl, rfl⟩

/-- A write waits while another one runs over its quantum and a reader comes and goes; then
the device is trimmed. -/
def overtaken : List Action :=
  [.enter ⟨0, 2, .write [1, 2, 3], by decide⟩, .enter ⟨0, 0, .write [7, 8, 9], by decide⟩,
    .lock 1 { answers := [some 1, some 2, some 3] }, .enter ⟨0, 0, .read 9, by decide⟩,
    .ioctl (Command.query .qset).code 0 {}, .lock 1 {}, .lock 0 {}, .open 0 1 {},
    .enter ⟨0, 1, .read 9, by decide⟩, .lock 0 {}]

theorem constant_parameters_linearize_overtaken :
    EveryStep ghostStep Linearizes (.init 4 2 1, fun _ => .empty) overtaken :=
  constant_parameters_linearize (by decide) 1 overtaken (by decide)

end KernelTraining.Scull
