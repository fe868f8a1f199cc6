import KernelTraining.Scull.Sparse

/-!
# The size of a device

`dev->size` should be one past the highest byte stored since the last trim.  A write
that stores bytes moves it to its end, as it should, but a write of no bytes moves it to the
file position: after a seek past the end the size covers bytes that nobody has written.
`highWater_exactly` shows that nothing else can come between the two.

The theorem is an equivalence for runs: the size is right in every state exactly if every
write of no bytes starts within the data or does not get that far (`EmptyWritesWithin`).  So
each step has to be decided in both directions.  `Outcome` is the form in which it is: the
call returns, the devices go on owning their blocks, and afterwards the sizes are right
exactly if a condition on the call holds.  `Inv.outcome_open`, `Inv.outcome_read` and
`Inv.outcome_write` have it for the calls that can change anything.

* What has been stored is the ghost of `Scull.Sparse`, but the states are more general:
  positions may be out of the reach of `int`, and copies may fail.  The ghost says at which
  position bytes were written, and that is all the high-water mark depends on.
* A write of `n` bytes that moves the size to its end leaves the mark there, unless `n` is
  zero (`highWater_write_iff`).  Whether a write of no bytes gets as far as the size depends
  on the allocations it makes on its way.
-/

namespace KernelTraining.Scull

open Machine Abstract

/-- The size of every device is one past the highest byte that has been stored in it. -/
def HighWater (x : State × Contents) : Prop :=
  ∀ i dev, x.1.devices[i]? = some dev → (x.2 i).HighWater dev.size

/-- A write of no bytes that gets as far as the device starts within its data, or runs out
of memory. -/
def EmptyWritesWithin (x : State × Contents) : Call → Prop
  | .write fd buf env => buf = [] → env.interrupted = false → ∀ q ∈ x.1.lookup fd,
      rwVerifyArea q.1.fPos 0 = true → q.2.size < q.1.fPos →
        ¬ Supplied x.1.heap (missingAt x.1.heap q.2 q.1.fPos.toNat) env.answers
  | _ => True

instance (x : State × Contents) : ∀ c, Decidable (EmptyWritesWithin x c)
  | .open .. | .read .. | .write .. | .llseek .. | .ioctl .. => by
      unfold EmptyWritesWithin
      infer_instance

/-- The outcome of a call: it returns, the devices own their blocks, and the sizes are right
exactly if `P`. -/
def Outcome (x : State × Contents) (c : Call) (P : Prop) : Prop :=
  ∃ x', ghostCall x c = .ok x' ∧ (∃ own, Inv x'.1 own) ∧ (HighWater x' ↔ P)

theorem ghostCall_eq {s s' : State} {c : Call} {reply : Reply} (M : Contents)
    (hcall : s.call c = .ok (reply, s')) :
    ghostCall (s, M) c = .ok (s', M.after s c reply) := by
  simp only [ghostCall, hcall]
  rfl

section Steps

variable {s : State} {M : Contents} {own : ℕ → Owned}

/-- Only the device and the contents of number `i` have changed. -/
theorem HighWater.update_iff (high : HighWater (s, M)) {i : ℕ} (hi : i < s.devices.length)
    (dev : ScullDev) (h : Heap Block) (files : List File) (m : SparseFile UInt8) :
    HighWater ({ s with devices := s.devices.set i dev, heap := h, files := files },
      Function.update M i m) ↔ m.HighWater dev.size := by
  constructor
  · intro high'
    have hself : (Function.update M i m i).HighWater dev.size :=
      high' i dev (List.getElem?_set_self hi)
    rwa [Function.update_self] at hself
  · intro hself j d hj
    exact forall_devices_set (fun j d => (M j).HighWater d.size)
      (fun j d => (Function.update M i m j).HighWater d.size) hi (high _ _)
      (by rwa [Function.update_self])
      (fun k hki d hd => by rwa [Function.update_of_ne hki]) hj

/-- The mark after a write of `n` bytes that moves the size. -/
theorem highWater_write_iff {m : SparseFile UInt8} {size p : ℕ} (hsize : m.HighWater size)
    (data : List UInt8) :
    (m.store p data).HighWater (max size (p + data.length)) ↔ (data = [] → p ≤ size) := by
  by_cases hdata : data = []
  · subst hdata
    rw [SparseFile.store_nil, List.length_nil, Nat.add_zero]
    constructor
    · intro hmax _
      have heq := hmax.unique hsize
      omega
    · intro hle
      rwa [Nat.max_eq_left (hle rfl)]
  · exact iff_of_true (hsize.store hdata) fun h => absurd h hdata

/-- A copy of no bytes cannot fail. -/
theorem copyFromUser_nil (dst : List UInt8) (off : ℕ) (fault : Option ℕ) :
    (copyFromUser dst off [] fault).2 = 0 := by
  cases fault <;> rfl

theorem Inv.outcome_open (inv : Inv s own) (high : HighWater (s, M)) {minor flags : ℕ} {env : Env}
    (husable : TrimsUsable s (.open minor flags env)) : Outcome (s, M) (.open minor flags env)
      (EmptyWritesWithin (s, M) (.open minor flags env)) := by
  by_cases htrims : Trims s minor flags env
  · obtain ⟨h', hcall, -⟩ := inv.call_open_of_trims htrims
    obtain ⟨reply, s', hcall', own', inv'⟩ := inv.call husable
    rw [hcall, Except.ok.injEq, Prod.mk.injEq] at hcall'
    refine ⟨_, ghostCall_eq M hcall, ⟨own', hcall'.2 ▸ inv'⟩, iff_of_true ?_ trivial⟩
    rw [M.after_open_of_trims s minor env htrims.2.1]
    exact (high.update_iff htrims.1 _ _ _ _).mpr SparseFile.highWater_empty
  · rcases State.call_open_of_not_trims htrims with
      ⟨retval, hneg, hcall, -⟩ | ⟨hminor, hflags, hcall⟩
    · refine ⟨_, ghostCall_eq M hcall, ⟨own, inv⟩, iff_of_true ?_ trivial⟩
      rwa [M.after_open_of_not s minor env fun h => hneg.ne h.1]
    · refine ⟨_, ghostCall_eq M hcall, ⟨own, inv.keep _ (inv.files_append hminor)⟩,
        iff_of_true ?_ trivial⟩
      rwa [M.after_open_of_not s minor env (by simp [hflags])]

theorem Inv.outcome_read (inv : Inv s own) (high : HighWater (s, M)) (fd count : ℕ) (env : Env) :
    Outcome (s, M) (.read fd count env) (EmptyWritesWithin (s, M) (.read fd count env)) := by
  rcases s.call_read_cases fd count env with
    ⟨retval, _, hcall, -⟩ | ⟨file, dev, p, hfile, hdev, -, hsum, -, hcall⟩
  · exact ⟨_, ghostCall_eq M hcall, ⟨own, inv⟩, iff_of_true high trivial⟩
  obtain ⟨out, L', hout, owns', frame, -, hsize, ⟨n, -, hfPos⟩, -⟩ :=
    scullReadLocked_spec (inv.owns hdev) hsum env
  rw [hout] at hcall
  refine ⟨_, ghostCall_eq M hcall,
    ⟨_, inv.settle hfile hdev owns' frame (hfPos ▸ Int.natCast_nonneg (p + n))⟩,
    iff_of_true ?_ trivial⟩
  have hupdate := high.update_iff (List.getElem?_eq_some_iff.mp hdev).1 out.dev out.heap
    (s.files.set fd { file with fPos := out.fPos }) (M file.dev)
  rw [Function.update_eq_self] at hupdate
  exact hupdate.mpr (hsize ▸ high _ _ hdev)

/-- A write that the VFS and the semaphore let through. -/
theorem State.call_write_eq {fd : ℕ} {buf : List UInt8} {env : Env} {file : File} {dev : ScullDev}
    (hlookup : s.lookup fd = some (file, dev)) (hverify : rwVerifyArea file.fPos buf.length = true)
    (hint : env.interrupted = false) :
    s.call (.write fd buf env) =
      (scullWriteLocked dev.quantum dev.qset s.heap dev buf file.fPos env).map
        (s.finish fd file) := by
  simp only [State.call, State.transfer, hlookup, hverify, if_true, scullWrite, hint,
    Bool.false_eq_true, if_false]

/-- What the condition says of a write that gets through. -/
theorem Inv.emptyWritesWithin_iff (inv : Inv s own) {fd : ℕ} {buf : List UInt8} {env : Env}
    {file : File} {dev : ScullDev} (hlookup : s.lookup fd = some (file, dev)) {p : ℕ}
    (hp : file.fPos = p) (hsum : p + buf.length < 9223372036854775808)
    (hint : env.interrupted = false) :
    EmptyWritesWithin (s, M) (.write fd buf env) ↔
      (buf = [] → dev.size < p →
        ¬ Supplied s.heap ((own file.dev).layout.missing p) env.answers) := by
  have owns := inv.owns (State.lookup_eq_some.mp hlookup).2
  simp only [EmptyWritesWithin, hint, hlookup, Option.mem_some_iff, forall_eq', hp,
    Int.toNat_natCast, owns.missingAt_eq, Nat.cast_lt, forall_true_left]
  apply forall_congr'
  intro hnil
  have hverify : rwVerifyArea p 0 = true := by
    rw [hnil, List.length_nil] at hsum
    exact rwVerifyArea_iff.mpr ⟨p, rfl, hsum⟩
  exact forall_prop_of_true hverify

theorem Inv.outcome_write (inv : Inv s own) (high : HighWater (s, M)) (fd : ℕ) (buf : List UInt8)
    (env : Env) :
    Outcome (s, M) (.write fd buf env) (EmptyWritesWithin (s, M) (.write fd buf env)) := by
  by_cases hthrough : ∃ q ∈ s.lookup fd, rwVerifyArea q.1.fPos buf.length = true ∧
      env.interrupted = false
  swap
  · -- the write is refused before it gets to the device
    rcases s.call_write_cases fd buf env with
      ⟨retval, hneg, hcall, -⟩ | ⟨file, dev, p, hfile, hdev, hp, hsum, hint, -⟩
    · refine ⟨_, ghostCall_eq M hcall, ⟨own, inv⟩, iff_of_true ?_ ?_⟩
      · rwa [M.after_write_of_neg s fd buf env (show (Reply.mk retval []).retval < 0 from hneg)]
      · intro hnil hint q hq hverify
        refine absurd ⟨q, hq, ?_, hint⟩ hthrough
        rwa [hnil]
    · exact absurd ⟨(file, dev), State.lookup_eq_some.mpr ⟨hfile, hdev⟩,
        rwVerifyArea_iff.mpr ⟨p, hp, hsum⟩, hint⟩ hthrough
  obtain ⟨⟨file, dev⟩, hlookup, hverify, hint⟩ := hthrough
  have hcall := State.call_write_eq hlookup hverify hint
  obtain ⟨p, hp, hsum⟩ := rwVerifyArea_iff.mp hverify
  rw [hp] at hcall
  obtain ⟨hfile, hdev⟩ := State.lookup_eq_some.mp hlookup
  have owns := inv.owns hdev
  have hi := (List.getElem?_eq_some_iff.mp hdev).1
  obtain ⟨out, L', hout, hcopied, owns', frame, hnodes, written, hsupplied⟩ :=
    scullWriteLocked_spec owns buf hsum env
  have hwithin := inv.emptyWritesWithin_iff (M := M) hlookup hp hsum hint
  rw [hout] at hcall
  simp only [Except.map, State.finish, hcopied] at hcall
  obtain ⟨n, hfPos⟩ := written.fPos_eq
  refine ⟨_, ghostCall_eq M hcall,
    ⟨_, inv.settle hfile hdev owns' frame (hfPos ▸ Int.natCast_nonneg (p + n))⟩, ?_⟩
  rw [hwithin]
  -- a write that fails leaves the size and what is known as they were
  have hfails : out.retval < 0 → out.dev.size = dev.size →
      HighWater (s.settle fd file out, M.after s (.write fd buf env) ⟨out.retval, []⟩) := by
    intro hneg hsize
    have hupdate := high.update_iff hi out.dev out.heap
      (s.files.set fd { file with fPos := out.fPos }) (M file.dev)
    rw [Function.update_eq_self] at hupdate
    rw [M.after_write_of_neg s fd buf env (show (Reply.mk out.retval []).retval < 0 from hneg)]
    exact hupdate.mpr (hsize ▸ high _ _ hdev)
  cases written with
  | noMemory hretval _ hsize _ =>
      apply iff_of_true (hfails (by rw [hretval]; decide) hsize)
      intro _ _
      rw [← hsupplied]
      exact not_not.mpr hretval
  | copied a old _ _ _ hresult =>
      set k := min buf.length ((own file.dev).geometry.room p) with hk
      split_ifs at hresult with hleft
      · obtain ⟨hretval, -, hsize⟩ := hresult
        have hroom := (own file.dev).geometry.room_pos p
        have hgranted : Supplied s.heap ((own file.dev).layout.missing p) env.answers := by
          rw [← hsupplied, hretval]
          unfold ENOMEM
          omega
        have hlength : (buf.take k).length = k := List.length_take_of_le (Nat.min_le_left _ _)
        have hempty : buf.take k = [] ↔ buf = [] := by
          rw [← List.length_eq_zero_iff, ← List.length_eq_zero_iff, hlength]
          omega
        rw [M.after_write hfile hp buf env (show (Reply.mk out.retval []).retval = k from hretval)]
        apply (high.update_iff hi _ _ _ _).trans
        have hmark := highWater_write_iff (p := p) (high _ _ hdev) (buf.take k)
        rw [hlength, hempty] at hmark
        rw [hsize, hmark]
        apply forall_congr'
        intro _
        exact ⟨fun hle hlt => absurd hlt (not_lt.mpr hle),
          fun hno => not_lt.mp fun hlt => hno hlt hgranted⟩
      · apply iff_of_true (hfails (by rw [hresult.1]; decide) hresult.2.2)
        intro hnil
        -- the copy cannot have failed if there was nothing to copy
        rw [hnil, List.take_nil] at hleft
        exact absurd (copyFromUser_nil _ _ _) hleft

/-- One call, from a state in which the sizes are right. -/
theorem Inv.outcome (inv : Inv s own) (high : HighWater (s, M)) {c : Call}
    (husable : TrimsUsable s c) : Outcome (s, M) c (EmptyWritesWithin (s, M) c) := by
  cases c with
  | «open» minor flags env => exact inv.outcome_open high husable
  | read fd count env => exact inv.outcome_read high fd count env
  | write fd buf env => exact inv.outcome_write high fd buf env
  | llseek fd off whence =>
      obtain ⟨reply, files, hcall, hfiles⟩ := inv.call_llseek fd off whence
      exact ⟨_, ghostCall_eq M hcall, ⟨own, inv.keep s.globals hfiles⟩, iff_of_true high trivial⟩
  | ioctl cmd arg env =>
      exact ⟨_, ghostCall_eq M rfl, ⟨own, inv.keep _ inv.files⟩, iff_of_true high trivial⟩

end Steps

theorem HighWater.init (scullQuantum scullQset : ℤ) (scullNrDevs : ℕ) :
    HighWater (scullInit scullQuantum scullQset scullNrDevs, fun _ => .empty) := by
  intro i dev hi
  rw [List.eq_of_mem_replicate (List.mem_of_getElem? hi)]
  exact SparseFile.highWater_empty

/-- **The size is the high-water mark.**  In a run whose trims find usable parameters, the
size of every device is one past the highest byte stored since its last trim, in every state
reached, exactly when no write of no bytes gets through to a device past the end of its
data. -/
theorem highWater_exactly {scullQuantum scullQset : ℤ}
    (husable : (Globals.mk scullQuantum scullQset).Usable) (scullNrDevs : ℕ) (calls : List Call)
    (htrims : EveryStep ghostCall (fun x c => TrimsUsable x.1 c)
      (scullInit scullQuantum scullQset scullNrDevs, fun _ => .empty) calls) :
    EveryState ghostCall HighWater
        (scullInit scullQuantum scullQset scullNrDevs, fun _ => .empty) calls ↔
      EveryStep ghostCall EmptyWritesWithin
        (scullInit scullQuantum scullQset scullNrDevs, fun _ => .empty) calls := by
  refine everyState_iff_everyStep (I := fun x => (∃ own, Inv x.1 own) ∧ HighWater x)
    (fun x h => h.2) ?_ ?_ ⟨⟨_, .init husable scullNrDevs⟩, HighWater.init _ _ _⟩ htrims
  · rintro ⟨s, M⟩ c ⟨⟨own, inv⟩, high⟩ hc
    obtain ⟨x', hx', -, hiff⟩ := inv.outcome high hc
    rw [hx']
    exact ⟨fun ⟨_, heq, h⟩ => hiff.mp (Except.ok.inj heq ▸ h), fun h => ⟨x', rfl, hiff.mpr h⟩⟩
  · rintro ⟨s, M⟩ c x ⟨⟨own, inv⟩, high⟩ hc hP hx
    obtain ⟨x', hx', hinv, hiff⟩ := inv.outcome high hc
    obtain rfl : x' = x := Except.ok.inj (hx'.symm.trans hx)
    exact ⟨hinv, hiff.mpr hP⟩

/-- A run with a hole, a short write, a write that fails, writes of no bytes at the end of
the data and, without memory, past it, and a trim while another file is past the end. -/
theorem highWater_run :
    EveryState ghostCall HighWater (scullInit 4 2 1, fun _ => .empty)
      [.open 0 2 {}, .llseek 0 3 0, .write 0 [1, 2] { answers := [some 1, some 2, some 3] },
        .write 0 [] { answers := [some 4] }, .write 0 [3] { fault := some 0 },
        .llseek 0 20 0, .write 0 [] { answers := [some 5, none] }, .open 0 1 {},
        .write 0 [7] { answers := [some 1, some 2, some 3, some 6, some 7] }] :=
  (highWater_exactly (by decide) 1 _ (by decide)).mpr (by decide)

/-- A write of no bytes after a seek past the end moves the size there. -/
theorem empty_write_stretches :
    ¬ EveryState ghostCall HighWater (scullInit 4 2 1, fun _ => .empty)
      [.open 0 2 {}, .llseek 0 5 0, .write 0 [] { answers := [some 1, some 2, some 3] }] := by
  intro h
  obtain ⟨x, hrun, high⟩ := h.last
  have hseen : ([.open 0 2 {}, .llseek 0 5 0,
      .write 0 [] { answers := [some 1, some 2, some 3] }].foldlM ghostCall
        (scullInit 4 2 1, fun _ => .empty)).map
          (fun x => (x.1.devices[0]?.map ScullDev.size, x.2 0 4)) = .ok (some 5, none) := rfl
  rw [hrun] at hseen
  simp only [Except.map, Except.ok.injEq, Prod.mk.injEq, Option.map_eq_some_iff] at hseen
  obtain ⟨⟨dev, hdev, hsize⟩, hnone⟩ := hseen
  rcases high 0 dev hdev with ⟨-, hzero⟩ | ⟨top, ⟨hmem, -⟩, htop⟩
  · omega
  · obtain rfl : top = 4 := by omega
    exact hmem hnone

end KernelTraining.Scull
