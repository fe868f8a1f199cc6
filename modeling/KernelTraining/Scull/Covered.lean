import KernelTraining.Scull.Usable

/-!
# Reading changes nothing

`scull_read` calls `scull_follow`, which appends list items when the list is too short.
It never is (`reads_leave_alone`): a write stores `dev->size` only after it has got hold of
the item it ends in, so there is always an item for every byte below `dev->size`, and past
that `scull_read` returns before it looks at the list.

`CoversSize` is that invariant, for one device, together with a bound: the size is within the
reach of `int`, so that no position below it is looked for in an item whose number has gone
round and which the list may not have.  Writes within the reach of `int` keep it
(`CoversSize.write`), whatever becomes of them: one that runs out of memory or whose copy
fails may have made the list longer, and leaves the size alone.  That reads keep it is what
the theorem says of them.

`Covered` adds the invariant of the module, and has a step lemma for each sort of call.
-/

namespace KernelTraining.Scull

open Machine

/-- There is a list item for every byte below `dev->size`, at a number that fits an `int`. -/
structure CoversSize {G : Geometry} (L : Layout G) (dev : ScullDev) : Prop where
  nodes : dev.size ≤ L.nodes.length * G.itemsize
  reach : dev.size ≤ 2147483648 * G.itemsize

structure Covered (s : State) (own : ℕ → Owned) : Prop where
  inv : Inv s own
  covers : ∀ {i dev}, s.devices[i]? = some dev → CoversSize (own i).layout dev

/-- A trim finds usable parameters, and a write is made at a position whose item number
fits an `int`. -/
def WithinReach (s : State) : Call → Prop
  | .open minor flags env => Trims s minor flags env → s.globals.Usable
  | .write fd _ _ => ∀ q ∈ s.lookup fd, q.1.fPos / (q.2.quantum * q.2.qset) < 2147483648
  | .read .. | .llseek .. | .ioctl .. => True

instance (s : State) : ∀ c, Decidable (WithinReach s c)
  | .open .. | .read .. | .write .. | .llseek .. | .ioctl .. => by
      unfold WithinReach
      infer_instance

/-- Whatever read is made of a device, its blocks, its size and its parameters stay as
they were, nothing is allocated, and the position moves only if bytes are returned. -/
def ReadsLeaveAlone (s : State) : Prop :=
  ∀ dev ∈ s.devices, ∀ (fPos : ℤ) (count : ℕ) (env : Env), rwVerifyArea fPos count = true →
    ∃ out, scullRead s.heap dev count fPos env = .ok out ∧ out.heap = s.heap ∧ out.dev = dev ∧
      (out.retval ≤ 0 → out.fPos = fPos)

section Layout

variable {G : Geometry} {h : Heap Block} {dev : ScullDev} {L L' : Layout G}

theorem CoversSize.of_size_eq_zero (hsize : dev.size = 0) : CoversSize L dev where
  nodes := by
    rw [hsize]
    exact Nat.zero_le _
  reach := by
    rw [hsize]
    exact Nat.zero_le _

/-- A position below the size is within the reach of `int`. -/
theorem CoversSize.reaches (covers : CoversSize L dev) {p : ℕ} (hp : p < dev.size) :
    G.Reaches p := by
  have hlt : p < 2147483648 * G.itemsize := lt_of_lt_of_le hp covers.reach
  exact (Nat.div_lt_iff_lt_mul G.itemsize_pos).mpr hlt

/-- A write within the reach of `int` keeps the size covered, whatever becomes of it. -/
theorem CoversSize.write (covers : CoversSize L dev) {p : ℕ} (hreach : G.Reaches p)
    {buf : List UInt8} {env : Env} {out : Out} (hnodes : L.nodes.length ≤ L'.nodes.length)
    (written : Written L L' dev buf p env out) : CoversSize L' out.dev := by
  have hold : dev.size ≤ L'.nodes.length * G.itemsize :=
    covers.nodes.trans (Nat.mul_le_mul_right _ hnodes)
  cases written with
  | noMemory _ _ hsize _ => exact ⟨hsize ▸ hold, hsize ▸ covers.reach⟩
  | copied a old _ _ hreached hresult =>
      have hroom := Nat.min_le_right buf.length (G.room p)
      split_ifs at hresult with hleft
      · rw [hreach.itemAt] at hreached
        constructor
        · rw [hresult.2.2]
          exact max_le hold (G.end_le hroom hreached)
        · rw [hresult.2.2]
          exact max_le covers.reach (G.end_le hroom hreach)
      · exact ⟨hresult.2.2 ▸ hold, hresult.2.2 ▸ covers.reach⟩

/-- A read that returns no bytes leaves the position alone. -/
theorem Layout.readOut_fPos (L : Layout G) (h : Heap Block) (dev : ScullDev) (count p : ℕ)
    (env : Env) (hretval : (L.readOut h dev count p env).retval ≤ 0) :
    (L.readOut h dev count p env).fPos = p := by
  unfold Layout.readOut at *
  split_ifs at * with hend
  · rfl
  · cases hslot : L.slot (G.quantumAt p) with
    | none => rfl
    | some q =>
        simp only [hslot] at hretval ⊢
        split_ifs at hretval ⊢
        · rfl
        · simp only at hretval ⊢
          omega

theorem CoversSize.scullRead_eq (covers : CoversSize L dev) (owns : Owns h dev L) {p count : ℕ}
    (hp : p + count < 9223372036854775808) (env : Env) :
    ∃ out, scullRead h dev count p env = .ok out ∧ out.heap = h ∧ out.dev = dev ∧
      (out.retval ≤ 0 → out.fPos = p) := by
  cases hint : env.interrupted with
  | true => exact ⟨_, by rw [scullRead, hint]; rfl, rfl, rfl, fun _ => rfl⟩
  | false =>
      obtain ⟨hdev, hheap, -⟩ := L.readOut_frame h dev count p env
      refine ⟨L.readOut h dev count p env, ?_, hheap, hdev, L.readOut_fPos h dev count p env⟩
      rw [scullRead, hint, if_neg Bool.false_ne_true]
      exact scullReadLocked_eq owns covers.nodes covers.reaches hp env

end Layout

section Module

variable {s : State} {own : ℕ → Owned}

theorem Covered.update (covered : Covered s own) {i : ℕ} (hi : i < s.devices.length)
    {dev : ScullDev} {h : Heap Block} {o : Owned} (howns : Owns h dev o.layout)
    (frame : Frame s.heap (own i).layout.blocks h o.layout.blocks) {files : List File}
    (hfiles : ∀ file ∈ files, file.dev < s.devices.length ∧ 0 ≤ file.fPos)
    (hcovers : CoversSize o.layout dev) :
    Covered { s with devices := s.devices.set i dev, heap := h, files := files }
      (Function.update own i o) where
  inv := covered.inv.update hi howns frame hfiles
  covers := forall_devices_set (fun j d => CoversSize (own j).layout d)
    (fun j d => CoversSize (Function.update own i o j).layout d) hi covered.covers
    (by rwa [Function.update_self]) fun j hji d hd => by rwa [Function.update_of_ne hji]

theorem Covered.keep (covered : Covered s own) (globals : Globals) {files : List File}
    (hfiles : ∀ file ∈ files, file.dev < s.devices.length ∧ 0 ≤ file.fPos) :
    Covered { s with globals := globals, files := files } own where
  inv := covered.inv.keep globals hfiles
  covers := covered.covers

theorem Covered.open (covered : Covered s own) {minor flags : ℕ} {env : Env}
    (hreach : WithinReach s (.open minor flags env)) :
    ∃ reply s', s.call (.open minor flags env) = .ok (reply, s') ∧ ∃ own', Covered s' own' := by
  by_cases htrims : Trims s minor flags env
  · have husable := hreach htrims
    obtain ⟨h', hcall, frame⟩ := covered.inv.call_open_of_trims htrims
    refine ⟨_, _, hcall, Function.update own minor (.empty husable.geometry), ?_⟩
    exact covered.update (o := .empty husable.geometry) htrims.1
      (.of_empty husable.quantum_eq husable.qset_eq rfl) (by simpa [Owned.empty] using frame)
      (covered.inv.files_append htrims.1) (.of_size_eq_zero rfl)
  · rcases State.call_open_of_not_trims htrims with ⟨_, _, hcall, -⟩ | ⟨hminor, _, hcall⟩
    · exact ⟨_, _, hcall, own, covered⟩
    · exact ⟨_, _, hcall, own, covered.keep s.globals (covered.inv.files_append hminor)⟩

theorem Covered.read (covered : Covered s own) (fd count : ℕ) (env : Env) :
    ∃ reply s', s.call (.read fd count env) = .ok (reply, s') ∧ ∃ own', Covered s' own' := by
  rcases s.call_read_cases fd count env with
    ⟨_, _, hcall, -⟩ | ⟨file, dev, p, hfile, hdev, -, hsum, -, hcall⟩
  · exact ⟨_, _, hcall, own, covered⟩
  have owns := covered.inv.owns hdev
  have covers := covered.covers hdev
  rw [scullReadLocked_eq owns covers.nodes covers.reaches hsum] at hcall
  obtain ⟨hdev', hheap, n, -, hfPos⟩ :=
    (own file.dev).layout.readOut_frame s.heap dev count p env
  refine ⟨_, _, hcall, Function.update own file.dev (own file.dev), ?_⟩
  refine covered.update (List.getElem?_eq_some_iff.mp hdev).1 ?_ ?_
    (covered.inv.files_set hfile (hfPos ▸ Int.natCast_nonneg (p + n))) ?_
  · rw [hdev', hheap]
    exact owns
  · rw [hheap]
    exact .refl _ _
  · rw [hdev']
    exact covers

theorem Covered.write (covered : Covered s own) {fd : ℕ} {buf : List UInt8} {env : Env}
    (hreach : WithinReach s (.write fd buf env)) :
    ∃ reply s', s.call (.write fd buf env) = .ok (reply, s') ∧ ∃ own', Covered s' own' := by
  rcases s.call_write_cases fd buf env with
    ⟨_, _, hcall, -⟩ | ⟨file, dev, p, hfile, hdev, hp, hsum, -, hcall⟩
  · exact ⟨_, _, hcall, own, covered⟩
  have owns := covered.inv.owns hdev
  have hreaches : (own file.dev).geometry.Reaches p := by
    have hposition := hreach (file, dev) (State.lookup_eq_some.mpr ⟨hfile, hdev⟩)
    rw [hp, owns.quantum, owns.qset] at hposition
    exact_mod_cast hposition
  obtain ⟨out, L', hout, -, owns', frame, hnodes, written, -⟩ :=
    scullWriteLocked_spec owns buf hsum env
  rw [hout] at hcall
  obtain ⟨n, hfPos⟩ := written.fPos_eq
  refine ⟨_, _, hcall, Function.update own file.dev ⟨_, L'⟩, ?_⟩
  exact covered.update (o := ⟨_, L'⟩) (List.getElem?_eq_some_iff.mp hdev).1 owns' frame
    (covered.inv.files_set hfile (hfPos ▸ Int.natCast_nonneg (p + n)))
    ((covered.covers hdev).write hreaches hnodes written)

/-- Every call keeps the size of every device covered. -/
theorem Covered.call (covered : Covered s own) {c : Call} (hreach : WithinReach s c) :
    ∃ reply s', s.call c = .ok (reply, s') ∧ ∃ own', Covered s' own' := by
  cases c with
  | «open» minor flags env => exact covered.open hreach
  | read fd count env => exact covered.read fd count env
  | write fd buf env => exact covered.write hreach
  | llseek fd off whence =>
      obtain ⟨reply, files, hcall, hfiles⟩ := covered.inv.call_llseek fd off whence
      exact ⟨_, _, hcall, own, covered.keep s.globals hfiles⟩
  | ioctl cmd arg env => exact ⟨_, _, rfl, own, covered.keep _ covered.inv.files⟩

theorem Covered.readsLeaveAlone (covered : Covered s own) : ReadsLeaveAlone s := by
  intro dev hmem fPos count env hverify
  obtain ⟨i, hdev⟩ := List.mem_iff_getElem?.mp hmem
  obtain ⟨p, rfl, hsum⟩ := rwVerifyArea_iff.mp hverify
  exact (covered.covers hdev).scullRead_eq (covered.inv.owns hdev) hsum env

end Module

theorem Covered.init {scullQuantum scullQset : ℤ}
    (husable : (Globals.mk scullQuantum scullQset).Usable) (scullNrDevs : ℕ) :
    Covered (scullInit scullQuantum scullQset scullNrDevs)
      fun _ => Owned.empty husable.geometry where
  inv := .init husable scullNrDevs
  covers := fun {i dev} hi => by
    rw [List.eq_of_mem_replicate (List.mem_of_getElem? hi)]
    exact .of_size_eq_zero rfl

/-- **Reading changes nothing.**  In every state a run reaches, with allocations that fail
and copies that fault, a read of any device at any position leaves the heap and the device
as they were, and moves the position only if it returns bytes. -/
theorem reads_leave_alone {scullQuantum scullQset : ℤ}
    (husable : (Globals.mk scullQuantum scullQset).Usable) (scullNrDevs : ℕ) (calls : List Call)
    (hreach : EveryStep State.step WithinReach (scullInit scullQuantum scullQset scullNrDevs)
      calls) :
    EveryState State.step ReadsLeaveAlone (scullInit scullQuantum scullQset scullNrDevs)
      calls := by
  have hstates : EveryState State.step (fun s => ∃ own, Covered s own)
      (scullInit scullQuantum scullQset scullNrDevs) calls := by
    refine hreach.everyState ?_ ⟨_, .init husable scullNrDevs⟩
    rintro s c ⟨own, covered⟩ hc
    obtain ⟨reply, s', hcall, hcovered⟩ := covered.call hc
    exact ⟨s', State.step_eq_ok.mpr ⟨reply, hcall⟩, hcovered⟩
  exact hstates.mono fun s ⟨_, covered⟩ => covered.readsLeaveAlone

/-- A run with a hole, a write that runs out of memory, one that faults, and a trim. -/
theorem reads_leave_alone_run :
    EveryState State.step ReadsLeaveAlone (scullInit 4 2 1)
      [.open 0 2 {}, .llseek 0 19 0, .write 0 [1] { answers := [some 1, some 2, none] },
        .write 0 [1] { answers := [some 3, some 4, some 5] },
        .write 0 [2, 3] { answers := [some 6], fault := some 0 }, .llseek 0 2 0, .read 0 9 {},
        .ioctl (Command.tell .quantum).code 8 {}, .open 0 1 {}, .read 0 9 {}] :=
  reads_leave_alone (by decide) 1 _ (by decide)

end KernelTraining.Scull
