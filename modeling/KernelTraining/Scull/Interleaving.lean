import KernelTraining.Scull.Invariant
import KernelTraining.Scull.Stale

/-!
# Concurrent callers

`scull_read` and `scull_write` load the parameters of the device before they take
its semaphore, and `down_interruptible` can sleep.  Here each of them is two steps:
the snapshot, after which the transfer is pending, and the locked section, which
runs with the parameters of the snapshot.  `scull_open` trims in one step, and
`scull_ioctl` takes no lock at all.

The locked sections stay in bounds as long as no snapshot is stale when its section
runs (`sections_in_bounds`).  Nothing in the code sees to that
(`stale_snapshot_overruns`).

A stale snapshot does no harm by itself.  What matters is whether the section finds its place
in the blocks that are there and makes none of another size than the device has
(`SnapshotFits`), and `fitting_sections_in_bounds` asks for no more.  It rests on `Scull.Stale`
(`Pending.section_spec`), and the invariant of the module goes through
(`Concurrent.Ok.step`); in addition to that, the parameters of a snapshot are always those a
device once had, so the section never divides by zero.  A section that finds the parameters of
its snapshot in the device fits (`Concurrent.Ok.fits_of_current`), which is how
`sections_in_bounds` follows.  Both conditions let a read pass that starts at the end of the
data, which returns before it divides.

That the loops of `scull_trim` stay in bounds, too, is a property of the states and not of
the steps: every pointer array has as many entries as `dev->qset` says (`ArraysAgree`), and
the trim takes its bound from there and not from a snapshot.
-/

namespace KernelTraining.Scull

open Machine

inductive Transfer where
  | read (count : ℕ)
  | write (buf : List UInt8)

def Transfer.count : Transfer → ℕ
  | .read count => count
  | .write buf => buf.length

def Transfer.isRead : Transfer → Bool
  | .read _ => true
  | .write _ => false

/-- A transfer as the VFS hands it to the driver. -/
structure Request where
  dev : ℕ
  fPos : ℕ
  transfer : Transfer
  fits : fPos + transfer.count < 9223372036854775808

/-- A transfer between its two steps: the locals `quantum` and `qset` are loaded. -/
structure Pending extends Request where
  quantum : ℤ
  qset : ℤ

/-- The module together with the transfers that wait for a semaphore. -/
structure Concurrent where
  state : State
  pending : List Pending

inductive Action where
  | enter (request : Request)
  | lock (i : ℕ) (env : Env)
  | open (minor flags : ℕ) (env : Env)
  | ioctl (cmd arg : ℕ) (env : IoctlEnv)

/-- The locked section of a pending transfer. -/
def Pending.section (t : Pending) (h : Heap Block) (dev : ScullDev) (env : Env) :
    Except Fault Out :=
  match t.transfer with
  | .read count => scullReadLocked t.quantum t.qset h dev count t.fPos env
  | .write buf => scullWriteLocked t.quantum t.qset h dev buf t.fPos env

/-- The state after a locked section on device `i`. -/
def State.release (s : State) (i : ℕ) (out : Out) : State :=
  { s with devices := s.devices.set i out.dev, heap := out.heap }

def Concurrent.step (x : Concurrent) : Action → Except Fault Concurrent
  | .enter request =>
      match x.state.devices[request.dev]? with
      | none => .ok x
      | some dev => .ok { x with
          pending := x.pending ++ [{ request with quantum := dev.quantum, qset := dev.qset }] }
  | .lock i env =>
      match x.pending[i]? with
      | none => .ok x
      | some t =>
          match x.state.devices[t.dev]? with
          | none => .ok x
          | some dev =>
              if env.interrupted then .ok { x with pending := x.pending.eraseIdx i }
              else
                (t.section x.state.heap dev env).map fun out =>
                  ⟨x.state.release t.dev out, x.pending.eraseIdx i⟩
  | .open minor flags env =>
      (scullOpen x.state minor flags env).map fun r => { x with state := r.2 }
  | .ioctl cmd arg env =>
      .ok { x with
        state := { x.state with globals := (scullIoctl x.state.globals cmd arg env).globals } }

/-- Nobody is in the driver yet. -/
def Concurrent.init (scullQuantum scullQset : ℤ) (scullNrDevs : ℕ) : Concurrent :=
  ⟨scullInit scullQuantum scullQset scullNrDevs, []⟩

/-! ## What `scull_trim` relies on -/

/-- The length a pointer array was allocated with. -/
def arrayLength (h : Heap Block) (a : Addr) : Option ℤ :=
  (ptrsAt h a).map fun entries => entries.length

/-- The loop bound of `scull_trim` is the length of every array it walks. -/
def ArraysAgree (s : State) : Prop :=
  ∀ dev ∈ s.devices, ∀ node ∈ items s.heap s.heap.card dev.data, ∀ a ∈ node.data,
    arrayLength s.heap a = some dev.qset

instance (s : State) : Decidable (ArraysAgree s) := by
  unfold ArraysAgree
  infer_instance

theorem Inv.arraysAgree {s : State} {own : ℕ → Owned} (inv : Inv s own) : ArraysAgree s := by
  intro dev hdev node hnode a ha
  obtain ⟨i, hi⟩ := List.mem_iff_getElem?.mp hdev
  have owns := inv.owns hi
  obtain ⟨j, hj⟩ := owns.items_data node hnode
  rw [arrayLength, owns.ptrsAt_eq (hj.symm.trans ha), Option.map_some, Layout.length_entries,
    owns.qset]

/-! ## Interleavings -/

/-- `scull_ioctl` leaves parameters the driver can work with. -/
def IoctlUsable (x : Concurrent) : Action → Prop
  | .ioctl cmd arg env => (scullIoctl x.state.globals cmd arg env).globals.Usable
  | _ => True

/-- A locked section finds the parameters of its snapshot in the device, or it is
that of a read at the end of the device. -/
def SnapshotCurrent (x : Concurrent) : Action → Prop
  | .lock i env => env.interrupted = false → ∀ t ∈ x.pending[i]?,
      ∀ dev ∈ x.state.devices[t.dev]?,
        (t.quantum = dev.quantum ∧ t.qset = dev.qset) ∨
          (dev.size ≤ t.fPos ∧ t.transfer.isRead)
  | _ => True

/-- How many bytes a section is to move. -/
def Pending.asked (t : Pending) (dev : ScullDev) : ℕ :=
  match t.transfer with
  | .read count => min count (dev.size - t.fPos)
  | .write buf => buf.length

/-- The section finds its place in the blocks of the device, and makes none of a wrong size. -/
def Pending.Fits (t : Pending) (h : Heap Block) (dev : ScullDev) (env : Env) : Prop :=
  FitsBlocks t.quantum.toNat t.qset.toNat h dev t.fPos (t.asked dev) (!t.transfer.isRead)
    env.answers

/-- A locked section fits the blocks of its device, stale or not, or it is that of a read at the
end of the device. -/
def SnapshotFits (x : Concurrent) : Action → Prop
  | .lock i env => env.interrupted = false → ∀ t ∈ x.pending[i]?,
      ∀ dev ∈ x.state.devices[t.dev]?,
        t.Fits x.state.heap dev env ∨ (dev.size ≤ t.fPos ∧ t.transfer.isRead)
  | _ => True

/-- The parameters of a snapshot are those a device once had. -/
def Pending.Snapped (t : Pending) : Prop :=
  ∃ G : Geometry, t.quantum = G.quantum ∧ t.qset = G.qset

theorem Pending.section_spec {t : Pending} {h : Heap Block} {dev : ScullDev} {G : Geometry}
    {L : Layout G} (owns : Owns h dev L) (snapped : t.Snapped) {env : Env}
    (hfits : t.Fits h dev env ∨ (dev.size ≤ t.fPos ∧ t.transfer.isRead)) :
    ∃ out, ∃ L' : Layout G, t.section h dev env = .ok out ∧ Owns out.heap out.dev L' ∧
      Frame h L.blocks out.heap L'.blocks := by
  have hpos := t.fits
  unfold Pending.section
  rcases hfits with hfits | ⟨hend, hread⟩
  · obtain ⟨G₀, hquantum, hqset⟩ := snapped
    unfold Pending.Fits Pending.asked at hfits
    rw [hquantum, hqset, Int.toNat_natCast, Int.toNat_natCast] at hfits
    rw [hquantum, hqset]
    cases htransfer : t.transfer with
    | read count =>
        rw [htransfer] at hpos hfits
        exact scullReadLocked_of_fits owns hpos hfits
    | write buf =>
        rw [htransfer] at hpos hfits
        exact scullWriteLocked_of_fits owns hpos hfits
  · have hlong : t.fPos < 18446744073709551616 := by omega
    cases htransfer : t.transfer with
    | read count =>
        refine ⟨⟨0, t.fPos, [], dev, h⟩, L, ?_, owns, .refl h _⟩
        simp only [scullReadLocked, toULong_natCast hlong, if_pos hend]
        rfl
    | write buf => simp [htransfer, Transfer.isRead] at hread

instance (x : Concurrent) (a : Action) : Decidable (IoctlUsable x a) := by
  cases a <;> unfold IoctlUsable <;> infer_instance

instance (x : Concurrent) (a : Action) : Decidable (SnapshotCurrent x a) := by
  cases a <;> unfold SnapshotCurrent <;> infer_instance

instance (t : Pending) (h : Heap Block) (dev : ScullDev) (env : Env) :
    Decidable (t.Fits h dev env) :=
  inferInstanceAs (Decidable (FitsBlocks ..))

instance (x : Concurrent) (a : Action) : Decidable (SnapshotFits x a) := by
  cases a <;> unfold SnapshotFits <;> infer_instance

/-- What every state of a run satisfies. -/
structure Concurrent.Ok (x : Concurrent) : Prop where
  usable : x.state.globals.Usable
  inv : ∃ own, Inv x.state own
  snapped : ∀ t ∈ x.pending, t.Snapped

/-- A section whose snapshot is that of the device fits its blocks. -/
theorem Concurrent.Ok.fits_of_current {x : Concurrent} (hx : x.Ok) {a : Action}
    (hcurrent : SnapshotCurrent x a) : SnapshotFits x a := by
  obtain ⟨-, ⟨own, inv⟩, -⟩ := hx
  cases a with
  | lock i env =>
      intro hgranted t ht dev hdev
      refine (hcurrent hgranted t ht dev hdev).imp_left ?_
      rintro ⟨hquantum, hqset⟩
      have owns := inv.owns hdev
      unfold Pending.Fits
      rw [hquantum, hqset, owns.quantum, owns.qset, Int.toNat_natCast, Int.toNat_natCast]
      exact owns.fitsBlocks ..
  | enter request => trivial
  | «open» minor flags env => trivial
  | ioctl cmd arg env => trivial

theorem Concurrent.Ok.step {x : Concurrent} (hx : x.Ok) {a : Action} (hioctl : IoctlUsable x a)
    (hfits : SnapshotFits x a) : ∃ x', x.step a = .ok x' ∧ x'.Ok := by
  obtain ⟨husable, ⟨own, inv⟩, snapped⟩ := hx
  have hrest (i : ℕ) : ∀ t ∈ x.pending.eraseIdx i, t.Snapped :=
    fun t ht => snapped t (List.mem_of_mem_eraseIdx ht)
  cases a with
  | enter request =>
      simp only [Concurrent.step]
      cases hdev : x.state.devices[request.dev]? with
      | none => exact ⟨x, rfl, husable, ⟨own, inv⟩, snapped⟩
      | some dev =>
          have owns := inv.owns hdev
          refine ⟨_, rfl, husable, ⟨own, inv⟩, ?_⟩
          intro t ht
          rcases List.mem_append.mp ht with hold | hnew
          · exact snapped t hold
          · rw [List.mem_singleton] at hnew
            exact hnew ▸ ⟨_, owns.quantum, owns.qset⟩
  | lock i env =>
      simp only [Concurrent.step]
      cases ht : x.pending[i]? with
      | none => exact ⟨x, rfl, husable, ⟨own, inv⟩, snapped⟩
      | some t =>
          cases hdev : x.state.devices[t.dev]? with
          | none =>
              simp only [hdev]
              exact ⟨x, rfl, husable, ⟨own, inv⟩, snapped⟩
          | some dev =>
              simp only [hdev]
              split_ifs with hint
              · exact ⟨_, rfl, husable, ⟨own, inv⟩, hrest i⟩
              · obtain ⟨out, L', hout, owns', frame⟩ := Pending.section_spec (inv.owns hdev)
                  (snapped t (List.mem_of_getElem? ht)) (hfits (by simpa using hint) t ht dev hdev)
                rw [hout]
                exact ⟨_, rfl, husable, ⟨_, inv.update (o := ⟨_, L'⟩)
                  (List.getElem?_eq_some_iff.mp hdev).1 owns' frame inv.files⟩, hrest i⟩
  | «open» minor flags env =>
      obtain ⟨reply, s', hopen, hglobals, hinv⟩ :=
        inv.open fun _ : Trims x.state minor flags env => husable
      simp only [Concurrent.step, hopen]
      exact ⟨_, rfl, by rwa [hglobals], hinv, snapped⟩
  | ioctl cmd arg env => exact ⟨_, rfl, hioctl, ⟨own, inv.keep _ inv.files⟩, snapped⟩

theorem Concurrent.Ok.init {scullQuantum scullQset : ℤ}
    (husable : (Globals.mk scullQuantum scullQset).Usable) (scullNrDevs : ℕ) :
    Concurrent.Ok (.init scullQuantum scullQset scullNrDevs) :=
  ⟨husable, ⟨_, .init husable scullNrDevs⟩, fun _ ht => by cases ht⟩

/-- **The locked sections stay in bounds as long as they fit their blocks.**  A stale snapshot
does no harm when its section finds its place in the blocks that are there, and makes no array and
no quantum of another size than the device has. -/
theorem fitting_sections_in_bounds {scullQuantum scullQset : ℤ}
    (husable : (Globals.mk scullQuantum scullQset).Usable) (scullNrDevs : ℕ)
    (actions : List Action)
    (hioctl : EveryStep Concurrent.step IoctlUsable
      (.init scullQuantum scullQset scullNrDevs) actions)
    (hfits : EveryStep Concurrent.step SnapshotFits
      (.init scullQuantum scullQset scullNrDevs) actions) :
    EveryState Concurrent.step (fun x => ArraysAgree x.state)
      (.init scullQuantum scullQset scullNrDevs) actions := by
  have hrun := (everyStep_and.mpr ⟨hioctl, hfits⟩).everyState (Q := Concurrent.Ok)
    (fun x a hx h => hx.step h.1 h.2) (.init husable scullNrDevs)
  exact hrun.mono fun x ⟨_, ⟨_, inv⟩, _⟩ => inv.arraysAgree

/-- The reader still has quanta of 4 bytes in mind, and finds its byte in one of 8. -/
example :
    let actions : List Action :=
      [.enter ⟨0, 0, .read 5, by decide⟩, .ioctl (Command.tell .quantum).code 8 {}, .open 0 1 {},
        .enter ⟨0, 0, .write [9], by decide⟩, .lock 1 { answers := [some 1, some 2, some 3] },
        .lock 0 {}]
    EveryStep Concurrent.step SnapshotFits (.init 4 2 1) actions ∧
      ¬ EveryStep Concurrent.step SnapshotCurrent (.init 4 2 1) actions := by
  decide

/-- **The locked sections stay in bounds as long as no snapshot is stale.**  In any
interleaving of any number of callers whose ioctls leave usable parameters, if every
locked section finds the parameters of its snapshot in the device, then no access
leaves the block it is made in, and every state has arrays of the length
`scull_trim` takes them to have. -/
theorem sections_in_bounds {scullQuantum scullQset : ℤ}
    (husable : (Globals.mk scullQuantum scullQset).Usable) (scullNrDevs : ℕ)
    (actions : List Action)
    (hioctl : EveryStep Concurrent.step IoctlUsable
      (.init scullQuantum scullQset scullNrDevs) actions)
    (hcurrent : EveryStep Concurrent.step SnapshotCurrent
      (.init scullQuantum scullQset scullNrDevs) actions) :
    EveryState Concurrent.step (fun x => ArraysAgree x.state)
      (.init scullQuantum scullQset scullNrDevs) actions := by
  refine fitting_sections_in_bounds husable scullNrDevs actions hioctl ?_
  refine (everyStep_and.mpr ⟨hioctl, hcurrent⟩).everyStep (Q := Concurrent.Ok) ?_
    (.init husable scullNrDevs)
  intro x a hx h
  have hfits := hx.fits_of_current h.2
  refine ⟨hfits, fun x' hstep => ?_⟩
  obtain ⟨x'', hstep', hx''⟩ := hx.step h.1 hfits
  exact Except.ok.inj (hstep'.symm.trans hstep) ▸ hx''

/-- Two writers and a reader at work, with a trim between them. -/
theorem sections_in_bounds_run :
    EveryState Concurrent.step (fun x => ArraysAgree x.state) (.init 4 2 1)
      [.enter ⟨0, 0, .write [1, 2], by decide⟩, .enter ⟨0, 8, .write [3], by decide⟩,
        .lock 1 { answers := [some 1, some 2, some 3, some 4] }, .enter ⟨0, 8, .read 5, by decide⟩,
        .lock 0 { answers := [some 5, some 6] }, .lock 0 {},
        .ioctl (Command.tell .quantum).code 1 {}, .open 0 1 {},
        .enter ⟨0, 0, .write [9], by decide⟩, .lock 0 { answers := [some 2, some 1, some 3] }] :=
  sections_in_bounds (by decide) 1 _ (by decide) (by decide)

/-- A writer loads the parameters 4 and 2 and has to wait.  Meanwhile the device is
trimmed to quanta of one byte, and another writer fills one.  The first writer then
stores four bytes there. -/
theorem stale_snapshot_overruns :
    let actions : List Action :=
      [.enter ⟨0, 0, .write [1, 2, 3, 4], by decide⟩, .ioctl (Command.tell .quantum).code 1 {},
        .ioctl (Command.tell .qset).code 1 {}, .open 0 1 {},
        .enter ⟨0, 0, .write [9], by decide⟩, .lock 1 { answers := [some 1, some 2, some 3] },
        .lock 0 {}]
    EveryStep Concurrent.step IoctlUsable (.init 4 2 1) actions ∧
      actions.foldlM Concurrent.step (.init 4 2 1) = .error .outOfBounds ∧
      ¬ EveryState Concurrent.step (fun x => ArraysAgree x.state) (.init 4 2 1) actions :=
  ⟨by decide, rfl, by decide⟩

end KernelTraining.Scull
