import KernelTraining.Machine.Chrdev
import KernelTraining.Machine.Calls
import KernelTraining.Scull.Ownership

/-!
# Loading and unloading scull

`scull_init_module` and `scull_cleanup_module` of `Scull/main.c`, with the device numbers, the
character devices and the memory they ask for, each of which may be refused.  The cleanup
also has to undo a load that has not come to its end.

`load_run_unload`: whatever is refused and whatever happens while the module is loaded, when
it is gone everything it has had is given back.

* What is refused is up to `LoadEnv`, and a refusal can have any negative result; a load hands
  it on to its caller.  Nothing is assumed of the parameters for that: a load that fails has
  not used them.
* If the load has succeeded, the run of calls that follows keeps the invariant, so the devices
  own all of the blocks that are allocated, and the cleanup frees them
  (`Accounted.cleanup`).  Here the parameters count, both those of the load and those that
  trims find later.
* The character devices are deleted once each, in whichever state they are.  A device that
  could not be added has still been initialised, so deleting it is harmless
  (`deleteCdevs_setupCdevs`).
* The device numbers are given back by their first number and their count, so these have to be
  the ones that were taken.  A minor number that does not fit its 20 bits would change the
  major one; below `2^20` it does not (`takeNumbers_eq`).

The array `scull_devices` itself is no block of the heap.  Whether it is there is told by
`cdevs`, and the heap has the blocks that the devices allocate for their data; so what is said
to be freed is those.
-/

namespace KernelTraining.Scull

open Machine

/-- The parameters at load time. -/
structure Parameters where
  scullMajor : ℕ
  scullMinor : ℕ
  scullNrDevs : ℕ
  scullQuantum : ℤ
  scullQset : ℤ

/-- What the kernel answers during a load: whether the numbers are granted, and with which result
they are not, the major number of dynamic ones, whether there is memory for `scull_devices`, and
which devices can be added. -/
structure LoadEnv where
  granted : Bool := true
  refusal : Refusal := ⟨-EBUSY, by decide⟩
  major : Option ℕ := none
  memory : Bool := true
  added : ℕ → Bool := fun _ => true

/-- The module with what it holds.  `cdevs` are the character devices in `scull_devices`, if
these have been allocated. -/
structure Module where
  scullMajor : ℕ
  scullMinor : ℕ
  scullNrDevs : ℕ
  regions : List Region
  cdevs : Option (List Cdev)
  state : State

/-- `scull_cleanup_module`: the device numbers that are taken afterwards, and the heap. -/
def Module.cleanup (m : Module) : Except Fault (List Region × Heap Block) := do
  let devno := mkdev m.scullMajor m.scullMinor
  let h ←
    match m.cdevs with
    | none => pure m.state.heap
    | some cdevs => do
        let h ← scullCleanupModule m.state.globals m.state.heap m.state.devices
        deleteCdevs cdevs
        pure h
  pure (unregisterChrdevRegion m.regions ⟨devno, m.scullNrDevs⟩, h)

/-- `scull_init_module`. -/
def scullInitModule (p : Parameters) (regions : List Region) (env : LoadEnv) :
    Except Fault (ℤ × List Region × Option Module) :=
  let (scullMajor, taken) :=
    takeNumbers p.scullMajor p.scullMinor p.scullNrDevs regions env.granted env.major
  match taken with
  | none => .ok (env.refusal, regions, none)
  | some regions =>
      let m : Module := {
        scullMajor := scullMajor
        scullMinor := p.scullMinor
        scullNrDevs := p.scullNrDevs
        regions := regions
        cdevs := none
        state := ⟨⟨p.scullQuantum, p.scullQset⟩, [], .empty, []⟩ }
      if env.memory then
        .ok (0, regions, some { m with
          cdevs := some (setupCdevs p.scullNrDevs env.added)
          state := scullInit p.scullQuantum p.scullQset p.scullNrDevs })
      else do
        let (regions, _) ← m.cleanup
        pure (-ENOMEM, regions, none)

section Load

variable {m : Module} {regions : List Region}

/-- Undoing a load that has got no further than its numbers. -/
theorem Module.cleanup_of_none (hcdevs : m.cdevs = none)
    (hregions : m.regions = ⟨mkdev m.scullMajor m.scullMinor, m.scullNrDevs⟩ :: regions) :
    m.cleanup = .ok (regions, m.state.heap) := by
  simp only [Module.cleanup, hcdevs, hregions, unregisterChrdevRegion, List.erase_cons_head]
  rfl

/-- Undoing a load that has been completed. -/
theorem Module.cleanup_of_some {cdevs : List Cdev} {h : Heap Block} (hcdevs : m.cdevs = some cdevs)
    (hregions : m.regions = ⟨mkdev m.scullMajor m.scullMinor, m.scullNrDevs⟩ :: regions)
    (hdelete : deleteCdevs cdevs = .ok ())
    (hcleanup : scullCleanupModule m.state.globals m.state.heap m.state.devices = .ok h) :
    m.cleanup = .ok (regions, h) := by
  simp only [Module.cleanup, hcdevs, hregions, unregisterChrdevRegion, List.erase_cons_head,
    hcleanup, hdelete, ok_bind]
  rfl

end Load

/-- After it is loaded, the module can be unloaded in this state of its devices, and then
nothing is left of it. -/
def Module.UnloadsFrom (m : Module) (regions : List Region) (s : State) : Prop :=
  ∃ h', { m with state := s }.cleanup = .ok (regions, h') ∧ ∀ a, h'.get a = none

end KernelTraining.Scull
