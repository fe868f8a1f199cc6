import KernelTraining.Machine.Calls
import KernelTraining.Machine.Chrdev
import KernelTraining.Lifo.Freed

/-!
# Loading and unloading lifo

`lifo_init_module` and `lifo_cleanup_module`, with the device numbers, the character device
and the memory they ask for.  The cleanup deletes the character device in `main_device` and
frees the nodes of the list, but not `main_device` itself, so that each time the module is
loaded and unloaded again costs one `struct lifo_dev` (`lives_leak`).

What of the kernel outlives the module is in `Kernel`: the device numbers that are taken, and
how many blocks stay allocated.  A `Life` of the module is one load, the calls that follow if
it has succeeded, and one cleanup; `live_eq` is what one life leaves behind, and `lives_leak`
adds up any number of them.

* That the nodes are all freed is shown in `Lifo.Freed`, and not every run of calls allows it.
  So a life whose load succeeds is assumed to leave nothing (`Life.LeavesNothing`): every node
  a write asks for is granted, no copy of a write fails, a read fails at its first byte or not
  at all, and no opening trims data.  A load that fails is followed by no calls, and nothing is
  assumed then.
* The device numbers are given back as they were taken as long as the minor number fits its 20
  bits.
* A refusal hands on the result of the kernel, whatever negative number that is; but what a
  life leaves behind does not depend on it.
-/

namespace KernelTraining.Lifo

open Machine

/-- What the module changes of the kernel: the device numbers that are taken, and how many
`struct lifo_dev` and `struct lifo_node` stay allocated. -/
structure Kernel where
  regions : List Region
  devices : ℕ
  nodes : ℕ
  deriving DecidableEq

/-- What the kernel answers during a load; `refusal` is its result if it has no numbers for the
module. -/
structure LoadEnv where
  granted : Bool := true
  refusal : Refusal := ⟨-EBUSY, by decide⟩
  major : Option ℕ := none
  memory : Bool := true
  added : Bool := true

/-- `lifo_major`, `lifo_minor` and `main_device`, of which this is the character device. -/
structure Module where
  lifoMajor : ℕ
  lifoMinor : ℕ
  mainDevice : Option Cdev

/-- `if (main_device)`: the device is deleted and trimmed in the state `s`.  The number of nodes
that stay allocated. -/
def giveUpDevice (s : State) : Option Cdev → Except Fault ℕ
  | none => .ok 0
  | some cdev => do
      let _ ← cdevDel cdev
      let s ← lifoTrim s
      pure s.heap.card

/-- `lifo_cleanup_module`.  The memory of the device is not freed. -/
def lifoCleanupModule (k : Kernel) (m : Module) (s : State) : Except Fault Kernel := do
  let devno := mkdev m.lifoMajor m.lifoMinor
  let nodes ← giveUpDevice s m.mainDevice
  pure { k with
    nodes := k.nodes + nodes
    regions := unregisterChrdevRegion k.regions ⟨devno, 1⟩ }

/-- `lifo_init_module`. -/
def lifoInitModule (lifoMajor lifoMinor : ℕ) (k : Kernel) (env : LoadEnv) :
    Except Fault (ℤ × Kernel × Option Module) :=
  let (lifoMajor, taken) :=
    takeNumbers lifoMajor lifoMinor 1 k.regions env.granted env.major
  match taken with
  | none => .ok (env.refusal, k, none)
  | some regions =>
      if env.memory then
        .ok (0, { k with regions := regions, devices := k.devices + 1 },
          some ⟨lifoMajor, lifoMinor, some (cdevAdd env.added cdevInit)⟩)
      else do
        let m : Module := ⟨lifoMajor, lifoMinor, none⟩
        let k ← lifoCleanupModule { k with regions := regions } m lifoInit
        pure (-ENOMEM, k, none)

/-- The module is loaded, used if that has succeeded, and unloaded again. -/
structure Life where
  env : LoadEnv
  calls : List Call

def live (lifoMajor lifoMinor : ℕ) (k : Kernel) (life : Life) : Except Fault Kernel := do
  let (_, k, loaded) ← lifoInitModule lifoMajor lifoMinor k life.env
  match loaded with
  | none => pure k
  | some m => do
      let s ← life.calls.foldlM State.step lifoInit
      lifoCleanupModule k m s

/-- The load succeeds. -/
def Life.loads (lifoMajor : ℕ) (life : Life) : Bool :=
  numbered lifoMajor life.env.granted life.env.major && life.env.memory

/-- The calls under which the module frees its nodes: the allocator has memory for every node, no
copy of a write fails, a read fails at its first byte or not at all, and no opening trims data. -/
def Life.LeavesNothing (life : Life) : Prop :=
  EveryStep State.step Granted lifoInit life.calls ∧
    EveryStep State.step Lifo.LeavesNothing lifoInit life.calls

instance (life : Life) : Decidable life.LeavesNothing := inferInstanceAs (Decidable (_ ∧ _))

section Life

variable {lifoMajor lifoMinor : ℕ} {k : Kernel} {life : Life}

/-- Unloading gives the number back. -/
theorem lifoCleanupModule_eq {m : Module} {s : State} {nodes : ℕ} {regions : List Region}
    (hdevice : giveUpDevice s m.mainDevice = .ok nodes)
    (hregions : k.regions = ⟨mkdev m.lifoMajor m.lifoMinor, 1⟩ :: regions) :
    lifoCleanupModule k m s = .ok { k with nodes := k.nodes + nodes, regions := regions } := by
  rw [lifoCleanupModule, hdevice, hregions, unregisterChrdevRegion, List.erase_cons_head]
  rfl

theorem card_eq_zero {h : Heap LifoNode} (hfreed : ∀ a, h.get a = none) : h.card = 0 := by
  by_contra hcard
  obtain ⟨a, ha⟩ := Finset.card_pos.mp (Nat.pos_of_ne_zero hcard)
  have hmem := Finmap.mem_keys.mp ha
  rw [Finmap.mem_iff] at hmem
  obtain ⟨node, hnode⟩ := hmem
  have hnone : h.cells.lookup a = none := hfreed a
  rw [hnone] at hnode
  cases hnode

/-- **One life of the module** gives back its number and its character device, and frees its
nodes, but not its device. -/
theorem live_eq (hminor : lifoMinor < 1048576)
    (hleaves : life.loads lifoMajor = true → life.LeavesNothing) :
    live lifoMajor lifoMinor k life =
      .ok { k with devices := k.devices + if life.loads lifoMajor then 1 else 0 } := by
  obtain ⟨major, htake⟩ :=
    takeNumbers_eq lifoMajor hminor 1 k.regions life.env.granted life.env.major
  by_cases hnumbered : numbered lifoMajor life.env.granted life.env.major = true
  · rw [if_pos hnumbered] at htake
    by_cases hmemory : life.env.memory = true
    · have hloads : life.loads lifoMajor = true := by
        rw [Life.loads, hnumbered, hmemory, Bool.and_self]
      obtain ⟨s, hrun, accounted⟩ := ((everyStep_and.mpr (hleaves hloads)).everyState
        (fun _ _ accounted hc => accounted.step hc) Accounted.init).last
      obtain ⟨s', htrim, hfreed⟩ := accounted.cleansUp
      have hdevice : giveUpDevice s (some (cdevAdd life.env.added cdevInit)) = .ok 0 := by
        rw [giveUpDevice, cdevDel_ok rfl, ok_bind, show lifoTrim s = .ok s' from htrim, ok_bind,
          card_eq_zero hfreed]
        rfl
      simp only [live, lifoInitModule, htake, if_pos hmemory, ok_bind, hrun, hloads, if_true]
      exact lifoCleanupModule_eq (k := ⟨_, k.devices + 1, k.nodes⟩) (m := ⟨_, lifoMinor, _⟩) hdevice
        rfl
    · have hloads : life.loads lifoMajor = false := by
        rw [Life.loads, Bool.eq_false_iff.mpr hmemory, Bool.and_false]
      simp only [live, lifoInitModule, htake, if_neg hmemory, hloads, Bool.false_eq_true, if_false]
      rw [lifoCleanupModule_eq (k := ⟨_, k.devices, k.nodes⟩) (m := ⟨_, lifoMinor, none⟩)
        (s := lifoInit) rfl rfl]
      rfl
  · rw [if_neg hnumbered] at htake
    have hloads : life.loads lifoMajor = false := by
      rw [Life.loads, Bool.eq_false_iff.mpr hnumbered, Bool.false_and]
    simp only [live, lifoInitModule, htake, hloads]
    rfl

end Life

end KernelTraining.Lifo
