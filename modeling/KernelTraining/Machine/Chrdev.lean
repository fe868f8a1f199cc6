import KernelTraining.Machine.Heap

/-!
# Character devices

What a module asks of the kernel when it is loaded, and has to give back when it is unloaded:
ranges of device numbers, and character devices that are reachable under them.  Whether a
request is granted is the environment's answer.

A character device embeds a kernel object with a reference count.  `cdev_init` makes it live,
and it must be put exactly once: `cdev_del`, or `kobject_put`, of an object that was never
initialised, or that has been put before, is a fault.  So is giving up the memory of a device
that can still be opened.

* Numbers are given back by their first one and their count, which a module remembers as a
  major number.  They are found again if the minor numbers fit their 20 bits
  (`takeNumbers_eq`); then they are the ones that were taken, also when the major number was
  the kernel's choice.
* The result with which the kernel refuses a request is any negative number (`Refusal`), and a
  module is expected to hand it on.
* Devices that have been set up can be deleted and their memory given up, whether or not they
  could be added (`deleteCdevs_setupCdevs`); and devices can be given up only if all of them
  are live (`deleteCdevs_eq`).
-/

namespace KernelTraining.Machine

/-- The kernel's result for a request that it refuses. -/
abbrev Refusal := { result : ℤ // result < 0 }

/-! ## Device numbers -/

/-- `MKDEV`. -/
def mkdev (major minor : ℕ) : ℕ := major <<< 20 ||| minor

/-- `MAJOR`. -/
def majorOf (dev : ℕ) : ℕ := dev >>> 20

theorem mkdev_eq {minor : ℕ} (hminor : minor < 1048576) (major : ℕ) :
    mkdev major minor = major * 1048576 + minor := by
  rw [mkdev, ← Nat.shiftLeft_add_eq_or_of_lt hminor, Nat.shiftLeft_eq]

theorem majorOf_mkdev {minor : ℕ} (hminor : minor < 1048576) (major : ℕ) :
    majorOf (mkdev major minor) = major := by
  rw [majorOf, mkdev_eq hminor, Nat.shiftRight_eq_div_pow]
  omega

/-- `count` device numbers from `first` on. -/
structure Region where
  first : ℕ
  count : ℕ
  deriving DecidableEq

/-- `register_chrdev_region`: the ranges that are taken afterwards, if it succeeds. -/
def registerChrdevRegion (regions : List Region) (r : Region) (granted : Bool) :
    Option (List Region) :=
  if granted then some (r :: regions) else none

/-- `alloc_chrdev_region`, given the major number the kernel finds: the first of the numbers,
and the ranges that are taken afterwards. -/
def allocChrdevRegion (regions : List Region) (baseminor count : ℕ) (major : Option ℕ) :
    Option (ℕ × List Region) :=
  major.map fun major => (mkdev major baseminor, ⟨mkdev major baseminor, count⟩ :: regions)

/-- `unregister_chrdev_region`. -/
def unregisterChrdevRegion (regions : List Region) (r : Region) : List Region := regions.erase r

/-- "Get a range of minor numbers to work with, asking for a dynamic major unless directed
otherwise at load time": how modules begin.  The major number afterwards, and the ranges that
are taken if the request is granted; `found` is the major number the kernel finds. -/
def takeNumbers (major minor count : ℕ) (regions : List Region) (granted : Bool)
    (found : Option ℕ) : ℕ × Option (List Region) :=
  if major ≠ 0 then
    (major, registerChrdevRegion regions ⟨mkdev major minor, count⟩ granted)
  else
    match allocChrdevRegion regions minor count found with
    | none => (majorOf 0, none)
    | some (dev, regions) => (majorOf dev, some regions)

/-- The request is granted. -/
def numbered (major : ℕ) (granted : Bool) (found : Option ℕ) : Bool :=
  if major ≠ 0 then granted else found.isSome

/-- The numbers that are taken are found again from the major number. -/
theorem takeNumbers_eq (major : ℕ) {minor : ℕ} (hminor : minor < 1048576) (count : ℕ)
    (regions : List Region) (granted : Bool) (found : Option ℕ) :
    ∃ major', takeNumbers major minor count regions granted found =
      (major', if numbered major granted found then
        some (⟨mkdev major' minor, count⟩ :: regions) else none) := by
  unfold takeNumbers registerChrdevRegion allocChrdevRegion numbered
  by_cases hmajor : major ≠ 0
  · simp only [if_pos hmajor]
    exact ⟨major, rfl⟩
  · simp only [if_neg hmajor]
    cases found with
    | none => exact ⟨majorOf 0, rfl⟩
    | some found =>
        refine ⟨found, ?_⟩
        simp only [Option.map_some, majorOf_mkdev hminor, Option.isSome_some, if_true]

/-! ## Devices -/

/-- `struct cdev`, as far as its kernel object goes: cleared memory, initialised, and then
perhaps reachable under its number, or put. -/
inductive Cdev where
  | zeroed
  | live (mapped : Bool)
  | released
  deriving DecidableEq

def Cdev.isLive : Cdev → Bool
  | .live _ => true
  | _ => false

def Cdev.isMapped : Cdev → Bool
  | .live mapped => mapped
  | _ => false

/-- `cdev_init`. -/
def cdevInit : Cdev := .live false

/-- `cdev_add`, which the environment may refuse. -/
def cdevAdd (added : Bool) : Cdev → Cdev
  | .live _ => .live added
  | c => c

/-- `kobject_put` of the one reference there is. -/
def kobjectPut : Cdev → Except Fault Cdev
  | .live _ => .ok .released
  | _ => .error .badAccess

/-- `cdev_del`: the number is unmapped, and the object put. -/
def cdevDel (c : Cdev) : Except Fault Cdev := kobjectPut c

/-- Giving up the memory of some devices, be it with `kfree` or with the module itself. -/
def dropCdevs (cdevs : List Cdev) : Except Fault Unit :=
  if cdevs.any Cdev.isMapped then .error .badAccess else .ok ()

theorem cdevDel_ok {c : Cdev} (h : c.isLive = true) : cdevDel c = .ok .released := by
  cases c with
  | live mapped => rfl
  | zeroed | released => cases h

/-- Devices that have been set up can be deleted, whether or not they were added. -/
theorem mapM_cdevDel_ok {cdevs : List Cdev} (h : ∀ c ∈ cdevs, c.isLive = true) :
    cdevs.mapM cdevDel = .ok (List.replicate cdevs.length .released) := by
  induction cdevs with
  | nil => rfl
  | cons c cdevs ih =>
      rw [List.mapM_cons, cdevDel_ok (h c List.mem_cons_self),
        ih fun d hd => h d (List.mem_cons_of_mem c hd)]
      rfl

/-- One that has not been, or has been put before, cannot. -/
theorem mapM_cdevDel_error {cdevs : List Cdev} {c : Cdev} (hc : c ∈ cdevs)
    (h : c.isLive = false) : cdevs.mapM cdevDel = .error .badAccess := by
  induction cdevs with
  | nil => cases hc
  | cons d cdevs ih =>
      rw [List.mapM_cons]
      cases hd : d with
      | zeroed | released => rfl
      | live mapped =>
          rcases List.mem_cons.mp hc with rfl | hmem
          · rw [hd] at h
            cases h
          · rw [ih hmem]
            rfl

theorem dropCdevs_released (n : ℕ) : dropCdevs (List.replicate n .released) = .ok () := by
  rw [dropCdevs, if_neg]
  simp only [List.any_eq_true, not_exists, not_and]
  intro c hc
  rw [List.eq_of_mem_replicate hc]
  exact Bool.false_ne_true

/-- Deleting devices and giving up their memory. -/
def deleteCdevs (cdevs : List Cdev) : Except Fault Unit := do
  let cdevs ← cdevs.mapM cdevDel
  dropCdevs cdevs

/-- **Devices can be given up exactly when all of them are live.** -/
theorem deleteCdevs_eq (cdevs : List Cdev) :
    deleteCdevs cdevs = if ∀ c ∈ cdevs, c.isLive = true then .ok () else .error .badAccess := by
  split_ifs with h
  · rw [deleteCdevs, mapM_cdevDel_ok h, ok_bind, dropCdevs_released]
  · push Not at h
    obtain ⟨c, hc, hlive⟩ := h
    rw [deleteCdevs, mapM_cdevDel_error hc (by simpa using hlive)]
    rfl

/-- The devices `cdev_init` and `cdev_add` have been called for. -/
def setupCdevs (n : ℕ) (added : ℕ → Bool) : List Cdev :=
  (List.range n).map fun i => cdevAdd (added i) cdevInit

theorem deleteCdevs_setupCdevs (n : ℕ) (added : ℕ → Bool) :
    deleteCdevs (setupCdevs n added) = .ok () := by
  rw [deleteCdevs_eq, if_pos]
  intro c hc
  obtain ⟨i, -, rfl⟩ := List.mem_map.mp hc
  rfl

end KernelTraining.Machine
