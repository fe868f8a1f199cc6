import KernelTraining.Scull.Module

/-!
# Loading scull with its friend devices

`scull_init_module` and `scull_cleanup_module` of `Scull/scull.tar`, which also set up the
pipes of `pipe.c` and the four access-controlled devices of `access.c`, under the device
numbers behind those of the bare devices.  If one of the families cannot be set up, the module
is loaded without it.

The cleanup functions are there for unfinished loads as well, and are "required to never fail,
even if nothing was initialized first".  That of the pipes looks at its devices first.  That
of the access devices does not (`friends_lifecycle`).

## Strategy

A load is a sequence of stages, each of which may be refused, and the cleanup undoes them in
another order than they were made in.  So the module is described after each stage, and the
cleanup is run once on that description:

* `Module.Bare` is the module with its bare devices.  If there is no memory for these, the
  cleanup runs before the friends have been asked for.  It then finds the access devices as
  they are in a module that has just been loaded, and puts kernel objects that have never been
  initialised.
* `scullPInit_cases`: the pipes leave either numbers and devices behind, or nothing.
* `scullAccessInit_eq`: the access devices are set up one after the other, and one that cannot
  be added is put at once.  Its cleanup puts it again, so the cleanup goes through exactly
  when all four have been added (`deleteCdevs_accessCdevs`).
* `scullCleanupModule_withAccess` puts these together.  The families give their numbers back in
  another order than they have taken them in (`unregister_two`, `unregister_three`).  For that
  the numbers of the access devices have to be others than those taken before; they begin
  behind these, as long as the minor numbers fit their 20 bits (`Module.Bare.access_ne`).
-/

namespace KernelTraining.Scull.Friends

open Machine

/-- `SCULL_N_ADEVS`. -/
def scullNAdevs : ℕ := 4

/-- What the kernel answers while a family is set up. -/
structure FamilyEnv where
  granted : Bool := true
  memory : Bool := true
  added : ℕ → Bool := fun _ => true

structure Env where
  bare : LoadEnv := {}
  pipes : FamilyEnv := {}
  access : FamilyEnv := {}

/-- The module with what it holds. -/
structure Module where
  scullMajor : ℕ
  scullMinor : ℕ
  scullNrDevs : ℕ
  scullPNrDevs : ℕ
  regions : List Region
  scullDevices : Option (List Cdev) := none
  scullPDevno : ℕ := 0
  scullPDevices : Option (List Cdev) := none
  scullAFirstdev : ℕ := 0
  scullAccessDevs : List Cdev := List.replicate scullNAdevs .zeroed

/-! ## The pipes -/

/-- `scull_p_init`: the number of devices set up, and the module. -/
def scullPInit (m : Module) (firstdev : ℕ) (env : FamilyEnv) : ℕ × Module :=
  match registerChrdevRegion m.regions ⟨firstdev, m.scullPNrDevs⟩ env.granted with
  | none => (0, m)
  | some regions =>
      let m := { m with regions := regions, scullPDevno := firstdev }
      if env.memory then
        (m.scullPNrDevs, { m with scullPDevices := some (setupCdevs m.scullPNrDevs env.added) })
      else
        (0, { m with regions := unregisterChrdevRegion regions ⟨firstdev, m.scullPNrDevs⟩ })

/-- `scull_p_cleanup`. -/
def scullPCleanup (m : Module) : Except Fault Module :=
  match m.scullPDevices with
  | none => .ok m
  | some cdevs => do
      deleteCdevs cdevs
      pure { m with
        regions := unregisterChrdevRegion m.regions ⟨m.scullPDevno, m.scullPNrDevs⟩
        scullPDevices := none }

/-! ## The access-controlled devices -/

/-- `scull_access_setup`.  A device that cannot be added is put at once. -/
def scullAccessSetup (added : Bool) : Except Fault Cdev :=
  let cdev := cdevAdd added cdevInit
  if added then .ok cdev else kobjectPut cdev

/-- `scull_access_init`. -/
def scullAccessInit (m : Module) (firstdev : ℕ) (env : FamilyEnv) : Except Fault (ℕ × Module) :=
  match registerChrdevRegion m.regions ⟨firstdev, scullNAdevs⟩ env.granted with
  | none => .ok (0, m)
  | some regions => do
      let cdevs ← (List.range scullNAdevs).mapM fun i => scullAccessSetup (env.added i)
      pure (scullNAdevs, { m with
        regions := regions
        scullAFirstdev := firstdev
        scullAccessDevs := cdevs })

/-- `scull_access_cleanup`. -/
def scullAccessCleanup (m : Module) : Except Fault Module := do
  deleteCdevs m.scullAccessDevs
  pure { m with regions := unregisterChrdevRegion m.regions ⟨m.scullAFirstdev, scullNAdevs⟩ }

/-! ## The module -/

/-- "Get rid of our char dev entries", if there are any. -/
def giveUpDevices : Option (List Cdev) → Except Fault Unit
  | none => .ok ()
  | some cdevs => deleteCdevs cdevs

/-- `scull_cleanup_module`: the device numbers that are taken afterwards. -/
def scullCleanupModule (m : Module) : Except Fault (List Region) := do
  let devno := mkdev m.scullMajor m.scullMinor
  giveUpDevices m.scullDevices
  let m := { m with regions := unregisterChrdevRegion m.regions ⟨devno, m.scullNrDevs⟩ }
  let m ← scullPCleanup m
  let m ← scullAccessCleanup m
  pure m.regions

/-- "Call the init function for any friend device", with the numbers behind those that are
taken already. -/
def addFriends (m : Module) (env : Env) : Except Fault Module := do
  let dev := mkdev m.scullMajor (m.scullMinor + m.scullNrDevs)
  let (n, m) := scullPInit m dev env.pipes
  let (_, m) ← scullAccessInit m (dev + n) env.access
  pure m

/-- `scull_init_module`. -/
def scullInitModule (p : Parameters) (scullPNrDevs : ℕ) (regions : List Region) (env : Env) :
    Except Fault (ℤ × List Region × Option Module) :=
  let (scullMajor, taken) :=
    takeNumbers p.scullMajor p.scullMinor p.scullNrDevs regions env.bare.granted env.bare.major
  match taken with
  | none => .ok (env.bare.refusal, regions, none)
  | some regions => do
      let m : Module := {
        scullMajor := scullMajor
        scullMinor := p.scullMinor
        scullNrDevs := p.scullNrDevs
        scullPNrDevs := scullPNrDevs
        regions := regions }
      if env.bare.memory then
        let m ← addFriends
          { m with scullDevices := some (setupCdevs p.scullNrDevs env.bare.added) } env
        pure (0, m.regions, some m)
      else do
        let regions ← scullCleanupModule m
        pure (-ENOMEM, regions, none)

/-- The access-controlled devices get their numbers, and all of them can be added. -/
def AccessReady (env : FamilyEnv) : Prop :=
  env.granted = true ∧ ∀ i < scullNAdevs, env.added i = true

instance (env : FamilyEnv) : Decidable (AccessReady env) := inferInstanceAs (Decidable (_ ∧ _))

section Load

variable {regions : List Region} {m : Module}

theorem scullAccessSetup_eq (added : Bool) :
    scullAccessSetup added = .ok (if added then .live true else .released) := by
  cases added <;> rfl

/-- The access devices after they have been set up. -/
def accessCdevs (env : FamilyEnv) : List Cdev :=
  if env.granted then
    (List.range scullNAdevs).map fun i => if env.added i then .live true else .released
  else List.replicate scullNAdevs .zeroed

/-- The module with what it has got of the access devices. -/
def Module.withAccess (m : Module) (firstdev : ℕ) (env : FamilyEnv) : Module :=
  { m with
    regions := if env.granted then ⟨firstdev, scullNAdevs⟩ :: m.regions else m.regions
    scullAFirstdev := if env.granted then firstdev else m.scullAFirstdev
    scullAccessDevs := accessCdevs env }

theorem scullAccessInit_eq (firstdev : ℕ) (env : FamilyEnv)
    (hzeroed : m.scullAccessDevs = List.replicate scullNAdevs .zeroed) :
    ∃ n, scullAccessInit m firstdev env = .ok (n, m.withAccess firstdev env) := by
  unfold scullAccessInit registerChrdevRegion Module.withAccess accessCdevs
  by_cases hgranted : env.granted = true
  · have hsetup : (List.range scullNAdevs).mapM (fun i => scullAccessSetup (env.added i)) =
        .ok ((List.range scullNAdevs).map fun i =>
          if env.added i then Cdev.live true else .released) := by
      rw [funext fun i => scullAccessSetup_eq (env.added i)]
      rfl
    simp only [if_pos hgranted, hsetup, ok_bind]
    exact ⟨scullNAdevs, rfl⟩
  · simp only [if_neg hgranted]
    exact ⟨0, by rw [← hzeroed]⟩

/-- **The access devices can be cleaned up exactly when all of them could be set up.** -/
theorem deleteCdevs_accessCdevs (env : FamilyEnv) :
    deleteCdevs (accessCdevs env) =
      if AccessReady env then .ok () else .error .badAccess := by
  rw [deleteCdevs_eq]
  have hiff : (∀ c ∈ accessCdevs env, c.isLive = true) ↔ AccessReady env := by
    unfold accessCdevs AccessReady
    by_cases hgranted : env.granted = true
    · rw [if_pos hgranted]
      constructor
      · intro hlive
        refine ⟨hgranted, fun i hi => ?_⟩
        have hcdev := hlive _ (List.mem_map.mpr ⟨i, List.mem_range.mpr hi, rfl⟩)
        split_ifs at hcdev with hadded
        · exact hadded
        · cases hcdev
      · rintro ⟨-, hadded⟩ c hc
        obtain ⟨i, hi, rfl⟩ := List.mem_map.mp hc
        rw [if_pos (hadded i (List.mem_range.mp hi))]
        rfl
    · rw [if_neg hgranted]
      refine iff_of_false (fun hlive => ?_) fun h => hgranted h.1
      cases hlive .zeroed (List.mem_replicate.mpr ⟨by decide, rfl⟩)
  simp only [hiff]

/-- What is left of the device numbers once the pipes have been cleaned up. -/
def Module.withoutPipes (m : Module) (regions : List Region) : List Region :=
  if m.scullPDevices.isSome then unregisterChrdevRegion regions ⟨m.scullPDevno, m.scullPNrDevs⟩
  else regions

theorem scullCleanupModule_eq (hbare : giveUpDevices m.scullDevices = .ok ())
    (hpipes : ∀ cdevs ∈ m.scullPDevices, deleteCdevs cdevs = .ok ()) :
    scullCleanupModule m = (deleteCdevs m.scullAccessDevs).map fun _ =>
      unregisterChrdevRegion (m.withoutPipes
        (unregisterChrdevRegion m.regions ⟨mkdev m.scullMajor m.scullMinor, m.scullNrDevs⟩))
        ⟨m.scullAFirstdev, scullNAdevs⟩ := by
  unfold scullCleanupModule
  simp only [hbare, ok_bind]
  unfold scullPCleanup scullAccessCleanup Module.withoutPipes
  cases h : m.scullPDevices with
  | none =>
      simp only [ok_bind, Option.isSome_none, Bool.false_eq_true, if_false]
      cases deleteCdevs m.scullAccessDevs <;> rfl
  | some cdevs =>
      simp only [hpipes cdevs h, ok_bind, pure_bind, Option.isSome_some, if_true]
      cases deleteCdevs m.scullAccessDevs <;> rfl

/-- Unloading the module after the access devices have been dealt with. -/
theorem scullCleanupModule_withAccess (hbare : giveUpDevices m.scullDevices = .ok ())
    (hpipes : ∀ cdevs ∈ m.scullPDevices, deleteCdevs cdevs = .ok ()) (firstdev : ℕ)
    (env : FamilyEnv) :
    scullCleanupModule (m.withAccess firstdev env) =
      if AccessReady env then
        .ok (unregisterChrdevRegion (m.withoutPipes (unregisterChrdevRegion
          (⟨firstdev, scullNAdevs⟩ :: m.regions)
          ⟨mkdev m.scullMajor m.scullMinor, m.scullNrDevs⟩)) ⟨firstdev, scullNAdevs⟩)
      else .error .badAccess := by
  refine (scullCleanupModule_eq (m := m.withAccess firstdev env) hbare hpipes).trans ?_
  show (deleteCdevs (accessCdevs env)).map _ = _
  rw [deleteCdevs_accessCdevs]
  split_ifs with hready
  · simp only [Module.withAccess, hready.1, if_true]
    rfl
  · rfl

/-- The pipes get the numbers they ask for and memory, or leave nothing behind. -/
theorem scullPInit_cases (m : Module) (firstdev : ℕ) (env : FamilyEnv) :
    (∃ pDevno, scullPInit m firstdev env = (0, { m with scullPDevno := pDevno })) ∨
      scullPInit m firstdev env = (m.scullPNrDevs, { m with
        regions := ⟨firstdev, m.scullPNrDevs⟩ :: m.regions
        scullPDevno := firstdev
        scullPDevices := some (setupCdevs m.scullPNrDevs env.added) }) := by
  unfold scullPInit registerChrdevRegion
  by_cases hgranted : env.granted = true
  · simp only [if_pos hgranted]
    by_cases hmemory : env.memory = true
    · rw [if_pos hmemory]
      exact .inr rfl
    · rw [if_neg hmemory, unregisterChrdevRegion, List.erase_cons_head]
      exact .inl ⟨firstdev, rfl⟩
  · simp only [if_neg hgranted]
    exact .inl ⟨m.scullPDevno, rfl⟩

/-- Numbers that are given back in another order than they were taken in. -/
theorem unregister_two {a b : Region} (hab : a ≠ b) :
    unregisterChrdevRegion (unregisterChrdevRegion (a :: b :: regions) b) a = regions := by
  unfold unregisterChrdevRegion
  rw [List.erase_cons_tail (by simpa using hab), List.erase_cons_head, List.erase_cons_head]

theorem unregister_three {a b c : Region} (hab : a ≠ b) (hac : a ≠ c) :
    unregisterChrdevRegion (unregisterChrdevRegion
      (unregisterChrdevRegion (a :: c :: b :: regions) b) c) a = regions := by
  unfold unregisterChrdevRegion
  rw [List.erase_cons_tail (by simpa using hab)]
  by_cases hcb : c = b
  · rw [hcb, List.erase_cons_head]
    exact unregister_two hab
  · have hinner : (c :: b :: regions).erase b = c :: regions := by
      rw [List.erase_cons_tail (by simpa using hcb), List.erase_cons_head]
    rw [hinner]
    exact unregister_two hac

/-- A module with its bare devices, and nothing else so far. -/
structure Module.Bare (m : Module) (regions : List Region) : Prop where
  regions : m.regions = ⟨mkdev m.scullMajor m.scullMinor, m.scullNrDevs⟩ :: regions
  fits : m.scullMinor + m.scullNrDevs < 1048576
  devices : giveUpDevices m.scullDevices = .ok ()
  pipes : m.scullPDevices = none
  access : m.scullAccessDevs = List.replicate scullNAdevs .zeroed

/-- The numbers of the access devices are others than those of the bare devices. -/
theorem Module.Bare.access_ne (bare : m.Bare regions) (k : ℕ) :
    (⟨mkdev m.scullMajor (m.scullMinor + m.scullNrDevs) + k, scullNAdevs⟩ : Region) ≠
      ⟨mkdev m.scullMajor m.scullMinor, m.scullNrDevs⟩ := by
  have hfits := bare.fits
  intro heq
  rw [mkdev_eq hfits, mkdev_eq (by omega), Region.mk.injEq] at heq
  unfold scullNAdevs at heq
  omega

/-- **The friends are added, and can be cleaned up exactly when the access devices could all
be set up.** -/
theorem Module.Bare.addFriends (bare : m.Bare regions) (env : Env) :
    ∃ m', Friends.addFriends m env = .ok m' ∧ scullCleanupModule m' =
      if AccessReady env.access then .ok regions else .error .badAccess := by
  set dev := mkdev m.scullMajor (m.scullMinor + m.scullNrDevs) with hdev
  have hadd : ∀ n m', scullPInit m dev env.pipes = (n, m') →
      m'.scullAccessDevs = List.replicate scullNAdevs .zeroed →
      Friends.addFriends m env = .ok (m'.withAccess (dev + n) env.access) := by
    intro n m' hpipes hzeroed
    obtain ⟨k, haccess⟩ := scullAccessInit_eq (dev + n) env.access hzeroed
    unfold Friends.addFriends
    simp only [← hdev, hpipes, haccess, ok_bind]
    rfl
  rcases scullPInit_cases m dev env.pipes with ⟨pDevno, hpipes⟩ | hpipes
  · refine ⟨_, hadd _ _ hpipes bare.access, ?_⟩
    refine (scullCleanupModule_withAccess ?_ ?_ _ _).trans ?_
    · exact bare.devices
    · intro cdevs h
      rw [bare.pipes] at h
      cases h
    simp only [Module.withoutPipes, bare.pipes, Option.isSome_none, Bool.false_eq_true, if_false,
      bare.regions]
    rw [unregister_two (bare.access_ne 0)]
  · have hpipe : (⟨dev + m.scullPNrDevs, scullNAdevs⟩ : Region) ≠ ⟨dev, m.scullPNrDevs⟩ := by
      intro heq
      rw [Region.mk.injEq] at heq
      unfold scullNAdevs at heq
      omega
    refine ⟨_, hadd _ _ hpipes bare.access, ?_⟩
    refine (scullCleanupModule_withAccess ?_ ?_ _ _).trans ?_
    · exact bare.devices
    · intro cdevs h
      rw [← Option.some.inj h]
      exact deleteCdevs_setupCdevs m.scullPNrDevs env.pipes.added
    simp only [Module.withoutPipes, Option.isSome_some, if_true, bare.regions]
    rw [unregister_three (bare.access_ne m.scullPNrDevs) hpipe]

end Load

end KernelTraining.Scull.Friends
