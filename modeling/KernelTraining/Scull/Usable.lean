import KernelTraining.Scull.Invariant

/-!
# Usable geometry

The two parameters reach a device only when it is trimmed, and nothing checks them on the
way.  So a device is usable after every call exactly as long as every trim finds usable
parameters (`usable_iff`), and `scull_ioctl` itself never sees to that: it stores whatever a
privileged caller hands it (`unusable_run`).

The condition is on the state before a call, and on the call (`TrimsUsable`,
`QueriedPositive`).  Together with the invariant of `Scull.Invariant` one call keeps all
devices usable if and only if it holds (`Inv.step_allUsable_iff`): in one direction this is
what the invariant is preserved for, as a device that owns a layout has the parameters of a
geometry (`Inv.allUsable`); in the other, an opening that trims puts the parameters of the
module into the device, so if they are no good then neither is the device.
`everyState_iff_everyStep` makes an equivalence about runs of this.

What a query returns is independent of all that: the parameter itself, whatever it is
(`queryPositive_iff`).

`everyState_inv` is the run lemma of the whole module: a run whose trims find usable
parameters keeps the invariant.  The theorems about reachable states start from it.
-/

namespace KernelTraining.Scull

open Machine

/-- The divisors of `scull_read` and `scull_write` are positive, and their product
is an `int`. -/
def ScullDev.Usable (dev : ScullDev) : Prop :=
  0 < dev.quantum ∧ 0 < dev.qset ∧ dev.quantum * dev.qset ≤ intMax

instance (dev : ScullDev) : Decidable dev.Usable := inferInstanceAs (Decidable (_ ∧ _ ∧ _))

def AllUsable (s : State) : Prop := ∀ dev ∈ s.devices, dev.Usable

instance (s : State) : Decidable (AllUsable s) := inferInstanceAs (Decidable (∀ _ ∈ _, _))

/-- One call, of which only the state afterwards matters. -/
def State.step (s : State) (c : Call) : Except Fault State := (s.call c).map Prod.snd

theorem State.step_eq_ok {s s' : State} {c : Call} :
    s.step c = .ok s' ↔ ∃ reply, s.call c = .ok (reply, s') := by
  unfold State.step
  rcases s.call c with fault | ⟨reply, t⟩
  · simp [Except.map]
  · simp [Except.map]

/-- "Query: return it (it's positive)". -/
def QueryPositive (s : State) : Call → Prop
  | .ioctl cmd arg env =>
      (cmd = (Command.query .quantum).code ∨ cmd = (Command.query .qset).code) →
        0 < (scullIoctl s.globals cmd arg env).retval
  | _ => True

/-- The parameter a query asks for is positive. -/
def QueriedPositive (s : State) : Call → Prop
  | .ioctl cmd _ _ =>
      (cmd = (Command.query .quantum).code → 0 < s.globals.quantum) ∧
        (cmd = (Command.query .qset).code → 0 < s.globals.qset)
  | _ => True

instance (s : State) : ∀ c, Decidable (QueryPositive s c)
  | .open .. | .read .. | .write .. | .llseek .. | .ioctl .. => by
      unfold QueryPositive
      infer_instance

instance (s : State) : ∀ c, Decidable (QueriedPositive s c)
  | .open .. | .read .. | .write .. | .llseek .. | .ioctl .. => by
      unfold QueriedPositive
      infer_instance

/-- A query returns the parameter itself. -/
theorem scullIoctl_query (p : Param) (g : Globals) (arg : ℕ) (env : IoctlEnv) :
    (scullIoctl g (Command.query p).code arg env).retval = g.get p := by
  rw [scullIoctl_code _ _ _ _ (.inl (by cases p <;> decide))]
  rfl

theorem queryPositive_iff (s : State) (c : Call) : QueryPositive s c ↔ QueriedPositive s c := by
  cases c with
  | ioctl cmd arg env =>
      simp only [QueryPositive, QueriedPositive, or_imp]
      refine and_congr (forall_congr' fun hcmd => ?_) (forall_congr' fun hcmd => ?_)
      · rw [hcmd, scullIoctl_query]
        rfl
      · rw [hcmd, scullIoctl_query]
        rfl
  | «open» => rfl
  | read => rfl
  | write => rfl
  | llseek => rfl

/-- A device that owns a layout has the parameters of a geometry. -/
theorem Inv.allUsable {s : State} {own : ℕ → Owned} (inv : Inv s own) : AllUsable s := by
  intro dev hdev
  obtain ⟨i, hi⟩ := List.mem_iff_getElem?.mp hdev
  have owns := inv.owns hi
  have hfits := (own i).geometry.fits
  have hquantum := (own i).geometry.quantum_pos
  have hqset := (own i).geometry.qset_pos
  unfold ScullDev.Usable intMax
  rw [owns.quantum, owns.qset, ← Int.natCast_mul]
  omega

/-- One call: every device stays usable exactly when a trim finds usable parameters. -/
theorem Inv.step_allUsable_iff {s : State} {own : ℕ → Owned} (inv : Inv s own) (c : Call) :
    (∃ s', s.step c = .ok s' ∧ AllUsable s') ↔ TrimsUsable s c := by
  constructor
  · rintro ⟨s', hs', hall⟩
    cases c with
    | «open» minor flags env =>
        intro htrims
        obtain ⟨h', hcall, -⟩ := inv.call_open_of_trims htrims
        obtain ⟨reply, hreply⟩ := State.step_eq_ok.mp hs'
        rw [hcall, Except.ok.injEq, Prod.mk.injEq] at hreply
        rw [← hreply.2] at hall
        exact hall _ (List.mem_set htrims.1 _)
    | read => trivial
    | write => trivial
    | llseek => trivial
    | ioctl => trivial
  · intro hc
    obtain ⟨reply, s', hcall, own', inv'⟩ := inv.call hc
    exact ⟨s', State.step_eq_ok.mpr ⟨reply, hcall⟩, inv'.allUsable⟩

/-- A run whose trims find usable parameters keeps the invariant. -/
theorem everyState_inv {scullQuantum scullQset : ℤ}
    (husable : (Globals.mk scullQuantum scullQset).Usable) (scullNrDevs : ℕ) {calls : List Call}
    (htrims : EveryStep State.step TrimsUsable (scullInit scullQuantum scullQset scullNrDevs)
      calls) :
    EveryState State.step (fun s => ∃ own, Inv s own)
      (scullInit scullQuantum scullQset scullNrDevs) calls := by
  refine htrims.everyState ?_ ⟨_, .init husable scullNrDevs⟩
  rintro s c ⟨own, inv⟩ hc
  obtain ⟨reply, s', hcall, hinv⟩ := inv.call hc
  exact ⟨s', State.step_eq_ok.mpr ⟨reply, hcall⟩, hinv⟩

/-- **Usable geometry.**  From a module loaded with usable parameters, every device
stays usable, no call faults and every query returns a positive value exactly when
every trim finds both parameters positive with a product that fits an `int`, and
every query finds its parameter positive. -/
theorem usable_iff {scullQuantum scullQset : ℤ}
    (husable : (Globals.mk scullQuantum scullQset).Usable) (scullNrDevs : ℕ) (calls : List Call) :
    (EveryState State.step AllUsable (scullInit scullQuantum scullQset scullNrDevs) calls ∧
        EveryStep State.step QueryPositive (scullInit scullQuantum scullQset scullNrDevs) calls) ↔
      EveryStep State.step (fun s c => TrimsUsable s c ∧ QueriedPositive s c)
        (scullInit scullQuantum scullQset scullNrDevs) calls := by
  have hinit : ∃ own, Inv (scullInit scullQuantum scullQset scullNrDevs) own :=
    ⟨_, .init husable scullNrDevs⟩
  have hkeep : ∀ s c s', (∃ own, Inv s own) → True → TrimsUsable s c →
      State.step s c = .ok s' → ∃ own, Inv s' own := by
    rintro s c s' ⟨own, inv⟩ - hc hs'
    obtain ⟨reply, t, hcall, hinv⟩ := inv.call hc
    obtain ⟨reply', hreply⟩ := State.step_eq_ok.mp hs'
    rw [hcall, Except.ok.injEq, Prod.mk.injEq] at hreply
    exact hreply.2 ▸ hinv
  have hstates := everyState_iff_everyStep (P := TrimsUsable)
    (fun s ⟨_, inv⟩ => inv.allUsable) (fun s c ⟨_, inv⟩ _ => inv.step_allUsable_iff c) hkeep
    hinit (everyStep_of_forall (fun _ _ => trivial) _ calls)
  have hqueries : EveryStep State.step QueryPositive
      (scullInit scullQuantum scullQset scullNrDevs) calls ↔
      EveryStep State.step QueriedPositive (scullInit scullQuantum scullQset scullNrDevs) calls :=
    ⟨fun h => h.mono fun s c => (queryPositive_iff s c).1,
      fun h => h.mono fun s c => (queryPositive_iff s c).2⟩
  rw [everyStep_and, hstates, hqueries]

/-- A run that changes the parameters, trims, and asks for them. -/
theorem usable_run :
    EveryState State.step AllUsable (scullInit 4000 1000 2)
        [.ioctl (Command.tell .quantum).code 8 {}, .ioctl (Command.set .qset).code 0 {},
          .ioctl (Command.set .qset).code 0 { user := some 2 }, .open 0 1 {},
          .ioctl (Command.query .qset).code 0 {}] ∧
      EveryStep State.step QueryPositive (scullInit 4000 1000 2)
        [.ioctl (Command.tell .quantum).code 8 {}, .ioctl (Command.set .qset).code 0 {},
          .ioctl (Command.set .qset).code 0 { user := some 2 }, .open 0 1 {},
          .ioctl (Command.query .qset).code 0 {}] :=
  (usable_iff (by decide) 2 _).mpr (by decide)

/-- A privileged caller tells the driver a quantum of zero: the next trim makes the
device unusable and the next write divides by zero.  A set from an address that
faults stores zero too, and a query then returns it. -/
theorem unusable_run :
    ¬ EveryState State.step AllUsable (scullInit 4000 1000 1)
        [.ioctl (Command.tell .quantum).code 0 {}, .open 0 1 {}] ∧
      [.ioctl (Command.tell .quantum).code 0 {}, .open 0 1 {}, .write 0 [1] {}].foldlM
        State.step (scullInit 4000 1000 1) = .error .divideByZero ∧
      ¬ EveryStep State.step QueryPositive (scullInit 4000 1000 1)
        [.ioctl (Command.set .qset).code 0 {}, .ioctl (Command.query .qset).code 0 {}] :=
  ⟨by decide, rfl, by decide⟩

end KernelTraining.Scull
