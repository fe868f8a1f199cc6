import KernelTraining.Scull.Ioctl

/-!
# What a failing ioctl leaves behind

`scull_ioctl` hands the parameter itself to `__get_user`, which clears its destination when it
faults, and an exchange stores the new value before it finds out whether the old one can be
handed back.  So a call that fails can still change the parameter it is about.
`failSafe_iff` lists the calls that do not.

A caller takes the return values in `failures` for failures.  A query or a shift returns the
value of the parameter, and that can be any `int`, so a call that has succeeded can look like
one that has not.  After a query nothing has been stored in any case; after such a shift the
new value has (`Harmless`).

* Before the `switch` nothing is stored, so a call that gets no further fails and has no
  effect (`scullIoctl_of_not_reaches`).  `Reaches` says which calls do get further.
* Below it there is one case for each kind of command (`Command.exec_failure_iff`), with the
  parameter it acts on as a variable.  What a command stores is what was there before exactly
  if it is the value of the parameter (`Globals.put_eq_self_iff`).
* No command stores into the other parameter, whether it fails or not
  (`Command.exec_get`).
-/

namespace KernelTraining.Scull

open Machine

/-- The return values of a call that fails. -/
def failures : List ℤ := [-ENOTTY, -EPERM, -EFAULT]

/-- The parameter a command is about.  The reset is about both. -/
def Command.param : Command → Option Param
  | .reset => none
  | .set p | .tell p | .get p | .query p | .exchange p | .shift p => some p

/-- A call that fails leaves both parameters as they were, and any other call leaves
the parameter alone that its command is not about. -/
def FailSafe (g : Globals) (cmd arg : ℕ) (env : IoctlEnv) : Prop :=
  ((scullIoctl g cmd arg env).retval ∈ failures → (scullIoctl g cmd arg env).globals = g) ∧
    ((scullIoctl g cmd arg env).retval ∉ failures →
      ∀ c : Command, c.code = cmd → ∀ p, c.param = some p → ∀ q, q ≠ p →
        (scullIoctl g cmd arg env).globals.get q = g.get q)

/-- The word of `c` gets past the checks on the command word and its argument. -/
def Reaches (c : Command) (cmd : ℕ) (env : IoctlEnv) : Prop :=
  c.code = cmd ∧ (iocDir cmd = 0 ∨ env.accessOk = true)

/-- What the command would leave behind on a failure is what was there before. -/
def Harmless (g : Globals) (arg : ℕ) (env : IoctlEnv) : Command → Prop
  | .set p => env.capable = true → env.user = none → g.get p = 0
  | .exchange p => env.capable = true →
      match env.user with
      | none => g.get p = 0
      | some value => env.putOk = false → wrap32 value = g.get p
  -- The old value can itself look like an error to the caller.
  | .shift p => env.capable = true → g.get p ∈ failures → wrap32 arg = g.get p
  | .reset | .tell _ | .get _ | .query _ => True

/-! ## One parameter -/

theorem Globals.put_eq_self_iff (g : Globals) (p : Param) (value : ℤ) :
    g.put p value = g ↔ value = g.get p := by
  cases g
  cases p <;> simp [Globals.put, Globals.get]

theorem Globals.get_eq_zero_iff (g : Globals) (p : Param) : g.get p = 0 ↔ g.put p 0 = g := by
  rw [g.put_eq_self_iff, eq_comm]

theorem Globals.get_put (g : Globals) (p : Param) (value : ℤ) : (g.put p value).get p = value := by
  cases p <;> rfl

theorem Globals.get_put_ne (g : Globals) (value : ℤ) {p q : Param} (hqp : q ≠ p) :
    (g.put p value).get q = g.get q := by
  cases p <;> cases q
  · exact absurd rfl hqp
  · rfl
  · rfl
  · exact absurd rfl hqp

theorem zero_notMem_failures : (0 : ℤ) ∉ failures := by decide

/-! ## One command -/

/-- A command does not touch the parameter it is not about. -/
theorem Command.exec_get {c : Command} {p q : Param} (hparam : c.param = some p) (hqp : q ≠ p)
    (g : Globals) (arg : ℕ) (env : IoctlEnv) : (c.exec g arg env).globals.get q = g.get q := by
  cases c with
  | reset => cases hparam
  | get r => rfl
  | query r => rfl
  | set r =>
      obtain rfl : r = p := Option.some.inj hparam
      simp only [exec, ioctlSet]
      split_ifs
      · rfl
      · exact g.get_put_ne _ hqp
  | tell r =>
      obtain rfl : r = p := Option.some.inj hparam
      simp only [exec, ioctlTell]
      split_ifs
      · rfl
      · exact g.get_put_ne _ hqp
  | exchange r =>
      obtain rfl : r = p := Option.some.inj hparam
      simp only [exec, ioctlExchange]
      split_ifs
      · rfl
      · exact g.get_put_ne _ hqp
      · exact g.get_put_ne _ hqp
  | shift r =>
      obtain rfl : r = p := Option.some.inj hparam
      simp only [exec, ioctlShift]
      split_ifs
      · rfl
      · exact g.get_put_ne _ hqp

/-- A command fails without a trace exactly when it is harmless. -/
theorem Command.exec_failure_iff (c : Command) (g : Globals) (arg : ℕ) (env : IoctlEnv) :
    ((c.exec g arg env).retval ∈ failures → (c.exec g arg env).globals = g) ↔
      Harmless g arg env c := by
  cases c with
  | reset => exact iff_of_true (fun h => absurd h zero_notMem_failures) trivial
  | get p => exact iff_of_true (fun _ => rfl) trivial
  | query p => exact iff_of_true (fun _ => rfl) trivial
  | tell p =>
      refine iff_of_true ?_ trivial
      intro h
      simp only [exec, ioctlTell] at h ⊢
      split_ifs at h ⊢
      · rfl
      · exact absurd h zero_notMem_failures
  | set p =>
      simp only [exec, ioctlSet, Harmless]
      cases hcapable : env.capable with
      | false => simp
      | true =>
          cases huser : env.user with
          | none => simp [getUser, huser, failures, g.get_eq_zero_iff p]
          | some value => simp [getUser, huser, zero_notMem_failures]
  | exchange p =>
      simp only [exec, ioctlExchange, Harmless]
      cases hcapable : env.capable with
      | false => simp
      | true =>
          cases huser : env.user with
          | none => simp [getUser, huser, failures, EFAULT, g.get_eq_zero_iff p]
          | some value =>
              cases hput : env.putOk with
              | true => simp [getUser, putUser, huser, hput, zero_notMem_failures]
              | false =>
                  simp [getUser, putUser, huser, hput, failures, Globals.put_eq_self_iff]
  | shift p =>
      simp only [exec, ioctlShift, Harmless]
      cases hcapable : env.capable with
      | false => simp
      | true => simp [Globals.put_eq_self_iff]

/-! ## Every command word -/

/-- A call that reaches no command fails before it has stored anything. -/
theorem scullIoctl_of_not_reaches (g : Globals) (arg : ℕ) {cmd : ℕ} {env : IoctlEnv}
    (h : ∀ c, ¬ Reaches c cmd env) :
    (scullIoctl g cmd arg env).globals = g ∧ (scullIoctl g cmd arg env).retval ∈ failures := by
  unfold scullIoctl
  split_ifs with htype hnr haccess
  · exact ⟨rfl, by simp [failures]⟩
  · exact ⟨rfl, by simp [failures]⟩
  · exact ⟨rfl, by simp [failures]⟩
  · cases hswitch : switchCommand cmd with
    | none => exact ⟨rfl, by simp [failures]⟩
    | some c =>
        have hcode : c.code = cmd := by simpa using List.find?_some hswitch
        refine absurd ⟨hcode, ?_⟩ (h c)
        simpa [← or_iff_not_imp_left] using haccess

/-- **Failing calls.**  A call leaves the parameters alone when it fails, and the
parameter its command is not about when it succeeds, exactly when the command it
reaches, if any, is harmless: a set or an exchange from an address that faults finds
its parameter zero, an exchange that cannot hand the old value back brings the same
value, and a shift of a value that reads as an error brings that value again. -/
theorem failSafe_iff (g : Globals) (cmd arg : ℕ) (env : IoctlEnv) :
    FailSafe g cmd arg env ↔ ∀ c, Reaches c cmd env → Harmless g arg env c := by
  constructor
  · rintro ⟨hfail, -⟩ c ⟨rfl, haccess⟩
    rw [scullIoctl_code c g arg env haccess] at hfail
    exact (c.exec_failure_iff g arg env).mp hfail
  · intro hharmless
    by_cases hreaches : ∃ c, Reaches c cmd env
    · obtain ⟨c, hreach⟩ := hreaches
      have hexec := (c.exec_failure_iff g arg env).mpr (hharmless c hreach)
      obtain ⟨rfl, haccess⟩ := hreach
      unfold FailSafe
      rw [scullIoctl_code c g arg env haccess]
      refine ⟨hexec, ?_⟩
      intro _ d hd p hp q hqp
      -- A word belongs to one command only.
      obtain rfl : d = c :=
        Option.some.inj ((switchCommand_code d).symm.trans (hd ▸ switchCommand_code c))
      exact Command.exec_get hp hqp g arg env
    · obtain ⟨hkeep, hfail⟩ := scullIoctl_of_not_reaches g arg
        (not_exists.mp hreaches)
      exact ⟨fun _ => hkeep, fun hsucceeds => absurd hfail hsucceeds⟩

/-- A set from an address that faults stores zero and fails.  So does an exchange; one
whose address can be read and not written keeps the new value. -/
theorem failing_call_stores :
    ¬ FailSafe .default (Command.set .quantum).code 0 {} ∧
      ¬ FailSafe .default (Command.exchange .qset).code 0 {} ∧
      ¬ FailSafe .default (Command.exchange .quantum).code 0 { user := some 8, putOk := false } ∧
      scullIoctl .default (Command.set .quantum).code 0 {} = ⟨-EFAULT, ⟨0, 1000⟩, none⟩ := by
  refine ⟨?_, ?_, ?_, by decide⟩
  · intro h
    exact absurd (h.1 (by decide)) (by decide)
  · intro h
    exact absurd (h.1 (by decide)) (by decide)
  · intro h
    exact absurd (h.1 (by decide)) (by decide)

end KernelTraining.Scull
