import KernelTraining.Machine.Calls

/-!
# Sleepers and who wakes them up

A call that cannot go on sleeps until another call wakes it up, some steps after the one that
has made the condition true.  In between, the other call is the sleeper's promise: whoever
sleeps and could go on is about to be woken up.  Which calls sleep, which are about to wake
the others up and who could go on are parameters of the rules below.

`Awaited` is the invariant, and that no wake-up is lost is read off it: if nobody is about to
wake anybody up, then no sleeper could go on.  A rule is there for each sort of step.

* `Awaited.set` is for a step of one call.  Three things have to be checked: whoever can go on
  after it could before it, or the call is now going to wake it up; the call itself does not go
  to sleep if it can go on; and it has not forgotten a wake-up it owes.  The second is where a
  driver goes wrong that looks at the condition first and goes to sleep later.
* `Awaited.of_awake` is for the wake-up, after which nobody sleeps.
* `Awaited.concat` and `Awaited.map` are for new calls and for what happens to all of them.
-/

namespace KernelTraining.Machine

/-- Whoever sleeps and could go on is about to be woken up. -/
def Awaited {α : Type*} (sleeps wakes : α → Bool) (ready : α → Prop) (calls : List α) : Prop :=
  ∀ d ∈ calls, sleeps d = true → ready d → ∃ w ∈ calls, wakes w = true

section Awaited

variable {α : Type*} {sleeps wakes : α → Bool} {ready ready' : α → Prop} {calls : List α} {i : ℕ}
  {c c' : α}

/-- A step of one call.  It goes on being about to wake the others up if it was, and whoever
could go on after the step could before it, unless the call is now going to wake it up; and the
call goes to sleep only if it cannot go on. -/
theorem Awaited.set (h : Awaited sleeps wakes ready calls) (hc : calls[i]? = some c)
    (hready : ∀ d ∈ calls, sleeps d = true → ready' d → ready d ∨ wakes c' = true)
    (hsleeps : sleeps c' = true → ¬ ready' c') (hwakes : wakes c = true → wakes c' = true) :
    Awaited sleeps wakes ready' (calls.set i c') := by
  have hnew : c' ∈ calls.set i c' :=
    List.mem_of_getElem? (List.getElem?_set_self (List.getElem?_eq_some_iff.mp hc).1)
  intro d hd hsleep hcould
  rcases List.mem_or_eq_of_mem_set hd with hold | rfl
  · rcases hready d hold hsleep hcould with hbefore | hwill
    · obtain ⟨w, hw, hwill⟩ := h d hold hsleep hbefore
      obtain ⟨j, hj⟩ := List.mem_iff_getElem?.mp hw
      by_cases hij : i = j
      · subst hij
        obtain rfl := Option.some.inj (hc.symm.trans hj)
        exact ⟨c', hnew, hwakes hwill⟩
      · refine ⟨w, List.mem_of_getElem? (i := j) ?_, hwill⟩
        rwa [List.getElem?_set_ne hij]
    · exact ⟨c', hnew, hwill⟩
  · exact absurd hcould (hsleeps hsleep)

/-- A new call that does not sleep. -/
theorem Awaited.concat (h : Awaited sleeps wakes ready calls) (hc : sleeps c = false) :
    Awaited sleeps wakes ready (calls ++ [c]) := by
  intro d hd hsleep hcould
  rcases List.mem_append.mp hd with hold | hnew
  · obtain ⟨w, hw, hwill⟩ := h d hold hsleep hcould
    exact ⟨w, List.mem_append_left _ hw, hwill⟩
  · rw [List.mem_singleton.mp hnew, hc] at hsleep
    cases hsleep

/-- After the wake-up nobody sleeps. -/
theorem Awaited.of_awake (h : ∀ d ∈ calls, sleeps d = false) :
    Awaited sleeps wakes ready calls := by
  intro d hd hsleep
  rw [h d hd] at hsleep
  cases hsleep

/-- Others are woken up. -/
theorem Awaited.map {f : α → α} (h : Awaited sleeps wakes ready calls)
    (hsleeps : ∀ d, sleeps (f d) = true → sleeps d = true) (hready : ∀ d, ready (f d) → ready d)
    (hwakes : ∀ d, wakes d = true → wakes (f d) = true) :
    Awaited sleeps wakes ready (calls.map f) := by
  intro d' hd' hsleep hcould
  obtain ⟨d, hd, rfl⟩ := List.mem_map.mp hd'
  obtain ⟨w, hw, hwill⟩ := h d hd (hsleeps d hsleep) (hready d hcould)
  exact ⟨f w, List.mem_map_of_mem hw, hwakes w hwill⟩

end Awaited

end KernelTraining.Machine
