import KernelTraining.Lifo.Invariant

/-!
# Every node is freed once

The heap faults on a block that is freed or followed when it is not allocated, so a run that
goes through and ends with an empty heap has freed every node exactly once.  That needs more
than a list that agrees with its counter: no node may be allocated outside the list either,
and `lifo_write` leaves one there whenever a copy fails.

So the invariant (`Accounted`) speaks of the heap as a whole: what is allocated is on the list.
From such a state the cleanup frees everything (`Accounted.cleansUp`), and the three kinds of
call keep it under conditions that can be checked before each of them (`LeavesNothing`):

* an opening that trims frees the nodes and leaves `dev->data` where it was, so it must find
  no data;
* a read that fails after its first byte leaves `dev->data` at a node that it has freed;
* a write that fails leaves at least one node on no list, at whichever byte that is.

What the kernel has to provide for a call is a condition of its own (`Granted`).  The counter is
in neither: it may go round, as the cleanup does not look at it, and a read that takes too few
nodes leaves the others on the list.
-/

namespace KernelTraining.Lifo

open Machine

/-- `lifo_cleanup_module`: a trim of the one device. -/
def lifoCleanup (s : State) : Except Fault State := lifoTrim s

/-- The cleanup that ends a run here goes through and leaves no node behind. -/
def CleansUp (s : State) : Prop :=
  ∃ s', lifoCleanup s = .ok s' ∧ ∀ a, s'.heap.get a = none

/-- A count is an `int` for the VFS, and `kmalloc` returns blocks that are not allocated. -/
def Granted (s : State) : Call → Prop
  | .open _ => True
  | .read count _ _ => count < 2147483648
  | .write buf env => buf.length < 2147483648 ∧
      Supplied s.heap (env.requests buf.length) env.answers

/-- An open that trims finds no data, a read fails at its first byte or not at all, and
no copy of a write fails. -/
def LeavesNothing (s : State) : Call → Prop
  | .open flags => writeOnly flags = true → s.dev.data = none
  | .read count fPos env => fPos = 0 →
      env.stop (clampCount s count) = 0 ∨ env.stop (clampCount s count) = clampCount s count
  | .write buf env => env.stop buf.length = buf.length

instance (s : State) : ∀ c, Decidable (Granted s c)
  | .open .. | .read .. | .write .. => by
      unfold Granted
      infer_instance

instance (s : State) : ∀ c, Decidable (LeavesNothing s c)
  | .open .. | .read .. | .write .. => by
      unfold LeavesNothing
      infer_instance

/-- The nodes of the list are all that is allocated. -/
def Accounted (s : State) : Prop :=
  ∃ L, Stacked s s.dev.data L ∧ ∀ a, s.heap.get a ≠ none → a ∈ L.map Prod.fst

theorem Accounted.init : Accounted lifoInit :=
  ⟨[], .init, fun a ha => absurd (Heap.get_empty a) ha⟩

theorem Accounted.cleansUp {s : State} (accounted : Accounted s) : CleansUp s := by
  obtain ⟨L, stacked, hall⟩ := accounted
  obtain ⟨h', htrim, hget⟩ := lifoTrim_spec stacked.linked
  refine ⟨_, htrim, ?_⟩
  intro a
  show h'.get a = none
  rw [hget]
  split_ifs with ha
  · rfl
  · exact not_not.mp fun hne => ha (hall a hne)

section Steps

variable {s : State} {L : Nodes}

theorem Accounted.open (accounted : Accounted s) {flags : ℕ}
    (hleaves : LeavesNothing s (.open flags)) :
    ∃ s', s.step (.open flags) = .ok s' ∧ Accounted s' := by
  by_cases hflags : writeOnly flags = true
  · obtain ⟨L, stacked, hall⟩ := accounted
    have hdata := hleaves hflags
    -- the list is empty, so the trim has nothing to free
    obtain rfl : L = [] := (hdata ▸ stacked.linked).eq_nil
    obtain ⟨h', htrim, hget⟩ := lifoTrim_spec stacked.linked
    have hcall : s.call (.open flags) = .ok ⟨0, [], ⟨⟨s.dev.data, 0⟩, h'⟩⟩ := by
      simp only [State.call, lifoOpen, hflags, if_true, htrim]
      rfl
    have hsame : ∀ a, h'.get a = s.heap.get a := fun a => by simpa using hget a
    exact ⟨_, State.step_of_call hcall, [], ⟨hdata, rfl⟩, fun a ha => hall a (hsame a ▸ ha)⟩
  · have hcall : s.call (.open flags) = .ok ⟨0, [], s⟩ := by
      simp only [State.call, lifoOpen, hflags]
      rfl
    exact ⟨s, State.step_of_call hcall, accounted⟩

/-- What a read leaves of the list is what is still allocated. -/
theorem Accounted.read (accounted : Accounted s) {count : ℕ} {fPos : ℤ} {env : Env}
    (hgranted : Granted s (.read count fPos env))
    (hleaves : LeavesNothing s (.read count fPos env)) :
    ∃ s', s.step (.read count fPos env) = .ok s' ∧ Accounted s' := by
  by_cases hfPos : fPos = 0
  · subst hfPos
    obtain ⟨L, stacked, hall⟩ := accounted
    obtain ⟨hle, hsmall⟩ := clampCount_le stacked (.inr hgranted)
    obtain ⟨out, q, hout, -, stacked', hget, hresult⟩ := lifoRead_spec stacked rfl hle hsmall env
    have hhead : Stacked out.state out.state.dev.data (L.drop (env.stop (clampCount s count))) := by
      split_ifs at hresult with hlt
      · -- nothing was delivered, so the list is the old one
        have hzero : env.stop (clampCount s count) = 0 := by
          have := hleaves rfl
          omega
        rw [hzero, List.drop_zero] at stacked' ⊢
        apply stacked'.of_head
        rw [hresult.2]
        exact stacked.linked.eq_head
      · rw [hresult.2]
        exact stacked'
    refine ⟨out.state, State.step_of_call hout, _, hhead, ?_⟩
    intro a ha
    rw [hget] at ha
    split_ifs at ha with htaken
    · exact absurd rfl ha
    · have hmem := hall a ha
      rw [← List.take_append_drop (env.stop (clampCount s count)) L, List.map_append,
        List.mem_append] at hmem
      exact hmem.resolve_left htaken
  · have hcall : s.call (.read count fPos env) = .ok ⟨-EINVAL, [], s⟩ := if_pos hfPos
    exact ⟨s, State.step_of_call hcall, accounted⟩

theorem Accounted.write (accounted : Accounted s) {buf : List UInt8} {env : Env}
    (hgranted : Granted s (.write buf env)) (hleaves : LeavesNothing s (.write buf env)) :
    ∃ s', s.step (.write buf env) = .ok s' ∧ Accounted s' := by
  obtain ⟨L, stacked, hall⟩ := accounted
  obtain ⟨hcount, supplied⟩ := hgranted
  have hstop : env.stop buf.length = buf.length := hleaves
  obtain ⟨out, N, q, hout, -, -, stacked', -, hresult⟩ :=
    lifoWrite_spec stacked buf env (by omega) supplied
  rw [if_neg (by omega)] at hresult
  obtain ⟨-, hdata, hother⟩ := hresult
  refine ⟨out.state, State.step_of_call hout, N ++ L, hdata ▸ stacked', ?_⟩
  intro a ha
  rw [List.map_append, List.mem_append]
  -- what is allocated is one of the new nodes, or was on the list before
  by_cases hnew : a ∈ N.map Prod.fst
  · exact .inl hnew
  · rw [hother a hnew] at ha
    exact .inr (hall a ha)

end Steps

theorem Accounted.step {s : State} (accounted : Accounted s) {c : Call}
    (hc : Granted s c ∧ LeavesNothing s c) : ∃ s', s.step c = .ok s' ∧ Accounted s' := by
  cases c with
  | «open» flags => exact accounted.open hc.2
  | read count fPos env => exact accounted.read hc.1 hc.2
  | write buf env => exact accounted.write hc.1 hc.2

/-- **Every node is freed once.**  In a run in which every open that trims finds no data,
every read fails at its first byte or not at all, and no copy of a write fails, no call
faults, and wherever the run ends the cleanup goes through and leaves no node behind. -/
theorem cleansUp_of_leavesNothing (calls : List Call)
    (hgranted : EveryStep State.step Granted lifoInit calls)
    (hleaves : EveryStep State.step LeavesNothing lifoInit calls) :
    EveryState State.step CleansUp lifoInit calls := by
  have hstates : EveryState State.step Accounted lifoInit calls :=
    (everyStep_and.mpr ⟨hgranted, hleaves⟩).everyState
      (fun s c accounted hc => accounted.step hc) .init
  exact hstates.mono fun s accounted => accounted.cleansUp

/-- A run in which a node's address is handed out again, and the empty device is
opened for writing. -/
theorem cleansUp_run :
    EveryState State.step CleansUp lifoInit
      [.open 1, .write [1, 2] { answers := [some 7, some 9] }, .read 1 0 { fault := some 0 },
        .read 1 0 {}, .write [3] { answers := [some 9] }] :=
  cleansUp_of_leavesNothing _ (by decide) (by decide)

/-- A run and the cleanup that ends it. -/
def runAndCleanUp (calls : List Call) : Except Fault State := do
  let s ← calls.foldlM State.step lifoInit
  lifoCleanup s

/-- A write-only open of a device that holds a byte leaves `dev->data` pointing to the freed
node, which the cleanup follows; a write that is given the same address closes a cycle.  A
write that fails leaves its node behind. -/
theorem cleanup_fails :
    ¬ EveryState State.step CleansUp lifoInit [.write [1] { answers := [some 7] }, .open 1] ∧
      runAndCleanUp [.write [1] { answers := [some 7] }, .open 1] = .error .badAccess ∧
      runAndCleanUp [.write [1] { answers := [some 7] }, .open 1,
        .write [2] { answers := [some 7] }] = .error .badAccess ∧
      (runAndCleanUp [.write [1] { answers := [some 7], fault := some 0 }]).map
        (fun s => s.heap.get 7) = .ok (some ⟨none, 0⟩) := by
  have hdangles : runAndCleanUp [.write [1] { answers := [some 7] }, .open 1] =
      .error .badAccess := rfl
  refine ⟨?_, hdangles, rfl, rfl⟩
  intro h
  obtain ⟨s, hrun, s', hclean, -⟩ := h.last
  rw [runAndCleanUp, hrun] at hdangles
  have herror : lifoCleanup s = .error .badAccess := hdangles
  rw [hclean] at herror
  cases herror

end KernelTraining.Lifo
