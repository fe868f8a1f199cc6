import KernelTraining.Lifo.Stack
import KernelTraining.Machine.Run

/-!
# When the list and its counter agree

`dev->fset` moves with every byte, `dev->data` only at the end of a call that went through, and
`lifo_trim` does not touch `dev->data` at all.  So the two agree after a call unless it is a
trim of a list that is not empty, or a transfer that fails after its first byte, and
`intact_iff` says that in all other cases they do.

`Intact` is what somebody finds who follows the pointers: exactly `fset` nodes, all different
and allocated, and then `NULL`.  It says nothing of nodes elsewhere, so a write that leaks one
can still keep it.

* `Sound` is the same with a list, and with a counter that has not gone round, which is what
  the specifications of the calls need (`Sound.intact`).
* For each kind of call there is one lemma for both directions.  `Decides` is their common
  form: the call goes through, if the condition holds then what it leaves is sound, and if what
  it leaves is intact then the condition holds.  With that the equivalence carries over from
  calls to runs, as every state in which the question comes up again is sound.
* In the second direction `dev->data` is followed after a call that has gone wrong.  After a
  trim or a read it leads to a node that has been freed; after a write it leads to the old
  list, which is shorter than the counter says.
-/

namespace KernelTraining.Lifo

open Machine

/-- Following `next` from `dev->data` visits exactly `dev->fset` pairwise distinct
nodes, all allocated, and then reaches `NULL`. -/
def Intact (s : State) : Prop :=
  0 ≤ s.dev.fset ∧
    ∃ L ∈ visit LifoNode.next s.heap s.dev.fset.toNat s.dev.data, (L.map Prod.fst).Nodup

instance (s : State) : Decidable (Intact s) := inferInstanceAs (Decidable (_ ∧ _))

/-- The call stores fewer than `2^31` bytes, and `kmalloc` returns blocks that are not
allocated. -/
def Provided (s : State) : Call → Prop
  | .write buf env => s.dev.fset + env.stop buf.length ≤ intMax ∧
      Supplied s.heap (env.requests buf.length) env.answers
  | _ => True

/-- An open that trims finds no data, and a transfer fails at its first byte or not at
all. -/
def KeepsIntact (s : State) : Call → Prop
  | .open flags => writeOnly flags = true → s.dev.data = none
  | .read count fPos env => fPos = 0 →
      env.stop (min s.dev.fset.toNat count) = 0 ∨
        env.stop (min s.dev.fset.toNat count) = min s.dev.fset.toNat count
  | .write buf env => env.stop buf.length = 0 ∨ env.stop buf.length = buf.length

instance (s : State) : ∀ c, Decidable (Provided s c)
  | .open .. | .read .. | .write .. => by
      unfold Provided
      infer_instance

instance (s : State) : ∀ c, Decidable (KeepsIntact s c)
  | .open .. | .read .. | .write .. => by
      unfold KeepsIntact
      infer_instance

theorem intact_iff_linked (s : State) :
    Intact s ↔ ∃ L : Nodes, Linked LifoNode.next s.heap s.dev.data L ∧ s.dev.fset = L.length := by
  constructor
  · rintro ⟨hnonneg, L, hvisit, hnodup⟩
    obtain ⟨linked, hlength⟩ := visit_eq_some_iff.mp ⟨hvisit, hnodup⟩
    exact ⟨L, linked, by omega⟩
  · rintro ⟨L, linked, hfset⟩
    have hvisit := visit_eq_some_iff.mpr ⟨linked, rfl⟩
    refine ⟨by omega, L, ?_, hvisit.2⟩
    rw [hfset, Int.toNat_natCast]
    exact hvisit.1

/-- The list and its counter agree, and the counter has not wrapped. -/
def Sound (s : State) : Prop := ∃ L, Stacked s s.dev.data L ∧ L.length < 2147483648

theorem Sound.intact {s : State} (sound : Sound s) : Intact s := by
  obtain ⟨L, stacked, hsmall⟩ := sound
  exact (intact_iff_linked s).mpr ⟨L, stacked.linked, stacked.fset_eq hsmall⟩

theorem State.step_of_call {s : State} {c : Call} {out : Out} (h : s.call c = .ok out) :
    s.step c = .ok out.state := by
  rw [State.step, h]
  rfl

/-- A stack from a pointer that heads the same nodes. -/
theorem Stacked.of_head {s : State} {p q : Option Addr} {L : Nodes} (stacked : Stacked s q L)
    (hp : p = L.head?.map Prod.fst) : Stacked s p L := by
  have hq := stacked.linked.eq_head
  rw [hp, ← hq]
  exact stacked

section Steps

variable {s : State} {L : Nodes}

/-- A call for which all is well or not, as its step shows. -/
def Decides (s : State) (c : Call) (P : Prop) : Prop :=
  ∃ s', s.step c = .ok s' ∧ (P → Sound s') ∧ (Intact s' → P)

theorem Stacked.open (stacked : Stacked s s.dev.data L) (hsmall : L.length < 2147483648)
    (flags : ℕ) :
    Decides s (.open flags) (KeepsIntact s (.open flags)) := by
  by_cases hflags : writeOnly flags = true
  · obtain ⟨h', htrim, hget⟩ := lifoTrim_spec stacked.linked
    have hcall : s.call (.open flags) = .ok ⟨0, [], ⟨⟨s.dev.data, 0⟩, h'⟩⟩ := by
      simp only [State.call, lifoOpen, hflags, if_true, htrim]
      rfl
    refine ⟨_, State.step_of_call hcall, ?_, ?_⟩
    · intro hkeeps
      exact ⟨[], ⟨by simpa [Linked] using hkeeps hflags, rfl⟩, by decide⟩
    · intro hintact _
      obtain ⟨L', linked', hfset⟩ := (intact_iff_linked _).mp hintact
      obtain rfl : L' = [] := List.eq_nil_of_length_eq_zero (by
        have : (0 : ℤ) = L'.length := hfset
        omega)
      exact linked'
  · have hcall : s.call (.open flags) = .ok ⟨0, [], s⟩ := by
      simp only [State.call, lifoOpen, hflags]
      rfl
    exact ⟨s, State.step_of_call hcall, fun _ => ⟨L, stacked, hsmall⟩, fun _ h => absurd h hflags⟩

theorem Stacked.read (stacked : Stacked s s.dev.data L) (hsmall : L.length < 2147483648)
    (count : ℕ) (fPos : ℤ) (env : Env) :
    Decides s (.read count fPos env) (KeepsIntact s (.read count fPos env)) := by
  by_cases hfPos : fPos = 0
  · subst hfPos
    have hfset : s.dev.fset.toNat = L.length := by
      rw [stacked.fset_eq hsmall, Int.toNat_natCast]
    obtain ⟨out, q, hout, -, stacked', hget, hresult⟩ := lifoRead_spec stacked
      (clampCount_eq stacked hsmall count) (Nat.min_le_left _ _) (by omega) env
    have hle := env.stop_le (min L.length count)
    have hdrop : (L.drop (env.stop (min L.length count))).length < 2147483648 := by
      rw [List.length_drop]
      omega
    refine ⟨out.state, State.step_of_call hout, ?_, ?_⟩
    · intro hkeeps
      have hkeeps := hkeeps rfl
      rw [hfset] at hkeeps
      split_ifs at hresult with hlt
      · -- the first copy failed, so the list is the old one
        have hzero : env.stop (min L.length count) = 0 := by omega
        rw [hzero, List.drop_zero] at stacked'
        refine ⟨L, stacked'.of_head ?_, hsmall⟩
        rw [hresult.2]
        exact stacked.linked.eq_head
      · exact ⟨_, hresult.2 ▸ stacked', hdrop⟩
    · intro hintact _
      rw [hfset]
      by_contra hpartial
      rw [not_or] at hpartial
      rw [if_pos (by omega)] at hresult
      -- `dev->data` points to the first node, which has been freed
      cases L with
      | nil =>
          rw [List.length_nil, Nat.zero_min] at hpartial hle
          omega
      | cons entry rest =>
          have hdata : s.dev.data = some entry.1 := stacked.linked.1
          obtain ⟨m, hm⟩ : ∃ m, env.stop (min (entry :: rest).length count) = m + 1 :=
            ⟨env.stop (min (entry :: rest).length count) - 1, by omega⟩
          have hfreed : out.state.heap.get entry.1 = none := by
            rw [hget, hm]
            exact if_pos (by simp)
          obtain ⟨L', linked', hlength⟩ := (intact_iff_linked _).mp hintact
          rw [hresult.2, hdata] at linked'
          cases L' with
          | nil => simp [Linked] at linked'
          | cons entry' rest' =>
              obtain ⟨hentry, hsome, -⟩ := linked'
              rw [← Option.some.inj hentry, hfreed] at hsome
              simp at hsome
  · have hcall : s.call (.read count fPos env) = .ok ⟨-EINVAL, [], s⟩ := if_pos hfPos
    exact ⟨s, State.step_of_call hcall, fun _ => ⟨L, stacked, hsmall⟩, fun _ h => absurd h hfPos⟩

theorem Stacked.write (stacked : Stacked s s.dev.data L) (hsmall : L.length < 2147483648)
    {buf : List UInt8} {env : Env} (hprovided : Provided s (.write buf env)) :
    Decides s (.write buf env) (KeepsIntact s (.write buf env)) := by
  obtain ⟨hstored, supplied⟩ := hprovided
  rw [stacked.fset_eq hsmall] at hstored
  unfold intMax at hstored
  obtain ⟨out, N, q, hout, -, hbytes, stacked', hkeep, hresult⟩ :=
    lifoWrite_spec stacked buf env (by omega) supplied
  have hle := env.stop_le buf.length
  have hN : N.length = env.stop buf.length := by
    rw [← length_bytes, hbytes, List.length_reverse, List.length_take]
    omega
  have hsmall' : (N ++ L).length < 2147483648 := by
    rw [List.length_append]
    omega
  refine ⟨out.state, State.step_of_call hout, ?_, ?_⟩
  · intro hkeeps
    split_ifs at hresult with hlt
    · -- the first copy failed, so nothing has been pushed
      have hzero : env.stop buf.length = 0 := by
        simp only [KeepsIntact] at hkeeps
        omega
      obtain rfl : N = [] := List.eq_nil_of_length_eq_zero (by omega)
      refine ⟨L, stacked'.of_head ?_, hsmall⟩
      rw [hresult.2]
      exact stacked.linked.eq_head
    · exact ⟨_, hresult.2.1 ▸ stacked', hsmall'⟩
  · intro hintact
    by_contra hpartial
    simp only [KeepsIntact, not_or] at hpartial
    rw [if_pos (by omega)] at hresult
    -- the counter has moved and the list from `dev->data` has not
    have hold : Linked LifoNode.next out.state.heap s.dev.data L :=
      stacked.linked.congr fun c hc => hkeep c (stacked.linked.allocated c hc)
    obtain ⟨L', linked', hlength⟩ := (intact_iff_linked _).mp hintact
    rw [hresult.2] at linked'
    have hsame := linked'.unique hold
    have hfset := stacked'.fset_eq hsmall'
    rw [hlength, hsame, List.length_append] at hfset
    omega

end Steps

/-- One call from a sound state. -/
theorem Sound.step {s : State} (sound : Sound s) {c : Call} (hprovided : Provided s c) :
    Decides s c (KeepsIntact s c) := by
  obtain ⟨L, stacked, hsmall⟩ := sound
  cases c with
  | «open» flags => exact stacked.open hsmall flags
  | read count fPos env => exact stacked.read hsmall count fPos env
  | write buf env => exact stacked.write hsmall hprovided

theorem Decides.iff {s : State} {c : Call} {P : Prop} (h : Decides s c P) :
    (∃ s', s.step c = .ok s' ∧ Intact s') ↔ P := by
  obtain ⟨s', hs', hsound, hP⟩ := h
  constructor
  · rintro ⟨t, ht, hintact⟩
    obtain rfl : s' = t := Except.ok.inj (hs'.symm.trans ht)
    exact hP hintact
  · exact fun hp => ⟨s', hs', (hsound hp).intact⟩

theorem Decides.sound {s s' : State} {c : Call} {P : Prop} (h : Decides s c P) (hP : P)
    (hs' : s.step c = .ok s') : Sound s' := by
  obtain ⟨t, ht, hsound, -⟩ := h
  obtain rfl : t = s' := Except.ok.inj (ht.symm.trans hs')
  exact hsound hP

theorem Sound.init : Sound lifoInit := ⟨[], .init, by decide⟩

/-- **The list and its counter.**  Over every run of opens, reads and writes, they agree
after every call, and no call faults, exactly when every open that trims finds no data
and no copy fails after the first byte of its call. -/
theorem intact_iff (calls : List Call) (hprovided : EveryStep State.step Provided lifoInit calls) :
    EveryState State.step Intact lifoInit calls ↔
      EveryStep State.step KeepsIntact lifoInit calls :=
  everyState_iff_everyStep (I := Sound) (Q := Intact) (R := Provided) (P := KeepsIntact)
    (fun _ sound => sound.intact) (fun _ _ sound hprovided => (sound.step hprovided).iff)
    (fun _ _ _ sound hprovided hkeeps hs' => (sound.step hprovided).sound hkeeps hs')
    .init hprovided

/-- A run with copies that fail at the first byte, a trim of the empty list, and a node
whose address is handed out again. -/
theorem intact_run :
    EveryState State.step Intact lifoInit
      [.open 1, .write [1, 2] { answers := [some 7, some 9] }, .read 1 0 { fault := some 0 },
        .read 9 0 {}, .write [3] { answers := [some 9], fault := some 0 },
        .write [3] { answers := [some 7] }] :=
  (intact_iff _ (by decide)).mpr (by decide)

/-- A write-only open of a device that holds a byte leaves `dev->data` pointing to freed
memory, so the next such open faults.  A write whose second copy fails leaves a counter of one
over an empty list, and the next read dereferences `NULL`. -/
theorem dangling_runs :
    ¬ EveryState State.step Intact lifoInit [.write [1] { answers := [some 7] }, .open 1] ∧
      [.write [1] { answers := [some 7] }, .open 1, .open 1].foldlM State.step lifoInit =
        .error .badAccess ∧
      ¬ EveryState State.step Intact lifoInit
        [.write [1, 2] { answers := [some 7, some 9], fault := some 1 }] ∧
      [.write [1, 2] { answers := [some 7, some 9], fault := some 1 }, .read 1 0 {}].foldlM
        State.step lifoInit = .error .nullDeref :=
  ⟨by decide, rfl, by decide, rfl⟩

end KernelTraining.Lifo
