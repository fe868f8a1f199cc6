import KernelTraining.Lifo.Stack
import KernelTraining.Machine.Run
import Mathlib.Algebra.BigOperators.Group.List.Basic
import Mathlib.Algebra.GroupWithZero.Nat

/-!
# The counter of a long run

`dev->fset` is an `int`, and nothing bounds the number of bytes on the stack.  From `2^31`
bytes on the counter is negative, which the comparison with the `size_t` count turns into a
huge number, so that the count alone bounds the read.  From `2^32` bytes on it starts again
at zero.  So a read never takes a node that is not there, but it can take too few
(`readsStored_iff`).

* A transfer is limited by the VFS (`maxRwCount`), so the loop index of a call does not go
  round, and only the counter can.
* What a read tries for depends on the counter alone, and `clampCount_eq_min_iff` says for
  which numbers of bytes stored that is right: those below `2^32`, those whose remainder is no
  less than the count, and those whose remainder is negative as an `int`.
* Right or not, the list and the counter keep step, both modulo `2^32`, so the next call finds
  a state of the same kind (`Counted.step`), and the equivalence for one call carries over to
  runs.

No run that shows the failure can be written down, as it stores `2^32` bytes.
`wrapped_counter_hides` has one from `exists_writes`, which knows of it only that it goes
through and how high the stack is then.
-/

namespace KernelTraining.Lifo

open Machine

/-- `MAX_RW_COUNT`, the most bytes the VFS lets a call transfer. -/
def maxRwCount : ℕ := 0x7ffff000

/-- A read or a write in which no copy and no allocation fails. -/
def Unfailing (s : State) : Call → Prop
  | .open _ => False
  | .read count _ env => count ≤ maxRwCount ∧ env.fault = none
  | .write buf env => buf.length ≤ maxRwCount ∧ env.fault = none ∧
      Supplied s.heap buf.length env.answers

/-- A read takes nodes from the top of the stack, no more than there are, and returns the
smaller one of the count and the number of bytes stored.  (At a position that is not 0 it
is refused.) -/
def ReadsStored (s : State) : Call → Prop
  | .read count fPos env => fPos = 0 → ∃ L : Nodes, Linked LifoNode.next s.heap s.dev.data L ∧
      ∃ out, lifoRead s count fPos env = .ok out ∧
        (∃ k ≤ L.length, Linked LifoNode.next out.state.heap out.state.dev.data (L.drop k) ∧
          ∀ a, out.state.heap.get a =
            if a ∈ (L.take k).map Prod.fst then none else s.heap.get a) ∧
        out.retval = (min count L.length : ℕ)
  | _ => True

/-- The number of bytes stored fits 32 bits, or what is left of it in 32 bits is no less
than the count or is negative as an `int`. -/
def CountTold (s : State) : Call → Prop
  | .read count fPos _ => fPos = 0 → ∀ L : Nodes, Linked LifoNode.next s.heap s.dev.data L →
      L.length < 4294967296 ∨ count ≤ L.length % 4294967296 ∨
        2147483648 ≤ L.length % 4294967296
  | _ => True

instance (s : State) : ∀ c, Decidable (Unfailing s c)
  | .open .. | .read .. | .write .. => by
      unfold Unfailing
      infer_instance

/-- Nodes on the list and a counter that keeps step with them. -/
def Counted (s : State) : Prop := ∃ L, Stacked s s.dev.data L

section Steps

variable {s : State} {L : Nodes}

/-- The clamp yields the number of bytes stored exactly when the counter can tell it. -/
theorem clampCount_eq_min_iff (stacked : Stacked s s.dev.data L) {count : ℕ}
    (hcount : count < 2147483648) :
    clampCount s count = min count L.length ↔
      L.length < 4294967296 ∨ count ≤ L.length % 4294967296 ∨
        2147483648 ≤ L.length % 4294967296 := by
  rw [clampCount, stacked.fset]
  unfold toULong wrap32
  split_ifs <;> omega

/-- A read that does not fail takes as many nodes as it clamps the count to. -/
theorem Stacked.read_unfailing (stacked : Stacked s s.dev.data L) {count : ℕ} {env : Env}
    (hcount : count < 2147483648) (hfault : env.fault = none) :
    ∃ out, lifoRead s count 0 env = .ok out ∧ out.retval = clampCount s count ∧
      clampCount s count ≤ L.length ∧
      Stacked out.state out.state.dev.data (L.drop (clampCount s count)) ∧
      ∀ a, out.state.heap.get a =
        if a ∈ (L.take (clampCount s count)).map Prod.fst then none else s.heap.get a := by
  obtain ⟨hle, hsmall⟩ := clampCount_le stacked (.inr hcount)
  obtain ⟨out, q, hout, -, stacked', hget, hresult⟩ := lifoRead_spec stacked rfl hle hsmall env
  have hstop : env.stop (clampCount s count) = clampCount s count := by
    rw [Env.stop, hfault]
  rw [hstop] at stacked' hget hresult
  rw [if_neg (lt_irrefl _)] at hresult
  exact ⟨out, hout, hresult.1, hle, hresult.2 ▸ stacked', hget⟩

/-- A write that does not fail pushes a node for each byte. -/
theorem Stacked.write_unfailing (stacked : Stacked s s.dev.data L) {buf : List UInt8} {env : Env}
    (hsmall : buf.length < 2147483648) (hfault : env.fault = none)
    (supplied : Supplied s.heap buf.length env.answers) :
    ∃ out N, lifoWrite s buf env = .ok out ∧ N.length = buf.length ∧
      Stacked out.state out.state.dev.data (N ++ L) := by
  have hstop : env.stop buf.length = buf.length := by
    rw [Env.stop, hfault]
  have hrequests : env.requests buf.length = buf.length := by
    rw [Env.requests, hstop]
    omega
  obtain ⟨out, N, q, hout, -, hbytes, stacked', -, hresult⟩ :=
    lifoWrite_spec stacked buf env (by omega) (by rwa [hrequests])
  rw [hstop, if_neg (lt_irrefl _)] at hresult
  refine ⟨out, N, hout, ?_, hresult.2.1 ▸ stacked'⟩
  rw [← length_bytes, hbytes, hstop, List.take_length, List.length_reverse]

/-- A read is right exactly when the counter can tell the number of bytes stored. -/
theorem Stacked.reads_iff_told (stacked : Stacked s s.dev.data L) {count : ℕ} {env : Env}
    (hcount : count < 2147483648) (hfault : env.fault = none) :
    ReadsStored s (.read count 0 env) ↔ CountTold s (.read count 0 env) := by
  obtain ⟨out, hout, hretval, hle, stacked', hget⟩ := stacked.read_unfailing hcount hfault
  have htold : CountTold s (.read count 0 env) ↔ clampCount s count = min count L.length := by
    rw [clampCount_eq_min_iff stacked hcount]
    constructor
    · exact fun h => h rfl L stacked.linked
    · intro h _ L' linked'
      rwa [linked'.unique stacked.linked]
  rw [htold]
  constructor
  · intro h
    obtain ⟨L', linked', out', hout', -, hretval'⟩ := h rfl
    obtain rfl : out = out' := Except.ok.inj (hout.symm.trans hout')
    rw [linked'.unique stacked.linked, hretval] at hretval'
    exact Int.ofNat_inj.mp hretval'
  · intro h _
    refine ⟨L, stacked.linked, out, hout, ⟨_, hle, stacked'.linked, hget⟩, ?_⟩
    rw [hretval, h]

/-- What holds after one call of the run. -/
theorem Counted.step (counted : Counted s) {c : Call} (hc : Unfailing s c) :
    (ReadsStored s c ↔ CountTold s c) ∧ ∃ s', s.step c = .ok s' ∧ Counted s' := by
  obtain ⟨L, stacked⟩ := counted
  cases c with
  | «open» flags => exact absurd hc id
  | write buf env =>
      obtain ⟨hlength, hfault, supplied⟩ := hc
      obtain ⟨out, N, hout, -, stacked'⟩ := stacked.write_unfailing
        (by unfold maxRwCount at hlength; omega) hfault supplied
      refine ⟨Iff.rfl, out.state, ?_, _, stacked'⟩
      simp only [State.step, State.call, hout]
      rfl
  | read count fPos env =>
      obtain ⟨hlength, hfault⟩ := hc
      have hcount : count < 2147483648 := by
        unfold maxRwCount at hlength
        omega
      by_cases hfPos : fPos = 0
      · subst hfPos
        obtain ⟨out, hout, -, -, stacked', -⟩ := stacked.read_unfailing hcount hfault
        refine ⟨stacked.reads_iff_told hcount hfault, out.state, ?_, _, stacked'⟩
        simp only [State.step, State.call, hout]
        rfl
      · have hcall : s.call (.read count fPos env) = .ok ⟨-EINVAL, [], s⟩ := if_pos hfPos
        refine ⟨iff_of_true (fun h => absurd h hfPos) fun h => absurd h hfPos, s, ?_, L, stacked⟩
        simp only [State.step, hcall]
        rfl

end Steps

theorem Counted.init : Counted lifoInit := ⟨[], .init⟩

/-- **Long runs.**  In every run of reads and writes in which nothing fails, however many
bytes they store, every read takes no more nodes than there are and returns the smaller
one of its count and the number of bytes stored, exactly when at every read that number
is below `2^32`, or leaves a remainder there that is no less than the count or not below
`2^31`. -/
theorem readsStored_iff (calls : List Call)
    (hcalls : EveryStep State.step Unfailing lifoInit calls) :
    EveryStep State.step ReadsStored lifoInit calls ↔
      EveryStep State.step CountTold lifoInit calls := by
  have htransfer : ∀ P R : State → Call → Prop,
      (∀ s c, Counted s → Unfailing s c → P s c → R s c) →
      EveryStep State.step P lifoInit calls → EveryStep State.step R lifoInit calls := by
    intro P R hPR hP
    refine (everyStep_and.mpr ⟨hcalls, hP⟩).everyStep (Q := Counted) ?_ .init
    rintro s c counted ⟨hc, hP⟩
    obtain ⟨-, t, ht, counted'⟩ := counted.step hc
    refine ⟨hPR s c counted hc hP, ?_⟩
    intro s' hs'
    exact Except.ok.inj (ht.symm.trans hs') ▸ counted'
  exact ⟨htransfer _ _ fun s c counted hc => (counted.step hc).1.mp,
    htransfer _ _ fun s c counted hc => (counted.step hc).1.mpr⟩

/-- Three bytes, read in two calls. -/
theorem readsStored_run :
    let calls : List Call := [.write [1, 2, 3] { answers := [some 7, some 8, some 9] },
      .read 2 0 {}, .read 2 0 {}, .read 1 1 {}]
    EveryStep State.step ReadsStored lifoInit calls ↔
      EveryStep State.step CountTold lifoInit calls :=
  readsStored_iff _ (by decide)

/-- There are writes that bring the stack to any height. -/
theorem exists_writes (sizes : List ℕ) (hsizes : ∀ n ∈ sizes, n ≤ maxRwCount) {s : State}
    {L : Nodes} (stacked : Stacked s s.dev.data L) :
    ∃ calls s' L', EveryStep State.step Unfailing s calls ∧ calls.foldlM State.step s = .ok s' ∧
      Stacked s' s'.dev.data L' ∧ L'.length = L.length + sizes.sum := by
  induction sizes generalizing s L with
  | nil => exact ⟨[], s, L, trivial, rfl, stacked, rfl⟩
  | cons n sizes ih =>
      rw [List.forall_mem_cons] at hsizes
      obtain ⟨m, hfree⟩ := s.heap.exists_fresh
      obtain ⟨env, henv⟩ : ∃ env : Env, env = { answers := (List.range' m n).map some } := ⟨_, rfl⟩
      obtain ⟨buf, hbuf⟩ : ∃ buf : List UInt8, buf.length = n := ⟨.replicate n 0, by simp⟩
      have hsupplied : Supplied s.heap buf.length env.answers := by
        rw [henv, hbuf]
        exact supplied_range' hfree n
      have hfault : env.fault = none := by rw [henv]
      have hsmall : buf.length < 2147483648 := by
        rw [hbuf]
        exact hsizes.1.trans_lt (by decide)
      obtain ⟨out, N, hout, hN, stacked'⟩ := stacked.write_unfailing hsmall hfault hsupplied
      obtain ⟨calls, s', L', hcalls, hrun, stacked'', hlength⟩ := ih hsizes.2 stacked'
      have hstep : s.step (.write buf env) = .ok out.state := by
        simp only [State.step, State.call, hout]
        rfl
      refine ⟨.write buf env :: calls, s', L', ⟨⟨hbuf ▸ hsizes.1, hfault, hsupplied⟩, ?_⟩, ?_,
        stacked'', ?_⟩
      · intro t ht
        rw [hstep] at ht
        exact Except.ok.inj ht ▸ hcalls
      · rw [List.foldlM_cons, hstep]
        exact hrun
      · rw [hlength, List.length_append, List.sum_cons, hN, hbuf]
        omega

/-- After writes of `2^32` bytes the counter is back at zero, and a read of one byte gets
nothing. -/
theorem wrapped_counter_hides : ¬ ∀ calls, EveryStep State.step Unfailing lifoInit calls →
    EveryStep State.step ReadsStored lifoInit calls := by
  intro h
  obtain ⟨calls, s, L, hcalls, hrun, stacked, hlength⟩ :=
    exists_writes [maxRwCount, maxRwCount, 8192] (by decide) .init
  have hheight : L.length = 4294967296 := hlength
  have hread : ∀ P : State → Call → Prop,
      EveryStep State.step P s [.read 1 0 {}] ↔ P s (.read 1 0 {}) := fun P =>
    ⟨fun hP => hP.1, fun hP => ⟨hP, fun _ _ => trivial⟩⟩
  have hall := h (calls ++ [.read 1 0 {}]) (everyStep_append.mpr ⟨hcalls, by
    intro s' hs'
    obtain rfl : s = s' := Except.ok.inj (hrun.symm.trans hs')
    exact (hread _).mpr ⟨by decide, rfl⟩⟩)
  have hstored := (hread _).mp ((everyStep_append.mp hall).2 s hrun)
  have htold := (stacked.reads_iff_told (by decide) rfl).mp hstored rfl L stacked.linked
  omega

end KernelTraining.Lifo
