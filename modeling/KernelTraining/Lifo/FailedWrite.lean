import KernelTraining.Lifo.Stack

/-!
# A write that fails

`lifo_write` hands `&new->value` to the copy without a look at what `kmalloc` returned, so
a failing allocation is a write through a null pointer (`lifoWrite_nullDeref`).  When the
copy of a byte fails, the call jumps over the store of the new head: the nodes of the bytes
before stay allocated and counted and are on no list, and so does the node of the byte
itself, which is not even counted (`lifoWrite_leaks`).  That node is lost even if nothing
has been pushed before, so no failing write is clean (`never_failsCleanly`).

Which of the two it is depends on which comes first, and `FailsAt` says so: everything has gone
well for the bytes before, and then either there is no node for byte `i`, or there is one and
the copy fails.  The loops are followed for as long as all goes well by `writeLoop_round`, one
round at a time, and the two failures are the two ways in which the induction ends
(`writeLoop_nullDeref`, `writeLoop_leaks`).

Nothing is assumed of the number of bytes stored, so the counter may go round on the way.
That is why `never_failsCleanly` does not argue with the counter alone: it finds the node that
was allocated for byte `i`, which is in the heap and on no list.
-/

namespace KernelTraining.Lifo

open Machine

/-- The first thing that goes wrong in a write is the allocation for byte `i`, or its
copy. -/
inductive FailsAt (h : Heap LifoNode) (buf : List UInt8) (env : Env) (i : ℕ) : Prop
  | allocation (index : i < buf.length) (supplied : Supplied h i env.answers)
      (refused : ¬ Supplied h (i + 1) env.answers) (copies : i ≤ env.stop buf.length)
  | copy (index : i < buf.length) (supplied : Supplied h (i + 1) env.answers)
      (fault : env.fault = some i)

/-- A write that fails at byte `i` of `buf` goes through and leaves a consistent stack:
either none of its bytes is on the stack and it reports an error, or the first `i` are
and it returns `i`; they lie on top of the old stack `L`, the counter agrees, and the
nodes it has allocated are those of its bytes on the stack. -/
def FailsCleanly (s : State) (L : Nodes) (buf : List UInt8) (env : Env) (i : ℕ) : Prop :=
  ∃ out, lifoWrite s buf env = .ok out ∧ ∃ N : Nodes,
    ((N = [] ∧ out.retval < 0) ∨ (bytes N = (buf.take i).reverse ∧ out.retval = i)) ∧
      Linked LifoNode.next out.state.heap out.state.dev.data (N ++ L) ∧
      out.state.dev.fset = (N ++ L).length ∧
      ∀ a, s.heap.get a = none → out.state.heap.get a ≠ none → a ∈ N.map Prod.fst

/-! ## The loop -/

section Loop

variable {s : State} {p : Option Addr} {L : Nodes} {answers : List (Option Addr)} {i j : ℕ}

/-- One round of the loop that gets its node and its byte. -/
theorem writeLoop_round (stacked : Stacked s p L) (buf : List UInt8) {env : Env} (rounds : ℕ)
    (hj : j < buf.length) (hsmall : j + 1 < 2147483648) (hfault : env.fault ≠ some j) {a : Addr}
    {rest : List (Option Addr)} (ha : s.heap.get a = none)
    (hmalloc : kmalloc s.heap env.junk answers = (some a, s.heap.set a env.junk, rest)) :
    ∃ s' L', writeLoop buf env (rounds + 1) s (cursor j p) answers =
        writeLoop buf env rounds s' (cursor (j + 1) (some a)) rest ∧
      Stacked s' (some a) L' ∧
      ∀ c, s'.heap.get c = none ↔ (s.heap.set a env.junk).get c = none := by
  have hnotMem : a ∉ L.map Prod.fst := fun hmem => stacked.linked.allocated a hmem ha
  have stacked₁ : Stacked { s with heap := s.heap.set a env.junk } p L :=
    ⟨stacked.linked.set_fresh ha _, stacked.fset⟩
  obtain ⟨s', hproduce, stacked', -, hheap⟩ := produce_spec stacked₁ (a := a) (by simp)
    hnotMem (buf.getD j 0) hsmall
  refine ⟨s', _, ?_, stacked', ?_⟩
  · have hindex : (cursor j p).i.toNat = j := Int.toNat_natCast j
    simp only [writeLoop, cursor_goesOn (show j < 2147483648 by omega), hindex, hj, decide_true,
      if_true, hmalloc, if_neg hfault, hproduce, ok_bind]
  · intro c
    rw [hheap]
    exact Heap.get_set_eq_none_iff (by simp) _ c

/-- The loop from index `j` on, when the allocation for byte `i` fails. -/
theorem writeLoop_nullDeref (buf : List UInt8) (env : Env) (rounds : ℕ) (stacked : Stacked s p L)
    (hcount : j + rounds = buf.length) (hi : i < buf.length) (hji : j ≤ i)
    (hsmall : i < 2147483648) (hstop : i ≤ env.stop buf.length)
    (supplied : Supplied s.heap (i - j) answers)
    (refused : ¬ Supplied s.heap (i - j + 1) answers) :
    writeLoop buf env rounds s (cursor j p) answers = .error .nullDeref := by
  induction rounds generalizing s p L j answers with
  | zero => omega
  | succ rounds ih =>
      have hj : j < buf.length := by omega
      rcases kmalloc_cases s.heap env.junk answers with ⟨rest, hmalloc⟩ | ⟨a, rest, ha, hmalloc⟩
      · simp only [writeLoop, cursor_goesOn (show j < 2147483648 by omega), hj, decide_true,
          if_true, hmalloc]
      · rw [supplied_of_kmalloc_some hmalloc] at refused
        -- the request for byte `j` was met, so `i` is still to come
        have hlt : j < i := by
          by_contra hge
          apply refused
          rw [show i - j = 0 by omega]
          trivial
        have hfault : env.fault ≠ some j := fun h => by
          have := (env.fault_iff hj (by omega)).mp h
          omega
        obtain ⟨s', L', hround, stacked', hfree⟩ :=
          writeLoop_round stacked buf rounds hj (by omega) hfault ha hmalloc
        have hprev : i - j = i - (j + 1) + 1 := by omega
        rw [hprev, supplied_of_kmalloc_some hmalloc] at supplied
        rw [hround]
        apply ih stacked' (by omega) (by omega)
        · exact (supplied_congr hfree _ _).mpr supplied
        · rwa [supplied_congr hfree, ← hprev]

/-- The loop from index `j` on, when the copy of byte `i` fails: the node for that byte
stays. -/
theorem writeLoop_leaks (buf : List UInt8) (env : Env) (rounds : ℕ) (stacked : Stacked s p L)
    (hcount : j + rounds = buf.length) (hi : i < buf.length) (hji : j ≤ i)
    (hsmall : i < 2147483648) (hfault : env.fault = some i)
    (supplied : Supplied s.heap (i - j + 1) answers) :
    ∃ out a, writeLoop buf env rounds s (cursor j p) answers = .ok out ∧
      s.heap.get a = none ∧ out.state.heap.get a ≠ none := by
  induction rounds generalizing s p L j answers with
  | zero => omega
  | succ rounds ih =>
      have hj : j < buf.length := by omega
      obtain ⟨a, rest, ha, hmalloc, -⟩ := supplied.kmalloc env.junk
      rcases hji.lt_or_eq with hlt | rfl
      · have hnot : env.fault ≠ some j := fun h => by
          rw [hfault, Option.some.injEq] at h
          omega
        obtain ⟨s', L', hround, stacked', hfree⟩ :=
          writeLoop_round stacked buf rounds hj (by omega) hnot ha hmalloc
        rw [supplied_of_kmalloc_some hmalloc, ← supplied_congr hfree,
          show i - j = i - (j + 1) + 1 by omega] at supplied
        obtain ⟨out, c, hout, hnone, hsome⟩ := ih stacked' (by omega) (by omega) supplied
        refine ⟨out, c, hround.trans hout, ?_, hsome⟩
        -- what is free after the round was free before it
        rw [hfree, Heap.get_set] at hnone
        split_ifs at hnone
        exact hnone
      · have hindex : (cursor j p).i.toNat = j := Int.toNat_natCast j
        have hout : writeLoop buf env (rounds + 1) s (cursor j p) answers = .ok ⟨-EFAULT, [],
            { s with heap := (s.heap.set a env.junk).set a { env.junk with value := 0 } }⟩ := by
          simp only [writeLoop, cursor_goesOn (show j < 2147483648 by omega), hindex, hj,
            decide_true, if_true, hmalloc, if_pos hfault, store_eq (s.heap.get_set_self a env.junk),
            ok_bind]
          rfl
        exact ⟨_, a, hout, ha, by simp⟩

end Loop

/-! ## The call -/

section Call

variable {s : State} {L : Nodes} {buf : List UInt8} {env : Env} {i : ℕ}

/-- **A failing allocation** is a null pointer dereference. -/
theorem lifoWrite_nullDeref (stacked : Stacked s s.dev.data L) (hi : i < buf.length)
    (hsmall : i < 2147483648) (hstop : i ≤ env.stop buf.length)
    (supplied : Supplied s.heap i env.answers) (refused : ¬ Supplied s.heap (i + 1) env.answers) :
    lifoWrite s buf env = .error .nullDeref :=
  writeLoop_nullDeref buf env buf.length stacked (Nat.zero_add _) hi (Nat.zero_le i) hsmall hstop
    supplied refused

/-- **A failing copy** leaves the list as it was, counts the bytes before it all the same,
and leaves a node behind that is not on the list. -/
theorem lifoWrite_leaks (stacked : Stacked s s.dev.data L) (hi : i < buf.length)
    (hsmall : i < 2147483648) (hfault : env.fault = some i)
    (supplied : Supplied s.heap (i + 1) env.answers) :
    ∃ out a, lifoWrite s buf env = .ok out ∧ out.retval = -EFAULT ∧
      Linked LifoNode.next out.state.heap out.state.dev.data L ∧
      out.state.dev.fset = wrap32 (i + L.length : ℕ) ∧
      s.heap.get a = none ∧ out.state.heap.get a ≠ none := by
  have hstop : env.stop buf.length = i := by
    rw [Env.stop, hfault]
    show min i buf.length = i
    omega
  have hrequests : env.requests buf.length = i + 1 := by
    rw [Env.requests, hstop]
    omega
  obtain ⟨out, N, q, hout, -, hbytes, stacked', hkeep, hresult⟩ :=
    lifoWrite_spec stacked buf env (by omega) (by rwa [hrequests])
  rw [hstop, if_pos hi] at hresult
  obtain ⟨out', a, hout', hnone, hsome⟩ := writeLoop_leaks buf env buf.length stacked
    (Nat.zero_add _) hi (Nat.zero_le i) hsmall hfault supplied
  obtain rfl : out = out' := Except.ok.inj (hout.symm.trans hout')
  have hlength : N.length = i := by
    rw [← length_bytes, hbytes, hstop, List.length_reverse, List.length_take]
    omega
  refine ⟨out, a, hout, hresult.1, ?_, ?_, hnone, hsome⟩
  · rw [hresult.2]
    exact stacked.linked.congr fun c hc => hkeep c (stacked.linked.allocated c hc)
  · rw [stacked'.fset, List.length_append, hlength]

end Call

/-- **No failing write is clean.**  Whatever is on the stack and whatever byte the
allocation or the copy fails at, the write dereferences a null pointer, or it leaves a
node allocated that is not on the stack. -/
theorem never_failsCleanly {s : State} {L : Nodes} (stacked : Stacked s s.dev.data L)
    {buf : List UInt8} {env : Env} {i : ℕ} (hsmall : i < 2147483648)
    (fails : FailsAt s.heap buf env i) : ¬ FailsCleanly s L buf env i := by
  rintro ⟨out, hout, N, -, hlinked, -, hfreed⟩
  cases fails with
  | allocation hi supplied refused hstop =>
      rw [lifoWrite_nullDeref stacked hi hsmall hstop supplied refused] at hout
      cases hout
  | copy hi supplied hfault =>
      obtain ⟨out', a, hout', -, hlinked', -, hnone, hsome⟩ :=
        lifoWrite_leaks stacked hi hsmall hfault supplied
      obtain rfl : out = out' := Except.ok.inj (hout.symm.trans hout')
      -- the list is the old one, so none of the new nodes is on it
      have hnil : N = [] := by
        have heq := hlinked.unique hlinked'
        rwa [List.append_left_eq_self] at heq
      rw [hnil] at hfreed
      exact absurd (hfreed a hnone hsome) List.not_mem_nil

/-- The second copy of a write to the empty device fails. -/
theorem never_failsCleanly_copy :
    ¬ FailsCleanly lifoInit [] [1, 2] { answers := [some 7, some 9], fault := some 1 } 1 :=
  never_failsCleanly .init (by decide) (.copy (by decide) (by decide) rfl)

/-- What a write of two bytes to the empty device leaves, if it returns: the return value,
the device, and the nodes at 7 and 9. -/
def afterWrite (env : Env) : Except Fault (ℤ × LifoDev × Option LifoNode × Option LifoNode) :=
  (lifoWrite lifoInit [1, 2] env).map fun out =>
    (out.retval, out.state.dev, out.state.heap.get 7, out.state.heap.get 9)

/-- When the second allocation of a write fails, the write goes through a null pointer.
When the second copy fails, a byte is counted that is not on the list, and both nodes
stay. -/
theorem failing_write_breaks :
    FailsAt lifoInit.heap [1, 2] { answers := [some 7, none] } 1 ∧
      ¬ FailsCleanly lifoInit [] [1, 2] { answers := [some 7, none] } 1 ∧
      afterWrite { answers := [some 7, none] } = .error .nullDeref ∧
      afterWrite { answers := [some 7, some 9], fault := some 1 } =
        .ok (-EFAULT, ⟨none, 1⟩, some ⟨none, 1⟩, some ⟨none, 0⟩) := by
  have hfault : afterWrite { answers := [some 7, none] } = .error .nullDeref := rfl
  refine ⟨.allocation (by decide) (by decide) (by decide) (by decide), ?_, hfault, rfl⟩
  rintro ⟨out, hout, -⟩
  rw [afterWrite, hout] at hfault
  cases hfault

end KernelTraining.Lifo
