import KernelTraining.Lifo.Invariant

/-!
# A read that fails half-way

`lifo_read` frees the nodes and counts them off one by one, and stores the new head of the list
only when all copies went through.  A copy that fails jumps over that store.  So a failing read
loses nothing exactly when it has delivered nothing (`losesNothing_iff`).

`LosesNothing` lists what a caller may expect of a read that fails, with the number of bytes it
has delivered as a parameter: so many bytes are off the stack, the counter says so, `dev->data`
points to the first node that is left, and the next read goes on there.

* The bytes, the heap and the counter are always right (`lifoRead_spec`).  It is `dev->data`
  that is not: it still points to what was the first node.  That one has been freed, unless the
  read has stopped before its first byte; and it is not found further down the list, as the
  nodes of a list are different from each other (`Stacked.head_ne`).
* If nothing has been delivered, the stack is the one before the call, and reads from it are
  like any other (`Stacked.read_copied`).
-/

namespace KernelTraining.Lifo

open Machine

/-- What a failing read of the stack `L` from `s` must leave: the bytes it delivered are
those of the nodes it removed, the counter and `dev->data` agree with the nodes that are
left, and the next read goes on with the first of these. -/
structure LosesNothing (s : State) (L : Nodes) (out : Out) : Prop where
  fset : out.state.dev.fset = s.dev.fset - out.copied.length
  head : out.state.dev.data = (L.drop out.copied.length).head?.map Prod.fst
  removed : ∀ a, out.state.heap.get a =
    if a ∈ (L.take out.copied.length).map Prod.fst then none else s.heap.get a
  delivered : out.copied = bytes (L.take out.copied.length)
  next : ∀ count < 2147483648, ∃ out', lifoRead out.state count 0 {} = .ok out' ∧
    out'.copied = (bytes (L.drop out.copied.length)).take (clampCount out.state count)

/-- The head of a list is not found further down. -/
theorem Stacked.head_ne {s : State} {p : Option Addr} {L : Nodes} (stacked : Stacked s p L)
    {i : ℕ} (hi : 0 < i) (hle : i ≤ L.length) : p ≠ (L.drop i).head?.map Prod.fst := by
  intro heq
  cases L with
  | nil => simp at hle; omega
  | cons entry rest =>
      obtain ⟨hp, -, hnotMem, -⟩ := stacked.linked
      obtain ⟨m, rfl⟩ : ∃ m, i = m + 1 := ⟨i - 1, by omega⟩
      rw [hp, List.drop_succ_cons, eq_comm, Option.map_eq_some_iff] at heq
      obtain ⟨entry', hhead, haddr⟩ := heq
      apply hnotMem
      rw [← haddr]
      exact List.mem_map_of_mem (List.mem_of_mem_drop (List.mem_of_mem_head? hhead))

/-- A read in which nothing fails delivers the top of the stack. -/
theorem Stacked.read_copied {s : State} {L : Nodes} (stacked : Stacked s s.dev.data L) {count : ℕ}
    (hcount : count < 2147483648) :
    ∃ out, lifoRead s count 0 {} = .ok out ∧ out.copied = (bytes L).take (clampCount s count) := by
  obtain ⟨hle, hsmall⟩ := clampCount_le stacked (.inr hcount)
  obtain ⟨out, q, hout, hcopied, -⟩ := lifoRead_spec stacked rfl hle hsmall {}
  exact ⟨out, hout, hcopied.trans (bytes_take L _)⟩

/-- **A failing read.**  If the copy of byte `i` fails, the read delivers the first `i`
bytes and fails, and it loses nothing exactly when `i` is 0. -/
theorem losesNothing_iff {s : State} {L : Nodes} (stacked : Stacked s s.dev.data L) {count i : ℕ}
    (hcount : count < 2147483648) (hi : i < clampCount s count) (env : Env) :
    (∃ out, lifoRead s count 0 { env with fault := some i } = .ok out ∧ out.retval = -EFAULT ∧
      out.copied.length = i ∧ LosesNothing s L out) ↔ i = 0 := by
  obtain ⟨hle, hsmall⟩ := clampCount_le stacked (.inr hcount)
  have hstop : Env.stop { env with fault := some i } (clampCount s count) = i := by
    show min i (clampCount s count) = i
    omega
  obtain ⟨out, q, hout, hcopied, stacked', hget, hresult⟩ :=
    lifoRead_spec stacked rfl hle hsmall { env with fault := some i }
  rw [hstop] at hcopied stacked' hget hresult
  rw [if_pos hi] at hresult
  have hlength : out.copied.length = i := by
    rw [hcopied, length_bytes, List.length_take]
    omega
  constructor
  · rintro ⟨out', hout', -, -, loses⟩
    obtain rfl : out = out' := Except.ok.inj (hout.symm.trans hout')
    by_contra hne
    -- `dev->data` still points to the first node, which has been freed
    apply stacked.head_ne (Nat.pos_of_ne_zero hne) (by omega)
    rw [← hresult.2, loses.head, hlength]
  · rintro rfl
    refine ⟨out, hout, hresult.1, hlength, ?_⟩
    have hsame : Stacked out.state out.state.dev.data L := by
      apply stacked'.of_head
      rw [hresult.2]
      exact stacked.linked.eq_head
    constructor
    · rw [hlength, hsame.fset, stacked.fset]
      simp
    · rw [hlength, hresult.2]
      exact stacked.linked.eq_head
    · rw [hlength]
      exact hget
    · rw [hlength]
      exact hcopied
    · intro count' hcount'
      rw [hlength]
      exact hsame.read_copied hcount'

/-- A device with the bytes 1 and 2, the 1 on top. -/
def twoNodes : State := ⟨⟨some 7, 2⟩, (Heap.empty.set 7 ⟨some 9, 1⟩).set 9 ⟨none, 2⟩⟩

theorem stacked_twoNodes :
    Stacked twoNodes twoNodes.dev.data [(7, ⟨some 9, 1⟩), (9, ⟨none, 2⟩)] :=
  ⟨⟨rfl, by decide, by decide, rfl, by decide, by decide, rfl⟩, by decide⟩

/-- A read of both bytes whose first copy fails. -/
theorem losesNothing_twoNodes :
    ∃ out, lifoRead twoNodes 2 0 { fault := some 0 } = .ok out ∧ out.retval = -EFAULT ∧
      out.copied.length = 0 ∧
      LosesNothing twoNodes [(7, ⟨some 9, 1⟩), (9, ⟨none, 2⟩)] out :=
  (losesNothing_iff stacked_twoNodes (by decide) (by decide) {}).mpr rfl

/-- When the second copy fails the first node has been freed and `dev->data` still points to
it, so the next read faults. -/
theorem failed_read_dangles :
    ∃ out, lifoRead twoNodes 2 0 { fault := some 1 } = .ok out ∧ out.copied = [1] ∧
      out.state.dev = ⟨some 7, 1⟩ ∧ out.state.heap.get 7 = none ∧
      ¬ LosesNothing twoNodes [(7, ⟨some 9, 1⟩), (9, ⟨none, 2⟩)] out ∧
      (lifoRead out.state 1 0 {}).map Out.copied = .error .badAccess := by
  refine ⟨⟨-EFAULT, [1], ⟨⟨some 7, 1⟩, twoNodes.heap.erase 7⟩⟩, rfl, rfl, rfl, by decide, ?_, rfl⟩
  intro loses
  exact absurd loses.head (by decide)

end KernelTraining.Lifo
