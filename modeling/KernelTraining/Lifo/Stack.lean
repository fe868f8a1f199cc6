import KernelTraining.Lifo.Device
import KernelTraining.Machine.Linked

/-!
# The stack of a lifo device

`Stacked s p L` says that the list from pointer `p` is `L` and that `fset` counts it, as far as
an `int` can.  Between calls `p` is `dev->data`; inside a call it is the local `ptr`, and
`dev->data` is stale.  One byte read or written takes one such state to another, and the two
loops are inductions over that.

* `consume_spec` and `produce_spec` are the two steps, for one byte each.  Everything that is
  said of calls under way rests on them, whether the loop runs to its end (here) or other
  callers come between its rounds (`Lifo.Interleaving`).
* A copy can fail.  `Env.stop` is the number of bytes that are copied before one does, and
  `readLoop_spec` and `writeLoop_spec` say what the loops leave in terms of it: so much has
  been taken off the stack, or put on it, in either case.  Whether the call ends well only
  decides what becomes of `dev->data`.
* A write asks for one node more than it stores if it fails, as it has the node before it has
  the byte (`Env.requests`).  That one is on no list.
* The counter may have gone round, and nothing here assumes that it has not, apart from
  `Stacked.fset_eq`.  A read looks at it to know how far it may go, and never goes too far
  (`clampCount_le`).
-/

namespace KernelTraining.Lifo

open Machine

/-- The nodes of a stack, from the top. -/
abbrev Nodes := List (Addr × LifoNode)

structure Stacked (s : State) (p : Option Addr) (L : Nodes) : Prop where
  linked : Linked LifoNode.next s.heap p L
  fset : s.dev.fset = wrap32 L.length

theorem wrap32_natCast {n : ℕ} (h : n < 2147483648) : wrap32 n = n :=
  wrap32_eq (by omega) (by unfold intMax; omega)

/-- A counter that has not wrapped. -/
theorem Stacked.fset_eq {s : State} {p : Option Addr} {L : Nodes} (stacked : Stacked s p L)
    (hsmall : L.length < 2147483648) : s.dev.fset = L.length := by
  rw [stacked.fset, wrap32_natCast hsmall]

/-- The counter keeps step with the list, whether it wraps or not. -/
theorem wrap32_inc (n : ℕ) : wrap32 (wrap32 n + 1) = wrap32 (n + 1 : ℕ) := by
  rw [Int.natCast_add]
  unfold wrap32
  omega

theorem wrap32_dec (n : ℕ) : wrap32 (wrap32 (n + 1 : ℕ) - 1) = wrap32 n := by
  rw [Int.natCast_add]
  unfold wrap32
  omega

/-- The bytes of a stack, the most recent first. -/
def bytes (L : Nodes) : List UInt8 := L.map fun entry => entry.2.value

@[simp] theorem bytes_nil : bytes [] = [] := rfl

@[simp] theorem bytes_cons (entry : Addr × LifoNode) (L : Nodes) :
    bytes (entry :: L) = entry.2.value :: bytes L := rfl

@[simp] theorem bytes_append (L L' : Nodes) : bytes (L ++ L') = bytes L ++ bytes L' :=
  List.map_append

@[simp] theorem length_bytes (L : Nodes) : (bytes L).length = L.length := List.length_map _

theorem bytes_take (L : Nodes) (n : ℕ) : bytes (L.take n) = (bytes L).take n := List.map_take

theorem bytes_drop (L : Nodes) (n : ℕ) : bytes (L.drop n) = (bytes L).drop n := List.map_drop

/-- The empty device. -/
theorem Stacked.init : Stacked lifoInit none [] := ⟨rfl, rfl⟩

/-! ## One byte -/

/-- A loop index within `int`. -/
def cursor (j : ℕ) (p : Option Addr) : Cursor := ⟨j, p, j⟩

theorem cursor_goesOn {j : ℕ} (hj : j < 2147483648) (p : Option Addr) (count : ℕ) :
    (cursor j p).goesOn count = decide (j < count) := by
  rw [Cursor.goesOn, cursor, toULong_natCast (by omega)]

theorem cursor_succ {j : ℕ} (hj : j + 1 < 2147483648) (p : Option Addr) :
    (⟨wrap32 ((j : ℤ) + 1), p, (j : ℤ) + 1⟩ : Cursor) = cursor (j + 1) p := by
  rw [cursor, Int.natCast_add, Int.natCast_one, wrap32_eq (by omega) (by unfold intMax; omega)]

/-- Reading one byte takes the first node off the stack. -/
theorem consume_spec {s : State} {p : Option Addr} {a : Addr} {node : LifoNode} {L : Nodes}
    (stacked : Stacked s p ((a, node) :: L)) {j : ℕ} (hj : j + 1 < 2147483648) :
    ∃ s', consume s (cursor j p) node = .ok (s', cursor (j + 1) node.next) ∧
      Stacked s' node.next L ∧ s'.dev.data = s.dev.data ∧ s'.heap = s.heap.erase a := by
  obtain ⟨rfl, hget, -, -⟩ := stacked.linked
  -- the new count is a variable, so that nothing computes with it
  obtain ⟨f, hf⟩ : ∃ f, f = wrap32 L.length := ⟨_, rfl⟩
  have hfset : wrap32 (s.dev.fset - 1) = f := by
    rw [hf, stacked.fset, List.length_cons, wrap32_dec]
  refine ⟨⟨⟨s.dev.data, f⟩, s.heap.erase a⟩, ?_, ⟨stacked.linked.erase_head, hf⟩, rfl, rfl⟩
  rw [← cursor_succ hj, consume, show (cursor j (some a)).ptr = some a from rfl, kfree_eq hget,
    ok_bind, hfset]
  rfl

/-- Writing one byte into a fresh node puts the node on the stack. -/
theorem produce_spec {s : State} {p : Option Addr} {L : Nodes} (stacked : Stacked s p L) {a : Addr}
    (ha : s.heap.get a ≠ none) (hnotMem : a ∉ L.map Prod.fst) (byte : UInt8) {j : ℕ}
    (hj : j + 1 < 2147483648) :
    ∃ s', produce s (cursor j p) a byte = .ok (s', cursor (j + 1) (some a)) ∧
      Stacked s' (some a) ((a, ⟨p, byte⟩) :: L) ∧ s'.dev.data = s.dev.data ∧
      s'.heap = s.heap.set a ⟨p, byte⟩ := by
  obtain ⟨old, hold⟩ := Option.ne_none_iff_exists'.mp ha
  obtain ⟨f, hf⟩ : ∃ f, f = wrap32 (L.length + 1 : ℕ) := ⟨_, rfl⟩
  have hfset : wrap32 (s.dev.fset + 1) = f := by
    rw [hf, stacked.fset, wrap32_inc]
  refine ⟨⟨⟨s.dev.data, f⟩, s.heap.set a ⟨p, byte⟩⟩, ?_,
    ⟨stacked.linked.push hnotMem rfl, hf⟩, rfl, rfl⟩
  rw [← cursor_succ hj, produce, store_eq hold, ok_bind, hfset]
  rfl

/-! ## The loops -/

/-- How many of `n` bytes are copied before the copies stop. -/
def Env.stop (env : Env) (n : ℕ) : ℕ :=
  match env.fault with
  | some j => min j n
  | none => n

theorem Env.stop_le (env : Env) (n : ℕ) : env.stop n ≤ n := by
  unfold Env.stop
  split <;> omega

/-- The copy that fails is the one the copies stop at. -/
theorem Env.fault_iff (env : Env) {j n : ℕ} (hj : j < n) (hstop : j ≤ env.stop n) :
    env.fault = some j ↔ env.stop n = j := by
  unfold Env.stop at *
  cases hfault : env.fault with
  | none =>
      have : n ≠ j := by omega
      simpa using this
  | some f =>
      simp only [hfault] at hstop
      simp only [Option.some.injEq]
      omega

/-- The loop of `lifo_read` from index `j` on, with as many nodes ahead as it wants. -/
theorem readLoop_spec (env : Env) {count : ℕ} (hsmall : count < 2147483648) (rounds : ℕ) {s : State}
    {p : Option Addr} {L : Nodes} (stacked : Stacked s p L) {j : ℕ} (hcount : j + rounds = count)
    (hlength : rounds ≤ L.length) (hstop : j ≤ env.stop count) (copied : List UInt8) :
    ∃ out q, readLoop count env rounds s (cursor j p) copied = .ok out ∧
      out.copied = copied ++ bytes (L.take (env.stop count - j)) ∧
      Stacked out.state q (L.drop (env.stop count - j)) ∧
      (∀ c, out.state.heap.get c =
        if c ∈ (L.take (env.stop count - j)).map Prod.fst then none else s.heap.get c) ∧
      if env.stop count < count then out.retval = -EFAULT ∧ out.state.dev.data = s.dev.data
      else out.retval = count ∧ out.state.dev.data = q := by
  have hle := env.stop_le count
  -- `j` bytes have been delivered, and `L` is what is left of the stack
  induction rounds generalizing s p L j copied with
  | zero =>
      obtain rfl : j = count := by omega
      have hzero : env.stop j - j = 0 := by omega
      refine ⟨⟨j, copied, commit s (cursor j p)⟩, p, rfl, by simp [hzero], ?_,
        fun c => by simp [hzero, commit], ?_⟩
      · rw [hzero]
        exact ⟨stacked.linked, stacked.fset⟩
      · rw [if_neg (by omega)]
        exact ⟨rfl, rfl⟩
  | succ rounds ih =>
      obtain ⟨entry, L, rfl⟩ : ∃ entry L', L = entry :: L' := by
        cases L with
        | nil => simp at hlength
        | cons entry L => exact ⟨entry, L, rfl⟩
      obtain ⟨a, node⟩ := entry
      obtain ⟨rfl, hget, -, -⟩ := stacked.linked
      have hindex : (cursor j (some a)).i.toNat = j := Int.toNat_natCast j
      simp only [readLoop, cursor_goesOn (show j < 2147483648 by omega), hindex,
        show j < count by omega, decide_true, if_true,
        show (cursor j (some a)).ptr = some a from rfl, load_eq hget, ok_bind]
      by_cases hfault : env.fault = some j
      · -- the call returns without storing the head it has come to
        have hj := (env.fault_iff (by omega) hstop).mp hfault
        have hzero : env.stop count - j = 0 := by omega
        rw [if_pos hfault]
        refine ⟨_, some a, rfl, by simp [hzero], ?_, fun c => by simp [hzero], ?_⟩
        · rw [hzero]
          exact stacked
        · rw [if_pos (by omega)]
          exact ⟨rfl, rfl⟩
      · have hj : env.stop count ≠ j := fun h =>
          hfault ((env.fault_iff (by omega) hstop).mpr h)
        obtain ⟨s', hconsume, stacked', hdata, hheap⟩ :=
          consume_spec stacked (show j + 1 < 2147483648 by omega)
        obtain ⟨out, q, hout, hcopied, hrest, hget, hresult⟩ := ih stacked' (by omega)
          (by simpa using hlength) (show j + 1 ≤ env.stop count by omega) (copied ++ [node.value])
        obtain ⟨m, hm⟩ : ∃ m, env.stop count - j = m + 1 := ⟨env.stop count - j - 1, by omega⟩
        have hm' : env.stop count - (j + 1) = m := by omega
        rw [hm'] at hcopied hrest hget
        rw [if_neg hfault]
        simp only [hconsume, ok_bind]
        refine ⟨out, q, hout, ?_, ?_, ?_, ?_⟩
        · rw [hcopied, hm]
          simp
        · rw [hm]
          exact hrest
        · intro c
          rw [hget, hheap, Heap.get_erase, hm, List.take_succ_cons, List.map_cons]
          by_cases hca : c = a <;> simp [hca]
        · rw [← hdata]
          exact hresult

/-- The number of nodes `lifo_write` asks for: one for each byte it copies, and one
for the byte it cannot copy. -/
def Env.requests (env : Env) (n : ℕ) : ℕ := min (env.stop n + 1) n

/-- The loop of `lifo_write` from index `j` on. -/
theorem writeLoop_spec (buf : List UInt8) (env : Env) (rounds : ℕ) {s : State}
    {p : Option Addr} {L : Nodes} (stacked : Stacked s p L) {j : ℕ}
    {answers : List (Option Addr)} (hcount : j + rounds = buf.length)
    (hsmall : env.stop buf.length < 2147483648) (hstop : j ≤ env.stop buf.length)
    (supplied : Supplied s.heap (env.requests buf.length - j) answers) :
    ∃ out N q, writeLoop buf env rounds s (cursor j p) answers = .ok out ∧ out.copied = [] ∧
      bytes N = ((buf.drop j).take (env.stop buf.length - j)).reverse ∧
      Stacked out.state q (N ++ L) ∧
      (∀ c, s.heap.get c ≠ none → out.state.heap.get c = s.heap.get c) ∧
      if env.stop buf.length < buf.length then
        out.retval = -EFAULT ∧ out.state.dev.data = s.dev.data
      else out.retval = buf.length ∧ out.state.dev.data = q ∧
        ∀ c ∉ N.map Prod.fst, out.state.heap.get c = s.heap.get c := by
  have hle := env.stop_le buf.length
  -- `j` bytes have been taken, and `L` begins with their nodes
  induction rounds generalizing s p L j answers with
  | zero =>
      obtain rfl : j = buf.length := by omega
      refine ⟨⟨buf.length, [], commit s (cursor buf.length p)⟩, [], p, rfl, rfl, by simp, ?_,
        fun _ _ => rfl, ?_⟩
      · exact ⟨stacked.linked, stacked.fset⟩
      · rw [if_neg (by omega)]
        exact ⟨rfl, rfl, fun _ _ => rfl⟩
  | succ rounds ih =>
      have hj : j < buf.length := by omega
      have hindex : (cursor j p).i.toNat = j := Int.toNat_natCast j
      obtain ⟨m, hm⟩ : ∃ m, env.requests buf.length - j = m + 1 := by
        refine ⟨env.requests buf.length - j - 1, ?_⟩
        unfold Env.requests
        omega
      rw [hm] at supplied
      obtain ⟨a, rest, ha, hmalloc, supplied'⟩ := supplied.kmalloc env.junk
      have hnotMem : a ∉ L.map Prod.fst := fun hmem => stacked.linked.allocated a hmem ha
      have stacked₁ : Stacked { s with heap := s.heap.set a env.junk } p L :=
        ⟨stacked.linked.set_fresh ha _, stacked.fset⟩
      simp only [writeLoop, cursor_goesOn (show j < 2147483648 by omega), hindex, hj, decide_true,
        if_true, hmalloc]
      by_cases hfault : env.fault = some j
      · -- the new node is allocated, and nothing refers to it
        have hstop' := (env.fault_iff hj hstop).mp hfault
        rw [if_pos hfault, store_eq (Heap.get_set_self s.heap a env.junk), ok_bind]
        refine ⟨_, [], p, rfl, rfl, by simp [hstop'], ?_, ?_, ?_⟩
        · exact ⟨stacked₁.linked.congr fun c hc => Heap.get_set_ne _ _ fun heq =>
            hnotMem (heq ▸ hc), stacked.fset⟩
        · intro c hc
          have hca : c ≠ a := fun heq => hc (heq ▸ ha)
          rw [Heap.get_set_ne _ _ hca, Heap.get_set_ne _ _ hca]
        · rw [if_pos (by omega)]
          exact ⟨rfl, rfl⟩
      · have hstop' : env.stop buf.length ≠ j := fun h =>
          hfault ((env.fault_iff hj hstop).mpr h)
        obtain ⟨s', hproduce, stacked', hdata, hheap⟩ := produce_spec stacked₁ (a := a) (by simp)
          hnotMem (buf.getD j 0) (show j + 1 < 2147483648 by omega)
        have hrequests : env.requests buf.length - (j + 1) = m := by omega
        obtain ⟨out, N, q, hout, hcopied, hbytes, hrest, hkeep, hresult⟩ :=
          ih stacked' (show j + 1 + rounds = buf.length by omega) (by omega)
            (show Supplied s'.heap (env.requests buf.length - (j + 1)) rest by
              rw [hrequests]
              apply supplied' _
              intro c hc
              rw [hheap, Heap.get_set_ne _ _ hc, Heap.get_set_ne _ _ hc])
        rw [if_neg hfault]
        simp only [hproduce, ok_bind]
        refine ⟨out, N ++ [(a, ⟨p, buf.getD j 0⟩)], q, hout, hcopied, ?_, ?_, ?_, ?_⟩
        · have hbyte : buf.drop j = buf.getD j 0 :: buf.drop (j + 1) := by
            rw [List.drop_eq_getElem_cons hj]
            simp [hj]
          obtain ⟨n, hn⟩ : ∃ n, env.stop buf.length - j = n + 1 :=
            ⟨env.stop buf.length - j - 1, by omega⟩
          have hn' : env.stop buf.length - (j + 1) = n := by omega
          rw [bytes_append, hbytes, hn', hbyte, hn, List.take_succ_cons, List.reverse_cons]
          rfl
        · rw [List.append_assoc]
          exact hrest
        · intro c hc
          have hca : c ≠ a := fun heq => hc (heq ▸ ha)
          have hc' : s'.heap.get c = s.heap.get c := by
            rw [hheap, Heap.get_set_ne _ _ hca, Heap.get_set_ne _ _ hca]
          rw [hkeep c (by rwa [hc']), hc']
        · rw [← hdata]
          split_ifs at hresult ⊢ with hlt
          · exact hresult
          · refine ⟨hresult.1, hresult.2.1, ?_⟩
            intro c hc
            rw [List.map_append, List.mem_append, not_or] at hc
            have hca : c ≠ a := fun heq => hc.2 (by simp [heq])
            rw [hresult.2.2 c hc.1, hheap, Heap.get_set_ne _ _ hca, Heap.get_set_ne _ _ hca]

/-! ## The calls -/

section Calls

variable {s : State} {L : Nodes}

/-- What a read may try for is on the list, if the list is short or the count is. -/
theorem clampCount_le (stacked : Stacked s s.dev.data L) {count : ℕ}
    (hsmall : L.length < 2147483648 ∨ count < 2147483648) :
    clampCount s count ≤ L.length ∧ clampCount s count < 2147483648 := by
  rw [clampCount, stacked.fset]
  rcases Nat.lt_or_ge L.length 2147483648 with hL | hL
  · rw [wrap32_natCast hL, toULong_natCast (by omega)]
    split_ifs <;> omega
  · split_ifs <;> omega

theorem clampCount_eq (stacked : Stacked s s.dev.data L) (hsmall : L.length < 2147483648)
    (count : ℕ) : clampCount s count = min L.length count := by
  rw [clampCount, stacked.fset_eq hsmall, toULong_natCast (by omega)]
  split_ifs <;> omega

/-- **`lifo_read`.**  As many bytes as are wanted and counted are popped, up to the one
that cannot be copied; in that case `dev->data` is left as it was. -/
theorem lifoRead_spec (stacked : Stacked s s.dev.data L) {count n : ℕ}
    (hn : clampCount s count = n) (hle : n ≤ L.length) (hsmall : n < 2147483648) (env : Env) :
    ∃ out q, lifoRead s count 0 env = .ok out ∧ out.copied = bytes (L.take (env.stop n)) ∧
      Stacked out.state q (L.drop (env.stop n)) ∧
      (∀ c, out.state.heap.get c =
        if c ∈ (L.take (env.stop n)).map Prod.fst then none else s.heap.get c) ∧
      if env.stop n < n then out.retval = -EFAULT ∧ out.state.dev.data = s.dev.data
      else out.retval = n ∧ out.state.dev.data = q := by
  obtain ⟨out, q, hout, hcopied, hrest⟩ :=
    readLoop_spec env hsmall n stacked (Nat.zero_add _) hle (Nat.zero_le _) []
  refine ⟨out, q, ?_, hcopied, hrest⟩
  rw [lifoRead, if_neg (not_not.mpr rfl), hn]
  exact hout

/-- **`lifo_write`.**  The bytes are pushed, up to the one that cannot be copied; in
that case `dev->data` is left as it was. -/
theorem lifoWrite_spec (stacked : Stacked s s.dev.data L) (buf : List UInt8) (env : Env)
    (hsmall : env.stop buf.length < 2147483648)
    (supplied : Supplied s.heap (env.requests buf.length) env.answers) :
    ∃ out N q, lifoWrite s buf env = .ok out ∧ out.copied = [] ∧
      bytes N = (buf.take (env.stop buf.length)).reverse ∧ Stacked out.state q (N ++ L) ∧
      (∀ c, s.heap.get c ≠ none → out.state.heap.get c = s.heap.get c) ∧
      if env.stop buf.length < buf.length then
        out.retval = -EFAULT ∧ out.state.dev.data = s.dev.data
      else out.retval = buf.length ∧ out.state.dev.data = q ∧
        ∀ c ∉ N.map Prod.fst, out.state.heap.get c = s.heap.get c :=
  writeLoop_spec buf env buf.length stacked (Nat.zero_add _) hsmall (Nat.zero_le _) supplied

theorem trimLoop_spec (rounds : ℕ) {h : Heap LifoNode} {p : Option Addr}
    (linked : Linked LifoNode.next h p L) (hrounds : L.length ≤ rounds) :
    ∃ h', trimLoop rounds h p = .ok h' ∧
      ∀ c, h'.get c = if c ∈ L.map Prod.fst then none else h.get c := by
  induction rounds generalizing h p L with
  | zero =>
      obtain rfl : L = [] := List.eq_nil_of_length_eq_zero (by omega)
      obtain rfl : p = none := linked
      exact ⟨h, rfl, by simp⟩
  | succ rounds ih =>
      cases L with
      | nil =>
          obtain rfl : p = none := linked
          exact ⟨h, rfl, by simp⟩
      | cons entry rest =>
          obtain ⟨a, node⟩ := entry
          have htail := linked.erase_head
          obtain ⟨rfl, hget, -, -⟩ := linked
          obtain ⟨h', htrim, hget'⟩ := ih htail (by simpa using hrounds)
          refine ⟨h', ?_, ?_⟩
          · simp only [trimLoop, load_eq hget, kfree_eq hget, ok_bind, htrim]
          · intro c
            have hmem : c ∈ ((a, node) :: rest).map Prod.fst ↔ c = a ∨ c ∈ rest.map Prod.fst :=
              List.mem_cons
            rw [hget', Heap.get_erase]
            by_cases hca : c = a
            · rw [if_pos (hmem.mpr (.inl hca)), if_pos hca, ite_self]
            · rw [if_neg hca]
              exact if_congr (hmem.trans (or_iff_right hca)).symm rfl rfl

/-- **`lifo_trim`** frees the nodes and leaves `dev->data` as it was. -/
theorem lifoTrim_spec (linked : Linked LifoNode.next s.heap s.dev.data L) :
    ∃ h', lifoTrim s = .ok ⟨⟨s.dev.data, 0⟩, h'⟩ ∧
      ∀ c, h'.get c = if c ∈ L.map Prod.fst then none else s.heap.get c := by
  obtain ⟨h', htrim, hget⟩ := trimLoop_spec s.heap.card linked linked.length_le_card
  exact ⟨h', by simp only [lifoTrim, htrim, ok_bind]; rfl, hget⟩

end Calls

end KernelTraining.Lifo
