import KernelTraining.Lifo.Invariant
import Mathlib.Data.Multiset.AddSub

/-!
# Concurrent callers of the lifo device

A user copy can sleep, so a call of `lifo_read` or `lifo_write` is a sequence of steps with a
copy at each seam: it starts and runs up to its first copy, and every copy takes it to the next
one or to its end.  The head of the list is loaded when the call starts and stored when it ends.
The driver has no lock, so other calls can come between.

As long as no call that transfers anything starts while another is under way, no byte is lost
(`nothing_lost`).  Two calls that overlap do lose bytes (`overlap_loses`).

## Strategy

To say that no byte is lost the state remembers, as a ghost, the bytes that have been written
and those that have been delivered, both as multisets.  They balance with the bytes on the
list, from wherever the list is known (`Holding`): from `dev->data` if nobody is under way, and
otherwise from the local `ptr` of the one call that is.

* `Serial` is the invariant, with one case for each of the three situations.  A writer also has
  a node that is on no list yet.
* A call that has got past a copy goes on to the next one or returns, and then stores its
  `ptr`, so that `dev->data` is right again (`Holding.proceedRead`, `Holding.proceedWrite`).
  These two are used both when a call starts and after each copy.
* A copy moves one byte between the two sides of the balance (`Serial.copy_read`,
  `Serial.copy_write`); what it does to the list is in `Lifo.Stack`.
* Calls that have nothing to transfer may start at any time.  They return at once, and the
  store they make is none: a write of no byte, or a read that finds the counter at zero.
-/

namespace KernelTraining.Lifo

open Machine

/-- A call that waits at a copy.  A writer has the node for the byte already. -/
inductive InFlight where
  | reading (count : ℕ) (c : Cursor)
  | writing (buf : List UInt8) (c : Cursor) (new : Addr)
  deriving DecidableEq

/-- The device, the calls under way, and, as a ghost, the bytes written and the bytes
delivered so far. -/
structure Concurrent where
  state : State
  calls : List InFlight
  written : Multiset UInt8
  delivered : Multiset UInt8

/-- A call starts, or call `i` gets past its copy.  `answer` and `junk` are what the
next `kmalloc` of a writer returns and what the new node holds. -/
inductive Action where
  | read (count : ℕ)
  | write (buf : List UInt8) (answer : Option Addr) (junk : LifoNode := ⟨none, 0⟩)
  | copy (i : ℕ) (answer : Option Addr := none) (junk : LifoNode := ⟨none, 0⟩)

/-- A read on its way to the next copy: it waits there, or it is done. -/
def proceedRead (s : State) (count : ℕ) (c : Cursor) : State × Option InFlight :=
  if c.goesOn count then (s, some (.reading count c)) else (commit s c, none)

/-- A write on its way to the next copy. -/
def proceedWrite (s : State) (buf : List UInt8) (c : Cursor) (answer : Option Addr)
    (junk : LifoNode) : Except Fault (State × Option InFlight) :=
  if c.goesOn buf.length then
    match kmalloc s.heap junk [answer] with
    | (none, _, _) => .error .nullDeref
    | (some a, h, _) => .ok ({ s with heap := h }, some (.writing buf c a))
  else .ok (commit s c, none)

/-- The calls after one has started. -/
def enter (calls : List InFlight) : Option InFlight → List InFlight
  | some call => calls ++ [call]
  | none => calls

/-- The calls after call `i` has moved on. -/
def resume (calls : List InFlight) (i : ℕ) : Option InFlight → List InFlight
  | some call => calls.set i call
  | none => calls.eraseIdx i

def Concurrent.step (x : Concurrent) : Action → Except Fault Concurrent
  | .read count =>
      let (s, call) := proceedRead x.state (clampCount x.state count) (.start x.state)
      .ok { x with state := s, calls := enter x.calls call }
  | .write buf answer junk => do
      let (s, call) ← proceedWrite x.state buf (.start x.state) answer junk
      pure { x with state := s, calls := enter x.calls call }
  | .copy i answer junk =>
      match x.calls[i]? with
      | none => .ok x
      | some (.reading count c) => do
          let node ← load x.state.heap c.ptr
          let (s, c) ← consume x.state c node
          let (s, call) := proceedRead s count c
          pure { x with
            state := s
            calls := resume x.calls i call
            delivered := node.value ::ₘ x.delivered }
      | some (.writing buf c new) => do
          let byte := buf.getD c.i.toNat 0
          let (s, c) ← produce x.state c new byte
          let (s, call) ← proceedWrite s buf c answer junk
          pure { x with
            state := s
            calls := resume x.calls i call
            written := byte ::ₘ x.written }

/-- The empty device with nobody in it. -/
def Concurrent.init : Concurrent := ⟨lifoInit, [], 0, 0⟩

/-! ## What should hold -/

/-- The list from `dev->data` has `dev->fset` nodes, and it and the readers have
between them exactly the bytes written. -/
def Balanced (x : Concurrent) : Prop :=
  0 ≤ x.state.dev.fset ∧
    ∃ L ∈ visit LifoNode.next x.state.heap x.state.dev.fset.toNat x.state.dev.data,
      (L.map Prod.fst).Nodup ∧ x.written = x.delivered + (bytes L : Multiset UInt8)

/-- Once all calls have returned, no byte is lost or duplicated. -/
def Settled (x : Concurrent) : Prop := x.calls = [] → Balanced x

instance (x : Concurrent) : Decidable (Balanced x) := inferInstanceAs (Decidable (_ ∧ _))

instance (x : Concurrent) : Decidable (Settled x) := inferInstanceAs (Decidable (_ → _))

/-- A writer that has another byte after the one it waits for. -/
def InFlight.needsNode : InFlight → Bool
  | .reading _ _ => false
  | .writing buf c _ => c.i + 1 < buf.length

/-- No allocation fails, and fewer than `2^31` bytes are stored. -/
def Served (x : Concurrent) : Action → Prop
  | .read _ => True
  | .write buf answer _ => x.state.dev.fset + buf.length ≤ intMax ∧
      (buf ≠ [] → Supplied x.state.heap 1 [answer])
  | .copy i answer _ =>
      ∀ call ∈ x.calls[i]?, call.needsNode = true → Supplied x.state.heap 1 [answer]

/-- A call that has a byte to transfer starts when no other call is under way. -/
def Alone (x : Concurrent) : Action → Prop
  | .read count => x.calls = [] ∨ clampCount x.state count = 0
  | .write buf _ _ => x.calls = [] ∨ buf = []
  | .copy _ _ _ => True

instance (x : Concurrent) (act : Action) : Decidable (Served x act) := by
  cases act <;> unfold Served <;> infer_instance

instance (x : Concurrent) (act : Action) : Decidable (Alone x act) := by
  cases act <;> unfold Alone <;> infer_instance

/-! ## One call at a time -/

/-- The bytes are where they should be, the list being `L` from pointer `p` on. -/
structure Holding (x : Concurrent) (p : Option Addr) (L : Nodes) : Prop where
  stacked : Stacked x.state p L
  balance : x.written = x.delivered + (bytes L : Multiset UInt8)

/-- Nobody is under way, or one call is, with the list in its local `ptr`. -/
inductive Serial (x : Concurrent) : Prop
  | idle (L : Nodes) (calls : x.calls = []) (holding : Holding x x.state.dev.data L)
      (small : L.length < 2147483648)
  | reading (L : Nodes) (count j : ℕ) (p : Option Addr)
      (calls : x.calls = [.reading count (cursor j p)]) (holding : Holding x p L)
      (more : j < count) (left : count - j ≤ L.length) (small : L.length + j < 2147483648)
  | writing (L : Nodes) (buf : List UInt8) (j : ℕ) (p : Option Addr) (new : Addr)
      (calls : x.calls = [.writing buf (cursor j p) new]) (holding : Holding x p L)
      (more : j < buf.length) (allocated : x.state.heap.get new ≠ none)
      (fresh : new ∉ L.map Prod.fst) (small : L.length + (buf.length - j) < 2147483648)
      (short : buf.length < 2147483648)

theorem Serial.init : Serial .init :=
  .idle [] rfl ⟨.init, rfl⟩ (by decide)

theorem Serial.settled {x : Concurrent} (serial : Serial x) : Settled x := by
  intro hcalls
  cases serial with
  | idle L _ holding small =>
      have hfset := holding.stacked.fset_eq small
      obtain ⟨hvisit, hnodup⟩ := visit_eq_some_iff.mpr ⟨holding.stacked.linked, rfl⟩
      refine ⟨by omega, L, ?_, hnodup, holding.balance⟩
      rw [hfset, Int.toNat_natCast]
      exact hvisit
  | reading L count j p calls =>
      rw [hcalls] at calls
      simp at calls
  | writing L buf j p new calls =>
      rw [hcalls] at calls
      simp at calls

/-! ## The steps -/

theorem enter_nil (call : Option InFlight) : enter [] call = call.toList := by
  cases call <;> rfl

theorem resume_singleton (call : InFlight) (next : Option InFlight) :
    resume [call] 0 next = next.toList := by
  cases next <;> rfl

section Steps

variable {x : Concurrent} {p : Option Addr} {L : Nodes} {j : ℕ}

/-- A read that has delivered `j` bytes waits for the next copy, or is done. -/
theorem Holding.proceedRead (holding : Holding x p L) {count : ℕ} (hj : j ≤ count)
    (hleft : count - j ≤ L.length) (hsmall : L.length + j < 2147483648) :
    Serial { x with
      state := (proceedRead x.state count (cursor j p)).1
      calls := (proceedRead x.state count (cursor j p)).2.toList } := by
  have hgoesOn := cursor_goesOn (show j < 2147483648 by omega) p count
  unfold Lifo.proceedRead
  rw [hgoesOn]
  by_cases hmore : j < count
  · rw [decide_eq_true hmore, if_pos rfl]
    exact .reading L count j p rfl ⟨holding.stacked, holding.balance⟩ hmore hleft hsmall
  · rw [decide_eq_false hmore, if_neg Bool.false_ne_true]
    refine .idle L rfl ⟨?_, holding.balance⟩ (by omega)
    exact ⟨holding.stacked.linked, holding.stacked.fset⟩

/-- A write that has taken `j` bytes waits for the next copy, or is done. -/
theorem Holding.proceedWrite (holding : Holding x p L) {buf : List UInt8} (hj : j ≤ buf.length)
    (hsmall : L.length + (buf.length - j) < 2147483648) (hshort : buf.length < 2147483648)
    {answer : Option Addr} (hanswer : j < buf.length → Supplied x.state.heap 1 [answer])
    (junk : LifoNode) :
    ∃ s call, proceedWrite x.state buf (cursor j p) answer junk = .ok (s, call) ∧
      Serial { x with state := s, calls := call.toList } := by
  have hgoesOn := cursor_goesOn (show j < 2147483648 by omega) p buf.length
  unfold Lifo.proceedWrite
  rw [hgoesOn]
  by_cases hmore : j < buf.length
  · obtain ⟨a, rest, ha, hmalloc, -⟩ := (hanswer hmore).kmalloc junk
    rw [decide_eq_true hmore, if_pos rfl, hmalloc]
    refine ⟨_, _, rfl, .writing L buf j p a rfl ⟨?_, holding.balance⟩ hmore (by simp) ?_ hsmall
      hshort⟩
    · exact ⟨holding.stacked.linked.set_fresh ha junk, holding.stacked.fset⟩
    · exact fun hmem => holding.stacked.linked.allocated a hmem ha
  · rw [decide_eq_false hmore, if_neg Bool.false_ne_true]
    refine ⟨_, _, rfl, .idle L rfl ⟨?_, holding.balance⟩ (by omega)⟩
    exact ⟨holding.stacked.linked, holding.stacked.fset⟩

/-- A read starts, alone or without a byte to transfer. -/
theorem Serial.enter_read (serial : Serial x) {count : ℕ} (halone : Alone x (.read count)) :
    ∃ x', x.step (.read count) = .ok x' ∧ Serial x' := by
  refine ⟨_, rfl, ?_⟩
  by_cases hzero : clampCount x.state count = 0
  · rw [hzero]
    exact serial
  · have hcalls := halone.resolve_right hzero
    cases serial with
    | idle L _ holding hsmall =>
        have hle : clampCount x.state count ≤ L.length ∧ _ :=
          clampCount_le holding.stacked (.inl hsmall)
        have hnext := holding.proceedRead (Nat.zero_le _)
          (show clampCount x.state count - 0 ≤ L.length by omega) (by omega)
        rw [hcalls, enter_nil]
        exact hnext
    | reading L count j p calls =>
        rw [hcalls] at calls
        simp at calls
    | writing L buf j p new calls =>
        rw [hcalls] at calls
        simp at calls

theorem Serial.enter_write (serial : Serial x) {buf : List UInt8} {answer : Option Addr}
    {junk : LifoNode} (hserved : Served x (.write buf answer junk))
    (halone : Alone x (.write buf answer junk)) :
    ∃ x', x.step (.write buf answer junk) = .ok x' ∧ Serial x' := by
  obtain ⟨hstored, hanswer⟩ := hserved
  by_cases hnil : buf = []
  · subst hnil
    exact ⟨x, rfl, serial⟩
  · have hcalls := halone.resolve_right hnil
    cases serial with
    | idle L _ holding hsmall =>
        rw [holding.stacked.fset_eq hsmall] at hstored
        unfold intMax at hstored
        obtain ⟨s, call, hproceed, hnext⟩ := holding.proceedWrite
          (Nat.zero_le buf.length) (by omega) (by omega) (fun _ => hanswer hnil) junk
        refine ⟨{ x with state := s, calls := call.toList }, ?_, hnext⟩
        have hstart : proceedWrite x.state buf (.start x.state) answer junk = .ok (s, call) :=
          hproceed
        simp only [Concurrent.step, hstart, ok_bind, hcalls, enter_nil]
        rfl
    | reading L count j p calls =>
        rw [hcalls] at calls
        simp at calls
    | writing L buf j p new calls =>
        rw [hcalls] at calls
        simp at calls

/-- A reader gets past its copy: the first node of its list is delivered and freed. -/
theorem Serial.copy_read {count : ℕ} (hcalls : x.calls = [.reading count (cursor j p)])
    (holding : Holding x p L) (hmore : j < count) (hleft : count - j ≤ L.length)
    (hsmall : L.length + j < 2147483648) (answer : Option Addr) (junk : LifoNode) :
    ∃ x', x.step (.copy 0 answer junk) = .ok x' ∧ Serial x' := by
  cases L with
  | nil =>
      rw [List.length_nil] at hleft
      omega
  | cons entry L =>
      obtain ⟨a, node⟩ := entry
      obtain ⟨rfl, hget, -, -⟩ := holding.stacked.linked
      rw [List.length_cons] at hleft hsmall
      obtain ⟨s, hconsume, stacked, -, -⟩ :=
        consume_spec holding.stacked (show j + 1 < 2147483648 by omega)
      -- the byte moves from the stack to the reader
      have hbalance : x.written =
          (node.value ::ₘ x.delivered) + (bytes L : Multiset UInt8) := by
        rw [holding.balance, bytes_cons, ← Multiset.cons_coe, Multiset.add_cons,
          Multiset.cons_add]
      have holding' : Holding { x with state := s, delivered := node.value ::ₘ x.delivered }
          node.next L := ⟨stacked, hbalance⟩
      have hnext := holding'.proceedRead (show j + 1 ≤ count by omega) (by omega)
        (by omega)
      refine ⟨_, ?_, hnext⟩
      have hfirst : x.calls[0]? = some (.reading count (cursor j (some a))) := by
        rw [hcalls]
        rfl
      have hload : load x.state.heap (cursor j (some a)).ptr = .ok node := load_eq hget
      simp only [Concurrent.step, hfirst, hload, ok_bind, hconsume]
      rw [hcalls, resume_singleton]
      rfl

/-- A writer gets past its copy: its node becomes the first of its list. -/
theorem Serial.copy_write {buf : List UInt8} {new : Addr}
    (hcalls : x.calls = [.writing buf (cursor j p) new]) (holding : Holding x p L)
    (hmore : j < buf.length) (hallocated : x.state.heap.get new ≠ none)
    (hfresh : new ∉ L.map Prod.fst) (hsmall : L.length + (buf.length - j) < 2147483648)
    (hshort : buf.length < 2147483648) {answer : Option Addr} {junk : LifoNode}
    (hserved : Served x (.copy 0 answer junk)) :
    ∃ x', x.step (.copy 0 answer junk) = .ok x' ∧ Serial x' := by
  have hfirst : x.calls[0]? = some (.writing buf (cursor j p) new) := by
    rw [hcalls]
    rfl
  obtain ⟨s, hproduce, stacked, -, hheap⟩ := produce_spec holding.stacked hallocated hfresh
    (buf.getD j 0) (show j + 1 < 2147483648 by omega)
  have hbalance : buf.getD j 0 ::ₘ x.written =
      x.delivered + (bytes ((new, (⟨p, buf.getD j 0⟩ : LifoNode)) :: L) : Multiset UInt8) := by
    rw [holding.balance, bytes_cons, ← Multiset.cons_coe, Multiset.add_cons]
  have holding' : Holding { x with state := s, written := buf.getD j 0 ::ₘ x.written }
      (some new) ((new, ⟨p, buf.getD j 0⟩) :: L) := ⟨stacked, hbalance⟩
  -- the node for the next byte is neither the one just linked nor in use otherwise
  have hanswer : j + 1 < buf.length → Supplied s.heap 1 [answer] := fun hgoesOn => by
    have hneeds : (InFlight.writing buf (cursor j p) new).needsNode = true := by
      show decide ((j : ℤ) + 1 < buf.length) = true
      exact decide_eq_true (by omega)
    have hsupplied := hserved _ hfirst hneeds
    apply hsupplied.congr
    intro c hc
    rw [List.take_succ_cons, List.take_zero, List.mem_singleton] at hc
    rw [← hc] at hsupplied
    have hne : c ≠ new := fun heq => hallocated (heq ▸ hsupplied.1)
    rw [hheap, Heap.get_set_ne _ _ hne]
  obtain ⟨s', call, hproceed, hnext⟩ := holding'.proceedWrite
    (show j + 1 ≤ buf.length by omega) (by rw [List.length_cons]; omega) hshort hanswer junk
  refine ⟨_, ?_, hnext⟩
  have hbyte : buf.getD (cursor j p).i.toNat 0 = buf.getD j 0 := by
    rw [show (cursor j p).i.toNat = j from Int.toNat_natCast j]
  simp only [Concurrent.step, hfirst, hbyte, hproduce, ok_bind]
  rw [show proceedWrite s buf (cursor (j + 1) (some new)) answer junk = .ok (s', call) from
    hproceed, ok_bind, hcalls, resume_singleton]
  rfl

/-- **One step**, of any call. -/
theorem Serial.step (serial : Serial x) {act : Action} (hserved : Served x act)
    (halone : Alone x act) : ∃ x', x.step act = .ok x' ∧ Serial x' := by
  cases act with
  | read count => exact serial.enter_read halone
  | write buf answer junk => exact serial.enter_write hserved halone
  | copy i answer junk =>
      have hnobody : x.calls[i]? = none → ∃ x', x.step (.copy i answer junk) = .ok x' ∧
          Serial x' := fun hnone => ⟨x, by simp only [Concurrent.step, hnone], serial⟩
      cases i with
      | succ i =>
          apply hnobody
          cases serial with
          | idle _ calls => rw [calls]; rfl
          | reading _ _ _ _ calls => rw [calls]; rfl
          | writing _ _ _ _ _ calls => rw [calls]; rfl
      | zero =>
          cases serial with
          | idle L calls => exact hnobody (by rw [calls]; rfl)
          | reading L count j p calls holding more left small =>
              exact Serial.copy_read calls holding more left small answer junk
          | writing L buf j p new calls holding more allocated fresh small short =>
              exact Serial.copy_write calls holding more allocated fresh small short hserved

end Steps

/-- **No byte is lost or duplicated as long as transfers do not overlap.**  In every run,
whatever the order of the steps, whenever no call is under way the list has `dev->fset`
nodes and holds exactly the bytes that were written and not delivered. -/
theorem nothing_lost (actions : List Action)
    (hserved : EveryStep Concurrent.step Served .init actions)
    (halone : EveryStep Concurrent.step Alone .init actions) :
    EveryState Concurrent.step Settled .init actions := by
  have hserial : EveryState Concurrent.step Serial .init actions :=
    (everyStep_and.mpr ⟨hserved, halone⟩).everyState
      (fun _ _ serial h => serial.step h.1 h.2) .init
  exact hserial.mono fun _ serial => serial.settled

/-- Two bytes are written; a read of one byte follows, and a write without a byte comes
in between. -/
theorem nothing_lost_run :
    EveryState Concurrent.step Settled .init
      [.write [1, 2] (some 7), .copy 0 (some 9), .copy 0, .read 1, .write [] none, .copy 0,
        .read 0] :=
  nothing_lost _ (by decide) (by decide)

/-- Two writers that start from the same head: the second to return hides the node of
the first, which is still counted.  Two readers: the second copies from a node the
first has freed. -/
theorem overlap_loses :
    EveryStep Concurrent.step Served .init
        [.write [1] (some 7), .write [2] (some 9), .copy 0, .copy 0] ∧
      ¬ EveryState Concurrent.step Settled .init
        [.write [1] (some 7), .write [2] (some 9), .copy 0, .copy 0] ∧
      [.write [1] (some 7), .copy 0, .read 1, .read 1, .copy 0, .copy 0].foldlM
        Concurrent.step .init = .error .badAccess :=
  ⟨by decide, by decide, rfl⟩

end KernelTraining.Lifo
