import KernelTraining.Scull.Locate
import KernelTraining.Scull.Quantum
import Mathlib.Tactic.NormNum

/-!
# What a read and a write do to the layout

The locked sections of `scull_read` and `scull_write`, run with the parameters of
the device itself, as operations on the layout: a read is a function of it
(`scullReadLocked_eq`), and a write runs out of memory or changes one quantum
(`scullWriteLocked_spec`).  Everything that is said of runs is derived from these two and
from `scullTrim_spec`.

## Strategy

A section is a chain of steps, each of which has its lemma: the split of the position, the
walk to the item, the pointer array, the quantum, the copy.  Three things do not fit in that
chain.

* **Positions past the reach of `int`.**  Their item number goes round, and the transfer
  takes place in a quantum that has nothing to do with them, but still within that quantum.
  So the lemmas speak of the item and the quantum a position is looked for in
  (`Geometry.itemAt`, `Geometry.quantumAt`), and hold for every position;
  `Geometry.Reaches` says when these are the right ones.
* **Reads that append.**  `scull_read` calls `scull_follow` too, and would append items if
  the list were too short.  `scullReadLocked_spec` makes no assumption on the list: the
  reply is the one of the old layout (`SameReply`), whatever has been appended.  Where the
  list is known to be long enough, `scullReadLocked_eq` is simpler.
* **When there is memory.**  A write needs up to three sorts of block.  `Layout.missing`
  counts them, and a write runs out of memory exactly if the allocator does not supply that
  many.  `missingAt` is the same number as somebody finds it who looks at the heap, so that
  theorems about calls can say when a write fails without mentioning a layout
  (`Owns.missingAt_eq`).

`Written` has the outcomes of a write; `copyIn_spec` is its end, from the quantum on.
-/

namespace KernelTraining.Scull

open Machine

variable {G : Geometry} {h : Heap Block} {dev : ScullDev} {L : Layout G}

/-- The bytes from a position to the end of its quantum. -/
def Geometry.room (G : Geometry) (p : ℕ) : ℕ := G.quantum - p % G.quantum

theorem Geometry.room_pos (G : Geometry) (p : ℕ) : 0 < G.room p := by
  have := Nat.mod_lt p G.quantum_pos
  unfold Geometry.room
  omega

theorem Geometry.room_le (G : Geometry) (p : ℕ) : p % G.quantum + G.room p = G.quantum := by
  have := Nat.mod_lt p G.quantum_pos
  unfold Geometry.room
  omega

theorem Geometry.le_quantum (G : Geometry) (p n : ℕ) :
    p % G.quantum + min n (G.room p) ≤ G.quantum := by
  have := G.room_le p
  omega

/-- The item of `p` reaches at least to the end of the quantum of `p`. -/
theorem Geometry.add_room_le (G : Geometry) (p : ℕ) :
    p + G.room p ≤ (p / G.itemsize + 1) * G.itemsize := by
  have hroom := G.room_le p
  have hp := Nat.div_add_mod p G.quantum
  have hend : p + G.room p = G.quantum * (p / G.quantum + 1) := by
    rw [Nat.mul_succ]
    omega
  have hquantum : p / G.quantum + 1 ≤ G.qset * (p / G.itemsize + 1) := by
    have hq := Nat.div_add_mod (p / G.quantum) G.qset
    have hlt := Nat.mod_lt (p / G.quantum) G.qset_pos
    rw [G.div_itemsize, Nat.mul_succ]
    omega
  calc p + G.room p = G.quantum * (p / G.quantum + 1) := hend
    _ ≤ G.quantum * (G.qset * (p / G.itemsize + 1)) := Nat.mul_le_mul_left _ hquantum
    _ = (p / G.itemsize + 1) * G.itemsize := by
      rw [Geometry.itemsize, ← Nat.mul_assoc, Nat.mul_comm]

/-- A transfer within one quantum ends within the item of its position. -/
theorem Geometry.end_le (G : Geometry) {p n items : ℕ} (hn : n ≤ G.room p)
    (hitems : p / G.itemsize < items) : p + n ≤ items * G.itemsize :=
  calc p + n ≤ p + G.room p := Nat.add_le_add_left hn p
    _ ≤ (p / G.itemsize + 1) * G.itemsize := G.add_room_le p
    _ ≤ items * G.itemsize := Nat.mul_le_mul_right _ hitems

theorem clampToQuantum_eq (G : Geometry) (p count : ℕ) :
    clampToQuantum count G.quantum ((p % G.quantum : ℕ) : ℤ) = min count (G.room p) := by
  have hlt := Nat.mod_lt p G.quantum_pos
  have hquantum : G.quantum ≤ 2147483647 := G.quantum_le.trans G.itemsize_le
  have hroom : toULong ((G.quantum : ℤ) - ((p % G.quantum : ℕ) : ℤ)) = G.room p := by
    unfold Geometry.room
    rw [toULong_eq (by omega) (by omega)]
    omega
  rw [clampToQuantum, hroom]
  split_ifs <;> omega

/-- "not beyond the end of the device", for a position before the end. -/
theorem clampToSize_eq {size p count : ℕ} (hp : p + count < 9223372036854775808)
    (hend : ¬ size ≤ p) :
    (if size < toULong ((p : ℤ) + count) then toULong ((size : ℤ) - p) else count) =
      min count (size - p) := by
  rw [← Nat.cast_add, toULong_natCast (by omega)]
  split_ifs with hpast
  · rw [toULong_eq (by omega) (by omega)]
    omega
  · omega

theorem wrap64_natCast_add {p n : ℕ} (h : p + n < 9223372036854775808) :
    wrap64 ((p : ℤ) + n) = ((p + n : ℕ) : ℤ) := by
  rw [← Nat.cast_add]
  exact wrap64_eq (by omega) (by omega)

/-! ## Where a position is looked for

Past the reach of `int` that is some other item: such a transfer takes place in a
quantum its position has nothing to do with, but still within that quantum. -/

/-- The item a position is looked for in. -/
def Geometry.itemAt (G : Geometry) (p : ℕ) : ℕ := toUInt (wrap32 ((p / G.itemsize : ℕ) : ℤ))

/-- The quantum a position is looked for in. -/
def Geometry.quantumAt (G : Geometry) (p : ℕ) : ℕ :=
  G.itemAt p * G.qset + p / G.quantum % G.qset

theorem Geometry.quantumAt_div (G : Geometry) (p : ℕ) : G.quantumAt p / G.qset = G.itemAt p :=
  Layout.entry_div (Nat.mod_lt _ G.qset_pos)

theorem Geometry.quantumAt_mod (G : Geometry) (p : ℕ) :
    G.quantumAt p % G.qset = p / G.quantum % G.qset := by
  rw [Geometry.quantumAt, Nat.mul_comm, Nat.mul_add_mod, Nat.mod_mod]

/-- Two positions are looked for in the same quantum if the split finds the same item and
the same entry. -/
theorem Geometry.quantumAt_inj (G : Geometry) {p r : ℕ} :
    G.quantumAt p = G.quantumAt r ↔
      wrap32 ((p / G.itemsize : ℕ) : ℤ) = wrap32 ((r / G.itemsize : ℕ) : ℤ) ∧
        p / G.quantum % G.qset = r / G.quantum % G.qset := by
  constructor
  · intro heq
    have hitem : G.itemAt p = G.itemAt r := by
      rw [← G.quantumAt_div, heq, G.quantumAt_div]
    have hentry : p / G.quantum % G.qset = r / G.quantum % G.qset := by
      rw [← G.quantumAt_mod, heq, G.quantumAt_mod]
    exact ⟨toUInt_wrap32_inj.mp hitem, hentry⟩
  · rintro ⟨hitem, hentry⟩
    rw [Geometry.quantumAt, Geometry.quantumAt, Geometry.itemAt, Geometry.itemAt, hitem, hentry]

theorem Geometry.Reaches.itemAt {p : ℕ} (h : G.Reaches p) : G.itemAt p = p / G.itemsize := by
  rw [Geometry.itemAt, wrap32_item h, toUInt_item h]

theorem Geometry.Reaches.quantumAt {p : ℕ} (h : G.Reaches p) : G.quantumAt p = p / G.quantum := by
  rw [Geometry.quantumAt, h.itemAt, G.div_itemsize, Nat.mul_comm, Nat.div_add_mod]

/-! ## Reading -/

/-- A read of `count` bytes at position `p`. -/
def Layout.readOut (L : Layout G) (h : Heap Block) (dev : ScullDev) (count p : ℕ) (env : Env) :
    Out :=
  if dev.size ≤ p then ⟨0, p, [], dev, h⟩
  else
    match L.slot (G.quantumAt p) with
    | none => ⟨0, p, [], dev, h⟩
    | some (_, bytes) =>
        let n := min (min count (dev.size - p)) (G.room p)
        let (copied, left) := copyToUser ((bytes.drop (p % G.quantum)).take n) env.fault
        if left ≠ 0 then ⟨-EFAULT, p, copied, dev, h⟩ else ⟨n, ((p + n : ℕ) : ℤ), copied, dev, h⟩

/-- A read leaves the device and the heap alone and moves the position by at most
the count. -/
theorem Layout.readOut_frame (L : Layout G) (h : Heap Block) (dev : ScullDev) (count p : ℕ)
    (env : Env) :
    (L.readOut h dev count p env).dev = dev ∧ (L.readOut h dev count p env).heap = h ∧
      ∃ n ≤ count, (L.readOut h dev count p env).fPos = ((p + n : ℕ) : ℤ) := by
  unfold Layout.readOut
  split_ifs with hend
  · exact ⟨rfl, rfl, 0, Nat.zero_le _, rfl⟩
  cases L.slot (G.quantumAt p) with
  | none => exact ⟨rfl, rfl, 0, Nat.zero_le _, rfl⟩
  | some q =>
      dsimp only
      split_ifs
      · exact ⟨rfl, rfl, 0, Nat.zero_le _, rfl⟩
      · exact ⟨rfl, rfl, _, (Nat.min_le_left _ _).trans (Nat.min_le_left _ _), rfl⟩

/-- The locked section of `scull_read` once `scull_follow` has found the item. -/
theorem scullReadLocked_of_follow {h' : Heap Block} {dev' : ScullDev} {L' : Layout G}
    {rest : List (Option Addr)} {dptr : Addr} {count p : ℕ} {env : Env}
    (hp : p + count < 9223372036854775808) (hend : ¬ dev.size ≤ p)
    (hfollow : scullFollow h dev (wrap32 ((p / G.itemsize : ℕ) : ℤ)) env.answers =
      .ok (some dptr, dev', h', rest))
    (owns : Owns h' dev' L') (hsize : dev'.size = dev.size)
    (hdptr : L'.nodes[G.itemAt p]? = some dptr) :
    scullReadLocked G.quantum G.qset h dev count p env = .ok (L'.readOut h' dev' count p env) := by
  simp only [scullReadLocked, Layout.readOut, toULong_natCast (show p < _ by omega), hsize,
    if_neg hend, locate_eq, ok_bind, hfollow, loadQset_eq (owns.node hdptr)]
  cases hdata : L'.array (G.itemAt p) with
  | none =>
      rw [Layout.slot_eq_none_of_array (by rw [G.quantumAt_div, hdata])]
      rfl
  | some data =>
      have hentry : (L'.entries (G.itemAt p))[p / G.quantum % G.qset]? =
          some ((L'.slot (G.quantumAt p)).map Prod.fst) :=
        Layout.getElem?_entries _ _ (Nat.mod_lt _ G.qset_pos)
      simp only [loadPtrs_eq (owns.array hdata), ok_bind, index_eq rfl hentry]
      cases hslot : L'.slot (G.quantumAt p) with
      | none => rfl
      | some q =>
          obtain ⟨q, bytes⟩ := q
          have hlength := L'.slot_length hslot
          have hfits : p % G.quantum + min (min count (dev.size - p)) (G.room p) ≤
              bytes.length := by
            rw [hlength]
            exact G.le_quantum p _
          have hpos : p + min (min count (dev.size - p)) (G.room p) < 9223372036854775808 := by
            have := (Nat.min_le_left (min count (dev.size - p)) (G.room p)).trans
              (Nat.min_le_left _ _)
            omega
          simp only [Option.map_some, clampToQuantum_eq, clampToSize_eq hp hend,
            loadQuantum_eq (owns.slot hslot),
            ok_bind, window_eq rfl hfits, wrap64_natCast_add hpos]
          split_ifs <;> rfl

/-- What a caller sees of a read: the return value, the bytes and the position. -/
structure SameReply (out out' : Out) : Prop where
  retval : out.retval = out'.retval
  copied : out.copied = out'.copied
  fPos : out.fPos = out'.fPos

theorem SameReply.symm {out out' : Out} (same : SameReply out out') : SameReply out' out :=
  ⟨same.retval.symm, same.copied.symm, same.fPos.symm⟩

theorem SameReply.trans {out out' out'' : Out} (first : SameReply out out')
    (second : SameReply out' out'') : SameReply out out'' :=
  ⟨first.retval.trans second.retval, first.copied.trans second.copied,
    first.fPos.trans second.fPos⟩

/-- The reply depends on one quantum and the size only. -/
theorem Layout.readOut_sameReply {L' : Layout G} {dev' : ScullDev} {p : ℕ}
    (hslot : L'.slot (G.quantumAt p) = L.slot (G.quantumAt p)) (hsize : dev'.size = dev.size)
    (h' : Heap Block) (count : ℕ) (env : Env) :
    SameReply (L'.readOut h' dev' count p env) (L.readOut h dev count p env) := by
  unfold Layout.readOut
  rw [hslot, hsize]
  split_ifs with hend
  · exact ⟨rfl, rfl, rfl⟩
  cases L.slot (G.quantumAt p) with
  | none => exact ⟨rfl, rfl, rfl⟩
  | some q =>
      dsimp only
      split_ifs <;> exact ⟨rfl, rfl, rfl⟩

/-- A position past the end of the list has no quantum. -/
theorem Layout.slot_eq_none_of_length_le {p : ℕ} (hlength : L.nodes.length ≤ G.itemAt p) :
    L.slot (G.quantumAt p) = none := by
  apply Layout.slot_eq_none_of_array
  rw [G.quantumAt_div]
  by_contra harray
  have := L.array_lt harray
  omega

/-- **The locked section of `scull_read` stays in bounds**, whatever the position:
the list may grow, nothing else changes, and the reply is what the layout holds. -/
theorem scullReadLocked_spec (owns : Owns h dev L) {count p : ℕ}
    (hp : p + count < 9223372036854775808) (env : Env) :
    ∃ out, ∃ L' : Layout G,
      scullReadLocked dev.quantum dev.qset h dev count p env = .ok out ∧
      Owns out.heap out.dev L' ∧ Frame h L.blocks out.heap L'.blocks ∧ Grown L L' ∧
      out.dev.size = dev.size ∧ (∃ n ≤ count, out.fPos = ((p + n : ℕ) : ℤ)) ∧
      SameReply out (L.readOut h dev count p env) := by
  rw [owns.quantum, owns.qset]
  by_cases hend : dev.size ≤ p
  · have hread : L.readOut h dev count p env = ⟨0, p, [], dev, h⟩ := if_pos hend
    refine ⟨⟨0, p, [], dev, h⟩, L, ?_, owns, .refl h _, .refl L, rfl, ⟨0, Nat.zero_le _, rfl⟩, ?_⟩
    · simp only [scullReadLocked, toULong_natCast (show p < _ by omega), if_pos hend]
      rfl
    · rw [hread]
      exact ⟨rfl, rfl, rfl⟩
  obtain ⟨dptr, dev', h', rest, L', hfollow, owns', hsize, grown, frame, harrived, -⟩ :=
    scullFollow_spec owns (wrap32 ((p / G.itemsize : ℕ) : ℤ)) env.answers
  cases dptr with
  | none =>
      have hslot : L.slot (G.quantumAt p) = none :=
        Layout.slot_eq_none_of_length_le (grown.length_le.trans harrived)
      refine ⟨⟨0, p, [], dev', h'⟩, L', ?_, owns', frame, grown, hsize, ⟨0, Nat.zero_le _, rfl⟩, ?_⟩
      · simp only [scullReadLocked, toULong_natCast (show p < _ by omega), if_neg hend, locate_eq,
          ok_bind, hfollow]
        rfl
      · rw [Layout.readOut, if_neg hend, hslot]
        exact ⟨rfl, rfl, rfl⟩
  | some dptr =>
      have hread := scullReadLocked_of_follow hp hend hfollow owns' hsize harrived.1
      obtain ⟨hdev, hheap, hfPos⟩ := L'.readOut_frame h' dev' count p env
      refine ⟨_, L', hread, ?_, ?_, grown, ?_, hfPos,
        Layout.readOut_sameReply (congrFun grown.slot _) hsize h' count env⟩
      · rw [hdev, hheap]
        exact owns'
      · rw [hheap]
        exact frame
      · rw [hdev, hsize]

/-- **The locked section of `scull_read`.**  As long as the list is long enough for
the data, a read changes nothing and returns what the layout holds. -/
theorem scullReadLocked_eq (owns : Owns h dev L) (hsize : dev.size ≤ L.nodes.length * G.itemsize)
    {p count : ℕ} (hreach : p < dev.size → G.Reaches p) (hp : p + count < 9223372036854775808)
    (env : Env) :
    scullReadLocked dev.quantum dev.qset h dev count p env =
      .ok (L.readOut h dev count p env) := by
  rw [owns.quantum, owns.qset]
  by_cases hend : dev.size ≤ p
  · simp only [scullReadLocked, Layout.readOut, toULong_natCast (show p < _ by omega), if_pos hend]
    rfl
  have hitem : p / G.itemsize < L.nodes.length :=
    (Nat.div_lt_iff_lt_mul G.itemsize_pos).mpr (by omega)
  have hdptr : L.nodes[G.itemAt p]? = some L.nodes[p / G.itemsize] := by
    rw [(hreach (not_le.mp hend)).itemAt, List.getElem?_eq_getElem hitem]
  exact scullReadLocked_of_follow hp hend (scullFollow_eq owns hdptr env.answers) owns rfl hdptr

/-! ## Writing -/

/-- The outcome of a write of `buf` at position `p`: there was no memory, and no
quantum was touched, or the quantum of the position, which may be new, took in as
much of the buffer as fits its end. -/
inductive Written (L L' : Layout G) (dev : ScullDev) (buf : List UInt8) (p : ℕ) (env : Env)
    (out : Out) : Prop
  | noMemory (retval : out.retval = -ENOMEM) (fPos : out.fPos = p)
      (size : out.dev.size = dev.size) (slot : L'.slot = L.slot)
  | copied (a : Addr) (old : List UInt8)
      (before : L.slot (G.quantumAt p) = some (a, old) ∨
        L.slot (G.quantumAt p) = none ∧ old = freshQuantum G.quantum env.junk)
      (slot : L'.slot = Function.update L.slot (G.quantumAt p) (some (a,
        (copyFromUser old (p % G.quantum) (buf.take (min buf.length (G.room p))) env.fault).1)))
      (reached : G.itemAt p < L'.nodes.length)
      (result :
        if (copyFromUser old (p % G.quantum) (buf.take (min buf.length (G.room p)))
            env.fault).2 = 0 then
          out.retval = (min buf.length (G.room p) : ℕ) ∧
            out.fPos = (p + min buf.length (G.room p) : ℕ) ∧
            out.dev.size = max dev.size (p + min buf.length (G.room p))
        else out.retval = -EFAULT ∧ out.fPos = p ∧ out.dev.size = dev.size)

/-- The quantum a write copies into has its full length, whether it was there or is new. -/
theorem Layout.length_of_before {g : ℕ} {a : Addr} {old : List UInt8} {junk : ℕ → UInt8}
    (hbefore : L.slot g = some (a, old) ∨ L.slot g = none ∧ old = freshQuantum G.quantum junk) :
    old.length = G.quantum := by
  rcases hbefore with hslot | ⟨-, rfl⟩
  · exact L.slot_length hslot
  · simp [freshQuantum]

theorem Written.fPos_eq {L' : Layout G} {buf : List UInt8} {p : ℕ} {env : Env} {out : Out}
    (written : Written L L' dev buf p env out) : ∃ n : ℕ, out.fPos = ((p + n : ℕ) : ℤ) := by
  cases written with
  | noMemory _ hfPos => exact ⟨0, hfPos⟩
  | copied _ _ _ _ _ hresult =>
      split_ifs at hresult
      · exact ⟨_, hresult.2.1⟩
      · exact ⟨0, hresult.2.1⟩

/-- A write within reach and without a bad user page: there was no memory, or all bytes
up to the end of the quantum have been stored. -/
theorem Written.of_no_fault {L' : Layout G} {buf : List UInt8} {p : ℕ} {env : Env} {out : Out}
    (written : Written L L' dev buf p env out) (hreach : G.Reaches p)
    (hfault : env.fault = none) :
    (out.retval = -ENOMEM ∧ out.fPos = p ∧ out.dev.size = dev.size ∧ L'.slot = L.slot) ∨
      ∃ n, n = min buf.length (G.room p) ∧ (n = 0 → buf = []) ∧
        out.retval = n ∧ out.fPos = ((p + n : ℕ) : ℤ) ∧ out.dev.size = max dev.size (p + n) ∧
        p / G.itemsize < L'.nodes.length ∧
        ∃ a old, (L.slot (p / G.quantum) = some (a, old) ∨ L.slot (p / G.quantum) = none) ∧
          old.length = G.quantum ∧
          L'.slot = Function.update L.slot (p / G.quantum)
            (some (a, patch old (p % G.quantum) (buf.take n))) := by
  cases written with
  | noMemory hretval hfPos hsize hslot => exact .inl ⟨hretval, hfPos, hsize, hslot⟩
  | copied a old hbefore hslot hreached hresult =>
      have hpos := G.room_pos p
      rw [hreach.quantumAt] at hbefore hslot
      rw [hreach.itemAt] at hreached
      rw [hfault] at hslot hresult
      simp only [copyFromUser_none, if_true] at hslot hresult
      obtain ⟨hretval, hfPos, hsize⟩ := hresult
      exact .inr ⟨_, rfl, fun hzero => List.eq_nil_of_length_eq_zero (by omega), hretval, hfPos,
        hsize, hreached, a, old, hbefore.imp_right And.left, Layout.length_of_before hbefore,
        hslot⟩

/-- The allocations it takes to have the quantum a position is looked for in. -/
def Layout.missing (L : Layout G) (p : ℕ) : ℕ :=
  G.itemAt p + 1 - L.nodes.length +
    (lacking (L.array (G.itemAt p)) + lacking (L.slot (G.quantumAt p)))

theorem lacking_map {β γ : Type*} (f : β → γ) (o : Option β) : lacking (o.map f) = lacking o := by
  cases o <;> rfl

/-- The same as a reader of the heap finds it. -/
def missingAt (h : Heap Block) (dev : ScullDev) (p : ℕ) : ℕ :=
  let quantum := dev.quantum.toNat
  let qset := dev.qset.toNat
  let item := toUInt (wrap32 ((p / (quantum * qset) : ℕ) : ℤ))
  let data := (items h h.card dev.data)[item]?.bind ScullQset.data
  let entry := (data.bind (ptrsAt h)).bind fun entries => entries[p / quantum % qset]?.join
  item + 1 - (items h h.card dev.data).length + (lacking data + lacking entry)

/-- The pointer array of an item, found from the device. -/
theorem Owns.items_bind_data (owns : Owns h dev L) (i : ℕ) :
    (items h h.card dev.data)[i]?.bind ScullQset.data = L.array i := by
  rw [owns.getElem?_items_card]
  cases hnode : L.nodes[i]? with
  | some a => rfl
  | none =>
      have hend := List.getElem?_eq_none_iff.mp hnode
      have harray : L.array i = none := by
        by_contra hne
        have := L.array_lt hne
        omega
      simp [harray]

/-- The quantum a position is looked for in, found from the pointer array. -/
theorem Owns.array_bind_entry (owns : Owns h dev L) (p : ℕ) :
    ((L.array (G.itemAt p)).bind (ptrsAt h)).bind
      (fun entries => entries[p / G.quantum % G.qset]?.join) =
      (L.slot (G.quantumAt p)).map Prod.fst := by
  cases harray : L.array (G.itemAt p) with
  | none =>
      rw [Layout.slot_eq_none_of_array (by rw [G.quantumAt_div, harray])]
      rfl
  | some a =>
      have hget : (L.entries (G.itemAt p))[p / G.quantum % G.qset]? =
          some ((L.slot (G.quantumAt p)).map Prod.fst) :=
        Layout.getElem?_entries _ _ (Nat.mod_lt _ G.qset_pos)
      simp [owns.ptrsAt_eq harray, hget]

theorem Owns.length_items (owns : Owns h dev L) :
    (items h h.card dev.data).length = L.nodes.length := by
  have hsame : ∀ j, (items h h.card dev.data).length ≤ j ↔ L.nodes.length ≤ j := fun j => by
    rw [← List.getElem?_eq_none_iff, ← List.getElem?_eq_none_iff, owns.getElem?_items_card,
      Option.map_eq_none_iff]
  exact le_antisymm ((hsame _).mpr le_rfl) ((hsame _).mp le_rfl)

theorem Owns.missingAt_eq (owns : Owns h dev L) (p : ℕ) : missingAt h dev p = L.missing p := by
  rw [missingAt, owns.quantum, owns.qset, Int.toNat_natCast, Int.toNat_natCast]
  change G.itemAt p + 1 - _ + (lacking ((items h h.card dev.data)[G.itemAt p]?.bind _) +
    lacking ((((items h h.card dev.data)[G.itemAt p]?.bind _).bind _).bind _)) = _
  rw [owns.length_items, owns.items_bind_data, owns.array_bind_entry, lacking_map, Layout.missing]

/-- The end of `scull_write`, from the quantum on: the copy of `n` bytes to offset `off`, and the
size and the position after it. -/
theorem copyIn_spec (owns : Owns h dev L) {g : ℕ} {a : Addr} {old : List UInt8}
    (hslot : L.slot g = some (a, old)) {p off n : ℕ} {buf : List UInt8}
    (hp : p + buf.length < 9223372036854775808) (hn : n ≤ buf.length)
    (hoff : off + n ≤ G.quantum) (fault : Option ℕ) :
    ∃ out : Out, ∃ L' : Layout G,
      (do
        let bytes ← loadQuantum h (some a)
        let off ← window bytes off n
        let (bytes, left) := copyFromUser bytes off (buf.take n) fault
        let h ← store h a (.quantum bytes)
        if left ≠ 0 then pure ⟨-EFAULT, p, [], dev, h⟩
        else
          let fPos := wrap64 ((p : ℤ) + n)
          let dev :=
            if dev.size < toULong fPos then { dev with size := toULong fPos } else dev
          pure ⟨n, fPos, [], dev, h⟩ : Except Fault Out) = .ok out ∧
      out.copied = [] ∧ Owns out.heap out.dev L' ∧ Frame h L.blocks out.heap L'.blocks ∧
      L'.nodes = L.nodes ∧
      L'.slot = Function.update L.slot g
        (some (a, (copyFromUser old off (buf.take n) fault).1)) ∧
      if (copyFromUser old off (buf.take n) fault).2 = 0 then
        out.retval = n ∧ out.fPos = (p + n : ℕ) ∧ out.dev.size = max dev.size (p + n)
      else out.retval = -EFAULT ∧ out.fPos = p ∧ out.dev.size = dev.size := by
  have hlength := L.slot_length hslot
  have hfits : off + n ≤ old.length := hlength ▸ hoff
  have htake : (buf.take n).length = n := List.length_take_of_le hn
  set copy := copyFromUser old off (buf.take n) fault with hcopy
  have hlength' : copy.1.length = G.quantum := by
    rw [hcopy, length_copyFromUser _ (by rw [htake]; exact hfits), hlength]
  obtain ⟨L', owns', frame, hnodes, hslot'⟩ := owns.exists_setBytes hslot hlength'
  have hpos : p + n < 9223372036854775808 := by omega
  simp only [loadQuantum_eq (owns.slot hslot), ok_bind, window_eq rfl hfits, ← hcopy,
    store_eq (owns.slot hslot), wrap64_natCast_add hpos, toULong_natCast (hpos.trans (by norm_num))]
  by_cases hleft : copy.2 = 0
  · rw [if_neg (not_not.mpr hleft)]
    simp only [if_pos hleft]
    refine ⟨_, L', rfl, rfl, ?_, frame, hnodes, hslot', rfl, rfl, ?_⟩
    · show Owns _ (if _ then _ else _) L'
      split_ifs
      · exact owns'.with_size _
      · exact owns'
    · show (if dev.size < p + n then { dev with size := p + n } else dev).size =
        max dev.size (p + n)
      split_ifs with hgrow
      · exact (Nat.max_eq_right hgrow.le).symm
      · exact (Nat.max_eq_left (not_lt.mp hgrow)).symm
  · rw [if_pos hleft]
    simp only [if_neg hleft]
    exact ⟨_, L', rfl, rfl, owns', frame, hnodes, hslot', rfl, rfl, rfl⟩

/-- **The locked section of `scull_write`.**  It runs out of memory exactly when the
allocator does not supply what is missing. -/
theorem scullWriteLocked_spec (owns : Owns h dev L) {p : ℕ} (buf : List UInt8)
    (hp : p + buf.length < 9223372036854775808) (env : Env) :
    ∃ out, ∃ L' : Layout G,
      scullWriteLocked dev.quantum dev.qset h dev buf p env = .ok out ∧ out.copied = [] ∧
      Owns out.heap out.dev L' ∧ Frame h L.blocks out.heap L'.blocks ∧
      L.nodes.length ≤ L'.nodes.length ∧ Written L L' dev buf p env out ∧
      (out.retval ≠ -ENOMEM ↔ Supplied h (L.missing p) env.answers) := by
  obtain ⟨dptr, dev₁, h₁, rest₁, L₁, hfollow, owns₁, hsize₁, grown, frame₁, harrived, hnodes⟩ :=
    scullFollow_spec owns (wrap32 ((p / G.itemsize : ℕ) : ℤ)) env.answers
  change Arrived L L₁ (G.itemAt p) dptr at harrived
  specialize hnodes (lacking (L.array (G.itemAt p)) + lacking (L.slot (G.quantumAt p)))
  change Supplied h (L.missing p) env.answers ↔ _ at hnodes
  rw [owns.quantum, owns.qset]
  simp only [scullWriteLocked, locate_eq, ok_bind, hfollow]
  -- each of the three allocations can end the call with `-ENOMEM`
  cases dptr with
  | none =>
      exact ⟨_, L₁, rfl, rfl, owns₁, frame₁, grown.length_le, .noMemory rfl rfl hsize₁ grown.slot,
        iff_of_false (fun h => h rfl) fun h => (hnodes.mp h).1 rfl⟩
  | some dptr =>
      rw [and_iff_right (Option.some_ne_none dptr)] at hnodes
      obtain ⟨data, h₂, rest₂, L₂, harray, owns₂, frame₂, added₂, hdata, harrays⟩ :=
        ensureArray_spec owns₁ harrived.1 rest₁
      specialize harrays (lacking (L.slot (G.quantumAt p)))
      rw [grown.array, ← hnodes] at harrays
      have hslot₂ : L₂.slot = L.slot := added₂.slot.trans grown.slot
      have hlength₂ : L.nodes.length ≤ L₂.nodes.length := by
        rw [added₂.nodes]
        exact grown.length_le
      rw [owns₁.qset] at harray
      simp only [harray, ok_bind]
      cases data with
      | none =>
          exact ⟨_, L₂, rfl, rfl, owns₂, frame₁.trans frame₂, hlength₂,
            .noMemory rfl rfl hsize₁ hslot₂,
            iff_of_false (fun h => h rfl) fun h => (harrays.mp h).1 rfl⟩
      | some data =>
          rw [and_iff_right (Option.some_ne_none data)] at harrays
          obtain ⟨q, h₃, rest₃, L₃, hquantum, owns₃, frame₃, added₃, hq, hquanta⟩ :=
            ensureQuantum_spec owns₂ (g := G.quantumAt p) (by rw [G.quantumAt_div, hdata])
              env.junk rest₂
          specialize hquanta 0
          rw [hslot₂, Nat.add_zero, ← harrays, Supplied, and_true] at hquanta
          have hlength₃ : L.nodes.length ≤ L₃.nodes.length := by rwa [added₃.nodes]
          have frame₁₃ := (frame₁.trans frame₂).trans frame₃
          rw [owns₂.quantum, G.quantumAt_mod] at hquantum
          simp only [hquantum, ok_bind]
          cases q with
          | none =>
              have hnone : L₃.slot (G.quantumAt p) = none := Option.map_eq_none_iff.mp hq
              exact ⟨_, L₃, rfl, rfl, owns₃, frame₁₃, hlength₃,
                .noMemory rfl rfl hsize₁ ((added₃.slot_eq_of_none hnone).trans hslot₂),
                iff_of_false (fun h => h rfl) fun h => hquanta.mp h rfl⟩
          | some q =>
              obtain ⟨⟨a, old⟩, hslot₃, rfl⟩ := Option.map_eq_some_iff.mp hq
              obtain ⟨out, L₄, hrun, hcopied, owns₄, frame₄, hnodes₄, hslot₄, hresult⟩ :=
                copyIn_spec owns₃ hslot₃ hp (Nat.min_le_left _ _) (G.le_quantum p _) env.fault
              rw [added₃.update_slot, hslot₂] at hslot₄
              have hbefore := added₃.before hslot₃
              rw [hslot₂] at hbefore
              have hreached : G.itemAt p < L₄.nodes.length := by
                have := (List.getElem?_eq_some_iff.mp harrived.1).1
                rwa [hnodes₄, added₃.nodes, added₂.nodes]
              rw [hsize₁] at hresult
              have henough : out.retval ≠ -ENOMEM := by
                split_ifs at hresult with hleft
                · rw [hresult.1]
                  unfold ENOMEM
                  omega
                · rw [hresult.1]
                  decide
              simp only [clampToQuantum_eq]
              exact ⟨out, L₄, hrun, hcopied, owns₄, frame₁₃.trans frame₄, by rwa [hnodes₄],
                .copied a old hbefore hslot₄ hreached hresult,
                iff_of_true henough (hquanta.mpr (Option.some_ne_none a))⟩

end KernelTraining.Scull
