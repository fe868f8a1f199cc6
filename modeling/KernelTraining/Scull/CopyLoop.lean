import KernelTraining.Machine.UserLoop
import KernelTraining.Scull.Sparse

/-!
# Copying in and out

A program writes bytes to a trimmed device, in chunks of its choice, and then reads them
back, in chunks of its choice.  The driver cuts every transfer at the end of a quantum, so
how many calls it takes depends on the geometry.  What is copied does not
(`copy_in_copy_out`), and every call moves at least one byte, so that the programs come to an
end.

The two loops are programs of their own (`writeAll`, `readAll`), which look at the return
values only.  Each has an invariant that says how far it has got:

* a writer that has `p` bytes behind it has left the first `p` bytes on the device, and
  nothing else is known of the device (`Writer.Sound`);
* a reader that has `p` bytes behind it has got the first `p` bytes (`Reader.Sound`).

One round keeps it and moves by at least one byte (`Writer.Sound.write`,
`Reader.Sound.read`), by the contract of a single device.  The number of bytes left is what
the loops end by (`writeAll_ends`, `readAll_ends`).

The bytes fit into as many items as an `int` can count, since there are fewer than `2^31` of
them (`Geometry.reaches_of_le`); and `WellSupplied` has the allocator ready for each write,
whose needs depend on what is there already.
-/

namespace KernelTraining.Scull

open Machine Abstract

/-! ## The two programs -/

/-- The device, the position of the descriptor, and the bytes not yet accepted. -/
structure Writer where
  heap : Heap Block
  dev : ScullDev
  fPos : ℤ
  rest : List UInt8

/-- One round of the writing program, which offers `chunk i` bytes, or all that are left.
It gives up on an error. -/
def writeRound (chunk : ℕ → ℕ) (env : ℕ → Env) (i : ℕ) (w : Writer) :
    Except Fault (Writer ⊕ Writer) :=
  if w.rest = [] then .ok (.inr w)
  else do
    let out ← scullWrite w.heap w.dev (w.rest.take (chunk i)) w.fPos (env i)
    if out.retval < 0 then pure (.inr ⟨out.heap, out.dev, out.fPos, w.rest⟩)
    else pure (.inl ⟨out.heap, out.dev, out.fPos, w.rest.drop out.retval.toNat⟩)

/-- The device, the position of the descriptor, and the bytes delivered so far. -/
structure Reader where
  heap : Heap Block
  dev : ScullDev
  fPos : ℤ
  got : List UInt8

/-- One round of the reading program, which asks for `count i` bytes.  It stops when a
call returns none. -/
def readRound (count : ℕ → ℕ) (env : ℕ → Env) (i : ℕ) (r : Reader) :
    Except Fault (Reader ⊕ ℤ × Reader) := do
  let out ← scullRead r.heap r.dev (count i) r.fPos (env i)
  if out.retval ≤ 0 then pure (.inr (out.retval, ⟨out.heap, out.dev, out.fPos, r.got⟩))
  else pure (.inl ⟨out.heap, out.dev, out.fPos, r.got ++ out.copied⟩)

/-- A device that has just been trimmed. -/
def trimmed (quantum qset : ℤ) : ScullDev := ⟨none, quantum, qset, 0⟩

/-- The allocator has what the next write needs. -/
def WellSupplied (env : ℕ → Env) (i : ℕ) (w : Writer) : Prop :=
  w.rest ≠ [] → Supplied w.heap (missingAt w.heap w.dev w.fPos.toNat) (env i).answers

instance (env : ℕ → Env) (i : ℕ) (w : Writer) : Decidable (WellSupplied env i w) :=
  inferInstanceAs (Decidable (_ → _))

/-- A write that is not the last step of the program takes at least one byte. -/
def WriteMoves (chunk : ℕ → ℕ) (env : ℕ → Env) (i : ℕ) (w : Writer) : Prop :=
  w.rest ≠ [] →
    ∃ out, scullWrite w.heap w.dev (w.rest.take (chunk i)) w.fPos (env i) = .ok out ∧
      0 < out.retval

/-- A read delivers at least one byte, as long as there are any left of `bs`. -/
def ReadMoves (bs : List UInt8) (count : ℕ → ℕ) (env : ℕ → Env) (i : ℕ) (r : Reader) : Prop :=
  r.got ≠ bs → ∃ out, scullRead r.heap r.dev (count i) r.fPos (env i) = .ok out ∧ 0 < out.retval

/-! ## Every byte of the program is within reach -/

section Device

variable {G : Geometry} {bs : List UInt8}

theorem Geometry.reaches_of_le (hlength : bs.length / G.itemsize < 2147483648) {p : ℕ}
    (hp : p ≤ bs.length) : G.Reaches p :=
  (Nat.div_le_div_right hp).trans_lt hlength

/-- No transfer of the program leaves `loff_t`. -/
theorem Geometry.length_lt (hlength : bs.length / G.itemsize < 2147483648) :
    bs.length < 4611686018427387904 := by
  have hlt : bs.length < 2147483648 * G.itemsize :=
    (Nat.div_lt_iff_lt_mul G.itemsize_pos).mp hlength
  have hitem := G.itemsize_le
  calc bs.length < 2147483648 * G.itemsize := hlt
    _ ≤ 2147483648 * 2147483647 := Nat.mul_le_mul_left _ hitem
    _ < 4611686018427387904 := by norm_num

/-! ## Writing -/

/-- What a device holds that has taken `bytes` from position 0 on. -/
def stored (bytes : List UInt8) : SparseFile UInt8 := SparseFile.empty.store 0 bytes

theorem stored_apply {bytes : List UInt8} (x : ℕ) : stored bytes x = bytes[x]? := by
  by_cases hx : x < bytes.length
  · exact SparseFile.store_of_mem ⟨Nat.zero_le x, by omega⟩
  · rw [List.getElem?_eq_none (by omega)]
    exact SparseFile.store_of_notMem (by omega)

theorem stored_take_store (bs : List UInt8) {p : ℕ} (hp : p ≤ bs.length) (k : ℕ) :
    (stored (bs.take p)).store p ((bs.drop p).take k) = stored (bs.take (p + k)) := by
  have hlength : (bs.take p).length = p := List.length_take_of_le hp
  calc (stored (bs.take p)).store p ((bs.drop p).take k)
      = (SparseFile.empty.store 0 (bs.take p)).store (0 + (bs.take p).length)
          ((bs.drop p).take k) := by rw [hlength, Nat.zero_add, stored]
    _ = SparseFile.empty.store 0 (bs.take p ++ (bs.drop p).take k) :=
        SparseFile.store_store _ _ _ _
    _ = stored (bs.take (p + k)) := by rw [← List.take_add, stored]

/-- A writer has `p` bytes behind it, and the device holds them. -/
structure Writer.Sound (bs : List UInt8) (L : Layout G) (p : ℕ) (w : Writer) : Prop where
  le_length : p ≤ bs.length
  owns : Owns w.heap w.dev L
  holds : Holds L w.dev (stored (bs.take p))
  size : w.dev.size = p
  fPos : w.fPos = p
  rest : w.rest = bs.drop p

/-- **One write** of the program takes some of the bytes it offers. -/
theorem Writer.Sound.write {L : Layout G} {p : ℕ} {w : Writer} (sound : w.Sound bs L p)
    (hlength : bs.length / G.itemsize < 2147483648) (hlt : p < bs.length) {c : ℕ} (hc : 0 < c)
    {env : Env} (hint : env.interrupted = false) (hfault : env.fault = none)
    (hsupplied : Supplied w.heap (missingAt w.heap w.dev p) env.answers) :
    ∃ out, ∃ k : ℕ, ∃ L' : Layout G,
      scullWrite w.heap w.dev (w.rest.take c) w.fPos env = .ok out ∧ out.retval = k ∧ 0 < k ∧
      Writer.Sound bs L' (p + k) ⟨out.heap, out.dev, out.fPos, w.rest.drop k⟩ := by
  have hoffer : (w.rest.take c).length = min c (bs.length - p) := by
    rw [sound.rest, List.length_take, List.length_drop]
  have hsum : p + (w.rest.take c).length < 9223372036854775808 := by
    have := Geometry.length_lt hlength
    omega
  obtain ⟨out, L', hwrite, -, owns', -, hnodes, written, hgranted⟩ :=
    scullWriteLocked_spec sound.owns (w.rest.take c) hsum env
  have henough : out.retval ≠ -ENOMEM := by
    rw [hgranted, ← sound.owns.missingAt_eq]
    exact hsupplied
  have hreach := Geometry.reaches_of_le hlength sound.le_length
  rcases sound.holds.write hreach hfault hnodes written with
    ⟨hnoMemory, -⟩ | ⟨k, hretval, hk, hzero, hfPos, hsize, holds'⟩
  · exact absurd hnoMemory henough
  have hpos : 0 < k := by
    apply Nat.pos_of_ne_zero
    intro hk0
    have hnil := congrArg List.length (hzero hk0)
    rw [hoffer, List.length_nil] at hnil
    omega
  refine ⟨out, k, L', ?_, hretval, hpos, by omega, owns', ?_, ?_, hfPos, ?_⟩
  · rw [scullWrite, hint, if_neg Bool.false_ne_true, sound.fPos]
    exact hwrite
  · -- what has been taken is the beginning of what was left
    have htake : (w.rest.take c).take k = (bs.drop p).take k := by
      rw [sound.rest, List.take_take, Nat.min_eq_left (by omega)]
    rwa [htake, stored_take_store bs sound.le_length] at holds'
  · rw [hsize, sound.size, Nat.max_eq_right (Nat.le_add_right p k)]
  · rw [sound.rest, List.drop_drop]

/-! ## Reading -/

/-- A reader has got the first `p` bytes. -/
structure Reader.Sound (bs : List UInt8) (L : Layout G) (p : ℕ) (r : Reader) : Prop where
  le_length : p ≤ bs.length
  owns : Owns r.heap r.dev L
  holds : Holds L r.dev (stored bs)
  size : r.dev.size = bs.length
  fPos : r.fPos = p
  got : r.got = bs.take p

/-- **One read** of the program delivers the next bytes, and none only at the end. -/
theorem Reader.Sound.read {L : Layout G} {p : ℕ} {r : Reader} (sound : r.Sound bs L p)
    (hlength : bs.length / G.itemsize < 2147483648) {c : ℕ} (hc : 0 < c ∧ c ≤ 0x7ffff000)
    {env : Env} (hint : env.interrupted = false) (hfault : env.fault = none) :
    ∃ out, ∃ k : ℕ, scullRead r.heap r.dev c r.fPos env = .ok out ∧ out.retval = k ∧
      (k = 0 → p = bs.length) ∧
      Reader.Sound bs L (p + k) ⟨out.heap, out.dev, out.fPos, r.got ++ out.copied⟩ := by
  have hreach := Geometry.reaches_of_le hlength sound.le_length
  have hsum : p + c < 9223372036854775808 := by
    have := Geometry.length_lt hlength
    have := sound.le_length
    omega
  have hread := scullReadLocked_eq sound.owns sound.holds.covers (fun _ => hreach) hsum env
  obtain ⟨k, copied, hout, correct, -⟩ := sound.holds.read (h := r.heap) hreach c hfault
  rw [hout] at hread
  have hend : p + k ≤ bs.length := by
    have := correct.le_size
    have := sound.size
    have := sound.le_length
    omega
  refine ⟨⟨k, ((p + k : ℕ) : ℤ), copied, r.dev, r.heap⟩, k, ?_, rfl, ?_, hend,
    sound.owns, sound.holds, sound.size, rfl, ?_⟩
  · rw [scullRead, hint, if_neg Bool.false_ne_true, sound.fPos]
    exact hread
  · intro hzero
    rcases correct.progress hzero with hnone | hnone
    · omega
    · rw [stored_apply, List.getElem?_eq_none_iff] at hnone
      have := sound.le_length
      omega
  · have hcopied : copied = (bs.drop p).take k := by
      apply List.ext_getElem?
      intro j
      rcases Nat.lt_or_ge j k with hj | hj
      · have hbyte : stored bs (p + j) = some bs[p + j] := by
          rw [stored_apply, List.getElem?_eq_getElem (by omega)]
        rw [correct.bytes j hj _ hbyte, List.getElem?_take_of_lt hj, List.getElem?_drop,
          List.getElem?_eq_getElem (by omega)]
      · rw [List.getElem?_eq_none (by rw [correct.length]; omega),
          List.getElem?_eq_none (by rw [List.length_take]; omega)]
    show r.got ++ copied = _
    rw [sound.got, hcopied, ← List.take_add]

end Device

/-! ## The two loops -/

/-- Writes `bs` from position 0, until all of it is accepted or a call fails. -/
def writeAll (h : Heap Block) (dev : ScullDev) (bs : List UInt8) (chunk : ℕ → ℕ) (env : ℕ → Env) :
    Except Fault (Option Writer) :=
  userLoop (writeRound chunk env) (bs.length + 1) 0 ⟨h, dev, 0, bs⟩

/-- Reads from position 0 until a call returns no byte: what that call returns, and the
bytes delivered before. -/
def readAll (h : Heap Block) (dev : ScullDev) (count : ℕ → ℕ) (env : ℕ → Env) :
    Except Fault (Option (ℤ × Reader)) :=
  userLoop (readRound count env) (dev.size + 1) 0 ⟨h, dev, 0, []⟩

section Loops

variable {G : Geometry} {h : Heap Block} {dev : ScullDev} {bs : List UInt8} {chunk count : ℕ → ℕ}
  {env : ℕ → Env}

theorem writeAll_ends (hquantum : dev.quantum = G.quantum) (hqset : dev.qset = G.qset)
    (hdata : dev.data = none) (hsize : dev.size = 0)
    (hlength : bs.length / G.itemsize < 2147483648) (hchunk : ∀ i, 0 < chunk i)
    (henv : ∀ i, (env i).interrupted = false ∧ (env i).fault = none)
    (hsupplied : EveryRound (writeRound chunk env) (WellSupplied env) (bs.length + 1) 0
      ⟨h, dev, 0, bs⟩) :
    (∃ w, writeAll h dev bs chunk env = .ok (some w) ∧ w.rest = [] ∧
        ∃ L : Layout G, w.Sound bs L bs.length) ∧
      EveryRound (writeRound chunk env) (WriteMoves chunk env) (bs.length + 1) 0
        ⟨h, dev, 0, bs⟩ := by
  refine userLoop_ends_under (I := fun _ w => ∃ p, ∃ L : Layout G, w.Sound bs L p)
    (μ := fun w => w.rest.length) ?_ ?_ hsupplied (Nat.lt_succ_self _)
  · rintro i w ⟨p, L, sound⟩ hserved
    by_cases hnil : w.rest = []
    · have hp : p = bs.length := by
        have hdrop := sound.rest
        rw [hnil, eq_comm, List.drop_eq_nil_iff] at hdrop
        have := sound.le_length
        omega
      exact ⟨fun hne => absurd hnil hne, .inr ⟨w, if_pos hnil, hnil, L, hp ▸ sound⟩⟩
    have hlt : p < bs.length := by
      have hdrop := hnil
      rw [sound.rest, List.drop_eq_nil_iff] at hdrop
      omega
    have hgranted := hserved hnil
    rw [sound.fPos, Int.toNat_natCast] at hgranted
    obtain ⟨out, k, L', hwrite, hretval, hpos, sound'⟩ :=
      sound.write hlength hlt (hchunk i) (henv i).1 (henv i).2 hgranted
    refine ⟨fun _ => ⟨out, hwrite, by omega⟩, .inl ⟨_, ?_, ⟨p + k, L', sound'⟩, ?_⟩⟩
    · simp only [writeRound, if_neg hnil, hwrite, ok_bind]
      rw [if_neg (by omega), hretval, Int.toNat_natCast]
      rfl
    · have hrest := sound'.rest
      have hle := sound'.le_length
      show (w.rest.drop k).length < w.rest.length
      rw [List.length_drop, sound.rest, List.length_drop]
      omega
  · refine ⟨0, Layout.empty G, Nat.zero_le _, .of_empty hquantum hqset hdata, ?_, hsize, rfl, rfl⟩
    rw [List.take_zero, stored, SparseFile.store_nil]
    exact .empty G hsize

theorem readAll_ends {L : Layout G} (owns : Owns h dev L) (holds : Holds L dev (stored bs))
    (hsize : dev.size = bs.length) (hlength : bs.length / G.itemsize < 2147483648)
    (hcount : ∀ i, 0 < count i ∧ count i ≤ 0x7ffff000)
    (henv : ∀ i, (env i).interrupted = false ∧ (env i).fault = none) :
    (∃ r, readAll h dev count env = .ok (some r) ∧ r.1 = 0 ∧ r.2.got = bs ∧
        r.2.dev.size = bs.length) ∧
      EveryRound (readRound count env) (ReadMoves bs count env) (dev.size + 1) 0
        ⟨h, dev, 0, []⟩ := by
  refine userLoop_ends_under (P := fun _ _ => True)
    (I := fun _ r => ∃ p, Reader.Sound bs L p r) (μ := fun r => bs.length - r.got.length) ?_
    ⟨0, Nat.zero_le _, owns, holds, hsize, rfl, rfl⟩
    (everyRound_of_forall (fun _ _ => trivial) _ _ _) (by omega)
  rintro i r ⟨p, sound⟩ -
  obtain ⟨out, k, hread, hretval, hend, sound'⟩ :=
    sound.read hlength (hcount i) (henv i).1 (henv i).2
  rcases Nat.eq_zero_or_pos k with hzero | hpos
  · -- the call that finds nothing more ends the loop
    have hgot : r.got = bs := by
      rw [sound.got, hend hzero, List.take_length]
    refine ⟨fun hne => absurd hgot hne, .inr ⟨(out.retval, ⟨out.heap, out.dev, out.fPos, r.got⟩),
      ?_, ?_, hgot, sound'.size⟩⟩
    · simp only [readRound, hread, ok_bind]
      rw [if_pos (by omega)]
      rfl
    · rw [hretval, hzero, Nat.cast_zero]
  · refine ⟨fun _ => ⟨out, hread, by omega⟩, .inl ⟨_, ?_, ⟨p + k, sound'⟩, ?_⟩⟩
    · simp only [readRound, hread, ok_bind]
      rw [if_neg (by omega)]
      rfl
    · have hgot := sound'.got
      have hle := sound'.le_length
      dsimp only at hgot ⊢
      rw [hgot, sound.got, List.length_take, List.length_take]
      omega

end Loops

/-- **Copying in and out.**  Whatever the parameters of the device and whatever chunks the
programs choose, bytes written to a trimmed device without failing allocations or copies
come back when they are read.  Both loops end, every call before the end transfers at least
one byte, and the size of the device is the number of the bytes. -/
theorem copy_in_copy_out {quantum qset : ℤ} (husable : (Globals.mk quantum qset).Usable)
    (h : Heap Block) {bs : List UInt8}
    (hlength : (bs.length : ℤ) / (quantum * qset) < 2147483648) {chunk count : ℕ → ℕ}
    (hchunk : ∀ i, 0 < chunk i) (hcount : ∀ i, 0 < count i ∧ count i ≤ 0x7ffff000)
    {env env' : ℕ → Env} (henv : ∀ i, (env i).interrupted = false ∧ (env i).fault = none)
    (henv' : ∀ i, (env' i).interrupted = false ∧ (env' i).fault = none)
    (hsupplied : EveryRound (writeRound chunk env) (WellSupplied env) (bs.length + 1) 0
      ⟨h, trimmed quantum qset, 0, bs⟩) :
    EveryRound (writeRound chunk env) (WriteMoves chunk env) (bs.length + 1) 0
        ⟨h, trimmed quantum qset, 0, bs⟩ ∧
      ∃ w, writeAll h (trimmed quantum qset) bs chunk env = .ok (some w) ∧ w.rest = [] ∧
        w.dev.size = bs.length ∧
        EveryRound (readRound count env') (ReadMoves bs count env') (bs.length + 1) 0
          ⟨w.heap, w.dev, 0, []⟩ ∧
        ∃ r, readAll w.heap w.dev count env' = .ok (some (0, r)) ∧ r.got = bs ∧
          r.dev.size = bs.length := by
  have hlength' : bs.length / husable.geometry.itemsize < 2147483648 := by
    have hitem : quantum * qset = (husable.geometry.itemsize : ℤ) :=
      calc quantum * qset
          = (husable.geometry.quantum : ℤ) * husable.geometry.qset :=
            congrArg₂ (· * ·) husable.quantum_eq husable.qset_eq
        _ = (husable.geometry.itemsize : ℤ) := (Nat.cast_mul _ _).symm
    rw [hitem] at hlength
    exact_mod_cast hlength
  obtain ⟨⟨w, hwrite, hrest, L, sound⟩, hmoves⟩ :=
    writeAll_ends husable.quantum_eq husable.qset_eq rfl rfl hlength' hchunk henv hsupplied
  have holds := sound.holds
  rw [List.take_length] at holds
  obtain ⟨⟨⟨retval, r⟩, hread, hretval, hgot, hsize⟩, hmoves'⟩ :=
    readAll_ends sound.owns holds sound.size hlength' hcount henv'
  obtain rfl : retval = 0 := hretval
  rw [sound.size] at hmoves'
  exact ⟨hmoves, w, hwrite, hrest, sound.size, hmoves', r, hread, hgot, hsize⟩

/-- Eight bytes, which end with the item, written in threes beside a block of somebody else
and read back five at a time. -/
theorem copy_in_copy_out_item :
    let h : Heap Block := Heap.empty.set 2 (.quantum [9])
    let chunk : ℕ → ℕ := fun _ => 3
    let env : ℕ → Env := fun i =>
      { answers := [some (4 * i + 3), some (4 * i + 4), some (4 * i + 5)] }
    let bs : List UInt8 := [1, 2, 3, 4, 5, 6, 7, 8]
    EveryRound (writeRound chunk env) (WriteMoves chunk env) 9 0 ⟨h, trimmed 4 2, 0, bs⟩ ∧
      ∃ w, writeAll h (trimmed 4 2) bs chunk env = .ok (some w) ∧ w.rest = [] ∧
        w.dev.size = 8 ∧
        EveryRound (readRound (fun _ => 5) fun _ => {}) (ReadMoves bs (fun _ => 5) fun _ => {}) 9 0
          ⟨w.heap, w.dev, 0, []⟩ ∧
        ∃ r, readAll w.heap w.dev (fun _ => 5) (fun _ => {}) = .ok (some (0, r)) ∧ r.got = bs ∧
          r.dev.size = 8 :=
  copy_in_copy_out (by decide) _ (by decide) (fun _ => by decide) (fun _ => by decide)
    (fun _ => ⟨rfl, rfl⟩) (fun _ => ⟨rfl, rfl⟩) (by decide)

end KernelTraining.Scull
