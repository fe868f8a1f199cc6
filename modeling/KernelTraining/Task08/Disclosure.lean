import KernelTraining.Abstract.SparseFile
import KernelTraining.Machine.Run
import KernelTraining.Task08.Foo

/-!
# What foo discloses

The page of foo is not cleared, and `size` is whatever the last write returned, errors
included.  What has been stored is kept beside the module as a ghost.  `confined_iff`
says which runs keep `size` within what has been stored: those in which no write fails
and none leaves bytes before it that nobody has stored.

The ghost is a file of which only a part is known (`SparseFile`), and it is kept by the same
calls (`ghostStep`).  A copy that fails on the way pads the rest of its destination with zeros;
these count as stored, since they come from nobody's memory.

* `Agrees` is what relates the two: what is known is in the page.  It holds whatever the
  writes do, so it is an invariant of all runs.
* With it a write is `Exact`: what it leaves is confined if and only if it has left no gap.
  There is a lemma for each way a write can go.  Those that fail leave a negative `size`, and
  nothing is confined then; those that transfer nothing leave a `size` of zero, and everything
  is; and after one that transfers `k` bytes the first `k` bytes of the page must be known,
  which those are that it has written, so the others must have been known before.
* `Confined` also speaks of what reads deliver.  That follows from what it says of `size`
  (`Confined.of_size`).
-/

namespace KernelTraining.Task08

open Machine Abstract

/-- A call on foo, through any descriptor at any position. -/
inductive Call where
  | read (count : ℕ) (fPos : ℤ) (fault : Option ℕ)
  | write (buf : List UInt8) (fPos : ℤ) (fault : Option ℕ)

/-- What has been stored in the page after a write: the bytes of the user, and the
zeros that pad a copy which fails on the way. -/
def storedAfter (K : Kernel) (M : SparseFile UInt8) (buf : List UInt8) (fPos : ℤ)
    (fault : Option ℕ) : SparseFile UInt8 :=
  if 0 ≤ fPos then
    let n := min buf.length (K.pageSize - fPos.toNat)
    M.store fPos.toNat (padded buf (transferred fault n) n)
  else M

/-- One call, with what has been stored. -/
def ghostStep (K : Kernel) (x : Foo × SparseFile UInt8) :
    Call → Except Fault (Foo × SparseFile UInt8)
  | .read _ _ _ => .ok x
  | .write buf fPos fault =>
      .ok ((task08WriteFoo K x.1 buf fPos fault).foo, storedAfter K x.2 buf fPos fault)

/-- `size` lies within the page, every byte below it has been stored, and so has
whatever a read delivers. -/
structure Confined (K : Kernel) (x : Foo × SparseFile UInt8) : Prop where
  nonneg : 0 ≤ x.1.size
  le_page : x.1.size ≤ K.pageSize
  stored : ∀ j : ℕ, j < x.1.size → x.2 j = some (x.1.data j)
  delivered : ∀ count fPos fault i b,
    (task08ReadFoo K x.1 count fPos fault).copied[i]? = some b →
      0 ≤ fPos ∧ x.2 (fPos.toNat + i) = some b

/-- A write starts at a position that is not negative, and if there is room for it, it
copies at least a byte and leaves no byte before it that has not been stored. -/
def LeavesNoGap (K : Kernel) (x : Foo × SparseFile UInt8) : Call → Prop
  | .read _ _ _ => True
  | .write buf fPos fault => 0 ≤ fPos ∧ (fPos.toNat < K.pageSize → buf ≠ [] →
      let k := transferred fault (min buf.length (K.pageSize - fPos.toNat))
      0 < k ∧ ∀ j < min fPos.toNat k, (x.2 j).isSome)

instance (K : Kernel) (x : Foo × SparseFile UInt8) (c : Call) : Decidable (LeavesNoGap K x c) := by
  cases c <;> unfold LeavesNoGap <;> infer_instance

/-- What has been stored is in the page. -/
def Agrees (x : Foo × SparseFile UInt8) : Prop := ∀ j b, x.2 j = some b → x.1.data j = b

section Step

variable {K : Kernel} {x : Foo × SparseFile UInt8}

/-- A `size` below which everything has been stored confines the reads. -/
theorem Confined.of_size {size : ℕ} (hsize : x.1.size = size) (hle : size ≤ K.pageSize)
    (hstored : ∀ j < size, x.2 j = some (x.1.data j)) : Confined K x where
  nonneg := by omega
  le_page := by omega
  stored := fun j hj => hstored j (by omega)
  delivered := fun count fPos fault i b hb => by
    obtain ⟨hnonneg, hlt, hdata⟩ := readFoo_copied hsize hle fPos fault hb
    exact ⟨hnonneg, hdata ▸ hstored _ hlt⟩

/-- A write into the page, on both sides. -/
theorem Agrees.store {foo : Foo} {M : SparseFile UInt8} (agrees : Agrees (foo, M)) (p : ℕ)
    (data : List UInt8) (size : ℤ) :
    Agrees (⟨overwrite foo.data p data, size⟩, M.store p data) := by
  intro j b hb
  show overwrite foo.data p data j = b
  by_cases hj : p ≤ j ∧ j < p + data.length
  · have hb' : data[j - p]? = some b := by
      rw [← hb]
      exact (SparseFile.store_of_mem hj).symm
    rw [overwrite, if_pos hj, List.getD_eq_getElem?_getD, hb']
    rfl
  · have hb' : M j = some b := by
      rw [← hb]
      exact (SparseFile.store_of_notMem hj).symm
    rw [overwrite, if_neg hj]
    exact agrees j b hb'

/-- What a write stores of a known byte is known. -/
theorem Agrees.some_iff (agrees : Agrees x) {j : ℕ} :
    x.2 j = some (x.1.data j) ↔ (x.2 j).isSome := by
  constructor
  · intro h
    rw [h]
    rfl
  · intro h
    obtain ⟨b, hb⟩ := Option.isSome_iff_exists.mp h
    rw [hb, agrees j b hb]

theorem storedAfter_eq (K : Kernel) (M : SparseFile UInt8) {buf : List UInt8} {p n k : ℕ}
    {fault : Option ℕ} (hn : min buf.length (K.pageSize - p) = n)
    (hk : transferred fault n = k) :
    storedAfter K M buf p fault = M.store p (padded buf k n) := by
  rw [storedAfter, if_pos (Int.natCast_nonneg p), Int.toNat_natCast, hn]
  dsimp only
  rw [hk]

/-- What a write leaves is confined exactly when the write leaves no gap. -/
def Exact (K : Kernel) (x : Foo × SparseFile UInt8) (buf : List UInt8) (fPos : ℤ)
    (fault : Option ℕ) : Prop :=
  let x' := ((task08WriteFoo K x.1 buf fPos fault).foo, storedAfter K x.2 buf fPos fault)
  Agrees x' ∧ (Confined K x' ↔ LeavesNoGap K x (.write buf fPos fault))

/-- A negative `size` confines nothing. -/
theorem not_confined_of_neg (hneg : x.1.size < 0) : ¬ Confined K x := fun confined => by
  have := confined.nonneg
  omega

variable {foo : Foo} {M : SparseFile UInt8} {buf : List UInt8} {p : ℕ} {fault : Option ℕ}

theorem Agrees.write_negative (agrees : Agrees (foo, M)) {fPos : ℤ} (hneg : fPos < 0) :
    Exact K (foo, M) buf fPos fault := by
  unfold Exact
  rw [writeFoo_negative hneg, storedAfter, if_neg (by omega)]
  refine ⟨agrees, iff_of_false (not_confined_of_neg ?_) ?_⟩
  · show -EINVAL < 0
    decide
  · intro h
    exact absurd h.1 (by omega)

theorem Agrees.write_nothing (agrees : Agrees (foo, M)) (hnothing : K.pageSize ≤ p ∨ buf = []) :
    Exact K (foo, M) buf p fault := by
  have hempty : min buf.length (K.pageSize - p) = 0 := by
    rcases hnothing with h | rfl
    · omega
    · simp
  have hzero : transferred fault 0 = 0 := Nat.le_zero.mp (transferred_le fault 0)
  unfold Exact
  rw [writeFoo_nothing hnothing, storedAfter_eq K M hempty hzero,
    show padded buf 0 0 = [] from rfl, SparseFile.store_nil]
  refine ⟨agrees, iff_of_true ?_ ⟨Int.natCast_nonneg p, ?_⟩⟩
  · exact .of_size Int.natCast_zero.symm (Nat.zero_le _) fun j hj => absurd hj (Nat.not_lt_zero j)
  · intro hp hbuf
    rw [Int.toNat_natCast] at hp
    rcases hnothing with h | h
    · omega
    · exact absurd h hbuf

theorem Agrees.write_fault (agrees : Agrees (foo, M)) (hp : p < K.pageSize) (hbuf : buf ≠ [])
    {n : ℕ} (hn : min buf.length (K.pageSize - p) = n) (hk : transferred fault n = 0) :
    Exact K (foo, M) buf p fault := by
  unfold Exact
  rw [writeFoo_fault hp hbuf hn hk, storedAfter_eq K M hn hk]
  refine ⟨agrees.store _ _ _, iff_of_false (not_confined_of_neg ?_) ?_⟩
  · show -EFAULT < 0
    decide
  · intro h
    have hcopied := (h.2 (by rwa [Int.toNat_natCast]) hbuf).1
    rw [Int.toNat_natCast, hn, hk] at hcopied
    omega

theorem Agrees.write_some (agrees : Agrees (foo, M)) (hp : p < K.pageSize) (hbuf : buf ≠ [])
    {n k : ℕ} (hn : min buf.length (K.pageSize - p) = n) (hk : transferred fault n = k)
    (hpos : 0 < k) : Exact K (foo, M) buf p fault := by
  have hle : k ≤ n := hk ▸ transferred_le fault n
  have hlength := length_padded hle (show n ≤ buf.length by omega)
  have agrees' : Agrees (⟨overwrite foo.data p (padded buf k n), k⟩,
    M.store p (padded buf k n)) := agrees.store _ _ _
  -- below `size` a byte is stored by this write or was before
  have hdom : ∀ j < k, (M.store p (padded buf k n) j).isSome ↔ p ≤ j ∨ (M j).isSome := by
    intro j hj
    have hmem : j ∈ (M.store p (padded buf k n)).dom ↔ _ := SparseFile.mem_dom_store
    simp only [SparseFile.dom, Set.mem_ofPred_eq, ← Option.isSome_iff_ne_none] at hmem
    rw [hmem, hlength]
    exact or_congr_left (and_iff_left (by omega))
  unfold Exact
  rw [writeFoo_some hp hn hk hpos, storedAfter_eq K M hn hk]
  refine ⟨agrees', fun confined => ⟨Int.natCast_nonneg p, fun _ _ => ?_⟩, fun h => ?_⟩
  · rw [Int.toNat_natCast, hn, hk]
    refine ⟨hpos, ?_⟩
    intro j hj
    have hstored := confined.stored j (show (j : ℤ) < k by omega)
    exact ((hdom j (by omega)).mp (agrees'.some_iff.mp hstored)).resolve_left (by omega)
  · have hgap := (h.2 (by rwa [Int.toNat_natCast]) hbuf).2
    rw [Int.toNat_natCast, hn, hk] at hgap
    refine .of_size rfl (by omega) fun j hj => agrees'.some_iff.mpr ((hdom j hj).mpr ?_)
    rcases Nat.lt_or_ge j p with hlt | hge
    · exact .inr (hgap j (by omega))
    · exact .inl hge

/-- **One write**, on each of its return paths. -/
theorem Agrees.write (agrees : Agrees x) (buf : List UInt8) (fPos : ℤ) (fault : Option ℕ) :
    Exact K x buf fPos fault := by
  rcases lt_or_ge fPos 0 with hneg | hnonneg
  · exact agrees.write_negative hneg
  obtain ⟨p, rfl⟩ := Int.eq_ofNat_of_zero_le hnonneg
  by_cases hnothing : K.pageSize ≤ p ∨ buf = []
  · exact agrees.write_nothing hnothing
  obtain ⟨hp, hbuf⟩ := not_or.mp hnothing
  rcases Nat.eq_zero_or_pos (transferred fault (min buf.length (K.pageSize - p))) with
    hzero | hpos
  · exact agrees.write_fault (not_le.mp hp) hbuf rfl hzero
  · exact agrees.write_some (not_le.mp hp) hbuf rfl rfl hpos

end Step

/-- **Foo discloses nothing else exactly as long as no write fails or leaves a gap.**
Over every run of reads and writes, at any positions and with any failing copies, `size`
stays within the page and what has been stored, and so do the bytes delivered, exactly
when every write meets the condition. -/
theorem confined_iff (K : Kernel) (data : ℕ → UInt8) (calls : List Call) :
    EveryState (ghostStep K) (Confined K) (⟨data, 0⟩, .empty) calls ↔
      EveryStep (ghostStep K) (LeavesNoGap K) (⟨data, 0⟩, .empty) calls := by
  refine everyState_iff_everyStep (I := fun x => Confined K x ∧ Agrees x) (R := fun _ _ => True)
    (fun _ h => h.1) ?_ ?_ ⟨?_, fun j b hb => by simp [SparseFile.empty] at hb⟩
    (everyStep_of_forall (fun _ _ => trivial) _ _)
  · rintro x (_ | ⟨buf, fPos, fault⟩) ⟨confined, agrees⟩ -
    · exact iff_of_true ⟨x, rfl, confined⟩ trivial
    · rw [← (agrees.write (K := K) buf fPos fault).2]
      constructor
      · rintro ⟨x', hx', h⟩
        exact Except.ok.inj hx' ▸ h
      · exact fun h => ⟨_, rfl, h⟩
  · rintro x (_ | ⟨buf, fPos, fault⟩) x' ⟨confined, agrees⟩ - hgap hx'
    · exact Except.ok.inj hx' ▸ ⟨confined, agrees⟩
    · have hwrite := agrees.write (K := K) buf fPos fault
      exact Except.ok.inj hx' ▸ ⟨hwrite.2.mpr hgap, hwrite.1⟩
  · exact .of_size Int.natCast_zero.symm (Nat.zero_le _) fun j hj => absurd hj (Nat.not_lt_zero j)

/-- A byte written behind the start of a fresh page discloses the byte at the start.  A
write that fails leaves a negative `size`, and reads run through the page and past it. -/
theorem discloses_page :
    ¬ EveryState (ghostStep .linux) (Confined .linux) (⟨fun _ => 255, 0⟩, .empty)
        [.write [7] 5 none] ∧
      (task08ReadFoo .linux (task08WriteFoo .linux ⟨fun _ => 255, 0⟩ [7] 5 none).foo 8 0
        none).copied = [255] ∧
      ¬ EveryState (ghostStep .linux) (Confined .linux) (⟨fun _ => 255, 0⟩, .empty)
        [.write [7] 0 (some 0)] ∧
      (task08ReadFoo .linux (task08WriteFoo .linux ⟨fun _ => 255, 0⟩ [7] 0 (some 0)).foo 2 4096
        none).copied = [255, 255] := by
  refine ⟨fun h => ?_, by decide, fun h => ?_, by decide⟩
  · have hfirst := h.mono (R := fun x => x.1.size ≤ 0 ∨ (x.2 0).isSome) fun x confined => by
      rcases Int.lt_or_le 0 x.1.size with hpos | hle
      · rw [confined.stored 0 hpos]
        exact .inr rfl
      · exact .inl hle
    exact absurd hfirst (by decide)
  · have hnonneg := h.mono (R := fun x => 0 ≤ x.1.size) fun _ confined => confined.nonneg
    exact absurd hnonneg (by decide)

end KernelTraining.Task08
