import KernelTraining.Machine.UserLoop
import KernelTraining.Task08.Foo

/-!
# Storing a value in foo

A program writes a value to foo, in chunks of its choice, and then reads it back, in
chunks of its choice.  `size` is the number of bytes of the last write, while the bytes
go to a running position, so the value comes back exactly when the first write takes all
of it (`storesValue_iff`).

Both programs are loops of which nobody has said that they end.  They are run with
`userLoop`, and that they end is part of what is proved: what is left to transfer decreases
(`userLoop_ends`).

* Reading back does not depend on the chunks.  A reader has the data up to its position
  (`Reader.Sound`), and ends at `size` (`readAll_eq`).
* If the first write takes all of the value, there is a second round, which finds nothing left
  (`writeAll_of_whole`).
* In any other case it is enough to know that `size` is too small in the end, whatever it is
  exactly (`writeAll_of_parts`).  The last write is not the first and has taken less than all,
  or it was made at the end of the page and has taken nothing.  `Writer.Sound` carries this
  along: there is something behind the writer from the second round on.
-/

namespace KernelTraining.Task08

open Machine

/-- The module, the position of the descriptor, and the part of the value that has not
been accepted yet. -/
structure Writer where
  foo : Foo
  fPos : ℤ
  rest : List UInt8

/-- One round of the writing program, with at most `chunk i` bytes. -/
def writeRound (K : Kernel) (chunk : ℕ → ℕ) (i : ℕ) (w : Writer) :
    Except Fault (Writer ⊕ Foo) :=
  if w.rest = [] then .ok (.inr w.foo)
  else
    let out := task08WriteFoo K w.foo (w.rest.take (chunk i)) w.fPos none
    if out.retval ≤ 0 then .ok (.inr out.foo)
    else .ok (.inl ⟨out.foo, out.fPos, w.rest.drop out.retval.toNat⟩)

/-- Writes `v` from position 0 until all of it is accepted or a call returns 0. -/
def writeAll (K : Kernel) (s : Foo) (v : List UInt8) (chunk : ℕ → ℕ) :
    Except Fault (Option Foo) :=
  userLoop (writeRound K chunk) (v.length + 1) 0 ⟨s, 0, v⟩

/-- The position of the descriptor, and the bytes delivered so far. -/
structure Reader where
  fPos : ℤ
  got : List UInt8

/-- One round of the reading program, which asks for `count i` bytes. -/
def readRound (K : Kernel) (s : Foo) (count : ℕ → ℕ) (i : ℕ) (r : Reader) :
    Except Fault (Reader ⊕ ℤ × List UInt8) :=
  let out := task08ReadFoo K s (count i) r.fPos none
  if out.retval ≤ 0 then .ok (.inr (out.retval, r.got))
  else .ok (.inl ⟨out.ppos, r.got ++ out.copied⟩)

/-- Reads from position 0 until a call returns no byte: what that call returns, and the
bytes delivered before. -/
def readAll (K : Kernel) (s : Foo) (count : ℕ → ℕ) : Except Fault (Option (ℤ × List UInt8)) :=
  userLoop (readRound K s count) (K.pageSize + 1) 0 ⟨0, []⟩

/-- Writing `v` in the given chunks and reading it back in the given chunks delivers its
first page, and then 0. -/
def StoresValue (K : Kernel) (s : Foo) (v : List UInt8) (chunk count : ℕ → ℕ) : Prop :=
  (do
    match ← writeAll K s v chunk with
    | none => pure none
    | some s => readAll K s count) = .ok (some (0, v.take K.pageSize))

instance (K : Kernel) (s : Foo) (v : List UInt8) (chunk count : ℕ → ℕ) :
    Decidable (StoresValue K s v chunk count) := by
  unfold StoresValue
  infer_instance

variable {K : Kernel} {s : Foo} {v : List UInt8} {chunk count : ℕ → ℕ}

/-! ## Reading back -/

/-- What a reader has got is the data before its position. -/
def Reader.Sound (s : Foo) (size : ℕ) (r : Reader) : Prop :=
  ∃ p ≤ size, r.fPos = ((p : ℕ) : ℤ) ∧ r.got = (List.range p).map s.data

/-- A reading program gets the first `size` bytes, whatever its chunks. -/
theorem readAll_eq {size : ℕ} (hsize : s.size = size) (hle : size ≤ K.pageSize)
    (hcount : ∀ i, 0 < count i) :
    readAll K s count = .ok (some (0, (List.range size).map s.data)) := by
  have hends : ∃ r, readAll K s count = .ok (some r) ∧
      r = ((0 : ℤ), (List.range size).map s.data) := by
    refine userLoop_ends (I := fun _ r => r.Sound s size)
      (μ := fun r => size - r.fPos.toNat) ?_ ⟨0, Nat.zero_le _, rfl, rfl⟩
      (by simpa using Nat.lt_succ_of_le hle)
    rintro i ⟨fPos, got⟩ ⟨p, hp, hfPos, hgot⟩
    obtain rfl : fPos = p := hfPos
    obtain rfl : got = (List.range p).map s.data := hgot
    rcases hp.lt_or_eq with hlt | rfl
    · have hpos := hcount i
      set k := min (count i) (size - p) with hk
      have hread := readFoo_some hsize hle hlt (transferred_none k)
        (show 0 < k by omega)
      refine .inl ⟨⟨(p + k : ℕ), (List.range (p + k)).map s.data⟩, ?_, ⟨p + k, by omega, rfl, rfl⟩,
        ?_⟩
      · simp only [readRound, hread]
        rw [if_neg (by omega), List.range_add, List.map_append, List.map_map]
        rfl
      · show size - ((p + k : ℕ) : ℤ).toNat < size - (p : ℤ).toNat
        omega
    · refine .inr ⟨_, ?_, rfl⟩
      simp only [readRound, readFoo_nothing hsize hle (.inl le_rfl)]
      rfl
  obtain ⟨r, hr, rfl⟩ := hends
  exact hr

/-! ## One write of the whole value -/

/-- The first bytes of memory are the value written over them. -/
theorem map_overwrite_zero (memory : ℕ → UInt8) (v : List UInt8) :
    (List.range v.length).map (overwrite memory 0 v) = v := by
  apply List.ext_getElem
  · rw [List.length_map, List.length_range]
  · intro j hj hj'
    rw [List.getElem_map, List.getElem_range, overwrite_of_mem (by omega), Nat.sub_zero]
    simp [hj']

theorem writeAll_of_whole (hv : v ≠ []) (hpage : v.length ≤ K.pageSize)
    (hchunk : v.length ≤ chunk 0) :
    writeAll K s v chunk = .ok (some ⟨overwrite s.data 0 v, v.length⟩) := by
  have hpos := List.length_pos_iff.mpr hv
  have hwrite : task08WriteFoo K s v (0 : ℕ) none =
      ⟨v.length, (0 + v.length : ℕ), ⟨overwrite s.data 0 v, v.length⟩⟩ := by
    rw [writeFoo_some K.pageSize_pos (n := v.length) (by omega) (transferred_none _) hpos,
      padded_self]
  have hfirst : writeRound K chunk 0 ⟨s, 0, v⟩ =
      .ok (.inl ⟨⟨overwrite s.data 0 v, v.length⟩, (0 + v.length : ℕ), []⟩) := by
    simp only [writeRound, if_neg hv, List.take_of_length_le hchunk]
    rw [show task08WriteFoo K s v 0 none = _ from hwrite, if_neg (by simpa using hv)]
    simp
  exact userLoop_inl_inr hfirst rfl (by omega)

/-! ## Any other way of writing -/

/-- A writer has `p` bytes behind it, at least one after its first round.  If they are
all there are, `size` is too small. -/
def Writer.Sound (K : Kernel) (v : List UInt8) (i : ℕ) (w : Writer) : Prop :=
  ∃ p ≤ v.length, w.fPos = ((p : ℕ) : ℤ) ∧ w.rest = v.drop p ∧ (i ≠ 0 → 0 < p) ∧
    (p = v.length → ∃ size : ℕ, w.foo.size = size ∧ size < min v.length K.pageSize)

/-- A value that is not written at once, or not accepted, leaves a `size` that is too
small: the last write took only a part, or nothing. -/
theorem writeAll_of_parts (hv : v ≠ []) (hchunk : ∀ i, 0 < chunk i)
    (hparts : ¬ (v.length ≤ K.pageSize ∧ v.length ≤ chunk 0)) :
    ∃ s', writeAll K s v chunk = .ok (some s') ∧
      ∃ size : ℕ, s'.size = size ∧ size < min v.length K.pageSize := by
  have hpos := List.length_pos_iff.mpr hv
  have hpage := K.pageSize_pos
  refine userLoop_ends (I := fun i w => w.Sound K v i) (μ := fun w => w.rest.length) ?_
    ⟨0, Nat.zero_le _, rfl, rfl, fun h => absurd rfl h, fun h => by omega⟩ (Nat.lt_succ_self _)
  rintro i ⟨foo, fPos, rest⟩ ⟨p, hp, hfPos, hrest, hlater, hdone⟩
  obtain rfl : fPos = p := hfPos
  obtain rfl : rest = v.drop p := hrest
  by_cases hnil : v.drop p = []
  · have hend : v.length ≤ p := List.drop_eq_nil_iff.mp hnil
    exact .inr ⟨foo, if_pos hnil, hdone (by omega)⟩
  have hlt : p < v.length := by
    rw [List.drop_eq_nil_iff] at hnil
    omega
  rcases Nat.lt_or_ge p K.pageSize with hroom | hfull
  · have hchunk' := hchunk i
    obtain ⟨n, hn⟩ : ∃ n, min ((v.drop p).take (chunk i)).length (K.pageSize - p) = n := ⟨_, rfl⟩
    have hlength : ((v.drop p).take (chunk i)).length = min (chunk i) (v.length - p) := by
      rw [List.length_take, List.length_drop]
    have hwrite := writeFoo_some (s := foo) hroom hn (transferred_none n) (by omega)
    have hround : writeRound K chunk i ⟨foo, p, v.drop p⟩ = .ok (.inl
        ⟨⟨overwrite foo.data p (padded ((v.drop p).take (chunk i)) n n), n⟩, (p + n : ℕ),
          v.drop (p + n)⟩) := by
      simp only [writeRound, if_neg hnil, hwrite]
      rw [if_neg (by omega), Int.toNat_natCast, List.drop_drop]
    refine .inl ⟨_, hround, ⟨p + n, by omega, rfl, rfl, fun _ => by omega, fun hend =>
      ⟨n, rfl, ?_⟩⟩, ?_⟩
    · -- the write that takes the last byte is not the first
      have hzero : i = 0 → ¬ (v.length ≤ K.pageSize ∧ v.length ≤ chunk i) := by
        rintro rfl
        exact hparts
      by_cases hi : i = 0
      · have := hzero hi
        omega
      · have := hlater hi
        omega
    · show (v.drop (p + n)).length < (v.drop p).length
      rw [List.length_drop, List.length_drop]
      omega
  · refine .inr ⟨⟨foo.data, 0⟩, ?_, 0, rfl, by omega⟩
    simp only [writeRound, if_neg hnil, writeFoo_nothing (.inl hfull)]
    rfl

/-- **Storing a value.**  Whatever was stored before, a value that is written to foo and
read back, in any chunks, comes back up to one page exactly when it is no longer than a
page and the first write is for all of it. -/
theorem storesValue_iff (K : Kernel) (s : Foo) {v : List UInt8} (hv : v ≠ []) {chunk count : ℕ → ℕ}
    (hchunk : ∀ i, 0 < chunk i) (hcount : ∀ i, 0 < count i) :
    StoresValue K s v chunk count ↔ v.length ≤ K.pageSize ∧ v.length ≤ chunk 0 := by
  unfold StoresValue
  constructor
  · intro hstores
    by_contra hparts
    obtain ⟨s', hwrite, size, hsize, hless⟩ := writeAll_of_parts (s := s) hv hchunk hparts
    rw [hwrite, ok_bind] at hstores
    dsimp only at hstores
    rw [readAll_eq hsize (by omega) hcount, Except.ok.injEq, Option.some.injEq,
      Prod.mk.injEq] at hstores
    have hlength := congrArg List.length hstores.2
    rw [List.length_map, List.length_range, List.length_take] at hlength
    omega
  · rintro ⟨hpage, hwhole⟩
    rw [writeAll_of_whole hv hpage hwhole, ok_bind]
    dsimp only
    rw [readAll_eq rfl hpage hcount, map_overwrite_zero, List.take_of_length_le hpage]

/-- Three bytes, written at once and read back one by one. -/
theorem storesValue_whole :
    StoresValue .linux ⟨fun _ => 255, 0⟩ [1, 2, 3] (fun _ => 8) (fun _ => 1) :=
  (storesValue_iff _ _ (by decide) (fun _ => by decide) (fun _ => by decide)).mpr (by decide)

/-- Three bytes in chunks of two: `size` is 1 afterwards, and only the first byte comes
back. -/
theorem loses_parts :
    ¬ StoresValue .linux ⟨fun _ => 255, 0⟩ [1, 2, 3] (fun _ => 2) (fun _ => 8) := by
  decide

end KernelTraining.Task08
