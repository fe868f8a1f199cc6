import KernelTraining.Scull.Usable

/-!
# File positions

`scull_llseek` adds a signed offset to the position, or to the size, in 64 bits, and takes
a negative sum for a position that is out of range.  That is right as long as positions and
sizes are themselves below `2^63`: a sum that overflows then comes out negative
(`wrap64_lt_zero_iff`).  Reads and writes see to that, because the VFS checks where they would
end (`positions_valid`).

Whether the parameters of the devices make any sense does not matter here, so the invariant
of the module cannot be used, nor the specifications of the locked sections that need it: a
device may have arrays of another length than its parameters say.  A call may fault, and
nothing is claimed then.  If it returns, the positions and sizes it leaves can be read off the
code: a transfer moves by at most its count (`scullReadLocked_moves`,
`scullWriteLocked_moves`, with `MovesWithin` for what they have in common), and the new size
is the old one or the new position.

`Positioned` is the invariant, and `Positioned.run` the run lemma, for runs that may end in a
fault.
-/

namespace KernelTraining.Scull

open Machine

/-- A position is a `loff_t` that is not negative. -/
def IsPosition (pos : ℤ) : Prop := 0 ≤ pos ∧ pos < 9223372036854775808

instance (pos : ℤ) : Decidable (IsPosition pos) := inferInstanceAs (Decidable (_ ∧ _))

/-- Every open file is at a position, and the size of every device is one. -/
structure Positioned (s : State) : Prop where
  files : ∀ file ∈ s.files, IsPosition file.fPos
  devices : ∀ dev ∈ s.devices, IsPosition dev.size

/-- The position that a seek asks for: `SEEK_SET`, `SEEK_CUR` and `SEEK_END`. -/
def soughtPosition (dev : ScullDev) (fPos off : ℤ) : ℕ → ℤ
  | 0 => off
  | 1 => fPos + off
  | _ => dev.size + off

/-- A seek from any open file by any offset sets and returns the position it asks for, if
that is one, and otherwise reports an error and changes nothing. -/
def SeeksExactly (s : State) : Prop :=
  ∀ fd file dev, s.lookup fd = some (file, dev) → ∀ off : ℤ, -9223372036854775808 ≤ off →
    off < 9223372036854775808 → ∀ whence < 3,
      s.call (.llseek fd off whence) =
        if IsPosition (soughtPosition dev file.fPos off whence) then
          .ok (⟨soughtPosition dev file.fPos off whence, []⟩, { s with
            files := s.files.set fd
              { file with fPos := soughtPosition dev file.fPos off whence } })
        else .ok (⟨-EINVAL, []⟩, s)

/-! ## One seek -/

/-- The sign test catches every sum that overflows. -/
theorem wrap64_lt_zero_iff {pos off : ℤ} (hpos : IsPosition pos)
    (hlow : -9223372036854775808 ≤ off) (hhigh : off < 9223372036854775808) :
    wrap64 (pos + off) < 0 ↔ ¬ IsPosition (pos + off) := by
  unfold IsPosition at *
  unfold wrap64
  omega

theorem wrap64_of_isPosition {pos : ℤ} (hpos : IsPosition pos) : wrap64 pos = pos :=
  wrap64_eq (by have := hpos.1; omega) hpos.2

theorem scullLlseek_exact {dev : ScullDev} {fPos off : ℤ} {whence : ℕ} (hfPos : IsPosition fPos)
    (hsize : IsPosition dev.size) (hlow : -9223372036854775808 ≤ off)
    (hhigh : off < 9223372036854775808) (hwhence : whence < 3) :
    scullLlseek dev fPos off whence =
      if IsPosition (soughtPosition dev fPos off whence) then
        (soughtPosition dev fPos off whence, soughtPosition dev fPos off whence)
      else (-EINVAL, fPos) := by
  have key : ∀ pos : ℤ, (wrap64 pos < 0 ↔ ¬ IsPosition pos) →
      (if wrap64 pos < 0 then (-EINVAL, fPos) else (wrap64 pos, wrap64 pos)) =
        if IsPosition pos then (pos, pos) else (-EINVAL, fPos) := by
    intro pos hsign
    by_cases hpos : IsPosition pos
    · rw [if_neg (fun h => hsign.mp h hpos), if_pos hpos, wrap64_of_isPosition hpos]
    · rw [if_pos (hsign.mpr hpos), if_neg hpos]
  obtain rfl | rfl | rfl : whence = 0 ∨ whence = 1 ∨ whence = 2 := by omega
  · have hzero : wrap64 (0 + off) < 0 ↔ ¬ IsPosition (0 + off) :=
      wrap64_lt_zero_iff (by decide) hlow hhigh
    rw [Int.zero_add] at hzero
    exact key off hzero
  · exact key _ (wrap64_lt_zero_iff hfPos hlow hhigh)
  · exact key _ (wrap64_lt_zero_iff hsize hlow hhigh)

/-- Whatever a seek is asked for, it ends at a position. -/
theorem scullLlseek_isPosition {dev : ScullDev} {fPos : ℤ} (hfPos : IsPosition fPos) (off : ℤ)
    (whence : ℕ) : IsPosition (scullLlseek dev fPos off whence).2 := by
  have key : ∀ pos : ℤ,
      IsPosition (if wrap64 pos < 0 then (-EINVAL, fPos) else (wrap64 pos, wrap64 pos)).2 := by
    intro pos
    split_ifs with hneg
    · exact hfPos
    · unfold IsPosition wrap64 at *
      omega
  rcases whence with _ | _ | _ | whence
  · exact key off
  · exact key (fPos + off)
  · exact key (dev.size + off)
  · exact hfPos

theorem Positioned.seeksExactly {s : State} (positioned : Positioned s) : SeeksExactly s := by
  intro fd file dev hlookup off hlow hhigh whence hwhence
  obtain ⟨hfile, hdev⟩ := State.lookup_eq_some.mp hlookup
  have hseek := scullLlseek_exact (positioned.files file (List.mem_of_getElem? hfile))
    (positioned.devices dev (List.mem_of_getElem? hdev)) hlow hhigh hwhence
  simp only [State.call, hlookup, hseek]
  split_ifs
  · rfl
  · -- the file is put back as it was
    obtain ⟨hfd, rfl⟩ := List.getElem?_eq_some_iff.mp hfile
    rw [show (File.mk s.files[fd].dev s.files[fd].fPos) = s.files[fd] from rfl,
      List.set_getElem_self]

/-! ## Reads and writes -/

theorem scullFollow_size {h h' : Heap Block} {dev dev' : ScullDev} {n : ℤ}
    {answers answers' : List (Option Addr)} {p : Option Addr}
    (hfollow : scullFollow h dev n answers = .ok (p, dev', h', answers')) :
    dev'.size = dev.size := by
  unfold scullFollow at hfollow
  split at hfollow
  · obtain ⟨_, -, heq⟩ := bind_eq_ok.mp hfollow
    cases heq
    rfl
  · split at hfollow
    · cases hfollow
      rfl
    · obtain ⟨_, -, heq⟩ := bind_eq_ok.mp hfollow
      cases heq
      rfl

theorem clampToQuantum_le (count : ℕ) (quantum qPos : ℤ) :
    clampToQuantum count quantum qPos ≤ count := by
  unfold clampToQuantum
  split_ifs <;> omega

/-- What a transfer of at most `count` bytes from position `p` on does to the position. -/
def MovesWithin (p count : ℕ) (out : Out) : Prop := ∃ n ≤ count, out.fPos = (p + n : ℕ)

theorem MovesWithin.of_fPos {p count : ℕ} {out : Out} (h : out.fPos = p) :
    MovesWithin p count out := ⟨0, Nat.zero_le _, h⟩

section Transfers

variable {quantum qset : ℤ} {h : Heap Block} {dev : ScullDev} {p count : ℕ} {env : Env} {out : Out}

/-- "only up to the end of the device". -/
theorem readCount_le (hsum : p + count < 9223372036854775808) (hinside : ¬ dev.size ≤ toULong p) :
    (if dev.size < toULong ((p : ℤ) + count) then toULong ((dev.size : ℤ) - p) else count) ≤
      count := by
  rw [toULong_natCast (by omega)] at hinside
  rw [← Int.natCast_add, toULong_natCast (by omega)]
  split_ifs with hend
  · rw [← Int.natCast_sub (by omega), toULong_natCast (by omega)]
    omega
  · exact le_rfl

/-- A read leaves the size alone and moves by the bytes it returns, whatever the
parameters. -/
theorem scullReadLocked_moves (hsum : p + count < 9223372036854775808)
    (hread : scullReadLocked quantum qset h dev count p env = .ok out) :
    out.dev.size = dev.size ∧ MovesWithin p count out := by
  unfold scullReadLocked at hread
  dsimp only at hread
  split at hread
  · cases hread
    exact ⟨rfl, .of_fPos rfl⟩
  rename_i hinside
  have hcount := readCount_le hsum hinside
  generalize (if dev.size < toULong ((p : ℤ) + count) then toULong ((dev.size : ℤ) - p)
    else count) = n at hcount hread
  obtain ⟨loc, -, hread⟩ := bind_eq_ok.mp hread
  obtain ⟨⟨dptr, dev', h', _⟩, hfollow, hread⟩ := bind_eq_ok.mp hread
  have hsize := scullFollow_size hfollow
  cases dptr with
  | none =>
      cases hread
      exact ⟨hsize, .of_fPos rfl⟩
  | some dptr =>
      obtain ⟨node, -, hread⟩ := bind_eq_ok.mp hread
      split at hread
      · cases hread
        exact ⟨hsize, .of_fPos rfl⟩
      obtain ⟨entries, -, hread⟩ := bind_eq_ok.mp hread
      obtain ⟨entry, -, hread⟩ := bind_eq_ok.mp hread
      cases entry with
      | none =>
          cases hread
          exact ⟨hsize, .of_fPos rfl⟩
      | some q =>
          obtain ⟨bytes, -, hread⟩ := bind_eq_ok.mp hread
          obtain ⟨off, -, hread⟩ := bind_eq_ok.mp hread
          have hclamp := clampToQuantum_le n quantum loc.qPos
          split at hread
          · cases hread
            exact ⟨hsize, .of_fPos rfl⟩
          · cases hread
            exact ⟨hsize, _, hclamp.trans hcount, wrap64_natCast_add (by omega)⟩

/-- A write moves by the bytes it returns, and the size stays or becomes the new
position. -/
theorem scullWriteLocked_moves {buf : List UInt8} (hsum : p + buf.length < 9223372036854775808)
    (hwrite : scullWriteLocked quantum qset h dev buf p env = .ok out) :
    ((out.dev.size : ℤ) = dev.size ∨ (out.dev.size : ℤ) = out.fPos) ∧
      MovesWithin p buf.length out := by
  unfold scullWriteLocked at hwrite
  dsimp only at hwrite
  obtain ⟨loc, -, hwrite⟩ := bind_eq_ok.mp hwrite
  obtain ⟨⟨dptr, dev', h₁, answers⟩, hfollow, hwrite⟩ := bind_eq_ok.mp hwrite
  have hsize := scullFollow_size hfollow
  have hkept : (dev'.size : ℤ) = dev.size := by rw [hsize]
  cases dptr with
  | none =>
      cases hwrite
      exact ⟨.inl hkept, .of_fPos rfl⟩
  | some dptr =>
      obtain ⟨⟨data, h₂, answers⟩, -, hwrite⟩ := bind_eq_ok.mp hwrite
      cases data with
      | none =>
          cases hwrite
          exact ⟨.inl hkept, .of_fPos rfl⟩
      | some data =>
          obtain ⟨⟨q, h₃, answers⟩, -, hwrite⟩ := bind_eq_ok.mp hwrite
          cases q with
          | none =>
              cases hwrite
              exact ⟨.inl hkept, .of_fPos rfl⟩
          | some q =>
              obtain ⟨bytes, -, hwrite⟩ := bind_eq_ok.mp hwrite
              obtain ⟨off, -, hwrite⟩ := bind_eq_ok.mp hwrite
              obtain ⟨h₄, -, hwrite⟩ := bind_eq_ok.mp hwrite
              have hclamp := clampToQuantum_le buf.length quantum loc.qPos
              generalize clampToQuantum buf.length quantum loc.qPos = n at hclamp hwrite
              rw [wrap64_natCast_add (by omega), toULong_natCast (by omega)] at hwrite
              split at hwrite
              · cases hwrite
                exact ⟨.inl hkept, .of_fPos rfl⟩
              · cases hwrite
                refine ⟨?_, n, hclamp, rfl⟩
                dsimp only
                split_ifs
                · exact .inr rfl
                · exact .inl hkept

end Transfers

/-! ## Runs -/

section Calls

variable {s s' : State} {reply : Reply}

theorem scullTrim_size {scullQuantum scullQset : ℤ} {h h' : Heap Block} {dev dev' : ScullDev}
    (htrim : scullTrim scullQuantum scullQset h dev = .ok (dev', h')) : dev'.size = 0 := by
  obtain ⟨_, -, heq⟩ := bind_eq_ok.mp htrim
  cases heq
  rfl

/-- A transfer that ends at a position and leaves a size that is one. -/
theorem Positioned.settle (positioned : Positioned s) {fd : ℕ} {file : File} {out : Out}
    (hfPos : IsPosition out.fPos) (hsize : IsPosition out.dev.size) :
    Positioned (s.settle fd file out) where
  files := by
    intro f hf
    rcases List.mem_or_eq_of_mem_set hf with hmem | rfl
    · exact positioned.files f hmem
    · exact hfPos
  devices := by
    intro d hd
    rcases List.mem_or_eq_of_mem_set hd with hmem | rfl
    · exact positioned.devices d hmem
    · exact hsize

theorem Positioned.open (positioned : Positioned s) {minor flags : ℕ} {env : Env}
    (hopen : scullOpen s minor flags env = .ok (reply, s')) : Positioned s' := by
  have hfiles : ∀ file ∈ s.files ++ [⟨minor, 0⟩], IsPosition file.fPos := by
    intro file hfile
    rcases List.mem_append.mp hfile with hmem | hmem
    · exact positioned.files file hmem
    · rw [List.mem_singleton.mp hmem]
      exact ⟨le_rfl, show (0 : ℤ) < 9223372036854775808 by decide⟩
  unfold scullOpen at hopen
  split at hopen
  · cases hopen
    exact positioned
  split_ifs at hopen
  · cases hopen
    exact positioned
  · obtain ⟨⟨dev', h'⟩, htrim, heq⟩ := bind_eq_ok.mp hopen
    cases heq
    refine ⟨hfiles, ?_⟩
    intro d hd
    rcases List.mem_or_eq_of_mem_set hd with hmem | rfl
    · exact positioned.devices d hmem
    · rw [scullTrim_size htrim]
      decide
  · cases hopen
    exact ⟨hfiles, positioned.devices⟩

/-- What a transfer that goes through leaves. -/
theorem finish_of_map {x : Except Fault Out} {fd : ℕ} {file : File}
    (h : x.map (s.finish fd file) = .ok (reply, s')) :
    ∃ out, x = .ok out ∧ s' = s.settle fd file out := by
  cases x with
  | error fault => cases h
  | ok out =>
      cases h
      exact ⟨out, rfl, rfl⟩

/-- **Every call keeps positions and sizes in range**, if it returns at all. -/
theorem Positioned.call (positioned : Positioned s) {c : Call}
    (hcall : s.call c = .ok (reply, s')) : Positioned s' := by
  cases c with
  | «open» minor flags env => exact positioned.open hcall
  | read fd count env =>
      rcases s.call_read_cases fd count env with
        ⟨_, _, hrefused, -⟩ | ⟨file, dev, p, hfile, hdev, -, hsum, -, hmap⟩
      · cases hrefused.symm.trans hcall
        exact positioned
      obtain ⟨out, hread, rfl⟩ := finish_of_map (hmap.symm.trans hcall)
      obtain ⟨hsize, n, hn, hfPos⟩ := scullReadLocked_moves hsum hread
      apply positioned.settle
      · rw [hfPos]
        exact ⟨by omega, by omega⟩
      · rw [hsize]
        exact positioned.devices dev (List.mem_of_getElem? hdev)
  | write fd buf env =>
      rcases s.call_write_cases fd buf env with
        ⟨_, _, hrefused, -⟩ | ⟨file, dev, p, hfile, hdev, -, hsum, -, hmap⟩
      · cases hrefused.symm.trans hcall
        exact positioned
      obtain ⟨out, hwrite, rfl⟩ := finish_of_map (hmap.symm.trans hcall)
      obtain ⟨hsize, n, hn, hfPos⟩ := scullWriteLocked_moves hsum hwrite
      have hposition : IsPosition out.fPos := by
        rw [hfPos]
        exact ⟨by omega, by omega⟩
      apply positioned.settle hposition
      rcases hsize with hkept | hmoved
      · rw [hkept]
        exact positioned.devices dev (List.mem_of_getElem? hdev)
      · rwa [hmoved]
  | llseek fd off whence =>
      simp only [State.call] at hcall
      cases hlookup : s.lookup fd with
      | none =>
          rw [hlookup] at hcall
          cases hcall
          exact positioned
      | some q =>
          obtain ⟨file, dev⟩ := q
          rw [hlookup] at hcall
          cases hcall
          refine ⟨?_, positioned.devices⟩
          intro f hf
          rcases List.mem_or_eq_of_mem_set hf with hmem | rfl
          · exact positioned.files f hmem
          · exact scullLlseek_isPosition
              (positioned.files file (List.mem_of_getElem? (State.lookup_eq_some.mp hlookup).1)) off
              whence
  | ioctl cmd arg env =>
      cases hcall
      exact ⟨positioned.files, positioned.devices⟩

theorem Positioned.init (scullQuantum scullQset : ℤ) (scullNrDevs : ℕ) :
    Positioned (scullInit scullQuantum scullQset scullNrDevs) where
  files := by
    intro file hfile
    cases hfile
  devices := by
    intro dev hdev
    obtain rfl := List.eq_of_mem_replicate hdev
    exact ⟨le_rfl, show (0 : ℤ) < 9223372036854775808 by decide⟩

/-- Whatever calls have been made and have returned, positions and sizes are in range. -/
theorem Positioned.run (positioned : Positioned s) {calls : List Call}
    (hrun : calls.foldlM State.step s = .ok s') : Positioned s' := by
  induction calls generalizing s with
  | nil =>
      cases hrun
      exact positioned
  | cons c calls ih =>
      rw [List.foldlM_cons] at hrun
      obtain ⟨t, hstep, hrest⟩ := bind_eq_ok.mp hrun
      obtain ⟨reply, hcall⟩ := State.step_eq_ok.mp hstep
      exact ih (positioned.call hcall) hrest

end Calls

/-- **File positions stay valid.**  In every state that any sequence of calls leads to, for
any parameters of the devices, every file position is in `[0, 2^63)`, and a seek by any
offset from any of the three places sets and returns the exact new position if that is in
`[0, 2^63)`, and otherwise returns `-EINVAL` and changes nothing. -/
theorem positions_valid (scullQuantum scullQset : ℤ) (scullNrDevs : ℕ) {calls : List Call}
    {s : State} (hrun : calls.foldlM State.step (scullInit scullQuantum scullQset scullNrDevs) =
      .ok s) : (∀ file ∈ s.files, IsPosition file.fPos) ∧ SeeksExactly s := by
  have positioned := (Positioned.init scullQuantum scullQset scullNrDevs).run hrun
  exact ⟨positioned.files, positioned.seeksExactly⟩

/-- A run with a seek to the last position, a write that the VFS refuses there, and one that
is made. -/
theorem positions_valid_run :
    ∃ s, [.open 0 2 {}, .llseek 0 9223372036854775807 0, .write 0 [1] {}, .llseek 0 5 0,
        .write 0 [1, 2] { answers := [some 1, some 2, some 3] }, .llseek 0 (-3) 2].foldlM
        State.step (scullInit 4 2 1) = .ok s ∧
      (∀ file ∈ s.files, IsPosition file.fPos) ∧ SeeksExactly s := by
  obtain ⟨s, hrun⟩ : ∃ s, [.open 0 2 {}, .llseek 0 9223372036854775807 0, .write 0 [1] {},
      .llseek 0 5 0, .write 0 [1, 2] { answers := [some 1, some 2, some 3] },
      .llseek 0 (-3) 2].foldlM State.step (scullInit 4 2 1) = .ok s := ⟨_, rfl⟩
  exact ⟨s, hrun, positions_valid 4 2 1 hrun⟩

end KernelTraining.Scull
