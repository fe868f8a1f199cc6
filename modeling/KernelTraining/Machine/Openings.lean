import KernelTraining.Machine.Calls

/-!
# Files that are open

A driver sees a file from the moment its `open` has let it in until its `release` lets it
go, which is not the time the VFS has it open: before, the call of `open` stands for the
file, and after, the call of `release` does.  `holders` counts the files of a kind together
with the calls that stand for one, and the rules below say what the steps of the calls do
to that number.

What a driver counts is then compared with `holders`, and the comparison is an invariant: the
number of files alone would be too small while a call is on its way.  When `open` returns, the
call stands for nothing any more and there is a file instead (`holders_open`); when a file is
closed it is the other way round (`holders_close`); so these two leave the number as it is.
It changes only where the driver changes its own counter, when a call begins or ceases to stand
for a file (`holders_set`).

The mode of a file is a parameter, and so is the kind of modes that is counted, as a driver may
have a counter for readers and another one for writers.
-/

namespace KernelTraining.Machine

/-- The number of files of such a mode, open or stood for by a call. -/
def holders {α μ : Type*} (stands : α → Option μ) (p : μ → Bool) (files : List (Option μ))
    (calls : List α) : ℕ :=
  files.countP (Option.any p) + calls.countP fun c => (stands c).any p

section Holders

variable {α μ : Type*} {stands : α → Option μ} {p : μ → Bool} {files : List (Option μ)}
  {calls : List α} {i : ℕ} {c : α}

theorem holders_set (hc : calls[i]? = some c) (c' : α) :
    holders stands p files (calls.set i c') + (if (stands c).any p then 1 else 0) =
      holders stands p files calls + if (stands c').any p then 1 else 0 := by
  have hcount := countP_set hc c' fun c => (stands c).any p
  unfold holders
  omega

/-- A step that leaves open what the call stands for. -/
theorem holders_set_of_eq (hc : calls[i]? = some c) {d : α} (hstands : stands d = stands c) :
    holders stands p files (calls.set i d) = holders stands p files calls :=
  congrArg (_ + ·) (countP_set_of_eq hc (by rw [hstands]))

/-- A call that stands for no file yet. -/
theorem holders_concat (hnone : stands c = none) :
    holders stands p files (calls ++ [c]) = holders stands p files calls := by
  unfold holders
  rw [List.countP_append, List.countP_singleton, hnone]
  rfl

/-- `open` returns, and leaves the file it has stood for. -/
theorem holders_open {c' : α} {m : μ} (hc : calls[i]? = some c) (hsome : stands c = some m)
    (hnone : stands c' = none) :
    holders stands p (files ++ [some m]) (calls.set i c') = holders stands p files calls := by
  have hcount := countP_set hc c' fun c => (stands c).any p
  simp only [hsome, hnone, Option.any_some, Option.any_none, Bool.false_eq_true, if_false] at hcount
  unfold holders
  rw [List.countP_append, List.countP_singleton, Option.any_some]
  omega

/-- A file is closed, and a call of `release` stands for it. -/
theorem holders_close {fd : ℕ} {m : μ} (hfile : files[fd]? = some (some m))
    (hsome : stands c = some m) :
    holders stands p (files.set fd none) (calls ++ [c]) = holders stands p files calls := by
  have hcount := countP_set hfile none (Option.any p)
  simp only [Option.any_some, Option.any_none, Bool.false_eq_true, if_false] at hcount
  unfold holders
  rw [List.countP_append, List.countP_singleton, hsome, Option.any_some]
  omega

theorem holders_map {f : α → α} (hf : ∀ c, stands (f c) = stands c) :
    holders stands p files (calls.map f) = holders stands p files calls := by
  unfold holders
  rw [List.countP_map]
  exact congrArg (_ + ·) (List.countP_congr fun c _ => by rw [Function.comp_apply, hf])

/-- Fewer files are of a narrower kind. -/
theorem holders_mono {q : μ → Bool} (hpq : ∀ m, p m = true → q m = true) :
    holders stands p files calls ≤ holders stands q files calls := by
  have hany : ∀ m : Option μ, m.any p = true → m.any q = true := by
    intro m h
    cases m with
    | none => exact h
    | some m => exact hpq m h
  exact Nat.add_le_add (List.countP_mono_left fun m _ => hany m)
    (List.countP_mono_left fun c _ => hany (stands c))

theorem holders_pos_of_file {m : μ} (hfile : some m ∈ files) (hp : p m = true) :
    0 < holders stands p files calls :=
  Nat.add_pos_left (List.countP_pos_iff.mpr ⟨some m, hfile, hp⟩) _

theorem holders_pos_of_call {m : μ} (hc : c ∈ calls) (hsome : stands c = some m)
    (hp : p m = true) : 0 < holders stands p files calls :=
  Nat.add_pos_right _ (List.countP_pos_iff.mpr ⟨c, hc, by rw [hsome]; exact hp⟩)

end Holders

end KernelTraining.Machine
