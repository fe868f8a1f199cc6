import KernelTraining.Machine.ReadText
import KernelTraining.Task06.Misc
import Mathlib.Algebra.Ring.Nat

/-!
# Reading the id and writing it back

`misc_read` of `misc.c`, which `Task08.c` has again as `task08_read_id`.  The text that is
read is the id and a newline, and the file takes the id alone.  So whatever way a program
reads the file, the file takes what the program has got if it has stopped before the newline,
and not if it has read to the end (`written_back`).

A program may ask for any number of bytes at a time, and copies may fail.  Whatever it does, it
has got the beginning of the text up to some length (`readPieces_text` in `Machine.ReadText`),
and if no copy has failed that length is what its counts add up to.  What is left to show is
what becomes of the first `q` bytes when they are written (`writeId_take`).  Here
`acceptsExactly_writeId` can be used, as none of these beginnings is the id and a NUL; so the
file takes the one that is the id, and no other.
-/

namespace KernelTraining.Task06

open Machine

/-- The handler that makes the id `idstr` available, and a newline behind it. -/
def readId (idstr : List UInt8) (K : Libfs) : ℕ → ℤ → Option ℕ → ReadOut :=
  readText K (idstr ++ [10])

/-- `misc_read`. -/
def miscRead : Libfs → ℕ → ℤ → Option ℕ → ReadOut := readId assignedId

/-- `task08_read_id`. -/
def task08ReadId : Libfs → ℕ → ℤ → Option ℕ → ReadOut := readId assignedId

section Handlers

variable {idstr : List UInt8} {K : Libfs} {stack : ℕ → UInt8} {fPos : ℤ}

/-- The beginnings of what is read, written back. -/
theorem writeId_take (hid : idstr.length < 2147483647) (hnul : 0 ∉ idstr) {q : ℕ}
    (hq : q ≤ idstr.length + 1) :
    (writeId idstr K stack ((idstr ++ [10]).take q) fPos none).retval =
      if q = idstr.length then (idstr.length : ℤ) else -EINVAL := by
  have hlength : ((idstr ++ [10]).take q).length = q := by
    rw [List.length_take, List.length_append, List.length_singleton]
    omega
  have hnot : ¬ idstr ++ [0] <+: (idstr ++ [10]).take q := by
    intro hbegins
    have hends : [(0 : UInt8)] <+: [10] :=
      (List.prefix_append_right_inj idstr).mp (hbegins.trans (List.take_prefix _ _))
    exact absurd (hends.eq_of_length rfl) (by decide)
  have hid_iff : (idstr ++ [10]).take q = idstr ↔ q = idstr.length := by
    constructor
    · intro heq
      rw [heq] at hlength
      exact hlength.symm
    · rintro rfl
      exact List.take_left
  have haccepts : AcceptsExactly idstr ((idstr ++ [10]).take q)
      (writeId idstr K stack ((idstr ++ [10]).take q) fPos none) :=
    (acceptsExactly_writeId hid hnul).mpr hnot
  rw [haccepts, hlength]
  by_cases hstopped : q = idstr.length
  · rw [if_pos (hid_iff.mpr hstopped), if_pos hstopped, hstopped]
  · rw [if_neg (mt hid_iff.mp hstopped), if_neg hstopped]

/-- What any calls through one descriptor deliver, and what comes of writing it back. -/
theorem writeId_readPieces (idstr : List UInt8) (K : Libfs) (stack : ℕ → UInt8) (fPos : ℤ)
    (hid : idstr.length < 2147483647) (hnul : 0 ∉ idstr) (pieces : List Piece) :
    ∃ q ≤ idstr.length + 1,
      readPieces (readId idstr K) pieces 0 = ((idstr ++ [10]).take q, (q : ℤ)) ∧
      ((∀ piece ∈ pieces, piece.fault = none) →
        q = min (pieces.map Piece.count).sum (idstr.length + 1)) ∧
      (writeId idstr K stack (readPieces (readId idstr K) pieces 0).1 fPos none).retval =
        if q = idstr.length then (idstr.length : ℤ) else -EINVAL := by
  have hlength : (idstr ++ [10]).length = idstr.length + 1 := by
    rw [List.length_append, List.length_singleton]
  obtain ⟨q, -, hq, hread, hsum⟩ :=
    readPieces_text K (show (idstr ++ [10]).length < 9223372036854775808 by omega) pieces
      (Nat.zero_le _)
  rw [Nat.sub_zero, List.drop_zero] at hread
  rw [hlength] at hq hsum
  rw [Nat.zero_add] at hsum
  refine ⟨q, hq, hread, hsum, ?_⟩
  have hgot : (readPieces (readId idstr K) pieces 0).1 = (idstr ++ [10]).take q :=
    congrArg Prod.fst hread
  rw [hgot]
  exact writeId_take hid hnul hq

end Handlers

/-- **What a program reads, written back**, for any counts and any copies that fail in part or
altogether: it has got the first `q` bytes of the id and its newline, where `q` is what the
counts add up to unless a copy has failed, and each of the two files takes them back exactly
if `q` is the length of the id. -/
theorem written_back (K : Libfs) (pieces : List Piece) (stack : ℕ → UInt8) (fPos : ℤ) :
    ∃ q : ℕ, q ≤ 13 ∧
      readPieces (miscRead K) pieces 0 = ((assignedId ++ [10]).take q, (q : ℤ)) ∧
      readPieces (task08ReadId K) pieces 0 = ((assignedId ++ [10]).take q, (q : ℤ)) ∧
      ((∀ piece ∈ pieces, piece.fault = none) → q = min (pieces.map Piece.count).sum 13) ∧
      (miscWrite K stack (readPieces (miscRead K) pieces 0).1 fPos none).retval =
        (if q = 12 then 12 else -EINVAL) ∧
      (task08WriteId K stack (readPieces (task08ReadId K) pieces 0).1 fPos none).retval =
        (if q = 12 then 12 else -EINVAL) := by
  obtain ⟨q, hq, hread, hsum, hwritten⟩ :=
    writeId_readPieces assignedId K stack fPos (by decide) (by decide) pieces
  exact ⟨q, hq, hread, hread, hsum, hwritten, hwritten⟩

/-- `cat` reads to the end. -/
example : (miscWrite .linux (fun _ => 0)
    (readPieces (miscRead .linux) [⟨4096, none⟩, ⟨4096, none⟩] 0).1 0 none).retval = -22 := by
  decide

end KernelTraining.Task06
