import KernelTraining.Machine.Libfs
import KernelTraining.Machine.Run
import Mathlib.Algebra.Ring.Nat
import Mathlib.Data.List.GetD

/-!
# Reading a text piece by piece

A text is read by call after call, each of them going on at the position where the last one has
stopped.  What a reader has got is right as long as every call delivers what comes at its
position (`deliver_prefix_iff`).

With `simple_read_from_buffer` that is so, whatever the counts, and whichever copies fail in
part or altogether (`readPieces_text`).

A call is a function of the position, which gives some bytes and the next position.  The rule is
an equivalence, for handlers that do not always deliver the right bytes, and a condition that
says for each position and each call whether it is a right one.  `readPieces_text` is about a
handler whose calls are all right, and says how far the reader has come.
-/

namespace KernelTraining.Machine

/-! ## Calls through one descriptor -/

section Calls

variable {π σ α : Type*}

/-- What calls deliver from a position on, and the position afterwards. -/
def deliver (call : π → σ → List α × σ) : List π → σ → List α × σ
  | [], pos => ([], pos)
  | piece :: pieces, pos =>
      let (first, pos) := call piece pos
      let (rest, pos) := deliver call pieces pos
      (first ++ rest, pos)

theorem deliver_cons (call : π → σ → List α × σ) (piece : π) (pieces : List π) (pos : σ) :
    deliver call (piece :: pieces) pos =
      ((call piece pos).1 ++ (deliver call pieces (call piece pos).2).1,
        (deliver call pieces (call piece pos).2).2) := rfl

/-- **What a reader has got is right exactly if every call has delivered what comes at its
position**, when a call moves the position by what it delivers. -/
theorem deliver_prefix_iff {call : π → ℕ → List α × ℕ} {text : List α} {right : ℕ → π → Prop}
    (hmoves : ∀ piece pos, (call piece pos).2 = pos + (call piece pos).1.length)
    (hright : ∀ pos piece, right pos piece ↔ (call piece pos).1 <+: text.drop pos)
    (pieces : List π) (pos : ℕ) :
    (deliver call pieces pos).1 <+: text.drop pos ↔
      EveryStep (fun pos piece => (Except.ok (call piece pos).2 : Except Fault ℕ)) right pos
        pieces := by
  induction pieces generalizing pos with
  | nil => exact iff_of_true List.nil_prefix trivial
  | cons piece pieces ih =>
      have hstep : EveryStep (fun pos piece => (Except.ok (call piece pos).2 : Except Fault ℕ))
          right pos (piece :: pieces) ↔ (call piece pos).1 <+: text.drop pos ∧
            (deliver call pieces (call piece pos).2).1 <+: text.drop (call piece pos).2 := by
        rw [ih, ← hright]
        exact and_congr_right fun _ => ⟨fun h => h _ rfl, fun h _ heq => Except.ok.inj heq ▸ h⟩
      rw [hstep, deliver_cons]
      constructor
      · intro hall
        have hfirst := (List.prefix_append _ _).trans hall
        obtain ⟨rest, hrest⟩ := hfirst
        refine ⟨⟨rest, hrest⟩, ?_⟩
        have hbehind : text.drop (call piece pos).2 = rest := by
          rw [hmoves, ← List.drop_drop, ← hrest, List.drop_left]
        rw [hbehind]
        rwa [← hrest, List.prefix_append_right_inj] at hall
      · rintro ⟨⟨rest, hrest⟩, hothers⟩
        have hbehind : text.drop (call piece pos).2 = rest := by
          rw [hmoves, ← List.drop_drop, ← hrest, List.drop_left]
        rw [hbehind] at hothers
        rwa [← hrest, List.prefix_append_right_inj]

end Calls

/-! ## `simple_read_from_buffer` -/

/-- A handler that makes a text available. -/
def readText (K : Libfs) (text : List UInt8) (count : ℕ) (fPos : ℤ) (fault : Option ℕ) : ReadOut :=
  K.simpleReadFromBuffer count fPos (fun i => text.getD i 0) text.length fault

/-- The bytes of a text, one by one. -/
theorem map_range_getD {text : List UInt8} {p k : ℕ} (hk : p + k ≤ text.length) :
    (List.range k).map (fun i => text.getD (p + i) 0) = (text.drop p).take k := by
  apply List.ext_getElem
  · simp only [List.length_map, List.length_range, List.length_take, List.length_drop]
    omega
  · intro i hi hi'
    rw [List.length_map, List.length_range] at hi
    rw [List.getElem_map, List.getElem_range, List.getElem_take, List.getElem_drop,
      List.getD_eq_getElem _ _ (by omega)]

/-- The count of a call, and the first byte that cannot be copied. -/
structure Piece where
  count : ℕ
  fault : Option ℕ := none

/-- A call of `read` for a piece. -/
def readPiece (read : ℕ → ℤ → Option ℕ → ReadOut) (piece : Piece) (fPos : ℤ) : List UInt8 × ℤ :=
  let out := read piece.count fPos piece.fault
  (out.copied, out.ppos)

/-- What calls of `read` deliver from a position on, and the position afterwards. -/
def readPieces (read : ℕ → ℤ → Option ℕ → ReadOut) : List Piece → ℤ → List UInt8 × ℤ :=
  deliver (readPiece read)

variable {K : Libfs} {text : List UInt8}

/-- One call delivers the `k` bytes it moves the position by. -/
theorem readText_spec (K : Libfs) {p : ℕ} (hp : p ≤ text.length)
    (htext : text.length < 9223372036854775808) (count : ℕ) (fault : Option ℕ) :
    ∃ k retval, p + k ≤ text.length ∧
      readText K text count p fault = ⟨retval, (p + k : ℕ), (text.drop p).take k⟩ ∧
      (fault = none → k = min count (text.length - p)) := by
  by_cases hnothing : text.length ≤ p ∨ count = 0
  · refine ⟨0, 0, hp, K.read_nothing hnothing, fun _ => ?_⟩
    omega
  obtain ⟨k, hk⟩ : ∃ k, transferred fault (min count (text.length - p)) = k := ⟨_, rfl⟩
  have hle : k ≤ min count (text.length - p) := hk ▸ transferred_le fault _
  have hread : readText K text count p fault = _ :=
    K.read_some (show p < text.length by omega) (show 0 < count by omega) hk
  have hall : fault = none → k = min count (text.length - p) := by
    rintro rfl
    exact hk.symm
  by_cases hzero : k = 0
  · rw [if_pos hzero] at hread
    subst hzero
    exact ⟨0, _, hp, hread, hall⟩
  · rw [if_neg hzero] at hread
    have hposition : wrap64 ((p : ℤ) + k) = ((p + k : ℕ) : ℤ) := by
      rw [Int.natCast_add]
      exact wrap64_eq (by omega) (by omega)
    rw [hposition, map_range_getD (by omega)] at hread
    exact ⟨k, _, by omega, hread, hall⟩

/-- **The pieces are the text**, up to the position where the last of them ends; and if no copy
fails, that is as far as the counts reach. -/
theorem readPieces_text (K : Libfs) (htext : text.length < 9223372036854775808)
    (pieces : List Piece) {p : ℕ} (hp : p ≤ text.length) :
    ∃ q, p ≤ q ∧ q ≤ text.length ∧
      readPieces (readText K text) pieces p = ((text.drop p).take (q - p), (q : ℤ)) ∧
      ((∀ piece ∈ pieces, piece.fault = none) →
        q = min (p + (pieces.map Piece.count).sum) text.length) := by
  induction pieces generalizing p with
  | nil =>
      refine ⟨p, le_rfl, hp, ?_, fun _ => ?_⟩
      · rw [Nat.sub_self, List.take_zero]
        rfl
      · rw [List.map_nil, List.sum_nil]
        omega
  | cons piece pieces ih =>
      obtain ⟨k, retval, hk, hread, hall⟩ := readText_spec K hp htext piece.count piece.fault
      obtain ⟨q, hkq, hq, hrest, hsum⟩ := ih hk
      refine ⟨q, by omega, hq, ?_, ?_⟩
      · have hsplit : (text.drop p).take (q - p) =
            (text.drop p).take k ++ (text.drop (p + k)).take (q - (p + k)) := by
          rw [show q - p = k + (q - (p + k)) by omega, List.take_add, List.drop_drop]
        have hpiece : readPiece (readText K text) piece p =
            ((text.drop p).take k, ((p + k : ℕ) : ℤ)) := by
          rw [readPiece, hread]
        rw [readPieces, deliver_cons, hpiece, ← readPieces, hrest, hsplit]
      · intro hfaults
        have hfirst := hall (hfaults piece List.mem_cons_self)
        have hothers := hsum fun other hmem => hfaults other (List.mem_cons_of_mem piece hmem)
        rw [List.map_cons, List.sum_cons]
        omega

end KernelTraining.Machine
