import Mathlib.Data.Int.Notation
import Mathlib.Data.List.GetD
import Mathlib.Data.Nat.Digits.Defs

/-!
# Strings in memory

A string of C is the bytes from an address on up to a NUL, wherever that is.  `strcmp`
finds the NUL by reading on; here it also says how far it has read.  `sprintf` puts decimal
numbers into strings.

Memory is a function from offsets, so a string need not end anywhere near.  `strcmp` compares
with a literal, and stops at the first difference or at the NUL of the literal, so it reads no
further than that is long (`strcmp_read_le`), and finds equality exactly if the bytes are those
of the literal and its NUL (`strcmp_eq_zero_iff`).
-/

namespace KernelTraining.Machine

/-! ## `strcmp` -/

/-- `strcmp(cs, ct)`, `cs` being the characters of a literal: the result, and up to which
offset `ct` is read. -/
def strcmp : List UInt8 → (ℕ → UInt8) → ℕ → ℤ × ℕ
  | [], ct, i => if ct i = 0 then (0, i + 1) else (-1, i + 1)
  | c :: cs, ct, i =>
      if c = ct i then
        if c = 0 then (0, i + 1) else strcmp cs ct (i + 1)
      else if c < ct i then (-1, i + 1)
      else (1, i + 1)

/-- No more is read than the literal and its NUL are long. -/
theorem strcmp_read_le (cs : List UInt8) (ct : ℕ → UInt8) (i : ℕ) :
    (strcmp cs ct i).2 ≤ i + cs.length + 1 := by
  induction cs generalizing i with
  | nil =>
      unfold strcmp
      split_ifs <;> simp
  | cons c cs ih =>
      have hrest := ih (i + 1)
      unfold strcmp
      rw [List.length_cons]
      split_ifs
      · simp only
        omega
      · omega
      · simp only
        omega
      · simp only
        omega

/-- The strings are equal when the bytes are, those of the literal with its NUL. -/
theorem strcmp_eq_zero_iff {cs : List UInt8} (hcs : 0 ∉ cs) (ct : ℕ → UInt8) (i : ℕ) :
    (strcmp cs ct i).1 = 0 ↔ ∀ j ≤ cs.length, ct (i + j) = cs.getD j 0 := by
  induction cs generalizing i with
  | nil =>
      have hnul : (∀ j ≤ ([] : List UInt8).length, ct (i + j) = ([] : List UInt8).getD j 0) ↔
          ct i = 0 := by simp
      rw [hnul]
      unfold strcmp
      split_ifs with hct <;> simp [hct]
  | cons c cs ih =>
      rw [List.mem_cons, not_or] at hcs
      have hsplit : (∀ j ≤ (c :: cs).length, ct (i + j) = (c :: cs).getD j 0) ↔
          c = ct i ∧ ∀ j ≤ cs.length, ct (i + 1 + j) = cs.getD j 0 := by
        constructor
        · intro hall
          refine ⟨(hall 0 (Nat.zero_le _)).symm, ?_⟩
          intro j hj
          have := hall (j + 1) (Nat.succ_le_succ hj)
          rwa [List.getD_cons_succ, show i + (j + 1) = i + 1 + j by omega] at this
        · rintro ⟨hfirst, hrest⟩ j hj
          cases j with
          | zero => exact hfirst.symm
          | succ j =>
              rw [List.getD_cons_succ, show i + (j + 1) = i + 1 + j by omega]
              exact hrest j (Nat.le_of_succ_le_succ hj)
      rw [hsplit]
      unfold strcmp
      split_ifs with hfirst hnul hlt
      · exact absurd hnul.symm hcs.1
      · rw [ih hcs.2, and_iff_right hfirst]
      · simp [hfirst]
      · simp [hfirst]

/-- What reads like a literal and its NUL has no NUL before that. -/
theorem length_le_of_agree {cs : List UInt8} (hcs : 0 ∉ cs) {ct : ℕ → UInt8}
    (hct : ∀ j ≤ cs.length, ct j = cs.getD j 0) {n : ℕ} (hn : n ≤ cs.length → ct n = 0) :
    cs.length ≤ n := by
  rcases Nat.lt_or_ge n cs.length with hlt | hge
  · have hbyte := hn hlt.le
    rw [hct n hlt.le, List.getD_eq_getElem _ _ hlt] at hbyte
    exact absurd (hbyte ▸ List.getElem_mem _) hcs
  · exact hge

/-- The bytes that read like a literal and its NUL, when more NULs follow them. -/
theorem getD_eq_iff {bs cs : List UInt8} (hcs : 0 ∉ cs) :
    (∀ j ≤ cs.length, bs.getD j 0 = cs.getD j 0) ↔ bs = cs ∨ cs ++ [0] <+: bs := by
  constructor
  · intro hall
    have hlong : cs.length ≤ bs.length :=
      length_le_of_agree hcs hall fun _ => List.getD_eq_default _ _ le_rfl
    have htake : bs.take cs.length = cs := by
      apply List.ext_getElem
      · rw [List.length_take]
        omega
      · intro j hj hj'
        have hbyte := hall j hj'.le
        rw [List.getD_eq_getElem _ _ (by omega), List.getD_eq_getElem _ _ hj'] at hbyte
        rw [List.getElem_take, hbyte]
    rcases Nat.lt_or_eq_of_le hlong with hlt | heq
    · right
      have hnul : bs[cs.length] = 0 := by
        have hbyte := hall _ le_rfl
        rwa [List.getD_eq_getElem _ _ hlt, List.getD_eq_default _ _ le_rfl] at hbyte
      refine ⟨bs.drop (cs.length + 1), ?_⟩
      calc cs ++ [0] ++ bs.drop (cs.length + 1)
          = bs.take cs.length ++ [bs[cs.length]] ++ bs.drop (cs.length + 1) := by rw [htake, hnul]
        _ = bs := by rw [List.take_append_getElem, List.take_append_drop]
    · left
      rwa [heq, List.take_length] at htake
  · rintro (rfl | ⟨rest, rfl⟩) j hj
    · rfl
    · rw [List.append_assoc]
      rcases Nat.lt_or_eq_of_le hj with hlt | rfl
      · rw [List.getD_append _ _ _ _ hlt]
      · rw [List.getD_append_right _ _ _ _ le_rfl, List.getD_eq_default _ _ le_rfl, Nat.sub_self]
        rfl

/-! ## Text -/

/-- The characters of a literal. -/
def ascii (s : String) : List UInt8 := s.toList.map fun c => .ofNat c.toNat

/-- A number in decimal. -/
def decimal (n : ℕ) : List UInt8 := (Nat.toDigits 10 n).map fun c => .ofNat c.toNat

theorem digit_of_mem_decimal {n : ℕ} {b : UInt8} (hb : b ∈ decimal n) :
    48 ≤ b.toNat ∧ b.toNat ≤ 57 := by
  obtain ⟨c, hc, rfl⟩ := List.mem_map.mp hb
  have hdigit := Nat.isDigit_of_mem_toDigits (by decide) (by decide) hc
  have hrange : 48 ≤ c.toNat ∧ c.toNat ≤ 57 := by
    simpa [Char.isDigit, UInt32.le_iff_toNat_le] using hdigit
  rw [UInt8.toNat_ofNat']
  omega

/-- What `%i` and its like print. -/
def signedDecimal (n : ℤ) : List UInt8 := (if n < 0 then [45] else []) ++ decimal n.natAbs

theorem length_decimal_le {n e : ℕ} (he : 0 < e) (hn : n < 10 ^ e) : (decimal n).length ≤ e := by
  rw [decimal, List.length_map]
  exact Nat.toDigits_length 10 n e he hn

end KernelTraining.Machine
