import KernelTraining.RawIP.Checksum

/-!
# Two carry folds

`ip_checksum` adds in 32 bits, folds the carries twice and cuts what is left to 16 bits.
The Internet checksum is defined without any of that: the words are added up, the carries
are added back in until there are none, and the result is complemented.  The two agree on
every header (`ipChecksum_exact`).  A header is too short for its words to fill the
accumulator, and the carry that the second fold can leave in bit 16 is one that the cut may
drop.

* That no addition wraps is said of the additions themselves.  `checksumSums` lists the sums
  before they are cut, in the order in which the function computes them; `sumLoop_loopSums`,
  `sumLast_lastSums` and `foldCarries_foldSums` tie the list to the function, whose variable
  always holds the last of them, cut to 32 bits.
* In the loop each sum is at most the sum of all words (`loopSums_le`), which is where the
  length of a header comes in; the two sums of the folds are smaller than what is folded.
* `internetChecksum` folds until no carry is left, and ends at the same representative
  (`carryAround_eq` in `Abstract.OnesComplement`).  `ComplementsSum` says what the result is
  without any folding, so that the definition can be checked too.
-/

namespace KernelTraining.RawIP

open Machine Abstract

/-- The Internet checksum of a sequence of 16-bit words. -/
def internetChecksum (ws : List ℕ) : ℕ := 0xFFFF - carryAround 0xFFFF (by decide) ws.sum

/-- The checksum is `0xFFFF` less the representative of the sum modulo `0xFFFF` that is in
`1, …, 0xFFFF`, or `0xFFFF` if all words are 0. -/
def ComplementsSum (ws : List ℕ) (checksum : ℕ) : Prop :=
  if ∀ w ∈ ws, w = 0 then checksum = 0xFFFF
  else ∃ r, 1 ≤ r ∧ r ≤ 0xFFFF ∧ r ≡ ws.sum [MOD 0xFFFF] ∧ checksum = 0xFFFF - r

/-! ## The additions -/

/-- `sum += *ip_header++` in every round of the loop: the sums before they are cut to 32
bits. -/
def loopSums (e : Endian) : ℕ → List UInt8 → ℕ → List ℕ
  | len + 2, b₀ :: b₁ :: rest, sum =>
      (sum + load16 e b₀ b₁) :: loopSums e len rest ((sum + load16 e b₀ b₁) % 4294967296)
  | _, _, _ => []

/-- The same for the odd byte at the end. -/
def lastSums (len : ℕ) (rest : List UInt8) (sum : ℕ) : List ℕ :=
  if len = 0 then [] else (rest.take 1).map fun b => sum + b.toNat

/-- The same for the two folds. -/
def foldSums (sum : ℕ) : List ℕ :=
  let folded := sum / 65536 + sum % 65536
  [folded, folded % 4294967296 + folded % 4294967296 / 65536]

/-- The sums that `ip_checksum` computes, before they are cut to 32 bits. -/
def checksumSums (e : Endian) (header : List UInt8) : Except Fault (List ℕ) := do
  let ihl ← ihl header
  let (len, rest, sum) ← sumLoop e (ihl * 4) header 0
  let last ← sumLast len rest sum
  pure (loopSums e (ihl * 4) header 0 ++ lastSums len rest sum ++ foldSums last)

section Sums

variable {e : Endian} {len len' : ℕ} {bs rest : List UInt8} {sum sum' : ℕ}

/-- The loop leaves the last of its sums, cut to 32 bits. -/
theorem sumLoop_loopSums (hsum : sum < 4294967296)
    (hloop : sumLoop e len bs sum = .ok (len', rest, sum')) :
    sum' = (loopSums e len bs sum).getLastD sum % 4294967296 := by
  induction len, bs, sum using loopSums.induct e with
  | case1 len b₀ b₁ bs sum ih =>
      have hlast := ih (Nat.mod_lt _ (by decide)) hloop
      rw [hlast, loopSums]
      cases loopSums e len bs ((sum + load16 e b₀ b₁) % 4294967296) with
      | nil => simp
      | cons s sums => simp [List.getLastD]
  | case2 len bs sum hstop =>
      have hnone : loopSums e len bs sum = [] := by
        unfold loopSums
        split
        · exact absurd rfl (hstop _ _ _ _ rfl)
        · rfl
      unfold sumLoop at hloop
      split at hloop
      · exact absurd rfl (hstop _ _ _ _ rfl)
      · cases hloop
      · cases hloop
        rw [hnone, List.getLastD_nil, Nat.mod_eq_of_lt hsum]

theorem sumLast_lastSums (hsum : sum < 4294967296) (hlast : sumLast len rest sum = .ok sum') :
    sum' = (lastSums len rest sum).getLastD sum % 4294967296 := by
  unfold sumLast at hlast
  unfold lastSums
  split_ifs at hlast ⊢
  · cases hlast
    exact (Nat.mod_eq_of_lt hsum).symm
  · cases rest with
    | nil => cases hlast
    | cons b rest =>
        cases hlast
        rfl

theorem foldCarries_foldSums (sum : ℕ) :
    foldCarries sum = (foldSums sum).getLastD sum % 4294967296 := rfl

/-- No sum of the loop is larger than the sum of all words. -/
theorem loopSums_le (hsum : sum + (words e (bs.take len)).sum < 4294967296) :
    ∀ s ∈ loopSums e len bs sum, s ≤ sum + (words e (bs.take len)).sum := by
  induction len, bs, sum using loopSums.induct e with
  | case1 len b₀ b₁ bs sum ih =>
      have hwords : (words e ((b₀ :: b₁ :: bs).take (len + 2))).sum =
          load16 e b₀ b₁ + (words e (bs.take len)).sum := by
        rw [List.take_succ_cons, List.take_succ_cons, words, List.sum_cons]
      rw [hwords, ← Nat.add_assoc] at hsum ⊢
      have hfits : (sum + load16 e b₀ b₁) % 4294967296 = sum + load16 e b₀ b₁ :=
        Nat.mod_eq_of_lt (by omega)
      rw [hfits] at ih
      rw [loopSums, hfits, List.forall_mem_cons]
      exact ⟨Nat.le_add_right _ _, ih hsum⟩
  | case2 len bs sum hstop =>
      unfold loopSums
      split
      · exact absurd rfl (hstop _ _ _ _ rfl)
      · simp

theorem foldSums_lt (hsum : sum < 4294967296) : ∀ s ∈ foldSums sum, s < 4294967296 := by
  have hfolded : (sum / 65536 + sum % 65536) % 4294967296 = sum / 65536 + sum % 65536 :=
    Nat.mod_eq_of_lt (by omega)
  intro s hs
  simp only [foldSums, hfolded, List.mem_cons, List.not_mem_nil, or_false] at hs
  rcases hs with rfl | rfl <;> omega

end Sums

theorem ihl_lt {header : List UInt8} {n : ℕ} (hihl : ihl header = .ok n) : n < 16 := by
  cases header with
  | nil => cases hihl
  | cons b rest =>
      obtain rfl := Except.ok.inj hihl
      exact Nat.mod_lt _ (by decide)

/-- **No addition wraps**, in a header as long as it says. -/
theorem checksumSums_lt (e : Endian) {header : List UInt8} {n : ℕ} (hihl : ihl header = .ok n)
    (hlength : 4 * n ≤ header.length) :
    ∃ sums, checksumSums e header = .ok sums ∧ ∀ s ∈ sums, s < 4294967296 := by
  have hn := ihl_lt hihl
  have hlt := sum_words_take_lt e header hn
  have hloop := sumLoop_header e hn hlength
  have hlast : sumLast 0 (header.drop (n * 4)) (words e (header.take (4 * n))).sum =
      .ok (words e (header.take (4 * n))).sum := if_pos rfl
  refine ⟨_, by simp only [checksumSums, hihl, ok_bind, hloop, hlast]; rfl, ?_⟩
  intro s hs
  rw [List.mem_append, List.mem_append] at hs
  rcases hs with (hs | hs) | hs
  · have hfits : 0 + (words e (header.take (n * 4))).sum < 4294967296 := by
      rwa [Nat.zero_add, Nat.mul_comm n 4]
    exact (loopSums_le hfits s hs).trans_lt hfits
  · cases hs
  · exact foldSums_lt hlt s hs

/-! ## The checksum -/

theorem complementsSum_internetChecksum (ws : List ℕ) :
    ComplementsSum ws (internetChecksum ws) := by
  have hzero : endAround 0xFFFF ws.sum = 0 ↔ ∀ w ∈ ws, w = 0 := by
    rw [endAround_eq_zero_iff, List.sum_eq_zero_iff_forall_eq_nat]
  unfold ComplementsSum internetChecksum
  rw [carryAround_eq]
  split_ifs with hall
  · rw [hzero.mpr hall]
  · have hpos := Nat.pos_of_ne_zero (mt hzero.mp hall)
    exact ⟨_, hpos, endAround_le (by decide) _, endAround_modEq _ _, rfl⟩

/-- **Two folds are enough.**  For a header as long as it says, which is no more than 60
bytes, no sum that `ip_checksum` computes exceeds 32 bits, and what it returns is the
Internet checksum of the header's words, which complements their sum. -/
theorem ipChecksum_exact (e : Endian) {header : List UInt8} {n : ℕ} (hihl : ihl header = .ok n)
    (hlength : 4 * n ≤ header.length) :
    (∃ sums, checksumSums e header = .ok sums ∧ ∀ sum ∈ sums, sum < 4294967296) ∧
      ∃ checksum, ipChecksum e header = .ok checksum ∧
        checksum = internetChecksum (words e (header.take (4 * n))) ∧
        ComplementsSum (words e (header.take (4 * n))) checksum := by
  refine ⟨checksumSums_lt e hihl hlength, _, ?_, rfl, complementsSum_internetChecksum _⟩
  cases header with
  | nil => cases hihl
  | cons b rest =>
      have hbyte : b.toNat % 16 = n := Except.ok.inj hihl
      rw [ipChecksum_eq e hbyte hlength, onesSum_eq (by decide) (words_le e _), internetChecksum,
        carryAround_eq]

/-- A header of 60 bytes with all options. -/
theorem ipChecksum_exact_options :
    (∃ sums, checksumSums .little (0x4f :: List.replicate 59 0xff) = .ok sums ∧
      ∀ sum ∈ sums, sum < 4294967296) ∧
      ∃ checksum, ipChecksum .little (0x4f :: List.replicate 59 0xff) = .ok checksum ∧
        checksum = internetChecksum (words .little ((0x4f :: List.replicate 59 0xff).take 60)) ∧
        ComplementsSum (words .little ((0x4f :: List.replicate 59 0xff).take 60)) checksum :=
  ipChecksum_exact .little (n := 15) rfl (by decide)

end KernelTraining.RawIP
