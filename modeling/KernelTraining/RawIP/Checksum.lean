import KernelTraining.Abstract.OnesComplement
import KernelTraining.Machine.Heap

/-!
# The IP checksum

Translation of `ip_checksum`.  A header is a string of bytes in memory, and the function
loads its 16-bit words in the byte order of the host.  What it returns is determined by the
one's complement sum of these words (`ipChecksum_eq`), and in the other byte order that
sum is 256 times itself, modulo `65535`.

* The pointer of the loop is the list of the bytes ahead of it, so a header that is shorter
  than it says is one that runs out of bytes, and a fault.
* The length is counted in bytes and goes down by two.  It is four times the header length, so
  the odd byte at the end, which the function would add as well, is never there; the branch is
  in the model all the same.
* The accumulator has 32 bits, and every addition is cut to them.  The words of a header are
  at most 30, so their sum fits (`sum_words_take_lt`) and the loop computes the ordinary sum
  (`sumLoop_header`).
* `foldCarries_mod`: after two folds the low half is the representative of the sum that
  one's complement arithmetic has for it (`endAround`).  It does not say that nothing is left
  in the upper half, and something can be.
* `sum_words_big` compares the two byte orders, word by word (`swap16_modEq`).
-/

namespace KernelTraining.RawIP

open Machine Abstract

/-- The byte order of the host. -/
inductive Endian where
  | little
  | big
  deriving DecidableEq, Repr

/-- A 16-bit load. -/
def load16 : Endian → UInt8 → UInt8 → ℕ
  | .little, b₀, b₁ => b₀.toNat + 256 * b₁.toNat
  | .big, b₀, b₁ => 256 * b₀.toNat + b₁.toNat

/-- The two bytes of a number in the other order. -/
def swap16 (v : ℕ) : ℕ := v % 256 * 256 + v / 256

/-- `htons`. -/
def htons : Endian → ℕ → ℕ
  | .little, v => swap16 v
  | .big, v => v

/-! ## `ip_checksum` -/

/-- The loop `while (len > 1)`, with the pointer as the bytes ahead of it. -/
def sumLoop (e : Endian) : ℕ → List UInt8 → ℕ → Except Fault (ℕ × List UInt8 × ℕ)
  | len + 2, b₀ :: b₁ :: rest, sum => sumLoop e len rest ((sum + load16 e b₀ b₁) % 4294967296)
  | _ + 2, _, _ => .error .outOfBounds
  | len, rest, sum => .ok (len, rest, sum)

/-- `if (len)`, the odd byte at the end. -/
def sumLast (len : ℕ) (rest : List UInt8) (sum : ℕ) : Except Fault ℕ :=
  if len = 0 then .ok sum
  else
    match rest with
    | [] => .error .outOfBounds
    | b :: _ => .ok ((sum + b.toNat) % 4294967296)

/-- `sum = (sum >> 16) + (sum & 0xFFFF)` and `sum += (sum >> 16)`. -/
def foldCarries (sum : ℕ) : ℕ :=
  let sum := (sum / 65536 + sum % 65536) % 4294967296
  (sum + sum / 65536) % 4294967296

/-- `(uint16_t) ~sum`. -/
def complement16 (sum : ℕ) : ℕ := (4294967295 - sum) % 65536

/-- `ip->ihl`, the low bits of the first byte in either order of the bit-fields. -/
def ihl (header : List UInt8) : Except Fault ℕ :=
  match header with
  | [] => .error .outOfBounds
  | b :: _ => .ok (b.toNat % 16)

/-- `ip_checksum`. -/
def ipChecksum (e : Endian) (header : List UInt8) : Except Fault ℕ := do
  let ihl ← ihl header
  let (len, rest, sum) ← sumLoop e (ihl * 4) header 0
  let sum ← sumLast len rest sum
  pure (complement16 (foldCarries sum))

/-! ## The sum -/

/-- The 16-bit words of a string of bytes. -/
def words (e : Endian) : List UInt8 → List ℕ
  | b₀ :: b₁ :: rest => load16 e b₀ b₁ :: words e rest
  | _ => []

theorem load16_le (e : Endian) (b₀ b₁ : UInt8) : load16 e b₀ b₁ ≤ 65535 := by
  have h₀ := b₀.toNat_lt
  have h₁ := b₁.toNat_lt
  cases e <;> (simp only [load16]; omega)

theorem words_le (e : Endian) (bs : List UInt8) : ∀ w ∈ words e bs, w ≤ 65535 := by
  induction bs using words.induct with
  | case1 b₀ b₁ rest ih => exact List.forall_mem_cons.mpr ⟨load16_le e b₀ b₁, ih⟩
  | case2 bs hbs => simp [words]

/-- The loop adds the words of the first `2 * n` bytes. -/
theorem sumLoop_eq (e : Endian) {n : ℕ} {bs : List UInt8} (hlength : 2 * n ≤ bs.length) (sum : ℕ) :
    sumLoop e (2 * n) bs (sum % 4294967296) =
      .ok (0, bs.drop (2 * n), (sum + (words e (bs.take (2 * n))).sum) % 4294967296) := by
  induction n generalizing bs sum with
  | zero => simp [sumLoop, words]
  | succ n ih =>
      obtain ⟨b₀, b₁, rest, rfl⟩ : ∃ b₀ b₁ rest, bs = b₀ :: b₁ :: rest := by
        rcases bs with _ | ⟨b₀, _ | ⟨b₁, rest⟩⟩
        · simp at hlength
        · rw [List.length_singleton] at hlength
          omega
        · exact ⟨b₀, b₁, rest, rfl⟩
      have hrest : 2 * n ≤ rest.length := by
        simp only [List.length_cons] at hlength
        omega
      rw [show 2 * (n + 1) = 2 * n + 2 from rfl, sumLoop, Nat.mod_add_mod, ih hrest]
      simp [words, Nat.add_assoc]

/-- **Two folds are enough**: what they leave in the low half is the one's complement
representative of the sum. -/
theorem foldCarries_mod {sum : ℕ} (hsum : sum < 4294967296) :
    foldCarries sum % 65536 = endAround 65535 sum := by
  have hfirst : (sum / 65536 + sum % 65536) % 4294967296 = sum / 65536 + sum % 65536 :=
    Nat.mod_eq_of_lt (by omega)
  have hfold : foldCarries sum =
      sum / 65536 + sum % 65536 + (sum / 65536 + sum % 65536) / 65536 := by
    simp only [foldCarries, hfirst]
    exact Nat.mod_eq_of_lt (by omega)
  -- each carry that is added back takes 65535 from the sum
  have hcarries : sum = foldCarries sum % 65536 +
      65535 * (sum / 65536 + (sum / 65536 + sum % 65536) / 65536) := by omega
  refine (endAround_eq (by omega) ?_ (by omega)).symm
  conv_rhs => rw [hcarries]
  simp [Nat.ModEq]

theorem complement16_eq {sum : ℕ} (hsum : sum < 4294967296) :
    complement16 sum = 65535 - sum % 65536 := by
  unfold complement16
  omega

/-- The sum of the words of `n` bytes. -/
theorem sum_words_le (e : Endian) (bs : List UInt8) : (words e bs).sum * 2 ≤ 65535 * bs.length := by
  induction bs using words.induct with
  | case1 b₀ b₁ rest ih =>
      have hword := load16_le e b₀ b₁
      simp only [words, List.sum_cons, List.length_cons]
      omega
  | case2 bs hbs => simp [words]

/-- A header has at most 30 words, so their sum fits 32 bits. -/
theorem sum_words_take_lt (e : Endian) (header : List UInt8) {n : ℕ} (hn : n < 16) :
    (words e (header.take (4 * n))).sum < 4294967296 := by
  have hsum := sum_words_le e (header.take (4 * n))
  have htake := List.length_take_le (4 * n) header
  omega

/-- The loop over a header as long as it says. -/
theorem sumLoop_header (e : Endian) {header : List UInt8} {n : ℕ} (hn : n < 16)
    (hlength : 4 * n ≤ header.length) : sumLoop e (n * 4) header 0 =
      .ok (0, header.drop (n * 4), (words e (header.take (4 * n))).sum) := by
  have hloop := sumLoop_eq e (show 2 * (2 * n) ≤ header.length by omega) 0
  rw [show 2 * (2 * n) = 4 * n by omega, Nat.zero_mod, Nat.zero_add,
    Nat.mod_eq_of_lt (sum_words_take_lt e header hn)] at hloop
  rw [Nat.mul_comm n 4]
  exact hloop

/-- **What `ip_checksum` returns** for a header as long as it says: the complement of the
one's complement sum of its words. -/
theorem ipChecksum_eq (e : Endian) {b : UInt8} {rest : List UInt8} {n : ℕ}
    (hihl : b.toNat % 16 = n) (hlength : 4 * n ≤ (b :: rest).length) :
    ipChecksum e (b :: rest) =
      .ok (65535 - onesSum 65535 (words e ((b :: rest).take (4 * n)))) := by
  have hn : n < 16 := by omega
  have hloop := sumLoop_header e hn hlength
  have hlt := sum_words_take_lt e (b :: rest) hn
  have hle := words_le e ((b :: rest).take (4 * n))
  generalize words e ((b :: rest).take (4 * n)) = ws at hloop hlt hle ⊢
  have hlast : sumLast 0 ((b :: rest).drop (n * 4)) ws.sum = .ok ws.sum := if_pos rfl
  have hfold : foldCarries ws.sum < 4294967296 := Nat.mod_lt _ (by decide)
  simp only [ipChecksum, ihl, hihl, ok_bind, hloop, hlast, complement16_eq hfold,
    foldCarries_mod hlt, onesSum_eq (show 0 < 65535 by decide) hle]
  rfl

/-! ## The other byte order -/

/-- Swapping the bytes of a word multiplies it by 256 in one's complement. -/
theorem swap16_modEq (v : ℕ) : swap16 v ≡ 256 * v [MOD 65535] := by
  have hdiv := Nat.div_add_mod v 256
  have hsum : 256 * v = swap16 v + 65535 * (v / 256) := by
    unfold swap16
    omega
  rw [hsum]
  simp [Nat.ModEq]

theorem load16_big (b₀ b₁ : UInt8) : load16 .big b₀ b₁ = swap16 (load16 .little b₀ b₁) := by
  have h₀ := b₀.toNat_lt
  simp only [load16, swap16]
  omega

theorem sum_words_big (bs : List UInt8) :
    (words .big bs).sum ≡ 256 * (words .little bs).sum [MOD 65535] := by
  induction bs using words.induct with
  | case1 b₀ b₁ rest ih =>
      rw [words, words, List.sum_cons, List.sum_cons, Nat.mul_add, load16_big]
      exact (swap16_modEq (load16 .little b₀ b₁)).add ih
  | case2 bs hbs =>
      simp only [words, List.sum_nil]
      rfl

end KernelTraining.RawIP
