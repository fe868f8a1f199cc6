import KernelTraining.RawIP.Header

/-!
# What verifies, and on which host

The check field adds its value to the sum of the other words, so a header verifies when
the field brings that sum to a multiple of `65535`.  There is one value that does, the
checksum of the header with a cleared field, except that zero has two representations
(`verifies_iff_checksum`).

In the other byte order every word is multiplied by 256, modulo `65535`, and so is the
checksum: the host that stores it as it is puts the same two bytes in the packet
(`ipChecksum_swap`).

Both are said of any header, as a string of bytes with a length of its own and with any
options, and not only of the one that `main` builds.

* `withCheck` puts a value into the field; the header is taken apart in front of it and behind
  it, and what the two parts add up to is the same whatever the value is
  (`ipChecksum_withCheck`).  That sum is not zero, as the header length is in the first word,
  so the representative of the whole is in `1, …, 65535`, and only one value of the field, or
  two that are equivalent, can bring it to `65535`.
* For the other byte order it is not enough that the sums agree modulo `65535`: zero and
  `65535` would not be told apart.  The sum of words is zero in one order exactly if it is in
  the other (`sum_words_eq_zero_iff`), and this settles it (`onesSum_big`).
-/

namespace KernelTraining.RawIP

open Machine Abstract

/-- `ip->check = check`, the field at offset 10 of a header in memory. -/
def withCheck (e : Endian) (header : List UInt8) (check : UInt16) : List UInt8 :=
  header.take 10 ++ (store16 e check.toNat ++ header.drop 12)

/-! ## The check field -/

theorem words_append (e : Endian) {k : ℕ} {bs : List UInt8} (hlength : bs.length = 2 * k)
    (cs : List UInt8) : words e (bs ++ cs) = words e bs ++ words e cs := by
  induction k generalizing bs with
  | zero =>
      obtain rfl : bs = [] := List.eq_nil_of_length_eq_zero hlength
      rfl
  | succ k ih =>
      rcases bs with _ | ⟨b₀, _ | ⟨b₁, bs⟩⟩
      · simp at hlength
      · rw [List.length_singleton] at hlength
        omega
      · simp only [List.length_cons] at hlength
        simp only [List.cons_append, words, ih (show bs.length = 2 * k by omega)]

theorem length_store16 (e : Endian) (v : ℕ) : (store16 e v).length = 2 := by
  cases e <;> rfl

theorem length_withCheck (e : Endian) {header : List UInt8} (hlength : 12 ≤ header.length)
    (check : UInt16) : (withCheck e header check).length = header.length := by
  simp only [withCheck, List.length_append, List.length_take, List.length_drop, length_store16]
  omega

/-- The words of a header with its check field set. -/
theorem sum_words_withCheck (e : Endian) {header : List UInt8} {n : ℕ} (hn : 5 ≤ n)
    (hlength : 4 * n ≤ header.length) (check : UInt16) :
    (words e ((withCheck e header check).take (4 * n))).sum =
      (words e (header.take 10)).sum + (words e ((header.drop 12).take (4 * n - 12))).sum +
        check.toNat := by
  have hten : (header.take 10).length = 2 * 5 := by
    rw [List.length_take]
    omega
  have htwo : (store16 e check.toNat).length = 2 := length_store16 e check.toNat
  have hfirst : (header.take 10).take (4 * n) = header.take 10 :=
    List.take_of_length_le (by omega)
  have hfield : (store16 e check.toNat).take (4 * n - 10) = store16 e check.toNat :=
    List.take_of_length_le (by omega)
  have htake : (withCheck e header check).take (4 * n) =
      header.take 10 ++ (store16 e check.toNat ++ (header.drop 12).take (4 * n - 12)) := by
    rw [withCheck, List.take_append, List.take_append, hten, htwo, hfirst, hfield,
      show 4 * n - 2 * 5 - 2 = 4 * n - 12 by omega]
  rw [htake, words_append e hten, words_store16 e check.toNat_lt, List.sum_append, List.sum_cons]
  omega

/-- A header that gives its length has a word that is not zero. -/
theorem sum_words_take_ne_zero (e : Endian) {header : List UInt8} {n : ℕ}
    (hihl : ihl header = .ok n) (hn : n ≠ 0) (hlength : 2 ≤ header.length) :
    (words e (header.take 10)).sum ≠ 0 := by
  rcases header with _ | ⟨b₀, _ | ⟨b₁, rest⟩⟩
  · simp at hlength
  · simp at hlength
  · have hbyte : b₀.toNat % 16 = n := Except.ok.inj hihl
    have hfirst : 0 < load16 e b₀ b₁ := by
      cases e <;> (simp only [load16]; omega)
    rw [List.take_succ_cons, List.take_succ_cons, words, List.sum_cons]
    omega

/-- What `ip_checksum` returns, whatever is in the check field. -/
theorem ipChecksum_withCheck (e : Endian) {header : List UInt8} {n : ℕ}
    (hihl : ihl header = .ok n) (hn : 5 ≤ n) (hlength : 4 * n ≤ header.length) :
    ∃ sum ≠ 0, ∀ check : UInt16, ipChecksum e (withCheck e header check) =
      .ok (65535 - endAround 65535 (sum + check.toNat)) := by
  refine ⟨(words e (header.take 10)).sum + (words e ((header.drop 12).take (4 * n - 12))).sum,
    ?_, ?_⟩
  · have := sum_words_take_ne_zero e hihl (by omega) (by omega)
    omega
  · intro check
    rw [← sum_words_withCheck e hn hlength check, ← onesSum_eq (by decide) (words_le e _)]
    have hcheck : 4 * n ≤ (withCheck e header check).length := by
      rw [length_withCheck e (by omega) check]
      exact hlength
    cases header with
    | nil =>
        rw [List.length_nil] at hlength
        omega
    | cons b rest => exact ipChecksum_eq e (Except.ok.inj hihl) hcheck

/-- **What verifies.**  A header of any length, with any options, verifies with exactly one
value in its check field: the checksum of the header with a cleared field.  If that is 0,
it verifies with `0xFFFF` as well. -/
theorem verifies_iff_checksum (e : Endian) {header : List UInt8} {n : ℕ}
    (hihl : ihl header = .ok n) (hn : 5 ≤ n) (hlength : 4 * n ≤ header.length) :
    ∃ c₀, ipChecksum e (withCheck e header 0) = .ok c₀ ∧
      ∀ c : UInt16, ipChecksum e (withCheck e header c) = .ok 0 ↔
        c.toNat = c₀ ∨ c₀ = 0 ∧ c.toNat = 0xFFFF := by
  obtain ⟨sum, hne, hchecksum⟩ := ipChecksum_withCheck e hihl hn hlength
  refine ⟨_, hchecksum 0, ?_⟩
  intro c
  have hle := endAround_le (m := 65535) (by decide) (sum + c.toNat)
  have hzero : 65535 - endAround 65535 (sum + c.toNat) = 0 ↔ 65535 ∣ sum + c.toNat := by
    rw [Nat.sub_eq_zero_iff_le, hle.ge_iff_eq, endAround_eq_self_iff (by decide)]
    exact and_iff_right (by omega)
  rw [hchecksum, Except.ok.injEq, hzero]
  -- the sum and its representative differ by a multiple of 65535
  have hle₀ := endAround_le (m := 65535) (by decide) sum
  have hpos : endAround 65535 sum ≠ 0 := mt endAround_eq_zero_iff.mp hne
  have hmod := endAround_modEq 65535 sum
  have hc := c.toNat_lt
  simp only [UInt16.toNat_zero, Nat.add_zero, Nat.ModEq] at hmod ⊢
  omega

theorem verifies_iff_checksum_options : ∃ c₀,
    ipChecksum .little (withCheck .little ([0x46] ++ List.replicate 23 0x11) 0) = .ok c₀ ∧
      ∀ c : UInt16,
        ipChecksum .little (withCheck .little ([0x46] ++ List.replicate 23 0x11) c) = .ok 0 ↔
          c.toNat = c₀ ∨ c₀ = 0 ∧ c.toNat = 0xFFFF :=
  verifies_iff_checksum .little (n := 6) rfl (by decide) (by decide)

/-! ## The other byte order -/

theorem sum_words_eq_zero_iff (bs : List UInt8) :
    (words .big bs).sum = 0 ↔ (words .little bs).sum = 0 := by
  induction bs using words.induct with
  | case1 b₀ b₁ rest ih =>
      have hword : load16 .big b₀ b₁ = 0 ↔ load16 .little b₀ b₁ = 0 := by
        simp only [load16]
        omega
      rw [words, words, List.sum_cons, List.sum_cons, Nat.add_eq_zero_iff, Nat.add_eq_zero_iff,
        hword, ih]
  | case2 bs hbs => simp [words]

theorem swap16_lt {v : ℕ} (hv : v < 65536) : swap16 v < 65536 := by
  unfold swap16
  omega

theorem swap16_eq_zero_iff (v : ℕ) : swap16 v = 0 ↔ v = 0 := by
  unfold swap16
  omega

/-- The store in the other order. -/
theorem store16_swap16 {v : ℕ} (hv : v < 65536) : store16 .big (swap16 v) = store16 .little v := by
  have hhigh : swap16 v / 256 = v % 256 := by
    unfold swap16
    omega
  have hlow : swap16 v % 256 = v / 256 := by
    unfold swap16
    omega
  simp only [store16, hhigh, hlow]

/-- The one's complement sum in the other order. -/
theorem onesSum_big (bs : List UInt8) :
    onesSum 65535 (words .big bs) = swap16 (onesSum 65535 (words .little bs)) := by
  have hpos : 0 < 65535 := by decide
  rw [onesSum_eq hpos (words_le .big bs), onesSum_eq hpos (words_le .little bs)]
  have hle := endAround_le hpos (words .little bs).sum
  apply endAround_eq
  · have := swap16_lt (show endAround 65535 (words .little bs).sum < 65536 by omega)
    omega
  · calc swap16 (endAround 65535 (words .little bs).sum)
        ≡ 256 * endAround 65535 (words .little bs).sum [MOD 65535] := swap16_modEq _
      _ ≡ 256 * (words .little bs).sum [MOD 65535] := (endAround_modEq _ _).mul_left 256
      _ ≡ (words .big bs).sum [MOD 65535] := (sum_words_big bs).symm
  · rw [swap16_eq_zero_iff, endAround_eq_zero_iff, sum_words_eq_zero_iff]

/-- **The checksum does not depend on the byte order of the host**: the two values are
each other's byte swap, and each host that stores its own puts the same bytes in the
packet. -/
theorem ipChecksum_swap {header : List UInt8} {n : ℕ} (hihl : ihl header = .ok n)
    (hlength : 4 * n ≤ header.length) :
    ∃ little big, ipChecksum .little header = .ok little ∧ ipChecksum .big header = .ok big ∧
      little = swap16 big ∧ store16 .little little = store16 .big big := by
  cases header with
  | nil => cases hihl
  | cons b rest =>
      have hbyte : b.toNat % 16 = n := Except.ok.inj hihl
      refine ⟨_, _, ipChecksum_eq .little hbyte hlength, ipChecksum_eq .big hbyte hlength, ?_⟩
      rw [onesSum_big]
      generalize hsum : onesSum 65535 (words .little ((b :: rest).take (4 * n))) = sum
      have hle : sum ≤ 65535 := by
        rw [← hsum, onesSum_eq (by decide) (words_le .little _)]
        exact endAround_le (by decide) _
      -- the complement of a swapped number is the swapped complement
      have hcomplement : 65535 - swap16 sum = swap16 (65535 - sum) := by
        unfold swap16
        omega
      have hswap : swap16 (swap16 (65535 - sum)) = 65535 - sum := by
        unfold swap16
        omega
      rw [hcomplement, hswap]
      exact ⟨rfl, (store16_swap16 (by omega)).symm⟩

theorem ipChecksum_swap_header : ∃ little big,
    ipChecksum .little ([0x45] ++ List.replicate 19 0x80) = .ok little ∧
      ipChecksum .big ([0x45] ++ List.replicate 19 0x80) = .ok big ∧
      little = swap16 big ∧ store16 .little little = store16 .big big :=
  ipChecksum_swap (n := 5) rfl (by decide)

end KernelTraining.RawIP
