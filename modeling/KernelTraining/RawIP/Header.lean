import KernelTraining.RawIP.Checksum

/-!
# The header that RawIP builds

`main` fills in a header, computes its checksum and stores `htons` of it.  But
`ip_checksum` adds words as the host loads them, so its result is in host order and has
to be stored as it is: on a little-endian host the conversion swaps the two bytes, and the
header verifies only when they are equal (`verifies_iff`).

Everything is reduced to sums of words, which are added in an order that does not matter.

* A header is written into memory field by field, in the byte order of the host, and read
  again as words; what is written as one 16-bit field is read as that number
  (`words_store16`).  So the sum of the words can be written down from the fields
  (`Iphdr.sum_words`), and the check field adds its own value (`Iphdr.sum_words_check`).
* A header verifies if its sum is a multiple of `65535`, in whichever byte order it is
  computed, as 256 is prime to that number (`Iphdr.verifies_iff_dvd`).  The sum is not 0, since
  the first word has the header length in it.
* The checksum of the draft is the negative of its sum, modulo `65535`, and its byte swap is
  256 times that.  So on a little-endian host the header sums up to -255 times the sum of the
  draft, which is a multiple of `65535` exactly if `257` divides that sum.  It is spelled out in
  `sum_words_draft`.
-/

namespace KernelTraining.RawIP

open Machine Abstract

/-- `struct iphdr`. -/
structure Iphdr where
  version : Fin 16
  ihl : Fin 16
  tos : UInt8
  totLen : UInt16
  id : UInt16
  fragOff : UInt16
  ttl : UInt8
  protocol : UInt8
  check : UInt16
  saddr : UInt32
  daddr : UInt32

/-! ## The header in memory -/

/-- A 16-bit store. -/
def store16 (e : Endian) (v : ℕ) : List UInt8 :=
  match e with
  | .little => [.ofNat (v % 256), .ofNat (v / 256)]
  | .big => [.ofNat (v / 256), .ofNat (v % 256)]

/-- A 32-bit store. -/
def store32 (e : Endian) (v : ℕ) : List UInt8 :=
  match e with
  | .little => store16 .little (v % 65536) ++ store16 .little (v / 65536)
  | .big => store16 .big (v / 65536) ++ store16 .big (v % 65536)

/-- The bytes of a header; the two bit-fields share the first one. -/
def Iphdr.toBytes (e : Endian) (ip : Iphdr) : List UInt8 :=
  .ofNat (ip.version * 16 + ip.ihl) :: ip.tos :: (store16 e ip.totLen.toNat ++
    (store16 e ip.id.toNat ++ (store16 e ip.fragOff.toNat ++
      (ip.ttl :: ip.protocol :: (store16 e ip.check.toNat ++
        (store32 e ip.saddr.toNat ++ store32 e ip.daddr.toNat))))))

/-- The header as `main` fills it in, before it stores the check field: `rand()` gives `id`,
and `inet_addr` the addresses. -/
def draft (e : Endian) (id : UInt16) (saddr daddr : UInt32) : Iphdr where
  version := 4
  ihl := 5
  tos := 0
  totLen := .ofNat (htons e 20)
  id := id
  fragOff := 0
  ttl := 73
  protocol := 110
  check := 0
  saddr := saddr
  daddr := daddr

/-- The header that `main` sends. -/
def mainHeader (e : Endian) (id : UInt16) (saddr daddr : UInt32) : Except Fault Iphdr := do
  let ip := draft e id saddr daddr
  let checksum ← ipChecksum e (ip.toBytes e)
  pure { ip with check := .ofNat (htons e checksum) }

/-- The one's complement sum of the words, in network order, is `0xFFFF`, and `ip_checksum`
returns 0. -/
def Verifies (e : Endian) (header : List UInt8) : Prop :=
  onesSum 65535 (words .big header) = 65535 ∧ ipChecksum e header = .ok 0

/-! ## Words and stores -/

theorem words_store16 (e : Endian) {v : ℕ} (hv : v < 65536) (rest : List UInt8) :
    words e (store16 e v ++ rest) = v :: words e rest := by
  have hlow : (UInt8.ofNat (v % 256)).toNat = v % 256 := by
    rw [UInt8.toNat_ofNat']
    omega
  have hhigh : (UInt8.ofNat (v / 256)).toNat = v / 256 := by
    rw [UInt8.toNat_ofNat']
    omega
  cases e <;>
    (simp only [store16, List.cons_append, List.nil_append, words, load16, hlow, hhigh]
     congr 1
     omega)

theorem sum_words_store32 (e : Endian) {v : ℕ} (hv : v < 4294967296) (rest : List UInt8) :
    (words e (store32 e v ++ rest)).sum = v % 65536 + v / 65536 + (words e rest).sum := by
  have hlow : v % 65536 < 65536 := Nat.mod_lt _ (by decide)
  have hhigh : v / 65536 < 65536 := by omega
  cases e with
  | little =>
      rw [store32, List.append_assoc, words_store16 _ hlow, words_store16 _ hhigh, List.sum_cons,
        List.sum_cons, Nat.add_assoc]
  | big =>
      rw [store32, List.append_assoc, words_store16 _ hhigh, words_store16 _ hlow, List.sum_cons,
        List.sum_cons]
      omega

theorem Iphdr.length_toBytes (e : Endian) (ip : Iphdr) : (ip.toBytes e).length = 20 := by
  cases e <;> rfl

/-- The sum of the words of a header. -/
theorem Iphdr.sum_words (e : Endian) (ip : Iphdr) :
    (words e (ip.toBytes e)).sum =
      load16 e (.ofNat (ip.version * 16 + ip.ihl)) ip.tos + ip.totLen.toNat + ip.id.toNat +
        ip.fragOff.toNat + load16 e ip.ttl ip.protocol + ip.check.toNat +
        (ip.saddr.toNat % 65536 + ip.saddr.toNat / 65536) +
        (ip.daddr.toNat % 65536 + ip.daddr.toNat / 65536) := by
  have hdaddr := sum_words_store32 e ip.daddr.toNat_lt []
  rw [List.append_nil] at hdaddr
  rw [toBytes, words, words_store16 e ip.totLen.toNat_lt, words_store16 e ip.id.toNat_lt,
    words_store16 e ip.fragOff.toNat_lt, words, words_store16 e ip.check.toNat_lt]
  simp only [List.sum_cons, sum_words_store32 e ip.saddr.toNat_lt, hdaddr, words, List.sum_nil]
  omega

/-- The check field contributes its value. -/
theorem Iphdr.sum_words_check (e : Endian) (ip : Iphdr) (check : UInt16) (hzero : ip.check = 0) :
    (words e ({ ip with check := check }.toBytes e)).sum =
      (words e (ip.toBytes e)).sum + check.toNat := by
  simp only [sum_words, hzero]
  simp
  omega

/-! ## The checksum -/

/-- The first byte of a header tells its length. -/
theorem Iphdr.firstByte_mod {ip : Iphdr} (hihl : ip.ihl = 5) :
    (UInt8.ofNat (ip.version * 16 + ip.ihl)).toNat % 16 = 5 := by
  rw [UInt8.toNat_ofNat', hihl]
  show ((ip.version : ℕ) * 16 + 5) % 256 % 16 = 5
  omega

theorem Iphdr.ipChecksum_eq {ip : Iphdr} (hihl : ip.ihl = 5) (e : Endian) :
    ipChecksum e (ip.toBytes e) = .ok (65535 - onesSum 65535 (words e (ip.toBytes e))) := by
  have hlength := ip.length_toBytes e
  have hbyte := Iphdr.firstByte_mod hihl
  have htake : (ip.toBytes e).take (4 * 5) = ip.toBytes e := List.take_of_length_le (by omega)
  have hspec := RawIP.ipChecksum_eq e hbyte (show 4 * 5 ≤
    (UInt8.ofNat (ip.version * 16 + ip.ihl) :: (ip.toBytes e).tail).length from hlength.ge)
  rw [show UInt8.ofNat (ip.version * 16 + ip.ihl) :: (ip.toBytes e).tail = ip.toBytes e from rfl,
    htake] at hspec
  exact hspec

/-- The first word of a header that gives its length is not zero. -/
theorem Iphdr.sum_words_ne_zero {ip : Iphdr} (hihl : ip.ihl = 5) (e e' : Endian) :
    (words e' (ip.toBytes e)).sum ≠ 0 := by
  have hbyte := Iphdr.firstByte_mod hihl
  have hfirst : 0 < load16 e' (UInt8.ofNat (ip.version * 16 + ip.ihl)) ip.tos := by
    cases e' <;> (simp only [load16]; omega)
  rw [toBytes, words, List.sum_cons]
  omega

/-- A header verifies when the sum of its words, as the host loads them, is a multiple of
`65535`. -/
theorem Iphdr.verifies_iff_dvd {ip : Iphdr} (hihl : ip.ihl = 5) (e : Endian) :
    Verifies e (ip.toBytes e) ↔ 65535 ∣ (words e (ip.toBytes e)).sum := by
  have hself : ∀ e', onesSum 65535 (words e' (ip.toBytes e)) = 65535 ↔
      65535 ∣ (words e' (ip.toBytes e)).sum := fun e' => by
    rw [onesSum_eq (by decide) (words_le e' _), endAround_eq_self_iff (by decide)]
    exact and_iff_right (sum_words_ne_zero hihl e e')
  have hreturns : ipChecksum e (ip.toBytes e) = .ok 0 ↔
      onesSum 65535 (words e (ip.toBytes e)) = 65535 := by
    have hle : onesSum 65535 (words e (ip.toBytes e)) ≤ 65535 := by
      rw [onesSum_eq (by decide) (words_le e _)]
      exact endAround_le (by decide) _
    rw [ipChecksum_eq hihl e, Except.ok.injEq]
    omega
  -- in network order the sum is 256 times as much, and 256 is prime to 65535
  have horder : 65535 ∣ (words .big (ip.toBytes e)).sum ↔
      65535 ∣ (words e (ip.toBytes e)).sum := by
    cases e with
    | big => rfl
    | little =>
        have hswap := sum_words_big (ip.toBytes .little)
        rw [← Nat.modEq_zero_iff_dvd, ← Nat.modEq_zero_iff_dvd]
        unfold Nat.ModEq at *
        omega
  rw [Verifies, hreturns, hself, hself, horder, and_self]

/-- The sum of the words that `main` has filled in, as a little-endian host loads them. -/
theorem sum_words_draft (id : UInt16) (saddr daddr : UInt32) :
    (words .little ((draft .little id saddr daddr).toBytes .little)).sum =
      33422 + id.toNat + (saddr.toNat % 65536 + saddr.toNat / 65536) +
        (daddr.toNat % 65536 + daddr.toNat / 65536) := by
  have hfirst : load16 .little (UInt8.ofNat ((4 : Fin 16) * 16 + (5 : Fin 16))) 0 = 69 := by decide
  have htotLen : (UInt16.ofNat (htons .little 20)).toNat = 5120 := by decide
  have hfifth : load16 .little 73 110 = 28233 := by decide
  have hzero : (0 : UInt16).toNat = 0 := rfl
  rw [Iphdr.sum_words]
  simp only [draft, hfirst, htotLen, hfifth, hzero]
  omega

/-- The header that `main` sends is the one it has filled in, with a check field that
brings its sum to `sum + htons c`, `c` being the checksum. -/
theorem mainHeader_eq (e : Endian) (id : UInt16) (saddr daddr : UInt32) :
    ∃ ip, mainHeader e id saddr daddr = .ok ip ∧ ip.ihl = 5 ∧
      ∀ sum, (words e ((draft e id saddr daddr).toBytes e)).sum = sum →
        (words e (ip.toBytes e)).sum = sum + htons e (65535 - endAround 65535 sum) := by
  refine ⟨_, by rw [mainHeader, Iphdr.ipChecksum_eq rfl, ok_bind]; rfl, rfl, ?_⟩
  rintro sum rfl
  have hle : htons e (65535 - endAround 65535
      (words e ((draft e id saddr daddr).toBytes e)).sum) < 65536 := by
    cases e <;> (simp only [htons, swap16]; omega)
  rw [Iphdr.sum_words_check e _ _ rfl, onesSum_eq (by decide) (words_le e _),
    UInt16.toNat_ofNat', Nat.mod_eq_of_lt hle]

/-- **The header verifies** on a big-endian host, and on a little-endian one exactly when
`257` divides 12 plus the packet id and the two addresses as the host loads them, which is
when the two bytes of the checksum are equal. -/
theorem verifies_iff (e : Endian) (id : UInt16) (saddr daddr : UInt32) :
    (∃ ip, mainHeader e id saddr daddr = .ok ip ∧ Verifies e (ip.toBytes e)) ↔
      e = .big ∨ 257 ∣ 12 + id.toNat + saddr.toNat + daddr.toNat := by
  obtain ⟨ip, hmain, hihl, hsum⟩ := mainHeader_eq e id saddr daddr
  have hverifies : (∃ ip, mainHeader e id saddr daddr = .ok ip ∧ Verifies e (ip.toBytes e)) ↔
      65535 ∣ (words e (ip.toBytes e)).sum := by
    rw [hmain, ← Iphdr.verifies_iff_dvd hihl e]
    exact ⟨fun ⟨_, heq, h⟩ => Except.ok.inj heq ▸ h, fun h => ⟨ip, rfl, h⟩⟩
  rw [hverifies, hsum _ rfl]
  have hle := fun sum => endAround_le (m := 65535) (by decide) sum
  have hmod := fun sum => endAround_modEq 65535 sum
  cases e with
  | big =>
      -- the checksum is the negative of the sum
      refine iff_of_true ?_ (.inl rfl)
      generalize (words .big ((draft .big id saddr daddr).toBytes .big)).sum = sum
      specialize hle sum
      specialize hmod sum
      simp only [htons, Nat.ModEq] at hmod ⊢
      omega
  | little =>
      -- the swapped checksum is -256 times the sum, so the header sums up to -255 times it
      rw [sum_words_draft, or_iff_right (by decide)]
      generalize hdraft : 33422 + id.toNat + _ + _ = sum
      specialize hle sum
      specialize hmod sum
      have hswap := Nat.div_add_mod (65535 - endAround 65535 sum) 256
      simp only [htons, swap16, Nat.ModEq] at hmod ⊢
      omega

/-- What `ip_checksum` returns for the header that `main` sends. -/
def recheck (e : Endian) (id : UInt16) (saddr daddr : UInt32) : Except Fault ℕ := do
  let ip ← mainHeader e id saddr daddr
  ipChecksum e (ip.toBytes e)

/-- The header from 10.0.0.1 to 10.0.0.2 with id 1 does not verify on a little-endian host. -/
theorem header_rejected :
    (¬ ∃ ip, mainHeader .little 1 0x0100000a 0x0200000a = .ok ip ∧
      Verifies .little (ip.toBytes .little)) ∧
      recheck .little 1 0x0100000a 0x0200000a = .ok 7650 := by
  have hrecheck : recheck .little 1 0x0100000a 0x0200000a = .ok 7650 := rfl
  refine ⟨?_, hrecheck⟩
  rintro ⟨ip, hmain, -, hchecksum⟩
  rw [recheck, hmain, ok_bind, hchecksum] at hrecheck
  cases hrecheck

end KernelTraining.RawIP
