import KernelTraining.Scull.Follow
import Mathlib.Tactic.Ring
import Mathlib.Tactic.Positivity

/-!
# Locating a file position

`scull_read` and `scull_write` split a file position into a list item, an index into its
pointer array and an offset in the quantum.  The split is exact in the integers; in C the item
number is stored in an `int`, and that is the only thing that can go wrong:
`locatesExactly_iff` says for which positions it does not.

* The product of the two parameters is an `int` too, and so is the remainder of a position by
  it; in a `Geometry` neither goes round (`Geometry.wrap32_itemsize`).  So the index and the
  offset are exact for every position, and only the item number is wrapped (`locate_eq`).
* `scull_follow` counts that number down to zero, through the negative values if it starts
  there.  So it takes it for its residue modulo `2^32`, which is the item number as long as
  that is below `2^31` (`Geometry.Reaches`).
* Beyond it the split is wrong in two ways.  From `2^31` on the item number is negative, and
  from `2^32` on two positions are at the same place (`aliased_positions`).
* `LocatesExactly` also asks that a position is at no other place than its own: within reach the
  three numbers give the position back (`Geometry.split`), so no two positions have the same.
-/

namespace KernelTraining.Scull

open Machine

/-- The bytes one list item holds. -/
def Geometry.itemsize (G : Geometry) : ℕ := G.quantum * G.qset

theorem Geometry.itemsize_pos (G : Geometry) : 0 < G.itemsize :=
  Nat.mul_pos G.quantum_pos G.qset_pos

theorem Geometry.itemsize_le (G : Geometry) : G.itemsize ≤ 2147483647 := G.fits

theorem Geometry.quantum_le (G : Geometry) : G.quantum ≤ G.itemsize :=
  Nat.le_mul_of_pos_right _ G.qset_pos

/-- `int itemsize = quantum * qset` does not overflow. -/
theorem Geometry.wrap32_itemsize (G : Geometry) :
    wrap32 ((G.quantum : ℤ) * G.qset) = G.itemsize := by
  have := G.itemsize_le
  rw [← Int.natCast_mul, ← Geometry.itemsize]
  exact wrap32_eq (by omega) (by unfold intMax; omega)

/-- The list item a position lies in is that of its quantum. -/
theorem Geometry.div_itemsize (G : Geometry) (p : ℕ) :
    p / G.itemsize = p / G.quantum / G.qset := by
  rw [Geometry.itemsize, Nat.div_div_eq_div_mul]

/-- What the four assignments compute, for every position. -/
theorem locate_eq (G : Geometry) (p : ℕ) :
    locate G.quantum (wrap32 ((G.quantum : ℤ) * G.qset)) p =
      .ok ⟨wrap32 ((p / G.itemsize : ℕ) : ℤ), ((p / G.quantum % G.qset : ℕ) : ℤ),
        ((p % G.quantum : ℕ) : ℤ)⟩ := by
  have hpos := G.itemsize_pos
  have hle := G.itemsize_le
  have hquantum := G.quantum_pos
  have hrest : wrap32 ((p : ℤ).tmod G.itemsize) = ((p % G.itemsize : ℕ) : ℤ) := by
    have hlt := Nat.mod_lt p hpos
    rw [← Int.ofNat_tmod]
    exact wrap32_eq (by omega) (by unfold intMax; omega)
  rw [G.wrap32_itemsize, locate, if_neg (by omega), hrest, if_neg (by omega),
    ← Int.ofNat_tdiv, ← Int.ofNat_tdiv, ← Int.ofNat_tmod]
  simp only [Geometry.itemsize, Nat.mod_mul_right_div_self, Nat.mod_mul_right_mod]

/-- What it means that `scull_read` and `scull_write` find a position: the three
numbers are the exact quotients and remainders, the count given to `scull_follow`
is not negative, and the list node `scull_follow` returns for it, on any device of
that geometry, is the one the position lies in. -/
def LocatesExactly (G : Geometry) (p : ℕ) : Prop :=
  ∃ loc, locate G.quantum (wrap32 ((G.quantum : ℤ) * G.qset)) p = .ok loc ∧
    0 ≤ loc.item ∧ loc.item = ((p / (G.quantum * G.qset) : ℕ) : ℤ) ∧
    0 ≤ loc.sPos ∧ loc.sPos < G.qset ∧ 0 ≤ loc.qPos ∧ loc.qPos < G.quantum ∧
    loc.item * (G.quantum * G.qset) + loc.sPos * G.quantum + loc.qPos = p ∧
    ∀ (h : Heap Block) (dev : ScullDev) (L : Layout G), Owns h dev L →
      ∀ answers q dev' h' rest,
        scullFollow h dev loc.item answers = .ok (some q, dev', h', rest) →
        ∃ L' : Layout G, Owns h' dev' L' ∧ L'.nodes[p / (G.quantum * G.qset)]? = some q

/-- The item number of a position fits an `int`. -/
def Geometry.Reaches (G : Geometry) (p : ℕ) : Prop :=
  p / (G.quantum * G.qset) < 2147483648

theorem wrap32_item {G : Geometry} {p : ℕ} (h : G.Reaches p) :
    wrap32 ((p / G.itemsize : ℕ) : ℤ) = ((p / G.itemsize : ℕ) : ℤ) := by
  unfold Geometry.Reaches at h
  unfold Geometry.itemsize
  generalize p / (G.quantum * G.qset) = n at h ⊢
  exact wrap32_eq (by omega) (by unfold intMax; omega)

theorem toUInt_item {G : Geometry} {p : ℕ} (h : G.Reaches p) :
    toUInt ((p / G.itemsize : ℕ) : ℤ) = p / G.itemsize := by
  unfold Geometry.Reaches at h
  unfold Geometry.itemsize
  generalize p / (G.quantum * G.qset) = n at h ⊢
  rw [toUInt_eq (by omega) (by unfold intMax; omega), Int.toNat_natCast]

/-- The split of a position the code reaches. -/
theorem locate_of_reaches {G : Geometry} {p : ℕ} (h : G.Reaches p) :
    locate G.quantum (wrap32 ((G.quantum : ℤ) * G.qset)) p =
      .ok ⟨((p / G.itemsize : ℕ) : ℤ), ((p / G.quantum % G.qset : ℕ) : ℤ),
        ((p % G.quantum : ℕ) : ℤ)⟩ := by
  rw [locate_eq, wrap32_item h]

/-- The three numbers of the split give the position back. -/
theorem Geometry.split (G : Geometry) (p : ℕ) :
    p / G.itemsize * (G.quantum * G.qset) + p / G.quantum % G.qset * G.quantum + p % G.quantum =
      p := by
  have hitem := Nat.div_add_mod (p / G.quantum) G.qset
  have hquantum := Nat.div_add_mod p G.quantum
  rw [G.div_itemsize]
  calc p / G.quantum / G.qset * (G.quantum * G.qset) + p / G.quantum % G.qset * G.quantum +
        p % G.quantum
      = G.quantum * (G.qset * (p / G.quantum / G.qset) + p / G.quantum % G.qset) +
          p % G.quantum := by ring
    _ = p := by rw [hitem, hquantum]

/-- A position the code reaches is located exactly. -/
theorem Geometry.Reaches.locatesExactly {G : Geometry} {p : ℕ} (h : G.Reaches p) :
    LocatesExactly G p := by
  refine ⟨_, locate_of_reaches h, by positivity, rfl, by positivity, ?_, by positivity, ?_, ?_, ?_⟩
  · exact Int.ofNat_lt.mpr (Nat.mod_lt _ G.qset_pos)
  · exact Int.ofNat_lt.mpr (Nat.mod_lt _ G.quantum_pos)
  · have hsplit := G.split p
    dsimp only
    exact_mod_cast hsplit
  · intro heap dev L owns answers q dev' heap' rest hfollow
    obtain ⟨p', dev₁, h₁, rest₁, L', heq, owns', -, -, -, harrived, -⟩ :=
      scullFollow_spec owns ((p / G.itemsize : ℕ) : ℤ) answers
    rw [hfollow] at heq
    obtain ⟨rfl, rfl, rfl, rfl⟩ : some q = p' ∧ dev' = dev₁ ∧ heap' = h₁ ∧ rest = rest₁ := by
      simpa using heq
    rw [toUInt_item h] at harrived
    exact ⟨L', owns', harrived.1⟩

/-- Where the bytes of a position are: list node, array index and offset. -/
def address (G : Geometry) (p : ℕ) : Except Fault Location :=
  locate G.quantum (wrap32 ((G.quantum : ℤ) * G.qset)) p

/-- **Positions are located exactly as far as `int` reaches.**  A file position is
found exactly when its item number fits an `int`, and no two such positions share
a byte. -/
theorem locatesExactly_iff (G : Geometry) :
    (∀ p : ℕ, LocatesExactly G p ↔ p / (G.quantum * G.qset) < 2147483648) ∧
      ∀ p p' : ℕ, p / (G.quantum * G.qset) < 2147483648 →
        p' / (G.quantum * G.qset) < 2147483648 → address G p = address G p' → p = p' := by
  refine ⟨fun p => ⟨?_, fun h => Geometry.Reaches.locatesExactly h⟩, ?_⟩
  · rintro ⟨loc, hloc, -, hitem, -⟩
    rw [locate_eq, Except.ok.injEq] at hloc
    rw [← hloc, Geometry.itemsize] at hitem
    have hfits := (wrap32_eq_iff.mp hitem).2
    generalize p / (G.quantum * G.qset) = n at hfits ⊢
    unfold intMax at hfits
    omega
  · intro p p' hp hp' heq
    rw [address, address, locate_of_reaches hp, locate_of_reaches hp', Except.ok.injEq,
      Location.mk.injEq] at heq
    obtain ⟨hitem, hsPos, hqPos⟩ := heq
    rw [← G.split p, ← G.split p', Int.ofNat.inj hitem, Int.ofNat.inj hsPos,
      Int.ofNat.inj hqPos]

/-- With quanta of one byte and arrays of one entry, position `2^32` is taken for
position `0`, and position `2^31` makes `scull_follow` count down from a negative
number. -/
theorem aliased_positions :
    let G : Geometry := ⟨1, 1, by decide, by decide, by decide⟩
    ¬ LocatesExactly G 4294967296 ∧ address G 4294967296 = address G 0 ∧
      address G 2147483648 = .ok ⟨-2147483648, 0, 0⟩ := by
  refine ⟨?_, by decide, by decide⟩
  rintro ⟨loc, hloc, -, hitem, -⟩
  have haddress : address ⟨1, 1, by decide, by decide, by decide⟩ 4294967296 = .ok ⟨0, 0, 0⟩ := by
    decide
  rw [address] at haddress
  rw [hloc, Except.ok.injEq] at haddress
  rw [haddress] at hitem
  simp at hitem

end KernelTraining.Scull
