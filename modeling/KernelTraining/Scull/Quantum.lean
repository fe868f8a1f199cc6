import KernelTraining.Scull.Follow

/-!
# Arrays and quanta

The two allocations `scull_write` makes below a list item, and the store into a quantum, as
changes of the layout: `Owns.addArray`, `Owns.addQuantum`, and `Owns.setBytes`.

## Strategy

Each of the two allocations is two stores, one that makes the new block and one that refers to
it from the block above.  In between the heap holds no layout, so both are taken together.  A
proof that the device owns the new layout goes through its three sorts of block.  The block
that has been made is equal to none of the old ones, as these are all allocated
(`Owns.ne_fresh`); the block that refers to it is found in its own sort and nowhere else
(`Owns.node_ne_array` and so on); and the others have not been touched.

A new array has only null entries, and it describes an item that had no array, so the layout
has no quantum there (`Layout.entries_eq_replicate`).  A new quantum changes the array of one
item only (`Layout.entries_setSlot`).

`ensureArray_spec` and `ensureQuantum_spec` then say what a write may rely on, whether or not
it finds a block there already.  In both, the block is had exactly if the allocator supplies
the `lacking` ones, and what is left of the answers supplies the rest; so the allocations of a
whole write can be added up.
-/

namespace KernelTraining.Scull

open Machine

variable {G : Geometry} {h : Heap Block} {dev : ScullDev} {L : Layout G}

/-! ## The entries of an array -/

namespace Layout

theorem entries_eq_replicate {L : Layout G} {i : ℕ} (h : L.array i = none) :
    L.entries i = List.replicate G.qset none := by
  refine List.eq_replicate_iff.mpr ⟨L.length_entries i, ?_⟩
  intro p hp
  obtain ⟨j, hj, rfl⟩ := List.mem_map.mp hp
  rw [List.mem_range] at hj
  rw [slot_eq_none_of_array (by rw [entry_div hj, h]), Option.map_none]

theorem entries_addArray (L : Layout G) {i : ℕ} {a : Addr} (hi : i < L.nodes.length)
    (ha : ∀ j, L.array j ≠ some a) (j : ℕ) : (L.addArray i a hi ha).entries j = L.entries j :=
  rfl

theorem entry_eq {i j g : ℕ} (hj : j < G.qset) (h : i * G.qset + j = g) :
    i = g / G.qset ∧ j = g % G.qset := by
  have hdiv : g / G.qset = i := by rw [← h, entry_div hj]
  refine ⟨hdiv.symm, ?_⟩
  rw [← h, Nat.mul_comm, Nat.mul_add_mod, Nat.mod_eq_of_lt hj]

theorem entries_setSlot (L : Layout G) {g : ℕ} {a : Addr} {bytes : List UInt8}
    (harray : L.array (g / G.qset) ≠ none) (hlength : bytes.length = G.quantum)
    (ha : ∀ g' b, L.slot g' = some (a, b) → g' = g) (i : ℕ) :
    (L.setSlot g a bytes harray hlength ha).entries i =
      if i = g / G.qset then (L.entries i).set (g % G.qset) (some a) else L.entries i := by
  apply List.ext_getElem?
  intro j
  by_cases hj : j < G.qset
  · rw [getElem?_entries _ _ hj]
    by_cases hg : i * G.qset + j = g
    · obtain ⟨hi, hmod⟩ := entry_eq hj hg
      rw [if_pos hi, hmod, List.getElem?_set_self (by rw [length_entries]; omega), ← hmod, hg]
      simp [setSlot]
    · have hslot : (L.setSlot g a bytes harray hlength ha).slot (i * G.qset + j) =
          L.slot (i * G.qset + j) := Function.update_of_ne hg _ _
      rw [hslot]
      split_ifs with hi
      · have hmod : g % G.qset ≠ j := fun hmod => hg (by
          rw [hi, ← hmod, Nat.mul_comm]
          exact Nat.div_add_mod g G.qset)
        rw [List.getElem?_set_ne hmod, getElem?_entries _ _ hj]
      · rw [getElem?_entries _ _ hj]
  · have hlen : ∀ l : List (Option Addr), l.length = G.qset → l[j]? = none := fun l hl =>
      List.getElem?_eq_none (by omega)
    rw [hlen _ (length_entries _ _), hlen]
    split_ifs <;> simp [length_entries]

end Layout

/-! ## The heap after each step -/

namespace Owns

theorem fresh_array (owns : Owns h dev L) {a : Addr} (ha : h.get a = none) (j : ℕ) :
    L.array j ≠ some a :=
  fun hj => owns.fresh_notMem ha (Layout.mem_blocks_array hj)

theorem fresh_slot (owns : Owns h dev L) {a : Addr} (ha : h.get a = none) (g : ℕ)
    (bytes : List UInt8) : L.slot g ≠ some (a, bytes) :=
  fun hg => owns.fresh_notMem ha (Layout.mem_blocks_slot hg)

/-- `dptr->data = kmalloc(...)`. -/
theorem addArray (owns : Owns h dev L) {i : ℕ} {dptr a : Addr} (ha : h.get a = none)
    (hi : L.nodes[i]? = some dptr) (hnone : L.array i = none) :
    Owns ((h.set a (.ptrs (List.replicate G.qset none))).set dptr
        (.qset ⟨some a, L.nodes[i + 1]?⟩)) dev
      (L.addArray i a (List.getElem?_eq_some_iff.mp hi).1 (owns.fresh_array ha)) := by
  have hda : dptr ≠ a := owns.ne_fresh ha (Layout.mem_blocks_node hi)
  refine ⟨owns.quantum, owns.qset, owns.head, fun {j c} hj => ?_, fun {j c} hj => ?_,
    fun {g c bytes} hg => ?_⟩
  · replace hj : L.nodes[j]? = some c := hj
    show _ = some (Block.qset ⟨Function.update L.array i (some a) j, L.nodes[j + 1]?⟩)
    by_cases hji : j = i
    · obtain rfl : dptr = c := by
        rw [hji, hi] at hj
        exact Option.some.inj hj
      rw [Heap.get_set_self, hji, Function.update_self]
    · have hcd : c ≠ dptr := fun heq => hji ((List.getElem?_inj
        (List.getElem?_eq_some_iff.mp hj).1 L.nodes_nodup).mp (by rw [hj, hi, heq]))
      have hca : c ≠ a := owns.ne_fresh ha (Layout.mem_blocks_node hj)
      rw [Heap.get_set_ne _ _ hcd, Heap.get_set_ne _ _ hca, owns.node hj,
        Function.update_of_ne hji]
  · rw [L.entries_addArray]
    replace hj : Function.update L.array i (some a) j = some c := hj
    by_cases hji : j = i
    · rw [hji, Function.update_self, Option.some.injEq] at hj
      rw [← hj, Heap.get_set_ne _ _ hda.symm, Heap.get_set_self, hji,
        Layout.entries_eq_replicate hnone]
    · rw [Function.update_of_ne hji] at hj
      have hca : c ≠ a := owns.ne_fresh ha (Layout.mem_blocks_array hj)
      rw [Heap.get_set_ne _ _ (owns.node_ne_array hi hj).symm, Heap.get_set_ne _ _ hca,
        owns.array hj]
  · replace hg : L.slot g = some (c, bytes) := hg
    have hca : c ≠ a := owns.ne_fresh ha (Layout.mem_blocks_slot hg)
    rw [Heap.get_set_ne _ _ (owns.node_ne_slot hi hg).symm, Heap.get_set_ne _ _ hca]
    exact owns.slot hg

/-- `dptr->data[s_pos] = kmalloc(...)`. -/
theorem addQuantum (owns : Owns h dev L) {g : ℕ} {data a : Addr} {bytes : List UInt8}
    (ha : h.get a = none) (hdata : L.array (g / G.qset) = some data)
    (hlength : bytes.length = G.quantum) :
    Owns ((h.set a (.quantum bytes)).set data
        (.ptrs ((L.entries (g / G.qset)).set (g % G.qset) (some a)))) dev
      (L.setSlot g a bytes (by simp [hdata]) hlength
        fun g' b hg' => absurd hg' (owns.fresh_slot ha g' b)) := by
  have hda : data ≠ a := owns.ne_fresh ha (Layout.mem_blocks_array hdata)
  refine ⟨owns.quantum, owns.qset, owns.head, fun {j c} hj => ?_, fun {j c} hj => ?_,
    fun {g' c b} hg => ?_⟩
  · replace hj : L.nodes[j]? = some c := hj
    have hca : c ≠ a := owns.ne_fresh ha (Layout.mem_blocks_node hj)
    rw [Heap.get_set_ne _ _ (owns.node_ne_array hj hdata), Heap.get_set_ne _ _ hca]
    exact owns.node hj
  · rw [L.entries_setSlot]
    replace hj : L.array j = some c := hj
    have hca : c ≠ a := owns.ne_fresh ha (Layout.mem_blocks_array hj)
    split_ifs with hjg
    · obtain rfl : data = c := by
        rw [hjg, hdata] at hj
        exact Option.some.inj hj
      rw [Heap.get_set_self, hjg]
    · have hcd : c ≠ data := fun heq => hjg (L.array_inj hj (heq ▸ hdata))
      rw [Heap.get_set_ne _ _ hcd, Heap.get_set_ne _ _ hca, owns.array hj]
  · replace hg : Function.update L.slot g (some (a, bytes)) g' = some (c, b) := hg
    by_cases hgg : g' = g
    · rw [hgg, Function.update_self, Option.some.injEq, Prod.mk.injEq] at hg
      obtain ⟨rfl, rfl⟩ := hg
      rw [Heap.get_set_ne _ _ hda.symm, Heap.get_set_self]
    · rw [Function.update_of_ne hgg] at hg
      have hca : c ≠ a := owns.ne_fresh ha (Layout.mem_blocks_slot hg)
      rw [Heap.get_set_ne _ _ (owns.array_ne_slot hdata hg).symm, Heap.get_set_ne _ _ hca]
      exact owns.slot hg

/-- New contents for a quantum. -/
theorem setBytes (owns : Owns h dev L) {g : ℕ} {a : Addr} {old bytes : List UInt8}
    (hg : L.slot g = some (a, old)) (hlength : bytes.length = G.quantum) :
    Owns (h.set a (.quantum bytes)) dev
      (L.setSlot g a bytes (L.slot_array (by simp [hg])) hlength
        fun _ _ hg' => L.slot_inj hg' hg) := by
  refine ⟨owns.quantum, owns.qset, owns.head, fun {j c} hj => ?_, fun {j c} hj => ?_,
    fun {g' c b} hg' => ?_⟩
  · replace hj : L.nodes[j]? = some c := hj
    rw [Heap.get_set_ne _ _ (owns.node_ne_slot hj hg)]
    exact owns.node hj
  · replace hj : L.array j = some c := hj
    rw [Heap.get_set_ne _ _ (owns.array_ne_slot hj hg), L.entries_setSlot, owns.array hj]
    split_ifs with hjg
    · congr 2
      apply List.ext_getElem?
      intro k
      by_cases hk : k = g % G.qset
      · have hlt := Nat.mod_lt g G.qset_pos
        rw [hk, List.getElem?_set_self (by rw [Layout.length_entries]; omega),
          Layout.getElem?_entries _ _ hlt, hjg, Nat.mul_comm, Nat.div_add_mod, hg]
        rfl
      · rw [List.getElem?_set_ne (Ne.symm hk)]
    · rfl
  · replace hg' : Function.update L.slot g (some (a, bytes)) g' = some (c, b) := hg'
    by_cases hgg : g' = g
    · rw [hgg, Function.update_self, Option.some.injEq, Prod.mk.injEq] at hg'
      obtain ⟨rfl, rfl⟩ := hg'
      rw [Heap.get_set_self]
    · rw [Function.update_of_ne hgg] at hg'
      have hca : c ≠ a := by
        rintro rfl
        exact hgg (L.slot_inj hg' hg)
      rw [Heap.get_set_ne _ _ hca]
      exact owns.slot hg'

/-- A store into a quantum, as the layout and the rest of the heap see it. -/
theorem exists_setBytes (owns : Owns h dev L) {g : ℕ} {a : Addr} {old bytes : List UInt8}
    (hg : L.slot g = some (a, old)) (hlength : bytes.length = G.quantum) :
    ∃ L' : Layout G, Owns (h.set a (.quantum bytes)) dev L' ∧
      Frame h L.blocks (h.set a (.quantum bytes)) L'.blocks ∧ L'.nodes = L.nodes ∧
      L'.slot = Function.update L.slot g (some (a, bytes)) := by
  refine ⟨_, owns.setBytes hg hlength, ?_, rfl, rfl⟩
  have hblocks : ∀ c, c ∈ (L.setSlot g a bytes (L.slot_array (by simp [hg])) hlength
      fun _ _ hg' => L.slot_inj hg' hg).blocks ↔ c ∈ L.blocks := fun c => by
    rw [Layout.mem_blocks_setSlot _ _ _ fun b o hold => by
      rw [hg, Option.some.injEq, Prod.mk.injEq] at hold
      exact hold.1.symm]
    exact or_iff_right_of_imp fun heq => heq ▸ Layout.mem_blocks_slot hg
  rw [Set.ext hblocks]
  exact Frame.of_get_eq fun c hc => Heap.get_set_ne _ _ fun heq =>
    hc (heq ▸ Layout.mem_blocks_slot hg)

end Owns

/-! ## The two allocations -/

/-- The allocations it takes to have a block: one, unless it is there already. -/
def lacking {β : Type*} : Option β → ℕ
  | none => 1
  | some _ => 0

/-- The layout has at most gained the pointer array of item `i`. -/
structure ArrayAdded (L L' : Layout G) (i : ℕ) : Prop where
  nodes : L'.nodes = L.nodes
  array : ∀ j ≠ i, L'.array j = L.array j
  slot : L'.slot = L.slot

/-- **`if (!dptr->data)`.** -/
theorem ensureArray_spec (owns : Owns h dev L) {i : ℕ} {dptr : Addr}
    (hi : L.nodes[i]? = some dptr) (answers : List (Option Addr)) :
    ∃ p h' rest, ∃ L' : Layout G, ensureArray h dptr dev.qset answers = .ok (p, h', rest) ∧
      Owns h' dev L' ∧ Frame h L.blocks h' L'.blocks ∧ ArrayAdded L L' i ∧ L'.array i = p ∧
      ∀ k, Supplied h (lacking (L.array i) + k) answers ↔ p ≠ none ∧ Supplied h' k rest := by
  simp only [ensureArray, loadQset_eq (owns.node hi), ok_bind]
  cases hdata : L.array i with
  | some data =>
      refine ⟨some data, h, answers, L, rfl, owns, .refl h _, ⟨rfl, fun _ _ => rfl, rfl⟩, hdata, ?_⟩
      intro k
      rw [lacking, Nat.zero_add]
      exact (and_iff_right (by simp)).symm
  | none =>
      simp only [owns.qset, kmallocSize_natCast, Int.toNat_natCast, lacking, Nat.add_comm 1]
      rcases kmalloc_cases h (.ptrs (List.replicate G.qset none)) answers with
        ⟨rest, hmalloc⟩ | ⟨a, rest, ha, hmalloc⟩
      · exact ⟨none, h, rest, L, by rw [hmalloc]; rfl, owns, .refl h _, ⟨rfl, fun _ _ => rfl, rfl⟩,
          hdata, fun k => iff_of_false (not_supplied_of_kmalloc_none hmalloc k) fun h => h.1 rfl⟩
      · -- all entries of the new array are null, so no quantum is gained
        have hda : dptr ≠ a := owns.ne_fresh ha (Layout.mem_blocks_node hi)
        have hget : (h.set a (.ptrs (List.replicate G.qset none))).get dptr =
            some (.qset ⟨L.array i, L.nodes[i + 1]?⟩) := by
          rw [Heap.get_set_ne _ _ hda, owns.node hi]
        refine ⟨some a, _, rest, _, ?_, owns.addArray ha hi hdata,
          frame_alloc ha (fun c => Layout.mem_blocks_addArray _ _ hdata) ?_,
          ⟨rfl, fun j hj => Function.update_of_ne hj _ _, rfl⟩, Function.update_self ..,
          ?_⟩
        · simp only [hmalloc, store_eq hget, ok_bind]
          rfl
        · intro c hc
          rw [Layout.mem_blocks_addArray _ _ hdata, not_or] at hc
          have hcd : c ≠ dptr := fun heq => hc.2 (heq.symm ▸ Layout.mem_blocks_node hi)
          rw [Heap.get_set_ne _ _ hcd, Heap.get_set_ne _ _ hc.1]
        · intro k
          have hfree := Heap.get_set_eq_none_iff (hget ▸ Option.some_ne_none _)
            (.qset ⟨some a, L.nodes[i + 1]?⟩)
          rw [supplied_of_kmalloc_some hmalloc, ← supplied_congr hfree]
          exact (and_iff_right (Option.some_ne_none a)).symm

/-- The layout has at most gained quantum `g`, and that with the given bytes. -/
structure QuantumAdded (L L' : Layout G) (g : ℕ) (fresh : List UInt8) : Prop where
  nodes : L'.nodes = L.nodes
  array : L'.array = L.array
  other : ∀ g' ≠ g, L'.slot g' = L.slot g'
  old : ∀ q, L.slot g = some q → L'.slot g = some q
  new : L.slot g = none → ∀ q, L'.slot g = some q → q.2 = fresh

theorem QuantumAdded.refl (L : Layout G) (g : ℕ) (fresh : List UInt8) :
    QuantumAdded L L g fresh where
  nodes := rfl
  array := rfl
  other := fun _ _ => rfl
  old := fun _ hq => hq
  new := fun hnone q hq => by
    rw [hnone] at hq
    simp at hq

theorem QuantumAdded.slot_eq_of_none {L L' : Layout G} {g : ℕ} {fresh : List UInt8}
    (added : QuantumAdded L L' g fresh) (hnone : L'.slot g = none) : L'.slot = L.slot := by
  funext g'
  by_cases hg : g' = g
  · rw [hg]
    cases hslot : L.slot g with
    | none => exact hnone
    | some q => exact added.old q hslot
  · exact added.other g' hg

/-- The quantum is the old one or a fresh one. -/
theorem QuantumAdded.before {L L' : Layout G} {g : ℕ} {fresh : List UInt8}
    (added : QuantumAdded L L' g fresh) {a : Addr} {bytes : List UInt8}
    (hslot' : L'.slot g = some (a, bytes)) :
    L.slot g = some (a, bytes) ∨ L.slot g = none ∧ bytes = fresh := by
  cases hslot : L.slot g with
  | none => exact .inr ⟨rfl, added.new hslot _ hslot'⟩
  | some q =>
      have := added.old q hslot
      rw [hslot'] at this
      exact .inl this.symm

/-- Overwriting the quantum hides whether it was new. -/
theorem QuantumAdded.update_slot {L L' : Layout G} {g : ℕ} {fresh : List UInt8}
    (added : QuantumAdded L L' g fresh) (q : Option (Addr × List UInt8)) :
    Function.update L'.slot g q = Function.update L.slot g q := by
  funext g'
  by_cases hg : g' = g
  · rw [hg, Function.update_self, Function.update_self]
  · rw [Function.update_of_ne hg, Function.update_of_ne hg, added.other g' hg]

/-- **`if (!dptr->data[s_pos])`.** -/
theorem ensureQuantum_spec (owns : Owns h dev L) {g : ℕ} {data : Addr}
    (hdata : L.array (g / G.qset) = some data) (junk : ℕ → UInt8)
    (answers : List (Option Addr)) :
    ∃ p h' rest, ∃ L' : Layout G,
      ensureQuantum h data ((g % G.qset : ℕ) : ℤ) dev.quantum junk answers = .ok (p, h', rest) ∧
      Owns h' dev L' ∧ Frame h L.blocks h' L'.blocks ∧
      QuantumAdded L L' g (freshQuantum G.quantum junk) ∧ (L'.slot g).map Prod.fst = p ∧
      ∀ k, Supplied h (lacking (L.slot g) + k) answers ↔ p ≠ none ∧ Supplied h' k rest := by
  have hmod := Nat.mod_lt g G.qset_pos
  have hentry : (L.entries (g / G.qset))[g % G.qset]? = some ((L.slot g).map Prod.fst) := by
    rw [Layout.getElem?_entries _ _ hmod, Nat.mul_comm, Nat.div_add_mod]
  simp only [ensureQuantum, loadPtrs_eq (owns.array hdata), index_eq rfl hentry, ok_bind]
  cases hslot : L.slot g with
  | some q =>
      refine ⟨some q.1, h, answers, L, rfl, owns, .refl h _, .refl L g _, by rw [hslot]; rfl, ?_⟩
      intro k
      rw [lacking, Nat.zero_add]
      exact (and_iff_right (by simp)).symm
  | none =>
      have hlength : (freshQuantum G.quantum junk).length = G.quantum := by
        simp [freshQuantum]
      simp only [Option.map_none, owns.quantum, kmallocSize_natCast, lacking, Nat.add_comm 1]
      rcases kmalloc_cases h (.quantum (freshQuantum G.quantum junk)) answers with
        ⟨rest, hmalloc⟩ | ⟨a, rest, ha, hmalloc⟩
      · exact ⟨none, h, rest, L, by rw [hmalloc]; rfl, owns, .refl h _, .refl L g _,
          by rw [hslot]; rfl,
          fun k => iff_of_false (not_supplied_of_kmalloc_none hmalloc k) fun h => h.1 rfl⟩
      · have hda : data ≠ a := owns.ne_fresh ha (Layout.mem_blocks_array hdata)
        have hget : (h.set a (.quantum (freshQuantum G.quantum junk))).get data =
            some (.ptrs (L.entries (g / G.qset))) := by
          rw [Heap.get_set_ne _ _ hda, owns.array hdata]
        have hblocks : ∀ c, c ∈ (L.setSlot g a (freshQuantum G.quantum junk) (by simp [hdata])
            hlength fun g' b hg' => absurd hg' (owns.fresh_slot ha g' b)).blocks ↔
            c = a ∨ c ∈ L.blocks := fun c =>
          Layout.mem_blocks_setSlot _ _ _ fun b old hold => by simp [hslot] at hold
        refine ⟨some a, _, rest, _, ?_, owns.addQuantum ha hdata hlength,
          frame_alloc ha hblocks ?_,
          ⟨rfl, rfl, fun g' hg' => Function.update_of_ne hg' _ _, ?_, ?_⟩,
          ?_, ?_⟩
        · simp only [hmalloc, store_eq hget, ok_bind, Int.toNat_natCast]
          rfl
        · intro c hc
          rw [hblocks, not_or] at hc
          have hcd : c ≠ data := fun heq => hc.2 (heq.symm ▸ Layout.mem_blocks_array hdata)
          rw [Heap.get_set_ne _ _ hcd, Heap.get_set_ne _ _ hc.1]
        · intro q hq
          rw [hslot] at hq
          simp at hq
        · intro _ q hq
          replace hq : Function.update L.slot g (some (a, freshQuantum G.quantum junk)) g =
            some q := hq
          rw [Function.update_self, Option.some.injEq] at hq
          rw [← hq]
        · show (Function.update L.slot g _ g).map Prod.fst = _
          rw [Function.update_self]
          rfl
        · intro k
          have hfree := Heap.get_set_eq_none_iff (hget ▸ Option.some_ne_none _)
            (.ptrs ((L.entries (g / G.qset)).set (g % G.qset) (some a)))
          rw [supplied_of_kmalloc_some hmalloc, ← supplied_congr hfree]
          exact (and_iff_right (Option.some_ne_none a)).symm

end KernelTraining.Scull
