import KernelTraining.Scull.Layout

/-!
# Trimming

`scull_trim` frees every block of the device once, each of which is allocated when it is
freed (`scullTrim_spec`).

The loop over the items destroys the list while it walks along it, so the induction is over
devices that get shorter, not over positions in a list.  `Layout.tail` is the device without
its first list item.

* `trimItem_spec` is one round: the blocks of the first item are freed (`Layout.headBlocks`),
  in the order of the source, the quanta before their array and the array before the item.
  No quantum is entered twice in an array (`Layout.entries_pairwise`), so each `kfree` finds
  its block.
* `Owns.tail` says that what is left owns the tail: no block of the first item belongs to the
  rest of the device (`Owns.tail_notMem_headBlocks`), so none of the rest has been freed.
* `trimLoop_spec` is the induction on the number of items.  The loop is bounded by the number
  of allocated blocks, which is enough since every item of the list is one of them.
-/

namespace KernelTraining.Scull

open Machine

variable {G : Geometry} {h : Heap Block} {dev : ScullDev} {L : Layout G}

namespace Layout

/-- The device without its first list item. -/
def tail (L : Layout G) : Layout G where
  nodes := L.nodes.tail
  array := fun i => L.array (i + 1)
  slot := fun g => L.slot (g + G.qset)
  nodes_nodup := L.nodes_nodup.tail
  array_lt := fun h => by
    have := L.array_lt h
    rw [List.length_tail]
    omega
  array_inj := fun hi hj => Nat.succ_injective (L.array_inj hi hj)
  slot_array := fun h => by
    have := L.slot_array h
    rwa [Nat.add_div_right _ G.qset_pos] at this
  slot_inj := fun hg hg' => Nat.add_right_cancel (L.slot_inj hg hg')
  slot_length := fun hg => L.slot_length hg

@[simp] theorem nodes_tail (L : Layout G) : L.tail.nodes = L.nodes.tail := rfl

theorem getElem?_nodes_tail (L : Layout G) (i : ℕ) : L.tail.nodes[i]? = L.nodes[i + 1]? := by
  simp [tail]

theorem entries_tail (L : Layout G) (i : ℕ) : L.tail.entries i = L.entries (i + 1) := by
  apply List.map_congr_left
  intro j _
  show (L.slot (i * G.qset + j + G.qset)).map Prod.fst = _
  rw [Nat.succ_mul, Nat.add_right_comm]

/-- The blocks of the first list item. -/
def headBlocks (L : Layout G) : Set Addr :=
  {c | L.nodes[0]? = some c ∨ L.array 0 = some c ∨ some c ∈ L.entries 0}

theorem mem_entries {L : Layout G} {i : ℕ} {c : Addr} :
    some c ∈ L.entries i ↔ ∃ j < G.qset, ∃ bytes, L.slot (i * G.qset + j) = some (c, bytes) := by
  simp [entries]

theorem mem_blocks_iff {L : Layout G} {c : Addr} :
    c ∈ L.blocks ↔ c ∈ L.headBlocks ∨ c ∈ L.tail.blocks := by
  constructor
  · rintro (hnode | ⟨i, hi⟩ | ⟨g, bytes, hg⟩)
    · obtain ⟨i, hi⟩ := List.mem_iff_getElem?.mp hnode
      cases i with
      | zero => exact .inl (.inl hi)
      | succ i =>
          rw [← getElem?_nodes_tail] at hi
          exact .inr (mem_blocks_node hi)
    · cases i with
      | zero => exact .inl (.inr (.inl hi))
      | succ i => exact .inr (mem_blocks_array (L := L.tail) hi)
    · rcases Nat.lt_or_ge g G.qset with hlt | hge
      · exact .inl (.inr (.inr (mem_entries.mpr ⟨g, hlt, bytes, by simpa using hg⟩)))
      · have htail : L.tail.slot (g - G.qset) = some (c, bytes) := by
          show L.slot (g - G.qset + G.qset) = _
          rw [Nat.sub_add_cancel hge, hg]
        exact .inr (mem_blocks_slot htail)
  · rintro ((hnode | hi | hg) | hnode | ⟨i, hi⟩ | ⟨g, bytes, hg⟩)
    · exact mem_blocks_node hnode
    · exact mem_blocks_array hi
    · obtain ⟨j, -, bytes, hj⟩ := mem_entries.mp hg
      exact mem_blocks_slot hj
    · exact .inl (List.mem_of_mem_tail hnode)
    · exact mem_blocks_array hi
    · exact mem_blocks_slot hg

theorem notMem_blocks_of_nodes_eq_nil {L : Layout G} (hnil : L.nodes = []) (c : Addr) :
    c ∉ L.blocks := by
  have harray : ∀ i, L.array i = none := fun i => by
    by_contra hi
    have := L.array_lt hi
    simp [hnil] at this
  rintro (hc | ⟨i, hi⟩ | ⟨g, bytes, hg⟩)
  · simp [hnil] at hc
  · simp [harray] at hi
  · simp [slot_eq_none_of_array (harray _)] at hg

/-- An item without an array has no quanta. -/
theorem notMem_entries_of_array_eq_none {L : Layout G} {i : ℕ} (harray : L.array i = none)
    (c : Addr) : some c ∉ L.entries i := by
  intro hc
  obtain ⟨j, hj, bytes, hslot⟩ := mem_entries.mp hc
  rw [slot_eq_none_of_array (by rw [entry_div hj, harray])] at hslot
  simp at hslot

end Layout

/-- No block of the first list item belongs to the rest of the device. -/
theorem Owns.tail_notMem_headBlocks (owns : Owns h dev L) {c : Addr} (hc : c ∈ L.tail.blocks) :
    c ∉ L.headBlocks := by
  intro hhead
  rcases hc with hnode | ⟨i, hi⟩ | ⟨g, bytes, hg⟩
  · obtain ⟨i, hi⟩ := List.mem_iff_getElem?.mp hnode
    rw [Layout.getElem?_nodes_tail] at hi
    rcases hhead with hnode' | hi' | hg'
    · have := (List.getElem?_inj (List.getElem?_eq_some_iff.mp hi).1 L.nodes_nodup).mp
        (hi.trans hnode'.symm)
      omega
    · exact owns.node_ne_array hi hi' rfl
    · obtain ⟨j, -, bytes, hj⟩ := Layout.mem_entries.mp hg'
      exact owns.node_ne_slot hi hj rfl
  · rcases hhead with hnode' | hi' | hg'
    · exact owns.node_ne_array hnode' hi rfl
    · have := L.array_inj hi hi'
      omega
    · obtain ⟨j, -, bytes, hj⟩ := Layout.mem_entries.mp hg'
      exact owns.array_ne_slot hi hj rfl
  · rcases hhead with hnode' | hi' | hg'
    · exact owns.node_ne_slot hnode' hg rfl
    · exact owns.array_ne_slot hi' hg rfl
    · obtain ⟨j, hlt, bytes', hj⟩ := Layout.mem_entries.mp hg'
      have := L.slot_inj hg hj
      omega

/-- No quantum is entered twice in an array. -/
theorem Layout.entries_pairwise (L : Layout G) (i : ℕ) :
    (L.entries i).Pairwise fun p q => ∀ a, p = some a → q ≠ some a := by
  refine List.pairwise_map.mpr (List.Pairwise.imp_of_mem ?_ List.nodup_range)
  intro j k _ _ hjk a hj hk
  obtain ⟨⟨b, bytes⟩, hslot, hb⟩ := Option.map_eq_some_iff.mp hj
  obtain ⟨⟨c, bytes'⟩, hslot', hc⟩ := Option.map_eq_some_iff.mp hk
  simp only at hb hc
  subst hb hc
  have := L.slot_inj hslot hslot'
  omega

/-- **One round.**  The blocks of the first list item are freed, and nothing else
changes. -/
theorem trimItem_spec (owns : Owns h dev L) {a : Addr} (ha : L.nodes[0]? = some a) :
    ∃ h', trimItem dev.qset h a = .ok (L.nodes[1]?, h') ∧
      (∀ c ∈ L.headBlocks, h'.get c = none) ∧ ∀ c ∉ L.headBlocks, h'.get c = h.get c := by
  simp only [trimItem, loadQset_eq (owns.node ha), ok_bind]
  cases hdata : L.array 0 with
  | none =>
      -- without an array only the item itself is freed
      refine ⟨h.erase a, ?_, ?_, ?_⟩
      · simp only [pure_bind, kfree_eq (owns.node ha), ok_bind]
        rfl
      · intro c hc
        rcases hc with hc | hc | hc
        · obtain rfl : a = c := Option.some.inj (ha.symm.trans hc)
          exact Heap.get_erase_self h a
        · rw [hdata] at hc
          simp at hc
        · exact absurd hc (Layout.notMem_entries_of_array_eq_none hdata c)
      · intro c hc
        apply Heap.get_erase_ne _
        rintro rfl
        exact hc (.inl ha)
  | some data =>
      have hlen : dev.qset ≤ (L.entries 0).length := by
        rw [L.length_entries, owns.qset]
      have htake : (L.entries 0).take dev.qset.toNat = L.entries 0 := by
        rw [List.take_of_length_le (by rw [L.length_entries, owns.qset, Int.toNat_natCast])]
      have hslots : ∀ c, some c ∈ L.entries 0 → ∃ bytes, h.get c = some (.quantum bytes) := by
        intro c hc
        obtain ⟨j, -, bytes, hslot⟩ := Layout.mem_entries.mp hc
        exact ⟨bytes, owns.slot hslot⟩
      obtain ⟨h₁, hfree, hget₁⟩ := kfreeAll_eq (h := h)
        (fun c hc => by obtain ⟨bytes, hb⟩ := hslots c hc; simp [hb]) (L.entries_pairwise 0)
      -- neither the array nor the item is a quantum, so both are still there
      have hdata₁ : h₁.get data = some (.ptrs (L.entries 0)) := by
        rw [hget₁, if_neg, owns.array hdata]
        intro hmem
        obtain ⟨bytes, hb⟩ := hslots data hmem
        rw [owns.array hdata] at hb
        simp at hb
      have ha₁ : h₁.get a = some (.qset ⟨some data, L.nodes[1]?⟩) := by
        rw [hget₁, if_neg, owns.node ha, hdata]
        intro hmem
        obtain ⟨bytes, hb⟩ := hslots a hmem
        rw [owns.node ha] at hb
        simp at hb
      have had : a ≠ data := owns.node_ne_array ha hdata
      have ha₂ : (h₁.erase data).get a = some (.qset ⟨some data, L.nodes[1]?⟩) := by
        rw [Heap.get_erase_ne _ had, ha₁]
      refine ⟨((h₁.erase data).set a (.qset ⟨none, L.nodes[1]?⟩)).erase a, ?_, ?_, ?_⟩
      · simp only [loadPtrs_eq (owns.array hdata), firstEntries, if_pos hlen, htake, hfree,
          kfree_eq hdata₁, store_eq ha₂, kfree_eq (Heap.get_set_self _ a _), ok_bind]
        rfl
      · intro c hc
        by_cases hca : c = a
        · rw [hca, Heap.get_erase_self]
        rw [Heap.get_erase_ne _ hca, Heap.get_set_ne _ _ hca]
        by_cases hcd : c = data
        · rw [hcd, Heap.get_erase_self]
        rw [Heap.get_erase_ne _ hcd, hget₁, if_pos]
        rcases hc with hc | hc | hc
        · exact absurd (Option.some.inj (hc.symm.trans ha)) hca
        · exact absurd (Option.some.inj (hc.symm.trans hdata)) hcd
        · exact hc
      · intro c hc
        have hca : c ≠ a := fun heq => hc (.inl (heq ▸ ha))
        have hcd : c ≠ data := fun heq => hc (.inr (.inl (heq ▸ hdata)))
        rw [Heap.get_erase_ne _ hca, Heap.get_set_ne _ _ hca, Heap.get_erase_ne _ hcd, hget₁,
          if_neg fun hmem => hc (.inr (.inr hmem))]

/-- What is left after a round is a device without its first list item. -/
theorem Owns.tail (owns : Owns h dev L) {h' : Heap Block}
    (hget : ∀ c ∉ L.headBlocks, h'.get c = h.get c) :
    Owns h' { dev with data := L.nodes[1]? } L.tail := by
  have hkeep : ∀ c ∈ L.tail.blocks, h'.get c = h.get c := fun c hc =>
    hget c (owns.tail_notMem_headBlocks hc)
  refine ⟨owns.quantum, owns.qset, ?_, fun {i c} hi => ?_, fun {i c} hi => ?_,
    fun {g c bytes} hg => ?_⟩
  · rw [Layout.getElem?_nodes_tail]
  · rw [hkeep c (Layout.mem_blocks_node hi)]
    rw [Layout.getElem?_nodes_tail] at hi ⊢
    exact owns.node hi
  · rw [hkeep c (Layout.mem_blocks_array hi), L.entries_tail]
    exact owns.array hi
  · rw [hkeep c (Layout.mem_blocks_slot hg)]
    exact owns.slot hg

/-- **The loop of `scull_trim`** frees exactly the blocks of the device. -/
theorem trimLoop_spec (rounds : ℕ) (owns : Owns h dev L) (hrounds : L.nodes.length ≤ rounds) :
    ∃ h', trimLoop dev.qset rounds h dev.data = .ok h' ∧ Frame h L.blocks h' ∅ := by
  induction rounds generalizing h dev L with
  | zero =>
      have hnil : L.nodes = [] := List.eq_nil_of_length_eq_zero (by omega)
      refine ⟨h, by rw [owns.head, hnil]; rfl, fun _ _ _ => rfl, fun c hc => hc.elim,
        fun c hc _ => absurd hc (Layout.notMem_blocks_of_nodes_eq_nil hnil c)⟩
  | succ rounds ih =>
      cases hdata : L.nodes[0]? with
      | none =>
          have hnil := List.getElem?_eq_none_iff.mp hdata
          obtain ⟨h', htrim, frame⟩ := ih owns (by omega)
          refine ⟨h', ?_, frame⟩
          rw [owns.head, hdata] at htrim ⊢
          simpa [trimLoop] using htrim
      | some a =>
          obtain ⟨h₁, hitem, hfreed, hother⟩ := trimItem_spec owns hdata
          have htail : L.tail.nodes.length ≤ rounds := by
            rw [Layout.nodes_tail, List.length_tail]
            omega
          obtain ⟨h', htrim, frame⟩ := ih (owns.tail hother) htail
          refine ⟨h', ?_, .trans ⟨fun c hc _ => hother c ?_, ?_, ?_⟩ frame⟩
          · rw [owns.head, hdata]
            simp only [trimLoop, hitem, ok_bind]
            exact htrim
          · intro hhead
            exact hc (Layout.mem_blocks_iff.mpr (.inl hhead))
          · intro c hc
            exact .inl (Layout.mem_blocks_iff.mpr (.inr hc))
          · intro c hc hnot
            exact hfreed c ((Layout.mem_blocks_iff.mp hc).resolve_right hnot)

/-- **`scull_trim`.**  Every block of the device is freed, once, and the device
takes over the current parameters. -/
theorem scullTrim_spec (owns : Owns h dev L) (scullQuantum scullQset : ℤ) :
    ∃ h', scullTrim scullQuantum scullQset h dev =
        .ok ({ data := none, quantum := scullQuantum, qset := scullQset, size := 0 }, h') ∧
      Frame h L.blocks h' ∅ := by
  have hcard : L.nodes.length ≤ h.card :=
    h.length_le_card L.nodes_nodup fun a ha => owns.allocated a (.inl ha)
  obtain ⟨h', htrim, frame⟩ := trimLoop_spec h.card owns hcard
  exact ⟨h', by simp only [scullTrim, htrim, ok_bind]; rfl, frame⟩

end KernelTraining.Scull
