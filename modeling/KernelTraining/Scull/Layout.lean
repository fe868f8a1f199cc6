import KernelTraining.Scull.Device

/-!
# What a device owns

A `Layout` is a scull device seen from outside the heap: its list items in order, the pointer
array of each item, and the quanta.  Quanta are numbered through the whole device, so that
entry `j` of the array of item `i` is quantum `i * qset + j`; with this numbering the byte at
file position `p` is byte `p % quantum` of quantum `p / quantum`, whatever the item.

The conditions that do not speak of the heap are fields of the layout itself: no block is used
twice, there is no array beyond the list, no quantum without its array, and every quantum has
the right length.  So they need not be shown again when a heap is changed, only when a layout
is.  A `Geometry` is a pair of parameters with which the driver can work, and carries the
reasons why: they are positive, and their product is an `int`.

* `Owns h dev L` says that the heap holds exactly what the layout says.  It speaks of the
  blocks of the device only (`Owns.congr`), so a change elsewhere in the heap keeps it; and a
  block is only one of the three things it can be (`Owns.node_ne_array` and the two like it),
  so a store into one of them leaves the others alone.
* A layout grows in three ways, by a list item, a pointer array, or a quantum
  (`Layout.addNode`, `Layout.addArray`, `Layout.setSlot`).  That the heap follows is shown in
  `Scull.Quantum` and `Scull.Follow`.
* `items`, `ptrsAt` and `quantumAt` look at a device from a pointer on, as a program would
  that changes nothing.  What is said of a run in these words can be read without knowing what
  a layout is; `peek_eq` and `getElem?_items_card` say that they find what the layout says.
-/

namespace KernelTraining.Scull

open Machine

/-- The parameters of a device, as the driver can work with them. -/
structure Geometry where
  quantum : ℕ
  qset : ℕ
  quantum_pos : 0 < quantum
  qset_pos : 0 < qset
  fits : quantum * qset ≤ 2147483647

structure Layout (G : Geometry) where
  nodes : List Addr
  array : ℕ → Option Addr
  slot : ℕ → Option (Addr × List UInt8)
  nodes_nodup : nodes.Nodup
  array_lt : ∀ {i}, array i ≠ none → i < nodes.length
  array_inj : ∀ {i j a}, array i = some a → array j = some a → i = j
  slot_array : ∀ {g}, slot g ≠ none → array (g / G.qset) ≠ none
  slot_inj : ∀ {g g' a b b'}, slot g = some (a, b) → slot g' = some (a, b') → g = g'
  slot_length : ∀ {g a b}, slot g = some (a, b) → b.length = G.quantum

namespace Layout

variable {G : Geometry}

/-- A device without data. -/
def empty (G : Geometry) : Layout G where
  nodes := []
  array := fun _ => none
  slot := fun _ => none
  nodes_nodup := List.nodup_nil
  array_lt := fun h => absurd rfl h
  array_inj := fun h => by simp at h
  slot_array := fun h => absurd rfl h
  slot_inj := fun h => by simp at h
  slot_length := fun h => by simp at h

/-- The pointer array of item `i`. -/
def entries (L : Layout G) (i : ℕ) : List (Option Addr) :=
  (List.range G.qset).map fun j => (L.slot (i * G.qset + j)).map Prod.fst

/-- The addresses of all blocks of the device. -/
def blocks (L : Layout G) : Set Addr :=
  {a | a ∈ L.nodes ∨ (∃ i, L.array i = some a) ∨ ∃ g bytes, L.slot g = some (a, bytes)}

/-- The byte stored at a file position, if a quantum covers it. -/
def byte (L : Layout G) (p : ℕ) : Option UInt8 :=
  (L.slot (p / G.quantum)).bind fun q => q.2[p % G.quantum]?

theorem length_entries (L : Layout G) (i : ℕ) : (L.entries i).length = G.qset := by
  simp [entries]

theorem getElem?_entries (L : Layout G) (i : ℕ) {j : ℕ} (hj : j < G.qset) :
    (L.entries i)[j]? = some ((L.slot (i * G.qset + j)).map Prod.fst) := by
  simp [entries, hj]

theorem entry_div {i j : ℕ} (hj : j < G.qset) : (i * G.qset + j) / G.qset = i := by
  rw [Nat.mul_comm, Nat.mul_add_div G.qset_pos, Nat.div_eq_of_lt hj, Nat.add_zero]

theorem slot_eq_none_of_array {L : Layout G} {g : ℕ} (h : L.array (g / G.qset) = none) :
    L.slot g = none := by
  by_contra hslot
  exact L.slot_array hslot h

theorem mem_blocks_node {L : Layout G} {i : ℕ} {a : Addr} (h : L.nodes[i]? = some a) :
    a ∈ L.blocks :=
  .inl (List.mem_of_getElem? h)

theorem mem_blocks_array {L : Layout G} {i : ℕ} {a : Addr} (h : L.array i = some a) :
    a ∈ L.blocks :=
  .inr (.inl ⟨i, h⟩)

theorem mem_blocks_slot {L : Layout G} {g : ℕ} {a : Addr} {bytes : List UInt8}
    (h : L.slot g = some (a, bytes)) : a ∈ L.blocks :=
  .inr (.inr ⟨g, bytes, h⟩)

@[simp] theorem blocks_empty : (empty G).blocks = ∅ := by
  ext a
  simp [blocks, empty]

/-! ## Growing a layout -/

/-- One more list item, without data. -/
def addNode (L : Layout G) (a : Addr) (ha : a ∉ L.nodes) : Layout G :=
  { L with
    nodes := L.nodes ++ [a]
    nodes_nodup := List.nodup_append.mpr
      ⟨L.nodes_nodup, List.nodup_singleton a, fun b hb c hc heq => by
        rw [List.mem_singleton] at hc
        exact ha (hc ▸ heq ▸ hb)⟩
    array_lt := fun h => by
      have := L.array_lt h
      rw [List.length_append]
      omega }

/-- A pointer array for item `i`, all entries null. -/
def addArray (L : Layout G) (i : ℕ) (a : Addr) (hi : i < L.nodes.length)
    (ha : ∀ j, L.array j ≠ some a) : Layout G :=
  { L with
    array := Function.update L.array i (some a)
    array_lt := fun {j} h => by
      by_cases hj : j = i
      · exact hj ▸ hi
      · rw [Function.update_of_ne hj] at h
        exact L.array_lt h
    array_inj := fun {j k b} hj hk => by
      by_cases hji : j = i <;> by_cases hki : k = i
      · rw [hji, hki]
      · rw [hji, Function.update_self, Option.some.injEq] at hj
        rw [Function.update_of_ne hki, ← hj] at hk
        exact absurd hk (ha k)
      · rw [hki, Function.update_self, Option.some.injEq] at hk
        rw [Function.update_of_ne hji, ← hk] at hj
        exact absurd hj (ha j)
      · rw [Function.update_of_ne hji] at hj
        rw [Function.update_of_ne hki] at hk
        exact L.array_inj hj hk
    slot_array := fun {g} h => by
      by_cases hg : g / G.qset = i
      · simp [hg]
      · rw [Function.update_of_ne hg]
        exact L.slot_array h }

/-- Quantum `g` with the given address and bytes: a new one, or new contents. -/
def setSlot (L : Layout G) (g : ℕ) (a : Addr) (bytes : List UInt8)
    (harray : L.array (g / G.qset) ≠ none) (hlength : bytes.length = G.quantum)
    (ha : ∀ g' b, L.slot g' = some (a, b) → g' = g) : Layout G :=
  { L with
    slot := Function.update L.slot g (some (a, bytes))
    slot_array := fun {g'} h => by
      by_cases hg : g' = g
      · exact hg ▸ harray
      · rw [Function.update_of_ne hg] at h
        exact L.slot_array h
    slot_inj := fun {g₁ g₂ c b b'} h₁ h₂ => by
      by_cases hg₁ : g₁ = g <;> by_cases hg₂ : g₂ = g
      · rw [hg₁, hg₂]
      · rw [hg₁, Function.update_self, Option.some.injEq, Prod.mk.injEq] at h₁
        rw [Function.update_of_ne hg₂, ← h₁.1] at h₂
        exact absurd (ha g₂ _ h₂) hg₂
      · rw [hg₂, Function.update_self, Option.some.injEq, Prod.mk.injEq] at h₂
        rw [Function.update_of_ne hg₁, ← h₂.1] at h₁
        exact absurd (ha g₁ _ h₁) hg₁
      · rw [Function.update_of_ne hg₁] at h₁
        rw [Function.update_of_ne hg₂] at h₂
        exact L.slot_inj h₁ h₂
    slot_length := fun {g' c b} h => by
      by_cases hg : g' = g
      · rw [hg, Function.update_self, Option.some.injEq, Prod.mk.injEq] at h
        exact h.2 ▸ hlength
      · rw [Function.update_of_ne hg] at h
        exact L.slot_length h }

@[simp] theorem nodes_addNode (L : Layout G) (a : Addr) (ha : a ∉ L.nodes) :
    (L.addNode a ha).nodes = L.nodes ++ [a] := rfl

@[simp] theorem array_addNode (L : Layout G) (a : Addr) (ha : a ∉ L.nodes) :
    (L.addNode a ha).array = L.array := rfl

@[simp] theorem slot_addNode (L : Layout G) (a : Addr) (ha : a ∉ L.nodes) :
    (L.addNode a ha).slot = L.slot := rfl

theorem mem_blocks_addArray {L : Layout G} {i : ℕ} {a c : Addr} (hi : i < L.nodes.length)
    (ha : ∀ j, L.array j ≠ some a) (hnone : L.array i = none) :
    c ∈ (L.addArray i a hi ha).blocks ↔ c = a ∨ c ∈ L.blocks := by
  have key : (∃ j, Function.update L.array i (some a) j = some c) ↔
      c = a ∨ ∃ j, L.array j = some c := by
    constructor
    · rintro ⟨j, hj⟩
      by_cases hji : j = i
      · rw [hji, Function.update_self, Option.some.injEq] at hj
        exact .inl hj.symm
      · rw [Function.update_of_ne hji] at hj
        exact .inr ⟨j, hj⟩
    · rintro (rfl | ⟨j, hj⟩)
      · exact ⟨i, Function.update_self ..⟩
      · refine ⟨j, ?_⟩
        rw [Function.update_of_ne, hj]
        rintro rfl
        rw [hnone] at hj
        simp at hj
  simp only [blocks, Set.mem_ofPred_eq, addArray, key]
  rw [or_assoc, or_left_comm]

theorem mem_blocks_setSlot {L : Layout G} {g : ℕ} {a c : Addr} {bytes : List UInt8}
    (harray : L.array (g / G.qset) ≠ none) (hlength : bytes.length = G.quantum)
    (ha : ∀ g' b, L.slot g' = some (a, b) → g' = g)
    (hold : ∀ b old, L.slot g = some (b, old) → b = a) :
    c ∈ (L.setSlot g a bytes harray hlength ha).blocks ↔ c = a ∨ c ∈ L.blocks := by
  have key : (∃ g' b, Function.update L.slot g (some (a, bytes)) g' = some (c, b)) ↔
      c = a ∨ ∃ g' b, L.slot g' = some (c, b) := by
    constructor
    · rintro ⟨g', b, hg'⟩
      by_cases hgg : g' = g
      · rw [hgg, Function.update_self, Option.some.injEq, Prod.mk.injEq] at hg'
        exact .inl hg'.1.symm
      · rw [Function.update_of_ne hgg] at hg'
        exact .inr ⟨g', b, hg'⟩
    · rintro (rfl | ⟨g', b, hg'⟩)
      · exact ⟨g, bytes, Function.update_self ..⟩
      · by_cases hgg : g' = g
        · rw [hold c b (hgg ▸ hg')]
          exact ⟨g, bytes, Function.update_self ..⟩
        · exact ⟨g', b, by rw [Function.update_of_ne hgg, hg']⟩
  simp only [blocks, Set.mem_ofPred_eq, setSlot, key]
  rw [or_left_comm (b := c = a), or_left_comm (b := c = a)]

end Layout

/-! ## The heap holds the layout -/

structure Owns {G : Geometry} (h : Heap Block) (dev : ScullDev) (L : Layout G) : Prop where
  quantum : dev.quantum = G.quantum
  qset : dev.qset = G.qset
  head : dev.data = L.nodes[0]?
  node : ∀ {i a}, L.nodes[i]? = some a →
    h.get a = some (.qset ⟨L.array i, L.nodes[i + 1]?⟩)
  array : ∀ {i a}, L.array i = some a → h.get a = some (.ptrs (L.entries i))
  slot : ∀ {g a bytes}, L.slot g = some (a, bytes) → h.get a = some (.quantum bytes)

namespace Owns

variable {G : Geometry} {h h' : Heap Block} {dev : ScullDev} {L : Layout G}

/-- A device that `scull_trim` or the initialisation has just left. -/
theorem of_empty (hquantum : dev.quantum = G.quantum) (hqset : dev.qset = G.qset)
    (hdata : dev.data = none) : Owns h dev (Layout.empty G) where
  quantum := hquantum
  qset := hqset
  head := hdata
  node := fun hi => by simp [Layout.empty] at hi
  array := fun hi => by simp [Layout.empty] at hi
  slot := fun hg => by simp [Layout.empty] at hg

/-- Every block of the device is allocated. -/
theorem allocated (owns : Owns h dev L) : ∀ a ∈ L.blocks, h.get a ≠ none := by
  rintro a (hnode | ⟨i, hi⟩ | ⟨g, bytes, hg⟩)
  · obtain ⟨i, hi⟩ := List.mem_iff_getElem?.mp hnode
    simp [owns.node hi]
  · simp [owns.array hi]
  · simp [owns.slot hg]

/-- Only the blocks of the device matter. -/
theorem congr (owns : Owns h dev L) (hget : ∀ a ∈ L.blocks, h'.get a = h.get a) :
    Owns h' dev L where
  quantum := owns.quantum
  qset := owns.qset
  head := owns.head
  node := fun hi => by rw [hget _ (Layout.mem_blocks_node hi), owns.node hi]
  array := fun hi => by rw [hget _ (Layout.mem_blocks_array hi), owns.array hi]
  slot := fun hg => by rw [hget _ (Layout.mem_blocks_slot hg), owns.slot hg]

theorem with_size (owns : Owns h dev L) (size : ℕ) : Owns h { dev with size := size } L where
  quantum := owns.quantum
  qset := owns.qset
  head := owns.head
  node := owns.node
  array := owns.array
  slot := owns.slot

/-- A list item is neither an array nor a quantum, and an array is no quantum. -/
theorem node_ne_array (owns : Owns h dev L) {i j : ℕ} {a b : Addr} (hi : L.nodes[i]? = some a)
    (hj : L.array j = some b) : a ≠ b := by
  rintro rfl
  have := (owns.node hi).symm.trans (owns.array hj)
  simp at this

theorem node_ne_slot (owns : Owns h dev L) {i g : ℕ} {a b : Addr} {bytes : List UInt8}
    (hi : L.nodes[i]? = some a) (hg : L.slot g = some (b, bytes)) : a ≠ b := by
  rintro rfl
  have := (owns.node hi).symm.trans (owns.slot hg)
  simp at this

theorem array_ne_slot (owns : Owns h dev L) {i g : ℕ} {a b : Addr} {bytes : List UInt8}
    (hi : L.array i = some a) (hg : L.slot g = some (b, bytes)) : a ≠ b := by
  rintro rfl
  have := (owns.array hi).symm.trans (owns.slot hg)
  simp at this

end Owns

/-! ## Looking at a device

What a reader of the heap finds who follows the pointers of a device and changes
nothing. -/

/-- The list items from a pointer on. -/
def items (h : Heap Block) : ℕ → Option Addr → List ScullQset
  | 0, _ => []
  | _ + 1, none => []
  | rounds + 1, some a =>
      match h.get a with
      | some (.qset node) => node :: items h rounds node.next
      | _ => []

/-- The pointer array at an address. -/
def ptrsAt (h : Heap Block) (a : Addr) : Option (List (Option Addr)) :=
  match h.get a with
  | some (.ptrs entries) => some entries
  | _ => none

/-- The quantum at an address. -/
def quantumAt (h : Heap Block) (a : Addr) : Option (List UInt8) :=
  match h.get a with
  | some (.quantum bytes) => some bytes
  | _ => none

/-- The byte a position refers to, if a quantum is allocated for it. -/
def peek (h : Heap Block) (dev : ScullDev) (x : ℕ) : Option UInt8 := do
  let quantum := dev.quantum.toNat
  let qset := dev.qset.toNat
  let node ← (items h h.card dev.data)[x / (quantum * qset)]?
  let entries ← ptrsAt h (← node.data)
  let entry ← entries[x / quantum % qset]?
  let bytes ← quantumAt h (← entry)
  bytes[x % quantum]?

namespace Owns

variable {G : Geometry} {h : Heap Block} {dev : ScullDev} {L : Layout G}

theorem ptrsAt_eq (owns : Owns h dev L) {i : ℕ} {a : Addr} (hi : L.array i = some a) :
    ptrsAt h a = some (L.entries i) := by
  simp only [ptrsAt, owns.array hi]

theorem quantumAt_eq (owns : Owns h dev L) {g : ℕ} {a : Addr} {bytes : List UInt8}
    (hg : L.slot g = some (a, bytes)) : quantumAt h a = some bytes := by
  simp only [quantumAt, owns.slot hg]

theorem getElem?_items (owns : Owns h dev L) (rounds i j : ℕ)
    (hrounds : L.nodes.length ≤ i + rounds) :
    (items h rounds L.nodes[i]?)[j]? =
      L.nodes[i + j]?.map fun _ => ⟨L.array (i + j), L.nodes[i + j + 1]?⟩ := by
  induction rounds generalizing i j with
  | zero => simp [items, List.getElem?_eq_none (show L.nodes.length ≤ i + j by omega)]
  | succ rounds ih =>
      cases hi : L.nodes[i]? with
      | none =>
          have := List.getElem?_eq_none_iff.mp hi
          simp [items, List.getElem?_eq_none (show L.nodes.length ≤ i + j by omega)]
      | some a =>
          simp only [items, owns.node hi]
          cases j with
          | zero => simp [hi]
          | succ j =>
              rw [List.getElem?_cons_succ, ih (i + 1) j (by omega),
                show i + 1 + j = i + (j + 1) by omega]

/-- The list of the device. -/
theorem getElem?_items_card (owns : Owns h dev L) (j : ℕ) :
    (items h h.card dev.data)[j]? =
      L.nodes[j]?.map fun _ => ⟨L.array j, L.nodes[j + 1]?⟩ := by
  have hcard : L.nodes.length ≤ h.card :=
    h.length_le_card L.nodes_nodup fun a ha => owns.allocated a (.inl ha)
  have := owns.getElem?_items h.card 0 j (by omega)
  rwa [Nat.zero_add, ← owns.head] at this

/-- Every item of the list has the pointer array of the layout. -/
theorem items_data (owns : Owns h dev L) :
    ∀ node ∈ items h h.card dev.data, ∃ j, node.data = L.array j := by
  intro node hnode
  obtain ⟨j, hj⟩ := List.mem_iff_getElem?.mp hnode
  rw [owns.getElem?_items_card, Option.map_eq_some_iff] at hj
  obtain ⟨a, -, rfl⟩ := hj
  exact ⟨j, rfl⟩

theorem peek_eq (owns : Owns h dev L) (x : ℕ) : peek h dev x = L.byte x := by
  have hdiv : x / (G.quantum * G.qset) = x / G.quantum / G.qset := by
    rw [Nat.div_div_eq_div_mul]
  simp only [peek, owns.quantum, owns.qset, Int.toNat_natCast, owns.getElem?_items_card, hdiv,
    Option.bind_eq_bind]
  cases hnode : L.nodes[x / G.quantum / G.qset]? with
  | none =>
      have harray : L.array (x / G.quantum / G.qset) = none := by
        by_contra hne
        have := L.array_lt hne
        have := List.getElem?_eq_none_iff.mp hnode
        omega
      simp [Layout.byte, Layout.slot_eq_none_of_array harray]
  | some a =>
      simp only [Option.map_some, Option.bind_some]
      cases harray : L.array (x / G.quantum / G.qset) with
      | none => simp [Layout.byte, Layout.slot_eq_none_of_array harray]
      | some data =>
          have hentry : (L.entries (x / G.quantum / G.qset))[x / G.quantum % G.qset]? =
              some ((L.slot (x / G.quantum)).map Prod.fst) := by
            rw [Layout.getElem?_entries _ _ (Nat.mod_lt _ G.qset_pos), Nat.mul_comm,
              Nat.div_add_mod]
          simp only [Option.bind_some, owns.ptrsAt_eq harray, hentry]
          cases hslot : L.slot (x / G.quantum) with
          | none => simp [Layout.byte, hslot]
          | some q => simp [Layout.byte, hslot, owns.quantumAt_eq hslot]

end Owns

end KernelTraining.Scull
