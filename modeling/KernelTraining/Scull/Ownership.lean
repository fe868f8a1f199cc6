import KernelTraining.Scull.Usable

/-!
# Who owns the blocks

The heap holds the nodes, pointer arrays and quanta reachable from the devices and
nothing else, and reaches each of them once (`blocks_accounted`).  `deviceBlocks` is the list
a walk over a device comes by, in the order `scull_trim` meets the items; that no block is
met twice says that no list runs into itself or into another one.

`kfree` faults on a block that is not allocated, and nothing is allocated while a
device is trimmed.  So a trim that goes through frees no block twice, and what is
allocated before it and not after it has been freed once.

The invariant `Inv` has all of this, in terms of layouts; `Accounted` says it in terms of
walks, which anybody can make who has the heap and the devices.  `Owns.walk_spec` compares the
two for one device.  Each block has one sort, and each sort its own numbering in the layout,
so the walk meets no address twice (`Owns.nodup_arrayBlocks`), and the blocks of different
devices are apart by `Inv`.

`scullCleanupModule_spec` is the unloading of the module, by induction over the devices: the
blocks of the ones that are still to come stay allocated while one is trimmed.
-/

namespace KernelTraining.Scull

open Machine

/-- A pointer array and the quanta its entries point to. -/
def arrayBlocks (h : Heap Block) : Option Addr → List Addr
  | none => []
  | some data => data :: ((ptrsAt h data).getD []).filterMap id

/-- The blocks reached from a pointer to a list item. -/
def walk (h : Heap Block) : ℕ → Option Addr → List Addr
  | 0, _ => []
  | _ + 1, none => []
  | rounds + 1, some a =>
      match h.get a with
      | some (.qset node) => a :: (arrayBlocks h node.data ++ walk h rounds node.next)
      | _ => []

/-- The blocks reached from a device. -/
def deviceBlocks (h : Heap Block) (dev : ScullDev) : List Addr := walk h h.card dev.data

/-- Every pointer array of the device has `qset` entries, and every quantum `quantum`
bytes. -/
def WellSized (h : Heap Block) (dev : ScullDev) : Prop :=
  ∀ node ∈ items h h.card dev.data, ∀ data, node.data = some data →
    ∃ entries, ptrsAt h data = some entries ∧ entries.length = dev.qset ∧
      ∀ q, some q ∈ entries → ∃ bytes, quantumAt h q = some bytes ∧ bytes.length = dev.quantum

/-- Every allocated block is reached from the devices, once, and has the size its
device says; a trim frees the blocks of its device, and unloading the module all of
them. -/
structure Accounted (s : State) : Prop where
  nodup : (s.devices.flatMap (deviceBlocks s.heap)).Nodup
  allocated_iff : ∀ a, s.heap.get a ≠ none ↔ a ∈ s.devices.flatMap (deviceBlocks s.heap)
  wellSized : ∀ dev ∈ s.devices, WellSized s.heap dev
  trim : ∀ dev ∈ s.devices, ∃ dev' h',
    scullTrim s.globals.quantum s.globals.qset s.heap dev = .ok (dev', h') ∧ dev'.data = none ∧
      ∀ a, h'.get a = if a ∈ deviceBlocks s.heap dev then none else s.heap.get a
  cleanup : ∃ h', scullCleanupModule s.globals s.heap s.devices = .ok h' ∧
    ∀ a, h'.get a = none

/-! ## One device -/

section Device

variable {G : Geometry} {h : Heap Block} {dev : ScullDev} {L : Layout G}

theorem Owns.mem_arrayBlocks (owns : Owns h dev L) {i : ℕ} {c : Addr} :
    c ∈ arrayBlocks h (L.array i) ↔ L.array i = some c ∨ some c ∈ L.entries i := by
  cases hdata : L.array i with
  | none => simpa [arrayBlocks] using Layout.notMem_entries_of_array_eq_none hdata c
  | some data =>
      simp only [arrayBlocks, owns.ptrsAt_eq hdata, Option.getD_some, List.mem_cons,
        List.mem_filterMap, id_eq, exists_eq_right, Option.some.injEq, eq_comm]

theorem Owns.nodup_arrayBlocks (owns : Owns h dev L) (i : ℕ) :
    (arrayBlocks h (L.array i)).Nodup := by
  cases hdata : L.array i with
  | none => exact List.nodup_nil
  | some data =>
      simp only [arrayBlocks, owns.ptrsAt_eq hdata, Option.getD_some]
      refine List.nodup_cons.mpr ⟨?_, ?_⟩
      · intro hmem
        obtain ⟨p, hp, rfl⟩ := List.mem_filterMap.mp hmem
        obtain ⟨j, -, bytes, hslot⟩ := Layout.mem_entries.mp hp
        exact owns.array_ne_slot hdata hslot rfl
      · refine List.pairwise_filterMap.mpr ((L.entries_pairwise i).imp ?_)
        rintro p q hne a rfl b hb rfl
        exact hne a rfl hb

/-- The walk meets the blocks of the layout, each of them once. -/
theorem Owns.walk_spec (owns : Owns h dev L) (rounds : ℕ) (hrounds : L.nodes.length ≤ rounds) :
    (walk h rounds dev.data).Nodup ∧ ∀ c, c ∈ walk h rounds dev.data ↔ c ∈ L.blocks := by
  -- each round takes the walk to a device without its first list item
  induction rounds generalizing dev L with
  | zero =>
      have hnil : L.nodes = [] := List.eq_nil_of_length_eq_zero (by omega)
      refine ⟨List.nodup_nil, ?_⟩
      intro c
      simpa [walk] using Layout.notMem_blocks_of_nodes_eq_nil hnil c
  | succ rounds ih =>
      rw [owns.head]
      cases ha : L.nodes[0]? with
      | none =>
          have hnil : L.nodes = [] :=
            List.eq_nil_of_length_eq_zero (Nat.le_zero.mp (List.getElem?_eq_none_iff.mp ha))
          refine ⟨List.nodup_nil, ?_⟩
          intro c
          simpa [walk] using Layout.notMem_blocks_of_nodes_eq_nil hnil c
      | some a =>
          obtain ⟨hnodup, hmem⟩ := ih (owns.tail fun _ _ => rfl) (by
            rw [Layout.nodes_tail, List.length_tail]
            omega)
          simp only [walk, owns.node ha]
          have hhead : ∀ c, c ∈ L.headBlocks ↔ c = a ∨ c ∈ arrayBlocks h (L.array 0) := by
            intro c
            rw [owns.mem_arrayBlocks]
            show _ ∨ _ ↔ _
            rw [ha, Option.some.injEq, eq_comm]
          have hrest : ∀ c, c ∈ walk h rounds L.nodes[1]? → c ∉ L.headBlocks := by
            intro c hc
            exact owns.tail_notMem_headBlocks ((hmem c).mp hc)
          refine ⟨List.nodup_cons.mpr ⟨?_, List.nodup_append.mpr
            ⟨owns.nodup_arrayBlocks 0, hnodup, ?_⟩⟩, ?_⟩
          · rw [List.mem_append, not_or]
            refine ⟨fun hmemA => ?_, fun hw => hrest a hw ((hhead a).mpr (.inl rfl))⟩
            rcases owns.mem_arrayBlocks.mp hmemA with hdata | hentry
            · exact owns.node_ne_array ha hdata rfl
            · obtain ⟨j, -, bytes, hslot⟩ := Layout.mem_entries.mp hentry
              exact owns.node_ne_slot ha hslot rfl
          · rintro c hc d hd rfl
            exact hrest c hd ((hhead c).mpr (.inr hc))
          · intro c
            rw [List.mem_cons, List.mem_append, hmem, Layout.mem_blocks_iff (L := L), hhead,
              or_assoc]

theorem Owns.deviceBlocks_spec (owns : Owns h dev L) :
    (deviceBlocks h dev).Nodup ∧ ∀ c, c ∈ deviceBlocks h dev ↔ c ∈ L.blocks :=
  owns.walk_spec h.card (h.length_le_card L.nodes_nodup fun a ha => owns.allocated a (.inl ha))

theorem Owns.wellSized (owns : Owns h dev L) : WellSized h dev := by
  intro node hnode data hdata
  obtain ⟨i, hi⟩ := owns.items_data node hnode
  rw [hi] at hdata
  refine ⟨L.entries i, owns.ptrsAt_eq hdata, ?_, ?_⟩
  · rw [L.length_entries, owns.qset]
  · intro q hq
    obtain ⟨j, -, bytes, hslot⟩ := Layout.mem_entries.mp hq
    refine ⟨bytes, owns.quantumAt_eq hslot, ?_⟩
    rw [L.slot_length hslot, owns.quantum]

end Device

/-! ## The whole module -/

/-- **`scull_cleanup_module`** frees the blocks of all devices and nothing else. -/
theorem scullCleanupModule_spec (g : Globals) {h : Heap Block} {devices : List ScullDev}
    {own : ℕ → Owned}
    (owns : ∀ {i dev}, devices[i]? = some dev → Owns h dev (own i).layout)
    (apart : ∀ {i j}, i < devices.length → j < devices.length → i ≠ j →
      ∀ a ∈ (own i).layout.blocks, a ∉ (own j).layout.blocks) :
    ∃ h', scullCleanupModule g h devices = .ok h' ∧
      (∀ i < devices.length, ∀ a ∈ (own i).layout.blocks, h'.get a = none) ∧
      ∀ a, (∀ i < devices.length, a ∉ (own i).layout.blocks) → h'.get a = h.get a := by
  induction devices generalizing h own with
  | nil => exact ⟨h, rfl, fun i hi => absurd hi (Nat.not_lt_zero i), fun a _ => rfl⟩
  | cons dev devices ih =>
      obtain ⟨h₁, htrim, frame⟩ := scullTrim_spec (owns (i := 0) rfl) g.quantum g.qset
      have hkeep : ∀ a ∉ (own 0).layout.blocks, h₁.get a = h.get a := fun a ha =>
        frame.other a ha id
      have owns' : ∀ {i d}, devices[i]? = some d → Owns h₁ d (own (i + 1)).layout :=
        fun {i d} hi => (owns (i := i + 1) hi).congr fun a ha => hkeep a
          (apart (Nat.succ_lt_succ (List.getElem?_eq_some_iff.mp hi).1) (Nat.succ_pos _)
            (Nat.succ_ne_zero i) a ha)
      obtain ⟨h', hrest, hfreed, hother⟩ := ih owns' fun hi hj hne =>
        apart (Nat.succ_lt_succ hi) (Nat.succ_lt_succ hj) fun heq => hne (Nat.succ_injective heq)
      refine ⟨h', ?_, ?_, ?_⟩
      · simp only [scullCleanupModule, htrim, ok_bind, hrest]
      · intro i hi a ha
        cases i with
        | zero =>
            -- what the first trim has freed, the others leave alone
            rw [hother a fun j hj => apart (Nat.succ_pos _) (Nat.succ_lt_succ hj)
              (Nat.succ_ne_zero j).symm a ha]
            exact frame.freed a ha id
        | succ i => exact hfreed i (Nat.lt_of_succ_lt_succ hi) a ha
      · intro a ha
        rw [hother a fun j hj => ha (j + 1) (Nat.succ_lt_succ hj), hkeep a (ha 0 (Nat.succ_pos _))]

namespace Inv

variable {s : State} {own : ℕ → Owned}

theorem mem_flatMap_deviceBlocks (inv : Inv s own) {a : Addr} :
    a ∈ s.devices.flatMap (deviceBlocks s.heap) ↔
      ∃ i < s.devices.length, a ∈ (own i).layout.blocks := by
  rw [List.mem_flatMap]
  constructor
  · rintro ⟨dev, hdev, ha⟩
    obtain ⟨i, hi⟩ := List.mem_iff_getElem?.mp hdev
    exact ⟨i, (List.getElem?_eq_some_iff.mp hi).1, ((inv.owns hi).deviceBlocks_spec.2 a).mp ha⟩
  · rintro ⟨i, hi, ha⟩
    have hdev : s.devices[i]? = some s.devices[i] := List.getElem?_eq_getElem hi
    exact ⟨_, List.getElem_mem hi, ((inv.owns hdev).deviceBlocks_spec.2 a).mpr ha⟩

theorem accounted (inv : Inv s own) : Accounted s where
  nodup := by
    refine List.nodup_flatMap.mpr ⟨?_, List.pairwise_iff_getElem.mpr ?_⟩
    · intro dev hdev
      obtain ⟨i, hi⟩ := List.mem_iff_getElem?.mp hdev
      exact (inv.owns hi).deviceBlocks_spec.1
    · intro i j hi hj hij a hai haj
      have hdevi : s.devices[i]? = some s.devices[i] := List.getElem?_eq_getElem hi
      have hdevj : s.devices[j]? = some s.devices[j] := List.getElem?_eq_getElem hj
      exact inv.apart hi hj hij.ne a (((inv.owns hdevi).deviceBlocks_spec.2 a).mp hai)
        (((inv.owns hdevj).deviceBlocks_spec.2 a).mp haj)
  allocated_iff := fun a => by
    rw [inv.mem_flatMap_deviceBlocks]
    refine ⟨inv.used, fun ⟨i, hi, ha⟩ => ?_⟩
    exact (inv.owns (List.getElem?_eq_getElem hi)).allocated a ha
  wellSized := fun dev hdev => by
    obtain ⟨i, hi⟩ := List.mem_iff_getElem?.mp hdev
    exact (inv.owns hi).wellSized
  trim := fun dev hdev => by
    obtain ⟨i, hi⟩ := List.mem_iff_getElem?.mp hdev
    have owns := inv.owns hi
    obtain ⟨h', htrim, frame⟩ := scullTrim_spec owns s.globals.quantum s.globals.qset
    refine ⟨_, h', htrim, rfl, ?_⟩
    intro a
    split_ifs with ha
    · exact frame.freed a ((owns.deviceBlocks_spec.2 a).mp ha) id
    · exact frame.other a (fun hmem => ha ((owns.deviceBlocks_spec.2 a).mpr hmem)) id
  cleanup := by
    obtain ⟨h', hcleanup, hfreed, hother⟩ :=
      scullCleanupModule_spec s.globals inv.owns inv.apart
    refine ⟨h', hcleanup, ?_⟩
    intro a
    by_cases hown : ∃ i < s.devices.length, a ∈ (own i).layout.blocks
    · obtain ⟨i, hi, ha⟩ := hown
      exact hfreed i hi a ha
    · rw [hother a fun i hi ha => hown ⟨i, hi, ha⟩]
      by_contra hused
      exact hown (inv.used hused)

end Inv

/-- **Every block has one owner.**  In every state a run reaches, whatever allocations
fail and copies fault in it, the allocated blocks are those the devices reach, each
reached once and of the size its device says.  Trimming a device frees its blocks, and
unloading the module leaves none. -/
theorem blocks_accounted {scullQuantum scullQset : ℤ}
    (husable : (Globals.mk scullQuantum scullQset).Usable) (scullNrDevs : ℕ) (calls : List Call)
    (htrims : EveryStep State.step TrimsUsable (scullInit scullQuantum scullQset scullNrDevs)
      calls) :
    EveryState State.step Accounted (scullInit scullQuantum scullQset scullNrDevs) calls :=
  (everyState_inv husable scullNrDevs htrims).mono fun _ ⟨_, inv⟩ => inv.accounted

/-- Two devices: a write that runs out of memory after its pointer array, one whose copy
faults, new parameters between them, and a trim. -/
theorem blocks_accounted_run :
    EveryState State.step Accounted (scullInit 4 2 2)
      [.open 0 2 {}, .llseek 0 9 0, .write 0 [1] { answers := [some 1, some 2, some 3, none] },
        .ioctl (Command.tell .qset).code 3 {}, .open 1 1 {},
        .write 1 [2, 3] { answers := [some 4, some 5, some 6], fault := some 1 },
        .open 0 1 {}, .write 2 [4] { answers := [some 1, none] }] :=
  blocks_accounted (by decide) 2 _ (by decide)

end KernelTraining.Scull
