import KernelTraining.Scull.ItemList
import KernelTraining.Scull.Layout

/-!
# Following the list

What `scull_follow` does to a list of items, seen as a change of the layout of the device:
the layout only grows at the end of its list, by items without data, and the walk either
arrives at the item asked for or stops where an allocation failed (`scullFollow_spec`).  When
the item is there already, nothing is allocated at all (`scullFollow_eq`).

The walk itself has been dealt with in `Scull.ItemList`, for a device of which nothing is
known but its list.  Here this is carried over to a device that owns a layout, so no
induction is left to do:

* `Layout.qsets` is the list of a layout as the heap holds it, with which the device has an
  `ItemList` (`Owns.itemList`).
* After the walk there is a longer list.  `Layout.exists_append` turns it into a layout with
  the arrays and the quanta of the old one, and `Walked.exists_layout` shows that the device
  owns that: the new items have no data, so they bring no arrays, and every block that is not
  a list item is where it was.
* The blocks of a device are its list items and the rest (`Layout.blocks_eq`), and the rest is
  the same before and after, so the frame of the walk is one of the whole device.

The last part of `scullFollow_spec` counts allocations.  It says how many the walk needs, and
that what the allocator supplies beyond them is left for the allocations that follow.
-/

namespace KernelTraining.Scull

open Machine

variable {G : Geometry} {h : Heap Block} {dev : ScullDev} {L : Layout G}

namespace Owns

theorem fresh_notMem (owns : Owns h dev L) {a : Addr} (ha : h.get a = none) : a ∉ L.blocks :=
  fun hmem => owns.allocated a hmem ha

theorem ne_fresh (owns : Owns h dev L) {a c : Addr} (ha : h.get a = none) (hc : c ∈ L.blocks) :
    c ≠ a := by
  rintro rfl
  exact owns.fresh_notMem ha hc

end Owns

/-! ## The list of a layout -/

namespace Layout

/-- The list items, as the heap holds them. -/
def qsets (L : Layout G) : List (Addr × ScullQset) :=
  L.nodes.mapIdx fun i a => (a, ⟨L.array i, L.nodes[i + 1]?⟩)

theorem map_fst_qsets (L : Layout G) : L.qsets.map Prod.fst = L.nodes := by
  apply List.ext_getElem?
  intro i
  rw [List.getElem?_map, qsets, List.getElem?_mapIdx, Option.map_map]
  exact Option.map_id_apply

theorem length_qsets (L : Layout G) : L.qsets.length = L.nodes.length := List.length_mapIdx

theorem arrayAt_qsets (L : Layout G) : arrayAt L.qsets = L.array := by
  funext i
  rw [arrayAt, qsets, List.getElem?_mapIdx]
  cases hi : L.nodes[i]? with
  | some a => rfl
  | none =>
      have hend := List.getElem?_eq_none_iff.mp hi
      by_contra hne
      have := L.array_lt (Ne.symm hne)
      omega

/-- The pointer arrays and the quanta. -/
def dataBlocks (L : Layout G) : Set Addr :=
  {a | (∃ i, L.array i = some a) ∨ ∃ g bytes, L.slot g = some (a, bytes)}

theorem blocks_eq (L : Layout G) : L.blocks = L.dataBlocks ∪ addresses L.qsets := by
  ext a
  rw [Set.union_comm]
  show _ ↔ a ∈ L.qsets.map Prod.fst ∨ _
  rw [map_fst_qsets]
  rfl

/-- A layout with more list items, which have no data. -/
theorem exists_append (L : Layout G) {added : List Addr} (hnodup : (L.nodes ++ added).Nodup) :
    ∃ L' : Layout G, L'.nodes = L.nodes ++ added ∧ L'.array = L.array ∧ L'.slot = L.slot := by
  induction added generalizing L with
  | nil => exact ⟨L, (List.append_nil _).symm, rfl, rfl⟩
  | cons a added ih =>
      have ha : a ∉ L.nodes := fun hmem =>
        (List.disjoint_of_nodup_append hnodup) hmem List.mem_cons_self
      rw [List.append_cons] at hnodup
      obtain ⟨L', hnodes, harray, hslot⟩ := ih (L.addNode a ha) hnodup
      rw [nodes_addNode, ← List.append_cons] at hnodes
      rw [array_addNode] at harray
      rw [slot_addNode] at hslot
      exact ⟨L', hnodes, harray, hslot⟩

end Layout

theorem Owns.itemList (owns : Owns h dev L) : ItemList h dev.data L.qsets := by
  rw [itemList_iff, L.map_fst_qsets]
  refine ⟨owns.head, L.nodes_nodup, ?_⟩
  intro i a node hi
  rw [Layout.qsets, List.getElem?_mapIdx, Option.map_eq_some_iff] at hi
  obtain ⟨b, hb, heq⟩ := hi
  obtain ⟨rfl, rfl⟩ := Prod.mk.inj heq
  exact ⟨owns.node hb, rfl⟩

/-! ## The walk -/

/-- The layout has only gained list items, at the end and without data. -/
structure Grown (L L' : Layout G) : Prop where
  nodes : ∃ added, L'.nodes = L.nodes ++ added
  array : L'.array = L.array
  slot : L'.slot = L.slot

theorem Grown.refl (L : Layout G) : Grown L L := ⟨⟨[], by simp⟩, rfl, rfl⟩

theorem Grown.length_le {L L' : Layout G} (grown : Grown L L') :
    L.nodes.length ≤ L'.nodes.length := by
  obtain ⟨added, hadded⟩ := grown.nodes
  simp [hadded]

/-- Where the walk to item `n` ends: at the item, the list being as short as
that allows, or nowhere, the list ending before the item. -/
def Arrived (L L' : Layout G) (n : ℕ) : Option Addr → Prop
  | some a => L'.nodes[n]? = some a ∧ L'.nodes.length = max L.nodes.length (n + 1)
  | none => L'.nodes.length ≤ n

/-- What a device owns after a walk. -/
theorem Walked.exists_layout {h' : Heap Block} {L₁ : List (Addr × ScullQset)} {n : ℕ}
    {answers rest : List (Option Addr)} {p data : Option Addr} (owns : Owns h dev L)
    (walked : Walked h L.qsets n answers p h' rest L₁) (list : ItemList h' data L₁) :
    ∃ L' : Layout G, Owns h' { dev with data := data } L' ∧ L'.nodes = L₁.map Prod.fst ∧
      Grown L L' ∧ Frame h L.blocks h' L'.blocks := by
  obtain ⟨hdata, hnodup, hget⟩ := itemList_iff.mp list
  obtain ⟨added, hnodes⟩ : ∃ added, L₁.map Prod.fst = L.nodes ++ added := by
    obtain ⟨added, hadded⟩ := walked.appended
    refine ⟨added, ?_⟩
    rw [← map_fst_contents, hadded, List.map_append, map_fst_contents, L.map_fst_qsets,
      List.map_map]
    exact congrArg _ (List.map_id added)
  obtain ⟨L', hnodes', harray, hslot⟩ := L.exists_append (hnodes ▸ hnodup)
  rw [← hnodes] at hnodes'
  have harrayAt : arrayAt L₁ = L'.array := by
    rw [walked.arrayAt_eq, L.arrayAt_qsets, harray]
  have hentries : L'.entries = L.entries := by
    funext i
    simp only [Layout.entries, hslot]
  refine ⟨L', ⟨owns.quantum, owns.qset, hnodes' ▸ hdata, ?_, ?_, ?_⟩, hnodes',
    ⟨⟨added, hnodes'.trans hnodes⟩, harray, hslot⟩, ?_⟩
  · intro i a hi
    obtain ⟨item, hitem, rfl⟩ : ∃ item, L₁[i]? = some item ∧ item.1 = a := by
      rwa [hnodes', List.getElem?_map, Option.map_eq_some_iff] at hi
    obtain ⟨hblock, hnext⟩ := hget i item.1 item.2 hitem
    have hitemData : item.2.data = L'.array i := by
      rw [← harrayAt, arrayAt, hitem]
      rfl
    rw [hblock, ← hitemData, hnodes', ← hnext]
  · intro i a hi
    rw [harray] at hi
    rw [hentries]
    exact walked.get_eq owns.itemList (owns.array hi) fun _ => by simp
  · intro g a bytes hg
    rw [hslot] at hg
    exact walked.get_eq owns.itemList (owns.slot hg) fun _ => by simp
  · have hsame : L'.dataBlocks = L.dataBlocks := by
      simp only [Layout.dataBlocks, harray, hslot]
    have haddresses : addresses L'.qsets = addresses L₁ := by
      simp only [addresses, L'.map_fst_qsets, hnodes']
    rw [L.blocks_eq, L'.blocks_eq, hsame, haddresses]
    exact walked.frame.union _

/-- **`scull_follow`.**  The device still owns its blocks, the list has only grown,
and the walk arrives or runs out of memory. -/
theorem scullFollow_spec (owns : Owns h dev L) (n : ℤ) (answers : List (Option Addr)) :
    ∃ p dev' h' rest, ∃ L' : Layout G, scullFollow h dev n answers = .ok (p, dev', h', rest) ∧
      Owns h' dev' L' ∧ dev'.size = dev.size ∧ Grown L L' ∧ Frame h L.blocks h' L'.blocks ∧
      Arrived L L' (toUInt n) p ∧ ∀ k, Supplied h (toUInt n + 1 - L.nodes.length + k) answers ↔
        p ≠ none ∧ Supplied h' k rest := by
  obtain ⟨p, data, h', rest, L₁, hfollow, list, walked⟩ := owns.itemList.follow n answers
  obtain ⟨L', owns', hnodes, grown, frame⟩ := walked.exists_layout owns list
  have hlength : L'.nodes.length = L₁.length := by rw [hnodes, List.length_map]
  refine ⟨p, _, h', rest, L', hfollow, owns', rfl, grown, frame, ?_,
    L.length_qsets ▸ walked.supplied⟩
  cases p with
  | none =>
      show L'.nodes.length ≤ toUInt n
      rw [hlength]
      exact (walked.stopped rfl).1
  | some a =>
      obtain ⟨hitem, hends⟩ := walked.arrived a rfl
      exact ⟨hnodes ▸ hitem, by rw [hlength, hends, L.length_qsets]⟩

/-- A walk within the list allocates nothing and changes nothing. -/
theorem scullFollow_eq (owns : Owns h dev L) {n : ℤ} {a : Addr}
    (ha : L.nodes[toUInt n]? = some a) (answers : List (Option Addr)) :
    scullFollow h dev n answers = .ok (some a, dev, h, answers) := by
  obtain ⟨item, hitem, rfl⟩ : ∃ item, L.qsets[toUInt n]? = some item ∧ item.1 = a := by
    rwa [← L.map_fst_qsets, List.getElem?_map, Option.map_eq_some_iff] at ha
  exact owns.itemList.follow_within hitem answers

end KernelTraining.Scull
