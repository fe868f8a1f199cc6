import KernelTraining.Machine.Heap

/-!
# Linked lists on the heap

`Linked next h p L` says that following `next` from the pointer `p` visits exactly
the nodes `L`, at pairwise distinct allocated addresses, and then reaches `NULL`.
The rules are the operations on the front of such a list, which other parts of the
heap may do what they like around (`Linked.congr`).

The list is built up from its end: a node in front of a list whose nodes are others than it.
So an operation on the first node is a step of the definition (`Linked.push`,
`Linked.erase_head`), and a loop that follows the list is an induction on `L`.  For a walk from
the front, which has the visited nodes behind it, `Linked.iff_getElem?` says the same node by
node.

There is only one list at a pointer (`Linked.unique`), so a list that has been found in two
ways is the same.  `visit` finds it by following the pointers, for as many nodes as it is told
to, and is what a statement about a program can be written with.
-/

namespace KernelTraining.Machine

universe u

variable {α : Type u} {next : α → Option Addr}

def Linked (next : α → Option Addr) (h : Heap α) : Option Addr → List (Addr × α) → Prop
  | p, [] => p = none
  | p, (a, node) :: rest =>
      p = some a ∧ h.get a = some node ∧ a ∉ rest.map Prod.fst ∧ Linked next h (next node) rest

namespace Linked

variable {h h' : Heap α} {p : Option Addr} {a : Addr} {node : α} {L L' : List (Addr × α)}

theorem nodup (linked : Linked next h p L) : (L.map Prod.fst).Nodup := by
  induction L generalizing p with
  | nil => exact List.nodup_nil
  | cons entry rest ih => exact List.nodup_cons.mpr ⟨linked.2.2.1, ih linked.2.2.2⟩

theorem allocated (linked : Linked next h p L) : ∀ a ∈ L.map Prod.fst, h.get a ≠ none := by
  induction L generalizing p with
  | nil => simp
  | cons entry rest ih =>
      simp only [List.map_cons, List.forall_mem_cons]
      exact ⟨by simp [linked.2.1], ih linked.2.2.2⟩

/-- The list is determined by the pointer. -/
theorem unique (linked : Linked next h p L) (linked' : Linked next h p L') : L = L' := by
  induction L generalizing p L' with
  | nil =>
      obtain rfl : p = none := linked
      cases L' with
      | nil => rfl
      | cons entry rest => simp [Linked] at linked'
  | cons entry rest ih =>
      obtain ⟨rfl, hget, -, hrest⟩ := linked
      cases L' with
      | nil => simp [Linked] at linked'
      | cons entry' rest' =>
          obtain ⟨hp, hget', -, hrest'⟩ := linked'
          obtain ⟨a, node⟩ := entry
          obtain ⟨a', node'⟩ := entry'
          obtain rfl : a = a' := Option.some.inj hp
          obtain rfl : node = node' := Option.some.inj (hget.symm.trans hget')
          rw [ih hrest hrest']

/-- The pointer is the address of the first node. -/
theorem eq_head (linked : Linked next h p L) : p = L.head?.map Prod.fst := by
  cases L with
  | nil => exact linked
  | cons entry rest => exact linked.1

theorem eq_nil (linked : Linked next h none L) : L = [] := by
  cases L with
  | nil => rfl
  | cons entry rest => simp [Linked] at linked

/-- The pointer is the address of the first node, the addresses are distinct, and every node
is linked to the one behind it. -/
theorem iff_getElem? : Linked next h p L ↔ p = (L.map Prod.fst)[0]? ∧ (L.map Prod.fst).Nodup ∧
    ∀ i a node, L[i]? = some (a, node) →
      h.get a = some node ∧ next node = (L.map Prod.fst)[i + 1]? := by
  induction L generalizing p with
  | nil => simp [Linked]
  | cons entry rest ih =>
      obtain ⟨a, node⟩ := entry
      rw [Linked, ih, List.map_cons, List.nodup_cons]
      constructor
      · rintro ⟨hp, hget, ha, hnext, hnodup, hrest⟩
        refine ⟨hp, ⟨ha, hnodup⟩, ?_⟩
        intro i c block hi
        cases i with
        | zero =>
            obtain ⟨rfl, rfl⟩ := Prod.mk.inj (Option.some.inj hi)
            exact ⟨hget, hnext⟩
        | succ i => exact hrest i c block hi
      · rintro ⟨hp, ⟨ha, hnodup⟩, hall⟩
        obtain ⟨hget, hnext⟩ := hall 0 a node rfl
        exact ⟨hp, hget, ha, hnext, hnodup, fun i c block hi => hall (i + 1) c block hi⟩

/-- Only the nodes of the list matter. -/
theorem congr (linked : Linked next h p L) (hget : ∀ a ∈ L.map Prod.fst, h'.get a = h.get a) :
    Linked next h' p L := by
  induction L generalizing p with
  | nil => exact linked
  | cons entry rest ih =>
      rw [List.map_cons, List.forall_mem_cons] at hget
      exact ⟨linked.1, hget.1.trans linked.2.1, linked.2.2.1, ih linked.2.2.2 hget.2⟩

/-- A list does not notice a block that was not in use before. -/
theorem set_fresh (linked : Linked next h p L) (ha : h.get a = none) (block : α) :
    Linked next (h.set a block) p L :=
  linked.congr fun c hc => Heap.get_set_ne _ _ fun heq => linked.allocated c hc (heq ▸ ha)

/-- Freeing the first node. -/
theorem erase_head (linked : Linked next h p ((a, node) :: L)) :
    Linked next (h.erase a) (next node) L :=
  linked.2.2.2.congr fun _ hc => Heap.get_erase_ne _ fun heq => linked.2.2.1 (heq ▸ hc)

/-- A new first node. -/
theorem push (linked : Linked next h p L) (ha : a ∉ L.map Prod.fst) (hnext : next node = p) :
    Linked next (h.set a node) (some a) ((a, node) :: L) := by
  refine ⟨rfl, Heap.get_set_self _ _ _, ha, ?_⟩
  rw [hnext]
  exact linked.congr fun c hc => Heap.get_set_ne _ _ fun heq => ha (heq ▸ hc)

theorem length_le_card (linked : Linked next h p L) : L.length ≤ h.card := by
  have := h.length_le_card linked.nodup linked.allocated
  rwa [List.length_map] at this

end Linked

/-- Follows `next` from a pointer: the nodes visited, if there are exactly `n` of them
before `NULL` and all are allocated. -/
def visit (next : α → Option Addr) (h : Heap α) : ℕ → Option Addr → Option (List (Addr × α))
  | 0, none => some []
  | 0, some _ => none
  | _ + 1, none => none
  | n + 1, some a =>
      (h.get a).bind fun node => (visit next h n (next node)).map ((a, node) :: ·)

theorem visit_eq_some_iff {h : Heap α} {n : ℕ} {p : Option Addr} {L : List (Addr × α)} :
    visit next h n p = some L ∧ (L.map Prod.fst).Nodup ↔ Linked next h p L ∧ L.length = n := by
  induction n generalizing p L with
  | zero =>
      cases p with
      | none => cases L <;> simp [visit, Linked]
      | some a => cases L <;> simp [visit, Linked]
  | succ n ih =>
      cases p with
      | none => cases L <;> simp [visit, Linked]
      | some a =>
          simp only [visit, Option.bind_eq_some_iff, Option.map_eq_some_iff]
          constructor
          · rintro ⟨⟨node, hget, rest, hrest, rfl⟩, hnodup⟩
            rw [List.map_cons, List.nodup_cons] at hnodup
            obtain ⟨linked, hlength⟩ := ih.mp ⟨hrest, hnodup.2⟩
            exact ⟨⟨rfl, hget, hnodup.1, linked⟩, by simpa using hlength⟩
          · rintro ⟨linked, hlength⟩
            cases L with
            | nil => simp at hlength
            | cons entry rest =>
                have hnodup := linked.nodup
                obtain ⟨hp, hget, -, hrest⟩ := linked
                obtain rfl : a = entry.1 := Option.some.inj hp
                have := (ih.mpr ⟨hrest, by simpa using hlength⟩).1
                exact ⟨⟨entry.2, hget, rest, this, rfl⟩, hnodup⟩

end KernelTraining.Machine
