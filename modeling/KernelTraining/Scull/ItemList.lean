import KernelTraining.Machine.Linked
import KernelTraining.Scull.Device

/-!
# Walking and extending a list

`scull_follow` walks to a list item and appends the items that are missing on the way.
Here nothing is known of the device but that its list items are linked up and end in
`NULL` (`ItemList`, an instance of the linked lists of `Machine.Linked`).  The proofs about
devices that own their data use this, and so do those about devices whose parameters make no
sense.

* `Walked` is what can be said of a walk at any moment: the list only grows at its end, with
  items without data; all other blocks stay as they are; and the walk either has arrived at
  the item asked for or has stopped where an allocation failed.  Its last field counts the
  answers: the walk arrives exactly if the allocator supplies the items that are missing, and
  what is supplied beyond them is still there.
* `ItemList.walk` is the induction over the rounds of the loop.  The list is taken apart at
  its head, as the loop does, and `Walked.passed` puts the item in front back; the cases at
  the end of the list are `Walked.here`, `Walked.failed` and `Walked.grown`.
* When the item is there already, nothing is allocated at all (`ItemList.follow_within`),
  which needs an induction of its own, as the answers are not looked at.
-/

namespace KernelTraining.Scull

open Machine

/-- The link of a list item. -/
def Block.next : Block → Option Addr
  | .qset node => node.next
  | _ => none

/-- The list items from `p` on are `L`. -/
def ItemList (h : Heap Block) (p : Option Addr) (L : List (Addr × ScullQset)) : Prop :=
  Linked Block.next h p (L.map fun item => (item.1, .qset item.2))

/-- The items and their pointer arrays. -/
def contents (L : List (Addr × ScullQset)) : List (Addr × Option Addr) :=
  L.map fun item => (item.1, item.2.data)

/-- The pointer array of item `i`, if there is one. -/
def arrayAt (L : List (Addr × ScullQset)) (i : ℕ) : Option Addr := L[i]?.bind (·.2.data)

/-- Where the items are. -/
def addresses (L : List (Addr × ScullQset)) : Set Addr := {a | a ∈ L.map Prod.fst}

section

variable {h h' h₁ : Heap Block} {p : Option Addr} {a qs : Addr} {node node' : ScullQset}
  {L L' L₁ : List (Addr × ScullQset)} {n : ℕ} {answers rest rest₁ : List (Option Addr)}

@[simp] theorem length_contents (L : List (Addr × ScullQset)) : (contents L).length = L.length :=
  List.length_map _

@[simp] theorem map_fst_contents (L : List (Addr × ScullQset)) :
    (contents L).map Prod.fst = L.map Prod.fst := List.map_map

theorem arrayAt_contents (L : List (Addr × ScullQset)) (i : ℕ) :
    arrayAt L i = (contents L)[i]?.bind Prod.snd := by
  rw [contents, List.getElem?_map, Option.bind_map]
  rfl

theorem addresses_cons : addresses ((a, node) :: L) = insert a (addresses L) := by
  ext c
  exact List.mem_cons

theorem itemList_cons : ItemList h p ((a, node) :: L) ↔
    p = some a ∧ h.get a = some (.qset node) ∧ a ∉ addresses L ∧ ItemList h node.next L := by
  simp only [ItemList, List.map_cons, Linked, List.map_map]
  rfl

theorem ItemList.exists_cons (list : ItemList h (some a) L) :
    ∃ node rest, L = (a, node) :: rest := by
  cases L with
  | nil => cases list
  | cons item rest =>
      obtain ⟨b, node⟩ := item
      obtain rfl := Option.some.inj (itemList_cons.mp list).1
      exact ⟨node, rest, rfl⟩

theorem ItemList.eq_nil (list : ItemList h none L) : L = [] :=
  List.map_eq_nil_iff.mp (Linked.eq_nil list)

/-- Where the list starts, that no item is on it twice, and what each item holds. -/
theorem itemList_iff : ItemList h p L ↔ p = (L.map Prod.fst)[0]? ∧ (L.map Prod.fst).Nodup ∧
    ∀ i a node, L[i]? = some (a, node) →
      h.get a = some (.qset node) ∧ node.next = (L.map Prod.fst)[i + 1]? := by
  have hfst : (L.map fun item => (item.1, Block.qset item.2)).map Prod.fst = L.map Prod.fst :=
    List.map_map
  rw [ItemList, Linked.iff_getElem?, hfst]
  refine and_congr_right' (and_congr_right' (forall_congr' fun i => forall_congr' fun a => ?_))
  rw [List.getElem?_map]
  constructor
  · intro hall node hi
    exact hall (.qset node) (by rw [hi]; rfl)
  · intro hall block hi
    obtain ⟨⟨b, node⟩, hb, heq⟩ := Option.map_eq_some_iff.mp hi
    obtain ⟨rfl, rfl⟩ := Prod.mk.inj heq
    exact hall node hb

theorem ItemList.get_eq (list : ItemList h p L) {i : ℕ} (hi : L[i]? = some (a, node)) :
    h.get a = some (.qset node) :=
  ((itemList_iff.mp list).2.2 i a node hi).1

/-- One more item in front. -/
theorem ItemList.cons (hget : h.get a = some (.qset node)) (ha : a ∉ addresses L)
    (list : ItemList h node.next L) : ItemList h (some a) ((a, node) :: L) :=
  itemList_cons.mpr ⟨rfl, hget, ha, list⟩

/-! ## What a walk does -/

/-- A walk in the list `L` for item `n` is over, at `p` and with `rest` of the answers left:
the list, now `L'`, has only gained items at its end, without data.  Either the walk has
arrived at the item, and the list is as short as that allows, or the list ends before the
item and the next allocation for it has failed. -/
structure Walked (h : Heap Block) (L : List (Addr × ScullQset)) (n : ℕ)
    (answers : List (Option Addr)) (p : Option Addr) (h' : Heap Block)
    (rest : List (Option Addr)) (L' : List (Addr × ScullQset)) : Prop where
  appended : ∃ added : List Addr, contents L' = contents L ++ added.map (·, none)
  frame : Frame h (addresses L) h' (addresses L')
  arrived : ∀ a, p = some a → (L'.map Prod.fst)[n]? = some a ∧ L'.length = max L.length (n + 1)
  stopped : p = none → L'.length ≤ n ∧ Supplied h (L'.length - L.length) answers ∧
    ¬ Supplied h (L'.length - L.length + 1) answers
  supplied : ∀ k, Supplied h (n + 1 - L.length + k) answers ↔ p ≠ none ∧ Supplied h' k rest

namespace Walked

theorem length_le (walked : Walked h L n answers p h' rest L') : L.length ≤ L'.length := by
  obtain ⟨added, hadded⟩ := walked.appended
  have hlength := congrArg List.length hadded
  rw [List.length_append, length_contents, length_contents] at hlength
  omega

/-- Other blocks stay as they are, and off the list. -/
theorem untouched (walked : Walked h L n answers p h' rest L') {c : Addr} (halloc : h.get c ≠ none)
    (hc : c ∉ addresses L) : c ∉ addresses L' ∧ h'.get c = h.get c := by
  have hseparate : ∀ b ∈ ({c} : Set Addr), b ∉ addresses L' ∧ h'.get b = h.get b :=
    walked.frame.separate (fun _ hb => hb ▸ halloc) fun _ hb => hb ▸ hc
  exact hseparate c rfl

/-- The item is there. -/
theorem here (ha : (L.map Prod.fst)[n]? = some a) : Walked h L n answers (some a) h answers L where
  appended := ⟨[], (List.append_nil _).symm⟩
  frame := .refl h _
  arrived := by
    intro b hb
    obtain rfl := Option.some.inj hb
    have hlt := (List.getElem?_eq_some_iff.mp ha).1
    rw [List.length_map] at hlt
    exact ⟨ha, by omega⟩
  stopped := fun h => by cases h
  supplied := by
    have hlt := (List.getElem?_eq_some_iff.mp ha).1
    rw [List.length_map] at hlt
    intro k
    rw [show n + 1 - L.length = 0 by omega, Nat.zero_add]
    exact (and_iff_right (by simp)).symm

/-- The allocation fails. -/
theorem failed (hn : L.length ≤ n) (hmalloc : kmalloc h emptyQset answers = (none, h, rest)) :
    Walked h L n answers none h rest L where
  appended := ⟨[], (List.append_nil _).symm⟩
  frame := .refl h _
  arrived := fun _ h => by cases h
  stopped := by
    intro _
    rw [Nat.sub_self]
    exact ⟨hn, trivial, not_supplied_of_kmalloc_none hmalloc 0⟩
  supplied := by
    intro k
    rw [show n + 1 - L.length + k = n - L.length + k + 1 by omega]
    exact iff_of_false (not_supplied_of_kmalloc_none hmalloc _) fun h => h.1 rfl

/-- An item of the list is passed. -/
theorem passed (walked : Walked h L n answers p h' rest L') (hdata : node'.data = node.data) :
    Walked h ((a, node) :: L) (n + 1) answers p h' rest ((a, node') :: L') where
  appended := by
    obtain ⟨added, hadded⟩ := walked.appended
    refine ⟨added, ?_⟩
    show (a, node'.data) :: contents L' = (a, node.data) :: (contents L ++ _)
    rw [hdata, hadded]
  frame := by
    rw [addresses_cons, addresses_cons, Set.insert_eq, Set.insert_eq]
    exact walked.frame.union {a}
  arrived := by
    intro b hb
    obtain ⟨hitem, hlength⟩ := walked.arrived b hb
    refine ⟨hitem, ?_⟩
    simp only [List.length_cons]
    omega
  stopped := by
    intro hp
    simpa [Nat.add_sub_add_right] using walked.stopped hp
  supplied := by
    intro k
    rw [List.length_cons, Nat.add_sub_add_right]
    exact walked.supplied k

/-- The list has got a new last item. -/
theorem grown (hn : L.length ≤ n) (ha : h.get a = none)
    (hmalloc : kmalloc h emptyQset answers = (some a, h.set a emptyQset, rest₁))
    (hcontents : contents L₁ = contents L ++ [(a, none)])
    (hfree : ∀ c, h₁.get c = none ↔ (h.set a emptyQset).get c = none)
    (hother : ∀ c, c ≠ a → c ∉ addresses L → h₁.get c = h.get c)
    (walked : Walked h₁ L₁ n rest₁ p h' rest L') : Walked h L n answers p h' rest L' := by
  have hlength : L₁.length = L.length + 1 := by
    have hlength := congrArg List.length hcontents
    rwa [List.length_append, length_contents, length_contents] at hlength
  have haddresses : ∀ c, c ∈ addresses L₁ ↔ c = a ∨ c ∈ addresses L := by
    intro c
    have hmap := congrArg (List.map Prod.fst) hcontents
    rw [List.map_append, map_fst_contents, map_fst_contents] at hmap
    show c ∈ L₁.map Prod.fst ↔ c = a ∨ c ∈ L.map Prod.fst
    rw [hmap, List.mem_append, or_comm]
    exact or_congr_left List.mem_singleton
  have hle := walked.length_le
  have hsupplied : ∀ k, Supplied h (k + 1) answers ↔ Supplied h₁ k rest₁ := fun k => by
    rw [supplied_of_kmalloc_some hmalloc, supplied_congr hfree]
  refine ⟨?_, ?_, ?_, ?_, ?_⟩
  · obtain ⟨added, hadded⟩ := walked.appended
    exact ⟨a :: added, by rw [hadded, hcontents, List.append_assoc]; rfl⟩
  · refine (frame_alloc ha haddresses ?_).trans walked.frame
    intro c hc
    rw [haddresses, not_or] at hc
    exact hother c hc.1 hc.2
  · intro b hb
    obtain ⟨hitem, hends⟩ := walked.arrived b hb
    exact ⟨hitem, by omega⟩
  · intro hp
    obtain ⟨hends, hmet, hrefused⟩ := walked.stopped hp
    rw [show L'.length - L.length = L'.length - L₁.length + 1 by omega, hsupplied, hsupplied]
    exact ⟨hends, hmet, hrefused⟩
  · intro k
    rw [show n + 1 - L.length + k = n + 1 - L₁.length + k + 1 by omega, hsupplied]
    exact walked.supplied k

/-- The item in front is what it was, and in front of the new list. -/
theorem list_cons (walked : Walked h L n answers p h' rest L') (hget : h.get a = some (.qset node))
    (ha : a ∉ addresses L) (tail : ItemList h' node.next L') :
    ItemList h' (some a) ((a, node) :: L') := by
  obtain ⟨ha', hsame⟩ := walked.untouched (by simp [hget]) ha
  exact .cons (hsame.trans hget) ha' tail

/-- The items have the pointer arrays they had, and new ones have none. -/
theorem arrayAt_eq (walked : Walked h L n answers p h' rest L') : arrayAt L' = arrayAt L := by
  obtain ⟨added, hadded⟩ := walked.appended
  funext i
  rw [arrayAt_contents, arrayAt_contents, hadded]
  rcases Nat.lt_or_ge i (contents L).length with hlt | hge
  · rw [List.getElem?_append_left hlt]
  · rw [List.getElem?_append_right hge, List.getElem?_eq_none hge, List.getElem?_map,
      Option.bind_map]
    cases added[i - (contents L).length]? <;> rfl

/-- Pointer arrays and quanta are left alone. -/
theorem get_eq (walked : Walked h L n answers p h' rest L') {q : Option Addr}
    (list : ItemList h q L) {c : Addr} {block : Block} (hget : h.get c = some block)
    (hblock : ∀ node, block ≠ .qset node) : h'.get c = some block := by
  have hold : c ∉ addresses L := by
    intro hmem
    obtain ⟨item, hitem, rfl⟩ := List.mem_map.mp hmem
    obtain ⟨i, hi⟩ := List.mem_iff_getElem?.mp hitem
    exact hblock item.2 (Option.some.inj (hget.symm.trans (list.get_eq hi)))
  rw [(walked.untouched (by simp [hget]) hold).2, hget]

end Walked

/-! ## `scull_follow` -/

/-- The loop of `scull_follow`, for `n` rounds. -/
theorem ItemList.walk (n : ℕ) (list : ItemList h (some qs) L) (answers : List (Option Addr)) :
    ∃ p h' rest L', followLoop n h qs answers = .ok (p, h', rest) ∧
      ItemList h' (some qs) L' ∧ Walked h L n answers p h' rest L' := by
  -- `qs` is the item the walk has reached, `L` the list from there on
  induction n generalizing h qs L answers with
  | zero =>
      obtain ⟨node, S, rfl⟩ := list.exists_cons
      exact ⟨some qs, h, answers, _, rfl, list, .here rfl⟩
  | succ n ih =>
      obtain ⟨node, S, rfl⟩ := list.exists_cons
      obtain ⟨-, hget, hnot, tail⟩ := itemList_cons.mp list
      simp only [followLoop, loadQset_eq hget, ok_bind]
      cases hnext : node.next with
      | some next =>
          rw [hnext] at tail
          obtain ⟨p, h', rest, S', hloop, tail', walked⟩ := ih tail answers
          exact ⟨p, h', rest, (qs, node) :: S', hloop,
            walked.list_cons hget hnot (hnext ▸ tail'), walked.passed rfl⟩
      | none =>
          rw [hnext] at tail
          obtain rfl := tail.eq_nil
          rcases kmalloc_cases h emptyQset answers with ⟨rest, hmalloc⟩ | ⟨a, rest, ha, hmalloc⟩
          · -- the allocation fails and the walk ends here
            exact ⟨none, h, rest, [(qs, node)], by rw [hmalloc]; rfl, list,
              .failed (Nat.le_add_left 1 n) hmalloc⟩
          · -- the list gets a new last item, and the walk goes on from there
            have hqa : qs ≠ a := by
              rintro rfl
              rw [hget] at ha
              cases ha
            have hlast : (h.set a emptyQset).get qs = some (.qset node) := by
              rw [Heap.get_set_ne _ _ hqa, hget]
            have hnew : ((h.set a emptyQset).set qs (.qset { node with next := some a })).get a =
                some emptyQset := by
              rw [Heap.get_set_ne _ _ hqa.symm, Heap.get_set_self]
            have tail : ItemList ((h.set a emptyQset).set qs (.qset { node with next := some a }))
                (some a) [(a, ⟨none, none⟩)] := .cons hnew List.not_mem_nil rfl
            obtain ⟨p, h', rest', S', hloop, tail', walked⟩ := ih tail rest
            have list' := walked.list_cons (Heap.get_set_self ..)
              (fun h => hqa (List.mem_singleton.mp h)) tail'
            have walked' : Walked _ [(qs, { node with next := some a }), (a, ⟨none, none⟩)] (n + 1)
              rest p h' rest' ((qs, { node with next := some a }) :: S') := walked.passed rfl
            refine ⟨p, h', rest', _, ?_, list',
              walked'.grown (Nat.le_add_left 1 n) ha hmalloc rfl ?_ ?_⟩
            · simp only [hmalloc, store_eq hlast, ok_bind]
              exact hloop
            · exact Heap.get_set_eq_none_iff (by rw [hlast]; simp) _
            · intro c hca hc
              have hcq : c ≠ qs := fun heq => hc (List.mem_singleton.mpr heq)
              rw [Heap.get_set_ne _ _ hcq, Heap.get_set_ne _ _ hca]

/-- **`scull_follow`**, on any list. -/
theorem ItemList.follow {dev : ScullDev} (list : ItemList h dev.data L) (n : ℤ)
    (answers : List (Option Addr)) :
    ∃ p data h' rest L',
      scullFollow h dev n answers = .ok (p, { dev with data := data }, h', rest) ∧
      ItemList h' data L' ∧ Walked h L (toUInt n) answers p h' rest L' := by
  obtain ⟨data, quantum, qset, size⟩ := dev
  cases data with
  | some qs =>
      obtain ⟨p, h', rest, L', hloop, list', walked⟩ := list.walk (toUInt n) answers
      refine ⟨p, some qs, h', rest, L', ?_, list', walked⟩
      simp only [scullFollow, hloop, ok_bind]
      rfl
  | none =>
      obtain rfl := list.eq_nil
      rcases kmalloc_cases h emptyQset answers with ⟨rest, hmalloc⟩ | ⟨a, rest, ha, hmalloc⟩
      · refine ⟨none, none, h, rest, [], ?_, list, .failed (Nat.zero_le _) hmalloc⟩
        simp only [scullFollow, hmalloc]
        rfl
      · have first : ItemList (h.set a emptyQset) (some a) [(a, ⟨none, none⟩)] :=
          .cons (Heap.get_set_self ..) List.not_mem_nil rfl
        obtain ⟨p, h', rest', L', hloop, list', walked⟩ := first.walk (toUInt n) rest
        refine ⟨p, some a, h', rest', L', ?_, list', walked.grown (Nat.zero_le _) ha hmalloc rfl
          (fun _ => Iff.rfl) fun c hca _ => Heap.get_set_ne _ _ hca⟩
        simp only [scullFollow, hmalloc, hloop, ok_bind]
        rfl

/-! ## Within the list -/

theorem ItemList.walk_within (list : ItemList h (some qs) L) (hitem : L[n]? = some (a, node))
    (answers : List (Option Addr)) : followLoop n h qs answers = .ok (some a, h, answers) := by
  induction n generalizing qs L with
  | zero =>
      obtain ⟨node, S, rfl⟩ := list.exists_cons
      cases hitem
      rfl
  | succ n ih =>
      obtain ⟨node, S, rfl⟩ := list.exists_cons
      obtain ⟨-, hget, -, tail⟩ := itemList_cons.mp list
      rw [List.getElem?_cons_succ] at hitem
      cases hnext : node.next with
      | none =>
          rw [hnext] at tail
          obtain rfl := tail.eq_nil
          cases hitem
      | some next =>
          rw [hnext] at tail
          simp only [followLoop, loadQset_eq hget, ok_bind, hnext]
          exact ih tail hitem

/-- A walk within the list allocates nothing and changes nothing. -/
theorem ItemList.follow_within {dev : ScullDev} (list : ItemList h dev.data L) {n : ℤ}
    (hitem : L[toUInt n]? = some (a, node)) (answers : List (Option Addr)) :
    scullFollow h dev n answers = .ok (some a, dev, h, answers) := by
  cases hdata : dev.data with
  | none =>
      rw [hdata] at list
      obtain rfl := list.eq_nil
      cases hitem
  | some qs =>
      rw [hdata] at list
      simp only [scullFollow, hdata, list.walk_within hitem answers, ok_bind]
      rfl

end

end KernelTraining.Scull
