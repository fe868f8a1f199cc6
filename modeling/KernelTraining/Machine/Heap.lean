import Mathlib.Data.Finmap

/-!
# A heap of blocks

The memory a driver gets from the allocator: finitely many addresses, each holding one block.
Accesses go through `load`, `store` and `kfree`, which fault where the C code has undefined
behaviour, so "no fault" is memory safety.  The type of the blocks is a parameter; a pointer
into the middle of one does not exist here.

## The allocator

The allocator is the environment's: a call is given the list of answers it will get, an answer
being `none` (no memory) or an address, and `kmalloc` never hands out an address that is in
use, though it may hand out one that was freed before.  So a theorem for all lists of answers
is one for every allocator.

`Supplied h n answers` says that the next `n` requests will be met.  It is spent one request at
a time (`Supplied.kmalloc`), and depends only on which addresses are in use
(`supplied_congr`).  A request is met exactly if it was supplied
(`supplied_of_kmalloc_some`, `not_supplied_of_kmalloc_none`), so that a program which makes
requests one after the other can be said to fail exactly if they are not all supplied.

## Ownership

A program that works on its own blocks leaves all others alone.  `Frame h old h' new` says this
of a step that owns the blocks `old` before and `new` after it: the rest of the heap is as it
was, what was gained had not been in use, and what was given up is free.  Steps compose
(`Frame.trans`), may own more than they need (`Frame.union`), and leave the blocks of somebody
else alone and apart from their own (`Frame.separate`).
-/

namespace KernelTraining.Machine

/-- The address of a block; a pointer is an `Option Addr`, `none` being `NULL`. -/
abbrev Addr := ℕ

/-- What a C program must not do. -/
inductive Fault where
  /-- An access through a null pointer. -/
  | nullDeref
  /-- An access to memory that is not an allocated block of the expected kind. -/
  | badAccess
  /-- An access, or pointer arithmetic, beyond the end of a block. -/
  | outOfBounds
  /-- `kfree` of a block that is not allocated. -/
  | badFree
  | divideByZero
  deriving DecidableEq, Repr

universe u

@[simp] theorem ok_bind {α β : Type u} (a : α) (f : α → Except Fault β) :
    (Except.ok a >>= f) = f a := rfl

/-- A computation that goes through has gone through both of its parts. -/
theorem bind_eq_ok {α β : Type u} {x : Except Fault α} {f : α → Except Fault β} {b : β} :
    (x >>= f) = .ok b ↔ ∃ a, x = .ok a ∧ f a = .ok b := by
  cases x with
  | error fault => exact ⟨fun h => (by cases h), fun ⟨_, h, _⟩ => (by cases h)⟩
  | ok a => exact ⟨fun h => ⟨a, rfl, h⟩, fun ⟨_, ha, h⟩ => Except.ok.inj ha ▸ h⟩

theorem map_eq_ok {α β : Type*} {x : Except Fault α} {f : α → β} {b : β} :
    x.map f = .ok b ↔ ∃ a, x = .ok a ∧ f a = b := by
  cases x with
  | error fault => exact ⟨fun h => (by cases h), fun ⟨_, h, _⟩ => (by cases h)⟩
  | ok a => exact ⟨fun h => ⟨a, rfl, Except.ok.inj h⟩, fun ⟨_, ha, h⟩ => by cases ha; rw [← h]; rfl⟩

structure Heap (α : Type*) where
  cells : Finmap fun _ : Addr => α

namespace Heap

variable {α : Type*}

def empty : Heap α := ⟨∅⟩

/-- The block at an address. -/
def get (h : Heap α) (a : Addr) : Option α := h.cells.lookup a

def set (h : Heap α) (a : Addr) (block : α) : Heap α := ⟨h.cells.insert a block⟩

def erase (h : Heap α) (a : Addr) : Heap α := ⟨h.cells.erase a⟩

/-- The number of allocated blocks. -/
def card (h : Heap α) : ℕ := h.cells.keys.card

@[simp] theorem get_empty (a : Addr) : (empty : Heap α).get a = none := Finmap.lookup_empty a

theorem get_set (h : Heap α) (a c : Addr) (block : α) :
    (h.set a block).get c = if c = a then some block else h.get c := by
  unfold get set
  split_ifs with hc
  · rw [hc]
    exact Finmap.lookup_insert _
  · exact Finmap.lookup_insert_of_ne _ hc

theorem get_erase (h : Heap α) (a c : Addr) :
    (h.erase a).get c = if c = a then none else h.get c := by
  unfold get erase
  split_ifs with hc
  · rw [hc]
    exact Finmap.lookup_erase _ _
  · exact Finmap.lookup_erase_ne hc

@[simp] theorem get_set_self (h : Heap α) (a : Addr) (block : α) :
    (h.set a block).get a = some block := by
  rw [get_set, if_pos rfl]

theorem get_set_ne (h : Heap α) {a c : Addr} (block : α) (hne : c ≠ a) :
    (h.set a block).get c = h.get c := by
  rw [get_set, if_neg hne]

@[simp] theorem get_erase_self (h : Heap α) (a : Addr) : (h.erase a).get a = none := by
  rw [get_erase, if_pos rfl]

theorem get_erase_ne (h : Heap α) {a c : Addr} (hne : c ≠ a) : (h.erase a).get c = h.get c := by
  rw [get_erase, if_neg hne]

/-- Overwriting an allocated block frees nothing and uses nothing. -/
theorem get_set_eq_none_iff {h : Heap α} {a : Addr} (ha : h.get a ≠ none) (block : α) (c : Addr) :
    (h.set a block).get c = none ↔ h.get c = none := by
  by_cases hca : c = a
  · simp [hca, ha]
  · rw [get_set_ne _ _ hca]

/-- Distinct allocated addresses are no more than there are blocks. -/
theorem length_le_card (h : Heap α) {addrs : List Addr} (hnodup : addrs.Nodup)
    (halloc : ∀ a ∈ addrs, h.get a ≠ none) : addrs.length ≤ h.card := by
  rw [← List.toFinset_card_of_nodup hnodup]
  refine Finset.card_le_card fun a ha => Finmap.mem_keys.mpr ?_
  simpa [get, Finmap.lookup_eq_none] using halloc a (List.mem_toFinset.mp ha)

end Heap

section Access

variable {α : Type*}

/-- The block a pointer refers to. -/
def load (h : Heap α) : Option Addr → Except Fault α
  | none => .error .nullDeref
  | some a =>
      match h.get a with
      | none => .error .badAccess
      | some block => .ok block

/-- Overwriting an allocated block. -/
def store (h : Heap α) (a : Addr) (block : α) : Except Fault (Heap α) :=
  match h.get a with
  | none => .error .badAccess
  | some _ => .ok (h.set a block)

/-- `kfree`: nothing on `NULL`. -/
def kfree (h : Heap α) : Option Addr → Except Fault (Heap α)
  | none => .ok h
  | some a =>
      match h.get a with
      | none => .error .badFree
      | some _ => .ok (h.erase a)

/-- `kmalloc`, with the contents the new block starts with and the answers the
allocator has in store.  Returns the pointer and the answers left. -/
def kmalloc (h : Heap α) (block : α) :
    List (Option Addr) → Option Addr × Heap α × List (Option Addr)
  | [] => (none, h, [])
  | none :: rest => (none, h, rest)
  | some a :: rest =>
      match h.get a with
      | none => (some a, h.set a block, rest)
      | some _ => (none, h, rest)

theorem load_eq {h : Heap α} {a : Addr} {block : α} (ha : h.get a = some block) :
    load h (some a) = .ok block := by
  simp [load, ha]

theorem load_ok {h : Heap α} {p : Option Addr} {block : α} (hload : load h p = .ok block) :
    ∃ a, p = some a ∧ h.get a = some block := by
  cases p with
  | none => cases hload
  | some a =>
      cases hget : h.get a with
      | none => simp [load, hget] at hload
      | some found =>
          rw [load_eq hget] at hload
          exact ⟨a, rfl, hget.trans (congrArg some (Except.ok.inj hload))⟩

theorem store_eq {h : Heap α} {a : Addr} {block new : α} (ha : h.get a = some block) :
    store h a new = .ok (h.set a new) := by
  simp [store, ha]

@[simp] theorem kfree_none (h : Heap α) : kfree h none = .ok h := rfl

theorem kfree_eq {h : Heap α} {a : Addr} {block : α} (ha : h.get a = some block) :
    kfree h (some a) = .ok (h.erase a) := by
  simp [kfree, ha]

/-- The allocator either finds no memory or returns a block that was not in use. -/
theorem kmalloc_cases (h : Heap α) (block : α) (answers : List (Option Addr)) :
    (∃ rest, kmalloc h block answers = (none, h, rest)) ∨
      ∃ a rest, h.get a = none ∧ kmalloc h block answers = (some a, h.set a block, rest) := by
  rcases answers with _ | ⟨_ | a, rest⟩
  · exact .inl ⟨[], rfl⟩
  · exact .inl ⟨rest, rfl⟩
  · cases ha : h.get a with
    | none => exact .inr ⟨a, rest, ha, by simp [kmalloc, ha]⟩
    | some b => exact .inl ⟨rest, by simp [kmalloc, ha]⟩

/-- The allocator answers the next `n` requests with distinct addresses that are not
in use. -/
def Supplied (h : Heap α) : ℕ → List (Option Addr) → Prop
  | 0, _ => True
  | n + 1, some a :: rest => h.get a = none ∧ some a ∉ rest.take n ∧ Supplied h n rest
  | _ + 1, _ => False

instance Supplied.decidable (h : Heap α) : ∀ n answers, Decidable (Supplied h n answers)
  | 0, _ => isTrue trivial
  | n + 1, some _ :: rest =>
      have := Supplied.decidable h n rest
      inferInstanceAs (Decidable (_ ∧ _ ∧ _))
  | _ + 1, none :: _ => isFalse id
  | _ + 1, [] => isFalse id

theorem Supplied.congr {h h' : Heap α} {n : ℕ} {answers : List (Option Addr)}
    (supplied : Supplied h n answers)
    (hget : ∀ c, some c ∈ answers.take n → h'.get c = h.get c) : Supplied h' n answers := by
  induction n generalizing answers with
  | zero => trivial
  | succ n ih =>
      rcases answers with _ | ⟨_ | c, rest⟩
      · exact supplied
      · exact supplied
      · rw [List.take_succ_cons] at hget
        refine ⟨?_, supplied.2.1, ih supplied.2.2 fun c hc => hget c (List.mem_cons_of_mem _ hc)⟩
        rw [hget c List.mem_cons_self]
        exact supplied.1

/-- A supplied request succeeds, and whatever becomes of the new block, the ones
after it are still supplied. -/
theorem Supplied.kmalloc {h : Heap α} {n : ℕ} {answers : List (Option Addr)}
    (supplied : Supplied h (n + 1) answers) (block : α) :
    ∃ a rest, h.get a = none ∧ kmalloc h block answers = (some a, h.set a block, rest) ∧
      ∀ h' : Heap α, (∀ c ≠ a, h'.get c = h.get c) → Supplied h' n rest := by
  rcases answers with _ | ⟨_ | a, rest⟩
  · exact absurd supplied id
  · exact absurd supplied id
  · obtain ⟨ha, hnotMem, hrest⟩ := supplied
    refine ⟨a, rest, ha, by simp only [Machine.kmalloc, ha], ?_⟩
    intro h' hget
    exact hrest.congr fun c hc => hget c fun heq => hnotMem (heq ▸ hc)

/-- Only which addresses are in use matters. -/
theorem supplied_congr {h h' : Heap α} (hfree : ∀ c, h'.get c = none ↔ h.get c = none) (n : ℕ)
    (answers : List (Option Addr)) : Supplied h' n answers ↔ Supplied h n answers := by
  induction n generalizing answers with
  | zero => exact Iff.rfl
  | succ n ih =>
      rcases answers with _ | ⟨_ | c, rest⟩
      · exact Iff.rfl
      · exact Iff.rfl
      · exact and_congr (hfree c) (and_congr_right fun _ => ih rest)

theorem supplied_set (h : Heap α) (a : Addr) (block : α) (n : ℕ) (answers : List (Option Addr)) :
    Supplied (h.set a block) n answers ↔ some a ∉ answers.take n ∧ Supplied h n answers := by
  induction n generalizing answers with
  | zero => simp [Supplied]
  | succ n ih =>
      rcases answers with _ | ⟨_ | c, rest⟩
      · simp [Supplied]
      · simp [Supplied]
      · simp only [Supplied, ih, Heap.get_set, List.take_succ_cons, List.mem_cons, not_or,
          Option.some.injEq]
        by_cases hca : c = a
        · simp [hca]
        · simp only [hca, Ne.symm hca, if_false, not_false_eq_true, true_and]
          tauto

/-- A request that succeeds was supplied, and the ones after it are supplied from what
it leaves. -/
theorem supplied_of_kmalloc_some {h h₁ : Heap α} {block : α} {answers rest : List (Option Addr)}
    {a : Addr} (hmalloc : kmalloc h block answers = (some a, h₁, rest)) (n : ℕ) :
    Supplied h (n + 1) answers ↔ Supplied h₁ n rest := by
  rcases answers with _ | ⟨_ | c, answers⟩
  · simp [Machine.kmalloc] at hmalloc
  · simp [Machine.kmalloc] at hmalloc
  · cases hc : h.get c with
    | some old => simp [Machine.kmalloc, hc] at hmalloc
    | none =>
        simp only [Machine.kmalloc, hc, Prod.mk.injEq, Option.some.injEq] at hmalloc
        obtain ⟨rfl, rfl, rfl⟩ := hmalloc
        rw [supplied_set]
        exact and_iff_right hc

/-- A request that fails was not supplied. -/
theorem not_supplied_of_kmalloc_none {h h₁ : Heap α} {block : α}
    {answers rest : List (Option Addr)} (hmalloc : kmalloc h block answers = (none, h₁, rest))
    (n : ℕ) : ¬ Supplied h (n + 1) answers := by
  rcases answers with _ | ⟨_ | c, answers⟩
  · exact id
  · exact id
  · rintro ⟨hc, -⟩
    simp [Machine.kmalloc, hc] at hmalloc

/-- An allocation that fails leaves the heap as it is, whatever was asked for. -/
theorem kmalloc_of_not_supplied {h : Heap α} {answers : List (Option Addr)}
    (hshort : ¬ Supplied h 1 answers) (block : α) :
    Machine.kmalloc h block answers = (none, h, answers.tail) := by
  rcases answers with _ | ⟨_ | a, rest⟩
  · rfl
  · rfl
  · cases ha : h.get a with
    | none => exact absurd ⟨ha, List.not_mem_nil, trivial⟩ hshort
    | some old => simp only [Machine.kmalloc, ha, List.tail_cons]

/-- From some address on nothing is in use. -/
theorem Heap.exists_fresh (h : Heap α) : ∃ m, ∀ c, m ≤ c → h.get c = none := by
  refine ⟨h.cells.keys.sup id + 1, ?_⟩
  intro c hc
  by_contra hne
  have hmem : c ∈ h.cells.keys := by
    simpa [Heap.get, Finmap.lookup_eq_none, Finmap.mem_keys] using hne
  have hle : c ≤ h.cells.keys.sup id := Finset.le_sup (f := id) hmem
  exact Nat.not_succ_le_self _ (hc.trans hle)

/-- Addresses from a free stretch of the heap, one after the other. -/
theorem supplied_range' {h : Heap α} {m : ℕ} (hfree : ∀ c, m ≤ c → h.get c = none) (n : ℕ) :
    Supplied h n ((List.range' m n).map some) := by
  induction n generalizing m with
  | zero => trivial
  | succ n ih =>
      rw [List.range'_succ, List.map_cons]
      refine ⟨hfree m le_rfl, ?_, ih fun c hc => hfree c (by omega)⟩
      intro hmem
      obtain ⟨c, hc, hcm⟩ := List.mem_map.mp (List.mem_of_mem_take hmem)
      have hlt : m < c := (List.mem_range'_1.mp hc).1
      exact hlt.ne' (Option.some.inj hcm)

end Access

/-! ## Freeing a list of pointers -/

section KfreeAll

variable {α : Type*}

/-- `kfree` of one pointer after the other. -/
def kfreeAll (h : Heap α) : List (Option Addr) → Except Fault (Heap α)
  | [] => .ok h
  | p :: ps =>
      match kfree h p with
      | .error fault => .error fault
      | .ok h => kfreeAll h ps

theorem kfreeAll_cons {α : Type u} (h : Heap α) (p : Option Addr) (ps : List (Option Addr)) :
    kfreeAll h (p :: ps) = (kfree h p >>= fun h => kfreeAll h ps) := by
  simp only [kfreeAll]
  cases kfree h p <;> rfl

/-- Distinct allocated blocks can all be freed, and nothing else changes. -/
theorem kfreeAll_eq {h : Heap α} {ps : List (Option Addr)}
    (halloc : ∀ a, some a ∈ ps → h.get a ≠ none)
    (hnodup : ps.Pairwise fun p q => ∀ a, p = some a → q ≠ some a) :
    ∃ h', kfreeAll h ps = .ok h' ∧
      ∀ a, h'.get a = if some a ∈ ps then none else h.get a := by
  induction ps generalizing h with
  | nil => exact ⟨h, rfl, by simp⟩
  | cons p ps ih =>
      rw [List.pairwise_cons] at hnodup
      cases p with
      | none =>
          obtain ⟨h', hfree, hget⟩ := ih (fun a ha => halloc a (List.mem_cons_of_mem _ ha)) hnodup.2
          exact ⟨h', by simp [kfreeAll, hfree], by simpa using hget⟩
      | some a =>
          obtain ⟨block, hblock⟩ := Option.ne_none_iff_exists'.mp (halloc a (by simp))
          have hother : ∀ c, some c ∈ ps → c ≠ a := fun c hc heq =>
            hnodup.1 (some c) hc a rfl (by rw [heq])
          obtain ⟨h', hfree, hget⟩ := ih (h := h.erase a)
            (fun c hc => by
              rw [Heap.get_erase_ne _ (hother c hc)]
              exact halloc c (List.mem_cons_of_mem _ hc)) hnodup.2
          refine ⟨h', by simp [kfreeAll, kfree_eq hblock, hfree], ?_⟩
          intro c
          rw [hget, Heap.get_erase]
          by_cases hca : c = a <;> simp [hca]

end KfreeAll

/-! ## What a call may touch

A call that owns the blocks `old` before and `new` after it: the rest of the
heap is as it was, what it gained was not in use, and what it gave up is free. -/

section Frame

variable {α : Type*}

structure Frame (h : Heap α) (old : Set Addr) (h' : Heap α) (new : Set Addr) : Prop where
  other : ∀ a, a ∉ old → a ∉ new → h'.get a = h.get a
  fresh : ∀ a, a ∈ new → a ∈ old ∨ h.get a = none
  freed : ∀ a, a ∈ old → a ∉ new → h'.get a = none

theorem Frame.refl (h : Heap α) (own : Set Addr) : Frame h own h own where
  other := fun _ _ _ => rfl
  fresh := fun _ ha => .inl ha
  freed := fun _ ha hna => absurd ha hna

/-- Changing owned blocks in place. -/
theorem Frame.of_get_eq {h h' : Heap α} {own : Set Addr}
    (hother : ∀ a, a ∉ own → h'.get a = h.get a) : Frame h own h' own where
  other := fun a ha _ => hother a ha
  fresh := fun _ ha => .inl ha
  freed := fun _ ha hna => absurd ha hna

/-- Allocating a block and rewriting one of one's own. -/
theorem frame_alloc {h h' : Heap α} {own own' : Set Addr} {a : Addr}
    (ha : h.get a = none) (hown' : ∀ c, c ∈ own' ↔ c = a ∨ c ∈ own)
    (hother : ∀ c, c ∉ own' → h'.get c = h.get c) : Frame h own h' own' where
  other := fun c _ hc => hother c hc
  fresh := fun c hc => by
    rcases (hown' c).mp hc with rfl | hmem
    · exact .inr ha
    · exact .inl hmem
  freed := fun c hc hn => absurd ((hown' c).mpr (.inr hc)) hn

theorem Frame.trans {h h' h'' : Heap α} {old mid new : Set Addr} (first : Frame h old h' mid)
    (second : Frame h' mid h'' new) : Frame h old h'' new where
  other := fun a ho hn => by
    by_cases hm : a ∈ mid
    · rw [second.freed a hm hn]
      exact ((first.fresh a hm).resolve_left ho).symm
    · rw [second.other a hm hn, first.other a ho hm]
  fresh := fun a ha => by
    by_cases ho : a ∈ old
    · exact .inl ho
    refine .inr ?_
    by_cases hm : a ∈ mid
    · exact (first.fresh a hm).resolve_left ho
    · rw [← first.other a ho hm]
      exact (second.fresh a ha).resolve_left hm
  freed := fun a ho hn => by
    by_cases hm : a ∈ mid
    · exact second.freed a hm hn
    · rw [second.other a hm hn, first.freed a ho hm]

/-- Owning other blocks besides. -/
theorem Frame.union {h h' : Heap α} {old new : Set Addr} (frame : Frame h old h' new)
    (more : Set Addr) : Frame h (more ∪ old) h' (more ∪ new) where
  other := fun a ho hn => frame.other a (fun h => ho (.inr h)) fun h => hn (.inr h)
  fresh := fun a hn => by
    rcases hn with hmore | hn
    · exact .inl (.inl hmore)
    · exact (frame.fresh a hn).imp_left .inr
  freed := fun a ho hn => by
    have hmore : a ∉ more := fun h => hn (.inl h)
    exact frame.freed a (ho.resolve_left hmore) fun h => hn (.inr h)

/-- Blocks that belong to somebody else keep their contents and stay apart. -/
theorem Frame.separate {h h' : Heap α} {old new theirs : Set Addr} (frame : Frame h old h' new)
    (halloc : ∀ a ∈ theirs, h.get a ≠ none) (hapart : ∀ a ∈ theirs, a ∉ old) :
    ∀ a ∈ theirs, a ∉ new ∧ h'.get a = h.get a := by
  intro a ha
  have hnew : a ∉ new := fun hn => (frame.fresh a hn).elim (hapart a ha) (halloc a ha)
  exact ⟨hnew, frame.other a (hapart a ha) hnew⟩

end Frame

end KernelTraining.Machine
