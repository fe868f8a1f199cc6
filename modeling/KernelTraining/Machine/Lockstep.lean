import KernelTraining.Machine.Heap

/-!
# Two runs side by side

`Together R x y` says of two computations that either both fault, in the same way, or both
return, with results related by `R`; `Together.bind` runs two programs in lockstep.  `Alike`
relates two heaps that hold blocks of the same shape at the same addresses, and the primitives
of the heap all respect it.

This is for saying that a program does not look at something: it is run twice, on states that
differ only there, and does the same things in both.  What may differ is in the relation on
the blocks.  A proof goes through the program step by step, in both runs at once:

* a step that touches the heap is one of the primitives, which give related results on related
  heaps (`Alike.load`, `Alike.store`, `Alike.kfree`, `Alike.kmalloc`);
* `Together.bind` goes on with the rest of the program under the relation that has been reached,
  and `Together.bind_eq` is for a step whose result is the same on both sides;
* two computations that are the same are related (`Together.refl`).
-/

namespace KernelTraining.Machine

universe u v

/-! ## Related computations -/

section Together

variable {ε : Type v} {α β : Type u}

/-- The same fault on both sides, or related results. -/
inductive Together (R : α → α → Prop) : Except ε α → Except ε α → Prop
  | ok {a b : α} (h : R a b) : Together R (.ok a) (.ok b)
  | error (e : ε) : Together R (.error e) (.error e)

theorem Together.refl (x : Except ε α) : Together Eq x x := by
  cases x with
  | ok a => exact .ok rfl
  | error e => exact .error e

/-- Related computations, continued by related programs. -/
theorem Together.bind {R : α → α → Prop} {S : β → β → Prop} {x y : Except ε α}
    {f g : α → Except ε β} (h : Together R x y) (hfg : ∀ a b, R a b → Together S (f a) (g b)) :
    Together S (x >>= f) (y >>= g) := by
  cases h with
  | ok h => exact hfg _ _ h
  | error e => exact .error e

/-- Two programs that go on from the same value. -/
theorem Together.bind_eq {S : β → β → Prop} {x y : Except ε α} {f g : α → Except ε β}
    (h : Together Eq x y) (hfg : ∀ a, Together S (f a) (g a)) :
    Together S (x >>= f) (y >>= g) := by
  apply h.bind
  rintro a _ rfl
  exact hfg a

theorem Together.map {R : α → α → Prop} {S : β → β → Prop} {x y : Except ε α} {f g : α → β}
    (h : Together R x y) (hfg : ∀ a b, R a b → S (f a) (g b)) :
    Together S (x.map f) (y.map g) := by
  cases h with
  | ok h => exact .ok (hfg _ _ h)
  | error e => exact .error e

/-- Two runs that both return have related results. -/
theorem Together.of_ok {R : α → α → Prop} {a b : α}
    (h : Together R (.ok a : Except ε α) (.ok b)) : R a b := by
  cases h with
  | ok h => exact h

end Together

/-! ## Heaps of the same shape -/

section Alike

variable {α β : Type u} {shape : α → β}

/-- The same addresses are in use, for blocks of the same shape. -/
def Alike (shape : α → β) (h₁ h₂ : Heap α) : Prop :=
  ∀ a, (h₁.get a).map shape = (h₂.get a).map shape

theorem Alike.refl (h : Heap α) : Alike shape h h := fun _ => rfl

/-- What one heap holds at an address, given what the other does. -/
theorem Alike.get {h₁ h₂ : Heap α} (h : Alike shape h₁ h₂) (a : Addr) :
    h₁.get a = none ∧ h₂.get a = none ∨
      ∃ b₁ b₂, h₁.get a = some b₁ ∧ h₂.get a = some b₂ ∧ shape b₁ = shape b₂ := by
  have ha := h a
  cases hb₁ : h₁.get a <;> cases hb₂ : h₂.get a <;> rw [hb₁, hb₂] at ha
  · exact .inl ⟨rfl, rfl⟩
  · simp at ha
  · simp at ha
  · exact .inr ⟨_, _, rfl, rfl, by simpa using ha⟩

theorem Alike.set {h₁ h₂ : Heap α} (h : Alike shape h₁ h₂) (a : Addr) {b₁ b₂ : α}
    (hb : shape b₁ = shape b₂) : Alike shape (h₁.set a b₁) (h₂.set a b₂) := by
  intro c
  rw [Heap.get_set, Heap.get_set]
  split_ifs
  · simpa using hb
  · exact h c

theorem Alike.erase {h₁ h₂ : Heap α} (h : Alike shape h₁ h₂) (a : Addr) :
    Alike shape (h₁.erase a) (h₂.erase a) := by
  intro c
  rw [Heap.get_erase, Heap.get_erase]
  split_ifs
  · rfl
  · exact h c

theorem Alike.card_eq {h₁ h₂ : Heap α} (h : Alike shape h₁ h₂) : h₁.card = h₂.card := by
  unfold Heap.card
  congr 1
  ext a
  have hmem : ∀ g : Heap α, a ∈ g.cells.keys ↔ g.get a ≠ none := fun g => by
    rw [Finmap.mem_keys, Heap.get, ne_eq, Finmap.lookup_eq_none, not_not]
  rw [hmem, hmem]
  rcases h.get a with ⟨h₁, h₂⟩ | ⟨b₁, b₂, h₁, h₂, -⟩ <;> simp [h₁, h₂]

theorem Alike.load {h₁ h₂ : Heap α} (h : Alike shape h₁ h₂) (p : Option Addr) :
    Together (fun b₁ b₂ => shape b₁ = shape b₂) (load h₁ p) (load h₂ p) := by
  cases p with
  | none => exact .error _
  | some a =>
      rcases h.get a with ⟨h₁, h₂⟩ | ⟨b₁, b₂, h₁, h₂, hb⟩
      · simp only [Machine.load, h₁, h₂]
        exact .error _
      · simp only [Machine.load, h₁, h₂]
        exact .ok hb

theorem Alike.store {h₁ h₂ : Heap α} (h : Alike shape h₁ h₂) (a : Addr) {b₁ b₂ : α}
    (hb : shape b₁ = shape b₂) :
    Together (Alike shape) (store h₁ a b₁) (store h₂ a b₂) := by
  rcases h.get a with ⟨h₁', h₂'⟩ | ⟨c₁, c₂, h₁', h₂', -⟩
  · simp only [Machine.store, h₁', h₂']
    exact .error _
  · simp only [Machine.store, h₁', h₂']
    exact .ok (h.set a hb)

theorem Alike.kfree {h₁ h₂ : Heap α} (h : Alike shape h₁ h₂) (p : Option Addr) :
    Together (Alike shape) (kfree h₁ p) (kfree h₂ p) := by
  cases p with
  | none => exact .ok h
  | some a =>
      rcases h.get a with ⟨h₁', h₂'⟩ | ⟨c₁, c₂, h₁', h₂', -⟩
      · simp only [Machine.kfree, h₁', h₂']
        exact .error _
      · simp only [Machine.kfree, h₁', h₂']
        exact .ok (h.erase a)

theorem Alike.kfreeAll {h₁ h₂ : Heap α} (h : Alike shape h₁ h₂) (ps : List (Option Addr)) :
    Together (Alike shape) (kfreeAll h₁ ps) (kfreeAll h₂ ps) := by
  induction ps generalizing h₁ h₂ with
  | nil => exact .ok h
  | cons p ps ih =>
      rw [kfreeAll_cons, kfreeAll_cons]
      exact (h.kfree p).bind fun _ _ => ih

/-- The allocator gives both sides the same answer. -/
theorem Alike.kmalloc {h₁ h₂ : Heap α} (h : Alike shape h₁ h₂) {b₁ b₂ : α}
    (hb : shape b₁ = shape b₂) (answers : List (Option Addr)) :
    ∃ p g₁ g₂ rest, kmalloc h₁ b₁ answers = (p, g₁, rest) ∧
      kmalloc h₂ b₂ answers = (p, g₂, rest) ∧ Alike shape g₁ g₂ := by
  rcases answers with _ | ⟨_ | a, rest⟩
  · exact ⟨none, h₁, h₂, [], rfl, rfl, h⟩
  · exact ⟨none, h₁, h₂, rest, rfl, rfl, h⟩
  · rcases h.get a with ⟨h₁', h₂'⟩ | ⟨c₁, c₂, h₁', h₂', -⟩
    · exact ⟨some a, _, _, rest, by simp only [Machine.kmalloc, h₁'],
        by simp only [Machine.kmalloc, h₂'], h.set a hb⟩
    · exact ⟨none, h₁, h₂, rest, by simp only [Machine.kmalloc, h₁'],
        by simp only [Machine.kmalloc, h₂'], h⟩

end Alike

end KernelTraining.Machine
