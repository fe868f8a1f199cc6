import KernelTraining.Machine.Lockstep
import KernelTraining.Scull.Invariant

/-!
# The driver does not look at the data

No branch of the driver depends on the bytes of a quantum.  Run on two heaps that
differ in nothing else (`SameShape`), every function takes the same way: it faults on both or
on neither, and returns the same values and again two such heaps.

That is a relation between two runs of one function, and `Machine.Lockstep` has the rules for
it: `Together` for the results, `Alike` for the heaps, and a lemma for each way to put
computations together.  So the proofs here follow the definitions line by line.  Blotting out
the bytes of a quantum (`Block.shape`) keeps its length, on which the windows of the copies
depend (`window_together`), and everything of the other blocks.

What somebody finds who only looks at a device, the list, the arrays, which positions have a
quantum and how many allocations a write needs, is the same in both heaps as well.
-/

namespace KernelTraining.Scull

open Machine

/-- A block, with the bytes of a quantum blotted out. -/
def Block.shape : Block → Block
  | .quantum bytes => .quantum (List.replicate bytes.length 0)
  | block => block

/-- The heaps differ in the bytes of quanta only. -/
abbrev SameShape (h₁ h₂ : Heap Block) : Prop := Alike Block.shape h₁ h₂

theorem Block.shape_quantum {bytes₁ bytes₂ : List UInt8} (h : bytes₁.length = bytes₂.length) :
    (Block.quantum bytes₁).shape = (Block.quantum bytes₂).shape := by
  simp only [Block.shape, h]

section

variable {h₁ h₂ : Heap Block}

/-! ## Loads -/

theorem SameShape.loadQset (h : SameShape h₁ h₂) (p : Option Addr) :
    Together Eq (loadQset h₁ p) (loadQset h₂ p) := by
  apply (h.load p).bind
  intro b₁ b₂ hb
  cases b₁ <;> cases b₂ <;>
    simp only [Block.shape, reduceCtorEq, Block.qset.injEq] at hb
  · exact .ok hb
  · exact .error _
  · exact .error _

theorem SameShape.loadPtrs (h : SameShape h₁ h₂) (p : Option Addr) :
    Together Eq (loadPtrs h₁ p) (loadPtrs h₂ p) := by
  apply (h.load p).bind
  intro b₁ b₂ hb
  cases b₁ <;> cases b₂ <;>
    simp only [Block.shape, reduceCtorEq, Block.ptrs.injEq] at hb
  · exact .error _
  · exact .ok hb
  · exact .error _

theorem SameShape.loadQuantum (h : SameShape h₁ h₂) (p : Option Addr) :
    Together (fun b₁ b₂ => b₁.length = b₂.length) (loadQuantum h₁ p) (loadQuantum h₂ p) := by
  apply (h.load p).bind
  intro b₁ b₂ hb
  cases b₁ <;> cases b₂ <;>
    simp only [Block.shape, reduceCtorEq, Block.quantum.injEq] at hb
  · exact .error _
  · exact .error _
  · exact .ok (by simpa using congrArg List.length hb)

theorem SameShape.kmalloc (h : SameShape h₁ h₂) {b₁ b₂ : Block} (hb : b₁.shape = b₂.shape)
    (answers : List (Option Addr)) :
    ∃ p g₁ g₂ rest, kmalloc h₁ b₁ answers = (p, g₁, rest) ∧
      kmalloc h₂ b₂ answers = (p, g₂, rest) ∧ SameShape g₁ g₂ :=
  Alike.kmalloc h hb answers

/-! ## Looking at a device -/

theorem SameShape.items (h : SameShape h₁ h₂) (rounds : ℕ) (p : Option Addr) :
    items h₁ rounds p = items h₂ rounds p := by
  induction rounds generalizing p with
  | zero => rfl
  | succ rounds ih =>
      cases p with
      | none => rfl
      | some a =>
          simp only [Scull.items]
          rcases h.get a with ⟨hb₁, hb₂⟩ | ⟨b₁, b₂, hb₁, hb₂, hb⟩
          · rw [hb₁, hb₂]
          · rw [hb₁, hb₂]
            cases b₁ <;> cases b₂ <;>
              simp only [Block.shape, reduceCtorEq, Block.qset.injEq] at hb
            · simp only [hb, ih]
            · rfl
            · rfl

theorem SameShape.ptrsAt (h : SameShape h₁ h₂) (a : Addr) : ptrsAt h₁ a = ptrsAt h₂ a := by
  unfold Scull.ptrsAt
  rcases h.get a with ⟨hb₁, hb₂⟩ | ⟨b₁, b₂, hb₁, hb₂, hb⟩
  · rw [hb₁, hb₂]
  · rw [hb₁, hb₂]
    cases b₁ <;> cases b₂ <;> simp only [Block.shape, reduceCtorEq, Block.ptrs.injEq] at hb
    · rfl
    · simp only [hb]
    · rfl

/-- The same positions are covered by quanta. -/
theorem SameShape.isSome_peek (h : SameShape h₁ h₂) (dev : ScullDev) (x : ℕ) :
    (peek h₁ dev x).isSome = (peek h₂ dev x).isSome := by
  have hbyte : ∀ (q : Addr) (i : ℕ), (quantumAt h₁ q).any (fun bytes => bytes[i]?.isSome) =
      (quantumAt h₂ q).any fun bytes => bytes[i]?.isSome := by
    intro q i
    unfold Scull.quantumAt
    rcases h.get q with ⟨hb₁, hb₂⟩ | ⟨b₁, b₂, hb₁, hb₂, hb⟩
    · rw [hb₁, hb₂]
    · rw [hb₁, hb₂]
      cases b₁ <;> cases b₂ <;>
        simp only [Block.shape, reduceCtorEq, Block.quantum.injEq] at hb
      · rfl
      · rfl
      · have hlength : _ = _ := congrArg List.length hb
        rw [List.length_replicate, List.length_replicate] at hlength
        have hsome : ∀ bytes : List UInt8, bytes[i]?.isSome = decide (i < bytes.length) :=
          fun bytes => by by_cases hi : i < bytes.length <;> simp [hi]
        simp only [Option.any_some, hsome, hlength]
  simp only [peek, h.items, h.card_eq, h.ptrsAt, Option.bind_eq_bind, Option.isSome_bind, hbyte]

/-- A write needs the same allocations. -/
theorem SameShape.missingAt (h : SameShape h₁ h₂) (dev : ScullDev) (p : ℕ) :
    missingAt h₁ dev p = missingAt h₂ dev p := by
  have hptrs : Scull.ptrsAt h₁ = Scull.ptrsAt h₂ := funext h.ptrsAt
  simp only [Scull.missingAt, h.items, h.card_eq, hptrs]

theorem SameShape.supplied (h : SameShape h₁ h₂) (n : ℕ) (answers : List (Option Addr)) :
    Supplied h₁ n answers ↔ Supplied h₂ n answers := by
  apply supplied_congr
  intro c
  rcases h.get c with ⟨hb₁, hb₂⟩ | ⟨b₁, b₂, hb₁, hb₂, -⟩
  · rw [hb₁, hb₂]
  · rw [hb₁, hb₂]
    exact iff_of_false (Option.some_ne_none b₁) (Option.some_ne_none b₂)

/-! ## `scull_trim` -/

theorem SameShape.trimItem (h : SameShape h₁ h₂) (qset : ℤ) (dptr : Addr) :
    Together (fun r₁ r₂ => r₁.1 = r₂.1 ∧ SameShape r₁.2 r₂.2) (trimItem qset h₁ dptr)
      (trimItem qset h₂ dptr) := by
  apply (h.loadQset (some dptr)).bind_eq
  intro node
  have hrest : ∀ g₁ g₂ : Heap Block, SameShape g₁ g₂ →
      Together (fun r₁ r₂ => r₁.1 = r₂.1 ∧ SameShape r₁.2 r₂.2)
        (kfree g₁ (some dptr) >>= fun h => Except.ok (node.next, h))
        (kfree g₂ (some dptr) >>= fun h => Except.ok (node.next, h)) :=
    fun g₁ g₂ hg => (hg.kfree (some dptr)).bind fun _ _ hf => .ok ⟨rfl, hf⟩
  cases hdata : node.data with
  | none => exact hrest _ _ h
  | some data =>
      apply (h.loadPtrs (some data)).bind_eq
      intro entries
      apply (Together.refl (firstEntries entries qset)).bind_eq
      intro entries
      apply (h.kfreeAll entries).bind
      intro g₁ g₂ hg
      apply (hg.kfree (some data)).bind
      intro f₁ f₂ hf
      exact (hf.store dptr rfl).bind hrest

theorem SameShape.trimLoop (h : SameShape h₁ h₂) (qset : ℤ) (rounds : ℕ) (p : Option Addr) :
    Together SameShape (trimLoop qset rounds h₁ p) (trimLoop qset rounds h₂ p) := by
  induction rounds generalizing h₁ h₂ p with
  | zero =>
      cases p with
      | none => exact .ok h
      | some dptr => exact .error _
  | succ rounds ih =>
      cases p with
      | none => exact .ok h
      | some dptr =>
          apply (h.trimItem qset dptr).bind
          intro r₁ r₂ hr
          obtain ⟨next₁, g₁⟩ := r₁
          obtain ⟨next₂, g₂⟩ := r₂
          obtain ⟨rfl, hg⟩ := hr
          exact ih hg next₁

theorem SameShape.scullTrim (h : SameShape h₁ h₂) (scullQuantum scullQset : ℤ) (dev : ScullDev) :
    Together (fun r₁ r₂ => r₁.1 = r₂.1 ∧ SameShape r₁.2 r₂.2)
      (scullTrim scullQuantum scullQset h₁ dev) (scullTrim scullQuantum scullQset h₂ dev) := by
  unfold Scull.scullTrim
  rw [h.card_eq]
  exact (h.trimLoop dev.qset h₂.card dev.data).bind fun g₁ g₂ hg => .ok ⟨rfl, hg⟩

/-! ## `scull_follow` -/

theorem SameShape.followLoop (h : SameShape h₁ h₂) (n : ℕ) (qs : Addr)
    (answers : List (Option Addr)) :
    Together (fun r₁ r₂ => r₁.1 = r₂.1 ∧ SameShape r₁.2.1 r₂.2.1 ∧ r₁.2.2 = r₂.2.2)
      (followLoop n h₁ qs answers) (followLoop n h₂ qs answers) := by
  induction n generalizing h₁ h₂ qs answers with
  | zero => exact .ok ⟨rfl, h, rfl⟩
  | succ n ih =>
      apply (h.loadQset (some qs)).bind_eq
      intro node
      cases hnext : node.next with
      | some next => exact ih h next answers
      | none =>
          obtain ⟨p, g₁, g₂, rest, hmalloc₁, hmalloc₂, hg⟩ :=
            h.kmalloc (rfl : emptyQset.shape = _) answers
          dsimp only
          rw [hmalloc₁, hmalloc₂]
          cases p with
          | none => exact .ok ⟨rfl, hg, rfl⟩
          | some next => exact (hg.store qs rfl).bind fun f₁ f₂ hf => ih hf next rest

theorem SameShape.scullFollow (h : SameShape h₁ h₂) (dev : ScullDev) (n : ℤ)
    (answers : List (Option Addr)) :
    Together
      (fun r₁ r₂ => r₁.1 = r₂.1 ∧ r₁.2.1 = r₂.2.1 ∧ SameShape r₁.2.2.1 r₂.2.2.1 ∧
        r₁.2.2.2 = r₂.2.2.2)
      (scullFollow h₁ dev n answers) (scullFollow h₂ dev n answers) := by
  unfold Scull.scullFollow
  cases dev.data with
  | some qs =>
      apply (h.followLoop (toUInt n) qs answers).bind
      intro r₁ r₂ hr
      exact .ok ⟨hr.1, rfl, hr.2⟩
  | none =>
      obtain ⟨p, g₁, g₂, rest, hmalloc₁, hmalloc₂, hg⟩ :=
        h.kmalloc (rfl : emptyQset.shape = _) answers
      dsimp only
      rw [hmalloc₁, hmalloc₂]
      cases p with
      | none => exact .ok ⟨rfl, rfl, hg, rfl⟩
      | some qs =>
          apply (hg.followLoop (toUInt n) qs rest).bind
          intro r₁ r₂ hr
          exact .ok ⟨hr.1, rfl, hr.2⟩

/-! ## Transfers -/

theorem SameShape.kmallocSize (h : SameShape h₁ h₂) (size : ℤ) {b₁ b₂ : Block}
    (hb : b₁.shape = b₂.shape) (answers : List (Option Addr)) :
    ∃ p g₁ g₂ rest, kmallocSize size h₁ b₁ answers = (p, g₁, rest) ∧
      kmallocSize size h₂ b₂ answers = (p, g₂, rest) ∧ SameShape g₁ g₂ := by
  unfold Scull.kmallocSize
  split_ifs
  · exact ⟨none, h₁, h₂, answers.tail, rfl, rfl, h⟩
  · exact h.kmalloc hb answers

theorem SameShape.ensureArray (h : SameShape h₁ h₂) (dptr : Addr) (qset : ℤ)
    (answers : List (Option Addr)) :
    Together (fun r₁ r₂ => r₁.1 = r₂.1 ∧ SameShape r₁.2.1 r₂.2.1 ∧ r₁.2.2 = r₂.2.2)
      (ensureArray h₁ dptr qset answers) (ensureArray h₂ dptr qset answers) := by
  apply (h.loadQset (some dptr)).bind_eq
  intro node
  cases hdata : node.data with
  | some data => exact .ok ⟨rfl, h, rfl⟩
  | none =>
      obtain ⟨p, g₁, g₂, rest, hmalloc₁, hmalloc₂, hg⟩ :=
        h.kmallocSize qset (rfl : (Block.ptrs (List.replicate qset.toNat none)).shape = _) answers
      dsimp only
      rw [hmalloc₁, hmalloc₂]
      cases p with
      | none => exact .ok ⟨rfl, hg, rfl⟩
      | some data => exact (hg.store dptr rfl).bind fun f₁ f₂ hf => .ok ⟨rfl, hf, rfl⟩

theorem SameShape.ensureQuantum (h : SameShape h₁ h₂) (data : Addr) (sPos quantum : ℤ)
    (junk₁ junk₂ : ℕ → UInt8) (answers : List (Option Addr)) :
    Together (fun r₁ r₂ => r₁.1 = r₂.1 ∧ SameShape r₁.2.1 r₂.2.1 ∧ r₁.2.2 = r₂.2.2)
      (ensureQuantum h₁ data sPos quantum junk₁ answers)
      (ensureQuantum h₂ data sPos quantum junk₂ answers) := by
  apply (h.loadPtrs (some data)).bind_eq
  intro entries
  apply (Together.refl (index entries sPos)).bind_eq
  intro entry
  cases entry with
  | some q => exact .ok ⟨rfl, h, rfl⟩
  | none =>
      have hfresh : (Block.quantum (freshQuantum quantum junk₁)).shape =
          (Block.quantum (freshQuantum quantum junk₂)).shape :=
        Block.shape_quantum (by simp [freshQuantum])
      obtain ⟨p, g₁, g₂, rest, hmalloc₁, hmalloc₂, hg⟩ := h.kmallocSize quantum hfresh answers
      dsimp only
      rw [hmalloc₁, hmalloc₂]
      cases p with
      | none => exact .ok ⟨rfl, hg, rfl⟩
      | some q => exact (hg.store data rfl).bind fun f₁ f₂ hf => .ok ⟨rfl, hf, rfl⟩

/-- Two transfers that went the same way. -/
structure SameOut (out₁ out₂ : Out) : Prop where
  retval : out₁.retval = out₂.retval
  fPos : out₁.fPos = out₂.fPos
  dev : out₁.dev = out₂.dev
  heap : SameShape out₁.heap out₂.heap

/-- The window of a copy depends on the length of the block only. -/
theorem window_together {bytes₁ bytes₂ : List UInt8} (h : bytes₁.length = bytes₂.length) (off : ℤ)
    (n : ℕ) : Together Eq (window bytes₁ off n) (window bytes₂ off n) := by
  unfold window
  rw [h]
  exact .refl _

theorem SameShape.scullReadLocked (h : SameShape h₁ h₂) (quantum qset : ℤ) (dev : ScullDev)
    (count : ℕ) (fPos : ℤ) {env₁ env₂ : Env} (hanswers : env₁.answers = env₂.answers)
    (hfault : env₁.fault = none ∧ env₂.fault = none) :
    Together SameOut (scullReadLocked quantum qset h₁ dev count fPos env₁)
      (scullReadLocked quantum qset h₂ dev count fPos env₂) := by
  unfold Scull.scullReadLocked
  dsimp only
  by_cases hend : dev.size ≤ toULong fPos
  · rw [if_pos hend, if_pos hend]
    exact .ok ⟨rfl, rfl, rfl, h⟩
  rw [if_neg hend, if_neg hend]
  generalize (if dev.size < toULong (fPos + count) then toULong (dev.size - fPos) else count) = n
  apply (Together.refl (locate _ _ _)).bind_eq
  intro loc
  rw [hanswers]
  apply (h.scullFollow dev loc.item env₂.answers).bind
  intro r₁ r₂ hr
  obtain ⟨p, dev₁, g₁, rest⟩ := r₁
  obtain ⟨_, _, g₂, _⟩ := r₂
  obtain ⟨rfl, rfl, hg, rfl⟩ := hr
  cases p with
  | none => exact .ok ⟨rfl, rfl, rfl, hg⟩
  | some dptr =>
      apply (hg.loadQset (some dptr)).bind_eq
      intro node
      cases hdata : node.data with
      | none => exact .ok ⟨rfl, rfl, rfl, hg⟩
      | some data =>
          apply (hg.loadPtrs (some data)).bind_eq
          intro entries
          apply (Together.refl (index entries loc.sPos)).bind_eq
          intro entry
          cases entry with
          | none => exact .ok ⟨rfl, rfl, rfl, hg⟩
          | some q =>
              apply (hg.loadQuantum (some q)).bind
              intro bytes₁ bytes₂ hbytes
              apply (window_together hbytes _ _).bind_eq
              intro off
              rw [hfault.1, hfault.2]
              exact .ok ⟨rfl, rfl, rfl, hg⟩

theorem SameShape.scullWriteLocked (h : SameShape h₁ h₂) (quantum qset : ℤ) (dev : ScullDev)
    (buf : List UInt8) (fPos : ℤ) {env₁ env₂ : Env} (hanswers : env₁.answers = env₂.answers)
    (hfault : env₁.fault = none ∧ env₂.fault = none) :
    Together SameOut (scullWriteLocked quantum qset h₁ dev buf fPos env₁)
      (scullWriteLocked quantum qset h₂ dev buf fPos env₂) := by
  unfold Scull.scullWriteLocked
  dsimp only
  apply (Together.refl (locate _ _ _)).bind_eq
  intro loc
  rw [hanswers]
  apply (h.scullFollow dev loc.item env₂.answers).bind
  intro r₁ r₂ hr
  obtain ⟨p, dev₁, g₁, rest⟩ := r₁
  obtain ⟨_, _, g₂, _⟩ := r₂
  obtain ⟨rfl, rfl, hg, rfl⟩ := hr
  cases p with
  | none => exact .ok ⟨rfl, rfl, rfl, hg⟩
  | some dptr =>
      apply (hg.ensureArray dptr qset rest).bind
      intro r₁ r₂ hr
      obtain ⟨data, f₁, rest⟩ := r₁
      obtain ⟨_, f₂, _⟩ := r₂
      obtain ⟨rfl, hf, rfl⟩ := hr
      cases data with
      | none => exact .ok ⟨rfl, rfl, rfl, hf⟩
      | some data =>
          refine (hf.ensureQuantum data loc.sPos quantum env₁.junk env₂.junk rest).bind
            fun r₁ r₂ hr => ?_
          obtain ⟨q, e₁, rest⟩ := r₁
          obtain ⟨_, e₂, _⟩ := r₂
          obtain ⟨rfl, he, rfl⟩ := hr
          cases q with
          | none => exact .ok ⟨rfl, rfl, rfl, he⟩
          | some q =>
              apply (he.loadQuantum (some q)).bind
              intro bytes₁ bytes₂ hbytes
              apply (window_together hbytes _ _).bind_eq
              intro off
              rw [hfault.1, hfault.2]
              have hpatch : (Block.quantum (patch bytes₁ off
                    (buf.take (clampToQuantum buf.length quantum loc.qPos)))).shape =
                  (Block.quantum (patch bytes₂ off
                    (buf.take (clampToQuantum buf.length quantum loc.qPos)))).shape :=
                Block.shape_quantum (by
                  simp only [patch, List.length_append, List.length_take, List.length_drop, hbytes])
              exact (he.store q hpatch).bind fun d₁ d₂ hd => .ok ⟨rfl, rfl, rfl, hd⟩

end

end KernelTraining.Scull
