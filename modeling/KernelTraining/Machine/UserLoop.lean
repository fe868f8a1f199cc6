import KernelTraining.Machine.Heap

/-!
# Loops of a user program

A program that goes on reading or writing until it is done makes one call after the
other, and what it does next depends on what the last call returned.  `userLoop` makes
the calls of such a program, `step i` being its round number `i`.  The number of rounds
is bounded by an argument, so that the loop can be run; a program whose rounds decrease
a measure ends before the bound is reached (`userLoop_ends`).

That a loop ends is not assumed anywhere.  `userLoop` returns nothing if the bound is reached,
and the variant rules show that it returns a result, given a measure of the states that is
smaller than the bound and decreases.  `userLoop_ends_under` is the rule for rounds that are
made under a condition (`EveryRound`), and it also carries over to all rounds what is true of
one; in `userLoop_ends` there is no condition.
-/

namespace KernelTraining.Machine

universe u

variable {σ ρ : Type u}

/-- Round after round from round `i` on, until one ends the loop with a result. -/
def userLoop (step : ℕ → σ → Except Fault (σ ⊕ ρ)) : ℕ → ℕ → σ → Except Fault (Option ρ)
  | 0, _, _ => .ok none
  | rounds + 1, i, s => do
      match ← step i s with
      | .inl s => userLoop step rounds (i + 1) s
      | .inr r => pure (some r)

variable {step : ℕ → σ → Except Fault (σ ⊕ ρ)} {i : ℕ} {s s' : σ} {r : ρ}

theorem userLoop_inl (h : step i s = .ok (.inl s')) (rounds : ℕ) :
    userLoop step (rounds + 1) i s = userLoop step rounds (i + 1) s' := by
  simp only [userLoop, h, ok_bind]

theorem userLoop_inr (h : step i s = .ok (.inr r)) (rounds : ℕ) :
    userLoop step (rounds + 1) i s = .ok (some r) := by
  simp only [userLoop, h, ok_bind]
  rfl

/-- A loop of two rounds. -/
theorem userLoop_inl_inr (h : step i s = .ok (.inl s')) (h' : step (i + 1) s' = .ok (.inr r))
    {rounds : ℕ} (hrounds : 2 ≤ rounds) : userLoop step rounds i s = .ok (some r) := by
  obtain ⟨n, rfl⟩ : ∃ n, rounds = n + 1 + 1 := ⟨rounds - 2, by omega⟩
  rw [userLoop_inl h, userLoop_inr h']

/-! ## Every round of a loop -/

/-- Every round the loop comes to, of the next `rounds` ones, is made in a state that
satisfies `P`. -/
def EveryRound (step : ℕ → σ → Except Fault (σ ⊕ ρ)) (P : ℕ → σ → Prop) : ℕ → ℕ → σ → Prop
  | 0, _, _ => True
  | rounds + 1, i, s =>
      P i s ∧ ∀ s', step i s = .ok (.inl s') → EveryRound step P rounds (i + 1) s'

/-- Whether that is so can be found out by making the rounds. -/
instance EveryRound.decidable {P : ℕ → σ → Prop} [∀ i s, Decidable (P i s)] :
    ∀ rounds i s, Decidable (EveryRound step P rounds i s)
  | 0, _, _ => isTrue trivial
  | rounds + 1, i, s =>
      match hstep : step i s with
      | .ok (.inl s') =>
          have := EveryRound.decidable (P := P) rounds (i + 1) s'
          decidable_of_iff (P i s ∧ EveryRound step P rounds (i + 1) s') <|
            and_congr_right fun _ => ⟨fun h t ht => by
              rw [hstep, Except.ok.injEq, Sum.inl.injEq] at ht
              exact ht ▸ h, fun h => h s' hstep⟩
      | .ok (.inr _) => decidable_of_iff (P i s) <| (and_iff_left fun t ht => by
          rw [hstep] at ht
          cases ht).symm
      | .error _ => decidable_of_iff (P i s) <| (and_iff_left fun t ht => by
          rw [hstep] at ht
          cases ht).symm

theorem everyRound_of_forall {P : ℕ → σ → Prop} (hP : ∀ i s, P i s) (rounds i : ℕ) (s : σ) :
    EveryRound step P rounds i s := by
  induction rounds generalizing i s with
  | zero => trivial
  | succ rounds ih => exact ⟨hP i s, fun s' _ => ih (i + 1) s'⟩

/-- **Variant rule.**  Let every round made under `P` from a state with the invariant
satisfy `Q`, and either keep the invariant and decrease the measure, or end the loop with
a result that satisfies `Post`.  Then a loop whose rounds are all made under `P` ends, with
such a result, in no more rounds than the measure says, and all its rounds satisfy `Q`. -/
theorem userLoop_ends_under {I P Q : ℕ → σ → Prop} {μ : σ → ℕ} {Post : ρ → Prop}
    (hstep : ∀ i s, I i s → P i s → Q i s ∧
      ((∃ s', step i s = .ok (.inl s') ∧ I (i + 1) s' ∧ μ s' < μ s) ∨
        ∃ r, step i s = .ok (.inr r) ∧ Post r))
    {rounds : ℕ} (hs : I i s) (hP : EveryRound step P rounds i s) (hrounds : μ s < rounds) :
    (∃ r, userLoop step rounds i s = .ok (some r) ∧ Post r) ∧ EveryRound step Q rounds i s := by
  induction rounds generalizing i s with
  | zero => omega
  | succ rounds ih =>
      obtain ⟨hQ, ⟨s', hs', hinv, hless⟩ | ⟨r, hr, hpost⟩⟩ := hstep i s hs hP.1
      · obtain ⟨⟨r, hr, hpost⟩, hrest⟩ := ih hinv (hP.2 s' hs') (by omega)
        refine ⟨⟨r, (userLoop_inl hs' rounds).trans hr, hpost⟩, hQ, ?_⟩
        intro t ht
        rw [hs', Except.ok.injEq, Sum.inl.injEq] at ht
        exact ht ▸ hrest
      · refine ⟨⟨r, userLoop_inr hr rounds, hpost⟩, hQ, ?_⟩
        intro t ht
        rw [hr] at ht
        cases ht

/-- The rule for loops whose rounds may be made in any state. -/
theorem userLoop_ends {I : ℕ → σ → Prop} {μ : σ → ℕ} {Post : ρ → Prop}
    (hstep : ∀ i s, I i s →
      (∃ s', step i s = .ok (.inl s') ∧ I (i + 1) s' ∧ μ s' < μ s) ∨
        ∃ r, step i s = .ok (.inr r) ∧ Post r)
    {rounds : ℕ} (hs : I i s) (hrounds : μ s < rounds) :
    ∃ r, userLoop step rounds i s = .ok (some r) ∧ Post r :=
  (userLoop_ends_under (P := fun _ _ => True) (Q := fun _ _ => True)
    (fun i s hI _ => ⟨trivial, hstep i s hI⟩) hs
    (everyRound_of_forall (fun _ _ => trivial) rounds i s) hrounds).1

end KernelTraining.Machine
