import Mathlib.Tactic.TypeStar
import Mathlib.Data.List.Basic

/-!
# Runs of a system that can fault

A system takes calls one after the other, and a call either faults or returns in a new state.
A property of a run is stated in two ways: of every state it reaches (`EveryState`, which also
says that no call faults), or of every call together with the state it is made in
(`EveryStep`).  Both can be found out by making the calls, so they are decidable.

The inductions over runs are done here, once, as rules whose premises are about one step:

* `EveryStep.everyState`: a step under a condition keeps the invariant and does not fault, so
  no state of such a run is without it.
* `EveryStep.reached`: the same if steps may fault, for a run that does not.
* `EveryStep.everyStep`: what each step does under the invariant, it does in a whole run.
* `everyState_iff_everyStep`: a condition that is exact for one step is exact for runs.  For
  each step the condition must say precisely when the property survives; the invariant may be
  stronger than the property, as long as a step under the condition keeps it.

A run that is made of two parts is taken apart by `everyStep_append`.
-/

namespace KernelTraining.Machine

variable {σ ι ε : Type*} {step : σ → ι → Except ε σ}

/-- No call of the run faults, and every state before, between and after its
calls satisfies `Q`. -/
def EveryState (step : σ → ι → Except ε σ) (Q : σ → Prop) : σ → List ι → Prop
  | s, [] => Q s
  | s, c :: cs => Q s ∧ ∃ s', step s c = .ok s' ∧ EveryState step Q s' cs

/-- Every call the run comes to is made in a state that satisfies `P` with it. -/
def EveryStep (step : σ → ι → Except ε σ) (P : σ → ι → Prop) : σ → List ι → Prop
  | _, [] => True
  | s, c :: cs => P s c ∧ ∀ s', step s c = .ok s' → EveryStep step P s' cs

/-- Whether a property holds of every call of a run can be found out by making the
calls. -/
instance EveryStep.decidable {P : σ → ι → Prop} [∀ s c, Decidable (P s c)] :
    ∀ s cs, Decidable (EveryStep step P s cs)
  | _, [] => isTrue trivial
  | s, c :: cs =>
      match hstep : step s c with
      | .ok s' =>
          have := EveryStep.decidable (P := P) s' cs
          decidable_of_iff (P s c ∧ EveryStep step P s' cs) <| and_congr_right fun _ =>
            ⟨fun h t ht => Except.ok.inj (hstep.symm.trans ht) ▸ h, fun h => h s' hstep⟩
      | .error _ => decidable_of_iff (P s c) <| (and_iff_left fun t ht => by
          rw [hstep] at ht
          cases ht).symm

instance EveryState.decidable {Q : σ → Prop} [∀ s, Decidable (Q s)] :
    ∀ s cs, Decidable (EveryState step Q s cs)
  | s, [] => inferInstanceAs (Decidable (Q s))
  | s, c :: cs =>
      match hstep : step s c with
      | .ok s' =>
          have := EveryState.decidable (Q := Q) s' cs
          decidable_of_iff (Q s ∧ EveryState step Q s' cs) <| and_congr_right fun _ =>
            ⟨fun h => ⟨s', hstep, h⟩, fun ⟨_, ht, h⟩ => Except.ok.inj (hstep.symm.trans ht) ▸ h⟩
      | .error _ => isFalse fun ⟨_, _, ht, _⟩ => by
          rw [hstep] at ht
          cases ht

theorem EveryState.head {Q : σ → Prop} {s : σ} {cs : List ι} (h : EveryState step Q s cs) :
    Q s := by
  cases cs with
  | nil => exact h
  | cons c cs => exact h.1

/-- The run goes through, to a state that satisfies `Q`. -/
theorem EveryState.last {σ ι ε : Type} {step : σ → ι → Except ε σ} {Q : σ → Prop} {s : σ}
    {cs : List ι} (h : EveryState step Q s cs) : ∃ s', cs.foldlM step s = .ok s' ∧ Q s' := by
  induction cs generalizing s with
  | nil => exact ⟨s, rfl, h⟩
  | cons c cs ih =>
      obtain ⟨-, t, ht, hrest⟩ := h
      obtain ⟨s', hs', hQ⟩ := ih hrest
      refine ⟨s', ?_, hQ⟩
      rw [List.foldlM_cons, ht]
      exact hs'

theorem EveryState.mono {Q R : σ → Prop} (hQR : ∀ s, Q s → R s) {s : σ} {cs : List ι}
    (h : EveryState step Q s cs) : EveryState step R s cs := by
  induction cs generalizing s with
  | nil => exact hQR s h
  | cons c cs ih =>
      obtain ⟨hs, s', hs', hrest⟩ := h
      exact ⟨hQR s hs, s', hs', ih hrest⟩

theorem EveryStep.mono {P R : σ → ι → Prop} (hPR : ∀ s c, P s c → R s c) {s : σ} {cs : List ι}
    (h : EveryStep step P s cs) : EveryStep step R s cs := by
  induction cs generalizing s with
  | nil => trivial
  | cons c cs ih => exact ⟨hPR s c h.1, fun s' hs' => ih (h.2 s' hs')⟩

/-- **Invariant rule.**  If a call made under `P` keeps the invariant `Q` and
does not fault, then so does a run whose calls are all made under `P`. -/
theorem EveryStep.everyState {P : σ → ι → Prop} {Q : σ → Prop}
    (hstep : ∀ s c, Q s → P s c → ∃ s', step s c = .ok s' ∧ Q s') {s : σ} {cs : List ι}
    (hs : Q s) (h : EveryStep step P s cs) : EveryState step Q s cs := by
  induction cs generalizing s with
  | nil => exact hs
  | cons c cs ih =>
      obtain ⟨s', hs', hQ⟩ := hstep s c hs h.1
      exact ⟨hs, s', hs', ih hQ (h.2 s' hs')⟩

/-- **Invariant rule for reached states.**  A run may fault under `P`; if it does not, it ends
in a state that satisfies what its calls keep. -/
theorem EveryStep.reached {σ ι ε : Type} {step : σ → ι → Except ε σ} {P : σ → ι → Prop}
    {Q : σ → Prop} (hstep : ∀ s c s', Q s → P s c → step s c = .ok s' → Q s') {s s' : σ}
    {cs : List ι} (hs : Q s) (h : EveryStep step P s cs) (hrun : cs.foldlM step s = .ok s') :
    Q s' := by
  induction cs generalizing s with
  | nil => exact Except.ok.inj hrun ▸ hs
  | cons c cs ih =>
      rw [List.foldlM_cons] at hrun
      cases hc : step s c with
      | error e =>
          rw [hc] at hrun
          cases hrun
      | ok t =>
          rw [hc] at hrun
          exact ih (hstep s c t hs h.1 hc) (h.2 t hc) hrun

/-- **Invariant rule for calls.**  Under the invariant, what a call made under
`P` does (`R`) holds of every call of the run. -/
theorem EveryStep.everyStep {P R : σ → ι → Prop} {Q : σ → Prop}
    (hstep : ∀ s c, Q s → P s c → R s c ∧ ∀ s', step s c = .ok s' → Q s') {s : σ} {cs : List ι}
    (hs : Q s) (h : EveryStep step P s cs) : EveryStep step R s cs := by
  induction cs generalizing s with
  | nil => trivial
  | cons c cs ih =>
      obtain ⟨hR, hQ⟩ := hstep s c hs h.1
      exact ⟨hR, fun s' hs' => ih (hQ s' hs') (h.2 s' hs')⟩

/-- **Exactness rule.**  For calls made under `R`, let `I` be an invariant under which
`P` says exactly when a call returns in a state that satisfies `Q`, and which such calls
keep.  Then `Q` holds throughout a run of such calls exactly when all of them are made
under `P`. -/
theorem everyState_iff_everyStep {P R : σ → ι → Prop} {I Q : σ → Prop} (hIQ : ∀ s, I s → Q s)
    (hexact : ∀ s c, I s → R s c → ((∃ s', step s c = .ok s' ∧ Q s') ↔ P s c))
    (hkeep : ∀ s c s', I s → R s c → P s c → step s c = .ok s' → I s') {s : σ} {cs : List ι}
    (hs : I s) (hR : EveryStep step R s cs) :
    EveryState step Q s cs ↔ EveryStep step P s cs := by
  induction cs generalizing s with
  | nil => exact iff_of_true (hIQ s hs) trivial
  | cons c cs ih =>
      have hrest := fun s' hP hs' => ih (hkeep s c s' hs hR.1 hP hs') (hR.2 s' hs')
      constructor
      · rintro ⟨-, s', hs', hstates⟩
        have hP := (hexact s c hs hR.1).1 ⟨s', hs', hstates.head⟩
        refine ⟨hP, ?_⟩
        intro t ht
        obtain rfl : s' = t := Except.ok.inj (hs'.symm.trans ht)
        exact (hrest s' hP hs').1 hstates
      · rintro ⟨hP, hsteps⟩
        obtain ⟨s', hs', -⟩ := (hexact s c hs hR.1).2 hP
        exact ⟨hIQ s hs, s', hs', (hrest s' hP hs').2 (hsteps s' hs')⟩

theorem everyStep_of_forall {P : σ → ι → Prop} (hP : ∀ s c, P s c) (s : σ) (cs : List ι) :
    EveryStep step P s cs := by
  induction cs generalizing s with
  | nil => trivial
  | cons c cs ih => exact ⟨hP s c, fun s' _ => ih s'⟩

/-- The same for calls that are made under no condition. -/
theorem reached {σ ι ε : Type} {step : σ → ι → Except ε σ} {Q : σ → Prop}
    (hstep : ∀ s c s', Q s → step s c = .ok s' → Q s') {s s' : σ} {cs : List ι} (hs : Q s)
    (hrun : cs.foldlM step s = .ok s') : Q s' :=
  (everyStep_of_forall (P := fun _ _ => True) (fun _ _ => trivial) s cs).reached
    (fun s c s' hs _ => hstep s c s' hs) hs hrun

/-- A run is made of its first calls and of the ones made from where these lead. -/
theorem everyStep_append {σ ι ε : Type} {step : σ → ι → Except ε σ} {P : σ → ι → Prop} {s : σ}
    {cs ds : List ι} : EveryStep step P s (cs ++ ds) ↔
      EveryStep step P s cs ∧ ∀ s', cs.foldlM step s = .ok s' → EveryStep step P s' ds := by
  induction cs generalizing s with
  | nil =>
      constructor
      · intro h
        refine ⟨trivial, ?_⟩
        intro s' hs'
        exact Except.ok.inj hs' ▸ h
      · rintro ⟨-, h⟩
        exact h s rfl
  | cons c cs ih =>
      simp only [List.cons_append, EveryStep, List.foldlM_cons, ih]
      cases step s c with
      | error e =>
          constructor
          · rintro ⟨hP, -⟩
            exact ⟨⟨hP, fun s' h => by cases h⟩, fun s' h => by cases h⟩
          · rintro ⟨⟨hP, -⟩, -⟩
            exact ⟨hP, fun s' h => by cases h⟩
      | ok t =>
          constructor
          · rintro ⟨hP, h⟩
            refine ⟨⟨hP, fun s' hs' => (h s' hs').1⟩, ?_⟩
            exact (h t rfl).2
          · rintro ⟨⟨hP, h⟩, hrest⟩
            refine ⟨hP, ?_⟩
            intro s' hs'
            refine ⟨h s' hs', ?_⟩
            obtain rfl : t = s' := Except.ok.inj hs'
            exact hrest

theorem EveryStep.append {σ ι ε : Type} {step : σ → ι → Except ε σ} {P : σ → ι → Prop} {s s' : σ}
    {cs ds : List ι} (h : EveryStep step P s cs) (hrun : cs.foldlM step s = .ok s')
    (h' : EveryStep step P s' ds) : EveryStep step P s (cs ++ ds) := by
  refine everyStep_append.mpr ⟨h, ?_⟩
  intro t ht
  obtain rfl : s' = t := Except.ok.inj (hrun.symm.trans ht)
  exact h'

theorem everyStep_and {P R : σ → ι → Prop} {s : σ} {cs : List ι} :
    EveryStep step (fun s c => P s c ∧ R s c) s cs ↔
      EveryStep step P s cs ∧ EveryStep step R s cs := by
  refine ⟨fun h => ⟨h.mono fun _ _ h => h.1, h.mono fun _ _ h => h.2⟩, ?_⟩
  rintro ⟨hP, hR⟩
  induction cs generalizing s with
  | nil => trivial
  | cons c cs ih => exact ⟨⟨hP.1, hR.1⟩, fun s' hs' => ih (hP.2 s' hs') (hR.2 s' hs')⟩

end KernelTraining.Machine
