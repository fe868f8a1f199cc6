import KernelTraining.Scull.Transfer

/-!
# Sections with the parameters of somebody else

The locked sections of `scull_read` and `scull_write`, run with parameters that need not be
those of the device any more.  Such a section looks for its position in another item and
another entry, and makes blocks of other sizes.  It can still do no harm: `FitsBlocks` says
when it finds its place in the blocks that are there, and makes none of a wrong size; then it
returns, and the device owns its data as before (`scullReadLocked_of_fits`,
`scullWriteLocked_of_fits`).

## Strategy

`FitsBlocks` is said of the heap, by following the pointers of the device.  In terms of a layout
it is `Suits`, and the proofs are about that (`FitsBlocks.suits`).

* **The list items** have no size that depends on the parameters, so the walk is the one of
  `scullFollow_spec`, only to another item.
* **An allocation that fails** does not depend on the size it was asked for, and where a block
  is there already none is asked for.  So under `Suits` both allocations are as good as made
  with the parameters of the device (`ensureArray_congr`, `ensureQuantum_congr`), and what is
  known of these applies.
* **The copy** goes to a quantum with the number the device gives it, which is not the one the
  section had in mind.  `copyIn_spec` is about any quantum and any offset.

With the parameters of the device itself everything fits (`Owns.fitsBlocks`).  So this is more
general than `Scull.Transfer` as far as the bounds go; but it says nothing about which bytes are
read and written.
-/

namespace KernelTraining.Scull

open Machine

variable {G : Geometry} {h : Heap Block} {dev : ScullDev} {L : Layout G}

/-- The item that is looked for with the parameters `quantum` and `qset`. -/
def itemOf (quantum qset p : ℕ) : ℕ := toUInt (wrap32 ((p / (quantum * qset) : ℕ) : ℤ))

/-- The section gets memory for `k` blocks behind the list items.  A read asks for none. -/
def Makes (writes : Bool) (h : Heap Block) (dev : ScullDev) (item k : ℕ)
    (answers : List (Option Addr)) : Prop :=
  writes = true ∧ Supplied h (item + 1 - (items h h.card dev.data).length + k) answers

instance (writes : Bool) (h : Heap Block) (dev : ScullDev) (item k : ℕ)
    (answers : List (Option Addr)) : Decidable (Makes writes h dev item k answers) :=
  inferInstanceAs (Decidable (_ ∧ _))

/-- A section that runs with the parameters `quantum` and `qset`, to move `n` bytes at position
`p`, finds its place in the blocks that are there, and those it makes have the sizes of the
device. -/
def FitsBlocks (quantum qset : ℕ) (h : Heap Block) (dev : ScullDev) (p n : ℕ) (writes : Bool)
    (answers : List (Option Addr)) : Prop :=
  match (items h h.card dev.data)[itemOf quantum qset p]?.bind ScullQset.data with
  | none =>
      (Makes writes h dev (itemOf quantum qset p) 1 answers → qset = dev.qset) ∧
        (Makes writes h dev (itemOf quantum qset p) 2 answers → quantum = dev.quantum)
  | some data => (p / quantum % qset : ℕ) < dev.qset ∧
      match (ptrsAt h data).bind fun entries => entries[p / quantum % qset]?.join with
      | none => Makes writes h dev (itemOf quantum qset p) 1 answers → quantum = dev.quantum
      | some _ => (p % quantum + min n (quantum - p % quantum) : ℕ) ≤ dev.quantum

instance (quantum qset : ℕ) (h : Heap Block) (dev : ScullDev) (p n : ℕ) (writes : Bool)
    (answers : List (Option Addr)) :
    Decidable (FitsBlocks quantum qset h dev p n writes answers) := by
  unfold FitsBlocks
  split
  · infer_instance
  · refine @instDecidableAnd _ _ _ ?_
    split <;> infer_instance

/-- The quantum `p` is looked for in with the parameters of `G₀`, as the device numbers it. -/
def Geometry.placeAt (G G₀ : Geometry) (p : ℕ) : ℕ :=
  G₀.itemAt p * G.qset + p / G₀.quantum % G₀.qset

/-- The same of a layout.  The section runs with the parameters of `G₀`, and `makes k` says that
it gets memory for `k` blocks. -/
structure Suits (L : Layout G) (G₀ : Geometry) (p n : ℕ) (makes : ℕ → Prop) : Prop where
  array : L.array (G₀.itemAt p) = none → makes 1 → G₀.qset = G.qset
  entry : L.array (G₀.itemAt p) ≠ none → p / G₀.quantum % G₀.qset < G.qset
  quantum : L.slot (G.placeAt G₀ p) = none → makes (lacking (L.array (G₀.itemAt p)) + 1) →
    G₀.quantum = G.quantum
  window : L.array (G₀.itemAt p) ≠ none → L.slot (G.placeAt G₀ p) ≠ none →
    p % G₀.quantum + min n (G₀.room p) ≤ G.quantum

theorem FitsBlocks.suits (owns : Owns h dev L) {G₀ : Geometry} {p n : ℕ} {writes : Bool}
    {answers : List (Option Addr)}
    (hfits : FitsBlocks G₀.quantum G₀.qset h dev p n writes answers) :
    Suits L G₀ p n fun k =>
      writes = true ∧ Supplied h (G₀.itemAt p + 1 - L.nodes.length + k) answers := by
  have hitem : itemOf G₀.quantum G₀.qset p = G₀.itemAt p := rfl
  simp only [FitsBlocks, Makes, hitem, owns.items_bind_data, owns.length_items, owns.qset,
    owns.quantum, Nat.cast_inj, Nat.cast_le, Nat.cast_lt] at hfits
  cases harray : L.array (G₀.itemAt p) with
  | none =>
      rw [harray] at hfits
      obtain ⟨hqset, hquantum⟩ := hfits
      exact ⟨fun _ => hqset, fun hne => absurd harray hne, fun _ => by rwa [harray],
        fun hne => absurd harray hne⟩
  | some data =>
      rw [harray] at hfits
      obtain ⟨hentry, hfits⟩ := hfits
      have hget : (L.entries (G₀.itemAt p))[p / G₀.quantum % G₀.qset]? =
          some ((L.slot (G.placeAt G₀ p)).map Prod.fst) :=
        Layout.getElem?_entries _ _ hentry
      simp only [owns.ptrsAt_eq harray, Option.bind_some, hget, Option.join_some] at hfits
      have hne : L.array (G₀.itemAt p) ≠ none := by
        rw [harray]
        exact Option.some_ne_none data
      refine ⟨fun hnone => absurd hnone hne, fun _ => hentry, ?_, ?_⟩
      · intro hnone
        rw [hnone] at hfits
        rwa [harray]
      · intro _ hslot
        obtain ⟨q, hq⟩ := Option.ne_none_iff_exists'.mp hslot
        rw [hq] at hfits
        exact hfits

/-- With the parameters of the device, everything fits. -/
theorem Owns.fitsBlocks (owns : Owns h dev L) (p n : ℕ) (writes : Bool)
    (answers : List (Option Addr)) :
    FitsBlocks G.quantum G.qset h dev p n writes answers := by
  unfold FitsBlocks
  rw [owns.quantum, owns.qset]
  split
  · exact ⟨fun _ => rfl, fun _ => rfl⟩
  · refine ⟨Int.ofNat_lt.mpr (Nat.mod_lt _ G.qset_pos), ?_⟩
    split
    · exact fun _ => rfl
    · exact Int.ofNat_le.mpr (G.le_quantum p n)

/-! ## The allocations -/

theorem ensureArray_congr {dptr : Addr} {node : ScullQset}
    (hnode : h.get dptr = some (.qset node)) {qset qset' : ℕ} {answers : List (Option Addr)}
    (hsize : node.data = none → Supplied h 1 answers → qset = qset') :
    ensureArray h dptr qset answers = ensureArray h dptr qset' answers := by
  simp only [ensureArray, loadQset_eq hnode, ok_bind]
  cases hdata : node.data with
  | some data => rfl
  | none =>
      by_cases hsupplied : Supplied h 1 answers
      · rw [hsize hdata hsupplied]
      · simp only [kmallocSize_natCast, kmalloc_of_not_supplied hsupplied]

theorem ensureQuantum_congr {data : Addr} {entries : List (Option Addr)}
    (hdata : h.get data = some (.ptrs entries)) {sPos quantum quantum' : ℕ} {junk : ℕ → UInt8}
    {entry : Option Addr} (hentry : entries[sPos]? = some entry) {answers : List (Option Addr)}
    (hsize : entry = none → Supplied h 1 answers → quantum = quantum') :
    ensureQuantum h data sPos quantum junk answers =
      ensureQuantum h data sPos quantum' junk answers := by
  simp only [ensureQuantum, loadPtrs_eq hdata, index_eq rfl hentry, ok_bind]
  cases entry with
  | some q => rfl
  | none =>
      by_cases hsupplied : Supplied h 1 answers
      · rw [hsize rfl hsupplied]
      · simp only [kmallocSize_natCast, kmalloc_of_not_supplied hsupplied]

/-! ## The sections -/

/-- **A read that fits stays in bounds.** -/
theorem scullReadLocked_of_fits (owns : Owns h dev L) {G₀ : Geometry} {p count : ℕ}
    (hp : p + count < 9223372036854775808) {env : Env}
    (hfits : FitsBlocks G₀.quantum G₀.qset h dev p (min count (dev.size - p)) false env.answers) :
    ∃ out, ∃ L' : Layout G,
      scullReadLocked G₀.quantum G₀.qset h dev count p env = .ok out ∧
      Owns out.heap out.dev L' ∧ Frame h L.blocks out.heap L'.blocks := by
  by_cases hend : dev.size ≤ p
  · refine ⟨⟨0, p, [], dev, h⟩, L, ?_, owns, .refl h _⟩
    simp only [scullReadLocked, toULong_natCast (show p < _ by omega), if_pos hend]
    rfl
  have suits := hfits.suits owns
  obtain ⟨dptr, dev', h', rest, L', hfollow, owns', hsize, grown, frame, harrived, -⟩ :=
    scullFollow_spec owns (wrap32 ((p / G₀.itemsize : ℕ) : ℤ)) env.answers
  change Arrived L L' (G₀.itemAt p) dptr at harrived
  simp only [scullReadLocked, toULong_natCast (show p < _ by omega), if_neg hend, locate_eq,
    ok_bind, hfollow, clampToSize_eq hp hend]
  cases dptr with
  | none => exact ⟨_, L', rfl, owns', frame⟩
  | some dptr =>
      simp only [loadQset_eq (owns'.node harrived.1), ok_bind]
      cases hdata : L'.array (G₀.itemAt p) with
      | none => exact ⟨_, L', rfl, owns', frame⟩
      | some data =>
          have hne : L.array (G₀.itemAt p) ≠ none := by
            rw [← grown.array]
            exact hdata ▸ Option.some_ne_none data
          have hentry : (L'.entries (G₀.itemAt p))[p / G₀.quantum % G₀.qset]? =
              some ((L.slot (G.placeAt G₀ p)).map Prod.fst) := by
            rw [← grown.slot]
            exact Layout.getElem?_entries _ _ (suits.entry hne)
          simp only [loadPtrs_eq (owns'.array hdata), index_eq rfl hentry, ok_bind]
          cases hslot : L.slot (G.placeAt G₀ p) with
          | none => exact ⟨_, L', rfl, owns', frame⟩
          | some q =>
              obtain ⟨q, bytes⟩ := q
              have hwindow : p % G₀.quantum + min (min count (dev.size - p)) (G₀.room p) ≤
                  bytes.length := by
                rw [L.slot_length hslot]
                exact suits.window hne (hslot ▸ Option.some_ne_none _)
              have hload : loadQuantum h' (some q) = .ok bytes :=
                loadQuantum_eq (owns'.slot (grown.slot ▸ hslot))
              simp only [Option.map_some, clampToQuantum_eq, hload, window_eq rfl hwindow, ok_bind]
              split_ifs
              · exact ⟨_, L', rfl, owns', frame⟩
              · exact ⟨_, L', rfl, owns', frame⟩

/-- **A write that fits stays in bounds**, and leaves arrays and quanta of the right sizes. -/
theorem scullWriteLocked_of_fits (owns : Owns h dev L) {G₀ : Geometry} {p : ℕ} {buf : List UInt8}
    (hp : p + buf.length < 9223372036854775808) {env : Env}
    (hfits : FitsBlocks G₀.quantum G₀.qset h dev p buf.length true env.answers) :
    ∃ out, ∃ L' : Layout G,
      scullWriteLocked G₀.quantum G₀.qset h dev buf p env = .ok out ∧
      Owns out.heap out.dev L' ∧ Frame h L.blocks out.heap L'.blocks := by
  have suits := hfits.suits owns
  obtain ⟨dptr, dev₁, h₁, rest₁, L₁, hfollow, owns₁, hsize₁, grown, frame₁, harrived, hnodes⟩ :=
    scullFollow_spec owns (wrap32 ((p / G₀.itemsize : ℕ) : ℤ)) env.answers
  change Arrived L L₁ (G₀.itemAt p) dptr at harrived
  change ∀ k, Supplied h (G₀.itemAt p + 1 - L.nodes.length + k) env.answers ↔ _ at hnodes
  simp only [scullWriteLocked, locate_eq, ok_bind, hfollow]
  cases dptr with
  | none => exact ⟨_, L₁, rfl, owns₁, frame₁⟩
  | some dptr =>
      have hmakes : ∀ k, Supplied h₁ k rest₁ →
          true = true ∧ Supplied h (G₀.itemAt p + 1 - L.nodes.length + k) env.answers :=
        fun k hk => ⟨rfl, (hnodes k).mpr ⟨Option.some_ne_none dptr, hk⟩⟩
      have harray₁ : ensureArray h₁ dptr G₀.qset rest₁ = ensureArray h₁ dptr dev₁.qset rest₁ := by
        rw [owns₁.qset]
        refine ensureArray_congr (owns₁.node harrived.1) fun hnone hsupplied => ?_
        exact suits.array (grown.array ▸ hnone) (hmakes 1 hsupplied)
      obtain ⟨data, h₂, rest₂, L₂, harray, owns₂, frame₂, added₂, hdata, harrays⟩ :=
        ensureArray_spec owns₁ harrived.1 rest₁
      simp only [harray₁, harray, ok_bind]
      cases data with
      | none => exact ⟨_, L₂, rfl, owns₂, frame₁.trans frame₂⟩
      | some data =>
          have hmakes₂ : ∀ k, Supplied h₂ k rest₂ →
              Supplied h₁ (lacking (L.array (G₀.itemAt p)) + k) rest₁ := by
            intro k hk
            rw [← grown.array]
            exact (harrays k).mpr ⟨Option.some_ne_none data, hk⟩
          have hslot₂ : L₂.slot = L.slot := added₂.slot.trans grown.slot
          have hentry : p / G₀.quantum % G₀.qset < G.qset := by
            by_cases hnone : L.array (G₀.itemAt p) = none
            · have hone := hmakes₂ 0 trivial
              rw [hnone] at hone
              exact suits.array hnone (hmakes 1 hone) ▸ Nat.mod_lt _ G₀.qset_pos
            · exact suits.entry hnone
          obtain ⟨hdiv, hmod⟩ := Layout.entry_eq hentry (show _ = G.placeAt G₀ p from rfl)
          have hsize : L.slot (G.placeAt G₀ p) = none → Supplied h₂ 1 rest₂ →
              G₀.quantum = G.quantum :=
            fun hnone hone => suits.quantum hnone (hmakes _ (hmakes₂ 1 hone))
          have hquantum₁ : ensureQuantum h₂ data (p / G₀.quantum % G₀.qset : ℕ) G₀.quantum env.junk
                rest₂ =
              ensureQuantum h₂ data (G.placeAt G₀ p % G.qset : ℕ) dev₁.quantum env.junk rest₂ := by
            have hget : (L₂.entries (G₀.itemAt p))[p / G₀.quantum % G₀.qset]? =
                some ((L.slot (G.placeAt G₀ p)).map Prod.fst) := by
              rw [← hslot₂]
              exact Layout.getElem?_entries _ _ hentry
            rw [owns₂.quantum, ← hmod]
            exact ensureQuantum_congr (owns₂.array hdata) hget fun hnone hone =>
              hsize (Option.map_eq_none_iff.mp hnone) hone
          rw [hdiv] at hdata
          obtain ⟨q, h₃, rest₃, L₃, hquantum, owns₃, frame₃, added₃, hq, hquanta⟩ :=
            ensureQuantum_spec owns₂ hdata env.junk rest₂
          have frame₁₃ := (frame₁.trans frame₂).trans frame₃
          simp only [hquantum₁, hquantum, ok_bind]
          cases q with
          | none => exact ⟨_, L₃, rfl, owns₃, frame₁₃⟩
          | some q =>
              obtain ⟨⟨a, old⟩, hslot₃, rfl⟩ := Option.map_eq_some_iff.mp hq
              have hwindow : p % G₀.quantum + min buf.length (G₀.room p) ≤ G.quantum := by
                by_cases hnone : L.slot (G.placeAt G₀ p) = none
                · have hone := (hquanta 0).mpr ⟨Option.some_ne_none a, trivial⟩
                  rw [hslot₂, hnone] at hone
                  exact hsize hnone hone ▸ G₀.le_quantum p _
                · refine suits.window (fun harray => hnone ?_) hnone
                  exact Layout.slot_eq_none_of_array (hdiv ▸ harray)
              obtain ⟨out, L₄, hrun, -, owns₄, frame₄, -⟩ :=
                copyIn_spec owns₃ hslot₃ hp (Nat.min_le_left _ _) hwindow env.fault
              simp only [clampToQuantum_eq]
              exact ⟨out, L₄, hrun, owns₄, frame₁₃.trans frame₄⟩

end KernelTraining.Scull
