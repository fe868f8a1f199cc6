import KernelTraining.Scull.Transfer

/-!
# What following a list leaves behind

Reads and writes both follow the list of a device, and the items that are appended on the
way stay, whatever becomes of the call.  But they have no data, and neither the items nor
the data that were there before are touched.  So nobody who reads sees a difference, even
if the walk has run out of memory half way (`scullFollow_appends`).

This is said of any list, with any parameters and at any position: a device need not own a
layout for it, and a read may fault.  So the theorem compares two reads that are made on
different heaps, and assumes of the first that it goes through (`ReadsAlike`).

* A read that finds an item with data finds it in both heaps.  What it then loads has not been
  touched by the walk (`Walked.loadPtrs_eq`, `Walked.loadQuantum_eq`), as the walk stores into
  list items only.
* A read that finds no data there, or no item, returns 0.  It may itself append items on the
  way, and on the two heaps it may append a different number of them, or run out of memory on
  one and not on the other; but the reply is the same (`ItemList.read_hole`).

Which of the two it is depends on what the list refers to at that item (`arrayAt`), and an
item that is not there and one without data count alike.  The walk keeps this, as what it
appends has no data.
-/

namespace KernelTraining.Scull

open Machine

/-- Every read of `dev` that goes through gets the same reply from `dev'`: at any position
and of any length, whatever parameters it has loaded, and whatever the allocator answers
each time. -/
def ReadsAlike (h : Heap Block) (dev : ScullDev) (h' : Heap Block) (dev' : ScullDev) : Prop :=
  ∀ quantum qset count fPos env out,
    scullReadLocked quantum qset h dev count fPos env = .ok out →
      ∀ env' : Env, env'.fault = env.fault →
        ∃ out', scullReadLocked quantum qset h' dev' count fPos env' = .ok out' ∧
          SameReply out' out

section

variable {h h' : Heap Block} {dev dev' : ScullDev} {p q : Option Addr}
  {L L' : List (Addr × ScullQset)} {n : ℕ} {answers rest : List (Option Addr)}

theorem arrayAt_eq_some {i : ℕ} {data : Addr} (hdata : arrayAt L i = some data) :
    ∃ a node, L[i]? = some (a, node) ∧ node.data = some data := by
  obtain ⟨item, hitem, hdata⟩ := Option.bind_eq_some_iff.mp hdata
  exact ⟨item.1, item.2, hitem, hdata⟩

/-! ## What a walk leaves alone -/

namespace Walked

theorem loadPtrs_eq (walked : Walked h L n answers p h' rest L') (list : ItemList h q L)
    {a : Option Addr} {entries : List (Option Addr)} (hload : loadPtrs h a = .ok entries) :
    loadPtrs h' a = .ok entries := by
  obtain ⟨c, rfl, hget⟩ := loadPtrs_ok hload
  exact Scull.loadPtrs_eq (walked.get_eq list hget fun _ => by simp)

theorem loadQuantum_eq (walked : Walked h L n answers p h' rest L') (list : ItemList h q L)
    {a : Option Addr} {bytes : List UInt8} (hload : loadQuantum h a = .ok bytes) :
    loadQuantum h' a = .ok bytes := by
  obtain ⟨c, rfl, hget⟩ := loadQuantum_ok hload
  exact Scull.loadQuantum_eq (walked.get_eq list hget fun _ => by simp)

end Walked

/-! ## Reading -/

section Reading

variable {quantum qset fPos : ℤ} {loc : Location}

/-- Nothing is read from an item without data, or from one that is not there. -/
theorem ItemList.read_hole (list : ItemList h dev.data L) (hend : ¬ dev.size ≤ toULong fPos)
    (hloc : locate quantum (wrap32 (quantum * qset)) fPos = .ok loc)
    (hhole : arrayAt L (toUInt loc.item) = none) (count : ℕ) (env : Env) :
    ∃ out, scullReadLocked quantum qset h dev count fPos env = .ok out ∧
      out.retval = 0 ∧ out.copied = [] ∧ out.fPos = fPos := by
  obtain ⟨p, data, h₁, rest, L₁, hfollow, list₁, walked⟩ := list.follow loc.item env.answers
  cases p with
  | none =>
      refine ⟨⟨0, fPos, [], { dev with data := data }, h₁⟩, ?_, rfl, rfl, rfl⟩
      simp only [scullReadLocked, if_neg hend, hloc, hfollow, ok_bind]
      rfl
  | some a =>
      obtain ⟨item, hitem, rfl⟩ : ∃ item, L₁[toUInt loc.item]? = some item ∧ item.1 = a := by
        have ha := (walked.arrived a rfl).1
        rwa [List.getElem?_map, Option.map_eq_some_iff] at ha
      have hnone : item.2.data = none := by
        rw [← walked.arrayAt_eq, arrayAt, hitem] at hhole
        exact hhole
      refine ⟨⟨0, fPos, [], { dev with data := data }, h₁⟩, ?_, rfl, rfl, rfl⟩
      simp only [scullReadLocked, if_neg hend, hloc, hfollow, ok_bind,
        loadQset_eq (list₁.get_eq hitem), hnone]
      rfl

/-- A read before and after a walk. -/
theorem Walked.readsAlike (walked : Walked h L n answers p h' rest L')
    (list : ItemList h dev.data L) (list' : ItemList h' dev'.data L')
    (hsize : dev'.size = dev.size) : ReadsAlike h dev h' dev' := by
  intro quantum qset count fPos env out hread env' hfault
  by_cases hend : dev.size ≤ toULong fPos
  · simp only [scullReadLocked, if_pos hend] at hread
    cases hread
    refine ⟨⟨0, fPos, [], dev', h'⟩, ?_, rfl, rfl, rfl⟩
    simp only [scullReadLocked, hsize, if_pos hend]
    rfl
  obtain ⟨loc, hloc⟩ : ∃ loc, locate quantum (wrap32 (quantum * qset)) fPos = .ok loc := by
    simp only [scullReadLocked, if_neg hend] at hread
    obtain ⟨loc, hloc, -⟩ := bind_eq_ok.mp hread
    exact ⟨loc, hloc⟩
  cases hdata : arrayAt L (toUInt loc.item) with
  | none =>
      obtain ⟨out₀, hout₀, hretval, hcopied, hfPos⟩ := list.read_hole hend hloc hdata count env
      obtain rfl : out₀ = out := Except.ok.inj (hout₀.symm.trans hread)
      rw [← walked.arrayAt_eq] at hdata
      obtain ⟨out', hout', hretval', hcopied', hfPos'⟩ :=
        list'.read_hole (hsize ▸ hend) hloc hdata count env'
      exact ⟨out', hout', hretval'.trans hretval.symm, hcopied'.trans hcopied.symm,
        hfPos'.trans hfPos.symm⟩
  | some data =>
      obtain ⟨a, node, hitem, hnode⟩ := arrayAt_eq_some hdata
      rw [← walked.arrayAt_eq] at hdata
      obtain ⟨a', node', hitem', hnode'⟩ := arrayAt_eq_some hdata
      -- both walks arrive at the item, and what it refers to has not been touched
      simp only [scullReadLocked, if_neg hend, hloc, list.follow_within hitem, ok_bind,
        loadQset_eq (list.get_eq hitem), hnode] at hread
      obtain ⟨entries, hentries, hread⟩ := bind_eq_ok.mp hread
      obtain ⟨entry, hentry, hread⟩ := bind_eq_ok.mp hread
      simp only [scullReadLocked, hsize, if_neg hend, hloc, list'.follow_within hitem', ok_bind,
        loadQset_eq (list'.get_eq hitem'), hnode', walked.loadPtrs_eq list hentries, hentry]
      generalize (if dev.size < toULong (fPos + count) then toULong (dev.size - fPos) else count) =
        m at hread ⊢
      cases entry with
      | none =>
          cases hread
          exact ⟨_, rfl, rfl, rfl, rfl⟩
      | some q =>
          obtain ⟨bytes, hbytes, hread⟩ := bind_eq_ok.mp hread
          obtain ⟨off, hoff, hread⟩ := bind_eq_ok.mp hread
          simp only [walked.loadQuantum_eq list hbytes, hoff, ok_bind, hfault]
          split_ifs at hread ⊢
          · cases hread
            exact ⟨_, rfl, rfl, rfl, rfl⟩
          · cases hread
            exact ⟨_, rfl, rfl, rfl, rfl⟩

end Reading

end

/-- **`scull_follow` only appends empty items.**  From any list, for any `n` that is not
negative and whatever the allocator answers, the call returns, and the items that were
there keep their order and their contents.  Either it returns item `n`, and the list is as
short as that allows, or it returns `NULL` after an allocation has failed, and the list ends
before item `n`.  The items it has added have no data, and reads get the replies they got
before. -/
theorem scullFollow_appends {h : Heap Block} {dev : ScullDev} {L : List (Addr × ScullQset)}
    (list : ItemList h dev.data L) {n : ℤ} (hn : 0 ≤ n) (hint : n ≤ intMax)
    (answers : List (Option Addr)) :
    ∃ p dev' h' rest L', scullFollow h dev n answers = .ok (p, dev', h', rest) ∧
      ItemList h' dev'.data L' ∧
      (∃ added : List Addr, contents L' = contents L ++ added.map (·, none)) ∧
      ((∃ a, p = some a ∧ (L'.map Prod.fst)[n.toNat]? = some a ∧
          L'.length = max L.length (n.toNat + 1)) ∨
        p = none ∧ L.length ≤ L'.length ∧ L'.length ≤ n.toNat ∧
          Supplied h (L'.length - L.length) answers ∧
          ¬ Supplied h (L'.length - L.length + 1) answers) ∧
      ReadsAlike h dev h' dev' := by
  obtain ⟨p, data, h', rest, L', hfollow, list', walked⟩ := list.follow n answers
  refine ⟨p, _, h', rest, L', hfollow, list', walked.appended, ?_,
    walked.readsAlike list list' rfl⟩
  rw [← toUInt_eq hn hint]
  cases p with
  | none =>
      obtain ⟨hends, hmet, hrefused⟩ := walked.stopped rfl
      exact .inr ⟨rfl, walked.length_le, hends, hmet, hrefused⟩
  | some a => exact .inl ⟨a, rfl, walked.arrived a rfl⟩

/-- Two list items, of which the first has a quantum with one byte. -/
def twoItems : Heap Block :=
  (((Heap.empty.set 1 (.qset ⟨some 3, some 2⟩)).set 2 (.qset ⟨none, none⟩)).set 3
    (.ptrs [some 4])).set 4 (.quantum [42])

theorem twoItems_list : ItemList twoItems (some 1) [(1, ⟨some 3, some 2⟩), (2, ⟨none, none⟩)] :=
  .cons rfl (by simp [addresses]) (.cons rfl List.not_mem_nil rfl)

/-- On the way to item 4 of that list, which has two, the second allocation fails. -/
theorem scullFollow_appends_one :
    ∃ p dev' h' rest L', scullFollow twoItems ⟨some 1, 1, 1, 1⟩ 4 [some 9, none] =
        .ok (p, dev', h', rest) ∧ ItemList h' dev'.data L' ∧
      (∃ added : List Addr, contents L' =
        contents [(1, ⟨some 3, some 2⟩), (2, ⟨none, none⟩)] ++ added.map (·, none)) ∧
      ((∃ a, p = some a ∧ (L'.map Prod.fst)[4]? = some a ∧ L'.length = max 2 (4 + 1)) ∨
        p = none ∧ 2 ≤ L'.length ∧ L'.length ≤ 4 ∧
          Supplied twoItems (L'.length - 2) [some 9, none] ∧
          ¬ Supplied twoItems (L'.length - 2 + 1) [some 9, none]) ∧
      ReadsAlike twoItems ⟨some 1, 1, 1, 1⟩ h' dev' :=
  scullFollow_appends twoItems_list (by decide) (by decide) [some 9, none]

end KernelTraining.Scull
