import KernelTraining.Scull.Usable

/-!
# Writes that fail

`scull_write` copies the bytes of the user straight into the quantum.  When the copy fails
it returns `-EFAULT` and leaves the size and the position alone, but it takes nothing back:
a quantum it has put into a hole stays there, and bytes it has overwritten stay overwritten
(`failed_write_shows`).  What it leaves behind is confined to one quantum, and if that
quantum was there before, to the bytes the copy was aimed at (`failed_writes_confined`).

What can be seen of a failed write is what a read returns that would not have returned it
before, so two reads are compared, one of the device as it was and one of the device as it is
(`EveryRead`).  Both are the reads of a layout (`Owns.scullRead_reply`), and the layouts
differ in one quantum (`Owns.failedWrite`).  `Owns.confined` takes the cases of
`FailedWrite.Confined` from there: a read of another quantum sees the same one, a read of this
quantum sees the bytes around the copy as they were, and a read of a hole that has been filled
sees that it is no longer a hole.

Other devices have no block in common with this one, so their reads are the same by the
invariant of the module.
-/

namespace KernelTraining.Scull

open Machine

/-- The contents of the quantum a position is looked for in, if there is one. -/
def quantumFor (h : Heap Block) (dev : ScullDev) (p : ℕ) : Option (List UInt8) :=
  let quantum := dev.quantum.toNat
  let qset := dev.qset.toNat
  let item := toUInt (wrap32 ((p / (quantum * qset) : ℕ) : ℤ))
  let data := (items h h.card dev.data)[item]?.bind ScullQset.data
  let entry := (data.bind (ptrsAt h)).bind fun entries => entries[p / quantum % qset]?.join
  entry.bind (quantumAt h)

/-- Two positions are looked for in the same quantum. -/
def SameQuantum (dev : ScullDev) (p r : ℤ) : Prop :=
  ∃ loc loc', locate dev.quantum (wrap32 (dev.quantum * dev.qset)) p = .ok loc ∧
    locate dev.quantum (wrap32 (dev.quantum * dev.qset)) r = .ok loc' ∧
    loc.item = loc'.item ∧ loc.sPos = loc'.sPos

/-- A write whose copy fails. -/
structure FailedWrite (h : Heap Block) (dev : ScullDev) where
  buf : List UInt8
  fPos : ℤ
  env : Env
  out : Out
  verified : rwVerifyArea fPos buf.length = true
  returns : scullWrite h dev buf fPos env = .ok out
  retval : out.retval = -EFAULT

/-- Byte `k` of a read at position `r` of the same quantum is one the copy was aimed at. -/
def FailedWrite.AimedAt {h : Heap Block} {dev : ScullDev} (w : FailedWrite h dev) (r : ℤ)
    (k : ℕ) : Prop :=
  w.fPos % dev.quantum ≤ r % dev.quantum + k ∧
    r % dev.quantum + k <
      w.fPos % dev.quantum + min (w.buf.length : ℤ) (dev.quantum - w.fPos % dev.quantum)

/-- Every read returns, made of the one device or of the other, and `R` holds of what it
returns. -/
def EveryRead (h : Heap Block) (dev : ScullDev) (h' : Heap Block) (dev' : ScullDev)
    (R : ℤ → ℕ → Env → Out → Out → Prop) : Prop :=
  ∀ r count env, rwVerifyArea r count = true →
    ∃ before after, scullRead h dev count r env = .ok before ∧
      scullRead h' dev' count r env = .ok after ∧ R r count env before after

/-- What a read sees of a failed write: nothing if it is interrupted, nothing past the end of the
data and nothing in other quanta; in a quantum that was there, the bytes the copy was aimed at; in
one that was not, that it is there now.  What a read from there delivers is left open, and so is
what it returns if its own copy fails. -/
structure FailedWrite.Confined {h : Heap Block} {dev : ScullDev} (w : FailedWrite h dev) (r : ℤ)
    (count : ℕ) (env : Env) (before after : Out) : Prop where
  interrupted : env.interrupted = true → SameReply after before
  elsewhere : dev.size ≤ r ∨ ¬ SameQuantum dev w.fPos r → SameReply after before
  overwritten : SameQuantum dev w.fPos r → quantumFor h dev w.fPos.toNat ≠ none →
    after.retval = before.retval ∧ after.fPos = before.fPos ∧
      after.copied.length = before.copied.length ∧
      ∀ k, ¬ w.AimedAt r k → after.copied[k]? = before.copied[k]?
  filled : SameQuantum dev w.fPos r → quantumFor h dev w.fPos.toNat = none → r < dev.size →
    env.interrupted = false → env.fault = none →
    before.retval = 0 ∧
      after.retval = min (min (count : ℤ) (dev.size - r)) (dev.quantum - r % dev.quantum)

/-- A write that fails leaves size, position and the other devices alone, and the reads of
its own device are related by `R`. -/
def FailedWrites (R : {h : Heap Block} → {dev : ScullDev} → FailedWrite h dev →
    ℤ → ℕ → Env → Out → Out → Prop) (s : State) : Prop :=
  ∀ (i : ℕ) dev, s.devices[i]? = some dev → ∀ w : FailedWrite s.heap dev,
    w.out.fPos = w.fPos ∧ w.out.dev.size = dev.size ∧
      EveryRead s.heap dev w.out.heap w.out.dev (R w) ∧
      ∀ (j : ℕ) d, j ≠ i → s.devices[j]? = some d →
        EveryRead s.heap d w.out.heap d fun _ _ _ before after => SameReply after before

/-- No read tells whether a write that failed has been made. -/
def FailedWritesInvisible : State → Prop :=
  FailedWrites fun _ _ _ _ before after => SameReply after before

/-- A read tells no more of a write that failed than its own quantum shows. -/
def FailedWritesConfined : State → Prop := FailedWrites FailedWrite.Confined

section Device

variable {G : Geometry} {h : Heap Block} {dev : ScullDev} {L : Layout G}

theorem Owns.quantumFor_eq (owns : Owns h dev L) (p : ℕ) :
    quantumFor h dev p = (L.slot (G.quantumAt p)).map Prod.snd := by
  rw [quantumFor, owns.quantum, owns.qset, Int.toNat_natCast, Int.toNat_natCast]
  change ((((items h h.card dev.data)[G.itemAt p]?.bind _).bind _).bind _).bind _ = _
  rw [owns.items_bind_data, owns.array_bind_entry]
  cases hslot : L.slot (G.quantumAt p) with
  | none => rfl
  | some q => exact owns.quantumAt_eq hslot

theorem Owns.sameQuantum_iff (owns : Owns h dev L) (p r : ℕ) :
    SameQuantum dev p r ↔ G.quantumAt p = G.quantumAt r := by
  rw [SameQuantum, owns.quantum, owns.qset, G.quantumAt_inj]
  simp only [locate_eq, Except.ok.injEq, exists_eq_left', exists_and_left, Nat.cast_inj]

/-- What a read returns, when it is not interrupted and when it is. -/
theorem Owns.scullRead_reply (owns : Owns h dev L) {r count : ℕ}
    (hr : r + count < 9223372036854775808) (env : Env) :
    ∃ out, scullRead h dev count r env = .ok out ∧
      SameReply out (if env.interrupted then ⟨-ERESTARTSYS, r, [], dev, h⟩
        else L.readOut h dev count r env) := by
  unfold scullRead
  split_ifs
  · exact ⟨_, rfl, rfl, rfl, rfl⟩
  · obtain ⟨out, L', hout, -, -, -, -, -, hreply⟩ := scullReadLocked_spec owns hr env
    exact ⟨out, hout, hreply⟩

/-- A read of a quantum whose bytes have changed. -/
theorem Layout.readOut_of_setBytes {L' : Layout G} {dev' : ScullDev} {r : ℕ} {a a' : Addr}
    {old new : List UInt8} (hslot : L.slot (G.quantumAt r) = some (a, old))
    (hslot' : L'.slot (G.quantumAt r) = some (a', new)) (hsize : dev'.size = dev.size)
    (h' : Heap Block) (count : ℕ) (env : Env) :
    let before := L.readOut h dev count r env
    let after := L'.readOut h' dev' count r env
    after.retval = before.retval ∧ after.fPos = before.fPos ∧
      after.copied.length = before.copied.length ∧
      ∀ k, new[r % G.quantum + k]? = old[r % G.quantum + k]? →
        after.copied[k]? = before.copied[k]? := by
  intro before after
  have hlength : new.length = old.length := by rw [L'.slot_length hslot', L.slot_length hslot]
  simp only [before, after, Layout.readOut, hsize, hslot, hslot']
  by_cases hend : dev.size ≤ r
  · simp [hend]
  simp only [if_neg hend]
  set n := min (min count (dev.size - r)) (G.room r)
  have hwindow : ((new.drop (r % G.quantum)).take n).length =
      ((old.drop (r % G.quantum)).take n).length := by
    rw [List.length_take, List.length_take, List.length_drop, List.length_drop, hlength]
  obtain ⟨hleft, hcopied, hbytes⟩ := copyToUser_congr hwindow env.fault
  have hkth : ∀ k, new[r % G.quantum + k]? = old[r % G.quantum + k]? →
      (copyToUser ((new.drop (r % G.quantum)).take n) env.fault).1[k]? =
        (copyToUser ((old.drop (r % G.quantum)).take n) env.fault).1[k]? := by
    intro k hk
    apply hbytes
    rw [List.getElem?_take, List.getElem?_take, List.getElem?_drop, List.getElem?_drop, hk]
  rw [hleft]
  split_ifs <;> exact ⟨rfl, rfl, hcopied, hkth⟩

/-- A failed write sets the bytes of one quantum, which may be new, and of those only the
ones the copy was aimed at. -/
theorem Owns.failedWrite (owns : Owns h dev L) (w : FailedWrite h dev) {p : ℕ}
    (hp : w.fPos = p) (hsum : p + w.buf.length < 9223372036854775808) :
    ∃ L' : Layout G, Owns w.out.heap w.out.dev L' ∧ Frame h L.blocks w.out.heap L'.blocks ∧
      w.out.fPos = p ∧ w.out.dev.size = dev.size ∧
      ∃ a old new, L'.slot = Function.update L.slot (G.quantumAt p) (some (a, new)) ∧
        (L.slot (G.quantumAt p) = some (a, old) ∨ L.slot (G.quantumAt p) = none) ∧
        ∀ i, i < p % G.quantum ∨ p % G.quantum + min w.buf.length (G.room p) ≤ i →
          new[i]? = old[i]? := by
  have hint : w.env.interrupted = false := by
    by_contra hne
    have hreturns := w.returns
    rw [scullWrite, if_pos (by simpa using hne), Except.ok.injEq] at hreturns
    have hretval := w.retval
    rw [← hreturns] at hretval
    exact absurd hretval (show -ERESTARTSYS ≠ -EFAULT by decide)
  obtain ⟨out, L', hout, -, owns', frame, -, written, -⟩ :=
    scullWriteLocked_spec owns w.buf hsum w.env
  have hreturns := w.returns
  rw [scullWrite, hint, if_neg Bool.false_ne_true, hp, hout, Except.ok.injEq] at hreturns
  rw [hreturns] at owns' frame written
  have hretval := w.retval
  refine ⟨L', owns', frame, ?_⟩
  cases written with
  | noMemory hnoMemory =>
      rw [hnoMemory] at hretval
      exact absurd hretval (by decide)
  | copied a old hbefore hslot _ hresult =>
      split_ifs at hresult with hleft
      · -- a copy that succeeds reports a count
        rw [hresult.1] at hretval
        unfold EFAULT at hretval
        omega
      have hlength : old.length = G.quantum := Layout.length_of_before hbefore
      have htake : (w.buf.take (min w.buf.length (G.room p))).length =
          min w.buf.length (G.room p) := List.length_take_of_le (Nat.min_le_left _ _)
      have hroom := G.room_le p
      refine ⟨hresult.2.1, hresult.2.2, a, old, _, hslot, hbefore.imp_right And.left, ?_⟩
      intro i hi
      apply getElem?_copyFromUser_of_outside
      · omega
      · rwa [htake]

/-- A read that sees no difference. -/
theorem FailedWrite.Confined.of_sameReply {w : FailedWrite h dev} {r : ℤ} {count : ℕ} {env : Env}
    {before after : Out} (same : SameReply after before) (hint : env.interrupted = true) :
    w.Confined r count env before after where
  interrupted := fun _ => same
  elsewhere := fun _ => same
  overwritten := fun _ _ =>
    ⟨same.retval, same.fPos, congrArg List.length same.copied, fun k _ => by rw [same.copied]⟩
  filled := fun _ _ _ hnot => by
    rw [hint] at hnot
    simp at hnot

/-- **The failed write is confined.** -/
theorem Owns.confined (owns : Owns h dev L) (w : FailedWrite h dev) :
    w.out.fPos = w.fPos ∧ w.out.dev.size = dev.size ∧
      EveryRead h dev w.out.heap w.out.dev w.Confined := by
  obtain ⟨p, hp, hpsum⟩ := rwVerifyArea_iff.mp w.verified
  obtain ⟨L', owns', -, hfPos, hsize, a, old, new, hslot, hbefore, houtside⟩ :=
    owns.failedWrite w hp hpsum
  refine ⟨hfPos.trans hp.symm, hsize, ?_⟩
  intro r count env hr
  obtain ⟨r, rfl, hsum⟩ := rwVerifyArea_iff.mp hr
  obtain ⟨before, hread, hreply⟩ := owns.scullRead_reply hsum env
  obtain ⟨after, hread', hreply'⟩ := owns'.scullRead_reply hsum env
  refine ⟨before, after, hread, hread', ?_⟩
  cases hint : env.interrupted with
  | true =>
      rw [hint, if_pos rfl] at hreply hreply'
      refine .of_sameReply (hreply'.trans (.trans ?_ hreply.symm)) hint
      exact ⟨rfl, rfl, rfl⟩
  | false =>
      rw [hint, if_neg Bool.false_ne_true] at hreply hreply'
      refine ⟨fun hinterrupted => ?_, ?_, ?_, ?_⟩
      · rw [hint] at hinterrupted
        cases hinterrupted
      · intro helsewhere
        refine hreply'.trans (.trans ?_ hreply.symm)
        rcases helsewhere with hend | hother
        · have hend : dev.size ≤ r := by omega
          rw [Layout.readOut, if_pos (hsize ▸ hend), Layout.readOut, if_pos hend]
          exact ⟨rfl, rfl, rfl⟩
        · rw [hp, owns.sameQuantum_iff] at hother
          refine Layout.readOut_sameReply ?_ hsize _ count env
          rw [hslot, Function.update_of_ne (Ne.symm hother)]
      · -- the quantum was there, with the bytes `old`
        intro hsame hquantum
        rw [hp, owns.sameQuantum_iff] at hsame
        rw [hp, Int.toNat_natCast, owns.quantumFor_eq] at hquantum
        have hold : L.slot (G.quantumAt r) = some (a, old) := by
          rcases hbefore with hslot | hnone
          · rw [← hsame, hslot]
          · exact absurd (by rw [hnone]; rfl) hquantum
        have hnew : L'.slot (G.quantumAt r) = some (a, new) := by
          rw [hslot, hsame, Function.update_self]
        obtain ⟨hretval, hfPos', hlength, hbytes⟩ :=
          Layout.readOut_of_setBytes hold hnew hsize w.out.heap count env
        rw [hreply.retval, hreply.fPos, hreply.copied, hreply'.retval, hreply'.fPos,
          hreply'.copied]
        refine ⟨hretval, hfPos', hlength, fun k hk => hbytes k (houtside _ ?_)⟩
        have hroom := G.room_le p
        simp only [FailedWrite.AimedAt, hp, owns.quantum, ← Int.natCast_mod] at hk
        omega
      · -- the quantum has come into being with the write
        intro hsame hquantum hr _ hfault
        rw [hp, owns.sameQuantum_iff] at hsame
        rw [hp, Int.toNat_natCast, owns.quantumFor_eq, Option.map_eq_none_iff] at hquantum
        have hend : ¬ dev.size ≤ r := by omega
        have hnew : L'.slot (G.quantumAt r) = some (a, new) := by
          rw [hslot, hsame, Function.update_self]
        have hroom := G.room_le r
        constructor
        · rw [hreply.retval, Layout.readOut, if_neg hend, ← hsame, hquantum]
        · rw [hreply'.retval, Layout.readOut, hsize, if_neg hend, hnew, hfault, owns.quantum,
            ← Int.natCast_mod]
          show ((min (min count (dev.size - r)) (G.room r) : ℕ) : ℤ) = _
          omega

end Device

theorem Inv.failedWritesConfined {s : State} {own : ℕ → Owned} (inv : Inv s own) :
    FailedWritesConfined s := by
  intro i dev hdev w
  have owns := inv.owns hdev
  obtain ⟨hfPos, hsize, hreads⟩ := owns.confined w
  refine ⟨hfPos, hsize, hreads, ?_⟩
  intro j d hj hd r count env hr
  obtain ⟨p, hp, hpsum⟩ := rwVerifyArea_iff.mp w.verified
  obtain ⟨r, rfl, hsum⟩ := rwVerifyArea_iff.mp hr
  obtain ⟨L', -, frame, -⟩ := owns.failedWrite w hp hpsum
  have hi := (List.getElem?_eq_some_iff.mp hdev).1
  have hj' := (List.getElem?_eq_some_iff.mp hd).1
  have theirs := inv.owns hd
  -- the blocks of the other device are not among those the write touches
  have theirs' := theirs.congr fun a ha =>
    (frame.separate theirs.allocated (inv.apart hj' hi hj) a ha).2
  obtain ⟨before, hread, hreply⟩ := theirs.scullRead_reply hsum env
  obtain ⟨after, hread', hreply'⟩ := theirs'.scullRead_reply hsum env
  refine ⟨before, after, hread, hread', hreply'.trans (.trans ?_ hreply.symm)⟩
  split_ifs
  · exact ⟨rfl, rfl, rfl⟩
  · exact Layout.readOut_sameReply rfl rfl _ count env

/-- **Writes that fail.**  In every state a run reaches, a write whose copy fails leaves the
size and the position alone.  Reads past the end of the data, of other quanta and of other
devices, and reads that are interrupted, return what they would have returned before; a read of
the quantum of the write returns as many bytes as before and the same ones, except for those the
copy was aimed at, if the quantum was there. -/
theorem failed_writes_confined {scullQuantum scullQset : ℤ}
    (husable : (Globals.mk scullQuantum scullQset).Usable) (scullNrDevs : ℕ) (calls : List Call)
    (htrims : EveryStep State.step TrimsUsable (scullInit scullQuantum scullQset scullNrDevs)
      calls) :
    EveryState State.step FailedWritesConfined (scullInit scullQuantum scullQset scullNrDevs)
      calls :=
  (everyState_inv husable scullNrDevs htrims).mono fun _ ⟨_, inv⟩ => inv.failedWritesConfined

/-- A run with data, a hole and a second device. -/
theorem failed_writes_confined_run :
    EveryState State.step FailedWritesConfined (scullInit 4 2 2)
      [.open 0 2 {}, .write 0 [1, 2] { answers := [some 1, some 2, some 3] }, .llseek 0 9 0,
        .write 0 [3] { answers := [some 4, some 5, some 6] }, .open 1 2 {},
        .write 1 [4] { answers := [some 7, some 8, none] }, .llseek 0 1 0,
        .write 0 [5, 6] { fault := some 1 }] :=
  failed_writes_confined (by decide) 2 _ (by decide)

/-- A write of two bytes over two others fails at the second: the first is there to be
read, and the second is gone. -/
theorem failed_write_shows :
    ¬ EveryState State.step FailedWritesInvisible (scullInit 4 2 1)
      [.open 0 2 {}, .write 0 [1, 2] { answers := [some 1, some 2, some 3] }] := by
  intro h
  obtain ⟨s, hrun, invisible⟩ := h.last
  have hseen : ([.open 0 2 {}, .write 0 [1, 2] { answers := [some 1, some 2, some 3] }].foldlM
      State.step (scullInit 4 2 1)).map (fun s => s.devices[0]?.map fun dev =>
        (scullWrite s.heap dev [7, 8] 0 { fault := some 1 }).map fun out =>
          (out.retval, (scullRead s.heap dev 2 0 {}).map Out.copied,
            (scullRead out.heap out.dev 2 0 {}).map Out.copied)) =
      .ok (some (.ok (-EFAULT, .ok [1, 2], .ok [7, 0]))) := rfl
  rw [hrun] at hseen
  obtain ⟨dev, hdev, hwrite⟩ := Option.map_eq_some_iff.mp (Except.ok.inj hseen)
  cases hout : scullWrite s.heap dev [7, 8] 0 { fault := some 1 } with
  | error fault =>
      rw [hout] at hwrite
      cases hwrite
  | ok out =>
      rw [hout, Except.map, Except.ok.injEq, Prod.mk.injEq, Prod.mk.injEq] at hwrite
      obtain ⟨hretval, hbefore, hafter⟩ := hwrite
      obtain ⟨-, -, hreads, -⟩ := invisible 0 dev hdev ⟨[7, 8], 0, _, out, by decide, hout, hretval⟩
      obtain ⟨before, after, hread, hread', same⟩ := hreads 0 2 {} (by decide)
      rw [hread, Except.map, Except.ok.injEq] at hbefore
      rw [hread', Except.map, Except.ok.injEq] at hafter
      have hsame := same.copied
      rw [hbefore, hafter] at hsame
      exact absurd hsame (by decide)

end KernelTraining.Scull
