import KernelTraining.Scull.Lockstep
import KernelTraining.Scull.Sparse

/-!
# What a reader learns of uninitialised memory

Two runs of the same calls are compared that differ only in what fresh blocks hold.  If
readers get the same bytes in both, whatever the fresh blocks hold, they learn nothing of it.
That is so as long as no write leaves a gap: bytes never written, below the size of the
device, in a quantum that is allocated (`no_disclosure`).  `scull_write` leaves gaps, since
it does not clear a fresh quantum (`discloses_gap`).

## Strategy

* **The two runs take the same way** (`Twin.call`), since no branch of the driver depends on
  the bytes of a quantum, which is what `Scull.Lockstep` proves function by function.  So the
  replies have the same return values, the same bytes become known in both runs, and both
  fulfil the same conditions.
* **The bytes of a reply** follow from what is known (`Known.copied_eq`), if everything that
  can be read is known.  `Tight` says that, and `Known.tight_call` that calls keep it which
  leave no gap.  `LeavesNoGap` is a condition on a write and the state before it: what it
  covers itself counts as written, and a write that fails stores nothing and leaves no gap.

`Twin.replies_eq` puts the two together, by induction on the calls, with the ghost of the
contract in common.
-/

namespace KernelTraining.Scull

open Machine Abstract

/-! ## Gaps -/

/-- After a write of `buf` at the position of its file, the bytes of allocated
quanta below the size of the device have all been written.  A write that fails stores
nothing and leaves no gap. -/
def LeavesNoGap (s : State) (M : Contents) : Call → Prop
  | .write fd buf env => s.failure (.write fd buf env) = none → ∀ q ∈ s.lookup fd,
      let p := q.1.fPos.toNat
      let quantum := q.2.quantum.toNat
      let k := min buf.length (quantum - p % quantum)
      ∀ x < max q.2.size (p + k), (peek s.heap q.2 x).isSome ∨ x / quantum = p / quantum →
        (M q.1.dev x).isSome ∨ p ≤ x ∧ x < p + k
  | _ => True

instance (s : State) (M : Contents) : ∀ c, Decidable (LeavesNoGap s M c)
  | .open .. | .read .. | .write .. | .llseek .. | .ioctl .. => by
      unfold LeavesNoGap
      infer_instance

/-- The bytes of allocated quanta below the size of a device are all known. -/
def Full {G : Geometry} (L : Layout G) (dev : ScullDev) (m : SparseFile UInt8) : Prop :=
  ∀ x < dev.size, (L.byte x).isSome → (m x).isSome

/-- No device has a gap. -/
def Tight (s : State) (M : Contents) : Prop :=
  ∀ i dev, s.devices[i]? = some dev → ∀ x < dev.size, (peek s.heap dev x).isSome →
    (M i x).isSome

section Gaps

variable {s s' : State} {M : Contents} {own : ℕ → Owned}

theorem Inv.tight_iff (inv : Inv s own) :
    Tight s M ↔ ∀ i dev, s.devices[i]? = some dev → Full (own i).layout dev (M i) := by
  refine forall_congr' fun i => forall_congr' fun dev => forall_congr' fun hdev => ?_
  refine forall_congr' fun x => forall_congr' fun _ => ?_
  rw [(inv.owns hdev).peek_eq]

/-- One device changes; it alone has to be looked at. -/
theorem Inv.tight_update (inv : Inv s own) (tight : Tight s M) {i : ℕ}
    (hi : i < s.devices.length) {dev : ScullDev} {h : Heap Block} {files : List File} {o : Owned}
    (inv' : Inv { s with devices := s.devices.set i dev, heap := h, files := files }
      (Function.update own i o)) {m : SparseFile UInt8} (hfull : Full o.layout dev m) :
    Tight { s with devices := s.devices.set i dev, heap := h, files := files }
      (Function.update M i m) := by
  apply inv'.tight_iff.mpr
  intro j d hj
  by_cases hji : j = i
  · subst hji
    rw [List.getElem?_set_self hi, Option.some.injEq] at hj
    rw [Function.update_self, Function.update_self, ← hj]
    exact hfull
  · rw [List.getElem?_set_ne (Ne.symm hji)] at hj
    rw [Function.update_of_ne hji, Function.update_of_ne hji]
    exact inv.tight_iff.mp tight j d hj

/-- A write without a gap, as its device sees it. -/
theorem Full.write {G : Geometry} {L L' : Layout G} {dev : ScullDev} {m : SparseFile UInt8}
    (full : Full L dev m) {p : ℕ} (hreach : G.Reaches p) {buf : List UInt8} {env : Env}
    (hfault : env.fault = none) {out : Out} (written : Written L L' dev buf p env out)
    (hgap : out.retval ≠ -ENOMEM → ∀ x < max dev.size (p + min buf.length (G.room p)),
      (L.byte x).isSome ∨ x / G.quantum = p / G.quantum →
        (m x).isSome ∨ p ≤ x ∧ x < p + min buf.length (G.room p)) :
    (out.retval < 0 ∧ Full L' out.dev m) ∨
      ∃ k : ℕ, out.retval = k ∧ Full L' out.dev (m.store p (buf.take k)) := by
  rcases written.of_no_fault hreach hfault with ⟨hretval, -, hsize, hslot⟩ |
    ⟨n, rfl, -, hretval, -, hsize, -, a, old, -, hold, hslot⟩
  · refine .inl ⟨by rw [hretval]; decide, fun x hx hbyte => full x (hsize ▸ hx) ?_⟩
    rwa [Layout.byte, hslot] at hbyte
  · set n := min buf.length (G.room p)
    have htake : (buf.take n).length = n := List.length_take_of_le (Nat.min_le_left _ _)
    have hmemory : out.retval ≠ -ENOMEM := by
      rw [hretval, ENOMEM]
      omega
    refine .inr ⟨n, hretval, fun x hx hbyte => ?_⟩
    rw [hsize] at hx
    rw [Layout.byte_of_slot_update hslot hold (by omega)] at hbyte
    -- a byte of the quantum is either new or was there before
    have hdom : (m x).isSome ∨ p ≤ x ∧ x < p + n := by
      by_cases hin : p ≤ x ∧ x < p + n
      · exact .inr hin
      · apply hgap hmemory x hx
        rw [if_neg (by rwa [htake])] at hbyte
        split_ifs at hbyte with hdiv
        · exact .inr hdiv
        · exact .inl hbyte
    rw [Option.isSome_iff_ne_none] at hdom ⊢
    exact SparseFile.mem_dom_store.mpr (hdom.symm.imp_left (by rw [htake]; exact id))

/-- **A call without a gap leaves none.** -/
theorem Known.tight_call (known : Known s M own) (tight : Tight s M) {c : Call}
    (hadm : Admissible s c) (hgap : LeavesNoGap s M c) {reply : Reply}
    (hcall : s.call c = .ok (reply, s')) : Tight s' (M.after s c reply) := by
  cases c with
  | «open» minor flags env =>
      by_cases htrims : Trims s minor flags env
      · have husable := hadm htrims
        obtain ⟨h', hopen, frame⟩ := known.inv.call_open_of_trims htrims
        rw [hopen, Except.ok.injEq, Prod.mk.injEq] at hcall
        obtain ⟨rfl, rfl⟩ := hcall
        rw [Contents.after_open_of_trims _ _ _ _ htrims.2.1]
        refine known.inv.tight_update tight htrims.1 (o := .empty husable.geometry) ?_
          fun x hx => absurd hx (Nat.not_lt_zero x)
        exact known.inv.update htrims.1 (.of_empty husable.quantum_eq husable.qset_eq rfl)
          (by simpa [Owned.empty] using frame) (known.inv.files_append htrims.1)
      · rcases State.call_open_of_not_trims htrims with
          ⟨retval, hneg, hopen, -⟩ | ⟨-, hflags, hopen⟩
        · rw [hopen, Except.ok.injEq, Prod.mk.injEq] at hcall
          obtain ⟨rfl, rfl⟩ := hcall
          rwa [Contents.after_open_of_not _ _ _ _ (fun h => hneg.ne h.1)]
        · rw [hopen, Except.ok.injEq, Prod.mk.injEq] at hcall
          obtain ⟨rfl, rfl⟩ := hcall
          rw [Contents.after_open_of_not _ _ _ _ (by simp [hflags])]
          exact tight
  | read fd count env =>
      rcases known.call_read hadm with
        ⟨retval, -, hread, -⟩ | ⟨file, dev, p, k, copied, hfile, hdev, -, -, hread, -⟩
      · rw [hread, Except.ok.injEq, Prod.mk.injEq] at hcall
        obtain ⟨rfl, rfl⟩ := hcall
        exact tight
      · rw [hread, Except.ok.injEq, Prod.mk.injEq] at hcall
        obtain ⟨rfl, rfl⟩ := hcall
        have hi := (List.getElem?_eq_some_iff.mp hdev).1
        have htight := known.inv.tight_update tight hi (o := own file.dev)
          (known.inv.update hi (known.inv.owns hdev) (.refl _ _)
            (known.inv.files_set hfile (Int.natCast_nonneg (p + k))))
          (known.inv.tight_iff.mp tight _ _ hdev)
        rwa [Function.update_eq_self] at htight
  | write fd buf env =>
      rcases known.call_write hadm with ⟨retval, hneg, hwrite, -⟩ |
        ⟨file, dev, p, out, L', hfile, hdev, hp, hrefusal, hreaches, hwrite, owns', frame, -,
          written, hsupplied⟩
      · rw [hwrite, Except.ok.injEq, Prod.mk.injEq] at hcall
        obtain ⟨rfl, rfl⟩ := hcall
        rwa [Contents.after_write_of_neg _ _ _ _ _ hneg]
      · rw [hwrite, Except.ok.injEq, Prod.mk.injEq] at hcall
        obtain ⟨rfl, rfl⟩ := hcall
        have hi := (List.getElem?_eq_some_iff.mp hdev).1
        have owns := known.inv.owns hdev
        have hfull := known.inv.tight_iff.mp tight _ _ hdev
        have hnone := fun hmemory : out.retval ≠ -ENOMEM =>
          hgap (State.failure_write_eq_none hfile hdev hp hrefusal (hsupplied.mp hmemory))
            (file, dev) (State.lookup_eq_some.mpr ⟨hfile, hdev⟩)
        simp only [hp, owns.quantum, Int.toNat_natCast, owns.peek_eq] at hnone
        obtain ⟨n, hfPos⟩ := written.fPos_eq
        have inv' := known.inv.update (o := ⟨_, L'⟩) hi owns' frame
          (known.inv.files_set hfile (hfPos ▸ Int.natCast_nonneg (p + n)))
        rcases hfull.write hreaches hadm.1 written hnone with ⟨hneg, hfull'⟩ | ⟨k, hk, hfull'⟩
        · rw [Contents.after_write_of_neg _ _ _ _ _ hneg, ← Function.update_eq_self file.dev M]
          exact known.inv.tight_update tight hi inv' hfull'
        · rw [Contents.after_write _ hfile hp buf env hk]
          exact known.inv.tight_update tight hi inv' hfull'
  | llseek fd off whence =>
      obtain ⟨_, files, hseek, -⟩ := known.inv.call_llseek fd off whence
      rw [hseek, Except.ok.injEq, Prod.mk.injEq] at hcall
      obtain ⟨rfl, rfl⟩ := hcall
      exact tight
  | ioctl cmd arg env =>
      obtain ⟨rfl, rfl⟩ := Prod.mk.inj (Except.ok.inj hcall)
      exact tight

end Gaps

/-! ## Two runs -/

/-- The same call, with other bytes in the blocks the allocator returns. -/
def Call.withJunk (junk : ℕ → UInt8) : Call → Call
  | .open minor flags env => .open minor flags { env with junk := junk }
  | .read fd count env => .read fd count { env with junk := junk }
  | .write fd buf env => .write fd buf { env with junk := junk }
  | .llseek fd off whence => .llseek fd off whence
  | .ioctl cmd arg env => .ioctl cmd arg env

/-- The two states differ in the bytes of quanta only. -/
structure Twin (s₁ s₂ : State) : Prop where
  globals : s₁.globals = s₂.globals
  devices : s₁.devices = s₂.devices
  files : s₁.files = s₂.files
  heap : SameShape s₁.heap s₂.heap

namespace Twin

variable {s₁ s₂ : State}

theorem refl (s : State) : Twin s s := ⟨rfl, rfl, rfl, .refl _⟩

theorem lookup (twin : Twin s₁ s₂) (fd : ℕ) : s₁.lookup fd = s₂.lookup fd := by
  simp only [State.lookup, twin.files, twin.devices]

/-- Replies with the same return value and states that differ in bytes only. -/
def Replies (r₁ r₂ : Reply × State) : Prop := r₁.1.retval = r₂.1.retval ∧ Twin r₁.2 r₂.2

theorem transfer (twin : Twin s₁ s₂) (fd count : ℕ) {op₁ op₂ : ScullDev → ℤ → Except Fault Out}
    (hop : ∀ dev fPos, Together SameOut (op₁ dev fPos) (op₂ dev fPos)) :
    Together Replies (s₁.transfer fd count op₁) (s₂.transfer fd count op₂) := by
  unfold State.transfer
  rw [twin.lookup]
  cases s₂.lookup fd with
  | none => exact .ok ⟨rfl, twin⟩
  | some q =>
      obtain ⟨file, dev⟩ := q
      dsimp only
      split_ifs with hverify
      · refine (hop dev file.fPos).map fun out₁ out₂ hout => ⟨hout.retval, twin.globals, ?_, ?_,
          hout.heap⟩
        · simp only [State.finish, State.settle, twin.devices, hout.dev]
        · simp only [State.finish, State.settle, twin.files, hout.fPos]
      · exact .ok ⟨rfl, twin⟩

theorem «open» (twin : Twin s₁ s₂) (minor flags : ℕ) {env₁ env₂ : Env}
    (hint : env₁.interrupted = env₂.interrupted) :
    Together Replies (scullOpen s₁ minor flags env₁) (scullOpen s₂ minor flags env₂) := by
  unfold scullOpen
  rw [twin.devices, twin.globals, hint]
  cases s₂.devices[minor]? with
  | none => exact .ok ⟨rfl, twin⟩
  | some dev =>
      dsimp only
      split_ifs
      · exact .ok ⟨rfl, twin⟩
      · refine (twin.heap.scullTrim s₂.globals.quantum s₂.globals.qset dev).bind
          fun r₁ r₂ hr => ?_
        obtain ⟨d₁, h₁⟩ := r₁
        obtain ⟨d₂, h₂⟩ := r₂
        obtain ⟨rfl, hh⟩ := hr
        exact .ok ⟨rfl, rfl, rfl, by rw [twin.files], hh⟩
      · exact .ok ⟨rfl, rfl, rfl, by rw [twin.files], twin.heap⟩

/-- **The two runs take the same way.** -/
theorem call (twin : Twin s₁ s₂) {c : Call} (hadm : Admissible s₁ c) (junk : ℕ → UInt8) :
    Together Replies (s₁.call c) (s₂.call (c.withJunk junk)) := by
  cases c with
  | «open» minor flags env => exact twin.open minor flags rfl
  | read fd count env =>
      show Together Replies
        (s₁.transfer fd count fun dev fPos => scullRead s₁.heap dev count fPos env)
        (s₂.transfer fd count fun dev fPos =>
          scullRead s₂.heap dev count fPos { env with junk := junk })
      apply twin.transfer fd count
      intro dev fPos
      simp only [scullRead]
      split_ifs
      · exact .ok ⟨rfl, rfl, rfl, twin.heap⟩
      · exact twin.heap.scullReadLocked _ _ dev count fPos rfl ⟨hadm.1, hadm.1⟩
  | write fd buf env =>
      show Together Replies
        (s₁.transfer fd buf.length fun dev fPos => scullWrite s₁.heap dev buf fPos env)
        (s₂.transfer fd buf.length fun dev fPos =>
          scullWrite s₂.heap dev buf fPos { env with junk := junk })
      apply twin.transfer fd buf.length
      intro dev fPos
      simp only [scullWrite]
      split_ifs
      · exact .ok ⟨rfl, rfl, rfl, twin.heap⟩
      · exact twin.heap.scullWriteLocked _ _ dev buf fPos rfl ⟨hadm.1, hadm.1⟩
  | llseek fd off whence =>
      simp only [State.call, Call.withJunk, twin.lookup]
      cases s₂.lookup fd with
      | none => exact .ok ⟨rfl, twin⟩
      | some q => exact .ok ⟨rfl, twin.globals, twin.devices, by rw [twin.files], twin.heap⟩
  | ioctl cmd arg env =>
      simp only [State.call, Call.withJunk, twin.globals]
      exact .ok ⟨rfl, rfl, twin.devices, twin.files, twin.heap⟩

theorem admissible (twin : Twin s₁ s₂) {c : Call} (hadm : Admissible s₁ c)
    (junk : ℕ → UInt8) : Admissible s₂ (c.withJunk junk) := by
  cases c with
  | «open» minor flags env =>
      simp only [Admissible, Call.withJunk, Trims, twin.devices, twin.globals] at hadm ⊢
      exact hadm
  | read fd count env =>
      simp only [Admissible, Call.withJunk, twin.lookup] at hadm ⊢
      exact hadm
  | write fd buf env =>
      simp only [Admissible, Call.withJunk, twin.lookup] at hadm ⊢
      exact hadm
  | llseek => trivial
  | ioctl => trivial

theorem failure (twin : Twin s₁ s₂) (fd : ℕ) (buf : List UInt8) (env : Env) (junk : ℕ → UInt8) :
    s₁.failure (.write fd buf env) = s₂.failure (.write fd buf { env with junk := junk }) := by
  have hrefuses : s₁.refuses fd buf.length env = s₂.refuses fd buf.length env := by
    simp only [State.refuses, twin.lookup]
  simp only [State.failure, State.shortage, twin.lookup, twin.heap.missingAt, twin.heap.supplied]
  exact congrArg (Option.or · _) hrefuses

theorem leavesNoGap (twin : Twin s₁ s₂) {M : Contents} {c : Call} (hgap : LeavesNoGap s₁ M c)
    (junk : ℕ → UInt8) : LeavesNoGap s₂ M (c.withJunk junk) := by
  cases c with
  | write fd buf env =>
      simp only [LeavesNoGap, Call.withJunk, twin.failure fd buf env junk, twin.lookup,
        twin.heap.isSome_peek] at hgap ⊢
      exact hgap
  | «open» => trivial
  | read => trivial
  | llseek => trivial
  | ioctl => trivial

theorem after (twin : Twin s₁ s₂) (M : Contents) (c : Call) {reply₁ reply₂ : Reply}
    (hretval : reply₁.retval = reply₂.retval) (junk : ℕ → UInt8) :
    M.after s₁ c reply₁ = M.after s₂ (c.withJunk junk) reply₂ := by
  cases c <;> simp only [Contents.after, Call.withJunk, twin.files, hretval]

end Twin

/-! ## Replies -/

/-- The bytes a call delivers if all of them are known. -/
def Contents.readBack (M : Contents) (s : State) (c : Call) (retval : ℤ) : List UInt8 :=
  match c with
  | .read fd _ _ =>
      match s.files[fd]? with
      | some file =>
          (List.range retval.toNat).map fun j => (M file.dev (file.fPos.toNat + j)).getD 0
      | none => []
  | _ => []

/-- **Without gaps a reply follows from what is known.** -/
theorem Known.copied_eq {s s' : State} {M : Contents} {own : ℕ → Owned} (known : Known s M own)
    (tight : Tight s M) {c : Call} (hadm : Admissible s c) {reply : Reply}
    (hcall : s.call c = .ok (reply, s')) : reply.copied = M.readBack s c reply.retval := by
  cases c with
  | read fd count env =>
      rcases known.call_read hadm with ⟨retval, hneg, hread, -⟩ |
        ⟨file, dev, p, k, copied, hfile, hdev, hp, -, hread, hcorrect, hbytes⟩
      · rw [hread, Except.ok.injEq, Prod.mk.injEq] at hcall
        obtain ⟨rfl, rfl⟩ := hcall
        simp only [Contents.readBack, Int.toNat_of_nonpos hneg.le]
        split <;> rfl
      · rw [hread, Except.ok.injEq, Prod.mk.injEq] at hcall
        obtain ⟨rfl, rfl⟩ := hcall
        simp only [Contents.readBack, hfile, hp, Int.toNat_natCast]
        apply List.ext_getElem?
        intro j
        by_cases hj : j < k
        · -- the byte is below the size and in a quantum, so it is known
          have hsize := hcorrect.le_size
          have hsome : copied[j]? ≠ none := by
            rw [ne_eq, List.getElem?_eq_none_iff, hcorrect.length]
            omega
          have hknown := known.inv.tight_iff.mp tight _ _ hdev (p + j) (by omega)
            (Option.isSome_iff_ne_none.mpr (hbytes j hj ▸ hsome))
          obtain ⟨b, hb⟩ := Option.isSome_iff_exists.mp hknown
          rw [hcorrect.bytes j hj b hb]
          simp [hj, hb]
        · rw [List.getElem?_eq_none (by rw [hcorrect.length]; omega),
            List.getElem?_eq_none (by simp; omega)]
  | write fd buf env =>
      rcases known.call_write hadm with ⟨retval, hneg, hwrite, -⟩ |
        ⟨file, dev, p, out, L', -, -, -, -, -, hwrite, -⟩
      · rw [hwrite, Except.ok.injEq, Prod.mk.injEq] at hcall
        exact hcall.1 ▸ rfl
      · rw [hwrite, Except.ok.injEq, Prod.mk.injEq] at hcall
        exact hcall.1 ▸ rfl
  | «open» minor flags env =>
      by_cases htrims : Trims s minor flags env
      · obtain ⟨h', hopen, -⟩ := known.inv.call_open_of_trims htrims
        rw [hopen, Except.ok.injEq, Prod.mk.injEq] at hcall
        exact hcall.1 ▸ rfl
      · rcases State.call_open_of_not_trims htrims with ⟨_, _, hopen, -⟩ | ⟨_, _, hopen⟩
        · rw [hopen, Except.ok.injEq, Prod.mk.injEq] at hcall
          exact hcall.1 ▸ rfl
        · rw [hopen, Except.ok.injEq, Prod.mk.injEq] at hcall
          exact hcall.1 ▸ rfl
  | llseek fd off whence =>
      simp only [State.call] at hcall
      split at hcall
      · exact (Prod.mk.inj (Except.ok.inj hcall)).1 ▸ rfl
      · exact (Prod.mk.inj (Except.ok.inj hcall)).1 ▸ rfl
  | ioctl cmd arg env => exact (Prod.mk.inj (Except.ok.inj hcall)).1 ▸ rfl

/-- The replies to a sequence of calls. -/
def replies : State → List Call → Except Fault (List Reply)
  | _, [] => .ok []
  | s, c :: cs => do
      let (reply, s) ← s.call c
      let rest ← replies s cs
      pure (reply :: rest)

theorem Twin.readBack {s₁ s₂ : State} (twin : Twin s₁ s₂) (M : Contents) (c : Call) (retval : ℤ)
    (junk : ℕ → UInt8) : M.readBack s₁ c retval = M.readBack s₂ (c.withJunk junk) retval := by
  cases c <;> simp only [Contents.readBack, Call.withJunk, twin.files]

/-- Two runs from states that differ in bytes nobody knows. -/
theorem Twin.replies_eq {s₁ s₂ : State} (twin : Twin s₁ s₂) {M : Contents} {own₁ own₂ : ℕ → Owned}
    (known₁ : Known s₁ M own₁) (known₂ : Known s₂ M own₂) (tight₁ : Tight s₁ M)
    (tight₂ : Tight s₂ M) {calls₁ calls₂ : List Call}
    (hcalls : List.Forall₂ (fun c₁ c₂ => ∃ junk, c₂ = Call.withJunk junk c₁) calls₁ calls₂)
    (hrun : EveryStep ghostCall (fun x c => Admissible x.1 c ∧ LeavesNoGap x.1 x.2 c) (s₁, M)
      calls₁) :
    ∃ rs, replies s₁ calls₁ = .ok rs ∧ replies s₂ calls₂ = .ok rs := by
  induction hcalls generalizing s₁ s₂ M own₁ own₂ with
  | nil => exact ⟨[], rfl, rfl⟩
  | @cons c₁ c₂ cs₁ cs₂ hc _ ih =>
      obtain ⟨junk, rfl⟩ := hc
      obtain ⟨⟨hadm₁, hgap₁⟩, hrest⟩ := hrun
      have hadm₂ := twin.admissible hadm₁ junk
      have hgap₂ := twin.leavesNoGap hgap₁ junk
      obtain ⟨reply₁, t₁, hcall₁, -, own₁', known₁'⟩ := known₁.keeps hadm₁
      obtain ⟨reply₂, t₂, hcall₂, -, own₂', known₂'⟩ := known₂.keeps hadm₂
      have htogether := twin.call hadm₁ junk
      rw [hcall₁, hcall₂] at htogether
      obtain ⟨hretval, twin'⟩ := htogether.of_ok
      dsimp only at hretval twin'
      have hreply : reply₁ = reply₂ := by
        have hcopied : reply₁.copied = reply₂.copied := by
          rw [known₁.copied_eq tight₁ hadm₁ hcall₁, known₂.copied_eq tight₂ hadm₂ hcall₂,
            twin.readBack M c₁ _ junk, hretval]
        cases reply₁
        cases reply₂
        rw [Reply.mk.injEq]
        exact ⟨hretval, hcopied⟩
      have tight₁' := known₁.tight_call tight₁ hadm₁ hgap₁ hcall₁
      have tight₂' := known₂.tight_call tight₂ hadm₂ hgap₂ hcall₂
      have hafter := twin.after M c₁ hretval junk
      rw [← hafter] at known₂' tight₂'
      obtain ⟨rs, hrs₁, hrs₂⟩ := ih twin' known₁' known₂' tight₁' tight₂'
        (hrest _ (by simp only [ghostCall, hcall₁, Except.map]))
      refine ⟨reply₁ :: rs, ?_, ?_⟩
      · simp only [replies, hcall₁, hrs₁, ok_bind]
        rfl
      · simp only [replies, hcall₂, hrs₂, ok_bind, hreply]
        rfl

/-- **No uninitialised memory reaches a reader as long as no write leaves a gap.**
Two runs of the same calls that differ only in what the blocks of the allocator hold
get the same replies, bytes included. -/
theorem no_disclosure {scullQuantum scullQset : ℤ}
    (husable : (Globals.mk scullQuantum scullQset).Usable) (scullNrDevs : ℕ)
    {calls₁ calls₂ : List Call}
    (hcalls : List.Forall₂ (fun c₁ c₂ => ∃ junk, c₂ = Call.withJunk junk c₁) calls₁ calls₂)
    (hrun : EveryStep ghostCall (fun x c => Admissible x.1 c ∧ LeavesNoGap x.1 x.2 c)
      (scullInit scullQuantum scullQset scullNrDevs, fun _ => .empty) calls₁) :
    ∃ rs, replies (scullInit scullQuantum scullQset scullNrDevs) calls₁ = .ok rs ∧
      replies (scullInit scullQuantum scullQset scullNrDevs) calls₂ = .ok rs := by
  have known := Known.init husable scullNrDevs
  have tight : Tight (scullInit scullQuantum scullQset scullNrDevs) fun _ => .empty := by
    intro i dev hi x hx
    rw [List.eq_of_mem_replicate (List.mem_of_getElem? hi)] at hx
    exact absurd hx (Nat.not_lt_zero x)
  exact (Twin.refl _).replies_eq known known tight tight hcalls hrun

/-- Two writes that meet, with other bytes in the quantum each time, and a read. -/
theorem no_disclosure_run :
    ∃ rs, replies (scullInit 4 2 1)
        [.open 0 2 {}, .write 0 [1, 2] { answers := [some 1, some 2, some 3] }, .write 0 [3] {},
          .llseek 0 0 0, .read 0 9 {}] = .ok rs ∧
      replies (scullInit 4 2 1)
        [.open 0 2 {},
          .write 0 [1, 2] { answers := [some 1, some 2, some 3], junk := fun _ => 255 },
          .write 0 [3] {}, .llseek 0 0 0, .read 0 9 {}] = .ok rs :=
  no_disclosure (by decide) 1
    (.cons ⟨fun _ => 0, rfl⟩ (.cons ⟨fun _ => 255, rfl⟩ (.cons ⟨fun _ => 0, rfl⟩
      (.cons ⟨fun _ => 0, rfl⟩ (.cons ⟨fun _ => 0, rfl⟩ .nil))))) (by decide)

/-- One byte is written at position 1 of an empty device.  The byte before it is
whatever the allocator left there, and a read from position 0 delivers it. -/
theorem discloses_gap :
    let calls : List Call :=
      [.open 0 2 {}, .llseek 0 1 0, .write 0 [7] { answers := [some 1, some 2, some 3] },
        .llseek 0 0 0, .read 0 2 {}]
    EveryStep ghostCall (fun x c => Admissible x.1 c) (scullInit 4 2 1, fun _ => .empty) calls ∧
      replies (scullInit 4 2 1) (calls.map (.withJunk fun _ => 0)) =
        .ok [⟨0, []⟩, ⟨1, []⟩, ⟨1, []⟩, ⟨0, []⟩, ⟨2, [0, 7]⟩] ∧
      replies (scullInit 4 2 1) (calls.map (.withJunk fun _ => 255)) =
        .ok [⟨0, []⟩, ⟨1, []⟩, ⟨1, []⟩, ⟨0, []⟩, ⟨2, [255, 7]⟩] :=
  ⟨by decide, rfl, rfl⟩

end KernelTraining.Scull
