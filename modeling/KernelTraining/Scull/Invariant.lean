import KernelTraining.Scull.System
import KernelTraining.Scull.Transfer
import KernelTraining.Scull.Trim

/-!
# The invariant of the module

Every device owns its blocks, no two devices share one, and nothing else is
allocated (`Inv`).  Each call changes the blocks of one device at most, so one lemma
(`Inv.update`) carries the invariant through all of them: it is enough to know what the
device owns afterwards, and that the blocks it has come by were not allocated before.

The invariant says nothing about what is stored, or where.  It holds after copies that fail,
allocations that fail and transfers at any position; all it asks is that a device is never
given parameters that the driver cannot work with (`Globals.Usable`, `TrimsUsable`).  So it
is the ground for the theorems that say more, and for those that are about errors.

What a call can do is said once, for all of these (`State.call_read_cases`,
`State.call_write_cases`, `Inv.call_open_of_trims`, `State.call_open_of_not_trims`,
`Inv.call_llseek`).  Either the call is refused before it gets to its device, with the error
that `State.refusal` names, and changes nothing; or it runs the locked section of a transfer
at a position where the VFS lets it, trims a device, or moves a file.
-/

namespace KernelTraining.Scull

open Machine

/-- A layout together with its geometry. -/
structure Owned where
  geometry : Geometry
  layout : Layout geometry

/-- The invariant, `own i` being what device `i` owns. -/
structure Inv (s : State) (own : ℕ → Owned) : Prop where
  owns : ∀ {i dev}, s.devices[i]? = some dev → Owns s.heap dev (own i).layout
  apart : ∀ {i j}, i < s.devices.length → j < s.devices.length → i ≠ j →
    ∀ a ∈ (own i).layout.blocks, a ∉ (own j).layout.blocks
  used : ∀ {a}, s.heap.get a ≠ none → ∃ i < s.devices.length, a ∈ (own i).layout.blocks
  files : ∀ file ∈ s.files, file.dev < s.devices.length ∧ 0 ≤ file.fPos

/-! ## Parameters the driver can work with -/

/-- Both parameters are positive and an item of that size has an `int` size. -/
def Globals.Usable (g : Globals) : Prop := 0 < g.quantum ∧ 0 < g.qset ∧ g.quantum * g.qset ≤ intMax

instance (g : Globals) : Decidable g.Usable := inferInstanceAs (Decidable (_ ∧ _ ∧ _))

/-- The geometry a trim gives a device. -/
def Globals.Usable.geometry {g : Globals} (h : g.Usable) : Geometry where
  quantum := g.quantum.toNat
  qset := g.qset.toNat
  quantum_pos := by
    have := h.1
    omega
  qset_pos := by
    have := h.2.1
    omega
  fits := by
    have hfits := h.2.2
    rw [← Int.toNat_of_nonneg h.1.le, ← Int.toNat_of_nonneg h.2.1.le, ← Int.natCast_mul] at hfits
    exact Int.ofNat_le.mp hfits

theorem Globals.Usable.quantum_eq {g : Globals} (h : g.Usable) :
    g.quantum = h.geometry.quantum := (Int.toNat_of_nonneg h.1.le).symm

theorem Globals.Usable.qset_eq {g : Globals} (h : g.Usable) :
    g.qset = h.geometry.qset := (Int.toNat_of_nonneg h.2.1.le).symm

/-- What a device without data owns. -/
def Owned.empty (G : Geometry) : Owned := ⟨G, Layout.empty G⟩

/-- The invariant holds of the freshly initialised module. -/
theorem Inv.init {scullQuantum scullQset : ℤ} (h : (Globals.mk scullQuantum scullQset).Usable)
    (scullNrDevs : ℕ) :
    Inv (scullInit scullQuantum scullQset scullNrDevs) fun _ => Owned.empty h.geometry where
  owns := fun {i dev} hi => by
    obtain rfl := List.eq_of_mem_replicate (List.mem_of_getElem? hi)
    exact .of_empty h.quantum_eq h.qset_eq rfl
  apart := fun _ _ _ a ha => by simp [Owned.empty] at ha
  used := fun ha => by simp [scullInit] at ha
  files := fun file hfile => by simp [scullInit] at hfile

/-- What holds of every device after one of them has changed. -/
theorem forall_devices_set (Q Q' : ℕ → ScullDev → Prop) {devices : List ScullDev} {i : ℕ}
    (hi : i < devices.length) {dev : ScullDev} (hQ : ∀ {j d}, devices[j]? = some d → Q j d)
    (hself : Q' i dev) (hother : ∀ j ≠ i, ∀ d, Q j d → Q' j d) {j : ℕ} {d : ScullDev}
    (hj : (devices.set i dev)[j]? = some d) : Q' j d := by
  by_cases hji : j = i
  · subst hji
    rw [List.getElem?_set_self hi, Option.some.injEq] at hj
    exact hj ▸ hself
  · rw [List.getElem?_set_ne (Ne.symm hji)] at hj
    exact hother j hji d (hQ hj)

namespace Inv

variable {s : State} {own : ℕ → Owned}

/-- **One device changes.**  It is enough to know what it owns afterwards. -/
theorem update (inv : Inv s own) {i : ℕ} (hi : i < s.devices.length) {dev : ScullDev}
    {h : Heap Block} {o : Owned} (howns : Owns h dev o.layout)
    (frame : Frame s.heap (own i).layout.blocks h o.layout.blocks) {files : List File}
    (hfiles : ∀ file ∈ files, file.dev < s.devices.length ∧ 0 ≤ file.fPos) :
    Inv { s with devices := s.devices.set i dev, heap := h, files := files }
      (Function.update own i o) := by
  have hothers : ∀ {j}, j < s.devices.length → j ≠ i → ∀ a ∈ (own j).layout.blocks,
      a ∉ o.layout.blocks ∧ h.get a = s.heap.get a := fun {j} hj hne => by
    have hdev : s.devices[j]? = some s.devices[j] := List.getElem?_eq_getElem hj
    exact frame.separate (inv.owns hdev).allocated (inv.apart hj hi hne)
  refine ⟨fun {j d} hj => ?_, fun {j k} hj hk hne a ha => ?_, fun {a} ha => ?_, ?_⟩
  · by_cases hji : j = i
    · subst hji
      rw [List.getElem?_set_self hi, Option.some.injEq] at hj
      rw [Function.update_self, ← hj]
      exact howns
    · rw [List.getElem?_set_ne (Ne.symm hji)] at hj
      have hlt := (List.getElem?_eq_some_iff.mp hj).1
      rw [Function.update_of_ne hji]
      exact (inv.owns hj).congr fun a ha => (hothers hlt hji a ha).2
  · rw [List.length_set] at hj hk
    by_cases hji : j = i
    · rw [hji, Function.update_self] at ha
      have hki : k ≠ i := fun hki => hne (hji.trans hki.symm)
      rw [Function.update_of_ne hki]
      exact fun hak => (hothers hk hki a hak).1 ha
    · rw [Function.update_of_ne hji] at ha
      by_cases hki : k = i
      · rw [hki, Function.update_self]
        exact (hothers hj hji a ha).1
      · rw [Function.update_of_ne hki]
        exact inv.apart hj hk hne a ha
  · simp only [List.length_set]
    by_cases hnew : a ∈ o.layout.blocks
    · exact ⟨i, hi, by rwa [Function.update_self]⟩
    have hold : a ∉ (own i).layout.blocks := fun hold => ha (frame.freed a hold hnew)
    obtain ⟨j, hj, hmem⟩ := inv.used (frame.other a hold hnew ▸ ha)
    have hji : j ≠ i := by
      rintro rfl
      exact hold hmem
    exact ⟨j, hj, by rwa [Function.update_of_ne hji]⟩
  · intro file hfile
    simpa using hfiles file hfile

/-- Only the parameters or the open files change. -/
theorem keep (inv : Inv s own) (globals : Globals) {files : List File}
    (hfiles : ∀ file ∈ files, file.dev < s.devices.length ∧ 0 ≤ file.fPos) :
    Inv { s with globals := globals, files := files } own where
  owns := inv.owns
  apart := inv.apart
  used := inv.used
  files := hfiles

/-- The files after one more has been opened. -/
theorem files_append (inv : Inv s own) {minor : ℕ} (hminor : minor < s.devices.length) :
    ∀ file ∈ s.files ++ [⟨minor, 0⟩], file.dev < s.devices.length ∧ 0 ≤ file.fPos := by
  intro file hfile
  rcases List.mem_append.mp hfile with hmem | hmem
  · exact inv.files file hmem
  · rw [List.mem_singleton] at hmem
    subst hmem
    exact ⟨hminor, le_rfl⟩

/-- The files after one has been moved. -/
theorem files_set (inv : Inv s own) {fd : ℕ} {file : File} (hfile : s.files[fd]? = some file)
    {fPos : ℤ} (hfPos : 0 ≤ fPos) :
    ∀ f ∈ s.files.set fd { file with fPos := fPos }, f.dev < s.devices.length ∧ 0 ≤ f.fPos := by
  intro f hf
  rcases List.mem_or_eq_of_mem_set hf with hmem | rfl
  · exact inv.files f hmem
  · exact ⟨(inv.files file (List.mem_of_getElem? hfile)).1, hfPos⟩

end Inv

/-! ## What a call can do -/

section Calls

variable {s : State} {own : ℕ → Owned}

theorem State.lookup_eq_some {fd : ℕ} {file : File} {dev : ScullDev} :
    s.lookup fd = some (file, dev) ↔
      s.files[fd]? = some file ∧ s.devices[file.dev]? = some dev := by
  simp only [State.lookup, Option.bind_eq_bind, Option.bind_eq_some_iff]
  constructor
  · rintro ⟨f, hf, d, hd, heq⟩
    obtain ⟨rfl, rfl⟩ : f = file ∧ d = dev := by simpa using heq
    exact ⟨hf, hd⟩
  · rintro ⟨hfile, hdev⟩
    exact ⟨file, hfile, dev, hdev, rfl⟩

/-- A transfer that reports an error at once leaves everything as it was. -/
theorem State.settle_self {fd : ℕ} {file : File} {dev : ScullDev}
    (hfile : s.files[fd]? = some file) (hdev : s.devices[file.dev]? = some dev) (retval : ℤ)
    (copied : List UInt8) : s.settle fd file ⟨retval, file.fPos, copied, dev, s.heap⟩ = s := by
  obtain ⟨hfd, rfl⟩ := List.getElem?_eq_some_iff.mp hfile
  obtain ⟨hi, rfl⟩ := List.getElem?_eq_some_iff.mp hdev
  simp only [State.settle, List.set_getElem_self]
  rw [show (File.mk s.files[fd].dev s.files[fd].fPos) = s.files[fd] from rfl,
    List.set_getElem_self]

/-- Why a transfer of `count` bytes through `fd` does not get to the device: the number of the
error. -/
def State.refuses (s : State) (fd count : ℕ) (env : Env) : Option ℤ :=
  match s.lookup fd with
  | none => some EBADF
  | some (file, _) =>
      if rwVerifyArea file.fPos count then if env.interrupted then some ERESTARTSYS else none
      else some EINVAL

/-- Why a call does not get to the device. -/
def State.refusal (s : State) : Call → Option ℤ
  | .open minor flags env =>
      if s.devices[minor]? = none then some ENXIO
      else if writeOnly flags = true ∧ env.interrupted = true then some ERESTARTSYS
      else none
  | .read fd count env => s.refuses fd count env
  | .write fd buf env => s.refuses fd buf.length env
  | .llseek .. => none
  | .ioctl .. => none

theorem State.refuses_eq_none {fd count p : ℕ} {env : Env} {file : File} {dev : ScullDev}
    (hfile : s.files[fd]? = some file) (hdev : s.devices[file.dev]? = some dev)
    (hp : file.fPos = p) (hsum : p + count < 9223372036854775808)
    (hint : env.interrupted = false) : s.refuses fd count env = none := by
  simp only [State.refuses, State.lookup_eq_some.mpr ⟨hfile, hdev⟩, hint,
    rwVerifyArea_iff.mpr ⟨p, hp, hsum⟩, if_true, Bool.false_eq_true, if_false]

/-- A transfer is refused, or runs the operation at a position from which it does
not leave `loff_t`. -/
theorem State.transfer_cases (s : State) (fd count : ℕ) (op : ScullDev → ℤ → Except Fault Out) :
    (∃ retval < 0, s.transfer fd count op = .ok (⟨retval, []⟩, s) ∧
        ∀ env, s.refuses fd count env = some (-retval)) ∨
      ∃ file dev, ∃ p : ℕ, s.files[fd]? = some file ∧ s.devices[file.dev]? = some dev ∧
        file.fPos = p ∧ p + count < 9223372036854775808 ∧
        s.transfer fd count op = (op dev p).map (s.finish fd file) := by
  unfold State.transfer State.refuses
  cases hlookup : s.lookup fd with
  | none => exact .inl ⟨_, by decide, rfl, fun _ => rfl⟩
  | some q =>
      obtain ⟨file, dev⟩ := q
      obtain ⟨hfile, hdev⟩ := State.lookup_eq_some.mp hlookup
      dsimp only
      split_ifs with hverify
      · obtain ⟨p, hp, hsum⟩ := rwVerifyArea_iff.mp hverify
        exact .inr ⟨file, dev, p, hfile, hdev, hp, hsum, by rw [hp]⟩
      · exact .inl ⟨_, by decide, rfl, fun _ => rfl⟩

theorem State.call_read_cases (s : State) (fd count : ℕ) (env : Env) :
    (∃ retval < 0, s.call (.read fd count env) = .ok (⟨retval, []⟩, s) ∧
        s.refusal (.read fd count env) = some (-retval)) ∨
      ∃ file dev, ∃ p : ℕ, s.files[fd]? = some file ∧ s.devices[file.dev]? = some dev ∧
        file.fPos = p ∧ p + count < 9223372036854775808 ∧ env.interrupted = false ∧
        s.call (.read fd count env) =
          (scullReadLocked dev.quantum dev.qset s.heap dev count p env).map
            (s.finish fd file) := by
  rcases s.transfer_cases fd count fun dev fPos => scullRead s.heap dev count fPos env with
    ⟨retval, hneg, hcall, hrefuses⟩ | ⟨file, dev, p, hfile, hdev, hp, hsum, hcall⟩
  · exact .inl ⟨retval, hneg, hcall, hrefuses env⟩
  cases hint : env.interrupted with
  | true =>
      refine .inl ⟨-ERESTARTSYS, by decide, hcall.trans ?_, ?_⟩
      · simp only [scullRead, hint, if_true, ← hp, Except.map, State.finish,
          State.settle_self hfile hdev]
      · simp only [State.refusal, State.refuses, State.lookup_eq_some.mpr ⟨hfile, hdev⟩, hint,
          rwVerifyArea_iff.mpr ⟨p, hp, hsum⟩, if_true, neg_neg]
  | false =>
      refine .inr ⟨file, dev, p, hfile, hdev, hp, hsum, rfl, hcall.trans ?_⟩
      simp [scullRead, hint]

theorem State.call_write_cases (s : State) (fd : ℕ) (buf : List UInt8) (env : Env) :
    (∃ retval < 0, s.call (.write fd buf env) = .ok (⟨retval, []⟩, s) ∧
        s.refusal (.write fd buf env) = some (-retval)) ∨
      ∃ file dev, ∃ p : ℕ, s.files[fd]? = some file ∧ s.devices[file.dev]? = some dev ∧
        file.fPos = p ∧ p + buf.length < 9223372036854775808 ∧ env.interrupted = false ∧
        s.call (.write fd buf env) =
          (scullWriteLocked dev.quantum dev.qset s.heap dev buf p env).map
            (s.finish fd file) := by
  rcases s.transfer_cases fd buf.length fun dev fPos => scullWrite s.heap dev buf fPos env with
    ⟨retval, hneg, hcall, hrefuses⟩ | ⟨file, dev, p, hfile, hdev, hp, hsum, hcall⟩
  · exact .inl ⟨retval, hneg, hcall, hrefuses env⟩
  cases hint : env.interrupted with
  | true =>
      refine .inl ⟨-ERESTARTSYS, by decide, hcall.trans ?_, ?_⟩
      · simp only [scullWrite, hint, if_true, ← hp, Except.map, State.finish,
          State.settle_self hfile hdev]
      · simp only [State.refusal, State.refuses, State.lookup_eq_some.mpr ⟨hfile, hdev⟩, hint,
          rwVerifyArea_iff.mpr ⟨p, hp, hsum⟩, if_true, neg_neg]
  | false =>
      refine .inr ⟨file, dev, p, hfile, hdev, hp, hsum, rfl, hcall.trans ?_⟩
      simp [scullWrite, hint]

/-- A seek moves one file, to a position that is not negative, or none. -/
theorem Inv.call_llseek (inv : Inv s own) (fd : ℕ) (off : ℤ) (whence : ℕ) :
    ∃ reply files, s.call (.llseek fd off whence) = .ok (reply, { s with files := files }) ∧
      ∀ file ∈ files, file.dev < s.devices.length ∧ 0 ≤ file.fPos := by
  simp only [State.call]
  cases hlookup : s.lookup fd with
  | none => exact ⟨_, s.files, rfl, inv.files⟩
  | some q =>
      obtain ⟨file, dev⟩ := q
      obtain ⟨hfile, -⟩ := State.lookup_eq_some.mp hlookup
      exact ⟨_, _, rfl, inv.files_set hfile
        (scullLlseek_nonneg (inv.files file (List.mem_of_getElem? hfile)).2 off whence)⟩

/-- The open of device `minor` empties it. -/
def Trims (s : State) (minor flags : ℕ) (env : Env) : Prop :=
  minor < s.devices.length ∧ writeOnly flags = true ∧ env.interrupted = false

instance (s : State) (minor flags : ℕ) (env : Env) : Decidable (Trims s minor flags env) :=
  inferInstanceAs (Decidable (_ ∧ _ ∧ _))

theorem State.refusal_open_of_trims {minor flags : ℕ} {env : Env}
    (htrims : Trims s minor flags env) : s.refusal (.open minor flags env) = none := by
  obtain ⟨hminor, hflags, hint⟩ := htrims
  simp [State.refusal, hminor, hint]

theorem State.refusal_open_of_not {minor flags : ℕ} {env : Env} (hminor : minor < s.devices.length)
    (hflags : writeOnly flags = false) : s.refusal (.open minor flags env) = none := by
  simp [State.refusal, hminor, hflags]

/-- An open that trims frees exactly what the device owned. -/
theorem Inv.call_open_of_trims (inv : Inv s own) {minor flags : ℕ} {env : Env}
    (htrims : Trims s minor flags env) :
    ∃ h', s.call (.open minor flags env) = .ok (⟨0, []⟩,
        { s with
          devices := s.devices.set minor ⟨none, s.globals.quantum, s.globals.qset, 0⟩
          heap := h'
          files := s.files ++ [⟨minor, 0⟩] }) ∧
      Frame s.heap (own minor).layout.blocks h' ∅ := by
  obtain ⟨hminor, hflags, hint⟩ := htrims
  have hdev : s.devices[minor]? = some s.devices[minor] := List.getElem?_eq_getElem hminor
  obtain ⟨h', htrim, frame⟩ :=
    scullTrim_spec (inv.owns hdev) s.globals.quantum s.globals.qset
  refine ⟨h', ?_, frame⟩
  simp only [State.call, scullOpen, hdev, hflags, hint, htrim, ok_bind, if_true,
    Bool.false_eq_true, if_false]
  rfl

/-- Any other open is refused, or opens a file and leaves the device alone. -/
theorem State.call_open_of_not_trims {minor flags : ℕ} {env : Env}
    (htrims : ¬ Trims s minor flags env) :
    (∃ retval < 0, s.call (.open minor flags env) = .ok (⟨retval, []⟩, s) ∧
        s.refusal (.open minor flags env) = some (-retval)) ∨
      minor < s.devices.length ∧ writeOnly flags = false ∧
        s.call (.open minor flags env) =
          .ok (⟨0, []⟩, { s with files := s.files ++ [⟨minor, 0⟩] }) := by
  cases hdev : s.devices[minor]? with
  | none =>
      refine .inl ⟨- ENXIO, by decide, ?_, ?_⟩
      · simp only [State.call, scullOpen, hdev]
      · simp only [State.refusal, hdev, if_true, neg_neg]
  | some dev =>
      have hminor := (List.getElem?_eq_some_iff.mp hdev).1
      cases hflags : writeOnly flags with
      | false =>
          refine .inr ⟨hminor, rfl, ?_⟩
          simp only [State.call, scullOpen, hdev, hflags, Bool.false_eq_true, if_false]
      | true =>
          have hint : env.interrupted = true := by
            by_contra hne
            exact htrims ⟨hminor, hflags, by simpa using hne⟩
          refine .inl ⟨-ERESTARTSYS, by decide, ?_, ?_⟩
          · simp only [State.call, scullOpen, hdev, hflags, hint, if_true]
          · simp only [State.refusal, hdev, hflags, hint, reduceCtorEq, and_self, if_true,
              if_false, neg_neg]

/-- An open that trims finds parameters it can use. -/
def TrimsUsable (s : State) : Call → Prop
  | .open minor flags env => Trims s minor flags env → s.globals.Usable
  | _ => True

instance (s : State) : ∀ c, Decidable (TrimsUsable s c)
  | .open .. | .read .. | .write .. | .llseek .. | .ioctl .. => by
      unfold TrimsUsable
      infer_instance

/-- A transfer that gives its device another layout. -/
theorem Inv.settle (inv : Inv s own) {fd : ℕ} {file : File} {dev : ScullDev}
    (hfile : s.files[fd]? = some file) (hdev : s.devices[file.dev]? = some dev) {out : Out}
    {G : Geometry} {L : Layout G} (owns : Owns out.heap out.dev L)
    (frame : Frame s.heap (own file.dev).layout.blocks out.heap L.blocks)
    (hfPos : 0 ≤ out.fPos) :
    Inv (s.settle fd file out) (Function.update own file.dev ⟨G, L⟩) :=
  inv.update (o := ⟨G, L⟩) (List.getElem?_eq_some_iff.mp hdev).1 owns frame
    (inv.files_set hfile hfPos)

theorem Inv.open (inv : Inv s own) {minor flags : ℕ} {env : Env}
    (husable : Trims s minor flags env → s.globals.Usable) :
    ∃ reply s', scullOpen s minor flags env = .ok (reply, s') ∧ s'.globals = s.globals ∧
      ∃ own', Inv s' own' := by
  by_cases htrims : Trims s minor flags env
  · obtain ⟨h', hcall, frame⟩ := inv.call_open_of_trims htrims
    refine ⟨_, _, hcall, rfl, Function.update own minor (.empty (husable htrims).geometry), ?_⟩
    exact inv.update (o := .empty (husable htrims).geometry) htrims.1
      (.of_empty (husable htrims).quantum_eq (husable htrims).qset_eq rfl)
      (by simpa [Owned.empty] using frame) (inv.files_append htrims.1)
  · rcases State.call_open_of_not_trims htrims with ⟨_, _, hcall, -⟩ | ⟨hminor, _, hcall⟩
    · exact ⟨_, _, hcall, rfl, own, inv⟩
    · exact ⟨_, _, hcall, rfl, own, inv.keep s.globals (inv.files_append hminor)⟩

/-- **No call faults, and every call keeps the invariant**, as long as no device is
given parameters the driver cannot use. -/
theorem Inv.call (inv : Inv s own) {c : Call} (hc : TrimsUsable s c) :
    ∃ reply s', s.call c = .ok (reply, s') ∧ ∃ own', Inv s' own' := by
  cases c with
  | «open» minor flags env =>
      obtain ⟨reply, s', hopen, -, hinv⟩ := inv.open hc
      exact ⟨reply, s', hopen, hinv⟩
  | read fd count env =>
      rcases s.call_read_cases fd count env with
        ⟨_, _, hcall, -⟩ | ⟨file, dev, p, hfile, hdev, -, hsum, -, hcall⟩
      · exact ⟨_, _, hcall, own, inv⟩
      obtain ⟨out, L', hout, owns', frame, -, -, ⟨n, -, hfPos⟩, -⟩ :=
        scullReadLocked_spec (inv.owns hdev) hsum env
      rw [hout] at hcall
      exact ⟨_, _, hcall, _,
        inv.settle hfile hdev owns' frame (hfPos ▸ Int.natCast_nonneg (p + n))⟩
  | write fd buf env =>
      rcases s.call_write_cases fd buf env with
        ⟨_, _, hcall, -⟩ | ⟨file, dev, p, hfile, hdev, -, hsum, -, hcall⟩
      · exact ⟨_, _, hcall, own, inv⟩
      obtain ⟨out, L', hout, -, owns', frame, -, written, -⟩ :=
        scullWriteLocked_spec (inv.owns hdev) buf hsum env
      rw [hout] at hcall
      obtain ⟨n, hfPos⟩ := written.fPos_eq
      exact ⟨_, _, hcall, _,
        inv.settle hfile hdev owns' frame (hfPos ▸ Int.natCast_nonneg (p + n))⟩
  | llseek fd off whence =>
      obtain ⟨reply, files, hcall, hfiles⟩ := inv.call_llseek fd off whence
      exact ⟨_, _, hcall, own, inv.keep s.globals hfiles⟩
  | ioctl cmd arg env => exact ⟨_, _, rfl, own, inv.keep _ inv.files⟩

end Calls

end KernelTraining.Scull
