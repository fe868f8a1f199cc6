import KernelTraining.Abstract.SparseFile
import KernelTraining.Scull.Invariant

/-!
# A device is a sparse file

What callers know of the devices is kept beside the state as a ghost: a write that
succeeds makes its bytes known, an open that trims forgets all of them.  The refinement
(`refines_sparseFile`) says that a read never contradicts what is known, and the rest of the
contract when calls fail, how far transfers get, and what they leave alone.

## Strategy

What is known of a device is a `SparseFile`, a partial map from positions to bytes, and not
the bytes of the device: a quantum that is allocated for one byte holds others that nobody
has written.  `Holds` relates the two.  The layout of the device has every known byte, these
lie within its size, and its list is long enough for the size.

* **One device** (`Holds.read`, `Holds.write`).  The specifications of the locked sections
  speak of quanta; `Layout.byte_of_slot_update` turns a change of one quantum into a change of
  bytes, those the write covers and, if the quantum is new, some that nobody knows.
* **The contract** (`Contract`) is in the words of a caller: files, positions, sizes and what
  is known of them, and no heap.  Only `State.failure`, which says when a call fails, looks at
  the heap, as it must to say whether the allocator supplies what a write needs.  `Excused`
  says that a call fails then, with this error, and that no other call does.
* **The module** (`Known`).  A call concerns one device, and `Known.update` leaves the others
  as they were.  `Known.keeps` has a case for each call, and the run follows from the
  invariant rule.

`Admissible` lists what the contract asks of a call: no bad user pages, as a copy that fails
halfway leaves bytes behind that the reply does not tell of; positions whose item number fits
an `int`; and parameters that a trim can use.
-/

namespace KernelTraining.Scull

open Machine Abstract

/-- What is known of each device. -/
abbrev Contents := ℕ → SparseFile UInt8

/-- What is known after a call, from what the caller sees of it: the call, where
the file stood, and the reply. -/
def Contents.after (M : Contents) (s : State) (c : Call) (reply : Reply) : Contents :=
  match c with
  | .open minor flags _ =>
      if reply.retval = 0 ∧ writeOnly flags then Function.update M minor .empty else M
  | .write fd buf _ =>
      match s.files[fd]? with
      | some file =>
          if 0 ≤ reply.retval then
            Function.update M file.dev
              ((M file.dev).store file.fPos.toNat (buf.take reply.retval.toNat))
          else M
      | none => M
  | _ => M

theorem Contents.after_open_of_trims (M : Contents) (s : State) (minor : ℕ) {flags : ℕ} (env : Env)
    (hflags : writeOnly flags = true) :
    M.after s (.open minor flags env) ⟨0, []⟩ = Function.update M minor .empty :=
  if_pos ⟨rfl, hflags⟩

theorem Contents.after_open_of_not (M : Contents) (s : State) (minor : ℕ) {flags : ℕ} (env : Env)
    {reply : Reply} (hnot : ¬ (reply.retval = 0 ∧ writeOnly flags = true)) :
    M.after s (.open minor flags env) reply = M :=
  if_neg hnot

theorem Contents.after_write_of_neg (M : Contents) (s : State) (fd : ℕ) (buf : List UInt8)
    (env : Env) {reply : Reply} (hneg : reply.retval < 0) :
    M.after s (.write fd buf env) reply = M := by
  simp only [Contents.after, if_neg (not_le.mpr hneg)]
  split <;> rfl

theorem Contents.after_write (M : Contents) {s : State} {fd : ℕ} {file : File}
    (hfile : s.files[fd]? = some file) {p k : ℕ} (hp : file.fPos = p) (buf : List UInt8)
    (env : Env) {reply : Reply} (hk : reply.retval = k) :
    M.after s (.write fd buf env) reply =
      Function.update M file.dev ((M file.dev).store p (buf.take k)) := by
  simp only [Contents.after, hfile, hk, hp, Int.toNat_natCast]
  rw [if_pos (Int.natCast_nonneg k)]

/-- One call, with what is known. -/
def ghostCall (x : State × Contents) (c : Call) : Except Fault (State × Contents) :=
  (x.1.call c).map fun r => (r.2, x.2.after x.1 c r.1)

/-- The calls of the contract: no bad user pages, positions whose item number fits an
`int`, and parameters that a trim can use. -/
def Admissible (s : State) : Call → Prop
  | .open minor flags env => Trims s minor flags env → s.globals.Usable
  | .read fd _ env => env.fault = none ∧
      ∀ q ∈ s.lookup fd, q.1.fPos / (q.2.quantum * q.2.qset) < 2147483648
  | .write fd _ env => env.fault = none ∧
      ∀ q ∈ s.lookup fd, q.1.fPos / (q.2.quantum * q.2.qset) < 2147483648
  | .llseek .. => True
  | .ioctl .. => True

instance (s : State) : ∀ c, Decidable (Admissible s c)
  | .open .. | .read .. | .write .. | .llseek .. | .ioctl .. => by
      unfold Admissible
      infer_instance

/-! ## The contract -/

/-- File `fd` is open on device `i` at position `p`, and the device has `size` bytes. -/
def At (s : State) (fd i p size : ℕ) : Prop :=
  s.files[fd]? = some ⟨i, p⟩ ∧ ∃ dev, s.devices[i]? = some dev ∧ dev.size = size

/-- No other file and no other device is affected. -/
def SameElsewhere (s s' : State) (fd i : ℕ) : Prop :=
  (∀ g ≠ fd, s'.files[g]? = s.files[g]?) ∧ ∀ j ≠ i, s'.devices[j]? = s.devices[j]?

/-- A read of `count` bytes at position `p` that delivers `k`: they are what is
known there, and there is at least one unless nothing is known of the first. -/
structure ReadCorrect (m : SparseFile UInt8) (count p size k : ℕ) (copied : List UInt8) :
    Prop where
  le_count : k ≤ count
  le_size : p + k ≤ max p size
  length : copied.length = k
  bytes : ∀ j < k, ∀ b, m (p + j) = some b → copied[j]? = some b
  progress : k = 0 → count = 0 ∨ m p = none

/-- The error of a write for which the kernel has no memory. -/
def State.shortage (s : State) : Call → Option ℤ
  | .write fd _ env =>
      match s.lookup fd with
      | some (file, dev) =>
          if Supplied s.heap (missingAt s.heap dev file.fPos.toNat) env.answers then none
          else some ENOMEM
      | none => none
  | _ => none

/-- Why a call fails, if it does: it does not get to its device, or there is no memory for
it. -/
def State.failure (s : State) (c : Call) : Option ℤ := (s.refusal c).or (s.shortage c)

/-- What has to fail does, with its error, and nothing else fails. -/
def Excused (failure : Option ℤ) (reply : Reply) : Prop :=
  match failure with
  | some e => reply.retval = -e
  | none => 0 ≤ reply.retval

/-- What a call does, as its caller sees it. -/
def Contract (s : State) (M : Contents) (c : Call) (reply : Reply) (s' : State) : Prop :=
  match c with
  | .open minor flags _ => Excused (s.failure c) reply ∧
      (reply.retval < 0 ∧ s' = s ∨
        reply.retval = 0 ∧ s'.files = s.files ++ [⟨minor, 0⟩] ∧
          if writeOnly flags then
            (∀ dev, s'.devices[minor]? = some dev → dev.size = 0) ∧
              ∀ j ≠ minor, s'.devices[j]? = s.devices[j]?
          else s'.devices = s.devices)
  | .read fd count _ => Excused (s.failure c) reply ∧ ∀ i p size, At s fd i p size →
      SameElsewhere s s' fd i ∧
        (reply.retval < 0 ∧ reply.copied = [] ∧ At s' fd i p size ∨
          ∃ k : ℕ, reply.retval = k ∧ At s' fd i (p + k) size ∧
            ReadCorrect (M i) count p size k reply.copied)
  | .write fd buf _ => Excused (s.failure c) reply ∧ ∀ i p size, At s fd i p size →
      SameElsewhere s s' fd i ∧
        (reply.retval < 0 ∧ At s' fd i p size ∧ M.after s c reply = M ∨
          ∃ k : ℕ, reply.retval = k ∧ k ≤ buf.length ∧ (k = 0 → buf = []) ∧
            At s' fd i (p + k) (max size (p + k)) ∧
            (∀ y, M.after s c reply i y =
              if p ≤ y ∧ y < p + k then buf[y - p]? else M i y) ∧
            ∀ j ≠ i, M.after s c reply j = M j)
  | .llseek .. => s'.devices = s.devices
  | .ioctl .. => s'.devices = s.devices ∧ s'.files = s.files

/-- The call returns, and does what the contract says. -/
def Correct (x : State × Contents) (c : Call) : Prop :=
  ∃ reply s', x.1.call c = .ok (reply, s') ∧ Contract x.1 x.2 c reply s'

section Failure

variable {s : State}

theorem State.failure_of_refusal {c : Call} {e : ℤ} (hrefusal : s.refusal c = some e) :
    s.failure c = some e := by
  rw [State.failure, hrefusal, Option.some_or]

theorem State.failure_open {minor flags : ℕ} {env : Env}
    (hrefusal : s.refusal (.open minor flags env) = none) :
    s.failure (.open minor flags env) = none := by
  rw [State.failure, hrefusal, Option.none_or]
  rfl

theorem State.failure_read {fd count : ℕ} {env : Env}
    (hrefusal : s.refusal (.read fd count env) = none) : s.failure (.read fd count env) = none := by
  rw [State.failure, hrefusal, Option.none_or]
  rfl

/-- A write that gets to its device fails exactly if it runs out of memory. -/
theorem State.failure_write {fd : ℕ} {file : File} {dev : ScullDev}
    (hfile : s.files[fd]? = some file) (hdev : s.devices[file.dev]? = some dev) {p : ℕ}
    (hp : file.fPos = p) {buf : List UInt8} {env : Env}
    (hrefusal : s.refusal (.write fd buf env) = none) :
    s.failure (.write fd buf env) =
      if Supplied s.heap (missingAt s.heap dev p) env.answers then none else some ENOMEM := by
  rw [State.failure, hrefusal, Option.none_or]
  simp only [State.shortage, State.lookup_eq_some.mpr ⟨hfile, hdev⟩, hp, Int.toNat_natCast]

theorem State.failure_write_eq_none {fd : ℕ} {file : File} {dev : ScullDev}
    (hfile : s.files[fd]? = some file) (hdev : s.devices[file.dev]? = some dev) {p : ℕ}
    (hp : file.fPos = p) {buf : List UInt8} {env : Env}
    (hrefusal : s.refusal (.write fd buf env) = none)
    (supplied : Supplied s.heap (missingAt s.heap dev p) env.answers) :
    s.failure (.write fd buf env) = none := by
  rw [State.failure_write hfile hdev hp hrefusal, if_pos supplied]

theorem Excused.of_none {failure : Option ℤ} {reply : Reply} (hfailure : failure = none)
    (hretval : 0 ≤ reply.retval) : Excused failure reply := by
  rw [hfailure]
  exact hretval

theorem Excused.of_refused {c : Call} {reply : Reply}
    (hrefusal : s.refusal c = some (-reply.retval)) : Excused (s.failure c) reply := by
  rw [State.failure_of_refusal hrefusal]
  exact (neg_neg _).symm

theorem Excused.of_supplied {P : Prop} [Decidable P] {reply : Reply}
    (hsupplied : reply.retval ≠ -ENOMEM ↔ P) (hretval : reply.retval ≠ -ENOMEM → 0 ≤ reply.retval) :
    Excused (if P then none else some ENOMEM) reply := by
  by_cases h : P
  · rw [if_pos h]
    exact hretval (hsupplied.mpr h)
  · rw [if_neg h]
    exact not_ne_iff.mp (mt hsupplied.mp h)

theorem Excused.write {fd : ℕ} {file : File} {dev : ScullDev} (hfile : s.files[fd]? = some file)
    (hdev : s.devices[file.dev]? = some dev) {p : ℕ} (hp : file.fPos = p) {buf : List UInt8}
    {env : Env} {reply : Reply} (hrefusal : s.refusal (.write fd buf env) = none)
    (hsupplied : reply.retval ≠ -ENOMEM ↔
      Supplied s.heap (missingAt s.heap dev p) env.answers)
    (hretval : reply.retval ≠ -ENOMEM → 0 ≤ reply.retval) :
    Excused (s.failure (.write fd buf env)) reply := by
  rw [State.failure_write hfile hdev hp hrefusal]
  exact .of_supplied hsupplied hretval

end Failure

/-! ## One device -/

section Device

variable {G : Geometry} {h : Heap Block} {dev : ScullDev} {L L' : Layout G}
  {m : SparseFile UInt8}

/-- The device holds what is known of it, within its size, and its list is long
enough for that size. -/
structure Holds (L : Layout G) (dev : ScullDev) (m : SparseFile UInt8) : Prop where
  covers : dev.size ≤ L.nodes.length * G.itemsize
  lt_size : ∀ x ∈ m.dom, x < dev.size
  bytes : m.Sub L.byte

/-- The positions of one quantum. -/
theorem Geometry.quantum_pos_iff (G : Geometry) {p x : ℕ} :
    x / G.quantum = p / G.quantum ∧ p % G.quantum ≤ x % G.quantum ↔
      p ≤ x ∧ x < p + G.room p := by
  have hpos := G.quantum_pos
  have hroom := G.room_le p
  have hp := Nat.div_add_mod p G.quantum
  have hx := Nat.div_add_mod x G.quantum
  have hlt := Nat.mod_lt x hpos
  constructor
  · rintro ⟨hdiv, hle⟩
    rw [hdiv] at hx
    omega
  · rintro ⟨hle, hlt'⟩
    have hdiv : x / G.quantum = p / G.quantum := by
      apply Nat.div_eq_of_lt_le
      · rw [Nat.mul_comm]
        omega
      · rw [Nat.succ_mul, Nat.mul_comm]
        omega
    rw [hdiv] at hx
    exact ⟨hdiv, by omega⟩

/-- A byte of the quantum of `p`, at or behind `p`. -/
theorem Layout.byte_add {p j : ℕ} {a : Addr} {bytes : List UInt8}
    (hslot : L.slot (p / G.quantum) = some (a, bytes)) (hj : j < G.room p) :
    L.byte (p + j) = bytes[p % G.quantum + j]? := by
  obtain ⟨hdiv, hmod⟩ := G.quantum_pos_iff.mpr (show p ≤ p + j ∧ p + j < p + G.room p by omega)
  have hp := Nat.div_add_mod p G.quantum
  have hx := Nat.div_add_mod (p + j) G.quantum
  rw [hdiv] at hx
  rw [Layout.byte, hdiv, hslot, Option.bind_some]
  congr 1
  omega

/-- The bytes of a device after `data` has gone into the quantum of `p`, which held
`old` before. -/
theorem Layout.byte_of_slot_update {p : ℕ} {a : Addr} {old data : List UInt8}
    (hslot : L'.slot = Function.update L.slot (p / G.quantum)
      (some (a, patch old (p % G.quantum) data)))
    (hold : old.length = G.quantum) (hdata : data.length ≤ G.room p) (x : ℕ) :
    L'.byte x =
      if p ≤ x ∧ x < p + data.length then data[x - p]?
      else if x / G.quantum = p / G.quantum then old[x % G.quantum]? else L.byte x := by
  have hroom := G.room_le p
  have hfits : p % G.quantum + data.length ≤ old.length := by omega
  have hp := Nat.div_add_mod p G.quantum
  have hx := Nat.div_add_mod x G.quantum
  by_cases hdiv : x / G.quantum = p / G.quantum
  · rw [Layout.byte, hslot, hdiv, Function.update_self, Option.bind_some, getElem?_patch hfits,
      if_pos rfl]
    rw [hdiv] at hx
    split_ifs with h₁ h₂ h₂
    · congr 1
      omega
    · omega
    · omega
    · rfl
  · have houtside : ¬ (p ≤ x ∧ x < p + data.length) := fun hin =>
      hdiv (G.quantum_pos_iff.mpr (by omega)).1
    rw [Layout.byte, hslot, Function.update_of_ne hdiv, if_neg houtside, if_neg hdiv]
    rfl

/-- **A read agrees with what is known.** -/
theorem Holds.read (holds : Holds L dev m) {p : ℕ} (hreach : G.Reaches p) (count : ℕ) {env : Env}
    (hfault : env.fault = none) :
    ∃ k : ℕ, ∃ copied, L.readOut h dev count p env = ⟨k, ((p + k : ℕ) : ℤ), copied, dev, h⟩ ∧
      ReadCorrect m count p dev.size k copied ∧ ∀ j < k, copied[j]? = L.byte (p + j) := by
  have hnone : L.byte p = none ∨ dev.size ≤ p → m p = none := by
    intro hp
    by_contra hmp
    obtain ⟨b, hb⟩ := Option.ne_none_iff_exists'.mp hmp
    rcases hp with hp | hp
    · rw [holds.bytes p b hb] at hp
      simp at hp
    · exact absurd (holds.lt_size p hmp) (by omega)
  have hempty : m p = none → ReadCorrect m count p dev.size 0 [] ∧
      ∀ j < 0, ([] : List UInt8)[j]? = L.byte (p + j) := fun hmp =>
    ⟨⟨Nat.zero_le _, by omega, rfl, fun j hj => absurd hj (by omega), fun _ => .inr hmp⟩,
      fun j hj => absurd hj (by omega)⟩
  unfold Layout.readOut
  rw [hreach.quantumAt]
  by_cases hend : dev.size ≤ p
  · rw [if_pos hend]
    exact ⟨0, [], rfl, hempty (hnone (.inr hend))⟩
  rw [if_neg hend]
  cases hslot : L.slot (p / G.quantum) with
  | none => exact ⟨0, [], rfl, hempty (hnone (.inl (by rw [Layout.byte, hslot, Option.bind_none])))⟩
  | some q =>
      obtain ⟨a, bytes⟩ := q
      have hlength := L.slot_length hslot
      have hroom := G.room_le p
      have hpos := G.room_pos p
      set n := min (min count (dev.size - p)) (G.room p) with hn
      have hcopied : ((bytes.drop (p % G.quantum)).take n).length = n := by
        rw [List.length_take, List.length_drop]
        omega
      dsimp only
      rw [hfault, copyToUser_none, if_neg (by simp)]
      have hbytes : ∀ j < n, ((bytes.drop (p % G.quantum)).take n)[j]? = L.byte (p + j) := by
        intro j hj
        rw [List.getElem?_take_of_lt hj, List.getElem?_drop, Layout.byte_add hslot (by omega)]
      refine ⟨n, _, rfl, ⟨by omega, by omega, hcopied, ?_, ?_⟩,
        hbytes⟩
      · intro j hj b hb
        rw [hbytes j hj]
        exact holds.bytes _ b hb
      · intro hzero
        left
        omega

/-- A write that runs out of memory, or stores the bytes it reports. -/
theorem Holds.write (holds : Holds L dev m) {p : ℕ} (hreach : G.Reaches p) {buf : List UInt8}
    {env : Env} (hfault : env.fault = none) {out : Out}
    (hnodes : L.nodes.length ≤ L'.nodes.length) (written : Written L L' dev buf p env out) :
    (out.retval = -ENOMEM ∧ out.fPos = p ∧ out.dev.size = dev.size ∧ Holds L' out.dev m) ∨
      ∃ k : ℕ, out.retval = k ∧ k ≤ buf.length ∧ (k = 0 → buf = []) ∧
        out.fPos = ((p + k : ℕ) : ℤ) ∧ out.dev.size = max dev.size (p + k) ∧
        Holds L' out.dev (m.store p (buf.take k)) := by
  have hcovers : dev.size ≤ L'.nodes.length * G.itemsize :=
    holds.covers.trans (Nat.mul_le_mul_right _ hnodes)
  rcases written.of_no_fault hreach hfault with ⟨hretval, hfPos, hsize, hslot⟩ |
    ⟨n, hn, hzero, hretval, hfPos, hsize, hreached, a, old, hbefore, hold, hslot⟩
  · have hbyte : L'.byte = L.byte := by
      funext x
      rw [Layout.byte, Layout.byte, hslot]
    refine .inl ⟨hretval, hfPos, hsize, ?_, ?_, ?_⟩
    · rwa [hsize]
    · rw [hsize]
      exact holds.lt_size
    · rw [hbyte]
      exact holds.bytes
  · have hle : n ≤ buf.length := by omega
    have hroom : n ≤ G.room p := by omega
    have htake : (buf.take n).length = n := List.length_take_of_le hle
    refine .inr ⟨n, hretval, hle, hzero, hfPos, hsize, ?_, ?_, ?_⟩
    · rw [hsize]
      exact max_le hcovers (G.end_le hroom hreached)
    · intro x hx
      rw [SparseFile.mem_dom_store, htake] at hx
      rw [hsize]
      rcases hx with hx | hx
      · omega
      · have := holds.lt_size x hx
        omega
    · intro x b hx
      rw [Layout.byte_of_slot_update hslot hold (by omega)]
      by_cases hin : p ≤ x ∧ x < p + (buf.take n).length
      · rwa [if_pos hin, ← SparseFile.store_of_mem hin]
      · rw [SparseFile.store_of_notMem hin] at hx
        have hbyte := holds.bytes x b hx
        rw [if_neg hin]
        split_ifs with hdiv
        · -- the byte was in the quantum before, so the quantum is not new
          rw [Layout.byte, hdiv] at hbyte
          rcases hbefore with hbefore | hbefore
          · rwa [hbefore, Option.bind_some] at hbyte
          · simp [hbefore] at hbyte
        · exact hbyte

/-- A device without data holds what is known of an empty file. -/
theorem Holds.empty (G : Geometry) (hsize : dev.size = 0) :
    Holds (Layout.empty G) dev .empty where
  covers := by omega
  lt_size := fun x hx => by simp [SparseFile.dom, SparseFile.empty] at hx
  bytes := SparseFile.empty_sub _

end Device

/-! ## The module -/

/-- Every device holds what is known of it. -/
structure Known (s : State) (M : Contents) (own : ℕ → Owned) : Prop where
  inv : Inv s own
  holds : ∀ {i dev}, s.devices[i]? = some dev → Holds (own i).layout dev (M i)

/-- A call made in such a state keeps to the contract and leads to another one. -/
def Keeps (s : State) (M : Contents) (c : Call) : Prop :=
  ∃ reply s', s.call c = .ok (reply, s') ∧ Contract s M c reply s' ∧
    ∃ own', Known s' (M.after s c reply) own'

section Module

variable {s : State} {M : Contents} {own : ℕ → Owned}

/-- One device changes, and what is known of it. -/
theorem Known.update (known : Known s M own) {i : ℕ} (hi : i < s.devices.length)
    {dev : ScullDev} {h : Heap Block} {o : Owned} (howns : Owns h dev o.layout)
    (frame : Frame s.heap (own i).layout.blocks h o.layout.blocks) {files : List File}
    (hfiles : ∀ file ∈ files, file.dev < s.devices.length ∧ 0 ≤ file.fPos)
    {m : SparseFile UInt8} (hholds : Holds o.layout dev m) :
    Known { s with devices := s.devices.set i dev, heap := h, files := files }
      (Function.update M i m) (Function.update own i o) where
  inv := known.inv.update hi howns frame hfiles
  holds := forall_devices_set (fun j d => Holds (own j).layout d (M j))
    (fun j d => Holds (Function.update own i o j).layout d (Function.update M i m j)) hi known.holds
    (by rwa [Function.update_self, Function.update_self])
    fun j hji d hd => by rwa [Function.update_of_ne hji, Function.update_of_ne hji]

/-- No device changes. -/
theorem Known.keep (known : Known s M own) (globals : Globals) {files : List File}
    (hfiles : ∀ file ∈ files, file.dev < s.devices.length ∧ 0 ≤ file.fPos) :
    Known { s with globals := globals, files := files } M own where
  inv := known.inv.keep globals hfiles
  holds := known.holds

/-- The quotient of the contract is the item number. -/
theorem reaches_of_admissible {G : Geometry} {h : Heap Block} {dev : ScullDev} {L : Layout G}
    (owns : Owns h dev L) {p : ℕ} (hp : (p : ℤ) / (dev.quantum * dev.qset) < 2147483648) :
    G.Reaches p := by
  rw [owns.quantum, owns.qset] at hp
  exact_mod_cast hp

theorem At.iff_of_eq {s : State} {fd : ℕ} {file : File} {dev : ScullDev}
    (hfile : s.files[fd]? = some file) (hdev : s.devices[file.dev]? = some dev) {i p size : ℕ} :
    At s fd i p size ↔ file = ⟨i, p⟩ ∧ dev.size = size := by
  unfold At
  rw [hfile, Option.some.injEq]
  constructor
  · rintro ⟨rfl, dev', hdev', hsize⟩
    rw [hdev, Option.some.injEq] at hdev'
    exact ⟨rfl, hdev' ▸ hsize⟩
  · rintro ⟨rfl, hsize⟩
    exact ⟨rfl, dev, hdev, hsize⟩

/-- After a transfer the file and the device are where it left them. -/
theorem At.settle {s : State} {fd : ℕ} {file : File} {dev : ScullDev}
    (hfile : s.files[fd]? = some file) (hdev : s.devices[file.dev]? = some dev) {out : Out}
    {p : ℕ} (hp : out.fPos = p) : At (s.settle fd file out) fd file.dev p out.dev.size := by
  obtain ⟨hfd, -⟩ := List.getElem?_eq_some_iff.mp hfile
  obtain ⟨hi, -⟩ := List.getElem?_eq_some_iff.mp hdev
  refine ⟨?_, out.dev, List.getElem?_set_self hi, rfl⟩
  rw [← hp]
  exact List.getElem?_set_self hfd

theorem SameElsewhere.settle (s : State) (fd : ℕ) (file : File) (out : Out) :
    SameElsewhere s (s.settle fd file out) fd file.dev :=
  ⟨fun _ hg => List.getElem?_set_ne hg.symm, fun _ hj => List.getElem?_set_ne hj.symm⟩

theorem SameElsewhere.refl (s : State) (fd i : ℕ) : SameElsewhere s s fd i :=
  ⟨fun _ _ => rfl, fun _ _ => rfl⟩

/-- A read is refused, or delivers bytes of its device and moves the file. -/
theorem Known.call_read (known : Known s M own) {fd count : ℕ} {env : Env}
    (hadm : Admissible s (.read fd count env)) :
    (∃ retval < 0, s.call (.read fd count env) = .ok (⟨retval, []⟩, s) ∧
        s.refusal (.read fd count env) = some (-retval)) ∨
      ∃ file dev, ∃ p k : ℕ, ∃ copied, s.files[fd]? = some file ∧
        s.devices[file.dev]? = some dev ∧ file.fPos = p ∧
        s.refusal (.read fd count env) = none ∧
        s.call (.read fd count env) =
          .ok (⟨k, copied⟩, s.settle fd file ⟨k, ((p + k : ℕ) : ℤ), copied, dev, s.heap⟩) ∧
        ReadCorrect (M file.dev) count p dev.size k copied ∧
        ∀ j < k, copied[j]? = (own file.dev).layout.byte (p + j) := by
  obtain ⟨hfault, hreach⟩ := hadm
  rcases s.call_read_cases fd count env with
    hrefused | ⟨file, dev, p, hfile, hdev, hp, hsum, hint, hcall⟩
  · exact .inl hrefused
  have owns := known.inv.owns hdev
  have holds := known.holds hdev
  have hreaches := reaches_of_admissible owns
    (hp ▸ hreach (file, dev) (State.lookup_eq_some.mpr ⟨hfile, hdev⟩))
  obtain ⟨k, copied, hout, hcorrect, hbytes⟩ :=
    holds.read (h := s.heap) hreaches count hfault
  rw [scullReadLocked_eq owns holds.covers (fun _ => hreaches) hsum, hout] at hcall
  exact .inr ⟨file, dev, p, k, copied, hfile, hdev, hp,
    State.refuses_eq_none hfile hdev hp hsum hint, hcall, hcorrect, hbytes⟩

theorem Known.read (known : Known s M own) {fd count : ℕ} {env : Env}
    (hadm : Admissible s (.read fd count env)) : Keeps s M (.read fd count env) := by
  rcases known.call_read hadm with
    ⟨retval, hneg, hcall, hrefusal⟩ |
    ⟨file, dev, p, k, copied, hfile, hdev, hp, hrefusal, hcall, hcorrect, -⟩
  · exact ⟨_, _, hcall, ⟨.of_refused hrefusal,
      fun i p size hat => ⟨.refl .., .inl ⟨hneg, rfl, hat⟩⟩⟩, own, known⟩
  refine ⟨_, _, hcall, ⟨.of_none (State.failure_read hrefusal) (Int.natCast_nonneg k), ?_⟩,
    Function.update own file.dev (own file.dev), ?_⟩
  · intro i p' size hat
    obtain ⟨rfl, rfl⟩ := (At.iff_of_eq hfile hdev).mp hat
    obtain rfl : p' = p := Int.ofNat.inj hp
    exact ⟨.settle .., .inr ⟨k, rfl, .settle hfile hdev rfl, hcorrect⟩⟩
  · have hknown := known.update (List.getElem?_eq_some_iff.mp hdev).1 (known.inv.owns hdev)
      (.refl _ _) (known.inv.files_set hfile (Int.natCast_nonneg (p + k))) (known.holds hdev)
    rwa [Function.update_eq_self] at hknown

/-- A write is refused, or gives its device another layout and moves the file. -/
theorem Known.call_write (known : Known s M own) {fd : ℕ} {buf : List UInt8} {env : Env}
    (hadm : Admissible s (.write fd buf env)) :
    (∃ retval < 0, s.call (.write fd buf env) = .ok (⟨retval, []⟩, s) ∧
        s.refusal (.write fd buf env) = some (-retval)) ∨
      ∃ file dev, ∃ p : ℕ, ∃ out, ∃ L' : Layout (own file.dev).geometry,
        s.files[fd]? = some file ∧ s.devices[file.dev]? = some dev ∧ file.fPos = p ∧
        s.refusal (.write fd buf env) = none ∧ (own file.dev).geometry.Reaches p ∧
        s.call (.write fd buf env) = .ok (⟨out.retval, []⟩, s.settle fd file out) ∧
        Owns out.heap out.dev L' ∧
        Frame s.heap (own file.dev).layout.blocks out.heap L'.blocks ∧
        (own file.dev).layout.nodes.length ≤ L'.nodes.length ∧
        Written (own file.dev).layout L' dev buf p env out ∧
        (out.retval ≠ -ENOMEM ↔ Supplied s.heap (missingAt s.heap dev p) env.answers) := by
  obtain ⟨-, hreach⟩ := hadm
  rcases s.call_write_cases fd buf env with
    hrefused | ⟨file, dev, p, hfile, hdev, hp, hsum, hint, hcall⟩
  · exact .inl hrefused
  have owns := known.inv.owns hdev
  have hreaches := reaches_of_admissible owns
    (hp ▸ hreach (file, dev) (State.lookup_eq_some.mpr ⟨hfile, hdev⟩))
  obtain ⟨out, L', hout, hcopied, owns', frame, hnodes, written, hsupplied⟩ :=
    scullWriteLocked_spec owns buf hsum env
  rw [← owns.missingAt_eq] at hsupplied
  rw [hout] at hcall
  simp only [Except.map, State.finish, hcopied] at hcall
  exact .inr ⟨file, dev, p, out, L', hfile, hdev, hp,
    State.refuses_eq_none hfile hdev hp hsum hint, hreaches, hcall, owns', frame, hnodes, written,
    hsupplied⟩

theorem Known.write (known : Known s M own) {fd : ℕ} {buf : List UInt8} {env : Env}
    (hadm : Admissible s (.write fd buf env)) : Keeps s M (.write fd buf env) := by
  rcases known.call_write hadm with ⟨retval, hneg, hcall, hrefusal⟩ |
    ⟨file, dev, p, out, L', hfile, hdev, hp, hrefusal, hreaches, hcall, owns', frame, hnodes,
      written, hsupplied⟩
  · have hafter := M.after_write_of_neg s fd buf env
      (show (Reply.mk retval []).retval < 0 from hneg)
    exact ⟨_, _, hcall, ⟨.of_refused hrefusal,
      fun i p size hat => ⟨.refl .., .inl ⟨hneg, hat, hafter⟩⟩⟩, own, by rwa [hafter]⟩
  have hi := (List.getElem?_eq_some_iff.mp hdev).1
  rcases (known.holds hdev).write hreaches hadm.1 hnodes written with
    ⟨hretval, hfPos, hsize, holds'⟩ | ⟨k, hk, hle, hzero, hfPos, hsize, holds'⟩
  · have hneg : out.retval < 0 := by
      rw [hretval]
      decide
    have hafter := M.after_write_of_neg s fd buf env
      (show (Reply.mk out.retval []).retval < 0 from hneg)
    refine ⟨_, _, hcall, ⟨.write hfile hdev hp hrefusal hsupplied (absurd hretval ·), ?_⟩,
      Function.update own file.dev ⟨_, L'⟩, ?_⟩
    · intro i p' size hat
      obtain ⟨rfl, rfl⟩ := (At.iff_of_eq hfile hdev).mp hat
      obtain rfl : p' = p := Int.ofNat.inj hp
      exact ⟨.settle .., .inl ⟨hneg, hsize ▸ .settle hfile hdev hfPos, hafter⟩⟩
    · have hknown := known.update (o := ⟨_, L'⟩) hi owns' frame
        (known.inv.files_set hfile (hfPos.symm ▸ Int.natCast_nonneg p)) holds'
      rw [Function.update_eq_self] at hknown
      rw [hafter]
      exact hknown
  · have hafter := M.after_write hfile hp buf env
      (show (Reply.mk out.retval []).retval = k from hk)
    have hnonneg : 0 ≤ out.retval := hk ▸ Int.natCast_nonneg k
    refine ⟨_, _, hcall, ⟨.write hfile hdev hp hrefusal hsupplied (fun _ => hnonneg), ?_⟩,
      Function.update own file.dev ⟨_, L'⟩, ?_⟩
    · intro i p' size hat
      obtain ⟨rfl, rfl⟩ := (At.iff_of_eq hfile hdev).mp hat
      obtain rfl : p' = p := Int.ofNat.inj hp
      refine ⟨.settle .., .inr ⟨k, hk, hle, hzero, hsize ▸ .settle hfile hdev hfPos, ?_, ?_⟩⟩
      · intro y
        rw [hafter, Function.update_self]
        unfold SparseFile.store
        rw [List.length_take, Nat.min_eq_left hle]
        split_ifs with hy
        · exact List.getElem?_take_of_lt (by omega)
        · rfl
      · intro j hj
        rw [hafter, Function.update_of_ne hj]
    · rw [hafter]
      exact known.update (o := ⟨_, L'⟩) hi owns' frame
        (known.inv.files_set hfile (hfPos.symm ▸ Int.natCast_nonneg (p + k))) holds'

theorem Known.open (known : Known s M own) {minor flags : ℕ} {env : Env}
    (hadm : Admissible s (.open minor flags env)) : Keeps s M (.open minor flags env) := by
  by_cases htrims : Trims s minor flags env
  · have husable := hadm htrims
    obtain ⟨h', hcall, frame⟩ := known.inv.call_open_of_trims htrims
    have hflags := htrims.2.1
    have hopens := State.failure_open (State.refusal_open_of_trims htrims)
    refine ⟨_, _, hcall, ⟨.of_none hopens le_rfl, ?_⟩,
      Function.update own minor (Owned.empty husable.geometry), ?_⟩
    · refine .inr ⟨rfl, rfl, ?_⟩
      rw [if_pos hflags]
      refine ⟨?_, fun j hj => List.getElem?_set_ne hj.symm⟩
      intro dev hdev
      rw [List.getElem?_set_self htrims.1, Option.some.injEq] at hdev
      rw [← hdev]
    · rw [Contents.after_open_of_trims _ _ _ _ hflags]
      exact known.update (o := Owned.empty husable.geometry) htrims.1
        (.of_empty husable.quantum_eq husable.qset_eq rfl)
        (by simpa [Owned.empty] using frame) (known.inv.files_append htrims.1) (.empty _ rfl)
  · rcases State.call_open_of_not_trims htrims with
      ⟨retval, hneg, hcall, hrefusal⟩ | ⟨hminor, hflags, hcall⟩
    · refine ⟨_, _, hcall, ⟨.of_refused hrefusal, .inl ⟨hneg, rfl⟩⟩, own, ?_⟩
      rwa [Contents.after_open_of_not _ _ _ _ (fun h => hneg.ne h.1)]
    · have hopens : s.failure (.open minor flags env) = none :=
        State.failure_open (State.refusal_open_of_not hminor hflags)
      refine ⟨_, _, hcall, ⟨.of_none hopens le_rfl, .inr ⟨rfl, rfl, ?_⟩⟩, own, ?_⟩
      · rw [if_neg (by simp [hflags])]
      · rw [Contents.after_open_of_not _ _ _ _ (by simp [hflags])]
        exact known.keep s.globals (known.inv.files_append hminor)

/-- **Every call of the contract keeps what is known.** -/
theorem Known.keeps (known : Known s M own) {c : Call} (hadm : Admissible s c) :
    Keeps s M c := by
  cases c with
  | «open» minor flags env => exact known.open hadm
  | read fd count env => exact known.read hadm
  | write fd buf env => exact known.write hadm
  | llseek fd off whence =>
      obtain ⟨reply, files, hcall, hfiles⟩ := known.inv.call_llseek fd off whence
      exact ⟨_, _, hcall, rfl, own, known.keep s.globals hfiles⟩
  | ioctl cmd arg env => exact ⟨_, _, rfl, ⟨rfl, rfl⟩, own, known.keep _ known.inv.files⟩

end Module

/-- Nothing is known of the freshly initialised module. -/
theorem Known.init {scullQuantum scullQset : ℤ}
    (husable : (Globals.mk scullQuantum scullQset).Usable) (scullNrDevs : ℕ) :
    Known (scullInit scullQuantum scullQset scullNrDevs) (fun _ => .empty)
      fun _ => Owned.empty husable.geometry where
  inv := .init husable scullNrDevs
  holds := fun {i dev} hi => .empty _ (by
    rw [List.eq_of_mem_replicate (List.mem_of_getElem? hi)])

/-- **A scull device refines a sparse byte file.**  Over every run of calls of the
contract from the freshly initialised module, each call returns and keeps to the
contract. -/
theorem refines_sparseFile {scullQuantum scullQset : ℤ}
    (husable : (Globals.mk scullQuantum scullQset).Usable) (scullNrDevs : ℕ) (calls : List Call)
    (hadm : EveryStep ghostCall (fun x c => Admissible x.1 c)
      (scullInit scullQuantum scullQset scullNrDevs, fun _ => .empty) calls) :
    EveryStep ghostCall Correct
      (scullInit scullQuantum scullQset scullNrDevs, fun _ => .empty) calls := by
  refine hadm.everyStep (Q := fun x => ∃ own, Known x.1 x.2 own) ?_
    ⟨_, Known.init husable scullNrDevs⟩
  rintro ⟨s, M⟩ c ⟨own, known⟩ hc
  obtain ⟨reply, s', hcall, hcontract, own', known'⟩ := known.keeps hc
  refine ⟨⟨reply, s', hcall, hcontract⟩, ?_⟩
  intro x' hx'
  simp only [ghostCall, hcall, Except.map, Except.ok.injEq] at hx'
  exact hx' ▸ ⟨own', known'⟩

/-- A run with a write across a quantum boundary, an allocation that fails, a change
of geometry that a trim puts into effect, and reads in between. -/
theorem refines_sparseFile_run :
    EveryStep ghostCall Correct (scullInit 4 2 1, fun _ => .empty)
      [.open 0 2 {}, .llseek 0 3 0, .write 0 [1, 2] { answers := [some 1, some 2, some 3] },
        .write 0 [2] { answers := [none] }, .llseek 0 0 0, .read 0 9 {},
        .ioctl (Command.tell .qset).code 3 {}, .open 0 1 {}, .read 0 9 {},
        .write 1 [7] { answers := [some 2, some 3, some 1] }] :=
  refines_sparseFile (by decide) 1 _ (by decide)

end KernelTraining.Scull
