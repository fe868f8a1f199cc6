import KernelTraining.Scull.Ownership
import KernelTraining.Scull.Sparse

/-!
# The private devices

`scullpriv` has a device for every terminal: `scull_c_lookfor_device` looks for the one with
the number of the terminal as its key, and allocates it the first time.  It stays in the list
when its files are closed, up to `scull_access_cleanup`, which takes the items out of the
list, trims their devices and frees them.  The rest is copied from the bare device, so a
private device is one of the devices of a `Scull.State`, which they share the allocator of.

What the processes of a terminal write is what they read later, and the other terminals see
nothing of it (`terminals_apart`); and unloading frees all of it (`cleanup_frees_terminals`).

## Strategy

The list is one of addresses, and its items are blocks that have to be in use whenever one of
them is looked at.  `Registered` says that the list goes through the items in use once each,
that they have the devices of the state between them, and that no two are for one terminal;
`lookfor_eq` then turns the loop over the blocks into a search in the list of items, and from
there on the proofs are about items only.  Both invariants below have to get through an
opening, and both take its three ways from `Registered.lookforDevice_cases`.

* **What is known** of a terminal is what is known of its device.  `Sim` carries the contract
  of the bare devices (`Scull.Known`) over to terminals: a transfer keeps to it since the one
  of its device does (`Sim.read`, `Sim.write`), and no other terminal has the same device
  (`othersKeep_of_same`).  A new terminal finds nothing known of it, and its device empty
  (`Sim.add`).
* **When a call fails** is part of the contract (`Module.failure`): an opening fails without a
  terminal, or when the item of a new one cannot be allocated, and in no other case; a
  transfer fails when one of the bare device does.
* **Unloading** does not ask what is known, only that the devices own their data (`Kept`).  So
  it goes through after calls that are outside the contract as well: with copies that fail,
  and at any position.  `foldlM_cleanupItem` compares the loop with the one that cleans up
  the bare devices, and adds what happens to the items.
-/

namespace KernelTraining.Access.Private

open Machine Abstract Scull

/-- `struct scull_listitem`; its device is a number of the state. -/
structure ListItem where
  key : ℕ
  device : ℕ
  deriving DecidableEq

/-- The devices with their files, the items in use, and `scull_c_list` with the newest item
first.  Items and data come from the same allocator, but no pointer to one is ever taken for a
pointer to the other, so each sort of block has a heap of its own. -/
structure Module where
  state : State
  items : Heap ListItem
  list : List Addr

/-- The module has been initialised. -/
def init (scullQuantum scullQset : ℤ) : Module := ⟨scullInit scullQuantum scullQset 0, .empty, []⟩

/-- The items of the list. -/
def Module.entries (x : Module) : List ListItem := x.list.filterMap x.items.get

/-- The loop of `scull_c_lookfor_device`. -/
def lookfor (items : Heap ListItem) (key : ℕ) : List Addr → Except Fault (Option ListItem)
  | [] => .ok none
  | p :: list => do
      let lptr ← load items (some p)
      if lptr.key = key then pure (some lptr) else lookfor items key list

/-- `scull_c_lookfor_device`; nothing if there is no memory for a new item. -/
def scullCLookforDevice (x : Module) (key : ℕ) (answer : Option Addr) :
    Except Fault (Option (ℕ × Module)) := do
  match ← lookfor x.items key x.list with
  | some lptr => pure (some (lptr.device, x))
  | none =>
      let s := x.state
      let device := s.devices.length
      let (lptr, items, _) := kmalloc x.items ⟨key, device⟩ [answer]
      match lptr with
      | none => pure none
      | some lptr => do
          let (dev, h) ← scullTrim s.globals.quantum s.globals.qset s.heap ⟨none, 0, 0, 0⟩
          pure (some (device,
            { state := { s with devices := s.devices ++ [dev], heap := h }
              items := items
              list := lptr :: x.list }))

/-- `scull_c_open`, in a process whose terminal is `tty`, and the new file. -/
def scullCOpen (x : Module) (tty : Option ℕ) (flags : ℕ) (answer : Option Addr) :
    Except Fault (Reply × Module) :=
  match tty with
  | none => .ok (⟨-EINVAL, []⟩, x)
  | some key => do
      match ← scullCLookforDevice x key answer with
      | none => pure (⟨-ENOMEM, []⟩, x)
      | some (device, x) => do
          -- "then, everything else is copied from the bare scull device", the wait for the
          -- semaphore apart: an environment without a signal
          let (reply, s) ← scullOpen x.state device flags {}
          pure (reply, { x with state := s })

/-- A round of the second loop of `scull_access_cleanup`. -/
def cleanupItem (x : Module) (lptr : Addr) : Except Fault Module := do
  let item ← load x.items (some lptr)
  let list := x.list.erase lptr
  match x.state.devices[item.device]? with
  | none => .error .badAccess
  | some dev => do
      let s := x.state
      let (dev, h) ← scullTrim s.globals.quantum s.globals.qset s.heap dev
      let items ← kfree x.items (some lptr)
      pure
        { state := { s with devices := s.devices.set item.device dev, heap := h }
          items := items
          list := list }

/-- The part of `scull_access_cleanup` that is about the private devices. -/
def scullAccessCleanup (x : Module) : Except Fault Module := x.list.foldlM cleanupItem x

/-- An opening, or another call of the bare device. -/
inductive Call where
  | open (tty : Option ℕ) (flags : ℕ) (answer : Option Addr)
  | read (fd count : ℕ) (env : Env)
  | write (fd : ℕ) (buf : List UInt8) (env : Env)
  | llseek (fd : ℕ) (off : ℤ) (whence : ℕ)
  | ioctl (cmd arg : ℕ) (env : IoctlEnv)

/-- A call of the bare device. -/
def Module.bare (x : Module) (c : Scull.Call) : Except Fault (Reply × Module) :=
  (x.state.call c).map fun r => (r.1, { x with state := r.2 })

def Module.call (x : Module) : Call → Except Fault (Reply × Module)
  | .open tty flags answer => scullCOpen x tty flags answer
  | .read fd count env => x.bare (.read fd count env)
  | .write fd buf env => x.bare (.write fd buf env)
  | .llseek fd off whence => x.bare (.llseek fd off whence)
  | .ioctl cmd arg env => x.bare (.ioctl cmd arg env)

/-! ## What the processes of a terminal know -/

/-- What is known of the device of each terminal. -/
abbrev Terminals := ℕ → SparseFile UInt8

/-- The terminal whose device file `fd` is on. -/
def Module.terminal (x : Module) (fd : ℕ) : Option ℕ := do
  let file ← x.state.files[fd]?
  let lptr ← x.entries.find? fun lptr => lptr.device = file.dev
  pure lptr.key

/-- What is known after a call: an opening that trims forgets everything, and a write makes
its bytes known. -/
def Terminals.after (K : Terminals) (x : Module) (c : Call) (reply : Reply) : Terminals :=
  match c with
  | .open (some key) flags _ =>
      if reply.retval = 0 ∧ writeOnly flags then Function.update K key .empty else K
  | .write fd buf _ =>
      match x.terminal fd, x.state.files[fd]? with
      | some key, some file =>
          if 0 ≤ reply.retval then
            Function.update K key ((K key).store file.fPos.toNat (buf.take reply.retval.toNat))
          else K
      | _, _ => K
  | _ => K

/-- One call, with what is known. -/
def ghostCall (x : Module × Terminals) (c : Call) : Except Fault (Module × Terminals) :=
  (x.1.call c).map fun r => (r.2, x.2.after x.1 c r.1)

/-- An opening that makes a new device or trims one finds parameters it can use. -/
def OpensUsable (x : Module) : Call → Prop
  | .open tty flags _ =>
      tty.any (fun key =>
          (x.entries.find? fun lptr => lptr.key = key).isNone || writeOnly flags) = true →
        x.state.globals.Usable
  | _ => True

instance (x : Module) : ∀ c, Decidable (OpensUsable x c)
  | .open .. | .read .. | .write .. | .llseek .. | .ioctl .. => by
      unfold OpensUsable
      infer_instance

/-- The calls of the contract are such openings, and those of the contract of the bare device. -/
def Admissible (x : Module) (c : Call) : Prop :=
  match c with
  | .open .. => OpensUsable x c
  | .read fd count env => Scull.Admissible x.state (.read fd count env)
  | .write fd buf env => Scull.Admissible x.state (.write fd buf env)
  | .llseek .. => True
  | .ioctl .. => True

instance (x : Module) : ∀ c, Decidable (Admissible x c)
  | .open .. | .read .. | .write .. | .llseek .. | .ioctl .. => by
      unfold Admissible
      infer_instance

/-- File `fd` is open on the device of terminal `key` at position `p`, and the device has
`size` bytes. -/
def Module.At (x : Module) (fd key p size : ℕ) : Prop :=
  ∃ i, ⟨key, i⟩ ∈ x.entries ∧ Scull.At x.state fd i p size

/-- The files of the other terminals and their devices are not affected. -/
def OthersKeep (x x' : Module) (key : ℕ) : Prop :=
  ∀ fd other p size, other ≠ key → x.At fd other p size → x'.At fd other p size

/-- Why a call fails, if it does: an opening without a terminal, or without memory for the item
of a new one, or a transfer of the bare device that fails. -/
def Module.failure (x : Module) : Call → Option ℤ
  | .open none _ _ => some EINVAL
  | .open (some key) _ answer =>
      match x.entries.find? fun lptr => lptr.key = key with
      | some _ => none
      | none => if Supplied x.items 1 [answer] then none else some ENOMEM
  | .read fd count env => x.state.failure (.read fd count env)
  | .write fd buf env => x.state.failure (.write fd buf env)
  | .llseek .. => none
  | .ioctl .. => none

/-- What a call does, as its caller sees it. -/
def Contract (x : Module) (K : Terminals) (c : Call) (reply : Reply) (x' : Module) : Prop :=
  match c with
  | .open tty flags _ => Excused (x.failure c) reply ∧
      (reply.retval < 0 ∧ x' = x ∨
        reply.retval = 0 ∧ ∃ key, tty = some key ∧ OthersKeep x x' key ∧
          ∃ size, x'.At x.state.files.length key 0 size ∧
            (writeOnly flags = true → size = 0) ∧
            (writeOnly flags = false → ∀ fd p size', x.At fd key p size' →
              x'.At fd key p size' ∧ size = size'))
  | .read fd count _ => Excused (x.failure c) reply ∧ ∀ key p size, x.At fd key p size →
      OthersKeep x x' key ∧
        (reply.retval < 0 ∧ reply.copied = [] ∧ x'.At fd key p size ∨
          ∃ k : ℕ, reply.retval = k ∧ x'.At fd key (p + k) size ∧
            ReadCorrect (K key) count p size k reply.copied)
  | .write fd buf _ => Excused (x.failure c) reply ∧ ∀ key p size, x.At fd key p size →
      OthersKeep x x' key ∧
        (reply.retval < 0 ∧ x'.At fd key p size ∧ K.after x c reply = K ∨
          ∃ k : ℕ, reply.retval = k ∧ k ≤ buf.length ∧ (k = 0 → buf = []) ∧
            x'.At fd key (p + k) (max size (p + k)) ∧
            K.after x c reply = Function.update K key ((K key).store p (buf.take k)))
  | .llseek .. => x'.state.devices = x.state.devices ∧ x'.entries = x.entries
  | .ioctl .. => x'.state.devices = x.state.devices ∧ x'.state.files = x.state.files ∧
      x'.entries = x.entries

/-- The call returns, and does what the contract says. -/
def Correct (x : Module × Terminals) (c : Call) : Prop :=
  ∃ reply x', x.1.call c = .ok (reply, x') ∧ Contract x.1 x.2 c reply x'

/-! ## The list -/

/-- The list goes through the items in use once, there is one of them for every device, and no
two are for one terminal. -/
structure Registered (x : Module) : Prop where
  nodup : x.list.Nodup
  allocated : ∀ a, x.items.get a ≠ none ↔ a ∈ x.list
  devices : x.entries.map ListItem.device = (List.range x.state.devices.length).reverse
  keys : (x.entries.map ListItem.key).Nodup

/-- The loop finds what is in the list, and looks at items in use only. -/
theorem lookfor_eq {items : Heap ListItem} {list : List Addr}
    (halloc : ∀ a ∈ list, items.get a ≠ none) (key : ℕ) :
    lookfor items key list = .ok ((list.filterMap items.get).find? fun lptr => lptr.key = key) := by
  induction list with
  | nil => rfl
  | cons a list ih =>
      obtain ⟨lptr, hget⟩ := Option.ne_none_iff_exists'.mp (halloc a List.mem_cons_self)
      rw [lookfor, load_eq hget, ok_bind, List.filterMap_cons_some hget, List.find?_cons]
      split_ifs with hkey
      · simp only [hkey, decide_true]
        rfl
      · simp only [hkey, decide_false]
        exact ih fun b hb => halloc b (List.mem_cons_of_mem _ hb)

namespace Registered

variable {x : Module} {key key' i i' : ℕ}

theorem lookfor (registered : Registered x) (key : ℕ) :
    lookfor x.items key x.list = .ok (x.entries.find? fun lptr => lptr.key = key) :=
  lookfor_eq (fun a => (registered.allocated a).mpr) key

theorem device_lt (registered : Registered x) (h : ⟨key, i⟩ ∈ x.entries) :
    i < x.state.devices.length := by
  have hmem : i ∈ x.entries.map ListItem.device := List.mem_map_of_mem h
  rw [registered.devices, List.mem_reverse, List.mem_range] at hmem
  exact hmem

theorem device_inj (registered : Registered x) (h : ⟨key, i⟩ ∈ x.entries)
    (h' : ⟨key', i⟩ ∈ x.entries) : key = key' := by
  have hnodup : (x.entries.map ListItem.device).Nodup := by
    rw [registered.devices]
    exact List.nodup_reverse.mpr List.nodup_range
  exact congrArg ListItem.key (List.inj_on_of_nodup_map hnodup h h' rfl)

theorem key_inj (registered : Registered x) (h : ⟨key, i⟩ ∈ x.entries)
    (h' : ⟨key, i'⟩ ∈ x.entries) : i = i' :=
  congrArg ListItem.device (List.inj_on_of_nodup_map registered.keys h h' rfl)

theorem exists_item (registered : Registered x) (hi : i < x.state.devices.length) :
    ∃ key, ⟨key, i⟩ ∈ x.entries := by
  have hmem : i ∈ x.entries.map ListItem.device := by
    rw [registered.devices, List.mem_reverse, List.mem_range]
    exact hi
  obtain ⟨lptr, hlptr, rfl⟩ := List.mem_map.mp hmem
  exact ⟨lptr.key, hlptr⟩

/-- The list does not change with the files and the data. -/
theorem keep (registered : Registered x) {s' : State}
    (hlength : s'.devices.length = x.state.devices.length) :
    Registered { x with state := s' } where
  nodup := registered.nodup
  allocated := registered.allocated
  devices := by
    rw [hlength]
    exact registered.devices
  keys := registered.keys

/-- The file is one of the terminal whose item has its device. -/
theorem terminal_eq (registered : Registered x) (h : ⟨key, i⟩ ∈ x.entries) {fd : ℕ} {p : ℤ}
    (hfile : x.state.files[fd]? = some ⟨i, p⟩) : x.terminal fd = some key := by
  have hfind : ∃ lptr, (x.entries.find? fun lptr => lptr.device = i) = some lptr := by
    rw [← Option.isSome_iff_exists, List.find?_isSome]
    exact ⟨_, h, by simp⟩
  obtain ⟨⟨key', i'⟩, hlptr⟩ := hfind
  have hdevice : i' = i := by simpa using List.find?_some hlptr
  subst hdevice
  have hkey := registered.device_inj h (List.mem_of_find?_eq_some hlptr)
  simp only [Module.terminal, hfile, Option.bind_eq_bind, Option.bind_some, hlptr, hkey]
  rfl

end Registered

/-! ## The devices hold what is known -/

/-- An entry of a list with one more at the end. -/
theorem getElem?_concat_cases {α : Type*} {xs : List α} {new entry : α} {i : ℕ}
    (hi : (xs ++ [new])[i]? = some entry) :
    xs[i]? = some entry ∧ i ≠ xs.length ∨ i = xs.length ∧ entry = new := by
  rcases Nat.lt_trichotomy i xs.length with h | rfl | h
  · rw [List.getElem?_append_left h] at hi
    exact .inl ⟨hi, h.ne⟩
  · rw [List.getElem?_concat_length] at hi
    exact .inr ⟨rfl, (Option.some.inj hi).symm⟩
  · rw [List.getElem?_eq_none (by rw [List.length_append, List.length_singleton]; omega)] at hi
    cases hi

/-- A new device owns nothing. -/
theorem inv_add {s : State} {own : ℕ → Owned} (inv : Inv s own) (husable : s.globals.Usable) :
    Inv { s with devices := s.devices ++ [⟨none, s.globals.quantum, s.globals.qset, 0⟩] }
      (Function.update own s.devices.length (Owned.empty husable.geometry)) := by
  have hlt : ∀ {i : ℕ}, i < s.devices.length → i ≠ s.devices.length := fun h => h.ne
  have hempty : (Owned.empty husable.geometry).layout.blocks = ∅ := by simp [Owned.empty]
  refine ⟨?_, ?_, ?_, ?_⟩
  · intro i dev hi
    rcases getElem?_concat_cases hi with ⟨hold, hne⟩ | ⟨rfl, rfl⟩
    · rw [Function.update_of_ne hne]
      exact inv.owns hold
    · rw [Function.update_self]
      exact .of_empty husable.quantum_eq husable.qset_eq rfl
  · intro i j hi hj hne a ha
    rw [List.length_append, List.length_singleton] at hi hj
    by_cases hinew : i = s.devices.length
    · rw [hinew, Function.update_self, hempty] at ha
      cases ha
    · rw [Function.update_of_ne hinew] at ha
      by_cases hjnew : j = s.devices.length
      · rw [hjnew, Function.update_self, hempty]
        exact Set.notMem_empty a
      · rw [Function.update_of_ne hjnew]
        exact inv.apart (by omega) (by omega) hne a ha
  · intro a ha
    obtain ⟨i, hi, hmem⟩ := inv.used ha
    refine ⟨i, ?_, by rwa [Function.update_of_ne (hlt hi)]⟩
    rw [List.length_append]
    omega
  · intro file hfile
    obtain ⟨hdev, hpos⟩ := inv.files file hfile
    refine ⟨?_, hpos⟩
    rw [List.length_append]
    omega

/-- Nothing is known of a new device. -/
theorem known_add {s : State} {M : Contents} {own : ℕ → Owned} (known : Known s M own)
    (husable : s.globals.Usable) :
    Known { s with devices := s.devices ++ [⟨none, s.globals.quantum, s.globals.qset, 0⟩] }
      (Function.update M s.devices.length .empty)
      (Function.update own s.devices.length (Owned.empty husable.geometry)) where
  inv := inv_add known.inv husable
  holds := by
    intro i dev hi
    rcases getElem?_concat_cases hi with ⟨hold, hne⟩ | ⟨rfl, rfl⟩
    · rw [Function.update_of_ne hne, Function.update_of_ne hne]
      exact known.holds hold
    · rw [Function.update_self, Function.update_self]
      exact .empty _ rfl

/-- The devices hold what is known of the terminals. -/
structure Sim (x : Module) (K : Terminals) (M : Contents) (own : ℕ → Owned) : Prop where
  known : Known x.state M own
  registered : Registered x
  items : ∀ key i, ⟨key, i⟩ ∈ x.entries → K key = M i
  others : ∀ key, (∀ i, ⟨key, i⟩ ∉ x.entries) → K key = .empty

/-- A call made in such a state keeps to the contract and leads to another one. -/
def Keeps (x : Module) (K : Terminals) (c : Call) : Prop :=
  ∃ reply x', x.call c = .ok (reply, x') ∧ Contract x K c reply x' ∧
    ∃ M own, Sim x' (K.after x c reply) M own

section Steps

variable {x : Module} {K : Terminals} {M : Contents} {own : ℕ → Owned}

theorem othersKeep_of_same {s' : State} {key i fd : ℕ} (registered : Registered x)
    (hitem : ⟨key, i⟩ ∈ x.entries) {p size : ℕ} (hat : x.At fd key p size)
    (hsame : SameElsewhere x.state s' fd i) : OthersKeep x { x with state := s' } key := by
  intro fd' other p' size' hne ⟨j, hj, hfile, dev, hdev, hsize⟩
  obtain ⟨i', hi', hfile', -⟩ := hat
  obtain rfl := registered.key_inj hitem hi'
  have hji : j ≠ i := by
    rintro rfl
    exact hne (registered.device_inj hj hitem)
  have hfd : fd' ≠ fd := by
    rintro rfl
    rw [hfile] at hfile'
    exact hji (congrArg File.dev (Option.some.inj hfile'))
  exact ⟨j, hj, (hsame.1 fd' hfd).trans hfile, dev, (hsame.2 j hji).trans hdev, hsize⟩

/-- The ghost of the terminals follows the ghost of the devices. -/
theorem Sim.update (sim : Sim x K M own) {key i : ℕ} (hitem : ⟨key, i⟩ ∈ x.entries) {s' : State}
    {m : SparseFile UInt8} {own' : ℕ → Owned} (known : Known s' (Function.update M i m) own')
    (hlength : s'.devices.length = x.state.devices.length) :
    Sim { x with state := s' } (Function.update K key m) (Function.update M i m) own' where
  known := known
  registered := sim.registered.keep hlength
  items := by
    intro key' j hj
    by_cases hkey : key' = key
    · subst hkey
      obtain rfl := sim.registered.key_inj hitem hj
      rw [Function.update_self, Function.update_self]
    · have hji : j ≠ i := by
        rintro rfl
        exact hkey (sim.registered.device_inj hj hitem)
      rw [Function.update_of_ne hkey, Function.update_of_ne hji]
      exact sim.items key' j hj
  others := by
    intro key' hnone
    have hkey : key' ≠ key := by
      rintro rfl
      exact hnone i hitem
    rw [Function.update_of_ne hkey]
    exact sim.others key' hnone

/-- Nothing is learnt. -/
theorem Sim.keep (sim : Sim x K M own) {s' : State} {own' : ℕ → Owned} (known : Known s' M own')
    (hlength : s'.devices.length = x.state.devices.length) :
    Sim { x with state := s' } K M own' where
  known := known
  registered := sim.registered.keep hlength
  items := sim.items
  others := sim.others

/-- The opening of a device that is in the list. -/
theorem Sim.open (sim : Sim x K M own) {key i : ℕ} (hitem : ⟨key, i⟩ ∈ x.entries) (flags : ℕ)
    (husable : writeOnly flags = true → x.state.globals.Usable) :
    ∃ s', scullOpen x.state i flags {} = .ok (⟨0, []⟩, s') ∧
      s'.files = x.state.files ++ [⟨i, 0⟩] ∧ s'.devices.length = x.state.devices.length ∧
      (∀ j ≠ i, s'.devices[j]? = x.state.devices[j]?) ∧
      (if writeOnly flags then ∀ dev, s'.devices[i]? = some dev → dev.size = 0
        else s'.devices = x.state.devices) ∧
      ∃ M' own', Sim { x with state := s' }
        (if writeOnly flags then Function.update K key .empty else K) M' own' := by
  have hi := sim.registered.device_lt hitem
  by_cases hflags : writeOnly flags = true
  · have htrims : Trims x.state i flags {} := ⟨hi, hflags, rfl⟩
    have hadm : Scull.Admissible x.state (.open i flags {}) := fun _ => husable hflags
    have hknown := sim.known.open hadm
    obtain ⟨reply, s', hcall, -, own', known'⟩ := hknown
    obtain ⟨h', hopen, -⟩ := sim.known.inv.call_open_of_trims htrims
    obtain ⟨rfl, rfl⟩ := Prod.mk.inj (Except.ok.inj (hcall.symm.trans hopen))
    rw [Contents.after_open_of_trims _ _ _ _ hflags] at known'
    refine ⟨_, hopen, rfl, List.length_set, fun j hj => List.getElem?_set_ne hj.symm, ?_,
      Function.update M i .empty, own', ?_⟩
    · rw [if_pos hflags]
      intro dev hdev
      rw [List.getElem?_set_self hi] at hdev
      exact Option.some.inj hdev ▸ rfl
    · rw [if_pos hflags]
      exact sim.update hitem known' List.length_set
  · have htrims : ¬ Trims x.state i flags {} := fun h => hflags h.2.1
    rcases State.call_open_of_not_trims htrims with ⟨retval, hneg, hopen, -⟩ | ⟨-, -, hopen⟩
    · -- the device is there, so it is not refused
      have hdev : x.state.devices[i]? = some x.state.devices[i] := List.getElem?_eq_getElem hi
      simp only [State.call, scullOpen, hdev, hflags, Bool.false_eq_true, if_false] at hopen
      have hzero := congrArg Reply.retval (Prod.mk.inj (Except.ok.inj hopen)).1
      exact absurd hneg (by rw [← show (0 : ℤ) = retval from hzero]; decide)
    · refine ⟨_, hopen, rfl, rfl, fun _ _ => rfl, ?_, M, own, ?_⟩
      · rw [if_neg hflags]
      · rw [if_neg hflags]
        exact sim.keep (sim.known.keep _ (sim.known.inv.files_append hi)) rfl

/-- The module with a device for a new terminal, whose item is at `lptr`. -/
def Module.add (x : Module) (key : ℕ) (lptr : Addr) : Module where
  state := { x.state with
    devices := x.state.devices ++ [⟨none, x.state.globals.quantum, x.state.globals.qset, 0⟩] }
  items := x.items.set lptr ⟨key, x.state.devices.length⟩
  list := lptr :: x.list

theorem Registered.entries_add (registered : Registered x) (key : ℕ) {lptr : Addr}
    (hfree : x.items.get lptr = none) :
    (x.add key lptr).entries = ⟨key, x.state.devices.length⟩ :: x.entries := by
  have hrest : x.list.filterMap (x.items.set lptr ⟨key, x.state.devices.length⟩).get =
      x.list.filterMap x.items.get := by
    refine List.filterMap_congr fun a ha => Heap.get_set_ne _ _ ?_
    rintro rfl
    exact (registered.allocated a).mpr ha hfree
  rw [Module.entries, Module.add, List.filterMap_cons_some (Heap.get_set_self _ _ _), hrest]
  rfl

theorem Registered.add (registered : Registered x) {key : ℕ} (hnew : ∀ i, ⟨key, i⟩ ∉ x.entries)
    {lptr : Addr} (hfree : x.items.get lptr = none) : Registered (x.add key lptr) where
  nodup := by
    refine List.nodup_cons.mpr ⟨?_, registered.nodup⟩
    rw [← registered.allocated, not_ne_iff]
    exact hfree
  allocated := by
    intro a
    simp only [Module.add, Heap.get_set, List.mem_cons, ← registered.allocated]
    by_cases ha : a = lptr <;> simp [ha]
  devices := by
    rw [registered.entries_add key hfree, List.map_cons, registered.devices, Module.add,
      List.length_append, List.length_singleton, List.range_succ, List.reverse_append]
    rfl
  keys := by
    rw [registered.entries_add key hfree, List.map_cons, List.nodup_cons]
    refine ⟨?_, registered.keys⟩
    intro hkey
    obtain ⟨⟨key', i⟩, hmem, rfl⟩ := List.mem_map.mp hkey
    exact hnew i hmem

theorem find?_key {list : List ListItem} {key : ℕ} {lptr : ListItem}
    (h : (list.find? fun lptr => lptr.key = key) = some lptr) : ⟨key, lptr.device⟩ ∈ list := by
  have hkey : lptr.key = key := by simpa using List.find?_some h
  subst hkey
  exact List.mem_of_find?_eq_some h

/-- The three ways through `scull_c_lookfor_device`: the terminal is in the list, or there is no
memory for its item, or it is new. -/
theorem Registered.lookforDevice_cases (registered : Registered x) (key : ℕ)
    (answer : Option Addr) :
    (∃ lptr, (x.entries.find? fun lptr => lptr.key = key) = some lptr ∧
        ⟨key, lptr.device⟩ ∈ x.entries ∧
        scullCLookforDevice x key answer = .ok (some (lptr.device, x))) ∨
      (x.entries.find? fun lptr => lptr.key = key) = none ∧ (∀ i, ⟨key, i⟩ ∉ x.entries) ∧
        (¬ Supplied x.items 1 [answer] ∧ scullCLookforDevice x key answer = .ok none ∨
          Supplied x.items 1 [answer] ∧ ∃ lptr, x.items.get lptr = none ∧
            scullCLookforDevice x key answer =
              .ok (some (x.state.devices.length, x.add key lptr))) := by
  have hlookfor := registered.lookfor key
  cases hfind : x.entries.find? fun lptr => lptr.key = key with
  | some lptr =>
      rw [hfind] at hlookfor
      refine .inl ⟨lptr, rfl, find?_key hfind, ?_⟩
      rw [scullCLookforDevice, hlookfor]
      rfl
  | none =>
      rw [hfind] at hlookfor
      refine .inr ⟨rfl, ?_, ?_⟩
      · intro i hmem
        have hne := List.find?_eq_none.mp hfind _ hmem
        simp at hne
      · rcases kmalloc_cases x.items ⟨key, x.state.devices.length⟩ [answer] with
          ⟨rest, hmalloc⟩ | ⟨lptr, rest, hfree, hmalloc⟩
        · refine .inl ⟨not_supplied_of_kmalloc_none hmalloc 0, ?_⟩
          simp only [scullCLookforDevice, hlookfor, ok_bind, hmalloc]
          rfl
        · refine .inr ⟨(supplied_of_kmalloc_some hmalloc 0).mpr trivial, lptr, hfree, ?_⟩
          simp only [scullCLookforDevice, hlookfor, hmalloc, scullTrim, trimLoop, ok_bind,
            pure_bind]
          rfl

/-- An opening opens the device that was found. -/
theorem call_open_eq {x y : Module} {key i flags : ℕ} {answer : Option Addr}
    (hlookfor : scullCLookforDevice x key answer = .ok (some (i, y))) {reply : Reply} {s' : State}
    (hopen : scullOpen y.state i flags {} = .ok (reply, s')) :
    x.call (.open (some key) flags answer) = .ok (reply, { y with state := s' }) := by
  simp only [Module.call, scullCOpen, hlookfor, ok_bind, hopen]
  rfl

/-- Without memory for an item, nothing is opened. -/
theorem call_open_none {x : Module} {key flags : ℕ} {answer : Option Addr}
    (hlookfor : scullCLookforDevice x key answer = .ok none) :
    x.call (.open (some key) flags answer) = .ok (⟨-ENOMEM, []⟩, x) := by
  simp only [Module.call, scullCOpen, hlookfor, ok_bind]
  rfl

/-- A new terminal: nothing was known of it, and its device is empty. -/
theorem Sim.add (sim : Sim x K M own) {key : ℕ} (hnew : ∀ i, ⟨key, i⟩ ∉ x.entries) {lptr : Addr}
    (hfree : x.items.get lptr = none) (husable : x.state.globals.Usable) :
    ∃ own', Sim (x.add key lptr) K (Function.update M x.state.devices.length .empty) own' := by
  refine ⟨_, known_add sim.known husable, sim.registered.add hnew hfree, ?_, ?_⟩
  · intro key' i hi
    rw [sim.registered.entries_add key hfree] at hi
    rcases List.mem_cons.mp hi with hnew' | hold
    · obtain ⟨rfl, rfl⟩ := ListItem.mk.inj hnew'
      rw [Function.update_self]
      exact sim.others key' hnew
    · rw [Function.update_of_ne (sim.registered.device_lt hold).ne]
      exact sim.items key' i hold
  · intro key' hnone
    rw [sim.registered.entries_add key hfree] at hnone
    exact sim.others key' fun i hi => hnone i (List.mem_cons_of_mem _ hi)

/-- What the opening of a device says to the terminals. -/
theorem contract_open {x y : Module} {s' : State} {key i flags : ℕ} {answer : Option Addr}
    (hfailure : x.failure (.open (some key) flags answer) = none) (registered : Registered y)
    (hitem : ⟨key, i⟩ ∈ y.entries)
    (hfiles : s'.files = x.state.files ++ [⟨i, 0⟩]) (hi : i < s'.devices.length)
    (hlist : ∀ lptr ∈ x.entries, lptr ∈ y.entries)
    (hothers : ∀ j < x.state.devices.length, j ≠ i → s'.devices[j]? = x.state.devices[j]?)
    (htrims : writeOnly flags = true → ∀ dev, s'.devices[i]? = some dev → dev.size = 0)
    (hkeeps : writeOnly flags = false → ∀ dev, x.state.devices[i]? = some dev →
      s'.devices[i]? = some dev) :
    Contract x K (.open (some key) flags answer) ⟨0, []⟩ { y with state := s' } := by
  have hdev : s'.devices[i]? = some s'.devices[i] := List.getElem?_eq_getElem hi
  have hold : ∀ {fd : ℕ} {file : File}, x.state.files[fd]? = some file →
      s'.files[fd]? = some file := by
    intro fd file hfile
    rw [hfiles, List.getElem?_append_left (List.getElem?_eq_some_iff.mp hfile).1]
    exact hfile
  refine ⟨.of_none hfailure le_rfl,
    .inr ⟨rfl, key, rfl, ?_, s'.devices[i].size, ?_, fun h => htrims h _ hdev, ?_⟩⟩
  · intro fd other p size hne ⟨j, hj, hfile, dev, hdev', hsize⟩
    have hji : j ≠ i := by
      rintro rfl
      exact hne (registered.device_inj (hlist _ hj) hitem)
    refine ⟨j, hlist _ hj, hold hfile, dev, ?_, hsize⟩
    rw [hothers j (List.getElem?_eq_some_iff.mp hdev').1 hji]
    exact hdev'
  · refine ⟨i, hitem, ?_, _, hdev, rfl⟩
    rw [hfiles]
    exact List.getElem?_concat_length
  · intro hflags fd p size' ⟨j, hj, hfile, dev, hdev', hsize⟩
    obtain rfl := registered.key_inj hitem (hlist _ hj)
    have hsame := hkeeps hflags dev hdev'
    obtain rfl : s'.devices[i] = dev := Option.some.inj (hdev.symm.trans hsame)
    exact ⟨⟨i, hlist _ hj, hold hfile, _, hdev, hsize⟩, hsize⟩

theorem Sim.call_open (sim : Sim x K M own) {tty : Option ℕ} {flags : ℕ} {answer : Option Addr}
    (hadm : Admissible x (.open tty flags answer)) : Keeps x K (.open tty flags answer) := by
  cases tty with
  | none => exact ⟨_, _, rfl, ⟨rfl, .inl ⟨by decide, rfl⟩⟩, M, own, sim⟩
  | some key =>
      have hafter : K.after x (.open (some key) flags answer) ⟨0, []⟩ =
          if writeOnly flags then Function.update K key .empty else K := by
        simp [Terminals.after]
      rcases sim.registered.lookforDevice_cases key answer with
        ⟨lptr, hfind, hitem, hlookfor⟩ |
        ⟨hfind, hnew, ⟨hshort, hlookfor⟩ | ⟨hsupplied, lptr, hfree, hlookfor⟩⟩
      · have hfailure : x.failure (.open (some key) flags answer) = none := by
          simp only [Module.failure, hfind]
        have hi := sim.registered.device_lt hitem
        obtain ⟨s', hopen, hfiles, hlength, hothers, hself, M', own', sim'⟩ :=
          sim.open hitem flags fun hflags => hadm (by simp [hflags])
        refine ⟨⟨0, []⟩, _, call_open_eq hlookfor hopen, ?_, M', own', hafter ▸ sim'⟩
        refine contract_open hfailure sim.registered hitem hfiles (hlength.symm ▸ hi)
          (fun _ h => h) (fun j _ => hothers j) (fun hflags => ?_) (fun hflags => ?_)
        · rwa [if_pos hflags] at hself
        · rw [if_neg (by simp [hflags])] at hself
          rw [hself]
          exact fun _ h => h
      · have hfailure : x.failure (.open (some key) flags answer) = some ENOMEM := by
          simp only [Module.failure, hfind, if_neg hshort]
        refine ⟨_, x, call_open_none hlookfor, ⟨?_, .inl ⟨by decide, rfl⟩⟩, M, own, ?_⟩
        · rw [hfailure]
          rfl
        · rw [Terminals.after, if_neg (by simp [ENOMEM])]
          exact sim
      · have hfailure : x.failure (.open (some key) flags answer) = none := by
          simp only [Module.failure, hfind, if_pos hsupplied]
        have husable : x.state.globals.Usable := hadm (by simp [hfind])
        have hentries := sim.registered.entries_add key hfree
        have hitem : ⟨key, x.state.devices.length⟩ ∈ (x.add key lptr).entries := by
          rw [hentries]
          exact List.mem_cons_self
        obtain ⟨own₁, sim₁⟩ := sim.add hnew hfree husable
        obtain ⟨s', hopen, hfiles, hlength, hothers, hself, M', own', sim'⟩ :=
          sim₁.open hitem flags fun _ => husable
        refine ⟨⟨0, []⟩, _, call_open_eq hlookfor hopen, ?_, M', own', hafter ▸ sim'⟩
        refine contract_open hfailure sim₁.registered hitem hfiles ?_ ?_ ?_ (fun hflags => ?_)
          (fun hflags => ?_)
        · rw [hlength, Module.add, List.length_append, List.length_singleton]
          omega
        · intro e he
          rw [hentries]
          exact List.mem_cons_of_mem _ he
        · intro j hj hne
          rw [hothers j hne]
          exact List.getElem?_append_left hj
        · rwa [if_pos hflags] at hself
        · intro dev hdev
          exact absurd (List.getElem?_eq_some_iff.mp hdev).1 (Nat.lt_irrefl _)

/-- A transfer keeps the devices. -/
theorem length_devices_transfer {s s' : State} {fd count : ℕ} {op : ScullDev → ℤ → Except Fault Out}
    {reply : Reply} (hcall : s.transfer fd count op = .ok (reply, s')) :
    s'.devices.length = s.devices.length := by
  unfold State.transfer at hcall
  split at hcall
  · obtain ⟨-, rfl⟩ := Prod.mk.inj (Except.ok.inj hcall)
    rfl
  · rename_i file dev hlookup
    split_ifs at hcall
    · cases hop : op dev file.fPos with
      | error fault => rw [hop] at hcall; cases hcall
      | ok out =>
          rw [hop] at hcall
          obtain ⟨-, rfl⟩ := Prod.mk.inj (Except.ok.inj hcall)
          exact List.length_set
    · obtain ⟨-, rfl⟩ := Prod.mk.inj (Except.ok.inj hcall)
      rfl

theorem length_devices_open {s s' : State} {minor flags : ℕ} {env : Env} {reply : Reply}
    (hopen : scullOpen s minor flags env = .ok (reply, s')) :
    s'.devices.length = s.devices.length := by
  unfold scullOpen at hopen
  split at hopen
  · obtain ⟨-, rfl⟩ := Prod.mk.inj (Except.ok.inj hopen)
    rfl
  · split_ifs at hopen
    · obtain ⟨-, rfl⟩ := Prod.mk.inj (Except.ok.inj hopen)
      rfl
    · obtain ⟨⟨dev, h⟩, -, hreply⟩ := bind_eq_ok.mp hopen
      obtain ⟨-, rfl⟩ := Prod.mk.inj (Except.ok.inj hreply)
      exact List.length_set
    · obtain ⟨-, rfl⟩ := Prod.mk.inj (Except.ok.inj hopen)
      rfl

/-- No call of the bare device adds or removes one. -/
theorem length_devices_call {s s' : State} {c : Scull.Call} {reply : Reply}
    (hcall : s.call c = .ok (reply, s')) : s'.devices.length = s.devices.length := by
  cases c with
  | «open» minor flags env => exact length_devices_open hcall
  | read fd count env =>
      rw [State.call] at hcall
      exact length_devices_transfer hcall
  | write fd buf env =>
      rw [State.call] at hcall
      exact length_devices_transfer hcall
  | llseek fd off whence =>
      simp only [State.call] at hcall
      split at hcall
      all_goals
        obtain ⟨-, rfl⟩ := Prod.mk.inj (Except.ok.inj hcall)
        rfl
  | ioctl cmd arg env =>
      obtain ⟨-, rfl⟩ := Prod.mk.inj (Except.ok.inj hcall)
      rfl

theorem Sim.read (sim : Sim x K M own) {fd count : ℕ} {env : Env}
    (hadm : Admissible x (.read fd count env)) : Keeps x K (.read fd count env) := by
  obtain ⟨reply, s', hcall, hcontract, own', known'⟩ :=
    sim.known.keeps (c := .read fd count env) hadm
  have hlength := length_devices_call hcall
  refine ⟨reply, { x with state := s' }, ?_, ?_, M, own', sim.keep known' hlength⟩
  · rw [Module.call, Module.bare, hcall]
    rfl
  · refine ⟨hcontract.1, ?_⟩
    intro key p size hat
    obtain ⟨i, hi, hati⟩ := hat
    obtain ⟨hsame, hread⟩ := hcontract.2 i p size hati
    refine ⟨othersKeep_of_same sim.registered hi ⟨i, hi, hati⟩ hsame, ?_⟩
    rcases hread with ⟨hneg, hcopied, hat'⟩ | ⟨k, hk, hat', hread⟩
    · exact .inl ⟨hneg, hcopied, i, hi, hat'⟩
    · rw [← sim.items key i hi] at hread
      exact .inr ⟨k, hk, ⟨i, hi, hat'⟩, hread⟩

/-- What a write makes known of a terminal is what it makes known of its device. -/
theorem Sim.write (sim : Sim x K M own) {fd : ℕ} {buf : List UInt8} {env : Env}
    (hadm : Admissible x (.write fd buf env)) : Keeps x K (.write fd buf env) := by
  obtain ⟨reply, s', hcall, hcontract, own', known'⟩ :=
    sim.known.keeps (c := .write fd buf env) hadm
  have hlength := length_devices_call hcall
  have hmodule : x.call (.write fd buf env) = .ok (reply, { x with state := s' }) := by
    rw [Module.call, Module.bare, hcall]
    rfl
  cases hfile : x.state.files[fd]? with
  | none =>
      have hM : M.after x.state (.write fd buf env) reply = M := by
        simp only [Contents.after, hfile]
      have hK : K.after x (.write fd buf env) reply = K := by
        simp only [Terminals.after, hfile]
        cases x.terminal fd <;> rfl
      rw [hM] at known'
      refine ⟨reply, _, hmodule, ⟨hcontract.1, ?_⟩, M, own', ?_⟩
      · rintro key p size ⟨i, -, hat, -⟩
        rw [hfile] at hat
        cases hat
      · rw [hK]
        exact sim.keep known' hlength
  | some file =>
      obtain ⟨key, hitem⟩ := sim.registered.exists_item
        (sim.known.inv.files file (List.mem_of_getElem? hfile)).1
      have hterminal := sim.registered.terminal_eq hitem (p := file.fPos) hfile
      have hkey := sim.items key file.dev hitem
      have hM : M.after x.state (.write fd buf env) reply =
          if 0 ≤ reply.retval then Function.update M file.dev
            ((M file.dev).store file.fPos.toNat (buf.take reply.retval.toNat)) else M := by
        simp only [Contents.after, hfile]
      have hK : K.after x (.write fd buf env) reply =
          if 0 ≤ reply.retval then Function.update K key
            ((K key).store file.fPos.toNat (buf.take reply.retval.toNat)) else K := by
        simp only [Terminals.after, hterminal, hfile]
      refine ⟨reply, _, hmodule, ⟨hcontract.1, ?_⟩, ?_⟩
      · rintro key' p size ⟨i, hi, hat⟩
        obtain ⟨hsame, hwrite⟩ := hcontract.2 i p size hat
        refine ⟨othersKeep_of_same sim.registered hi ⟨i, hi, hat⟩ hsame, ?_⟩
        obtain rfl := Option.some.inj (hfile.symm.trans hat.1)
        obtain rfl := sim.registered.device_inj hitem hi
        rcases hwrite with ⟨hneg, hat', -⟩ | ⟨k, hk, hle, hzero, hat', -, -⟩
        · refine .inl ⟨hneg, ⟨i, hi, hat'⟩, ?_⟩
          rw [hK, if_neg (by omega)]
        · refine .inr ⟨k, hk, hle, hzero, ⟨i, hi, hat'⟩, ?_⟩
          rw [hK, if_pos (by omega), hk]
          rfl
      · rw [hK]
        rw [hM] at known'
        by_cases hpos : 0 ≤ reply.retval
        · rw [if_pos hpos] at known' ⊢
          rw [hkey]
          exact ⟨_, own', sim.update hitem known' hlength⟩
        · rw [if_neg hpos] at known' ⊢
          exact ⟨M, own', sim.keep known' hlength⟩

/-- **Every call of the contract keeps what is known.** -/
theorem Sim.keeps (sim : Sim x K M own) {c : Call} (hadm : Admissible x c) : Keeps x K c := by
  cases c with
  | «open» tty flags answer => exact sim.call_open hadm
  | read fd count env => exact sim.read hadm
  | write fd buf env => exact sim.write hadm
  | llseek fd off whence =>
      obtain ⟨reply, files, hcall, hfiles⟩ := sim.known.inv.call_llseek fd off whence
      refine ⟨reply, { x with state := { x.state with files := files } }, ?_, ⟨rfl, rfl⟩, M, own,
        sim.keep (sim.known.keep x.state.globals hfiles) rfl⟩
      rw [Module.call, Module.bare, hcall]
      rfl
  | ioctl cmd arg env =>
      exact ⟨_, _, rfl, ⟨rfl, rfl, rfl⟩, M, own,
        sim.keep (sim.known.keep _ sim.known.inv.files) rfl⟩

end Steps

theorem inv_init (scullQuantum scullQset : ℤ) (own : ℕ → Owned) :
    Inv (init scullQuantum scullQset).state own where
  owns := fun h => by cases h
  apart := fun h => absurd h (Nat.not_lt_zero _)
  used := fun h => absurd rfl h
  files := fun _ h => by cases h

theorem Registered.init (scullQuantum scullQset : ℤ) : Registered (init scullQuantum scullQset) :=
  ⟨List.nodup_nil, fun a => by simp [Private.init], rfl, List.nodup_nil⟩

theorem Sim.init (scullQuantum scullQset : ℤ) (own : ℕ → Owned) :
    Sim (init scullQuantum scullQset) (fun _ => .empty) (fun _ => .empty) own where
  known := ⟨inv_init .., fun h => by cases h⟩
  registered := .init ..
  items := fun _ _ h => by cases h
  others := fun _ _ => rfl

/-- Two terminals; the first opens another file, to read what it has written, and then one for
writing only. -/
def twoTerminals : List Call :=
  [.open (some 5) 2 (some 1), .write 0 [1, 2] { answers := [some 1, some 2, some 3] },
    .open (some 6) 2 (some 2), .write 1 [7] { answers := [some 4, some 5, some 6] },
    .open none 2 none, .open (some 8) 2 none, .open (some 5) 0 none, .read 2 9 {},
    .open (some 5) 1 none, .read 1 9 {}]

/-- One call, its reply left out. -/
def Module.next (x : Module) (c : Call) : Except Fault Module := (x.call c).map Prod.snd

/-- The devices own their data and nothing else is in use, and the list is in order. -/
structure Kept (x : Module) (own : ℕ → Owned) : Prop where
  inv : Inv x.state own
  registered : Registered x

/-- The entries of a list, one place after the other. -/
theorem filterMap_range {α : Type*} (xs : List α) :
    (List.range xs.length).filterMap (fun i => xs[i]?) = xs := by
  induction xs using List.reverseRecOn with
  | nil => rfl
  | append_singleton xs a ih =>
      have hfirst : (List.range xs.length).filterMap (fun i => (xs ++ [a])[i]?) =
          (List.range xs.length).filterMap fun i => xs[i]? :=
        List.filterMap_congr fun i hi => List.getElem?_append_left (List.mem_range.mp hi)
      rw [List.length_append, List.length_singleton, List.range_succ, List.filterMap_append, hfirst,
        ih, List.filterMap_cons, List.getElem?_concat_length]
      rfl

section Unloading

variable {x : Module} {own : ℕ → Owned}

theorem Kept.bare (kept : Kept x own) {c : Scull.Call} (hc : TrimsUsable x.state c) :
    ∃ reply s', x.state.call c = .ok (reply, s') ∧ ∃ own', Kept { x with state := s' } own' := by
  obtain ⟨reply, s', hcall, own', inv'⟩ := kept.inv.call hc
  exact ⟨reply, s', hcall, own', inv', kept.registered.keep (length_devices_call hcall)⟩

/-- **Every call keeps the list and the memory in order**, whatever is copied and wherever it
stands. -/
theorem Kept.call (kept : Kept x own) {c : Call} (hc : OpensUsable x c) :
    ∃ x', x.next c = .ok x' ∧ ∃ own', Kept x' own' := by
  have hbare {c : Scull.Call} (hc : TrimsUsable x.state c) :
      ∃ x', (x.bare c).map Prod.snd = .ok x' ∧ ∃ own', Kept x' own' := by
    obtain ⟨reply, s', hcall, hkept⟩ := kept.bare hc
    refine ⟨_, ?_, hkept⟩
    rw [Module.bare, hcall]
    rfl
  cases c with
  | «open» tty flags answer =>
      cases tty with
      | none => exact ⟨x, rfl, own, kept⟩
      | some key =>
          rcases kept.registered.lookforDevice_cases key answer with
            ⟨lptr, hfind, hitem, hlookfor⟩ |
            ⟨hfind, hnew, ⟨hshort, hlookfor⟩ | ⟨hsupplied, lptr, hfree, hlookfor⟩⟩
          · obtain ⟨reply, s', hopen, hkept⟩ := kept.bare (c := .open lptr.device flags {})
              fun htrims => hc (by simp [htrims.2.1])
            exact ⟨_, congrArg (Except.map Prod.snd) (call_open_eq hlookfor hopen), hkept⟩
          · exact ⟨x, congrArg (Except.map Prod.snd) (call_open_none hlookfor), own, kept⟩
          · have husable : x.state.globals.Usable := hc (by simp [hfind])
            have kept₁ : Kept (x.add key lptr) _ :=
              ⟨inv_add kept.inv husable, kept.registered.add hnew hfree⟩
            obtain ⟨reply, s', hopen, hkept⟩ :=
              kept₁.bare (c := .open x.state.devices.length flags {}) fun _ => husable
            exact ⟨_, congrArg (Except.map Prod.snd) (call_open_eq hlookfor hopen), hkept⟩
  | read fd count env => exact hbare trivial
  | write fd buf env => exact hbare trivial
  | llseek fd off whence => exact hbare trivial
  | ioctl cmd arg env => exact hbare trivial

/-- The devices are trimmed in the order of the list, the newest first. -/
theorem Registered.devices_eq (registered : Registered x) :
    x.entries.filterMap (fun lptr => x.state.devices[lptr.device]?) = x.state.devices.reverse := by
  have hmap : x.entries.filterMap (fun lptr => x.state.devices[lptr.device]?) =
      (x.entries.map ListItem.device).filterMap fun i => x.state.devices[i]? := by
    rw [List.filterMap_map]
    rfl
  rw [hmap, registered.devices, List.filterMap_reverse, filterMap_range]

/-- The loop trims what `scull_cleanup_module` would of the same devices, and frees the items it
has been through. -/
theorem foldlM_cleanupItem {x : Module} {list : List Addr} (hlist : x.list = list)
    (hnodup : list.Nodup)
    (hitems : ∀ a ∈ list, ∃ item, x.items.get a = some item ∧
      item.device < x.state.devices.length)
    (hdevices : ((list.filterMap x.items.get).map ListItem.device).Nodup) {h' : Heap Block}
    (hcleanup : scullCleanupModule x.state.globals x.state.heap
      ((list.filterMap x.items.get).filterMap fun lptr => x.state.devices[lptr.device]?) = .ok h') :
    ∃ x', list.foldlM cleanupItem x = .ok x' ∧ x'.list = [] ∧ x'.state.heap = h' ∧
      ∀ a, x'.items.get a = if a ∈ list then none else x.items.get a := by
  induction list generalizing x with
  | nil => exact ⟨x, rfl, hlist, Except.ok.inj hcleanup, fun a => by simp⟩
  | cons lptr list ih =>
      obtain ⟨item, hget, hi⟩ := hitems lptr List.mem_cons_self
      obtain ⟨hnotMem, hnodup⟩ := List.nodup_cons.mp hnodup
      have hdev : x.state.devices[item.device]? = some x.state.devices[item.device] :=
        List.getElem?_eq_getElem hi
      rw [List.filterMap_cons_some hget, List.map_cons, List.nodup_cons] at hdevices
      rw [List.filterMap_cons_some hget,
        List.filterMap_cons_some (f := fun lptr : ListItem => x.state.devices[lptr.device]?) hdev,
        Scull.scullCleanupModule, bind_eq_ok] at hcleanup
      obtain ⟨⟨dev, h⟩, htrim, hrest⟩ := hcleanup
      -- the items and the devices of the other rounds are as they were
      have hsame : ∀ a ∈ list, (x.items.erase lptr).get a = x.items.get a := by
        intro a ha
        refine Heap.get_erase_ne _ ?_
        rintro rfl
        exact hnotMem ha
      have hentries : list.filterMap (x.items.erase lptr).get = list.filterMap x.items.get :=
        List.filterMap_congr hsame
      obtain ⟨x', hloop, hempty, hheap, hfreed⟩ := @ih
        { state := { x.state with devices := x.state.devices.set item.device dev, heap := h }
          items := x.items.erase lptr
          list := list } rfl hnodup
        (fun a ha => by
          rw [hsame a ha, List.length_set]
          exact hitems a (List.mem_cons_of_mem _ ha))
        (by rw [hentries]; exact hdevices.2)
        (by
          rw [hentries, ← hrest]
          refine congrArg _ (List.filterMap_congr fun other hother => List.getElem?_set_ne ?_)
          exact fun heq => hdevices.1 (heq ▸ List.mem_map_of_mem hother))
      refine ⟨x', ?_, hempty, hheap, ?_⟩
      · rw [List.foldlM_cons, cleanupItem, load_eq hget, ok_bind]
        simp only [hdev, htrim, ok_bind, kfree_eq hget, hlist, List.erase_cons_head]
        exact hloop
      · intro a
        rw [hfreed, Heap.get_erase]
        by_cases ha : a = lptr <;> simp [ha]

/-- Nothing is left of the private devices. -/
structure Module.Gone (x : Module) : Prop where
  list : x.list = []
  items : ∀ a, x.items.get a = none
  heap : ∀ a, x.state.heap.get a = none

theorem Kept.cleanup (kept : Kept x own) : ∃ x', scullAccessCleanup x = .ok x' ∧ x'.Gone := by
  obtain ⟨inv, registered⟩ := kept
  have hget : ∀ {i : ℕ} {dev : ScullDev}, x.state.devices.reverse[i]? = some dev →
      i < x.state.devices.length ∧
        x.state.devices[x.state.devices.length - 1 - i]? = some dev := by
    intro i dev hi
    have hlt := (List.getElem?_eq_some_iff.mp hi).1
    rw [List.length_reverse] at hlt
    rw [List.getElem?_reverse hlt] at hi
    exact ⟨hlt, hi⟩
  obtain ⟨h', hcleanup, hfreed, hother⟩ := @scullCleanupModule_spec x.state.globals x.state.heap
    x.state.devices.reverse (fun i => own (x.state.devices.length - 1 - i))
    (fun hi => inv.owns (hget hi).2)
    (fun hi hj hne => by
      rw [List.length_reverse] at hi hj
      exact inv.apart (by omega) (by omega) (by omega))
  have hitems : ∀ a ∈ x.list, ∃ item, x.items.get a = some item ∧
      item.device < x.state.devices.length := by
    intro a ha
    obtain ⟨item, hitem⟩ := Option.ne_none_iff_exists'.mp ((registered.allocated a).mpr ha)
    exact ⟨item, hitem, registered.device_lt (List.mem_filterMap.mpr ⟨a, ha, hitem⟩)⟩
  have hdevices : (x.entries.map ListItem.device).Nodup := by
    rw [registered.devices]
    exact List.nodup_reverse.mpr List.nodup_range
  rw [← registered.devices_eq] at hcleanup
  obtain ⟨x', hloop, hempty, hheap, hgone⟩ :=
    foldlM_cleanupItem rfl registered.nodup hitems hdevices hcleanup
  refine ⟨x', hloop, hempty, ?_, ?_⟩
  · intro a
    rw [hgone]
    by_cases ha : a ∈ x.list
    · rw [if_pos ha]
    · rw [if_neg ha]
      exact not_ne_iff.mp (mt (registered.allocated a).mp ha)
  · intro a
    rw [hheap]
    rw [List.length_reverse] at hfreed hother
    by_cases hown : ∃ i < x.state.devices.length, a ∈ (own i).layout.blocks
    · obtain ⟨i, hi, ha⟩ := hown
      refine hfreed (x.state.devices.length - 1 - i) (by omega) a ?_
      rwa [show x.state.devices.length - 1 - (x.state.devices.length - 1 - i) = i by omega]
    · rw [hother a fun i hi ha => hown ⟨_, by omega, ha⟩]
      by_contra hused
      exact hown (inv.used hused)

end Unloading

end KernelTraining.Access.Private
