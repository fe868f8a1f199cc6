import KernelTraining.Pipe.Wakeup

/-!
# Another buffer size

`scull_p_open` allocates a buffer of `scull_p_buffer` bytes if there is none, and takes the
buffer to have as many bytes if there is one.  The ioctl `SCULL_P_IOCTSIZE` can change
`scull_p_buffer` in between, for any caller.

As long as nobody does, the pipe is safe exactly if the buffer that is there fits
(`safe_iff_fits`): if it does not, whoever can open the device can have the driver access
memory behind the end of the buffer.  `Fits` allows for more than buffers of the right size:
a smaller value of `scull_p_buffer` is safe with any buffer, and with one byte the pipe is
always full.

## Strategy

* **If it fits**, it goes on fitting: a step leaves the length of the buffer alone, or
  allocates a new one of the very size, or frees it (`Concurrent.Fits.effect`).  So every
  opening to come fits, and the run does not fault by `Pipe.History`.
* **If it does not**, a run that faults has to be found, and each of its steps computed.
  The runs are made of calls that nobody interrupts (`reaches_answer`, `unsafe_of_body`):
  each comes to the end of the list of calls, takes the semaphore, goes through its section
  and returns.  First somebody opens the device; then one write that the pointers allow is
  longer than the buffer (`unsafe_of_overrun`).  If the size is wrong by a single byte, the
  cell that always stays free is just the one that is not there: it takes a write up to the
  end (`reaches_filled`) and a read of the first byte (`reaches_read_one`) until a write can
  go further (`unsafe_of_full`).  `unsafe_of_opened` has the cases.

The runs on both sides open the device while the counters are below their maximum (`Quiet`),
since a counter that goes round could free the buffer of an open file, whatever its size.
-/

namespace KernelTraining.Pipe

open Machine Abstract Concurrent

/-! ## A call that nobody interrupts -/

/-- A step that leaves `scull_p_buffer` alone, and no counter goes round. -/
def Quiet (x : Concurrent) : Action → Prop
  | .tell _ => False
  | a => AtOpenings Concurrent.Few x a

/-- Such steps lead from one state to the other. -/
def Reaches (x x' : Concurrent) : Prop :=
  ∃ actions : List Action, EveryStep Concurrent.step Quiet x actions ∧
    actions.foldlM Concurrent.step x = .ok x'

theorem Reaches.refl (x : Concurrent) : Reaches x x := ⟨[], trivial, rfl⟩

theorem Reaches.tail {x y z : Concurrent} (h : Reaches x y) {a : Action} (ha : Quiet y a)
    (hstep : y.step a = .ok z) : Reaches x z := by
  obtain ⟨actions, hquiet, hrun⟩ := h
  refine ⟨actions ++ [a], hquiet.append hrun ⟨ha, fun _ _ => trivial⟩, ?_⟩
  rw [List.foldlM_append, hrun, ok_bind, List.foldlM_cons, hstep]
  rfl

/-- A state from which such steps lead to a fault. -/
def Unsafe (x : Concurrent) : Prop :=
  ∃ actions : List Action, EveryStep Concurrent.step Quiet x actions ∧
    ∃ fault, actions.foldlM Concurrent.step x = .error fault

theorem Reaches.faults {x y : Concurrent} (h : Reaches x y) {a : Action} (ha : Quiet y a)
    {fault : Fault} (hstep : y.step a = .error fault) : Unsafe x := by
  obtain ⟨actions, hquiet, hrun⟩ := h
  refine ⟨actions ++ [a], hquiet.append hrun ⟨ha, fun _ _ => trivial⟩, fault, ?_⟩
  rw [List.foldlM_append, hrun, ok_bind, List.foldlM_cons, hstep]
  rfl

theorem Reaches.unsafe_of {x y : Concurrent} (h : Reaches x y) (h' : Unsafe y) : Unsafe x := by
  obtain ⟨actions, hquiet, hrun⟩ := h
  obtain ⟨actions', hquiet', fault, hrun'⟩ := h'
  refine ⟨actions ++ actions', hquiet.append hrun hquiet', fault, ?_⟩
  rw [List.foldlM_append, hrun, ok_bind, hrun']

section Solo

variable {x : Concurrent} {op : Op}

/-- The next step of the last call. -/
theorem step_last {calls : List Call} {c : Call} (hcalls : x.calls = calls ++ [c]) (env : Env) :
    x.step (.next calls.length env) = x.next calls.length c env := by
  have hlast : x.calls[calls.length]? = some c := by
    rw [hcalls, List.getElem?_concat_length]
  simp only [Concurrent.step, hlast]

/-- It is a quiet one, unless it lets a counter go round. -/
theorem quiet_last {calls : List Call} {c : Call} (hcalls : x.calls = calls ++ [c])
    (hfew : c.opens = true → x.Few) (env : Env) : Quiet x (.next calls.length env) := by
  intro d hd hopens
  rw [hcalls, List.getElem?_concat_length] at hd
  obtain rfl := Option.some.inj hd
  exact hfew hopens

theorem quiet_of_ne {calls : List Call} {c : Call} (hcalls : x.calls = calls ++ [c])
    (hstage : ∀ answer, c.stage ≠ .halfway answer) (env : Env) :
    Quiet x (.next calls.length env) := by
  refine quiet_last hcalls (fun hopens => ?_) env
  rw [opens_eq_false hstage] at hopens
  cases hopens

theorem advance_last {calls : List Call} {c : Call} (hcalls : x.calls = calls ++ [c])
    (stage : Stage) :
    x.advance calls.length c stage = { x with calls := calls ++ [{ c with stage := stage }] } := by
  simp [Concurrent.advance, hcalls]

/-- A call takes the semaphore if that is free. -/
theorem reaches_holding (hsem : x.sem = 1) (hadmits : x.admits op = true) :
    Reaches x { x with sem := 0, calls := x.calls ++ [⟨op, .holding⟩] } := by
  have hcall : x.step (.call op) = .ok { x with calls := x.calls ++ [⟨op, .entering⟩] } := by
    simp only [Concurrent.step, hadmits, if_true]
  have hcalled := (Reaches.refl x).tail (show Quiet x (.call op) from trivial) hcall
  refine hcalled.tail (a := .next x.calls.length {})
    (quiet_of_ne rfl (fun _ => Stage.noConfusion) {}) ?_
  rw [step_last rfl]
  simp only [Concurrent.next, Bool.false_eq_true, false_and, if_false, hsem]
  rw [advance_last rfl]

/-- A call whose body faults. -/
theorem unsafe_of_body (hsem : x.sem = 1) (hadmits : x.admits op = true) {fault : Fault}
    (hbody : op.body x.scullPBuffer x.dev {} = .error fault) : Unsafe x := by
  refine (reaches_holding hsem hadmits).faults (a := .next x.calls.length {})
    (quiet_of_ne rfl (fun _ => Stage.noConfusion) {})
    (show _ = Except.error fault from ?_)
  rw [step_last rfl]
  simp only [Concurrent.next, hbody]
  rfl

/-- A call that nobody interrupts, and that goes on with the pointers after its body, gives the
semaphore back and leaves the device as these say. -/
theorem reaches_answer (hsem : x.sem = 1) (hadmits : x.admits op = true) {answer : Answer}
    {dev : ScullPipe} (hbody : op.body x.scullPBuffer x.dev {} = .ok (some (answer, dev)))
    (hgoesOn : op.goesOn answer = true) (hfew : op.queue = none → x.Few) :
    ∃ x', Reaches x x' ∧ x'.sem = 1 ∧ x'.scullPBuffer = x.scullPBuffer ∧
      x'.files = x.files ++ opened op answer ∧
      x'.dev = op.commit x.scullPBuffer answer dev := by
  have hbegun := (reaches_holding hsem hadmits).tail (a := .next x.calls.length {})
    (z := { x with sem := 0, dev := dev, calls := x.calls ++ [⟨op, .halfway answer⟩] })
    (quiet_of_ne rfl (fun _ => Stage.noConfusion) {}) (by
      rw [step_last rfl]
      simp only [Concurrent.next, hbody, Except.map, hgoesOn, if_true]
      rw [advance_last rfl])
  -- nobody else has come or gone
  have hfew' (hopens : Call.opens ⟨op, .halfway answer⟩ = true) : Concurrent.Few
      { x with sem := 0, dev := dev, calls := x.calls ++ [⟨op, .halfway answer⟩] } := by
    have hqueue : op.queue = none := by
      by_contra htransfer
      rw [opens_of_queue htransfer] at hopens
      cases hopens
    have hstands : Call.stands ⟨op, .halfway answer⟩ = none := by
      cases op with
      | release mode => cases hgoesOn
      | _ => rfl
    have hfew := hfew hqueue
    unfold Concurrent.Few Concurrent.holders at hfew ⊢
    rwa [holders_concat hstands, holders_concat hstands]
  have hleaving := hbegun.tail (a := .next x.calls.length {})
    (z := { x with
      sem := 0
      dev := op.commit x.scullPBuffer answer dev
      calls := x.calls ++ [⟨op, .leaving (some answer)⟩]
      log := x.log ++ (op.moved x.scullPBuffer answer).map (x.calls.length, ·) })
    (quiet_last rfl hfew' {}) (by
      rw [step_last rfl]
      simp only [Concurrent.next]
      rw [advance_last rfl])
  have hup := hleaving.tail (a := .next x.calls.length {})
    (z := { x with
      sem := 1
      dev := op.commit x.scullPBuffer answer dev
      files := x.files ++ opened op answer
      calls := x.calls ++ [⟨op, finish op answer⟩]
      log := x.log ++ (op.moved x.scullPBuffer answer).map (x.calls.length, ·) })
    (quiet_of_ne rfl (fun _ => Stage.noConfusion) {}) (by
      rw [step_last rfl]
      simp only [Concurrent.next]
      rw [advance_last rfl])
  exact ⟨_, hup, rfl, rfl, rfl, rfl⟩

end Solo

/-! ## The size of the buffer -/

section Size

variable {x x' : Concurrent} {a : Action}

/-- Bytes in the buffer after a body: as many as before, or the buffer is a new one. -/
theorem buffer_body {op : Op} {env : Env} {answer : Answer} {dev : ScullPipe}
    (hbody : op.body x.scullPBuffer x.dev env = .ok (some (answer, dev))) {bytes : List UInt8}
    (hbytes : dev.buffer = some bytes) :
    (∃ old, x.dev.buffer = some old ∧ bytes.length = old.length) ∨
      (0 ≤ x.scullPBuffer ∧ bytes.length = x.scullPBuffer.toNat) := by
  cases op with
  | «open» mode =>
      cases body_open hbody with
      | found old hold => exact .inl ⟨bytes, hbytes, rfl⟩
      | allocated new hnone hlength =>
          obtain rfl := Option.some.inj hbytes
          exact .inr ⟨by omega, by omega⟩
      | failed => exact .inl ⟨bytes, hbytes, rfl⟩
  | release mode =>
      obtain ⟨-, rfl⟩ := Prod.mk.inj (Option.some.inj (Except.ok.inj hbody))
      have hold : ∀ (p : Prop) [Decidable p],
          (if p then none else x.dev.buffer) = some bytes → x.dev.buffer = some bytes := by
        intro p _ h
        split_ifs at h
        exact h
      exact .inl ⟨bytes, hold _ hbytes, rfl⟩
  | read fd count =>
      rw [(body_read hbody).1] at hbytes
      exact .inl ⟨bytes, hbytes, rfl⟩
  | write fd buf =>
      obtain ⟨old, new, hold, hlength, rfl⟩ := scullPWrite_dev hbody
      obtain rfl := Option.some.inj hbytes
      exact .inl ⟨old, hold, hlength⟩
  | poll fd =>
      rw [body_poll hbody] at hbytes
      exact .inl ⟨bytes, hbytes, rfl⟩

theorem buffer_effect (heffect : Effect x a x') {bytes : List UInt8}
    (hbytes : x'.dev.buffer = some bytes) :
    (∃ old, x.dev.buffer = some old ∧ bytes.length = old.length) ∨
      (0 ≤ x.scullPBuffer ∧ bytes.length = x.scullPBuffer.toNat) := by
  cases heffect with
  | acts i env c answer dev hc hstage hbody => exact buffer_body hbody hbytes
  | begins i env c answer dev hc hstage hbody => exact buffer_body hbody hbytes
  | commits i env c answer =>
      have hbuffer : (c.op.commit x.scullPBuffer answer x.dev).buffer = x.dev.buffer := by
        cases c.op <;> rfl
      exact .inl ⟨bytes, hbuffer.symm.trans hbytes, rfl⟩
  | wakes =>
      rw [wakeUp_dev] at hbytes
      exact .inl ⟨bytes, hbytes, rfl⟩
  | _ => exact .inl ⟨bytes, hbytes, rfl⟩

theorem scullPBuffer_effect (heffect : Effect x a x') :
    x'.scullPBuffer = x.scullPBuffer ∨ ∃ arg, a = .tell arg ∧ x'.scullPBuffer = wrap32 arg := by
  cases heffect with
  | told arg => exact .inr ⟨arg, rfl, rfl⟩
  | wakes i env c =>
      left
      cases c.op.wakes <;> rfl
  | _ => exact .inl rfl

/-- A buffer that fits goes on doing so while `scull_p_buffer` is left alone. -/
theorem Concurrent.Fits.effect (hfits : x.Fits) (ha : ∀ arg, a ≠ .tell arg)
    (heffect : Effect x a x') : x'.Fits := by
  intro bytes hbytes
  have hsize : x'.scullPBuffer = x.scullPBuffer :=
    (scullPBuffer_effect heffect).resolve_right fun ⟨arg, h, _⟩ => ha arg h
  rw [hsize]
  rcases buffer_effect heffect hbytes with ⟨old, hold, hlength⟩ | ⟨hpos, hlength⟩
  · rw [hlength]
    exact hfits old hold
  · omega

/-- `scull_p_buffer` and the length of the buffer are those of an `int`. -/
structure Concurrent.Sized (x : Concurrent) : Prop where
  low : -2147483648 ≤ x.scullPBuffer
  high : x.scullPBuffer ≤ intMax
  buffer : ∀ bytes ∈ x.dev.buffer, (bytes.length : ℤ) ≤ intMax

theorem Concurrent.Sized.effect (sized : x.Sized) (heffect : Effect x a x') : x'.Sized := by
  have hrange : -2147483648 ≤ x'.scullPBuffer ∧ x'.scullPBuffer ≤ intMax := by
    rcases scullPBuffer_effect heffect with hsame | ⟨arg, -, htold⟩
    · rw [hsame]
      exact ⟨sized.low, sized.high⟩
    · rw [htold]
      exact wrap32_range arg
  refine ⟨hrange.1, hrange.2, ?_⟩
  intro bytes hbytes
  rcases buffer_effect heffect hbytes with ⟨old, hold, hlength⟩ | ⟨hpos, hlength⟩
  · rw [hlength]
    exact sized.buffer old hold
  · have hhigh := sized.high
    omega

end Size

/-! ## Writing behind the end -/

section Overrun

variable {dev : ScullPipe} {bytes buf : List UInt8} {free : ℤ}

/-- A write that neither the free space nor the end of the buffer cuts short. -/
theorem scullPWrite_unclipped (hbuffer : dev.buffer = some bytes) (hfree : spacefree dev = .ok free)
    (hne : free ≠ 0) (horder : dev.rp ≤ dev.wp) (hspace : buf.length ≤ toULong free)
    (hend : buf.length ≤ toULong (dev.bufEnd - dev.wp)) :
    scullPWrite dev buf none = (window bytes dev.wp buf.length).map fun off =>
      some (⟨buf.length, []⟩, { dev with buffer := some (patch bytes off buf) }) := by
  have hcount : (if dev.rp ≤ dev.wp then
      min (min buf.length (toULong free)) (toULong (dev.bufEnd - dev.wp))
    else min (min buf.length (toULong free)) (toULong (dev.rp - dev.wp - 1))) = buf.length := by
    rw [if_pos horder]
    omega
  have hbytes : dev.bytes = .ok bytes := by rw [ScullPipe.bytes, hbuffer]
  simp only [scullPWrite, hfree, ok_bind, if_neg hne, hcount, hbytes, List.take_length]
  cases window bytes dev.wp buf.length with
  | error fault => rfl
  | ok off => rfl

variable {x : Concurrent} {op : Op} {fd : ℕ} {dir : Dir} {mode : Mode}

theorem admits_of_mode (huses : op.uses = some (fd, some dir)) (hmode : x.mode fd = some mode)
    (hhas : mode.has dir = true) : x.admits op = true := by
  simp only [Concurrent.admits, huses, hmode, Option.any_some, Option.all_some, hhas]

/-- A transfer through a file that is open for it. -/
theorem reaches_transfer (hsem : x.sem = 1) (huses : op.uses = some (fd, some dir))
    (hmode : x.mode fd = some mode) (hhas : mode.has dir = true) (htransfer : op.queue ≠ none)
    {answer : Answer} {dev' : ScullPipe}
    (hbody : op.body x.scullPBuffer x.dev {} = .ok (some (answer, dev')))
    (hgoesOn : op.goesOn answer = true) :
    ∃ x', Reaches x x' ∧ x'.sem = 1 ∧ x'.mode fd = some mode ∧
      x'.dev = op.commit x.scullPBuffer answer dev' := by
  obtain ⟨x', hreaches, hsem', -, hfiles, hdev⟩ :=
    reaches_answer hsem (admits_of_mode huses hmode hhas) hbody hgoesOn fun h => absurd h htransfer
  refine ⟨x', hreaches, hsem', ?_, hdev⟩
  have hnone : opened op answer = [] := by
    cases op with
    | «open» mode => exact absurd rfl htransfer
    | _ => rfl
  rw [mode_eq_some_iff] at hmode ⊢
  rw [hfiles, hnone, List.append_nil]
  exact hmode

/-- A write over the end of the buffer. -/
theorem unsafe_of_overrun (buf : List UInt8) (free : ℤ) (hsem : x.sem = 1)
    (hmode : x.mode fd = some mode) (hwrite : mode.write = true)
    (hbuffer : x.dev.buffer = some bytes) (hfree : spacefree x.dev = .ok free) (hne : free ≠ 0)
    (horder : x.dev.rp ≤ x.dev.wp)
    (hspace : buf.length ≤ toULong free)
    (hend : buf.length ≤ toULong (x.dev.bufEnd - x.dev.wp))
    (hover : bytes.length < x.dev.wp + buf.length) : Unsafe x := by
  have hbody : (Op.write fd buf).body x.scullPBuffer x.dev {} = .error .outOfBounds := by
    rw [Op.body, scullPWrite_unclipped hbuffer hfree hne horder hspace hend, window,
      if_neg (by omega)]
    rfl
  have hhas : mode.has .write = true := hwrite
  exact unsafe_of_body hsem (admits_of_mode rfl hmode hhas) hbody

/-- A write up to the end of the buffer. -/
theorem reaches_filled (buf : List UInt8) (hsem : x.sem = 1) (hmode : x.mode fd = some mode)
    (hwrite : mode.write = true) (hbuffer : x.dev.buffer = some bytes)
    (hfree : spacefree x.dev = .ok free) (hne : free ≠ 0) (horder : x.dev.rp ≤ x.dev.wp)
    (hspace : buf.length ≤ toULong free)
    (hend : buf.length ≤ toULong (x.dev.bufEnd - x.dev.wp))
    (hfits : x.dev.wp + buf.length = bytes.length) :
    ∃ x', Reaches x x' ∧ x'.sem = 1 ∧ x'.mode fd = some mode ∧
      x'.dev = { x.dev with
        buffer := some (patch bytes x.dev.wp buf)
        wp := x.dev.wrapped x.dev.wp buf.length } := by
  have hbody : (Op.write fd buf).body x.scullPBuffer x.dev {} = .ok (some (⟨buf.length, []⟩,
      { x.dev with buffer := some (patch bytes x.dev.wp buf) })) := by
    rw [Op.body, scullPWrite_unclipped hbuffer hfree hne horder hspace hend,
      window_eq rfl hfits.le]
    rfl
  have hgoesOn : Op.goesOn ⟨buf.length, []⟩ (.write fd buf) = true :=
    decide_eq_true (Int.natCast_nonneg buf.length)
  have hhas : mode.has .write = true := hwrite
  exact reaches_transfer hsem rfl hmode hhas (fun h => by cases h) hbody hgoesOn

/-- A read of the first byte. -/
theorem reaches_read_one (hsem : x.sem = 1) (hmode : x.mode fd = some mode)
    (hread : mode.read = true) (hbuffer : x.dev.buffer = some bytes) (hrp : x.dev.rp = 0)
    (hwp : x.dev.wp = bytes.length) (hpos : 0 < bytes.length) (hlt : bytes.length ≤ intMax)
    (hend : x.dev.bufEnd ≠ 1) :
    ∃ x', Reaches x x' ∧ x'.sem = 1 ∧ x'.mode fd = some mode ∧ x'.dev = { x.dev with rp := 1 } := by
  have hcount : min 1 (toULong ((x.dev.wp : ℤ) - x.dev.rp)) = 1 := by
    unfold intMax at hlt
    rw [toULong_eq (by omega) (by omega)]
    omega
  have hbytes : x.dev.bytes = .ok bytes := by rw [ScullPipe.bytes, hbuffer]
  have hne : ¬ x.dev.rp = x.dev.wp := by omega
  have hwindow : window bytes (x.dev.rp : ℤ) 1 = .ok 0 := by
    rw [hrp]
    exact window_eq rfl hpos
  have hbody : (Op.read fd 1).body x.scullPBuffer x.dev {} =
      .ok (some (⟨1, bytes.take 1⟩, x.dev)) := by
    simp only [Op.body, scullPRead, if_neg hne, if_pos (show x.dev.rp < x.dev.wp by omega), hcount,
      hbytes, ok_bind, hwindow]
    rfl
  have hhas : mode.has .read = true := hread
  obtain ⟨x', hreaches, hsem', hmode', hdev⟩ :=
    reaches_transfer hsem rfl hmode hhas (fun h => by cases h) hbody rfl
  refine ⟨x', hreaches, hsem', hmode', ?_⟩
  have hwrapped : x.dev.wrapped x.dev.rp 1 = 1 := by
    rw [ScullPipe.wrapped, hrp, if_neg (fun h => hend h.symm)]
  rw [hdev]
  show { x.dev with rp := x.dev.wrapped x.dev.rp 1 } = _
  rw [hwrapped]

/-- The buffer is full up to its end, which has not been noticed.  If the size is one byte too
large, the next write goes on once a byte has been read; and the smallest size of all leaves
space at once. -/
theorem unsafe_of_full (hsem : x.sem = 1) (hmode : x.mode fd = some ⟨true, true⟩)
    (hbuffer : x.dev.buffer = some bytes) (hrp : x.dev.rp = 0) (hwp : x.dev.wp = bytes.length)
    (hend : x.dev.bufEnd = x.dev.buffersize) (hlength : bytes.length ≤ intMax)
    (hnear : (x.dev.buffersize = bytes.length + 1 ∧ 1 ≤ bytes.length) ∨
      (x.dev.buffersize = -2147483648 ∧ bytes.length = 2147483647)) : Unsafe x := by
  rcases hnear with ⟨hone, hpos⟩ | ⟨hmin, hmax⟩
  · obtain ⟨y, hreaches, hsem', hmode', hdev⟩ :=
      reaches_read_one hsem hmode rfl hbuffer hrp hwp hpos hlength (by omega)
    refine hreaches.unsafe_of (unsafe_of_overrun [0] 1 hsem' hmode' rfl
      (by rw [hdev]; exact hbuffer) ?_ one_ne_zero ?_ (by decide) ?_ ?_)
    · rw [hdev]
      unfold spacefree
      dsimp only
      rw [hwp, hone]
      split_ifs with h1 h2
      · rw [← h1]
        rfl
      · omega
      · rw [show ((1 : ℕ) : ℤ) + (bytes.length + 1) - bytes.length = 2 by omega,
          Int.tmod_eq_emod_of_nonneg (by omega), Int.emod_eq_of_lt (by omega) (by omega)]
        rfl
    · rw [hdev]
      show 1 ≤ x.dev.wp
      omega
    · rw [hdev]
      show 1 ≤ toULong (x.dev.bufEnd - x.dev.wp)
      rw [hend, hwp, hone]
      unfold toULong
      omega
    · rw [hdev]
      show bytes.length < x.dev.wp + 1
      omega
  · refine unsafe_of_overrun [0] (-2147483648) hsem hmode rfl hbuffer ?_ (by decide) (by omega)
      (by decide) ?_ ?_
    · rw [spacefree, hrp, hwp, hmin, hmax]
      rfl
    · rw [hend, hwp, hmin, hmax]
      decide
    · rw [hwp]
      exact Nat.lt_succ_self _

/-- A device that has just been opened and takes its buffer to be of another size. -/
theorem unsafe_of_opened (hsem : x.sem = 1) (hmode : x.mode fd = some ⟨true, true⟩)
    (hbuffer : x.dev.buffer = some bytes) (hrp : x.dev.rp = 0) (hwp : x.dev.wp = 0)
    (hend : x.dev.bufEnd = x.dev.buffersize) (hlow : -2147483648 ≤ x.dev.buffersize)
    (hhigh : x.dev.buffersize ≤ intMax) (hlength : bytes.length ≤ intMax)
    (hsize : x.dev.buffersize < 0 ∨ (max 1 bytes.length : ℕ) < x.dev.buffersize) : Unsafe x := by
  unfold intMax at hhigh
  have hlength' : (bytes.length : ℤ) ≤ 2147483647 := hlength
  have hfree : spacefree x.dev = .ok (wrap32 (x.dev.buffersize - 1)) := by
    rw [spacefree, if_pos (hrp.trans hwp.symm)]
  by_cases hfar : bytes.length + 1 ≤ toULong (wrap32 (x.dev.buffersize - 1)) ∧
      bytes.length + 1 ≤ toULong x.dev.buffersize
  · -- one write reaches over the end
    have hbuf : (List.replicate (bytes.length + 1) (0 : UInt8)).length = bytes.length + 1 :=
      List.length_replicate
    refine unsafe_of_overrun (List.replicate (bytes.length + 1) 0) _ hsem hmode rfl hbuffer
      hfree ?_ (by rw [hrp]; omega) ?_ ?_ ?_
    · intro hzero
      rw [hzero] at hfar
      exact absurd hfar.1 (Nat.not_succ_le_zero _)
    · rw [hbuf]
      exact hfar.1
    · rw [hbuf, hend, hwp]
      simpa using hfar.2
    · rw [hbuf, hwp]
      omega
  · -- otherwise a write fills the buffer, and as the end has not been noticed, the next goes on
    have hnear : (x.dev.buffersize = bytes.length + 1 ∧ 1 ≤ bytes.length) ∨
        (x.dev.buffersize = -2147483648 ∧ bytes.length = 2147483647) := by
      unfold toULong wrap32 at hfar
      omega
    have hbuf : (List.replicate bytes.length (0 : UInt8)).length = bytes.length :=
      List.length_replicate
    obtain ⟨y, hreaches, hsem', hmode', hdev⟩ := reaches_filled (List.replicate bytes.length 0)
      hsem hmode rfl hbuffer hfree (by unfold wrap32; omega) (by rw [hrp]; omega)
      (by rw [hbuf]; unfold toULong wrap32; omega)
      (by rw [hbuf, hend, hwp]; unfold toULong; omega) (by rw [hbuf, hwp]; omega)
    have hwrapped : x.dev.wrapped x.dev.wp (List.replicate bytes.length (0 : UInt8)).length =
        bytes.length := by
      rw [ScullPipe.wrapped, hbuf, hwp, hend, if_neg (by omega), Nat.zero_add]
    rw [hwrapped] at hdev
    have hpatch : (patch bytes x.dev.wp (List.replicate bytes.length 0)).length = bytes.length :=
      length_patch (by rw [hbuf, hwp]; omega)
    have hbuffer' : y.dev.buffer = some (patch bytes x.dev.wp (List.replicate bytes.length 0)) := by
      rw [hdev]
    refine hreaches.unsafe_of (unsafe_of_full hsem' hmode' hbuffer' ?_ ?_ ?_ ?_ ?_)
    · rw [hdev]
      exact hrp
    · rw [hdev, hpatch]
    · rw [hdev]
      exact hend
    · rw [hpatch]
      exact hlength
    · rw [hdev, hpatch]
      exact hnear

end Overrun

/-! ## Safety -/

section Safety

variable {x : Concurrent}

/-- Whoever opens a device whose buffer does not fit can write behind its end. -/
theorem unsafe_of_not_fits (sized : x.Sized) (hfew : x.Few) (hsem : x.sem = 1)
    (hfits : ¬ x.Fits) : Unsafe x := by
  unfold Concurrent.Fits at hfits
  push Not at hfits
  obtain ⟨bytes, hbytes, hsize⟩ := hfits
  have hbody : (Op.open ⟨true, true⟩).body x.scullPBuffer x.dev {} =
      .ok (some (⟨0, []⟩, x.dev)) := by
    rw [Op.body, scullPOpen, show x.dev.buffer = some bytes from hbytes]
  obtain ⟨y, hreaches, hsem', -, hfiles, hdev⟩ :=
    reaches_answer hsem rfl hbody rfl fun _ => hfew
  have hmode : y.mode x.files.length = some ⟨true, true⟩ := by
    rw [mode_eq_some_iff, hfiles]
    exact List.getElem?_concat_length
  have hlength := sized.buffer bytes hbytes
  refine hreaches.unsafe_of (unsafe_of_opened hsem' hmode (show _ = some bytes from ?_)
    ?_ ?_ ?_ ?_ ?_ hlength ?_)
  · rw [hdev]
    exact hbytes
  · rw [hdev]
    rfl
  · rw [hdev]
    rfl
  · rw [hdev]
    rfl
  · rw [hdev]
    exact sized.low
  · rw [hdev]
    exact sized.high
  · rw [hdev]
    show x.scullPBuffer < 0 ∨ _ < x.scullPBuffer
    by_cases hneg : x.scullPBuffer < 0
    · exact .inl hneg
    · exact .inr (hsize (by omega))

/-- As long as the buffer fits and the size is left alone, no call faults. -/
theorem safe_of_fits (ok : x.Ok) (hfits : x.Fits) : ¬ Unsafe x := by
  rintro ⟨actions, hquiet, fault, hrun⟩
  induction actions generalizing x with
  | nil => cases hrun
  | cons a actions ih =>
      obtain ⟨ha, hquiet⟩ := hquiet
      have htell : ∀ arg, a ≠ .tell arg := by
        rintro arg rfl
        exact ha
      have hopens : AtOpenings Concurrent.Opens x a := by
        cases a with
        | next i env => exact fun c hc hopens => ⟨ha c hc hopens, hfits⟩
        | _ => trivial
      obtain ⟨x', hx', ok'⟩ := ok.step hopens
      rw [List.foldlM_cons, hx', ok_bind] at hrun
      exact ih ok' (hfits.effect htell (Concurrent.effect hx')) (hquiet x' hx') hrun

/-- Somebody else sets the size of an open device of three bytes to nine. -/
def resizing : List Action :=
  [.call (.open ⟨true, true⟩), .next 0 {}, .next 0 {}, .next 0 {}, .next 0 {}, .tell 9]

end Safety

end KernelTraining.Pipe
