import KernelTraining.Pipe.Openings

/-!
# The pipe device as a queue

The device is a bounded queue (`pipe_linearizable`): there is one history of puts, gets and
resets, with one entry for each call that has succeeded and none for any other, which
accounts for everything the calls have returned and for what is in the buffer.

## Strategy

The history is kept beside the state; an entry is made where a call sets the pointers
(`Op.commit`), with the bytes it has copied before.  The work is to know at that moment what
the buffer holds.

* **A transfer takes two steps**, and other calls make steps between its copy and its
  pointer.  As it holds the semaphore, none of these changes anything in the buffer
  (`no_other_halfway`), and what it has copied stays at the read pointer, or behind the
  write pointer.  `Begun` says what a call halfway knows.
* **An opening takes two steps as well**, and between them the buffer may be new and its
  pointers still those of the last one.  So the invariant `Queued` knows the circular buffer
  by its pointers (`ScullPipe.Points`) at all times, and by its bytes only when nobody is
  opening; nobody else looks at the bytes then.
* **`scull_p_buffer` is read twice**, and may have been set in between.  An opening makes
  the buffer what `scull_p_buffer` says when it sets the pointers, whatever has been
  allocated.  `Concurrent.Fits` says that these bytes are there, and is asked of the state
  at that step only (`Concurrent.Opens`, together with `Concurrent.Few`).  A write to a
  device that does not fit goes over the end of its buffer, which `Pipe.Resize` proves.

`bodySpec` lists what a section can do to a buffer that is known, and in passing that it
does not fault.  From it `Queued.body` and `Queued.commit` are the two parts of a section,
`Queued.effect` is a step, and the run follows from the rule for runs that may depend on
the steps before (`Concurrent.Ok.step`).  `Queued.linearizable` forgets what only the proof
needs.
-/

namespace KernelTraining.Pipe

open Machine Abstract Concurrent

/-! ## What the history has to explain -/

/-- The answer of a call and its entries in the history.  A read with a positive count never
returns 0, and a call that has failed has done nothing. -/
def Op.Explains (answer : Answer) (ops : List (QueueOp UInt8)) : Op → Prop
  | .open _ =>
      (answer.retval = 0 ∧ ∃ capacity, ops = [.reset capacity]) ∨ (answer.retval < 0 ∧ ops = [])
  | .read _ count =>
      (answer.retval = answer.user.length ∧ answer.user.length ≤ count ∧
        (0 < count → answer.user ≠ []) ∧ ops = [.get answer.user]) ∨
      (answer.retval < 0 ∧ ops = [])
  | .write _ buf =>
      (∃ n ≤ buf.length, answer.retval = n ∧ ops = [.put (buf.take n)]) ∨
      (answer.retval < 0 ∧ ops = [])
  | _ => ops = []

/-- A call that has not got its answer yet has no entry. -/
def Call.Explained (c : Call) (ops : List (QueueOp UInt8)) : Prop :=
  match c.stage.answer with
  | some answer => c.op.Explains answer ops
  | none => ops = []

def Concurrent.history (x : Concurrent) : List (QueueOp UInt8) := x.log.map Prod.snd

/-- The entries of call `i`. -/
def Concurrent.entries (x : Concurrent) (i : ℕ) : List (QueueOp UInt8) :=
  (x.log.filter (·.1 = i)).map Prod.snd

/-- The history can be replayed on a bounded queue, which then holds what the device holds;
it explains every call.  A buffer that an opening has just got is not in use yet. -/
def Concurrent.Linearizable (x : Concurrent) : Prop :=
  ∃ r, x.dev.Points r ∧ (x.opening = 0 → x.dev.Holds r) ∧ replay x.history = some r.queue ∧
    accepted x.history = delivered x.history ++ r.contents ∧
    ∀ (i : ℕ) (c : Call), x.calls[i]? = some c → c.Explained (x.entries i)

/-- `scull_p_buffer` is not negative, and not more than the bytes of the buffer if there is one;
a pipe of one byte never holds anything. -/
def Concurrent.Fits (x : Concurrent) : Prop :=
  ∀ bytes ∈ x.dev.buffer, 0 ≤ x.scullPBuffer ∧ x.scullPBuffer ≤ max 1 bytes.length

instance (x : Concurrent) : Decidable x.Fits := by
  unfold Concurrent.Fits
  infer_instance

/-! ## The invariant -/

/-- What a call knows about the buffer before it sets the pointers. -/
def Begun (r : RingBuffer UInt8) (answer : Answer) : Op → Prop
  | .open _ => answer = ⟨0, []⟩
  | .read _ count => ∃ n ≤ count, n ≤ r.run ∧ (0 < count → 0 < n) ∧ answer = ⟨n, r.contents.take n⟩
  | .write _ buf => ∃ (n : ℕ) (r₀ : RingBuffer UInt8) (h : (buf.take n).length ≤ r₀.room),
      n ≤ buf.length ∧ answer = ⟨n, []⟩ ∧ r = r₀.scribble (buf.take n) h
  | _ => False

structure Queued (x : Concurrent) (r : RingBuffer UInt8) : Prop where
  range : x.scullPBuffer ≤ intMax
  points : x.dev.Points r
  cells : x.opening = 0 → ∀ bytes ∈ x.dev.buffer, bytes = r.cells
  queue : replay x.history = some r.queue
  begun : ∀ (i : ℕ) (c : Call), x.calls[i]? = some c → ∀ answer, c.stage = .halfway answer →
    Begun r answer c.op
  explained : ∀ (i : ℕ) (c : Call), x.calls[i]? = some c → c.Explained (x.entries i)
  logged : ∀ e ∈ x.log, e.1 < x.calls.length

theorem Queued.linearizable {x : Concurrent} {r : RingBuffer UInt8} (queued : Queued x r) :
    x.Linearizable :=
  ⟨r, queued.points, fun h => ⟨queued.points, queued.cells h⟩, queued.queue,
    replay_eq queued.queue, queued.explained⟩

section Entries

variable {x x' : Concurrent} {r : RingBuffer UInt8} {i : ℕ} {c : Call}

/-- Entries of one call do not count for another. -/
theorem entries_append (log : List (ℕ × QueueOp UInt8)) (ops : List (QueueOp UInt8)) (i j : ℕ) :
    ((log ++ ops.map (i, ·)).filter (·.1 = j)).map Prod.snd =
      (log.filter (·.1 = j)).map Prod.snd ++ if i = j then ops else [] := by
  rw [List.filter_append, List.map_append]
  congr 1
  by_cases hij : i = j
  · simp [hij, List.filter_map, Function.comp_def]
  · simp [hij, List.filter_map, Function.comp_def]

/-- A failure without an entry is explained. -/
theorem explains_failure (op : Op) {answer : Answer} (h : answer.retval < 0) :
    op.Explains answer [] := by
  cases op with
  | «open» mode => exact .inr ⟨h, rfl⟩
  | read fd count => exact .inr ⟨h, rfl⟩
  | write fd buf => exact .inr ⟨h, rfl⟩
  | _ => rfl

theorem explained_unanswered (op : Op) {stage : Stage} (h : Unanswered stage) :
    (⟨op, stage⟩ : Call).Explained [] := by
  rcases h with hidle | ⟨e, he, rfl⟩
  · cases stage <;> first | rfl | cases hidle
  · exact explains_failure op (show -e < 0 by omega)

theorem explained_idle {ops : List (QueueOp UInt8)} (hidle : c.stage.idle = true)
    (h : c.Explained ops) : ops = [] := by
  obtain ⟨op, stage⟩ := c
  cases stage <;> first | exact h | cases hidle

theorem explained_wakeUp {q : WaitQueue} {ops : List (QueueOp UInt8)} (h : c.Explained ops) :
    (c.wakeUp q).Explained ops := by
  unfold Call.wakeUp
  split_ifs
  · split
    · rename_i hstage
      rw [Call.Explained, hstage] at h
      exact h
    · rename_i hstage
      rw [Call.Explained, hstage] at h
      exact h
    · exact h
  · exact h

/-- A step of one call, with what it adds to the history. -/
theorem Queued.next {r' : RingBuffer UInt8} {stage : Stage} (queued : Queued x r)
    (ops : List (QueueOp UInt8)) (hc : x.calls[i]? = some c)
    (hcalls : x'.calls = x.calls.set i { c with stage := stage })
    (hlog : x'.log = x.log ++ ops.map (i, ·)) (hrange : x'.scullPBuffer = x.scullPBuffer)
    (points : x'.dev.Points r')
    (cells : x'.opening = 0 → ∀ bytes ∈ x'.dev.buffer, bytes = r'.cells)
    (queue : replay (x.history ++ ops) = some r'.queue)
    (begun : ∀ answer, stage = .halfway answer → Begun r' answer c.op)
    (others : ∀ j d, j ≠ i → x.calls[j]? = some d → ∀ answer, d.stage = .halfway answer →
      Begun r' answer d.op)
    (explained : Call.Explained { c with stage := stage } (x.entries i ++ ops)) :
    Queued x' r' where
  range := hrange ▸ queued.range
  points := points
  cells := cells
  queue := by
    have hhistory : x'.history = x.history ++ ops := by
      rw [Concurrent.history, hlog, List.map_append, List.map_map]
      exact congrArg (_ ++ ·) (List.map_id _)
    rw [hhistory, queue]
  begun := by
    rw [hcalls]
    exact forall_getElem?_set begun others
  explained := by
    rw [hcalls]
    refine forall_getElem?_set ?_ ?_
    · rw [Concurrent.entries, hlog, entries_append, if_pos rfl]
      exact explained
    · intro j d hj hd
      rw [Concurrent.entries, hlog, entries_append, if_neg (Ne.symm hj), List.append_nil]
      exact queued.explained j d hd
  logged := by
    rw [hlog, hcalls, List.length_set]
    intro e he
    rcases List.mem_append.mp he with hold | hnew
    · exact queued.logged e hold
    · obtain ⟨op, -, rfl⟩ := List.mem_map.mp hnew
      exact (List.getElem?_eq_some_iff.mp hc).1

/-- A step of one call that leaves the buffer alone. -/
theorem Queued.move {stage : Stage} (queued : Queued x r) (hc : x.calls[i]? = some c)
    (hcalls : x'.calls = x.calls.set i { c with stage := stage }) (hlog : x'.log = x.log)
    (hrange : x'.scullPBuffer = x.scullPBuffer) (hdev : x'.dev = x.dev)
    (hfrom : ∀ answer, c.stage ≠ .halfway answer) (hto : ∀ answer, stage ≠ .halfway answer)
    (explained : Call.Explained { c with stage := stage } (x.entries i)) : Queued x' r := by
  have hopening : x'.opening = x.opening := by
    rw [Concurrent.opening, hcalls]
    exact countP_set_of_eq hc ((opens_eq_false (c := ⟨c.op, stage⟩) hto).trans
      (opens_eq_false hfrom).symm)
  refine queued.next [] hc hcalls (hlog.trans (List.append_nil _).symm) hrange
    (hdev ▸ queued.points) (fun h => hdev ▸ queued.cells (hopening ▸ h))
    ((congrArg replay (List.append_nil _)).trans queued.queue)
    (fun answer h => absurd h (hto answer)) (fun j d _ hd => queued.begun j d hd) ?_
  rwa [List.append_nil]

theorem Queued.holds (queued : Queued x r) (hopening : x.opening = 0) : x.dev.Holds r :=
  ⟨queued.points, queued.cells hopening⟩

/-- Another size for the openings to come. -/
theorem Queued.tell (queued : Queued x r) (hrange : x'.scullPBuffer ≤ intMax)
    (hdev : x'.dev = x.dev) (hcalls : x'.calls = x.calls) (hlog : x'.log = x.log) :
    Queued x' r := by
  obtain ⟨scullPBuffer, dev, sem, files, calls, log⟩ := x'
  subst hdev hcalls hlog
  exact ⟨hrange, queued.points, queued.cells, queued.queue, queued.begun, queued.explained,
    queued.logged⟩

/-- A new call. -/
theorem Queued.concat {op : Op} (queued : Queued x r)
    (hcalls : x'.calls = x.calls ++ [⟨op, .entering⟩]) (hlog : x'.log = x.log)
    (hrange : x'.scullPBuffer = x.scullPBuffer) (hdev : x'.dev = x.dev) : Queued x' r where
  range := hrange ▸ queued.range
  points := hdev ▸ queued.points
  cells := by
    intro hopening
    rw [Concurrent.opening, hcalls, List.countP_append] at hopening
    exact hdev ▸ queued.cells (Nat.eq_zero_of_add_eq_zero_right hopening)
  queue := by
    rw [Concurrent.history, hlog]
    exact queued.queue
  begun := by
    rw [hcalls]
    exact forall_getElem?_concat (fun _ h => by cases h) queued.begun
  explained := by
    rw [hcalls]
    have hentries : ∀ j, x'.entries j = x.entries j := fun j => by
      rw [Concurrent.entries, Concurrent.entries, hlog]
    refine forall_getElem?_concat ?_ fun j d hd => hentries j ▸ queued.explained j d hd
    -- no entry has the number of the new call
    show x'.entries x.calls.length = []
    rw [hentries, Concurrent.entries, List.map_eq_nil_iff, List.filter_eq_nil_iff]
    intro e he h
    have hlt := queued.logged e he
    simp only [decide_eq_true_eq] at h
    omega
  logged := by
    rw [hlog, hcalls, List.length_append]
    exact fun e he => Nat.lt_add_right _ (queued.logged e he)

end Entries

/-! ## Bodies -/

section Bodies

variable {dev : ScullPipe} {r : RingBuffer UInt8}

/-- An opening that fits makes the buffer empty. -/
theorem ScullPipe.reopen_holds {scullPBuffer : ℤ} {bytes : List UInt8}
    (hrange : scullPBuffer ≤ intMax) (hbuffer : dev.buffer = some bytes)
    (hfits : 0 ≤ scullPBuffer ∧ scullPBuffer ≤ max 1 bytes.length) (mode : Mode) :
    ∃ r' : RingBuffer UInt8, (dev.reopen scullPBuffer mode).Holds r' ∧
      r'.queue = .empty (scullPBuffer.toNat - 1) := by
  obtain ⟨size, rfl⟩ := Int.eq_ofNat_of_zero_le hfits.1
  refine ⟨.ofCells bytes size (by omega), ?_, rfl⟩
  exact {
    buffersize := rfl
    bufEnd := rfl
    rp := rfl
    wp := rfl
    cells := by
      intro other hother
      exact Option.some.inj (hother.symm.trans hbuffer)
    size_le := hrange }

/-- The allocation of an opening leaves the pointers alone. -/
theorem OpenSpec.points {scullPBuffer : ℤ} {answer : Answer} {dev' : ScullPipe}
    (spec : OpenSpec scullPBuffer dev (answer, dev')) (points : dev.Points r) : dev'.Points r := by
  cases spec with
  | found bytes => exact points
  | allocated bytes =>
      exact ⟨points.buffersize, points.bufEnd, points.rp, points.wp, points.size_le⟩
  | failed => exact points

theorem ScullPipe.Holds.release (holds : dev.Holds r) (mode : Mode) :
    (scullPRelease dev mode).2.Holds r where
  buffersize := holds.buffersize
  bufEnd := holds.bufEnd
  rp := holds.rp
  wp := holds.wp
  cells := by
    intro bytes hbytes
    have hbuffer : ∀ (p : Prop) [Decidable p],
        bytes ∈ (if p then none else dev.buffer) → bytes ∈ dev.buffer := by
      intro p _ h
      split_ifs at h
      · cases h
      · exact h
    exact holds.cells bytes (hbuffer _ hbytes)
  size_le := holds.size_le

theorem scullPPoll_ok (points : dev.Points r) : ∃ answer, scullPPoll dev = .ok (answer, dev) := by
  rw [scullPPoll, points.spacefree_eq]
  exact ⟨_, rfl⟩

theorem ready_ok (points : dev.Points r) (q : WaitQueue) : ∃ ans, ready dev q = .ok ans := by
  cases q with
  | inq => exact ⟨_, rfl⟩
  | outq =>
      rw [ready, points.spacefree_eq]
      exact ⟨_, rfl⟩

end Bodies

section Steps

variable {x x' : Concurrent} {a : Action} {r : RingBuffer UInt8} {i : ℕ} {c : Call}

/-- What the call that holds the semaphore can do: wait, fail or answer at once, or go on with
the pointers. -/
inductive BodySpec (r : RingBuffer UInt8) (op : Op) : Option (Answer × ScullPipe) → Prop
  | waits : BodySpec r op none
  | acts (answer : Answer) (dev : ScullPipe) (r' : RingBuffer UInt8)
      (hdone : op.goesOn answer = false) (holds : dev.Holds r') (queue : r'.queue = r.queue)
      (explains : op.Explains answer []) : BodySpec r op (some (answer, dev))
  | begins (answer : Answer) (dev : ScullPipe) (r' : RingBuffer UInt8)
      (hgoesOn : op.goesOn answer = true) (points : dev.Points r')
      (cells : op.queue ≠ none → ∀ bytes ∈ dev.buffer, bytes = r'.cells)
      (queue : r'.queue = r.queue) (begun : Begun r' answer op) :
      BodySpec r op (some (answer, dev))

/-- **The bodies do not fault.** -/
theorem bodySpec {scullPBuffer : ℤ} {dev : ScullPipe} (holds : dev.Holds r) {op : Op}
    (halloc : op.queue ≠ none → dev.buffer ≠ none) (env : Env) :
    ∃ out, op.body scullPBuffer dev env = .ok out ∧ BodySpec r op out := by
  cases op with
  | «open» mode =>
      have spec := scullPOpen_spec scullPBuffer dev env.memory
      generalize hopen : scullPOpen scullPBuffer dev env.memory = out at spec
      refine ⟨some out, by rw [Op.body, hopen], ?_⟩
      have points := spec.points holds.toPoints
      cases spec with
      | failed => exact .acts _ _ r rfl holds rfl (.inr ⟨by decide, rfl⟩)
      | _ => exact .begins _ _ r rfl points (fun h => absurd rfl h) rfl rfl
  | release mode => exact ⟨_, rfl, .acts _ _ r rfl (holds.release mode) rfl rfl⟩
  | poll fd =>
      obtain ⟨answer, hpoll⟩ := scullPPoll_ok holds.toPoints
      refine ⟨some (answer, dev), ?_, .acts _ _ r rfl holds rfl rfl⟩
      rw [Op.body, hpoll]
      rfl
  | read fd count =>
      by_cases hempty : dev.rp = dev.wp
      · refine ⟨none, ?_, .waits⟩
        rw [Op.body, scullPRead, if_pos hempty]
        rfl
      · have hne : r.rp ≠ r.wp := by rwa [holds.rp, holds.wp] at hempty
        have hrun := r.run_pos hne
        rcases scullPRead_spec holds (halloc (Option.some_ne_none _)) hempty count env.fault
          with hread | ⟨user, hread⟩
        · have hbody : (Op.read fd count).body scullPBuffer dev env = .ok (some
              (⟨(min count r.run : ℕ), r.contents.take (min count r.run)⟩, dev)) := by
            rw [Op.body, hread]
            rfl
          refine ⟨_, hbody, .begins _ _ r ?_ holds.toPoints (fun _ => holds.cells) rfl ?_⟩
          · exact decide_eq_true (Int.natCast_nonneg (min count r.run))
          · exact ⟨_, Nat.min_le_left _ _, Nat.min_le_right _ _, fun h => by omega, rfl⟩
        · have hbody : (Op.read fd count).body scullPBuffer dev env =
              .ok (some (⟨-EFAULT, user⟩, dev)) := by
            rw [Op.body, hread]
            rfl
          exact ⟨_, hbody, .acts _ _ r rfl holds rfl (.inr ⟨show -EFAULT < 0 by decide, rfl⟩)⟩
  | write fd buf =>
      by_cases hfull : spacefree dev = .ok 0
      · refine ⟨none, ?_, .waits⟩
        rw [Op.body, scullPWrite, hfull]
        rfl
      · obtain ⟨xs, hxs, answer, dev', hwrite, holds', hanswer, -, -⟩ :=
          scullPWrite_spec holds (halloc (Option.some_ne_none _)) hfull buf env.fault
        refine ⟨_, hwrite, ?_⟩
        have hqueue : (r.scribble xs hxs).queue = r.queue :=
          Queue.ext rfl (r.contents_scribble hxs)
        rcases hanswer with ⟨rfl, rfl⟩ | rfl
        · refine .begins _ _ _ ?_ holds'.toPoints (fun _ => holds'.cells) hqueue ?_
          · exact decide_eq_true (Int.natCast_nonneg (min buf.length r.room))
          · exact ⟨_, r, hxs, Nat.min_le_left _ _, rfl, rfl⟩
        · exact .acts _ _ _ rfl holds' hqueue (.inr ⟨by decide, rfl⟩)

/-- Waking up changes nothing but who sleeps. -/
theorem Queued.wakeUp (queued : Queued x r) (q : Option WaitQueue) : Queued (x.wakeUp q) r := by
  have hcells := queued.cells
  rw [← opening_wakeUp x q, ← wakeUp_dev x q] at hcells
  cases q with
  | none => exact queued
  | some q =>
      have hcalls : ∀ {j : ℕ} {d : Call}, (x.calls.map (Call.wakeUp q))[j]? = some d →
          ∃ d₀, x.calls[j]? = some d₀ ∧ d₀.wakeUp q = d := by
        intro j d hd
        rw [List.getElem?_map] at hd
        exact Option.map_eq_some_iff.mp hd
      refine ⟨queued.range, queued.points, hcells, queued.queue, ?_, ?_, ?_⟩
      · intro j d hd answer hstage
        obtain ⟨d₀, hd₀, rfl⟩ := hcalls hd
        rw [op_wakeUp]
        exact queued.begun j d₀ hd₀ answer (halfway_of_wakeUp hstage)
      · intro j d hd
        obtain ⟨d₀, hd₀, rfl⟩ := hcalls hd
        exact explained_wakeUp (queued.explained j d₀ hd₀)
      · intro e he
        show e.1 < (x.calls.map (Call.wakeUp q)).length
        rw [List.length_map]
        exact queued.logged e he

/-- The pointers: a transfer takes its bytes out or puts them in, and an opening that fits
empties the buffer. -/
theorem Queued.commit (queued : Queued x r) {op : Op} {answer : Answer}
    (begun : Begun r answer op) (hopening : op.queue ≠ none → x.opening = 0)
    (hfits : ∀ mode, op = .open mode → x.dev.buffer ≠ none ∧ x.Fits) :
    ∃ r', (op.commit x.scullPBuffer answer x.dev).Holds r' ∧
      replay (x.history ++ op.moved x.scullPBuffer answer) = some r'.queue ∧
      op.Explains answer (op.moved x.scullPBuffer answer) := by
  cases op with
  | «open» mode =>
      obtain ⟨halloc, hfits⟩ := hfits mode rfl
      obtain ⟨bytes, hbuffer⟩ := Option.ne_none_iff_exists'.mp halloc
      obtain ⟨r', holds, hqueue⟩ :=
        ScullPipe.reopen_holds queued.range hbuffer (hfits bytes hbuffer) mode
      obtain rfl : answer = ⟨0, []⟩ := begun
      refine ⟨r', holds, ?_, .inl ⟨rfl, _, rfl⟩⟩
      rw [Op.moved, replay_concat, queued.queue, hqueue]
      rfl
  | read fd count =>
      have holds := queued.holds (hopening (Option.some_ne_none _))
      obtain ⟨n, hcount, hrun, hpos, rfl⟩ := begun
      have hlength : (r.contents.take n).length = n := by
        rw [List.length_take]
        exact Nat.min_eq_left (hrun.trans r.run_le)
      refine ⟨r.read n hrun, holds.advanceRp hrun, ?_, .inl ⟨?_, ?_, ?_, rfl⟩⟩
      · rw [Op.moved, replay_concat, queued.queue]
        exact r.queue_read hrun
      · show (n : ℤ) = (r.contents.take n).length
        rw [hlength]
      · show (r.contents.take n).length ≤ count
        rwa [hlength]
      · intro hread
        exact List.ne_nil_of_length_pos (hlength.symm ▸ hpos hread)
  | write fd buf =>
      have holds := queued.holds (hopening (Option.some_ne_none _))
      obtain ⟨n, r₀, h, hn, rfl, rfl⟩ := begun
      have hlength : (buf.take n).length = n := by
        rw [List.length_take]
        exact Nat.min_eq_left hn
      refine ⟨r₀.write (buf.take n) h, ?_, ?_, .inl ⟨n, hn, rfl, rfl⟩⟩
      · have hadvance := holds.advanceWp
        rwa [hlength] at hadvance
      · have hqueue : (r₀.scribble (buf.take n) h).queue = r₀.queue :=
          Queue.ext rfl (r₀.contents_scribble h)
        rw [Op.moved, replay_concat, queued.queue, hqueue]
        exact r₀.queue_write h
  | _ => exact begun.elim

/-- No other call is halfway while call `i` holds the semaphore. -/
theorem no_other_halfway (balanced : x.Balanced) (hc : x.calls[i]? = some c)
    (hinside : c.stage.inside = true) {P : Call → Answer → Prop} (j : ℕ) (d : Call) (hj : j ≠ i)
    (hd : x.calls[j]? = some d) (answer : Answer) (hstage : d.stage = .halfway answer) :
    P d answer := by
  have hcount : x.calls.countP (·.stage.inside) ≤ 1 := by
    unfold Concurrent.Balanced at balanced
    omega
  exact absurd (eq_of_countP_le_one hcount hd hc (by rw [hstage]; rfl) hinside) hj

theorem explained_holding (queued : Queued x r) (hc : x.calls[i]? = some c)
    (hanswer : c.stage.answer = none) : x.entries i = [] := by
  have h := queued.explained i c hc
  rwa [Call.Explained, hanswer] at h

/-- The call that holds the semaphore does its section. -/
theorem Queued.body (queued : Queued x r) (balanced : x.Balanced) (counted : Counted x)
    (hc : x.calls[i]? = some c) (hstage : c.stage = .holding) (env : Env) :
    ∃ out, c.op.body x.scullPBuffer x.dev env = .ok out ∧ BodySpec r c.op out := by
  have hopening : x.opening = 0 :=
    opening_eq_zero balanced hc (by rw [hstage]; rfl) (opens_eq_false (by simp [hstage]))
  exact bodySpec (queued.holds hopening)
    (fun h => counted.alloc (List.mem_of_getElem? hc) (by rw [Call.busy, hstage]) h) env

/-- An opening that goes on is one that has its buffer. -/
theorem opening_pos {answer : Answer} (hc : x.calls[i]? = some c)
    (hcalls : x'.calls = x.calls.set i { c with stage := .halfway answer }) {mode : Mode}
    (hop : c.op = .open mode) : 0 < x'.opening := by
  have hset := List.getElem?_set_self (a := ({ c with stage := .halfway answer } : Call))
    (List.getElem?_eq_some_iff.mp hc).1
  rw [Concurrent.opening, hcalls]
  refine List.countP_pos_iff.mpr ⟨_, List.mem_of_getElem? hset, ?_⟩
  rw [Call.opens, hop]

theorem Queued.effect (queued : Queued x r) (balanced : x.Balanced) (counted : Counted x)
    (hfits : AtOpenings Concurrent.Fits x a) (heffect : Effect x a x') : ∃ r', Queued x' r' := by
  cases heffect with
  | stays => exact ⟨r, queued⟩
  | called op => exact ⟨r, queued.concat rfl rfl rfl rfl⟩
  | closed fd mode => exact ⟨r, queued.concat rfl rfl rfl rfl⟩
  | told arg =>
      exact ⟨r, queued.tell (wrap32_range arg).2 rfl rfl rfl⟩
  | moves i env c stage hc hfrom hto =>
      refine ⟨r, queued.move hc rfl rfl rfl rfl (halfway_of_unanswered (.inl hfrom))
        (halfway_of_unanswered hto.unanswered) ?_⟩
      rw [explained_idle hfrom (queued.explained i c hc)]
      exact explained_unanswered c.op hto.unanswered
  | acquires i env c sem hc hstage =>
      refine ⟨r, queued.move hc rfl rfl rfl rfl (by simp [hstage]) (fun _ => Stage.noConfusion) ?_⟩
      exact explained_holding queued hc (by rw [hstage]; rfl)
  | blocks i env c hc hstage =>
      refine ⟨r, queued.move hc rfl rfl rfl rfl (by simp [hstage]) (fun _ => Stage.noConfusion) ?_⟩
      exact explained_holding queued hc (by rw [hstage]; rfl)
  | acts i env c answer dev hc hstage hbody hdone =>
      obtain ⟨out, hout, spec⟩ := queued.body balanced counted hc hstage env
      obtain rfl : out = some (answer, dev) := Except.ok.inj (hout.symm.trans hbody)
      cases spec with
      | acts answer dev r' _ holds queue explains =>
          refine ⟨r', queued.next [] hc rfl (List.append_nil _).symm rfl holds.toPoints
            (fun _ => holds.cells) ?_ (fun _ h => by cases h)
            (no_other_halfway balanced hc (by rw [hstage]; rfl)) ?_⟩
          · rw [List.append_nil, queue]
            exact queued.queue
          · rw [explained_holding queued hc (by rw [hstage]; rfl)]
            exact explains
      | begins answer dev r' hgoesOn =>
          rw [hgoesOn] at hdone
          cases hdone
  | begins i env c answer dev hc hstage hbody hgoesOn =>
      obtain ⟨out, hout, spec⟩ := queued.body balanced counted hc hstage env
      obtain rfl : out = some (answer, dev) := Except.ok.inj (hout.symm.trans hbody)
      cases spec with
      | acts answer dev r' hdone =>
          rw [hdone] at hgoesOn
          cases hgoesOn
      | begins answer dev r' _ points cells queue begun =>
          refine ⟨r', queued.next [] hc rfl (List.append_nil _).symm rfl points ?_ ?_
            (fun _ h => Stage.halfway.inj h ▸ begun)
            (no_other_halfway balanced hc (by rw [hstage]; rfl)) ?_⟩
          · -- the buffer of an opening is not in use yet
            intro hopening
            rcases goesOn_cases hgoesOn with htransfer | ⟨mode, hop, -⟩
            · exact cells htransfer
            · exact absurd hopening (opening_pos hc rfl hop).ne'
          · rw [List.append_nil, queue]
            exact queued.queue
          · rw [explained_holding queued hc (by rw [hstage]; rfl)]
            rfl
  | commits i env c answer hc hstage =>
      have hopening : c.op.queue ≠ none → x.opening = 0 := fun htransfer =>
        opening_eq_zero balanced hc (by rw [hstage]; rfl) (opens_of_queue htransfer c.stage)
      have hopens : ∀ mode, c.op = .open mode → x.dev.buffer ≠ none ∧ x.Fits := by
        intro mode hop
        have hc' : c.opens = true := by rw [Call.opens, hop, hstage]
        exact ⟨counted.begun (List.countP_pos_iff.mpr ⟨c, List.mem_of_getElem? hc, hc'⟩),
          hfits c hc hc'⟩
      obtain ⟨r', holds, queue, explains⟩ :=
        queued.commit (queued.begun i c hc answer hstage) hopening hopens
      refine ⟨r', queued.next _ hc rfl rfl rfl holds.toPoints (fun _ => holds.cells) queue
        (fun _ h => by cases h) (no_other_halfway balanced hc (by rw [hstage]; rfl)) ?_⟩
      rw [explained_holding queued hc (by rw [hstage]; rfl)]
      exact explains
  | releases i env c stage hc hstage hto =>
      refine ⟨r, queued.move hc rfl rfl rfl rfl (by simp [hstage]) (halfway_of_unanswered hto) ?_⟩
      rw [explained_holding queued hc (by rw [hstage]; rfl)]
      exact explained_unanswered c.op hto
  | answers i env c answer hc hstage =>
      refine ⟨r, queued.move hc rfl rfl rfl rfl (by simp [hstage]) (halfway_finish c.op answer) ?_⟩
      have hexplained := queued.explained i c hc
      rw [Call.Explained, hstage] at hexplained
      rw [Call.Explained, answer_finish]
      exact hexplained
  | wakes i env c answer hc hstage =>
      have hexplained := queued.explained i c hc
      rw [Call.Explained, hstage] at hexplained
      have queued' : Queued (x.advance i c (.returned answer)) r :=
        queued.move hc rfl rfl rfl rfl (by simp [hstage]) (fun _ => Stage.noConfusion) hexplained
      exact ⟨r, queued'.wakeUp c.op.wakes⟩

/-- Only the ring has to be known for the steps that test a condition. -/
theorem Queued.step_ok (queued : Queued x r) (balanced : x.Balanced) (counted : Counted x) :
    ∃ x', x.step a = .ok x' := by
  cases a with
  | call op => exact ⟨_, rfl⟩
  | close fd =>
      simp only [Concurrent.step]
      cases x.mode fd with
      | none => exact ⟨_, rfl⟩
      | some mode =>
          dsimp only
          split_ifs
          · exact ⟨_, rfl⟩
          · exact ⟨_, rfl⟩
  | tell arg => exact ⟨_, rfl⟩
  | next i env =>
      simp only [Concurrent.step]
      cases hc : x.calls[i]? with
      | none => exact ⟨_, rfl⟩
      | some c =>
          simp only [Concurrent.next]
          cases hstage : c.stage with
          | entering =>
              dsimp only
              split_ifs
              · exact ⟨_, rfl⟩
              · split <;> exact ⟨_, rfl⟩
          | holding =>
              obtain ⟨out, hout, -⟩ := queued.body balanced counted hc hstage env
              rw [hout]
              exact ⟨_, rfl⟩
          | leaving answer => cases answer <;> exact ⟨_, rfl⟩
          | testing =>
              obtain ⟨ans, hready⟩ := ready_ok queued.points .inq
              rw [hready]
              exact ⟨_, rfl⟩
          | queued woken =>
              obtain ⟨inq, hinq⟩ := ready_ok queued.points .inq
              obtain ⟨outq, houtq⟩ := ready_ok queued.points .outq
              obtain ⟨stage, hretest⟩ : ∃ stage, x.retest c env woken = .ok stage := by
                unfold Concurrent.retest
                split
                · rw [hinq, ok_bind]
                  split_ifs <;> exact ⟨_, rfl⟩
                · rw [houtq, ok_bind]
                  split_ifs <;> exact ⟨_, rfl⟩
              dsimp only
              rw [hretest]
              exact ⟨_, rfl⟩
          | asleep woken =>
              dsimp only
              split_ifs <;> exact ⟨_, rfl⟩
          | _ => exact ⟨_, rfl⟩

end Steps

/-! ## Runs -/

theorem Queued.init {scullPBuffer : ℤ} (hrange : scullPBuffer ≤ intMax) :
    Queued (.init scullPBuffer) (.ofCells [] 0 (by decide)) where
  range := hrange
  points :=
    { buffersize := rfl
      bufEnd := rfl
      rp := rfl
      wp := rfl
      size_le := by decide }
  cells := fun _ _ h => by cases h
  queue := rfl
  begun := fun _ _ h => by cases h
  explained := fun _ _ h => by cases h
  logged := fun _ h => by cases h

/-- What every state of a run satisfies. -/
def Concurrent.Ok (x : Concurrent) : Prop := x.Balanced ∧ Counted x ∧ ∃ r, Queued x r

theorem Concurrent.Ok.init {scullPBuffer : ℤ} (hrange : scullPBuffer ≤ intMax) :
    (Concurrent.init scullPBuffer).Ok :=
  ⟨balanced_init scullPBuffer, .init scullPBuffer, _, .init hrange⟩

/-- An opening finds the counters below their maximum, and a buffer that fits. -/
def Concurrent.Opens (x : Concurrent) : Prop := x.Few ∧ x.Fits

instance (x : Concurrent) : Decidable x.Opens := by
  unfold Concurrent.Opens
  infer_instance

theorem AtOpenings.mono {P Q : Concurrent → Prop} (hPQ : ∀ x, P x → Q x) {x : Concurrent}
    {a : Action} (h : AtOpenings P x a) : AtOpenings Q x a := by
  cases a with
  | next i env => exact fun c hc hopens => hPQ x (h c hc hopens)
  | _ => trivial

theorem Concurrent.Ok.step {x : Concurrent} (ok : x.Ok) {a : Action}
    (hopens : AtOpenings Concurrent.Opens x a) : ∃ x', x.step a = .ok x' ∧ x'.Ok := by
  obtain ⟨balanced, counted, r, queued⟩ := ok
  obtain ⟨x', hx'⟩ := queued.step_ok (a := a) balanced counted
  have heffect := Concurrent.effect hx'
  exact ⟨x', hx', balanced.effect heffect,
    counted.effect balanced (hopens.mono fun _ h => h.1) heffect,
    queued.effect balanced counted (hopens.mono fun _ h => h.2) heffect⟩

end KernelTraining.Pipe
