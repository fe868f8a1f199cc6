import KernelTraining.Machine.Calls
import KernelTraining.Machine.Run
import KernelTraining.Task08.Foo

/-!
# The semaphore of foo

Any number of callers are in `task08_read_foo` and `task08_write_foo`.  A call waits for
the semaphore, has acquired it, copies, has copied, and returns; `down_read` and
`down_write` are granted by the rule of a reader-writer semaphore.  Neither function has
an `up_read` or `up_write`.

So writers never overlap with anybody (`copies_exclude`), but the semaphore is held by the
calls in progress, and by them only, exactly until the first call returns
(`balanced_iff`), and what it has refused once it refuses for ever (`never_admitted`).

## Strategy

The semaphore counts its holders, and knows nothing of the calls; the calls know in which
stage they are.  The theorems compare the two counts.  So what a step does is said once, in
terms of them (`Effect`, `Concurrent.effect`): it changes neither, or grants the semaphore,
which adds one to both, or lets a call return, which takes one from the calls and nothing from
the semaphore.  All that follows is by cases on these three.

* `Guarded`: the semaphore has at least the holders that it should have.  This is kept by all
  steps, and is enough for mutual exclusion, as a semaphore that excludes more than it should
  still excludes (`pairwise_of_countP`).
* `Accounted`: it has exactly those.  This is kept as long as nobody returns, and lost when
  somebody does (`Accounted.effect`), which is the equivalence.
* Nothing ever releases the semaphore, so what it refuses in one state it refuses in all later
  ones (`Effect.admits`).
-/

namespace KernelTraining.Task08

open Machine

/-! ## Reader-writer semaphores -/

inductive Mode where
  | read
  | write
  deriving DecidableEq

/-- Who holds a semaphore. -/
structure Rwsem where
  readers : ℕ
  writer : Bool
  deriving DecidableEq

namespace Rwsem

/-- `init_rwsem`. -/
def init : Rwsem := ⟨0, false⟩

/-- Readers keep writers out, and a writer everybody. -/
def admits (sem : Rwsem) : Mode → Bool
  | .read => !sem.writer
  | .write => !sem.writer && sem.readers = 0

/-- `down_read` and `down_write`, once granted. -/
def down (sem : Rwsem) : Mode → Rwsem
  | .read => { sem with readers := sem.readers + 1 }
  | .write => { sem with writer := true }

/-- The number of holders in a mode. -/
def count (sem : Rwsem) : Mode → ℕ
  | .read => sem.readers
  | .write => sem.writer.toNat

/-- Nobody holds the semaphore together with a writer. -/
def Exclusive (sem : Rwsem) : Prop := sem.writer = true → sem.readers = 0

theorem exclusive_init : init.Exclusive := fun h => by simp [init] at h

theorem count_init (m : Mode) : init.count m = 0 := by
  cases m <;> rfl

theorem count_down {sem : Rwsem} {m : Mode} (hadmits : sem.admits m = true) (m' : Mode) :
    (sem.down m).count m' = sem.count m' + if m' = m then 1 else 0 := by
  cases m with
  | read => cases m' <;> rfl
  | write =>
      obtain ⟨hwriter, -⟩ : sem.writer = false ∧ sem.readers = 0 := by
        simpa [admits] using hadmits
      cases m' with
      | read => rfl
      | write => simp [down, count, hwriter]

theorem exclusive_down {sem : Rwsem} {m : Mode} (hadmits : sem.admits m = true) :
    (sem.down m).Exclusive := by
  cases m with
  | read =>
      intro hwriter
      have hwriter' : sem.writer = true := hwriter
      simp [admits, hwriter'] at hadmits
  | write =>
      intro _
      have hfree : sem.writer = false ∧ sem.readers = 0 := by simpa [admits] using hadmits
      exact hfree.2

/-- A free semaphore admits everybody. -/
theorem admits_of_free {sem : Rwsem} (hfree : ∀ m, sem.count m = 0) (m : Mode) :
    sem.admits m = true := by
  have hreaders : sem.readers = 0 := hfree .read
  have hwriter : sem.writer = false := by simpa [count] using hfree .write
  cases m with
  | read => simp [admits, hwriter]
  | write => simp [admits, hwriter, hreaders]

end Rwsem

/-! ## The calls in progress -/

inductive Request where
  | read (count : ℕ) (fPos : ℤ) (fault : Option ℕ)
  | write (buf : List UInt8) (fPos : ℤ) (fault : Option ℕ)
  deriving DecidableEq

def Request.mode : Request → Mode
  | .read _ _ _ => .read
  | .write _ _ _ => .write

/-- The call of the helper, and what `task08_write_foo` does with its result. -/
def Request.run (K : Kernel) (s : Foo) : Request → ℤ × Foo
  | .read count fPos fault => ((task08ReadFoo K s count fPos fault).retval, s)
  | .write buf fPos fault =>
      let out := task08WriteFoo K s buf fPos fault
      (out.retval, out.foo)

inductive Stage where
  | waiting
  | acquired
  | copying
  | copied (retval : ℤ)
  deriving DecidableEq

structure InProgress where
  request : Request
  stage : Stage
  deriving DecidableEq

/-- The call has acquired the semaphore in this mode. -/
def InProgress.holds (m : Mode) (call : InProgress) : Bool :=
  call.stage ≠ .waiting ∧ call.request.mode = m

structure Concurrent where
  foo : Foo
  sem : Rwsem
  calls : List InProgress

/-- A call is made, or call `i` is granted the semaphore, begins or finishes its copy, or
returns. -/
inductive Action where
  | call (request : Request)
  | acquire (i : ℕ)
  | copy (i : ℕ)
  | finish (i : ℕ)
  | leave (i : ℕ)

/-- Call `i` gets to another stage. -/
def Concurrent.advance (x : Concurrent) (i : ℕ) (request : Request) (stage : Stage) :
    Concurrent :=
  { x with calls := x.calls.set i ⟨request, stage⟩ }

def Concurrent.step (K : Kernel) (x : Concurrent) : Action → Except Fault Concurrent
  | .call request => .ok { x with calls := x.calls ++ [⟨request, .waiting⟩] }
  | .acquire i =>
      match x.calls[i]? with
      | some ⟨request, .waiting⟩ =>
          if x.sem.admits request.mode then
            .ok { x.advance i request .acquired with sem := x.sem.down request.mode }
          else .ok x
      | _ => .ok x
  | .copy i =>
      match x.calls[i]? with
      | some ⟨request, .acquired⟩ => .ok (x.advance i request .copying)
      | _ => .ok x
  | .finish i =>
      match x.calls[i]? with
      | some ⟨request, .copying⟩ =>
          let (retval, foo) := request.run K x.foo
          .ok { x.advance i request (.copied retval) with foo := foo }
      | _ => .ok x
  -- the call returns without `up_read` or `up_write`
  | .leave i =>
      match x.calls[i]? with
      | some ⟨_, .copied _⟩ => .ok { x with calls := x.calls.eraseIdx i }
      | _ => .ok x

/-- The module as `task08_init_module` leaves it, whatever the page holds. -/
def Concurrent.init (data : ℕ → UInt8) : Concurrent := ⟨⟨data, 0⟩, .init, []⟩

/-- The calls that have acquired the semaphore in a mode and not returned. -/
def Concurrent.holders (x : Concurrent) (m : Mode) : ℕ := x.calls.countP (·.holds m)

/-! ## What should hold -/

/-- The copy of a writer does not overlap another copy. -/
def CopiesExclude (x : Concurrent) : Prop :=
  x.calls.Pairwise fun c d =>
    c.stage = .copying → d.stage = .copying → c.request.mode = .read ∧ d.request.mode = .read

/-- The semaphore is held exactly by the calls that have acquired it and not returned. -/
def HeldByCalls (x : Concurrent) : Prop :=
  x.sem.count .read = x.holders .read ∧ x.sem.count .write = x.holders .write

/-- The semaphore is balanced; in particular it is free when no call is in progress. -/
def Balanced (x : Concurrent) : Prop :=
  CopiesExclude x ∧ HeldByCalls x ∧
    (x.calls = [] → x.sem.admits .read = true ∧ x.sem.admits .write = true)

/-- No call returns. -/
def NobodyReturns (x : Concurrent) : Action → Prop
  | .leave i => ∀ call ∈ x.calls[i]?, ∀ retval, call.stage ≠ .copied retval
  | _ => True

instance (x : Concurrent) : Decidable (CopiesExclude x) := by
  unfold CopiesExclude
  infer_instance

instance (x : Concurrent) : Decidable (HeldByCalls x) := inferInstanceAs (Decidable (_ ∧ _))

instance (x : Concurrent) : Decidable (Balanced x) := inferInstanceAs (Decidable (_ ∧ _ ∧ _))

/-! ## What a step can do -/

/-- The effect of a step on the semaphore and on those who should hold it. -/
inductive Effect (x : Concurrent) (act : Action) (x' : Concurrent) : Prop
  | same (nobody : NobodyReturns x act) (sem : x'.sem = x.sem)
      (holders : ∀ m, x'.holders m = x.holders m)
  | acquired (m : Mode) (nobody : NobodyReturns x act) (admits : x.sem.admits m = true)
      (sem : x'.sem = x.sem.down m)
      (holders : ∀ m', x'.holders m' = x.holders m' + if m' = m then 1 else 0)
  | returned (m : Mode) (somebody : ¬ NobodyReturns x act) (sem : x'.sem = x.sem)
      (holders : ∀ m', x'.holders m' + (if m' = m then 1 else 0) = x.holders m')

section Effects

variable {K : Kernel} {x x' : Concurrent} {act : Action} {i : ℕ}

theorem holds_waiting (m : Mode) (request : Request) :
    InProgress.holds m ⟨request, .waiting⟩ = false := by
  simp [InProgress.holds]

theorem holds_of_ne (m : Mode) (request : Request) {stage : Stage} (hstage : stage ≠ .waiting) :
    InProgress.holds m ⟨request, stage⟩ = decide (m = request.mode) := by
  simp [InProgress.holds, hstage, eq_comm]

/-- A call that moves on with the semaphore in hand. -/
theorem holders_advance {request : Request} {stage stage' : Stage}
    (hcall : x.calls[i]? = some ⟨request, stage⟩) (hstage : stage ≠ .waiting)
    (hstage' : stage' ≠ .waiting) (m : Mode) :
    (x.advance i request stage').holders m = x.holders m := by
  have hsame : InProgress.holds m ⟨request, stage'⟩ = InProgress.holds m ⟨request, stage⟩ := by
    rw [holds_of_ne m request hstage, holds_of_ne m request hstage']
  exact countP_set_of_eq hcall hsame

theorem Effect.refl (nobody : NobodyReturns x act) : Effect x act x :=
  .same nobody rfl fun _ => rfl

/-- **One step** changes nothing, grants the semaphore to one call, or lets one call
return with it. -/
theorem Concurrent.effect (hstep : x.step K act = .ok x') : Effect x act x' := by
  cases act with
  | call request =>
      obtain rfl := Except.ok.inj hstep
      refine .same trivial rfl ?_
      intro m
      show (x.calls ++ [(⟨request, .waiting⟩ : InProgress)]).countP _ = _
      rw [List.countP_append]
      simp [InProgress.holds, Concurrent.holders]
  | acquire i =>
      simp only [Concurrent.step] at hstep
      split at hstep
      · rename_i request hcall
        split_ifs at hstep with hadmits
        · -- one more call holds the semaphore, in the mode it has asked for
          obtain rfl := Except.ok.inj hstep
          refine .acquired request.mode trivial hadmits rfl ?_
          intro m
          show (x.calls.set i (⟨request, .acquired⟩ : InProgress)).countP _ = x.calls.countP _ + _
          have hset := countP_set hcall ⟨request, .acquired⟩ (InProgress.holds m)
          rw [holds_waiting, holds_of_ne m request (by simp)] at hset
          simpa using hset
        · exact Except.ok.inj hstep ▸ .refl trivial
      · exact Except.ok.inj hstep ▸ .refl trivial
  | copy i =>
      simp only [Concurrent.step] at hstep
      split at hstep
      · rename_i request hcall
        obtain rfl := Except.ok.inj hstep
        exact .same trivial rfl (holders_advance hcall (by simp) (by simp))
      · exact Except.ok.inj hstep ▸ .refl trivial
  | finish i =>
      simp only [Concurrent.step] at hstep
      split at hstep
      · rename_i request hcall
        obtain rfl := Except.ok.inj hstep
        exact .same trivial rfl (holders_advance hcall (by simp) (by simp))
      · exact Except.ok.inj hstep ▸ .refl trivial
  | leave i =>
      simp only [Concurrent.step] at hstep
      split at hstep
      · rename_i request retval hcall
        obtain rfl := Except.ok.inj hstep
        refine .returned request.mode (fun nobody => nobody _ hcall retval rfl) rfl ?_
        intro m
        show (x.calls.eraseIdx i).countP _ + _ = x.calls.countP _
        have herase := countP_eraseIdx hcall (InProgress.holds m)
        rw [holds_of_ne m request (by simp)] at herase
        simpa using herase.symm
      · rename_i hnone
        refine Except.ok.inj hstep ▸ .refl ?_
        intro call hcall retval hstage
        exact hnone call.request retval (hstage ▸ hcall)

end Effects

/-! ## Mutual exclusion -/

/-- Whoever copies holds the semaphore, so the copies exclude each other if the holders
do. -/
theorem pairwise_of_countP {calls : List InProgress}
    (hwriters : calls.countP (·.holds .write) ≤ 1)
    (hreaders : 0 < calls.countP (·.holds .write) → calls.countP (·.holds .read) = 0) :
    calls.Pairwise fun c d => c.stage = .copying → d.stage = .copying →
      c.request.mode = .read ∧ d.request.mode = .read := by
  have hholds : ∀ c : InProgress, c.stage = .copying → c.holds c.request.mode = true :=
    fun c hc => by simp [InProgress.holds, hc]
  have hread : ∀ c : InProgress, c.request.mode ≠ .write → c.request.mode = .read := fun c hc => by
    cases hmode : c.request.mode with
    | read => rfl
    | write => exact absurd hmode hc
  induction calls with
  | nil => exact .nil
  | cons c calls ih =>
      rw [List.countP_cons, List.countP_cons] at hreaders
      rw [List.countP_cons] at hwriters
      refine .cons ?_
        (ih (by omega) fun hpos => by have := hreaders (by omega); omega)
      intro d hd hcopying hcopying'
      -- a call that copies further down the list is one of the holders there
      have hd' : ∀ m, d.request.mode = m → 0 < calls.countP (·.holds m) := fun m hm =>
        List.countP_pos_iff.mpr ⟨d, hd, hm ▸ hholds d hcopying'⟩
      constructor
      · apply hread c
        intro hc
        have hc' : c.holds .write = true := hc ▸ hholds c hcopying
        rw [if_pos hc'] at hwriters hreaders
        cases hmode : d.request.mode with
        | read =>
            have := hd' .read hmode
            have := hreaders (by omega)
            omega
        | write =>
            have := hd' .write hmode
            omega
      · apply hread d
        intro hmode
        have hpos := hd' .write hmode
        have hzero := hreaders (by omega)
        cases hc : c.request.mode with
        | read =>
            rw [if_pos (hc ▸ hholds c hcopying)] at hzero
            omega
        | write =>
            rw [if_pos (hc ▸ hholds c hcopying)] at hwriters
            omega

/-- Whoever should hold the semaphore does, perhaps with others. -/
structure Guarded (x : Concurrent) : Prop where
  exclusive : x.sem.Exclusive
  holders : ∀ m, x.holders m ≤ x.sem.count m

theorem Guarded.copiesExclude {x : Concurrent} (guarded : Guarded x) : CopiesExclude x := by
  have hwriters : x.holders .write ≤ x.sem.writer.toNat := guarded.holders .write
  have hreaders : x.holders .read ≤ x.sem.readers := guarded.holders .read
  apply pairwise_of_countP (hwriters.trans (Bool.toNat_le _))
  intro hpos
  cases hwriter : x.sem.writer with
  | false =>
      have hzero : x.holders .write ≤ 0 := by rwa [hwriter] at hwriters
      exact absurd (hpos.trans_le hzero) (lt_irrefl 0)
  | true =>
      rw [guarded.exclusive hwriter] at hreaders
      exact Nat.le_zero.mp hreaders

theorem Guarded.effect {x x' : Concurrent} {act : Action} (guarded : Guarded x)
    (effect : Effect x act x') : Guarded x' := by
  cases effect with
  | same _ sem holders =>
      refine ⟨sem ▸ guarded.exclusive, ?_⟩
      intro m
      rw [sem, holders]
      exact guarded.holders m
  | acquired m _ admits sem holders =>
      refine ⟨sem ▸ Rwsem.exclusive_down admits, ?_⟩
      intro m'
      rw [sem, holders, Rwsem.count_down admits]
      exact Nat.add_le_add_right (guarded.holders m') _
  | returned m _ sem holders =>
      refine ⟨sem ▸ guarded.exclusive, ?_⟩
      intro m'
      rw [sem]
      have := holders m'
      have := guarded.holders m'
      omega

theorem Guarded.init (data : ℕ → UInt8) : Guarded (.init data) :=
  ⟨Rwsem.exclusive_init, fun _ => Nat.zero_le _⟩

/-- Every step returns. -/
theorem Concurrent.step_ok (K : Kernel) (x : Concurrent) (act : Action) :
    ∃ x', x.step K act = .ok x' := by
  cases act <;> simp only [Concurrent.step] <;> (repeat' split) <;> exact ⟨_, rfl⟩

/-- **A writer's copy never overlaps another copy**, in any run. -/
theorem copies_exclude (K : Kernel) (data : ℕ → UInt8) (actions : List Action) :
    EveryState (Concurrent.step K) CopiesExclude (.init data) actions := by
  have hguarded : EveryState (Concurrent.step K) Guarded (.init data) actions := by
    refine EveryStep.everyState (P := fun _ _ => True) ?_ (.init data)
      (everyStep_of_forall (fun _ _ => trivial) _ _)
    intro x act guarded _
    obtain ⟨x', hx'⟩ := x.step_ok K act
    exact ⟨x', hx', guarded.effect (Concurrent.effect hx')⟩
  exact hguarded.mono fun _ guarded => guarded.copiesExclude

/-! ## Balance -/

theorem heldByCalls_iff {x : Concurrent} : HeldByCalls x ↔ ∀ m, x.sem.count m = x.holders m :=
  ⟨fun h m => by cases m; exacts [h.1, h.2], fun h => ⟨h .read, h .write⟩⟩

/-- The calls in progress hold the semaphore, and nobody else does. -/
structure Accounted (x : Concurrent) : Prop where
  exclusive : x.sem.Exclusive
  held : HeldByCalls x

theorem Accounted.balanced {x : Concurrent} (accounted : Accounted x) : Balanced x := by
  have hcount := heldByCalls_iff.mp accounted.held
  refine ⟨Guarded.copiesExclude ⟨accounted.exclusive, fun m => (hcount m).ge⟩, accounted.held, ?_⟩
  intro hcalls
  have hfree : ∀ m, x.sem.count m = 0 := fun m => by
    rw [hcount m, Concurrent.holders, hcalls]
    rfl
  exact ⟨Rwsem.admits_of_free hfree .read, Rwsem.admits_of_free hfree .write⟩

/-- A step keeps the account exactly when no call returns. -/
theorem Accounted.effect {x x' : Concurrent} {act : Action} (accounted : Accounted x)
    (effect : Effect x act x') :
    (NobodyReturns x act → Accounted x') ∧ (HeldByCalls x' → NobodyReturns x act) := by
  have hcount := heldByCalls_iff.mp accounted.held
  cases effect with
  | same nobody sem holders =>
      refine ⟨fun _ => ⟨sem ▸ accounted.exclusive, heldByCalls_iff.mpr ?_⟩,
        fun _ => nobody⟩
      intro m
      rw [sem, holders, hcount]
  | acquired m nobody admits sem holders =>
      refine ⟨fun _ => ⟨sem ▸ Rwsem.exclusive_down admits, heldByCalls_iff.mpr ?_⟩,
        fun _ => nobody⟩
      intro m'
      rw [sem, holders, Rwsem.count_down admits, hcount]
  | returned m somebody sem holders =>
      refine ⟨fun nobody => absurd nobody somebody, ?_⟩
      intro held
      have hheld := heldByCalls_iff.mp held m
      have hlost := holders m
      rw [if_pos rfl] at hlost
      rw [sem, hcount] at hheld
      omega

/-- **The semaphore is balanced exactly until the first call returns.**  Over every run,
whatever the order of the steps, in every state writers exclude everybody, the semaphore
is held by the calls that have acquired it and not returned, and it is free when there is
no call, exactly when no step of the run is a return. -/
theorem balanced_iff (K : Kernel) (data : ℕ → UInt8) (actions : List Action) :
    EveryState (Concurrent.step K) Balanced (.init data) actions ↔
      EveryStep (Concurrent.step K) NobodyReturns (.init data) actions := by
  refine everyState_iff_everyStep (I := Accounted) (R := fun _ _ => True)
    (fun _ accounted => accounted.balanced) ?_ ?_
    ⟨Rwsem.exclusive_init, heldByCalls_iff.mpr fun m => Rwsem.count_init m⟩
    (everyStep_of_forall (fun _ _ => trivial) _ _)
  · intro x act accounted _
    obtain ⟨x', hx'⟩ := x.step_ok K act
    have heffect := accounted.effect (Concurrent.effect hx')
    constructor
    · rintro ⟨y, hy, hbalanced⟩
      obtain rfl : x' = y := Except.ok.inj (hx'.symm.trans hy)
      exact heffect.2 hbalanced.2.1
    · exact fun nobody => ⟨x', hx', (heffect.1 nobody).balanced⟩
  · intro x act x' accounted _ nobody hx'
    exact (accounted.effect (Concurrent.effect hx')).1 nobody

/-- The first reader to return leaves the semaphore read-held by nobody, and a writer
that comes after it waits in vain. -/
theorem reader_leaks :
    ¬ EveryState (Concurrent.step .linux) Balanced (.init fun _ => 0)
        [.call (.read 8 0 none), .acquire 0, .copy 0, .finish 0, .leave 0] ∧
      ([.call (.read 8 0 none), .acquire 0, .copy 0, .finish 0, .leave 0,
          .call (.write [1] 0 none), .acquire 0].foldlM (Concurrent.step .linux)
            (.init fun _ => 0)).map (fun x => (x.sem, x.calls)) =
        .ok (⟨1, false⟩, [⟨.write [1] 0 none, .waiting⟩]) :=
  ⟨by decide, by decide⟩

/-! ## What is refused -/

/-- A semaphore that nobody releases goes on refusing what it refuses. -/
theorem Effect.admits {x x' : Concurrent} {act : Action} (effect : Effect x act x') {m : Mode}
    (hrefused : x.sem.admits m = false) : x'.sem.admits m = false := by
  cases effect with
  | same _ sem => rw [sem, hrefused]
  | returned _ _ sem => rw [sem, hrefused]
  | acquired m' _ admits sem =>
      rw [sem]
      cases m' with
      | write => cases m <;> simp [Rwsem.down, Rwsem.admits]
      | read =>
          cases m with
          | read => rw [admits] at hrefused; cases hrefused
          | write => simp [Rwsem.down, Rwsem.admits]

/-- **Once refused, always refused**: whoever is kept out of foo in some state is kept out
for the rest of the run. -/
theorem never_admitted (K : Kernel) {x : Concurrent} {m : Mode}
    (hrefused : x.sem.admits m = false) (actions : List Action) :
    EveryState (Concurrent.step K) (fun x => x.sem.admits m = false) x actions := by
  refine EveryStep.everyState (P := fun _ _ => True) ?_ hrefused
    (everyStep_of_forall (fun _ _ => trivial) _ _)
  intro x act hx _
  obtain ⟨x', hx'⟩ := x.step_ok K act
  exact ⟨x', hx', (Concurrent.effect hx').admits hx⟩

end KernelTraining.Task08
