import KernelTraining.Abstract.Exchange
import KernelTraining.Machine.Run
import KernelTraining.Scull.IoctlFailure

/-!
# Exchanges that overlap

"X means "eXchange": switch G and S atomically", says `scull.h`.  The driver has no lock
here, and `__get_user` can sleep, so a call is three steps: it saves the old value, fetches
the new one, and stores the old one.  What is fetched replaces whatever is in the parameter
by then.  The exchanges are atomic as long as that is what has been saved
(`exchanges_conserve`).

## Strategy

An exchange takes effect when it fetches.  If what it has saved is in the parameter at that
moment, then saving and fetching could have been one step, and the parameter has got its value
by a chain of exchanges, each of which hands back what the one before has supplied
(`Exchanged`).  `Linear` is this as an invariant: there is such a chain from the value at the
beginning to the present one, and it consists of the calls that have fetched, in some order.
The order is that in which they have fetched, not that in which they were made; so the chain
and the calls are compared as multisets.

* Calls for the two parameters do not interfere, and there is a chain for either.
* Every step but the fetching one leaves alone what its call has exchanged
  (`Linear.advance`); the fetching one adds its pair to the chain (`Linear.fetch`).
* In a chain what is supplied and what is handed back differ only at its ends
  (`Exchanged.conserves`).  When all calls have finished this is `NothingLost`.

`next_three_eq_ioctlExchange` says that the three steps, without another one in between, are
the command of `Scull.Ioctl`.
-/

namespace KernelTraining.Scull

open Machine Abstract

/-! ## The calls in progress -/

/-- Where a call is in the code of the command, with its local `tmp`. -/
inductive Progress where
  | called
  | saved (tmp : ℤ)
  | fetched (tmp : ℤ)
  | returned (tmp : ℤ)
  deriving DecidableEq

/-- An exchange by a privileged client whose accesses do not fault: the parameter, and the
`int` that is at `arg`. -/
structure Exchange where
  param : Param
  value : ℤ
  progress : Progress
  deriving DecidableEq

/-- What the call finds at `arg`. -/
def Exchange.env (x : Exchange) : IoctlEnv := { user := some x.value }

structure Exchanges where
  globals : Globals
  calls : List Exchange

/-- Call `i` gets further. -/
def Exchanges.advance (s : Exchanges) (i : ℕ) (x : Exchange) (progress : Progress) : Exchanges :=
  { s with calls := s.calls.set i { x with progress := progress } }

/-- A call is made, or call `i` makes its next step. -/
inductive Turn where
  | call (p : Param) (value : ℤ)
  | next (i : ℕ)
  deriving DecidableEq

def Exchanges.step (s : Exchanges) : Turn → Except Fault Exchanges
  | .call p value => .ok { s with calls := s.calls ++ [⟨p, value, .called⟩] }
  | .next i =>
      match s.calls[i]? with
      | none => .ok s
      | some x =>
          match x.progress with
          | .called => .ok (s.advance i x (.saved (s.globals.get x.param)))
          | .saved tmp =>
              .ok { s.advance i x (.fetched tmp) with
                globals := s.globals.put x.param (getUser x.env).2 }
          | .fetched tmp => .ok (s.advance i x (.returned tmp))
          | .returned _ => .ok s

/-! ## What is supplied and handed back -/

/-- The value for which the call has put its own into the parameter. -/
def Exchange.taken (x : Exchange) : Option ℤ :=
  match x.progress with
  | .fetched tmp => some tmp
  | .returned tmp => some tmp
  | _ => none

/-- The value that the call has stored at `arg`. -/
def Exchange.stored (x : Exchange) : Option ℤ :=
  match x.progress with
  | .returned tmp => (putUser x.env tmp).2
  | _ => none

/-- The values supplied by the calls for `p`. -/
def supplied (p : Param) (calls : List Exchange) : Multiset ℤ :=
  calls.filterMap fun x => if x.param = p then some (getUser x.env).2 else none

/-- The values handed back to the calls for `p`. -/
def handedBack (p : Param) (calls : List Exchange) : Multiset ℤ :=
  calls.filterMap fun x => if x.param = p then x.stored else none

def Exchange.Finished (x : Exchange) : Prop := ∃ tmp, x.progress = .returned tmp

/-- If all calls have finished, no value of a parameter has been lost or handed back
twice. -/
def NothingLost (g : Globals) (s : Exchanges) : Prop :=
  (∀ x ∈ s.calls, x.Finished) → ∀ p,
    g.get p ::ₘ supplied p s.calls = s.globals.get p ::ₘ handedBack p s.calls

/-- If the call fetches next, what it has saved is still in the parameter. -/
def Exchange.FindsSaved (g : Globals) (x : Exchange) : Prop :=
  match x.progress with
  | .saved tmp => g.get x.param = tmp
  | _ => True

instance (g : Globals) (x : Exchange) : Decidable (x.FindsSaved g) := by
  unfold Exchange.FindsSaved
  split <;> infer_instance

/-- A call that fetches finds in the parameter what it has saved. -/
def FindsSaved (s : Exchanges) : Turn → Prop
  | .call _ _ => True
  | .next i => ∀ x ∈ s.calls[i]?, x.FindsSaved s.globals

instance (s : Exchanges) : ∀ t, Decidable (FindsSaved s t)
  | .call _ _ => isTrue trivial
  | .next i => inferInstanceAs (Decidable (∀ x ∈ s.calls[i]?, x.FindsSaved s.globals))

/-- What a call for `p` has exchanged. -/
def pair (p : Param) (x : Exchange) : Option (ℤ × ℤ) :=
  if x.param = p then x.taken.map ((getUser x.env).2, ·) else none

/-- The parameters have come to their values by atomic exchanges, those of the calls. -/
def Linear (g : Globals) (s : Exchanges) : Prop :=
  ∀ p, ∃ history, Exchanged (g.get p) history (s.globals.get p) ∧
    (history : Multiset (ℤ × ℤ)) = (s.calls.filterMap (pair p) : Multiset (ℤ × ℤ))

section Steps

variable {g : Globals} {s : Exchanges} {x : Exchange} {i : ℕ}

theorem step_called (hx : s.calls[i]? = some x) (hprogress : x.progress = .called) :
    s.step (.next i) = .ok (s.advance i x (.saved (s.globals.get x.param))) := by
  simp only [Exchanges.step, hx, hprogress]

theorem step_saved (hx : s.calls[i]? = some x) {tmp : ℤ} (hprogress : x.progress = .saved tmp) :
    s.step (.next i) = .ok { s.advance i x (.fetched tmp) with
      globals := s.globals.put x.param (getUser x.env).2 } := by
  simp only [Exchanges.step, hx, hprogress]

theorem step_fetched (hx : s.calls[i]? = some x) {tmp : ℤ} (hprogress : x.progress = .fetched tmp) :
    s.step (.next i) = .ok (s.advance i x (.returned tmp)) := by
  simp only [Exchanges.step, hx, hprogress]

/-- A call that nobody interrupts does what `ioctlExchange` does. -/
theorem next_three_eq_ioctlExchange (hx : s.calls[i]? = some x) (hprogress : x.progress = .called) :
    ∃ tmp, ioctlExchange x.param s.globals x.env =
        ⟨0, s.globals.put x.param (getUser x.env).2, some tmp⟩ ∧
      List.foldlM Exchanges.step s [.next i, .next i, .next i] = .ok
        { s.advance i x (.returned tmp) with
          globals := s.globals.put x.param (getUser x.env).2 } := by
  have hi := (List.getElem?_eq_some_iff.mp hx).1
  have hset (y : Exchange) : (s.calls.set i y)[i]? = some y := List.getElem?_set_self hi
  generalize htmp : s.globals.get x.param = tmp
  have hsave := step_called hx hprogress
  have hfetch := step_saved (s := s.advance i x (.saved tmp)) (i := i) (hset _) rfl
  have hstore := step_fetched (s := { s.advance i x (.fetched tmp) with
    globals := s.globals.put x.param (getUser x.env).2 }) (i := i) (hset _) rfl
  simp only [Exchanges.advance, List.set_set, htmp] at hsave hfetch hstore
  refine ⟨tmp, htmp ▸ rfl, ?_⟩
  rw [List.foldlM_cons, hsave, ok_bind, List.foldlM_cons, hfetch, ok_bind, List.foldlM_cons]
  exact congrArg (· >>= pure) hstore

/-- A step after which the call has exchanged what it had exchanged before. -/
theorem Linear.advance (linear : Linear g s) (hx : s.calls[i]? = some x) {progress : Progress}
    (htaken : Exchange.taken { x with progress := progress } = x.taken) :
    Linear g (s.advance i x progress) := by
  intro p
  obtain ⟨history, hvalue, hcalls⟩ := linear p
  refine ⟨history, hvalue, ?_⟩
  have hpair : pair p { x with progress := progress } = pair p x := by
    simp only [pair, htaken]
    rfl
  rw [hcalls]
  show (_ : Multiset (ℤ × ℤ)) = ((s.calls.set i _).filterMap (pair p) : Multiset (ℤ × ℤ))
  rw [filterMap_set_of_eq hx hpair]

/-- The step that fetches. -/
theorem Linear.fetch (linear : Linear g s) (hx : s.calls[i]? = some x) {tmp : ℤ}
    (hsaved : x.progress = .saved tmp) (hfinds : s.globals.get x.param = tmp) :
    Linear g { s.advance i x (.fetched tmp) with
      globals := s.globals.put x.param (getUser x.env).2 } := by
  intro p
  obtain ⟨history, hvalue, hcalls⟩ := linear p
  show ∃ history, Exchanged (g.get p) history ((s.globals.put x.param _).get p) ∧
    (history : Multiset (ℤ × ℤ)) = ((s.calls.set i _).filterMap (pair p) : Multiset (ℤ × ℤ))
  by_cases hp : x.param = p
  · subst hp
    have hbefore : pair x.param x = none := by simp [pair, Exchange.taken, hsaved]
    have hafter : pair x.param { x with progress := .fetched tmp } =
        some ((getUser x.env).2, tmp) := by simp [pair, Exchange.taken, Exchange.env]
    refine ⟨history ++ [((getUser x.env).2, tmp)], ?_, ?_⟩
    · rw [Globals.get_put, ← hfinds]
      exact hvalue.concat _
    · rw [coe_filterMap_set hx hbefore hafter, ← hcalls, ← Multiset.coe_add, Multiset.coe_singleton,
        add_comm, Multiset.singleton_add]
  · refine ⟨history, ?_, ?_⟩
    · rwa [Globals.get_put_ne _ _ (Ne.symm hp)]
    · have hother : pair p { x with progress := .fetched tmp } = pair p x := by simp [pair, hp]
      rw [hcalls, filterMap_set_of_eq hx hother]

/-- **One step** keeps the exchanges atomic, if a call that fetches finds what it has
saved. -/
theorem Linear.step (linear : Linear g s) {t : Turn} (hfinds : FindsSaved s t) :
    ∃ s', s.step t = .ok s' ∧ Linear g s' := by
  cases t with
  | call p value =>
      refine ⟨_, rfl, ?_⟩
      intro q
      obtain ⟨history, hvalue, hcalls⟩ := linear q
      refine ⟨history, hvalue, ?_⟩
      have hnew : pair q ⟨p, value, .called⟩ = none := by simp [pair, Exchange.taken]
      rw [List.filterMap_append, List.filterMap_cons_none hnew, List.filterMap_nil, List.append_nil,
        hcalls]
  | next i =>
      cases hx : s.calls[i]? with
      | none => exact ⟨s, by simp only [Exchanges.step, hx], linear⟩
      | some x =>
          cases hprogress : x.progress with
          | called =>
              refine ⟨_, step_called hx hprogress, linear.advance hx ?_⟩
              simp only [Exchange.taken, hprogress]
          | saved tmp =>
              have htmp : s.globals.get x.param = tmp := by
                simpa only [Exchange.FindsSaved, hprogress] using hfinds x hx
              exact ⟨_, step_saved hx hprogress, linear.fetch hx hprogress htmp⟩
          | fetched tmp =>
              refine ⟨_, step_fetched hx hprogress, linear.advance hx ?_⟩
              simp only [Exchange.taken, hprogress]
          | returned tmp => exact ⟨s, by simp only [Exchanges.step, hx, hprogress], linear⟩

theorem Linear.nothingLost (linear : Linear g s) : NothingLost g s := by
  intro hfinished p
  obtain ⟨history, hvalue, hcalls⟩ := linear p
  have hconserves := hvalue.conserves
  have hsupplied : (history : Multiset (ℤ × ℤ)).map Prod.fst = supplied p s.calls := by
    rw [hcalls, Multiset.map_coe, List.map_filterMap, supplied]
    congr 1
    apply List.filterMap_congr
    intro x hx
    obtain ⟨tmp, hreturned⟩ := hfinished x hx
    by_cases hp : x.param = p <;> simp [pair, hp, Exchange.taken, hreturned]
  have hback : (history : Multiset (ℤ × ℤ)).map Prod.snd = handedBack p s.calls := by
    rw [hcalls, Multiset.map_coe, List.map_filterMap, handedBack]
    congr 1
    apply List.filterMap_congr
    intro x hx
    obtain ⟨tmp, hreturned⟩ := hfinished x hx
    by_cases hp : x.param = p <;>
      simp [pair, hp, Exchange.taken, Exchange.stored, Exchange.env, putUser, hreturned]
  rwa [hsupplied, hback] at hconserves

end Steps

/-- **When exchanges are atomic**: if every call that fetches finds in its parameter what it
has saved, then whenever all calls have finished, no setting is lost or returned twice. -/
theorem exchanges_conserve (g : Globals) {turns : List Turn}
    (hfinds : EveryStep Exchanges.step FindsSaved ⟨g, []⟩ turns) :
    EveryState Exchanges.step (NothingLost g) ⟨g, []⟩ turns := by
  have hinit : Linear g ⟨g, []⟩ := fun p => ⟨[], rfl, rfl⟩
  exact (hfinds.everyState (fun s t linear hfinds => linear.step hfinds) hinit).mono
    fun s linear => linear.nothingLost

/-- Two overlapping calls, of which the second saves what the first has fetched, and one
for the other parameter. -/
theorem exchanges_conserve_run :
    EveryStep Exchanges.step FindsSaved ⟨.default, []⟩
      [.call .quantum 1, .call .quantum 2, .call .qset 3, .next 0, .next 0, .next 2, .next 1,
        .next 0, .next 1, .next 2, .next 1, .next 2] ∧
    EveryState Exchanges.step (NothingLost .default) ⟨.default, []⟩
      [.call .quantum 1, .call .quantum 2, .call .qset 3, .next 0, .next 0, .next 2, .next 1,
        .next 0, .next 1, .next 2, .next 1, .next 2] := by
  have hfinds : EveryStep Exchanges.step FindsSaved ⟨.default, []⟩
      [.call .quantum 1, .call .quantum 2, .call .qset 3, .next 0, .next 0, .next 2, .next 1,
        .next 0, .next 1, .next 2, .next 1, .next 2] := by decide
  exact ⟨hfinds, exchanges_conserve .default hfinds⟩

/-- Two calls that both save before one of them fetches: 4000 is handed back twice, and 1
is lost. -/
theorem overlapping_exchanges_lose :
    ¬ ∀ g turns, EveryState Exchanges.step (NothingLost g) ⟨g, []⟩ turns := by
  intro h
  have hrun : List.foldlM Exchanges.step ⟨.default, []⟩ [.call .quantum 1, .call .quantum 2,
      .next 0, .next 1, .next 0, .next 1, .next 0, .next 1] =
      .ok ⟨⟨2, 1000⟩, [⟨.quantum, 1, .returned 4000⟩, ⟨.quantum, 2, .returned 4000⟩]⟩ := rfl
  obtain ⟨s, hs, hnothing⟩ := (h .default [.call .quantum 1, .call .quantum 2, .next 0, .next 1,
    .next 0, .next 1, .next 0, .next 1]).last
  obtain rfl := Except.ok.inj (hrun.symm.trans hs)
  have hfinished : ∀ x ∈ [(⟨.quantum, 1, .returned 4000⟩ : Exchange),
      ⟨.quantum, 2, .returned 4000⟩], x.Finished := by
    simp [Exchange.Finished]
  exact absurd (hnothing hfinished .quantum) (by decide)

end KernelTraining.Scull
