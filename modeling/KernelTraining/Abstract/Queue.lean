import Mathlib.Data.List.Induction

/-!
# Bounded queues

A queue holds at most as many items as its capacity says.  Items are put in at the end and
got out at the front, several at a time, and a reset makes the queue empty and gives it a
capacity.  A history is a list of such operations; it can be replayed if every put fits and
every get finds what it says at the front.

What a history has put in since the last reset is what it has got out since, and then what
is still in the queue (`replay_eq`).

The history is kept by whoever uses the queue, as a record of what has happened, and grows at
its end.  So the rules are about an operation that is added there: `replay_concat` for the
queue, and the six lemmas after it for what has been `accepted` and `delivered`.  A program
refines a queue if each of its steps adds the operations that lead from the queue it stands for
before to the one it stands for after; that nothing is lost, doubled or reordered is then no
concern of the program any more.
-/

namespace KernelTraining.Abstract

variable {α : Type*}

structure Queue (α : Type*) where
  capacity : ℕ
  items : List α
  bounded : items.length ≤ capacity

namespace Queue

def empty (capacity : ℕ) : Queue α := ⟨capacity, [], Nat.zero_le _⟩

@[ext] theorem ext {q q' : Queue α} (hcapacity : q.capacity = q'.capacity)
    (hitems : q.items = q'.items) : q = q' := by
  cases q
  cases q'
  cases hcapacity
  cases hitems
  rfl

end Queue

inductive QueueOp (α : Type*) where
  | reset (capacity : ℕ)
  | put (xs : List α)
  | get (xs : List α)
  deriving DecidableEq

section Replay

variable [DecidableEq α]

/-- One operation, if the queue allows it. -/
def Queue.apply (q : Queue α) : QueueOp α → Option (Queue α)
  | .reset capacity => some (.empty capacity)
  | .put xs =>
      if h : (q.items ++ xs).length ≤ q.capacity then some ⟨q.capacity, q.items ++ xs, h⟩
      else none
  | .get xs =>
      if xs <+: q.items then
        some ⟨q.capacity, q.items.drop xs.length,
          Nat.le_trans (List.drop_sublist _ _).length_le q.bounded⟩
      else none

/-- A history, from the queue that can hold nothing. -/
def replay (history : List (QueueOp α)) : Option (Queue α) :=
  history.foldlM Queue.apply (.empty 0)

theorem replay_concat (history : List (QueueOp α)) (op : QueueOp α) :
    replay (history ++ [op]) = (replay history).bind (·.apply op) := by
  unfold replay
  rw [List.foldlM_append]
  cases List.foldlM Queue.apply (Queue.empty 0) history with
  | none => rfl
  | some q =>
      show (q.apply op >>= fun q' => some q') = q.apply op
      cases q.apply op <;> rfl

end Replay

/-- What has been put in since the last reset. -/
def accepted (history : List (QueueOp α)) : List α :=
  history.foldl (fun acc op =>
    match op with
    | .reset _ => []
    | .put xs => acc ++ xs
    | .get _ => acc) []

/-- What has been got out since the last reset. -/
def delivered (history : List (QueueOp α)) : List α :=
  history.foldl (fun acc op =>
    match op with
    | .reset _ => []
    | .put _ => acc
    | .get xs => acc ++ xs) []

section Concat

variable (history : List (QueueOp α))

@[simp] theorem accepted_reset (capacity : ℕ) : accepted (history ++ [.reset capacity]) = [] := by
  simp [accepted]

@[simp] theorem accepted_put (xs : List α) :
    accepted (history ++ [.put xs]) = accepted history ++ xs := by
  simp [accepted]

@[simp] theorem accepted_get (xs : List α) :
    accepted (history ++ [.get xs]) = accepted history := by
  simp [accepted]

@[simp] theorem delivered_reset (capacity : ℕ) :
    delivered (history ++ [.reset capacity]) = [] := by
  simp [delivered]

@[simp] theorem delivered_put (xs : List α) :
    delivered (history ++ [.put xs]) = delivered history := by
  simp [delivered]

@[simp] theorem delivered_get (xs : List α) :
    delivered (history ++ [.get xs]) = delivered history ++ xs := by
  simp [delivered]

end Concat

/-- **First in, first out.**  Whatever has been put in has been got out in the same order,
or is still in the queue. -/
theorem replay_eq [DecidableEq α] {history : List (QueueOp α)} {q : Queue α}
    (hq : replay history = some q) : accepted history = delivered history ++ q.items := by
  induction history using List.reverseRecOn generalizing q with
  | nil =>
      obtain rfl := Option.some.inj hq
      rfl
  | append_singleton history op ih =>
      rw [replay_concat, Option.bind_eq_some_iff] at hq
      obtain ⟨q₀, hq₀, happly⟩ := hq
      have hbefore := ih hq₀
      cases op with
      | reset capacity =>
          obtain rfl := Option.some.inj happly
          simp [Queue.empty]
      | put xs =>
          simp only [Queue.apply] at happly
          split_ifs at happly with hfits
          obtain rfl := Option.some.inj happly
          rw [accepted_put, delivered_put, hbefore, List.append_assoc]
      | get xs =>
          simp only [Queue.apply] at happly
          split_ifs at happly with hfront
          obtain rfl := Option.some.inj happly
          obtain ⟨rest, hrest⟩ := hfront
          show _ = _ ++ q₀.items.drop xs.length
          rw [accepted_get, delivered_get, hbefore, ← hrest, List.drop_left, List.append_assoc]

end KernelTraining.Abstract
