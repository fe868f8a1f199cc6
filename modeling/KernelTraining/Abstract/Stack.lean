import Mathlib.Data.List.Basic
import Mathlib.Algebra.BigOperators.Group.List.Basic
import Mathlib.Algebra.GroupWithZero.Nat

/-!
# Pushing and popping in chunks

A stack is a list with its top first.  Pushing chunk after chunk is pushing them all
at once, and popping chunk after chunk delivers, altogether, what popping them all at
once would.

`foldl_push` and `flatten_pops` say so.  `getElem?_pops` is about a single chunk, and is for
those who want to know when a pop finds nothing: when the chunks before it have taken all there
was.
-/

namespace KernelTraining.Abstract

variable {α : Type*}

/-- The stack after `xs` have been pushed, one after the other. -/
def push (st xs : List α) : List α := xs.reverse ++ st

theorem push_append (st xs ys : List α) : push st (xs ++ ys) = push (push st xs) ys := by
  simp [push]

theorem foldl_push (st : List α) (chunks : List (List α)) :
    chunks.foldl push st = push st chunks.flatten := by
  induction chunks generalizing st with
  | nil => rfl
  | cons chunk chunks ih => rw [List.foldl_cons, ih, List.flatten_cons, push_append]

/-- What is popped in chunks of the given sizes. -/
def pops : List α → List ℕ → List (List α)
  | _, [] => []
  | st, n :: ns => st.take n :: pops (st.drop n) ns

theorem flatten_pops (st : List α) (ns : List ℕ) : (pops st ns).flatten = st.take ns.sum := by
  induction ns generalizing st with
  | nil => simp [pops]
  | cons n ns ih => rw [pops, List.flatten_cons, ih, List.sum_cons, List.take_add]

/-- A chunk is popped off what the chunks before it left. -/
theorem getElem?_pops (st : List α) (ns : List ℕ) (i : ℕ) :
    (pops st ns)[i]? = ns[i]?.map fun n => (st.drop (ns.take i).sum).take n := by
  induction ns generalizing st i with
  | nil => simp [pops]
  | cons n ns ih =>
      cases i with
      | zero => simp [pops]
      | succ i => simp [pops, ih, List.drop_drop]

end KernelTraining.Abstract
