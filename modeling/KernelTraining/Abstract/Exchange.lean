import Mathlib.Data.Multiset.AddSub
import Mathlib.Data.Multiset.MapFold

/-!
# Atomic exchanges

A register that is only ever exchanged for another value hands every value back once: the
value it starts with and those supplied are the value it ends with and those handed back.

`Exchanged` is the chain of the exchanges, in their order, and `Exchanged.conserves` forgets the
order.  A program in which the exchanges are made by many calls has them in a table, with an
entry for each call, and not in the order in which they have taken effect.  So the two are
compared as multisets, and the lemmas at the end say what becomes of the multiset when one entry
is replaced: nothing, if the new entry counts for as much as the old one
(`filterMap_set_of_eq`), or one value more (`coe_filterMap_set`).
-/

namespace KernelTraining.Abstract

variable {α β : Type*} {u v : α} {history : List (α × α)}

/-- The exchanges of `history`, each a value supplied and the value handed back for it, take
a register from `u` to `v`. -/
def Exchanged : α → List (α × α) → α → Prop
  | u, [], v => u = v
  | u, (supplied, back) :: history, v => back = u ∧ Exchanged supplied history v

/-- Another exchange. -/
theorem Exchanged.concat (exchanged : Exchanged u history v) (supplied : α) :
    Exchanged u (history ++ [(supplied, v)]) supplied := by
  induction history generalizing u with
  | nil => exact ⟨exchanged.symm, rfl⟩
  | cons x history ih => exact ⟨exchanged.1, ih exchanged.2⟩

/-- **No value is lost or handed back twice.** -/
theorem Exchanged.conserves (exchanged : Exchanged u history v) :
    u ::ₘ (history : Multiset (α × α)).map Prod.fst =
      v ::ₘ (history : Multiset (α × α)).map Prod.snd := by
  induction history generalizing u with
  | nil =>
      obtain rfl : u = v := exchanged
      rfl
  | cons x history ih =>
      obtain ⟨supplied, back⟩ := x
      obtain ⟨rfl, hrest⟩ := exchanged
      calc back ::ₘ (((supplied, back) :: history : List (α × α)) : Multiset (α × α)).map Prod.fst
          = back ::ₘ supplied ::ₘ (history : Multiset (α × α)).map Prod.fst := rfl
        _ = back ::ₘ v ::ₘ (history : Multiset (α × α)).map Prod.snd := by rw [ih hrest]
        _ = v ::ₘ back ::ₘ (history : Multiset (α × α)).map Prod.snd := Multiset.cons_swap ..

/-! ## What the entries of a table add up to -/

section Table

variable {table : List α} {i : ℕ} {x y : α} {f : α → Option β}

/-- An entry that counts for as much as the one it replaces. -/
theorem filterMap_set_of_eq (hx : table[i]? = some x) (hy : f y = f x) :
    (table.set i y).filterMap f = table.filterMap f := by
  obtain ⟨hi, rfl⟩ := List.getElem?_eq_some_iff.mp hx
  rw [List.set_eq_take_append_cons_drop, if_pos hi, List.filterMap_append, List.filterMap_cons, hy,
    ← List.filterMap_cons, ← List.filterMap_append, ← List.drop_eq_getElem_cons hi,
    List.take_append_drop]

/-- An entry that counts, in place of one that does not. -/
theorem coe_filterMap_set (hx : table[i]? = some x) (hnone : f x = none) {b : β}
    (hy : f y = some b) : ((table.set i y).filterMap f : Multiset β) =
      b ::ₘ (table.filterMap f : Multiset β) := by
  obtain ⟨hi, rfl⟩ := List.getElem?_eq_some_iff.mp hx
  have hset := (List.set_perm_cons_eraseIdx hi y).filterMap f
  have hold := (List.getElem_cons_eraseIdx_perm hi).filterMap f
  rw [List.filterMap_cons_some hy] at hset
  rw [List.filterMap_cons_none hnone] at hold
  rw [Multiset.cons_coe, Multiset.coe_eq_coe]
  exact hset.trans (hold.cons b)

end Table

end KernelTraining.Abstract
