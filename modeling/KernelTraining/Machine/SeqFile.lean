import KernelTraining.Machine.Heap
import Mathlib.Algebra.Ring.Nat

/-!
# Files that are shown record by record

The `start`, `next` and `show` of a sequence file.  A read of such a file makes a pass: it
starts at the position where the last one has stopped, shows records as long as they fit and
none of them fails, and remembers the position of the first one it could not show.  How many
fit is up to the reader, and so is how often it comes back.  To show a record may mean to wait,
and a wait that is interrupted ends the pass with the error of `show`, or with what it has shown
so far; the next pass begins at the record it did not get.

If `next` goes where `start` would have gone (`Lists`), nothing is shown twice and nothing is
left out, wherever the passes stop and whatever stops them.  `showFrom_eq` says so of one pass,
which shows as many records as there is room for before the first interruption (`shown`), and
`passes_eq` of any number of them: the texts are cut where a pass ends, and the pieces are put
together again.
-/

namespace KernelTraining.Machine

/-- `struct seq_operations`; `stop` has nothing to do.  `show` returns zero and the text, or an
error; it is told whether its wait is interrupted. -/
structure SeqOps (ι α : Type*) where
  start : ℕ → Option ι
  next : ι → ℕ → Option ι × ℕ
  «show» : ι → Bool → Except Fault (ℤ × List α)

/-- The records a pass shows, given for each record there is room for whether the wait for it is
interrupted. -/
def shown (waits : List Bool) : ℕ := (waits.takeWhile (! ·)).length

namespace SeqOps

variable {ι α : Type*} {ops : SeqOps ι α}

/-- Shows records from `v` on, until one fails or there is no room for more: the text and the
position after it. -/
def showFrom (ops : SeqOps ι α) : List Bool → Option ι → ℕ → Except Fault (List α × ℕ)
  | [], _, pos => .ok ([], pos)
  | _, none, pos => .ok ([], pos)
  | interrupted :: waits, some v, pos => do
      let (retval, text) ← ops.show v interrupted
      if retval < 0 then pure ([], pos)
      else do
        let (v, pos) := ops.next v pos
        let (rest, pos) ← showFrom ops waits v pos
        pure (text ++ rest, pos)

/-- One pass. -/
def pass (ops : SeqOps ι α) (waits : List Bool) (pos : ℕ) : Except Fault (List α × ℕ) :=
  ops.showFrom waits (ops.start pos) pos

/-- What a reader gets from one pass after the other. -/
def passes (ops : SeqOps ι α) : List (List Bool) → ℕ → Except Fault (List α)
  | [], _ => .ok []
  | waits :: more, pos => do
      let (text, pos) ← ops.pass waits pos
      let rest ← passes ops more pos
      pure (text ++ rest)

/-- The records are these texts, and `next` goes where `start` would. -/
structure Lists (ops : SeqOps ι α) (texts : List (List α)) : Prop where
  start_none : ∀ pos, texts.length ≤ pos → ops.start pos = none
  start_some : ∀ pos, pos < texts.length → ∃ v, ops.start pos = some v ∧
    ops.next v pos = (ops.start (pos + 1), pos + 1)
  show_eq : ∀ pos v text, ops.start pos = some v → texts[pos]? = some text →
    ops.show v false = .ok (0, text)
  show_interrupted : ∀ pos v, ops.start pos = some v →
    ∃ retval < 0, ops.show v true = .ok (retval, [])

/-- One pass shows records from its position on and stops behind the last of them. -/
theorem Lists.showFrom_eq {texts : List (List α)} (lists : ops.Lists texts) (waits : List Bool)
    (pos : ℕ) : ops.showFrom waits (ops.start pos) pos =
      .ok (((texts.drop pos).take (shown waits)).flatten,
        pos + min (shown waits) (texts.length - pos)) := by
  induction waits generalizing pos with
  | nil => simp [showFrom, shown]
  | cons interrupted waits ih =>
      rcases Nat.lt_or_ge pos texts.length with hlt | hge
      · obtain ⟨v, hv, hnext⟩ := lists.start_some pos hlt
        cases interrupted with
        | true =>
            obtain ⟨retval, hneg, hshow⟩ := lists.show_interrupted pos v hv
            simp only [hv, showFrom, hshow, ok_bind, if_pos hneg]
            rw [show shown (true :: waits) = 0 from rfl, List.take_zero, List.flatten_nil,
              Nat.zero_min]
            rfl
        | false =>
            have hshow := lists.show_eq pos v texts[pos] hv (List.getElem?_eq_getElem hlt)
            simp only [hv, showFrom, hshow, hnext, ok_bind, ih, lt_irrefl, if_false]
            rw [show shown (false :: waits) = shown waits + 1 from rfl,
              List.drop_eq_getElem_cons hlt, List.take_succ_cons, List.flatten_cons,
              show pos + 1 + min (shown waits) (texts.length - (pos + 1)) =
                pos + min (shown waits + 1) (texts.length - pos) by omega]
            rfl
      · rw [lists.start_none pos hge, List.drop_eq_nil_of_le hge, List.take_nil, List.flatten_nil,
          Nat.sub_eq_zero_of_le hge, Nat.min_zero]
        rfl

/-- **Nothing twice, nothing left out.**  What the passes deliver is the records from the
first position on, as many as all of them have shown. -/
theorem Lists.passes_eq {texts : List (List α)} (lists : ops.Lists texts)
    (passes : List (List Bool)) (pos : ℕ) : ops.passes passes pos =
      .ok ((texts.drop pos).take (passes.map shown).sum).flatten := by
  induction passes generalizing pos with
  | nil => rw [SeqOps.passes, List.map_nil, List.sum_nil, List.take_zero, List.flatten_nil]
  | cons waits more ih =>
      simp only [SeqOps.passes, pass, lists.showFrom_eq, ok_bind, ih]
      set room := shown waits
      set rest := (more.map shown).sum with hrest
      have hsplit : ((texts.drop pos).take (room + rest)) = (texts.drop pos).take room ++
          (texts.drop (pos + min room (texts.length - pos))).take rest := by
        rcases Nat.le_total room (texts.length - pos) with hle | hge
        · rw [Nat.min_eq_left hle, ← List.drop_drop, List.take_add]
        · have hend : (texts.drop pos).length ≤ room := by
            rw [List.length_drop]
            exact hge
          rw [Nat.min_eq_right hge, List.take_of_length_le hend,
            List.take_of_length_le (hend.trans (Nat.le_add_right _ _)),
            List.drop_eq_nil_of_le (by omega : texts.length ≤ pos + (texts.length - pos)),
            List.take_nil, List.append_nil]
      rw [List.map_cons, List.sum_cons, ← hrest, hsplit, List.flatten_append]
      rfl

end SeqOps

end KernelTraining.Machine
