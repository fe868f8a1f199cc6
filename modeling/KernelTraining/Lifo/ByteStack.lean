import KernelTraining.Abstract.Stack
import KernelTraining.Lifo.Stack
import KernelTraining.Machine.Run

/-!
# The device is a byte stack

As long as no copy and no allocation fails, a write pushes its bytes and a read pops: the
replies are those of a stack, whatever the sizes of the calls.

The theorem is about the whole sequence of replies (`refines_stack`), as a caller sees it.  It
is a refinement: `HoldsStack` relates the state of the device to a list of bytes, one call
answers as the stack does and keeps the relation (`HoldsStack.call`), and the replies to a run
are compared by induction on its calls (`HoldsStack.replies`).

That what is written is read back in reverse, whatever it is divided into, is then a fact about
stacks and does not concern the driver: the writes push the reverse of all their bytes
(`stackReplies_writes`), and the reads pop that one after the other (`stackReplies_reads`, and
`pops` in `Abstract.Stack`).
-/

namespace KernelTraining.Lifo

open Machine Abstract

/-- The return value and the bytes that reached the user. -/
structure Reply where
  retval : ℤ
  copied : List UInt8
  deriving DecidableEq

/-- The replies to a sequence of calls. -/
def replies : State → List Call → Except Fault (List Reply)
  | _, [] => .ok []
  | s, c :: cs => do
      let out ← s.call c
      let rest ← replies out.state cs
      pure (⟨out.retval, out.copied⟩ :: rest)

/-- The reply of a stack, and the stack afterwards. -/
def stackCall (st : List UInt8) : Call → Reply × List UInt8
  | .open _ => (⟨0, []⟩, st)
  | .read count _ _ => (⟨(min count st.length : ℕ), st.take count⟩, st.drop count)
  | .write buf _ => (⟨buf.length, []⟩, push st buf)

def stackReplies : List UInt8 → List Call → List Reply
  | _, [] => []
  | st, c :: cs => (stackCall st c).1 :: stackReplies (stackCall st c).2 cs

/-- A transfer at position 0 in which no copy fails, and no allocation, and which
stores fewer than `2^31` bytes. -/
def Plain (s : State) : Call → Prop
  | .open _ => False
  | .read _ fPos env => fPos = 0 ∧ env.fault = none
  | .write buf env => env.fault = none ∧ s.dev.fset + buf.length ≤ intMax ∧
      Supplied s.heap buf.length env.answers

instance (s : State) : ∀ c, Decidable (Plain s c)
  | .open .. | .read .. | .write .. => by
      unfold Plain
      infer_instance

/-- The device holds the bytes of a stack. -/
def HoldsStack (s : State) (st : List UInt8) : Prop :=
  ∃ L, Stacked s s.dev.data L ∧ L.length < 2147483648 ∧ bytes L = st

theorem Env.stop_eq {env : Env} (hfault : env.fault = none) (n : ℕ) : env.stop n = n := by
  simp [Env.stop, hfault]

theorem Env.requests_eq {env : Env} (hfault : env.fault = none) (n : ℕ) :
    env.requests n = n := by
  rw [Env.requests, env.stop_eq hfault]
  omega

/-- **One call answers as the stack does.** -/
theorem HoldsStack.call {s : State} {st : List UInt8} (holds : HoldsStack s st) {c : Call}
    (hplain : Plain s c) :
    ∃ out, s.call c = .ok out ∧ ⟨out.retval, out.copied⟩ = (stackCall st c).1 ∧
      HoldsStack out.state (stackCall st c).2 := by
  obtain ⟨L, stacked, hsmall, rfl⟩ := holds
  cases c with
  | «open» flags => exact absurd hplain id
  | read count fPos env =>
      obtain ⟨rfl, hfault⟩ := hplain
      obtain ⟨out, q, hout, hcopied, stacked', -, hresult⟩ := lifoRead_spec stacked
        (clampCount_eq stacked hsmall count) (Nat.min_le_left _ _) (by omega) env
      have hdrop : (L.drop (min L.length count)).length < 2147483648 := by
        rw [List.length_drop]
        omega
      rw [env.stop_eq hfault] at hcopied stacked' hresult
      rw [if_neg (lt_irrefl _)] at hresult
      have htake : ∀ xs : List UInt8, xs.length = L.length →
          xs.take (min L.length count) = xs.take count := fun xs hxs => by
        rw [← hxs, Nat.min_comm, ← List.take_eq_take_min]
      refine ⟨out, hout, ?_, L.drop (min L.length count), hresult.2 ▸ stacked', hdrop, ?_⟩
      · rw [hresult.1, hcopied, bytes_take, htake _ (length_bytes L)]
        simp only [stackCall, length_bytes, Nat.min_comm]
      · rw [bytes_drop]
        show _ = (bytes L).drop count
        rcases Nat.le_total L.length count with hle | hle
        · rw [Nat.min_eq_left hle, List.drop_eq_nil_of_le (by simp),
            List.drop_eq_nil_of_le (by simpa using hle)]
        · rw [Nat.min_eq_right hle]
  | write buf env =>
      obtain ⟨hfault, hstored, supplied⟩ := hplain
      rw [stacked.fset_eq hsmall] at hstored
      unfold intMax at hstored
      obtain ⟨out, N, q, hout, hcopied, hbytes, stacked', -, hresult⟩ :=
        lifoWrite_spec stacked buf env (by rw [env.stop_eq hfault]; omega)
          (by rwa [env.requests_eq hfault])
      rw [env.stop_eq hfault] at hbytes hresult
      rw [if_neg (lt_irrefl _)] at hresult
      have hsmall' : (N ++ L).length < 2147483648 := by
        rw [List.length_append, ← length_bytes N, hbytes, List.take_length, List.length_reverse]
        omega
      refine ⟨out, hout, ?_, N ++ L, hresult.2.1 ▸ stacked', hsmall', ?_⟩
      · rw [hresult.1, hcopied]
        rfl
      · rw [bytes_append, hbytes, List.take_length]
        rfl

theorem HoldsStack.replies {s : State} {st : List UInt8} (holds : HoldsStack s st)
    {calls : List Call} (hplain : EveryStep State.step Plain s calls) :
    replies s calls = .ok (stackReplies st calls) := by
  induction calls generalizing s st with
  | nil => rfl
  | cons c cs ih =>
      obtain ⟨out, hout, hreply, holds'⟩ := holds.call hplain.1
      have hrest := ih holds' (hplain.2 out.state (by rw [State.step, hout]; rfl))
      simp only [Lifo.replies, hout, hrest, ok_bind, hreply]
      rfl

/-! ## Writing everything and reading it back -/

/-- Writes of the given chunks and then reads of the given sizes. -/
def writeThenRead (chunks : List (List UInt8 × Env)) (counts : List (ℕ × Env)) : List Call :=
  chunks.map (fun chunk => .write chunk.1 chunk.2) ++
    counts.map fun count => .read count.1 0 count.2

theorem stackReplies_writes (st : List UInt8) (chunks : List (List UInt8 × Env))
    (rest : List Call) :
    stackReplies st (chunks.map (fun chunk => .write chunk.1 chunk.2) ++ rest) =
      chunks.map (fun chunk => ⟨chunk.1.length, []⟩) ++
        stackReplies ((chunks.map Prod.fst).foldl push st) rest := by
  induction chunks generalizing st with
  | nil => rfl
  | cons chunk chunks ih =>
      simp only [List.map_cons, List.cons_append, stackReplies, stackCall, ih, List.foldl_cons]

theorem stackReplies_reads (st : List UInt8) (counts : List (ℕ × Env)) :
    stackReplies st (counts.map fun count => .read count.1 0 count.2) =
      (pops st (counts.map Prod.fst)).map fun xs => ⟨xs.length, xs⟩ := by
  induction counts generalizing st with
  | nil => rfl
  | cons count counts ih =>
      simp only [List.map_cons, stackReplies, stackCall, ih, pops, List.length_take]

/-- **The device is a byte stack.**  In every run of reads and writes in which nothing
fails the replies are those of a stack.  In particular, whatever is written in whatever
chunks is read back in reverse, in whatever chunks, and then reads return 0. -/
theorem refines_stack (calls : List Call) (hplain : EveryStep State.step Plain lifoInit calls) :
    replies lifoInit calls = .ok (stackReplies [] calls) ∧
      ∀ chunks counts, calls = writeThenRead chunks counts →
        (stackReplies [] calls).flatMap Reply.copied =
            (chunks.flatMap Prod.fst).reverse.take (counts.map Prod.fst).sum ∧
          ∀ i < counts.length,
            (chunks.flatMap Prod.fst).length ≤ ((counts.map Prod.fst).take i).sum →
            (stackReplies [] calls)[chunks.length + i]? = some ⟨0, []⟩ := by
  refine ⟨HoldsStack.replies ⟨[], .init, by decide, rfl⟩ hplain, ?_⟩
  rintro chunks counts rfl
  have hpushed : (chunks.map Prod.fst).foldl push [] = (chunks.flatMap Prod.fst).reverse := by
    rw [foldl_push, push, List.append_nil, List.flatMap_def]
  rw [writeThenRead, stackReplies_writes, stackReplies_reads, hpushed]
  constructor
  · rw [List.flatMap_append, List.flatMap_map, List.flatMap_map, ← flatten_pops]
    simp [List.flatMap_def]
  · intro i hi hall
    have hlength : (chunks.map fun chunk => (⟨chunk.1.length, []⟩ : Reply)).length =
        chunks.length := List.length_map _
    have hempty : (chunks.flatMap Prod.fst).reverse.drop ((counts.map Prod.fst).take i).sum =
        [] := List.drop_eq_nil_of_le (by rwa [List.length_reverse])
    rw [List.getElem?_append_right (by omega), hlength, Nat.add_sub_cancel_left,
      List.getElem?_map, getElem?_pops, hempty]
    simp [hi]

/-- Three bytes in two chunks, read back in three. -/
theorem refines_stack_run :
    replies lifoInit
        [.write [1, 2] { answers := [some 4, some 5] }, .write [3] { answers := [some 6] },
          .read 2 0 {}, .read 5 0 {}, .read 1 0 {}] =
      .ok [⟨2, []⟩, ⟨1, []⟩, ⟨2, [3, 2]⟩, ⟨1, [1]⟩, ⟨0, []⟩] :=
  (refines_stack _ (by decide)).1

end KernelTraining.Lifo
