import KernelTraining.Machine.SeqFile
import KernelTraining.Scull.Procmem

/-!
# The listing of scullseq

`scullseq` is the newer of the two listings: a sequence file, whose records are the devices.
Each record is printed as a whole, whatever is in the list, and if it does not fit the kernel
comes back for it with more room.

However its reader divides it up, it reads what `scullmem` prints if its buffer has room for
that and 80 bytes more (`scullseq_agrees`).  Without the 80 bytes `scullmem` may stop before
its last lines although they would fit, as it wants room for a line of any length.

* Both listings print the same lines from the same heap, so the paragraphs of `Scull.Procmem`
  serve for both.  The loop over the list items has no test here, and prints all of its
  paragraphs (`showList_eq`).
* `recordTexts` are the records, one for each device, and together they are the listing
  (`recordTexts_eq`).  That the methods produce them is all that the kernel needs to know
  (`scullSeqOps_lists`); how it calls them, and what it makes of the outcome, is in
  `Machine.SeqFile`.
* `scull_seq_show` waits for the semaphore of the device, and may be interrupted there.  Then
  the pass ends with `-ERESTARTSYS`, nothing of the record has been printed, and the next pass
  starts with it again.
* `procmem_of_room`: with that much room the test of `scullmem` never fails.
-/

namespace KernelTraining.Scull

open Machine Abstract

/-! ## The methods -/

/-- `scull_seq_start`; a record is the number of its device. -/
def scullSeqStart (s : State) (pos : ℕ) : Option ℕ :=
  if s.devices.length ≤ pos then none else some pos

/-- `scull_seq_next`, and `*pos`. -/
def scullSeqNext (s : State) (_ pos : ℕ) : Option ℕ × ℕ :=
  let pos := pos + 1
  (if s.devices.length ≤ pos then none else some pos, pos)

/-- The loop of `scull_seq_show` over the list items. -/
def showList (ptr : PointerText) (h : Heap Block) (qset : ℤ) :
    ℕ → Option Addr → List UInt8 → Except Fault (List UInt8)
  | _, none, buf => .ok buf
  | 0, some _, _ => .error .badAccess
  | rounds + 1, some d, buf => do
      let node ← loadQset h (some d)
      let entries ← dumped h qset node
      let buf := buf ++ itemLine ptr d node.data
      showList ptr h qset rounds node.next (buf ++ (quantumLines ptr 0 entries).flatten)

/-- `scull_seq_show` of record `v`: the return value and what is printed. -/
def scullSeqShow (ptr : PointerText) (s : State) (v : ℕ) (interrupted : Bool) :
    Except Fault (ℤ × List UInt8) :=
  match s.devices[v]? with
  | none => .error .outOfBounds
  | some dev =>
      if interrupted then .ok (-ERESTARTSYS, [])
      else do
        let buf ← showList ptr s.heap dev.qset s.heap.card dev.data (deviceLine v dev)
        pure (0, buf)

/-- `scull_seq_ops`. -/
def scullSeqOps (ptr : PointerText) (s : State) : SeqOps ℕ UInt8 where
  start := scullSeqStart s
  next := scullSeqNext s
  «show» := scullSeqShow ptr s

/-! ## The records -/

section Records

variable {ptr : PointerText} {s : State} {h : Heap Block}

theorem showList_eq {qset : ℤ} {rounds : ℕ} {p : Option Addr} {ps : List (Paragraph UInt8)}
    (hitems : listItems ptr h qset rounds p = .ok ps) (buf : List UInt8) :
    showList ptr h qset rounds p buf = .ok (buf ++ fullText ps) := by
  induction rounds generalizing p ps buf with
  | zero =>
      cases p with
      | none =>
          obtain rfl : [] = ps := Except.ok.inj hitems
          rw [showList, fullText, List.flatMap_nil, List.append_nil]
      | some qs => cases hitems
  | succ rounds ih =>
      cases p with
      | none =>
          obtain rfl : [] = ps := Except.ok.inj hitems
          rw [fullText, List.flatMap_nil, List.append_nil]
          rfl
      | some qs =>
          obtain ⟨node, hnode, hitems⟩ := bind_eq_ok.mp hitems
          obtain ⟨entries, hentries, hitems⟩ := bind_eq_ok.mp hitems
          obtain ⟨items, hrest, hitems⟩ := bind_eq_ok.mp hitems
          obtain rfl := Except.ok.inj hitems
          simp only [showList, hnode, hentries, ok_bind, ih hrest, fullText, List.flatMap_cons,
            Paragraph.text, List.append_assoc]

/-- The texts of the devices, from device `i` on. -/
def recordTexts (ptr : PointerText) (h : Heap Block) : ℕ → List ScullDev →
    Except Fault (List (List UInt8))
  | _, [] => .ok []
  | i, d :: devices => do
      let text ← showList ptr h d.qset h.card d.data (deviceLine i d)
      let texts ← recordTexts ptr h (i + 1) devices
      pure (text :: texts)

/-- The records make up the whole listing. -/
theorem recordTexts_eq {i : ℕ} {devices : List ScullDev} {ps : List (Paragraph UInt8)}
    (hlisting : listDevices ptr h none i devices = .ok ps) :
    ∃ texts, recordTexts ptr h i devices = .ok texts ∧ texts.flatten = fullText ps := by
  induction devices generalizing i ps with
  | nil =>
      obtain rfl : [] = ps := Except.ok.inj hlisting
      exact ⟨[], rfl, rfl⟩
  | cons d devices ih =>
      rw [listDevices, if_neg (by simp)] at hlisting
      obtain ⟨items, hitems, hlisting⟩ := bind_eq_ok.mp hlisting
      obtain ⟨rest, hrest, hlisting⟩ := bind_eq_ok.mp hlisting
      obtain rfl := Except.ok.inj hlisting
      obtain ⟨texts, htexts, hflatten⟩ := ih hrest
      refine ⟨(deviceLine i d ++ fullText items) :: texts, ?_, ?_⟩
      · simp only [recordTexts, showList_eq hitems, htexts, ok_bind]
        rfl
      · rw [List.flatten_cons, hflatten]
        simp only [fullText, List.flatMap_cons, List.flatMap_append, Paragraph.text,
          List.flatten_nil, List.append_nil, List.append_assoc]

theorem recordTexts_getElem? {i : ℕ} {devices : List ScullDev} {texts : List (List UInt8)}
    (htexts : recordTexts ptr h i devices = .ok texts) :
    texts.length = devices.length ∧ ∀ j dev text, devices[j]? = some dev → texts[j]? = some text →
      showList ptr h dev.qset h.card dev.data (deviceLine (i + j) dev) = .ok text := by
  induction devices generalizing i texts with
  | nil =>
      obtain rfl : [] = texts := Except.ok.inj htexts
      exact ⟨rfl, fun j dev text hdev => by cases hdev⟩
  | cons d devices ih =>
      obtain ⟨first, hfirst, htexts⟩ := bind_eq_ok.mp htexts
      obtain ⟨rest, hrest, htexts⟩ := bind_eq_ok.mp htexts
      obtain rfl := Except.ok.inj htexts
      obtain ⟨hlength, hget⟩ := ih hrest
      refine ⟨congrArg Nat.succ hlength, ?_⟩
      intro j dev text hdev htext
      cases j with
      | zero =>
          obtain rfl := Option.some.inj hdev
          obtain rfl := Option.some.inj htext
          exact hfirst
      | succ j =>
          rw [show i + (j + 1) = i + 1 + j by omega]
          exact hget j dev text hdev htext

/-- **The methods of scullseq list the devices.** -/
theorem scullSeqOps_lists {texts : List (List UInt8)}
    (htexts : recordTexts ptr s.heap 0 s.devices = .ok texts) :
    (scullSeqOps ptr s).Lists texts := by
  obtain ⟨hlength, hget⟩ := recordTexts_getElem? htexts
  -- what starts at a position is the record of that number
  have hstart {pos v : ℕ} (hv : scullSeqStart s pos = some v) :
      pos = v ∧ pos < s.devices.length := by
    unfold scullSeqStart at hv
    split_ifs at hv with hpos
    exact ⟨Option.some.inj hv, not_le.mp hpos⟩
  refine ⟨?_, ?_, ?_, ?_⟩
  · intro pos hpos
    exact if_pos (hlength ▸ hpos)
  · intro pos hpos
    refine ⟨pos, if_neg (by omega), rfl⟩
  · intro pos v text hv htext
    obtain ⟨rfl, hlt⟩ := hstart hv
    have hdev : s.devices[pos]? = some s.devices[pos] := List.getElem?_eq_getElem hlt
    have hshow := hget pos _ text hdev htext
    rw [Nat.zero_add] at hshow
    show scullSeqShow ptr s pos false = .ok (0, text)
    simp only [scullSeqShow, hdev, hshow, ok_bind, Bool.false_eq_true, if_false]
    rfl
  · intro pos v hv
    obtain ⟨rfl, hlt⟩ := hstart hv
    refine ⟨-ERESTARTSYS, by decide, ?_⟩
    show scullSeqShow ptr s pos true = .ok (-ERESTARTSYS, [])
    simp only [scullSeqShow, List.getElem?_eq_getElem hlt, if_true]

end Records

/-! ## The two listings -/

/-- The listing, in one text for each device: the passes over `scullseq` read the texts of the
first devices, as many as all of them have shown, and `scullmem` prints all of the texts if its
buffer has room for them and 80 bytes more. -/
def ListsAlike (s : State) : Prop :=
  ∀ ptr, ∃ texts : List (List UInt8), texts.length = s.devices.length ∧
    (∃ ps, listing ptr s none = .ok ps ∧ texts.flatten = fullText ps) ∧
    (∀ passes, (scullSeqOps ptr s).passes passes 0 =
      .ok (texts.take (passes.map shown).sum).flatten) ∧
    ∀ count : ℕ, texts.flatten.length + 80 ≤ count → count ≤ 2147483647 →
      ∃ out, scullReadProcmem ptr s count none = .ok out ∧ out.buf = texts.flatten

/-- With room for 80 bytes more behind it the whole listing is printed. -/
theorem procmem_of_room {ptr : PointerText} {s : State} {ps : List (Paragraph UInt8)}
    (hlisting : listing ptr s none = .ok ps) {count : ℕ} (hroom : (fullText ps).length + 80 ≤ count)
    (hcount : count ≤ 2147483647) :
    ∃ out, scullReadProcmem ptr s count none = .ok out ∧ out.buf = fullText ps := by
  obtain ⟨out, hout, hbuf⟩ : ∃ out, scullReadProcmem ptr s count none = .ok out ∧
      out.buf = printWhile (fun text => len text ≤ wrap32 (count - 80)) ps [] :=
    procmemLoop_eq hlisting []
  refine ⟨out, hout, ?_⟩
  rw [hbuf, printWhile_of_forall, List.nil_append]
  intro before p after hps
  have hle : (fullText before).length ≤ (fullText ps).length := by
    rw [hps, fullText, fullText, List.flatMap_append, List.length_append]
    exact Nat.le_add_right _ _
  rw [List.nil_append, len_eq (by omega), wrap32_eq (by omega) (by unfold intMax; omega)]
  omega

/-- **Both listings are the same.**  In every state that a run of calls reaches, for whatever
the kernel prints for a pointer, reading `scullseq` pass after pass gives the text of each
device once and in order, wherever the passes stop and whichever are interrupted; and `scullmem`
prints the same text, if its buffer has room for it and 80 bytes more. -/
theorem scullseq_agrees {scullQuantum scullQset : ℤ}
    (husable : (Globals.mk scullQuantum scullQset).Usable) (scullNrDevs : ℕ) (calls : List Call)
    (htrims : EveryStep State.step TrimsUsable (scullInit scullQuantum scullQset scullNrDevs)
      calls) :
    EveryState State.step ListsAlike (scullInit scullQuantum scullQset scullNrDevs) calls := by
  refine (everyState_listing_ok husable scullNrDevs calls htrims).mono fun s hlisted ptr => ?_
  obtain ⟨ps, hlisting⟩ := hlisted ptr none
  obtain ⟨texts, htexts, hflatten⟩ := recordTexts_eq hlisting
  refine ⟨texts, (recordTexts_getElem? htexts).1, ⟨ps, hlisting, hflatten⟩, ?_, ?_⟩
  · intro passes
    exact (scullSeqOps_lists htexts).passes_eq passes 0
  · rw [hflatten]
    exact fun count => procmem_of_room hlisting

theorem scullseq_agrees_run :
    EveryState State.step ListsAlike (scullInit 1 2 2)
      [.open 1 2 {}, .write 0 [1] { answers := [some 1, some 2, some 3] },
        .write 0 [2] { answers := [some 4] }] :=
  scullseq_agrees (by decide) 2 _ (by decide)

end KernelTraining.Scull
