import KernelTraining.Abstract.Listing
import KernelTraining.Machine.CString
import KernelTraining.Scull.Ownership

/-!
# The listing of scullmem

`scull_read_procmem` prints the devices, their list items, and the quanta of the last item
of each list, into a buffer of `count` bytes.  It goes on while the text leaves room for a
line of 80 bytes, but does not look between the lines of the quanta.  So the text stays in
the buffer exactly when no last item that it comes to has too many of them
(`procmem_inBuffer_iff`).

## Strategy

The two loops, over the devices and over the list items, stop at the same test, and what they
print up to there does not depend on where they stop.  So the text is taken apart into
paragraphs: one line that is checked for, and the lines that follow it unchecked.  `listing`
is all of it, as it would be printed into a buffer without an end, and `scanList_eq` and
`procmemLoop_eq` say that the loops print the paragraphs as long as the test allows
(`printWhile`).  What remains is about lists of paragraphs, and is done in
`Abstract.Listing`.

* `len` is an `int`, and so is the limit; with a `count` below `2^31` neither goes round as
  long as the text has stayed in the buffer, which is all that is needed to decide whether it
  still does after the next paragraph.
* The loops follow the pointers in the heap.  That there is a listing at all means that they
  find valid blocks, and is a hypothesis; in every state a run of calls reaches it is true
  (`everyState_listing_ok`).
* An interruption at the semaphore of a device ends the listing there, and what has been
  printed is in the buffer all the same.

What `%p` prints is up to the kernel, so it is a parameter (`PointerText`).
-/

namespace KernelTraining.Scull

open Machine Abstract

/-! ## `scull_read_procmem` -/

/-- What `%p` prints, given the width of the field, or 0 if there is none. -/
abbrev PointerText := ℕ → Option Addr → List UInt8

/-- `"\nDevice %i: qset %i, q %i, sz %li\n"`. -/
def deviceLine (i : ℕ) (d : ScullDev) : List UInt8 :=
  ascii "\nDevice " ++ signedDecimal i ++ ascii ": qset " ++ signedDecimal d.qset ++
    ascii ", q " ++ signedDecimal d.quantum ++ ascii ", sz " ++ signedDecimal (wrap64 d.size) ++
    ascii "\n"

/-- `"  item at %p, qset at %p\n"`. -/
def itemLine (ptr : PointerText) (qs : Addr) (data : Option Addr) : List UInt8 :=
  ascii "  item at " ++ ptr 0 (some qs) ++ ascii ", qset at " ++ ptr 0 data ++ ascii "\n"

/-- `"    % 4i: %8p\n"`. -/
def quantumLine (ptr : PointerText) (j : ℕ) (data : Addr) : List UInt8 :=
  ascii "    " ++ (ascii " " ++ decimal j).leftpad 4 32 ++ ascii ": " ++ ptr 8 (some data) ++
    ascii "\n"

/-- The loop over the entries of a pointer array, from entry `j` on. -/
def quantumLines (ptr : PointerText) : ℕ → List (Option Addr) → List (List UInt8)
  | _, [] => []
  | j, none :: entries => quantumLines ptr (j + 1) entries
  | j, some data :: entries => quantumLine ptr j data :: quantumLines ptr (j + 1) entries

/-- `if (qs->data && !qs->next)`: the entries to dump are those of the last item. -/
def dumped (h : Heap Block) (qset : ℤ) (qs : ScullQset) : Except Fault (List (Option Addr)) :=
  match qs.data, qs.next with
  | some data, none => do
      let entries ← loadPtrs h (some data)
      firstEntries entries qset
  | _, _ => .ok []

/-- `len`, an `int`, when `buf` has been printed. -/
def len (buf : List UInt8) : ℤ := wrap32 buf.length

/-- The loop over the list items. -/
def scanList (ptr : PointerText) (limit : ℤ) (h : Heap Block) (qset : ℤ) :
    ℕ → Option Addr → List UInt8 → Except Fault (List UInt8)
  | _, none, buf => .ok buf
  | 0, some _, _ => .error .badAccess
  | rounds + 1, some qs, buf =>
      if limit < len buf then .ok buf
      else do
        let node ← loadQset h (some qs)
        let entries ← dumped h qset node
        let buf := buf ++ itemLine ptr qs node.data
        scanList ptr limit h qset rounds node.next (buf ++ (quantumLines ptr 0 entries).flatten)

/-- The return value, `*eof`, and the bytes printed, without the NUL behind them. -/
structure ProcOut where
  retval : ℤ
  eof : Bool
  buf : List UInt8
  deriving DecidableEq

/-- The loop over the devices.  The call can be interrupted at the semaphore of one. -/
def procmemLoop (ptr : PointerText) (limit : ℤ) (h : Heap Block) (interrupted : Option ℕ) :
    ℕ → List ScullDev → List UInt8 → Except Fault ProcOut
  | _, [], buf => .ok ⟨len buf, true, buf⟩
  | i, d :: devices, buf =>
      if limit < len buf then .ok ⟨len buf, true, buf⟩
      else if interrupted = some i then .ok ⟨-ERESTARTSYS, false, buf⟩
      else do
        let buf ← scanList ptr limit h d.qset h.card d.data (buf ++ deviceLine i d)
        procmemLoop ptr limit h interrupted (i + 1) devices buf

/-- `scull_read_procmem`. -/
def scullReadProcmem (ptr : PointerText) (s : State) (count : ℤ) (interrupted : Option ℕ) :
    Except Fault ProcOut :=
  procmemLoop ptr (wrap32 (count - 80)) s.heap interrupted 0 s.devices []

/-- How many bytes are put into the buffer, the NUL included. -/
def ProcOut.put (out : ProcOut) : ℕ := if out.buf = [] then 0 else out.buf.length + 1

/-! ## The whole listing -/

/-- The paragraphs of the list items. -/
def listItems (ptr : PointerText) (h : Heap Block) (qset : ℤ) :
    ℕ → Option Addr → Except Fault (List (Paragraph UInt8))
  | _, none => .ok []
  | 0, some _ => .error .badAccess
  | rounds + 1, some qs => do
      let node ← loadQset h (some qs)
      let entries ← dumped h qset node
      let items ← listItems ptr h qset rounds node.next
      pure (⟨itemLine ptr qs node.data, quantumLines ptr 0 entries⟩ :: items)

/-- The paragraphs of the devices that the call is not interrupted at or before. -/
def listDevices (ptr : PointerText) (h : Heap Block) (interrupted : Option ℕ) :
    ℕ → List ScullDev → Except Fault (List (Paragraph UInt8))
  | _, [] => .ok []
  | i, d :: devices =>
      if interrupted = some i then .ok []
      else do
        let items ← listItems ptr h d.qset h.card d.data
        let rest ← listDevices ptr h interrupted (i + 1) devices
        pure (⟨deviceLine i d, []⟩ :: (items ++ rest))

/-- What `scull_read_procmem` would print if it had room for all of it. -/
def listing (ptr : PointerText) (s : State) (interrupted : Option ℕ) :
    Except Fault (List (Paragraph UInt8)) :=
  listDevices ptr s.heap interrupted 0 s.devices

/-- The dump of every last item that the listing comes to with room for a line ends before
the buffer does. -/
def DumpsFit (count : ℕ) (ps : List (Paragraph UInt8)) : Prop :=
  ∀ before p after, ps = before ++ p :: after → p.rest ≠ [] →
    (fullText before).length + 80 ≤ count → (fullText before ++ p.text).length < count

section Listing

variable {ptr : PointerText} {limit qset : ℤ} {h : Heap Block} {interrupted : Option ℕ}

theorem scanList_eq {rounds : ℕ} {p : Option Addr} {ps : List (Paragraph UInt8)}
    (hitems : listItems ptr h qset rounds p = .ok ps) (buf : List UInt8) :
    scanList ptr limit h qset rounds p buf =
      .ok (printWhile (fun text => len text ≤ limit) ps buf) := by
  induction rounds generalizing p ps buf with
  | zero =>
      cases p with
      | none =>
          obtain rfl : [] = ps := Except.ok.inj hitems
          rfl
      | some qs => cases hitems
  | succ rounds ih =>
      cases p with
      | none =>
          obtain rfl : [] = ps := Except.ok.inj hitems
          rfl
      | some qs =>
          obtain ⟨node, hnode, hitems⟩ := bind_eq_ok.mp hitems
          obtain ⟨entries, hentries, hitems⟩ := bind_eq_ok.mp hitems
          obtain ⟨items, hrest, hitems⟩ := bind_eq_ok.mp hitems
          obtain rfl := Except.ok.inj hitems
          simp only [scanList, printWhile, hnode, hentries, ok_bind, ih hrest]
          split_ifs with hover hfits
          · omega
          · rfl
          · rw [Paragraph.text, List.append_assoc]
          · omega

theorem procmemLoop_eq {devices : List ScullDev} {i : ℕ} {ps : List (Paragraph UInt8)}
    (hlisting : listDevices ptr h interrupted i devices = .ok ps) (buf : List UInt8) :
    ∃ out, procmemLoop ptr limit h interrupted i devices buf = .ok out ∧
      out.buf = printWhile (fun text => len text ≤ limit) ps buf := by
  induction devices generalizing i ps buf with
  | nil =>
      obtain rfl : [] = ps := Except.ok.inj hlisting
      exact ⟨_, rfl, rfl⟩
  | cons d devices ih =>
      by_cases hover : limit < len buf
      · refine ⟨⟨len buf, true, buf⟩, ?_, ?_⟩
        · simp only [procmemLoop, hover, if_true]
        · exact (printWhile_of_not (show ¬ len buf ≤ limit by omega)).symm
      by_cases hint : interrupted = some i
      · rw [listDevices, if_pos hint] at hlisting
        obtain rfl : [] = ps := Except.ok.inj hlisting
        refine ⟨⟨-ERESTARTSYS, false, buf⟩, ?_, rfl⟩
        simp only [procmemLoop, hover, hint, if_true, if_false]
      · rw [listDevices, if_neg hint] at hlisting
        obtain ⟨items, hitems, hlisting⟩ := bind_eq_ok.mp hlisting
        obtain ⟨rest, hrest, hlisting⟩ := bind_eq_ok.mp hlisting
        obtain rfl := Except.ok.inj hlisting
        obtain ⟨out, hout, hbuf⟩ := ih hrest
          (printWhile (fun text => len text ≤ limit) items (buf ++ deviceLine i d))
        refine ⟨out, ?_, ?_⟩
        · simp only [procmemLoop, hover, hint, if_false, scanList_eq hitems, ok_bind, hout]
        · rw [hbuf, printWhile, if_pos (by omega), printWhile_append, Paragraph.text,
            List.flatten_nil, List.append_nil]

theorem len_eq {buf : List UInt8} (hbuf : buf.length ≤ 2147483647) : len buf = buf.length :=
  wrap32_eq (by omega) (by unfold intMax; omega)

end Listing

/-- **When the listing stays in its buffer**: for every number of devices, whatever is in
their lists, if no line that it checks for is longer than it leaves room for, the bytes it
puts into the buffer, with the NUL, are no more than `count` exactly when the dumps of the
last items fit. -/
theorem procmem_inBuffer_iff {ptr : PointerText} {s : State} {interrupted : Option ℕ}
    {ps : List (Paragraph UInt8)} (hlisting : listing ptr s interrupted = .ok ps)
    (hshort : ∀ p ∈ ps, p.line.length < 80) {count : ℕ} (hcount : count ≤ 2147483647) :
    ∃ out, scullReadProcmem ptr s count interrupted = .ok out ∧
      (out.put ≤ count ↔ DumpsFit count ps) := by
  obtain ⟨out, hout, hbuf⟩ : ∃ out, scullReadProcmem ptr s count interrupted = .ok out ∧
      out.buf = printWhile (fun text => len text ≤ wrap32 (count - 80)) ps [] :=
    procmemLoop_eq hlisting []
  refine ⟨out, hout, ?_⟩
  have hlimit : wrap32 ((count : ℤ) - 80) = count - 80 :=
    wrap32_eq (by omega) (by unfold intMax; omega)
  rw [hlimit] at hbuf
  rcases Nat.eq_zero_or_pos count with rfl | hpos
  · -- there is no room for a line
    rw [printWhile_of_not (by decide)] at hbuf
    refine iff_of_true (by simp [ProcOut.put, hbuf]) ?_
    intro before p after _ _ hroom
    omega
  · have hgo : ∀ text : List UInt8, text.length < count →
        (len text ≤ (count : ℤ) - 80 ↔ text.length + 80 ≤ count) := by
      intro text htext
      rw [len_eq (by omega)]
      omega
    have hput : out.put ≤ count ↔ out.buf.length < count := by
      unfold ProcOut.put
      split_ifs with hempty
      · simp only [hempty, List.length_nil]
        omega
      · omega
    rw [hput, hbuf, length_printWhile_lt_iff hgo hshort (show [].length < count from hpos)]
    rfl

/-- A device with two quanta in one list item, with pointers of 16 digits. -/
theorem two_quanta_listed : ∃ s, List.foldlM State.step (scullInit 1 2 1) [.open 0 2 {},
      .write 0 [1] { answers := [some 1, some 2, some 3] },
      .write 0 [2] { answers := [some 4] }] = .ok s ∧
    ∃ ps, listing (fun _ _ => List.replicate 16 48) s none = .ok ps ∧
      (∀ p ∈ ps, ∀ line ∈ p.line :: p.rest, line.length < 80) ∧
      ∃ out, scullReadProcmem (fun _ _ => List.replicate 16 48) s 110 none = .ok out ∧
        out.put = 137 := by
  have hlisted : (do
      let s ← List.foldlM State.step (scullInit 1 2 1) [.open 0 2 {},
        .write 0 [1] { answers := [some 1, some 2, some 3] }, .write 0 [2] { answers := [some 4] }]
      let ps ← listing (fun _ _ => List.replicate 16 48) s none
      let out ← scullReadProcmem (fun _ _ => List.replicate 16 48) s 110 none
      pure (decide (∀ p ∈ ps, ∀ line ∈ p.line :: p.rest, line.length < 80), out.put)) =
        .ok (true, 137) := by decide +kernel
  obtain ⟨s, hrun, hlisted⟩ := bind_eq_ok.mp hlisted
  obtain ⟨ps, hps, hlisted⟩ := bind_eq_ok.mp hlisted
  obtain ⟨out, hout, hlisted⟩ := bind_eq_ok.mp hlisted
  obtain ⟨hshort, hput⟩ := Prod.mk.inj (Except.ok.inj hlisted)
  exact ⟨s, hrun, ps, hps, of_decide_eq_true hshort, out, hout, hput⟩

/-- That device listed into a page. -/
theorem procmem_inBuffer_page : ∃ s ps, listing (fun _ _ => List.replicate 16 48) s none = .ok ps ∧
    ∃ out, scullReadProcmem (fun _ _ => List.replicate 16 48) s 4096 none = .ok out ∧
      (out.put ≤ 4096 ↔ DumpsFit 4096 ps) := by
  obtain ⟨s, -, ps, hlisting, hshort, -⟩ := two_quanta_listed
  refine ⟨s, ps, hlisting, procmem_inBuffer_iff hlisting ?_ (by decide)⟩
  intro p hp
  exact hshort p hp p.line List.mem_cons_self

/-- That device listed into 110 bytes: the dump of the second quantum is too long. -/
theorem dump_overruns : ∃ s, List.foldlM State.step (scullInit 1 2 1) [.open 0 2 {},
      .write 0 [1] { answers := [some 1, some 2, some 3] },
      .write 0 [2] { answers := [some 4] }] = .ok s ∧
    (∃ ps, listing (fun _ _ => List.replicate 16 48) s none = .ok ps ∧
      ∀ p ∈ ps, ∀ line ∈ p.line :: p.rest, line.length < 80) ∧
    ∃ out, scullReadProcmem (fun _ _ => List.replicate 16 48) s 110 none = .ok out ∧
      ¬ out.put ≤ 110 := by
  obtain ⟨s, hrun, ps, hlisting, hshort, out, hout, hput⟩ := two_quanta_listed
  refine ⟨s, hrun, ⟨ps, hlisting, hshort⟩, out, hout, ?_⟩
  rw [hput]
  decide

/-! ## Reachable states -/

/-- The list of a device can be listed. -/
theorem Owns.listItems_ok {G : Geometry} {h : Heap Block} {dev : ScullDev} {L : Layout G}
    (owns : Owns h dev L) (ptr : PointerText) (rounds i : ℕ)
    (hrounds : L.nodes.length ≤ i + rounds) :
    ∃ ps, listItems ptr h dev.qset rounds L.nodes[i]? = .ok ps := by
  induction rounds generalizing i with
  | zero => exact ⟨[], by rw [List.getElem?_eq_none (by omega)]; rfl⟩
  | succ rounds ih =>
      cases hi : L.nodes[i]? with
      | none => exact ⟨[], rfl⟩
      | some qs =>
          obtain ⟨items, hitems⟩ := ih (i + 1) (by omega)
          obtain ⟨entries, hentries⟩ :
              ∃ entries, dumped h dev.qset ⟨L.array i, L.nodes[i + 1]?⟩ = .ok entries := by
            cases hdata : L.array i with
            | none => exact ⟨[], rfl⟩
            | some data =>
                cases hnext : L.nodes[i + 1]? with
                | none =>
                    refine ⟨(L.entries i).take dev.qset.toNat, ?_⟩
                    simp only [dumped, loadPtrs_eq (owns.array hdata), ok_bind, firstEntries]
                    rw [if_pos (by rw [L.length_entries, owns.qset])]
                | some next => exact ⟨[], rfl⟩
          refine ⟨⟨itemLine ptr qs (L.array i), quantumLines ptr 0 entries⟩ :: items, ?_⟩
          simp only [listItems, loadQset_eq (owns.node hi), hentries, hitems, ok_bind]
          rfl

theorem Inv.listing_ok {s : State} {own : ℕ → Owned} (inv : Inv s own) (ptr : PointerText)
    (interrupted : Option ℕ) : ∃ ps, listing ptr s interrupted = .ok ps := by
  have hdevices : ∀ devices ⊆ s.devices, ∀ i,
      ∃ ps, listDevices ptr s.heap interrupted i devices = .ok ps := by
    intro devices
    induction devices with
    | nil => exact fun _ i => ⟨[], rfl⟩
    | cons d devices ih =>
        intro hsub i
        rw [List.cons_subset] at hsub
        obtain ⟨j, hj⟩ := List.mem_iff_getElem?.mp hsub.1
        have owns := inv.owns hj
        obtain ⟨items, hitems⟩ := owns.listItems_ok ptr s.heap.card 0 (by
          rw [Nat.zero_add]
          exact s.heap.length_le_card (own j).layout.nodes_nodup fun a ha =>
            owns.allocated a (.inl ha))
        rw [← owns.head] at hitems
        obtain ⟨rest, hrest⟩ := ih hsub.2 (i + 1)
        by_cases hint : interrupted = some i
        · exact ⟨[], by rw [listDevices, if_pos hint]⟩
        · refine ⟨⟨deviceLine i d, []⟩ :: (items ++ rest), ?_⟩
          simp only [listDevices, hint, if_false, hitems, hrest, ok_bind]
          rfl
  exact hdevices s.devices (List.Subset.refl _) 0

/-- In every state a run reaches the devices can be listed. -/
theorem everyState_listing_ok {scullQuantum scullQset : ℤ}
    (husable : (Globals.mk scullQuantum scullQset).Usable) (scullNrDevs : ℕ) (calls : List Call)
    (htrims : EveryStep State.step TrimsUsable (scullInit scullQuantum scullQset scullNrDevs)
      calls) :
    EveryState State.step (fun s => ∀ ptr interrupted, ∃ ps, listing ptr s interrupted = .ok ps)
      (scullInit scullQuantum scullQset scullNrDevs) calls :=
  (everyState_inv husable scullNrDevs htrims).mono fun _ ⟨_, inv⟩ => inv.listing_ok

end KernelTraining.Scull
