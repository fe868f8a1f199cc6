import KernelTraining.Abstract.Resumed
import KernelTraining.Machine.CString
import KernelTraining.Machine.ProcFile
import KernelTraining.Machine.ReadText
import KernelTraining.Pipe.Device

/-!
# The listing of the pipe devices

`scull_read_p_mem` prints the pipe devices into a page, anew at every call.  For a reader who
goes on at an offset, `scullp_proc_offset` throws away the devices in front of it and lets
`*start` point into the first one that is left.  But the bytes in front of `*start` stay in
the length that is returned.  So a reader who goes on in the middle of a device is given
more than has been printed, unless he asks for less (`p_mem_reads_iff`).

## Strategy

There are three layers, and each is reduced to the one below.

* **The page.**  The loop prints line after line, and `Printing.Holds` says what is in the page
  by then.  In these terms it prints from an offset on, in the sense of `Abstract.Resumed`, the
  devices being the paragraphs (`memLoop_eq`).  A device takes up to 196 bytes
  (`length_pipeLines`) and the check in front of it leaves more room than that, so nothing is
  printed past the page, also if the call is interrupted (`memLoop_page`).
* **A call.**  What the kernel takes from the page is in `Machine.ProcFile`: the right bytes, or
  a NUL among them.  No line has a NUL in it (`zero_notMem_listing`), so the reader could tell.
  Which of the two it is depends on the position and on how much he asks for (`WellPlaced`).
* **A reader.**  He has got the beginning of the listing exactly if every call has given him
  what comes at its position (`readRound_prefix_iff`, and `deliver_prefix_iff` in
  `Machine.ReadText`).

The line with the default size is printed before the loop, and would be a paragraph of its own.
But it is thrown away only together with the first device, so it belongs to that one
(`printFrom_pipeListing`).  If there are no devices it is never thrown away, and that case is
excluded.

What `%p` prints is up to the kernel: some characters, no more than 16 of them.
-/

namespace KernelTraining.Pipe

open Machine Abstract

/-! ## `scull_read_p_mem` -/

/-- What `%p` prints for a pointer: up to 16 characters. -/
structure PointerText where
  text : List UInt8
  short : text.length ≤ 16
  nul : 0 ∉ text

/-- A device, and what is printed for its address and for its pointers. -/
structure Listed where
  dev : ScullPipe
  self : PointerText
  buffer : PointerText
  bufEnd : PointerText
  rp : PointerText
  wp : PointerText

/-- What `%i` prints. -/
def intText (n : ℤ) : List UInt8 := signedDecimal (wrap32 n)

/-- `"Default buffersize is %i\n"`. -/
def bufferLine (scullPBuffer : ℤ) : List UInt8 :=
  ascii "Default buffersize is " ++ intText scullPBuffer ++ ascii "\n"

/-- The four lines of a device. -/
def pipeLines (i : ℕ) (p : Listed) : Paragraph UInt8 where
  line := ascii "\nDevice " ++ intText i ++ ascii ": " ++ p.self.text ++ ascii "\n"
  rest :=
    [ascii "   Buffer: " ++ p.buffer.text ++ ascii " to " ++ p.bufEnd.text ++ ascii " (" ++
        intText p.dev.buffersize ++ ascii " bytes)\n",
      ascii "   rp " ++ p.rp.text ++ ascii "   wp " ++ p.wp.text ++ ascii "\n",
      ascii "   readers " ++ intText p.dev.nreaders ++ ascii "   writers " ++
        intText p.dev.nwriters ++ ascii "\n"]

/-- The page, `*start` as an offset into it, `offset` and `len`. -/
structure Printing where
  page : ℕ → UInt8
  start : ℕ
  offset : ℕ
  len : ℕ

/-- `len += sprintf(buf + len, ...)`. -/
def Printing.print (x : Printing) (text : List UInt8) : Printing :=
  { x with page := sprintf x.page x.len text, len := x.len + text.length }

/-- `scullp_proc_offset`. -/
def scullpProcOffset (x : Printing) : Printing :=
  if x.offset = 0 then x
  else if x.len ≤ x.offset then { x with offset := x.offset - x.len, len := 0 }
  else { x with start := x.offset, offset := 0 }

/-- `LIMIT`. -/
def limit : ℕ := procPageSize - 200

/-- The loop over the devices.  The call can be interrupted at the semaphore of one, and is
over then. -/
def memLoop (interrupted : Option ℕ) : ℕ → List Listed → Printing → Except Printing Printing
  | _, [], x => .ok x
  | i, p :: devices, x =>
      if limit < x.len then .ok x
      else if interrupted = some i then .error x
      else
        let lines := pipeLines i p
        memLoop interrupted (i + 1) devices
          (scullpProcOffset ((lines.line :: lines.rest).foldl Printing.print x))

/-- `scull_read_p_mem`. -/
def scullReadPMem (scullPBuffer : ℤ) (devices : List Listed) (page : ℕ → UInt8) (offset : ℕ)
    (interrupted : Option ℕ) : ReadProc :=
  match memLoop interrupted 0 devices
      (Printing.print ⟨page, 0, offset, 0⟩ (bufferLine scullPBuffer)) with
  | .error x => ⟨-ERESTARTSYS, x.start, false, x.page⟩
  | .ok x => ⟨x.len, x.start, decide (x.len ≤ limit), x.page⟩

/-! ## What it should print -/

/-- The devices, from device `i` on. -/
def pipeParagraphs : ℕ → List Listed → List (Paragraph UInt8)
  | _, [] => []
  | i, p :: devices => pipeLines i p :: pipeParagraphs (i + 1) devices

/-- The listing.  The size is printed with the first device. -/
def pipeListing (scullPBuffer : ℤ) : List Listed → List (Paragraph UInt8)
  | [] => []
  | p :: devices =>
      ⟨bufferLine scullPBuffer ++ (pipeLines 0 p).line, (pipeLines 0 p).rest⟩ ::
        pipeParagraphs 1 devices

/-! ## The lines -/

theorem length_intText (n : ℤ) : (intText n).length ≤ 11 := by
  obtain ⟨hlow, hhigh⟩ := wrap32_range n
  unfold intMax at hhigh
  have hdigits : (decimal (wrap32 n).natAbs).length ≤ 10 := by
    apply length_decimal_le (by decide)
    omega
  unfold intText signedDecimal
  split_ifs
  · rw [List.length_append, List.length_singleton]
    omega
  · rw [List.nil_append]
    omega

theorem zero_notMem_intText (n : ℤ) : 0 ∉ intText n := by
  have hdigits : 0 ∉ decimal (wrap32 n).natAbs := by
    intro hmem
    exact absurd (digit_of_mem_decimal hmem).1 (by decide)
  unfold intText signedDecimal
  split_ifs
  · rw [List.mem_append, not_or]
    exact ⟨by decide, hdigits⟩
  · exact hdigits

theorem bufferLine_plain (n : ℤ) : (bufferLine n).length ≤ 34 ∧ 0 ∉ bufferLine n := by
  have hlength := length_intText n
  have hnul := zero_notMem_intText n
  have hbegins : (ascii "Default buffersize is ").length = 22 := by decide
  have hends : (ascii "\n").length = 1 := by decide
  constructor
  · simp only [bufferLine, List.length_append]
    omega
  · simp only [bufferLine, List.mem_append, hnul, or_false, not_or]
    decide

/-- A device takes up to 196 bytes. -/
theorem length_pipeLines (i : ℕ) (p : Listed) : (pipeLines i p).text.length ≤ 196 := by
  have hi := length_intText i
  have hsize := length_intText p.dev.buffersize
  have hreaders := length_intText p.dev.nreaders
  have hwriters := length_intText p.dev.nwriters
  have hself := p.self.short
  have hbuffer := p.buffer.short
  have hend := p.bufEnd.short
  have hrp := p.rp.short
  have hwp := p.wp.short
  have hliterals : (ascii "\nDevice ").length = 8 ∧ (ascii ": ").length = 2 ∧
      (ascii "\n").length = 1 ∧ (ascii "   Buffer: ").length = 11 ∧ (ascii " to ").length = 4 ∧
      (ascii " (").length = 2 ∧ (ascii " bytes)\n").length = 8 ∧ (ascii "   rp ").length = 6 ∧
      (ascii "   wp ").length = 6 ∧ (ascii "   readers ").length = 11 ∧
      (ascii "   writers ").length = 11 := by decide
  simp only [pipeLines, Paragraph.text, List.flatten_cons, List.flatten_nil, List.length_append,
    List.length_nil]
  omega

theorem zero_notMem_pipeLines (i : ℕ) (p : Listed) : 0 ∉ (pipeLines i p).text := by
  have hliterals : 0 ∉ ascii "\nDevice " ∧ 0 ∉ ascii ": " ∧ 0 ∉ ascii "\n" ∧
      0 ∉ ascii "   Buffer: " ∧ 0 ∉ ascii " to " ∧ 0 ∉ ascii " (" ∧ 0 ∉ ascii " bytes)\n" ∧
      0 ∉ ascii "   rp " ∧ 0 ∉ ascii "   wp " ∧ 0 ∉ ascii "   readers " ∧
      0 ∉ ascii "   writers " := by decide
  simp only [pipeLines, Paragraph.text, List.flatten_cons, List.flatten_nil, List.mem_append,
    List.not_mem_nil, zero_notMem_intText, p.self.nul, p.buffer.nul, p.bufEnd.nul, p.rp.nul,
    p.wp.nul, hliterals, or_self, not_false_eq_true]

theorem pipeLines_ne_nil (i : ℕ) (p : Listed) : (pipeLines i p).line ≠ [] := by
  have hbegins : ascii "\nDevice " ≠ [] := by decide
  simp only [pipeLines, ne_eq, List.append_eq_nil_iff, hbegins, false_and, not_false_eq_true]

/-! ## The loop -/

/-- What has been printed is in the page. -/
structure Printing.Holds (x : Printing) (text : List UInt8) : Prop where
  len : x.len = text.length
  shows : Shows x.page text

section Loop

variable {x : Printing} {text : List UInt8}

theorem Printing.Holds.print (holds : x.Holds text) (more : List UInt8) :
    (x.print more).Holds (text ++ more) where
  len := by rw [List.length_append, ← holds.len]; rfl
  shows := by
    have hshows := holds.shows.sprintf more
    rwa [← holds.len] at hshows

theorem Printing.Holds.printAll (holds : x.Holds text) (lines : List (List UInt8)) :
    (lines.foldl Printing.print x).Holds (text ++ lines.flatten) := by
  induction lines generalizing x text with
  | nil => rwa [List.flatten_nil, List.append_nil]
  | cons line lines ih =>
      rw [List.flatten_cons, ← List.append_assoc]
      exact ih (holds.print line)

/-- What printing leaves as it is. -/
theorem printAll_frame (x : Printing) (lines : List (List UInt8)) :
    (lines.foldl Printing.print x).start = x.start ∧
      (lines.foldl Printing.print x).offset = x.offset ∧
      (lines.foldl Printing.print x).len = x.len + lines.flatten.length ∧
      ∀ j, x.len + lines.flatten.length < j →
        (lines.foldl Printing.print x).page j = x.page j := by
  induction lines generalizing x with
  | nil => exact ⟨rfl, rfl, rfl, fun _ _ => rfl⟩
  | cons line lines ih =>
      obtain ⟨hstart, hoffset, hlen, hpage⟩ := ih (x.print line)
      have hprinted : (x.print line).len = x.len + line.length := rfl
      rw [List.flatten_cons, List.length_append, List.foldl_cons]
      refine ⟨hstart, hoffset, by omega, ?_⟩
      intro j hj
      rw [hpage j (by omega)]
      exact sprintf_of_lt (by omega)

theorem scullpProcOffset_page (x : Printing) :
    (scullpProcOffset x).page = x.page ∧ (scullpProcOffset x).len ≤ x.len := by
  unfold scullpProcOffset
  split_ifs
  · exact ⟨rfl, le_rfl⟩
  · exact ⟨rfl, Nat.zero_le _⟩
  · exact ⟨rfl, le_rfl⟩

/-- The loop prints into the page. -/
theorem memLoop_page (interrupted : Option ℕ) (devices : List Listed) (i : ℕ) (x : Printing) :
    ∃ x', (memLoop interrupted i devices x = .ok x' ∨ memLoop interrupted i devices x = .error x') ∧
      ∀ j, procPageSize ≤ j → x'.page j = x.page j := by
  induction devices generalizing i x with
  | nil => exact ⟨x, .inl rfl, fun _ _ => rfl⟩
  | cons p devices ih =>
      unfold memLoop
      split_ifs with hover hinterrupted
      · exact ⟨x, .inl rfl, fun _ _ => rfl⟩
      · exact ⟨x, .inr rfl, fun _ _ => rfl⟩
      · obtain ⟨-, -, -, hprinted⟩ :=
          printAll_frame x ((pipeLines i p).line :: (pipeLines i p).rest)
        obtain ⟨x', hx', hrest⟩ := ih (i + 1) (scullpProcOffset
          (((pipeLines i p).line :: (pipeLines i p).rest).foldl Printing.print x))
        refine ⟨x', hx', ?_⟩
        intro j hj
        have hlength := length_pipeLines i p
        unfold procPageSize limit procPageSize at *
        rw [hrest j hj, (scullpProcOffset_page _).1]
        apply hprinted
        rw [List.flatten_cons]
        unfold Paragraph.text at hlength
        omega

/-- The check in front of a device. -/
abbrev hasRoom (text : List UInt8) : Prop := text.length ≤ limit

/-- A loop that is not interrupted prints what comes from the offset on. -/
theorem memLoop_eq {devices : List Listed} {i : ℕ} (holds : x.Holds text) :
    ∃ x', memLoop none i devices x = .ok x' ∧
      x'.Holds (printFrom hasRoom (pipeParagraphs i devices) text x.offset x.start).1 ∧
      x'.start = (printFrom hasRoom (pipeParagraphs i devices) text x.offset x.start).2 := by
  induction devices generalizing i x text with
  | nil => exact ⟨x, rfl, holds, rfl⟩
  | cons p devices ih =>
      obtain ⟨y, hy⟩ : ∃ y, y = ((pipeLines i p).line :: (pipeLines i p).rest).foldl
        Printing.print x := ⟨_, rfl⟩
      obtain ⟨hstart, hoffset, -, -⟩ := hy ▸ printAll_frame x _
      have hall : y.Holds (text ++ (pipeLines i p).text) := hy ▸ holds.printAll _
      by_cases hover : limit < text.length
      · have hfull : ¬ hasRoom text := Nat.not_le.mpr hover
        simp only [memLoop, pipeParagraphs, printFrom, holds.len, if_pos hover, if_neg hfull]
        exact ⟨x, rfl, holds, rfl⟩
      have hroom : hasRoom text := Nat.not_lt.mp hover
      simp only [memLoop, pipeParagraphs, printFrom, ← hy, holds.len, if_neg hover, if_pos hroom,
        reduceCtorEq, if_false]
      have hlen := hall.len
      by_cases hzero : x.offset = 0
      · have hkept : scullpProcOffset y = y := if_pos (hoffset.trans hzero)
        have hrest := @ih y _ (i + 1) hall
        rw [hoffset, hstart, hzero] at hrest
        rwa [hkept, if_pos hzero]
      by_cases hbehind : (text ++ (pipeLines i p).text).length ≤ x.offset
      · have hskipped : scullpProcOffset y = { y with
            offset := x.offset - (text ++ (pipeLines i p).text).length, len := 0 } := by
          rw [scullpProcOffset, hoffset, hlen, if_neg hzero, if_pos hbehind]
        rw [hskipped, if_neg hzero, if_pos hbehind, ← hstart]
        exact ih ⟨rfl, Shows.nil _⟩
      · have hfound : scullpProcOffset y = { y with start := x.offset, offset := 0 } := by
          rw [scullpProcOffset, hoffset, hlen, if_neg hzero, if_neg hbehind]
        rw [hfound, if_neg hzero, if_neg hbehind]
        exact ih ⟨hlen, hall.shows⟩

/-- A loop that could have been interrupted and was not. -/
theorem memLoop_of_ok {interrupted : Option ℕ} {devices : List Listed} {i : ℕ} {x' : Printing}
    (hloop : memLoop interrupted i devices x = .ok x') : memLoop none i devices x = .ok x' := by
  induction devices generalizing i x with
  | nil => exact hloop
  | cons p devices ih =>
      have hnever : none ≠ some i := Option.some_ne_none i |>.symm
      unfold memLoop at hloop ⊢
      rw [if_neg hnever]
      split_ifs at hloop ⊢ with hover hinterrupted
      · exact hloop
      · exact ih hloop

end Loop

/-! ## A call -/

section Call

variable {scullPBuffer : ℤ} {devices : List Listed} {page : ℕ → UInt8} {offset : ℕ}
  {interrupted : Option ℕ}

/-- A call prints into its page. -/
theorem scullReadPMem_page (scullPBuffer : ℤ) (devices : List Listed) (page : ℕ → UInt8)
    (offset : ℕ) (interrupted : Option ℕ) {j : ℕ} (hj : procPageSize ≤ j) :
    (scullReadPMem scullPBuffer devices page offset interrupted).page j = page j := by
  obtain ⟨x', hx', hpage⟩ := memLoop_page interrupted devices 0
    (Printing.print ⟨page, 0, offset, 0⟩ (bufferLine scullPBuffer))
  have hheader : sprintf page 0 (bufferLine scullPBuffer) j = page j := by
    apply sprintf_of_lt
    have hlength := (bufferLine_plain scullPBuffer).1
    unfold procPageSize at hj
    omega
  unfold scullReadPMem
  rcases hx' with hx' | hx' <;> rw [hx'] <;> exact (hpage j hj).trans hheader

theorem mem_pipeParagraphs {i : ℕ} {q : Paragraph UInt8} (hq : q ∈ pipeParagraphs i devices) :
    ∃ j p, q = pipeLines j p := by
  induction devices generalizing i with
  | nil => cases hq
  | cons p devices ih =>
      rcases List.mem_cons.mp hq with rfl | hq
      · exact ⟨i, p, rfl⟩
      · exact ih hq

/-- The size of the buffers is printed before the loop, and listed with the first device. -/
theorem printFrom_pipeListing (hdevices : devices ≠ []) :
    printFrom hasRoom (pipeParagraphs 0 devices) (bufferLine scullPBuffer) offset 0 =
      printFrom hasRoom (pipeListing scullPBuffer devices) [] offset 0 := by
  cases devices with
  | nil => exact absurd rfl hdevices
  | cons p devices =>
      have hheader : hasRoom (bufferLine scullPBuffer) :=
        (bufferLine_plain scullPBuffer).1.trans (by decide)
      exact printFrom_head (Nat.zero_le _) hheader

/-- The text and its NUL fit into the page. -/
theorem length_printed_lt (scullPBuffer : ℤ) (devices : List Listed) (offset : ℕ) :
    (printFrom hasRoom (pipeParagraphs 0 devices) (bufferLine scullPBuffer) offset 0).1.length <
      procPageSize := by
  have hheader := (bufferLine_plain scullPBuffer).1
  have hle : (printFrom hasRoom (pipeParagraphs 0 devices) (bufferLine scullPBuffer) offset
      0).1.length ≤ limit + 196 := by
    apply length_printFrom_le
    · intro q hq text hroom
      obtain ⟨j, p, rfl⟩ := mem_pipeParagraphs hq
      have hlines := length_pipeLines j p
      rw [List.length_append]
      exact Nat.add_le_add hroom hlines
    · omega
  exact Nat.lt_of_le_of_lt hle (by decide)

/-- **A call that is not interrupted** prints what comes from the offset on, and returns the
length of all that it has left in the page. -/
theorem scullReadPMem_eq (hdevices : devices ≠ [])
    (hdone : 0 ≤ (scullReadPMem scullPBuffer devices page offset interrupted).retval) :
    ∃ out text, scullReadPMem scullPBuffer devices page offset interrupted = out ∧
      printFrom hasRoom (pipeListing scullPBuffer devices) [] offset 0 = (text, out.start) ∧
      out.retval = text.length ∧ Shows out.page text ∧ text.length < procPageSize := by
  obtain ⟨x, hx⟩ : ∃ x, x = Printing.print ⟨page, 0, offset, 0⟩ (bufferLine scullPBuffer) :=
    ⟨_, rfl⟩
  have holds : x.Holds (bufferLine scullPBuffer) := by
    have hblank : Printing.Holds ⟨page, 0, offset, 0⟩ [] := ⟨rfl, Shows.nil _⟩
    have hprinted := hblank.print (bufferLine scullPBuffer)
    rwa [List.nil_append, ← hx] at hprinted
  obtain ⟨hoffset, hbegins⟩ : x.offset = offset ∧ x.start = 0 := by
    subst hx
    exact ⟨rfl, rfl⟩
  obtain ⟨x', hloop, hholds, hstart⟩ := @memLoop_eq x _ devices 0 holds
  rw [hoffset, hbegins] at hholds hstart
  have hcall : scullReadPMem scullPBuffer devices page offset interrupted =
      ⟨x'.len, x'.start, decide (x'.len ≤ limit), x'.page⟩ := by
    unfold scullReadPMem at hdone ⊢
    rw [← hx] at hdone ⊢
    cases hrun : memLoop interrupted 0 devices x with
    | error y =>
        rw [hrun] at hdone
        have hinterrupted : ¬ (0 : ℤ) ≤ -ERESTARTSYS := by decide
        exact absurd hdone hinterrupted
    | ok y =>
        obtain rfl : y = x' := Except.ok.inj ((memLoop_of_ok hrun).symm.trans hloop)
        rfl
  refine ⟨_, _, hcall, ?_, congrArg Nat.cast hholds.len, hholds.shows, length_printed_lt _ _ _⟩
  rw [← printFrom_pipeListing hdevices]
  exact Prod.ext rfl hstart.symm

theorem pipeListing_plain {q : Paragraph UInt8} (hq : q ∈ pipeListing scullPBuffer devices) :
    q.text ≠ [] ∧ 0 ∉ q.text := by
  have hlines (i : ℕ) (p : Listed) : (pipeLines i p).text ≠ [] := fun h =>
    pipeLines_ne_nil i p (List.append_eq_nil_iff.mp h).1
  cases devices with
  | nil => cases hq
  | cons p devices =>
      rcases List.mem_cons.mp hq with rfl | hq
      · have hfirst : (⟨bufferLine scullPBuffer ++ (pipeLines 0 p).line, (pipeLines 0 p).rest⟩ :
            Paragraph UInt8).text = bufferLine scullPBuffer ++ (pipeLines 0 p).text :=
          List.append_assoc _ _ _
        rw [hfirst, ne_eq, List.append_eq_nil_iff, List.mem_append, not_and_or, not_or]
        exact ⟨.inr (hlines 0 p), (bufferLine_plain scullPBuffer).2, zero_notMem_pipeLines 0 p⟩
      · obtain ⟨j, p, rfl⟩ := mem_pipeParagraphs hq
        exact ⟨hlines j p, zero_notMem_pipeLines j p⟩

theorem zero_notMem_listing : 0 ∉ fullText (pipeListing scullPBuffer devices) := by
  intro hmem
  obtain ⟨q, hq, hmem⟩ := List.mem_flatMap.mp hmem
  exact (pipeListing_plain hq).2 hmem

end Call

/-! ## A reader -/

/-- A call of a reader: how much he asks for, what is in the page, and the device at whose
semaphore the call is interrupted. -/
structure Round where
  count : ℕ
  page : ℕ → UInt8 := fun _ => 0
  interrupted : Option ℕ := none

/-- What the reader is given, and the position afterwards. -/
def readRound (scullPBuffer : ℤ) (devices : List Listed) (round : Round) (pos : ℕ) :
    List UInt8 × ℕ :=
  let taken := procTaken
    (scullReadPMem scullPBuffer devices round.page pos round.interrupted) round.count
  (taken, pos + taken.length)

/-- The position is at the beginning of a device, or the reader does not ask for more than is
in the page from there on. -/
def WellPlaced (scullPBuffer : ℤ) (devices : List Listed) (pos : ℕ) (round : Round) : Prop :=
  let (text, start) := printFrom hasRoom (pipeListing scullPBuffer devices) [] pos 0
  start = 0 ∨ start + round.count ≤ text.length

/-- The call is interrupted, or well placed. -/
def DeliversText (scullPBuffer : ℤ) (devices : List Listed) (pos : ℕ) (round : Round) : Prop :=
  (scullReadPMem scullPBuffer devices round.page pos round.interrupted).retval < 0 ∨
    WellPlaced scullPBuffer devices pos round

instance (scullPBuffer : ℤ) (devices : List Listed) (pos : ℕ) (round : Round) :
    Decidable (WellPlaced scullPBuffer devices pos round) :=
  inferInstanceAs (Decidable (_ ∨ _))

instance (scullPBuffer : ℤ) (devices : List Listed) (pos : ℕ) (round : Round) :
    Decidable (DeliversText scullPBuffer devices pos round) :=
  inferInstanceAs (Decidable (_ ∨ _))

section Reader

variable {scullPBuffer : ℤ} {devices : List Listed} {pos : ℕ} {round : Round}

/-- What is left in the page for a position, and where the text from there on begins. -/
theorem printFrom_placed {text : List UInt8} {start : ℕ}
    (hprinted : printFrom hasRoom (pipeListing scullPBuffer devices) [] pos 0 = (text, start)) :
    start ≤ text.length ∧
      text.drop start <+: (fullText (pipeListing scullPBuffer devices)).drop pos ∧
      (pos < (fullText (pipeListing scullPBuffer devices)).length → start < text.length) := by
  have hroom : hasRoom [] := Nat.zero_le _
  have hnonempty : ∀ q ∈ pipeListing scullPBuffer devices, q.text ≠ [] := fun q hq =>
    (pipeListing_plain hq).1
  rcases Nat.lt_or_ge pos (fullText (pipeListing scullPBuffer devices)).length with hlt | hge
  · obtain ⟨before, after, hsplit, hle, hspec, hinside⟩ := printFrom_spec hroom hnonempty hlt
    obtain ⟨rfl, rfl⟩ := Prod.mk.inj (hspec.symm.trans hprinted)
    refine ⟨by omega, ?_, fun _ => by omega⟩
    have hbehind : (fullText (pipeListing scullPBuffer devices)).drop pos =
        (fullText after).drop (pos - (fullText before).length) := by
      have hwhole : fullText (before ++ after) = fullText before ++ fullText after :=
        List.flatMap_append
      rw [hsplit, hwhole, List.drop_append, List.drop_of_length_le hle, List.nil_append]
    have hprefix : printWhile hasRoom after [] <+: fullText after := printWhile_prefix
    rw [hbehind]
    exact hprefix.drop _
  · have hnothing := printFrom_end hroom hnonempty hge
    obtain ⟨rfl, rfl⟩ := Prod.mk.inj (hnothing.symm.trans hprinted)
    exact ⟨le_rfl, List.nil_prefix, fun h => absurd h (Nat.not_lt.mpr hge)⟩

/-- In a listing that is short enough, a call is well placed if it is made where a device begins,
or at the end, or asks for no more than is left. -/
theorem wellPlaced_iff
    (hshort : (fullText (pipeListing scullPBuffer devices)).length ≤ limit) :
    WellPlaced scullPBuffer devices pos round ↔
      (∃ before after, pipeListing scullPBuffer devices = before ++ after ∧
        pos = (fullText before).length) ∨
      (fullText (pipeListing scullPBuffer devices)).length ≤ pos ∨
      pos + round.count ≤ (fullText (pipeListing scullPBuffer devices)).length := by
  have hroom : hasRoom [] := Nat.zero_le _
  have hnonempty : ∀ q ∈ pipeListing scullPBuffer devices, q.text ≠ [] := fun q hq =>
    (pipeListing_plain hq).1
  rcases Nat.lt_or_ge pos (fullText (pipeListing scullPBuffer devices)).length with hlt | hge
  swap
  · refine iff_of_true (.inl ?_) (.inr (.inl hge))
    rw [printFrom_end hroom hnonempty hge]
  obtain ⟨before, after, hsplit, hle, hspec, -⟩ := printFrom_spec hroom hnonempty hlt
  have htotal : (fullText (pipeListing scullPBuffer devices)).length =
      (fullText before).length + (fullText after).length := by
    rw [hsplit, fullText, List.flatMap_append, List.length_append]
    rfl
  have hall : printWhile hasRoom after [] = fullText after := by
    apply printWhile_of_forall
    intro first q others hafter
    have hfirst : (fullText first).length ≤ (fullText after).length := by
      rw [hafter, fullText, fullText, List.flatMap_append, List.length_append]
      exact Nat.le_add_right _ _
    show (fullText first).length ≤ limit
    omega
  rw [WellPlaced, hspec, hall, htotal]
  constructor
  · rintro (hbegins | hcount)
    · exact .inl ⟨before, after, hsplit, by omega⟩
    · exact .inr (.inr (by omega))
  · rintro (⟨first, others, hfirst, rfl⟩ | hend | hcount)
    · have hbetween := printFrom_between hroom first others
      rw [← hfirst, hspec] at hbetween
      exact .inl (congrArg Prod.snd hbetween)
    · omega
    · exact .inr (by omega)

/-- **One call of a reader** gives him what comes at his position, or a NUL that is not in the
listing. -/
theorem readRound_prefix_iff (hdevices : devices ≠ []) :
    DeliversText scullPBuffer devices pos round ↔
      (readRound scullPBuffer devices round pos).1 <+:
        (fullText (pipeListing scullPBuffer devices)).drop pos := by
  by_cases hdone : 0 ≤ (scullReadPMem scullPBuffer devices round.page pos round.interrupted).retval
  · obtain ⟨out, text, hout, hprinted, hretval, hshows, hroom⟩ := scullReadPMem_eq hdevices hdone
    obtain ⟨hstart, hprefix, -⟩ := printFrom_placed hprinted
    have hplaced : DeliversText scullPBuffer devices pos round ↔
        out.start = 0 ∨ out.start + round.count ≤ text.length := by
      rw [DeliversText, or_iff_right (Int.not_lt.mpr hdone), WellPlaced, hprinted]
    have htaken : (readRound scullPBuffer devices round pos).1 = procTaken out round.count := by
      rw [← hout]
      rfl
    rw [hplaced, htaken]
    constructor
    · intro hcount
      rw [procTaken_eq hshows hretval hroom hstart hcount]
      exact (List.take_prefix _ _).trans hprefix
    · intro hright
      by_contra hcount
      have hnul : 0 ∈ procTaken out round.count :=
        zero_mem_procTaken hshows hretval hroom hstart hcount
      exact zero_notMem_listing (List.mem_of_mem_drop (hright.subset hnul))
  · have hneg := Int.not_le.mp hdone
    have hnothing : (readRound scullPBuffer devices round pos).1 = [] := procTaken_of_neg hneg
    rw [hnothing]
    exact iff_of_true (.inl hneg) List.nil_prefix

/-- A call that is not interrupted gives a reader something, unless he is at the end or does
not ask for anything. -/
theorem readRound_ne_nil (hdevices : devices ≠ [])
    (hdone : 0 ≤ (scullReadPMem scullPBuffer devices round.page pos round.interrupted).retval)
    (hpos : pos < (fullText (pipeListing scullPBuffer devices)).length) (hcount : 0 < round.count) :
    (readRound scullPBuffer devices round pos).1 ≠ [] := by
  obtain ⟨out, text, hout, hprinted, hretval, -, hroom⟩ := scullReadPMem_eq hdevices hdone
  obtain ⟨hstart, -, hinside⟩ := printFrom_placed hprinted
  have hlt := hinside hpos
  have htaken : (readRound scullPBuffer devices round pos).1 = procTaken out round.count := by
    rw [← hout]
    rfl
  rw [htaken, ← List.length_pos_iff, procTaken, List.length_map, List.length_range, hretval,
    Int.toNat_natCast]
  omega

end Reader

/-- **Reading the listing of the pipe devices**, call after call, for any number of devices in
any state, whatever the page holds at each call, wherever calls are interrupted and for any
counts.  No call prints past the page.  What the reader has got is the listing from the
beginning on exactly if every call that is not interrupted is made at the beginning of a
device, or asks for no more than there is of the text in the page; in a listing that is short
enough, for no more than is left of it.  And every call that is not interrupted gives him
something until he is at the end. -/
theorem p_mem_reads_iff (scullPBuffer : ℤ) {devices : List Listed} (hdevices : devices ≠ []) :
    (∀ page pos interrupted j, procPageSize ≤ j →
      (scullReadPMem scullPBuffer devices page pos interrupted).page j = page j) ∧
    (∀ rounds, (deliver (readRound scullPBuffer devices) rounds 0).1 <+:
        fullText (pipeListing scullPBuffer devices) ↔
      EveryStep
        (fun pos round => (.ok (readRound scullPBuffer devices round pos).2 : Except Fault ℕ))
        (DeliversText scullPBuffer devices) 0 rounds) ∧
    ((fullText (pipeListing scullPBuffer devices)).length ≤ limit →
      ∀ pos round, WellPlaced scullPBuffer devices pos round ↔
        (∃ before after, pipeListing scullPBuffer devices = before ++ after ∧
          pos = (fullText before).length) ∨
        (fullText (pipeListing scullPBuffer devices)).length ≤ pos ∨
        pos + round.count ≤ (fullText (pipeListing scullPBuffer devices)).length) ∧
    ∀ (round : Round) pos,
      0 ≤ (scullReadPMem scullPBuffer devices round.page pos round.interrupted).retval →
      pos < (fullText (pipeListing scullPBuffer devices)).length → 0 < round.count →
      (readRound scullPBuffer devices round pos).1 ≠ [] := by
  refine ⟨?_, ?_, fun hshort pos round => wellPlaced_iff hshort, ?_⟩
  · intro page pos interrupted j hj
    exact scullReadPMem_page scullPBuffer devices page pos interrupted hj
  · intro rounds
    exact deliver_prefix_iff (fun _ _ => rfl) (fun _ _ => readRound_prefix_iff hdevices) rounds 0
  · intro round pos hdone hpos hcount
    exact readRound_ne_nil hdevices hdone hpos hcount

/-- A pointer of 16 digits. -/
def zeroPointer : PointerText := ⟨List.replicate 16 48, by decide, by decide⟩

/-- A device that nobody has opened, read 100 bytes at a time: the reader gets the whole listing
if he asks for what is left of it, and more than that if he asks for 100 bytes again. -/
theorem p_mem_reads_iff_cleared :
    let devices : List Listed :=
      [⟨.cleared, zeroPointer, zeroPointer, zeroPointer, zeroPointer, zeroPointer⟩]
    (fullText (pipeListing 4000 devices)).length = 183 ∧
      (deliver (readRound 4000 devices) [⟨100, fun _ => 0, none⟩, ⟨83, fun _ => 0, none⟩] 0).1 <+:
        fullText (pipeListing 4000 devices) ∧
      ¬ (deliver (readRound 4000 devices)
          [⟨100, fun _ => 0, none⟩, ⟨100, fun _ => 0, none⟩] 0).1 <+:
        fullText (pipeListing 4000 devices) := by
  intro devices
  have hdevices : devices ≠ [] := List.cons_ne_nil _ _
  refine ⟨by decide +kernel, ?_, ?_⟩
  · exact ((p_mem_reads_iff 4000 hdevices).2.1 _).mpr (by decide +kernel)
  · exact mt ((p_mem_reads_iff 4000 hdevices).2.1 _).mp (by decide +kernel)

end KernelTraining.Pipe
