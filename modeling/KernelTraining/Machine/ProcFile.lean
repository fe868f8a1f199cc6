import KernelTraining.Machine.ReadText

/-!
# Files that are printed into a page

A `read_proc` function prints into a page that the kernel gives to it, and answers with a
number of bytes, and with `*start`, where they begin.  That number does not count what is in
front of `*start`.  If it does, the reader is given the NUL behind the text and whatever else
the page holds, unless he asks for less (`zero_mem_procTaken`).

The page is not cleared, so all that is known of it is what has been printed.  `Shows` says
which text that is, and that the NUL of the last `sprintf` is behind it; the next `sprintf`
begins at the NUL (`Shows.sprintf`), and leaves everything behind its own NUL alone
(`sprintf_of_lt`).

What the kernel makes of the answer is `procTaken`.  The lemmas on it are for a function whose
number counts the whole text, also what is in front of `*start`: either the reader gets what he
has asked for (`procTaken_eq`), or he gets the NUL.
-/

namespace KernelTraining.Machine

/-- `PAGE_SIZE`. -/
def procPageSize : ℕ := 4096

/-- The answer of a `read_proc` function: its return value, `*start` as an offset into the
page, `*eof`, and the page. -/
structure ReadProc where
  retval : ℤ
  start : ℕ
  eof : Bool
  page : ℕ → UInt8

/-- What the kernel copies to a reader who asks for `count` bytes. -/
def procTaken (out : ReadProc) (count : ℕ) : List UInt8 :=
  (List.range (min (min out.retval.toNat (procPageSize - out.start)) count)).map fun i =>
    out.page (out.start + i)

/-- `sprintf` to `off` bytes into the page. -/
def sprintf (page : ℕ → UInt8) (off : ℕ) (text : List UInt8) : ℕ → UInt8 :=
  overwrite page off (text ++ [0])

/-- The page shows a text, and if there is one, the NUL behind it. -/
structure Shows (page : ℕ → UInt8) (text : List UInt8) : Prop where
  bytes : ∀ j < text.length, page j = text.getD j 0
  nul : text ≠ [] → page text.length = 0

variable {page : ℕ → UInt8} {text : List UInt8}

theorem Shows.nil (page : ℕ → UInt8) : Shows page [] :=
  ⟨fun _ hj => absurd hj (Nat.not_lt_zero _), fun h => absurd rfl h⟩

/-- A text printed behind another one. -/
theorem Shows.sprintf (shows : Shows page text) (more : List UInt8) :
    Shows (sprintf page text.length more) (text ++ more) := by
  have hlength : (more ++ [(0 : UInt8)]).length = more.length + 1 := by
    rw [List.length_append, List.length_singleton]
  constructor
  · intro j hj
    rw [List.length_append] at hj
    rcases Nat.lt_or_ge j text.length with hbefore | hbehind
    · rw [List.getD_append _ _ _ _ hbefore, ← shows.bytes j hbefore]
      exact if_neg (by omega)
    · rw [Machine.sprintf, overwrite_of_mem (by omega), List.getD_append_right _ _ _ _ hbehind,
        List.getD_append _ _ _ _ (by omega)]
  · intro _
    rw [List.length_append, Machine.sprintf, overwrite_of_mem (by omega), Nat.add_sub_cancel_left,
      List.getD_append_right _ _ _ _ le_rfl, Nat.sub_self]
    rfl

/-- Past the NUL nothing is printed. -/
theorem sprintf_of_lt {off j : ℕ} {more : List UInt8} (hj : off + more.length < j) :
    sprintf page off more j = page j := by
  apply overwrite_of_le
  rw [List.length_append, List.length_singleton]
  omega

section Taken

variable {out : ReadProc} {count : ℕ}

/-- A reader who is not given more than the text has, or whose text begins the page. -/
theorem procTaken_eq (shows : Shows out.page text) (hretval : out.retval = text.length)
    (hroom : text.length < procPageSize) (hstart : out.start ≤ text.length)
    (hcount : out.start = 0 ∨ out.start + count ≤ text.length) :
    procTaken out count = (text.drop out.start).take count := by
  have hnumber : min (min out.retval.toNat (procPageSize - out.start)) count =
      min count (text.length - out.start) := by
    rw [hretval, Int.toNat_natCast]
    omega
  have hbytes : ∀ i ∈ List.range (min count (text.length - out.start)),
      out.page (out.start + i) = text.getD (out.start + i) 0 := by
    intro i hi
    rw [List.mem_range] at hi
    exact shows.bytes _ (by omega)
  rw [procTaken, hnumber, List.map_congr_left hbytes, map_range_getD (by omega),
    ← List.length_drop, ← List.take_eq_take_min]

/-- Any other reader is given the NUL. -/
theorem zero_mem_procTaken (shows : Shows out.page text) (hretval : out.retval = text.length)
    (hroom : text.length < procPageSize) (hstart : out.start ≤ text.length)
    (hcount : ¬ (out.start = 0 ∨ out.start + count ≤ text.length)) : 0 ∈ procTaken out count := by
  rw [not_or] at hcount
  have hnonempty : text ≠ [] := by
    rintro rfl
    exact hcount.1 (Nat.le_zero.mp hstart)
  refine List.mem_map.mpr ⟨text.length - out.start, ?_, ?_⟩
  · rw [List.mem_range, hretval, Int.toNat_natCast]
    omega
  · rw [Nat.add_sub_cancel' hstart, shows.nul hnonempty]

/-- Nobody is given anything for an error. -/
theorem procTaken_of_neg (hretval : out.retval < 0) : procTaken out count = [] := by
  rw [procTaken, Int.toNat_of_nonpos hretval.le, Nat.zero_min, Nat.zero_min]
  rfl

end Taken

end KernelTraining.Machine
