import KernelTraining.Machine.CString
import KernelTraining.Machine.Libfs

/-!
# The file that wants the id

`misc_write` of `misc.c`, which `Task08.c` has again as `task08_write_id`.  The handler
copies what the user writes into `input_id`, puts a NUL behind it, and compares.

The array has room for the id and its NUL, and that is how much the handler lets
`simple_write_to_buffer` copy.  So a longer string fills it, and the NUL goes to the byte
after it (`staysInside_iff`).  The comparison does not look that far, and takes the id and
a NUL of the user's for the id (`acceptsExactly_iff`).

The two handlers are one (`writeId`), for any id, and so are the proofs: the length of the id
and that no NUL is in it are all that is used.  The array is seen as the memory from
`input_id` on; what lies past it belongs to the rest of the stack, and neither theorem knows
anything of it.

* `writeId_fault` and `writeId_copied` are the two ways a write can go.  In the second,
  `inputIdAfter` is the memory that is compared: what has been copied, a NUL, and then, if the
  copy has failed in part, zeros, and the stack.
* `strcmp_inputId_iff` says what the comparison takes for the id.  It stops at the first byte
  that differs or at the NUL of the id, so it never reads past the array
  (`strcmp_read_le`); it is the store that does.
-/

namespace KernelTraining.Task06

open Machine

/-- The return value, `*f_pos`, the memory from `input_id` on, and how many bytes of it
are compared. -/
structure IdOut where
  retval : ℤ
  fPos : ℤ
  inputId : ℕ → UInt8
  compared : ℕ

/-- The handler for the id `idstr`.  The file position it is called with is not used. -/
def writeId (idstr : List UInt8) (K : Libfs) (stack : ℕ → UInt8) (buf : List UInt8) (_fPos : ℤ)
    (fault : Option ℕ) : IdOut :=
  let idlen := idstr.length
  let out := K.simpleWriteToBuffer stack (idlen + 1) 0 buf fault
  let retval := wrap32 out.retval
  if retval < 0 then ⟨retval, out.ppos, out.memory, 0⟩
  else
    let inputId := Function.update out.memory retval.toNat 0
    let (result, compared) := strcmp idstr inputId 0
    ⟨if result ≠ 0 then -EINVAL else retval, out.ppos, inputId, compared⟩

/-- `"8d7990499d47"`. -/
def assignedId : List UInt8 := ascii "8d7990499d47"

/-- `misc_write`. -/
def miscWrite : Libfs → (ℕ → UInt8) → List UInt8 → ℤ → Option ℕ → IdOut := writeId assignedId

/-- `task08_write_id`. -/
def task08WriteId : Libfs → (ℕ → UInt8) → List UInt8 → ℤ → Option ℕ → IdOut := writeId assignedId

/-- A write that the user makes of `buf` gets its length if it is the id, and an error
otherwise. -/
def AcceptsExactly (idstr buf : List UInt8) (out : IdOut) : Prop :=
  out.retval = if buf = idstr then (buf.length : ℤ) else -EINVAL

/-- Whatever is on the stack, the handler leaves what lies past the `size` bytes of
`input_id` as it is, and compares no more than these. -/
def StaysInside (size : ℕ) (write : (ℕ → UInt8) → IdOut) : Prop :=
  ∀ stack, (∀ i, size ≤ i → (write stack).inputId i = stack i) ∧ (write stack).compared ≤ size

section Handler

variable {idstr buf : List UInt8} {K : Libfs} {stack : ℕ → UInt8} {fPos : ℤ} {fault : Option ℕ}

/-! ## What is copied -/

/-- A write of which not a single byte can be copied. -/
theorem writeId_fault (hbuf : buf ≠ []) {n : ℕ} (hn : min buf.length (idstr.length + 1) = n)
    (hk : transferred fault n = 0) :
    writeId idstr K stack buf fPos fault =
      ⟨-EFAULT, 0, overwrite stack 0 (padded buf 0 n), 0⟩ := by
  have hwrite : K.simpleWriteToBuffer stack (idstr.length + 1) 0 buf fault =
      ⟨-EFAULT, 0, overwrite stack 0 (padded buf 0 n)⟩ :=
    (K.write_some (p := 0) (Nat.succ_pos _) hbuf hn hk).trans (if_pos rfl)
  simp only [writeId, hwrite]
  rfl

/-- What is in `input_id` after `k` bytes have been copied and the NUL stored. -/
def inputIdAfter (stack : ℕ → UInt8) (buf : List UInt8) (k n : ℕ) : ℕ → UInt8 :=
  Function.update (overwrite stack 0 (padded buf k n)) k 0

/-- Any other write, of `k` bytes. -/
theorem writeId_copied (hid : idstr.length < 2147483647) {n k : ℕ}
    (hn : min buf.length (idstr.length + 1) = n) (hk : transferred fault n = k)
    (hcopied : buf = [] ∨ 0 < k) :
    ∃ fPos', writeId idstr K stack buf fPos fault =
      ⟨if (strcmp idstr (inputIdAfter stack buf k n) 0).1 ≠ 0 then -EINVAL else k, fPos',
        inputIdAfter stack buf k n, (strcmp idstr (inputIdAfter stack buf k n) 0).2⟩ := by
  have hle := transferred_le fault n
  obtain ⟨fPos', hwrite⟩ : ∃ fPos', K.simpleWriteToBuffer stack (idstr.length + 1) 0 buf fault =
      ⟨k, fPos', overwrite stack 0 (padded buf k n)⟩ := by
    rcases List.eq_nil_or_concat' buf with rfl | ⟨_, _, hbuf⟩
    · obtain rfl : n = 0 := hn.symm
      obtain rfl : k = 0 := by omega
      refine ⟨0, (K.write_nothing (p := 0) (.inr rfl)).trans ?_⟩
      have hnothing : overwrite stack 0 (padded [] 0 0) = stack :=
        funext fun j => overwrite_of_le (Nat.zero_le _)
      rw [hnothing]
      rfl
    · have hne : buf ≠ [] := by simp [hbuf]
      have hpos := hcopied.resolve_left hne
      exact ⟨_, (K.write_some (p := 0) (Nat.succ_pos _) hne hn hk).trans (if_neg (by omega))⟩
  have hretval : wrap32 k = k := wrap32_eq (by omega) (by unfold intMax; omega)
  refine ⟨fPos', ?_⟩
  simp only [writeId, hwrite, hretval]
  rw [if_neg (by omega), Int.toNat_natCast]
  rfl

/-- The bytes that have been copied, and a NUL. -/
theorem inputIdAfter_of_le {n i : ℕ} (hn : n ≤ buf.length) (hi : i ≤ n) :
    inputIdAfter stack buf n n i = (buf.take n).getD i 0 := by
  have hlength := length_padded (le_refl n) hn
  unfold inputIdAfter
  rcases Nat.lt_or_eq_of_le hi with hlt | rfl
  · rw [Function.update_of_ne (by omega), overwrite_of_mem (by omega)]
    simp [padded]
  · rw [Function.update_self, List.getD_eq_default]
    rw [List.length_take]
    omega

/-- Past the bytes that have been copied and the NUL nothing changes. -/
theorem inputIdAfter_of_lt {k n i : ℕ} (hk : k ≤ n) (hn : n ≤ buf.length) (hi : n ≤ i)
    (hik : i ≠ k) : inputIdAfter stack buf k n i = stack i := by
  have hlength := length_padded hk hn
  rw [inputIdAfter, Function.update_of_ne hik, overwrite_of_le (by omega)]

/-! ## What is accepted -/

/-- What the comparison takes for the id: the id, and what starts with it and a NUL. -/
theorem strcmp_inputId_iff (hnul : 0 ∉ idstr) {m : ℕ → UInt8}
    (hm : ∀ i ≤ buf.length, i ≤ idstr.length → m i = buf.getD i 0) :
    (strcmp idstr m 0).1 = 0 ↔ buf = idstr ∨ idstr ++ [0] <+: buf := by
  rw [strcmp_eq_zero_iff hnul, ← getD_eq_iff hnul]
  simp only [Nat.zero_add]
  have hend : buf.getD buf.length 0 = 0 := List.getD_eq_default _ _ le_rfl
  constructor
  · intro hall
    -- the id does not end later than the string: there is a NUL behind it
    have hlong : idstr.length ≤ buf.length :=
      length_le_of_agree hnul hall fun h => (hm _ le_rfl h).trans hend
    intro j hj
    rw [← hm j (hj.trans hlong) hj, hall j hj]
  · intro hall
    have hlong : idstr.length ≤ buf.length := length_le_of_agree hnul hall fun _ => hend
    intro j hj
    rw [hm j (hj.trans hlong) hj, hall j hj]

theorem acceptsExactly_writeId (hid : idstr.length < 2147483647) (hnul : 0 ∉ idstr) :
    AcceptsExactly idstr buf (writeId idstr K stack buf fPos none) ↔ ¬ idstr ++ [0] <+: buf := by
  obtain ⟨n, hn⟩ : ∃ n, min buf.length (idstr.length + 1) = n := ⟨_, rfl⟩
  have hcopied : buf = [] ∨ 0 < n := by
    rcases buf with _ | ⟨b, buf⟩
    · exact .inl rfl
    · rw [List.length_cons] at hn
      omega
  obtain ⟨fPos', hwrite⟩ : ∃ fPos', writeId idstr K stack buf fPos none =
      ⟨if (strcmp idstr (inputIdAfter stack buf n n) 0).1 ≠ 0 then -EINVAL else n, fPos',
        inputIdAfter stack buf n n, (strcmp idstr (inputIdAfter stack buf n n) 0).2⟩ :=
    writeId_copied hid hn (transferred_none n) hcopied
  have hm : ∀ i ≤ buf.length, i ≤ idstr.length →
      inputIdAfter stack buf n n i = buf.getD i 0 := by
    intro i hi hi'
    rw [inputIdAfter_of_le (by omega) (by omega)]
    rcases Nat.lt_or_ge i n with hlt | hge
    · simp [hlt]
    · obtain rfl : n = buf.length := by omega
      rw [List.take_length]
  have hequal := strcmp_inputId_iff hnul hm
  rw [AcceptsExactly, hwrite]
  by_cases hbegins : idstr ++ [0] <+: buf
  · -- more than the id, and taken for it
    have hlonger := hbegins.length_le
    rw [List.length_append, List.length_singleton] at hlonger
    have hne : buf ≠ idstr := by
      rintro rfl
      omega
    rw [if_neg (not_not_intro (hequal.mpr (.inr hbegins))), if_neg hne]
    simp only [hbegins, not_true_eq_false, iff_false]
    unfold EINVAL
    omega
  · simp only [hbegins, or_false, not_false_eq_true, iff_true] at hequal ⊢
    by_cases heq : buf = idstr
    · rw [if_neg (not_not_intro (hequal.mpr heq)), if_pos heq]
      rw [heq] at hn ⊢
      omega
    · rw [if_pos (mt hequal.mp heq), if_neg heq]

/-- **What the id files accept**, from any position and whatever is on the stack: the id
and nothing else, unless the string starts with the id and a NUL. -/
theorem acceptsExactly_iff (K : Libfs) (stack : ℕ → UInt8) (buf : List UInt8) (fPos : ℤ) :
    (AcceptsExactly assignedId buf (miscWrite K stack buf fPos none) ↔
      ¬ assignedId ++ [0] <+: buf) ∧
    (AcceptsExactly assignedId buf (task08WriteId K stack buf fPos none) ↔
      ¬ assignedId ++ [0] <+: buf) :=
  ⟨acceptsExactly_writeId (by decide) (by decide), acceptsExactly_writeId (by decide) (by decide)⟩

/-- The id and a NUL are accepted, all 13 bytes. -/
theorem accepts_id_and_nul :
    (miscWrite .linux (fun _ => 0) (assignedId ++ [0]) 0 none).retval = 13 ∧
      ¬ AcceptsExactly assignedId (assignedId ++ [0])
        (miscWrite .linux (fun _ => 0) (assignedId ++ [0]) 0 none) ∧
      ¬ AcceptsExactly assignedId (assignedId ++ [0])
        (task08WriteId .linux (fun _ => 0) (assignedId ++ [0]) 0 none) := by
  have hretval : (miscWrite .linux (fun _ => 0) (assignedId ++ [0]) 0 none).retval = 13 := by decide
  have hrejected : (if assignedId ++ [0] = assignedId then ((assignedId ++ [0]).length : ℤ)
      else -EINVAL) = -22 := by decide
  refine ⟨hretval, ?_, ?_⟩
  · rw [AcceptsExactly, hrejected, hretval]
    decide
  · rw [AcceptsExactly, hrejected]
    exact hretval ▸ (by decide)

/-! ## Where it is stored -/

theorem staysInside_writeId (hid : idstr.length < 2147483647) :
    StaysInside (idstr.length + 1) (fun stack => writeId idstr K stack buf fPos fault) ↔
      buf.length ≤ idstr.length ∨ ∃ j ≤ idstr.length, fault = some j := by
  obtain ⟨n, hn⟩ : ∃ n, min buf.length (idstr.length + 1) = n := ⟨_, rfl⟩
  obtain ⟨k, hk⟩ : ∃ k, transferred fault n = k := ⟨_, rfl⟩
  have hle := transferred_le fault n
  rw [← transferred_min_succ_le_iff, hn, hk]
  by_cases hcopied : buf = [] ∨ 0 < k
  · have hafter (stack : ℕ → UInt8) : ∃ fPos', writeId idstr K stack buf fPos fault =
        ⟨if (strcmp idstr (inputIdAfter stack buf k n) 0).1 ≠ 0 then -EINVAL else k, fPos',
          inputIdAfter stack buf k n, (strcmp idstr (inputIdAfter stack buf k n) 0).2⟩ :=
      writeId_copied hid hn hk hcopied
    constructor
    · -- the NUL behind a full array changes the byte that is there
      intro hinside
      by_contra hfull
      obtain ⟨fPos', hwrite⟩ := hafter fun _ => 1
      have hbyte : (writeId idstr K (fun _ => 1) buf fPos fault).inputId k = 1 :=
        (hinside fun _ => 1).1 k (by omega)
      rw [hwrite] at hbyte
      simp [inputIdAfter] at hbyte
    · intro hfits stack
      obtain ⟨fPos', hwrite⟩ := hafter stack
      beta_reduce
      rw [hwrite]
      refine ⟨?_, ?_⟩
      · intro i hi
        exact inputIdAfter_of_lt (by omega) (by omega) (by omega) (by omega)
      · have hread := strcmp_read_le idstr (inputIdAfter stack buf k n) 0
        rwa [Nat.zero_add] at hread
  · rw [not_or] at hcopied
    obtain rfl : k = 0 := by omega
    refine iff_of_true ?_ (Nat.zero_le _)
    intro stack
    beta_reduce
    rw [writeId_fault hcopied.1 hn hk]
    refine ⟨?_, Nat.zero_le _⟩
    intro i hi
    apply overwrite_of_le
    rw [length_padded (Nat.zero_le n) (by omega)]
    omega

end Handler

/-- **Where the id files store**, from any position: inside `input_id`, unless the 13 bytes
it has room for are all copied. -/
theorem staysInside_iff (K : Libfs) (buf : List UInt8) (fPos : ℤ) (fault : Option ℕ) :
    (StaysInside 13 (fun stack => miscWrite K stack buf fPos fault) ↔
      buf.length ≤ 12 ∨ ∃ j ≤ 12, fault = some j) ∧
    (StaysInside 13 (fun stack => task08WriteId K stack buf fPos fault) ↔
      buf.length ≤ 12 ∨ ∃ j ≤ 12, fault = some j) := by
  have hassigned : StaysInside (assignedId.length + 1)
        (fun stack => writeId assignedId K stack buf fPos fault) ↔
      buf.length ≤ assignedId.length ∨ ∃ j ≤ assignedId.length, fault = some j :=
    staysInside_writeId (by decide)
  exact ⟨hassigned, hassigned⟩

/-- The id and a newline: the byte behind `input_id` is cleared. -/
theorem clears_byte_behind :
    ¬ StaysInside 13 (fun stack => miscWrite .linux stack (assignedId ++ [10]) 0 none) ∧
      ¬ StaysInside 13 (fun stack => task08WriteId .linux stack (assignedId ++ [10]) 0 none) := by
  have hcleared : (miscWrite .linux (fun _ => 1) (assignedId ++ [10]) 0 none).inputId 13 = 0 := rfl
  constructor
  · intro hinside
    have hkept := (hinside fun _ => 1).1 13 le_rfl
    beta_reduce at hkept
    rw [hcleared] at hkept
    exact absurd hkept (by decide)
  · intro hinside
    have hkept := (hinside fun _ => 1).1 13 le_rfl
    exact absurd (hcleared.symm.trans hkept) (by decide)

end KernelTraining.Task06
