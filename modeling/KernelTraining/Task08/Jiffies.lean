import KernelTraining.Machine.CString
import KernelTraining.Task08.Storing
import Mathlib.Data.List.GetD

/-!
# The jiffies file

`task08_read_jiffies` of `Task08.c`.  Every call formats the counter anew, and goes on at
the position where the last call stopped, in the text of another value.  A program that
reads to the end gets one value if the text that each call goes on in begins with what the
program has already (`yieldsValue_of_continues`).

The condition is on a round: the value the call sees, and what the program has got by then
(`Continues`).  At the end it may also be that the program has got its newline and the text of
the value seen now is no longer than that, whatever it is.

* What a program has got begins the text of some value that it has seen, not always the last
  one (`Reader.Begins`).
* A round that delivers something goes on in a text that begins with what is there, so the
  two together begin that text (`jiffiesRound_more`).
* A round that delivers nothing ends the program.  If the text it has seen continues what is
  there, then they are the same, as it is no longer; and if what is there ends in a newline, it
  is a whole text already, since there is no newline before the last byte
  (`eq_of_prefix_of_newline`).
* A text has at most 21 bytes, so 22 calls that deliver something do not exist, and the
  program ends.

The counter has 64 bits without a sign, and is printed with one.  From `2^63` on the text is
that of a negative number, and is not the value in decimal.
-/

namespace KernelTraining.Task08

open Machine

/-- `sprintf(timestr, "%lld\n", get_jiffies_64())`, without the NUL.  The counter is
unsigned, and the conversion is not. -/
def timestr (jiffies : ℕ) : List UInt8 := signedDecimal (wrap64 jiffies) ++ [10]

/-- `task08_read_jiffies`. -/
def task08ReadJiffies (K : Libfs) (jiffies count : ℕ) (fPos : ℤ) (fault : Option ℕ) : ReadOut :=
  let timestr := timestr jiffies
  K.simpleReadFromBuffer count fPos (fun i => timestr.getD i 0) timestr.length fault

/-- One round of the reading program, whose call number `i` asks for `count i` bytes and
sees the value `jiffies i`. -/
def jiffiesRound (K : Libfs) (jiffies count : ℕ → ℕ) (i : ℕ) (r : Reader) :
    Except Fault (Reader ⊕ ℤ × List UInt8 × ℕ) :=
  let out := task08ReadJiffies K (jiffies i) (count i) r.fPos none
  if out.retval ≤ 0 then .ok (.inr (out.retval, r.got, i + 1))
  else .ok (.inl ⟨out.ppos, r.got ++ out.copied⟩)

/-- Reads from position 0 until a call returns no byte: what that call returns, the bytes
delivered before, and the number of calls.  `timestr` has 30 bytes. -/
def readAllJiffies (K : Libfs) (jiffies count : ℕ → ℕ) :
    Except Fault (Option (ℤ × List UInt8 × ℕ)) :=
  userLoop (jiffiesRound K jiffies count) 31 0 ⟨0, []⟩

/-- The program ends with 0, and has got one of the values that its calls saw, and a
newline. -/
def YieldsValue (K : Libfs) (jiffies count : ℕ → ℕ) : Prop :=
  ∃ got calls, readAllJiffies K jiffies count = .ok (some (0, got, calls)) ∧
    ∃ j < calls, got = decimal (jiffies j) ++ [10]

/-- The text of `jiffies` continues what the program has got: it is the value in decimal
and begins with these bytes, or they end in a newline and it is no longer than they are. -/
def Continues (got : List UInt8) (jiffies : ℕ) : Prop :=
  jiffies < 9223372036854775808 ∧ got <+: timestr jiffies ∨
    got.getLast? = some 10 ∧ (timestr jiffies).length ≤ got.length

instance (got : List UInt8) (jiffies : ℕ) : Decidable (Continues got jiffies) := by
  unfold Continues
  infer_instance

/-! ## The text -/

theorem timestr_of_lt {v : ℕ} (hv : v < 9223372036854775808) : timestr v = decimal v ++ [10] := by
  have hvalue : wrap64 v = v := wrap64_eq (by omega) (by omega)
  simp only [timestr, signedDecimal, hvalue, Int.natAbs_natCast]
  rw [if_neg (by omega), List.nil_append]

theorem length_timestr_le (v : ℕ) : (timestr v).length ≤ 21 := by
  have hdigits : (decimal (wrap64 v).natAbs).length ≤ 19 := by
    apply length_decimal_le (by decide)
    unfold wrap64
    omega
  simp only [timestr, signedDecimal, List.length_append, List.length_singleton]
  split_ifs <;> simp <;> omega

/-- The newline is at the end, and nowhere else. -/
theorem eq_of_prefix_of_newline {v : ℕ} {got : List UInt8} (hbegins : got <+: decimal v ++ [10])
    (hlast : got.getLast? = some 10) : got = decimal v ++ [10] := by
  rcases List.prefix_concat_iff.mp hbegins with heq | hdigits
  · exact heq
  · have hmem : (10 : UInt8) ∈ decimal v := hdigits.subset (List.mem_of_getLast? hlast)
    have := digit_of_mem_decimal hmem
    simp at this

/-! ## A call -/

section Calls

variable {K : Libfs} {v p c : ℕ}

theorem readJiffies_end (hp : (timestr v).length ≤ p) :
    task08ReadJiffies K v c p none = ⟨0, p, []⟩ :=
  K.read_nothing (.inl hp)

theorem readJiffies_some (hp : p < (timestr v).length) (hc : 0 < c) {k : ℕ}
    (hk : min c ((timestr v).length - p) = k) :
    task08ReadJiffies K v c p none = ⟨k, (p + k : ℕ), ((timestr v).drop p).take k⟩ := by
  have hlength := length_timestr_le v
  have hread : K.simpleReadFromBuffer c p (fun i => (timestr v).getD i 0) (timestr v).length none =
      _ := K.read_some hp hc (transferred_none _)
  rw [if_neg (by omega), hk] at hread
  have hposition : wrap64 ((p : ℤ) + k) = ((p + k : ℕ) : ℤ) := by
    rw [Int.natCast_add]
    exact wrap64_eq (by omega) (by omega)
  have hcopied : (List.range k).map (fun i => (timestr v).getD (p + i) 0) =
      ((timestr v).drop p).take k := by
    apply List.ext_getElem
    · simp only [List.length_map, List.length_range, List.length_take, List.length_drop]
      omega
    · intro i hi hi'
      rw [List.length_map, List.length_range] at hi
      rw [List.getElem_map, List.getElem_range, List.getElem_take, List.getElem_drop,
        List.getD_eq_getElem _ _ (by omega)]
  rw [task08ReadJiffies, hread, hposition, hcopied]

end Calls

/-! ## The program -/

section Program

variable {K : Libfs} {jiffies count : ℕ → ℕ}

/-- What a program has got begins the text of a value it has seen. -/
def Reader.Begins (jiffies : ℕ → ℕ) (i : ℕ) (r : Reader) : Prop :=
  r.fPos = r.got.length ∧ r.got.length ≤ 21 ∧
    (r.got ≠ [] → ∃ j < i, r.got <+: decimal (jiffies j) ++ [10])

/-- A round that finds nothing left. -/
theorem jiffiesRound_end {i : ℕ} {got : List UInt8}
    (hend : (timestr (jiffies i)).length ≤ got.length) :
    jiffiesRound K jiffies count i ⟨got.length, got⟩ = .ok (.inr (0, got, i + 1)) := by
  simp only [jiffiesRound, readJiffies_end hend]
  rfl

/-- A round that goes on in a text which begins with what the program has got. -/
theorem jiffiesRound_more (hcount : ∀ i, 0 < count i) {i : ℕ} {got : List UInt8}
    (hbegins : got <+: timestr (jiffies i)) (hmore : got.length < (timestr (jiffies i)).length) :
    ∃ got', jiffiesRound K jiffies count i ⟨got.length, got⟩ = .ok (.inl ⟨got'.length, got'⟩) ∧
      got' <+: timestr (jiffies i) ∧ got.length < got'.length := by
  have hpos := hcount i
  obtain ⟨k, hk⟩ : ∃ k, min (count i) ((timestr (jiffies i)).length - got.length) = k := ⟨_, rfl⟩
  have hread : task08ReadJiffies K (jiffies i) (count i) got.length none = _ :=
    readJiffies_some hmore hpos hk
  have hgot : got ++ ((timestr (jiffies i)).drop got.length).take k =
      (timestr (jiffies i)).take (got.length + k) := by
    rw [List.take_add, ← List.prefix_iff_eq_take.mp hbegins]
  have hlonger : ((timestr (jiffies i)).take (got.length + k)).length = got.length + k := by
    rw [List.length_take]
    omega
  refine ⟨(timestr (jiffies i)).take (got.length + k), ?_, List.take_prefix _ _, by omega⟩
  simp only [jiffiesRound, hread]
  rw [if_neg (by omega), hgot, hlonger]

/-- A call that goes on in a text that continues what the program has got. -/
theorem jiffiesRound_step (hcount : ∀ i, 0 < count i) {i : ℕ} {r : Reader}
    (begins : r.Begins jiffies i) (hcontinues : Continues r.got (jiffies i)) :
    (∃ r', jiffiesRound K jiffies count i r = .ok (.inl r') ∧ r'.Begins jiffies (i + 1) ∧
      21 - r'.got.length < 21 - r.got.length) ∨
    ∃ out, jiffiesRound K jiffies count i r = .ok (.inr out) ∧
      out.1 = 0 ∧ ∃ j < out.2.2, out.2.1 = decimal (jiffies j) ++ [10] := by
  obtain ⟨fPos, got⟩ := r
  obtain ⟨hfPos, hgot, hseen⟩ := begins
  obtain rfl : fPos = got.length := hfPos
  simp only at hgot hseen hcontinues
  have hlength := length_timestr_le (jiffies i)
  by_cases hend : (timestr (jiffies i)).length ≤ got.length
  · -- nothing is left: the program has got a whole text
    right
    refine ⟨(0, got, i + 1), jiffiesRound_end hend, rfl, ?_⟩
    rcases hcontinues with ⟨hsigned, hbegins⟩ | ⟨hlast, -⟩
    · refine ⟨i, Nat.lt_succ_self i, ?_⟩
      rw [← timestr_of_lt hsigned]
      exact hbegins.eq_of_length_le hend
    · have hne : got ≠ [] := by
        rintro rfl
        cases hlast
      obtain ⟨j, hj, hbegins⟩ := hseen hne
      exact ⟨j, Nat.lt_succ_of_lt hj, eq_of_prefix_of_newline hbegins hlast⟩
  · left
    obtain ⟨hsigned, hbegins⟩ := hcontinues.resolve_right fun h => hend h.2
    obtain ⟨got', hround, hbegins', hlonger⟩ :=
      jiffiesRound_more (K := K) hcount hbegins (by omega)
    have hle := hbegins'.length_le
    rw [timestr_of_lt hsigned] at hbegins'
    refine ⟨⟨got'.length, got'⟩, hround, ⟨rfl, hle.trans hlength, ?_⟩, ?_⟩
    · exact fun _ => ⟨i, Nat.lt_succ_self i, hbegins'⟩
    · show 21 - got'.length < 21 - got.length
      omega

/-- **What a program reads from jiffies**, with any counts: one value that the counter had,
if every call goes on in a text that continues what the program has got. -/
theorem yieldsValue_of_continues (K : Libfs) {jiffies count : ℕ → ℕ} (hcount : ∀ i, 0 < count i)
    (hcontinues : EveryRound (jiffiesRound K jiffies count)
      (fun i r => Continues r.got (jiffies i)) 31 0 ⟨0, []⟩) :
    YieldsValue K jiffies count := by
  have hends : ∃ out, readAllJiffies K jiffies count = .ok (some out) ∧
      out.1 = 0 ∧ ∃ j < out.2.2, out.2.1 = decimal (jiffies j) ++ [10] := by
    refine (userLoop_ends_under (I := fun i r => r.Begins jiffies i) (Q := fun _ _ => True)
      (μ := fun r => 21 - r.got.length) ?_ ⟨rfl, Nat.zero_le _, fun h => absurd rfl h⟩ hcontinues
      (by simp)).1
    intro i r begins hP
    exact ⟨trivial, jiffiesRound_step hcount begins hP⟩
  obtain ⟨out, hout, hzero, j, hj, hvalue⟩ := hends
  obtain ⟨retval, got, calls⟩ := out
  obtain rfl : retval = 0 := hzero
  exact ⟨got, calls, hout, j, hj, hvalue⟩

end Program

/-- Two bytes of 120, two of 125, and the end in 130: the value is 125. -/
theorem yieldsValue_two_at_a_time :
    EveryRound (jiffiesRound .linux (fun i => 120 + 5 * i) fun _ => 2)
      (fun i r => Continues r.got (120 + 5 * i)) 31 0 ⟨0, []⟩ ∧
    YieldsValue .linux (fun i => 120 + 5 * i) (fun _ => 2) := by
  have hcontinues : EveryRound (jiffiesRound .linux (fun i => 120 + 5 * i) fun _ => 2)
      (fun i r => Continues r.got (120 + 5 * i)) 31 0 ⟨0, []⟩ := by decide
  exact ⟨hcontinues, yieldsValue_of_continues .linux (fun _ => Nat.two_pos) hcontinues⟩

/-- One byte of 9, and the rest of 10, 11 and 12: the program has got 90. -/
theorem yields_no_value :
    readAllJiffies .linux (fun i => 9 + i) (fun _ => 1) = .ok (some (0, [57, 48, 10], 4)) ∧
      ¬ YieldsValue .linux (fun i => 9 + i) (fun _ => 1) := by
  have hread : readAllJiffies .linux (fun i => 9 + i) (fun _ => 1) =
      .ok (some (0, [57, 48, 10], 4)) := by decide
  refine ⟨hread, ?_⟩
  rintro ⟨got, calls, hout, j, hj, hvalue⟩
  rw [hread] at hout
  obtain ⟨rfl, rfl⟩ : [57, 48, 10] = got ∧ 4 = calls := by simpa using hout
  revert hvalue
  have hall : ∀ j < 4, [57, 48, 10] ≠ decimal (9 + j) ++ [10] := by decide
  exact hall j hj

end KernelTraining.Task08
