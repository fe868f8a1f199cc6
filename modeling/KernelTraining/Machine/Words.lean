import Mathlib.Data.Int.Notation
import Mathlib.Data.Nat.Notation

/-!
# Machine integers of a 64-bit C target

`int` has 32 bits, `long`, `loff_t` and `ssize_t` have 64, and `size_t` and
`unsigned long` are the 64-bit unsigned type.  Signed values are integers and
unsigned ones natural numbers; the four conversions below reduce a value into
the range of its type, two's complement throughout (the kernel is built so that
signed arithmetic wraps).

A C expression is translated with a conversion wherever the type of a result is narrower than
what has been computed, and wherever a comparison makes one of its sides unsigned.  A proof
gets rid of it with the lemma that says when it changes nothing (`wrap32_eq`, `toULong_eq` and
so on), or keeps it and compares residues.
-/

namespace KernelTraining.Machine

/-- Conversion to `int`. -/
def wrap32 (x : ℤ) : ℤ := (x + 2147483648) % 4294967296 - 2147483648

/-- Conversion to `long`. -/
def wrap64 (x : ℤ) : ℤ :=
  (x + 9223372036854775808) % 18446744073709551616 - 9223372036854775808

/-- Conversion to `unsigned int`. -/
def toUInt (x : ℤ) : ℕ := (x % 4294967296).toNat

/-- Conversion to `unsigned long`. -/
def toULong (x : ℤ) : ℕ := (x % 18446744073709551616).toNat

/-- `(f_flags & O_ACCMODE) == O_WRONLY`. -/
def writeOnly (flags : ℕ) : Bool := flags % 4 = 1

/-- `INT_MAX`. -/
def intMax : ℤ := 2147483647

theorem wrap32_eq {x : ℤ} (hlow : -2147483648 ≤ x) (hhigh : x ≤ intMax) : wrap32 x = x := by
  unfold wrap32
  unfold intMax at hhigh
  omega

theorem wrap32_range (x : ℤ) : -2147483648 ≤ wrap32 x ∧ wrap32 x ≤ intMax := by
  unfold wrap32 intMax
  omega

/-- A conversion to `int` keeps exactly the values that fit. -/
theorem wrap32_eq_iff {x : ℤ} : wrap32 x = x ↔ -2147483648 ≤ x ∧ x ≤ intMax :=
  ⟨fun h => h ▸ wrap32_range x, fun h => wrap32_eq h.1 h.2⟩

/-- Below `2 ^ 32` no conversion makes a zero. -/
theorem wrap32_eq_zero_iff {x : ℤ} (hlow : 0 ≤ x) (hhigh : x < 4294967296) :
    wrap32 x = 0 ↔ x = 0 := by
  unfold wrap32
  omega

theorem wrap64_eq {x : ℤ} (hlow : -9223372036854775808 ≤ x) (hhigh : x < 9223372036854775808) :
    wrap64 x = x := by
  unfold wrap64
  omega

theorem toUInt_eq {x : ℤ} (hlow : 0 ≤ x) (hhigh : x ≤ intMax) : toUInt x = x.toNat := by
  unfold toUInt
  unfold intMax at hhigh
  omega

/-- Conversion to `unsigned int` keeps the `int`s apart. -/
theorem toUInt_wrap32_inj {x y : ℤ} :
    toUInt (wrap32 x) = toUInt (wrap32 y) ↔ wrap32 x = wrap32 y := by
  unfold toUInt wrap32
  omega

theorem toULong_eq {x : ℤ} (hlow : 0 ≤ x) (hhigh : x < 18446744073709551616) :
    toULong x = x.toNat := by
  unfold toULong
  omega

theorem toULong_natCast {n : ℕ} (h : n < 18446744073709551616) : toULong n = n := by
  unfold toULong
  omega

end KernelTraining.Machine
