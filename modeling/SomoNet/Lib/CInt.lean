import Mathlib.Tactic

/-!
# Machine integers

The C types the program computes with, as `ℤ` and `ℕ` with the conversions that C++
makes between them spelled out: a conversion to `unsigned int` keeps the residue in
`[0, 2^32)`, one to a signed 32-bit `int` the residue in `[-2^31, 2^31)`.
-/

namespace SomoNet

/-- Conversion to `unsigned int`: the representative modulo `2^32` in `[0, 2^32)`. -/
def toUInt32 (x : ℤ) : ℕ := (x % 4294967296).toNat

/-- Conversion to `int`: the representative modulo `2^32` in `[-2^31, 2^31)`. -/
def toInt32 (x : ℤ) : ℤ :=
  if toUInt32 x < 2147483648 then toUInt32 x else (toUInt32 x : ℤ) - 4294967296

/-- A value that an `int` can hold is converted to itself. -/
theorem toInt32_of_mem {x : ℤ} (hlo : -2147483648 ≤ x) (hhi : x < 2147483648) :
    toInt32 x = x := by
  unfold toInt32 toUInt32
  split <;> omega

/-- The conversion to `unsigned int` does not see a conversion to `int` before it. -/
theorem toUInt32_toInt32 (x : ℤ) : toUInt32 (toInt32 x) = toUInt32 x := by
  unfold toInt32 toUInt32
  split <;> omega

/-- An `int` that is counted up in steps is the converted count, also where it has wrapped around. -/
theorem toInt32_toInt32_add_one (x : ℤ) : toInt32 (toInt32 x + 1) = toInt32 (x + 1) := by
  unfold toInt32 toUInt32
  split_ifs <;> omega

/-- A value that an `unsigned int` can hold is converted to itself. -/
theorem toUInt32_of_lt {n : ℕ} (h : n < 4294967296) : toUInt32 n = n := by
  unfold toUInt32
  omega

theorem toUInt32_natCast (n : ℕ) : toUInt32 n = n % 4294967296 := by
  unfold toUInt32
  omega

end SomoNet
