import UcasOs.Lib.Vt100
import Mathlib.Algebra.Group.Int.Defs
import Mathlib.Algebra.Group.Nat.Defs
import Mathlib.Data.Nat.Basic

/-!
# The text that `printv` sends

`printk.c`, as far as the screen driver uses it: `printv` with the conversions `%c` and `%d`, on
texts that leave its buffer of 256 characters half empty.  The padding, `l` and the other
conversions are left out.

`%d` fetches its argument as an `unsigned int` and widens it to `long`, so what `mini_itoa` gets is
never negative: a negative coordinate comes out as the number it is modulo `2^32`.
-/

set_option autoImplicit false

namespace UcasOs

open Vt100

/-- The `do … while` of `mini_itoa` for radix ten, which "builds the string back to front". -/
def itoaLoop (value : ℕ) : List UInt8 :=
  UInt8.ofNat (48 + value % 10) :: if value / 10 = 0 then [] else itoaLoop (value / 10)
termination_by value
decreasing_by omega

/-- `mini_itoa(value, 10, 0, 0, bf, 0)` for a value that is not negative. -/
def miniItoa (value : ℕ) : List UInt8 := (itoaLoop value).reverse

/-- The text of `printv(fmt, args…)`. -/
def printv : List Char → List ℤ → List UInt8
  | '%' :: 'c' :: fmt, a :: args => UInt8.ofNat (a % 256).toNat :: printv fmt args
  | '%' :: 'd' :: fmt, a :: args => miniItoa (a % 2 ^ 32).toNat ++ printv fmt args
  | c :: fmt, args => UInt8.ofNat c.toNat :: printv fmt args
  | [], _ => []

theorem toNat_digit (value : ℕ) :
    (UInt8.ofNat (48 + value % 10)).toNat = 48 + value % 10 := by
  rw [UInt8.toNat_ofNat']
  omega

theorem isDigit_digit (value : ℕ) : IsDigit (UInt8.ofNat (48 + value % 10)) := by
  rw [IsDigit, UInt8.le_iff_toNat_le, UInt8.le_iff_toNat_le, toNat_digit]
  constructor
  · show 48 ≤ 48 + value % 10
    omega
  · show 48 + value % 10 ≤ 57
    omega

theorem miniItoa_eq (value : ℕ) :
    miniItoa value = (if value / 10 = 0 then [] else miniItoa (value / 10))
      ++ [UInt8.ofNat (48 + value % 10)] := by
  rw [miniItoa, itoaLoop, List.reverse_cons]
  split <;> rfl

theorem isNumber_miniItoa (value : ℕ) : IsNumber (miniItoa value) := by
  induction value using Nat.strong_induction_on with
  | _ value ih =>
    rw [miniItoa_eq]
    refine ⟨by simp, fun d hd => ?_⟩
    rcases List.mem_append.1 hd with hd | hd
    · split at hd
      · exact absurd hd List.not_mem_nil
      · exact (ih (value / 10) (by omega)).2 d hd
    · rw [List.mem_singleton.1 hd]
      exact isDigit_digit value

/-- What `mini_itoa` writes denotes the value. -/
theorem decimalValue_miniItoa (value : ℕ) : decimalValue (miniItoa value) = value := by
  induction value using Nat.strong_induction_on with
  | _ value ih =>
    rw [miniItoa_eq, decimalValue_concat, toNat_digit]
    split
    · have hnil : decimalValue [] = 0 := rfl
      omega
    · have hquot := ih (value / 10) (by omega)
      omega

end UcasOs
