import UcasOs.Libs.Printk
import Mathlib.Algebra.Order.Group.Int
import Mathlib.Data.Nat.Digits.Lemmas
import Mathlib.Tactic.IntervalCases

/-!
# The two copies of `mini_itoa`

`printk.c` and `tiny_libc/printf.c` hold the same formatting code twice.  The copies differ in how
`mini_itoa` takes a digit off its value (`Copy.digit`, `Copy.quotient`), in when its loop goes on
(`Copy.continues`), and in the length a string may have (`Copy.strlenLimit`); what they share is
written once, over a `Copy`.

* `Copy.miniItoa` stores through a pointer into an array of 24 characters, and a store behind the
  array is a `Fault`.  `Copy.text` is what comes out when it fits (`miniItoa_eq`), which is a
  matter of the padding and of the sign alone (`length_text_lt`).
* `Copy.DividesBelow` says on which values a copy's loop is division of natural numbers; there its
  digits are `Nat.digits` (`backDigits_eq`).  The kernel's copy divides every unsigned value that
  way, both copies every value that is not negative as a `long`.

`value = -value` wraps, as it does in the code that is compiled, without optimisation, from it;
`char` is unsigned, as it is on RISC-V.
-/

set_option autoImplicit false

namespace UcasOs
namespace Printf

open Vt100

/-- What the formatting code must not do.  `bf`: a store behind the array of 24 characters that
`mini_itoa` gets; `buffer`: a store behind `buffer_len`; `format`: a read behind the NUL of the
format; `args`: an argument fetched at another type than it was passed at; `endless`: a loop that
does not end; `strlen`: a string too long for the type that counts its characters. -/
inductive Fault where
  | bf
  | buffer
  | format
  | args
  | endless
  | strlen
  deriving DecidableEq, Repr

/-- The conversions that print a number: `%d`, `%u`, `%x` and `%X`. -/
inductive Conversion where
  | d
  | u
  | x
  | upperX
  deriving DecidableEq, Repr

namespace Conversion

/-- `10` or `16` in the call of `mini_itoa`. -/
def radix : Conversion → ℕ
  | d | u => 10
  | x | upperX => 16

/-- `0` or `ch == 'X'` in the call of `mini_itoa`. -/
def uppercase : Conversion → Bool
  | upperX => true
  | _ => false

/-- `ch == 'u'` or `1` in the call of `mini_itoa`. -/
def unsig : Conversion → Bool
  | d => false
  | _ => true

theorem two_le_radix (conv : Conversion) : 2 ≤ conv.radix := by
  cases conv <;> decide

theorem radix_le (conv : Conversion) : conv.radix ≤ 16 := by
  cases conv <;> decide

/-- Twenty digits are enough for every `unsigned long`. -/
theorem lt_radix_pow (conv : Conversion) : 2 ^ 64 ≤ conv.radix ^ 20 := by
  cases conv <;> decide

/-- The turns of the loop are enough for every value. -/
theorem toNat_lt_pow (conv : Conversion) (value : BitVec 64) :
    value.toNat < conv.radix ^ (63 + 1) :=
  lt_of_lt_of_le value.isLt (Nat.pow_le_pow_left conv.two_le_radix 64)

/-- The radix as the `long` it is converted to. -/
def word (conv : Conversion) : BitVec 64 := BitVec.ofNat 64 conv.radix

theorem toNat_word (conv : Conversion) : conv.word.toNat = conv.radix := by
  cases conv <;> rfl

theorem toInt_word (conv : Conversion) : conv.word.toInt = conv.radix := by
  cases conv <;> rfl

end Conversion

/-- The size of a `long`, read as the conversion reads it. -/
def size (unsig : Bool) (value : BitVec 64) : ℕ :=
  if unsig then value.toNat else value.toInt.natAbs

/-- What a copy of the code does its own way: the digit and the quotient of one turn of the loop
of `mini_itoa`, given `unsig`, `value` and `radix`, whether the loop goes on with that quotient,
and the first length that the string function cannot count.  Going on means having got smaller. -/
structure Copy where
  digit : Bool → BitVec 64 → BitVec 64 → ℤ
  quotient : Bool → BitVec 64 → BitVec 64 → BitVec 64
  continues : BitVec 64 → Bool
  strlenLimit : ℕ
  strlenLimit_pos : 0 < strlenLimit
  shrinks : ∀ (conv : Conversion) (value : BitVec 64),
    continues (quotient conv.unsig value conv.word) →
      0 < size conv.unsig (quotient conv.unsig value conv.word) ∧
        size conv.unsig (quotient conv.unsig value conv.word)
          ≤ size conv.unsig value / conv.radix

/-! ## Dividing a `long` -/

theorem size_le (unsig : Bool) (value : BitVec 64) : size unsig value < 2 ^ 64 := by
  cases unsig with
  | true => exact value.isLt
  | false =>
    have hlo := BitVec.le_toInt value
    have hhi := BitVec.toInt_lt (x := value)
    show value.toInt.natAbs < 2 ^ 64
    omega

theorem toInt_sdiv_word (conv : Conversion) (value : BitVec 64) :
    (value.sdiv conv.word).toInt = value.toInt.tdiv conv.radix := by
  rw [BitVec.toInt_sdiv_of_ne_or_ne, Conversion.toInt_word]
  right
  cases conv <;> decide

theorem natAbs_sdiv_word (conv : Conversion) (value : BitVec 64) :
    (value.sdiv conv.word).toInt.natAbs = value.toInt.natAbs / conv.radix := by
  rw [toInt_sdiv_word, Int.natAbs_tdiv, Int.natAbs_natCast]
  rfl

theorem toNat_udiv_word (conv : Conversion) (value : BitVec 64) :
    (value / conv.word).toNat = value.toNat / conv.radix := by
  rw [BitVec.toNat_udiv, Conversion.toNat_word]

theorem toInt_eq_toNat {value : BitVec 64} (h : value.toNat < 2 ^ 63) :
    value.toInt = value.toNat :=
  BitVec.toInt_eq_toNat_of_lt (by omega)

theorem toNat_sdiv_word {value : BitVec 64} (h : value.toNat < 2 ^ 63) (conv : Conversion) :
    (value.sdiv conv.word).toNat = value.toNat / conv.radix := by
  have hint : (value.sdiv conv.word).toInt = ((value.toNat / conv.radix : ℕ) : ℤ) := by
    rw [toInt_sdiv_word, toInt_eq_toNat h, Int.ofNat_tdiv]
  have hle : value.toNat / conv.radix ≤ value.toNat := Nat.div_le_self _ _
  generalize value.toNat / conv.radix = quotient at hint hle ⊢
  have hcond := BitVec.toInt_eq_toNat_cond (value.sdiv conv.word)
  have hlt := (value.sdiv conv.word).isLt
  split at hcond <;> omega

/-- A quotient above zero comes from a value that is not negative as a `long`. -/
theorem toNat_lt_of_sdiv_pos (conv : Conversion) {value : BitVec 64}
    (hpos : 0 < (value.sdiv conv.word).toInt) : value.toNat < 2 ^ 63 := by
  by_contra hge
  have hneg : 0 ≤ -value.toInt := by
    have hcond := BitVec.toInt_eq_toNat_cond value
    have hlt := value.isLt
    split at hcond <;> omega
  have hquot := Int.tdiv_nonneg hneg (Int.natCast_nonneg conv.radix)
  rw [Int.neg_tdiv, ← toInt_sdiv_word] at hquot
  omega

theorem shrinks_kernel (conv : Conversion) (value : BitVec 64) :
    (if conv.unsig then value / conv.word else value.sdiv conv.word) ≠ 0 →
      0 < size conv.unsig (if conv.unsig then value / conv.word else value.sdiv conv.word) ∧
        size conv.unsig (if conv.unsig then value / conv.word else value.sdiv conv.word)
          ≤ size conv.unsig value / conv.radix := by
  cases hunsig : conv.unsig with
  | true =>
    intro hne
    refine ⟨?_, (toNat_udiv_word conv value).le⟩
    exact Nat.pos_of_ne_zero fun h => hne (BitVec.eq_of_toNat_eq h)
  | false =>
    intro hne
    refine ⟨?_, (natAbs_sdiv_word conv value).le⟩
    exact Int.natAbs_pos.2 fun h => hne (BitVec.eq_of_toInt_eq h)

theorem shrinks_user (conv : Conversion) (value : BitVec 64)
    (hpos : (0#64).slt (value.sdiv conv.word)) :
    0 < size conv.unsig (value.sdiv conv.word) ∧
      size conv.unsig (value.sdiv conv.word) ≤ size conv.unsig value / conv.radix := by
  have hint : 0 < (value.sdiv conv.word).toInt := BitVec.slt_iff_toInt_lt.1 hpos
  cases hunsig : conv.unsig with
  | true =>
    have hvalue := toNat_lt_of_sdiv_pos conv hint
    refine ⟨?_, (toNat_sdiv_word hvalue conv).le⟩
    exact Nat.pos_of_ne_zero fun h =>
      hint.ne' (congrArg BitVec.toInt (BitVec.eq_of_toNat_eq (y := 0#64) h))
  | false => exact ⟨Int.natAbs_pos.2 hint.ne', (natAbs_sdiv_word conv value).le⟩

/-- `libs/printk.c`. -/
def kernel : Copy where
  digit unsig value radix :=
    if unsig then ((value % radix).toNat : ℤ) else (value.srem radix).toInt
  quotient unsig value radix := if unsig then value / radix else value.sdiv radix
  continues value := value ≠ 0
  strlenLimit := 2 ^ 32
  strlenLimit_pos := by decide
  shrinks conv value h := shrinks_kernel conv value (of_decide_eq_true h)

/-- `tiny_libc/printf.c`, with `strlen` of `tiny_libc/string.c`. -/
def user : Copy where
  digit _ value radix := (value.srem radix).toInt
  quotient _ value radix := value.sdiv radix
  continues value := (0#64).slt value
  strlenLimit := 2 ^ 31
  strlenLimit_pos := by decide
  shrinks conv value h := shrinks_user conv value h

/-! ## `mini_itoa` -/

/-- `*(pbuffer++) = ch`, in the array of 24 characters. -/
def push (bf : List UInt8) (ch : UInt8) : Except Fault (List UInt8) :=
  if bf.length < 24 then .ok (bf ++ [ch]) else .error .bf

/-- `digit < 10 ? '0' + digit : (uppercase ? 'A' : 'a') + digit - 10`, as a `char`. -/
def digitChar (uppercase : Bool) (digit : ℤ) : UInt8 :=
  UInt8.ofNat
    ((if digit < 10 then 48 + digit else (if uppercase then 65 else 97) + digit - 10) % 256).toNat

/-- The `do … while`, which "builds the string back to front". -/
def Copy.digitLoop (c : Copy) (radix : BitVec 64) (uppercase unsig : Bool) :
    ℕ → BitVec 64 → List UInt8 → Except Fault (List UInt8)
  | 0, _, _ => .error .endless
  | fuel + 1, value, bf => do
    let bf ← push bf (digitChar uppercase (c.digit unsig value radix))
    if c.continues (c.quotient unsig value radix) then
      c.digitLoop radix uppercase unsig fuel (c.quotient unsig value radix) bf
    else
      .ok bf

/-- One turn of the loop that reverses the text in place. -/
def swap (len : ℕ) (buffer : List UInt8) (i : ℕ) : List UInt8 :=
  (buffer.set i (buffer.getD (len - i - 1) 0)).set (len - i - 1) (buffer.getD i 0)

/-- "... now we reverse it". -/
def reverseInPlace (buffer : List UInt8) : List UInt8 :=
  (List.range (buffer.length / 2)).foldl (swap buffer.length) buffer

/-- `value < 0 && !unsig`. -/
def isNegative (unsig : Bool) (value : BitVec 64) : Bool := value.slt 0#64 && !unsig

theorem isNegative_iff (value : BitVec 64) : isNegative false value = true ↔ value.toInt < 0 := by
  rw [isNegative, Bool.not_false, Bool.and_true]
  exact BitVec.slt_iff_toInt_lt

/-- The value whose digits are taken. -/
def absolute (unsig : Bool) (value : BitVec 64) : BitVec 64 :=
  if isNegative unsig value then -value else value

/-- `mini_itoa`, with the text it leaves in the array; the length it returns is that text's.  The
loop has 64 turns, which are enough for every radix from two on. -/
def Copy.miniItoa (c : Copy) (value : BitVec 64) (radix : ℕ) (uppercase unsig : Bool)
    (zeroPad : ℕ) : Except Fault (List UInt8) :=
  if radix > 16 then .ok []
  else do
    let bf ← c.digitLoop (BitVec.ofNat 64 radix) uppercase unsig 64 (absolute unsig value) []
    let bf ← (List.replicate (zeroPad - bf.length) 48).foldlM push bf
    let bf ← (if isNegative unsig value then push bf 45 else .ok bf)
    let _ ← push bf 0
    .ok (reverseInPlace bf)

/-- The digits of the loop, back to front, without the array they go to. -/
def Copy.backDigits (c : Copy) (conv : Conversion) : ℕ → BitVec 64 → List UInt8
  | 0, _ => []
  | fuel + 1, value =>
    digitChar conv.uppercase (c.digit conv.unsig value conv.word) ::
      if c.continues (c.quotient conv.unsig value conv.word) then
        c.backDigits conv fuel (c.quotient conv.unsig value conv.word)
      else []

/-- The digits that a conversion prints, back to front. -/
def Copy.digits (c : Copy) (conv : Conversion) (value : BitVec 64) : List UInt8 :=
  c.backDigits conv 64 (absolute conv.unsig value)

/-- The sign that a conversion prints. -/
def sign (conv : Conversion) (value : BitVec 64) : List UInt8 :=
  if isNegative conv.unsig value then [45] else []

/-- What a conversion prints where the array is no limit. -/
def Copy.text (c : Copy) (conv : Conversion) (value : BitVec 64) (zeroPad : ℕ) : List UInt8 :=
  sign conv value ++ List.replicate (zeroPad - (c.digits conv value).length) 48
    ++ (c.digits conv value).reverse

/-! ### Reversing in place -/

theorem length_swap (len : ℕ) (buffer : List UInt8) (i : ℕ) :
    (swap len buffer i).length = buffer.length := by
  rw [swap, List.length_set, List.length_set]

theorem some_getD {buffer : List UInt8} {i : ℕ} (h : i < buffer.length) :
    some (buffer.getD i 0) = buffer[i]? := by
  rw [List.getD_eq_getElem?_getD, List.getElem?_eq_getElem h, Option.getD_some]

/-- After `n` turns the outer `n` characters on either side are in place. -/
theorem getElem?_foldl_swap (buffer : List UInt8) : ∀ (n : ℕ), n ≤ buffer.length / 2 →
    ((List.range n).foldl (swap buffer.length) buffer).length = buffer.length ∧
      ∀ j < buffer.length,
        ((List.range n).foldl (swap buffer.length) buffer)[j]? =
          if j < n ∨ buffer.length - n ≤ j then buffer[buffer.length - 1 - j]? else buffer[j]?
  | 0, _ => by
    refine ⟨rfl, fun j hj => ?_⟩
    rw [if_neg (by omega)]
    rfl
  | n + 1, hn => by
    obtain ⟨hlen, hget⟩ := getElem?_foldl_swap buffer n (by omega)
    rw [List.range_succ, List.foldl_append, List.foldl_cons, List.foldl_nil]
    generalize (List.range n).foldl (swap buffer.length) buffer = turned at hlen hget ⊢
    refine ⟨by rw [length_swap, hlen], fun j hj => ?_⟩
    have hlow : turned.getD n 0 = buffer.getD n 0 := by
      rw [List.getD_eq_getElem?_getD, hget n (by omega), if_neg (by omega),
        List.getD_eq_getElem?_getD]
    have hhigh : turned.getD (buffer.length - n - 1) 0 = buffer.getD (buffer.length - n - 1) 0 := by
      rw [List.getD_eq_getElem?_getD, hget _ (by omega), if_neg (by omega),
        List.getD_eq_getElem?_getD]
    have hn' : n < buffer.length := by omega
    have hfar : buffer.length - n - 1 < buffer.length := by omega
    rw [swap, hlow, hhigh, List.getElem?_set, List.getElem?_set, List.length_set, hlen, hget j hj,
      if_pos hn', if_pos hfar, some_getD hn', some_getD hfar]
    rcases eq_or_ne (buffer.length - n - 1) j with rfl | hhi
    · have hnear : buffer.length - 1 - (buffer.length - n - 1) = n := by omega
      rw [if_pos rfl, if_pos (by omega), hnear]
    rw [if_neg hhi]
    rcases eq_or_ne n j with rfl | hlo
    · rw [if_pos rfl, if_pos (by omega), Nat.sub_right_comm]
    rw [if_neg hlo]
    exact if_congr (by omega) rfl rfl

theorem reverseInPlace_eq (buffer : List UInt8) : reverseInPlace buffer = buffer.reverse := by
  obtain ⟨hlen, hget⟩ := getElem?_foldl_swap buffer (buffer.length / 2) le_rfl
  refine List.ext_getElem? fun j => ?_
  rcases Nat.lt_or_ge j buffer.length with hj | hj
  · rw [reverseInPlace, hget j hj, List.getElem?_reverse hj]
    split_ifs with h
    · rfl
    · rw [show buffer.length - 1 - j = j by omega]
  · rw [List.getElem?_eq_none (by rw [reverseInPlace, hlen]; exact hj),
      List.getElem?_eq_none (by rw [List.length_reverse]; exact hj)]

/-! ### The digits -/

section

variable (c : Copy) (conv : Conversion)

/-- The loop stops before its turns do, and then its digits are in the array if they fit. -/
theorem digitLoop_eq : ∀ (fuel : ℕ) (value : BitVec 64) (bf : List UInt8),
    (c.backDigits conv fuel value).length < fuel →
    bf.length + (c.backDigits conv fuel value).length ≤ 24 →
    c.digitLoop conv.word conv.uppercase conv.unsig fuel value bf
      = .ok (bf ++ c.backDigits conv fuel value)
  | 0, _, _, hfuel, _ => absurd hfuel (Nat.not_lt_zero _)
  | fuel + 1, value, bf, hfuel, hbf => by
    rw [Copy.backDigits, List.length_cons] at hfuel hbf
    rw [Copy.digitLoop, push, if_pos (by omega), Copy.backDigits]
    show (if _ then _ else _) = _
    split at hfuel
    · rename_i hgoes
      rw [if_pos hgoes] at hbf
      rw [if_pos hgoes, if_pos hgoes, digitLoop_eq fuel _ _ (by omega)
        (by rw [List.length_append, List.length_singleton]; omega), List.append_assoc]
      rfl
    · rename_i hstops
      rw [if_neg hstops, if_neg hstops]

/-- A value below `radix ^ k` has at most `k` digits. -/
theorem length_backDigits_le : ∀ (fuel : ℕ) (value : BitVec 64) (k : ℕ),
    size conv.unsig value < conv.radix ^ (k + 1) → (c.backDigits conv fuel value).length ≤ k + 1
  | 0, _, _, _ => Nat.zero_le _
  | fuel + 1, value, k, hk => by
    rw [Copy.backDigits, List.length_cons]
    split
    · rename_i hgoes
      obtain ⟨hpos, hle⟩ := c.shrinks conv value hgoes
      cases k with
      | zero =>
        rw [Nat.zero_add, Nat.pow_one] at hk
        rw [Nat.div_eq_of_lt hk] at hle
        omega
      | succ k =>
        have hquot : size conv.unsig value / conv.radix < conv.radix ^ (k + 1) :=
          Nat.div_lt_of_lt_mul (by rwa [← Nat.pow_succ'])
        have := length_backDigits_le fuel _ k (lt_of_le_of_lt hle hquot)
        omega
    · rw [List.length_nil]
      omega

theorem length_digits_le (value : BitVec 64) : (c.digits conv value).length ≤ 20 :=
  length_backDigits_le c conv 64 _ 19 (lt_of_lt_of_le (size_le _ _) conv.lt_radix_pow)

end

/-- Pushing one character after the other. -/
theorem foldlM_push : ∀ (chs bf : List UInt8), bf.length ≤ 24 →
    chs.foldlM push bf
      = if (bf ++ chs).length ≤ 24 then .ok (bf ++ chs) else .error .bf
  | [], bf, hbf => by
    rw [List.append_nil, if_pos hbf]
    rfl
  | ch :: chs, bf, hbf => by
    rw [List.foldlM_cons, push]
    rcases Nat.lt_or_ge bf.length 24 with hlt | hge
    · rw [if_pos hlt]
      show chs.foldlM push (bf ++ [ch]) = _
      rw [foldlM_push chs (bf ++ [ch]) (by rw [List.length_append]; exact hlt), List.append_assoc]
      rfl
    · rw [if_neg (by omega), if_neg (by rw [List.length_append, List.length_cons]; omega)]
      rfl

/-! ### What `mini_itoa` leaves in the array -/

theorem length_sign_le (conv : Conversion) (value : BitVec 64) : (sign conv value).length ≤ 1 := by
  rw [sign]
  split
  · exact le_rfl
  · exact Nat.zero_le _

theorem length_text (c : Copy) (conv : Conversion) (value : BitVec 64) (zeroPad : ℕ) :
    (c.text conv value zeroPad).length
      = (sign conv value).length + max (c.digits conv value).length zeroPad := by
  rw [Copy.text, List.length_append, List.length_append, List.length_replicate,
    List.length_reverse]
  omega

/-- Only the padding can be too long for the array. -/
theorem length_text_lt (c : Copy) (conv : Conversion) (value : BitVec 64) (zeroPad : ℕ) :
    (c.text conv value zeroPad).length < 24 ↔ zeroPad + (sign conv value).length < 24 := by
  have hdigits := length_digits_le c conv value
  have hsign := length_sign_le conv value
  rw [length_text]
  omega

/-- What is stored behind the digits: the padding, the sign and the NUL. -/
theorem store_tail (conv : Conversion) (value : BitVec 64) (pad : List UInt8) {bf : List UInt8}
    (hbf : bf.length ≤ 24) :
    (do
      let bf ← pad.foldlM push bf
      let bf ← (if isNegative conv.unsig value then push bf 45 else .ok bf)
      let _ ← push bf 0
      Except.ok (reverseInPlace bf))
      = if (bf ++ (pad ++ sign conv value)).length < 24
        then .ok (bf ++ (pad ++ sign conv value)).reverse else .error .bf := by
  have hsign : ∀ bf, (if isNegative conv.unsig value then push bf 45 else Except.ok bf)
      = (sign conv value).foldlM push bf := by
    intro bf
    rw [sign]
    split
    · exact (bind_pure (push bf 45)).symm
    · rfl
  simp only [hsign]
  rw [← bind_assoc, ← List.foldlM_append, foldlM_push _ _ hbf]
  rcases Nat.lt_trichotomy (bf ++ (pad ++ sign conv value)).length 24 with hlt | heq | hgt
  · rw [if_pos hlt.le, if_pos hlt]
    show Except.bind (push _ 0) _ = _
    rw [push, if_pos hlt, reverseInPlace_eq]
    rfl
  · rw [if_pos heq.le, if_neg (by omega)]
    show Except.bind (push _ 0) _ = _
    rw [push, if_neg (by omega)]
    rfl
  · rw [if_neg (by omega), if_neg (by omega)]
    rfl

theorem miniItoa_eq (c : Copy) (conv : Conversion) (value : BitVec 64) (zeroPad : ℕ) :
    c.miniItoa value conv.radix conv.uppercase conv.unsig zeroPad
      = if (c.text conv value zeroPad).length < 24 then .ok (c.text conv value zeroPad)
        else .error .bf := by
  have hradix := conv.radix_le
  have hdigits := length_digits_le c conv value
  have hloop : c.digitLoop conv.word conv.uppercase conv.unsig 64 (absolute conv.unsig value) []
      = .ok (c.digits conv value) :=
    digitLoop_eq c conv 64 _ [] (by change (c.digits conv value).length < 64; omega)
      (by change 0 + (c.digits conv value).length ≤ 24; omega)
  have hback : c.text conv value zeroPad
      = (c.digits conv value ++ (List.replicate (zeroPad - (c.digits conv value).length) 48
          ++ sign conv value)).reverse := by
    rw [List.reverse_append, List.reverse_append, List.reverse_replicate, Copy.text]
    congr 2
    rw [sign]
    split <;> rfl
  rw [Copy.miniItoa, if_neg (by omega)]
  show Except.bind (c.digitLoop conv.word _ _ _ _ _) _ = _
  rw [hloop, hback, List.length_reverse]
  exact store_tail conv value _ (by omega)

/-! ## The digits of a number -/

/-- Below `bound`, a turn of the loop divides natural numbers. -/
def Copy.DividesBelow (c : Copy) (conv : Conversion) (bound : ℕ) : Prop :=
  ∀ value : BitVec 64, value.toNat < bound →
    c.digit conv.unsig value conv.word = (value.toNat % conv.radix : ℕ) ∧
      (c.quotient conv.unsig value conv.word).toNat = value.toNat / conv.radix ∧
      (c.continues (c.quotient conv.unsig value conv.word) ↔ 0 < value.toNat / conv.radix)

theorem toInt_srem_word {value : BitVec 64} (h : value.toNat < 2 ^ 63) (conv : Conversion) :
    (value.srem conv.word).toInt = (value.toNat % conv.radix : ℕ) := by
  rw [BitVec.toInt_srem, Conversion.toInt_word, toInt_eq_toNat h, Int.ofNat_tmod]

theorem toNat_umod_word (conv : Conversion) (value : BitVec 64) :
    (value % conv.word).toNat = value.toNat % conv.radix := by
  rw [BitVec.toNat_umod, Conversion.toNat_word]

theorem ne_zero_iff_toNat_pos (value : BitVec 64) : value ≠ 0 ↔ 0 < value.toNat := by
  rw [Nat.pos_iff_ne_zero, Ne, Ne, ← BitVec.toNat_inj]
  rfl

theorem dividesBelow_kernel_unsig {conv : Conversion} (hunsig : conv.unsig = true) :
    kernel.DividesBelow conv (2 ^ 64) := by
  intro value _
  show (if conv.unsig = true then _ else _) = _ ∧
    (if conv.unsig = true then _ else _ : BitVec 64).toNat = _ ∧
    (decide ((if conv.unsig = true then _ else _ : BitVec 64) ≠ 0) = true ↔ _)
  rw [if_pos hunsig, if_pos hunsig, decide_eq_true_iff, ne_zero_iff_toNat_pos, toNat_umod_word,
    toNat_udiv_word]
  exact ⟨rfl, rfl, Iff.rfl⟩

theorem dividesBelow_kernel (conv : Conversion) : kernel.DividesBelow conv (2 ^ 63) := by
  intro value hvalue
  cases hunsig : conv.unsig with
  | true =>
    have hdivides := dividesBelow_kernel_unsig hunsig value value.isLt
    rwa [hunsig] at hdivides
  | false =>
    show _ ∧ _ ∧ (decide ((value.sdiv conv.word) ≠ 0) = true ↔ _)
    rw [decide_eq_true_iff, ne_zero_iff_toNat_pos]
    rw [toNat_sdiv_word hvalue]
    exact ⟨toInt_srem_word hvalue conv, toNat_sdiv_word hvalue conv, Iff.rfl⟩

theorem dividesBelow_user (conv : Conversion) : user.DividesBelow conv (2 ^ 63) := by
  intro value hvalue
  refine ⟨toInt_srem_word hvalue conv, toNat_sdiv_word hvalue conv, ?_⟩
  show (0#64).slt (value.sdiv conv.word) = true ↔ _
  rw [BitVec.slt_iff_toInt_lt, toInt_sdiv_word, toInt_eq_toNat hvalue, ← Int.ofNat_tdiv]
  exact Int.natCast_pos

/-- The digits of a number as `mini_itoa` builds them, back to front; zero has one digit. -/
def numeral (conv : Conversion) (n : ℕ) : List UInt8 :=
  (if n = 0 then [0] else Nat.digits conv.radix n).map fun d : ℕ => digitChar conv.uppercase d

theorem numeral_eq (conv : Conversion) (n : ℕ) :
    numeral conv n = digitChar conv.uppercase (n % conv.radix : ℕ) ::
      if 0 < n / conv.radix then numeral conv (n / conv.radix) else [] := by
  have hradix := conv.two_le_radix
  rcases Nat.eq_zero_or_pos n with rfl | hn
  · rw [Nat.zero_div, if_neg (lt_irrefl 0), Nat.zero_mod]
    rfl
  · rw [numeral, if_neg hn.ne', Nat.digits_def' hradix hn, List.map_cons]
    split
    · rename_i hquot
      rw [numeral, if_neg hquot.ne']
    · rename_i hquot
      rw [Nat.eq_zero_of_not_pos hquot, Nat.digits_zero, List.map_nil]

theorem backDigits_eq {c : Copy} {conv : Conversion} {bound : ℕ}
    (hdivides : c.DividesBelow conv bound) : ∀ (fuel : ℕ) (value : BitVec 64),
    value.toNat < bound → value.toNat < conv.radix ^ (fuel + 1) →
    c.backDigits conv (fuel + 1) value = numeral conv value.toNat := by
  intro fuel
  induction fuel with
  | zero =>
    intro value hbound hfuel
    obtain ⟨hdigit, -, hgoes⟩ := hdivides value hbound
    rw [Nat.zero_add, Nat.pow_one] at hfuel
    rw [Copy.backDigits, numeral_eq, hdigit, if_neg, if_neg]
    · rw [Nat.div_eq_of_lt hfuel]
      exact lt_irrefl 0
    · rw [hgoes, Nat.div_eq_of_lt hfuel]
      exact lt_irrefl 0
  | succ fuel ih =>
    intro value hbound hfuel
    obtain ⟨hdigit, hquot, hgoes⟩ := hdivides value hbound
    have hle : value.toNat / conv.radix ≤ value.toNat := Nat.div_le_self _ _
    rw [Copy.backDigits, numeral_eq, hdigit, ih _ (by omega), hquot]
    · exact congrArg _ (if_congr hgoes rfl rfl)
    · rw [hquot]
      exact Nat.div_lt_of_lt_mul (by rwa [← Nat.pow_succ'])

end Printf
end UcasOs
