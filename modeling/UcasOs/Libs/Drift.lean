import UcasOs.Lib.Forks
import UcasOs.Libs.Vsnprintf

/-!
# Where the two copies of the formatting code print different texts

`mini_itoa` was mended in `libs/printk.c`: an unsigned value is divided as an unsigned value, and
the loop goes on until nothing is left of it.  `tiny_libc/printf.c` still divides a `long`, and
goes on while the quotient is positive.

* `Item.Drifts` — a number whose value is negative as the `long` that is divided: an `unsigned long`
  from `2 ^ 63` on, or the least `long`.
* `render_eq` — the copies print every other item the same.
* `render_forks` — on an item that drifts, the user's copy prints padding and a single character
  for the digits, so that the texts fork at the first digit.
* `kernel_user_agree_iff` — the copies agree exactly when the buffer ends before that digit.
-/

set_option autoImplicit false

namespace UcasOs
namespace Printf

/-- The value that is divided is negative as a `long`. -/
def Item.Drifts : Item → Prop
  | .num conv value _ => 2 ^ 63 ≤ (absolute conv.unsig value).toNat
  | _ => False

/-- How many characters an item has in front of its first digit: the sign, and the padding that the
digits of the value leave. -/
def Item.lead : Item → ℕ
  | .num conv value zeroPad => (sign conv value).length +
      (zeroPad.toNat - (Nat.digits conv.radix (absolute conv.unsig value).toNat).length)
  | _ => 0

/-- Below `2 ^ 63` the loops of the two copies are the same division. -/
theorem render_eq (item : Item) (h : ¬ item.Drifts) : kernel.render item = user.render item := by
  cases item with
  | num conv value zeroPad =>
    have hvalue : (absolute conv.unsig value).toNat < 2 ^ 63 := Nat.lt_of_not_le h
    have hpow := conv.toNat_lt_pow (absolute conv.unsig value)
    have hdigits : kernel.digits conv value = user.digits conv value :=
      (backDigits_eq (dividesBelow_kernel conv) 63 _ hvalue hpow).trans
        (backDigits_eq (dividesBelow_user conv) 63 _ hvalue hpow).symm
    rw [Copy.render, Copy.render, Copy.text, Copy.text, hdigits]
  | chr ch => rfl
  | str s => rfl
  | nothing => rfl

/-! ## The digits of a number that drifts -/

theorem toNat_digitChar_pos (uppercase : Bool) {d : ℕ} (hpos : 0 < d) (hlt : d < 16) :
    48 < (digitChar uppercase d).toNat := by
  rw [digitChar, UInt8.toNat_ofNat']
  split_ifs <;> omega

theorem toNat_digitChar_nonpos (uppercase : Bool) {d : ℤ} (hneg : -16 < d) (hle : d ≤ 0) :
    (digitChar uppercase d).toNat ≤ 48 := by
  rw [digitChar, UInt8.toNat_ofNat', if_pos (by omega)]
  omega

/-- The user's loop stops after its first turn, with a digit that is not positive. -/
theorem digits_user {conv : Conversion} {value : BitVec 64}
    (h : 2 ^ 63 ≤ (absolute conv.unsig value).toNat) :
    ∃ d : ℤ, -16 < d ∧ d ≤ 0 ∧ user.digits conv value = [digitChar conv.uppercase d] := by
  have hstops : ¬ (0#64).slt ((absolute conv.unsig value).sdiv conv.word) = true := by
    intro hpos
    have hlt := toNat_lt_of_sdiv_pos conv (BitVec.slt_iff_toInt_lt.1 hpos)
    omega
  have hradix := conv.radix_le
  refine ⟨((absolute conv.unsig value).srem conv.word).toInt, ?_, ?_, ?_⟩
  rotate_left 2
  · rw [Copy.digits, Copy.backDigits]
    exact congrArg _ (if_neg hstops)
  all_goals
    obtain ⟨m, hm⟩ : ∃ m : ℕ, (absolute conv.unsig value).toInt = -(m : ℤ) := by
      refine ⟨(absolute conv.unsig value).toInt.natAbs, ?_⟩
      have hcond := BitVec.toInt_eq_toNat_cond (absolute conv.unsig value)
      have hword := (absolute conv.unsig value).isLt
      split at hcond <;> omega
    have hmod := Nat.mod_lt m (lt_of_lt_of_le two_pos conv.two_le_radix)
    rw [BitVec.toInt_srem, Conversion.toInt_word, hm, Int.neg_tmod, ← Int.ofNat_tmod]
    omega

/-- The kernel's loop takes all digits off an unsigned value. -/
theorem digits_kernel_unsig {conv : Conversion} (hunsig : conv.unsig = true) (value : BitVec 64) :
    kernel.digits conv value = numeral conv (absolute conv.unsig value).toNat :=
  backDigits_eq (dividesBelow_kernel_unsig hunsig) 63 _ (BitVec.isLt _)
    (conv.toNat_lt_pow _)

/-- The first digit of a number is not zero. -/
theorem exists_numeral_reverse (conv : Conversion) {n : ℕ} (hn : n ≠ 0) :
    ∃ d tail, 0 < d ∧ d < 16 ∧
      (numeral conv n).reverse = digitChar conv.uppercase (d : ℕ) :: tail := by
  have hradix := conv.two_le_radix
  have hne : Nat.digits conv.radix n ≠ [] := Nat.digits_ne_nil_iff_ne_zero.2 hn
  refine ⟨(Nat.digits conv.radix n).getLast hne,
    ((Nat.digits conv.radix n).dropLast.map fun d : ℕ => digitChar conv.uppercase d).reverse,
    Nat.pos_of_ne_zero (Nat.getLast_digit_ne_zero _ hn), ?_, ?_⟩
  · exact lt_of_lt_of_le (Nat.digits_lt_base hradix (List.getLast_mem hne)) conv.radix_le
  · rw [numeral, if_neg hn]
    conv_lhs => rw [← List.dropLast_append_getLast hne]
    rw [List.map_append, List.reverse_append]
    rfl

theorem length_numeral (conv : Conversion) {n : ℕ} (hn : n ≠ 0) :
    (numeral conv n).length = (Nat.digits conv.radix n).length := by
  rw [numeral, if_neg hn, List.length_map]

/-- A `%d` that drifts has the least `long` as its value. -/
theorem eq_least {value : BitVec 64} (h : 2 ^ 63 ≤ (absolute false value).toNat) :
    value = BitVec.ofNat 64 (2 ^ 63) := by
  have hcond := BitVec.toInt_eq_toNat_cond value
  have hword := value.isLt
  rw [absolute] at h
  apply BitVec.eq_of_toNat_eq
  rw [BitVec.toNat_ofNat]
  split at h
  · rename_i hneg
    have hlt : value.toInt < 0 := (isNegative_iff value).1 hneg
    rw [BitVec.toNat_neg] at h
    split at hcond <;> omega
  · rename_i hneg
    have hnonneg : ¬ value.toInt < 0 := mt (isNegative_iff value).2 hneg
    split at hcond <;> omega

/-- The digits of a number that drifts: the kernel's copy has one for each digit of the number, the
first of which is neither a zero nor the single digit that the user's copy has. -/
theorem digits_of_drifts {conv : Conversion} {value : BitVec 64}
    (h : 2 ^ 63 ≤ (absolute conv.unsig value).toNat) :
    ∃ top tail c, (kernel.digits conv value).reverse = top :: tail ∧
      user.digits conv value = [c] ∧ top ≠ 48 ∧ top ≠ c ∧
      (kernel.digits conv value).length
        = (Nat.digits conv.radix (absolute conv.unsig value).toNat).length := by
  obtain ⟨e, hneg, hle, huser⟩ := digits_user h
  have hnonpos := toNat_digitChar_nonpos conv.uppercase hneg hle
  cases hunsig : conv.unsig with
  | true =>
    rw [← hunsig]
    have hne : (absolute conv.unsig value).toNat ≠ 0 := by omega
    obtain ⟨d, tail, hpos, hlt, hreverse⟩ := exists_numeral_reverse conv hne
    have htop := toNat_digitChar_pos conv.uppercase hpos hlt
    refine ⟨digitChar conv.uppercase d, tail, _, ?_, huser, ?_, ?_, ?_⟩
    · rw [digits_kernel_unsig hunsig, hreverse]
    · intro heq
      rw [heq] at htop
      exact absurd htop (by decide)
    · intro heq
      rw [heq] at htop
      omega
    · rw [digits_kernel_unsig hunsig, length_numeral conv hne]
  | false =>
    have hconv : conv = .d := by
      cases conv
      · rfl
      all_goals cases hunsig
    subst hconv
    obtain rfl := eq_least h
    refine ⟨39, _, 40, rfl, rfl, by decide, by decide, ?_⟩
    show 19 = (Nat.digits 10 9223372036854775808).length
    norm_num

/-! ## The texts fork -/

/-- With `k` digits, the padded number of the kernel and the single padded character of the user
fork where the first of the digits is. -/
theorem forks_padded {top c : UInt8} (htop : top ≠ 48) (hc : top ≠ c) (tail : List UInt8) (w : ℕ)
    {k : ℕ} (hk : 2 ≤ k) :
    ForksAt (List.replicate (w - k) 48 ++ top :: tail) (List.replicate (w - 1) 48 ++ [c])
      (w - k) := by
  have hrest : ForksAt (top :: tail) (List.replicate (w - 1 - (w - k)) 48 ++ [c]) 0 := by
    cases w - 1 - (w - k) with
    | zero => exact .head hc _ _
    | succ n => exact .head htop _ _
  have hsplit : List.replicate (w - 1) (48 : UInt8)
      = List.replicate (w - k) 48 ++ List.replicate (w - 1 - (w - k)) 48 := by
    rw [← List.replicate_add]
    congr 1
    omega
  have hfork := hrest.append_left (List.replicate (w - k) 48)
  rwa [List.length_replicate, ← List.append_assoc, ← hsplit] at hfork

theorem two_le_length_digits (conv : Conversion) {n : ℕ} (h : 2 ^ 63 ≤ n) :
    2 ≤ (Nat.digits conv.radix n).length := by
  have hradix := conv.radix_le
  by_contra hlt
  have hpow := Nat.lt_base_pow_length_digits (b := conv.radix) (m := n) conv.two_le_radix
  have hle : conv.radix ^ (Nat.digits conv.radix n).length ≤ conv.radix ^ 1 :=
    Nat.pow_le_pow_right (lt_of_lt_of_le two_pos conv.two_le_radix) (by omega)
  rw [Nat.pow_one] at hle
  omega

theorem render_forks (item : Item) (h : item.Drifts) :
    ForksAt (kernel.render item) (user.render item) item.lead := by
  cases item with
  | num conv value zeroPad =>
    obtain ⟨top, tail, c, hkernel, huser, htop, hc, hlength⟩ := digits_of_drifts h
    have hlen := two_le_length_digits conv h
    have hfork := (forks_padded htop hc tail zeroPad.toNat hlen).append_left (sign conv value)
    rw [Copy.render, Copy.render, Copy.text, Copy.text, hkernel, huser, hlength, List.append_assoc,
      List.append_assoc]
    exact hfork
  | chr ch => exact absurd h id
  | str s => exact absurd h id
  | nothing => exact absurd h id

/-! ## When the copies agree -/

/-- The two copies put the same text into the buffer and return the same value exactly when the
buffer ends before the first digit of any number that is negative as a `long` while it is
divided. -/
theorem kernel_user_agree_iff (bufferLen : UInt32) (fmt : Text) (va : List VaArg) (rk ru : Printed)
    (hk : kernel.miniVsnprintf bufferLen fmt va = .ok rk)
    (hu : user.miniVsnprintf bufferLen fmt va = .ok ru) :
    rk = ru ↔ ∀ pre item post, (parse fmt va).items = pre ++ item :: post → item.Drifts →
      bufferLen.toNat ≤ (kernel.expansion pre).length + item.lead + 1 := by
  obtain ⟨hktext, hkret⟩ := miniVsnprintf_text hk
  obtain ⟨hutext, huret⟩ := miniVsnprintf_text hu
  have htext : rk = ru ↔ rk.text = ru.text := by
    constructor
    · rintro rfl
      rfl
    · intro heq
      rw [Printed.mk.injEq, hkret, huret, heq]
      exact ⟨rfl, rfl⟩
  rw [htext, hktext, hutext]
  have hfork := take_flatMap_eq_iff render_eq render_forks (parse fmt va).items
    (bufferLen.toNat - 1)
  refine Iff.trans hfork ?_
  refine forall₅_congr fun pre item post _ _ => ?_
  rw [Copy.expansion]
  omega

/-- `"%x"` with the argument 255. -/
theorem kernel_user_agree_small :
    (⟨[102, 102], 2⟩ : Printed) = ⟨[102, 102], 2⟩ ↔
      ∀ pre item post, (parse ⟨[37, 120], by decide⟩ [.int 255]).items = pre ++ item :: post →
        item.Drifts →
        (256 : UInt32).toNat ≤ (kernel.expansion pre).length + item.lead + 1 :=
  kernel_user_agree_iff 256 ⟨[37, 120], by decide⟩ [.int 255] _ _ (by rfl) (by rfl)

/-- `"%lu"` prints `2 ^ 63` as 9223372036854775808 in the kernel, and as one character, an opening
parenthesis, in user programs. -/
theorem kernel_user_differ : ¬ ∀ (bufferLen : UInt32) (fmt : Text) (va : List VaArg)
    (rk ru : Printed), kernel.miniVsnprintf bufferLen fmt va = .ok rk →
    user.miniVsnprintf bufferLen fmt va = .ok ru → rk = ru := by
  intro hall
  have heq := hall 256 ⟨[37, 108, 117], by decide⟩ [.long (BitVec.ofNat 64 (2 ^ 63))]
    ⟨[57, 50, 50, 51, 51, 55, 50, 48, 51, 54, 56, 53, 52, 55, 55, 53, 56, 48, 56], 19⟩ ⟨[40], 1⟩
    (by rfl) (by rfl)
  exact absurd heq (by decide)

end Printf
end UcasOs
