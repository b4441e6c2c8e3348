import UcasOs.Libs.Vsnprintf

/-!
# Signed decimal output

What `%d` and `%ld` of the kernel's `mini_vsnprintf` print, read back as a signed decimal number.

* `Denotes text n` — the text is an optional minus sign and decimal digits, and reads as `n`; it
  reads as one number only (`Denotes.unique`).
* `digits_kernel` — as long as the value that is divided is not negative, the digits are those of
  `UcasOs.miniItoa`, which denote it.
* `denotes_text` — so every value but the least is denoted; the negation of that one wraps, its
  digits come out negative, and some of the characters are no digits (`not_denotes_least`).
* `iteration_conversion` — what one turn of the loop prints for a conversion, wherever it stands.
* `signed_decimal_iff` — `%ld` is right on every other `long`, and `%d`, which fetches an
  `unsigned int`, on every `int` that is not negative.
-/

set_option autoImplicit false

namespace UcasOs
namespace Printf

open Vt100

/-! ## Reading a signed number -/

/-- The text is an optional minus sign and decimal digits, and the number they denote is `n`. -/
def Denotes (text : List UInt8) (n : ℤ) : Prop :=
  (IsNumber text ∧ (decimalValue text : ℤ) = n) ∨
    ∃ ds, text = 45 :: ds ∧ IsNumber ds ∧ -(decimalValue ds : ℤ) = n

theorem not_isNumber_minus (ds : List UInt8) : ¬ IsNumber (45 :: ds) :=
  fun h => absurd (h.2 45 List.mem_cons_self) (by decide)

theorem Denotes.unique {text : List UInt8} {m n : ℤ} (hm : Denotes text m) (hn : Denotes text n) :
    m = n := by
  rcases hm with ⟨hnum, rfl⟩ | ⟨ds, rfl, -, rfl⟩
  · rcases hn with ⟨-, rfl⟩ | ⟨ds, rfl, -, -⟩
    · rfl
    · exact absurd hnum (not_isNumber_minus ds)
  · rcases hn with ⟨hnum, -⟩ | ⟨ds', hds, -, rfl⟩
    · exact absurd hnum (not_isNumber_minus ds)
    · obtain ⟨-, rfl⟩ := List.cons.inj hds
      rfl

theorem decimalValue_zeros (k : ℕ) (ds : List UInt8) :
    decimalValue (List.replicate k 48 ++ ds) = decimalValue ds := by
  induction k with
  | zero => rfl
  | succ k ih => exact ih

theorem isNumber_zeros {ds : List UInt8} (h : IsNumber ds) (k : ℕ) :
    IsNumber (List.replicate k 48 ++ ds) := by
  refine ⟨fun hnil => h.1 (List.append_eq_nil_iff.1 hnil).2, fun d hd => ?_⟩
  rcases List.mem_append.1 hd with hd | hd
  · rw [List.eq_of_mem_replicate hd]
    decide
  · exact h.2 d hd

/-! ## The digits of `%d` -/

theorem digitChar_eq (uppercase : Bool) {d : ℕ} (h : d < 10) :
    digitChar uppercase d = UInt8.ofNat (48 + d) := by
  rw [digitChar, if_pos (by omega)]
  congr 1
  omega

/-- The digits are those that the screen driver's `printv` is modelled with. -/
theorem itoaLoop_eq (n : ℕ) : itoaLoop n = numeral .d n := by
  induction n using Nat.strong_induction_on with
  | _ n ih =>
    rw [itoaLoop, numeral_eq]
    show _ = digitChar false (n % 10 : ℕ) :: if 0 < n / 10 then numeral .d (n / 10) else []
    rw [digitChar_eq false (Nat.mod_lt n (by decide))]
    split
    · rename_i hquot
      rw [if_neg (by omega)]
    · rename_i hquot
      rw [if_pos (by omega), ih (n / 10) (by omega)]

theorem digits_kernel {value : BitVec 64} (h : (absolute false value).toNat < 2 ^ 63) :
    (kernel.digits .d value).reverse = UcasOs.miniItoa (absolute false value).toNat := by
  rw [Copy.digits, UcasOs.miniItoa, itoaLoop_eq]
  exact congrArg _ (backDigits_eq (dividesBelow_kernel .d) 63 _ h
    (Conversion.toNat_lt_pow .d _))

/-- Every value but the least is denoted by what is printed for it. -/
theorem denotes_text {value : BitVec 64} (h : value.toInt ≠ -2 ^ 63) (zeroPad : ℕ) :
    Denotes (kernel.text .d value zeroPad) value.toInt := by
  have hcond := BitVec.toInt_eq_toNat_cond value
  have hword := value.isLt
  rcases Int.lt_or_le value.toInt 0 with hneg | hnonneg
  · have habs : absolute false value = -value := if_pos ((isNegative_iff value).2 hneg)
    have hnat : ((-value).toNat : ℤ) = -value.toInt := by
      rw [BitVec.toNat_neg]
      split at hcond <;> omega
    have hlt : (absolute false value).toNat < 2 ^ 63 := by
      rw [habs]
      split at hcond <;> omega
    have hsign : sign .d value = [45] := if_pos ((isNegative_iff value).2 hneg)
    refine .inr ⟨_, ?_, isNumber_zeros (isNumber_miniItoa (-value).toNat)
      (zeroPad - (kernel.digits .d value).length), ?_⟩
    · rw [Copy.text, hsign, digits_kernel hlt, habs]
      rfl
    · rw [decimalValue_zeros, decimalValue_miniItoa]
      omega
  · have hnot : ¬ isNegative false value = true := by
      rw [isNegative_iff]
      omega
    have habs : absolute false value = value := if_neg hnot
    have hlt : (absolute false value).toNat < 2 ^ 63 := by
      rw [habs]
      split at hcond <;> omega
    have hsign : sign .d value = [] := if_neg hnot
    left
    rw [Copy.text, hsign, digits_kernel hlt, habs, List.nil_append]
    refine ⟨isNumber_zeros (isNumber_miniItoa _) _, ?_⟩
    rw [decimalValue_zeros, decimalValue_miniItoa]
    split at hcond <;> omega

/-- The characters for the least `long` behind the minus sign are no number. -/
theorem not_denotes_least {value : BitVec 64} (h : value.toInt = -2 ^ 63) (zeroPad : ℕ) (n : ℤ) :
    ¬ Denotes (kernel.text .d value zeroPad) n := by
  have hvalue : value = BitVec.ofNat 64 (2 ^ 63) := BitVec.eq_of_toInt_eq (h.trans (by decide))
  have hdigit : 39 ∈ kernel.digits .d value := by
    rw [hvalue]
    decide
  have hsign : sign .d value = [45] := by
    rw [hvalue]
    rfl
  have hmem : ∀ k, 39 ∈ List.replicate k 48 ++ (kernel.digits .d value).reverse := fun k =>
    List.mem_append_right _ (List.mem_reverse.2 hdigit)
  rw [Copy.text, hsign, List.append_assoc, List.singleton_append]
  rintro (⟨hnum, -⟩ | ⟨ds, hds, hnum, -⟩)
  · exact not_isNumber_minus _ hnum
  · obtain ⟨-, rfl⟩ := List.cons.inj hds
    exact absurd (hnum.2 39 (hmem _)) (by decide)

/-! ## One conversion of a format -/

/-- What may stand between the `%` and the conversion: nothing, or a `0` and more digits. -/
def IsPadding (pad : List UInt8) : Prop :=
  pad = [] ∨ ∃ ds, pad = 48 :: ds ∧ ∀ d ∈ ds, IsDigit d

/-- `zero_pad`, which is a `char`. -/
def padWidth (pad : List UInt8) : ℕ := decimalValue pad % 256

theorem padStep (v : ℕ) {d : UInt8} (hd : IsDigit d) :
    UInt8.ofNat v * 10 + d - 48 = UInt8.ofNat (shiftIn v d) := by
  have hlo : 48 ≤ d.toNat := UInt8.le_iff_toNat_le.1 hd.1
  have hword := d.toNat_lt
  rw [shiftIn]
  apply UInt8.toNat_inj.1
  rw [UInt8.toNat_sub, UInt8.toNat_add, UInt8.toNat_mul, UInt8.toNat_ofNat', UInt8.toNat_ofNat']
  show (2 ^ 8 - 48 + (v % 2 ^ 8 * 10 % 2 ^ 8 + d.toNat) % 2 ^ 8) % 2 ^ 8 = _
  omega

theorem padLoop_digits {ch : UInt8} (hch : ¬ IsDigit ch) (rest : List UInt8) :
    ∀ (ds : List UInt8) (v : ℕ), (∀ d ∈ ds, IsDigit d) →
      padLoop (ds ++ ch :: rest) (UInt8.ofNat v)
        = (UInt8.ofNat (ds.foldl shiftIn v), ch, some rest)
  | [], v, _ => if_neg hch
  | d :: ds, v, hds => by
    have hd : IsDigit d := hds d List.mem_cons_self
    rw [List.cons_append, padLoop, if_pos (show 48 ≤ d ∧ d ≤ 57 from hd), padStep v hd,
      List.foldl_cons]
    exact padLoop_digits hch rest ds _ fun e he => hds e (List.mem_cons_of_mem d he)

theorem readPad_eq {pad : List UInt8} (hpad : IsPadding pad) {ch : UInt8} (hch : ¬ IsDigit ch)
    (rest : List UInt8) :
    readPad (some (pad ++ ch :: rest)) = .ok (UInt8.ofNat (decimalValue pad), ch, some rest) := by
  rcases hpad with rfl | ⟨ds, rfl, hds⟩
  · exact if_neg fun h => hch (by rw [h]; decide)
  · exact congrArg Except.ok (padLoop_digits hch rest ds 0 hds)

/-- `%d` behind its padding, with the value that `%d` gives to `mini_itoa`. -/
theorem convert_d {pad : List UInt8} (hpad : IsPadding pad) (rest : List UInt8) (n : BitVec 32)
    (va : List VaArg) :
    convert 37 (some (pad ++ 100 :: rest)) (.int n :: va)
      = .ok (some (.num .d (n.setWidth 64) (UInt8.ofNat (decimalValue pad)), some rest, va)) := by
  rw [convert, if_neg (by decide), readSpec, readPad_eq hpad (by decide) rest]
  rfl

/-- `%ld` behind its padding, which stands before the `l`. -/
theorem convert_ld {pad : List UInt8} (hpad : IsPadding pad) (rest : List UInt8) (n : BitVec 64)
    (va : List VaArg) :
    convert 37 (some (pad ++ 108 :: 100 :: rest)) (.long n :: va)
      = .ok (some (.num .d n (UInt8.ofNat (decimalValue pad)), some rest, va)) := by
  rw [convert, if_neg (by decide), readSpec, readPad_eq hpad (by decide) (100 :: rest)]
  rfl

theorem length_digits_pos (c : Copy) (conv : Conversion) (value : BitVec 64) :
    0 < (c.digits conv value).length := by
  rw [Copy.digits, Copy.backDigits]
  exact Nat.succ_pos _

/-- One turn of the loop prints a number behind what is in the buffer, if both the array and the
buffer have room for it. -/
theorem iteration_conversion {c : Copy} {conv : Conversion} {value : BitVec 64} {pad : List UInt8}
    {fmt rest : List UInt8} {va va' : List VaArg} {b : Buff}
    (hconvert : convert 37 (some fmt) va
      = .ok (some (.num conv value (UInt8.ofNat (decimalValue pad)), some rest, va')))
    (hbf : padWidth pad + (sign conv value).length < 24)
    (hroom : b.text.length + (c.text conv value (padWidth pad)).length < b.bufferLen.toNat) :
    c.iteration (some (37 :: fmt)) va b
      = .ok (some (some rest, va',
          { b with text := b.text ++ c.text conv value (padWidth pad) })) := by
  have hpad : (UInt8.ofNat (decimalValue pad)).toNat = padWidth pad := UInt8.toNat_ofNat'
  have hpos := length_digits_pos c conv value
  have hlength := length_text c conv value (padWidth pad)
  have hholds : b.Holds b.text := (List.take_of_length_le (by omega)).symm
  have hfits : c.Fits (.num conv value (UInt8.ofNat (decimalValue pad))) := by
    rw [Copy.Fits, hpad]
    exact hbf
  have hroom' : b.text.length + 1 < b.bufferLen.toNat := by omega
  have hemit := emit_ok hfits hholds hroom'
  rw [Copy.render, hpad, List.take_of_length_le (by rw [List.length_append]; omega)] at hemit
  rw [Copy.iteration, fetch]
  show (ite ((37 : UInt8) = 0 ∨ _) _ _) = _
  rw [if_neg (by rintro (h | h); exacts [absurd h (by decide), hholds.not_full hroom' h]), hconvert]
  show (c.emit _ b >>= _) = _
  rw [hemit]
  rfl

theorem length_sign_d (value : BitVec 64) :
    (sign .d value).length = if value.toInt < 0 then 1 else 0 := by
  rw [sign]
  show (ite (isNegative false value = true) _ _ : List UInt8).length = _
  split
  · rename_i hneg
    rw [if_pos ((isNegative_iff value).1 hneg)]
    rfl
  · rename_i hneg
    rw [if_neg (mt (isNegative_iff value).2 hneg)]
    rfl

/-- `%d` and `%ld`, at any place of a format and behind any text, with a padding that fits, print
an optional minus sign and decimal digits that read as their argument exactly when the `int` is not
negative, and when the `long` is not the least. -/
theorem signed_decimal_iff {pad : List UInt8} (hpad : IsPadding pad) (rest : List UInt8)
    (va : List VaArg) (b : Buff) :
    (∀ n : BitVec 32, padWidth pad < 24 →
      b.text.length + (kernel.text .d (n.setWidth 64) (padWidth pad)).length < b.bufferLen.toNat →
      ∃ text, kernel.iteration (some (37 :: (pad ++ 100 :: rest))) (.int n :: va) b
          = .ok (some (some rest, va, { b with text := b.text ++ text })) ∧
        (Denotes text n.toInt ↔ 0 ≤ n.toInt)) ∧
    (∀ n : BitVec 64, padWidth pad + (if n.toInt < 0 then 1 else 0) < 24 →
      b.text.length + (kernel.text .d n (padWidth pad)).length < b.bufferLen.toNat →
      ∃ text, kernel.iteration (some (37 :: (pad ++ 108 :: 100 :: rest))) (.long n :: va) b
          = .ok (some (some rest, va, { b with text := b.text ++ text })) ∧
        (Denotes text n.toInt ↔ n.toInt ≠ -2 ^ 63)) := by
  constructor
  · intro n hbf hroom
    have hnat : (n.setWidth 64).toNat = n.toNat := by
      rw [BitVec.toNat_setWidth]
      exact Nat.mod_eq_of_lt (lt_trans n.isLt (by decide))
    have hint : (n.setWidth 64).toInt = n.toNat := by
      rw [toInt_eq_toNat, hnat]
      rw [hnat]
      exact lt_trans n.isLt (by decide)
    have hsign := length_sign_d (n.setWidth 64)
    rw [if_neg (by omega)] at hsign
    refine ⟨_, iteration_conversion (convert_d hpad rest n va) (by omega) hroom, ?_⟩
    have hdenotes : Denotes _ (n.setWidth 64).toInt := denotes_text (by omega) (padWidth pad)
    rw [hint] at hdenotes
    have hcond := BitVec.toInt_eq_toNat_cond n
    constructor
    · intro h
      have heq := h.unique hdenotes
      omega
    · intro h
      have heq : n.toInt = n.toNat := by
        have hword := n.isLt
        split at hcond <;> omega
      rw [heq]
      exact hdenotes
  · intro n hbf hroom
    rw [← length_sign_d] at hbf
    refine ⟨_, iteration_conversion (convert_ld hpad rest n va) hbf hroom, ?_⟩
    exact ⟨fun h hleast => not_denotes_least hleast _ _ h, fun h => denotes_text h _⟩

/-- `"%05d"` with the argument 42. -/
theorem signed_decimal_padded :
    ∃ text, kernel.iteration (some [37, 48, 53, 100]) [.int 42] ⟨[], 256⟩
        = .ok (some (some [], [], ⟨text, 256⟩)) ∧
      (Denotes text (42 : BitVec 32).toInt ↔ 0 ≤ (42 : BitVec 32).toInt) :=
  (signed_decimal_iff
    (.inr ⟨[53], rfl, List.forall_mem_singleton.2 (by decide)⟩ : IsPadding [48, 53]) [] []
    ⟨[], 256⟩).1 42 (by decide) (by decide)

/-- `"%d"` prints -1 as 4294967295. -/
theorem signed_decimal_fails : ¬ ∀ (pad rest : List UInt8) (va : List VaArg) (b : Buff)
    (n : BitVec 32), IsPadding pad → padWidth pad < 24 →
    b.text.length + (kernel.text .d (n.setWidth 64) (padWidth pad)).length < b.bufferLen.toNat →
    ∃ text, kernel.iteration (some (37 :: (pad ++ 100 :: rest))) (.int n :: va) b
        = .ok (some (some rest, va, { b with text := b.text ++ text })) ∧ Denotes text n.toInt := by
  intro hall
  obtain ⟨text, hrun, hdenotes⟩ := hall [] [] [] ⟨[], 256⟩ (-1) (.inl rfl) (by decide) (by decide)
  have hprinted : kernel.iteration (some [37, 100]) [.int (-1)] ⟨[], 256⟩
      = .ok (some (some [], [], ⟨[52, 50, 57, 52, 57, 54, 55, 50, 57, 53], 256⟩)) := by rfl
  have htext : text = [52, 50, 57, 52, 57, 54, 55, 50, 57, 53] := by
    have heq := hprinted.symm.trans hrun
    injection heq with heq
    injection heq with heq
    injection heq with _ heq
    injection heq with _ heq
    injection heq with heq
    exact heq.symm
  rcases hdenotes with ⟨-, hvalue⟩ | ⟨ds, hds, -⟩
  · rw [htext] at hvalue
    exact absurd hvalue (by decide)
  · rw [htext] at hds
    exact absurd (List.cons.inj hds).1 (by decide)

end Printf
end UcasOs
