import UcasOs.Libs.Drift
import UcasOs.Libs.Vprint

/-!
# Reading back what has been printed

A text that is made of labels and numbers in turn, such as the reports of the kernel.

* `valueOf_text` — the value of a number that `%u` or `%x` has printed, zeros in front of it or not.
* `readFields_fields` — **the numbers of a report can be read back**, if what comes behind each
  begins with a character that is no digit.
-/

set_option autoImplicit false

namespace UcasOs
namespace Printf

/-- The characters that `%u` and `%x` print. -/
def IsNumeral (ch : UInt8) : Bool := (48 ≤ ch && ch ≤ 57) || (97 ≤ ch && ch ≤ 102)

/-- The value of such a character. -/
def digitOf (ch : UInt8) : ℕ := if ch ≤ 57 then ch.toNat - 48 else ch.toNat - 87

/-- The value of a string of them. -/
def valueOf (conv : Conversion) (text : List UInt8) : ℕ :=
  text.foldl (fun n ch => n * conv.radix + digitOf ch) 0

theorem digitChar_spec : ∀ d : Fin 16, digitOf (digitChar false (d : ℕ)) = d ∧
    IsNumeral (digitChar false (d : ℕ)) = true := by
  decide

/-- `%u` and `%x` -/
structure Conversion.Unsigned (conv : Conversion) : Prop where
  unsig : conv.unsig = true
  lower : conv.uppercase = false

/-- The digits are those of the number. -/
theorem valueOf_numeral {conv : Conversion} (hconv : conv.Unsigned) (n : ℕ) :
    valueOf conv (numeral conv n).reverse = n ∧
      ∀ ch ∈ numeral conv n, IsNumeral ch = true := by
  rw [valueOf, List.foldl_reverse, numeral, hconv.lower, List.foldr_map]
  rcases eq_or_ne n 0 with rfl | hn
  · rw [if_pos rfl]
    cases conv <;> exact ⟨rfl, fun ch hch => by rw [List.mem_singleton.1 hch]; rfl⟩
  rw [if_neg hn]
  have hlt : ∀ d ∈ Nat.digits conv.radix n, d < 16 := fun d hd =>
    lt_of_lt_of_le (Nat.digits_lt_base conv.two_le_radix hd) conv.radix_le
  refine ⟨?_, fun ch hch => ?_⟩
  · conv_rhs => rw [← Nat.ofDigits_digits conv.radix n]
    generalize Nat.digits conv.radix n = l at hlt
    induction l with
    | nil => rfl
    | cons d l ih =>
      rw [List.forall_mem_cons] at hlt
      rw [List.foldr_cons, ih hlt.2, Nat.ofDigits_cons, (digitChar_spec ⟨d, hlt.1⟩).1]
      exact Nat.add_comm _ _ |>.trans (congrArg _ (Nat.mul_comm _ _))
  · obtain ⟨d, hd, rfl⟩ := List.mem_map.1 hch
    exact (digitChar_spec ⟨d, hlt d hd⟩).2

/-- Zeros in front of a number do not count. -/
theorem valueOf_zeros (conv : Conversion) (k : ℕ) (text : List UInt8) :
    valueOf conv (List.replicate k 48 ++ text) = valueOf conv text := by
  induction k with
  | zero => rfl
  | succ k ih =>
    rw [List.replicate_succ, List.cons_append, valueOf, List.foldl_cons, Nat.zero_mul]
    exact ih

/-- **What is printed has the value of the argument.** -/
theorem valueOf_text {conv : Conversion} (hconv : conv.Unsigned) (value : BitVec 64) (pad : ℕ) :
    valueOf conv (kernel.text conv value pad) = value.toNat ∧
      ∀ ch ∈ kernel.text conv value pad, IsNumeral ch = true := by
  have hneg : isNegative conv.unsig value = false := by
    rw [isNegative, hconv.unsig, Bool.not_true, Bool.and_false]
  have habs : absolute conv.unsig value = value := by rw [absolute, hneg]; rfl
  obtain ⟨hvalue, hchars⟩ := valueOf_numeral hconv value.toNat
  have hsign : sign conv value = [] := by rw [sign, hneg]; rfl
  rw [Copy.text, hsign, List.nil_append, digits_kernel_unsig hconv.unsig, habs, valueOf_zeros]
  refine ⟨hvalue, fun ch hch => ?_⟩
  rcases List.mem_append.1 hch with hch | hch
  · rw [List.eq_of_mem_replicate hch]
    rfl
  · exact hchars ch (List.mem_reverse.1 hch)

/-! ## Reports -/

/-- A number, and what is printed in front of it and behind it. -/
structure Field where
  label : List UInt8
  conv : Conversion
  zeroPad : UInt8
  value : BitVec 64
  tail : List UInt8

namespace Field

def text (f : Field) : List UInt8 :=
  f.label ++ kernel.text f.conv f.value f.zeroPad.toNat ++ f.tail

/-- The number is unsigned, and one can see where it ends. -/
structure Readable (f : Field) : Prop where
  conv : f.conv.Unsigned
  tail : ∃ ch rest, f.tail = ch :: rest ∧ IsNumeral ch = false

/-- What one has to know of a field to read it: how long the labels are, and how the number is
printed. -/
def layout (f : Field) : ℕ × Conversion × ℕ := (f.label.length, f.conv, f.tail.length)

end Field

/-- Read a report. -/
def readFields : List (ℕ × Conversion × ℕ) → List UInt8 → List ℕ
  | [], _ => []
  | (label, conv, tail) :: fields, text =>
    valueOf conv ((text.drop label).takeWhile IsNumeral) ::
      readFields fields (((text.drop label).dropWhile IsNumeral).drop tail)

/-- **The numbers of a report can be read back.** -/
theorem readFields_fields (fields : List Field) (h : ∀ f ∈ fields, f.Readable) :
    readFields (fields.map Field.layout) (fields.flatMap Field.text) =
      fields.map (·.value.toNat) := by
  induction fields with
  | nil => rfl
  | cons f fields ih =>
    rw [List.forall_mem_cons] at h
    obtain ⟨hvalue, hchars⟩ := valueOf_text h.1.conv f.value f.zeroPad.toNat
    obtain ⟨ch, rest, htail, hch⟩ := h.1.tail
    have hstop : ¬ IsNumeral ch = true := by simp [hch]
    rw [List.map_cons, List.flatMap_cons, List.map_cons, Field.text, List.append_assoc,
      List.append_assoc, Field.layout, readFields, List.drop_left,
      List.takeWhile_append_of_pos hchars, List.dropWhile_append_of_pos hchars, htail,
      List.cons_append, List.takeWhile_cons_of_neg hstop, List.dropWhile_cons_of_neg hstop,
      List.append_nil, hvalue, ← List.cons_append, List.drop_left, ih h.2]

end Printf
end UcasOs
