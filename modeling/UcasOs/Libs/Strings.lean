import Mathlib.Data.Int.Order.Basic
import Mathlib.Data.List.Basic

/-!
# `strcmp` and `strncmp`

The two comparison loops of `libs/string.c`; `tiny_libc/string.c` has the same text.  A `char` of
the RISC-V ABI is unsigned, so a character is a byte and the difference of two of them is an `int`
between -255 and 255.

## What is here

* `strcmp`, `strncmp` — the loops, with the addresses they read through each of their pointers.
* `CStr mem p s` — the bytes of `s` and then a `NUL` are at `p`, and `s` has no `NUL` in it.
* `strcmp_eq` — on strings, `strcmp` returns, and its value is that of `charDiff`.
* `strncmpLoop_ret`, `strncmpLoop_reads` — what `strncmp` returns and reads when the strings differ
  or the bound stops it in time.
* `strncmpLoop_reads_past` — `strncmp` does not stop at a `NUL` that both strings have: on equal
  strings it goes on into what follows them.
* `strncmp_iff` — so `strncmp` is the C function exactly when the strings differ or the bound is
  at most one more than their length.
-/

set_option autoImplicit false

namespace UcasOs

/-- What a comparison returned, and the addresses it read through each of its two pointers. -/
structure Compared where
  /-- The `int` it returned. -/
  ret : ℤ
  /-- The addresses read through `str1`. -/
  reads1 : List ℕ
  /-- The addresses read through `str2`. -/
  reads2 : List ℕ

namespace Compared

/-- The comparison that reads `str1` and `str2` and returns the difference of the two characters. -/
def diff (mem : ℕ → UInt8) (str1 str2 : ℕ) : Compared :=
  ⟨(mem str1).toNat - (mem str2).toNat, [str1], [str2]⟩

/-- The comparison that reads `str1` and `str2` and then goes on as `c`. -/
def after (str1 str2 : ℕ) (c : Compared) : Compared :=
  ⟨c.ret, str1 :: c.reads1, str2 :: c.reads2⟩

end Compared

/-- `strcmp(str1, str2)`, for at most `fuel` iterations. -/
def strcmp (mem : ℕ → UInt8) : ℕ → ℕ → ℕ → Option Compared
  | 0, _, _ => none
  | fuel + 1, str1, str2 =>
    if mem str1 ≠ 0 ∧ mem str2 ≠ 0 then
      if mem str1 ≠ mem str2 then some (.diff mem str1 str2)
      else (strcmp mem fuel (str1 + 1) (str2 + 1)).map (.after str1 str2)
    else some (.diff mem str1 str2)

/-- The loop of `strncmp`, at index `i` with `k` iterations to go. -/
def strncmpLoop (mem : ℕ → UInt8) (str1 str2 : ℕ) : ℕ → ℕ → Compared
  | 0, _ => ⟨0, [], []⟩
  | k + 1, i =>
    if mem (str1 + i) ≠ mem (str2 + i) then .diff mem (str1 + i) (str2 + i)
    else .after (str1 + i) (str2 + i) (strncmpLoop mem str1 str2 k (i + 1))

/-- `strncmp(str1, str2, n)` -/
def strncmp (mem : ℕ → UInt8) (str1 str2 n : ℕ) : Compared := strncmpLoop mem str1 str2 n 0

/-- The characters of `s`, none of which is `NUL`, and then a `NUL` are at `p`. -/
def CStr (mem : ℕ → UInt8) : ℕ → List UInt8 → Prop
  | p, [] => mem p = 0
  | p, c :: s => mem p = c ∧ c ≠ 0 ∧ CStr mem (p + 1) s

instance CStr.decidable (mem : ℕ → UInt8) : ∀ p s, Decidable (CStr mem p s)
  | p, [] => inferInstanceAs (Decidable (mem p = 0))
  | p, c :: s =>
    let _ := CStr.decidable mem (p + 1) s
    inferInstanceAs (Decidable (mem p = c ∧ c ≠ 0 ∧ CStr mem (p + 1) s))

/-! ## The difference of two strings -/

/-- The difference of the first two characters in which two strings differ, their `NUL`s included;
zero when they are equal. -/
def charDiff : List UInt8 → List UInt8 → ℤ
  | [], [] => 0
  | [], d :: _ => -d.toNat
  | c :: _, [] => c.toNat
  | c :: s, d :: t => if c ≠ d then c.toNat - d.toNat else charDiff s t

theorem compare_toNat_sub (c d : UInt8) :
    compare ((c.toNat : ℤ) - d.toNat) 0 = compare c d := by
  have hc : compare c d = compareOfLessAndEq c d := rfl
  rw [hc, compareOfLessAndEq]
  rcases Nat.lt_trichotomy c.toNat d.toNat with h | h | h
  · rw [if_pos (UInt8.lt_iff_toNat_lt.2 h), Int.compare_eq_lt]
    omega
  · have hcd : c = d := UInt8.toNat_inj.1 h
    subst hcd
    simp
  · have hlt : ¬ c < d := fun e => by have := UInt8.lt_iff_toNat_lt.1 e; omega
    have hne : c ≠ d := fun e => by rw [e] at h; omega
    rw [if_neg hlt, if_neg hne, Int.compare_eq_gt]
    omega

theorem toNat_pos_of_ne_zero {c : UInt8} (hc : c ≠ 0) : 0 < c.toNat := by
  rcases Nat.eq_zero_or_pos c.toNat with h | h
  · exact absurd (UInt8.toNat_inj.1 (h.trans UInt8.toNat_zero.symm)) hc
  · exact h

variable {mem : ℕ → UInt8} {p q i k n : ℕ} {s t : List UInt8}

/-! ## `strcmp` -/

/-- **`strcmp` on strings** returns the difference of the first two characters that differ. -/
theorem strcmp_eq (hs : CStr mem p s) (ht : CStr mem q t) :
    ∃ c, strcmp mem (min s.length t.length + 1) p q = some c ∧ c.ret = charDiff s t := by
  induction s generalizing p q t with
  | nil =>
    have hp : mem p = 0 := hs
    rw [List.length_nil, Nat.zero_min, strcmp, if_neg (by simp [hp])]
    refine ⟨_, rfl, ?_⟩
    cases t with
    | nil => have hq : mem q = 0 := ht; simp [Compared.diff, charDiff, hp, hq]
    | cons d t => simp [Compared.diff, charDiff, hp, ht.1]
  | cons c s ih =>
    obtain ⟨hp, hc, hs⟩ := hs
    cases t with
    | nil =>
      have hq : mem q = 0 := ht
      rw [List.length_nil, Nat.min_zero, strcmp, if_neg (by simp [hq])]
      exact ⟨_, rfl, by simp [Compared.diff, charDiff, hp, hq]⟩
    | cons d t =>
      obtain ⟨hq, hd, ht⟩ := ht
      rw [List.length_cons, List.length_cons, Nat.add_min_add_right, strcmp, charDiff, hp, hq,
        if_pos ⟨hc, hd⟩]
      rcases eq_or_ne c d with rfl | hcd
      · obtain ⟨r, hr, hret⟩ := ih hs ht
        rw [if_neg (by simp), if_neg (by simp), hr]
        exact ⟨_, rfl, hret⟩
      · rw [if_pos hcd, if_pos hcd]
        exact ⟨_, rfl, by simp [Compared.diff, hp, hq]⟩

/-! ## `strncmp` -/

/-- What `strncmp` returns when the strings differ, or the bound stops it at their `NUL`. -/
theorem strncmpLoop_ret (hs : CStr mem (p + i) s) (ht : CStr mem (q + i) t)
    (hk : s ≠ t ∨ k ≤ s.length + 1) :
    (strncmpLoop mem p q k i).ret = charDiff (s.take k) (t.take k) := by
  induction s generalizing t k i with
  | nil =>
    have hp : mem (p + i) = 0 := hs
    cases k with
    | zero => rfl
    | succ k =>
      cases t with
      | nil =>
        have hq : mem (q + i) = 0 := ht
        obtain rfl : k = 0 := by
          rcases hk with hk | hk
          · exact absurd rfl hk
          · simpa using hk
        rw [strncmpLoop, if_neg (by simp [hp, hq])]
        rfl
      | cons d t =>
        obtain ⟨hq, hd, -⟩ := ht
        rw [strncmpLoop, if_pos (by rw [hp, hq]; exact hd.symm)]
        simp [Compared.diff, charDiff, hp, hq]
  | cons c s ih =>
    obtain ⟨hp, hc, hs⟩ := hs
    cases k with
    | zero => rfl
    | succ k =>
      cases t with
      | nil =>
        have hq : mem (q + i) = 0 := ht
        rw [strncmpLoop, if_pos (by rw [hp, hq]; exact hc)]
        simp [Compared.diff, charDiff, hp, hq]
      | cons d t =>
        obtain ⟨hq, hd, ht⟩ := ht
        rw [strncmpLoop, List.take_succ_cons, List.take_succ_cons, charDiff, hp, hq]
        rcases eq_or_ne c d with rfl | hcd
        · rw [if_neg (by simp), if_neg (by simp)]
          refine ih hs ht ?_
          rcases hk with hk | hk
          · exact Or.inl fun e => hk (by rw [e])
          · exact Or.inr (by simpa using hk)
        · rw [if_pos hcd, if_pos hcd]
          simp [Compared.diff, hp, hq]

/-- In that case `strncmp` reads neither string past its `NUL`. -/
theorem strncmpLoop_reads (hs : CStr mem (p + i) s) (ht : CStr mem (q + i) t)
    (hk : s ≠ t ∨ k ≤ s.length + 1) :
    (∀ a ∈ (strncmpLoop mem p q k i).reads1, a ≤ p + i + s.length) ∧
      ∀ a ∈ (strncmpLoop mem p q k i).reads2, a ≤ q + i + t.length := by
  induction k generalizing s t i with
  | zero => simp [strncmpLoop]
  | succ k ih =>
    by_cases hne : mem (p + i) = mem (q + i)
    · -- the loop goes on, so the strings have a character in common here, or end here both
      have hrest : (∀ a ∈ (strncmpLoop mem p q k (i + 1)).reads1, a ≤ p + i + s.length) ∧
          ∀ a ∈ (strncmpLoop mem p q k (i + 1)).reads2, a ≤ q + i + t.length := by
        cases s with
        | nil =>
          have hp : mem (p + i) = 0 := hs
          cases t with
          | nil =>
            obtain rfl : k = 0 := by
              rcases hk with hk | hk
              · exact absurd rfl hk
              · simpa using hk
            simp [strncmpLoop]
          | cons d t => exact absurd (hne.symm.trans hp) (by rw [ht.1]; exact ht.2.1)
        | cons c s =>
          cases t with
          | nil => exact absurd (hne.trans ht) (by rw [hs.1]; exact hs.2.1)
          | cons d t =>
            obtain rfl : c = d := hs.1.symm.trans (hne.trans ht.1)
            have hk' : s ≠ t ∨ k ≤ s.length + 1 := by
              rcases hk with hk | hk
              · exact Or.inl fun e => hk (by rw [e])
              · exact Or.inr (by simpa using hk)
            obtain ⟨h1, h2⟩ := ih (i := i + 1) hs.2.2 ht.2.2 hk'
            rw [List.length_cons, List.length_cons]
            exact ⟨fun a ha => by have := h1 a ha; omega, fun a ha => by have := h2 a ha; omega⟩
      rw [strncmpLoop, if_neg (by simp [hne])]
      simp only [Compared.after, List.mem_cons, forall_eq_or_imp]
      exact ⟨⟨by omega, hrest.1⟩, by omega, hrest.2⟩
    · rw [strncmpLoop, if_pos hne]
      simp [Compared.diff]

/-- **`strncmp` does not stop at a `NUL`**: on equal strings, a bound that allows for one more
character makes it read the byte after the `NUL`. -/
theorem strncmpLoop_reads_past (hs : CStr mem (p + i) s) (ht : CStr mem (q + i) s)
    (hk : s.length + 1 < k) : p + i + s.length + 1 ∈ (strncmpLoop mem p q k i).reads1 := by
  induction s generalizing k i with
  | nil =>
    have hp : mem (p + i) = 0 := hs
    have hq : mem (q + i) = 0 := ht
    obtain ⟨k, rfl⟩ : ∃ k', k = k' + 2 := ⟨k - 2, by simp at hk; omega⟩
    rw [strncmpLoop, if_neg (by simp [hp, hq])]
    refine List.mem_cons_of_mem _ ?_
    rw [strncmpLoop]
    split
    · simp [Compared.diff, Nat.add_assoc]
    · simp [Compared.after, Nat.add_assoc]
  | cons c s ih =>
    obtain ⟨k, rfl⟩ : ∃ k', k = k' + 1 := ⟨k - 1, by omega⟩
    rw [strncmpLoop, if_neg (by rw [hs.1, ht.1]; simp)]
    refine List.mem_cons_of_mem _ ?_
    have h1 := ih (i := i + 1) hs.2.2 ht.2.2 (by simpa using hk)
    have h2 : p + (i + 1) + s.length + 1 = p + i + (c :: s).length + 1 := by
      rw [List.length_cons]; omega
    rwa [h2] at h1

/-- The characters of a string are not `NUL`. -/
theorem CStr.ne_zero (hs : CStr mem p s) : ∀ c ∈ s, c ≠ 0 := by
  induction s generalizing p with
  | nil => simp
  | cons c s ih =>
    intro d hd
    rcases List.mem_cons.1 hd with rfl | hd
    · exact hs.2.1
    · exact ih hs.2.2 d hd

/-- The sign of the difference of two strings is their lexicographic order. -/
theorem compare_charDiff (hs : ∀ c ∈ s, c ≠ 0) (ht : ∀ c ∈ t, c ≠ 0) :
    compare (charDiff s t) 0 = compare s t := by
  induction s generalizing t with
  | nil =>
    cases t with
    | nil => rfl
    | cons d t =>
      have hd := toNat_pos_of_ne_zero (ht d List.mem_cons_self)
      rw [List.compare_nil_cons, charDiff, Int.compare_eq_lt]
      omega
  | cons c s ih =>
    cases t with
    | nil =>
      have hc := toNat_pos_of_ne_zero (hs c List.mem_cons_self)
      rw [List.compare_cons_nil, charDiff, Int.compare_eq_gt]
      omega
    | cons d t =>
      rw [List.compare_cons_cons, charDiff]
      rcases eq_or_ne c d with rfl | hcd
      · rw [if_neg (by simp), Std.compare_self, Ordering.then]
        exact ih (fun a ha => hs a (List.mem_cons_of_mem _ ha))
          fun a ha => ht a (List.mem_cons_of_mem _ ha)
      · rw [if_pos hcd, compare_toNat_sub]
        cases hcmp : compare c d with
        | eq => exact absurd (Std.LawfulEqCmp.eq_of_compare hcmp) hcd
        | lt => rfl
        | gt => rfl

/-- **When `strncmp` is the C function.**  It reads neither string past its `NUL`, has the sign of
the lexicographic comparison of the strings cut at `n` characters, is zero exactly when these are
equal, and agrees with `strcmp` when `n` is more than both lengths: all of this exactly when the
strings differ or `n` is at most one more than their length. -/
theorem strncmp_iff (hs : CStr mem p s) (ht : CStr mem q t) (n : ℕ) :
    ((∀ a ∈ (strncmp mem p q n).reads1, a ≤ p + s.length) ∧
      (∀ a ∈ (strncmp mem p q n).reads2, a ≤ q + t.length) ∧
      compare (strncmp mem p q n).ret 0 = compare (s.take n) (t.take n) ∧
      ((strncmp mem p q n).ret = 0 ↔ s.take n = t.take n) ∧
      (s.length < n → t.length < n → ∃ fuel c, strcmp mem fuel p q = some c ∧
        c.ret = (strncmp mem p q n).ret)) ↔
    s ≠ t ∨ n ≤ s.length + 1 := by
  constructor
  · rintro ⟨hread, -⟩
    by_contra hcond
    obtain ⟨hst, hn⟩ := not_or.1 hcond
    obtain rfl := not_not.1 hst
    rw [Nat.not_le] at hn
    have h1 := hread _ (strncmpLoop_reads_past (i := 0) hs ht hn)
    omega
  · intro hn
    have hret : (strncmp mem p q n).ret = charDiff (s.take n) (t.take n) :=
      strncmpLoop_ret (i := 0) hs ht hn
    have hreads := strncmpLoop_reads (i := 0) hs ht hn
    have hcmp : compare (strncmp mem p q n).ret 0 = compare (s.take n) (t.take n) := by
      rw [hret]
      exact compare_charDiff (fun c hc => hs.ne_zero c (List.mem_of_mem_take hc))
        fun c hc => ht.ne_zero c (List.mem_of_mem_take hc)
    refine ⟨hreads.1, hreads.2, hcmp, ?_, fun hsn htn => ?_⟩
    · rw [← Int.compare_eq_eq, hcmp, Std.LawfulEqCmp.compare_eq_iff_eq]
    · obtain ⟨c, hc, hcret⟩ := strcmp_eq hs ht
      refine ⟨_, c, hc, ?_⟩
      rw [hcret, hret, List.take_of_length_le (Nat.le_of_lt hsn),
        List.take_of_length_le (Nat.le_of_lt htn)]

/-- A memory that holds the bytes of `bytes` from address 0 on. -/
def memOf (bytes : List UInt8) (a : ℕ) : UInt8 := bytes.getD a 0

/-- The strings `ab` and `ac`, compared up to five characters: they differ, so all is well. -/
theorem strncmp_iff_differ :
    compare (strncmp (memOf [97, 98, 0, 97, 99, 0]) 0 3 5).ret 0 =
      compare ([97, 98].take 5 : List UInt8) ([97, 99].take 5) :=
  have hs : CStr (memOf [97, 98, 0, 97, 99, 0]) 0 [97, 98] := by decide
  have ht : CStr (memOf [97, 98, 0, 97, 99, 0]) 3 [97, 99] := by decide
  ((strncmp_iff hs ht 5).2 (Or.inl (by decide))).2.2.1

/-- The string `a` twice, followed once by `b` and once by `c`: compared up to three characters the
two are told apart by what follows them. -/
theorem strncmp_past_nul_fails :
    CStr (memOf [97, 0, 98, 97, 0, 99]) 0 [97] ∧ CStr (memOf [97, 0, 98, 97, 0, 99]) 3 [97] ∧
      (strncmp (memOf [97, 0, 98, 97, 0, 99]) 0 3 3).ret = -1 ∧
      (strncmp (memOf [97, 0, 98, 97, 0, 99]) 0 3 3).reads1 = [0, 1, 2] ∧
      compare ([97].take 3 : List UInt8) ([97].take 3) = .eq := by
  decide

end UcasOs
