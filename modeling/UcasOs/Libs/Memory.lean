import UcasOs.Lib.Bytes
import UcasOs.Libs.Strings
import Mathlib.Algebra.Order.Group.Nat

/-!
# The functions of `string.c` that store

`libs/string.c`, and `tiny_libc/string.c` with the same text: `memcpy`, `strcpy`, `strcat` and
`strncpy`, on a memory of bytes.  All of them go forward, one byte at a time, and read from the
memory that they write to; so where source and destination overlap, they read what they have
written.

## What is here

* `memcpy_eq` — what `memcpy` leaves, everywhere and for any two regions: behind its source it
  repeats the bytes in between.
* `memcpy_iff` — **`memcpy` copies unless its destination begins inside the source, and then exactly
  if the source repeats itself at that distance**.
* `strcpy_eq_some`, `strcpy_eq_none` — `strcpy` copies, or it destroys the `NUL` it is looking for
  and does not return.
* `strcat_iff` — **the same for `strcat`**.
* `strncpyAt_bytes` — **`strncpy` fills exactly `n` bytes**, as the one of the host does.
-/

set_option autoImplicit false

namespace UcasOs

/-! ## `memcpy` -/

theorem succ_mod {j d : ℕ} (hd : 0 < d) :
    (j + 1) % d = if j % d + 1 = d then 0 else j % d + 1 := by
  have hlt := Nat.mod_lt j hd
  rw [← Nat.mod_add_mod]
  split
  · rename_i h
    rw [h, Nat.mod_self]
  · exact Nat.mod_eq_of_lt (by omega)

/-- **What `memcpy` leaves.**  If the destination begins inside the source, the bytes from the one
to the other are repeated. -/
theorem memcpy_eq (len : ℕ) : ∀ (dest src : ℕ) (m : ℕ → UInt8) (a : ℕ),
    memcpy dest src len m a =
      if dest ≤ a ∧ a < dest + len then
        m (src + if src < dest then (a - dest) % (dest - src) else a - dest)
      else m a := by
  induction len with
  | zero =>
    intro dest src m a
    rw [memcpy, if_neg (by omega)]
  | succ len ih =>
    intro dest src m a
    rw [memcpy, ih]
    rcases Nat.lt_trichotomy a dest with ha | rfl | ha
    · rw [if_neg (by omega), if_neg (by omega), Function.update_of_ne (by omega)]
    · rw [if_neg (by omega), if_pos (by omega), Function.update_self, Nat.sub_self, Nat.zero_mod,
        ite_self, Nat.add_zero]
    · obtain ⟨j, rfl⟩ : ∃ j, a = dest + (j + 1) := ⟨a - dest - 1, by omega⟩
      have hj : dest + (j + 1) - (dest + 1) = j := by omega
      have hj' : dest + (j + 1) - dest = j + 1 := by omega
      have hd : dest + 1 - (src + 1) = dest - src := by omega
      have hiff : (dest + 1 ≤ dest + (j + 1) ∧ dest + (j + 1) < dest + 1 + len) ↔
          dest ≤ dest + (j + 1) ∧ dest + (j + 1) < dest + (len + 1) := by omega
      have hne : dest + (j + 1) ≠ dest := by omega
      rw [hj, hj', hd, if_congr hiff rfl rfl, Function.update_of_ne hne]
      refine if_congr Iff.rfl ?_ rfl
      rcases Nat.lt_or_ge src dest with hlt | hge
      · have hr := Nat.mod_lt j (show 0 < dest - src by omega)
        rw [if_pos (Nat.add_lt_add_right hlt 1), if_pos hlt, succ_mod (by omega)]
        split
        · rename_i hlast
          rw [show src + 1 + j % (dest - src) = dest by omega, Function.update_self, Nat.add_zero]
        · rename_i hmore
          rw [Function.update_of_ne (by omega), Nat.add_assoc, Nat.add_comm 1]
      · rw [if_neg (by omega : ¬ src + 1 < dest + 1), if_neg (Nat.not_lt.2 hge),
          Function.update_of_ne (by omega), Nat.add_assoc, Nat.add_comm 1]

/-- **When `memcpy` copies**: it writes nowhere else, and the destination holds what the source held
exactly if it does not begin inside the source, or the source repeats itself at that distance. -/
theorem memcpy_iff (dest src len : ℕ) (m : ℕ → UInt8) :
    (∀ a, ¬ (dest ≤ a ∧ a < dest + len) → memcpy dest src len m a = m a) ∧
    ((∀ k < len, memcpy dest src len m (dest + k) = m (src + k)) ↔
      dest ≤ src ∨ ∀ k, k + (dest - src) < len → m (src + (k + (dest - src))) = m (src + k)) := by
  refine ⟨fun a ha => by rw [memcpy_eq, if_neg ha], ?_⟩
  have hcopy : ∀ k < len, memcpy dest src len m (dest + k) =
      m (src + if src < dest then k % (dest - src) else k) := fun k hk => by
    rw [memcpy_eq, if_pos (by omega), Nat.add_sub_cancel_left]
  rcases Nat.lt_or_ge src dest with hlt | hge
  · simp only [if_pos hlt] at hcopy
    rw [or_iff_right (Nat.not_le.2 hlt)]
    constructor
    · intro h k hk
      have h1 := h (k + (dest - src)) hk
      have h2 := h k (by omega)
      rw [hcopy _ hk, Nat.add_mod_right] at h1
      rw [hcopy _ (by omega)] at h2
      rw [← h1, h2]
    · intro h k
      -- by the period, from the bytes in front of the destination on
      induction k using Nat.strong_induction_on with
      | _ k ih =>
        intro hk
        rw [hcopy k hk]
        rcases Nat.lt_or_ge k (dest - src) with hfirst | hlater
        · rw [Nat.mod_eq_of_lt hfirst]
        · have hprev := ih (k - (dest - src)) (by omega) (by omega)
          have hstep := h (k - (dest - src)) (by omega)
          rw [hcopy _ (by omega), ← Nat.mod_eq_sub_mod hlater] at hprev
          rw [hprev, ← hstep, Nat.sub_add_cancel hlater]
  · simp only [if_neg (Nat.not_lt.2 hge)] at hcopy
    exact iff_of_true hcopy (Or.inl hge)

/-! ## `strcpy` -/

/-- `strcpy(dest, src)`, for at most `fuel` turns of its loop: the memory it leaves. -/
def strcpy : ℕ → ℕ → ℕ → (ℕ → UInt8) → Option (ℕ → UInt8)
  | 0, _, _, _ => none
  | fuel + 1, dest, src, m =>
    if m src ≠ 0 then strcpy fuel (dest + 1) (src + 1) (Function.update m dest (m src))
    else some (Function.update m dest 0)

section

variable {m m' : ℕ → UInt8} {dest src p : ℕ} {s t : List UInt8}

/-- A string is there as long as its bytes are. -/
theorem CStr.congr : ∀ {p : ℕ} {s : List UInt8}, CStr m p s →
    (∀ a, p ≤ a → a ≤ p + s.length → m' a = m a) → CStr m' p s
  | p, [], h, hm => (hm p le_rfl le_rfl).trans h
  | p, c :: s, ⟨hc, hne, h⟩, hm => by
    rw [List.length_cons] at hm
    exact ⟨(hm p le_rfl (by omega)).trans hc, hne,
      h.congr fun a h1 h2 => hm a (by omega) (by omega)⟩

/-- Two strings, one behind the other. -/
theorem CStr.append : ∀ {p : ℕ} {s : List UInt8}, CStr m p s →
    (∀ a, p ≤ a → a < p + s.length → m' a = m a) → CStr m' (p + s.length) t → CStr m' p (s ++ t)
  | _, [], _, _, ht => ht
  | p, c :: s, ⟨hc, hne, hs⟩, hm, ht => by
    rw [List.length_cons] at hm ht
    refine ⟨(hm p le_rfl (by omega)).trans hc, hne,
      hs.append (fun a h1 h2 => hm a (by omega) (by omega)) ?_⟩
    rwa [Nat.add_assoc, Nat.add_comm 1]

theorem CStr.byte_ne_zero : ∀ {p : ℕ} {s : List UInt8}, CStr m p s → ∀ a, p ≤ a →
    a < p + s.length → m a ≠ 0
  | _, [], _, a, h1, h2 => absurd h2 (Nat.not_lt.2 h1)
  | p, c :: s, ⟨hc, hne, hs⟩, a, h1, h2 => by
    rw [List.length_cons] at h2
    rcases Nat.eq_or_lt_of_le h1 with rfl | hlt
    · rwa [hc]
    · exact hs.byte_ne_zero a hlt (by omega)

/-- More turns than it needs change nothing. -/
theorem strcpy_mono : ∀ {fuel dest src : ℕ} {m m' : ℕ → UInt8},
    strcpy fuel dest src m = some m' → ∀ k, strcpy (fuel + k) dest src m = some m'
  | fuel + 1, dest, src, m, m', h, k => by
    rw [Nat.add_right_comm, strcpy]
    rw [strcpy] at h
    split
    · rename_i hne
      rw [if_pos hne] at h
      exact strcpy_mono h k
    · rename_i hne
      rwa [if_neg hne] at h

/-- **`strcpy` copies**, if the destination does not begin inside the string behind its start. -/
theorem strcpy_eq_some : ∀ (fuel : ℕ) {s : List UInt8} {dest src : ℕ} {m : ℕ → UInt8},
    CStr m src s → dest ≤ src ∨ src + s.length < dest → s.length < fuel →
    ∃ m', strcpy fuel dest src m = some m' ∧ CStr m' dest s ∧
      ∀ a, ¬ (dest ≤ a ∧ a ≤ dest + s.length) → m' a = m a
  | 0, _, _, _, _, _, _, hfuel => absurd hfuel (Nat.not_lt_zero _)
  | fuel + 1, [], dest, src, m, hs, _, _ => by
    refine ⟨_, if_neg (not_not.2 hs), Function.update_self .., fun a ha => ?_⟩
    rw [List.length_nil] at ha
    exact Function.update_of_ne (by omega) ..
  | fuel + 1, c :: s, dest, src, m, ⟨hc, hne, hs⟩, hapart, hfuel => by
    rw [List.length_cons] at hapart hfuel
    have hs' : CStr (Function.update m dest c) (src + 1) s :=
      hs.congr fun a h1 h2 => Function.update_of_ne (by omega) ..
    have hapart' : dest + 1 ≤ src + 1 ∨ src + 1 + s.length < dest + 1 := by omega
    obtain ⟨m', hm', hcopy, hframe⟩ := strcpy_eq_some fuel hs' hapart' (by omega)
    refine ⟨m', ?_, ⟨?_, hne, hcopy⟩, fun a ha => ?_⟩
    · rw [strcpy, if_pos (by rwa [hc]), hc, hm']
    · rw [hframe dest (by omega), Function.update_self]
    · rw [List.length_cons] at ha
      rw [hframe a (by omega), Function.update_of_ne (by omega)]

/-- **`strcpy` does not return**, if all bytes from the source to a destination behind it are
characters: it goes on reading what it has written. -/
theorem strcpy_eq_none : ∀ (fuel : ℕ) {dest src : ℕ} {m : ℕ → UInt8}, src < dest →
    (∀ a, src ≤ a → a < dest → m a ≠ 0) → strcpy fuel dest src m = none
  | 0, _, _, _, _, _ => rfl
  | fuel + 1, dest, src, m, hlt, h => by
    rw [strcpy, if_pos (h src le_rfl hlt)]
    refine strcpy_eq_none fuel (by omega) fun a h1 h2 => ?_
    rcases eq_or_ne a dest with rfl | hne
    · rw [Function.update_self]
      exact h src le_rfl hlt
    · rw [Function.update_of_ne hne]
      exact h a (by omega) (by omega)

/-! ## `strcat` -/

/-- The first loop of `strcat`: where the string at `p` ends. -/
def stringEnd (m : ℕ → UInt8) : ℕ → ℕ → Option ℕ
  | 0, _ => none
  | fuel + 1, p => if m p ≠ 0 then stringEnd m fuel (p + 1) else some p

/-- `strcat(dest, src)`, for at most `fuel` turns of each of its loops.  The second one is that of
`strcpy`. -/
def strcat (fuel dest src : ℕ) (m : ℕ → UInt8) : Option (ℕ → UInt8) :=
  (stringEnd m fuel dest).bind fun dest => strcpy fuel dest src m

theorem stringEnd_eq : ∀ {s : List UInt8} {p fuel : ℕ}, CStr m p s →
    stringEnd m fuel p = if s.length < fuel then some (p + s.length) else none
  | s, _, 0, _ => (if_neg (Nat.not_lt_zero s.length)).symm
  | [], p, fuel + 1, h => by
    have h0 : m p = 0 := h
    rw [stringEnd, if_neg (not_not.2 h0)]
    exact (if_pos (Nat.zero_lt_succ fuel)).symm
  | c :: s, p, fuel + 1, ⟨hc, hne, h⟩ => by
    rw [stringEnd, if_pos (by rwa [hc]), stringEnd_eq h, List.length_cons, Nat.add_right_comm]
    exact if_congr (Nat.succ_lt_succ_iff).symm rfl rfl

/-- **When `strcat` appends**: it returns exactly if the string that it reads does not end where it
writes or behind that; then the two strings are one, and nothing else is written. -/
theorem strcat_iff (hs : CStr m dest s) (ht : CStr m src t) :
    ((∃ fuel m', strcat fuel dest src m = some m') ↔
      dest + s.length ≤ src ∨ src + t.length < dest + s.length) ∧
    ∀ fuel m', strcat fuel dest src m = some m' → CStr m' dest (s ++ t) ∧
      ∀ a, ¬ (dest + s.length ≤ a ∧ a ≤ dest + s.length + t.length) → m' a = m a := by
  have happart : ∀ {fuel m'}, strcat fuel dest src m = some m' →
      dest + s.length ≤ src ∨ src + t.length < dest + s.length := fun {fuel m'} h => by
    by_contra hover
    rw [strcat, stringEnd_eq hs] at h
    split at h
    · rw [Option.bind_some, strcpy_eq_none fuel (by omega)
        fun a h1 h2 => ht.byte_ne_zero a h1 (by omega)] at h
      cases h
    · cases h
  refine ⟨⟨fun ⟨_, _, h⟩ => happart h, fun h => ?_⟩, fun fuel m' h => ?_⟩
  · obtain ⟨m', hm', -⟩ := strcpy_eq_some (s.length + t.length + 1) ht h (by omega)
    refine ⟨s.length + t.length + 1, m', ?_⟩
    rw [strcat, stringEnd_eq hs, if_pos (by omega), Option.bind_some, hm']
  · have hcond := happart h
    rw [strcat, stringEnd_eq hs] at h
    split at h
    · obtain ⟨m'', hm'', hcopy, hframe⟩ :=
        strcpy_eq_some (fuel + (t.length + 1)) ht hcond (by omega)
      obtain rfl : m'' = m' := Option.some.inj (hm''.symm.trans (strcpy_mono h _))
      exact ⟨hs.append (fun a _ h2 => hframe a (by omega)) hcopy, hframe⟩
    · cases h

/-- `"a"` behind `"b"`, and a string behind itself. -/
theorem strcat_iff_two_strings :
    ((∃ fuel m', strcat fuel 0 2 (memOf [98, 0, 97, 0]) = some m') ↔ 0 + 1 ≤ 2 ∨ 2 + 1 < 0 + 1) ∧
    ((∃ fuel m', strcat fuel 0 0 (memOf [98, 0]) = some m') ↔ 0 + 1 ≤ 0 ∨ 0 + 1 < 0 + 1) :=
  ⟨(strcat_iff (s := [98]) (t := [97]) (by decide) (by decide)).1,
    (strcat_iff (s := [98]) (t := [98]) (by decide) (by decide)).1⟩

/-! ## `strncpy` -/

/-- The first loop of `strncpy`, when `n` is not negative: where it leaves `dest`, what it leaves of
`n`, which it does not count down at the `NUL`, and the memory. -/
def strncpyCopy : ℕ → ℕ → ℕ → (ℕ → UInt8) → ℕ × ℤ × (ℕ → UInt8)
  | 0, dest, src, m => (dest, if m src ≠ 0 then -1 else 0, m)
  | n + 1, dest, src, m =>
    if m src ≠ 0 then strncpyCopy n (dest + 1) (src + 1) (Function.update m dest (m src))
    else (dest, n + 1, m)

/-- The second loop of `strncpy`. -/
def strncpyPad : ℕ → ℕ → (ℕ → UInt8) → ℕ → UInt8
  | 0, _, m => m
  | n + 1, dest, m => strncpyPad n (dest + 1) (Function.update m dest 0)

/-- `strncpy(dest, src, n)` -/
def strncpyAt (dest src : ℕ) (n : ℤ) (m : ℕ → UInt8) : ℕ → UInt8 :=
  let (dest, n, m) := strncpyCopy n.toNat dest src m
  strncpyPad n.toNat dest m

theorem strncpyPad_apply : ∀ (n dest : ℕ) (m : ℕ → UInt8) (a : ℕ),
    strncpyPad n dest m a = if dest ≤ a ∧ a < dest + n then 0 else m a
  | 0, dest, m, a => (if_neg (by omega)).symm
  | n + 1, dest, m, a => by
    rw [strncpyPad, strncpyPad_apply n]
    rcases eq_or_ne a dest with rfl | hne
    · rw [Function.update_self, ite_self, if_pos (by omega)]
    · rw [Function.update_of_ne hne]
      exact if_congr (by omega) rfl rfl

theorem strncpyAt_zero : strncpyAt dest src (0 : ℕ) m = m := by
  change strncpyPad (if m src ≠ 0 then (-1 : ℤ) else 0).toNat dest m = m
  split <;> rfl

theorem strncpyAt_nul {n : ℕ} (h : m src = 0) :
    strncpyAt dest src (n + 1 : ℕ) m = strncpyPad (n + 1) dest m := by
  rw [strncpyAt, Int.toNat_natCast, strncpyCopy, if_neg (not_not.2 h)]
  rfl

theorem strncpyAt_succ {n : ℕ} (h : m src ≠ 0) : strncpyAt dest src (n + 1 : ℕ) m =
    strncpyAt (dest + 1) (src + 1) n (Function.update m dest (m src)) := by
  rw [strncpyAt, strncpyAt, Int.toNat_natCast, Int.toNat_natCast, strncpyCopy, if_pos h]

/-- Byte by byte, `strncpy` stores the string and then zeros. -/
theorem strncpyAt_apply : ∀ (n : ℕ) {s : List UInt8} {dest src : ℕ} {m : ℕ → UInt8}, CStr m src s →
    dest ≤ src ∨ src + s.length < dest → ∀ a, strncpyAt dest src n m a =
      if dest ≤ a ∧ a < dest + n then s.getD (a - dest) 0 else m a
  | 0, s, dest, src, m, _, _, a => by
    rw [strncpyAt_zero, if_neg (by omega)]
  | n + 1, [], dest, src, m, hs, _, a => by
    rw [strncpyAt_nul hs, strncpyPad_apply, List.getD_nil]
  | n + 1, c :: s, dest, src, m, ⟨hc, hne, hs⟩, hapart, a => by
    rw [List.length_cons] at hapart
    have hs' : CStr (Function.update m dest c) (src + 1) s :=
      hs.congr fun a h1 h2 => Function.update_of_ne (by omega) ..
    rw [strncpyAt_succ (by rwa [hc]), hc, strncpyAt_apply n hs' (by omega)]
    rcases Nat.lt_trichotomy a dest with ha | rfl | ha
    · rw [if_neg (by omega), if_neg (by omega), Function.update_of_ne (by omega)]
    · rw [if_neg (by omega), if_pos (by omega), Function.update_self, Nat.sub_self,
        List.getD_cons_zero]
    · have hsub : a - dest = a - (dest + 1) + 1 := by omega
      rw [Function.update_of_ne (by omega), hsub, List.getD_cons_succ]
      exact if_congr (by omega) rfl rfl

/-- **`strncpy` fills exactly `n` bytes**, with what the `strncpy` of the host puts into the image:
the string, cut where there is no room for it, or zeros behind it.  The destination must not begin
inside the string, behind its first byte. -/
theorem strncpyAt_bytes (hs : CStr m src s) (hapart : dest ≤ src ∨ src + s.length < dest) (n : ℕ) :
    (List.range n).map (fun k => strncpyAt dest src n m (dest + k)) = strncpy n s ∧
      ∀ a, ¬ (dest ≤ a ∧ a < dest + n) → strncpyAt dest src n m a = m a := by
  refine ⟨?_, fun a ha => ?_⟩
  · rw [strncpy]
    refine List.ext_getElem (by simp) fun k h1 h2 => ?_
    rw [List.length_map, List.length_range] at h1
    rw [List.getElem_map, List.getElem_range, strncpyAt_apply n hs hapart, if_pos (by omega),
      Nat.add_sub_cancel_left, List.getElem_take, List.getD_eq_getElem?_getD]
    rcases Nat.lt_or_ge k s.length with hk | hk
    · rw [List.getElem_append_left hk, List.getElem?_eq_getElem hk, Option.getD_some]
    · rw [List.getElem_append_right hk, List.getElem_replicate, List.getElem?_eq_none hk,
        Option.getD_none]
  · rw [strncpyAt_apply n hs hapart, if_neg ha]

/-- A string of two characters, with room for one and for four. -/
theorem strncpyAt_bytes_two_strings :
    (List.range 1).map (fun k => strncpyAt 8 0 1 (memOf [98, 97, 0]) (8 + k)) = [98] ∧
    (List.range 4).map (fun k => strncpyAt 8 0 4 (memOf [98, 97, 0]) (8 + k)) = [98, 97, 0, 0] :=
  ⟨(strncpyAt_bytes (s := [98, 97]) (by decide) (by decide) 1).1,
    (strncpyAt_bytes (s := [98, 97]) (by decide) (by decide) 4).1⟩

end

end UcasOs
