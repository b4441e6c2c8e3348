import Mathlib.Algebra.Group.Nat.Defs
import Mathlib.Data.List.Basic
import Mathlib.Logic.Function.Basic

/-!
# Bytes

What programs that deal with files and memory do with bytes, whatever the files are.

* `leBytes`, `ofLeBytes` — little-endian numbers.
* `cString`, `strncpy` — the string an array of characters holds, and the array a string is put in.
* `overwrite` — writing in the middle of a file.
* `memcpy` — the copy loop, and `memcpy_apply`: between regions that do not overlap it copies.
* `storeLe`, `loadLe` — numbers in memory; what is stored can be read back until something is stored
  over it.
-/

set_option autoImplicit false

/-! ## Little-endian numbers -/

/-- The `n` low bytes of `v`, the least significant first. -/
def leBytes : ℕ → ℕ → List UInt8
  | 0, _ => []
  | n + 1, v => UInt8.ofNat v :: leBytes n (v / 256)

/-- The number that the bytes are, the least significant first. -/
def ofLeBytes : List UInt8 → ℕ
  | [] => 0
  | b :: bs => b.toNat + 256 * ofLeBytes bs

@[simp] theorem length_leBytes (n v : ℕ) : (leBytes n v).length = n := by
  induction n generalizing v with
  | zero => rfl
  | succ n ih => rw [leBytes, List.length_cons, ih]

theorem ofLeBytes_leBytes (n v : ℕ) : ofLeBytes (leBytes n v) = v % 256 ^ n := by
  induction n generalizing v with
  | zero => rw [leBytes, ofLeBytes, Nat.pow_zero, Nat.mod_one]
  | succ n ih =>
    have hb : (UInt8.ofNat v).toNat = v % 256 := UInt8.toNat_ofNat'
    rw [leBytes, ofLeBytes, ih, hb, Nat.pow_succ', Nat.mod_mul]

/-! ## Strings -/

/-- The string in an array of characters: what comes before the first `NUL`. -/
def cString (chars : List UInt8) : List UInt8 := chars.takeWhile (· ≠ 0)

/-- `strncpy` into an array of `n` characters. -/
def strncpy (n : ℕ) (s : List UInt8) : List UInt8 := (s ++ List.replicate n 0).take n

@[simp] theorem length_strncpy (n : ℕ) (s : List UInt8) : (strncpy n s).length = n := by
  rw [strncpy, List.length_take, List.length_append, List.length_replicate]
  omega

/-- A string that leaves room for its `NUL` can be read back, whatever follows the array. -/
theorem cString_strncpy {n : ℕ} {s : List UInt8} (hs : (0 : UInt8) ∉ s) (hn : s.length < n)
    (rest : List UInt8) : cString (strncpy n s ++ rest) = s := by
  have htake : strncpy n s = s ++ 0 :: List.replicate (n - s.length - 1) 0 := by
    have hlen : min (n - s.length) n = n - s.length - 1 + 1 := by omega
    rw [strncpy, List.take_append, List.take_of_length_le (Nat.le_of_lt hn), List.take_replicate, hlen,
      List.replicate_succ]
  rw [htake, cString, List.append_assoc, List.takeWhile_append_of_pos, List.cons_append,
    List.takeWhile_cons_of_neg (by simp), List.append_nil]
  intro c hc
  simpa using fun e : c = 0 => hs (e ▸ hc)

/-! ## Files -/

/-- Write `data` at position `pos` of a file; a gap is filled with zeros. -/
def overwrite (pos : ℕ) (data file : List UInt8) : List UInt8 :=
  file.take pos ++ List.replicate (pos - file.length) 0 ++ data ++ file.drop (pos + data.length)

/-- Writing in the middle of a file replaces what was there. -/
theorem overwrite_append {pos : ℕ} {before middle after data : List UInt8}
    (hpos : before.length = pos) (hlen : data.length = middle.length) :
    overwrite pos data (before ++ middle ++ after) = before ++ data ++ after := by
  subst hpos
  have hgap : before.length - (before ++ middle ++ after).length = 0 := by
    simp only [List.length_append]; omega
  have htake : (before ++ middle ++ after).take before.length = before := by
    rw [List.append_assoc, List.take_left]
  rw [overwrite, hgap, List.replicate_zero, List.append_nil, hlen, ← List.length_append,
    List.drop_left, htake]

/-- Writing somewhere else in a file leaves a byte of it alone. -/
theorem getElem?_overwrite {pos k : ℕ} {data file : List UInt8} (hk : k < file.length)
    (h : k < pos ∨ pos + data.length ≤ k) : (overwrite pos data file)[k]? = file[k]? := by
  rcases h with h | h
  · have htake : k < (file.take pos).length := by
      rw [List.length_take]
      omega
    rw [overwrite, List.append_assoc, List.append_assoc, List.getElem?_append_left htake,
      List.getElem?_take_of_lt h]
  · have hgap : pos - file.length = 0 := by omega
    have hlen : (file.take pos ++ data).length = pos + data.length := by
      rw [List.length_append, List.length_take]
      omega
    rw [overwrite, hgap, List.replicate_zero, List.append_nil,
      List.getElem?_append_right (by omega), hlen, List.getElem?_drop, Nat.add_sub_cancel' h]

/-- Inside a file nothing is filled in. -/
theorem overwrite_eq {pos : ℕ} {data file : List UInt8} (h : pos + data.length ≤ file.length) :
    overwrite pos data file = file.take pos ++ data ++ file.drop (pos + data.length) := by
  rw [overwrite, Nat.sub_eq_zero_of_le (by omega), List.replicate_zero, List.append_nil]

section

variable {pos : ℕ} {data file : List UInt8} (h : pos + data.length ≤ file.length)
include h

theorem length_overwrite : (overwrite pos data file).length = file.length := by
  rw [overwrite_eq h, List.length_append, List.length_append, List.length_take, List.length_drop]
  omega

/-- What is written is there. -/
theorem drop_overwrite : (overwrite pos data file).drop pos
    = data ++ file.drop (pos + data.length) := by
  have htake : (file.take pos).length = pos := by
    rw [List.length_take]
    omega
  rw [overwrite_eq h, List.append_assoc, List.drop_left' htake]

/-- The bytes in front of what is written stay. -/
theorem take_overwrite {k : ℕ} (hk : k ≤ pos) :
    (overwrite pos data file).take k = file.take k := by
  rw [overwrite_eq h, List.append_assoc, List.take_append_of_le_length, List.take_take,
    Nat.min_eq_left hk]
  rw [List.length_take]
  omega

/-- The bytes behind what is written stay. -/
theorem drop_overwrite_of_le {k : ℕ} (hk : pos + data.length ≤ k) :
    (overwrite pos data file).drop k = file.drop k := by
  obtain ⟨j, rfl⟩ := Nat.exists_eq_add_of_le hk
  rw [← List.drop_drop, ← List.drop_drop, drop_overwrite h, List.drop_left, List.drop_drop]

end

/-! ## Memory -/

/-- `memcpy(dest, src, len)` on a memory of bytes. -/
def memcpy : ℕ → ℕ → ℕ → (ℕ → UInt8) → ℕ → UInt8
  | _, _, 0, m => m
  | dest, src, len + 1, m => memcpy (dest + 1) (src + 1) len (Function.update m dest (m src))

/-- `memcpy` touches nothing in front of its destination. -/
theorem memcpy_of_lt {dest src len : ℕ} {m : ℕ → UInt8} {a : ℕ} (h : a < dest) :
    memcpy dest src len m a = m a := by
  induction len generalizing dest src m with
  | zero => rfl
  | succ len ih => rw [memcpy, ih (by omega), Function.update_of_ne (by omega)]

/-- Between regions that do not overlap `memcpy` copies, and it touches nothing else. -/
theorem memcpy_apply {dest src len : ℕ} (h : dest + len ≤ src) (m : ℕ → UInt8) (a : ℕ) :
    memcpy dest src len m a =
      if dest ≤ a ∧ a < dest + len then m (src + (a - dest)) else m a := by
  induction len generalizing dest src m with
  | zero => rw [memcpy, if_neg (by omega)]
  | succ len ih =>
    rw [memcpy, ih (by omega)]
    by_cases ha : a = dest
    · subst ha
      rw [if_neg (by omega), if_pos (by omega), Function.update_self, Nat.sub_self, Nat.add_zero]
    · by_cases hin : dest ≤ a ∧ a < dest + (len + 1)
      · have hsub : src + 1 + (a - (dest + 1)) = src + (a - dest) := by omega
        rw [if_pos (by omega), if_pos hin, hsub, Function.update_of_ne (by omega)]
      · rw [if_neg (by omega), if_neg hin, Function.update_of_ne ha]

/-- The `n` bytes of `v` are stored at `a`, the least significant first. -/
def storeLe (n a v : ℕ) (m : ℕ → UInt8) : ℕ → UInt8 := fun b =>
  if a ≤ b ∧ b < a + n then (leBytes n v).getD (b - a) 0 else m b

/-- The number in the `n` bytes at `a`. -/
def loadLe (n a : ℕ) (m : ℕ → UInt8) : ℕ := ofLeBytes ((List.range n).map fun k => m (a + k))

section

variable {n n' a a' v b : ℕ} {m m' : ℕ → UInt8}

theorem storeLe_of_notMem (h : ¬ (a ≤ b ∧ b < a + n)) : storeLe n a v m b = m b := if_neg h

theorem loadLe_congr (h : ∀ b, a ≤ b → b < a + n → m' b = m b) : loadLe n a m' = loadLe n a m := by
  refine congrArg ofLeBytes (List.map_congr_left fun k hk => ?_)
  have hk := List.mem_range.1 hk
  exact h _ (by omega) (by omega)

/-- **What is stored can be read back.** -/
theorem loadLe_storeLe_self : loadLe n a (storeLe n a v m) = v % 256 ^ n := by
  have hbytes : (List.range n).map (fun k => storeLe n a v m (a + k)) = leBytes n v := by
    refine List.ext_getElem (by simp) fun k hk hk' => ?_
    rw [length_leBytes] at hk'
    rw [List.getElem_map, List.getElem_range, storeLe, if_pos (by omega), Nat.add_sub_cancel_left,
      List.getD_eq_getElem?_getD, List.getElem?_eq_getElem (by rw [length_leBytes]; exact hk'),
      Option.getD_some]
  rw [loadLe, hbytes, ofLeBytes_leBytes]

/-- **What is stored elsewhere makes no difference.** -/
theorem loadLe_storeLe_of_disjoint (h : a' + n' ≤ a ∨ a + n ≤ a') :
    loadLe n' a' (storeLe n a v m) = loadLe n' a' m :=
  loadLe_congr fun _ _ _ => storeLe_of_notMem (by omega)

end
