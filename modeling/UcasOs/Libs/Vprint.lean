import UcasOs.Libs.Signed
import UcasOs.Lib.Bytes
import Mathlib.Data.List.TakeWhile

/-!
# Printing through a buffer

`_vprint` of `printk.c` and `vprintf` of `tiny_libc/printf.c` format into an array of 256 characters
and pass it on, to `bios_putstr`, `bios_logging`, `screen_write` or `sys_write`.

## What is here

* `Copy.vprint` — the array that is passed on, and the `int` that is returned.
* `cString_vprint` — the string in it is what the first 255 characters of the text are.
* `Covered` — the formats that the `printv` of the screen driver's model is about.
* `sends_printv` — **on those, what `printv` sends is the text of the model**.
-/

set_option autoImplicit false

namespace UcasOs
namespace Printf

/-- The size of the array `buff`. -/
abbrev BUFF_SIZE : UInt32 := 256

/-- `_vprint(fmt, va, output)`, and `vprintf(fmt, va)`: what `output` gets, and what is returned.
`stack` is what the array holds before.  A `NUL` that `mini_vsnprintf` has stored stands where
`buff[ret] = '\0'` stores one. -/
def Copy.vprint (c : Copy) (stack : List UInt8) (fmt : Text) (va : List VaArg) :
    Except Fault (List UInt8 × ℤ) := do
  let r ← c.miniVsnprintf BUFF_SIZE fmt va
  if 0 ≤ r.ret ∧ r.ret < stack.length then
    .ok ((r.text ++ stack.drop r.text.length).set r.ret.toNat 0, r.ret)
  else .error .buffer

/-- What `mini_vsnprintf` formats for `buff`. -/
def Copy.printed (c : Copy) (fmt : Text) (va : List VaArg) : List UInt8 :=
  (c.expansion (parse fmt va).items).take (BUFF_SIZE.toNat - 1)

section

variable {c : Copy} {stack : List UInt8} {fmt : Text} {va : List VaArg}

theorem length_printed_lt (c : Copy) (fmt : Text) (va : List VaArg) :
    (c.printed fmt va).length < 256 := by
  have hsize : BUFF_SIZE.toNat - 1 = 255 := rfl
  rw [Copy.printed, List.length_take, hsize]
  omega

/-- A string in front of a `NUL`, whatever comes after it. -/
theorem cString_append_zero (s rest : List UInt8) : cString (s ++ 0 :: rest) = cString s := by
  rw [cString, cString, List.takeWhile_append]
  split
  · rename_i h
    rw [List.takeWhile_cons_of_neg (by simp), List.append_nil,
      (List.takeWhile_prefix _).eq_of_length h]
  · rfl

/-- The array that is passed on. -/
theorem vprint_inv {buff : List UInt8} {ret : ℤ} (h : c.vprint stack fmt va = .ok (buff, ret)) :
    ret = (c.printed fmt va).length ∧ ∃ rest, buff = c.printed fmt va ++ 0 :: rest := by
  rw [Copy.vprint] at h
  cases hrun : c.miniVsnprintf BUFF_SIZE fmt va with
  | error e =>
    rw [hrun] at h
    cases h
  | ok r =>
    obtain ⟨htext, hret⟩ := miniVsnprintf_text hrun
    have hlen := length_printed_lt c fmt va
    rw [← Copy.printed] at htext
    rw [bmod_natCast (by rw [htext]; omega)] at hret
    rw [hrun] at h
    change ite _ _ _ = _ at h
    rw [hret] at h
    split at h
    · rename_i hroom
      obtain ⟨rfl, rfl⟩ := Prod.mk.inj (Except.ok.inj h)
      obtain ⟨b, rest, hrest⟩ := List.exists_cons_of_length_pos
        (l := stack.drop r.text.length) (by rw [List.length_drop]; omega)
      refine ⟨by rw [htext], rest, ?_⟩
      rw [Int.toNat_natCast, hrest, List.set_append_right _ _ le_rfl, Nat.sub_self,
        List.set_cons_zero, htext]
    · cases h

/-- The string that is printed. -/
theorem cString_vprint {buff : List UInt8} {ret : ℤ}
    (h : c.vprint stack fmt va = .ok (buff, ret)) : cString buff = cString (c.printed fmt va) := by
  obtain ⟨-, rest, rfl⟩ := vprint_inv h
  exact cString_append_zero _ rest

variable (fmt va)

/-- If every item fits, something is printed. -/
theorem exists_vprint (hstack : stack.length = 256)
    (hfits : ∀ item ∈ (parse fmt va).items, c.Fits item) (hfault : (parse fmt va).fault = none) :
    ∃ buff, c.vprint stack fmt va = .ok (buff, (c.printed fmt va).length) := by
  obtain ⟨r, hr⟩ := (exists_miniVsnprintf_iff c BUFF_SIZE fmt va).2
    ⟨fun pre item post hsplit _ => hfits item (by rw [hsplit]; simp), Or.inl hfault⟩
  obtain ⟨htext, hret⟩ := miniVsnprintf_text hr
  have hlen := length_printed_lt c fmt va
  rw [← Copy.printed] at htext
  rw [bmod_natCast (by rw [htext]; omega), htext] at hret
  refine ⟨(r.text ++ stack.drop r.text.length).set r.ret.toNat 0, ?_⟩
  rw [Copy.vprint, hr]
  change ite _ _ _ = _
  rw [if_pos (by rw [hret]; omega), hret]

end

/-! ## The escape sequences -/

/-- `%c` and `%d` only, with an argument for each, and characters of one byte. -/
def Covered : List Char → List ℤ → Prop
  | '%' :: 'c' :: fmt, _ :: args => Covered fmt args
  | '%' :: 'd' :: fmt, _ :: args => Covered fmt args
  | ch :: fmt, args => ch ≠ '%' ∧ 0 < ch.toNat ∧ ch.toNat < 256 ∧ Covered fmt args
  | [], _ => True

/-- The bytes of a format. -/
def bytes (fmt : List Char) : List UInt8 := fmt.map fun ch => UInt8.ofNat ch.toNat

/-- The arguments of a `printv`. -/
def ints (args : List ℤ) : List VaArg := args.map fun a => .int (BitVec.ofInt 32 a)

/-- A `%d` prints its argument as an `unsigned int`. -/
theorem render_int (n : BitVec 32) :
    kernel.render (.num .d (n.setWidth 64) 0) = UcasOs.miniItoa n.toNat := by
  have hlt := n.isLt
  have hnat : (n.setWidth 64).toNat = n.toNat := by
    rw [BitVec.toNat_setWidth, Nat.mod_eq_of_lt (by omega)]
  have hneg : ¬ isNegative false (n.setWidth 64) = true := by
    rw [isNegative_iff, toInt_eq_toNat (by omega)]
    omega
  have habs : absolute false (n.setWidth 64) = n.setWidth 64 := if_neg hneg
  have hdigits : (kernel.digits .d (n.setWidth 64)).reverse = UcasOs.miniItoa n.toNat := by
    rw [digits_kernel (by rw [habs]; omega), habs, hnat]
  have hsign : sign .d (n.setWidth 64) = [] := if_neg hneg
  rw [Copy.render, Copy.text, hsign, hdigits]
  change [] ++ List.replicate (0 - _) 48 ++ _ = _
  rw [Nat.zero_sub, List.replicate_zero, List.nil_append, List.nil_append]

/-- The walk gets to the end of the format, and its items make up the text. -/
structure Parsed.Prints (r : Parsed) (text : List UInt8) : Prop where
  fault : r.fault = none
  fits : ∀ item ∈ r.items, kernel.Fits item
  expansion : kernel.expansion r.items = text

theorem parseLoop_step {fuel : ℕ} {ch : UInt8} {fmt u : List UInt8} {va va' : List VaArg}
    {item : Item} {text : List UInt8} (hch : ch ≠ 0)
    (h : convert ch (some fmt) va = .ok (some (item, some u, va'))) (hfits : kernel.Fits item)
    (hrest : (parseLoop fuel (some u) va').Prints text) :
    (parseLoop (fuel + 1) (some (ch :: fmt)) va).Prints (kernel.render item ++ text) := by
  have hloop : parseLoop (fuel + 1) (some (ch :: fmt)) va =
      ⟨item :: (parseLoop fuel (some u) va').items, (parseLoop fuel (some u) va').fault⟩ := by
    rw [parseLoop, fetch]
    change ite (ch = 0) _ _ = _
    rw [if_neg hch, h]
  rw [hloop]
  refine ⟨hrest.fault, fun it hit => ?_, ?_⟩
  · rcases List.mem_cons.1 hit with rfl | hit
    · exact hfits
    · exact hrest.fits it hit
  · rw [expansion_cons, hrest.expansion]

theorem byte_ne {ch : Char} {n : ℕ} (h : ch.toNat ≠ n) (hlt : ch.toNat < 256) (hn : n < 256) :
    UInt8.ofNat ch.toNat ≠ UInt8.ofNat n := by
  intro heq
  have hnat := congrArg UInt8.toNat heq
  rw [UInt8.toNat_ofNat', UInt8.toNat_ofNat', Nat.mod_eq_of_lt hlt, Nat.mod_eq_of_lt hn] at hnat
  exact h hnat

/-- **The walk over a format of the driver**, by induction on the format. -/
theorem parseLoop_covered (fmt : List Char) (args : List ℤ) :
    ∀ fuel, Covered fmt args → fmt.length < fuel →
      (parseLoop fuel (some (bytes fmt)) (ints args)).Prints (printv fmt args) := by
  induction fmt, args using printv.induct with
  | case1 fmt a args ih =>
    intro fuel hcov hfuel
    rw [List.length_cons, List.length_cons] at hfuel
    obtain ⟨fuel, rfl⟩ := Nat.exists_eq_succ_of_ne_zero (Nat.ne_of_gt (Nat.zero_lt_of_lt hfuel))
    have hrest := ih fuel hcov (by omega)
    have hstep := parseLoop_step (show (37 : UInt8) ≠ 0 by decide) (rfl : convert 37
      (some (99 :: bytes fmt)) (.int (BitVec.ofInt 32 a) :: ints args) = _) trivial hrest
    have hbyte : UInt8.ofBitVec ((BitVec.ofInt 32 a).setWidth 8) = UInt8.ofNat (a % 256).toNat := by
      rw [← UInt8.toNat_inj, UInt8.toNat_ofBitVec, BitVec.toNat_setWidth, BitVec.toNat_ofInt,
        UInt8.toNat_ofNat']
      omega
    rwa [Copy.render, hbyte] at hstep
  | case2 fmt a args ih =>
    intro fuel hcov hfuel
    rw [List.length_cons, List.length_cons] at hfuel
    obtain ⟨fuel, rfl⟩ := Nat.exists_eq_succ_of_ne_zero (Nat.ne_of_gt (Nat.zero_lt_of_lt hfuel))
    have hrest := ih fuel hcov (by omega)
    have hfits : kernel.Fits (.num .d ((BitVec.ofInt 32 a).setWidth 64) 0) := by
      have hsign := length_sign_le .d ((BitVec.ofInt 32 a).setWidth 64)
      rw [Copy.Fits]
      change 0 + _ < 24
      omega
    have hstep := parseLoop_step (show (37 : UInt8) ≠ 0 by decide) (rfl : convert 37
      (some (100 :: bytes fmt)) (.int (BitVec.ofInt 32 a) :: ints args) = _) hfits hrest
    rwa [render_int, BitVec.toNat_ofInt] at hstep
  | case3 ch fmt args hchar hint ih =>
    intro fuel hcov hfuel
    rw [Covered.eq_3 _ _ _ hchar hint] at hcov
    obtain ⟨hpercent, hpos, hlt, hcov⟩ := hcov
    rw [List.length_cons] at hfuel
    obtain ⟨fuel, rfl⟩ := Nat.exists_eq_succ_of_ne_zero (Nat.ne_of_gt (Nat.zero_lt_of_lt hfuel))
    have hne : UInt8.ofNat ch.toNat ≠ 37 :=
      byte_ne (n := 37) (fun h => hpercent (Char.toNat_inj.1 h)) hlt (by decide)
    rw [printv.eq_3 _ _ _ hchar hint]
    exact parseLoop_step (byte_ne (n := 0) hpos.ne' hlt (by decide)) (if_pos hne) trivial
      (ih fuel hcov (by omega))
  | case4 args =>
    intro fuel _ hfuel
    obtain ⟨fuel, rfl⟩ := Nat.exists_eq_succ_of_ne_zero (Nat.ne_of_gt (Nat.zero_lt_of_lt hfuel))
    exact ⟨rfl, fun _ h => absurd h List.not_mem_nil, rfl⟩

/-- The string of a format. -/
theorem zero_not_mem_bytes (fmt : List Char) (args : List ℤ) (h : Covered fmt args) :
    0 ∉ bytes fmt := by
  induction fmt, args using Covered.induct with
  | case1 fmt a args ih => exact fun h0 => ih h (by simpa [bytes] using h0)
  | case2 fmt a args ih => exact fun h0 => ih h (by simpa [bytes] using h0)
  | case3 ch fmt args hchar hint ih =>
    rw [Covered.eq_3 _ _ _ hchar hint] at h
    obtain ⟨-, hpos, hlt, hcov⟩ := h
    rw [bytes, List.map_cons, List.mem_cons, not_or]
    exact ⟨Ne.symm (byte_ne (n := 0) hpos.ne' hlt (by decide)), ih hcov⟩
  | case4 args => exact List.not_mem_nil

/-- Whatever is in `buff` before, `output` gets the text, and its length is returned. -/
def Copy.Sends (c : Copy) (fmt : Text) (va : List VaArg) (sent : List UInt8) : Prop :=
  ∀ stack : List UInt8, stack.length = 256 →
    ∃ buff, c.vprint stack fmt va = .ok (buff, sent.length) ∧ cString buff = sent

theorem cString_eq_self {s : List UInt8} (h : 0 ∉ s) : cString s = s :=
  List.takeWhile_eq_self_iff.2 fun _ hch => decide_eq_true fun h0 => h (h0 ▸ hch)

/-- A text that has room in the array, and no `NUL` in it, is sent as it is. -/
theorem sends_of_prints {fmt : Text} {va : List VaArg} {text : List UInt8}
    (h : (parse fmt va).Prints text) (hnul : 0 ∉ text) (hlen : text.length < 256) :
    kernel.Sends fmt va text := by
  intro stack hstack
  obtain ⟨buff, hbuff⟩ := exists_vprint fmt va hstack h.fits h.fault
  have htext : kernel.printed fmt va = text := by
    rw [Copy.printed, h.expansion]
    exact List.take_of_length_le (Nat.le_of_lt_succ hlen)
  rw [htext] at hbuff
  refine ⟨buff, hbuff, ?_⟩
  rw [cString_vprint hbuff, htext, cString_eq_self hnul]

/-- **What `printv` sends is the text of the driver's model**, if there is room for it. -/
theorem sends_printv {fmt : List Char} {args : List ℤ} (h : Covered fmt args)
    (hnul : 0 ∉ printv fmt args) (hlen : (printv fmt args).length < 256) :
    kernel.Sends ⟨bytes fmt, zero_not_mem_bytes fmt args h⟩ (ints args) (printv fmt args) :=
  sends_of_prints (parseLoop_covered fmt args ((bytes fmt).length + 1) h (by simp [bytes])) hnul hlen

end Printf
end UcasOs
