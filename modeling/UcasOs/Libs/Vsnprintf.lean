import UcasOs.Libs.Itoa

/-!
# `mini_vsnprintf`

The formatting loop that `printk.c` and `tiny_libc/printf.c` share, over a `Copy`.

## What is here

* `Cursor`, `readSpec`, `switch`, `convert` — the format is read character by character, and
  reading behind its NUL is a `Fault`; so is fetching an argument of another type.
* `Buff`, `putc`, `puts` — every store checks that it is inside the first `buffer_len` bytes.
* `Copy.iteration`, `Copy.miniVsnprintf` — the loop.
* `parse` — the same walk over format and arguments without a buffer: the items to print.
  `loop_eq_emitAll` says that the loop prints the items of `parse` until the buffer is full.
* `Copy.expansion` — the text of a list of items, without bounds.  `miniVsnprintf_text`,
  `exists_miniVsnprintf_iff` — what is printed is the start of it, and the loop gets there when
  every item that it reaches fits (`Copy.Fits`).
* `kernel_within_iff` — when the kernel's copy stays inside its arrays.
-/

set_option autoImplicit false

namespace UcasOs
namespace Printf

/-- The characters of a string that ends in a NUL. -/
abbrev Text : Type := { s : List UInt8 // 0 ∉ s }

/-- An argument that the caller passed. -/
inductive VaArg where
  | int (n : BitVec 32)
  | long (n : BitVec 64)
  | string (s : Text)
  deriving DecidableEq

/-! ## Reading the format -/

/-- Where `fmt` points: at the characters to come and the NUL behind them, or behind the NUL. -/
abbrev Cursor : Type := Option (List UInt8)

/-- `ch = *(fmt++)` -/
def fetch : Cursor → Except Fault (UInt8 × Cursor)
  | some (ch :: fmt) => .ok (ch, some fmt)
  | some [] => .ok (0, none)
  | none => .error .format

/-- The loop behind a `0`, with `zero_pad` and the character it ends at.  Its condition has seen to
it that the `goto end` in its body is never taken. -/
def padLoop : List UInt8 → UInt8 → UInt8 × UInt8 × Cursor
  | [], zeroPad => (zeroPad, 0, none)
  | ch :: fmt, zeroPad =>
    if 48 ≤ ch ∧ ch ≤ 57 then padLoop fmt (zeroPad * 10 + ch - 48) else (zeroPad, ch, some fmt)

/-- "Zero padding requested": `zero_pad`, and the character behind it. -/
def readPad (fmt : Cursor) : Except Fault (UInt8 × UInt8 × Cursor) :=
  match fetch fmt with
  | .error e => .error e
  | .ok (ch, some fmt) => if ch = 48 then .ok (padLoop fmt 0) else .ok (0, ch, some fmt)
  | .ok (ch, none) => if ch = 48 then .error .format else .ok (0, ch, none)

/-- `longflag`, and the character behind it. -/
def readLong (ch : UInt8) (fmt : Cursor) : Except Fault (Bool × UInt8 × Cursor) :=
  if ch = 108 then (fetch fmt).map fun p => (true, p) else .ok (false, ch, fmt)

/-- What stands between the `%` and the `switch`, and the character that it is about. -/
structure Spec where
  zeroPad : UInt8
  longflag : Bool
  ch : UInt8

def readSpec (fmt : Cursor) : Except Fault (Spec × Cursor) := do
  let (zeroPad, ch, fmt) ← readPad fmt
  let (longflag, ch, fmt) ← readLong ch fmt
  .ok (⟨zeroPad, longflag, ch⟩, fmt)

/-! ## Fetching the arguments -/

/-- What one turn of the loop prints. -/
inductive Item where
  | num (conv : Conversion) (value : BitVec 64) (zeroPad : UInt8)
  | chr (ch : UInt8)
  | str (s : Text)
  | nothing

/-- `va_arg(va, …)`, for a type whose values among the arguments are given by `read`. -/
def vaArg {α : Type} (read : VaArg → Option α) : List VaArg → Except Fault (α × List VaArg)
  | [] => .error .args
  | arg :: va =>
    match read arg with
    | some a => .ok (a, va)
    | none => .error .args

/-- `va_arg(va, int)`, and `va_arg(va, unsigned int)`. -/
def vaInt : List VaArg → Except Fault (BitVec 32 × List VaArg) :=
  vaArg fun | .int n => some n | _ => none

/-- `va_arg(va, unsigned long)` -/
def vaLong : List VaArg → Except Fault (BitVec 64 × List VaArg) :=
  vaArg fun | .long n => some n | _ => none

/-- `va_arg(va, char *)` -/
def vaString : List VaArg → Except Fault (Text × List VaArg) :=
  vaArg fun | .string s => some s | _ => none

/-- `longflag == 0 ? (unsigned long)va_arg(va, unsigned int) : va_arg(va, unsigned long)` -/
def vaValue (longflag : Bool) (va : List VaArg) : Except Fault (BitVec 64 × List VaArg) :=
  if longflag then vaLong va else (vaInt va).map fun p => (p.1.setWidth 64, p.2)

/-- The cases of the `switch` that call `mini_itoa`. -/
def conversion? (ch : UInt8) : Option Conversion :=
  if ch = 117 then some .u
  else if ch = 100 then some .d
  else if ch = 120 then some .x
  else if ch = 88 then some .upperX
  else none

/-- The `switch`; `none` is its `goto end`. -/
def switch (spec : Spec) (va : List VaArg) : Except Fault (Option (Item × List VaArg)) :=
  if spec.ch = 0 then .ok none
  else if spec.ch = 108 then .ok (some (.nothing, va))
  else
    match conversion? spec.ch with
    | some conv => (vaValue spec.longflag va).map fun p => some (.num conv p.1 spec.zeroPad, p.2)
    | none =>
      if spec.ch = 99 then
        (vaInt va).map fun p => some (.chr (UInt8.ofBitVec (p.1.setWidth 8)), p.2)
      else if spec.ch = 115 then (vaString va).map fun p => some (.str p.1, p.2)
      else .ok (some (.chr spec.ch, va))

/-- What the character `ch` and, behind a `%`, those after it make the loop print; `none` is
`goto end`. -/
def convert (ch : UInt8) (fmt : Cursor) (va : List VaArg) :
    Except Fault (Option (Item × Cursor × List VaArg)) :=
  if ch ≠ 37 then .ok (some (.chr ch, fmt, va))
  else do
    let (spec, fmt) ← readSpec fmt
    let item ← switch spec va
    .ok (item.map fun p => (p.1, fmt, p.2))

/-! ## Writing the buffer -/

/-- `struct mini_buff`: the characters from `buffer` to `pbuffer`, and `buffer_len`. -/
structure Buff where
  text : List UInt8
  bufferLen : UInt32

namespace Buff

/-- `(unsigned int)((b->pbuffer - b->buffer) + 1) >= b->buffer_len` -/
def full (b : Buff) : Bool := b.bufferLen ≤ UInt32.ofNat (b.text.length + 1)

/-- `*(b->pbuffer++) = ch` -/
def store (b : Buff) (ch : UInt8) : Except Fault Buff :=
  if b.text.length < b.bufferLen.toNat then .ok { b with text := b.text ++ [ch] }
  else .error .buffer

/-- `*(b->pbuffer) = '\0'` -/
def terminate (b : Buff) : Except Fault Buff :=
  if b.text.length < b.bufferLen.toNat then .ok b else .error .buffer

end Buff

/-- `_putc(ch, b)` -/
def putc (ch : UInt8) (b : Buff) : Except Fault Buff :=
  if b.full then .ok b
  else do
    let b ← b.store ch
    b.terminate

/-- `b->buffer_len - (b->pbuffer - b->buffer) - 1`, in which everything is converted to `long`. -/
def Buff.room (b : Buff) : ℤ := b.bufferLen.toNat - b.text.length - 1

/-- `_puts(s, len, b)`, where `s` has `len` characters. -/
def puts (s : List UInt8) (b : Buff) : Except Fault Buff := do
  let len := if b.room < s.length then (b.room % 2 ^ 32).toNat else s.length
  let b ← (s.take len).foldlM Buff.store b
  b.terminate

/-- `mini_strlen(s)` or `strlen(s)`, from the index `len` on.  The counter has to hold the length:
an `unsigned int` that wraps makes the loop endless, an `int` leaves the string. -/
def strlenLoop (limit : ℕ) : List UInt8 → ℕ → Except Fault ℕ
  | [], len => .ok len
  | _ :: s, len => if len + 1 < limit then strlenLoop limit s (len + 1) else .error .strlen

/-- What a case of the `switch` does with its item. -/
def Copy.emit (c : Copy) : Item → Buff → Except Fault Buff
  | .num conv value zeroPad, b => do
    let bf ← c.miniItoa value conv.radix conv.uppercase conv.unsig zeroPad.toNat
    puts bf b
  | .chr ch, b => putc ch b
  | .str s, b => do
    let len ← strlenLoop c.strlenLimit s.1 0
    puts (s.1.take len) b
  | .nothing, b => .ok b

/-- One turn of the loop of `mini_vsnprintf`; `none` when it is the last. -/
def Copy.iteration (c : Copy) (fmt : Cursor) (va : List VaArg) (b : Buff) :
    Except Fault (Option (Cursor × List VaArg × Buff)) := do
  let (ch, fmt) ← fetch fmt
  if ch = 0 ∨ b.full then .ok none
  else
    match ← convert ch fmt va with
    | none => .ok none
    | some (item, fmt, va) =>
      let b ← c.emit item b
      .ok (some (fmt, va, b))

/-- The loop, for at most `fuel` turns. -/
def Copy.loop (c : Copy) : ℕ → Cursor → List VaArg → Buff → Except Fault Buff
  | 0, _, _, _ => .error .endless
  | fuel + 1, fmt, va, b => do
    match ← c.iteration fmt va b with
    | none => .ok b
    | some (fmt, va, b) => c.loop fuel fmt va b

/-- The text in the buffer and the `int` that is returned. -/
structure Printed where
  text : List UInt8
  ret : ℤ
  deriving DecidableEq

/-- `mini_vsnprintf(buffer, buffer_len, fmt, va)` -/
def Copy.miniVsnprintf (c : Copy) (bufferLen : UInt32) (fmt : Text) (va : List VaArg) :
    Except Fault Printed := do
  let b ← c.loop (fmt.1.length + 1) (some fmt.1) va ⟨[], bufferLen⟩
  .ok ⟨b.text, Int.bmod b.text.length (2 ^ 32)⟩

/-! ## The items of a format -/

/-- The items that a format and its arguments ask for, and the fault that ends the walk. -/
structure Parsed where
  items : List Item
  fault : Option Fault

/-- The walk of the loop, for at most `fuel` turns, without a buffer that could be full. -/
def parseLoop : ℕ → Cursor → List VaArg → Parsed
  | 0, _, _ => ⟨[], some .endless⟩
  | fuel + 1, fmt, va =>
    match fetch fmt with
    | .error e => ⟨[], some e⟩
    | .ok (ch, fmt) =>
      if ch = 0 then ⟨[], none⟩
      else
        match convert ch fmt va with
        | .error e => ⟨[], some e⟩
        | .ok none => ⟨[], none⟩
        | .ok (some (item, fmt, va)) =>
          ⟨item :: (parseLoop fuel fmt va).items, (parseLoop fuel fmt va).fault⟩

/-- What `mini_vsnprintf(…, fmt, va)` is asked to print. -/
def parse (fmt : Text) (va : List VaArg) : Parsed :=
  parseLoop (fmt.1.length + 1) (some fmt.1) va

/-- The arguments are of the types that the format asks for. -/
def Matches (fmt : Text) (va : List VaArg) : Prop := (parse fmt va).fault ≠ some .args

instance (fmt : Text) (va : List VaArg) : Decidable (Matches fmt va) :=
  inferInstanceAs (Decidable (_ ≠ _))

/-- The character `ch` has been read and the cursor is behind it: it is the NUL, or the cursor is
still inside the string `fmt`. -/
def Within (fmt : List UInt8) (ch : UInt8) (rest : Cursor) : Prop :=
  ch = 0 ∨ ∃ u, rest = some u ∧ u <:+ fmt

theorem within_padLoop : ∀ (fmt : List UInt8) (zeroPad : UInt8),
    Within fmt (padLoop fmt zeroPad).2.1 (padLoop fmt zeroPad).2.2
  | [], _ => .inl rfl
  | ch :: fmt, zeroPad => by
    rw [padLoop]
    split
    · rcases within_padLoop fmt (zeroPad * 10 + ch - 48) with h | ⟨u, hu, hsuffix⟩
      · exact .inl h
      · exact .inr ⟨u, hu, hsuffix.trans (List.suffix_cons ch fmt)⟩
    · exact .inr ⟨fmt, rfl, List.suffix_cons ch fmt⟩

theorem exists_readPad (fmt : List UInt8) :
    ∃ zeroPad ch rest, readPad (some fmt) = .ok (zeroPad, ch, rest) ∧ Within fmt ch rest := by
  cases fmt with
  | nil => exact ⟨0, 0, none, rfl, .inl rfl⟩
  | cons ch fmt =>
    rcases eq_or_ne ch 48 with hch | hch
    · refine ⟨_, _, _, if_pos hch, ?_⟩
      rcases within_padLoop fmt 0 with h | ⟨u, hu, hsuffix⟩
      · exact .inl h
      · exact .inr ⟨u, hu, hsuffix.trans (List.suffix_cons ch fmt)⟩
    · exact ⟨0, ch, some fmt, if_neg hch, .inr ⟨fmt, rfl, List.suffix_cons ch fmt⟩⟩

theorem exists_readLong {fmt : List UInt8} {ch : UInt8} {rest : Cursor} (h : Within fmt ch rest) :
    ∃ longflag ch' rest', readLong ch rest = .ok (longflag, ch', rest') ∧
      Within fmt ch' rest' := by
  rcases eq_or_ne ch 108 with hch | hch
  · rcases h with h | ⟨u, rfl, hsuffix⟩
    · exact absurd (hch.symm.trans h) (by decide)
    · cases u with
      | nil => exact ⟨true, 0, none, if_pos hch, .inl rfl⟩
      | cons next u =>
        exact ⟨true, next, some u, if_pos hch,
          .inr ⟨u, rfl, (List.suffix_cons next u).trans hsuffix⟩⟩
  · exact ⟨false, ch, rest, if_neg hch, h⟩

/-- Between the `%` and the `switch` the format is not left, unless what was read is its NUL. -/
theorem exists_readSpec (fmt : List UInt8) :
    ∃ spec rest, readSpec (some fmt) = .ok (spec, rest) ∧ Within fmt spec.ch rest := by
  obtain ⟨zeroPad, ch, rest, hpad, hwithin⟩ := exists_readPad fmt
  obtain ⟨longflag, ch', rest', hlong, hwithin'⟩ := exists_readLong hwithin
  refine ⟨⟨zeroPad, longflag, ch'⟩, rest', ?_, hwithin'⟩
  rw [readSpec, hpad]
  show (readLong ch rest >>= _) = _
  rw [hlong]
  rfl

/-- Fetching from the argument list goes wrong in one way only. -/
def Fetches {α : Type} (r : Except Fault α) : Prop := r = .error .args ∨ ∃ a, r = .ok a

theorem Fetches.map {α β : Type} {r : Except Fault α} (h : Fetches r) (f : α → β) :
    Fetches (r.map f) := by
  rcases h with rfl | ⟨a, rfl⟩
  · exact .inl rfl
  · exact .inr ⟨f a, rfl⟩

theorem fetches_vaArg {α : Type} (read : VaArg → Option α) (va : List VaArg) :
    Fetches (vaArg read va) := by
  cases va with
  | nil => exact .inl rfl
  | cons arg va =>
    rw [vaArg]
    split
    · exact .inr ⟨_, rfl⟩
    · exact .inl rfl

theorem fetches_vaValue (longflag : Bool) (va : List VaArg) : Fetches (vaValue longflag va) := by
  rw [vaValue]
  split
  · exact fetches_vaArg _ va
  · exact (fetches_vaArg _ va).map _

theorem switch_zero {spec : Spec} (h : spec.ch = 0) (va : List VaArg) :
    switch spec va = .ok none :=
  if_pos h

/-- A case of the `switch` other than its first has an item, or not the argument for it. -/
theorem switch_cases {spec : Spec} (h : spec.ch ≠ 0) (va : List VaArg) :
    switch spec va = .error .args ∨ ∃ p, switch spec va = .ok (some p) := by
  have hitem : ∀ {α : Type} {r : Except Fault α} (f : α → Item × List VaArg), Fetches r →
      r.map (fun a => some (f a)) = .error .args ∨
        ∃ p, r.map (fun a => some (f a)) = .ok (some p) := by
    rintro α r f (rfl | ⟨a, rfl⟩)
    · exact .inl rfl
    · exact .inr ⟨f a, rfl⟩
  rw [switch, if_neg h]
  split
  · exact .inr ⟨_, rfl⟩
  · split
    · exact hitem _ (fetches_vaValue _ va)
    · split
      · exact hitem _ (fetches_vaArg _ va)
      · split
        · exact hitem _ (fetches_vaArg _ va)
        · exact .inr ⟨_, rfl⟩

/-- What a character of the format leads to; the format is not left on the way. -/
theorem convert_cases (ch : UInt8) (fmt : List UInt8) (va : List VaArg) :
    convert ch (some fmt) va = .error .args ∨ convert ch (some fmt) va = .ok none ∨
      ∃ item u va', convert ch (some fmt) va = .ok (some (item, some u, va')) ∧ u <:+ fmt := by
  rcases eq_or_ne ch 37 with rfl | hch
  · obtain ⟨spec, rest, hread, hwithin⟩ := exists_readSpec fmt
    have hconvert : convert 37 (some fmt) va = (switch spec va).map fun item =>
        item.map fun p => (p.1, rest, p.2) := by
      show (readSpec (some fmt) >>= _) = _
      rw [hread]
      show (switch spec va >>= _) = _
      cases switch spec va <;> rfl
    rw [hconvert]
    rcases eq_or_ne spec.ch 0 with hnul | hnul
    · rw [switch_zero hnul]
      exact .inr (.inl rfl)
    · rcases switch_cases hnul va with h | ⟨p, h⟩
      · exact .inl (by rw [h]; rfl)
      · obtain ⟨u, rfl, hsuffix⟩ := hwithin.resolve_left hnul
        exact .inr (.inr ⟨p.1, u, p.2, by rw [h]; rfl, hsuffix⟩)
  · exact .inr (.inr ⟨.chr ch, fmt, va, if_pos hch, List.suffix_refl fmt⟩)

/-- The walk ends at the NUL of the format, or at an argument of another type: it is never behind
the NUL, and it has turns enough. -/
theorem parseLoop_fault : ∀ (fuel : ℕ) (fmt : List UInt8) (va : List VaArg), fmt.length < fuel →
    (parseLoop fuel (some fmt) va).fault = none ∨
      (parseLoop fuel (some fmt) va).fault = some .args
  | 0, _, _, hfuel => absurd hfuel (Nat.not_lt_zero _)
  | fuel + 1, [], _, _ => .inl rfl
  | fuel + 1, ch :: fmt, va, hfuel => by
    rw [parseLoop, fetch]
    show (ite (ch = 0) _ _ : Parsed).fault = _ ∨ (ite (ch = 0) _ _ : Parsed).fault = _
    split
    · exact .inl rfl
    · rcases convert_cases ch fmt va with h | h | ⟨item, u, va', h, hsuffix⟩
      · rw [h]
        exact .inr rfl
      · rw [h]
        exact .inl rfl
      · rw [h]
        refine parseLoop_fault fuel u va' ?_
        have hle := hsuffix.length_le
        rw [List.length_cons] at hfuel
        omega

theorem parse_fault (fmt : Text) (va : List VaArg) :
    (parse fmt va).fault = none ∨ (parse fmt va).fault = some .args :=
  parseLoop_fault _ fmt.1 va (Nat.lt_succ_self _)

/-! ## The loop prints the items -/

/-- Printing items until the buffer is full; behind the last of them the walk ends with `fault`. -/
def Copy.emitAll (c : Copy) (fault : Option Fault) : List Item → Buff → Except Fault Buff
  | [], b => if b.full then .ok b else fault.elim (.ok b) .error
  | item :: items, b =>
    if b.full then .ok b
    else do
      let b ← c.emit item b
      c.emitAll fault items b

theorem emitAll_full (c : Copy) (fault : Option Fault) (items : List Item) {b : Buff}
    (h : b.full = true) : c.emitAll fault items b = .ok b := by
  cases items with
  | nil => exact if_pos h
  | cons item items => exact if_pos h

theorem loop_eq_emitAll (c : Copy) : ∀ (fuel : ℕ) (fmt : List UInt8) (va : List VaArg) (b : Buff),
    0 ∉ fmt → fmt.length < fuel →
    c.loop fuel (some fmt) va b
      = c.emitAll (parseLoop fuel (some fmt) va).fault (parseLoop fuel (some fmt) va).items b
  | 0, _, _, _, _, hfuel => absurd hfuel (Nat.not_lt_zero _)
  | fuel + 1, [], va, b, _, _ => by
    show Except.ok b = _
    rw [parseLoop, fetch]
    show Except.ok b = if b.full then .ok b else .ok b
    rw [ite_self]
  | fuel + 1, ch :: fmt, va, b, hnul, hfuel => by
    have hch : 0 ≠ ch := List.ne_of_not_mem_cons hnul
    have hfmt : 0 ∉ fmt := List.not_mem_of_not_mem_cons hnul
    rw [Copy.loop, Copy.iteration, fetch]
    cases hfull : b.full with
    | true =>
      rw [emitAll_full c _ _ hfull]
      show (ite (ch = 0 ∨ _) _ _ >>= _) = _
      rw [if_pos (.inr rfl)]
      rfl
    | false =>
      rw [parseLoop, fetch]
      show (ite (ch = 0 ∨ _) _ _ >>= _)
        = c.emitAll (ite (ch = 0) _ _ : Parsed).fault (ite (ch = 0) _ _ : Parsed).items b
      have hgoes : ¬ (ch = 0 ∨ false = true) := by
        rintro (h | h)
        · exact hch h.symm
        · exact Bool.false_ne_true h
      rw [if_neg hgoes, if_neg (Ne.symm hch)]
      rcases convert_cases ch fmt va with h | h | ⟨item, u, va', h, hsuffix⟩
      · rw [h]
        show _ = ite (b.full = true) _ _
        rw [hfull]
        rfl
      · rw [h]
        show _ = ite (b.full = true) _ _
        rw [hfull]
        rfl
      · rw [h]
        show ((c.emit item b >>= _) >>= _) = ite (b.full = true) _ _
        rw [hfull]
        show _ = c.emit item b >>= _
        cases c.emit item b with
        | error e => rfl
        | ok b' =>
          refine loop_eq_emitAll c fuel u va' b' (fun h0 => hfmt (hsuffix.subset h0)) ?_
          have hle := hsuffix.length_le
          rw [List.length_cons] at hfuel
          omega

/-! ## What one item puts into the buffer -/

/-- The text of an item. -/
def Copy.render (c : Copy) : Item → List UInt8
  | .num conv value zeroPad => c.text conv value zeroPad.toNat
  | .chr ch => [ch]
  | .str s => s.1
  | .nothing => []

/-- The item can be formatted: the number is short enough for the array, with its padding, its
sign and the NUL, and the string for the counter of its characters. -/
def Copy.Fits (c : Copy) : Item → Prop
  | .num conv value zeroPad => zeroPad.toNat + (sign conv value).length < 24
  | .str s => s.1.length < c.strlenLimit
  | _ => True

/-- The buffer holds as much of `text` as `buffer_len` leaves room for. -/
def Buff.Holds (b : Buff) (text : List UInt8) : Prop :=
  b.text = text.take (b.bufferLen.toNat - 1)

theorem holds_take (b : Buff) (text : List UInt8) :
    ({ b with text := text.take (b.bufferLen.toNat - 1) } : Buff).Holds text :=
  rfl

namespace Buff.Holds

variable {b : Buff} {text : List UInt8}

theorem length_eq (h : b.Holds text) :
    b.text.length = min (b.bufferLen.toNat - 1) text.length := by
  rw [h, List.length_take]

theorem full_iff (h : b.Holds text) : b.full = true ↔ b.bufferLen.toNat ≤ text.length + 1 := by
  have hlen := h.length_eq
  have hword : b.bufferLen.toNat < 2 ^ 32 := b.bufferLen.toNat_lt
  rw [Buff.full, decide_eq_true_iff, UInt32.le_iff_toNat_le, UInt32.toNat_ofNat',
    Nat.mod_eq_of_lt (by omega)]
  omega

/-- A buffer that is not full holds the whole text. -/
theorem text_eq (h : b.Holds text) (hroom : text.length + 1 < b.bufferLen.toNat) :
    b.text = text := by
  rw [h, List.take_of_length_le (by omega)]

theorem not_full (h : b.Holds text) (hroom : text.length + 1 < b.bufferLen.toNat) :
    ¬ b.full = true := by
  rw [h.full_iff]
  omega

/-- Once the buffer is full, no more text gets into it. -/
theorem append_of_full (h : b.Holds text) (hfull : b.bufferLen.toNat ≤ text.length + 1)
    (rest : List UInt8) : b.Holds (text ++ rest) := by
  rw [Buff.Holds, List.take_append_of_le_length (by omega)]
  exact h

end Buff.Holds

theorem foldlM_store : ∀ (chs : List UInt8) (b : Buff),
    b.text.length + chs.length ≤ b.bufferLen.toNat →
    chs.foldlM Buff.store b = .ok { b with text := b.text ++ chs }
  | [], b, _ => by
    rw [List.append_nil]
    rfl
  | ch :: chs, b, h => by
    rw [List.length_cons] at h
    rw [List.foldlM_cons, Buff.store, if_pos (by omega)]
    show chs.foldlM Buff.store { b with text := b.text ++ [ch] } = _
    have hle : (b.text ++ [ch]).length + chs.length ≤ b.bufferLen.toNat := by
      rw [List.length_append, List.length_singleton]
      omega
    rw [foldlM_store chs { b with text := b.text ++ [ch] } hle, List.append_assoc]
    rfl

theorem putc_eq (ch : UInt8) {b : Buff} {text : List UInt8} (h : b.Holds text)
    (hroom : text.length + 1 < b.bufferLen.toNat) :
    putc ch b = .ok { b with text := (text ++ [ch]).take (b.bufferLen.toNat - 1) } := by
  rw [putc, if_neg (h.not_full hroom), Buff.store, h.text_eq hroom, if_pos (by omega)]
  show Buff.terminate _ = _
  rw [Buff.terminate, if_pos (by rw [List.length_append]; exact hroom),
    List.take_of_length_le (by rw [List.length_append, List.length_singleton]; omega)]

theorem puts_eq (s : List UInt8) {b : Buff} {text : List UInt8} (h : b.Holds text)
    (hroom : text.length + 1 < b.bufferLen.toNat) :
    puts s b = .ok { b with text := (text ++ s).take (b.bufferLen.toNat - 1) } := by
  have hword : b.bufferLen.toNat < 2 ^ 32 := b.bufferLen.toNat_lt
  have hlen : s.take (if b.room < s.length then (b.room % 2 ^ 32).toNat else s.length)
      = s.take (b.bufferLen.toNat - 1 - text.length) := by
    have hroom_eq : b.room = (b.bufferLen.toNat - 1 - text.length : ℕ) := by
      rw [Buff.room, h.text_eq hroom]
      omega
    rw [hroom_eq]
    split
    · rw [Int.emod_eq_of_lt (by omega) (by omega), Int.toNat_natCast]
    · rename_i hle
      rw [List.take_length, List.take_of_length_le (by omega)]
  have hstore : (text ++ s.take (b.bufferLen.toNat - 1 - text.length)).length
      < b.bufferLen.toNat := by
    rw [List.length_append, List.length_take]
    omega
  rw [puts, hlen, foldlM_store _ _ (by rw [h.text_eq hroom, ← List.length_append]; exact hstore.le)]
  show Buff.terminate _ = _
  rw [Buff.terminate, h.text_eq hroom, if_pos hstore, List.take_append,
    List.take_of_length_le (show text.length ≤ _ by omega)]

theorem strlenLoop_eq (limit : ℕ) : ∀ (s : List UInt8) (len : ℕ), len < limit →
    strlenLoop limit s len
      = if len + s.length < limit then .ok (len + s.length) else .error .strlen
  | [], len, h => (if_pos h).symm
  | _ :: s, len, h => by
    rw [strlenLoop, List.length_cons, show len + (s.length + 1) = len + 1 + s.length by omega]
    split
    · rename_i hnext
      exact strlenLoop_eq limit s (len + 1) hnext
    · rw [if_neg (by omega)]

theorem emit_ok {c : Copy} {item : Item} (hfits : c.Fits item) {b : Buff} {text : List UInt8}
    (h : b.Holds text) (hroom : text.length + 1 < b.bufferLen.toNat) :
    c.emit item b
      = .ok { b with text := (text ++ c.render item).take (b.bufferLen.toNat - 1) } := by
  cases item with
  | num conv value zeroPad =>
    rw [Copy.emit, miniItoa_eq, if_pos ((length_text_lt c conv value _).2 hfits)]
    exact puts_eq _ h hroom
  | chr ch => exact putc_eq ch h hroom
  | str s =>
    rw [Copy.emit, strlenLoop_eq _ _ _ c.strlenLimit_pos, Nat.zero_add]
    rw [Copy.Fits] at hfits
    rw [if_pos hfits]
    show puts (s.1.take s.1.length) b = _
    rw [List.take_length]
    exact puts_eq s.1 h hroom
  | nothing =>
    rw [Copy.emit, Copy.render, List.append_nil, ← h]

theorem emit_error {c : Copy} {item : Item} (hfits : ¬ c.Fits item) (b : Buff) :
    ∃ e, c.emit item b = .error e := by
  cases item with
  | num conv value zeroPad =>
    rw [Copy.emit, miniItoa_eq, if_neg (mt (length_text_lt c conv value _).1 hfits)]
    exact ⟨.bf, rfl⟩
  | chr ch => exact absurd trivial hfits
  | str s =>
    rw [Copy.emit, strlenLoop_eq _ _ _ c.strlenLimit_pos, Nat.zero_add]
    rw [Copy.Fits] at hfits
    rw [if_neg hfits]
    exact ⟨.strlen, rfl⟩
  | nothing => exact absurd trivial hfits

/-! ## What a run puts into the buffer -/

/-- The text of the items, without bounds. -/
def Copy.expansion (c : Copy) (items : List Item) : List UInt8 := items.flatMap c.render

/-- Every item that is reached before the buffer is full fits, when `text` is there already. -/
def Copy.AllFit (c : Copy) (bufferLen : UInt32) (text : List UInt8) (items : List Item) : Prop :=
  ∀ pre item post, items = pre ++ item :: post →
    (text ++ c.expansion pre).length + 1 < bufferLen.toNat → c.Fits item

section

variable {c : Copy} {bufferLen : UInt32} {text : List UInt8} {item : Item} {items : List Item}

theorem expansion_cons (c : Copy) (item : Item) (items : List Item) :
    c.expansion (item :: items) = c.render item ++ c.expansion items :=
  List.flatMap_cons

theorem allFit_cons : c.AllFit bufferLen text (item :: items) ↔
    (text.length + 1 < bufferLen.toNat → c.Fits item) ∧
      c.AllFit bufferLen (text ++ c.render item) items := by
  constructor
  · intro h
    refine ⟨fun hroom => h [] item items rfl (by rwa [Copy.expansion, List.flatMap_nil,
      List.append_nil]), fun pre it post hsplit hroom => ?_⟩
    refine h (item :: pre) it post (by rw [hsplit, List.cons_append]) ?_
    rwa [expansion_cons, ← List.append_assoc]
  · rintro ⟨hitem, hitems⟩ pre it post hsplit hroom
    cases pre with
    | nil =>
      obtain ⟨rfl, rfl⟩ := List.cons.inj hsplit
      rw [Copy.expansion, List.flatMap_nil, List.append_nil] at hroom
      exact hitem hroom
    | cons first pre =>
      obtain ⟨rfl, htail⟩ := List.cons.inj hsplit
      rw [expansion_cons, ← List.append_assoc] at hroom
      exact hitems pre it post htail hroom

theorem allFit_of_full (h : bufferLen.toNat ≤ text.length + 1) :
    c.AllFit bufferLen text items := by
  intro pre item post _ hroom
  rw [List.length_append] at hroom
  omega

/-- What is in the buffer after a run is the start of the expansion. -/
theorem emitAll_holds {fault : Option Fault} : ∀ {items : List Item} {text : List UInt8}
    {b b' : Buff}, b.Holds text → c.emitAll fault items b = .ok b' →
    b'.bufferLen = b.bufferLen ∧ b'.Holds (text ++ c.expansion items)
  | [], text, b, b', h, hrun => by
    rw [Copy.expansion, List.flatMap_nil, List.append_nil]
    rw [Copy.emitAll] at hrun
    split at hrun
    · cases hrun
      exact ⟨rfl, h⟩
    · cases fault with
      | none =>
        cases hrun
        exact ⟨rfl, h⟩
      | some e => cases hrun
  | item :: items, text, b, b', h, hrun => by
    rcases Nat.lt_or_ge (text.length + 1) b.bufferLen.toNat with hroom | hfull
    · rw [Copy.emitAll, if_neg (h.not_full hroom)] at hrun
      by_cases hfits : c.Fits item
      · rw [emit_ok hfits h hroom] at hrun
        rw [expansion_cons, ← List.append_assoc]
        have hend := emitAll_holds (holds_take b (text ++ c.render item)) hrun
        exact hend
      · obtain ⟨e, he⟩ := emit_error hfits b
        rw [he] at hrun
        cases hrun
    · rw [emitAll_full c _ _ (h.full_iff.2 hfull)] at hrun
      cases hrun
      exact ⟨rfl, h.append_of_full hfull _⟩

/-- A run gets to its end when every item that it reaches fits, and when it does not reach the
fault that ends the walk. -/
theorem exists_emitAll_iff {fault : Option Fault} : ∀ {items : List Item} {text : List UInt8}
    {b : Buff}, b.Holds text → ((∃ b', c.emitAll fault items b = .ok b') ↔
      c.AllFit b.bufferLen text items ∧
        (fault = none ∨ b.bufferLen.toNat ≤ (text ++ c.expansion items).length + 1))
  | [], text, b, h => by
    have hfits : c.AllFit b.bufferLen text [] := fun pre _ _ hsplit =>
      absurd hsplit.symm (by simp)
    rw [Copy.expansion, List.flatMap_nil, List.append_nil, ← h.full_iff, Copy.emitAll]
    split
    · rename_i hfull
      exact ⟨fun _ => ⟨hfits, .inr hfull⟩, fun _ => ⟨b, rfl⟩⟩
    · rename_i hroom
      cases fault with
      | none => exact ⟨fun _ => ⟨hfits, .inl rfl⟩, fun _ => ⟨b, rfl⟩⟩
      | some e =>
        constructor
        · rintro ⟨b', hb'⟩
          cases hb'
        · rintro ⟨_, hend | hend⟩
          · cases hend
          · exact absurd hend hroom
  | item :: items, text, b, h => by
    rcases Nat.lt_or_ge (text.length + 1) b.bufferLen.toNat with hroom | hfull
    · rw [Copy.emitAll, if_neg (h.not_full hroom), allFit_cons, expansion_cons, ← List.append_assoc]
      by_cases hfits : c.Fits item
      · rw [emit_ok hfits h hroom]
        have hrest : (∃ b', c.emitAll fault items
            { b with text := (text ++ c.render item).take (b.bufferLen.toNat - 1) } = .ok b') ↔
              _ :=
          exists_emitAll_iff (holds_take b _)
        rw [and_iff_right fun _ => hfits]
        exact hrest
      · obtain ⟨e, he⟩ := emit_error hfits b
        rw [he]
        constructor
        · rintro ⟨b', hb'⟩
          cases hb'
        · rintro ⟨⟨hitem, _⟩, _⟩
          exact absurd (hitem hroom) hfits
    · rw [emitAll_full c _ _ (h.full_iff.2 hfull)]
      refine ⟨fun _ => ⟨allFit_of_full hfull, .inr ?_⟩, fun _ => ⟨b, rfl⟩⟩
      rw [List.length_append]
      omega

end

section

variable (c : Copy) (bufferLen : UInt32) (fmt : Text) (va : List VaArg)

theorem miniVsnprintf_eq_emitAll : c.miniVsnprintf bufferLen fmt va
    = (c.emitAll (parse fmt va).fault (parse fmt va).items ⟨[], bufferLen⟩).map
        fun b => ⟨b.text, Int.bmod b.text.length (2 ^ 32)⟩ := by
  rw [Copy.miniVsnprintf, loop_eq_emitAll c _ _ _ _ fmt.2 (Nat.lt_succ_self _), parse]
  generalize c.emitAll _ _ _ = b
  cases b <;> rfl

/-- Before the first character, the buffer is as empty as it can be. -/
theorem holds_nil : (⟨[], bufferLen⟩ : Buff).Holds [] := List.take_nil.symm

variable {c bufferLen fmt va}

/-- What is printed is the start of the expansion, and its length is returned as an `int`. -/
theorem miniVsnprintf_text {r : Printed} (h : c.miniVsnprintf bufferLen fmt va = .ok r) :
    r.text = (c.expansion (parse fmt va).items).take (bufferLen.toNat - 1) ∧
      r.ret = Int.bmod r.text.length (2 ^ 32) := by
  rw [miniVsnprintf_eq_emitAll] at h
  cases hrun : c.emitAll (parse fmt va).fault (parse fmt va).items ⟨[], bufferLen⟩ with
  | error e =>
    rw [hrun] at h
    cases h
  | ok b =>
    obtain ⟨hlen, hholds⟩ := emitAll_holds (holds_nil bufferLen) hrun
    rw [hrun, Except.map, Except.ok.injEq] at h
    rw [List.nil_append, Buff.Holds, hlen] at hholds
    rw [← h]
    exact ⟨hholds, by dsimp only⟩

variable (c bufferLen fmt va)

theorem exists_miniVsnprintf_iff : (∃ r, c.miniVsnprintf bufferLen fmt va = .ok r) ↔
    c.AllFit bufferLen [] (parse fmt va).items ∧
      ((parse fmt va).fault = none ∨
        bufferLen.toNat ≤ (c.expansion (parse fmt va).items).length + 1) := by
  have hrun : (∃ b, c.emitAll (parse fmt va).fault (parse fmt va).items ⟨[], bufferLen⟩ = .ok b)
      ↔ _ := exists_emitAll_iff (holds_nil bufferLen)
  rw [List.nil_append] at hrun
  rw [← hrun, miniVsnprintf_eq_emitAll]
  generalize c.emitAll _ _ _ = b
  cases b with
  | error e =>
    constructor
    · rintro ⟨r, hr⟩
      cases hr
    · rintro ⟨b, hb⟩
      cases hb
  | ok b => exact ⟨fun _ => ⟨b, rfl⟩, fun _ => ⟨_, rfl⟩⟩

end

theorem bmod_natCast {n : ℕ} (h : n < 2 ^ 31) : Int.bmod n (2 ^ 32) = n :=
  Int.bmod_eq_of_le (by omega) (by omega)

/-- A length from `2 ^ 31` on is a negative `int`. -/
theorem bmod_neg {n : ℕ} (h : 2 ^ 31 ≤ n) (hlt : n < 2 ^ 32) : Int.bmod n (2 ^ 32) < 0 := by
  rw [Int.bmod_def, Int.emod_eq_of_lt (by omega) (by omega)]
  split <;> omega

/-- The kernel's `mini_vsnprintf` stays inside `buffer` and `bf`, and returns the number of
characters that it has taken from the expansion, exactly when every number that is reached fits
into `bf` with its padding and its sign, every string that is reached has fewer than `2 ^ 32`
characters, and fewer than `2 ^ 31` characters are printed. -/
theorem kernel_within_iff (bufferLen : UInt32) (fmt : Text) (va : List VaArg)
    (hlen : 1 ≤ bufferLen) (hva : Matches fmt va) :
    (∃ r, kernel.miniVsnprintf bufferLen fmt va = .ok r ∧
        0 ≤ r.ret ∧ r.ret ≤ bufferLen.toNat - 1 ∧
        r.text = (kernel.expansion (parse fmt va).items).take r.ret.toNat) ↔
      (∀ pre item post, (parse fmt va).items = pre ++ item :: post →
        (kernel.expansion pre).length + 1 < bufferLen.toNat → kernel.Fits item) ∧
      min (bufferLen.toNat - 1) (kernel.expansion (parse fmt va).items).length < 2 ^ 31 := by
  have hfault : (parse fmt va).fault = none := (parse_fault fmt va).resolve_right hva
  have hpos : 1 ≤ bufferLen.toNat := UInt32.le_iff_toNat_le.1 hlen
  have hword : bufferLen.toNat < 2 ^ 32 := bufferLen.toNat_lt
  have hrun := exists_miniVsnprintf_iff kernel bufferLen fmt va
  rw [and_iff_left (.inl hfault)] at hrun
  constructor
  · rintro ⟨r, hr, hnonneg, -, -⟩
    obtain ⟨htext, hret⟩ := miniVsnprintf_text hr
    refine ⟨hrun.1 ⟨r, hr⟩, ?_⟩
    rw [← List.length_take, ← htext]
    have hlength : r.text.length ≤ bufferLen.toNat - 1 := by
      rw [htext, List.length_take]
      exact Nat.min_le_left _ _
    by_contra hlong
    have hneg := bmod_neg (Nat.le_of_not_lt hlong) (by omega)
    omega
  · rintro ⟨hfits, hshort⟩
    obtain ⟨r, hr⟩ := hrun.2 hfits
    obtain ⟨htext, hret⟩ := miniVsnprintf_text hr
    have hlength : r.text.length
        = min (bufferLen.toNat - 1) (kernel.expansion (parse fmt va).items).length := by
      rw [htext, List.length_take]
    rw [bmod_natCast (by rwa [hlength])] at hret
    refine ⟨r, hr, ?_, ?_, ?_⟩
    · rw [hret]
      exact Int.natCast_nonneg _
    · omega
    · rw [hret, Int.toNat_natCast, hlength, ← List.take_eq_take_min, htext]

/-- `"%05d"` with the argument 42. -/
theorem kernel_within_padded :
    (∃ r, kernel.miniVsnprintf 256 ⟨[37, 48, 53, 100], by decide⟩ [.int 42] = .ok r ∧
        0 ≤ r.ret ∧ r.ret ≤ (256 : UInt32).toNat - 1 ∧
        r.text = (kernel.expansion (parse ⟨[37, 48, 53, 100], by decide⟩ [.int 42]).items).take
          r.ret.toNat) ↔
      (∀ pre item post,
        (parse ⟨[37, 48, 53, 100], by decide⟩ [.int 42]).items = pre ++ item :: post →
        (kernel.expansion pre).length + 1 < (256 : UInt32).toNat → kernel.Fits item) ∧
      min ((256 : UInt32).toNat - 1)
        (kernel.expansion (parse ⟨[37, 48, 53, 100], by decide⟩ [.int 42]).items).length < 2 ^ 31 :=
  kernel_within_iff 256 ⟨[37, 48, 53, 100], by decide⟩ [.int 42] (by decide) (by decide)

/-- `"%024d"` stores the NUL of 24 digits behind `bf`. -/
theorem kernel_leaves_bf : ¬ ∀ (bufferLen : UInt32) (fmt : Text) (va : List VaArg),
    1 ≤ bufferLen → Matches fmt va →
    ∃ r, kernel.miniVsnprintf bufferLen fmt va = .ok r ∧
      0 ≤ r.ret ∧ r.ret ≤ bufferLen.toNat - 1 ∧
      r.text = (kernel.expansion (parse fmt va).items).take r.ret.toNat := by
  intro hall
  obtain ⟨r, hr, -⟩ := hall 256 ⟨[37, 48, 50, 52, 100], by decide⟩ [.int 0] (by decide) (by decide)
  have hfault : kernel.miniVsnprintf 256 ⟨[37, 48, 50, 52, 100], by decide⟩ [.int 0]
      = .error .bf := by decide
  rw [hfault] at hr
  cases hr

end Printf
end UcasOs
