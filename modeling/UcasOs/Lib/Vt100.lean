import Mathlib.Data.Set.Insert
import Mathlib.Data.Prod.Basic
import Mathlib.Logic.Function.Basic
import Mathlib.Order.Basic
import Mathlib.Order.Lattice

/-!
# Character terminals

A terminal seen from the serial line that feeds it, whatever program is at the other end.

* `Terminal` — what is assumed of a terminal with at least `rows` rows and `cols` columns: the
  cursor address sequence `ESC [ y ; x H` moves the cursor, a printable character is written at the
  cursor, and each of them leaves every other cell alone.  What the bytes before did to the parser
  is not assumed: `Ground` says that no sequence is pending.
* `Terminal.Shows` — a set of cells shows what a function says, with the rules for the sequences:
  `Shows.draw` adds a cell, `Shows.cup`, `Shows.hide` and `Shows.erase` keep the set.
* `Emulator` — a terminal that works byte by byte, and `emulator`, the proof that it is one.

Rows and columns count from one.  A parameter `0` stands for `1`, as on a VT100.
-/

set_option autoImplicit false

namespace Vt100

/-! ## Numbers in sequences -/

/-- The byte is a decimal digit. -/
def IsDigit (d : UInt8) : Prop := 48 ≤ d ∧ d ≤ 57

/-- The byte is a printable ASCII character. -/
def Printable (c : UInt8) : Prop := 32 ≤ c ∧ c ≤ 126

instance (d : UInt8) : Decidable (IsDigit d) := inferInstanceAs (Decidable (_ ∧ _))

instance (c : UInt8) : Decidable (Printable c) := inferInstanceAs (Decidable (_ ∧ _))

theorem Printable.ne_zero {c : UInt8} (h : Printable c) : c ≠ 0 := by
  rintro rfl
  exact absurd h.1 (by decide)

/-- The bytes are the digits of a number. -/
def IsNumber (ds : List UInt8) : Prop := ds ≠ [] ∧ ∀ d ∈ ds, IsDigit d

/-- One more digit behind a number. -/
def shiftIn (v : ℕ) (d : UInt8) : ℕ := 10 * v + (d.toNat - 48)

/-- The number that the digits are, the most significant first. -/
def decimalValue (ds : List UInt8) : ℕ := ds.foldl shiftIn 0

theorem decimalValue_concat (ds : List UInt8) (d : UInt8) :
    decimalValue (ds ++ [d]) = 10 * decimalValue ds + (d.toNat - 48) := by
  rw [decimalValue, List.foldl_append]
  rfl

/-! ## Sequences -/

/-- `ESC [ y ; x H`, the cursor address sequence. -/
def cup (ys xs : List UInt8) : List UInt8 := [27, 91] ++ ys ++ [59] ++ xs ++ [72]

/-- `ESC [ 2 J`, which erases the display. -/
def eraseDisplay : List UInt8 := [27, 91, 50, 74]

/-- `ESC [ ? 2 5 l`, which hides the cursor. -/
def hideCursor : List UInt8 := [27, 91, 63, 50, 53, 108]

/-- **A terminal.**  The states are those of the terminal and its parser; the laws say what a
program that draws relies on.  `erase_cell` is weaker than what a VT100 does, which blanks every
cell. -/
structure Terminal (rows cols : ℕ) (σ : Type) where
  /-- A byte arrives. -/
  put : σ → UInt8 → σ
  /-- The character that the row and column show. -/
  cell : σ → ℕ × ℕ → UInt8
  /-- The row and column of the cursor. -/
  cursor : σ → ℕ × ℕ
  /-- No sequence is pending. -/
  Ground : σ → Prop
  cup_ground : ∀ t ys xs, IsNumber ys → IsNumber xs → Ground ((cup ys xs).foldl put t)
  cup_cursor : ∀ t ys xs, IsNumber ys → IsNumber xs →
    max 1 (decimalValue ys) ≤ rows → max 1 (decimalValue xs) ≤ cols →
    cursor ((cup ys xs).foldl put t) = (max 1 (decimalValue ys), max 1 (decimalValue xs))
  cup_cell : ∀ t ys xs, IsNumber ys → IsNumber xs → Ground t →
    cell ((cup ys xs).foldl put t) = cell t
  print_ground : ∀ t c, Ground t → Printable c → Ground (put t c)
  print_cell : ∀ t c, Ground t → Printable c →
    cell (put t c) = Function.update (cell t) (cursor t) c
  erase_ground : ∀ t, Ground t → Ground (eraseDisplay.foldl put t)
  erase_cell : ∀ t p, Ground t →
    cell (eraseDisplay.foldl put t) p = cell t p ∨ cell (eraseDisplay.foldl put t) p = 32
  hide_ground : ∀ t, Ground t → Ground (hideCursor.foldl put t)
  hide_cell : ∀ t, Ground t → cell (hideCursor.foldl put t) = cell t

namespace Terminal

variable {rows cols : ℕ} {σ : Type} (T : Terminal rows cols σ)

/-- The bytes arrive, one after the other. -/
def send (t : σ) (bytes : List UInt8) : σ := bytes.foldl T.put t

@[simp] theorem send_nil (t : σ) : T.send t [] = t := rfl

theorem send_append (t : σ) (a b : List UInt8) :
    T.send t (a ++ b) = T.send (T.send t a) b := List.foldl_append

/-! ## What is shown -/

/-- The cells of `P` show what `f` says, and where there is one, no sequence is pending. -/
def Shows (t : σ) (f : ℕ × ℕ → UInt8) (P : Set (ℕ × ℕ)) : Prop :=
  ∀ p ∈ P, T.Ground t ∧ T.cell t p = f p

variable {T} {t : σ} {f : ℕ × ℕ → UInt8} {P : Set (ℕ × ℕ)}

theorem Shows.mono {Q : Set (ℕ × ℕ)} (h : T.Shows t f P) (hQ : Q ⊆ P) : T.Shows t f Q :=
  fun p hp => h p (hQ hp)

/-- Moving the cursor changes no cell. -/
theorem Shows.cup (h : T.Shows t f P) {ys xs : List UInt8} (hys : IsNumber ys)
    (hxs : IsNumber xs) : T.Shows (T.send t (Vt100.cup ys xs)) f P := by
  intro p hp
  obtain ⟨hground, hcell⟩ := h p hp
  refine ⟨T.cup_ground t ys xs hys hxs, ?_⟩
  rw [send, T.cup_cell t ys xs hys hxs hground]
  exact hcell

theorem Shows.hide (h : T.Shows t f P) : T.Shows (T.send t hideCursor) f P := by
  intro p hp
  obtain ⟨hground, hcell⟩ := h p hp
  refine ⟨T.hide_ground t hground, ?_⟩
  rw [send, T.hide_cell t hground]
  exact hcell

/-- Erasing keeps the cells that show a blank. -/
theorem Shows.erase (h : T.Shows t f P) (hf : ∀ p ∈ P, f p = 32) :
    T.Shows (T.send t eraseDisplay) f P := by
  intro p hp
  obtain ⟨hground, hcell⟩ := h p hp
  refine ⟨T.erase_ground t hground, ?_⟩
  rcases T.erase_cell t p hground with hkept | hblank
  · exact hkept.trans hcell
  · exact hblank.trans (hf p hp).symm

section Draw

variable {ys xs : List UInt8} {p : ℕ × ℕ} {c : UInt8}

theorem ground_draw (hys : IsNumber ys) (hxs : IsNumber xs) (hc : Printable c) :
    T.Ground (T.send t (Vt100.cup ys xs ++ [c])) := by
  rw [send_append]
  exact T.print_ground _ c (T.cup_ground t ys xs hys hxs) hc

/-- A character that is sent behind a cursor move is at the place that the move is to. -/
theorem cell_draw (hys : IsNumber ys) (hxs : IsNumber xs) (hy : max 1 (decimalValue ys) = p.1)
    (hx : max 1 (decimalValue xs) = p.2) (hrow : p.1 ≤ rows) (hcol : p.2 ≤ cols)
    (hc : Printable c) : T.cell (T.send t (Vt100.cup ys xs ++ [c]))
      = Function.update (T.cell (T.send t (Vt100.cup ys xs))) p c := by
  have hcursor : T.cursor (T.send t (Vt100.cup ys xs)) = p := by
    rw [send, T.cup_cursor t ys xs hys hxs (hy ▸ hrow) (hx ▸ hcol), hy, hx]
  rw [send_append]
  exact (T.print_cell _ c (T.cup_ground t ys xs hys hxs) hc).trans (by rw [← hcursor]; rfl)

/-- **Drawing one cell**: move there and send the character.  Nothing is assumed of the cells and
the parser before, unless there is something to keep. -/
theorem Shows.draw (h : T.Shows t f P) (hys : IsNumber ys) (hxs : IsNumber xs)
    (hy : max 1 (decimalValue ys) = p.1) (hx : max 1 (decimalValue xs) = p.2)
    (hrow : p.1 ≤ rows) (hcol : p.2 ≤ cols) (hf : Printable (f p)) :
    T.Shows (T.send t (Vt100.cup ys xs ++ [f p])) f (insert p P) := by
  intro q hq
  refine ⟨ground_draw hys hxs hf, ?_⟩
  rw [cell_draw hys hxs hy hx hrow hcol hf]
  by_cases hqp : q = p
  · rw [hqp, Function.update_self]
  · rw [Function.update_of_ne hqp]
    exact (h.cup hys hxs q (hq.resolve_left hqp)).2

end Draw

/-! ## Telling two terminals apart -/

/-- The two terminals show the same, except that the first has `a` at `p`. -/
structure DiffersAt (T : Terminal rows cols σ) (p : ℕ × ℕ) (a : UInt8) (t u : σ) : Prop where
  ground_left : T.Ground t
  ground_right : T.Ground u
  cell : T.cell t = Function.update (T.cell u) p a

variable {u : σ} {p : ℕ × ℕ} {a : UInt8}

theorem DiffersAt.cup (h : T.DiffersAt p a t u) {ys xs : List UInt8} (hys : IsNumber ys)
    (hxs : IsNumber xs) :
    T.DiffersAt p a (T.send t (Vt100.cup ys xs)) (T.send u (Vt100.cup ys xs)) where
  ground_left := T.cup_ground t ys xs hys hxs
  ground_right := T.cup_ground u ys xs hys hxs
  cell := by
    rw [send, send, T.cup_cell t ys xs hys hxs h.ground_left,
      T.cup_cell u ys xs hys hxs h.ground_right, h.cell]

/-- Drawing another cell keeps the difference. -/
theorem DiffersAt.draw (h : T.DiffersAt p a t u) {ys xs : List UInt8} {q : ℕ × ℕ} {c : UInt8}
    (hys : IsNumber ys) (hxs : IsNumber xs) (hy : max 1 (decimalValue ys) = q.1)
    (hx : max 1 (decimalValue xs) = q.2) (hrow : q.1 ≤ rows) (hcol : q.2 ≤ cols)
    (hc : Printable c) (hqp : q ≠ p) :
    T.DiffersAt p a (T.send t (Vt100.cup ys xs ++ [c])) (T.send u (Vt100.cup ys xs ++ [c])) where
  ground_left := ground_draw hys hxs hc
  ground_right := ground_draw hys hxs hc
  cell := by
    rw [cell_draw hys hxs hy hx hrow hcol hc, cell_draw hys hxs hy hx hrow hcol hc,
      (h.cup hys hxs).cell, Function.update_comm hqp]

/-- Two terminals are not apart in two ways. -/
theorem DiffersAt.unique {b : UInt8} (hab : a ≠ b) (h : T.DiffersAt p a t u)
    (h' : T.DiffersAt p b u t) {q : ℕ × ℕ} (hq : T.cell t = Function.update (T.cell u) q a) :
    q = p := by
  by_contra hne
  have hb : T.cell u p = b := by rw [h'.cell, Function.update_self]
  have ha : T.cell t p = a := by rw [h.cell, Function.update_self]
  rw [hq, Function.update_of_ne (Ne.symm hne), hb] at ha
  exact hab ha.symm

end Terminal

/-! ## A terminal, byte by byte -/

/-- What the parser waits for. -/
inductive Parser
  /-- A character, or the start of a sequence. -/
  | ground
  /-- What follows `ESC`. -/
  | escape
  /-- The rest of `ESC [`, with the parameters so far and the one being read. -/
  | csi (done : List ℕ) (current : ℕ)
  /-- The end of a private sequence. -/
  | ignore

/-- The state of the terminal. -/
structure Emulator where
  parser : Parser
  cursor : ℕ × ℕ
  cell : ℕ × ℕ → UInt8

namespace Emulator

/-- The last byte of `ESC [` has come. -/
def dispatch (rows cols : ℕ) (e : Emulator) (params : List ℕ) (c : UInt8) : Emulator :=
  match c, params with
  | 72, [y, x] => { e with cursor := (max 1 (min rows y), max 1 (min cols x)) }
  | 74, [2] => { e with cell := fun _ => 32 }
  | _, _ => e

/-- A byte arrives. -/
def put (rows cols : ℕ) (e : Emulator) (c : UInt8) : Emulator :=
  if c = 27 then { e with parser := .escape }
  else match e.parser with
    | .ground =>
      if Printable c then
        { e with
          cell := Function.update e.cell e.cursor c
          cursor := (e.cursor.1, min cols (e.cursor.2 + 1)) }
      else e
    | .escape => { e with parser := if c = 91 then .csi [] 0 else .ground }
    | .csi done current =>
      if IsDigit c then { e with parser := .csi done (shiftIn current c) }
      else if c = 59 then { e with parser := .csi (done ++ [current]) 0 }
      else if c = 63 then { e with parser := .ignore }
      else { e.dispatch rows cols (done ++ [current]) c with parser := .ground }
    | .ignore => { e with parser := if 64 ≤ c then .ground else .ignore }

variable (rows cols : ℕ)

theorem put_digits {ds : List UInt8} (hds : ∀ d ∈ ds, IsDigit d) (e : Emulator)
    (done : List ℕ) (v : ℕ) :
    ds.foldl (put rows cols) { e with parser := .csi done v }
      = { e with parser := .csi done (ds.foldl shiftIn v) } := by
  induction ds generalizing v with
  | nil => rfl
  | cons d ds ih =>
    have hd : IsDigit d := hds d List.mem_cons_self
    have hesc : d ≠ 27 := by
      rintro rfl
      exact absurd hd.1 (by decide)
    rw [List.foldl_cons, List.foldl_cons, put, if_neg hesc]
    simp only [if_pos hd]
    exact ih (fun d' hd' => hds d' (List.mem_cons_of_mem d hd')) _

theorem put_cup {ys xs : List UInt8} (hys : IsNumber ys) (hxs : IsNumber xs) (e : Emulator) :
    (cup ys xs).foldl (put rows cols) e
      = { e with
          parser := .ground
          cursor := (max 1 (min rows (decimalValue ys)), max 1 (min cols (decimalValue xs))) } := by
  have hstart : [27, 91].foldl (put rows cols) e = { e with parser := .csi [] 0 } := rfl
  have hsemi : ∀ v, [59].foldl (put rows cols) { e with parser := .csi [] v }
      = { e with parser := .csi [v] 0 } := fun v => rfl
  have hend : ∀ y x, [72].foldl (put rows cols) { e with parser := .csi [y] x }
      = { e with parser := .ground, cursor := (max 1 (min rows y), max 1 (min cols x)) } :=
    fun y x => rfl
  rw [cup, List.foldl_append, List.foldl_append, List.foldl_append, List.foldl_append, hstart,
    put_digits rows cols hys.2, hsemi, put_digits rows cols hxs.2, hend]
  rfl

end Emulator

/-- **The emulator is a terminal.** -/
def emulator (rows cols : ℕ) : Terminal rows cols Emulator where
  put := Emulator.put rows cols
  cell := Emulator.cell
  cursor := Emulator.cursor
  Ground e := e.parser = .ground
  cup_ground e ys xs hys hxs := by rw [Emulator.put_cup rows cols hys hxs]
  cup_cursor e ys xs hys hxs hy hx := by
    have hy' : max 1 (min rows (decimalValue ys)) = max 1 (decimalValue ys) := by omega
    have hx' : max 1 (min cols (decimalValue xs)) = max 1 (decimalValue xs) := by omega
    rw [Emulator.put_cup rows cols hys hxs, hy', hx']
  cup_cell e ys xs hys hxs _ := by rw [Emulator.put_cup rows cols hys hxs]
  print_ground e c he hc := by
    have hesc : c ≠ 27 := by
      rintro rfl
      exact absurd hc.1 (by decide)
    rw [Emulator.put, if_neg hesc, he]
    simp only [if_pos hc]
  print_cell e c he hc := by
    have hesc : c ≠ 27 := by
      rintro rfl
      exact absurd hc.1 (by decide)
    rw [Emulator.put, if_neg hesc, he]
    simp only [if_pos hc]
  erase_ground e _ := rfl
  erase_cell e p _ := Or.inr rfl
  hide_ground e _ := rfl
  hide_cell e _ := rfl

end Vt100
