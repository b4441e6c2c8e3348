import UcasOs.Kernel.State
import UcasOs.Lib.Bytes
import UcasOs.Libs.Printk
import Mathlib.Data.List.ProdSigma
import Mathlib.Data.Fintype.Prod
import Mathlib.Logic.Equiv.Fin.Basic
import Mathlib.Tactic.Ring

/-!
# The screen driver

`screen.c`: a buffer of what the screen should show, a mirror of what the terminal shows, and the
calls that tasks make on them.  The two cursor fields of the PCBs are here too; `current_running`
is an argument, since no call of the driver switches tasks.

`Screen` adds two histories that no function reads.  `output` is every byte sent to the serial
port, and `stores` every store that `screen_write_ch` made, with the cursor it was made at.  The
source indexes its buffers without a check: here a store outside the buffer is recorded, and what
it overwrites instead is not modelled.
-/

set_option autoImplicit false

namespace UcasOs

open Vt100

/-- `SCREEN_WIDTH` -/
abbrev SCREEN_WIDTH : ℕ := 80

/-- `SCREEN_HEIGHT` -/
abbrev SCREEN_HEIGHT : ℕ := 50

/-- `SCREEN_LOC(x, y)` -/
def screenLoc (x y : ℤ) : ℤ := y * SCREEN_WIDTH + x

/-- A screen buffer. -/
abbrev Buffer : Type := Fin (SCREEN_HEIGHT * SCREEN_WIDTH) → UInt8

namespace Buffer

/-- `b[SCREEN_LOC(j, i)]`, for a row and a column of the screen. -/
def cell (b : Buffer) (j : Fin SCREEN_WIDTH) (i : Fin SCREEN_HEIGHT) : UInt8 :=
  b (finProdFinEquiv (i, j))

/-- `b[k] = ch` -/
def set (b : Buffer) (k : ℤ) (ch : UInt8) : Buffer := fun l => if (l : ℤ) = k then ch else b l

end Buffer

/-- A store of `screen_write_ch`. -/
structure Store where
  /-- `current_running` -/
  pcb : PcbPtr
  /-- Its `cursor_x` and `cursor_y` at the time. -/
  cursor : ℤ × ℤ
  /-- The index in `new_screen`. -/
  index : ℤ
  ch : UInt8
  deriving DecidableEq

structure Screen where
  newScreen : Buffer
  oldScreen : Buffer
  /-- `cursor_x` and `cursor_y` of the PCBs. -/
  cursor : PcbPtr → ℤ × ℤ
  output : List UInt8
  stores : List Store

/-- `vt100_move_cursor` -/
def vt100MoveCursor (x y : ℤ) : List UInt8 :=
  printv ['%', 'c', '[', '%', 'd', ';', '%', 'd', 'H'] [27, y, x]

/-- `vt100_clear` -/
def vt100Clear : List UInt8 := printv ['%', 'c', '[', '2', 'J'] [27]

/-- `vt100_hidden_cursor` -/
def vt100HiddenCursor : List UInt8 := printv ['%', 'c', '[', '?', '2', '5', 'l'] [27]

/-- The loops `for (i = 0; i < SCREEN_HEIGHT; i++) for (j = 0; j < SCREEN_WIDTH; j++)`. -/
def forCells (body : Screen → Fin SCREEN_WIDTH → Fin SCREEN_HEIGHT → Screen) (s : Screen) :
    Screen :=
  (List.finRange SCREEN_HEIGHT).foldl
    (fun s i => (List.finRange SCREEN_WIDTH).foldl (fun s j => body s j i) s) s

namespace Screen

/-- `bios_putstr`: the bytes go to the serial port. -/
def send (s : Screen) (bytes : List UInt8) : Screen := { s with output := s.output ++ bytes }

/-- `screen_write_ch` -/
def screenWriteCh (p : PcbPtr) (s : Screen) (ch : UInt8) : Screen :=
  let (x, y) := s.cursor p
  if ch = 10 then { s with cursor := Function.update s.cursor p (0, y + 1) }
  else
    { s with
      newScreen := s.newScreen.set (screenLoc x y) ch
      cursor := Function.update s.cursor p (x + 1, y)
      stores := s.stores ++ [⟨p, (x, y), screenLoc x y, ch⟩] }

/-- The body of the loops of `screen_reflush`. -/
def reflushCell (s : Screen) (j : Fin SCREEN_WIDTH) (i : Fin SCREEN_HEIGHT) : Screen :=
  if s.newScreen.cell j i ≠ s.oldScreen.cell j i then
    { s with
      output := s.output ++ vt100MoveCursor (j + 1) (i + 1) ++ [s.newScreen.cell j i]
      oldScreen := s.oldScreen.set (screenLoc j i) (s.newScreen.cell j i) }
  else s

/-- `screen_reflush` -/
def screenReflush (p : PcbPtr) (s : Screen) : Screen :=
  let s := forCells reflushCell s
  s.send (vt100MoveCursor (s.cursor p).1 (s.cursor p).2)

/-- The body of the loops of `screen_clear`. -/
def clearCell (s : Screen) (j : Fin SCREEN_WIDTH) (i : Fin SCREEN_HEIGHT) : Screen :=
  { s with newScreen := s.newScreen.set (screenLoc j i) 32 }

/-- `screen_clear` -/
def screenClear (p : PcbPtr) (s : Screen) : Screen :=
  let s := forCells clearCell s
  screenReflush p { s with cursor := Function.update s.cursor p (0, 0) }

/-- `init_screen` -/
def initScreen (p : PcbPtr) (s : Screen) : Screen :=
  screenClear p ((s.send vt100HiddenCursor).send vt100Clear)

/-- `screen_move_cursor` -/
def screenMoveCursor (p : PcbPtr) (x y : ℤ) (s : Screen) : Screen :=
  { s with cursor := Function.update s.cursor p (x, y) }.send (vt100MoveCursor (x + 1) (y + 1))

/-- `screen_write`.  `buff` is the memory from the pointer on, and `strlen` stops at its `NUL`. -/
def screenWrite (p : PcbPtr) (buff : List UInt8) (s : Screen) : Screen :=
  (cString buff).foldl (screenWriteCh p) s

/-! ## Runs -/

/-- The screen before the first call: the buffers are in `.bss`.  The cursors are zero in `pcb[]`,
which is in `.bss` too, and anything in a TCB. -/
def boot (cursor : PcbPtr → ℤ × ℤ) : Screen where
  newScreen _ := 0
  oldScreen _ := 0
  cursor := cursor
  output := []
  stores := []

end Screen

/-- The calls that tasks, and the kernel's `printk`, make. -/
inductive ScreenCall
  | moveCursor (x y : ℤ)
  | write (buff : List UInt8)
  | reflush
  deriving DecidableEq

namespace Screen

/-- `current_running` makes a call. -/
def call (s : Screen) : PcbPtr × ScreenCall → Screen
  | (p, .moveCursor x y) => screenMoveCursor p x y s
  | (p, .write buff) => screenWrite p buff s
  | (p, .reflush) => screenReflush p s

/-- The calls are made one after the other, each by whoever is running. -/
def run (s : Screen) (calls : List (PcbPtr × ScreenCall)) : Screen := calls.foldl call s

end Screen

namespace Screen

theorem screenWriteCh_newline (p : PcbPtr) (s : Screen) :
    screenWriteCh p s 10
      = { s with cursor := Function.update s.cursor p (0, (s.cursor p).2 + 1) } := rfl

theorem screenWriteCh_char (p : PcbPtr) (s : Screen) {ch : UInt8} (h : ch ≠ 10) :
    screenWriteCh p s ch
      = { s with
          newScreen := s.newScreen.set (screenLoc (s.cursor p).1 (s.cursor p).2) ch
          cursor := Function.update s.cursor p ((s.cursor p).1 + 1, (s.cursor p).2)
          stores := s.stores
            ++ [⟨p, s.cursor p, screenLoc (s.cursor p).1 (s.cursor p).2, ch⟩] } :=
  if_neg h

end Screen

/-! ## What the calls send -/

/-- A cursor move of the driver is a cursor address sequence. -/
theorem vt100MoveCursor_eq (x y : ℤ) :
    vt100MoveCursor x y
      = cup (miniItoa (y % 2 ^ 32).toNat) (miniItoa (x % 2 ^ 32).toNat) := by
  rw [vt100MoveCursor, cup]
  simp only [printv, List.append_assoc]
  rfl

theorem vt100Clear_eq : vt100Clear = eraseDisplay := by decide

theorem vt100HiddenCursor_eq : vt100HiddenCursor = hideCursor := by decide

/-! ## Cells -/

/-- The row and the column of a cell of the screen. -/
abbrev Cell : Type := Fin SCREEN_HEIGHT × Fin SCREEN_WIDTH

/-- The cells in the order the loops visit them. -/
def cells : List Cell := List.finRange SCREEN_HEIGHT ×ˢ List.finRange SCREEN_WIDTH

theorem mem_cells (c : Cell) : c ∈ cells :=
  List.mem_product.2 ⟨List.mem_finRange c.1, List.mem_finRange c.2⟩

theorem nodup_cells : cells.Nodup :=
  (List.nodup_finRange SCREEN_HEIGHT).product (List.nodup_finRange SCREEN_WIDTH)

theorem forCells_eq (body : Screen → Fin SCREEN_WIDTH → Fin SCREEN_HEIGHT → Screen) (s : Screen) :
    forCells body s = cells.foldl (fun s c => body s c.2 c.1) s := by
  have hcells : cells = (List.finRange SCREEN_HEIGHT).flatMap
      fun i => (List.finRange SCREEN_WIDTH).map (Prod.mk i) := rfl
  rw [hcells, List.foldl_flatMap, forCells]
  simp only [List.foldl_map]

/-- What every pass of the body keeps, the loops keep. -/
theorem forCells_induction {motive : Screen → Prop}
    {body : Screen → Fin SCREEN_WIDTH → Fin SCREEN_HEIGHT → Screen} {s : Screen}
    (hs : motive s) (hbody : ∀ s j i, motive s → motive (body s j i)) :
    motive (forCells body s) := by
  rw [forCells_eq]
  induction cells generalizing s with
  | nil => exact hs
  | cons c rest ih => exact ih (hbody s c.2 c.1 hs)

namespace Buffer

/-- `SCREEN_LOC` gives every cell an index of its own. -/
theorem cell_set (b : Buffer) (j j' : Fin SCREEN_WIDTH) (i i' : Fin SCREEN_HEIGHT) (ch : UInt8) :
    (b.set (screenLoc j i) ch).cell j' i' = if i' = i ∧ j' = j then ch else b.cell j' i' := by
  have hval : ((finProdFinEquiv (i', j') : Fin (SCREEN_HEIGHT * SCREEN_WIDTH)) : ℤ)
      = screenLoc j' i' := by
    rw [finProdFinEquiv_apply_val, screenLoc]
    push_cast
    ring
  rw [cell, set, hval]
  refine if_congr ?_ rfl rfl
  have hwidth : (SCREEN_WIDTH : ℤ) = 80 := rfl
  have hj : (j : ℕ) < 80 := j.isLt
  have hj' : (j' : ℕ) < 80 := j'.isLt
  rw [screenLoc, screenLoc, Fin.ext_iff, Fin.ext_iff, hwidth]
  omega

theorem cell_set_self (b : Buffer) (j : Fin SCREEN_WIDTH) (i : Fin SCREEN_HEIGHT) (ch : UInt8) :
    (b.set (screenLoc j i) ch).cell j i = ch := by
  rw [cell_set, if_pos ⟨rfl, rfl⟩]

theorem cell_set_of_ne (b : Buffer) {c c' : Cell} (h : c' ≠ c) (ch : UInt8) :
    (b.set (screenLoc c.2 c.1) ch).cell c'.2 c'.1 = b.cell c'.2 c'.1 := by
  rw [cell_set, if_neg]
  rintro ⟨hrow, hcol⟩
  exact h (Prod.ext hrow hcol)

/-- Two buffers with the same cells are equal. -/
theorem ext_cell {a b : Buffer} (h : ∀ c : Cell, a.cell c.2 c.1 = b.cell c.2 c.1) : a = b := by
  funext l
  have hl := h (finProdFinEquiv.symm l)
  rw [cell, cell, Prod.mk.eta, Equiv.apply_symm_apply] at hl
  exact hl

/-- What a store leaves in a cell: the character or what was there. -/
theorem cell_set_or (b : Buffer) (k : ℤ) (ch : UInt8) (j : Fin SCREEN_WIDTH)
    (i : Fin SCREEN_HEIGHT) :
    (b.set k ch).cell j i = ch ∨ (b.set k ch).cell j i = b.cell j i := by
  rw [cell, cell, set]
  split
  · exact Or.inl rfl
  · exact Or.inr rfl

end Buffer

namespace Screen

/-! ## What a redraw leaves alone -/

@[simp] theorem newScreen_send (s : Screen) (bytes : List UInt8) :
    (s.send bytes).newScreen = s.newScreen := rfl

@[simp] theorem oldScreen_send (s : Screen) (bytes : List UInt8) :
    (s.send bytes).oldScreen = s.oldScreen := rfl

@[simp] theorem cursor_send (s : Screen) (bytes : List UInt8) :
    (s.send bytes).cursor = s.cursor := rfl

@[simp] theorem stores_send (s : Screen) (bytes : List UInt8) :
    (s.send bytes).stores = s.stores := rfl

@[simp] theorem output_send (s : Screen) (bytes : List UInt8) :
    (s.send bytes).output = s.output ++ bytes := rfl

@[simp] theorem newScreen_reflushCell (s : Screen) (j : Fin SCREEN_WIDTH)
    (i : Fin SCREEN_HEIGHT) : (reflushCell s j i).newScreen = s.newScreen := by
  rw [reflushCell]
  split <;> rfl

@[simp] theorem cursor_reflushCell (s : Screen) (j : Fin SCREEN_WIDTH)
    (i : Fin SCREEN_HEIGHT) : (reflushCell s j i).cursor = s.cursor := by
  rw [reflushCell]
  split <;> rfl

@[simp] theorem stores_reflushCell (s : Screen) (j : Fin SCREEN_WIDTH)
    (i : Fin SCREEN_HEIGHT) : (reflushCell s j i).stores = s.stores := by
  rw [reflushCell]
  split <;> rfl

theorem newScreen_forCells_reflushCell (s : Screen) :
    (forCells reflushCell s).newScreen = s.newScreen :=
  forCells_induction (motive := fun r => r.newScreen = s.newScreen) rfl
    fun r j i hr => (newScreen_reflushCell r j i).trans hr

theorem cursor_forCells_reflushCell (s : Screen) :
    (forCells reflushCell s).cursor = s.cursor :=
  forCells_induction (motive := fun r => r.cursor = s.cursor) rfl
    fun r j i hr => (cursor_reflushCell r j i).trans hr

theorem stores_forCells_reflushCell (s : Screen) :
    (forCells reflushCell s).stores = s.stores :=
  forCells_induction (motive := fun r => r.stores = s.stores) rfl
    fun r j i hr => (stores_reflushCell r j i).trans hr

/-- `screen_reflush` puts the cursor where the fields of the running PCB say. -/
theorem screenReflush_eq (p : PcbPtr) (s : Screen) :
    screenReflush p s
      = (forCells reflushCell s).send (vt100MoveCursor (s.cursor p).1 (s.cursor p).2) := by
  rw [screenReflush]
  simp only [cursor_forCells_reflushCell]

@[simp] theorem newScreen_screenReflush (p : PcbPtr) (s : Screen) :
    (screenReflush p s).newScreen = s.newScreen := by
  rw [screenReflush_eq, newScreen_send, newScreen_forCells_reflushCell]

@[simp] theorem cursor_screenReflush (p : PcbPtr) (s : Screen) :
    (screenReflush p s).cursor = s.cursor := by
  rw [screenReflush_eq, cursor_send, cursor_forCells_reflushCell]

@[simp] theorem stores_screenReflush (p : PcbPtr) (s : Screen) :
    (screenReflush p s).stores = s.stores := by
  rw [screenReflush_eq, stores_send, stores_forCells_reflushCell]

end Screen

end UcasOs
