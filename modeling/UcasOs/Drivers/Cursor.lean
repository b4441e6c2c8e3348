import UcasOs.Drivers.Redraw
import UcasOs.Drivers.Stores

/-!
# Where the cursor is left

Three places turn the cursor of a PCB, which counts from zero, into the row and the column of the
terminal, which count from one.  `screen_move_cursor` and the loops of `screen_reflush` add one;
the last line of `screen_reflush`, which is to "recover cursor position", does not.

* `cursor_screenMoveCursor`, `drawnAt_iff` — the first two agree, for every cell.
* `cursor_reflushed` — the last line moves one up and one left, except where that is off the screen.
* `run_cursor_iff` — so a redraw leaves the cursor where it belongs in the top left corner only.
-/

set_option autoImplicit false

namespace UcasOs

open Vt100

namespace Screen

variable {σ : Type} (T : Terminal SCREEN_HEIGHT SCREEN_WIDTH σ) (t : σ)

/-- A cursor move to a row and a column of the terminal; a zero counts as a one. -/
theorem cursor_vt100MoveCursor {x y : ℤ} (hx : 0 ≤ x) (hcol : x ≤ SCREEN_WIDTH) (hy : 0 ≤ y)
    (hrow : y ≤ SCREEN_HEIGHT) :
    T.cursor (T.send t (vt100MoveCursor x y)) = (max 1 y.toNat, max 1 x.toNat) := by
  have hcol' : x ≤ 80 := hcol
  have hrow' : y ≤ 50 := hrow
  have hxval : decimalValue (miniItoa (x % 2 ^ 32).toNat) = x.toNat := by
    rw [decimalValue_miniItoa, Int.emod_eq_of_lt hx (by omega)]
  have hyval : decimalValue (miniItoa (y % 2 ^ 32).toNat) = y.toNat := by
    rw [decimalValue_miniItoa, Int.emod_eq_of_lt hy (by omega)]
  have hcursor := T.cup_cursor t (miniItoa (y % 2 ^ 32).toNat) (miniItoa (x % 2 ^ 32).toNat)
    (isNumber_miniItoa _) (isNumber_miniItoa _)
  rw [hxval, hyval] at hcursor
  rw [vt100MoveCursor_eq]
  refine hcursor ?_ ?_
  · show max 1 y.toNat ≤ 50
    omega
  · show max 1 x.toNat ≤ 80
    omega

/-- `s` with any buffers, and `ch` in `new_screen[SCREEN_LOC(j, i)]`. -/
def withChar (s : Screen) (new old : Buffer) (j : Fin SCREEN_WIDTH) (i : Fin SCREEN_HEIGHT)
    (ch : UInt8) : Screen :=
  { s with newScreen := new.set (screenLoc j i) ch, oldScreen := old }

/-- What the terminal shows when `screen_reflush` has found the buffers so. -/
def shownWith (p : PcbPtr) (s : Screen) (new old : Buffer) (j : Fin SCREEN_WIDTH)
    (i : Fin SCREEN_HEIGHT) (ch : UInt8) : ℕ × ℕ → UInt8 :=
  T.cell (T.send t (screenReflush p (s.withChar new old j i ch)).output)

/-- `screen_reflush` has to draw `ch`, and draws nothing but printable characters. -/
def HasToDraw (s : Screen) (new old : Buffer) (j : Fin SCREEN_WIDTH) (i : Fin SCREEN_HEIGHT)
    (ch : UInt8) : Prop :=
  ch ≠ old.cell j i ∧ Drawable (s.withChar new old j i ch)

/-- **Where `screen_reflush` draws the cell at the cursor of `p`.**  Whatever there is to draw
besides, with one character there instead of another the terminal shows it in this place, and the
same everywhere else. -/
def DrawnAt (p : PcbPtr) (s : Screen) (place : ℕ × ℕ) : Prop :=
  ∀ (j : Fin SCREEN_WIDTH) (i : Fin SCREEN_HEIGHT) (new old : Buffer) (a b : UInt8),
    s.cursor p = (↑j, ↑i) → HasToDraw s new old j i a → HasToDraw s new old j i b →
      shownWith T t p s new old j i a
        = Function.update (shownWith T t p s new old j i b) place a

/-- The redraw leaves the terminal where `screen_move_cursor` would put it for the same cursor, and
where the redraw draws the character at the cursor. -/
def CursorKept (p : PcbPtr) (s : Screen) : Prop :=
  T.cursor (T.send t (screenReflush p s).output)
      = T.cursor (T.send t (screenMoveCursor p (s.cursor p).1 (s.cursor p).2 s).output) ∧
    DrawnAt T t p s (T.cursor (T.send t (screenReflush p s).output))

variable {T t} {p : PcbPtr} {s : Screen}

theorem cursor_screenMoveCursor {x y : ℤ} (h : OnScreen (x, y)) :
    T.cursor (T.send t (screenMoveCursor p x y s).output) = (y.toNat + 1, x.toNat + 1) := by
  obtain ⟨hx, hright, hy, hbottom⟩ := h
  simp only at hx hright hy hbottom
  rw [screenMoveCursor, output_send, T.send_append, cursor_vt100MoveCursor T _ (by omega)
    (by omega) (by omega) (by omega), Prod.mk.injEq]
  omega

/-! ## Drawing the cell at the cursor -/

section Draw

variable {new old : Buffer} {c : Cell} {a b : UInt8}

/-- Drawing a cell, on two terminals that differ in another one. -/
theorem differsAt_drawCell {u v : σ} {place : ℕ × ℕ} (h : T.DiffersAt place a u v) {c' : Cell}
    (hne : position c' ≠ place) (hprint : Printable (new.cell c'.2 c'.1)) :
    T.DiffersAt place a (T.send u (drawCell new c')) (T.send v (drawCell new c')) := by
  have hi : (c'.1 : ℕ) < 50 := c'.1.isLt
  have hj : (c'.2 : ℕ) < 80 := c'.2.isLt
  rw [drawCell, vt100MoveCursor_eq]
  exact h.draw (q := position c') (isNumber_miniItoa _) (isNumber_miniItoa _)
    (max_one_value (by omega)) (max_one_value (by omega)) c'.1.isLt c'.2.isLt hprint hne

theorem differsAt_flatMap {u v : σ} (h : T.DiffersAt (position c) a u v) {cs : List Cell}
    (hc : c ∉ cs) (hprint : ∀ c' ∈ cs, Printable (new.cell c'.2 c'.1)) :
    T.DiffersAt (position c) a (T.send u (cs.flatMap (drawCell new)))
      (T.send v (cs.flatMap (drawCell new))) := by
  induction cs generalizing u v with
  | nil => exact h
  | cons c' rest ih =>
    rw [List.forall_mem_cons] at hprint
    have hne : c' ≠ c := fun he => hc (he ▸ List.mem_cons_self)
    rw [List.flatMap_cons, T.send_append, T.send_append]
    exact ih (differsAt_drawCell h (position_injective.ne hne) hprint.1)
      (fun hmem => hc (List.mem_cons_of_mem _ hmem)) hprint.2

/-- **Drawing `a` or `b` in the same cell** makes that difference, and no other. -/
theorem differsAt_drawCell_self {new' : Buffer} (ha : new.cell c.2 c.1 = a)
    (hb : new'.cell c.2 c.1 = b) (hprinta : Printable a) (hprintb : Printable b) :
    T.DiffersAt (position c) a (T.send t (drawCell new c)) (T.send t (drawCell new' c)) := by
  have hi : (c.1 : ℕ) < 50 := c.1.isLt
  have hj : (c.2 : ℕ) < 80 := c.2.isLt
  have hy := max_one_value (n := c.1) (by omega)
  have hx := max_one_value (n := c.2) (by omega)
  have hys := isNumber_miniItoa (((c.1 : ℤ) + 1) % 2 ^ 32).toNat
  have hxs := isNumber_miniItoa (((c.2 : ℤ) + 1) % 2 ^ 32).toNat
  rw [drawCell, drawCell, ha, hb, vt100MoveCursor_eq]
  refine ⟨Terminal.ground_draw hys hxs hprinta, Terminal.ground_draw hys hxs hprintb, ?_⟩
  rw [Terminal.cell_draw (p := position c) hys hxs hy hx c.1.isLt c.2.isLt hprinta,
    Terminal.cell_draw (p := position c) hys hxs hy hx c.1.isLt c.2.isLt hprintb,
    Function.update_idem]

theorem differing_withChar (ha : a ≠ old.cell c.2 c.1) (hb : b ≠ old.cell c.2 c.1) :
    differing (s.withChar new old c.2 c.1 a) = differing (s.withChar new old c.2 c.1 b) := by
  refine List.filter_congr fun c' _ => ?_
  rw [withChar, withChar]
  by_cases hc : c' = c
  · rw [hc, Buffer.cell_set_self, Buffer.cell_set_self, decide_eq_true ha, decide_eq_true hb]
  · rw [Buffer.cell_set_of_ne _ hc, Buffer.cell_set_of_ne _ hc]

/-- The cells besides `c` that have to be drawn are the same. -/
theorem flatMap_drawCell_withChar {cs : List Cell} (hc : c ∉ cs) :
    cs.flatMap (drawCell (new.set (screenLoc c.2 c.1) a))
      = cs.flatMap (drawCell (new.set (screenLoc c.2 c.1) b)) := by
  refine List.flatMap_congr fun c' hc' => ?_
  have hne : c' ≠ c := fun he => hc (he ▸ hc')
  rw [drawCell, drawCell, Buffer.cell_set_of_ne _ hne, Buffer.cell_set_of_ne _ hne]

/-- **The two redraws differ in one place of the terminal.** -/
theorem differsAt_screenReflush (ha : HasToDraw s new old c.2 c.1 a)
    (hb : HasToDraw s new old c.2 c.1 b) :
    T.DiffersAt (position c) a
      (T.send t (screenReflush p (s.withChar new old c.2 c.1 a)).output)
      (T.send t (screenReflush p (s.withChar new old c.2 c.1 b)).output) := by
  have hself : ∀ ch, (s.withChar new old c.2 c.1 ch).newScreen.cell c.2 c.1 = ch := fun ch =>
    new.cell_set_self c.2 c.1 ch
  have hdiffers : ∀ ch, ch ≠ old.cell c.2 c.1 →
      c ∈ differing (s.withChar new old c.2 c.1 ch) := fun ch hch =>
    List.mem_filter.2 ⟨mem_cells c, decide_eq_true (by rw [hself]; exact hch)⟩
  have hprint : ∀ {ch}, HasToDraw s new old c.2 c.1 ch → Printable ch := fun {ch} h => by
    have hdraw := h.2 c (of_decide_eq_true (List.mem_filter.1 (hdiffers ch h.1)).2)
    rwa [hself] at hdraw
  obtain ⟨before, after, hsplit⟩ := List.append_of_mem (hdiffers b hb.1)
  have hnodup : (differing (s.withChar new old c.2 c.1 b)).Nodup := nodup_cells.filter _
  rw [hsplit, List.nodup_append, List.nodup_cons] at hnodup
  obtain ⟨-, ⟨hafter, -⟩, hapart⟩ := hnodup
  have hbefore : c ∉ before := fun hmem => hapart c hmem c List.mem_cons_self rfl
  rw [output_screenReflush, output_screenReflush, differing_withChar ha.1 hb.1, hsplit,
    List.flatMap_append, List.flatMap_append, List.flatMap_cons, List.flatMap_cons]
  simp only [withChar, T.send_append]
  rw [flatMap_drawCell_withChar (a := a) (b := b) hbefore,
    flatMap_drawCell_withChar (a := a) (b := b) hafter, vt100MoveCursor_eq]
  refine Terminal.DiffersAt.cup (differsAt_flatMap ?_ hafter fun c' hc' => ?_)
    (isNumber_miniItoa _) (isNumber_miniItoa _)
  · exact differsAt_drawCell_self (hself a) (hself b) (hprint ha) (hprint hb)
  · refine hb.2 c' (of_decide_eq_true (List.mem_filter.1 (?_ : c' ∈ differing _)).2)
    rw [hsplit]
    exact List.mem_append_right _ (List.mem_cons_of_mem _ hc')

end Draw

/-- The cell at a cursor on the screen. -/
theorem exists_cell_of_onScreen {cursor : ℤ × ℤ} (h : OnScreen cursor) :
    ∃ c : Cell, cursor = (↑c.2, ↑c.1) := by
  obtain ⟨hx, hright, hy, hbottom⟩ := h
  have hwidth : (SCREEN_WIDTH : ℤ) = 80 := rfl
  have hheight : (SCREEN_HEIGHT : ℤ) = 50 := rfl
  refine ⟨(⟨cursor.2.toNat, by omega⟩, ⟨cursor.1.toNat, by omega⟩), Prod.ext ?_ ?_⟩
  · exact (Int.toNat_of_nonneg hx).symm
  · exact (Int.toNat_of_nonneg hy).symm

/-- There is something to tell the places apart by. -/
theorem exists_hasToDraw (s : Screen) (c : Cell) : ∃ new old : Buffer,
    ∀ ch, Printable ch → HasToDraw s new old c.2 c.1 ch := by
  refine ⟨fun _ => 0, fun _ => 0, fun ch hch => ⟨hch.ne_zero, fun c' hc' => ?_⟩⟩
  have hne : (Buffer.set (fun _ => 0) (screenLoc c.2 c.1) ch).cell c'.2 c'.1 ≠ 0 := hc'
  rcases Buffer.cell_set_or (fun _ => 0) (screenLoc c.2 c.1) ch c'.2 c'.1 with he | he
  · change Printable ((Buffer.set (fun _ => 0) (screenLoc c.2 c.1) ch).cell c'.2 c'.1)
    rw [he]
    exact hch
  · exact absurd he hne

/-- **`screen_reflush` draws one row down and one column to the right of the cursor**, and so
nowhere else. -/
theorem drawnAt_iff (h : OnScreen (s.cursor p)) {place : ℕ × ℕ} : DrawnAt T t p s place ↔
    place = ((s.cursor p).2.toNat + 1, (s.cursor p).1.toNat + 1) := by
  obtain ⟨c, hc⟩ := exists_cell_of_onScreen h
  have hplace : ((s.cursor p).2.toNat + 1, (s.cursor p).1.toNat + 1) = position c := by
    rw [hc]
    rfl
  rw [hplace]
  constructor
  · intro hdrawn
    obtain ⟨new, old, hhas⟩ := exists_hasToDraw s c
    have ha := hhas 32 (by decide)
    have hb := hhas 33 (by decide)
    exact (differsAt_screenReflush (T := T) (t := t) ha hb).unique (by decide)
      (differsAt_screenReflush hb ha) (hdrawn c.2 c.1 new old 32 33 hc ha hb)
  · rintro rfl j i new old a b hji ha hb
    obtain ⟨hj, hi⟩ := Prod.mk.inj (hji.symm.trans hc)
    obtain rfl : j = c.2 := Fin.ext (Int.ofNat_inj.1 hj)
    obtain rfl : i = c.1 := Fin.ext (Int.ofNat_inj.1 hi)
    exact (differsAt_screenReflush ha hb).cell

/-! ## Where a redraw leaves the cursor -/

theorem cursor_reflushed (h : OnScreen (s.cursor p)) :
    T.cursor (T.send t (screenReflush p s).output)
      = (max 1 (s.cursor p).2.toNat, max 1 (s.cursor p).1.toNat) := by
  obtain ⟨hx, hright, hy, hbottom⟩ := h
  rw [screenReflush_eq, output_send, T.send_append]
  exact cursor_vt100MoveCursor T _ hx (by omega) hy (by omega)

/-- One redraw keeps the cursor in the corner and nowhere else. -/
theorem cursorKept_iff (h : OnScreen (s.cursor p)) :
    CursorKept T t p s ↔ s.cursor p = (0, 0) := by
  have hmove : T.cursor (T.send t (screenMoveCursor p (s.cursor p).1 (s.cursor p).2 s).output)
      = ((s.cursor p).2.toNat + 1, (s.cursor p).1.toNat + 1) := cursor_screenMoveCursor h
  rw [CursorKept, drawnAt_iff h, cursor_reflushed h, hmove, and_self, Prod.mk.injEq, Prod.ext_iff]
  obtain ⟨hx, -, hy, -⟩ := h
  constructor
  · rintro ⟨hrow, hcol⟩
    constructor
    · show (s.cursor p).1 = 0
      omega
    · show (s.cursor p).2 = 0
      omega
  · rintro ⟨hx0, hy0⟩
    rw [hx0, hy0]
    decide

/-- **Every redraw of a run keeps the cursor if and only if all of them are made from the top left
corner**, for every terminal and whatever the tasks moved and wrote before. -/
theorem run_cursor_iff {σ : Type} (T : Terminal SCREEN_HEIGHT SCREEN_WIDTH σ) (t : σ) (s : Screen)
    (calls : List (PcbPtr × ScreenCall)) :
    (∀ before p after, calls = before ++ (p, .reflush) :: after →
        OnScreen ((s.run before).cursor p) → CursorKept T t p (s.run before))
      ↔ ∀ before p after, calls = before ++ (p, .reflush) :: after →
        OnScreen ((s.run before).cursor p) → (s.run before).cursor p = (0, 0) := by
  constructor
  · intro h before p after hcalls hon
    exact (cursorKept_iff hon).1 (h before p after hcalls hon)
  · intro h before p after hcalls hon
    exact (cursorKept_iff hon).2 (h before p after hcalls hon)

/-- **A task at row `3`, column `5`**: its `screen_move_cursor` puts the terminal on row `4`, column
`6`, and the redraw that follows on row `3`, column `5`. -/
theorem run_cursor_fails :
    ¬ ∀ (σ : Type) (T : Terminal SCREEN_HEIGHT SCREEN_WIDTH σ) (t : σ)
      (cursor : PcbPtr → ℤ × ℤ) (calls : List (PcbPtr × ScreenCall)) (p : PcbPtr),
      OnScreen (((boot cursor).run calls).cursor p) →
        CursorKept T t p ((boot cursor).run calls) := by
  intro h
  have hcursor :
      ((boot fun _ => (0, 0)).run [(.pcb 0, .moveCursor 5 3)]).cursor (.pcb 0) = (5, 3) := by
    decide
  have hon : OnScreen (((boot fun _ => (0, 0)).run [(.pcb 0, .moveCursor 5 3)]).cursor (.pcb 0)) := by
    rw [hcursor]
    decide
  have hkept := h Emulator (emulator SCREEN_HEIGHT SCREEN_WIDTH) ⟨.ground, (1, 1), fun _ => 32⟩
    (fun _ => (0, 0)) [(.pcb 0, .moveCursor 5 3)] (.pcb 0) hon
  rw [cursorKept_iff hon, hcursor] at hkept
  exact absurd hkept (by decide)

end Screen

end UcasOs
