import UcasOs.Drivers.Screen

/-!
# The incremental redraw

`screen_reflush` sends only the cells in which `new_screen` and `old_screen` differ.  That is
enough as long as `old_screen` is what the terminal shows.

* `Consistent` — the mirror is right: every cell that `old_screen` knows of is shown by the
  terminal, and a cell that is still to be drawn holds a printable character.  It survives every
  call, `init_screen` included, which draws over whatever was there before.
* `incremental_redraw` — after any `screen_reflush`, the terminal shows `new_screen`.

A cell of `old_screen` that is `NUL` has never been drawn: that is how the zero-filled mirror
starts, and nothing is known of the terminal then.
-/

set_option autoImplicit false

namespace UcasOs

open Vt100

/-- Where the terminal shows a cell. -/
def position (c : Cell) : ℕ × ℕ := (c.1 + 1, c.2 + 1)

theorem position_injective : Function.Injective position := by
  rintro ⟨i, j⟩ ⟨i', j'⟩ h
  obtain ⟨hi, hj⟩ := Prod.mk.inj h
  exact Prod.ext (Fin.ext (Nat.succ_injective hi)) (Fin.ext (Nat.succ_injective hj))

/-- The characters of a buffer at the positions of the terminal. -/
def picture (b : Buffer) (p : ℕ × ℕ) : UInt8 :=
  if h : p.1 - 1 < SCREEN_HEIGHT ∧ p.2 - 1 < SCREEN_WIDTH then b.cell ⟨p.2 - 1, h.2⟩ ⟨p.1 - 1, h.1⟩
  else 0

@[simp] theorem picture_position (b : Buffer) (c : Cell) :
    picture b (position c) = b.cell c.2 c.1 := by
  have h : (position c).1 - 1 < SCREEN_HEIGHT ∧ (position c).2 - 1 < SCREEN_WIDTH :=
    ⟨c.1.isLt, c.2.isLt⟩
  rw [picture, dif_pos h]
  rfl

/-! ## Drawing one cell -/

theorem max_one_value {n : ℕ} (hn : n < 100) :
    max 1 (decimalValue (miniItoa (((n : ℤ) + 1) % 2 ^ 32).toNat)) = n + 1 := by
  rw [decimalValue_miniItoa]
  omega

namespace Screen

section Mirror

variable {σ : Type} (T : Terminal SCREEN_HEIGHT SCREEN_WIDTH σ) (t : σ)

/-- The cells of `old_screen` whose character satisfies `Q` are on the terminal. -/
def Mirrors (Q : UInt8 → Prop) (s : Screen) : Prop :=
  T.Shows (T.send t s.output) (picture s.oldScreen)
    (position '' {c : Cell | Q (s.oldScreen.cell c.2 c.1)})

variable {T t} {Q : UInt8 → Prop} {s : Screen}

/-- Moving the cursor leaves the mirror right. -/
theorem Mirrors.move (h : Mirrors T t Q s) (x y : ℤ) :
    Mirrors T t Q (s.send (vt100MoveCursor x y)) := by
  rw [Mirrors, output_send, oldScreen_send, T.send_append, vt100MoveCursor_eq]
  exact h.cup (isNumber_miniItoa _) (isNumber_miniItoa _)

/-- **The step of the redraw**: a cell that differs is drawn, and the mirror has it too. -/
theorem Mirrors.reflushCell (h : Mirrors T t Q s) (j : Fin SCREEN_WIDTH) (i : Fin SCREEN_HEIGHT)
    (hprint : s.newScreen.cell j i ≠ s.oldScreen.cell j i → Printable (s.newScreen.cell j i)) :
    Mirrors T t Q (reflushCell s j i) := by
  rw [Screen.reflushCell]
  split
  next hne =>
    set ch := s.newScreen.cell j i
    set old := s.oldScreen.set (screenLoc j i) ch
    let c : Cell := (i, j)
    have hself : picture old (position c) = ch :=
      (picture_position old c).trans (s.oldScreen.cell_set_self j i ch)
    -- The other cells of the mirror are as before.
    have hrest : T.Shows (T.send t s.output) (picture old)
        (position '' {c' : Cell | Q (s.oldScreen.cell c'.2 c'.1) ∧ c' ≠ c}) := by
      rintro _ ⟨c', ⟨hQ, hc'⟩, rfl⟩
      have hcell : old.cell c'.2 c'.1 = s.oldScreen.cell c'.2 c'.1 :=
        s.oldScreen.cell_set_of_ne hc' ch
      rw [picture_position, hcell, ← picture_position]
      exact h (position c') ⟨c', hQ, rfl⟩
    have hi : (i : ℕ) < 50 := i.isLt
    have hj : (j : ℕ) < 80 := j.isLt
    have hdraw := hrest.draw (p := position c) (isNumber_miniItoa (((i : ℤ) + 1) % 2 ^ 32).toNat)
      (isNumber_miniItoa (((j : ℤ) + 1) % 2 ^ 32).toNat) (max_one_value (by omega))
      (max_one_value (by omega)) i.isLt j.isLt (by rw [hself]; exact hprint hne)
    rw [hself, ← vt100MoveCursor_eq, ← T.send_append, ← List.append_assoc] at hdraw
    refine hdraw.mono ?_
    rintro _ ⟨c', hQ, rfl⟩
    by_cases hc' : c' = c
    · exact Or.inl (by rw [hc'])
    · refine Or.inr ⟨c', ⟨?_, hc'⟩, rfl⟩
      have hcell : old.cell c'.2 c'.1 = s.oldScreen.cell c'.2 c'.1 :=
        s.oldScreen.cell_set_of_ne hc' ch
      rw [← hcell]
      exact hQ
  next heq => exact h

end Mirror

/-! ## The whole redraw -/

/-- What is sent for one cell. -/
def drawCell (b : Buffer) (c : Cell) : List UInt8 :=
  vt100MoveCursor (c.2 + 1) (c.1 + 1) ++ [b.cell c.2 c.1]

/-- The cells that `screen_reflush` will send. -/
def differing (s : Screen) : List Cell :=
  cells.filter fun c => s.newScreen.cell c.2 c.1 ≠ s.oldScreen.cell c.2 c.1

theorem oldCell_reflushCell (s : Screen) (c c' : Cell) :
    (reflushCell s c.2 c.1).oldScreen.cell c'.2 c'.1
      = if c' = c then s.newScreen.cell c'.2 c'.1 else s.oldScreen.cell c'.2 c'.1 := by
  by_cases hc : c' = c
  · subst hc
    rw [if_pos rfl, reflushCell]
    split
    next => exact s.oldScreen.cell_set_self c'.2 c'.1 _
    next heq => exact (not_not.1 heq).symm
  · rw [if_neg hc, reflushCell]
    split
    next => exact s.oldScreen.cell_set_of_ne hc _
    next => rfl

/-- The cells visited so far hold what `new_screen` holds, the others are as they were. -/
theorem oldCell_foldl (cs : List Cell) (s : Screen) (c' : Cell) :
    (cs.foldl (fun s c => reflushCell s c.2 c.1) s).oldScreen.cell c'.2 c'.1
      = if c' ∈ cs then s.newScreen.cell c'.2 c'.1 else s.oldScreen.cell c'.2 c'.1 := by
  induction cs generalizing s with
  | nil => rfl
  | cons c rest ih =>
    rw [List.foldl_cons, ih, newScreen_reflushCell, oldCell_reflushCell]
    by_cases hrest : c' ∈ rest
    · rw [if_pos hrest, if_pos (List.mem_cons_of_mem c hrest)]
    · by_cases hc : c' = c
      · rw [if_neg hrest, if_pos hc, if_pos (hc ▸ List.mem_cons_self)]
      · rw [if_neg hrest, if_neg hc, if_neg]
        intro hmem
        exact (List.mem_cons.1 hmem).elim hc hrest

/-- **The mirror is the screen** once the loops are through. -/
theorem oldScreen_screenReflush (p : PcbPtr) (s : Screen) :
    (screenReflush p s).oldScreen = s.newScreen := by
  rw [screenReflush_eq, oldScreen_send, forCells_eq]
  refine Buffer.ext_cell fun c => ?_
  rw [oldCell_foldl, if_pos (mem_cells c)]

theorem output_foldl {cs : List Cell} (hcs : cs.Nodup) (s : Screen) :
    (cs.foldl (fun s c => reflushCell s c.2 c.1) s).output
      = s.output ++ (cs.filter fun c =>
          s.newScreen.cell c.2 c.1 ≠ s.oldScreen.cell c.2 c.1).flatMap (drawCell s.newScreen) := by
  induction cs generalizing s with
  | nil => exact (List.append_nil s.output).symm
  | cons c rest ih =>
    obtain ⟨hc, hrest⟩ := List.nodup_cons.1 hcs
    -- Drawing `c` makes no difference to the cells that follow.
    have hsame : (rest.filter fun c' => s.newScreen.cell c'.2 c'.1
          ≠ (reflushCell s c.2 c.1).oldScreen.cell c'.2 c'.1)
        = rest.filter fun c' => s.newScreen.cell c'.2 c'.1 ≠ s.oldScreen.cell c'.2 c'.1 := by
      refine List.filter_congr fun c' hc' => ?_
      have hne : c' ≠ c := fun e => hc (e ▸ hc')
      rw [oldCell_reflushCell, if_neg hne]
    rw [List.foldl_cons, ih hrest, newScreen_reflushCell, hsame]
    by_cases hdiff : s.newScreen.cell c.2 c.1 ≠ s.oldScreen.cell c.2 c.1
    · rw [List.filter_cons_of_pos (by simpa using hdiff), List.flatMap_cons, ← List.append_assoc,
        reflushCell, if_pos hdiff, drawCell, ← List.append_assoc]
    · rw [List.filter_cons_of_neg (by simpa using hdiff), reflushCell, if_neg hdiff]

/-- **Only the cells that differ are sent**, and then the cursor. -/
theorem output_screenReflush (p : PcbPtr) (s : Screen) :
    (screenReflush p s).output
      = s.output ++ (differing s).flatMap (drawCell s.newScreen)
        ++ vt100MoveCursor (s.cursor p).1 (s.cursor p).2 := by
  rw [screenReflush_eq, output_send, forCells_eq, output_foldl nodup_cells, differing]

/-! ## Clearing -/

theorem newCell_foldl_clear (cs : List Cell) (s : Screen) (c' : Cell) :
    (cs.foldl (fun s c => clearCell s c.2 c.1) s).newScreen.cell c'.2 c'.1
      = if c' ∈ cs then 32 else s.newScreen.cell c'.2 c'.1 := by
  induction cs generalizing s with
  | nil => rfl
  | cons c rest ih =>
    rw [List.foldl_cons, ih]
    by_cases hrest : c' ∈ rest
    · rw [if_pos hrest, if_pos (List.mem_cons_of_mem c hrest)]
    · rw [if_neg hrest]
      by_cases hc : c' = c
      · subst hc
        rw [if_pos List.mem_cons_self]
        exact s.newScreen.cell_set_self c'.2 c'.1 32
      · rw [if_neg fun hmem => (List.mem_cons.1 hmem).elim hc hrest]
        exact s.newScreen.cell_set_of_ne hc 32

theorem newScreen_forCells_clearCell (s : Screen) :
    (forCells clearCell s).newScreen = fun _ => 32 := by
  refine Buffer.ext_cell fun c => ?_
  rw [forCells_eq, newCell_foldl_clear, if_pos (mem_cells c), Buffer.cell]

theorem rest_forCells_clearCell (s : Screen) :
    { forCells clearCell s with newScreen := s.newScreen } = s := by
  refine forCells_induction (motive := fun r => { r with newScreen := s.newScreen } = s) rfl ?_
  intro r j i hr
  exact hr

theorem eq_with_newScreen {r s : Screen} (h : { r with newScreen := s.newScreen } = s) :
    r = { s with newScreen := r.newScreen } :=
  calc r = { { r with newScreen := s.newScreen } with newScreen := r.newScreen } := rfl
    _ = { s with newScreen := r.newScreen } := by rw [h]

/-- The loops of `screen_clear` fill `new_screen` with blanks and touch nothing else. -/
theorem forCells_clearCell (s : Screen) :
    forCells clearCell s = { s with newScreen := fun _ => 32 } := by
  rw [eq_with_newScreen (rest_forCells_clearCell s), newScreen_forCells_clearCell]

/-- What `init_screen` has made of the screen when it comes to redraw it. -/
def cleared (p : PcbPtr) (s : Screen) : Screen :=
  { (s.send vt100HiddenCursor).send vt100Clear with
    newScreen := fun _ => 32
    cursor := Function.update s.cursor p (0, 0) }

theorem initScreen_eq (p : PcbPtr) (s : Screen) :
    initScreen p s = screenReflush p (cleared p s) := by
  rw [initScreen, screenClear, forCells_clearCell]
  rfl

/-! ## The invariant -/

/-- A cell that is still to be drawn holds a printable character. -/
def Drawable (s : Screen) : Prop :=
  ∀ c : Cell, s.newScreen.cell c.2 c.1 ≠ s.oldScreen.cell c.2 c.1 →
    Printable (s.newScreen.cell c.2 c.1)

theorem Drawable.screenReflush (p : PcbPtr) (s : Screen) : Drawable (screenReflush p s) := by
  intro c hc
  rw [newScreen_screenReflush, oldScreen_screenReflush] at hc
  exact absurd rfl hc

section Mirror

variable {σ : Type} {T : Terminal SCREEN_HEIGHT SCREEN_WIDTH σ} {t : σ} {Q : UInt8 → Prop}
  {s : Screen}

theorem Mirrors.screenReflush (h : Mirrors T t Q s) (hs : Drawable s) (p : PcbPtr) :
    Mirrors T t Q (screenReflush p s) := by
  have hloops : Mirrors T t Q (forCells Screen.reflushCell s) ∧
      Drawable (forCells Screen.reflushCell s) := by
    refine forCells_induction (motive := fun r => Mirrors T t Q r ∧ Drawable r) ⟨h, hs⟩ ?_
    rintro r j i ⟨hmirror, hdraw⟩
    refine ⟨hmirror.reflushCell j i (hdraw (i, j)), fun c hc => ?_⟩
    rw [newScreen_reflushCell] at hc ⊢
    rw [oldCell_reflushCell r (i, j) c] at hc
    split at hc
    · exact absurd rfl hc
    · exact hdraw c hc
  rw [screenReflush_eq]
  exact hloops.1.move _ _

variable (T t) in
/-- **The invariant of the driver.** -/
structure Consistent (s : Screen) : Prop where
  mirrors : Mirrors T t (· ≠ 0) s
  drawable : Drawable s

/-- Nothing is known of the terminal at the start, and nothing is to be drawn. -/
theorem Consistent.boot (cursor : PcbPtr → ℤ × ℤ) : Consistent T t (boot cursor) where
  mirrors := by
    rintro _ ⟨c, hc, -⟩
    exact absurd rfl hc
  drawable c hc := absurd rfl hc

theorem Consistent.screenMoveCursor (h : Consistent T t s) (p : PcbPtr) (x y : ℤ) :
    Consistent T t (screenMoveCursor p x y s) where
  mirrors := Mirrors.move (s := { s with cursor := Function.update s.cursor p (x, y) })
    h.mirrors (x + 1) (y + 1)
  drawable := h.drawable

theorem Consistent.screenReflush (h : Consistent T t s) (p : PcbPtr) :
    Consistent T t (screenReflush p s) where
  mirrors := h.mirrors.screenReflush h.drawable p
  drawable := Drawable.screenReflush p s

theorem Consistent.screenWriteCh (h : Consistent T t s) (p : PcbPtr) {ch : UInt8}
    (hch : ch ≠ 10 → Printable ch) : Consistent T t (screenWriteCh p s ch) := by
  by_cases hne : ch = 10
  · rw [hne, screenWriteCh_newline]
    exact ⟨h.mirrors, h.drawable⟩
  · rw [screenWriteCh_char p s hne]
    refine ⟨h.mirrors, fun c hc => ?_⟩
    show Printable ((s.newScreen.set _ ch).cell c.2 c.1)
    rcases s.newScreen.cell_set_or (screenLoc (s.cursor p).1 (s.cursor p).2) ch c.2 c.1 with he | he
    · rw [he]
      exact hch hne
    · rw [he]
      exact h.drawable c (he ▸ hc)

/-- **`init_screen` synchronises the terminal**, whatever it showed and whatever the buffers held:
every cell that is not a blank of the mirror is drawn. -/
theorem Consistent.initScreen (h : Consistent T t s) (p : PcbPtr) :
    Consistent T t (initScreen p s) := by
  -- Erasing the display spoils the mirror, except for the blanks.
  have hblank : Mirrors T t (· = 32) (cleared p s) := by
    have hsub : Mirrors T t (· = 32) s := by
      refine h.mirrors.mono ?_
      rintro _ ⟨c, hc, rfl⟩
      refine ⟨c, ?_, rfl⟩
      show s.oldScreen.cell c.2 c.1 ≠ 0
      rw [show s.oldScreen.cell c.2 c.1 = 32 from hc]
      decide
    show T.Shows (T.send t (s.output ++ vt100HiddenCursor ++ vt100Clear)) (picture s.oldScreen) _
    rw [T.send_append, T.send_append, vt100HiddenCursor_eq, vt100Clear_eq]
    refine Terminal.Shows.erase (Terminal.Shows.hide hsub) ?_
    rintro _ ⟨c, hc, rfl⟩
    rw [picture_position]
    exact hc
  have hprint : Drawable (cleared p s) := fun c _ => (by decide : Printable 32)
  rw [initScreen_eq]
  refine ⟨(hblank.screenReflush hprint p).mono ?_, Drawable.screenReflush p _⟩
  rintro _ ⟨c, -, rfl⟩
  refine ⟨c, ?_, rfl⟩
  rw [Set.mem_ofPred_eq, oldScreen_screenReflush]
  rfl

end Mirror

/-! ## Runs -/

theorem stores_screenWriteCh (p : PcbPtr) (s : Screen) (ch : UInt8) :
    s.stores ⊆ (screenWriteCh p s ch).stores := by
  by_cases hne : ch = 10
  · rw [hne, screenWriteCh_newline]
    exact List.Subset.refl _
  · rw [screenWriteCh_char p s hne]
    exact List.subset_append_left _ _

theorem stores_foldl_screenWriteCh (p : PcbPtr) (chars : List UInt8) (s : Screen) :
    s.stores ⊆ (chars.foldl (screenWriteCh p) s).stores := by
  induction chars generalizing s with
  | nil => exact List.Subset.refl _
  | cons ch rest ih => exact List.Subset.trans (stores_screenWriteCh p s ch) (ih _)

/-- The history of the stores only grows. -/
theorem stores_call (s : Screen) (c : PcbPtr × ScreenCall) : s.stores ⊆ (s.call c).stores := by
  obtain ⟨p, x | buff | -⟩ := c
  · exact List.Subset.refl _
  · exact stores_foldl_screenWriteCh p _ s
  · show s.stores ⊆ (screenReflush p s).stores
    rw [stores_screenReflush]
    exact List.Subset.refl _

theorem stores_run (calls : List (PcbPtr × ScreenCall)) (s : Screen) :
    s.stores ⊆ (s.run calls).stores := by
  induction calls generalizing s with
  | nil => exact List.Subset.refl _
  | cons c rest ih => exact List.Subset.trans (stores_call s c) (ih _)

/-- The characters that `screen_write_ch` has stored are printable. -/
def Printed (s : Screen) : Prop := ∀ w ∈ s.stores, Printable w.ch

theorem printable_of_printed {p : PcbPtr} {s : Screen} {ch : UInt8}
    (h : Printed (screenWriteCh p s ch)) (hne : ch ≠ 10) : Printable ch := by
  rw [screenWriteCh_char p s hne] at h
  exact h ⟨p, s.cursor p, _, ch⟩ (List.mem_append_right _ List.mem_cons_self)

theorem screenWrite_induction {motive : Screen → Prop} {p : PcbPtr}
    (hwrite : ∀ s ch, motive s → (ch ≠ 10 → Printable ch) → motive (screenWriteCh p s ch))
    (chars : List UInt8) {s : Screen} (hs : motive s)
    (hprinted : Printed (chars.foldl (screenWriteCh p) s)) :
    motive (chars.foldl (screenWriteCh p) s) := by
  induction chars generalizing s with
  | nil => exact hs
  | cons ch rest ih =>
    have hch : Printed (screenWriteCh p s ch) :=
      fun w hw => hprinted w (stores_foldl_screenWriteCh p rest _ hw)
    exact ih (hwrite s ch hs (printable_of_printed hch)) hprinted

/-- What `screen_move_cursor`, `screen_write_ch` and `screen_reflush` keep, a run keeps. -/
theorem run_induction {motive : Screen → Prop}
    (hmove : ∀ s p x y, motive s → motive (screenMoveCursor p x y s))
    (hwrite : ∀ s p ch, motive s → (ch ≠ 10 → Printable ch) → motive (screenWriteCh p s ch))
    (hreflush : ∀ s p, motive s → motive (screenReflush p s))
    (calls : List (PcbPtr × ScreenCall)) {s : Screen} (hs : motive s)
    (hprinted : Printed (s.run calls)) : motive (s.run calls) := by
  induction calls generalizing s with
  | nil => exact hs
  | cons c rest ih =>
    have hcall : Printed (s.call c) := fun w hw => hprinted w (stores_run rest _ hw)
    refine ih ?_ hprinted
    obtain ⟨p, ⟨x, y⟩ | buff | -⟩ := c
    · exact hmove s p x y hs
    · exact screenWrite_induction (fun s ch => hwrite s p ch) (cString buff) hs hcall
    · exact hreflush s p hs

/-- No cell of `new_screen` is `NUL`: `init_screen` has run. -/
def Filled (s : Screen) : Prop := ∀ c : Cell, s.newScreen.cell c.2 c.1 ≠ 0

theorem Filled.screenWriteCh {s : Screen} (h : Filled s) (p : PcbPtr) {ch : UInt8}
    (hch : ch ≠ 10 → Printable ch) : Filled (screenWriteCh p s ch) := by
  by_cases hne : ch = 10
  · rw [hne, screenWriteCh_newline]
    exact h
  · rw [screenWriteCh_char p s hne]
    intro c
    show (s.newScreen.set _ ch).cell c.2 c.1 ≠ 0
    rcases s.newScreen.cell_set_or (screenLoc (s.cursor p).1 (s.cursor p).2) ch c.2 c.1 with he | he
    · rw [he]
      exact (hch hne).ne_zero
    · rw [he]
      exact h c

theorem Filled.screenReflush {s : Screen} (h : Filled s) (p : PcbPtr) :
    Filled (screenReflush p s) := by
  intro c
  rw [newScreen_screenReflush]
  exact h c

theorem Filled.initScreen (p : PcbPtr) (s : Screen) : Filled (initScreen p s) := by
  intro c
  rw [initScreen_eq, newScreen_screenReflush]
  exact (by decide : (32 : UInt8) ≠ 0)

variable {σ : Type} {T : Terminal SCREEN_HEIGHT SCREEN_WIDTH σ} {t : σ} {s : Screen}

theorem Consistent.run (h : Consistent T t s) (calls : List (PcbPtr × ScreenCall))
    (hprinted : Printed (s.run calls)) : Consistent T t (s.run calls) :=
  run_induction (motive := Consistent T t) (fun _ p x y h => h.screenMoveCursor p x y)
    (fun _ p _ h hch => h.screenWriteCh p hch) (fun _ p h => h.screenReflush p) calls h hprinted

theorem Filled.run (h : Filled s) (calls : List (PcbPtr × ScreenCall))
    (hprinted : Printed (s.run calls)) : Filled (s.run calls) :=
  run_induction (motive := Filled) (fun _ _ _ _ h => h)
    (fun _ p _ h hch => h.screenWriteCh p hch) (fun _ p h => h.screenReflush p) calls h hprinted

/-- When the mirror is right and every cell has been drawn once, the terminal shows it all. -/
theorem Consistent.shown (h : Consistent T t s) (hs : ∀ c : Cell, s.oldScreen.cell c.2 c.1 ≠ 0)
    (c : Cell) : T.cell (T.send t s.output) (position c) = s.oldScreen.cell c.2 c.1 := by
  rw [← picture_position]
  exact (h.mirrors (position c) ⟨c, hs c, rfl⟩).2

@[simp] theorem stores_initScreen (p : PcbPtr) (s : Screen) :
    (initScreen p s).stores = s.stores := by
  rw [initScreen_eq, stores_screenReflush]
  rfl

@[simp] theorem cursor_initScreen (p : PcbPtr) (s : Screen) :
    (initScreen p s).cursor = Function.update s.cursor p (0, 0) := by
  rw [initScreen_eq, cursor_screenReflush]
  rfl

/-- **The incremental redraw is a full redraw.**  The kernel starts with both buffers zero, prints
(`early`), runs `init_screen`, and then any tasks make any calls.  Whatever the terminal showed at
the start, a `screen_reflush` leaves it showing `new_screen`, of which it sent the cells that
differed from the mirror and no other. -/
theorem incremental_redraw {σ : Type} (T : Terminal SCREEN_HEIGHT SCREEN_WIDTH σ) (t : σ)
    (cursor : PcbPtr → ℤ × ℤ) (early calls : List (PcbPtr × ScreenCall)) (q p : PcbPtr)
    (hstores : ∀ w ∈ ((initScreen q ((boot cursor).run early)).run calls).stores,
      Printable w.ch ∧ 0 ≤ w.index ∧ w.index < SCREEN_HEIGHT * SCREEN_WIDTH) :
    let s := (initScreen q ((boot cursor).run early)).run calls
    let r := screenReflush p s
    r.newScreen = s.newScreen ∧ r.oldScreen = r.newScreen ∧
      (∀ (i : Fin SCREEN_HEIGHT) (j : Fin SCREEN_WIDTH),
        T.cell (T.send t r.output) (i + 1, j + 1) = r.newScreen.cell j i) ∧
      r.output = s.output ++ (differing s).flatMap (drawCell s.newScreen)
        ++ vt100MoveCursor (s.cursor p).1 (s.cursor p).2 := by
  intro s r
  have hprinted : Printed s := fun w hw => (hstores w hw).1
  have hinit : Printed (initScreen q ((boot cursor).run early)) :=
    fun w hw => hprinted w (stores_run calls _ hw)
  have hearly : Printed ((boot cursor).run early) := by
    rw [Printed, ← stores_initScreen q]
    exact hinit
  have hconsistent : Consistent T t s :=
    (((Consistent.boot cursor).run early hearly).initScreen q).run calls hprinted
  have hfilled : Filled s := (Filled.initScreen q _).run calls hprinted
  have hnew : r.newScreen = s.newScreen := newScreen_screenReflush p s
  have hold : r.oldScreen = r.newScreen := (oldScreen_screenReflush p s).trans hnew.symm
  refine ⟨hnew, hold, fun i j => ?_, output_screenReflush p s⟩
  rw [← hold]
  refine (hconsistent.screenReflush p).shown (fun c => ?_) (i, j)
  rw [oldScreen_screenReflush]
  exact hfilled c

/-- Two tasks write on a screen that a task has just initialised. -/
theorem incremental_redraw_two_tasks :
    let s := (initScreen .pid0 ((boot fun _ => (0, 0)).run [])).run
      [(.pcb 0, .moveCursor 78 5), (.pcb 0, .write [72, 105, 10]), (.pcb 1, .write [33])]
    let r := screenReflush (.pcb 1) s
    r.newScreen = s.newScreen ∧ r.oldScreen = r.newScreen ∧
      (∀ (i : Fin SCREEN_HEIGHT) (j : Fin SCREEN_WIDTH),
        (emulator SCREEN_HEIGHT SCREEN_WIDTH).cell
          ((emulator SCREEN_HEIGHT SCREEN_WIDTH).send ⟨.ground, (1, 1), fun _ => 88⟩ r.output)
          (i + 1, j + 1) = r.newScreen.cell j i) ∧
      r.output = s.output ++ (differing s).flatMap (drawCell s.newScreen)
        ++ vt100MoveCursor (s.cursor (.pcb 1)).1 (s.cursor (.pcb 1)).2 := by
  have hrun : ∀ s : Screen, s.stores = [] → s.cursor (.pcb 1) = (0, 0) →
      ∀ w ∈ (s.run [(.pcb 0, .moveCursor 78 5), (.pcb 0, .write [72, 105, 10]),
        (.pcb 1, .write [33])]).stores,
        Printable w.ch ∧ 0 ≤ w.index ∧ w.index < SCREEN_HEIGHT * SCREEN_WIDTH := by
    intro s hstores hcursor
    simp [run, call, screenWrite, cString, screenMoveCursor, screenWriteCh, screenLoc, hstores,
      hcursor]
    decide
  refine incremental_redraw (emulator SCREEN_HEIGHT SCREEN_WIDTH) ⟨.ground, (1, 1), fun _ => 88⟩
    (fun _ => (0, 0)) [] _ .pid0 (.pcb 1) (hrun _ ?_ ?_)
  · rw [stores_initScreen]
    rfl
  · rw [cursor_initScreen]
    rfl

end Screen

end UcasOs
