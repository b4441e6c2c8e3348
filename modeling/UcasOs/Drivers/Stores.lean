import UcasOs.Drivers.Screen

/-!
# Where the screen driver stores

`screen_write_ch` stores at `SCREEN_LOC(cursor_x, cursor_y)` and advances the cursor; nothing
compares the cursor with the size of the screen.  So a line that starts inside the screen can leave
it on the right, where the index is that of a cell of the next row, and a text that starts in the
last rows can leave the buffer.

* `LinesFit` — the lines of a text stay inside the screen, from a cursor on.
* `run_onScreen_iff` — every store of a run is on the screen if and only if every text that is
  written fits, from where the cursor of its task is at the time.
-/

set_option autoImplicit false

namespace UcasOs

/-- The store is inside `new_screen`, at the row and the column that the cursor says. -/
def Store.OnScreen (w : Store) : Prop :=
  0 ≤ w.index ∧ w.index < SCREEN_WIDTH * SCREEN_HEIGHT ∧
    w.index / SCREEN_WIDTH = w.cursor.2 ∧ w.index % SCREEN_WIDTH = w.cursor.1

/-- The cursor is a row and a column of the screen. -/
def OnScreen (cursor : ℤ × ℤ) : Prop :=
  0 ≤ cursor.1 ∧ cursor.1 < SCREEN_WIDTH ∧ 0 ≤ cursor.2 ∧ cursor.2 < SCREEN_HEIGHT

instance (cursor : ℤ × ℤ) : Decidable (OnScreen cursor) :=
  inferInstanceAs (Decidable (_ ∧ _))

/-- The lines fit: the first from the column `x` of the row `y` on, the others from the start of
the rows below.  An empty line stores nothing, so it fits anywhere. -/
def LinesFit (x y : ℤ) : List (List UInt8) → Prop
  | [] => True
  | line :: rest =>
    (line ≠ [] → 0 ≤ x ∧ x + line.length ≤ SCREEN_WIDTH ∧ 0 ≤ y ∧ y < SCREEN_HEIGHT) ∧
      LinesFit 0 (y + 1) rest

namespace Screen

/-- Every store so far was on the screen. -/
def AllOnScreen (s : Screen) : Prop := ∀ w ∈ s.stores, w.OnScreen

/-- What a call needs of the cursor of its task: a text that is written fits. -/
def CallFits (s : Screen) : PcbPtr × ScreenCall → Prop
  | (p, .write buff) => LinesFit (s.cursor p).1 (s.cursor p).2 ((cString buff).splitOn 10)
  | (_, .moveCursor _ _) => True
  | (_, .reflush) => True

/-- Every call of the run finds what it needs. -/
def RunFits (s : Screen) : List (PcbPtr × ScreenCall) → Prop
  | [] => True
  | c :: rest => s.CallFits c ∧ (s.call c).RunFits rest

/-- `SCREEN_LOC` is the index of the cell at the cursor exactly for the cursors on the screen. -/
theorem onScreen_store_iff (p : PcbPtr) (cursor : ℤ × ℤ) (ch : UInt8) :
    Store.OnScreen ⟨p, cursor, screenLoc cursor.1 cursor.2, ch⟩ ↔ OnScreen cursor := by
  have hwidth : (SCREEN_WIDTH : ℤ) = 80 := rfl
  have hheight : (SCREEN_HEIGHT : ℤ) = 50 := rfl
  rw [Store.OnScreen, OnScreen]
  simp only [screenLoc, hwidth, hheight]
  omega

theorem allOnScreen_screenWriteCh_iff (p : PcbPtr) (s : Screen) {ch : UInt8} (h : ch ≠ 10) :
    AllOnScreen (screenWriteCh p s ch) ↔ AllOnScreen s ∧ OnScreen (s.cursor p) := by
  rw [AllOnScreen, screenWriteCh_char p s h, ← onScreen_store_iff p (s.cursor p) ch]
  constructor
  · intro hall
    exact ⟨fun w hw => hall w (List.mem_append_left _ hw),
      hall _ (List.mem_append_right _ List.mem_cons_self)⟩
  · rintro ⟨hbefore, hlast⟩ w hw
    rcases List.mem_append.1 hw with hw | hw
    · exact hbefore w hw
    · rw [List.mem_singleton.1 hw]
      exact hlast

theorem linesFit_nil_line (x y : ℤ) (rest : List (List UInt8)) :
    LinesFit x y ([] :: rest) ↔ LinesFit 0 (y + 1) rest :=
  and_iff_right fun h => absurd rfl h

/-- One more character at the start of the first line. -/
theorem linesFit_cons_char (x y : ℤ) (ch : UInt8) (line : List UInt8) (rest : List (List UInt8)) :
    LinesFit x y ((ch :: line) :: rest)
      ↔ OnScreen (x, y) ∧ LinesFit (x + 1) y (line :: rest) := by
  rw [LinesFit, LinesFit, OnScreen]
  have hlength : ((ch :: line).length : ℤ) = line.length + 1 := by
    rw [List.length_cons]
    push_cast
    rfl
  rw [hlength]
  constructor
  · rintro ⟨hline, hrest⟩
    obtain ⟨hx, hright, hy, hbottom⟩ := hline (List.cons_ne_nil ch line)
    exact ⟨⟨hx, by omega, hy, hbottom⟩, fun _ => ⟨by omega, by omega, hy, hbottom⟩, hrest⟩
  · rintro ⟨⟨hx, hright, hy, hbottom⟩, hline, hrest⟩
    refine ⟨fun _ => ⟨hx, ?_, hy, hbottom⟩, hrest⟩
    cases line with
    | nil =>
      show x + (0 + 1) ≤ (SCREEN_WIDTH : ℤ)
      omega
    | cons ch' line =>
      have := (hline (List.cons_ne_nil ch' line)).2.1
      omega

/-- **The stores of a text**, by induction on its characters: from any cursor on, they are on the
screen if and only if the lines fit. -/
theorem allOnScreen_foldl_iff (p : PcbPtr) (chars : List UInt8) (s : Screen) :
    AllOnScreen (chars.foldl (screenWriteCh p) s)
      ↔ AllOnScreen s ∧ LinesFit (s.cursor p).1 (s.cursor p).2 (chars.splitOn 10) := by
  induction chars generalizing s with
  | nil =>
    have hnil : LinesFit (s.cursor p).1 (s.cursor p).2 [[]] :=
      (linesFit_nil_line _ _ []).2 trivial
    exact ⟨fun h => ⟨h, hnil⟩, And.left⟩
  | cons ch rest ih =>
    rw [List.foldl_cons, ih, List.splitOn_cons_eq_if_modifyHead]
    by_cases hne : ch = 10
    · subst hne
      have hcursor : (screenWriteCh p s 10).cursor p = (0, (s.cursor p).2 + 1) := by
        rw [screenWriteCh_newline]
        exact Function.update_self ..
      have hstores : (screenWriteCh p s 10).stores = s.stores := rfl
      rw [hcursor, if_pos (beq_self_eq_true 10), linesFit_nil_line, AllOnScreen, hstores,
        AllOnScreen]
    · have hbeq : (ch == 10) = false := beq_eq_false_iff_ne.2 hne
      have hcursor : (screenWriteCh p s ch).cursor p = ((s.cursor p).1 + 1, (s.cursor p).2) := by
        rw [screenWriteCh_char p s hne]
        exact Function.update_self ..
      rw [allOnScreen_screenWriteCh_iff p s hne, hcursor, hbeq, if_neg Bool.false_ne_true, and_assoc]
      obtain ⟨line, lines, hlines⟩ := List.exists_cons_of_ne_nil (List.splitOn_ne_nil 10 rest)
      rw [hlines, List.modifyHead_cons, linesFit_cons_char]

theorem allOnScreen_call_iff (s : Screen) (c : PcbPtr × ScreenCall) :
    AllOnScreen (s.call c) ↔ AllOnScreen s ∧ s.CallFits c := by
  obtain ⟨p, ⟨x, y⟩ | buff | -⟩ := c
  · exact (and_iff_left trivial).symm
  · exact allOnScreen_foldl_iff p (cString buff) s
  · show AllOnScreen (screenReflush p s) ↔ AllOnScreen s ∧ True
    rw [AllOnScreen, stores_screenReflush, and_true, AllOnScreen]

theorem allOnScreen_run_iff (calls : List (PcbPtr × ScreenCall)) (s : Screen) :
    AllOnScreen (s.run calls) ↔ AllOnScreen s ∧ s.RunFits calls := by
  induction calls generalizing s with
  | nil => exact (and_iff_left trivial).symm
  | cons c rest ih =>
    show AllOnScreen ((s.call c).run rest) ↔ _
    rw [ih, allOnScreen_call_iff, RunFits, and_assoc]

/-- **Every store of every run stays on the screen if and only if every text fits.**  The run
starts with any cursors, and its stores are those that follow. -/
theorem run_onScreen_iff (s : Screen) (hs : s.stores = [])
    (calls : List (PcbPtr × ScreenCall)) :
    (∀ w ∈ (s.run calls).stores, w.OnScreen) ↔ s.RunFits calls := by
  have hempty : AllOnScreen s := by
    intro w hw
    rw [hs] at hw
    exact absurd hw List.not_mem_nil
  exact (allOnScreen_run_iff calls s).trans (and_iff_right hempty)

/-- A task that writes one character in the last cell of the screen. -/
theorem run_onScreen_iff_last_cell :
    (∀ w ∈ ((boot fun _ => (0, 0)).run [(.pcb 0, .moveCursor 79 49), (.pcb 0, .write [65])]).stores,
        w.OnScreen)
      ↔ (boot fun _ => (0, 0)).RunFits [(.pcb 0, .moveCursor 79 49), (.pcb 0, .write [65])] :=
  run_onScreen_iff (boot fun _ => (0, 0)) rfl _

/-- **One more character leaves the buffer**: the second character written at the last cell goes to
the index `4000`, though the cursor was moved to a cell of the screen. -/
theorem run_onScreen_fails :
    ¬ ∀ (cursor : PcbPtr → ℤ × ℤ) (calls : List (PcbPtr × ScreenCall)),
      (∀ p x y, (p, ScreenCall.moveCursor x y) ∈ calls →
        0 ≤ x ∧ x < SCREEN_WIDTH ∧ 0 ≤ y ∧ y < SCREEN_HEIGHT) →
      ∀ w ∈ ((boot cursor).run calls).stores, w.OnScreen := by
  intro h
  have hstores : ∀ w ∈ ((boot fun _ => (0, 0)).run
      [(.pcb 0, .moveCursor 79 49), (.pcb 0, .write [65, 66])]).stores, w.OnScreen := by
    refine h (fun _ => (0, 0)) [(.pcb 0, .moveCursor 79 49), (.pcb 0, .write [65, 66])] ?_
    intro p x y hmem
    simp only [List.mem_cons, Prod.mk.injEq, ScreenCall.moveCursor.injEq, reduceCtorEq, and_false,
      List.not_mem_nil, or_false] at hmem
    obtain ⟨-, rfl, rfl⟩ := hmem
    decide
  have hlast : (⟨.pcb 0, (80, 49), 4000, 66⟩ : Store) ∈ ((boot fun _ => (0, 0)).run
      [(.pcb 0, .moveCursor 79 49), (.pcb 0, .write [65, 66])]).stores := by decide
  exact absurd (hstores _ hlast).2.1 (by decide)

end Screen

end UcasOs
