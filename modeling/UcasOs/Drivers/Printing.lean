import UcasOs.Drivers.Isolation
import UcasOs.Libs.Vprint

/-!
# What a task prints is on the screen

## What is here

* `escapes_sent` — the sequences of the driver get through `printv` and its buffer.
* `textStores_spec` — the characters of a text that fits go to different cells.
* `mem_textStores` — where they go.
* `printf_shown` — **a task moves its cursor and prints: when `printf` has returned, the terminal
  shows the text there**, whatever other tasks have done on the screen in between, as long as they
  have stored nothing that is not printable, and have not written to the same cells.
-/

set_option autoImplicit false

namespace UcasOs
namespace Screen

open Vt100

/-! ## The escape sequences -/

theorem length_itoaLoop_le (k : ℕ) : ∀ value < 10 ^ (k + 1), (itoaLoop value).length ≤ k + 1 := by
  induction k with
  | zero =>
    intro value hlt
    rw [itoaLoop, if_pos (by omega)]
    exact le_rfl
  | succ k ih =>
    intro value hlt
    rw [itoaLoop, List.length_cons]
    split
    · simp
    · have hquot := ih (value / 10) (by omega)
      omega

/-- A number of 32 bits has ten digits at most. -/
theorem length_miniItoa_le {value : ℕ} (h : value < 2 ^ 32) : (miniItoa value).length ≤ 10 := by
  rw [miniItoa, List.length_reverse]
  exact length_itoaLoop_le 9 value (by omega)

/-- What a cursor move sends fits into the buffer. -/
theorem sent_vt100MoveCursor (x y : ℤ) :
    0 ∉ vt100MoveCursor x y ∧ (vt100MoveCursor x y).length < 256 := by
  have hdigits : ∀ a : ℤ, 0 ∉ miniItoa (a % 2 ^ 32).toNat := fun a h0 =>
    absurd ((isNumber_miniItoa _).2 0 h0) (by unfold IsDigit; decide)
  have hshort : ∀ a : ℤ, (miniItoa (a % 2 ^ 32).toNat).length ≤ 10 := fun a =>
    length_miniItoa_le (by omega)
  have hx := hshort x
  have hy := hshort y
  rw [vt100MoveCursor_eq, cup]
  constructor
  · simpa using ⟨hdigits y, hdigits x⟩
  · simp only [List.length_append, List.length_cons, List.length_nil]
    omega

/-- **The sequences of the driver get through `printv` and its buffer**: for all coordinates, what
`bios_putstr` gets is what the model of the driver sends. -/
theorem escapes_sent (x y : ℤ) :
    Printf.kernel.Sends ⟨Printf.bytes ['%', 'c', '[', '%', 'd', ';', '%', 'd', 'H'], by decide⟩
      (Printf.ints [27, y, x]) (vt100MoveCursor x y) ∧
    Printf.kernel.Sends ⟨Printf.bytes ['%', 'c', '[', '2', 'J'], by decide⟩ (Printf.ints [27])
      vt100Clear ∧
    Printf.kernel.Sends ⟨Printf.bytes ['%', 'c', '[', '?', '2', '5', 'l'], by decide⟩
      (Printf.ints [27]) vt100HiddenCursor := by
  obtain ⟨hnul, hlen⟩ := sent_vt100MoveCursor x y
  refine ⟨Printf.sends_printv ?_ hnul hlen, Printf.sends_printv ?_ (by decide) (by decide),
    Printf.sends_printv ?_ (by decide) (by decide)⟩
  all_goals simp [Printf.Covered]

/-! ## Where a text goes -/

/-- The characters of a text that fits are stored on the screen, one behind the other. -/
theorem textStores_spec (p : PcbPtr) (text : List UInt8) : ∀ x y : ℤ,
    LinesFit x y (text.splitOn 10) →
    (∀ w ∈ textStores p (x, y) text, OnScreen w.cursor ∧
      w.index = screenLoc w.cursor.1 w.cursor.2 ∧
      (y < w.cursor.2 ∨ y = w.cursor.2 ∧ x ≤ w.cursor.1)) ∧
    (textStores p (x, y) text).Pairwise fun v w => v.index < w.index := by
  induction text with
  | nil => exact fun x y _ => ⟨fun w hw => absurd hw List.not_mem_nil, List.Pairwise.nil⟩
  | cons ch text ih =>
    intro x y hfit
    rw [List.splitOn_cons_eq_if_modifyHead] at hfit
    rw [textStores, charStores, advance]
    split at hfit
    · rename_i hch
      rw [linesFit_nil_line] at hfit
      obtain ⟨hmem, hpair⟩ := ih 0 (y + 1) hfit
      have hch : ch = 10 := by simpa using hch
      rw [if_pos hch, if_pos hch, List.nil_append]
      refine ⟨fun w hw => ?_, hpair⟩
      obtain ⟨hon, hindex, horder⟩ := hmem w hw
      refine ⟨hon, hindex, Or.inl ?_⟩
      omega
    · rename_i hch
      have hch : ch ≠ 10 := by simpa using hch
      obtain ⟨line, lines, hlines⟩ := List.exists_cons_of_ne_nil (List.splitOn_ne_nil 10 text)
      rw [hlines, List.modifyHead_cons, linesFit_cons_char, ← hlines] at hfit
      obtain ⟨hon, hfit⟩ := hfit
      obtain ⟨hmem, hpair⟩ := ih (x + 1) y hfit
      rw [if_neg hch, if_neg hch, List.singleton_append, List.pairwise_cons]
      refine ⟨fun w hw => ?_, fun w hw => ?_, hpair⟩
      · rcases List.mem_cons.1 hw with rfl | hw
        · exact ⟨hon, rfl, Or.inr ⟨rfl, le_rfl⟩⟩
        · obtain ⟨hon', hindex, horder⟩ := hmem w hw
          refine ⟨hon', hindex, ?_⟩
          omega
      · obtain ⟨hon', hindex, horder⟩ := hmem w hw
        obtain ⟨hx, hx', -, -⟩ := hon
        obtain ⟨hwx, hwx', -, -⟩ := hon'
        have hwidth : (SCREEN_WIDTH : ℤ) = 80 := rfl
        rw [hindex]
        simp only [screenLoc, hwidth] at hx hx' hwx' ⊢
        omega

/-- Where each character goes: the first line from the cursor on, the others from the start of the
rows below. -/
theorem mem_textStores (p : PcbPtr) {ch : UInt8} (text : List UInt8) : ∀ {x y : ℤ} {i k : ℕ}
    {row : List UInt8}, (text.splitOn 10)[i]? = some row → row[k]? = some ch →
    ∃ w ∈ textStores p (x, y) text,
      w.cursor = ((if i = 0 then x else 0) + k, y + i) ∧ w.ch = ch := by
  induction text with
  | nil =>
    intro x y i k row hrow hch
    cases i with
    | zero =>
      obtain rfl : [] = row := Option.some.inj hrow
      cases hch
    | succ i => cases hrow
  | cons c text ih =>
    intro x y i k row hrow hch
    rw [List.splitOn_cons_eq_if_modifyHead] at hrow
    rw [textStores, charStores, advance]
    split at hrow
    · rename_i hc
      have hc : c = 10 := by simpa using hc
      rw [if_pos hc, if_pos hc, List.nil_append]
      cases i with
      | zero =>
        obtain rfl : [] = row := Option.some.inj hrow
        cases hch
      | succ i =>
        obtain ⟨w, hw, hcursor, hwch⟩ := ih (x := 0) (y := y + 1) hrow hch
        refine ⟨w, hw, ?_, hwch⟩
        rw [hcursor, ite_self, if_neg (Nat.succ_ne_zero i), Nat.cast_succ, Prod.mk.injEq]
        omega
    · rename_i hc
      have hc : c ≠ 10 := by simpa using hc
      obtain ⟨first, lines, hlines⟩ := List.exists_cons_of_ne_nil (List.splitOn_ne_nil 10 text)
      rw [hlines, List.modifyHead_cons] at hrow
      rw [if_neg hc, if_neg hc, List.singleton_append]
      cases i with
      | zero =>
        obtain rfl : c :: first = row := Option.some.inj hrow
        cases k with
        | zero =>
          obtain rfl : c = ch := Option.some.inj hch
          exact ⟨_, List.mem_cons_self, by simp, rfl⟩
        | succ k =>
          have hfirst : (text.splitOn 10)[0]? = some first := by rw [hlines]; rfl
          obtain ⟨w, hw, hcursor, hwch⟩ := ih (x := x + 1) (y := y) hfirst hch
          refine ⟨w, List.mem_cons_of_mem _ hw, ?_, hwch⟩
          rw [hcursor, if_pos rfl, if_pos rfl, Nat.cast_succ, Prod.mk.injEq]
          omega
      | succ i =>
        obtain ⟨w, hw, hcursor, hwch⟩ := ih (x := x + 1) (y := y) (i := i + 1)
          (by rw [hlines]; exact hrow) hch
        exact ⟨w, List.mem_cons_of_mem _ hw, hcursor, hwch⟩

/-! ## On the screen -/

/-- What a cell holds does not change by stores elsewhere. -/
theorem cell_foldl_put {stores : List Store} {j : Fin SCREEN_WIDTH} {i : Fin SCREEN_HEIGHT}
    (h : ∀ w ∈ stores, w.index ≠ screenLoc j i) : ∀ b : Buffer,
    (stores.foldl put b).cell j i = b.cell j i := by
  induction stores with
  | nil => exact fun _ => rfl
  | cons w stores ih =>
    intro b
    rw [List.foldl_cons, ih fun v hv => h v (List.mem_cons_of_mem w hv), put, Buffer.cell,
      Buffer.cell, Buffer.set, if_neg]
    intro hindex
    refine h w List.mem_cons_self ?_
    rw [← hindex, finProdFinEquiv_apply_val, screenLoc]
    push_cast
    ring

/-- The last store into a cell is what it holds. -/
theorem cell_foldl_put_of_mem {stores later : List Store} {w : Store}
    (hpair : stores.Pairwise fun v w => v.index < w.index) (hw : w ∈ stores)
    (hlater : ∀ v ∈ later, v.index ≠ w.index) {j : Fin SCREEN_WIDTH} {i : Fin SCREEN_HEIGHT}
    (hindex : w.index = screenLoc j i) (b : Buffer) :
    (later.foldl put (stores.foldl put b)).cell j i = w.ch := by
  obtain ⟨pre, post, rfl⟩ := List.append_of_mem hw
  rw [cell_foldl_put fun v hv => hindex ▸ hlater v hv, List.foldl_append, List.foldl_cons,
    cell_foldl_put, put, hindex, Buffer.cell_set_self]
  intro v hv
  rw [List.pairwise_append, List.pairwise_cons] at hpair
  rw [← hindex]
  exact (ne_of_lt (hpair.2.1.1 v hv)).symm

section

variable {σ : Type} (T : Terminal SCREEN_HEIGHT SCREEN_WIDTH σ) (t : σ) (cursor : PcbPtr → ℤ × ℤ)
  {early calls : List (PcbPtr × ScreenCall)} {q p : PcbPtr}

/-- After a redraw, the terminal shows `new_screen`. -/
theorem cell_screenReflush {s : Screen}
    (hs : s = (initScreen q ((boot cursor).run early)).run calls) (h : Printed s) (c : Cell) :
    T.cell (T.send t (screenReflush p s).output) (position c) = s.newScreen.cell c.2 c.1 := by
  subst hs
  have hinit : Printed (initScreen q ((boot cursor).run early)) :=
    fun w hw => h w (stores_run calls _ hw)
  have hearly : Printed ((boot cursor).run early) := by
    rw [Printed, ← stores_initScreen q]
    exact hinit
  have hconsistent : Consistent T t ((initScreen q ((boot cursor).run early)).run calls) :=
    (((Consistent.boot cursor).run early hearly).initScreen q).run calls h
  have hfilled : Filled ((initScreen q ((boot cursor).run early)).run calls) :=
    (Filled.initScreen q _).run calls h
  have hshown := (hconsistent.screenReflush p).shown (fun c => by
    rw [oldScreen_screenReflush]; exact hfilled c) c
  rwa [oldScreen_screenReflush] at hshown

/-- **What a task prints is on the screen.**  A task moves its cursor and calls `printf`: the
program writes the text, and then redraws the screen.  Whatever other tasks do before, in between
and while the text is there, if its formatting is defined, it fits, all that has been stored is
printable, and nobody has written to the same cells since, then the terminal shows it where the task
has put it: its first line from the cursor on, the others from the start of the rows below. -/
theorem printf_shown {before gap gap' : List (PcbPtr × ScreenCall)} {x y : ℤ}
    {stack buff : List UInt8} {fmt : Printf.Text} {va : List Printf.VaArg} {ret : ℤ} {s : Screen}
    (hbuff : Printf.user.vprint stack fmt va = .ok (buff, ret)) (hgap : ∀ c ∈ gap, c.1 ≠ p)
    (hs : s = (initScreen q ((boot cursor).run early)).run (before ++ (p, .moveCursor x y) :: gap))
    (hfit : LinesFit x y ((cString (Printf.user.printed fmt va)).splitOn 10))
    (hkept : ∀ w ∈ callStores p (x, y) (.write buff),
      ∀ v ∈ runStores (s.call (p, .write buff)).cursor gap', v.index ≠ w.index)
    (hprinted : Printed ((s.call (p, .write buff)).run gap')) {i k : ℕ} {row : List UInt8}
    {ch : UInt8} (hrow : ((cString (Printf.user.printed fmt va)).splitOn 10)[i]? = some row)
    (hch : row[k]? = some ch) :
    T.cell (T.send t (((s.call (p, .write buff)).run gap').call (p, .reflush)).output)
      ((y + i).toNat + 1, ((if i = 0 then x else 0) + k).toNat + 1) = ch := by
  rw [← Printf.cString_vprint hbuff] at hfit hrow
  have hcursor : s.cursor p = (x, y) := by
    have hnone : callsOf p gap = [] := by
      rw [callsOf, List.filter_eq_nil_iff.2 fun c hc => by simpa using hgap c hc]
      rfl
    rw [hs, run_append_cons, cursor_run_eq, hnone]
    exact Function.update_self ..
  have hwhole : (s.call (p, .write buff)).run gap' =
      (initScreen q ((boot cursor).run early)).run
        (before ++ (p, .moveCursor x y) :: gap ++ (p, .write buff) :: gap') := by
    rw [hs, ← run_append_cons]
  -- the character is the last one that was stored in its cell
  obtain ⟨w, hw, hwcursor, rfl⟩ := mem_textStores p (cString buff) (x := x) (y := y) hrow hch
  obtain ⟨hmem, hpair⟩ := textStores_spec p (cString buff) x y hfit
  obtain ⟨⟨hx, hx', hy, hy'⟩, hindex, -⟩ := hmem w hw
  have hj : w.cursor.1.toNat < SCREEN_WIDTH := by omega
  have hi : w.cursor.2.toNat < SCREEN_HEIGHT := by omega
  have hcell := cell_screenReflush T t cursor (p := p) hwhole hprinted (⟨_, hi⟩, ⟨_, hj⟩)
  have hstored := cell_foldl_put_of_mem (j := ⟨_, hj⟩) (i := ⟨_, hi⟩) hpair hw (hkept w hw)
    (by rw [hindex, Int.toNat_of_nonneg hx, Int.toNat_of_nonneg hy]) s.newScreen
  rw [newScreen_run_eq, newScreen_call_eq, hcursor] at hcell
  have hshown := hcell.trans hstored
  change T.cell _ (w.cursor.2.toNat + 1, w.cursor.1.toNat + 1) = w.ch at hshown
  rwa [hwcursor] at hshown

end

/-- A task prints `H42` at row 3, column 5, while another one writes in the corner. -/
theorem printf_shown_two_tasks : ∃ s buff,
    s = (initScreen .pid0 ((boot fun _ => (0, 0)).run [])).run
      [(.pcb 1, .write [33]), (.pcb 0, .moveCursor 5 3), (.pcb 1, .write [34])] ∧
    Printf.user.vprint (List.replicate 256 0) ⟨[72, 37, 100], by decide⟩ [.int 42] =
      .ok (buff, 3) ∧
    (emulator SCREEN_HEIGHT SCREEN_WIDTH).cell
      ((emulator SCREEN_HEIGHT SCREEN_WIDTH).send ⟨.ground, (1, 1), fun _ => 88⟩
        (((s.call (.pcb 0, .write buff)).run [(.pcb 1, .write [35])]).call
          (.pcb 0, .reflush)).output)
      (4, 8) = 50 := by
  have hfits : ∀ item ∈ (Printf.parse ⟨[72, 37, 100], by decide⟩ [.int 42]).items,
      Printf.user.Fits item := by
    have hitems : (Printf.parse ⟨[72, 37, 100], by decide⟩ [.int 42]).items =
        [.chr 72, .num .d 42 0] := rfl
    rw [hitems, List.forall_mem_cons, List.forall_mem_singleton]
    exact ⟨trivial, by rw [Printf.Copy.Fits]; decide⟩
  have htext : Printf.user.printed ⟨[72, 37, 100], by decide⟩ [.int 42] = [72, 52, 50] := by decide
  obtain ⟨buff, hbuff⟩ := Printf.exists_vprint _ _ (List.length_replicate ..) hfits (by decide)
  have hstring := Printf.cString_vprint hbuff
  rw [htext] at hbuff hstring
  obtain ⟨s, hs⟩ : ∃ s, s = (initScreen .pid0 ((boot fun _ => (0, 0)).run [])).run
      [(.pcb 1, .write [33]), (.pcb 0, .moveCursor 5 3), (.pcb 1, .write [34])] := ⟨_, rfl⟩
  have hinit : (initScreen .pid0 ((boot fun _ => (0, 0)).run [])).stores = [] := by
    rw [stores_initScreen]
    rfl
  have hstores : s.stores = [⟨.pcb 1, (0, 0), 0, 33⟩, ⟨.pcb 1, (1, 0), 1, 34⟩] := by
    rw [hs, stores_run_eq, hinit, cursor_initScreen]
    decide
  have hcursor : s.cursor (.pcb 0) = (5, 3) ∧ s.cursor (.pcb 1) = (2, 0) := by
    rw [hs, cursor_run_eq, cursor_run_eq, cursor_initScreen]
    decide
  have htextStores : callStores (.pcb 0) (5, 3) (.write buff) =
      [⟨.pcb 0, (5, 3), 245, 72⟩, ⟨.pcb 0, (6, 3), 246, 52⟩, ⟨.pcb 0, (7, 3), 247, 50⟩] := by
    rw [callStores, hstring]
    decide
  have hlater : runStores (s.call (.pcb 0, .write buff)).cursor [(.pcb 1, .write [35])] =
      [⟨.pcb 1, (2, 0), 2, 35⟩] := by
    rw [runStores, cursor_call_eq, Function.update_of_ne (by decide), hcursor.2, runStores,
      List.append_nil]
    decide
  have hprinted : Printed ((s.call (.pcb 0, .write buff)).run [(.pcb 1, .write [35])]) := by
    rw [Printed, stores_run_eq, stores_call_eq, hlater, hcursor.1, htextStores, hstores]
    simp only [List.cons_append, List.nil_append, List.forall_mem_cons, Printable]
    decide
  have hkept : ∀ w ∈ callStores (.pcb 0) (5, 3) (.write buff),
      ∀ v ∈ runStores (s.call (.pcb 0, .write buff)).cursor [(.pcb 1, .write [35])],
        v.index ≠ w.index := by
    rw [htextStores, hlater]
    decide
  have hsplit : (cString (Printf.user.printed ⟨[72, 37, 100], by decide⟩ [.int 42])).splitOn 10 =
      [[72, 52, 50]] := by
    rw [htext]
    decide
  have hshown := printf_shown (emulator SCREEN_HEIGHT SCREEN_WIDTH) ⟨.ground, (1, 1), fun _ => 88⟩
    (fun _ => (0, 0)) hbuff (fun c hc => by rw [List.mem_singleton.1 hc]; decide)
    (show s = (initScreen .pid0 ((boot fun _ => (0, 0)).run [])).run
      ([(.pcb 1, .write [33])] ++ (.pcb 0, .moveCursor 5 3) :: [(.pcb 1, .write [34])]) from hs)
    (by rw [hsplit, LinesFit, LinesFit]; decide) hkept hprinted (i := 0) (k := 2)
    (congrArg (·[0]?) hsplit) rfl
  have hposition : (((3 : ℤ) + (0 : ℕ)).toNat + 1,
      ((if 0 = 0 then (5 : ℤ) else 0) + (2 : ℕ)).toNat + 1) = (4, 8) := by decide
  rw [hposition] at hshown
  exact ⟨s, buff, hs, hbuff, hshown⟩

end Screen
end UcasOs
