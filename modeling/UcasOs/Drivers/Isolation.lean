import UcasOs.Drivers.Redraw
import UcasOs.Drivers.Stores

/-!
# Tasks do not disturb each other's output

The cursor is a field of the PCB, and the screen is one for all.  So where a task writes is a matter
of its own calls, however those of the others come in between, and what is on the screen is a matter
of who wrote last.

## What is here

* `advance`, `textStores`, `callStores` — the cursor and the stores of a text, and of a call,
  without the screen.
* `stores_call_eq`, `cursor_call_eq`, `newScreen_call_eq` — what a call does, in these terms, and
  `stores_run_eq`, `newScreen_run_eq` — what a run does.
* `ownStores`, `ownCursor` — the stores and the cursor of a task, from its own calls alone.
* `run_isolated` — **in every run these are its stores and its cursor**, and `new_screen` is what
  all the stores leave in it, one after the other.
-/

set_option autoImplicit false

namespace UcasOs
namespace Screen

/-- The cursor behind a character. -/
def advance (cursor : ℤ × ℤ) (ch : UInt8) : ℤ × ℤ :=
  if ch = 10 then (0, cursor.2 + 1) else (cursor.1 + 1, cursor.2)

/-- The store of a character, if there is one. -/
def charStores (p : PcbPtr) (cursor : ℤ × ℤ) (ch : UInt8) : List Store :=
  if ch = 10 then [] else [⟨p, cursor, screenLoc cursor.1 cursor.2, ch⟩]

/-- The stores of a text. -/
def textStores (p : PcbPtr) : ℤ × ℤ → List UInt8 → List Store
  | _, [] => []
  | cursor, ch :: text => charStores p cursor ch ++ textStores p (advance cursor ch) text

/-- The cursor behind a call. -/
def callCursor (cursor : ℤ × ℤ) : ScreenCall → ℤ × ℤ
  | .moveCursor x y => (x, y)
  | .write buff => (cString buff).foldl advance cursor
  | .reflush => cursor

/-- The stores of a call. -/
def callStores (p : PcbPtr) (cursor : ℤ × ℤ) : ScreenCall → List Store
  | .write buff => textStores p cursor (cString buff)
  | .moveCursor _ _ => []
  | .reflush => []

/-- A store into `new_screen`. -/
def put (b : Buffer) (w : Store) : Buffer := b.set w.index w.ch

/-! ## One call -/

section

variable (s : Screen) (p : PcbPtr)

theorem screenWriteCh_spec (ch : UInt8) :
    (screenWriteCh p s ch).stores = s.stores ++ charStores p (s.cursor p) ch ∧
      (screenWriteCh p s ch).cursor = Function.update s.cursor p (advance (s.cursor p) ch) ∧
      (screenWriteCh p s ch).newScreen = (charStores p (s.cursor p) ch).foldl put s.newScreen := by
  rcases eq_or_ne ch 10 with rfl | hne
  · rw [screenWriteCh_newline]
    exact ⟨(List.append_nil _).symm, rfl, rfl⟩
  · rw [screenWriteCh_char p s hne, charStores, advance, if_neg hne, if_neg hne]
    exact ⟨rfl, rfl, rfl⟩

theorem foldl_screenWriteCh (text : List UInt8) : ∀ s : Screen,
    (text.foldl (screenWriteCh p) s).stores = s.stores ++ textStores p (s.cursor p) text ∧
      (text.foldl (screenWriteCh p) s).cursor =
        Function.update s.cursor p (text.foldl advance (s.cursor p)) ∧
      (text.foldl (screenWriteCh p) s).newScreen =
        (textStores p (s.cursor p) text).foldl put s.newScreen := by
  induction text with
  | nil =>
    intro s
    exact ⟨(List.append_nil _).symm, (Function.update_eq_self p s.cursor).symm, rfl⟩
  | cons ch text ih =>
    intro s
    obtain ⟨hstores, hcursor, hnew⟩ := ih (screenWriteCh p s ch)
    obtain ⟨hstores', hcursor', hnew'⟩ := screenWriteCh_spec s p ch
    rw [List.foldl_cons, hstores, hcursor, hnew, textStores, List.foldl_cons, List.foldl_append,
      hcursor', hstores', hnew', Function.update_self, Function.update_idem, List.append_assoc]
    exact ⟨rfl, rfl, rfl⟩

theorem stores_call_eq (c : ScreenCall) :
    (s.call (p, c)).stores = s.stores ++ callStores p (s.cursor p) c := by
  cases c with
  | moveCursor x y => exact (List.append_nil _).symm
  | write buff => exact (foldl_screenWriteCh p (cString buff) s).1
  | reflush => exact (stores_screenReflush p s).trans (List.append_nil _).symm

theorem cursor_call_eq (c : ScreenCall) :
    (s.call (p, c)).cursor = Function.update s.cursor p (callCursor (s.cursor p) c) := by
  cases c with
  | moveCursor x y => rfl
  | write buff => exact (foldl_screenWriteCh p (cString buff) s).2.1
  | reflush => exact (cursor_screenReflush p s).trans (Function.update_eq_self p s.cursor).symm

theorem newScreen_call_eq (c : ScreenCall) :
    (s.call (p, c)).newScreen = (callStores p (s.cursor p) c).foldl put s.newScreen := by
  cases c with
  | moveCursor x y => rfl
  | write buff => exact (foldl_screenWriteCh p (cString buff) s).2.2
  | reflush => exact newScreen_screenReflush p s

end

/-! ## A run -/

theorem run_append_cons (before after : List (PcbPtr × ScreenCall)) (c : PcbPtr × ScreenCall)
    (s : Screen) : s.run (before ++ c :: after) = ((s.run before).call c).run after :=
  List.foldl_append

/-- The stores of a run. -/
def runStores (cursor : PcbPtr → ℤ × ℤ) : List (PcbPtr × ScreenCall) → List Store
  | [] => []
  | (p, c) :: calls =>
    callStores p (cursor p) c ++
      runStores (Function.update cursor p (callCursor (cursor p) c)) calls

theorem stores_run_eq (calls : List (PcbPtr × ScreenCall)) : ∀ s : Screen,
    (s.run calls).stores = s.stores ++ runStores s.cursor calls := by
  induction calls with
  | nil => exact fun s => (List.append_nil _).symm
  | cons c calls ih =>
    obtain ⟨p, c⟩ := c
    intro s
    rw [runStores, ← List.append_assoc, ← stores_call_eq, ← cursor_call_eq]
    exact ih _

theorem newScreen_run_eq (calls : List (PcbPtr × ScreenCall)) : ∀ s : Screen,
    (s.run calls).newScreen = (runStores s.cursor calls).foldl put s.newScreen := by
  induction calls with
  | nil => exact fun s => rfl
  | cons c calls ih =>
    obtain ⟨p, c⟩ := c
    intro s
    rw [runStores, List.foldl_append, ← newScreen_call_eq, ← cursor_call_eq]
    exact ih _

/-! ## The calls of one task -/

/-- The calls that a task makes. -/
def callsOf (p : PcbPtr) (calls : List (PcbPtr × ScreenCall)) : List ScreenCall :=
  (calls.filter fun c => c.1 = p).map Prod.snd

/-- The cursor of a task, from its own calls. -/
def ownCursor (cursor : ℤ × ℤ) (calls : List ScreenCall) : ℤ × ℤ := calls.foldl callCursor cursor

/-- The stores of a task, from its own calls. -/
def ownStores (p : PcbPtr) : ℤ × ℤ → List ScreenCall → List Store
  | _, [] => []
  | cursor, c :: calls => callStores p cursor c ++ ownStores p (callCursor cursor c) calls

theorem callsOf_cons_self (p : PcbPtr) (c : ScreenCall) (calls : List (PcbPtr × ScreenCall)) :
    callsOf p ((p, c) :: calls) = c :: callsOf p calls := by
  rw [callsOf, List.filter_cons_of_pos (by simp)]
  rfl

theorem callsOf_cons_of_ne {p q : PcbPtr} (h : q ≠ p) (c : ScreenCall)
    (calls : List (PcbPtr × ScreenCall)) : callsOf p ((q, c) :: calls) = callsOf p calls := by
  rw [callsOf, List.filter_cons_of_neg (by simpa using h)]
  rfl

theorem cursor_run_eq (p : PcbPtr) (calls : List (PcbPtr × ScreenCall)) : ∀ s : Screen,
    (s.run calls).cursor p = ownCursor (s.cursor p) (callsOf p calls) := by
  induction calls with
  | nil => exact fun s => rfl
  | cons c calls ih =>
    obtain ⟨q, c⟩ := c
    intro s
    change ((s.call (q, c)).run calls).cursor p = _
    rw [ih, cursor_call_eq]
    rcases eq_or_ne q p with rfl | hne
    · rw [Function.update_self, callsOf_cons_self]
      rfl
    · rw [Function.update_of_ne (Ne.symm hne), callsOf_cons_of_ne hne]

theorem pcb_textStores {p : PcbPtr} (text : List UInt8) : ∀ cursor : ℤ × ℤ,
    ∀ w ∈ textStores p cursor text, w.pcb = p := by
  induction text with
  | nil => exact fun _ w hw => absurd hw List.not_mem_nil
  | cons ch text ih =>
    intro cursor w hw
    rcases List.mem_append.1 hw with hw | hw
    · rw [charStores] at hw
      split at hw
      · exact absurd hw List.not_mem_nil
      · rw [List.mem_singleton.1 hw]
    · exact ih _ w hw

theorem pcb_callStores {p : PcbPtr} {cursor : ℤ × ℤ} {c : ScreenCall} {w : Store}
    (hw : w ∈ callStores p cursor c) : w.pcb = p := by
  cases c with
  | write buff => exact pcb_textStores _ _ w hw
  | moveCursor x y => exact absurd hw List.not_mem_nil
  | reflush => exact absurd hw List.not_mem_nil

theorem filter_runStores (p : PcbPtr) (calls : List (PcbPtr × ScreenCall)) :
    ∀ cursor : PcbPtr → ℤ × ℤ, ((runStores cursor calls).filter fun w => w.pcb = p) =
      ownStores p (cursor p) (callsOf p calls) := by
  induction calls with
  | nil => exact fun _ => rfl
  | cons c calls ih =>
    obtain ⟨q, c⟩ := c
    intro cursor
    rw [runStores, List.filter_append, ih]
    rcases eq_or_ne q p with rfl | hne
    · rw [List.filter_eq_self.2 fun w hw => decide_eq_true (pcb_callStores hw),
        callsOf_cons_self, Function.update_self]
      rfl
    · rw [List.filter_eq_nil_iff.2 fun w hw => by rw [pcb_callStores hw]; simpa using hne,
        callsOf_cons_of_ne hne, Function.update_of_ne (Ne.symm hne), List.nil_append]

/-- **Tasks do not disturb each other's output.**  However the calls of the tasks are interleaved,
the stores of each and its cursor are those that its own calls make when no other task makes any;
and `new_screen` is what the stores of all of them, in their order, leave in it. -/
theorem run_isolated (calls : List (PcbPtr × ScreenCall)) (s : Screen) :
    ∃ stores, (s.run calls).stores = s.stores ++ stores ∧
      (s.run calls).newScreen = stores.foldl put s.newScreen ∧
      ∀ p, (stores.filter fun w => w.pcb = p) = ownStores p (s.cursor p) (callsOf p calls) ∧
        (s.run calls).cursor p = ownCursor (s.cursor p) (callsOf p calls) :=
  ⟨runStores s.cursor calls, stores_run_eq calls s, newScreen_run_eq calls s, fun p =>
    ⟨filter_runStores p calls s.cursor, cursor_run_eq p calls s⟩⟩

end Screen
end UcasOs
