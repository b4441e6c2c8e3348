import Mathlib.Data.List.Rotate

/-!
# Taking turns, with newcomers

A turn goes round the members of a list: whoever has it is the head, passing it on rotates the
list, and newcomers come in right after the head.  `turns` is the history: who has had the turn, in
order.

* `RoundRobin turns l` — the invariant: those who had the turn since somebody last had it are the
  end of the list, in that order.
* `RoundRobin.count_eq_one` — **between two turns of one member, every other member has exactly
  one**, newcomers included.
-/

set_option autoImplicit false

universe u

variable {α : Type u}

/-- Since the last turn of any `c`, those who have `passed` the turn on went to the end of `l`. -/
def RoundRobin (turns l : List α) : Prop :=
  ∀ before c since, turns = before ++ c :: since → c ∉ since →
    ∃ passed current waiting, c :: since = passed ++ [current] ∧ l = current :: (waiting ++ passed)

namespace RoundRobin

variable {turns l rest before since : List α} {c x next : α}

/-- Somebody alone has the turn. -/
theorem singleton (p : α) : RoundRobin [p] [p] := by
  intro before c since he _
  cases before with
  | nil => exact ⟨[], p, [], he.symm, rfl⟩
  | cons y before => simp at he

/-- A newcomer waits for its turn. -/
theorem insert (h : RoundRobin turns (c :: l)) : RoundRobin turns (c :: x :: l) := by
  intro before y since he hy
  obtain ⟨passed, current, waiting, hs, hl⟩ := h before y since he hy
  rw [List.cons.injEq] at hl
  exact ⟨passed, current, x :: waiting, hs, by rw [hl.1, hl.2, List.cons_append]⟩

/-- The turn is passed on. -/
theorem rotate (h : RoundRobin turns l) (hr : l.rotate 1 = next :: rest) :
    RoundRobin (turns ++ [next]) (next :: rest) := by
  intro before c since he hc
  rcases List.eq_nil_or_concat since with rfl | ⟨since, y, rfl⟩
  · -- the turn of `c` is this one
    obtain ⟨-, hcn⟩ := List.append_inj' he rfl
    exact ⟨[], next, rest, hcn.symm, by rw [List.append_nil]⟩
  · rw [List.concat_eq_append] at he hc ⊢
    rw [← List.cons_append, ← List.append_assoc] at he
    obtain ⟨ht, hy⟩ := List.append_inj' he rfl
    obtain rfl : next = y := by simpa using hy
    rw [List.mem_append, List.mem_singleton, not_or] at hc
    obtain ⟨passed, current, waiting, hs, rfl⟩ := h before c since ht hc.1
    rw [List.rotate_cons_succ, List.rotate_zero] at hr
    cases waiting with
    | nil =>
      -- nobody is waiting, so it is the turn of `c` again
      rw [List.nil_append, ← hs, List.cons.injEq] at hr
      exact absurd hr.1 hc.2
    | cons z waiting =>
      rw [List.cons_append, List.cons_append, List.cons.injEq] at hr
      refine ⟨passed ++ [current], next, waiting, by rw [← List.cons_append, hs], ?_⟩
      rw [← hr.2, List.append_assoc]

/-- **Between two turns of `c` every other member has exactly one.** -/
theorem count_eq_one [DecidableEq α] (h : RoundRobin turns l) (hn : l.Nodup)
    (hr : l.rotate 1 = c :: rest) (ht : turns = before ++ c :: since) (hc : c ∉ since)
    (hx : x ∈ l) (hne : x ≠ c) : since.count x = 1 := by
  obtain ⟨passed, current, waiting, hs, rfl⟩ := h before c since ht hc
  rw [List.rotate_cons_succ, List.rotate_zero] at hr
  cases waiting with
  | cons z waiting =>
    -- `c` has passed the turn on and is waiting for it: it would be in the list twice
    rw [List.cons_append, List.cons_append, List.cons.injEq] at hr
    have hcm : c ∈ passed ++ [current] := hs ▸ List.mem_cons_self
    rw [hr.1] at hn
    simp only [List.mem_append, List.mem_singleton] at hcm
    simp only [List.nodup_cons, List.mem_cons, List.mem_append, not_or, List.cons_append] at hn
    grind
  | nil =>
    have hperm : (current :: passed).Perm (c :: since) := by
      rw [hs]; exact (List.perm_append_singleton current passed).symm
    have hcount : (c :: since).count x = 1 := by
      rw [← hperm.count_eq]
      exact List.count_eq_one_of_mem hn hx
    rwa [List.count_cons_of_ne hne.symm] at hcount

end RoundRobin
