import Mathlib.Data.List.Basic

/-!
# Waiting in a queue that newcomers join at the end

Somebody who stands in a queue is served after those in front, whoever joins behind.
`Serves waiting served queue` compares what stood in the queue at some moment with who was
`served` since and with the queue now.

* `Serves.arrive`, `Serves.serve` — newcomers join at the end, the first is served.
* `Serves.idle` — when the queue is empty, everybody who stood in it has been served, and it does
  not matter who is served next.
* `Serves.eq_of_getElem?` — **whoever stood at place `j` is the `j`-th to be served**.
-/

set_option autoImplicit false

universe u

variable {α : Type u}

/-- Those who were `waiting` are served in order: the first of them have been, and the others are
in front of the `queue`. -/
def Serves (waiting served queue : List α) : Prop :=
  served.take waiting.length = waiting.take served.length ∧
    waiting.drop served.length <+: queue

namespace Serves

variable {waiting served queue xs : List α} {x y : α} {j : ℕ}

theorem start (queue : List α) : Serves queue [] queue :=
  ⟨by simp, by simp⟩

/-- Newcomers join at the end. -/
theorem arrive (h : Serves waiting served queue) (xs : List α) :
    Serves waiting served (queue ++ xs) :=
  ⟨h.1, h.2.trans (List.prefix_append queue xs)⟩

/-- When all have been served, it does not matter what else is. -/
theorem of_length_le (h : Serves waiting served queue) (hle : waiting.length ≤ served.length)
    (x : α) (queue' : List α) : Serves waiting (served ++ [x]) queue' := by
  have h1 := h.1
  rw [List.take_of_length_le hle] at h1
  refine ⟨?_, ?_⟩
  · rw [List.take_append_of_le_length hle, h1, List.take_of_length_le]
    rw [List.length_append]
    omega
  · rw [List.drop_of_length_le (by rw [List.length_append]; omega)]
    exact List.nil_prefix

/-- The first is served. -/
theorem serve (h : Serves waiting served (x :: queue)) : Serves waiting (served ++ [x]) queue := by
  rcases Nat.lt_or_ge served.length waiting.length with hlt | hle
  · have h1 := h.1
    have h2 := h.2
    rw [List.take_of_length_le (Nat.le_of_lt hlt)] at h1
    rw [List.drop_eq_getElem_cons hlt, List.cons_prefix_cons] at h2
    refine ⟨?_, ?_⟩
    · rw [List.take_of_length_le (by rw [List.length_append, List.length_singleton]; omega),
        List.length_append, List.length_singleton, List.take_add_one, ← h1,
        List.getElem?_eq_getElem hlt, h2.1]
      rfl
    · rw [List.length_append, List.length_singleton]
      exact h2.2
  · exact h.of_length_le hle x queue

/-- When nobody is in the queue, everybody has been served. -/
theorem idle (h : Serves waiting served []) (x : α) (queue : List α) :
    Serves waiting (served ++ [x]) queue := by
  have h2 := h.2
  rw [List.prefix_nil, List.drop_eq_nil_iff] at h2
  exact h.of_length_le h2 x queue

/-- **Whoever stood at place `j` is the `j`-th to be served.** -/
theorem eq_of_getElem? (h : Serves waiting served queue) (hx : waiting[j]? = some x)
    (hy : served[j]? = some y) : y = x := by
  obtain ⟨hw, -⟩ := List.getElem?_eq_some_iff.1 hx
  obtain ⟨hs, -⟩ := List.getElem?_eq_some_iff.1 hy
  have h1 : (served.take waiting.length)[j]? = some y := by rw [List.getElem?_take_of_lt hw, hy]
  rw [h.1, List.getElem?_take_of_lt hs, hx, Option.some.injEq] at h1
  exact h1.symm

end Serves
