import Mathlib.Algebra.Order.Group.Nat
import Mathlib.Data.List.Basic

/-!
# Texts that fork

Two lists that begin the same and then differ, and two ways of writing out a list of pieces.

* `ForksAt xs ys d` — the lists have their first `d` elements in common, and the next is different.
  Their starts of length `n` are the same as long as `n ≤ d` (`ForksAt.take_eq_iff`).
* `take_flatMap_eq_iff` — two renderings of a list of items, of which some pieces fork and the
  others are the same, start with the same `n` elements **exactly when no piece forks before
  position `n`**.
-/

set_option autoImplicit false

universe u v

variable {α : Type u} {ι : Type v}

/-- The lists are the same in front of index `d`, and different at `d`. -/
structure ForksAt (xs ys : List α) (d : ℕ) : Prop where
  common : xs.take d = ys.take d
  left : d < xs.length
  right : d < ys.length
  differ : xs[d]? ≠ ys[d]?

namespace ForksAt

variable {xs ys : List α} {d : ℕ}

theorem head {x y : α} (h : x ≠ y) (xs ys : List α) : ForksAt (x :: xs) (y :: ys) 0 where
  common := rfl
  left := Nat.succ_pos _
  right := Nat.succ_pos _
  differ := fun heq => h (Option.some.inj heq)

theorem append_left (h : ForksAt xs ys d) (s : List α) :
    ForksAt (s ++ xs) (s ++ ys) (s.length + d) where
  common := by
    rw [List.take_append, List.take_append, Nat.add_sub_cancel_left, h.common]
  left := by
    have hd := h.left
    rw [List.length_append]
    omega
  right := by
    have hd := h.right
    rw [List.length_append]
    omega
  differ := by
    rw [List.getElem?_append_right (Nat.le_add_right _ _),
      List.getElem?_append_right (Nat.le_add_right _ _), Nat.add_sub_cancel_left]
    exact h.differ

theorem append_right (h : ForksAt xs ys d) (s t : List α) : ForksAt (xs ++ s) (ys ++ t) d where
  common := by
    rw [List.take_append_of_le_length h.left.le, List.take_append_of_le_length h.right.le, h.common]
  left := lt_of_lt_of_le h.left (by rw [List.length_append]; exact Nat.le_add_right _ _)
  right := lt_of_lt_of_le h.right (by rw [List.length_append]; exact Nat.le_add_right _ _)
  differ := by
    rw [List.getElem?_append_left h.left, List.getElem?_append_left h.right]
    exact h.differ

theorem take_eq_iff (h : ForksAt xs ys d) (n : ℕ) : xs.take n = ys.take n ↔ n ≤ d := by
  constructor
  · intro heq
    by_contra hlt
    refine h.differ ?_
    rw [← List.getElem?_take_of_lt (Nat.lt_of_not_le hlt), heq,
      List.getElem?_take_of_lt (Nat.lt_of_not_le hlt)]
  · intro hle
    rw [← Nat.min_eq_left hle, ← List.take_take, ← List.take_take, h.common]

end ForksAt

theorem take_append_eq_iff (s xs ys : List α) (n : ℕ) :
    (s ++ xs).take n = (s ++ ys).take n ↔ xs.take (n - s.length) = ys.take (n - s.length) := by
  rw [List.take_append, List.take_append]
  exact iff_of_eq (List.append_cancel_left_eq _ _ _)

section

variable {f g : ι → List α} {Forks : ι → Prop} {d : ι → ℕ}

/-- The two renderings are the same up to `n` exactly when no item forks before that. -/
theorem take_flatMap_eq_iff (hsame : ∀ i, ¬ Forks i → f i = g i)
    (hfork : ∀ i, Forks i → ForksAt (f i) (g i) (d i)) : ∀ (items : List ι) (n : ℕ),
    (items.flatMap f).take n = (items.flatMap g).take n ↔
      ∀ pre i post, items = pre ++ i :: post → Forks i → n ≤ (pre.flatMap f).length + d i
  | [], n => by
    refine ⟨fun _ pre i post hsplit => ?_, fun _ => rfl⟩
    exact absurd hsplit.symm (by simp)
  | i :: items, n => by
    have hcons : (∀ pre j post, i :: items = pre ++ j :: post → Forks j →
        n ≤ (pre.flatMap f).length + d j) ↔ (Forks i → n ≤ d i) ∧
        ∀ pre j post, items = pre ++ j :: post → Forks j →
          n - (f i).length ≤ (pre.flatMap f).length + d j := by
      constructor
      · intro h
        refine ⟨fun hi => ?_, fun pre j post hsplit hj => ?_⟩
        · have hle := h [] i items rfl hi
          rwa [List.flatMap_nil, List.length_nil, Nat.zero_add] at hle
        · have hle := h (i :: pre) j post (by rw [hsplit, List.cons_append]) hj
          rw [List.flatMap_cons, List.length_append] at hle
          omega
      · rintro ⟨hfirst, hrest⟩ pre j post hsplit hj
        cases pre with
        | nil =>
          obtain ⟨rfl, -⟩ := List.cons.inj hsplit
          exact le_trans (hfirst hj) (Nat.le_add_left _ _)
        | cons k pre =>
          obtain ⟨rfl, htail⟩ := List.cons.inj hsplit
          have hle := hrest pre j post htail hj
          rw [List.flatMap_cons, List.length_append]
          omega
    rw [hcons, List.flatMap_cons, List.flatMap_cons]
    by_cases hi : Forks i
    · -- behind a fork that is not reached nothing is reached
      have hlength := (hfork i hi).left
      rw [((hfork i hi).append_right _ _).take_eq_iff]
      refine ⟨fun hle => ⟨fun _ => hle, fun pre j post _ _ => ?_⟩, fun h => h.1 hi⟩
      omega
    · rw [← hsame i hi, take_append_eq_iff, take_flatMap_eq_iff hsame hfork items]
      exact (and_iff_right fun h => absurd h hi).symm

end
