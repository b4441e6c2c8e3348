import Mathlib.Data.Finset.Card
import Mathlib.Data.Fintype.Basic
import Mathlib.Data.List.FinRange
import Mathlib.Data.List.GetD

/-!
# Tables with a fixed number of slots

A table of `cap` slots that is searched from the front, and in which one value, `free`, marks the
slots that nobody has taken.  As long as nobody enters `free` itself, the table is a list: the
values that were entered, each once, in the order in which they came, as far as there is room.

* `enter` — what a new value makes of the list, and `entered`, what many make of it.
* `Slots` — the table holds the list.
* `Slots.find_eq`, `Slots.find_free` — the two searches, for the value and for a free slot.
* `length_entered_lt_iff` — there is room as long as fewer than `cap` values were seen.
-/

set_option autoImplicit false

universe u

variable {α : Type u} [DecidableEq α] {cap : ℕ} {free a b : α} {l as bs : List α}

/-- The values in the table when `a` has been entered. -/
def enter (cap : ℕ) (free : α) (l : List α) (a : α) : List α :=
  if a = free ∨ a ∈ l ∨ cap ≤ l.length then l else l ++ [a]

/-- The values in the table when all of `as` have been entered. -/
def entered (cap : ℕ) (free : α) (as : List α) : List α := as.foldl (enter cap free) []

/-- The table holds the values of `l`, one after the other, and the other slots are free. -/
structure Slots (free : α) (s : Fin cap → α) (l : List α) : Prop where
  length_le : l.length ≤ cap
  nodup : l.Nodup
  notMem : free ∉ l
  apply : ∀ i, s i = l.getD i free

/-! ## The list -/

theorem enter_of_lt (ha : a ≠ free) (hl : a ∉ l) (hlt : l.length < cap) :
    enter cap free l a = l ++ [a] :=
  if_neg (by simp [ha, hl, hlt])

theorem prefix_enter : l <+: enter cap free l a := by
  rw [enter]
  split
  · exact List.prefix_rfl
  · exact List.prefix_append l [a]

theorem entered_append_singleton :
    entered cap free (as ++ [a]) = enter cap free (entered cap free as) a := by
  rw [entered, List.foldl_append]; rfl

theorem entered_take_succ {n : ℕ} (hn : n < as.length) :
    entered cap free (as.take (n + 1)) = enter cap free (entered cap free (as.take n)) as[n] := by
  rw [List.take_succ_eq_append_getElem hn, entered_append_singleton]

/-- Nothing leaves the table. -/
theorem prefix_entered {m n : ℕ} (h : m ≤ n) :
    entered cap free (as.take m) <+: entered cap free (as.take n) := by
  induction n, h using Nat.le_induction with
  | base => exact List.prefix_rfl
  | succ n _ ih =>
    rcases Nat.lt_or_ge n as.length with hn | hn
    · rw [entered_take_succ hn]
      exact ih.trans prefix_enter
    · rw [List.take_of_length_le hn] at ih
      rwa [List.take_of_length_le (Nat.le_succ_of_le hn)]

/-- A value that can be entered is in the table then. -/
theorem mem_enter (ha : a ≠ free) (h : a ∈ l ∨ l.length < cap) : a ∈ enter cap free l a := by
  by_cases hl : a ∈ l
  · exact prefix_enter.subset hl
  · rw [enter_of_lt ha hl (h.resolve_left hl)]
    simp

theorem idxOf_enter : (enter cap free l a).idxOf a = l.idxOf a := by
  rw [enter]
  split
  · rfl
  · rename_i hn
    simp only [not_or] at hn
    rw [List.idxOf_append_of_notMem hn.2.1, List.idxOf_eq_length hn.2.1, List.idxOf_cons_self,
      Nat.add_zero]

theorem idxOf_later {l' : List α} (h : l <+: l') (ha : a ∈ l) : l'.idxOf a = l.idxOf a := by
  obtain ⟨rest, rfl⟩ := h
  exact List.idxOf_append_of_mem ha

theorem mem_of_mem_enter (h : b ∈ enter cap free l a) :
    b ∈ l ∨ b = a ∧ a ≠ free ∧ a ∉ l ∧ l.length < cap := by
  rw [enter] at h
  split at h
  · exact .inl h
  · rename_i hn
    rw [List.mem_append, List.mem_singleton] at h
    simp only [not_or, Nat.not_le] at hn
    exact h.imp_right fun hb => ⟨hb, hn⟩

theorem notMem_entered : free ∉ entered cap free as := by
  induction as using List.reverseRecOn with
  | nil => exact List.not_mem_nil
  | append_singleton as b ih =>
    rw [entered_append_singleton]
    intro h
    rcases mem_of_mem_enter h with h | ⟨rfl, h, -, -⟩
    · exact ih h
    · exact h rfl

/-- Every value in the table found it without itself, and with room. -/
theorem exists_of_mem_entered {n : ℕ} (hn : n ≤ as.length)
    (h : a ∈ entered cap free (as.take n)) : ∃ i, ∃ hi : i < n, as[i] = a ∧
      (entered cap free (as.take i)).length < cap := by
  induction n with
  | zero => simp [entered] at h
  | succ n ih =>
    rw [entered_take_succ hn] at h
    rcases mem_of_mem_enter h with h | ⟨rfl, -, -, hlt⟩
    · obtain ⟨i, hi, he⟩ := ih (by omega) h
      exact ⟨i, by omega, he⟩
    · exact ⟨n, by omega, rfl, hlt⟩

/-- While there is room, everything that was seen is in the table. -/
theorem mem_entered (ha : a ∈ as) (hfree : a ≠ free) (hlt : (entered cap free as).length < cap) :
    a ∈ entered cap free as := by
  induction as using List.reverseRecOn with
  | nil => contradiction
  | append_singleton as b ih =>
    rw [entered_append_singleton] at hlt ⊢
    have hle : entered cap free as <+: enter cap free (entered cap free as) b := prefix_enter
    have hlt' := hle.length_le.trans_lt hlt
    by_cases hb : a ∈ entered cap free as
    · exact hle.subset hb
    · rcases List.mem_append.1 ha with ha | ha
      · exact absurd (ih ha hlt') hb
      · rw [List.mem_singleton] at ha
        subst ha
        rw [enter_of_lt hfree hb hlt']
        simp

theorem nodup_enter (h : l.Nodup) : (enter cap free l a).Nodup := by
  rw [enter]
  split
  · exact h
  · rename_i hn
    simp only [not_or] at hn
    exact h.append (List.nodup_singleton a) (by simpa using hn.2.1)

theorem nodup_entered : (entered cap free as).Nodup := by
  induction as using List.reverseRecOn with
  | nil => exact List.nodup_nil
  | append_singleton as b ih => rw [entered_append_singleton]; exact nodup_enter ih

/-- **There is room as long as fewer than `cap` values were seen.** -/
theorem length_entered_lt_iff :
    (entered cap free as).length < cap ↔ (as.toFinset.erase free).card < cap := by
  have hcard : (entered cap free as).toFinset.card = (entered cap free as).length :=
    List.toFinset_card_of_nodup nodup_entered
  have hsub : (entered cap free as).toFinset ⊆ as.toFinset.erase free := by
    intro a ha
    rw [List.mem_toFinset] at ha
    rw [Finset.mem_erase, List.mem_toFinset]
    induction as using List.reverseRecOn with
    | nil => contradiction
    | append_singleton as b ih =>
      rw [entered_append_singleton] at ha
      rcases mem_of_mem_enter ha with ha | ⟨rfl, hfree, -, -⟩
      · have h := ih (List.toFinset_card_of_nodup nodup_entered) ha
        exact ⟨h.1, List.mem_append_left _ h.2⟩
      · exact ⟨hfree, List.mem_append_right _ (List.mem_singleton.2 rfl)⟩
  constructor
  · intro hlt
    have heq : (entered cap free as).toFinset = as.toFinset.erase free := by
      refine hsub.antisymm fun a ha => ?_
      rw [Finset.mem_erase, List.mem_toFinset] at ha
      exact List.mem_toFinset.2 (mem_entered ha.2 ha.1 hlt)
    rw [← heq, hcard]
    exact hlt
  · intro hlt
    rw [← hcard]
    exact (Finset.card_le_card hsub).trans_lt hlt

/-! ## The table -/

/-- A search through the slots ends at the first hit. -/
theorem find?_finRange_eq_some {p : Fin cap → Bool} {i : Fin cap} :
    (List.finRange cap).find? p = some i ↔ p i ∧ ∀ j < i, p j = false := by
  rw [← Fin.find?_eq_find?_finRange, Fin.find?_eq_some_iff]

namespace Slots

variable {s : Fin cap → α}

omit [DecidableEq α] in
/-- At first all slots are free. -/
theorem nil : Slots free (fun _ : Fin cap => free) [] :=
  ⟨Nat.zero_le _, List.nodup_nil, List.not_mem_nil, fun _ => rfl⟩

/-- The search for a value finds it in its slot. -/
theorem find_eq (h : Slots free s l) (ha : a ∈ l) : ∃ i : Fin cap, (i : ℕ) = l.idxOf a ∧
    (List.finRange cap).find? (fun i => s i = a) = some i := by
  have hlt : l.idxOf a < l.length := List.idxOf_lt_length_of_mem ha
  refine ⟨⟨l.idxOf a, hlt.trans_le h.length_le⟩, rfl, find?_finRange_eq_some.2 ⟨?_, ?_⟩⟩
  · rw [h.apply, List.getD_eq_getElem _ _ hlt]
    simp
  · intro j hj
    have hj : (j : ℕ) < l.idxOf a := hj
    rw [h.apply, List.getD_eq_getElem _ _ (hj.trans hlt)]
    simpa using List.not_of_lt_findIdx hj

/-- A value that was not entered, and is not the marker, is in no slot. -/
theorem find_eq_none (h : Slots free s l) (ha : a ∉ l) (hfree : a ≠ free) :
    (List.finRange cap).find? (fun i => s i = a) = none := by
  rw [List.find?_eq_none]
  intro i _ hi
  have hi : s i = a := of_decide_eq_true hi
  rw [h.apply, List.getD_eq_getElem?_getD] at hi
  cases hl : l[(i : ℕ)]? with
  | none => rw [hl] at hi; exact hfree hi.symm
  | some b =>
    rw [hl] at hi
    exact ha (hi ▸ List.mem_of_getElem? hl)

/-- The search for the marker finds the first slot after the values. -/
theorem find_free (h : Slots free s l) (hlt : l.length < cap) :
    (List.finRange cap).find? (fun i => s i = free) = some ⟨l.length, hlt⟩ := by
  rw [find?_finRange_eq_some]
  constructor
  · simp [h.apply]
  · intro j hj
    have hj : (j : ℕ) < l.length := hj
    rw [h.apply, List.getD_eq_getElem _ _ hj, decide_eq_false_iff_not]
    exact fun e => h.notMem (e ▸ List.getElem_mem hj)

/-- In a full table there is no marker. -/
theorem find_free_none (h : Slots free s l) (hle : cap ≤ l.length) :
    (List.finRange cap).find? (fun i => s i = free) = none := by
  rw [List.find?_eq_none]
  intro i _ hi
  have hi : s i = free := of_decide_eq_true hi
  have hlt : (i : ℕ) < l.length := i.2.trans_le hle
  rw [h.apply, List.getD_eq_getElem _ _ hlt] at hi
  exact h.notMem (hi ▸ List.getElem_mem hlt)

omit [DecidableEq α] in
/-- A new value goes into the first slot after the others. -/
theorem update (h : Slots free s l) (ha : a ∉ l) (hfree : a ≠ free) (hlt : l.length < cap) :
    Slots free (Function.update s ⟨l.length, hlt⟩ a) (l ++ [a]) where
  length_le := by rw [List.length_append]; exact hlt
  nodup := h.nodup.append (List.nodup_singleton a) (by simpa using ha)
  notMem := by simpa using ⟨h.notMem, hfree.symm⟩
  apply i := by
    rw [Function.update_apply, h.apply]
    rcases Nat.lt_trichotomy i l.length with hi | hi | hi
    · have hne : i ≠ ⟨l.length, hlt⟩ := fun e => by simp [e] at hi
      rw [if_neg hne, List.getD_append _ _ _ _ hi]
    · have he : i = ⟨l.length, hlt⟩ := Fin.ext hi
      simp [he]
    · have hne : i ≠ ⟨l.length, hlt⟩ := fun e => by simp [e] at hi
      rw [if_neg hne, List.getD_eq_default _ _ (Nat.le_of_lt hi),
        List.getD_eq_default _ _ (by simp; omega)]

end Slots
