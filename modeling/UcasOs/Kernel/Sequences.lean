import UcasOs.Kernel.List

/-!
# What the list API means for sequences of nodes

A heap of rings is read as a family of sequences: the first node of each is the head, the others
are its members.  Here the functions of `kernel/list/list.c` are compared with the operations on
sequences they are named after.

## What is here

* `Links.listAdd_sameOff` and the others of this name — which links an operation may change.
* `Rings.listDel_all`, `Rings.listMove_all` — taking a node out of the sequences, whether it is a
  member of one or linked to itself, and pushing it again.
* `Rings.list_refines_sequences` — every operation does to the sequences what it should, and
  changes the links of the node, its old neighbours and its new neighbours only.
* `Links.listReplace_ring`, `Links.listReplaceInit_next_of_alone` — `list_replace` puts the new node
  in the place of the old one when the old one has a neighbour.  When it is alone, the stores
  `new->next = old` and `new->prev = old` come before `old->prev` is redirected to the new node, and
  the new node is left pointing at the old one.
* `Links.listReplaceInit_iff` — so `list_replace_init` does what it should exactly when the old node
  is not alone on its ring.
-/

set_option autoImplicit false

universe u

namespace Links

variable {α : Type u} [DecidableEq α] {L : Links α} {h x z old new : α} {l xs : List α}

/-! ## Which links an operation changes -/

theorem listAdd_sameOff (hx : x ≠ h) : SameOff L (L.listAdd x h) [x, h, L.next h] := by
  intro z hz
  simp only [List.mem_cons, List.not_mem_nil, or_false, not_or] at hz
  obtain ⟨hzx, hzh, hzn⟩ := hz
  rw [listAdd_next, listAdd_prev hx]
  simp [hzx, hzh, hzn]

theorem listAddTail_sameOff (hx : x ≠ h) : SameOff L (L.listAddTail x h) [x, h, L.prev h] := by
  intro z hz
  simp only [List.mem_cons, List.not_mem_nil, or_false, not_or] at hz
  obtain ⟨hzx, hzh, hzp⟩ := hz
  rw [listAddTail_next hx, listAddTail_prev]
  simp [hzx, hzh, hzp]

theorem listDel_sameOff : SameOff L (L.listDel x) [L.prev x, L.next x] := by
  intro z hz
  simp only [List.mem_cons, List.not_mem_nil, or_false, not_or] at hz
  rw [listDel_next, listDel_prev, if_neg hz.1, if_neg hz.2]
  exact ⟨rfl, rfl⟩

theorem initListHead_sameOff : SameOff L (L.initListHead x) [x] :=
  fun _ hz => initListHead_frame fun e => hz (e ▸ List.mem_singleton_self x)

theorem listDelInit_sameOff : SameOff L (L.listDelInit x) [x, L.prev x, L.next x] :=
  (listDel_sameOff.trans initListHead_sameOff).mono (by simp)

/-- After `list_del` the head's neighbours are the ones it had, or those of the deleted node. -/
theorem listMove_sameOff (hx : x ≠ h) :
    SameOff L (L.listMove x h) [x, L.prev x, L.next x, h, L.next h] := by
  have hmem : (L.listDel x).next h ∈ [x, L.prev x, L.next x, h, L.next h] := by
    rw [listDel_next]
    split <;> simp
  refine (listDel_sameOff.trans (listAdd_sameOff hx)).mono ?_
  simpa using hmem

theorem listMoveTail_sameOff (hx : x ≠ h) :
    SameOff L (L.listMoveTail x h) [x, L.prev x, L.next x, h, L.prev h] := by
  have hmem : (L.listDel x).prev h ∈ [x, L.prev x, L.next x, h, L.prev h] := by
    rw [listDel_prev]
    split <;> simp
  refine (listDel_sameOff.trans (listAddTail_sameOff hx)).mono ?_
  simpa using hmem

end Links

/-! ## The operations on a family of sequences -/

namespace Rings

open Links

variable {α : Type u} {ι : Type*} [DecidableEq α] [DecidableEq ι] {L : Links α} {R : ι → List α}
  {x h : α} {xs : List α} {i j : ι}

omit [DecidableEq α] [DecidableEq ι] in
/-- A member of a list is not the head of any. -/
theorem mem_tail_ne_head (hR : Rings L R) (hx : x ∈ (R i).tail) (hj : R j = h :: xs) : x ≠ h := by
  rintro rfl
  have hij : i = j := hR.disjoint (List.mem_of_mem_tail hx) (hj ▸ List.mem_cons_self)
  subst hij
  rw [hj, List.tail_cons] at hx
  exact (List.nodup_cons.1 (hj ▸ (hR.ring i).nodup)).1 hx

omit [DecidableEq ι] in
theorem filter_ne_of_fresh (hx : ∀ k, x ∉ R k) : (fun k => (R k).filter (· ≠ x)) = R :=
  funext fun k => List.filter_eq_self.2 fun _ hy => decide_eq_true fun e => hx k (e ▸ hy)

/-- `list_del` takes a node out of the sequences, whether it is a member of one or linked to
itself. -/
theorem listDel_all (hR : Rings L R) (hx : IsRing L [x] ∨ ∃ i, x ∈ (R i).tail) :
    Rings (L.listDel x) (fun k => (R k).filter (· ≠ x)) := by
  by_cases hmem : ∃ i, x ∈ R i
  · obtain ⟨i, hi⟩ := hmem
    exact hR.listDel hi
  · rw [not_exists] at hmem
    rcases hx with hx | ⟨i, hi⟩
    · rw [listDel_singleton hx, filter_ne_of_fresh hmem]; exact hR
    · exact absurd (List.mem_of_mem_tail hi) (hmem i)

/-- `list_del_init` takes a node out of the sequences and makes it a ring of its own, here the one
at `none`. -/
theorem listDelInit_all (hR : Rings L R) (hx : IsRing L [x] ∨ ∃ i, x ∈ (R i).tail) :
    Rings (L.listDelInit x)
      (fun o : Option ι => o.elim [x] fun k => (R k).filter (· ≠ x)) := by
  have hd : Rings (L.listDel x) (fun o : Option ι => o.elim [] fun k => (R k).filter (· ≠ x)) := by
    have h1 := hR.listDel_all hx
    refine ⟨fun o => ?_, fun {o o' y} hy hy' => ?_⟩
    · cases o with
      | none => exact IsRing.nil
      | some k => exact h1.ring k
    · cases o with
      | none => simp at hy
      | some k =>
        cases o' with
        | none => simp at hy'
        | some k' => exact congrArg some (h1.disjoint hy hy')
  have hx' : ∀ o : Option ι, x ∉ o.elim [] fun k => (R k).filter (· ≠ x) := by
    intro o ho
    cases o with
    | none => simp at ho
    | some k => simp at ho
  have h2 := hd.initListHead (i := none) hx'
  have hfam : (fun o : Option ι => o.elim [x] fun k => (R k).filter (· ≠ x)) =
      Function.update (fun o : Option ι => o.elim [] fun k => (R k).filter (· ≠ x)) none [x] := by
    funext o
    cases o with
    | none => rw [Function.update_self]; rfl
    | some k => rw [Function.update_of_ne (Option.some_ne_none k)]; rfl
  rw [hfam]; exact h2

omit [DecidableEq ι] in
/-- The list with head `h`, once `x` has been taken out. -/
theorem filter_ne_cons (hj : R j = h :: xs) (hxh : x ≠ h) :
    (R j).filter (· ≠ x) = h :: xs.filter (· ≠ x) := by
  rw [hj, List.filter_cons_of_pos (by simpa using hxh.symm)]

/-- `list_move` takes a node out of the sequences and pushes it in front of the members of `h`. -/
theorem listMove_all (hR : Rings L R) (hj : R j = h :: xs) (hxh : x ≠ h)
    (hx : IsRing L [x] ∨ ∃ i, x ∈ (R i).tail) :
    Rings (L.listMove x h) (Function.update (fun k => (R k).filter (· ≠ x)) j
      (h :: x :: xs.filter (· ≠ x))) :=
  (hR.listDel_all hx).listAdd (filter_ne_cons hj hxh) fun k hk => by simp at hk

/-- `list_move_tail` takes a node out of the sequences and pushes it behind the members of `h`. -/
theorem listMoveTail_all (hR : Rings L R) (hj : R j = h :: xs) (hxh : x ≠ h)
    (hx : IsRing L [x] ∨ ∃ i, x ∈ (R i).tail) :
    Rings (L.listMoveTail x h) (Function.update (fun k => (R k).filter (· ≠ x)) j
      (h :: (xs.filter (· ≠ x) ++ [x]))) :=
  (hR.listDel_all hx).listAddTail (filter_ne_cons hj hxh) fun k hk => by simp at hk

omit [DecidableEq ι] in
/-- Moving the head of a list to that list is possible only when the head is alone, and then
nothing happens. -/
theorem listMove_head (hR : Rings L R) (hj : R j = x :: xs)
    (hx : IsRing L [x] ∨ ∃ i, x ∈ (R i).tail) :
    L.listMove x x = L ∧ L.listMoveTail x x = L := by
  have hr : IsRing L [x] := hx.resolve_right fun ⟨_, hi⟩ => hR.mem_tail_ne_head hi hj rfl
  have hd : L.listDel x = L := listDel_singleton hr
  constructor
  · rw [Links.listMove, hd, listAdd_self hr]
  · rw [Links.listMoveTail, hd, listAddTail_self hr]

/-- **The list operations on sequences.**  In any family of rings, the first node of each being its
head, and for the list with head `h` in it: `list_add` and `list_add_tail` push a node that is on no
ring in front of and behind the members of `h`; `list_del_init` takes a node that is linked to
itself or a member of any list out of it and makes it a ring of its own; `list_move` and
`list_move_tail` take such a node out and then push it.  A node can be linked to itself and be the
head of an empty list: moved to another list it takes its own list away with it, moved to its own
list it stays.  No operation changes a link of any node but the one it is given, that node's old
neighbours, and the head and its neighbour. -/
theorem list_refines_sequences (hR : Rings L R) (hj : R j = h :: xs) (x : α) :
    ((∀ k, x ∉ R k) →
      (Rings (L.listAdd x h) (Function.update R j (h :: x :: xs)) ∧
        SameOff L (L.listAdd x h) [x, h, L.next h]) ∧
      (Rings (L.listAddTail x h) (Function.update R j (h :: (xs ++ [x]))) ∧
        SameOff L (L.listAddTail x h) [x, h, L.prev h])) ∧
    ((IsRing L [x] ∨ ∃ i, x ∈ (R i).tail) →
      (Rings (L.listDelInit x) (fun o : Option ι => o.elim [x] fun k => (R k).filter (· ≠ x)) ∧
        SameOff L (L.listDelInit x) [x, L.prev x, L.next x]) ∧
      (x = h → L.listMove x h = L ∧ L.listMoveTail x h = L) ∧
      (x ≠ h →
        (Rings (L.listMove x h) (Function.update (fun k => (R k).filter (· ≠ x)) j
            (h :: x :: xs.filter (· ≠ x))) ∧
          SameOff L (L.listMove x h) [x, L.prev x, L.next x, h, L.next h]) ∧
        (Rings (L.listMoveTail x h) (Function.update (fun k => (R k).filter (· ≠ x)) j
            (h :: (xs.filter (· ≠ x) ++ [x]))) ∧
          SameOff L (L.listMoveTail x h) [x, L.prev x, L.next x, h, L.prev h]))) := by
  refine ⟨fun hx => ?_, fun hx => ⟨⟨?_, listDelInit_sameOff⟩, ?_, fun hxh => ⟨⟨?_, ?_⟩, ?_, ?_⟩⟩⟩
  · have hxh : x ≠ h := fun e => hx j (hj ▸ e ▸ List.mem_cons_self)
    exact ⟨⟨hR.listAdd hj hx, listAdd_sameOff hxh⟩, hR.listAddTail hj hx, listAddTail_sameOff hxh⟩
  · exact hR.listDelInit_all hx
  · rintro rfl
    exact hR.listMove_head hj hx
  · exact hR.listMove_all hj hxh hx
  · exact listMove_sameOff hxh
  · exact hR.listMoveTail_all hj hxh hx
  · exact listMoveTail_sameOff hxh

/-- One ring with the head `0` and the member `1`: `list_move` of the member leaves it in place. -/
theorem list_refines_sequences_two :
    Rings (listMove ⟨fun z => if z = 0 then 1 else 0, fun z => if z = 0 then 1 else 0⟩ (1 : ℕ) 0)
      (Function.update (fun _ : Unit => [0, 1].filter (· ≠ 1)) () [0, 1]) :=
  have hR : Rings ⟨fun z : ℕ => if z = 0 then 1 else 0, fun z => if z = 0 then 1 else 0⟩
      (fun _ : Unit => [0, 1]) :=
    ⟨fun _ => IsRing.cons_iff.2 ⟨by decide, by simp [Link]⟩, fun _ _ => rfl⟩
  ((list_refines_sequences hR (j := ()) rfl 1).2 (Or.inr ⟨(), by decide⟩)).2.2 (by decide) |>.1.1

end Rings

/-! ## `list_replace` -/

namespace Links

variable {α : Type u} [DecidableEq α] {L : Links α} {h x z old new : α} {l xs : List α}

theorem listReplace_next (hn : new ≠ L.next old) :
    (L.listReplace old new).next z =
      if z = L.prev old then new else if z = new then L.next old else L.next z := by
  simp [listReplace, hn]

theorem listReplace_prev :
    (L.listReplace old new).prev z =
      if z = L.next old then new else if z = new then L.prev old else L.prev z := by
  simp [listReplace]

/-- After `list_replace_init`, the old node is linked to itself. -/
theorem listReplaceInit_old : IsRing (L.listReplaceInit old new) [old] :=
  initListHead_ring _ _

/-- `list_replace_init` puts the new node in the place of an old one that has a neighbour. -/
theorem listReplaceInit_ring (hr : IsRing L (old :: xs)) (hne : xs ≠ []) (hn : new ∉ old :: xs) :
    IsRing (L.listReplaceInit old new) (new :: xs) := by
  have hnn : new ≠ L.next old := fun e => hn (e ▸ hr.next_mem List.mem_cons_self)
  have hnp : new ≠ L.prev old := fun e => hn (e ▸ hr.prev_mem List.mem_cons_self)
  refine hr.replace hne hn (fun z hz => ?_) fun z hz => ?_
  · rw [listReplaceInit, (initListHead_frame hz).1, listReplace_next hnn]
    rcases eq_or_ne z new with rfl | hzn
    · rw [if_neg hnp, if_pos rfl, if_pos rfl]
    · rw [if_neg hzn, if_neg hzn]
  · rw [listReplaceInit, (initListHead_frame hz).2, listReplace_prev]
    rcases eq_or_ne z new with rfl | hzn
    · rw [if_neg hnn, if_pos rfl, if_pos rfl]
    · rw [if_neg hzn, if_neg hzn]

/-- When the old node is alone, `list_replace_init` leaves the new node pointing at it. -/
theorem listReplaceInit_next_of_alone (hr : IsRing L [old]) (hne : new ≠ old) :
    (L.listReplaceInit old new).next new = old := by
  obtain ⟨hn, hp⟩ := IsRing.singleton_iff.1 hr
  have hnn : new ≠ L.next old := by rw [hn]; exact hne
  rw [listReplaceInit, (initListHead_frame hne).1, listReplace_next hnn, hp, if_neg hne, if_pos rfl,
    hn]

/-- `list_replace_init` changes no link of a node outside the ring. -/
theorem listReplaceInit_frame (hr : IsRing L l) (ho : old ∈ l) (hn : new ∉ l) (hz : z ∉ l)
    (hzn : z ≠ new) :
    (L.listReplaceInit old new).next z = L.next z ∧
      (L.listReplaceInit old new).prev z = L.prev z := by
  have hnn : new ≠ L.next old := fun e => hn (e ▸ hr.next_mem ho)
  have hzo : z ≠ old := fun e => hz (e ▸ ho)
  have h1 : z ≠ L.prev old := fun e => hz (e ▸ hr.prev_mem ho)
  have h2 : z ≠ L.next old := fun e => hz (e ▸ hr.next_mem ho)
  rw [listReplaceInit, (initListHead_frame hzo).1, (initListHead_frame hzo).2,
    listReplace_next hnn, listReplace_prev]
  simp [h1, h2, hzn]

/-- Putting a node in the place of another one in a list that has it once. -/
theorem map_replace_isRotated (new : α) (hr : l ~r (old :: xs)) (hnd : l.Nodup) :
    (l.map fun z => if z = old then new else z) ~r (new :: xs) := by
  have hxs : old ∉ xs := (List.nodup_cons.1 (hr.nodup_iff.1 hnd)).1
  have h1 : xs.map (fun z => if z = old then new else z) = xs := by
    refine (List.map_congr_left fun z hz => ?_).trans (List.map_id xs)
    exact if_neg fun (e : z = old) => hxs (e ▸ hz)
  have h2 := hr.map (fun z => if z = old then new else z)
  rwa [List.map_cons, if_pos rfl, h1] at h2

/-- **When `list_replace_init` transfers a ring.**  The new node is in the place of the old one on
a well-formed ring, the old one is a ring of its own and no other node points to it, exactly when
the old node was not alone on its ring and no node outside the ring pointed to it before. -/
theorem listReplaceInit_iff (hr : IsRing L l) (ho : old ∈ l) (hn : new ∉ l) :
    (IsRing (L.listReplaceInit old new) (l.map fun z => if z = old then new else z) ∧
      IsRing (L.listReplaceInit old new) [old] ∧
      ∀ z ≠ old, (L.listReplaceInit old new).next z ≠ old ∧
        (L.listReplaceInit old new).prev z ≠ old) ↔
    l ≠ [old] ∧ ∀ z ∉ l, z ≠ new → L.next z ≠ old ∧ L.prev z ≠ old := by
  have hne : new ≠ old := fun e => hn (e ▸ ho)
  obtain ⟨xs, hrot, hr'⟩ := hr.cons_of_mem ho
  have hnew : new ∉ old :: xs := fun e => hn (hrot.mem_iff.2 e)
  have hmap := map_replace_isRotated new hrot hr.nodup
  constructor
  · rintro ⟨-, -, hp⟩
    refine ⟨?_, fun z hz hzn => ?_⟩
    · rintro rfl
      exact (hp new hne).1 (listReplaceInit_next_of_alone hr hne)
    · have h1 := listReplaceInit_frame hr ho hn hz hzn
      have h2 := hp z fun e => hz (e ▸ ho)
      rwa [h1.1, h1.2] at h2
  · rintro ⟨halone, hstray⟩
    have hxs : xs ≠ [] := by
      rintro rfl
      exact halone (List.isRotated_singleton_iff.1 hrot)
    have hring := listReplaceInit_ring hr' hxs hnew
    refine ⟨hring.rotate hmap.symm, listReplaceInit_old, fun z hz => ?_⟩
    have hold : old ∉ new :: xs := by
      rw [List.mem_cons, not_or]
      exact ⟨hne.symm, (List.nodup_cons.1 hr'.nodup).1⟩
    by_cases hmem : z ∈ new :: xs
    · exact ⟨fun e => hold (e ▸ hring.next_mem hmem), fun e => hold (e ▸ hring.prev_mem hmem)⟩
    · rw [List.mem_cons, not_or] at hmem
      have hzl : z ∉ l := by
        rw [hrot.mem_iff, List.mem_cons, not_or]; exact ⟨hz, hmem.2⟩
      have h1 := listReplaceInit_frame hr ho hn hzl hmem.1
      rw [h1.1, h1.2]
      exact hstray z hzl hmem.1

/-- A head `0` and a member `1`, replaced by `2`. -/
theorem listReplaceInit_iff_two :
    IsRing (listReplaceInit ⟨fun z => if z = 0 then 1 else 0, fun z => if z = 0 then 1 else 0⟩
      (1 : ℕ) 2) ([0, 1].map fun z => if z = 1 then 2 else z) :=
  have hr : IsRing ⟨fun z : ℕ => if z = 0 then 1 else 0, fun z => if z = 0 then 1 else 0⟩ [0, 1] :=
    IsRing.cons_iff.2 ⟨by decide, by simp [Link]⟩
  have hstray : ∀ z ∉ [0, 1], z ≠ 2 → (if z = 0 then 1 else 0) ≠ 1 ∧ (if z = 0 then 1 else 0) ≠ 1 :=
    fun z hz _ => by
      have hz0 : z ≠ 0 := fun e => hz (by simp [e])
      simp [hz0]
  ((listReplaceInit_iff hr (by decide) (by decide)).2 ⟨by decide, hstray⟩).1

/-- A heap in which every node is linked to itself. -/
def selfLinked (α : Type u) : Links α := ⟨id, id⟩

/-- Replacing a node that is alone on its ring: the new node is not on a ring. -/
theorem listReplaceInit_alone_fails :
    IsRing (selfLinked ℕ) [0] ∧ 1 ∉ [0] ∧
      (∀ z ∉ [0], (selfLinked ℕ).next z ≠ 0 ∧ (selfLinked ℕ).prev z ≠ 0) ∧
      ¬ IsRing ((selfLinked ℕ).listReplaceInit 0 1) ([0].map fun z => if z = 0 then 1 else z) ∧
      ((selfLinked ℕ).listReplaceInit 0 1).next 1 = 0 := by
  refine ⟨IsRing.singleton_iff.2 ⟨rfl, rfl⟩, by decide, fun z hz => ?_, fun hr => ?_, rfl⟩
  · exact ⟨fun e => hz (List.mem_singleton.2 e), fun e => hz (List.mem_singleton.2 e)⟩
  · exact absurd (IsRing.singleton_iff.1 hr).1 (by decide)

end Links
