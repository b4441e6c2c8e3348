import UcasOs.Lib.Links

/-!
# The list API of the kernel

`kernel/list/list.c`, assignment by assignment, over an arbitrary type of node addresses, and for
each function the two facts its callers use: what it does to the ring it works on, and that it
changes no link of any node outside that ring (the `_frame` lemmas).  The last section says the
same once more for a heap that is a whole family of rings.

The assignments of `list_add_tail` come in an order that reads `head->prev` after writing
`new->prev`; since `new` is not on the list this is the value it had on entry.  `list_del` may be
called on a node that is alone on its ring, in which case it changes nothing
(`listDel_singleton`): this is what makes `list_move_tail` usable on a node that is on no list.
-/

set_option autoImplicit false

universe u

namespace Links

variable {α : Type u} [DecidableEq α]

/-- `init_list_head(ptr)` -/
def initListHead (L : Links α) (ptr : α) : Links α :=
  let L := L.setNext ptr ptr
  L.setPrev ptr ptr

/-- `list_add(new, head)` -/
def listAdd (L : Links α) (new head : α) : Links α :=
  let L := L.setNext new (L.next head)
  let L := L.setPrev new head
  let L := L.setPrev (L.next head) new
  L.setNext head new

/-- `list_add_tail(new, head)` -/
def listAddTail (L : Links α) (new head : α) : Links α :=
  let L := L.setNext new head
  let L := L.setPrev new (L.prev head)
  let L := L.setNext (L.prev head) new
  L.setPrev head new

/-- `list_del(entry)` -/
def listDel (L : Links α) (entry : α) : Links α :=
  let L := L.setNext (L.prev entry) (L.next entry)
  L.setPrev (L.next entry) (L.prev entry)

/-- `list_del_init(entry)` -/
def listDelInit (L : Links α) (entry : α) : Links α :=
  (L.listDel entry).initListHead entry

/-- `list_replace(old, new)` -/
def listReplace (L : Links α) (old new : α) : Links α :=
  let L := L.setNext new (L.next old)
  let L := L.setPrev new (L.prev old)
  let L := L.setPrev (L.next new) new
  L.setNext (L.prev new) new

/-- `list_replace_init(old, new)` -/
def listReplaceInit (L : Links α) (old new : α) : Links α :=
  (L.listReplace old new).initListHead old

/-- `list_move(list, head)` -/
def listMove (L : Links α) (list head : α) : Links α :=
  (L.listDel list).listAdd list head

/-- `list_move_tail(list, head)` -/
def listMoveTail (L : Links α) (list head : α) : Links α :=
  (L.listDel list).listAddTail list head

/-- `list_empty(list)` -/
def listEmpty (L : Links α) (list : α) : Bool := L.next list = list

variable {L : Links α} {h x z : α} {xs : List α}

/-! ## `init_list_head` -/

theorem initListHead_ring (L : Links α) (x : α) : IsRing (L.initListHead x) [x] := by
  rw [IsRing.singleton_iff]; simp [initListHead]

theorem initListHead_frame (hz : z ≠ x) :
    (L.initListHead x).next z = L.next z ∧ (L.initListHead x).prev z = L.prev z := by
  simp [initListHead, hz]

/-- `init_list_head` on a node that is alone on its ring changes nothing. -/
theorem initListHead_singleton (hr : IsRing L [x]) : L.initListHead x = L := by
  obtain ⟨hn, hp⟩ := IsRing.singleton_iff.1 hr
  have h1 : Function.update L.next x x = L.next := Function.update_eq_self_iff.2 hn.symm
  have h2 : Function.update L.prev x x = L.prev := Function.update_eq_self_iff.2 hp.symm
  simp [initListHead, setNext, setPrev, h1, h2]

/-! ## `list_add` and `list_add_tail` -/

theorem listAdd_next :
    (L.listAdd x h).next z = if z = h then x else if z = x then L.next h else L.next z := by
  simp [listAdd]

theorem listAdd_prev (hx : x ≠ h) :
    (L.listAdd x h).prev z = if z = L.next h then x else if z = x then h else L.prev z := by
  simp [listAdd, hx.symm]

/-- `list_add` puts a node that is not on the ring right after the head. -/
theorem listAdd_ring (hr : IsRing L (h :: xs)) (hx : x ∉ h :: xs) :
    IsRing (L.listAdd x h) (h :: x :: xs) := by
  have hxh : x ≠ h := fun e => hx (by simp [e])
  exact hr.insertAfter hx (fun _ => listAdd_next) (fun _ => listAdd_prev hxh)

theorem listAdd_frame (hr : IsRing L (h :: xs)) (hx : x ∉ h :: xs) (hz : z ∉ h :: xs)
    (hzx : z ≠ x) : (L.listAdd x h).next z = L.next z ∧ (L.listAdd x h).prev z = L.prev z := by
  have hxh : x ≠ h := fun e => hx (by simp [e])
  have hzh : z ≠ h := fun e => hz (by simp [e])
  have hzn : z ≠ L.next h := fun e => hz (e ▸ hr.next_mem List.mem_cons_self)
  rw [listAdd_next, listAdd_prev hxh]
  simp [hzh, hzx, hzn]

/-- `list_add` of a node that is alone on its ring to itself changes nothing. -/
theorem listAdd_self (hr : IsRing L [x]) : L.listAdd x x = L := by
  obtain ⟨hn, hp⟩ := IsRing.singleton_iff.1 hr
  have h1 : Function.update L.next x x = L.next := Function.update_eq_self_iff.2 hn.symm
  have h2 : Function.update L.prev x x = L.prev := Function.update_eq_self_iff.2 hp.symm
  simp [listAdd, setNext, setPrev, hn, h1, h2]

theorem listAddTail_next (hx : x ≠ h) :
    (L.listAddTail x h).next z = if z = L.prev h then x else if z = x then h else L.next z := by
  simp [listAddTail, hx.symm]

theorem listAddTail_prev :
    (L.listAddTail x h).prev z = if z = h then x else if z = x then L.prev h else L.prev z := by
  simp [listAddTail]

/-- `list_add_tail` puts a node that is not on the ring at the end of the list. -/
theorem listAddTail_ring (hr : IsRing L (h :: xs)) (hx : x ∉ h :: xs) :
    IsRing (L.listAddTail x h) (h :: (xs ++ [x])) := by
  have hxh : x ≠ h := fun e => hx (by simp [e])
  exact hr.insertBefore hx (fun _ => listAddTail_next hxh) (fun _ => listAddTail_prev)

theorem listAddTail_frame (hr : IsRing L (h :: xs)) (hx : x ∉ h :: xs) (hz : z ∉ h :: xs)
    (hzx : z ≠ x) :
    (L.listAddTail x h).next z = L.next z ∧ (L.listAddTail x h).prev z = L.prev z := by
  have hxh : x ≠ h := fun e => hx (by simp [e])
  have hzh : z ≠ h := fun e => hz (by simp [e])
  have hzp : z ≠ L.prev h := fun e => hz (e ▸ hr.prev_mem List.mem_cons_self)
  rw [listAddTail_next hxh, listAddTail_prev]
  simp [hzh, hzx, hzp]

/-- `list_add_tail` of a node that is alone on its ring to itself changes nothing. -/
theorem listAddTail_self (hr : IsRing L [x]) : L.listAddTail x x = L := by
  obtain ⟨hn, hp⟩ := IsRing.singleton_iff.1 hr
  have h1 : Function.update L.next x x = L.next := Function.update_eq_self_iff.2 hn.symm
  have h2 : Function.update L.prev x x = L.prev := Function.update_eq_self_iff.2 hp.symm
  simp [listAddTail, setNext, setPrev, hp, h1, h2]

/-! ## `list_del` -/

theorem listDel_next : (L.listDel x).next z = if z = L.prev x then L.next x else L.next z := by
  simp [listDel]

theorem listDel_prev :
    (L.listDel x).prev z = if z = L.next x then L.prev x else L.prev z := by
  -- the second assignment reads `entry->next` after the first one wrote `entry->prev->next`
  have h1 : (L.setNext (L.prev x) (L.next x)).next x = L.next x := by
    rw [setNext_next]; split <;> rfl
  simp only [listDel, setPrev_prev, h1, setNext_prev]

/-- `list_del` on a node that is alone on its ring changes nothing. -/
theorem listDel_singleton (hr : IsRing L [x]) : L.listDel x = L := by
  obtain ⟨hn, hp⟩ := IsRing.singleton_iff.1 hr
  have h1 : Function.update L.next x x = L.next := Function.update_eq_self_iff.2 hn.symm
  have h2 : Function.update L.prev x x = L.prev := Function.update_eq_self_iff.2 hp.symm
  simp [listDel, setNext, setPrev, hn, hp, h1, h2]

/-- `list_del` on a node with neighbours leaves the ring of the others. -/
theorem listDel_ring (hr : IsRing L (x :: xs)) (hne : xs ≠ []) : IsRing (L.listDel x) xs :=
  hr.unlink hne (fun _ => listDel_next) (fun _ => listDel_prev)

theorem listDel_frame (hr : IsRing L (x :: xs)) (hz : z ∉ x :: xs) :
    (L.listDel x).next z = L.next z ∧ (L.listDel x).prev z = L.prev z := by
  have hzp : z ≠ L.prev x := fun e => hz (e ▸ hr.prev_mem List.mem_cons_self)
  have hzn : z ≠ L.next x := fun e => hz (e ▸ hr.next_mem List.mem_cons_self)
  rw [listDel_next, listDel_prev]
  simp [hzp, hzn]

/-! ## `list_empty` -/

/-- `list_empty` tells whether the head is alone on its ring. -/
theorem listEmpty_iff (hr : IsRing L (h :: xs)) : L.listEmpty h = true ↔ xs = [] := by
  rw [listEmpty, decide_eq_true_iff, hr.next_eq_self_iff]

end Links

/-! ## The list API on a family of rings -/

namespace Rings

open Links

variable {α : Type u} {ι : Type*} [DecidableEq α] [DecidableEq ι] {L : Links α} {R : ι → List α}
  {x h : α} {xs : List α} {i j : ι}

omit [DecidableEq ι] in
/-- `init_list_head` on a node that is on no ring leaves all rings alone. -/
theorem initListHead_fresh (hR : Rings L R) (hx : ∀ k, x ∉ R k) : Rings (L.initListHead x) R :=
  hR.congr fun k _ hy => initListHead_frame fun e => hx k (e ▸ hy)

/-- `init_list_head` on a node that is on no ring makes it a ring of its own. -/
theorem initListHead (hR : Rings L R) (hx : ∀ k, x ∉ R k) :
    Rings (L.initListHead x) (Function.update R i [x]) :=
  hR.update (initListHead_ring L x) (fun k _ _ hy => List.mem_singleton.1 hy ▸ hx k)
    fun k _ _ hy => initListHead_frame fun e => hx k (e ▸ hy)

theorem listAdd (hR : Rings L R) (hj : R j = h :: xs) (hx : ∀ k, x ∉ R k) :
    Rings (L.listAdd x h) (Function.update R j (h :: x :: xs)) := by
  have hr : IsRing L (h :: xs) := hj ▸ hR.ring j
  have hxj : x ∉ h :: xs := hj ▸ hx j
  refine hR.update (listAdd_ring hr hxj) (fun k hk y hy hyk => ?_) fun k hk y hy => ?_
  · rw [List.mem_cons, List.mem_cons] at hy
    rcases hy with rfl | rfl | hy
    · exact hk (hR.disjoint hyk (hj ▸ List.mem_cons_self))
    · exact hx k hyk
    · exact hk (hR.disjoint hyk (hj ▸ List.mem_cons_of_mem h hy))
  · exact listAdd_frame hr hxj (fun e => hk (hR.disjoint hy (hj ▸ e))) fun e => hx k (e ▸ hy)

theorem listAddTail (hR : Rings L R) (hj : R j = h :: xs) (hx : ∀ k, x ∉ R k) :
    Rings (L.listAddTail x h) (Function.update R j (h :: (xs ++ [x]))) := by
  have hr : IsRing L (h :: xs) := hj ▸ hR.ring j
  have hxj : x ∉ h :: xs := hj ▸ hx j
  refine hR.update (listAddTail_ring hr hxj) (fun k hk y hy hyk => ?_) fun k hk y hy => ?_
  · rw [← List.cons_append, List.mem_append, List.mem_singleton] at hy
    rcases hy with hy | rfl
    · exact hk (hR.disjoint hyk (hj ▸ hy))
    · exact hx k hyk
  · exact listAddTail_frame hr hxj (fun e => hk (hR.disjoint hy (hj ▸ e))) fun e => hx k (e ▸ hy)

/-- `list_del` takes a node off its ring, wherever on the ring it is. -/
theorem listDel (hR : Rings L R) (hx : x ∈ R i) :
    Rings (L.listDel x) (fun k => (R k).filter (· ≠ x)) := by
  obtain ⟨s, t, hst⟩ := List.append_of_mem hx
  have hnd : (s ++ x :: t).Nodup := hst ▸ (hR.ring i).nodup
  have hrot : R i ~r (x :: (t ++ s)) := by
    rw [hst, ← List.cons_append]; exact List.isRotated_append
  have hring : IsRing L (x :: (t ++ s)) := (hR.ring i).rotate hrot
  have hxts : x ∉ t ++ s := (List.nodup_cons.1 hring.nodup).1
  have hfilter : (R i).filter (· ≠ x) = s ++ t := by
    rw [List.mem_append, not_or] at hxts
    have hs : s.filter (· ≠ x) = s :=
      List.filter_eq_self.2 fun y hy => decide_eq_true fun e => hxts.2 (e ▸ hy)
    have ht : t.filter (· ≠ x) = t :=
      List.filter_eq_self.2 fun y hy => decide_eq_true fun e => hxts.1 (e ▸ hy)
    rw [hst, List.filter_append, List.filter_cons_of_neg (by simp), hs, ht]
  have hother : ∀ k ≠ i, (R k).filter (· ≠ x) = R k := fun k hk =>
    List.filter_eq_self.2 fun y hy => decide_eq_true fun e => hk (hR.disjoint (e ▸ hy) hx)
  have hdel : IsRing (L.listDel x) (s ++ t) := by
    by_cases hts : t ++ s = []
    · obtain ⟨rfl, rfl⟩ := List.append_eq_nil_iff.1 hts
      exact IsRing.nil
    · exact (listDel_ring hring hts).swap
  have hupd : Rings (L.listDel x) (Function.update R i (s ++ t)) := by
    refine hR.update hdel (fun k hk y hy hyk => ?_) fun k hk y hy => ?_
    · have hyi : y ∈ R i := by
        rw [hrot.mem_iff, List.mem_cons, List.mem_append]
        exact Or.inr ((List.mem_append.1 hy).symm)
      exact hk (hR.disjoint hyk hyi)
    · exact listDel_frame hring fun e => hk (hR.disjoint hy (hrot.mem_iff.2 e))
  have hfam : (fun k => (R k).filter (· ≠ x)) = Function.update R i (s ++ t) := by
    funext k
    rcases eq_or_ne k i with rfl | hk
    · rw [Function.update_self, hfilter]
    · rw [Function.update_of_ne hk, hother k hk]
  rw [hfam]; exact hupd

/-- `list_del_init` makes a node of any ring a ring of its own. -/
theorem listDelInit (hR : Rings L R) (hx : x ∈ R i) :
    Rings (L.listDelInit x) (Function.update (fun k => (R k).filter (· ≠ x)) j [x]) :=
  (hR.listDel hx).initListHead fun k hk => by simp at hk

/-- `list_move_tail` moves a node of any ring to the end of the list with head `h`. -/
theorem listMoveTail (hR : Rings L R) (hx : x ∈ R i) (hj : R j = h :: xs) (hxh : x ≠ h) :
    Rings (L.listMoveTail x h)
      (fun k => if k = j then (R k).filter (· ≠ x) ++ [x] else (R k).filter (· ≠ x)) := by
  have hj' : (R j).filter (· ≠ x) = h :: xs.filter (· ≠ x) := by
    rw [hj, List.filter_cons_of_pos (by simpa using hxh.symm)]
  have hx' : ∀ k, x ∉ (R k).filter (· ≠ x) := fun k hk => by simp at hk
  have h1 := (hR.listDel hx).listAddTail hj' hx'
  have hfam : (fun k => if k = j then (R k).filter (· ≠ x) ++ [x] else (R k).filter (· ≠ x)) =
      Function.update (fun k => (R k).filter (· ≠ x)) j (h :: (xs.filter (· ≠ x) ++ [x])) := by
    funext k
    rcases eq_or_ne k j with rfl | hk
    · rw [if_pos rfl, Function.update_self, hj', List.cons_append]
    · rw [if_neg hk, Function.update_of_ne hk]
  rw [hfam]; exact h1

omit [DecidableEq ι] in
/-- `list_add_tail` of a node that is alone on its ring is `list_move_tail`. -/
theorem listAddTail_eq_listMoveTail (hR : Rings L R) (hx : R i = [x]) :
    L.listAddTail x h = L.listMoveTail x h := by
  rw [Links.listMoveTail, listDel_singleton (hx ▸ hR.ring i)]

end Rings
