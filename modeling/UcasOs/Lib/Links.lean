import Mathlib.Data.List.Cycle
import Mathlib.Logic.Function.Basic

/-!
# Circular doubly linked lists in a heap of nodes

A heap of list nodes is two functions, `next` and `prev`, on an arbitrary type `α` of node
addresses.  Nothing says that a node is on a list, or that the two functions have anything to do
with each other: that is what `IsRing` is for.

* `Links.Link L x y` — one well-formed link: `y` follows `x` and `x` precedes `y`.
* `IsRing L l` — the nodes of `l`, read as a cycle, are exactly one circular doubly linked list.
  Where the list starts is a matter of convention, so `IsRing.rotate` moves the starting point
  freely; a node linked to itself is the ring of one node.
* `IsRing.insertAfter`, `IsRing.insertBefore`, `IsRing.unlink` — the three pointer surgeries every
  intrusive list is made of, stated on the pair of functions they produce.  What a concrete list
  API does is one of the three, whatever the order of its assignments.  `IsRing.replace` puts one
  node in the place of another: an insertion and an unlinking at once.
* `IsRing.congr` — the frame rule: a heap that agrees on the nodes of a ring keeps the ring.
* `IsRing.unique` — the ring through a node determines the list of its other nodes.
* `Rings L R` — a whole heap: a family of rings no two of which share a node.  `Rings.update` says
  that surgery on one of them is surgery on that one only.
-/

set_option autoImplicit false

universe u

/-- The `next` and `prev` fields of every node of a heap. -/
structure Links (α : Type u) where
  /-- The successor field. -/
  next : α → α
  /-- The predecessor field. -/
  prev : α → α

namespace Links

variable {α : Type u}

/-- `x` and `y` are properly linked: `y` follows `x`, and `x` precedes `y`. -/
def Link (L : Links α) (x y : α) : Prop := L.next x = y ∧ L.prev y = x

/-- The two heaps have the same links at every node that is not in `l`. -/
def SameOff (L L' : Links α) (l : List α) : Prop :=
  ∀ z ∉ l, L'.next z = L.next z ∧ L'.prev z = L.prev z

theorem SameOff.mono {L L' : Links α} {l l' : List α} (h : SameOff L L' l) (hsub : l ⊆ l') :
    SameOff L L' l' :=
  fun z hz => h z fun hl => hz (hsub hl)

theorem SameOff.trans {L L' L'' : Links α} {l l' : List α} (h : SameOff L L' l)
    (h' : SameOff L' L'' l') : SameOff L L'' (l ++ l') := by
  intro z hz
  rw [List.mem_append, not_or] at hz
  obtain ⟨hn, hp⟩ := h z hz.1
  obtain ⟨hn', hp'⟩ := h' z hz.2
  exact ⟨hn'.trans hn, hp'.trans hp⟩

variable [DecidableEq α]

/-- The store `x->next = y`. -/
def setNext (L : Links α) (x y : α) : Links α := { L with next := Function.update L.next x y }

/-- The store `x->prev = y`. -/
def setPrev (L : Links α) (x y : α) : Links α := { L with prev := Function.update L.prev x y }

@[simp] theorem setNext_next (L : Links α) (x y z : α) :
    (L.setNext x y).next z = if z = x then y else L.next z := by
  simp [setNext, Function.update_apply]

@[simp] theorem setNext_prev (L : Links α) (x y : α) : (L.setNext x y).prev = L.prev := rfl

@[simp] theorem setPrev_prev (L : Links α) (x y z : α) :
    (L.setPrev x y).prev z = if z = x then y else L.prev z := by
  simp [setPrev, Function.update_apply]

@[simp] theorem setPrev_next (L : Links α) (x y : α) : (L.setPrev x y).next = L.next := rfl

end Links

/-- The nodes of `l`, read as a cycle, form one circular doubly linked list. -/
structure IsRing {α : Type u} (L : Links α) (l : List α) : Prop where
  /-- No node occurs twice. -/
  nodup : l.Nodup
  /-- Every node is properly linked to the one after it, and the last one to the first. -/
  chain : Cycle.Chain L.Link (l : Cycle α)

namespace IsRing

variable {α : Type u} {L L' : Links α} {l l' xs ys : List α} {x y h : α}

/-! ## Segments

A ring cut open between two nodes is a chain of links.  A heap that changes only the outward
fields of the two ends keeps the chain. -/

theorem chain_congr (hc : l.IsChain L.Link) (hn : ∀ x ∈ l.dropLast, L'.next x = L.next x)
    (hp : ∀ x ∈ l.tail, L'.prev x = L.prev x) : l.IsChain L'.Link := by
  induction l with
  | nil => exact List.isChain_nil
  | cons a l ih =>
    cases l with
    | nil => exact List.isChain_singleton a
    | cons b l =>
      rw [List.isChain_cons_cons] at hc ⊢
      refine ⟨⟨?_, ?_⟩, ih hc.2 ?_ ?_⟩
      · rw [hn a (by simp)]; exact hc.1.1
      · rw [hp b (by simp)]; exact hc.1.2
      · intro x hx; exact hn x (by simp [hx])
      · intro x hx; exact hp x (by simp only [List.tail_cons] at hx ⊢; exact List.mem_cons_of_mem _ hx)

/-! ## Reading a ring -/

theorem cons_iff : IsRing L (x :: xs) ↔ (x :: xs).Nodup ∧ (x :: (xs ++ [x])).IsChain L.Link :=
  ⟨fun h => ⟨h.nodup, (Cycle.chain_coe_cons _ _ _).1 h.chain⟩,
   fun h => ⟨h.1, (Cycle.chain_coe_cons _ _ _).2 h.2⟩⟩

theorem singleton_iff : IsRing L [x] ↔ L.next x = x ∧ L.prev x = x := by
  rw [cons_iff]; simp [Links.Link]

theorem nil : IsRing L [] := ⟨List.nodup_nil, Cycle.Chain.nil _⟩

/-- **Where a ring starts does not matter.** -/
theorem rotate (h : IsRing L l) (hr : l ~r l') : IsRing L l' := by
  have he : (l : Cycle α) = l' := Cycle.coe_eq_coe.2 hr
  exact ⟨hr.nodup_iff.1 h.nodup, he ▸ h.chain⟩

theorem swap (h : IsRing L (xs ++ ys)) : IsRing L (ys ++ xs) :=
  h.rotate List.isRotated_append

/-- The member of a ring can be taken as its head. -/
theorem cons_of_mem (h : IsRing L l) (hx : x ∈ l) :
    ∃ xs, l ~r (x :: xs) ∧ IsRing L (x :: xs) := by
  obtain ⟨s, t, rfl⟩ := List.append_of_mem hx
  have hr : (s ++ x :: t) ~r (x :: t ++ s) := List.isRotated_append
  exact ⟨t ++ s, hr, h.rotate hr⟩

/-- **The frame rule**: a heap that agrees on the nodes of a ring keeps the ring. -/
theorem congr (h : IsRing L l) (hl : ∀ x ∈ l, L'.next x = L.next x ∧ L'.prev x = L.prev x) :
    IsRing L' l := by
  cases l with
  | nil => exact nil
  | cons x xs =>
    rw [cons_iff] at h ⊢
    refine ⟨h.1, chain_congr h.2 (fun y hy => (hl y ?_).1) (fun y hy => (hl y ?_).2)⟩
    · have h1 : (x :: (xs ++ [x])).dropLast = x :: xs := by
        rw [← List.cons_append, List.dropLast_concat]
      rwa [h1] at hy
    · simp only [List.tail_cons, List.mem_append, List.mem_singleton] at hy
      rcases hy with hy | rfl
      · exact List.mem_cons_of_mem _ hy
      · exact List.mem_cons_self

theorem next_cons_cons (h : IsRing L (x :: y :: xs)) : L.next x = y :=
  (List.isChain_cons_cons.1 (cons_iff.1 h).2).1.1

theorem prev_cons_concat (h : IsRing L (x :: (xs ++ [y]))) : L.prev x = y := by
  have hc := (cons_iff.1 h).2
  rw [List.append_assoc, ← List.cons_append, List.isChain_append] at hc
  exact (List.isChain_cons_cons.1 hc.2.1).1.2

/-- The successor of the head of a ring is the first of the other nodes, or the head itself. -/
theorem next_cons (h : IsRing L (x :: xs)) : L.next x = (xs ++ [x]).head (by simp) := by
  cases xs with
  | nil => exact (singleton_iff.1 h).1
  | cons y ys => exact next_cons_cons h

theorem next_headD (hr : IsRing L (h :: xs)) : L.next h = xs.headD h := by
  cases xs with
  | nil => exact next_cons hr
  | cons y ys => exact next_cons hr

/-- The successor of a node in the list a head stands for: the next one, or the head again. -/
theorem next_of_append (hr : IsRing L (h :: (xs ++ x :: ys))) : L.next x = ys.headD h := by
  have h1 : IsRing L (x :: (ys ++ h :: xs)) := by
    rw [← List.cons_append] at hr ⊢; exact hr.swap
  cases ys with
  | nil => exact next_cons_cons h1
  | cons y ys => exact next_cons_cons h1

/-- The head of a ring is its own successor exactly when the ring has no other node. -/
theorem next_eq_self_iff (h : IsRing L (x :: xs)) : L.next x = x ↔ xs = [] := by
  cases xs with
  | nil => exact ⟨fun _ => rfl, fun _ => (singleton_iff.1 h).1⟩
  | cons y ys =>
    rw [next_cons_cons h]
    have hxy : x ≠ y := fun e => (List.nodup_cons.1 h.nodup).1 (by simp [e])
    simp [hxy.symm]

theorem next_mem (h : IsRing L l) (hx : x ∈ l) : L.next x ∈ l := by
  obtain ⟨xs, hr, h'⟩ := h.cons_of_mem hx
  rw [hr.mem_iff, h'.next_cons]
  have := List.head_mem (l := xs ++ [x]) (by simp)
  simp only [List.mem_append, List.mem_singleton] at this
  rcases this with h1 | h1
  · exact List.mem_cons_of_mem _ h1
  · rw [h1]; exact List.mem_cons_self

theorem prev_mem (h : IsRing L l) (hx : x ∈ l) : L.prev x ∈ l := by
  obtain ⟨xs, hr, h'⟩ := h.cons_of_mem hx
  rw [hr.mem_iff]
  rcases List.eq_nil_or_concat xs with rfl | ⟨ys, y, rfl⟩
  · rw [(singleton_iff.1 h').2]; exact List.mem_cons_self
  · rw [List.concat_eq_append] at h' ⊢
    rw [prev_cons_concat h']; simp

theorem unique_aux (hxs : (x :: (xs ++ [h])).IsChain L.Link) (hys : (x :: (ys ++ [h])).IsChain L.Link)
    (hx : h ∉ xs) (hy : h ∉ ys) : xs = ys := by
  induction xs generalizing x ys with
  | nil =>
    cases ys with
    | nil => rfl
    | cons b ys =>
      have h1 : L.next x = h := hxs.rel.1
      have h2 : L.next x = b := hys.rel.1
      exact absurd (h1.symm.trans h2) (fun e => hy (by simp [e]))
  | cons a xs ih =>
    have h1 : L.next x = a := hxs.rel.1
    cases ys with
    | nil =>
      have h2 : L.next x = h := hys.rel.1
      exact absurd (h2.symm.trans h1) (fun e => hx (by simp [e]))
    | cons b ys =>
      have h2 : L.next x = b := hys.rel.1
      obtain rfl : a = b := h1.symm.trans h2
      rw [List.cons_append, List.isChain_cons_cons] at hxs hys
      rw [ih hxs.2 hys.2 (fun e => hx (List.mem_cons_of_mem _ e))
        (fun e => hy (List.mem_cons_of_mem _ e))]

/-- **The ring through a node determines the list of its other nodes.** -/
theorem unique (hxs : IsRing L (h :: xs)) (hys : IsRing L (h :: ys)) : xs = ys :=
  unique_aux (cons_iff.1 hxs).2 (cons_iff.1 hys).2 (List.nodup_cons.1 hxs.nodup).1
    (List.nodup_cons.1 hys.nodup).1

/-! ## Surgery

Each statement is about the heap `L'` a sequence of stores produces, described by what its two
functions are, so that it applies to any order of the stores. -/

/-- Reading every `next` as `prev` and every `prev` as `next` turns a ring around. -/
theorem reverse (h : IsRing L l) : IsRing ⟨L.prev, L.next⟩ l.reverse := by
  refine ⟨List.nodup_reverse.2 h.nodup, ?_⟩
  cases l with
  | nil => exact Cycle.Chain.nil _
  | cons x xs =>
    have hc := (cons_iff.1 h).2
    have hr : (x :: xs).reverse ~r (x :: xs.reverse) := by
      rw [List.reverse_cons]; exact List.isRotated_append
    rw [Cycle.coe_eq_coe.2 hr, Cycle.chain_coe_cons]
    have h1 : x :: (xs.reverse ++ [x]) = (x :: (xs ++ [x])).reverse := by simp
    rw [h1, List.isChain_reverse]
    exact hc.imp fun a b hab => ⟨hab.2, hab.1⟩

variable [DecidableEq α]

/-- **Insertion after the head.** -/
theorem insertAfter (hr : IsRing L (h :: xs)) (hx : x ∉ h :: xs)
    (hn : ∀ z, L'.next z = if z = h then x else if z = x then L.next h else L.next z)
    (hp : ∀ z, L'.prev z = if z = L.next h then x else if z = x then h else L.prev z) :
    IsRing L' (h :: x :: xs) := by
  obtain ⟨hnd, hc⟩ := cons_iff.1 hr
  have hhx : h ≠ x := fun e => hx (by simp [e])
  have hxn : x ≠ L.next h := fun e => hx (e ▸ hr.next_mem List.mem_cons_self)
  obtain ⟨y, zs, hyz⟩ : ∃ y zs, xs ++ [h] = y :: zs := by cases xs <;> simp
  have hy : L.next h = y := by rw [hyz] at hc; exact hc.rel.1
  refine cons_iff.2 ⟨?_, ?_⟩
  · rw [List.nodup_cons] at hnd ⊢
    refine ⟨by simp [hhx, hnd.1], List.nodup_cons.2 ⟨fun e => hx (List.mem_cons_of_mem _ e), hnd.2⟩⟩
  · rw [List.cons_append, List.isChain_cons_cons]
    refine ⟨⟨by simp [hn], by simp [hp, hxn]⟩, ?_⟩
    have hnd' : (y :: zs).Nodup := by
      rw [← hyz]; exact (List.perm_append_singleton h xs).nodup_iff.2 hnd
    rw [hyz] at hc ⊢
    rw [List.isChain_cons_cons] at hc ⊢
    refine ⟨⟨by simp [hn, hhx.symm, hy], by simp [hp, hy]⟩, chain_congr hc.2 ?_ ?_⟩
    · intro z hz
      have hz' : z ∈ xs := by rw [← hyz, List.dropLast_concat] at hz; exact hz
      have h1 : z ≠ h := fun e => (List.nodup_cons.1 hnd).1 (e ▸ hz')
      have h2 : z ≠ x := fun e => hx (e ▸ List.mem_cons_of_mem _ hz')
      simp [hn, h1, h2]
    · intro z hz
      rw [List.tail_cons] at hz
      have h1 : z ≠ y := fun e => (List.nodup_cons.1 hnd').1 (e ▸ hz)
      have h2 : z ≠ x := by
        intro e
        have hz' : z ∈ xs ++ [h] := by rw [hyz]; exact List.mem_cons_of_mem _ hz
        exact hx (e ▸ (List.perm_append_singleton h xs).subset hz')
      simp [hp, hy, h1, h2]

/-- **Insertion before the head**, that is, at the end of the list the head stands for. -/
theorem insertBefore (hr : IsRing L (h :: xs)) (hx : x ∉ h :: xs)
    (hn : ∀ z, L'.next z = if z = L.prev h then x else if z = x then h else L.next z)
    (hp : ∀ z, L'.prev z = if z = h then x else if z = x then L.prev h else L.prev z) :
    IsRing L' (h :: (xs ++ [x])) := by
  have hrot : (h :: xs).reverse ~r (h :: xs.reverse) := by
    rw [List.reverse_cons]; exact List.isRotated_append
  have h1 : IsRing ⟨L'.prev, L'.next⟩ (h :: x :: xs.reverse) :=
    insertAfter (hr.reverse.rotate hrot) (by simpa using hx) hp hn
  have hrot' : (h :: x :: xs.reverse).reverse ~r (h :: (xs ++ [x])) := by
    simp only [List.reverse_cons, List.reverse_reverse, List.append_assoc, List.singleton_append]
    have : xs ++ [x, h] = (xs ++ [x]) ++ [h] := by simp
    rw [this]
    exact List.isRotated_append
  exact h1.reverse.rotate hrot'

/-- **Unlinking the head** of a ring with other nodes leaves the ring of the others. -/
theorem unlink (hr : IsRing L (x :: xs)) (hne : xs ≠ [])
    (hn : ∀ z, L'.next z = if z = L.prev x then L.next x else L.next z)
    (hp : ∀ z, L'.prev z = if z = L.next x then L.prev x else L.prev z) : IsRing L' xs := by
  obtain ⟨hnd, hc⟩ := cons_iff.1 hr
  have hxs : xs.Nodup := (List.nodup_cons.1 hnd).2
  obtain ⟨y, zs, rfl⟩ := List.exists_cons_of_ne_nil hne
  have hy : L.next x = y := next_cons_cons hr
  have hlast : L.prev x = (y :: zs).getLast hne := by
    have h1 := List.dropLast_append_getLast hne
    rw [← h1] at hr
    exact prev_cons_concat hr
  refine ⟨hxs, ?_⟩
  rw [Cycle.chain_ne_nil _ hne, List.isChain_cons_cons]
  refine ⟨⟨by simp [hn, hlast, hy], by simp [hp, hlast, hy]⟩, ?_⟩
  rw [List.cons_append, List.isChain_cons_cons] at hc
  have hinner : (y :: zs).IsChain L.Link := by
    have h2 := hc.2
    rw [← List.cons_append] at h2
    exact (List.isChain_append.1 h2).1
  refine chain_congr hinner ?_ ?_
  · intro z hz
    have h1 : z ≠ (y :: zs).getLast hne := by
      intro e
      have h2 := List.dropLast_append_getLast hne
      rw [← h2] at hxs
      exact (List.nodup_append.1 hxs).2.2 z hz _ (List.mem_singleton.2 rfl) e
    simp [hn, hlast, h1]
  · intro z hz
    rw [List.tail_cons] at hz
    have h1 : z ≠ y := fun e => (List.nodup_cons.1 hxs).1 (e ▸ hz)
    simp [hp, hy, h1]

/-- **Replacing the head** of a ring with other nodes.  The replaced node itself may be left in
any state, so nothing is asked of its links. -/
theorem replace (hr : IsRing L (y :: xs)) (hne : xs ≠ []) (hx : x ∉ y :: xs)
    (hn : ∀ z ≠ y, L'.next z =
      if z = x then L.next y else if z = L.prev y then x else L.next z)
    (hp : ∀ z ≠ y, L'.prev z =
      if z = x then L.prev y else if z = L.next y then x else L.prev z) :
    IsRing L' (x :: xs) := by
  have hyx : y ≠ x := fun e => hx (by simp [e])
  have hyn : y ≠ L.next y := fun e => hne (hr.next_eq_self_iff.1 e.symm)
  have hxn : x ≠ L.next y := fun e => hx (e ▸ hr.next_mem List.mem_cons_self)
  have hxp : x ≠ L.prev y := fun e => hx (e ▸ hr.prev_mem List.mem_cons_self)
  -- first insert the new node after the head, then unlink the head
  let L₁ : Links α :=
    ⟨fun z => if z = y then x else if z = x then L.next y else L.next z,
     fun z => if z = L.next y then x else if z = x then y else L.prev z⟩
  have hn₁ : L₁.next y = x := if_pos rfl
  have hp₁ : L₁.prev y = L.prev y := by simp only [L₁]; rw [if_neg hyn, if_neg hyx]
  have hr₁ : IsRing L₁ (y :: x :: xs) := hr.insertAfter hx (fun _ => rfl) fun _ => rfl
  let L₂ : Links α :=
    ⟨fun z => if z = L.prev y then x else L₁.next z, fun z => if z = x then L.prev y else L₁.prev z⟩
  have hr₂ : IsRing L₂ (x :: xs) := by
    refine hr₁.unlink (List.cons_ne_nil x xs) (fun z => ?_) fun z => ?_
    · rw [hp₁, hn₁]
    · rw [hp₁, hn₁]
  have hnd : y ∉ x :: xs := (List.nodup_cons.1 hr₁.nodup).1
  refine hr₂.congr fun z hz => ?_
  have hzy : z ≠ y := fun e => hnd (e ▸ hz)
  rw [hn z hzy, hp z hzy]
  constructor
  · rcases eq_or_ne z x with rfl | hzx
    · simp [L₂, L₁, hzy, hxp]
    · simp [L₂, L₁, hzy, hzx]
  · rcases eq_or_ne z x with rfl | hzx
    · simp [L₂]
    · simp [L₂, L₁, hzx]

end IsRing

/-! ## Families of rings -/

/-- The lists `R i` are rings, and no node is on two of them. -/
structure Rings {α : Type u} {ι : Type*} (L : Links α) (R : ι → List α) : Prop where
  /-- Each of the lists is a ring; the empty list is one. -/
  ring : ∀ i, IsRing L (R i)
  /-- No node is on two rings. -/
  disjoint : ∀ {i j x}, x ∈ R i → x ∈ R j → i = j

namespace Rings

variable {α : Type u} {ι : Type*} {L L' : Links α} {R : ι → List α} {l : List α} {i : ι}

/-- The frame rule for a whole family. -/
theorem congr (hR : Rings L R)
    (hf : ∀ i, ∀ x ∈ R i, L'.next x = L.next x ∧ L'.prev x = L.prev x) : Rings L' R :=
  ⟨fun i => (hR.ring i).congr (hf i), hR.disjoint⟩

variable [DecidableEq ι]

/-- **Surgery on one ring of a family**: the new ring takes no node of the others, and the heap
agrees with the old one on theirs. -/
theorem update (hR : Rings L R) (hl : IsRing L' l) (hd : ∀ j ≠ i, ∀ x ∈ l, x ∉ R j)
    (hf : ∀ j ≠ i, ∀ x ∈ R j, L'.next x = L.next x ∧ L'.prev x = L.prev x) :
    Rings L' (Function.update R i l) where
  ring j := by
    rcases eq_or_ne j i with rfl | hj
    · rw [Function.update_self]; exact hl
    · rw [Function.update_of_ne hj]; exact (hR.ring j).congr (hf j hj)
  disjoint {j j' x} hx hx' := by
    by_cases hj : j = i <;> by_cases hj' : j' = i
    · exact hj.trans hj'.symm
    · rw [hj, Function.update_self] at hx
      rw [Function.update_of_ne hj'] at hx'
      exact absurd hx' (hd j' hj' x hx)
    · rw [hj', Function.update_self] at hx'
      rw [Function.update_of_ne hj] at hx
      exact absurd hx (hd j hj x hx')
    · rw [Function.update_of_ne hj] at hx
      rw [Function.update_of_ne hj'] at hx'
      exact hR.disjoint hx hx'

/-- A ring of a family may be read from another starting point. -/
theorem rotate (hR : Rings L R) (hr : R i ~r l) : Rings L (Function.update R i l) :=
  hR.update ((hR.ring i).rotate hr)
    (fun _ hj _ hx hx' => hj (hR.disjoint hx' (hr.mem_iff.2 hx))) fun _ _ _ _ => ⟨rfl, rfl⟩

end Rings
