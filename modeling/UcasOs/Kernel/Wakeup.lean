import UcasOs.Kernel.Refine

/-!
# Waking up

`check_sleeping` on its own: for every state of the kernel in which `sleep_queue` and `ready_queue`
are well formed and have no PCB in common, whatever the rest of it is like, and every sequence of
values that `rdtime` may give.

* `Kernel.SleepAndReady` — the two lists are well formed, and these are their members.
* `Kernel.visits` — the loop once more, with a record of the PCBs it stands on and of the time it
  reads there.
* `Kernel.checkSleeping_wakes_due` — **the loop visits every sleeper once, ends, and moves those that
  are due.**
-/

set_option autoImplicit false

namespace UcasOs

/-- One iteration of the loop of `check_sleeping`. -/
structure Visit where
  /-- The PCB it stands on. -/
  pcb : PcbPtr
  /-- What `rdtime` gives in its call of `get_timer()`. -/
  ticks : ℕ

/-- The sleeper has to be woken up. -/
def Core.due (c : Core) (v : Visit) : Bool := c.wakeupTime v.pcb ≤ v.ticks / c.timeBase

/-- One visit to each sleeper, in order, when `rdtime` gives the values of `clock`. -/
def visitsOf : List PcbPtr → (ℕ → ℕ) → List Visit
  | [], _ => []
  | p :: sleepers, clock => ⟨p, clock 0⟩ :: visitsOf sleepers fun n => clock (n + 1)

namespace Kernel

/-- The iterations of the loop of `check_sleeping`. -/
def visitsLoop : ℕ → NodePtr → NodePtr → Kernel → Option (List Visit)
  | 0, _, _, _ => none
  | fuel + 1, pos, n, k =>
    if pos = sleepQueue then some []
    else do
      let pcb ← listEntry pos
      let ticks := k.clock 0
      let (now, c) := k.getTimer
      let k := { k with toCore := c }
      let k ← if k.wakeupTime pcb ≤ now then k.doUnblock pos else some k
      let rest ← visitsLoop fuel n (k.links.next n) k
      return ⟨pcb, ticks⟩ :: rest

/-- The iterations of `check_sleeping()`. -/
def visits (fuel : ℕ) (k : Kernel) : Option (List Visit) :=
  let pos := k.links.next sleepQueue
  let n := k.links.next pos
  visitsLoop fuel pos n k

/-- `sleep_queue` and `ready_queue` are well-formed lists of these PCBs, none of which is on both. -/
structure SleepAndReady (k : Kernel) (sleepers ready : List PcbPtr) : Prop where
  sleep_ring : IsRing k.links (sleepQueue :: sleepers.map .list)
  ready_ring : IsRing k.links (readyQueue :: ready.map .list)
  disjoint : ∀ p ∈ sleepers, p ∉ ready

/-- The sleepers that are due when they are visited. -/
def woken (k : Kernel) (sleepers : List PcbPtr) : List PcbPtr :=
  ((visitsOf sleepers k.clock).filter fun v => k.due v).map (·.pcb)

/-- The sleepers that are not. -/
def asleep (k : Kernel) (sleepers : List PcbPtr) : List PcbPtr :=
  ((visitsOf sleepers k.clock).filter fun v => !k.due v).map (·.pcb)

variable {k k' : Kernel} {p : PcbPtr} {sleepers ready kept l : List PcbPtr}

/-! ## The visits -/

theorem map_pcb_visitsOf (sleepers : List PcbPtr) (clock : ℕ → ℕ) :
    (visitsOf sleepers clock).map (·.pcb) = sleepers := by
  induction sleepers generalizing clock with
  | nil => rfl
  | cons p sleepers ih => rw [visitsOf, List.map_cons, ih]

theorem woken_sublist : (k.woken sleepers).Sublist sleepers := by
  have hsub := (List.filter_sublist (p := fun v => k.due v) (l := visitsOf sleepers k.clock)).map
    Visit.pcb
  rwa [map_pcb_visitsOf] at hsub

theorem asleep_sublist : (k.asleep sleepers).Sublist sleepers := by
  have hsub := (List.filter_sublist (p := fun v => !k.due v) (l := visitsOf sleepers k.clock)).map
    Visit.pcb
  rwa [map_pcb_visitsOf] at hsub

/-- At which tick a sleeper is visited. -/
theorem mem_visitsOf {clock : ℕ → ℕ} {v : Visit} :
    v ∈ visitsOf sleepers clock ↔ ∃ i, sleepers[i]? = some v.pcb ∧ v.ticks = clock i := by
  induction sleepers generalizing clock with
  | nil => simp [visitsOf]
  | cons p sleepers ih =>
    rw [visitsOf, List.mem_cons, ih]
    constructor
    · rintro (rfl | ⟨i, hi, ht⟩)
      · exact ⟨0, rfl, rfl⟩
      · exact ⟨i + 1, hi, ht⟩
    · rintro ⟨i, hi, ht⟩
      cases i with
      | zero =>
        rw [List.getElem?_cons_zero, Option.some_inj] at hi
        exact .inl (by rw [hi, ← ht])
      | succ i => exact .inr ⟨i, hi, ht⟩

/-- A sleeper is visited once, so that it is the one visit that decides. -/
theorem mem_filter_visitsOf {P : Visit → Bool} {clock : ℕ → ℕ} {i : ℕ} (hnd : sleepers.Nodup)
    (hp : sleepers[i]? = some p) :
    p ∈ ((visitsOf sleepers clock).filter P).map (·.pcb) ↔ P ⟨p, clock i⟩ = true := by
  rw [List.mem_map]
  constructor
  · rintro ⟨v, hv, rfl⟩
    obtain ⟨hv, hP⟩ := List.mem_filter.1 hv
    obtain ⟨j, hj, ht⟩ := mem_visitsOf.1 hv
    have hlt : j < sleepers.length := (List.getElem?_eq_some_iff.1 hj).1
    have hji : j = i := (List.getElem?_inj hlt hnd).1 (hj.trans hp.symm)
    rwa [← hji, ← ht]
  · intro hP
    exact ⟨⟨p, clock i⟩, List.mem_filter.2 ⟨mem_visitsOf.2 ⟨i, hp, rfl⟩, hP⟩, rfl⟩

theorem mem_woken_iff {i : ℕ} (hnd : sleepers.Nodup) (hp : sleepers[i]? = some p) :
    p ∈ k.woken sleepers ↔ k.wakeupTime p ≤ k.clock i / k.timeBase := by
  rw [woken, mem_filter_visitsOf hnd hp, Core.due, decide_eq_true_iff]

theorem mem_asleep_iff {i : ℕ} (hnd : sleepers.Nodup) (hp : sleepers[i]? = some p) :
    p ∈ k.asleep sleepers ↔ k.clock i / k.timeBase < k.wakeupTime p := by
  rw [asleep, mem_filter_visitsOf hnd hp, Core.due, Bool.not_eq_true', decide_eq_false_iff_not,
    Nat.not_le]

/-! ## One iteration -/

theorem SleepAndReady.sleepers_nodup (h : k.SleepAndReady sleepers ready) : sleepers.Nodup :=
  (List.nodup_cons.1 h.sleep_ring.nodup).2.of_map _

/-- The two lists as a family of rings. -/
theorem sleepAndReady_iff : k.SleepAndReady sleepers ready ↔ Rings k.links fun b : Bool =>
    cond b (sleepQueue :: sleepers.map .list) (readyQueue :: ready.map .list) := by
  constructor
  · intro h
    have hmeet : ∀ x, x ∈ sleepQueue :: sleepers.map NodePtr.list →
        x ∉ readyQueue :: ready.map NodePtr.list := by
      intro x hs hr
      rw [List.mem_cons, List.mem_map] at hs hr
      rcases hs with rfl | ⟨p, hp, rfl⟩
      · simp at hr
      · obtain ⟨q, hq, he⟩ := hr.resolve_left (by simp)
        exact h.disjoint p hp (NodePtr.list.inj he ▸ hq)
    refine ⟨fun b => ?_, fun {b b' x} hb hb' => ?_⟩
    · cases b
      · exact h.ready_ring
      · exact h.sleep_ring
    · cases b <;> cases b'
      · rfl
      · exact absurd hb (hmeet x hb')
      · exact absurd hb' (hmeet x hb)
      · rfl
  · intro h
    refine ⟨h.ring true, h.ring false, fun p hs hr => ?_⟩
    have hs' : NodePtr.list p ∈ sleepQueue :: sleepers.map NodePtr.list :=
      List.mem_cons_of_mem _ (List.mem_map_of_mem hs)
    have hr' : NodePtr.list p ∈ readyQueue :: ready.map NodePtr.list :=
      List.mem_cons_of_mem _ (List.mem_map_of_mem hr)
    exact absurd (h.disjoint (i := true) (j := false) hs' hr') (by simp)

/-- The lists do not depend on the data. -/
theorem SleepAndReady.withCore (h : k.SleepAndReady sleepers ready) (f : Core → Core) :
    (k.withCore f).SleepAndReady sleepers ready :=
  ⟨h.sleep_ring, h.ready_ring, h.disjoint⟩

/-- `do_unblock` takes a sleeper from wherever it is in `sleep_queue` to the end of
`ready_queue`. -/
theorem SleepAndReady.doUnblock (h : k.SleepAndReady (kept ++ p :: l) ready) :
    ∃ k', k.doUnblock (.list p) = some k' ∧
      k'.toCore = (k.toCore.setStatus p .ready).logAppended p ∧
        k'.SleepAndReady (kept ++ l) (ready ++ [p]) := by
  refine ⟨_, rfl, rfl, sleepAndReady_iff.2 ?_⟩
  have hp : NodePtr.list p ∈ sleepQueue :: (kept ++ p :: l).map NodePtr.list := by simp
  have hnot : p ∉ ready := h.disjoint p (by simp)
  have hnd := h.sleepers_nodup
  have hkept : p ∉ kept ∧ p ∉ l := by
    rw [List.nodup_append, List.nodup_cons] at hnd
    exact ⟨fun hm => hnd.2.2 p hm p List.mem_cons_self rfl, hnd.2.1.1⟩
  have hfilter : ∀ {l : List PcbPtr}, p ∉ l →
      (l.map NodePtr.list).filter (· ≠ .list p) = l.map .list := fun hl => by
    rw [Sched.filter_map_list, Sched.filter_of_not_mem hl]
  have hsleep : (sleepQueue :: (kept ++ p :: l).map NodePtr.list).filter (· ≠ .list p) =
      sleepQueue :: (kept ++ l).map .list := by
    rw [List.filter_cons_of_pos (by simp), List.map_append, List.filter_append, List.map_cons,
      List.filter_cons_of_neg (by simp), hfilter hkept.1, hfilter hkept.2, List.map_append]
  have hready : (readyQueue :: ready.map NodePtr.list).filter (· ≠ .list p) ++ [.list p] =
      readyQueue :: (ready ++ [p]).map .list := by
    rw [List.filter_cons_of_pos (by simp), hfilter hnot, List.map_append]
    rfl
  have hmove := (sleepAndReady_iff.1 h).listMoveTail (i := true) (j := false) hp rfl (by simp)
  convert hmove using 1
  · rfl
  · funext b
    cases b
    · exact hready.symm
    · exact hsleep.symm

/-- One iteration of the loop that records the visits. -/
theorem visitsLoop_list (fuel : ℕ) (n : NodePtr) (k : Kernel) :
    visitsLoop (fuel + 1) (.list p) n k =
      (if k.wakeupTime p ≤ k.getTimer.1 then (k.withCore (·.getTimer.2)).doUnblock (.list p)
        else some (k.withCore (·.getTimer.2))).bind fun k₁ =>
      (visitsLoop fuel n (k₁.links.next n) k₁).bind fun rest => some (⟨p, k.clock 0⟩ :: rest) := by
  have hw : k.getTimer.2.wakeupTime p = k.wakeupTime p := rfl
  rw [visitsLoop, if_neg (by simp)]
  simp only [listEntry_list, Option.bind_eq_bind, Option.bind_some, hw]
  split <;> rfl

/-! ## The loop -/

/-- Who is due depends on the deadlines and the clock only. -/
theorem woken_congr (hclock : k'.clock = k.clock) (hw : k'.wakeupTime = k.wakeupTime)
    (hb : k'.timeBase = k.timeBase) (l : List PcbPtr) :
    k'.woken l = k.woken l ∧ k'.asleep l = k.asleep l := by
  have hdue : k'.due = k.due := by
    funext v
    rw [Core.due, Core.due, hw, hb]
  rw [woken, woken, asleep, asleep, hclock, hdue]
  exact ⟨rfl, rfl⟩

/-- A sleeper that is due when the clock is read now. -/
theorem woken_cons_of_le (h : k.wakeupTime p ≤ k.getTimer.1) :
    k.woken (p :: l) = p :: (k.withCore (·.getTimer.2)).woken l ∧
      k.asleep (p :: l) = (k.withCore (·.getTimer.2)).asleep l := by
  have hdue : k.due ⟨p, k.clock 0⟩ = true := decide_eq_true h
  rw [woken, asleep, visitsOf, List.filter_cons_of_pos hdue, List.filter_cons_of_neg (by simp [hdue])]
  exact ⟨rfl, rfl⟩

/-- A sleeper that is not. -/
theorem woken_cons_of_lt (h : k.getTimer.1 < k.wakeupTime p) :
    k.woken (p :: l) = (k.withCore (·.getTimer.2)).woken l ∧
      k.asleep (p :: l) = p :: (k.withCore (·.getTimer.2)).asleep l := by
  have hdue : k.due ⟨p, k.clock 0⟩ = false := decide_eq_false (Nat.not_le.2 h)
  rw [woken, asleep, visitsOf, List.filter_cons_of_neg (by simp [hdue]),
    List.filter_cons_of_pos (by simp [hdue])]
  exact ⟨rfl, rfl⟩

/-- Started on the first of the sleepers `l`, the loop ends with `k'`, and visits each of them. -/
def LoopEnds (k : Kernel) (l : List PcbPtr) (k' : Kernel) : Prop :=
  ∀ fuel, l.length < fuel → let pos := (l.map NodePtr.list).headD sleepQueue
    checkSleepingLoop fuel pos (k.links.next pos) k = some k' ∧
      visitsLoop fuel pos (k.links.next pos) k = some (visitsOf l k.clock)

theorem loopEnds_nil : k.LoopEnds [] k := by
  intro fuel hfuel
  obtain ⟨fuel, rfl⟩ := Nat.exists_eq_add_of_lt hfuel
  simp [checkSleepingLoop, visitsLoop, visitsOf]

theorem LoopEnds.cons {k₁ : Kernel} (h : k₁.LoopEnds l k')
    (hnext : k.links.next (.list p) = (l.map NodePtr.list).headD sleepQueue)
    (hk₁ : (if k.wakeupTime p ≤ k.getTimer.1 then (k.withCore (·.getTimer.2)).doUnblock (.list p)
      else some (k.withCore (·.getTimer.2))) = some k₁)
    (hclock : k₁.clock = fun n => k.clock (n + 1)) : k.LoopEnds (p :: l) k' := by
  intro fuel hfuel
  obtain ⟨fuel, rfl⟩ := Nat.exists_eq_add_of_lt hfuel
  have hcons : ((p :: l).map NodePtr.list).headD sleepQueue = .list p := rfl
  obtain ⟨h1, h2⟩ := h ((p :: l).length + fuel) (by rw [List.length_cons]; omega)
  simp only [hcons, Refines.checkSleepingLoop_list, visitsLoop_list, hk₁, Option.bind_some, hnext, h1,
    h2, visitsOf, hclock, true_and]

/-- The loop has visited the sleepers `l`, and the state is `k'`. -/
structure Woke (k : Kernel) (kept l ready : List PcbPtr) (k' : Kernel) : Prop where
  lists : k'.SleepAndReady (kept ++ k.asleep l) (ready ++ k.woken l)
  status : ∀ p, k'.status p = if p ∈ k.woken l then .ready else k.status p

/-- The loop wakes up those of the last sleepers `l` that are due. -/
theorem SleepAndReady.loopEnds (h : k.SleepAndReady (kept ++ l) ready) :
    ∃ k', k.LoopEnds l k' ∧ k.Woke kept l ready k' := by
  induction l generalizing k kept ready with
  | nil =>
    have hnil : k.woken [] = [] ∧ k.asleep [] = [] := ⟨rfl, rfl⟩
    refine ⟨k, loopEnds_nil, ?_, fun p => rfl⟩
    rwa [hnil.1, hnil.2, List.append_nil ready]
  | cons p l ih =>
    have hnext : k.links.next (.list p) = (l.map NodePtr.list).headD sleepQueue := by
      have hring := h.sleep_ring
      rw [List.map_append] at hring
      exact hring.next_of_append
    have htick : (k.withCore (·.getTimer.2)).SleepAndReady (kept ++ p :: l) ready :=
      h.withCore _
    rcases Nat.lt_or_ge k.getTimer.1 (k.wakeupTime p) with hlt | hle
    · -- the sleeper stays
      obtain ⟨hwoken, hasleep⟩ := woken_cons_of_lt (l := l) hlt
      have hkept : (k.withCore (·.getTimer.2)).SleepAndReady ((kept ++ [p]) ++ l) ready := by
        rwa [List.append_assoc]
      obtain ⟨k', hends, hwoke⟩ := ih hkept
      refine ⟨k', hends.cons hnext (if_neg (Nat.not_le.2 hlt)) rfl, ?_, ?_⟩
      · rw [hwoken, hasleep, List.append_cons]
        exact hwoke.lists
      · rw [hwoken]
        exact hwoke.status
    · -- the sleeper is moved
      obtain ⟨hwoken, hasleep⟩ := woken_cons_of_le (l := l) hle
      obtain ⟨k₁, hk₁, hcore, hlists⟩ := htick.doUnblock
      obtain ⟨k', hends, hwoke⟩ := ih hlists
      have hsame : k₁.woken l = (k.withCore (·.getTimer.2)).woken l ∧
          k₁.asleep l = (k.withCore (·.getTimer.2)).asleep l :=
        woken_congr (by rw [hcore]; rfl) (by rw [hcore]; rfl) (by rw [hcore]; rfl) l
      refine ⟨k', hends.cons hnext ((if_pos hle).trans hk₁) (congrArg Core.clock hcore), ?_, ?_⟩
      · rw [hwoken, hasleep, List.append_cons, ← hsame.1, ← hsame.2]
        exact hwoke.lists
      · intro q
        have hq : k₁.status q = if q = p then .ready else k.status q := by
          rw [congrArg Core.status hcore]
          exact Function.update_apply _ _ _ _
        rw [hwoke.status, hwoken, hsame.1, hq]
        by_cases hqw : q ∈ (k.withCore (·.getTimer.2)).woken l
        · rw [if_pos hqw, if_pos (List.mem_cons_of_mem _ hqw)]
        · rw [if_neg hqw]
          exact if_congr (by simp [hqw]) rfl rfl

/-- The whole loop. -/
theorem SleepAndReady.checkSleeping (h : k.SleepAndReady sleepers ready) :
    ∃ k', (∀ fuel, sleepers.length < fuel → k.checkSleeping fuel = some k' ∧
        k.visits fuel = some (visitsOf sleepers k.clock)) ∧
      k'.SleepAndReady (k.asleep sleepers) (ready ++ k.woken sleepers) ∧
      ∀ p, k'.status p = if p ∈ k.woken sleepers then .ready else k.status p := by
  have hall : k.SleepAndReady ([] ++ sleepers) ready := h
  obtain ⟨k', hends, hwoke⟩ := hall.loopEnds
  have hpos : k.links.next sleepQueue = (sleepers.map NodePtr.list).headD sleepQueue :=
    h.sleep_ring.next_headD
  refine ⟨k', fun fuel hfuel => ?_, hwoke.lists, hwoke.status⟩
  rw [Kernel.checkSleeping, visits, hpos]
  exact hends fuel hfuel

/-- **`check_sleeping` visits every sleeper once and ends; it moves those that are due when they are
visited to the end of `ready_queue`, in their order, and leaves the others.** -/
theorem checkSleeping_wakes_due (h : k.SleepAndReady sleepers ready) : ∃ k' moved left,
    (∀ fuel, sleepers.length < fuel → k.checkSleeping fuel = some k' ∧
      k.visits fuel = some (visitsOf sleepers k.clock)) ∧
    moved.Sublist sleepers ∧ left.Sublist sleepers ∧
    (∀ i p, sleepers[i]? = some p → (p ∈ moved ↔ k.wakeupTime p ≤ k.clock i / k.timeBase) ∧
      (p ∈ left ↔ k.clock i / k.timeBase < k.wakeupTime p)) ∧
    k'.SleepAndReady left (ready ++ moved) ∧
    ∀ p, k'.status p = if p ∈ moved then .ready else k.status p := by
  obtain ⟨k', hends, hlists, hstatus⟩ := h.checkSleeping
  exact ⟨k', _, _, hends, woken_sublist, asleep_sublist, fun i p hp =>
    ⟨mem_woken_iff h.sleepers_nodup hp, mem_asleep_iff h.sleepers_nodup hp⟩, hlists, hstatus⟩

/-- `pcb[0]` and `pcb[1]` sleep, `pcb[2]` is ready. -/
def oneOfTwoLinks : Links NodePtr where
  next
    | .head .sleep => .list (.pcb 0)
    | .list (.pcb 0) => .list (.pcb 1)
    | .list (.pcb 1) => sleepQueue
    | .head .ready => .list (.pcb 2)
    | .list (.pcb 2) => readyQueue
    | x => x
  prev
    | .head .sleep => .list (.pcb 1)
    | .list (.pcb 0) => sleepQueue
    | .list (.pcb 1) => .list (.pcb 0)
    | .head .ready => .list (.pcb 2)
    | .list (.pcb 2) => readyQueue
    | x => x

/-- Two sleepers, of which one is due. -/
theorem wakes_one_of_two : ∃ k k' : Kernel, k.SleepAndReady [.pcb 0, .pcb 1] [.pcb 2] ∧
    (∀ fuel, 2 < fuel → k.checkSleeping fuel = some k') ∧
      k'.status (.pcb 0) = .ready ∧ k'.status (.pcb 1) = .blocked := by
  let k : Kernel := { static 1 fun _ => 5 with
    wakeupTime := fun p => if p = .pcb 0 then 3 else 10
    links := oneOfTwoLinks }
  have hlists : k.SleepAndReady [.pcb 0, .pcb 1] [.pcb 2] := by
    refine ⟨IsRing.cons_iff.2 ⟨by decide, ?_⟩, IsRing.cons_iff.2 ⟨by decide, ?_⟩, by decide⟩
    · simp [Links.Link, k, oneOfTwoLinks]
    · simp [Links.Link, k, oneOfTwoLinks]
  obtain ⟨k', moved, left, hends, -, -, hmem, -, hstatus⟩ := checkSleeping_wakes_due hlists
  have hmoved : PcbPtr.pcb 0 ∈ moved := (hmem 0 _ rfl).1.2 (by simp [k, static])
  have hleft : PcbPtr.pcb 1 ∉ moved := fun hm => by
    simpa [k, static] using (hmem 1 _ rfl).1.1 hm
  exact ⟨k, k', hlists, fun fuel hfuel => (hends fuel hfuel).1,
    (hstatus (.pcb 0)).trans (if_pos hmoved), (hstatus (.pcb 1)).trans (if_neg hleft)⟩

end Kernel

end UcasOs
