import UcasOs.Kernel.Invariant

/-!
# The kernel refines the abstract scheduler

* `Sched.nodes` — the rings that the list nodes must form to represent an abstract state: one per
  queue, one per process, and one for every task that is on no queue, whose `list` node is linked
  to itself.
* `Refines k a` — the kernel `k` has the data of `a`, and its list nodes form those rings.
* `Computes run a` — a computation that takes fuel ends in a state refining `a`, with any amount
  of fuel from some point on, and with less it does not end.
* `Refines.trap` — the result: **every trap of the pointer program computes what the abstract
  scheduler says**.  In particular no operation ever follows a pointer that is not a PCB's node,
  and the loop of `check_sleeping` always ends.
* `Refines.stalls_iff` — the same for the one situation that most results have to exclude.
-/

set_option autoImplicit false

namespace UcasOs

/-- The rings of the heap. -/
inductive RingId
  /-- A list head and the `list` nodes of the members of the list. -/
  | queue (q : QueueId)
  /-- The `list` node of a task that is on no queue. -/
  | idle (p : PcbPtr)
  /-- The `thread_group` nodes of a process. -/
  | group (g : ℕ)
  deriving DecidableEq

namespace Sched

variable {a : Sched} {p : PcbPtr} {q : QueueId}

/-- `p` has been created and is on no queue. -/
def Idle (a : Sched) (p : PcbPtr) : Prop := a.Created p ∧ ∀ q, p ∉ a.queue q

open Classical in
/-- The rings that represent an abstract state. -/
noncomputable def nodes (a : Sched) : RingId → List NodePtr
  | .queue q => .head q :: (a.queue q).map .list
  | .idle p => if a.Idle p then [.list p] else []
  | .group g => (a.ring g).map .threadGroup

theorem nodes_idle (hp : a.Idle p) : a.nodes (.idle p) = [.list p] := if_pos hp

theorem nodes_not_idle (hp : ¬ a.Idle p) : a.nodes (.idle p) = [] := if_neg hp

theorem nodes_idle_of_mem (hq : p ∈ a.queue q) : a.nodes (.idle p) = [] :=
  nodes_not_idle fun h => h.2 q hq

theorem nodes_idle_congr {a' : Sched} (h : a'.Idle p ↔ a.Idle p) :
    a'.nodes (.idle p) = a.nodes (.idle p) := by
  by_cases hp : a.Idle p
  · rw [nodes_idle hp, nodes_idle (h.2 hp)]
  · rw [nodes_not_idle hp, nodes_not_idle fun hp' => hp (h.1 hp')]

theorem nodes_congr {a' : Sched} (hq : a'.queue = a.queue) (hr : a'.ring = a.ring)
    (hp : a'.pid = a.pid) : a'.nodes = a.nodes := by
  funext i
  cases i with
  | queue q => simp only [nodes, hq]
  | idle p => exact nodes_idle_congr (by simp only [Idle, Created, hq, hr, hp])
  | group g => simp only [nodes, hr]

/-- The `list` node of a created task is on some ring. -/
theorem exists_list_mem_nodes (hc : a.Created p) : ∃ i, NodePtr.list p ∈ a.nodes i := by
  by_cases hq : ∃ q, p ∈ a.queue q
  · obtain ⟨q, hq⟩ := hq
    exact ⟨.queue q, List.mem_cons_of_mem _ (List.mem_map_of_mem hq)⟩
  · refine ⟨.idle p, ?_⟩
    rw [nodes_idle ⟨hc, fun q hq' => hq ⟨q, hq'⟩⟩]
    exact List.mem_singleton.2 rfl

/-! ## The rings after the atomic changes -/

theorem filter_map_list (l : List PcbPtr) (p : PcbPtr) :
    (l.map NodePtr.list).filter (· ≠ .list p) = (l.filter (· ≠ p)).map .list := by
  rw [List.filter_map]
  congr 1
  refine List.filter_congr fun x _ => ?_
  simp

theorem filter_map_threadGroup (l : List PcbPtr) (p : PcbPtr) :
    (l.map NodePtr.threadGroup).filter (· ≠ .list p) = l.map .threadGroup :=
  List.filter_eq_self.2 fun x hx => by
    obtain ⟨y, -, rfl⟩ := List.mem_map.1 hx
    simp

theorem filter_nodes_idle (a : Sched) (x p : PcbPtr) :
    (a.nodes (.idle x)).filter (· ≠ .list p) = if x = p then [] else a.nodes (.idle x) := by
  by_cases hi : a.Idle x
  · rw [nodes_idle hi]
    by_cases hx : x = p <;> simp [hx]
  · rw [nodes_not_idle hi]; simp

theorem nodes_enqueue (a : Sched) (q : QueueId) (p : PcbPtr) :
    (a.enqueue q p).nodes = fun i =>
      if i = .queue q then (a.nodes i).filter (· ≠ .list p) ++ [.list p]
      else (a.nodes i).filter (· ≠ .list p) := by
  funext i
  cases i with
  | queue r =>
    have hf : (a.nodes (.queue r)).filter (· ≠ .list p) =
        .head r :: ((a.queue r).filter (· ≠ p)).map .list := by
      rw [nodes, List.filter_cons_of_pos (by simp), filter_map_list]
    rw [hf]
    by_cases hr : r = q
    · simp [nodes, enqueue, place, withCore, hr]
    · simp [nodes, enqueue, place, withCore, hr]
  | idle x =>
    rw [if_neg (by simp), filter_nodes_idle]
    by_cases hx : x = p
    · rw [if_pos hx, hx]
      exact nodes_idle_of_mem (q := q) (Wf.mem_enqueue.2 (Or.inr ⟨rfl, rfl⟩))
    · have hq : (∀ r, x ∉ (a.enqueue q p).queue r) ↔ ∀ r, x ∉ a.queue r := by
        simp [Wf.mem_enqueue, hx]
      rw [if_neg hx]
      exact nodes_idle_congr (and_congr Iff.rfl hq)
  | group g =>
    rw [if_neg (by simp), nodes, nodes, filter_map_threadGroup]; rfl

theorem nodes_dispatchTo (hc : a.Created p) :
    (a.dispatchTo p).nodes =
      Function.update (fun i => (a.nodes i).filter (· ≠ .list p)) (.idle p) [.list p] := by
  funext i
  cases i with
  | queue r =>
    rw [Function.update_of_ne (by simp), nodes, nodes, List.filter_cons_of_pos (by simp),
      filter_map_list]
    rfl
  | idle x =>
    by_cases hx : x = p
    · rw [hx, Function.update_self]
      exact nodes_idle ⟨hc, fun r hr => (Wf.mem_dispatchTo.1 hr).2 rfl⟩
    · have hq : (∀ r, x ∉ (a.dispatchTo p).queue r) ↔ ∀ r, x ∉ a.queue r := by
        simp [Wf.mem_dispatchTo, hx]
      rw [Function.update_of_ne (by simp [hx]), filter_nodes_idle, if_neg hx]
      exact nodes_idle_congr (and_congr Iff.rfl hq)
  | group g =>
    rw [Function.update_of_ne (by simp), nodes, nodes, filter_map_threadGroup]; rfl

end Sched

/-! ## The refinement relation -/

/-- **The kernel `k` represents the abstract state `a`.** -/
structure Refines (k : Kernel) (a : Sched) : Prop where
  /-- Both have the same data. -/
  core : k.toCore = a.toCore
  /-- The list nodes form the rings of `a`. -/
  rings : Rings k.links a.nodes

/-- What `run` computes, given enough fuel, represents `a`; with less fuel it does not end. -/
def Computes (run : ℕ → Option Kernel) (a : Sched) : Prop :=
  ∃ k N, Refines k a ∧ ∀ fuel, run fuel = if N ≤ fuel then some k else none

namespace Refines

open Kernel

variable {k : Kernel} {a : Sched} {p : PcbPtr} {q : QueueId}

/-- Data that says nothing about which rings there are may change freely. -/
theorem withCore (h : Refines k a) {f : Core → Core} (hp : (f a.toCore).pid = a.pid) :
    Refines (k.withCore f) (a.withCore f) where
  core := congrArg f h.core
  rings := by
    have he : (a.withCore f).nodes = a.nodes := Sched.nodes_congr rfl rfl hp
    rw [he]; exact h.rings

/-- The queue `q` as a ring. -/
theorem queueRing (h : Refines k a) (q : QueueId) :
    IsRing k.links (.head q :: (a.queue q).map .list) := h.rings.ring (.queue q)

theorem listEmpty_iff (h : Refines k a) (q : QueueId) :
    k.links.listEmpty (.head q) = true ↔ a.queue q = [] := by
  rw [Links.listEmpty_iff (h.queueRing q), List.map_eq_nil_iff]

theorem listEmpty_eq_false (h : Refines k a) (hq : a.queue q ≠ []) :
    k.links.listEmpty (.head q) = false := by
  rw [Bool.eq_false_iff, Ne, h.listEmpty_iff]; exact hq

/-- The first node of a list is that of the first of the queue. -/
theorem next_head (h : Refines k a) {rest : List PcbPtr} (hq : a.queue q = p :: rest) :
    k.links.next (.head q) = .list p := by
  have h1 := h.queueRing q
  rw [hq] at h1
  exact h1.next_cons_cons

/-- `list_move_tail(&p->list, &q)` -/
theorem listMoveTail (h : Refines k a) (hc : a.Created p) :
    Rings (k.links.listMoveTail (.list p) (.head q)) (a.enqueue q p).nodes := by
  obtain ⟨i, hi⟩ := Sched.exists_list_mem_nodes hc
  rw [Sched.nodes_enqueue]
  exact h.rings.listMoveTail hi rfl (by simp)

theorem doBlock (h : Refines k a) (hc : a.Created p) (hq : q.status = .blocked) :
    ∃ k', k.doBlock (.list p) (.head q) = some k' ∧ Refines k' (a.enqueue q p) := by
  refine ⟨_, rfl, ?_, h.listMoveTail hc⟩
  change k.toCore.setStatus p .blocked = a.toCore.setStatus p q.status
  rw [h.core, hq]

theorem doUnblock (h : Refines k a) (hc : a.Created p) :
    ∃ k', k.doUnblock (.list p) = some k' ∧ Refines k' (a.unblock p) := by
  have hn : (a.unblock p).nodes = (a.enqueue .ready p).nodes := Sched.nodes_congr rfl rfl rfl
  refine ⟨_, rfl, ?_, hn ▸ h.listMoveTail hc⟩
  change (k.toCore.setStatus p .ready).logAppended p = (a.toCore.setStatus p .ready).logAppended p
  rw [h.core]

/-! ## `check_sleeping` -/

/-- The loop of `check_sleeping`, one iteration unfolded. -/
theorem checkSleepingLoop_list (fuel : ℕ) (n : NodePtr) (k : Kernel) :
    Kernel.checkSleepingLoop (fuel + 1) (.list p) n k =
      (if k.wakeupTime p ≤ k.getTimer.1 then (k.withCore (·.getTimer.2)).doUnblock (.list p)
        else some (k.withCore (·.getTimer.2))).bind fun k₁ =>
      Kernel.checkSleepingLoop fuel n (k₁.links.next n) k₁ := by
  have hw : k.getTimer.2.wakeupTime p = k.wakeupTime p := rfl
  rw [Kernel.checkSleepingLoop, if_neg (by simp)]
  simp only [listEntry_list, Option.bind_eq_bind, Option.bind_some, hw]
  split <;> rfl

/-- One iteration of the loop of `check_sleeping`. -/
theorem visit (h : Refines k a) (hc : a.Created p) :
    ∃ k', (if k.wakeupTime p ≤ k.getTimer.1 then (k.withCore (·.getTimer.2)).doUnblock (.list p)
      else some (k.withCore (·.getTimer.2))) = some k' ∧ Refines k' (a.visit p) := by
  have ht : Refines (k.withCore (·.getTimer.2)) (a.withCore (·.getTimer.2)) := h.withCore rfl
  rcases Nat.lt_or_ge a.getTimer.1 (a.wakeupTime p) with hlt | hle
  · rw [Sched.Wf.visit_of_lt hlt, h.core, if_neg (Nat.not_le.2 hlt)]
    exact ⟨_, rfl, ht⟩
  · rw [Sched.Wf.visit_of_le hle, h.core, if_pos hle]
    exact ht.doUnblock hc

/-- Where the sleepers not yet looked at are, when one has been looked at. -/
theorem visit_queue_sleep (hw : a.Wf) {kept rest : List PcbPtr}
    (hq : a.queue .sleep = kept ++ p :: rest) :
    ∃ kept', (a.visit p).queue .sleep = kept' ++ rest := by
  rcases Sched.Wf.visit_eq a p with he | he
  · have hnd := hw.nodup .sleep
    rw [hq, List.nodup_append, List.nodup_cons] at hnd
    refine ⟨kept, ?_⟩
    have h1 : (a.visit p).queue .sleep = (a.queue .sleep).filter (· ≠ p) := by rw [he]; rfl
    have h2 : kept.filter (· ≠ p) = kept := Sched.filter_of_not_mem fun hm =>
      hnd.2.2 p hm p List.mem_cons_self rfl
    rw [h1, hq, List.filter_append, h2, List.filter_cons_of_neg (by simp),
      Sched.filter_of_not_mem hnd.2.1.1]
  · refine ⟨kept ++ [p], ?_⟩
    have h1 : (a.visit p).queue .sleep = a.queue .sleep := by rw [he]; rfl
    rw [h1, hq, List.append_assoc, List.singleton_append]

/-- The loop of `check_sleeping`, started on the first of the last `l` sleepers. -/
theorem checkSleepingLoop (l : List PcbPtr) : ∀ {k : Kernel} {a : Sched} {kept : List PcbPtr},
    Refines k a → a.Wf → a.queue .sleep = kept ++ l →
    ∃ k', Refines k' (l.foldl Sched.visit a) ∧ ∀ fuel,
      let pos := (l.map NodePtr.list).headD sleepQueue
      Kernel.checkSleepingLoop fuel pos (k.links.next pos) k =
        if l.length + 1 ≤ fuel then some k' else none := by
  induction l with
  | nil =>
    intro k a kept h _ _
    refine ⟨k, h, fun fuel => ?_⟩
    cases fuel with
    | zero => rfl
    | succ fuel => simp [Kernel.checkSleepingLoop]
  | cons p l ih =>
    intro k a kept h hw hq
    have hp : p ∈ a.queue .sleep := by rw [hq]; simp
    have hnext : k.links.next (.list p) = (l.map NodePtr.list).headD sleepQueue := by
      have h1 := h.queueRing .sleep
      rw [hq, List.map_append] at h1
      exact h1.next_of_append
    obtain ⟨k₁, hk₁, h₁⟩ := h.visit (hw.queued_created hp)
    obtain ⟨kept', hq'⟩ := visit_queue_sleep hw hq
    have hw₁ : (a.visit p).Wf :=
      (Sched.Wf.visit_induction (P := fun _ => True) (fun _ _ _ => trivial)
        (fun _ _ _ _ _ _ => trivial) hw trivial hp).1
    obtain ⟨k', h', hloop⟩ := ih h₁ hw₁ hq'
    refine ⟨k', h', fun fuel => ?_⟩
    cases fuel with
    | zero => rfl
    | succ fuel =>
      have hcons : ((p :: l).map NodePtr.list).headD sleepQueue = .list p := rfl
      simp only [hcons, checkSleepingLoop_list, hk₁, Option.bind_some, hnext, List.length_cons,
        Nat.add_le_add_iff_right]
      exact hloop fuel

/-- **`check_sleeping` ends, and wakes up whom it should.** -/
theorem checkSleeping (h : Refines k a) (hw : a.Wf) :
    Computes (fun fuel => k.checkSleeping fuel) a.checkSleeping := by
  have hq : a.queue .sleep = [] ++ a.queue .sleep := rfl
  obtain ⟨k', h', hloop⟩ := checkSleepingLoop (a.queue .sleep) h hw hq
  have hpos : k.links.next sleepQueue = ((a.queue .sleep).map NodePtr.list).headD sleepQueue :=
    (h.queueRing .sleep).next_headD
  refine ⟨k', (a.queue .sleep).length + 1, h', fun fuel => ?_⟩
  simp only [Kernel.checkSleeping, hpos]
  exact hloop fuel

/-! ## `do_scheduler` -/

theorem listDelInit (h : Refines k a) (hp : p ∈ a.queue q) (hc : a.Created p) :
    Rings (k.links.listDelInit (.list p)) (a.dispatchTo p).nodes := by
  have hi : NodePtr.list p ∈ a.nodes (.queue q) :=
    List.mem_cons_of_mem _ (List.mem_map_of_mem hp)
  rw [Sched.nodes_dispatchTo hc]
  exact h.rings.listDelInit hi

/-- The running task goes to the end of the ready queue. -/
theorem addTailReady (h : Refines k a) (hp : a.Idle p) :
    Refines ((k.withCore fun c => (c.setStatus p .ready).logAppended p).withLinks
      (·.listAddTail (.list p) readyQueue)) (a.unblock p) where
  core := congrArg (fun c => (c.setStatus p .ready).logAppended p) h.core
  rings := by
    have hn : (a.unblock p).nodes = (a.enqueue .ready p).nodes := Sched.nodes_congr rfl rfl rfl
    have hl : k.links.listAddTail (.list p) readyQueue =
        k.links.listMoveTail (.list p) readyQueue :=
      h.rings.listAddTail_eq_listMoveTail (i := .idle p) (Sched.nodes_idle hp)
    change Rings (k.links.listAddTail (.list p) readyQueue) _
    rw [hn, hl]
    exact h.listMoveTail hp.1

theorem idle_of_running (hw : a.Wf) (hp : a.status a.currentRunning = .running) :
    a.Idle a.currentRunning :=
  ⟨hw.created_of_active (Or.inl ⟨rfl, hp⟩), hw.not_queued_of_running hp⟩

/-- `do_scheduler` after `check_sleeping`. -/
theorem schedule (h : Refines k a) (hw : a.Wf) :
    ∃ k', k.schedule = some k' ∧ Refines k' a.schedule := by
  have hcur : k.currentRunning = a.currentRunning := congrArg Core.currentRunning h.core
  have hst : k.status = a.status := congrArg Core.status h.core
  rcases Sched.Wf.schedule_eq a with ⟨hr, he⟩ | ⟨hr, next, rest, hn, he⟩
  · refine ⟨k, ?_, by rwa [he]⟩
    rw [Kernel.schedule, (h.listEmpty_iff .ready).2 hr]; rfl
  · have hpre : Refines (if k.status k.currentRunning = .running then
        (k.withCore fun c => (c.setStatus k.currentRunning .ready).logAppended
          k.currentRunning).withLinks (·.listAddTail (.list k.currentRunning) readyQueue)
        else k) a.preempt := by
      rw [hst, hcur, Sched.preempt]
      split
      · rename_i hc; exact h.addTailReady (idle_of_running hw hc)
      · exact h
    obtain ⟨hwp, -⟩ : a.preempt.Wf ∧ True :=
      Sched.Wf.preempt_induction (P := fun _ => True) (fun _ _ _ _ => trivial) hw trivial
    have hmem : next ∈ a.preempt.queue .ready := by rw [hn]; exact List.mem_cons_self
    rw [he, Kernel.schedule, h.listEmpty_eq_false hr]
    simp only [Bool.false_eq_true, if_false, hpre.next_head hn, listEntry_list,
      Option.bind_eq_bind, Option.bind_some]
    refine ⟨_, rfl, ?_, hpre.listDelInit hmem (hwp.queued_created hmem)⟩
    exact congrArg (Core.dispatch next) hpre.core

/-- **`do_scheduler` computes what the abstract scheduler says.** -/
theorem doScheduler (h : Refines k a) (hw : a.Wf) :
    Computes (fun fuel => k.doScheduler fuel) a.doScheduler := by
  obtain ⟨k₁, N, h₁, hrun⟩ := h.checkSleeping hw
  obtain ⟨k₂, hk₂, h₂⟩ := h₁.schedule hw.checkSleeping
  refine ⟨k₂, N, h₂, fun fuel => ?_⟩
  simp only [Kernel.doScheduler, hrun]
  split
  · simp only [Option.bind_eq_bind, Option.bind_some, hk₂]
  · rfl

/-! ## The callers of `do_scheduler` -/

theorem sleepCurrent (h : Refines k a) (hc : a.Created a.currentRunning) (s : UInt32) :
    ∃ k', k.sleepCurrent s = some k' ∧ Refines k' (a.sleepCurrent s) := by
  have hcur : k.currentRunning = a.currentRunning := congrArg Core.currentRunning h.core
  obtain ⟨k₁, hk₁, h₁⟩ := h.doBlock (q := .sleep) hc rfl
  have h₂ : Refines (k₁.withCore fun c => c.getTimer.2.setWakeupTime c.getTimer.2.currentRunning
      (c.getTimer.1 + s.toNat)) (a.sleepCurrent s) := h₁.withCore rfl
  refine ⟨_, ?_, h₂⟩
  simp only [Kernel.sleepCurrent, hcur, hk₁, Option.bind_eq_bind, Option.bind_some]
  rfl

theorem acquireOrBlock (h : Refines k a) (hc : a.Created a.currentRunning) {idx : ℤ}
    {i : Fin LOCK_NUM} (hi : mlockIndex idx = some i) :
    ∃ k', k.acquireOrBlock idx = some (k', (a.acquireOrBlock i).2) ∧
      Refines k' (a.acquireOrBlock i).1 := by
  have hcur : k.currentRunning = a.currentRunning := congrArg Core.currentRunning h.core
  have hml : k.mlocks = a.mlocks := congrArg Core.mlocks h.core
  have hl : Refines (k.withCore (·.setLockStatus i .locked))
      (a.withCore (·.setLockStatus i .locked)) := h.withCore rfl
  have hlc : (a.withCore (·.setLockStatus i .locked)).Created a.currentRunning := hc
  obtain ⟨k₁, hk₁, h₁⟩ := hl.doBlock (q := .block i) hlc rfl
  simp only [Kernel.acquireOrBlock, hi, Option.bind_eq_bind, Option.bind_some, hml,
    Core.spinLockTryAcquire]
  by_cases hk : (a.mlocks i).key = -1
  · exact ⟨k, by simp [hk, Sched.acquireOrBlock], by simpa [hk, Sched.acquireOrBlock] using h⟩
  · cases hs : (a.mlocks i).status with
    | unlocked =>
      rw [Sched.acquireOrBlock_free hk hs, if_neg hk]
      exact ⟨_, rfl, hl⟩
    | locked =>
      have hk₁' : Kernel.doBlock (.list k.currentRunning) (blockQueue i)
          (k.withCore (·.setLockStatus i .locked)) = some k₁ := hcur ▸ hk₁
      rw [Sched.acquireOrBlock_held hk hs, if_neg hk, if_neg (by simp)]
      refine ⟨k₁, ?_, h₁⟩
      change (Kernel.doBlock (.list k.currentRunning) (blockQueue i)
        (k.withCore (·.setLockStatus i .locked))).bind _ = _
      rw [hk₁']; rfl

theorem release (h : Refines k a) (hw : a.Wf) {idx : ℤ} {i : Fin LOCK_NUM}
    (hi : mlockIndex idx = some i) :
    ∃ k', k.doMutexLockRelease idx = some k' ∧ Refines k' (a.release i) := by
  have hml : k.mlocks = a.mlocks := congrArg Core.mlocks h.core
  simp only [Kernel.doMutexLockRelease, hi, Option.bind_eq_bind, Option.bind_some, hml]
  by_cases hk : (a.mlocks i).key = -1
  · exact ⟨k, by rw [if_pos hk]; rfl, by simpa [hk, Sched.release] using h⟩
  · rw [if_neg hk]
    cases hq : a.queue (.block i) with
    | nil =>
      rw [(h.listEmpty_iff (.block i)).2 hq, Sched.release_free hk hq]
      exact ⟨_, rfl, h.withCore rfl⟩
    | cons p rest =>
      have hp : p ∈ a.queue (.block i) := by rw [hq]; exact List.mem_cons_self
      rw [h.listEmpty_eq_false (by rw [hq]; simp), h.next_head hq, Sched.release_held hk hq]
      exact h.doUnblock (hw.queued_created hp)

/-! ## Threads -/

theorem idle_threadCreate {x : PcbPtr} (hx : x ≠ .tcb a.nthreads) :
    a.threadCreate.Idle x ↔ a.Idle x := by
  have hc : a.threadCreate.Created x ↔ a.Created x := by
    rw [Sched.Wf.created_threadCreate, or_iff_left hx]
  exact and_congr hc Iff.rfl

theorem threadCreate (h : Refines k a) (hw : a.Wf)
    (hc : a.status a.currentRunning = .running) : Refines k.doThreadCreate a.threadCreate where
  core := congrArg Sched.createCore h.core
  rings := by
    have hcur : k.currentRunning = a.currentRunning := congrArg Core.currentRunning h.core
    have hnt : k.nthreads = a.nthreads := congrArg Core.nthreads h.core
    have hfresh := hw.not_created_fresh
    have hnq : ∀ q, PcbPtr.tcb a.nthreads ∉ a.queue q := fun q hq =>
      hfresh (hw.queued_created hq)
    obtain ⟨rest, hring⟩ := hw.ring_of_active (Or.inl ⟨rfl, hc⟩)
    have hlist : ∀ i, NodePtr.list (.tcb a.nthreads) ∉ a.nodes i := by
      intro i hi
      cases i with
      | queue q => simp only [Sched.nodes, List.mem_cons, reduceCtorEq, List.mem_map,
          NodePtr.list.injEq, exists_eq_right, false_or] at hi; exact hnq q hi
      | idle x =>
        by_cases hx : a.Idle x
        · rw [Sched.nodes_idle hx, List.mem_singleton, NodePtr.list.injEq] at hi
          exact hfresh (hi ▸ hx.1)
        · rw [Sched.nodes_not_idle hx] at hi; contradiction
      | group g => simp [Sched.nodes] at hi
    have hgroup : ∀ i, NodePtr.threadGroup (.tcb a.nthreads) ∉ a.nodes i := by
      intro i hi
      cases i with
      | queue q => simp [Sched.nodes] at hi
      | idle x =>
        by_cases hx : a.Idle x
        · rw [Sched.nodes_idle hx] at hi; simp at hi
        · rw [Sched.nodes_not_idle hx] at hi; contradiction
      | group g =>
        simp only [Sched.nodes, List.mem_map, NodePtr.threadGroup.injEq, exists_eq_right] at hi
        exact hfresh (hw.created_of_mem_ring hi)
    -- `init_list_head(&thread_tcb->list)`
    have h1 := h.rings.initListHead (i := .idle (.tcb a.nthreads)) hlist
    -- `init_list_head(&thread_tcb->thread_group)`
    have hgroup1 : ∀ i, NodePtr.threadGroup (.tcb a.nthreads) ∉
        Function.update a.nodes (.idle (.tcb a.nthreads)) [.list (.tcb a.nthreads)] i := by
      intro i
      rw [Function.update_apply]
      split
      · simp
      · exact hgroup i
    have h2 := h1.initListHead_fresh hgroup1
    -- `list_add(&thread_tcb->thread_group, &current_running->thread_group)`
    have hgr : Function.update a.nodes (.idle (.tcb a.nthreads)) [.list (.tcb a.nthreads)]
        (.group (a.pid a.currentRunning)) =
        .threadGroup a.currentRunning :: rest.map .threadGroup := by
      rw [Function.update_of_ne (by simp), Sched.nodes, hring]; rfl
    have h3 := h2.listAdd hgr hgroup1
    have hn : a.threadCreate.nodes = Function.update
        (Function.update a.nodes (.idle (.tcb a.nthreads)) [.list (.tcb a.nthreads)])
        (.group (a.pid a.currentRunning))
        (.threadGroup a.currentRunning :: .threadGroup (.tcb a.nthreads) ::
          rest.map .threadGroup) := by
      funext i
      cases i with
      | queue q =>
        rw [Function.update_of_ne (by simp), Function.update_of_ne (by simp)]; rfl
      | idle x =>
        rw [Function.update_of_ne (by simp), Function.update_apply]
        by_cases hx : x = .tcb a.nthreads
        · rw [hx, if_pos rfl]
          exact Sched.nodes_idle ⟨Sched.Wf.created_threadCreate.2 (Or.inr rfl), hnq⟩
        · rw [if_neg (by simpa using hx)]
          exact Sched.nodes_idle_congr (idle_threadCreate hx)
      | group g =>
        rw [Function.update_apply]
        by_cases hg : g = a.pid a.currentRunning
        · rw [hg, if_pos rfl]
          simp [Sched.nodes, Sched.threadCreate, hring, Sched.insertSecond]
        · rw [if_neg (by simpa using hg), Function.update_of_ne (by simp)]
          simp [Sched.nodes, Sched.threadCreate, hg]
    rw [hn]
    change Rings ((((k.links.initListHead (.list (.tcb k.nthreads))).initListHead
      (.threadGroup (.tcb k.nthreads)))).listAdd (.threadGroup (.tcb k.nthreads))
      (.threadGroup k.currentRunning)) _
    rw [hcur, hnt]
    exact h3

theorem threadYield (h : Refines k a) (hw : a.Wf)
    (hc : a.status a.currentRunning = .running) :
    ∃ k', k.doThreadYield = some k' ∧ Refines k' a.threadYield := by
  have hcur : k.currentRunning = a.currentRunning := congrArg Core.currentRunning h.core
  obtain ⟨others, hring⟩ := hw.ring_of_active (Or.inl ⟨rfl, hc⟩)
  obtain ⟨next, rest, hrot, hmem, hnext, he⟩ := hw.threadYield_eq hc
  have hidle : a.Idle next := by
    rcases hnext with rfl | ⟨hq, -⟩
    · exact idle_of_running hw hc
    · exact ⟨hw.created_of_mem_ring hmem, hq⟩
  have hgr : IsRing k.links (.threadGroup a.currentRunning :: others.map .threadGroup) := by
    have h1 := h.rings.ring (.group (a.pid a.currentRunning))
    rwa [Sched.nodes, hring] at h1
  have hn : k.links.next (.threadGroup k.currentRunning) = .threadGroup next := by
    rw [hcur, hgr.next_headD]
    rw [hring, List.rotate_cons_succ, List.rotate_zero] at hrot
    cases others with
    | nil => simp only [List.nil_append, List.cons.injEq] at hrot; rw [hrot.1]; rfl
    | cons y ys => simp only [List.cons_append, List.cons.injEq] at hrot; rw [hrot.1]; rfl
  have hl : k.links.initListHead (.list next) = k.links := by
    have h1 := h.rings.ring (.idle next)
    rw [Sched.nodes_idle hidle] at h1
    exact Links.initListHead_singleton h1
  refine ⟨_, by simp only [Kernel.doThreadYield, hn, threadGroupEntry_threadGroup,
    Option.bind_eq_bind, Option.bind_some]; rfl, ?_, ?_⟩
  · change Sched.yieldCore next k.toCore = a.threadYield.toCore
    rw [h.core, he]; rfl
  · change Rings (k.links.initListHead (.list next)) _
    have hr : (a.ring (a.pid a.currentRunning)).map NodePtr.threadGroup ~r
        (next :: rest).map .threadGroup := by
      rw [← hrot]; exact ⟨1, (List.map_rotate _ _ _).symm⟩
    have hnodes : a.threadYield.nodes = Function.update a.nodes
        (.group (a.pid a.currentRunning)) ((next :: rest).map .threadGroup) := by
      funext i
      cases i with
      | queue q => rw [Function.update_of_ne (by simp), he]; rfl
      | idle x =>
        rw [Function.update_of_ne (by simp)]
        refine Sched.nodes_idle_congr (and_congr (hw.created_threadYield hc) ?_)
        rw [he]; rfl
      | group g =>
        rw [Function.update_apply]
        by_cases hg : g = a.pid a.currentRunning
        · rw [hg, if_pos rfl, he]; simp [Sched.nodes]
        · rw [if_neg (by simpa using hg), he]; simp [Sched.nodes, hg]
    rw [hl, hnodes]
    exact h.rings.rotate hr

/-! ## Traps -/

variable {op : Op} {a' : Sched}

/-- Whether an operation calls `do_scheduler`, and in which state. -/
theorem schedulerEntry (h : Refines k a) (hop : op = .timer ∨ a.Created a.currentRunning) :
    Option.Rel Refines (k.schedulerEntry op) (a.schedulerEntry op) := by
  cases op with
  | timer => exact .some (h.withCore rfl)
  | yield => exact .some h
  | sleep s =>
    obtain ⟨k', hk', h'⟩ := h.sleepCurrent (hop.resolve_left (by simp)) s
    show Option.Rel Refines (k.sleepCurrent s) (some (a.sleepCurrent s))
    rw [hk']
    exact .some h'
  | lockAcquire idx =>
    rw [Kernel.schedulerEntry_lockAcquire, Sched.schedulerEntry_lockAcquire]
    cases hi : mlockIndex idx with
    | none =>
      have hk : k.acquireOrBlock idx = none := by simp [Kernel.acquireOrBlock, hi]
      rw [hk]; exact .none
    | some i =>
      obtain ⟨k', hk', h'⟩ := h.acquireOrBlock (hop.resolve_left (by simp)) hi
      rw [hk', Option.bind_some, Option.bind_some]
      split
      · exact .some h'
      · exact .none
  | exit =>
    refine .some (?_ : Refines k.exitCurrent a.exitCurrent)
    rw [Kernel.exitCurrent, congrArg Core.currentRunning h.core]
    exact h.withCore rfl
  | _ => exact .none

/-- An operation that calls `do_scheduler` does nothing after the call. -/
theorem trap_of_schedulerEntry {k₀ : Kernel} (hk : k.schedulerEntry op = some k₀) (fuel : ℕ) :
    k.trap fuel op = k₀.doScheduler fuel := by
  cases op with
  | lockAcquire idx =>
    simp only [Kernel.schedulerEntry_lockAcquire, Option.bind_eq_some_iff] at hk
    obtain ⟨⟨k', blocked⟩, hk', hblk⟩ := hk
    cases blocked with
    | true =>
      rw [← Option.some_inj.1 hblk]
      simp only [Kernel.trap, doMutexLockAcquire, hk', Option.bind_eq_bind, Option.bind_some,
        if_true]
    | false => contradiction
  | sleep s =>
    have hk' : k.sleepCurrent s = some k₀ := hk
    simp only [Kernel.trap, doSleep, hk', Option.bind_eq_bind, Option.bind_some]
  | timer => rw [← Option.some_inj.1 hk]; rfl
  | yield => rw [← Option.some_inj.1 hk]; rfl
  | exit => rw [← Option.some_inj.1 hk]; rfl
  | _ => cases hk

/-- A computation that needs no fuel. -/
theorem computes (h : Refines k a) {run : ℕ → Option Kernel} (hrun : ∀ fuel, run fuel = some k) :
    Computes run a := ⟨k, 0, h, fun fuel => (hrun fuel).trans (if_pos fuel.zero_le).symm⟩

/-- **Every trap computes what the abstract scheduler says.** -/
theorem trap (h : Refines k a) (hw : a.Wf) (hop : op = .timer ∨ a.Active a.currentRunning)
    (hr : Sched.Wf.NeedsRunning op → a.status a.currentRunning = .running)
    (ht : a.trap op = some a') : Computes (fun fuel => k.trap fuel op) a' := by
  have hop' := hop.imp_right hw.created_of_active
  have hentry := h.schedulerEntry hop'
  cases hb : a.schedulerEntry op with
  | some b =>
    rw [hb] at hentry
    obtain ⟨k₀, hk₀⟩ : ∃ k₀, k.schedulerEntry op = some k₀ := by
      generalize k.schedulerEntry op = o at hentry
      cases hentry; exact ⟨_, rfl⟩
    rw [hk₀] at hentry
    cases hentry with
    | some h₀ =>
      rw [Sched.Wf.trap_of_schedulerEntry hb] at ht
      simp only [trap_of_schedulerEntry hk₀, ← Option.some_inj.1 ht]
      exact h₀.doScheduler (hw.schedulerEntry hop hr hb)
  | none =>
    rcases Sched.Wf.trap_of_schedulerEntry_none hb ht with ⟨key, rfl, rfl⟩ |
      ⟨idx, i, rfl, hi, hblk, rfl⟩ | ⟨idx, i, rfl, hi, rfl⟩ | ⟨rfl, rfl⟩ | ⟨rfl, rfl⟩
    · obtain ⟨m, hm⟩ := Sched.Wf.lockInit_core a.toCore key
      have h' : Refines (k.withCore fun c => (c.doMutexLockInit key).2)
          (a.withCore fun c => (c.doMutexLockInit key).2) := h.withCore (by rw [hm])
      exact h'.computes fun _ => rfl
    · obtain ⟨k', hk', h'⟩ := h.acquireOrBlock (hop'.resolve_left (by simp)) hi
      refine h'.computes fun fuel => ?_
      simp only [Kernel.trap, doMutexLockAcquire, hk', hblk, Option.bind_eq_bind, Option.bind_some]
      rfl
    · obtain ⟨k', hk', h'⟩ := h.release hw hi
      exact h'.computes fun _ => hk'
    · exact (h.threadCreate hw (hr (Or.inr (Or.inl rfl)))).computes fun _ => rfl
    · obtain ⟨k', hk', h'⟩ := h.threadYield hw (hr (Or.inr (Or.inr rfl)))
      exact h'.computes fun _ => hk'

/-- The operations the abstract scheduler does not define are not defined in the program. -/
theorem trap_none (ht : a.trap op = none) (fuel : ℕ) : k.trap fuel op = none := by
  cases op with
  | lockAcquire idx =>
    rw [Sched.trap, Option.map_eq_none_iff] at ht
    simp [Kernel.trap, doMutexLockAcquire, Kernel.acquireOrBlock, ht]
  | lockRelease idx =>
    rw [Sched.trap, Option.map_eq_none_iff] at ht
    simp [Kernel.trap, doMutexLockRelease, ht]
  | _ => simp [Sched.trap] at ht

/-- `Stalls`, read off the abstract state. -/
theorem stalls_iff (h : Refines k a) (hw : a.Wf)
    (hop : op = .timer ∨ a.Active a.currentRunning)
    (hr : Sched.Wf.NeedsRunning op → a.status a.currentRunning = .running) :
    k.Stalls op ↔ ∃ b, a.schedulerEntry op = some b ∧ b.checkSleeping.Stuck := by
  have hentry := h.schedulerEntry (hop.imp_right hw.created_of_active)
  -- both sides speak of the state in which `do_scheduler` is called
  have key : ∀ {k₀ b}, Refines k₀ b → b.Wf → ((∃ fuel k₁, k₀.checkSleeping fuel = some k₁ ∧
      k₁.links.listEmpty readyQueue = true ∧ k₁.currentRunning ≠ .pid0 ∧
      (k₁.status k₁.currentRunning = .blocked ∨ k₁.status k₁.currentRunning = .exited)) ↔
      b.checkSleeping.Stuck) := by
    intro k₀ b h₀ hb
    obtain ⟨k₁, N, h₁, hrun⟩ := h₀.checkSleeping hb
    have hstuck : b.checkSleeping.Stuck ↔ (k₁.links.listEmpty readyQueue = true ∧
        k₁.currentRunning ≠ .pid0 ∧
        (k₁.status k₁.currentRunning = .blocked ∨ k₁.status k₁.currentRunning = .exited)) := by
      rw [h₁.listEmpty_iff .ready, h₁.core]; rfl
    rw [hstuck]
    constructor
    · rintro ⟨fuel, k₁', hk₁', hs⟩
      simp only [hrun] at hk₁'
      split at hk₁'
      · exact Option.some_inj.1 hk₁' ▸ hs
      · contradiction
    · exact fun hs => ⟨N, k₁, by simp only [hrun, le_refl, if_true], hs⟩
  simp only [Kernel.Stalls]
  generalize hb : a.schedulerEntry op = o at hentry ⊢
  generalize k.schedulerEntry op = o' at hentry ⊢
  cases hentry with
  | none => simp
  | @some k₀ b h₀ =>
    have hbw := hw.schedulerEntry hop hr hb
    simp only [Option.some.injEq, exists_eq_left', ← key h₀ hbw]
    constructor
    · rintro ⟨k₀', fuel, k₁, rfl, h1, h2⟩; exact ⟨fuel, k₁, h1, h2⟩
    · rintro ⟨fuel, k₁, h1, h2⟩; exact ⟨k₀, fuel, k₁, rfl, h1, h2⟩

end Refines

theorem Computes.refines {run : ℕ → Option Kernel} {a : Sched} (h : Computes run a) {fuel : ℕ}
    {k : Kernel} (hk : run fuel = some k) : Refines k a := by
  obtain ⟨k', N, h', hrun⟩ := h
  rw [hrun] at hk
  split at hk
  · exact Option.some_inj.1 hk ▸ h'
  · contradiction

end UcasOs
