import UcasOs.Kernel.Run

/-!
# The queues of an unstalled run

What the invariant of the abstract scheduler says about the program's own data, and the order in
which the ready queue is served.

* `Run.partition` — in every reachable state the eighteen lists of the kernel are well-formed
  rings without common members, every task's status says where it is, and of the threads of one
  process at most one has the CPU or is on a queue.
* `Run.dispatched_prefix` — the ready queue is first in, first out: `do_scheduler` dispatches tasks
  in the order in which they were appended, none twice and none left out.
-/

set_option autoImplicit false

namespace UcasOs

namespace Kernel

/-- `p` is the address of a PCB or TCB that has been filled in. -/
def Created (k : Kernel) (p : PcbPtr) : Prop :=
  (∃ i < k.ntasks, p = .pcb i) ∨ ∃ j < k.nthreads, p = .tcb j

/-- `l` is the list with head `q`. -/
def HasQueue (k : Kernel) (q : QueueId) (l : List PcbPtr) : Prop :=
  IsRing k.links (.head q :: l.map .list)

/-- `p` and `p'` are on one ring through `thread_group`. -/
def SameGroup (k : Kernel) (p p' : PcbPtr) : Prop :=
  ∃ l, IsRing k.links l ∧ .threadGroup p ∈ l ∧ .threadGroup p' ∈ l

/-- **The tasks are partitioned**: `members q` are those on the queue `q`, one is current, and the
others wait for nothing. -/
structure PartitionedBy (k : Kernel) (members : QueueId → List PcbPtr) : Prop where
  /-- Every list is a well-formed ring. -/
  ring : ∀ q, k.HasQueue q (members q)
  /-- No task is on two lists. -/
  disjoint : ∀ {q r p}, p ∈ members q → p ∈ members r → q = r
  /-- Only created tasks are on lists. -/
  created : ∀ {q p}, p ∈ members q → k.Created p
  /-- The current task is `RUNNING`, and on no list. -/
  current : k.currentRunning = .pid0 ∨
    k.Created k.currentRunning ∧ k.status k.currentRunning = .running ∧
      ∀ q, k.currentRunning ∉ members q
  ready : ∀ p ∈ members .ready, k.status p = .ready
  sleeping : ∀ p ∈ members .sleep, k.status p = .blocked
  waiting : ∀ i, ∀ p ∈ members (.block i), k.status p = .blocked
  /-- Any other task has a `list` node that is linked to itself, and has exited or is a thread that
  is ready to be handed the turn. -/
  other : ∀ p, k.Created p → p ≠ k.currentRunning → (∀ q, p ∉ members q) →
    IsRing k.links [.list p] ∧ (k.status p = .exited ∨ k.status p = .ready)
  /-- A thread group has at most one thread that is current or on a list. -/
  group : ∀ p p', k.SameGroup p p' → (p = k.currentRunning ∨ ∃ q, p ∈ members q) →
    (p' = k.currentRunning ∨ ∃ q, p' ∈ members q) → p = p'

end Kernel

/-! ## The partition -/

namespace Refines

variable {k : Kernel} {a : Sched} {p p' : PcbPtr}

theorem hasQueue_iff (h : Refines k a) {q : QueueId} {l : List PcbPtr} :
    k.HasQueue q l ↔ l = a.queue q := by
  constructor
  · intro hl
    have he : l.map NodePtr.list = (a.queue q).map .list := IsRing.unique hl (h.queueRing q)
    exact List.map_injective_iff.2 (fun x y e => NodePtr.list.inj e) he
  · rintro rfl
    exact h.queueRing q

theorem created_iff (h : Refines k a) (hw : a.Wf) : k.Created p ↔ a.Created p := by
  rw [hw.created_iff, Kernel.Created, h.core]

/-- The ring through the `thread_group` node of a created task is that of its process. -/
theorem mem_ring_of_sameGroup (h : Refines k a) (hc : a.Created p) (hs : k.SameGroup p p') :
    p' ∈ a.ring (a.pid p) := by
  obtain ⟨l, hl, hp, hp'⟩ := hs
  have hr := h.rings.ring (.group (a.pid p))
  have hmem : NodePtr.threadGroup p ∈ a.nodes (.group (a.pid p)) := List.mem_map_of_mem hc
  obtain ⟨xs, hxs, hxr⟩ := hl.cons_of_mem hp
  obtain ⟨ys, hys, hyr⟩ := hr.cons_of_mem hmem
  have he : xs = ys := hxr.unique hyr
  rw [hxs.mem_iff, he, ← hys.mem_iff] at hp'
  simpa [Sched.nodes] using hp'

theorem sameGroup_symm (hs : k.SameGroup p p') : k.SameGroup p' p := by
  obtain ⟨l, hl, hp, hp'⟩ := hs
  exact ⟨l, hl, hp', hp⟩

/-- A kernel that represents a well-formed abstract state is partitioned by its queues. -/
theorem partitionedBy (h : Refines k a) (hw : a.Wf) (hrun : a.Running) :
    k.PartitionedBy a.queue := by
  have hst : k.status = a.status := congrArg Core.status h.core
  have hcur : k.currentRunning = a.currentRunning := congrArg Core.currentRunning h.core
  have hactive : ∀ {x}, a.Created x → (x = k.currentRunning ∨ ∃ q, x ∈ a.queue q) →
      a.Active x := by
    intro x hx hxa
    refine hxa.imp_left fun e => ?_
    rw [hcur] at e
    refine ⟨e, e ▸ hrun.resolve_left fun hb => ?_⟩
    exact hw.not_created_boot (hb ▸ e ▸ hx)
  have hunique : ∀ {x x'}, a.Created x → k.SameGroup x x' →
      (x = k.currentRunning ∨ ∃ q, x ∈ a.queue q) →
      (x' = k.currentRunning ∨ ∃ q, x' ∈ a.queue q) → x = x' := by
    intro x x' hx hs hxa hxa'
    have hmem := h.mem_ring_of_sameGroup hx hs
    exact hw.active_unique (hactive hx hxa) (hactive (hw.created_of_mem_ring hmem) hxa')
      (hw.ring_pid hmem).symm
  exact
    { ring := fun q => h.queueRing q
      disjoint := hw.disjoint
      created := fun hp => (h.created_iff hw).2 (hw.queued_created hp)
      current := by
        rw [hcur, hst, h.created_iff hw]
        refine hrun.imp_right fun hr => ⟨?_, hr, hw.not_queued_of_running hr⟩
        exact hw.created_of_active (Or.inl ⟨rfl, hr⟩)
      ready := fun p hp => by rw [hst]; exact hw.queued_status hp
      sleeping := fun p hp => by rw [hst]; exact hw.queued_status hp
      waiting := fun i p hp => by rw [hst]; exact hw.queued_status hp
      other := fun p hp hne hq => by
        have hc := (h.created_iff hw).1 hp
        have h1 := hw.idle_status hc hq
        rw [← hcur, if_neg hne] at h1
        refine ⟨?_, by rwa [hst]⟩
        have h2 := h.rings.ring (.idle p)
        rwa [Sched.nodes_idle ⟨hc, hq⟩] at h2
      group := fun p p' hs hp hp' => by
        by_cases hc : a.Created p
        · exact hunique hc hs hp hp'
        · by_cases hc' : a.Created p'
          · exact (hunique hc' (sameGroup_symm hs) hp' hp).symm
          · -- a task that was never created is on no queue, so both are the boot context
            have h1 := hp.resolve_right fun ⟨q, hq⟩ => hc (hw.queued_created hq)
            have h2 := hp'.resolve_right fun ⟨q, hq⟩ => hc' (hw.queued_created hq)
            rw [h1, h2] }

end Refines

/-- **In every reachable state of an unstalled run the tasks are partitioned.** -/
theorem Run.partition {n timeBase : ℕ} {clock : ℕ → ℕ} {tr : List Transition} {k : Kernel}
    (h : Run Unstalled (Kernel.boot n timeBase clock) tr k) : ∃ members, k.PartitionedBy members := by
  obtain ⟨a, hr, hw, hrun⟩ := Run.refines (fun _ _ _ h => h) h
  exact ⟨a.queue, hr.partitionedBy hw hrun⟩

theorem Run.partition_three_tasks : ∃ (tr : List Transition) (k : Kernel),
    tr.map Transition.op = [.timer, .lockInit 7, .lockAcquire 0, .yield, .lockInit 7,
      .lockAcquire 0, .threadCreate, .threadYield, .sleep 3, .timer, .lockRelease 0, .exit] ∧
    ∃ members, k.PartitionedBy members := by
  obtain ⟨tr, k, hrun, hops⟩ := Run.unstalled_of_exec 3 1 (fun t => t)
    [.timer, .lockInit 7, .lockAcquire 0, .yield, .lockInit 7, .lockAcquire 0, .threadCreate,
      .threadYield, .sleep 3, .timer, .lockRelease 0, .exit] (by decide)
  exact ⟨tr, k, hops, Run.partition hrun⟩

/-! ## The ready queue is first in, first out -/

namespace Sched

/-- What has been appended to the ready queue has been dispatched or is still there. -/
def Fifo (a : Sched) : Prop := a.appended = a.dispatched ++ a.queue .ready

namespace Fifo

variable {a a' : Sched} {p : PcbPtr} {q : QueueId}

theorem of_eq (h : a.Fifo)
    (he : (a'.appended, a'.dispatched, a'.queue .ready) = (a.appended, a.dispatched, a.queue .ready)) :
    a'.Fifo := by
  simp only [Prod.mk.injEq] at he
  rw [Fifo, he.1, he.2.1, he.2.2]
  exact h

theorem unblock (h : a.Fifo) (hp : p ∉ a.queue .ready) : (a.unblock p).Fifo := by
  have h1 : (a.unblock p).queue .ready = a.queue .ready ++ [p] := enqueue_queue_self hp
  have h2 : (a.unblock p).appended = a.appended ++ [p] := rfl
  have h3 : (a.unblock p).dispatched = a.dispatched := rfl
  rw [Fifo, h1, h2, h3, h, List.append_assoc]

/-- A task that is not ready may be blocked. -/
theorem enqueue (h : a.Fifo) (hq : q ≠ .ready) (hp : p ∉ a.queue .ready) : (a.enqueue q p).Fifo :=
  h.of_eq (by rw [enqueue_queue_of_ne hq.symm hp]; rfl)

theorem dispatchTo (h : a.Fifo) (hw : a.Wf) {rest : List PcbPtr}
    (hq : a.queue .ready = p :: rest) : (a.dispatchTo p).Fifo := by
  have hnd := hw.nodup .ready
  rw [hq] at hnd
  have h1 : (a.dispatchTo p).queue .ready = rest := by
    change (a.queue .ready).filter (· ≠ p) = rest
    rw [hq, filter_cons_self hnd]
  have h2 : (a.dispatchTo p).dispatched = a.dispatched ++ [p] := rfl
  have h3 : (a.dispatchTo p).appended = a.appended := rfl
  rw [Fifo, h1, h2, h3, h, hq, List.append_assoc, List.singleton_append]

/-- **Every operation serves the ready queue in order.** -/
theorem stable : Stable Fifo where
  tick _ h := h.of_eq rfl
  wake hw h hx _ := h.unblock fun hr => absurd (hw.disjoint hr hx) (by simp)
  preempt hw h hc := h.unblock (hw.not_queued_of_running hc .ready)
  dispatch hw h hq _ := h.dispatchTo hw hq
  sleep {b} _ hw h hc := by
    have h1 : (b.enqueue .sleep b.currentRunning).Fifo :=
      h.enqueue (by simp) (hw.not_queued_of_running hc .ready)
    exact h1.of_eq rfl
  locks _ _ h := h.of_eq rfl
  block _ hw h hc := h.enqueue (by simp) (hw.not_queued_of_running hc .ready)
  handover hw h hx := h.unblock fun hr => absurd (hw.disjoint hr hx) (by simp)
  threadCreate _ h _ := h.of_eq rfl
  threadYield hw h hc := by
    obtain ⟨next, rest, -, -, -, he⟩ := hw.threadYield_eq hc
    rw [he]; exact h.of_eq rfl

theorem exitCurrent (h : a.Fifo) : a.exitCurrent.Fifo := h.of_eq rfl

end Fifo

end Sched

/-- **First in, first out**: at every moment the tasks appended to the ready queue are the tasks
dispatched, in the same order, followed by those that are on the ready queue now. -/
theorem Run.dispatched_prefix {n timeBase : ℕ} {clock : ℕ → ℕ} {tr : List Transition} {k : Kernel}
    (h : Run Unstalled (Kernel.boot n timeBase clock) tr k) :
    k.dispatched <+: k.appended ∧
      ∃ ready, k.HasQueue .ready ready ∧ k.appended = k.dispatched ++ ready := by
  obtain ⟨a, hr, -, -, hf⟩ := Run.induction (P := fun _ a => a.Fifo) (fun _ _ _ h => h)
    rfl (fun _ hw _ hf _ hc ht _ _ _ =>
      Sched.Fifo.stable.trap hw hf hc (fun _ => hf.exitCurrent) ht) h
  have he : k.appended = k.dispatched ++ a.queue .ready := by rw [hr.core]; exact hf
  exact ⟨⟨_, he.symm⟩, a.queue .ready, hr.queueRing .ready, he⟩

theorem Run.dispatched_prefix_two_tasks : ∃ (tr : List Transition) (k : Kernel),
    tr.map Transition.op = [.timer, .threadCreate, .yield, .sleep 1, .threadYield, .timer] ∧
    k.dispatched <+: k.appended := by
  obtain ⟨tr, k, hrun, hops⟩ := Run.unstalled_of_exec 2 1 (fun t => t)
    [.timer, .threadCreate, .yield, .sleep 1, .threadYield, .timer] (by decide)
  exact ⟨tr, k, hops, (Run.dispatched_prefix hrun).1⟩

end UcasOs
