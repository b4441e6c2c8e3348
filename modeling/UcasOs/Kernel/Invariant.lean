import UcasOs.Kernel.Abstract

/-!
# The invariant of the scheduler

`Sched.Wf` is what holds of the abstract scheduler in every state of every run in which
`do_scheduler` does not return to a task that must not go on.  It says that no task is in two
places, that a task's status says where it is, and (`turn`, `live`) what keeps threads from
getting in each other's way: a thread that is running or queued is the first of its ring, and as
long as a process has such a thread none of its threads has exited.

The lemmas follow the atomic changes the operations are made of: `Wf.enqueue`, `Wf.dispatchTo`,
`Wf.exitCurrent`, `Wf.threadCreate`, `Wf.threadYield`.  None of them asks that the current task be
`RUNNING`, except the two that take the CPU or the turn away from it for good.
-/

set_option autoImplicit false

namespace UcasOs

namespace Sched

/-! ## Reading the atomic changes -/

variable {a a' : Sched} {p x : PcbPtr} {q r : QueueId}

theorem mem_place : x ∈ (a.place q p).queue r ↔ (x ∈ a.queue r ∧ x ≠ p) ∨ (r = q ∧ x = p) := by
  simp only [place]
  split
  · simp [*]
  · simp [*]

theorem mem_take : x ∈ (a.take p).queue r ↔ x ∈ a.queue r ∧ x ≠ p := by
  simp [take]

theorem filter_of_not_mem {l : List PcbPtr} (h : p ∉ l) : l.filter (· ≠ p) = l :=
  List.filter_eq_self.2 fun _ hx => decide_eq_true fun e => h (e ▸ hx)

theorem place_queue_self (h : p ∉ a.queue q) : (a.place q p).queue q = a.queue q ++ [p] := by
  simp only [place, ↓reduceIte, filter_of_not_mem h]

theorem place_queue_of_ne (hr : r ≠ q) (h : p ∉ a.queue r) :
    (a.place q p).queue r = a.queue r := by
  simp only [place, hr, ↓reduceIte, filter_of_not_mem h]

theorem filter_cons_self {l : List PcbPtr} (h : (p :: l).Nodup) :
    (p :: l).filter (· ≠ p) = l := by
  rw [List.filter_cons_of_neg (by simp)]
  exact filter_of_not_mem (List.nodup_cons.1 h).1

theorem enqueue_queue_self (h : p ∉ a.queue q) :
    (a.enqueue q p).queue q = a.queue q ++ [p] := by
  change ((a.withCore (·.setStatus p _)).place q p).queue q = _
  exact place_queue_self h

theorem enqueue_queue_of_ne (hr : r ≠ q) (h : p ∉ a.queue r) :
    (a.enqueue q p).queue r = a.queue r := by
  change ((a.withCore (·.setStatus p _)).place q p).queue r = _
  exact place_queue_of_ne hr h

theorem unblock_queue (p : PcbPtr) (r : QueueId) :
    (a.unblock p).queue r = (a.enqueue .ready p).queue r := rfl

theorem sleepCurrent_queue (s : UInt32) (q : QueueId) :
    (a.sleepCurrent s).queue q = (a.enqueue .sleep a.currentRunning).queue q := rfl

theorem acquireOrBlock_free {i : Fin LOCK_NUM} (hk : (a.mlocks i).key ≠ -1)
    (hu : (a.mlocks i).status = .unlocked) :
    a.acquireOrBlock i = (a.withCore (·.setLockStatus i .locked), false) := by
  simp [acquireOrBlock, hk, hu]

theorem acquireOrBlock_held {i : Fin LOCK_NUM} (hk : (a.mlocks i).key ≠ -1)
    (hl : (a.mlocks i).status = .locked) :
    a.acquireOrBlock i =
      ((a.withCore (·.setLockStatus i .locked)).enqueue (.block i) a.currentRunning, true) := by
  simp [acquireOrBlock, hk, hl]

/-- An acquire that blocks finds the lock taken, and puts the current task in its queue. -/
theorem acquireOrBlock_eq_true {i : Fin LOCK_NUM} (h : a.acquireOrBlock i = (a', true)) :
    (a.mlocks i).key ≠ -1 ∧ (a.mlocks i).status = .locked ∧
      a' = (a.withCore (·.setLockStatus i .locked)).enqueue (.block i) a.currentRunning := by
  have hk : (a.mlocks i).key ≠ -1 := fun hk => by simp [acquireOrBlock, hk] at h
  cases hs : (a.mlocks i).status with
  | unlocked =>
    rw [acquireOrBlock_free hk hs, Prod.mk.injEq] at h
    exact absurd h.2 (by decide)
  | locked =>
    rw [acquireOrBlock_held hk hs, Prod.mk.injEq] at h
    exact ⟨hk, rfl, h.1.symm⟩

/-- **The operations that call `do_scheduler`**, and the states in which they do. -/
theorem schedulerEntry_cases {op : Op} {b : Sched} (hb : a.schedulerEntry op = some b) :
    (op = .timer ∧ b = a.withCore fun c => c.getTicks.2) ∨ (op = .yield ∧ b = a) ∨
    (∃ s, op = .sleep s ∧ b = a.sleepCurrent s) ∨
    (∃ idx i, op = .lockAcquire idx ∧ mlockIndex idx = some i ∧ a.acquireOrBlock i = (b, true)) ∨
    (op = .exit ∧ b = a.exitCurrent) := by
  cases op with
  | timer => exact Or.inl ⟨rfl, (Option.some_inj.1 hb).symm⟩
  | yield => exact Or.inr (Or.inl ⟨rfl, (Option.some_inj.1 hb).symm⟩)
  | sleep s => exact Or.inr (Or.inr (Or.inl ⟨s, rfl, (Option.some_inj.1 hb).symm⟩))
  | lockAcquire idx =>
    rw [schedulerEntry_lockAcquire, Option.bind_eq_some_iff] at hb
    obtain ⟨i, hi, hb⟩ := hb
    split at hb
    · rename_i hblk
      exact Or.inr (Or.inr (Or.inr (Or.inl ⟨idx, i, rfl, hi, Prod.ext (Option.some_inj.1 hb) hblk⟩)))
    · contradiction
  | exit => exact Or.inr (Or.inr (Or.inr (Or.inr ⟨rfl, (Option.some_inj.1 hb).symm⟩)))
  | _ => cases hb

theorem release_free {i : Fin LOCK_NUM} (hk : (a.mlocks i).key ≠ -1)
    (hq : a.queue (.block i) = []) : a.release i = a.withCore (·.spinLockRelease i) := by
  simp only [release, if_neg hk, hq]

theorem release_held {i : Fin LOCK_NUM} {rest : List PcbPtr} (hk : (a.mlocks i).key ≠ -1)
    (hq : a.queue (.block i) = p :: rest) : a.release i = a.unblock p := by
  simp only [release, if_neg hk, hq]

/-! ## The invariant -/

/-- `p` is a PCB or TCB that has been created. -/
def Created (a : Sched) (p : PcbPtr) : Prop := p ∈ a.ring (a.pid p)

/-- `p` has the CPU or is on a queue. -/
def Active (a : Sched) (p : PcbPtr) : Prop :=
  (p = a.currentRunning ∧ a.status p = .running) ∨ ∃ q, p ∈ a.queue q

/-- What the invariant depends on. -/
def tasks (a : Sched) : (QueueId → List PcbPtr) × (ℕ → List PcbPtr) × (PcbPtr → TaskStatus) ×
    (PcbPtr → ℕ) × PcbPtr × ℕ × ℕ :=
  (a.queue, a.ring, a.status, a.pid, a.currentRunning, a.ntasks, a.nthreads)

/-- **The invariant of the scheduler.** -/
structure Wf (a : Sched) : Prop where
  /-- No task is twice on one queue. -/
  nodup : ∀ q, (a.queue q).Nodup
  /-- No task is on two queues. -/
  disjoint : ∀ {q r p}, p ∈ a.queue q → p ∈ a.queue r → q = r
  /-- What is on a queue has been created. -/
  queued_created : ∀ {q p}, p ∈ a.queue q → a.Created p
  /-- Tasks on the ready queue are `READY`, those on the others `BLOCKED`. -/
  queued_status : ∀ {q p}, p ∈ a.queue q → a.status p = q.status
  /-- A task on no queue has exited, or it is running if it is current and `READY` if not. -/
  idle_status : ∀ {p}, a.Created p → (∀ q, p ∉ a.queue q) →
    a.status p = .exited ∨ a.status p = if p = a.currentRunning then .running else .ready
  /-- The CPU belongs to the boot context or to a created task. -/
  current_created : a.currentRunning = .pid0 ∨ a.Created a.currentRunning
  /-- The boot context is never `RUNNING`. -/
  boot_status : a.status .pid0 = .blocked
  /-- No thread is twice in its ring. -/
  ring_nodup : ∀ g, (a.ring g).Nodup
  /-- A ring is the threads of one process. -/
  ring_pid : ∀ {g p}, p ∈ a.ring g → a.pid p = g
  /-- The created PCBs and TCBs. -/
  created_iff : ∀ {p}, a.Created p ↔ (∃ i < a.ntasks, p = .pcb i) ∨ ∃ k < a.nthreads, p = .tcb k
  /-- A thread that is running or queued has the turn in its process. -/
  turn : ∀ {p}, a.Active p → (a.ring (a.pid p)).head? = some p
  /-- In a process that can still run no thread has exited. -/
  live : ∀ {p p'}, a.Active p → p' ∈ a.ring (a.pid p) → a.status p' ≠ .exited

/-! ## What the invariant says at once -/

namespace Wf

variable {g : ℕ}

theorem not_created_boot (h : a.Wf) : ¬ a.Created .pid0 := by
  rw [h.created_iff]; rintro (⟨i, -, hi⟩ | ⟨k, -, hk⟩) <;> contradiction

theorem created_of_mem_ring (h : a.Wf) (hp : p ∈ a.ring g) : a.Created p := by
  rw [Created, h.ring_pid hp]; exact hp

theorem not_running_of_queued (h : a.Wf) (hp : p ∈ a.queue q) : a.status p ≠ .running := by
  rw [h.queued_status hp]; cases q <;> simp [QueueId.status]

/-- A running task is on no queue. -/
theorem not_queued_of_running (h : a.Wf) (hp : a.status p = .running) : ∀ q, p ∉ a.queue q :=
  fun _ hq => h.not_running_of_queued hq hp

theorem ne_boot_of_running (h : a.Wf) (hp : a.status p = .running) : p ≠ .pid0 := by
  rintro rfl; rw [h.boot_status] at hp; contradiction

theorem created_of_active (h : a.Wf) (hp : a.Active p) : a.Created p := by
  rcases hp with ⟨rfl, hr⟩ | ⟨q, hq⟩
  · exact h.current_created.resolve_left (h.ne_boot_of_running hr)
  · exact h.queued_created hq

/-- The ring of an active thread starts with it. -/
theorem ring_of_active (h : a.Wf) (hp : a.Active p) : ∃ rest, a.ring (a.pid p) = p :: rest := by
  have h1 := h.turn hp
  cases hr : a.ring (a.pid p) with
  | nil => simp [hr] at h1
  | cons x xs => rw [hr] at h1; exact ⟨xs, by simpa using h1⟩

/-- **A process has at most one thread that is running or queued.** -/
theorem active_unique (h : a.Wf) {p' : PcbPtr} (hp : a.Active p) (hp' : a.Active p')
    (hg : a.pid p = a.pid p') : p = p' := by
  have h1 := h.turn hp
  rw [hg, h.turn hp'] at h1
  exact (Option.some_inj.1 h1).symm

/-! ## The atomic changes keep the invariant -/

/-- The invariant does not read the locks, the clock, the allocators or the history. -/
theorem of_eq (h : a.Wf) (he : a'.tasks = a.tasks) : a'.Wf := by
  simp only [Sched.tasks, Prod.mk.injEq] at he
  obtain ⟨hq, hr, hs, hp, hc, hn, ht⟩ := he
  constructor <;> simp only [Created, Active, hq, hr, hs, hp, hc, hn, ht]
  exacts [h.nodup, h.disjoint, h.queued_created, h.queued_status, h.idle_status,
    h.current_created, h.boot_status, h.ring_nodup, h.ring_pid, h.created_iff, h.turn, h.live]

theorem enqueue_status (x : PcbPtr) :
    (a.enqueue q p).status x = if x = p then q.status else a.status x := by
  simp [enqueue, place, withCore, Core.setStatus, Function.update_apply]

theorem mem_enqueue :
    x ∈ (a.enqueue q p).queue r ↔ (x ∈ a.queue r ∧ x ≠ p) ∨ (r = q ∧ x = p) := by
  rw [enqueue, mem_place]; rfl

/-- Moving an active thread makes no other thread active. -/
theorem active_of_enqueue (hp : a.Active p) (hx : (a.enqueue q p).Active x) : a.Active x := by
  by_cases hxp : x = p
  · exact hxp ▸ hp
  · rcases hx with ⟨hc, hr⟩ | ⟨r, hr⟩
    · rw [enqueue_status, if_neg hxp] at hr
      exact Or.inl ⟨hc, hr⟩
    · rw [mem_enqueue] at hr
      exact Or.inr ⟨r, (hr.resolve_right fun e => hxp e.2).1⟩

/-- **A task that runs or is queued may be moved to any queue.** -/
theorem enqueue (h : a.Wf) (hp : a.Active p) : (a.enqueue q p).Wf where
  nodup r := by
    have h1 : ((a.queue r).filter (· ≠ p)).Nodup := (h.nodup r).filter _
    by_cases hr : r = q
    · have h2 : (a.enqueue q p).queue r = (a.queue r).filter (· ≠ p) ++ [p] := by
        simp [Sched.enqueue, place, withCore, hr]
      rw [h2, List.nodup_append]
      refine ⟨h1, List.nodup_singleton p, ?_⟩
      intro x hx y hy e
      rw [List.mem_singleton.1 hy] at e
      exact absurd e (by simpa using (List.mem_filter.1 hx).2)
    · have h2 : (a.enqueue q p).queue r = (a.queue r).filter (· ≠ p) := by
        simp [Sched.enqueue, place, withCore, hr]
      rwa [h2]
  disjoint {r r' x} hx hx' := by
    rw [mem_enqueue] at hx hx'
    rcases hx with ⟨hx, hne⟩ | ⟨rfl, rfl⟩
    · exact h.disjoint hx (hx'.resolve_right fun e => hne e.2).1
    · rcases hx' with ⟨-, hne⟩ | ⟨rfl, -⟩
      · exact absurd rfl hne
      · rfl
  queued_created {r x} hx := by
    rcases mem_enqueue.1 hx with ⟨hx, -⟩ | ⟨-, rfl⟩
    · exact h.queued_created hx
    · exact h.created_of_active hp
  queued_status {r x} hx := by
    rw [enqueue_status]
    rcases mem_enqueue.1 hx with ⟨hx, hne⟩ | ⟨rfl, rfl⟩
    · rw [if_neg hne]; exact h.queued_status hx
    · rw [if_pos rfl]
  idle_status {x} hx hq := by
    have hne : x ≠ p := fun e => hq q (mem_enqueue.2 (Or.inr ⟨rfl, e⟩))
    rw [enqueue_status, if_neg hne]
    exact h.idle_status hx fun r hr => hq r (mem_enqueue.2 (Or.inl ⟨hr, hne⟩))
  current_created := h.current_created
  boot_status := by
    have hne : PcbPtr.pid0 ≠ p := fun e => h.not_created_boot (e ▸ h.created_of_active hp)
    rw [enqueue_status, if_neg hne]
    exact h.boot_status
  ring_nodup := h.ring_nodup
  ring_pid := h.ring_pid
  created_iff := h.created_iff
  turn hx := h.turn (active_of_enqueue hp hx)
  live {x y} hx hy := by
    rw [enqueue_status]
    split
    · cases q <;> simp [QueueId.status]
    · exact h.live (active_of_enqueue hp hx) hy

theorem mem_unblock :
    x ∈ (a.unblock p).queue r ↔ (x ∈ a.queue r ∧ x ≠ p) ∨ (r = .ready ∧ x = p) :=
  mem_enqueue

theorem unblock_status (x : PcbPtr) :
    (a.unblock p).status x = if x = p then .ready else a.status x :=
  enqueue_status x

theorem unblock (h : a.Wf) (hp : a.Active p) : (a.unblock p).Wf :=
  (h.enqueue hp).of_eq rfl

theorem dispatchTo_status (x : PcbPtr) :
    (a.dispatchTo p).status x = if x = p then .running else a.status x := by
  simp [dispatchTo, take, withCore, Core.dispatch, Function.update_apply]

theorem mem_dispatchTo : x ∈ (a.dispatchTo p).queue r ↔ x ∈ a.queue r ∧ x ≠ p := by
  rw [dispatchTo, mem_take]; rfl

theorem active_of_dispatchTo (hp : p ∈ a.queue .ready) (hx : (a.dispatchTo p).Active x) :
    a.Active x := by
  rcases hx with ⟨rfl, -⟩ | ⟨r, hr⟩
  · exact Or.inr ⟨_, hp⟩
  · exact Or.inr ⟨r, (mem_dispatchTo.1 hr).1⟩

/-- **A ready task may get the CPU**, once the task that has it is not `RUNNING` any more. -/
theorem dispatchTo (h : a.Wf) (hp : p ∈ a.queue .ready)
    (hc : a.status a.currentRunning ≠ .running) : (a.dispatchTo p).Wf where
  nodup r := (h.nodup r).filter _
  disjoint hx hx' := h.disjoint (mem_dispatchTo.1 hx).1 (mem_dispatchTo.1 hx').1
  queued_created hx := h.queued_created (mem_dispatchTo.1 hx).1
  queued_status {r x} hx := by
    obtain ⟨hx, hne⟩ := mem_dispatchTo.1 hx
    rw [dispatchTo_status, if_neg hne]
    exact h.queued_status hx
  idle_status {x} hx hq := by
    rw [dispatchTo_status]
    by_cases hxp : x = p
    · exact Or.inr (by simp [hxp, Sched.dispatchTo, take, withCore, Core.dispatch])
    · have h1 : ∀ r, x ∉ a.queue r := fun r hr => hq r (mem_dispatchTo.2 ⟨hr, hxp⟩)
      have h2 : x ≠ (a.dispatchTo p).currentRunning := hxp
      rw [if_neg hxp, if_neg h2]
      rcases h.idle_status hx h1 with h3 | h3
      · exact Or.inl h3
      · by_cases hxc : x = a.currentRunning
        · rw [if_pos hxc, hxc] at h3; exact absurd h3 hc
        · rw [if_neg hxc] at h3; exact Or.inr h3
  current_created := Or.inr (h.queued_created hp)
  boot_status := by
    have hne : PcbPtr.pid0 ≠ p := fun e => h.not_created_boot (e ▸ h.queued_created hp)
    rw [dispatchTo_status, if_neg hne]
    exact h.boot_status
  ring_nodup := h.ring_nodup
  ring_pid := h.ring_pid
  created_iff := h.created_iff
  turn hx := h.turn (active_of_dispatchTo hp hx)
  live {x y} hx hy := by
    rw [dispatchTo_status]
    split
    · decide
    · exact h.live (active_of_dispatchTo hp hx) hy

theorem exitCurrent_status (x : PcbPtr) :
    a.exitCurrent.status x = if x = a.currentRunning then .exited else a.status x := by
  simp [exitCurrent, withCore, Core.setStatus, Function.update_apply]

/-- **A running task may exit.** -/
theorem exitCurrent (h : a.Wf) (hc : a.status a.currentRunning = .running) :
    a.exitCurrent.Wf := by
  have hidle := h.not_queued_of_running hc
  have hact : a.Active a.currentRunning := Or.inl ⟨rfl, hc⟩
  have hactive : ∀ {x}, a.exitCurrent.Active x → x ≠ a.currentRunning ∧ a.Active x := by
    rintro x (⟨hx, hr⟩ | ⟨r, hr⟩)
    · have hx' : x = a.currentRunning := hx
      rw [exitCurrent_status, if_pos hx'] at hr
      contradiction
    · exact ⟨fun e => hidle r (e ▸ hr), Or.inr ⟨r, hr⟩⟩
  exact
    { nodup := h.nodup
      disjoint := h.disjoint
      queued_created := h.queued_created
      queued_status := fun {r x} hx => by
        have hne : x ≠ a.currentRunning := fun e => hidle r (e ▸ hx)
        rw [exitCurrent_status, if_neg hne]
        exact h.queued_status hx
      idle_status := fun {x} hx hq => by
        rw [exitCurrent_status]
        by_cases hxc : x = a.currentRunning
        · exact Or.inl (if_pos hxc)
        · rw [if_neg hxc]; exact h.idle_status hx hq
      current_created := h.current_created
      boot_status := by
        rw [exitCurrent_status, if_neg (h.ne_boot_of_running hc).symm]
        exact h.boot_status
      ring_nodup := h.ring_nodup
      ring_pid := h.ring_pid
      created_iff := h.created_iff
      turn := fun hx => h.turn (hactive hx).2
      live := fun {x y} hx hy => by
        obtain ⟨hne, hx⟩ := hactive hx
        have hy' : y ∈ a.ring (a.pid x) := hy
        rw [exitCurrent_status]
        split
        · rename_i hyc
          rw [hyc] at hy'
          exact absurd (h.active_unique hx hact (h.ring_pid hy').symm) hne
        · exact h.live hx hy' }

/-! ### Threads -/

theorem mem_insertSecond {l : List PcbPtr} : x ∈ insertSecond p l ↔ x ∈ l ∨ x = p := by
  cases l with
  | nil => simp [insertSecond]
  | cons y ys => simp only [insertSecond, List.mem_cons]; tauto

theorem nodup_insertSecond {l : List PcbPtr} (hl : l.Nodup) (hp : p ∉ l) :
    (insertSecond p l).Nodup := by
  cases l with
  | nil => exact List.nodup_singleton p
  | cons y ys =>
    simp only [insertSecond, List.nodup_cons, List.mem_cons, not_or] at hl hp ⊢
    exact ⟨⟨Ne.symm hp.1, hl.1⟩, hp.2, hl.2⟩

theorem head?_insertSecond {l : List PcbPtr} (hl : l ≠ []) :
    (insertSecond p l).head? = l.head? := by
  cases l with
  | nil => contradiction
  | cons y ys => rfl

/-- The TCB the next `do_thread_create` will make is not in use. -/
theorem not_created_fresh (h : a.Wf) : ¬ a.Created (.tcb a.nthreads) := by
  rw [h.created_iff]
  rintro (⟨i, -, hi⟩ | ⟨k, hk, e⟩)
  · contradiction
  · simp only [PcbPtr.tcb.injEq] at e; omega

theorem mem_ring_threadCreate :
    x ∈ a.threadCreate.ring g ↔
      x ∈ a.ring g ∨ (g = a.pid a.currentRunning ∧ x = .tcb a.nthreads) := by
  simp only [threadCreate, Function.update_apply]
  split
  · rename_i hg; rw [mem_insertSecond, hg]; simp
  · rename_i hg; simp [hg]

theorem threadCreate_pid :
    a.threadCreate.pid x = if x = .tcb a.nthreads then a.pid a.currentRunning else a.pid x := by
  simp [threadCreate, withCore, createCore, Function.update_apply]

theorem threadCreate_status :
    a.threadCreate.status x = if x = .tcb a.nthreads then .ready else a.status x := by
  simp [threadCreate, withCore, createCore, Function.update_apply]

theorem created_threadCreate :
    a.threadCreate.Created x ↔ a.Created x ∨ x = .tcb a.nthreads := by
  simp only [Created, mem_ring_threadCreate, threadCreate_pid]
  by_cases hx : x = .tcb a.nthreads
  · simp [hx]
  · simp [hx]

/-- **The running task may create a thread.** -/
theorem threadCreate (h : a.Wf) (hc : a.status a.currentRunning = .running) :
    a.threadCreate.Wf := by
  have hact : a.Active a.currentRunning := Or.inl ⟨rfl, hc⟩
  have hfresh := h.not_created_fresh
  have hne : ∀ {x}, a.Created x → x ≠ .tcb a.nthreads := fun hx e => hfresh (e ▸ hx)
  have hactive : ∀ {x}, a.threadCreate.Active x → a.Active x := by
    rintro x (⟨hx, hr⟩ | ⟨q, hq⟩)
    · exact hx ▸ hact
    · exact Or.inr ⟨q, hq⟩
  obtain ⟨rest, hring⟩ := h.ring_of_active hact
  exact
    { nodup := h.nodup
      disjoint := h.disjoint
      queued_created := fun hx => created_threadCreate.2 (Or.inl (h.queued_created hx))
      queued_status := fun {q x} hx => by
        rw [threadCreate_status, if_neg (hne (h.queued_created hx))]
        exact h.queued_status hx
      idle_status := fun {x} hx hq => by
        rw [threadCreate_status]
        by_cases hxt : x = .tcb a.nthreads
        · have h1 : x ≠ a.threadCreate.currentRunning :=
            fun e => hne (h.created_of_active hact) (e ▸ hxt)
          rw [if_pos hxt, if_neg h1]
          exact Or.inr rfl
        · rw [if_neg hxt]
          exact h.idle_status ((created_threadCreate.1 hx).resolve_right hxt) hq
      current_created :=
        Or.inr (created_threadCreate.2 (Or.inl (h.created_of_active hact)))
      boot_status := by rw [threadCreate_status, if_neg (by simp)]; exact h.boot_status
      ring_nodup := fun g => by
        simp only [Sched.threadCreate, Function.update_apply]
        split
        · exact nodup_insertSecond (h.ring_nodup _) fun e => hfresh (h.created_of_mem_ring e)
        · exact h.ring_nodup g
      ring_pid := fun {g x} hx => by
        rw [threadCreate_pid]
        rcases mem_ring_threadCreate.1 hx with hx | ⟨rfl, rfl⟩
        · rw [if_neg (hne (h.created_of_mem_ring hx))]; exact h.ring_pid hx
        · rw [if_pos rfl]
      created_iff := fun {x} => by
        have hn : a.threadCreate.nthreads = a.nthreads + 1 := rfl
        have ht : a.threadCreate.ntasks = a.ntasks := rfl
        rw [created_threadCreate, h.created_iff, hn, ht]
        constructor
        · rintro ((h1 | ⟨k, hk, rfl⟩) | rfl)
          · exact Or.inl h1
          · exact Or.inr ⟨k, by omega, rfl⟩
          · exact Or.inr ⟨a.nthreads, by omega, rfl⟩
        · rintro (h1 | ⟨k, hk, rfl⟩)
          · exact Or.inl (Or.inl h1)
          · rcases Nat.lt_succ_iff_lt_or_eq.1 hk with hk | rfl
            · exact Or.inl (Or.inr ⟨k, hk, rfl⟩)
            · exact Or.inr rfl
      turn := fun {x} hx => by
        have hxa := hactive hx
        rw [threadCreate_pid, if_neg (hne (h.created_of_active hxa))]
        simp only [Sched.threadCreate, Function.update_apply]
        split
        · rename_i hg
          rw [head?_insertSecond (by rw [hring]; simp), ← hg]; exact h.turn hxa
        · exact h.turn hxa
      live := fun {x y} hx hy => by
        have hxa := hactive hx
        rw [threadCreate_pid, if_neg (hne (h.created_of_active hxa)), mem_ring_threadCreate] at hy
        rw [threadCreate_status]
        split
        · simp
        · rename_i hyt
          exact h.live hxa (hy.resolve_right fun e => hyt e.2) }

/-- What `do_thread_yield` does, in terms of the ring of the running thread. -/
theorem threadYield_eq (h : a.Wf) (hc : a.status a.currentRunning = .running) :
    ∃ next rest, (a.ring (a.pid a.currentRunning)).rotate 1 = next :: rest ∧
      next ∈ a.ring (a.pid a.currentRunning) ∧
      (next = a.currentRunning ∨ (∀ q, next ∉ a.queue q) ∧ a.status next = .ready) ∧
      a.threadYield = { a.withCore (yieldCore next) with
        ring := Function.update a.ring (a.pid a.currentRunning) (next :: rest) } := by
  have hact : a.Active a.currentRunning := Or.inl ⟨rfl, hc⟩
  obtain ⟨others, hring⟩ := h.ring_of_active hact
  have hne : (a.ring (a.pid a.currentRunning)).rotate 1 ≠ [] := by
    rw [Ne, List.rotate_eq_nil_iff, hring]; simp
  obtain ⟨next, rest, hr⟩ := List.exists_cons_of_ne_nil hne
  have hmem : next ∈ a.ring (a.pid a.currentRunning) := by
    rw [← List.mem_rotate (n := 1), hr]; exact List.mem_cons_self
  refine ⟨next, rest, hr, hmem, ?_, by simp only [threadYield, hr]⟩
  by_cases hnc : next = a.currentRunning
  · exact Or.inl hnc
  · have hpid := h.ring_pid hmem
    have hidle : ∀ q, next ∉ a.queue q :=
      fun q hq => hnc (h.active_unique (Or.inr ⟨q, hq⟩) hact hpid)
    have hst := h.idle_status (h.created_of_mem_ring hmem) hidle
    rw [if_neg hnc] at hst
    exact Or.inr ⟨hidle, hst.resolve_left (h.live hact hmem)⟩

/-- Passing the turn on rotates the ring of the running thread, and no other. -/
theorem threadYield_ring (h : a.Wf) (hc : a.status a.currentRunning = .running) (g : ℕ) :
    a.threadYield.ring g = (a.ring g).rotate (if g = a.pid a.currentRunning then 1 else 0) := by
  obtain ⟨next, rest, hrot, -, -, he⟩ := h.threadYield_eq hc
  rw [he]
  simp only [Function.update_apply]
  split
  · rename_i hg; rw [hg, hrot]
  · rw [List.rotate_zero]

theorem mem_ring_threadYield (h : a.Wf) (hc : a.status a.currentRunning = .running) :
    x ∈ a.threadYield.ring g ↔ x ∈ a.ring g := by
  rw [h.threadYield_ring hc, List.mem_rotate]

theorem created_threadYield (h : a.Wf) (hc : a.status a.currentRunning = .running) :
    a.threadYield.Created x ↔ a.Created x := by
  have hp : a.threadYield.pid = a.pid := by
    obtain ⟨next, rest, -, -, -, he⟩ := h.threadYield_eq hc
    rw [he]; rfl
  rw [Created, Created, hp, h.mem_ring_threadYield hc]

theorem yieldCore_status {next : PcbPtr} :
    (a.withCore (yieldCore next)).status x =
      if x = next then .running else if x = a.currentRunning then .ready else a.status x := by
  simp [withCore, yieldCore, Function.update_apply]

/-- **The running thread may pass the turn on.** -/
theorem threadYield (h : a.Wf) (hc : a.status a.currentRunning = .running) :
    a.threadYield.Wf := by
  have hact : a.Active a.currentRunning := Or.inl ⟨rfl, hc⟩
  obtain ⟨next, rest, hrot, hmem, hnext, he⟩ := h.threadYield_eq hc
  have hpid := h.ring_pid hmem
  have hcur := h.not_queued_of_running hc
  have hidle : ∀ q, next ∉ a.queue q := fun q hq => by
    rcases hnext with rfl | ⟨hn, -⟩
    · exact hcur q hq
    · exact hn q hq
  have hmr : ∀ {g x}, x ∈ a.threadYield.ring g ↔ x ∈ a.ring g := h.mem_ring_threadYield hc
  have hcreated : ∀ {x}, a.threadYield.Created x ↔ a.Created x := h.created_threadYield hc
  have hp : a.threadYield.pid = a.pid := by rw [he]; rfl
  have hq : a.threadYield.queue = a.queue := by rw [he]; rfl
  have hcr : a.threadYield.currentRunning = next := by rw [he]; rfl
  have hs : ∀ x, a.threadYield.status x =
      if x = next then .running else if x = a.currentRunning then .ready else a.status x := by
    intro x; rw [he]; exact yieldCore_status
  have hactive : ∀ {x}, a.threadYield.Active x → x = next ∨ ∃ q, x ∈ a.queue q := by
    rintro x (⟨hx, -⟩ | ⟨q, hx⟩)
    · exact Or.inl (hx.trans hcr)
    · exact Or.inr ⟨q, hq ▸ hx⟩
  exact
    { nodup := fun q => hq ▸ h.nodup q
      disjoint := fun hx hx' => h.disjoint (hq ▸ hx) (hq ▸ hx')
      queued_created := fun hx => hcreated.2 (h.queued_created (hq ▸ hx))
      queued_status := fun {q x} hx => by
        rw [hq] at hx
        have h1 : x ≠ next := fun e => hidle q (e ▸ hx)
        have h2 : x ≠ a.currentRunning := fun e => hcur q (e ▸ hx)
        rw [hs, if_neg h1, if_neg h2]; exact h.queued_status hx
      idle_status := fun {x} hx hxq => by
        rw [hq] at hxq
        rw [hs, hcr]
        by_cases h1 : x = next
        · simp [h1]
        · by_cases h2 : x = a.currentRunning
          · simp [h1, ← h2]
          · have h3 := h.idle_status (hcreated.1 hx) hxq
            rw [if_neg h2] at h3
            rwa [if_neg h1, if_neg h2, if_neg h1]
      current_created := Or.inr (hcr ▸ hcreated.2 (h.created_of_mem_ring hmem))
      boot_status := by
        have h1 : PcbPtr.pid0 ≠ next :=
          fun e => h.not_created_boot (e ▸ h.created_of_mem_ring hmem)
        rw [hs, if_neg h1, if_neg (h.ne_boot_of_running hc).symm]; exact h.boot_status
      ring_nodup := fun g => by
        rw [h.threadYield_ring hc, List.nodup_rotate]; exact h.ring_nodup g
      ring_pid := fun hx => by rw [hp]; exact h.ring_pid (hmr.1 hx)
      created_iff := fun {x} => by
        have hn : a.threadYield.nthreads = a.nthreads := by rw [he]; rfl
        have ht : a.threadYield.ntasks = a.ntasks := by rw [he]; rfl
        rw [hcreated, h.created_iff, hn, ht]
      turn := fun {x} hx => by
        rw [hp]
        rcases hactive hx with rfl | ⟨q, hxq⟩
        · rw [hpid, he]; simp
        · have h1 : a.pid x ≠ a.pid a.currentRunning := fun e =>
            hcur q (h.active_unique (Or.inr ⟨q, hxq⟩) hact e ▸ hxq)
          rw [he]; simp only [Function.update_apply, if_neg h1]
          exact h.turn (Or.inr ⟨q, hxq⟩)
      live := fun {x y} hx hy => by
        rw [hp, hmr] at hy
        have hlive : a.status y ≠ .exited := by
          rcases hactive hx with rfl | hxq
          · exact h.live hact (hpid ▸ hy)
          · exact h.live (Or.inr hxq) hy
        rw [hs]
        split
        · simp
        · split
          · simp
          · exact hlive }

/-! ## Scheduling

`do_scheduler` is a sequence of four kinds of atomic change.  Whatever they all keep, it keeps:
`doScheduler_induction` is how every invariant of this development passes through the scheduler. -/

theorem visit_eq (a : Sched) (p : PcbPtr) :
    a.visit p = (a.withCore (·.getTimer.2)).unblock p ∨
      a.visit p = a.withCore (·.getTimer.2) := by
  simp only [visit]
  split
  · exact Or.inl rfl
  · exact Or.inr rfl

theorem visit_of_le (hp : a.wakeupTime p ≤ a.getTimer.1) :
    a.visit p = (a.withCore (·.getTimer.2)).unblock p := if_pos hp

theorem visit_of_lt (hp : a.getTimer.1 < a.wakeupTime p) :
    a.visit p = a.withCore (·.getTimer.2) := if_neg (Nat.not_le.2 hp)

theorem getTimer (h : a.Wf) : (a.withCore (·.getTimer.2)).Wf :=
  h.of_eq rfl

/-- The other sleepers stay where they are while one is looked at. -/
theorem mem_visit (hx : x ∈ a.queue .sleep) (hxp : x ≠ p) : x ∈ (a.visit p).queue .sleep := by
  rcases visit_eq a p with he | he
  · rw [he]; exact mem_unblock.2 (Or.inl ⟨hx, hxp⟩)
  · rw [he]; exact hx

section Induction

variable {P : Sched → Prop}
  (tick : ∀ b : Sched, b.Wf → P b → P (b.withCore (·.getTimer.2)))
  (wake : ∀ (b : Sched) (x : PcbPtr), b.Wf → P b → x ∈ b.queue .sleep →
    b.wakeupTime x ≤ b.timeElapsed / b.timeBase → P (b.unblock x))

include tick wake in
theorem visit_induction (h : a.Wf) (hP : P a) (hp : p ∈ a.queue .sleep) :
    (a.visit p).Wf ∧ P (a.visit p) := by
  have ht := h.getTimer
  have hPt := tick a h hP
  rcases Nat.lt_or_ge a.getTimer.1 (a.wakeupTime p) with hlt | hle
  · rw [visit_of_lt hlt]; exact ⟨ht, hPt⟩
  · rw [visit_of_le hle]
    exact ⟨ht.unblock (Or.inr ⟨.sleep, hp⟩), wake _ p ht hPt hp hle⟩

include tick wake in
/-- What ticks and wake-ups keep, `check_sleeping` keeps. -/
theorem checkSleeping_induction (h : a.Wf) (hP : P a) :
    a.checkSleeping.Wf ∧ P a.checkSleeping := by
  -- the sleepers not yet looked at are still asleep
  suffices H : ∀ (l : List PcbPtr) (b : Sched), b.Wf → P b → l.Nodup →
      (∀ x ∈ l, x ∈ b.queue .sleep) → (l.foldl visit b).Wf ∧ P (l.foldl visit b) from
    H _ a h hP (h.nodup _) fun _ hx => hx
  intro l
  induction l with
  | nil => exact fun b hb hPb _ _ => ⟨hb, hPb⟩
  | cons p l ih =>
    intro b hb hPb hnd hl
    rw [List.nodup_cons] at hnd
    obtain ⟨hv, hPv⟩ := visit_induction tick wake hb hPb (hl p List.mem_cons_self)
    refine ih _ hv hPv hnd.2 fun x hx => ?_
    exact mem_visit (hl x (List.mem_cons_of_mem p hx)) fun e => hnd.1 (e ▸ hx)

variable
  (preempt : ∀ b : Sched, b.Wf → P b → b.status b.currentRunning = .running →
    P (b.unblock b.currentRunning))
  (dispatch : ∀ (b : Sched) (x : PcbPtr) (rest : List PcbPtr), b.Wf → P b →
    b.queue .ready = x :: rest → b.status b.currentRunning ≠ .running → P (b.dispatchTo x))

theorem preempt_current : a.preempt.currentRunning = a.currentRunning := by
  rw [Sched.preempt]; split <;> rfl

theorem preempt_status_ne : a.preempt.status a.preempt.currentRunning ≠ .running := by
  rw [preempt_current, Sched.preempt]
  split
  · rw [unblock_status, if_pos rfl]; simp
  · assumption

theorem preempt_ready_ne (hr : a.queue .ready ≠ []) : a.preempt.queue .ready ≠ [] := by
  rw [Sched.preempt]
  split
  · exact List.ne_nil_of_mem (mem_unblock.2 (Or.inr ⟨rfl, rfl⟩))
  · exact hr

include preempt in
theorem preempt_induction (h : a.Wf) (hP : P a) : a.preempt.Wf ∧ P a.preempt := by
  rw [Sched.preempt]
  split
  · rename_i hc
    exact ⟨h.unblock (Or.inl ⟨rfl, hc⟩), preempt a h hP hc⟩
  · exact ⟨h, hP⟩

/-- `do_scheduler` after `check_sleeping`: either nobody is ready, or the first of the ready queue
gets the CPU, the running task having gone to its end. -/
theorem schedule_eq (a : Sched) : (a.queue .ready = [] ∧ a.schedule = a) ∨
    (a.queue .ready ≠ [] ∧ ∃ next rest, a.preempt.queue .ready = next :: rest ∧
      a.schedule = a.preempt.dispatchTo next) := by
  by_cases hr : a.queue .ready = []
  · exact Or.inl ⟨hr, if_pos hr⟩
  · obtain ⟨next, rest, hn⟩ := List.exists_cons_of_ne_nil (preempt_ready_ne hr)
    refine Or.inr ⟨hr, next, rest, hn, ?_⟩
    rw [Sched.schedule, if_neg hr]
    simp only [hn]

include preempt dispatch in
theorem schedule_induction (h : a.Wf) (hP : P a) : a.schedule.Wf ∧ P a.schedule := by
  rcases schedule_eq a with ⟨-, he⟩ | ⟨-, next, rest, hn, he⟩
  · rw [he]; exact ⟨h, hP⟩
  · obtain ⟨hw, hPp⟩ := preempt_induction preempt h hP
    have hmem : next ∈ a.preempt.queue .ready := by rw [hn]; exact List.mem_cons_self
    rw [he]
    exact ⟨hw.dispatchTo hmem preempt_status_ne, dispatch _ next rest hw hPp hn preempt_status_ne⟩

include tick wake preempt dispatch in
/-- **What the four atomic changes keep, `do_scheduler` keeps.** -/
theorem doScheduler_induction (h : a.Wf) (hP : P a) : a.doScheduler.Wf ∧ P a.doScheduler := by
  obtain ⟨hw, hPc⟩ := checkSleeping_induction tick wake h hP
  exact schedule_induction preempt dispatch hw hPc

end Induction

/-- `check_sleeping` keeps the invariant. -/
theorem checkSleeping (h : a.Wf) : a.checkSleeping.Wf :=
  (checkSleeping_induction (P := fun _ => True) (fun _ _ _ => trivial) (fun _ _ _ _ _ _ => trivial)
    h trivial).1

/-- `check_sleeping` touches no block queue, and not the current task. -/
theorem checkSleeping_block (h : a.Wf) (i : Fin LOCK_NUM) :
    a.checkSleeping.queue (.block i) = a.queue (.block i) ∧
      a.checkSleeping.currentRunning = a.currentRunning := by
  refine (checkSleeping_induction (P := fun b => b.queue (.block i) = a.queue (.block i) ∧
    b.currentRunning = a.currentRunning) (fun _ _ hb => hb) ?_ h ⟨rfl, rfl⟩).2
  intro b x hbw hb hx _
  refine ⟨?_, hb.2⟩
  rw [unblock_queue, enqueue_queue_of_ne (by simp) fun hi => absurd (hbw.disjoint hx hi) (by simp)]
  exact hb.1

/-- `do_scheduler` touches no block queue. -/
theorem doScheduler_block (h : a.Wf) (i : Fin LOCK_NUM) :
    a.doScheduler.queue (.block i) = a.queue (.block i) := by
  refine (doScheduler_induction (P := fun b => b.queue (.block i) = a.queue (.block i))
    (fun _ _ hb => hb) ?_ ?_ ?_ h rfl).2
  · intro b x hbw hb hx _
    have hi : x ∉ b.queue (.block i) := fun hi => absurd (hbw.disjoint hx hi) (by simp)
    rw [unblock_queue, enqueue_queue_of_ne (by simp) hi]; exact hb
  · intro b hbw hb hr
    rw [unblock_queue, enqueue_queue_of_ne (by simp) (hbw.not_queued_of_running hr _)]; exact hb
  · intro b x rest hbw hb hq _
    have hx : x ∈ b.queue .ready := by rw [hq]; exact List.mem_cons_self
    have hi : x ∉ b.queue (.block i) := fun hi => absurd (hbw.disjoint hx hi) (by simp)
    exact (filter_of_not_mem hi).trans hb

/-- `do_scheduler` keeps the invariant. -/
theorem doScheduler (h : a.Wf) : a.doScheduler.Wf :=
  (doScheduler_induction (P := fun _ => True) (fun _ _ _ => trivial)
    (fun _ _ _ _ _ _ => trivial) (fun _ _ _ _ => trivial) (fun _ _ _ _ _ _ _ => trivial)
    h trivial).1

/-! ## Traps -/

/-- The scheduler returns to a task only if it made it `RUNNING`, unless it is stuck. -/
theorem schedule_running (h : a.Wf) (hs : ¬ a.Stuck) :
    a.schedule.currentRunning = .pid0 ∨ a.schedule.status a.schedule.currentRunning = .running := by
  rcases schedule_eq a with ⟨hr, he⟩ | ⟨-, next, rest, -, he⟩
  · rw [he]
    by_cases hb : a.currentRunning = .pid0
    · exact Or.inl hb
    · right
      simp only [Stuck, hr, hb, ne_eq, not_false_eq_true, true_and, not_or] at hs
      by_cases hq : ∃ q, a.currentRunning ∈ a.queue q
      · -- a current task on a queue is `BLOCKED`, since nobody is ready
        obtain ⟨q, hq⟩ := hq
        cases q with
        | ready => rw [hr] at hq; contradiction
        | sleep => exact absurd (h.queued_status hq) hs.1
        | block i => exact absurd (h.queued_status hq) hs.1
      · have h1 := h.idle_status (h.current_created.resolve_left hb) fun q hq' => hq ⟨q, hq'⟩
        rw [if_pos rfl] at h1
        exact h1.resolve_left hs.2
  · rw [he]
    exact Or.inr ((dispatchTo_status _).trans (if_pos rfl))

theorem sleepCurrent (h : a.Wf) (hc : a.Active a.currentRunning) (s : UInt32) :
    (a.sleepCurrent s).Wf :=
  (h.enqueue hc).of_eq rfl

theorem acquireOrBlock (h : a.Wf) (hc : a.Active a.currentRunning) (i : Fin LOCK_NUM) :
    (a.acquireOrBlock i).1.Wf := by
  have hl : (a.withCore (·.setLockStatus i .locked)).Wf := h.of_eq rfl
  simp only [Sched.acquireOrBlock]
  split
  · exact h
  · split
    · exact hl
    · exact hl.enqueue hc

theorem release (h : a.Wf) (i : Fin LOCK_NUM) : (a.release i).Wf := by
  rw [Sched.release]
  split
  · exact h
  · split
    · exact h.of_eq rfl
    · rename_i p rest hq
      exact h.unblock (Or.inr ⟨.block i, by rw [hq]; exact List.mem_cons_self⟩)

theorem lockInit_core (c : Core) (key : ℤ) :
    ∃ mlocks, (c.doMutexLockInit key).2 = { c with mlocks := mlocks } := by
  simp only [Core.doMutexLockInit]
  split
  · exact ⟨_, rfl⟩
  · split
    · exact ⟨_, rfl⟩
    · exact ⟨_, rfl⟩

theorem lockInit (h : a.Wf) (key : ℤ) : (a.withCore fun c => (c.doMutexLockInit key).2).Wf := by
  obtain ⟨m, hm⟩ := lockInit_core a.toCore key
  have he : (a.withCore fun c => (c.doMutexLockInit key).2) =
      a.withCore fun c => { c with mlocks := m } := by simp only [withCore, hm]
  rw [he]
  exact h.of_eq rfl

/-- The operations that only a `RUNNING` task may execute without doing harm. -/
def NeedsRunning (op : Op) : Prop := op = .exit ∨ op = .threadCreate ∨ op = .threadYield

variable {op : Op} {b : Sched}

/-- Up to its call of `do_scheduler` an operation keeps the invariant. -/
theorem schedulerEntry (h : a.Wf) (hop : op = .timer ∨ a.Active a.currentRunning)
    (hr : NeedsRunning op → a.status a.currentRunning = .running)
    (hb : a.schedulerEntry op = some b) : b.Wf := by
  rcases schedulerEntry_cases hb with ⟨rfl, rfl⟩ | ⟨rfl, rfl⟩ | ⟨s, rfl, rfl⟩ |
    ⟨idx, i, rfl, -, hblk⟩ | ⟨rfl, rfl⟩
  · exact h.of_eq rfl
  · exact h
  · exact h.sleepCurrent (hop.resolve_left (by simp)) s
  · have hbw := h.acquireOrBlock (hop.resolve_left (by simp)) i
    rwa [hblk] at hbw
  · exact h.exitCurrent (hr (Or.inl rfl))

/-- An operation that calls `do_scheduler` does nothing after the call. -/
theorem trap_of_schedulerEntry (hb : a.schedulerEntry op = some b) :
    a.trap op = some b.doScheduler := by
  rcases schedulerEntry_cases hb with ⟨rfl, rfl⟩ | ⟨rfl, rfl⟩ | ⟨s, rfl, rfl⟩ |
    ⟨idx, i, rfl, hi, hblk⟩ | ⟨rfl, rfl⟩
  · rfl
  · rfl
  · rfl
  · simp only [Sched.trap, hi, Option.map_some, hblk, if_true]
  · rfl

/-- An operation that does not call `do_scheduler` is one of the calls that return at once. -/
theorem trap_of_schedulerEntry_none (hb : a.schedulerEntry op = none)
    (ht : a.trap op = some a') :
    (∃ key, op = .lockInit key ∧ a' = a.withCore fun c => (c.doMutexLockInit key).2) ∨
    (∃ idx i, op = .lockAcquire idx ∧ mlockIndex idx = some i ∧ (a.acquireOrBlock i).2 = false ∧
      a' = (a.acquireOrBlock i).1) ∨
    (∃ idx i, op = .lockRelease idx ∧ mlockIndex idx = some i ∧ a' = a.release i) ∨
    (op = .threadCreate ∧ a' = a.threadCreate) ∨ (op = .threadYield ∧ a' = a.threadYield) := by
  cases op with
  | lockInit key => exact Or.inl ⟨key, rfl, (Option.some_inj.1 ht).symm⟩
  | lockAcquire idx =>
    simp only [Sched.trap, Option.map_eq_some_iff] at ht
    obtain ⟨i, hi, rfl⟩ := ht
    simp only [schedulerEntry_lockAcquire, hi, Option.bind_some] at hb
    have hblk : (a.acquireOrBlock i).2 = false := by
      by_contra hne
      rw [Bool.not_eq_false] at hne
      simp [hne] at hb
    exact Or.inr (Or.inl ⟨idx, i, rfl, hi, hblk, by rw [hblk]; rfl⟩)
  | lockRelease idx =>
    simp only [Sched.trap, Option.map_eq_some_iff] at ht
    obtain ⟨i, hi, rfl⟩ := ht
    exact Or.inr (Or.inr (Or.inl ⟨idx, i, rfl, hi, rfl⟩))
  | threadCreate => exact Or.inr (Or.inr (Or.inr (Or.inl ⟨rfl, (Option.some_inj.1 ht).symm⟩)))
  | threadYield => exact Or.inr (Or.inr (Or.inr (Or.inr ⟨rfl, (Option.some_inj.1 ht).symm⟩)))
  | _ => cases hb

/-- **Every trap keeps the invariant**, as long as the threads' operations and `do_exit` are left
to tasks that are `RUNNING`. -/
theorem trap (h : a.Wf) (hop : op = .timer ∨ a.Active a.currentRunning)
    (hr : NeedsRunning op → a.status a.currentRunning = .running)
    (ht : a.trap op = some a') : a'.Wf := by
  cases hb : a.schedulerEntry op with
  | some b =>
    rw [trap_of_schedulerEntry hb] at ht
    rw [← Option.some_inj.1 ht]
    exact (h.schedulerEntry hop hr hb).doScheduler
  | none =>
    rcases trap_of_schedulerEntry_none hb ht with ⟨key, rfl, rfl⟩ | ⟨idx, i, rfl, -, -, rfl⟩ |
      ⟨idx, i, rfl, -, rfl⟩ | ⟨rfl, rfl⟩ | ⟨rfl, rfl⟩
    · exact h.lockInit key
    · exact h.acquireOrBlock (hop.resolve_left (by simp)) i
    · exact h.release i
    · exact h.threadCreate (hr (Or.inr (Or.inl rfl)))
    · exact h.threadYield (hr (Or.inr (Or.inr rfl)))

theorem acquireOrBlock_of_not_blocked {i : Fin LOCK_NUM} (hb : (a.acquireOrBlock i).2 = false) :
    ∃ mlocks, (a.acquireOrBlock i).1 = a.withCore fun c => { c with mlocks := mlocks } := by
  simp only [Sched.acquireOrBlock] at hb ⊢
  split
  · exact ⟨a.mlocks, rfl⟩
  · rename_i hk
    rw [if_neg hk] at hb
    split
    · exact ⟨_, rfl⟩
    · rename_i hu
      rw [if_neg hu] at hb
      contradiction

/-- A release takes the CPU from nobody. -/
theorem release_status (h : a.Wf) {i : Fin LOCK_NUM} (hp : a.status p = .running) :
    (a.release i).status p = .running := by
  rw [Sched.release]
  split
  · exact hp
  · split
    · exact hp
    · rename_i x rest hq
      have hne : p ≠ x := fun e =>
        h.not_queued_of_running hp (.block i) (by rw [hq, e]; exact List.mem_cons_self)
      rw [unblock_status, if_neg hne]; exact hp

theorem release_current (i : Fin LOCK_NUM) : (a.release i).currentRunning = a.currentRunning := by
  rw [Sched.release]
  split
  · rfl
  · split <;> rfl

/-- **A trap returns to a task that is `RUNNING`**, unless its `do_scheduler` is stuck. -/
theorem trap_running (h : a.Wf) (hop : op = .timer ∨ a.status a.currentRunning = .running)
    (hs : ∀ b, a.schedulerEntry op = some b → ¬ b.checkSleeping.Stuck)
    (ht : a.trap op = some a') :
    a'.currentRunning = .pid0 ∨ a'.status a'.currentRunning = .running := by
  cases hb : a.schedulerEntry op with
  | some b =>
    rw [trap_of_schedulerEntry hb] at ht
    rw [← Option.some_inj.1 ht]
    have hop' : op = .timer ∨ a.Active a.currentRunning := hop.imp_right fun hc => Or.inl ⟨rfl, hc⟩
    have hbw := h.schedulerEntry hop' (fun hn => hop.resolve_left fun e => by
      subst e; rcases hn with hn | hn | hn <;> contradiction) hb
    exact hbw.checkSleeping.schedule_running (hs b hb)
  | none =>
    rcases trap_of_schedulerEntry_none hb ht with ⟨key, rfl, rfl⟩ | ⟨idx, i, rfl, -, hblk, rfl⟩ |
      ⟨idx, i, rfl, -, rfl⟩ | ⟨rfl, rfl⟩ | ⟨rfl, rfl⟩ <;>
      have hc := hop.resolve_left (by simp)
    · obtain ⟨m, hm⟩ := lockInit_core a.toCore key
      right
      simp only [withCore, hm]
      exact hc
    · obtain ⟨m, hm⟩ := acquireOrBlock_of_not_blocked hblk
      rw [hm]
      exact Or.inr hc
    · rw [release_current]
      exact Or.inr (h.release_status hc)
    · have hne : a.currentRunning ≠ .tcb a.nthreads := fun e =>
        h.not_created_fresh (e ▸ h.created_of_active (Or.inl ⟨rfl, hc⟩))
      right
      change a.threadCreate.status a.currentRunning = .running
      rw [threadCreate_status, if_neg hne]
      exact hc
    · obtain ⟨next, rest, -, -, -, he⟩ := h.threadYield_eq hc
      right
      rw [he]
      exact yieldCore_status.trans (if_pos rfl)

/-! ## The first state -/

section Boot

variable {n timeBase i : ℕ} {clock : ℕ → ℕ}

theorem boot_pid (hi : i < n) : (Sched.boot n timeBase clock).pid (.pcb i) = i + 1 := if_pos hi

theorem boot_status_pcb (hi : i < n) :
    (Sched.boot n timeBase clock).status (.pcb i) = .ready := if_pos hi

theorem mem_boot_ring : p ∈ (Sched.boot n timeBase clock).ring g ↔
    ∃ i < n, p = .pcb i ∧ g = i + 1 := by
  simp only [Sched.boot]
  split
  · rename_i hg
    rw [List.mem_singleton]
    constructor
    · rintro rfl; exact ⟨g - 1, by omega, rfl, by omega⟩
    · rintro ⟨i, -, rfl, rfl⟩; rfl
  · rename_i hg
    constructor
    · intro hp; contradiction
    · rintro ⟨i, hi, -, rfl⟩; omega

theorem mem_boot_queue : p ∈ (Sched.boot n timeBase clock).queue q ↔
    q = .ready ∧ ∃ i < n, p = .pcb i := by
  cases q <;> simp [Sched.boot, eq_comm]

theorem boot_created : (Sched.boot n timeBase clock).Created p ↔ ∃ i < n, p = .pcb i := by
  rw [Created, mem_boot_ring]
  constructor
  · rintro ⟨i, hi, rfl, -⟩; exact ⟨i, hi, rfl⟩
  · rintro ⟨i, hi, rfl⟩; exact ⟨i, hi, rfl, boot_pid hi⟩

theorem boot_ring (hi : i < n) : (Sched.boot n timeBase clock).ring (i + 1) = [.pcb i] := by
  simp only [Sched.boot]
  rw [if_pos ⟨by omega, by omega⟩, Nat.add_sub_cancel]

/-- **The invariant holds when `main` enables interrupts.** -/
theorem boot : (Sched.boot n timeBase clock).Wf where
  nodup q := by
    cases q with
    | ready => exact List.nodup_range.map fun i j e => PcbPtr.pcb.inj e
    | _ => exact List.nodup_nil
  disjoint hp hp' := (mem_boot_queue.1 hp).1.trans (mem_boot_queue.1 hp').1.symm
  queued_created hp := boot_created.2 (mem_boot_queue.1 hp).2
  queued_status hp := by
    obtain ⟨rfl, i, hi, rfl⟩ := mem_boot_queue.1 hp
    exact boot_status_pcb hi
  idle_status hp hq := absurd (mem_boot_queue.2 ⟨rfl, boot_created.1 hp⟩) (hq .ready)
  current_created := Or.inl rfl
  boot_status := rfl
  ring_nodup g := by
    simp only [Sched.boot]
    split
    · exact List.nodup_singleton _
    · exact List.nodup_nil
  ring_pid hp := by
    obtain ⟨i, hi, rfl, rfl⟩ := mem_boot_ring.1 hp
    exact boot_pid hi
  created_iff := by
    intro p
    rw [boot_created]
    constructor
    · exact fun hp => Or.inl hp
    · rintro (hp | ⟨k, hk, -⟩)
      · exact hp
      · exact absurd hk (Nat.not_lt_zero k)
  turn hp := by
    rcases hp with ⟨rfl, hr⟩ | ⟨q, hq⟩
    · contradiction
    · obtain ⟨-, i, hi, rfl⟩ := mem_boot_queue.1 hq
      rw [boot_pid hi, boot_ring hi]; rfl
  live _ hp' := by
    obtain ⟨i, hi, rfl, -⟩ := mem_boot_ring.1 hp'
    rw [boot_status_pcb hi]; simp

end Boot

end Wf

end Sched

end UcasOs
