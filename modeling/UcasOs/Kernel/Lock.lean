import UcasOs.Kernel.Queues

/-!
# Mutex locks

The kernel does not record who holds a lock.  `LockHist` reconstructs it from a run: which handles
a task has obtained, which call of `do_mutex_lock_acquire` it has not returned from, the calls and
the returns of every lock in order, and who is `inside`, between a return from an acquire and the
next release.

* `LockHist.Permits` — what the results ask of the tasks: they use handles they have obtained, and
  release what they hold.
* `LockInv` — the invariant.  A lock is `LOCKED` exactly when one task is inside or has been
  `handed` the lock and waits for the CPU; the calls of a lock are its returns, then the task it
  has been handed to, then its block queue.
* `Run.mutual_exclusion_of_dispatch` — at most one task is inside, as long as no task that has to
  wait for a lock finds the ready queue empty.  `Run.mutual_exclusion_fails` is the run in which
  one does: `do_scheduler` returns to it, and it enters.

In what order the tasks enter is the subject of `Kernel/Handover.lean`.
-/

set_option autoImplicit false

namespace UcasOs

/-- The history of the locks, as the tasks see it. -/
structure LockHist where
  /-- The handles a task got from `do_mutex_lock_init` with a key other than `-1`. -/
  handles : List (PcbPtr × Fin LOCK_NUM) := []
  /-- The lock whose acquire a task has called and not returned from. -/
  pending : PcbPtr → Option (Fin LOCK_NUM) := fun _ => none
  /-- The callers of `do_mutex_lock_acquire`, in order. -/
  calls : Fin LOCK_NUM → List PcbPtr := fun _ => []
  /-- The tasks that returned from `do_mutex_lock_acquire`, in order. -/
  returns : Fin LOCK_NUM → List PcbPtr := fun _ => []
  /-- The tasks between a return from an acquire and their next release. -/
  inside : Fin LOCK_NUM → List PcbPtr := fun _ => []

namespace LockHist

/-- `p` has called `do_mutex_lock_acquire(i)`. -/
def acquireCalled (H : LockHist) (p : PcbPtr) (i : Fin LOCK_NUM) : LockHist :=
  { H with pending := Function.update H.pending p (some i)
           calls := Function.update H.calls i (H.calls i ++ [p]) }

/-- `p` has returned from `do_mutex_lock_acquire(i)`. -/
def acquireReturned (H : LockHist) (p : PcbPtr) (i : Fin LOCK_NUM) : LockHist :=
  { H with pending := Function.update H.pending p none
           returns := Function.update H.returns i (H.returns i ++ [p])
           inside := Function.update H.inside i (H.inside i ++ [p]) }

/-- `p` has called `do_mutex_lock_release(i)`. -/
def releaseCalled (H : LockHist) (p : PcbPtr) (i : Fin LOCK_NUM) : LockHist :=
  { H with inside := Function.update H.inside i ((H.inside i).erase p) }

/-- `p` makes a system call in a state with the data `c`. -/
def call (H : LockHist) (c : Core) (p : PcbPtr) : Op → LockHist
  | .lockInit key =>
    match mlockIndex (c.doMutexLockInit key).1 with
    | some i => if key = -1 then H else { H with handles := (p, i) :: H.handles }
    | none => H
  | .lockAcquire idx =>
    match mlockIndex idx with
    | some i => H.acquireCalled p i
    | none => H
  | .lockRelease idx =>
    match mlockIndex idx with
    | some i => H.releaseCalled p i
    | none => H
  | _ => H

/-- `p` is back in user mode: if it was in an acquire, it has returned from it. -/
def resume (H : LockHist) (p : PcbPtr) : LockHist :=
  match H.pending p with
  | some i => H.acquireReturned p i
  | none => H

/-- One trap: the current task makes its call, and the task that is current afterwards returns. -/
def after (H : LockHist) (pre : Core) (op : Op) (post : Core) : LockHist :=
  (H.call pre pre.currentRunning op).resume post.currentRunning

/-- `p` uses only handles it has obtained, and releases only a lock it holds. -/
def Permits (H : LockHist) (p : PcbPtr) : Op → Prop
  | .lockAcquire idx => ∃ i, mlockIndex idx = some i ∧ (p, i) ∈ H.handles
  | .lockRelease idx => ∃ i, mlockIndex idx = some i ∧ (p, i) ∈ H.handles ∧ p ∈ H.inside i
  | _ => True

end LockHist

/-- The history of the locks after a run. -/
def lockHist (tr : List Transition) : LockHist :=
  tr.foldl (fun H t => H.after t.pre.toCore t.op t.post.toCore) {}

theorem lockHist_concat (tr : List Transition) (t : Transition) :
    lockHist (tr ++ [t]) = (lockHist tr).after t.pre.toCore t.op t.post.toCore := by
  rw [lockHist, List.foldl_append]; rfl

/-- Timer interrupts, yields, sleeps and lock calls. -/
def Op.IsBasic : Op → Prop
  | .exit | .threadCreate | .threadYield => False
  | _ => True

/-! ## Tasks that sleep and run

In the runs of the next section a task may come back from `do_sleep` at once, because nobody else
is ready.  It is then both current and on the sleep queue. -/

namespace Sched

variable {a a' b : Sched} {op : Op} {p : PcbPtr} {i : Fin LOCK_NUM}

/-- The current task is the boot context, or it is `RUNNING`, or it is on the sleep queue. -/
def Settled (a : Sched) : Prop :=
  a.currentRunning = .pid0 ∨ a.status a.currentRunning = .running ∨
    a.currentRunning ∈ a.queue .sleep

theorem Running.settled (h : a.Running) : a.Settled := h.imp_right Or.inl

theorem Settled.active (h : a.Settled) (hp : a.currentRunning ≠ .pid0) :
    a.Active a.currentRunning :=
  (h.resolve_left hp).imp (fun hr => ⟨rfl, hr⟩) fun hq => ⟨_, hq⟩

/-- A settled current task is not waiting for a lock, and not on the ready queue. -/
theorem Settled.not_mem (h : a.Settled) (hw : a.Wf) {q : QueueId} (hq : q ≠ .sleep) :
    a.currentRunning ∉ a.queue q := by
  intro hm
  rcases h with hb | hr | hs
  · exact hw.not_created_boot (hb ▸ hw.queued_created hm)
  · exact hw.not_queued_of_running hr q hm
  · exact hq (hw.disjoint hm hs)

theorem Settled.not_exited (h : a.Settled) (hw : a.Wf) :
    a.status a.currentRunning ≠ .exited := by
  rcases h with hb | hr | hs
  · rw [hb, hw.boot_status]; simp
  · rw [hr]; simp
  · rw [hw.queued_status hs]; simp [QueueId.status]

theorem of_isBasic (hop : op.IsBasic) (hn : Wf.NeedsRunning op) : False := by
  rcases hn with rfl | rfl | rfl <;> exact hop

/-- The current task neither waits for a lock nor has exited. -/
def NotStopped (a : Sched) : Prop :=
  (∀ i, a.currentRunning ∉ a.queue (.block i)) ∧ a.status a.currentRunning ≠ .exited

theorem NotStopped.checkSleeping (h : a.NotStopped) (hw : a.Wf) : a.checkSleeping.NotStopped := by
  refine (Wf.checkSleeping_induction (P := NotStopped) (fun _ _ hb => hb) ?_ hw h).2
  intro b x _ hb _ _
  refine ⟨fun i hi => ?_, ?_⟩
  · rcases Wf.mem_unblock.1 hi with ⟨hi, -⟩ | ⟨e, -⟩
    · exact hb.1 i hi
    · contradiction
  · rw [Wf.unblock_status]
    split
    · simp
    · exact hb.2

/-- If nobody is ready, a task that is not stopped may go on. -/
theorem NotStopped.settled (h : a.NotStopped) (hw : a.Wf) (hr : a.queue .ready = []) :
    a.Settled := by
  by_cases hb : a.currentRunning = .pid0
  · exact Or.inl hb
  · right
    by_cases hq : ∃ q, a.currentRunning ∈ a.queue q
    · obtain ⟨q, hq⟩ := hq
      cases q with
      | ready => rw [hr] at hq; contradiction
      | sleep => exact Or.inr hq
      | block i => exact absurd hq (h.1 i)
    · have h1 := hw.idle_status (hw.current_created.resolve_left hb) fun q hq' => hq ⟨q, hq'⟩
      rw [if_pos rfl] at h1
      exact Or.inl (h1.resolve_left h.2)

theorem NotStopped.schedule (h : a.NotStopped) (hw : a.Wf) : a.schedule.Settled := by
  rcases Wf.schedule_eq a with ⟨hr, he⟩ | ⟨-, next, rest, -, he⟩
  · rw [he]; exact h.settled hw hr
  · rw [he]
    exact Or.inr (Or.inl ((Wf.dispatchTo_status _).trans (if_pos rfl)))

theorem Settled.notStopped (h : a.Settled) (hw : a.Wf) : a.NotStopped :=
  ⟨fun _ => h.not_mem hw (by simp), h.not_exited hw⟩

theorem sleepCurrent_notStopped (s : UInt32) : (a.sleepCurrent s).NotStopped := by
  have hc : (a.sleepCurrent s).currentRunning = a.currentRunning := rfl
  have hs : (a.sleepCurrent s).status a.currentRunning = .blocked :=
    (Wf.enqueue_status _).trans (if_pos rfl)
  refine ⟨fun i hi => ?_, by rw [hc, hs]; simp⟩
  rw [sleepCurrent_queue, hc] at hi
  rcases Wf.mem_enqueue.1 hi with ⟨-, hne⟩ | ⟨e, -⟩
  · exact hne rfl
  · contradiction

/-- **A trap leaves the current task settled**, unless it is an acquire that stalls. -/
theorem trap_settled (hw : a.Wf) (hset : a.Settled) (hop : op = .timer ∨ a.currentRunning ≠ .pid0)
    (hbasic : op.IsBasic)
    (hacq : ∀ idx b, op = .lockAcquire idx → a.schedulerEntry op = some b →
      ¬ b.checkSleeping.Stuck)
    (ht : a.trap op = some a') : a'.Settled := by
  have hact : op = .timer ∨ a.Active a.currentRunning := hop.imp_right hset.active
  have hneeds : Wf.NeedsRunning op → a.status a.currentRunning = .running := fun hn =>
    (of_isBasic hbasic hn).elim
  cases hb : a.schedulerEntry op with
  | some b =>
    have hbw := hw.schedulerEntry hact hneeds hb
    rw [Wf.trap_of_schedulerEntry hb] at ht
    rw [← Option.some_inj.1 ht]
    have hns := hset.notStopped hw
    rcases schedulerEntry_cases hb with ⟨rfl, rfl⟩ | ⟨rfl, rfl⟩ | ⟨s, rfl, rfl⟩ |
      ⟨idx, i, rfl, -, -⟩ | ⟨rfl, -⟩
    · exact NotStopped.schedule (NotStopped.checkSleeping hns hbw) hbw.checkSleeping
    · exact (hns.checkSleeping hw).schedule hw.checkSleeping
    · exact ((sleepCurrent_notStopped s).checkSleeping hbw).schedule hbw.checkSleeping
    · have hrun := hbw.checkSleeping.schedule_running (hacq idx b rfl hb)
      exact hrun.imp_right Or.inl
    · exact hbasic.elim
  | none =>
    rcases Wf.trap_of_schedulerEntry_none hb ht with ⟨key, rfl, rfl⟩ | ⟨idx, i, rfl, -, hblk, rfl⟩ |
      ⟨idx, i, rfl, -, rfl⟩ | ⟨rfl, -⟩ | ⟨rfl, -⟩
    · obtain ⟨m, hm⟩ := Wf.lockInit_core a.toCore key
      simp only [Settled, withCore, hm]
      exact hset
    · obtain ⟨m, hm⟩ := Wf.acquireOrBlock_of_not_blocked hblk
      rw [hm]
      exact hset
    · rw [Settled, Wf.release_current]
      refine hset.imp_right (Or.imp hw.release_status fun hs => ?_)
      rw [release]
      split
      · exact hs
      · split
        · exact hs
        · rename_i x rest hq
          have hx : x ∈ a.queue (.block i) := by rw [hq]; exact List.mem_cons_self
          refine Wf.mem_unblock.2 (Or.inl ⟨hs, fun e => ?_⟩)
          exact absurd (hw.disjoint hs (e ▸ hx)) (by simp)
    · exact hbasic.elim
    · exact hbasic.elim

end Sched

/-! ## The invariant -/

/-- **The invariant of the locks**, `handed i` being the task that has been handed the lock `i` and
has not run since. -/
structure LockInv (H : LockHist) (handed : Fin LOCK_NUM → List PcbPtr) (a : Sched) : Prop where
  /-- Handles are those of initialised locks. -/
  handle_key : ∀ {p i}, (p, i) ∈ H.handles → (a.mlocks i).key ≠ -1
  /-- The calls that have not returned: the task the lock was handed to, and the waiting tasks. -/
  calls_eq : ∀ i, H.calls i = H.returns i ++ (handed i ++ a.queue (.block i))
  /-- A lock is `LOCKED` when it has an owner, and it never has two. -/
  owner : ∀ i, (H.inside i ++ handed i).length = if (a.mlocks i).status = .locked then 1 else 0
  /-- The task a lock was handed to is ready. -/
  handed_ready : ∀ {i p}, p ∈ handed i → p ∈ a.queue .ready
  /-- Nobody waits for a free lock. -/
  waiting_locked : ∀ {i}, a.queue (.block i) ≠ [] → (a.mlocks i).status = .locked
  /-- Who has called an acquire and not returned. -/
  pending_iff : ∀ {p i}, H.pending p = some i ↔ p ∈ handed i ∨ p ∈ a.queue (.block i)

namespace LockInv

variable {H : LockHist} {handed : Fin LOCK_NUM → List PcbPtr} {a a' : Sched} {p : PcbPtr}
  {i : Fin LOCK_NUM} {op : Op}

theorem boot {n timeBase : ℕ} {clock : ℕ → ℕ} :
    LockInv {} (fun _ => []) (Sched.boot n timeBase clock) where
  handle_key hp := by simp at hp
  calls_eq i := rfl
  owner i := rfl
  handed_ready hp := by simp at hp
  waiting_locked hq := absurd rfl hq
  pending_iff := by simp [Sched.boot]

/-! ### Reading the invariant -/

theorem of_not_locked (h : LockInv H handed a) (hu : (a.mlocks i).status ≠ .locked) :
    H.inside i = [] ∧ handed i = [] ∧ a.queue (.block i) = [] := by
  have h1 := h.owner i
  rw [if_neg hu, List.length_eq_zero_iff, List.append_eq_nil_iff] at h1
  refine ⟨h1.1, h1.2, ?_⟩
  by_contra hq
  exact hu (h.waiting_locked hq)

theorem of_mem_inside (h : LockInv H handed a) (hp : p ∈ H.inside i) :
    H.inside i = [p] ∧ handed i = [] ∧ (a.mlocks i).status = .locked := by
  have hl : (a.mlocks i).status = .locked := by
    by_contra hu
    rw [(h.of_not_locked hu).1] at hp; contradiction
  have h1 := h.owner i
  rw [if_pos hl, List.length_append] at h1
  have h2 : 0 < (H.inside i).length := List.length_pos_of_mem hp
  obtain ⟨x, hx⟩ := List.length_eq_one_iff.1 (by omega : (H.inside i).length = 1)
  rw [hx, List.mem_singleton] at hp
  exact ⟨by rw [hx, hp], List.length_eq_zero_iff.1 (by omega), hl⟩

theorem of_mem_handed (h : LockInv H handed a) (hp : p ∈ handed i) :
    H.inside i = [] ∧ handed i = [p] ∧ (a.mlocks i).status = .locked := by
  have hl : (a.mlocks i).status = .locked := by
    by_contra hu
    rw [(h.of_not_locked hu).2.1] at hp; contradiction
  have h1 := h.owner i
  rw [if_pos hl, List.length_append] at h1
  have h2 : 0 < (handed i).length := List.length_pos_of_mem hp
  obtain ⟨x, hx⟩ := List.length_eq_one_iff.1 (by omega : (handed i).length = 1)
  rw [hx, List.mem_singleton] at hp
  exact ⟨List.length_eq_zero_iff.1 (by omega), by rw [hx, hp], hl⟩

/-- A task that is on neither kind of queue is in no acquire. -/
theorem pending_eq_none (h : LockInv H handed a) (hr : p ∉ a.queue .ready)
    (hb : ∀ i, p ∉ a.queue (.block i)) : H.pending p = none := by
  cases hp : H.pending p with
  | none => rfl
  | some i =>
    rcases h.pending_iff.1 hp with hh | hq
    · exact absurd (h.handed_ready hh) hr
    · exact absurd hq (hb i)

theorem resume_of_none {H : LockHist} (hp : H.pending p = none) : H.resume p = H := by
  simp only [LockHist.resume, hp]

/-! ### The steps -/

/-- What leaves the block queues and the locks alone and takes nobody off the ready queue keeps the
invariant. -/
theorem of_eq (h : LockInv H handed a) (hm : a'.mlocks = a.mlocks)
    (hb : ∀ i, a'.queue (.block i) = a.queue (.block i))
    (hr : ∀ x ∈ a.queue .ready, x ∈ a'.queue .ready) : LockInv H handed a' where
  handle_key hp := hm ▸ h.handle_key hp
  calls_eq i := hb i ▸ h.calls_eq i
  owner i := hm ▸ h.owner i
  handed_ready hp := hr _ (h.handed_ready hp)
  waiting_locked {i} hq := by rw [hm]; exact h.waiting_locked (hb i ▸ hq)
  pending_iff {p i} := by rw [hb i]; exact h.pending_iff

/-- A task that is on no block queue may be made ready. -/
theorem unblock (h : LockInv H handed a) (hb : ∀ i, p ∉ a.queue (.block i)) :
    LockInv H handed (a.unblock p) := by
  refine h.of_eq rfl (fun i => ?_) fun x hx => ?_
  · rw [Sched.unblock_queue]
    exact Sched.enqueue_queue_of_ne (by simp) (hb i)
  refine Sched.Wf.mem_unblock.2 ?_
  by_cases hxp : x = p
  · exact Or.inr ⟨rfl, hxp⟩
  · exact Or.inl ⟨hx, hxp⟩

/-- A task that is not ready and waits for no lock may go to sleep. -/
theorem sleepCurrent (h : LockInv H handed a) (hr : a.currentRunning ∉ a.queue .ready)
    (hb : ∀ i, a.currentRunning ∉ a.queue (.block i)) (s : UInt32) :
    LockInv H handed (a.sleepCurrent s) := by
  refine h.of_eq rfl (fun i => ?_) fun x hx => ?_
  · rw [Sched.sleepCurrent_queue]
    exact Sched.enqueue_queue_of_ne (by simp) (hb i)
  rw [Sched.sleepCurrent_queue]
  exact Sched.Wf.mem_enqueue.2 (Or.inl ⟨hx, fun e => hr (e ▸ hx)⟩)

/-- **A contended acquire**: the caller goes to the end of the block queue. -/
theorem acquire_block (h : LockInv H handed a) (hl : (a.mlocks i).status = .locked)
    (hr : p ∉ a.queue .ready) (hb : ∀ i, p ∉ a.queue (.block i)) :
    LockInv (H.acquireCalled p i) handed
      ((a.withCore (·.setLockStatus i .locked)).enqueue (.block i) p) := by
  have hm : ((a.withCore (·.setLockStatus i .locked)).enqueue (.block i) p).mlocks = a.mlocks := by
    change Function.update a.mlocks i { a.mlocks i with status := .locked } = a.mlocks
    rw [Function.update_eq_self_iff, ← hl]
  have hq : ∀ j, ((a.withCore (·.setLockStatus i .locked)).enqueue (.block i) p).queue (.block j) =
      if j = i then a.queue (.block i) ++ [p] else a.queue (.block j) := by
    intro j
    split
    · rename_i hj; rw [hj]; exact Sched.enqueue_queue_self (hb i)
    · rename_i hj; exact Sched.enqueue_queue_of_ne (by simpa using hj) (hb j)
  exact
    { handle_key := fun hp => hm ▸ h.handle_key hp
      calls_eq := fun j => by
        rw [hq]
        simp only [LockHist.acquireCalled, Function.update_apply]
        split
        · rename_i hj; rw [hj, h.calls_eq i]; simp only [List.append_assoc]
        · exact h.calls_eq j
      owner := fun j => hm ▸ h.owner j
      handed_ready := fun {j x} hx => by
        have h1 := h.handed_ready hx
        exact Sched.Wf.mem_enqueue.2 (Or.inl ⟨h1, fun e => hr (e ▸ h1)⟩)
      waiting_locked := fun {j} hj => by
        rw [hm]
        rw [hq] at hj
        split at hj
        · rename_i e; rw [e]; exact hl
        · exact h.waiting_locked hj
      pending_iff := fun {x j} => by
        rw [hq]
        simp only [LockHist.acquireCalled, Function.update_apply]
        by_cases hx : x = p
        · have h1 : p ∉ handed j := fun hh => hr (h.handed_ready hh)
          by_cases hj : j = i
          · simp [hx, hj]
          · simp [hx, hj, h1, hb j, Ne.symm hj]
        · rw [if_neg hx, h.pending_iff]
          by_cases hj : j = i <;> simp [hx, hj] }

/-- **An uncontended acquire**: the caller returns at once. -/
theorem acquire_free (h : LockInv H handed a) (hu : (a.mlocks i).status ≠ .locked)
    (hr : p ∉ a.queue .ready) (hb : ∀ i, p ∉ a.queue (.block i)) :
    LockInv ((H.acquireCalled p i).acquireReturned p i) handed
      (a.withCore (·.setLockStatus i .locked)) := by
  obtain ⟨hin, hh, hq⟩ := h.of_not_locked hu
  have hm : ∀ j, ((a.withCore (·.setLockStatus i .locked)).mlocks j).key = (a.mlocks j).key := by
    intro j
    change (Function.update a.mlocks i { a.mlocks i with status := .locked } j).key = _
    rw [Function.update_apply]
    split
    · rename_i hj; rw [hj]
    · rfl
  have hs : ∀ j, ((a.withCore (·.setLockStatus i .locked)).mlocks j).status =
      if j = i then .locked else (a.mlocks j).status := by
    intro j
    change (Function.update a.mlocks i { a.mlocks i with status := .locked } j).status = _
    rw [Function.update_apply]
    split <;> rfl
  exact
    { handle_key := fun hp => by rw [hm]; exact h.handle_key hp
      calls_eq := fun j => by
        have h1 := h.calls_eq j
        simp only [LockHist.acquireCalled, LockHist.acquireReturned, Function.update_apply]
        split
        · rename_i hj
          rw [hj, hh, hq] at h1
          change _ = _ ++ (handed j ++ a.queue (.block j))
          rw [hj, hh, hq, h1]; simp
        · exact h1
      owner := fun j => by
        rw [hs]
        simp only [LockHist.acquireCalled, LockHist.acquireReturned, Function.update_apply]
        by_cases hj : j = i
        · simp [hj, hin, hh]
        · simp only [if_neg hj]; exact h.owner j
      handed_ready := h.handed_ready
      waiting_locked := fun {j} hj => by
        rw [hs]
        split
        · rfl
        · exact h.waiting_locked hj
      pending_iff := fun {x j} => by
        simp only [LockHist.acquireCalled, LockHist.acquireReturned, Function.update_apply]
        by_cases hx : x = p
        · have h1 : p ∉ handed j := fun hh => hr (h.handed_ready hh)
          have h2 : p ∉ (a.withCore (·.setLockStatus i .locked)).queue (.block j) := hb j
          simp [hx, h1, h2]
        · rw [if_neg hx, if_neg hx]; exact h.pending_iff }

/-- **A release that nobody waits for**: the lock is free. -/
theorem release_free (h : LockInv H handed a) (hp : p ∈ H.inside i) (hq : a.queue (.block i) = []) :
    LockInv (H.releaseCalled p i) handed (a.withCore (·.spinLockRelease i)) := by
  obtain ⟨hin, hh, -⟩ := h.of_mem_inside hp
  have hm : ∀ j, ((a.withCore (·.spinLockRelease i)).mlocks j).key = (a.mlocks j).key := by
    intro j
    change (Function.update a.mlocks i { a.mlocks i with status := .unlocked } j).key = _
    rw [Function.update_apply]
    split
    · rename_i hj; rw [hj]
    · rfl
  have hs : ∀ j, ((a.withCore (·.spinLockRelease i)).mlocks j).status =
      if j = i then .unlocked else (a.mlocks j).status := by
    intro j
    change (Function.update a.mlocks i { a.mlocks i with status := .unlocked } j).status = _
    rw [Function.update_apply]
    split <;> rfl
  exact
    { handle_key := fun hp => by rw [hm]; exact h.handle_key hp
      calls_eq := h.calls_eq
      owner := fun j => by
        rw [hs]
        simp only [LockHist.releaseCalled, Function.update_apply]
        by_cases hj : j = i
        · simp [hj, hin, hh]
        · simp only [if_neg hj]; exact h.owner j
      handed_ready := h.handed_ready
      waiting_locked := fun {j} hj => by
        have hne : j ≠ i := fun e => hj (e ▸ hq)
        rw [hs, if_neg hne]
        exact h.waiting_locked hj
      pending_iff := h.pending_iff }

/-- **A release that somebody waits for**: the lock is handed to the first waiting task. -/
theorem release_handover (h : LockInv H handed a) (hw : a.Wf) (hp : p ∈ H.inside i) {x : PcbPtr}
    {rest : List PcbPtr} (hq : a.queue (.block i) = x :: rest) :
    LockInv (H.releaseCalled p i) (Function.update handed i [x]) (a.unblock x) := by
  obtain ⟨hin, hh, hl⟩ := h.of_mem_inside hp
  have hx : x ∈ a.queue (.block i) := by rw [hq]; exact List.mem_cons_self
  have hxr : x ∉ a.queue .ready := fun hr => absurd (hw.disjoint hr hx) (by simp)
  have hnd := hw.nodup (.block i)
  rw [hq] at hnd
  have hb : ∀ j, (a.unblock x).queue (.block j) = if j = i then rest else a.queue (.block j) := by
    intro j
    rw [Sched.unblock_queue]
    split
    · rename_i hj
      change (a.queue (.block j)).filter (· ≠ x) = rest
      rw [hj, hq, Sched.filter_cons_self hnd]
    · rename_i hj
      refine Sched.enqueue_queue_of_ne (by simp) fun hxj => ?_
      exact hj (by simpa using hw.disjoint hxj hx)
  have hr : (a.unblock x).queue .ready = a.queue .ready ++ [x] := Sched.enqueue_queue_self hxr
  exact
    { handle_key := h.handle_key
      calls_eq := fun j => by
        rw [hb, Function.update_apply]
        change H.calls j = H.returns j ++ _
        rw [h.calls_eq j]
        split
        · rename_i hj; rw [hj, hh, hq]; rfl
        · rfl
      owner := fun j => by
        change ((H.releaseCalled p i).inside j ++ _).length =
          if (a.mlocks j).status = .locked then 1 else 0
        simp only [LockHist.releaseCalled, Function.update_apply]
        by_cases hj : j = i
        · simp [hj, hin, hl]
        · simp only [if_neg hj]; exact h.owner j
      handed_ready := fun {j y} hy => by
        rw [hr, List.mem_append, List.mem_singleton]
        rw [Function.update_apply] at hy
        split at hy
        · exact Or.inr (List.mem_singleton.1 hy)
        · exact Or.inl (h.handed_ready hy)
      waiting_locked := fun {j} hj => by
        change (a.mlocks j).status = .locked
        rw [hb] at hj
        split at hj
        · rename_i e; rw [e]; exact hl
        · exact h.waiting_locked hj
      pending_iff := fun {y j} => by
        change H.pending y = some j ↔ _
        rw [hb, Function.update_apply, h.pending_iff]
        split
        · rename_i hj; rw [hj, hh, hq]; simp
        · rfl }

/-! `do_mutex_lock_init` changes the key of a free slot, and nothing else. -/

theorem lockInit_status (c : Core) (key : ℤ) (j : Fin LOCK_NUM) :
    ((c.doMutexLockInit key).2.mlocks j).status = (c.mlocks j).status := by
  simp only [Core.doMutexLockInit]
  split
  · rfl
  · split
    · simp only [Core.setLockKey, Function.update_apply]
      split
      · rename_i hj; rw [hj]
      · rfl
    · rfl

theorem lockInit_key (c : Core) (key : ℤ) {j : Fin LOCK_NUM} (hj : (c.mlocks j).key ≠ -1) :
    ((c.doMutexLockInit key).2.mlocks j).key = (c.mlocks j).key := by
  simp only [Core.doMutexLockInit]
  split
  · rfl
  · split
    · rename_i i hi
      have hik : (c.mlocks i).key = -1 := by simpa using List.find?_some hi
      have hne : j ≠ i := fun e => hj (e ▸ hik)
      simp only [Core.setLockKey, Function.update_apply, if_neg hne]
    · rfl

theorem mlockIndex_natCast (j : Fin LOCK_NUM) : mlockIndex ((j : ℕ) : ℤ) = some j := by
  rw [mlockIndex, dif_pos ⟨by omega, by omega⟩]
  simp

/-- The lock a handle stands for has the key it was asked for. -/
theorem lockInit_handle (c : Core) (key : ℤ) {j : Fin LOCK_NUM}
    (hj : mlockIndex (c.doMutexLockInit key).1 = some j) :
    ((c.doMutexLockInit key).2.mlocks j).key = key := by
  rw [Core.doMutexLockInit] at hj ⊢
  cases hi : (List.finRange LOCK_NUM).find? fun i => (c.mlocks i).key = key with
  | some i =>
    have hik : (c.mlocks i).key = key := by simpa using List.find?_some hi
    rw [hi] at hj
    simp only [mlockIndex_natCast, Option.some.injEq] at hj
    exact hj ▸ hik
  | none =>
    rw [hi] at hj
    cases hf : (List.finRange LOCK_NUM).find? fun i => (c.mlocks i).key = -1 with
    | some i =>
      simp only [hf, mlockIndex_natCast, Option.some.injEq] at hj
      simp only [← hj, Core.setLockKey, Function.update_self]
    | none => simp [hf, mlockIndex] at hj

theorem lockInit (h : LockInv H handed a) (p : PcbPtr) (key : ℤ) :
    LockInv (H.call a.toCore p (.lockInit key)) handed
      (a.withCore fun c => (c.doMutexLockInit key).2) := by
  have hbase : LockInv H handed (a.withCore fun c => (c.doMutexLockInit key).2) :=
    { handle_key := fun {x j} hp => by
        have hk := h.handle_key hp
        change ((a.toCore.doMutexLockInit key).2.mlocks j).key ≠ -1
        rwa [lockInit_key _ _ hk]
      calls_eq := h.calls_eq
      owner := fun j => by
        change _ = if ((a.toCore.doMutexLockInit key).2.mlocks j).status = .locked then 1 else 0
        rw [lockInit_status]; exact h.owner j
      handed_ready := h.handed_ready
      waiting_locked := fun {j} hj => by
        change ((a.toCore.doMutexLockInit key).2.mlocks j).status = .locked
        rw [lockInit_status]; exact h.waiting_locked hj
      pending_iff := h.pending_iff }
  simp only [LockHist.call]
  split
  · rename_i i hi
    split
    · exact hbase
    · rename_i hkey
      refine { hbase with handle_key := fun {x j} hx => ?_ }
      rcases List.mem_cons.1 hx with hx | hx
      · obtain ⟨rfl, rfl⟩ := Prod.mk.inj hx
        change ((a.toCore.doMutexLockInit key).2.mlocks j).key ≠ -1
        rw [lockInit_handle _ _ hi]; exact hkey
      · exact hbase.handle_key hx
  · exact hbase

/-- **Dispatching a task**: if a lock was handed to it, it returns from its acquire. -/
theorem dispatchTo (h : LockInv H handed a) (hw : a.Wf) (hx : p ∈ a.queue .ready) :
    ∃ handed', LockInv (H.resume p) handed' (a.dispatchTo p) := by
  have hb : ∀ j, (a.dispatchTo p).queue (.block j) = a.queue (.block j) := fun j =>
    Sched.filter_of_not_mem fun hj => absurd (hw.disjoint hx hj) (by simp)
  have hready : ∀ {y}, y ∈ a.queue .ready → y ≠ p → y ∈ (a.dispatchTo p).queue .ready :=
    fun hy hne => Sched.Wf.mem_dispatchTo.2 ⟨hy, hne⟩
  cases hp : H.pending p with
  | none =>
    refine ⟨handed, ?_⟩
    rw [resume_of_none hp]
    refine { h with
      calls_eq := fun j => by rw [hb]; exact h.calls_eq j
      handed_ready := fun {j y} hy => hready (h.handed_ready hy) fun e => ?_
      waiting_locked := fun {j} hj => h.waiting_locked (hb j ▸ hj)
      pending_iff := fun {y j} => by rw [hb]; exact h.pending_iff }
    have h1 := h.pending_iff.2 (Or.inl hy)
    rw [e, hp] at h1
    contradiction
  | some i =>
    have hh : p ∈ handed i := (h.pending_iff.1 hp).resolve_right fun hj =>
      absurd (hw.disjoint hx hj) (by simp)
    obtain ⟨hin, hhi, hl⟩ := h.of_mem_handed hh
    have hne : ∀ {y j}, y ∈ handed j → j ≠ i → y ≠ p := by
      intro y j hy hj e
      have h1 := h.pending_iff.2 (Or.inl (e ▸ hy))
      rw [hp, Option.some.injEq] at h1
      exact hj h1.symm
    refine ⟨Function.update handed i [], ?_⟩
    have hres : H.resume p = H.acquireReturned p i := by simp only [LockHist.resume, hp]
    rw [hres]
    exact
      { handle_key := h.handle_key
        calls_eq := fun j => by
          rw [hb]
          change H.calls j = _
          simp only [LockHist.acquireReturned, Function.update_apply]
          rw [h.calls_eq j]
          by_cases hj : j = i
          · simp [hj, hhi]
          · simp [hj]
        owner := fun j => by
          change _ = if (a.mlocks j).status = .locked then 1 else 0
          simp only [LockHist.acquireReturned, Function.update_apply]
          by_cases hj : j = i
          · simp [hj, hin, hl]
          · simp only [if_neg hj]; exact h.owner j
        handed_ready := fun {j y} hy => by
          rw [Function.update_apply] at hy
          split at hy
          · simp at hy
          · rename_i hj; exact hready (h.handed_ready hy) (hne hy hj)
        waiting_locked := fun {j} hj => h.waiting_locked (hb j ▸ hj)
        pending_iff := fun {y j} => by
          rw [hb]
          simp only [LockHist.acquireReturned, Function.update_apply]
          by_cases hy : y = p
          · have h1 : p ∉ a.queue (.block j) := fun hj => absurd (hw.disjoint hx hj) (by simp)
            by_cases hj : j = i
            · simp [hy, hj, (hj ▸ h1 : p ∉ a.queue (.block i))]
            · have h2 : p ∉ handed j := fun hm => hne hm hj rfl
              simp [hy, hj, h1, h2]
          · rw [if_neg hy, h.pending_iff]
            by_cases hj : j = i
            · simp [hj, hhi, hy]
            · simp [hj] }

/-! ### Traps -/

theorem checkSleeping (h : LockInv H handed a) (hw : a.Wf) : LockInv H handed a.checkSleeping := by
  refine (Sched.Wf.checkSleeping_induction (P := LockInv H handed) ?_ ?_ hw h).2
  · exact fun b _ hb => hb.of_eq rfl (fun _ => rfl) fun _ hx => hx
  · intro b x hbw hb hx _
    exact hb.unblock fun i hi => absurd (hbw.disjoint hx hi) (by simp)

/-- **`do_scheduler`**, when it is not entered for a lock, or finds somebody to dispatch. -/
theorem doScheduler (h : LockInv H handed a) (hw : a.Wf)
    (hr : a.checkSleeping.queue .ready = [] → ∀ i, a.currentRunning ∉ a.queue (.block i)) :
    ∃ handed', LockInv (H.resume a.doScheduler.currentRunning) handed' a.doScheduler := by
  have hc := h.checkSleeping hw
  have hcw := hw.checkSleeping
  rcases Sched.Wf.schedule_eq a.checkSleeping with ⟨hready, he⟩ | ⟨-, next, rest, hn, he⟩
  · refine ⟨handed, ?_⟩
    rw [Sched.doScheduler, he]
    have hp : H.pending a.checkSleeping.currentRunning = none := by
      refine hc.pending_eq_none (by rw [hready]; simp) fun i => ?_
      rw [(hw.checkSleeping_block i).1, (hw.checkSleeping_block i).2]
      exact hr hready i
    rw [resume_of_none hp]
    exact hc
  · rw [Sched.doScheduler, he]
    obtain ⟨hpw, hpc⟩ := Sched.Wf.preempt_induction (P := LockInv H handed)
      (fun b hbw hb hrun => hb.unblock fun i => hbw.not_queued_of_running hrun _) hcw hc
    exact hpc.dispatchTo hpw (by rw [hn]; exact List.mem_cons_self)

section Calls

variable {b : Sched} {idx : ℤ} (h : LockInv H handed a) (hrdy : a.currentRunning ∉ a.queue .ready)
  (hblk : ∀ i, a.currentRunning ∉ a.queue (.block i))
include h hrdy hblk

/-- An acquire of a lock that is taken. -/
theorem trap_acquire_block (hi : mlockIndex idx = some i) (hb : a.acquireOrBlock i = (b, true))
    (hbw : b.Wf) (hcur : a.currentRunning ≠ .pid0) (hstuck : ¬ b.checkSleeping.Stuck) :
    ∃ handed', LockInv (H.after a.toCore (.lockAcquire idx) b.doScheduler.toCore) handed'
      b.doScheduler := by
  obtain ⟨hk, hs, rfl⟩ := Sched.acquireOrBlock_eq_true hb
  have hcall : H.call a.toCore a.currentRunning (.lockAcquire idx) =
      H.acquireCalled a.currentRunning i := by simp only [LockHist.call, hi]
  rw [LockHist.after, hcall]
  refine (h.acquire_block hs hrdy hblk).doScheduler hbw fun hr => ?_
  -- the caller is `BLOCKED`, so if nobody were ready it would be stuck
  refine absurd ⟨hr, ?_, Or.inl ?_⟩ hstuck
  · rw [(hbw.checkSleeping_block i).2]
    exact hcur
  · refine hbw.checkSleeping.queued_status (q := .block i) ?_
    rw [(hbw.checkSleeping_block i).1, (hbw.checkSleeping_block i).2]
    exact Sched.Wf.mem_enqueue.2 (Or.inr ⟨rfl, rfl⟩)

/-- An acquire of a lock that is free. -/
theorem trap_acquire_free (hperm : H.Permits a.currentRunning (.lockAcquire idx))
    (hi : mlockIndex idx = some i) (hfree : (a.acquireOrBlock i).2 = false) :
    ∃ handed', LockInv (H.after a.toCore (.lockAcquire idx) (a.acquireOrBlock i).1.toCore) handed'
      (a.acquireOrBlock i).1 := by
  obtain ⟨i', hi', hhi⟩ := hperm
  obtain rfl : i' = i := Option.some_inj.1 (hi'.symm.trans hi)
  have hk := h.handle_key hhi
  cases hs : (a.mlocks i').status with
  | locked => rw [Sched.acquireOrBlock_held hk hs] at hfree; contradiction
  | unlocked =>
    rw [Sched.acquireOrBlock_free hk hs]
    refine ⟨handed, ?_⟩
    have hres : (H.acquireCalled a.currentRunning i').resume a.currentRunning =
        (H.acquireCalled a.currentRunning i').acquireReturned a.currentRunning i' := by
      simp [LockHist.resume, LockHist.acquireCalled]
    have haft : H.after a.toCore (.lockAcquire idx)
        (a.withCore (·.setLockStatus i' .locked)).toCore =
        (H.acquireCalled a.currentRunning i').acquireReturned a.currentRunning i' := by
      rw [← hres]; simp only [LockHist.after, LockHist.call, hi]; rfl
    rw [haft]
    exact h.acquire_free (by rw [hs]; simp) hrdy hblk

theorem trap_release (hw : a.Wf) (hperm : H.Permits a.currentRunning (.lockRelease idx))
    (hi : mlockIndex idx = some i) :
    ∃ handed', LockInv (H.after a.toCore (.lockRelease idx) (a.release i).toCore) handed'
      (a.release i) := by
  obtain ⟨i', hi', hhi, hin⟩ := hperm
  obtain rfl : i' = i := Option.some_inj.1 (hi'.symm.trans hi)
  have hk := h.handle_key hhi
  have haft : H.after a.toCore (.lockRelease idx) (a.release i').toCore =
      H.releaseCalled a.currentRunning i' := by
    simp only [LockHist.after, LockHist.call, hi, Sched.Wf.release_current]
    exact resume_of_none (h.pending_eq_none hrdy hblk)
  rw [haft]
  cases hq : a.queue (.block i') with
  | nil => rw [Sched.release_free hk hq]; exact ⟨handed, h.release_free hin hq⟩
  | cons x rest => rw [Sched.release_held hk hq]; exact ⟨_, h.release_handover hw hin hq⟩

theorem trap_lockInit (key : ℤ) :
    LockInv (H.after a.toCore (.lockInit key) (a.toCore.doMutexLockInit key).2) handed
      (a.withCore fun c => (c.doMutexLockInit key).2) := by
  have h' := h.lockInit a.currentRunning key
  obtain ⟨m, hm⟩ := Sched.Wf.lockInit_core a.toCore key
  have hc : (a.toCore.doMutexLockInit key).2.currentRunning = a.currentRunning := by rw [hm]
  have hp : (H.call a.toCore a.currentRunning (.lockInit key)).pending a.currentRunning = none :=
    h'.pending_eq_none hrdy hblk
  rw [LockHist.after, hc, resume_of_none hp]
  exact h'

/-- The task that `thread_yield` gives the CPU to is in no lock call either. -/
theorem trap_threadYield (hw : a.Wf) (hrun : a.status a.currentRunning = .running) :
    LockInv (H.after a.toCore .threadYield a.threadYield.toCore) handed a.threadYield := by
  obtain ⟨next, rest, -, -, hnext, he⟩ := hw.threadYield_eq hrun
  have hpn : H.pending next = none := by
    rcases hnext with rfl | ⟨hn, -⟩
    · exact h.pending_eq_none hrdy hblk
    · exact h.pending_eq_none (hn _) fun i => hn _
  have hc : a.threadYield.currentRunning = next := by rw [he]; rfl
  have haft : H.after a.toCore .threadYield a.threadYield.toCore = H := by
    change H.resume a.threadYield.currentRunning = H
    rw [hc]; exact resume_of_none hpn
  rw [haft, he]
  exact h.of_eq rfl (fun _ => rfl) fun _ hx => hx

end Calls

/-- **Every trap keeps the invariant of the locks**, in the runs of this module. -/
theorem trap (h : LockInv H handed a) (hw : a.Wf) (hset : a.Settled)
    (hop : op = .timer ∨ a.currentRunning ≠ .pid0)
    (hneeds : Sched.Wf.NeedsRunning op → a.status a.currentRunning = .running)
    (hperm : H.Permits a.currentRunning op)
    (hacq : ∀ idx b, op = .lockAcquire idx → a.schedulerEntry op = some b →
      ¬ b.checkSleeping.Stuck)
    (ht : a.trap op = some a') :
    ∃ handed', LockInv (H.after a.toCore op a'.toCore) handed' a' := by
  have hblk : ∀ i, a.currentRunning ∉ a.queue (.block i) := fun i => hset.not_mem hw (by simp)
  have hrdy : a.currentRunning ∉ a.queue .ready := hset.not_mem hw (by simp)
  have hact : op = .timer ∨ a.Active a.currentRunning := hop.imp_right hset.active
  cases hb : a.schedulerEntry op with
  | some b =>
    have hbw := hw.schedulerEntry hact hneeds hb
    rw [Sched.Wf.trap_of_schedulerEntry hb] at ht
    rw [← Option.some_inj.1 ht]
    rcases Sched.schedulerEntry_cases hb with ⟨rfl, rfl⟩ | ⟨rfl, rfl⟩ | ⟨s, rfl, rfl⟩ |
      ⟨idx, i, rfl, hi, hbl⟩ | ⟨rfl, rfl⟩
    · have ht : LockInv H handed (a.withCore fun c => c.getTicks.2) :=
        h.of_eq rfl (fun _ => rfl) fun _ hx => hx
      exact ht.doScheduler hbw fun _ => hblk
    · exact h.doScheduler hw fun _ => hblk
    · refine (h.sleepCurrent hrdy hblk s).doScheduler hbw fun _ i hi => ?_
      rcases Sched.Wf.mem_enqueue.1 (Sched.sleepCurrent_queue s _ ▸ hi) with ⟨hi, -⟩ | ⟨e, -⟩
      · exact hblk i hi
      · contradiction
    · exact h.trap_acquire_block hrdy hblk hi hbl hbw (hop.resolve_left (by simp))
        (hacq idx b rfl hb)
    · have he : LockInv H handed a.exitCurrent := h.of_eq rfl (fun _ => rfl) fun _ hx => hx
      exact he.doScheduler hbw fun _ => hblk
  | none =>
    rcases Sched.Wf.trap_of_schedulerEntry_none hb ht with ⟨key, rfl, rfl⟩ |
      ⟨idx, i, rfl, hi, hfree, rfl⟩ | ⟨idx, i, rfl, hi, rfl⟩ | ⟨rfl, rfl⟩ | ⟨rfl, rfl⟩
    · exact ⟨handed, h.trap_lockInit hrdy hblk key⟩
    · exact h.trap_acquire_free hrdy hblk hperm hi hfree
    · exact h.trap_release hrdy hblk hw hperm hi
    · refine ⟨handed, ?_⟩
      have haft : H.after a.toCore .threadCreate a.threadCreate.toCore = H :=
        resume_of_none (h.pending_eq_none hrdy hblk)
      rw [haft]
      exact h.of_eq rfl (fun _ => rfl) fun _ hx => hx
    · exact ⟨handed, h.trap_threadYield hrdy hblk hw (hneeds (Or.inr (Or.inr rfl)))⟩

end LockInv

/-! ## Executing lock calls -/

instance (op : Op) : Decidable op.IsBasic :=
  match op with
  | .exit | .threadCreate | .threadYield => isFalse id
  | .timer | .yield | .sleep _ | .lockInit _ | .lockAcquire _ | .lockRelease _ => isTrue trivial

instance (H : LockHist) (p : PcbPtr) (op : Op) : Decidable (H.Permits p op) :=
  match op with
  | .lockAcquire idx => inferInstanceAs (Decidable (∃ i, mlockIndex idx = some i ∧ _))
  | .lockRelease idx => inferInstanceAs (Decidable (∃ i, mlockIndex idx = some i ∧ _ ∧ _))
  | .timer | .yield | .sleep _ | .lockInit _ | .exit | .threadCreate | .threadYield =>
    isTrue trivial

/-- The traps of tasks that take timer interrupts, yield, sleep, and use locks as they should. -/
def LockCalls (tr : List Transition) (k : Kernel) (op : Op) : Prop :=
  op.IsBasic ∧ (lockHist tr).Permits k.currentRunning op

/-- Execute such traps on the abstract scheduler, if `strict` only as long as none stalls. -/
def LockHist.exec (strict : Bool) : List Op → LockHist → Sched → Option (LockHist × Sched)
  | [], H, a => some (H, a)
  | op :: ops, H, a =>
    if (op = .timer ∨ a.status a.currentRunning = .running ∨ a.currentRunning ∈ a.queue .sleep) ∧
        op.IsBasic ∧ H.Permits a.currentRunning op ∧ (strict = true → a.stalls op = false) then
      (a.trap op).bind fun a' => exec strict ops (H.after a.toCore op a'.toCore) a'
    else none

/-- One trap more, with the history of the locks. -/
theorem Run.snoc {ok : List Transition → Kernel → Op → Prop} {k₀ k : Kernel} {tr : List Transition}
    {a a' : Sched} {op : Op} (h : Run ok k₀ tr k) (hr : Refines k a) (hw : a.Wf)
    (hop : op = .timer ∨ a.currentRunning ≠ .pid0) (hact : op = .timer ∨ a.Active a.currentRunning)
    (hneeds : Sched.Wf.NeedsRunning op → a.status a.currentRunning = .running)
    (hok : ok tr k op) (ht : a.trap op = some a') :
    ∃ tr' k', Run ok k₀ tr' k' ∧ Refines k' a' ∧ a'.Wf ∧
      lockHist tr' = (lockHist tr).after a.toCore op a'.toCore := by
  obtain ⟨k', hs, hr', hw'⟩ := hr.step hw hop hact hneeds ht
  refine ⟨_, k', Run.step h hok hs, hr', hw', ?_⟩
  rw [lockHist_concat, hr.core, hr'.core]

theorem Run.lockExec_append {n timeBase : ℕ} {clock : ℕ → ℕ} {strict : Bool} (ops : List Op) :
    ∀ {tr : List Transition} {k : Kernel} {a : Sched} {s : LockHist × Sched},
      Run (fun tr k op => LockCalls tr k op ∧ (strict = true → ¬ k.Stalls op))
        (Kernel.boot n timeBase clock) tr k → Refines k a → a.Wf →
      (lockHist tr).exec strict ops a = some s →
      ∃ tr' k', Run (fun tr k op => LockCalls tr k op ∧ (strict = true → ¬ k.Stalls op))
        (Kernel.boot n timeBase clock) tr' k' ∧ Refines k' s.2 ∧ lockHist tr' = s.1 := by
  induction ops with
  | nil =>
    intro tr k a s h hr _ he
    rw [LockHist.exec, Option.some.injEq] at he
    exact ⟨tr, k, h, he ▸ hr, he ▸ rfl⟩
  | cons op ops ih =>
    intro tr k a s h hr hw he
    rw [LockHist.exec] at he
    split at he
    · rename_i hg
      obtain ⟨hcur, hbasic, hperm, hstrict⟩ := hg
      obtain ⟨a₁, ht, he⟩ := Option.bind_eq_some_iff.1 he
      have hact : op = .timer ∨ a.Active a.currentRunning :=
        hcur.imp_right (Or.imp (fun hc => ⟨rfl, hc⟩) fun hq => ⟨_, hq⟩)
      have hop : op = .timer ∨ a.currentRunning ≠ .pid0 := hact.imp_right fun ha e =>
        hw.not_created_boot (e ▸ hw.created_of_active ha)
      have hneeds : Sched.Wf.NeedsRunning op → a.status a.currentRunning = .running := fun hn =>
        (Sched.of_isBasic hbasic hn).elim
      have hok : LockCalls tr k op ∧ (strict = true → ¬ k.Stalls op) := by
        refine ⟨⟨hbasic, by rwa [congrArg Core.currentRunning hr.core]⟩, fun hst hs => ?_⟩
        obtain ⟨b, hb, hbs⟩ := (hr.stalls_iff hw hact hneeds).1 hs
        have h1 := hstrict hst
        simp only [Sched.stalls, hb, decide_eq_false_iff_not] at h1
        exact h1 hbs
      obtain ⟨tr₁, k₁, h₁, hr₁, hw₁, hH⟩ := h.snoc hr hw hop hact hneeds hok ht
      exact ih h₁ hr₁ hw₁ (hH ▸ he)
    · contradiction

/-- What the abstract scheduler can execute, the program can run, with the same history. -/
theorem Run.of_lockExec (n timeBase : ℕ) (clock : ℕ → ℕ) (strict : Bool) (ops : List Op)
    (P : LockHist → Bool)
    (h : (LockHist.exec strict ops {} (Sched.boot n timeBase clock)).any (fun s => P s.1) = true) :
    ∃ tr k, Run (fun tr k op => LockCalls tr k op ∧ (strict = true → ¬ k.Stalls op))
      (Kernel.boot n timeBase clock) tr k ∧ P (lockHist tr) = true := by
  obtain ⟨s, hs, hP⟩ := (Option.any_eq_true _ _).1 h
  obtain ⟨tr, k, hrun, -, hH⟩ :=
    Run.lockExec_append ops Run.refl Refines.boot Sched.Wf.boot hs
  exact ⟨tr, k, hrun, hH ▸ hP⟩

/-! ## Mutual exclusion -/

/-- At most one task is between a return from an acquire of a lock and its next release. -/
def MutuallyExclusive (tr : List Transition) : Prop :=
  ∀ i, ∀ p ∈ (lockHist tr).inside i, ∀ p' ∈ (lockHist tr).inside i, p = p'

theorem LockInv.mutuallyExclusive {tr : List Transition} {handed : Fin LOCK_NUM → List PcbPtr}
    {a : Sched} (h : LockInv (lockHist tr) handed a) : MutuallyExclusive tr := by
  intro i p hp p' hp'
  rw [(h.of_mem_inside hp).1, List.mem_singleton] at hp'
  exact hp'.symm

/-- A task that has to wait for a lock finds somebody to hand the CPU to. -/
def AcquireDispatches (k : Kernel) (op : Op) : Prop := ∀ idx, op = .lockAcquire idx → ¬ k.Stalls op

/-- The state of a run of lock calls in which every waiting task is really suspended. -/
theorem Run.lockInv {n timeBase : ℕ} {clock : ℕ → ℕ} {tr : List Transition} {k : Kernel}
    (h : Run (fun tr k op => LockCalls tr k op ∧ AcquireDispatches k op)
      (Kernel.boot n timeBase clock) tr k) :
    ∃ a handed, Refines k a ∧ a.Wf ∧ a.Settled ∧ LockInv (lockHist tr) handed a := by
  induction h with
  | refl => exact ⟨_, _, Refines.boot, Sched.Wf.boot, Or.inl rfl, LockInv.boot⟩
  | @step tr k k' op _ ho hs ih =>
    obtain ⟨a, handed, hr, hw, hset, hinv⟩ := ih
    obtain ⟨hop, fuel, hk'⟩ := hs
    obtain ⟨⟨hbasic, hperm⟩, hdisp⟩ := ho
    rw [congrArg Core.currentRunning hr.core] at hop hperm
    have hact : op = .timer ∨ a.Active a.currentRunning := hop.imp_right hset.active
    have hneeds : Sched.Wf.NeedsRunning op → a.status a.currentRunning = .running := fun hn =>
      (Sched.of_isBasic hbasic hn).elim
    have hacq : ∀ idx b, op = .lockAcquire idx → a.schedulerEntry op = some b →
        ¬ b.checkSleeping.Stuck := fun idx b e hb hs =>
      hdisp idx e ((hr.stalls_iff hw hact hneeds).2 ⟨b, hb, hs⟩)
    cases ht : a.trap op with
    | none => rw [Refines.trap_none ht] at hk'; contradiction
    | some a' =>
      obtain ⟨handed', hinv'⟩ := hinv.trap hw hset hop hneeds hperm hacq ht
      have hr' : Refines k' a' := (hr.trap hw hact hneeds ht).refines hk'
      refine ⟨a', handed', hr', hw.trap hact hneeds ht,
        Sched.trap_settled hw hset hop hbasic hacq ht, ?_⟩
      rw [lockHist_concat, hr.core, hr'.core]
      exact hinv'

/-- **Mutual exclusion**, in every run of lock calls in which no task that has to wait for a lock
finds the ready queue empty. -/
theorem Run.mutual_exclusion_of_dispatch {n timeBase : ℕ} {clock : ℕ → ℕ} {tr : List Transition}
    {k : Kernel} (h : Run (fun tr k op => LockCalls tr k op ∧ AcquireDispatches k op)
      (Kernel.boot n timeBase clock) tr k) : MutuallyExclusive tr := by
  obtain ⟨a, handed, -, -, -, hinv⟩ := Run.lockInv h
  exact hinv.mutuallyExclusive

/-- A contended lock is handed over, and its holder is the only task inside. -/
theorem Run.mutual_exclusion_of_dispatch_two_tasks : ∃ tr k,
    Run (fun tr k op => LockCalls tr k op ∧ AcquireDispatches k op)
      (Kernel.boot 2 1 fun _ => 0) tr k ∧
    (lockHist tr).inside 0 = [.pcb 1] ∧ MutuallyExclusive tr := by
  obtain ⟨tr, k, hrun, hin⟩ := Run.of_lockExec 2 1 (fun _ => 0) true
    [.timer, .lockInit 1, .lockAcquire 0, .yield, .lockInit 1, .lockAcquire 0, .lockRelease 0,
      .yield] (fun H => H.inside 0 = [.pcb 1]) (by decide)
  have hrun' : Run (fun tr k op => LockCalls tr k op ∧ AcquireDispatches k op) _ tr k :=
    hrun.mono fun _ _ _ h => ⟨h.1, fun _ _ => h.2 rfl⟩
  exact ⟨tr, k, hrun', by simpa using hin, Run.mutual_exclusion_of_dispatch hrun'⟩

/-- **Mutual exclusion fails** in a run of two tasks.  The first takes a lock and sleeps; the second
has to wait for the lock when nobody is ready, and `do_scheduler` returns to it. -/
theorem Run.mutual_exclusion_fails : ¬ ∀ (n timeBase : ℕ) (clock : ℕ → ℕ) (tr : List Transition)
    (k : Kernel), Monotone clock → Run LockCalls (Kernel.boot n timeBase clock) tr k →
    MutuallyExclusive tr := by
  intro h
  obtain ⟨tr, k, hrun, hin⟩ := Run.of_lockExec 2 1 (fun _ => 0) false
    [.timer, .lockInit 1, .lockAcquire 0, .sleep 10, .lockInit 1, .lockAcquire 0]
    (fun H => H.inside 0 = [.pcb 0, .pcb 1]) (by decide)
  have hin' : (lockHist tr).inside 0 = [.pcb 0, .pcb 1] := by simpa using hin
  have hme := h 2 1 _ tr k monotone_const (hrun.mono fun _ _ _ h => h.1) 0
  rw [hin'] at hme
  exact absurd (hme (.pcb 0) (by simp) (.pcb 1) (by simp)) (by simp)

end UcasOs
