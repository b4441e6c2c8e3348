import UcasOs.Kernel.Lock

/-!
# The order in which locks are handed over

In an unstalled run whose tasks use the locks as they should, locks are first come, first served:
`Run.fifo_handover`.  The statement is about the program's own lists, which are determined by their
heads (`Refines.hasQueue_iff`), so that it says what each release and each other trap does to them.
-/

set_option autoImplicit false

namespace UcasOs

/-- A release with waiting tasks moves the one that has waited longest to the end of the ready
queue, keeps the lock `LOCKED`, and touches no other queue. -/
def ReleaseHandsOver (t : Transition) : Prop :=
  ∀ idx i p rest ready, t.op = .lockRelease idx → mlockIndex idx = some i →
    t.pre.HasQueue (.block i) (p :: rest) → t.pre.HasQueue .ready ready →
    t.post.HasQueue (.block i) rest ∧ t.post.HasQueue .ready (ready ++ [p]) ∧
      t.post.status p = .ready ∧ (t.post.mlocks i).status = .locked ∧
      ∀ q l, q ≠ .block i → q ≠ .ready → t.pre.HasQueue q l → t.post.HasQueue q l

/-- The tasks waiting for a lock stay the same, except that the current task joins them at the end
by an acquire and the first one leaves by a release. -/
def WaitersLeaveByRelease (t : Transition) : Prop :=
  ∀ i waiting, t.pre.HasQueue (.block i) waiting → ∃ waiting', t.post.HasQueue (.block i) waiting' ∧
    (waiting' = waiting ∨
      (∃ idx, t.op = .lockAcquire idx ∧ mlockIndex idx = some i ∧
        waiting' = waiting ++ [t.pre.currentRunning]) ∨
      ∃ idx p, t.op = .lockRelease idx ∧ mlockIndex idx = some i ∧ waiting = p :: waiting')

namespace Sched

variable {a a' : Sched} {op : Op}

/-- What a release does to the tasks waiting for a lock. -/
theorem release_block (hw : a.Wf) (i j : Fin LOCK_NUM) :
    (a.release j).queue (.block i) = a.queue (.block i) ∨
      j = i ∧ ∃ p, a.queue (.block i) = p :: (a.release j).queue (.block i) := by
  by_cases hk : (a.mlocks j).key = -1
  · left; simp [release, hk]
  · cases hq : a.queue (.block j) with
    | nil => rw [release_free hk hq]; exact Or.inl rfl
    | cons p rest =>
      have hp : p ∈ a.queue (.block j) := by rw [hq]; exact List.mem_cons_self
      have hnd := hw.nodup (.block j)
      rw [hq] at hnd
      rw [release_held hk hq, unblock_queue]
      by_cases hij : i = j
      · refine Or.inr ⟨hij.symm, p, ?_⟩
        have hrest : (a.enqueue .ready p).queue (.block i) = rest := by
          change (a.queue (.block i)).filter (· ≠ p) = rest
          rw [hij, hq, filter_cons_self hnd]
        rw [hrest, hij, hq]
      · refine Or.inl (enqueue_queue_of_ne (by simp) fun hi => hij ?_)
        simpa using hw.disjoint hi hp

/-- **What a trap does to the tasks waiting for a lock.** -/
theorem trap_block (hw : a.Wf) (hc : op = .timer ∨ a.status a.currentRunning = .running)
    (ht : a.trap op = some a') (i : Fin LOCK_NUM) :
    a'.queue (.block i) = a.queue (.block i) ∨
      (∃ idx, op = .lockAcquire idx ∧ mlockIndex idx = some i ∧
        a'.queue (.block i) = a.queue (.block i) ++ [a.currentRunning]) ∨
      ∃ idx p, op = .lockRelease idx ∧ mlockIndex idx = some i ∧
        a.queue (.block i) = p :: a'.queue (.block i) := by
  have hact := active_of_running hc
  cases hb : a.schedulerEntry op with
  | some b =>
    have hbw := hw.schedulerEntry hact (needsRunning_of_running hc) hb
    rw [Wf.trap_of_schedulerEntry hb] at ht
    rw [← Option.some_inj.1 ht, hbw.doScheduler_block]
    rcases schedulerEntry_cases hb with ⟨rfl, rfl⟩ | ⟨rfl, rfl⟩ | ⟨s, rfl, rfl⟩ |
      ⟨idx, j, rfl, hj, hblk⟩ | ⟨rfl, rfl⟩
    · exact Or.inl rfl
    · exact Or.inl rfl
    · have hcur := hw.not_queued_of_running (hc.resolve_left (by simp))
      rw [sleepCurrent_queue]
      exact Or.inl (enqueue_queue_of_ne (by simp) (hcur _))
    · have hcur := hw.not_queued_of_running (hc.resolve_left (by simp))
      obtain ⟨-, -, rfl⟩ := acquireOrBlock_eq_true hblk
      by_cases hij : i = j
      · refine Or.inr (Or.inl ⟨idx, rfl, hij ▸ hj, ?_⟩)
        rw [hij]
        exact enqueue_queue_self (hcur _)
      · exact Or.inl (enqueue_queue_of_ne (by simpa using hij) (hcur _))
    · exact Or.inl rfl
  | none =>
    rcases Wf.trap_of_schedulerEntry_none hb ht with ⟨key, rfl, rfl⟩ | ⟨idx, j, rfl, -, hblk, rfl⟩ |
      ⟨idx, j, rfl, hj, rfl⟩ | ⟨rfl, rfl⟩ | ⟨rfl, rfl⟩
    · exact Or.inl rfl
    · obtain ⟨m, hm⟩ := Wf.acquireOrBlock_of_not_blocked hblk
      rw [hm]; exact Or.inl rfl
    · refine (release_block hw i j).imp_right fun hrel => Or.inr ?_
      obtain ⟨rfl, p, hp⟩ := hrel
      exact ⟨idx, p, rfl, hj, hp⟩
    · exact Or.inl rfl
    · obtain ⟨next, rest, -, -, -, he⟩ := hw.threadYield_eq (hc.resolve_left (by simp))
      rw [he]; exact Or.inl rfl

end Sched

/-! ## Transitions of the program -/

namespace Refines

variable {k k' : Kernel} {a a' : Sched} {op : Op}

theorem waitersLeaveByRelease (hr : Refines k a) (hr' : Refines k' a') (hw : a.Wf)
    (hc : op = .timer ∨ a.status a.currentRunning = .running) (ht : a.trap op = some a') :
    WaitersLeaveByRelease ⟨k, op, k'⟩ := by
  intro i waiting hq
  have hq' : waiting = a.queue (.block i) := hr.hasQueue_iff.1 hq
  have hcur : k.currentRunning = a.currentRunning := congrArg Core.currentRunning hr.core
  refine ⟨a'.queue (.block i), hr'.hasQueue_iff.2 rfl, ?_⟩
  rw [hq']
  change _ ∨ (∃ idx, op = _ ∧ _ ∧ _ = _ ++ [k.currentRunning]) ∨ ∃ idx p, op = _ ∧ _
  rw [hcur]
  exact Sched.trap_block hw hc ht i

theorem releaseHandsOver (hr : Refines k a) (hr' : Refines k' a') (hw : a.Wf)
    {H : LockHist} {handed : Fin LOCK_NUM → List PcbPtr} (hinv : LockInv H handed a)
    (hperm : H.Permits a.currentRunning op) (ht : a.trap op = some a') :
    ReleaseHandsOver ⟨k, op, k'⟩ := by
  intro idx i p rest ready hop hi hq hready
  have hop' : op = .lockRelease idx := hop
  subst hop'
  obtain ⟨i', hi', hhi, -⟩ := hperm
  obtain rfl : i' = i := Option.some_inj.1 (hi'.symm.trans hi)
  have hk := hinv.handle_key hhi
  have hq' : a.queue (.block i') = p :: rest := (hr.hasQueue_iff.1 hq).symm
  have hready' : a.queue .ready = ready := (hr.hasQueue_iff.1 hready).symm
  have hl : (a.mlocks i').status = .locked := hinv.waiting_locked (by rw [hq']; simp)
  have hp : p ∈ a.queue (.block i') := by rw [hq']; exact List.mem_cons_self
  have ha' : a' = a.unblock p := by
    rw [Sched.trap, hi, Option.map_some, Sched.release_held hk hq', Option.some.injEq] at ht
    exact ht.symm
  have hnd := hw.nodup (.block i')
  rw [hq'] at hnd
  have hnr : p ∉ a.queue .ready := fun h => absurd (hw.disjoint h hp) (by simp)
  subst ha'
  refine ⟨hr'.hasQueue_iff.2 ?_, hr'.hasQueue_iff.2 ?_, ?_, ?_, ?_⟩
  · change rest = (a.queue (.block i')).filter (· ≠ p)
    rw [hq', Sched.filter_cons_self hnd]
  · rw [Sched.unblock_queue, Sched.enqueue_queue_self hnr, hready']
  · change k'.status p = .ready
    rw [congrArg Core.status hr'.core, Sched.Wf.unblock_status, if_pos rfl]
  · change (k'.mlocks i').status = .locked
    rw [congrArg Core.mlocks hr'.core]; exact hl
  · intro q l hqb hqr hql
    have hpq : p ∉ a.queue q := fun h => hqb (hw.disjoint h hp)
    refine hr'.hasQueue_iff.2 ?_
    rw [Sched.unblock_queue, Sched.enqueue_queue_of_ne hqr hpq]
    exact hr.hasQueue_iff.1 hql

end Refines

/-- The tasks use locks as they should, and `do_scheduler` does not return to a task that must not
go on. -/
def UnstalledPermitted (tr : List Transition) (k : Kernel) (op : Op) : Prop :=
  ¬ k.Stalls op ∧ (lockHist tr).Permits k.currentRunning op

/-- **Locks are handed over first come, first served.**  The returns from the acquires of a lock
are, in order, the first of its calls; a release moves the longest-waiting task to the ready queue
and keeps the lock `LOCKED`; nobody leaves a block queue otherwise; and nobody waits for a free
lock. -/
theorem Run.fifo_handover {n timeBase : ℕ} {clock : ℕ → ℕ} {tr : List Transition} {k : Kernel}
    (h : Run UnstalledPermitted (Kernel.boot n timeBase clock) tr k) :
    (∀ i, (lockHist tr).returns i <+: (lockHist tr).calls i) ∧
      (∀ t ∈ tr, ReleaseHandsOver t ∧ WaitersLeaveByRelease t) ∧
      ∀ i, ∃ waiting, k.HasQueue (.block i) waiting ∧
        (waiting ≠ [] → (k.mlocks i).status = .locked) := by
  obtain ⟨a, hr, hw, -, ⟨handed, hinv⟩, hall⟩ := Run.induction
    (P := fun tr a => (∃ handed, LockInv (lockHist tr) handed a) ∧
      ∀ t ∈ tr, ReleaseHandsOver t ∧ WaitersLeaveByRelease t)
    (fun _ _ _ h => h.1) ⟨⟨_, LockInv.boot⟩, fun t ht => absurd ht (by simp)⟩ (by
      rintro tr k k' op a a' hr hw hrun ⟨⟨handed, hinv⟩, hall⟩ ⟨hst, hperm⟩ hc ht hr' hw' -
      rw [congrArg Core.currentRunning hr.core] at hperm
      have hact := Sched.active_of_running hc
      have hneeds : Sched.Wf.NeedsRunning op → _ := Sched.needsRunning_of_running hc
      have hacq : ∀ idx b, op = .lockAcquire idx → a.schedulerEntry op = some b →
          ¬ b.checkSleeping.Stuck := fun _ b _ hb hs =>
        hst ((hr.stalls_iff hw hact hneeds).2 ⟨b, hb, hs⟩)
      have hop : op = .timer ∨ a.currentRunning ≠ .pid0 :=
        hc.imp_right fun h => hw.ne_boot_of_running h
      refine ⟨?_, fun t ht' => ?_⟩
      · rw [lockHist_concat, hr.core, hr'.core]
        exact hinv.trap hw hrun.settled hop hneeds hperm hacq ht
      · rcases List.mem_append.1 ht' with ht' | ht'
        · exact hall t ht'
        · rw [List.mem_singleton.1 ht']
          exact ⟨hr.releaseHandsOver hr' hw hinv hperm ht,
            hr.waitersLeaveByRelease hr' hw hc ht⟩) h
  refine ⟨fun i => ⟨_, (hinv.calls_eq i).symm⟩, hall, fun i => ?_⟩
  refine ⟨a.queue (.block i), hr.hasQueue_iff.2 rfl, fun hq => ?_⟩
  rw [congrArg Core.mlocks hr.core]
  exact hinv.waiting_locked hq

/-- Two tasks contend for a lock, and the second gets it from the first. -/
theorem Run.fifo_handover_two_tasks : ∃ tr k,
    Run UnstalledPermitted (Kernel.boot 2 1 fun _ => 0) tr k ∧
    (lockHist tr).calls 0 = [.pcb 0, .pcb 1] ∧
    ∀ i, (lockHist tr).returns i <+: (lockHist tr).calls i := by
  obtain ⟨tr, k, hrun, hcalls⟩ := Run.of_lockExec 2 1 (fun _ => 0) true
    [.timer, .lockInit 1, .lockAcquire 0, .yield, .lockInit 1, .lockAcquire 0, .lockRelease 0,
      .yield] (fun H => H.calls 0 = [.pcb 0, .pcb 1]) (by decide)
  have hrun' : Run UnstalledPermitted _ tr k := hrun.mono fun _ _ _ h => ⟨h.2 rfl, h.1.2⟩
  exact ⟨tr, k, hrun', by simpa using hcalls, (Run.fifo_handover hrun').1⟩

end UcasOs
