import UcasOs.Kernel.Fairness

/-!
# Processes that never wait

Most results about runs ask that `do_scheduler` never returns to a task that must not go on.  The
program does not see to that, but a single process can.

* `Run.unstalled_of_tireless` — **if one process never waits and never exits, no trap stalls**,
  whatever the others do.
* `Run.round_robin` — if no process ever waits or exits, they are given the CPU in strict rotation,
  whatever threads they make and hand their turns to.
-/

set_option autoImplicit false

namespace UcasOs

/-- `op` makes the current task wait or exit. -/
def Core.Suspends (c : Core) : Op → Prop
  | .sleep _ | .exit => True
  | .lockAcquire mlockIdx =>
    ∃ i, mlockIndex mlockIdx = some i ∧ (c.mlocks i).key ≠ -1 ∧ (c.mlocks i).status = .locked
  | _ => False

instance (c : Core) (op : Op) : Decidable (c.Suspends op) :=
  match op with
  | .sleep _ | .exit => isTrue trivial
  | .lockAcquire mlockIdx => inferInstanceAs (Decidable (∃ i, mlockIndex mlockIdx = some i ∧ _ ∧ _))
  | .timer | .yield | .lockInit _ | .lockRelease _ | .threadCreate | .threadYield => isFalse id

/-! ## A process that never waits -/

namespace Sched

variable {a a' b : Sched} {op : Op} {p : PcbPtr} {g : ℕ}

/-- `p` is a thread of process `g`, and is ready or has the CPU. -/
def Serving (g : ℕ) (p : PcbPtr) (a : Sched) : Prop := a.pid p = g ∧ a.Runnable p

/-- `do_scheduler` only ever decides when it is its turn. -/
theorem Serving.doScheduler (h : a.Serving g p) (hw : a.Wf) : a.doScheduler.Serving g p :=
  (Wf.doScheduler_induction (P := Serving g p) (fun _ _ hb => hb)
    (fun _ _ hbw hb hx _ => hb.imp_right fun hp => hp.unblock hbw hx)
    (fun _ _ hb _ => hb.imp_right fun hp => hp.preempt)
    (fun _ x _ _ hb _ hc => hb.imp_right fun hp => hp.dispatchTo hc x) hw h).2

/-- Where somebody is ready or has the CPU, `do_scheduler` is not stuck. -/
theorem Runnable.not_stuck (h : a.Runnable p) (hw : a.Wf) : ¬ a.checkSleeping.Stuck := by
  have hp := (Wf.checkSleeping_induction (P := Runnable p) (fun _ _ hb => hb)
    (fun _ _ hbw hb hx _ => hb.unblock hbw hx) hw h).2
  rintro ⟨hready, -, hst⟩
  rcases hp with hp | ⟨rfl, hr⟩
  · rw [hready] at hp
    contradiction
  · rw [hr] at hst
    rcases hst with hst | hst <;> contradiction

/-- An acquire that blocks suspends its caller. -/
theorem suspends_of_block {idx : ℤ} {i : Fin LOCK_NUM} (hi : mlockIndex idx = some i)
    (h : a.acquireOrBlock i = (b, true)) : a.Suspends (.lockAcquire idx) := by
  obtain ⟨hk, hl, -⟩ := acquireOrBlock_eq_true h
  exact ⟨i, hi, hk, hl⟩

/-- **Up to its call of `do_scheduler`** an operation leaves a thread ready or running, unless it
suspends it. -/
theorem Serving.schedulerEntry (h : a.Serving g p) (hw : a.Wf)
    (hc : op = .timer ∨ a.status a.currentRunning = .running)
    (hok : a.pid a.currentRunning = g → ¬ a.Suspends op) (hb : a.schedulerEntry op = some b) :
    b.Serving g p := by
  obtain ⟨hpid, hp⟩ := h
  -- where the caller is suspended, it is a thread of another process, and `p` is ready
  have ready : a.Suspends op → b.queue .ready = a.queue .ready → b.pid = a.pid →
      b.Serving g p := fun hs hq hpids => by
    have hne : p ≠ a.currentRunning := fun e => hok (e ▸ hpid) hs
    have hready := hp.resolve_right fun he => hne he.1.symm
    exact ⟨by rw [hpids]; exact hpid, Or.inl (by rw [hq]; exact hready)⟩
  rcases schedulerEntry_cases hb with ⟨rfl, rfl⟩ | ⟨rfl, rfl⟩ | ⟨s, rfl, rfl⟩ |
    ⟨idx, i, rfl, hi, hblk⟩ | ⟨rfl, rfl⟩
  · exact ⟨hpid, hp⟩
  · exact ⟨hpid, hp⟩
  · exact ready trivial (schedulerEntry_ready hw hc hb) rfl
  · have hs := suspends_of_block hi hblk
    have hq := schedulerEntry_ready hw hc hb
    obtain ⟨-, -, rfl⟩ := acquireOrBlock_eq_true hblk
    exact ready hs hq rfl
  · exact ready trivial rfl rfl

/-- While a process is not suspended, `do_scheduler` is never stuck. -/
theorem Serving.not_stuck (h : a.Serving g p) (hw : a.Wf)
    (hc : op = .timer ∨ a.status a.currentRunning = .running)
    (hok : a.pid a.currentRunning = g → ¬ a.Suspends op) :
    ∀ b, a.schedulerEntry op = some b → ¬ b.checkSleeping.Stuck := fun _ hb =>
  (h.schedulerEntry hw hc hok hb).2.not_stuck
    (hw.schedulerEntry (active_of_running hc) (needsRunning_of_running hc) hb)

/-- **A process that is not suspended goes on**: after a trap one of its threads is ready or has
the CPU, the one that was or the one it handed its turn to. -/
theorem Serving.trap (h : a.Serving g p) (hw : a.Wf)
    (hc : op = .timer ∨ a.status a.currentRunning = .running)
    (hok : a.pid a.currentRunning = g → ¬ a.Suspends op) (ht : a.trap op = some a') :
    ∃ p', a'.Serving g p' := by
  cases hb : a.schedulerEntry op with
  | some b =>
    have hbw := hw.schedulerEntry (active_of_running hc) (needsRunning_of_running hc) hb
    rw [Wf.trap_of_schedulerEntry hb] at ht
    rw [← Option.some_inj.1 ht]
    exact ⟨p, (h.schedulerEntry hw hc hok hb).doScheduler hbw⟩
  | none =>
    obtain ⟨hpid, hp⟩ := h
    rcases Wf.trap_of_schedulerEntry_none hb ht with ⟨key, rfl, rfl⟩ | ⟨idx, i, rfl, -, hblk, rfl⟩ |
      ⟨idx, i, rfl, hi, rfl⟩ | ⟨rfl, rfl⟩ | ⟨rfl, rfl⟩
    · obtain ⟨m, hm⟩ := Wf.lockInit_core a.toCore key
      refine ⟨p, ?_⟩
      simp only [Serving, Runnable, withCore, hm]
      exact ⟨hpid, hp⟩
    · obtain ⟨m, hm⟩ := Wf.acquireOrBlock_of_not_blocked hblk
      rw [hm]
      exact ⟨p, hpid, hp⟩
    · refine ⟨p, ?_⟩
      rw [release]
      split
      · exact ⟨hpid, hp⟩
      · split
        · exact ⟨hpid, hp⟩
        · rename_i x rest hq
          exact ⟨hpid, hp.unblock hw (q := .block i) (by rw [hq]; exact List.mem_cons_self)⟩
    · have hact : a.Active p := hp.symm.imp (fun he => ⟨he.1.symm, he.2⟩) fun hq => ⟨_, hq⟩
      have hne : p ≠ .tcb a.nthreads := fun e =>
        hw.not_created_fresh (e ▸ hw.created_of_active hact)
      refine ⟨p, ?_, hp.imp_right fun he => ⟨he.1, ?_⟩⟩
      · rw [Wf.threadCreate_pid, if_neg hne]; exact hpid
      · rw [Wf.threadCreate_status, if_neg hne]; exact he.2
    · have hcr := hc.resolve_left (by simp)
      obtain ⟨next, rest, hrot, -, -, he⟩ := hw.threadYield_eq hcr
      rw [he]
      by_cases hpc : p = a.currentRunning
      · have hnext : next ∈ a.ring (a.pid a.currentRunning) := by
          rw [← List.mem_rotate (n := 1), hrot]; exact List.mem_cons_self
        refine ⟨next, ?_, Or.inr ⟨rfl, Wf.yieldCore_status.trans (if_pos rfl)⟩⟩
        rw [← hpid, hpc]
        exact hw.ring_pid hnext
      · exact ⟨p, hpid, Or.inl (hp.resolve_right fun he => hpc he.1.symm)⟩

theorem boot_serving {n timeBase : ℕ} {clock : ℕ → ℕ} (hg : 1 ≤ g ∧ g ≤ n) :
    (Sched.boot n timeBase clock).Serving g (.pcb (g - 1)) := by
  have hlt : g - 1 < n := by omega
  refine ⟨?_, Or.inl (Wf.mem_boot_queue.2 ⟨rfl, g - 1, hlt, rfl⟩)⟩
  rw [Wf.boot_pid hlt]
  omega

end Sched

/-- A run in which no trap stalls is an unstalled run. -/
theorem Run.unstalled_of_forall {ok : List Transition → Kernel → Op → Prop} {k₀ k : Kernel}
    {tr : List Transition} (h : Run ok k₀ tr k) (hst : ∀ t ∈ tr, ¬ t.pre.Stalls t.op) :
    Run Unstalled k₀ tr k := by
  induction h with
  | refl => exact Run.refl
  | step _ _ hs ih =>
    exact Run.step (ih fun t ht => hst t (List.mem_append_left _ ht))
      (hst _ (List.mem_append_right _ (List.mem_singleton_self _))) hs

/-- **A process that never waits keeps the kernel from stalling**: if its threads never sleep, never
exit and never ask for a lock that is taken, then `do_scheduler` never returns to a task that must
not go on, whatever the other processes do. -/
theorem Run.unstalled_of_tireless {n timeBase g : ℕ} {clock : ℕ → ℕ} (hg : 1 ≤ g ∧ g ≤ n)
    {tr : List Transition} {k : Kernel}
    (h : Run (fun _ k op => k.pid k.currentRunning = g → ¬ k.Suspends op)
      (Kernel.boot n timeBase clock) tr k) : Run Unstalled (Kernel.boot n timeBase clock) tr k := by
  obtain ⟨a, -, -, -, -, hst⟩ := Run.induction_from
    (P := fun tr a => (∃ p, a.Serving g p) ∧ ∀ t ∈ tr, ¬ t.pre.Stalls t.op)
    Refines.boot Sched.Wf.boot (Or.inl rfl)
    ⟨⟨_, Sched.boot_serving hg⟩, fun t ht => absurd ht List.not_mem_nil⟩ (by
      rintro tr k op a hr hw - ⟨⟨p, hp⟩, -⟩ ho hc
      rw [hr.core] at ho
      exact hp.not_stuck hw hc ho) (by
      rintro tr k k' op a a' hr hw - ⟨⟨p, hp⟩, hst⟩ ho hc ht hr' hw' -
      rw [hr.core] at ho
      refine ⟨hp.trap hw hc ho ht, fun t ht' => ?_⟩
      rcases List.mem_append.1 ht' with ht' | ht'
      · exact hst t ht'
      · rw [List.mem_singleton.1 ht']
        intro hs
        obtain ⟨b, hb, hstuck⟩ := (hr.stalls_iff hw (Sched.active_of_running hc)
          (Sched.needsRunning_of_running hc)).1 hs
        exact hp.not_stuck hw hc ho b hb hstuck) h
  exact h.unstalled_of_forall hst

/-- The second of two processes goes on while the first sleeps and exits. -/
theorem Run.unstalled_of_tireless_two_tasks : ∃ tr k,
    tr.map Transition.op = [.timer, .lockInit 1, .lockAcquire 0, .sleep 5, .yield, .timer, .timer,
      .threadCreate, .threadYield, .exit, .timer] ∧
    Run Unstalled (Kernel.boot 2 1 fun t => t) tr k := by
  obtain ⟨tr, k, hrun, hops⟩ := Run.of_exec 2 1 (fun t => t)
    (fun op a => decide (a.pid a.currentRunning = 2 → ¬ a.Suspends op))
    (fun k op => k.pid k.currentRunning = 2 → ¬ k.Suspends op)
    (fun k a op hr h => by rw [hr.core]; exact of_decide_eq_true h)
    [.timer, .lockInit 1, .lockAcquire 0, .sleep 5, .yield, .timer, .timer,
      .threadCreate, .threadYield, .exit, .timer] (by decide)
  exact ⟨tr, k, hops, Run.unstalled_of_tireless ⟨by decide, le_rfl⟩ (hrun.mono fun _ _ _ h => h.2)⟩

/-! ## Processes that all never wait -/

namespace Sched

variable {a a' b : Sched} {op : Op} {n j : ℕ}

/-- The processes that wait for their turn, the next one first, and the one that has it last: after
`j` calls of `do_scheduler` they have been rotated `j` times. -/
def Rota (n j : ℕ) (a : Sched) : Prop :=
  if a.currentRunning = .pid0 then j = 0 ∧ (a.queue .ready).map a.pid = List.range' 1 n
  else (a.queue .ready).map a.pid ++ [a.pid a.currentRunning] = (List.range' 1 n).rotate j

/-- Nobody waits for anything but the CPU. -/
def Busy (a : Sched) : Prop := ∀ q, q ≠ .ready → a.queue q = []

theorem rota_iff (hc : a.currentRunning ≠ .pid0) : a.Rota n j ↔
    (a.queue .ready).map a.pid ++ [a.pid a.currentRunning] = (List.range' 1 n).rotate j := by
  rw [Rota, if_neg hc]

theorem Busy.checkSleeping_eq (h : a.Busy) : a.checkSleeping = a := by
  rw [Sched.checkSleeping, h .sleep (by simp)]; rfl

/-- `do_scheduler` takes the first of the ready queue, after the running task has joined it. -/
theorem Rota.schedule (h : a.Rota n j) (hw : a.Wf) (hrun : a.Running) (hn : 0 < n) :
    a.schedule.Rota n (j + 1) := by
  rw [Rota] at h
  rcases Wf.schedule_eq a with ⟨hready, he⟩ | ⟨-, next, rest, hnext, he⟩
  · -- nobody else wants the CPU
    rw [he, Rota]
    rw [hready] at h ⊢
    split at h
    · have hlen := congrArg List.length h.2
      rw [List.map_nil, List.length_range', List.length_nil] at hlen
      omega
    · rename_i hb
      rw [if_neg hb, ← List.rotate_rotate, ← h, List.map_nil, List.nil_append,
        List.rotate_singleton]
  · have hlist : (next :: rest).map a.pid = (List.range' 1 n).rotate j := by
      split at h
      · rename_i hb
        have hst : a.status a.currentRunning ≠ .running := by rw [hb, hw.boot_status]; simp
        rw [preempt, if_neg hst] at hnext
        rw [← hnext, h.1, List.rotate_zero]
        exact h.2
      · rename_i hb
        have hst := hrun.resolve_left hb
        have hq : (a.unblock a.currentRunning).queue .ready =
            a.queue .ready ++ [a.currentRunning] :=
          enqueue_queue_self (hw.not_queued_of_running hst .ready)
        rw [preempt, if_pos hst, hq] at hnext
        rw [← hnext, List.map_append]
        exact h
    have hpw : a.preempt.Wf := (Wf.preempt_induction (P := fun _ => True)
      (fun _ _ _ _ => trivial) hw trivial).1
    have hnd := hpw.nodup .ready
    have hmem : next ∈ a.preempt.queue .ready := by rw [hnext]; exact List.mem_cons_self
    have hne : next ≠ .pid0 := fun e => hpw.not_created_boot (e ▸ hpw.queued_created hmem)
    have hpid : a.preempt.pid = a.pid := by rw [preempt]; split <;> rfl
    have hq : (a.preempt.dispatchTo next).queue .ready = rest := by
      change (a.preempt.queue .ready).filter (· ≠ next) = rest
      rw [hnext] at hnd ⊢
      exact filter_cons_self hnd
    rw [he]
    refine (rota_iff (a := a.preempt.dispatchTo next) hne).2 ?_
    rw [hq, ← List.rotate_rotate, ← hlist, List.map_cons, List.rotate_cons_succ, List.rotate_zero]
    change rest.map a.preempt.pid ++ [a.preempt.pid next] = _
    rw [hpid]

theorem Busy.schedule (h : a.Busy) (hw : a.Wf) : a.schedule.Busy := by
  refine (Wf.schedule_induction (P := Busy) ?_ ?_ hw h).2
  · intro b hbw hb hc q hq
    rw [unblock_queue, enqueue_queue_of_ne hq (hbw.not_queued_of_running hc q)]
    exact hb q hq
  · intro b x rest hbw hb hr hc q hq
    change (b.queue q).filter (· ≠ x) = []
    rw [hb q hq, List.filter_nil]

/-- Data that says nothing about the queues and the processes may change freely. -/
theorem Rota.of_eq (h : a.Rota n j) (hq : a'.queue = a.queue)
    (hc : a'.currentRunning = a.currentRunning)
    (hp : ∀ p, a.Active p → a'.pid p = a.pid p) (hrun : a.Running) : a'.Rota n j := by
  have hready : (a.queue .ready).map a'.pid = (a.queue .ready).map a.pid :=
    List.map_congr_left fun p hp' => hp p (Or.inr ⟨.ready, hp'⟩)
  rw [Rota] at h ⊢
  rw [hq, hc, hready]
  split
  · rename_i hb
    rwa [if_pos hb] at h
  · rename_i hb
    rw [if_neg hb] at h
    rwa [hp _ (Or.inl ⟨rfl, hrun.resolve_left hb⟩)]

/-- **A trap that suspends nobody leaves the rotation alone, or is a turn of it.** -/
theorem Rota.trap (h : a.Rota n j) (hbusy : a.Busy) (hw : a.Wf) (hrun : a.Running) (hn : 0 < n)
    (hc : op = .timer ∨ a.status a.currentRunning = .running) (hok : ¬ a.Suspends op)
    (ht : a.trap op = some a') :
    a'.Rota n (if (a.schedulerEntry op).isSome then j + 1 else j) ∧ a'.Busy := by
  cases hb : a.schedulerEntry op with
  | some b =>
    rw [Wf.trap_of_schedulerEntry hb] at ht
    rw [← Option.some_inj.1 ht]
    have turn : ∀ {b : Sched}, b.Rota n j → b.Busy → b.Wf → b.Running →
        b.doScheduler.Rota n (j + 1) ∧ b.doScheduler.Busy := fun hb hbusy hbw hbrun => by
      rw [doScheduler, hbusy.checkSleeping_eq]
      exact ⟨hb.schedule hbw hbrun hn, hbusy.schedule hbw⟩
    rcases schedulerEntry_cases hb with ⟨rfl, rfl⟩ | ⟨rfl, rfl⟩ | ⟨s, rfl, rfl⟩ |
      ⟨idx, i, rfl, hi, hblk⟩ | ⟨rfl, rfl⟩
    · exact turn (h.of_eq rfl rfl (fun _ _ => rfl) hrun) hbusy (hw.of_eq rfl) hrun
    · exact turn h hbusy hw hrun
    · exact absurd trivial hok
    · exact absurd (suspends_of_block hi hblk) hok
    · exact absurd trivial hok
  | none =>
    change a'.Rota n j ∧ a'.Busy
    rcases Wf.trap_of_schedulerEntry_none hb ht with ⟨key, rfl, rfl⟩ | ⟨idx, i, rfl, -, hblk, rfl⟩ |
      ⟨idx, i, rfl, hi, rfl⟩ | ⟨rfl, rfl⟩ | ⟨rfl, rfl⟩
    · obtain ⟨m, hm⟩ := Wf.lockInit_core a.toCore key
      simp only [withCore, hm]
      exact ⟨h.of_eq rfl rfl (fun _ _ => rfl) hrun, hbusy⟩
    · obtain ⟨m, hm⟩ := Wf.acquireOrBlock_of_not_blocked hblk
      rw [hm]
      exact ⟨h.of_eq rfl rfl (fun _ _ => rfl) hrun, hbusy⟩
    · -- nobody is waiting for the lock
      rw [release, hbusy (.block i) (by simp)]
      split
      · exact ⟨h, hbusy⟩
      · exact ⟨h.of_eq rfl rfl (fun _ _ => rfl) hrun, hbusy⟩
    · refine ⟨h.of_eq rfl rfl (fun p hp => ?_) hrun, hbusy⟩
      have hne : p ≠ .tcb a.nthreads := fun e =>
        hw.not_created_fresh (e ▸ hw.created_of_active hp)
      rw [Wf.threadCreate_pid, if_neg hne]
    · have hcr := hc.resolve_left (by simp)
      obtain ⟨next, rest, hrot, -, -, he⟩ := hw.threadYield_eq hcr
      have hmem : next ∈ a.ring (a.pid a.currentRunning) := by
        rw [← List.mem_rotate (n := 1), hrot]; exact List.mem_cons_self
      have hpid := hw.ring_pid hmem
      have hne : next ≠ .pid0 := fun e => hw.not_created_boot (e ▸ hw.created_of_mem_ring hmem)
      rw [rota_iff (hw.ne_boot_of_running hcr), ← hpid] at h
      rw [he]
      exact ⟨(rota_iff (a := { a.withCore (yieldCore next) with ring := _ }) hne).2 h, hbusy⟩

theorem Rota.boot {timeBase : ℕ} {clock : ℕ → ℕ} : (Sched.boot n timeBase clock).Rota n 0 := by
  refine (if_pos rfl).mpr ⟨rfl, ?_⟩
  change ((List.range n).map PcbPtr.pcb).map _ = _
  rw [List.map_map, List.range'_eq_map_range]
  refine List.map_congr_left fun i hi => ?_
  rw [Function.comp_apply, Wf.boot_pid (List.mem_range.1 hi)]
  omega

/-- Whose turn it is, after `j + 1` calls of `do_scheduler`. -/
theorem Rota.pid_eq (h : a.Rota n (j + 1)) (hn : 0 < n) : a.pid a.currentRunning = j % n + 1 := by
  rw [Rota] at h
  split at h
  · exact absurd h.1 (by omega)
  have hlen := congrArg List.length h
  rw [List.length_append, List.length_map, List.length_rotate, List.length_range',
    List.length_singleton] at hlen
  have hlast := congrArg (·[((a.queue .ready).map a.pid).length]?) h
  rw [List.getElem?_concat_length, List.getElem?_rotate (by simp; omega), List.length_map,
    List.length_range'] at hlast
  have hidx : ((a.queue .ready).length + (j + 1)) % n = j % n := by
    rw [show (a.queue .ready).length + (j + 1) = j + n by omega, Nat.add_mod_right]
  rw [hidx, List.getElem?_range' (Nat.mod_lt _ hn), Option.some.injEq] at hlast
  omega

end Sched

/-- **Round robin.**  If no process ever waits or exits, then after `j + 1` calls of `do_scheduler`
it is a thread of process `j mod n + 1` that has the CPU, whatever threads the processes have made
and whichever of them have the turn. -/
theorem Run.round_robin {n timeBase j : ℕ} {clock : ℕ → ℕ} (hn : 0 < n) {tr : List Transition}
    {k : Kernel} (h : Run (fun _ k op => ¬ k.Suspends op) (Kernel.boot n timeBase clock) tr k)
    (hj : (schedulerCalls tr).length = j + 1) : k.pid k.currentRunning = j % n + 1 := by
  obtain ⟨a, hr, -, -, -, hrota, -⟩ := Run.induction_from
    (P := fun tr a => (∃ p, a.Serving 1 p) ∧ a.Rota n (schedulerCalls tr).length ∧ a.Busy)
    Refines.boot Sched.Wf.boot (Or.inl rfl)
    ⟨⟨_, Sched.boot_serving ⟨le_rfl, hn⟩⟩, Sched.Rota.boot, fun q hq => by cases q <;> trivial⟩ (by
      rintro tr k op a hr hw - ⟨⟨p, hp⟩, -⟩ ho hc
      rw [hr.core] at ho
      exact hp.not_stuck hw hc fun _ => ho) (by
      rintro tr k k' op a a' hr hw hrun ⟨⟨p, hp⟩, hrota, hbusy⟩ ho hc ht hr' hw' -
      rw [hr.core] at ho
      refine ⟨hp.trap hw hc (fun _ => ho) ht, ?_⟩
      have hcalls : (schedulerCalls (tr ++ [⟨k, op, k'⟩])).length =
          if (a.schedulerEntry op).isSome then (schedulerCalls tr).length + 1
          else (schedulerCalls tr).length := by
        rw [← length_served, ← length_served, served_concat, hr.schedules_iff hw hc]
        split <;> simp
      rw [hcalls]
      exact hrota.trap hbusy hw hrun hn hc ho ht) h
  rw [hj] at hrota
  rw [hr.core]
  exact hrota.pid_eq hn

/-- Two processes, the first of which makes a thread and hands its turn to it. -/
theorem Run.round_robin_two_tasks : ∃ tr k,
    tr.map Transition.op = [.timer, .lockInit 1, .threadCreate, .yield, .timer, .threadYield,
      .timer] ∧
    Run (fun _ k op => ¬ k.Suspends op) (Kernel.boot 2 1 fun t => t) tr k ∧
    k.pid k.currentRunning = 3 % 2 + 1 := by
  obtain ⟨tr, k, hrun, hops⟩ := Run.of_exec 2 1 (fun t => t)
    (fun op a => decide (¬ a.Suspends op)) (fun k op => ¬ k.Suspends op)
    (fun k a op hr h => by rw [hr.core]; exact of_decide_eq_true h)
    [.timer, .lockInit 1, .threadCreate, .yield, .timer, .threadYield, .timer] (by decide)
  have hrun' := hrun.mono fun _ _ _ h => h.2
  exact ⟨tr, k, hops, hrun',
    Run.round_robin (by decide) hrun' (length_schedulerCalls hops (by decide))⟩

end UcasOs
