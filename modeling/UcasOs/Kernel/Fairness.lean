import UcasOs.Lib.Fifo
import UcasOs.Kernel.Sleep

/-!
# How long a task waits for the CPU

In an unstalled run, counted in calls of `do_scheduler`.

* `Sched.trap_ready_of_schedules` — what such a call does to the ready queue: it serves the first,
  and others may join at the end.
* `Run.bounded_wait` — **no task starves**: the next calls give the CPU to the tasks on the ready
  queue, in order, and there are at most as many of them as there are processes.
* `Run.wakeup_latency` — a sleeper is back within that many calls after the first one that comes
  when its time has come.
-/

set_option autoImplicit false

namespace UcasOs

/-- The trap calls `do_scheduler`. -/
def Transition.schedules (t : Transition) : Bool := (t.pre.schedulerEntry t.op).isSome

/-- The traps that call `do_scheduler`, in order. -/
def schedulerCalls (tr : List Transition) : List Transition := tr.filter Transition.schedules

/-- Whoever had the CPU after the traps that call `do_scheduler`, in order. -/
def served (tr : List Transition) : List PcbPtr :=
  (schedulerCalls tr).map (·.post.currentRunning)

theorem served_concat (tr : List Transition) (t : Transition) : served (tr ++ [t]) =
    if t.schedules then served tr ++ [t.post.currentRunning] else served tr := by
  rw [served, served, schedulerCalls, List.filter_append, List.map_append]
  cases h : t.schedules <;> simp [schedulerCalls, h]

theorem length_served (tr : List Transition) : (served tr).length = (schedulerCalls tr).length :=
  List.length_map _

/-- The operation calls `do_scheduler`: an acquire only does if it finds the lock taken, which this
leaves open. -/
def Op.schedules : Op → Option Bool
  | .timer | .yield | .sleep _ | .exit => some true
  | .lockAcquire _ => none
  | _ => some false

theorem Transition.schedules_eq {t : Transition} {b : Bool} (h : t.op.schedules = some b) :
    t.schedules = b := by
  obtain ⟨k, op, k'⟩ := t
  cases op <;> first | exact Option.some_inj.1 h | contradiction

/-- How many calls of `do_scheduler` there are among traps that are no acquires. -/
theorem length_schedulerCalls {tr : List Transition} {ops : List Op}
    (h : tr.map Transition.op = ops) (hops : ∀ op ∈ ops, op.schedules ≠ none) :
    (schedulerCalls tr).length = ops.countP (·.schedules = some true) := by
  subst h
  rw [schedulerCalls, ← List.countP_eq_length_filter, List.countP_map]
  refine List.countP_congr fun t ht => ?_
  obtain ⟨b, hb⟩ := Option.ne_none_iff_exists'.1 (hops t.op (List.mem_map_of_mem ht))
  rw [Transition.schedules_eq hb, Function.comp_apply, hb]
  simp

/-! ## One trap -/

namespace Sched

variable {a a' b : Sched} {op : Op} {x : PcbPtr} {rest : List PcbPtr}

/-- `check_sleeping` lets sleepers join the ready queue. -/
theorem checkSleeping_ready (hw : a.Wf) :
    ∃ later, a.checkSleeping.queue .ready = a.queue .ready ++ later := by
  refine (Wf.checkSleeping_induction
    (P := fun b => ∃ later, b.queue .ready = a.queue .ready ++ later) (fun _ _ hb => hb) ?_ hw
    ⟨[], (List.append_nil _).symm⟩).2
  rintro b x hbw ⟨later, hq⟩ hx -
  have hx' : x ∉ b.queue .ready := fun hr => absurd (hbw.disjoint hr hx) (by simp)
  refine ⟨later ++ [x], ?_⟩
  rw [unblock_queue, enqueue_queue_self hx', hq, List.append_assoc]

/-- The running task joins the ready queue. -/
theorem preempt_ready (hw : a.Wf) : ∃ later, a.preempt.queue .ready = a.queue .ready ++ later := by
  rw [preempt]
  split
  · rename_i hc
    exact ⟨[a.currentRunning], enqueue_queue_self (hw.not_queued_of_running hc .ready)⟩
  · exact ⟨[], (List.append_nil _).symm⟩

/-- **`do_scheduler` serves the first of the ready queue**, and others may join at the end. -/
theorem doScheduler_ready (hw : a.Wf) (hq : a.queue .ready = x :: rest) :
    ∃ later, a.doScheduler.queue .ready = rest ++ later ∧ a.doScheduler.currentRunning = x ∧
      a.doScheduler.status x = .running := by
  obtain ⟨woken, hwoken⟩ := checkSleeping_ready hw
  obtain ⟨later, hlater⟩ := preempt_ready hw.checkSleeping
  rw [hwoken, hq] at hlater
  rcases Wf.schedule_eq a.checkSleeping with ⟨hnil, -⟩ | ⟨-, next, others, hnext, he⟩
  · rw [hwoken, hq] at hnil
    contradiction
  · rw [hlater, List.cons_append, List.cons_append, List.cons.injEq] at hnext
    obtain ⟨rfl, hothers⟩ := hnext
    obtain ⟨hpw, -⟩ := Wf.preempt_induction (P := fun _ => True) (fun _ _ _ _ => trivial)
      hw.checkSleeping trivial
    have hnd := hpw.nodup .ready
    rw [hlater, List.cons_append, List.cons_append] at hnd
    refine ⟨woken ++ later, ?_, ?_, ?_⟩
    · rw [doScheduler, he]
      change (a.checkSleeping.preempt.queue .ready).filter (· ≠ x) = _
      rw [hlater, List.cons_append, List.cons_append, filter_cons_self hnd, List.append_assoc]
    · rw [doScheduler, he]; rfl
    · rw [doScheduler, he]
      exact (Wf.dispatchTo_status _).trans (if_pos rfl)

/-- Up to its call of `do_scheduler` an operation leaves the ready queue alone. -/
theorem schedulerEntry_ready (hw : a.Wf) (hc : op = .timer ∨ a.status a.currentRunning = .running)
    (hb : a.schedulerEntry op = some b) : b.queue .ready = a.queue .ready := by
  have hcur : op ≠ .timer → a.currentRunning ∉ a.queue .ready := fun hop =>
    hw.not_queued_of_running (hc.resolve_left hop) .ready
  rcases schedulerEntry_cases hb with ⟨rfl, rfl⟩ | ⟨rfl, rfl⟩ | ⟨s, rfl, rfl⟩ |
    ⟨idx, i, rfl, -, hblk⟩ | ⟨rfl, rfl⟩
  · rfl
  · rfl
  · rw [sleepCurrent_queue]
    exact enqueue_queue_of_ne (by simp) (hcur (by simp))
  · obtain ⟨-, -, rfl⟩ := acquireOrBlock_eq_true hblk
    exact enqueue_queue_of_ne (by simp) (hcur (by simp))
  · rfl

/-- **A trap that calls `do_scheduler` serves the first of the ready queue.** -/
theorem trap_ready_of_schedules (hw : a.Wf)
    (hc : op = .timer ∨ a.status a.currentRunning = .running) (hb : a.schedulerEntry op = some b)
    (ht : a.trap op = some a') (hq : a.queue .ready = x :: rest) :
    ∃ later, a'.queue .ready = rest ++ later ∧ a'.currentRunning = x ∧ a'.status x = .running := by
  have hbw := hw.schedulerEntry (active_of_running hc) (needsRunning_of_running hc) hb
  rw [Wf.trap_of_schedulerEntry hb] at ht
  rw [← Option.some_inj.1 ht]
  exact doScheduler_ready hbw ((schedulerEntry_ready hw hc hb).trans hq)

/-- The other traps serve nobody, but a release may let somebody join the ready queue. -/
theorem trap_ready_of_not_schedules (hw : a.Wf)
    (hc : op = .timer ∨ a.status a.currentRunning = .running) (hb : a.schedulerEntry op = none)
    (ht : a.trap op = some a') : ∃ later, a'.queue .ready = a.queue .ready ++ later := by
  have same : a'.queue .ready = a.queue .ready →
      ∃ later, a'.queue .ready = a.queue .ready ++ later := fun h => ⟨[], by simp [h]⟩
  rcases Wf.trap_of_schedulerEntry_none hb ht with ⟨key, rfl, rfl⟩ | ⟨idx, i, rfl, -, hblk, rfl⟩ |
    ⟨idx, i, rfl, hi, rfl⟩ | ⟨rfl, rfl⟩ | ⟨rfl, rfl⟩
  · exact same rfl
  · obtain ⟨m, hm⟩ := Wf.acquireOrBlock_of_not_blocked hblk
    exact same (by rw [hm]; rfl)
  · rw [release]
    split
    · exact ⟨[], (List.append_nil _).symm⟩
    · split
      · exact ⟨[], (List.append_nil _).symm⟩
      · rename_i x rest hq
        have hx : x ∈ a.queue (.block i) := by rw [hq]; exact List.mem_cons_self
        have hx' : x ∉ a.queue .ready := fun hr => absurd (hw.disjoint hr hx) (by simp)
        exact ⟨[x], enqueue_queue_self hx'⟩
  · exact same rfl
  · obtain ⟨next, rest, -, -, -, he⟩ := hw.threadYield_eq (hc.resolve_left (by simp))
    exact same (by rw [he]; rfl)

end Sched

/-- A trap calls `do_scheduler` if the abstract one does. -/
theorem Refines.schedules_iff {k k' : Kernel} {a : Sched} {op : Op} (hr : Refines k a) (hw : a.Wf)
    (hc : op = .timer ∨ a.status a.currentRunning = .running) :
    (⟨k, op, k'⟩ : Transition).schedules = (a.schedulerEntry op).isSome := by
  have hentry := hr.schedulerEntry ((Sched.active_of_running hc).imp_right hw.created_of_active)
  change (k.schedulerEntry op).isSome = _
  generalize k.schedulerEntry op = o at hentry
  generalize a.schedulerEntry op = o' at hentry
  cases hentry <;> rfl

/-- One trap more of a run that began with `waiting` on the ready queue. -/
theorem Refines.serves_trap {waiting : List PcbPtr} {tr : List Transition} {k k' : Kernel}
    {a a' : Sched} {op : Op} (hr : Refines k a) (hr' : Refines k' a') (hw : a.Wf)
    (hc : op = .timer ∨ a.status a.currentRunning = .running) (ht : a.trap op = some a')
    (h : Serves waiting (served tr) (a.queue .ready)) :
    Serves waiting (served (tr ++ [⟨k, op, k'⟩])) (a'.queue .ready) := by
  rw [served_concat, hr.schedules_iff hw hc]
  change Serves _ (if _ then served tr ++ [k'.currentRunning] else _) _
  rw [congrArg Core.currentRunning hr'.core]
  cases hb : a.schedulerEntry op with
  | none =>
    obtain ⟨later, hq⟩ := Sched.trap_ready_of_not_schedules hw hc hb ht
    rw [hq]
    exact h.arrive later
  | some b =>
    cases hq : a.queue .ready with
    | nil => exact (hq ▸ h).idle _ _
    | cons x rest =>
      obtain ⟨later, hq', hcur, -⟩ := Sched.trap_ready_of_schedules hw hc hb ht hq
      rw [hq', hcur]
      exact (hq ▸ h).serve.arrive later

/-! ## How many can be waiting -/

namespace Sched

variable {a a' b : Sched} {op : Op} {n : ℕ}

/-- There are threads of the processes `1`, ..., `n` only. -/
def Peopled (n : ℕ) (a : Sched) : Prop := ∀ g, a.ring g ≠ [] → 1 ≤ g ∧ g ≤ n

namespace Peopled

theorem of_ring (h : a.Peopled n) (hr : a'.ring = a.ring) : a'.Peopled n := fun g hg =>
  h g (hr ▸ hg)

theorem stable (n : ℕ) : Stable (Peopled n) where
  tick _ h := h.of_ring rfl
  wake _ h _ _ := h.of_ring rfl
  preempt _ h _ := h.of_ring rfl
  dispatch _ h _ _ := h.of_ring rfl
  sleep _ _ h _ := h.of_ring rfl
  locks _ _ h := h.of_ring rfl
  block _ _ h _ := h.of_ring rfl
  handover _ h _ := h.of_ring rfl
  threadCreate {b} hw h hc := fun g hg => by
    simp only [threadCreate, Function.update_apply] at hg
    split at hg
    · rename_i he
      obtain ⟨rest, hring⟩ := hw.ring_of_active (Or.inl ⟨rfl, hc⟩)
      exact h g (by rw [he, hring]; simp)
    · exact h g hg
  threadYield {b} hw h hc := fun g hg => by
    rw [hw.threadYield_ring hc] at hg
    refine h g fun he => hg ?_
    rw [he, List.rotate_nil]

theorem boot {timeBase : ℕ} {clock : ℕ → ℕ} : (Sched.boot n timeBase clock).Peopled n := by
  intro g hg
  simp only [Sched.boot] at hg
  split at hg
  · omega
  · contradiction

/-- **At most one task of each process is running or queued**, so there are at most `n` of them. -/
theorem length_le (h : a.Peopled n) (hw : a.Wf) {l : List PcbPtr} (hnd : l.Nodup)
    (hl : ∀ p ∈ l, a.Active p) : l.length ≤ n := by
  have hpids : (l.map a.pid).Nodup := by
    refine hnd.map_on fun p hp p' hp' he => ?_
    exact hw.active_unique (hl p hp) (hl p' hp') he
  have hsub : l.map a.pid ⊆ List.range' 1 n := by
    intro g hg
    obtain ⟨p, hp, rfl⟩ := List.mem_map.1 hg
    obtain ⟨rest, hring⟩ := hw.ring_of_active (hl p hp)
    have hg := h (a.pid p) (by rw [hring]; simp)
    exact List.mem_range'_1.2 (by omega)
  have hle := (hpids.subperm hsub).length_le
  rwa [List.length_map, List.length_range'] at hle

/-- The ready queue has a place for every process that does not have the CPU. -/
theorem ready_length_le (h : a.Peopled n) (hw : a.Wf) : (a.queue .ready).length ≤ n :=
  h.length_le hw (hw.nodup .ready) fun _ hp => Or.inr ⟨.ready, hp⟩

theorem ready_length_lt (h : a.Peopled n) (hw : a.Wf)
    (hc : a.status a.currentRunning = .running) : (a.queue .ready).length < n := by
  refine h.length_le (l := a.currentRunning :: a.queue .ready) hw
    (List.nodup_cons.2 ⟨hw.not_queued_of_running hc .ready, hw.nodup .ready⟩) fun p hp => ?_
  rcases List.mem_cons.1 hp with rfl | hp
  · exact Or.inl ⟨rfl, hc⟩
  · exact Or.inr ⟨.ready, hp⟩

end Peopled

end Sched

/-! ## Bounded waiting -/

section Wait

variable {n timeBase : ℕ} {clock : ℕ → ℕ} {tr tr' : List Transition} {k k' : Kernel} {a : Sched}
  {p : PcbPtr} {t : Transition}

/-- The abstract state of an unstalled run from the first state. -/
theorem Run.peopled (h : Run Unstalled (Kernel.boot n timeBase clock) tr k) :
    ∃ a, Refines k a ∧ a.Wf ∧ a.Running ∧ a.Peopled n ∧ (Monotone clock → a.Ticking) :=
  Run.induction (P := fun _ a => a.Peopled n ∧ (Monotone clock → a.Ticking)) (fun _ _ _ h => h)
    ⟨Sched.Peopled.boot, fun hclock => ⟨hclock, fun _ => Nat.zero_le _⟩⟩
    (fun _ hw _ hp _ hc ht _ _ _ =>
      ⟨(Sched.Peopled.stable n).trap hw hp.1 hc (fun _ => hp.1.of_ring rfl) ht,
        fun hclock => (hp.2 hclock).trap hw hc ht⟩) h

/-- `p` has just been given the CPU. -/
def Transition.Resumes (t : Transition) (p : PcbPtr) : Prop :=
  t.post.currentRunning = p ∧ t.post.status p = .running

theorem Refines.resumes {k k' : Kernel} {a' : Sched} {op : Op} {p : PcbPtr} (hr' : Refines k' a')
    (h : a'.currentRunning = p ∧ a'.status p = .running) :
    (⟨k, op, k'⟩ : Transition).Resumes p := by
  rw [Transition.Resumes, hr'.core]
  exact h

/-- A run that goes on serves those who were on the ready queue first. -/
theorem Run.serves (hr : Refines k a) (hw : a.Wf) (hrun : a.Running) (h : Run Unstalled k tr' k') :
    ∃ a', Refines k' a' ∧ a'.Wf ∧ a'.Running ∧
      Serves (a.queue .ready) (served tr') (a'.queue .ready) ∧
      ∀ t ∈ tr', t.post.currentRunning ≠ .pid0 → t.Resumes t.post.currentRunning :=
  Run.induction_from (P := fun tr' a' => Serves (a.queue .ready) (served tr') (a'.queue .ready) ∧
      ∀ t ∈ tr', t.post.currentRunning ≠ .pid0 → t.Resumes t.post.currentRunning)
    hr hw hrun ⟨Serves.start _, fun t ht => absurd ht (by simp)⟩
    (fun hr hw _ _ ho hc => hr.not_stuck hw hc ho) (by
      rintro tr k k' op a a' hr hw hrun ⟨hs, hres⟩ - hc ht hr' hw' hrun'
      refine ⟨hr.serves_trap hr' hw hc ht hs, fun t ht' hne => ?_⟩
      rcases List.mem_append.1 ht' with ht' | ht'
      · exact hres t ht' hne
      · obtain rfl := List.mem_singleton.1 ht'
        refine ⟨rfl, ?_⟩
        change k'.currentRunning ≠ .pid0 at hne
        change k'.status k'.currentRunning = .running
        rw [hr'.core] at hne ⊢
        exact hrun'.resolve_left hne) h

/-- The `j`-th call of `do_scheduler` gives the CPU to the `j`-th task on the ready queue. -/
theorem resumes_of_serves {waiting ready : List PcbPtr} {j : ℕ}
    (h : Serves waiting (served tr') ready)
    (hres : ∀ t ∈ tr', t.post.currentRunning ≠ .pid0 → t.Resumes t.post.currentRunning)
    (hp : waiting[j]? = some p) (hne : p ≠ .pid0) (ht : (schedulerCalls tr')[j]? = some t) :
    t.Resumes p := by
  have hj : (served tr')[j]? = some t.post.currentRunning := by
    rw [served, List.getElem?_map, ht]; rfl
  have he := h.eq_of_getElem? hp hj
  have hmem : t ∈ tr' := (List.mem_filter.1 (List.mem_of_getElem? ht)).1
  exact he ▸ hres t hmem (he ▸ hne)

/-- A task on the ready queue gets the CPU within as many calls as there are processes. -/
theorem Run.resumes_of_ready (hr : Refines k a) (hw : a.Wf) (hrun : a.Running) (hn : a.Peopled n)
    (h : Run Unstalled k tr' k') (hp : p ∈ a.queue .ready)
    (hlate : n ≤ (schedulerCalls tr').length) : ∃ t ∈ tr', t.Resumes p := by
  obtain ⟨a', -, -, -, hs, hres⟩ := h.serves hr hw hrun
  obtain ⟨j, hj⟩ := List.getElem?_of_mem hp
  obtain ⟨hlt, -⟩ := List.getElem?_eq_some_iff.1 hj
  have hle := hn.ready_length_le hw
  have ht := List.getElem?_eq_getElem (by omega : j < (schedulerCalls tr').length)
  refine ⟨_, (List.mem_filter.1 (List.mem_of_getElem? ht)).1, resumes_of_serves hs hres hj ?_ ht⟩
  rintro rfl
  exact hw.not_created_boot (hw.queued_created hp)

/-- **No task starves.**  In an unstalled run, whatever happens in between, the next calls of
`do_scheduler` give the CPU to the tasks on the ready queue, in order; and there is at most one of
them for every process that does not have the CPU. -/
theorem Run.bounded_wait (h : Run Unstalled (Kernel.boot n timeBase clock) tr k)
    (h' : Run Unstalled k tr' k') {ready : List PcbPtr} (hq : k.HasQueue .ready ready) :
    ready.length ≤ n ∧ (k.currentRunning ≠ .pid0 → ready.length < n) ∧
      ∀ (j : ℕ) (p : PcbPtr) (t : Transition), ready[j]? = some p →
        (schedulerCalls tr')[j]? = some t → t.Resumes p := by
  obtain ⟨a, hr, hw, hrun, hn, -⟩ := h.peopled
  obtain ⟨a', -, -, -, hs, hres⟩ := h'.serves hr hw hrun
  rw [hr.hasQueue_iff.1 hq]
  refine ⟨hn.ready_length_le hw, fun hne => ?_, fun j p t hp ht => ?_⟩
  · rw [congrArg Core.currentRunning hr.core] at hne
    exact hn.ready_length_lt hw (hrun.resolve_left hne)
  · refine resumes_of_serves hs hres hp ?_ ht
    rintro rfl
    exact hw.not_created_boot (hw.queued_created (List.mem_of_getElem? hp))

/-- Two tasks are waiting when the first makes a thread, which goes to sleep. -/
theorem Run.bounded_wait_three_tasks : ∃ tr k tr' k',
    Run Unstalled (Kernel.boot 3 1 fun _ => 0) tr k ∧ k.HasQueue .ready [.pcb 1, .pcb 2] ∧
    Run Unstalled k tr' k' ∧
    tr'.map Transition.op = [.threadCreate, .threadYield, .sleep 1, .threadCreate, .timer] ∧
    ∀ (j : ℕ) (p : PcbPtr) (t : Transition), [PcbPtr.pcb 1, .pcb 2][j]? = some p →
      (schedulerCalls tr')[j]? = some t → t.Resumes p := by
  obtain ⟨a, ha, h⟩ := (Option.any_eq_true _ _).1 (by decide :
    ((Sched.boot 3 1 fun _ => 0).exec (fun _ _ => true) [.timer]).any (fun a =>
      a.queue .ready = [.pcb 1, .pcb 2] ∧ (a.exec (fun _ _ => true)
        [.threadCreate, .threadYield, .sleep 1, .threadCreate, .timer]).isSome) = true)
  obtain ⟨hq, he⟩ := of_decide_eq_true h
  obtain ⟨a', he⟩ := Option.isSome_iff_exists.1 he
  obtain ⟨tr, k, hrun, -, hr, hw, ha⟩ := Run.unstalled_of_exec_eq ha
  obtain ⟨tr', k', hrun', hops, -⟩ := Run.unstalled_from_exec hr hw ha he
  have hready := hr.hasQueue_iff.2 hq.symm
  exact ⟨tr, k, tr', k', hrun, hready, hrun', hops, (Run.bounded_wait hrun hrun' hready).2.2⟩

end Wait

/-! ## Waking up -/

namespace Sched

variable {a a' b : Sched} {op : Op} {p x : PcbPtr} {w : ℕ}

/-- `p` is ready or has the CPU. -/
def Runnable (p : PcbPtr) (a : Sched) : Prop :=
  p ∈ a.queue .ready ∨ a.currentRunning = p ∧ a.status p = .running

namespace Runnable

/-- It stays so when a waiting task becomes ready, -/
theorem unblock (h : a.Runnable p) (hw : a.Wf) {q : QueueId} (hx : x ∈ a.queue q) :
    (a.unblock x).Runnable p := by
  rcases h with hp | ⟨hc, hr⟩
  · refine Or.inl (Wf.mem_unblock.2 ?_)
    by_cases hpx : p = x
    · exact Or.inr ⟨rfl, hpx⟩
    · exact Or.inl ⟨hp, hpx⟩
  · have hne : p ≠ x := fun e => hw.not_queued_of_running hr _ (e ▸ hx)
    exact Or.inr ⟨hc, by rw [Wf.unblock_status, if_neg hne]; exact hr⟩

/-- when the running task is preempted, -/
theorem preempt (h : a.Runnable p) : (a.unblock a.currentRunning).Runnable p := by
  refine Or.inl (Wf.mem_unblock.2 ?_)
  by_cases hpc : p = a.currentRunning
  · exact Or.inr ⟨rfl, hpc⟩
  · exact Or.inl ⟨h.resolve_right fun hc => hpc hc.1.symm, hpc⟩

/-- and when the next one is dispatched. -/
theorem dispatchTo (h : a.Runnable p) (hc : a.status a.currentRunning ≠ .running) (x : PcbPtr) :
    (a.dispatchTo x).Runnable p := by
  have hp : p ∈ a.queue .ready := h.resolve_right fun hp => hc (hp.1 ▸ hp.2)
  by_cases hx : p = x
  · exact Or.inr ⟨hx.symm, (Wf.dispatchTo_status p).trans (if_pos hx)⟩
  · exact Or.inl (Wf.mem_dispatchTo.2 ⟨hp, hx⟩)

theorem schedule (h : a.Runnable p) (hw : a.Wf) : a.schedule.Runnable p :=
  (Wf.schedule_induction (P := Runnable p) (fun _ _ hb _ => hb.preempt)
    (fun _ x _ _ hb _ hc => hb.dispatchTo hc x) hw h).2

end Runnable

/-- `p` is asleep until `w`, or ready. -/
def Awaits (p : PcbPtr) (w : ℕ) (a : Sched) : Prop :=
  p ∈ a.queue .sleep ∧ a.wakeupTime p = w ∨ p ∈ a.queue .ready

/-- `p` is asleep until `w`, or ready, or it has the CPU. -/
def Arrives (p : PcbPtr) (w : ℕ) (a : Sched) : Prop :=
  p ∈ a.queue .sleep ∧ a.wakeupTime p = w ∨ a.Runnable p

namespace Awaits

theorem arrives (h : a.Awaits p w) : a.Arrives p w := h.imp_right Or.inl

theorem of_eq (h : a.Awaits p w) (hq : a'.queue = a.queue) (hw : a'.wakeupTime = a.wakeupTime) :
    a'.Awaits p w := by
  rw [Awaits, hq, hw]; exact h

/-- Whoever becomes ready, `p` is asleep or ready. -/
theorem unblock (h : a.Awaits p w) (x : PcbPtr) : (a.unblock x).Awaits p w := by
  by_cases hx : p = x
  · exact Or.inr (Wf.mem_unblock.2 (Or.inr ⟨rfl, hx⟩))
  · exact h.imp (And.imp_left fun hp => Wf.mem_unblock.2 (Or.inl ⟨hp, hx⟩))
      fun hp => Wf.mem_unblock.2 (Or.inl ⟨hp, hx⟩)

/-- So it is when somebody else waits for something. -/
theorem enqueue_of_ne (h : a.Awaits p w) {q : QueueId} (hx : p ≠ x) : (a.enqueue q x).Awaits p w :=
  h.imp (And.imp_left fun hp => Wf.mem_enqueue.2 (Or.inl ⟨hp, hx⟩))
    fun hp => Wf.mem_enqueue.2 (Or.inl ⟨hp, hx⟩)

/-- A task that awaits something does not have the CPU. -/
theorem ne_current (h : a.Awaits p w) (hw : a.Wf) (hc : a.status a.currentRunning = .running) :
    p ≠ a.currentRunning := by
  rintro rfl
  rcases h with ⟨hs, -⟩ | hr
  · exact hw.not_queued_of_running hc _ hs
  · exact hw.not_queued_of_running hc _ hr

theorem sleepCurrent (h : a.Awaits p w) (hne : p ≠ a.currentRunning) (s : UInt32) :
    (a.sleepCurrent s).Awaits p w := by
  have h1 : (a.enqueue .sleep a.currentRunning).Awaits p w := h.enqueue_of_ne hne
  refine h1.imp (And.imp_right fun hp => ?_) id
  change Function.update a.wakeupTime a.currentRunning _ p = w
  rw [Function.update_of_ne hne]
  exact hp

end Awaits

/-- `do_scheduler` wakes the task up, dispatches it, or leaves it alone. -/
theorem Arrives.doScheduler (h : a.Arrives p w) (hw : a.Wf) : a.doScheduler.Arrives p w := by
  refine (Wf.doScheduler_induction (P := Arrives p w) (fun _ _ hb => hb) ?_ ?_ ?_ hw h).2
  · rintro b x hbw (hb | hb) hx -
    · exact (Awaits.unblock (Or.inl hb) x).arrives
    · exact Or.inr (hb.unblock hbw hx)
  · rintro b hbw (hb | hb) -
    · exact (Awaits.unblock (Or.inl hb) _).arrives
    · exact Or.inr hb.preempt
  · rintro b x rest hbw (hb | hb) hq hc
    · have hx : p ≠ x := by
        rintro rfl
        have hready : p ∈ b.queue .ready := by rw [hq]; exact List.mem_cons_self
        exact absurd (hbw.disjoint hb.1 hready) (by simp)
      exact Or.inl (hb.imp_left fun hp => Wf.mem_dispatchTo.2 ⟨hp, hx⟩)
    · exact Or.inr (hb.dispatchTo hc x)

/-- Up to its call of `do_scheduler` an operation does nothing to it. -/
theorem Awaits.schedulerEntry (h : a.Awaits p w) (hw : a.Wf)
    (hc : op = .timer ∨ a.status a.currentRunning = .running) (hb : a.schedulerEntry op = some b) :
    b.Awaits p w := by
  have hne : op ≠ .timer → p ≠ a.currentRunning := fun hop =>
    h.ne_current hw (hc.resolve_left hop)
  rcases schedulerEntry_cases hb with ⟨rfl, rfl⟩ | ⟨rfl, rfl⟩ | ⟨s, rfl, rfl⟩ |
    ⟨idx, i, rfl, -, hblk⟩ | ⟨rfl, rfl⟩
  · exact h.of_eq rfl rfl
  · exact h
  · exact h.sleepCurrent (hne (by simp)) s
  · obtain ⟨-, -, rfl⟩ := acquireOrBlock_eq_true hblk
    have h1 : (a.withCore (·.setLockStatus i .locked)).Awaits p w := h.of_eq rfl rfl
    exact h1.enqueue_of_ne (hne (by simp))
  · exact h.of_eq rfl rfl

/-- **A task that is asleep or ready stays so until it is given the CPU.** -/
theorem Awaits.trap (h : a.Awaits p w) (hw : a.Wf)
    (hc : op = .timer ∨ a.status a.currentRunning = .running) (ht : a.trap op = some a') :
    a'.Arrives p w := by
  cases hb : a.schedulerEntry op with
  | some b =>
    have hbw := hw.schedulerEntry (active_of_running hc) (needsRunning_of_running hc) hb
    rw [Wf.trap_of_schedulerEntry hb] at ht
    rw [← Option.some_inj.1 ht]
    exact Arrives.doScheduler (h.schedulerEntry hw hc hb).arrives hbw
  | none =>
    refine Awaits.arrives ?_
    rcases Wf.trap_of_schedulerEntry_none hb ht with ⟨key, rfl, rfl⟩ | ⟨idx, i, rfl, -, hblk, rfl⟩ |
      ⟨idx, i, rfl, hi, rfl⟩ | ⟨rfl, rfl⟩ | ⟨rfl, rfl⟩
    · obtain ⟨m, hm⟩ := Wf.lockInit_core a.toCore key
      exact h.of_eq rfl (by simp only [withCore, hm])
    · obtain ⟨m, hm⟩ := Wf.acquireOrBlock_of_not_blocked hblk
      rw [hm]; exact h.of_eq rfl rfl
    · rw [release]
      split
      · exact h
      · split
        · exact h.of_eq rfl rfl
        · exact h.unblock _
    · exact h.of_eq rfl rfl
    · obtain ⟨next, rest, -, -, -, he⟩ := hw.threadYield_eq (hc.resolve_left (by simp))
      rw [he]; exact h.of_eq rfl rfl

/-- `p` is ready, or it is asleep and the next reading of the clock will show that the time it
sleeps until has come. -/
def Due (p : PcbPtr) (a : Sched) : Prop :=
  p ∈ a.queue .sleep ∧ a.wakeupTime p ≤ a.getTimer.1 ∨ p ∈ a.queue .ready

/-- `get_timer` gives no less when it is called again. -/
theorem Ticking.getTimer_le (h : a.Ticking) :
    a.getTimer.1 ≤ (a.withCore (·.getTimer.2)).getTimer.1 :=
  Nat.div_le_div_right (h.1 (Nat.zero_le 1))

theorem Due.visit (h : a.Due p) (htick : a.Ticking) (x : PcbPtr) :
    (a.visit x).Due p ∧ (x = p → p ∈ (a.visit x).queue .ready) := by
  -- a reading of the clock makes nobody less due
  have hdue : (a.withCore (·.getTimer.2)).Due p := by
    refine h.imp (And.imp_right fun hp => ?_) id
    exact hp.trans htick.getTimer_le
  rcases Nat.lt_or_ge a.getTimer.1 (a.wakeupTime x) with hlt | hle
  · rw [Wf.visit_of_lt hlt]
    refine ⟨hdue, ?_⟩
    rintro rfl
    exact h.resolve_left fun hs => Nat.not_le.2 hlt hs.2
  · rw [Wf.visit_of_le hle]
    by_cases hx : p = x
    · have hp : p ∈ ((a.withCore (·.getTimer.2)).unblock x).queue .ready :=
        Wf.mem_unblock.2 (Or.inr ⟨rfl, hx⟩)
      exact ⟨Or.inr hp, fun _ => hp⟩
    · refine ⟨?_, fun e => absurd e.symm hx⟩
      exact hdue.imp (And.imp_left fun hp => Wf.mem_unblock.2 (Or.inl ⟨hp, hx⟩))
        fun hp => Wf.mem_unblock.2 (Or.inl ⟨hp, hx⟩)

theorem visit_ready (hx : p ∈ a.queue .ready) : p ∈ (a.visit x).queue .ready := by
  rcases Wf.visit_eq a x with he | he
  · rw [he]
    by_cases hpx : p = x
    · exact Wf.mem_unblock.2 (Or.inr ⟨rfl, hpx⟩)
    · exact Wf.mem_unblock.2 (Or.inl ⟨hx, hpx⟩)
  · rw [he]; exact hx

theorem Ticking.visit (h : a.Ticking) : (a.visit x).Ticking := by
  rcases Wf.visit_eq a x with he | he
  · rw [he]; exact h.getTimer.of_eq rfl rfl
  · rw [he]; exact h.getTimer

/-- **`check_sleeping` makes a task that is due ready.** -/
theorem Due.checkSleeping (h : a.Due p) (htick : a.Ticking) : p ∈ a.checkSleeping.queue .ready := by
  -- after the visits so far `p` is due, or it has been visited
  suffices H : ∀ (l : List PcbPtr) (b : Sched), b.Ticking →
      (b.Due p ∧ p ∈ l ∨ p ∈ b.queue .ready) → p ∈ (l.foldl Sched.visit b).queue .ready by
    refine H _ a htick (h.imp_left fun hs => ⟨Or.inl hs, hs.1⟩)
  intro l
  induction l with
  | nil =>
    intro b _ hb
    exact hb.resolve_left fun hb => absurd hb.2 List.not_mem_nil
  | cons x l ih =>
    intro b hbt hb
    refine ih _ hbt.visit ?_
    rcases hb with ⟨hb, hp⟩ | hb
    · obtain ⟨hv, hx⟩ := hb.visit hbt x
      exact (List.mem_cons.1 hp).elim (fun e => Or.inr (hx e.symm)) fun hp => Or.inl ⟨hv, hp⟩
    · exact Or.inr (visit_ready hb)

/-- After a call of `do_scheduler` a task that was due is ready or has the CPU. -/
theorem Due.doScheduler (h : a.Due p) (hw : a.Wf) (htick : a.Ticking) : a.doScheduler.Runnable p :=
  Runnable.schedule (Or.inl (h.checkSleeping htick)) hw.checkSleeping

/-- Up to its call of `do_scheduler` an operation lets time go on. -/
theorem Ticking.schedulerEntry (h : a.Ticking) (hb : a.schedulerEntry op = some b) :
    b.Ticking ∧ a.getTimer.1 ≤ b.getTimer.1 := by
  have htimer : (a.withCore (·.getTimer.2)).Ticking ∧
      a.getTimer.1 ≤ (a.withCore (·.getTimer.2)).getTimer.1 := ⟨h.getTimer, h.getTimer_le⟩
  rcases schedulerEntry_cases hb with ⟨rfl, rfl⟩ | ⟨rfl, rfl⟩ | ⟨s, rfl, rfl⟩ |
    ⟨idx, i, rfl, -, hblk⟩ | ⟨rfl, rfl⟩
  · exact htimer
  · exact ⟨h, le_rfl⟩
  · exact htimer
  · obtain ⟨-, -, rfl⟩ := acquireOrBlock_eq_true hblk
    exact ⟨h.of_eq rfl rfl, le_rfl⟩
  · exact ⟨h.of_eq rfl rfl, le_rfl⟩

/-- **A trap that calls `do_scheduler` wakes up a task whose time has come.** -/
theorem Awaits.trap_due (h : a.Awaits p w) (hw : a.Wf) (htick : a.Ticking)
    (hc : op = .timer ∨ a.status a.currentRunning = .running) (hb : a.schedulerEntry op = some b)
    (hdue : w ≤ a.getTimer.1) (ht : a.trap op = some a') : a'.Runnable p := by
  have hbw := hw.schedulerEntry (active_of_running hc) (needsRunning_of_running hc) hb
  obtain ⟨hbt, hle⟩ := htick.schedulerEntry hb
  rw [Wf.trap_of_schedulerEntry hb] at ht
  rw [← Option.some_inj.1 ht]
  refine Due.doScheduler ?_ hbw hbt
  refine (h.schedulerEntry hw hc hb).imp_left (And.imp_right fun he => ?_)
  rw [he]
  exact hdue.trans hle

end Sched

section Wakeup

variable {n timeBase : ℕ} {clock : ℕ → ℕ} {tr tr₁ tr₂ : List Transition} {k k' : Kernel}
  {a : Sched} {p : PcbPtr} {w : ℕ} {t : Transition}

/-- A run that goes on leaves a task asleep or ready until it gives it the CPU. -/
theorem Run.awaits (hr : Refines k a) (hw : a.Wf) (hrun : a.Running) (hpeople : a.Peopled n)
    (htick : a.Ticking) (hp : a.Awaits p w) (h : Run Unstalled k tr k') :
    ∃ a', Refines k' a' ∧ a'.Wf ∧ a'.Running ∧ a'.Peopled n ∧ a'.Ticking ∧
      ((∃ t ∈ tr, t.Resumes p) ∨ a'.Awaits p w) :=
  Run.induction_from (P := fun tr a' => a'.Peopled n ∧ a'.Ticking ∧
      ((∃ t ∈ tr, t.Resumes p) ∨ a'.Awaits p w))
    hr hw hrun ⟨hpeople, htick, Or.inr hp⟩ (fun hr hw _ _ ho hc => hr.not_stuck hw hc ho) (by
      rintro tr k k' op a a' hr hw hrun ⟨hpeople, htick, hp⟩ - hc ht hr' hw' hrun'
      refine ⟨(Sched.Peopled.stable n).trap hw hpeople hc (fun _ => hpeople.of_ring rfl) ht,
        htick.trap hw hc ht, ?_⟩
      rcases hp with ⟨t, ht', hres⟩ | hp
      · exact Or.inl ⟨t, List.mem_append_left _ ht', hres⟩
      · rcases hp.trap hw hc ht with hs | hs | hcur
        · exact Or.inr (Or.inl hs)
        · exact Or.inr (Or.inr hs)
        · exact Or.inl ⟨_, List.mem_append_right _ (List.mem_singleton_self _),
            hr'.resumes hcur⟩) h

/-- A call of `do_scheduler` that comes when the time of a sleeper has come, and as many others as
there are processes, give it the CPU. -/
theorem Run.resumes_of_due (hr : Refines k a) (hw : a.Wf) (hrun : a.Running) (hpeople : a.Peopled n)
    (htick : a.Ticking) (hp : a.Awaits p w) (h : Run Unstalled k (tr₁ ++ t :: tr₂) k')
    (ht : t.schedules = true) (hdue : w ≤ t.pre.getTimer.1)
    (hn : n ≤ (schedulerCalls tr₂).length) : ∃ t' ∈ tr₁ ++ t :: tr₂, t'.Resumes p := by
  obtain ⟨k₁, h₁, h₂⟩ := Run.split h
  obtain ⟨rfl, ho, hstep, h₃⟩ := h₂.split_cons
  obtain ⟨b, hr₁, hw₁, hrun₁, hpeople₁, htick₁, hb⟩ := h₁.awaits hr hw hrun hpeople htick hp
  rcases hb with ⟨t', ht', hres⟩ | hb
  · exact ⟨t', List.mem_append_left _ ht', hres⟩
  -- it is still asleep or ready when `t` comes
  obtain ⟨b', hc, htrap, hr₂, hw₂, hrun₂⟩ :=
    hr₁.of_step hw₁ hrun₁ hstep fun hc => hr₁.not_stuck hw₁ hc ho
  obtain ⟨c, hentry⟩ := Option.isSome_iff_exists.1 ((hr₁.schedules_iff hw₁ hc).symm.trans ht)
  rw [hr₁.core] at hdue
  rcases hb.trap_due hw₁ htick₁ hc hentry hdue htrap with hready | hcur
  · have hpeople₂ := (Sched.Peopled.stable n).trap hw₁ hpeople₁ hc
      (fun _ => hpeople₁.of_ring rfl) htrap
    obtain ⟨t', ht', hres⟩ := h₃.resumes_of_ready hr₂ hw₂ hrun₂ hpeople₂ hready hn
    exact ⟨t', List.mem_append_right _ (List.mem_cons_of_mem t ht'), hres⟩
  · exact ⟨t, by simp, hr₂.resumes hcur⟩

/-- **A sleeper comes back.**  In an unstalled run, once its time has come, as the last reading of
the clock before a call of `do_scheduler` shows, it gets the CPU at that call or, at the latest, at
the `n`-th after it, when there are `n` processes. -/
theorem Run.wakeup_latency (hclock : Monotone clock)
    (h : Run Unstalled (Kernel.boot n timeBase clock) tr k) {sleepers : List PcbPtr}
    (hq : k.HasQueue .sleep sleepers) (hp : p ∈ sleepers)
    (h' : Run Unstalled k (tr₁ ++ t :: tr₂) k') (ht : t.schedules = true)
    (hdue : k.wakeupTime p ≤ t.pre.timeElapsed / t.pre.timeBase)
    (hn : n ≤ (schedulerCalls tr₂).length) : ∃ t' ∈ tr₁ ++ t :: tr₂, t'.Resumes p := by
  obtain ⟨a, hr, hw, hrun, hpeople, htick⟩ := h.peopled
  rw [hr.hasQueue_iff.1 hq] at hp
  refine Run.resumes_of_due hr hw hrun hpeople (htick hclock) (Or.inl ⟨hp, rfl⟩) h' ht ?_ hn
  -- the next reading of the clock is no less than the last
  obtain ⟨k₁, h₁, h₂⟩ := Run.split h'
  obtain ⟨rfl, -⟩ := h₂.split_cons
  obtain ⟨b, hr₁, -, -, -, htick₁, -⟩ :=
    h₁.awaits hr hw hrun hpeople (htick hclock) (Or.inl ⟨hp, rfl⟩)
  rw [hr.core, hr₁.core] at hdue
  rw [hr₁.core]
  exact hdue.trans htick₁.le_getTimer

/-- Two of three tasks go to sleep, and the time of the first comes while the second is looked at. -/
theorem Run.wakeup_latency_three_tasks : ∃ tr k tr' k',
    Run Unstalled (Kernel.boot 3 1 fun t => t) tr k ∧ k.HasQueue .sleep [.pcb 0, .pcb 1] ∧
    Run Unstalled k tr' k' ∧ tr'.map Transition.op = [.yield, .yield, .yield, .yield] ∧
    ∃ t ∈ tr', t.Resumes (.pcb 0) := by
  obtain ⟨a, ha, h⟩ := (Option.any_eq_true _ _).1 (by decide :
    ((Sched.boot 3 1 fun t => t).exec (fun _ _ => true) [.timer, .sleep 4, .sleep 9]).any (fun a =>
      a.queue .sleep = [.pcb 0, .pcb 1] ∧ a.wakeupTime (.pcb 0) ≤ a.timeElapsed / a.timeBase ∧
        (a.exec (fun _ _ => true) [.yield, .yield, .yield, .yield]).isSome) = true)
  obtain ⟨hq, hdue, he⟩ := of_decide_eq_true h
  obtain ⟨a', he⟩ := Option.isSome_iff_exists.1 he
  obtain ⟨tr, k, hrun, -, hr, hw, ha⟩ := Run.unstalled_of_exec_eq ha
  obtain ⟨tr', k', hrun', hops, -⟩ := Run.unstalled_from_exec hr hw ha he
  refine ⟨tr, k, tr', k', hrun, hr.hasQueue_iff.2 hq.symm, hrun', hops, ?_⟩
  obtain ⟨t, tr₂, rfl, ht, htr₂⟩ := List.map_eq_cons_iff.1 hops
  have hdue' : k.wakeupTime (.pcb 0) ≤ t.pre.timeElapsed / t.pre.timeBase := by
    rw [hrun'.split_cons.1, hr.core]
    exact hdue
  have hcalls := (length_schedulerCalls htr₂ (by decide)).ge
  rw [← List.nil_append (t :: tr₂)] at hrun' ⊢
  exact Run.wakeup_latency monotone_id hrun (hr.hasQueue_iff.2 hq.symm) List.mem_cons_self hrun'
    (Transition.schedules_eq (by rw [ht]; rfl)) hdue' hcalls

end Wakeup

end UcasOs
