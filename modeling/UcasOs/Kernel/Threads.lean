import UcasOs.Kernel.Sleep

/-!
# Threads that nothing leads back to

The threads of a process share its turn: at most one of them is current or on a queue, and the
others become runnable only when it hands the turn on.

* `NoThreadStranded` — a process with a thread that has not exited can still be scheduled.
* `Run.no_thread_stranded` proves it for the unstalled runs in which `do_exit` is only called by a
  thread that leaves no other behind, and `Run.stranded_of_exit` that it fails in all the others.
  `Run.thread_stranded` is the run in which the creator of a thread exits first.
-/

set_option autoImplicit false

namespace UcasOs

/-! ## Nobody is stranded -/

/-- The tasks that have called `do_exit`. -/
def exiters (tr : List Transition) : List PcbPtr :=
  (tr.filter (·.op = .exit)).map (·.pre.currentRunning)

/-- **No live thread is stranded**: if a thread has not called `do_exit`, then such a thread of its
group is current or on a queue. -/
def NoThreadStranded (tr : List Transition) (k : Kernel) : Prop :=
  ∀ p, k.Created p → p ∉ exiters tr → ∃ p', k.SameGroup p p' ∧ p' ∉ exiters tr ∧
    (p' = k.currentRunning ∨ ∃ q l, k.HasQueue q l ∧ p' ∈ l)

/-- `op` is not a call of `do_exit` by a thread that leaves behind others that have not exited. -/
def ExitsLast (k : Kernel) (op : Op) : Prop :=
  op = .exit → ∀ p, k.SameGroup k.currentRunning p → p ≠ k.currentRunning → k.status p = .exited

namespace Sched

variable {a a' : Sched} {p x : PcbPtr} {op : Op}

/-- A process with a thread that has not exited has an active one. -/
def Live (a : Sched) : Prop :=
  ∀ g, ∀ p ∈ a.ring g, a.status p ≠ .exited → ∃ p' ∈ a.ring g, a.Active p'

namespace Live

theorem of_active (h : a.Live) (hr : a'.ring = a.ring)
    (hs : ∀ p, a'.status p ≠ .exited → a.status p ≠ .exited ∨ a'.Active p)
    (ha : ∀ p, a.Active p → a'.Active p) : a'.Live := by
  intro g p hp hpe
  rw [hr] at hp ⊢
  rcases hs p hpe with hpe | hact
  · obtain ⟨p', hp', hact⟩ := h g p hp hpe
    exact ⟨p', hp', ha p' hact⟩
  · exact ⟨p, hp, hact⟩

theorem of_eq (h : a.Live) (he : a'.tasks = a.tasks) : a'.Live := by
  simp only [Sched.tasks, Prod.mk.injEq] at he
  obtain ⟨hq, hr, hs, -, hc, -, -⟩ := he
  refine h.of_active hr (fun p hp => Or.inl (hs ▸ hp)) fun p hp => ?_
  rw [Active, hs, hq, hc]; exact hp

/-- A task that is moved to a queue is active there. -/
theorem enqueue {q : QueueId} (h : a.Live) : (a.enqueue q x).Live := by
  refine h.of_active rfl (fun p hp => ?_) fun p hp => ?_
  · by_cases hpx : p = x
    · exact Or.inr (Or.inr ⟨q, Wf.mem_enqueue.2 (Or.inr ⟨rfl, hpx⟩)⟩)
    · rw [Wf.enqueue_status, if_neg hpx] at hp; exact Or.inl hp
  · by_cases hpx : p = x
    · exact Or.inr ⟨q, Wf.mem_enqueue.2 (Or.inr ⟨rfl, hpx⟩)⟩
    · rcases hp with ⟨hc, hr⟩ | ⟨r, hr⟩
      · refine Or.inl ⟨hc, ?_⟩
        rw [Wf.enqueue_status, if_neg hpx]; exact hr
      · exact Or.inr ⟨r, Wf.mem_enqueue.2 (Or.inl ⟨hr, hpx⟩)⟩

theorem dispatchTo (h : a.Live) (hc : a.status a.currentRunning ≠ .running) :
    (a.dispatchTo x).Live := by
  have hx : (a.dispatchTo x).Active x :=
    Or.inl ⟨rfl, (Wf.dispatchTo_status x).trans (if_pos rfl)⟩
  refine h.of_active rfl (fun p hp => ?_) fun p hp => ?_
  · by_cases hpx : p = x
    · exact Or.inr (hpx ▸ hx)
    · rw [Wf.dispatchTo_status, if_neg hpx] at hp; exact Or.inl hp
  · by_cases hpx : p = x
    · exact hpx ▸ hx
    · rcases hp with ⟨rfl, hr⟩ | ⟨r, hr⟩
      · exact absurd hr hc
      · exact Or.inr ⟨r, Wf.mem_dispatchTo.2 ⟨hr, hpx⟩⟩

theorem threadCreate (h : a.Live) (hw : a.Wf) (hc : a.status a.currentRunning = .running) :
    a.threadCreate.Live := by
  have hact : a.Active a.currentRunning := Or.inl ⟨rfl, hc⟩
  have hcr := hw.created_of_active hact
  have hcn : a.currentRunning ≠ .tcb a.nthreads := fun e => hw.not_created_fresh (e ▸ hcr)
  have hactive : ∀ {y}, a.Active y → a.threadCreate.Active y := by
    rintro y (⟨rfl, -⟩ | ⟨q, hq⟩)
    · exact Or.inl ⟨rfl, by rw [Wf.threadCreate_status, if_neg hcn]; exact hc⟩
    · exact Or.inr ⟨q, hq⟩
  intro g p hp hpe
  rcases Wf.mem_ring_threadCreate.1 hp with hp | ⟨rfl, -⟩
  · have hne : p ≠ .tcb a.nthreads := fun e =>
      hw.not_created_fresh (e ▸ hw.created_of_mem_ring hp)
    rw [Wf.threadCreate_status, if_neg hne] at hpe
    obtain ⟨p', hp', hact'⟩ := h g p hp hpe
    exact ⟨p', Wf.mem_ring_threadCreate.2 (Or.inl hp'), hactive hact'⟩
  · exact ⟨a.currentRunning, Wf.mem_ring_threadCreate.2 (Or.inl hcr), hactive hact⟩

theorem threadYield (h : a.Live) (hw : a.Wf) (hc : a.status a.currentRunning = .running) :
    a.threadYield.Live := by
  have hact : a.Active a.currentRunning := Or.inl ⟨rfl, hc⟩
  obtain ⟨next, rest, -, hmem, -, he⟩ := hw.threadYield_eq hc
  have hnext : a.threadYield.Active next := by
    rw [he]; exact Or.inl ⟨rfl, Wf.yieldCore_status.trans (if_pos rfl)⟩
  intro g p hp hpe
  by_cases hg : g = a.pid a.currentRunning
  · exact ⟨next, (hw.mem_ring_threadYield hc).2 (hg ▸ hmem), hnext⟩
  · rw [hw.mem_ring_threadYield hc] at hp
    have hpe' : a.status p ≠ .exited := by
      have hpc : p ≠ a.currentRunning := fun e => hg (by rw [← e, hw.ring_pid hp])
      have hpn : p ≠ next := fun e => hg (by rw [← hw.ring_pid hp, e, hw.ring_pid hmem])
      rw [he, Wf.yieldCore_status, if_neg hpn, if_neg hpc] at hpe
      exact hpe
    obtain ⟨p', hp', hact'⟩ := h g p hp hpe'
    refine ⟨p', (hw.mem_ring_threadYield hc).2 hp', ?_⟩
    rcases hact' with ⟨rfl, -⟩ | ⟨q, hq⟩
    · exact absurd (hw.ring_pid hp').symm hg
    · rw [he]; exact Or.inr ⟨q, hq⟩

/-- **No operation but `do_exit` strands a thread.** -/
theorem stable : Stable Live where
  tick _ h := h.of_eq rfl
  wake _ h _ _ := h.enqueue.of_eq rfl
  preempt _ h _ := h.enqueue.of_eq rfl
  dispatch _ h _ hc := h.dispatchTo hc
  sleep _ _ h _ := h.enqueue.of_eq rfl
  locks _ _ h := h.of_eq rfl
  block _ _ h _ := h.enqueue
  handover _ h _ := h.enqueue.of_eq rfl
  threadCreate hw h hc := h.threadCreate hw hc
  threadYield hw h hc := h.threadYield hw hc

/-- `do_exit` strands nobody if the others of the process have exited. -/
theorem exitCurrent (h : a.Live) (hw : a.Wf)
    (hlast : ∀ p ∈ a.ring (a.pid a.currentRunning), p ≠ a.currentRunning → a.status p = .exited) :
    a.exitCurrent.Live := by
  intro g p hp hpe
  rw [Wf.exitCurrent_status] at hpe
  split at hpe
  · exact absurd rfl hpe
  · rename_i hpc
    have hg : g ≠ a.pid a.currentRunning := fun e => hpe (hlast p (e ▸ hp) hpc)
    obtain ⟨p', hp', hact⟩ := h g p hp hpe
    refine ⟨p', hp', ?_⟩
    rcases hact with ⟨rfl, -⟩ | ⟨q, hq⟩
    · exact absurd (hw.ring_pid hp').symm hg
    · exact Or.inr ⟨q, hq⟩

theorem boot {n timeBase : ℕ} {clock : ℕ → ℕ} : (Sched.boot n timeBase clock).Live := by
  intro g p hp _
  obtain ⟨i, hi, rfl, -⟩ := Wf.mem_boot_ring.1 hp
  exact ⟨_, hp, Or.inr ⟨.ready, Wf.mem_boot_queue.2 ⟨rfl, i, hi, rfl⟩⟩⟩

end Live

/-! ## Who has exited -/

/-- A task that has not exited. -/
def NotExited (p : PcbPtr) (a : Sched) : Prop := a.status p ≠ .exited

theorem NotExited.enqueue {q : QueueId} (h : a.NotExited p) : (a.enqueue q x).NotExited p := by
  rw [NotExited, Wf.enqueue_status]
  split
  · cases q <;> simp [QueueId.status]
  · exact h

/-- Only `do_exit` makes a task exit. -/
theorem NotExited.stable (p : PcbPtr) : Stable (NotExited p) where
  tick _ h := h
  wake _ h _ _ := h.enqueue
  preempt _ h _ := h.enqueue
  dispatch _ h _ _ := by
    rw [NotExited, Wf.dispatchTo_status]
    split
    · simp
    · exact h
  sleep _ _ h _ := h.enqueue
  locks _ _ h := h
  block _ _ h _ := h.enqueue
  handover _ h _ := h.enqueue
  threadCreate _ h _ := by
    rw [NotExited, Wf.threadCreate_status]
    split
    · simp
    · exact h
  threadYield hw h hc := by
    obtain ⟨next, rest, -, -, -, he⟩ := hw.threadYield_eq hc
    rw [NotExited, he, Wf.yieldCore_status]
    split
    · simp
    · split
      · simp
      · exact h

/-- The tasks of a run that have exited are those that have called `do_exit`. -/
def ExitersExited (tr : List Transition) (a : Sched) : Prop :=
  (∀ p ∈ exiters tr, a.Exited p) ∧ ∀ p ∉ exiters tr, a.NotExited p

theorem ExitersExited.mem_iff {tr : List Transition} (h : a.ExitersExited tr) :
    p ∈ exiters tr ↔ a.status p = .exited :=
  ⟨fun hp => (h.1 p hp).2, fun hp => by_contra fun hn => h.2 p hn hp⟩

theorem ExitersExited.concat {tr : List Transition} {k k' : Kernel} (h : ExitersExited tr a)
    (hr : Refines k a) (hw : a.Wf) (hrun : a.Running)
    (hc : op = .timer ∨ a.status a.currentRunning = .running) (ht : a.trap op = some a') :
    ExitersExited (tr ++ [⟨k, op, k'⟩]) a' := by
  have hcur : k.currentRunning = a.currentRunning := congrArg Core.currentRunning hr.core
  have hmem : ∀ p, p ∈ exiters (tr ++ [⟨k, op, k'⟩]) ↔
      p ∈ exiters tr ∨ (op = .exit ∧ p = a.currentRunning) := by
    intro p
    simp only [exiters, List.filter_append, List.map_append, List.mem_append, ← hcur]
    by_cases hop : op = .exit <;> simp [hop]
  refine ⟨fun p hp => ?_, fun p hp => ?_⟩
  · rcases (hmem p).1 hp with hp | ⟨rfl, rfl⟩
    · have hx := h.1 p hp
      exact (Exited.stable p).trap hw hx hc
        (fun _ => hx.exitCurrent (hx.ne_current hw hrun).symm) ht
    · have hcr := hc.resolve_left (by simp)
      rw [← Option.some_inj.1 ht]
      exact (Exited.stable _).doScheduler (hw.exitCurrent hcr)
        (Exited.of_exitCurrent (hw.created_of_active (Or.inl ⟨rfl, hcr⟩)))
  · rw [hmem, not_or] at hp
    refine (NotExited.stable p).trap hw (h.2 p hp.1) hc (fun hop => ?_) ht
    have hpc : p ≠ a.currentRunning := fun e => hp.2 ⟨hop, e⟩
    rw [NotExited, Wf.exitCurrent_status, if_neg hpc]
    exact h.2 p hp.1

theorem ExitersExited.boot {n timeBase : ℕ} {clock : ℕ → ℕ} :
    (Sched.boot n timeBase clock).ExitersExited [] := by
  refine ⟨fun p hp => absurd hp (by simp [exiters]), fun p _ => ?_⟩
  cases p with
  | pcb i => simp only [NotExited, Sched.boot, bootCore, perTask]; split <;> simp
  | _ => simp [NotExited, Sched.boot, bootCore, perTask]

/-! ## Threads nothing leads back to -/

/-- `p` and `c` are threads of one process. -/
def Siblings (p c : PcbPtr) (a : Sched) : Prop := ∃ g, p ∈ a.ring g ∧ c ∈ a.ring g

theorem Siblings.stable (p c : PcbPtr) : Stable (Siblings p c) where
  tick _ h := h
  wake _ h _ _ := h
  preempt _ h _ := h
  dispatch _ h _ _ := h
  sleep _ _ h _ := h
  locks _ _ h := h
  block _ _ h _ := h
  handover _ h _ := h
  threadCreate _ h _ := h.imp fun _ h =>
    ⟨Wf.mem_ring_threadCreate.2 (Or.inl h.1), Wf.mem_ring_threadCreate.2 (Or.inl h.2)⟩
  threadYield hw h hc := h.imp fun _ h =>
    ⟨(hw.mem_ring_threadYield hc).2 h.1, (hw.mem_ring_threadYield hc).2 h.2⟩

/-- `p` has not exited, and `c`, a thread of the same process, has. -/
def Stranded (c p : PcbPtr) (a : Sched) : Prop := a.NotExited p ∧ a.Exited c ∧ a.Siblings p c

namespace Stranded

variable {c : PcbPtr}

/-- No thread of a process of which one has exited can be scheduled. -/
theorem not_active (h : a.Stranded c p) (hw : a.Wf) {g : ℕ} (hp : p ∈ a.ring g)
    (hx : x ∈ a.ring g) : ¬ a.Active x := by
  obtain ⟨-, he, g', hp', hc⟩ := h
  have hg : g' = g := (hw.ring_pid hp').symm.trans (hw.ring_pid hp)
  subst hg
  intro hact
  exact hw.live hact (by rwa [hw.ring_pid hx]) he.2

/-- **A stranded thread stays stranded**, whatever the others do. -/
theorem stable (c p : PcbPtr) : Stable (Stranded c p) :=
  (NotExited.stable p).and ((Exited.stable c).and (Siblings.stable p c))

/-- It cannot even exit. -/
theorem exitCurrent (h : a.Stranded c p) (hw : a.Wf) (hrun : a.Running)
    (hcr : a.status a.currentRunning = .running) : a.exitCurrent.Stranded c p := by
  have hne : p ≠ a.currentRunning := by
    rintro rfl
    obtain ⟨g, hp, -⟩ := h.2.2
    exact h.not_active hw hp hp (Or.inl ⟨rfl, hcr⟩)
  refine ⟨?_, h.2.1.exitCurrent (h.2.1.ne_current hw hrun).symm, h.2.2⟩
  rw [NotExited, Wf.exitCurrent_status, if_neg hne]
  exact h.1

/-- The others of its process are stranded when a thread exits. -/
theorem of_exitCurrent (hcr : a.Created a.currentRunning)
    (hp : p ∈ a.ring (a.pid a.currentRunning)) (hne : p ≠ a.currentRunning) (hnp : a.NotExited p) :
    a.exitCurrent.Stranded a.currentRunning p := by
  refine ⟨?_, Exited.of_exitCurrent hcr, _, hp, hcr⟩
  rw [NotExited, Wf.exitCurrent_status, if_neg hne]
  exact hnp

end Stranded

end Sched

namespace Refines

variable {k : Kernel} {a : Sched} {p p' : PcbPtr} {tr : List Transition}

theorem sameGroup_of_mem (h : Refines k a) {g : ℕ} (hp : p ∈ a.ring g) (hp' : p' ∈ a.ring g) :
    k.SameGroup p p' :=
  ⟨_, h.rings.ring (.group g), List.mem_map_of_mem hp, List.mem_map_of_mem hp'⟩

theorem noThreadStranded (h : Refines k a) (hw : a.Wf) (hl : a.Live)
    (he : a.ExitersExited tr) : NoThreadStranded tr k := by
  intro p hp hpe
  have hc : p ∈ a.ring (a.pid p) := (h.created_iff hw).1 hp
  obtain ⟨p', hp', hact⟩ := hl _ p hc (he.2 p hpe)
  refine ⟨p', h.sameGroup_of_mem hc hp', fun hx => ?_, ?_⟩
  · -- an active task has not exited
    exact hw.live hact (hw.created_of_active hact) (he.1 p' hx).2
  · rcases hact with ⟨rfl, -⟩ | ⟨q, hq⟩
    · exact Or.inl (congrArg Core.currentRunning h.core).symm
    · exact Or.inr ⟨q, _, h.hasQueue_iff.2 rfl, hq⟩

theorem not_noThreadStranded (h : Refines k a) (hw : a.Wf) (hrun : a.Running)
    (hp : p ∉ exiters tr) (hs : a.Stranded p' p) : ¬ NoThreadStranded tr k := by
  intro hn
  have hc : a.Created p := by
    obtain ⟨-, -, g, hp, -⟩ := hs
    exact hw.created_of_mem_ring hp
  obtain ⟨x, hx, -, hxq⟩ := hn p ((h.created_iff hw).2 hc) hp
  have hxm : x ∈ a.ring (a.pid p) := h.mem_ring_of_sameGroup hc hx
  refine hs.not_active hw hc hxm ?_
  rcases hxq with rfl | ⟨q, l, hl, hxl⟩
  · have hcur : k.currentRunning = a.currentRunning := congrArg Core.currentRunning h.core
    rw [hcur] at hxm ⊢
    refine Or.inl ⟨rfl, hrun.resolve_left fun hb => ?_⟩
    exact hw.not_created_boot (hb ▸ hw.created_of_mem_ring hxm)
  · exact Or.inr ⟨q, h.hasQueue_iff.1 hl ▸ hxl⟩

end Refines

/-- The tasks that have called `do_exit` are those whose status says so. -/
theorem Run.mem_exiters {n timeBase : ℕ} {clock : ℕ → ℕ} {tr : List Transition} {k : Kernel}
    (h : Run Unstalled (Kernel.boot n timeBase clock) tr k) {p : PcbPtr} :
    p ∈ exiters tr ↔ k.status p = .exited := by
  obtain ⟨a, hr, -, -, he⟩ := Run.induction (P := Sched.ExitersExited) (fun _ _ _ h => h)
    Sched.ExitersExited.boot
    (fun hr hw hrun he _ hc ht _ _ _ => he.concat hr hw hrun hc ht) h
  rw [he.mem_iff, congrArg Core.status hr.core]

/-- **No live thread is stranded**, in every unstalled run in which `do_exit` is only called by the
last thread of a process. -/
theorem Run.no_thread_stranded {n timeBase : ℕ} {clock : ℕ → ℕ} {tr : List Transition}
    {k : Kernel} (h : Run (fun _ k op => ¬ k.Stalls op ∧ ExitsLast k op)
      (Kernel.boot n timeBase clock) tr k) : NoThreadStranded tr k := by
  obtain ⟨a, hr, hw, -, hl, he⟩ := Run.induction
    (P := fun tr a => a.Live ∧ a.ExitersExited tr) (fun _ _ _ h => h.1)
    ⟨Sched.Live.boot, Sched.ExitersExited.boot⟩ (by
      rintro tr k k' op a a' hr hw hrun ⟨hl, he⟩ ⟨-, hlast⟩ hc ht hr' hw' -
      refine ⟨Sched.Live.stable.trap hw hl hc (fun hop => ?_) ht, he.concat hr hw hrun hc ht⟩
      have hcr := hc.resolve_left (by rw [hop]; simp)
      have hcm := hw.created_of_active (Or.inl ⟨rfl, hcr⟩)
      have hcur : k.currentRunning = a.currentRunning := congrArg Core.currentRunning hr.core
      refine hl.exitCurrent hw fun p hp hne => ?_
      have h1 := hlast hop p (by rw [hcur]; exact hr.sameGroup_of_mem hcm hp) (by rwa [hcur])
      rwa [congrArg Core.status hr.core] at h1) h
  exact hr.noThreadStranded hw hl he

/-- In every other unstalled run they are, from that call of `do_exit` on. -/
theorem Run.stranded_of_exit {n timeBase : ℕ} {clock : ℕ → ℕ} {tr : List Transition} {k : Kernel}
    (h : Run Unstalled (Kernel.boot n timeBase clock) tr k) {t : Transition} (ht : t ∈ tr)
    (hlast : ¬ ExitsLast t.pre t.op) : ¬ NoThreadStranded tr k := by
  obtain ⟨a, hr, hw, hrun, hs, he⟩ := Run.induction
    (P := fun tr a => (∀ t ∈ tr, ¬ ExitsLast t.pre t.op → ∃ c p, a.Stranded c p) ∧
      a.ExitersExited tr) (fun _ _ _ h => h)
    ⟨fun t ht => absurd ht (by simp), Sched.ExitersExited.boot⟩ (by
      rintro tr k k' op a a' hr hw hrun ⟨hs, he⟩ - hc ht - - -
      refine ⟨fun t ht' hl => ?_, he.concat hr hw hrun hc ht⟩
      rcases List.mem_append.1 ht' with ht' | ht'
      · obtain ⟨c, p, hcp⟩ := hs t ht' hl
        exact ⟨c, p, (Sched.Stranded.stable c p).trap hw hcp hc
          (fun hop => hcp.exitCurrent hw hrun (hc.resolve_left (by rw [hop]; simp))) ht⟩
      · rw [List.mem_singleton.1 ht'] at hl
        simp only [ExitsLast, not_forall, hr.core] at hl
        obtain ⟨rfl, p, hp, hne, hpe⟩ := hl
        have hcr := hc.resolve_left (by simp)
        have hcm := hw.created_of_active (Or.inl ⟨rfl, hcr⟩)
        refine ⟨a.currentRunning, p, ?_⟩
        rw [← Option.some_inj.1 ht]
        exact (Sched.Stranded.stable _ p).doScheduler (hw.exitCurrent hcr)
          (Sched.Stranded.of_exitCurrent hcm (hr.mem_ring_of_sameGroup hcm hp) hne hpe)) h
  obtain ⟨c, p, hcp⟩ := hs t ht hlast
  exact hr.not_noThreadStranded hw hrun (fun hp => hcp.1 (he.mem_iff.1 hp)) hcp

/-- `ExitsLast`, on the abstract state. -/
def Sched.exitsLast (op : Op) (a : Sched) : Bool :=
  op ≠ .exit || decide (a.currentRunning ∈ a.ring (a.pid a.currentRunning) ∧
    ∀ p ∈ a.ring (a.pid a.currentRunning), p ≠ a.currentRunning → a.status p = .exited)

theorem Refines.exitsLast {k : Kernel} {a : Sched} {op : Op} (h : Refines k a)
    (ha : a.exitsLast op = true) : ExitsLast k op := by
  rintro rfl p hp hne
  simp only [Sched.exitsLast, ne_eq, not_true_eq_false, decide_false, Bool.false_or,
    decide_eq_true_eq] at ha
  rw [h.core] at hp hne ⊢
  exact ha.2 p (h.mem_ring_of_sameGroup ha.1 hp) hne

/-- Two tasks: the first makes a thread, hands it the turn and gets it back; the second exits. -/
theorem Run.no_thread_stranded_two_tasks : ∃ tr k,
    Run (fun _ k op => ¬ k.Stalls op ∧ ExitsLast k op) (Kernel.boot 2 1 fun _ => 0) tr k ∧
    tr.map Transition.op =
      [.timer, .threadCreate, .threadYield, .threadYield, .yield, .exit, .threadYield] ∧
    NoThreadStranded tr k := by
  obtain ⟨tr, k, hrun, hops⟩ := Run.of_exec 2 1 (fun _ => 0) Sched.exitsLast ExitsLast
    (fun _ _ _ hr ha => hr.exitsLast ha)
    [.timer, .threadCreate, .threadYield, .threadYield, .yield, .exit, .threadYield] (by decide)
  exact ⟨tr, k, hrun, hops, Run.no_thread_stranded hrun⟩

/-- **They are in general**: a thread that is alone on the CPU makes another one and exits, and
nothing leads back to the new one. -/
theorem Run.thread_stranded : ¬ ∀ (n timeBase : ℕ) (clock : ℕ → ℕ) (tr : List Transition)
    (k : Kernel), Run Unstalled (Kernel.boot n timeBase clock) tr k → NoThreadStranded tr k := by
  intro h
  have hexec : ((Sched.boot 2 1 fun _ => 0).exec (fun _ _ => true)
      [.timer, .threadCreate, .exit]).any (fun a => a.ring 1 = [.pcb 0, .tcb 0] ∧
        a.status (.pcb 0) = .exited ∧ a.status (.tcb 0) = .ready) = true := by decide
  obtain ⟨a, he, ha⟩ := (Option.any_eq_true _ _).1 hexec
  obtain ⟨hring, hpcb, htcb⟩ := of_decide_eq_true ha
  obtain ⟨tr, k, hrun, -, hr, hw, ha⟩ := Run.unstalled_of_exec_eq he
  have hcr : a.Created (.pcb 0) := hw.created_of_mem_ring (g := 1) (by simp [hring])
  have hs : a.Stranded (.pcb 0) (.tcb 0) :=
    ⟨by simp [Sched.NotExited, htcb], ⟨hcr, hpcb⟩, 1, by simp [hring], by simp [hring]⟩
  refine hr.not_noThreadStranded hw ha (fun hp => hs.1 ?_) hs (h _ _ _ tr k hrun)
  rw [← congrArg Core.status hr.core]
  exact (Run.mem_exiters hrun).1 hp

end UcasOs
