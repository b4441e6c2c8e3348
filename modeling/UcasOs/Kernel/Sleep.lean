import UcasOs.Kernel.Queues

/-!
# Tasks that must not run

A task that has called `do_sleep(s)` when `get_timer()` was `t` must not be back in user mode
before `get_timer()` is `t + s`; a task that has called `do_exit` must never be back.

* `Asleep p d a` — the invariant of a sleeper `p` with deadline `d`: the time has come, or it is
  still on the sleep queue with a `wakeup_time` that is not too early.
* `Exited p a` — the invariant of a task that has exited.
* `Run.stays_away_of_unstalled` — both kinds of tasks stay away, in every run in which
  `do_scheduler` never returns to a task that must not go on, and in which no `wakeup_time` wraps
  around.  `Run.stays_away_fails` is the run of a single task that sleeps: nobody else is ready, and
  `do_scheduler` returns to it at once.
-/

set_option autoImplicit false

namespace UcasOs

/-- If `t` is a call of `do_sleep` or `do_exit`, its caller is not back too early in the state after
the trap `t'`. -/
def Away (t t' : Transition) : Prop :=
  (∀ s, t.op = .sleep s → t'.post.currentRunning = t.pre.currentRunning →
    t.pre.getTimer.1 + s.toNat ≤ t'.post.getTimer.1) ∧
  (t.op = .exit → t'.post.currentRunning ≠ t.pre.currentRunning ∧
    t'.post.status t.pre.currentRunning = .exited)

/-- **Sleeping and exited tasks do not run**: not in the state after their own trap, and not after
any later one. -/
def StayAway (tr : List Transition) : Prop := (∀ t ∈ tr, Away t t) ∧ tr.Pairwise Away

namespace Sched

variable {a a' : Sched} {p x : PcbPtr} {d : ℕ} {op : Op}

/-! ## Time -/

/-- The time CSR does not go backwards. -/
def Ticking (a : Sched) : Prop := Monotone a.clock ∧ ∀ n, a.timeElapsed ≤ a.clock n

theorem Ticking.getTimer (h : a.Ticking) : (a.withCore (·.getTimer.2)).Ticking :=
  ⟨fun _ _ hmn => h.1 (Nat.succ_le_succ hmn), fun n => h.1 (Nat.zero_le (n + 1))⟩

theorem Ticking.of_eq (h : a.Ticking) (hc : a'.clock = a.clock)
    (ht : a'.timeElapsed = a.timeElapsed) : a'.Ticking := by
  rw [Ticking, hc, ht]; exact h

/-- What `get_timer` gave last is at most what it will give next. -/
theorem Ticking.le_getTimer (h : a.Ticking) : a.timeElapsed / a.timeBase ≤ a.getTimer.1 :=
  Nat.div_le_div_right (h.2 0)

/-! ## Sleepers -/

/-- The deadline `d` of `p` has passed, or `p` is on the sleep queue until then. -/
def Asleep (p : PcbPtr) (d : ℕ) (a : Sched) : Prop :=
  a.Ticking ∧ (d ≤ a.timeElapsed / a.timeBase ∨ p ∈ a.queue .sleep ∧ d ≤ a.wakeupTime p)

namespace Asleep

theorem of_eq (h : a.Asleep p d) (hc : a'.clock = a.clock) (ht : a'.timeElapsed = a.timeElapsed)
    (hb : a'.timeBase = a.timeBase) (hw : a'.wakeupTime p = a.wakeupTime p)
    (hq : p ∈ a.queue .sleep → p ∈ a'.queue .sleep) : a'.Asleep p d := by
  refine ⟨h.1.of_eq hc ht, ?_⟩
  rw [ht, hb, hw]
  exact h.2.imp_right fun hs => ⟨hq hs.1, hs.2⟩

theorem getTimer (h : a.Asleep p d) : (a.withCore (·.getTimer.2)).Asleep p d :=
  ⟨h.1.getTimer, h.2.imp_left fun hd => hd.trans h.1.le_getTimer⟩

/-- Making another task ready does not wake `p` up. -/
theorem unblock_of_ne (h : a.Asleep p d) (hx : p ∈ a.queue .sleep → p ≠ x) :
    (a.unblock x).Asleep p d :=
  h.of_eq rfl rfl rfl rfl fun hp => Wf.mem_unblock.2 (Or.inl ⟨hp, hx hp⟩)

/-- `check_sleeping` wakes `p` up when its deadline has passed. -/
theorem wake (h : a.Asleep p d) (hx : a.wakeupTime x ≤ a.timeElapsed / a.timeBase) :
    (a.unblock x).Asleep p d := by
  by_cases hpx : p = x
  · refine ⟨h.1.of_eq rfl rfl, Or.inl ?_⟩
    rcases h.2 with hd | ⟨-, hd⟩
    · exact hd
    · exact hd.trans (hpx ▸ hx)
  · exact h.unblock_of_ne fun _ => hpx

theorem dispatchTo (h : a.Asleep p d) (hw : a.Wf) (hx : x ∈ a.queue .ready) :
    (a.dispatchTo x).Asleep p d := by
  refine h.of_eq rfl rfl rfl rfl fun hp => Wf.mem_dispatchTo.2 ⟨hp, fun e => ?_⟩
  exact absurd (hw.disjoint hx (e ▸ hp)) (by simp)

/-- Another task that blocks does not wake `p` up. -/
theorem enqueue_of_ne {q : QueueId} (h : a.Asleep p d) (hx : p ∈ a.queue .sleep → p ≠ x) :
    (a.enqueue q x).Asleep p d :=
  h.of_eq rfl rfl rfl rfl fun hp => Wf.mem_enqueue.2 (Or.inl ⟨hp, hx hp⟩)

/-- Another call of `do_sleep` does not wake `p` up. -/
theorem sleepCurrent (h : a.Asleep p d) (hne : p ∈ a.queue .sleep → p ≠ a.currentRunning)
    (s : UInt32) : (a.sleepCurrent s).Asleep p d := by
  have h1 : ((a.enqueue .sleep a.currentRunning).withCore (·.getTimer.2)).Asleep p d :=
    (h.enqueue_of_ne hne).getTimer
  refine ⟨h1.1.of_eq rfl rfl, ?_⟩
  by_cases hp : p ∈ a.queue .sleep
  · refine h1.2.imp_right fun hs => ⟨hs.1, ?_⟩
    have hw : (a.sleepCurrent s).wakeupTime p = a.wakeupTime p := Function.update_of_ne (hne hp) _ _
    rw [hw]
    exact hs.2
  · left
    have h2 : d ≤ a.timeElapsed / a.timeBase := h.2.resolve_right fun hs => hp hs.1
    exact h2.trans h.1.le_getTimer

/-- The caller of `do_sleep` goes to sleep until its deadline. -/
theorem of_sleepCurrent (ht : a.Ticking) {s : UInt32} (hs : a.getTimer.1 + s.toNat < 2 ^ 64) :
    (a.sleepCurrent s).Asleep a.currentRunning (a.getTimer.1 + s.toNat) := by
  refine ⟨ht.getTimer.of_eq rfl rfl, Or.inr ⟨?_, ?_⟩⟩
  · rw [sleepCurrent_queue]
    exact Wf.mem_enqueue.2 (Or.inr ⟨rfl, rfl⟩)
  · have hw : (a.sleepCurrent s).wakeupTime a.currentRunning =
        (a.getTimer.1 + s.toNat) % 2 ^ 64 := Function.update_self _ _ _
    rw [hw, Nat.mod_eq_of_lt hs]

/-- **Every operation leaves a sleeper asleep** until its deadline. -/
theorem stable (p : PcbPtr) (d : ℕ) : Stable (Asleep p d) := by
  have hne : ∀ {b : Sched}, b.Wf → b.status b.currentRunning = .running → p ∈ b.queue .sleep →
      p ≠ b.currentRunning := fun hw hc hp e => hw.not_queued_of_running hc _ (e ▸ hp)
  exact
    { tick := fun _ h => h.getTimer
      wake := fun _ h _ hx => h.wake hx
      preempt := fun hw h hc => h.unblock_of_ne (hne hw hc)
      dispatch := fun hw h hq _ => h.dispatchTo hw (by rw [hq]; exact List.mem_cons_self)
      sleep := fun s hw h hc => h.sleepCurrent (hne hw hc) s
      locks := fun _ _ h => h.of_eq rfl rfl rfl rfl id
      block := fun _ hw h hc => h.enqueue_of_ne (hne hw hc)
      handover := fun hw h hx => h.unblock_of_ne fun hp e =>
        absurd (hw.disjoint hp (e ▸ hx)) (by simp)
      threadCreate := fun _ h _ => h.of_eq rfl rfl rfl rfl id
      threadYield := fun hw h hc => by
        obtain ⟨next, rest, -, -, -, he⟩ := hw.threadYield_eq hc
        rw [he]; exact h.of_eq rfl rfl rfl rfl id }

theorem exitCurrent (h : a.Asleep p d) : a.exitCurrent.Asleep p d := h.of_eq rfl rfl rfl rfl id

/-- A sleeper that is `RUNNING` is past its deadline. -/
theorem le_getTimer (h : a.Asleep p d) (hw : a.Wf) (hrun : a.Running)
    (hp : a.currentRunning = p) (hpb : p ≠ .pid0) : d ≤ a.getTimer.1 := by
  have hr : a.status a.currentRunning = .running := hrun.resolve_left (hp ▸ hpb)
  have h1 := h.2.resolve_right fun hs => hw.not_queued_of_running hr .sleep (hp ▸ hs.1)
  exact h1.trans h.1.le_getTimer

end Asleep

/-! ## Exited tasks -/

/-- `p` has exited. -/
def Exited (p : PcbPtr) (a : Sched) : Prop := a.Created p ∧ a.status p = .exited

namespace Exited

/-- An exited task is on no queue. -/
theorem not_mem (h : a.Exited p) (hw : a.Wf) (q : QueueId) : p ∉ a.queue q := fun hp => by
  have h1 := hw.queued_status hp
  rw [h.2] at h1
  cases q <;> contradiction

theorem ne_current (h : a.Exited p) (hw : a.Wf) (hrun : a.Running) : a.currentRunning ≠ p := by
  rintro rfl
  rcases hrun with hb | hr
  · exact hw.not_created_boot (hb ▸ h.1)
  · rw [h.2] at hr; contradiction

theorem of_eq (h : a.Exited p) (hr : a'.ring = a.ring) (hp : a'.pid = a.pid)
    (hs : a'.status p = a.status p) : a'.Exited p := by
  rw [Exited, Created, hr, hp, hs]; exact h

theorem enqueue {q : QueueId} (h : a.Exited p) (hx : p ≠ x) : (a.enqueue q x).Exited p :=
  h.of_eq rfl rfl ((Wf.enqueue_status p).trans (if_neg hx))

theorem unblock (h : a.Exited p) (hx : p ≠ x) : (a.unblock x).Exited p :=
  h.of_eq rfl rfl ((Wf.unblock_status p).trans (if_neg hx))

theorem ne_of_status {b : Sched} (h : b.Exited p) (hx : b.status x ≠ .exited) : p ≠ x := by
  rintro rfl; exact hx h.2

/-- **Exited tasks stay exited.** -/
theorem stable (p : PcbPtr) : Stable (Exited p) := by
  have hq : ∀ {b : Sched} {x : PcbPtr} {q : QueueId}, b.Wf → b.Exited p → x ∈ b.queue q → p ≠ x :=
    fun hw h hx e => h.not_mem hw _ (e ▸ hx)
  have hr : ∀ {b : Sched}, b.Exited p → b.status b.currentRunning = .running →
      p ≠ b.currentRunning := fun h hc => h.ne_of_status (by rw [hc]; simp)
  exact
    { tick := fun _ h => h.of_eq rfl rfl rfl
      wake := fun hw h hx _ => h.unblock (hq hw h hx)
      preempt := fun _ h hc => h.unblock (hr h hc)
      dispatch := fun {b x rest} hw h hx _ => by
        have hne : p ≠ x := hq (q := .ready) hw h (by rw [hx]; exact List.mem_cons_self)
        exact h.of_eq rfl rfl ((Wf.dispatchTo_status p).trans (if_neg hne))
      sleep := fun {b} s _ h hc => by
        have h1 : (b.enqueue .sleep b.currentRunning).Exited p := h.enqueue (hr h hc)
        exact h1.of_eq rfl rfl rfl
      locks := fun _ _ h => h.of_eq rfl rfl rfl
      block := fun _ _ h hc => h.enqueue (hr h hc)
      handover := fun hw h hx => h.unblock (hq hw h hx)
      threadCreate := fun {b} hw h _ => by
        have hnt : p ≠ .tcb b.nthreads := fun e => hw.not_created_fresh (e ▸ h.1)
        refine ⟨Wf.created_threadCreate.2 (Or.inl h.1), ?_⟩
        rw [Wf.threadCreate_status, if_neg hnt]; exact h.2
      threadYield := fun {b} hw h hc => by
        obtain ⟨next, rest, -, -, hnext, he⟩ := hw.threadYield_eq hc
        -- the turn does not pass to an exited thread
        have hpn : p ≠ next := by
          rcases hnext with e | ⟨-, hs⟩
          · exact e ▸ hr h hc
          · exact h.ne_of_status (by rw [hs]; simp)
        refine ⟨(hw.created_threadYield hc).2 h.1, ?_⟩
        rw [he]
        exact Wf.yieldCore_status.trans (by rw [if_neg hpn, if_neg (hr h hc)]; exact h.2) }

/-- Another task may exit. -/
theorem exitCurrent (h : a.Exited p) (hne : p ≠ a.currentRunning) : a.exitCurrent.Exited p :=
  h.of_eq rfl rfl ((Wf.exitCurrent_status p).trans (if_neg hne))

/-- The caller of `do_exit` has exited. -/
theorem of_exitCurrent (hc : a.Created a.currentRunning) :
    a.exitCurrent.Exited a.currentRunning :=
  ⟨hc, (Wf.exitCurrent_status _).trans (if_pos rfl)⟩

end Exited

/-- Time goes on through every trap. -/
theorem Ticking.trap (h : a.Ticking) (hw : a.Wf)
    (hc : op = .timer ∨ a.status a.currentRunning = .running) (ht : a.trap op = some a') :
    a'.Ticking := by
  -- whose deadline it is does not matter
  have h0 : a.Asleep .pid0 0 := ⟨h, Or.inl (Nat.zero_le _)⟩
  exact ((Asleep.stable .pid0 0).trap hw h0 hc (fun _ => h0.exitCurrent) ht).1

/-- What a call of `do_sleep` or `do_exit` leaves behind. -/
def Obliged (t : Transition) (a : Sched) : Prop :=
  t.pre.currentRunning ≠ .pid0 ∧
  (∀ s, t.op = .sleep s → a.Asleep t.pre.currentRunning (t.pre.getTimer.1 + s.toNat)) ∧
  (t.op = .exit → a.Exited t.pre.currentRunning)

/-- An obligation that is in force is met. -/
theorem Obliged.away {t : Transition} {k k' : Kernel} (h : a.Obliged t) (hr : Refines k' a)
    (hw : a.Wf) (hrun : a.Running) : Away t ⟨k, op, k'⟩ := by
  have hcur : k'.currentRunning = a.currentRunning := congrArg Core.currentRunning hr.core
  refine ⟨fun s hs hp => ?_, fun he => ⟨?_, ?_⟩⟩
  · have h1 := (h.2.1 s hs).le_getTimer hw hrun (hcur.symm.trans hp) h.1
    rwa [← hr.core] at h1
  · change k'.currentRunning ≠ _
    rw [hcur]; exact (h.2.2 he).ne_current hw hrun
  · change k'.status _ = _
    rw [congrArg Core.status hr.core]; exact (h.2.2 he).2

theorem Obliged.trap {t : Transition} (h : a.Obliged t) (hw : a.Wf) (hrun : a.Running)
    (hc : op = .timer ∨ a.status a.currentRunning = .running) (ht : a.trap op = some a') :
    a'.Obliged t := by
  refine ⟨h.1, fun s hs => ?_, fun he => ?_⟩
  · exact (Asleep.stable _ _).trap hw (h.2.1 s hs) hc (fun _ => (h.2.1 s hs).exitCurrent) ht
  · have hx := h.2.2 he
    exact (Exited.stable _).trap hw hx hc
      (fun _ => hx.exitCurrent (hx.ne_current hw hrun).symm) ht

/-- The obligation of the trap itself. -/
theorem Obliged.of_trap {k k' : Kernel} (hr : Refines k a) (hw : a.Wf) (htick : a.Ticking)
    (hpb : a.currentRunning ≠ .pid0) (hc : a.status a.currentRunning = .running)
    (hfit : ∀ s, op = .sleep s → a.getTimer.1 + s.toNat < 2 ^ 64) (ht : a.trap op = some a') :
    a'.Obliged ⟨k, op, k'⟩ := by
  have hcur : k.currentRunning = a.currentRunning := congrArg Core.currentRunning hr.core
  have hact : a.Active a.currentRunning := Or.inl ⟨rfl, hc⟩
  refine ⟨fun e => hpb (hcur ▸ e), ?_, ?_⟩
  · rintro s rfl
    rw [← Option.some_inj.1 ht]
    change (a.sleepCurrent s).doScheduler.Asleep k.currentRunning (k.getTimer.1 + s.toNat)
    rw [hcur, hr.core]
    exact (Asleep.stable _ _).doScheduler (hw.sleepCurrent hact s)
      (Asleep.of_sleepCurrent htick (hfit s rfl))
  · rintro rfl
    rw [← Option.some_inj.1 ht]
    change a.exitCurrent.doScheduler.Exited k.currentRunning
    rw [hcur]
    exact (Exited.stable _).doScheduler (hw.exitCurrent hc)
      (Exited.of_exitCurrent (hw.created_of_active hact))

end Sched

theorem StayAway.concat {tr : List Transition} {t' : Transition} (h : StayAway tr)
    (hall : ∀ t ∈ tr ++ [t'], Away t t') : StayAway (tr ++ [t']) := by
  have hlast : Away t' t' := hall t' (by simp)
  refine ⟨fun t ht => ?_, List.pairwise_append.2 ⟨h.2, List.pairwise_singleton _ _, ?_⟩⟩
  · rcases List.mem_append.1 ht with ht | ht
    · exact h.1 t ht
    · rw [List.mem_singleton.1 ht]; exact hlast
  · intro t ht t'' ht''
    rw [List.mem_singleton.1 ht'']
    exact hall t (List.mem_append_left _ ht)

/-! ## The result -/

/-- The deadline of a sleep fits into `wakeup_time`. -/
def DeadlineFits (k : Kernel) (op : Op) : Prop :=
  ∀ s, op = .sleep s → k.getTimer.1 + s.toNat < 2 ^ 64

/-- `DeadlineFits`, on the abstract state. -/
def Sched.deadlineFits : Op → Sched → Bool
  | .sleep s, a => decide (a.getTimer.1 + s.toNat < 2 ^ 64)
  | _, _ => true

/-- **Sleeping and exited tasks stay away**, in every run in which `do_scheduler` does not return
to a task that must not go on, and no deadline wraps around. -/
theorem Run.stays_away {n timeBase : ℕ} {clock : ℕ → ℕ} (hclock : Monotone clock)
    {tr : List Transition} {k : Kernel}
    (h : Run (fun _ k op => ¬ k.Stalls op ∧ DeadlineFits k op) (Kernel.boot n timeBase clock) tr k) :
    StayAway tr := by
  obtain ⟨a, -, -, -, -, haway, -⟩ := Run.induction
    (P := fun tr a => a.Ticking ∧ StayAway tr ∧ ∀ t ∈ tr, (t.op ≠ .timer → a.Obliged t))
    (fun _ _ _ h => h.1)
    ⟨⟨hclock, fun _ => Nat.zero_le _⟩, ⟨fun t ht => absurd ht (by simp), List.Pairwise.nil⟩,
      fun t ht => absurd ht (by simp)⟩ (by
      rintro tr k k' op a a' hr hw hrun ⟨htick, haway, hob⟩ ⟨-, hfit⟩ hc ht hr' hw' hrun'
      have hob' : ∀ t ∈ tr ++ [⟨k, op, k'⟩], (t.op ≠ .timer → a'.Obliged t) := by
        intro t ht' hne
        rcases List.mem_append.1 ht' with ht' | ht'
        · exact (hob t ht' hne).trap hw hrun hc ht
        · rw [List.mem_singleton.1 ht'] at hne ⊢
          have hcr := hc.resolve_left hne
          refine Sched.Obliged.of_trap hr hw htick (hw.ne_boot_of_running hcr) hcr ?_ ht
          rw [← hr.core]; exact hfit
      refine ⟨htick.trap hw hc ht, haway.concat fun t ht' => ?_, hob'⟩
      by_cases hne : t.op = .timer
      · exact ⟨fun s hs => absurd (hne.symm.trans hs) (by simp),
          fun he => absurd (hne.symm.trans he) (by simp)⟩
      · exact (hob' t ht' hne).away hr' hw' hrun') h
  exact haway

/-- Two tasks: one sleeps, wakes up and exits, and the other runs meanwhile. -/
theorem Run.stays_away_two_tasks : ∃ tr k,
    Run (fun _ k op => ¬ k.Stalls op ∧ DeadlineFits k op) (Kernel.boot 2 1 fun t => t) tr k ∧
    tr.map Transition.op = [.timer, .sleep 3, .yield, .yield, .timer, .yield, .exit] ∧
    StayAway tr := by
  have hfits : ∀ k a op, Refines k a → Sched.deadlineFits op a = true → DeadlineFits k op := by
    rintro k a op hr hf s rfl
    rw [hr.core]
    simpa [Sched.deadlineFits] using hf
  obtain ⟨tr, k, hrun, hops⟩ := Run.of_exec 2 1 (fun t => t) Sched.deadlineFits DeadlineFits hfits
    [.timer, .sleep 3, .yield, .yield, .timer, .yield, .exit] (by decide)
  exact ⟨tr, k, hrun, hops, Run.stays_away monotone_id hrun⟩

/-- **They do not in general**: a single task sleeps, and is back before any time has passed. -/
theorem Run.stays_away_fails : ¬ ∀ (n timeBase : ℕ) (clock : ℕ → ℕ) (tr : List Transition)
    (k : Kernel), Monotone clock → Run (fun _ _ _ => True) (Kernel.boot n timeBase clock) tr k →
    StayAway tr := by
  intro h
  have hr₀ : Refines (Kernel.boot 1 1 fun _ => 0) (Sched.boot 1 1 fun _ => 0) := Refines.boot
  obtain ⟨k₁, hs₁, hr₁, hw₁⟩ := hr₀.step Sched.Wf.boot (Or.inl rfl) (Or.inl rfl)
    (by simp [Sched.Wf.NeedsRunning]) (rfl : Sched.trap .timer _ = some _)
  obtain ⟨k₂, hs₂, hr₂, -⟩ := hr₁.step hw₁ (Or.inr (by decide)) (Or.inr (Or.inl ⟨rfl, by decide⟩))
    (by simp [Sched.Wf.NeedsRunning]) (rfl : Sched.trap (.sleep 10) _ = some _)
  have hrun : Run (fun _ _ _ => True) (Kernel.boot 1 1 fun _ => 0)
      [⟨_, .timer, k₁⟩, ⟨k₁, .sleep 10, k₂⟩] k₂ :=
    Run.step (Run.step Run.refl trivial hs₁) trivial hs₂
  have haway : Away ⟨k₁, .sleep 10, k₂⟩ ⟨k₁, .sleep 10, k₂⟩ :=
    (h 1 1 _ _ k₂ monotone_const hrun).1 _ (by simp)
  have hback := haway.1 10 rfl
  -- the sleeper is current again, at time `0`
  simp only [hr₁.core, hr₂.core] at hback
  exact absurd (hback (by decide)) (by decide)

end UcasOs
