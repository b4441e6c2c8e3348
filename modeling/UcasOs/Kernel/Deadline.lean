import UcasOs.Kernel.Frame
import UcasOs.Kernel.Run
import UcasOs.Kernel.Wakeup

/-!
# How long a task sleeps

Both the deadline that `do_sleep` sets and the time `check_sleeping` compares with it are whole
seconds, rounded down.  How many ticks go by in between depends on where in a second the task was
when it went to sleep.

* `lastSleep` — what a task has called `do_sleep` with, and at which tick.
* `Run.wakeupTime_eq` — in every run this determines the deadline.
* `Run.sleep_duration` — **at a check a task is taken off `sleep_queue` exactly if `sleep_time`
  seconds have gone by since the second in which it went to sleep began.**
* `Run.sleepAndReady` — the lists are well formed at every check of an unstalled run.
* `Run.sleep_duration_fails` — the sleep may end earlier than after `sleep_time` seconds.
-/

set_option autoImplicit false

namespace UcasOs

/-- The call of `do_sleep` that `p` makes in a trap: its argument, and the tick at which it reads the
time. -/
def Transition.sleepBy (p : PcbPtr) (t : Transition) : Option (UInt32 × ℕ) :=
  match t.op with
  | .sleep s => if t.pre.currentRunning = p then some (s, t.pre.clock 0) else none
  | _ => none

/-- The last call of `do_sleep` that `p` has made in a run. -/
def lastSleep (tr : List Transition) (p : PcbPtr) : Option (UInt32 × ℕ) :=
  tr.foldl (fun last t => (t.sleepBy p).or last) none

theorem lastSleep_concat (tr : List Transition) (t : Transition) (p : PcbPtr) :
    lastSleep (tr ++ [t]) p = (t.sleepBy p).or (lastSleep tr p) := by
  rw [lastSleep, List.foldl_append]
  rfl

/-! ## The deadlines -/

namespace Kernel

variable {k k' k₀ : Kernel} {op : Op} {fuel : ℕ} {p : PcbPtr}

theorem inert_wakeupTime : Core.Inert fun c => (c.wakeupTime, c.timeBase) :=
  ⟨fun _ _ _ => rfl, fun _ => rfl, fun _ _ => rfl, fun _ _ => rfl, fun _ _ _ => rfl,
    fun _ _ => rfl⟩

theorem doScheduler_wakeupTime (h : k.doScheduler fuel = some k') :
    k'.wakeupTime = k.wakeupTime ∧ k'.timeBase = k.timeBase :=
  Prod.mk.inj (doScheduler_inert inert_wakeupTime h)

/-- The deadline of the task that calls `do_sleep`. -/
theorem sleepCurrent_wakeupTime {s : UInt32} (h : k.sleepCurrent s = some k') :
    k'.wakeupTime = Function.update k.wakeupTime k.currentRunning
      ((k.clock 0 / k.timeBase + s.toNat) % 2 ^ 64) ∧ k'.timeBase = k.timeBase := by
  rw [← Option.some_inj.1 h]
  exact ⟨rfl, rfl⟩

/-- **A trap sets the deadline of the task that calls `do_sleep` in it, and no other.** -/
theorem trap_wakeupTime (h : k.trap fuel op = some k') :
    k'.timeBase = k.timeBase ∧ k'.wakeupTime p = ((⟨k, op, k'⟩ : Transition).sleepBy p).elim
      (k.wakeupTime p) fun call => (call.2 / k.timeBase + call.1.toNat) % 2 ^ 64 := by
  by_cases hsleep : ∃ s, op = .sleep s
  · obtain ⟨s, rfl⟩ := hsleep
    rw [trap, doSleep] at h
    obtain ⟨k₁, hk₁, h⟩ := Option.bind_eq_some_iff.1 h
    obtain ⟨hw, hb⟩ := doScheduler_wakeupTime h
    obtain ⟨hw₁, hb₁⟩ := sleepCurrent_wakeupTime hk₁
    refine ⟨hb.trans hb₁, ?_⟩
    rw [hw, hw₁, Function.update_apply]
    by_cases hp : k.currentRunning = p
    · simp [Transition.sleepBy, hp]
    · simp [Transition.sleepBy, hp, Ne.symm hp]
  · have hnone : (⟨k, op, k'⟩ : Transition).sleepBy p = none := by
      rw [Transition.sleepBy]
      split
      · rename_i s hs; exact absurd ⟨s, hs⟩ hsleep
      · rfl
    have hsame : k'.wakeupTime = k.wakeupTime ∧ k'.timeBase = k.timeBase := by
      by_cases hcreate : op = .threadCreate
      · subst hcreate
        rw [← Option.some_inj.1 h]
        exact ⟨rfl, rfl⟩
      · by_cases hinit : ∃ key, op = .lockInit key
        · obtain ⟨key, rfl⟩ := hinit
          rw [← Option.some_inj.1 h]
          obtain ⟨m, hm⟩ := Sched.Wf.lockInit_core k.toCore key
          have hcore : (k.withCore fun c => (c.doMutexLockInit key).2).toCore =
              { k.toCore with mlocks := m } := hm
          rw [hcore]
          exact ⟨rfl, rfl⟩
        · exact Prod.mk.inj (trap_inert inert_wakeupTime hcreate (fun key e => hinit ⟨key, e⟩)
            (fun s e => absurd ⟨s, e⟩ hsleep) h)
    rw [hnone, hsame.1]
    exact ⟨hsame.2, rfl⟩

end Kernel

variable {ok : List Transition → Kernel → Op → Prop} {n timeBase : ℕ} {clock : ℕ → ℕ}
  {tr : List Transition} {t : Transition} {k k₀ : Kernel} {p : PcbPtr} {s : UInt32} {T : ℕ}

theorem Run.timeBase_eq (h : Run ok (Kernel.boot n timeBase clock) tr k) : k.timeBase = timeBase := by
  induction h with
  | refl =>
    have hcore : (Kernel.boot n timeBase clock).toCore = Sched.bootCore n timeBase clock :=
      Refines.boot.core
    rw [hcore]
    rfl
  | step _ _ hs ih =>
    obtain ⟨-, fuel, hk'⟩ := hs
    exact (Kernel.trap_wakeupTime (p := .pid0) hk').1.trans ih

/-- **The deadline of a task is that of its last call of `do_sleep`.** -/
theorem Run.wakeupTime_eq (h : Run ok (Kernel.boot n timeBase clock) tr k)
    (hsleep : lastSleep tr p = some (s, T)) :
    k.wakeupTime p = (T / timeBase + s.toNat) % 2 ^ 64 := by
  induction h with
  | refl => contradiction
  | @step tr k k' op hrun _ hs ih =>
    obtain ⟨-, fuel, hk'⟩ := hs
    rw [(Kernel.trap_wakeupTime hk').2, hrun.timeBase_eq]
    rw [lastSleep_concat] at hsleep
    cases hcall : (⟨k, op, k'⟩ : Transition).sleepBy p with
    | none =>
      rw [hcall] at hsleep
      exact ih hsleep
    | some call =>
      rw [hcall, Option.some_or, Option.some_inj] at hsleep
      rw [hsleep]
      rfl

/-! ## A check -/

theorem Run.of_concat {k : Kernel} (h : Run ok (Kernel.boot n timeBase clock) (tr ++ [t]) k) :
    ∃ fuel, t.pre.trap fuel t.op = some k := by
  generalize htr : tr ++ [t] = tr' at h
  cases h with
  | refl => simp at htr
  | step _ _ hs =>
    obtain ⟨-, fuel, hk⟩ := hs
    have ht := (List.append_inj' htr rfl).2
    rw [List.singleton_inj] at ht
    subst ht
    exact ⟨fuel, hk⟩

/-- What a check does to a sleeper, in seconds. -/
theorem Run.not_mem_asleep_iff {sleepers ready : List PcbPtr} {i : ℕ}
    (h : Run ok (Kernel.boot n timeBase clock) (tr ++ [t]) k)
    (hentry : t.pre.schedulerEntry t.op = some k₀) (hq : k₀.SleepAndReady sleepers ready)
    (hp : sleepers[i]? = some p) (hsleep : lastSleep (tr ++ [t]) p = some (s, T))
    (hwrap : T / timeBase + s.toNat < 2 ^ 64) :
    p ∉ k₀.asleep sleepers ↔ T / timeBase + s.toNat ≤ k₀.clock i / timeBase := by
  obtain ⟨fuel, htrap⟩ := h.of_concat
  rw [Refines.trap_of_schedulerEntry hentry] at htrap
  obtain ⟨hw, hb⟩ := Kernel.doScheduler_wakeupTime htrap
  rw [Kernel.mem_asleep_iff hq.sleepers_nodup hp, Nat.not_lt, ← hw, ← hb, h.wakeupTime_eq hsleep,
    h.timeBase_eq, Nat.mod_eq_of_lt hwrap]

/-- Whole seconds and ticks. -/
theorem seconds_le_iff {T' s : ℕ} (hb : 0 < timeBase) (hT : T ≤ T') :
    T / timeBase + s ≤ T' / timeBase ↔ s * timeBase ≤ T' - T + T % timeBase := by
  have hsplit : timeBase * (T / timeBase) + T % timeBase = T := Nat.div_add_mod T timeBase
  rw [Nat.le_div_iff_mul_le hb, Nat.add_mul, Nat.mul_comm (T / timeBase)]
  omega

/-- **At a check a task is taken off `sleep_queue` exactly if `sleep_time` seconds have gone by since
the second in which it went to sleep began.**  So it never sleeps a whole second less than it should,
and the first check after `sleep_time` seconds ends its sleep.  The lists must be well formed at the
check; in unstalled runs they always are (`Run.sleepAndReady`). -/
theorem Run.sleep_duration {sleepers ready : List PcbPtr} {i : ℕ} (hb : 0 < timeBase)
    (h : Run ok (Kernel.boot n timeBase clock) (tr ++ [t]) k)
    (hentry : t.pre.schedulerEntry t.op = some k₀) (hq : k₀.SleepAndReady sleepers ready)
    (hp : sleepers[i]? = some p) (hsleep : lastSleep (tr ++ [t]) p = some (s, T))
    (hwrap : T / timeBase + s.toNat < 2 ^ 64) (hlater : T ≤ k₀.clock i) :
    ∃ k₁ sleepers' ready', (∀ fuel, sleepers.length < fuel → k₀.checkSleeping fuel = some k₁) ∧
      k₁.SleepAndReady sleepers' ready' ∧
      (p ∉ sleepers' ↔ s.toNat * timeBase ≤ k₀.clock i - T + T % timeBase) ∧
      (p ∉ sleepers' → s.toNat * timeBase < k₀.clock i - T + timeBase) ∧
      (s.toNat * timeBase ≤ k₀.clock i - T → p ∉ sleepers') := by
  obtain ⟨k₁, hends, hlists, -⟩ := hq.checkSleeping
  have hoff := h.not_mem_asleep_iff hentry hq hp hsleep hwrap
  rw [seconds_le_iff hb hlater] at hoff
  have hmod : T % timeBase < timeBase := Nat.mod_lt T hb
  refine ⟨k₁, _, _, fun fuel hfuel => (hends fuel hfuel).1, hlists, hoff, fun hn => ?_, fun hle => ?_⟩
  · have hle := hoff.1 hn
    omega
  · exact hoff.2 (by omega)

/-! ## The lists -/

/-- The lists that a kernel refines are well formed. -/
theorem Refines.sleepAndReady {a : Sched} (h : Refines k a) (hw : a.Wf) :
    k.SleepAndReady (a.queue .sleep) (a.queue .ready) where
  sleep_ring := h.queueRing .sleep
  ready_ring := h.queueRing .ready
  disjoint _ hs hr := absurd (hw.disjoint hs hr) (by simp)

/-- **In unstalled runs the lists are well formed** whenever `do_scheduler` is called. -/
theorem Run.sleepAndReady (h : Run Unstalled (Kernel.boot n timeBase clock) (tr ++ [t]) k)
    (hentry : t.pre.schedulerEntry t.op = some k₀) :
    ∃ sleepers ready, k₀.SleepAndReady sleepers ready := by
  obtain ⟨k₁, h₁, h₂⟩ := Run.split h
  obtain ⟨rfl, -, ⟨hop, -⟩, -⟩ := h₂.split_cons
  obtain ⟨a, hr, hw, hrun⟩ := Run.refines (fun _ _ _ h => h) h₁
  rw [congrArg Core.currentRunning hr.core] at hop
  have hc := hrun.of_step hop
  have hact := Sched.active_of_running hc
  have hrel := hr.schedulerEntry (hact.imp_right hw.created_of_active)
  rw [hentry] at hrel
  obtain ⟨b, hb⟩ : ∃ b, a.schedulerEntry t.op = some b := by
    generalize a.schedulerEntry t.op = o at hrel
    cases hrel
    exact ⟨_, rfl⟩
  rw [hb] at hrel
  cases hrel with
  | some hr' =>
    exact ⟨_, _, hr'.sleepAndReady (hw.schedulerEntry hact (Sched.needsRunning_of_running hc) hb)⟩
/-! ## One task that sleeps -/

/-- The run in which the only task is dispatched by the first timer interrupt and calls `do_sleep` at
tick `clock 1`: what `check_sleeping` finds then. -/
theorem exists_sleep (timeBase : ℕ) (clock : ℕ → ℕ) (s : UInt32) : ∃ tr t k k₀,
    Run (fun _ _ _ => True) (Kernel.boot 1 timeBase clock) (tr ++ [t]) k ∧
      t.pre.schedulerEntry t.op = some k₀ ∧ k₀.SleepAndReady [.pcb 0] [] ∧
      lastSleep (tr ++ [t]) (.pcb 0) = some (s, clock 1) ∧ k₀.clock 0 = clock 2 := by
  have hr₀ : Refines (Kernel.boot 1 timeBase clock) (Sched.boot 1 timeBase clock) := Refines.boot
  obtain ⟨k₁, hs₁, hr₁, hw₁⟩ := hr₀.step Sched.Wf.boot (Or.inl rfl) (Or.inl rfl)
    (by simp [Sched.Wf.NeedsRunning]) (rfl : Sched.trap .timer _ = some _)
  have hcur : k₁.currentRunning = .pcb 0 := congrArg Core.currentRunning hr₁.core
  have hclock : k₁.clock 0 = clock 1 := congrFun (congrArg Core.clock hr₁.core) 0
  obtain ⟨k₂, hs₂, -, -⟩ := hr₁.step hw₁ (Or.inr (by show PcbPtr.pcb 0 ≠ .pid0; decide))
    (Or.inr (Or.inl ⟨rfl, rfl⟩)) (by simp [Sched.Wf.NeedsRunning])
    (rfl : Sched.trap (.sleep s) _ = some _)
  obtain ⟨k₀, hk₀, hr'⟩ := hr₁.sleepCurrent (hw₁.created_of_active (Or.inl ⟨rfl, rfl⟩)) s
  have hw' := hw₁.sleepCurrent (Or.inl ⟨rfl, rfl⟩) s
  refine ⟨[⟨_, .timer, k₁⟩], ⟨k₁, .sleep s, k₂⟩, k₂, k₀,
    Run.step (Run.step Run.refl trivial hs₁) trivial hs₂, hk₀, hr'.sleepAndReady hw', ?_, ?_⟩
  · rw [lastSleep_concat]
    simp [Transition.sleepBy, hcur, hclock]
  · exact congrFun (congrArg Core.clock hr'.core) 0

/-- A task that sleeps for one second of ten ticks, and is checked too early. -/
theorem Run.sleep_duration_early_check : ∃ (k₀ k₁ : Kernel) (left ready : List PcbPtr),
    k₀.SleepAndReady [.pcb 0] [] ∧ (∀ fuel, 1 < fuel → k₀.checkSleeping fuel = some k₁) ∧
      k₁.SleepAndReady left ready ∧ .pcb 0 ∈ left := by
  obtain ⟨tr, t, k, k₀, hrun, hentry, hlists, hsleep, hclock⟩ := exists_sleep 10 (fun n => n) 1
  have hlater : 1 ≤ k₀.clock 0 := by rw [hclock]; decide
  obtain ⟨k₁, left, ready, hends, hlists', hoff, -⟩ :=
    Run.sleep_duration (by decide) hrun hentry hlists rfl hsleep (by decide) hlater
  refine ⟨k₀, k₁, left, ready, hlists, hends, hlists', ?_⟩
  by_contra hnot
  have hle := hoff.1 hnot
  rw [hclock] at hle
  exact absurd hle (by decide)

/-- **A sleep can be too short**: it begins in the last tick of a second of two ticks, and ends after
one tick. -/
theorem Run.sleep_duration_fails : ¬ ∀ (n timeBase : ℕ) (clock : ℕ → ℕ) (tr : List Transition)
    (t : Transition) (k k₀ : Kernel) (sleepers ready : List PcbPtr) (i : ℕ) (p : PcbPtr)
    (s : UInt32) (T : ℕ), 0 < timeBase →
      Run (fun _ _ _ => True) (Kernel.boot n timeBase clock) (tr ++ [t]) k →
      t.pre.schedulerEntry t.op = some k₀ → k₀.SleepAndReady sleepers ready →
      sleepers[i]? = some p → lastSleep (tr ++ [t]) p = some (s, T) →
      T / timeBase + s.toNat < 2 ^ 64 → T ≤ k₀.clock i →
      ∀ k₁ fuel left ready', k₀.checkSleeping fuel = some k₁ → k₁.SleepAndReady left ready' →
        p ∉ left → s.toNat * timeBase ≤ k₀.clock i - T := by
  intro h
  obtain ⟨tr, t, k, k₀, hrun, hentry, hlists, hsleep, hclock⟩ := exists_sleep 2 (fun n => n) 1
  have hlater : 1 ≤ k₀.clock 0 := by rw [hclock]; decide
  obtain ⟨k₁, hends, hlists', -⟩ := hlists.checkSleeping
  have hoff : PcbPtr.pcb 0 ∉ k₀.asleep [.pcb 0] := by
    rw [hrun.not_mem_asleep_iff (i := 0) hentry hlists rfl hsleep (by decide), hclock]
    decide
  have hle := h 1 2 (fun n => n) tr t k k₀ _ _ 0 _ 1 1 (by decide) hrun hentry hlists rfl hsleep
    (by decide) hlater k₁ 2 _ _ (hends 2 (by decide)).1 hlists' hoff
  rw [hclock] at hle
  exact absurd hle (by decide)

end UcasOs
