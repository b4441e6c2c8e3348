import UcasOs.Kernel.Deadline
import UcasOs.Kernel.Fairness

/-!
# How long a task waits, in ticks of the clock

`main` and `handle_irq_timer` set the timer `TIMER_INTERVAL` ticks ahead.  This adds to a run the
moments at which its traps are taken and left.

Interrupts are enabled in user mode, and in the loop of `main`.  What the hart does then is an
assumption: it takes a timer interrupt when it is due, at the latest `latency` ticks after that if
it is in user mode then, and at once if it is due when the kernel is left.  So is what the code
costs: a trap spends at most `kernel` ticks in the kernel.

## What is here

* `Clocked.Step`, `TimedRun` — the traps of unstalled runs, with the moments at which they are taken
  and left.
* `TimedRun.calls` — there is a call of `do_scheduler` in every `Timing.slice`.
* `TimedRun.ready_within` — **the `j`-th task on the ready queue has the CPU after `j` slices**.
* `TimedRun.awake_within` — a task that sleeps has it again soon after its time has come.
-/

set_option autoImplicit false

namespace UcasOs

/-- `TIMER_INTERVAL` -/
abbrev TIMER_INTERVAL : ℕ := 150000

/-- How long things take, at most. -/
structure Timing where
  /-- From a trap to the return to user mode. -/
  kernel : ℕ
  /-- From the moment at which the timer interrupt is due, in user mode, to the trap. -/
  latency : ℕ

/-- The longest time from one call of `do_scheduler` to the next. -/
def Timing.slice (d : Timing) : ℕ := TIMER_INTERVAL + d.latency + 2 * d.kernel

/-- The kernel, while the hart is in user mode, and the time. -/
structure Clocked where
  kernel : Kernel
  /-- When it has left the kernel. -/
  now : ℕ
  /-- When the timer interrupt is due: what `bios_set_timer` was called with last. -/
  timer : ℕ

/-- When the hart may take a trap, an interrupt or not, and leave it. -/
def Timing.Allows (d : Timing) (irq : Bool) (now timer taken left : ℕ) : Prop :=
  now ≤ taken ∧ taken ≤ left ∧ left ≤ taken + d.kernel ∧
    bif irq then timer ≤ taken ∧ taken ≤ max now (timer + d.latency)
    else now < timer ∧ taken ≤ timer + d.latency

/-- A trap with the moments at which it is taken and left. -/
structure Timed where
  trap : Transition
  taken : ℕ
  left : ℕ

/-- What `handle_irq_timer` calls `bios_set_timer` with. -/
def Kernel.nextTimer (k : Kernel) : ℕ := (k.getTicks.1 + TIMER_INTERVAL) % 2 ^ 64

/-- One trap, or a system call that has nothing to do with the scheduler. -/
inductive Clocked.Step (d : Timing) : Clocked → List Timed → Clocked → Prop
  /-- Whatever is read off the clock in the trap is read between the two moments. -/
  | trap {s : Clocked} {op : Op} {k' : Kernel} {taken left : ℕ} (hs : s.kernel.Step op k')
      (hst : ¬ s.kernel.Stalls op) (ht : d.Allows (op = .timer) s.now s.timer taken left)
      (hfirst : taken ≤ s.kernel.clock 0) (hlast : k'.timeElapsed ≤ left) :
      Step d s [⟨⟨s.kernel, op, k'⟩, taken, left⟩]
        ⟨k', left, if op = .timer then s.kernel.nextTimer else s.timer⟩
  | other {s : Clocked} {taken left : ℕ} (ht : d.Allows false s.now s.timer taken left) :
      Step d s [] ⟨s.kernel, left, s.timer⟩

/-- The runs from `s₀`, with the traps that concern the scheduler. -/
inductive TimedRun (d : Timing) (s₀ : Clocked) : List Timed → Clocked → Prop
  | refl : TimedRun d s₀ [] s₀
  | step {tr u : List Timed} {s s' : Clocked} (h : TimedRun d s₀ tr s) (hs : s.Step d u s') :
      TimedRun d s₀ (tr ++ u) s'

/-- The kernel when `main` has enabled the interrupts, at `now`: the clock was at `ticks` when `main`
set the timer. -/
def Clocked.boot (n timeBase : ℕ) (clock : ℕ → ℕ) (now ticks : ℕ) : Clocked where
  kernel := .boot n timeBase clock
  now := now
  timer := (ticks + TIMER_INTERVAL) % 2 ^ 64

section

variable {d : Timing} {s s' s₀ : Clocked} {tr tr' u : List Timed} {n : ℕ}

/-! ## What a timed run is made of -/

/-- Without the time it is an unstalled run. -/
theorem TimedRun.run (h : TimedRun d s₀ tr s) :
    Run Unstalled s₀.kernel (tr.map Timed.trap) s.kernel := by
  induction h with
  | refl => exact Run.refl
  | step _ hs ih =>
    rw [List.map_append]
    cases hs with
    | trap hs hst _ _ _ => exact Run.step ih hst hs
    | other _ => rwa [List.map_nil, List.append_nil]

theorem TimedRun.append (h : TimedRun d s₀ tr s) (h' : TimedRun d s tr' s') :
    TimedRun d s₀ (tr ++ tr') s' := by
  induction h' with
  | refl => rwa [List.append_nil]
  | step _ hs ih => exact List.append_assoc .. ▸ ih.step hs

/-- A step takes no negative time, and its trap is taken after the last one was left. -/
theorem Clocked.Step.now_le (h : s.Step d u s') : s.now ≤ s'.now ∧
    ∀ t ∈ u, s.now ≤ t.trap.pre.clock 0 ∧ t.left = s'.now := by
  cases h with
  | trap _ _ ht hfirst _ =>
    obtain ⟨hnow, hleft, -⟩ := ht
    refine ⟨hnow.trans hleft, fun t ht => ?_⟩
    rw [List.mem_singleton.1 ht]
    exact ⟨hnow.trans hfirst, rfl⟩
  | other ht => exact ⟨ht.1.trans ht.2.1, fun t ht => absurd ht List.not_mem_nil⟩

/-- The traps of a run read the clock after it has begun, and are left before it is over. -/
theorem TimedRun.now_le (h : TimedRun d s₀ tr s) : s₀.now ≤ s.now ∧
    ∀ t ∈ tr, s₀.now ≤ t.trap.pre.clock 0 ∧ t.left ≤ s.now := by
  induction h with
  | refl => exact ⟨le_rfl, fun t ht => absurd ht List.not_mem_nil⟩
  | step _ hs ih =>
    obtain ⟨hnow, htimes⟩ := hs.now_le
    refine ⟨ih.1.trans hnow, fun t ht => ?_⟩
    rcases List.mem_append.1 ht with ht | ht
    · exact ⟨(ih.2 t ht).1, (ih.2 t ht).2.trans hnow⟩
    · exact ⟨ih.1.trans (htimes t ht).1, (htimes t ht).2.le⟩

/-- A run that goes on after `T` is in user mode for the last time until then, and then takes the
step that goes past it. -/
theorem TimedRun.split_at (h : TimedRun d s₀ tr s) {T : ℕ} (hT : s₀.now ≤ T) (hlate : T < s.now) :
    ∃ tr₁ u tr₂ s₁ s₂, tr = tr₁ ++ u ++ tr₂ ∧ TimedRun d s₀ tr₁ s₁ ∧ s₁.Step d u s₂ ∧
      TimedRun d s₂ tr₂ s ∧ s₁.now ≤ T ∧ T < s₂.now := by
  induction h with
  | refl => omega
  | @step tr u s s' h hs ih =>
    rcases Nat.lt_or_ge T s.now with hlt | hle
    · obtain ⟨tr₁, v, tr₂, s₁, s₂, rfl, h₁, hv, h₂, hs₁, hs₂⟩ := ih hlt
      exact ⟨tr₁, v, tr₂ ++ u, s₁, s₂, List.append_assoc .., h₁, hv, h₂.step hs, hs₁, hs₂⟩
    · exact ⟨tr, u, [], s, s', (List.append_nil _).symm, h, hs, TimedRun.refl, hle, hlate⟩

/-! ## The timer is set -/

/-- The clock does not go back while the interrupt is handled. -/
theorem Sched.Ticking.trap_timer {a a' : Sched} (h : a.Ticking) (hw : a.Wf)
    (ht : a.trap .timer = some a') : a.clock 0 ≤ a'.timeElapsed := by
  obtain rfl := Option.some.inj ht
  have htick : ∀ {b : Sched}, b.Ticking ∧ a.clock 0 ≤ b.timeElapsed →
      (b.withCore (·.getTimer.2)).Ticking ∧
        a.clock 0 ≤ (b.withCore (·.getTimer.2)).timeElapsed :=
    fun hb => ⟨hb.1.getTimer, hb.2.trans (hb.1.2 0)⟩
  have hb : (a.withCore (·.getTimer.2)).Ticking ∧
      a.clock 0 ≤ (a.withCore (·.getTimer.2)).timeElapsed := ⟨h.getTimer, le_rfl⟩
  have hbw : (a.withCore (·.getTimer.2)).Wf := hw.of_eq rfl
  exact (Wf.doScheduler_induction
    (P := fun b => b.Ticking ∧ a.clock 0 ≤ b.timeElapsed) (fun _ _ => htick)
    (fun _ _ _ hb _ _ => ⟨hb.1.of_eq rfl rfl, hb.2⟩) (fun _ _ hb _ => ⟨hb.1.of_eq rfl rfl, hb.2⟩)
    (fun _ _ _ _ hb _ _ => ⟨hb.1.of_eq rfl rfl, hb.2⟩) hbw hb).2.2

/-- The scheduler is in order, with `n` processes, and the timer is set. -/
structure Clocked.Armed (n : ℕ) (s : Clocked) : Prop where
  scheduler : ∃ a, Refines s.kernel a ∧ a.Wf ∧ a.Running ∧ a.Peopled n ∧ a.Ticking
  timer : s.timer ≤ s.now + TIMER_INTERVAL

/-- Whatever happens, the timer stays set. -/
theorem Clocked.Armed.step (h : s.Armed n) (hs : s.Step d u s') : s'.Armed n := by
  obtain ⟨⟨a, hr, hw, hrun, hpeople, htick⟩, htimer⟩ := h
  cases hs with
  | @trap op k' taken left hs hst ht hfirst hlast =>
    obtain ⟨a', hc, htrap, hr', hw', hrun'⟩ :=
      hr.of_step hw hrun hs fun hc => hr.not_stuck hw hc hst
    refine ⟨⟨a', hr', hw', hrun', (Sched.Peopled.stable n).trap hw hpeople hc
      (fun _ => hpeople.of_ring rfl) htrap, htick.trap hw hc htrap⟩, ?_⟩
    dsimp only
    split
    · rename_i hop
      subst hop
      have hread : s.kernel.clock 0 ≤ k'.timeElapsed := by
        rw [hr.core, hr'.core]
        exact htick.trap_timer hw htrap
      have hle : s.kernel.nextTimer ≤ s.kernel.clock 0 + TIMER_INTERVAL := Nat.mod_le _ _
      omega
    · obtain ⟨hnow, hleft, -⟩ := ht
      omega
  | other ht =>
    obtain ⟨hnow, hleft, -⟩ := ht
    exact ⟨⟨a, hr, hw, hrun, hpeople, htick⟩, by dsimp only; omega⟩

theorem TimedRun.armed (h : TimedRun d s₀ tr s) (h₀ : s₀.Armed n) : s.Armed n := by
  induction h with
  | refl => exact h₀
  | step _ hs ih => exact ih.step hs

theorem Clocked.armed_boot {timeBase : ℕ} {clock : ℕ → ℕ} {now ticks : ℕ} (hclock : Monotone clock)
    (hticks : ticks ≤ now) : (Clocked.boot n timeBase clock now ticks).Armed n where
  scheduler := ⟨_, Refines.boot, Sched.Wf.boot, Or.inl rfl, Sched.Peopled.boot, hclock,
    fun _ => Nat.zero_le _⟩
  timer := (Nat.mod_le _ _).trans (Nat.add_le_add_right hticks _)

/-! ## Slices -/

/-- The traps of a timed run that call `do_scheduler`. -/
abbrev callsIn (tr : List Timed) : List Transition := schedulerCalls (tr.map Timed.trap)

theorem callsIn_append (tr tr' : List Timed) : callsIn (tr ++ tr') = callsIn tr ++ callsIn tr' := by
  rw [callsIn, schedulerCalls, List.map_append, List.filter_append]
  rfl

/-- How far the time and the timer have got when the calls up to `base` have been made. -/
structure Clocked.Within (d : Timing) (base : ℕ) (s : Clocked) : Prop where
  timer : s.timer ≤ base + TIMER_INTERVAL
  now : s.now ≤ base + TIMER_INTERVAL + d.latency + d.kernel

/-- **One step.**  If it does not call `do_scheduler`, the timer interrupt is still to come;
otherwise it is over a slice later. -/
theorem Clocked.Within.step {base : ℕ} (h : s.Within d base) (harmed : s.Armed n)
    (hs : s.Step d u s') : callsIn u = [] ∧ s'.Within d base ∨
      (callsIn u).length = 1 ∧ s'.now ≤ base + d.slice ∧ s'.Within d (base + d.slice) := by
  have harmed' := (harmed.step hs).timer
  obtain ⟨htimer, hnow⟩ := h
  have hslice : d.slice = TIMER_INTERVAL + d.latency + 2 * d.kernel := rfl
  cases hs with
  | @trap op k' taken left hs hst ht hfirst hlast =>
    obtain ⟨-, -, hkernel, hirq⟩ := ht
    have hleft : left ≤ base + d.slice := by
      cases hop : decide (op = .timer) with
      | true => rw [hop, cond_true] at hirq; omega
      | false => rw [hop, cond_false] at hirq; omega
    cases hcall : (⟨s.kernel, op, k'⟩ : Transition).schedules with
    | true =>
      refine Or.inr ⟨?_, hleft, ⟨?_, ?_⟩⟩
      · rw [callsIn, schedulerCalls, List.map_singleton, List.filter_cons_of_pos hcall]
        rfl
      · dsimp only at harmed' ⊢
        omega
      · dsimp only
        omega
    | false =>
      -- it is no timer interrupt, then
      have hop : op ≠ .timer := by
        rintro rfl
        exact Bool.noConfusion (hcall : true = false)
      have hirq : s.now < s.timer ∧ taken ≤ s.timer + d.latency := by
        rwa [decide_eq_false hop] at hirq
      refine Or.inl ⟨?_, ⟨?_, ?_⟩⟩
      · rw [callsIn, schedulerCalls, List.map_singleton, List.filter_cons_of_neg (by simp [hcall])]
        rfl
      · rwa [if_neg hop]
      · dsimp only
        omega
  | other ht =>
    obtain ⟨-, -, hkernel, -, htaken⟩ := ht
    exact Or.inl ⟨rfl, htimer, by dsimp only; omega⟩

theorem Clocked.Armed.within (h : s.Armed n) : s.Within d s.now :=
  ⟨h.timer, by omega⟩

/-- **There is a call of `do_scheduler` in every slice.**  A run that lasts longer than `m` slices
has got through `m` calls when they are over. -/
theorem TimedRun.calls (h : TimedRun d s₀ tr s) (h₀ : s₀.Armed n) {m : ℕ}
    (hlong : s₀.now + m * d.slice < s.now) :
    ∃ tr₁ tr₂ s₁, tr = tr₁ ++ tr₂ ∧ TimedRun d s₀ tr₁ s₁ ∧ (callsIn tr₁).length = m ∧
      s₁.now ≤ s₀.now + m * d.slice := by
  -- up to the last call that is over, and how far the step after it can go
  suffices H : (∀ m ≤ (callsIn tr).length, ∃ tr₁ tr₂ s₁, tr = tr₁ ++ tr₂ ∧ TimedRun d s₀ tr₁ s₁ ∧
      (callsIn tr₁).length = m ∧ s₁.now ≤ s₀.now + m * d.slice) ∧
      s.Within d (s₀.now + (callsIn tr).length * d.slice) by
    refine H.1 m (Nat.le_of_not_lt fun hlt => ?_)
    have hnow := H.2.now
    have hmul : ((callsIn tr).length + 1) * d.slice ≤ m * d.slice := Nat.mul_le_mul_right _ hlt
    rw [Nat.succ_mul] at hmul
    have hslice : d.slice = TIMER_INTERVAL + d.latency + 2 * d.kernel := rfl
    omega
  clear hlong m
  induction h with
  | refl =>
    refine ⟨fun m hm => ⟨[], [], s₀, rfl, .refl, (Nat.le_zero.1 hm).symm, Nat.le_add_right _ _⟩, ?_⟩
    rw [callsIn, List.map_nil, schedulerCalls, List.filter_nil, List.length_nil, Nat.zero_mul]
    exact h₀.within
  | @step tr u s s' h hs ih =>
    obtain ⟨hcalls, hwithin⟩ := ih
    have hearlier : ∀ m ≤ (callsIn tr).length, ∃ tr₁ tr₂ s₁, tr ++ u = tr₁ ++ tr₂ ∧
        TimedRun d s₀ tr₁ s₁ ∧ (callsIn tr₁).length = m ∧ s₁.now ≤ s₀.now + m * d.slice :=
      fun m hm => by
        obtain ⟨tr₁, tr₂, s₁, rfl, hprefix⟩ := hcalls m hm
        exact ⟨tr₁, tr₂ ++ u, s₁, List.append_assoc .., hprefix⟩
    rcases hwithin.step (h.armed h₀) hs with ⟨hnone, hwithin'⟩ | ⟨hone, hnow, hwithin'⟩
    · rw [callsIn_append, hnone, List.append_nil]
      exact ⟨hearlier, hwithin'⟩
    · have hlen : (callsIn (tr ++ u)).length = (callsIn tr).length + 1 := by
        rw [callsIn_append, List.length_append, hone]
      rw [Nat.add_assoc, ← Nat.succ_mul] at hnow hwithin'
      rw [hlen]
      refine ⟨fun m hm => ?_, hwithin'⟩
      rcases Nat.lt_or_ge (callsIn tr).length m with hlt | hle
      · obtain rfl : m = (callsIn tr).length + 1 := by omega
        exact ⟨tr ++ u, [], s', (List.append_nil _).symm, h.step hs, hlen, hnow⟩
      · exact hearlier m hle

end

/-! ## Executing the abstract scheduler -/

instance (d : Timing) (irq : Bool) (now timer taken left : ℕ) :
    Decidable (d.Allows irq now timer taken left) :=
  match irq with
  | true => inferInstanceAs (Decidable (_ ∧ _ ∧ _ ∧ _ ∧ _))
  | false => inferInstanceAs (Decidable (_ ∧ _ ∧ _ ∧ _ ∧ _))

/-- Execute operations that are taken and left at the given moments, as long as that is possible,
from a state of the scheduler, the time and the moment at which the timer interrupt is due. -/
def Timing.exec (d : Timing) : List (Op × ℕ × ℕ) → Sched × ℕ × ℕ → Option (Sched × ℕ × ℕ)
  | [], r => some r
  | (op, taken, left) :: ops, (a, now, timer) =>
    (a.exec (fun _ _ => true) [op]).bind fun a' =>
      if d.Allows (op = .timer) now timer taken left ∧ taken ≤ a.clock 0 ∧ a'.timeElapsed ≤ left then
        d.exec ops
          (a', left, if op = .timer then (a.clock 0 + TIMER_INTERVAL) % 2 ^ 64 else timer)
      else none

/-- What the abstract scheduler can execute in that time, the program can run. -/
theorem TimedRun.of_exec {d : Timing} (ops : List (Op × ℕ × ℕ)) : ∀ {s : Clocked} {a a' : Sched}
    {now timer : ℕ}, Refines s.kernel a → a.Wf → a.Running →
    d.exec ops (a, s.now, s.timer) = some (a', now, timer) → ∃ tr s', TimedRun d s tr s' ∧
      s'.now = now ∧ s'.timer = timer ∧ Refines s'.kernel a' ∧ a'.Wf ∧ a'.Running := by
  induction ops with
  | nil =>
    intro s a a' now timer hr hw hrun he
    cases he
    exact ⟨[], s, .refl, rfl, rfl, hr, hw, hrun⟩
  | cons x ops ih =>
    intro s a a' now timer hr hw hrun he
    obtain ⟨op, taken, left⟩ := x
    obtain ⟨a₁, ha₁, he⟩ := Option.bind_eq_some_iff.1 he
    split at he
    · rename_i hif
      obtain ⟨ht, hfirst, hlast⟩ := hif
      obtain ⟨l, k, hl, hops, hr₁, hw₁, hrun₁⟩ := Run.unstalled_from_exec hr hw hrun ha₁
      obtain ⟨t, rfl, rfl⟩ := List.map_eq_singleton_iff.1 hops
      obtain ⟨-, hst, hs, hnil⟩ := hl.split_cons
      obtain rfl := hnil.nil
      have hcore : s.kernel.clock = a.clock := congrArg Core.clock hr.core
      have hstep := Clocked.Step.trap hs hst ht (by rwa [hcore])
        (by rwa [congrArg Core.timeElapsed hr₁.core])
      have hnext : s.kernel.nextTimer = (a.clock 0 + TIMER_INTERVAL) % 2 ^ 64 :=
        congrArg (fun c : ℕ → ℕ => (c 0 + TIMER_INTERVAL) % 2 ^ 64) hcore
      rw [← hnext] at he
      obtain ⟨tr, s', hrun', hrest⟩ := ih (s := ⟨t.post, left, _⟩) hr₁ hw₁ hrun₁ he
      exact ⟨_, s', (TimedRun.refl.step hstep).append hrun', hrest⟩
    · contradiction

/-! ## Waiting -/

section Wait

variable {d : Timing} {n timeBase now ticks : ℕ} {clock : ℕ → ℕ} {tr tr' : List Timed} {s s' : Clocked}
  {p : PcbPtr}

/-- **A task that is ready gets the CPU soon.**  In an unstalled run of the whole system, with `j`
tasks in front of it on the ready queue, a task has the CPU after `j + 1` slices at the latest,
whatever the tasks do. -/
theorem TimedRun.ready_within (hclock : Monotone clock) (hticks : ticks ≤ now)
    (h : TimedRun d (Clocked.boot n timeBase clock now ticks) tr s) {ready : List PcbPtr} {j : ℕ}
    (hq : s.kernel.HasQueue .ready ready) (hp : ready[j]? = some p) (h' : TimedRun d s tr' s')
    (hlong : s.now + (j + 1) * d.slice < s'.now) :
    ∃ t ∈ tr', t.trap.Resumes p ∧ t.left ≤ s.now + (j + 1) * d.slice := by
  have harmed := h.armed (Clocked.armed_boot hclock hticks)
  obtain ⟨a, hr, hw, hrun, -⟩ := harmed.scheduler
  obtain ⟨tr₁, tr₂, s₁, rfl, h₁, hcalls, hnow⟩ := h'.calls harmed hlong
  obtain ⟨a', -, -, -, hserves, hres⟩ := h₁.run.serves hr hw hrun
  rw [hr.hasQueue_iff.1 hq] at hp
  have ht := List.getElem?_eq_getElem (by omega : j < (callsIn tr₁).length)
  have hresumes := resumes_of_serves hserves hres hp
    (fun he => hw.not_created_boot (he ▸ hw.queued_created (List.mem_of_getElem? hp))) ht
  obtain ⟨t, htr, he⟩ := List.mem_map.1 (List.mem_filter.1 (List.mem_of_getElem? ht)).1
  exact ⟨t, List.mem_append_left _ htr, he ▸ hresumes, ((h₁.now_le).2 t htr).2.trans hnow⟩

/-- Two tasks take turns, each for a slice. -/
theorem TimedRun.ready_within_two_tasks : ∃ tr s tr' s',
    TimedRun ⟨0, 0⟩ (Clocked.boot 2 1 (fun i => 150000 * (i + 1)) 0 0) tr s ∧ s.now = 150000 ∧
    s.kernel.HasQueue .ready [.pcb 1] ∧ TimedRun ⟨0, 0⟩ s tr' s' ∧
    ∃ t ∈ tr', t.trap.Resumes (.pcb 1) ∧ t.left ≤ 300000 := by
  have hclock : Monotone fun i : ℕ => 150000 * (i + 1) := fun i j hij => by dsimp only; omega
  obtain ⟨⟨a, now, timer⟩, ha, h⟩ := (Option.any_eq_true _ _).1 (by decide :
    ((⟨0, 0⟩ : Timing).exec [(.timer, 150000, 150000)]
      (Sched.boot 2 1 (fun i => 150000 * (i + 1)), 0, 150000)).any (fun r =>
        r.1.queue .ready = [.pcb 1] ∧ r.2 = (150000, 300000) ∧
        ((⟨0, 0⟩ : Timing).exec [(.timer, 300000, 300000), (.timer, 450000, 450000)] r).any
          (fun r => r.2 = (450000, 600000)) = true) = true)
  obtain ⟨hq, hnow, h⟩ := of_decide_eq_true h
  obtain ⟨rfl, rfl⟩ := Prod.mk.inj hnow
  obtain ⟨⟨a', now', timer'⟩, ha', hnow'⟩ := (Option.any_eq_true _ _).1 h
  obtain ⟨rfl, rfl⟩ := Prod.mk.inj (of_decide_eq_true hnow')
  obtain ⟨tr, s, hrun, hnow, htimer, hr, hw, hrunning⟩ := TimedRun.of_exec _
    (s := Clocked.boot 2 1 (fun i => 150000 * (i + 1)) 0 0) Refines.boot Sched.Wf.boot (Or.inl rfl) ha
  rw [← hnow, ← htimer] at ha'
  obtain ⟨tr', s', hrun', hnow', -⟩ := TimedRun.of_exec _ hr hw hrunning ha'
  have hready := hr.hasQueue_iff.2 hq.symm
  have hslice : (⟨0, 0⟩ : Timing).slice = 150000 := rfl
  obtain ⟨t, ht, hres, hleft⟩ := TimedRun.ready_within hclock le_rfl hrun hready (j := 0) rfl hrun'
    (by omega)
  exact ⟨tr, s, tr', s', hrun, hnow, hready, hrun', t, ht, hres, by omega⟩

/-- The processor frequency stays what it is. -/
theorem Run.timeBase_pre {ok : List Transition → Kernel → Op → Prop} {l : List Transition}
    {k : Kernel} (h : Run ok (Kernel.boot n timeBase clock) l k) :
    ∀ t ∈ l, t.pre.timeBase = timeBase := by
  intro t ht
  obtain ⟨l₁, l₂, rfl⟩ := List.append_of_mem ht
  obtain ⟨k₁, h₁, h₂⟩ := Run.split h
  rw [h₂.split_cons.1]
  exact h₁.timeBase_eq

/-- **A task that sleeps comes back soon.**  In an unstalled run, once the clock shows its
`wakeup_time`, it has the CPU after two slices more than there are processes at the latest. -/
theorem TimedRun.awake_within (hclock : Monotone clock) (hbase : 0 < timeBase) (hticks : ticks ≤ now)
    (h : TimedRun d (Clocked.boot n timeBase clock now ticks) tr s) {sleepers : List PcbPtr}
    (hq : s.kernel.HasQueue .sleep sleepers) (hp : p ∈ sleepers) (h' : TimedRun d s tr' s')
    (hlong : max s.now (s.kernel.wakeupTime p * timeBase) + (n + 2) * d.slice < s'.now) :
    ∃ t ∈ tr', t.trap.Resumes p ∧
      t.left ≤ max s.now (s.kernel.wakeupTime p * timeBase) + (n + 2) * d.slice := by
  generalize hT : max s.now (s.kernel.wakeupTime p * timeBase) = T at hlong ⊢
  have harmed : s.Armed n := h.armed (Clocked.armed_boot hclock hticks)
  obtain ⟨a, hr, hw, hrun, hpeople, htick⟩ := harmed.scheduler
  rw [hr.hasQueue_iff.1 hq] at hp
  -- the step that goes past `T` takes a slice at most
  obtain ⟨tr₁, u, tr₂, s₁, s₂, rfl, h₁, hu, h₂, hs₁, hs₂⟩ :=
    h'.split_at (T := T) (by omega) (by omega)
  have harmed₁ := h₁.armed harmed
  have hnow₂ : s₂.now ≤ T + d.slice := by
    have hslice : d.slice = TIMER_INTERVAL + d.latency + 2 * d.kernel := rfl
    rcases harmed₁.within.step harmed₁ hu with ⟨-, hin⟩ | ⟨-, hin, -⟩
    · have hnow := hin.now
      omega
    · omega
  have hadd : (n + 2) * d.slice = (n + 1) * d.slice + d.slice := Nat.succ_mul (n + 1) d.slice
  obtain ⟨tr₃, tr₄, s₃, rfl, h₃, hcalls, hnow₃⟩ := h₂.calls (harmed₁.step hu) (m := n + 1) (by omega)
  have hwhole := (h₁.step hu).append h₃
  -- the first of the calls that follow wakes the task up
  obtain ⟨t, rest, hcons⟩ := List.exists_cons_of_length_eq_add_one hcalls
  obtain ⟨l₁, l₂, hl, -, ht, hrest⟩ := List.filter_eq_cons_iff.1 hcons
  have htmem : t ∈ tr₃.map Timed.trap := by rw [hl]; simp
  have hdue : s.kernel.wakeupTime p ≤ t.pre.getTimer.1 := by
    change _ ≤ t.pre.clock 0 / t.pre.timeBase
    rw [Run.timeBase_pre (h.append hwhole).run t (by simp [htmem]), Nat.le_div_iff_mul_le hbase]
    obtain ⟨τ, hτ, rfl⟩ := List.mem_map.1 htmem
    have hread := (h₃.now_le.2 τ hτ).1
    omega
  have hsplit : (tr₁ ++ u ++ tr₃).map Timed.trap =
      ((tr₁ ++ u).map Timed.trap ++ l₁) ++ t :: l₂ := by
    rw [List.map_append, hl, List.append_assoc]
  have hrun' := hwhole.run
  rw [hsplit] at hrun'
  obtain ⟨t', ht', hres⟩ := Run.resumes_of_due hr hw hrun hpeople htick
    (Or.inl ⟨hp, by rw [hr.core]⟩) hrun' ht hdue (by
      rw [hcons, List.length_cons] at hcalls
      rw [schedulerCalls, hrest]
      omega)
  rw [← hsplit] at ht'
  obtain ⟨τ, hτ, rfl⟩ := List.mem_map.1 ht'
  refine ⟨τ, ?_, hres, ?_⟩
  · rw [← List.append_assoc]
    exact List.mem_append_left _ hτ
  · have hleft := (hwhole.now_le.2 τ hτ).2
    omega

/-- One of two tasks sleeps for a tick. -/
theorem TimedRun.awake_within_two_tasks : ∃ clock tr s tr' s',
    TimedRun ⟨0, 0⟩ (Clocked.boot 2 1 clock 0 0) tr s ∧ s.now = 150000 ∧
    s.kernel.HasQueue .sleep [.pcb 0] ∧ TimedRun ⟨0, 0⟩ s tr' s' ∧
    ∃ t ∈ tr', t.trap.Resumes (.pcb 0) ∧ t.left ≤ 750001 := by
  -- the interrupts in which the sleeper is still there read the clock twice
  obtain ⟨clock, hclock⟩ : ∃ clock : ℕ → ℕ,
      clock = fun i => 150000 * (1 + (min i 3 - 2) + (i - 4)) := ⟨_, rfl⟩
  have hmono : Monotone clock := fun i j hij => by rw [hclock]; dsimp only; omega
  obtain ⟨⟨a, now, timer⟩, ha, h⟩ := (Option.any_eq_true _ _).1 (by rw [hclock]; decide +kernel :
    ((⟨0, 0⟩ : Timing).exec [(.timer, 150000, 150000), (.sleep 1, 150000, 150000)]
      (Sched.boot 2 1 clock, 0, 150000)).any (fun r =>
        r.1.queue .sleep = [.pcb 0] ∧ r.1.wakeupTime (.pcb 0) = 150001 ∧ r.2 = (150000, 300000) ∧
        ((⟨0, 0⟩ : Timing).exec [(.timer, 300000, 300000), (.timer, 450000, 450000),
          (.timer, 600000, 600000), (.timer, 750000, 750000), (.timer, 900000, 900000)] r).any
          (fun r => r.2 = (900000, 1050000)) = true) = true)
  obtain ⟨hq, hwake, hnow, h⟩ := of_decide_eq_true h
  obtain ⟨rfl, rfl⟩ := Prod.mk.inj hnow
  obtain ⟨⟨a', now', timer'⟩, ha', hnow'⟩ := (Option.any_eq_true _ _).1 h
  obtain ⟨rfl, rfl⟩ := Prod.mk.inj (of_decide_eq_true hnow')
  obtain ⟨tr, s, hrun, hnow, htimer, hr, hw, hrunning⟩ := TimedRun.of_exec _
    (s := Clocked.boot 2 1 clock 0 0) Refines.boot Sched.Wf.boot (Or.inl rfl) ha
  rw [← hnow, ← htimer] at ha'
  obtain ⟨tr', s', hrun', hnow', -⟩ := TimedRun.of_exec _ hr hw hrunning ha'
  have hasleep := hr.hasQueue_iff.2 hq.symm
  have hslice : (⟨0, 0⟩ : Timing).slice = 150000 := rfl
  have hdue : s.kernel.wakeupTime (.pcb 0) * 1 = 150001 := by rw [hr.core, hwake]
  obtain ⟨t, ht, hres, hleft⟩ := TimedRun.awake_within hmono Nat.one_pos le_rfl hrun hasleep
    List.mem_cons_self hrun' (by omega)
  exact ⟨clock, tr, s, tr', s', hrun, hnow, hasleep, hrun', t, ht, hres, by omega⟩

end Wait

end UcasOs
