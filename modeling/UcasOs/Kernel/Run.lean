import UcasOs.Kernel.Boot

/-!
# Runs

A run is a sequence of traps, each recorded with the states before and after it.  `Run ok k₀ tr k`
leaves open which traps are considered: `ok` sees the whole history.

* `Unstalled` — the runs most results are about: `do_scheduler` is never called by a `BLOCKED` or
  `EXITED` task while nobody is ready.
* `Run.induction` — **the rule every result about such runs is proved with**: the abstract state
  exists, is well formed and `RUNNING` at every moment, and what the abstract traps keep holds.
  `Run.induction_from` is the same rule for a run that goes on from a later state.
* `Sched.Steady`, `Sched.Stable` — an invariant that is kept by the changes the operations are made
  of; `Sched.Steady.trap` takes it through one abstract trap.
* `Run.of_exec` — a list of operations that the abstract scheduler can execute is such a run.
* `Run.simulation` — **such runs are exactly what the abstract scheduler can execute**.
* `Run.progress` — in such a run every trap returns.
-/

set_option autoImplicit false

namespace UcasOs

/-- One trap of a run: the states before and after it. -/
structure Transition where
  /-- The state in which the trap is taken. -/
  pre : Kernel
  /-- What the trap is. -/
  op : Op
  /-- The state in which the trap returns to user mode. -/
  post : Kernel

/-- The runs from `k₀` whose traps all satisfy `ok`, which may look at the history. -/
inductive Run (ok : List Transition → Kernel → Op → Prop) (k₀ : Kernel) :
    List Transition → Kernel → Prop
  | refl : Run ok k₀ [] k₀
  | step {tr : List Transition} {k k' : Kernel} {op : Op} (h : Run ok k₀ tr k) (hok : ok tr k op)
      (hs : k.Step op k') : Run ok k₀ (tr ++ [⟨k, op, k'⟩]) k'

/-- `do_scheduler` does not return to a task that must not go on. -/
def Unstalled (_ : List Transition) (k : Kernel) (op : Op) : Prop := ¬ k.Stalls op

theorem Run.mono {ok ok' : List Transition → Kernel → Op → Prop} {k₀ k : Kernel}
    {tr : List Transition} (hok : ∀ tr k op, ok tr k op → ok' tr k op) (h : Run ok k₀ tr k) :
    Run ok' k₀ tr k := by
  induction h with
  | refl => exact Run.refl
  | step _ ho hs ih => exact Run.step ih (hok _ _ _ ho) hs

/-- A run up to some moment, and how it goes on from there. -/
theorem Run.split {ok : List Transition → Kernel → Op → Prop} {k₀ k' : Kernel}
    {tr tr' : List Transition} (h : Run ok k₀ (tr ++ tr') k') :
    ∃ k, Run ok k₀ tr k ∧ Run (fun s => ok (tr ++ s)) k tr' k' := by
  generalize he : tr ++ tr' = l at h
  induction h generalizing tr' with
  | refl =>
    obtain ⟨rfl, rfl⟩ := List.append_eq_nil_iff.1 he
    exact ⟨_, Run.refl, Run.refl⟩
  | @step l k₁ k₂ op h ho hs ih =>
    rcases List.eq_nil_or_concat tr' with rfl | ⟨s, t, rfl⟩
    · rw [List.append_nil] at he
      rw [he]
      exact ⟨_, Run.step h ho hs, Run.refl⟩
    · rw [List.concat_eq_append, ← List.append_assoc] at he
      obtain ⟨hl, ht⟩ := List.append_inj' he rfl
      obtain ⟨k, hk, hk'⟩ := ih hl
      rw [List.concat_eq_append, ht]
      exact ⟨k, hk, Run.step hk' (hl ▸ ho) hs⟩

/-- A run without traps. -/
theorem Run.nil {ok : List Transition → Kernel → Op → Prop} {k k' : Kernel} (h : Run ok k [] k') :
    k' = k := by
  generalize he : [] = l at h
  cases h with
  | refl => rfl
  | step h ho hs => simp at he

/-- The first trap of a run, and how it goes on from there. -/
theorem Run.split_cons {ok : List Transition → Kernel → Op → Prop} {k₀ k' : Kernel}
    {t : Transition} {tr : List Transition} (h : Run ok k₀ (t :: tr) k') :
    t.pre = k₀ ∧ ok [] k₀ t.op ∧ k₀.Step t.op t.post ∧ Run (fun s => ok (t :: s)) t.post tr k' := by
  rw [← List.singleton_append] at h
  obtain ⟨k, hk, hk'⟩ := h.split
  generalize he : [t] = l at hk
  cases hk with
  | refl => contradiction
  | @step s k₁ k₂ op hs₁ ho hs =>
    rw [← List.nil_append [t]] at he
    obtain ⟨rfl, ht⟩ := List.append_inj' he rfl
    obtain rfl := List.singleton_inj.1 ht
    obtain rfl := hs₁.nil
    exact ⟨rfl, ho, hs, hk'⟩

namespace Sched

/-- The current task may be in user mode: it is the boot context, or it is `RUNNING`. -/
def Running (a : Sched) : Prop :=
  a.currentRunning = .pid0 ∨ a.status a.currentRunning = .running

variable {a a' : Sched} {op : Op}

/-- Who can take a trap in user mode. -/
theorem Running.of_step (h : a.Running) (hop : op = .timer ∨ a.currentRunning ≠ .pid0) :
    op = .timer ∨ a.status a.currentRunning = .running := by
  rcases hop with hop | hop
  · exact Or.inl hop
  · exact Or.inr (h.resolve_left hop)

theorem needsRunning_of_running (hc : op = .timer ∨ a.status a.currentRunning = .running)
    (hn : Wf.NeedsRunning op) : a.status a.currentRunning = .running := by
  refine hc.resolve_left fun e => ?_
  subst e
  rcases hn with hn | hn | hn <;> contradiction

theorem active_of_running (hc : op = .timer ∨ a.status a.currentRunning = .running) :
    op = .timer ∨ a.Active a.currentRunning :=
  hc.imp_right fun h => Or.inl ⟨rfl, h⟩

/-- `P` is kept by every change that the operations are made of, except those that create and exit
tasks or pass a turn on. -/
structure Steady (P : Sched → Prop) : Prop where
  tick : ∀ {b : Sched}, b.Wf → P b → P (b.withCore (·.getTimer.2))
  wake : ∀ {b : Sched} {x : PcbPtr}, b.Wf → P b → x ∈ b.queue .sleep →
    b.wakeupTime x ≤ b.timeElapsed / b.timeBase → P (b.unblock x)
  preempt : ∀ {b : Sched}, b.Wf → P b → b.status b.currentRunning = .running →
    P (b.unblock b.currentRunning)
  dispatch : ∀ {b : Sched} {x : PcbPtr} {rest : List PcbPtr}, b.Wf → P b →
    b.queue .ready = x :: rest → b.status b.currentRunning ≠ .running → P (b.dispatchTo x)
  sleep : ∀ {b : Sched} (s : UInt32), b.Wf → P b → b.status b.currentRunning = .running →
    P (b.sleepCurrent s)
  locks : ∀ {b : Sched} (m : Fin LOCK_NUM → MutexLock), b.Wf → P b →
    P (b.withCore ({ · with mlocks := m }))
  block : ∀ {b : Sched} (i : Fin LOCK_NUM), b.Wf → P b →
    b.status b.currentRunning = .running → P (b.enqueue (.block i) b.currentRunning)
  handover : ∀ {b : Sched} {x : PcbPtr} {i : Fin LOCK_NUM}, b.Wf → P b →
    x ∈ b.queue (.block i) → P (b.unblock x)

/-- `P` is kept by every change the operations are made of, `do_exit` excepted. -/
structure Stable (P : Sched → Prop) : Prop extends Steady P where
  threadCreate : ∀ {b : Sched}, b.Wf → P b → b.status b.currentRunning = .running →
    P b.threadCreate
  threadYield : ∀ {b : Sched}, b.Wf → P b → b.status b.currentRunning = .running →
    P b.threadYield

namespace Steady

variable {P : Sched → Prop}

theorem doScheduler (h : Steady P) (hw : a.Wf) (hP : P a) : P a.doScheduler :=
  (Wf.doScheduler_induction (fun _ => h.tick) (fun _ _ => h.wake) (fun _ => h.preempt)
    (fun _ _ _ => h.dispatch) hw hP).2

theorem acquireOrBlock (h : Steady P) (hw : a.Wf) (hP : P a)
    (hc : a.status a.currentRunning = .running) (i : Fin LOCK_NUM) :
    P (a.acquireOrBlock i).1 := by
  have hl : P (a.withCore (·.setLockStatus i .locked)) := h.locks _ hw hP
  have hlw : (a.withCore (·.setLockStatus i .locked)).Wf := hw.of_eq rfl
  simp only [Sched.acquireOrBlock]
  split
  · exact hP
  · split
    · exact hl
    · exact h.block i hlw hl hc

theorem release (h : Steady P) (hw : a.Wf) (hP : P a) (i : Fin LOCK_NUM) : P (a.release i) := by
  rw [Sched.release]
  split
  · exact hP
  · split
    · exact h.locks _ hw hP
    · rename_i x rest hq
      exact h.handover (i := i) hw hP (by rw [hq]; exact List.mem_cons_self)

/-- **What the changes keep, a trap keeps.** -/
theorem trap (h : Steady P) (hw : a.Wf) (hP : P a)
    (hc : op = .timer ∨ a.status a.currentRunning = .running)
    (exit : op = .exit → P a.exitCurrent) (create : op = .threadCreate → P a.threadCreate)
    (yield : op = .threadYield → P a.threadYield) (ht : a.trap op = some a') : P a' := by
  cases hb : a.schedulerEntry op with
  | some b =>
    have hbw := hw.schedulerEntry (active_of_running hc) (needsRunning_of_running hc) hb
    rw [Wf.trap_of_schedulerEntry hb] at ht
    rw [← Option.some_inj.1 ht]
    refine h.doScheduler hbw ?_
    rcases schedulerEntry_cases hb with ⟨rfl, rfl⟩ | ⟨rfl, rfl⟩ | ⟨s, rfl, rfl⟩ |
      ⟨idx, i, rfl, -, hblk⟩ | ⟨rfl, rfl⟩
    · exact h.tick hw hP
    · exact hP
    · exact h.sleep s hw hP (hc.resolve_left (by simp))
    · have hPb := h.acquireOrBlock hw hP (hc.resolve_left (by simp)) i
      rwa [hblk] at hPb
    · exact exit rfl
  | none =>
    rcases Wf.trap_of_schedulerEntry_none hb ht with ⟨key, rfl, rfl⟩ | ⟨idx, i, rfl, -, -, rfl⟩ |
      ⟨idx, i, rfl, -, rfl⟩ | ⟨rfl, rfl⟩ | ⟨rfl, rfl⟩
    · obtain ⟨m, hm⟩ := Wf.lockInit_core a.toCore key
      simp only [withCore, hm]
      exact h.locks m hw hP
    · exact h.acquireOrBlock hw hP (hc.resolve_left (by simp)) i
    · exact h.release hw hP i
    · exact create rfl
    · exact yield rfl

end Steady

namespace Stable

variable {P Q : Sched → Prop}

theorem and (h : Stable P) (h' : Stable Q) : Stable fun a => P a ∧ Q a where
  tick hw hP := ⟨h.tick hw hP.1, h'.tick hw hP.2⟩
  wake hw hP hx ht := ⟨h.wake hw hP.1 hx ht, h'.wake hw hP.2 hx ht⟩
  preempt hw hP hc := ⟨h.preempt hw hP.1 hc, h'.preempt hw hP.2 hc⟩
  dispatch hw hP hq hc := ⟨h.dispatch hw hP.1 hq hc, h'.dispatch hw hP.2 hq hc⟩
  sleep s hw hP hc := ⟨h.sleep s hw hP.1 hc, h'.sleep s hw hP.2 hc⟩
  locks m hw hP := ⟨h.locks m hw hP.1, h'.locks m hw hP.2⟩
  block i hw hP hc := ⟨h.block i hw hP.1 hc, h'.block i hw hP.2 hc⟩
  handover hw hP hx := ⟨h.handover hw hP.1 hx, h'.handover hw hP.2 hx⟩
  threadCreate hw hP hc := ⟨h.threadCreate hw hP.1 hc, h'.threadCreate hw hP.2 hc⟩
  threadYield hw hP hc := ⟨h.threadYield hw hP.1 hc, h'.threadYield hw hP.2 hc⟩

theorem trap (h : Stable P) (hw : a.Wf) (hP : P a)
    (hc : op = .timer ∨ a.status a.currentRunning = .running)
    (exit : op = .exit → P a.exitCurrent) (ht : a.trap op = some a') : P a' :=
  h.toSteady.trap hw hP hc exit
    (fun hop => h.threadCreate hw hP (hc.resolve_left (by rw [hop]; simp)))
    (fun hop => h.threadYield hw hP (hc.resolve_left (by rw [hop]; simp))) ht

end Stable

end Sched

/-- In a trap that does not stall the abstract `do_scheduler` is not stuck. -/
theorem Refines.not_stuck {k : Kernel} {a : Sched} {op : Op} (hr : Refines k a) (hw : a.Wf)
    (hc : op = .timer ∨ a.status a.currentRunning = .running) (h : ¬ k.Stalls op) :
    ∀ b, a.schedulerEntry op = some b → ¬ b.checkSleeping.Stuck := fun b hb hs =>
  h ((hr.stalls_iff hw (Sched.active_of_running hc) (Sched.needsRunning_of_running hc)).2
    ⟨b, hb, hs⟩)

/-- One trap of the program is one of the abstract scheduler. -/
theorem Refines.of_step {k k' : Kernel} {a : Sched} {op : Op} (hr : Refines k a) (hw : a.Wf)
    (hrun : a.Running) (hs : k.Step op k')
    (unstuck : (op = .timer ∨ a.status a.currentRunning = .running) →
      ∀ b, a.schedulerEntry op = some b → ¬ b.checkSleeping.Stuck) :
    ∃ a', (op = .timer ∨ a.status a.currentRunning = .running) ∧ a.trap op = some a' ∧
      Refines k' a' ∧ a'.Wf ∧ a'.Running := by
  obtain ⟨hop, fuel, hk'⟩ := hs
  rw [congrArg Core.currentRunning hr.core] at hop
  have hc := hrun.of_step hop
  have hact := Sched.active_of_running hc
  have hneeds : Sched.Wf.NeedsRunning op → _ := Sched.needsRunning_of_running hc
  cases ht : a.trap op with
  | none => rw [Refines.trap_none ht] at hk'; contradiction
  | some a' =>
    exact ⟨a', hc, rfl, (hr.trap hw hact hneeds ht).refines hk', hw.trap hact hneeds ht,
      hw.trap_running hc (unstuck hc) ht⟩

/-- **Induction over a run**, with the abstract scheduler alongside, from any state that has one.
That no `do_scheduler` gets stuck may follow from what is being proved. -/
theorem Run.induction_from {ok : List Transition → Kernel → Op → Prop} {k₀ : Kernel} {a₀ : Sched}
    (hr₀ : Refines k₀ a₀) (hw₀ : a₀.Wf) (hrun₀ : a₀.Running) {P : List Transition → Sched → Prop}
    (base : P [] a₀)
    (unstuck : ∀ {tr : List Transition} {k : Kernel} {op : Op} {a : Sched}, Refines k a → a.Wf →
      a.Running → P tr a → ok tr k op → (op = .timer ∨ a.status a.currentRunning = .running) →
      ∀ b, a.schedulerEntry op = some b → ¬ b.checkSleeping.Stuck)
    (step : ∀ {tr : List Transition} {k k' : Kernel} {op : Op} {a a' : Sched}, Refines k a → a.Wf →
      a.Running → P tr a → ok tr k op → (op = .timer ∨ a.status a.currentRunning = .running) →
      a.trap op = some a' → Refines k' a' → a'.Wf → a'.Running →
      P (tr ++ [⟨k, op, k'⟩]) a')
    {tr : List Transition} {k : Kernel} (h : Run ok k₀ tr k) :
    ∃ a, Refines k a ∧ a.Wf ∧ a.Running ∧ P tr a := by
  induction h with
  | refl => exact ⟨_, hr₀, hw₀, hrun₀, base⟩
  | @step tr k k' op _ ho hs ih =>
    obtain ⟨a, hr, hw, hrun, hP⟩ := ih
    obtain ⟨a', hc, ht, hr', hw', hrun'⟩ := hr.of_step hw hrun hs (unstuck hr hw hrun hP ho)
    exact ⟨a', hr', hw', hrun', step hr hw hrun hP ho hc ht hr' hw' hrun'⟩

/-- **Induction over a run**, with the abstract scheduler alongside. -/
theorem Run.induction {ok : List Transition → Kernel → Op → Prop}
    (hok : ∀ tr k op, ok tr k op → ¬ k.Stalls op) {n timeBase : ℕ} {clock : ℕ → ℕ}
    {P : List Transition → Sched → Prop} (base : P [] (Sched.boot n timeBase clock))
    (step : ∀ {tr : List Transition} {k k' : Kernel} {op : Op} {a a' : Sched}, Refines k a → a.Wf →
      a.Running → P tr a → ok tr k op → (op = .timer ∨ a.status a.currentRunning = .running) →
      a.trap op = some a' → Refines k' a' → a'.Wf → a'.Running →
      P (tr ++ [⟨k, op, k'⟩]) a')
    {tr : List Transition} {k : Kernel} (h : Run ok (Kernel.boot n timeBase clock) tr k) :
    ∃ a, Refines k a ∧ a.Wf ∧ a.Running ∧ P tr a :=
  Run.induction_from Refines.boot Sched.Wf.boot (Or.inl rfl) base
    (fun hr hw _ _ ho hc => hr.not_stuck hw hc (hok _ _ _ ho)) step h

/-- The abstract state of a run. -/
theorem Run.refines {ok : List Transition → Kernel → Op → Prop}
    (hok : ∀ tr k op, ok tr k op → ¬ k.Stalls op) {n timeBase : ℕ} {clock : ℕ → ℕ}
    {tr : List Transition} {k : Kernel} (h : Run ok (Kernel.boot n timeBase clock) tr k) :
    ∃ a, Refines k a ∧ a.Wf ∧ a.Running := by
  obtain ⟨a, hr, hw, hrun, -⟩ := Run.induction (P := fun _ _ => True) hok trivial
    (fun _ _ _ _ _ _ _ _ _ _ => trivial) h
  exact ⟨a, hr, hw, hrun⟩

/-- An operation that is defined: its lock index, if it has one, is that of a lock. -/
def Op.Valid : Op → Prop
  | .lockAcquire idx | .lockRelease idx => 0 ≤ idx ∧ idx < LOCK_NUM
  | _ => True

theorem Sched.trap_isSome {a : Sched} {op : Op} (hv : op.Valid) : ∃ a', a.trap op = some a' := by
  cases op with
  | lockAcquire idx =>
    have hi : mlockIndex idx = some ⟨idx.toNat, by have := hv.1; have := hv.2; omega⟩ := dif_pos hv
    exact ⟨_, by rw [Sched.trap, hi]; rfl⟩
  | lockRelease idx =>
    have hi : mlockIndex idx = some ⟨idx.toNat, by have := hv.1; have := hv.2; omega⟩ := dif_pos hv
    exact ⟨_, by rw [Sched.trap, hi]; rfl⟩
  | _ => exact ⟨_, rfl⟩

/-! ## Executing the abstract scheduler -/

namespace Sched

instance (a : Sched) : Decidable a.Stuck :=
  inferInstanceAs (Decidable (_ ∧ _ ∧ (_ ∨ _)))

/-- `op` calls `do_scheduler` in a state in which it will be stuck. -/
def stalls (op : Op) (a : Sched) : Bool :=
  match a.schedulerEntry op with
  | some b => decide b.checkSleeping.Stuck
  | none => false

/-- Execute a list of operations, as long as they are possible, do not stall and are allowed. -/
def exec (allow : Op → Sched → Bool) : List Op → Sched → Option Sched
  | [], a => some a
  | op :: ops, a =>
    if (op = .timer ∨ a.currentRunning ≠ .pid0) ∧ a.stalls op = false ∧ allow op a = true then
      (a.trap op).bind (exec allow ops)
    else none

end Sched

/-- One trap of the program, from one of the abstract scheduler. -/
theorem Refines.step {k : Kernel} {a a' : Sched} {op : Op} (hr : Refines k a) (hw : a.Wf)
    (hop : op = .timer ∨ a.currentRunning ≠ .pid0) (hact : op = .timer ∨ a.Active a.currentRunning)
    (hneeds : Sched.Wf.NeedsRunning op → a.status a.currentRunning = .running)
    (ht : a.trap op = some a') : ∃ k', k.Step op k' ∧ Refines k' a' ∧ a'.Wf := by
  obtain ⟨k', N, hr', hk'⟩ := hr.trap hw hact hneeds ht
  refine ⟨k', ⟨?_, N, (hk' N).trans (if_pos le_rfl)⟩, hr', hw.trap hact hneeds ht⟩
  rwa [congrArg Core.currentRunning hr.core]

theorem Run.exec_append {k₀ : Kernel} {allow : Op → Sched → Bool}
    {ok : Kernel → Op → Prop} (hok : ∀ k a op, Refines k a → allow op a = true → ok k op)
    (ops : List Op) : ∀ {tr : List Transition} {k : Kernel} {a a' : Sched},
      Run (fun _ k op => ¬ k.Stalls op ∧ ok k op) k₀ tr k →
      Refines k a → a.Wf → a.Running → a.exec allow ops = some a' →
      ∃ tr' k', Run (fun _ k op => ¬ k.Stalls op ∧ ok k op) k₀ tr' k' ∧
        tr'.map Transition.op = tr.map Transition.op ++ ops ∧ Refines k' a' ∧ a'.Wf ∧
          a'.Running := by
  induction ops with
  | nil =>
    intro tr k a a' h hr hw hrun he
    rw [Sched.exec, Option.some.injEq] at he
    subst he
    exact ⟨tr, k, h, (List.append_nil _).symm, hr, hw, hrun⟩
  | cons op ops ih =>
    intro tr k a a' h hr hw hrun he
    rw [Sched.exec] at he
    split at he
    · rename_i hg
      obtain ⟨hop, hns, hallow⟩ := hg
      obtain ⟨a₁, ht, he⟩ := Option.bind_eq_some_iff.1 he
      have hc := hrun.of_step hop
      have hact := Sched.active_of_running hc
      have hneeds : Sched.Wf.NeedsRunning op → _ := Sched.needsRunning_of_running hc
      obtain ⟨k₁, hs, hr₁, hw₁⟩ := hr.step hw hop hact hneeds ht
      have hstuck : ∀ b, a.schedulerEntry op = some b → ¬ b.checkSleeping.Stuck := fun b hb => by
        simp only [Sched.stalls, hb, decide_eq_false_iff_not] at hns
        exact hns
      have hst : ¬ k.Stalls op := fun hs => by
        obtain ⟨b, hb, hst⟩ := (hr.stalls_iff hw hact hneeds).1 hs
        exact hstuck b hb hst
      obtain ⟨tr', k', h', hmap, hr'⟩ := ih (Run.step h ⟨hst, hok _ _ _ hr hallow⟩ hs) hr₁ hw₁
        (hw.trap_running hc hstuck ht) he
      exact ⟨tr', k', h', by simpa using hmap, hr'⟩
    · contradiction

/-- What the abstract scheduler can execute, the program can run. -/
theorem Run.of_exec (n timeBase : ℕ) (clock : ℕ → ℕ) (allow : Op → Sched → Bool)
    (ok : Kernel → Op → Prop) (hok : ∀ k a op, Refines k a → allow op a = true → ok k op)
    (ops : List Op) (h : ((Sched.boot n timeBase clock).exec allow ops).isSome = true) :
    ∃ tr k, Run (fun _ k op => ¬ k.Stalls op ∧ ok k op) (Kernel.boot n timeBase clock) tr k ∧
      tr.map Transition.op = ops := by
  obtain ⟨a', ha⟩ := Option.isSome_iff_exists.1 h
  obtain ⟨tr, k, hrun, hmap, -⟩ :=
    Run.exec_append hok ops Run.refl Refines.boot Sched.Wf.boot (Or.inl rfl) ha
  exact ⟨tr, k, hrun, hmap⟩

/-- The same from any state that has an abstract one, and without any condition but that no
operation stalls. -/
theorem Run.unstalled_from_exec {k : Kernel} {a a' : Sched} (hr : Refines k a) (hw : a.Wf)
    (hrun : a.Running) {ops : List Op} (h : a.exec (fun _ _ => true) ops = some a') :
    ∃ tr k', Run Unstalled k tr k' ∧ tr.map Transition.op = ops ∧ Refines k' a' ∧ a'.Wf ∧
      a'.Running := by
  obtain ⟨tr, k', hrun', hops, hr', hw', ha'⟩ :=
    Run.exec_append (fun _ _ _ _ _ => trivial) ops Run.refl hr hw hrun h
  exact ⟨tr, k', hrun'.mono fun _ _ _ h => h.1, hops, hr', hw', ha'⟩

/-- The same from the first state. -/
theorem Run.unstalled_of_exec_eq {n timeBase : ℕ} {clock : ℕ → ℕ} {ops : List Op} {a : Sched}
    (h : (Sched.boot n timeBase clock).exec (fun _ _ => true) ops = some a) :
    ∃ tr k, Run Unstalled (Kernel.boot n timeBase clock) tr k ∧ tr.map Transition.op = ops ∧
      Refines k a ∧ a.Wf ∧ a.Running :=
  Run.unstalled_from_exec Refines.boot Sched.Wf.boot (Or.inl rfl) h

theorem Run.unstalled_of_exec (n timeBase : ℕ) (clock : ℕ → ℕ) (ops : List Op)
    (h : ((Sched.boot n timeBase clock).exec (fun _ _ => true) ops).isSome = true) :
    ∃ tr k, Run Unstalled (Kernel.boot n timeBase clock) tr k ∧ tr.map Transition.op = ops := by
  obtain ⟨a, ha⟩ := Option.isSome_iff_exists.1 h
  obtain ⟨tr, k, hrun, hops, -⟩ := Run.unstalled_of_exec_eq ha
  exact ⟨tr, k, hrun, hops⟩

theorem Sched.exec_concat (op : Op) (ops : List Op) {allow : Op → Sched → Bool} :
    ∀ {a : Sched}, a.exec allow (ops ++ [op]) =
      (a.exec allow ops).bind fun b => b.exec allow [op] := by
  induction ops with
  | nil => intro a; rfl
  | cons x ops ih =>
    intro a
    rw [List.cons_append, Sched.exec, Sched.exec]
    split
    · rw [Option.bind_assoc]
      exact congrArg _ (funext fun b => ih)
    · rfl

/-- A trap of the program that does not stall is one the abstract scheduler can execute. -/
theorem Refines.exec_of_step {k k' : Kernel} {a : Sched} {op : Op} (hr : Refines k a) (hw : a.Wf)
    (hrun : a.Running) (hst : ¬ k.Stalls op) (hs : k.Step op k') :
    ∃ a', a.exec (fun _ _ => true) [op] = some a' ∧ Refines k' a' ∧ a'.Wf ∧ a'.Running := by
  obtain ⟨a', hc, ht, hr', hw', hrun'⟩ :=
    hr.of_step hw hrun hs fun hc => hr.not_stuck hw hc hst
  have hop : op = .timer ∨ a.currentRunning ≠ .pid0 := hc.imp_right hw.ne_boot_of_running
  have hns : a.stalls op = false := by
    rw [Sched.stalls]
    split
    · rename_i b hb
      exact decide_eq_false (hr.not_stuck hw hc hst b hb)
    · rfl
  refine ⟨a', ?_, hr', hw', hrun'⟩
  rw [Sched.exec, if_pos ⟨hop, hns, rfl⟩, ht]
  rfl

/-- **The kernel and the abstract scheduler simulate each other.**  Whatever the program does in an
unstalled run, the abstract scheduler does on the same operations, and the other way round; and
then the lists, the task structures and the locks of the kernel are those of the abstract state. -/
theorem Run.simulation (n timeBase : ℕ) (clock : ℕ → ℕ) :
    (∀ {tr : List Transition} {k : Kernel}, Run Unstalled (Kernel.boot n timeBase clock) tr k →
      ∃ a, (Sched.boot n timeBase clock).exec (fun _ _ => true) (tr.map Transition.op) = some a ∧
        Refines k a) ∧
    ∀ {ops : List Op} {a : Sched},
      (Sched.boot n timeBase clock).exec (fun _ _ => true) ops = some a →
        ∃ tr k, Run Unstalled (Kernel.boot n timeBase clock) tr k ∧ tr.map Transition.op = ops ∧
          Refines k a := by
  refine ⟨fun {tr k} h => ?_, fun {ops a} h => ?_⟩
  · suffices H : ∃ a, (Sched.boot n timeBase clock).exec (fun _ _ => true) (tr.map Transition.op) =
        some a ∧ Refines k a ∧ a.Wf ∧ a.Running by
      obtain ⟨a, he, hr, -⟩ := H
      exact ⟨a, he, hr⟩
    induction h with
    | refl => exact ⟨_, rfl, Refines.boot, Sched.Wf.boot, Or.inl rfl⟩
    | @step tr k k' op _ ho hs ih =>
      obtain ⟨a, he, hr, hw, hrun⟩ := ih
      obtain ⟨a', he', hr'⟩ := hr.exec_of_step hw hrun ho hs
      refine ⟨a', ?_, hr'⟩
      rw [List.map_append, List.map_singleton, Sched.exec_concat, he]
      exact he'
  · obtain ⟨tr, k, hrun, hops, hr, -⟩ := Run.unstalled_of_exec_eq h
    exact ⟨tr, k, hrun, hops, hr⟩

/-- **In an unstalled run every trap returns.** -/
theorem Run.progress {n timeBase : ℕ} {clock : ℕ → ℕ} {tr : List Transition} {k : Kernel}
    (h : Run Unstalled (Kernel.boot n timeBase clock) tr k) {op : Op} (hv : op.Valid)
    (hop : op = .timer ∨ k.currentRunning ≠ .pid0) : ∃ k', k.Step op k' := by
  obtain ⟨a, hr, hw, hrun⟩ := Run.refines (fun _ _ _ h => h) h
  rw [congrArg Core.currentRunning hr.core] at hop
  have hc := hrun.of_step hop
  obtain ⟨a', ht⟩ := Sched.trap_isSome (a := a) hv
  obtain ⟨k', N, -, hk'⟩ :=
    hr.trap hw (Sched.active_of_running hc) (Sched.needsRunning_of_running hc) ht
  refine ⟨k', ?_, N, (hk' N).trans (if_pos le_rfl)⟩
  rwa [congrArg Core.currentRunning hr.core]

/-- The second of two tasks acquires a lock, after a timer interrupt, an acquire and a yield. -/
theorem Run.progress_two_tasks : ∃ tr k,
    tr.map Transition.op = [.timer, .lockInit 1, .lockAcquire 0, .yield] ∧
    Run Unstalled (Kernel.boot 2 1 fun _ => 0) tr k ∧ ∃ k', k.Step (.lockAcquire 0) k' := by
  obtain ⟨a, ha, hc⟩ := (Option.any_eq_true _ _).1 (by decide :
    ((Sched.boot 2 1 fun _ => 0).exec (fun _ _ => true)
      [.timer, .lockInit 1, .lockAcquire 0, .yield]).any (fun a => a.currentRunning ≠ .pid0) = true)
  obtain ⟨tr, k, hrun, hops, hr, -⟩ := Run.unstalled_of_exec_eq ha
  refine ⟨tr, k, hops, hrun, Run.progress hrun ⟨le_rfl, by decide⟩ (Or.inr ?_)⟩
  rw [congrArg Core.currentRunning hr.core]
  exact of_decide_eq_true hc

end UcasOs
