import UcasOs.Kernel.Queues
import UcasOs.Lib.Rotation

/-!
# The turns of the threads of a process

`do_thread_yield` passes the turn on along the ring, and `do_thread_create` inserts the new thread
right after the running one: the ring of a process is a `RoundRobin` of the turns its threads have
had.

* `Run.rotation` — **between two turns of a thread every other thread of its process has exactly
  one**, those created meanwhile included.
-/

set_option autoImplicit false

namespace UcasOs

/-- The threads of the process `g` that `do_thread_yield` has activated, in order. -/
def activations (g : ℕ) (tr : List Transition) : List PcbPtr :=
  (tr.filter fun t => t.op = .threadYield ∧ t.pre.pid t.pre.currentRunning = g).map
    (·.post.currentRunning)

/-- The turns of the threads of the process of `pcb[i]`: the first is the one of `pcb[i]`, which
`do_scheduler` starts, and the others are given by `do_thread_yield`. -/
def turns (i : ℕ) (tr : List Transition) : List PcbPtr := .pcb i :: activations (i + 1) tr

/-- If `t`, after the traps `earlier`, gives a thread of the process of `pcb[i]` the turn again, every
other thread the process has by then has had exactly one turn since. -/
def FullRound (i : ℕ) (earlier : List Transition) (t : Transition) : Prop :=
  t.op = .threadYield → t.pre.pid t.pre.currentRunning = i + 1 →
    ∀ before since, turns i earlier = before ++ t.post.currentRunning :: since →
      t.post.currentRunning ∉ since →
      ∀ x, t.post.SameGroup t.post.currentRunning x → x ≠ t.post.currentRunning →
        since.count x = 1

/-- **Rotation**: every trap of the run completes a full round, if it completes one. -/
def Rotation (i : ℕ) (tr : List Transition) : Prop :=
  ∀ earlier t later, tr = earlier ++ t :: later → FullRound i earlier t

theorem activations_concat (g : ℕ) (tr : List Transition) (t : Transition) :
    activations g (tr ++ [t]) = activations g tr ++
      if t.op = .threadYield ∧ t.pre.pid t.pre.currentRunning = g then [t.post.currentRunning]
      else [] := by
  rw [activations, activations, List.filter_append, List.map_append]
  congr 1
  split <;> rename_i h <;> simp [h]

namespace Sched

variable {a a' : Sched} {op : Op}

/-- Only the thread operations change the rings and the processes of the tasks. -/
theorem trap_ring (hw : a.Wf) (hc : op = .timer ∨ a.status a.currentRunning = .running)
    (hcreate : op ≠ .threadCreate) (hyield : op ≠ .threadYield) (ht : a.trap op = some a') :
    a'.ring = a.ring := by
  have h : Steady fun b => b.ring = a.ring :=
    { tick := fun _ h => h
      wake := fun _ h _ _ => h
      preempt := fun _ h _ => h
      dispatch := fun _ h _ _ => h
      sleep := fun _ _ h _ => h
      locks := fun _ _ h => h
      block := fun _ _ h _ => h
      handover := fun _ h _ => h }
  exact h.trap hw rfl hc (fun _ => rfl) (fun e => absurd e hcreate) (fun e => absurd e hyield) ht

/-- A thread is inserted after the head of the ring of its process. -/
theorem threadCreate_ring (g : ℕ) : a.threadCreate.ring g =
    if g = a.pid a.currentRunning then insertSecond (.tcb a.nthreads) (a.ring g) else a.ring g := by
  simp only [threadCreate, Function.update_apply]
  split
  · rename_i hg; rw [hg]
  · rfl

/-- The head of the ring is the thread that is given the turn. -/
theorem threadYield_head (hw : a.Wf) (hc : a.status a.currentRunning = .running) :
    ∃ rest, (a.ring (a.pid a.currentRunning)).rotate 1 = a.threadYield.currentRunning :: rest := by
  obtain ⟨next, rest, hrot, -, -, he⟩ := hw.threadYield_eq hc
  exact ⟨rest, by rw [hrot, he]; rfl⟩

/-- **The rings are round robins of the turns**, and every trap leaves them so. -/
theorem roundRobin_trap {i : ℕ} {tr : List Transition} {k k' : Kernel} (hr : Refines k a)
    (hr' : Refines k' a') (hw : a.Wf)
    (hc : op = .timer ∨ a.status a.currentRunning = .running) (ht : a.trap op = some a')
    (h : RoundRobin (turns i tr) (a.ring (i + 1))) :
    RoundRobin (turns i (tr ++ [⟨k, op, k'⟩])) (a'.ring (i + 1)) := by
  have hpid : k.pid k.currentRunning = a.pid a.currentRunning := by rw [hr.core]
  have hcur : k'.currentRunning = a'.currentRunning := congrArg Core.currentRunning hr'.core
  rw [turns, activations_concat, hpid, hcur, ← List.cons_append]
  by_cases hy : op = .threadYield
  · subst hy
    have hcr := hc.resolve_left (by simp)
    rw [← Option.some_inj.1 ht, hw.threadYield_ring hcr]
    by_cases hg : a.pid a.currentRunning = i + 1
    · obtain ⟨rest, hrot⟩ := threadYield_head hw hcr
      rw [hg] at hrot
      rw [if_pos ⟨rfl, hg⟩, if_pos hg.symm, hrot]
      exact h.rotate hrot
    · rw [if_neg fun e => hg e.2, if_neg (Ne.symm hg), List.rotate_zero, List.append_nil]
      exact h
  · rw [if_neg fun e => hy e.1, List.append_nil]
    by_cases hcreate : op = .threadCreate
    · subst hcreate
      have hcr := hc.resolve_left (by simp)
      rw [← Option.some_inj.1 ht, threadCreate_ring]
      split
      · rename_i hg
        obtain ⟨others, hring⟩ := hw.ring_of_active (Or.inl ⟨rfl, hcr⟩)
        rw [← hg] at hring
        rw [hring] at h ⊢
        exact h.insert
      · exact h
    · rw [trap_ring hw hc hcreate hy ht]; exact h

end Sched

namespace Sched

variable {a a' : Sched} {op : Op}

/-- A trap completes a full round. -/
theorem fullRound_trap {i : ℕ} {tr : List Transition} {k k' : Kernel} (hr : Refines k a)
    (hr' : Refines k' a') (hw : a.Wf) (hw' : a'.Wf)
    (hc : op = .timer ∨ a.status a.currentRunning = .running) (ht : a.trap op = some a')
    (h : RoundRobin (turns i tr) (a.ring (i + 1))) : FullRound i tr ⟨k, op, k'⟩ := by
  rintro rfl hg before since hturns hns x hx hne
  have hcr := hc.resolve_left (by simp)
  have hcur : k'.currentRunning = a'.currentRunning := congrArg Core.currentRunning hr'.core
  change k.pid k.currentRunning = i + 1 at hg
  rw [hr.core] at hg
  rw [hcur] at hturns hns hx hne
  obtain rfl := Option.some_inj.1 ht
  have hmem : ∀ {y}, y ∈ a.threadYield.ring (i + 1) ↔ y ∈ a.ring (i + 1) :=
    hw.mem_ring_threadYield hcr
  obtain ⟨rest, hrot⟩ := threadYield_head hw hcr
  rw [hg] at hrot
  have hc' : a.threadYield.currentRunning ∈ a.threadYield.ring (i + 1) := by
    rw [hmem, ← List.mem_rotate (n := 1), hrot]
    exact List.mem_cons_self
  have hx' := hr'.mem_ring_of_sameGroup (hw'.created_of_mem_ring hc') hx
  rw [hw'.ring_pid hc', hmem] at hx'
  exact h.count_eq_one (hw.ring_nodup _) hrot hturns hns hx' hne

end Sched

/-- A run is extended by a trap that keeps to the rotation. -/
theorem Rotation.concat {i : ℕ} {tr : List Transition} {t : Transition} (h : Rotation i tr)
    (ht : FullRound i tr t) : Rotation i (tr ++ [t]) := by
  intro earlier t' later he
  rcases List.eq_nil_or_concat later with rfl | ⟨later, y, rfl⟩
  · obtain ⟨rfl, htt⟩ := List.append_inj' he rfl
    obtain rfl : t = t' := by simpa using htt
    exact ht
  · rw [List.concat_eq_append, ← List.cons_append, ← List.append_assoc] at he
    exact h earlier t' later (List.append_inj' he rfl).1

/-- **Rotation**, in every unstalled run. -/
theorem Run.rotation {n timeBase : ℕ} {clock : ℕ → ℕ} {tr : List Transition} {k : Kernel}
    (h : Run Unstalled (Kernel.boot n timeBase clock) tr k) {i : ℕ} (hi : i < n) :
    Rotation i tr := by
  obtain ⟨a, -, -, -, hrot, -⟩ := Run.induction
    (P := fun tr a => Rotation i tr ∧ RoundRobin (turns i tr) (a.ring (i + 1)))
    (fun _ _ _ h => h) ⟨fun earlier t later he => absurd he (by simp), by
      rw [Sched.Wf.boot_ring hi]; exact RoundRobin.singleton _⟩ (by
      rintro tr k k' op a a' hr hw hrun ⟨hrot, hrr⟩ - hc ht hr' hw' -
      exact ⟨hrot.concat (Sched.fullRound_trap hr hr' hw hw' hc ht hrr),
        Sched.roundRobin_trap hr hr' hw hc ht hrr⟩) h
  exact hrot

/-- Two tasks: the first makes two threads, one of them in the middle of a round, while the second
runs in between. -/
theorem Run.rotation_three_threads : ∃ tr k,
    Run Unstalled (Kernel.boot 2 1 fun _ => 0) tr k ∧
    tr.map Transition.op = [.timer, .threadCreate, .threadYield, .threadCreate, .timer, .yield,
      .threadYield, .threadYield, .threadYield] ∧
    Rotation 0 tr := by
  obtain ⟨tr, k, hrun, hops⟩ := Run.unstalled_of_exec 2 1 (fun _ => 0) [.timer, .threadCreate,
    .threadYield, .threadCreate, .timer, .yield, .threadYield, .threadYield, .threadYield]
    (by decide)
  exact ⟨tr, k, hrun, hops, Run.rotation hrun (by decide)⟩

end UcasOs
