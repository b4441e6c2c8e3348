import Mathlib.Data.Finset.Max
import Mathlib.Data.Fintype.Basic
import UcasOs.Kernel.Handover
import UcasOs.Kernel.Fairness

/-!
# Waiting for locks

What a task that waits for a lock can count on, in an unstalled run whose tasks use the locks as
they should.

* `Run.no_circular_wait` — if every task asks for locks in ascending order, of any order the program
  may choose, then **the tasks never wait for each other in a circle**: behind every lock that is
  waited for there is one whose owner waits for none.
* `Run.bounded_lock_wait` — **a waiting task is overtaken by nobody**: with `j` tasks before it in
  the queue it enters after at most `j + 1` releases of the lock, and as many calls of
  `do_scheduler` after that as there are processes.
-/

set_option autoImplicit false

namespace UcasOs

/-- The abstract state of a run whose tasks use the locks as they should. -/
theorem Run.permitted_induction (tr₀ : List Transition) (P : List Transition → Sched → Prop)
    {k₀ : Kernel} {a₀ : Sched} {ok : List Transition → Kernel → Op → Prop}
    (hok : ∀ s k op, ok s k op → UnstalledPermitted (tr₀ ++ s) k op)
    (hr₀ : Refines k₀ a₀) (hw₀ : a₀.Wf) (hrun₀ : a₀.Running)
    (hinv₀ : ∃ handed, LockInv (lockHist tr₀) handed a₀) (base : P [] a₀)
    (step : ∀ {s : List Transition} {k k' : Kernel} {op : Op} {a a' : Sched}
      {handed handed' : Fin LOCK_NUM → List PcbPtr}, Refines k a → a.Wf → a.Running → P s a →
      ok s k op → (op = .timer ∨ a.status a.currentRunning = .running) → a.trap op = some a' →
      Refines k' a' → a'.Wf → LockInv (lockHist (tr₀ ++ s)) handed a →
      LockInv (lockHist (tr₀ ++ (s ++ [⟨k, op, k'⟩]))) handed' a' → P (s ++ [⟨k, op, k'⟩]) a')
    {s : List Transition} {k : Kernel} (h : Run ok k₀ s k) :
    ∃ a, Refines k a ∧ a.Wf ∧ a.Running ∧
      (∃ handed, LockInv (lockHist (tr₀ ++ s)) handed a) ∧ P s a := by
  refine Run.induction_from
    (P := fun s a => (∃ handed, LockInv (lockHist (tr₀ ++ s)) handed a) ∧ P s a)
    hr₀ hw₀ hrun₀ ⟨by rwa [List.append_nil], base⟩
    (fun hr hw _ _ ho hc => hr.not_stuck hw hc (hok _ _ _ ho).1) ?_ h
  rintro s k k' op a a' hr hw hrun ⟨⟨handed, hinv⟩, hP⟩ ho hc ht hr' hw' hrun'
  obtain ⟨hst, hperm⟩ := hok _ _ _ ho
  rw [congrArg Core.currentRunning hr.core] at hperm
  have hop : op = .timer ∨ a.currentRunning ≠ .pid0 :=
    hc.imp_right fun h => hw.ne_boot_of_running h
  obtain ⟨handed', hinv'⟩ := hinv.trap hw hrun.settled hop (Sched.needsRunning_of_running hc) hperm
    (fun _ b _ hb => hr.not_stuck hw hc hst b hb) ht
  rw [← hr.core, ← hr'.core, ← lockHist_concat (tr₀ ++ s) ⟨k, op, k'⟩, List.append_assoc] at hinv'
  exact ⟨⟨handed', hinv'⟩, step hr hw hrun hP ho hc ht hr' hw' hinv hinv'⟩

/-! ## Executing runs with their history -/

/-- Execute a list of operations, as long as they do not stall and are allowed, together with the
history of the locks. -/
def LockHist.run (allow : LockHist → Sched → Op → Bool) :
    List Op → LockHist → Sched → Option (LockHist × Sched)
  | [], H, a => some (H, a)
  | op :: ops, H, a =>
    if (op = .timer ∨ a.status a.currentRunning = .running) ∧ a.stalls op = false ∧
        allow H a op = true then
      (a.trap op).bind fun a' => run allow ops (H.after a.toCore op a'.toCore) a'
    else none

/-- What can be executed so, the program can run. -/
theorem Run.of_lockRun (tr₀ : List Transition) {k₀ : Kernel}
    (ok : List Transition → Kernel → Op → Prop) {allow : LockHist → Sched → Op → Bool}
    (hok : ∀ s k a op, Refines k a → ¬ k.Stalls op → allow (lockHist (tr₀ ++ s)) a op = true →
      ok s k op) (ops : List Op) {H' : LockHist} {a' : Sched} :
    ∀ {s : List Transition} {k : Kernel} {a : Sched}, Run ok k₀ s k → Refines k a → a.Wf →
      a.Running → LockHist.run allow ops (lockHist (tr₀ ++ s)) a = some (H', a') →
      ∃ s' k', Run ok k₀ s' k' ∧ s'.map Transition.op = s.map Transition.op ++ ops ∧
        Refines k' a' ∧ a'.Wf ∧ a'.Running ∧ lockHist (tr₀ ++ s') = H' := by
  induction ops with
  | nil =>
    intro s k a h hr hw hrun he
    obtain ⟨hH, ha⟩ := Prod.mk.inj (Option.some_inj.1 he)
    exact ⟨s, k, h, (List.append_nil _).symm, ha ▸ hr, ha ▸ hw, ha ▸ hrun, hH⟩
  | cons op ops ih =>
    intro s k a h hr hw hrun he
    rw [LockHist.run] at he
    split at he
    · rename_i hg
      obtain ⟨hc, hns, hallow⟩ := hg
      obtain ⟨a₁, ht, he⟩ := Option.bind_eq_some_iff.1 he
      have hop : op = .timer ∨ a.currentRunning ≠ .pid0 := hc.imp_right hw.ne_boot_of_running
      have hact := Sched.active_of_running hc
      have hneeds : Sched.Wf.NeedsRunning op → _ := Sched.needsRunning_of_running hc
      have hst : ¬ k.Stalls op := fun hs => by
        obtain ⟨b, hb, hst⟩ := (hr.stalls_iff hw hact hneeds).1 hs
        simp only [Sched.stalls, hb, decide_eq_false_iff_not] at hns
        exact hns hst
      obtain ⟨k₁, hs, hr₁, hw₁⟩ := hr.step hw hop hact hneeds ht
      rw [← hr.core, ← hr₁.core, ← lockHist_concat (tr₀ ++ s) ⟨k, op, k₁⟩,
        List.append_assoc] at he
      obtain ⟨s', k', h', hmap, hrest⟩ := ih (Run.step h (hok _ _ _ _ hr hst hallow) hs) hr₁ hw₁
        (hw.trap_running hc (hr.not_stuck hw hc hst) ht) he
      exact ⟨s', k', h', by simpa using hmap, hrest⟩
    · contradiction

/-! ## Locks in ascending order -/

namespace LockHist

variable {H : LockHist} {rank : Fin LOCK_NUM → ℕ} {c : Core} {p q : PcbPtr} {op : Op}

/-- Whoever waits for a lock holds only locks of lower rank. -/
def Ordered (rank : Fin LOCK_NUM → ℕ) (H : LockHist) : Prop :=
  ∀ p i l, p ∈ H.inside i → H.pending p = some l → rank i < rank l

/-- `p` only asks for a lock of higher rank than those it holds. -/
def Ascends (rank : Fin LOCK_NUM → ℕ) (H : LockHist) (p : PcbPtr) : Op → Prop
  | .lockAcquire idx => ∀ l, mlockIndex idx = some l → ∀ i, p ∈ H.inside i → rank i < rank l
  | _ => True

instance (rank : Fin LOCK_NUM → ℕ) (H : LockHist) (p : PcbPtr) (op : Op) :
    Decidable (H.Ascends rank p op) :=
  match op with
  | .lockAcquire idx =>
    inferInstanceAs (Decidable (∀ l, mlockIndex idx = some l → ∀ i, p ∈ H.inside i → _))
  | .timer | .yield | .sleep _ | .lockInit _ | .lockRelease _ | .exit | .threadCreate |
    .threadYield => isTrue trivial

theorem Ordered.call (h : H.Ordered rank) (hasc : H.Ascends rank p op) :
    (H.call c p op).Ordered rank := by
  cases op with
  | lockInit key =>
    simp only [LockHist.call]
    split
    · split
      · exact h
      · exact h
    · exact h
  | lockAcquire idx =>
    simp only [LockHist.call]
    split
    · rename_i l hl
      intro x i m hx hm
      simp only [acquireCalled, Function.update_apply] at hm
      split at hm
      · rename_i e
        rw [← Option.some_inj.1 hm]
        exact hasc l hl i (e ▸ hx)
      · exact h x i m hx hm
    · exact h
  | lockRelease idx =>
    simp only [LockHist.call]
    split
    · rename_i j hj
      intro x i m hx hm
      simp only [releaseCalled, Function.update_apply] at hx
      split at hx
      · rename_i e
        exact h x i m (e ▸ List.mem_of_mem_erase hx) hm
      · exact h x i m hx hm
    · exact h
  | _ => exact h

theorem Ordered.resume (h : H.Ordered rank) (q : PcbPtr) : (H.resume q).Ordered rank := by
  simp only [LockHist.resume]
  split
  · rename_i j hj
    intro x i m hx hm
    simp only [acquireReturned, Function.update_apply] at hx hm
    -- `q` waits for nothing any more, and nobody else has got a lock
    split at hm
    · contradiction
    · rename_i hne
      split at hx
      · rename_i e
        rw [List.mem_append, List.mem_singleton] at hx
        exact h x i m (e ▸ hx.resolve_right hne) hm
      · exact h x i m hx hm
  · exact h

end LockHist

/-- The traps of tasks that use the locks as they should, and ask for them in ascending order, when
`do_scheduler` does not return to one that must not go on. -/
def AscendingLocks (rank : Fin LOCK_NUM → ℕ) (tr : List Transition) (k : Kernel) (op : Op) : Prop :=
  UnstalledPermitted tr k op ∧ (lockHist tr).Ascends rank k.currentRunning op

/-- `p` owns the lock `i`: it is between an acquire and a release, or the lock has been handed to
it and it is ready to go on. -/
def Owns (tr : List Transition) (k : Kernel) (p : PcbPtr) (i : Fin LOCK_NUM) : Prop :=
  p ∈ (lockHist tr).inside i ∨ (lockHist tr).pending p = some i ∧ k.status p = .ready

/-- `p` is in the queue of a lock. -/
def WaitsForLock (k : Kernel) (p : PcbPtr) : Prop :=
  ∃ l waiting, k.HasQueue (.block l) waiting ∧ p ∈ waiting

/-! ### Nobody waits in a circle -/

/-- **Nobody waits in a circle.**  If all tasks ask for locks in ascending order, and the run is
unstalled, then behind every lock that is waited for there is one, the same or a higher one, whose
owner waits for no lock. -/
theorem Run.no_circular_wait {n timeBase : ℕ} {clock : ℕ → ℕ} {rank : Fin LOCK_NUM → ℕ}
    {tr : List Transition} {k : Kernel}
    (h : Run (AscendingLocks rank) (Kernel.boot n timeBase clock) tr k) {i : Fin LOCK_NUM}
    {waiting : List PcbPtr} (hq : k.HasQueue (.block i) waiting) (hne : waiting ≠ []) :
    ∃ j p, rank i ≤ rank j ∧ Owns tr k p j ∧ ¬ WaitsForLock k p := by
  obtain ⟨a, hr, hw, -, ⟨handed, hinv⟩, hord⟩ := Run.permitted_induction []
    (fun tr _ => (lockHist tr).Ordered rank) (fun _ _ _ h => h.1) Refines.boot Sched.Wf.boot
    (Or.inl rfl) ⟨_, LockInv.boot⟩ (fun p i l hp => absurd hp List.not_mem_nil) (by
      rintro tr k k' op a a' _ _ hr - - hord ho - - - - - -
      rw [lockHist_concat]
      exact (hord.call ho.2).resume _) h
  rw [List.nil_append] at hinv
  -- among the locks that are waited for, take one of the highest rank
  obtain ⟨j, hj, hmax⟩ := (Finset.univ.filter fun j : Fin LOCK_NUM =>
    a.queue (.block j) ≠ [] ∧ rank i ≤ rank j).exists_max_image rank
      ⟨i, by simp [← hr.hasQueue_iff.1 hq, hne]⟩
  obtain ⟨-, hjne, hij⟩ := Finset.mem_filter.1 hj
  have howner := hinv.owner j
  rw [if_pos (hinv.waiting_locked hjne)] at howner
  obtain ⟨p, hp⟩ := List.length_eq_one_iff.1 howner
  have hmem : p ∈ (lockHist tr).inside j ∨ p ∈ handed j := by
    rw [← List.mem_append, hp]; exact List.mem_singleton_self p
  have hnot : ∀ l, p ∉ a.queue (.block l) := by
    intro l hl
    rcases hmem with hin | hhand
    · have hlt := hord p j l hin (hinv.pending_iff.2 (Or.inr hl))
      have hle := hmax l (Finset.mem_filter.2
        ⟨Finset.mem_univ l, List.ne_nil_of_mem hl, hij.trans hlt.le⟩)
      omega
    · exact absurd (hw.disjoint (hinv.handed_ready hhand) hl) (by simp)
  refine ⟨j, p, hij, hmem.imp_right fun hhand => ?_, ?_⟩
  · refine ⟨hinv.pending_iff.2 (Or.inl hhand), ?_⟩
    rw [hr.core]
    exact hw.queued_status (hinv.handed_ready hhand)
  · rintro ⟨l, waiting', hl, hpl⟩
    exact hnot l (hr.hasQueue_iff.1 hl ▸ hpl)

/-- Two tasks hold a lock each, and the second waits for that of the first. -/
theorem Run.no_circular_wait_two_tasks : ∃ tr k,
    Run (AscendingLocks fun i => 16 - i) (Kernel.boot 2 1 fun _ => 0) tr k ∧
    k.HasQueue (.block 0) [.pcb 1] ∧
    ∃ j p, 16 - (0 : Fin LOCK_NUM).val ≤ 16 - j.val ∧ Owns tr k p j ∧ ¬ WaitsForLock k p := by
  have h : (LockHist.run (fun H a op => decide (H.Permits a.currentRunning op ∧
      H.Ascends (fun i => 16 - i) a.currentRunning op)) [.timer, .lockInit 1, .lockAcquire 0, .yield,
        .lockInit 1, .lockInit 2, .lockAcquire 1, .lockAcquire 0] {}
      (Sched.boot 2 1 fun _ => 0)).any (fun s => s.2.queue (.block 0) = [.pcb 1]) = true := by decide
  obtain ⟨⟨H, a⟩, he, hq⟩ := (Option.any_eq_true _ _).1 h
  obtain ⟨tr, k, hrun, -, hr, -⟩ := Run.of_lockRun [] (AscendingLocks fun i => 16 - i)
    (fun s k a op hr hst hallow => by
      obtain ⟨hperm, hasc⟩ := of_decide_eq_true hallow
      rw [← hr.core] at hperm hasc
      exact ⟨⟨hst, hperm⟩, hasc⟩) _ Run.refl Refines.boot Sched.Wf.boot (Or.inl rfl) he
  have hwait := hr.hasQueue_iff.2 (of_decide_eq_true hq).symm
  exact ⟨tr, k, hrun, hwait, Run.no_circular_wait hrun hwait (by simp)⟩

/-! ## How long a task waits for a lock -/

/-- `op` releases the lock `i`. -/
def Op.releases (i : Fin LOCK_NUM) : Op → Bool
  | .lockRelease idx => mlockIndex idx = some i
  | _ => false

/-- The traps that release the lock `i`, in order. -/
def releasesOf (i : Fin LOCK_NUM) (tr : List Transition) : List Transition :=
  tr.filter (·.op.releases i)

theorem length_releasesOf_concat (i : Fin LOCK_NUM) (tr : List Transition) (t : Transition) :
    (releasesOf i (tr ++ [t])).length =
      (releasesOf i tr).length + if t.op.releases i then 1 else 0 := by
  rw [releasesOf, List.filter_append, List.length_append]
  cases h : t.op.releases i <;> simp [releasesOf, h]

namespace LockHist

variable {H : LockHist} {c c' : Core} {p q : PcbPtr} {op : Op} {i : Fin LOCK_NUM}

/-- What others call does not change what `p` waits for. -/
theorem pending_call (hne : p ≠ q) : (H.call c q op).pending p = H.pending p := by
  cases op with
  | lockInit key =>
    simp only [LockHist.call]
    split
    · split <;> rfl
    · rfl
  | lockAcquire idx =>
    simp only [LockHist.call]
    split
    · exact Function.update_of_ne hne ..
    · rfl
  | lockRelease idx =>
    simp only [LockHist.call]
    split <;> rfl
  | _ => rfl

/-- A task that waits for a lock enters when it is given the CPU, and waits until then. -/
theorem after_of_pending (hp : H.pending p = some i) (hne : p ≠ c.currentRunning) :
    if c'.currentRunning = p then p ∈ (H.after c op c').inside i
    else (H.after c op c').pending p = some i := by
  have hcall : (H.call c c.currentRunning op).pending p = some i := by rw [pending_call hne, hp]
  split
  · rename_i hcur
    rw [LockHist.after, hcur, LockHist.resume, hcall]
    simp [acquireReturned]
  · rename_i hcur
    rw [LockHist.after, LockHist.resume]
    split
    · exact (Function.update_of_ne (Ne.symm hcur) ..).trans hcall
    · exact hcall

end LockHist

namespace Sched

variable {a a' : Sched} {op : Op} {p : PcbPtr} {i : Fin LOCK_NUM} {d : ℕ}

/-- **A waiting task moves up by the releases of its lock**, and by nothing else. -/
theorem trap_place (hw : a.Wf) (hc : op = .timer ∨ a.status a.currentRunning = .running)
    (hkey : op.releases i → (a.mlocks i).key ≠ -1) (ht : a.trap op = some a')
    (hd : (a.queue (.block i))[d]? = some p) (hp : p ∈ a'.queue (.block i)) :
    ∃ d', (a'.queue (.block i))[d']? = some p ∧ d' + (if op.releases i then 1 else 0) = d := by
  by_cases hrel : op.releases i
  · rw [if_pos hrel]
    cases op with
    | lockRelease idx =>
      have hi : mlockIndex idx = some i := of_decide_eq_true hrel
      have ha' : a.release i = a' := by simpa [Sched.trap, hi] using ht
      cases hq : a.queue (.block i) with
      | nil => simp [hq] at hd
      | cons x rest =>
        have hnd := hw.nodup (.block i)
        rw [hq] at hnd
        have hrest : a'.queue (.block i) = rest := by
          rw [← ha', release_held (hkey hrel) hq]
          change (a.queue (.block i)).filter (· ≠ x) = rest
          rw [hq, filter_cons_self hnd]
        rw [hrest] at hp ⊢
        rw [hq] at hd
        cases d with
        | zero =>
          have hx : x = p := by simpa using hd
          exact absurd (hx ▸ hp) (List.nodup_cons.1 hnd).1
        | succ d => exact ⟨d, by simpa using hd, rfl⟩
    | _ => contradiction
  · rw [if_neg hrel]
    refine ⟨d, ?_, rfl⟩
    rcases trap_block hw hc ht i with he | ⟨idx, -, -, he⟩ | ⟨idx, x, rfl, hi, -⟩
    · rw [he, hd]
    · rw [he, List.getElem?_append_left (List.getElem?_eq_some_iff.1 hd).1, hd]
    · exact absurd (decide_eq_true hi) hrel

/-- Whoever is in the queue of a lock after a trap was there before it, unless it had the CPU. -/
theorem mem_block_of_trap (hw : a.Wf) (hc : op = .timer ∨ a.status a.currentRunning = .running)
    (ht : a.trap op = some a') (hp : p ∈ a'.queue (.block i)) (hne : p ≠ a.currentRunning) :
    p ∈ a.queue (.block i) := by
  rcases trap_block hw hc ht i with he | ⟨idx, -, -, he⟩ | ⟨idx, x, -, -, he⟩
  · exact he ▸ hp
  · rw [he, List.mem_append, List.mem_singleton] at hp
    exact hp.resolve_right hne
  · rw [he]; exact List.mem_cons_of_mem x hp

end Sched

/-- Where a task is that waits for the lock `i` with at most `j` tasks before it, after the traps
`s`: it has entered; or it waits still, has never had the CPU, and is ready or has moved up in the
queue by the releases of the lock. -/
def LockWait (tr : List Transition) (i : Fin LOCK_NUM) (p : PcbPtr) (j : ℕ) (s : List Transition)
    (a : Sched) : Prop :=
  (∃ s', s' <+: s ∧ p ∈ (lockHist (tr ++ s')).inside i) ∨
    (lockHist (tr ++ s)).pending p = some i ∧ (∀ t ∈ s, t.post.currentRunning ≠ p) ∧
      (p ∈ a.queue .ready ∨
        ∃ d, (a.queue (.block i))[d]? = some p ∧ d + (releasesOf i s).length ≤ j)

theorem LockWait.trap {tr s : List Transition} {i : Fin LOCK_NUM} {p : PcbPtr} {j : ℕ}
    {k k' : Kernel} {op : Op} {a a' : Sched} {handed handed' : Fin LOCK_NUM → List PcbPtr}
    (h : LockWait tr i p j s a) (hr : Refines k a) (hr' : Refines k' a') (hw : a.Wf)
    (hc : op = .timer ∨ a.status a.currentRunning = .running) (hrun : a.Running)
    (hperm : (lockHist (tr ++ s)).Permits k.currentRunning op) (ht : a.trap op = some a')
    (hinv : LockInv (lockHist (tr ++ s)) handed a)
    (hinv' : LockInv (lockHist (tr ++ (s ++ [⟨k, op, k'⟩]))) handed' a') :
    LockWait tr i p j (s ++ [⟨k, op, k'⟩]) a' := by
  rcases h with ⟨s', hs', hin⟩ | ⟨hpend, hnever, hplace⟩
  · exact Or.inl ⟨s', hs'.trans (List.prefix_append _ _), hin⟩
  have hne : p ≠ a.currentRunning := fun e => by
    rw [e, hinv.pending_eq_none (hrun.settled.not_mem hw (by simp)) fun l =>
      hrun.settled.not_mem hw (by simp)] at hpend
    contradiction
  have hcur' : k'.currentRunning = a'.currentRunning := congrArg Core.currentRunning hr'.core
  have hafter : if k'.currentRunning = p then p ∈ (lockHist (tr ++ (s ++ [⟨k, op, k'⟩]))).inside i
      else (lockHist (tr ++ (s ++ [⟨k, op, k'⟩]))).pending p = some i := by
    rw [← List.append_assoc, lockHist_concat]
    exact LockHist.after_of_pending hpend (by rw [hr.core]; exact hne)
  split at hafter
  · exact Or.inl ⟨_, List.prefix_rfl, hafter⟩
  · rename_i hcur
    refine Or.inr ⟨hafter, fun t ht' => ?_, ?_⟩
    · rcases List.mem_append.1 ht' with ht' | ht'
      · exact hnever t ht'
      · rw [List.mem_singleton.1 ht']
        exact hcur
    · rcases hinv'.pending_iff.1 hafter with hhand | hblock
      · exact Or.inl (hinv'.handed_ready hhand)
      · have hmem := Sched.mem_block_of_trap hw hc ht hblock hne
        obtain ⟨d, hd, hle⟩ := hplace.resolve_left fun hready =>
          absurd (hw.disjoint hready hmem) (by simp)
        have hkey : op.releases i → (a.mlocks i).key ≠ -1 := fun hrel => by
          cases op with
          | lockRelease idx =>
            obtain ⟨i', hi', hhandle, -⟩ := hperm
            obtain rfl : i' = i := Option.some_inj.1 (hi'.symm.trans (of_decide_eq_true hrel))
            exact hinv.handle_key hhandle
          | _ => contradiction
        obtain ⟨d', hd', hsum⟩ := Sched.trap_place hw hc hkey ht hd hblock
        refine Or.inr ⟨d', hd', ?_⟩
        rw [length_releasesOf_concat]
        change _ + (_ + if op.releases i then 1 else 0) ≤ j
        omega

section

variable {n timeBase j : ℕ} {clock : ℕ → ℕ} {tr tr₁ tr₂ s : List Transition} {k k' : Kernel}
  {a : Sched} {handed : Fin LOCK_NUM → List PcbPtr} {i : Fin LOCK_NUM} {p : PcbPtr}
  {waiting : List PcbPtr}

/-- How a run goes on whose tasks use the locks as they should and one of whose tasks is waiting. -/
theorem Run.lockWait (hr : Refines k a) (hw : a.Wf) (hrun : a.Running) (hpeople : a.Peopled n)
    (hinv : LockInv (lockHist tr) handed a) (hp : (a.queue (.block i))[j]? = some p)
    (h : Run (fun s => UnstalledPermitted (tr ++ s)) k s k') :
    ∃ a', Refines k' a' ∧ a'.Wf ∧ a'.Running ∧ a'.Peopled n ∧ LockWait tr i p j s a' := by
  have hpend : (lockHist (tr ++ [])).pending p = some i := by
    rw [List.append_nil]
    exact hinv.pending_iff.2 (Or.inr (List.mem_of_getElem? hp))
  obtain ⟨a', hr', hw', hrun', -, hwait⟩ := Run.permitted_induction tr
    (fun s a => a.Peopled n ∧ LockWait tr i p j s a) (fun _ _ _ h => h) hr hw hrun ⟨_, hinv⟩
    ⟨hpeople, Or.inr ⟨hpend, fun t ht => absurd ht List.not_mem_nil, Or.inr ⟨j, hp, le_rfl⟩⟩⟩ (by
      rintro s k k' op a a' _ _ hr hw hrun ⟨hn, hwait⟩ ho hc ht hr' hw' hinv hinv'
      exact ⟨(Sched.Peopled.stable n).trap hw hn hc (fun _ => hn.of_ring rfl) ht,
        hwait.trap hr hr' hw hc hrun ho.2 ht hinv hinv'⟩) h
  exact ⟨a', hr', hw', hrun', hwait⟩

/-- **Nobody overtakes a waiting task.**  In an unstalled run of tasks that use locks as they
should, a task with `j` tasks before it in the queue of a lock enters once the lock has been
released `j + 1` times, at the latest at the `n`-th call of `do_scheduler` after that, when there
are `n` processes. -/
theorem Run.bounded_lock_wait
    (h : Run UnstalledPermitted (Kernel.boot n timeBase clock) tr k)
    (hq : k.HasQueue (.block i) waiting) (hp : waiting[j]? = some p)
    (h' : Run (fun s => UnstalledPermitted (tr ++ s)) k (tr₁ ++ tr₂) k')
    (hrel : j < (releasesOf i tr₁).length) (hcalls : n ≤ (schedulerCalls tr₂).length) :
    ∃ s, s <+: tr₁ ++ tr₂ ∧ p ∈ (lockHist (tr ++ s)).inside i := by
  obtain ⟨a, hr, hw, hrun, ⟨handed, hinv⟩, hpeople⟩ := Run.permitted_induction []
    (fun _ a => a.Peopled n) (fun _ _ _ h => h) Refines.boot Sched.Wf.boot (Or.inl rfl)
    ⟨_, LockInv.boot⟩ Sched.Peopled.boot (by
      rintro s k k' op a a' _ _ - hw - hn - hc ht - - - -
      exact (Sched.Peopled.stable n).trap hw hn hc (fun _ => hn.of_ring rfl) ht) h
  rw [hr.hasQueue_iff.1 hq] at hp
  obtain ⟨_, -, -, -, -, hwait⟩ := Run.lockWait hr hw hrun hpeople hinv hp h'
  rcases hwait with hin | ⟨-, hnever, -⟩
  · exact hin
  -- otherwise it was ready after the releases, and got the CPU then
  obtain ⟨k₁, h₁, h₂⟩ := Run.split h'
  obtain ⟨a₁, hr₁, hw₁, hrun₁, hn₁, hwait₁⟩ := Run.lockWait hr hw hrun hpeople hinv hp h₁
  rcases hwait₁ with ⟨s, hs, hin⟩ | ⟨-, -, hready | ⟨d, -, hd⟩⟩
  · exact ⟨s, hs.trans (List.prefix_append _ _), hin⟩
  · obtain ⟨t, ht, hres⟩ := Run.resumes_of_ready hr₁ hw₁ hrun₁ hn₁
      (h₂.mono fun _ _ _ ho => ho.1) hready hcalls
    exact absurd hres.1 (hnever t (List.mem_append_right _ ht))
  · omega

/-- The second of two tasks waits for the lock of the first, which releases it. -/
theorem Run.bounded_lock_wait_two_tasks : ∃ tr k tr' k',
    Run UnstalledPermitted (Kernel.boot 2 1 fun _ => 0) tr k ∧ k.HasQueue (.block 0) [.pcb 1] ∧
    Run (fun s => UnstalledPermitted (tr ++ s)) k tr' k' ∧
    tr'.map Transition.op = [.lockRelease 0, .timer, .timer] ∧
    ∃ s, s <+: tr' ∧ .pcb 1 ∈ (lockHist (tr ++ s)).inside 0 := by
  obtain ⟨⟨H, a⟩, he, h⟩ := (Option.any_eq_true _ _).1 (by decide :
    (LockHist.run (fun H a op => decide (H.Permits a.currentRunning op))
      [.timer, .lockInit 1, .lockAcquire 0, .yield, .lockInit 1, .lockAcquire 0] {}
      (Sched.boot 2 1 fun _ => 0)).any (fun s => s.2.queue (.block 0) = [.pcb 1] ∧
        (LockHist.run (fun H a op => decide (H.Permits a.currentRunning op))
          [.lockRelease 0, .timer, .timer] s.1 s.2).isSome) = true)
  obtain ⟨hq, he'⟩ := of_decide_eq_true h
  obtain ⟨⟨H', a'⟩, he'⟩ := Option.isSome_iff_exists.1 he'
  have hok : ∀ tr s k a op, Refines k a → ¬ k.Stalls op →
      decide ((lockHist (tr ++ s)).Permits a.currentRunning op) = true →
      UnstalledPermitted (tr ++ s) k op := fun tr s k a op hr hst hallow =>
    ⟨hst, by rw [hr.core]; exact of_decide_eq_true hallow⟩
  obtain ⟨tr, k, hrun, -, hr, hw, ha, hH⟩ := Run.of_lockRun [] UnstalledPermitted (hok []) _
    Run.refl Refines.boot Sched.Wf.boot (Or.inl rfl) he
  rw [List.nil_append] at hH
  rw [← hH, ← List.append_nil tr] at he'
  obtain ⟨tr', k', hrun', hops, -⟩ := Run.of_lockRun tr _ (hok tr) _ Run.refl hr hw ha he'
  obtain ⟨t, tr₂, rfl, ht, htr₂⟩ := List.map_eq_cons_iff.1 hops
  have hrel : 0 < (releasesOf 0 [t]).length := by
    rw [releasesOf, List.filter_singleton, ht]; exact Nat.one_pos
  have hwait := hr.hasQueue_iff.2 hq.symm
  refine ⟨tr, k, t :: tr₂, k', hrun, hwait, hrun', hops, ?_⟩
  exact Run.bounded_lock_wait hrun hwait rfl (hrun' : Run _ k ([t] ++ tr₂) k') hrel
    (length_schedulerCalls htr₂ (by decide)).ge

end

end UcasOs
