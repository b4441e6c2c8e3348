import UcasOs.Kernel.Sched

/-!
# What the traps leave alone

Most traps only move PCBs about: they change statuses, the state of a lock, who is current, and the
time.  What does not depend on these is the same after the trap.

* `Core.Inert` — data that the small changes leave alone.
* `Kernel.trap_inert` — **the traps that are made of such changes leave it alone.**
-/

set_option autoImplicit false

namespace UcasOs

/-- `f` sees none of the changes that scheduling and locking are made of. -/
structure Core.Inert {β : Type} (f : Core → β) : Prop where
  setStatus : ∀ c p s, f (c.setStatus p s) = f c
  getTicks : ∀ c, f c.getTicks.2 = f c
  logAppended : ∀ c p, f (c.logAppended p) = f c
  dispatch : ∀ c p, f (c.dispatch p) = f c
  setLockStatus : ∀ c i s, f (c.setLockStatus i s) = f c
  setCurrent : ∀ (c : Core) p, f { c with currentRunning := p } = f c

namespace Kernel

variable {β : Type} {f : Core → β} {k k' : Kernel} {fuel : ℕ} {p q : NodePtr} {op : Op}

section

variable (hf : Core.Inert f)
include hf

theorem doBlock_inert (h : k.doBlock p q = some k') : f k'.toCore = f k.toCore := by
  obtain ⟨x, -, h⟩ := Option.bind_eq_some_iff.1 h
  rw [← Option.some_inj.1 h]
  exact hf.setStatus _ _ _

theorem doUnblock_inert (h : k.doUnblock p = some k') : f k'.toCore = f k.toCore := by
  obtain ⟨x, -, h⟩ := Option.bind_eq_some_iff.1 h
  rw [← Option.some_inj.1 h]
  exact (hf.logAppended _ _).trans (hf.setStatus _ _ _)

theorem checkSleepingLoop_inert (h : checkSleepingLoop fuel p q k = some k') :
    f k'.toCore = f k.toCore := by
  induction fuel generalizing p q k with
  | zero => contradiction
  | succ fuel ih =>
    rw [checkSleepingLoop] at h
    split at h
    · rw [← Option.some_inj.1 h]
    · obtain ⟨x, -, h⟩ := Option.bind_eq_some_iff.1 h
      dsimp only at h
      split at h
      · obtain ⟨k₁, hk₁, h⟩ := Option.bind_eq_some_iff.1 h
        rw [ih h, doUnblock_inert hf hk₁]
        exact hf.getTicks _
      · rw [ih h]
        exact hf.getTicks _

theorem schedule_inert (h : k.schedule = some k') : f k'.toCore = f k.toCore := by
  rw [schedule] at h
  split at h
  · rw [← Option.some_inj.1 h]
  · obtain ⟨x, -, h⟩ := Option.bind_eq_some_iff.1 h
    rw [← Option.some_inj.1 h]
    refine (hf.dispatch _ _).trans ?_
    split
    · exact (hf.logAppended _ _).trans (hf.setStatus _ _ _)
    · rfl

theorem doScheduler_inert (h : k.doScheduler fuel = some k') : f k'.toCore = f k.toCore := by
  obtain ⟨k₁, hk₁, h⟩ := Option.bind_eq_some_iff.1 h
  rw [schedule_inert hf h]
  exact checkSleepingLoop_inert hf hk₁

theorem sleepCurrent_inert {s : UInt32} (hw : ∀ c p t, f (c.setWakeupTime p t) = f c)
    (h : k.sleepCurrent s = some k') : f k'.toCore = f k.toCore := by
  rw [sleepCurrent] at h
  obtain ⟨k₁, hk₁, h⟩ := Option.bind_eq_some_iff.1 h
  rw [← doBlock_inert hf hk₁, ← Option.some_inj.1 h]
  exact (hw _ _ _).trans (hf.getTicks _)

theorem acquireOrBlock_inert {idx : ℤ} {blocked : Bool}
    (h : k.acquireOrBlock idx = some (k', blocked)) : f k'.toCore = f k.toCore := by
  obtain ⟨i, -, h⟩ := Option.bind_eq_some_iff.1 h
  split at h
  · rw [← (Prod.mk.inj (Option.some_inj.1 h)).1]
  · dsimp only at h
    split at h
    · rw [← (Prod.mk.inj (Option.some_inj.1 h)).1]
      exact hf.setLockStatus _ _ _
    · obtain ⟨k₁, hk₁, h⟩ := Option.bind_eq_some_iff.1 h
      rw [← (Prod.mk.inj (Option.some_inj.1 h)).1, doBlock_inert hf hk₁]
      exact hf.setLockStatus _ _ _

theorem doThreadYield_inert (h : k.doThreadYield = some k') : f k'.toCore = f k.toCore := by
  obtain ⟨x, -, h⟩ := Option.bind_eq_some_iff.1 h
  rw [← Option.some_inj.1 h]
  exact (hf.setStatus _ _ _).trans ((hf.setStatus _ _ _).trans (hf.setCurrent _ _))

theorem doMutexLockRelease_inert {idx : ℤ} (h : k.doMutexLockRelease idx = some k') :
    f k'.toCore = f k.toCore := by
  obtain ⟨i, -, h⟩ := Option.bind_eq_some_iff.1 h
  split at h
  · rw [← Option.some_inj.1 h]
  · split at h
    · rw [← Option.some_inj.1 h]
      exact hf.setLockStatus _ _ _
    · exact doUnblock_inert hf h

/-- **A trap leaves it alone**, if it makes no thread and gives out no lock, and if it does not see
the deadline that `do_sleep` sets. -/
theorem trap_inert (hcreate : op ≠ .threadCreate) (hinit : ∀ key, op ≠ .lockInit key)
    (hsleep : ∀ s, op = .sleep s → ∀ c p t, f (c.setWakeupTime p t) = f c)
    (h : k.trap fuel op = some k') : f k'.toCore = f k.toCore := by
  cases op with
  | timer =>
    rw [trap, handleIrqTimer] at h
    rw [doScheduler_inert hf h]
    exact hf.getTicks _
  | yield => exact doScheduler_inert hf h
  | sleep s =>
    rw [trap, doSleep] at h
    obtain ⟨k₁, hk₁, h⟩ := Option.bind_eq_some_iff.1 h
    rw [doScheduler_inert hf h, sleepCurrent_inert hf (hsleep s rfl) hk₁]
  | lockInit key => exact absurd rfl (hinit key)
  | lockAcquire idx =>
    obtain ⟨⟨k₁, blocked⟩, hk₁, h⟩ := Option.bind_eq_some_iff.1 h
    rw [← acquireOrBlock_inert hf hk₁]
    dsimp only at h
    split at h
    · exact doScheduler_inert hf h
    · rw [← Option.some_inj.1 h]
  | lockRelease idx => exact doMutexLockRelease_inert hf h
  | exit =>
    rw [trap, doExit] at h
    rw [doScheduler_inert hf h]
    exact hf.setStatus _ _ _
  | threadCreate => contradiction
  | threadYield => exact doThreadYield_inert hf h

end

end Kernel

end UcasOs
