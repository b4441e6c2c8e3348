import UcasOs.Kernel.Frame
import UcasOs.Kernel.Keys
import UcasOs.Kernel.Lock

/-!
# Handles that are none

What `do_mutex_lock_acquire` and `do_mutex_lock_release` do when a program passes an `int` that no
call of `do_mutex_lock_init` has returned for a key of its own, `-1` among them, which is what a
call that fails returns.

* `Returned` — the handles that have been given out in a run.
* `Run.returned_of_key` — a slot has a key only if its index is one of these.
* `Run.harmless_iff` — **with an `int` that is not, the two calls do nothing exactly if it is an index
  of `mlocks[]`**: nobody compares it with `LOCK_NUM`.
* `Run.harmless_fails` — `-1` is enough.
-/

set_option autoImplicit false

namespace UcasOs

/-- `do_mutex_lock_init` has returned the handle `idx` for some key. -/
def Returned (tr : List Transition) (idx : ℤ) : Prop :=
  ∃ t ∈ tr, ∃ key, t.op = .lockInit key ∧ key ≠ -1 ∧ idx ≠ -1 ∧
    (t.pre.doMutexLockInit key).1 = idx

/-- Neither of the two calls does anything. -/
def Kernel.Harmless (k : Kernel) (mlockIdx : ℤ) : Prop :=
  (∀ fuel, k.doMutexLockAcquire fuel mlockIdx = some k) ∧
    k.doMutexLockRelease mlockIdx = some k

theorem Returned.concat {tr : List Transition} {idx : ℤ} (h : Returned tr idx) (t : Transition) :
    Returned (tr ++ [t]) idx := by
  obtain ⟨t', ht', h⟩ := h
  exact ⟨t', List.mem_append_left _ ht', h⟩

theorem Core.inert_lockKeys : Core.Inert Core.lockKeys where
  setStatus _ _ _ := rfl
  getTicks _ := rfl
  logAppended _ _ := rfl
  dispatch _ _ := rfl
  setLockStatus c i s := by
    funext j
    simp only [lockKeys, setLockStatus, Function.update_apply]
    split
    · rename_i hj; rw [hj]
    · rfl
  setCurrent _ _ := rfl

/-- The slot in which a call puts a key is the one that it returns. -/
theorem Core.doMutexLockInit_key {c : Core} {key : ℤ} {i : Fin LOCK_NUM}
    (hold : (c.mlocks i).key = -1) (hnew : ((c.doMutexLockInit key).2.mlocks i).key ≠ -1) :
    key ≠ -1 ∧ (c.doMutexLockInit key).1 = i := by
  rw [doMutexLockInit] at hnew ⊢
  cases hi : (List.finRange LOCK_NUM).find? fun i => (c.mlocks i).key = key with
  | some j =>
    rw [hi] at hnew
    exact absurd hold hnew
  | none =>
    rw [hi] at hnew
    cases hf : (List.finRange LOCK_NUM).find? fun i => (c.mlocks i).key = -1 with
    | none =>
      rw [hf] at hnew
      exact absurd hold hnew
    | some j =>
      rw [hf] at hnew
      dsimp only at hnew ⊢
      by_cases hij : i = j
      · subst hij
        simp only [setLockKey, Function.update_self] at hnew
        exact ⟨hnew, rfl⟩
      · simp only [setLockKey, Function.update_of_ne hij] at hnew
        exact absurd hold hnew

variable {ok : List Transition → Kernel → Op → Prop} {n timeBase : ℕ} {clock : ℕ → ℕ}
  {tr : List Transition} {k : Kernel} {idx : ℤ}

/-- **Only handles that have been given out have a key.** -/
theorem Run.returned_of_key (h : Run ok (Kernel.boot n timeBase clock) tr k) {i : Fin LOCK_NUM}
    (hi : (k.mlocks i).key ≠ -1) : Returned tr i := by
  induction h with
  | refl =>
    have hcore : (Kernel.boot n timeBase clock).toCore = Sched.bootCore n timeBase clock :=
      Refines.boot.core
    rw [hcore] at hi
    exact absurd rfl hi
  | @step tr k k' op _ _ hs ih =>
    obtain ⟨-, fuel, hk'⟩ := hs
    by_cases hold : (k.mlocks i).key = -1
    · by_cases hinit : ∃ key, op = .lockInit key
      · -- the key is new
        obtain ⟨key, rfl⟩ := hinit
        rw [← Option.some_inj.1 hk'] at hi
        obtain ⟨hkey, hret⟩ := Core.doMutexLockInit_key hold hi
        exact ⟨_, List.mem_append_right _ (List.mem_singleton.2 rfl), key, rfl, hkey, by omega, hret⟩
      · by_cases hcreate : op = .threadCreate
        · subst hcreate
          rw [← Option.some_inj.1 hk'] at hi
          exact absurd hold hi
        · have hkeys := congrFun (Kernel.trap_inert Core.inert_lockKeys hcreate
            (fun key e => hinit ⟨key, e⟩) (fun _ _ _ _ _ => rfl) hk') i
          exact absurd (hkeys.trans hold) hi
    · exact (ih hold).concat _

/-- A slot without a key is left alone. -/
theorem Kernel.harmless_of_key {i : Fin LOCK_NUM} (hidx : mlockIndex idx = some i)
    (hi : (k.mlocks i).key = -1) : k.Harmless idx := by
  constructor
  · intro fuel
    simp [doMutexLockAcquire, acquireOrBlock, hidx, hi]
  · simp [doMutexLockRelease, hidx, hi]

/-- An index outside `mlocks[]` is used as it is. -/
theorem Kernel.not_harmless (hidx : mlockIndex idx = none) : ¬ k.Harmless idx := by
  intro h
  have hrelease := h.2
  rw [doMutexLockRelease, hidx] at hrelease
  contradiction

/-- **With an `int` that is no handle the two calls do nothing exactly if it is an index of
`mlocks[]`.** -/
theorem Run.harmless_iff (h : Run ok (Kernel.boot n timeBase clock) tr k)
    (hidx : ¬ Returned tr idx) : k.Harmless idx ↔ 0 ≤ idx ∧ idx < LOCK_NUM := by
  constructor
  · intro hk
    by_contra hout
    exact Kernel.not_harmless (dif_neg hout) hk
  · intro hin
    have hslot : mlockIndex idx = some ⟨idx.toNat, by omega⟩ := dif_pos hin
    refine Kernel.harmless_of_key hslot ?_
    by_contra hkey
    have hret := h.returned_of_key hkey
    simp only [Int.toNat_of_nonneg hin.1] at hret
    exact hidx hret

/-- One task has the handle `0`, and another one waits for the lock.  Nobody has been given `3`. -/
theorem Run.harmless_beside_waiter : ∃ (tr : List Transition) (k : Kernel),
    Run Unstalled (Kernel.boot 2 1 fun _ => 0) tr k ∧
    tr.map Transition.op = [.timer, .lockInit 7, .lockAcquire 0, .timer, .lockAcquire 0] ∧
    Returned tr 0 ∧ k.status (.pcb 1) = .blocked ∧ ¬ Returned tr 3 ∧ k.Harmless 3 := by
  obtain ⟨a, ha, hblocked⟩ := (Option.any_eq_true _ _).1 (by decide :
    ((Sched.boot 2 1 fun _ => 0).exec (fun _ _ => true) [.timer, .lockInit 7, .lockAcquire 0, .timer,
      .lockAcquire 0]).any (fun a => a.status (.pcb 1) = .blocked) = true)
  obtain ⟨tr, k, hrun, hops, hr, -⟩ := Run.unstalled_of_exec_eq ha
  have hstatus : k.status (.pcb 1) = .blocked := by
    rw [congrArg Core.status hr.core]
    exact of_decide_eq_true hblocked
  obtain ⟨t₀, tr, rfl, h₀, hrest⟩ := List.map_eq_cons_iff.1 hops
  obtain ⟨t₁, tr, rfl, h₁, hrest⟩ := List.map_eq_cons_iff.1 hrest
  -- before the call no slot has a key
  obtain ⟨-, -, ⟨-, fuel, hfirst⟩, hrun₁⟩ := hrun.split_cons
  rw [h₀] at hfirst
  have hkeys : t₁.pre.lockKeys = fun _ => -1 := by
    rw [hrun₁.split_cons.1, Kernel.trap_inert Core.inert_lockKeys (by simp) (by simp)
      (fun _ _ _ _ _ => rfl) hfirst, congrArg Core.lockKeys Refines.boot.core]
    rfl
  have hret : (t₁.pre.doMutexLockInit 7).1 = 0 := by
    rw [Core.doMutexLockInit_eq, hkeys]
    rfl
  have hnone : ¬ Returned (t₀ :: t₁ :: tr) 3 := by
    rintro ⟨t, ht, key, hop, -, -, hthree⟩
    have hlast : ∀ u ∈ tr, u.op ≠ .lockInit key := fun u hu he => by
      have hmem := hrest ▸ List.mem_map_of_mem (f := Transition.op) hu
      simp [he] at hmem
    rcases List.mem_cons.1 ht with rfl | ht
    · rw [h₀] at hop
      contradiction
    · rcases List.mem_cons.1 ht with rfl | ht
      · rw [h₁, Op.lockInit.injEq] at hop
        rw [← hop, hret] at hthree
        contradiction
      · exact hlast t ht hop
  refine ⟨_, k, hrun, hops, ⟨t₁, by simp, 7, h₁, by decide, by decide, hret⟩, hstatus, hnone, ?_⟩
  exact (Run.harmless_iff hrun hnone).2 (by decide)

/-- **What a failed call returns is not harmless.** -/
theorem Run.harmless_fails : ¬ ∀ (n timeBase : ℕ) (clock : ℕ → ℕ) (tr : List Transition)
    (k : Kernel) (idx : ℤ), Run (fun _ _ _ => True) (Kernel.boot n timeBase clock) tr k →
      ¬ Returned tr idx → k.Harmless idx := by
  intro h
  exact Kernel.not_harmless rfl (h 1 1 (fun _ => 0) [] _ (-1) Run.refl (by simp [Returned]))

end UcasOs
