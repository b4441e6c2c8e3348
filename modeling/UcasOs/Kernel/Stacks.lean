import UcasOs.Kernel.Frame
import UcasOs.Kernel.Queues
import Mathlib.Data.Nat.SuccPred
import Mathlib.Order.CompletePartialOrder
import Mathlib.Order.Interval.Set.Disjoint
import Mathlib.Order.SuccPred.IntervalSucc

/-!
# The memory of the stacks

Every task and every thread is given one page for its kernel stack and sixteen for its user stack,
by allocators that never stop and never take anything back.

* `Core.StacksGiven` — the invariant: who was given what only depends on the order in which tasks
  and threads were made.  It is kept by every trap, and says nothing about the lists, so it holds in
  all runs and not only in the unstalled ones.
* `Run.stacksSeparated_iff` — the stacks are apart from each other, from the jump table and from the
  task images for exactly as long as there are no more than `stackCapacity` tasks and threads.
* `Run.stacks_collide` — nothing keeps a task from making more threads than that.
-/

set_option autoImplicit false

namespace UcasOs

/-- `KERNEL_JMPTAB_BASE` -/
def KERNEL_JMPTAB_BASE : Ptr := 0x51ffff00

/-- The size of the jump table: a word for each member of `jmptab_idx_t`, from `CONSOLE_PUTSTR` to
`GET_TICK`. -/
def jmptabSize : ℕ := 20 * 8

/-- The addresses of the `size` bytes from `base` on. -/
def region (base : Ptr) (size : ℕ) : Set Ptr :=
  Set.preimage BitVec.toNat (Set.Ico base.toNat (base.toNat + size))

namespace Stacks

/-- The lowest address of the kernel page. -/
def kernelBase (s : Stacks) : Ptr := s.kernelStack - PAGE_SIZE

/-- The lowest address of the user stack. -/
def userBase (s : Stacks) : Ptr := s.userStack - PAGE_SIZE * 16

/-- The kernel page. -/
def kernelPage (s : Stacks) : Set Ptr := region s.kernelBase PAGE_SIZE.toNat

/-- The sixteen pages of the user stack. -/
def userPages (s : Stacks) : Set Ptr := region s.userBase (16 * PAGE_SIZE.toNat)

end Stacks

/-- **The stacks are separated**: page aligned, apart from each other, and clear of the jump table
and the task images. -/
structure Kernel.StacksSeparated (k : Kernel) : Prop where
  aligned : ∀ p, k.Created p → PAGE_SIZE.toNat ∣ (k.givenStacks p).kernelBase.toNat ∧
    PAGE_SIZE.toNat ∣ (k.givenStacks p).userBase.toNat
  disjoint : ∀ p p', k.Created p → k.Created p' → p ≠ p' →
    Disjoint ((k.givenStacks p).kernelPage ∪ (k.givenStacks p).userPages)
      ((k.givenStacks p').kernelPage ∪ (k.givenStacks p').userPages)
  jmptab : ∀ p, k.Created p →
    Disjoint (k.givenStacks p).kernelPage (region KERNEL_JMPTAB_BASE jmptabSize)
  tasks : ∀ p, k.Created p → ∀ x ∈ (k.givenStacks p).kernelPage, x < TASK_MEM_BASE

/-- How many kernel pages there are below the jump table. -/
def stackCapacity : ℕ := (KERNEL_JMPTAB_BASE.toNat - FREEMEM_KERNEL.toNat) / PAGE_SIZE.toNat

example : stackCapacity = 6910 := by decide

/-! ## Where the stacks are -/

namespace Mm

variable {n m : ℕ} {x : Ptr}

theorem stacksOf_kernelBase (hn : n ≤ stackCapacity) :
    (stacksOf n).kernelBase.toNat = 0x50501000 + n * 4096 := by
  have hn : n ≤ 6910 := hn
  simp only [stacksOf, Stacks.kernelBase, FREEMEM_KERNEL, INIT_KERNEL_STACK, PAGE_SIZE,
    BitVec.toNat_sub, BitVec.toNat_add, BitVec.toNat_mul, BitVec.toNat_ofNat, BitVec.ofNat_eq_ofNat]
  omega

theorem stacksOf_userBase (hn : n ≤ stackCapacity) :
    (stacksOf n).userBase.toNat = 0x52500000 + n * 65536 := by
  have hn : n ≤ 6910 := hn
  have hpages : (16 * PAGE_SIZE).toNat = 65536 := rfl
  have hsize : (PAGE_SIZE * 16).toNat = 65536 := rfl
  have hfree : FREEMEM_USER.toNat = 0x52500000 := rfl
  have htop : (stacksOf n).userStack.toNat = 0x52500000 + (n + 1) * 65536 := by
    rw [stacksOf, BitVec.toNat_add, BitVec.toNat_mul, BitVec.toNat_ofNat, hpages, hfree]
    omega
  rw [Stacks.userBase, BitVec.toNat_sub, htop, hsize]
  omega

/-- The kernel pages follow one another. -/
theorem kernelPage_stacksOf (hn : n ≤ stackCapacity) : (stacksOf n).kernelPage =
    Set.preimage BitVec.toNat (Set.Ico (0x50501000 + n * 4096) (0x50501000 + (n + 1) * 4096)) := by
  rw [Stacks.kernelPage, region, stacksOf_kernelBase hn, Nat.succ_mul, ← Nat.add_assoc]
  rfl

/-- The user stacks follow one another. -/
theorem userPages_stacksOf (hn : n ≤ stackCapacity) : (stacksOf n).userPages =
    Set.preimage BitVec.toNat (Set.Ico (0x52500000 + n * 65536) (0x52500000 + (n + 1) * 65536)) := by
  have hsize : 16 * PAGE_SIZE.toNat = 65536 := rfl
  rw [Stacks.userPages, region, stacksOf_userBase hn, hsize, Nat.succ_mul, ← Nat.add_assoc]

/-- Consecutive intervals of one size do not meet. -/
theorem disjoint_Ico (base size : ℕ) (hnm : n ≠ m) :
    Disjoint (Set.Ico (base + n * size) (base + (n + 1) * size))
      (Set.Ico (base + m * size) (base + (m + 1) * size)) := by
  have hf : Monotone fun i => base + i * size := fun i j hij =>
    Nat.add_le_add_left (Nat.mul_le_mul_right _ hij) _
  exact hf.pairwise_disjoint_on_Ico_succ hnm

/-- All kernel pages are below all user stacks. -/
theorem disjoint_kernelPage_userPages (hn : n ≤ stackCapacity) (hm : m ≤ stackCapacity) :
    Disjoint (stacksOf n).kernelPage (stacksOf m).userPages := by
  have hcap : stackCapacity = 6910 := rfl
  rw [kernelPage_stacksOf hn, userPages_stacksOf hm]
  refine Disjoint.preimage _ (Set.Ico_disjoint_Ico.2 ?_)
  omega

/-- Two tasks or threads have nothing in common. -/
theorem disjoint_stacksOf (hn : n ≤ stackCapacity) (hm : m ≤ stackCapacity) (hnm : n ≠ m) :
    Disjoint ((stacksOf n).kernelPage ∪ (stacksOf n).userPages)
      ((stacksOf m).kernelPage ∪ (stacksOf m).userPages) := by
  rw [Set.disjoint_union_left, Set.disjoint_union_right, Set.disjoint_union_right]
  refine ⟨⟨?_, disjoint_kernelPage_userPages hn hm⟩,
    (disjoint_kernelPage_userPages hm hn).symm, ?_⟩
  · rw [kernelPage_stacksOf hn, kernelPage_stacksOf hm]
    exact (disjoint_Ico 0x50501000 4096 hnm).preimage _
  · rw [userPages_stacksOf hn, userPages_stacksOf hm]
    exact (disjoint_Ico 0x52500000 65536 hnm).preimage _

theorem kernelPage_disjoint_jmptab (hn : n < stackCapacity) :
    Disjoint (stacksOf n).kernelPage (region KERNEL_JMPTAB_BASE jmptabSize) := by
  have hn' : n < 6910 := hn
  have hb : KERNEL_JMPTAB_BASE.toNat = 0x51ffff00 := rfl
  rw [kernelPage_stacksOf hn.le, region]
  refine Disjoint.preimage _ (Set.Ico_disjoint_Ico.2 ?_)
  omega

theorem kernelPage_lt_TASK_MEM_BASE (hn : n < stackCapacity) (hx : x ∈ (stacksOf n).kernelPage) :
    x < TASK_MEM_BASE := by
  have hn' : n < 6910 := hn
  rw [kernelPage_stacksOf hn.le] at hx
  have h1 : x.toNat < 0x50501000 + (n + 1) * 4096 := hx.2
  have hb : TASK_MEM_BASE.toNat = 0x52000000 := rfl
  rw [BitVec.lt_def]
  omega

/-- **The last page below the task images is the one with the jump table.** -/
theorem kernelPage_meets_jmptab :
    ¬ Disjoint (stacksOf stackCapacity).kernelPage (region KERNEL_JMPTAB_BASE jmptabSize) := by
  rw [Set.not_disjoint_iff, kernelPage_stacksOf le_rfl]
  exact ⟨KERNEL_JMPTAB_BASE, ⟨by decide, by decide⟩, le_rfl, by decide⟩

end Mm

/-! ## Who was given what -/

namespace Core

/-- What the allocators have done so far. -/
def allocated (c : Core) : Mm × ℕ × ℕ × (PcbPtr → Stacks) :=
  (c.mm, c.ntasks, c.nthreads, c.givenStacks)

/-- Tasks and threads have been given their stacks in the order in which they were made. -/
structure StacksGiven (c : Core) : Prop where
  mm : c.mm = .after (c.ntasks + c.nthreads)
  task : ∀ i < c.ntasks, c.givenStacks (.pcb i) = Mm.stacksOf i
  thread : ∀ j < c.nthreads, c.givenStacks (.tcb j) = Mm.stacksOf (c.ntasks + j)

theorem StacksGiven.of_allocated {c c' : Core} (h : c.StacksGiven)
    (he : c'.allocated = c.allocated) : c'.StacksGiven := by
  simp only [allocated, Prod.mk.injEq] at he
  obtain ⟨hm, hn, ht, hg⟩ := he
  exact ⟨by rw [hm, hn, ht]; exact h.mm, by rw [hn, hg]; exact h.task,
    by rw [hn, ht, hg]; exact h.thread⟩

end Core

namespace Kernel

variable {k k' : Kernel} {fuel : ℕ} {op : Op}

theorem doMutexLockInit_allocated (c : Core) (key : ℤ) :
    (c.doMutexLockInit key).2.allocated = c.allocated := by
  rw [Core.doMutexLockInit]
  split
  · rfl
  · split <;> rfl

theorem inert_allocated : Core.Inert Core.allocated :=
  ⟨fun _ _ _ => rfl, fun _ => rfl, fun _ _ => rfl, fun _ _ => rfl, fun _ _ _ => rfl,
    fun _ _ => rfl⟩

/-- **Only `do_thread_create` allocates.** -/
theorem trap_allocated (hop : op ≠ .threadCreate) (h : k.trap fuel op = some k') :
    k'.allocated = k.allocated := by
  by_cases hinit : ∃ key, op = .lockInit key
  · obtain ⟨key, rfl⟩ := hinit
    rw [← Option.some_inj.1 h]
    exact doMutexLockInit_allocated k.toCore key
  · exact trap_inert inert_allocated hop (fun key e => hinit ⟨key, e⟩) (fun _ _ _ _ _ => rfl) h

/-- `do_thread_create` gives the new thread the next stacks. -/
theorem doThreadCreate_stacksGiven (h : k.StacksGiven) : k.doThreadCreate.StacksGiven := by
  have hgive : k.mm.giveStacks = (Mm.stacksOf (k.ntasks + k.nthreads),
      Mm.after (k.ntasks + k.nthreads + 1)) := by rw [h.mm, Mm.giveStacks_after]
  have hmm : k.doThreadCreate.mm = k.mm.giveStacks.2 := rfl
  have hgiven : k.doThreadCreate.givenStacks =
      Function.update k.givenStacks (.tcb k.nthreads) k.mm.giveStacks.1 := rfl
  refine ⟨by rw [hmm, hgive]; rfl, fun i hi => ?_, fun j hj => ?_⟩
  · rw [hgiven, Function.update_of_ne (by simp)]
    exact h.task i hi
  · have hj : j < k.nthreads + 1 := hj
    rw [hgiven]
    rcases Nat.lt_succ_iff_lt_or_eq.1 hj with hj | rfl
    · rw [Function.update_of_ne (by simp; omega)]
      exact h.thread j hj
    · rw [Function.update_self, hgive]
      rfl

theorem boot_stacksGiven {n timeBase : ℕ} {clock : ℕ → ℕ} :
    (boot n timeBase clock).StacksGiven := by
  have hcore : (boot n timeBase clock).toCore = Sched.bootCore n timeBase clock := Refines.boot.core
  rw [hcore]
  exact ⟨rfl, fun i hi => if_pos hi, fun j hj => absurd hj (Nat.not_lt_zero j)⟩

end Kernel

/-! ## The result -/

/-- The stacks are given out in order, in every run. -/
theorem Run.stacksGiven {ok : List Transition → Kernel → Op → Prop} {n timeBase : ℕ}
    {clock : ℕ → ℕ} {tr : List Transition} {k : Kernel}
    (h : Run ok (Kernel.boot n timeBase clock) tr k) : k.StacksGiven := by
  induction h with
  | refl => exact Kernel.boot_stacksGiven
  | @step tr k k' op _ _ hs ih =>
    obtain ⟨-, fuel, hk'⟩ := hs
    by_cases hop : op = .threadCreate
    · subst hop
      rw [← Option.some_inj.1 hk']
      exact Kernel.doThreadCreate_stacksGiven ih
    · exact ih.of_allocated (Kernel.trap_allocated hop hk')

/-- The `n`-th task or thread that was made, counting from `0`. -/
def Core.nthCreated (c : Core) (n : ℕ) : PcbPtr :=
  if n < c.ntasks then .pcb n else .tcb (n - c.ntasks)

theorem Kernel.created_iff_nthCreated {k : Kernel} {p : PcbPtr} :
    k.Created p ↔ ∃ n < k.ntasks + k.nthreads, p = k.nthCreated n := by
  constructor
  · rintro (⟨i, hi, rfl⟩ | ⟨j, hj, rfl⟩)
    · exact ⟨i, by omega, (if_pos hi).symm⟩
    · refine ⟨k.ntasks + j, by omega, ?_⟩
      rw [Core.nthCreated, if_neg (by omega), Nat.add_sub_cancel_left]
  · rintro ⟨n, hn, rfl⟩
    rw [Core.nthCreated]
    split
    · exact Or.inl ⟨n, by assumption, rfl⟩
    · exact Or.inr ⟨n - k.ntasks, by omega, rfl⟩

theorem Core.StacksGiven.nthCreated {c : Core} (h : c.StacksGiven) {n : ℕ}
    (hn : n < c.ntasks + c.nthreads) : c.givenStacks (c.nthCreated n) = Mm.stacksOf n := by
  rw [Core.nthCreated]
  split
  · exact h.task n (by assumption)
  · rw [h.thread _ (by omega), Nat.add_sub_cancel' (by omega)]

/-- As long as there are enough pages, the stacks are separated. -/
theorem Core.StacksGiven.stacksSeparated {k : Kernel} (h : k.StacksGiven)
    (hle : k.ntasks + k.nthreads ≤ stackCapacity) : k.StacksSeparated where
  aligned p hp := by
    obtain ⟨n, hn, rfl⟩ := Kernel.created_iff_nthCreated.1 hp
    have hsize : PAGE_SIZE.toNat = 4096 := rfl
    rw [h.nthCreated hn, Mm.stacksOf_kernelBase (by omega), Mm.stacksOf_userBase (by omega), hsize]
    omega
  disjoint p p' hp hp' hne := by
    obtain ⟨n, hn, rfl⟩ := Kernel.created_iff_nthCreated.1 hp
    obtain ⟨n', hn', rfl⟩ := Kernel.created_iff_nthCreated.1 hp'
    rw [h.nthCreated hn, h.nthCreated hn']
    exact Mm.disjoint_stacksOf (by omega) (by omega) fun e => hne (by rw [e])
  jmptab p hp := by
    obtain ⟨n, hn, rfl⟩ := Kernel.created_iff_nthCreated.1 hp
    rw [h.nthCreated hn]
    exact Mm.kernelPage_disjoint_jmptab (by omega)
  tasks p hp x hx := by
    obtain ⟨n, hn, rfl⟩ := Kernel.created_iff_nthCreated.1 hp
    rw [h.nthCreated hn] at hx
    exact Mm.kernelPage_lt_TASK_MEM_BASE (by omega) hx

/-- One of more tasks and threads has been given the page with the jump table. -/
theorem Core.StacksGiven.not_stacksSeparated {k : Kernel} (h : k.StacksGiven)
    (hn : stackCapacity < k.ntasks + k.nthreads) : ¬ k.StacksSeparated := by
  intro hs
  have hmeet := hs.jmptab _ (Kernel.created_iff_nthCreated.2 ⟨_, hn, rfl⟩)
  rw [h.nthCreated hn] at hmeet
  exact Mm.kernelPage_meets_jmptab hmeet

/-- **In every run the stacks are separated exactly as long as there are enough pages.** -/
theorem Run.stacksSeparated_iff {n timeBase : ℕ} {clock : ℕ → ℕ} {tr : List Transition} {k : Kernel}
    (h : Run (fun _ _ _ => True) (Kernel.boot n timeBase clock) tr k) :
    k.StacksSeparated ↔ k.ntasks + k.nthreads ≤ stackCapacity := by
  refine ⟨fun hs => ?_, h.stacksGiven.stacksSeparated⟩
  by_contra hlt
  exact h.stacksGiven.not_stacksSeparated (Nat.lt_of_not_le hlt) hs

/-- Two tasks, one of which makes two threads. -/
theorem Run.stacksSeparated_two_threads : ∃ tr k,
    Run (fun _ _ _ => True) (Kernel.boot 2 1 fun _ => 0) tr k ∧
    tr.map Transition.op = [.timer, .threadCreate, .yield, .threadCreate] ∧
    k.StacksSeparated := by
  have hexec : ((Sched.boot 2 1 fun _ => 0).exec (fun _ _ => true)
      [.timer, .threadCreate, .yield, .threadCreate]).any
        (fun a => a.ntasks = 2 ∧ a.nthreads = 2) = true := by decide
  obtain ⟨a, he, ha⟩ := (Option.any_eq_true _ _).1 hexec
  obtain ⟨hn, ht⟩ := of_decide_eq_true ha
  obtain ⟨tr, k, hrun, hops, hr, -⟩ := Run.unstalled_of_exec_eq he
  have hrun' := hrun.mono (fun _ _ _ _ => trivial)
  refine ⟨tr, k, hrun', hops, (Run.stacksSeparated_iff hrun').2 ?_⟩
  rw [hr.core, hn, ht]
  decide

/-- A task that does nothing but make threads. -/
theorem Run.threadCreate_many {ok : List Transition → Kernel → Op → Prop} {k₀ : Kernel}
    (hok : ∀ tr k, ok tr k .threadCreate) {tr : List Transition} {k : Kernel} (h : Run ok k₀ tr k)
    (hc : k.currentRunning ≠ .pid0) (m : ℕ) : ∃ tr' k', Run ok k₀ tr' k' ∧
      k'.currentRunning ≠ .pid0 ∧ k'.ntasks = k.ntasks ∧ k'.nthreads = k.nthreads + m := by
  induction m with
  | zero => exact ⟨tr, k, h, hc, rfl, rfl⟩
  | succ m ih =>
    obtain ⟨tr', k', h', hc', hn, ht⟩ := ih
    have hs : k'.Step .threadCreate k'.doThreadCreate := ⟨Or.inr hc', 0, rfl⟩
    exact ⟨_, _, h'.step (hok _ _) hs, hc', hn, congrArg (· + 1) ht⟩

/-- **Nothing stops a task from making too many threads**: in the end one is given the page with the
jump table. -/
theorem Run.stacks_collide : ¬ ∀ (n timeBase : ℕ) (clock : ℕ → ℕ) (tr : List Transition)
    (k : Kernel), Run (fun _ _ _ => True) (Kernel.boot n timeBase clock) tr k →
    k.StacksSeparated := by
  intro h
  have hr₀ : Refines (Kernel.boot 1 1 fun _ => 0) (Sched.boot 1 1 fun _ => 0) := Refines.boot
  obtain ⟨k₁, hs₁, hr₁, -⟩ := hr₀.step Sched.Wf.boot (Or.inl rfl) (Or.inl rfl)
    (by simp [Sched.Wf.NeedsRunning]) (rfl : Sched.trap .timer _ = some _)
  have hcur : k₁.currentRunning ≠ .pid0 := by rw [hr₁.core]; decide
  have hrun₁ : Run (fun _ _ _ => True) (Kernel.boot 1 1 fun _ => 0) _ k₁ :=
    Run.step Run.refl trivial hs₁
  obtain ⟨tr, k, hrun, -, hn, ht⟩ :=
    Run.threadCreate_many (fun _ _ => trivial) hrun₁ hcur stackCapacity
  have hn₁ : k₁.ntasks = 1 := by rw [hr₁.core]; decide
  have ht₁ : k₁.nthreads = 0 := by rw [hr₁.core]; decide
  exact hrun.stacksGiven.not_stacksSeparated (by omega) (h 1 1 _ tr k hrun)

end UcasOs
