import UcasOs.Arch.Syscall
import UcasOs.Kernel.Fairness

/-!
# The kernel's data and the hart, together

`Kernel/` says what a trap does to the data of the scheduler, and `Arch/` what the hart does from a
trap to the return to user mode.  Here the two go in step.  What the kernel is asked for is what the
hart has in its registers, and the hart is given to whom `current_running` points to.

* `Request` — what a trap is for, as `interrupt_helper` and `handle_syscall` find out.
* `Joint.Step` — a step of the task that is running, or a whole trap.
* `Joint.Inv` — the invariants of both sides, and that they agree about who has been created.
* `JointRun.inv` — it holds whatever the tasks do.
-/

set_option autoImplicit false

namespace UcasOs

open Riscv Reg

/-! ## What is asked for -/

/-- What the data of the scheduler have to do with a call. -/
def KernelCall.op : KernelCall → Option Op
  | doSleep sleepTime => some (.sleep ⟨sleepTime⟩)
  | doScheduler => some .yield
  | doMutexLockInit key => some (.lockInit key.toInt)
  | doMutexLockAcquire mlockIdx => some (.lockAcquire mlockIdx.toInt)
  | doMutexLockRelease mlockIdx => some (.lockRelease mlockIdx.toInt)
  | doExit => some .exit
  | doThreadCreate .. => some .threadCreate
  | doThreadYield => some .threadYield
  | screenWrite _ | screenMoveCursor _ _ | screenReflush | getTimeBase | getTicks => none

/-- What a trap is for. -/
inductive Request
  | timer
  | call (call : KernelCall)

def Request.op : Request → Option Op
  | timer => some .timer
  | call c => c.op

/-- `interrupt_helper` is called by `m`, and will call `handle_irq_timer`, or `handle_syscall` and
that a function of the kernel. -/
inductive Asks (m : Machine) : Request → Prop
  | timer (h : interruptHelper (m.get a2) = .installed .handleIrqTimer) : Asks m .timer
  | call {f : Syscall} (h : interruptHelper (m.get a2) = .installed .handleSyscall)
      (hf : syscallOf (m.get a0) m.mem = .installed f) :
      Asks m (.call (.of (callArgs (m.get a0) m.mem) f))

/-- The handler returns. -/
theorem Asks.answered {m : Machine} {r : Request} (h : Asks m r) :
    interruptHelper (Call.of m).scause = .installed .handleIrqTimer ∨
      interruptHelper (Call.of m).scause = .installed .handleSyscall := by
  cases h with
  | timer h => exact .inl h
  | call h => exact .inr h

/-- Nothing else is the timer. -/
theorem Request.op_eq_timer {r : Request} : r.op = some .timer ↔ r = .timer := by
  cases r with
  | timer => exact ⟨fun _ => rfl, fun _ => rfl⟩
  | call c => cases c <;> simp [op, KernelCall.op]

/-! ## Steps of both -/

/-- What `current_running` is when `c` is running: the elements of `pcb` are in order, and so are
the TCBs. -/
def PcbArray.ptr (p : PcbArray) (c : Fin stackCapacity) : PcbPtr :=
  if (c : ℕ) < p.tasks then .pcb c else .tcb (c - p.tasks)

theorem PcbArray.ptr_injective (p : PcbArray) : Function.Injective p.ptr := by
  intro c d h
  rw [ptr, ptr] at h
  split at h <;> split at h
  · exact Fin.ext (PcbPtr.pcb.inj h)
  · contradiction
  · contradiction
  · have hsub := PcbPtr.tcb.inj h
    exact Fin.ext (by omega)

/-- The tasks and threads that are created. -/
def creations {T : Type} (ls : List (Label T)) : List (T × Start) :=
  ls.filterMap fun
    | .create d start => some (d, start)
    | _ => none

theorem creations_append {T : Type} (ls ls' : List (Label T)) :
    creations (ls ++ ls') = creations ls ++ creations ls' := List.filterMap_append

/-- `do_thread_create` makes the next thread, which starts where it is told to, with the stack that
it has been given. -/
def Request.Creates (p : PcbArray) (k k' : Kernel) :
    Request → List (Fin stackCapacity × Start) → Prop
  | .call (.doThreadCreate func arg0 arg1 arg2 arg3), made => ∃ d, p.ptr d = .tcb k.nthreads ∧
      made = [(d, .thread (k'.givenStacks (p.ptr d)).userStack func arg0 arg1 arg2 arg3)]
  | _, made => made = []

/-- What happens to the data of the scheduler in a trap. -/
def Kernel.Handles (k : Kernel) (tr : List Transition) (k' : Kernel) : Option Op → Prop
  | some op => k.Step op k' ∧ ¬ k.Stalls op ∧ tr = [⟨k, op, k'⟩]
  | none => k' = k ∧ tr = []

/-- The kernel's data, and the hart when it is in user mode. -/
structure Joint where
  kernel : Kernel
  hart : State (Fin stackCapacity)

/-- A step of the task that is running, or a trap from user mode to user mode.  In between the hart
may do whatever `Step` lets it do. -/
inductive Joint.Step (p : PcbArray) (sym : Symbols) :
    Joint → List Transition → List (Label (Fin stackCapacity)) → Joint → Prop
  | user {S : Joint} {s : State (Fin stackCapacity)} (h : UcasOs.Step p.layout sym S.hart .user s) :
      Step p sym S [] [.user] ⟨S.kernel, s⟩
  | trap {S : Joint} {cause : Word} {s₁ s₂ s₃ : State (Fin stackCapacity)} {r : Request}
      {k' : Kernel} {tr : List Transition} {ls : List (Label (Fin stackCapacity))}
      (htrap : UcasOs.Step p.layout sym S.hart (.trap S.hart.cur cause) s₁)
      (hasks : Asks s₁.machine r) (hkernel : S.kernel.Handles tr k' r.op)
      (haway : Path p.layout sym s₁ ls s₂) (hls : ∀ c, Label.ret c ∉ ls)
      (hcreates : r.Creates p S.kernel k' (creations ls))
      (hcur : p.ptr s₂.cur = k'.currentRunning)
      (hback : UcasOs.Step p.layout sym s₂ (.ret s₂.cur) s₃) :
      Step p sym S tr (.trap S.hart.cur cause :: (ls ++ [.ret s₂.cur])) ⟨k', s₃⟩

/-- Steps of both, from `S₀` on. -/
inductive JointRun (p : PcbArray) (sym : Symbols) (S₀ : Joint) :
    List Transition → List (Label (Fin stackCapacity)) → Joint → Prop
  | refl : JointRun p sym S₀ [] [] S₀
  | step {tr u : List Transition} {ls l : List (Label (Fin stackCapacity))} {S S' : Joint}
      (h : JointRun p sym S₀ tr ls S) (hs : S.Step p sym u l S') :
      JointRun p sym S₀ (tr ++ u) (ls ++ l) S'

/-- The first timer interrupt has just taken `main` to the first task.  `entry` are the entry points
that `load_task_img` returned; the memory is what `init_pcb_stack` has made of it for these tasks
(`Boots.loaded`). -/
structure Joint.Boots (p : PcbArray) (sym : Symbols) (entry : Fin stackCapacity → Word)
    (k₀ : Kernel) (S : Joint) : Prop where
  kernel : k₀.Step .timer S.kernel
  hart : ∃ m s, UcasOs.Boots p.layout sym m s ∧ UcasOs.Step p.layout sym s (.ret s.cur) S.hart ∧
    ∀ c, s.act c = if (c : ℕ) < p.tasks then .fresh (.task (Mm.stacksOf c).userStack (entry c))
      else .absent
  cur : p.ptr S.hart.cur = S.kernel.currentRunning

/-! ## What the hart does between a trap and the return to user mode -/

section Meanwhile

variable {T : Type} [DecidableEq T] {L : Layout T} {sym : Symbols} {s s' s'' : State T}
  {l : Label T} {ls ls' : List (Label T)}

theorem Path.trans (h : Path L sym s ls s') (h' : Path L sym s' ls' s'') :
    Path L sym s (ls ++ ls') s'' := by
  induction h' with
  | nil => rwa [List.append_nil]
  | snoc _ hstep ih => exact List.append_assoc .. ▸ ih.snoc hstep

/-- Whoever is in `interrupt_helper` will be able to return from it. -/
def Answered (act : T → Activity) : Prop :=
  ∀ c call, (act c = .handler call ∨ ∃ caller, act c = .switched call caller) →
    interruptHelper call.scause = .installed .handleIrqTimer ∨
      interruptHelper call.scause = .installed .handleSyscall

theorem Answered.update {act : T → Activity} (h : Answered act) {c : T} {activity : Activity}
    (hc : ∀ call, activity = .handler call ∨ (∃ caller, activity = .switched call caller) →
      interruptHelper call.scause = .installed .handleIrqTimer ∨
        interruptHelper call.scause = .installed .handleSyscall) :
    Answered (Function.update act c activity) := by
  intro d call hd
  rcases eq_or_ne d c with rfl | hdc
  · rw [Function.update_self] at hd
    exact hc call hd
  · rw [Function.update_of_ne hdc] at hd
    exact h d call hd

/-- What a step in the kernel leaves as it is. -/
structure Meanwhile (s s' : State T) (made : List T) : Prop where
  kernel : s'.act s'.cur ≠ .user
  answered : Answered s.act → Answered s'.act
  created : ∀ c, s'.act c ≠ .absent ↔ s.act c ≠ .absent ∨ c ∈ made

/-- An activity that takes the place of another one creates nobody. -/
theorem update_ne_absent_iff {act : T → Activity} {c d : T} {activity : Activity}
    (hc : act c ≠ .absent) (hactivity : activity ≠ .absent) :
    Function.update act c activity d ≠ .absent ↔ act d ≠ .absent ∨ d ∈ ([] : List T) := by
  rw [or_iff_left List.not_mem_nil]
  rcases eq_or_ne d c with rfl | hdc
  · rw [Function.update_self]
    exact iff_of_true hactivity hc
  · rw [Function.update_of_ne hdc]

/-- **One step in the kernel.** -/
theorem Step.meanwhile (hstep : Step L sym s l s') (h : Inv L sym s) (hact : s.act s.cur ≠ .user)
    (hl : l ≠ .ret s.cur) : Meanwhile s s' ((creations [l]).map Prod.fst) := by
  cases hstep with
  | user hact' => exact absurd hact' hact
  | trap cause tval hact' => exact absurd hact' hact
  | ret => exact absurd rfl hl
  | derail hd => exact absurd hd h.not_derailed
  | kernel => exact ⟨hact, id, fun c => (or_iff_left List.not_mem_nil).symm⟩
  | @create call d userStack func arg0 arg1 arg2 arg3 hact' hd =>
    have hne : s.cur ≠ d := by
      rintro hcd
      rw [hcd, hd] at hact'
      contradiction
    refine ⟨?_, fun ha => ha.update (by simp), fun c => ?_⟩
    · change Function.update s.act d _ s.cur ≠ _
      rwa [Function.update_of_ne hne]
    · change Function.update s.act d _ c ≠ _ ↔ _ ∨ c ∈ [d]
      rw [List.mem_singleton]
      rcases eq_or_ne c d with rfl | hcd
      · rw [Function.update_self]
        simp
      · rw [Function.update_of_ne hcd, or_iff_left hcd]
  | @switch call next m hact' hnext hm =>
    have hne : s.act s.cur ≠ .absent := by rw [hact']; simp
    refine ⟨?_, fun ha => ha.update ?_, fun c => update_ne_absent_iff hne (by simp)⟩
    · change Function.update s.act s.cur _ next ≠ _
      rcases eq_or_ne next s.cur with rfl | hcur
      · rw [Function.update_self]
        simp
      · rw [Function.update_of_ne hcur]
        intro hu
        have hparked := h.parked next hcur
        rw [hu] at hparked
        exact hparked
    · rintro call' (h' | ⟨caller, h'⟩)
      · contradiction
      · obtain ⟨rfl, -⟩ := Activity.switched.inj h'
        exact ha _ _ (.inl hact')
  | @resume call caller hact' hres =>
    have hne : s.act s.cur ≠ .absent := by rw [hact']; simp
    refine ⟨?_, fun ha => ha.update ?_, fun c => update_ne_absent_iff hne (by simp)⟩
    · change Function.update s.act s.cur _ s.cur ≠ _
      rw [Function.update_self]
      simp
    · rintro call' (h' | ⟨caller, h'⟩)
      · obtain rfl := Activity.handler.inj h'
        exact ha _ _ (.inr ⟨caller, hact'⟩)
      · contradiction
  | timer hact' =>
    have hne : s.act s.cur ≠ .absent := by rw [hact']; simp
    refine ⟨?_, fun ha => ha.update (by simp), fun c => update_ne_absent_iff hne (by simp)⟩
    change Function.update s.act s.cur _ s.cur ≠ _
    rw [Function.update_self]
    simp
  | syscall result hact' =>
    have hne : s.act s.cur ≠ .absent := by rw [hact']; simp
    refine ⟨?_, fun ha => ha.update (by simp), fun c => update_ne_absent_iff hne (by simp)⟩
    change Function.update s.act s.cur _ s.cur ≠ _
    rw [Function.update_self]
    simp

theorem Path.meanwhile (hpath : Path L sym s ls s') (h : Inv L sym s) (hact : s.act s.cur ≠ .user)
    (hls : ∀ c, Label.ret c ∉ ls) : Meanwhile s s' ((creations ls).map Prod.fst) := by
  induction hpath with
  | nil => exact ⟨hact, id, fun c => (or_iff_left List.not_mem_nil).symm⟩
  | @snoc s₁ s₂ ls l hpath hstep ih =>
    have h₁ := ih fun c hc => hls c (List.mem_append_left _ hc)
    have h₂ := hstep.meanwhile (h.of_path hpath) h₁.kernel fun he =>
      hls _ (List.mem_append_right _ (List.mem_singleton.2 he.symm))
    refine ⟨h₂.kernel, fun ha => h₂.answered (h₁.answered ha), fun c => ?_⟩
    rw [h₂.created, h₁.created, creations_append, List.map_append, List.mem_append, or_assoc]

end Meanwhile

/-! ## The invariant -/

/-- **The invariant of both**: `n` processes have been loaded. -/
structure Joint.Inv (p : PcbArray) (sym : Symbols) (S : Joint) : Prop where
  hart : UcasOs.Inv p.layout sym S.hart
  user : S.hart.act S.hart.cur = .user
  scheduler : ∃ a, Refines S.kernel a ∧ a.Wf ∧ a.Running ∧ a.Peopled p.tasks
  cur : p.ptr S.hart.cur = S.kernel.currentRunning
  ntasks : S.kernel.ntasks = p.tasks
  fits : p.tasks + S.kernel.nthreads ≤ stackCapacity
  /-- The hart has the same tasks and threads as the kernel. -/
  created : ∀ c, S.hart.act c ≠ .absent ↔ (c : ℕ) < p.tasks + S.kernel.nthreads
  answered : Answered S.hart.act

section Inv

variable {p : PcbArray} {sym : Symbols} {S S' S₀ : Joint} {tr u : List Transition}
  {ls l : List (Label (Fin stackCapacity))} {k k' : Kernel} {op : Op} {r : Request}

/-- `current_running` is not the boot context. -/
theorem PcbArray.ptr_ne_pid0 (p : PcbArray) (c : Fin stackCapacity) : p.ptr c ≠ .pid0 := by
  rw [ptr]
  split <;> simp

/-- The fields that say how many tasks and threads there are. -/
theorem Kernel.Step.counts (h : k.Step op k') : k'.ntasks = k.ntasks ∧
    k'.nthreads = k.nthreads + if op = .threadCreate then 1 else 0 := by
  obtain ⟨-, fuel, hk'⟩ := h
  split
  · rename_i hop
    subst hop
    obtain rfl := Option.some_inj.1 hk'
    exact ⟨rfl, rfl⟩
  · rename_i hop
    have hsame := Kernel.trap_allocated hop hk'
    simp only [Core.allocated, Prod.mk.injEq] at hsame
    exact ⟨hsame.2.1, hsame.2.2.1⟩

/-- The TCBs come behind the elements of `pcb`. -/
theorem PcbArray.ptr_eq_tcb_iff {c : Fin stackCapacity} {j : ℕ} :
    p.ptr c = .tcb j ↔ (c : ℕ) = p.tasks + j := by
  rw [ptr]
  split
  · simp
    omega
  · rw [PcbPtr.tcb.injEq]
    omega

/-- The kernel and the hart agree about who is new. -/
theorem Request.Creates.mem_iff {made : List (Fin stackCapacity × Start)}
    (h : r.Creates p k k' made) {op : Op} (hop : r.op = some op) {c : Fin stackCapacity} :
    c ∈ made.map Prod.fst ↔ op = .threadCreate ∧ p.ptr c = .tcb k.nthreads := by
  cases r with
  | timer =>
    obtain rfl : made = [] := h
    obtain rfl := Option.some_inj.1 hop
    simp
  | call call =>
    cases call with
    | doThreadCreate func arg0 arg1 arg2 arg3 =>
      obtain ⟨d, hd, rfl⟩ := h
      obtain rfl := Option.some_inj.1 hop
      rw [List.map_singleton, List.mem_singleton]
      exact ⟨fun hc => ⟨rfl, hc ▸ hd⟩, fun hc => p.ptr_injective (hc.2.trans hd.symm)⟩
    | _ =>
      obtain rfl : made = [] := h
      first
        | contradiction
        | (obtain rfl := Option.some_inj.1 hop; simp)

/-- Where there is a new thread, there is room for it. -/
theorem Request.Creates.fits {made : List (Fin stackCapacity × Start)}
    (h : r.Creates p k k' made) (hop : r.op = some .threadCreate) :
    p.tasks + k.nthreads < stackCapacity := by
  cases r with
  | timer => contradiction
  | call call =>
    cases call with
    | doThreadCreate func arg0 arg1 arg2 arg3 =>
      obtain ⟨d, hd, -⟩ := h
      have hlt := d.isLt
      rw [PcbArray.ptr_eq_tcb_iff.1 hd] at hlt
      exact hlt
    | _ => first | contradiction | exact absurd (Option.some_inj.1 hop) (by simp)

/-- Nothing is made that the data of the scheduler have nothing to do with. -/
theorem Request.Creates.eq_nil {made : List (Fin stackCapacity × Start)}
    (h : r.Creates p k k' made) (hop : r.op = none) : made = [] := by
  cases r with
  | timer => exact h
  | call call => cases call <;> first | contradiction | exact h

/-- What is known in the course of a trap. -/
structure Joint.Inv.Trapped (p : PcbArray) (sym : Symbols) (s s₁ s₂ s₃ : State (Fin stackCapacity))
    (made : List (Fin stackCapacity)) : Prop where
  inv₁ : UcasOs.Inv p.layout sym s₁
  inv₂ : UcasOs.Inv p.layout sym s₂
  inv₃ : UcasOs.Inv p.layout sym s₃
  cur : s₃.cur = s₂.cur
  user : s₃.act s₃.cur = .user
  answered : Answered s₃.act
  created : ∀ c, s₃.act c ≠ .absent ↔ s.act c ≠ .absent ∨ c ∈ made

/-- At the call of `interrupt_helper`. -/
theorem Joint.Inv.of_trap (h : S.Inv p sym) {cause : Word} {s₁ : State (Fin stackCapacity)}
    (htrap : UcasOs.Step p.layout sym S.hart (.trap S.hart.cur cause) s₁)
    (hasks : Asks s₁.machine r) :
    UcasOs.Inv p.layout sym s₁ ∧ s₁.cur = S.hart.cur ∧
      s₁.act = Function.update S.hart.act S.hart.cur (.handler (.of s₁.machine)) ∧
      Answered s₁.act := by
  have hinv := h.hart.step htrap
  obtain ⟨tval, -, -, hs₁⟩ := htrap.of_trap
  have hact : s₁.act = Function.update S.hart.act S.hart.cur (.handler (.of s₁.machine)) := by
    rw [hs₁]
    rfl
  refine ⟨hinv, by rw [hs₁]; rfl, hact, ?_⟩
  rw [hact]
  refine h.answered.update ?_
  rintro call (hcall | ⟨caller, hcall⟩)
  · rw [← Activity.handler.inj hcall]
    exact hasks.answered
  · contradiction

/-- **A trap of the hart.** -/
theorem Joint.Inv.trapped (h : S.Inv p sym) {cause : Word} {s₁ s₂ s₃ : State (Fin stackCapacity)}
    (htrap : UcasOs.Step p.layout sym S.hart (.trap S.hart.cur cause) s₁)
    (hasks : Asks s₁.machine r)
    (haway : Path p.layout sym s₁ ls s₂) (hls : ∀ c, Label.ret c ∉ ls)
    (hback : UcasOs.Step p.layout sym s₂ (.ret s₂.cur) s₃) :
    Joint.Inv.Trapped p sym S.hart s₁ s₂ s₃ ((creations ls).map Prod.fst) := by
  obtain ⟨hinv₁, hcur₁, hact₁, hanswered₁⟩ := h.of_trap htrap hasks
  have hinv₂ := hinv₁.of_path haway
  have hinv₃ := hinv₂.step hback
  obtain ⟨-, hact₂, rfl⟩ := hback.of_ret
  have hmeanwhile := haway.meanwhile hinv₁ (by rw [hact₁, hcur₁, Function.update_self]; simp) hls
  have hne₂ : s₂.act s₂.cur ≠ .absent := by
    rcases hact₂ with h₂ | ⟨start, h₂⟩ <;> rw [h₂] <;> simp
  refine ⟨hinv₁, hinv₂, hinv₃, rfl, Function.update_self .., ?_, fun c => ?_⟩
  · exact (hmeanwhile.answered hanswered₁).update (by simp)
  · have h₃ : s₂.ret.act c ≠ .absent ↔ _ := update_ne_absent_iff hne₂ (by simp)
    have h₁ : s₁.act c ≠ .absent ↔ S.hart.act c ≠ .absent := by
      rw [hact₁, update_ne_absent_iff (by rw [h.user]; simp) (by simp),
        or_iff_left List.not_mem_nil]
    rw [h₃, or_iff_left List.not_mem_nil, hmeanwhile.created, h₁]

/-- **Every step keeps the invariant.** -/
theorem Joint.Inv.step (h : S.Inv p sym) (hs : S.Step p sym u l S') : S'.Inv p sym := by
  cases hs with
  | user hstep =>
    have hinv := h.hart.step hstep
    cases hstep with
    | user hact htp hstvec hmode hmem =>
      exact ⟨hinv, h.user, h.scheduler, h.cur, h.ntasks, h.fits, h.created, h.answered⟩
  | @trap cause s₁ s₂ s₃ r k' tr ls htrap hasks hkernel haway hls hcreates hcur hback =>
    have ht := h.trapped htrap hasks haway hls hback
    obtain ⟨a, hr, hw, hrun, hpeople⟩ := h.scheduler
    cases hop : r.op with
    | none =>
      rw [hop] at hkernel
      obtain ⟨rfl, rfl⟩ := hkernel
      rw [hcreates.eq_nil hop] at ht
      refine ⟨ht.inv₃, ht.user, ⟨a, hr, hw, hrun, hpeople⟩, ?_, h.ntasks, h.fits, fun c => ?_,
        ht.answered⟩
      · rw [ht.cur]
        exact hcur
      · rw [ht.created, List.map_nil, or_iff_left List.not_mem_nil]
        exact h.created c
    | some op =>
      rw [hop] at hkernel
      obtain ⟨hs, hst, rfl⟩ := hkernel
      obtain ⟨a', hc, htrap', hr', hw', hrun'⟩ :=
        hr.of_step hw hrun hs fun hc => hr.not_stuck hw hc hst
      obtain ⟨hntasks, hnthreads⟩ := hs.counts
      have hpeople' := (Sched.Peopled.stable p.tasks).trap hw hpeople hc
        (fun _ => hpeople.of_ring rfl) htrap'
      have hfits := h.fits
      refine ⟨ht.inv₃, ht.user, ⟨a', hr', hw', hrun', hpeople'⟩, ?_, hntasks.trans h.ntasks, ?_,
        fun c => ?_, ht.answered⟩
      · rw [ht.cur]
        exact hcur
      · change p.tasks + k'.nthreads ≤ _
        rw [hnthreads]
        split
        · rename_i hcreate
          exact hcreates.fits (hcreate ▸ hop)
        · exact hfits
      · change _ ↔ _ < p.tasks + k'.nthreads
        rw [ht.created, h.created, hcreates.mem_iff hop, PcbArray.ptr_eq_tcb_iff, hnthreads]
        by_cases hcreate : op = .threadCreate
        · rw [if_pos hcreate, and_iff_right hcreate]
          omega
        · rw [if_neg hcreate, or_iff_left fun hc => hcreate hc.1]
          rfl

theorem JointRun.trans {tr' : List Transition} {ls' : List (Label (Fin stackCapacity))}
    (h : JointRun p sym S₀ tr ls S) (h' : JointRun p sym S tr' ls' S') :
    JointRun p sym S₀ (tr ++ tr') (ls ++ ls') S' := by
  induction h' with
  | refl => rwa [List.append_nil, List.append_nil]
  | step _ hs ih =>
    rw [← List.append_assoc, ← List.append_assoc]
    exact ih.step hs

/-- The data that a step leaves are those after its operation, if it has one. -/
theorem Joint.Step.eq_nil_or (hs : S.Step p sym u l S') :
    u = [] ∨ ∃ t, u = [t] ∧ t.post = S'.kernel := by
  cases hs with
  | user => exact .inl rfl
  | @trap _ _ _ _ r _ _ _ _ _ hkernel =>
    cases hop : r.op with
    | none =>
      rw [hop] at hkernel
      exact .inl hkernel.2
    | some op =>
      rw [hop] at hkernel
      exact .inr ⟨_, hkernel.2.2, rfl⟩

/-- A run of both at the step for a given transition. -/
theorem JointRun.split_cons {t : Transition} (h : JointRun p sym S₀ u ls S') (hu : u = t :: tr) :
    ∃ ls₁ S l S₁ ls₂, JointRun p sym S₀ [] ls₁ S ∧ S.Step p sym [t] l S₁ ∧
      JointRun p sym S₁ tr ls₂ S' := by
  induction h generalizing tr with
  | refl => contradiction
  | @step v w ls l S S'' h hs ih =>
    cases v with
    | nil =>
      obtain rfl : w = t :: tr := hu
      rcases hs.eq_nil_or with hnil | ⟨t', ht, -⟩
      · contradiction
      · obtain ⟨rfl, rfl⟩ := List.cons.inj ht
        exact ⟨ls, S, l, S'', [], h, hs, .refl⟩
    | cons t' v =>
      obtain ⟨rfl, rfl⟩ := List.cons.inj hu
      obtain ⟨ls₁, S₁, l₁, S₂, ls₂, h₁, hs₁, h₂⟩ := ih rfl
      exact ⟨ls₁, S₁, l₁, S₂, ls₂ ++ l, h₁, hs₁, h₂.step hs⟩

/-- **The invariant holds for as long as the machine runs.** -/
theorem JointRun.inv (h : JointRun p sym S₀ tr ls S) (h₀ : S₀.Inv p sym) : S.Inv p sym := by
  induction h with
  | refl => exact h₀
  | step _ hs ih => exact ih.step hs

/-! ### The first task -/

/-- The first call of `do_scheduler` does not return to `main`. -/
theorem Sched.not_stuck_boot {n timeBase : ℕ} {clock : ℕ → ℕ} {b : Sched}
    (hb : (Sched.boot n timeBase clock).schedulerEntry .timer = some b) :
    ¬ b.checkSleeping.Stuck := by
  obtain rfl := Option.some_inj.1 hb
  exact fun hs => hs.2.1 rfl

/-- **The invariant holds when the first task is about to run.** -/
theorem Joint.Boots.inv {entry : Fin stackCapacity → Word} {timeBase : ℕ} {clock : ℕ → ℕ}
    (h : S.Boots p sym entry (Kernel.boot p.tasks timeBase clock)) : S.Inv p sym := by
  obtain ⟨m, s, hboot, hret, hact⟩ := h.hart
  have hinv := hboot.inv.step hret
  obtain ⟨-, hact', hs⟩ := hret.of_ret
  have hcur' : S.hart.cur = s.cur := by rw [hs]; rfl
  have hact₁ : S.hart.act = Function.update s.act s.cur .user := by rw [hs]; rfl
  obtain ⟨a, hc, htrap, hr, hw, hrun⟩ := Refines.boot.of_step Sched.Wf.boot (Or.inl rfl) h.kernel
    fun _ _ hb => Sched.not_stuck_boot hb
  obtain ⟨hntasks, hnthreads⟩ := h.kernel.counts
  have hcore : (Kernel.boot p.tasks timeBase clock).toCore = _ := Refines.boot.core
  rw [hcore] at hntasks hnthreads
  have hnthreads : S.kernel.nthreads = 0 := hnthreads
  have htasks := p.tasks_le
  refine ⟨hinv, ?_, ⟨a, hr, hw, hrun, (Sched.Peopled.stable p.tasks).trap Sched.Wf.boot
    Sched.Peopled.boot hc (fun he => absurd he (by simp)) htrap⟩, h.cur, hntasks, ?_,
    fun c => ?_, ?_⟩
  · rw [hact₁, hcur', Function.update_self]
  · rw [hnthreads]
    exact htasks.trans (by decide)
  · have hne : s.act s.cur ≠ .absent := by
      rcases hact' with h' | ⟨start, h'⟩ <;> rw [h'] <;> simp
    rw [hact₁, update_ne_absent_iff hne (by simp), or_iff_left List.not_mem_nil, hact, hnthreads]
    split <;> simp [*]
  · rw [hact₁]
    refine Answered.update ?_ (by simp)
    intro c call hc
    rw [hact] at hc
    split at hc <;> simp at hc

/-! ### The two sides -/

/-- What the kernel does is an unstalled run. -/
theorem JointRun.run (h : JointRun p sym S₀ tr ls S) : Run Unstalled S₀.kernel tr S.kernel := by
  induction h with
  | refl => exact Run.refl
  | step _ hs ih =>
    cases hs with
    | user => rwa [List.append_nil]
    | @trap _ _ _ _ r _ _ _ _ _ hkernel =>
      cases hop : r.op with
      | none =>
        rw [hop] at hkernel
        obtain ⟨rfl, rfl⟩ := hkernel
        rwa [List.append_nil]
      | some op =>
        rw [hop] at hkernel
        obtain ⟨hs, hst, rfl⟩ := hkernel
        exact Run.step ih hst hs

end Inv

end UcasOs
