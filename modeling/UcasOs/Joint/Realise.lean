import UcasOs.Arch.Boot
import UcasOs.Joint.Lockstep

/-!
# The hart can do whatever the scheduler decides

Not every state of the hart has a way to go on: `switch_to` cannot go to a task that has not been
created, and a trap that no handler was installed for is never left.

* `Joint.Inv.exists_trap` — the task that is running can ask for any operation.
* `Joint.Inv.exists_steps` — **from wherever the two are, the hart can follow the kernel**.
* `Run.realised` — so it can in a whole run.
-/

set_option autoImplicit false

namespace UcasOs

open Riscv Reg

/-! ## Asking for an operation -/

/-- The argument of the operation, if it is an `int`, is in its range. -/
def Op.FitsInt : Op → Prop
  | .lockInit x | .lockAcquire x | .lockRelease x => -2 ^ 31 ≤ x ∧ x < 2 ^ 31
  | _ => True

theorem toInt_ofInt_of_fits {x : ℤ} (h : -2 ^ 31 ≤ x ∧ x < 2 ^ 31) :
    (BitVec.ofInt 32 x).toInt = x := by
  rw [BitVec.toInt_ofInt, Int.bmod_eq_of_le (by omega) (by omega)]

/-- There is a system call for every operation but the timer interrupt. -/
theorem Op.exists_call {op : Op} (hop : op ≠ .timer) (hint : op.FitsInt) :
    ∃ (number : Word) (f : Syscall) (arg : Fin 5 → Word),
      fetch syscallTable number = .installed f ∧ (KernelCall.of arg f).op = some op := by
  cases op with
  | timer => contradiction
  | yield => exact ⟨7, .doScheduler, fun _ => 0, rfl, rfl⟩
  | sleep t =>
    refine ⟨2, .doSleep, fun _ => t.toBitVec.setWidth 64, rfl, ?_⟩
    rw [KernelCall.of, setWidth_setWidth]
    rfl
  | lockInit key =>
    refine ⟨40, .doMutexLockInit, fun _ => (BitVec.ofInt 32 key).signExtend 64, rfl, ?_⟩
    rw [KernelCall.of, setWidth_signExtend, KernelCall.op, toInt_ofInt_of_fits hint]
  | lockAcquire idx =>
    refine ⟨41, .doMutexLockAcquire, fun _ => (BitVec.ofInt 32 idx).signExtend 64, rfl, ?_⟩
    rw [KernelCall.of, setWidth_signExtend, KernelCall.op, toInt_ofInt_of_fits hint]
  | lockRelease idx =>
    refine ⟨42, .doMutexLockRelease, fun _ => (BitVec.ofInt 32 idx).signExtend 64, rfl, ?_⟩
    rw [KernelCall.of, setWidth_signExtend, KernelCall.op, toInt_ofInt_of_fits hint]
  | exit => exact ⟨1, .doExit, fun _ => 0, rfl, rfl⟩
  | threadCreate => exact ⟨50, .doThreadCreate, fun _ => 0, rfl, rfl⟩
  | threadYield => exact ⟨51, .doThreadYield, fun _ => 0, rfl, rfl⟩

/-- The hart with the number and the arguments of a system call: those are in `x10`, ..., `x14`. -/
def withCall (m : Machine) (number : Word) (arg : Fin 5 → Word) : Machine :=
  { m with x := fun r => if r = a7 then number else
      if h : (r : ℕ) - 10 < 5 ∧ 10 ≤ (r : ℕ) then arg ⟨r - 10, h.1⟩ else m.x r }

theorem get_withCall (m : Machine) (number : Word) (arg : Fin 5 → Word) : ∀ i : Fin 5,
    (withCall m number arg).get (![a0, a1, a2, a3, a4] i) = arg i
  | 0 => rfl
  | 1 => rfl
  | 2 => rfl
  | 3 => rfl
  | 4 => rfl

section Ask

variable {p : PcbArray} {sym : Symbols} {S : Joint} {op : Op}

/-- **The task that is running can ask for any operation**: it gets its registers ready, and
traps. -/
theorem Joint.Inv.exists_trap (h : S.Inv p sym) (hint : op.FitsInt) :
    ∃ (ls : List (Label (Fin stackCapacity))) (S₁ : Joint) (cause : Word)
      (s₁ : State (Fin stackCapacity)) (r : Request),
      JointRun p sym S [] ls S₁ ∧ S₁.kernel = S.kernel ∧ S₁.hart.cur = S.hart.cur ∧
      UcasOs.Step p.layout sym S₁.hart (.trap S₁.hart.cur cause) s₁ ∧
      Asks s₁.machine r ∧ r.op = some op := by
  rcases eq_or_ne op .timer with rfl | hop
  · obtain ⟨cause, hcause⟩ : ∃ cause, interruptHelper cause = .installed .handleIrqTimer :=
      ⟨SCAUSE_IRQ_FLAG ||| IRQ_S_TIMER, by decide⟩
    have hcalled : Call.of (S.hart.trap sym cause 0).machine = _ := h.hart.call_trap h.user
    refine ⟨[], S, cause, S.hart.trap sym cause 0, .timer, .refl, rfl, rfl,
      .trap _ 0 h.user h.hart.stvec, ?_, rfl⟩
    generalize S.hart.trap sym cause 0 = s₁ at hcalled
    have ha2 : s₁.machine.get a2 = cause := congrArg Call.scause hcalled
    exact .timer (ha2 ▸ hcause)
  · obtain ⟨number, f, arg, hf, hcall⟩ := op.exists_call hop hint
    have huser : UcasOs.Step p.layout sym S.hart .user
        { S.hart with machine := withCall S.hart.machine number arg } :=
      .user h.user rfl rfl rfl fun _ hne => absurd rfl hne
    generalize hs : ({ S.hart with machine := withCall S.hart.machine number arg } :
      State (Fin stackCapacity)) = s at huser
    have hm : s.machine = withCall S.hart.machine number arg := by rw [← hs]
    have hact : s.act s.cur = .user := by rw [← hs]; exact h.user
    have hcur : s.cur = S.hart.cur := by rw [← hs]
    have hinv := h.hart.step huser
    have hcalled : Call.of (s.trap sym EXC_SYSCALL 0).machine = _ := hinv.call_trap hact
    have hread : RegsContext.read _ (s.trap sym EXC_SYSCALL 0).machine.mem = _ :=
      hinv.read_trap hact
    refine ⟨_, ⟨S.kernel, s⟩, EXC_SYSCALL, s.trap sym EXC_SYSCALL 0, .call (.of arg f),
      JointRun.refl.step (.user huser), rfl, hcur, .trap _ 0 hact hinv.stvec, ?_, hcall⟩
    generalize s.trap sym EXC_SYSCALL 0 = s₁ at hcalled hread
    have ha0 : s₁.machine.get a0 = p.layout.frame s.cur := congrArg Call.regs hcalled
    have ha2 : s₁.machine.get a2 = EXC_SYSCALL := congrArg Call.scause hcalled
    have hregs : (RegsContext.read (s₁.machine.get a0) s₁.machine.mem).regs = s.machine.get := by
      rw [ha0, hread]
      rfl
    have hargs : callArgs (s₁.machine.get a0) s₁.machine.mem = arg := by
      funext i
      rw [callArgs_eq, hregs, hm, get_withCall]
    rw [← hargs]
    refine .call (by rw [ha2]; decide) ?_
    rw [syscallOf_eq, hregs, hm]
    exact hf

end Ask

/-! ## Answering it -/

/-- One step more does not take anybody to user mode. -/
theorem ret_not_mem_append {T : Type} {l : Label T} {ls : List (Label T)}
    (hl : ∀ c, l ≠ .ret c) (hls : ∀ c, Label.ret c ∉ ls) (c : T) :
    Label.ret c ∉ [l] ++ ls := fun hc =>
  (List.mem_append.1 hc).elim (fun hc => hl c (List.mem_singleton.1 hc).symm) (hls c)

section Answer

variable {T : Type} [DecidableEq T] {L : Layout T} {sym : Symbols} {s s' : State T} {call : Call}
  {next : T}

/-- A way back to user mode. -/
structure Exits (L : Layout T) (sym : Symbols) (s : State T) (ls : List (Label T))
    (s₂ s₃ : State T) : Prop where
  path : Path L sym s ls s₂
  ret : ∀ c, Label.ret c ∉ ls
  creations : creations ls = []
  cur : s₂.cur = s.cur
  back : Step L sym s₂ (.ret s₂.cur) s₃

theorem Exits.cons {l : Label T} {ls : List (Label T)} {s₂ s₃ : State T}
    (h : Exits L sym s' ls s₂ s₃) (hstep : Step L sym s l s') (hcur : s'.cur = s.cur)
    (hl : ∀ c, l ≠ .ret c) (hcreate : UcasOs.creations [l] = []) :
    Exits L sym s ([l] ++ ls) s₂ s₃ where
  path := (Path.snoc (.nil s) hstep).trans h.path
  ret := ret_not_mem_append hl h.ret
  creations := by rw [creations_append, hcreate, h.creations]; rfl
  cur := h.cur.trans hcur
  back := h.back

/-- `interrupt_helper` can return at once. -/
theorem Inv.exists_return (h : Inv L sym s) (hact : s.act s.cur = .handler call)
    (hanswered : interruptHelper call.scause = .installed .handleIrqTimer ∨
      interruptHelper call.scause = .installed .handleSyscall) :
    ∃ ls s₂ s₃, Exits L sym s ls s₂ s₃ := by
  have hreturns := returns_jump L s.cur call s.machine
  rcases hanswered with hcause | hcause
  · have hstep : Step L sym s (.timer s.cur) _ := .timer hact hcause hreturns
    refine ⟨_, _, _, ⟨.snoc (.nil s) hstep, by simp, rfl, rfl,
      .ret (.inl (Function.update_self ..)) ?_⟩⟩
    exact ((h.step hstep).framed_of_ret (.inl (Function.update_self ..))).2.1
  · have hstep : Step L sym s (.syscall s.cur 0) _ := .syscall 0 hact hcause hreturns
    refine ⟨_, _, _, ⟨.snoc (.nil s) hstep, by simp, rfl, rfl,
      .ret (.inl (Function.update_self ..)) ?_⟩⟩
    exact ((h.step hstep).framed_of_ret (.inl (Function.update_self ..))).2.1

/-- A task that has been switched to can go on to user mode. -/
theorem Inv.exists_exit (h : Inv L sym s) (hanswered : Answered s.act)
    (hact : (∃ start, s.act s.cur = .fresh start) ∨
      ∃ call caller, s.act s.cur = .switched call caller) :
    ∃ ls s₂ s₃, Exits L sym s ls s₂ s₃ := by
  rcases hact with ⟨start, hact⟩ | ⟨call, caller, hact⟩
  · exact ⟨[], s, _, ⟨.nil s, by simp, rfl, rfl,
      .ret (.inr ⟨start, hact⟩) (h.framed_of_ret (.inr ⟨start, hact⟩)).2.1⟩⟩
  · have hrun := h.running
    rw [hact] at hrun
    have hstep : Step L sym s (.resume s.cur) _ := .resume hact hrun.2.2.2
    obtain ⟨ls, s₂, s₃, hexit⟩ := (h.step hstep).exists_return (Function.update_self ..)
      (hanswered _ _ (.inr ⟨caller, hact⟩))
    exact ⟨_, s₂, s₃, hexit.cons hstep rfl (by simp) rfl⟩

end Answer

/-! ## Following the kernel -/

/-- `main` never goes on. -/
theorem Sched.stable_ne_pid0 : Sched.Stable fun a => a.currentRunning ≠ .pid0 where
  tick _ h := h
  wake _ h _ _ := h
  preempt _ h _ := h
  dispatch {b x rest} hw _ hq _ := fun he => by
    obtain rfl : x = .pid0 := he
    exact hw.not_created_boot
      (hw.queued_created (q := .ready) (by rw [hq]; exact List.mem_cons_self))
  sleep _ _ h _ := h
  locks _ _ h := h
  block _ _ h _ := h
  handover _ h _ := h
  threadCreate _ h _ := h
  threadYield {b} hw _ hc := fun he => by
    obtain ⟨next, rest, -, hmem, -, hyield⟩ := hw.threadYield_eq hc
    rw [hyield] at he
    obtain rfl : next = .pid0 := he
    exact hw.not_created_boot (hw.created_of_mem_ring hmem)

section Follow

variable {p : PcbArray} {sym : Symbols} {S : Joint} {op : Op} {k' : Kernel} {r : Request}

theorem Request.creates_nil (hop : r.op = some op) (hne : op ≠ .threadCreate) (k : Kernel) :
    r.Creates p k k' [] := by
  cases r with
  | timer => rfl
  | call call =>
    cases call with
    | doThreadCreate => exact absurd (Option.some_inj.1 hop).symm hne
    | _ => rfl

/-- Whom the kernel chooses. -/
theorem Joint.Inv.exists_next (h : S.Inv p sym) (hs : S.kernel.Step op k')
    (hst : ¬ S.kernel.Stalls op) (hfits : p.tasks + k'.nthreads ≤ stackCapacity) :
    ∃ c, p.ptr c = k'.currentRunning ∧ (c : ℕ) < p.tasks + k'.nthreads := by
  obtain ⟨a, hr, hw, hrun, -⟩ := h.scheduler
  obtain ⟨a', hc, htrap, hr', hw', -⟩ := hr.of_step hw hrun hs fun hc => hr.not_stuck hw hc hst
  have hcur : a.currentRunning ≠ .pid0 := by
    rw [← congrArg Core.currentRunning hr.core, ← h.cur]
    exact p.ptr_ne_pid0 _
  have hne := Sched.stable_ne_pid0.trap hw hcur hc (fun _ => hcur) htrap
  obtain ⟨m, hm, he⟩ := Kernel.created_iff_nthCreated.1
    ((hr'.created_iff hw').2 (hw'.current_created.resolve_left hne))
  have hntasks : k'.ntasks = p.tasks := hs.counts.1.trans h.ntasks
  rw [hntasks] at hm
  refine ⟨⟨m, by omega⟩, ?_, hm⟩
  rw [congrArg Core.currentRunning hr'.core, he, Core.nthCreated, hntasks]
  rfl

/-- At the call of `interrupt_helper`, of those who have been created. -/
theorem Joint.Inv.handler_of_trap (h : S.Inv p sym) {cause : Word} {s₁ : State (Fin stackCapacity)}
    (htrap : UcasOs.Step p.layout sym S.hart (.trap S.hart.cur cause) s₁)
    (hasks : Asks s₁.machine r) : s₁.act s₁.cur = .handler (.of s₁.machine) ∧
      ∀ c, s₁.act c ≠ .absent ↔ (c : ℕ) < p.tasks + S.kernel.nthreads := by
  obtain ⟨-, hcur₁, hact₁, -⟩ := h.of_trap htrap hasks
  refine ⟨by rw [hact₁, hcur₁, Function.update_self], fun c => ?_⟩
  rw [hact₁, update_ne_absent_iff (by rw [h.user]; simp) (by simp), or_iff_left List.not_mem_nil,
    h.created]

/-- A thread that makes the next one goes on. -/
theorem Joint.Inv.exists_creation (h : S.Inv p sym) {cause : Word} {s₁ : State (Fin stackCapacity)}
    (htrap : UcasOs.Step p.layout sym S.hart (.trap S.hart.cur cause) s₁)
    (hasks : Asks s₁.machine r) (hop : r.op = some .threadCreate)
    (hs : S.kernel.Step .threadCreate k') (hroom : p.tasks + S.kernel.nthreads < stackCapacity) :
    ∃ ls s₂ s₃, Path p.layout sym s₁ ls s₂ ∧ (∀ c, Label.ret c ∉ ls) ∧
      r.Creates p S.kernel k' (creations ls) ∧ p.ptr s₂.cur = k'.currentRunning ∧
      UcasOs.Step p.layout sym s₂ (.ret s₂.cur) s₃ := by
  obtain ⟨hinv₁, hcur₁, -, -⟩ := h.of_trap htrap hasks
  obtain ⟨hhandler, hcreated⟩ := h.handler_of_trap htrap hasks
  obtain ⟨func, arg0, arg1, arg2, arg3, rfl⟩ :
      ∃ func arg0 arg1 arg2 arg3, r = .call (.doThreadCreate func arg0 arg1 arg2 arg3) := by
    cases r with
    | timer => contradiction
    | call call =>
      cases call with
      | doThreadCreate func arg0 arg1 arg2 arg3 => exact ⟨_, _, _, _, _, rfl⟩
      | _ => first | contradiction | exact absurd (Option.some_inj.1 hop) (by simp)
  obtain ⟨d, hd⟩ : ∃ d : Fin stackCapacity, (d : ℕ) = p.tasks + S.kernel.nthreads :=
    ⟨⟨_, hroom⟩, rfl⟩
  have habsent : s₁.act d = .absent := by
    by_contra hne
    have hlt := (hcreated d).1 hne
    omega
  have hne : s₁.cur ≠ d := fun he => by
    rw [he, habsent] at hhandler
    contradiction
  have hstep : UcasOs.Step p.layout sym s₁ (.create d _) _ :=
    .create (k'.givenStacks (p.ptr d)).userStack func arg0 arg1 arg2 arg3 hhandler habsent
  obtain ⟨ls, s₂, s₃, hexit⟩ := (hinv₁.step hstep).exists_return
    ((Function.update_of_ne hne ..).trans hhandler) hasks.answered
  refine ⟨[_] ++ ls, s₂, s₃, (Path.snoc (.nil s₁) hstep).trans hexit.path,
    ret_not_mem_append (by simp) hexit.ret, ⟨d, PcbArray.ptr_eq_tcb_iff.2 hd, ?_⟩, ?_, hexit.back⟩
  · rw [creations_append, hexit.creations]
    rfl
  · rw [hexit.cur]
    change p.ptr s₁.cur = _
    rw [hcur₁, h.cur]
    obtain ⟨-, fuel, hk'⟩ := hs
    rw [← Option.some_inj.1 hk']
    rfl

/-- Any other task or thread can be switched to, and goes on from there. -/
theorem Joint.Inv.exists_dispatch (h : S.Inv p sym) {cause : Word} {s₁ : State (Fin stackCapacity)}
    (htrap : UcasOs.Step p.layout sym S.hart (.trap S.hart.cur cause) s₁)
    (hasks : Asks s₁.machine r) {c : Fin stackCapacity} (hne : c ≠ s₁.cur)
    (hlt : (c : ℕ) < p.tasks + S.kernel.nthreads) :
    ∃ ls s₂ s₃, Path p.layout sym s₁ ls s₂ ∧ (∀ c, Label.ret c ∉ ls) ∧ creations ls = [] ∧
      s₂.cur = c ∧ UcasOs.Step p.layout sym s₂ (.ret s₂.cur) s₃ := by
  obtain ⟨hinv₁, -, -, hanswered₁⟩ := h.of_trap htrap hasks
  obtain ⟨hhandler, hcreated⟩ := h.handler_of_trap htrap hasks
  have habsent := (hcreated c).2 hlt
  obtain ⟨m, hstep⟩ := hinv₁.exists_handover hhandler habsent
  have hmeanwhile := hstep.meanwhile hinv₁ (by rw [hhandler]; simp) (by simp)
  have hact₂ : (s₁.switch m (.of s₁.machine) c).act c = s₁.act c := Function.update_of_ne hne ..
  have hparked := hinv₁.parked c hne
  obtain ⟨ls, s₂, s₃, hexit⟩ :=
    (hinv₁.step hstep).exists_exit (hmeanwhile.answered hanswered₁) (by
      change (∃ start, (s₁.switch m (.of s₁.machine) c).act c = _) ∨
        ∃ call caller, (s₁.switch m (.of s₁.machine) c).act c = _
      rw [hact₂]
      cases hact : s₁.act c with
      | absent => exact absurd hact habsent
      | fresh start => exact .inl ⟨start, rfl⟩
      | switched call caller => exact .inr ⟨call, caller, rfl⟩
      | _ => rw [hact] at hparked; exact absurd hparked id)
  refine ⟨[_] ++ ls, s₂, s₃, (Path.snoc (.nil s₁) hstep).trans hexit.path,
    ret_not_mem_append (by simp) hexit.ret, ?_, hexit.cur, hexit.back⟩
  rw [creations_append, hexit.creations]
  rfl

/-- **From the call of `interrupt_helper` the hart can go to whom the kernel chooses.** -/
theorem Joint.Inv.exists_answer (h : S.Inv p sym) {cause : Word} {s₁ : State (Fin stackCapacity)}
    (htrap : UcasOs.Step p.layout sym S.hart (.trap S.hart.cur cause) s₁)
    (hasks : Asks s₁.machine r) (hop : r.op = some op) (hs : S.kernel.Step op k')
    (hst : ¬ S.kernel.Stalls op) (hfits : p.tasks + k'.nthreads ≤ stackCapacity) :
    ∃ ls s₂ s₃, Path p.layout sym s₁ ls s₂ ∧ (∀ c, Label.ret c ∉ ls) ∧
      r.Creates p S.kernel k' (creations ls) ∧ p.ptr s₂.cur = k'.currentRunning ∧
      UcasOs.Step p.layout sym s₂ (.ret s₂.cur) s₃ := by
  obtain ⟨-, hnthreads⟩ := hs.counts
  by_cases hcreate : op = .threadCreate
  · subst hcreate
    rw [if_pos rfl] at hnthreads
    exact h.exists_creation htrap hasks hop hs (by omega)
  · have hmade : r.Creates p S.kernel k' [] := Request.creates_nil hop hcreate _
    rw [if_neg hcreate] at hnthreads
    obtain ⟨c, hc, hlt⟩ := h.exists_next hs hst hfits
    by_cases hnext : c = s₁.cur
    · obtain ⟨hinv₁, -, -, -⟩ := h.of_trap htrap hasks
      obtain ⟨hhandler, -⟩ := h.handler_of_trap htrap hasks
      obtain ⟨ls, s₂, s₃, hexit⟩ := hinv₁.exists_return hhandler hasks.answered
      exact ⟨ls, s₂, s₃, hexit.path, hexit.ret, hexit.creations ▸ hmade,
        by rw [hexit.cur, ← hnext, hc], hexit.back⟩
    · obtain ⟨ls, s₂, s₃, hpath, hret, hnone, hcur, hback⟩ :=
        h.exists_dispatch htrap hasks hnext (by omega)
      exact ⟨ls, s₂, s₃, hpath, hret, hnone ▸ hmade, by rw [hcur, hc], hback⟩

/-- **The hart can follow the kernel**, whatever it does next, as long as there is room for its
threads. -/
theorem Joint.Inv.exists_steps (h : S.Inv p sym) (hs : S.kernel.Step op k')
    (hst : ¬ S.kernel.Stalls op) (hint : op.FitsInt)
    (hfits : p.tasks + k'.nthreads ≤ stackCapacity) :
    ∃ ls S', JointRun p sym S [⟨S.kernel, op, k'⟩] ls S' ∧ S'.kernel = k' := by
  obtain ⟨ls₀, S₁, cause, s₁, r, hrun, hk, -, htrap, hasks, hop⟩ := h.exists_trap hint
  rw [← hk] at hs hst ⊢
  obtain ⟨ls, s₂, s₃, hpath, hret, hcreates, hcur, hback⟩ :=
    (hrun.inv h).exists_answer htrap hasks hop hs hst hfits
  exact ⟨_, ⟨k', s₃⟩, hrun.step (.trap htrap hasks (by rw [hop]; exact ⟨hs, hst, rfl⟩) hpath hret
    hcreates hcur hback), rfl⟩

end Follow

/-! ## The beginning -/

section Boot

variable (p : PcbArray) (sym : Symbols) (entry : Fin stackCapacity → Word)

variable {p} {timeBase : ℕ} {clock : ℕ → ℕ} {k : Kernel}

/-- **The hart gets to the first task**, which is the first on the ready queue. -/
theorem Joint.exists_boots (hn : 0 < p.tasks)
    (hs : (Kernel.boot p.tasks timeBase clock).Step .timer k) :
    ∃ S : Joint, S.Boots p sym entry (Kernel.boot p.tasks timeBase clock) ∧ S.kernel = k := by
  obtain ⟨first, hfirst⟩ : ∃ c : Fin stackCapacity, (c : ℕ) = 0 := ⟨⟨0, by decide⟩, rfl⟩
  obtain ⟨a, hc, htrap, hr, -⟩ := Refines.boot.of_step Sched.Wf.boot (Or.inl rfl) hs
    fun _ _ hb => Sched.not_stuck_boot hb
  have hready : (Sched.boot p.tasks timeBase clock).queue .ready =
      .pcb 0 :: (List.range' 1 (p.tasks - 1)).map .pcb := by
    change (List.range p.tasks).map PcbPtr.pcb = _
    rw [List.range_eq_range', ← Nat.succ_pred_eq_of_pos hn, List.range'_succ]
    rfl
  obtain ⟨-, -, hcur, -⟩ := Sched.trap_ready_of_schedules Sched.Wf.boot hc rfl htrap hready
  have hboots := p.boots_firstState sym entry (hfirst.symm ▸ hn : (first : ℕ) < p.tasks)
  generalize p.atSwitch sym entry first = m at hboots
  obtain ⟨s, hs'⟩ : ∃ s, s = p.firstState sym entry first := ⟨_, rfl⟩
  rw [← hs'] at hboots
  have hact : ∀ c, s.act c = if (c : ℕ) < p.tasks then
      .fresh (.task (Mm.stacksOf c).userStack (entry c)) else .absent := fun c => by
    rw [hs', PcbArray.act_firstState]
  have hcur₀ : s.cur = first := by rw [hs']; rfl
  have hfresh : s.act s.cur = .fresh (.task (Mm.stacksOf first).userStack (entry first)) := by
    rw [hact, hcur₀, if_pos (hfirst.symm ▸ hn)]
  obtain ⟨s', hret, hcur', -⟩ := hboots.inv.exists_ret rfl hfresh
  refine ⟨⟨k, s'⟩, ⟨hs, ⟨m, s, hboots, hret, hact⟩, ?_⟩, rfl⟩
  change p.ptr s'.cur = k.currentRunning
  rw [hcur', hcur₀, congrArg Core.currentRunning hr.core, hcur, PcbArray.ptr,
    if_pos (hfirst.symm ▸ hn), hfirst]

/-- The hart can follow the kernel in a run that goes on. -/
theorem Joint.Inv.exists_run {S : Joint} (h : S.Inv p sym) {tr : List Transition}
    (hrun : Run Unstalled S.kernel tr k) (hint : ∀ t ∈ tr, t.op.FitsInt)
    (hfits : p.tasks + k.nthreads ≤ stackCapacity) :
    ∃ ls S', JointRun p sym S tr ls S' ∧ S'.kernel = k := by
  induction hrun with
  | refl => exact ⟨[], S, .refl, rfl⟩
  | @step tr k k' op hrun hst hs ih =>
    rw [List.forall_mem_append] at hint
    have hle := hs.counts.2
    obtain ⟨ls, S₁, hjoint, rfl⟩ := ih hint.1 (by omega)
    obtain ⟨ls', S₂, hsteps, hk'⟩ := (hjoint.inv h).exists_steps hs hst
      (hint.2 _ List.mem_cons_self) hfits
    exact ⟨_, S₂, hjoint.trans hsteps, hk'⟩

/-- **Whatever the scheduler can do, the hart can do with it.**  For every unstalled run of the
kernel, with tasks and threads as many as there is room for, there are tasks that make it happen:
their traps take the hart through the entry code, `switch_to` and `ret_from_exception` to whom the
kernel has chosen, every time. -/
theorem Run.realised (hn : 0 < p.tasks) {t : Transition} {tr : List Transition}
    (h : Run Unstalled (Kernel.boot p.tasks timeBase clock) (t :: tr) k)
    (hint : ∀ t ∈ tr, t.op.FitsInt) (hfits : p.tasks + k.nthreads ≤ stackCapacity) :
    ∃ S₀ ls S, S₀.Boots p sym entry (Kernel.boot p.tasks timeBase clock) ∧ S₀.kernel = t.post ∧
      JointRun p sym S₀ tr ls S ∧ S.kernel = k := by
  obtain ⟨-, -, hs, hrest⟩ := h.split_cons
  have hop : t.op = .timer := hs.1.resolve_right fun hne => hne (by
    rw [show (Kernel.boot p.tasks timeBase clock).toCore = _ from Refines.boot.core]
    rfl)
  rw [hop] at hs
  obtain ⟨S₀, hboots, hk⟩ := Joint.exists_boots sym entry hn hs
  rw [← hk] at hrest
  obtain ⟨ls, S, hjoint, hS⟩ := hboots.inv.exists_run sym hrest hint hfits
  exact ⟨S₀, ls, S, hboots, hk, hjoint, hS⟩

end Boot

/-- The first of two tasks holds a lock that the second asks for, and makes a thread, which runs. -/
theorem Run.realised_two_tasks : ∃ (p : PcbArray) (sym : Symbols) (entry : Fin stackCapacity → Word)
    (S₀ S : Joint) (tr : List Transition) (ls : List (Label (Fin stackCapacity))),
    S₀.Boots p sym entry (Kernel.boot 2 1 fun _ => 0) ∧ JointRun p sym S₀ tr ls S ∧
    tr.map Transition.op = [.lockInit (-5), .lockAcquire 0, .timer, .lockAcquire 0, .lockRelease 0,
      .threadCreate, .threadYield] := by
  obtain ⟨a, ha, hn⟩ := (Option.any_eq_true _ _).1 (by decide :
    ((Sched.boot 2 1 fun _ => 0).exec (fun _ _ => true) [.timer, .lockInit (-5), .lockAcquire 0,
      .timer, .lockAcquire 0, .lockRelease 0, .threadCreate, .threadYield]).any
        (fun a => a.nthreads = 1) = true)
  obtain ⟨tr, k, hrun, hops, hr, -⟩ := Run.unstalled_of_exec_eq ha
  obtain ⟨t, tr, rfl, ht, htr⟩ := List.map_eq_cons_iff.1 hops
  have hint : ∀ u ∈ tr, u.op.FitsInt := by
    intro u hu
    have hmem := htr ▸ List.mem_map_of_mem (f := Transition.op) hu
    simp only [List.mem_cons, List.not_mem_nil, or_false] at hmem
    rcases hmem with h | h | h | h | h | h | h <;> rw [h] <;> simp [Op.FitsInt]
  have hfits : 2 + k.nthreads ≤ stackCapacity := by
    rw [congrArg Core.nthreads hr.core, of_decide_eq_true hn]
    decide
  obtain ⟨S₀, ls, S, hboots, -, hjoint, -⟩ := Run.realised
    (p := ⟨0x50400000, 2, by decide, by decide, by decide⟩) ⟨0x50201000, 0x50202000, 0x50203000⟩
    (fun _ => 0x52000000) (by decide) hrun hint hfits
  exact ⟨_, _, _, S₀, S, tr, ls, hboots, hjoint, htr⟩

end UcasOs
