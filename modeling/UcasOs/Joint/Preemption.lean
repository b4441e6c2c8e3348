import UcasOs.Joint.Realise

/-!
# What preemption does to a task

A task that the timer takes the hart from is on the ready queue, and its registers are in the frame
on its kernel stack.  The scheduler finds the one and `RESTORE_CONTEXT` the other.

* `Pending.returns` — when `ret_from_exception` gives the hart back, it holds what it held.
* `Run.calls_of_ready` — a task that is ready is not passed over for long.
* `JointRun.preemption` — **so a preempted task goes on where it was, and soon**.
-/

set_option autoImplicit false

namespace UcasOs

open Riscv Reg

/-! ## The hart -/

section Hart

variable {T : Type} [DecidableEq T] {L : Layout T} {sym : Symbols} {s₁ s₂ s₃ : State T} {c : T}
  {cause : Word} {ctx : RegsContext} {ls : List (Label T)}

/-- `c` has the hart, which holds what is in `ctx`. -/
structure Restored (c : T) (ctx : RegsContext) (s : State T) : Prop where
  cur : s.cur = c
  regs : ∀ r, s.machine.get r = ctx.regs r
  pc : s.machine.pc = ctx.sepc
  sstatus : s.machine.csr .sstatus = sretStatus ctx.sstatus
  mode : s.machine.mode = .user

/-- `c` does not have the hart, and what the hart held at its trap is in the frame. -/
structure Suspended (L : Layout T) (c : T) (cause : Word) (ctx : RegsContext) (s : State T) :
    Prop where
  cur : s.cur ≠ c
  pending : Pending L c cause ctx [] s

/-- A task that does not have the hart has not returned from its system call. -/
theorem Pending.suspended (h : Pending L c cause ctx ls s₁) (hcur : s₁.cur ≠ c) :
    Suspended L c cause ctx s₁ := by
  cases h with
  | inHandler call hcause hact hread => exact ⟨hcur, .inHandler call hcause hact hread rfl⟩
  | timer _ hcur' => exact absurd hcur' hcur
  | syscall _ _ hcur' => exact absurd hcur' hcur

/-- **Whoever gets the hart**: if it is `c` then with all that it held, and otherwise `c` waits. -/
theorem Pending.returns (h : Pending L c cause ctx [] s₁) (hinv : Inv L sym s₁)
    (htimer : interruptHelper cause = .installed .handleIrqTimer) (haway : Path L sym s₁ ls s₂)
    (hls : ∀ d, Label.ret d ∉ ls) (hback : Step L sym s₂ (.ret s₂.cur) s₃) :
    s₃.cur = s₂.cur ∧ (Restored c ctx s₃ ∨ Suspended L c cause ctx s₃) := by
  have hinv₂ := hinv.of_path haway
  have hpending := h.of_path hinv haway (hls c)
  obtain ⟨-, hact, hs₃⟩ := hback.of_ret
  have hcur : s₃.cur = s₂.cur := by rw [hs₃]; rfl
  refine ⟨hcur, ?_⟩
  rcases eq_or_ne s₂.cur c with hc | hc
  · left
    obtain ⟨hget, hpc, hsstatus, -, hmode, -⟩ := hinv₂.ret_spec hact
    rw [hc] at hact hget hpc hsstatus
    cases hpending with
    | inHandler call hcause hact' =>
      -- it cannot have returned to user mode out of `interrupt_helper`
      exfalso
      rcases hact' with h | ⟨caller, h⟩ <;> rcases hact with h' | ⟨start, h'⟩ <;>
        rw [h] at h' <;> cases h'
    | timer hcause hcur' hact' hread =>
      rw [hread] at hget hpc hsstatus
      rw [hs₃]
      exact ⟨hc, fun r => congrFun hget r, hpc, hsstatus, hmode⟩
    | syscall result hcause =>
      rw [htimer] at hcause
      cases hcause
  · right
    refine (hpending.step hinv₂ hback fun he => hc ?_).suspended (hcur ▸ hc)
    exact Label.ret.inj he

end Hart

/-! ## The scheduler -/

section Scheduler

variable {a a' : Sched} {x : PcbPtr} {tr : List Transition} {k k' : Kernel} {n : ℕ}

/-- `do_scheduler` leaves a task that is ready or has the CPU ready, or gives it the CPU. -/
theorem Sched.Runnable.doScheduler (h : a.Runnable x) (hw : a.Wf) : a.doScheduler.Runnable x :=
  (Sched.Wf.doScheduler_induction (P := Sched.Runnable x) (fun _ _ hb => hb)
    (fun _ _ hbw hb hy _ => hb.unblock hbw hy) (fun _ _ hb _ => hb.preempt)
    (fun _ y _ _ hb _ hc => hb.dispatchTo hc y) hw h).2

/-- The timer leaves the task that it interrupts ready, if it does not leave it the CPU. -/
theorem Sched.runnable_of_timer (hw : a.Wf) (hc : a.status a.currentRunning = .running)
    (ht : a.trap .timer = some a') : a'.Runnable a.currentRunning := by
  obtain ⟨b, hb⟩ : ∃ b, a.schedulerEntry .timer = some b := ⟨_, rfl⟩
  have hbw := hw.schedulerEntry (Sched.active_of_running (Or.inr hc))
    (Sched.needsRunning_of_running (Or.inr hc)) hb
  rw [Sched.Wf.trap_of_schedulerEntry hb] at ht
  rw [← Option.some_inj.1 ht]
  refine Sched.Runnable.doScheduler ?_ hbw
  obtain rfl := Option.some_inj.1 hb
  exact Or.inr ⟨rfl, hc⟩

/-- **A ready task is not passed over for long**: as long as it does not get the CPU there are fewer
calls of `do_scheduler` than others on the ready queue. -/
theorem Run.calls_of_ready (hr : Refines k a) (hw : a.Wf) (hrun : a.Running) (hn : a.Peopled n)
    (hne : a.currentRunning ≠ .pid0) (hx : x ∈ a.queue .ready) (h : Run Unstalled k tr k')
    (hlate : ∀ t ∈ tr, t.post.currentRunning ≠ x) : (schedulerCalls tr).length + 1 < n := by
  obtain ⟨a', -, -, -, hs, hres⟩ := h.serves hr hw hrun
  obtain ⟨j, hj⟩ := List.getElem?_of_mem hx
  obtain ⟨hlt, -⟩ := List.getElem?_eq_some_iff.1 hj
  have hready := hn.ready_length_lt hw (hrun.resolve_left hne)
  have hle : (schedulerCalls tr).length ≤ j := by
    by_contra hle
    have ht := List.getElem?_eq_getElem (not_le.1 hle)
    refine hlate _ (List.mem_filter.1 (List.mem_of_getElem? ht)).1
      (resumes_of_serves hs hres hj ?_ ht).1
    rintro rfl
    exact hw.not_created_boot (hw.queued_created hx)
  omega

end Scheduler

/-! ## Both -/

section Joint

variable {p : PcbArray} {sym : Symbols} {S S' S₀ S₁ : Joint} {tr tr' u : List Transition}
  {ls ls' l : List (Label (Fin stackCapacity))} {c : Fin stackCapacity} {cause : Word}
  {ctx : RegsContext} {t : Transition} {k' : Kernel} {n : ℕ}

/-- It ends with the first return of `c` to user mode. -/
def FirstReturn (c : Fin stackCapacity) (ls : List (Label (Fin stackCapacity))) : Prop :=
  ∃ ls₀, ls = ls₀ ++ [.ret c] ∧ Label.ret c ∉ ls₀

theorem FirstReturn.append (h : FirstReturn c ls) (hl : Label.ret c ∉ l) :
    FirstReturn c (l ++ ls) := by
  obtain ⟨ls₀, rfl, hls⟩ := h
  exact ⟨l ++ ls₀, (List.append_assoc ..).symm, fun hmem => (List.mem_append.1 hmem).elim hl hls⟩

/-- After the steps `l` either `c` has the hart back, for the first time, or it waits on. -/
def Settles (p : PcbArray) (c : Fin stackCapacity) (cause : Word) (ctx : RegsContext)
    (l : List (Label (Fin stackCapacity))) (s : State (Fin stackCapacity)) : Prop :=
  FirstReturn c l ∧ Restored c ctx s ∨ Label.ret c ∉ l ∧ Suspended p.layout c cause ctx s

/-- A trap, from the call of `interrupt_helper` on. -/
theorem Pending.settles {s₁ s₂ s₃ : State (Fin stackCapacity)} {d : Fin stackCapacity}
    {cause' : Word} (h : Pending p.layout c cause ctx [] s₁) (hinv : Inv p.layout sym s₁)
    (htimer : interruptHelper cause = .installed .handleIrqTimer)
    (haway : Path p.layout sym s₁ ls s₂) (hls : ∀ d, Label.ret d ∉ ls)
    (hback : Step p.layout sym s₂ (.ret s₂.cur) s₃) :
    Settles p c cause ctx (.trap d cause' :: (ls ++ [.ret s₂.cur])) s₃ := by
  obtain ⟨hcur, hret⟩ := h.returns hinv htimer haway hls hback
  refine hret.imp (fun hr => ⟨⟨.trap d cause' :: ls, ?_, by simp [hls c]⟩, hr⟩) fun hw => ⟨?_, hw⟩
  · rw [← hcur, hr.cur]
    rfl
  · have hne : c ≠ s₂.cur := fun he => hw.cur (hcur.trans he.symm)
    simp [hls c, hne]

/-- **A step of somebody else.** -/
theorem Joint.Inv.settles (h : S.Inv p sym) (hs : S.Step p sym u l S')
    (hc : Suspended p.layout c cause ctx S.hart)
    (htimer : interruptHelper cause = .installed .handleIrqTimer) :
    Settles p c cause ctx l S'.hart := by
  cases hs with
  | user hstep =>
    have hpending := hc.pending.step h.hart hstep (by simp)
    cases hstep with
    | user => exact .inr ⟨by simp, hpending.suspended hc.cur⟩
  | trap htrap hasks hkernel haway hls hcreates hcur hback =>
    obtain ⟨hinv₁, hcur₁, -, -⟩ := h.of_trap htrap hasks
    have hpending := hc.pending.step h.hart htrap (by simp)
    exact (hpending.suspended (hcur₁ ▸ hc.cur)).pending.settles hinv₁ htimer haway hls hback

/-- `c` has the hart back, which holds what it held as `m`. -/
structure BackAs (c : Fin stackCapacity) (m : Machine) (s : State (Fin stackCapacity)) : Prop where
  cur : s.cur = c
  regs : ∀ r, s.machine.get r = m.get r
  pc : s.machine.pc = m.pc
  sstatus : s.machine.csr .sstatus = (m.csr .sstatus &&& ~~~SPP) ||| SPIE
  /-- `sret` leaves every task in this way, so the next time its `sstatus` stays as it is. -/
  returned : ReturnStatus (s.machine.csr .sstatus)
  sstatus_eq : ReturnStatus (m.csr .sstatus) → s.machine.csr .sstatus = m.csr .sstatus
  mode : s.machine.mode = .user

/-- What a task holds that is interrupted: the trap has put its `sstatus` together. -/
def interrupted (m : Machine) : RegsContext := ⟨m.get, trapStatus .user (m.csr .sstatus), m.pc⟩

theorem Restored.backAs {m : Machine} {s : State (Fin stackCapacity)}
    (h : Restored c (interrupted m) s) : BackAs c m s where
  cur := h.cur
  regs := h.regs
  pc := h.pc
  sstatus := h.sstatus.trans (sretStatus_trapStatus _)
  returned := h.sstatus ▸ returnStatus_sretStatus _
  sstatus_eq hm := h.sstatus.trans hm.sretStatus_trapStatus
  mode := h.mode

/-- A first part of the run from `S` to `S'`, with fewer than `n` calls of `do_scheduler`, takes `c`
back to user mode: for the first time, also if the steps `l` before `S` count. -/
def GoesOn (p : PcbArray) (sym : Symbols) (n : ℕ) (c : Fin stackCapacity) (m : Machine)
    (S : Joint) (l : List (Label (Fin stackCapacity))) (tr : List Transition)
    (ls : List (Label (Fin stackCapacity))) (S' : Joint) : Prop :=
  ∃ tr₁ tr₂ ls₁ ls₂ S₁, JointRun p sym S tr₁ ls₁ S₁ ∧ JointRun p sym S₁ tr₂ ls₂ S' ∧
    tr = tr₁ ++ tr₂ ∧ ls = ls₁ ++ ls₂ ∧ (schedulerCalls tr₁).length < n ∧
    FirstReturn c (l ++ ls₁) ∧ BackAs c m S₁.hart

/-- **A task that waits goes on waiting until it goes on.**  `hcalls` is for how long the scheduler
can let it wait. -/
theorem JointRun.goesOn_or {m : Machine} (h : JointRun p sym S tr ls S') (hinv : S.Inv p sym)
    (hc : Suspended p.layout c cause (interrupted m) S.hart) (hl : Label.ret c ∉ l)
    (htimer : interruptHelper cause = .installed .handleIrqTimer)
    (hcalls : ∀ tr k, Run Unstalled S.kernel tr k → (∀ t ∈ tr, t.post.currentRunning ≠ p.ptr c) →
      (schedulerCalls tr).length + 1 < n) :
    GoesOn p sym n c m S l tr ls S' ∨ Label.ret c ∉ ls ∧
      Suspended p.layout c cause (interrupted m) S'.hart ∧
        ∀ t ∈ tr, t.post.currentRunning ≠ p.ptr c := by
  induction h with
  | refl => exact .inr ⟨List.not_mem_nil, hc, fun t ht => absurd ht List.not_mem_nil⟩
  | @step tr u ls l' S₁ S₂ h hs ih =>
    rcases ih with ⟨tr₁, tr₂, ls₁, ls₂, S₃, h₁, h₂, rfl, rfl, hrest⟩ | ⟨hls, hsus, hlate⟩
    · exact .inl ⟨tr₁, tr₂ ++ u, ls₁, ls₂ ++ l', S₃, h₁, h₂.step hs, List.append_assoc ..,
        List.append_assoc .., hrest⟩
    have hinv₁ := h.inv hinv
    rcases hinv₁.settles hs hsus htimer with ⟨hfirst, hres⟩ | ⟨hl', hsus'⟩
    · refine .inl ⟨tr ++ u, [], ls ++ l', [], S₂, h.step hs, .refl, (List.append_nil _).symm,
        (List.append_nil _).symm, ?_, (hfirst.append hls).append hl, hres.backAs⟩
      have hlt := hcalls tr _ h.run hlate
      have hu : (schedulerCalls u).length ≤ 1 := by
        refine (List.length_filter_le ..).trans ?_
        rcases hs.eq_nil_or with rfl | ⟨t, rfl, -⟩ <;> simp
      rw [schedulerCalls, List.filter_append, List.length_append]
      change (schedulerCalls tr).length + (schedulerCalls u).length < n
      omega
    · refine .inr ⟨fun hmem => (List.mem_append.1 hmem).elim hls hl', hsus', ?_⟩
      rw [List.forall_mem_append]
      refine ⟨hlate, ?_⟩
      rcases hs.eq_nil_or with rfl | ⟨t, rfl, ht⟩
      · exact fun t ht => absurd ht List.not_mem_nil
      · rw [List.forall_mem_singleton, ht, ← (hinv₁.step hs).cur]
        exact fun he => hsus'.cur (p.ptr_injective he)

/-- The hart, from the timer interrupt on. -/
theorem Joint.Inv.pending_of_timer (h : S.Inv p sym) {s₁ : State (Fin stackCapacity)}
    (htrap : UcasOs.Step p.layout sym S.hart (.trap S.hart.cur cause) s₁)
    (hasks : Asks s₁.machine .timer) : interruptHelper cause = .installed .handleIrqTimer ∧
      Pending p.layout S.hart.cur cause (interrupted S.hart.machine) [] s₁ := by
  obtain ⟨tval, -, hact, hs₁⟩ := htrap.of_trap
  have hcause : (Call.of s₁.machine).scause = cause := by
    rw [hs₁]
    exact congrArg Call.scause (h.hart.call_trap hact)
  refine ⟨?_, ?_⟩
  · rw [← hcause]
    cases hasks with
    | timer htimer => exact htimer
  · rw [hs₁, interrupted, ← h.hart.user hact]
    exact Pending.of_trap h.hart hact

/-- The scheduler, from the timer interrupt on. -/
theorem Joint.Inv.calls_of_timer (h : S.Inv p sym) (hs : S.kernel.Step .timer k')
    (hst : ¬ S.kernel.Stalls .timer) :
    0 < p.tasks ∧ (p.ptr S.hart.cur ≠ k'.currentRunning → ∀ tr k, Run Unstalled k' tr k →
      (∀ t ∈ tr, t.post.currentRunning ≠ p.ptr S.hart.cur) →
        (schedulerCalls tr).length + 1 < p.tasks) := by
  obtain ⟨a, hr, hw, hrun, hpeople⟩ := h.scheduler
  obtain ⟨a', hc, htrap, hr', hw', hrun'⟩ :=
    hr.of_step hw hrun hs fun hc => hr.not_stuck hw hc hst
  have hpeople' := (Sched.Peopled.stable p.tasks).trap hw hpeople hc
    (fun _ => hpeople.of_ring rfl) htrap
  have hcur : a.currentRunning = p.ptr S.hart.cur :=
    (congrArg Core.currentRunning hr.core).symm.trans h.cur.symm
  have hne : a.currentRunning ≠ .pid0 := hcur ▸ p.ptr_ne_pid0 _
  have hne' := Sched.stable_ne_pid0.trap hw hne hc (fun _ => hne) htrap
  have hrunning := hrun.resolve_left hne
  have hrunnable := Sched.runnable_of_timer hw hrunning htrap
  refine ⟨Nat.zero_lt_of_lt (hpeople.ready_length_lt hw hrunning), fun hother tr k htr => ?_⟩
  rw [hcur] at hrunnable
  have hready := hrunnable.resolve_right fun he => hother
    (he.1.symm.trans (congrArg Core.currentRunning hr'.core).symm)
  exact Run.calls_of_ready hr' hw' hrun' hpeople' hne' hready htr

/-- **Preemption.**  The timer interrupts a task or thread of a system with `p.tasks` processes, in
whatever state its registers are.  However the others go on from there, once there have been that
many calls of `do_scheduler`, this one included, the task has been back in user mode, with all its
registers and its `pc` as they were, and its `sstatus` too, but for the bits that `sret` sets. -/
theorem JointRun.preemption {entry : Fin stackCapacity → Word} {timeBase : ℕ} {clock : ℕ → ℕ}
    (hboot : S₀.Boots p sym entry (Kernel.boot p.tasks timeBase clock))
    (h : JointRun p sym S₀ tr ls S) (hs : S.Step p sym [t] l S₁) (ht : t.op = .timer)
    (h' : JointRun p sym S₁ tr' ls' S') (hlate : p.tasks ≤ (schedulerCalls tr').length + 1) :
    GoesOn p sym p.tasks S.hart.cur S.hart.machine S₁ l tr' ls' S' := by
  have hinv := h.inv hboot.inv
  have hinv₁ := hinv.step hs
  cases hs with
  | @trap cause s₁ s₂ s₃ r k' _ ls₁ htrap hasks hkernel haway hls hcreates hcur hback =>
    cases hop : r.op with
    | none =>
      rw [hop] at hkernel
      exact absurd hkernel.2 (List.cons_ne_nil _ _)
    | some op =>
      rw [hop] at hkernel
      obtain ⟨hstep, hst, htr⟩ := hkernel
      obtain rfl := List.singleton_inj.1 htr
      obtain rfl : op = .timer := ht
      obtain rfl := Request.op_eq_timer.1 hop
      obtain ⟨htimer, hpending⟩ := hinv.pending_of_timer htrap hasks
      obtain ⟨hpos, hcalls⟩ := hinv.calls_of_timer hstep hst
      rcases hpending.settles (hinv.hart.step htrap) htimer haway hls hback with
        ⟨hfirst, hres⟩ | ⟨hl, hsus⟩
      · -- it is its turn again at once
        exact ⟨[], tr', [], ls', _, .refl, h', rfl, rfl, hpos, (List.append_nil _).symm ▸ hfirst,
          hres.backAs⟩
      · have hcalls := hcalls fun he => hsus.cur (p.ptr_injective (hinv₁.cur.trans he.symm))
        refine (h'.goesOn_or hinv₁ hsus hl htimer hcalls).resolve_right fun hwait => ?_
        have hlt := hcalls tr' _ h'.run hwait.2.2
        omega

/-- The first of two tasks makes a system call and is interrupted, and so is the second. -/
theorem JointRun.preemption_two_tasks : ∃ (p : PcbArray) (sym : Symbols) (S S₁ S' : Joint)
    (l ls : List (Label (Fin stackCapacity))) (t t' : Transition), p.tasks = 2 ∧
    S.Step p sym [t] l S₁ ∧ t.op = .timer ∧ JointRun p sym S₁ [t'] ls S' ∧ t'.op = .timer ∧
    GoesOn p sym 2 S.hart.cur S.hart.machine S₁ l [t'] ls S' := by
  obtain ⟨a, ha, hn⟩ := (Option.any_eq_true _ _).1 (by decide :
    ((Sched.boot 2 1 fun _ => 0).exec (fun _ _ => true) [.timer, .lockInit 1, .timer, .timer]).any
      (fun a => a.nthreads = 0) = true)
  obtain ⟨tr, k, hrun, hops, hr, -⟩ := Run.unstalled_of_exec_eq ha
  obtain ⟨t₀, tr, rfl, h₀, hops⟩ := List.map_eq_cons_iff.1 hops
  obtain ⟨t₁, tr, rfl, h₁, hops⟩ := List.map_eq_cons_iff.1 hops
  obtain ⟨t₂, tr, rfl, h₂, hops⟩ := List.map_eq_cons_iff.1 hops
  obtain ⟨t₃, tr, rfl, h₃, hops⟩ := List.map_eq_cons_iff.1 hops
  obtain rfl := List.map_eq_nil_iff.1 hops
  let p : PcbArray := ⟨0x50400000, 2, by decide, by decide, by decide⟩
  obtain ⟨-, -, hs, hrest⟩ := hrun.split_cons
  rw [h₀] at hs
  obtain ⟨S₀, hboots, hk⟩ := Joint.exists_boots (p := p) ⟨0x50201000, 0x50202000, 0x50203000⟩
    (fun _ => 0x52000000) (by decide) hs
  rw [← hk] at hrest
  have hfits : 2 + k.nthreads ≤ stackCapacity := by
    rw [congrArg Core.nthreads hr.core, of_decide_eq_true hn]
    decide
  obtain ⟨_, S', hjoint, -⟩ :=
    hboots.inv.exists_run _ hrest (by simp [h₁, h₂, h₃, Op.FitsInt]) hfits
  obtain ⟨_, _, _, _, _, hcall, hs₁, hrest₁⟩ := hjoint.split_cons rfl
  obtain ⟨_, S, l, S₁, ls, huser, hs₂, hrest₂⟩ := hrest₁.split_cons rfl
  have hlate : 2 ≤ (schedulerCalls [t₃]).length + 1 := by
    have hops : [t₃].map Transition.op = [.timer] := by rw [List.map_singleton, h₃]
    rw [length_schedulerCalls hops (by decide)]
    decide
  exact ⟨p, _, S, S₁, S', l, ls, t₂, t₃, rfl, hs₂, h₂, hrest₂, h₃,
    JointRun.preemption hboots ((hcall.step hs₁).trans huser) hs₂ h₂ hrest₂ hlate⟩

end Joint

end UcasOs
