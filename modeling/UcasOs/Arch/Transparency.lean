import UcasOs.Arch.Boot

/-!
# Traps are transparent

Between a trap of a task and its return to user mode the hart may change hands any number of times.

* `Step.mem_frame` — the frame of a task is written by its own traps and system calls only.
* `Path.transparent` — **a task does not notice that it was interrupted**, and its kernel stack
  pointer is where it was.
-/

set_option autoImplicit false

namespace UcasOs

open Riscv Reg

variable {T : Type} [DecidableEq T] {L : Layout T} {sym : Symbols} {s s' : State T} {c : T}
  {l : Label T} {k : Word}

theorem Step.of_trap {cause : Word} (h : Step L sym s (.trap c cause) s') :
    ∃ tval, c = s.cur ∧ s.act s.cur = .user ∧ s' = s.trap sym cause tval := by
  cases h with
  | trap cause tval hact hpc => exact ⟨tval, rfl, hact, rfl⟩

theorem Step.of_ret (h : Step L sym s (.ret c) s') :
    c = s.cur ∧ (s.act s.cur = .returning ∨ ∃ start, s.act s.cur = .fresh start) ∧ s' = s.ret := by
  cases h with
  | ret hact hpc => exact ⟨rfl, hact, rfl⟩

/-- What others do leaves the activity of a task as it is, once it has been created. -/
theorem Step.act_of_ne (hstep : Step L sym s l s') (h : Inv L sym s) (hc : c ≠ s.cur)
    (hact : s.act c ≠ .absent) : s'.act c = s.act c := by
  cases hstep with
  | user => rfl
  | kernel => rfl
  | create _ _ _ _ _ _ hact' hd =>
    refine Function.update_of_ne ?_ ..
    rintro rfl
    exact hact hd
  | derail hd => exact absurd hd h.not_derailed
  | trap => exact Function.update_of_ne hc ..
  | switch => exact Function.update_of_ne hc ..
  | resume => exact Function.update_of_ne hc ..
  | timer => exact Function.update_of_ne hc ..
  | syscall => exact Function.update_of_ne hc ..
  | ret => exact Function.update_of_ne hc ..

/-- What others do leaves what is a task's own as it is, once it has been created. -/
theorem Step.mem_own (hstep : Step L sym s l s') (h : Inv L sym s) (hc : c ≠ s.cur)
    (hact : s.act c ≠ .absent) {a : Word} (ha : a ∈ L.own c) : s'.machine.mem a = s.machine.mem a := by
  cases hstep with
  | user hact' htp hstvec hmode hmem =>
    by_contra hne
    exact hmem a hne c ha
  | trap cause tval hact' hpc =>
    refine h.mem_trap hact' fun k hk he => ?_
    exact Set.disjoint_left.1 (Layout.own_disjoint hc) ha (he ▸ Layout.frame_mem_own hk)
  | kernel hact' hm htp => exact h.mem_kernel_own hact' hm hc ha
  | create _ _ _ _ _ _ hact' hd =>
    refine Layout.initStack_own ?_ ha
    rintro rfl
    exact hact hd
  | switch hact' hnext hm =>
    rw [Inv.mem_switch]
    exact Inv.mem_switchSave_other h hact' hm hc ha
  | resume => rfl
  | timer hact' hcause hm => exact h.mem_kernel_own hact' hm.toInKernel hc ha
  | syscall result hact' hcause hm =>
    exact (h.mem_syscall_own hact' result hc ha).trans (h.mem_kernel_own hact' hm.toInKernel hc ha)
  | ret hact' hpc => exact h.mem_ret_own hact' hc ha
  | derail hd => exact absurd hd h.not_derailed

/-- What the system calls of `c` returned with. -/
def results (c : T) (ls : List (Label T)) : List Word :=
  ls.filterMap fun
    | .syscall d result => if d = c then some result else none
    | _ => none

theorem results_append (c : T) (ls ls' : List (Label T)) :
    results c (ls ++ ls') = results c ls ++ results c ls' := List.filterMap_append

/-- After a trap of `c`, before its return to user mode: `ctx` is what the hart held at the trap,
`cause` the cause, and `ls` what has happened since. -/
inductive Pending (L : Layout T) (c : T) (cause : Word) (ctx : RegsContext) (ls : List (Label T))
    (s : State T) : Prop
  /-- It is in `interrupt_helper`, whether it has the hart or not. -/
  | inHandler (call : Call) (hcause : call.scause = cause)
      (hact : s.act c = .handler call ∨ ∃ caller, s.act c = .switched call caller)
      (hread : RegsContext.read (L.frame c) s.machine.mem = ctx) (hls : results c ls = [])
  /-- It is back from `handle_irq_timer`. -/
  | timer (hcause : interruptHelper cause = .installed .handleIrqTimer) (hcur : s.cur = c)
      (hact : s.act c = .returning) (hread : RegsContext.read (L.frame c) s.machine.mem = ctx)
      (hls : results c ls = [])
  /-- It is back from `handle_syscall`. -/
  | syscall (result : Word) (hcause : interruptHelper cause = .installed .handleSyscall)
      (hcur : s.cur = c) (hact : s.act c = .returning)
      (hread : RegsContext.read (L.frame c) s.machine.mem = ctx.sysret result)
      (hls : results c ls = [result])

variable {cause : Word} {ctx : RegsContext} {ls : List (Label T)}

theorem results_singleton_of_ne (hl : ∀ result, l ≠ .syscall c result) : results c [l] = [] := by
  cases l with
  | syscall d result =>
    have hd : d ≠ c := by
      rintro rfl
      exact hl result rfl
    simp [results, hd]
  | _ => rfl

/-- The frame of a task that has not the hart, or whose C code does something, stays as it is. -/
theorem Pending.of_frame (h : Pending L c cause ctx ls s) (hc : s.cur ≠ c)
    (hact : s'.act c = s.act c) (hmem : ∀ a ∈ L.own c, s'.machine.mem a = s.machine.mem a)
    (hl : ∀ result, l ≠ .syscall c result) : Pending L c cause ctx (ls ++ [l]) s' := by
  have hread := RegsContext.read_congr (p := L.frame c) fun k hk => hmem _ (Layout.frame_mem_own hk)
  have hls : results c (ls ++ [l]) = results c ls := by
    rw [results_append, results_singleton_of_ne hl, List.append_nil]
  cases h with
  | inHandler call hcause hact' hread' hls' =>
    exact .inHandler call hcause (hact ▸ hact') (hread.trans hread') (hls.trans hls')
  | timer hcause hcur => exact absurd hcur hc
  | syscall result hcause hcur => exact absurd hcur hc

/-- What a task does in `interrupt_helper`, up to its return. -/
theorem Pending.step_handler {call : Call} (hact : s.act s.cur = .handler call)
    (hread : RegsContext.read (L.frame s.cur) s.machine.mem = ctx) (hls : results s.cur ls = [])
    (hinv : Inv L sym s) (hstep : Step L sym s l s') :
    Pending L s.cur call.scause ctx (ls ++ [l]) s' := by
  have hls' : (∀ result, l ≠ .syscall s.cur result) → results s.cur (ls ++ [l]) = [] := fun hl => by
    rw [results_append, hls, results_singleton_of_ne hl]
    rfl
  cases hstep with
  | user hact' => rw [hact] at hact'; cases hact'
  | trap cause tval hact' => rw [hact] at hact'; cases hact'
  | resume hact' => rw [hact] at hact'; cases hact'
  | ret hact' =>
    rcases hact' with hact' | ⟨start, hact'⟩ <;> rw [hact] at hact' <;> cases hact'
  | derail hd => exact absurd hd hinv.not_derailed
  | kernel hact' hm htp =>
    have hread' := RegsContext.read_congr (p := L.frame s.cur) fun k hk =>
      hinv.mem_kernel_frame hact' hm hk
    exact .inHandler call rfl (.inl hact) (hread'.trans hread) (hls' (by simp))
  | create userStack func arg0 arg1 arg2 arg3 hact' hd =>
    rename_i call' d
    have hcd : s.cur ≠ d := by
      rintro rfl
      rw [hact] at hd
      cases hd
    refine .inHandler call rfl (.inl ?_) ?_ (hls' (by simp))
    · exact (Function.update_of_ne hcd ..).trans hact
    · rw [← hread]
      exact RegsContext.read_congr fun k hk => Layout.initStack_own hcd (Layout.frame_mem_own hk)
  | switch hact' hnext hm =>
    rw [hact] at hact'
    cases hact'
    refine .inHandler call rfl (.inr ⟨_, Function.update_self ..⟩) ?_ (hls' (by simp))
    rw [Inv.mem_switch, ← hread]
    exact RegsContext.read_congr fun k hk => Inv.mem_switchSave_frame hinv hact hm hk
  | timer hact' hcause hm =>
    rw [hact] at hact'
    cases hact'
    have hread' := RegsContext.read_congr (p := L.frame s.cur) fun k hk =>
      hinv.mem_kernel_frame hact hm.toInKernel hk
    exact .timer hcause rfl (Function.update_self ..) (hread'.trans hread) (hls' (by simp))
  | syscall result hact' hcause hm =>
    rw [hact] at hact'
    cases hact'
    have hread' := RegsContext.read_congr (p := L.frame s.cur) fun k hk =>
      hinv.mem_kernel_frame hact hm.toInKernel hk
    refine .syscall result hcause rfl (Function.update_self ..) ?_ ?_
    · show RegsContext.read _ (handleSyscall call.regs result _) = _
      rw [(hinv.handler hact).1.regs, RegsContext.read_handleSyscall, hread', hread]
    · rw [results_append, hls]
      simp [results]

/-- A task that has just got the hart back goes on in `interrupt_helper`. -/
theorem Pending.step_switched {call : Call} {caller : Machine}
    (hact : s.act s.cur = .switched call caller)
    (hread : RegsContext.read (L.frame s.cur) s.machine.mem = ctx) (hls : results s.cur ls = [])
    (hinv : Inv L sym s) (hstep : Step L sym s l s') :
    Pending L s.cur call.scause ctx (ls ++ [l]) s' := by
  cases hstep with
  | resume hact' hres =>
    rw [hact] at hact'
    cases hact'
    refine .inHandler call rfl (.inl (Function.update_self ..)) hread ?_
    rw [results_append, hls]
    rfl
  | derail hd => exact absurd hd hinv.not_derailed
  | user hact' => rw [hact] at hact'; cases hact'
  | trap cause tval hact' => rw [hact] at hact'; cases hact'
  | kernel hact' => rw [hact] at hact'; cases hact'
  | create _ _ _ _ _ _ hact' => rw [hact] at hact'; cases hact'
  | switch hact' => rw [hact] at hact'; cases hact'
  | timer hact' => rw [hact] at hact'; cases hact'
  | syscall _ hact' => rw [hact] at hact'; cases hact'
  | ret hact' =>
    rcases hact' with hact' | ⟨start, hact'⟩ <;> rw [hact] at hact' <;> cases hact'

/-- A task that is on its way to user mode gets there. -/
theorem Step.eq_ret (hact : s.act s.cur = .returning ∨ ∃ start, s.act s.cur = .fresh start)
    (hinv : Inv L sym s) (hstep : Step L sym s l s') : l = .ret s.cur := by
  have hne : ∀ {act : Activity}, s.act s.cur = act → act = .returning ∨ ∃ start, act = .fresh start :=
    fun h => h ▸ hact
  cases hstep with
  | ret hact' => rfl
  | derail hd => exact absurd hd hinv.not_derailed
  | user hact' => rcases hne hact' with h | ⟨start, h⟩ <;> cases h
  | trap cause tval hact' => rcases hne hact' with h | ⟨start, h⟩ <;> cases h
  | kernel hact' => rcases hne hact' with h | ⟨start, h⟩ <;> cases h
  | create _ _ _ _ _ _ hact' => rcases hne hact' with h | ⟨start, h⟩ <;> cases h
  | switch hact' => rcases hne hact' with h | ⟨start, h⟩ <;> cases h
  | resume hact' => rcases hne hact' with h | ⟨start, h⟩ <;> cases h
  | timer hact' => rcases hne hact' with h | ⟨start, h⟩ <;> cases h
  | syscall _ hact' => rcases hne hact' with h | ⟨start, h⟩ <;> cases h

/-- **Every step but the return to user mode** leaves a trap pending. -/
theorem Pending.step (h : Pending L c cause ctx ls s) (hinv : Inv L sym s)
    (hstep : Step L sym s l s') (hl : l ≠ .ret c) : Pending L c cause ctx (ls ++ [l]) s' := by
  rcases eq_or_ne c s.cur with rfl | hc
  · cases h with
    | inHandler call hcause hact hread hls =>
      subst hcause
      rcases hact with hact | ⟨caller, hact⟩
      · exact step_handler hact hread hls hinv hstep
      · exact step_switched hact hread hls hinv hstep
    | timer _ _ hact => exact absurd (hstep.eq_ret (.inl hact) hinv) hl
    | syscall _ _ _ hact => exact absurd (hstep.eq_ret (.inl hact) hinv) hl
  · have hact : s.act c ≠ .absent := by
      cases h with
      | inHandler call hcause hact' => rcases hact' with h | ⟨_, h⟩ <;> rw [h] <;> simp
      | timer hcause hcur hact' => rw [hact']; simp
      | syscall result hcause hcur hact' => rw [hact']; simp
    refine h.of_frame hc.symm (hstep.act_of_ne hinv hc hact)
      (fun a ha => hstep.mem_own hinv hc hact ha) ?_
    rintro result rfl
    cases hstep
    exact hc rfl

/-- A trap is pending until its return to user mode. -/
theorem Pending.of_path {s₁ : State T} (h : Pending L c cause ctx [] s₁) (hinv : Inv L sym s₁)
    (hpath : Path L sym s₁ ls s) (hls : Label.ret c ∉ ls) : Pending L c cause ctx ls s := by
  induction hpath with
  | nil => exact h
  | snoc hpath hstep ih =>
    rw [List.mem_append, not_or] at hls
    refine (ih hls.1).step (hinv.of_path hpath) hstep ?_
    rintro rfl
    exact hls.2 List.mem_cons_self

/-- A trap is pending from the start. -/
theorem Pending.of_trap {tval : Word} (hinv : Inv L sym s) (hact : s.act s.cur = .user) :
    Pending L s.cur cause (RegsContext.held (s.machine.takeTrap cause tval)) []
      (s.trap sym cause tval) := by
  refine .inHandler _ ?_ (.inl (Function.update_self ..)) (hinv.read_trap hact) rfl
  exact congrArg Call.scause (hinv.call_trap hact)

variable {m₀ : Machine} {s₀ s₁ s₂ s₃ : State T} {ls' : List (Label T)}

/-- What the hart holds in user mode, compared with what it held at a trap, if the handlers do what
the cause asks for: `result` is what `handle_syscall` got. -/
structure Resumed (L : Layout T) (c : T) (cause : Word) (results : List Word) (m m' : Machine) :
    Prop where
  /-- All registers but `a0`. -/
  regs : ∀ r, r ≠ a0 → m'.get r = m.get r
  syscall : cause = EXC_SYSCALL → m'.pc = m.pc + 4 ∧ results = [m'.get a0]
  other : cause ≠ EXC_SYSCALL → m'.pc = m.pc ∧ m'.get a0 = m.get a0
  /-- The `sstatus` that the trap left, in the frame and as `sret` found it. -/
  saved : m'.mem (L.frame c + OFFSET_REG_SSTATUS) = trapStatus .user (m.csr .sstatus)
  sstatus : m'.csr .sstatus = sretStatus (trapStatus .user (m.csr .sstatus))
  mode : m'.mode = .user
  /-- The kernel stack pointer is the address of the frame, as it was. -/
  kernelSp : m.mem (L.kernelSp c) = L.frame c ∧ m'.mem (L.kernelSp c) = L.frame c

/-- **Traps are transparent.**  From the first dispatch on, whenever a task or thread `c` traps, in
whatever state its registers are, and whatever happens until it is back in user mode: all its
registers, its `pc` and its `sstatus` are as they were, except that after a system call `a0` is the
result and `pc` the next instruction.  And its `kernel_sp` is the address of its frame, before and
after. -/
theorem Path.transparent (hboot : Boots L sym m₀ s₀) (hbefore : Path L sym s₀ ls s)
    (htrap : Step L sym s (.trap c cause) s₁) (haway : Path L sym s₁ ls' s₂)
    (hret : Label.ret c ∉ ls') (hback : Step L sym s₂ (.ret c) s₃) :
    Resumed L c cause (results c ls') s.machine s₃.machine := by
  have hinv := hboot.inv.of_path hbefore
  have hinv₁ := hinv.step htrap
  have hinv₂ := hinv₁.of_path haway
  obtain ⟨tval, rfl, hact, rfl⟩ := htrap.of_trap
  obtain ⟨hcur, hact₂, rfl⟩ := hback.of_ret
  have hpending := (Pending.of_trap hinv hact).of_path hinv₁ haway hret
  have hkernelSp := hinv.running
  rw [hact] at hkernelSp
  obtain ⟨hget, hpc, hsstatus, -, hmode, -⟩ := hinv₂.ret_spec hact₂
  have hmem' := hinv₂.mem_ret_kernelSp hact₂
  have hsaved : s₂.ret.machine.mem (L.frame s₂.cur + OFFSET_REG_SSTATUS)
      = (RegsContext.read (L.frame s₂.cur) s₂.machine.mem).sstatus :=
    hinv₂.mem_ret_frame hact₂ (k := OFFSET_REG_SSTATUS) (by decide)
  rw [← hcur] at hget hpc hsstatus hmem' hsaved hact₂
  have hstatus : (s.machine.takeTrap cause tval).csr .sstatus
      = trapStatus .user (s.machine.csr .sstatus) := by
    rw [← hinv.user hact]
    rfl
  cases hpending with
  | inHandler call hcause hact' =>
    -- it cannot have returned to user mode out of `interrupt_helper`
    exfalso
    rcases hact' with h | ⟨caller, h⟩ <;> rcases hact₂ with h' | ⟨start, h'⟩ <;>
      rw [h] at h' <;> cases h'
  | timer hcause _ _ hread =>
    rw [hread] at hget hpc hsstatus hsaved
    have hne : cause ≠ EXC_SYSCALL := by
      rintro rfl
      rw [interruptHelper_eq_handleSyscall.2 rfl] at hcause
      cases hcause
    exact ⟨fun r _ => congrFun hget r, fun he => absurd he hne,
      fun _ => ⟨hpc, congrFun hget a0⟩, hsaved.trans hstatus,
      hsstatus.trans (congrArg _ hstatus), hmode, hkernelSp, hmem'⟩
  | syscall result hcause _ _ hread hls =>
    rw [hread] at hget hpc hsstatus hsaved
    have heq : cause = EXC_SYSCALL := interruptHelper_eq_handleSyscall.1 hcause
    have ha0 : s₂.ret.machine.get a0 = result := by
      refine (congrFun hget a0).trans ?_
      rw [RegsContext.regs_sysret, Function.update_self]
    refine ⟨fun r hr => (congrFun hget r).trans (Function.update_of_ne hr ..), fun _ => ⟨hpc, ?_⟩,
      fun hne => absurd heq hne, hsaved.trans hstatus,
      hsstatus.trans (congrArg _ hstatus), hmode, hkernelSp, hmem'⟩
    rw [hls, ha0]

/-- The first of two tasks makes a system call.  Before the call returns `7` the other task gets the
hart, traps as well, and switches back. -/
theorem Path.transparent_syscall : ∃ s₀ s s₁ s₂ s₃ : State (Fin stackCapacity),
    Path twoPcbs.layout ⟨0x50201000, 0x50202000, 0x50203000⟩ s₀ [.ret firstTask] s ∧
      Step twoPcbs.layout ⟨0x50201000, 0x50202000, 0x50203000⟩ s (.trap firstTask EXC_SYSCALL) s₁ ∧
      Path twoPcbs.layout ⟨0x50201000, 0x50202000, 0x50203000⟩ s₁
        [.switch firstTask secondTask, .ret secondTask, .trap secondTask EXC_SYSCALL,
          .switch secondTask firstTask, .resume firstTask, .syscall firstTask 7] s₂ ∧
      Step twoPcbs.layout ⟨0x50201000, 0x50202000, 0x50203000⟩ s₂ (.ret firstTask) s₃ ∧
      Resumed twoPcbs.layout firstTask EXC_SYSCALL [7] s.machine s₃.machine := by
  obtain ⟨m₀, s₀, hboot, hcur₀, hfirst, hsecond, -⟩ :=
    exists_boots_twoPcbs ⟨0x50201000, 0x50202000, 0x50203000⟩ fun _ => 0x52000000
  have hne : secondTask ≠ firstTask := by decide
  obtain ⟨s, hret, hcur, hact, hsame⟩ := hboot.inv.exists_ret hcur₀ hfirst
  have hinv := hboot.inv.step hret
  obtain ⟨s₁, call, htrap, hcur₁, hact₁, hsame₁, hcause⟩ := hinv.exists_trap hcur hact
  have hinv₁ := hinv.step htrap
  rw [← hsame _ hne, ← hsame₁ _ hne] at hsecond
  obtain ⟨s', hdetour, hcur', hact'⟩ := hinv₁.exists_detour hcur₁ hact₁ hne hsecond
  obtain ⟨s₂, s₃, hsyscall, hback⟩ :=
    (hinv₁.of_path hdetour).exists_syscall hcur' hact' hcause 7
  have hbefore := Path.snoc (.nil _) hret
  have haway := Path.snoc hdetour hsyscall
  refine ⟨s₀, s, s₁, s₂, s₃, hbefore, htrap, haway, hback, ?_⟩
  have hresumed := Path.transparent hboot hbefore htrap haway (by simp [hne.symm]) hback
  simpa [results] using hresumed

end UcasOs
