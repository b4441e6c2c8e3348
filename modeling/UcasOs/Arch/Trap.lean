import UcasOs.Arch.Layout

/-!
# Traps and switches, from the first dispatch on

The tasks take turns on one hart.  What `entry.S` does in between is executed; the C code of the
kernel and the tasks themselves are any code that keeps to the calling convention and to the memory
that is theirs.

* `Step` — a step of the whole machine.  Where the entry code has to get something right for C code
  to go on, there is a step `derail` for when it does not, and after that step nothing is known.
* `Inv` — the invariant: whose registers and return addresses are where.
* `Inv.of_path` — it holds whatever the tasks do, and so nothing derails.
-/

set_option autoImplicit false

namespace UcasOs

open Riscv Reg

/-- A call of `interrupt_helper`. -/
structure Call where
  sp : Word
  ra : Word
  /-- The first argument. -/
  regs : Word
  /-- The third argument. -/
  scause : Word

/-- The call that the hart is about to make. -/
def Call.of (m : Machine) : Call := ⟨m.get Reg.sp, m.get Reg.ra, m.get a0, m.get a2⟩

/-- What a task or thread is doing. -/
inductive Activity
  /-- It has not been created. -/
  | absent
  /-- It has not been in user mode yet. -/
  | fresh (start : Start)
  | user
  /-- It is executing `interrupt_helper`. -/
  | handler (call : Call)
  /-- It has called `switch_to` there, when the hart was `caller`. -/
  | switched (call : Call) (caller : Machine)
  /-- Its `interrupt_helper` has returned. -/
  | returning

/-- The hart, and whom `current_running` points to. -/
structure State (T : Type) where
  machine : Machine
  cur : T
  act : T → Activity

/-- What happens in a step, and to whom. -/
inductive Label (T : Type)
  | user
  | trap (c : T) (cause : Word)
  | kernel
  | create (c : T) (start : Start)
  | switch (c next : T)
  | resume (c : T)
  | timer (c : T)
  | syscall (c : T) (result : Word)
  | ret (c : T)
  | derail

variable {T : Type}

/-- C code of the kernel, called by `c` with the stack pointer `sp`: it has no business with the
CSRs, and writes to its stack below `sp` and to what is nobody's own. -/
structure InKernel (L : Layout T) (c : T) (sp : Word) (m m' : Machine) : Prop where
  csr : m'.csr = m.csr
  mode : m'.mode = m.mode
  mem : ∀ a, m'.mem a ≠ m.mem a →
    a ∈ L.free ∨ (L.kernelPage c).toNat ≤ a.toNat ∧ a.toNat < sp.toNat

/-- C code that returns from `call`. -/
structure Returns (L : Layout T) (c : T) (call : Call) (m m' : Machine) : Prop
    extends InKernel L c call.sp m m' where
  tp : m'.get tp = m.get tp
  sp : m'.get sp = call.sp
  pc : m'.pc = call.ra

/-- C code that calls `switch_to(current_running, next)`, after setting `current_running`. -/
structure Switches (L : Layout T) (sym : Symbols) (c next : T) (call : Call) (m m' : Machine) : Prop
    extends InKernel L c call.sp m m' where
  a0 : m'.get a0 = m.get tp
  a1 : m'.get a1 = L.pcb next
  tp : m'.get tp = L.pcb next
  room : (L.kernelPage c).toNat + SWITCH_TO_SIZE.toNat ≤ (m'.get sp).toNat
  below : (m'.get sp).toNat ≤ call.sp.toNat
  aligned : 8 ∣ (m'.get sp).toNat
  ra : m'.get ra ≠ sym.retFromException

/-- The call of `switch_to` returns as the calling convention wants it: to its return address, with
the saved registers and the stack of the caller. -/
structure Resumes (call : Call) (caller m : Machine) : Prop where
  pc : m.pc = caller.get ra
  sp : m.get sp = caller.get sp
  saved : ∀ q ∈ switchSlots, m.get q.1 = caller.get q.1
  mem : ∀ a : Word, (caller.get Reg.sp).toNat ≤ a.toNat → a.toNat < call.sp.toNat →
    m.mem a = caller.mem a

/-- The hart is not where the code for what the current task is doing goes on. -/
def Derailed (sym : Symbols) (s : State T) : Prop :=
  match s.act s.cur with
  | .absent => True
  | .fresh _ => s.machine.pc ≠ sym.retFromException
  | .user => s.machine.csr .stvec ≠ sym.exceptionHandlerEntry
  | .handler _ => False
  | .switched call caller => ¬ Resumes call caller s.machine
  | .returning => s.machine.pc ≠ sym.retFromException

section Steps

variable [DecidableEq T]

namespace State

/-- The hart in `exception_handler_entry`, up to the call of `interrupt_helper`. -/
def trap (sym : Symbols) (cause tval : Word) (s : State T) : State T :=
  let m := run (exceptionHandlerEntry sym) (s.machine.takeTrap cause tval)
  { s with machine := m, act := Function.update s.act s.cur (.handler (.of m)) }

/-- `init_tcb_stack` for a new thread. -/
def create (L : Layout T) (sym : Symbols) (d : T) (start : Start) (s : State T) : State T :=
  { s with machine := { s.machine with mem := L.initStack sym d start s.machine.mem }
           act := Function.update s.act d (.fresh start) }

/-- `switch_to`, called when the hart is `m`. -/
def switch (m : Machine) (call : Call) (next : T) (s : State T) : State T where
  machine := run switchTo m
  cur := next
  act := Function.update s.act s.cur (.switched call m)

/-- `ret_from_exception` -/
def ret (s : State T) : State T :=
  { s with machine := run retFromException s.machine, act := Function.update s.act s.cur .user }

end State

/-- The steps of the machine. -/
inductive Step (L : Layout T) (sym : Symbols) : State T → Label T → State T → Prop
  /-- The task that is running does something.  It leaves `tp` alone. -/
  | user {s : State T} {m : Machine} (hact : s.act s.cur = .user)
      (htp : m.get tp = s.machine.get tp) (hstvec : m.csr .stvec = s.machine.csr .stvec)
      (hmode : m.mode = s.machine.mode) (hmem : ∀ a, m.mem a ≠ s.machine.mem a → a ∈ L.free) :
      Step L sym s .user { s with machine := m }
  | trap {s : State T} (cause tval : Word) (hact : s.act s.cur = .user)
      (hpc : (s.machine.takeTrap cause tval).pc = sym.exceptionHandlerEntry) :
      Step L sym s (.trap s.cur cause) (s.trap sym cause tval)
  /-- C code in `interrupt_helper`. -/
  | kernel {s : State T} {call : Call} {m : Machine} (hact : s.act s.cur = .handler call)
      (hm : InKernel L s.cur call.sp s.machine m) (htp : m.get tp = s.machine.get tp) :
      Step L sym s .kernel { s with machine := m }
  | create {s : State T} {call : Call} {d : T} (userStack func arg0 arg1 arg2 arg3 : Word)
      (hact : s.act s.cur = .handler call) (hd : s.act d = .absent) :
      Step L sym s (.create d (.thread userStack func arg0 arg1 arg2 arg3))
        (s.create L sym d (.thread userStack func arg0 arg1 arg2 arg3))
  | switch {s : State T} {call : Call} {next : T} {m : Machine}
      (hact : s.act s.cur = .handler call) (hnext : s.act next ≠ .absent)
      (hm : Switches L sym s.cur next call s.machine m) :
      Step L sym s (.switch s.cur next) (s.switch m call next)
  /-- C code goes on after its call of `switch_to`. -/
  | resume {s : State T} {call : Call} {caller : Machine}
      (hact : s.act s.cur = .switched call caller) (hres : Resumes call caller s.machine) :
      Step L sym s (.resume s.cur)
        { s with act := Function.update s.act s.cur (.handler call) }
  | timer {s : State T} {call : Call} {m : Machine} (hact : s.act s.cur = .handler call)
      (hcause : interruptHelper call.scause = .installed .handleIrqTimer)
      (hm : Returns L s.cur call s.machine m) :
      Step L sym s (.timer s.cur)
        { s with machine := m, act := Function.update s.act s.cur .returning }
  | syscall {s : State T} {call : Call} {m : Machine} (result : Word)
      (hact : s.act s.cur = .handler call)
      (hcause : interruptHelper call.scause = .installed .handleSyscall)
      (hm : Returns L s.cur call s.machine m) :
      Step L sym s (.syscall s.cur result)
        { s with machine := { m with mem := handleSyscall call.regs result m.mem }
                 act := Function.update s.act s.cur .returning }
  | ret {s : State T} (hact : s.act s.cur = .returning ∨ ∃ start, s.act s.cur = .fresh start)
      (hpc : s.machine.pc = sym.retFromException) :
      Step L sym s (.ret s.cur) s.ret
  | derail {s s' : State T} (h : Derailed sym s) : Step L sym s .derail s'

/-- The steps of a run. -/
inductive Path (L : Layout T) (sym : Symbols) : State T → List (Label T) → State T → Prop
  | nil (s : State T) : Path L sym s [] s
  | snoc {s s' s'' : State T} {ls : List (Label T)} {l : Label T} (h : Path L sym s ls s')
      (hstep : Step L sym s' l s'') : Path L sym s (ls ++ [l]) s''

end Steps

/-! ## The invariant -/

/-- The `regs_context_t` will lead back to user mode, with the task's own `tp`. -/
structure Framed (L : Layout T) (c : T) (mem : Word → Word) : Prop where
  tp : (RegsContext.read (L.frame c) mem).regs tp = L.pcb c
  spp : (RegsContext.read (L.frame c) mem).sstatus.getLsbD 8 = false

/-- `interrupt_helper` was called by the entry code. -/
structure Called (L : Layout T) (sym : Symbols) (c : T) (call : Call) : Prop where
  sp : call.sp = L.frame c
  ra : call.ra = sym.retFromException
  regs : call.regs = L.frame c

/-- `switch_to` was called by C code. -/
structure Calling (L : Layout T) (sym : Symbols) (c : T) (caller : Machine) : Prop where
  sp : L.InStack c (caller.get sp)
  ra : caller.get ra ≠ sym.retFromException

/-- A task that does not have the hart. -/
def Parked (L : Layout T) (sym : Symbols) (c : T) (mem : Word → Word) : Activity → Prop
  | .absent => True
  | .fresh start => L.Starts c start (.read (L.frame c) mem) ∧
      L.Suspended c (L.frame c) sym.retFromException mem
  | .switched call caller => Called L sym c call ∧ Calling L sym c caller ∧ Framed L c mem ∧
      L.Suspended c (caller.get sp) (caller.get ra) mem ∧
      (∀ q ∈ switchSlots, mem (caller.get sp - SWITCH_TO_SIZE + q.2) = caller.get q.1) ∧
      ∀ a : Word, (caller.get sp).toNat ≤ a.toNat → a.toNat < call.sp.toNat →
        mem a = caller.mem a
  | _ => False

/-- The task that has the hart. -/
def Running (L : Layout T) (sym : Symbols) (c : T) (m : Machine) : Activity → Prop
  | .absent => False
  | .fresh start => L.Starts c start (.read (L.frame c) m.mem) ∧ m.pc = sym.retFromException ∧
      m.get sp = L.frame c
  | .user => m.mem (L.kernelSp c) = L.frame c
  | .handler call => Called L sym c call ∧ Framed L c m.mem
  | .switched call caller => Called L sym c call ∧ Calling L sym c caller ∧ Framed L c m.mem ∧
      Resumes call caller m
  | .returning => Framed L c m.mem ∧ m.pc = sym.retFromException ∧ m.get sp = L.frame c

/-- **The invariant of the traps and switches.** -/
structure Inv (L : Layout T) (sym : Symbols) (s : State T) : Prop where
  stvec : s.machine.csr .stvec = sym.exceptionHandlerEntry
  tp : s.machine.get tp = L.pcb s.cur
  user : s.act s.cur = .user → s.machine.mode = .user
  /-- The kernel is not interrupted. -/
  masked : s.act s.cur ≠ .user →
    s.machine.mode = .supervisor ∧ (s.machine.csr .sstatus).getLsbD 1 = false
  running : Running L sym s.cur s.machine (s.act s.cur)
  parked : ∀ c, c ≠ s.cur → Parked L sym c s.machine.mem (s.act c)

section Invariant

variable {L : Layout T} {sym : Symbols} {c d : T} {m m' : Machine} {mem mem' : Word → Word}
  {call : Call} {caller : Machine} {act : Activity} {start : Start} {s s' : State T} {k sp : Word}

/-! ### What the invariant reads -/

theorem Layout.Starts.framed (h : L.Starts c start (.read (L.frame c) mem)) : Framed L c mem where
  tp := h.tp
  spp := by rw [h.sstatus]; decide

theorem Framed.congr (h : Framed L c mem)
    (hmem : ∀ k < OFFSET_SIZE, mem' (L.frame c + k) = mem (L.frame c + k)) : Framed L c mem' := by
  have hread := RegsContext.read_congr hmem
  exact ⟨hread ▸ h.tp, hread ▸ h.spp⟩

/-- What is between a stack pointer and the `regs_context_t` is the task's own. -/
theorem mem_own_of_between {a : Word} (hsp : L.InStack c sp) (h : sp.toNat ≤ a.toNat)
    (ha : a.toNat < (L.frame c).toNat) : a ∈ L.own c := by
  refine Layout.stack_subset_own (Layout.mem_stack.2 ?_)
  have hf := L.frame_toNat c
  have h1 := hsp.1
  omega

/-- A task that does not have the hart depends on nothing but what is its own. -/
theorem Parked.congr (h : Parked L sym c mem act) (hmem : ∀ a ∈ L.own c, mem' a = mem a) :
    Parked L sym c mem' act := by
  have hframe : ∀ k < OFFSET_SIZE, mem' (L.frame c + k) = mem (L.frame c + k) := fun k hk =>
    hmem _ (Layout.frame_mem_own hk)
  cases act with
  | absent => trivial
  | fresh start =>
    obtain ⟨hstarts, hsus⟩ := h
    refine ⟨?_, hsus.congr (L.inStack_frame c) hmem⟩
    rw [RegsContext.read_congr hframe]
    exact hstarts
  | switched call caller =>
    obtain ⟨hcall, hcaller, hframed, hsus, hsaved, hstack⟩ := h
    refine ⟨hcall, hcaller, hframed.congr hframe, hsus.congr hcaller.sp hmem, ?_, ?_⟩
    · intro q hq
      have hlt : ∀ q ∈ switchSlots, q.2 < SWITCH_TO_SIZE := List.all_iff_forall_prop.1 (by decide)
      rw [hmem _ (Layout.stack_subset_own (hcaller.sp.sub_add_mem (hlt q hq))), hsaved q hq]
    · intro a hle hlt
      rw [hmem a (mem_own_of_between hcaller.sp hle (hcall.sp ▸ hlt)), hstack a hle hlt]
  | user => exact h
  | handler call => exact h
  | returning => exact h

/-! ### What the steps write -/

/-- C code leaves alone what belongs to other tasks. -/
theorem InKernel.mem_own (h : InKernel L c sp m m') (hsp : sp.toNat ≤ (L.frame c).toNat) (hcd : d ≠ c)
    {a : Word} (ha : a ∈ L.own d) : m'.mem a = m.mem a := by
  by_contra hne
  rcases h.mem a hne with hfree | ⟨hle, hlt⟩
  · exact hfree d ha
  · refine Set.disjoint_left.1 (Layout.own_disjoint hcd) ha (Layout.stack_subset_own ?_)
    have hf := L.frame_toNat c
    rw [Layout.mem_stack]
    omega

/-- C code leaves alone what is at its stack pointer and above. -/
theorem InKernel.mem_stack (h : InKernel L c sp m m') {a : Word} (ha : a ∈ L.own c)
    (hsp : sp.toNat ≤ a.toNat) : m'.mem a = m.mem a := by
  by_contra hne
  rcases h.mem a hne with hfree | ⟨-, hlt⟩
  · exact hfree c ha
  · omega

/-- The `regs_context_t` is above the stack pointer of C code. -/
theorem InKernel.mem_frame (h : InKernel L c sp m m') (hsp : sp.toNat ≤ (L.frame c).toNat)
    (hk : k < OFFSET_SIZE) : m'.mem (L.frame c + k) = m.mem (L.frame c + k) :=
  h.mem_stack (Layout.frame_mem_own hk) (Nat.le_trans hsp (Layout.frame_add_mem hk).2)

/-! ### Every step keeps the invariant -/

namespace Inv

section Trap

variable {cause tval : Word}

/-- At a trap the kernel stack pointer is that of the frame. -/
theorem kernelSp_takeTrap (h : Inv L sym s) (hact : s.act s.cur = .user) :
    let m := s.machine.takeTrap cause tval
    m.mem (m.get Reg.tp + PCB_KERNEL_SP) = L.frame s.cur := by
  have hrun := h.running
  rw [hact] at hrun
  show s.machine.mem (s.machine.get Reg.tp + PCB_KERNEL_SP) = _
  rw [h.tp]
  exact hrun

/-- **The frame after a trap** holds what the hart held. -/
theorem read_trap [DecidableEq T] (h : Inv L sym s) (hact : s.act s.cur = .user) :
    RegsContext.read (L.frame s.cur) (s.trap sym cause tval).machine.mem
      = RegsContext.held (s.machine.takeTrap cause tval) := by
  have hread := read_exceptionHandlerEntry sym (m := s.machine.takeTrap cause tval)
  rw [h.kernelSp_takeTrap hact] at hread
  exact hread

/-- A trap writes nothing but the frame. -/
theorem mem_trap [DecidableEq T] (h : Inv L sym s) (hact : s.act s.cur = .user) {a : Word}
    (ha : ∀ k < OFFSET_SIZE, L.frame s.cur + k ≠ a) :
    (s.trap sym cause tval).machine.mem a = s.machine.mem a :=
  mem_exceptionHandlerEntry_of_ne sym (m := s.machine.takeTrap cause tval)
    ((h.kernelSp_takeTrap hact).symm ▸ ha)

/-- The call of `interrupt_helper`. -/
theorem call_trap [DecidableEq T] (h : Inv L sym s) (hact : s.act s.cur = .user) :
    Call.of (s.trap sym cause tval).machine
      = ⟨L.frame s.cur, sym.retFromException, L.frame s.cur, cause⟩ := by
  obtain ⟨-, hra, ha0, -, ha2⟩ := call_exceptionHandlerEntry sym (m := s.machine.takeTrap cause tval)
  have hsp := get_exceptionHandlerEntry_sp sym (m := s.machine.takeTrap cause tval)
  rw [h.kernelSp_takeTrap hact] at hsp ha0
  show Call.mk _ _ _ _ = _
  rw [Call.mk.injEq]
  exact ⟨hsp, hra, ha0, ha2⟩

theorem trap [DecidableEq T] (h : Inv L sym s) (hact : s.act s.cur = .user) :
    Inv L sym (s.trap sym cause tval) := by
  obtain ⟨hsstatus, hstvec, hmode⟩ :=
    csr_exceptionHandlerEntry sym (m := s.machine.takeTrap cause tval)
  have hself : (s.trap sym cause tval).act s.cur = .handler (.of (s.trap sym cause tval).machine) :=
    Function.update_self ..
  refine ⟨hstvec.trans h.stvec, ?_, ?_, ?_, ?_, ?_⟩
  · exact (get_exceptionHandlerEntry_tp sym).trans h.tp
  · intro hu
    exact absurd (hself.symm.trans hu) (by simp)
  · intro _
    refine ⟨hmode, ?_⟩
    show ((s.trap sym cause tval).machine.csr .sstatus).getLsbD 1 = false
    rw [show (s.trap sym cause tval).machine.csr .sstatus = _ from hsstatus]
    decide
  · show Running L sym s.cur _ ((s.trap sym cause tval).act s.cur)
    rw [hself, h.call_trap hact]
    refine ⟨⟨rfl, rfl, rfl⟩, ?_⟩
    have hread : RegsContext.read (L.frame s.cur) (s.trap sym cause tval).machine.mem = _ :=
      h.read_trap hact
    refine ⟨?_, ?_⟩
    · rw [hread]
      exact h.tp
    · rw [hread]
      show (trapStatus s.machine.mode _).getLsbD 8 = false
      rw [h.user hact, getLsbD_trapStatus_user]
      simp
  · intro c (hc : c ≠ s.cur)
    have hact' : (s.trap sym cause tval).act c = s.act c := Function.update_of_ne hc ..
    rw [hact']
    refine (h.parked c hc).congr fun a ha => h.mem_trap hact fun k hk he => ?_
    exact Set.disjoint_left.1 (Layout.own_disjoint hc) ha (he ▸ Layout.frame_mem_own hk)

end Trap

theorem user_step (h : Inv L sym s) (hact : s.act s.cur = .user)
    (htp : m.get Reg.tp = s.machine.get Reg.tp) (hstvec : m.csr .stvec = s.machine.csr .stvec)
    (hmode : m.mode = s.machine.mode) (hmem : ∀ a, m.mem a ≠ s.machine.mem a → a ∈ L.free) :
    Inv L sym { s with machine := m } := by
  have hown : ∀ c, ∀ a ∈ L.own c, m.mem a = s.machine.mem a := fun c a ha => by
    by_contra hne
    exact hmem a hne c ha
  have hrun := h.running
  rw [hact] at hrun
  refine ⟨hstvec.trans h.stvec, htp.trans h.tp, fun hu => hmode.trans (h.user hu),
    fun hu => absurd hact hu, ?_, fun c hc => (h.parked c hc).congr (hown c)⟩
  show Running L sym s.cur m (s.act s.cur)
  rw [hact]
  exact (hown s.cur _ Layout.kernelSp_mem_own).trans hrun

/-- While a task is in `interrupt_helper`, its call and its frame are as the entry code made them. -/
theorem handler (h : Inv L sym s) (hact : s.act s.cur = .handler call) :
    Called L sym s.cur call ∧ Framed L s.cur s.machine.mem := by
  have hrun := h.running
  rw [hact] at hrun
  exact hrun

/-- C code leaves alone what belongs to other tasks. -/
theorem mem_kernel_own (h : Inv L sym s) (hact : s.act s.cur = .handler call)
    (hm : InKernel L s.cur call.sp s.machine m) (hc : c ≠ s.cur) {a : Word} (ha : a ∈ L.own c) :
    m.mem a = s.machine.mem a :=
  hm.mem_own (by rw [(h.handler hact).1.sp]) hc ha

/-- C code leaves alone the frame of its own task. -/
theorem mem_kernel_frame (h : Inv L sym s) (hact : s.act s.cur = .handler call)
    (hm : InKernel L s.cur call.sp s.machine m) (hk : k < OFFSET_SIZE) :
    m.mem (L.frame s.cur + k) = s.machine.mem (L.frame s.cur + k) :=
  hm.mem_frame (by rw [(h.handler hact).1.sp]) hk

theorem kernel_step (h : Inv L sym s) (hact : s.act s.cur = .handler call)
    (hm : InKernel L s.cur call.sp s.machine m) (htp : m.get Reg.tp = s.machine.get Reg.tp) :
    Inv L sym { s with machine := m } := by
  obtain ⟨hcall, hframed⟩ := h.handler hact
  have hne : s.act s.cur ≠ .user := by rw [hact]; simp
  refine ⟨?_, htp.trans h.tp, fun hu => absurd hu hne, fun hu => ?_, ?_, fun c hc => ?_⟩
  · show m.csr .stvec = _
    rw [hm.csr]
    exact h.stvec
  · show m.mode = _ ∧ (m.csr .sstatus).getLsbD 1 = _
    rw [hm.csr, hm.mode]
    exact h.masked hu
  · show Running L sym s.cur m (s.act s.cur)
    rw [hact]
    exact ⟨hcall, hframed.congr fun k hk => h.mem_kernel_frame hact hm hk⟩
  · exact (h.parked c hc).congr fun a ha => h.mem_kernel_own hact hm hc ha

theorem create [DecidableEq T] (h : Inv L sym s) (hact : s.act s.cur = .handler call)
    (hd : s.act d = .absent) (start : Start) : Inv L sym (s.create L sym d start) := by
  have hcd : s.cur ≠ d := by
    rintro hcd
    rw [hcd, hd] at hact
    cases hact
  have hself : (s.create L sym d start).act d = .fresh start := Function.update_self ..
  have hother : ∀ c, c ≠ d → (s.create L sym d start).act c = s.act c := fun c hc =>
    Function.update_of_ne hc ..
  obtain ⟨hcall, hframed⟩ := h.handler hact
  have hne : s.act s.cur ≠ .user := by rw [hact]; simp
  refine ⟨h.stvec, h.tp, fun hu => absurd ((hother _ hcd).symm.trans hu) hne,
    fun _ => h.masked hne, ?_, fun c hc => ?_⟩
  · show Running L sym s.cur _ ((s.create L sym d start).act s.cur)
    rw [hother _ hcd, hact]
    exact ⟨hcall, hframed.congr fun k hk => Layout.initStack_own hcd (Layout.frame_mem_own hk)⟩
  · rcases eq_or_ne c d with rfl | hcd'
    · rw [hself]
      exact ⟨L.starts_initStack sym c start _, L.suspended_initStack sym c start _⟩
    · rw [hother c hcd']
      exact (h.parked c hc).congr fun a ha => Layout.initStack_own hcd' ha

theorem resume [DecidableEq T] (h : Inv L sym s) (hact : s.act s.cur = .switched call caller) :
    Inv L sym { s with act := Function.update s.act s.cur (.handler call) } := by
  have hrun := h.running
  rw [hact] at hrun
  obtain ⟨hcall, -, hframed, -⟩ := hrun
  have hne : s.act s.cur ≠ .user := by rw [hact]; simp
  have hself : Function.update s.act s.cur (.handler call) s.cur = .handler call :=
    Function.update_self ..
  refine ⟨h.stvec, h.tp, fun hu => absurd (hself.symm.trans hu) (by simp), fun _ => h.masked hne,
    ?_, fun c hc => ?_⟩
  · show Running L sym s.cur s.machine (Function.update s.act s.cur (.handler call) s.cur)
    rw [hself]
    exact ⟨hcall, hframed⟩
  · show Parked L sym c s.machine.mem (Function.update s.act s.cur (.handler call) c)
    rw [Function.update_of_ne hc]
    exact h.parked c hc

/-- The return of `interrupt_helper`, when what it has written to the frame is neither `tp` nor
`sstatus`. -/
theorem returning [DecidableEq T] (h : Inv L sym s) (hact : s.act s.cur = .handler call)
    (hm : Returns L s.cur call s.machine m) (hmem : ∀ c, c ≠ s.cur → ∀ a ∈ L.own c, mem a = m.mem a)
    (hframed : Framed L s.cur m.mem → Framed L s.cur mem) :
    Inv L sym { s with machine := { m with mem := mem }
                       act := Function.update s.act s.cur .returning } := by
  obtain ⟨hcall, hframed'⟩ := h.handler hact
  have hne : s.act s.cur ≠ .user := by rw [hact]; simp
  have hself : Function.update s.act s.cur .returning s.cur = .returning := Function.update_self ..
  refine ⟨?_, hm.tp.trans h.tp, fun hu => absurd (hself.symm.trans hu) (by simp), fun _ => ?_, ?_,
    fun c hc => ?_⟩
  · show m.csr .stvec = _
    rw [hm.csr]
    exact h.stvec
  · show m.mode = _ ∧ (m.csr .sstatus).getLsbD 1 = _
    rw [hm.csr, hm.mode]
    exact h.masked hne
  · show Running L sym s.cur _ (Function.update s.act s.cur .returning s.cur)
    rw [hself]
    refine ⟨hframed (hframed'.congr fun k hk => h.mem_kernel_frame hact hm.toInKernel hk), ?_, ?_⟩
    · exact hm.pc.trans hcall.ra
    · exact hm.sp.trans hcall.sp
  · show Parked L sym c mem (Function.update s.act s.cur .returning c)
    rw [Function.update_of_ne hc]
    exact (h.parked c hc).congr fun a ha =>
      (hmem c hc a ha).trans (h.mem_kernel_own hact hm.toInKernel hc ha)

theorem timer [DecidableEq T] (h : Inv L sym s) (hact : s.act s.cur = .handler call)
    (hm : Returns L s.cur call s.machine m) :
    Inv L sym { s with machine := m, act := Function.update s.act s.cur .returning } :=
  h.returning hact hm (fun _ _ _ _ => rfl) id

/-- A system call writes to the frame of its own task. -/
theorem mem_syscall_own (h : Inv L sym s) (hact : s.act s.cur = .handler call) (result : Word)
    (hc : c ≠ s.cur) {a : Word} (ha : a ∈ L.own c) :
    handleSyscall call.regs result mem a = mem a := by
  rw [(h.handler hact).1.regs]
  refine handleSyscall_of_notMem fun k hk he => ?_
  exact Set.disjoint_left.1 (Layout.own_disjoint hc) ha (he ▸ Layout.frame_mem_own hk)

theorem syscall [DecidableEq T] (h : Inv L sym s) (hact : s.act s.cur = .handler call)
    (hm : Returns L s.cur call s.machine m) (result : Word) :
    Inv L sym { s with machine := { m with mem := handleSyscall call.regs result m.mem }
                       act := Function.update s.act s.cur .returning } := by
  have hregs : call.regs = L.frame s.cur := (h.handler hact).1.regs
  refine h.returning hact hm (fun c hc a ha => h.mem_syscall_own hact result hc ha) ?_
  intro hf
  rw [hregs]
  refine ⟨?_, ?_⟩
  · rw [RegsContext.read_handleSyscall, RegsContext.regs_sysret, Function.update_of_ne (by decide)]
    exact hf.tp
  · rw [RegsContext.read_handleSyscall]
    exact hf.spp

/-- A task that is about to return to user mode. -/
theorem framed_of_ret (h : Inv L sym s)
    (hact : s.act s.cur = .returning ∨ ∃ start, s.act s.cur = .fresh start) :
    Framed L s.cur s.machine.mem ∧ s.machine.pc = sym.retFromException ∧
      s.machine.get Reg.sp = L.frame s.cur := by
  have hrun := h.running
  rcases hact with hact | ⟨start, hact⟩
  · rw [hact] at hrun
    exact hrun
  · rw [hact] at hrun
    exact ⟨hrun.1.framed, hrun.2⟩

/-- **The return to user mode**: the registers are those of the frame, and `kernel_sp` is the
address of the frame again. -/
theorem ret_spec (h : Inv L sym s)
    (hact : s.act s.cur = .returning ∨ ∃ start, s.act s.cur = .fresh start) :
    let ctx := RegsContext.read (L.frame s.cur) s.machine.mem
    let m := run retFromException s.machine
    m.get = ctx.regs ∧ m.pc = ctx.sepc ∧ m.csr .sstatus = sretStatus ctx.sstatus ∧
      m.csr .stvec = s.machine.csr .stvec ∧ m.mode = .user ∧
        m.mem = Function.update s.machine.mem (L.kernelSp s.cur) (L.frame s.cur) := by
  obtain ⟨hframed, -, hsp⟩ := h.framed_of_ret hact
  intro ctx m
  have htp : (RegsContext.read (s.machine.get Reg.sp) s.machine.mem).regs Reg.tp + PCB_KERNEL_SP
      = L.kernelSp s.cur := by
    rw [hsp, hframed.tp]
    rfl
  obtain ⟨hpc, hsstatus, hstvec, hmode⟩ := csr_retFromException (m := s.machine)
  have hmem := mem_retFromException (m := s.machine)
  have hget := get_retFromException (m := s.machine) (by
    rw [htp, hsp]
    refine (Layout.frame_add_ne_kernelSp ?_).symm
    decide)
  rw [htp, hsp] at hmem
  rw [hsp] at hget hpc hsstatus hmode
  rw [hframed.spp] at hmode
  exact ⟨hget, hpc, hsstatus, hstvec, hmode, hmem⟩

/-- `kernel_sp` is the address of the frame again. -/
theorem mem_ret_kernelSp [DecidableEq T] (h : Inv L sym s)
    (hact : s.act s.cur = .returning ∨ ∃ start, s.act s.cur = .fresh start) :
    s.ret.machine.mem (L.kernelSp s.cur) = L.frame s.cur := by
  obtain ⟨-, -, -, -, -, hmem⟩ := h.ret_spec hact
  show (run retFromException s.machine).mem _ = _
  rw [hmem, Function.update_self]

/-- The frame keeps what it holds. -/
theorem mem_ret_frame [DecidableEq T] (h : Inv L sym s)
    (hact : s.act s.cur = .returning ∨ ∃ start, s.act s.cur = .fresh start) {k : Word}
    (hk : k < OFFSET_SIZE) :
    s.ret.machine.mem (L.frame s.cur + k) = s.machine.mem (L.frame s.cur + k) := by
  obtain ⟨-, -, -, -, -, hmem⟩ := h.ret_spec hact
  show (run retFromException s.machine).mem _ = _
  rw [hmem, Function.update_of_ne (Layout.frame_add_ne_kernelSp hk)]

/-- The return to user mode writes the task's own `kernel_sp`. -/
theorem mem_ret_own [DecidableEq T] (h : Inv L sym s)
    (hact : s.act s.cur = .returning ∨ ∃ start, s.act s.cur = .fresh start) (hc : c ≠ s.cur) {a : Word}
    (ha : a ∈ L.own c) : s.ret.machine.mem a = s.machine.mem a := by
  obtain ⟨-, -, -, -, -, hmem⟩ := h.ret_spec hact
  show (run retFromException s.machine).mem a = _
  rw [hmem, Function.update_of_ne]
  rintro rfl
  exact Set.disjoint_left.1 (Layout.own_disjoint hc) ha Layout.kernelSp_mem_own

theorem ret [DecidableEq T] (h : Inv L sym s)
    (hact : s.act s.cur = .returning ∨ ∃ start, s.act s.cur = .fresh start) : Inv L sym s.ret := by
  obtain ⟨hget, -, -, hstvec, hmode, hmem⟩ := h.ret_spec hact
  have hframed := (h.framed_of_ret hact).1
  have hself : s.ret.act s.cur = .user := Function.update_self ..
  refine ⟨hstvec.trans h.stvec, ?_, fun _ => hmode, fun hu => absurd hself hu, ?_, fun c hc => ?_⟩
  · show (run retFromException s.machine).get Reg.tp = _
    rw [hget]
    exact hframed.tp
  · show Running L sym s.cur s.ret.machine (s.ret.act s.cur)
    rw [hself]
    exact h.mem_ret_kernelSp hact
  · have hother : s.ret.act c = s.act c := Function.update_of_ne hc ..
    rw [hother]
    exact (h.parked c hc).congr fun a ha => h.mem_ret_own hact hc ha

section Switch

variable {next : T}

theorem Switches.inStack (h : Inv L sym s) (hact : s.act s.cur = .handler call)
    (hm : Switches L sym s.cur next call s.machine m) : L.InStack s.cur (m.get Reg.sp) :=
  ⟨hm.room, (h.handler hact).1.sp ▸ hm.below⟩

/-- What the first half of `switch_to` leaves alone of what is somebody's own. -/
theorem mem_switchSave_own (hsp : L.InStack c (m.get Reg.sp)) (ha0 : m.get a0 = L.pcb c) {a : Word}
    (hne : a ≠ L.kernelSp c) (ha : a ∈ L.own d)
    (h : d ≠ c ∨ (m.get Reg.sp).toNat ≤ a.toNat) : (run switchSave m).mem a = m.mem a := by
  rw [mem_switchSave_of_ne, Function.update_of_ne]
  · rw [ha0]
    exact hne
  · intro k hk he
    rcases h with hcd | hle
    · exact Set.disjoint_left.1 (Layout.own_disjoint hcd) ha
        (he ▸ Layout.stack_subset_own (hsp.sub_add_mem hk))
    · have hlt := (hsp.sub_add hk).2
      rw [he] at hlt
      omega

/-- `switch_to` leaves the caller's stack alone, from the stack pointer on. -/
theorem mem_switchSave_stack (h : Inv L sym s) (hact : s.act s.cur = .handler call)
    (hm : Switches L sym s.cur next call s.machine m) {a : Word} (ha : a ∈ L.stack s.cur)
    (hle : (m.get Reg.sp).toNat ≤ a.toNat) : (run switchSave m).mem a = m.mem a := by
  refine mem_switchSave_own (Switches.inStack h hact hm) (hm.a0.trans h.tp) ?_
    (Layout.stack_subset_own ha) (.inr hle)
  rintro rfl
  exact L.kernelSp_notMem_stack _ _ ha

/-- `switch_to` leaves the frame of the caller alone. -/
theorem mem_switchSave_frame (h : Inv L sym s) (hact : s.act s.cur = .handler call)
    (hm : Switches L sym s.cur next call s.machine m) (hk : k < OFFSET_SIZE) :
    (run switchSave m).mem (L.frame s.cur + k) = s.machine.mem (L.frame s.cur + k) := by
  have hmem := Layout.frame_add_mem (L := L) (c := s.cur) hk
  rw [mem_switchSave_stack h hact hm hmem.1
    (Nat.le_trans (Switches.inStack h hact hm).2 hmem.2), h.mem_kernel_frame hact hm.toInKernel hk]

/-- **The first half of `switch_to`** parks the task that calls it. -/
theorem parked_switchSave (h : Inv L sym s) (hact : s.act s.cur = .handler call)
    (hm : Switches L sym s.cur next call s.machine m) :
    Parked L sym s.cur (run switchSave m).mem (.switched call m) := by
  obtain ⟨hcall, hframed⟩ := h.handler hact
  have hin := Switches.inStack h hact hm
  have ha0 : m.get a0 = L.pcb s.cur := hm.a0.trans h.tp
  refine ⟨hcall, ⟨hin, hm.ra⟩, hframed.congr fun k hk => mem_switchSave_frame h hact hm hk,
    ⟨?_, ?_, ?_⟩, ?_, ?_⟩
  · rw [mem_switchSave_of_ne, ha0]
    · exact Function.update_self ..
    · intro k hk he
      exact L.kernelSp_notMem_stack s.cur s.cur (he ▸ hin.sub_add_mem hk)
  · exact mem_switchSave_slot (by simp)
  · exact mem_switchSave_sp
  · intro q hq
    exact mem_switchSave_slot (List.mem_cons_of_mem _ hq)
  · intro a hle hlt
    refine mem_switchSave_stack h hact hm (Layout.mem_stack.2 ?_) hle
    have hf := L.frame_toNat s.cur
    have hr := hin.1
    rw [hcall.sp] at hlt
    omega

/-- `switch_to` finds the `switchto_context_t` of a task that is parked. -/
theorem switchLoad_of_suspended {ra : Word} (hsus : L.Suspended c sp ra m.mem)
    (ha1 : m.get a1 = L.pcb c) :
    m.mem (m.get a1 + PCB_KERNEL_SP) = sp - SWITCH_TO_SIZE ∧
      m.mem (m.mem (m.get a1 + PCB_KERNEL_SP) + SWITCH_TO_SP)
        = m.mem (m.get a1 + PCB_KERNEL_SP) := by
  have hk : m.mem (m.get a1 + PCB_KERNEL_SP) = sp - SWITCH_TO_SIZE := by
    rw [ha1]
    exact hsus.kernelSp
  rw [hk]
  exact ⟨rfl, hsus.sp⟩

/-- **The second half of `switch_to`** gives the hart to a task that was parked. -/
theorem running_switchLoad (h : Parked L sym c m.mem act) (hact : act ≠ .absent)
    (ha1 : m.get a1 = L.pcb c) :
    let m' := run switchLoad m
    Running L sym c m' act ∧ m'.get Reg.tp = m.get Reg.tp ∧ m'.mem = m.mem ∧ m'.csr = m.csr ∧
      m'.mode = m.mode := by
  intro m'
  cases act with
  | absent => exact absurd rfl hact
  | fresh start =>
    obtain ⟨hstarts, hsus⟩ := h
    obtain ⟨hk, hself⟩ := switchLoad_of_suspended hsus ha1
    obtain ⟨hpc, -, hsp, -, htp, hmem, hrest⟩ := switchLoad_spec hself
    rw [hk] at hpc hsp
    exact ⟨⟨hmem ▸ hstarts, hpc.trans hsus.ra, hsp.trans (BitVec.sub_add_cancel ..)⟩, htp, hmem,
      hrest⟩
  | switched call caller =>
    obtain ⟨hcall, hcaller, hframed, hsus, hsaved, hstack⟩ := h
    obtain ⟨hk, hself⟩ := switchLoad_of_suspended hsus ha1
    obtain ⟨hpc, -, hsp, hregs, htp, hmem, hrest⟩ := switchLoad_spec hself
    rw [hk] at hpc hsp hregs
    refine ⟨⟨hcall, hcaller, hmem ▸ hframed, hpc.trans hsus.ra,
      hsp.trans (BitVec.sub_add_cancel ..), ?_, hmem ▸ hstack⟩, htp, hmem, hrest⟩
    intro q hq
    rw [hregs q hq, hsaved q hq]
  | user => exact absurd h (by simp [Parked])
  | handler call => exact absurd h (by simp [Parked])
  | returning => exact absurd h (by simp [Parked])

/-- `switch_to` writes to what is the caller's own. -/
theorem mem_switchSave_other (h : Inv L sym s) (hact : s.act s.cur = .handler call)
    (hm : Switches L sym s.cur next call s.machine m) (hc : c ≠ s.cur) {a : Word} (ha : a ∈ L.own c) :
    (run switchSave m).mem a = s.machine.mem a := by
  rw [mem_switchSave_own (Switches.inStack h hact hm) (hm.a0.trans h.tp) ?_ ha (.inl hc),
    h.mem_kernel_own hact hm.toInKernel hc ha]
  rintro rfl
  exact Set.disjoint_left.1 (Layout.own_disjoint hc) ha Layout.kernelSp_mem_own

theorem machine_switch [DecidableEq T] (s : State T) (m : Machine) (call : Call) (next : T) :
    (s.switch m call next).machine = run switchLoad (run switchSave m) := by
  rw [← run_append, ← switchTo_eq]
  rfl

theorem mem_switch [DecidableEq T] :
    (s.switch m call next).machine.mem = (run switchSave m).mem := by
  rw [machine_switch, mem_switchLoad]

theorem switch [DecidableEq T] (h : Inv L sym s) (hact : s.act s.cur = .handler call)
    (hnext : s.act next ≠ .absent) (hm : Switches L sym s.cur next call s.machine m) :
    Inv L sym (s.switch m call next) := by
  have hself : (s.switch m call next).act s.cur = .switched call m := Function.update_self ..
  have hother : ∀ c, c ≠ s.cur → (s.switch m call next).act c = s.act c := fun c hc =>
    Function.update_of_ne hc ..
  -- between the two halves nobody has the hart
  have hparked : ∀ c, Parked L sym c (run switchSave m).mem ((s.switch m call next).act c) := by
    intro c
    rcases eq_or_ne c s.cur with rfl | hc
    · rw [hself]
      exact parked_switchSave h hact hm
    · rw [hother c hc]
      exact (h.parked c hc).congr fun a ha => mem_switchSave_other h hact hm hc ha
  have hnext' : (s.switch m call next).act next ≠ .absent := by
    rcases eq_or_ne next s.cur with rfl | hc
    · rw [hself]
      simp
    · rw [hother next hc]
      exact hnext
  have hne : s.act s.cur ≠ .user := by rw [hact]; simp
  have ha1 : (run switchSave m).get a1 = L.pcb next := by
    rw [get_switchSave_of_ne (by decide), hm.a1]
  obtain ⟨hload, htp, -, hcsr, hmode⟩ := running_switchLoad (hparked next) hnext' ha1
  rw [← machine_switch s m call next] at hload htp hcsr hmode
  have hcsr' : (s.switch m call next).machine.csr = s.machine.csr :=
    hcsr.trans (csr_switchSave.1.trans hm.csr)
  have hmode' : (s.switch m call next).machine.mode = s.machine.mode :=
    hmode.trans (csr_switchSave.2.trans hm.mode)
  refine ⟨?_, ?_, fun hu => ?_, fun _ => ?_, hload, fun c _ => ?_⟩
  · rw [hcsr']
    exact h.stvec
  · rw [htp, get_switchSave_of_ne (by decide)]
    exact hm.tp
  · have hfalse := hparked next
    rw [show (s.switch m call next).act next = .user from hu] at hfalse
    exact absurd hfalse (by simp [Parked])
  · rw [hcsr', hmode']
    exact h.masked hne
  · rw [mem_switch]
    exact hparked c

end Switch

/-- **Nothing derails.** -/
theorem not_derailed (h : Inv L sym s) : ¬ Derailed sym s := by
  have hrun := h.running
  rw [Derailed]
  cases hact : s.act s.cur with
  | absent => exact absurd hrun (by simp [hact, Running])
  | fresh start =>
    rw [hact] at hrun
    exact not_not.2 hrun.2.1
  | user => exact not_not.2 h.stvec
  | handler call => exact id
  | switched call caller =>
    rw [hact] at hrun
    exact not_not.2 hrun.2.2.2
  | returning =>
    rw [hact] at hrun
    exact not_not.2 hrun.2.1

variable [DecidableEq T] {l : Label T} {ls : List (Label T)}

/-- **Every step keeps the invariant.** -/
theorem step (h : Inv L sym s) (hstep : Step L sym s l s') : Inv L sym s' := by
  cases hstep with
  | user hact htp hstvec hmode hmem => exact h.user_step hact htp hstvec hmode hmem
  | trap cause tval hact hpc => exact h.trap hact
  | kernel hact hm htp => exact h.kernel_step hact hm htp
  | create userStack func arg0 arg1 arg2 arg3 hact hd => exact h.create hact hd _
  | switch hact hnext hm => exact h.switch hact hnext hm
  | resume hact hres => exact h.resume hact
  | timer hact hcause hm => exact h.timer hact hm
  | syscall result hact hcause hm => exact h.syscall hact hm result
  | ret hact hpc => exact h.ret hact
  | derail hd => exact absurd hd h.not_derailed

/-- **The invariant holds for as long as the machine runs.** -/
theorem of_path (h : Inv L sym s) (hpath : Path L sym s ls s') : Inv L sym s' := by
  induction hpath with
  | nil => exact h
  | snoc hpath hstep ih => exact ih.step hstep

end Inv

end Invariant

/-! ## The first dispatch -/

/-- `init_pcb` has made the tasks `starts`, in this order, out of a memory `mem₀`: it has called
`init_pcb_stack` for each of them.  Since then nothing has been written to what is a task's own. -/
structure Loaded (L : Layout T) (sym : Symbols) (starts : List (T × Start)) (mem : Word → Word)
    (act : T → Activity) : Prop where
  nodup : (starts.map Prod.fst).Nodup
  task : ∀ q ∈ starts, ∃ userStack entryPoint, q.2 = .task userStack entryPoint
  fresh : ∀ q ∈ starts, act q.1 = .fresh q.2
  absent : ∀ c, c ∉ starts.map Prod.fst → act c = .absent
  mem : ∃ mem₀, ∀ c, ∀ a ∈ L.own c, mem a = L.initStacks sym starts mem₀ a

/-- `main` has filled in the PCBs and waits.  Out of the handler of a timer interrupt
`switch_to(&pid0_pcb, first)` has just been called, and the hart, which was `m`, is about to go on
with the first task. -/
structure Boots (L : Layout T) (sym : Symbols) (m : Machine) (s : State T) : Prop where
  machine : s.machine = run switchTo m
  loaded : ∃ starts, Loaded L sym starts m.mem s.act
  cur : s.act s.cur ≠ .absent
  stvec : m.csr .stvec = sym.exceptionHandlerEntry
  mode : m.mode = .supervisor
  masked : (m.csr .sstatus).getLsbD 1 = false
  tp : m.get tp = L.pcb s.cur
  a1 : m.get a1 = L.pcb s.cur
  /-- `pid0_pcb` and the stack it uses are apart from those of the tasks. -/
  free : m.get a0 + PCB_KERNEL_SP ∈ L.free ∧
    ∀ k < SWITCH_TO_SIZE, m.get sp - SWITCH_TO_SIZE + k ∈ L.free

/-- **`init_pcb` leaves every task ready to be switched to.** -/
theorem Loaded.parked {L : Layout T} {sym : Symbols} {starts : List (T × Start)}
    {mem : Word → Word} {act : T → Activity} (h : Loaded L sym starts mem act) (c : T) :
    Parked L sym c mem (act c) := by
  obtain ⟨mem₀, hmem⟩ := h.mem
  by_cases hc : c ∈ starts.map Prod.fst
  · obtain ⟨q, hq, rfl⟩ := List.mem_map.1 hc
    rw [h.fresh q hq]
    have hparked : Parked L sym q.1 (L.initStacks sym starts mem₀) (.fresh q.2) :=
      Layout.inits_initStacks h.nodup hq mem₀
    exact hparked.congr (hmem q.1)
  · rw [h.absent c hc]
    trivial

/-- The invariant holds at the first dispatch. -/
theorem Boots.inv {L : Layout T} {sym : Symbols} {m : Machine} {s : State T} (h : Boots L sym m s) :
    Inv L sym s := by
  obtain ⟨starts, hloaded⟩ := h.loaded
  have hparked : ∀ c, Parked L sym c (run switchSave m).mem (s.act c) := by
    intro c
    refine (hloaded.parked c).congr fun a ha => ?_
    rw [mem_switchSave_of_ne, Function.update_of_ne]
    · rintro rfl
      exact h.free.1 c ha
    · rintro k hk rfl
      exact h.free.2 k hk c ha
  have ha1 : (run switchSave m).get Reg.a1 = L.pcb s.cur := by
    rw [get_switchSave_of_ne (by decide), h.a1]
  have hrun : s.machine = run switchLoad (run switchSave m) := by
    rw [h.machine, ← run_append, ← switchTo_eq]
  obtain ⟨hload, htp, hmem, hcsr, hmode⟩ := Inv.running_switchLoad (hparked s.cur) h.cur ha1
  rw [← hrun] at hload htp hmem hcsr hmode
  refine ⟨?_, ?_, fun hu => ?_, fun _ => ?_, hload, fun c _ => ?_⟩
  · rw [hcsr, csr_switchSave.1, h.stvec]
  · rw [htp, get_switchSave_of_ne (by decide), h.tp]
  · have hfalse := hparked s.cur
    rw [hu] at hfalse
    exact absurd hfalse (by simp [Parked])
  · rw [hcsr, hmode, csr_switchSave.1, csr_switchSave.2]
    exact ⟨h.mode, h.masked⟩
  · rw [hmem]
    exact hparked c

end UcasOs
