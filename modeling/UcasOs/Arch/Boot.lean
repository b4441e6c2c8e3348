import UcasOs.Arch.Trap

/-!
# The first task, and what the hart can do from there

Not everything that is about runs would be worth much if there were none.  Here is the state in
which `main` switches to the first of any number of tasks, and the steps that are always possible.

* `PcbArray.boots_firstState` — with the memory that `init_pcb_stack` has filled in.
* `Inv.exists_ret`, `Inv.exists_trap`, `Inv.exists_handover`, ... — the next step of a task.
* `Inv.exists_detour` — a task can call `switch_to`, and have the hart back when another one traps.
-/

set_option autoImplicit false

namespace UcasOs

open Riscv Reg

/-! ## What the hart can do -/

section Possible

variable {T : Type} [DecidableEq T] {L : Layout T} {sym : Symbols} {s : State T} {c d : T}
  {call : Call}

/-- A task that has not run yet gets to user mode. -/
theorem Inv.exists_ret {start : Start} (h : Inv L sym s) (hcur : s.cur = c)
    (hact : s.act c = .fresh start) :
    ∃ s', Step L sym s (.ret c) s' ∧ s'.cur = c ∧ s'.act c = .user ∧
      ∀ d, d ≠ c → s'.act d = s.act d := by
  subst hcur
  exact ⟨s.ret, .ret (.inr ⟨start, hact⟩) (h.framed_of_ret (.inr ⟨start, hact⟩)).2.1, rfl,
    Function.update_self .., fun _ hd => Function.update_of_ne hd ..⟩

/-- A task in user mode can make a system call. -/
theorem Inv.exists_trap (h : Inv L sym s) (hcur : s.cur = c) (hact : s.act c = .user) :
    ∃ s₁ call, Step L sym s (.trap c EXC_SYSCALL) s₁ ∧ s₁.cur = c ∧ s₁.act c = .handler call ∧
      (∀ d, d ≠ c → s₁.act d = s.act d) ∧
        interruptHelper call.scause = .installed .handleSyscall := by
  subst hcur
  refine ⟨s.trap sym EXC_SYSCALL 0, _, .trap EXC_SYSCALL 0 hact h.stvec, rfl,
    Function.update_self .., fun _ hd => Function.update_of_ne hd .., ?_⟩
  have hcall : Call.of (s.trap sym EXC_SYSCALL 0).machine = _ := h.call_trap hact
  exact interruptHelper_eq_handleSyscall.2 (congrArg Call.scause hcall)

omit [DecidableEq T] in
/-- C code can return at once. -/
theorem returns_jump (L : Layout T) (c : T) (call : Call) (m : Machine) :
    Returns L c call m ((m.set sp call.sp).jump call.ra) :=
  ⟨⟨rfl, rfl, fun _ hne => absurd rfl hne⟩, rfl, rfl, rfl⟩

/-- A system call can return at once, with anything. -/
theorem Inv.exists_syscall (h : Inv L sym s) (hcur : s.cur = c) (hact : s.act c = .handler call)
    (hcause : interruptHelper call.scause = .installed .handleSyscall) (result : Word) :
    ∃ s₁ s₂, Step L sym s (.syscall c result) s₁ ∧ Step L sym s₁ (.ret c) s₂ := by
  subst hcur
  have hstep : Step L sym s (.syscall s.cur result) _ :=
    .syscall result hact hcause (returns_jump L s.cur call s.machine)
  have hinv := h.step hstep
  exact ⟨_, _, hstep, .ret (.inl (Function.update_self ..))
    (hinv.framed_of_ret (.inl (Function.update_self ..))).2.1⟩

/-- `do_thread_create` can be called in `interrupt_helper`. -/
theorem Inv.exists_create (hcur : s.cur = c) (hact : s.act c = .handler call)
    (hd : s.act d = .absent) (u e x0 x1 x2 x3 : Word) :
    ∃ s', Step L sym s (.create d (.thread u e x0 x1 x2 x3)) s' ∧ s'.cur = c ∧
      s'.act c = .handler call ∧ s'.act d = .fresh (.thread u e x0 x1 x2 x3) ∧
      ∀ d', d' ≠ d → s'.act d' = s.act d' := by
  subst hcur
  refine ⟨_, .create u e x0 x1 x2 x3 hact hd, rfl, ?_, Function.update_self ..,
    fun _ hne => Function.update_of_ne hne ..⟩
  refine (Function.update_of_ne ?_ ..).trans hact
  rintro hcd
  rw [hcd, hd] at hact
  cases hact

/-- The hart at a call of `switch_to`. -/
def withSwitch (m : Machine) (pcb stack target : Word) : Machine :=
  { m with x := fun r => if r = a0 then m.get tp else if r = a1 then pcb else if r = tp then pcb
    else if r = sp then stack else target }

/-- C code can call `switch_to` at once, with any task that has been created. -/
theorem Inv.exists_handover (h : Inv L sym s) (hact : s.act s.cur = .handler call)
    (hnext : s.act d ≠ .absent) :
    ∃ m, Step L sym s (.switch s.cur d) (s.switch m call d) := by
  obtain ⟨hcall, -⟩ := h.handler hact
  have hin := L.inStack_frame s.cur
  have hm : Switches L sym s.cur d call s.machine
      (withSwitch s.machine (L.pcb d) (L.frame s.cur) (sym.retFromException + 1)) :=
    { csr := rfl
      mode := rfl
      mem := fun _ hne => absurd rfl hne
      a0 := rfl
      a1 := rfl
      tp := rfl
      room := hin.1
      below := by rw [hcall.sp]; exact le_rfl
      aligned := L.frame_aligned s.cur
      ra := by
        change sym.retFromException + 1 ≠ sym.retFromException
        simp }
  exact ⟨_, .switch hact hnext hm⟩

/-- So another task has the hart, and what it was doing has not changed. -/
theorem Inv.exists_switch (h : Inv L sym s) (hcur : s.cur = c) (hact : s.act c = .handler call)
    (hne : d ≠ c) (hnext : s.act d ≠ .absent) :
    ∃ s', Step L sym s (.switch c d) s' ∧ s'.cur = d ∧ s'.act d = s.act d ∧
      ∃ caller, s'.act c = .switched call caller := by
  subst hcur
  obtain ⟨m, hstep⟩ := h.exists_handover hact hnext
  exact ⟨_, hstep, rfl, Function.update_of_ne hne .., m, Function.update_self ..⟩

/-- A task that has got the hart back goes on after its call of `switch_to`. -/
theorem Inv.exists_resume {caller : Machine} (h : Inv L sym s) (hcur : s.cur = c)
    (hact : s.act c = .switched call caller) :
    ∃ s', Step L sym s (.resume c) s' ∧ s'.cur = c ∧ s'.act c = .handler call := by
  subst hcur
  have hrun := h.running
  rw [hact] at hrun
  exact ⟨_, .resume hact hrun.2.2.2, rfl, Function.update_self ..⟩

/-- **A task can have the hart back.**  While it is in `interrupt_helper` another one starts, traps
and switches to it. -/
theorem Inv.exists_detour {start : Start} (h : Inv L sym s) (hcur : s.cur = c)
    (hact : s.act c = .handler call) (hne : d ≠ c) (hother : s.act d = .fresh start) :
    ∃ s', Path L sym s [.switch c d, .ret d, .trap d EXC_SYSCALL, .switch d c, .resume c] s' ∧
      s'.cur = c ∧ s'.act c = .handler call := by
  obtain ⟨s₁, hswitch, hcur₁, hact₁, caller, hwait⟩ :=
    h.exists_switch hcur hact hne (by rw [hother]; simp)
  rw [hother] at hact₁
  have hinv₁ := h.step hswitch
  obtain ⟨s₂, hret, hcur₂, hact₂, hsame₂⟩ := hinv₁.exists_ret hcur₁ hact₁
  have hinv₂ := hinv₁.step hret
  obtain ⟨s₃, call', htrap, hcur₃, hact₃, hsame₃, -⟩ := hinv₂.exists_trap hcur₂ hact₂
  have hinv₃ := hinv₂.step htrap
  have hwait₃ : s₃.act c = .switched call caller := by
    rw [hsame₃ c hne.symm, hsame₂ c hne.symm, hwait]
  obtain ⟨s₄, hback, hcur₄, hact₄, -⟩ :=
    hinv₃.exists_switch hcur₃ hact₃ hne.symm (by rw [hwait₃]; simp)
  rw [hwait₃] at hact₄
  obtain ⟨s₅, hresume, hcur₅, hact₅⟩ := (hinv₃.step hback).exists_resume hcur₄ hact₄
  exact ⟨s₅, .snoc (.snoc (.snoc (.snoc (.snoc (.nil s) hswitch) hret) htrap) hback) hresume,
    hcur₅, hact₅⟩

end Possible

/-! ## The first task -/

namespace PcbArray

variable (p : PcbArray) (sym : Symbols) (entry : Fin stackCapacity → Word)

/-- What `init_pcb` gives to `init_pcb_stack`. -/
def starts : List (Fin stackCapacity × Start) :=
  List.ofFn fun i : Fin p.tasks =>
    let c : Fin stackCapacity := ⟨i, i.isLt.trans_le (p.tasks_le.trans (by decide))⟩
    (c, .task (Mm.stacksOf c).userStack (entry c))

theorem nodup_starts : ((p.starts entry).map Prod.fst).Nodup := by
  rw [starts, List.map_ofFn, List.nodup_ofFn]
  exact fun i j h => Fin.ext (Fin.mk.inj h)

variable {p entry} in
theorem mem_starts {q : Fin stackCapacity × Start} : q ∈ p.starts entry ↔
    (q.1 : ℕ) < p.tasks ∧ q.2 = .task (Mm.stacksOf q.1).userStack (entry q.1) := by
  rw [starts, List.mem_ofFn]
  constructor
  · rintro ⟨i, rfl⟩
    exact ⟨i.isLt, rfl⟩
  · rintro ⟨hlt, hstart⟩
    exact ⟨⟨q.1, hlt⟩, Prod.ext rfl hstart.symm⟩

theorem mem_map_starts {c : Fin stackCapacity} (hc : (c : ℕ) < p.tasks) :
    c ∈ (p.starts entry).map Prod.fst :=
  List.mem_map.2 ⟨(c, .task (Mm.stacksOf c).userStack (entry c)), mem_starts.2 ⟨hc, rfl⟩, rfl⟩

/-- The hart when `main` switches to the first task. -/
def atSwitch (first : Fin stackCapacity) : Machine where
  x r := if r = tp ∨ r = a1 then p.layout.pcb first else if r = sp then FREEMEM_KERNEL else
    INIT_KERNEL_STACK
  csr c := if c = .stvec then sym.exceptionHandlerEntry else 0
  mem := p.layout.initStacks sym (p.starts entry) fun _ => 0
  pc := 0
  mode := .supervisor

/-- The first task is about to run. -/
def firstState (first : Fin stackCapacity) : State (Fin stackCapacity) where
  machine := run switchTo (p.atSwitch sym entry first)
  cur := first
  act c := if (c : ℕ) < p.tasks then .fresh (.task (Mm.stacksOf c).userStack (entry c)) else .absent

theorem act_firstState (first c : Fin stackCapacity) : (p.firstState sym entry first).act c =
    if (c : ℕ) < p.tasks then .fresh (.task (Mm.stacksOf c).userStack (entry c)) else .absent :=
  rfl

variable {p sym entry} in
/-- A memory that has what `init_pcb_stack` writes, when the tasks have not run yet. -/
theorem loaded {act : Fin stackCapacity → Activity} {mem mem₀ : Word → Word}
    (hact : ∀ c, act c = if (c : ℕ) < p.tasks then
      .fresh (.task (Mm.stacksOf c).userStack (entry c)) else .absent)
    (hmem : mem = p.layout.initStacks sym (p.starts entry) mem₀) :
    Loaded p.layout sym (p.starts entry) mem act where
  nodup := p.nodup_starts entry
  task q hq := ⟨_, _, (mem_starts.1 hq).2⟩
  fresh q hq := by
    obtain ⟨hlt, hstart⟩ := mem_starts.1 hq
    rw [hact, if_pos hlt, hstart]
  absent c hc := by
    rw [hact, if_neg fun hlt => hc (p.mem_map_starts entry hlt)]
  mem := ⟨mem₀, fun _ _ _ => congrFun hmem _⟩

/-- What is between `pcb` and the kernel pages is nobody's own. -/
theorem mem_free_of_le {a : Word} (h : INIT_KERNEL_STACK.toNat ≤ a.toNat)
    (ha : a.toNat < FREEMEM_KERNEL.toNat) : a ∈ p.layout.free :=
  p.mem_free ha (.inr (p.below.trans h))

theorem boots_firstState {first : Fin stackCapacity} (hfirst : (first : ℕ) < p.tasks) :
    Boots p.layout sym (p.atSwitch sym entry first) (p.firstState sym entry first) where
  machine := rfl
  loaded := ⟨_, loaded (p.act_firstState sym entry first) rfl⟩
  cur := by
    change (p.firstState sym entry first).act first ≠ .absent
    rw [act_firstState, if_pos hfirst]
    exact fun h => nomatch h
  stvec := rfl
  mode := rfl
  masked := by simp [atSwitch]
  tp := rfl
  a1 := rfl
  free := by
    have ha0 : (p.atSwitch sym entry first).get a0 = INIT_KERNEL_STACK := rfl
    have hsp : (p.atSwitch sym entry first).get sp = FREEMEM_KERNEL := rfl
    rw [ha0, hsp]
    refine ⟨p.mem_free_of_le (by decide) (by decide), fun k hk => ?_⟩
    have hk : k.toNat < 112 := hk
    have hn : (FREEMEM_KERNEL - SWITCH_TO_SIZE + k).toNat = 0x50500f90 + k.toNat := by
      have hb : FREEMEM_KERNEL - SWITCH_TO_SIZE = 0x50500f90 := by decide
      rw [hb, BitVec.toNat_add, show (0x50500f90 : Word).toNat = 0x50500f90 from rfl]
      omega
    have hf : FREEMEM_KERNEL.toNat = 0x50501000 := rfl
    have hi : INIT_KERNEL_STACK.toNat = 0x50500000 := rfl
    exact p.mem_free_of_le (by omega) (by omega)

end PcbArray

/-- Two tasks, with their PCBs at `0x50400000`. -/
def twoPcbs : PcbArray := ⟨0x50400000, 2, by decide, by decide, by decide⟩

def firstTask : Fin stackCapacity := ⟨0, by decide⟩
def secondTask : Fin stackCapacity := ⟨1, by decide⟩

/-- The first of two tasks is about to run. -/
theorem exists_boots_twoPcbs (sym : Symbols) (entry : Fin stackCapacity → Word) :
    ∃ m s, Boots twoPcbs.layout sym m s ∧ s.cur = firstTask ∧
      s.act firstTask = .fresh (.task (Mm.stacksOf 0).userStack (entry firstTask)) ∧
      s.act secondTask = .fresh (.task (Mm.stacksOf 1).userStack (entry secondTask)) ∧
      ∀ c, c ≠ firstTask → c ≠ secondTask → s.act c = .absent := by
  refine ⟨_, _, twoPcbs.boots_firstState sym entry (by decide : (firstTask : ℕ) < 2), rfl, rfl,
    rfl, fun c h0 h1 => ?_⟩
  rw [PcbArray.act_firstState, if_neg]
  intro hlt
  have hlt : (c : ℕ) < 2 := hlt
  rcases Nat.lt_succ_iff_lt_or_eq.1 hlt with h | h
  · exact h0 (Fin.ext (Nat.lt_one_iff.1 h))
  · exact h1 (Fin.ext h)

end UcasOs
