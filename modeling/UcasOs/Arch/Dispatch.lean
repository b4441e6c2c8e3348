import UcasOs.Arch.Entry

/-!
# Which handler a trap gets

`interrupt_helper` of `kernel/irq/irq.c` and `handle_syscall` of `kernel/syscall/syscall.c` take
function pointers out of tables that `init_exception` and `init_syscall` fill in, and do not check
what they take.

* `excTable`, `irqTable`, `syscallTable` — the tables.
* `dispatches_iff` — the causes and system call numbers for which all the pointers taken are ones
  that were put in.
-/

set_option autoImplicit false

namespace UcasOs

open Riscv Reg

/-! ## The tables -/

/-- What an array of pointers gives at an index. -/
inductive Fetch (α : Type)
  | installed (f : α)
  | null
  | outOfTable
  deriving DecidableEq

/-- `table[i]`, of an array whose entries are null unless they were set. -/
def fetch {α : Type} {n : ℕ} (table : Fin n → Option α) (i : Word) : Fetch α :=
  if h : i.toNat < n then
    match table ⟨i.toNat, h⟩ with
    | some f => .installed f
    | none => .null
  else .outOfTable

/-- The functions that `init_exception` puts into its tables. -/
inductive Handler
  | handleSyscall
  | handleIrqTimer
  | handleOther
  deriving DecidableEq

/-- `IRQC_COUNT` -/
abbrev IRQC_COUNT : ℕ := 12

/-- `EXCC_COUNT` -/
abbrev EXCC_COUNT : ℕ := 16

/-- `NUM_SYSCALLS` -/
abbrev NUM_SYSCALLS : ℕ := 96

/-- `exc_table`, as `init_exception` leaves it. -/
def excTable : Fin EXCC_COUNT → Option Handler :=
  updates (fun _ => none)
    [(8, some .handleSyscall),  -- EXCC_SYSCALL
     (0, some .handleOther),    -- EXCC_INST_MISALIGNED
     (1, some .handleOther),    -- EXCC_INST_ACCESS
     (3, some .handleOther),    -- EXCC_BREAKPOINT
     (5, some .handleOther),    -- EXCC_LOAD_ACCESS
     (7, some .handleOther),    -- EXCC_STORE_ACCESS
     (12, some .handleOther),   -- EXCC_INST_PAGE_FAULT
     (13, some .handleOther),   -- EXCC_LOAD_PAGE_FAULT
     (15, some .handleOther)]   -- EXCC_STORE_PAGE_FAULT

/-- `irq_table`, as `init_exception` leaves it. -/
def irqTable : Fin IRQC_COUNT → Option Handler :=
  updates (fun _ => none)
    [(0, some .handleOther),    -- IRQC_U_SOFT
     (1, some .handleOther),    -- IRQC_S_SOFT
     (3, some .handleOther),    -- IRQC_M_SOFT
     (4, some .handleOther),    -- IRQC_U_TIMER
     (5, some .handleIrqTimer), -- IRQC_S_TIMER
     (7, some .handleOther),    -- IRQC_M_TIMER
     (8, some .handleOther),    -- IRQC_U_EXT
     (9, some .handleOther),    -- IRQC_S_EXT
     (11, some .handleOther)]   -- IRQC_M_EXT

/-- The functions that `init_syscall` puts into its table. -/
inductive Syscall
  | doSleep
  | doScheduler
  | screenWrite
  | screenMoveCursor
  | screenReflush
  | getTimeBase
  | getTicks
  | doMutexLockInit
  | doMutexLockAcquire
  | doMutexLockRelease
  | doExit
  | doThreadCreate
  | doThreadYield
  deriving DecidableEq

/-- `syscall`, as `init_syscall` leaves it. -/
def syscallTable : Fin NUM_SYSCALLS → Option Syscall :=
  updates (fun _ => none)
    [(2, some .doSleep),             -- SYSCALL_SLEEP
     (7, some .doScheduler),         -- SYSCALL_YIELD
     (20, some .screenWrite),        -- SYSCALL_WRITE
     (22, some .screenMoveCursor),   -- SYSCALL_CURSOR
     (23, some .screenReflush),      -- SYSCALL_REFLUSH
     (30, some .getTimeBase),        -- SYSCALL_GET_TIMEBASE
     (31, some .getTicks),           -- SYSCALL_GET_TICK
     (40, some .doMutexLockInit),    -- SYSCALL_LOCK_INIT
     (41, some .doMutexLockAcquire), -- SYSCALL_LOCK_ACQ
     (42, some .doMutexLockRelease), -- SYSCALL_LOCK_RELEASE
     (1, some .doExit),              -- SYSCALL_EXIT
     (50, some .doThreadCreate),     -- SYSCALL_THREAD_CREATE
     (51, some .doThreadYield)]      -- SYSCALL_THREAD_YIELD

/-! ## The functions that use them -/

/-- `regs->regs[i]`: also where `i` is the number of a field that comes after the array. -/
def element (regs i : Word) : Word := regs + (i <<< 3)

/-- The handler that `interrupt_helper` calls. -/
def interruptHelper (scause : Word) : Fetch Handler :=
  if scause &&& SCAUSE_IRQ_FLAG ≠ 0 then fetch irqTable (scause &&& ~~~SCAUSE_IRQ_FLAG)
  else fetch excTable scause

/-- The function that `handle_syscall` calls. -/
def syscallOf (regs : Word) (mem : Word → Word) : Fetch Syscall :=
  fetch syscallTable (mem (element regs (OFFSET_REG_A7 >>> 3)))

/-- What `handle_syscall` writes when that function has returned `result`. -/
def handleSyscall (regs result : Word) (mem : Word → Word) : Word → Word :=
  let mem := Function.update mem (element regs (OFFSET_REG_A0 >>> 3)) result
  let sepc := element regs (OFFSET_REG_SEPC >>> 3)
  Function.update mem sepc (mem sepc + 4)

/-- `handle_syscall` writes to the frame only. -/
theorem handleSyscall_of_notMem {p result a : Word} {mem : Word → Word}
    (ha : ∀ k < OFFSET_SIZE, p + k ≠ a) :
    handleSyscall p result mem a = mem a := by
  have hA0 : a ≠ element p (OFFSET_REG_A0 >>> 3) := fun he => ha (OFFSET_REG_A0 >>> 3 <<< 3)
    (by decide) he.symm
  have hsepc : a ≠ element p (OFFSET_REG_SEPC >>> 3) := fun he => ha (OFFSET_REG_SEPC >>> 3 <<< 3)
    (by decide) he.symm
  rw [handleSyscall, Function.update_of_ne hsepc, Function.update_of_ne hA0]

namespace RegsContext

/-- The return from a system call, in a `regs_context_t`. -/
def sysret (result : Word) (c : RegsContext) : RegsContext :=
  { c with regs := Function.update c.regs a0 result, sepc := c.sepc + 4 }

theorem regs_sysret (result : Word) (c : RegsContext) :
    (c.sysret result).regs = Function.update c.regs a0 result := rfl

/-- **What a system call changes in the `regs_context_t`.** -/
theorem read_handleSyscall (p result : Word) (mem : Word → Word) :
    read p (handleSyscall p result mem) = (read p mem).sysret result := by
  have hA0 : element p (OFFSET_REG_A0 >>> 3) = p + regSlot a0 := rfl
  have hsepc : element p (OFFSET_REG_SEPC >>> 3) = p + OFFSET_REG_SEPC := rfl
  have hne : ∀ r : Reg, OFFSET_REG_SEPC ≠ regSlot r := fun r => (regSlot_ne_last r).1.symm
  rw [handleSyscall, hA0, hsepc]
  apply RegsContext.ext
  · funext r
    rcases eq_or_ne r 0 with rfl | hr
    · rfl
    rw [regs_read hr, Function.update_of_ne fun h => hne r ((BitVec.add_right_inj p).1 h).symm]
    rcases eq_or_ne r a0 with rfl | ha
    · rw [Function.update_self, regs_sysret, Function.update_self]
    · rw [Function.update_of_ne fun h => ha (regSlot_injective ((BitVec.add_right_inj p).1 h)),
        regs_sysret, Function.update_of_ne ha, regs_read hr]
  · have h1 : OFFSET_REG_SSTATUS ≠ OFFSET_REG_SEPC := by decide
    have h2 : OFFSET_REG_SSTATUS ≠ regSlot a0 := (regSlot_ne_last a0).2.symm
    rw [sstatus_read, Function.update_of_ne fun h => h1 ((BitVec.add_right_inj p).1 h),
      Function.update_of_ne fun h => h2 ((BitVec.add_right_inj p).1 h)]
    rfl
  · rw [sepc_read, Function.update_self,
      Function.update_of_ne fun h => hne a0 ((BitVec.add_right_inj p).1 h)]
    rfl

end RegsContext

/-! ## What can be looked up -/

/-- The members of `IrqCode`. -/
def irqCodes : List Word := [0, 1, 3, 4, 5, 7, 8, 9, 11]

/-- The members of `ExcCode`. -/
def excCodes : List Word := [0, 1, 3, 5, 7, 8, 12, 13, 15]

/-- The numbers of the system calls. -/
def syscallNumbers : List Word := [1, 2, 7, 20, 22, 23, 30, 31, 40, 41, 42, 50, 51]

section Fetch

variable {α : Type} {n : ℕ} {table : Fin n → Option α} {codes : List Word} {i scause : Word}

/-- A table gives a function at the codes of its entries and nowhere else. -/
theorem exists_fetch_iff (hc : ∀ i ∈ codes, i.toNat < n)
    (ht : ∀ j : Fin n, (table j).isSome ↔ BitVec.ofNat 64 j ∈ codes) :
    (∃ f, fetch table i = .installed f) ↔ i ∈ codes := by
  have hfetch : (∃ f, fetch table i = .installed f) ↔
      ∃ h : i.toNat < n, (table ⟨i.toNat, h⟩).isSome := by
    rw [fetch]
    split
    · next hi =>
      cases htable : table ⟨i.toNat, hi⟩ with
      | none => simp [hi, htable]
      | some f => simp [hi, htable]
    · next hi => simp [hi]
  have hof : BitVec.ofNat 64 i.toNat = i := BitVec.ofNat_toNat .. |>.trans (BitVec.setWidth_eq i)
  rw [hfetch]
  constructor
  · rintro ⟨hi, h⟩
    rw [← hof]
    exact (ht ⟨i.toNat, hi⟩).1 h
  · intro h
    refine ⟨hc i h, (ht ⟨i.toNat, hc i h⟩).2 ?_⟩
    rw [hof]
    exact h

theorem fetch_excTable : (∃ f, fetch excTable i = .installed f) ↔ i ∈ excCodes :=
  exists_fetch_iff (by simp [excCodes, EXCC_COUNT]) (by decide)

theorem fetch_irqTable : (∃ f, fetch irqTable i = .installed f) ↔ i ∈ irqCodes :=
  exists_fetch_iff (by simp [irqCodes, IRQC_COUNT]) (by decide)

theorem fetch_syscallTable : (∃ f, fetch syscallTable i = .installed f) ↔ i ∈ syscallNumbers :=
  exists_fetch_iff (by simp [syscallNumbers, NUM_SYSCALLS]) (by decide)

end Fetch

/-! ## Whether the trap is dispatched -/

/-- The pointers that `interrupt_helper` takes, and `handle_syscall` if it is called, were put into
their tables: `m` is the hart at the call of `interrupt_helper`. -/
def Dispatches (m : Machine) : Prop :=
  ∃ h, interruptHelper (m.get a2) = .installed h ∧
    (h = .handleSyscall → ∃ f, syscallOf (m.get a0) m.mem = .installed f)

/-- The causes that `init_exception` provides for. -/
def providedCauses : List Word := irqCodes.map (SCAUSE_IRQ_FLAG ||| ·) ++ excCodes

theorem irq_eq {scause : Word} (h : scause &&& SCAUSE_IRQ_FLAG ≠ 0) :
    scause = SCAUSE_IRQ_FLAG ||| (scause &&& ~~~SCAUSE_IRQ_FLAG) := by
  have hflag : SCAUSE_IRQ_FLAG = BitVec.twoPow 64 63 := rfl
  have hbit : scause.getLsbD 63 = true := by
    rw [hflag, BitVec.and_twoPow] at h
    by_contra hb
    exact h (if_neg hb)
  apply BitVec.eq_of_getLsbD_eq
  intro i hi
  simp only [hflag, BitVec.getLsbD_or, BitVec.getLsbD_and, BitVec.getLsbD_not, BitVec.getLsbD_twoPow]
  rcases eq_or_ne i 63 with rfl | hne
  · simpa using hbit
  · simp [hne.symm, hi]

theorem exists_interruptHelper_iff {scause : Word} :
    (∃ h, interruptHelper scause = .installed h) ↔ scause ∈ providedCauses := by
  have hexc : ∀ i ∈ excCodes, i &&& SCAUSE_IRQ_FLAG = 0 := by simp [excCodes, SCAUSE_IRQ_FLAG]
  have hirq : ∀ i ∈ irqCodes, (SCAUSE_IRQ_FLAG ||| i) &&& SCAUSE_IRQ_FLAG ≠ 0 ∧
      (SCAUSE_IRQ_FLAG ||| i) &&& ~~~SCAUSE_IRQ_FLAG = i := by simp [irqCodes, SCAUSE_IRQ_FLAG]
  rw [providedCauses, List.mem_append, List.mem_map]
  by_cases hf : scause &&& SCAUSE_IRQ_FLAG = 0
  · rw [interruptHelper, if_neg (not_not.2 hf), fetch_excTable]
    constructor
    · exact .inr
    · rintro (⟨i, hi, rfl⟩ | h)
      · exact absurd hf (hirq i hi).1
      · exact h
  · rw [interruptHelper, if_pos hf, fetch_irqTable]
    constructor
    · intro h
      exact .inl ⟨_, h, (irq_eq hf).symm⟩
    · rintro (⟨i, hi, rfl⟩ | h)
      · rw [(hirq i hi).2]
        exact hi
      · exact absurd (hexc _ h) hf

/-- Only the system call is handled by `handle_syscall`. -/
theorem interruptHelper_eq_handleSyscall {scause : Word} :
    interruptHelper scause = .installed .handleSyscall ↔ scause = EXC_SYSCALL := by
  have hall : providedCauses.all
      (fun c => interruptHelper c = .installed .handleSyscall → c = EXC_SYSCALL) := by decide
  constructor
  · intro h
    have hmem := exists_interruptHelper_iff.1 ⟨_, h⟩
    exact of_decide_eq_true (List.all_eq_true.1 hall _ hmem) h
  · rintro rfl
    decide

/-- **A trap is dispatched to functions that were put into the tables exactly if** its cause is one
that `init_exception` provides for, and, for a system call, if what the task has in `a7` is the
number of one. -/
theorem dispatches_iff (sym : Symbols) (m : Machine) (cause tval : Word) :
    Dispatches (run (exceptionHandlerEntry sym) (m.takeTrap cause tval)) ↔
      cause ∈ providedCauses ∧ (cause = EXC_SYSCALL → m.get a7 ∈ syscallNumbers) := by
  set m' := run (exceptionHandlerEntry sym) (m.takeTrap cause tval) with hm'
  obtain ⟨-, -, ha0, -, ha2⟩ := call_exceptionHandlerEntry sym (m := m.takeTrap cause tval)
  have hcause : m'.get a2 = cause := ha2
  have ha7 : m'.mem (element (m'.get a0) (OFFSET_REG_A7 >>> 3)) = m.get a7 := by
    have hread := congrArg (·.regs a7) (read_exceptionHandlerEntry sym (m := m.takeTrap cause tval))
    rw [RegsContext.regs_read (by decide), ← ha0] at hread
    exact hread
  rw [Dispatches, hcause, syscallOf, ha7, ← exists_interruptHelper_iff]
  constructor
  · rintro ⟨h, hh, hsys⟩
    refine ⟨⟨h, hh⟩, fun he => fetch_syscallTable.1 (hsys ?_)⟩
    rw [interruptHelper_eq_handleSyscall.2 he] at hh
    exact (Fetch.installed.inj hh).symm
  · rintro ⟨⟨h, hh⟩, hsys⟩
    refine ⟨h, hh, ?_⟩
    rintro rfl
    exact fetch_syscallTable.2 (hsys (interruptHelper_eq_handleSyscall.1 hh))

/-- The causes a trap to supervisor mode can have: the exceptions, from the misaligned instruction
to the store page fault, and its three interrupts. -/
def supervisorCauses : List Word :=
  [0, 1, 2, 3, 4, 5, 6, 7, 8, 9, 12, 13, 15] ++ [1, 5, 9].map (SCAUSE_IRQ_FLAG ||| ·)

/-- An illegal instruction, exception 2, gets the null pointer that is left in `exc_table[2]`. -/
theorem illegal_instruction_not_dispatched :
    ¬ ∀ (sym : Symbols) (m : Machine) (cause tval : Word), cause ∈ supervisorCauses →
      m.get a7 ∈ syscallNumbers →
        Dispatches (run (exceptionHandlerEntry sym) (m.takeTrap cause tval)) := by
  intro h
  let m : Machine := ⟨fun _ => 1, 0, 0, 0, .user⟩
  obtain ⟨f, hf, -⟩ := h ⟨0, 0, 0⟩ m 2 0 (by simp [supervisorCauses])
    (by simp [syscallNumbers]; decide)
  obtain ⟨-, -, -, -, ha2⟩ := call_exceptionHandlerEntry ⟨0, 0, 0⟩ (m := m.takeTrap 2 0)
  have hcause : (m.takeTrap 2 0).csr .scause = 2 := rfl
  rw [ha2, hcause] at hf
  exact absurd hf (by cases f <;> decide)

end UcasOs
