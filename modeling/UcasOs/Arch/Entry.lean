import UcasOs.Lib.Riscv

/-!
# The way into the kernel and out of it

`arch/riscv/kernel/entry.S`, instruction by instruction, and what `kernel/irq/irq.c` and
`kernel/syscall/syscall.c` do with the registers saved there.

* `RegsContext` — a `regs_context_t`, as `read` from memory or as held by the hart.
* `read_exceptionHandlerEntry`, `context_retFromException` — what the hart holds at a trap is what
  the memory holds after `exception_handler_entry`, and the other way round for
  `ret_from_exception`.  About fifty offsets and the scratch registers have to agree for that.
* `read_handleSyscall` — what a system call changes about it.
* `switchTo_eq` — `switch_to` saves the registers of one task and then loads those of another.
-/

set_option autoImplicit false

namespace UcasOs

open Riscv Reg

/-! ## `asm/regs.h` and `csr.h` -/

def OFFSET_REG_RA : Word := 8
def OFFSET_REG_SP : Word := 16
def OFFSET_REG_GP : Word := 24
def OFFSET_REG_TP : Word := 32
def OFFSET_REG_T0 : Word := 40
def OFFSET_REG_T1 : Word := 48
def OFFSET_REG_T2 : Word := 56
def OFFSET_REG_S0 : Word := 64
def OFFSET_REG_S1 : Word := 72
def OFFSET_REG_A0 : Word := 80
def OFFSET_REG_A1 : Word := 88
def OFFSET_REG_A2 : Word := 96
def OFFSET_REG_A3 : Word := 104
def OFFSET_REG_A4 : Word := 112
def OFFSET_REG_A5 : Word := 120
def OFFSET_REG_A6 : Word := 128
def OFFSET_REG_A7 : Word := 136
def OFFSET_REG_S2 : Word := 144
def OFFSET_REG_S3 : Word := 152
def OFFSET_REG_S4 : Word := 160
def OFFSET_REG_S5 : Word := 168
def OFFSET_REG_S6 : Word := 176
def OFFSET_REG_S7 : Word := 184
def OFFSET_REG_S8 : Word := 192
def OFFSET_REG_S9 : Word := 200
def OFFSET_REG_S10 : Word := 208
def OFFSET_REG_S11 : Word := 216
def OFFSET_REG_T3 : Word := 224
def OFFSET_REG_T4 : Word := 232
def OFFSET_REG_T5 : Word := 240
def OFFSET_REG_T6 : Word := 248
def OFFSET_REG_SSTATUS : Word := 256
def OFFSET_REG_SEPC : Word := 264

/-- `OFFSET_SIZE`, the size of a `regs_context_t`. -/
def OFFSET_SIZE : Word := 288

def PCB_KERNEL_SP : Word := 0
def PCB_USER_SP : Word := 8

def SWITCH_TO_RA : Word := 0
def SWITCH_TO_SP : Word := 8
def SWITCH_TO_S0 : Word := 16
def SWITCH_TO_S1 : Word := 24
def SWITCH_TO_S2 : Word := 32
def SWITCH_TO_S3 : Word := 40
def SWITCH_TO_S4 : Word := 48
def SWITCH_TO_S5 : Word := 56
def SWITCH_TO_S6 : Word := 64
def SWITCH_TO_S7 : Word := 72
def SWITCH_TO_S8 : Word := 80
def SWITCH_TO_S9 : Word := 88
def SWITCH_TO_S10 : Word := 96
def SWITCH_TO_S11 : Word := 104

/-- `SWITCH_TO_SIZE`, the size of a `switchto_context_t`. -/
def SWITCH_TO_SIZE : Word := 112

def SR_SPIE : Word := 0x20
def SR_SUM : Word := 0x40000
def SR_FS : Word := 0x6000

def SCAUSE_IRQ_FLAG : Word := 1 <<< 63
def IRQ_S_TIMER : Word := 5
def EXC_SYSCALL : Word := 8

/-! ## `entry.S` -/

/-- The addresses of what the assembly refers to by name. -/
structure Symbols where
  /-- `exception_handler_entry` -/
  exceptionHandlerEntry : Word
  /-- `interrupt_helper` -/
  interruptHelper : Word
  /-- `ret_from_exception` -/
  retFromException : Word

/-- `SAVE_CONTEXT` -/
def SAVE_CONTEXT : List Instr :=
  [.csrw .sscratch sp,
   .ld sp PCB_KERNEL_SP tp,
   .sd ra OFFSET_REG_RA sp,
   .sd gp OFFSET_REG_GP sp,
   .sd tp OFFSET_REG_TP sp,
   .sd t0 OFFSET_REG_T0 sp,
   .sd t1 OFFSET_REG_T1 sp,
   .sd t2 OFFSET_REG_T2 sp,
   .sd s0 OFFSET_REG_S0 sp,
   .sd s1 OFFSET_REG_S1 sp,
   .sd a0 OFFSET_REG_A0 sp,
   .sd a1 OFFSET_REG_A1 sp,
   .sd a2 OFFSET_REG_A2 sp,
   .sd a3 OFFSET_REG_A3 sp,
   .sd a4 OFFSET_REG_A4 sp,
   .sd a5 OFFSET_REG_A5 sp,
   .sd a6 OFFSET_REG_A6 sp,
   .sd a7 OFFSET_REG_A7 sp,
   .sd s2 OFFSET_REG_S2 sp,
   .sd s3 OFFSET_REG_S3 sp,
   .sd s4 OFFSET_REG_S4 sp,
   .sd s5 OFFSET_REG_S5 sp,
   .sd s6 OFFSET_REG_S6 sp,
   .sd s7 OFFSET_REG_S7 sp,
   .sd s8 OFFSET_REG_S8 sp,
   .sd s9 OFFSET_REG_S9 sp,
   .sd s10 OFFSET_REG_S10 sp,
   .sd s11 OFFSET_REG_S11 sp,
   .sd t3 OFFSET_REG_T3 sp,
   .sd t4 OFFSET_REG_T4 sp,
   .sd t5 OFFSET_REG_T5 sp,
   .sd t6 OFFSET_REG_T6 sp,
   .li t0 (SR_SUM ||| SR_FS),
   .csrr t1 .sscratch,
   .sd t1 OFFSET_REG_SP sp,
   .csrr t1 .sepc,
   .sd t1 OFFSET_REG_SEPC sp,
   .csrr t1 .sstatus,
   .sd t1 OFFSET_REG_SSTATUS sp,
   .csrw .sstatus t0]

/-- `RESTORE_CONTEXT` -/
def RESTORE_CONTEXT : List Instr :=
  [.ld ra OFFSET_REG_RA sp,
   .ld gp OFFSET_REG_GP sp,
   .ld tp OFFSET_REG_TP sp,
   .ld t0 OFFSET_REG_T0 sp,
   .ld t2 OFFSET_REG_T2 sp,
   .ld s0 OFFSET_REG_S0 sp,
   .ld s1 OFFSET_REG_S1 sp,
   .ld a0 OFFSET_REG_A0 sp,
   .ld a1 OFFSET_REG_A1 sp,
   .ld a2 OFFSET_REG_A2 sp,
   .ld a3 OFFSET_REG_A3 sp,
   .ld a4 OFFSET_REG_A4 sp,
   .ld a5 OFFSET_REG_A5 sp,
   .ld a6 OFFSET_REG_A6 sp,
   .ld a7 OFFSET_REG_A7 sp,
   .ld s2 OFFSET_REG_S2 sp,
   .ld s3 OFFSET_REG_S3 sp,
   .ld s4 OFFSET_REG_S4 sp,
   .ld s5 OFFSET_REG_S5 sp,
   .ld s6 OFFSET_REG_S6 sp,
   .ld s7 OFFSET_REG_S7 sp,
   .ld s8 OFFSET_REG_S8 sp,
   .ld s9 OFFSET_REG_S9 sp,
   .ld s10 OFFSET_REG_S10 sp,
   .ld s11 OFFSET_REG_S11 sp,
   .ld t3 OFFSET_REG_T3 sp,
   .ld t4 OFFSET_REG_T4 sp,
   .ld t5 OFFSET_REG_T5 sp,
   .ld t6 OFFSET_REG_T6 sp,
   .ld t1 OFFSET_REG_SEPC sp,
   .csrw .sepc t1,
   .ld t1 OFFSET_REG_SSTATUS sp,
   .csrw .sstatus t1,
   .ld t1 OFFSET_REG_T1 sp,
   .sd sp PCB_KERNEL_SP tp,
   .ld sp OFFSET_REG_SP sp]

/-- `switch_to`: the address of the previous PCB is in `a0`, that of the next one in `a1`. -/
def switchTo : List Instr :=
  [.addi sp sp (-SWITCH_TO_SIZE),
   .sd sp PCB_KERNEL_SP a0,
   .sd ra SWITCH_TO_RA sp,
   .sd sp SWITCH_TO_SP sp,
   .sd s0 SWITCH_TO_S0 sp,
   .sd s1 SWITCH_TO_S1 sp,
   .sd s2 SWITCH_TO_S2 sp,
   .sd s3 SWITCH_TO_S3 sp,
   .sd s4 SWITCH_TO_S4 sp,
   .sd s5 SWITCH_TO_S5 sp,
   .sd s6 SWITCH_TO_S6 sp,
   .sd s7 SWITCH_TO_S7 sp,
   .sd s8 SWITCH_TO_S8 sp,
   .sd s9 SWITCH_TO_S9 sp,
   .sd s10 SWITCH_TO_S10 sp,
   .sd s11 SWITCH_TO_S11 sp,
   .ld sp PCB_KERNEL_SP a1,
   .ld ra SWITCH_TO_RA sp,
   .ld sp SWITCH_TO_SP sp,
   .ld s0 SWITCH_TO_S0 sp,
   .ld s1 SWITCH_TO_S1 sp,
   .ld s2 SWITCH_TO_S2 sp,
   .ld s3 SWITCH_TO_S3 sp,
   .ld s4 SWITCH_TO_S4 sp,
   .ld s5 SWITCH_TO_S5 sp,
   .ld s6 SWITCH_TO_S6 sp,
   .ld s7 SWITCH_TO_S7 sp,
   .ld s8 SWITCH_TO_S8 sp,
   .ld s9 SWITCH_TO_S9 sp,
   .ld s10 SWITCH_TO_S10 sp,
   .ld s11 SWITCH_TO_S11 sp,
   .addi sp sp SWITCH_TO_SIZE,
   .jr ra]

/-- `ret_from_exception` -/
def retFromException : List Instr := RESTORE_CONTEXT ++ [.sret]

/-- `exception_handler_entry` -/
def exceptionHandlerEntry (sym : Symbols) : List Instr :=
  SAVE_CONTEXT ++
    [.la ra sym.retFromException,
     .mv a0 sp,
     .csrr a1 .stval,
     .csrr a2 .scause,
     .j sym.interruptHelper]

/-! ## A trap and the return from it -/

/-- A `regs_context_t`, as far as the kernel uses it: `regs`, `sstatus` and `sepc`. -/
@[ext] structure RegsContext where
  regs : Reg → Word
  sstatus : Word
  sepc : Word

/-- Where `regs[r]` is. -/
def regSlot (r : Reg) : Word := BitVec.ofNat 64 (8 * r)

theorem regSlot_injective : Function.Injective regSlot := by
  intro r r' h
  have hnat := congrArg BitVec.toNat h
  rw [regSlot, regSlot, BitVec.toNat_ofNat, BitVec.toNat_ofNat] at hnat
  exact Fin.ext (by omega)

/-- The slots of `sepc` and `sstatus` are behind those of the registers. -/
theorem regSlot_ne_last :
    ∀ r : Reg, regSlot r ≠ OFFSET_REG_SEPC ∧ regSlot r ≠ OFFSET_REG_SSTATUS := by decide

namespace RegsContext

/-- The `regs_context_t` at `p`.  Nothing is kept in the slot of `x0`. -/
def read (p : Word) (mem : Word → Word) : RegsContext where
  regs r := if r = 0 then 0 else mem (p + regSlot r)
  sstatus := mem (p + OFFSET_REG_SSTATUS)
  sepc := mem (p + OFFSET_REG_SEPC)

theorem regs_read {r : Reg} (hr : r ≠ 0) (p : Word) (mem : Word → Word) :
    (read p mem).regs r = mem (p + regSlot r) := if_neg hr

theorem sstatus_read (p : Word) (mem : Word → Word) :
    (read p mem).sstatus = mem (p + OFFSET_REG_SSTATUS) := rfl

theorem sepc_read (p : Word) (mem : Word → Word) :
    (read p mem).sepc = mem (p + OFFSET_REG_SEPC) := rfl

/-- A `regs_context_t` is its memory. -/
theorem read_congr {p : Word} {mem mem' : Word → Word}
    (h : ∀ k < OFFSET_SIZE, mem' (p + k) = mem (p + k)) :
    read p mem' = read p mem := by
  have hslot : ∀ r : Reg, regSlot r < OFFSET_SIZE := by decide
  apply RegsContext.ext
  · funext r
    rcases eq_or_ne r 0 with rfl | hr
    · rfl
    · rw [regs_read hr, regs_read hr, h _ (hslot r)]
  · rw [sstatus_read, sstatus_read, h _ (by decide)]
  · rw [sepc_read, sepc_read, h _ (by decide)]

/-- What the hart holds of a `regs_context_t`. -/
def held (m : Machine) : RegsContext where
  regs := m.get
  sstatus := m.csr .sstatus
  sepc := m.csr .sepc

end RegsContext

/-- The registers `SAVE_CONTEXT` stores one after the other. -/
def savedRegs : List Reg :=
  [ra, gp, tp, t0, t1, t2, s0, s1, a0, a1, a2, a3, a4, a5, a6, a7, s2, s3, s4, s5, s6, s7, s8, s9,
    s10, s11, t3, t4, t5, t6]

/-- The registers `RESTORE_CONTEXT` loads one after the other. -/
def restoredRegs : List Reg :=
  [ra, gp, tp, t0, t2, s0, s1, a0, a1, a2, a3, a4, a5, a6, a7, s2, s3, s4, s5, s6, s7, s8, s9,
    s10, s11, t3, t4, t5, t6]

/-- Registers with their slots. -/
def slots (l : List Reg) : List (Reg × Word) := l.map fun r => (r, regSlot r)

theorem SAVE_CONTEXT_eq : SAVE_CONTEXT =
    [.csrw .sscratch sp, .ld sp PCB_KERNEL_SP tp] ++ (stores sp (slots savedRegs) ++
      [.li t0 (SR_SUM ||| SR_FS), .csrr t1 .sscratch, .sd t1 OFFSET_REG_SP sp, .csrr t1 .sepc,
        .sd t1 OFFSET_REG_SEPC sp, .csrr t1 .sstatus, .sd t1 OFFSET_REG_SSTATUS sp,
        .csrw .sstatus t0]) := rfl

theorem RESTORE_CONTEXT_eq : RESTORE_CONTEXT =
    loads sp (slots restoredRegs) ++
      [.ld t1 OFFSET_REG_SEPC sp, .csrw .sepc t1, .ld t1 OFFSET_REG_SSTATUS sp, .csrw .sstatus t1,
        .ld t1 OFFSET_REG_T1 sp, .sd sp PCB_KERNEL_SP tp, .ld sp OFFSET_REG_SP sp] := rfl

theorem mem_savedRegs : ∀ r : Reg, r ≠ 0 → r ≠ sp → r ∈ savedRegs := by decide

theorem mem_restoredRegs : ∀ r : Reg, r ≠ 0 → r ≠ sp → r ≠ t1 → r ∈ restoredRegs := by decide

theorem slot_lt_SSTATUS : ∀ r : Reg, regSlot r < OFFSET_REG_SSTATUS := by decide

theorem slots_pairwise : (slots savedRegs).Pairwise fun p q => p.2 ≠ q.2 := by decide

section Trap

variable (sym : Symbols) {m : Machine} {a : Word}

/-- The hart in `SAVE_CONTEXT`, with `sp` on the kernel stack. -/
def onKernelStack (m : Machine) : Machine :=
  (m.setCsr .sscratch (m.get sp)).set sp (m.mem (m.get tp + PCB_KERNEL_SP))

/-- `exception_handler_entry` around the block of stores. -/
theorem run_exceptionHandlerEntry : run (exceptionHandlerEntry sym) m =
    run [.la ra sym.retFromException, .mv a0 sp, .csrr a1 .stval, .csrr a2 .scause,
        .j sym.interruptHelper]
      (run [.li t0 (SR_SUM ||| SR_FS), .csrr t1 .sscratch, .sd t1 OFFSET_REG_SP sp,
          .csrr t1 .sepc, .sd t1 OFFSET_REG_SEPC sp, .csrr t1 .sstatus, .sd t1 OFFSET_REG_SSTATUS sp,
          .csrw .sstatus t0]
        (run (stores sp (slots savedRegs)) (onKernelStack m))) := by
  rw [exceptionHandlerEntry, SAVE_CONTEXT_eq, run_append, run_append, run_append]
  rfl

/-- The memory after `exception_handler_entry`: the block of stores, and then three more. -/
theorem mem_exceptionHandlerEntry :
    (run (exceptionHandlerEntry sym) m).mem =
      let p := m.mem (m.get tp + PCB_KERNEL_SP)
      updates (run (stores sp (slots savedRegs)) (onKernelStack m)).mem
        [(p + OFFSET_REG_SP, m.get sp), (p + OFFSET_REG_SEPC, m.csr .sepc),
          (p + OFFSET_REG_SSTATUS, m.csr .sstatus)] := by
  rw [run_exceptionHandlerEntry]
  simp (disch := decide) [Instr.exec, onKernelStack]

theorem get_onKernelStack_sp : (onKernelStack m).get sp = m.mem (m.get tp + PCB_KERNEL_SP) :=
  Machine.get_set_self (by decide)

theorem get_onKernelStack_of_ne {r : Reg} (h : r ≠ sp) : (onKernelStack m).get r = m.get r :=
  Machine.get_set_of_ne h

theorem mem_onKernelStack : (onKernelStack m).mem = m.mem := rfl

/-- The three doublewords stored after the block are apart from each other. -/
theorem lastStores_pairwise (p x y z : Word) :
    ([(p + OFFSET_REG_SP, x), (p + OFFSET_REG_SEPC, y), (p + OFFSET_REG_SSTATUS, z)] :
      List (Word × Word)).Pairwise fun q q' => q.1 ≠ q'.1 := by
  simp [OFFSET_REG_SP, OFFSET_REG_SEPC, OFFSET_REG_SSTATUS]

/-- **What the hart held is in the `regs_context_t` at the kernel stack pointer.** -/
theorem read_exceptionHandlerEntry :
    RegsContext.read (m.mem (m.get tp + PCB_KERNEL_SP)) (run (exceptionHandlerEntry sym) m).mem
      = RegsContext.held m := by
  rw [mem_exceptionHandlerEntry]
  apply RegsContext.ext
  · funext r
    rcases eq_or_ne r 0 with rfl | hr
    · rfl
    rw [RegsContext.regs_read hr]
    show _ = m.get r
    rcases eq_or_ne r sp with rfl | hsp
    · exact updates_of_mem (lastStores_pairwise ..) List.mem_cons_self
    · rw [updates_of_notMem, ← get_onKernelStack_sp, ← get_onKernelStack_of_ne hsp]
      · exact mem_run_stores slots_pairwise (List.mem_map_of_mem (mem_savedRegs r hr hsp))
      · intro q hq he
        have h1 : OFFSET_REG_SP ≠ regSlot r := regSlot_injective.ne (Ne.symm hsp)
        obtain ⟨h2, h3⟩ := regSlot_ne_last r
        simp only [List.mem_cons, List.not_mem_nil, or_false] at hq
        rcases hq with rfl | rfl | rfl
        · exact h1 ((BitVec.add_right_inj _).1 he)
        · exact h2 ((BitVec.add_right_inj _).1 he).symm
        · exact h3 ((BitVec.add_right_inj _).1 he).symm
  · rw [RegsContext.sstatus_read]
    exact updates_of_mem (lastStores_pairwise ..) (List.mem_cons_of_mem _ (List.mem_cons_of_mem _
      List.mem_cons_self))
  · rw [RegsContext.sepc_read]
    exact updates_of_mem (lastStores_pairwise ..) (List.mem_cons_of_mem _ List.mem_cons_self)

/-- Nothing outside that `regs_context_t` is written. -/
theorem mem_exceptionHandlerEntry_of_ne
    (h : ∀ k < OFFSET_SIZE, m.mem (m.get tp + PCB_KERNEL_SP) + k ≠ a) :
    (run (exceptionHandlerEntry sym) m).mem a = m.mem a := by
  rw [mem_exceptionHandlerEntry, updates_of_notMem, mem_run_stores_of_ne, mem_onKernelStack]
  · intro q hq
    obtain ⟨r, -, rfl⟩ := List.mem_map.1 hq
    rw [get_onKernelStack_sp]
    exact h _ (BitVec.lt_trans (slot_lt_SSTATUS r) (by decide))
  · intro q hq
    simp only [List.mem_cons, List.not_mem_nil, or_false] at hq
    rcases hq with rfl | rfl | rfl <;> exact h _ (by decide)

theorem get_exceptionHandlerEntry_sp :
    (run (exceptionHandlerEntry sym) m).get sp = m.mem (m.get tp + PCB_KERNEL_SP) := by
  rw [run_exceptionHandlerEntry]
  simp (disch := decide) [Instr.exec, onKernelStack]

theorem get_exceptionHandlerEntry_tp : (run (exceptionHandlerEntry sym) m).get tp = m.get tp := by
  rw [run_exceptionHandlerEntry]
  simp (disch := decide) [Instr.exec, onKernelStack]

/-- The arguments of `interrupt_helper`, and where it returns to. -/
theorem call_exceptionHandlerEntry :
    let m' := run (exceptionHandlerEntry sym) m
    m'.pc = sym.interruptHelper ∧ m'.get ra = sym.retFromException ∧
      m'.get a0 = m.mem (m.get tp + PCB_KERNEL_SP) ∧ m'.get a1 = m.csr .stval ∧
        m'.get a2 = m.csr .scause := by
  rw [run_exceptionHandlerEntry]
  simp (disch := decide) [Instr.exec, onKernelStack]

theorem csr_exceptionHandlerEntry :
    let m' := run (exceptionHandlerEntry sym) m
    m'.csr .sstatus = SR_SUM ||| SR_FS ∧ m'.csr .stvec = m.csr .stvec ∧ m'.mode = m.mode := by
  rw [run_exceptionHandlerEntry]
  simp (disch := decide) [Instr.exec, onKernelStack]

theorem restored_ne_sp : ∀ p ∈ slots restoredRegs, p.1 ≠ sp :=
  List.all_iff_forall_prop.1 (by decide)

theorem restored_pairwise : (slots restoredRegs).Pairwise fun p q => p.1 ≠ q.1 := by decide

/-- The memory after `ret_from_exception`: only the kernel stack pointer of the task whose `tp` was
restored is written. -/
theorem mem_retFromException :
    (run retFromException m).mem =
      Function.update m.mem ((RegsContext.read (m.get sp) m.mem).regs tp + PCB_KERNEL_SP)
        (m.get sp) := by
  have hsp := get_run_loads_of_ne (m := m) restored_ne_sp restored_ne_sp
  have htp := get_run_loads (m := m) (r := tp) restored_ne_sp restored_pairwise (by decide)
    (List.mem_map_of_mem (by decide))
  rw [retFromException, RESTORE_CONTEXT_eq, run_append, run_append,
    RegsContext.regs_read (by decide)]
  simp (disch := decide) [Instr.exec, hsp, htp]

/-- **The registers after `ret_from_exception`**, if the kernel stack pointer it writes is not in
the `regs_context_t` itself. -/
theorem get_retFromException
    (h : (RegsContext.read (m.get sp) m.mem).regs tp + PCB_KERNEL_SP ≠ m.get sp + OFFSET_REG_SP) :
    (run retFromException m).get = (RegsContext.read (m.get sp) m.mem).regs := by
  have hsp := get_run_loads_of_ne (m := m) restored_ne_sp restored_ne_sp
  have htp := get_run_loads (m := m) (r := tp) restored_ne_sp restored_pairwise (by decide)
    (List.mem_map_of_mem (by decide))
  rw [RegsContext.regs_read (by decide)] at h
  rw [retFromException, RESTORE_CONTEXT_eq, run_append, run_append]
  funext r
  rcases eq_or_ne r 0 with rfl | hr
  · rfl
  rw [RegsContext.regs_read hr]
  rcases eq_or_ne r sp with rfl | hr2
  · -- the last instruction, which comes after the store
    simp (disch := decide) only [run_cons, run_nil, Instr.exec, Machine.get_sret,
      Machine.get_set_self, Machine.get_set_of_ne, Machine.get_store, Machine.get_setCsr,
      Machine.mem_store, Machine.mem_set, Machine.mem_setCsr, mem_run_loads, hsp, htp]
    exact Function.update_of_ne h.symm ..
  rcases eq_or_ne r t1 with rfl | hr1
  · -- loaded last but one, since `sepc` and `sstatus` go through it
    simp (disch := decide) [Instr.exec, hsp]
    rfl
  · have hl := get_run_loads (m := m) restored_ne_sp restored_pairwise hr
      (List.mem_map_of_mem (mem_restoredRegs r hr hr2 hr1))
    simp (disch := first | decide | assumption) [Instr.exec, hl]

theorem csr_retFromException :
    let m' := run retFromException m
    let c := RegsContext.read (m.get sp) m.mem
    m'.pc = c.sepc ∧ m'.csr .sstatus = sretStatus c.sstatus ∧ m'.csr .stvec = m.csr .stvec ∧
      m'.mode = if c.sstatus.getLsbD 8 then .supervisor else .user := by
  have hsp := get_run_loads_of_ne (m := m) restored_ne_sp restored_ne_sp
  rw [retFromException, RESTORE_CONTEXT_eq, run_append, run_append]
  simp (disch := decide) [Instr.exec, hsp, RegsContext.read]

end Trap

/-! ## The switch between two tasks -/

/-- The saved registers of the calling convention, with their places in a `switchto_context_t`. -/
def switchSlots : List (Reg × Word) :=
  [(s0, SWITCH_TO_S0), (s1, SWITCH_TO_S1), (s2, SWITCH_TO_S2), (s3, SWITCH_TO_S3),
    (s4, SWITCH_TO_S4), (s5, SWITCH_TO_S5), (s6, SWITCH_TO_S6), (s7, SWITCH_TO_S7),
    (s8, SWITCH_TO_S8), (s9, SWITCH_TO_S9), (s10, SWITCH_TO_S10), (s11, SWITCH_TO_S11)]

/-- The first half of `switch_to`, which is about the previous task. -/
def switchSave : List Instr :=
  [Instr.addi sp sp (-SWITCH_TO_SIZE), .sd sp PCB_KERNEL_SP a0] ++
    stores sp ((ra, SWITCH_TO_RA) :: (sp, SWITCH_TO_SP) :: switchSlots)

/-- The second half of `switch_to`, which is about the next task. -/
def switchLoad : List Instr :=
  [Instr.ld sp PCB_KERNEL_SP a1, .ld ra SWITCH_TO_RA sp, .ld sp SWITCH_TO_SP sp] ++
    (loads sp switchSlots ++ [Instr.addi sp sp SWITCH_TO_SIZE, .jr ra])

theorem switchTo_eq : switchTo = switchSave ++ switchLoad := rfl

section Switch

variable {m : Machine} {r : Reg} {a k : Word}

/-- The hart in `switch_to`, with `sp` below the frame and stored in the PCB. -/
def onSwitchFrame (m : Machine) : Machine :=
  (m.set sp (m.get sp - SWITCH_TO_SIZE)).store (m.get a0 + PCB_KERNEL_SP)
    (m.get sp - SWITCH_TO_SIZE)

theorem run_switchSave : run switchSave m =
    run (stores sp ((ra, SWITCH_TO_RA) :: (sp, SWITCH_TO_SP) :: switchSlots)) (onSwitchFrame m) := by
  rw [switchSave, run_append]
  simp (disch := decide) only [run_cons, run_nil, Instr.exec, Machine.get_set_self,
    Machine.get_set_of_ne, onSwitchFrame, BitVec.sub_eq_add_neg]

theorem get_onSwitchFrame_sp : (onSwitchFrame m).get sp = m.get sp - SWITCH_TO_SIZE := by
  rw [onSwitchFrame, Machine.get_store, Machine.get_set_self (by decide)]

theorem get_onSwitchFrame_of_ne (h : r ≠ sp) : (onSwitchFrame m).get r = m.get r :=
  Machine.get_set_of_ne h

theorem get_switchSave_of_ne (h : r ≠ sp) : (run switchSave m).get r = m.get r := by
  rw [run_switchSave, get_run_stores, get_onSwitchFrame_of_ne h]

theorem csr_switchSave : (run switchSave m).csr = m.csr ∧ (run switchSave m).mode = m.mode := by
  rw [run_switchSave, csr_run_stores, mode_run_stores]
  exact ⟨rfl, rfl⟩

/-- What `switch_to` leaves in the `switchto_context_t`. -/
theorem mem_switchSave_slot (h : (r, k) ∈ (ra, SWITCH_TO_RA) :: switchSlots) :
    (run switchSave m).mem (m.get sp - SWITCH_TO_SIZE + k) = m.get r := by
  have hne : ∀ q ∈ (ra, SWITCH_TO_RA) :: switchSlots, q.1 ≠ sp :=
    List.all_iff_forall_prop.1 (by decide)
  have hin : ∀ q ∈ (ra, SWITCH_TO_RA) :: switchSlots,
      q ∈ (ra, SWITCH_TO_RA) :: (sp, SWITCH_TO_SP) :: switchSlots :=
    List.all_iff_forall_prop.1 (by decide)
  rw [run_switchSave, ← get_onSwitchFrame_sp, mem_run_stores (by decide) (hin _ h),
    get_onSwitchFrame_of_ne (hne _ h)]

theorem mem_switchSave_sp :
    (run switchSave m).mem (m.get sp - SWITCH_TO_SIZE + SWITCH_TO_SP)
      = m.get sp - SWITCH_TO_SIZE := by
  rw [run_switchSave, ← get_onSwitchFrame_sp, mem_run_stores (r := sp) (by decide) (by decide)]

theorem mem_switchSave_of_ne (h : ∀ k < SWITCH_TO_SIZE, m.get sp - SWITCH_TO_SIZE + k ≠ a) :
    (run switchSave m).mem a = Function.update m.mem (m.get a0 + PCB_KERNEL_SP)
      (m.get sp - SWITCH_TO_SIZE) a := by
  have hlt : ∀ q ∈ (ra, SWITCH_TO_RA) :: (sp, SWITCH_TO_SP) :: switchSlots,
      q.2 < SWITCH_TO_SIZE :=
    List.all_iff_forall_prop.1 (by decide)
  rw [run_switchSave, mem_run_stores_of_ne fun q hq => get_onSwitchFrame_sp ▸ h _ (hlt q hq)]
  rfl

/-- The hart in `switch_to`, with `ra` and `sp` as the next task left them. -/
def onNextStack (m : Machine) : Machine :=
  let p := m.mem (m.get a1 + PCB_KERNEL_SP)
  ((m.set sp p).set ra (m.mem (p + SWITCH_TO_RA))).set sp (m.mem (p + SWITCH_TO_SP))

theorem run_switchLoad : run switchLoad m =
    let m' := run (loads sp switchSlots) (onNextStack m)
    (m'.set sp (m'.get sp + SWITCH_TO_SIZE)).jump (m'.get ra) := by
  rw [switchLoad, run_append, run_append]
  simp (disch := decide) only [run_cons, run_nil, Instr.exec, Machine.get_set_self,
    Machine.get_set_of_ne, Machine.mem_set, onNextStack]

/-- The second half of `switch_to` writes nothing. -/
theorem mem_switchLoad : (run switchLoad m).mem = m.mem := by
  rw [run_switchLoad, Machine.mem_jump, Machine.mem_set, mem_run_loads]
  rfl

theorem switchSlots_ne_sp : ∀ q ∈ switchSlots, q.1 ≠ sp :=
  List.all_iff_forall_prop.1 (by decide)

/-- The registers that are not loaded: they keep what they held, or hold what `onNextStack` says. -/
theorem get_loads_switchSlots (h : r ∉ switchSlots.map Prod.fst) :
    (run (loads sp switchSlots) m).get r = m.get r :=
  get_run_loads_of_ne switchSlots_ne_sp fun _ hq he => h (he ▸ List.mem_map_of_mem hq)

/-- **What `switch_to` loads**, when the `switchto_context_t` knows where it is. -/
theorem switchLoad_spec
    (h : m.mem (m.mem (m.get a1 + PCB_KERNEL_SP) + SWITCH_TO_SP)
      = m.mem (m.get a1 + PCB_KERNEL_SP)) :
    let p := m.mem (m.get a1 + PCB_KERNEL_SP)
    let m' := run switchLoad m
    m'.pc = m.mem (p + SWITCH_TO_RA) ∧ m'.get ra = m.mem (p + SWITCH_TO_RA) ∧
      m'.get sp = p + SWITCH_TO_SIZE ∧ (∀ q ∈ switchSlots, m'.get q.1 = m.mem (p + q.2)) ∧
      m'.get tp = m.get tp ∧ m'.mem = m.mem ∧ m'.csr = m.csr ∧ m'.mode = m.mode := by
  intro p m'
  have hsp : (onNextStack m).get sp = p := by
    rw [onNextStack, Machine.get_set_self (by decide), h]
  have hra : (onNextStack m).get ra = m.mem (p + SWITCH_TO_RA) := by
    rw [onNextStack, Machine.get_set_of_ne (by decide), Machine.get_set_self (by decide)]
  have htp : (onNextStack m).get tp = m.get tp := by
    simp (disch := decide) only [onNextStack, Machine.get_set_of_ne]
  have hm : (onNextStack m).mem = m.mem := rfl
  have hc : (onNextStack m).csr = m.csr := rfl
  have hmode : (onNextStack m).mode = m.mode := rfl
  have hm' : m' = _ := run_switchLoad
  refine ⟨?_, ?_, ?_, ?_, ?_, ?_, ?_, ?_⟩
  · rw [hm', Machine.pc_jump, get_loads_switchSlots (by decide), hra]
  · rw [hm', Machine.get_jump, Machine.get_set_of_ne (by decide), get_loads_switchSlots (by decide),
      hra]
  · rw [hm', Machine.get_jump, Machine.get_set_self (by decide), get_loads_switchSlots (by decide),
      hsp]
  · intro q hq
    have hq0 : ∀ q ∈ switchSlots, q.1 ≠ 0 := List.all_iff_forall_prop.1 (by decide)
    rw [hm', Machine.get_jump, Machine.get_set_of_ne (switchSlots_ne_sp q hq),
      get_run_loads switchSlots_ne_sp (by decide) (hq0 q hq) hq, hsp, hm]
  · rw [hm', Machine.get_jump, Machine.get_set_of_ne (by decide), get_loads_switchSlots (by decide),
      htp]
  · rw [hm', Machine.mem_jump, Machine.mem_set, mem_run_loads, hm]
  · rw [hm', Machine.csr_jump, Machine.csr_set, csr_run_loads, hc]
  · rw [hm', Machine.mode_jump, Machine.mode_set, mode_run_loads, hmode]

end Switch

end UcasOs
