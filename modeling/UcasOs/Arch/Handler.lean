import UcasOs.Arch.Entry

/-!
# What an exception handler is given

`interrupt_helper` and the handlers it calls read the saved context through the fields of
`regs_context_t` (`os/sched.h`), while `entry.S` fills it through the offsets of `asm/regs.h`.
`RegsContext` has the fields that the kernel goes on to use; `handle_other` prints all of them.

* `CRegsContext` — the whole struct, `read` as the compiler lays it out: `regs[32]` and then four
  more double words.
* `mem_exceptionHandlerEntry_of_notMem` — the double words that `SAVE_CONTEXT` writes.  Three of the
  struct are not among them: that of `x0`, `sbadaddr` and `scause`, although the comment in
  `SAVE_CONTEXT` names `stval` and `scause`.
* `read_exceptionHandlerEntry_iff` — so the struct is right exactly when the memory under these
  three was right already.
-/

set_option autoImplicit false

namespace UcasOs

open Riscv Reg

/-- A `regs_context_t`. -/
@[ext] structure CRegsContext where
  regs : Reg → Word
  sstatus : Word
  sepc : Word
  sbadaddr : Word
  scause : Word

/-- Where the `n`-th double word of a `regs_context_t` is. -/
def fieldOffset (n : ℕ) : Word := BitVec.ofNat 64 (8 * n)

namespace CRegsContext

/-- The `regs_context_t` at `p`. -/
def read (p : Word) (mem : Word → Word) : CRegsContext where
  regs r := mem (p + fieldOffset r)
  sstatus := mem (p + fieldOffset 32)
  sepc := mem (p + fieldOffset 33)
  sbadaddr := mem (p + fieldOffset 34)
  scause := mem (p + fieldOffset 35)

/-- The state of a hart at a trap: the registers, `sstatus` as the trap leaves it, the trapped
instruction, the trap value and the cause. -/
def trapped (m : Machine) (cause tval : Word) : CRegsContext where
  regs := m.get
  sstatus := trapStatus m.mode (m.csr .sstatus)
  sepc := m.pc
  sbadaddr := tval
  scause := cause

end CRegsContext

section Handler

variable (sym : Symbols) {m : Machine} {k : Word}

/-- The offsets at which `SAVE_CONTEXT` stores. -/
def savedOffsets : List Word :=
  savedRegs.map regSlot ++ [OFFSET_REG_SP, OFFSET_REG_SEPC, OFFSET_REG_SSTATUS]

/-- A double word of the struct that is not among these keeps what was there. -/
theorem mem_exceptionHandlerEntry_of_notMem (hk : k ∉ savedOffsets) :
    (run (exceptionHandlerEntry sym) m).mem (m.mem (m.get tp + PCB_KERNEL_SP) + k)
      = m.mem (m.mem (m.get tp + PCB_KERNEL_SP) + k) := by
  rw [savedOffsets, List.mem_append, not_or] at hk
  obtain ⟨hregs, hlast⟩ := hk
  simp only [List.mem_cons, List.not_mem_nil, or_false, not_or] at hlast
  rw [mem_exceptionHandlerEntry, updates_of_notMem, mem_run_stores_of_ne, mem_onKernelStack]
  · intro q hq he
    obtain ⟨r, hr, rfl⟩ := List.mem_map.1 hq
    rw [get_onKernelStack_sp] at he
    exact hregs ((BitVec.add_right_inj _).1 he ▸ List.mem_map_of_mem hr)
  · intro q hq he
    simp only [List.mem_cons, List.not_mem_nil, or_false] at hq
    rcases hq with rfl | rfl | rfl
    · exact hlast.1 ((BitVec.add_right_inj _).1 he).symm
    · exact hlast.2.1 ((BitVec.add_right_inj _).1 he).symm
    · exact hlast.2.2 ((BitVec.add_right_inj _).1 he).symm

theorem fieldOffset_notMem :
    ∀ n ∈ [0, 34, 35], fieldOffset n ∉ savedOffsets :=
  List.all_iff_forall_prop.1 (by decide)

/-- A `regs_context_t` that agrees with `c` where `SAVE_CONTEXT` stores is `c` exactly when it agrees
with it in the other three double words. -/
theorem CRegsContext.read_eq_iff {p : Word} {mem : Word → Word} {c : CRegsContext}
    (hsaved : RegsContext.read p mem = ⟨c.regs, c.sstatus, c.sepc⟩) (hzero : c.regs 0 = 0) :
    CRegsContext.read p mem = c ↔ mem (p + fieldOffset 0) = 0 ∧
      mem (p + fieldOffset 34) = c.sbadaddr ∧ mem (p + fieldOffset 35) = c.scause := by
  constructor
  · rintro rfl
    exact ⟨hzero, rfl, rfl⟩
  · rintro ⟨h0, hbad, hcause⟩
    apply CRegsContext.ext
    · funext r
      rcases eq_or_ne r 0 with rfl | hr
      · exact h0.trans hzero.symm
      · have h1 := congrFun (congrArg RegsContext.regs hsaved) r
        rwa [RegsContext.regs_read hr] at h1
    · exact congrArg RegsContext.sstatus hsaved
    · exact congrArg RegsContext.sepc hsaved
    · exact hbad
    · exact hcause

/-- **When a handler sees the trapped state.**  Whatever the trap and wherever it comes from, the
`regs_context_t` whose address `interrupt_helper` is given holds the registers, `sstatus`, `sepc`,
the trap value in `sbadaddr` and the cause in `scause` exactly when the kernel stack had `0`, the
trap value and the cause at the places of `regs[0]`, `sbadaddr` and `scause` already. -/
theorem read_exceptionHandlerEntry_iff (m : Machine) (cause tval : Word) :
    let frame := m.mem (m.get tp + PCB_KERNEL_SP)
    let m' := run (exceptionHandlerEntry sym) (m.takeTrap cause tval)
    CRegsContext.read (m'.get a0) m'.mem = CRegsContext.trapped m cause tval ↔
      m.mem (frame + fieldOffset 0) = 0 ∧ m.mem (frame + fieldOffset 34) = tval ∧
        m.mem (frame + fieldOffset 35) = cause := by
  have ha0 := (call_exceptionHandlerEntry sym (m := m.takeTrap cause tval)).2.2.1
  have hsaved := read_exceptionHandlerEntry sym (m := m.takeTrap cause tval)
  have hkeep := fun n hn => mem_exceptionHandlerEntry_of_notMem sym (m := m.takeTrap cause tval)
    (fieldOffset_notMem n hn)
  intro frame m'
  have hm' : m' = run (exceptionHandlerEntry sym) (m.takeTrap cause tval) := rfl
  rw [← hm'] at ha0 hsaved hkeep
  clear_value m'
  have hiff := CRegsContext.read_eq_iff (c := CRegsContext.trapped m cause tval) hsaved rfl
  rw [ha0]
  have h0 := hkeep 0 (by decide)
  have h34 := hkeep 34 (by decide)
  have h35 := hkeep 35 (by decide)
  rw [h0, h34, h35] at hiff
  exact hiff

/-- A hart whose memory is all zero. -/
def blank : Machine where
  x _ := 0
  csr _ := 0
  mem _ := 0
  pc := 0
  mode := .user

/-- A load page fault (cause 13) at `0x1234` on a kernel stack that has never been used: the handler
is told that the cause is 0. -/
theorem read_exceptionHandlerEntry_fails :
    let m' := run (exceptionHandlerEntry ⟨0, 0, 0⟩) (blank.takeTrap 13 0x1234)
    (CRegsContext.read (m'.get a0) m'.mem).scause = 0 ∧
      (CRegsContext.read (m'.get a0) m'.mem).sbadaddr = 0 ∧
      CRegsContext.read (m'.get a0) m'.mem ≠ CRegsContext.trapped blank 13 0x1234 := by
  have ha0 := (call_exceptionHandlerEntry ⟨0, 0, 0⟩ (m := blank.takeTrap 13 0x1234)).2.2.1
  have hkeep := fun n hn => mem_exceptionHandlerEntry_of_notMem ⟨0, 0, 0⟩
    (m := blank.takeTrap 13 0x1234) (fieldOffset_notMem n hn)
  intro m'
  have hm' : m' = run (exceptionHandlerEntry ⟨0, 0, 0⟩) (blank.takeTrap 13 0x1234) := rfl
  rw [← hm'] at ha0 hkeep
  clear_value m'
  have hcause : (CRegsContext.read (m'.get a0) m'.mem).scause = 0 := by
    rw [ha0]
    exact hkeep 35 (by decide)
  have hbad : (CRegsContext.read (m'.get a0) m'.mem).sbadaddr = 0 := by
    rw [ha0]
    exact hkeep 34 (by decide)
  refine ⟨hcause, hbad, fun h => ?_⟩
  rw [h] at hcause
  exact absurd hcause (by decide)

end Handler

end UcasOs
