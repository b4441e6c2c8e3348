import Mathlib.Data.BitVec
import Mathlib.Data.Bool.AllAny
import Mathlib.Data.List.Nodup
import Mathlib.Logic.Function.Basic

/-!
# Straight lines of RISC-V code

As much of RV64 as the entry code of a kernel is made of: the integer registers, the supervisor's
CSRs, a memory of double words, and instructions that are executed one after the other up to a
jump.  All the double words accessed are aligned, so they coincide or are apart, and the memory can
be a function of their addresses.

* `Machine.takeTrap`, `Machine.sret` — the way into the supervisor and back, with what both do to
  `sstatus`; `sretStatus_trapStatus` says how much of it survives the round trip.
* `run_stores`, `run_loads` — a block of stores to one base, or of loads from it, is one update of
  the memory, or of the registers; `updates_of_mem` and `updates_of_notMem` read it.
* `forall_get_run_moves_iff` — moves in a row move all at once exactly if none reads what another
  has overwritten.
-/

set_option autoImplicit false

universe u v

/-! ## Updates in a row -/

section Updates

variable {α : Type u} {β : Type v} [DecidableEq α] {a : α} {b : β} {f : α → β} {l : List (α × β)}

/-- `f` with the values of `l` put in, one after the other. -/
def updates (f : α → β) (l : List (α × β)) : α → β :=
  l.foldl (fun f p => Function.update f p.1 p.2) f

@[simp] theorem updates_nil (f : α → β) : updates f [] = f := rfl

@[simp] theorem updates_cons (f : α → β) (p : α × β) (l : List (α × β)) :
    updates f (p :: l) = updates (Function.update f p.1 p.2) l := rfl

theorem updates_append (f : α → β) (l l' : List (α × β)) :
    updates f (l ++ l') = updates (updates f l) l' := List.foldl_append

theorem updates_eq_self (h : ∀ p ∈ l, f p.1 = p.2) : updates f l = f := by
  induction l with
  | nil => rfl
  | cons p l ih =>
    rw [updates_cons, ← h p List.mem_cons_self, Function.update_eq_self]
    exact ih fun q hq => h q (List.mem_cons_of_mem p hq)

theorem updates_of_notMem (h : ∀ p ∈ l, p.1 ≠ a) : updates f l a = f a := by
  induction l generalizing f with
  | nil => rfl
  | cons p l ih =>
    have ha : a ≠ p.1 := (h p List.mem_cons_self).symm
    rw [updates_cons, ih fun q hq => h q (List.mem_cons_of_mem _ hq), Function.update_of_ne ha]

theorem updates_of_mem (hl : l.Pairwise fun p q => p.1 ≠ q.1) (h : (a, b) ∈ l) :
    updates f l a = b := by
  induction l generalizing f with
  | nil => exact absurd h List.not_mem_nil
  | cons p l ih =>
    rw [List.pairwise_cons] at hl
    rw [updates_cons]
    rcases List.mem_cons.1 h with rfl | h
    · rw [updates_of_notMem fun q hq => (hl.1 q hq).symm, Function.update_self]
    · exact ih hl.2 h

end Updates

namespace Riscv

/-- A double word, or the address of one. -/
abbrev Word := BitVec 64

/-- An integer register, by its number. -/
abbrev Reg := Fin 32

instance Reg.neZero : NeZero 32 := ⟨by decide⟩

namespace Reg

/-! The names the calling convention gives to the registers. -/

abbrev zero : Reg := 0
abbrev ra : Reg := 1
abbrev sp : Reg := 2
abbrev gp : Reg := 3
abbrev tp : Reg := 4
abbrev t0 : Reg := 5
abbrev t1 : Reg := 6
abbrev t2 : Reg := 7
abbrev s0 : Reg := 8
abbrev s1 : Reg := 9
abbrev a0 : Reg := 10
abbrev a1 : Reg := 11
abbrev a2 : Reg := 12
abbrev a3 : Reg := 13
abbrev a4 : Reg := 14
abbrev a5 : Reg := 15
abbrev a6 : Reg := 16
abbrev a7 : Reg := 17
abbrev s2 : Reg := 18
abbrev s3 : Reg := 19
abbrev s4 : Reg := 20
abbrev s5 : Reg := 21
abbrev s6 : Reg := 22
abbrev s7 : Reg := 23
abbrev s8 : Reg := 24
abbrev s9 : Reg := 25
abbrev s10 : Reg := 26
abbrev s11 : Reg := 27
abbrev t3 : Reg := 28
abbrev t4 : Reg := 29
abbrev t5 : Reg := 30
abbrev t6 : Reg := 31

end Reg

/-- The supervisor's control and status registers. -/
inductive Csr
  | sstatus
  | stvec
  | sscratch
  | sepc
  | scause
  | stval
  deriving DecidableEq

/-- The privilege modes. -/
inductive Mode
  | user
  | supervisor
  deriving DecidableEq

/-- A hart and its memory. -/
structure Machine where
  /-- The integer registers; nothing reads the entry of `x0`. -/
  x : Reg → Word
  csr : Csr → Word
  /-- The aligned double words of the memory, by their addresses. -/
  mem : Word → Word
  pc : Word
  mode : Mode

/-! ## Interrupts and exceptions -/

/-- `SIE`, bit 1 of `sstatus`: interrupts are taken in supervisor mode. -/
def SIE : Word := .twoPow 64 1

/-- `SPIE`, bit 5 of `sstatus`: what `SIE` was before the trap. -/
def SPIE : Word := .twoPow 64 5

/-- `SPP`, bit 8 of `sstatus`: the trap came from supervisor mode. -/
def SPP : Word := .twoPow 64 8

/-- What a trap makes of `sstatus`. -/
def trapStatus (mode : Mode) (w : Word) : Word :=
  (w &&& ~~~(SIE ||| SPIE ||| SPP)) ||| (if w.getLsbD 1 then SPIE else 0) |||
    (if mode = .supervisor then SPP else 0)

/-- What `sret` makes of `sstatus`. -/
def sretStatus (w : Word) : Word :=
  (w &&& ~~~(SIE ||| SPIE ||| SPP)) ||| (if w.getLsbD 5 then SIE else 0) ||| SPIE

/-- A trap out of user mode keeps interrupts in its own `SPIE` and nothing in `SPP`. -/
theorem getLsbD_trapStatus_user (w : Word) (i : ℕ) :
    (trapStatus .user w).getLsbD i
      = if i = 5 then w.getLsbD 1 else w.getLsbD i && decide (i ≠ 1) && decide (i ≠ 8) := by
  have hite : ∀ b : Bool, (if b then SPIE else 0).getLsbD i = (b && decide (i = 5)) := by
    intro b
    cases b <;> simp [SPIE, BitVec.getLsbD_twoPow, eq_comm]
  rw [trapStatus, BitVec.getLsbD_or, BitVec.getLsbD_or, hite, BitVec.getLsbD_and, BitVec.getLsbD_not]
  simp only [SIE, SPIE, SPP, BitVec.getLsbD_or, BitVec.getLsbD_twoPow]
  have hi := fun h : ¬i < 64 => BitVec.getLsbD_of_ge w i (Nat.not_lt.1 h)
  grind

/-- **A trap out of user mode and the return from it** set `SPIE` and clear `SPP`, which is where
the last `sret` left them, and do nothing else to `sstatus`. -/
theorem sretStatus_trapStatus (w : Word) :
    sretStatus (trapStatus .user w) = (w &&& ~~~SPP) ||| SPIE := by
  have hite : ∀ (b : Bool) (i : ℕ), (if b then SIE else 0).getLsbD i = (b && decide (i = 1)) := by
    intro b i
    cases b <;> simp [SIE, BitVec.getLsbD_twoPow, eq_comm]
  apply BitVec.eq_of_getLsbD_eq
  intro i hi
  rw [sretStatus]
  simp only [BitVec.getLsbD_or, BitVec.getLsbD_and, BitVec.getLsbD_not, hite,
    getLsbD_trapStatus_user]
  simp only [SIE, SPIE, SPP, BitVec.getLsbD_twoPow]
  grind

/-- An `sstatus` as `sret` leaves it: `SPIE` is set, and `SPP` is not. -/
def ReturnStatus (w : Word) : Prop := w.getLsbD 5 = true ∧ w.getLsbD 8 = false

theorem returnStatus_sretStatus (w : Word) : ReturnStatus (sretStatus w) := by
  rw [ReturnStatus, sretStatus]
  cases w.getLsbD 5 <;> simp [SIE, SPIE, SPP]

/-- So from one `sret` to the next a trap changes nothing. -/
theorem ReturnStatus.sretStatus_trapStatus {w : Word} (h : ReturnStatus w) :
    sretStatus (trapStatus .user w) = w := by
  rw [Riscv.sretStatus_trapStatus]
  apply BitVec.eq_of_getLsbD_eq
  intro i hi
  simp only [BitVec.getLsbD_or, BitVec.getLsbD_and, BitVec.getLsbD_not, SPIE, SPP,
    BitVec.getLsbD_twoPow]
  grind [ReturnStatus]

namespace Machine

/-- The value of a register: `x0` is always `0`. -/
def get (m : Machine) (r : Reg) : Word := if r = 0 then 0 else m.x r

/-- `m` with `v` in register `r`. -/
def set (m : Machine) (r : Reg) (v : Word) : Machine := { m with x := Function.update m.x r v }

/-- `m` with `v` in the control and status register `c`. -/
def setCsr (m : Machine) (c : Csr) (v : Word) : Machine :=
  { m with csr := Function.update m.csr c v }

/-- `m` with `v` in memory, at address `a`. -/
def store (m : Machine) (a v : Word) : Machine := { m with mem := Function.update m.mem a v }

/-- `m` with the execution going on at `target`. -/
def jump (m : Machine) (target : Word) : Machine := { m with pc := target }

/-- The trap `cause`, with `tval` as its value, is taken in supervisor mode. -/
def takeTrap (cause tval : Word) (m : Machine) : Machine :=
  { m with
    csr := fun
      | .sstatus => trapStatus m.mode (m.csr .sstatus)
      | .sepc => m.pc
      | .scause => cause
      | .stval => tval
      | c => m.csr c
    pc := m.csr .stvec
    mode := .supervisor }

/-- The return from a trap. -/
def sret (m : Machine) : Machine :=
  { m with
    csr := Function.update m.csr .sstatus (sretStatus (m.csr .sstatus))
    pc := m.csr .sepc
    mode := if (m.csr .sstatus).getLsbD 8 then .supervisor else .user }

end Machine

/-! ## Instructions -/

/-- The instructions.  An immediate is the word it stands for. -/
inductive Instr
  | ld (rd : Reg) (offset : Word) (base : Reg)
  | sd (rs : Reg) (offset : Word) (base : Reg)
  | addi (rd rs : Reg) (imm : Word)
  | li (rd : Reg) (imm : Word)
  | csrr (rd : Reg) (csr : Csr)
  | csrw (csr : Csr) (rs : Reg)
  | j (target : Word)
  | jr (rs : Reg)
  | sret

namespace Instr

/-- `mv rd, rs` -/
abbrev mv (rd rs : Reg) : Instr := .addi rd rs 0

/-- `la rd, symbol` -/
abbrev la (rd : Reg) (symbol : Word) : Instr := .li rd symbol

/-- One instruction.  Only jumps are seen in the `pc`. -/
def exec : Instr → Machine → Machine
  | ld rd offset base, m => m.set rd (m.mem (m.get base + offset))
  | sd rs offset base, m => m.store (m.get base + offset) (m.get rs)
  | addi rd rs imm, m => m.set rd (m.get rs + imm)
  | li rd imm, m => m.set rd imm
  | csrr rd csr, m => m.set rd (m.csr csr)
  | csrw csr rs, m => m.setCsr csr (m.get rs)
  | j target, m => m.jump target
  | jr rs, m => m.jump (m.get rs)
  | sret, m => m.sret

end Instr

/-- A straight line of instructions. -/
def run (code : List Instr) (m : Machine) : Machine := code.foldl (fun m i => i.exec m) m

/-- `sd rs, offset(base)` for each register and offset of `l`. -/
def stores (base : Reg) (l : List (Reg × Word)) : List Instr := l.map fun p => .sd p.1 p.2 base

/-- `ld rd, offset(base)` for each register and offset of `l`. -/
def loads (base : Reg) (l : List (Reg × Word)) : List Instr := l.map fun p => .ld p.1 p.2 base

section Lemmas

variable {m : Machine} {r r' base : Reg} {c c' : Csr} {v a w : Word} {l : List (Reg × Word)}

@[simp] theorem Machine.get_zero : m.get 0 = 0 := rfl

@[simp] theorem Machine.get_set_self (hr : r ≠ 0) : (m.set r v).get r = v := by
  rw [Machine.get, if_neg hr]
  exact Function.update_self ..

@[simp] theorem Machine.get_set_of_ne (h : r' ≠ r) : (m.set r v).get r' = m.get r' := by
  have hx : (m.set r v).x r' = m.x r' := Function.update_of_ne h ..
  rw [Machine.get, Machine.get, hx]

@[simp] theorem Machine.csr_set : (m.set r v).csr = m.csr := rfl
@[simp] theorem Machine.mem_set : (m.set r v).mem = m.mem := rfl
@[simp] theorem Machine.pc_set : (m.set r v).pc = m.pc := rfl
@[simp] theorem Machine.mode_set : (m.set r v).mode = m.mode := rfl

@[simp] theorem Machine.csr_setCsr_self : (m.setCsr c v).csr c = v := Function.update_self ..

@[simp] theorem Machine.csr_setCsr_of_ne (h : c' ≠ c) : (m.setCsr c v).csr c' = m.csr c' :=
  Function.update_of_ne h ..

@[simp] theorem Machine.get_setCsr : (m.setCsr c v).get r = m.get r := rfl
@[simp] theorem Machine.mem_setCsr : (m.setCsr c v).mem = m.mem := rfl
@[simp] theorem Machine.pc_setCsr : (m.setCsr c v).pc = m.pc := rfl
@[simp] theorem Machine.mode_setCsr : (m.setCsr c v).mode = m.mode := rfl

@[simp] theorem Machine.mem_store : (m.store a v).mem = Function.update m.mem a v := rfl
@[simp] theorem Machine.get_store : (m.store a v).get r = m.get r := rfl
@[simp] theorem Machine.csr_store : (m.store a v).csr = m.csr := rfl
@[simp] theorem Machine.pc_store : (m.store a v).pc = m.pc := rfl
@[simp] theorem Machine.mode_store : (m.store a v).mode = m.mode := rfl

@[simp] theorem Machine.pc_jump : (m.jump a).pc = a := rfl
@[simp] theorem Machine.get_jump : (m.jump a).get r = m.get r := rfl
@[simp] theorem Machine.csr_jump : (m.jump a).csr = m.csr := rfl
@[simp] theorem Machine.mem_jump : (m.jump a).mem = m.mem := rfl
@[simp] theorem Machine.mode_jump : (m.jump a).mode = m.mode := rfl

@[simp] theorem Machine.get_takeTrap : (m.takeTrap v w).get r = m.get r := rfl
@[simp] theorem Machine.mem_takeTrap : (m.takeTrap v w).mem = m.mem := rfl

@[simp] theorem Machine.get_sret : m.sret.get r = m.get r := rfl
@[simp] theorem Machine.mem_sret : m.sret.mem = m.mem := rfl
@[simp] theorem Machine.pc_sret : m.sret.pc = m.csr .sepc := rfl

@[simp] theorem Machine.mode_sret :
    m.sret.mode = if (m.csr .sstatus).getLsbD 8 then .supervisor else .user := rfl

@[simp] theorem Machine.csr_sret_of_ne (h : c ≠ .sstatus) : m.sret.csr c = m.csr c :=
  Function.update_of_ne h ..

@[simp] theorem Machine.sstatus_sret : m.sret.csr .sstatus = sretStatus (m.csr .sstatus) := rfl

@[simp] theorem run_nil (m : Machine) : run [] m = m := rfl

@[simp] theorem run_cons (i : Instr) (code : List Instr) (m : Machine) :
    run (i :: code) m = run code (i.exec m) := rfl

theorem run_append (code code' : List Instr) (m : Machine) :
    run (code ++ code') m = run code' (run code m) := by
  rw [run, List.foldl_append]; rfl

/-! ## Blocks of stores and loads -/

/-- **A block of stores** is an update of the memory. -/
theorem run_stores (m : Machine) (base : Reg) (l : List (Reg × Word)) :
    run (stores base l) m
      = { m with mem := updates m.mem (l.map fun p => (m.get base + p.2, m.get p.1)) } := by
  induction l generalizing m with
  | nil => rfl
  | cons p l ih => exact ih (m.store (m.get base + p.2) (m.get p.1))

/-- **A block of loads** is an update of the registers, when it leaves its base alone. -/
theorem run_loads (m : Machine) (h : ∀ p ∈ l, p.1 ≠ base) :
    run (loads base l) m
      = { m with x := updates m.x (l.map fun p => (p.1, m.mem (m.get base + p.2))) } := by
  induction l generalizing m with
  | nil => rfl
  | cons p l ih =>
    have hb : (m.set p.1 (m.mem (m.get base + p.2))).get base = m.get base :=
      Machine.get_set_of_ne (h p List.mem_cons_self).symm
    have ih := ih (m.set p.1 (m.mem (m.get base + p.2))) fun q hq => h q (List.mem_cons_of_mem _ hq)
    rw [hb] at ih
    exact ih

@[simp] theorem get_run_stores : (run (stores base l) m).get r = m.get r := by
  rw [run_stores]; rfl

@[simp] theorem csr_run_stores : (run (stores base l) m).csr = m.csr := by
  rw [run_stores]

@[simp] theorem mode_run_stores : (run (stores base l) m).mode = m.mode := by
  rw [run_stores]

@[simp] theorem mem_run_loads : (run (loads base l) m).mem = m.mem := by
  induction l generalizing m with
  | nil => rfl
  | cons p l ih => exact ih

@[simp] theorem csr_run_loads : (run (loads base l) m).csr = m.csr := by
  induction l generalizing m with
  | nil => rfl
  | cons p l ih => exact ih

@[simp] theorem mode_run_loads : (run (loads base l) m).mode = m.mode := by
  induction l generalizing m with
  | nil => rfl
  | cons p l ih => exact ih

/-- What is stored at an offset of the block. -/
theorem mem_run_stores (hl : l.Pairwise fun p q => p.2 ≠ q.2) (h : (r, v) ∈ l) :
    (run (stores base l) m).mem (m.get base + v) = m.get r := by
  rw [run_stores]
  refine updates_of_mem ?_ (List.mem_map_of_mem h)
  rw [List.pairwise_map]
  exact hl.imp fun hne he => hne ((BitVec.add_right_inj _).1 he)

/-- What is stored elsewhere. -/
theorem mem_run_stores_of_ne (h : ∀ p ∈ l, m.get base + p.2 ≠ a) :
    (run (stores base l) m).mem a = m.mem a := by
  rw [run_stores]
  refine updates_of_notMem fun q hq => ?_
  obtain ⟨p, hp, rfl⟩ := List.mem_map.1 hq
  exact h p hp

/-- What is loaded into a register of the block. -/
theorem get_run_loads (hb : ∀ p ∈ l, p.1 ≠ base) (hl : l.Pairwise fun p q => p.1 ≠ q.1) (hr : r ≠ 0)
    (h : (r, v) ∈ l) : (run (loads base l) m).get r = m.mem (m.get base + v) := by
  rw [run_loads m hb, Machine.get, if_neg hr]
  refine updates_of_mem ?_ (List.mem_map_of_mem h)
  rw [List.pairwise_map]
  exact hl

/-- What the other registers hold. -/
theorem get_run_loads_of_ne (hb : ∀ p ∈ l, p.1 ≠ base) (h : ∀ p ∈ l, p.1 ≠ r) :
    (run (loads base l) m).get r = m.get r := by
  have hx : (run (loads base l) m).x r = m.x r := by
    rw [run_loads m hb]
    refine updates_of_notMem fun q hq => ?_
    obtain ⟨p, hp, rfl⟩ := List.mem_map.1 hq
    exact h p hp
  rw [Machine.get, Machine.get, hx]

/-! ## Moves in a row -/

/-- `mv rd, rs` for each pair of registers of `l`. -/
def moves (l : List (Reg × Reg)) : List Instr := l.map fun p => .mv p.1 p.2

variable {l : List (Reg × Reg)}

theorem exec_mv (rd rs : Reg) (m : Machine) : (Instr.mv rd rs).exec m = m.set rd (m.get rs) :=
  congrArg (m.set rd) (BitVec.add_zero _)

theorem moves_append (l l' : List (Reg × Reg)) : moves (l ++ l') = moves l ++ moves l' :=
  List.map_append

/-- Moves write to nothing but registers. -/
theorem run_moves_eq (l : List (Reg × Reg)) (m : Machine) :
    ∃ x, run (moves l) m = { m with x := x } := by
  induction l generalizing m with
  | nil => exact ⟨m.x, rfl⟩
  | cons p l ih =>
    obtain ⟨x, hx⟩ := ih (m.set p.1 (m.get p.2))
    exact ⟨x, by rw [moves, List.map_cons, run_cons, exec_mv]; exact hx⟩

/-- What the other registers hold. -/
theorem get_run_moves_of_ne (h : ∀ p ∈ l, p.1 ≠ r) : (run (moves l) m).get r = m.get r := by
  induction l generalizing m with
  | nil => rfl
  | cons p l ih =>
    have hl := ih (m := (Instr.mv p.1 p.2).exec m) fun q hq => h q (List.mem_cons_of_mem p hq)
    rw [moves, List.map_cons, run_cons]
    refine hl.trans ?_
    rw [exec_mv, Machine.get_set_of_ne (h p List.mem_cons_self).symm]

/-- **Moves in a row move all at once exactly if** none of them reads what another has overwritten
before. -/
theorem forall_get_run_moves_iff (hd : (l.map Prod.fst).Nodup) (h0 : ∀ p ∈ l, p.1 ≠ 0) :
    (∀ m, ∀ p ∈ l, (run (moves l) m).get p.1 = m.get p.2) ↔
      l.Pairwise fun p q => q.2 = p.1 → p.2 = p.1 := by
  induction l using List.reverseRecOn with
  | nil => simp
  | append_singleton l q ih =>
    rw [List.map_append, List.map_singleton, List.nodup_append] at hd
    obtain ⟨hd, -, hq⟩ := hd
    have hne : ∀ p ∈ l, p.1 ≠ q.1 := fun p hp =>
      hq _ (List.mem_map_of_mem hp) _ (List.mem_singleton_self _)
    have ih := ih hd fun p hp => h0 p (List.mem_append_left _ hp)
    -- the last move changes nothing that the others have moved, and reads what they left
    have hrun : ∀ m, run (moves (l ++ [q])) m =
        (run (moves l) m).set q.1 ((run (moves l) m).get q.2) := fun m => by
      rw [moves_append, run_append]
      exact exec_mv ..
    have hfirst : ∀ m, ∀ p ∈ l, (run (moves (l ++ [q])) m).get p.1 = (run (moves l) m).get p.1 :=
      fun m p hp => by rw [hrun, Machine.get_set_of_ne (hne p hp)]
    have hlast : ∀ m, (run (moves (l ++ [q])) m).get q.1 = (run (moves l) m).get q.2 := fun m => by
      rw [hrun, Machine.get_set_self (h0 q (by simp))]
    rw [List.pairwise_append, ← ih]
    constructor
    · intro h
      have hl : ∀ m, ∀ p ∈ l, (run (moves l) m).get p.1 = m.get p.2 := fun m p hp =>
        (hfirst m p hp).symm.trans (h m p (List.mem_append_left _ hp))
      refine ⟨hl, List.pairwise_singleton .., fun p hp q' hq' he => ?_⟩
      obtain rfl := List.mem_singleton.1 hq'
      -- a hart whose registers are all different
      let m : Machine := ⟨fun r => BitVec.ofNat 64 r, fun _ => 0, fun _ => 0, 0, .user⟩
      have hget : ∀ r : Reg, m.get r = BitVec.ofNat 64 r := fun r => by
        rw [Machine.get]
        split
        · rename_i h
          rw [h]; rfl
        · rfl
      have hval : m.get p.2 = m.get p.1 := by
        rw [← hl m p hp, ← he, ← hlast, h m q' (by simp)]
      rw [hget, hget] at hval
      have hnat := congrArg BitVec.toNat hval
      rw [BitVec.toNat_ofNat, BitVec.toNat_ofNat] at hnat
      apply Fin.ext
      omega
    · rintro ⟨hl, -, hq'⟩ m p hp
      rcases List.mem_append.1 hp with hp | hp
      · rw [hfirst m p hp, hl m p hp]
      · obtain rfl := List.mem_singleton.1 hp
        rw [hlast]
        -- what it reads is as it was, or has been moved to itself
        by_cases hmem : ∃ p' ∈ l, p'.1 = p.2
        · obtain ⟨p', hp', he⟩ := hmem
          rw [← he, hl m p' hp', hq' p' hp' p (List.mem_singleton_self p) he.symm]
        · exact get_run_moves_of_ne fun p' hp' he => hmem ⟨p', hp', he⟩

end Lemmas

end Riscv
