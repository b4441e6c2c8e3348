import Mathlib.Data.Fin.VecNotation
import UcasOs.Arch.Transparency

/-!
# System calls, from the task to the kernel and back

`tiny_libc/syscall.c` puts the number and the arguments of a system call into registers and traps;
`handle_syscall` takes them out of the frame and calls a function of the kernel.

* `SysCall`, `KernelCall` — what a task can ask for, and what the kernel can be asked to do, with
  the arguments as the functions of either side declare them.
* `Operands.delivers_iff` — the `asm` in `invoke_syscall` does not say which registers it writes to,
  so it depends on where the compiler has put the operands whether the arguments arrive.
* `Path.syscall_contract` — **if they do, the kernel is asked for what the task wants**, whatever
  happens between the trap and the call, and the task goes on with the result.
-/

set_option autoImplicit false

namespace UcasOs

open Riscv Reg

/-! ## `invoke_syscall` -/

/-- The registers of the operands `%0`, ..., `%6` of the `asm` in `invoke_syscall`. -/
abbrev Operands := Fin 7 → Reg

/-- What the `asm` moves, and where to: the number of the system call and the arguments. -/
def Operands.moved (op : Operands) : List (Reg × Reg) :=
  [(a7, op 1), (a0, op 2), (a1, op 3), (a2, op 4), (a3, op 5), (a4, op 6)]

/-- The `asm` in `invoke_syscall`, up to `ecall`. -/
def invokeSyscall (op : Operands) : List Instr := moves op.moved

/-- The number of the system call and the first `n` arguments arrive. -/
def Operands.Delivers (op : Operands) (n : ℕ) : Prop :=
  ∀ m, ∀ p ∈ op.moved.take (n + 1), (run (invokeSyscall op) m).get p.1 = m.get p.2

theorem Operands.map_fst_moved (op : Operands) : op.moved.map Prod.fst = [a7, a0, a1, a2, a3, a4] :=
  rfl

theorem Operands.nodup_take (op : Operands) (n : ℕ) : ((op.moved.take n).map Prod.fst).Nodup :=
  List.Nodup.sublist ((List.take_sublist n _).map Prod.fst) (by rw [op.map_fst_moved]; decide)

theorem Operands.take_ne_zero (op : Operands) (n : ℕ) : ∀ p ∈ op.moved.take n, p.1 ≠ 0 :=
  fun p hp he => by
    have hmem := List.mem_map_of_mem (f := Prod.fst) (List.mem_of_mem_take hp)
    rw [op.map_fst_moved, he] at hmem
    exact absurd hmem (by decide)

/-- The moves of the other arguments leave these alone. -/
theorem Operands.delivers_iff_take (op : Operands) (n : ℕ) : op.Delivers n ↔
    ∀ m, ∀ p ∈ op.moved.take (n + 1),
      (run (moves (op.moved.take (n + 1))) m).get p.1 = m.get p.2 := by
  have hnodup : (op.moved.map Prod.fst).Nodup := by rw [op.map_fst_moved]; decide
  rw [← List.take_append_drop (n + 1) op.moved, List.map_append, List.nodup_append] at hnodup
  refine forall_congr' fun m => forall₂_congr fun p hp => ?_
  have hrest : (run (invokeSyscall op) m).get p.1 =
      (run (moves (op.moved.take (n + 1))) m).get p.1 := by
    rw [invokeSyscall, ← List.take_append_drop (n + 1) op.moved, moves_append, run_append,
      List.take_append_drop]
    exact get_run_moves_of_ne fun q hq => Ne.symm
      (hnodup.2.2 _ (List.mem_map_of_mem hp) _ (List.mem_map_of_mem hq))
  rw [hrest]

/-- **When the arguments arrive**: the number and the first `n` arguments do exactly if none of them
is in a register that one before it is moved to, unless that one was there already. -/
theorem Operands.delivers_iff (op : Operands) (n : ℕ) :
    op.Delivers n ↔ (op.moved.take (n + 1)).Pairwise fun p q => q.2 = p.1 → p.2 = p.1 :=
  (op.delivers_iff_take n).trans
    (forall_get_run_moves_iff (op.nodup_take _) (op.take_ne_zero _))

/-- With the operands in `a5`, `a4`, ..., `a0`, one after the other, three arguments arrive but not
a fourth. -/
example : let moved := Operands.moved ![a5, a5, a4, a3, a2, a1, a0]
    ((moved.take 4).Pairwise fun p q => q.2 = p.1 → p.2 = p.1) ∧
      ¬ (moved.take 5).Pairwise fun p q => q.2 = p.1 → p.2 = p.1 := by
  decide

/-! ## What is asked for -/

/-- The functions of `tiny_libc/syscall.c`, with their arguments. -/
inductive SysCall
  | sleep (time : BitVec 32)
  | yield
  | write (buff : Word)
  | moveCursor (x y : BitVec 32)
  | reflush
  | getTimebase
  | getTick
  | mutexInit (key : BitVec 32)
  | mutexAcquire (mutexIdx : BitVec 32)
  | mutexRelease (mutexIdx : BitVec 32)
  | threadCreate (func arg0 arg1 arg2 arg3 : Word)
  | threadYield

namespace SysCall

/-- The number that the function gives to `invoke_syscall`. -/
def sysno : SysCall → Word
  | sleep _ => 2
  | yield => 7
  | write _ => 20
  | moveCursor _ _ => 22
  | reflush => 23
  | getTimebase => 30
  | getTick => 31
  | mutexInit _ => 40
  | mutexAcquire _ => 41
  | mutexRelease _ => 42
  | threadCreate .. => 50
  | threadYield => 51

/-- The arguments that it gives to `invoke_syscall` before the `IGNORE`s, as `long`s: an `int` is
extended with its sign, a `uint32_t` with zeros. -/
def args : SysCall → List Word
  | sleep time => [time.setWidth 64]
  | write buff => [buff]
  | moveCursor x y => [x.signExtend 64, y.signExtend 64]
  | mutexInit key => [key.signExtend 64]
  | mutexAcquire mutexIdx => [mutexIdx.signExtend 64]
  | mutexRelease mutexIdx => [mutexIdx.signExtend 64]
  | threadCreate func arg0 arg1 arg2 arg3 => [func, arg0, arg1, arg2, arg3]
  | yield | reflush | getTimebase | getTick | threadYield => []

/-- `IGNORE` -/
def IGNORE : Word := 0

/-- What it gives to `invoke_syscall`. -/
def operands (call : SysCall) : List Word :=
  call.sysno :: (call.args ++ List.replicate (5 - call.args.length) IGNORE)

end SysCall

/-- The functions of the kernel that `handle_syscall` may call, with their arguments. -/
inductive KernelCall
  | doSleep (sleepTime : BitVec 32)
  | doScheduler
  | screenWrite (buff : Word)
  | screenMoveCursor (x y : BitVec 32)
  | screenReflush
  | getTimeBase
  | getTicks
  | doMutexLockInit (key : BitVec 32)
  | doMutexLockAcquire (mlockIdx : BitVec 32)
  | doMutexLockRelease (mlockIdx : BitVec 32)
  | doExit
  | doThreadCreate (func arg0 arg1 arg2 arg3 : Word)
  | doThreadYield

namespace KernelCall

/-- The call of `f` with the registers `arg`: each argument is as wide as `f` declares it. -/
def of (arg : Fin 5 → Word) : Syscall → KernelCall
  | .doSleep => doSleep ((arg 0).setWidth 32)
  | .doScheduler => doScheduler
  | .screenWrite => screenWrite (arg 0)
  | .screenMoveCursor => screenMoveCursor ((arg 0).setWidth 32) ((arg 1).setWidth 32)
  | .screenReflush => screenReflush
  | .getTimeBase => getTimeBase
  | .getTicks => getTicks
  | .doMutexLockInit => doMutexLockInit ((arg 0).setWidth 32)
  | .doMutexLockAcquire => doMutexLockAcquire ((arg 0).setWidth 32)
  | .doMutexLockRelease => doMutexLockRelease ((arg 0).setWidth 32)
  | .doExit => doExit
  | .doThreadCreate => doThreadCreate (arg 0) (arg 1) (arg 2) (arg 3) (arg 4)
  | .doThreadYield => doThreadYield

end KernelCall

/-- What the task asks the kernel for. -/
def SysCall.kernelCall : SysCall → KernelCall
  | sleep time => .doSleep time
  | yield => .doScheduler
  | write buff => .screenWrite buff
  | moveCursor x y => .screenMoveCursor x y
  | reflush => .screenReflush
  | getTimebase => .getTimeBase
  | getTick => .getTicks
  | mutexInit key => .doMutexLockInit key
  | mutexAcquire mutexIdx => .doMutexLockAcquire mutexIdx
  | mutexRelease mutexIdx => .doMutexLockRelease mutexIdx
  | threadCreate func arg0 arg1 arg2 arg3 => .doThreadCreate func arg0 arg1 arg2 arg3
  | threadYield => .doThreadYield

theorem setWidth_signExtend (x : BitVec 32) : (x.signExtend 64).setWidth 32 = x := by
  apply BitVec.eq_of_getLsbD_eq
  intro i hi
  rw [BitVec.getLsbD_setWidth, BitVec.getLsbD_signExtend]
  simp [hi, Nat.lt_trans hi (by decide : 32 < 64)]

theorem setWidth_setWidth (x : BitVec 32) : (x.setWidth 64).setWidth 32 = x := by
  rw [BitVec.setWidth_setWidth_of_le x (by decide), BitVec.setWidth_eq]

/-- **Both sides agree about numbers and arguments**: the function of that number, called with those
arguments and whatever else, does what the task asks for. -/
theorem SysCall.exists_installed (call : SysCall) :
    ∃ f, fetch syscallTable call.sysno = .installed f ∧
      ∀ arg : Fin 5 → Word,
        (∀ (i : Fin 5) (h : i < call.args.length), arg i = call.args.get ⟨i, h⟩) →
        KernelCall.of arg f = call.kernelCall := by
  have h0 : ∀ {arg : Fin 5 → Word} {x : Word} {l : List Word},
      (∀ (i : Fin 5) (h : i < (x :: l).length), arg i = (x :: l).get ⟨i, h⟩) → arg 0 = x :=
    fun h => h 0 (by simp)
  cases call with
  | sleep time =>
    exact ⟨.doSleep, rfl, fun arg h => by rw [KernelCall.of, h0 h, setWidth_setWidth]; rfl⟩
  | moveCursor x y =>
    refine ⟨.screenMoveCursor, rfl, fun arg h => ?_⟩
    have h1 : arg 1 = y.signExtend 64 := h 1 (by simp [args])
    rw [KernelCall.of, h0 h, h1, setWidth_signExtend, setWidth_signExtend]; rfl
  | mutexInit key =>
    exact ⟨.doMutexLockInit, rfl,
      fun arg h => by rw [KernelCall.of, h0 h, setWidth_signExtend]; rfl⟩
  | mutexAcquire key =>
    exact ⟨.doMutexLockAcquire, rfl,
      fun arg h => by rw [KernelCall.of, h0 h, setWidth_signExtend]; rfl⟩
  | mutexRelease key =>
    exact ⟨.doMutexLockRelease, rfl,
      fun arg h => by rw [KernelCall.of, h0 h, setWidth_signExtend]; rfl⟩
  | write buff => exact ⟨.screenWrite, rfl, fun arg h => by rw [KernelCall.of, h0 h]; rfl⟩
  | threadCreate func arg0 arg1 arg2 arg3 =>
    refine ⟨.doThreadCreate, rfl, fun arg h => ?_⟩
    have h1 : arg 1 = arg0 := h 1 (by simp [args])
    have h2 : arg 2 = arg1 := h 2 (by simp [args])
    have h3 : arg 3 = arg2 := h 3 (by simp [args])
    have h4 : arg 4 = arg3 := h 4 (by simp [args])
    rw [KernelCall.of, h0 h, h1, h2, h3, h4]; rfl
  | yield => exact ⟨.doScheduler, rfl, fun _ _ => rfl⟩
  | reflush => exact ⟨.screenReflush, rfl, fun _ _ => rfl⟩
  | getTimebase => exact ⟨.getTimeBase, rfl, fun _ _ => rfl⟩
  | getTick => exact ⟨.getTicks, rfl, fun _ _ => rfl⟩
  | threadYield => exact ⟨.doThreadYield, rfl, fun _ _ => rfl⟩

/-! ## From the trap to the call and back -/

/-- The arguments that `handle_syscall` takes out of the `regs_context_t`. -/
def callArgs (regs : Word) (mem : Word → Word) (i : Fin 5) : Word :=
  mem (element regs (![OFFSET_REG_A0, OFFSET_REG_A1, OFFSET_REG_A2, OFFSET_REG_A3,
    OFFSET_REG_A4] i >>> 3))

section Path

variable {T : Type} [DecidableEq T] {L : Layout T} {sym : Symbols} {m₀ : Machine}
  {s₀ s s₁ s₂ s₃ : State T} {ls ls' : List (Label T)} {c : T} {call : SysCall} {op : Operands}
  {p : Word} {mem : Word → Word}

omit [DecidableEq T] in
/-- `handle_syscall` takes the arguments from where the context has `a0`, ..., `a4`. -/
theorem callArgs_eq (p : Word) (mem : Word → Word) : ∀ i : Fin 5,
    callArgs p mem i = (RegsContext.read p mem).regs (![a0, a1, a2, a3, a4] i)
  | 0 => rfl
  | 1 => rfl
  | 2 => rfl
  | 3 => rfl
  | 4 => rfl

omit [DecidableEq T] in
/-- It takes the number from where the context has `a7`. -/
theorem syscallOf_eq (p : Word) (mem : Word → Word) :
    syscallOf p mem = fetch syscallTable ((RegsContext.read p mem).regs a7) := rfl

omit [DecidableEq T] in
/-- What the moves leave in the registers that `handle_syscall` looks at. -/
theorem Operands.Delivers.get (h : op.Delivers call.args.length) {m : Machine}
    (hvals : op.moved.map (m.get ·.2) = call.operands) :
    (run (invokeSyscall op) m).get a7 = call.sysno ∧
      ∀ (i : Fin 5) (hi : i < call.args.length),
        (run (invokeSyscall op) m).get (![a0, a1, a2, a3, a4] i) = call.args.get ⟨i, hi⟩ := by
  have hget : ∀ {j : ℕ} {r : Reg} {w : Word}, j ≤ call.args.length →
      (op.moved.map Prod.fst)[j]? = some r → call.operands[j]? = some w →
      (run (invokeSyscall op) m).get r = w := fun {j r w} hj hr hw => by
    rw [List.getElem?_map] at hr
    obtain ⟨q, hq, rfl⟩ := Option.map_eq_some_iff.1 hr
    rw [← hvals, List.getElem?_map, hq] at hw
    rw [h m q (List.mem_of_getElem? ((List.getElem?_take_of_lt (by omega)).trans hq))]
    exact Option.some_inj.1 hw
  have hregs : ∀ i : Fin 5,
      [a7, a0, a1, a2, a3, a4][i.val + 1]? = some (![a0, a1, a2, a3, a4] i) := by
    decide
  refine ⟨hget (Nat.zero_le _) rfl rfl, fun i hi => hget hi (hregs i) ?_⟩
  · rw [SysCall.operands, List.getElem?_cons_succ, List.getElem?_append_left hi]
    exact List.getElem?_eq_getElem hi

/-- **A system call gets to the kernel and back.**  A task executes the `asm` in `invoke_syscall`,
with the operands of `call` in registers from which the arguments arrive.  Whatever happens after
the trap, in this task and in others: as long as `handle_syscall` has not returned, the function
that it takes from its table, called with the arguments that it takes from the frame, is what `call`
asks for; and when the task is back in user mode, `invoke_syscall` returns what that function did,
with all the registers as they were but those the `asm` writes to. -/
theorem Path.syscall_contract (hop : op.Delivers call.args.length) (hboot : Boots L sym m₀ s₀)
    (hbefore : Path L sym s₀ ls s) (hvals : op.moved.map (s.machine.get ·.2) = call.operands)
    (hmoves : Step L sym s .user s₁)
    (hm : s₁.machine.get = (run (invokeSyscall op) s.machine).get)
    (htrap : Step L sym s₁ (.trap c EXC_SYSCALL) s₂) (haway : Path L sym s₂ ls' s₃)
    (hret : Label.ret c ∉ ls') :
    (results c ls' = [] → ∃ f, syscallOf (L.frame c) s₃.machine.mem = .installed f ∧
      KernelCall.of (callArgs (L.frame c) s₃.machine.mem) f = call.kernelCall) ∧
    ∀ s₄, Step L sym s₃ (.ret c) s₄ → ∃ result, results c ls' = [result] ∧
      s₄.machine.pc = s₁.machine.pc + 4 ∧
      (op 0 ≠ 0 → (run [.mv (op 0) a0] s₄.machine).get (op 0) = result) ∧
      ∀ r, r ∉ op.moved.map Prod.fst → s₄.machine.get r = s.machine.get r := by
  have hinv := (hboot.inv.of_path hbefore).step hmoves
  have hinv₂ := hinv.step htrap
  have hinv₃ := hinv₂.of_path haway
  obtain ⟨tval, rfl, hact, rfl⟩ := htrap.of_trap
  have hpending := (Pending.of_trap hinv hact).of_path hinv₂ haway hret
  have hregs : (RegsContext.held (s₁.machine.takeTrap EXC_SYSCALL tval)).regs = s₁.machine.get :=
    rfl
  refine ⟨fun hres => ?_, fun s₄ hback => ?_⟩
  · have hread : RegsContext.read (L.frame s₁.cur) s₃.machine.mem =
        RegsContext.held (s₁.machine.takeTrap EXC_SYSCALL tval) := by
      cases hpending with
      | inHandler _ _ _ hread => exact hread
      | timer _ _ _ hread => exact hread
      | syscall result _ _ _ _ hls => exact absurd (hres.symm.trans hls) (by simp)
    obtain ⟨ha7, hargs⟩ := hop.get hvals
    obtain ⟨f, hf, hcall⟩ := call.exists_installed
    refine ⟨f, ?_, hcall _ fun i hi => ?_⟩
    · rw [syscallOf_eq, hread, hregs, hm, ha7, hf]
    · rw [callArgs_eq, hread, hregs, hm]
      exact hargs i hi
  · obtain ⟨hcur, hact₃, rfl⟩ := hback.of_ret
    obtain ⟨hget, hpc, -⟩ := hinv₃.ret_spec hact₃
    rw [← hcur] at hget hpc
    cases hpending with
    | inHandler call hcause hact' =>
      exfalso
      rw [hcur] at hact'
      rcases hact' with h | ⟨caller, h⟩ <;> rcases hact₃ with h' | ⟨start, h'⟩ <;>
        rw [h] at h' <;> cases h'
    | timer hcause =>
      rw [interruptHelper_eq_handleSyscall.2 rfl] at hcause
      cases hcause
    | syscall result _ _ _ hread hls =>
      rw [hread] at hget hpc
      refine ⟨result, hls, hpc, fun h0 => ?_, fun r hr => ?_⟩
      · rw [run_cons, run_nil, exec_mv, Machine.get_set_self h0]
        refine (congrFun hget a0).trans ?_
        rw [RegsContext.regs_sysret, Function.update_self]
      · have hne : r ≠ a0 := fun he => hr (he ▸ by simp [Operands.moved])
        refine (congrFun hget r).trans ?_
        rw [RegsContext.regs_sysret, Function.update_of_ne hne, hregs, hm]
        exact get_run_moves_of_ne fun q hq he => hr (he ▸ List.mem_map_of_mem hq)

end Path

/-- The first of two tasks calls `sys_sleep(5)`.  Only when another task has had the hart is the
kernel asked for that, and the task gets `7` back. -/
theorem Path.syscall_contract_sleep :
    let L := twoPcbs.layout
    let sym : Symbols := ⟨0x50201000, 0x50202000, 0x50203000⟩
    ∃ s₀ s s₁ s₂ s₃ s₄ s₅ : State (Fin stackCapacity),
      Path L sym s₀ [.ret firstTask, .user] s ∧ Step L sym s .user s₁ ∧
      Step L sym s₁ (.trap firstTask EXC_SYSCALL) s₂ ∧
      Path L sym s₂ [.switch firstTask secondTask, .ret secondTask, .trap secondTask EXC_SYSCALL,
        .switch secondTask firstTask, .resume firstTask] s₃ ∧
      (∃ f, syscallOf (L.frame firstTask) s₃.machine.mem = .installed f ∧
        KernelCall.of (callArgs (L.frame firstTask) s₃.machine.mem) f = .doSleep 5) ∧
      Step L sym s₃ (.syscall firstTask 7) s₄ ∧ Step L sym s₄ (.ret firstTask) s₅ ∧
      (run [.mv a5 a0] s₅.machine).get a5 = 7 := by
  intro L sym
  let op : Operands := ![a5, a5, a4, a3, a2, a1, a0]
  have hop : op.Delivers (SysCall.sleep 5).args.length := (op.delivers_iff_take 1).2
    ((forall_get_run_moves_iff (op.nodup_take _) (op.take_ne_zero _)).2 (by decide))
  obtain ⟨m₀, s₀, hboot, hcur₀, hfirst, hsecond, -⟩ := exists_boots_twoPcbs sym fun _ => 0x52000000
  have hne : secondTask ≠ firstTask := by decide
  obtain ⟨s', hret, hcur', hact', hsame'⟩ := hboot.inv.exists_ret hcur₀ hfirst
  rw [← hsame' _ hne] at hsecond
  rw [← hcur'] at hact'
  -- the task gets the operands ready, moves them and traps
  obtain ⟨s, huser, hcur, hsame, hact, hvals⟩ : ∃ s, Step L sym s' .user s ∧ s.cur = firstTask ∧
      s.act = s'.act ∧ s.act s.cur = .user ∧
        op.moved.map (s.machine.get ·.2) = (SysCall.sleep 5).operands :=
    ⟨{ s' with machine := { s'.machine with
      x := fun r => if r = tp then s'.machine.x tp else if r = a5 then 2 else if r = a4 then 5
        else 0 } }, .user hact' rfl rfl rfl fun _ h => absurd rfl h, hcur', rfl, hact', rfl⟩
  obtain ⟨x, hx⟩ := run_moves_eq op.moved s.machine
  have htp : (run (invokeSyscall op) s.machine).get tp = s.machine.get tp :=
    get_run_moves_of_ne (List.all_iff_forall_prop.1 (by decide))
  obtain ⟨s₁, hmoves, hcur₁, hsame₁, hact₁, hm⟩ : ∃ s₁, Step L sym s .user s₁ ∧
      s₁.cur = firstTask ∧ s₁.act = s.act ∧ s₁.act firstTask = .user ∧
        s₁.machine.get = (run (invokeSyscall op) s.machine).get := by
    refine ⟨{ s with machine := run (invokeSyscall op) s.machine }, .user hact htp ?_ ?_ ?_, hcur,
      rfl, hcur ▸ hact, rfl⟩
    all_goals rw [invokeSyscall, hx]
    exact fun _ h => absurd rfl h
  have hbefore := Path.snoc (.snoc (.nil _) hret) huser
  have hinv₁ := (hboot.inv.of_path hbefore).step hmoves
  obtain ⟨s₂, call, htrap, hcur₂, hact₂, hsame₂, hcause⟩ := hinv₁.exists_trap hcur₁ hact₁
  have hinv₂ := hinv₁.step htrap
  rw [← hsame, ← hsame₁, ← hsame₂ _ hne] at hsecond
  obtain ⟨s₃, hdetour, hcur₃, hact₃⟩ := hinv₂.exists_detour hcur₂ hact₂ hne hsecond
  obtain ⟨s₄, s₅, hsyscall, hback⟩ :=
    (hinv₂.of_path hdetour).exists_syscall hcur₃ hact₃ hcause 7
  obtain ⟨hcall, -⟩ := Path.syscall_contract hop hboot hbefore hvals hmoves hm htrap hdetour
    (by simp [hne.symm])
  obtain ⟨-, hresult⟩ := Path.syscall_contract hop hboot hbefore hvals hmoves hm htrap
    (hdetour.snoc hsyscall) (by simp [hne.symm])
  obtain ⟨result, hres, -, hget, -⟩ := hresult s₅ hback
  have hresults : result = 7 := by simpa [results, eq_comm] using hres
  exact ⟨s₀, s, s₁, s₂, s₃, s₄, s₅, hbefore, hmoves, htrap, hdetour, hcall (by simp [results]),
    hsyscall, hback, hresults ▸ hget (by decide)⟩

end UcasOs
