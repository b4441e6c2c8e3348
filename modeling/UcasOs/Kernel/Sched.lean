import UcasOs.Kernel.State

/-!
# The scheduler, the locks and the threads

`kernel/sched/sched.c`, `time.c` and `thread.c`, `kernel/locking/lock.c`, and the part of
`init/main.c` that builds the first state: every function on the pointers and fields of `Kernel`,
in the order of the source.

`none` is undefined behaviour: `list_entry` of something that is not a PCB's node, or an index
outside `mlocks[]`.  The one loop whose length depends on the heap, the loop of `check_sleeping`,
takes `fuel`; it is `none` as well when the fuel does not last, which on a corrupted list it may
never do.  `switch_to` ends every function that calls it, and the task it switches to comes out of
its own call with nothing left to do, so that for the kernel's data it is the assignment of
`current_running` before it that counts.

Kernel code runs with interrupts off.  A state change is therefore one whole trap, from user mode
to user mode: `trap` dispatches to the handler, and `Kernel.Step` adds that the boot context, which
never leaves `main`, only ever takes timer interrupts.
-/

set_option autoImplicit false

namespace UcasOs

namespace Kernel

/-- Update the data and leave the list nodes alone. -/
def withCore (f : Core → Core) (k : Kernel) : Kernel := { k with toCore := f k.toCore }

/-- Update the list nodes and leave the data alone. -/
def withLinks (f : Links NodePtr → Links NodePtr) (k : Kernel) : Kernel :=
  { k with links := f k.links }

/-! ## `do_block` and `do_unblock` -/

/-- `do_block(pcb_node, queue)` -/
def doBlock (pcbNode queue : NodePtr) (k : Kernel) : Option Kernel := do
  let blockPcb ← listEntry pcbNode
  return (k.withCore (·.setStatus blockPcb .blocked)).withLinks (·.listMoveTail pcbNode queue)

/-- `do_unblock(pcb_node)` -/
def doUnblock (pcbNode : NodePtr) (k : Kernel) : Option Kernel := do
  let unblockPcb ← listEntry pcbNode
  return (k.withCore fun c => (c.setStatus unblockPcb .ready).logAppended unblockPcb).withLinks
    (·.listMoveTail pcbNode readyQueue)

/-! ## `check_sleeping` -/

/-- The loop `list_for_each_safe(pos, n, &sleep_queue)` of `check_sleeping`. -/
def checkSleepingLoop : ℕ → NodePtr → NodePtr → Kernel → Option Kernel
  | 0, _, _, _ => none
  | fuel + 1, pos, n, k =>
    if pos = sleepQueue then some k
    else do
      let pcb ← listEntry pos
      let (now, c) := k.getTimer
      let k := { k with toCore := c }
      let k ← if k.wakeupTime pcb ≤ now then k.doUnblock pos else some k
      checkSleepingLoop fuel n (k.links.next n) k

/-- `check_sleeping()` -/
def checkSleeping (fuel : ℕ) (k : Kernel) : Option Kernel :=
  let pos := k.links.next sleepQueue
  let n := k.links.next pos
  checkSleepingLoop fuel pos n k

/-! ## `do_scheduler` and its callers -/

/-- `do_scheduler()` after its call of `check_sleeping`. -/
def schedule (k : Kernel) : Option Kernel := do
  let preRunning := k.currentRunning
  if k.links.listEmpty readyQueue then return k
  let k :=
    if k.status preRunning = .running then
      (k.withCore fun c => (c.setStatus preRunning .ready).logAppended preRunning).withLinks
        (·.listAddTail (.list preRunning) readyQueue)
    else k
  let next ← listEntry (k.links.next readyQueue)
  return (k.withCore (·.dispatch next)).withLinks (·.listDelInit (.list next))

/-- `do_scheduler()` -/
def doScheduler (fuel : ℕ) (k : Kernel) : Option Kernel := do
  let k ← k.checkSleeping fuel
  k.schedule

/-- `do_sleep(sleep_time)` up to its call of `do_scheduler`. -/
def sleepCurrent (sleepTime : UInt32) (k : Kernel) : Option Kernel := do
  let k ← k.doBlock (.list k.currentRunning) sleepQueue
  let (now, c) := k.getTimer
  return { k with toCore := c.setWakeupTime c.currentRunning (now + sleepTime.toNat) }

/-- `do_sleep(sleep_time)` -/
def doSleep (fuel : ℕ) (sleepTime : UInt32) (k : Kernel) : Option Kernel := do
  let k ← k.sleepCurrent sleepTime
  k.doScheduler fuel

/-- `do_exit()` up to its call of `do_scheduler`. -/
def exitCurrent (k : Kernel) : Kernel := k.withCore (·.setStatus k.currentRunning .exited)

/-- `do_exit()` -/
def doExit (fuel : ℕ) (k : Kernel) : Option Kernel := k.exitCurrent.doScheduler fuel

/-- `handle_irq_timer()`.  Programming the next timer interrupt reads the time, and has no effect
on the kernel's data. -/
def handleIrqTimer (fuel : ℕ) (k : Kernel) : Option Kernel :=
  (k.withCore fun c => c.getTicks.2).doScheduler fuel

/-! ## Threads -/

/-- `do_thread_create(func, arg0, ..., arg3)`, as far as the scheduler is concerned: what
`init_tcb_stack` writes on the new kernel stack is the business of `Arch/Layout.lean`. -/
def doThreadCreate (k : Kernel) : Kernel :=
  let (given, mm) := k.mm.giveStacks
  let threadTcb := PcbPtr.tcb k.nthreads
  let k := k.withCore fun c =>
    { c with mm := mm
             givenStacks := Function.update c.givenStacks threadTcb given
             nthreads := c.nthreads + 1
             pid := Function.update c.pid threadTcb (c.pid c.currentRunning)
             status := Function.update c.status threadTcb .ready }
  let k := k.withLinks (·.initListHead (.list threadTcb))
  let k := k.withLinks (·.initListHead (.threadGroup threadTcb))
  k.withLinks (·.listAdd (.threadGroup threadTcb) (.threadGroup k.currentRunning))

/-- `do_thread_yield()` -/
def doThreadYield (k : Kernel) : Option Kernel := do
  let preRunning := k.currentRunning
  let next ← threadGroupEntry (k.links.next (.threadGroup preRunning))
  let k := k.withCore ({ · with currentRunning := next })
  let k := k.withCore (·.setStatus preRunning .ready)
  let k := k.withCore (·.setStatus next .running)
  return k.withLinks (·.initListHead (.list next))

/-! ## Mutex locks -/

/-- `do_mutex_lock_acquire(mlock_idx)` up to its call of `do_scheduler`, and whether it makes that
call. -/
def acquireOrBlock (mlockIdx : ℤ) (k : Kernel) : Option (Kernel × Bool) := do
  let i ← mlockIndex mlockIdx
  if (k.mlocks i).key = -1 then return (k, false)
  let (status, c) := k.spinLockTryAcquire i
  let k := { k with toCore := c }
  if status = .unlocked then return (k, false)
  let k ← k.doBlock (.list k.currentRunning) (blockQueue i)
  return (k, true)

/-- `do_mutex_lock_acquire(mlock_idx)` -/
def doMutexLockAcquire (fuel : ℕ) (mlockIdx : ℤ) (k : Kernel) : Option Kernel := do
  let (k, blocked) ← k.acquireOrBlock mlockIdx
  if blocked then k.doScheduler fuel else return k

/-- `do_mutex_lock_release(mlock_idx)` -/
def doMutexLockRelease (mlockIdx : ℤ) (k : Kernel) : Option Kernel := do
  let i ← mlockIndex mlockIdx
  if (k.mlocks i).key = -1 then return k
  if k.links.listEmpty (blockQueue i) then return k.withCore (·.spinLockRelease i)
  k.doUnblock (k.links.next (blockQueue i))

/-! ## The first state -/

/-- The kernel's data as the linker lays it out: `ready_queue` and `sleep_queue` are initialised
statically, `.bss` is zero, and a zero `task_status_t` is `TASK_BLOCKED`. -/
def static (timeBase : ℕ) (clock : ℕ → ℕ) : Kernel where
  currentRunning := .pid0
  pid _ := 0
  status _ := .blocked
  wakeupTime _ := 0
  mlocks _ := ⟨.unlocked, 0⟩
  timeBase := timeBase
  timeElapsed := 0
  clock := clock
  mm := {}
  ntasks := 0
  nthreads := 0
  givenStacks _ := ⟨0, 0⟩
  appended := []
  dispatched := []
  links := ((⟨fun _ => .null, fun _ => .null⟩ : Links NodePtr).initListHead readyQueue).initListHead
    sleepQueue

/-- One iteration of the loop of `init_pcb`, for `pcb[i]`. -/
def initPcbIter (i : ℕ) (k : Kernel) : Kernel :=
  let (given, mm) := k.mm.giveStacks
  let k := k.withCore fun c =>
    { c with mm := mm
             givenStacks := Function.update c.givenStacks (.pcb i) given
             ntasks := c.ntasks + 1
             pid := Function.update c.pid (.pcb i) (i + 1)
             status := Function.update c.status (.pcb i) .ready }
  let k := k.withLinks (·.initListHead (.list (.pcb i)))
  let k := k.withLinks (·.initListHead (.threadGroup (.pcb i)))
  (k.withCore (·.logAppended (.pcb i))).withLinks (·.listAddTail (.list (.pcb i)) readyQueue)

/-- `init_pcb()` when `tasks[]` names `n` tasks. -/
def initPcb : ℕ → Kernel → Kernel
  | 0, k => k
  | n + 1, k => (initPcb n k).initPcbIter n

/-- One iteration of the loop of `init_locks`, for `mlocks[i]`. -/
def initLock (k : Kernel) (i : Fin LOCK_NUM) : Kernel :=
  (k.withCore fun c => (c.setLockStatus i .unlocked).setLockKey i (-1)).withLinks
    (·.initListHead (blockQueue i))

/-- `init_locks()` -/
def initLocks (k : Kernel) : Kernel := (List.finRange LOCK_NUM).foldl initLock k

/-- The state in which `main` enables interrupts, when `tasks[]` names `n` tasks. -/
def boot (n timeBase : ℕ) (clock : ℕ → ℕ) : Kernel := (initPcb n (static timeBase clock)).initLocks

end Kernel

/-! ## Traps -/

/-- What a running task can make the kernel do: the timer interrupt, and the system calls that
touch the scheduler's data. -/
inductive Op
  | timer
  | yield
  | sleep (sleepTime : UInt32)
  | lockInit (key : ℤ)
  | lockAcquire (mlockIdx : ℤ)
  | lockRelease (mlockIdx : ℤ)
  | exit
  | threadCreate
  | threadYield
  deriving DecidableEq

namespace Kernel

/-- The handler of `op`, from the trap to the return to user mode. -/
def trap (fuel : ℕ) : Op → Kernel → Option Kernel
  | .timer, k => k.handleIrqTimer fuel
  | .yield, k => k.doScheduler fuel
  | .sleep sleepTime, k => k.doSleep fuel sleepTime
  | .lockInit key, k => some (k.withCore fun c => (c.doMutexLockInit key).2)
  | .lockAcquire mlockIdx, k => k.doMutexLockAcquire fuel mlockIdx
  | .lockRelease mlockIdx, k => k.doMutexLockRelease mlockIdx
  | .exit, k => k.doExit fuel
  | .threadCreate, k => some k.doThreadCreate
  | .threadYield, k => k.doThreadYield

/-- The state in which `op` calls `do_scheduler`, if it does. -/
def schedulerEntry : Op → Kernel → Option Kernel
  | .timer, k => some (k.withCore fun c => c.getTicks.2)
  | .yield, k => some k
  | .sleep sleepTime, k => k.sleepCurrent sleepTime
  | .lockAcquire mlockIdx, k =>
    (k.acquireOrBlock mlockIdx).bind fun p => if p.2 then some p.1 else none
  | .exit, k => some k.exitCurrent
  | _, _ => none

theorem schedulerEntry_lockAcquire (mlockIdx : ℤ) (k : Kernel) :
    k.schedulerEntry (.lockAcquire mlockIdx) =
      (k.acquireOrBlock mlockIdx).bind fun p => if p.2 then some p.1 else none := rfl

/-- `op` makes a task that is `BLOCKED` or `EXITED` call `do_scheduler` when `ready_queue` is empty
after `check_sleeping`.  That is the call that returns to its caller. -/
def Stalls (k : Kernel) (op : Op) : Prop :=
  ∃ k₀ fuel k₁, k.schedulerEntry op = some k₀ ∧ k₀.checkSleeping fuel = some k₁ ∧
    k₁.links.listEmpty readyQueue = true ∧ k₁.currentRunning ≠ .pid0 ∧
    (k₁.status k₁.currentRunning = .blocked ∨ k₁.status k₁.currentRunning = .exited)

/-- One trap.  The boot context executes no system calls. -/
def Step (k : Kernel) (op : Op) (k' : Kernel) : Prop :=
  (op = .timer ∨ k.currentRunning ≠ .pid0) ∧ ∃ fuel, k.trap fuel op = some k'

end Kernel

end UcasOs
