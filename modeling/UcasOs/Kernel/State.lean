import UcasOs.Kernel.List
import UcasOs.Kernel.Mm

/-!
# The data the scheduler works on

The kernel objects of `sched.h`, `lock.h` and `time.h`.  A pointer to a PCB or TCB is a `PcbPtr`;
a pointer to a `list_node_t` is a `NodePtr`, which says which field of which object it is the
address of.  That makes `list_entry` the partial inverse of taking the address of a field, and
keeps two different objects from sharing a node; that two threads never get the same page is what
`Kernel/Mm.lean` is about.

`Core` is everything but the list nodes.  `Kernel` adds the nodes, as the heap of `Lib/Links.lean`,
and is what the functions of the source are translated to.  (`Sched`, the abstract scheduler of
`Kernel/Abstract.lean`, adds to the same `Core` plain lists instead.)

The time CSR is an input: `clock` is the sequence of the values the next executions of `rdtime`
will read.  Three fields are history that no function reads: `appended` and `dispatched` record
the PCBs put on and taken off `ready_queue`, and `givenStacks` what each task was given by the page
allocator.

Fields that no function modelled here uses (`kernel_sp`, which belongs to the assembly, and the
cursor) are left out of the PCB.
-/

set_option autoImplicit false

namespace UcasOs

/-- `NUM_MAX_TASK` bounds `pcb[]`; `tcb` are the TCBs `do_thread_create` puts at the top of a fresh
kernel page, numbered in order of creation. -/
inductive PcbPtr
  /-- `&pid0_pcb`, the PCB of the boot context. -/
  | pid0
  /-- `&pcb[i]` -/
  | pcb (i : ℕ)
  /-- The TCB created by the `k`-th call of `do_thread_create`. -/
  | tcb (k : ℕ)
  deriving DecidableEq, Repr

/-- `LOCK_NUM` -/
abbrev LOCK_NUM : ℕ := 16

/-- The list heads that PCBs are linked to through their `list` node. -/
inductive QueueId
  /-- `ready_queue` -/
  | ready
  /-- `sleep_queue` -/
  | sleep
  /-- `mlocks[i].block_queue` -/
  | block (i : Fin LOCK_NUM)
  deriving DecidableEq, Repr

/-- Addresses of list nodes. -/
inductive NodePtr
  /-- `NULL`, what the links of a PCB in `.bss` hold. -/
  | null
  /-- The address of a list head. -/
  | head (q : QueueId)
  /-- `&p->list` -/
  | list (p : PcbPtr)
  /-- `&p->thread_group` -/
  | threadGroup (p : PcbPtr)
  deriving DecidableEq, Repr

/-- `&ready_queue` -/
abbrev readyQueue : NodePtr := .head .ready

/-- `&sleep_queue` -/
abbrev sleepQueue : NodePtr := .head .sleep

/-- `&mlocks[i].block_queue` -/
abbrev blockQueue (i : Fin LOCK_NUM) : NodePtr := .head (.block i)

/-- `list_entry(ptr, pcb_t, list)`.  The pointer arithmetic on anything but the address of a `list`
field makes no sense, and is not modelled. -/
def listEntry : NodePtr → Option PcbPtr
  | .list p => some p
  | _ => none

/-- `list_entry(ptr, tcb_t, thread_group)` -/
def threadGroupEntry : NodePtr → Option PcbPtr
  | .threadGroup p => some p
  | _ => none

@[simp] theorem listEntry_list (p : PcbPtr) : listEntry (.list p) = some p := rfl

@[simp] theorem threadGroupEntry_threadGroup (p : PcbPtr) :
    threadGroupEntry (.threadGroup p) = some p := rfl

/-- `task_status_t` -/
inductive TaskStatus
  | blocked
  | running
  | ready
  | exited
  deriving DecidableEq, Repr

/-- `lock_status_t` -/
inductive LockStatus
  | unlocked
  | locked
  deriving DecidableEq, Repr

/-- `mutex_lock_t`, less its `block_queue`, which is a node of the heap. -/
structure MutexLock where
  /-- `lock.status` -/
  status : LockStatus
  /-- `key` -/
  key : ℤ
  deriving DecidableEq, Repr

/-- The kernel's data, less the list nodes. -/
@[ext]
structure Core where
  /-- `current_running` -/
  currentRunning : PcbPtr
  /-- `p->pid` -/
  pid : PcbPtr → ℕ
  /-- `p->status` -/
  status : PcbPtr → TaskStatus
  /-- `p->wakeup_time` -/
  wakeupTime : PcbPtr → ℕ
  /-- `mlocks[]` -/
  mlocks : Fin LOCK_NUM → MutexLock
  /-- `time_base` -/
  timeBase : ℕ
  /-- `time_elapsed`, the value `rdtime` gave last. -/
  timeElapsed : ℕ
  /-- The values the next executions of `rdtime` will give. -/
  clock : ℕ → ℕ
  /-- The page allocators. -/
  mm : Mm
  /-- How many PCBs `init_pcb` has filled in. -/
  ntasks : ℕ
  /-- How many TCBs `do_thread_create` has made. -/
  nthreads : ℕ
  /-- History: the stacks given to each task. -/
  givenStacks : PcbPtr → Stacks
  /-- History: the PCBs appended to `ready_queue`, in order. -/
  appended : List PcbPtr
  /-- History: the PCBs `do_scheduler` took off `ready_queue`, in order. -/
  dispatched : List PcbPtr

/-- The kernel: its data and the heap of its list nodes. -/
structure Kernel extends Core where
  /-- The `next` and `prev` fields of all list nodes. -/
  links : Links NodePtr

namespace Core

/-- `p->status = s` -/
def setStatus (p : PcbPtr) (s : TaskStatus) (c : Core) : Core :=
  { c with status := Function.update c.status p s }

/-- `get_ticks()` -/
def getTicks (c : Core) : ℕ × Core :=
  (c.clock 0, { c with timeElapsed := c.clock 0, clock := fun n => c.clock (n + 1) })

/-- `get_timer()` -/
def getTimer (c : Core) : ℕ × Core :=
  let (ticks, c) := c.getTicks
  (ticks / c.timeBase, c)

/-- `p->wakeup_time = t`, an assignment to a `uint64_t`. -/
def setWakeupTime (p : PcbPtr) (t : ℕ) (c : Core) : Core :=
  { c with wakeupTime := Function.update c.wakeupTime p (t % 2 ^ 64) }

/-- `p` has been appended to `ready_queue`. -/
def logAppended (p : PcbPtr) (c : Core) : Core := { c with appended := c.appended ++ [p] }

/-- `current_running = p`, with `p` just taken off `ready_queue`. -/
def dispatch (p : PcbPtr) (c : Core) : Core :=
  { c with currentRunning := p
           status := Function.update c.status p .running
           dispatched := c.dispatched ++ [p] }

/-! ## Locks, as far as they do not involve the queues -/

/-- `mlocks[i].lock.status = s` -/
def setLockStatus (i : Fin LOCK_NUM) (s : LockStatus) (c : Core) : Core :=
  { c with mlocks := Function.update c.mlocks i { c.mlocks i with status := s } }

/-- `mlocks[i].key = key` -/
def setLockKey (i : Fin LOCK_NUM) (key : ℤ) (c : Core) : Core :=
  { c with mlocks := Function.update c.mlocks i { c.mlocks i with key := key } }

/-- `spin_lock_try_acquire(&mlocks[i].lock)`: swaps in `LOCKED` and gives the old status. -/
def spinLockTryAcquire (i : Fin LOCK_NUM) (c : Core) : LockStatus × Core :=
  ((c.mlocks i).status, c.setLockStatus i .locked)

/-- `spin_lock_release(&mlocks[i].lock)` -/
def spinLockRelease (i : Fin LOCK_NUM) (c : Core) : Core := c.setLockStatus i .unlocked

/-- `do_mutex_lock_init(key)`: the slot that has the key already, else the first free slot. -/
def doMutexLockInit (key : ℤ) (c : Core) : ℤ × Core :=
  match (List.finRange LOCK_NUM).find? fun i => (c.mlocks i).key = key with
  | some i => (i, c)
  | none =>
    match (List.finRange LOCK_NUM).find? fun i => (c.mlocks i).key = -1 with
    | some i => (i, c.setLockKey i key)
    | none => (-1, c)

end Core

/-- The index `mlocks[idx]` is meant by, when it is one. -/
def mlockIndex (idx : ℤ) : Option (Fin LOCK_NUM) :=
  if h : 0 ≤ idx ∧ idx < LOCK_NUM then some ⟨idx.toNat, by omega⟩ else none

end UcasOs
