import UcasOs.Kernel.Sched

/-!
# The abstract scheduler

What the scheduler is for, without a single pointer: seventeen queues of tasks and one ring of
threads per process, as lists.  The data that is not list nodes is the `Core` of the real kernel.

* `Sched.place`, `Sched.take` — the two things that ever happen to a queue: a task goes to the
  end of one queue, leaving whatever queue it was on, or it leaves its queue.
* `Sched.trap` — the whole machine: every operation of `Kernel/Sched.lean`, said with those two.
  `Kernel/Refine.lean` shows that the pointer program does the same.

The list `ring g` of the threads of process `g` starts with the thread whose turn it is.
-/

set_option autoImplicit false

namespace UcasOs

/-- The status of the members of a queue. -/
def QueueId.status : QueueId → TaskStatus
  | .ready => .ready
  | .sleep => .blocked
  | .block _ => .blocked

/-- The kernel's data, with its lists as lists. -/
structure Sched extends Core where
  /-- The tasks on a queue, in order. -/
  queue : QueueId → List PcbPtr
  /-- The threads of the process with a given `pid`, in ring order. -/
  ring : ℕ → List PcbPtr

namespace Sched

/-- Update the data and leave the lists alone. -/
def withCore (f : Core → Core) (a : Sched) : Sched := { a with toCore := f a.toCore }

/-- Move `p` to the end of the queue `q`. -/
def place (q : QueueId) (p : PcbPtr) (a : Sched) : Sched :=
  { a with queue := fun r =>
      if r = q then (a.queue r).filter (· ≠ p) ++ [p] else (a.queue r).filter (· ≠ p) }

/-- Take `p` off its queue. -/
def take (p : PcbPtr) (a : Sched) : Sched :=
  { a with queue := fun r => (a.queue r).filter (· ≠ p) }

/-- Move `p` to the end of the queue `q` and give it the status that goes with the queue. -/
def enqueue (q : QueueId) (p : PcbPtr) (a : Sched) : Sched :=
  (a.withCore (·.setStatus p q.status)).place q p

/-! ## The operations -/

/-- `do_unblock` -/
def unblock (p : PcbPtr) (a : Sched) : Sched :=
  (a.enqueue .ready p).withCore (·.logAppended p)

/-- What `check_sleeping` does about one sleeper. -/
def visit (a : Sched) (p : PcbPtr) : Sched :=
  let (now, c) := a.getTimer
  let a := { a with toCore := c }
  if a.wakeupTime p ≤ now then a.unblock p else a

/-- `check_sleeping` -/
def checkSleeping (a : Sched) : Sched := (a.queue .sleep).foldl visit a

/-- The running task goes to the end of the ready queue. -/
def preempt (a : Sched) : Sched :=
  if a.status a.currentRunning = .running then a.unblock a.currentRunning else a

/-- `p` gets the CPU. -/
def dispatchTo (p : PcbPtr) (a : Sched) : Sched := (a.withCore (·.dispatch p)).take p

/-- `do_scheduler` after `check_sleeping` -/
def schedule (a : Sched) : Sched :=
  if a.queue .ready = [] then a
  else
    match a.preempt.queue .ready with
    | [] => a.preempt
    | next :: _ => a.preempt.dispatchTo next

/-- `do_scheduler` -/
def doScheduler (a : Sched) : Sched := a.checkSleeping.schedule

/-- `do_sleep` up to its call of `do_scheduler` -/
def sleepCurrent (sleepTime : UInt32) (a : Sched) : Sched :=
  let a := a.enqueue .sleep a.currentRunning
  let (now, c) := a.getTimer
  { a with toCore := c.setWakeupTime c.currentRunning (now + sleepTime.toNat) }

/-- `do_exit` up to its call of `do_scheduler` -/
def exitCurrent (a : Sched) : Sched := a.withCore (·.setStatus a.currentRunning .exited)

/-- `do_mutex_lock_acquire` up to its call of `do_scheduler`, and whether it makes that call. -/
def acquireOrBlock (i : Fin LOCK_NUM) (a : Sched) : Sched × Bool :=
  if (a.mlocks i).key = -1 then (a, false)
  else if (a.mlocks i).status = .unlocked then (a.withCore (·.setLockStatus i .locked), false)
  else ((a.withCore (·.setLockStatus i .locked)).enqueue (.block i) a.currentRunning, true)

/-- `do_mutex_lock_release` -/
def release (i : Fin LOCK_NUM) (a : Sched) : Sched :=
  if (a.mlocks i).key = -1 then a
  else
    match a.queue (.block i) with
    | [] => a.withCore (·.spinLockRelease i)
    | p :: _ => a.unblock p

/-- The data part of `do_thread_create`. -/
def createCore (c : Core) : Core :=
  { c with mm := c.mm.giveStacks.2
           givenStacks := Function.update c.givenStacks (.tcb c.nthreads) c.mm.giveStacks.1
           nthreads := c.nthreads + 1
           pid := Function.update c.pid (.tcb c.nthreads) (c.pid c.currentRunning)
           status := Function.update c.status (.tcb c.nthreads) .ready }

/-- A new thread comes right after the one whose turn it is. -/
def insertSecond (p : PcbPtr) : List PcbPtr → List PcbPtr
  | [] => [p]
  | x :: xs => x :: p :: xs

/-- `do_thread_create` -/
def threadCreate (a : Sched) : Sched :=
  let g := a.pid a.currentRunning
  { a.withCore createCore with
    ring := Function.update a.ring g (insertSecond (.tcb a.nthreads) (a.ring g)) }

/-- `next` runs instead of the current thread. -/
def yieldCore (next : PcbPtr) (c : Core) : Core :=
  { c with currentRunning := next
           status := Function.update (Function.update c.status c.currentRunning .ready) next .running }

/-- `do_thread_yield`: the turn passes to the next thread of the ring. -/
def threadYield (a : Sched) : Sched :=
  let g := a.pid a.currentRunning
  match (a.ring g).rotate 1 with
  | [] => a
  | next :: rest =>
    { a.withCore (yieldCore next) with ring := Function.update a.ring g (next :: rest) }

/-- The state in which `op` calls `do_scheduler`, if it does. -/
def schedulerEntry : Op → Sched → Option Sched
  | .timer, a => some (a.withCore fun c => c.getTicks.2)
  | .yield, a => some a
  | .sleep sleepTime, a => some (a.sleepCurrent sleepTime)
  | .lockAcquire mlockIdx, a =>
    (mlockIndex mlockIdx).bind fun i =>
      if (a.acquireOrBlock i).2 then some (a.acquireOrBlock i).1 else none
  | .exit, a => some a.exitCurrent
  | _, _ => none

/-- One trap. -/
def trap : Op → Sched → Option Sched
  | .timer, a => some (a.withCore fun c => c.getTicks.2).doScheduler
  | .yield, a => some a.doScheduler
  | .sleep sleepTime, a => some (a.sleepCurrent sleepTime).doScheduler
  | .lockInit key, a => some (a.withCore fun c => (c.doMutexLockInit key).2)
  | .lockAcquire mlockIdx, a =>
    (mlockIndex mlockIdx).map fun i =>
      if (a.acquireOrBlock i).2 then (a.acquireOrBlock i).1.doScheduler else (a.acquireOrBlock i).1
  | .lockRelease mlockIdx, a => (mlockIndex mlockIdx).map fun i => a.release i
  | .exit, a => some a.exitCurrent.doScheduler
  | .threadCreate, a => some a.threadCreate
  | .threadYield, a => some a.threadYield

theorem schedulerEntry_lockAcquire (mlockIdx : ℤ) (a : Sched) :
    a.schedulerEntry (.lockAcquire mlockIdx) = (mlockIndex mlockIdx).bind fun i =>
      if (a.acquireOrBlock i).2 then some (a.acquireOrBlock i).1 else none := rfl

/-! ## The first state -/

/-- A field that `init_pcb` sets in `pcb[0]`, ..., `pcb[n - 1]` and that is `d` everywhere else. -/
def perTask {β : Type} (n : ℕ) (f : ℕ → β) (d : β) : PcbPtr → β
  | .pcb i => if i < n then f i else d
  | _ => d

/-- The data after `init_pcb` and `init_locks`, when there are `n` tasks. -/
def bootCore (n timeBase : ℕ) (clock : ℕ → ℕ) : Core where
  currentRunning := .pid0
  pid := perTask n (· + 1) 0
  status := perTask n (fun _ => .ready) .blocked
  wakeupTime _ := 0
  mlocks _ := ⟨.unlocked, -1⟩
  timeBase := timeBase
  timeElapsed := 0
  clock := clock
  mm := .after n
  ntasks := n
  nthreads := 0
  givenStacks := perTask n Mm.stacksOf ⟨0, 0⟩
  appended := (List.range n).map .pcb
  dispatched := []

/-- Every task is ready, and the only thread of its process. -/
def boot (n timeBase : ℕ) (clock : ℕ → ℕ) : Sched where
  toCore := bootCore n timeBase clock
  queue
    | .ready => (List.range n).map .pcb
    | _ => []
  ring g := if 0 < g ∧ g ≤ n then [.pcb (g - 1)] else []

/-- `do_scheduler` returns to a caller that must not go on. -/
def Stuck (a : Sched) : Prop :=
  a.queue .ready = [] ∧ a.currentRunning ≠ .pid0 ∧
    (a.status a.currentRunning = .blocked ∨ a.status a.currentRunning = .exited)

end Sched

end UcasOs
