import UcasOs.Kernel.Refine

/-!
# The first state

`main` calls `init_pcb` and `init_locks` on the memory the linker laid out.  `Refines.boot` says
that what they leave is the first state of the abstract scheduler.

The two loops are followed with one pair of definitions, `initialised` and `initialisedNodes`: the
data and the rings when `init_pcb` has filled in `n` PCBs and `init_locks` has been through the
locks of a list `done`.  Until then the head of a lock's block queue is not a ring.
-/

set_option autoImplicit false

namespace UcasOs

namespace Refines

open Kernel

variable {timeBase : ℕ} {clock : ℕ → ℕ}

/-- The data when `init_pcb` has filled in `n` PCBs, and `init_locks` has done the locks of `done`:
the others are as in `.bss`. -/
def initialised (n timeBase : ℕ) (clock : ℕ → ℕ) (done : List (Fin LOCK_NUM)) : Core :=
  { Sched.bootCore n timeBase clock with
    mlocks := fun i => ⟨.unlocked, if i ∈ done then -1 else 0⟩ }

/-- The rings in the same state: the heads of the other block queues are not initialised yet. -/
noncomputable def initialisedNodes (n timeBase : ℕ) (clock : ℕ → ℕ) (done : List (Fin LOCK_NUM)) :
    RingId → List NodePtr
  | .queue (.block i) => if i ∈ done then [blockQueue i] else []
  | i => (Sched.boot n timeBase clock).nodes i

theorem boot_not_idle {n : ℕ} {p : PcbPtr} : ¬ (Sched.boot n timeBase clock).Idle p := fun h =>
  h.2 .ready (Sched.Wf.mem_boot_queue.2 ⟨rfl, Sched.Wf.boot_created.1 h.1⟩)

theorem static_core : (static timeBase clock).toCore = initialised 0 timeBase clock [] := by
  have h1 : Mm.after 0 = {} := rfl
  simp only [static, initialised, Sched.bootCore, h1]
  have h2 : ∀ {β : Type} (f : ℕ → β) (d : β), Sched.perTask 0 f d = fun _ => d := by
    intro β f d; funext p; cases p <;> simp [Sched.perTask]
  simp only [h2]
  rfl

theorem update_perTask {β : Type} (n : ℕ) (f : ℕ → β) (d : β) :
    Function.update (Sched.perTask n f d) (.pcb n) (f n) = Sched.perTask (n + 1) f d := by
  funext p
  cases p with
  | pcb i =>
    have hlt : i < n + 1 ↔ i = n ∨ i < n := by omega
    by_cases hi : i = n <;> simp [Sched.perTask, hlt, hi]
  | _ => simp [Sched.perTask]

theorem initPcbIter_core {n : ℕ} {k : Kernel} (h : k.toCore = initialised n timeBase clock []) :
    (k.initPcbIter n).toCore = initialised (n + 1) timeBase clock [] := by
  have hm : k.mm = Mm.after n := congrArg Core.mm h
  have hmm : k.mm.giveStacks = (Mm.stacksOf n, Mm.after (n + 1)) := by
    rw [hm, Mm.giveStacks_after]
  have hcore : (k.initPcbIter n).toCore = { k.toCore with
      mm := Mm.after (n + 1)
      givenStacks := Function.update k.givenStacks (.pcb n) (Mm.stacksOf n)
      ntasks := k.ntasks + 1
      pid := Function.update k.pid (.pcb n) (n + 1)
      status := Function.update k.status (.pcb n) .ready
      appended := k.appended ++ [.pcb n] } := by
    simp only [initPcbIter, hmm]; rfl
  rw [hcore, h]
  refine Core.ext rfl (update_perTask n (· + 1) 0)
    (update_perTask n (fun _ => TaskStatus.ready) TaskStatus.blocked)
    rfl rfl rfl rfl rfl rfl rfl rfl (update_perTask n Mm.stacksOf ⟨0, 0⟩) ?_ rfl
  simp [initialised, Sched.bootCore, List.range_succ]

theorem static_rings :
    Rings (static timeBase clock).links (initialisedNodes 0 timeBase clock []) := by
  have h0 : Rings (⟨fun _ => .null, fun _ => .null⟩ : Links NodePtr) (fun _ : RingId => []) :=
    ⟨fun _ => IsRing.nil, fun hx => by simp at hx⟩
  have h1 := (h0.initListHead (x := readyQueue) (i := .queue .ready) (by simp)).initListHead
    (x := sleepQueue) (i := .queue .sleep) (by
      intro i; rw [Function.update_apply]; split <;> simp)
  have hn : initialisedNodes 0 timeBase clock [] = Function.update
      (Function.update (fun _ => []) (.queue .ready) [readyQueue]) (.queue .sleep)
        [sleepQueue] := by
    funext i
    cases i with
    | queue q => cases q <;> simp [initialisedNodes, Sched.nodes, Sched.boot]
    | idle p => simp [initialisedNodes, Sched.nodes_not_idle boot_not_idle]
    | group g =>
      have hg : ¬ (0 < g ∧ g ≤ 0) := by omega
      simp only [initialisedNodes, Sched.nodes, Sched.boot, if_neg hg]
      simp
  rw [hn]
  exact h1

theorem initPcbIter_rings {n : ℕ} {k : Kernel}
    (h : Rings k.links (initialisedNodes n timeBase clock [])) :
    Rings (k.initPcbIter n).links (initialisedNodes (n + 1) timeBase clock []) := by
  have hlist : ∀ i, NodePtr.list (.pcb n) ∉ initialisedNodes n timeBase clock [] i := by
    intro i
    cases i with
    | queue q => cases q <;> simp [initialisedNodes, Sched.nodes, Sched.boot]
    | idle p => simp [initialisedNodes, Sched.nodes_not_idle boot_not_idle]
    | group g => simp [initialisedNodes, Sched.nodes]
  have hgroup : ∀ i, NodePtr.threadGroup (.pcb n) ∉ initialisedNodes n timeBase clock [] i := by
    intro i hi
    cases i with
    | queue q => cases q <;> simp [initialisedNodes, Sched.nodes, Sched.boot] at hi
    | idle p => simp [initialisedNodes, Sched.nodes_not_idle boot_not_idle] at hi
    | group g =>
      simp only [initialisedNodes, Sched.nodes, List.mem_map, NodePtr.threadGroup.injEq,
        exists_eq_right] at hi
      obtain ⟨j, hj, e, -⟩ := Sched.Wf.mem_boot_ring.1 hi
      rw [PcbPtr.pcb.injEq] at e
      omega
  -- `init_list_head(&pcb[i].list)`: the node gets on a ring only by the `list_add_tail` below
  have h1 := h.initListHead_fresh hlist
  -- `init_list_head(&pcb[i].thread_group)`
  have h2 := h1.initListHead (i := .group (n + 1)) hgroup
  -- `list_add_tail(&pcb[i].list, &ready_queue)`
  have hready : Function.update (initialisedNodes n timeBase clock []) (.group (n + 1))
      [.threadGroup (.pcb n)] (.queue .ready) =
      readyQueue :: ((List.range n).map PcbPtr.pcb).map .list := by
    rw [Function.update_of_ne (by simp)]; rfl
  have hlist2 : ∀ i, NodePtr.list (.pcb n) ∉ Function.update (initialisedNodes n timeBase clock [])
      (.group (n + 1)) [.threadGroup (.pcb n)] i := by
    intro i
    rw [Function.update_apply]
    split
    · simp
    · exact hlist i
  have h3 := h2.listAddTail hready hlist2
  have hn : initialisedNodes (n + 1) timeBase clock [] = Function.update
      (Function.update (initialisedNodes n timeBase clock []) (.group (n + 1))
        [.threadGroup (.pcb n)]) (.queue .ready)
      (readyQueue :: (((List.range n).map PcbPtr.pcb).map .list ++ [.list (.pcb n)])) := by
    funext i
    cases i with
    | queue q =>
      cases q <;> simp [initialisedNodes, Sched.nodes, Sched.boot, List.range_succ]
    | idle p => simp [initialisedNodes, Sched.nodes_not_idle boot_not_idle]
    | group g =>
      rw [Function.update_of_ne (by simp), Function.update_apply]
      by_cases hg : g = n + 1
      · rw [hg, if_pos rfl]
        simp only [initialisedNodes, Sched.nodes, Sched.Wf.boot_ring (Nat.lt_succ_self n)]
        rfl
      · have hiff : (0 < g ∧ g ≤ n + 1) ↔ (0 < g ∧ g ≤ n) := by omega
        rw [if_neg (by simpa using hg)]
        simp only [initialisedNodes, Sched.nodes, Sched.boot, hiff]
  rw [hn]
  exact h3

/-- What `init_locks` finds. -/
theorem initPcb_static (n : ℕ) :
    (initPcb n (static timeBase clock)).toCore = initialised n timeBase clock [] ∧
      Rings (initPcb n (static timeBase clock)).links (initialisedNodes n timeBase clock []) := by
  induction n with
  | zero => exact ⟨static_core, static_rings⟩
  | succ n ih => exact ⟨initPcbIter_core ih.1, initPcbIter_rings ih.2⟩

variable {n : ℕ} {k : Kernel} {done : List (Fin LOCK_NUM)} {i : Fin LOCK_NUM}

theorem initLock_core (h : k.toCore = initialised n timeBase clock done) :
    (initLock k i).toCore = initialised n timeBase clock (done ++ [i]) := by
  change (k.toCore.setLockStatus i .unlocked).setLockKey i (-1) = _
  rw [h]
  refine Core.ext rfl rfl rfl rfl ?_ rfl rfl rfl rfl rfl rfl rfl rfl rfl
  funext j
  by_cases hj : j = i
  · simp [Core.setLockStatus, Core.setLockKey, initialised, hj]
  · simp [Core.setLockStatus, Core.setLockKey, initialised, hj]

theorem initLock_rings (h : Rings k.links (initialisedNodes n timeBase clock done))
    (hi : i ∉ done) :
    Rings (initLock k i).links (initialisedNodes n timeBase clock (done ++ [i])) := by
  have hhead : ∀ r, blockQueue i ∉ initialisedNodes n timeBase clock done r := by
    intro r
    cases r with
    | queue q =>
      cases q with
      | block j =>
        simp only [initialisedNodes]
        split
        · rename_i hj
          simp only [List.mem_singleton, NodePtr.head.injEq, QueueId.block.injEq]
          exact fun e => hi (e ▸ hj)
        · simp
      | _ => simp [initialisedNodes, Sched.nodes, Sched.boot]
    | idle p => simp [initialisedNodes, Sched.nodes_not_idle boot_not_idle]
    | group g => simp [initialisedNodes, Sched.nodes]
  have hn : initialisedNodes n timeBase clock (done ++ [i]) =
      Function.update (initialisedNodes n timeBase clock done) (.queue (.block i))
        [blockQueue i] := by
    funext r
    rw [Function.update_apply]
    split
    · rename_i hr; simp [hr, initialisedNodes]
    · rename_i hr
      cases r with
      | queue q =>
        cases q with
        | block j =>
          have hj : j ≠ i := fun e => hr (by rw [e])
          simp [initialisedNodes, hj]
        | _ => rfl
      | _ => rfl
  rw [hn]
  exact h.initListHead hhead

/-- The locks in the order `init_locks` does them. -/
theorem initLocks_foldl (l : List (Fin LOCK_NUM)) : ∀ {k : Kernel} {done : List (Fin LOCK_NUM)},
    k.toCore = initialised n timeBase clock done →
    Rings k.links (initialisedNodes n timeBase clock done) → (done ++ l).Nodup →
    (l.foldl initLock k).toCore = initialised n timeBase clock (done ++ l) ∧
      Rings (l.foldl initLock k).links (initialisedNodes n timeBase clock (done ++ l)) := by
  induction l with
  | nil => intro k done hc hR _; simpa using ⟨hc, hR⟩
  | cons i l ih =>
    intro k done hc hR hnd
    have hi : i ∉ done := fun hd =>
      (List.nodup_append.1 hnd).2.2 i hd i List.mem_cons_self rfl
    rw [List.append_cons] at hnd ⊢
    exact ih (initLock_core hc) (initLock_rings hR hi) hnd

/-- **The first state of the kernel represents the first state of the abstract scheduler.** -/
theorem boot : Refines (Kernel.boot n timeBase clock) (Sched.boot n timeBase clock) := by
  have hinit : (initPcb n (static timeBase clock)).toCore = initialised n timeBase clock [] ∧ _ :=
    initPcb_static n
  obtain ⟨hc, hR⟩ := hinit
  obtain ⟨hc', hR'⟩ := initLocks_foldl (List.finRange LOCK_NUM) hc hR (List.nodup_finRange _)
  have hcore : initialised n timeBase clock (List.finRange LOCK_NUM) =
      Sched.bootCore n timeBase clock := by
    simp [initialised, Sched.bootCore]
  have hnodes : initialisedNodes n timeBase clock (List.finRange LOCK_NUM) =
      (Sched.boot n timeBase clock).nodes := by
    funext r
    cases r with
    | queue q => cases q <;> simp [initialisedNodes, Sched.nodes, Sched.boot]
    | _ => rfl
  exact ⟨hc'.trans hcore, hnodes ▸ hR'⟩

end Refines

end UcasOs
