import UcasOs.Arch.Layout
import UcasOs.Image.Load

/-!
# What `init_pcb` makes of a task

Behind `load_task_img` the loop of `init_pcb` gives the task its two stacks, fills in its PCB and its
kernel stack, and puts it at the end of `ready_queue`.  All of this is in the memory that the tasks
are loaded into.

* `KernelData` — where the linker has put what the loop writes to.
* `initPcbIter` — the body of the loop, without the first line.
* `Made` — the PCB and the kernel stack of a task, as `switch_to` will find them.
* `Chained` — `ready_queue`, with the first tasks of `pcb` on it.
* `initPcbIter_frame`, `made_initPcbIter`, `Chained.initPcbIter` — what one iteration leaves alone,
  what it makes, and what it does to the queue.
-/

set_option autoImplicit false

namespace UcasOs

open Riscv Reg

/-! The offsets in `pcb_t` and in `list_node_t`. -/

def LIST_PREV : Word := 8
def PCB_LIST : Word := 16
def PCB_PID : Word := 32
def PCB_STATUS : Word := 36
def PCB_THREAD_GROUP : Word := 56

/-- `TASK_READY`, the third of the `task_status_t`. -/
def TASK_READY : BitVec 32 := 2

/-! ## Words in memory -/

namespace Mem

/-- `*(uint64_t *)a` -/
def load64 (m : Mem) (a : Word) : Word := BitVec.ofNat 64 (loadLe 8 a.toNat m)

/-- `*(uint64_t *)a = v` -/
def store64 (m : Mem) (a v : Word) : Mem := storeLe 8 a.toNat v.toNat m

/-- `*(int *)a` -/
def load32 (m : Mem) (a : Word) : BitVec 32 := BitVec.ofNat 32 (loadLe 4 a.toNat m)

/-- `*(int *)a = v` -/
def store32 (m : Mem) (a : Word) (v : BitVec 32) : Mem := storeLe 4 a.toNat v.toNat m

/-- Assignments, one after the other. -/
def stores64 (m : Mem) (l : List (Word × Word)) : Mem := l.foldl (fun m q => m.store64 q.1 q.2) m

section

variable {m m' : Mem} {a a' v : Word} {w : BitVec 32} {b : ℕ} {l : List (Word × Word)}

theorem store64_of_notMem (h : ¬ (a.toNat ≤ b ∧ b < a.toNat + 8)) : m.store64 a v b = m b :=
  storeLe_of_notMem h

theorem store32_of_notMem (h : ¬ (a.toNat ≤ b ∧ b < a.toNat + 4)) : m.store32 a w b = m b :=
  storeLe_of_notMem h

theorem stores64_of_notMem (h : ∀ q ∈ l, ¬ (q.1.toNat ≤ b ∧ b < q.1.toNat + 8)) :
    m.stores64 l b = m b := by
  induction l generalizing m with
  | nil => rfl
  | cons q l ih =>
    rw [List.forall_mem_cons] at h
    exact (ih h.2).trans (store64_of_notMem h.1)

theorem load64_congr (h : ∀ b, a.toNat ≤ b → b < a.toNat + 8 → m' b = m b) :
    m'.load64 a = m.load64 a :=
  congrArg (BitVec.ofNat 64) (loadLe_congr h)

theorem load32_congr (h : ∀ b, a.toNat ≤ b → b < a.toNat + 4 → m' b = m b) :
    m'.load32 a = m.load32 a :=
  congrArg (BitVec.ofNat 32) (loadLe_congr h)

theorem load64_store64_self : (m.store64 a v).load64 a = v := by
  rw [load64, store64, loadLe_storeLe_self]
  apply BitVec.eq_of_toNat_eq
  rw [BitVec.toNat_ofNat]
  have hlt := v.isLt
  omega

theorem load32_store32_self : (m.store32 a w).load32 a = w := by
  rw [load32, store32, loadLe_storeLe_self]
  apply BitVec.eq_of_toNat_eq
  rw [BitVec.toNat_ofNat]
  have hlt := w.isLt
  omega

theorem load64_store64_of_disjoint (h : a'.toNat + 8 ≤ a.toNat ∨ a.toNat + 8 ≤ a'.toNat) :
    (m.store64 a v).load64 a' = m.load64 a' :=
  congrArg (BitVec.ofNat 64) (loadLe_storeLe_of_disjoint h)

/-- **Double words that are aligned** are like the cells of a memory of words. -/
theorem load64_stores64 {f : Word → Word} (hf : ∀ a, 8 ∣ a.toNat → m.load64 a = f a)
    (hl : ∀ q ∈ l, 8 ∣ q.1.toNat) (ha : 8 ∣ a.toNat) :
    (m.stores64 l).load64 a = updates f l a := by
  induction l generalizing m f with
  | nil => exact hf a ha
  | cons q l ih =>
    rw [List.forall_mem_cons] at hl
    refine ih (m := m.store64 q.1 q.2) (f := Function.update f q.1 q.2) (fun b hb => ?_) hl.2
    by_cases hbq : b = q.1
    · rw [hbq, load64_store64_self, Function.update_self]
    · have hne : b.toNat ≠ q.1.toNat := fun he => hbq (BitVec.eq_of_toNat_eq he)
      have hq := hl.1
      rw [load64_store64_of_disjoint (by omega), Function.update_of_ne hbq, hf b hb]

end

/-- `init_list_head(ptr)` -/
def initListHead (m : Mem) (ptr : Word) : Mem := (m.store64 ptr ptr).store64 (ptr + LIST_PREV) ptr

/-- `list_add_tail(new, head)` -/
def listAddTail (m : Mem) (new head : Word) : Mem :=
  let m := m.store64 new head
  let m := m.store64 (new + LIST_PREV) (m.load64 (head + LIST_PREV))
  let m := m.store64 (m.load64 (head + LIST_PREV)) new
  m.store64 (head + LIST_PREV) new

end Mem

/-! ## The loop of `init_pcb`, behind `load_task_img` -/

/-- Where the linker has put what `init_pcb` writes to: in the kernel, from its first byte on and
below the kernel stacks. -/
structure KernelData where
  pcb : PcbArray
  ready_queue : Word
  sym : Symbols
  pcb_ge : 0x50201000 ≤ pcb.base.toNat
  ready_ge : 0x50201000 ≤ ready_queue.toNat
  ready_le : ready_queue.toNat + 16 ≤ INIT_KERNEL_STACK.toNat
  apart : ready_queue.toNat + 16 ≤ pcb.base.toNat ∨
    pcb.base.toNat + NUM_MAX_TASK * SIZEOF_PCB.toNat ≤ ready_queue.toNat

/-- What becomes of `pcb[i]` and the kernel stack, up to the call of `list_add_tail`. -/
def fillPcb (d : KernelData) (i : ℕ) (given : Stacks) (entryPoint : Ptr) (m : Mem) : Mem :=
  let pcb := d.pcb.addr i
  let m := m.store32 (pcb + PCB_PID) (BitVec.ofNat 32 (i + 1))
  let m := m.store32 (pcb + PCB_STATUS) TASK_READY
  let m := m.initListHead (pcb + PCB_LIST)
  let m := m.initListHead (pcb + PCB_THREAD_GROUP)
  m.stores64 (initStackWrites d.sym given.kernelStack pcb (.task given.userStack entryPoint))

/-- The body of the loop of `init_pcb`, with what `load_task_img` has returned. -/
def initPcbIter (d : KernelData) (i : ℕ) (entryPoint : Ptr) (mm : Mm) (m : Mem) : Mm × Mem :=
  let (given, mm) := mm.giveStacks
  let m := fillPcb d i given entryPoint m
  (mm, m.listAddTail (d.pcb.addr i + PCB_LIST) d.ready_queue)

/-! ## Where they write -/

namespace PcbArray

variable {p : PcbArray} {sym : Symbols} {c : Fin stackCapacity} {start : Start} {i : ℕ} {k : Word}

theorem addr_add_toNat (hi : i < NUM_MAX_TASK) (hk : k.toNat < 72) :
    (p.addr i + k).toNat = p.base.toNat + i * 72 + k.toNat := by
  have hb : p.base.toNat + 16 * 72 ≤ 0x50500000 := p.below
  have hi' : i < 16 := hi
  rw [BitVec.toNat_add, addr_toNat p hi, Nat.mod_eq_of_lt (by omega)]

theorem layout_pcb (hc : (c : ℕ) < p.tasks) : p.layout.pcb c = p.addr c := by
  have ht : p.layout.thread c = false := decide_eq_false (Nat.not_le.2 hc)
  rw [Layout.pcb, ht]
  rfl

theorem layout_kernelStack (hc : (c : ℕ) < p.tasks) :
    p.layout.kernelStack c = (Mm.stacksOf c).kernelStack := by
  have ht : p.layout.thread c = false := decide_eq_false (Nat.not_le.2 hc)
  rw [Layout.kernelStack, ht]
  exact BitVec.sub_add_cancel _ _

theorem layout_frame_toNat (hc : (c : ℕ) < p.tasks) :
    (p.layout.frame c).toNat = 0x50501000 + c * 4096 + 3808 := by
  have hs : p.layout.stackSize c = 4096 := if_neg (by simp [layout, hc])
  rw [Layout.frame_toNat, hs]
  change (Mm.stacksOf c).kernelBase.toNat + _ - _ = _
  rw [Mm.stacksOf_kernelBase c.isLt.le]
  omega

/-- The words of the page and the first two of the PCB. -/
structure InPageOrPcb (p : PcbArray) (i : ℕ) (a : Word) : Prop where
  aligned : 8 ∣ a.toNat
  inside : 0x50501000 + i * 4096 ≤ a.toNat ∧ a.toNat + 8 ≤ 0x50501000 + i * 4096 + 4096 ∨
    p.base.toNat + i * 72 ≤ a.toNat ∧ a.toNat + 8 ≤ p.base.toNat + i * 72 + 16

/-- `init_pcb_stack` writes nothing else. -/
theorem inPageOrPcb (hc : (c : ℕ) < p.tasks) {q : Word × Word}
    (hq : q ∈ initStackWrites sym (p.layout.kernelStack c) (p.layout.pcb c) start) :
    p.InPageOrPcb c q.1 := by
  have hcap : (c : ℕ) < NUM_MAX_TASK := hc.trans_le p.tasks_le
  have ha : 8 ∣ p.base.toNat := p.aligned
  have hf := layout_frame_toNat hc
  have hw : ∀ k < SWITCH_TO_SIZE, (p.layout.firstSwitch c + k).toNat =
      (p.layout.frame c).toNat - 112 + k.toNat := fun k hk =>
    (p.layout.inStack_frame c).toNat_sub_add hk
  rw [Layout.initStackWrites_eq, List.mem_append] at hq
  rcases hq with hq | hq
  · obtain ⟨f, hmem, rfl⟩ := List.mem_map.1 hq
    have hlt : f.1.toNat < 288 := Layout.frameFields_lt hmem
    have hk : 8 ∣ f.1.toNat := by
      have hslot : ∀ r : Reg, 8 ∣ (regSlot r).toNat := by decide
      simp only [Layout.frameFields, List.mem_append, List.mem_cons, List.not_mem_nil, or_false,
        List.mem_map] at hmem
      rcases hmem with ((rfl | rfl) | ⟨q, -, rfl⟩) | rfl | rfl
      · exact hslot sp
      · exact hslot tp
      · exact hslot q.1
      · exact show 8 ∣ OFFSET_REG_SEPC.toNat by decide
      · exact show 8 ∣ OFFSET_REG_SSTATUS.toNat by decide
    have hadd : (p.layout.frame c + f.1).toNat = (p.layout.frame c).toNat + f.1.toNat := by
      have hcap' : (c : ℕ) < 16 := hcap
      rw [BitVec.toNat_add, Nat.mod_eq_of_lt (by omega)]
    constructor
    · rw [hadd]
      omega
    · rw [hadd]
      omega
  · simp only [Layout.switchWrites, Layout.kernelSp, layout_pcb hc, List.mem_cons,
      List.not_mem_nil, or_false] at hq
    have h0 : (p.addr c + PCB_KERNEL_SP).toNat = p.base.toNat + c * 72 + 0 :=
      addr_add_toNat hcap (by decide)
    have h8 : (p.addr c + PCB_USER_SP).toNat = p.base.toNat + c * 72 + 8 :=
      addr_add_toNat hcap (by decide)
    have hra : (p.layout.firstSwitch c + SWITCH_TO_RA).toNat = (p.layout.frame c).toNat - 112 + 0 :=
      hw _ (by decide)
    have hsp : (p.layout.firstSwitch c + SWITCH_TO_SP).toNat = (p.layout.frame c).toNat - 112 + 8 :=
      hw _ (by decide)
    rcases hq with rfl | rfl | rfl | rfl <;> constructor <;> dsimp only <;> omega

end PcbArray

/-! ## A task and its PCB -/

theorem Mem.initListHead_of_notMem {m : Mem} {ptr : Word} {b : ℕ}
    (hptr : (ptr + LIST_PREV).toNat = ptr.toNat + 8)
    (h : ¬ (ptr.toNat ≤ b ∧ b < ptr.toNat + 16)) : m.initListHead ptr b = m b := by
  rw [initListHead, store64_of_notMem (by omega), store64_of_notMem (by omega)]

section Fill

variable {d : KernelData} {c : Fin stackCapacity} {entryPoint : Ptr} {m m' : Mem} {b : ℕ}

/-- **The PCB and the kernel stack of a task**, without its node of `ready_queue`. -/
structure Made (d : KernelData) (c : Fin stackCapacity) (entryPoint : Ptr) (m : Mem) : Prop where
  pid : m.load32 (d.pcb.addr c + PCB_PID) = BitVec.ofNat 32 (c + 1)
  status : m.load32 (d.pcb.addr c + PCB_STATUS) = TASK_READY
  threadGroup : m.load64 (d.pcb.addr c + PCB_THREAD_GROUP) = d.pcb.addr c + PCB_THREAD_GROUP ∧
    m.load64 (d.pcb.addr c + PCB_THREAD_GROUP + LIST_PREV) = d.pcb.addr c + PCB_THREAD_GROUP
  stack : ∀ q ∈ initStackWrites d.sym (Mm.stacksOf c).kernelStack (d.pcb.addr c)
    (.task (Mm.stacksOf c).userStack entryPoint), m.load64 q.1 = q.2

/-- The bytes that are read there. -/
def MadeBytes (d : KernelData) (c : Fin stackCapacity) : Set ℕ :=
  {b | (d.pcb.base.toNat + c * 72 ≤ b ∧ b < d.pcb.base.toNat + c * 72 + 16) ∨
    (d.pcb.base.toNat + c * 72 + 32 ≤ b ∧ b < d.pcb.base.toNat + c * 72 + 40) ∨
    (d.pcb.base.toNat + c * 72 + 56 ≤ b ∧ b < d.pcb.base.toNat + c * 72 + 72) ∨
    (0x50501000 + c * 4096 ≤ b ∧ b < 0x50501000 + c * 4096 + 4096)}

theorem mem_madeBytes : b ∈ MadeBytes d c ↔
    (d.pcb.base.toNat + c * 72 ≤ b ∧ b < d.pcb.base.toNat + c * 72 + 16) ∨
    (d.pcb.base.toNat + c * 72 + 32 ≤ b ∧ b < d.pcb.base.toNat + c * 72 + 40) ∨
    (d.pcb.base.toNat + c * 72 + 56 ≤ b ∧ b < d.pcb.base.toNat + c * 72 + 72) ∨
    (0x50501000 + c * 4096 ≤ b ∧ b < 0x50501000 + c * 4096 + 4096) := Iff.rfl

section

variable (hc : (c : ℕ) < d.pcb.tasks)
include hc

/-- Where the fields of the PCB are that `init_pcb` itself fills in. -/
theorem KernelData.fields_toNat :
    (d.pcb.addr c + PCB_PID).toNat = d.pcb.base.toNat + c * 72 + 32 ∧
    (d.pcb.addr c + PCB_STATUS).toNat = d.pcb.base.toNat + c * 72 + 36 ∧
    (d.pcb.addr c + PCB_LIST).toNat = d.pcb.base.toNat + c * 72 + 16 ∧
    (d.pcb.addr c + PCB_LIST + LIST_PREV).toNat = d.pcb.base.toNat + c * 72 + 24 ∧
    (d.pcb.addr c + PCB_THREAD_GROUP).toNat = d.pcb.base.toNat + c * 72 + 56 ∧
    (d.pcb.addr c + PCB_THREAD_GROUP + LIST_PREV).toNat = d.pcb.base.toNat + c * 72 + 64 := by
  have hcap := hc.trans_le d.pcb.tasks_le
  rw [BitVec.add_assoc, BitVec.add_assoc]
  exact ⟨PcbArray.addr_add_toNat hcap (by decide), PcbArray.addr_add_toNat hcap (by decide),
    PcbArray.addr_add_toNat hcap (by decide), PcbArray.addr_add_toNat hcap (by decide),
    PcbArray.addr_add_toNat hcap (by decide), PcbArray.addr_add_toNat hcap (by decide)⟩

theorem inPageOrPcb_of_mem {q : Word × Word}
    (hq : q ∈ initStackWrites d.sym (Mm.stacksOf c).kernelStack (d.pcb.addr c)
      (.task (Mm.stacksOf c).userStack entryPoint)) : d.pcb.InPageOrPcb c q.1 := by
  rw [← PcbArray.layout_kernelStack hc, ← PcbArray.layout_pcb hc] at hq
  exact PcbArray.inPageOrPcb hc hq

theorem Made.congr (h : Made d c entryPoint m) (hmem : ∀ b ∈ MadeBytes d c, m' b = m b) :
    Made d c entryPoint m' := by
  obtain ⟨hpid, hstatus, -, -, hnext, hprev⟩ := KernelData.fields_toNat hc
  refine ⟨?_, ?_, ⟨?_, ?_⟩, fun q hq => ?_⟩
  · refine (Mem.load32_congr fun b h1 h2 => hmem b (mem_madeBytes.2 ?_)).trans h.pid
    omega
  · refine (Mem.load32_congr fun b h1 h2 => hmem b (mem_madeBytes.2 ?_)).trans h.status
    omega
  · refine (Mem.load64_congr fun b h1 h2 => hmem b (mem_madeBytes.2 ?_)).trans h.threadGroup.1
    omega
  · refine (Mem.load64_congr fun b h1 h2 => hmem b (mem_madeBytes.2 ?_)).trans h.threadGroup.2
    omega
  · have hin := (inPageOrPcb_of_mem hc hq).inside
    refine (Mem.load64_congr fun b h1 h2 => hmem b (mem_madeBytes.2 ?_)).trans (h.stack q hq)
    omega

/-- `init_pcb_stack` writes to the page and to the first two words of the PCB. -/
theorem stores64_initStackWrites (hb : ¬ (d.pcb.base.toNat + c * 72 ≤ b ∧
      b < d.pcb.base.toNat + c * 72 + 16))
    (hpage : ¬ (0x50501000 + c * 4096 ≤ b ∧ b < 0x50501000 + c * 4096 + 4096)) :
    m.stores64 (initStackWrites d.sym (Mm.stacksOf c).kernelStack (d.pcb.addr c)
      (.task (Mm.stacksOf c).userStack entryPoint)) b = m b := by
  refine Mem.stores64_of_notMem fun q hq h => ?_
  have hin := (inPageOrPcb_of_mem hc hq).inside
  omega

/-- **Nothing but the PCB and the page is written to.** -/
theorem fillPcb_frame
    (hb : ¬ (d.pcb.base.toNat + c * 72 ≤ b ∧ b < d.pcb.base.toNat + c * 72 + 72))
    (hpage : ¬ (0x50501000 + c * 4096 ≤ b ∧ b < 0x50501000 + c * 4096 + 4096)) :
    fillPcb d c (Mm.stacksOf c) entryPoint m b = m b := by
  obtain ⟨hpid, hstatus, hlist, hlist', hgroup, hgroup'⟩ := KernelData.fields_toNat hc
  rw [fillPcb]
  rw [stores64_initStackWrites hc (by omega) hpage,
    Mem.initListHead_of_notMem (by omega) (by omega),
    Mem.initListHead_of_notMem (by omega) (by omega), Mem.store32_of_notMem (by omega),
    Mem.store32_of_notMem (by omega)]

/-- **What is made of the task.** -/
theorem made_fillPcb : Made d c entryPoint (fillPcb d c (Mm.stacksOf c) entryPoint m) := by
  have hcap : (c : ℕ) < 16 := hc.trans_le d.pcb.tasks_le
  have hbelow : d.pcb.base.toNat + 16 * 72 ≤ 0x50500000 := d.pcb.below
  obtain ⟨hpid, hstatus, hlist, hlist', hgroup, hgroup'⟩ := KernelData.fields_toNat hc
  rw [fillPcb]
  refine ⟨?_, ?_, ⟨?_, ?_⟩, fun q hq => ?_⟩
  · refine (Mem.load32_congr (m := m.store32 _ _) fun b h1 h2 => ?_).trans Mem.load32_store32_self
    rw [stores64_initStackWrites hc (by omega) (by omega),
      Mem.initListHead_of_notMem (by omega) (by omega),
      Mem.initListHead_of_notMem (by omega) (by omega), Mem.store32_of_notMem (by omega)]
  · generalize m.store32 _ _ = m
    refine (Mem.load32_congr (m := m.store32 _ _) fun b h1 h2 => ?_).trans Mem.load32_store32_self
    rw [stores64_initStackWrites hc (by omega) (by omega),
      Mem.initListHead_of_notMem (by omega) (by omega),
      Mem.initListHead_of_notMem (by omega) (by omega)]
  · generalize Mem.initListHead _ (d.pcb.addr c + PCB_LIST) = m
    rw [Mem.initListHead]
    refine (Mem.load64_congr (m := m.store64 _ _) fun b h1 h2 => ?_).trans Mem.load64_store64_self
    rw [stores64_initStackWrites hc (by omega) (by omega), Mem.store64_of_notMem (by omega)]
  · generalize Mem.initListHead _ (d.pcb.addr c + PCB_LIST) = m
    rw [Mem.initListHead]
    generalize m.store64 _ _ = m
    refine (Mem.load64_congr (m := m.store64 _ _) fun b h1 h2 => ?_).trans Mem.load64_store64_self
    rw [stores64_initStackWrites hc (by omega) (by omega)]
  · generalize Mem.initListHead _ (d.pcb.addr c + PCB_THREAD_GROUP) = m
    refine (Mem.load64_stores64 (fun _ _ => rfl)
      (fun q hq => (inPageOrPcb_of_mem hc hq).aligned) (inPageOrPcb_of_mem hc hq).aligned).trans ?_
    rw [← PcbArray.layout_kernelStack hc, ← PcbArray.layout_pcb hc] at hq ⊢
    rw [Layout.initStackWrites_eq] at hq
    have hstack : d.pcb.layout.initStack d.sym c _ m.load64 q.1 = q.2 :=
      Layout.initStack_of_mem (List.mem_append.1 hq)
    exact hstack

/-- So the task starts at its entry point. -/
theorem Made.starts (h : Made d c entryPoint m) :
    d.pcb.layout.Starts c (.task (Mm.stacksOf c).userStack entryPoint)
      (.read (d.pcb.layout.frame c) m.load64) := by
  refine Layout.starts_of_frameWrites fun q hq => h.stack q ?_
  rw [← PcbArray.layout_kernelStack hc, ← PcbArray.layout_pcb hc, Layout.initStackWrites_eq]
  exact List.mem_append_left _ hq

/-- And `switch_to` gets there by way of `ret_from_exception`. -/
theorem Made.suspended (h : Made d c entryPoint m) :
    d.pcb.layout.Suspended c (d.pcb.layout.frame c) d.sym.retFromException m.load64 := by
  have hwrites : ∀ q ∈ d.pcb.layout.switchWrites d.sym c
      (.task (Mm.stacksOf c).userStack entryPoint), m.load64 q.1 = q.2 := fun q hq => h.stack q <| by
    rw [← PcbArray.layout_kernelStack hc, ← PcbArray.layout_pcb hc, Layout.initStackWrites_eq]
    exact List.mem_append_right _ hq
  exact Layout.suspended_of_switchWrites hwrites

end

end Fill

/-! ## `ready_queue` -/

namespace KernelData

/-- The last node of `ready_queue`, when the first `i` tasks are on it. -/
def tail (d : KernelData) : ℕ → Word
  | 0 => d.ready_queue
  | i + 1 => d.pcb.addr i + PCB_LIST

variable {d : KernelData} {i j : ℕ}

theorem tail_zero_toNat : (d.tail 0).toNat = d.ready_queue.toNat := rfl

theorem tail_succ_toNat (hi : i < NUM_MAX_TASK) :
    (d.tail (i + 1)).toNat = d.pcb.base.toNat + i * 72 + 16 :=
  PcbArray.addr_add_toNat hi (by decide)

/-- The nodes are in the kernel, below its stacks. -/
theorem tail_inside (hi : i ≤ NUM_MAX_TASK) :
    0x50201000 ≤ (d.tail i).toNat ∧ (d.tail i).toNat + 16 ≤ 0x50500000 := by
  cases i with
  | zero => exact ⟨d.ready_ge, d.ready_le⟩
  | succ i =>
    have hi' : i < 16 := hi
    have hge := d.pcb_ge
    have hbelow : d.pcb.base.toNat + 16 * 72 ≤ 0x50500000 := d.pcb.below
    rw [tail_succ_toNat hi]
    omega

theorem tail_add_prev (hi : i ≤ NUM_MAX_TASK) :
    (d.tail i + LIST_PREV).toNat = (d.tail i).toNat + 8 := by
  have hin := tail_inside (d := d) hi
  rw [BitVec.toNat_add, show LIST_PREV.toNat = 8 from rfl, Nat.mod_eq_of_lt (by omega)]

theorem tail_apart (hi : i ≤ NUM_MAX_TASK) (hj : j ≤ NUM_MAX_TASK) (hij : i ≠ j) :
    (d.tail i).toNat + 16 ≤ (d.tail j).toNat ∨ (d.tail j).toNat + 16 ≤ (d.tail i).toNat := by
  have hapart : d.ready_queue.toNat + 16 ≤ d.pcb.base.toNat ∨
      d.pcb.base.toNat + 16 * 72 ≤ d.ready_queue.toNat := d.apart
  have hi' : i ≤ 16 := hi
  have hj' : j ≤ 16 := hj
  cases i with
  | zero =>
    cases j with
    | zero => contradiction
    | succ j =>
      rw [tail_zero_toNat, tail_succ_toNat hj]
      omega
  | succ i =>
    cases j with
    | zero =>
      rw [tail_zero_toNat, tail_succ_toNat hi]
      omega
    | succ j =>
      rw [tail_succ_toNat hi, tail_succ_toNat hj]
      omega

/-- The first words of two nodes, and the second ones. -/
theorem words_apart (hi : i ≤ NUM_MAX_TASK) (hj : j ≤ NUM_MAX_TASK) (hij : i ≠ j) :
    ((d.tail i).toNat + 8 ≤ (d.tail j).toNat ∨ (d.tail j).toNat + 8 ≤ (d.tail i).toNat) ∧
      ((d.tail i + LIST_PREV).toNat + 8 ≤ (d.tail j + LIST_PREV).toNat ∨
        (d.tail j + LIST_PREV).toNat + 8 ≤ (d.tail i + LIST_PREV).toNat) := by
  have hapart := tail_apart (d := d) hi hj hij
  rw [tail_add_prev hi, tail_add_prev hj]
  omega

/-- The first word of a node and the second one of any. -/
theorem next_apart_prev (hi : i ≤ NUM_MAX_TASK) (hj : j ≤ NUM_MAX_TASK) :
    (d.tail i).toNat + 8 ≤ (d.tail j + LIST_PREV).toNat ∨
      (d.tail j + LIST_PREV).toNat + 8 ≤ (d.tail i).toNat := by
  rw [tail_add_prev hj]
  rcases eq_or_ne i j with rfl | hij
  · exact .inl le_rfl
  · have hapart := tail_apart (d := d) hi hj hij
    omega

/-- No node is where `init_pcb` writes for a later task, before it calls `list_add_tail`. -/
theorem tail_outside {c : Fin stackCapacity} (hc : (c : ℕ) < d.pcb.tasks) (hj : j ≤ c) {b : ℕ}
    (hb : (d.tail j).toNat ≤ b ∧ b < (d.tail j).toNat + 16) :
    ¬ (d.pcb.base.toNat + c * 72 ≤ b ∧ b < d.pcb.base.toNat + c * 72 + 72) := by
  have hcap : (c : ℕ) < 16 := hc.trans_le d.pcb.tasks_le
  have hapart : d.ready_queue.toNat + 16 ≤ d.pcb.base.toNat ∨
      d.pcb.base.toNat + 16 * 72 ≤ d.ready_queue.toNat := d.apart
  cases j with
  | zero =>
    rw [tail_zero_toNat] at hb
    omega
  | succ j =>
    rw [tail_succ_toNat (Nat.lt_of_lt_of_le hj hcap.le)] at hb
    omega

/-- No node is in what is made of a task besides. -/
theorem tail_notMem_madeBytes {c : Fin stackCapacity} (hc : (c : ℕ) < d.pcb.tasks)
    (hj : j ≤ NUM_MAX_TASK) {b : ℕ} (hb : b ∈ MadeBytes d c) :
    ¬ ((d.tail j).toNat ≤ b ∧ b < (d.tail j).toNat + 16) := by
  have hcap : (c : ℕ) < 16 := hc.trans_le d.pcb.tasks_le
  have hapart : d.ready_queue.toNat + 16 ≤ d.pcb.base.toNat ∨
      d.pcb.base.toNat + 16 * 72 ≤ d.ready_queue.toNat := d.apart
  have hin := tail_inside (d := d) hj
  rw [mem_madeBytes] at hb
  cases j with
  | zero =>
    rw [tail_zero_toNat] at hin ⊢
    omega
  | succ j =>
    rw [tail_succ_toNat hj] at hin ⊢
    omega

end KernelData

section Queue

variable {d : KernelData} {i : ℕ} {m m' : Mem} {b : ℕ}

/-- **The first `i` tasks are on `ready_queue`**, in their order. -/
structure Chained (d : KernelData) (i : ℕ) (m : Mem) : Prop where
  head_prev : m.load64 (d.ready_queue + LIST_PREV) = d.tail i
  last_next : m.load64 (d.tail i) = d.ready_queue
  next : ∀ j < i, m.load64 (d.tail j) = d.tail (j + 1)
  prev : ∀ j < i, m.load64 (d.tail (j + 1) + LIST_PREV) = d.tail j

theorem Chained.congr (h : Chained d i m) (hi : i ≤ NUM_MAX_TASK)
    (hmem : ∀ j ≤ i, ∀ b, (d.tail j).toNat ≤ b ∧ b < (d.tail j).toNat + 16 → m' b = m b) :
    Chained d i m' := by
  have hnext : ∀ j ≤ i, m'.load64 (d.tail j) = m.load64 (d.tail j) := fun j hj =>
    Mem.load64_congr fun b h1 h2 => hmem j hj b ⟨h1, by omega⟩
  have hprev : ∀ j ≤ i, m'.load64 (d.tail j + LIST_PREV) = m.load64 (d.tail j + LIST_PREV) :=
    fun j hj => Mem.load64_congr fun b h1 h2 => by
      have hj' := KernelData.tail_add_prev (d := d) (hj.trans hi)
      exact hmem j hj b ⟨by omega, by omega⟩
  exact ⟨(hprev 0 (Nat.zero_le i)).trans h.head_prev, (hnext i le_rfl).trans h.last_next,
    fun j hj => (hnext j hj.le).trans (h.next j hj), fun j hj => (hprev _ hj).trans (h.prev j hj)⟩

/-- The assignments of `list_add_tail`. -/
theorem Chained.listAddTail_eq (h : Chained d i m) (hi : i + 1 ≤ NUM_MAX_TASK) :
    m.listAddTail (d.tail (i + 1)) (d.tail 0) =
      (((m.store64 (d.tail (i + 1)) (d.tail 0)).store64 (d.tail (i + 1) + LIST_PREV)
        (d.tail i)).store64 (d.tail i) (d.tail (i + 1))).store64 (d.tail 0 + LIST_PREV)
          (d.tail (i + 1)) := by
  have hfirst : (m.store64 (d.tail (i + 1)) (d.tail 0)).load64 (d.tail 0 + LIST_PREV) = d.tail i :=
    (Mem.load64_store64_of_disjoint
      (KernelData.next_apart_prev hi (Nat.zero_le _)).symm).trans h.head_prev
  have hsecond : ((m.store64 (d.tail (i + 1)) (d.tail 0)).store64
      (d.tail (i + 1) + LIST_PREV) (d.tail i)).load64 (d.tail 0 + LIST_PREV) = d.tail i :=
    (Mem.load64_store64_of_disjoint
      (KernelData.words_apart (Nat.zero_le _) hi (Nat.succ_ne_zero i).symm).2).trans hfirst
  rw [Mem.listAddTail, hfirst, hsecond]

/-- Only nodes are written to. -/
theorem Chained.listAddTail_frame (h : Chained d i m) (hi : i + 1 ≤ NUM_MAX_TASK)
    (hb : ∀ j ≤ NUM_MAX_TASK, ¬ ((d.tail j).toNat ≤ b ∧ b < (d.tail j).toNat + 16)) :
    m.listAddTail (d.tail (i + 1)) (d.tail 0) b = m b := by
  have hprev : ∀ j ≤ NUM_MAX_TASK, ¬ ((d.tail j + LIST_PREV).toNat ≤ b ∧
      b < (d.tail j + LIST_PREV).toNat + 8) := fun j hj => by
    have hb' := hb j hj
    rw [KernelData.tail_add_prev hj]
    omega
  have hnext : ∀ j ≤ NUM_MAX_TASK, ¬ ((d.tail j).toNat ≤ b ∧ b < (d.tail j).toNat + 8) :=
    fun j hj hin => hb j hj ⟨hin.1, by omega⟩
  rw [h.listAddTail_eq hi, Mem.store64_of_notMem (hprev 0 (Nat.zero_le _)),
    Mem.store64_of_notMem (hnext i (Nat.le_of_succ_le hi)), Mem.store64_of_notMem (hprev _ hi),
    Mem.store64_of_notMem (hnext _ hi)]

/-- **`list_add_tail` puts the next task behind the others.** -/
theorem Chained.listAddTail (h : Chained d i m) (hi : i + 1 ≤ NUM_MAX_TASK) :
    Chained d (i + 1) (m.listAddTail (d.tail (i + 1)) (d.tail 0)) := by
  have h0 : 0 ≤ NUM_MAX_TASK := Nat.zero_le _
  have hle : i ≤ NUM_MAX_TASK := Nat.le_of_succ_le hi
  rw [h.listAddTail_eq hi]
  refine ⟨Mem.load64_store64_self, ?_, fun j hj => ?_, fun j hj => ?_⟩
  · rw [Mem.load64_store64_of_disjoint (KernelData.next_apart_prev hi h0),
      Mem.load64_store64_of_disjoint (KernelData.words_apart hi hle (Nat.succ_ne_self i)).1,
      Mem.load64_store64_of_disjoint (KernelData.next_apart_prev hi hi)]
    exact Mem.load64_store64_self
  · have hj' : j ≤ NUM_MAX_TASK := (Nat.le_of_lt_succ hj).trans hle
    rw [Mem.load64_store64_of_disjoint (KernelData.next_apart_prev hj' h0)]
    rcases Nat.lt_succ_iff_lt_or_eq.1 hj with hlt | rfl
    · rw [Mem.load64_store64_of_disjoint (KernelData.words_apart hj' hle hlt.ne).1,
        Mem.load64_store64_of_disjoint (KernelData.next_apart_prev hj' hi),
        Mem.load64_store64_of_disjoint (KernelData.words_apart hj' hi hj.ne).1]
      exact h.next j hlt
    · exact Mem.load64_store64_self
  · have hj' : j + 1 ≤ NUM_MAX_TASK := (Nat.succ_le_of_lt hj).trans hi
    rw [Mem.load64_store64_of_disjoint
        (KernelData.words_apart hj' h0 (Nat.succ_ne_zero j)).2,
      Mem.load64_store64_of_disjoint (KernelData.next_apart_prev hle hj').symm]
    rcases Nat.lt_succ_iff_lt_or_eq.1 hj with hlt | rfl
    · rw [Mem.load64_store64_of_disjoint
          (KernelData.words_apart hj' hi (Nat.succ_lt_succ hlt).ne).2,
        Mem.load64_store64_of_disjoint (KernelData.next_apart_prev hi hj').symm]
      exact h.prev j hlt
    · exact Mem.load64_store64_self

end Queue

/-! ## One iteration -/

section Iteration

variable {d : KernelData} {c c' : Fin stackCapacity} {entryPoint entryPoint' : Ptr} {m : Mem}
  {b : ℕ}

/-- The stacks are those that the allocators give next. -/
theorem initPcbIter_eq : initPcbIter d c entryPoint (Mm.after c) m = (Mm.after (c + 1),
    (fillPcb d c (Mm.stacksOf c) entryPoint m).listAddTail (d.tail (c + 1)) (d.tail 0)) := by
  rw [initPcbIter, Mm.giveStacks_after]
  rfl

variable (hc : (c : ℕ) < d.pcb.tasks)
include hc

theorem Chained.fillPcb (h : Chained d c m) :
    Chained d c (fillPcb d c (Mm.stacksOf c) entryPoint m) := by
  have hcap := (hc.trans_le d.pcb.tasks_le).le
  refine h.congr hcap fun j hj b hb => fillPcb_frame hc (KernelData.tail_outside hc hj hb) ?_
  have hin := KernelData.tail_inside (d := d) (hj.trans hcap)
  omega

/-- **Nothing outside the kernel and its stacks is written to.** -/
theorem initPcbIter_frame (h : Chained d c m) (hb : b < 0x50201000 ∨ 0x52000000 ≤ b) :
    (initPcbIter d c entryPoint (Mm.after c) m).2 b = m b := by
  have hcap : (c : ℕ) < 16 := hc.trans_le d.pcb.tasks_le
  have hge := d.pcb_ge
  have hbelow : d.pcb.base.toNat + 16 * 72 ≤ 0x50500000 := d.pcb.below
  rw [initPcbIter_eq]
  refine ((h.fillPcb hc).listAddTail_frame (hc.trans_le d.pcb.tasks_le) fun j hj hin => ?_).trans
    (fillPcb_frame hc (by omega) (by omega))
  have hinside := KernelData.tail_inside (d := d) hj
  omega

/-- **The queue grows by the task.** -/
theorem Chained.initPcbIter (h : Chained d c m) :
    Chained d (c + 1) (initPcbIter d c entryPoint (Mm.after c) m).2 := by
  rw [initPcbIter_eq]
  exact (h.fillPcb hc).listAddTail (hc.trans_le d.pcb.tasks_le)

/-- **The task is ready to be dispatched.** -/
theorem made_initPcbIter (h : Chained d c m) :
    Made d c entryPoint (initPcbIter d c entryPoint (Mm.after c) m).2 := by
  rw [initPcbIter_eq]
  exact (made_fillPcb hc).congr hc fun b hb => (h.fillPcb hc).listAddTail_frame
    (hc.trans_le d.pcb.tasks_le) fun j hj => KernelData.tail_notMem_madeBytes hc hj hb

/-- The tasks before it still are. -/
theorem Made.initPcbIter (hmade : Made d c' entryPoint' m) (hlt : c' < c) (h : Chained d c m) :
    Made d c' entryPoint' (initPcbIter d c entryPoint (Mm.after c) m).2 := by
  have hcap : (c : ℕ) < 16 := hc.trans_le d.pcb.tasks_le
  have hbelow : d.pcb.base.toNat + 16 * 72 ≤ 0x50500000 := d.pcb.below
  have hlt' : (c' : ℕ) < c := hlt
  have hc' := hlt'.trans hc
  rw [initPcbIter_eq]
  refine hmade.congr hc' fun b hb => ((h.fillPcb hc).listAddTail_frame
    (hc.trans_le d.pcb.tasks_le) fun j hj => KernelData.tail_notMem_madeBytes hc' hj hb).trans ?_
  rw [mem_madeBytes] at hb
  exact fillPcb_frame hc (by omega) (by omega)

end Iteration

end UcasOs
