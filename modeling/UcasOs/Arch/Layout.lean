import UcasOs.Arch.Dispatch
import UcasOs.Kernel.Stacks

/-!
# Where the kernel stacks are

Every task and every thread has a kernel page.  The frame of its traps, a `regs_context_t`, is at
the top of the page, or below the TCB if it is a thread; the frame of its first `switch_to` is below
that.

* `Layout` — pages and PCBs; `own` is what only the entry code and the task's own calls may write.
* `initStack` — `init_pcb_stack` and `init_tcb_stack`, which write the two frames of a new task.
* `kernelLayout` — the pages that `allocKernelPage` gives are such a layout.
-/

set_option autoImplicit false

namespace UcasOs

open Riscv Reg

/-- `sizeof(pcb_t)`, which is also `sizeof(tcb_t)`. -/
def SIZEOF_PCB : Word := 72

/-- Where the tasks and threads of `T` have their kernel pages and PCBs. -/
structure Layout (T : Type) where
  /-- What `allocKernelPage(1)` returned. -/
  kernelPage : T → Word
  /-- The threads have their TCBs on their kernel pages. -/
  thread : T → Bool
  /-- The address of the element of `pcb`, for those that are not threads. -/
  pcbAddr : T → Word
  aligned : ∀ c, PAGE_SIZE.toNat ∣ (kernelPage c).toNat
  injective : Function.Injective kernelPage
  pcbAddr_aligned : ∀ c, thread c = false → 8 ∣ (pcbAddr c).toNat
  pcbAddr_le : ∀ c, thread c = false → (pcbAddr c).toNat + SIZEOF_PCB.toNat ≤ 2 ^ 64
  pcbAddr_disjoint : ∀ c d, thread c = false → thread d = false → c ≠ d →
    Disjoint (region (pcbAddr c) SIZEOF_PCB.toNat) (region (pcbAddr d) SIZEOF_PCB.toNat)
  pcbAddr_outside : ∀ c d, thread c = false →
    Disjoint (region (pcbAddr c) SIZEOF_PCB.toNat) (region (kernelPage d) PAGE_SIZE.toNat)

namespace Layout

variable {T : Type} (L : Layout T)

/-- `kernel_stack`, as `init_pcb_stack` and `init_tcb_stack` get it. -/
def kernelStack (c : T) : Word :=
  if L.thread c then L.kernelPage c + PAGE_SIZE - SIZEOF_PCB else L.kernelPage c + PAGE_SIZE

/-- The PCB, or the TCB. -/
def pcb (c : T) : Word := if L.thread c then L.kernelStack c else L.pcbAddr c

/-- The field `kernel_sp` of the PCB. -/
def kernelSp (c : T) : Word := L.pcb c + PCB_KERNEL_SP

/-- The `regs_context_t` of the traps. -/
def frame (c : T) : Word := L.kernelStack c - OFFSET_SIZE

/-- How much of the kernel page is stack. -/
def stackSize (c : T) : ℕ :=
  if L.thread c then PAGE_SIZE.toNat - SIZEOF_PCB.toNat else PAGE_SIZE.toNat

/-- The kernel stack, with the `regs_context_t`. -/
def stack (c : T) : Set Word := region (L.kernelPage c) (L.stackSize c)

/-- The words of a task that nobody else writes: its kernel stack and its `kernel_sp`. -/
def own (c : T) : Set Word := insert (L.kernelSp c) (L.stack c)

/-- The words everybody may write. -/
def free : Set Word := {a | ∀ c, a ∉ L.own c}

variable {L} {a k sp : Word} {c d : T}

theorem kernelPage_le (L : Layout T) (c : T) : (L.kernelPage c).toNat + 4096 ≤ 2 ^ 64 := by
  have hlt := (L.kernelPage c).isLt
  have hdvd : 4096 ∣ (L.kernelPage c).toNat := L.aligned c
  omega

theorem stackSize_le (L : Layout T) (c : T) : 4024 ≤ L.stackSize c ∧ L.stackSize c ≤ 4096 := by
  rw [stackSize]
  split <;> decide

theorem frame_toNat (L : Layout T) (c : T) :
    (L.frame c).toNat = (L.kernelPage c).toNat + L.stackSize c - 288 := by
  have hle := L.kernelPage_le c
  rw [frame, kernelStack, stackSize]
  split <;>
    simp only [PAGE_SIZE, SIZEOF_PCB, OFFSET_SIZE, BitVec.toNat_sub, BitVec.toNat_add,
      BitVec.toNat_ofNat, BitVec.ofNat_eq_ofNat] <;>
    omega

theorem mem_region {base : Word} {size : ℕ} :
    a ∈ region base size ↔ base.toNat ≤ a.toNat ∧ a.toNat < base.toNat + size := Iff.rfl

theorem mem_stack :
    a ∈ L.stack c ↔ (L.kernelPage c).toNat ≤ a.toNat ∧
      a.toNat < (L.kernelPage c).toNat + L.stackSize c := Iff.rfl

/-- The `regs_context_t` is at the top of the stack. -/
theorem frame_add_mem (hk : k < OFFSET_SIZE) :
    L.frame c + k ∈ L.stack c ∧ (L.frame c).toNat ≤ (L.frame c + k).toNat := by
  have hle := L.kernelPage_le c
  have hs := L.stackSize_le c
  have hf := L.frame_toNat c
  have hk : k.toNat < 288 := hk
  rw [mem_stack, BitVec.toNat_add, Nat.mod_eq_of_lt (by omega)]
  omega

theorem stack_subset_page : L.stack c ⊆ region (L.kernelPage c) PAGE_SIZE.toNat := by
  intro a ha
  have hs := L.stackSize_le c
  have hp : PAGE_SIZE.toNat = 4096 := rfl
  rw [mem_stack] at ha
  rw [mem_region]
  omega

/-- The TCB of a thread is on its page, above the stack. -/
theorem pcb_toNat (ht : L.thread c = true) :
    (L.pcb c).toNat = (L.kernelPage c).toNat + L.stackSize c := by
  have hle := L.kernelPage_le c
  rw [pcb, if_pos ht, kernelStack, if_pos ht, stackSize, if_pos ht]
  simp only [PAGE_SIZE, SIZEOF_PCB, BitVec.toNat_sub, BitVec.toNat_add, BitVec.toNat_ofNat,
    BitVec.ofNat_eq_ofNat]
  omega

theorem pcb_add_le (L : Layout T) (c : T) : (L.pcb c).toNat + 72 ≤ 2 ^ 64 := by
  cases ht : L.thread c with
  | false =>
    rw [pcb, ht, if_neg (by decide)]
    exact L.pcbAddr_le c ht
  | true =>
    have hle := L.kernelPage_le c
    have hs : L.stackSize c = 4096 - 72 := if_pos ht
    rw [pcb_toNat ht]
    omega

/-- The PCB itself. -/
def pcbRegion (L : Layout T) (c : T) : Set Word := region (L.pcb c) SIZEOF_PCB.toNat

theorem pcb_add_mem (hk : k < SIZEOF_PCB) : L.pcb c + k ∈ L.pcbRegion c := by
  have hle := L.pcb_add_le c
  have hk : k.toNat < 72 := hk
  have hs : SIZEOF_PCB.toNat = 72 := rfl
  rw [pcbRegion, mem_region, BitVec.toNat_add, Nat.mod_eq_of_lt (by omega)]
  omega

theorem pcbRegion_subset_page (ht : L.thread c = true) :
    L.pcbRegion c ⊆ region (L.kernelPage c) PAGE_SIZE.toNat := by
  intro a ha
  have hp : PAGE_SIZE.toNat = 4096 := rfl
  have hs : L.stackSize c = 4096 - 72 := if_pos ht
  have hz : SIZEOF_PCB.toNat = 72 := rfl
  rw [pcbRegion, mem_region, pcb_toNat ht] at ha
  rw [mem_region]
  omega

/-- The PCBs that are not threads are on nobody's page. -/
theorem pcbRegion_disjoint_page (ht : L.thread c = false) :
    Disjoint (L.pcbRegion c) (region (L.kernelPage d) PAGE_SIZE.toNat) := by
  rw [pcbRegion, pcb, ht, if_neg (by decide)]
  exact L.pcbAddr_outside c d ht

/-- The pages of two tasks do not meet. -/
theorem page_disjoint (hcd : c ≠ d) :
    Disjoint (region (L.kernelPage c) PAGE_SIZE.toNat) (region (L.kernelPage d) PAGE_SIZE.toNat) := by
  have hne : (L.kernelPage c).toNat ≠ (L.kernelPage d).toNat := fun h =>
    hcd (L.injective (BitVec.eq_of_toNat_eq h))
  have hc : 4096 ∣ (L.kernelPage c).toNat := L.aligned c
  have hd : 4096 ∣ (L.kernelPage d).toNat := L.aligned d
  have hp : PAGE_SIZE.toNat = 4096 := rfl
  rw [Set.disjoint_left]
  intro a ha hb
  rw [mem_region] at ha hb
  omega

/-- No PCB is on a stack. -/
theorem pcbRegion_disjoint_stack (L : Layout T) (c d : T) :
    Disjoint (L.pcbRegion c) (L.stack d) := by
  cases ht : L.thread c with
  | false => exact (pcbRegion_disjoint_page ht).mono_right stack_subset_page
  | true =>
    rcases eq_or_ne c d with rfl | hcd
    · rw [Set.disjoint_left]
      intro a ha hb
      rw [pcbRegion, mem_region, pcb_toNat ht] at ha
      rw [mem_stack] at hb
      omega
    · exact (page_disjoint hcd).mono (pcbRegion_subset_page ht) stack_subset_page

theorem pcbRegion_disjoint (hcd : c ≠ d) : Disjoint (L.pcbRegion c) (L.pcbRegion d) := by
  cases hc : L.thread c with
  | false =>
    cases hd : L.thread d with
    | false =>
      rw [pcbRegion, pcbRegion, pcb, pcb, hc, hd, if_neg (by decide), if_neg (by decide)]
      exact L.pcbAddr_disjoint c d hc hd hcd
    | true => exact (pcbRegion_disjoint_page hc).mono_right (pcbRegion_subset_page hd)
  | true =>
    cases hd : L.thread d with
    | false => exact ((pcbRegion_disjoint_page hd).mono_right (pcbRegion_subset_page hc)).symm
    | true => exact (page_disjoint hcd).mono (pcbRegion_subset_page hc) (pcbRegion_subset_page hd)

theorem kernelSp_mem_pcbRegion : L.kernelSp c ∈ L.pcbRegion c := pcb_add_mem (by decide)

theorem kernelSp_notMem_stack (L : Layout T) (c d : T) : L.kernelSp c ∉ L.stack d :=
  Set.disjoint_left.1 (L.pcbRegion_disjoint_stack c d) kernelSp_mem_pcbRegion

theorem frame_add_ne_kernelSp (hk : k < OFFSET_SIZE) : L.frame c + k ≠ L.kernelSp d := fun he =>
  L.kernelSp_notMem_stack d c (he ▸ (frame_add_mem hk).1)

theorem kernelSp_mem_own : L.kernelSp c ∈ L.own c := Set.mem_insert ..

theorem stack_subset_own : L.stack c ⊆ L.own c := Set.subset_insert ..

theorem frame_mem_own (hk : k < OFFSET_SIZE) : L.frame c + k ∈ L.own c :=
  stack_subset_own (frame_add_mem hk).1

/-- A stack pointer with room for a `switchto_context_t` below it, and the `regs_context_t` above. -/
def InStack (L : Layout T) (c : T) (sp : Word) : Prop :=
  (L.kernelPage c).toNat + SWITCH_TO_SIZE.toNat ≤ sp.toNat ∧ sp.toNat ≤ (L.frame c).toNat

theorem inStack_frame (L : Layout T) (c : T) : L.InStack c (L.frame c) := by
  have hs := L.stackSize_le c
  have hf := L.frame_toNat c
  have hw : SWITCH_TO_SIZE.toNat = 112 := rfl
  rw [InStack, hf]
  omega

/-- The frames are aligned. -/
theorem frame_aligned (L : Layout T) (c : T) : 8 ∣ (L.frame c).toNat := by
  have hf := L.frame_toNat c
  have ha : 4096 ∣ (L.kernelPage c).toNat := L.aligned c
  have hs : L.stackSize c = 4096 - 72 ∨ L.stackSize c = 4096 := by
    rw [stackSize]
    split
    · exact .inl rfl
    · exact .inr rfl
  omega

theorem InStack.toNat_sub_add (h : L.InStack c sp) (hk : k < SWITCH_TO_SIZE) :
    (sp - SWITCH_TO_SIZE + k).toNat = sp.toNat - 112 + k.toNat := by
  have hlt := sp.isLt
  have h1 : (L.kernelPage c).toNat + 112 ≤ sp.toNat := h.1
  have hk : k.toNat < 112 := hk
  simp only [SWITCH_TO_SIZE, BitVec.toNat_sub, BitVec.toNat_add, BitVec.toNat_ofNat,
    BitVec.ofNat_eq_ofNat]
  omega

/-- The `switchto_context_t` is on the stack, below the stack pointer. -/
theorem InStack.sub_add (h : L.InStack c sp) (hk : k < SWITCH_TO_SIZE) :
    (L.kernelPage c).toNat ≤ (sp - SWITCH_TO_SIZE + k).toNat ∧
      (sp - SWITCH_TO_SIZE + k).toNat < sp.toNat := by
  have hn := h.toNat_sub_add hk
  have h1 : (L.kernelPage c).toNat + 112 ≤ sp.toNat := h.1
  have hk : k.toNat < 112 := hk
  omega

theorem InStack.sub_add_mem (h : L.InStack c sp) (hk : k < SWITCH_TO_SIZE) :
    sp - SWITCH_TO_SIZE + k ∈ L.stack c := by
  have hs := L.stackSize_le c
  have hf := L.frame_toNat c
  have hn := h.sub_add hk
  have h2 := h.2
  rw [mem_stack]
  omega

/-- The `regs_context_t` is above all stack pointers. -/
theorem InStack.sub_add_ne (h : L.InStack c sp) (hk : k < SWITCH_TO_SIZE) {k' : Word}
    (hk' : k' < OFFSET_SIZE) : sp - SWITCH_TO_SIZE + k ≠ L.frame c + k' := by
  intro he
  have hn := (h.sub_add hk).2
  have hf := (L.frame_add_mem (c := c) hk').2
  have h2 := h.2
  rw [he] at hn
  omega

/-- **What is one task's own is not another's.** -/
theorem own_disjoint (hcd : c ≠ d) : Disjoint (L.own c) (L.own d) := by
  rw [own, own, Set.disjoint_insert_left, Set.disjoint_insert_right]
  refine ⟨?_, L.kernelSp_notMem_stack d c,
    (page_disjoint hcd).mono stack_subset_page stack_subset_page⟩
  rintro (h | h)
  · have hd : L.kernelSp d ∈ L.pcbRegion d := kernelSp_mem_pcbRegion
    rw [← h] at hd
    exact Set.disjoint_left.1 (pcbRegion_disjoint hcd) kernelSp_mem_pcbRegion hd
  · exact L.kernelSp_notMem_stack c d h

/-- The `user_sp` of a PCB may be written by everybody. -/
theorem userSp_mem_free (L : Layout T) (c : T) : L.pcb c + PCB_USER_SP ∈ L.free := by
  have hmem : L.pcb c + PCB_USER_SP ∈ L.pcbRegion c := pcb_add_mem (by decide)
  rintro d (h | h)
  · rcases eq_or_ne c d with rfl | hcd
    · have hne : PCB_USER_SP ≠ PCB_KERNEL_SP := by decide
      exact hne ((BitVec.add_right_inj _).1 h)
    · exact Set.disjoint_left.1 (pcbRegion_disjoint hcd) hmem (h ▸ kernelSp_mem_pcbRegion)
  · exact Set.disjoint_left.1 (L.pcbRegion_disjoint_stack c d) hmem h

end Layout

/-! ## The frames of a new task -/

/-- What a task or a thread is started with. -/
structure Start where
  userStack : Word
  entryPoint : Word
  /-- The registers that hold arguments. -/
  args : List (Reg × Word)
  nodup : (args.map Prod.fst).Nodup
  general : ∀ r ∈ args.map Prod.fst, r ≠ 0 ∧ r ≠ sp ∧ r ≠ tp

/-- `init_pcb_stack(kernel_stack, user_stack, entry_point, pcb)` does not pass arguments. -/
def Start.task (userStack entryPoint : Word) : Start :=
  ⟨userStack, entryPoint, [], List.nodup_nil, fun _ hr => absurd hr List.not_mem_nil⟩

/-- `init_tcb_stack(kernel_stack, user_stack, entry_point, tcb, a0, a1, a2, a3)` -/
def Start.thread (userStack entryPoint arg0 arg1 arg2 arg3 : Word) : Start where
  userStack := userStack
  entryPoint := entryPoint
  args := [(a0, arg0), (a1, arg1), (a2, arg2), (a3, arg3)]
  nodup := show [a0, a1, a2, a3].Nodup by decide
  general := show ∀ r ∈ [a0, a1, a2, a3], r ≠ 0 ∧ r ≠ sp ∧ r ≠ tp by decide

/-- What `init_pcb_stack` and `init_tcb_stack` write, in this order. -/
def initStackWrites (sym : Symbols) (kernelStack pcb : Word) (start : Start) :
    List (Word × Word) :=
  let ptRegs := kernelStack - OFFSET_SIZE
  let ptSwitchto := ptRegs - SWITCH_TO_SIZE
  [(element ptRegs (OFFSET_REG_SP >>> 3), start.userStack),
    (element ptRegs (OFFSET_REG_TP >>> 3), pcb)] ++
  start.args.map (fun q => (element ptRegs (BitVec.ofNat 64 q.1), q.2)) ++
  [(ptRegs + OFFSET_REG_SEPC, start.entryPoint),
    (ptRegs + OFFSET_REG_SSTATUS, SR_SPIE),
    (pcb + PCB_KERNEL_SP, ptSwitchto),
    (pcb + PCB_USER_SP, start.userStack),
    (element ptSwitchto (SWITCH_TO_RA >>> 3), sym.retFromException),
    (element ptSwitchto (SWITCH_TO_SP >>> 3), ptSwitchto)]

/-- `init_pcb_stack` and `init_tcb_stack` -/
def initStack (sym : Symbols) (kernelStack pcb : Word) (start : Start) (mem : Word → Word) :
    Word → Word :=
  updates mem (initStackWrites sym kernelStack pcb start)

namespace Layout

variable {T : Type} {L : Layout T} {sym : Symbols} {c d : T} {start : Start} {mem : Word → Word}
  {a : Word}

/-- The `switchto_context_t` of the first `switch_to`. -/
def firstSwitch (L : Layout T) (c : T) : Word := L.frame c - SWITCH_TO_SIZE

/-- The two frames of a new task. -/
def initStack (L : Layout T) (sym : Symbols) (c : T) (start : Start) (mem : Word → Word) :
    Word → Word :=
  UcasOs.initStack sym (L.kernelStack c) (L.pcb c) start mem

/-- What a task starts with, in a `regs_context_t`. -/
structure Starts (L : Layout T) (c : T) (start : Start) (ctx : RegsContext) : Prop where
  sp : ctx.regs sp = start.userStack
  tp : ctx.regs tp = L.pcb c
  args : ∀ q ∈ start.args, ctx.regs q.1 = q.2
  sepc : ctx.sepc = start.entryPoint
  sstatus : ctx.sstatus = SR_SPIE

/-- What is written to the `regs_context_t`, by offsets. -/
def frameFields (L : Layout T) (c : T) (start : Start) : List (Word × Word) :=
  [(OFFSET_REG_SP, start.userStack), (OFFSET_REG_TP, L.pcb c)] ++
    start.args.map (fun q => (regSlot q.1, q.2)) ++
      [(OFFSET_REG_SEPC, start.entryPoint), (OFFSET_REG_SSTATUS, SR_SPIE)]

/-- The writes to the `regs_context_t`. -/
def frameWrites (L : Layout T) (c : T) (start : Start) : List (Word × Word) :=
  (L.frameFields c start).map fun q => (L.frame c + q.1, q.2)

/-- The other writes. -/
def switchWrites (L : Layout T) (sym : Symbols) (c : T) (start : Start) : List (Word × Word) :=
  [(L.kernelSp c, L.firstSwitch c), (L.pcb c + PCB_USER_SP, start.userStack),
    (L.firstSwitch c + SWITCH_TO_RA, sym.retFromException),
    (L.firstSwitch c + SWITCH_TO_SP, L.firstSwitch c)]

theorem element_eq_regSlot : ∀ (p : Word) (r : Reg),
    element p (BitVec.ofNat 64 r) = p + regSlot r := by
  have h : ∀ r : Reg, (BitVec.ofNat 64 r) <<< 3 = regSlot r := by decide
  intro p r
  rw [element, h]

/-- The writes to the `regs_context_t` come first. -/
theorem initStackWrites_eq (L : Layout T) (sym : Symbols) (c : T) (start : Start) :
    initStackWrites sym (L.kernelStack c) (L.pcb c) start =
      L.frameWrites c start ++ L.switchWrites sym c start := by
  rw [initStackWrites, frameWrites, frameFields, switchWrites]
  simp only [List.map_append, List.map_map, List.append_assoc, element_eq_regSlot]
  rfl

theorem initStack_eq : L.initStack sym c start mem =
    updates (updates mem (L.frameWrites c start)) (L.switchWrites sym c start) := by
  rw [← updates_append, initStack, UcasOs.initStack, initStackWrites_eq]

theorem frameFields_pairwise (L : Layout T) (c : T) (start : Start) :
    (L.frameFields c start).Pairwise fun q q' => q.1 ≠ q'.1 := by
  have hargs : ∀ q ∈ start.args, q.1 ≠ sp ∧ q.1 ≠ tp := fun q hq =>
    (start.general q.1 (List.mem_map_of_mem hq)).2
  rw [frameFields, List.pairwise_append, List.pairwise_append, List.pairwise_map]
  refine ⟨⟨?_, (List.pairwise_map.1 start.nodup).imp fun h => regSlot_injective.ne h, ?_⟩, ?_, ?_⟩
  · simp [OFFSET_REG_SP, OFFSET_REG_TP]
  · intro x hx y hy
    obtain ⟨q, hq, rfl⟩ := List.mem_map.1 hy
    simp only [List.mem_cons, List.not_mem_nil, or_false] at hx
    rcases hx with rfl | rfl
    · exact (regSlot_injective.ne (hargs q hq).1).symm
    · exact (regSlot_injective.ne (hargs q hq).2).symm
  · simp [OFFSET_REG_SEPC, OFFSET_REG_SSTATUS]
  · intro x hx y hy
    have hx : ∃ r : Reg, x.1 = regSlot r := by
      simp only [List.mem_append, List.mem_cons, List.not_mem_nil, or_false, List.mem_map] at hx
      rcases hx with (rfl | rfl) | ⟨q, -, rfl⟩
      · exact ⟨sp, rfl⟩
      · exact ⟨tp, rfl⟩
      · exact ⟨q.1, rfl⟩
    obtain ⟨r, hr⟩ := hx
    simp only [List.mem_cons, List.not_mem_nil, or_false] at hy
    rw [hr]
    rcases hy with rfl | rfl
    · exact (regSlot_ne_last r).1
    · exact (regSlot_ne_last r).2

/-- The offsets written are inside the `regs_context_t`. -/
theorem frameFields_lt {q : Word × Word} (hq : q ∈ L.frameFields c start) : q.1 < OFFSET_SIZE := by
  have hslot : ∀ r : Reg, regSlot r < OFFSET_SIZE := by decide
  simp only [frameFields, List.mem_append, List.mem_cons, List.not_mem_nil, or_false,
    List.mem_map] at hq
  rcases hq with ((rfl | rfl) | ⟨q, -, rfl⟩) | rfl | rfl
  · exact hslot sp
  · exact hslot tp
  · exact hslot q.1
  · exact show OFFSET_REG_SEPC < OFFSET_SIZE by decide
  · exact show OFFSET_REG_SSTATUS < OFFSET_SIZE by decide

/-- None of the other writes is to the `regs_context_t`. -/
theorem switchWrites_ne {k : Word} (hk : k < OFFSET_SIZE) :
    ∀ q ∈ L.switchWrites sym c start, q.1 ≠ L.frame c + k := by
  have hmem := (frame_add_mem (L := L) (c := c) hk).1
  intro q hq he
  rw [← he] at hmem
  simp only [switchWrites, List.mem_cons, List.not_mem_nil, or_false] at hq
  rcases hq with rfl | rfl | rfl | rfl
  · exact L.kernelSp_notMem_stack c c hmem
  · exact L.userSp_mem_free c c (stack_subset_own hmem)
  · exact (L.inStack_frame c).sub_add_ne (by decide) hk he
  · exact (L.inStack_frame c).sub_add_ne (by decide) hk he

theorem switchWrites_pairwise (L : Layout T) (sym : Symbols) (c : T) (start : Start) :
    (L.switchWrites sym c start).Pairwise fun q q' => q.1 ≠ q'.1 := by
  have hsw : ∀ k < SWITCH_TO_SIZE, L.firstSwitch c + k ∈ L.stack c := fun k hk =>
    (L.inStack_frame c).sub_add_mem hk
  have h1 : ∀ k < SWITCH_TO_SIZE, L.kernelSp c ≠ L.firstSwitch c + k := fun k hk he =>
    L.kernelSp_notMem_stack c c (he ▸ hsw k hk)
  have h2 : ∀ k < SWITCH_TO_SIZE, L.pcb c + PCB_USER_SP ≠ L.firstSwitch c + k := fun k hk he =>
    L.userSp_mem_free c c (stack_subset_own (he ▸ hsw k hk))
  have h3 : L.kernelSp c ≠ L.pcb c + PCB_USER_SP := fun he =>
    L.userSp_mem_free c c (he ▸ kernelSp_mem_own)
  have h4 : L.firstSwitch c + SWITCH_TO_RA ≠ L.firstSwitch c + SWITCH_TO_SP := fun he =>
    absurd ((BitVec.add_right_inj _).1 he) (by decide)
  have hra : SWITCH_TO_RA < SWITCH_TO_SIZE := by decide
  have hsp : SWITCH_TO_SP < SWITCH_TO_SIZE := by decide
  simp [switchWrites, h1 _ hra, h1 _ hsp, h2 _ hra, h2 _ hsp, h3, h4]

theorem frameWrites_pairwise (L : Layout T) (c : T) (start : Start) :
    (L.frameWrites c start).Pairwise fun q q' => q.1 ≠ q'.1 := by
  rw [frameWrites, List.pairwise_map]
  exact (L.frameFields_pairwise c start).imp fun hne he => hne ((BitVec.add_right_inj _).1 he)

/-- Nothing is written twice, so all that is written stays. -/
theorem initStack_of_mem {q : Word × Word}
    (hq : q ∈ L.frameWrites c start ∨ q ∈ L.switchWrites sym c start) :
    L.initStack sym c start mem q.1 = q.2 := by
  rw [initStack_eq]
  rcases hq with hq | hq
  · obtain ⟨f, hf, rfl⟩ := List.mem_map.1 hq
    rw [updates_of_notMem (switchWrites_ne (frameFields_lt hf))]
    exact updates_of_mem (L.frameWrites_pairwise c start) hq
  · exact updates_of_mem (L.switchWrites_pairwise sym c start) hq

/-- What a `regs_context_t` with all that was written to it starts a task with. -/
theorem starts_of_frameWrites (h : ∀ q ∈ L.frameWrites c start, mem q.1 = q.2) :
    L.Starts c start (.read (L.frame c) mem) := by
  have hmem : ∀ {k v : Word}, (k, v) ∈ L.frameFields c start → mem (L.frame c + k) = v :=
    fun hq => h _ (List.mem_map_of_mem (f := fun q : Word × Word => (L.frame c + q.1, q.2)) hq)
  have hgen : ∀ q ∈ start.args, q.1 ≠ 0 := fun q hq =>
    (start.general q.1 (List.mem_map_of_mem hq)).1
  refine ⟨?_, ?_, ?_, ?_, ?_⟩
  · rw [RegsContext.regs_read (by decide)]
    exact hmem (by simp [frameFields, OFFSET_REG_SP, regSlot])
  · rw [RegsContext.regs_read (by decide)]
    exact hmem (by simp [frameFields, OFFSET_REG_TP, regSlot])
  · intro q hq
    rw [RegsContext.regs_read (hgen q hq)]
    exact hmem (List.mem_append_left _ (List.mem_append_right _
      (List.mem_map_of_mem (f := fun q : Reg × Word => (regSlot q.1, q.2)) hq)))
  · exact hmem (by simp [frameFields])
  · exact hmem (by simp [frameFields])

/-- **What a new task is started with is in its `regs_context_t`.** -/
theorem starts_initStack (L : Layout T) (sym : Symbols) (c : T) (start : Start)
    (mem : Word → Word) :
    L.Starts c start (.read (L.frame c) (L.initStack sym c start mem)) :=
  starts_of_frameWrites fun _ hq => initStack_of_mem (.inl hq)

/-- A task that is not running: its `kernel_sp` leads to a `switchto_context_t`, from which
`switch_to` returns to `ra` with the stack pointer `sp`. -/
structure Suspended (L : Layout T) (c : T) (sp ra : Word) (mem : Word → Word) : Prop where
  kernelSp : mem (L.kernelSp c) = sp - SWITCH_TO_SIZE
  ra : mem (sp - SWITCH_TO_SIZE + SWITCH_TO_RA) = ra
  sp : mem (sp - SWITCH_TO_SIZE + SWITCH_TO_SP) = sp - SWITCH_TO_SIZE

theorem suspended_of_switchWrites (h : ∀ q ∈ L.switchWrites sym c start, mem q.1 = q.2) :
    L.Suspended c (L.frame c) sym.retFromException mem where
  kernelSp := h _ (List.mem_cons_self (a := (L.kernelSp c, L.firstSwitch c)))
  ra := h (L.firstSwitch c + SWITCH_TO_RA, _) (by simp [switchWrites])
  sp := h (L.firstSwitch c + SWITCH_TO_SP, L.firstSwitch c) (by simp [switchWrites])

/-- **A new task looks as if it had called `switch_to`.** -/
theorem suspended_initStack (L : Layout T) (sym : Symbols) (c : T) (start : Start)
    (mem : Word → Word) :
    L.Suspended c (L.frame c) sym.retFromException (L.initStack sym c start mem) :=
  suspended_of_switchWrites fun _ hq => initStack_of_mem (.inr hq)

/-- Of what belongs to others nothing is written. -/
theorem initStack_of_notMem (ha : a ∉ L.own c) (hu : a ≠ L.pcb c + PCB_USER_SP) :
    L.initStack sym c start mem a = mem a := by
  rw [initStack_eq, updates_of_notMem, updates_of_notMem]
  · intro q hq he
    obtain ⟨f, hf, rfl⟩ := List.mem_map.1 hq
    rw [← he] at ha
    exact ha (stack_subset_own (frame_add_mem (frameFields_lt hf)).1)
  · intro q hq he
    rw [← he] at ha hu
    simp only [switchWrites, List.mem_cons, List.not_mem_nil, or_false] at hq
    rcases hq with rfl | rfl | rfl | rfl
    · exact ha kernelSp_mem_own
    · exact hu rfl
    · exact ha (stack_subset_own ((L.inStack_frame c).sub_add_mem (by decide)))
    · exact ha (stack_subset_own ((L.inStack_frame c).sub_add_mem (by decide)))

theorem Suspended.congr {sp ra : Word} {mem' : Word → Word} (h : L.Suspended c sp ra mem)
    (hsp : L.InStack c sp)
    (hmem : ∀ a ∈ L.own c, mem' a = mem a) : L.Suspended c sp ra mem' where
  kernelSp := (hmem _ kernelSp_mem_own).trans h.kernelSp
  ra := (hmem _ (stack_subset_own (hsp.sub_add_mem (by decide)))).trans h.ra
  sp := (hmem _ (stack_subset_own (hsp.sub_add_mem (by decide)))).trans h.sp

/-- The frames of a new task are its own, and its `user_sp` is nobody's. -/
theorem initStack_own (hcd : c ≠ d) (ha : a ∈ L.own c) : L.initStack sym d start mem a = mem a := by
  refine initStack_of_notMem (Set.disjoint_left.1 (own_disjoint hcd) ha) ?_
  rintro rfl
  exact L.userSp_mem_free d c ha

/-- What the loop of `init_pcb` writes to the kernel stacks. -/
def initStacks (L : Layout T) (sym : Symbols) (starts : List (T × Start)) (mem : Word → Word) :
    Word → Word :=
  starts.foldl (fun mem p => L.initStack sym p.1 p.2 mem) mem

/-- If a memory has all of it already, nothing changes. -/
theorem initStacks_eq_self {starts : List (T × Start)}
    (h : ∀ p ∈ starts, ∀ q ∈ initStackWrites sym (L.kernelStack p.1) (L.pcb p.1) p.2,
      mem q.1 = q.2) : L.initStacks sym starts mem = mem := by
  induction starts with
  | nil => rfl
  | cons p starts ih =>
    have hfirst : L.initStack sym p.1 p.2 mem = mem := updates_eq_self (h p List.mem_cons_self)
    rw [initStacks, List.foldl_cons, hfirst]
    exact ih fun q hq => h q (List.mem_cons_of_mem p hq)

/-- Every task is left ready to be dispatched for the first time. -/
theorem inits_initStacks {starts : List (T × Start)} (hnodup : (starts.map Prod.fst).Nodup)
    {p : T × Start} (hp : p ∈ starts) (mem : Word → Word) :
    L.Starts p.1 p.2 (.read (L.frame p.1) (L.initStacks sym starts mem)) ∧
      L.Suspended p.1 (L.frame p.1) sym.retFromException (L.initStacks sym starts mem) := by
  induction starts using List.reverseRecOn with
  | nil => exact absurd hp List.not_mem_nil
  | append_singleton starts q ih =>
    have hlast : L.initStacks sym (starts ++ [q]) mem
        = L.initStack sym q.1 q.2 (L.initStacks sym starts mem) := List.foldl_concat ..
    rw [List.map_append, List.nodup_append] at hnodup
    rw [hlast]
    rcases List.mem_append.1 hp with hp' | hp'
    · have hne : p.1 ≠ q.1 := hnodup.2.2 _ (List.mem_map_of_mem hp') _ (by simp)
      have hmem : ∀ a ∈ L.own p.1, L.initStack sym q.1 q.2 (L.initStacks sym starts mem) a
          = L.initStacks sym starts mem a := fun a ha => initStack_own hne ha
      obtain ⟨hstarts, hsus⟩ := ih hnodup.1 hp'
      refine ⟨?_, hsus.congr (L.inStack_frame p.1) hmem⟩
      rw [RegsContext.read_congr fun k hk => hmem _ (frame_mem_own hk)]
      exact hstarts
    · rw [List.mem_singleton.1 hp']
      exact ⟨L.starts_initStack sym q.1 q.2 _, L.suspended_initStack sym q.1 q.2 _⟩

end Layout

/-! ## The layout of the kernel -/

/-- `NUM_MAX_TASK` -/
def NUM_MAX_TASK : ℕ := 16

/-- The array `pcb`, which the linker puts below the kernel stacks, and how much of it `init_pcb`
uses. -/
structure PcbArray where
  base : Word
  tasks : ℕ
  tasks_le : tasks ≤ NUM_MAX_TASK
  aligned : 8 ∣ base.toNat
  below : base.toNat + NUM_MAX_TASK * SIZEOF_PCB.toNat ≤ INIT_KERNEL_STACK.toNat

namespace PcbArray

variable (p : PcbArray)

/-- `&pcb[i]` -/
def addr (i : ℕ) : Word := p.base + BitVec.ofNat 64 (i * 72)

theorem addr_toNat {i : ℕ} (hi : i < NUM_MAX_TASK) : (p.addr i).toNat = p.base.toNat + i * 72 := by
  have hi : i < 16 := hi
  have hb : p.base.toNat + 16 * 72 ≤ 0x50500000 := p.below
  rw [addr, BitVec.toNat_add, BitVec.toNat_ofNat]
  omega

/-- **The pages that `allocKernelPage` gives**, first to the tasks and then to the threads. -/
def layout : Layout (Fin stackCapacity) where
  kernelPage i := (Mm.stacksOf i).kernelBase
  thread i := decide (p.tasks ≤ i)
  pcbAddr i := p.addr i
  aligned i := by
    have hp : PAGE_SIZE.toNat = 4096 := rfl
    rw [Mm.stacksOf_kernelBase i.isLt.le, hp]
    omega
  injective i j h := by
    have h := congrArg BitVec.toNat h
    simp only [Mm.stacksOf_kernelBase i.isLt.le, Mm.stacksOf_kernelBase j.isLt.le] at h
    exact Fin.ext (by omega)
  pcbAddr_aligned i hi := by
    have hlt := Nat.lt_of_lt_of_le (Nat.lt_of_not_le (of_decide_eq_false hi)) p.tasks_le
    have ha := p.aligned
    rw [addr_toNat p hlt]
    omega
  pcbAddr_le i hi := by
    have hlt := Nat.lt_of_lt_of_le (Nat.lt_of_not_le (of_decide_eq_false hi)) p.tasks_le
    have hlt' : (i : ℕ) < 16 := hlt
    have hb : p.base.toNat + 16 * 72 ≤ 0x50500000 := p.below
    have hs : SIZEOF_PCB.toNat = 72 := rfl
    rw [addr_toNat p hlt, hs]
    omega
  pcbAddr_disjoint i j hi hj hij := by
    have hi := Nat.lt_of_lt_of_le (Nat.lt_of_not_le (of_decide_eq_false hi)) p.tasks_le
    have hj := Nat.lt_of_lt_of_le (Nat.lt_of_not_le (of_decide_eq_false hj)) p.tasks_le
    have hij : (i : ℕ) ≠ j := fun h => hij (Fin.ext h)
    have hs : SIZEOF_PCB.toNat = 72 := rfl
    rw [Set.disjoint_left]
    intro a ha hb
    rw [Layout.mem_region, addr_toNat p hi, hs] at ha
    rw [Layout.mem_region, addr_toNat p hj, hs] at hb
    omega
  pcbAddr_outside i j hi := by
    have hi := Nat.lt_of_lt_of_le (Nat.lt_of_not_le (of_decide_eq_false hi)) p.tasks_le
    have hi' : (i : ℕ) < 16 := hi
    have hb : p.base.toNat + 16 * 72 ≤ 0x50500000 := p.below
    have hs : SIZEOF_PCB.toNat = 72 := rfl
    rw [Set.disjoint_left]
    intro a ha hb
    rw [Layout.mem_region, addr_toNat p hi, hs] at ha
    rw [Layout.mem_region, Mm.stacksOf_kernelBase j.isLt.le] at hb
    omega

/-- What is below the kernel stacks and not in the array is free. -/
theorem mem_free {a : Word} (ha : a.toNat < FREEMEM_KERNEL.toNat)
    (hp : a.toNat < p.base.toNat ∨ p.base.toNat + NUM_MAX_TASK * SIZEOF_PCB.toNat ≤ a.toNat) :
    a ∈ p.layout.free := by
  have hf : FREEMEM_KERNEL.toNat = 0x50501000 := rfl
  have hs : NUM_MAX_TASK * SIZEOF_PCB.toNat = 16 * 72 := rfl
  have hpage : ∀ i, a ∉ region (p.layout.kernelPage i) PAGE_SIZE.toNat := by
    intro i hi
    rw [Layout.mem_region, show p.layout.kernelPage i = (Mm.stacksOf i).kernelBase from rfl,
      Mm.stacksOf_kernelBase i.isLt.le] at hi
    omega
  rintro i (h | h)
  · rw [h] at ha hp hpage
    cases ht : p.layout.thread i with
    | true => exact hpage i (Layout.pcbRegion_subset_page ht Layout.kernelSp_mem_pcbRegion)
    | false =>
      have hi := Nat.lt_of_lt_of_le (Nat.lt_of_not_le (of_decide_eq_false ht)) p.tasks_le
      have hi' : (i : ℕ) < 16 := hi
      have hmem : p.layout.kernelSp i ∈ p.layout.pcbRegion i := Layout.kernelSp_mem_pcbRegion
      have hpcb : p.layout.pcb i = p.addr i := by
        rw [Layout.pcb, ht]
        rfl
      have hz : SIZEOF_PCB.toNat = 72 := rfl
      rw [Layout.pcbRegion, Layout.mem_region, hpcb, addr_toNat p hi, hz] at hmem
      omega
  · exact hpage i (Layout.stack_subset_page h)

end PcbArray

end UcasOs
