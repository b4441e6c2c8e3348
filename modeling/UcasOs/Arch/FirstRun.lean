import UcasOs.Arch.Transparency

/-!
# How tasks and threads start

A new task has never called `switch_to` and never trapped, but its kernel stack looks as if it had
done both.

* `Layout.placed` — the frames of a new task and the TCB fit on its kernel page.
* `Path.first_run` — **the first dispatch gets a task to its entry point**, whatever has happened
  since it was created.
-/

set_option autoImplicit false

namespace UcasOs

open Riscv Reg

variable {T : Type} {L : Layout T} {c : T}

/-- Where the frames of a task and its PCB are. -/
structure Placed (L : Layout T) (c : T) : Prop where
  /-- The `regs_context_t` and the `switchto_context_t` are on the kernel page. -/
  frame : region (L.frame c) OFFSET_SIZE.toNat ⊆ region (L.kernelPage c) PAGE_SIZE.toNat
  switch : region (L.firstSwitch c) SWITCH_TO_SIZE.toNat ⊆ region (L.kernelPage c) PAGE_SIZE.toNat
  /-- So is the TCB of a thread. -/
  tcb : L.thread c = true → L.pcbRegion c ⊆ region (L.kernelPage c) PAGE_SIZE.toNat
  frame_switch : Disjoint (region (L.frame c) OFFSET_SIZE.toNat)
    (region (L.firstSwitch c) SWITCH_TO_SIZE.toNat)
  pcb_frame : Disjoint (L.pcbRegion c) (region (L.frame c) OFFSET_SIZE.toNat)
  pcb_switch : Disjoint (L.pcbRegion c) (region (L.firstSwitch c) SWITCH_TO_SIZE.toNat)

theorem Layout.firstSwitch_toNat (L : Layout T) (c : T) :
    (L.firstSwitch c).toNat = (L.frame c).toNat - 112 := by
  have h := (L.inStack_frame c).toNat_sub_add (k := 0#64) (by decide)
  rw [BitVec.add_zero] at h
  exact h

/-- **Nothing of a new task overlaps.** -/
theorem Layout.placed (L : Layout T) (c : T) : Placed L c := by
  have hs := L.stackSize_le c
  have hf := L.frame_toNat c
  have hw := L.firstSwitch_toNat c
  have ho : OFFSET_SIZE.toNat = 288 := rfl
  have hz : SWITCH_TO_SIZE.toNat = 112 := rfl
  have hframe : region (L.frame c) OFFSET_SIZE.toNat ⊆ L.stack c := by
    intro a ha
    rw [mem_region] at ha
    rw [mem_stack]
    omega
  have hswitch : region (L.firstSwitch c) SWITCH_TO_SIZE.toNat ⊆ L.stack c := by
    intro a ha
    rw [mem_region] at ha
    rw [mem_stack]
    omega
  refine ⟨hframe.trans stack_subset_page, hswitch.trans stack_subset_page, pcbRegion_subset_page, ?_,
    (L.pcbRegion_disjoint_stack c c).mono_right hframe,
    (L.pcbRegion_disjoint_stack c c).mono_right hswitch⟩
  rw [Set.disjoint_left]
  intro a ha hb
  rw [mem_region] at ha hb
  omega

/-- The hart at the first instruction of a task or thread. -/
structure Started (L : Layout T) (c : T) (start : Start) (m : Machine) : Prop where
  mode : m.mode = .user
  /-- Interrupts are enabled. -/
  interrupts : m.csr .sstatus = SIE ||| SPIE
  pc : m.pc = start.entryPoint
  sp : m.get sp = start.userStack
  tp : m.get tp = L.pcb c
  args : ∀ q ∈ start.args, m.get q.1 = q.2
  kernelSp : m.mem (L.kernelSp c) = L.frame c

variable [DecidableEq T] {sym : Symbols} {start : Start} {m₀ : Machine} {s₀ s s' s₁ s₂ s₃ : State T}
  {l : Label T} {ls : List (Label T)}

/-- `c` has just been created: by `init_pcb`, or by a thread that has called `do_thread_create`. -/
inductive CreatedIn (L : Layout T) (sym : Symbols) (s₀ : State T) (c : T) (start : Start) :
    State T → Prop
  | initPcb (h : s₀.act c = .fresh start) : CreatedIn L sym s₀ c start s₀
  | doThreadCreate {s s₁ : State T} {ls : List (Label T)} (hpath : Path L sym s₀ ls s)
      (hstep : Step L sym s (.create c start) s₁) : CreatedIn L sym s₀ c start s₁

/-- A task stays as it was created until it is in user mode. -/
theorem Step.fresh (hstep : Step L sym s l s') (hinv : Inv L sym s) (hact : s.act c = .fresh start)
    (hl : l ≠ .ret c) : s'.act c = .fresh start := by
  rcases eq_or_ne c s.cur with rfl | hc
  · exact absurd (hstep.eq_ret (.inr ⟨start, hact⟩) hinv) hl
  · rw [hstep.act_of_ne hinv hc (by rw [hact]; simp), hact]

theorem Path.fresh (hpath : Path L sym s₁ ls s₂) (hinv : Inv L sym s₁)
    (hact : s₁.act c = .fresh start) (hls : Label.ret c ∉ ls) : s₂.act c = .fresh start := by
  induction hpath with
  | nil => exact hact
  | snoc hpath hstep ih =>
    rw [List.mem_append, not_or] at hls
    refine hstep.fresh (hinv.of_path hpath) (ih hls.1) ?_
    rintro rfl
    exact hls.2 List.mem_cons_self

theorem CreatedIn.fresh (h : CreatedIn L sym s₀ c start s₁) (hinv : Inv L sym s₀) :
    Inv L sym s₁ ∧ s₁.act c = .fresh start := by
  cases h with
  | initPcb h => exact ⟨hinv, h⟩
  | doThreadCreate hpath hstep =>
    refine ⟨(hinv.of_path hpath).step hstep, ?_⟩
    cases hstep
    exact Function.update_self ..

/-- **The first dispatch.**  A task that `init_pcb` has created, or a thread that any task or thread
has created since, starts in user mode at its entry point, with its own stack, `tp` and arguments,
whatever has happened between its creation and its first dispatch.  Its frames and its TCB are apart
from each other on its kernel page, and its `kernel_sp` is the address of its `regs_context_t`. -/
theorem Path.first_run (hboot : Boots L sym m₀ s₀) (hcreated : CreatedIn L sym s₀ c start s₁)
    (haway : Path L sym s₁ ls s₂) (hret : Label.ret c ∉ ls) (hback : Step L sym s₂ (.ret c) s₃) :
    Started L c start s₃.machine ∧ Placed L c := by
  obtain ⟨hinv₁, hact₁⟩ := hcreated.fresh hboot.inv
  have hinv₂ := hinv₁.of_path haway
  have hact := haway.fresh hinv₁ hact₁ hret
  obtain ⟨rfl, hact₂, rfl⟩ := hback.of_ret
  have hstarts := hinv₂.running
  rw [hact] at hstarts
  obtain ⟨hstarts, -⟩ := hstarts
  obtain ⟨hget, hpc, hsstatus, -, hmode, -⟩ := hinv₂.ret_spec hact₂
  refine ⟨⟨hmode, ?_, hpc.trans hstarts.sepc, (congrFun hget sp).trans hstarts.sp,
    (congrFun hget tp).trans hstarts.tp, fun q hq => (congrFun hget q.1).trans (hstarts.args q hq),
    ?_⟩, L.placed _⟩
  · refine hsstatus.trans ?_
    rw [hstarts.sstatus]
    decide
  · exact hinv₂.mem_ret_kernelSp hact₂

/-! ### A task that creates a thread -/

/-- The thread of the example. -/
def theThread : Fin stackCapacity := ⟨2, by decide⟩

/-- The first of two tasks creates a thread, which gets the hart after the other task. -/
theorem Path.first_run_thread : ∃ s₁ s₂ s₃ : State (Fin stackCapacity),
    Path twoPcbs.layout ⟨0x50201000, 0x50202000, 0x50203000⟩ s₁
        [.switch firstTask secondTask, .ret secondTask, .trap secondTask EXC_SYSCALL,
          .switch secondTask firstTask, .resume firstTask, .switch firstTask theThread] s₂ ∧
      Step twoPcbs.layout ⟨0x50201000, 0x50202000, 0x50203000⟩ s₂ (.ret theThread) s₃ ∧
      Started twoPcbs.layout theThread (.thread 0x52520000 0x52000100 1 2 3 4) s₃.machine ∧
      Placed twoPcbs.layout theThread := by
  obtain ⟨m₀, s₀, hboot, hcur₀, hfirst, hsecond, habsent⟩ :=
    exists_boots_twoPcbs ⟨0x50201000, 0x50202000, 0x50203000⟩ fun _ => 0x52000000
  have hne : secondTask ≠ firstTask := by decide
  have hne₁ : theThread ≠ firstTask := by decide
  have hne₂ : theThread ≠ secondTask := by decide
  obtain ⟨s, hret, hcur, hact, hsame⟩ := hboot.inv.exists_ret hcur₀ hfirst
  have hinv := hboot.inv.step hret
  obtain ⟨s', call, htrap, hcur', hact', hsame', -⟩ := hinv.exists_trap hcur hact
  have hbefore := Path.snoc (.snoc (.nil _) hret) htrap
  have habsent' : s'.act theThread = .absent := by
    rw [hsame' _ hne₁, hsame _ hne₁, habsent _ hne₁ hne₂]
  obtain ⟨s₁, hcreate, hcur₁, hact₁, hthread, hsame₁⟩ :=
    Inv.exists_create hcur' hact' habsent' 0x52520000 0x52000100 1 2 3 4
  have hinv₁ := (hinv.step htrap).step hcreate
  rw [← hsame _ hne, ← hsame' _ hne, ← hsame₁ _ hne₂.symm] at hsecond
  obtain ⟨s'', hdetour, hcur'', hact''⟩ := hinv₁.exists_detour hcur₁ hact₁ hne hsecond
  have hthread'' := hdetour.fresh hinv₁ hthread (by simp [hne₂])
  obtain ⟨s₂, hswitch, hcur₂, hact₂, -⟩ :=
    (hinv₁.of_path hdetour).exists_switch hcur'' hact'' hne₁ (by rw [hthread'']; simp)
  have haway := Path.snoc hdetour hswitch
  obtain ⟨s₃, hback, -⟩ :=
    (hinv₁.of_path haway).exists_ret hcur₂ (hact₂.trans hthread'')
  exact ⟨s₁, s₂, s₃, haway, hback,
    Path.first_run hboot (.doThreadCreate hbefore hcreate) haway (by simp [hne₂]) hback⟩

end UcasOs
