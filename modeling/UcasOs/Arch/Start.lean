import UcasOs.Lib.Asm

/-!
# Clearing the BSS

`_start` of the kernel (`arch/riscv/kernel/head.S`) and of the user runtime
(`arch/riscv/crt0/crt0.S`), up to the label `end_clear`.  The two have the same lines from the first
`la` on: a loop that clears single bytes up to a multiple of eight, and one that clears double
words from there.

* `Clearing` — the loop invariant: everything up to `t0` is cleared, and nothing else was stored.
* `alignedLoop`, `clearLoop` — one iteration of each loop.
* `clearBss_spec` — from the first `la` on, wherever in the text it stands, the range is cleared.
* `start_clears_bss` — both `_start`s.  The linker script aligns `__BSS_END__` to eight, without
  which the second loop would clear up to seven bytes behind it.
-/

set_option autoImplicit false

namespace UcasOs

open Riscv Reg

/-- The labels of `_start`. -/
inductive StartLabel
  | clear
  | aligned_8_clear
  | end_clear
  deriving DecidableEq

/-- The lines that clear the BSS. -/
def clearBss (bss_start BSS_END : Word) : List (Asm StartLabel) :=
  [.la t0 bss_start,
   .la t1 BSS_END,
   .bge t0 t1 .end_clear,
   .label .clear,
   .andi t2 t0 7,
   .beqz t2 .aligned_8_clear,
   .sb zero 0 t0,
   .addi t0 t0 1,
   .bge t0 t1 .end_clear,
   .j .clear,
   .label .aligned_8_clear,
   .bge t0 t1 .end_clear,
   .sd zero 0 t0,
   .addi t0 t0 8,
   .j .aligned_8_clear,
   .label .end_clear]

/-- What `_start` of the kernel does first: it masks the interrupts. -/
def headPrologue : List (Asm StartLabel) := [.csrw .sie zero, .csrw .sip zero]

/-- What `_start` of the user runtime does first: it makes room on the stack. -/
def crt0Prologue : List (Asm StartLabel) :=
  [.mv t0 sp, .addi t0 t0 (-16), .sd ra 0 t0, .sd sp 8 t0, .mv sp t0]

/-- `_start` of `head.S`, up to `end_clear` -/
def headStart (bss_start BSS_END : Word) : List (Asm StartLabel) :=
  headPrologue ++ clearBss bss_start BSS_END

/-- `_start` of `crt0.S`, up to `end_clear` -/
def crt0Start (bss_start BSS_END : Word) : List (Asm StartLabel) :=
  crt0Prologue ++ clearBss bss_start BSS_END

/-- The hart has cleared the BSS up to `t0`. -/
structure Clearing (s s' : Hart) (start stop : Word) : Prop where
  t1 : s'.get t1 = stop
  le : start.toNat ≤ (s'.get t0).toNat
  le_stop : (s'.get t0).toNat ≤ stop.toNat
  zeroed : Zeroed s s' start.toNat (s'.get t0).toNat

section Loops

variable {start stop : Word} {before : List (Asm StartLabel)} {s s' : Hart} {k : ℕ}
  {i : Asm StartLabel}

theorem target_clear (h : ∀ i ∈ before, ∀ l, i.isLabel l = false) :
    target (before ++ clearBss start stop) .clear = before.length + 3 :=
  target_append fun i hi => h i hi _

theorem target_aligned (h : ∀ i ∈ before, ∀ l, i.isLabel l = false) :
    target (before ++ clearBss start stop) .aligned_8_clear = before.length + 10 :=
  target_append fun i hi => h i hi _

theorem target_end (h : ∀ i ∈ before, ∀ l, i.isLabel l = false) :
    target (before ++ clearBss start stop) .end_clear = before.length + 15 :=
  target_append fun i hi => h i hi _

/-- `k` lines behind the first `la`. -/
theorem step_clearBss (hi : (clearBss start stop)[k]? = some i) (hpc : s.pc = before.length + k) :
    s.step (before ++ clearBss start stop) =
      s.exec (target (before ++ clearBss start stop)) i := by
  rw [step_append hpc, hi, Option.bind_some]

/-- Where the execution goes on does not matter. -/
theorem Clearing.goto (hs : Clearing s s' start stop) (n : ℕ) : Clearing s (s'.goto n) start stop :=
  ⟨hs.t1, hs.le, hs.le_stop, hs.zeroed.congr rfl rfl⟩

/-- `bge t0, t1, end_clear` -/
theorem exec_bge_end (t : StartLabel → ℕ) (hs : Clearing s s' start stop)
    (hstop : stop.toNat < 2 ^ 63) :
    s'.exec t (.bge t0 t1 .end_clear) =
      some (if (s'.get t0).toNat = stop.toNat then s'.goto (t .end_clear) else s'.next) := by
  have hle := hs.le_stop
  rw [Hart.exec, hs.t1]
  by_cases h : (s'.get t0).toNat = stop.toNat
  · rw [if_pos h, if_pos ((toInt_le_iff hstop (by omega)).2 (by omega))]
  · rw [if_neg h, if_neg fun h' => h (by have := (toInt_le_iff hstop (by omega)).1 h'; omega)]

/-- The hart after the label `clear` and `andi t2, t0, 7`. -/
def maskStep (s : Hart) : Hart := (s.next.set t2 (s.get t0 &&& 7)).next

theorem reaches_maskStep (hpc : s.pc = before.length + 3) :
    Reaches (before ++ clearBss start stop) s (maskStep s) := by
  have hlabel : s.step (before ++ clearBss start stop) = some s.next :=
    step_clearBss (k := 3) rfl hpc
  have handi : s.next.step (before ++ clearBss start stop) = some (maskStep s) :=
    step_clearBss (k := 4) rfl (congrArg (· + 1) hpc)
  exact .head hlabel (.head handi .refl)

theorem get_maskStep_t2 : (maskStep s).get t2 = s.get t0 &&& 7 := by
  rw [maskStep, Hart.get_next, Hart.get_set_self (by decide)]

theorem Clearing.maskStep (hs : Clearing s s' start stop) : Clearing s (maskStep s') start stop :=
  ⟨hs.t1, hs.le, hs.le_stop, hs.zeroed.congr rfl rfl⟩

/-- The hart after a byte is cleared: `sb zero, 0(t0)` and `addi t0, t0, 1`. -/
def byteStep (s : Hart) : Hart :=
  ((s.storeByte (s.get t0) 0).next.set t0 (s.get t0 + 1)).next

theorem reaches_byteStep (hpc : s.pc = before.length + 6) :
    Reaches (before ++ clearBss start stop) s (byteStep s) := by
  have hsb : s.step (before ++ clearBss start stop) = some (s.storeByte (s.get t0) 0).next := by
    refine (step_clearBss (k := 6) rfl hpc).trans ?_
    rw [Hart.exec, add_zero]
    rfl
  have haddi : (s.storeByte (s.get t0) 0).next.step (before ++ clearBss start stop) =
      some (byteStep s) :=
    step_clearBss (k := 7) rfl (congrArg (· + 1) hpc)
  exact .head hsb (.head haddi .refl)

theorem toNat_byteStep (hlt : (s.get t0).toNat < stop.toNat) :
    ((byteStep s).get t0).toNat = (s.get t0).toNat + 1 := by
  have hget : (byteStep s).get t0 = s.get t0 + 1 :=
    Hart.get_set_self (s := (s.storeByte (s.get t0) 0).next) (by decide)
  have h1 : (1 : Word).toNat = 1 := rfl
  have hstop := stop.isLt
  rw [hget, BitVec.toNat_add]
  omega

theorem get_byteStep_t1 : (byteStep s).get t1 = s.get t1 := by
  rw [byteStep, Hart.get_next, Hart.get_set_of_ne (by decide), Hart.get_next, Hart.get_storeByte]

theorem Clearing.byteStep (hs : Clearing s s' start stop)
    (hlt : (s'.get Reg.t0).toNat < stop.toNat) : Clearing s (byteStep s') start stop := by
  have ht0 := toNat_byteStep hlt
  refine ⟨get_byteStep_t1.trans hs.t1, ?_, ?_, ?_⟩
  · rw [ht0]
    exact hs.le.trans (Nat.le_add_right _ _)
  · rw [ht0]
    exact hlt
  · rw [ht0]
    exact (hs.zeroed.storeByte hs.le rfl).congr rfl rfl

/-- The hart after a double word is cleared: `sd zero, 0(t0)` and `addi t0, t0, 8`. -/
def doubleStep (s : Hart) : Hart :=
  ((s.storeDouble (s.get t0) 0).next.set t0 (s.get t0 + 8)).next

theorem reaches_doubleStep (hpc : s.pc = before.length + 12) (h8 : (s.get t0).toNat % 8 = 0) :
    Reaches (before ++ clearBss start stop) s (doubleStep s) := by
  have hsd : s.step (before ++ clearBss start stop) = some (s.storeDouble (s.get t0) 0).next := by
    refine (step_clearBss (k := 12) rfl hpc).trans ?_
    rw [Hart.exec, add_zero, if_pos h8]
    rfl
  have haddi : (s.storeDouble (s.get t0) 0).next.step (before ++ clearBss start stop) =
      some (doubleStep s) :=
    step_clearBss (k := 13) rfl (congrArg (· + 1) hpc)
  exact .head hsd (.head haddi .refl)

theorem toNat_doubleStep (hroom : (s.get t0).toNat + 8 ≤ stop.toNat) :
    ((doubleStep s).get t0).toNat = (s.get t0).toNat + 8 := by
  have hget : (doubleStep s).get t0 = s.get t0 + 8 :=
    Hart.get_set_self (s := (s.storeDouble (s.get t0) 0).next) (by decide)
  have h8 : (8 : Word).toNat = 8 := rfl
  have hstop := stop.isLt
  rw [hget, BitVec.toNat_add]
  omega

theorem get_doubleStep_t1 : (doubleStep s).get t1 = s.get t1 := by
  rw [doubleStep, Hart.get_next, Hart.get_set_of_ne (by decide), Hart.get_next, Hart.get_storeDouble]

theorem Clearing.doubleStep (hs : Clearing s s' start stop)
    (hroom : (s'.get Reg.t0).toNat + 8 ≤ stop.toNat) :
    Clearing s (doubleStep s') start stop := by
  have ht0 := toNat_doubleStep hroom
  have hstop := stop.isLt
  refine ⟨get_doubleStep_t1.trans hs.t1, ?_, ?_, ?_⟩
  · rw [ht0]
    exact hs.le.trans (Nat.le_add_right _ _)
  · rw [ht0]
    exact hroom
  · rw [ht0]
    exact (hs.zeroed.storeDouble hs.le rfl (by omega)).congr rfl rfl

/-- **One iteration of `aligned_8_clear`**: it is the last one, or a double word is cleared. -/
theorem alignedLoop (hbefore : ∀ i ∈ before, ∀ l, i.isLabel l = false)
    (hstop : stop.toNat < 2 ^ 63) (halign : stop.toNat % 8 = 0) (hs : Clearing s s' start stop)
    (hpc : s'.pc = before.length + 10) (h8 : (s'.get t0).toNat % 8 = 0) :
    ∃ t, Reaches (before ++ clearBss start stop) s' t ∧
      ((t.pc = before.length + 15 ∧ Zeroed s t start.toNat stop.toNat) ∨
        (Clearing s t start stop ∧ t.pc = before.length + 10 ∧ (t.get t0).toNat % 8 = 0) ∧
          stop.toNat - (t.get t0).toNat < stop.toNat - (s'.get t0).toNat) := by
  have hle := hs.le_stop
  have hlabel : s'.step (before ++ clearBss start stop) = some s'.next :=
    step_clearBss (k := 10) rfl hpc
  have hline : (clearBss start stop)[11]? = some (.bge t0 t1 .end_clear) := rfl
  have hbge := (step_clearBss hline (congrArg (· + 1) hpc)).trans
    (exec_bge_end (target (before ++ clearBss start stop)) (hs.goto (s'.pc + 1)) hstop)
  rw [Hart.get_goto] at hbge
  by_cases hend : (s'.get t0).toNat = stop.toNat
  · rw [if_pos hend, target_end hbefore] at hbge
    refine ⟨_, .head hlabel (.head hbge .refl), Or.inl ⟨rfl, ?_⟩⟩
    rw [← hend]
    exact hs.zeroed.congr rfl rfl
  · rw [if_neg hend] at hbge
    -- both `t0` and the end are multiples of eight, so there is room for a double word
    have hroom : (s'.get t0).toNat + 8 ≤ stop.toNat := by omega
    have hdouble : Reaches (before ++ clearBss start stop) s'.next.next (doubleStep s'.next.next) :=
      reaches_doubleStep (congrArg (· + 2) hpc) h8
    have hj : (doubleStep s'.next.next).step (before ++ clearBss start stop) =
        some ((doubleStep s'.next.next).goto (before.length + 10)) := by
      rw [step_clearBss (k := 14) (i := .j .aligned_8_clear) rfl (congrArg (· + 4) hpc), Hart.exec,
        target_aligned hbefore]
    have ht0 := toNat_doubleStep (s := s'.next.next) hroom
    have hs' : Clearing s (doubleStep s'.next.next) start stop :=
      Clearing.doubleStep ((hs.goto _).goto _) hroom
    refine ⟨_, .head hlabel (.head hbge (hdouble.trans (.head hj .refl))),
      Or.inr ⟨⟨hs'.goto _, rfl, ?_⟩, ?_⟩⟩
    · rw [Hart.get_goto, ht0, Hart.get_next, Hart.get_next]
      omega
    · rw [Hart.get_goto, ht0, Hart.get_next, Hart.get_next]
      omega

/-- **One iteration of `clear`**: a multiple of eight is reached, or a byte is cleared, which may be
the last one. -/
theorem clearLoop (hbefore : ∀ i ∈ before, ∀ l, i.isLabel l = false)
    (hstop : stop.toNat < 2 ^ 63) (hs : Clearing s s' start stop)
    (hpc : s'.pc = before.length + 3) (hlt : (s'.get t0).toNat < stop.toNat) :
    ∃ t, Reaches (before ++ clearBss start stop) s' t ∧
      (((t.pc = before.length + 15 ∧ Zeroed s t start.toNat stop.toNat) ∨
          Clearing s t start stop ∧ t.pc = before.length + 10 ∧ (t.get t0).toNat % 8 = 0) ∨
        (Clearing s t start stop ∧ t.pc = before.length + 3 ∧ (t.get t0).toNat < stop.toNat) ∧
          stop.toNat - (t.get t0).toNat < stop.toNat - (s'.get t0).toNat) := by
  have hmask : Reaches (before ++ clearBss start stop) s' (maskStep s') := reaches_maskStep hpc
  have hbeqz : (maskStep s').step (before ++ clearBss start stop) =
      some (if (s'.get t0).toNat % 8 = 0 then (maskStep s').goto (before.length + 10)
        else (maskStep s').next) := by
    rw [step_clearBss (k := 5) (i := .beqz t2 .aligned_8_clear) rfl (congrArg (· + 2) hpc),
      Hart.exec, get_maskStep_t2, target_aligned hbefore]
    simp only [and_seven_eq_zero_iff]
  by_cases h8 : (s'.get t0).toNat % 8 = 0
  · rw [if_pos h8] at hbeqz
    exact ⟨_, hmask.trans (.head hbeqz .refl), Or.inl (Or.inr ⟨hs.maskStep.goto _, rfl, h8⟩)⟩
  · rw [if_neg h8] at hbeqz
    have hbyte : Reaches (before ++ clearBss start stop) (maskStep s').next
        (byteStep (maskStep s').next) := reaches_byteStep (congrArg (· + 3) hpc)
    have ht0 := toNat_byteStep (s := (maskStep s').next) hlt
    have ht0' : ((byteStep (maskStep s').next).get t0).toNat = (s'.get t0).toNat + 1 := ht0
    have hs' : Clearing s (byteStep (maskStep s').next) start stop :=
      Clearing.byteStep (hs.maskStep.goto _) hlt
    have hline : (clearBss start stop)[8]? = some (.bge t0 t1 .end_clear) := rfl
    have hbge := (step_clearBss hline (congrArg (· + 5) hpc)).trans
      (exec_bge_end (target (before ++ clearBss start stop)) hs' hstop)
    by_cases hend : ((byteStep (maskStep s').next).get t0).toNat = stop.toNat
    · rw [if_pos hend, target_end hbefore] at hbge
      refine ⟨_, hmask.trans (.head hbeqz (hbyte.trans (.head hbge .refl))),
        Or.inl (Or.inl ⟨rfl, ?_⟩)⟩
      rw [← hend]
      exact hs'.zeroed.congr rfl rfl
    · rw [if_neg hend] at hbge
      have hj : (byteStep (maskStep s').next).next.step (before ++ clearBss start stop) =
          some ((byteStep (maskStep s').next).next.goto (before.length + 3)) := by
        rw [step_clearBss (k := 9) (i := .j .clear) rfl (congrArg (· + 6) hpc), Hart.exec,
          target_clear hbefore]
      have hle := hs'.le_stop
      refine ⟨_, hmask.trans (.head hbeqz (hbyte.trans (.head hbge (.head hj .refl)))),
        Or.inr ⟨⟨(hs'.goto _).goto _, rfl, ?_⟩, ?_⟩⟩
      · rw [Hart.get_goto, Hart.get_next]
        omega
      · rw [Hart.get_goto, Hart.get_next]
        omega

/-- The hart after the two `la`. -/
def boundsStep (s : Hart) (start stop : Word) : Hart :=
  ((s.set t0 start).next.set t1 stop).next

theorem get_boundsStep_t0 : (boundsStep s start stop).get t0 = start := by
  rw [boundsStep, Hart.get_next, Hart.get_set_of_ne (by decide), Hart.get_next,
    Hart.get_set_self (by decide)]

theorem get_boundsStep_t1 : (boundsStep s start stop).get t1 = stop := by
  rw [boundsStep, Hart.get_next, Hart.get_set_self (by decide)]

/-- Before the loops nothing is cleared. -/
theorem Clearing.boundsStep (hle : start.toNat ≤ stop.toNat) :
    Clearing s (boundsStep s start stop).next start stop := by
  have ht0 : (UcasOs.boundsStep s start stop).next.get Reg.t0 = start := by
    rw [Hart.get_next, get_boundsStep_t0]
  have ht1 : (UcasOs.boundsStep s start stop).next.get Reg.t1 = stop := by
    rw [Hart.get_next, get_boundsStep_t1]
  refine ⟨ht1, ?_, ?_, ?_⟩
  · rw [ht0]
  · rw [ht0]
    exact hle
  · rw [ht0]
    exact Zeroed.empty rfl rfl le_rfl

/-- **Clearing the BSS.**  From the first `la` on, `end_clear` is reached with the range cleared and
nothing else written. -/
theorem clearBss_spec (hbefore : ∀ i ∈ before, ∀ l, i.isLabel l = false)
    (hstart : start.toNat < 2 ^ 63) (hstop : stop.toNat < 2 ^ 63) (halign : stop.toNat % 8 = 0)
    (hpc : s.pc = before.length) :
    ∃ t, Reaches (before ++ clearBss start stop) s t ∧
      t.pc = target (before ++ clearBss start stop) .end_clear ∧
        Zeroed s t start.toNat stop.toNat := by
  rw [target_end hbefore]
  have hla0 : s.step (before ++ clearBss start stop) = some (s.set t0 start).next :=
    step_clearBss (k := 0) rfl hpc
  have hla1 : (s.set t0 start).next.step (before ++ clearBss start stop) =
      some (boundsStep s start stop) :=
    step_clearBss (k := 1) rfl (congrArg (· + 1) hpc)
  have hbge : (boundsStep s start stop).step (before ++ clearBss start stop) =
      some (if stop.toNat ≤ start.toNat then (boundsStep s start stop).goto (before.length + 15)
        else (boundsStep s start stop).next) := by
    rw [step_clearBss (k := 2) (i := .bge t0 t1 .end_clear) rfl (congrArg (· + 2) hpc), Hart.exec,
      get_boundsStep_t0, get_boundsStep_t1, target_end hbefore]
    simp only [toInt_le_iff hstop hstart]
  by_cases hle : stop.toNat ≤ start.toNat
  · rw [if_pos hle] at hbge
    exact ⟨_, .head hla0 (.head hla1 (.head hbge .refl)), rfl, Zeroed.empty rfl rfl hle⟩
  · rw [if_neg hle] at hbge
    have hlt : ((boundsStep s start stop).next.get t0).toNat < stop.toNat := by
      rw [Hart.get_next, get_boundsStep_t0]
      omega
    have hs : Clearing s (boundsStep s start stop).next start stop :=
      Clearing.boundsStep (Nat.le_of_not_le hle)
    obtain ⟨t, hreach, hout⟩ := exists_reaches_of_loop (fun t : Hart => stop.toNat - (t.get t0).toNat)
      (fun t ht => clearLoop hbefore hstop ht.1 ht.2.1 ht.2.2)
      ⟨hs, congrArg (· + 3) hpc, hlt⟩
    have hfirst : Reaches (before ++ clearBss start stop) s t :=
      .head hla0 (.head hla1 (.head hbge hreach))
    rcases hout with hend | haligned
    · exact ⟨t, hfirst, hend⟩
    · obtain ⟨t', hreach', hout'⟩ := exists_reaches_of_loop
        (fun t : Hart => stop.toNat - (t.get t0).toNat)
        (fun t ht => alignedLoop hbefore hstop halign ht.1 ht.2.1 ht.2.2) haligned
      exact ⟨t', hfirst.trans hreach', hout'⟩

end Loops

theorem headPrologue_isLabel : ∀ i ∈ headPrologue, ∀ l, i.isLabel l = false := by
  simp [headPrologue, Asm.isLabel]

theorem crt0Prologue_isLabel : ∀ i ∈ crt0Prologue, ∀ l, i.isLabel l = false := by
  simp [crt0Prologue, Asm.isLabel]

/-- **Both `_start`s clear the BSS exactly**: for addresses below `2^63`, the end a multiple of
eight, from any state at the first `la` they get to `end_clear`, with every byte of the range zero,
every other byte as it was, and no byte stored outside the range on the way.  A step being a
function of the state, this is where the run goes. -/
theorem start_clears_bss (start stop : Word) (hstart : start.toNat < 2 ^ 63)
    (hstop : stop.toNat < 2 ^ 63) (halign : stop.toNat % 8 = 0) (s : Hart) :
    (s.pc = headPrologue.length → ∃ t, Reaches (headStart start stop) s t ∧
      t.pc = target (headStart start stop) .end_clear ∧ Zeroed s t start.toNat stop.toNat) ∧
    (s.pc = crt0Prologue.length → ∃ t, Reaches (crt0Start start stop) s t ∧
      t.pc = target (crt0Start start stop) .end_clear ∧ Zeroed s t start.toNat stop.toNat) :=
  ⟨clearBss_spec headPrologue_isLabel hstart hstop halign,
    clearBss_spec crt0Prologue_isLabel hstart hstop halign⟩

/-- A hart at the line `pc` with nothing in its registers and its memory. -/
def resetHart (pc : ℕ) : Hart := ⟨fun _ => 0, fun _ => 0, fun _ => 0, [], pc⟩

/-- Thirteen bytes, the first five of them before a multiple of eight. -/
theorem start_clears_bss_thirteen :
    ∃ t, Reaches (headStart 0x1003 0x1010) (resetHart 2) t ∧
      t.pc = target (headStart 0x1003 0x1010) .end_clear ∧ Zeroed (resetHart 2) t 0x1003 0x1010 :=
  (start_clears_bss 0x1003 0x1010 (by decide) (by decide) (by decide) (resetHart 2)).1 rfl

end UcasOs
