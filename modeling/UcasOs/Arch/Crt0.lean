import UcasOs.Arch.Start
import UcasOs.Lib.Bytes

/-!
# Around `main`

`crt0.S` as a whole: it keeps `ra` and `sp` on the stack, clears the BSS, calls `main` and returns
to where it was called from.  `main` is any code that keeps the stack pointer and what is above it.

## What is here

* `Asm.writes`, `get_eq_of_reaches` — a register that no line of a text writes to stays as it is.
* `loadDouble`, `loadDouble_storeDouble` — a double word is read back.
* `crt0Exit` — the lines behind `call main`.
* `crt0_returns` — **`main` finds the BSS cleared and the arguments in their registers, and behind
  it `ra` and `sp` are those of the caller again**.
-/

set_option autoImplicit false

universe u

namespace Riscv

/-! ## What a text leaves alone -/

/-- The register that a line writes to. -/
def Asm.writes {L : Type u} : Asm L → Option Reg
  | .la rd _ => some rd
  | .addi rd _ _ => some rd
  | .andi rd _ _ => some rd
  | _ => none

section

variable {L : Type u} {code : List (Asm L)} {s s' : Hart} {r : Reg}

/-- The execution goes on at the next line or at a label. -/
theorem pc_exec {target : L → ℕ} {i : Asm L} (h : s.exec target i = some s') :
    s'.pc = s.pc + 1 ∨ ∃ l, s'.pc = target l := by
  cases i with
  | sd rs offset base =>
    rw [Hart.exec] at h
    split at h
    · obtain rfl := Option.some.inj h
      exact Or.inl rfl
    · cases h
  | beqz rs l =>
    obtain rfl := Option.some.inj h
    split
    · exact Or.inr ⟨l, rfl⟩
    · exact Or.inl rfl
  | bge rs rs' l =>
    obtain rfl := Option.some.inj h
    split
    · exact Or.inr ⟨l, rfl⟩
    · exact Or.inl rfl
  | j l =>
    obtain rfl := Option.some.inj h
    exact Or.inr ⟨l, rfl⟩
  | label l | la rd symbol | addi rd rs imm | andi rd rs imm | sb rs offset base | csrw csr rs =>
    obtain rfl := Option.some.inj h
    exact Or.inl rfl

theorem get_exec {target : L → ℕ} {i : Asm L} (h : s.exec target i = some s')
    (hi : i.writes ≠ some r) : s'.get r = s.get r := by
  have hset : ∀ {rd : Reg} {v : Word}, some rd ≠ some r → (s.set rd v).next.get r = s.get r :=
    fun hne => Hart.get_set_of_ne fun e => hne (congrArg some e.symm)
  cases i with
  | la rd symbol =>
    obtain rfl := Option.some.inj h
    exact hset hi
  | addi rd rs imm =>
    obtain rfl := Option.some.inj h
    exact hset hi
  | andi rd rs imm =>
    obtain rfl := Option.some.inj h
    exact hset hi
  | sd rs offset base =>
    rw [Hart.exec] at h
    split at h
    · obtain rfl := Option.some.inj h
      rfl
    · cases h
  | beqz rs l =>
    obtain rfl := Option.some.inj h
    split <;> rfl
  | bge rs rs' l =>
    obtain rfl := Option.some.inj h
    split <;> rfl
  | label l | sb rs offset base | csrw csr rs | j l =>
    obtain rfl := Option.some.inj h
    rfl

variable [DecidableEq L]

/-- **A register that no line writes to stays as it is**, from the line `n` on, when all labels are
behind it. -/
theorem get_eq_of_reaches {n : ℕ} (h : Reaches code s s') (hpc : n ≤ s.pc)
    (htarget : ∀ l, n ≤ target code l) (hr : ∀ i ∈ code.drop n, i.writes ≠ some r) :
    s'.get r = s.get r := by
  suffices H : n ≤ s'.pc ∧ s'.get r = s.get r from H.2
  induction h with
  | refl => exact ⟨hpc, rfl⟩
  | @tail t t' _ hstep ih =>
    obtain ⟨hn, hget⟩ := ih
    obtain ⟨i, hi, hexec⟩ := Option.bind_eq_some_iff.1 hstep
    refine ⟨?_, (get_exec hexec (hr i ?_)).trans hget⟩
    · rcases pc_exec hexec with hnext | ⟨l, hl⟩
      · omega
      · rw [hl]
        exact htarget l
    · refine List.mem_of_getElem? (i := t.pc - n) ?_
      rwa [List.getElem?_drop, Nat.add_sub_cancel' hn]

end

end Riscv

namespace UcasOs

open Riscv Reg

/-! ## The stack -/

/-- `ld`: the double word at `a`, the low byte first. -/
def loadDouble (m : Word → UInt8) (a : Word) : Word :=
  BitVec.ofNat 64 (ofLeBytes ((List.range 8).map fun k => m (a + BitVec.ofNat 64 k)))

theorem toNat_add_sub {a : Word} {k : ℕ} (hk : k < 2 ^ 64) :
    (a + BitVec.ofNat 64 k - a).toNat = k := by
  rw [BitVec.add_comm, BitVec.add_sub_cancel, BitVec.toNat_ofNat, Nat.mod_eq_of_lt hk]

/-- A double word depends on its eight bytes. -/
theorem loadDouble_congr {m m' : Word → UInt8} {a : Word}
    (h : ∀ b, (b - a).toNat < 8 → m' b = m b) : loadDouble m' a = loadDouble m a := by
  have hmap : (List.range 8).map (fun k => m' (a + BitVec.ofNat 64 k)) =
      (List.range 8).map fun k => m (a + BitVec.ofNat 64 k) :=
    List.map_congr_left fun k hk => by
      have hk := List.mem_range.1 hk
      refine h _ ?_
      rwa [toNat_add_sub (by omega)]
  rw [loadDouble, hmap, loadDouble]

theorem map_byte (n v : ℕ) :
    (List.range n).map (fun k => UInt8.ofNat (v / 256 ^ k)) = leBytes n v := by
  induction n generalizing v with
  | zero => rfl
  | succ n ih =>
    rw [List.range_succ_eq_map, List.map_cons, List.map_map, leBytes, ← ih, Nat.pow_zero,
      Nat.div_one]
    refine congrArg _ (List.map_congr_left fun k _ => ?_)
    rw [Function.comp_apply, Nat.pow_succ', Nat.div_div_eq_div_mul]

/-- What is stored is read back. -/
theorem loadDouble_storeDouble (s : Hart) (a v : Word) :
    loadDouble (s.storeDouble a v).mem a = v := by
  have hbytes : (List.range 8).map (fun k => (s.storeDouble a v).mem (a + BitVec.ofNat 64 k)) =
      leBytes 8 v.toNat := by
    rw [← map_byte]
    refine List.map_congr_left fun k hk => ?_
    have hk := List.mem_range.1 hk
    have hsub := toNat_add_sub (a := a) (show k < 2 ^ 64 by omega)
    change (if (a + BitVec.ofNat 64 k - a).toNat < 8 then _ else _) = _
    rw [hsub, if_pos hk]
    rfl
  rw [loadDouble, hbytes, ofLeBytes_leBytes]
  refine BitVec.eq_of_toNat_eq ?_
  have hv := v.isLt
  rw [BitVec.toNat_ofNat]
  omega

/-- The lines behind `call main`, as far as `ret`. -/
def crt0Exit (s : Hart) : Hart :=
  let s := s.set ra (loadDouble s.mem (s.get sp + 0))
  s.set sp (loadDouble s.mem (s.get sp + 8))

section

variable {start stop : Word} {h t u : Hart}

theorem step_eq {L : Type} [DecidableEq L] {code : List (Asm L)} {s : Hart} {k : ℕ} {i : Asm L}
    (hpc : s.pc = k) (hi : code[k]? = some i) : s.step code = s.exec (target code) i := by
  rw [Hart.step, hpc, hi, Option.bind_some]

/-- The hart after `t0` has been set to the new stack pointer. -/
def frameStep (h : Hart) : Hart :=
  ((h.set t0 (h.get sp + 0)).next.set t0 (h.get sp - 16)).next

theorem get_frameStep_t0 : (frameStep h).get t0 = h.get sp - 16 := by
  rw [frameStep, Hart.get_next, Hart.get_set_self (by decide)]

theorem get_frameStep {r : Reg} (hr : r ≠ t0) : (frameStep h).get r = h.get r := by
  rw [frameStep, Hart.get_next, Hart.get_set_of_ne hr, Hart.get_next, Hart.get_set_of_ne hr]

/-- The hart after `ra` and `sp` have been stored. -/
def pushStep (s : Hart) : Hart :=
  ((s.storeDouble (s.get t0) (s.get ra)).next.storeDouble (s.get t0 + 8) (s.get sp)).next

/-- The hart at the first `la` of `crt0.S`. -/
def crt0Enter (h : Hart) : Hart :=
  ((pushStep (frameStep h)).set sp (h.get sp - 16)).next

theorem reaches_crt0Enter (hpc : h.pc = 0) (hsp : (h.get sp).toNat % 8 = 0) :
    Reaches (crt0Start start stop) h (crt0Enter h) := by
  have h16 : (16 : Word).toNat = 16 := rfl
  have h8 : (8 : Word).toNat = 8 := rfl
  have ht0 := get_frameStep_t0 (h := h)
  have h₁ : h.step (crt0Start start stop) = some (h.set t0 (h.get sp + 0)).next :=
    step_eq (i := .mv t0 sp) hpc rfl
  have h₂ : (h.set t0 (h.get sp + 0)).next.step (crt0Start start stop) = some (frameStep h) := by
    rw [step_eq (k := 1) (i := .addi t0 t0 (-16)) (congrArg (· + 1) hpc) rfl, Hart.exec,
      Hart.get_next, Hart.get_set_self (by decide), add_zero, ← sub_eq_add_neg, frameStep, add_zero]
  have h₃ : (frameStep h).step (crt0Start start stop) =
      some ((frameStep h).storeDouble ((frameStep h).get t0) ((frameStep h).get ra)).next := by
    rw [step_eq (k := 2) (i := .sd ra 0 t0) (congrArg (· + 2) hpc) rfl, Hart.exec, add_zero,
      if_pos (by rw [ht0, BitVec.toNat_sub]; omega)]
  have h₄ : ((frameStep h).storeDouble ((frameStep h).get t0) ((frameStep h).get ra)).next.step
      (crt0Start start stop) = some (pushStep (frameStep h)) := by
    rw [step_eq (k := 3) (i := .sd sp 8 t0) (congrArg (· + 3) hpc) rfl, Hart.exec, Hart.get_next,
      Hart.get_storeDouble, if_pos (by rw [ht0, BitVec.toNat_add, BitVec.toNat_sub]; omega)]
    rfl
  have h₅ : (pushStep (frameStep h)).step (crt0Start start stop) = some (crt0Enter h) := by
    rw [step_eq (k := 4) (i := .mv sp t0) (congrArg (· + 4) hpc) rfl, Hart.exec, add_zero]
    change some ((pushStep (frameStep h)).set sp ((frameStep h).get t0)).next = _
    rw [ht0]
    rfl
  exact .head h₁ (.head h₂ (.head h₃ (.head h₄ (.head h₅ .refl))))

theorem get_crt0Enter_sp : (crt0Enter h).get sp = h.get sp - 16 := by
  rw [crt0Enter, Hart.get_next, Hart.get_set_self (by decide)]

theorem get_crt0Enter {r : Reg} (hr : r ≠ sp) (hr' : r ≠ t0) :
    (crt0Enter h).get r = h.get r := by
  rw [crt0Enter, Hart.get_next, Hart.get_set_of_ne hr]
  exact get_frameStep hr'

theorem mem_crt0Enter : (crt0Enter h).mem = (((frameStep h).storeDouble (h.get sp - 16)
    (h.get ra)).next.storeDouble (h.get sp - 16 + 8) (h.get sp)).mem := by
  have ht0 := get_frameStep_t0 (h := h)
  have hra : (frameStep h).get ra = h.get ra := get_frameStep (by decide)
  have hsp : (frameStep h).get sp = h.get sp := get_frameStep (by decide)
  rw [crt0Enter, ← ht0, ← hra, ← hsp]
  rfl

theorem toNat_sub_add_eight (a b : Word) :
    (b - (a + 8)).toNat = (2 ^ 64 - 8 + (b - a).toNat) % 2 ^ 64 := by
  rw [← sub_sub, BitVec.toNat_sub]
  rfl

/-- The upper half of sixteen bytes. -/
theorem not_lt_eight {a b : Word} (h : (b - a).toNat < 8 ∨ ¬ (b - a).toNat < 16) :
    ¬ (b - (a + 8)).toNat < 8 := by
  have hlt := (b - a).isLt
  rw [toNat_sub_add_eight]
  omega

theorem lt_sixteen {a b : Word} (h : (b - (a + 8)).toNat < 8) : (b - a).toNat < 16 := by
  have hlt := (b - a).isLt
  rw [toNat_sub_add_eight] at h
  omega

/-- What is on the stack then: `ra` and `sp`, and nothing else was stored. -/
theorem loadDouble_crt0Enter :
    loadDouble (crt0Enter h).mem (h.get sp - 16) = h.get ra ∧
      loadDouble (crt0Enter h).mem (h.get sp - 16 + 8) = h.get sp ∧
      ∀ a : Word, ¬ (a - (h.get sp - 16)).toNat < 16 → (crt0Enter h).mem a = h.mem a := by
  rw [mem_crt0Enter]
  refine ⟨?_, loadDouble_storeDouble _ _ _, fun a ha => ?_⟩
  · refine Eq.trans (loadDouble_congr fun a ha => ?_) (loadDouble_storeDouble (frameStep h) _ _)
    exact if_neg (not_lt_eight (Or.inl ha))
  · have hout : ¬ (a - (h.get sp - 16)).toNat < 8 := by omega
    exact (if_neg (not_lt_eight (Or.inr ha))).trans (if_neg hout)

/-- Clearing the BSS takes three registers. -/
theorem get_of_clearBss {s : Hart} {r : Reg} (hreach : Reaches (crt0Start start stop) s t)
    (hpc : s.pc = 5) (h0 : r ≠ t0) (h1 : r ≠ t1) (h2 : r ≠ t2) : t.get r = s.get r := by
  refine get_eq_of_reaches (n := 5) hreach hpc.ge (fun l => ?_) ?_
  · change 5 ≤ target (crt0Prologue ++ clearBss start stop) l
    cases l
    · rw [target_clear crt0Prologue_isLabel]
      exact Nat.le_add_right 5 _
    · rw [target_aligned crt0Prologue_isLabel]
      exact Nat.le_add_right 5 _
    · rw [target_end crt0Prologue_isLabel]
      exact Nat.le_add_right 5 _
  · change ∀ i ∈ clearBss start stop, _
    simp [clearBss, Asm.writes, h0.symm, h1.symm, h2.symm]

/-- **Around `main`.**  When a program is entered with a stack that is aligned and apart from its
BSS, `main` is called with the BSS cleared, the rest of the memory as it was but for 16 bytes of the
stack, and the registers as they were, but for `sp` and three temporaries.  And if `main` keeps its
stack pointer and what is above it, the program returns with `ra` and `sp` as it was entered. -/
theorem crt0_returns (hstart : start.toNat < 2 ^ 63) (hstop : stop.toNat < 2 ^ 63)
    (halign : stop.toNat % 8 = 0) (hpc : h.pc = 0) (hsp : (h.get sp).toNat % 8 = 0)
    (hroom : 16 ≤ (h.get sp).toNat)
    (hapart : stop.toNat ≤ (h.get sp).toNat - 16 ∨ (h.get sp).toNat ≤ start.toNat) :
    ∃ t, Reaches (crt0Start start stop) h t ∧
      t.pc = target (crt0Start start stop) .end_clear ∧ t.get sp = h.get sp - 16 ∧
      (∀ r, r ∉ [sp, t0, t1, t2] → t.get r = h.get r) ∧
      (∀ a : Word, ¬ (a - t.get sp).toNat < 16 → t.mem a =
        if start.toNat ≤ a.toNat ∧ a.toNat < stop.toNat then 0 else h.mem a) ∧
      ∀ u : Hart, u.get sp = t.get sp →
        (∀ a : Word, (a - t.get sp).toNat < 16 → u.mem a = t.mem a) →
        (crt0Exit u).get ra = h.get ra ∧ (crt0Exit u).get sp = h.get sp := by
  obtain ⟨hra, hcaller, hmem⟩ := loadDouble_crt0Enter (h := h)
  have hreach : Reaches (crt0Start start stop) h (crt0Enter h) := reaches_crt0Enter hpc hsp
  have hpc₅ : (crt0Enter h).pc = 5 := congrArg (· + 5) hpc
  obtain ⟨t, hreach', ht, hzero⟩ := clearBss_spec crt0Prologue_isLabel hstart hstop halign hpc₅
  have hkept := fun r => get_of_clearBss (r := r) hreach' hpc₅
  have htsp : t.get sp = h.get sp - 16 :=
    (hkept sp (by decide) (by decide) (by decide)).trans get_crt0Enter_sp
  -- the 16 bytes of the stack are not in the BSS
  have hframe : ∀ a : Word, (a - (h.get sp - 16)).toNat < 16 →
      t.mem a = (crt0Enter h).mem a := fun a ha => by
    refine hzero.frame a fun hin => ?_
    have hsub : (h.get sp - 16).toNat = (h.get sp).toNat - 16 :=
      BitVec.toNat_sub_of_le (BitVec.le_def.2 hroom)
    have hlt := a.isLt
    have hlt' := (h.get sp).isLt
    rw [BitVec.toNat_sub, hsub] at ha
    omega
  refine ⟨t, hreach.trans hreach', ht, htsp, fun r hr => ?_, fun a ha => ?_, fun u husp hu => ?_⟩
  · simp only [List.mem_cons, List.not_mem_nil, or_false, not_or] at hr
    rw [hkept r hr.2.1 hr.2.2.1 hr.2.2.2, get_crt0Enter hr.1 hr.2.1]
  · split
    · rename_i hin
      exact hzero.zero a hin.1 hin.2
    · rename_i hout
      rw [htsp] at ha
      rw [hzero.frame a hout, hmem a ha]
  · rw [htsp] at hu husp
    have hkeep : ∀ a : Word, (a - (h.get sp - 16)).toNat < 16 →
        u.mem a = (crt0Enter h).mem a := fun a ha => (hu a ha).trans (hframe a ha)
    have hra' : loadDouble u.mem (h.get sp - 16) = h.get ra :=
      (loadDouble_congr fun a ha => hkeep a (ha.trans (by decide))).trans hra
    have hsp' : loadDouble u.mem (h.get sp - 16 + 8) = h.get sp :=
      (loadDouble_congr fun a ha => hkeep a (lt_sixteen ha)).trans hcaller
    rw [← husp] at hra' hsp'
    constructor
    · rw [crt0Exit, Hart.get_set_of_ne (by decide), Hart.get_set_self (by decide), add_zero, hra']
    · rw [crt0Exit, Hart.get_set_self (by decide), Hart.get_set_of_ne (by decide)]
      exact hsp'

/-- Thirteen bytes of BSS, and a stack behind them. -/
theorem crt0_returns_thirteen : ∃ t, Reaches (crt0Start 0x1003 0x1010)
      ((resetHart 0).set sp 0x1100) t ∧ t.get sp = 0x10f0 ∧
    (crt0Exit t).get ra = 0 ∧ (crt0Exit t).get sp = 0x1100 := by
  have hsp : ((resetHart 0).set sp 0x1100).get sp = 0x1100 := Hart.get_set_self (by decide)
  have hra : ((resetHart 0).set sp 0x1100).get ra = 0 := Hart.get_set_of_ne (by decide)
  obtain ⟨t, hreach, -, htsp, -, -, hreturn⟩ := @crt0_returns 0x1003 0x1010
    ((resetHart 0).set sp 0x1100) (by decide) (by decide) (by decide) rfl (by rw [hsp]; decide)
    (by rw [hsp]; decide) (Or.inl (by rw [hsp]; decide))
  obtain ⟨hra', hsp'⟩ := hreturn t rfl fun _ _ => rfl
  refine ⟨t, hreach, ?_, hra'.trans hra, hsp'.trans hsp⟩
  rw [htsp, hsp]
  rfl

end

end UcasOs
