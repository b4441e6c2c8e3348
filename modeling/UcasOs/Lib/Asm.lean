import UcasOs.Lib.Riscv
import Mathlib.Data.List.GetD
import Mathlib.Logic.Relation

/-!
# RISC-V code with labels

`Lib/Riscv.lean` is about straight lines of code.  Here a program is the text of an assembly file,
labels included, its branches go to labels, and the memory is one of bytes.

* `Asm`, `Hart.exec`, `Hart.step` — one line of the text.  `bge` compares signed numbers; a double
  word may only be stored at a multiple of eight, otherwise there is no next state.
* `Hart.stores` — the addresses of all the bytes stored so far, so that "nothing else is written"
  can be said of a run and not only of the memory it leaves.
* `exists_reaches_of_loop` — the loop rule: a measure that goes down from one visit of the loop
  head to the next.
* `Zeroed` — the effect of clearing a range of the memory, and of extending the range by a byte or
  by a double word.
-/

set_option autoImplicit false

universe u

/-! ## Loops -/

/-- **The loop rule.**  If from every state at the head of a loop the run gets out of it or back to
the head with a smaller measure, then it gets out of it. -/
theorem exists_reaches_of_loop {σ : Type u} {r : σ → σ → Prop} {I Q : σ → Prop} (μ : σ → ℕ)
    (hloop : ∀ s, I s → ∃ s', Relation.ReflTransGen r s s' ∧ (Q s' ∨ I s' ∧ μ s' < μ s)) {s : σ}
    (hs : I s) : ∃ s', Relation.ReflTransGen r s s' ∧ Q s' := by
  induction hn : μ s using Nat.strong_induction_on generalizing s with
  | _ n ih =>
    subst hn
    obtain ⟨s', hr, hq | ⟨hi, hlt⟩⟩ := hloop s hs
    · exact ⟨s', hr, hq⟩
    · obtain ⟨t, ht, hq⟩ := ih _ hlt hi rfl
      exact ⟨t, hr.trans ht, hq⟩

namespace Riscv

/-- The CSRs that mask interrupts. -/
inductive IntCsr
  | sie
  | sip
  deriving DecidableEq

/-- A line of an assembly file whose labels are `L`. -/
inductive Asm (L : Type u)
  | label (l : L)
  | la (rd : Reg) (symbol : Word)
  | addi (rd rs : Reg) (imm : Word)
  | andi (rd rs : Reg) (imm : Word)
  | sb (rs : Reg) (offset : Word) (base : Reg)
  | sd (rs : Reg) (offset : Word) (base : Reg)
  | csrw (csr : IntCsr) (rs : Reg)
  | beqz (rs : Reg) (target : L)
  | bge (rs rs' : Reg) (target : L)
  | j (target : L)

/-- `mv rd, rs` -/
abbrev Asm.mv {L : Type u} (rd rs : Reg) : Asm L := .addi rd rs 0

/-- A hart that executes such a file. -/
structure Hart where
  /-- The integer registers; nothing reads the entry of `x0`. -/
  x : Reg → Word
  csr : IntCsr → Word
  /-- The bytes of the memory. -/
  mem : Word → UInt8
  /-- The addresses of the bytes that were stored, the last one first. -/
  stores : List Word
  /-- The line that comes next. -/
  pc : ℕ

/-- The `k`-th byte of a double word. -/
def byte (v : Word) (k : ℕ) : UInt8 := UInt8.ofNat (v.toNat / 256 ^ k)

namespace Hart

/-- The value of a register: `x0` is always `0`. -/
def get (s : Hart) (r : Reg) : Word := if r = 0 then 0 else s.x r

/-- `s` with `v` in register `r`. -/
def set (s : Hart) (r : Reg) (v : Word) : Hart := { s with x := Function.update s.x r v }

/-- `s` with `v` in the CSR `c`. -/
def setCsr (s : Hart) (c : IntCsr) (v : Word) : Hart :=
  { s with csr := Function.update s.csr c v }

/-- `s` with the low byte of `v` stored at `a`. -/
def storeByte (s : Hart) (a v : Word) : Hart :=
  { s with mem := Function.update s.mem a (byte v 0), stores := a :: s.stores }

/-- `s` with the double word `v` stored at `a`, the low byte first. -/
def storeDouble (s : Hart) (a v : Word) : Hart :=
  { s with
    mem := fun b => if (b - a).toNat < 8 then byte v (b - a).toNat else s.mem b
    stores := (List.range 8).map (fun k => a + BitVec.ofNat 64 k) ++ s.stores }

/-- `s` with the execution going on at line `n`. -/
def goto (s : Hart) (n : ℕ) : Hart := { s with pc := n }

/-- `s` with the execution going on at the next line. -/
def next (s : Hart) : Hart := s.goto (s.pc + 1)

variable {L : Type u}

/-- One line, when the labels are where `target` says. -/
def exec (target : L → ℕ) : Asm L → Hart → Option Hart
  | .label _, s => some s.next
  | .la rd symbol, s => some (s.set rd symbol).next
  | .addi rd rs imm, s => some (s.set rd (s.get rs + imm)).next
  | .andi rd rs imm, s => some (s.set rd (s.get rs &&& imm)).next
  | .sb rs offset base, s => some (s.storeByte (s.get base + offset) (s.get rs)).next
  | .sd rs offset base, s =>
    if (s.get base + offset).toNat % 8 = 0 then
      some (s.storeDouble (s.get base + offset) (s.get rs)).next
    else none
  | .csrw csr rs, s => some (s.setCsr csr (s.get rs)).next
  | .beqz rs l, s => some (if s.get rs = 0 then s.goto (target l) else s.next)
  | .bge rs rs' l, s =>
    some (if (s.get rs').toInt ≤ (s.get rs).toInt then s.goto (target l) else s.next)
  | .j l, s => some (s.goto (target l))

end Hart

section Run

variable {L : Type u} [DecidableEq L]

/-- Is this line the label `l`? -/
def Asm.isLabel (l : L) : Asm L → Bool
  | .label l' => l' = l
  | _ => false

/-- The line at which a label stands. -/
def target (code : List (Asm L)) (l : L) : ℕ := code.findIdx (·.isLabel l)

/-- The next line of the file. -/
def Hart.step (code : List (Asm L)) (s : Hart) : Option Hart :=
  code[s.pc]?.bind fun i => s.exec (target code) i

/-- Any number of lines. -/
def Reaches (code : List (Asm L)) : Hart → Hart → Prop :=
  Relation.ReflTransGen fun s s' => s.step code = some s'

variable {code before : List (Asm L)} {s s' s'' : Hart} {l : L} {k : ℕ}

theorem Reaches.refl : Reaches code s s := Relation.ReflTransGen.refl

theorem Reaches.head (h : s.step code = some s') (h' : Reaches code s' s'') : Reaches code s s'' :=
  Relation.ReflTransGen.head h h'

/-- A part of the text, executed behind `before`. -/
theorem step_append (hpc : s.pc = before.length + k) :
    s.step (before ++ code) = code[k]?.bind fun i => s.exec (target (before ++ code)) i := by
  have hk : (before ++ code)[before.length + k]? = code[k]? := by
    rw [List.getElem?_append_right (by omega), Nat.add_sub_cancel_left]
  rw [Hart.step, hpc, hk]

/-- A label of this part, when `before` has no line with it. -/
theorem target_append (h : ∀ i ∈ before, i.isLabel l = false) :
    target (before ++ code) l = before.length + target code l := by
  induction before with
  | nil => simp [target]
  | cons i before ih =>
    have hi : i.isLabel l = false := h i List.mem_cons_self
    have ih := ih fun i' hi' => h i' (List.mem_cons_of_mem _ hi')
    rw [target, List.cons_append, List.findIdx_cons, hi, cond_false, ← target, ih, List.length_cons]
    omega

end Run

/-! ## Registers and words -/

section Words

variable {s : Hart} {r r' : Reg} {v w a : Word} {n : ℕ}

namespace Hart

@[simp] theorem get_zero : s.get 0 = 0 := rfl

@[simp] theorem get_set_self (hr : r ≠ 0) : (s.set r v).get r = v := by
  rw [get, if_neg hr]
  exact Function.update_self ..

@[simp] theorem get_set_of_ne (h : r' ≠ r) : (s.set r v).get r' = s.get r' := by
  have hx : (s.set r v).x r' = s.x r' := Function.update_of_ne h ..
  rw [get, get, hx]

@[simp] theorem get_goto : (s.goto n).get r = s.get r := rfl
@[simp] theorem get_next : s.next.get r = s.get r := rfl
@[simp] theorem get_storeByte : (s.storeByte a v).get r = s.get r := rfl
@[simp] theorem get_storeDouble : (s.storeDouble a v).get r = s.get r := rfl

@[simp] theorem pc_goto : (s.goto n).pc = n := rfl
@[simp] theorem pc_next : s.next.pc = s.pc + 1 := rfl
@[simp] theorem pc_set : (s.set r v).pc = s.pc := rfl
@[simp] theorem pc_storeByte : (s.storeByte a v).pc = s.pc := rfl
@[simp] theorem pc_storeDouble : (s.storeDouble a v).pc = s.pc := rfl

end Hart

/-- The signed comparison of two words below `2^63` is that of the numbers they are. -/
theorem toInt_le_iff (hv : v.toNat < 2 ^ 63) (hw : w.toNat < 2 ^ 63) :
    v.toInt ≤ w.toInt ↔ v.toNat ≤ w.toNat := by
  rw [BitVec.toInt_eq_toNat_of_lt (by omega), BitVec.toInt_eq_toNat_of_lt (by omega)]
  exact Int.ofNat_le

/-- A mask of the three low bits tells the multiples of eight. -/
theorem and_seven_eq_zero_iff : v &&& 7 = 0 ↔ v.toNat % 8 = 0 := by
  have h7 : (v &&& 7).toNat = v.toNat % 8 := by
    rw [BitVec.toNat_and]
    exact Nat.and_two_pow_sub_one_eq_mod v.toNat 3
  rw [← h7]
  exact ⟨fun h => by rw [h]; rfl, fun h => BitVec.eq_of_toNat_eq h⟩

theorem byte_zero (k : ℕ) : byte 0 k = 0 := by
  have h0 : (0 : Word).toNat = 0 := rfl
  rw [byte, h0, Nat.zero_div]
  rfl

end Words

/-! ## Clearing a range of the memory -/

/-- `s'` is `s` with the bytes from `lo` to `hi` cleared, and no other byte was stored. -/
structure Zeroed (s s' : Hart) (lo hi : ℕ) : Prop where
  zero : ∀ a : Word, lo ≤ a.toNat → a.toNat < hi → s'.mem a = 0
  frame : ∀ a : Word, ¬(lo ≤ a.toNat ∧ a.toNat < hi) → s'.mem a = s.mem a
  stores : ∃ new, s'.stores = new ++ s.stores ∧ ∀ a ∈ new, lo ≤ a.toNat ∧ a.toNat < hi

namespace Zeroed

variable {s s' s'' : Hart} {lo hi : ℕ} {a : Word}

theorem empty (hm : s'.mem = s.mem) (hs : s'.stores = s.stores) (h : hi ≤ lo) : Zeroed s s' lo hi where
  zero a h1 h2 := absurd (h1.trans_lt h2) (Nat.not_lt.2 h)
  frame a _ := congrFun hm a
  stores := ⟨[], hs, by simp⟩

/-- Only the memory and the stores count. -/
theorem congr (h : Zeroed s s' lo hi) (hm : s''.mem = s'.mem) (hs : s''.stores = s'.stores) :
    Zeroed s s'' lo hi :=
  ⟨by rw [hm]; exact h.zero, by rw [hm]; exact h.frame, by rw [hs]; exact h.stores⟩

/-- Clearing the byte behind the range. -/
theorem storeByte (h : Zeroed s s' lo hi) (hlo : lo ≤ hi) (ha : a.toNat = hi) :
    Zeroed s (s'.storeByte a 0) lo (hi + 1) where
  zero b h1 h2 := by
    show Function.update s'.mem a (byte 0 0) b = 0
    rcases eq_or_ne b a with rfl | hb
    · rw [Function.update_self, byte_zero]
    · have hne : b.toNat ≠ hi := fun e => hb (BitVec.eq_of_toNat_eq (e.trans ha.symm))
      rw [Function.update_of_ne hb]
      exact h.zero b h1 (by omega)
  frame b hb := by
    have hne : b ≠ a := by
      rintro rfl
      omega
    show Function.update s'.mem a (byte 0 0) b = s.mem b
    rw [Function.update_of_ne hne]
    exact h.frame b (by omega)
  stores := by
    obtain ⟨new, hnew, hin⟩ := h.stores
    refine ⟨a :: new, congrArg (a :: ·) hnew, fun b hb => ?_⟩
    rcases List.mem_cons.1 hb with rfl | hb
    · omega
    · have := hin b hb
      omega

/-- Clearing the double word behind the range. -/
theorem storeDouble (h : Zeroed s s' lo hi) (hlo : lo ≤ hi) (ha : a.toNat = hi)
    (hfit : hi + 8 ≤ 2 ^ 64) : Zeroed s (s'.storeDouble a 0) lo (hi + 8) where
  zero b h1 h2 := by
    show (if (b - a).toNat < 8 then byte 0 (b - a).toNat else s'.mem b) = 0
    split
    · exact byte_zero _
    · next hb =>
      rw [BitVec.toNat_sub] at hb
      have := b.isLt
      exact h.zero b h1 (by omega)
  frame b hb := by
    have := b.isLt
    have hsub : ¬(b - a).toNat < 8 := by
      rw [BitVec.toNat_sub]
      omega
    show (if (b - a).toNat < 8 then byte 0 (b - a).toNat else s'.mem b) = s.mem b
    rw [if_neg hsub]
    exact h.frame b (by omega)
  stores := by
    obtain ⟨new, hnew, hin⟩ := h.stores
    refine ⟨(List.range 8).map (fun k => a + BitVec.ofNat 64 k) ++ new, ?_, fun b hb => ?_⟩
    · show (List.range 8).map (fun k => a + BitVec.ofNat 64 k) ++ s'.stores = _
      rw [hnew, List.append_assoc]
    · rcases List.mem_append.1 hb with hb | hb
      · obtain ⟨k, hk, rfl⟩ := List.mem_map.1 hb
        rw [List.mem_range] at hk
        rw [BitVec.toNat_add, BitVec.toNat_ofNat]
        omega
      · have := hin b hb
        omega

end Zeroed

end Riscv
