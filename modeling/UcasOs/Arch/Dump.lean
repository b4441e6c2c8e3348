import UcasOs.Arch.Handler
import UcasOs.Libs.Fields

/-!
# What is printed when a task is killed by an exception

`handle_other` of `kernel/irq/irq.c` prints the saved context, and then stops for good.

* `handleOther` — its calls of `printk`.
* `dumpFields` — the numbers that they print, with what stands between them.
* `prints_dump` — nothing of it is lost in the buffer of `printk`.
* `register_dump` — **from the report one can read the registers of the hart at the trap**, but for
  the three double words that `SAVE_CONTEXT` has not stored.
-/

set_option autoImplicit false

namespace UcasOs

open Riscv Reg

/-- A call of `printk`. -/
structure Printk where
  fmt : Printf.Text
  va : List Printf.VaArg

/-- What a sequence of calls prints. -/
def Prints (calls : List Printk) (text : List UInt8) : Prop :=
  ∃ texts, List.Forall₂ (fun c t => Printf.kernel.Sends c.fmt c.va t) calls texts ∧
    texts.flatten = text

theorem Prints.nil : Prints [] [] := ⟨[], .nil, rfl⟩

theorem Prints.append {calls calls' : List Printk} {text text' : List UInt8} (h : Prints calls text)
    (h' : Prints calls' text') : Prints (calls ++ calls') (text ++ text') := by
  obtain ⟨texts, hsends, rfl⟩ := h
  obtain ⟨texts', hsends', rfl⟩ := h'
  exact ⟨texts ++ texts', List.rel_append hsends hsends', List.flatten_append⟩

theorem Prints.flatMap {α : Type} {calls : α → List Printk} {text : α → List UInt8} {l : List α}
    (h : ∀ a ∈ l, Prints (calls a) (text a)) : Prints (l.flatMap calls) (l.flatMap text) := by
  induction l with
  | nil => exact .nil
  | cons a l ih =>
    rw [List.forall_mem_cons] at h
    exact h.1.append (ih h.2)

theorem prints_singleton {fmt : Printf.Text} {va : List Printf.VaArg} {text : List UInt8}
    (h : Printf.kernel.Sends fmt va text) : Prints [⟨fmt, va⟩] text :=
  ⟨[text], .cons h .nil, List.append_nil text⟩

/-! ## `handle_other` -/

/-- `reg_name` -/
def REG_NAME : List String :=
  ["zero ", " ra  ", " sp  ", " gp  ", " tp  ",
   " t0  ", " t1  ", " t2  ", "s0/fp", " s1  ",
   " a0  ", " a1  ", " a2  ", " a3  ", " a4  ",
   " a5  ", " a6  ", " a7  ", " s2  ", " s3  ",
   " s4  ", " s5  ", " s6  ", " s7  ", " s8  ",
   " s9  ", " s10 ", " s11 ", " t3  ", " t4  ",
   " t5  ", " t6  "]

/-- `reg_name[r]` -/
def regName (r : Reg) : List UInt8 := Printf.bytes (REG_NAME.get r).toList

theorem regName_spec : ∀ r : Reg, 0 ∉ regName r ∧ (regName r).length = 5 ∧
    ∃ ch rest, regName r = ch :: rest ∧ Printf.IsNumeral ch = false := by
  have h : ∀ r : Reg, 0 ∉ regName r ∧ (regName r).length = 5 ∧
      (regName r).head?.any (fun ch => !Printf.IsNumeral ch) = true := by decide
  intro r
  obtain ⟨h0, hlen, hany⟩ := h r
  obtain ⟨ch, hch, hnum⟩ := (Option.any_eq_true _ _).1 hany
  obtain ⟨rest, hrest⟩ := List.head?_eq_some_iff.1 hch
  exact ⟨h0, hlen, ch, rest, hrest, by simpa using hnum⟩

/-- `printk("%s : %016lx ", reg_name[r], regs->regs[r])` -/
def printRegister (regs : CRegsContext) (r : Reg) : Printk where
  fmt := ⟨Printf.bytes "%s : %016lx ".toList, by decide⟩
  va := [.string ⟨regName r, (regName_spec r).1⟩, .long (regs.regs r)]

/-- `printk("\n\r")` -/
def printNewline : Printk := ⟨⟨[10, 13], by decide⟩, []⟩

/-- The loops of `handle_other`. -/
def printRegisters (regs : CRegsContext) : List Printk :=
  (List.range' 0 11 3).flatMap fun i =>
    ((List.range 3).takeWhile fun j => i + j < 32).map
      (fun j => printRegister regs (Fin.ofNat 32 (i + j))) ++ [printNewline]

/-- `printk("sstatus: 0x%lx sbadaddr: 0x%lx scause: %lu\n\r", ...)` -/
def printStatus (regs : CRegsContext) : Printk where
  fmt := ⟨Printf.bytes "sstatus: 0x%lx sbadaddr: 0x%lx scause: %lu".toList ++ [10, 13], by decide⟩
  va := [.long regs.sstatus, .long regs.sbadaddr, .long regs.scause]

/-- `printk("sepc: 0x%lx\n\r", regs->sepc)` -/
def printSepc (regs : CRegsContext) : Printk where
  fmt := ⟨Printf.bytes "sepc: 0x%lx".toList ++ [10, 13], by decide⟩
  va := [.long regs.sepc]

/-- `printk("tval: 0x%lx cause: 0x%lx\n", stval, scause)` -/
def printCause (stval scause : Word) : Printk where
  fmt := ⟨Printf.bytes "tval: 0x%lx cause: 0x%lx".toList ++ [10], by decide⟩
  va := [.long stval, .long scause]

/-- `handle_other(regs, stval, scause)`, up to its `assert(0)`. -/
def handleOther (regs : CRegsContext) (stval scause : Word) : List Printk :=
  printRegisters regs ++ ([printStatus regs] ++ ([printSepc regs] ++ [printCause stval scause]))

/-! ## The report -/

open Printf (bytes Field)

/-- A register in the report: three of them are on a line. -/
def registerField (value : Word) (r : ℕ) : Field where
  label := regName (Fin.ofNat 32 r) ++ bytes " : ".toList
  conv := .x
  zeroPad := 16
  value := value
  tail := 32 :: if r % 3 = 2 ∨ r = 31 then [10, 13] else []

/-- The lines behind the registers. -/
def statusFields (regs : CRegsContext) : List Field :=
  [⟨bytes "sstatus: 0x".toList, .x, 0, regs.sstatus, [32]⟩,
    ⟨bytes "sbadaddr: 0x".toList, .x, 0, regs.sbadaddr, [32]⟩,
    ⟨bytes "scause: ".toList, .u, 0, regs.scause, [10, 13]⟩]

def sepcFields (regs : CRegsContext) : List Field :=
  [⟨bytes "sepc: 0x".toList, .x, 0, regs.sepc, [10, 13]⟩]

def causeFields (stval scause : Word) : List Field :=
  [⟨bytes "tval: 0x".toList, .x, 0, stval, [32]⟩, ⟨bytes "cause: 0x".toList, .x, 0, scause, [10]⟩]

/-- The report that `handle_other` prints. -/
def dumpFields (regs : CRegsContext) (stval scause : Word) : List Field :=
  (List.range 32).map (fun r => registerField (regs.regs (Fin.ofNat 32 r)) r) ++
    (statusFields regs ++ (sepcFields regs ++ causeFields stval scause))

theorem unsigned_x : Printf.Conversion.x.Unsigned := ⟨rfl, rfl⟩

theorem unsigned_u : Printf.Conversion.u.Unsigned := ⟨rfl, rfl⟩

theorem readable_dumpFields (regs : CRegsContext) (stval scause : Word) :
    ∀ f ∈ dumpFields regs stval scause, f.Readable := by
  intro f hf
  rcases List.mem_append.1 hf with hf | hf
  · obtain ⟨r, -, rfl⟩ := List.mem_map.1 hf
    exact ⟨unsigned_x, 32, _, rfl, rfl⟩
  · simp only [statusFields, sepcFields, causeFields, List.cons_append, List.nil_append,
      List.mem_cons, List.not_mem_nil, or_false] at hf
    rcases hf with rfl | rfl | rfl | rfl | rfl | rfl
    · exact ⟨unsigned_x, 32, _, rfl, rfl⟩
    · exact ⟨unsigned_x, 32, _, rfl, rfl⟩
    · exact ⟨unsigned_u, 10, _, rfl, rfl⟩
    · exact ⟨unsigned_x, 10, _, rfl, rfl⟩
    · exact ⟨unsigned_x, 32, _, rfl, rfl⟩
    · exact ⟨unsigned_x, 10, _, rfl, rfl⟩

/-! ## Printing it -/

open Printf (Item kernel)

/-- Items that can be formatted, and the text they make, without a `NUL`. -/
structure Renders (items : List Item) (text : List UInt8) : Prop where
  fits : ∀ item ∈ items, kernel.Fits item
  expansion : kernel.expansion items = text
  nul : 0 ∉ text

namespace Renders

theorem append {items items' : List Item} {text text' : List UInt8} (h : Renders items text)
    (h' : Renders items' text') : Renders (items ++ items') (text ++ text') where
  fits := List.forall_mem_append.2 ⟨h.fits, h'.fits⟩
  expansion := by
    rw [Printf.Copy.expansion, List.flatMap_append]
    exact congrArg₂ _ h.expansion h'.expansion
  nul h0 := (List.mem_append.1 h0).elim h.nul h'.nul

/-- Characters of the format, -/
theorem chars (text : List UInt8) (h : 0 ∉ text) : Renders (text.map .chr) text where
  fits := List.forall_mem_map.2 fun _ _ => trivial
  expansion := by
    rw [Printf.Copy.expansion, List.flatMap_map]
    exact List.flatMap_singleton' text
  nul := h

/-- a string, -/
theorem string {s : Printf.Text} (h : s.1.length < kernel.strlenLimit) : Renders [.str s] s.1 where
  fits := List.forall_mem_singleton.2 h
  expansion := List.append_nil s.1
  nul := s.2

/-- and a number that is not padded beyond the array of `mini_itoa`. -/
theorem number {conv : Printf.Conversion} (hconv : conv.Unsigned) (value : Word)
    (zeroPad : UInt8) (hpad : zeroPad.toNat < 23) :
    Renders [.num conv value zeroPad] (kernel.text conv value zeroPad.toNat) where
  fits := List.forall_mem_singleton.2 (by
    have hsign := Printf.length_sign_le conv value
    change _ + _ < 24
    omega)
  expansion := List.append_nil _
  nul h0 := absurd ((Printf.valueOf_text hconv value zeroPad.toNat).2 0 h0) (by decide)

/-- A call of `printk` with these items. -/
theorem prints {items : List Item} {text : List UInt8} (h : Renders items text)
    {fmt : Printf.Text} {va : List Printf.VaArg} (hparse : Printf.parse fmt va = ⟨items, none⟩)
    (hlen : text.length < 256) : Prints [⟨fmt, va⟩] text :=
  prints_singleton (Printf.sends_of_prints (hparse ▸ ⟨rfl, h.fits, h.expansion⟩) h.nul hlen)

end Renders

theorem length_text_unsigned (conv : Printf.Conversion) (value : Word) (zeroPad : ℕ)
    (hpad : zeroPad < 23) : (kernel.text conv value zeroPad).length < 24 := by
  have hsign := Printf.length_sign_le conv value
  exact (Printf.length_text_lt _ _ _ _).2 (by omega)

/-- The text about a register. -/
def registerText (value : Word) (r : Reg) : List UInt8 :=
  regName r ++ bytes " : ".toList ++ kernel.text .x value 16 ++ [32]

theorem prints_printRegister (regs : CRegsContext) (r : Reg) :
    Prints [printRegister regs r] (registerText (regs.regs r) r) := by
  obtain ⟨hnul, hlen, -⟩ := regName_spec r
  have hnumber := length_text_unsigned .x (regs.regs r) 16 (by decide)
  refine (((Renders.string (s := ⟨regName r, hnul⟩) ?_).append (.chars _ ?_)).append
    (.number unsigned_x (regs.regs r) 16 ?_)).append (.chars _ ?_) |>.prints rfl ?_
  · change (regName r).length < _
    rw [hlen]
    decide
  · decide
  · decide
  · decide
  · change (regName r ++ bytes " : ".toList ++ kernel.text .x (regs.regs r) 16 ++ [32]).length < 256
    rw [List.length_append, List.length_append, List.length_append, hlen]
    change 5 + 3 + _ + 1 < 256
    omega

/-- The loops print the registers, three on a line. -/
theorem rows_eq (f : ℕ → List UInt8) :
    ((List.range' 0 11 3).flatMap fun i =>
      ((List.range 3).takeWhile fun j => i + j < 32).flatMap (fun j => f (i + j)) ++ [10, 13]) =
      (List.range 32).flatMap fun r => f r ++ if r % 3 = 2 ∨ r = 31 then [10, 13] else [] := by
  simp [List.range', List.range, List.range.loop]

theorem prints_printRegisters (regs : CRegsContext) : Prints (printRegisters regs)
    (((List.range 32).map fun r => registerField (regs.regs (Fin.ofNat 32 r)) r).flatMap
      Field.text) := by
  have htext : ∀ r : ℕ, (registerField (regs.regs (Fin.ofNat 32 r)) r).text =
      registerText (regs.regs (Fin.ofNat 32 r)) (Fin.ofNat 32 r) ++
        if r % 3 = 2 ∨ r = 31 then [10, 13] else [] := fun r => (List.append_assoc _ [32] _).symm
  rw [List.flatMap_map, List.flatMap_congr fun r _ => htext r, ← rows_eq]
  refine Prints.flatMap fun i _ => Prints.append ?_ ?_
  · rw [← List.flatMap_singleton' (List.map _ _), List.flatMap_map]
    exact Prints.flatMap fun j _ => prints_printRegister regs _
  · exact (Renders.chars [10, 13] (by decide)).prints rfl (by decide)

/-- A number that is not padded, with its labels. -/
theorem Renders.field (label tail : List UInt8) {conv : Printf.Conversion} (hconv : conv.Unsigned)
    (value : Word) (hnul : 0 ∉ label ++ tail) :
    Renders (label.map .chr ++ [.num conv value 0] ++ tail.map .chr)
      (Field.text ⟨label, conv, 0, value, tail⟩) := by
  rw [List.mem_append, not_or] at hnul
  exact ((chars label hnul.1).append (number hconv value 0 (by decide))).append (chars tail hnul.2)

theorem length_field_lt (label tail : List UInt8) (conv : Printf.Conversion) (value : Word) :
    (Field.text ⟨label, conv, 0, value, tail⟩).length < label.length + 24 + tail.length := by
  have hnumber := length_text_unsigned conv value 0 (by decide)
  rw [Field.text, List.length_append, List.length_append]
  exact Nat.add_lt_add_right (Nat.add_lt_add_left hnumber _) _

theorem prints_printStatus (regs : CRegsContext) :
    Prints [printStatus regs] ((statusFields regs).flatMap Field.text) := by
  have hstatus := Renders.field (bytes "sstatus: 0x".toList) [32] unsigned_x regs.sstatus (by decide)
  have hbad := Renders.field (bytes "sbadaddr: 0x".toList) [32] unsigned_x regs.sbadaddr (by decide)
  have hcause := Renders.field (bytes "scause: ".toList) [10, 13] unsigned_u regs.scause (by decide)
  refine (hstatus.append (hbad.append (hcause.append (.chars [] List.not_mem_nil)))).prints rfl ?_
  have h1 := length_field_lt (bytes "sstatus: 0x".toList) [32] .x regs.sstatus
  have h2 := length_field_lt (bytes "sbadaddr: 0x".toList) [32] .x regs.sbadaddr
  have h3 := length_field_lt (bytes "scause: ".toList) [10, 13] .u regs.scause
  rw [List.length_append, List.length_append, List.length_append]
  exact (Nat.add_lt_add h1 (Nat.add_lt_add h2 (Nat.add_lt_add_right h3 0))).trans (by decide)

theorem prints_printSepc (regs : CRegsContext) :
    Prints [printSepc regs] ((sepcFields regs).flatMap Field.text) := by
  have h := Renders.field (bytes "sepc: 0x".toList) [10, 13] unsigned_x regs.sepc (by decide)
  refine (h.append (.chars [] List.not_mem_nil)).prints rfl ?_
  have h1 := length_field_lt (bytes "sepc: 0x".toList) [10, 13] .x regs.sepc
  rw [List.length_append]
  exact (Nat.add_lt_add_right h1 0).trans (by decide)

theorem prints_printCause (stval scause : Word) :
    Prints [printCause stval scause] ((causeFields stval scause).flatMap Field.text) := by
  have htval := Renders.field (bytes "tval: 0x".toList) [32] unsigned_x stval (by decide)
  have hcause := Renders.field (bytes "cause: 0x".toList) [10] unsigned_x scause (by decide)
  refine (htval.append (hcause.append (.chars [] List.not_mem_nil))).prints rfl ?_
  have h1 := length_field_lt (bytes "tval: 0x".toList) [32] .x stval
  have h2 := length_field_lt (bytes "cause: 0x".toList) [10] .x scause
  rw [List.length_append, List.length_append]
  exact (Nat.add_lt_add h1 (Nat.add_lt_add_right h2 0)).trans (by decide)

/-- **Nothing of the report is lost in the buffer of `printk`.** -/
theorem prints_dump (regs : CRegsContext) (stval scause : Word) :
    Prints (handleOther regs stval scause) ((dumpFields regs stval scause).flatMap Field.text) := by
  rw [dumpFields, List.flatMap_append, List.flatMap_append, List.flatMap_append]
  exact (prints_printRegisters regs).append ((prints_printStatus regs).append
    ((prints_printSepc regs).append (prints_printCause stval scause)))

/-! ## Reading it -/

/-- How long the labels of the report are, and how its numbers are printed. -/
def dumpLayout : List (ℕ × Printf.Conversion × ℕ) :=
  (dumpFields ⟨fun _ => 0, 0, 0, 0, 0⟩ 0 0).map Field.layout

theorem layout_dumpFields (regs : CRegsContext) (stval scause : Word) :
    (dumpFields regs stval scause).map Field.layout = dumpLayout := by
  rw [dumpLayout, dumpFields, dumpFields, List.map_append, List.map_append, List.map_map]
  rfl

theorem values_dumpFields (regs : CRegsContext) (stval scause : Word) :
    (dumpFields regs stval scause).map (·.value.toNat) = ((List.finRange 32).map regs.regs ++
      [regs.sstatus, regs.sbadaddr, regs.scause, regs.sepc, stval, scause]).map BitVec.toNat := by
  have hregs : ((List.range 32).map fun r => registerField (regs.regs (Fin.ofNat 32 r)) r).map
      (·.value.toNat) = ((List.finRange 32).map regs.regs).map BitVec.toNat := by
    rw [List.map_map, ← List.map_coe_finRange_eq_range, List.map_map, List.map_map]
    refine List.map_congr_left fun r _ => ?_
    have hr : Fin.ofNat 32 (r : ℕ) = r := Fin.ext (Nat.mod_eq_of_lt r.isLt)
    change (regs.regs (Fin.ofNat 32 (r : ℕ))).toNat = (regs.regs r).toNat
    rw [hr]
  rw [dumpFields, List.map_append, hregs, List.map_append (f := BitVec.toNat)]
  rfl

/-- **The report of an exception can be read.**  Whatever the trap and wherever it comes from, if
`handle_other` is called for it then what it prints has a number for each register, for `sstatus`,
`sbadaddr`, `scause`, `sepc`, the trap value and the cause.  They are those of the hart at the trap,
but for `x0`, `sbadaddr` and `scause`: there, it is what the kernel stack had in these places. -/
theorem register_dump (sym : Symbols) (m : Machine) (cause tval : Word) :
    let frame := m.mem (m.get tp + PCB_KERNEL_SP)
    let m' := run (exceptionHandlerEntry sym) (m.takeTrap cause tval)
    ∃ dump, Prints (handleOther (.read (m'.get a0) m'.mem) (m'.get a1) (m'.get a2)) dump ∧
      Printf.readFields dumpLayout dump =
        ((List.finRange 32).map (fun r => if r = 0 then m.mem (frame + fieldOffset 0) else m.get r) ++
          [trapStatus m.mode (m.csr .sstatus), m.mem (frame + fieldOffset 34),
            m.mem (frame + fieldOffset 35), m.pc, tval, cause]).map BitVec.toNat := by
  have ha0 := (call_exceptionHandlerEntry sym (m := m.takeTrap cause tval)).2.2.1
  have hargs := (call_exceptionHandlerEntry sym (m := m.takeTrap cause tval)).2.2.2
  have hsaved := read_exceptionHandlerEntry sym (m := m.takeTrap cause tval)
  have hkeep := fun n hn => mem_exceptionHandlerEntry_of_notMem sym (m := m.takeTrap cause tval)
    (fieldOffset_notMem n hn)
  intro frame m'
  have hm' : m' = run (exceptionHandlerEntry sym) (m.takeTrap cause tval) := rfl
  rw [← hm'] at ha0 hargs hsaved hkeep
  clear_value m'
  refine ⟨_, prints_dump _ _ _, ?_⟩
  rw [← layout_dumpFields, Printf.readFields_fields _ (readable_dumpFields _ _ _),
    values_dumpFields, hargs.1, hargs.2, ha0]
  have hregs : ∀ r : Reg, m'.mem (frame + fieldOffset r) =
      if r = 0 then m.mem (frame + fieldOffset 0) else m.get r := fun r => by
    split
    · rename_i h0
      rw [h0]
      exact hkeep 0 (by decide)
    · rename_i h0
      exact (RegsContext.regs_read h0 _ _).symm.trans (congrFun (congrArg RegsContext.regs hsaved) r)
  have hstatus := congrArg RegsContext.sstatus hsaved
  have hsepc := congrArg RegsContext.sepc hsaved
  have hbad := hkeep 34 (by decide)
  have hcause := hkeep 35 (by decide)
  refine congrArg _ (congrArg₂ _ (List.map_congr_left fun r _ => hregs r) ?_)
  exact congrArg₂ _ hstatus (congrArg₂ _ hbad (congrArg₂ _ hcause (congrArg₂ _ hsepc rfl)))

end UcasOs
