import UcasOs.Arch.Start
import UcasOs.Image.Placement

/-!
# From the boot ROM to `main`

How the kernel gets into memory: `arch/riscv/boot/bootblock.S` has the BIOS read it from the card,
whole sectors at a time, `_start` of the kernel clears the BSS, and `init_task_info` reads the table
of the tasks.

The BIOS is code of the boot ROM.  It is a parameter here, and `Bios` is what is known about it.

* `BootInstr`, `bootblock` — the boot block, instruction by instruction.
* `callBios`, `biosSdRead` — the way C code calls the BIOS, `sd_read` of
  `arch/riscv/bios/common.c` for one.
* `ImageFiles.boot_chain` — **from the image to `main`**: the kernel is where it was linked to be,
  the bytes of the next task that were read along with it are cleared with the BSS, and the loader
  finds the number of tasks and their table.
-/

set_option autoImplicit false

namespace UcasOs

open Riscv Reg

/-! ## The BIOS -/

def BIOS_PUTSTR : Word := 9
def BIOS_SDREAD : Word := 11

/-- `bios_func_entry`: what the code there does, from given registers and a given memory, until it
returns. -/
abbrev BiosFunc := (Reg → Word) → Mem → (Reg → Word) × Mem

/-- What is known about the BIOS, when the card holds `card`: a string that is put out leaves the
memory alone, and reading copies whole sectors. -/
structure Bios (card : ℕ → UInt8) (bios : BiosFunc) : Prop where
  putstr : ∀ x m, x a7 = BIOS_PUTSTR → (bios x m).2 = m
  sdread : ∀ x m, x a7 = BIOS_SDREAD → ∀ a, (bios x m).2 a =
    if (x a0).toNat ≤ a ∧ a < (x a0).toNat + SECTOR_SIZE * (x a1).toNat then
      card (SECTOR_SIZE * (x a2).toNat + (a - (x a0).toNat))
    else m a

/-- `call_bios(which, arg0, ...)`, with `x` in the other registers. -/
def callBios (bios : BiosFunc) (x : Reg → Word) (which : Word) (args : List Word) (m : Mem) :
    Word × Mem :=
  let r := bios (updates x (([a0, a1, a2, a3, a4].zip args) ++ [(a5, 0), (a6, 0), (a7, which)])) m
  (r.1 a0, r.2)

/-- `sd_read`, as far as it changes the memory. -/
def biosSdRead (bios : BiosFunc) (x : Reg → Word) (memAddress numOfBlocks blockId : UInt32)
    (m : Mem) : Mem :=
  (callBios bios x BIOS_SDREAD [memAddress.toBitVec.setWidth 64, numOfBlocks.toBitVec.setWidth 64,
    blockId.toBitVec.setWidth 64, 0, 0] m).2

theorem toNat_setWidth (n : UInt32) : (n.toBitVec.setWidth 64).toNat = n.toNat := by
  rw [BitVec.toNat_setWidth, Nat.mod_eq_of_lt]
  · rfl
  · exact n.toBitVec.isLt.trans (by decide)

/-- **`sd_read` copies the sectors it is asked for.** -/
theorem Bios.copiesSectors {card : ℕ → UInt8} {bios : BiosFunc} (h : Bios card bios)
    (x : Reg → Word) : CopiesSectors (biosSdRead bios x) card := by
  intro memAddress numOfBlocks blockId m a
  rw [biosSdRead, callBios]
  dsimp only
  rw [h.sdread _ _ rfl]
  change (if (memAddress.toBitVec.setWidth 64).toNat ≤ a ∧
    a < (memAddress.toBitVec.setWidth 64).toNat +
      SECTOR_SIZE * (numOfBlocks.toBitVec.setWidth 64).toNat then
    card (SECTOR_SIZE * (blockId.toBitVec.setWidth 64).toNat +
      (a - (memAddress.toBitVec.setWidth 64).toNat)) else m a) = _
  rw [toNat_setWidth, toNat_setWidth, toNat_setWidth]

/-! ## The boot block -/

/-- The instructions of `bootblock.S`. -/
inductive BootInstr
  | fence
  | la (rd : Reg) (symbol : Word)
  | li (rd : Reg) (imm : Word)
  | lw (rd : Reg) (offset : Word) (base : Reg)
  /-- `call bios_func_entry` -/
  | callBios
  | jr (rs : Reg)

/-- The hart in the boot block. -/
structure BootHart where
  x : Reg → Word
  mem : Mem
  pc : Word

/-- The word at `a`. -/
def Mem.word (m : Mem) (a : ℕ) : BitVec 32 := BitVec.ofNat 32 (ofLeBytes (m.bytes a 4))

namespace BootHart

def set (s : BootHart) (rd : Reg) (v : Word) : BootHart :=
  { s with x := Function.update s.x rd v }

/-- One instruction.  Only the last jump is seen in the `pc`. -/
def exec (bios : BiosFunc) (s : BootHart) : BootInstr → BootHart
  | .fence => s
  | .la rd symbol => s.set rd symbol
  | .li rd imm => s.set rd imm
  | .lw rd offset base => s.set rd ((s.mem.word (s.x base + offset).toNat).signExtend 64)
  | .callBios => { s with x := (bios s.x s.mem).1, mem := (bios s.x s.mem).2 }
  | .jr rs => { s with pc := s.x rs }

end BootHart

namespace Bootblock

def os_size_loc : Word := 0x502001fc
def kernel : Word := 0x50201000

/-- "call BIOS to print string" -/
def putMessage (msg : Word) : List BootInstr := [.fence, .la a0 msg, .li a7 BIOS_PUTSTR, .callBios]

/-- "call BIOS to read kernel in SD card" -/
def readKernel : List BootInstr :=
  [.li a0 kernel,
   .li t0 os_size_loc,
   .lw a1 0 t0,
   .li a2 2,
   .li a7 BIOS_SDREAD,
   .callBios]

/-- "jump to kernel" -/
def enterKernel : List BootInstr := [.li t0 kernel, .jr t0]

/-- `bootblock.S` is executed. -/
def run (bios : BiosFunc) (msg : Word) (s : BootHart) : BootHart :=
  (putMessage msg ++ readKernel ++ enterKernel).foldl (BootHart.exec bios) s

variable {card : ℕ → UInt8} {bios : BiosFunc} {s : BootHart} {msg : Word} {n : ℕ}

theorem mem_putMessage (h : Bios card bios) :
    ((putMessage msg).foldl (BootHart.exec bios) s).mem = s.mem :=
  h.putstr (Function.update (Function.update s.x a0 msg) a7 BIOS_PUTSTR) s.mem rfl

theorem mem_readKernel (h : Bios card bios) (a : ℕ) :
    (readKernel.foldl (BootHart.exec bios) s).mem a =
      if 0x50201000 ≤ a ∧ a < 0x50201000 + SECTOR_SIZE *
          ((s.mem.word 0x502001fc).signExtend 64).toNat then
        card (2 * SECTOR_SIZE + (a - 0x50201000))
      else s.mem a :=
  h.sdread (updates s.x [(a0, kernel), (t0, os_size_loc),
    (a1, (s.mem.word (os_size_loc + 0).toNat).signExtend 64), (a2, 2), (a7, BIOS_SDREAD)])
    s.mem rfl a

/-- A number that is not negative as an `int` is loaded as it is. -/
theorem toNat_signExtend (hn : n < 2 ^ 31) : ((BitVec.ofNat 32 n).signExtend 64).toNat = n := by
  have hnat : (BitVec.ofNat 32 n).toNat = n := by
    rw [BitVec.toNat_ofNat]
    omega
  have hmsb : (BitVec.ofNat 32 n).msb = false := by
    rw [BitVec.msb_eq_false_iff_two_mul_lt, hnat]
    omega
  rw [BitVec.signExtend_eq_setWidth_of_msb_false hmsb, BitVec.toNat_setWidth, hnat]
  omega

/-- **What the boot block leaves in memory**: `os_size` sectors of the card, the third one first,
from `kernel` on. -/
theorem run_spec (h : Bios card bios) (hn : s.mem.word 0x502001fc = BitVec.ofNat 32 n)
    (hlt : n < 2 ^ 31) (a : ℕ) : (run bios msg s).mem a =
      if 0x50201000 ≤ a ∧ a < 0x50201000 + SECTOR_SIZE * n then
        card (2 * SECTOR_SIZE + (a - 0x50201000))
      else s.mem a := by
  rw [run, List.foldl_append, List.foldl_append]
  change (readKernel.foldl (BootHart.exec bios) ((putMessage msg).foldl _ s)).mem a = _
  rw [mem_readKernel h, mem_putMessage h, hn, toNat_signExtend hlt]

end Bootblock

/-! ## The size of the kernel -/

/-- The number of sectors of a file that is not too large. -/
theorem NBYTES2SEC_ofNat {n : ℕ} (hn : n < 2 ^ 31) :
    (NBYTES2SEC (Int32.ofNat n)).toUInt32.toNat = NBYTES2SEC n := by
  have hdiv : Int32.ofNat n / 512 = Int32.ofNat (n / 512) := (Int32.ofNat_div hn (by decide)).symm
  have hmod : Int32.ofNat n % 512 = 0 ↔ n % 512 = 0 := by
    have h : Int32.ofNat n % 512 = Int32.ofNat (n % 512) := (Int32.ofNat_mod hn (by decide)).symm
    have h0 : (0 : Int32) = Int32.ofNat 0 := rfl
    rw [h, h0, ← Int32.toInt_inj, Int32.toInt_ofNat_of_lt (by omega),
      Int32.toInt_ofNat_of_lt (by omega)]
    exact Int.ofNat_inj
  have hsec : NBYTES2SEC (Int32.ofNat n) = Int32.ofNat (NBYTES2SEC n) := by
    rw [NBYTES2SEC, NBYTES2SEC, hdiv]
    simp only [ne_eq, hmod]
    split
    · exact (Int32.ofNat_add _ _).symm
    · exact (Int32.ofNat_add _ _).symm
  have hsize : UInt32.size = 2 ^ 32 := rfl
  rw [hsec, Int32.toUInt32_ofNat', UInt32.toNat_ofNat_of_lt']
  rw [NBYTES2SEC]
  split <;> omega

/-- The sectors of a file hold it, and less than a sector besides. -/
theorem le_mul_NBYTES2SEC (n : ℕ) : n ≤ SECTOR_SIZE * NBYTES2SEC n := by
  rw [SECTOR_SIZE, NBYTES2SEC]
  split <;> omega

/-- The bytes of a segment are those that its header counts. -/
theorem readSegments_length {ehdr : Elf64Ehdr} {n ph : ℕ} {fp : Stream}
    {segs : List (Elf64Phdr × List UInt8)} (h : readSegments ehdr n ph fp = some segs) :
    ∀ s ∈ segs, s.2.length = if s.1.pMemsz ≠ 0 then s.1.pFilesz else 0 := by
  induction n generalizing ph fp segs with
  | zero =>
    rw [readSegments, Option.some.injEq] at h
    simp [← h]
  | succ n ih =>
    rw [readSegments] at h
    obtain ⟨⟨phdr, fp⟩, -, h⟩ := Option.bind_eq_some_iff.1 h
    dsimp only at h
    split at h
    · exact ih h
    · obtain ⟨rest, hrest, h⟩ := Option.bind_eq_some_iff.1 h
      rw [← Option.some_inj.1 h]
      intro s hs
      rcases List.mem_cons.1 hs with rfl | hs
      · dsimp only
        rw [readSegment]
        split
        · exact Stream.length_fgetcs _ _
        · rfl
      · exact ih hrest s hs

theorem InputFile.segments_length (f : InputFile) :
    ∀ s ∈ f.segments.getD [], s.2.length = if s.1.pMemsz ≠ 0 then s.1.pFilesz else 0 := by
  cases h : f.segments with
  | none => simp
  | some segs =>
    obtain ⟨r, -, h⟩ := Option.bind_eq_some_iff.1 h
    exact readSegments_length h

theorem foldl_add_toInt32 (l : List (Elf64Phdr × List UInt8)) (n : ℕ) :
    l.foldl (fun n s => n + (UInt32.ofNat s.1.pFilesz).toInt32) (Int32.ofNat n) =
      Int32.ofNat (n + (l.map (·.1.pFilesz)).sum) := by
  induction l generalizing n with
  | nil => rfl
  | cons s l ih =>
    rw [List.foldl_cons, UInt32.toInt32_ofNat', ← Int32.ofNat_add, ih, List.map_cons, List.sum_cons,
      Nat.add_assoc]

/-- What the linker makes of the kernel: no segment is longer in the file than in memory, and the
BSS comes right behind the bytes that are in the file, with its end a multiple of eight.  And no
task is called `main` too. -/
structure ImageFiles.Linked (F : ImageFiles) (bss_start BSS_END : Word) : Prop where
  main_unique : ∀ f ∈ F.tasks, f.name ≠ chars "main"
  filesz_le : ∀ s ∈ F.main.segments.getD [], s.1.pFilesz ≤ s.1.pMemsz
  start_eq : bss_start.toNat = 0x50201000 + F.main.payload.length
  start_le : bss_start.toNat ≤ BSS_END.toNat
  end_align : BSS_END.toNat % 8 = 0
  end_lt : BSS_END.toNat < 2 ^ 32

namespace ImageFiles

variable {F : ImageFiles} {bss_start BSS_END : Word}

/-- **`os_size` is the number of sectors of the kernel.** -/
theorem Linked.osSize_toNat (h : F.Linked bss_start BSS_END)
    (hlt : F.main.payload.length < 2 ^ 31) :
    F.contents.osSize.toNat = NBYTES2SEC F.main.payload.length := by
  have htasks : ∀ (l : List InputFile) (n : Int32), (∀ f ∈ l, f.name ≠ chars "main") →
      l.foldl InputFile.addToKernel n = n := by
    intro l
    induction l with
    | nil => intro n _; rfl
    | cons f l ih =>
      intro n hl
      rw [List.foldl_cons, InputFile.addToKernel, if_neg (hl f List.mem_cons_self)]
      exact ih n fun g hg => hl g (List.mem_cons_of_mem f hg)
  have hlen : ((F.main.segments.getD []).map (·.1.pFilesz)).sum = F.main.payload.length := by
    rw [InputFile.payload, List.length_flatMap]
    refine congrArg List.sum (List.map_congr_left fun s hs => ?_)
    have hle := h.filesz_le s hs
    rw [F.main.segments_length s hs]
    split <;> omega
  have hboot : F.boot.name ≠ chars "main" := by rw [F.boot_name]; decide
  change (NBYTES2SEC ((F.boot :: F.main :: F.tasks).foldl InputFile.addToKernel 0)).toUInt32.toNat =
    _
  rw [List.foldl_cons, List.foldl_cons, htasks _ _ h.main_unique, InputFile.addToKernel,
    if_pos F.main_name, InputFile.addToKernel, if_neg hboot]
  have hsum := foldl_add_toInt32 (F.main.segments.getD []) 0
  rw [hlen, Nat.zero_add] at hsum
  rw [show (0 : Int32) = Int32.ofNat 0 from rfl, hsum, NBYTES2SEC_ofNat hlt]

/-! ## From the image to `main` -/

variable {card : ℕ → UInt8} {m : Mem}

/-- The boot sector ends with `os_size`, and the kernel follows the sector of the table. -/
theorem image_parts (F : ImageFiles) :
    leBytes 4 F.contents.osSize.toNat <+: F.contents.image.drop 508 ∧
      F.main.payload <+: F.contents.image.drop 1024 := by
  have hpre : (F.contents.boot ++ List.replicate (0x1f8 - F.contents.boot.length) (0 : UInt8) ++
      leBytes 4 F.contents.tasks.length).length = 508 := by
    have hb : F.contents.boot.length ≤ 504 := F.boot_size
    simp; omega
  have hsectors : (F.contents.bootSector ++ F.contents.infoSector).length = 1024 := by
    rw [List.length_append, length_bootSector, length_infoSector]
  rw [Contents.image, ← contents_kernel]
  constructor
  · rw [Contents.bootSector]
    simp only [List.append_assoc]
    rw [← List.append_assoc, ← List.append_assoc, List.drop_left' hpre]
    exact List.prefix_append _ _
  · rw [List.append_assoc, List.drop_left' hsectors]
    exact List.prefix_append _ _

/-- What the card holds of it. -/
theorem card_eq_of_prefix {img data : List UInt8} {pos : ℕ} (hcard : Holds card img)
    (h : data <+: img.drop pos) :
    (List.range data.length).map (fun k => card (pos + k)) = data := by
  obtain ⟨rest, h⟩ := h
  have hlen := congrArg List.length h
  rw [List.length_append, List.length_drop] at hlen
  cases data with
  | nil => rfl
  | cons c data =>
    rw [List.length_cons] at hlen ⊢
    rw [hcard.map_range (by omega), ← h]
    exact List.take_left' rfl

/-- The boot block finds the size of the kernel. -/
theorem word_os_size (hcard : Holds card F.contents.image)
    (hrom : ∀ k < SECTOR_SIZE, m (0x50200000 + k) = card k) :
    m.word 0x502001fc = BitVec.ofNat 32 F.contents.osSize.toNat := by
  have hbytes : m.bytes 0x502001fc 4 = leBytes 4 F.contents.osSize.toNat := by
    have hos := card_eq_of_prefix hcard F.image_parts.1
    rw [length_leBytes] at hos
    rw [← hos]
    refine List.map_congr_left fun k hk => ?_
    have hk := List.mem_range.1 hk
    have hboot := hrom (508 + k) (by rw [SECTOR_SIZE]; omega)
    rwa [← Nat.add_assoc] at hboot
  have hlt := F.contents.osSize.toNat_lt
  rw [Mem.word, hbytes, ofLeBytes_leBytes, Nat.mod_eq_of_lt (by omega)]

end ImageFiles

/-- The memory of a hart. -/
def hartMem (h : Hart) : Mem := fun a => h.mem (BitVec.ofNat 64 a)

/-- What `init_pcb` finds: the kernel as it was linked, with its BSS cleared but for the array
`tasks`, and what the loader needs. -/
structure KernelReady (F : ImageFiles) (card : ℕ → UInt8) (bss_start BSS_END : Word)
    (tasks : UInt32) (m : Mem) : Prop where
  loaded : m.bytes 0x50201000 F.main.payload.length = F.main.payload
  bss : ∀ a, bss_start.toNat ≤ a → a < BSS_END.toNat →
    ¬ (tasks.toNat ≤ a ∧ a < tasks.toNat + SECTOR_SIZE) → m a = 0
  booted : Booted card (m.bytes tasks.toNat SECTOR_SIZE) m

section BootChain

variable {F : ImageFiles} {bss_start BSS_END : Word} {img : List UInt8} {card : ℕ → UInt8}
  {bios : BiosFunc} {s : BootHart} {msg : Word} {h t : Hart} {a : ℕ}

/-- `_start` of the kernel, from its first line on, clears the BSS. -/
theorem headStart_spec {bss_start BSS_END : Word} (hstart : bss_start.toNat < 2 ^ 63)
    (hstop : BSS_END.toNat < 2 ^ 63) (halign : BSS_END.toNat % 8 = 0) (hpc : h.pc = 0) :
    ∃ t, Reaches (headStart bss_start BSS_END) h t ∧
      t.pc = target (headStart bss_start BSS_END) .end_clear ∧
        Zeroed h t bss_start.toNat BSS_END.toNat := by
  let h₁ := (h.setCsr .sie (h.get zero)).next
  let h₂ := (h₁.setCsr .sip (h₁.get zero)).next
  have hsie : h.step (headStart bss_start BSS_END) = some h₁ := by
    rw [Hart.step, hpc]; rfl
  have hsip : h₁.step (headStart bss_start BSS_END) = some h₂ := by
    have hpc₁ : h₁.pc = 1 := congrArg (· + 1) hpc
    rw [Hart.step, hpc₁]; rfl
  obtain ⟨t, hreach, ht, hzero⟩ := clearBss_spec headPrologue_isLabel hstart hstop halign
    (s := h₂) (congrArg (· + 2) hpc)
  exact ⟨t, .head hsie (.head hsip hreach), ht, hzero.zero, hzero.frame, hzero.stores⟩

/-- The memory after the BSS has been cleared. -/
theorem hartMem_of_zeroed (hz : Zeroed h t bss_start.toNat BSS_END.toNat) (ha : a < 2 ^ 64) :
    hartMem t a = if bss_start.toNat ≤ a ∧ a < BSS_END.toNat then 0 else hartMem h a := by
  have hnat : (BitVec.ofNat 64 a).toNat = a := by
    rw [BitVec.toNat_ofNat, Nat.mod_eq_of_lt ha]
  split
  · rename_i hin
    exact hz.zero _ (by rw [hnat]; exact hin.1) (by rw [hnat]; exact hin.2)
  · rename_i hout
    exact hz.frame _ (by rw [hnat]; exact hout)

/-- **From the image to `main`.**  The boot ROM has read the first sector of an image made by
`createimage`.  Then the boot block gets to the entry point of the kernel; from there, `_start` gets
to `end_clear`, where it has only to set `sp` and jump to `main`; and when `main`, if up to that
point it leaves alone what is below the end of the BSS, has called `init_task_info`, all is ready
for `init_pcb`: also where the last sector of the kernel has bytes of the first task that went into
the BSS. -/
theorem ImageFiles.boot_chain (hlinked : F.Linked bss_start BSS_END)
    (himg : createImage F.files = some img) (hcard : Holds card img) (hbios : Bios card bios)
    (hrom : ∀ k < SECTOR_SIZE, s.mem (0x50200000 + k) = card k)
    (hmem : ∀ a : Word, h.mem a = (Bootblock.run bios msg s).mem a.toNat) (hpc : h.pc = 0) :
    (Bootblock.run bios msg s).pc = Bootblock.kernel ∧
    ∃ t, Reaches (headStart bss_start BSS_END) h t ∧
      t.pc = target (headStart bss_start BSS_END) .end_clear ∧
      ∀ (m : Mem) (x : Reg → Word) (tasks : UInt32),
        (∀ a, 0x50200000 ≤ a → a < BSS_END.toNat → m a = hartMem t a) →
        bss_start.toNat ≤ tasks.toNat → tasks.toNat + SECTOR_SIZE ≤ BSS_END.toNat →
        KernelReady F card bss_start BSS_END tasks (biosSdRead bios x tasks 1 1 m) := by
  obtain ⟨rfl, hint⟩ := ImageFiles.image_eq_of_createImage himg
  have hlt : F.main.payload.length < 2 ^ 31 := by
    have hlen := F.length_image
    omega
  have hos := hlinked.osSize_toNat hlt
  have hsec : F.contents.osSize.toNat < 2 ^ 31 := by
    rw [hos, NBYTES2SEC]
    split <;> omega
  have hstart := hlinked.start_eq
  have hle := hlinked.start_le
  have hend := hlinked.end_lt
  have hword := ImageFiles.word_os_size hcard hrom
  have h63 : bss_start.toNat < 2 ^ 63 := by omega
  obtain ⟨t, hreach, htpc, hzero⟩ := headStart_spec h63 (by omega) hlinked.end_align hpc
  refine ⟨rfl, t, hreach, htpc, fun m x tasks hm htasks hroom => ?_⟩
  rw [SECTOR_SIZE] at hroom
  -- what `m` has from the boot sector to the end of the BSS
  have hm' : ∀ a, 0x50200000 ≤ a → a < BSS_END.toNat → m a =
      if bss_start.toNat ≤ a then 0
      else if 0x50201000 ≤ a then card (1024 + (a - 0x50201000)) else s.mem a := fun a h1 h2 => by
    have hnat : (BitVec.ofNat 64 a).toNat = a := by
      rw [BitVec.toNat_ofNat, Nat.mod_eq_of_lt (by omega)]
    have hbytes := le_mul_NBYTES2SEC F.main.payload.length
    rw [SECTOR_SIZE] at hbytes
    rw [hm a h1 h2, hartMem_of_zeroed hzero (by omega), hartMem, hmem, hnat,
      Bootblock.run_spec hbios hword hsec, hos, SECTOR_SIZE]
    split
    · rename_i hin
      rw [if_pos hin.1]
    · rename_i hout
      rw [if_neg fun hge => hout ⟨hge, h2⟩]
      by_cases hge : 0x50201000 ≤ a
      · rw [if_pos hge, if_pos ⟨hge, by omega⟩]
      · rw [if_neg hge, if_neg fun hin => hge hin.1]
  -- what `init_task_info` has changed
  have hread : ∀ a, biosSdRead bios x tasks 1 1 m a =
      if tasks.toNat ≤ a ∧ a < tasks.toNat + 512 then card (512 + (a - tasks.toNat)) else m a :=
    hbios.copiesSectors x tasks 1 1 m
  refine ⟨?_, fun a h1 h2 hout => ?_, fun k hk => ?_, ?_⟩
  · refine Eq.trans (List.map_congr_left fun k hk => ?_)
      (ImageFiles.card_eq_of_prefix hcard F.image_parts.2)
    have hk := List.mem_range.1 hk
    rw [hread, if_neg (by omega), hm' _ (by omega) (by omega), if_neg (by omega), if_pos (by omega),
      Nat.add_sub_cancel_left]
  · rw [SECTOR_SIZE] at hout
    rw [hread, if_neg hout, hm' a (by omega) h2, if_pos h1]
  · rw [SECTOR_SIZE] at hk
    rw [hread, if_neg (by omega), hm' _ (by omega) (by omega), if_neg (by omega), if_neg (by omega),
      hrom k hk]
  · refine List.map_congr_left fun k hk => ?_
    have hk := List.mem_range.1 hk
    rw [SECTOR_SIZE] at hk
    rw [hread, if_pos (by omega), Nat.add_sub_cancel_left, SECTOR_SIZE]

end BootChain

/-- A BIOS that only reads. -/
def readBios (card : ℕ → UInt8) : BiosFunc := fun x m =>
  (x, fun a =>
    if x a7 = BIOS_SDREAD ∧ (x a0).toNat ≤ a ∧ a < (x a0).toNat + SECTOR_SIZE * (x a1).toNat then
      card (SECTOR_SIZE * (x a2).toNat + (a - (x a0).toNat))
    else m a)

theorem bios_readBios (card : ℕ → UInt8) : Bios card (readBios card) where
  putstr x m h := funext fun a => if_neg fun h' => absurd (h.symm.trans h'.1) (by decide)
  sdread x m h a := by simp [readBios, h]

/-- The kernel of `oneTask`, with three bytes and a BSS of 525. -/
theorem linked_oneTask : (oneTask 3).Linked 0x50201003 0x50201210 where
  main_unique f hf := by rw [List.mem_singleton.1 hf]; decide
  filesz_le s hs := by
    have hzeros : List.replicate 3 (0 : UInt8) ≠ [] := by simp
    rw [show (oneTask 3).main.segments = _ from segments_elfFile _ hzeros (by decide)] at hs
    rw [List.mem_singleton.1 hs]
  start_eq := by rw [payload_oneTask (by decide)]; rfl
  start_le := by decide
  end_align := rfl
  end_lt := by decide

/-- A kernel of three bytes, whose only sector ends with the first task. -/
theorem ImageFiles.boot_chain_oneTask : ∃ (img : List UInt8) (s : BootHart) (h t : Hart),
    createImage (oneTask 3).files = some img ∧
    (∀ a : Word, h.mem a = (Bootblock.run (readBios (imageCard img)) 0x502000f0 s).mem a.toNat) ∧
    Reaches (headStart 0x50201003 0x50201210) h t ∧
    KernelReady (oneTask 3) (imageCard img) 0x50201003 0x50201210 0x50201010
      (biosSdRead (readBios (imageCard img)) (fun _ => 0) 0x50201010 1 1 (hartMem t)) := by
  have hn : 1 ≤ 3 ∧ 3 < 2 ^ 30 := by decide
  have himg := ImageFiles.createImage_files (segments_oneTask hn)
    (by rw [length_image_oneTask hn]; decide)
  let card := imageCard (oneTask 3).contents.image
  let s : BootHart := ⟨fun _ => 0, bootMemory card, 0x50200000⟩
  let h : Hart := ⟨fun _ => 0, fun _ => 0,
    fun a => (Bootblock.run (readBios card) 0x502000f0 s).mem a.toNat, [], 0⟩
  have hrom : ∀ k < SECTOR_SIZE, s.mem (0x50200000 + k) = card k :=
    (booted_bootMemory card).bootSector
  have hmem : ∀ a : Word, h.mem a =
      (Bootblock.run (readBios card) 0x502000f0 s).mem a.toNat := fun _ => rfl
  have hpc : h.pc = 0 := rfl
  clear_value s h
  obtain ⟨-, t, hreach, -, hready⟩ := ImageFiles.boot_chain linked_oneTask himg (holds_imageCard _)
    (bios_readBios card) hrom hmem hpc
  exact ⟨_, s, h, t, himg, hmem, hreach,
    hready (hartMem t) (fun _ => 0) 0x50201010 (fun _ _ _ => rfl) (by decide) (by decide)⟩

end UcasOs
