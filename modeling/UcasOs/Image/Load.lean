import UcasOs.Image.Create
import UcasOs.Kernel.Mm

/-!
# Loading a task

`kernel/loader/loader.c`: `load_task_img` looks a task up by its name, has whole sectors read into
a buffer behind all tasks, and copies the bytes of the task out of it.

`bios_sd_read` is code of the boot ROM.  It is a parameter here, and `CopiesSectors` is what is
known about it: it copies the sectors it is asked for and touches nothing else.

* `loadTaskImg` — the function, with every computation in the type it has in the source.
* `loadTaskImg_apply` — what it leaves in the memory of the task: it reads from the sector of byte
  `begin - 1` to that of byte `end - 2`, where `begin` and `end - 1` would be right.
-/

set_option autoImplicit false

namespace UcasOs

/-- The memory, by address. -/
abbrev Mem := ℕ → UInt8

/-- The `n` bytes from address `a` on. -/
def Mem.bytes (a n : ℕ) (m : Mem) : List UInt8 := (List.range n).map fun k => m (a + k)

/-- `tasks[i].name` -/
def taskName (tasks : List UInt8) (i : ℕ) : List UInt8 := cString (tasks.drop (32 * i))

/-- `tasks[i].begin` -/
def taskBegin (tasks : List UInt8) (i : ℕ) : UInt32 :=
  UInt32.ofNat (field (32 * i + 24) 4 tasks)

/-- `tasks[i].end` -/
def taskEnd (tasks : List UInt8) (i : ℕ) : UInt32 :=
  UInt32.ofNat (field (32 * i + 28) 4 tasks)

/-- `*(int *)0x502001f8`, the number of tasks in the boot sector. -/
def bootTaskNum (m : Mem) : Int32 := (UInt32.ofNat (ofLeBytes (m.bytes 0x502001f8 4))).toInt32

/-- The buffer behind `taskNum` tasks. -/
def loadBuffer (taskNum : Int32) : Ptr :=
  0x52000000 + ((taskNum + 1) <<< 16).toBitVec.signExtend 64

/-- `load_task_img(taskname)`, with the bytes of the array `tasks`.  Block numbers are `int`s in the
source, which changes none of their bits. -/
def loadTaskImg (biosSdRead : UInt32 → UInt32 → UInt32 → Mem → Mem) (tasks taskname : List UInt8)
    (m : Mem) : Ptr × Mem :=
  let taskNum := bootTaskNum m
  let buffer := loadBuffer taskNum
  match (List.range taskNum.toNatClampNeg).find? fun i => taskName tasks i = taskname with
  | none => (0, m)
  | some i =>
    let entrypoint := TASK_MEM_BASE + BitVec.ofNat 64 (i <<< 16)
    let nbytesSize := taskEnd tasks i - taskBegin tasks i
    let beginBlock := NBYTES2SEC (taskBegin tasks i) - 1
    let endBlock := NBYTES2SEC (taskEnd tasks i - 1) - 1
    let m := biosSdRead (UInt32.ofBitVec (buffer.setWidth 32)) (endBlock - beginBlock + 1)
      beginBlock m
    (entrypoint, memcpy entrypoint.toNat (buffer.toNat + (taskBegin tasks i % 512).toNat)
      nbytesSize.toNat m)

/-- `bios_sd_read(mem_address, num_of_blocks, block_id)` copies whole sectors of the card. -/
def CopiesSectors (biosSdRead : UInt32 → UInt32 → UInt32 → Mem → Mem) (card : ℕ → UInt8) : Prop :=
  ∀ memAddress numOfBlocks blockId m a, biosSdRead memAddress numOfBlocks blockId m a =
    if memAddress.toNat ≤ a ∧ a < memAddress.toNat + SECTOR_SIZE * numOfBlocks.toNat then
      card (SECTOR_SIZE * blockId.toNat + (a - memAddress.toNat))
    else m a

/-! ## What it leaves in memory -/

/-- Rounding up and subtracting one gives the sector of the byte before. -/
theorem NBYTES2SEC_sub_one {x : UInt32} (hx : 1 ≤ x.toNat) :
    (NBYTES2SEC x - 1).toNat = (x.toNat - 1) / 512 := by
  have hlt : x.toNat < 2 ^ 32 := x.toNat_lt
  have hmod : x % 512 = 0 ↔ x.toNat % 512 = 0 := by
    rw [← UInt32.toNat_inj]; rfl
  have hdiv : (x / 512).toNat = x.toNat / 512 := UInt32.toNat_div _ _
  rw [NBYTES2SEC]
  by_cases h : x % 512 = 0
  · have h0 := hmod.1 h
    rw [if_neg (by simp [h]), UInt32.add_zero, UInt32.toNat_sub_of_le _ _ ?_, hdiv]
    · show x.toNat / 512 - 1 = _
      omega
    · rw [UInt32.le_iff_toNat_le, hdiv]
      show 1 ≤ _
      omega
  · have h0 : ¬ x.toNat % 512 = 0 := fun e => h (hmod.2 e)
    rw [if_pos h, UInt32.add_sub_cancel, hdiv]
    omega

/-- The first sector that is read and the number of sectors: they are those from that of the byte
`b - 1` to that of the byte `e - 2`. -/
theorem blocks_toNat {b e : UInt32} (hpos : 512 ≤ b.toNat) (hbe : b.toNat < e.toNat) :
    (NBYTES2SEC b - 1).toNat = (b.toNat - 1) / 512 ∧
      (NBYTES2SEC (e - 1) - 1 - (NBYTES2SEC b - 1) + 1).toNat
        = (e.toNat - 2) / 512 - (b.toNat - 1) / 512 + 1 := by
  have hlt : e.toNat < 2 ^ 32 := e.toNat_lt
  have hfirst : (NBYTES2SEC b - 1).toNat = (b.toNat - 1) / 512 := NBYTES2SEC_sub_one (by omega)
  have hend : (e - 1).toNat = e.toNat - 1 :=
    UInt32.toNat_sub_of_le _ _ (UInt32.le_iff_toNat_le.2 (Nat.one_le_of_lt hbe))
  have hlast : (NBYTES2SEC (e - 1) - 1).toNat = (e.toNat - 2) / 512 := by
    rw [NBYTES2SEC_sub_one (by omega), hend, Nat.sub_sub]
  have hle : NBYTES2SEC b - 1 ≤ NBYTES2SEC (e - 1) - 1 := by
    rw [UInt32.le_iff_toNat_le, hfirst, hlast]
    omega
  refine ⟨hfirst, ?_⟩
  rw [UInt32.toNat_add, UInt32.toNat_sub_of_le _ _ hle, hfirst, hlast]
  show (_ + 1) % 2 ^ 32 = _
  omega

/-- The buffer is behind the slots of the tasks. -/
theorem loadBuffer_toNat : ∀ n : Fin 16,
    (loadBuffer (UInt32.ofNat n).toInt32).toNat = 0x52000000 + (n + 1) * 0x10000 := by
  decide

theorem toNatClampNeg_taskNum : ∀ n : Fin 16, (UInt32.ofNat n).toInt32.toNatClampNeg = n := by
  decide

/-- Where the task `i` goes. -/
def slot (i : ℕ) : Ptr := TASK_MEM_BASE + BitVec.ofNat 64 (i <<< 16)

theorem slot_toNat {i : ℕ} (hi : i < 16) : (slot i).toNat = 0x52000000 + i * 0x10000 := by
  rw [slot, Nat.shiftLeft_eq, BitVec.toNat_add, BitVec.toNat_ofNat]
  show (0x52000000 + _) % _ = _
  omega

section

variable {biosSdRead : UInt32 → UInt32 → UInt32 → Mem → Mem} {card : ℕ → UInt8}
  {tasks taskname : List UInt8} {m : Mem} {n i : ℕ}

/-- The search ends at the first task with the name. -/
theorem find?_taskName (hi : i < n) (hname : taskName tasks i = taskname)
    (hfirst : ∀ j < i, taskName tasks j ≠ taskname) :
    (List.range n).find? (fun j => taskName tasks j = taskname) = some i := by
  rw [List.find?_range_eq_some]
  exact ⟨decide_eq_true hname, List.mem_range.2 hi, fun j hj => by simpa using hfirst j hj⟩

theorem toNatClampNeg_bootTaskNum (hn : n < 16)
    (hnum : bootTaskNum m = (UInt32.ofNat n).toInt32) : (bootTaskNum m).toNatClampNeg = n := by
  rw [hnum]
  exact toNatClampNeg_taskNum ⟨n, hn⟩

theorem loadBuffer_bootTaskNum (hn : n < 16) (hnum : bootTaskNum m = (UInt32.ofNat n).toInt32) :
    (loadBuffer (bootTaskNum m)).toNat = 0x52000000 + (n + 1) * 0x10000 := by
  rw [hnum]
  exact loadBuffer_toNat ⟨n, hn⟩

/-- The address that is passed to `bios_sd_read`. -/
theorem bufferAddress_bootTaskNum (hn : n < 16)
    (hnum : bootTaskNum m = (UInt32.ofNat n).toInt32) :
    (UInt32.ofBitVec ((loadBuffer (bootTaskNum m)).setWidth 32)).toNat
      = 0x52000000 + (n + 1) * 0x10000 := by
  rw [UInt32.toNat_ofBitVec, BitVec.toNat_setWidth, loadBuffer_bootTaskNum hn hnum]
  omega

/-- **What `load_task_img` leaves in the slot of the task.**  If `begin` is the first byte of a
sector it is the bytes from one sector before.  If it is not, but the last byte of the task is, that
byte is not read, and whatever the buffer holds in its place goes into the slot. -/
theorem loadTaskImg_apply (hsd : CopiesSectors biosSdRead card) (hn : n < 16)
    (hnum : bootTaskNum m = (UInt32.ofNat n).toInt32) (hi : i < n)
    (hname : taskName tasks i = taskname) (hfirst : ∀ j < i, taskName tasks j ≠ taskname)
    {b e : ℕ} (hb : (taskBegin tasks i).toNat = b) (he : (taskEnd tasks i).toNat = e)
    (hpos : 512 ≤ b) (hbe : b < e) (hsize : e ≤ b + 0x10000) (hint : e < 2 ^ 31) :
    (loadTaskImg biosSdRead tasks taskname m).1 = slot i ∧
      ∀ k < e - b, (loadTaskImg biosSdRead tasks taskname m).2 ((slot i).toNat + k) =
        if b % 512 = 0 then card (b - 512 + k)
        else if (e - 1) % 512 = 0 ∧ k + 1 = e - b then
          m (0x52000000 + (n + 1) * 0x10000 + b % 512 + k)
        else card (b + k) := by
  have hmod : (taskBegin tasks i % 512).toNat = b % 512 := by
    rw [UInt32.toNat_mod, hb]; rfl
  have hlen : (taskEnd tasks i - taskBegin tasks i).toNat = e - b := by
    rw [UInt32.toNat_sub_of_le _ _ (by rw [UInt32.le_iff_toNat_le]; omega), hb, he]
  obtain ⟨hfirstBlock, hblocks⟩ := blocks_toNat (b := taskBegin tasks i) (e := taskEnd tasks i)
    (by rw [hb]; exact hpos) (by rw [hb, he]; exact hbe)
  rw [hb] at hfirstBlock hblocks
  rw [he] at hblocks
  rw [loadTaskImg]
  dsimp only
  rw [toNatClampNeg_bootTaskNum hn hnum, find?_taskName hi hname hfirst]
  refine ⟨rfl, fun k hk => ?_⟩
  show memcpy (slot i).toNat _ _ _ _ = _
  rw [loadBuffer_bootTaskNum hn hnum, hmod, hlen,
    memcpy_apply (by rw [slot_toNat (by omega)]; omega), if_pos (by omega),
    Nat.add_sub_cancel_left, hsd, bufferAddress_bootTaskNum hn hnum, hblocks, hfirstBlock,
    SECTOR_SIZE]
  by_cases h0 : b % 512 = 0
  · rw [if_pos (by omega), if_pos h0]
    exact congrArg card (by omega)
  · rw [if_neg h0]
    by_cases hlast : (e - 1) % 512 = 0 ∧ k + 1 = e - b
    · rw [if_neg (by omega), if_pos hlast]
    · rw [if_pos (by omega), if_neg hlast]
      exact congrArg card (by omega)

end

end UcasOs
