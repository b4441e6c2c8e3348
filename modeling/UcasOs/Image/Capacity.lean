import UcasOs.Arch.Layout
import UcasOs.Image.Table
import UcasOs.Kernel.Sched

/-!
# How many tasks fit

`create_image` counts the tasks, `load_task_img` looks a name up among as many, and the loop of
`init_pcb` runs until it meets an entry without a name.  The three share one table of 512 bytes.

* `Booting.initPcb` — `init_pcb`, with the array `tasks` as it was read from the card; it fails when
  it reads outside `tasks[]` or writes outside `pcb[]`.
* `WithinCapacity` — the table is written where it belongs, and the kernel makes a PCB of each task.
* `withinCapacity_iff` — that is so **exactly if an entry is left over for the loop to stop at**, and
  is empty: a full table of sixteen tasks has none, and a long bootblock has bytes of its own there.
-/

set_option autoImplicit false

namespace UcasOs

/-! ## `init_pcb` -/

/-- What `init_pcb` works on: the kernel, the memory, and the entry points of the PCBs so far. -/
structure Booting where
  kernel : Kernel
  mem : Mem
  entryPoints : List Ptr

namespace Booting

/-- One iteration of the loop of `init_pcb`. -/
def initPcbIter (biosSdRead : UInt32 → UInt32 → UInt32 → Mem → Mem) (tasks : List UInt8) (i : ℕ)
    (s : Booting) : Booting :=
  let (entryPoint, mem) := loadTaskImg biosSdRead tasks (taskName tasks i) s.mem
  ⟨s.kernel.initPcbIter i, mem, s.entryPoints ++ [entryPoint]⟩

/-- The iteration in terms of the two results of `load_task_img`. -/
theorem initPcbIter_eq (biosSdRead : UInt32 → UInt32 → UInt32 → Mem → Mem) (tasks : List UInt8)
    (i : ℕ) (s : Booting) : initPcbIter biosSdRead tasks i s =
      ⟨s.kernel.initPcbIter i, (loadTaskImg biosSdRead tasks (taskName tasks i) s.mem).2,
        s.entryPoints ++ [(loadTaskImg biosSdRead tasks (taskName tasks i) s.mem).1]⟩ := by
  rw [initPcbIter]

theorem length_entryPoints_initPcbIter (biosSdRead : UInt32 → UInt32 → UInt32 → Mem → Mem)
    (tasks : List UInt8) (i : ℕ) (s : Booting) :
    (initPcbIter biosSdRead tasks i s).entryPoints.length = s.entryPoints.length + 1 := by
  rw [initPcbIter_eq]
  exact List.length_append

/-- The loop of `init_pcb`, from `i` on.  It reads `tasks[i].name`, which must end inside the array,
and writes `pcb[i]`. -/
def initPcb (biosSdRead : UInt32 → UInt32 → UInt32 → Mem → Mem) (tasks : List UInt8) (i : ℕ)
    (s : Booting) : Option Booting :=
  if i < TASK_MAXNUM then
    if tasks.getD (32 * i) 0 = 0 then some s
    else if (0 : UInt8) ∈ tasks.drop (32 * i) ∧ i < NUM_MAX_TASK then
      initPcb biosSdRead tasks (i + 1) (initPcbIter biosSdRead tasks i s)
    else none
  else none
termination_by TASK_MAXNUM - i

variable {biosSdRead : UInt32 → UInt32 → UInt32 → Mem → Mem} {card : ℕ → UInt8}
  {tasks : List UInt8} {n i : ℕ} {k : Kernel} {s r : Booting}

/-- However the loop ends, it has stopped at an entry without a name. -/
theorem initPcb_stops (hcount : s.entryPoints.length = i)
    (h : initPcb biosSdRead tasks i s = some r) :
    r.entryPoints.length < TASK_MAXNUM ∧ tasks.getD (32 * r.entryPoints.length) 0 = 0 := by
  fun_induction initPcb biosSdRead tasks i s with
  | case1 i s hi hempty =>
    rw [← Option.some_inj.1 h, hcount]
    exact ⟨hi, hempty⟩
  | case2 i s hi hname hinside ih =>
    exact ih (by rw [length_entryPoints_initPcbIter, hcount]) h
  | case3 i s hi hname houtside => contradiction
  | case4 i s hi => contradiction

/-! ## The table does not change under the loop -/

/-- `load_task_img` leaves everything in front of the slots of the tasks alone. -/
theorem loadTaskImg_of_lt (hsd : CopiesSectors biosSdRead card) (hn : n < 16) {m : Mem}
    (hnum : bootTaskNum m = (UInt32.ofNat n).toInt32) (taskname : List UInt8) {a : ℕ}
    (ha : a < 0x52000000) : (loadTaskImg biosSdRead tasks taskname m).2 a = m a := by
  have haddr := bufferAddress_bootTaskNum hn hnum
  rw [loadTaskImg]
  dsimp only
  split
  next => rfl
  next j hfind =>
    have hj : j < n := by
      rw [toNatClampNeg_bootTaskNum hn hnum] at hfind
      exact List.mem_range.1 (List.mem_of_find?_eq_some hfind)
    have hslot := slot_toNat (show j < 16 by omega)
    rw [slot] at hslot
    show memcpy _ _ _ _ a = m a
    rw [memcpy_of_lt (by omega), hsd, if_neg (by omega)]

theorem bootTaskNum_loadTaskImg (hsd : CopiesSectors biosSdRead card) (hn : n < 16) {m : Mem}
    (hnum : bootTaskNum m = (UInt32.ofNat n).toInt32) (taskname : List UInt8) :
    bootTaskNum (loadTaskImg biosSdRead tasks taskname m).2 = (UInt32.ofNat n).toInt32 := by
  have hbytes : (loadTaskImg biosSdRead tasks taskname m).2.bytes 0x502001f8 4
      = m.bytes 0x502001f8 4 := by
    refine List.map_congr_left fun j hj => ?_
    have hj := List.mem_range.1 hj
    exact loadTaskImg_of_lt hsd hn hnum taskname (by omega)
  rw [bootTaskNum, hbytes]
  exact hnum

/-- **What has been done after `i` iterations**: as many PCBs are there, and the one of a task with
a name of its own starts in the slot of the task. -/
structure Done (tasks : List UInt8) (n : ℕ) (k : Kernel) (i : ℕ) (s : Booting) : Prop where
  kernel : s.kernel = Kernel.initPcb i k
  count : s.entryPoints.length = i
  taskNum : bootTaskNum s.mem = (UInt32.ofNat n).toInt32
  entryPoint : ∀ j < i, (∀ l < j, taskName tasks l ≠ taskName tasks j) →
    s.entryPoints[j]? = some (slot j)

theorem Done.step (h : Done tasks n k i s) (hsd : CopiesSectors biosSdRead card) (hn : n < 16)
    (hi : i < n) : Done tasks n k (i + 1) (initPcbIter biosSdRead tasks i s) where
  kernel := by
    rw [initPcbIter_eq, h.kernel]
    rfl
  count := by rw [length_entryPoints_initPcbIter, h.count]
  taskNum := by
    rw [initPcbIter_eq]
    exact bootTaskNum_loadTaskImg hsd hn h.taskNum _
  entryPoint j hj hfirst := by
    rw [initPcbIter_eq]
    dsimp only
    rcases Nat.lt_succ_iff_lt_or_eq.1 hj with hlt | rfl
    · rw [List.getElem?_append_left (by rw [h.count]; exact hlt)]
      exact h.entryPoint j hlt hfirst
    · rw [List.getElem?_append_right (Nat.le_of_eq h.count), h.count, Nat.sub_self, loadTaskImg]
      dsimp only
      rw [toNatClampNeg_bootTaskNum hn h.taskNum, find?_taskName hi rfl hfirst]
      rfl

/-- **The loop makes a PCB of every entry with a name**, up to the first one without. -/
theorem initPcb_done (hsd : CopiesSectors biosSdRead card) (hn : n < 16)
    (hlen : 32 * n < tasks.length) (hnames : ∀ j < n, tasks.getD (32 * j) 0 ≠ 0)
    (hempty : tasks.getD (32 * n) 0 = 0) (hi : i ≤ n) (h : Done tasks n k i s) :
    ∃ r, initPcb biosSdRead tasks i s = some r ∧ Done tasks n k n r := by
  fun_induction initPcb biosSdRead tasks i s with
  | case1 i s hlt hstop =>
    have hin : i = n := by
      by_contra hne
      exact hnames i (by omega) hstop
    exact ⟨s, rfl, hin ▸ h⟩
  | case2 i s hlt hname hinside ih =>
    have hin : i ≠ n := by
      rintro rfl
      exact hname hempty
    exact ih (by omega) (h.step hsd hn (by omega))
  | case3 i s hlt hname houtside =>
    -- The name ends at the empty entry at the latest.
    refine absurd ⟨?_, hlt⟩ houtside
    have hget : tasks[32 * n]? = some 0 := by
      rw [List.getD_eq_getElem?_getD, List.getElem?_eq_getElem hlen, Option.getD_some] at hempty
      rw [List.getElem?_eq_getElem hlen, hempty]
    have hdrop : (tasks.drop (32 * i))[32 * n - 32 * i]? = some 0 := by
      rw [List.getElem?_drop, Nat.add_sub_cancel' (by omega)]
      exact hget
    exact List.mem_of_getElem? hdrop
  | case4 i s hge =>
    have hge : ¬ i < 16 := hge
    omega

end Booting

/-! ## The table on the card -/

/-- What `create_image` takes: a bootblock, a kernel and tasks, all of which it can open and read.
The names are paths, strings that are not empty. -/
structure Accepted (boot main : InputFile) (tasks : List InputFile) : Prop where
  boot_name : boot.name = chars "bootblock"
  readable : ∀ f ∈ boot :: main :: tasks, f.segments.isSome
  name_ne_nil : ∀ f ∈ tasks, f.name ≠ []
  name_chars : ∀ f ∈ tasks, (0 : UInt8) ∉ f.name

/-- The entries fit, and no byte counter overflows. -/
structure Fits (boot main : InputFile) (tasks : List InputFile) : Prop where
  count_le : tasks.length ≤ TASK_MAXNUM
  size : (rawImage boot main tasks).length < 2 ^ 31

section

variable {boot main : InputFile} {tasks : List InputFile}

theorem Accepted.createImage_eq (h : Accepted boot main tasks) (hfits : Fits boot main tasks) :
    createImage (boot :: main :: tasks)
      = some (overwrite 0x1f8 (imgInfo boot main tasks) (rawImage boot main tasks)) := by
  rw [createImage_eq_overwrite h.boot_name, if_pos ⟨h.readable, hfits.size, hfits.count_le⟩]

theorem Accepted.fits_of_createImage (h : Accepted boot main tasks) {img : List UInt8}
    (himg : createImage (boot :: main :: tasks) = some img) :
    Fits boot main tasks
      ∧ img = overwrite 0x1f8 (imgInfo boot main tasks) (rawImage boot main tasks) := by
  rw [createImage_eq_overwrite h.boot_name] at himg
  split at himg
  next hall => exact ⟨⟨hall.2.2, hall.2.1⟩, (Option.some_inj.1 himg).symm⟩
  next => contradiction

/-- The table ends with its sector. -/
theorem Fits.imgInfo_le (h : Fits boot main tasks) :
    0x1f8 + (imgInfo boot main tasks).length ≤ 1024 := by
  have hn : tasks.length ≤ 16 := h.count_le
  rw [length_imgInfo]
  omega

theorem Fits.imgInfo_inside (h : Fits boot main tasks) :
    0x1f8 + (imgInfo boot main tasks).length ≤ (rawImage boot main tasks).length :=
  h.imgInfo_le.trans (le_length_rawImage boot main tasks)

/-- The bytes of the sector of the task information. -/
def tableSector (boot main : InputFile) (tasks : List InputFile) : List UInt8 :=
  ((tableOf boot main tasks).flatMap TaskInfo.bytes
    ++ (rawImage boot main tasks).drop (512 + 32 * tasks.length)).take 512

/-- The image, from the number of tasks on. -/
theorem Fits.drop_image (h : Fits boot main tasks) :
    (overwrite 0x1f8 (imgInfo boot main tasks) (rawImage boot main tasks)).drop 0x1f8
      = imgInfo boot main tasks ++ (rawImage boot main tasks).drop (512 + 32 * tasks.length) := by
  have hend : 0x1f8 + (imgInfo boot main tasks).length = 512 + 32 * tasks.length := by
    rw [length_imgInfo]
    omega
  rw [drop_overwrite h.imgInfo_inside, hend]

section

variable {card : ℕ → UInt8} {table : List UInt8} {m : Mem} (hfits : Fits boot main tasks)
  (hcard : Holds card (overwrite 0x1f8 (imgInfo boot main tasks) (rawImage boot main tasks)))
  (hm : Booted card table m)
include hfits hcard hm

/-- What `init_task_info` reads. -/
theorem table_eq : table = tableSector boot main tasks := by
  have hlen := length_overwrite hfits.imgInfo_inside
  have hraw := le_length_rawImage boot main tasks
  rw [hm.taskInfo, SECTOR_SIZE, hcard.map_range (by omega), show 512 = 0x1f8 + 8 from rfl,
    ← List.drop_drop, hfits.drop_image, imgInfo, List.append_assoc, List.drop_left' ?_, tableSector]
  rw [List.length_append, length_leBytes, length_leBytes]

/-- The stored number is that of the tasks. -/
theorem bootTaskNum_image : bootTaskNum m = (UInt32.ofNat tasks.length).toInt32 := by
  have hn : tasks.length ≤ 16 := hfits.count_le
  refine hm.bootTaskNum_eq hcard (by omega) ?_
  rw [hfits.drop_image, imgInfo]
  simp only [List.append_assoc]
  exact List.prefix_append _ _

end

/-! ## The entries -/

theorem length_tableSector : (tableSector boot main tasks).length = 512 := by
  have hraw := le_length_rawImage boot main tasks
  rw [tableSector, List.length_take, List.length_append, tableOf, Contents.length_flatMap_taskInfos,
    List.length_map, List.length_drop]
  omega

/-- The entry of the task `i` starts with its name. -/
theorem drop_tableSector (hn : tasks.length ≤ 16) {i : ℕ} (hi : i < tasks.length) :
    ∃ rest, (tableSector boot main tasks).drop (32 * i)
      = strncpy TASK_NAME_LEN tasks[i].name ++ rest := by
  have hi' : i < (tasks.map fun f => (f.name, f.payload)).length := by
    rw [List.length_map]
    exact hi
  obtain ⟨later, hlater⟩ := drop_taskInfos hi' ((paddedBoot boot).length + main.payload.length)
  have hlen : 32 * i ≤ ((tableOf boot main tasks).flatMap TaskInfo.bytes).length := by
    rw [tableOf, Contents.length_flatMap_taskInfos, List.length_map]
    omega
  have hname : (strncpy TASK_NAME_LEN tasks[i].name).length ≤ 512 - 32 * i := by
    rw [length_strncpy, TASK_NAME_LEN]
    omega
  rw [tableSector, List.drop_take, List.drop_append_of_le_length hlen, tableOf,
    drop_flatMap Contents.length_bytes_taskInfos, hlater, List.flatMap_cons, TaskInfo.bytes]
  simp only [List.getElem_map, List.append_assoc]
  rw [List.take_append, List.take_of_length_le hname]
  exact ⟨_, rfl⟩

/-- The name of a task is not empty, so neither is its entry. -/
theorem getD_strncpy_ne_zero {name : List UInt8} (hne : name ≠ []) (hchars : (0 : UInt8) ∉ name) :
    (strncpy TASK_NAME_LEN name).getD 0 0 ≠ 0 := by
  cases name with
  | nil => exact absurd rfl hne
  | cons c name =>
    rintro hc
    exact hchars (hc ▸ List.mem_cons_self)

theorem getD_tableSector_ne_zero (h : Accepted boot main tasks) (hn : tasks.length ≤ 16) {i : ℕ}
    (hi : i < tasks.length) : (tableSector boot main tasks).getD (32 * i) 0 ≠ 0 := by
  have hentry : ∃ rest, (tableSector boot main tasks).drop (32 * i)
      = strncpy TASK_NAME_LEN tasks[i].name ++ rest := drop_tableSector hn hi
  obtain ⟨rest, hrest⟩ := hentry
  have hmem : tasks[i] ∈ tasks := List.getElem_mem hi
  have hfirst : (tableSector boot main tasks).getD (32 * i) 0
      = (strncpy TASK_NAME_LEN tasks[i].name).getD 0 0 := by
    have hget := congrArg (·[0]?) hrest
    simp only [List.getElem?_drop, Nat.add_zero] at hget
    rw [List.getD_eq_getElem?_getD, List.getD_eq_getElem?_getD, hget, List.getElem?_append_left]
    rw [length_strncpy]
    decide
  rw [hfirst]
  exact getD_strncpy_ne_zero (h.name_ne_nil _ hmem) (h.name_chars _ hmem)

/-- Behind the last entry is what the bootblock has there. -/
theorem getD_tableSector (hn : tasks.length < 16) :
    (tableSector boot main tasks).getD (32 * tasks.length) 0
      = boot.payload.getD (512 + 32 * tasks.length) 0 := by
  have hpad : 512 + 32 * tasks.length < (paddedBoot boot).length := by
    rw [length_paddedBoot]
    omega
  have hlen : ((tableOf boot main tasks).flatMap TaskInfo.bytes).length = 32 * tasks.length := by
    rw [tableOf, Contents.length_flatMap_taskInfos, List.length_map]
  rw [← getD_paddedBoot, tableSector, List.getD_eq_getElem?_getD, List.getD_eq_getElem?_getD,
    List.getElem?_take_of_lt (by omega), List.getElem?_append_right (Nat.le_of_eq hlen), hlen,
    Nat.sub_self, List.getElem?_drop, Nat.add_zero, rawImage, List.append_assoc,
    List.getElem?_append_left hpad]

end

/-! ## The capacity -/

/-- One PCB for each task: the kernel has gone round the loop of `init_pcb` that many times, entry
`i` of the table has the name of task `i`, and the PCB of a task whose name no task before it has
starts in its slot. -/
structure OnePcbEach (tasks : List InputFile) (table : List UInt8) (k : Kernel) (s : Booting) :
    Prop where
  count : s.entryPoints.length = tasks.length
  kernel : s.kernel = Kernel.initPcb tasks.length k
  name : ∀ (i : ℕ) (hi : i < tasks.length),
    (table.drop (32 * i)).take TASK_NAME_LEN = strncpy TASK_NAME_LEN tasks[i].name
  entryPoint : ∀ i < tasks.length, (∀ j < i, taskName table j ≠ taskName table i) →
    s.entryPoints[i]? = some (slot i)

/-- `create_image` stays inside `taskinfo[]` and writes the table between the boot code and the
kernel, and a kernel that boots from the image makes one PCB of each task. -/
def WithinCapacity (boot main : InputFile) (tasks : List InputFile) : Prop :=
  ∃ img, createImage (boot :: main :: tasks) = some img ∧
    img.take 0x1f8 = (rawImage boot main tasks).take 0x1f8 ∧
    img.drop 1024 = (rawImage boot main tasks).drop 1024 ∧
    ∀ biosSdRead card table m k, CopiesSectors biosSdRead card → Holds card img →
      Booted card table m →
        ∃ s, Booting.initPcb biosSdRead table 0 ⟨k, m, []⟩ = some s ∧ OnePcbEach tasks table k s

section

variable {boot main : InputFile} {tasks : List InputFile}

/-- Where the loop stops, there is an entry without a name. -/
theorem WithinCapacity.stops (h : Accepted boot main tasks) (hw : WithinCapacity boot main tasks) :
    Fits boot main tasks ∧ tasks.length < TASK_MAXNUM ∧
      (tableSector boot main tasks).getD (32 * tasks.length) 0 = 0 := by
  obtain ⟨img, himg, -, -, hboot⟩ := hw
  obtain ⟨hfits, rfl⟩ := h.fits_of_createImage himg
  have hsd : CopiesSectors (copySectors (imageCard _)) (imageCard
      (overwrite 0x1f8 (imgInfo boot main tasks) (rawImage boot main tasks))) :=
    fun _ _ _ _ _ => rfl
  have hcard := holds_imageCard (overwrite 0x1f8 (imgInfo boot main tasks) (rawImage boot main tasks))
  have hm := booted_bootMemory (imageCard
    (overwrite 0x1f8 (imgInfo boot main tasks) (rawImage boot main tasks)))
  obtain ⟨s, hs, hpcbs⟩ := hboot _ _ _ _ (Kernel.static 0 fun _ => 0) hsd hcard hm
  have hstops := Booting.initPcb_stops (i := 0) rfl hs
  rw [hpcbs.count, table_eq hfits hcard hm] at hstops
  exact ⟨hfits, hstops⟩

/-- With room for one more entry, and nothing in it, everything works. -/
theorem Accepted.withinCapacity (h : Accepted boot main tasks) (hfits : Fits boot main tasks)
    (hn : tasks.length < TASK_MAXNUM)
    (hempty : (tableSector boot main tasks).getD (32 * tasks.length) 0 = 0) :
    WithinCapacity boot main tasks := by
  have hn' : tasks.length < 16 := hn
  refine ⟨_, h.createImage_eq hfits, take_overwrite hfits.imgInfo_inside le_rfl,
    drop_overwrite_of_le hfits.imgInfo_inside hfits.imgInfo_le, ?_⟩
  intro biosSdRead card table m k hsd hcard hm
  have htable := table_eq hfits hcard hm
  have hstart : Booting.Done table tasks.length k 0 ⟨k, m, []⟩ :=
    ⟨rfl, rfl, bootTaskNum_image hfits hcard hm, fun j hj => absurd hj (Nat.not_lt_zero j)⟩
  have hnames : ∀ j < tasks.length, table.getD (32 * j) 0 ≠ 0 := by
    rw [htable]
    exact fun j hj => getD_tableSector_ne_zero h hfits.count_le hj
  have hlen : 32 * tasks.length < table.length := by
    rw [htable, length_tableSector]
    omega
  obtain ⟨s, hs, hdone⟩ := Booting.initPcb_done hsd hn' hlen hnames (htable ▸ hempty)
    (Nat.zero_le _) hstart
  refine ⟨s, hs, hdone.count, hdone.kernel, fun i hi => ?_, hdone.entryPoint⟩
  have hentry : ∃ rest, (tableSector boot main tasks).drop (32 * i)
      = strncpy TASK_NAME_LEN tasks[i].name ++ rest := drop_tableSector hfits.count_le hi
  obtain ⟨rest, hrest⟩ := hentry
  rw [htable, hrest, List.take_left' (length_strncpy _ _)]

/-- **The capacity of the table**, for any bootblock, kernel and tasks that `create_image` takes:
fifteen tasks fit and sixteen do not, and the byte of the bootblock where the loop of `init_pcb` is
to stop must be zero, as it is when the bootblock ends before. -/
theorem withinCapacity_iff (h : Accepted boot main tasks) :
    WithinCapacity boot main tasks ↔
      tasks.length < TASK_MAXNUM ∧ (rawImage boot main tasks).length < 2 ^ 31 ∧
        boot.payload.getD (512 + 32 * tasks.length) 0 = 0 := by
  constructor
  · intro hw
    obtain ⟨hfits, hn, hempty⟩ := hw.stops h
    rw [getD_tableSector hn] at hempty
    exact ⟨hn, hfits.size, hempty⟩
  · rintro ⟨hn, hsize, hempty⟩
    have hsector : (tableSector boot main tasks).getD (32 * tasks.length) 0 = 0 := by
      rw [getD_tableSector hn]
      exact hempty
    exact h.withinCapacity ⟨hn.le, hsize⟩ hn hsector

end

/-- Tasks `A`, `B`, ... of one byte each. -/
def letterTasks (n : ℕ) : List InputFile :=
  (List.range n).map fun i => ⟨[UInt8.ofNat (65 + i)], elfFile [1]⟩

/-- A bootblock, a kernel and as many of these tasks as there are. -/
theorem accepted_letterTasks {n : ℕ} (hn : n ≤ 16) :
    Accepted ⟨chars "bootblock", elfFile [0x13]⟩ ⟨chars "main", elfFile [0x13]⟩
      (letterTasks n) := by
  have htasks : ∀ f ∈ letterTasks n, ∃ i : Fin 16, f = ⟨[UInt8.ofNat (65 + i)], elfFile [1]⟩ := by
    intro f hf
    obtain ⟨i, hi, rfl⟩ := List.mem_map.1 hf
    exact ⟨⟨i, (List.mem_range.1 hi).trans_le hn⟩, rfl⟩
  have hone : ∀ name byte, (InputFile.mk name (elfFile [byte])).segments.isSome := by
    intro name byte
    rw [segments_elfFile name (List.cons_ne_nil byte []) (Nat.one_lt_two_pow (by decide))]
    rfl
  refine ⟨rfl, ?_, fun f hf => ?_, fun f hf => ?_⟩
  · rw [List.forall_mem_cons, List.forall_mem_cons]
    refine ⟨hone _ _, hone _ _, fun f hf => ?_⟩
    obtain ⟨i, rfl⟩ := htasks f hf
    exact hone _ _
  · obtain ⟨i, rfl⟩ := htasks f hf
    exact List.cons_ne_nil _ _
  · have hchars : ∀ i : Fin 16, (0 : UInt8) ∉ [UInt8.ofNat (65 + i)] := by decide
    obtain ⟨i, rfl⟩ := htasks f hf
    exact hchars i

/-- Fifteen tasks fit, each with a name of its own. -/
theorem withinCapacity_iff_fifteen : ((letterTasks 15).map (·.name)).Nodup ∧
    WithinCapacity ⟨chars "bootblock", elfFile [0x13]⟩ ⟨chars "main", elfFile [0x13]⟩
      (letterTasks 15) := by
  have hone : ∀ name (byte : UInt8), (InputFile.mk name (elfFile [byte])).payload = [byte] :=
    fun name byte => payload_elfFile name (List.cons_ne_nil byte []) (Nat.one_lt_two_pow (by decide))
  have htasks : ((letterTasks 15).flatMap InputFile.payload).length = 15 := by
    rw [letterTasks, List.flatMap_map, List.length_flatMap]
    simp only [hone]
    rfl
  refine ⟨by decide, (withinCapacity_iff (accepted_letterTasks (by decide))).2
    ⟨by decide, ?_, ?_⟩⟩
  · rw [rawImage, List.length_append, List.length_append, length_paddedBoot, hone, hone, htasks]
    decide
  · rw [hone]
    decide

/-- **A full table has no entry to stop at**: with sixteen tasks, which `create_image` takes, the
loop of `init_pcb` reads behind the array. -/
theorem withinCapacity_fails :
    ¬ ∀ (boot main : InputFile) (tasks : List InputFile), Accepted boot main tasks →
      WithinCapacity boot main tasks := by
  intro h
  have hstops := (h _ _ _ (accepted_letterTasks le_rfl)).stops (accepted_letterTasks le_rfl)
  have hlen : (letterTasks 16).length = 16 := (List.length_map _).trans List.length_range
  rw [hlen] at hstops
  exact absurd hstops.2.1 (by decide)

end UcasOs
