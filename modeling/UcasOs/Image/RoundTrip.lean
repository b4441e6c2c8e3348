import UcasOs.Image.Load

/-!
# From `createimage` to `load_task_img`

A task is written into the image by one program and taken out of it by another.

* `ImageFiles` — the files an image is made of, with what is required of them.
* `Loads` — the task is in its slot, byte for byte.
* `loads_iff` — **the loader gets a task right exactly if its boundaries suit the sectors**: its
  first byte is not the first of a sector, and neither is its last one, unless the bytes that are
  copied instead happen to be the same.
* `loads_fails` — a kernel that fills a sector is enough for the task after it to be loaded wrong.
-/

set_option autoImplicit false

namespace UcasOs

/-- `TASK_SIZE` -/
def TASK_SIZE : ℕ := 0x10000

/-- The files an image is made of. -/
structure ImageFiles where
  boot : InputFile
  main : InputFile
  tasks : List InputFile
  boot_name : boot.name = chars "bootblock"
  main_name : main.name = chars "main"
  boot_size : boot.payload.length ≤ 504
  one_le_count : 1 ≤ tasks.length
  count_le : tasks.length ≤ 15
  names_nodup : (tasks.map (·.name)).Nodup
  name_length : ∀ f ∈ tasks, f.name.length ≤ 23
  name_chars : ∀ f ∈ tasks, (0 : UInt8) ∉ f.name
  one_segment : ∀ f ∈ tasks, ∃ phdr bytes, f.segments = some [(phdr, bytes)] ∧
    1 ≤ bytes.length ∧ bytes.length ≤ TASK_SIZE

/-- The card holds the image. -/
def Holds (card : ℕ → UInt8) (img : List UInt8) : Prop := ∀ j c, img[j]? = some c → card j = c

/-- What the kernel finds: the boot ROM has put the first sector at `0x50200000`, and
`init_task_info` the second one into the array `tasks`. -/
structure Booted (card : ℕ → UInt8) (tasks : List UInt8) (m : Mem) : Prop where
  bootSector : ∀ k < SECTOR_SIZE, m (0x50200000 + k) = card k
  taskInfo : tasks = (List.range SECTOR_SIZE).map fun k => card (SECTOR_SIZE + k)

/-- `load_task_img` returns the address of the slot `i`, and the bytes of `f` are there. -/
def Loads (f : InputFile) (i : ℕ) (r : Ptr × Mem) : Prop :=
  r.1 = slot i ∧ r.2.bytes r.1.toNat f.payload.length = f.payload

namespace ImageFiles

variable (F : ImageFiles)

/-- The arguments of `createimage`. -/
def files : List InputFile := F.boot :: F.main :: F.tasks

/-- What the files contain. -/
def contents : Contents := UcasOs.contents F.boot F.main F.tasks

/-- The first byte of the task `i` in the image: the two sectors in front, the kernel and the tasks
before it come first. -/
def beginByte (i : ℕ) : ℕ :=
  1024 + F.main.payload.length + ((F.tasks.take i).flatMap InputFile.payload).length

/-- **The boundaries of the task `i` suit the sectors.**  If the task starts with a sector, its bytes
are the same as those one sector before; if it does not, but its last byte starts a sector, that byte
is in the buffer already. -/
def SectorsSuit (i : ℕ) (f : InputFile) (m : Mem) : Prop :=
  if F.beginByte i % SECTOR_SIZE = 0 then
    (F.contents.image.drop (F.beginByte i - SECTOR_SIZE)).take f.payload.length = f.payload
  else (F.beginByte i + f.payload.length - 1) % SECTOR_SIZE = 0 →
    f.payload.getLast? = some (m (0x52000000 + (F.tasks.length + 1) * 0x10000 +
      F.beginByte i % SECTOR_SIZE + (f.payload.length - 1)))

end ImageFiles

/-! ## The table of the tasks -/

/-- The blocks of one size that make up a list. -/
theorem drop_flatMap {α β : Type} {g : α → List β} {size : ℕ} {l : List α}
    (hg : ∀ x ∈ l, (g x).length = size) (i : ℕ) :
    (l.flatMap g).drop (size * i) = (l.drop i).flatMap g := by
  induction i generalizing l with
  | zero => rfl
  | succ i ih =>
    cases l with
    | nil => simp
    | cons x l =>
      have hx : (g x).length = size := hg x List.mem_cons_self
      rw [List.flatMap_cons, Nat.mul_succ, Nat.add_comm, ← List.drop_drop, ← hx, List.drop_left, hx,
        ih fun y hy => hg y (List.mem_cons_of_mem _ hy), List.drop_succ_cons]

/-- The entry of the task `i`, and those after it. -/
theorem drop_taskInfos {tasks : List (List UInt8 × List UInt8)} {i : ℕ} (hi : i < tasks.length)
    (begin : ℕ) : ∃ rest, (taskInfos begin tasks).drop i =
      ⟨strncpy TASK_NAME_LEN tasks[i].1, begin + ((tasks.take i).flatMap (·.2)).length,
        begin + ((tasks.take i).flatMap (·.2)).length + tasks[i].2.length⟩ :: rest := by
  induction tasks generalizing i begin with
  | nil => contradiction
  | cons t tasks ih =>
    cases i with
    | zero => exact ⟨taskInfos (begin + t.2.length) tasks, rfl⟩
    | succ i =>
      obtain ⟨rest, h⟩ := ih (Nat.lt_of_succ_lt_succ hi) (begin + t.2.length)
      refine ⟨rest, ?_⟩
      rw [taskInfos, List.drop_succ_cons, h]
      simp [Nat.add_assoc]

namespace ImageFiles

variable {F : ImageFiles} {i : ℕ}

theorem contents_kernel : F.contents.kernel = F.main.payload := rfl

theorem tasks_length : F.contents.tasks.length = F.tasks.length := List.length_map _

theorem length_bootSector : F.contents.bootSector.length = 512 :=
  Contents.length_bootSector F.boot_size

theorem length_infoSector : F.contents.infoSector.length = 512 := by
  have hn := F.count_le
  refine Contents.length_infoSector ?_
  rw [tasks_length, TASK_MAXNUM]
  omega

/-- The entry of the task `i` in the sector of the task information. -/
theorem drop_infoSector (hi : i < F.tasks.length) : ∃ rest, F.contents.infoSector.drop (32 * i) =
    strncpy TASK_NAME_LEN F.tasks[i].name ++ (leBytes 4 (F.beginByte i) ++
      (leBytes 4 (F.beginByte i + F.tasks[i].payload.length) ++ rest)) := by
  have hi' : i < F.contents.tasks.length := by rwa [tasks_length]
  obtain ⟨rest, hrest⟩ := drop_taskInfos hi' (1024 + F.contents.kernel.length)
  have hpos : ((F.contents.tasks.take i).flatMap (·.2)).length =
      ((F.tasks.take i).flatMap InputFile.payload).length := by
    simp [contents, UcasOs.contents, ← List.map_take, List.flatMap_map]
  have hlen : 32 * i ≤ (F.contents.infos.flatMap TaskInfo.bytes).length := by
    rw [Contents.infos, Contents.length_flatMap_taskInfos]; omega
  have hsize : ∀ t ∈ F.contents.infos, t.bytes.length = 32 :=
    Contents.length_bytes_taskInfos
  refine ⟨rest.flatMap TaskInfo.bytes ++ List.replicate (512 - 32 * F.contents.tasks.length) 0, ?_⟩
  rw [Contents.infoSector, List.drop_append_of_le_length hlen, drop_flatMap hsize, Contents.infos,
    hrest, hpos]
  simp [TaskInfo.bytes, contents, UcasOs.contents, beginByte]

/-- The task `i` can be found by its name. -/
theorem taskName_infoSector (hi : i < F.tasks.length) :
    taskName F.contents.infoSector i = F.tasks[i].name := by
  obtain ⟨rest, h⟩ := drop_infoSector hi
  have hmem : F.tasks[i] ∈ F.tasks := List.getElem_mem hi
  have hlen := F.name_length _ hmem
  rw [taskName, h]
  exact cString_strncpy (F.name_chars _ hmem) (by rw [TASK_NAME_LEN]; omega) _

theorem taskBegin_infoSector (hi : i < F.tasks.length) (hint : F.beginByte i < 2 ^ 32) :
    (taskBegin F.contents.infoSector i).toNat = F.beginByte i := by
  obtain ⟨rest, h⟩ := drop_infoSector hi
  have hname : (strncpy TASK_NAME_LEN F.tasks[i].name).length = 24 := length_strncpy _ _
  have hfield : field (32 * i + 24) 4 F.contents.infoSector = F.beginByte i := by
    refine field_eq ?_ (by simpa using hint)
    rw [← List.drop_drop, h, List.drop_left' hname, List.take_left' (length_leBytes _ _)]
  rw [taskBegin, hfield, UInt32.toNat_ofNat_of_lt' hint]

theorem taskEnd_infoSector (hi : i < F.tasks.length)
    (hint : F.beginByte i + F.tasks[i].payload.length < 2 ^ 32) :
    (taskEnd F.contents.infoSector i).toNat = F.beginByte i + F.tasks[i].payload.length := by
  obtain ⟨rest, h⟩ := drop_infoSector hi
  have hname : (strncpy TASK_NAME_LEN F.tasks[i].name).length = 24 := length_strncpy _ _
  have hfield : field (32 * i + 28) 4 F.contents.infoSector =
      F.beginByte i + F.tasks[i].payload.length := by
    refine field_eq ?_ (by simpa using hint)
    rw [show 32 * i + 28 = 32 * i + 24 + 4 from rfl, ← List.drop_drop, ← List.drop_drop, h,
      List.drop_left' hname, List.drop_left' (length_leBytes _ _),
      List.take_left' (length_leBytes _ _)]
  rw [taskEnd, hfield, UInt32.toNat_ofNat_of_lt' hint]

/-! ## The image on the card -/

/-- The image has the bytes of the task `i` where its entry says. -/
theorem image_split (hi : i < F.tasks.length) : ∃ before after,
    F.contents.image = before ++ F.tasks[i].payload ++ after ∧ before.length = F.beginByte i := by
  have htasks : F.contents.tasks.flatMap (·.2) = F.tasks.flatMap InputFile.payload := by
    simp [contents, UcasOs.contents, List.flatMap_map]
  have hsplit : F.tasks.flatMap InputFile.payload = (F.tasks.take i).flatMap InputFile.payload ++
      F.tasks[i].payload ++ (F.tasks.drop (i + 1)).flatMap InputFile.payload := by
    conv_lhs => rw [← List.take_append_drop i F.tasks, List.drop_eq_getElem_cons hi]
    rw [List.flatMap_append, List.flatMap_cons, List.append_assoc]
  refine ⟨F.contents.bootSector ++ F.contents.infoSector ++ F.contents.kernel ++
    (F.tasks.take i).flatMap InputFile.payload,
    (F.tasks.drop (i + 1)).flatMap InputFile.payload, ?_, ?_⟩
  · rw [Contents.image, htasks, hsplit]
    simp only [List.append_assoc]
  · simp only [List.length_append]
    rw [length_bootSector, length_infoSector]
    rfl

theorem beginByte_add_le (hi : i < F.tasks.length) :
    F.beginByte i + F.tasks[i].payload.length ≤ F.contents.image.length := by
  obtain ⟨before, after, h, hlen⟩ := image_split hi
  rw [h, ← hlen, List.length_append, List.length_append]
  omega

theorem image_take_drop (hi : i < F.tasks.length) :
    (F.contents.image.drop (F.beginByte i)).take F.tasks[i].payload.length =
      F.tasks[i].payload := by
  obtain ⟨before, after, h, hlen⟩ := image_split hi
  rw [h, ← hlen, List.append_assoc, List.drop_left, List.take_left]

end ImageFiles

section

variable {card : ℕ → UInt8} {img tasks : List UInt8} {m : Mem}

/-- Bytes of the card are bytes of the image. -/
theorem Holds.map_range (h : Holds card img) {pos n : ℕ} (hn : pos + n ≤ img.length) :
    (List.range n).map (fun k => card (pos + k)) = (img.drop pos).take n := by
  apply List.ext_getElem
  · simp; omega
  · intro k hk _
    have hk : k < n := by simpa using hk
    rw [List.getElem_map, List.getElem_range, List.getElem_take, List.getElem_drop]
    exact h _ _ (List.getElem?_eq_getElem (by omega))

/-- The kernel finds the number that is stored behind the boot code. -/
theorem Booted.bootTaskNum_eq (hm : Booted card tasks m) (hcard : Holds card img) {n : ℕ}
    (hn : n < 2 ^ 32) (himg : leBytes 4 n <+: img.drop 504) :
    bootTaskNum m = (UInt32.ofNat n).toInt32 := by
  obtain ⟨rest, himg⟩ := himg
  have hlen : 504 + 4 ≤ img.length := by
    have h := congrArg List.length himg
    rw [List.length_append, length_leBytes, List.length_drop] at h
    omega
  have hbytes : m.bytes 0x502001f8 4 = leBytes 4 n := by
    have hsector : m.bytes 0x502001f8 4 = (List.range 4).map fun k => card (504 + k) := by
      refine List.map_congr_left fun k hk => ?_
      have hk := List.mem_range.1 hk
      have hboot := hm.bootSector (504 + k) (by rw [SECTOR_SIZE]; omega)
      rwa [← Nat.add_assoc] at hboot
    rw [hsector, hcard.map_range hlen, ← himg, List.take_left' (length_leBytes _ _)]
  rw [bootTaskNum, hbytes, ofLeBytes_leBytes, Nat.mod_eq_of_lt (by omega)]

namespace ImageFiles

variable {F : ImageFiles} {i : ℕ}

theorem length_image : F.contents.image.length =
    1024 + F.main.payload.length + (F.tasks.flatMap InputFile.payload).length := by
  have htasks : F.contents.tasks.flatMap (·.2) = F.tasks.flatMap InputFile.payload := by
    simp [contents, UcasOs.contents, List.flatMap_map]
  rw [Contents.image, List.length_append, List.length_append, List.length_append,
    length_bootSector, length_infoSector, htasks]
  rfl

/-- The kernel finds the right number of tasks. -/
theorem bootTaskNum_eq (hcard : Holds card F.contents.image) (hm : Booted card tasks m) :
    bootTaskNum m = (UInt32.ofNat F.tasks.length).toInt32 := by
  have hn := F.count_le
  have hpre : (F.contents.boot ++ List.replicate (0x1f8 - F.contents.boot.length) (0 : UInt8)).length
      = 504 := by
    have hb : F.contents.boot.length ≤ 504 := F.boot_size
    simp; omega
  refine hm.bootTaskNum_eq hcard (by omega) ?_
  rw [Contents.image, Contents.bootSector, tasks_length]
  simp only [List.append_assoc]
  rw [← List.append_assoc, List.drop_left' hpre]
  exact List.prefix_append _ _

theorem taskInfo_eq (hcard : Holds card F.contents.image) (hm : Booted card tasks m) :
    tasks = F.contents.infoSector := by
  have hlen := F.length_image
  rw [hm.taskInfo, SECTOR_SIZE, hcard.map_range (by omega), Contents.image]
  simp only [List.append_assoc]
  rw [List.drop_left' length_bootSector, List.take_left' length_infoSector]

theorem payload_length {f : InputFile} (hf : f ∈ F.tasks) :
    1 ≤ f.payload.length ∧ f.payload.length ≤ 0x10000 := by
  obtain ⟨phdr, bytes, hs, hpos, hsize⟩ := F.one_segment f hf
  have hp : f.payload = bytes := by simp [InputFile.payload, hs]
  rw [hp]
  exact ⟨hpos, hsize⟩

/-- No task before `i` has its name. -/
theorem name_ne (hi : i < F.tasks.length) {j : ℕ} (hj : j < i) :
    F.tasks[j].name ≠ F.tasks[i].name := by
  have h := List.pairwise_map.1 F.names_nodup
  exact List.pairwise_iff_getElem.1 h j i (by omega) hi hj

/-- Every image of such files is that of their contents. -/
theorem image_eq_of_createImage {img : List UInt8} (h : createImage F.files = some img) :
    img = F.contents.image ∧ F.contents.image.length < 2 ^ 31 := by
  have hn : F.tasks.length ≤ TASK_MAXNUM := F.count_le.trans (by decide)
  rw [files, createImage_eq F.boot_name F.boot_size hn] at h
  split at h
  · rename_i hfits
    exact ⟨(Option.some_inj.1 h).symm, hfits.2⟩
  · contradiction

/-- If all files can be read and are not too large, they make an image. -/
theorem createImage_files (h : ∀ f ∈ F.files, f.segments.isSome)
    (hint : F.contents.image.length < 2 ^ 31) : createImage F.files = some F.contents.image := by
  have hn : F.tasks.length ≤ TASK_MAXNUM := F.count_le.trans (by decide)
  rw [files, createImage_eq F.boot_name F.boot_size hn]
  exact if_pos ⟨h, hint⟩

/-- What the loader copies into the slot of the task `i`. -/
theorem loadTaskImg_image {biosSdRead : UInt32 → UInt32 → UInt32 → Mem → Mem}
    (hsd : CopiesSectors biosSdRead card) (hcard : Holds card F.contents.image)
    (hm : Booted card tasks m) (hlen : F.contents.image.length < 2 ^ 31)
    (hi : i < F.tasks.length) :
    (loadTaskImg biosSdRead tasks F.tasks[i].name m).1 = slot i ∧
      ∀ k < F.tasks[i].payload.length,
        (loadTaskImg biosSdRead tasks F.tasks[i].name m).2 ((slot i).toNat + k) =
          if F.beginByte i % 512 = 0 then card (F.beginByte i - 512 + k)
          else if (F.beginByte i + F.tasks[i].payload.length - 1) % 512 = 0 ∧
              k + 1 = F.tasks[i].payload.length then
            m (0x52000000 + (F.tasks.length + 1) * 0x10000 + F.beginByte i % 512 + k)
          else card (F.beginByte i + k) := by
  have hn := F.count_le
  have hend := F.beginByte_add_le hi
  obtain ⟨hpos, hsize⟩ := F.payload_length (List.getElem_mem hi)
  have hbegin : 1024 ≤ F.beginByte i := by rw [beginByte]; omega
  have htasks := taskInfo_eq hcard hm
  have hname : ∀ {j} (hj : j < F.tasks.length), taskName tasks j = F.tasks[j].name := by
    rw [htasks]; exact taskName_infoSector
  have hfirst : ∀ j < i, taskName tasks j ≠ F.tasks[i].name := fun j hj => by
    rw [hname (by omega)]; exact name_ne hi hj
  have hb : (taskBegin tasks i).toNat = F.beginByte i := by
    rw [htasks]; exact taskBegin_infoSector hi (by omega)
  have he : (taskEnd tasks i).toNat = F.beginByte i + F.tasks[i].payload.length := by
    rw [htasks]; exact taskEnd_infoSector hi (by omega)
  have hload := loadTaskImg_apply hsd (by omega) (bootTaskNum_eq hcard hm) hi (hname hi) hfirst hb he
    (by omega) (by omega) (by omega) (by omega)
  rwa [Nat.add_sub_cancel_left] at hload

end ImageFiles

end

/-- A list with another last element is the same list if that was the last element. -/
theorem dropLast_append_eq_iff {α : Type} {l : List α} {x : α} :
    l.dropLast ++ [x] = l ↔ l.getLast? = some x := by
  rw [List.getLast?_eq_some_iff]
  constructor
  · intro h
    exact ⟨_, h.symm⟩
  · rintro ⟨l, rfl⟩
    rw [List.dropLast_concat]

/-- What `load_task_img` does with the image of the contents. -/
theorem ImageFiles.loads_contents_iff (F : ImageFiles) (hint : F.contents.image.length < 2 ^ 31)
    {biosSdRead : UInt32 → UInt32 → UInt32 → Mem → Mem} {card : ℕ → UInt8} {tasks : List UInt8}
    {m : Mem} (hsd : CopiesSectors biosSdRead card) (hcard : Holds card F.contents.image)
    (hm : Booted card tasks m) {i : ℕ} (hi : i < F.tasks.length) :
    Loads F.tasks[i] i (loadTaskImg biosSdRead tasks F.tasks[i].name m) ↔
      F.SectorsSuit i F.tasks[i] m := by
  obtain ⟨hslot, hbytes⟩ := ImageFiles.loadTaskImg_image hsd hcard hm hint hi
  have hend := ImageFiles.beginByte_add_le hi
  have hpos := (F.payload_length (List.getElem_mem hi)).1
  have hbegin : 512 ≤ F.beginByte i := by rw [ImageFiles.beginByte]; omega
  rw [Loads, hslot, ImageFiles.SectorsSuit, SECTOR_SIZE]
  simp only [true_and]
  split
  · rename_i h0
    -- the copy starts one sector too early
    have hcopy : (loadTaskImg biosSdRead tasks F.tasks[i].name m).2.bytes (slot i).toNat
        F.tasks[i].payload.length =
          (F.contents.image.drop (F.beginByte i - 512)).take F.tasks[i].payload.length := by
      rw [← hcard.map_range (by omega)]
      refine List.map_congr_left fun k hk => ?_
      rw [hbytes k (List.mem_range.1 hk), if_pos h0]
    rw [hcopy]
  · rename_i h0
    -- what is read of the task is copied right
    have hcopy : ∀ n ≤ F.tasks[i].payload.length,
        ((F.beginByte i + F.tasks[i].payload.length - 1) % 512 = 0 →
          n < F.tasks[i].payload.length) →
        (loadTaskImg biosSdRead tasks F.tasks[i].name m).2.bytes (slot i).toNat n =
          F.tasks[i].payload.take n := by
      intro n hn hread
      rw [← ImageFiles.image_take_drop hi, List.take_take, Nat.min_eq_left hn,
        ← hcard.map_range (by omega)]
      refine List.map_congr_left fun k hk => ?_
      have hk := List.mem_range.1 hk
      rw [hbytes k (by omega), if_neg h0, if_neg]
      rintro ⟨hl, hkn⟩
      have h := hread hl
      omega
    by_cases hlast : (F.beginByte i + F.tasks[i].payload.length - 1) % 512 = 0
    · -- the last byte is not read
      have hstale := hbytes (F.tasks[i].payload.length - 1) (by omega)
      rw [if_neg h0, if_pos ⟨hlast, by omega⟩] at hstale
      have hsplit : (loadTaskImg biosSdRead tasks F.tasks[i].name m).2.bytes (slot i).toNat
          F.tasks[i].payload.length = F.tasks[i].payload.dropLast ++
            [m (0x52000000 + (F.tasks.length + 1) * 0x10000 + F.beginByte i % 512 +
              (F.tasks[i].payload.length - 1))] := by
        rw [← hstale, List.dropLast_eq_take, ← hcopy _ (by omega) (fun _ => by omega)]
        obtain ⟨n, hn⟩ := Nat.exists_eq_add_of_le' hpos
        rw [hn, Mem.bytes, List.range_succ, List.map_append]
        rfl
      rw [hsplit, dropLast_append_eq_iff]
      exact ⟨fun h _ => h, fun h => h hlast⟩
    · rw [hcopy _ le_rfl (fun h => absurd h hlast), List.take_length]
      exact iff_of_true rfl fun h => absurd h hlast

/-- **`load_task_img` gets the task `i` right exactly if its boundaries suit the sectors.** -/
theorem loads_iff (F : ImageFiles) {img : List UInt8} (himg : createImage F.files = some img)
    {biosSdRead : UInt32 → UInt32 → UInt32 → Mem → Mem} {card : ℕ → UInt8} {tasks : List UInt8}
    {m : Mem} (hsd : CopiesSectors biosSdRead card) (hcard : Holds card img)
    (hm : Booted card tasks m) {i : ℕ} (hi : i < F.tasks.length) :
    Loads F.tasks[i] i (loadTaskImg biosSdRead tasks F.tasks[i].name m) ↔
      F.SectorsSuit i F.tasks[i] m := by
  obtain ⟨rfl, hint⟩ := ImageFiles.image_eq_of_createImage himg
  exact F.loads_contents_iff hint hsd hcard hm hi

/-! ## Images that are loaded right and wrong -/

/-- A card with an image on it. -/
def imageCard (img : List UInt8) (j : ℕ) : UInt8 := img.getD j 0

/-- Copying sectors, as `bios_sd_read` does. -/
def copySectors (card : ℕ → UInt8) (memAddress numOfBlocks blockId : UInt32) (m : Mem) : Mem :=
  fun a =>
    if memAddress.toNat ≤ a ∧ a < memAddress.toNat + SECTOR_SIZE * numOfBlocks.toNat then
      card (SECTOR_SIZE * blockId.toNat + (a - memAddress.toNat))
    else m a

/-- A memory that is zero, except for the boot sector. -/
def bootMemory (card : ℕ → UInt8) : Mem :=
  copySectors card 0x50200000 1 0 fun _ => 0

theorem holds_imageCard (img : List UInt8) : Holds (imageCard img) img := fun j c h => by
  rw [imageCard, List.getD_eq_getElem?_getD, h, Option.getD_some]

theorem booted_bootMemory (card : ℕ → UInt8) : Booted card
    ((List.range SECTOR_SIZE).map fun k => card (SECTOR_SIZE + k)) (bootMemory card) where
  bootSector k hk := by
    have hk : k < 512 := hk
    rw [bootMemory, copySectors, SECTOR_SIZE]
    show (if 0x50200000 ≤ 0x50200000 + k ∧ 0x50200000 + k < 0x50200000 + 512 * 1 then
      card (512 * 0 + (0x50200000 + k - 0x50200000)) else 0) = card k
    rw [if_pos (by omega)]
    exact congrArg card (by omega)
  taskInfo := rfl

/-- A bootblock, a kernel of `n` zeros, and a task of one byte that is not zero. -/
def oneTask (n : ℕ) : ImageFiles where
  boot := ⟨chars "bootblock", elfFile [0x13]⟩
  main := ⟨chars "main", elfFile (List.replicate n 0)⟩
  tasks := [⟨chars "task", elfFile [1]⟩]
  boot_name := rfl
  main_name := rfl
  boot_size := by rw [payload_elfFile _ (by simp) (by decide)]; decide
  one_le_count := by decide
  count_le := by decide
  names_nodup := by simp
  name_length := by simp; decide
  name_chars := by simp; decide
  one_segment f hf := by
    rw [List.mem_singleton.1 hf, segments_elfFile _ (by simp) (by decide)]
    exact ⟨_, _, rfl, by decide, by decide⟩

section

variable {n : ℕ} (hn : 1 ≤ n ∧ n < 2 ^ 30)
include hn

theorem segments_oneTask : ∀ f ∈ (oneTask n).files, f.segments.isSome := by
  have hzeros : (List.replicate n (0 : UInt8)) ≠ [] := by simp; omega
  have hmain := segments_elfFile (chars "main") hzeros (by rw [List.length_replicate]; omega)
  simp [ImageFiles.files, oneTask, hmain, segments_elfFile]

theorem payload_oneTask : (oneTask n).main.payload = List.replicate n 0 :=
  payload_elfFile _ (by simp; omega) (by rw [List.length_replicate]; omega)

theorem length_image_oneTask : (oneTask n).contents.image.length = 1024 + n + 1 := by
  have htask : ((oneTask n).tasks.flatMap InputFile.payload).length = 1 := by
    simp [oneTask, payload_elfFile]
  rw [ImageFiles.length_image, payload_oneTask hn, List.length_replicate, htask]

omit hn in
theorem payload_task_oneTask (hi : 0 < (oneTask n).tasks.length) :
    (oneTask n).tasks[0].payload = [1] := by
  simp [oneTask, payload_elfFile]

/-- The first byte after the two sectors is the first of the kernel. -/
theorem drop_image_oneTask : ∃ rest, (oneTask n).contents.image.drop 1024 = 0 :: rest := by
  obtain ⟨l, hl⟩ := Nat.exists_eq_add_of_le' hn.1
  have hpre : ((oneTask n).contents.bootSector ++ (oneTask n).contents.infoSector).length = 1024 := by
    rw [List.length_append, ImageFiles.length_bootSector, ImageFiles.length_infoSector]
  have hkernel : (oneTask n).contents.kernel = 0 :: List.replicate l 0 := by
    rw [← List.replicate_succ, ← hl, ImageFiles.contents_kernel, payload_oneTask hn]
  refine ⟨List.replicate l 0 ++ (oneTask n).contents.tasks.flatMap (·.2), ?_⟩
  rw [Contents.image, List.append_assoc, List.drop_left' hpre, hkernel, List.cons_append]

theorem beginByte_oneTask : (oneTask n).beginByte 0 = 1024 + n := by
  rw [ImageFiles.beginByte, payload_oneTask hn, List.length_replicate]
  rfl

end

/-- A bootblock, a kernel of `n` zeros, and tasks of five bytes and of two. -/
def twoTasks (n : ℕ) : ImageFiles where
  boot := ⟨chars "bootblock", elfFile [0x13]⟩
  main := ⟨chars "main", elfFile (List.replicate n 0)⟩
  tasks := [⟨chars "first", elfFile [1, 2, 3, 4, 5]⟩, ⟨chars "second", elfFile [6, 7]⟩]
  boot_name := rfl
  main_name := rfl
  boot_size := by rw [payload_elfFile _ (by simp) (by decide)]; decide
  one_le_count := by decide
  count_le := by decide
  names_nodup := by simp; decide
  name_length := by simp; decide
  name_chars := by simp; decide
  one_segment := by
    rw [List.forall_mem_cons, List.forall_mem_singleton]
    exact ⟨⟨_, _, segments_elfFile _ (by simp) (by decide), by decide, by decide⟩,
      ⟨_, _, segments_elfFile _ (by simp) (by decide), by decide, by decide⟩⟩

section

variable {n : ℕ} (hn : 1 ≤ n ∧ n < 2 ^ 30)
include hn

theorem payload_twoTasks : (twoTasks n).main.payload = List.replicate n 0 :=
  payload_elfFile _ (by simp; omega) (by rw [List.length_replicate]; omega)

theorem createImage_twoTasks :
    createImage (twoTasks n).files = some (twoTasks n).contents.image := by
  have hzeros : (List.replicate n (0 : UInt8)) ≠ [] := by simp; omega
  have hmain := segments_elfFile (chars "main") hzeros (by rw [List.length_replicate]; omega)
  have htasks : ((twoTasks n).tasks.flatMap InputFile.payload).length = 7 := by
    simp [twoTasks, payload_elfFile]
  refine ImageFiles.createImage_files ?_ ?_
  · simp [ImageFiles.files, twoTasks, hmain, segments_elfFile]
  · rw [ImageFiles.length_image, payload_twoTasks hn, List.length_replicate, htasks]
    omega

theorem beginByte_twoTasks : (twoTasks n).beginByte 0 = 1024 + n ∧
    (twoTasks n).beginByte 1 = 1024 + n + 5 := by
  have hfirst : (((twoTasks n).tasks.take 1).flatMap InputFile.payload).length = 5 := by
    simp [twoTasks, payload_elfFile]
  rw [ImageFiles.beginByte, ImageFiles.beginByte, payload_twoTasks hn, List.length_replicate, hfirst]
  exact ⟨rfl, rfl⟩

omit hn in
theorem length_payload_twoTasks : (twoTasks n).tasks.map (·.payload.length) = [5, 2] := by
  simp [twoTasks, payload_elfFile]

/-- If the first task starts two bytes before the end of a sector, no boundary of a task is one of a
sector. -/
theorem sectorsSuit_twoTasks (hmod : n % 512 = 510) {i : ℕ} (hi : i < (twoTasks n).tasks.length)
    (m : Mem) : (twoTasks n).SectorsSuit i (twoTasks n).tasks[i] m := by
  obtain ⟨hfirst, hsecond⟩ := beginByte_twoTasks hn
  have hlength : [5, 2][i]? = some (twoTasks n).tasks[i].payload.length := by
    rw [← length_payload_twoTasks (n := n), List.getElem?_map, List.getElem?_eq_getElem hi,
      Option.map_some]
  rw [ImageFiles.SectorsSuit, SECTOR_SIZE]
  generalize (twoTasks n).tasks[i].payload.length = len at hlength ⊢
  have hlt : i < 2 := hi
  obtain rfl | rfl : i = 0 ∨ i = 1 := by omega
  · obtain rfl := Option.some_inj.1 hlength
    rw [hfirst, if_neg (by omega)]
    omega
  · obtain rfl := Option.some_inj.1 hlength
    rw [hsecond, if_neg (by omega)]
    omega

end

/-- A task in two sectors, and the one behind it. -/
theorem loads_twoTasks : ∃ img biosSdRead card tasks m,
    createImage (twoTasks 510).files = some img ∧ CopiesSectors biosSdRead card ∧
    Holds card img ∧ Booted card tasks m ∧ ∀ i (hi : i < (twoTasks 510).tasks.length),
      Loads (twoTasks 510).tasks[i] i
        (loadTaskImg biosSdRead tasks (twoTasks 510).tasks[i].name m) := by
  obtain ⟨n, h510⟩ : ∃ n, n = 510 := ⟨_, rfl⟩
  have hn : 1 ≤ n ∧ n < 2 ^ 30 := by omega
  rw [← h510]
  have himg := createImage_twoTasks hn
  have hsd : CopiesSectors (copySectors (imageCard (twoTasks n).contents.image)) _ :=
    fun _ _ _ _ _ => rfl
  have hcard := holds_imageCard (twoTasks n).contents.image
  have hm := booted_bootMemory (imageCard (twoTasks n).contents.image)
  exact ⟨_, _, _, _, _, himg, hsd, hcard, hm, fun i hi =>
    (loads_iff _ himg hsd hcard hm hi).2 (sectorsSuit_twoTasks hn (by omega) hi _)⟩

/-- **A kernel that fills its last sector is loaded instead of the task after it.** -/
theorem loads_fails : ¬ ∀ (F : ImageFiles) (img : List UInt8), createImage F.files = some img →
    ∀ biosSdRead card tasks m, CopiesSectors biosSdRead card → Holds card img →
      Booted card tasks m → ∀ i (hi : i < F.tasks.length),
        Loads F.tasks[i] i (loadTaskImg biosSdRead tasks F.tasks[i].name m) := by
  intro h
  have hn : 1 ≤ 512 ∧ 512 < 2 ^ 30 := by decide
  have hint : (oneTask 512).contents.image.length < 2 ^ 31 := by
    rw [length_image_oneTask hn]; decide
  have hsd : CopiesSectors (copySectors (imageCard (oneTask 512).contents.image)) _ :=
    fun _ _ _ _ _ => rfl
  have hcard := holds_imageCard (oneTask 512).contents.image
  have hm := booted_bootMemory (imageCard (oneTask 512).contents.image)
  have hload := h (oneTask 512) _ (ImageFiles.createImage_files (segments_oneTask hn) hint)
    _ _ _ _ hsd hcard hm 0 (by decide)
  rw [ImageFiles.loads_contents_iff _ hint hsd hcard hm, ImageFiles.SectorsSuit,
    beginByte_oneTask hn, if_pos (by decide)] at hload
  obtain ⟨rest, hrest⟩ := drop_image_oneTask hn
  rw [payload_task_oneTask, show 1024 + 512 - SECTOR_SIZE = 1024 from rfl, hrest] at hload
  exact absurd hload (by simp)

end UcasOs
