import UcasOs.Image.RoundTrip

/-!
# The table of the tasks, whatever its size

`createImage_eq` is about bootblocks that leave room for what `write_img_info` puts into their
sector, and about tables that fit into `taskinfo[]`.  This is about all of them.

* `rawImage` — the files one after the other, the bootblock padded to two sectors.
* `imgInfo` — what `write_img_info` writes over it, from byte `0x1f8` on.
* `createImage_eq_overwrite` — `createImage` is the one written over the other, and it fails exactly
  for files that cannot be read, images that are too large, and tasks that `taskinfo[]` has no
  entry for.
-/

set_option autoImplicit false

namespace UcasOs

/-- The bootblock and its padding. -/
def paddedBoot (boot : InputFile) : List UInt8 :=
  boot.payload ++ List.replicate (1024 - boot.payload.length) 0

/-- The image before `write_img_info`. -/
def rawImage (boot main : InputFile) (tasks : List InputFile) : List UInt8 :=
  paddedBoot boot ++ main.payload ++ tasks.flatMap InputFile.payload

/-- The entries of the tasks. -/
def tableOf (boot main : InputFile) (tasks : List InputFile) : List TaskInfo :=
  taskInfos ((paddedBoot boot).length + main.payload.length)
    (tasks.map fun f => (f.name, f.payload))

/-- The number of tasks, the size of the kernel and the table. -/
def imgInfo (boot main : InputFile) (tasks : List InputFile) : List UInt8 :=
  leBytes 4 tasks.length
    ++ leBytes 4
      (NBYTES2SEC ((boot :: main :: tasks).foldl InputFile.addToKernel 0)).toUInt32.toNat
    ++ (tableOf boot main tasks).flatMap TaskInfo.bytes

section

variable {boot main : InputFile} {tasks : List InputFile}

theorem length_paddedBoot (boot : InputFile) :
    (paddedBoot boot).length = max boot.payload.length 1024 := by
  rw [paddedBoot, List.length_append, List.length_replicate]
  omega

/-- The padding is zero. -/
theorem getD_paddedBoot (boot : InputFile) (k : ℕ) :
    (paddedBoot boot).getD k 0 = boot.payload.getD k 0 := by
  rw [paddedBoot, List.getD_eq_getElem?_getD, List.getD_eq_getElem?_getD, List.getElem?_append]
  split
  next => rfl
  next hk =>
    rw [List.getElem?_eq_none (Nat.le_of_not_lt hk), List.getElem?_replicate]
    split
    next => rfl
    next => rfl

theorem le_length_rawImage (boot main : InputFile) (tasks : List InputFile) :
    1024 ≤ (rawImage boot main tasks).length := by
  rw [rawImage, List.length_append, List.length_append, length_paddedBoot]
  omega

theorem length_tableOf : (tableOf boot main tasks).length = tasks.length := by
  rw [tableOf, Contents.length_taskInfos, List.length_map]

theorem length_imgInfo : (imgInfo boot main tasks).length = 8 + 32 * tasks.length := by
  rw [imgInfo, tableOf, List.length_append, List.length_append, length_leBytes, length_leBytes,
    Contents.length_flatMap_taskInfos, List.length_map]

/-- The file after the bootblock starts behind the padding. -/
theorem writeFile_bootblock (hboot : boot.name = chars "bootblock") : writeFile boot {} =
      if boot.segments.isSome ∧ boot.payload.length < 2 ^ 31 then
        some { img := paddedBoot boot
               phyaddr := (paddedBoot boot).length
               nbytesKernel := boot.addToKernel 0 }
      else none := by
  have hadd : writePadding (SECTOR_SIZE * 2) (Output.add boot {}) =
      { img := paddedBoot boot
        phyaddr := (paddedBoot boot).length
        nbytesKernel := boot.addToKernel 0 } := by
    rw [length_paddedBoot]
    simp [Output.add, writePadding, SECTOR_SIZE, paddedBoot]
  rw [writeFile_eq _ _ (by decide), if_pos hboot, hadd]
  simp only [Nat.zero_add]

/-- There is no entry for the task after the last one of `taskinfo[]`. -/
theorem createImageLoop_full (fs : List InputFile) (fidx : ℕ) (out : Output) (hidx : 2 ≤ fidx)
    (hn : TASK_MAXNUM < fidx - 2 + fs.length) (hle : fidx - 2 ≤ TASK_MAXNUM) :
    createImageLoop fidx fs out = none := by
  induction fs generalizing fidx out with
  | nil =>
    rw [List.length_nil] at hn
    omega
  | cons f fs ih =>
    rw [List.length_cons] at hn
    rw [createImageLoop, if_pos hidx]
    split
    next hroom =>
      cases hwrite : writeFile f out with
      | none => rfl
      | some out' => exact ih (fidx + 1) _ (by omega) (by omega) (by omega)
    next => rfl

/-- The files one after the other, with an entry for each task. -/
theorem createImageLoop_files (hboot : boot.name = chars "bootblock") :
    createImageLoop 0 (boot :: main :: tasks) {} =
      if (∀ f ∈ boot :: main :: tasks, f.segments.isSome) ∧
          (rawImage boot main tasks).length < 2 ^ 31 ∧ tasks.length ≤ TASK_MAXNUM then
        some
          { img := rawImage boot main tasks
            phyaddr := (rawImage boot main tasks).length
            nbytesKernel := (boot :: main :: tasks).foldl InputFile.addToKernel 0
            taskinfo := tableOf boot main tasks }
      else none := by
  have hpad : SECTOR_SIZE * 2 ≤ (paddedBoot boot).length := by
    rw [length_paddedBoot, SECTOR_SIZE]
    omega
  have hlen : (rawImage boot main tasks).length = (paddedBoot boot).length + main.payload.length
      + (tasks.flatMap InputFile.payload).length := by
    rw [rawImage, List.length_append, List.length_append]
  rw [createImageLoop, if_neg (by decide), writeFile_bootblock hboot]
  by_cases hb : boot.segments.isSome ∧ boot.payload.length < 2 ^ 31
  · have hb' : (paddedBoot boot).length < 2 ^ 31 := by
      rw [length_paddedBoot]
      omega
    rw [if_pos hb]
    simp only [Option.bind_eq_bind, Option.bind_some]
    rw [createImageLoop, if_neg (by decide), writeFile_eq _ _ (by exact hb')]
    by_cases hm : main.segments.isSome ∧ (paddedBoot boot).length + main.payload.length < 2 ^ 31
    · rw [if_pos hm, writePadding_of_le (by exact Nat.le_trans hpad (Nat.le_add_right _ _)),
        ite_self]
      simp only [Option.bind_eq_bind, Option.bind_some]
      by_cases hn : tasks.length ≤ TASK_MAXNUM
      · rw [createImageLoop_eq _ _ _ (by decide) (by simpa using hn)
          (by exact Nat.le_trans hpad (Nat.le_add_right _ _)) hm.2]
        simp [Output.add, hb.1, hm.1, hn, tableOf, rawImage, Nat.add_assoc]
      · rw [createImageLoop_full _ _ _ (by decide) (by omega) (by decide), if_neg]
        exact fun h => hn h.2.2
    · rw [if_neg hm, if_neg]
      · rfl
      · rintro ⟨hall, hlt, -⟩
        exact hm ⟨hall main (by simp), by omega⟩
  · rw [if_neg hb, if_neg]
    · rfl
    · rintro ⟨hall, hlt, -⟩
      rw [length_paddedBoot] at hlen
      exact hb ⟨hall boot List.mem_cons_self, by omega⟩

/-- **`create_image`, for any bootblock and any number of tasks.** -/
theorem createImage_eq_overwrite (hboot : boot.name = chars "bootblock") :
    createImage (boot :: main :: tasks) =
      if (∀ f ∈ boot :: main :: tasks, f.segments.isSome) ∧
          (rawImage boot main tasks).length < 2 ^ 31 ∧ tasks.length ≤ TASK_MAXNUM then
        some (overwrite 0x1f8 (imgInfo boot main tasks) (rawImage boot main tasks))
      else none := by
  have hcount : (boot :: main :: tasks).length - 2 = tasks.length := by
    rw [List.length_cons, List.length_cons]
    omega
  have hall : (tableOf boot main tasks).take tasks.length = tableOf boot main tasks :=
    List.take_of_length_le (Nat.le_of_eq length_tableOf)
  rw [createImage, createImageLoop_files hboot, hcount]
  split
  next =>
    simp only [Option.bind_eq_bind, Option.bind_some]
    rw [writeImgInfo, hall, imgInfo]
    rfl
  next => rfl

end

end UcasOs
