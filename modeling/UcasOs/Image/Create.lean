import UcasOs.Image.Elf

/-!
# Writing the image

`tools/createimage.c`, the functions that write.  `phyaddr` and `nbytes_kernel` are `int`s: the
first counts bytes and must not overflow, so that `none` is also an image that is too large, and the
second is a sum of `uint32_t`s.

* `createImage` — the whole of `create_image`.
* `Contents.image` — what an image is meant to be: the boot sector, the sector with the task
  information, and the bytes of the kernel and of all tasks, one after the other.
* `createImage_eq` — `createImage` writes just that.
-/

set_option autoImplicit false

namespace UcasOs

/-- `SECTOR_SIZE` -/
def SECTOR_SIZE : ℕ := 512

/-- `NBYTES2SEC(nbytes)`, in whatever type `nbytes` has. -/
def NBYTES2SEC {α : Type} [DecidableEq α] [Add α] [Div α] [Mod α] [OfNat α 0] [OfNat α 1]
    [OfNat α 512] (nbytes : α) : α :=
  nbytes / 512 + if nbytes % 512 ≠ 0 then 1 else 0

/-- `TASK_NAME_LEN` -/
def TASK_NAME_LEN : ℕ := 24

/-- `TASK_MAXNUM` -/
def TASK_MAXNUM : ℕ := 16

/-- `task_info_t` -/
structure TaskInfo where
  name : List UInt8
  /-- `begin` -/
  beginByte : ℕ
  /-- `end`, not included. -/
  endByte : ℕ

/-- A `task_info_t` in memory. -/
def TaskInfo.bytes (t : TaskInfo) : List UInt8 := t.name ++ leBytes 4 t.beginByte ++ leBytes 4 t.endByte

/-- The characters of a string literal. -/
def chars (s : String) : List UInt8 := s.toList.map fun c => UInt8.ofNat c.toNat

/-- The local variables of `create_image`, and the array `taskinfo` as far as it is filled in. -/
structure Output where
  img : List UInt8 := []
  phyaddr : ℕ := 0
  nbytesKernel : Int32 := 0
  taskinfo : List TaskInfo := []

/-- `fputc(c, img); (*phyaddr)++` -/
def Output.putc (c : UInt8) (out : Output) : Option Output :=
  if out.phyaddr + 1 < 2 ^ 31 then
    some { out with img := out.img ++ [c], phyaddr := out.phyaddr + 1 }
  else none

/-- The loop of `write_segment`. -/
def writeSegmentLoop : ℕ → Stream → Output → Option (Stream × Output)
  | 0, fp, out => some (fp, out)
  | n + 1, fp, out => do
    let (c, fp) := fp.fgetc
    let out ← out.putc c
    writeSegmentLoop n fp out

/-- `write_segment` -/
def writeSegment (phdr : Elf64Phdr) (fp : Stream) (out : Output) : Option (Stream × Output) :=
  if phdr.pMemsz ≠ 0 ∧ phdr.pType = PT_LOAD then
    writeSegmentLoop phdr.pFilesz (fp.fseek phdr.pOffset) out
  else some (fp, out)

/-- `write_padding` -/
def writePadding (newPhyaddr : ℕ) (out : Output) : Output :=
  { out with img := out.img ++ List.replicate (newPhyaddr - out.phyaddr) 0
             phyaddr := max out.phyaddr newPhyaddr }

/-- The loop over the program headers, from header `ph` on. -/
def writeSegments (name : List UInt8) (ehdr : Elf64Ehdr) :
    ℕ → ℕ → Stream → Output → Option Output
  | 0, _, _, out => some out
  | n + 1, ph, fp, out => do
    let (phdr, fp) ← readPhdr fp ph ehdr
    if phdr.pType ≠ PT_LOAD then writeSegments name ehdr n (ph + 1) fp out
    else
      let (fp, out) ← writeSegment phdr fp out
      let out :=
        if name = chars "main" then
          { out with nbytesKernel := out.nbytesKernel + (UInt32.ofNat phdr.pFilesz).toInt32 }
        else out
      writeSegments name ehdr n (ph + 1) fp out

/-- What the loop of `create_image` does about one file. -/
def writeFile (f : InputFile) (out : Output) : Option Output := do
  let (ehdr, fp) ← readEhdr ⟨f.content, 0⟩
  let out ← writeSegments f.name ehdr ehdr.ePhnum 0 fp out
  return if f.name = chars "bootblock" then writePadding (SECTOR_SIZE * 2) out else out

/-- The loop of `create_image`, from file `fidx` on. -/
def createImageLoop : ℕ → List InputFile → Output → Option Output
  | _, [], out => some out
  | fidx, f :: files, out =>
    if 2 ≤ fidx then
      if fidx - 2 < TASK_MAXNUM then do
        let begin := out.phyaddr
        let out ← writeFile f out
        let info := ⟨strncpy TASK_NAME_LEN f.name, begin, out.phyaddr⟩
        createImageLoop (fidx + 1) files { out with taskinfo := out.taskinfo ++ [info] }
      else none
    else do
      let out ← writeFile f out
      createImageLoop (fidx + 1) files out

/-- `write_img_info`, whose three `fwrite`s write one after the other. -/
def writeImgInfo (nbytesKernel : Int32) (taskinfo : List TaskInfo) (tasknum : ℕ)
    (img : List UInt8) : List UInt8 :=
  let osSize := (NBYTES2SEC nbytesKernel).toUInt32
  overwrite 0x1f8
    (leBytes 4 tasknum ++ leBytes 4 osSize.toNat ++ (taskinfo.take tasknum).flatMap TaskInfo.bytes)
    img

/-- `create_image`: the image that the files `files` make. -/
def createImage (files : List InputFile) : Option (List UInt8) := do
  let out ← createImageLoop 0 files {}
  return writeImgInfo out.nbytesKernel out.taskinfo (files.length - 2) out.img

/-! ## What an image is meant to be -/

/-- The entries for tasks of which the first one is at `begin`. -/
def taskInfos : ℕ → List (List UInt8 × List UInt8) → List TaskInfo
  | _, [] => []
  | begin, (name, data) :: tasks =>
    ⟨strncpy TASK_NAME_LEN name, begin, begin + data.length⟩ ::
      taskInfos (begin + data.length) tasks

/-- What goes into an image. -/
structure Contents where
  /-- The bytes of the bootblock. -/
  boot : List UInt8
  /-- The bytes of the kernel. -/
  kernel : List UInt8
  /-- `os_size` -/
  osSize : UInt32
  /-- The names of the tasks, and their bytes. -/
  tasks : List (List UInt8 × List UInt8)

namespace Contents

/-- The sector of the boot loader. -/
def bootSector (c : Contents) : List UInt8 :=
  c.boot ++ List.replicate (0x1f8 - c.boot.length) 0 ++ leBytes 4 c.tasks.length ++
    leBytes 4 c.osSize.toNat

/-- The entries of the tasks. -/
def infos (c : Contents) : List TaskInfo := taskInfos (1024 + c.kernel.length) c.tasks

/-- The sector of the task information. -/
def infoSector (c : Contents) : List UInt8 :=
  c.infos.flatMap TaskInfo.bytes ++ List.replicate (512 - 32 * c.tasks.length) 0

/-- The image. -/
def image (c : Contents) : List UInt8 :=
  c.bootSector ++ c.infoSector ++ c.kernel ++ c.tasks.flatMap (·.2)

@[simp] theorem length_taskInfos (begin : ℕ) (tasks : List (List UInt8 × List UInt8)) :
    (taskInfos begin tasks).length = tasks.length := by
  induction tasks generalizing begin with
  | nil => rfl
  | cons t tasks ih => rw [taskInfos, List.length_cons, ih, List.length_cons]

/-- An entry takes 32 bytes. -/
theorem length_bytes_taskInfos {begin : ℕ} {tasks : List (List UInt8 × List UInt8)} :
    ∀ t ∈ taskInfos begin tasks, t.bytes.length = 32 := by
  induction tasks generalizing begin with
  | nil => simp [taskInfos]
  | cons t tasks ih =>
    rw [taskInfos]
    rintro x (_ | ⟨_, hx⟩)
    · simp [TaskInfo.bytes, TASK_NAME_LEN]
    · exact ih x hx

theorem length_flatMap_taskInfos (begin : ℕ) (tasks : List (List UInt8 × List UInt8)) :
    ((taskInfos begin tasks).flatMap TaskInfo.bytes).length = 32 * tasks.length := by
  rw [List.length_flatMap, List.map_congr_left length_bytes_taskInfos, List.map_const',
    List.sum_replicate_nat, length_taskInfos, Nat.mul_comm]

theorem length_bootSector {c : Contents} (hboot : c.boot.length ≤ 0x1f8) :
    c.bootSector.length = 512 := by
  simp [bootSector]; omega

theorem length_infoSector {c : Contents} (hn : c.tasks.length ≤ TASK_MAXNUM) :
    c.infoSector.length = 512 := by
  have hn : c.tasks.length ≤ 16 := hn
  rw [infoSector, infos, List.length_append, length_flatMap_taskInfos, List.length_replicate]
  omega

end Contents

/-- What one file adds to `nbytes_kernel`. -/
def InputFile.addToKernel (n : Int32) (f : InputFile) : Int32 :=
  if f.name = chars "main" then
    (f.segments.getD []).foldl (fun n s => n + (UInt32.ofNat s.1.pFilesz).toInt32) n
  else n

/-- What the files `boot`, `main` and `tasks` contain. -/
def contents (boot main : InputFile) (tasks : List InputFile) : Contents where
  boot := boot.payload
  kernel := main.payload
  osSize := (NBYTES2SEC ((boot :: main :: tasks).foldl InputFile.addToKernel 0)).toUInt32
  tasks := tasks.map fun f => (f.name, f.payload)

/-! ## `create_image` writes it -/

namespace Output

/-- All the segments of a file, written one after the other. -/
def append (name : List UInt8) (segs : List (Elf64Phdr × List UInt8)) (out : Output) : Output :=
  { out with
    img := out.img ++ segs.flatMap (·.2)
    phyaddr := out.phyaddr + (segs.flatMap (·.2)).length
    nbytesKernel :=
      if name = chars "main" then
        segs.foldl (fun n s => n + (UInt32.ofNat s.1.pFilesz).toInt32) out.nbytesKernel
      else out.nbytesKernel }

/-- The segments of `f`, without any padding. -/
def add (f : InputFile) (out : Output) : Output :=
  { out with
    img := out.img ++ f.payload
    phyaddr := out.phyaddr + f.payload.length
    nbytesKernel := f.addToKernel out.nbytesKernel }

end Output

/-- The loop of `write_segment` appends what it reads, if `phyaddr` does not overflow. -/
theorem writeSegmentLoop_eq (n : ℕ) (fp : Stream) (out : Output) (h : out.phyaddr < 2 ^ 31) :
    writeSegmentLoop n fp out =
      if out.phyaddr + n < 2 ^ 31 then
        some ((fp.fgetcs n).2,
          { out with img := out.img ++ (fp.fgetcs n).1, phyaddr := out.phyaddr + n })
      else none := by
  induction n generalizing fp out with
  | zero => simpa [writeSegmentLoop, Stream.fgetcs] using h
  | succ n ih =>
    rw [writeSegmentLoop]
    dsimp only
    rw [Output.putc]
    by_cases h1 : out.phyaddr + 1 < 2 ^ 31
    · rw [if_pos h1, Option.bind_eq_bind, Option.bind_some, ih _ _ h1]
      simp only [Stream.fgetcs, List.append_assoc, List.singleton_append, Nat.add_assoc,
        Nat.add_comm 1 n]
    · rw [if_neg h1, if_neg (by omega)]
      rfl

/-- `write_segment` appends what it reads. -/
theorem writeSegment_eq {phdr : Elf64Phdr} (ht : phdr.pType = PT_LOAD) (fp : Stream) (out : Output)
    (h : out.phyaddr < 2 ^ 31) : writeSegment phdr fp out =
      if out.phyaddr + (readSegment phdr fp).1.length < 2 ^ 31 then
        some ((readSegment phdr fp).2, { out with
          img := out.img ++ (readSegment phdr fp).1
          phyaddr := out.phyaddr + (readSegment phdr fp).1.length })
      else none := by
  by_cases hm : phdr.pMemsz = 0
  · simpa [writeSegment, readSegment, hm] using h
  · rw [writeSegment, if_pos ⟨hm, ht⟩, writeSegmentLoop_eq _ _ _ h, readSegment, if_pos hm,
      Stream.length_fgetcs]

/-- The loop over the program headers appends what it reads. -/
theorem writeSegments_eq (name : List UInt8) (ehdr : Elf64Ehdr) (n ph : ℕ) (fp : Stream)
    (out : Output) (h : out.phyaddr < 2 ^ 31) :
    writeSegments name ehdr n ph fp out = (readSegments ehdr n ph fp).bind fun segs =>
      if out.phyaddr + (segs.flatMap (·.2)).length < 2 ^ 31 then some (out.append name segs)
      else none := by
  induction n generalizing ph fp out with
  | zero => simpa [writeSegments, readSegments, Output.append] using h
  | succ n ih =>
    rw [writeSegments, readSegments]
    cases hp : readPhdr fp ph ehdr with
    | none => rfl
    | some r =>
      obtain ⟨phdr, fp⟩ := r
      simp only [Option.bind_eq_bind, Option.bind_some]
      by_cases ht : phdr.pType ≠ PT_LOAD
      · rw [if_pos ht, if_pos ht, ih _ _ _ h]
      · rw [if_neg ht, if_neg ht, writeSegment_eq (not_not.1 ht) _ _ h]
        by_cases h1 : out.phyaddr + (readSegment phdr fp).1.length < 2 ^ 31
        · rw [if_pos h1]
          simp only [Option.bind_some, Option.bind_assoc]
          split
          all_goals
            rename_i hname
            rw [ih _ _ _ h1]
            congr 1
            funext rest
            simp [Output.append, hname, Nat.add_assoc]
        · rw [if_neg h1]
          cases readSegments ehdr n (ph + 1) (readSegment phdr fp).2 with
          | none => rfl
          | some rest =>
            have hlong : ¬ out.phyaddr +
                (((phdr, (readSegment phdr fp).1) :: rest).flatMap (·.2)).length < 2 ^ 31 := by
              rw [List.flatMap_cons, List.length_append]
              dsimp only
              omega
            exact (if_neg hlong).symm

/-- What one file adds to the image, padding included. -/
theorem writeFile_eq (f : InputFile) (out : Output) (h : out.phyaddr < 2 ^ 31) :
    writeFile f out =
      if f.segments.isSome ∧ out.phyaddr + f.payload.length < 2 ^ 31 then
        some (if f.name = chars "bootblock" then writePadding (SECTOR_SIZE * 2) (out.add f)
          else out.add f)
      else none := by
  have hsegs : f.segments = (readEhdr ⟨f.content, 0⟩).bind
      fun r => readSegments r.1 r.1.ePhnum 0 r.2 := rfl
  have hwrite : writeFile f out = f.segments.bind fun segs =>
      if out.phyaddr + (segs.flatMap (·.2)).length < 2 ^ 31 then
        some (if f.name = chars "bootblock" then
          writePadding (SECTOR_SIZE * 2) (out.append f.name segs) else out.append f.name segs)
      else none := by
    rw [writeFile, hsegs, Option.bind_assoc]
    congr 1
    funext ⟨ehdr, fp⟩
    dsimp only
    rw [writeSegments_eq _ _ _ _ _ _ h, Option.bind_eq_bind, Option.bind_assoc]
    congr 1
    funext segs
    split <;> rfl
  rw [hwrite]
  cases hf : f.segments with
  | none => simp
  | some segs =>
    have hpayload : f.payload = segs.flatMap (·.2) := by rw [InputFile.payload, hf]; rfl
    have hadd : out.add f = out.append f.name segs := by
      rw [Output.add, Output.append, InputFile.addToKernel, hpayload, hf]; rfl
    rw [Option.bind_some, hadd, hpayload]
    simp

/-- Only a bootblock is padded: after it, the image is long enough. -/
theorem writePadding_of_le {newPhyaddr : ℕ} {out : Output} (h : newPhyaddr ≤ out.phyaddr) :
    writePadding newPhyaddr out = out := by
  rw [writePadding, Nat.sub_eq_zero_of_le h, List.replicate_zero, List.append_nil, Nat.max_eq_left h]

/-- The image after the tasks `fs`. -/
theorem createImageLoop_eq (fs : List InputFile) (fidx : ℕ) (out : Output) (hidx : 2 ≤ fidx)
    (hn : fidx - 2 + fs.length ≤ TASK_MAXNUM) (hboot : SECTOR_SIZE * 2 ≤ out.phyaddr)
    (h : out.phyaddr < 2 ^ 31) :
    createImageLoop fidx fs out =
      if (∀ f ∈ fs, f.segments.isSome) ∧
          out.phyaddr + (fs.flatMap InputFile.payload).length < 2 ^ 31 then
        some
          { img := out.img ++ fs.flatMap InputFile.payload
            phyaddr := out.phyaddr + (fs.flatMap InputFile.payload).length
            nbytesKernel := fs.foldl InputFile.addToKernel out.nbytesKernel
            taskinfo :=
              out.taskinfo ++ taskInfos out.phyaddr (fs.map fun f => (f.name, f.payload)) }
      else none := by
  induction fs generalizing fidx out with
  | nil => simpa [createImageLoop, taskInfos] using h
  | cons f fs ih =>
    rw [List.length_cons] at hn
    rw [createImageLoop, if_pos hidx, if_pos (by omega)]
    dsimp only
    rw [writeFile_eq f out h]
    by_cases hf : f.segments.isSome ∧ out.phyaddr + f.payload.length < 2 ^ 31
    · have hpad : writePadding (SECTOR_SIZE * 2) (out.add f) = out.add f :=
        writePadding_of_le (Nat.le_trans hboot (Nat.le_add_right _ _))
      rw [if_pos hf, hpad, ite_self, Option.bind_eq_bind, Option.bind_some,
        ih _ _ (by omega) (by omega) (Nat.le_trans hboot (Nat.le_add_right _ _)) hf.2]
      simp [Output.add, taskInfos, hf.1, Nat.add_assoc]
    · rw [if_neg hf, if_neg]
      · rfl
      · rintro ⟨hall, hlt⟩
        rw [List.flatMap_cons, List.length_append] at hlt
        exact hf ⟨hall f List.mem_cons_self, by omega⟩

/-- `write_img_info` completes the first two sectors. -/
theorem writeImgInfo_eq {c : Contents} {nbytesKernel : Int32} (hboot : c.boot.length ≤ 0x1f8)
    (hn : c.tasks.length ≤ TASK_MAXNUM) (hos : c.osSize = (NBYTES2SEC nbytesKernel).toUInt32) :
    writeImgInfo nbytesKernel c.infos c.tasks.length
      (c.boot ++ List.replicate (1024 - c.boot.length) 0 ++ c.kernel ++ c.tasks.flatMap (·.2)) =
        c.image := by
  have hn : c.tasks.length ≤ 16 := hn
  have hzeros : List.replicate (1024 - c.boot.length) (0 : UInt8) =
      List.replicate (0x1f8 - c.boot.length) 0 ++ List.replicate (8 + 32 * c.tasks.length) 0 ++
        List.replicate (512 - 32 * c.tasks.length) 0 := by
    rw [← List.replicate_add, ← List.replicate_add]
    congr 1
    omega
  have hpos : (c.boot ++ List.replicate (0x1f8 - c.boot.length) (0 : UInt8)).length = 0x1f8 := by
    simp; omega
  have hall : c.infos.take c.tasks.length = c.infos :=
    List.take_of_length_le (Nat.le_of_eq (by simp [Contents.infos]))
  have hsplit : c.boot ++ List.replicate (1024 - c.boot.length) 0 ++ c.kernel ++
      c.tasks.flatMap (·.2) = (c.boot ++ List.replicate (0x1f8 - c.boot.length) 0) ++
        List.replicate (8 + 32 * c.tasks.length) 0 ++
          (List.replicate (512 - 32 * c.tasks.length) 0 ++ c.kernel ++ c.tasks.flatMap (·.2)) := by
    rw [hzeros]; simp only [List.append_assoc]
  have hdata : (leBytes 4 c.tasks.length ++ leBytes 4 c.osSize.toNat ++
      c.infos.flatMap TaskInfo.bytes).length =
        (List.replicate (8 + 32 * c.tasks.length) (0 : UInt8)).length := by
    rw [List.length_append, Contents.infos, Contents.length_flatMap_taskInfos]
    simp
  rw [writeImgInfo, hall, ← hos, hsplit, overwrite_append hpos hdata]
  simp only [Contents.image, Contents.bootSector, Contents.infoSector, List.append_assoc]

/-- The bootblock is padded to two sectors. -/
theorem writeFile_boot {boot : InputFile} (hboot : boot.name = chars "bootblock")
    (hsize : boot.payload.length ≤ 0x1f8) : writeFile boot {} =
      if boot.segments.isSome then
        some { img := boot.payload ++ List.replicate (1024 - boot.payload.length) 0
               phyaddr := 1024
               nbytesKernel := boot.addToKernel 0 }
      else none := by
  have hadd : writePadding (SECTOR_SIZE * 2) (Output.add boot {}) =
      { img := boot.payload ++ List.replicate (1024 - boot.payload.length) 0
        phyaddr := 1024
        nbytesKernel := boot.addToKernel 0 } := by
    have hmax : max boot.payload.length 1024 = 1024 := by omega
    simp [Output.add, writePadding, SECTOR_SIZE, hmax]
  have hfits : (0 + boot.payload.length < 2 ^ 31) = True := eq_true (by omega)
  rw [writeFile_eq _ _ (by decide), if_pos hboot, hadd]
  simp only [hfits, and_true]

/-- The image before `write_img_info`. -/
theorem createImageLoop_boot {boot main : InputFile} {tasks : List InputFile}
    (hboot : boot.name = chars "bootblock") (hsize : boot.payload.length ≤ 0x1f8)
    (hn : tasks.length ≤ TASK_MAXNUM) : createImageLoop 0 (boot :: main :: tasks) {} =
      if (∀ f ∈ boot :: main :: tasks, f.segments.isSome) ∧
          1024 + main.payload.length + (tasks.flatMap InputFile.payload).length < 2 ^ 31 then
        some
          { img := boot.payload ++ List.replicate (1024 - boot.payload.length) 0 ++ main.payload ++
              tasks.flatMap InputFile.payload
            phyaddr := 1024 + main.payload.length + (tasks.flatMap InputFile.payload).length
            nbytesKernel := (boot :: main :: tasks).foldl InputFile.addToKernel 0
            taskinfo := (contents boot main tasks).infos }
      else none := by
  rw [createImageLoop, if_neg (by decide), writeFile_boot hboot hsize]
  by_cases hb : boot.segments.isSome
  · rw [if_pos hb]
    simp only [Option.bind_eq_bind, Option.bind_some]
    rw [createImageLoop, if_neg (by decide), writeFile_eq _ _ (by simp only; omega)]
    by_cases hm : main.segments.isSome ∧ 1024 + main.payload.length < 2 ^ 31
    · rw [if_pos hm, writePadding_of_le (by exact Nat.le_add_right _ _), ite_self]
      simp only [Option.bind_eq_bind, Option.bind_some]
      rw [createImageLoop_eq _ _ _ (by decide) (by simpa using hn) (Nat.le_add_right _ _) hm.2]
      simp [Output.add, hb, hm.1, contents, Contents.infos]
    · rw [if_neg hm, if_neg]
      · rfl
      · rintro ⟨hall, hlt⟩
        exact hm ⟨hall main (by simp), by omega⟩
  · rw [if_neg hb, if_neg]
    · rfl
    · rintro ⟨hall, -⟩
      exact hb (hall boot List.mem_cons_self)

/-- **`create_image` writes the image of the contents of its files**, if all of them can be read and
the image is not too large. -/
theorem createImage_eq {boot main : InputFile} {tasks : List InputFile}
    (hboot : boot.name = chars "bootblock") (hsize : boot.payload.length ≤ 0x1f8)
    (hn : tasks.length ≤ TASK_MAXNUM) : createImage (boot :: main :: tasks) =
      if (∀ f ∈ boot :: main :: tasks, f.segments.isSome) ∧
          (contents boot main tasks).image.length < 2 ^ 31 then
        some (contents boot main tasks).image
      else none := by
  have hn' : (contents boot main tasks).tasks.length ≤ TASK_MAXNUM := by simpa [contents] using hn
  have htasks : (contents boot main tasks).tasks.flatMap (·.2) = tasks.flatMap InputFile.payload := by
    simp [contents, List.flatMap_map]
  have hlen : (contents boot main tasks).image.length =
      1024 + main.payload.length + (tasks.flatMap InputFile.payload).length := by
    rw [Contents.image, List.length_append, List.length_append, List.length_append,
      Contents.length_bootSector hsize, Contents.length_infoSector hn', htasks]
    rfl
  have hcount : (boot :: main :: tasks).length - 2 = (contents boot main tasks).tasks.length := by
    simp [contents]
  rw [createImage, createImageLoop_boot hboot hsize hn, hlen]
  split
  · simp only [Option.bind_eq_bind, Option.bind_some]
    rw [hcount, ← htasks]
    exact congrArg some (writeImgInfo_eq hsize hn' rfl)
  · rfl

end UcasOs
