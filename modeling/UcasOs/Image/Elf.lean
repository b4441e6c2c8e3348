import UcasOs.Lib.Bytes

/-!
# Reading ELF files

The part of `tools/createimage.c` that reads: `read_ehdr`, `read_phdr`, and the bytes that
`write_segment` gets out of the file.  A file is its bytes and a position, and everything is read
out of the bytes; `none` is a failed assertion.

* `InputFile.segments` — what the loop over the program headers reads from one file: its `PT_LOAD`
  headers, each with the bytes of its segment.
* `segments_elfFile` — every sequence of bytes is the segment of some file.
-/

set_option autoImplicit false

namespace UcasOs

/-- A `FILE *` that is open for reading. -/
structure Stream where
  content : List UInt8
  pos : ℕ

namespace Stream

/-- `fseek(fp, offset, SEEK_SET)`.  The offset is a `long`; a negative one is an error, which the
program does not look at. -/
def fseek (offset : ℕ) (fp : Stream) : Stream :=
  if offset % 2 ^ 64 < 2 ^ 63 then { fp with pos := offset % 2 ^ 64 } else fp

/-- `fread(buf, size, 1, fp)`, when it returns `1`. -/
def fread (size : ℕ) (fp : Stream) : Option (List UInt8 × Stream) :=
  if fp.pos + size ≤ fp.content.length then
    some ((fp.content.drop fp.pos).take size, { fp with pos := fp.pos + size })
  else none

/-- `fgetc(fp)`, as `fputc` will write it: at the end of the file that is `EOF`, made a byte. -/
def fgetc (fp : Stream) : UInt8 × Stream :=
  match fp.content[fp.pos]? with
  | some c => (c, { fp with pos := fp.pos + 1 })
  | none => (0xff, fp)

/-- The next `n` results of `fgetc`. -/
def fgetcs : ℕ → Stream → List UInt8 × Stream
  | 0, fp => ([], fp)
  | n + 1, fp =>
    let (c, fp) := fp.fgetc
    let (cs, fp) := fgetcs n fp
    (c :: cs, fp)

@[simp] theorem length_fgetcs (n : ℕ) (fp : Stream) : (fp.fgetcs n).1.length = n := by
  induction n generalizing fp with
  | zero => rfl
  | succ n ih => rw [fgetcs, List.length_cons, ih]

/-- Inside the file `fread` gives the bytes of the file. -/
theorem fread_eq {n : ℕ} {bytes : List UInt8} (before after : List UInt8) (hn : bytes.length = n) :
    fread n ⟨before ++ bytes ++ after, before.length⟩ =
      some (bytes, ⟨before ++ bytes ++ after, before.length + n⟩) := by
  have hle : before.length + n ≤ (before ++ bytes ++ after).length := by
    simp only [List.length_append]; omega
  rw [fread, if_pos hle, List.append_assoc, List.drop_left, ← hn, List.take_left]

/-- Inside the file `fgetc` gives the bytes of the file. -/
theorem fgetcs_eq {n : ℕ} {bytes : List UInt8} (before after : List UInt8)
    (hn : bytes.length = n) :
    (fgetcs n ⟨before ++ bytes ++ after, before.length⟩).1 = bytes := by
  induction bytes generalizing n before with
  | nil => subst hn; rfl
  | cons c bytes ih =>
    subst hn
    have hget : (before ++ c :: bytes ++ after)[before.length]? = some c := by simp
    have hsplit : before ++ c :: bytes ++ after = before ++ [c] ++ bytes ++ after := by simp
    have hpos : before.length + 1 = (before ++ [c]).length := by simp
    rw [List.length_cons, fgetcs, fgetc, hget]
    dsimp only
    rw [hsplit, hpos, ih _ rfl]

end Stream

/-- The little-endian field of `size` bytes at `offset` of a structure. -/
def field (offset size : ℕ) (bytes : List UInt8) : ℕ := ofLeBytes ((bytes.drop offset).take size)

theorem field_eq {offset size v : ℕ} {bytes : List UInt8}
    (h : (bytes.drop offset).take size = leBytes size v) (hv : v < 256 ^ size) :
    field offset size bytes = v := by
  rw [field, h, ofLeBytes_leBytes, Nat.mod_eq_of_lt hv]

/-- `Elf64_Ehdr`, as far as it is used. -/
structure Elf64Ehdr where
  ePhoff : ℕ
  ePhentsize : ℕ
  ePhnum : ℕ

/-- `Elf64_Phdr`, as far as it is used. -/
structure Elf64Phdr where
  pType : ℕ
  pOffset : ℕ
  pFilesz : ℕ
  pMemsz : ℕ

/-- `PT_LOAD` -/
def PT_LOAD : ℕ := 1

/-- `read_ehdr`, whose assertions look at the letters of the magic number. -/
def readEhdr (fp : Stream) : Option (Elf64Ehdr × Stream) := do
  let (b, fp) ← fp.fread 64
  if field 1 1 b = 0x45 ∧ field 2 1 b = 0x4c ∧ field 3 1 b = 0x46 then
    return (⟨field 32 8 b, field 54 2 b, field 56 2 b⟩, fp)
  else none

/-- `read_phdr`.  The product is one of `int`s. -/
def readPhdr (fp : Stream) (ph : ℕ) (ehdr : Elf64Ehdr) : Option (Elf64Phdr × Stream) := do
  if 2 ^ 31 ≤ ph * ehdr.ePhentsize then none
  else
    let (b, fp) ← (fp.fseek (ehdr.ePhoff + ph * ehdr.ePhentsize)).fread 56
    return (⟨field 0 4 b, field 8 8 b, field 32 8 b, field 40 8 b⟩, fp)

/-- What `write_segment` reads of a `PT_LOAD` segment. -/
def readSegment (phdr : Elf64Phdr) (fp : Stream) : List UInt8 × Stream :=
  if phdr.pMemsz ≠ 0 then (fp.fseek phdr.pOffset).fgetcs phdr.pFilesz else ([], fp)

/-- What the loop over the program headers reads, from header `ph` on. -/
def readSegments (ehdr : Elf64Ehdr) : ℕ → ℕ → Stream → Option (List (Elf64Phdr × List UInt8))
  | 0, _, _ => some []
  | n + 1, ph, fp => do
    let (phdr, fp) ← readPhdr fp ph ehdr
    if phdr.pType ≠ PT_LOAD then readSegments ehdr n (ph + 1) fp
    else
      let (bytes, fp) := readSegment phdr fp
      let rest ← readSegments ehdr n (ph + 1) fp
      return (phdr, bytes) :: rest

/-- An argument of `createimage`: the name of a file, and what is in it. -/
structure InputFile where
  name : List UInt8
  content : List UInt8

namespace InputFile

/-- The `PT_LOAD` segments of a file, each with its bytes. -/
def segments (f : InputFile) : Option (List (Elf64Phdr × List UInt8)) := do
  let (ehdr, fp) ← readEhdr ⟨f.content, 0⟩
  readSegments ehdr ehdr.ePhnum 0 fp

/-- The bytes of all segments of a file. -/
def payload (f : InputFile) : List UInt8 := (f.segments.getD []).flatMap (·.2)

end InputFile

/-! ## A file for every segment -/

/-- An ELF header with one program header right after it. -/
def ehdrBytes : List UInt8 :=
  [0x7f, 0x45, 0x4c, 0x46] ++ leBytes 28 0 ++ leBytes 8 64 ++ leBytes 14 0 ++ leBytes 2 56 ++
    leBytes 2 1 ++ leBytes 6 0

/-- The program header of a segment of `size` bytes right after the headers. -/
def phdrBytes (size : ℕ) : List UInt8 :=
  leBytes 4 PT_LOAD ++ leBytes 4 0 ++ leBytes 8 120 ++ leBytes 16 0 ++ leBytes 8 size ++
    leBytes 8 size ++ leBytes 8 0

/-- An ELF file with one segment. -/
def elfFile (data : List UInt8) : List UInt8 := ehdrBytes ++ phdrBytes data.length ++ data

theorem readEhdr_elfFile (data : List UInt8) :
    readEhdr ⟨elfFile data, 0⟩ = some (⟨64, 56, 1⟩, ⟨elfFile data, 64⟩) := by
  have hread : Stream.fread 64 ⟨elfFile data, 0⟩ = some (ehdrBytes, ⟨elfFile data, 64⟩) := by
    rw [elfFile, List.append_assoc]
    exact Stream.fread_eq [] _ (by decide)
  rw [readEhdr, hread]
  rfl

theorem readPhdr_elfFile {data : List UInt8} (hlen : data.length < 2 ^ 64) (pos : ℕ) :
    readPhdr ⟨elfFile data, pos⟩ 0 ⟨64, 56, 1⟩ =
      some (⟨PT_LOAD, 120, data.length, data.length⟩, ⟨elfFile data, 120⟩) := by
  have hread : Stream.fread 56 ⟨elfFile data, 64⟩ =
      some (phdrBytes data.length, ⟨elfFile data, 120⟩) := by
    have hh : ehdrBytes.length = 64 := by decide
    have hp : (phdrBytes data.length).length = 56 := by simp [phdrBytes]
    have h := Stream.fread_eq ehdrBytes data hp
    rwa [hh] at h
  have hsize : data.length < 256 ^ 8 := by simpa using hlen
  have htype : field 0 4 (phdrBytes data.length) = PT_LOAD := field_eq rfl (by decide)
  have hoffset : field 8 8 (phdrBytes data.length) = 120 := field_eq rfl (by decide)
  have hfilesz : field 32 8 (phdrBytes data.length) = data.length := field_eq rfl hsize
  have hmemsz : field 40 8 (phdrBytes data.length) = data.length := field_eq rfl hsize
  have hseek : Stream.fseek (64 + 0 * 56) ⟨elfFile data, pos⟩ = ⟨elfFile data, 64⟩ := rfl
  rw [readPhdr, if_neg (by decide), hseek, hread]
  simp only [Option.bind_eq_bind, Option.bind_some, htype, hoffset, hfilesz, hmemsz]
  rfl

/-- **Every sequence of bytes is the segment of some file.** -/
theorem segments_elfFile {data : List UInt8} (name : List UInt8) (hpos : data ≠ [])
    (hlen : data.length < 2 ^ 64) : (InputFile.mk name (elfFile data)).segments =
      some [(⟨PT_LOAD, 120, data.length, data.length⟩, data)] := by
  have hne : data.length ≠ 0 := fun h => hpos (List.length_eq_zero_iff.1 h)
  have hbytes : ((Stream.fseek 120 ⟨elfFile data, 120⟩).fgetcs data.length).1 = data := by
    have hpre : (ehdrBytes ++ phdrBytes data.length).length = 120 := by simp [ehdrBytes, phdrBytes]
    have h := Stream.fgetcs_eq (ehdrBytes ++ phdrBytes data.length) [] (rfl : data.length = _)
    rwa [hpre, List.append_nil] at h
  rw [InputFile.segments, readEhdr_elfFile]
  simp only [Option.bind_eq_bind, Option.bind_some, readSegments, readSegment, readPhdr_elfFile hlen]
  simp [hne, hbytes]

theorem payload_elfFile {data : List UInt8} (name : List UInt8) (hpos : data ≠ [])
    (hlen : data.length < 2 ^ 64) : (InputFile.mk name (elfFile data)).payload = data := by
  rw [InputFile.payload, segments_elfFile name hpos hlen]
  simp

end UcasOs
