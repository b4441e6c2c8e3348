import UcasOs.Image.Table
import Mathlib.Data.List.Chain

/-!
# Where the bytes of a segment are in the image

`write_segment` sees one program header at a time and only moves the position in the image forward
by `p_filesz`.  `p_vaddr` is printed and never used: "expansion of .bss should be done by kernel or
runtime env", and the linker script leaves no gaps.

* `InputFile.loads` — the `PT_LOAD` headers of a file with their `p_vaddr`, and the bytes of their
  segments; without `p_vaddr` they are `InputFile.segments`.
* `holes` — the gaps between segments and the tails of their `.bss`, which the image does not have.
* `createImage_at` — whatever the files, the bytes of one file are in the image from where the file
  before it ends.
* `createImage_placement` — the byte of a virtual address is as far from the start of the file as it
  is from the first virtual address, less the holes in front of it.
-/

set_option autoImplicit false

namespace UcasOs

/-! ## Program headers with their virtual addresses -/

/-- `Elf64_Phdr`, with `p_vaddr`. -/
structure LoadPhdr extends Elf64Phdr where
  pVaddr : ℕ

/-- `read_phdr`, with `p_vaddr`. -/
def readLoadPhdr (fp : Stream) (ph : ℕ) (ehdr : Elf64Ehdr) : Option (LoadPhdr × Stream) := do
  if 2 ^ 31 ≤ ph * ehdr.ePhentsize then none
  else
    let (b, fp) ← (fp.fseek (ehdr.ePhoff + ph * ehdr.ePhentsize)).fread 56
    return (⟨⟨field 0 4 b, field 8 8 b, field 32 8 b, field 40 8 b⟩, field 16 8 b⟩, fp)

/-- What the loop over the program headers reads, with the virtual addresses. -/
def readLoads (ehdr : Elf64Ehdr) : ℕ → ℕ → Stream → Option (List (LoadPhdr × List UInt8))
  | 0, _, _ => some []
  | n + 1, ph, fp => do
    let (phdr, fp) ← readLoadPhdr fp ph ehdr
    if phdr.pType ≠ PT_LOAD then readLoads ehdr n (ph + 1) fp
    else
      let (bytes, fp) := readSegment phdr.toElf64Phdr fp
      let rest ← readLoads ehdr n (ph + 1) fp
      return (phdr, bytes) :: rest

/-- The `PT_LOAD` segments of a file, with their virtual addresses. -/
def InputFile.loads (f : InputFile) : Option (List (LoadPhdr × List UInt8)) := do
  let (ehdr, fp) ← readEhdr ⟨f.content, 0⟩
  readLoads ehdr ehdr.ePhnum 0 fp

theorem readPhdr_eq_readLoadPhdr (fp : Stream) (ph : ℕ) (ehdr : Elf64Ehdr) :
    readPhdr fp ph ehdr = (readLoadPhdr fp ph ehdr).map fun r => (r.1.toElf64Phdr, r.2) := by
  rw [readPhdr, readLoadPhdr]
  split
  · rfl
  · cases (fp.fseek (ehdr.ePhoff + ph * ehdr.ePhentsize)).fread 56 with
    | none => rfl
    | some r => rfl

theorem readSegments_eq_readLoads (ehdr : Elf64Ehdr) (n ph : ℕ) (fp : Stream) :
    readSegments ehdr n ph fp =
      (readLoads ehdr n ph fp).map (List.map fun s => (s.1.toElf64Phdr, s.2)) := by
  induction n generalizing ph fp with
  | zero => rfl
  | succ n ih =>
    rw [readSegments, readLoads, readPhdr_eq_readLoadPhdr]
    cases readLoadPhdr fp ph ehdr with
    | none => rfl
    | some r =>
      obtain ⟨phdr, fp⟩ := r
      simp only [Option.map_some, Option.bind_eq_bind, Option.bind_some]
      split
      · exact ih _ _
      · rw [ih]
        cases readLoads ehdr n (ph + 1) (readSegment phdr.toElf64Phdr fp).2 with
        | none => rfl
        | some rest => rfl

namespace InputFile

variable {f : InputFile} {segs : List (LoadPhdr × List UInt8)}

theorem segments_eq_loads (f : InputFile) :
    f.segments = f.loads.map (List.map fun s => (s.1.toElf64Phdr, s.2)) := by
  rw [segments, loads]
  cases readEhdr ⟨f.content, 0⟩ with
  | none => rfl
  | some r => exact readSegments_eq_readLoads _ _ _ _

theorem payload_eq_loads (h : f.loads = some segs) : f.payload = segs.flatMap (·.2) := by
  rw [payload, segments_eq_loads, h, Option.map_some, Option.getD_some, List.flatMap_map]

end InputFile

/-! ## The bytes of a segment -/

namespace Stream

variable {fp : Stream} {n k i : ℕ} {content : List UInt8}

theorem content_fseek (offset : ℕ) (fp : Stream) : (fp.fseek offset).content = fp.content := by
  rw [fseek]
  split <;> rfl

theorem content_fgetc (fp : Stream) : fp.fgetc.2.content = fp.content := by
  rw [fgetc]
  split <;> rfl

theorem content_fgetcs (n : ℕ) (fp : Stream) : (fp.fgetcs n).2.content = fp.content := by
  induction n generalizing fp with
  | zero => rfl
  | succ n ih => exact (ih _).trans (content_fgetc fp)

theorem content_fread {b : List UInt8} {fp' : Stream} (h : fp.fread n = some (b, fp')) :
    fp'.content = fp.content := by
  rw [fread] at h
  split at h
  · rw [Option.some.injEq, Prod.mk.injEq] at h
    rw [← h.2]
  · contradiction

/-- Inside the file, `fgetc` gives its bytes one after the other. -/
theorem getElem?_fgetcs (hk : k < n) (hin : i + k < content.length) :
    (fgetcs n ⟨content, i⟩).1[k]? = content[i + k]? := by
  induction n generalizing k i with
  | zero => exact absurd hk (Nat.not_lt_zero k)
  | succ n ih =>
    have hi : i < content.length := by omega
    have hget : content[i]? = some content[i] := List.getElem?_eq_getElem hi
    rw [fgetcs, fgetc, hget]
    cases k with
    | zero => exact hget.symm
    | succ k =>
      have h1 := ih (k := k) (i := i + 1) (by omega) (by omega)
      rw [Nat.add_assoc, Nat.add_comm 1 k] at h1
      exact h1

end Stream

/-- The bytes of a segment are those of the file from `p_offset` on. -/
structure BytesOf (content : List UInt8) (s : LoadPhdr × List UInt8) : Prop where
  length : s.2.length = if s.1.pMemsz ≠ 0 then s.1.pFilesz else 0
  get : ∀ k < s.2.length, s.1.pOffset + k < content.length → s.2[k]? = content[s.1.pOffset + k]?

theorem bytesOf_readSegment {phdr : LoadPhdr} {fp : Stream} (hlen : fp.content.length < 2 ^ 63) :
    BytesOf fp.content (phdr, (readSegment phdr.toElf64Phdr fp).1) := by
  by_cases hm : phdr.pMemsz ≠ 0
  · have hread : readSegment phdr.toElf64Phdr fp =
        (fp.fseek phdr.pOffset).fgetcs phdr.pFilesz := by rw [readSegment, if_pos hm]
    refine ⟨?_, fun k hk hin => ?_⟩
    · rw [hread, Stream.length_fgetcs, if_pos hm]
    · rw [hread, Stream.length_fgetcs] at hk
      have hoff : phdr.pOffset % 2 ^ 64 = phdr.pOffset := Nat.mod_eq_of_lt (by dsimp only at hin; omega)
      have hseek : fp.fseek phdr.pOffset = ⟨fp.content, phdr.pOffset⟩ := by
        rw [Stream.fseek, hoff, if_pos (by dsimp only at hin; omega)]
      rw [hread, hseek]
      exact Stream.getElem?_fgetcs hk hin
  · have hread : readSegment phdr.toElf64Phdr fp = ([], fp) := by rw [readSegment, if_neg hm]
    refine ⟨?_, fun k hk => ?_⟩
    · rw [hread, if_neg hm]
      rfl
    · rw [hread] at hk
      exact absurd hk (Nat.not_lt_zero k)

theorem content_readSegment (phdr : Elf64Phdr) (fp : Stream) :
    (readSegment phdr fp).2.content = fp.content := by
  rw [readSegment]
  split
  · rw [Stream.content_fgetcs, Stream.content_fseek]
  · rfl

theorem content_readLoadPhdr {fp fp' : Stream} {ph : ℕ} {ehdr : Elf64Ehdr} {phdr : LoadPhdr}
    (h : readLoadPhdr fp ph ehdr = some (phdr, fp')) : fp'.content = fp.content := by
  rw [readLoadPhdr] at h
  split at h
  · contradiction
  · cases hread : (fp.fseek (ehdr.ePhoff + ph * ehdr.ePhentsize)).fread 56 with
    | none =>
      rw [hread] at h
      contradiction
    | some r =>
      rw [hread] at h
      have h1 := Stream.content_fread hread
      simp only [Option.bind_eq_bind, Option.bind_some, Option.pure_def, Option.some.injEq,
        Prod.mk.injEq] at h
      rw [← h.2, h1, Stream.content_fseek]

theorem content_readEhdr {fp : Stream} {r : Elf64Ehdr × Stream} (h : readEhdr fp = some r) :
    r.2.content = fp.content := by
  rw [readEhdr] at h
  obtain ⟨⟨b, fp'⟩, hread, hr⟩ := Option.bind_eq_some_iff.1 h
  have hb := Stream.content_fread hread
  dsimp only at hr
  split at hr
  · rw [← Option.some.inj hr]
    exact hb
  · contradiction

theorem bytesOf_readLoads {ehdr : Elf64Ehdr} {n ph : ℕ} {fp : Stream}
    {segs : List (LoadPhdr × List UInt8)} (hlen : fp.content.length < 2 ^ 63)
    (h : readLoads ehdr n ph fp = some segs) : ∀ s ∈ segs, BytesOf fp.content s := by
  induction n generalizing ph fp segs with
  | zero =>
    rw [readLoads, Option.some.injEq] at h
    simp [← h]
  | succ n ih =>
    rw [readLoads] at h
    cases hp : readLoadPhdr fp ph ehdr with
    | none =>
      rw [hp] at h
      contradiction
    | some r =>
      obtain ⟨phdr, fp'⟩ := r
      have hc := content_readLoadPhdr hp
      rw [hp] at h
      simp only [Option.bind_eq_bind, Option.bind_some] at h
      split at h
      · rw [← hc]
        exact ih (by rw [hc]; exact hlen) h
      · have hc' := content_readSegment phdr.toElf64Phdr fp'
        cases hrest : readLoads ehdr n (ph + 1) (readSegment phdr.toElf64Phdr fp').2 with
        | none =>
          rw [hrest] at h
          contradiction
        | some rest =>
          rw [hrest] at h
          simp only [Option.bind_some, Option.pure_def, Option.some.injEq] at h
          rw [← h, ← hc]
          intro s hs
          rcases List.mem_cons.1 hs with rfl | hs
          · exact bytesOf_readSegment (by rw [hc]; exact hlen)
          · have h1 := ih (by rw [hc', hc]; exact hlen) hrest s hs
            rwa [hc'] at h1

/-! ## Where a file is in the image -/

/-- `phyaddr` counts the bytes of the image and does not overflow; an entry takes 32 bytes. -/
structure Output.Consistent (out : Output) : Prop where
  lt : out.phyaddr < 2 ^ 31
  length : out.img.length = out.phyaddr
  infos : ∀ t ∈ out.taskinfo, t.bytes.length = 32

section

variable {f : InputFile} {before after fs : List InputFile} {out out' : Output} {fidx k : ℕ}
  {img : List UInt8}

/-- One file adds its segments, and maybe padding behind them. -/
theorem writeFile_consistent (hout : out.Consistent) (h : writeFile f out = some out') :
    out'.Consistent ∧ ∃ pad, out'.img = out.img ++ f.payload ++ pad := by
  rw [writeFile_eq f out hout.lt] at h
  split at h
  next hf =>
    have hadd : (out.add f).Consistent :=
      ⟨hf.2, by simp [Output.add, hout.length], hout.infos⟩
    have hout' := Option.some.inj h
    split at hout'
    next =>
      refine ⟨?_, List.replicate (SECTOR_SIZE * 2 - (out.add f).phyaddr) 0, by rw [← hout']; rfl⟩
      rw [← hout']
      refine ⟨max_lt hadd.lt (by decide), ?_, hout.infos⟩
      rw [writePadding, List.length_append, List.length_replicate, hadd.length]
      dsimp only
      omega
    next =>
      rw [← hout']
      exact ⟨hadd, [], by simp [Output.add]⟩
  next => contradiction

/-- What the loop does about one file: it writes it, and maybe makes an entry for it. -/
theorem createImageLoop_cons_eq_some (h : createImageLoop fidx (f :: fs) out = some out') :
    ∃ out₁ infos, writeFile f out = some out₁ ∧
      createImageLoop (fidx + 1) fs { out₁ with taskinfo := out₁.taskinfo ++ infos } = some out' ∧
        ∀ t ∈ infos, t.bytes.length = 32 := by
  rw [createImageLoop] at h
  split at h
  · split at h
    · obtain ⟨out₁, hw, hrest⟩ := Option.bind_eq_some_iff.1 h
      refine ⟨out₁, _, hw, hrest, fun t ht => ?_⟩
      rw [List.mem_singleton.1 ht]
      simp [TaskInfo.bytes, TASK_NAME_LEN]
    · contradiction
  · obtain ⟨out₁, hw, hrest⟩ := Option.bind_eq_some_iff.1 h
    exact ⟨out₁, [], hw, by rw [List.append_nil]; exact hrest, by simp⟩

/-- One file of the loop. -/
theorem createImageLoop_cons (hout : out.Consistent)
    (h : createImageLoop fidx (f :: fs) out = some out') :
    ∃ out₁, out₁.Consistent ∧ out.img ++ f.payload <+: out₁.img ∧
      createImageLoop (fidx + 1) fs out₁ = some out' := by
  obtain ⟨out₁, infos, hw, hrest, hinfos⟩ := createImageLoop_cons_eq_some h
  obtain ⟨hout₁, pad, hpad⟩ := writeFile_consistent hout hw
  refine ⟨{ out₁ with taskinfo := out₁.taskinfo ++ infos },
    ⟨hout₁.lt, hout₁.length, fun t ht => ?_⟩, ?_, hrest⟩
  · exact (List.mem_append.1 ht).elim (hout₁.infos t) (hinfos t)
  · show out.img ++ f.payload <+: out₁.img
    rw [hpad]
    exact List.prefix_append _ _

/-- **The loop of `create_image` only appends**, and keeps its variables consistent. -/
theorem createImageLoop_consistent (hout : out.Consistent)
    (h : createImageLoop fidx fs out = some out') : out'.Consistent ∧ out.img <+: out'.img := by
  induction fs generalizing fidx out with
  | nil =>
    rw [createImageLoop, Option.some.injEq] at h
    exact h ▸ ⟨hout, List.prefix_rfl⟩
  | cons f fs ih =>
    obtain ⟨out₁, hout₁, hpre, hrest⟩ := createImageLoop_cons hout h
    obtain ⟨hout', hpre'⟩ := ih hout₁ hrest
    exact ⟨hout', (List.prefix_append _ _).trans (hpre.trans hpre')⟩

theorem createImageLoop_append (before fs : List InputFile) (fidx : ℕ) (out : Output) :
    createImageLoop fidx (before ++ fs) out =
      (createImageLoop fidx before out).bind (createImageLoop (fidx + before.length) fs) := by
  induction before generalizing fidx out with
  | nil => rfl
  | cons f before ih =>
    have hidx : fidx + (f :: before).length = fidx + 1 + before.length := by
      rw [List.length_cons]
      omega
    rw [List.cons_append, createImageLoop, createImageLoop, hidx]
    cases writeFile f out with
    | none =>
      split
      · split <;> rfl
      · rfl
    | some out₁ =>
      simp only [Option.bind_eq_bind, Option.bind_some, ih]
      split
      · split <;> rfl
      · rfl

theorem consistent_init : Output.Consistent {} := ⟨by decide, rfl, by simp⟩

/-- What `write_img_info` writes takes 32 bytes for each task, and eight more. -/
theorem getElem?_writeImgInfo {taskinfo : List TaskInfo} (n : Int32) (tasknum : ℕ)
    (hinfos : ∀ t ∈ taskinfo, t.bytes.length = 32) (hk : k < img.length)
    (hout : k < 0x1f8 ∨ 0x200 + 32 * tasknum ≤ k) :
    (writeImgInfo n taskinfo tasknum img)[k]? = img[k]? := by
  have hentries : ((taskinfo.take tasknum).flatMap TaskInfo.bytes).length ≤ 32 * tasknum := by
    have hconst : ∀ t ∈ taskinfo.take tasknum, t.bytes.length = 32 := fun t ht =>
      hinfos t (List.mem_of_mem_take ht)
    rw [List.length_flatMap, List.map_congr_left hconst, List.map_const', List.sum_replicate_nat,
      List.length_take, Nat.mul_comm]
    omega
  rw [writeImgInfo]
  refine getElem?_overwrite hk (hout.imp_right fun h => ?_)
  rw [List.length_append, List.length_append, length_leBytes, length_leBytes]
  omega

/-- **Where a file is.**  Whatever the other files are, the bytes of a file are in the image from
the position at which the loop begins with it, outside the bytes that `write_img_info` fills in. -/
theorem createImage_at (h : createImage (before ++ f :: after) = some img) :
    ∃ out, createImageLoop 0 before {} = some out ∧ f.segments.isSome ∧
      ∀ k < f.payload.length,
        (out.phyaddr + k < 0x1f8 ∨
          0x200 + 32 * ((before ++ f :: after).length - 2) ≤ out.phyaddr + k) →
        img[out.phyaddr + k]? = f.payload[k]? := by
  rw [createImage, createImageLoop_append, Nat.zero_add] at h
  obtain ⟨out', hloop, himg⟩ := Option.bind_eq_some_iff.1 h
  obtain ⟨out, hbefore, hfile⟩ := Option.bind_eq_some_iff.1 hloop
  obtain ⟨hout, -⟩ := createImageLoop_consistent consistent_init hbefore
  obtain ⟨out₁, hout₁, hpre₁, hafter⟩ := createImageLoop_cons hout hfile
  obtain ⟨hout', hpre'⟩ := createImageLoop_consistent hout₁ hafter
  obtain ⟨rest, hrest⟩ := hpre₁.trans hpre'
  refine ⟨out, hbefore, ?_, fun k hk hfree => ?_⟩
  · obtain ⟨_, _, hw, -⟩ := createImageLoop_cons_eq_some hfile
    by_contra hnone
    rw [writeFile_eq f out hout.lt, if_neg fun e => hnone e.1] at hw
    contradiction
  · have hin : out.phyaddr + k < out'.img.length := by
      rw [← hrest, List.length_append, List.length_append, hout.length]
      omega
    rw [← Option.some.inj himg, getElem?_writeImgInfo _ _ hout'.infos hin hfree, ← hrest,
      List.getElem?_append_left (by rw [List.length_append, hout.length]; omega), ← hout.length,
      List.getElem?_append_right (Nat.le_add_right _ _), Nat.add_sub_cancel_left]

end

/-! ## Where a virtual address is in the image -/

/-- Segments in ascending order that do not overlap, with no more bytes in the file than in
memory. -/
structure InOrder (segs : List (LoadPhdr × List UInt8)) : Prop where
  size : ∀ s ∈ segs, s.1.pFilesz ≤ s.1.pMemsz
  chain : segs.IsChain fun a b => a.1.pVaddr + a.1.pMemsz ≤ b.1.pVaddr

/-- The virtual address of the first segment. -/
def firstVaddr (segs : List (LoadPhdr × List UInt8)) : ℕ := (segs.head?.map (·.1.pVaddr)).getD 0

/-- What the image leaves out from `next` up to the last of the segments: the gaps between them and
the tails of their `.bss`. -/
def holes : ℕ → List (LoadPhdr × List UInt8) → ℕ
  | _, [] => 0
  | next, s :: segs => (s.1.pVaddr - next) + holes (s.1.pVaddr + s.1.pFilesz) segs

section

variable {segs s t : List (LoadPhdr × List UInt8)} {seg : LoadPhdr × List UInt8}
  {before after : List InputFile} {f : InputFile} {img : List UInt8} {next : ℕ}

/-- **A virtual address, counted up**: the bytes of the segments in front of it, and the holes. -/
theorem add_holes (horder : InOrder (s ++ seg :: t)) (hnext : next ≤ firstVaddr (s ++ seg :: t)) :
    next + (s.map (·.1.pFilesz)).sum + holes next (s ++ [seg]) = seg.1.pVaddr := by
  induction s generalizing next with
  | nil =>
    have h1 : next ≤ seg.1.pVaddr := hnext
    simp only [List.map_nil, List.sum_nil, List.nil_append, holes]
    omega
  | cons a s ih =>
    have h1 : next ≤ a.1.pVaddr := hnext
    have hsize := horder.size a List.mem_cons_self
    have htail : InOrder (s ++ seg :: t) :=
      ⟨fun x hx => horder.size x (List.mem_cons_of_mem _ hx), horder.chain.tail⟩
    have hfirst : a.1.pVaddr + a.1.pFilesz ≤ firstVaddr (s ++ seg :: t) := by
      have hchain := horder.chain
      cases s with
      | nil =>
        have h2 := (List.isChain_cons_cons.1 hchain).1
        exact (Nat.add_le_add_left hsize _).trans h2
      | cons b s =>
        have h2 := (List.isChain_cons_cons.1 hchain).1
        exact (Nat.add_le_add_left hsize _).trans h2
    have h2 := ih htail hfirst
    rw [List.cons_append, holes, List.map_cons, List.sum_cons]
    omega

/-- As many bytes of the segments are in the image as there are in the file. -/
theorem length_flatMap_loads {content : List UInt8} (hbytes : ∀ x ∈ s, BytesOf content x)
    (hsize : ∀ x ∈ s, x.1.pFilesz ≤ x.1.pMemsz) :
    (s.flatMap (·.2)).length = (s.map (·.1.pFilesz)).sum := by
  rw [List.length_flatMap]
  refine congrArg List.sum (List.map_congr_left fun x hx => ?_)
  have h1 := hsize x hx
  rw [(hbytes x hx).length]
  split <;> omega

/-- **Where `create_image` places a virtual address.**  Whatever the files, for a file whose
segments are in order: the byte of the virtual address `v` is as far from the position at which the
loop begins with the file as `v` is from the first virtual address, less the holes in front of it.
The bytes that `write_img_info` fills in afterwards are excepted. -/
theorem createImage_placement (himg : createImage (before ++ f :: after) = some img)
    (hloads : f.loads = some segs) (hlen : f.content.length < 2 ^ 63) (horder : InOrder segs) :
    ∃ out, createImageLoop 0 before {} = some out ∧ ∀ s seg t, segs = s ++ seg :: t →
      ∀ v, seg.1.pVaddr ≤ v → v < seg.1.pVaddr + seg.1.pFilesz →
        seg.1.pOffset + (v - seg.1.pVaddr) < f.content.length →
        holes (firstVaddr segs) (s ++ [seg]) ≤ v - firstVaddr segs ∧
          let position := out.phyaddr + (v - firstVaddr segs - holes (firstVaddr segs) (s ++ [seg]))
          (position < 0x1f8 ∨ 0x200 + 32 * ((before ++ f :: after).length - 2) ≤ position) →
            img[position]? = f.content[seg.1.pOffset + (v - seg.1.pVaddr)]? := by
  obtain ⟨out, hout, -, hat⟩ := createImage_at himg
  refine ⟨out, hout, ?_⟩
  rintro s seg t rfl v hv hv' hin
  have hall : ∀ x ∈ s ++ seg :: t, BytesOf f.content x := by
    rw [InputFile.loads] at hloads
    cases he : readEhdr ⟨f.content, 0⟩ with
    | none =>
      rw [he] at hloads
      contradiction
    | some r =>
      rw [he] at hloads
      have hc : r.2.content = f.content := content_readEhdr he
      rw [← hc]
      exact bytesOf_readLoads (by rw [hc]; exact hlen) hloads
  have hsize : ∀ x ∈ s, x.1.pFilesz ≤ x.1.pMemsz := fun x hx =>
    horder.size x (List.mem_append_left _ hx)
  have hseg := hall seg (by simp)
  have hsegsize := horder.size seg (by simp)
  have hseglen : seg.2.length = seg.1.pFilesz := by
    rw [hseg.length, if_pos (by omega)]
  have hsum := length_flatMap_loads (fun x hx => hall x (List.mem_append_left _ hx)) hsize
  have hholes := add_holes horder le_rfl
  have hpayload : f.payload = s.flatMap (·.2) ++ (seg.2 ++ t.flatMap (·.2)) := by
    rw [InputFile.payload_eq_loads hloads, List.flatMap_append, List.flatMap_cons]
  obtain ⟨k, rfl⟩ := Nat.exists_eq_add_of_le hv
  rw [Nat.add_sub_cancel_left] at hin ⊢
  have hk : k < seg.2.length := by omega
  refine ⟨by omega, ?_⟩
  intro position hfree
  have hposition : position = out.phyaddr + ((s.flatMap (·.2)).length + k) := by
    show out.phyaddr + _ = _
    omega
  rw [hposition] at hfree ⊢
  rw [hat _ (by rw [hpayload, List.length_append, List.length_append]; omega) hfree, hpayload,
    List.getElem?_append_right (Nat.le_add_right _ _), Nat.add_sub_cancel_left,
    List.getElem?_append_left hk]
  exact hseg.get k hk hin

end

/-! ## A file with a gap -/

/-- The program header of a segment of `size` bytes, at `offset` of the file and at `vaddr`. -/
def phdrAt (vaddr offset size : ℕ) : List UInt8 :=
  leBytes 4 PT_LOAD ++ leBytes 4 0 ++ leBytes 8 offset ++ leBytes 8 vaddr ++ leBytes 8 0 ++
    leBytes 8 size ++ leBytes 8 size ++ leBytes 8 0

/-- A kernel with one byte at `0x1000` and one at `0x1010`. -/
def gapMain : InputFile where
  name := chars "main"
  content :=
    [0x7f, 0x45, 0x4c, 0x46] ++ leBytes 28 0 ++ leBytes 8 64 ++ leBytes 14 0 ++ leBytes 2 56 ++
      leBytes 2 2 ++ leBytes 6 0 ++ phdrAt 0x1000 176 1 ++ phdrAt 0x1010 177 1 ++ [0xaa, 0xbb]

/-- A bootblock of one byte. -/
def gapBoot : InputFile := ⟨chars "bootblock", elfFile [0]⟩

theorem length_gapMain : gapMain.content.length = 178 := by simp [gapMain, phdrAt]

set_option maxRecDepth 4000 in
theorem loads_gapMain : gapMain.loads =
    some [(⟨⟨PT_LOAD, 176, 1, 1⟩, 0x1000⟩, [0xaa]), (⟨⟨PT_LOAD, 177, 1, 1⟩, 0x1010⟩, [0xbb])] := by
  rfl

theorem payload_gapMain : gapMain.payload = [0xaa, 0xbb] := InputFile.payload_eq_loads loads_gapMain

theorem segments_gapBoot : gapBoot.segments = some [(⟨PT_LOAD, 120, 1, 1⟩, [0])] :=
  segments_elfFile _ (by simp) (by simp)

theorem payload_gapBoot : gapBoot.payload = [0] := payload_elfFile _ (by simp) (by simp)

theorem length_rawImage_gap : (rawImage gapBoot gapMain []).length = 1026 := by
  rw [rawImage, List.length_append, List.length_append, length_paddedBoot, payload_gapBoot,
    payload_gapMain]
  rfl

theorem createImage_gap : createImage ([gapBoot] ++ gapMain :: []) =
    some (overwrite 0x1f8 (imgInfo gapBoot gapMain []) (rawImage gapBoot gapMain [])) := by
  rw [List.singleton_append, createImage_eq_overwrite rfl, if_pos]
  refine ⟨?_, by rw [length_rawImage_gap]; decide, by decide⟩
  rintro f (_ | ⟨_, _ | ⟨_, hf⟩⟩)
  · rw [segments_gapBoot]
    rfl
  · rw [InputFile.segments_eq_loads, loads_gapMain]
    rfl
  · exact absurd hf List.not_mem_nil

theorem inOrder_gapMain : InOrder
    [(⟨⟨PT_LOAD, 176, 1, 1⟩, 0x1000⟩, [0xaa]), (⟨⟨PT_LOAD, 177, 1, 1⟩, 0x1010⟩, [0xbb])] :=
  ⟨by simp, by simp⟩

/-- The kernel starts right behind the two sectors of the bootblock. -/
theorem createImageLoop_gapBoot :
    ∃ out, createImageLoop 0 [gapBoot] {} = some out ∧ out.phyaddr = 1024 := by
  have hfits : gapBoot.segments.isSome ∧ gapBoot.payload.length < 2 ^ 31 := by
    rw [segments_gapBoot, payload_gapBoot]
    exact ⟨rfl, by decide⟩
  have hloop : createImageLoop 0 [gapBoot] {} =
      some ⟨paddedBoot gapBoot, (paddedBoot gapBoot).length, gapBoot.addToKernel 0, []⟩ := by
    rw [createImageLoop, if_neg (by decide), writeFile_bootblock rfl, if_pos hfits]
    rfl
  refine ⟨_, hloop, ?_⟩
  rw [length_paddedBoot, payload_gapBoot]
  rfl

/-- The byte of `0x1010` is not sixteen bytes behind that of `0x1000`: the image ends before. -/
theorem createImage_gap_fails :
    ∃ out img, createImageLoop 0 [gapBoot] {} = some out ∧
      createImage ([gapBoot] ++ gapMain :: []) = some img ∧
        gapMain.loads = some [(⟨⟨PT_LOAD, 176, 1, 1⟩, 0x1000⟩, [0xaa]),
          (⟨⟨PT_LOAD, 177, 1, 1⟩, 0x1010⟩, [0xbb])] ∧
          gapMain.content[177]? = some 0xbb ∧
            img[out.phyaddr + (0x1010 - 0x1000)]? = none ∧ img[out.phyaddr + 1]? = some 0xbb := by
  obtain ⟨out, hout, hbegin⟩ := createImageLoop_gapBoot
  obtain ⟨out', hout', -, hat⟩ := createImage_at createImage_gap
  obtain rfl : out = out' := Option.some.inj (hout.symm.trans hout')
  refine ⟨out, _, hout, createImage_gap, loads_gapMain, rfl, ?_, ?_⟩
  · refine List.getElem?_eq_none ?_
    rw [hbegin, length_overwrite, length_rawImage_gap]
    · decide
    · rw [length_imgInfo, length_rawImage_gap]
      decide
  · rw [hat 1 (by rw [payload_gapMain]; decide) (Or.inr (by rw [hbegin]; decide)), payload_gapMain]
    rfl

/-- Here the hole in front of the second byte is fifteen bytes long. -/
theorem createImage_placement_gap :
    ∃ out, createImageLoop 0 [gapBoot] {} = some out ∧
      (overwrite 0x1f8 (imgInfo gapBoot gapMain []) (rawImage gapBoot gapMain []))[
        out.phyaddr + (0x1010 - 0x1000 - 15)]? = some 0xbb := by
  obtain ⟨out, hout, hplace⟩ := createImage_placement createImage_gap loads_gapMain
    (by rw [length_gapMain]; decide) inOrder_gapMain
  obtain ⟨out', hout', hbegin⟩ := createImageLoop_gapBoot
  obtain rfl : out = out' := Option.some.inj (hout.symm.trans hout')
  refine ⟨out, hout, ?_⟩
  have h := (hplace [(⟨⟨PT_LOAD, 176, 1, 1⟩, 0x1000⟩, [0xaa])]
    (⟨⟨PT_LOAD, 177, 1, 1⟩, 0x1010⟩, [0xbb]) [] rfl 0x1010 le_rfl (by decide)
    (by rw [length_gapMain]; decide)).2
  exact h (Or.inr (by rw [hbegin]; decide))

end UcasOs
