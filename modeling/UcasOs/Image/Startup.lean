import UcasOs.Arch.Boot
import UcasOs.Image.Bootblock
import UcasOs.Image.Pcb

/-!
# All tasks are loaded and ready

`init_pcb` loads one task after the other and makes a PCB and a kernel stack for each.  Each time
the sectors of the task go to the same buffer, behind the slots of all of them, and its PCB and its
stack are written to the same memory.

* `initPcbLoop` — the loop.
* `ImageFiles.loadTaskImg_frame` — what is in the other slots stays there.
* `Prepared.step` — what an iteration does.
* `ImageFiles.init_pcb_loads` — **in the end every task is in its slot**, if their boundaries suit
  the sectors, **and ready to be dispatched there**.
* `Ready.loaded` — which is where the runs of the hart start from.
-/

set_option autoImplicit false

namespace UcasOs

/-- The loop of `init_pcb`, from the task `i` on, with what the allocators have given out so far. -/
def initPcbLoop (biosSdRead : UInt32 → UInt32 → UInt32 → Mem → Mem) (d : KernelData)
    (tasks : List UInt8) : ℕ → ℕ → Mm → Mem → List Ptr × Mm × Mem
  | 0, _, mm, m => ([], mm, m)
  | n + 1, i, mm, m =>
    if taskName tasks i = [] then ([], mm, m)
    else
      let (entryPoint, m) := loadTaskImg biosSdRead tasks (taskName tasks i) m
      let (mm, m) := initPcbIter d i entryPoint mm m
      let (rest, mm, m) := initPcbLoop biosSdRead d tasks n (i + 1) mm m
      (entryPoint :: rest, mm, m)

/-- `LIST_HEAD(name)` -/
def ListHead (name : Ptr) (m : Mem) : Prop :=
  m.load64 name = name ∧ m.load64 (name + LIST_PREV) = name

section

variable {biosSdRead : UInt32 → UInt32 → UInt32 → Mem → Mem} {card : ℕ → UInt8}
  {tasks taskname : List UInt8} {m : Mem} {n i a : ℕ}

/-- **Nothing but the slot of the task and the buffer is written to.** -/
theorem loadTaskImg_frame (hsd : CopiesSectors biosSdRead card) (hn : n < 16)
    (hnum : bootTaskNum m = (UInt32.ofNat n).toInt32) (hi : i < n)
    (hname : taskName tasks i = taskname) (hfirst : ∀ j < i, taskName tasks j ≠ taskname) {len : ℕ}
    (hlen : (taskEnd tasks i - taskBegin tasks i).toNat = len) (hsize : len ≤ 0x10000)
    (ha : a < 0x52000000 + (n + 1) * 0x10000)
    (hout : ¬ ((slot i).toNat ≤ a ∧ a < (slot i).toNat + len)) :
    (loadTaskImg biosSdRead tasks taskname m).2 a = m a := by
  rw [loadTaskImg]
  dsimp only
  rw [toNatClampNeg_bootTaskNum hn hnum, find?_taskName hi hname hfirst]
  change memcpy (slot i).toNat _ _ _ a = _
  rw [loadBuffer_bootTaskNum hn hnum, hlen,
    memcpy_apply (by rw [slot_toNat (by omega)]; omega), if_neg hout, hsd,
    bufferAddress_bootTaskNum hn hnum, if_neg fun h => Nat.not_lt.2 h.1 ha]

namespace ImageFiles

variable {F : ImageFiles}

/-- The task `i` is found by its name, and by no other index. -/
theorem taskName_eq (hcard : Holds card F.contents.image) (hm : Booted card tasks m)
    (hi : i < F.tasks.length) :
    taskName tasks i = F.tasks[i].name ∧ ∀ j < i, taskName tasks j ≠ F.tasks[i].name := by
  have htasks := taskInfo_eq hcard hm
  refine ⟨by rw [htasks]; exact taskName_infoSector hi, fun j hj => ?_⟩
  rw [htasks, taskName_infoSector (by omega)]
  exact name_ne hi hj

/-- Behind the last task there is no name. -/
theorem taskName_length (hcard : Holds card F.contents.image) (hm : Booted card tasks m) :
    taskName tasks F.tasks.length = [] := by
  have hn := F.count_le
  have hlen : (F.contents.infos.flatMap TaskInfo.bytes).length = 32 * F.tasks.length := by
    rw [Contents.infos, Contents.length_flatMap_taskInfos, tasks_length]
  rw [taskInfo_eq hcard hm, taskName, Contents.infoSector, List.drop_left' hlen, tasks_length]
  obtain ⟨k, hk⟩ := Nat.exists_eq_add_of_lt (by omega : 0 < 512 - 32 * F.tasks.length)
  rw [hk, List.replicate_succ]
  rfl

/-- What is in the other slots stays there. -/
theorem loadTaskImg_frame (hsd : CopiesSectors biosSdRead card)
    (hcard : Holds card F.contents.image) (hm : Booted card tasks m)
    (hint : F.contents.image.length < 2 ^ 31) (hi : i < F.tasks.length)
    (ha : a < 0x52000000 + (F.tasks.length + 1) * 0x10000)
    (hout : ¬ ((slot i).toNat ≤ a ∧ a < (slot i).toNat + F.tasks[i].payload.length)) :
    (loadTaskImg biosSdRead tasks F.tasks[i].name m).2 a = m a := by
  have hn := F.count_le
  have hend := F.beginByte_add_le hi
  obtain ⟨-, hsize⟩ := F.payload_length (List.getElem_mem hi)
  obtain ⟨hname, hfirst⟩ := taskName_eq hcard hm hi
  have htasks := taskInfo_eq hcard hm
  have hlen : (taskEnd tasks i - taskBegin tasks i).toNat = F.tasks[i].payload.length := by
    have hb := taskBegin_infoSector hi (by omega)
    have he := taskEnd_infoSector hi (by omega)
    rw [← htasks] at hb he
    rw [UInt32.toNat_sub_of_le _ _ (by rw [UInt32.le_iff_toNat_le]; omega), hb, he,
      Nat.add_sub_cancel_left]
  exact UcasOs.loadTaskImg_frame hsd (by omega) (bootTaskNum_eq hcard hm) hi hname hfirst hlen hsize
    ha hout

/-- Below the slots and the buffer nothing is written to. -/
theorem loadTaskImg_below (hsd : CopiesSectors biosSdRead card)
    (hcard : Holds card F.contents.image) (hm : Booted card tasks m)
    (hint : F.contents.image.length < 2 ^ 31) (hi : i < F.tasks.length) (ha : a < 0x52000000) :
    (loadTaskImg biosSdRead tasks F.tasks[i].name m).2 a = m a := by
  have hn := F.count_le
  have hsi := slot_toNat (i := i) (by omega)
  exact loadTaskImg_frame hsd hcard hm hint hi (by omega) (by omega)

/-- The task `i` is in its slot. -/
def InSlot (f : InputFile) (i : ℕ) (m : Mem) : Prop :=
  m.bytes (slot i).toNat f.payload.length = f.payload

/-! ## The loop of `init_pcb` -/

variable {d : KernelData} {mm : Mm}

/-- **After `i` iterations**: as many tasks are loaded, have their PCBs and stacks, and are on
`ready_queue`. -/
structure Prepared (F : ImageFiles) (d : KernelData) (card : ℕ → UInt8) (tasks : List UInt8) (i : ℕ)
    (mm : Mm) (m : Mem) : Prop where
  booted : Booted card tasks m
  mm : mm = Mm.after i
  slots : ∀ j (hj : j < F.tasks.length), j < i → InSlot F.tasks[j] j m
  made : ∀ c : Fin stackCapacity, (c : ℕ) < i → Made d c (slot c) m
  chained : Chained d i m

/-- A memory that is the same below the slots. -/
theorem Prepared.of_below {m' : Mem} (h : Prepared F d card tasks i mm m) (hle : i ≤ d.pcb.tasks)
    (hbelow : ∀ a < 0x52000000, m' a = m a) :
    (∀ c : Fin stackCapacity, (c : ℕ) < i → Made d c (slot c) m') ∧ Chained d i m' := by
  have hcap := d.pcb.tasks_le
  have hmax : NUM_MAX_TASK = 16 := rfl
  have hpcb : d.pcb.base.toNat + 16 * 72 ≤ 0x50500000 := d.pcb.below
  refine ⟨fun c hc => (h.made c hc).congr (hc.trans_le hle) fun b hb => hbelow b ?_,
    h.chained.congr (hle.trans hcap) fun j hj b hb => hbelow b ?_⟩
  · rw [mem_madeBytes] at hb
    omega
  · have hin := KernelData.tail_inside (d := d) (hj.trans (hle.trans hcap))
    omega

/-- **The rest of the loop's body**, when the next task has been loaded too. -/
theorem Prepared.initPcbIter {m' : Mem} (h : Prepared F d card tasks i mm m)
    (hcount : d.pcb.tasks = F.tasks.length) (hi : i < F.tasks.length)
    (hbelow : ∀ a < 0x52000000, m' a = m a)
    (hslots : ∀ j (hj : j < F.tasks.length), j < i + 1 → InSlot F.tasks[j] j m') :
    let s := UcasOs.initPcbIter d i (slot i) mm m'
    Prepared F d card tasks (i + 1) s.1 s.2 := by
  intro s
  have hn := F.count_le
  obtain ⟨c, rfl⟩ : ∃ c : Fin stackCapacity, (c : ℕ) = i :=
    ⟨⟨i, (by omega : i < 16).trans (by decide)⟩, rfl⟩
  have hc : (c : ℕ) < d.pcb.tasks := hcount ▸ hi
  obtain ⟨hmade, hchained⟩ := h.of_below hc.le hbelow
  obtain rfl := h.mm
  have hkeep : ∀ a, a < 0x50201000 ∨ 0x52000000 ≤ a → s.2 a = m' a := fun a ha =>
    initPcbIter_frame hc hchained ha
  refine ⟨⟨fun k hk => ?_, h.booted.taskInfo⟩, ?_, fun j hj hjc => ?_, fun c' hc' => ?_, ?_⟩
  · have hk' : k < 512 := hk
    rw [hkeep _ (.inl (by omega)), hbelow _ (by omega), h.booted.bootSector k hk]
  · exact congrArg Prod.fst initPcbIter_eq
  · have hsj := slot_toNat (i := j) (by omega)
    refine Eq.trans (List.map_congr_left fun k _ => ?_) (hslots j hj hjc)
    exact hkeep _ (.inr (by omega))
  · rcases Nat.lt_succ_iff_lt_or_eq.1 hc' with hlt | heq
    · exact (hmade c' hlt).initPcbIter hc hlt hchained
    · rw [Fin.ext heq]
      exact made_initPcbIter hc hchained
  · exact hchained.initPcbIter hc

/-- **One iteration**: the task `i` is loaded and ready, and the others still are. -/
theorem Prepared.step (h : Prepared F d card tasks i mm m) (hsd : CopiesSectors biosSdRead card)
    (hcard : Holds card F.contents.image) (hint : F.contents.image.length < 2 ^ 31)
    (hcount : d.pcb.tasks = F.tasks.length) (hi : i < F.tasks.length)
    (hsuit : F.SectorsSuit i F.tasks[i] m) :
    let r := loadTaskImg biosSdRead tasks F.tasks[i].name m
    let s := UcasOs.initPcbIter d i r.1 mm r.2
    r.1 = slot i ∧ Prepared F d card tasks (i + 1) s.1 s.2 := by
  have hn := F.count_le
  have hsi := slot_toNat (i := i) (by omega)
  have hload := (F.loads_contents_iff hint hsd hcard h.booted hi).2 hsuit
  have hbelow : ∀ a < 0x52000000,
      (loadTaskImg biosSdRead tasks F.tasks[i].name m).2 a = m a := fun a ha =>
    loadTaskImg_below hsd hcard h.booted hint hi ha
  have hothers : ∀ j (hj : j < F.tasks.length), j < i →
      InSlot F.tasks[j] j (loadTaskImg biosSdRead tasks F.tasks[i].name m).2 := fun j hj hji => by
    have hsj := slot_toNat (i := j) (by omega)
    have hsize := (F.payload_length (List.getElem_mem hj)).2
    refine Eq.trans (List.map_congr_left fun k hk => ?_) (h.slots j hj hji)
    have hk := List.mem_range.1 hk
    exact loadTaskImg_frame hsd hcard h.booted hint hi (by omega) (by omega)
  generalize loadTaskImg biosSdRead tasks F.tasks[i].name m = r at hload hbelow hothers
  obtain ⟨entryPoint, m'⟩ := r
  obtain ⟨hslot, hbytes⟩ := hload
  obtain rfl : entryPoint = slot i := hslot
  refine ⟨rfl, h.initPcbIter hcount hi hbelow fun j hj hji => ?_⟩
  rcases Nat.lt_succ_iff_lt_or_eq.1 hji with hlt | rfl
  · exact hothers j hj hlt
  · exact hbytes

/-- The loop from the task `i` on. -/
theorem initPcbLoop_spec (hsd : CopiesSectors biosSdRead card)
    (hcard : Holds card F.contents.image) (hint : F.contents.image.length < 2 ^ 31)
    (hcount : d.pcb.tasks = F.tasks.length) (hnames : ∀ f ∈ F.tasks, f.name ≠ [])
    (hsuit : ∀ i (hi : i < F.tasks.length) m, F.SectorsSuit i F.tasks[i] m) (k : ℕ) :
    ∀ {i n : ℕ} {mm : Mm} {m : Mem}, i + k = F.tasks.length → k < n →
      Prepared F d card tasks i mm m →
      let r := initPcbLoop biosSdRead d tasks n i mm m
      r.1 = (List.range' i k).map slot ∧ Prepared F d card tasks F.tasks.length r.2.1 r.2.2 := by
  induction k with
  | zero =>
    intro i n mm m hi hlt h
    obtain ⟨n, rfl⟩ := Nat.exists_eq_succ_of_ne_zero (Nat.ne_of_gt hlt)
    obtain rfl : i = F.tasks.length := hi
    rw [initPcbLoop, if_pos (taskName_length hcard h.booted)]
    exact ⟨rfl, h⟩
  | succ k ih =>
    intro i n mm m hi hlt h
    obtain ⟨n, rfl⟩ := Nat.exists_eq_succ_of_ne_zero (Nat.ne_of_gt (Nat.zero_lt_of_lt hlt))
    have hi' : i < F.tasks.length := by omega
    obtain ⟨hname, -⟩ := taskName_eq hcard h.booted hi'
    have hne : F.tasks[i].name ≠ [] := hnames _ (List.getElem_mem hi')
    obtain ⟨hslot, hnext⟩ := h.step hsd hcard hint hcount hi' (hsuit i hi' m)
    obtain ⟨hentries, hall⟩ := ih (n := n) (by omega) (by omega) hnext
    rw [initPcbLoop, hname, if_neg hne]
    refine ⟨?_, hall⟩
    rw [List.range'_succ, List.map_cons, ← hentries, ← hslot]

/-- What `init_pcb` has made of the tasks: they are in their slots, and `switch_to` will find them
ready to start there, in their order. -/
structure Ready (F : ImageFiles) (d : KernelData) (m : Mem) : Prop where
  slots : ∀ i (hi : i < F.tasks.length), InSlot F.tasks[i] i m
  made : ∀ c : Fin stackCapacity, (c : ℕ) < F.tasks.length → Made d c (slot c) m
  starts : ∀ c : Fin stackCapacity, (c : ℕ) < F.tasks.length →
    d.pcb.layout.Starts c (.task (Mm.stacksOf c).userStack (slot c))
      (.read (d.pcb.layout.frame c) m.load64)
  suspended : ∀ c : Fin stackCapacity, (c : ℕ) < F.tasks.length →
    d.pcb.layout.Suspended c (d.pcb.layout.frame c) d.sym.retFromException m.load64
  queue : Chained d F.tasks.length m

/-- **All tasks are loaded and ready.**  If the boundaries of the tasks suit the sectors, whatever
the buffer holds, then after `init_pcb` every task is in its slot, byte for byte; the entry points
are the slots, in order; and the frames of every task on its kernel stack and its PCB are such that
it will start at its entry point. -/
theorem init_pcb_loads {img : List UInt8} (himg : createImage F.files = some img)
    (hsd : CopiesSectors biosSdRead card) (hcard : Holds card img) (hm : Booted card tasks m)
    (hcount : d.pcb.tasks = F.tasks.length) (hqueue : ListHead d.ready_queue m)
    (hnames : ∀ f ∈ F.tasks, f.name ≠ [])
    (hsuit : ∀ i (hi : i < F.tasks.length) m, F.SectorsSuit i F.tasks[i] m) :
    let r := initPcbLoop biosSdRead d tasks TASK_MAXNUM 0 {} m
    r.1 = (List.range F.tasks.length).map slot ∧ Ready F d r.2.2 := by
  obtain ⟨rfl, hint⟩ := image_eq_of_createImage himg
  have hn := F.count_le
  have hstart : Prepared F d card tasks 0 {} m :=
    { booted := hm
      mm := rfl
      slots := fun j _ hj => absurd hj (Nat.not_lt_zero j)
      made := fun c hc => absurd hc (Nat.not_lt_zero c)
      chained := ⟨hqueue.2, hqueue.1, fun j hj => absurd hj (Nat.not_lt_zero j),
        fun j hj => absurd hj (Nat.not_lt_zero j)⟩ }
  rw [List.range_eq_range']
  obtain ⟨hentries, h⟩ := initPcbLoop_spec hsd hcard hint hcount hnames hsuit F.tasks.length
    (n := TASK_MAXNUM) (Nat.zero_add _) (by rw [TASK_MAXNUM]; omega) hstart
  exact ⟨hentries, fun i hi => h.slots i hi hi, h.made,
    fun c hc => (h.made c hc).starts (hcount ▸ hc),
    fun c hc => (h.made c hc).suspended (hcount ▸ hc), h.chained⟩

/-- **So the hart can start**: this is the memory of a system whose tasks, at the slots, have not
run yet. -/
theorem Ready.loaded {act : Fin stackCapacity → Activity} (h : Ready F d m)
    (hcount : d.pcb.tasks = F.tasks.length)
    (hact : ∀ c, act c = if (c : ℕ) < d.pcb.tasks then
      .fresh (.task (Mm.stacksOf c).userStack (slot c)) else .absent) :
    Loaded d.pcb.layout d.sym (d.pcb.starts fun c => slot c) m.load64 act := by
  refine PcbArray.loaded hact (Layout.initStacks_eq_self fun p hp q hq => ?_).symm
  obtain ⟨hlt, hstart⟩ := PcbArray.mem_starts.1 hp
  rw [PcbArray.layout_kernelStack hlt, PcbArray.layout_pcb hlt, hstart] at hq
  exact (h.made p.1 (hcount ▸ hlt)).stack q hq

/-- A kernel with its `ready_queue` at `0x50300000`. -/
def twoTasksData : KernelData where
  pcb := twoPcbs
  ready_queue := 0x50300000
  sym := ⟨0x50201000, 0x50202000, 0x50203000⟩
  pcb_ge := by decide
  ready_ge := by decide
  ready_le := by decide
  apart := by decide

/-- Two tasks, of which the second is loaded to the buffer over the sectors of the first. -/
theorem init_pcb_loads_twoTasks : ∃ biosSdRead card img tasks m,
    createImage (twoTasks 510).files = some img ∧ CopiesSectors biosSdRead card ∧ Holds card img ∧
    Booted card tasks m ∧
      Ready (twoTasks 510) twoTasksData
        (initPcbLoop biosSdRead twoTasksData tasks TASK_MAXNUM 0 {} m).2.2 := by
  obtain ⟨n, h510⟩ : ∃ n, n = 510 := ⟨_, rfl⟩
  have hn : 1 ≤ n ∧ n < 2 ^ 30 := by omega
  rw [← h510]
  have himg := createImage_twoTasks hn
  have hsd : CopiesSectors (copySectors (imageCard (twoTasks n).contents.image)) _ :=
    fun _ _ _ _ _ => rfl
  have hcard := holds_imageCard (twoTasks n).contents.image
  have hbooted := booted_bootMemory (imageCard (twoTasks n).contents.image)
  have hprev : (twoTasksData.ready_queue + LIST_PREV).toNat = 0x50300008 := by decide
  have hnext : twoTasksData.ready_queue.toNat = 0x50300000 := by decide
  generalize bootMemory _ = m at hbooted
  have hm := Booted.mk (m := m.initListHead twoTasksData.ready_queue) (fun k hk => by
    rw [SECTOR_SIZE] at hk
    rw [Mem.initListHead_of_notMem (by omega) (by omega)]
    exact hbooted.bootSector k hk) hbooted.taskInfo
  have hqueue : ListHead twoTasksData.ready_queue (m.initListHead twoTasksData.ready_queue) :=
    ⟨(Mem.load64_store64_of_disjoint (by omega)).trans Mem.load64_store64_self,
      Mem.load64_store64_self⟩
  have hnames : ∀ f ∈ (twoTasks n).tasks, f.name ≠ [] := by
    rw [twoTasks, List.forall_mem_cons, List.forall_mem_singleton]
    exact ⟨by decide, by decide⟩
  obtain ⟨-, hready⟩ := init_pcb_loads himg hsd hcard hm rfl hqueue hnames fun i hi m =>
    sectorsSuit_twoTasks hn (by omega) hi m
  exact ⟨_, _, _, _, _, himg, hsd, hcard, hm, hready⟩

end ImageFiles

end

end UcasOs
