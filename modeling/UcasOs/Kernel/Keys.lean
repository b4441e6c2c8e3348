import UcasOs.Lib.Slots
import UcasOs.Kernel.Sched

/-!
# The keys of the locks

`do_mutex_lock_init` as a map from keys to handles, over any sequence of calls.  The slots of
`mlocks[]` are a table of `Lib/Slots.lean`: `-1`, the key of a slot that nobody has, is its marker,
and an `int` like every other.

* `HandleMap` — what callers expect of the handles.
* `MarkerLast` — no key needs a new slot once `-1` has been used as a key.
* `handleMap_iff` — **the calls give what is expected exactly if that is so.**
* `handleMap_fails` — two calls that get the same handle for different keys.
-/

set_option autoImplicit false

namespace UcasOs

namespace Core

variable {c : Core} {keys l : List ℤ}

/-- The keys of the slots. -/
def lockKeys (c : Core) (i : Fin LOCK_NUM) : ℤ := (c.mlocks i).key

/-- The data after calls of `do_mutex_lock_init` with these keys. -/
def lockInits (keys : List ℤ) (c : Core) : Core :=
  keys.foldl (fun c key => (c.doMutexLockInit key).2) c

/-- What the call number `i` returns. -/
def handle (keys : List ℤ) (c : Core) (i : Fin keys.length) : ℤ :=
  ((c.lockInits (keys.take i)).doMutexLockInit keys[i]).1

/-- The keys that have got a handle before the call number `i`. -/
def registered (keys : List ℤ) (c : Core) (i : Fin keys.length) : Finset ℤ :=
  (Finset.univ.filter fun j => j < i ∧ 0 ≤ c.handle keys j).image fun j => keys[j]

/-- What the callers of `do_mutex_lock_init` expect of it. -/
structure HandleMap (keys : List ℤ) (c : Core) : Prop where
  /-- Equal keys have equal handles, and different keys different ones. -/
  handle_eq_iff : ∀ i j : Fin keys.length, 0 ≤ c.handle keys i → 0 ≤ c.handle keys j →
    (c.handle keys i = c.handle keys j ↔ keys[i] = keys[j])
  /-- A handle keeps its key. -/
  key_eq : ∀ i : Fin keys.length, 0 ≤ c.handle keys i → ∀ n : ℕ, i < n → n ≤ keys.length →
    ∃ slot : Fin LOCK_NUM, c.handle keys i = slot ∧
      (c.lockInits (keys.take n)).lockKeys slot = keys[i]
  /-- A key gets no handle exactly if it is new and there are `LOCK_NUM` others. -/
  handle_eq_neg_one_iff : ∀ i : Fin keys.length, c.handle keys i = -1 ↔
    keys[i] ∉ c.registered keys i ∧ (c.registered keys i).card = LOCK_NUM

/-- After a call with the key `-1`, a new key can only come when `LOCK_NUM` keys have been seen. -/
def MarkerLast (keys : List ℤ) : Prop :=
  ∀ i j : Fin keys.length, i < j → keys[i] = -1 → keys[j] ≠ -1 →
    keys[j] ∈ keys.take j ∨ LOCK_NUM ≤ ((keys.take j).toFinset.erase (-1)).card

/-! ## One call -/

/-- The two searches, in terms of the keys. -/
theorem doMutexLockInit_eq (c : Core) (key : ℤ) : c.doMutexLockInit key =
    match (List.finRange LOCK_NUM).find? fun i => c.lockKeys i = key with
    | some i => ((i : ℤ), c)
    | none =>
      match (List.finRange LOCK_NUM).find? fun i => c.lockKeys i = -1 with
      | some i => ((i : ℤ), c.setLockKey i key)
      | none => (-1, c) := rfl

/-- A call with a key that has a slot. -/
theorem doMutexLockInit_of_mem (h : Slots (-1) c.lockKeys l) {key : ℤ} (hmem : key ∈ l) :
    c.doMutexLockInit key = ((l.idxOf key : ℤ), c) := by
  obtain ⟨i, hi, hfind⟩ := h.find_eq hmem
  rw [doMutexLockInit_eq, hfind, ← hi]

/-- A new key that finds a free slot. -/
theorem doMutexLockInit_of_lt (h : Slots (-1) c.lockKeys l) {key : ℤ} (hmem : key ∉ l)
    (hkey : key ≠ -1) (hlt : l.length < LOCK_NUM) : c.doMutexLockInit key =
      ((l.length : ℤ), c.setLockKey ⟨l.length, hlt⟩ key) := by
  rw [doMutexLockInit_eq, h.find_eq_none hmem hkey, h.find_free hlt]

/-- The marker as a key: the free slot is given out, and stays free. -/
theorem doMutexLockInit_neg_one (h : Slots (-1) c.lockKeys l) (hlt : l.length < LOCK_NUM) :
    c.doMutexLockInit (-1) = ((l.length : ℤ), c) := by
  rw [doMutexLockInit_eq, h.find_free hlt]

/-- A call that finds no slot. -/
theorem doMutexLockInit_of_le (h : Slots (-1) c.lockKeys l) {key : ℤ} (hmem : key ∉ l)
    (hle : LOCK_NUM ≤ l.length) : c.doMutexLockInit key = (-1, c) := by
  have hfirst : (List.finRange LOCK_NUM).find? (fun i => c.lockKeys i = key) = none := by
    by_cases hkey : key = -1
    · rw [hkey, h.find_free_none hle]
    · exact h.find_eq_none hmem hkey
  rw [doMutexLockInit_eq, hfirst, h.find_free_none hle]

/-- A call returns where the key is, or where there is room for it. -/
theorem doMutexLockInit_fst (h : Slots (-1) c.lockKeys l) (key : ℤ) : (c.doMutexLockInit key).1 =
    if key ∈ l ∨ l.length < LOCK_NUM then (l.idxOf key : ℤ) else -1 := by
  by_cases hmem : key ∈ l
  · rw [if_pos (.inl hmem), doMutexLockInit_of_mem h hmem]
  · rcases Nat.lt_or_ge l.length LOCK_NUM with hlt | hle
    · rw [if_pos (.inr hlt), List.idxOf_eq_length hmem]
      by_cases hkey : key = -1
      · rw [hkey, doMutexLockInit_neg_one h hlt]
      · rw [doMutexLockInit_of_lt h hmem hkey hlt]
    · rw [if_neg (by simp [hmem, hle]), doMutexLockInit_of_le h hmem hle]

/-- A call enters the key into the table. -/
theorem doMutexLockInit_snd (h : Slots (-1) c.lockKeys l) (key : ℤ) :
    Slots (-1) (c.doMutexLockInit key).2.lockKeys (enter LOCK_NUM (-1) l key) := by
  by_cases hmem : key ∈ l
  · rw [doMutexLockInit_of_mem h hmem, enter, if_pos (.inr (.inl hmem))]
    exact h
  · rcases Nat.lt_or_ge l.length LOCK_NUM with hlt | hle
    · by_cases hkey : key = -1
      · rw [hkey, doMutexLockInit_neg_one h hlt, enter, if_pos (.inl rfl)]
        exact h
      · have hkeys : (c.setLockKey ⟨l.length, hlt⟩ key).lockKeys =
            Function.update c.lockKeys ⟨l.length, hlt⟩ key := by
          funext i
          simp only [lockKeys, setLockKey, Function.update_apply]
          split <;> rfl
        rw [doMutexLockInit_of_lt h hmem hkey hlt, enter_of_lt hkey hmem hlt, hkeys]
        exact h.update hmem hkey hlt
    · rw [doMutexLockInit_of_le h hmem hle, enter, if_pos (.inr (.inr hle))]
      exact h

/-! ## A sequence of calls -/

section

variable {k : Kernel} {n m : ℕ}

/-- The table of the keys after `n` calls. -/
abbrev table (keys : List ℤ) (n : ℕ) : List ℤ := entered LOCK_NUM (-1) (keys.take n)

/-- `init_locks` makes all slots free. -/
theorem lockKeys_initLocks (k : Kernel) : k.initLocks.toCore.lockKeys = fun _ => -1 := by
  have hfold : ∀ (done : List (Fin LOCK_NUM)) (k : Kernel) (i : Fin LOCK_NUM),
      (done.foldl Kernel.initLock k).toCore.lockKeys i =
        if i ∈ done then -1 else k.toCore.lockKeys i := by
    intro done
    induction done with
    | nil => intro k i; rfl
    | cons j done ih =>
      intro k i
      have hone : (k.initLock j).toCore.lockKeys i = if i = j then -1 else k.toCore.lockKeys i := by
        simp only [Kernel.initLock, Kernel.withCore, Kernel.withLinks, lockKeys, setLockKey,
          setLockStatus, Function.update_apply]
        split <;> rfl
      rw [List.foldl_cons, ih, hone]
      by_cases hd : i ∈ done
      · rw [if_pos hd, if_pos (List.mem_cons_of_mem _ hd)]
      · rw [if_neg hd]
        exact if_congr (by simp [hd]) rfl rfl
  funext i
  rw [Kernel.initLocks, hfold, if_pos (List.mem_finRange i)]

theorem slots_lockInits (k : Kernel) (keys : List ℤ) (n : ℕ) :
    Slots (-1) (k.initLocks.toCore.lockInits (keys.take n)).lockKeys (table keys n) := by
  rw [table, lockInits]
  generalize keys.take n = keys
  induction keys using List.reverseRecOn with
  | nil => exact lockKeys_initLocks k ▸ Slots.nil
  | append_singleton keys key ih =>
    rw [List.foldl_append, entered_append_singleton]
    exact doMutexLockInit_snd ih key

/-- What a call returns. -/
theorem handle_eq (i : Fin keys.length) : k.initLocks.toCore.handle keys i =
    if keys[i] ∈ table keys i ∨ (table keys i).length < LOCK_NUM then
      ((table keys i).idxOf keys[i] : ℤ) else -1 :=
  doMutexLockInit_fst (slots_lockInits k keys i) _

/-- A handle is an index of `mlocks[]`. -/
theorem handle_lt (i : Fin keys.length) : k.initLocks.toCore.handle keys i < LOCK_NUM := by
  have hle := (slots_lockInits k keys i).length_le
  rw [handle_eq]
  split
  · rename_i h
    rcases h with h | h
    · have hlt := List.idxOf_lt_length_of_mem h
      omega
    · have hlt : (table keys i).idxOf keys[i] ≤ (table keys i).length := List.idxOf_le_length
      omega
  · decide

theorem handle_nonneg (i : Fin keys.length) : 0 ≤ k.initLocks.toCore.handle keys i ↔
    keys[i] ∈ table keys i ∨ (table keys i).length < LOCK_NUM := by
  rw [handle_eq]
  split
  · rename_i h; exact iff_of_true (Int.natCast_nonneg _) h
  · rename_i h; exact iff_of_false (by decide) h

/-- Once the marker has been used as a key while there is room, the table stays as it is. -/
theorem MarkerLast.table_eq (h : MarkerLast keys) {i : Fin keys.length} (hi : keys[i] = -1)
    (hlt : (table keys i).length < LOCK_NUM) (hin : i ≤ n) (hn : n ≤ keys.length) :
    table keys n = table keys i := by
  induction n, hin using Nat.le_induction with
  | base => rfl
  | succ n hin ih =>
    have ih := ih (Nat.le_of_lt hn)
    rw [table, entered_take_succ hn, ← ih]
    refine if_pos ?_
    by_cases hkey : keys[n] = -1
    · exact .inl hkey
    · have hne : (i : ℕ) ≠ n := by rintro rfl; exact hkey hi
      have hroom : (table keys n).length < LOCK_NUM := by rwa [ih]
      rcases h i ⟨n, hn⟩ (Nat.lt_of_le_of_ne hin hne) hi hkey with hmem | hfull
      · exact .inr (.inl (mem_entered hmem hkey hroom))
      · exact absurd (length_entered_lt_iff.1 hroom) (Nat.not_lt.2 hfull)

/-- A handle is the place of its key in every later table; for the marker, it is the place after
the table. -/
theorem MarkerLast.handle_eq_idxOf (h : MarkerLast keys) {i : Fin keys.length}
    (hi : 0 ≤ k.initLocks.toCore.handle keys i) (hin : i < n) (hn : n ≤ keys.length) :
    k.initLocks.toCore.handle keys i = ((table keys n).idxOf keys[i] : ℤ) ∧
      (keys[i] ∈ table keys n ∨ keys[i] = -1) := by
  rw [handle_nonneg] at hi
  rw [handle_eq, if_pos hi]
  by_cases hkey : keys[i] = -1
  · have hroom := hi.resolve_left (hkey ▸ notMem_entered)
    rw [h.table_eq hkey hroom (Nat.le_of_lt hin) hn]
    exact ⟨rfl, .inr hkey⟩
  · have hsucc : table keys (i + 1) = enter LOCK_NUM (-1) (table keys i) keys[i] :=
      entered_take_succ i.2
    have hmem : keys[i] ∈ table keys (i + 1) := by rw [hsucc]; exact mem_enter hkey hi
    have hpre : table keys (i + 1) <+: table keys n := prefix_entered hin
    rw [idxOf_later hpre hmem, hsucc, idxOf_enter]
    exact ⟨rfl, .inl (hpre.subset hmem)⟩

/-- What is in the table is registered. -/
theorem mem_registered_of_mem_table {i : Fin keys.length} {key : ℤ} (h : key ∈ table keys i) :
    key ∈ k.initLocks.toCore.registered keys i := by
  obtain ⟨j, hj, rfl, hroom⟩ := exists_of_mem_entered (Nat.le_of_lt i.2) h
  have hj' : j < keys.length := hj.trans i.2
  rw [registered, Finset.mem_image]
  exact ⟨⟨j, hj'⟩, Finset.mem_filter.2 ⟨Finset.mem_univ _, hj,
    (handle_nonneg ⟨j, hj'⟩).2 (.inr hroom)⟩, rfl⟩

theorem MarkerLast.mem_table_of_mem_registered (h : MarkerLast keys) {i : Fin keys.length}
    {key : ℤ} (hkey : key ∈ k.initLocks.toCore.registered keys i) :
    key ∈ table keys i ∨ key = -1 ∧ (table keys i).length < LOCK_NUM := by
  rw [registered, Finset.mem_image] at hkey
  obtain ⟨j, hj, rfl⟩ := hkey
  obtain ⟨-, hji, hnonneg⟩ := Finset.mem_filter.1 hj
  refine (h.handle_eq_idxOf hnonneg hji (Nat.le_of_lt i.2)).2.imp_right fun he => ⟨he, ?_⟩
  have hroom := ((handle_nonneg j).1 hnonneg).resolve_left (he ▸ notMem_entered)
  rwa [h.table_eq he hroom (Nat.le_of_lt hji) (Nat.le_of_lt i.2)]

theorem toFinset_table_subset (i : Fin keys.length) :
    (table keys i).toFinset ⊆ k.initLocks.toCore.registered keys i := fun _ hkey =>
  mem_registered_of_mem_table (List.mem_toFinset.1 hkey)

theorem card_table (n : ℕ) : (table keys n).toFinset.card = (table keys n).length :=
  List.toFinset_card_of_nodup nodup_entered

/-- Unless the marker is registered and there is room, what is registered is what is in the table. -/
theorem MarkerLast.table_eq_registered (h : MarkerLast keys) {i : Fin keys.length}
    (hno : -1 ∈ k.initLocks.toCore.registered keys i → LOCK_NUM ≤ (table keys i).length) :
    (table keys i).toFinset = k.initLocks.toCore.registered keys i := by
  refine (toFinset_table_subset i).antisymm fun key hkey => List.mem_toFinset.2 ?_
  refine (h.mem_table_of_mem_registered hkey).resolve_right fun hr => ?_
  exact absurd (hno (hr.1 ▸ hkey)) (Nat.not_le.2 hr.2)

/-- Two valid handles are the same if and only if their keys are. -/
theorem MarkerLast.handle_eq_iff (h : MarkerLast keys) {i j : Fin keys.length}
    (hi : 0 ≤ k.initLocks.toCore.handle keys i) (hj : 0 ≤ k.initLocks.toCore.handle keys j) :
    k.initLocks.toCore.handle keys i = k.initLocks.toCore.handle keys j ↔ keys[i] = keys[j] := by
  obtain ⟨ei, hmi⟩ := h.handle_eq_idxOf hi i.2 le_rfl
  obtain ⟨ej, hmj⟩ := h.handle_eq_idxOf hj j.2 le_rfl
  rw [ei, ej, Int.natCast_inj]
  rcases hmi with hmi | hmi
  · exact List.idxOf_inj hmi
  · rcases hmj with hmj | hmj
    · rw [eq_comm, List.idxOf_inj hmj, eq_comm]
    · rw [hmi, hmj]
      exact iff_of_true rfl rfl

/-- A slot that a call has given keeps its key. -/
theorem MarkerLast.key_eq (h : MarkerLast keys) {i : Fin keys.length}
    (hi : 0 ≤ k.initLocks.toCore.handle keys i) {n : ℕ} (hin : i < n) (hn : n ≤ keys.length) :
    ∃ slot : Fin LOCK_NUM, k.initLocks.toCore.handle keys i = slot ∧
      (k.initLocks.toCore.lockInits (keys.take n)).lockKeys slot = keys[i] := by
  obtain ⟨ei, hmi⟩ := h.handle_eq_idxOf hi hin hn
  have hlt : (table keys n).idxOf keys[i] < LOCK_NUM := by
    have hlt : k.initLocks.toCore.handle keys i < LOCK_NUM := handle_lt i
    rw [ei] at hlt
    exact Int.ofNat_lt.1 hlt
  refine ⟨⟨_, hlt⟩, ei, ?_⟩
  rw [(slots_lockInits k keys n).apply]
  show (table keys n).getD ((table keys n).idxOf keys[i]) (-1) = keys[i]
  rcases hmi with hmi | hmi
  · rw [List.getD_eq_getElem _ _ (List.idxOf_lt_length_of_mem hmi), List.getElem_idxOf]
  · rw [hmi, List.idxOf_eq_length notMem_entered, List.getD_eq_default _ _ le_rfl]

/-- `-1` is returned for a new key when there are already `LOCK_NUM` of them, and only then. -/
theorem MarkerLast.handle_eq_neg_one_iff (h : MarkerLast keys) (i : Fin keys.length) :
    k.initLocks.toCore.handle keys i = -1 ↔
      keys[i] ∉ k.initLocks.toCore.registered keys i ∧
        (k.initLocks.toCore.registered keys i).card = LOCK_NUM := by
  have hle := (slots_lockInits k keys i).length_le
  constructor
  · intro hneg
    have hnot : ¬ (keys[i] ∈ table keys i ∨ (table keys i).length < LOCK_NUM) := fun hn => by
      have hnonneg := (handle_nonneg (k := k) i).2 hn
      omega
    obtain ⟨hnew, hfull⟩ := not_or.1 hnot
    have hfull := Nat.not_lt.1 hfull
    rw [← h.table_eq_registered fun _ => hfull, List.mem_toFinset, card_table]
    exact ⟨hnew, le_antisymm hle hfull⟩
  · rintro ⟨hnew, hfull⟩
    have hnot : keys[i] ∉ table keys i := fun hm => hnew (mem_registered_of_mem_table hm)
    rw [handle_eq, if_neg]
    rintro (hm | hroom)
    · exact hnot hm
    · -- one more key is registered than there are in the table, which must be the marker
      have hmarker : -1 ∈ k.initLocks.toCore.registered keys i := by
        by_contra hno
        rw [← h.table_eq_registered fun hm => absurd hm hno, card_table] at hfull
        omega
      have hkey : keys[i] ≠ -1 := fun e => hnew (e ▸ hmarker)
      rw [registered, Finset.mem_image] at hmarker
      obtain ⟨j, hj, hj1⟩ := hmarker
      obtain ⟨-, hji, -⟩ := Finset.mem_filter.1 hj
      rcases h j i hji hj1 hkey with hmem | hmany
      · exact hnot (mem_entered hmem hkey hroom)
      · exact absurd (length_entered_lt_iff.1 hroom) (Nat.not_lt.2 hmany)

/-- If no key needs a slot after the marker, the calls give what is expected. -/
theorem MarkerLast.handleMap (h : MarkerLast keys) (k : Kernel) :
    HandleMap keys k.initLocks.toCore where
  handle_eq_iff _ _ := h.handle_eq_iff
  key_eq _ hi _ := h.key_eq hi
  handle_eq_neg_one_iff := h.handle_eq_neg_one_iff

/-- If a key needs a slot after the marker, it gets that of the marker. -/
theorem HandleMap.markerLast {k : Kernel} (h : HandleMap keys k.initLocks.toCore) :
    MarkerLast keys := by
  intro i j hij hi hj
  by_contra hno
  rw [not_or, Nat.not_le, ← length_entered_lt_iff] at hno
  obtain ⟨hnew, hroom⟩ := hno
  have hpre : table keys i <+: table keys j := prefix_entered (Nat.le_of_lt hij)
  have hroomi := hpre.length_le.trans_lt hroom
  have hnot : keys[j] ∉ table keys j := fun hm => by
    obtain ⟨l, hl, he, -⟩ := exists_of_mem_entered (Nat.le_of_lt j.2) hm
    exact hnew (List.mem_take_iff_getElem.2 ⟨l, lt_min hl (hl.trans j.2), he⟩)
  -- the table has grown since the call number `i`
  have hsucc : table keys (j + 1) = table keys j ++ [keys[j]] := by
    rw [table, entered_take_succ j.2]
    exact enter_of_lt hj hnot hroom
  have hnonneg := (handle_nonneg (k := k) i).2 (.inr hroomi)
  obtain ⟨slot, hslot, hkey⟩ := h.key_eq i hnonneg (j + 1) (Nat.lt_succ_of_lt hij) j.2
  rw [handle_eq, if_pos (.inr hroomi), hi, List.idxOf_eq_length notMem_entered, Int.natCast_inj]
    at hslot
  rw [(slots_lockInits k keys (j + 1)).apply, ← hslot, hi] at hkey
  have hlt : (table keys i).length < (table keys (j + 1)).length := by
    rw [hsucc, List.length_append, List.length_singleton]
    exact Nat.lt_succ_of_le hpre.length_le
  rw [List.getD_eq_getElem _ _ hlt] at hkey
  exact notMem_entered (hkey ▸ List.getElem_mem hlt)

end

end Core

/-- **The handles are what is expected exactly if no key needs a new slot once the marker has been
used as a key.** -/
theorem handleMap_iff (k : Kernel) (keys : List ℤ) :
    Core.HandleMap keys k.initLocks.toCore ↔ Core.MarkerLast keys :=
  ⟨Core.HandleMap.markerLast, fun h => h.handleMap k⟩

/-- The keys `-1` and `5` get the same handle. -/
theorem handleMap_fails :
    ¬ ∀ (k : Kernel) (keys : List ℤ), Core.HandleMap keys k.initLocks.toCore := by
  intro h
  have hlast := (h (Kernel.static 1 fun _ => 0) [-1, 5]).markerLast 0 1 (by decide) rfl (by decide)
  exact absurd hlast (by decide)

end UcasOs
