import Mathlib.Data.BitVec

/-!
# Page allocation

`kernel/mm/mm.c`: two bump allocators, one for kernel pages and one for user pages, and the way
both `init_pcb` and `do_thread_create` use them to give a task its two stacks.

Addresses are `ptr_t`, that is, 64-bit words, and all arithmetic on them wraps.  Neither allocator
has an upper bound and nothing is ever given back, so the two cursors only depend on how many
tasks and threads have been given their stacks: `giveStacks_after` is the closed form.
-/

set_option autoImplicit false

namespace UcasOs

/-- `ptr_t` -/
abbrev Ptr := BitVec 64

/-- `PAGE_SIZE` -/
def PAGE_SIZE : Ptr := 4096

/-- `INIT_KERNEL_STACK` -/
def INIT_KERNEL_STACK : Ptr := 0x50500000

/-- `INIT_USER_STACK` -/
def INIT_USER_STACK : Ptr := 0x52500000

/-- `TASK_MEM_BASE` -/
def TASK_MEM_BASE : Ptr := 0x52000000

/-- `FREEMEM_KERNEL` -/
def FREEMEM_KERNEL : Ptr := INIT_KERNEL_STACK + PAGE_SIZE

/-- `FREEMEM_USER` -/
def FREEMEM_USER : Ptr := INIT_USER_STACK

/-- `ROUND(a, n)`: the next multiple of `n`, for `n` a power of two. -/
def round (a n : Ptr) : Ptr := (a + n - 1) &&& ~~~(n - 1)

/-- The two cursors of `mm.c`. -/
structure Mm where
  /-- `kernMemCurr` -/
  kernMemCurr : Ptr := FREEMEM_KERNEL
  /-- `userMemCurr` -/
  userMemCurr : Ptr := FREEMEM_USER

/-- The tops of the two stacks a task or thread is created with. -/
structure Stacks where
  /-- `kernel_stack` -/
  kernelStack : Ptr
  /-- `user_stack` -/
  userStack : Ptr

namespace Mm

/-- `allocKernelPage(numPage)` -/
def allocKernelPage (numPage : Ptr) (m : Mm) : Ptr × Mm :=
  let ret := round m.kernMemCurr PAGE_SIZE
  (ret, { m with kernMemCurr := ret + numPage * PAGE_SIZE })

/-- `allocUserPage(numPage)` -/
def allocUserPage (numPage : Ptr) (m : Mm) : Ptr × Mm :=
  let ret := round m.userMemCurr PAGE_SIZE
  (ret, { m with userMemCurr := ret + numPage * PAGE_SIZE })

/-- The two lines `init_pcb` and `do_thread_create` have in common: one kernel page and sixteen
user pages, of which the stack pointers start at the upper end. -/
def giveStacks (m : Mm) : Stacks × Mm :=
  let (kernelPage, m) := m.allocKernelPage 1
  let (userPage, m) := m.allocUserPage 16
  (⟨kernelPage + PAGE_SIZE, userPage + PAGE_SIZE * 16⟩, m)

/-! ## The cursors in closed form -/

/-- The cursors after `n` tasks or threads have been given their stacks. -/
def after (n : ℕ) : Mm :=
  ⟨FREEMEM_KERNEL + BitVec.ofNat 64 n * PAGE_SIZE,
   FREEMEM_USER + BitVec.ofNat 64 n * (16 * PAGE_SIZE)⟩

/-- The stacks given to the `n`-th task or thread, counting from `0`. -/
def stacksOf (n : ℕ) : Stacks :=
  ⟨FREEMEM_KERNEL + BitVec.ofNat 64 (n + 1) * PAGE_SIZE,
   FREEMEM_USER + BitVec.ofNat 64 (n + 1) * (16 * PAGE_SIZE)⟩

theorem pageMask_getLsbD :
    ∀ i : Fin 64, (~~~(PAGE_SIZE - 1)).getLsbD i = decide (12 ≤ (i : ℕ)) := by
  decide

/-- Masking with the page mask clears the offset in the page. -/
theorem and_pageMask (a : Ptr) : a &&& ~~~(PAGE_SIZE - 1) = (a >>> 12) <<< 12 := by
  ext i hi
  have h1 : (~~~(PAGE_SIZE - 1))[i] = decide (12 ≤ i) := pageMask_getLsbD ⟨i, hi⟩
  rw [BitVec.getElem_and, h1, BitVec.getElem_shiftLeft]
  by_cases h : 12 ≤ i
  · simp [h, Nat.not_lt.2 h, BitVec.getElem_eq_testBit_toNat]
  · simp [h, Nat.not_le.1 h]

/-- `ROUND` to a page keeps an address that is a multiple of the page size. -/
theorem round_mul_PAGE_SIZE (n : Ptr) : round (n * PAGE_SIZE) PAGE_SIZE = n * PAGE_SIZE := by
  have h1 : n * PAGE_SIZE + PAGE_SIZE - 1 = n * 4096#64 + 4095#64 := by
    rw [BitVec.sub_eq_add_neg, BitVec.add_assoc]; rfl
  rw [round, h1, and_pageMask]
  apply BitVec.eq_of_toNat_eq
  simp only [PAGE_SIZE, BitVec.toNat_shiftLeft, BitVec.toNat_ushiftRight, Nat.shiftLeft_eq,
    Nat.shiftRight_eq_div_pow, BitVec.toNat_add, BitVec.toNat_mul, BitVec.toNat_ofNat,
    BitVec.ofNat_eq_ofNat]
  omega

theorem kernMemCurr_after (n : ℕ) :
    (after n).kernMemCurr = (BitVec.ofNat 64 n + 0x50501#64) * PAGE_SIZE := by
  rw [BitVec.add_mul, BitVec.add_comm]; rfl

theorem userMemCurr_after (n : ℕ) :
    (after n).userMemCurr = (BitVec.ofNat 64 n * 16#64 + 0x52500#64) * PAGE_SIZE := by
  rw [BitVec.add_mul, BitVec.add_comm, BitVec.mul_assoc]; rfl

/-- **What the `n`-th task or thread is given**, and where this leaves the cursors. -/
theorem giveStacks_after (n : ℕ) : (after n).giveStacks = (stacksOf n, after (n + 1)) := by
  have h1 : BitVec.ofNat 64 (n + 1) = BitVec.ofNat 64 n + 1#64 := BitVec.ofNat_add n 1
  have hk : round (after n).kernMemCurr PAGE_SIZE = (after n).kernMemCurr := by
    rw [kernMemCurr_after, round_mul_PAGE_SIZE]
  have hu : round (after n).userMemCurr PAGE_SIZE = (after n).userMemCurr := by
    rw [userMemCurr_after, round_mul_PAGE_SIZE]
  simp only [giveStacks, allocKernelPage, allocUserPage, hk, hu]
  simp only [after, stacksOf, h1, BitVec.add_mul, BitVec.add_assoc, BitVec.one_mul,
    BitVec.mul_comm PAGE_SIZE]
  rfl

end Mm

end UcasOs
