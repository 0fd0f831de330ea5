import MyOs.Lib.Runs
import MyOs.Lib.Stacks
import MyOs.Sched.Threads

/-!
# How a new thread is entered

A new thread is not called but returned to: `build_kernel_thread_frame`, `build_user_thread_frame` and
`scheduler_fork` lay words on its kernel stack, and `isr_common_stub` pops them and ends with `iretq`.
`frameAt` is the packed `intr_frame_t` in memory, and `isrReturn_frameAt` says that the pops take every
register from its own field of it.

In 64-bit mode `iretq` always pops five words.  The frames of user threads and of forked children have
them; that of a kernel thread has three, so `rsp` comes from a word that nobody wrote and `ss` from
above the stack (`kernel_entry`).
-/

open Lib Function

namespace MyOs

open List

/-! ## The processor on its way out of an interrupt -/

/-- The general registers that `isr_common_stub` saves, in the order of `intr_frame_t`. -/
inductive Gpr
  | r15 | r14 | r13 | r12 | r11 | r10 | r9 | r8 | rsi | rdi | rbp | rdx | rcx | rbx | rax
deriving DecidableEq

/-- What a thread runs with. -/
structure CpuRegs where
  gpr : Gpr → ℕ
  rip : ℕ
  cs : ℕ
  rflags : ℕ
  rsp : ℕ
  ss : ℕ

/-- A processor, and the addresses of the words that it has popped. -/
structure Core where
  regs : CpuRegs
  reads : List ℕ

/-- The instructions at the end of `isr_common_stub`. -/
inductive StubInsn
  | popq (r : Gpr)
  | addqRsp (n : ℕ)
  | iretq

def Core.exec (m : Memory) (c : Core) : StubInsn → Core
  | .popq r =>
    { regs := { c.regs with
        gpr := Function.update c.regs.gpr r (loadLE m 8 c.regs.rsp), rsp := c.regs.rsp + 8 }
      reads := c.reads ++ [c.regs.rsp] }
  | .addqRsp n => { c with regs := { c.regs with rsp := c.regs.rsp + n } }
  | .iretq =>
    let sp := c.regs.rsp
    { regs := { c.regs with
        rip := loadLE m 8 sp, cs := loadLE m 8 (sp + 8), rflags := loadLE m 8 (sp + 16)
        rsp := loadLE m 8 (sp + 24), ss := loadLE m 8 (sp + 32) }
      reads := c.reads ++ [sp, sp + 8, sp + 16, sp + 24, sp + 32] }

/-- `isr_common_stub` after `movq %rax, %rsp`. -/
def isrReturn : List StubInsn :=
  [.popq .r15, .popq .r14, .popq .r13, .popq .r12, .popq .r11, .popq .r10, .popq .r9, .popq .r8,
    .popq .rsi, .popq .rdi, .popq .rbp, .popq .rdx, .popq .rcx, .popq .rbx, .popq .rax,
    .addqRsp 16, .iretq]

/-- Return to the frame at `sp`. -/
def Core.returnTo (m : Memory) (regs : CpuRegs) (sp : ℕ) : Core :=
  run (Core.exec m) ⟨{ regs with rsp := sp }, []⟩ isrReturn

/-! ## Frames in memory -/

/-- The `intr_frame_t` at an address. -/
def frameAt (m : Memory) (a : ℕ) : Frame where
  r15 := loadLE m 8 a
  r14 := loadLE m 8 (a + 8)
  r13 := loadLE m 8 (a + 16)
  r12 := loadLE m 8 (a + 24)
  r11 := loadLE m 8 (a + 32)
  r10 := loadLE m 8 (a + 40)
  r9 := loadLE m 8 (a + 48)
  r8 := loadLE m 8 (a + 56)
  rsi := loadLE m 8 (a + 64)
  rdi := loadLE m 8 (a + 72)
  rbp := loadLE m 8 (a + 80)
  rdx := loadLE m 8 (a + 88)
  rcx := loadLE m 8 (a + 96)
  rbx := loadLE m 8 (a + 104)
  rax := loadLE m 8 (a + 112)
  intNo := loadLE m 8 (a + 120)
  errCode := loadLE m 8 (a + 128)
  rip := loadLE m 8 (a + 136)
  cs := loadLE m 8 (a + 144)
  rflags := loadLE m 8 (a + 152)
  rsp := loadLE m 8 (a + 160)
  ss := loadLE m 8 (a + 168)

namespace Frame

/-- The fields in the order of the struct. -/
def words (f : Frame) : List ℕ :=
  [f.r15, f.r14, f.r13, f.r12, f.r11, f.r10, f.r9, f.r8, f.rsi, f.rdi, f.rbp, f.rdx, f.rcx, f.rbx, f.rax,
    f.intNo, f.errCode, f.rip, f.cs, f.rflags, f.rsp, f.ss]

/-- The general registers of a frame. -/
def gpr (f : Frame) : Gpr → ℕ
  | .r15 => f.r15 | .r14 => f.r14 | .r13 => f.r13 | .r12 => f.r12 | .r11 => f.r11 | .r10 => f.r10
  | .r9 => f.r9 | .r8 => f.r8 | .rsi => f.rsi | .rdi => f.rdi | .rbp => f.rbp | .rdx => f.rdx
  | .rcx => f.rcx | .rbx => f.rbx | .rax => f.rax

/-- The registers that a frame stands for. -/
def regs (f : Frame) : CpuRegs where
  gpr := f.gpr
  rip := f.rip
  cs := f.cs
  rflags := f.rflags
  rsp := f.rsp
  ss := f.ss

end Frame

lemma frameAt_of_words {m : Memory} {a : ℕ} {f : Frame} (h : wordsFrom m a 22 = f.words) :
    frameAt m a = f := by
  cases f
  simpa [wordsFrom, Frame.words, frameAt, Nat.add_assoc] using h

variable {sp : ℕ} {c : CpuRegs}

lemma frameAt_pushWords {m : Memory} {n : ℕ} {vs : List ℕ} {f : Frame} (hsp : 8 * vs.length ≤ sp)
    (hlen : vs.length + n = 22) (hf : (vs.map (· % 2 ^ 64)).reverse ++ wordsFrom m sp n = f.words) :
    frameAt (pushWords m sp vs).1 (pushWords m sp vs).2 = f := by
  refine frameAt_of_words ?_
  rw [← hf, ← hlen, pushWords_snd, wordsFrom_pushWords n m hsp]

/-- The words that a return to `sp` pops: all of the frame but `int_no` and `err_code`. -/
def poppedWords (sp : ℕ) : List ℕ :=
  ((List.range 15).map fun i => sp + 8 * i) ++ ((List.range 5).map fun i => sp + 136 + 8 * i)

/-- **The pops take every register from its own field.**  Whatever the registers were, a return to `sp`
loads those of the `intr_frame_t` there. -/
theorem isrReturn_frameAt (m : Memory) (regs : CpuRegs) (sp : ℕ) :
    Core.returnTo m regs sp = ⟨(frameAt m sp).regs, poppedWords sp⟩ := by
  have hgpr : (Core.returnTo m regs sp).regs.gpr = (frameAt m sp).gpr := by
    funext r
    cases r <;> simp [Core.returnTo, isrReturn, Core.exec, update, Frame.gpr, frameAt,
      Nat.add_assoc]
  have hrest : Core.returnTo m regs sp =
      ⟨{ (frameAt m sp).regs with gpr := (Core.returnTo m regs sp).regs.gpr }, poppedWords sp⟩ := by
    simp [Core.returnTo, isrReturn, Core.exec, Frame.regs, frameAt, poppedWords, range,
      range.loop, Nat.add_assoc]
  rw [hrest, hgpr]
  rfl

/-! ## The way in -/

/-- The order in which `isr_common_stub` pushes the registers. -/
def stubPushes : List Gpr :=
  [.rax, .rbx, .rcx, .rdx, .rbp, .rdi, .rsi, .r8, .r9, .r10, .r11, .r12, .r13, .r14, .r15]

/-- An interrupt without error code from user mode: the processor pushes five words, `ISR_NOERR` two, and
`isr_common_stub` the registers. -/
def isrEntry (m : Memory) (sp vector : ℕ) (c : CpuRegs) : Memory × ℕ :=
  pushWords m sp ([c.ss, c.rsp, c.rflags, c.cs, c.rip, 0, vector] ++ stubPushes.map c.gpr)

/-- Registers hold 64-bit words. -/
structure CpuRegs.Fits (c : CpuRegs) : Prop where
  gpr : ∀ r, c.gpr r < 2 ^ 64
  rip : c.rip < 2 ^ 64
  cs : c.cs < 2 ^ 64
  rflags : c.rflags < 2 ^ 64
  rsp : c.rsp < 2 ^ 64
  ss : c.ss < 2 ^ 64

/-- The frame that an interrupt leaves on the stack holds the registers it found. -/
lemma frameAt_isrEntry (hc : c.Fits) (m : Memory) (hsp : frameSize ≤ sp) (vector : ℕ) :
    (frameAt (isrEntry m sp vector c).1 (isrEntry m sp vector c).2).regs = c := by
  have hframe : frameAt (isrEntry m sp vector c).1 (isrEntry m sp vector c).2 =
      { r15 := c.gpr .r15, r14 := c.gpr .r14, r13 := c.gpr .r13, r12 := c.gpr .r12, r11 := c.gpr .r11
        r10 := c.gpr .r10, r9 := c.gpr .r9, r8 := c.gpr .r8, rsi := c.gpr .rsi, rdi := c.gpr .rdi
        rbp := c.gpr .rbp, rdx := c.gpr .rdx, rcx := c.gpr .rcx, rbx := c.gpr .rbx, rax := c.gpr .rax
        intNo := vector % 2 ^ 64, errCode := 0, rip := c.rip, cs := c.cs, rflags := c.rflags
        rsp := c.rsp, ss := c.ss } := by
    have hgpr : ∀ r, c.gpr r % 2 ^ 64 = c.gpr r := fun r => Nat.mod_eq_of_lt (hc.gpr r)
    refine frameAt_pushWords (n := 0) hsp rfl ?_
    simp only [stubPushes, map_cons, map_nil, cons_append, nil_append, hgpr,
      Nat.mod_eq_of_lt hc.rip, Nat.mod_eq_of_lt hc.cs, Nat.mod_eq_of_lt hc.rflags,
      Nat.mod_eq_of_lt hc.rsp, Nat.mod_eq_of_lt hc.ss, Nat.zero_mod]
    rfl
  rw [hframe, Frame.regs]
  congr
  funext r
  cases r <;> rfl

/-- **What the pushes save the pops restore.** -/
theorem isr_round_trip (hc : c.Fits) (m : Memory) (hsp : frameSize ≤ sp) (vector : ℕ) (regs : CpuRegs) :
    (Core.returnTo (isrEntry m sp vector c).1 regs (isrEntry m sp vector c).2).regs = c := by
  rw [isrReturn_frameAt, frameAt_isrEntry hc m hsp]

/-- The registers of a user program. -/
def userRegs : CpuRegs :=
  ⟨fun _ => 7, 0x8000001000, gdtSelUcode, 0x202, 0x8000003000, gdtSelUdata⟩

lemma userRegs_fits : userRegs.Fits := by
  constructor <;> simp [userRegs, gdtSelUcode, gdtSelUdata]

theorem isr_round_trip_user :
    (Core.returnTo (isrEntry (fun _ => 0) 0x4000 32 userRegs).1 ⟨fun _ => 0, 0, 0, 0, 0, 0⟩
      (isrEntry (fun _ => 0) 0x4000 32 userRegs).2).regs = userRegs :=
  isr_round_trip userRegs_fits _ (by decide) 32 _

/-! ## The kernel stack of a thread -/

/-- A kernel stack: pages that `pmm_alloc_pages` has granted. -/
structure KStack where
  base : ℕ
  size : ℕ
  base_aligned : base % pageSize = 0
  size_aligned : size % pageSize = 0
  size_pos : 0 < size
  fits : base + size < 2 ^ 64

namespace KStack

variable (k : KStack)

/-- `t->kstack + t->kstack_size`. -/
def top : ℕ := k.base + k.size

/-- The word at `a` lies inside the stack. -/
def Holds (a : ℕ) : Prop := k.base ≤ a ∧ a + 8 ≤ k.top

lemma page_le_size : pageSize ≤ k.size := by
  have hdiv := Nat.dvd_of_mod_eq_zero k.size_aligned
  exact Nat.le_of_dvd k.size_pos hdiv

/-- `build_kernel_thread_frame`: the pushes from `top - 8` down. -/
def buildKernelThreadFrame (m : Memory) (trampoline fn arg : UInt64) : Memory × ℕ :=
  pushWords m (k.top - 8)
    [0x202, gdtSelKcode, trampoline.toNat, 0, 0,
      0, 0, 0, 0, 0, fn.toNat, arg.toNat, 0, 0, 0, 0, 0, 0, 0, 0]

/-- `build_user_thread_frame`: the pushes from `top` down. -/
def buildUserThreadFrame (m : Memory) (ustackTop userRip : UInt64) : Memory × ℕ :=
  pushWords m k.top
    [gdtSelUdata, ustackTop.toNat / 16 * 16, 0x202, gdtSelUcode, userRip.toNat, 0, 0,
      0, 0, 0, 0, 0, 0, 0, 0, 0, 0, 0, 0, 0, 0, 0]

/-- The frame of the child in `scheduler_fork`: a copy of the parent's with `rax` cleared. -/
def buildForkFrame (m : Memory) (frame : ℕ) : Memory × ℕ :=
  let childFrame := k.top - frameSize
  let m := overlay m childFrame frameSize fun i => m (frame + i)
  (storeLE m 8 (childFrame + 112) 0, childFrame)

lemma page_le_top : 4096 ≤ k.top := le_trans k.page_le_size (Nat.le_add_left _ _)

/-- The frame of a kernel thread has all words but the last two, which are as they were. -/
lemma frameAt_kernel (m : Memory) (trampoline fn arg : UInt64) :
    frameAt (k.buildKernelThreadFrame m trampoline fn arg).1
        (k.buildKernelThreadFrame m trampoline fn arg).2 =
      { rip := trampoline.toNat, cs := gdtSelKcode, rflags := 0x202, rdi := fn.toNat, rsi := arg.toNat
        rsp := loadLE m 8 (k.top - 8), ss := loadLE m 8 k.top } := by
  have hpage := k.page_le_top
  have htop : k.top - 8 + 8 = k.top := by omega
  refine frameAt_pushWords (n := 2) (by simp only [length_cons, length_nil]; omega) rfl ?_
  simp [Frame.words, wordsFrom, htop, gdtSelKcode]

lemma frameAt_user (m : Memory) (ustackTop userRip : UInt64) :
    frameAt (k.buildUserThreadFrame m ustackTop userRip).1
        (k.buildUserThreadFrame m ustackTop userRip).2 =
      { rip := userRip.toNat, cs := gdtSelUcode, rflags := 0x202, rsp := ustackTop.toNat / 16 * 16
        ss := gdtSelUdata } := by
  have hpage := k.page_le_top
  refine frameAt_pushWords (n := 0) (by simp only [length_cons, length_nil]; omega) rfl ?_
  have hround : ustackTop.toNat / 16 * 16 < 2 ^ 64 :=
    lt_of_le_of_lt (Nat.div_mul_le_self _ _) ustackTop.toNat_lt
  simpa [Frame.words, wordsFrom, gdtSelUcode, gdtSelUdata] using hround

lemma frameAt_fork (m : Memory) (frame : ℕ) :
    frameAt (k.buildForkFrame m frame).1 (k.buildForkFrame m frame).2 =
      { frameAt m frame with rax := 0 } := by
  have hcopy : ∀ j, j + 8 ≤ 176 → j ≠ 112 → j % 8 = 0 →
      loadLE (k.buildForkFrame m frame).1 8 (k.top - frameSize + j) = loadLE m 8 (frame + j) := by
    intro j hj hne hmod
    rw [buildForkFrame, loadLE_storeLE_outside (by omega), loadLE_copy m _ _ hj]
  have hrax : loadLE (k.buildForkFrame m frame).1 8 (k.top - frameSize + 112) = 0 := by
    rw [buildForkFrame, loadLE_storeLE]
    rfl
  have hzero := hcopy 0 (by omega) (by omega) rfl
  rw [Nat.add_zero] at hzero
  show frameAt (k.buildForkFrame m frame).1 (k.top - frameSize) = _
  simp [frameAt, hcopy, hrax, hzero]

end KStack

/-! ## Entering a thread for the first time -/

/-- How a thread is started: `thread_create_kernel`, `thread_create_user`, or `scheduler_fork` with the
frame of the parent. -/
inductive Start
  | kernel (fn arg : UInt64)
  | user (ustackTop userRip : UInt64)
  | fork (frame : ℕ)

namespace Start

/-- The memory with the first frame of the thread, and the `rsp` stored for it. -/
def build (k : KStack) (m : Memory) (trampoline : UInt64) : Start → Memory × ℕ
  | kernel fn arg => k.buildKernelThreadFrame m trampoline fn arg
  | user ustackTop userRip => k.buildUserThreadFrame m ustackTop userRip
  | fork frame => k.buildForkFrame m frame

/-- The thread is to run in user mode. -/
def isUser : Start → Bool
  | kernel _ _ => false
  | user _ _ => true
  | fork _ => true

/-- What the thread is to start with: `thread_trampoline(fn, arg)` on its own stack, as if called; the
entry of the program on the user stack; or where the parent is, with all it has, but 0 in `rax`. -/
def Intended (k : KStack) (m : Memory) (trampoline : UInt64) : Start → CpuRegs → Prop
  | kernel fn arg, c => c.rip = trampoline.toNat ∧ c.gpr .rdi = fn.toNat ∧ c.gpr .rsi = arg.toNat ∧
      k.base ≤ c.rsp ∧ c.rsp < k.top ∧ c.rsp % 16 = 8
  | user ustackTop userRip, c => c.rip = userRip.toNat ∧ c.rsp = ustackTop.toNat / 16 * 16 ∧
      c.cs = gdtSelUcode ∧ c.ss = gdtSelUdata
  | fork frame, c => c =
      { (frameAt m frame).regs with gpr := Function.update (frameAt m frame).gpr .rax 0 }

/-- The processor after the return that enters the thread, whatever ran before. -/
def entered (st : Start) (k : KStack) (m : Memory) (trampoline : UInt64) (regs : CpuRegs) : Core :=
  Core.returnTo (st.build k m trampoline).1 regs (st.build k m trampoline).2

variable {k : KStack} {m : Memory} {trampoline : UInt64} {regs : CpuRegs}

lemma entered_eq (st : Start) : st.entered k m trampoline regs =
    ⟨(frameAt (st.build k m trampoline).1 (st.build k m trampoline).2).regs,
      poppedWords (st.build k m trampoline).2⟩ :=
  isrReturn_frameAt _ _ _

/-- A kernel thread comes to its function with its argument; but its `rsp` is the word that was at the
top of the stack, and its `ss` the word above the stack. -/
lemma kernel_entry (fn arg : UInt64) : ((kernel fn arg).entered k m trampoline regs).regs =
    Frame.regs { rip := trampoline.toNat, cs := gdtSelKcode, rflags := 0x202, rdi := fn.toNat
                 rsi := arg.toNat, rsp := loadLE m 8 (k.top - 8), ss := loadLE m 8 k.top } := by
  rw [entered_eq, build, k.frameAt_kernel]

lemma kernel_reads (fn arg : UInt64) :
    k.top ∈ ((kernel fn arg).entered k m trampoline regs).reads := by
  have hpage := k.page_le_top
  rw [entered_eq, build, KStack.buildKernelThreadFrame, pushWords_snd, poppedWords]
  refine mem_append_right _ (mem_map.mpr ⟨4, by decide, ?_⟩)
  simp only [length_cons, length_nil]
  omega

lemma user_intended (ustackTop userRip : UInt64) : (user ustackTop userRip).Intended k m trampoline
    ((user ustackTop userRip).entered k m trampoline regs).regs := by
  rw [entered_eq, build, k.frameAt_user]
  exact ⟨rfl, rfl, rfl, rfl⟩

lemma fork_intended (frame : ℕ) : (fork frame).Intended k m trampoline
    ((fork frame).entered k m trampoline regs).regs := by
  rw [entered_eq, build, k.frameAt_fork, Intended, Frame.regs, Frame.regs, CpuRegs.mk.injEq]
  refine ⟨?_, rfl, rfl, rfl, rfl, rfl⟩
  funext r
  cases r <;> simp [Frame.gpr, update]

/-- A frame of 176 bytes at the top of the stack is popped from inside the stack. -/
lemma poppedWords_inside (hsp : sp = k.top - frameSize) : ∀ a ∈ poppedWords sp, k.Holds a := by
  have hpage : 4096 ≤ k.size := k.page_le_size
  have htop : k.top = k.base + k.size := rfl
  have hframe : frameSize = 176 := rfl
  intro a ha
  simp only [poppedWords, mem_append, mem_map, mem_range] at ha
  rw [KStack.Holds]
  rcases ha with ⟨i, hi, rfl⟩ | ⟨i, hi, rfl⟩ <;> omega

/-- **Which first frames agree with the stub.**  For every kernel stack, every memory, every thread and
whatever ran before: the return enters the thread as intended, and reads only words of its kernel stack,
just when it is a user thread, new or forked. -/
theorem first_entry_iff (st : Start) (k : KStack) (m : Memory) (trampoline : UInt64) (regs : CpuRegs) :
    (st.Intended k m trampoline (st.entered k m trampoline regs).regs ∧
        ∀ a ∈ (st.entered k m trampoline regs).reads, k.Holds a) ↔
      st.isUser = true := by
  cases st with
  | kernel fn arg =>
    refine iff_of_false (fun h => ?_) (by simp [isUser])
    have hout := (h.2 _ (kernel_reads fn arg)).2
    omega
  | user ustackTop userRip =>
    refine iff_of_true ⟨user_intended ustackTop userRip, ?_⟩ rfl
    rw [entered_eq, build]
    exact poppedWords_inside (pushWords_snd _ _ _)
  | fork frame =>
    refine iff_of_true ⟨fork_intended frame, ?_⟩ rfl
    rw [entered_eq, build]
    exact poppedWords_inside rfl

/-- Four pages at 3 MiB. -/
def fourPages : KStack := ⟨0x300000, 0x4000, by decide, by decide, by decide, by decide⟩

/-- **A forked child is its parent with 0 in `rax`**, at the interrupt that called `scheduler_fork`. -/
theorem fork_child_resumes (hc : c.Fits) (hsp : frameSize ≤ sp) (vector : ℕ) :
    ((fork (isrEntry m sp vector c).2).entered k (isrEntry m sp vector c).1 trampoline regs).regs =
      { c with gpr := update c.gpr .rax 0 } := by
  have hregs := frameAt_isrEntry hc m hsp vector
  have hgpr := congrArg CpuRegs.gpr hregs
  rw [fork_intended, hregs]
  exact congrArg (fun g => { c with gpr := update g .rax 0 }) hgpr

theorem fork_child_resumes_user :
    ((fork (isrEntry (fun _ => 0) 0x4000 0x80 userRegs).2).entered fourPages
        (isrEntry (fun _ => 0) 0x4000 0x80 userRegs).1 0x100000 ⟨fun _ => 0, 0, 0, 0, 0, 0⟩).regs =
      { userRegs with gpr := update userRegs.gpr .rax 0 } :=
  fork_child_resumes userRegs_fits (by decide) _

/-- **A kernel thread without a stack.**  On a stack of zeroes `thread_trampoline` is entered with `rsp`
0, and the word above the stack is read. -/
theorem kernel_thread_loses_stack :
    let e := (kernel 0x101000 0).entered fourPages (fun _ => 0) 0x100000 ⟨fun _ => 0, 0, 0, 0, 0, 0⟩
    e.regs.rip = 0x100000 ∧ e.regs.rsp = 0 ∧ ¬ fourPages.base ≤ e.regs.rsp ∧
      0x304000 ∈ e.reads ∧ ¬ fourPages.Holds 0x304000 := by
  have hzero : loadLE (fun _ => 0) 8 (fourPages.top - 8) = 0 := loadLE_eq_zero fun _ _ _ => rfl
  have hreads := @kernel_reads fourPages (fun _ => 0) 0x100000 ⟨fun _ => 0, 0, 0, 0, 0, 0⟩ 0x101000 0
  have hregs := @kernel_entry fourPages (fun _ => 0) 0x100000 ⟨fun _ => 0, 0, 0, 0, 0, 0⟩ 0x101000 0
  intro e
  rw [show e.regs = _ from hregs, Frame.regs, hzero]
  refine ⟨rfl, rfl, by decide, hreads, ?_⟩
  rw [KStack.Holds]
  decide

end Start

/-! ## The frames of the scheduler's model -/

namespace Sched

variable {s : Sched} {k : KStack} {i : Slot}

/-- The slot has this kernel stack. -/
def HasStack (s : Sched) (i : Slot) (k : KStack) : Prop :=
  (s.threads i).kstack = k.base ∧ (s.threads i).kstackSize = k.size

/-- The frame that the scheduler's model notes for a new user thread is the one in memory. -/
lemma buildUserThreadFrame_frameAt (h : s.HasStack i k) (m : Memory) {ustackTop : UInt64}
    (htop : (s.threads i).ustackTop = ustackTop.toNat) (userRip : UInt64) :
    ((s.buildUserThreadFrame i userRip.toNat).threads i).rsp =
        (k.buildUserThreadFrame m ustackTop userRip).2 ∧
      (s.buildUserThreadFrame i userRip.toNat).frames (k.buildUserThreadFrame m ustackTop userRip).2 =
        frameAt (k.buildUserThreadFrame m ustackTop userRip).1
          (k.buildUserThreadFrame m ustackTop userRip).2 := by
  have hsp : (k.buildUserThreadFrame m ustackTop userRip).2 = k.base + k.size - frameSize :=
    pushWords_snd _ _ _
  rw [k.frameAt_user, hsp, buildUserThreadFrame, buildFrame, h.1, h.2, htop]
  simp

lemma buildKernelThreadFrame_frameAt (h : s.HasStack i k) (m : Memory) (trampoline fn arg : UInt64) :
    ((s.buildKernelThreadFrame i trampoline.toNat fn.toNat arg.toNat).threads i).rsp =
        (k.buildKernelThreadFrame m trampoline fn arg).2 ∧
      (s.buildKernelThreadFrame i trampoline.toNat fn.toNat arg.toNat).frames
          (k.buildKernelThreadFrame m trampoline fn arg).2 =
        { frameAt (k.buildKernelThreadFrame m trampoline fn arg).1
            (k.buildKernelThreadFrame m trampoline fn arg).2 with rsp := 0, ss := 0 } := by
  have hsp : (k.buildKernelThreadFrame m trampoline fn arg).2 = k.base + k.size - 8 - (frameSize - 16) :=
    pushWords_snd _ _ _
  rw [k.frameAt_kernel, hsp, buildKernelThreadFrame, buildFrame, h.1, h.2]
  simp

lemma forkRuns_frameAt (h : s.HasStack i k) {m : Memory} {frame : ℕ}
    (hframe : s.frames frame = frameAt m frame) (hne : (k.buildForkFrame m frame).2 ≠ frame) :
    ((s.forkRuns frame i).threads i).rsp = (k.buildForkFrame m frame).2 ∧
      (s.forkRuns frame i).frames (k.buildForkFrame m frame).2 =
        frameAt (k.buildForkFrame m frame).1 (k.buildForkFrame m frame).2 := by
  have hsp : (k.buildForkFrame m frame).2 = k.base + k.size - frameSize := rfl
  rw [k.frameAt_fork, ← hframe, forkRuns, h.1, h.2, ← hsp]
  simp [hne]

end Sched

end MyOs
