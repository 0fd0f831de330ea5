import MyOs.Memory.UserMemory

/-!
# The thread table and the scheduler

`src/scheduler.c`, with `thread_t` (`include/thread.h`) and `intr_frame_t`
(`include/arch/x86_64/interrupts.h`).  A thread pointer is a slot of `g_threads`, a frame pointer is
the address of an interrupt frame on some kernel stack.

The scheduler calls the page allocator, the kernel heap, the file system, the ELF loader and the
page-table code.  What those return is an input (`Replies`), and the calls that take or give back a
resource are recorded in the order they are made (`Call`).  The registry of user spaces is part of
the state: `registerSpace`, `retainSpace` and `releaseSpace` are the functions of `src/vmm.c`.
A store that faults in the kernel does not return: such a function gives `none`, or `.error` with the
state it leaves behind if it has stored something before.
-/

namespace MyOs

open Lib

abbrev maxThreads : ℕ := 64

abbrev maxCpus : ℕ := 8

/-- A pointer into `g_threads`. -/
abbrev Slot := Fin maxThreads

abbrev Cpu := Fin maxCpus

instance neZeroSlots : NeZero maxThreads := ⟨by decide⟩

instance neZeroCpus : NeZero maxCpus := ⟨by decide⟩

/-- `thread_state_t`. -/
inductive ThreadState
  | unused
  | ready
  | running
  | sleeping
  | blocked
  | zombie
deriving DecidableEq

/-- `intr_frame_t`. -/
structure Frame where
  r15 : ℕ := 0
  r14 : ℕ := 0
  r13 : ℕ := 0
  r12 : ℕ := 0
  r11 : ℕ := 0
  r10 : ℕ := 0
  r9 : ℕ := 0
  r8 : ℕ := 0
  rsi : ℕ := 0
  rdi : ℕ := 0
  rbp : ℕ := 0
  rdx : ℕ := 0
  rcx : ℕ := 0
  rbx : ℕ := 0
  rax : ℕ := 0
  intNo : ℕ := 0
  errCode : ℕ := 0
  rip : ℕ := 0
  cs : ℕ := 0
  rflags : ℕ := 0
  rsp : ℕ := 0
  ss : ℕ := 0

/-- `sizeof(intr_frame_t)`. -/
abbrev frameSize : ℕ := 176

/-- `GDT_SEL_KCODE`, `GDT_SEL_UCODE` and `GDT_SEL_UDATA`. -/
abbrev gdtSelKcode : ℕ := 0x08
abbrev gdtSelUcode : ℕ := 0x1B
abbrev gdtSelUdata : ℕ := 0x23

/-- The frame was pushed in ring 3. -/
def Frame.fromUser (f : Frame) : Bool := f.cs &&& 3 == 3

abbrev threadMaxOpenFiles : ℕ := 8

/-- `KSTACK_PAGES` and `USTACK_PAGES`. -/
abbrev kstackPages : ℕ := 4
abbrev ustackPages : ℕ := 4

abbrev userStackTop : ℕ := 0x8000000000 + 0x0000007FFFFFF000

/-- `thread_t`; the defaults are what `memset` leaves.  An open file is the address of its
`vfs_file_t`, 0 for a free place. -/
structure Thread extends UserThread where
  isUser := false
  cr3 := 0
  brkStart := 0
  brkEnd := 0
  mmapBase := 0
  id : ℕ := 0
  state : ThreadState := .unused
  priority : ℤ := 0
  parent : Option Slot := none
  children : ℕ := 0
  exitCode : ℤ := 0
  waitTarget : ℤ := 0
  waitStatusPtr : ℕ := 0
  rsp : ℕ := 0
  kstack : ℕ := 0
  kstackSize : ℕ := 0
  ustack : ℕ := 0
  ustackSize : ℕ := 0
  ustackTop : ℕ := 0
  openFiles : List ℕ := List.replicate threadMaxOpenFiles 0
  openFileCount : ℕ := 0
  wakeupTick : ℕ := 0
  cpuId : ℕ := 0

/-- A call that takes or gives back a resource.  The pages of a user stack belong to its space
once they are mapped, and are recorded apart from those of kernel stacks. -/
inductive Call
  | createSpace (cr3 : ℕ)
  | destroySpace (cr3 : ℕ)
  | allocStack (addr pages : ℕ)
  | freeStack (addr pages : ℕ)
  | allocPages (addr pages : ℕ)
  | freePages (addr pages : ℕ)
  | allocFile (file : ℕ)
  | closeFile (file : ℕ)
deriving DecidableEq

/-- What the rest of the kernel replies while one interrupt is handled; 0 is a failed allocation. -/
structure Replies where
  /-- the canary of the kernel stack is intact -/
  canaryOk : Bool := true
  /-- `gdb_handle_exception` has dealt with the exception -/
  gdb : Bool := false
  /-- the copy that `scheduler_fork` makes of the file in each place of the table -/
  kmalloc : ℕ → ℕ := fun _ => 0
  kstack : ℕ := 0
  ustack : ℕ := 0
  /-- the page `alloc_zero_page` finds for a PML4 -/
  pml4 : ℕ := 0
  /-- `SYS_execve` could open and read its file -/
  readable : Bool := false
  /-- entry point and break, if `elf64_load_image` succeeds -/
  image : Option (ℕ × ℕ) := none
  /-- `vmm_map_range` mapped the user stack -/
  stackMapped : Bool := false
  /-- what a newly loaded space shows, and where it is mapped -/
  contents : Memory := fun _ => 0
  pages : ℕ → Bool := fun _ => false
  /-- the file that `vfs_open` returns -/
  file : ℕ := 0
  /-- the break and the base for anonymous mappings that `SYS_brk` and `SYS_mmap` leave -/
  brkEnd : ℕ := 0
  mmapBase : ℕ := 0
  /-- the value returned by a system call that concerns neither threads nor spaces -/
  result : ℕ := 0
  /-- where `int 0x80` inside the kernel pushes its frame -/
  nested : ℕ := 0

/-- The variables of `scheduler.c`, the registry of user spaces, the clock, and of each CPU the
stack pointer in its TSS and its CR3.  `umem` and `mapped` say what each address space shows at a
virtual address and whether it is mapped there; `calls` is a history variable, the last call
first. -/
structure Sched where
  threads : Slot → Thread
  current : Cpu → Slot
  nextId : ℕ
  cpuRr : ℕ
  online : ℕ
  kspaceCr3 : ℕ
  spaces : List UserSpace
  ticks : ℕ
  hz : ℕ
  frames : ℕ → Frame
  rsp0 : Cpu → ℕ
  cr3 : Cpu → ℕ
  umem : ℕ → Memory
  mapped : ℕ → ℕ → Bool
  calls : List Call

/-- `(int)v`. -/
def toInt (v : ℕ) : ℤ := Int.bmod v (2 ^ 32)

/-- `(uint64_t)-1`. -/
abbrev minusOne : ℕ := 2 ^ 64 - 1

namespace Sched

/-- Assign to fields of one thread. -/
@[simps] def update (s : Sched) (i : Slot) (f : Thread → Thread) : Sched :=
  { s with threads := Function.update s.threads i (f (s.threads i)) }

/-- Assign to fields of one frame. -/
@[simps] def setFrame (s : Sched) (a : ℕ) (f : Frame) : Sched :=
  { s with frames := Function.update s.frames a f }

@[simps!] def setRax (s : Sched) (frame v : ℕ) : Sched :=
  s.setFrame frame { s.frames frame with rax := v }

@[simps] def record (s : Sched) (cs : List Call) : Sched :=
  { s with calls := cs.reverse ++ s.calls }

def threadCurrent (s : Sched) (cpu : Cpu) : Thread := s.threads (s.current cpu)

/-- The kernel stores an `int` through the active page tables. -/
def storeInt (s : Sched) (cpu : Cpu) (va : ℕ) (v : ℤ) : Option Sched :=
  let cr3 := s.cr3 cpu
  if (List.range 4).all fun k => s.mapped cr3 (va + k) then
    some { s with
      umem := Function.update s.umem cr3 (storeLE (s.umem cr3) 4 va (v % 2 ^ 32).toNat) }
  else none

/-! ## Spaces -/

/-- `vmm_create_user_space`, with the page that `alloc_zero_page` found. -/
def vmmCreateUserSpace (s : Sched) (pml4 : ℕ) : ℕ × Sched :=
  if pml4 = 0 then (0, s)
  else
    match registerSpace s.spaces pml4 with
    | some spaces => (pml4, { s with spaces := spaces, calls := .createSpace pml4 :: s.calls })
    | none => (0, { s with calls := .freePages pml4 1 :: s.calls })

def vmmRetainUserSpace (s : Sched) (cr3 : ℕ) : Sched :=
  if cr3 = 0 ∨ cr3 = s.kspaceCr3 then s else { s with spaces := retainSpace s.spaces cr3 }

/-- `vmm_release_user_space`, with the call of `vmm_destroy_user_space`. -/
def vmmReleaseUserSpace (s : Sched) (cr3 : ℕ) : Sched :=
  if cr3 = 0 ∨ cr3 = s.kspaceCr3 then s
  else
    let r := releaseSpace s.spaces cr3
    { s with
      spaces := r.2
      calls := if r.1 then .destroySpace cr3 :: s.calls else s.calls }

/-! ## The table -/

/-- The first slot that passes a test. -/
def findSlot (p : Slot → Bool) : Option Slot := (List.finRange maxThreads).find? p

def threadAllocSlot (s : Sched) : Option (Slot × Sched) :=
  (findSlot fun i => (s.threads i).state = .unused).map fun i =>
    (i, { s with
      threads := Function.update s.threads i { state := .ready, priority := 1, id := s.nextId }
      nextId := (s.nextId + 1) % 2 ^ 64 })

def schedulerPickCpu (s : Sched) : ℕ × Sched :=
  if s.online = 0 then (0, s)
  else (s.cpuRr % s.online, { s with cpuRr := (s.cpuRr + 1) % s.online })

/-- `scheduler_init`; the bootstrap thread runs on the stack of `boot.S`. -/
def schedulerInit (s : Sched) (stackBottom stackSize : ℕ) : Sched :=
  { s with
    threads := Function.update (fun _ => {}) 0
      { state := .running, priority := 1, cr3 := s.kspaceCr3, kstack := stackBottom,
        kstackSize := stackSize }
    current := fun _ => 0
    cpuRr := 0
    rsp0 := Function.update s.rsp0 0 (stackBottom + stackSize) }

/-- The loop of `pick_next`: the first of the READY threads of the CPU with the highest priority. -/
def pickBest (threads : Slot → Thread) (cpu : Cpu) : Option Slot :=
  (List.finRange maxThreads).foldl (fun best i =>
    if (threads i).state ≠ .ready then best
    else if (threads i).cpuId ≠ cpu then best
    else
      match best with
      | none => some i
      | some b => if (threads i).priority > (threads b).priority then some i else best) none

def pickNext (s : Sched) (cpu : Cpu) : Slot :=
  match pickBest s.threads cpu with
  | some i => i
  | none =>
    let t := s.threadCurrent cpu
    if t.state = .running ∨ t.state = .ready then s.current cpu else 0

def wakeSleepers (s : Sched) : Sched :=
  { s with
    threads := fun i =>
      let t := s.threads i
      if t.state = .sleeping ∧ t.wakeupTick ≤ s.ticks then { t with state := .ready } else t }

/-- `do_switch`: the frame to resume. -/
def doSwitch (s : Sched) (cpu : Cpu) (frame : ℕ) (next : Slot) : ℕ × Sched :=
  if next = s.current cpu then (frame, s)
  else
    let prev := s.threadCurrent cpu
    let saved :=
      { prev with rsp := frame, state := if prev.state = .running then .ready else prev.state }
    let t := s.threads next
    (t.rsp, { s with
      threads := Function.update (Function.update s.threads (s.current cpu) saved) next
        { t with state := .running }
      current := Function.update s.current cpu next
      rsp0 := if t.kstack ≠ 0 then Function.update s.rsp0 cpu (t.kstack + t.kstackSize) else s.rsp0
      cr3 := if t.cr3 ≠ 0 ∧ t.cr3 ≠ prev.cr3 then Function.update s.cr3 cpu t.cr3 else s.cr3 })

/-- What `scheduler_on_tick` and `scheduler_yield` do. -/
def reschedule (s : Sched) (cpu : Cpu) (frame : ℕ) : ℕ × Sched :=
  let s := s.wakeSleepers
  s.doSwitch cpu frame (s.pickNext cpu)

def schedulerOnTick (s : Sched) (cpu : Cpu) (frame : ℕ) : ℕ × Sched := s.reschedule cpu frame

def schedulerYield (s : Sched) (cpu : Cpu) (frame : ℕ) : ℕ × Sched := s.reschedule cpu frame

/-! ## Exit, kill and wait -/

def threadReleaseResources (s : Sched) (i : Slot) : Sched :=
  let t := s.threads i
  let s :=
    if t.kstack ≠ 0 then
      (s.record [.freeStack t.kstack (t.kstackSize / pageSize)]).update i
        fun t => { t with kstack := 0 }
    else s
  let s :=
    if t.isUser ∧ t.cr3 ≠ 0 ∧ t.cr3 ≠ s.kspaceCr3 then
      (s.vmmReleaseUserSpace t.cr3).update i fun t => { t with cr3 := 0 }
    else s
  s.update i fun t => { t with ustack := 0, ustackSize := 0, ustackTop := 0 }

def threadMarkZombie (s : Sched) (cpu : Cpu) (i : Slot) (exitCode : ℤ) : Except Sched Sched :=
  let s := s.update i fun t => { t with exitCode := exitCode, state := .zombie }
  match (s.threads i).parent with
  | none => .ok s
  | some p =>
    let s := s.update p fun q => { q with children := q.children - 1 }
    let q := s.threads p
    if q.state = .blocked ∧ (q.waitTarget ≤ 0 ∨ q.waitTarget = toInt (s.threads i).id) then
      -- the status goes through the page tables of whoever runs, not through the parent's
      match if q.waitStatusPtr ≠ 0 then s.storeInt cpu q.waitStatusPtr exitCode else some s with
      | none => .error s
      | some s =>
        .ok (s.update p fun q => { q with waitTarget := 0, waitStatusPtr := 0, state := .ready })
    else .ok s

def findThreadById (s : Sched) (pid : ℤ) : Option Slot :=
  findSlot fun i => (s.threads i).state ≠ .unused ∧ toInt (s.threads i).id = pid

def schedulerOnExit (s : Sched) (cpu : Cpu) (frame : ℕ) (exitCode : ℤ) :
    Except Sched (ℕ × Sched) :=
  let cur := s.current cpu
  ((s.update cur fun t => { t with rsp := frame }).threadMarkZombie cpu cur exitCode).bind fun s =>
    let next := s.pickNext cpu
    if next = cur then
      -- no other thread is READY: the bootstrap thread, unless it is the one that exits
      if (s.threads 0).state = .zombie then .error s else .ok (s.doSwitch cpu frame 0)
    else .ok (s.doSwitch cpu frame next)

/-- The first part of `scheduler_sleep`, before `int 0x80`. -/
def schedulerSleep (s : Sched) (cpu : Cpu) (ticks : ℕ) : Sched :=
  s.update (s.current cpu) fun t =>
    { t with wakeupTick := (s.ticks + ticks) % 2 ^ 64, state := .sleeping }

def schedulerKill (s : Sched) (cpu : Cpu) (pid sig : ℤ) : Except Sched (ℕ × Sched) :=
  match s.findThreadById pid with
  | none => .ok (minusOne, s)
  | some target =>
    if !(s.threads target).isUser then .ok (minusOne, s)
    else if target = s.current cpu then .ok (0, s)
    else if (s.threads target).state = .zombie then .ok (0, s)
    else (s.threadMarkZombie cpu target (Int.bmod (-sig) (2 ^ 32))).map fun s => (0, s)

def findChild (s : Sched) (parent : Slot) (pid : ℤ) (requireZombie : Bool) : Option Slot :=
  findSlot fun i =>
    (s.threads i).state ≠ .unused ∧ (s.threads i).parent = some parent ∧
      (pid > 0 → toInt (s.threads i).id = pid) ∧
      (requireZombie = true → (s.threads i).state = .zombie)

/-- `vfs_close` on every open file of a table. -/
def closeFiles (s : Sched) (files : List ℕ) : Sched :=
  s.record ((files.filter (· ≠ 0)).map .closeFile)

/-- The branch of `scheduler_waitpid` that has found a zombie. -/
def reap (s : Sched) (frame : ℕ) (zombie : Slot) : Sched :=
  let t := s.threads zombie
  (((s.threadReleaseResources zombie).closeFiles t.openFiles).update zombie fun t =>
    { t with
      openFiles := List.replicate threadMaxOpenFiles 0
      openFileCount := 0
      state := .unused }).setRax frame t.id

/-- The critical section of `scheduler_waitpid`, with whether the thread is left BLOCKED. -/
def waitpidSection (s : Sched) (cpu : Cpu) (frame : ℕ) (pid : ℤ) (statusPtr : ℕ) :
    Option (Bool × Sched) :=
  let cur := s.current cpu
  match s.findChild cur pid true with
  | some zombie =>
    (if statusPtr ≠ 0 then s.storeInt cpu statusPtr (s.threads zombie).exitCode
      else some s).map fun s => (false, s.reap frame zombie)
  | none =>
    match s.findChild cur pid false with
    | none => some (false, s.setRax frame minusOne)
    | some _ =>
      some (true, s.update cur fun t =>
        { t with waitTarget := pid, waitStatusPtr := statusPtr, state := .blocked })

/-- `scheduler_waitpid`; the yield of a blocked thread takes the lock anew. -/
def schedulerWaitpid (s : Sched) (cpu : Cpu) (frame : ℕ) (pid : ℤ) (statusPtr : ℕ) :
    Option (ℕ × Sched) :=
  (s.waitpidSection cpu frame pid statusPtr).map fun r =>
    if r.1 then r.2.schedulerYield cpu frame else (frame, r.2)

/-! ## New threads -/

/-- The loop of `scheduler_fork` over the parent's files: the child's files, and whether every file
could be copied. -/
def dupFiles (kmalloc : ℕ → ℕ) : (i : ℕ) → List ℕ → List ℕ × Bool
  | _, [] => ([], true)
  | i, f :: fs =>
    if f = 0 then
      let r := dupFiles kmalloc (i + 1) fs
      (0 :: r.1, r.2)
    else if kmalloc i = 0 then (0 :: fs.map fun _ => 0, false)
    else
      let r := dupFiles kmalloc (i + 1) fs
      (kmalloc i :: r.1, r.2)

/-- The fields a child takes over from its parent. -/
def forkChild (parent : Slot) (p t : Thread) : Thread :=
  { t with
    isUser := true, cr3 := p.cr3, priority := p.priority, cpuId := p.cpuId, parent := some parent
    ustack := p.ustack, ustackSize := p.ustackSize, ustackTop := p.ustackTop
    brkStart := p.brkStart, brkEnd := p.brkEnd, mmapBase := p.mmapBase }

/-- `scheduler_fork` up to the loop over the files. -/
def forkStart (s : Sched) (parent child : Slot) : Sched :=
  let p := s.threads parent
  ((s.update child (forkChild parent p)).vmmRetainUserSpace p.cr3).update parent fun t =>
    { t with children := (t.children + 1) % 2 ^ 32 }

/-- The end of `scheduler_fork` when an allocation fails. -/
def forkFails (s : Sched) (frame : ℕ) (child : Slot) : Sched :=
  ((s.vmmReleaseUserSpace (s.threads child).cr3).update child
    fun t => { t with state := .unused }).setRax frame minusOne

/-- The end of `scheduler_fork` when the child has its kernel stack. -/
def forkRuns (s : Sched) (frame : ℕ) (child : Slot) : Sched :=
  let t := s.threads child
  let childFrame := t.kstack + t.kstackSize - frameSize
  ((s.setFrame childFrame { s.frames frame with rax := 0 }).update child fun t =>
    { t with rsp := childFrame, state := .ready }).setRax frame t.id

/-- `scheduler_fork` from the loop over the files on. -/
def forkRest (s : Sched) (frame : ℕ) (parent child : Slot) (re : Replies) : Sched :=
  let p := s.threads parent
  let files := dupFiles re.kmalloc 0 p.openFiles
  let s := s.record ((files.1.filter (· ≠ 0)).map .allocFile)
  if !files.2 then (s.closeFiles files.1).forkFails frame child
  else
    let s := s.update child fun t =>
      { t with
        openFiles := files.1
        openFileCount := (files.1.filter (· ≠ 0)).length
        kstackSize := p.kstackSize
        kstack := re.kstack }
    if re.kstack = 0 then s.forkFails frame child
    else (s.record [.allocStack re.kstack (p.kstackSize / pageSize)]).forkRuns frame child

def schedulerFork (s : Sched) (cpu : Cpu) (frame : ℕ) (re : Replies) : Sched :=
  let parent := s.current cpu
  if !(s.threads parent).isUser then s.setRax frame minusOne
  else
    match s.threadAllocSlot with
    | none => s.setRax frame minusOne
    | some (child, s) => (s.forkStart parent child).forkRest frame parent child re

/-- Store the first frame of a thread. -/
def buildFrame (s : Sched) (i : Slot) (sp : ℕ) (f : Frame) : Sched :=
  (s.setFrame sp f).update i fun t => { t with rsp := sp }

/-- `build_kernel_thread_frame`: the entry stack pointer is 8 below the top, and a frame of ring 0
ends with its flags. -/
def buildKernelThreadFrame (s : Sched) (i : Slot) (trampoline fn arg : ℕ) : Sched :=
  let t := s.threads i
  s.buildFrame i (t.kstack + t.kstackSize - 8 - (frameSize - 16))
    { rip := trampoline, cs := gdtSelKcode, rflags := 0x202, rdi := fn, rsi := arg }

def buildUserThreadFrame (s : Sched) (i : Slot) (userRip : ℕ) : Sched :=
  let t := s.threads i
  s.buildFrame i (t.kstack + t.kstackSize - frameSize)
    { rip := userRip, cs := gdtSelUcode, rflags := 0x202, rsp := t.ustackTop / 16 * 16,
      ss := gdtSelUdata }

/-- What both `thread_create_` functions do with a new slot, up to the kernel stack. -/
def adopt (s : Sched) (cpu : Cpu) (i : Slot) (isUser : Bool) (cr3 : ℕ) : Sched :=
  let parent := s.current cpu
  let s := s.update i fun t => { t with isUser := isUser, cr3 := cr3, parent := some parent }
  let s := s.update parent fun t => { t with children := (t.children + 1) % 2 ^ 32 }
  let c := s.schedulerPickCpu
  c.2.update i fun t => { t with cpuId := c.1 }

/-- Both allocate the kernel stack. -/
def takeStack (s : Sched) (i : Slot) (kstack : ℕ) : Sched :=
  (s.record (if kstack = 0 then [] else [.allocStack kstack kstackPages])).update i
    fun t => { t with kstackSize := kstackPages * pageSize, kstack := kstack }

/-- Where they fail they give up the slot, and nothing else. -/
def giveUp (s : Sched) (i : Slot) : Sched := s.update i fun t => { t with state := .unused }

def makeReady (s : Sched) (i : Slot) : Sched := s.update i fun t => { t with state := .ready }

/-- `scheduler_register_cpu_bootstrap`: the idle thread of another CPU. -/
def schedulerRegisterCpuBootstrap (s : Sched) (cpu : Cpu) (stackBase stackSize : ℕ) : Sched :=
  match s.threadAllocSlot with
  | none => s
  | some (i, s) =>
    let s := s.update i fun t =>
      { t with
        isUser := false, cr3 := s.kspaceCr3, priority := 1, cpuId := cpu, state := .running
        kstack := stackBase, kstackSize := stackSize }
    { s with
      current := Function.update s.current cpu i
      rsp0 := Function.update s.rsp0 cpu (stackBase + stackSize) }

def threadCreateKernel (s : Sched) (cpu : Cpu) (trampoline fn arg : ℕ) (re : Replies) :
    Option Slot × Sched :=
  match s.threadAllocSlot with
  | none => (none, s)
  | some (i, s) =>
    let s := (s.adopt cpu i false s.kspaceCr3).takeStack i re.kstack
    if re.kstack = 0 then (none, s.giveUp i)
    else (some i, (s.buildKernelThreadFrame i trampoline fn arg).makeReady i)

/-- `thread_create_user` allocates and maps the user stack: whether that succeeds. -/
def mapUserStack (s : Sched) (i : Slot) (re : Replies) : Bool × Sched :=
  let s := s.update i fun t => { t with ustackSize := ustackPages * pageSize }
  if re.ustack = 0 then (false, s)
  else
    let s := s.record [.allocPages re.ustack ustackPages]
    if re.stackMapped then (true, s) else (false, s.record [.freePages re.ustack ustackPages])

/-- `thread_create_user` once the user stack is mapped. -/
def startUserThread (s : Sched) (i : Slot) (userRip brkStart ustack : ℕ) : Sched :=
  ((s.update i fun t =>
    { t with
      ustack := ustack, ustackTop := userStackTop, brkStart := brkStart, brkEnd := brkStart
      mmapBase := (alignUpU64 brkStart pageSize + 0x01000000) % 2 ^ 64 }).buildUserThreadFrame i
        userRip).makeReady i

def threadCreateUser (s : Sched) (cpu : Cpu) (userRip brkStart cr3 : ℕ) (re : Replies) :
    Option Slot × Sched :=
  match s.threadAllocSlot with
  | none => (none, s)
  | some (i, s) =>
    let s := s.adopt cpu i true cr3
    if cr3 = 0 then (none, s.giveUp i)
    else
      let s := s.takeStack i re.kstack
      if re.kstack = 0 then (none, s.giveUp i)
      else
        match s.mapUserStack i re with
        | (false, s) => (none, s.giveUp i)
        | (true, s) => (some i, s.startUserThread i userRip brkStart re.ustack)

end Sched

end MyOs
