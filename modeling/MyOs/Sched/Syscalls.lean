import MyOs.Sched.Threads

/-!
# System calls and interrupts

`syscall_handle` (`src/syscall.c`) and `interrupt_dispatch`
(`src/arch/x86_64/interrupt_dispatch.c`), with every system call that concerns threads, their
spaces or their files.  All gates are interrupt gates, so a handler runs to its end; the one
handler that traps inside itself is `SYS_sleep`, whose `int 0x80` re-enters `syscall_handle`.

`Event` is what can happen on a CPU between two handlers, and `step` is one such event together
with the handler it starts.
-/

namespace MyOs

open Lib

/-- The system call numbers of `include/syscall.h` that the handler tells apart here. -/
abbrev sysExit : ℕ := 2
abbrev sysYield : ℕ := 3
abbrev sysBrkNum : ℕ := 4
abbrev sysFork : ℕ := 5
abbrev sysExecve : ℕ := 6
abbrev sysWaitpid : ℕ := 7
abbrev sysSleep : ℕ := 9
abbrev sysClose : ℕ := 17
abbrev sysOpen : ℕ := 18
abbrev sysMmapNum : ℕ := 24
abbrev sysKill : ℕ := 25

/-- The vector of `int 0x80`, of the timer, and `APIC_SPURIOUS_VECTOR`, `APIC_RESCHED_VECTOR`. -/
abbrev syscallVector : ℕ := 0x80
abbrev timerVector : ℕ := 32
abbrev apicSpuriousVector : ℕ := 0xF0
abbrev apicReschedVector : ℕ := 0xF1

/-- `vfs_fd_allocate`: the descriptor and the new table. -/
def vfsFdAllocate (files : List ℕ) (file : ℕ) : Option (ℕ × List ℕ) :=
  (files.findIdx? (· = 0)).map fun i => (i + 3, files.set i file)

/-- `vfs_fd_get`, on a place of the table. -/
def vfsFdGet (files : List ℕ) (fd : ℤ) : Option (ℕ × ℕ) :=
  if fd < 3 then none
  else
    match files[(fd - 3).toNat]? with
    | none => none
    | some file => if file = 0 then none else some ((fd - 3).toNat, file)

def excExitCode (n : ℕ) : ℤ := if n > 31 then -1 else 128 + n

namespace Sched

/-- A user space was created for `SYS_execve`, and cannot be used. -/
def execveFails (s : Sched) (frame cr3 : ℕ) : Sched :=
  (s.vmmReleaseUserSpace cr3).setRax frame minusOne

/-- The running thread is given a new program and enters the space it was loaded to. -/
def enterSpace (s : Sched) (cpu : Cpu) (cr3 brk : ℕ) (re : Replies) : Sched :=
  let s := s.update (s.current cpu) fun t =>
    { t with
      cr3 := cr3, ustack := re.ustack, ustackSize := ustackPages * pageSize
      ustackTop := userStackTop, brkStart := brk, brkEnd := brk
      mmapBase := (alignUpU64 brk pageSize + 0x01000000) % 2 ^ 64 }
  { s with
    cr3 := Function.update s.cr3 cpu cr3
    umem := Function.update s.umem cr3 re.contents
    mapped := Function.update s.mapped cr3 re.pages }

/-- The end of a successful `SYS_execve`. -/
def execveCommits (s : Sched) (cpu : Cpu) (frame cr3 entry brk : ℕ) (re : Replies) : Sched :=
  let oldCr3 := (s.threadCurrent cpu).cr3
  let s := s.enterSpace cpu cr3 brk re
  let s := if oldCr3 ≠ 0 ∧ oldCr3 ≠ s.kspaceCr3 then s.vmmReleaseUserSpace oldCr3 else s
  s.setFrame frame { s.frames frame with rip := entry, rsp := userStackTop, rax := 0 }

/-- `SYS_execve`. -/
def execve (s : Sched) (cpu : Cpu) (frame : ℕ) (re : Replies) : Sched :=
  if !(s.threadCurrent cpu).isUser then s.setRax frame minusOne
  else if !re.readable then s.setRax frame minusOne
  else
    let created := s.vmmCreateUserSpace re.pml4
    if created.1 = 0 then created.2.setRax frame minusOne
    else
      match re.image with
      | none => created.2.execveFails frame created.1
      | some (entry, brk) =>
        if re.ustack = 0 then created.2.execveFails frame created.1
        else
          let s := created.2.record [.allocPages re.ustack ustackPages]
          if !re.stackMapped then
            (s.record [.freePages re.ustack ustackPages]).execveFails frame created.1
          else s.execveCommits cpu frame created.1 entry brk re

/-- `SYS_open`. -/
def openFile (s : Sched) (cpu : Cpu) (frame : ℕ) (re : Replies) : Sched :=
  let t := s.threadCurrent cpu
  if !t.isUser ∨ (s.frames frame).rdi = 0 ∨ re.file = 0 then s.setRax frame minusOne
  else
    match vfsFdAllocate t.openFiles re.file with
    | none => (s.record [.allocFile re.file, .closeFile re.file]).setRax frame minusOne
    | some (fd, files) =>
      ((s.record [.allocFile re.file]).update (s.current cpu) fun t =>
        { t with openFiles := files, openFileCount := t.openFileCount + 1 }).setRax frame fd

/-- `SYS_close` of the file that was found; a descriptor that is no file goes to `net_close`. -/
def closeFound (s : Sched) (cpu : Cpu) (frame : ℕ) (re : Replies) : Option (ℕ × ℕ) → Sched
  | none => s.setRax frame re.result
  | some (i, file) =>
    ((s.record [.closeFile file]).update (s.current cpu) fun t =>
      { t with openFiles := t.openFiles.set i 0, openFileCount := t.openFileCount - 1 }).setRax
        frame 0

/-- `SYS_close`. -/
def closeFile (s : Sched) (cpu : Cpu) (frame : ℕ) (re : Replies) : Sched :=
  s.closeFound cpu frame re
    (vfsFdGet (s.threadCurrent cpu).openFiles (toInt (s.frames frame).rdi))

/-- `SYS_kill`. -/
def kill (s : Sched) (cpu : Cpu) (frame : ℕ) : Option (ℕ × Sched) :=
  let pid := toInt (s.frames frame).rdi
  let sig := toInt (s.frames frame).rsi
  if pid = 0 ∨ pid = toInt (s.threadCurrent cpu).id then
    (s.schedulerOnExit cpu frame (Int.bmod (-sig) (2 ^ 32))).toOption
  else (s.schedulerKill cpu pid sig).toOption.map fun r => (frame, r.2.setRax frame r.1)

/-- The ticks that `SYS_sleep` waits. -/
def sleepTicks (ms hz : ℕ) : ℕ := (ms * hz + 999) % 2 ^ 64 / 1000

/-- `syscall_handle`, with `depth` bounding the interrupts taken inside the handler: the frame to
resume. -/
def syscallHandle : (depth : ℕ) → Sched → Cpu → (frame : ℕ) → Replies → Option (ℕ × Sched)
  | 0, _, _, _, _ => none
  | depth + 1, s, cpu, frame, re =>
    let f := s.frames frame
    -- ring 3 only for user threads, ring 0 only for kernel threads
    if f.fromUser ≠ (s.threadCurrent cpu).isUser then some (frame, s.setRax frame minusOne)
    else if f.rax = sysFork then some (frame, s.schedulerFork cpu frame re)
    else if f.rax = sysExecve then some (frame, s.execve cpu frame re)
    else if f.rax = sysWaitpid then s.schedulerWaitpid cpu frame (toInt f.rdi) f.rsi
    else if f.rax = sysExit then (s.schedulerOnExit cpu frame (toInt f.rdi)).toOption
    else if f.rax = sysYield then some (s.schedulerYield cpu frame)
    else if f.rax = sysKill then s.kill cpu frame
    else if f.rax = sysOpen then some (frame, s.openFile cpu frame re)
    else if f.rax = sysClose then some (frame, s.closeFile cpu frame re)
    else if f.rax = sysBrkNum ∨ f.rax = sysMmapNum then
      if !(s.threadCurrent cpu).isUser then some (frame, s.setRax frame minusOne)
      else
        some (frame, (s.update (s.current cpu) fun t =>
          { t with brkEnd := re.brkEnd, mmapBase := re.mmapBase }).setRax frame re.result)
    else if f.rax = sysSleep then
      if s.hz = 0 then some (frame, s.setRax frame minusOne)
      else
        let s := s.schedulerSleep cpu (sleepTicks f.rdi s.hz)
        let s := s.setFrame re.nested
          { intNo := syscallVector, rax := sysYield, cs := gdtSelKcode }
        (syscallHandle depth s cpu re.nested re).map fun r =>
          -- the handler goes on at once unless another thread was switched to
          if r.2.current cpu = s.current cpu then (frame, r.2.setRax frame 0) else r
    else some (frame, s.setRax frame re.result)

def interruptDispatch (s : Sched) (cpu : Cpu) (frame : ℕ) (re : Replies) : Option (ℕ × Sched) :=
  let f := s.frames frame
  let n := f.intNo
  if (s.threadCurrent cpu).kstack ≠ 0 ∧ !re.canaryOk then
    if f.fromUser then (s.schedulerOnExit cpu frame (-1)).toOption else none
  else if n = timerVector then
    some ({ s with ticks := (s.ticks + 1) % 2 ^ 64 }.schedulerOnTick cpu frame)
  else if 32 < n ∧ n ≤ 47 then some (frame, s)
  else if n = apicReschedVector then some (s.schedulerOnTick cpu frame)
  else if n = apicSpuriousVector then some (frame, s)
  else if n = syscallVector then s.syscallHandle 2 cpu frame re
  else if (n = 1 ∨ n = 3) ∧ re.gdb then some (frame, s)
  else if f.fromUser then (s.schedulerOnExit cpu frame (excExitCode n)).toOption
  else none

end Sched

/-! ## Runs -/

/-- What happens on a CPU. -/
inductive Event
  /-- an interrupt, an exception or a system call; from ring 0 the frame is pushed at `sp` -/
  | trap (f : Frame) (sp : ℕ) (re : Replies)
  /-- a handler that was interrupted in ring 0 has been resumed and returns its own frame -/
  | unwind (sp : ℕ) (slept : Bool)
  /-- a kernel thread calls `scheduler_sleep` and gets as far as its `int 0x80` -/
  | sleep (ticks : ℕ)
  /-- the running user thread stores a byte -/
  | store (va : ℕ) (b : UInt8)
  /-- the kernel starts a program in a new space, as `kernel_main` does for `init.elf` -/
  | spawn (re : Replies)
  /-- the kernel starts a kernel thread -/
  | spawnKernel (trampoline fn arg : ℕ) (re : Replies)

/-- A CPU and the kernel: the scheduler's state, the frame the CPU last left a handler with, and
whether the kernel has stopped; what it stored last is left out then. -/
structure Machine where
  sched : Sched
  resumed : ℕ
  halted : Bool

namespace Sched

/-- From ring 3 the CPU pushes the frame at the stack pointer of its TSS. -/
def trapFrame (s : Sched) (cpu : Cpu) (f : Frame) (sp : ℕ) : ℕ :=
  if f.fromUser then s.rsp0 cpu - frameSize else sp

/-- What `kernel_main` does to start a program: the new thread, if there is one. -/
def startProgram (s : Sched) (cpu : Cpu) (re : Replies) : Option Slot × Sched :=
  let created := s.vmmCreateUserSpace re.pml4
  if created.1 = 0 then (none, created.2)
  else
    match re.image with
    | none => (none, created.2)
    | some (entry, brk) =>
      let s := { created.2 with
        umem := Function.update s.umem created.1 re.contents
        mapped := Function.update s.mapped created.1 re.pages }
      s.threadCreateUser cpu entry brk created.1 re

end Sched

/-- One event on CPU `cpu`, with the handler it starts. -/
def Machine.step (cpu : Cpu) (m : Machine) (e : Event) : Machine :=
  if m.halted then m
  else
    match e with
    | .trap f sp re =>
      let frame := m.sched.trapFrame cpu f sp
      match (m.sched.setFrame frame f).interruptDispatch cpu frame re with
      | some (frame, s) => { m with sched := s, resumed := frame }
      | none => { m with halted := true }
    | .unwind sp slept =>
      { m with sched := if slept then m.sched.setRax sp 0 else m.sched, resumed := sp }
    | .sleep ticks => { m with sched := m.sched.schedulerSleep cpu ticks }
    | .store va b =>
      let cr3 := m.sched.cr3 cpu
      { m with sched := { m.sched with
          umem := Function.update m.sched.umem cr3
            (Function.update (m.sched.umem cr3) va b) } }
    | .spawn re => { m with sched := (m.sched.startProgram cpu re).2 }
    | .spawnKernel trampoline fn arg re =>
      { m with sched := (m.sched.threadCreateKernel cpu trampoline fn arg re).2 }

end MyOs
