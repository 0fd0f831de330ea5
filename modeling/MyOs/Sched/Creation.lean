import MyOs.Memory.Kmalloc
import MyOs.Memory.MapRange
import MyOs.Sched.Accounts

/-!
# What a failed creation leaves behind

`scheduler_fork`, `thread_create_kernel` and `thread_create_user` take a slot, a child of the caller, a
reference to a space, copies of files, a kernel stack, a user stack and its mapping, one after the other,
and each has its own way out where one of them is not to be had.  `KernelSys` puts the scheduler
together with the memory it draws on: the page allocator, the page tables and the kernel heap.  The
memory's side of a creation (`Creation.memory`) gives the replies that the scheduler's side, the functions
of `scheduler.c`, then works with.

The scheduler takes a slot and counts the child before it asks for memory, and no way out takes the
count back.  So a creation that fails leaves no trace only if it got no slot
(`failed_creation_leaves_no_trace_iff`).
-/

namespace MyOs

open Lib List Function

/-! ## The memory's side -/

/-- `sizeof(vfs_file_t)`. -/
abbrev vfsFileSize : ℕ := 24

/-- The page allocator and the page tables, the kernel heap with the pages it has taken, and the results
of `kmalloc` that have not been freed. -/
structure KernelMem where
  vm : Vm
  heap : List KmBlock
  taken : List PageRun
  live : List ℕ

namespace KernelMem

/-- The heap over the page allocator. -/
def km (m : KernelMem) : KmState := ⟨m.vm.pmm, m.heap, m.taken⟩

/-- The pages that the kernel heap keeps for itself. -/
def heapPages (m : KernelMem) : ℕ := (m.taken.map Prod.snd).sum

def kmalloc (m : KernelMem) (size : ℕ) : ℕ × KernelMem :=
  let r := MyOs.kmalloc m.km size
  (r.1,
    { vm := { m.vm with pmm := r.2.pmm }, heap := r.2.heap, taken := r.2.taken
      live := if r.1 = 0 then m.live else r.1 :: m.live })

def kfree (m : KernelMem) (ptr : ℕ) : KernelMem :=
  { m with heap := (MyOs.kfree m.km ptr).heap, live := m.live.erase ptr }

def pmmAllocPages (m : KernelMem) (pages : ℕ) : ℕ × KernelMem :=
  let r := MyOs.pmmAllocPages m.vm.pmm pages
  (r.1, { m with vm := { m.vm with pmm := r.2 } })

def pmmFreePages (m : KernelMem) (addr pages : ℕ) : KernelMem :=
  { m with vm := { m.vm with pmm := MyOs.pmmFreePages m.vm.pmm addr pages } }

/-- The loop of `scheduler_fork` over the parent's files: the copies, whether all could be made, and the
memory then. -/
def dupFiles (m : KernelMem) : List ℕ → List ℕ × Bool × KernelMem
  | [] => ([], true, m)
  | f :: fs =>
    if f = 0 then
      let r := m.dupFiles fs
      (0 :: r.1, r.2)
    else
      let a := m.kmalloc vfsFileSize
      if a.1 = 0 then (0 :: fs.map fun _ => 0, false, a.2)
      else
        let r := a.2.dupFiles fs
        (a.1 :: r.1, r.2)

/-- `vfs_close` of every copy. -/
def closeFiles (m : KernelMem) (files : List ℕ) : KernelMem :=
  (files.filter (· ≠ 0)).foldl kfree m

end KernelMem

/-- A call that creates a thread. -/
inductive Creation
  | fork (frame : ℕ)
  | kernel (trampoline fn arg : ℕ)
  | user (userRip brkStart cr3 : ℕ)

namespace Creation

/-- What `scheduler_fork` asks of memory once it has a slot.  The space stays: the parent's reference to
it is not given back. -/
def forkMemory (m : KernelMem) (parent : Thread) : Replies × KernelMem :=
  let d := m.dupFiles parent.openFiles
  let re : Replies := { kmalloc := fun i => d.1.getD i 0 }
  if !d.2.1 then (re, d.2.2.closeFiles d.1)
  else
    let a := d.2.2.pmmAllocPages (parent.kstackSize / pageSize)
    ({ re with kstack := a.1 }, a.2)

/-- What `thread_create_kernel` asks. -/
def kernelMemory (m : KernelMem) : Replies × KernelMem :=
  let a := m.pmmAllocPages kstackPages
  ({ kstack := a.1 }, a.2)

/-- What `thread_create_user` asks once it has the kernel stack. -/
def userStackMemory (m : KernelMem) (cr3 kstack : ℕ) : Replies × KernelMem :=
  let u := m.pmmAllocPages ustackPages
  if u.1 = 0 then ({ kstack := kstack }, u.2)
  else
    let size := ustackPages * pageSize
    let m := u.2
    let r := vmmMapRange { m.vm with mem := fill m.vm.mem u.1 size 0 } cr3 (userStackTop - size) u.1
      size (vmmFlagPresent ||| vmmFlagWritable ||| vmmFlagUser)
    let re : Replies := { kstack := kstack, ustack := u.1, stackMapped := r.1 }
    let m := { m with vm := r.2 }
    if r.1 then (re, m) else (re, m.pmmFreePages u.1 ustackPages)

/-- What `thread_create_user` asks. -/
def userMemory (m : KernelMem) (cr3 : ℕ) : Replies × KernelMem :=
  if cr3 = 0 then ({}, m)
  else
    let a := m.pmmAllocPages kstackPages
    if a.1 = 0 then ({}, a.2) else userStackMemory a.2 cr3 a.1

/-- The memory's side of a creation. -/
def memory (m : KernelMem) (caller : Thread) : Creation → Replies × KernelMem
  | fork _ => forkMemory m caller
  | kernel _ _ _ => kernelMemory m
  | user _ _ cr3 => userMemory m cr3

/-- The scheduler's side. -/
def exec (s : Sched) (cpu : Cpu) (re : Replies) : Creation → Sched
  | fork frame => s.schedulerFork cpu frame re
  | kernel trampoline fn arg => (s.threadCreateKernel cpu trampoline fn arg re).2
  | user userRip brkStart cr3 => (s.threadCreateUser cpu userRip brkStart cr3 re).2

/-- The call reports that it failed: -1 in `rax`, or a null pointer. -/
def Fails (s : Sched) (cpu : Cpu) (re : Replies) : Creation → Prop
  | fork frame => ((s.schedulerFork cpu frame re).frames frame).rax = minusOne
  | kernel trampoline fn arg => (s.threadCreateKernel cpu trampoline fn arg re).1 = none
  | user userRip brkStart cr3 => (s.threadCreateUser cpu userRip brkStart cr3 re).1 = none

/-- The space that the call is given. -/
def space (s : Sched) (cpu : Cpu) : Creation → ℕ
  | fork _ => (s.threadCurrent cpu).cr3
  | kernel _ _ _ => s.kspaceCr3
  | user _ _ cr3 => cr3

/-- The call gets as far as taking a slot. -/
def takesSlot (s : Sched) (cpu : Cpu) : Creation → Bool
  | fork _ => (s.threadCurrent cpu).isUser && s.threadAllocSlot.isSome
  | _ => s.threadAllocSlot.isSome

end Creation

/-- The scheduler and its memory. -/
structure KernelSys where
  sched : Sched
  mem : KernelMem

namespace KernelSys

/-- The replies and the memory of a creation: nothing is asked before there is a slot. -/
def asked (k : KernelSys) (cpu : Cpu) (c : Creation) : Replies × KernelMem :=
  if c.takesSlot k.sched cpu then c.memory k.mem (k.sched.threadCurrent cpu) else ({}, k.mem)

/-- A creation. -/
def create (k : KernelSys) (cpu : Cpu) (c : Creation) : KernelSys where
  sched := c.exec k.sched cpu (k.asked cpu c).1
  mem := (k.asked cpu c).2

/-- The creation fails. -/
def CreateFails (k : KernelSys) (cpu : Cpu) (c : Creation) : Prop :=
  c.Fails k.sched cpu (k.asked cpu c).1

/-- Threads in use, the caller's children, free pages but for those of the heap, live blocks of the heap,
references to spaces and the translations of one space are the same. -/
structure NoTrace (k k' : KernelSys) (caller : Slot) (space : ℕ) : Prop where
  inUse : ∀ i, (k'.sched.threads i).Live ↔ (k.sched.threads i).Live
  children : (k'.sched.threads caller).children = (k.sched.threads caller).children
  pages : k'.mem.vm.pmm.freePagesCnt + k'.mem.heapPages = k.mem.vm.pmm.freePagesCnt + k.mem.heapPages
  live : ∀ a, a ∈ k'.mem.live ↔ a ∈ k.mem.live
  refs : refsOf k'.sched.spaces = refsOf k.sched.spaces
  translations : ∀ v, vmmResolve k'.mem.vm.mem space v = vmmResolve k.mem.vm.mem space v

end KernelSys

lemma KernelMem.dupFiles_replies {g : ℕ → ℕ} (fs : List ℕ) (m : KernelMem) {i : ℕ}
    (hg : ∀ j, g (i + j) = (m.dupFiles fs).1.getD j 0) :
    Sched.dupFiles g i fs = ((m.dupFiles fs).1, (m.dupFiles fs).2.1) := by
  fun_induction KernelMem.dupFiles m fs generalizing i
  case case1 => rfl
  case case2 fs r ih =>
    rw [Sched.dupFiles, if_pos rfl, ih fun j => ?_]
    rw [Nat.add_assoc, Nat.add_comm 1 j, hg]
    rfl
  case case3 hf a ha =>
    rw [Sched.dupFiles, if_neg hf]
    exact if_pos (hg 0)
  case case4 hf a ha r ih =>
    have hfirst : g i = a.1 := hg 0
    rw [Sched.dupFiles, if_neg hf, hfirst, if_neg ha, ih fun j => ?_]
    rw [Nat.add_assoc, Nat.add_comm 1 j, hg]
    rfl

/-! ## The caller's children -/

namespace Sched

variable {s s' s'' : Sched} {cpu : Cpu} {i j : Slot} {re : Replies}

/-- All slots but `i` are the same. -/
def Beside (i : Slot) (s s' : Sched) : Prop := ∀ j, j ≠ i → s'.threads j = s.threads j

namespace Beside

lemma refl (s : Sched) (i : Slot) : Beside i s s := fun _ _ => rfl

lemma trans (h : Beside i s s') (h' : Beside i s' s'') : Beside i s s'' := fun j hj =>
  (h' j hj).trans (h j hj)

lemma update (h : Beside i s s') (f : Thread → Thread) : Beside i s (s'.update i f) := fun j hj => by
  rw [update_threads, update_of_ne hj, h j hj]

lemma record (h : Beside i s s') (cs : List Call) : Beside i s (s'.record cs) := h

lemma setFrame (h : Beside i s s') (a : ℕ) (f : Frame) : Beside i s (s'.setFrame a f) := h

lemma setRax (h : Beside i s s') (frame v : ℕ) : Beside i s (s'.setRax frame v) := h

lemma release (h : Beside i s s') (cr3 : ℕ) : Beside i s (s'.vmmReleaseUserSpace cr3) := by
  rw [Beside, threads_release]
  exact h

end Beside

/-- The slot's children have been counted up by one. -/
def OneMoreChild (p : Slot) (s s' : Sched) : Prop :=
  (s'.threads p).children = ((s.threads p).children + 1) % 2 ^ 32

lemma OneMoreChild.beside (h : OneMoreChild j s s') (hne : j ≠ i) (hb : Beside i s' s'') :
    OneMoreChild j s s'' := by
  rw [OneMoreChild, hb j hne]
  exact h

lemma OneMoreChild.ne (h : OneMoreChild j s s') : (s'.threads j).children ≠ (s.threads j).children := by
  rw [h]
  omega

lemma threadAllocSlot_beside (h : s.threadAllocSlot = some (i, s')) : Beside i s s' := by
  obtain ⟨j, -, heq⟩ := Option.map_eq_some_iff.mp h
  cases heq
  intro k hk
  exact update_of_ne hk _ _

lemma adopt_children (hne : s.current cpu ≠ i) (isUser : Bool) (cr3 : ℕ) :
    OneMoreChild (s.current cpu) s (s.adopt cpu i isUser cr3) := by
  have hpick : ∀ s : Sched, s.schedulerPickCpu.2.threads = s.threads := by
    intro s
    rw [schedulerPickCpu]
    split <;> rfl
  simp [OneMoreChild, adopt, update_of_ne hne, hpick]

lemma forkStart_children {parent child : Slot} (hne : parent ≠ child) :
    OneMoreChild parent s (s.forkStart parent child) := by
  simp [OneMoreChild, forkStart, threads_retain, update_of_ne hne]

lemma takeStack_beside (s : Sched) (i : Slot) (kstack : ℕ) : Beside i s (s.takeStack i kstack) :=
  ((Beside.refl s i).record _).update _

lemma giveUp_beside (s : Sched) (i : Slot) : Beside i s (s.giveUp i) := (Beside.refl s i).update _

lemma firstFrame_beside (s : Sched) (i : Slot) (sp : ℕ) (f : Frame) :
    Beside i s ((s.buildFrame i sp f).makeReady i) :=
  (((Beside.refl s i).setFrame sp f).update _).update _

lemma mapUserStack_beside (s : Sched) (i : Slot) (re : Replies) :
    Beside i s (s.mapUserStack i re).2 := by
  have hfirst := (Beside.refl s i).update fun t => { t with ustackSize := ustackPages * pageSize }
  rw [mapUserStack]
  split
  · exact hfirst
  · split
    · exact hfirst.record _
    · exact (hfirst.record _).record _

lemma startUserThread_beside (s : Sched) (i : Slot) (userRip brkStart ustack : ℕ) :
    Beside i s (s.startUserThread i userRip brkStart ustack) :=
  ((Beside.refl s i).update _).trans (firstFrame_beside _ i _ _)

lemma forkFails_beside (s : Sched) (frame : ℕ) (child : Slot) :
    Beside child s (s.forkFails frame child) :=
  (((Beside.refl s child).release _).update _).setRax _ _

lemma forkRuns_beside (s : Sched) (frame : ℕ) (child : Slot) :
    Beside child s (s.forkRuns frame child) :=
  (((Beside.refl s child).setFrame _ _).update _).setRax _ _

lemma forkRest_beside (s : Sched) (frame : ℕ) (parent child : Slot) (re : Replies) :
    Beside child s (s.forkRest frame parent child re) := by
  have hrefl := Beside.refl s child
  rw [forkRest]
  generalize dupFiles re.kmalloc 0 (s.threads parent).openFiles = files
  dsimp only
  split
  · exact ((hrefl.record _).record _).trans (forkFails_beside _ frame child)
  · split
    · exact ((hrefl.record _).update _).trans (forkFails_beside _ frame child)
    · exact (((hrefl.record _).update _).record _).trans (forkRuns_beside _ frame child)

section Counted

variable (hcur : (s.threadCurrent cpu).Live) (halloc : s.threadAllocSlot = some (i, s'))
include hcur halloc

lemma caller_ne : s.current cpu ≠ i := by
  rintro rfl
  exact hcur (threadAllocSlot_some halloc).1

lemma adopted_children (isUser : Bool) (cr3 : ℕ) :
    OneMoreChild (s.current cpu) s (s'.adopt cpu i isUser cr3) := by
  have hne := caller_ne hcur halloc
  have hcurrent : s'.current cpu = s.current cpu :=
    congrFun (threadAllocSlot_some halloc).2.1.current cpu
  have hchild := adopt_children (hcurrent ▸ hne) isUser cr3
  rwa [hcurrent, OneMoreChild, threadAllocSlot_beside halloc _ hne] at hchild

lemma schedulerFork_children (huser : (s.threadCurrent cpu).isUser = true) (frame : ℕ) (re : Replies) :
    OneMoreChild (s.current cpu) s (s.schedulerFork cpu frame re) := by
  have hne := caller_ne hcur halloc
  have hfork : s.schedulerFork cpu frame re =
      (s'.forkStart (s.current cpu) i).forkRest frame (s.current cpu) i re := by
    rw [threadCurrent] at huser
    simp only [schedulerFork, huser, halloc, Bool.not_true, Bool.false_eq_true, if_false]
  have hstart : OneMoreChild (s.current cpu) s (s'.forkStart (s.current cpu) i) := by
    rw [OneMoreChild, forkStart_children hne, threadAllocSlot_beside halloc _ hne]
  rw [hfork]
  exact hstart.beside hne (forkRest_beside _ frame _ i re)

lemma threadCreateKernel_children (trampoline fn arg : ℕ) (re : Replies) :
    OneMoreChild (s.current cpu) s (s.threadCreateKernel cpu trampoline fn arg re).2 := by
  have hne := caller_ne hcur halloc
  have hstack := (adopted_children hcur halloc false s'.kspaceCr3).beside hne
    (takeStack_beside _ i re.kstack)
  rw [threadCreateKernel, halloc]
  dsimp only
  split
  · exact hstack.beside hne (giveUp_beside _ i)
  · exact hstack.beside hne (firstFrame_beside _ i _ _)

lemma threadCreateUser_children (userRip brkStart cr3 : ℕ) (re : Replies) :
    OneMoreChild (s.current cpu) s (s.threadCreateUser cpu userRip brkStart cr3 re).2 := by
  have hne := caller_ne hcur halloc
  have hadopt := adopted_children hcur halloc true cr3
  rw [threadCreateUser, halloc]
  dsimp only
  split
  · exact hadopt.beside hne (giveUp_beside _ i)
  · have hstack := hadopt.beside hne (takeStack_beside _ i re.kstack)
    split
    · exact hstack.beside hne (giveUp_beside _ i)
    · have hmap := mapUserStack_beside ((s'.adopt cpu i true cr3).takeStack i re.kstack) i re
      split
      · rename_i s1 heq
        rw [heq] at hmap
        exact (hstack.beside hne hmap).beside hne (giveUp_beside _ i)
      · rename_i s1 heq
        rw [heq] at hmap
        exact (hstack.beside hne hmap).beside hne (startUserThread_beside _ i _ _ _)

end Counted

end Sched

/-! ## When nothing is left -/

lemma Sched.threadAllocSlot_eq_none {s : Sched} :
    s.threadAllocSlot = none ↔ ∀ i, (s.threads i).Live := by
  rw [Sched.threadAllocSlot, Option.map_eq_none_iff, Sched.findSlot, find?_eq_none]
  simp

namespace KernelSys

variable {k : KernelSys} {cpu : Cpu} {c : Creation}

/-- No slot of the table is free, or a thread that is not a user thread forks. -/
def TurnedAway (k : KernelSys) (cpu : Cpu) (c : Creation) : Prop :=
  (∀ i, (k.sched.threads i).Live) ∨
    (∃ frame, c = .fork frame) ∧ (k.sched.threadCurrent cpu).isUser = false

lemma turnedAway_iff : k.TurnedAway cpu c ↔ c.takesSlot k.sched cpu = false := by
  rw [TurnedAway, ← Sched.threadAllocSlot_eq_none]
  cases c <;> simp [Creation.takesSlot, or_comm, imp_iff_not_or]

lemma asked_of_turned_away (h : k.TurnedAway cpu c) : k.asked cpu c = ({}, k.mem) := by
  rw [asked, turnedAway_iff.mp h]
  rfl

lemma create_of_turned_away (h : k.TurnedAway cpu c) : k.CreateFails cpu c ∧
    (k.create cpu c = k ∨
      ∃ frame, k.create cpu c = { k with sched := k.sched.setRax frame minusOne }) := by
  rw [CreateFails, create, asked_of_turned_away h]
  cases c with
  | fork frame =>
    have hfork : k.sched.schedulerFork cpu frame {} = k.sched.setRax frame minusOne := by
      rw [Sched.schedulerFork]
      split
      · rfl
      · rename_i huser
        rcases h with hfull | ⟨-, hkernel⟩
        · rw [Sched.threadAllocSlot_eq_none.mpr hfull]
        · rw [Sched.threadCurrent] at hkernel
          rw [hkernel] at huser
          exact absurd rfl huser
    rw [Creation.Fails, Creation.exec, hfork]
    exact ⟨by simp, Or.inr ⟨frame, rfl⟩⟩
  | kernel trampoline fn arg =>
    have hfull := h.resolve_right fun hfork => by simp at hfork
    rw [Creation.Fails, Creation.exec, Sched.threadCreateKernel,
      Sched.threadAllocSlot_eq_none.mpr hfull]
    exact ⟨rfl, Or.inl rfl⟩
  | user userRip brkStart cr3 =>
    have hfull := h.resolve_right fun hfork => by simp at hfork
    rw [Creation.Fails, Creation.exec, Sched.threadCreateUser, Sched.threadAllocSlot_eq_none.mpr hfull]
    exact ⟨rfl, Or.inl rfl⟩

lemma NoTrace.setRax (k : KernelSys) (frame v : ℕ) (caller : Slot) (space : ℕ) :
    NoTrace k { k with sched := k.sched.setRax frame v } caller space :=
  ⟨fun _ => Iff.rfl, rfl, rfl, fun _ => Iff.rfl, rfl, fun _ => rfl⟩

lemma NoTrace.refl (k : KernelSys) (caller : Slot) (space : ℕ) : NoTrace k k caller space :=
  ⟨fun _ => Iff.rfl, rfl, rfl, fun _ => Iff.rfl, rfl, fun _ => rfl⟩

lemma create_children (hcur : (k.sched.threadCurrent cpu).Live) (h : ¬ k.TurnedAway cpu c) :
    Sched.OneMoreChild (k.sched.current cpu) k.sched (k.create cpu c).sched := by
  rw [turnedAway_iff, Bool.not_eq_false] at h
  cases c with
  | fork frame =>
    rw [Creation.takesSlot, Bool.and_eq_true] at h
    obtain ⟨huser, hsome⟩ := h
    obtain ⟨⟨i, s'⟩, halloc⟩ := Option.isSome_iff_exists.mp hsome
    exact Sched.schedulerFork_children hcur halloc huser frame _
  | kernel trampoline fn arg =>
    obtain ⟨⟨i, s'⟩, halloc⟩ := Option.isSome_iff_exists.mp h
    exact Sched.threadCreateKernel_children hcur halloc trampoline fn arg _
  | user userRip brkStart cr3 =>
    obtain ⟨⟨i, s'⟩, halloc⟩ := Option.isSome_iff_exists.mp h
    exact Sched.threadCreateUser_children hcur halloc userRip brkStart cr3 _

/-- **When a failed creation leaves no trace.**  For every state of the scheduler and of the memory in
which the caller is in use, and every creation: it fails and leaves nothing behind just when there was no
slot, or the caller may not fork. -/
theorem failed_creation_leaves_no_trace_iff (k : KernelSys) (cpu : Cpu) (c : Creation)
    (hcur : (k.sched.threadCurrent cpu).Live) :
    k.CreateFails cpu c ∧
        NoTrace k (k.create cpu c) (k.sched.current cpu) (c.space k.sched cpu) ↔
      k.TurnedAway cpu c := by
  constructor
  · rintro ⟨-, htrace⟩
    by_contra haway
    exact (create_children hcur haway).ne htrace.children
  · intro haway
    obtain ⟨hfails, heq | ⟨frame, heq⟩⟩ := create_of_turned_away haway
    · rw [heq]
      exact ⟨hfails, NoTrace.refl k _ _⟩
    · rw [heq]
      exact ⟨hfails, NoTrace.setRax k frame minusOne _ _⟩

/-- A table in which every slot is taken. -/
def crowded : KernelSys :=
  ⟨{ Sched.after 1 [] with threads := fun _ => { state := .ready } },
    ⟨bootVm (fun _ => 0) smallPmm, [], [], []⟩⟩

theorem failed_creation_leaves_no_trace_crowded :
    crowded.CreateFails 0 (.kernel 0x100000 0x101000 0) ∧
      NoTrace crowded (crowded.create 0 (.kernel 0x100000 0x101000 0)) (crowded.sched.current 0)
        ((Creation.kernel 0x100000 0x101000 0).space crowded.sched 0) := by
  have hlive : ∀ i, (crowded.sched.threads i).Live := fun i => by
    show ThreadState.ready ≠ ThreadState.unused
    decide
  exact (failed_creation_leaves_no_trace_iff crowded 0 _ (hlive _)).mpr (Or.inl hlive)

/-- The bootstrap thread, and seven free pages. -/
def sevenPages : KernelSys :=
  ⟨Sched.after 1 [], ⟨bootVm (fun _ => 0) (pmmAllocPages smallPmm 1).2, [], [], []⟩⟩

/-- **A child that was never born.**  A user thread gets its kernel stack but not its user stack: the
creation fails, and the caller has one more child and the page allocator four pages less. -/
theorem failed_user_creation_leaks :
    sevenPages.CreateFails 0 (.user 0x8000001000 0x8000002000 0x200000) ∧
      (sevenPages.sched.threads 0).children = 0 ∧ sevenPages.mem.vm.pmm.freePagesCnt = 7 ∧
      ((sevenPages.create 0 (.user 0x8000001000 0x8000002000 0x200000)).sched.threads 0).children = 1 ∧
      (sevenPages.create 0 (.user 0x8000001000 0x8000002000 0x200000)).mem.vm.pmm.freePagesCnt = 3 := by
  rw [CreateFails, Creation.Fails]
  decide +kernel

end KernelSys

end MyOs
