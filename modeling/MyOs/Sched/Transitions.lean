import MyOs.Sched.Effects

/-!
# What creating, replacing and reaping a thread does

`scheduler_fork`, `thread_create_kernel`, `thread_create_user`, `SYS_execve` and the reaping branch of
`scheduler_waitpid` each change one slot of the table and the ledger of resources.  The lemmas below
say how, in every branch; what the other slots see is `Only` in all of them.
-/

namespace MyOs

open Lib Function

namespace Sched

variable {s s' s'' : Sched} {cpu : Cpu} {i j : Slot} {frame : ℕ} {f : Thread → Thread}

/-! ## Fork -/

/-- `t` is a READY thread that the running one has just made. -/
structure NewThread (cpu : Cpu) (s : Sched) (t : Thread) : Prop where
  state : t.state = .ready
  parent : t.parent = some (s.current cpu)
  kstack : t.kstack ≠ 0
  rsp : frameSize ≤ t.kstackSize → t.OnStack t.rsp

/-- Slot `i` was free and holds a new thread. -/
structure Spawned (cpu : Cpu) (i : Slot) (s s' : Sched) : Prop where
  only : Only i s s'
  free : (s.threads i).state = .unused
  new : NewThread cpu s (s'.threads i)

/-- Slot `i` was taken and given up again. -/
structure Discarded (i : Slot) (s s' : Sched) : Prop where
  only : Only i s s'
  free : (s.threads i).state = .unused
  state : (s'.threads i).state = .unused

/-- `t` is a forked child of `p`. -/
structure Forked (p : Thread) (re : Replies) (t : Thread) : Prop where
  isUser : t.isUser = true
  cr3 : t.cr3 = p.cr3
  cpuId : t.cpuId = p.cpuId
  kstack : t.kstack = re.kstack
  kstackSize : t.kstackSize = p.kstackSize

lemma threadAllocSlot_some (h : s.threadAllocSlot = some (i, s')) :
    (s.threads i).state = .unused ∧ Only i s s' ∧ s'.ledger = s.ledger := by
  obtain ⟨j, hfind, heq⟩ := Option.map_eq_some_iff.mp h
  cases heq
  refine ⟨by simpa using findSlot_some hfind, ⟨fun k hk => ?_, rfl, rfl⟩, rfl⟩
  simpa [update_of_ne hk] using Thread.SameRun.refl _

lemma forkStart_effect (s : Sched) (parent child : Slot) :
    Only child s (s.forkStart parent child) ∧
      (s.forkStart parent child).ledger = s.ledger.retain (s.threads parent).cr3 := by
  refine ⟨?_, by simp [forkStart]⟩
  simp only [forkStart]
  refine ((Only.update child _).trans (.retain _)).trans (.update_other ?_)
  exact ⟨rfl, rfl, rfl, rfl⟩

lemma forkStart_child {parent child : Slot} (hne : child ≠ parent) :
    (s.forkStart parent child).threads child =
      forkChild parent (s.threads parent) (s.threads child) := by
  simp [forkStart, update_of_ne hne, threads_retain]

lemma forkFails_effect (s : Sched) (frame : ℕ) (child : Slot) :
    Only child s (s.forkFails frame child) ∧
      (s.forkFails frame child).ledger = s.ledger.release (s.threads child).cr3 ∧
      ((s.forkFails frame child).threads child).state = .unused := by
  refine ⟨((Only.release _).trans (.update child _)).trans (setRax_only _), ?_, ?_⟩
  · simp [forkFails]
  · simp [forkFails]

lemma forkRuns_effect (s : Sched) (frame : ℕ) (child : Slot) :
    Only child s (s.forkRuns frame child) ∧ (s.forkRuns frame child).ledger = s.ledger ∧
      (s.forkRuns frame child).threads child =
        { s.threads child with
          state := .ready
          rsp := (s.threads child).kstack + (s.threads child).kstackSize - frameSize } :=
  ⟨((setFrame_only _ _).trans (.update child _)).trans (setRax_only _), rfl, by simp [forkRuns]⟩

/-- From the loop over the files on, a fork gives the space back or completes the child. -/
lemma forkRest_effect (s : Sched) (frame : ℕ) (parent child : Slot) (re : Replies) :
    Only child s (s.forkRest frame parent child re) ∧
      ((s.forkRest frame parent child re).ledger = s.ledger.release (s.threads child).cr3 ∧
          ((s.forkRest frame parent child re).threads child).state = .unused ∨
        (s.forkRest frame parent child re).ledger = s.ledger.stackCall
            (.allocStack re.kstack ((s.threads parent).kstackSize / pageSize)) ∧ re.kstack ≠ 0 ∧
          ∃ files count, (s.forkRest frame parent child re).threads child =
            { s.threads child with
              openFiles := files, openFileCount := count, state := .ready, kstack := re.kstack
              kstackSize := (s.threads parent).kstackSize
              rsp := re.kstack + (s.threads parent).kstackSize - frameSize }) := by
  rw [forkRest]
  generalize dupFiles re.kmalloc 0 (s.threads parent).openFiles = files
  have hfiles : (s.record ((files.1.filter (· ≠ 0)).map .allocFile)).ledger = s.ledger := by
    refine ledger_record fun c hc => ?_
    obtain ⟨file, _, rfl⟩ := List.mem_map.mp hc
    exact ⟨rfl, rfl⟩
  have hrecord : Only child s (s.record ((files.1.filter (· ≠ 0)).map .allocFile)) :=
    record_only _
  have hthreads : (s.record ((files.1.filter (· ≠ 0)).map .allocFile)).threads = s.threads := rfl
  generalize s.record ((files.1.filter (· ≠ 0)).map .allocFile) = s1 at *
  dsimp only
  split
  · obtain ⟨honly, hledger, hstate⟩ := forkFails_effect (s1.closeFiles files.1) frame child
    refine ⟨(hrecord.trans (record_only _)).trans honly, Or.inl ⟨?_, hstate⟩⟩
    rw [hledger, ledger_closeFiles, hfiles, ← hthreads]
    rfl
  · split
    · obtain ⟨honly, hledger, hstate⟩ := forkFails_effect (s1.update child fun t =>
        { t with openFiles := files.1, openFileCount := (files.1.filter (· ≠ 0)).length,
                 kstackSize := (s.threads parent).kstackSize, kstack := re.kstack }) frame child
      refine ⟨(hrecord.trans (.update child _)).trans honly, Or.inl ⟨?_, hstate⟩⟩
      rw [hledger, ledger_update, hfiles, ← hthreads]
      simp
    · rename_i hkstack
      obtain ⟨honly, hledger, hthread⟩ := forkRuns_effect ((s1.update child fun t =>
        { t with openFiles := files.1, openFileCount := (files.1.filter (· ≠ 0)).length,
                 kstackSize := (s.threads parent).kstackSize, kstack := re.kstack }).record
        [.allocStack re.kstack ((s.threads parent).kstackSize / pageSize)]) frame child
      refine ⟨(hrecord.trans ((Only.update child _).trans (record_only _))).trans honly,
        Or.inr ⟨?_, hkstack, files.1, (files.1.filter (· ≠ 0)).length, ?_⟩⟩
      · rw [hledger, ledger_record_stack ⟨rfl, rfl⟩, ledger_update, hfiles]
      · rw [hthread]
        simp [hthreads]

lemma schedulerFork_slot (s : Sched) (cpu : Cpu) (frame : ℕ) (re : Replies) :
    s.schedulerFork cpu frame re = s.setRax frame minusOne ∨
      ∃ i, Only i s (s.schedulerFork cpu frame re) ∧ (s.threads i).state = .unused ∧
        (((s.schedulerFork cpu frame re).threads i).state = .unused ∨
          ((s.schedulerFork cpu frame re).threads i).state = .ready) := by
  rw [schedulerFork]
  split
  · exact Or.inl rfl
  · split
    · exact Or.inl rfl
    · rename_i child s1 halloc
      obtain ⟨hfree, honly, _⟩ := threadAllocSlot_some halloc
      obtain ⟨honly2, _⟩ := forkStart_effect s1 (s.current cpu) child
      obtain ⟨honly3, hrest⟩ := forkRest_effect (s1.forkStart (s.current cpu) child) frame
        (s.current cpu) child re
      refine Or.inr ⟨child, (honly.trans honly2).trans honly3, hfree, ?_⟩
      rcases hrest with ⟨_, hstate⟩ | ⟨_, _, files, count, hthread⟩
      · exact Or.inl hstate
      · exact Or.inr (by rw [hthread])

/-- What `scheduler_fork` can do: nothing; take a reference and give it back; or start a child in
the parent's space. -/
lemma schedulerFork_cases (hcur : (s.threadCurrent cpu).Live) (frame : ℕ) (re : Replies)
    (hs' : s.schedulerFork cpu frame re = s') :
    s' = s.setRax frame minusOne ∨
      (s.threadCurrent cpu).isUser = true ∧ ∃ i,
        (Discarded i s s' ∧ s'.ledger =
            (s.ledger.retain (s.threadCurrent cpu).cr3).release (s.threadCurrent cpu).cr3 ∨
          Spawned cpu i s s' ∧ Forked (s.threadCurrent cpu) re (s'.threads i) ∧
            s'.ledger = (s.ledger.retain (s.threadCurrent cpu).cr3).stackCall
              (.allocStack re.kstack ((s.threadCurrent cpu).kstackSize / pageSize))) := by
  rw [schedulerFork] at hs'
  split at hs'
  · exact Or.inl hs'.symm
  · rename_i huser
    split at hs'
    · exact Or.inl hs'.symm
    · rename_i child s1 halloc
      obtain ⟨hfree, honly, hledger⟩ := threadAllocSlot_some halloc
      have hne : child ≠ s.current cpu := by
        rintro rfl
        exact hcur hfree
      have hparent := honly.threads _ hne.symm
      have hcr3 : (s1.threads (s.current cpu)).cr3 = (s.threadCurrent cpu).cr3 :=
        Thread.cr3_eq hparent.identity
      have hcpu : (s1.threads (s.current cpu)).cpuId = (s.threadCurrent cpu).cpuId :=
        Thread.cpuId_eq hparent.identity
      obtain ⟨honly2, hledger2⟩ := forkStart_effect s1 (s.current cpu) child
      have hchild2 := forkStart_child (s := s1) hne
      have hparent2 := honly2.threads _ hne.symm
      obtain ⟨honly3, hrest⟩ := forkRest_effect (s1.forkStart (s.current cpu) child) frame
        (s.current cpu) child re
      rw [hs'] at honly3 hrest
      have hall : Only child s s' := (honly.trans honly2).trans honly3
      rw [hchild2, hledger2, hledger, hcr3] at hrest
      refine Or.inr ⟨by simpa [threadCurrent] using huser, child, hrest.imp ?_ ?_⟩
      · rintro ⟨hl, hstate⟩
        refine ⟨⟨hall, hfree, hstate⟩, ?_⟩
        rw [hl]
        simp only [forkChild, hcr3]
      · rintro ⟨hl, hkstack, files, count, hthread⟩
        rw [hthread]
        have hsize : ((s1.forkStart (s.current cpu) child).threads (s.current cpu)).kstackSize =
            (s.threadCurrent cpu).kstackSize :=
          (Thread.kstackSize_eq hparent2.identity).trans (Thread.kstackSize_eq hparent.identity)
        refine ⟨⟨hall, hfree, ?_⟩, ?_, by rw [hl, hsize]⟩
        · rw [hthread]
          refine ⟨rfl, rfl, hkstack, fun hbig => ?_⟩
          simp only [Thread.OnStack, frameSize] at hbig ⊢
          omega
        · exact ⟨rfl, hcr3, hcpu, rfl, hsize⟩

/-! ## Threads created by the kernel -/

/-- `t` is a thread that the kernel has just made for the space `cr3`. -/
structure Made (isUser : Bool) (cr3 : ℕ) (re : Replies) (t : Thread) : Prop where
  isUser : t.isUser = isUser
  cr3 : t.cr3 = cr3
  kstack : t.kstack = re.kstack
  kstackSize : t.kstackSize = kstackPages * pageSize

lemma adopt_effect (s : Sched) (cpu : Cpu) (i : Slot) (isUser : Bool) (cr3 : ℕ) :
    Only i s (s.adopt cpu i isUser cr3) ∧ (s.adopt cpu i isUser cr3).ledger = s.ledger ∧
      ((s.adopt cpu i isUser cr3).threads i).isUser = isUser ∧
      ((s.adopt cpu i isUser cr3).threads i).cr3 = cr3 ∧
      ((s.adopt cpu i isUser cr3).threads i).parent = some (s.current cpu) := by
  have hpick : ∀ s : Sched, s.schedulerPickCpu.2.threads = s.threads ∧
      s.schedulerPickCpu.2.current = s.current ∧ s.schedulerPickCpu.2.rsp0 = s.rsp0 ∧
      s.schedulerPickCpu.2.ledger = s.ledger := by
    intro s
    rw [schedulerPickCpu]
    split <;> exact ⟨rfl, rfl, rfl, rfl⟩
  rw [adopt]
  generalize hs1 : (s.update i fun t =>
    { t with isUser := isUser, cr3 := cr3, parent := some (s.current cpu) }).update (s.current cpu)
      (fun t => { t with children := (t.children + 1) % 2 ^ 32 }) = s1
  obtain ⟨hthreads, hcurrent, hrsp0, hledger⟩ := hpick s1
  have honly : Only i s s1 := by
    rw [← hs1]
    exact (Only.update i _).trans (.update_other ⟨rfl, rfl, rfl, rfl⟩)
  have hslot : (s1.threads i).isUser = isUser ∧ (s1.threads i).cr3 = cr3 ∧
      (s1.threads i).parent = some (s.current cpu) := by
    rw [← hs1]
    rcases eq_or_ne i (s.current cpu) with hcur | hcur
    · simp [← hcur]
    · simp [update_of_ne hcur]
  refine ⟨(honly.trans (.of_eq hthreads hcurrent hrsp0)).trans (.update i _), ?_, ?_, ?_, ?_⟩
  · rw [ledger_update, hledger, ← hs1, ledger_update, ledger_update]
  · simpa [hthreads] using hslot.1
  · simpa [hthreads] using hslot.2.1
  · simpa [hthreads] using hslot.2.2

lemma takeStack_effect (s : Sched) (i : Slot) (kstack : ℕ) :
    Only i s (s.takeStack i kstack) ∧
      (kstack ≠ 0 → (s.takeStack i kstack).ledger =
        s.ledger.stackCall (.allocStack kstack kstackPages)) ∧
      (kstack = 0 → (s.takeStack i kstack).ledger = s.ledger) := by
  refine ⟨(record_only _).trans (.update i _), fun h => ?_, fun h => ?_⟩
  · rw [takeStack, if_neg h, ledger_update]
    exact ledger_record_stack ⟨rfl, rfl⟩
  · rw [takeStack, if_pos h, ledger_update]
    exact ledger_record (by simp)

lemma takeStack_thread (s : Sched) (i : Slot) (kstack : ℕ) :
    (s.takeStack i kstack).threads i =
      { s.threads i with kstackSize := kstackPages * pageSize, kstack := kstack } := by
  simp [takeStack]

lemma giveUp_only (s : Sched) (i : Slot) : Only i s (s.giveUp i) := .update i _

lemma giveUp_state (s : Sched) (i : Slot) : ((s.giveUp i).threads i).state = .unused := by
  simp [giveUp]

lemma buildFrame_effect (s : Sched) (i : Slot) (sp : ℕ) (fr : Frame) :
    Only i s ((s.buildFrame i sp fr).makeReady i) ∧
      ((s.buildFrame i sp fr).makeReady i).ledger = s.ledger ∧
      ((s.buildFrame i sp fr).makeReady i).threads i =
        { s.threads i with rsp := sp, state := .ready } :=
  ⟨((setFrame_only _ _).trans (.update i _)).trans (.update i _), rfl,
    by simp [buildFrame, makeReady]⟩

lemma threadCreateKernel_cases (trampoline fn arg : ℕ) (re : Replies)
    (hs' : (s.threadCreateKernel cpu trampoline fn arg re).2 = s') :
    s' = s ∨ ∃ i, (Discarded i s s' ∧ s'.ledger = s.ledger ∨
      Spawned cpu i s s' ∧ Made false s.kspaceCr3 re (s'.threads i) ∧
        s'.ledger = s.ledger.stackCall (.allocStack re.kstack kstackPages)) := by
  rw [threadCreateKernel] at hs'
  split at hs'
  · exact Or.inl hs'.symm
  · rename_i i s1 halloc
    obtain ⟨hfree, honly1, hledger1⟩ := threadAllocSlot_some halloc
    obtain ⟨honly2, hledger2, huser2, hcr32, hparent2⟩ :=
      adopt_effect s1 cpu i false s1.kspaceCr3
    have hkspace : s1.kspaceCr3 = s.kspaceCr3 := congrArg Ledger.kspaceCr3 hledger1
    generalize s1.adopt cpu i false s1.kspaceCr3 = s2 at *
    obtain ⟨honly3, hledger3, hledger3'⟩ := takeStack_effect s2 i re.kstack
    have hthread3 := takeStack_thread s2 i re.kstack
    generalize s2.takeStack i re.kstack = s3 at *
    have honly : Only i s s3 := (honly1.trans honly2).trans honly3
    refine Or.inr ⟨i, ?_⟩
    dsimp only at hs'
    split at hs'
    · rename_i hkstack
      rw [← hs']
      refine Or.inl ⟨⟨honly.trans (giveUp_only _ _), hfree, giveUp_state _ _⟩, ?_⟩
      exact ((hledger3' hkstack).trans hledger2).trans hledger1
    · rename_i hkstack
      obtain ⟨honly4, hledger4, hthread4⟩ := buildFrame_effect s3 i
        ((s3.threads i).kstack + (s3.threads i).kstackSize - 8 - (frameSize - 16))
        { rip := trampoline, cs := gdtSelKcode, rflags := 0x202, rdi := fn, rsi := arg }
      rw [← buildKernelThreadFrame] at honly4 hledger4 hthread4
      dsimp only at hs'
      rw [hs'] at honly4 hledger4 hthread4
      rw [hthread3] at hthread4
      refine Or.inr ⟨⟨honly.trans honly4, hfree, ?_⟩, ?_, ?_⟩
      · rw [hthread4]
        refine ⟨rfl, hparent2.trans (congrArg some (congrFun honly1.current cpu)), hkstack, fun _ => ?_⟩
        simp only [Thread.OnStack, frameSize, kstackPages, pageSize]
        omega
      · rw [hthread4]
        exact ⟨huser2, hcr32.trans hkspace, rfl, rfl⟩
      · rw [hledger4, hledger3 hkstack, hledger2, hledger1]

lemma mapUserStack_effect {b : Bool} {re : Replies} (h : s.mapUserStack i re = (b, s')) :
    Only i s s' ∧ s'.ledger = s.ledger ∧ (s'.threads i).identity = (s.threads i).identity := by
  have honly : Only i s (s.update i fun t => { t with ustackSize := ustackPages * pageSize }) :=
    .update i _
  have hslot : ((s.update i fun t => { t with ustackSize := ustackPages * pageSize }).threads
      i).identity = (s.threads i).identity := by simp [Thread.identity]
  rw [mapUserStack] at h
  have hledger : (s.update i fun t => { t with ustackSize := ustackPages * pageSize }).ledger =
      s.ledger := rfl
  generalize s.update i _ = s1 at *
  dsimp only at h
  split at h
  · cases h
    exact ⟨honly, hledger, hslot⟩
  · split at h
    · cases h
      exact ⟨honly.trans (record_only _), (ledger_record (by simp [Call.ofSpace, Call.ofStack])).trans
        hledger, hslot⟩
    · cases h
      refine ⟨(honly.trans (record_only _)).trans (record_only _), ?_, hslot⟩
      rw [ledger_record (by simp [Call.ofSpace, Call.ofStack]),
        ledger_record (by simp [Call.ofSpace, Call.ofStack]), hledger]

lemma startUserThread_effect (s : Sched) (i : Slot) (userRip brkStart ustack : ℕ) :
    Only i s (s.startUserThread i userRip brkStart ustack) ∧
      (s.startUserThread i userRip brkStart ustack).ledger = s.ledger ∧
      ((s.startUserThread i userRip brkStart ustack).threads i).identity =
        (s.threads i).identity ∧
      ((s.startUserThread i userRip brkStart ustack).threads i).state = .ready ∧
      ((s.startUserThread i userRip brkStart ustack).threads i).rsp =
        (s.threads i).kstack + (s.threads i).kstackSize - frameSize := by
  refine ⟨?_, rfl, ?_, ?_, ?_⟩
  · rw [startUserThread, buildUserThreadFrame, buildFrame, makeReady]
    exact (Only.update i _).trans (((setFrame_only _ _).trans (.update i _)).trans (.update i _))
  · simp [startUserThread, buildUserThreadFrame, buildFrame, makeReady, Thread.identity]
  · simp [startUserThread, makeReady]
  · simp [startUserThread, buildUserThreadFrame, buildFrame, makeReady]

/-- What `thread_create_user` can do.  A failure after the kernel stack was allocated leaks it. -/
lemma threadCreateUser_cases (userRip brkStart cr3 : ℕ) (re : Replies) {o : Option Slot}
    (hs' : s.threadCreateUser cpu userRip brkStart cr3 re = (o, s')) :
    o = none ∧ s' = s ∨ ∃ i,
      (o = none ∧ Discarded i s s' ∧ (s'.ledger = s.ledger ∨ re.kstack ≠ 0 ∧
          s'.ledger = s.ledger.stackCall (.allocStack re.kstack kstackPages)) ∨
        o = some i ∧ cr3 ≠ 0 ∧ Spawned cpu i s s' ∧ Made true cr3 re (s'.threads i) ∧
          s'.ledger = s.ledger.stackCall (.allocStack re.kstack kstackPages)) := by
  rw [threadCreateUser] at hs'
  split at hs'
  · cases hs'
    exact Or.inl ⟨rfl, rfl⟩
  · rename_i i s1 halloc
    obtain ⟨hfree, honly1, hledger1⟩ := threadAllocSlot_some halloc
    obtain ⟨honly2, hledger2, huser2, hcr32, hparent2⟩ := adopt_effect s1 cpu i true cr3
    generalize s1.adopt cpu i true cr3 = s2 at *
    have honly := honly1.trans honly2
    have hledger := hledger2.trans hledger1
    have hfails : ∀ s3, Only i s s3 → Discarded i s (s3.giveUp i) := fun s3 h =>
      ⟨h.trans (giveUp_only _ _), hfree, giveUp_state _ _⟩
    refine Or.inr ⟨i, ?_⟩
    dsimp only at hs'
    split at hs'
    · cases hs'
      exact Or.inl ⟨rfl, hfails _ honly, Or.inl hledger⟩
    · rename_i hcr3
      obtain ⟨honly3, hledger3, hledger3'⟩ := takeStack_effect s2 i re.kstack
      have hthread3 := takeStack_thread s2 i re.kstack
      generalize s2.takeStack i re.kstack = s3 at *
      replace honly := honly.trans honly3
      split at hs'
      · rename_i hkstack
        cases hs'
        exact Or.inl ⟨rfl, hfails _ honly, Or.inl ((hledger3' hkstack).trans hledger)⟩
      · rename_i hkstack
        replace hledger : s3.ledger = s.ledger.stackCall (.allocStack re.kstack kstackPages) := by
          rw [hledger3 hkstack, hledger]
        split at hs'
        · rename_i s4 hmap
          obtain ⟨honly4, hledger4, _⟩ := mapUserStack_effect hmap
          cases hs'
          exact Or.inl ⟨rfl, hfails _ (honly.trans honly4), Or.inr ⟨hkstack, hledger4.trans hledger⟩⟩
        · rename_i s4 hmap
          obtain ⟨honly4, hledger4, hid4⟩ := mapUserStack_effect hmap
          obtain ⟨honly5, hledger5, hid5, hstate, hrsp⟩ :=
            startUserThread_effect s4 i userRip brkStart re.ustack
          cases hs'
          have hid := hid5.trans (hid4.trans (congrArg Thread.identity hthread3))
          refine Or.inr ⟨rfl, hcr3, ⟨(honly.trans honly4).trans honly5, hfree, ?_⟩, ?_,
            (hledger5.trans hledger4).trans hledger⟩
          · refine ⟨hstate, ?_, ?_, fun hbig => ?_⟩
            · rw [Thread.parent_eq hid, ← congrFun honly1.current cpu]
              exact hparent2
            · rw [Thread.kstack_eq hid]
              exact hkstack
            · rw [Thread.OnStack, hrsp, ← Thread.kstack_eq hid5, ← Thread.kstackSize_eq hid5]
              simp only [frameSize] at hbig ⊢
              omega
          · exact ⟨(Thread.isUser_eq hid).trans huser2, (Thread.cr3_eq hid).trans hcr32,
              Thread.kstack_eq hid, Thread.kstackSize_eq hid⟩

/-- The idle thread of another CPU. -/
structure Registered (cpu : Cpu) (stackBase stackSize : ℕ) (i : Slot) (s s' : Sched) : Prop where
  threads : ∀ j, j ≠ i → (s.threads j).SameRun (s'.threads j)
  free : (s.threads i).state = .unused
  running : (s'.threads i).state = .running
  isUser : (s'.threads i).isUser = false
  cr3 : (s'.threads i).cr3 = s.kspaceCr3
  parent : (s'.threads i).parent = none
  kstack : (s'.threads i).kstack = stackBase
  kstackSize : (s'.threads i).kstackSize = stackSize
  cpuId : (s'.threads i).cpuId = cpu
  current : s'.current = Function.update s.current cpu i
  rsp0 : s'.rsp0 = Function.update s.rsp0 cpu (stackBase + stackSize)
  ledger : s'.ledger = s.ledger

lemma schedulerRegisterCpuBootstrap_cases (stackBase stackSize : ℕ)
    (hs' : s.schedulerRegisterCpuBootstrap cpu stackBase stackSize = s') :
    s' = s ∨ ∃ i, Registered cpu stackBase stackSize i s s' := by
  rw [schedulerRegisterCpuBootstrap] at hs'
  split at hs'
  · exact Or.inl hs'.symm
  · rename_i i s1 halloc
    obtain ⟨hfree, honly, hledger⟩ := threadAllocSlot_some halloc
    have hparent : (s1.threads i).parent = none := by
      obtain ⟨j, _, heq⟩ := Option.map_eq_some_iff.mp halloc
      cases heq
      simp
    subst hs'
    refine Or.inr ⟨i, ⟨fun j hj => ?_, hfree, ?_, ?_, ?_, ?_, ?_, ?_, ?_, ?_, ?_, hledger⟩⟩
    · simpa [update_of_ne hj] using honly.threads j hj
    · simp
    · simp
    · simp only [update_threads, update_self]
      exact congrArg Ledger.kspaceCr3 hledger
    · simpa using hparent
    · simp
    · simp
    · simp
    · exact congrArg (Function.update · cpu i) honly.current
    · exact congrArg (Function.update · cpu (stackBase + stackSize)) honly.rsp0

/-! ## Reaping -/

/-- The ledger after thread `t` was reaped. -/
def reapLedger (l : Ledger) (t : Thread) : Ledger :=
  let l := if t.kstack ≠ 0 then l.stackCall (.freeStack t.kstack (t.kstackSize / pageSize)) else l
  if t.isUser then l.release t.cr3 else l

lemma threadReleaseResources_effect (s : Sched) (i : Slot) :
    Only i s (s.threadReleaseResources i) ∧
      (s.threadReleaseResources i).ledger = reapLedger s.ledger (s.threads i) := by
  rw [threadReleaseResources]
  generalize hs1 : (if (s.threads i).kstack ≠ 0 then
      (s.record [.freeStack (s.threads i).kstack ((s.threads i).kstackSize / pageSize)]).update i
        (fun t => { t with kstack := 0 })
    else s) = s1
  have h1 : Only i s s1 ∧ s1.ledger = if (s.threads i).kstack ≠ 0 then
      s.ledger.stackCall (.freeStack (s.threads i).kstack ((s.threads i).kstackSize / pageSize))
      else s.ledger := by
    rw [← hs1]
    split
    · refine ⟨(record_only _).trans (.update i _), ?_⟩
      rw [ledger_update]
      exact ledger_record_stack ⟨rfl, rfl⟩
    · exact ⟨.of_eq rfl rfl rfl, rfl⟩
  rw [reapLedger, ← h1.2]
  generalize s.threads i = t
  by_cases huser : t.isUser ∧ t.cr3 ≠ 0 ∧ t.cr3 ≠ s1.kspaceCr3
  · rw [if_pos huser, if_pos huser.1]
    refine ⟨(h1.1.trans (Only.release _)).trans ((Only.update i _).trans (.update i _)), ?_⟩
    rw [ledger_update, ledger_update, ledger_release]
  · rw [if_neg huser]
    refine ⟨h1.1.trans (.update i _), ?_⟩
    rw [ledger_update]
    split
    · rename_i hu
      rw [Ledger.release, if_pos]
      by_contra hnot
      push Not at hnot
      exact huser ⟨hu, hnot⟩
    · rfl

lemma reap_effect (s : Sched) (frame : ℕ) (z : Slot) :
    Only z s (s.reap frame z) ∧ ((s.reap frame z).threads z).state = .unused ∧
      (s.reap frame z).ledger = reapLedger s.ledger (s.threads z) := by
  obtain ⟨honly, hledger⟩ := threadReleaseResources_effect s z
  refine ⟨?_, by simp [reap], ?_⟩
  · exact ((honly.trans (record_only _)).trans (.update z _)).trans (setRax_only _)
  · rw [reap, ledger_setRax, ledger_update, ledger_closeFiles, hledger]

/-- Thread `c` is a child of `p` that `find_child` returns for `pid`. -/
structure Child (s : Sched) (p : Slot) (pid : ℤ) (c : Slot) : Prop where
  live : (s.threads c).Live
  parent : (s.threads c).parent = some p
  pid : pid > 0 → toInt (s.threads c).id = pid

lemma findChild_some {p : Slot} {pid : ℤ} {b : Bool} (h : s.findChild p pid b = some i) :
    s.Child p pid i ∧ (b = true → (s.threads i).state = .zombie) := by
  have hfound := findSlot_some h
  simp only [decide_eq_true_eq] at hfound
  exact ⟨⟨hfound.1, hfound.2.1, hfound.2.2.1⟩, hfound.2.2.2⟩

lemma findChild_none {p : Slot} {pid : ℤ} {b : Bool} (h : s.findChild p pid b = none)
    (hc : s.Child p pid i) : b = true ∧ (s.threads i).state ≠ .zombie := by
  have hnot := findSlot_none h i
  simp only [decide_eq_false_iff_not, not_and, Classical.not_imp] at hnot
  exact hnot hc.live hc.parent hc.pid

/-- What the critical section of `scheduler_waitpid` can do: reap a zombie, report that there is no
such child, or block. -/
lemma waitpidSection_cases {pid : ℤ} {statusPtr : ℕ} {b : Bool}
    (h : s.waitpidSection cpu frame pid statusPtr = some (b, s')) :
    (b = false ∧ ∃ z, s.findChild (s.current cpu) pid true = some z ∧
        s.Child (s.current cpu) pid z ∧ (s.threads z).state = .zombie ∧ Only z s s' ∧
        (s'.threads z).state = .unused ∧ s'.ledger = reapLedger s.ledger (s.threads z) ∧
        (s'.frames frame).rax = (s.threads z).id) ∨
      (b = false ∧ s' = s.setRax frame minusOne) ∨
      (b = true ∧ (∃ c, s.Child (s.current cpu) pid c ∧ (s.threads c).state ≠ .zombie) ∧
        s' = s.update (s.current cpu) fun t =>
          { t with waitTarget := pid, waitStatusPtr := statusPtr, state := .blocked }) := by
  rw [waitpidSection] at h
  split at h
  · rename_i z hz
    obtain ⟨hchild, hzombie⟩ := findChild_some hz
    rcases storeStatus_cases s cpu statusPtr (s.threads z).exitCode with
      ⟨s1, hstore, hthreads, hcurrent, hrsp0, hsame, -⟩ | ⟨hstore, -⟩ <;> rw [hstore] at h <;> cases h
    obtain ⟨honly, hstate, hledger⟩ := reap_effect s1 frame z
    refine Or.inl ⟨rfl, z, hz, hchild, hzombie rfl,
      (Only.of_eq hthreads hcurrent hrsp0).trans honly, hstate, ?_, ?_⟩
    · rw [hledger, hthreads, hsame]
    · simp [reap, hthreads]
  · rename_i hnone
    split at h
    · cases h
      exact Or.inr (Or.inl ⟨rfl, rfl⟩)
    · rename_i c hc
      cases h
      obtain ⟨hchild, _⟩ := findChild_some hc
      exact Or.inr (Or.inr ⟨rfl, ⟨c, hchild, (findChild_none hnone hchild).2⟩, rfl⟩)

/-! ## Exec -/

/-- The threads and the choice of the running one are as they were. -/
structure SameThreads (s s' : Sched) : Prop where
  threads : s'.threads = s.threads
  current : s'.current = s.current
  rsp0 : s'.rsp0 = s.rsp0

lemma SameThreads.trans (h : s.SameThreads s') (h' : s'.SameThreads s'') : s.SameThreads s'' :=
  ⟨h'.threads.trans h.threads, h'.current.trans h.current, h'.rsp0.trans h.rsp0⟩

lemma SameThreads.only (h : s.SameThreads s') : Only i s s' := .of_eq h.threads h.current h.rsp0

lemma setRax_same (v : ℕ) : s.SameThreads (s.setRax frame v) := ⟨rfl, rfl, rfl⟩

lemma vmmReleaseUserSpace_same (cr3 : ℕ) : s.SameThreads (s.vmmReleaseUserSpace cr3) := by
  rw [vmmReleaseUserSpace]
  split <;> exact ⟨rfl, rfl, rfl⟩

lemma vmmCreateUserSpace_cases {pml4 x : ℕ} (h : s.vmmCreateUserSpace pml4 = (x, s')) :
    s.SameThreads s' ∧ s'.frames = s.frames ∧ (x = 0 ∧ s'.ledger = s.ledger ∨
      x = pml4 ∧ pml4 ≠ 0 ∧ s.ledger.create pml4 = some s'.ledger) := by
  rw [Sched.vmmCreateUserSpace] at h
  split at h
  · cases h
    exact ⟨⟨rfl, rfl, rfl⟩, rfl, Or.inl ⟨rfl, rfl⟩⟩
  · rename_i hpml4
    split at h
    · rename_i spaces hreg
      cases h
      refine ⟨⟨rfl, rfl, rfl⟩, rfl, Or.inr ⟨rfl, hpml4, ?_⟩⟩
      simp [Ledger.create, ledger, hreg, List.filter_cons, Call.ofSpace, Call.ofStack]
    · cases h
      refine ⟨⟨rfl, rfl, rfl⟩, rfl, Or.inl ⟨rfl, ?_⟩⟩
      simp [ledger, Call.ofSpace, Call.ofStack]

/-- `t'` is the thread `t` in the space `cr3`. -/
structure MovedTo (cr3 : ℕ) (t t' : Thread) : Prop where
  identity : t'.identity = { t.identity with cr3 := cr3 }
  state : t'.state = t.state
  rsp : t'.rsp = t.rsp
  waitTarget : t'.waitTarget = t.waitTarget

lemma execveFails_effect (s : Sched) (frame cr3 : ℕ) :
    s.SameThreads (s.execveFails frame cr3) ∧
      (s.execveFails frame cr3).ledger = s.ledger.release cr3 :=
  ⟨(vmmReleaseUserSpace_same cr3).trans (setRax_same _), by simp [execveFails]⟩

lemma execveCommits_effect (s : Sched) (cpu : Cpu) (frame cr3 entry brk : ℕ) (re : Replies) :
    Only (s.current cpu) s (s.execveCommits cpu frame cr3 entry brk re) ∧
      MovedTo cr3 (s.threadCurrent cpu)
        ((s.execveCommits cpu frame cr3 entry brk re).threads (s.current cpu)) ∧
      (s.execveCommits cpu frame cr3 entry brk re).ledger =
        s.ledger.release (s.threadCurrent cpu).cr3 := by
  have honly : Only (s.current cpu) s (s.enterSpace cpu cr3 brk re) := by
    refine ⟨fun j hj => ?_, rfl, rfl⟩
    simpa [enterSpace, update_of_ne hj] using Thread.SameRun.refl _
  have hmoved : MovedTo cr3 (s.threadCurrent cpu)
      ((s.enterSpace cpu cr3 brk re).threads (s.current cpu)) := by
    simp only [enterSpace, update_threads, update_self]
    exact ⟨rfl, rfl, rfl, rfl⟩
  have hledger : (s.enterSpace cpu cr3 brk re).ledger = s.ledger := rfl
  rw [execveCommits]
  generalize s.enterSpace cpu cr3 brk re = s1 at *
  -- the caller's test for the kernel's own space is made again by the callee
  have hrelease : ∀ x, (if x ≠ 0 ∧ x ≠ s1.kspaceCr3 then s1.vmmReleaseUserSpace x else s1) =
      s1.vmmReleaseUserSpace x := by
    intro x
    split
    · rfl
    · rename_i hx
      rw [Sched.vmmReleaseUserSpace, if_pos]
      by_contra hnot
      push Not at hnot
      exact hx hnot
  rw [hrelease]
  have hsame := vmmReleaseUserSpace_same (s := s1) (s.threadCurrent cpu).cr3
  refine ⟨(honly.trans hsame.only).trans (setFrame_only _ _), ?_, ?_⟩
  · rw [setFrame_threads, hsame.threads]
    exact hmoved
  · rw [ledger_setFrame, ledger_release, hledger]

/-- What `SYS_execve` can do: nothing; create a space and give it back; or move the thread to a new
space and drop its reference to the old one. -/
lemma execve_cases (re : Replies) (hs' : s.execve cpu frame re = s') :
    (s.SameThreads s' ∧ s'.ledger = s.ledger) ∨
      (s.threadCurrent cpu).isUser = true ∧ re.pml4 ≠ 0 ∧
        ∃ l, s.ledger.create re.pml4 = some l ∧
          (s.SameThreads s' ∧ s'.ledger = l.release re.pml4 ∨
            Only (s.current cpu) s s' ∧
              MovedTo re.pml4 (s.threadCurrent cpu) (s'.threads (s.current cpu)) ∧
              s'.ledger = l.release (s.threadCurrent cpu).cr3) := by
  rw [execve] at hs'
  split at hs'
  · rw [← hs']
    exact Or.inl ⟨setRax_same _, rfl⟩
  · rename_i huser
    split at hs'
    · rw [← hs']
      exact Or.inl ⟨setRax_same _, rfl⟩
    · rcases hc : s.vmmCreateUserSpace re.pml4 with ⟨x, s1⟩
      rw [hc] at hs'
      obtain ⟨hsame, _, hcreate⟩ := vmmCreateUserSpace_cases hc
      rcases hcreate with ⟨rfl, hledger⟩ | ⟨rfl, hpml4, hcreate⟩
      · rw [if_pos rfl] at hs'
        rw [← hs']
        exact Or.inl ⟨hsame.trans (setRax_same _), hledger⟩
      · rw [if_neg hpml4] at hs'
        refine Or.inr ⟨by simpa using huser, hpml4, s1.ledger, hcreate, ?_⟩
        have hfails : ∀ s2, s1.SameThreads s2 → s2.ledger = s1.ledger →
            s.SameThreads (s2.execveFails frame re.pml4) ∧
              (s2.execveFails frame re.pml4).ledger = s1.ledger.release re.pml4 := by
          intro s2 hsame2 hledger2
          obtain ⟨hsame3, hledger3⟩ := execveFails_effect s2 frame re.pml4
          exact ⟨(hsame.trans hsame2).trans hsame3, hledger3.trans (by rw [hledger2])⟩
        split at hs'
        · rw [← hs']
          exact Or.inl (hfails s1 ⟨rfl, rfl, rfl⟩ rfl)
        · rename_i entry brk _
          split at hs'
          · rw [← hs']
            exact Or.inl (hfails s1 ⟨rfl, rfl, rfl⟩ rfl)
          · have hledger2 : (s1.record [.allocPages re.ustack ustackPages]).ledger = s1.ledger :=
              ledger_record (by simp [Call.ofSpace, Call.ofStack])
            have hsame2 : s1.SameThreads (s1.record [.allocPages re.ustack ustackPages]) :=
              ⟨rfl, rfl, rfl⟩
            generalize s1.record [.allocPages re.ustack ustackPages] = s2 at hs' hledger2 hsame2
            dsimp only at hs'
            split at hs'
            · rw [← hs']
              refine Or.inl (hfails _ (hsame2.trans ⟨rfl, rfl, rfl⟩) ?_)
              rw [ledger_record (by simp [Call.ofSpace, Call.ofStack]), hledger2]
            · obtain ⟨honly, hmoved, hledger⟩ :=
                execveCommits_effect s2 cpu frame re.pml4 entry brk re
              have hall := hsame.trans hsame2
              rw [hs'] at honly hmoved hledger
              rw [threadCurrent, hall.current, hall.threads] at hmoved hledger
              rw [hall.current] at honly
              exact Or.inr ⟨hall.only.trans honly, hmoved, by rw [hledger, hledger2]; rfl⟩

end Sched

end MyOs
