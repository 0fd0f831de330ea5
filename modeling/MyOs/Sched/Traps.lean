import MyOs.Sched.Resume

/-!
# Every return from an interrupt

Whole runs of one CPU, made of timer ticks and system calls and of what the threads do between them
(`Feasible`).  `Coherent` is what all events keep.  The one exception is known in advance: the
`int 0x80` that `scheduler_sleep` executes for a user thread is denied by `syscall_handle`, so the
thread goes on while it is SLEEPING.
-/

namespace MyOs

open Lib

variable {re : Replies} {f : Frame} {sp : ℕ}

namespace Sched

variable {s s' : Sched} {cpu : Cpu} {frame fr : ℕ}

/-- `interrupt_dispatch` for timer ticks and system calls, given what the system calls do. -/
lemma Steady.dispatch (h : Steady cpu s) (hframe : (s.threadCurrent cpu).OnStack frame)
    (huser : (s.frames frame).fromUser = (s.threadCurrent cpu).isUser)
    (hcalls : (s.frames frame).intNo ≠ timerVector → (s.frames frame).intNo = syscallVector ∧
      (re.canaryOk = true →
        ∀ fr s', s.syscallHandle 2 cpu frame re = some (fr, s') → Resumes cpu fr s'))
    (hr : s.interruptDispatch cpu frame re = some (fr, s')) : Resumes cpu fr s' := by
  rw [interruptDispatch] at hr
  split at hr
  · split at hr
    · rename_i hfrom
      refine h.exit (fun hzero => ?_) hr
      rw [huser, threadCurrent, hzero, h.boot.2] at hfrom
      cases hfrom
    · cases hr
  · rename_i hcanary
    split at hr
    · have hres := h.reschedule hframe ((s.ticks + 1) % 2 ^ 64)
      rw [schedulerOnTick] at hr
      rwa [Option.some.inj hr] at hres
    · rename_i htimer
      obtain ⟨hvector, hsys⟩ := hcalls htimer
      simp only [hvector, syscallVector, apicReschedVector, apicSpuriousVector, Nat.reduceLT,
        Nat.reduceLeDiff, Nat.reduceEqDiff, and_false, if_false, if_true] at hr
      refine hsys ?_ fr s' hr
      simpa [(h.stack _ h.alive).1, threadCurrent] using hcanary

lemma Resumes.spawn (h : Resumes cpu fr s) (re : Replies) :
    Resumes cpu fr (s.startProgram cpu re).2 := by
  rcases hs' : s.startProgram cpu re with ⟨o, s'⟩
  rcases startProgram_cases hs' with ⟨_, hs | ⟨i, hd⟩⟩ | ⟨i, l, _, _, _, hs, hmade, _⟩
  · exact h.of_same hs
  · exact h.discarded hd
  · refine h.spawned hs ?_
    rw [hmade.kstackSize]
    decide

lemma Resumes.spawnKernel (h : Resumes cpu fr s) (trampoline fn arg : ℕ) (re : Replies) :
    Resumes cpu fr (s.threadCreateKernel cpu trampoline fn arg re).2 := by
  rcases threadCreateKernel_cases trampoline fn arg re rfl with heq | ⟨i, ⟨hd, _⟩ | ⟨hs, hmade, _⟩⟩
  · rwa [heq]
  · exact h.discarded hd
  · refine h.spawned hs ?_
    rw [hmade.kstackSize]
    decide

end Sched

/-! ## Runs -/

namespace Machine

variable {cpu : Cpu} {m : Machine} {e : Event}

/-- Timer ticks and system calls, and what the threads do between them.  A user thread traps from
ring 3 and a kernel thread on its own stack; the bootstrap thread makes no system calls; a kernel
thread that has put itself to sleep does nothing before its `int 0x80`. -/
def Feasible (cpu : Cpu) (m : Machine) : Event → Prop
  | .trap f sp re =>
    (f.intNo = timerVector ∨ f.intNo = syscallVector ∧ m.sched.current cpu ≠ 0) ∧
      f.fromUser = (m.sched.threadCurrent cpu).isUser ∧
      ((m.sched.threadCurrent cpu).isUser = false →
        (m.sched.threadCurrent cpu).OnStack sp ∧ (m.sched.threadCurrent cpu).OnStack re.nested ∧
        ((m.sched.threadCurrent cpu).state = .sleeping →
          f.intNo = timerVector ∨ f.rax = sysYield))
  | .unwind sp _ =>
    (m.sched.threadCurrent cpu).isUser = false ∧ (m.sched.threadCurrent cpu).state ≠ .sleeping ∧
      (m.sched.threadCurrent cpu).OnStack sp
  | .sleep _ =>
    (m.sched.threadCurrent cpu).isUser = false ∧ (m.sched.threadCurrent cpu).state ≠ .sleeping ∧
      m.sched.current cpu ≠ 0
  | .store _ _ => (m.sched.threadCurrent cpu).isUser = true
  | .spawn _ | .spawnKernel _ _ _ _ =>
    (m.sched.threadCurrent cpu).isUser = false ∧ (m.sched.threadCurrent cpu).state ≠ .sleeping

instance : Decidable (m.Feasible cpu e) :=
  match e with
  | .trap _ _ _ => inferInstanceAs (Decidable (_ ∧ _))
  | .unwind _ _ => inferInstanceAs (Decidable (_ ∧ _))
  | .sleep _ => inferInstanceAs (Decidable (_ ∧ _))
  | .store _ _ => inferInstanceAs (Decidable (_ = _))
  | .spawn _ => inferInstanceAs (Decidable (_ ∧ _))
  | .spawnKernel _ _ _ _ => inferInstanceAs (Decidable (_ ∧ _))

/-- A user thread makes `SYS_sleep`, and the handler gets to `scheduler_sleep`. -/
def UserSleeps (cpu : Cpu) (m : Machine) : Event → Prop
  | .trap f _ re =>
    m.halted = false ∧ (m.sched.threadCurrent cpu).isUser = true ∧ f.intNo = syscallVector ∧
      f.rax = sysSleep ∧ m.sched.hz ≠ 0 ∧ re.canaryOk = true
  | _ => False

instance : Decidable (m.UserSleeps cpu e) :=
  match e with
  | .trap _ _ _ => inferInstanceAs (Decidable (_ ∧ _))
  | .unwind _ _ => inferInstanceAs (Decidable False)
  | .sleep _ => inferInstanceAs (Decidable False)
  | .store _ _ => inferInstanceAs (Decidable False)
  | .spawn _ => inferInstanceAs (Decidable False)
  | .spawnKernel _ _ _ _ => inferInstanceAs (Decidable False)

/-- At the end of this event `interrupt_dispatch` returns. -/
def Returns : Event → Prop
  | .trap _ _ _ => True
  | .unwind _ _ => True
  | _ => False

/-- The frame that the CPU goes on with is one of the thread in `g_current`, and that thread is READY
or RUNNING; or the kernel has stopped. -/
def Resumed (cpu : Cpu) (m : Machine) : Prop :=
  m.halted = true ∨
    (m.sched.threadCurrent cpu).Runnable ∧ (m.sched.threadCurrent cpu).OnStack m.resumed

/-- The kernel has stopped; or the bookkeeping is right and the running thread may run, unless it is
a kernel thread on its way from `scheduler_sleep` to the scheduler. -/
def Coherent (cpu : Cpu) (m : Machine) : Prop :=
  m.halted = true ∨ m.sched.Resumes cpu m.resumed ∨
    m.sched.Steady cpu ∧ (m.sched.threadCurrent cpu).isUser = false ∧
      m.sched.current cpu ≠ 0 ∧ (m.sched.threadCurrent cpu).state = .sleeping

lemma trapFrame_onStack {s : Sched} (h : s.Steady cpu)
    (hsp : f.fromUser = false → (s.threadCurrent cpu).OnStack sp) :
    (s.threadCurrent cpu).OnStack (s.trapFrame cpu f sp) := by
  rw [Sched.trapFrame]
  split
  · rw [h.rsp0]
    exact (h.stack _ h.alive).top
  · rename_i hfrom
    exact hsp (by simpa using hfrom)

lemma trap_resumes (hm : m.Coherent cpu) (hf : m.Feasible cpu (.trap f sp re))
    (hs : ¬ m.UserSleeps cpu (.trap f sp re)) :
    (m.step cpu (.trap f sp re)).halted = true ∨
      (m.step cpu (.trap f sp re)).sched.Resumes cpu (m.step cpu (.trap f sp re)).resumed := by
  rcases hhalt : m.halted with _ | _
  swap
  · left
    simp [step, hhalt]
  obtain ⟨hvector, huser, hkernel⟩ := hf
  have hrun := hm.resolve_left (by simp [hhalt])
  have hsteady : m.sched.Steady cpu := hrun.elim (·.toSteady) (·.1)
  have hframe : (m.sched.threadCurrent cpu).OnStack (m.sched.trapFrame cpu f sp) :=
    trapFrame_onStack hsteady fun hfrom => (hkernel (huser.symm.trans hfrom)).1
  simp only [step, hhalt, if_false, Bool.false_eq_true]
  generalize m.sched.trapFrame cpu f sp = frame at hframe
  -- the frame is on the stack, and the threads are as before
  have hsame : m.sched.SameThreads (m.sched.setFrame frame f) := ⟨rfl, rfl, rfl⟩
  have hpushed : (m.sched.setFrame frame f).frames frame = f := by simp
  have hhz : (m.sched.setFrame frame f).hz = m.sched.hz := rfl
  have hcur : (m.sched.setFrame frame f).threadCurrent cpu = m.sched.threadCurrent cpu := rfl
  have hslot : (m.sched.setFrame frame f).current = m.sched.current := rfl
  generalize m.sched.setFrame frame f = s at *
  rcases hd : s.interruptDispatch cpu frame re with _ | ⟨fr, s'⟩
  · exact Or.inl rfl
  refine Or.inr (Sched.Steady.dispatch (hsteady.of_same hsame) ?_ ?_ (fun htimer => ?_) hd)
  · rwa [hcur]
  · rw [hpushed, hcur]
    exact huser
  · rw [hpushed] at htimer ⊢
    obtain ⟨hsys, hboot⟩ := hvector.resolve_left htimer
    refine ⟨hsys, fun hcanary fr s' hr => ?_⟩
    rcases hrun with hres | ⟨_, hk, hne, hasleep⟩
    · refine Sched.Resumes.syscall ⟨hsteady.of_same hsame, ?_, ?_⟩ ?_ ?_ ?_ hr
      · rw [hcur]
        exact hres.runnable
      · rwa [hcur]
      · rwa [hslot]
      · rw [hcur]
        exact fun hk => (hkernel hk).2.1
      · rw [hcur, hpushed, hhz]
        exact fun hu hrax => by_contra fun hne => hs ⟨hhalt, hu, hsys, hrax, hne, hcanary⟩
    · have hyield := ((hkernel hk).2.2 hasleep).resolve_left htimer
      rw [Sched.syscallHandle_yield (by rw [hcur, hk]) (by rw [hpushed, huser, hk])
        (by rw [hpushed, hyield])] at hr
      rw [← hcur] at hframe
      have hnext := (hsteady.of_same hsame).yield hframe
      rwa [Option.some.inj hr] at hnext

/-- Where a user thread sleeps, its handler returns to it and leaves it SLEEPING. -/
lemma userSleeps_resumed (hf : m.Feasible cpu (.trap f sp re)) (hs : m.UserSleeps cpu (.trap f sp re)) :
    ¬ (m.step cpu (.trap f sp re)).Resumed cpu := by
  obtain ⟨hhalt, huser, hvector, hrax, hhz, hcanary⟩ := hs
  simp only [step, hhalt, if_false, Bool.false_eq_true]
  generalize m.sched.trapFrame cpu f sp = frame
  have hpushed : (m.sched.setFrame frame f).frames frame = f := by simp
  have hhz' : (m.sched.setFrame frame f).hz = m.sched.hz := rfl
  have hcur : (m.sched.setFrame frame f).threadCurrent cpu = m.sched.threadCurrent cpu := rfl
  generalize m.sched.setFrame frame f = s at *
  obtain ⟨hcurrent, hid, hasleep⟩ := s.asleep_thread cpu frame re
  have hnested : (s.asleep cpu frame re).frames re.nested = Sched.sleepFrame := by
    simp [Sched.asleep]
  have hcall : s.syscallHandle 2 cpu frame re = some (frame,
      ((s.asleep cpu frame re).setRax re.nested minusOne).setRax frame 0) := by
    rw [Sched.syscallHandle_sleep (by rw [hpushed, hcur, hf.2.1]) (by rw [hpushed, hrax])
      (by rwa [hhz']), Sched.syscallHandle_denied]
    · simp [hcurrent]
    · rw [Thread.isUser_eq hid, hcur, huser]
    · rw [hnested]
      decide
  have hdispatch : s.interruptDispatch cpu frame re = s.syscallHandle 2 cpu frame re := by
    simp [Sched.interruptDispatch, hpushed, hvector, hcanary, syscallVector]
  rw [hdispatch, hcall]
  rintro (hstop | ⟨hrun, _⟩)
  · cases hstop
  · have hstate : ((((s.asleep cpu frame re).setRax re.nested minusOne).setRax frame
        0).threadCurrent cpu).state = .sleeping := hasleep
    rcases hrun with hready | hrunning
    · rw [hstate] at hready
      cases hready
    · rw [hstate] at hrunning
      cases hrunning

/-- What a thread that may run does between two traps keeps the bookkeeping right. -/
lemma Coherent.step (hm : m.Coherent cpu) (hf : m.Feasible cpu e) (hs : ¬ m.UserSleeps cpu e) :
    (m.step cpu e).Coherent cpu ∧ (Returns e → (m.step cpu e).Resumed cpu) := by
  rcases hhalt : m.halted with _ | _
  swap
  · have hstop : m.step cpu e = m := by simp [Machine.step, hhalt]
    rw [hstop]
    exact ⟨hm, fun _ => Or.inl hhalt⟩
  have hrun := hm.resolve_left (by simp [hhalt])
  -- a kernel thread on its way to the scheduler can only trap
  have hawake : (m.sched.threadCurrent cpu).state ≠ .sleeping ∨
      (m.sched.threadCurrent cpu).isUser = true → m.sched.Resumes cpu m.resumed := by
    rintro hnot
    refine hrun.resolve_right fun ⟨_, hk, _, hasleep⟩ => ?_
    rcases hnot with hnot | hnot
    · exact hnot hasleep
    · simp [hk] at hnot
  cases e with
  | trap f sp re =>
    have hres := trap_resumes hm hf hs
    exact ⟨hres.imp_right Or.inl, fun _ => hres.imp_right fun h => ⟨h.runnable, h.onStack⟩⟩
  | unwind sp slept =>
    obtain ⟨_, hnot, hsp⟩ := hf
    have hres : m.sched.Resumes cpu sp :=
      ⟨(hawake (Or.inl hnot)).toSteady, (hawake (Or.inl hnot)).runnable, hsp⟩
    have hback : (if slept then m.sched.setRax sp 0 else m.sched).Resumes cpu sp := by
      split
      · exact hres.setRax 0
      · exact hres
    simp only [Machine.step, hhalt, if_false, Bool.false_eq_true]
    exact ⟨Or.inr (Or.inl hback), fun _ => Or.inr ⟨hback.runnable, hback.onStack⟩⟩
  | sleep ticks =>
    obtain ⟨hk, hnot, hne⟩ := hf
    have hsteady := (hawake (Or.inl hnot)).toSteady.sleep hne ticks
    simp only [Machine.step, hhalt, if_false, Bool.false_eq_true]
    refine ⟨Or.inr (Or.inr ⟨hsteady, ?_, hne, ?_⟩), False.elim⟩
    · simpa [Sched.schedulerSleep, Sched.threadCurrent] using hk
    · simp [Sched.schedulerSleep, Sched.threadCurrent]
  | store va b =>
    simp only [Machine.step, hhalt, if_false, Bool.false_eq_true]
    exact ⟨Or.inr (Or.inl ((hawake (Or.inr hf)).of_same ⟨rfl, rfl, rfl⟩)), False.elim⟩
  | spawn re =>
    simp only [Machine.step, hhalt, if_false, Bool.false_eq_true]
    exact ⟨Or.inr (Or.inl ((hawake (Or.inl hf.2)).spawn re)), False.elim⟩
  | spawnKernel trampoline fn arg re =>
    simp only [Machine.step, hhalt, if_false, Bool.false_eq_true]
    exact ⟨Or.inr (Or.inl ((hawake (Or.inl hf.2)).spawnKernel trampoline fn arg re)), False.elim⟩

/-- The machine after `scheduler_init`, on the stack of `boot.S`. -/
def boot (s : Sched) (stackBottom stackSize : ℕ) : Machine :=
  { sched := s.schedulerInit stackBottom stackSize, resumed := stackBottom, halted := false }

lemma coherent_boot (s : Sched) {stackBottom stackSize : ℕ} (hbottom : stackBottom ≠ 0)
    (hsize : frameSize ≤ stackSize) : (boot s stackBottom stackSize).Coherent 0 := by
  have hzero : (boot s stackBottom stackSize).sched.threads 0 =
      { state := .running, priority := 1, cr3 := s.kspaceCr3, kstack := stackBottom,
        kstackSize := stackSize } := by
    simp [boot, Sched.schedulerInit]
  have hother : ∀ i, i ≠ 0 → ((boot s stackBottom stackSize).sched.threads i).state = .unused := by
    intro i hi
    simp [boot, Sched.schedulerInit, Function.update_of_ne hi]
  have hcur : (boot s stackBottom stackSize).sched.threadCurrent 0 =
      (boot s stackBottom stackSize).sched.threads 0 := rfl
  refine Or.inr (Or.inl ⟨⟨⟨?_, fun i hi => ?_, fun i hi hne => ?_⟩, ?_, ?_⟩, ?_, ?_⟩)
  · rw [hzero]
    exact ⟨Or.inr rfl, rfl⟩
  · rcases eq_or_ne i 0 with rfl | hne
    · rw [hzero]
      exact ⟨hbottom, hsize⟩
    · exact absurd (hother i hne) hi.1
  · exact absurd (hother i hne) hi.1
  · rw [hcur, hzero]
    simp [Thread.Alive]
  · rw [hcur, hzero]
    simp [boot, Sched.schedulerInit]
  · rw [hcur, hzero]
    exact Or.inr rfl
  · rw [hcur, hzero]
    have hpos : 0 < stackSize := Nat.lt_of_lt_of_le (by decide) hsize
    exact ⟨le_rfl, Nat.lt_add_of_pos_right hpos⟩

/-- **A handler returns to the running thread, and that thread may run, exactly if it is not
`SYS_sleep` of a user thread.**  This holds of every return of `interrupt_dispatch`, as long as no
user thread has slept before. -/
theorem resumed_iff_no_userSleep (s : Sched) (stackBottom stackSize : ℕ) (hbottom : stackBottom ≠ 0)
    (hsize : frameSize ≤ stackSize) (es : List Event)
    (hes : Admissible (fun m e => m.Feasible 0 e ∧ ¬ m.UserSleeps 0 e) (step 0)
      (boot s stackBottom stackSize) es) (e : Event) (hret : Returns e)
    (hf : (run (step 0) (boot s stackBottom stackSize) es).Feasible 0 e) :
    (step 0 (run (step 0) (boot s stackBottom stackSize) es) e).Resumed 0 ↔
      ¬ (run (step 0) (boot s stackBottom stackSize) es).UserSleeps 0 e := by
  have hm : (run (step 0) (boot s stackBottom stackSize) es).Coherent 0 :=
    run_invariant (fun m e hm hok => (hm.step hok.1 hok.2).1) (coherent_boot s hbottom hsize) hes
  constructor
  · intro hres hs
    cases e with
    | trap f sp re => exact userSleeps_resumed hf hs hres
    | unwind | sleep | store | spawn | spawnKernel => exact hs
  · exact fun hs => (hm.step hf hs).2 hret

/-- The first program has been started and runs. -/
def firstProgram : List Event :=
  [.spawn (grant 0x5000 0x20000 0x30000),
    .trap { intNo := timerVector, cs := gdtSelKcode } 0x2f00 { nested := 0x2e00 }]

/-- It makes `SYS_sleep`. -/
def sleepCall (ms : ℕ) : Event :=
  .trap { intNo := syscallVector, rax := sysSleep, rdi := ms, cs := gdtSelUcode } 0
    { nested := 0x23000 }

/-- A user thread that sleeps for a second goes on at once, with the result 0 and SLEEPING. -/
theorem user_sleep_resumes_sleeper :
    (step 0 (run (step 0) (boot (smallSched 1) 0x2000 0x1000) firstProgram)
        (sleepCall 1000)).halted = false ∧
      (step 0 (run (step 0) (boot (smallSched 1) 0x2000 0x1000) firstProgram)
        (sleepCall 1000)).resumed = 0x23f50 ∧
      ((step 0 (run (step 0) (boot (smallSched 1) 0x2000 0x1000) firstProgram)
        (sleepCall 1000)).sched.threadCurrent 0).state = .sleeping ∧
      ((step 0 (run (step 0) (boot (smallSched 1) 0x2000 0x1000) firstProgram)
        (sleepCall 1000)).sched.threadCurrent 0).isUser = true ∧
      ((step 0 (run (step 0) (boot (smallSched 1) 0x2000 0x1000) firstProgram)
        (sleepCall 1000)).sched.threadCurrent 0).wakeupTick = 101 ∧
      (step 0 (run (step 0) (boot (smallSched 1) 0x2000 0x1000) firstProgram)
        (sleepCall 1000)).sched.ticks = 1 := by
  decide +kernel

/-- Up to there every return was to a thread that may run, as is the next tick's. -/
theorem resumed_iff_no_userSleep_first :
    Admissible (fun m e => m.Feasible 0 e ∧ ¬ m.UserSleeps 0 e) (step 0)
        (boot (smallSched 1) 0x2000 0x1000) firstProgram ∧
      (step 0 (run (step 0) (boot (smallSched 1) 0x2000 0x1000) firstProgram)
        (.trap { intNo := timerVector, cs := gdtSelUcode } 0 {})).Resumed 0 := by
  have hrun : Admissible (fun m e => m.Feasible 0 e ∧ ¬ m.UserSleeps 0 e) (step 0)
      (boot (smallSched 1) 0x2000 0x1000) firstProgram := by decide +kernel
  have htick : (run (step 0) (boot (smallSched 1) 0x2000 0x1000) firstProgram).Feasible 0
        (.trap { intNo := timerVector, cs := gdtSelUcode } 0 {}) ∧
      ¬ (run (step 0) (boot (smallSched 1) 0x2000 0x1000) firstProgram).UserSleeps 0
        (.trap { intNo := timerVector, cs := gdtSelUcode } 0 {}) := by decide +kernel
  exact ⟨hrun, (resumed_iff_no_userSleep (smallSched 1) 0x2000 0x1000 (by decide) (by decide)
    firstProgram hrun (.trap { intNo := timerVector, cs := gdtSelUcode } 0 {}) trivial
    htick.1).mpr htick.2⟩

end Machine

end MyOs
