import MyOs.Sched.Sections

/-!
# No wake-up is lost

`scheduler_waitpid` blocks its caller after it has found a matching child that is no zombie, and
`thread_mark_zombie` wakes a parent that waits for the thread it marks.  The two tests are written
differently, and sections of other CPUs run in between.  Still, after sections that end, a BLOCKED thread
has a child left that will wake it (`Awaited`), whatever the order of the sections and whatever state the
threads are in when they start them.

But between marking the child and waking the parent `thread_mark_zombie` stores the status, through the
page tables of whoever runs.  If the parent's word is not mapped there the section stops, with the lock
held: the child has ended and the parent is BLOCKED for good (`blocked_threads_awaited_iff`).
-/

namespace MyOs

open Lib Function

namespace Sched

/-- Every BLOCKED thread has a child that it waits for and that has not ended. -/
def Awaited (s : Sched) : Prop :=
  ∀ p, (s.threads p).state = .blocked → ∃ c, (s.threads c).parent = some p ∧
    (s.threads c).Alive ∧
      ((s.threads p).waitTarget ≤ 0 ∨ (s.threads p).waitTarget = toInt (s.threads c).id)

variable {s s' : Sched} {cpu : Cpu} {i j next : Slot}

namespace Awaited

section

variable (h : s.Awaited)
include h

lemma mono
    (hblocked : ∀ p, (s'.threads p).state = .blocked →
      (s.threads p).state = .blocked ∧ (s'.threads p).waitTarget = (s.threads p).waitTarget)
    (halive : ∀ c, (s.threads c).Alive → (s'.threads c).Alive ∧
      (s'.threads c).parent = (s.threads c).parent ∧ (s'.threads c).id = (s.threads c).id) :
    s'.Awaited := by
  intro p hp
  obtain ⟨hp0, hwait⟩ := hblocked p hp
  obtain ⟨c, hparent, hc, hmatch⟩ := h p hp0
  obtain ⟨hc', hparent', hid⟩ := halive c hc
  refine ⟨c, hparent'.trans hparent, hc', ?_⟩
  rwa [hwait, hid]

lemma only (hothers : ∀ j, j ≠ i → (s.threads j).SameRun (s'.threads j))
    (hblocked : (s'.threads i).state ≠ .blocked) (hdead : ¬ (s.threads i).Alive) : s'.Awaited := by
  refine h.mono (fun p hp => ?_) (fun c hc => ?_)
  · have hsame := hothers p fun hpi => hblocked (hpi ▸ hp)
    exact ⟨hsame.state.symm.trans hp, hsame.waitTarget⟩
  · have hsame := hothers c fun hci => hdead (hci ▸ hc)
    refine ⟨?_, Thread.parent_eq hsame.identity, Thread.id_eq hsame.identity⟩
    rwa [Thread.Alive, hsame.state]

lemma same (hsame : s.SameThreads s') : s'.Awaited := by
  rw [Awaited, hsame.threads]
  exact h

lemma woken (hw : s.Woken s') : s'.Awaited := by
  refine h.mono (fun p hp => ⟨?_, hw.waitTarget p⟩) (fun c hc =>
    ⟨?_, Thread.parent_eq (hw.identity c), Thread.id_eq (hw.identity c)⟩)
  · rcases hw.state p with hstate | ⟨_, hready⟩
    · exact hstate.symm.trans hp
    · simp [hready] at hp
  · rcases hw.state c with hstate | ⟨_, hready⟩
    · rwa [Thread.Alive, hstate]
    · simp [Thread.Alive, hready]

lemma switched (hs : Switched cpu next s s') : s'.Awaited := by
  refine h.mono (fun p hp => ⟨?_, hs.waitTarget p⟩) (fun c hc =>
    ⟨?_, Thread.parent_eq (hs.identity c), Thread.id_eq (hs.identity c)⟩)
  · rw [hs.state p] at hp
    split_ifs at hp <;> exact hp
  · rw [Thread.Alive, hs.state c]
    split_ifs <;> first | exact hc | simp

/-- The thread that ends was awaited by nobody but its parent, and that is READY now. -/
lemma marked (hm : Marked i s s') : s'.Awaited := by
  intro p hp
  have hpi : p ≠ i := by
    rintro rfl
    simp [hm.self] at hp
  by_cases hwoken : (s.threads i).parent = some p ∧ (s.threads p).Awaits (s.threads i).id
  · simp [hm.woken p hpi hwoken.1 hwoken.2] at hp
  · obtain ⟨hstate, hwait⟩ := hm.others p hpi hwoken
    have hp0 := hstate.symm.trans hp
    obtain ⟨c, hparent, hc, hmatch⟩ := h p hp0
    have hci : c ≠ i := by
      rintro rfl
      exact hwoken ⟨hparent, hp0, hmatch⟩
    refine ⟨c, (Thread.parent_eq (hm.identity c)).trans hparent, ?_, ?_⟩
    · by_cases hcw : (s.threads i).parent = some c ∧ (s.threads c).Awaits (s.threads i).id
      · simp [Thread.Alive, hm.woken c hci hcw.1 hcw.2]
      · rwa [Thread.Alive, (hm.others c hci hcw).1]
    · rwa [hwait, Thread.id_eq (hm.identity c)]

lemma blocked {pid : ℤ} {statusPtr : ℕ} {c : Slot} (hchild : s.Child (s.current cpu) pid c)
    (halive : (s.threads c).state ≠ .zombie) : (s.update (s.current cpu) fun t =>
      { t with waitTarget := pid, waitStatusPtr := statusPtr, state := .blocked }).Awaited := by
  generalize hs' : s.update (s.current cpu) _ = s'
  have hcur : s'.threads (s.current cpu) = { s.threads (s.current cpu) with
      waitTarget := pid, waitStatusPtr := statusPtr, state := .blocked } := by simp [← hs']
  have hother : ∀ j, j ≠ s.current cpu → s'.threads j = s.threads j := fun j hj => by
    simp [← hs', update_of_ne hj]
  have hkept : ∀ k, (s.threads k).Alive → (s'.threads k).Alive ∧
      (s'.threads k).parent = (s.threads k).parent ∧ (s'.threads k).id = (s.threads k).id := by
    intro k hk
    rcases eq_or_ne k (s.current cpu) with rfl | hkc
    · rw [hcur]
      exact ⟨by simp [Thread.Alive], rfl, rfl⟩
    · rw [hother k hkc]
      exact ⟨hk, rfl, rfl⟩
  intro p hp
  rcases eq_or_ne p (s.current cpu) with rfl | hpc
  · obtain ⟨hc', hparent, hid⟩ := hkept c ⟨hchild.live, halive⟩
    refine ⟨c, hparent.trans hchild.parent, hc', ?_⟩
    rw [hcur, hid]
    -- `find_child` compares ids only for a positive pid
    by_cases hpid : pid > 0
    · exact Or.inr (hchild.pid hpid).symm
    · exact Or.inl (not_lt.mp hpid)
  · rw [hother p hpc] at hp ⊢
    obtain ⟨k, hparent, hk, hmatch⟩ := h p hp
    obtain ⟨hk', hparent', hid⟩ := hkept k hk
    refine ⟨k, hparent'.trans hparent, hk', ?_⟩
    rwa [hid]

lemma slept {ticks : ℕ} : (s.schedulerSleep cpu ticks).Awaited := by
  refine h.mono (fun p hp => ?_) (fun c hc => ?_)
  · rcases eq_or_ne p (s.current cpu) with rfl | hpc
    · simp [schedulerSleep] at hp
    · simpa [schedulerSleep, update_of_ne hpc] using hp
  · rcases eq_or_ne c (s.current cpu) with rfl | hcc
    · simp [schedulerSleep, Thread.Alive]
    · simpa [schedulerSleep, update_of_ne hcc] using hc

lemma moved {cr3 : ℕ} (honly : Only (s.current cpu) s s')
    (hmove : MovedTo cr3 (s.threadCurrent cpu) (s'.threads (s.current cpu))) : s'.Awaited := by
  have hfields : ∀ j, (s'.threads j).state = (s.threads j).state ∧
      (s'.threads j).waitTarget = (s.threads j).waitTarget ∧
      (s'.threads j).parent = (s.threads j).parent ∧ (s'.threads j).id = (s.threads j).id := by
    intro j
    rcases eq_or_ne j (s.current cpu) with rfl | hj
    · exact ⟨hmove.state, hmove.waitTarget, congrArg Identity.parent hmove.identity,
        congrArg Identity.id hmove.identity⟩
    · have hsame := honly.threads j hj
      exact ⟨hsame.state, hsame.waitTarget, Thread.parent_eq hsame.identity,
        Thread.id_eq hsame.identity⟩
  refine h.mono (fun p hp => ⟨(hfields p).1.symm.trans hp, (hfields p).2.1⟩)
    (fun c hc => ⟨?_, (hfields c).2.2⟩)
  rwa [Thread.Alive, (hfields c).1]

lemma effect {op : SchedOp} (heff : Effect cpu s s' op) : s'.Awaited := by
  cases heff with
  | quiet hsame => exact h.same hsame
  | switched _ s0 hwoken hswitch => exact (h.woken hwoken).switched hswitch
  | exited s0 next hmark _ hswitch => exact (h.marked hmark).switched hswitch
  | killed i _ _ _ _ hmark => exact h.marked hmark
  | reaped z _ _ hzombie honly hunused =>
    exact h.only honly.threads (by simp [hunused]) fun hz => hz.2 hzombie
  | blocked c hchild halive heq =>
    rw [heq]
    exact h.blocked hchild halive
  | slept heq =>
    rw [heq]
    exact h.slept
  | born i honly hfree hnew =>
    refine h.only honly.threads ?_ fun hi => hi.1 hfree
    rcases hnew with hnew | ⟨hnew, _⟩ <;> simp [hnew]
  | moved honly hmove => exact h.moved honly hmove
  | registered i hr => exact h.only hr.threads (by simp [hr.running]) fun hi => hi.1 hr.free

end

end Awaited

/-! ## Sections that stop -/

/-- The end of thread `i` on CPU `cpu` leaves nobody waiting in vain: a parent that waits for it has its
status word mapped where the thread ends, or it has another child that it waits for. -/
def EndsWell (s : Sched) (cpu : Cpu) (i : Slot) : Prop :=
  ∀ p, s.StatusFaults cpu i p → ∃ c, c ≠ i ∧ (s.threads c).parent = some p ∧ (s.threads c).Alive ∧
    ((s.threads p).waitTarget ≤ 0 ∨ (s.threads p).waitTarget = toInt (s.threads c).id)

lemma child_iff {p c : Slot} (hp : (s.threads p).SameRun (s'.threads p))
    (hc : (s.threads c).SameRun (s'.threads c)) :
    ((s'.threads c).parent = some p ∧ (s'.threads c).Alive ∧
      ((s'.threads p).waitTarget ≤ 0 ∨ (s'.threads p).waitTarget = toInt (s'.threads c).id)) ↔
    ((s.threads c).parent = some p ∧ (s.threads c).Alive ∧
      ((s.threads p).waitTarget ≤ 0 ∨ (s.threads p).waitTarget = toInt (s.threads c).id)) := by
  rw [Thread.parent_eq hc.identity, Thread.id_eq hc.identity, hp.waitTarget, Thread.Alive, Thread.Alive,
    hc.state]

lemma Awaited.stopped_iff (h : s.Awaited) {p : Slot} (hf : s.StatusFaults cpu i p)
    (hz : Zombified i s s') (hothers : ∀ j, j ≠ i → (s.threads j).SameRun (s'.threads j)) :
    s'.Awaited ↔ s.EndsWell cpu i := by
  constructor
  · intro hs' q hq
    obtain ⟨c, hchild⟩ := hs' q ((hothers q hq.1).state.trans hq.2.2.1.1)
    have hci : c ≠ i := by
      rintro rfl
      exact hchild.2.1.2 hz.self
    exact ⟨c, hci, (child_iff (hothers q hq.1) (hothers c hci)).mp hchild⟩
  · intro hwell q hq
    have hqi : q ≠ i := by
      rintro rfl
      simp [hz.self] at hq
    have hchild := fun {c} (hci : c ≠ i) => (child_iff (hothers q hqi) (hothers c hci)).mpr
    rcases eq_or_ne q p with rfl | hqp
    · obtain ⟨c, hci, hc⟩ := hwell q hf
      exact ⟨c, hchild hci hc⟩
    · obtain ⟨c, hc⟩ := h q ((hothers q hqi).state.symm.trans hq)
      refine ⟨c, hchild ?_ hc⟩
      rintro rfl
      exact hqp (Option.some.inj (hc.1.symm.trans hf.2.1))

lemma statusFaults_update {frame : ℕ} {p : Slot} :
    (s.update i fun t => { t with rsp := frame }).StatusFaults cpu i p ↔ s.StatusFaults cpu i p := by
  refine and_congr_right fun hp => ?_
  simp [update_of_ne hp]

lemma endsWell_update {frame : ℕ} :
    (s.update i fun t => { t with rsp := frame }).EndsWell cpu i ↔ s.EndsWell cpu i := by
  refine forall_congr' fun p => ?_
  rw [statusFaults_update]
  refine imp_congr_right fun hf => exists_congr fun c => and_congr_right fun hc => ?_
  simp [update_of_ne hc, update_of_ne hf.1]

/-- The tables, and whether a section has stopped with the lock held. -/
structure LockRun where
  sched : Sched
  stopped : Bool

/-- One step of an interleaving.  After a section that has stopped no other one gets the lock. -/
def LockRun.step (r : LockRun) (e : Cpu × SchedOp) : LockRun :=
  if r.stopped then r
  else
    match r.sched.outcome e.1 e.2 with
    | .ok s => ⟨s, false⟩
    | .error s => ⟨s, true⟩

/-- The thread that a section ends. -/
def ends (s : Sched) (cpu : Cpu) : SchedOp → Option Slot
  | .exit _ _ => some (s.current cpu)
  | .kill pid _ => (s.findThreadById pid).filter fun i =>
      (s.threads i).isUser ∧ i ≠ s.current cpu ∧ (s.threads i).state ≠ .zombie
  | _ => none

/-- If the section ends a thread, that leaves nobody waiting in vain. -/
def LockRun.EndsWell (r : LockRun) (e : Cpu × SchedOp) : Prop :=
  r.stopped = false → ∀ i, r.sched.ends e.1 e.2 = some i → r.sched.EndsWell e.1 i

lemma outcome_kill (s : Sched) (cpu : Cpu) (pid sig : ℤ) : s.outcome cpu (.kill pid sig) =
    match s.ends cpu (.kill pid sig) with
    | none => .ok s
    | some i => s.threadMarkZombie cpu i (Int.bmod (-sig) (2 ^ 32)) := by
  rw [outcome, schedulerKill, ends]
  rcases s.findThreadById pid with _ | i
  · rfl
  · simp only [Option.filter]
    generalize Int.bmod (-sig) (2 ^ 32) = code
    cases hmark : s.threadMarkZombie cpu i code <;> split_ifs <;> simp_all [Except.map]

/-- The state that marking a thread leaves behind. -/
lemma Awaited.mark_iff (h : s.Awaited) (cpu : Cpu) (i : Slot) (code : ℤ) :
    (∃ s', s.threadMarkZombie cpu i code = .ok s' ∧ s'.Awaited ∧ s.EndsWell cpu i) ∨
      ∃ s', s.threadMarkZombie cpu i code = .error s' ∧ (s'.Awaited ↔ s.EndsWell cpu i) := by
  rcases threadMarkZombie_cases s cpu i code with ⟨s', heq, hmark, hnot⟩ | ⟨s', p, heq, hf, hz, hothers⟩
  · exact Or.inl ⟨s', heq, h.marked hmark, fun p hp => absurd hp (hnot p)⟩
  · exact Or.inr ⟨s', heq, h.stopped_iff hf hz hothers⟩

lemma LockRun.awaited_step_iff {r : LockRun} (h : r.sched.Awaited) (e : Cpu × SchedOp) :
    (r.step e).sched.Awaited ↔ r.EndsWell e := by
  obtain ⟨s, stopped⟩ := r
  obtain ⟨cpu, op⟩ := e
  cases stopped with
  | true => exact iff_of_true h fun hrun => by cases hrun
  | false =>
    have hends : ∀ s', s.outcome cpu op = .ok s' → s'.Awaited := fun s' heq =>
      h.effect (exec_effect (by rw [exec, heq]; rfl))
    rw [LockRun.step, LockRun.EndsWell, if_neg (by simp)]
    simp only [forall_const]
    cases op with
    | exit frame code =>
      have hs1 : (s.update (s.current cpu) fun t => { t with rsp := frame }).Awaited := by
        refine h.mono (fun p hp => ?_) (fun c hc => ?_)
        · rcases eq_or_ne p (s.current cpu) with rfl | hp0
          · simpa using hp
          · simpa [update_of_ne hp0] using hp
        · rcases eq_or_ne c (s.current cpu) with rfl | hc0
          · simpa [Thread.Alive] using hc
          · simpa [update_of_ne hc0] using hc
      simp only [ends, Option.some.injEq, forall_eq']
      rcases hs1.mark_iff cpu (s.current cpu) code with ⟨s', heq, hs', hwell⟩ | ⟨s', heq, hiff⟩
      · refine iff_of_true ?_ (endsWell_update.mp hwell)
        -- nobody is left to run, and the section halts
        rcases hx : s.outcome cpu (.exit frame code) with s2 | s2
        · rw [outcome, schedulerOnExit, heq] at hx
          dsimp only [Except.bind] at hx
          split_ifs at hx
          all_goals cases hx
          exact hs'
        · exact hends s2 hx
      · rw [endsWell_update] at hiff
        have hx : s.outcome cpu (.exit frame code) = .error s' := by
          rw [outcome, schedulerOnExit, heq]
          rfl
        rw [hx]
        exact hiff
    | kill pid sig =>
      rw [outcome_kill]
      rcases hi : s.ends cpu (.kill pid sig) with _ | i
      · exact iff_of_true h (by simp)
      · simp only [Option.some.injEq, forall_eq']
        rcases h.mark_iff cpu i (Int.bmod (-sig) (2 ^ 32)) with ⟨s', heq, hs', hwell⟩ | ⟨s', heq, hiff⟩
        · rw [heq]
          exact iff_of_true hs' hwell
        · rw [heq]
          exact hiff
    | waitpid frame pid statusPtr =>
      refine iff_of_true ?_ (by simp [ends])
      rcases hx : s.outcome cpu (.waitpid frame pid statusPtr) with s2 | s2
      · rw [outcome] at hx
        split at hx
        · cases hx
          exact h
        · cases hx
      · exact hends s2 hx
    | _ => exact iff_of_true (hends _ rfl) (by simp [ends])

/-- **No wake-up is lost but by a status that cannot be stored.**  From the start of the scheduler on, for
any interleaving of sections on any CPUs: throughout the run every BLOCKED thread has a child that matches
its wait and has not ended, if and only if no thread ends whose parent waits for it, with a status word that
is not mapped where the thread ends and for no other child. -/
theorem blocked_threads_awaited_iff (s : Sched) (stackBottom stackSize : ℕ)
    (es : List (Cpu × SchedOp)) :
    (∀ pre, pre <+: es →
      (run LockRun.step ⟨s.schedulerInit stackBottom stackSize, false⟩ pre).sched.Awaited) ↔
      Admissible LockRun.EndsWell LockRun.step ⟨s.schedulerInit stackBottom stackSize, false⟩ es := by
  have hinit : (s.schedulerInit stackBottom stackSize).Awaited := by
    intro q hq
    rcases eq_or_ne q 0 with rfl | hq0
    · simp [schedulerInit] at hq
    · simp [schedulerInit, update_of_ne hq0] at hq
  have hall : Admissible (fun _ _ => True) LockRun.step ⟨s.schedulerInit stackBottom stackSize, false⟩ es :=
    admissible_of_forall fun _ _ => trivial
  exact forall_prefix_iff_admissible (I := fun r : LockRun => r.sched.Awaited) (J := fun _ => True)
    (fun _ _ _ _ => trivial) (fun r e _ _ h => r.awaited_step_iff h e) trivial hinit hall

/-- Thread 1 forks thread 2 and waits for it, with a status word that is mapped in its space.  Thread 2 has
a space of its own when it exits, in which that address is not mapped. -/
def statusUnmapped : List (Cpu × SchedOp) :=
  [(0, .spawn { grant 0x5000 0x10000 0x20000 with pages := fun _ => true }), (0, .tick 0x2f00),
    (0, .fork 0x13f50 (grant 0 0x14000 0)), (0, .waitpid 0x13f50 (-1) 0x8000500000),
    (0, .yield 0x13f50), (0, .tick 0x2f00), (0, .execve 0x17f50 (grant 0x6000 0 0x30000)),
    (0, .exit 0x17f50 7)]

/-- **A lost wake-up.**  The section of the exit stops with the lock held.  Thread 2 has ended, and thread 1
is BLOCKED, has no other child, and would have had its status. -/
theorem exit_strands_parent :
    let r := run LockRun.step ⟨(smallSched 1).schedulerInit 0x2000 0x1000, false⟩ statusUnmapped
    r.stopped = true ∧ (r.sched.threads 1).state = .blocked ∧ (r.sched.threads 2).state = .zombie ∧
      (∀ c, (r.sched.threads c).parent = some 1 → c = 2) ∧
      (r.sched.threads 1).waitStatusPtr = 0x8000500000 ∧
      ∀ k < 4, r.sched.mapped (r.sched.threads 1).cr3 (0x8000500000 + k) = true := by
  decide +kernel

end Sched

end MyOs
