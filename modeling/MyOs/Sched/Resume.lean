import MyOs.Sched.Sections

/-!
# The thread that a handler resumes

One CPU, with the whole of `interrupt_dispatch` as one step.  A handler returns the address of a
frame, and the CPU goes on with whatever was saved there; nothing but the bookkeeping of `do_switch`
says that this is the thread in `g_current`.

`Steady` is that bookkeeping between two handlers: every thread that waits for the CPU has its frame
on its own kernel stack, the bootstrap thread can always run, and the TSS points to the stack of the
running thread.  `Resumes` is what a handler has to establish, and every system call does, but for
`SYS_sleep` in a user thread.
-/

namespace MyOs

open Lib

/-- The thread may be executed. -/
def Thread.Runnable (t : Thread) : Prop := t.state = .ready ∨ t.state = .running

instance (t : Thread) (a : ℕ) : Decidable (t.OnStack a) := inferInstanceAs (Decidable (_ ∧ _))

variable {t : Thread} {j : Slot} {depth : ℕ} {re : Replies}

lemma Thread.Runnable.alive (h : t.Runnable) : t.Alive := by
  rcases h with h | h <;> simp [Thread.Alive, h]

/-- The thread has a kernel stack with room for a frame. -/
def Thread.HasStack (t : Thread) : Prop := t.kstack ≠ 0 ∧ frameSize ≤ t.kstackSize

lemma Thread.hasStack_eq {t' : Thread} (h : t'.identity = t.identity) : t'.HasStack ↔ t.HasStack := by
  rw [HasStack, HasStack, kstack_eq h, kstackSize_eq h]

lemma Thread.HasStack.top (h : t.HasStack) : t.OnStack (t.kstack + t.kstackSize - frameSize) := by
  have hsize := h.2
  simp only [OnStack, frameSize] at hsize ⊢
  omega

namespace Sched

variable {s s' : Sched} {cpu : Cpu} {i next : Slot} {frame fr : ℕ}

/-- What the threads keep while the running one is being replaced. -/
structure Parked (cpu : Cpu) (s : Sched) : Prop where
  boot : (s.threads 0).Runnable ∧ (s.threads 0).isUser = false
  stack : ∀ i, (s.threads i).Alive → (s.threads i).HasStack
  saved : ∀ i, (s.threads i).Alive → i ≠ s.current cpu → (s.threads i).OnStack (s.threads i).rsp

/-- What holds between two handlers. -/
structure Steady (cpu : Cpu) (s : Sched) : Prop extends Parked cpu s where
  alive : (s.threadCurrent cpu).Alive
  rsp0 : s.rsp0 cpu = (s.threadCurrent cpu).kstack + (s.threadCurrent cpu).kstackSize

/-- The frame `fr` belongs to the running thread, and that thread may run. -/
structure Resumes (cpu : Cpu) (fr : ℕ) (s : Sched) : Prop extends Steady cpu s where
  runnable : (s.threadCurrent cpu).Runnable
  onStack : (s.threadCurrent cpu).OnStack fr

/-! ## Changes of one thread -/

lemma Parked.of_same (h : Parked cpu s) (hs : s.SameThreads s') : Parked cpu s' := by
  obtain ⟨hboot, hstack, hsaved⟩ := h
  refine ⟨?_, ?_, ?_⟩ <;> simpa only [hs.threads, hs.current]

lemma Steady.of_same (h : Steady cpu s) (hs : s.SameThreads s') : Steady cpu s' := by
  refine ⟨h.toParked.of_same hs, ?_, ?_⟩
  · simpa only [threadCurrent, hs.threads, hs.current] using h.alive
  · simpa only [threadCurrent, hs.threads, hs.current, hs.rsp0] using h.rsp0

namespace Resumes

lemma of_same (h : Resumes cpu fr s) (hs : s.SameThreads s') : Resumes cpu fr s' := by
  refine ⟨h.toSteady.of_same hs, ?_, ?_⟩
  · simpa only [threadCurrent, hs.threads, hs.current] using h.runnable
  · simpa only [threadCurrent, hs.threads, hs.current] using h.onStack

lemma setRax (h : Resumes cpu fr s) (v : ℕ) : Resumes cpu fr (s.setRax frame v) :=
  h.of_same (setRax_same v)

lemma only_dead (h : Resumes cpu fr s) (ho : Only i s s') (hdead : ¬ (s.threads i).Alive)
    (hnew : (s'.threads i).Alive →
      (s'.threads i).HasStack ∧ (s'.threads i).OnStack (s'.threads i).rsp) :
    Resumes cpu fr s' := by
  have hsame : ∀ j, (s.threads j).Alive → (s.threads j).SameRun (s'.threads j) := fun j hj =>
    ho.threads j fun heq => hdead (heq ▸ hj)
  have halive : ∀ j, j ≠ i → (s'.threads j).Alive → (s.threads j).Alive := fun j hj => by
    rw [Thread.Alive, (ho.threads j hj).state]
    exact id
  have hcur := hsame _ h.alive
  have hboot := hsame 0 h.boot.1.alive
  refine ⟨⟨⟨⟨?_, ?_⟩, fun j hj => ?_, fun j hj hjc => ?_⟩, ?_, ?_⟩, ?_, ?_⟩
  · rw [Thread.Runnable, hboot.state]
    exact h.boot.1
  · rw [Thread.isUser_eq hboot.identity]
    exact h.boot.2
  · rcases eq_or_ne j i with rfl | hji
    · exact (hnew hj).1
    · rw [Thread.hasStack_eq (ho.threads j hji).identity]
      exact h.stack j (halive j hji hj)
  · rcases eq_or_ne j i with rfl | hji
    · exact (hnew hj).2
    · rw [Thread.onStack_eq (ho.threads j hji).identity, (ho.threads j hji).rsp]
      exact h.saved j (halive j hji hj) (by rwa [ho.current] at hjc)
  · rw [threadCurrent, ho.current, Thread.Alive, hcur.state]
    exact h.alive
  · rw [threadCurrent, ho.current, ho.rsp0, Thread.kstack_eq hcur.identity,
      Thread.kstackSize_eq hcur.identity]
    exact h.rsp0
  · rw [threadCurrent, ho.current, Thread.Runnable, hcur.state]
    exact h.runnable
  · rw [threadCurrent, ho.current, Thread.onStack_eq hcur.identity]
    exact h.onStack

end Resumes

lemma Steady.only_current (h : Steady cpu s) (ho : Only (s.current cpu) s s')
    (hkstack : (s'.threads (s.current cpu)).kstack = (s.threadCurrent cpu).kstack)
    (hsize : (s'.threads (s.current cpu)).kstackSize = (s.threadCurrent cpu).kstackSize)
    (halive : (s'.threads (s.current cpu)).Alive)
    (hboot : s.current cpu = 0 → (s'.threads 0).Runnable ∧ (s'.threads 0).isUser = false) :
    Steady cpu s' := by
  refine ⟨⟨?_, fun j hj => ?_, fun j hj hjc => ?_⟩, ?_, ?_⟩
  · rcases eq_or_ne (s.current cpu) 0 with hzero | hzero
    · exact hboot hzero
    · rw [Thread.Runnable, (ho.threads 0 hzero.symm).state,
        Thread.isUser_eq (ho.threads 0 hzero.symm).identity]
      exact h.boot
  · rcases eq_or_ne j (s.current cpu) with rfl | hjc
    · rw [Thread.HasStack, hkstack, hsize]
      exact h.stack _ h.alive
    · rw [Thread.hasStack_eq (ho.threads j hjc).identity]
      rw [Thread.Alive, (ho.threads j hjc).state] at hj
      exact h.stack j hj
  · rw [ho.current] at hjc
    rw [Thread.onStack_eq (ho.threads j hjc).identity, (ho.threads j hjc).rsp]
    rw [Thread.Alive, (ho.threads j hjc).state] at hj
    exact h.saved j hj hjc
  · rwa [threadCurrent, ho.current]
  · rw [threadCurrent, ho.current, ho.rsp0, hkstack, hsize]
    exact h.rsp0

namespace Resumes

lemma only_current (h : Resumes cpu fr s) (ho : Only (s.current cpu) s s')
    (hkstack : (s'.threads (s.current cpu)).kstack = (s.threadCurrent cpu).kstack)
    (hsize : (s'.threads (s.current cpu)).kstackSize = (s.threadCurrent cpu).kstackSize)
    (hstate : (s'.threads (s.current cpu)).state = (s.threadCurrent cpu).state)
    (huser : (s'.threads (s.current cpu)).isUser = (s.threadCurrent cpu).isUser) :
    Resumes cpu fr s' := by
  refine ⟨h.toSteady.only_current ho hkstack hsize ?_ fun hzero => ?_, ?_, ?_⟩
  · rw [Thread.Alive, hstate]
    exact h.alive
  · rw [hzero] at hstate huser
    rw [Thread.Runnable, hstate, huser, threadCurrent, hzero]
    exact h.boot
  · rw [threadCurrent, ho.current, Thread.Runnable, hstate]
    exact h.runnable
  · rw [threadCurrent, ho.current, Thread.OnStack, hkstack, hsize]
    exact h.onStack

lemma update_current (h : Resumes cpu fr s) {f : Thread → Thread}
    (hid : (f (s.threadCurrent cpu)).identity = (s.threadCurrent cpu).identity)
    (hstate : (f (s.threadCurrent cpu)).state = (s.threadCurrent cpu).state) :
    Resumes cpu fr (s.update (s.current cpu) f) := by
  have hthread : (s.update (s.current cpu) f).threads (s.current cpu) = f (s.threadCurrent cpu) := by
    simp [threadCurrent]
  refine h.only_current (.update _ f) ?_ ?_ ?_ ?_ <;> rw [hthread]
  · exact Thread.kstack_eq hid
  · exact Thread.kstackSize_eq hid
  · exact hstate
  · exact Thread.isUser_eq hid

end Resumes

/-! ## Ends, wake-ups and switches -/

lemma Marked.state_other (hm : Marked i s s') (hj : j ≠ i) :
    (s'.threads j).state = (s.threads j).state ∨
      (s.threads j).state = .blocked ∧ (s'.threads j).state = .ready := by
  by_cases hw : (s.threads i).parent = some j ∧ (s.threads j).Awaits (s.threads i).id
  · exact Or.inr ⟨hw.2.1, hm.woken j hj hw.1 hw.2⟩
  · exact Or.inl (hm.others j hj hw).1

lemma Marked.alive_of (hm : Marked i s s') (hj : (s'.threads j).Alive) :
    j ≠ i ∧ (s.threads j).Alive := by
  have hji : j ≠ i := by
    rintro rfl
    exact hj.2 hm.self
  refine ⟨hji, ?_⟩
  rcases hm.state_other hji with hstate | ⟨hblocked, _⟩
  · rwa [Thread.Alive, ← hstate]
  · simp [Thread.Alive, hblocked]

lemma Marked.runnable (hm : Marked i s s') (hji : j ≠ i) (hj : (s.threads j).Runnable) :
    (s'.threads j).Runnable := by
  rcases hm.state_other hji with hstate | ⟨_, hready⟩
  · rwa [Thread.Runnable, hstate]
  · exact Or.inl hready

lemma Parked.marked (h : Parked cpu s) (hm : Marked i s s') (hi : i ≠ 0) : Parked cpu s' := by
  refine ⟨⟨hm.runnable hi.symm h.boot.1, ?_⟩, fun j hj => ?_, fun j hj hjc => ?_⟩
  · rw [Thread.isUser_eq (hm.identity 0)]
    exact h.boot.2
  · rw [Thread.hasStack_eq (hm.identity j)]
    exact h.stack j (hm.alive_of hj).2
  · obtain ⟨hji, halive⟩ := hm.alive_of hj
    rw [Thread.onStack_eq (hm.identity j), hm.rsp j hji]
    exact h.saved j halive (by rwa [hm.current] at hjc)

lemma Resumes.marked (h : Resumes cpu fr s) (hm : Marked i s s') (hi : i ≠ 0)
    (hic : i ≠ s.current cpu) : Resumes cpu fr s' := by
  have hrun : (s'.threads (s.current cpu)).Runnable := hm.runnable hic.symm h.runnable
  refine ⟨⟨h.toParked.marked hm hi, ?_, ?_⟩, ?_, ?_⟩
  · rw [threadCurrent, hm.current]
    exact hrun.alive
  · rw [threadCurrent, hm.current, hm.rsp0, Thread.kstack_eq (hm.identity _),
      Thread.kstackSize_eq (hm.identity _)]
    exact h.rsp0
  · rwa [threadCurrent, hm.current]
  · rw [threadCurrent, hm.current, Thread.onStack_eq (hm.identity _)]
    exact h.onStack

lemma Steady.woken (h : Steady cpu s) (hw : s.Woken s') : Steady cpu s' := by
  have halive : ∀ j, (s'.threads j).Alive ↔ (s.threads j).Alive := fun j => by
    rcases hw.state j with hstate | ⟨hsleep, hready⟩
    · rw [Thread.Alive, hstate, Thread.Alive]
    · simp [Thread.Alive, hsleep, hready]
  refine ⟨⟨⟨?_, ?_⟩, fun j hj => ?_, fun j hj hjc => ?_⟩, ?_, ?_⟩
  · rcases hw.state 0 with hstate | ⟨_, hready⟩
    · rw [Thread.Runnable, hstate]
      exact h.boot.1
    · exact Or.inl hready
  · rw [Thread.isUser_eq (hw.identity 0)]
    exact h.boot.2
  · rw [Thread.hasStack_eq (hw.identity j)]
    exact h.stack j ((halive j).mp hj)
  · rw [Thread.onStack_eq (hw.identity j), hw.rsp j]
    exact h.saved j ((halive j).mp hj) (by rwa [hw.current] at hjc)
  · rw [threadCurrent, hw.current, halive]
    exact h.alive
  · rw [threadCurrent, hw.current, hw.rsp0, Thread.kstack_eq (hw.identity _),
      Thread.kstackSize_eq (hw.identity _)]
    exact h.rsp0

/-- `do_switch` leaves the old frame on the old stack and takes the new one from the new stack. -/
lemma Parked.switch (h : Parked cpu s) (hnext : (s.threads next).Alive)
    (hgo : next ≠ s.current cpu)
    (hframe : (s.threadCurrent cpu).Alive → (s.threadCurrent cpu).OnStack frame) :
    Resumes cpu (s.doSwitch cpu frame next).1 (s.doSwitch cpu frame next).2 := by
  have hrsp : (s.doSwitch cpu frame next).1 = (s.threads next).rsp := by simp [doSwitch, hgo]
  have hrsp0 : (s.doSwitch cpu frame next).2.rsp0 cpu =
      (s.threads next).kstack + (s.threads next).kstackSize := by
    simp [doSwitch, hgo, (h.stack next hnext).1]
  have hcur : (s.doSwitch cpu frame next).2.current cpu = next := by
    rw [doSwitch_current hgo, Function.update_self]
  have hnew := @doSwitch_next s cpu next frame hgo
  have hprev := @doSwitch_prev s cpu next frame hgo
  have hother := fun j => @doSwitch_other s cpu j next frame hgo
  generalize s.doSwitch cpu frame next = r at *
  refine ⟨⟨⟨?_, fun j hj => ?_, fun j hj hjc => ?_⟩, ?_, ?_⟩, ?_, ?_⟩
  · rcases eq_or_ne 0 next with rfl | hn
    · rw [hnew]
      exact ⟨Or.inr rfl, h.boot.2⟩
    · rcases eq_or_ne 0 (s.current cpu) with hc | hc
      · have hboot := h.boot
        rw [hc] at hboot ⊢
        rw [hprev]
        refine ⟨Or.inl ?_, hboot.2⟩
        rcases hboot.1 with hstate | hstate <;> simp [hstate]
      · rw [hother 0 hn hc]
        exact h.boot
  · rcases eq_or_ne j next with rfl | hn
    · rw [hnew]
      exact h.stack j hnext
    · rcases eq_or_ne j (s.current cpu) with rfl | hc
      · rw [hprev] at hj ⊢
        refine h.stack (s.current cpu) ?_
        rcases hstate : (s.threads (s.current cpu)).state <;> simp_all [Thread.Alive]
      · rw [hother j hn hc] at hj ⊢
        exact h.stack j hj
  · rw [hcur] at hjc
    rcases eq_or_ne j (s.current cpu) with rfl | hc
    · rw [hprev] at hj ⊢
      refine hframe ?_
      rcases hstate : (s.threads (s.current cpu)).state <;> simp_all [Thread.Alive, threadCurrent]
    · rw [hother j hjc hc] at hj ⊢
      exact h.saved j hj hc
  · simp [threadCurrent, hcur, hnew, Thread.Alive]
  · simp [threadCurrent, hcur, hnew, hrsp0]
  · rw [threadCurrent, hcur, hnew]
    exact Or.inr rfl
  · rw [threadCurrent, hcur, hnew, hrsp]
    exact h.saved next hnext hgo

/-- A tick or a yield resumes a thread that may run, also when the running one has gone to sleep or
waits. -/
lemma Steady.reschedule (h : Steady cpu s) (hframe : (s.threadCurrent cpu).OnStack frame)
    (ticks : ℕ) :
    Resumes cpu ({ s with ticks := ticks }.reschedule cpu frame).1
      ({ s with ticks := ticks }.reschedule cpu frame).2 := by
  have hw := wakeSleepers_woken s ticks
  rw [Sched.reschedule]
  generalize { s with ticks := ticks }.wakeSleepers = s0 at *
  have h0 := h.woken hw
  have hframe0 : (s0.threadCurrent cpu).OnStack frame := by
    rwa [threadCurrent, hw.current, Thread.onStack_eq (hw.identity _)]
  have hstay : s0.pickNext cpu = s0.current cpu → (s0.threadCurrent cpu).Runnable →
      Resumes cpu (s0.doSwitch cpu frame (s0.pickNext cpu)).1
        (s0.doSwitch cpu frame (s0.pickNext cpu)).2 := by
    intro heq hrun
    rw [doSwitch, if_pos heq]
    exact ⟨h0, hrun, hframe0⟩
  rcases pickNext_spec s0 cpu with ⟨hready, _⟩ | ⟨_, ⟨hcur, hgoes⟩ | ⟨hzero, hstuck⟩⟩
  · rcases eq_or_ne (s0.pickNext cpu) (s0.current cpu) with heq | hgo
    · exact hstay heq (Or.inl (by rwa [heq] at hready))
    · exact h0.switch (by simp [Thread.Alive, hready]) hgo fun _ => hframe0
  · exact hstay hcur hgoes.symm
  · rw [hzero]
    refine h0.switch h0.boot.1.alive (fun hc => hstuck ?_) fun _ => hframe0
    rw [threadCurrent, ← hc]
    exact h0.boot.1.symm

lemma Steady.yield (h : Steady cpu s) (hframe : (s.threadCurrent cpu).OnStack frame) :
    Resumes cpu (s.schedulerYield cpu frame).1 (s.schedulerYield cpu frame).2 :=
  h.reschedule hframe s.ticks

lemma schedulerYield_identity (i : Slot) :
    ((s.schedulerYield cpu frame).2.threads i).identity = (s.threads i).identity :=
  ((doSwitch_switched _ _ _ _).identity i).trans ((wakeSleepers_woken s s.ticks).identity i)

lemma Steady.exit {code : ℤ} (h : Steady cpu s) (hcur : s.current cpu ≠ 0)
    (hr : (s.schedulerOnExit cpu frame code).toOption = some (fr, s')) : Resumes cpu fr s' := by
  obtain ⟨s0, next, hm, hpick, hswitch⟩ := schedulerOnExit_cases (eq_ok hr)
  have h0 := h.toParked.marked hm hcur
  have hcur0 : s0.current cpu = s.current cpu := by rw [hm.current]
  have hended : ¬ (s0.threadCurrent cpu).Alive := fun halive => by
    rw [threadCurrent, hcur0] at halive
    exact halive.2 hm.self
  have hnext : next ≠ s0.current cpu ∧ (s0.threads next).Alive := by
    rw [hcur0]
    rcases hpick with ⟨rfl, hne⟩ | ⟨rfl, _, _⟩
    · refine ⟨hne, ?_⟩
      rcases pickNext_spec s0 cpu with ⟨hready, _⟩ | ⟨_, ⟨heq, _⟩ | ⟨hzero, _⟩⟩
      · simp [Thread.Alive, hready]
      · exact absurd (heq.trans hcur0) hne
      · rw [hzero]
        exact h0.boot.1.alive
    · exact ⟨hcur.symm, h0.boot.1.alive⟩
  have hres : Resumes cpu (s0.doSwitch cpu frame next).1 (s0.doSwitch cpu frame next).2 :=
    h0.switch hnext.2 hnext.1 fun halive => absurd halive hended
  rwa [hswitch] at hres

/-! ## System calls -/

namespace Resumes

lemma discarded (h : Resumes cpu fr s) (hd : Discarded i s s') : Resumes cpu fr s' :=
  h.only_dead hd.only (fun halive => halive.1 hd.free) fun halive => absurd hd.state halive.1

lemma spawned (h : Resumes cpu fr s) (hs : Spawned cpu i s s')
    (hsize : frameSize ≤ (s'.threads i).kstackSize) : Resumes cpu fr s' :=
  h.only_dead hs.only (fun halive => halive.1 hs.free) fun _ =>
    ⟨⟨hs.new.kstack, hsize⟩, hs.new.rsp hsize⟩

lemma fork (h : Resumes cpu fr s) (re : Replies) :
    Resumes cpu fr (s.schedulerFork cpu frame re) := by
  rcases schedulerFork_cases h.alive.1 frame re rfl with heq | ⟨_, i, ⟨hd, _⟩ | ⟨hs, hfork, _⟩⟩
  · rw [heq]
    exact h.setRax _
  · exact h.discarded hd
  · refine h.spawned hs ?_
    rw [hfork.kstackSize]
    exact (h.stack _ h.alive).2

lemma execve (h : Resumes cpu fr s) (re : Replies) : Resumes cpu fr (s.execve cpu frame re) := by
  rcases execve_cases re rfl with ⟨hs, _⟩ | ⟨_, _, l, _, ⟨hs, _⟩ | ⟨honly, hmove, _⟩⟩
  · exact h.of_same hs
  · exact h.of_same hs
  · exact h.only_current honly (congrArg Identity.kstack hmove.identity)
      (congrArg Identity.kstackSize hmove.identity) hmove.state
      (congrArg Identity.isUser hmove.identity)

lemma waitpid {pid : ℤ} {statusPtr : ℕ} (h : Resumes cpu frame s) (hcur : s.current cpu ≠ 0)
    (hr : s.schedulerWaitpid cpu frame pid statusPtr = some (fr, s')) : Resumes cpu fr s' := by
  obtain ⟨⟨b, s1⟩, hsection, heq⟩ := Option.map_eq_some_iff.mp hr
  rcases waitpidSection_cases hsection with ⟨rfl, z, _, _, hzombie, honly, hunused, _⟩ |
    ⟨rfl, rfl⟩ | ⟨rfl, _, rfl⟩
  · cases heq
    exact h.only_dead honly (fun halive => halive.2 hzombie) fun halive => absurd hunused halive.1
  · cases heq
    exact h.setRax _
  · have hblocked : Steady cpu (s.update (s.current cpu) fun t =>
        { t with waitTarget := pid, waitStatusPtr := statusPtr, state := .blocked }) :=
      h.toSteady.only_current (.update _ _) (by simp [threadCurrent]) (by simp [threadCurrent])
        (by simp [Thread.Alive]) fun hzero => absurd hzero hcur
    have hframe : ((s.update (s.current cpu) fun t =>
        { t with waitTarget := pid, waitStatusPtr := statusPtr, state := .blocked }).threadCurrent
          cpu).OnStack frame := by
      simpa [threadCurrent, Thread.OnStack] using h.onStack
    have hres := hblocked.yield hframe
    simp only [if_true] at heq
    rwa [heq] at hres

lemma kill (h : Resumes cpu frame s) (hcur : s.current cpu ≠ 0)
    (hr : s.kill cpu frame = some (fr, s')) : Resumes cpu fr s' := by
  rw [Sched.kill] at hr
  split at hr
  · exact h.toSteady.exit hcur hr
  · obtain ⟨⟨v, s1⟩, hkill, heq⟩ := Option.map_eq_some_iff.mp hr
    cases heq
    rcases schedulerKill_cases (eq_ok hkill) with rfl | ⟨i, _, _, huser, hne, hm⟩
    · exact h.setRax _
    · refine (h.marked hm ?_ hne).setRax _
      rintro rfl
      rw [h.boot.2] at huser
      cases huser

lemma openFile (h : Resumes cpu fr s) (re : Replies) :
    Resumes cpu fr (s.openFile cpu frame re) := by
  have hrec : ∀ cs, Resumes cpu fr (s.record cs) := fun cs => h.of_same ⟨rfl, rfl, rfl⟩
  rw [Sched.openFile]
  split
  · exact h.setRax _
  · split
    · exact (hrec _).setRax _
    · refine ((hrec _).update_current ?_ ?_).setRax _ <;> rfl

lemma closeFile (h : Resumes cpu fr s) (re : Replies) :
    Resumes cpu fr (s.closeFile cpu frame re) := by
  rw [Sched.closeFile]
  rcases vfsFdGet (s.threadCurrent cpu).openFiles (toInt (s.frames frame).rdi) with _ | ⟨i, file⟩
  · exact h.setRax _
  · have hrec : Resumes cpu fr (s.record [.closeFile file]) := h.of_same ⟨rfl, rfl, rfl⟩
    exact (hrec.update_current rfl rfl).setRax 0

end Resumes

lemma Steady.sleep (h : Steady cpu s) (hcur : s.current cpu ≠ 0) (ticks : ℕ) :
    Steady cpu (s.schedulerSleep cpu ticks) := by
  rw [schedulerSleep]
  exact h.only_current (.update _ _) (by simp [threadCurrent]) (by simp [threadCurrent])
    (by simp [Thread.Alive]) fun hzero => absurd hzero hcur

lemma syscallHandle_yield (huser : (s.threadCurrent cpu).isUser = false)
    (hfrom : (s.frames frame).fromUser = false) (hrax : (s.frames frame).rax = sysYield) :
    s.syscallHandle (depth + 1) cpu frame re = some (s.schedulerYield cpu frame) := by
  simp [syscallHandle, huser, hfrom, hrax]

lemma syscallHandle_denied (huser : (s.threadCurrent cpu).isUser = true)
    (hfrom : (s.frames frame).fromUser = false) :
    s.syscallHandle (depth + 1) cpu frame re = some (frame, s.setRax frame minusOne) := by
  simp [syscallHandle, huser, hfrom]

/-- The frame that `scheduler_sleep` pushes with its `int 0x80`. -/
def sleepFrame : Frame := { intNo := syscallVector, rax := sysYield, cs := gdtSelKcode }

/-- The thread has put itself to sleep and trapped again. -/
def asleep (s : Sched) (cpu : Cpu) (frame : ℕ) (re : Replies) : Sched :=
  (s.schedulerSleep cpu (sleepTicks (s.frames frame).rdi s.hz)).setFrame re.nested sleepFrame

lemma syscallHandle_sleep (hpriv : (s.frames frame).fromUser = (s.threadCurrent cpu).isUser)
    (hrax : (s.frames frame).rax = sysSleep) (hhz : s.hz ≠ 0) :
    s.syscallHandle (depth + 1) cpu frame re =
      ((s.asleep cpu frame re).syscallHandle depth cpu re.nested re).map fun r =>
        if r.2.current cpu = s.current cpu then (frame, r.2.setRax frame 0) else r := by
  rw [syscallHandle]
  simp only [hpriv, hrax, hhz, ne_eq, not_true_eq_false, if_false]
  rfl

lemma asleep_thread (s : Sched) (cpu : Cpu) (frame : ℕ) (re : Replies) :
    (s.asleep cpu frame re).current = s.current ∧
      ((s.asleep cpu frame re).threadCurrent cpu).identity = (s.threadCurrent cpu).identity ∧
      ((s.asleep cpu frame re).threadCurrent cpu).state = .sleeping := by
  refine ⟨rfl, ?_, ?_⟩ <;> simp [asleep, schedulerSleep, threadCurrent, Thread.identity]

lemma Resumes.sleep (h : Resumes cpu frame s) (hcur : s.current cpu ≠ 0)
    (huser : (s.threadCurrent cpu).isUser = false) (hnested : (s.threadCurrent cpu).OnStack re.nested)
    (hpriv : (s.frames frame).fromUser = (s.threadCurrent cpu).isUser)
    (hrax : (s.frames frame).rax = sysSleep) (hhz : s.hz ≠ 0)
    (hr : s.syscallHandle 2 cpu frame re = some (fr, s')) : Resumes cpu fr s' := by
  rw [syscallHandle_sleep hpriv hrax hhz] at hr
  have hsteady : Steady cpu (s.asleep cpu frame re) :=
    (h.toSteady.sleep hcur _).of_same ⟨rfl, rfl, rfl⟩
  have hframe : ((s.asleep cpu frame re).frames re.nested) = sleepFrame := by simp [asleep]
  obtain ⟨hcurrent, hid, _⟩ := asleep_thread s cpu frame re
  generalize s.asleep cpu frame re = s1 at *
  have hyield : s1.syscallHandle 1 cpu re.nested re = some (s1.schedulerYield cpu re.nested) := by
    refine syscallHandle_yield ?_ ?_ ?_
    · rw [Thread.isUser_eq hid, huser]
    · rw [hframe]
      decide
    · rw [hframe]
      rfl
  have hres : Resumes cpu (s1.schedulerYield cpu re.nested).1 (s1.schedulerYield cpu re.nested).2 :=
    hsteady.yield (by rwa [Thread.onStack_eq hid])
  have hsame := fun i => @schedulerYield_identity s1 cpu re.nested i
  rw [hyield, Option.map_some] at hr
  generalize s1.schedulerYield cpu re.nested = r at *
  split at hr
  · rename_i hback
    cases hr
    refine Resumes.setRax ⟨hres.toSteady, hres.runnable, ?_⟩ 0
    rw [threadCurrent, hback, Thread.onStack_eq (hsame _), ← hcurrent]
    exact (Thread.onStack_eq hid).mpr h.onStack
  · rwa [Option.some.inj hr] at hres

/-- **`syscall_handle` returns a frame of a thread that may run**, unless a user thread sleeps. -/
lemma Resumes.syscall (h : Resumes cpu frame s) (hcur : s.current cpu ≠ 0)
    (hnested : (s.threadCurrent cpu).isUser = false → (s.threadCurrent cpu).OnStack re.nested)
    (hsleep : (s.threadCurrent cpu).isUser = true → (s.frames frame).rax = sysSleep → s.hz = 0)
    (hr : s.syscallHandle 2 cpu frame re = some (fr, s')) : Resumes cpu fr s' := by
  by_cases hpriv : (s.frames frame).fromUser ≠ (s.threadCurrent cpu).isUser
  · rw [syscallHandle] at hr
    dsimp only at hr
    rw [if_pos hpriv] at hr
    cases hr
    exact h.setRax _
  by_cases hslp : (s.frames frame).rax = sysSleep ∧ s.hz ≠ 0
  · have huser : (s.threadCurrent cpu).isUser = false := by
      by_contra huser
      exact hslp.2 (hsleep (by simpa using huser) hslp.1)
    exact h.sleep hcur huser (hnested huser) (not_not.mp hpriv) hslp.1 hslp.2 hr
  rw [syscallHandle] at hr
  dsimp only at hr
  rw [if_neg hpriv] at hr
  rcases ite_eq_iff.mp hr with ⟨-, hr⟩ | ⟨-, hr⟩
  · cases hr
    exact h.fork re
  rcases ite_eq_iff.mp hr with ⟨-, hr⟩ | ⟨-, hr⟩
  · cases hr
    exact h.execve re
  rcases ite_eq_iff.mp hr with ⟨-, hr⟩ | ⟨-, hr⟩
  · exact h.waitpid hcur hr
  rcases ite_eq_iff.mp hr with ⟨-, hr⟩ | ⟨-, hr⟩
  · exact h.toSteady.exit hcur hr
  rcases ite_eq_iff.mp hr with ⟨-, hr⟩ | ⟨-, hr⟩
  · have hres := h.toSteady.yield h.onStack
    rwa [Option.some.inj hr] at hres
  rcases ite_eq_iff.mp hr with ⟨-, hr⟩ | ⟨-, hr⟩
  · exact h.kill hcur hr
  rcases ite_eq_iff.mp hr with ⟨-, hr⟩ | ⟨-, hr⟩
  · cases hr
    exact h.openFile re
  rcases ite_eq_iff.mp hr with ⟨-, hr⟩ | ⟨-, hr⟩
  · cases hr
    exact h.closeFile re
  rcases ite_eq_iff.mp hr with ⟨-, hr⟩ | ⟨-, hr⟩
  · split at hr
    · cases hr
      exact h.setRax _
    · cases hr
      exact (h.update_current rfl rfl).setRax _
  rcases ite_eq_iff.mp hr with ⟨hrax, hr⟩ | ⟨-, hr⟩
  · rw [if_pos (not_not.mp fun hhz => hslp ⟨hrax, hhz⟩)] at hr
    cases hr
    exact h.setRax _
  · cases hr
    exact h.setRax _

end Sched

end MyOs
