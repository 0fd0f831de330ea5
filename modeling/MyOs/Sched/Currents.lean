import MyOs.Sched.Accounts

/-!
# Which thread a CPU runs

Each CPU runs threads of its own (`cpu_id`), among them its bootstrap thread, which only idles.  So
`pick_next` always finds one of them and never falls back on slot 0, and no two CPUs run the same
thread.  What can go wrong is `scheduler_kill`: it marks a thread that another CPU is running, and
that CPU goes on running a zombie, whose slot its parent may free.

`Apart` is what holds as long as no thread is killed while another CPU runs it.
-/

namespace MyOs

open Lib Function

namespace Sched

variable {s s' : Sched} {cpu c c' : Cpu} {i j b next : Slot} {op : SchedOp}

/-- The CPU has its bootstrap thread: the first one from the start, the others once they have
registered. -/
def Up (s : Sched) (c : Cpu) : Prop := c = 0 ∨ s.current c ≠ 0

instance (s : Sched) (c : Cpu) : Decidable (s.Up c) := inferInstanceAs (Decidable (_ ∨ _))

/-- `b` is the bootstrap thread of CPU `c`, which runs it or can. -/
structure Idles (s : Sched) (c : Cpu) (b : Slot) : Prop where
  parent : (s.threads b).parent = none
  isUser : (s.threads b).isUser = false
  cpuId : (s.threads b).cpuId = c
  state : (s.threads b).state = .ready ∨ (s.threads b).state = .running ∧ s.current c = b

/-- Every CPU runs a thread of its own, and has a bootstrap thread. -/
structure Placed (s : Sched) : Prop where
  cpuId : ∀ c, s.Up c → (s.threadCurrent c).cpuId = c
  idle : ∀ c, s.Up c → ∃ b, s.Idles c b
  boot : (s.threads 0).Live ∧ (s.threads 0).parent = none ∧ (s.threads 0).cpuId = 0

/-- In addition, no CPU runs a thread that has ended. -/
structure Apart (s : Sched) : Prop extends Placed s where
  alive : ∀ c, s.Up c → (s.threadCurrent c).Alive

/-! ## Switching -/

lemma Idles.switched (hb : s.Idles c b) (hs : Switched cpu next s s')
    (hstate : (s'.threads b).state = .ready ∨
      (s'.threads b).state = .running ∧ s'.current c = b) : s'.Idles c b :=
  ⟨(Thread.parent_eq (hs.identity b)).trans hb.parent,
    (Thread.isUser_eq (hs.identity b)).trans hb.isUser,
    (Thread.cpuId_eq (hs.identity b)).trans hb.cpuId, hstate⟩

/-- A bootstrap thread that its CPU leaves is READY, and one that it takes up runs. -/
lemma Idles.switched_self (hb : s.Idles cpu b) (hs : Switched cpu next s s') : s'.Idles cpu b := by
  refine hb.switched hs ?_
  rw [hs.state b, hs.current, update_self]
  by_cases hstay : next = s.current cpu
  · rw [if_pos hstay, hstay]
    exact hb.state
  · rw [if_neg hstay]
    by_cases hbn : b = next
    · rw [if_pos hbn]
      exact Or.inr ⟨rfl, hbn.symm⟩
    · rw [if_neg hbn]
      rcases hb.state with hready | ⟨hrun, hcur⟩
      · simp [hready]
      · simp [hrun, hcur]

lemma Idles.switched_other (hb : s.Idles c b) (hc : c ≠ cpu) (hbn : b ≠ next)
    (hbc : b ≠ s.current cpu) (hs : Switched cpu next s s') : s'.Idles c b := by
  refine hb.switched hs ?_
  have hstate : (s'.threads b).state = (s.threads b).state := by
    rw [hs.state b]
    simp [hbn, hbc]
  rw [hstate, hs.current, update_of_ne hc]
  exact hb.state

namespace Placed

lemma pick (h : s.Placed) (hup : s.Up cpu) :
    (s.threads (s.pickNext cpu)).cpuId = cpu ∧ ((s.threads (s.pickNext cpu)).state = .ready ∨
      s.pickNext cpu = s.current cpu ∧ (s.threadCurrent cpu).Alive) := by
  rcases pickNext_spec s cpu with hready | ⟨hnone, ⟨hcur, hgoes⟩ | ⟨_, hstuck⟩⟩
  · exact ⟨hready.2, Or.inl hready.1⟩
  · refine ⟨by rw [hcur]; exact h.cpuId cpu hup, Or.inr ⟨hcur, ?_⟩⟩
    rcases hgoes with hgoes | hgoes <;> simp [Thread.Alive, hgoes]
  · obtain ⟨b, hb⟩ := h.idle cpu hup
    rcases hb.state with hready | ⟨hrun, hcur⟩
    · exact absurd ⟨hready, hb.cpuId⟩ (hnone b)
    · exact absurd (Or.inl (by rw [threadCurrent, hcur]; exact hrun)) hstuck

lemma up_of_switched (hup : s.Up cpu) (hs : Switched cpu next s s') (hc : s'.Up c) : s.Up c := by
  rcases eq_or_ne c cpu with rfl | hne
  · exact hup
  · rwa [Up, hs.current, update_of_ne hne] at hc

lemma switched (h : s.Placed) (hup : s.Up cpu) (hnext : (s.threads next).cpuId = cpu)
    (hs : Switched cpu next s s') : s'.Placed := by
  refine ⟨fun c hc => ?_, fun c hc => ?_, ?_⟩
  · have hup' := up_of_switched hup hs hc
    rw [threadCurrent, Thread.cpuId_eq (hs.identity _), hs.current]
    rcases eq_or_ne c cpu with rfl | hne
    · rwa [update_self]
    · rw [update_of_ne hne]
      exact h.cpuId c hup'
  · obtain ⟨b, hb⟩ := h.idle c (up_of_switched hup hs hc)
    rcases eq_or_ne c cpu with rfl | hne
    · exact ⟨b, hb.switched_self hs⟩
    · -- the threads that the switch is about belong to another CPU
      have hapart : ∀ i, (s.threads i).cpuId = cpu → b ≠ i := by
        rintro i hi rfl
        exact hne (Fin.ext (hb.cpuId.symm.trans hi))
      exact ⟨b, hb.switched_other hne (hapart _ hnext) (hapart _ (h.cpuId cpu hup)) hs⟩
  · obtain ⟨hlive, hparent, hcpu⟩ := h.boot
    refine ⟨?_, (Thread.parent_eq (hs.identity 0)).trans hparent,
      (Thread.cpuId_eq (hs.identity 0)).trans hcpu⟩
    rw [Thread.Live, hs.state 0]
    split_ifs <;> first | exact hlive | simp

lemma distinct (h : s.Placed) (hc : s.Up c) (hc' : s.Up c') (heq : s.current c = s.current c') :
    c = c' := by
  have hcpu := h.cpuId c hc
  rw [threadCurrent, heq] at hcpu
  exact Fin.ext (hcpu.symm.trans (h.cpuId c' hc'))

lemma marked (h : s.Placed) (hm : Marked i s s') (hlive : (s.threads i).Live)
    (hidle : ∀ c b, s.Idles c b → b ≠ i) : s'.Placed := by
  have hup : ∀ {c}, s'.Up c ↔ s.Up c := by simp [Up, hm.current]
  refine ⟨fun c hc => ?_, fun c hc => ?_, (hm.live hlive 0).mpr h.boot.1,
    (Thread.parent_eq (hm.identity 0)).trans h.boot.2.1,
    (Thread.cpuId_eq (hm.identity 0)).trans h.boot.2.2⟩
  · rw [threadCurrent, hm.current, Thread.cpuId_eq (hm.identity _)]
    exact h.cpuId c (hup.mp hc)
  · obtain ⟨b, hb⟩ := h.idle c (hup.mp hc)
    refine ⟨b, (Thread.parent_eq (hm.identity b)).trans hb.parent,
      (Thread.isUser_eq (hm.identity b)).trans hb.isUser,
      (Thread.cpuId_eq (hm.identity b)).trans hb.cpuId, ?_⟩
    have hstate := (hm.others b (hidle c b hb) fun hw => by
      rcases hb.state with hb | ⟨hb, _⟩ <;> simp [hw.2.1] at hb).1
    rw [hstate, hm.current]
    exact hb.state

end Placed

lemma Marked.alive (hm : Marked i s s') (hj : j ≠ i) (halive : (s.threads j).Alive) :
    (s'.threads j).Alive := by
  by_cases hw : (s.threads i).parent = some j ∧ (s.threads j).Awaits (s.threads i).id
  · simp [Thread.Alive, hm.woken j hj hw.1 hw.2]
  · rwa [Thread.Alive, (hm.others j hj hw).1]

namespace Apart

lemma switched (h : s.Placed) (hothers : ∀ c, s.Up c → c ≠ cpu → (s.threadCurrent c).Alive)
    (hup : s.Up cpu) (hnext : (s.threads next).cpuId = cpu)
    (hstay : next = s.current cpu → (s.threadCurrent cpu).Alive) (hs : Switched cpu next s s') :
    s'.Apart := by
  refine ⟨h.switched hup hnext hs, fun c hc => ?_⟩
  rcases eq_or_ne c cpu with rfl | hne
  · exact hs.alive hstay
  · have halive := hothers c (Placed.up_of_switched hup hs hc) hne
    rw [threadCurrent, hs.current, update_of_ne hne, Thread.Alive, hs.state]
    split_ifs <;> first | exact halive | simp

/-- Nothing changes for the threads that matter: those that run and the bootstrap threads. -/
lemma mono (h : s.Apart) (hcurrent : s'.current = s.current)
    (hid : ∀ i, (s.threads i).Alive ∨ i = 0 → (s'.threads i).parent = (s.threads i).parent ∧
      (s'.threads i).isUser = (s.threads i).isUser ∧ (s'.threads i).cpuId = (s.threads i).cpuId)
    (halive : ∀ c, s.Up c → (s'.threads (s.current c)).Alive)
    (hidle : ∀ c b, s.Idles c b → (s'.threads b).state = (s.threads b).state)
    (hboot : (s'.threads 0).Live) : s'.Apart := by
  have hup : ∀ {c}, s'.Up c ↔ s.Up c := by simp [Up, hcurrent]
  refine ⟨⟨fun c hc => ?_, fun c hc => ?_, hboot, ?_, ?_⟩, fun c hc => ?_⟩
  · rw [threadCurrent, hcurrent, (hid _ (Or.inl (h.alive c (hup.mp hc)))).2.2]
    exact h.cpuId c (hup.mp hc)
  · obtain ⟨b, hb⟩ := h.idle c (hup.mp hc)
    have hbalive : (s.threads b).Alive := by
      rcases hb.state with hb | ⟨hb, _⟩ <;> simp [Thread.Alive, hb]
    obtain ⟨hparent, huser, hcpu⟩ := hid b (Or.inl hbalive)
    refine ⟨b, hparent.trans hb.parent, huser.trans hb.isUser, hcpu.trans hb.cpuId, ?_⟩
    rw [hidle c b hb, hcurrent]
    exact hb.state
  · exact (hid 0 (Or.inr rfl)).1.trans h.boot.2.1
  · exact (hid 0 (Or.inr rfl)).2.2.trans h.boot.2.2
  · rw [threadCurrent, hcurrent]
    exact halive c (hup.mp hc)

lemma woken (h : s.Apart) (hw : s.Woken s') : s'.Apart := by
  have hstate : ∀ i, (s.threads i).state ≠ .sleeping → (s'.threads i).state = (s.threads i).state :=
    fun i hi => (hw.state i).resolve_right fun hs => hi hs.1
  refine h.mono hw.current (fun i _ => ⟨Thread.parent_eq (hw.identity i),
    Thread.isUser_eq (hw.identity i), Thread.cpuId_eq (hw.identity i)⟩) (fun c hc => ?_)
    (fun c b hb => hstate b ?_) ?_
  · rcases hw.state (s.current c) with hsame | ⟨_, hready⟩
    · rw [Thread.Alive, hsame]
      exact h.alive c hc
    · simp [Thread.Alive, hready]
  · rcases hb.state with hb | ⟨hb, _⟩ <;> simp [hb]
  · exact hw.keeps.live.mpr h.boot.1

lemma only (h : s.Apart) (honly : Only i s s') (hdead : ¬ (s.threads i).Alive) (hi : i ≠ 0) :
    s'.Apart := by
  have hsame : ∀ {j}, (s.threads j).Alive ∨ j = 0 → (s.threads j).SameRun (s'.threads j) := by
    rintro j hj
    refine honly.threads j ?_
    rintro rfl
    exact hj.elim hdead hi
  refine h.mono honly.current (fun j hj => ?_) (fun c hc => ?_) (fun c b hb => ?_) ?_
  · have hid := (hsame hj).identity
    exact ⟨Thread.parent_eq hid, Thread.isUser_eq hid, Thread.cpuId_eq hid⟩
  · rw [Thread.Alive, (hsame (Or.inl (h.alive c hc))).state]
    exact h.alive c hc
  · refine (hsame (Or.inl ?_)).state
    rcases hb.state with hb | ⟨hb, _⟩ <;> simp [Thread.Alive, hb]
  · rw [Thread.Live, (hsame (Or.inr rfl)).state]
    exact h.boot.1

/-- The running thread, no bootstrap thread, is put in another state or another space. -/
lemma running (h : s.Apart) (honly : Only (s.current cpu) s s')
    (hid : (s'.threads (s.current cpu)).parent = (s.threadCurrent cpu).parent ∧
      (s'.threads (s.current cpu)).isUser = (s.threadCurrent cpu).isUser ∧
      (s'.threads (s.current cpu)).cpuId = (s.threadCurrent cpu).cpuId)
    (halive : (s'.threads (s.current cpu)).Alive)
    (hstate : (s.threadCurrent cpu).parent = none →
      (s'.threads (s.current cpu)).state = (s.threadCurrent cpu).state) : s'.Apart := by
  refine h.mono honly.current (fun i _ => ?_) (fun c hc => ?_) (fun c b hb => ?_) ?_
  · rcases eq_or_ne i (s.current cpu) with rfl | hi
    · exact hid
    · have hsame := (honly.threads i hi).identity
      exact ⟨Thread.parent_eq hsame, Thread.isUser_eq hsame, Thread.cpuId_eq hsame⟩
  · rcases eq_or_ne (s.current c) (s.current cpu) with heq | hne
    · rwa [heq]
    · rw [Thread.Alive, (honly.threads _ hne).state]
      exact h.alive c hc
  · rcases eq_or_ne b (s.current cpu) with rfl | hne
    · exact hstate hb.parent
    · exact (honly.threads b hne).state
  · rcases eq_or_ne 0 (s.current cpu) with heq | hne
    · rw [heq]
      exact halive.1
    · rw [Thread.Live, (honly.threads 0 hne).state]
      exact h.boot.1

lemma killed (h : s.Apart) (hm : Marked i s s') (hi : (s.threads i).Alive)
    (huser : (s.threads i).isUser = true) (hidle : ∀ c, s.Up c → s.current c ≠ i) : s'.Apart := by
  have hplaced := h.toPlaced.marked hm hi.1 fun c b hb => by
    rintro rfl
    simp [hb.isUser] at huser
  refine ⟨hplaced, fun c hc => ?_⟩
  have hc : s.Up c := by rwa [Up, hm.current] at hc
  rw [threadCurrent, hm.current]
  exact hm.alive (hidle c hc) (h.alive c hc)

section

variable {s₀ : Sched} (h : s.Apart) (hup : s.Up cpu) (hparent : (s.threadCurrent cpu).parent ≠ none)
  (hm : Marked (s.current cpu) s s₀)
  (hpick : next = s₀.pickNext cpu ∧ next ≠ s.current cpu ∨
    next = 0 ∧ s₀.pickNext cpu = s.current cpu ∧ (s₀.threads 0).state ≠ .zombie)
include h hup hparent hm

lemma placed_of_exit : s₀.Placed := by
  refine h.toPlaced.marked hm (h.alive cpu hup).1 fun c b hb => ?_
  rintro rfl
  exact hparent hb.parent

include hpick

/-- The CPU of a thread that ends goes over to a READY thread, for its bootstrap thread is one. -/
lemma exit_next : (s₀.threads next).cpuId = cpu ∧ (s₀.threads next).state = .ready ∧
    next ≠ s.current cpu := by
  have hplaced := h.placed_of_exit hup hparent hm
  have hup0 : s₀.Up cpu := by rwa [Up, hm.current]
  obtain ⟨hcpu, hstate⟩ := hplaced.pick hup0
  -- a zombie is not picked
  have hready := hstate.resolve_right fun ⟨_, halive⟩ => by
    rw [threadCurrent, hm.current] at halive
    exact halive.2 hm.self
  have hne : s₀.pickNext cpu ≠ s.current cpu := by
    intro heq
    rw [heq, hm.self] at hready
    cases hready
  obtain ⟨rfl, _⟩ := hpick.resolve_right fun hboot => hne hboot.2.1
  exact ⟨hcpu, hready, hne⟩

lemma exited (hs : Switched cpu next s₀ s') : s'.Apart := by
  obtain ⟨hcpu, _, hne⟩ := h.exit_next hup hparent hm hpick
  have hup0 : ∀ {c}, s₀.Up c ↔ s.Up c := by simp [Up, hm.current]
  refine switched (h.placed_of_exit hup hparent hm) (fun c hc hcne => ?_) (hup0.mpr hup) hcpu
    (fun hstay => ?_) hs
  · rw [threadCurrent, hm.current]
    refine hm.alive (fun heq => hcne ?_) (h.alive c (hup0.mp hc))
    exact h.distinct (hup0.mp hc) hup heq
  · rw [hm.current] at hstay
    exact absurd hstay hne

end

lemma registered {stackBase stackSize : ℕ} (h : s.Apart) (hdown : ¬ s.Up cpu)
    (hr : Registered cpu stackBase stackSize i s s') : s'.Apart := by
  have hself : s'.current cpu = i := by rw [hr.current, update_self]
  have hother : ∀ c, c ≠ cpu → s'.current c = s.current c := fun c hc => by
    rw [hr.current, update_of_ne hc]
  have hup : ∀ {c}, c ≠ cpu → s'.Up c → s.Up c := fun {c} hne hc => by rwa [Up, hother c hne] at hc
  have hsame : ∀ {j}, (s.threads j).Live → (s.threads j).SameRun (s'.threads j) := by
    intro j hj
    refine hr.threads j ?_
    rintro rfl
    exact hj hr.free
  have hboot := hsame h.boot.1
  refine ⟨⟨fun c hc => ?_, fun c hc => ?_, ?_, ?_, ?_⟩, fun c hc => ?_⟩
  · rcases eq_or_ne c cpu with rfl | hne
    · rw [threadCurrent, hself, hr.cpuId]
    · have hcur := hsame (h.alive c (hup hne hc)).1
      rw [threadCurrent, hother c hne, Thread.cpuId_eq hcur.identity]
      exact h.cpuId c (hup hne hc)
  · rcases eq_or_ne c cpu with rfl | hne
    · exact ⟨i, hr.parent, hr.isUser, hr.cpuId, Or.inr ⟨hr.running, hself⟩⟩
    · obtain ⟨b, hb⟩ := h.idle c (hup hne hc)
      have hbsame : (s.threads b).SameRun (s'.threads b) := hsame (by
        rcases hb.state with hb | ⟨hb, _⟩ <;> simp [Thread.Live, hb])
      refine ⟨b, (Thread.parent_eq hbsame.identity).trans hb.parent,
        (Thread.isUser_eq hbsame.identity).trans hb.isUser,
        (Thread.cpuId_eq hbsame.identity).trans hb.cpuId, ?_⟩
      rw [hbsame.state, hother c hne]
      exact hb.state
  · rw [Thread.Live, hboot.state]
    exact h.boot.1
  · exact (Thread.parent_eq hboot.identity).trans h.boot.2.1
  · exact (Thread.cpuId_eq hboot.identity).trans h.boot.2.2
  · rcases eq_or_ne c cpu with rfl | hne
    · simp [threadCurrent, hself, Thread.Alive, hr.running]
    · have halive := h.alive c (hup hne hc)
      rw [threadCurrent, hother c hne, Thread.Alive, (hsame halive.1).state]
      exact halive

end Apart

/-! ## Every section -/

/-- Who takes which step: a CPU registers once and does nothing before; its bootstrap thread, which
only idles, neither ends nor waits nor sleeps. -/
def CpuStep (s : Sched) (e : Cpu × SchedOp) : Prop :=
  match e.2 with
  | .register _ _ => ¬ s.Up e.1
  | .exit _ _ | .sleep _ | .waitpid _ _ _ => s.Up e.1 ∧ (s.threadCurrent e.1).parent ≠ none
  | _ => s.Up e.1

/-- The step kills a thread that another CPU is running. -/
def RemoteKill (s : Sched) (e : Cpu × SchedOp) : Prop :=
  match e.2 with
  | .kill pid _ => ∃ c, s.Up c ∧ c ≠ e.1 ∧ s.findThreadById pid = some (s.current c)
  | _ => False

instance (s : Sched) : (e : Cpu × SchedOp) → Decidable (s.CpuStep e)
  | (cpu, .register _ _) => inferInstanceAs (Decidable ¬ s.Up cpu)
  | (cpu, .exit _ _) | (cpu, .sleep _) | (cpu, .waitpid _ _ _) =>
    inferInstanceAs (Decidable (s.Up cpu ∧ (s.threadCurrent cpu).parent ≠ none))
  | (cpu, .tick _) | (cpu, .yield _) | (cpu, .fork _ _) | (cpu, .execve _ _) | (cpu, .kill _ _)
  | (cpu, .spawn _) | (cpu, .spawnKernel _ _ _ _) | (cpu, .store _ _) | (cpu, .trap _ _) =>
    inferInstanceAs (Decidable (s.Up cpu))

instance (s : Sched) : (e : Cpu × SchedOp) → Decidable (s.RemoteKill e)
  | (cpu, .kill pid _) => inferInstanceAs
      (Decidable (∃ c, s.Up c ∧ c ≠ cpu ∧ s.findThreadById pid = some (s.current c)))
  | (_, .register _ _) | (_, .exit _ _) | (_, .sleep _) | (_, .waitpid _ _ _) | (_, .tick _)
  | (_, .yield _) | (_, .fork _ _) | (_, .execve _ _) | (_, .spawn _) | (_, .spawnKernel _ _ _ _)
  | (_, .store _ _) | (_, .trap _ _) => isFalse id

/-- Every section keeps the CPUs apart, as long as it does not kill what another CPU is running. -/
lemma Apart.exec {e : Cpu × SchedOp} (h : s.Apart) (he : s.CpuStep e) (hkill : ¬ s.RemoteKill e)
    (hexec : s.exec e.1 e.2 = some s') : s'.Apart := by
  obtain ⟨cpu, op⟩ := e
  cases exec_effect hexec with
  | quiet hsame =>
    refine h.mono hsame.current (fun i _ => ?_) (fun c hc => ?_) (fun c b _ => ?_) ?_
    · rw [hsame.threads]
      exact ⟨rfl, rfl, rfl⟩
    · rw [hsame.threads]
      exact h.alive c hc
    · rw [hsame.threads]
    · rw [hsame.threads]
      exact h.boot.1
  | switched hop s₀ hwoken hswitch =>
    have hup : s.Up cpu := by rcases hop with rfl | rfl <;> exact he
    have h0 := h.woken hwoken
    have hup0 : s₀.Up cpu := by rwa [Up, hwoken.current]
    obtain ⟨hcpu, _⟩ := h0.pick hup0
    exact switched h0.toPlaced (fun c hc _ => h0.alive c hc) hup0 hcpu
      (fun _ => h0.alive cpu hup0) hswitch
  | exited s₀ next hmark hpick hswitch => exact h.exited he.1 he.2 hmark hpick hswitch
  | killed i hfind halive huser hother hmark =>
    refine h.killed hmark halive huser fun c hc heq => ?_
    by_cases hcpu : c = cpu
    · exact hother (by rw [← heq, hcpu])
    · exact hkill ⟨c, hc, hcpu, by rw [hfind, heq]⟩
  | reaped z _ hparent hzombie honly _ =>
    refine h.only honly (fun hz => hz.2 hzombie) ?_
    rintro rfl
    simp [h.boot.2.1] at hparent
  | blocked c _ _ heq =>
    subst heq
    refine h.running (.update _ _) ?_ ?_ (fun hparent => absurd hparent he.2)
    · simp [threadCurrent]
    · simp [Thread.Alive]
  | slept heq =>
    subst heq
    refine h.running (.update _ _) ?_ ?_ (fun hparent => absurd hparent he.2)
    · simp [schedulerSleep, threadCurrent]
    · simp [schedulerSleep, Thread.Alive]
  | born i honly hfree _ =>
    refine h.only honly (fun hi => hi.1 hfree) ?_
    rintro rfl
    exact h.boot.1 hfree
  | moved honly hmove =>
    refine h.running honly ?_ ?_ (fun _ => hmove.state)
    · exact ⟨congrArg Identity.parent hmove.identity, congrArg Identity.isUser hmove.identity,
        congrArg Identity.cpuId hmove.identity⟩
    · rw [Thread.Alive, hmove.state]
      exact h.alive cpu he
  | registered i hr => exact h.registered he hr

/-- The CPUs run threads of their own, in use, whose kernel stacks and spaces have not been given
back. -/
structure RunsOwn (s : Sched) : Prop where
  distinct : ∀ c c', s.Up c → s.Up c' → s.current c = s.current c' → c = c'
  cpuId : ∀ c, s.Up c → (s.threadCurrent c).cpuId = c
  used : ∀ c, s.Up c → (s.threadCurrent c).state ≠ .unused
  stack : ∀ c, s.Up c → (s.threadCurrent c).parent ≠ none →
    s.calls.count (.freeStack (s.threadCurrent c).kstack
        ((s.threadCurrent c).kstackSize / pageSize)) <
      s.calls.count (.allocStack (s.threadCurrent c).kstack
        ((s.threadCurrent c).kstackSize / pageSize))
  space : ∀ c, s.Up c → (s.threadCurrent c).cr3 ≠ s.kspaceCr3 →
    s.calls.count (.destroySpace (s.threadCurrent c).cr3) <
      s.calls.count (.createSpace (s.threadCurrent c).cr3)

lemma Apart.runsOwn (h : s.Apart) (ha : s.Accounts) : s.RunsOwn := by
  refine ⟨fun c c' => h.distinct, h.cpuId, fun c hc => (h.alive c hc).1, fun c hc hparent => ?_,
    fun c hc hcr3 => ?_⟩
  · obtain ⟨p, hp⟩ := Option.ne_none_iff_exists'.mp hparent
    have hheld := ha.held (s.threadCurrent c).kstack ((s.threadCurrent c).kstackSize / pageSize)
    have hpos := holders_pos (stackOf_created (h.alive c hc).1 hp)
    simp only [ledger] at hheld
    rw [List.count_filter rfl, List.count_filter rfl] at hheld
    rw [threadCurrent] at *
    omega
  · obtain ⟨hrefs, hcount⟩ := ha.refsExact _ hcr3
    rw [hcount, if_neg]
    · omega
    · rw [Finset.card_eq_zero]
      refine Finset.ne_empty_of_mem (a := s.current c) ?_
      simp only [users, Finset.mem_filter, Finset.mem_univ, true_and]
      exact ⟨(h.alive c hc).1, rfl⟩

lemma apart_init (s : Sched) (stackBottom stackSize : ℕ) :
    (s.schedulerInit stackBottom stackSize).Apart := by
  have hup : ∀ {c}, (s.schedulerInit stackBottom stackSize).Up c → c = 0 := by
    rintro c (h | h)
    · exact h
    · exact absurd rfl h
  refine ⟨⟨fun c hc => ?_, fun c hc => ?_, by simp [schedulerInit]⟩, fun c _ => ?_⟩
  · rw [hup hc]
    simp [threadCurrent, schedulerInit]
  · rw [hup hc]
    exact ⟨0, by simp [schedulerInit], by simp [schedulerInit], by simp [schedulerInit],
      Or.inr ⟨by simp [schedulerInit], rfl⟩⟩
  · simp [threadCurrent, schedulerInit, Thread.Alive]

/-- A step of the machine as it is: who takes it, and what the page allocator grants it. -/
def Proper (s : Sched) (e : Cpu × SchedOp) : Prop := s.CpuStep e ∧ SpacesOk e.1 s e.2

instance (s : Sched) (e : Cpu × SchedOp) : Decidable (s.Proper e) :=
  inferInstanceAs (Decidable (_ ∧ _))

/-- In a run without remote kills the CPUs stay apart, and the accounts in order. -/
lemma apart_run {s : Sched} {stackBottom stackSize : ℕ} (hspaces : ∀ e ∈ s.spaces, e.refs = 0)
    (hcalls : s.calls = []) {es : List (Cpu × SchedOp)}
    (hes : Admissible (fun s e => s.Proper e ∧ ¬ s.RemoteKill e) step
      (s.schedulerInit stackBottom stackSize) es) :
    (run step (s.schedulerInit stackBottom stackSize) es).Apart ∧
      (run step (s.schedulerInit stackBottom stackSize) es).Accounts := by
  refine run_invariant (I := fun t => t.Apart ∧ t.Accounts) ?_
    ⟨apart_init s stackBottom stackSize, accounts_init s stackBottom stackSize hspaces hcalls⟩ hes
  rintro t e ⟨h, ha⟩ ⟨⟨hstep, hspace⟩, hkill⟩
  refine step_of_effect (I := fun t' => t'.Apart ∧ t'.Accounts) ⟨h, ha⟩ fun t' hexec => ?_
  refine ⟨h.exec hstep hkill hexec, ha.exec ?_ hspace hexec⟩
  by_cases hup : t.Up e.1
  · exact (h.alive e.1 hup).1
  · -- a CPU that registers has no thread yet
    have hboot : t.current e.1 = 0 := by
      by_contra hne
      exact hup (Or.inr hne)
    rw [threadCurrent, hboot]
    exact h.boot.1

/-- **CPUs run threads of their own.**  As long as no thread is killed while another CPU runs it, the
threads that the CPUs run are distinct, in use, and have their kernel stacks and spaces. -/
theorem cpus_run_own_threads (s : Sched) (stackBottom stackSize : ℕ)
    (hspaces : ∀ e ∈ s.spaces, e.refs = 0) (hcalls : s.calls = []) (es : List (Cpu × SchedOp))
    (hes : Admissible (fun s e => s.Proper e ∧ ¬ s.RemoteKill e) step
      (s.schedulerInit stackBottom stackSize) es) :
    (run step (s.schedulerInit stackBottom stackSize) es).RunsOwn :=
  let h := apart_run hspaces hcalls hes
  h.1.runsOwn h.2

/-- Two programs on two CPUs.  On CPU 1 thread 3 forks thread 4, which forks thread 5 and ends; slot 4
is reaped, and thread 5 runs. -/
def orphanOnSecondCpu : List (Cpu × SchedOp) :=
  [(1, .register 0x3000 0x1000), (0, .spawn (grant 0x5000 0x10000 0x20000)),
    (0, .spawn (grant 0x6000 0x14000 0x24000)), (0, .tick 0x2f00), (1, .tick 0x3f00),
    (1, .fork 0x17f50 (grant 0 0x18000 0)), (1, .waitpid 0x17f50 (-1) 0), (1, .yield 0x17f50),
    (1, .tick 0x3f00), (1, .fork 0x1bf50 (grant 0 0x1c000 0)), (1, .exit 0x1bf50 0),
    (1, .tick 0x3f00), (1, .waitpid 0x17f50 (-1) 0), (1, .exit 0x17f50 0), (1, .tick 0x3f00)]

/-- On CPU 0 thread 2 forks a thread into slot 4 and kills thread 5; the new thread waits, and reaps
thread 5. -/
def reapedWhileRunning : List (Cpu × SchedOp) :=
  orphanOnSecondCpu ++ [(0, .fork 0x13f50 (grant 0 0x30000 0)), (0, .kill 5 9),
    (0, .waitpid 0x13f50 (-1) 0), (0, .yield 0x13f50), (0, .tick 0x2f00),
    (0, .waitpid 0x33f50 (-1) 0)]

/-- CPU 1 runs a thread whose slot is free. -/
theorem remote_kill_frees_running_thread :
    Admissible Proper step ((smallSched 2).schedulerInit 0x2000 0x1000) reapedWhileRunning ∧
      (after 2 reapedWhileRunning).Up 1 ∧
      ((after 2 reapedWhileRunning).threadCurrent 1).state = .unused ∧
      (after 2 reapedWhileRunning).calls.count (.freeStack 0x1c000 4) = 1 := by
  decide +kernel

theorem cpus_run_own_threads_two :
    Admissible (fun s e => s.Proper e ∧ ¬ s.RemoteKill e) step
      ((smallSched 2).schedulerInit 0x2000 0x1000) orphanOnSecondCpu ∧
    (after 2 orphanOnSecondCpu).RunsOwn :=
  ⟨by decide +kernel, cpus_run_own_threads (smallSched 2) 0x2000 0x1000 (by decide) rfl
    orphanOnSecondCpu (by decide +kernel)⟩

/-! ## Zombies -/

/-- What the step `e` may do to zombies: `scheduler_waitpid` may free their slots, and no thread is
made a zombie twice. -/
structure ZombiesTerminal (s : Sched) (e : Cpu × SchedOp) : Prop where
  stays : ∀ i, (s.threads i).state = .zombie → ((s.step e).threads i).state = .zombie ∨
    ((s.step e).threads i).state = .unused ∧ ∃ frame pid statusPtr, e.2 = .waitpid frame pid statusPtr
  exit : ∀ frame code, e.2 = .exit frame code → (s.threadCurrent e.1).state ≠ .zombie
  kill : ∀ pid sig i, e.2 = .kill pid sig → s.findThreadById pid = some i →
    (s.threads i).state = .zombie → s.step e = s

lemma Switched.zombie (hs : Switched cpu next s s') (hi : (s.threads i).state = .zombie)
    (hnext : next = s.current cpu ∨ (s.threads next).state = .ready) :
    (s'.threads i).state = .zombie := by
  rw [hs.state i]
  split_ifs with hstay hin hrun
  · exact hi
  · have hready := hnext.resolve_left hstay
    rw [← hin, hi] at hready
    cases hready
  · rw [hi] at hrun
    cases hrun.2
  · exact hi

lemma Marked.zombie (hm : Marked j s s') (hi : (s.threads i).state = .zombie) :
    (s'.threads i).state = .zombie := by
  rcases eq_or_ne i j with rfl | hij
  · exact hm.self
  · rw [(hm.others i hij fun hw => by simp [hw.2.1] at hi).1]
    exact hi

lemma Apart.zombie (h : s.Apart) {e : Cpu × SchedOp} (he : s.CpuStep e)
    (hexec : s.exec e.1 e.2 = some s') (hi : (s.threads i).state = .zombie) :
    (s'.threads i).state = .zombie ∨
      (s'.threads i).state = .unused ∧ ∃ frame pid statusPtr, e.2 = .waitpid frame pid statusPtr := by
  obtain ⟨cpu, op⟩ := e
  have hrunning : s.Up cpu → i ≠ s.current cpu := by
    rintro hup rfl
    exact (h.alive cpu hup).2 hi
  cases exec_effect hexec with
  | quiet hsame =>
    rw [hsame.threads]
    exact Or.inl hi
  | switched hop s₀ hwoken hswitch =>
    have hup : s.Up cpu := by rcases hop with rfl | rfl <;> exact he
    have hup0 : s₀.Up cpu := by rwa [Up, hwoken.current]
    obtain ⟨_, hpick⟩ := (h.woken hwoken).pick hup0
    have hi0 : (s₀.threads i).state = .zombie :=
      ((hwoken.state i).resolve_right fun hs => by simp [hi] at hs).trans hi
    exact Or.inl (hswitch.zombie hi0 (hpick.symm.imp_left And.left))
  | exited s₀ next hmark hpick hswitch =>
    obtain ⟨_, hready, _⟩ := h.exit_next he.1 he.2 hmark hpick
    exact Or.inl (hswitch.zombie (hmark.zombie hi) (Or.inr hready))
  | killed j _ _ _ _ hmark => exact Or.inl (hmark.zombie hi)
  | reaped z _ _ _ honly hunused =>
    rcases eq_or_ne i z with rfl | hiz
    · exact Or.inr ⟨hunused, _, _, _, rfl⟩
    · exact Or.inl ((honly.threads i hiz).state.trans hi)
  | blocked c _ _ heq =>
    rw [heq]
    simp [update_of_ne (hrunning he.1), hi]
  | slept heq =>
    rw [heq]
    simp [schedulerSleep, update_of_ne (hrunning he.1), hi]
  | born j honly hfree _ =>
    have hij : i ≠ j := by
      rintro rfl
      simp [hi] at hfree
    exact Or.inl ((honly.threads i hij).state.trans hi)
  | moved honly hmove => exact Or.inl ((honly.threads i (hrunning he)).state.trans hi)
  | registered j hr =>
    have hij : i ≠ j := by
      rintro rfl
      have hfree := hr.free
      simp [hi] at hfree
    exact Or.inl ((hr.threads i hij).state.trans hi)

/-- **ZOMBIE is terminal.**  As long as no thread is killed while another CPU runs it, a zombie stays
one until its slot is freed by `scheduler_waitpid`. -/
theorem zombies_terminal (s : Sched) (stackBottom stackSize : ℕ)
    (hspaces : ∀ e ∈ s.spaces, e.refs = 0) (hcalls : s.calls = []) (es : List (Cpu × SchedOp))
    (hes : Admissible (fun s e => s.Proper e ∧ ¬ s.RemoteKill e) step
      (s.schedulerInit stackBottom stackSize) es) (e : Cpu × SchedOp)
    (he : (run step (s.schedulerInit stackBottom stackSize) es).CpuStep e) :
    (run step (s.schedulerInit stackBottom stackSize) es).ZombiesTerminal e := by
  obtain ⟨h, _⟩ := apart_run hspaces hcalls hes
  generalize run step (s.schedulerInit stackBottom stackSize) es = t at h he
  refine ⟨fun i hi => ?_, ?_, ?_⟩
  · rw [step]
    cases hexec : t.exec e.1 e.2 with
    | none => exact Or.inl hi
    | some t' => exact h.zombie he hexec hi
  · rintro frame code hop
    rw [CpuStep, hop] at he
    exact (h.alive e.1 he.1).2
  · rintro pid sig i hop hfind hi
    simp only [step, hop, exec, outcome, schedulerKill, hfind, hi, if_true]
    split_ifs <;> rfl

/-- Thread 2 on CPU 0 kills thread 3, which CPU 1 is running; thread 3 goes on and sleeps. -/
def zombieSleeps : List (Cpu × SchedOp) :=
  [(1, .register 0x3000 0x1000), (0, .spawn (grant 0x5000 0x10000 0x20000)),
    (0, .spawn (grant 0x6000 0x14000 0x24000)), (0, .tick 0x2f00), (1, .tick 0x3f00),
    (0, .kill 3 9)]

/-- The zombie sleeps, wakes up at the next tick, and runs on. -/
theorem remote_kill_revives_zombie :
    Admissible Proper step ((smallSched 2).schedulerInit 0x2000 0x1000)
        (zombieSleeps ++ [(1, .sleep 1), (1, .tick 0x17f50), (1, .tick 0x3f00)]) ∧
      ((after 2 zombieSleeps).threads 3).state = .zombie ∧
      ((after 2 (zombieSleeps ++ [(1, .sleep 1)])).threads 3).state = .sleeping ∧
      ((after 2 (zombieSleeps ++ [(1, .sleep 1), (1, .tick 0x17f50),
        (1, .tick 0x3f00)])).threads 3).state = .running := by
  decide +kernel

theorem zombies_terminal_two :
    ((after 2 (orphanOnSecondCpu.take 11)).threads 4).state = .zombie ∧
      (after 2 (orphanOnSecondCpu.take 11)).ZombiesTerminal (1, .tick 0x3f00) :=
  ⟨by decide +kernel, zombies_terminal (smallSched 2) 0x2000 0x1000 (by decide) rfl
    (orphanOnSecondCpu.take 11) (by decide +kernel) (1, .tick 0x3f00) (by decide +kernel)⟩

end Sched

end MyOs
