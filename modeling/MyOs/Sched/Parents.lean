import MyOs.Sched.Sections

/-!
# Parents

`parent` is a pointer to a slot.  When a thread is reaped its slot is given to the next thread, and
children of the old one that are still there then point to the new one.  `Family` records besides the
state when the thread in each slot was created and by whom, and `Lineage` is what holds as long as
nobody is reaped who has children left or is running: then every parent pointer points to the thread
that created the child.
-/

namespace MyOs

open Lib Function

/-- The state with its history: of the thread in each slot the step in which it was created, the step
in which its creator was, and its creator's id. -/
structure Family where
  sched : Sched
  time : ℕ
  born : Slot → ℕ
  maker : Slot → ℕ
  makerId : Slot → ℕ

namespace Family

/-- Slot `i` was free and is in use now. -/
def New (s s' : Sched) (i : Slot) : Prop := (s.threads i).state = .unused ∧ (s'.threads i).Live

instance (s s' : Sched) (i : Slot) : Decidable (New s s' i) := inferInstanceAs (Decidable (_ ∧ _))

/-- The history after a step to `s'` on CPU `cpu`. -/
def record (f : Family) (cpu : Cpu) (s' : Sched) : Family where
  sched := s'
  time := f.time + 1
  born := fun i => if New f.sched s' i then f.time else f.born i
  maker := fun i => if New f.sched s' i then f.born (f.sched.current cpu) else f.maker i
  makerId := fun i =>
    if New f.sched s' i then (f.sched.threadCurrent cpu).id else f.makerId i

def step (f : Family) (e : Cpu × SchedOp) : Family := f.record e.1 (f.sched.step e)

/-- The bootstrap thread, created by nobody. -/
def init (s : Sched) (stackBottom stackSize : ℕ) : Family where
  sched := s.schedulerInit stackBottom stackSize
  time := 1
  born := fun _ => 0
  maker := fun _ => 0
  makerId := fun _ => 0

/-- Every parent pointer points to the thread that created the child, and CPUs run threads in use. -/
structure Lineage (f : Family) : Prop where
  parent : ∀ i p, (f.sched.threads i).Live → (f.sched.threads i).parent = some p →
    (f.sched.threads p).Live ∧ f.born p = f.maker i ∧ (f.sched.threads p).id = f.makerId i
  current : ∀ c, (f.sched.threadCurrent c).Live
  boot : (f.sched.threads 0).Live ∧ (f.sched.threads 0).parent = none

/-- The step does not reap a thread that has children left or that a CPU runs. -/
def LeavesNoOrphans (s : Sched) (e : Cpu × SchedOp) : Prop :=
  match e.2 with
  | .waitpid _ pid _ => ∀ z, s.findChild (s.current e.1) pid true = some z →
      (∀ i, (s.threads i).Live → (s.threads i).parent ≠ some z) ∧ ∀ c, s.current c ≠ z
  | _ => True

variable {f : Family} {s' : Sched} {cpu : Cpu} {i : Slot}

namespace Lineage

lemma mono (h : f.Lineage) (hlive : ∀ i, (s'.threads i).Live ↔ (f.sched.threads i).Live)
    (hid : ∀ i, (s'.threads i).parent = (f.sched.threads i).parent ∧
      (s'.threads i).id = (f.sched.threads i).id)
    (hcur : ∀ c, (s'.threadCurrent c).Live) : (f.record cpu s').Lineage := by
  have hold : ∀ i, ¬ New f.sched s' i := fun i hi => (hlive i).mp hi.2 hi.1
  refine ⟨fun i p hi hp => ?_, hcur, (hlive 0).mpr h.boot.1, (hid 0).1.trans h.boot.2⟩
  obtain ⟨hplive, hborn, hpid⟩ := h.parent i p ((hlive i).mp hi) ((hid i).1.symm.trans hp)
  refine ⟨(hlive p).mpr hplive, ?_, ?_⟩
  · simpa [record, hold] using hborn
  · simpa [record, hold, (hid p).2] using hpid

lemma only (h : f.Lineage)
    (honly : ∀ j, j ≠ i → (f.sched.threads j).SameRun (s'.threads j)) (hi : i ≠ 0)
    (hcur : ∀ c, (s'.threadCurrent c).Live)
    (hchild : ∀ j, j ≠ i → (f.sched.threads j).Live → (f.sched.threads j).parent ≠ some i)
    (hself : (s'.threads i).Live → (f.sched.threads i).state = .unused ∧
      ((s'.threads i).parent = none ∨ (s'.threads i).parent = some (f.sched.current cpu))) :
    (f.record cpu s').Lineage := by
  have hlive : ∀ {j}, j ≠ i → ((s'.threads j).Live ↔ (f.sched.threads j).Live) := fun {j} hj => by
    rw [Thread.Live, (honly j hj).state]
  have hold : ∀ {j}, j ≠ i → ¬ New f.sched s' j := fun {j} hj hnew =>
    (hlive hj).mp hnew.2 hnew.1
  refine ⟨fun j p hj hp => ?_, hcur, ?_, ?_⟩
  · rcases eq_or_ne j i with rfl | hji
    · obtain ⟨hfree, hparent⟩ := hself hj
      have hnew : New f.sched s' j := ⟨hfree, hj⟩
      obtain rfl : f.sched.current cpu = p := by
        rcases hparent with hparent | hparent
        · cases hparent.symm.trans hp
        · exact Option.some.inj (hparent.symm.trans hp)
      have hplive : (f.sched.threads (f.sched.current cpu)).Live := h.current cpu
      have hpj : f.sched.current cpu ≠ j := fun heq => hplive (heq ▸ hfree)
      refine ⟨(hlive hpj).mpr hplive, ?_, ?_⟩
      · simp [record, hold hpj, hnew]
      · simp [record, hnew, Thread.id_eq (honly _ hpj).identity, Sched.threadCurrent]
    · have hjlive := (hlive hji).mp hj
      have hjp := (Thread.parent_eq (honly j hji).identity).symm.trans hp
      have hpi : p ≠ i := by
        rintro rfl
        exact hchild j hji hjlive hjp
      obtain ⟨hplive, hborn, hpid⟩ := h.parent j p hjlive hjp
      refine ⟨(hlive hpi).mpr hplive, ?_, ?_⟩
      · simpa [record, hold hpi, hold hji] using hborn
      · simpa [record, hold hji, Thread.id_eq (honly p hpi).identity] using hpid
  · exact (hlive hi.symm).mpr h.boot.1
  · exact (Thread.parent_eq (honly 0 hi.symm).identity).trans h.boot.2

lemma keeps (h : f.Lineage) (hk : f.sched.Keeps s')
    (hcur : ∀ c, (f.sched.threads (s'.current c)).Live) : (f.record cpu s').Lineage :=
  h.mono (fun _ => hk.live)
    (fun i => ⟨Thread.parent_eq (hk.threads i).identity, Thread.id_eq (hk.threads i).identity⟩)
    (fun c => hk.live.mpr (hcur c))

lemma switched (h : f.Lineage) {s0 : Sched} {next : Slot} (hk : f.sched.Keeps s0)
    (hcurrent : s0.current = f.sched.current) (hnext : (s0.threads next).Live)
    (hs : Sched.Switched cpu next s0 s') : (f.record cpu s').Lineage := by
  refine h.keeps (hk.trans (hs.keeps hnext)) fun c => ?_
  rw [hs.current, hcurrent]
  rcases eq_or_ne c cpu with rfl | hc
  · rw [update_self]
    exact hk.live.mp hnext
  · rw [update_of_ne hc]
    exact h.current c

/-- A slot that was free gets a thread of the running one, or one without parent. -/
lemma born (h : f.Lineage) (honly : ∀ j, j ≠ i → (f.sched.threads j).SameRun (s'.threads j))
    (hfree : (f.sched.threads i).state = .unused) (hcur : ∀ c, (s'.threadCurrent c).Live)
    (hself : (s'.threads i).Live → (s'.threads i).parent = none ∨
      (s'.threads i).parent = some (f.sched.current cpu)) : (f.record cpu s').Lineage := by
  refine h.only honly ?_ hcur (fun j _ hj hp => (h.parent j i hj hp).1 hfree)
    (fun hi => ⟨hfree, hself hi⟩)
  rintro rfl
  exact h.boot.1 hfree

lemma step (h : f.Lineage) {e : Cpu × SchedOp} (he : LeavesNoOrphans f.sched e) :
    (f.step e).Lineage := by
  rw [Family.step, Sched.step]
  cases hexec : f.sched.exec e.1 e.2 with
  | none => exact h.mono (fun _ => Iff.rfl) (fun _ => ⟨rfl, rfl⟩) h.current
  | some s' =>
    obtain ⟨cpu, op⟩ := e
    rw [Option.getD_some]
    have hstay : s'.current = f.sched.current →
        ∀ c, (f.sched.threads (s'.current c)).Live := fun hcur c => by
      rw [hcur]
      exact h.current c
    cases Sched.exec_effect hexec with
    | quiet hsame =>
      refine h.mono (fun i => by rw [hsame.threads]) (fun i => ?_) (fun c => ?_)
      · rw [hsame.threads]
        exact ⟨rfl, rfl⟩
      · rw [Sched.threadCurrent, hsame.threads]
        exact hstay hsame.current c
    | switched _ s0 hwoken hswitch =>
      exact h.switched hwoken.keeps hwoken.current
        (Sched.pickNext_live (hwoken.keeps.live.mpr h.boot.1)) hswitch
    | exited s0 next hmark hpick hswitch =>
      have hkept := hmark.keeps (h.current cpu)
      have hboot := hkept.live.mpr h.boot.1
      refine h.switched hkept hmark.current ?_ hswitch
      rcases hpick with ⟨rfl, _⟩ | ⟨rfl, _⟩
      · exact Sched.pickNext_live hboot
      · exact hboot
    | killed i _ halive _ _ hmark =>
      exact h.keeps (hmark.keeps halive.1) (hstay hmark.current)
    | reaped z hfind hparent _ honly hunused =>
      obtain ⟨hchildren, hrunning⟩ := he z hfind
      refine h.only honly.threads ?_ (fun c => ?_) (fun j _ => hchildren j)
        (fun hz => absurd hunused hz)
      · rintro rfl
        simp [h.boot.2] at hparent
      · rw [Sched.threadCurrent, honly.current, Thread.Live, (honly.threads _ (hrunning c)).state]
        exact h.current c
    | blocked _ _ _ heq | slept heq =>
      subst heq
      refine h.keeps (.restate (h.current cpu) ?_ ?_) (hstay rfl)
      · rfl
      · simp
    | born i honly hfree hnew =>
      refine h.born honly.threads hfree (fun c => ?_) (fun hi => ?_)
      · have hci : f.sched.current c ≠ i := by
          rintro rfl
          exact h.current c hfree
        rw [Sched.threadCurrent, honly.current, Thread.Live, (honly.threads _ hci).state]
        exact h.current c
      · obtain ⟨_, hnew⟩ := hnew.resolve_left hi
        exact Or.inr (hnew (h.current cpu)).parent
    | moved honly hmove =>
      have hfields : ∀ i, (s'.threads i).state = (f.sched.threads i).state ∧
          (s'.threads i).parent = (f.sched.threads i).parent ∧
          (s'.threads i).id = (f.sched.threads i).id := by
        intro i
        rcases eq_or_ne i (f.sched.current cpu) with rfl | hi
        · exact ⟨hmove.state, congrArg Identity.parent hmove.identity,
            congrArg Identity.id hmove.identity⟩
        · have hsame := honly.threads i hi
          exact ⟨hsame.state, Thread.parent_eq hsame.identity, Thread.id_eq hsame.identity⟩
      have hlive : ∀ i, (s'.threads i).Live ↔ (f.sched.threads i).Live := fun i => by
        rw [Thread.Live, (hfields i).1]
      exact h.mono hlive (fun i => (hfields i).2) fun c =>
        (hlive _).mpr (hstay honly.current c)
    | registered i hr =>
      refine h.born hr.threads hr.free (fun c => ?_) (fun _ => Or.inl hr.parent)
      rw [Sched.threadCurrent, hr.current]
      rcases eq_or_ne c cpu with rfl | hc
      · simp [Thread.Live, hr.running]
      · have hci : f.sched.current c ≠ i := by
          rintro rfl
          exact h.current c hr.free
        rw [update_of_ne hc, Thread.Live, (hr.threads _ hci).state]
        exact h.current c

end Lineage

/-- What `scheduler_waitpid` and `thread_mark_zombie` do concerns children and parents only: the thread
that is reaped was created by the caller, and the thread that is woken, or whose status is stored,
created the one that ends.  `scheduler_on_exit` saves the frame of the thread before it marks it. -/
structure ActsOnOwn (f : Family) : Prop where
  reaps : ∀ cpu frame pid statusPtr b s',
    f.sched.waitpidSection cpu frame pid statusPtr = some (b, s') → ∀ z, (f.sched.threads z).Live →
      (s'.threads z).state = .unused → f.maker z = f.born (f.sched.current cpu) ∧
        f.makerId z = (f.sched.threadCurrent cpu).id ∧
        (s'.frames frame).rax = (f.sched.threads z).id
  wakes : ∀ cpu i rsp code s', (f.sched.threads i).Live →
    (f.sched.update i fun t => { t with rsp := rsp }).threadMarkZombie cpu i code = .ok s' →
      ∀ p, p ≠ i → (f.sched.threads p).state = .blocked → (s'.threads p).state ≠ .blocked →
        f.maker i = f.born p ∧ f.makerId i = (f.sched.threads p).id
  stores : ∀ cpu i rsp code s', (f.sched.threads i).Live →
    (f.sched.update i fun t => { t with rsp := rsp }).threadMarkZombie cpu i code = .ok s' →
      s'.umem ≠ f.sched.umem → ∃ p, (f.sched.threads i).parent = some p ∧
        f.maker i = f.born p ∧ f.makerId i = (f.sched.threads p).id

lemma Lineage.actsOnOwn (h : f.Lineage) : f.ActsOnOwn := by
  refine ⟨fun cpu frame pid statusPtr b s' hwait z hlive hunused => ?_,
    fun cpu i rsp code s' hlive hmark p hpi hblocked hwoken => ?_,
    fun cpu i rsp code s' hlive hmark hstored => ?_⟩
  · rcases Sched.waitpidSection_cases hwait with ⟨_, y, _, hchild, _, honly, _, _, hrax⟩ | ⟨_, rfl⟩ |
      ⟨_, _, rfl⟩
    · obtain rfl : z = y := by
        by_contra hzy
        exact hlive ((honly.threads z hzy).state.symm.trans hunused)
      obtain ⟨_, hborn, hid⟩ := h.parent z _ hlive hchild.parent
      exact ⟨hborn.symm, hid.symm, hrax⟩
    · exact absurd hunused hlive
    · rcases eq_or_ne z (f.sched.current cpu) with rfl | hz
      · simp at hunused
      · simp only [Sched.update_threads, update_of_ne hz] at hunused
        exact absurd hunused hlive
  · have hm : Sched.Marked i f.sched s' := (Sched.threadMarkZombie_marked hmark).of_update rfl
    by_cases hw : (f.sched.threads i).parent = some p ∧
        (f.sched.threads p).Awaits (f.sched.threads i).id
    · obtain ⟨_, hborn, hid⟩ := h.parent i p hlive hw.1
      exact ⟨hborn.symm, hid.symm⟩
    · exact absurd ((hm.others p hpi hw).1.trans hblocked) hwoken
  · have hm : Sched.Marked i f.sched s' := (Sched.threadMarkZombie_marked hmark).of_update rfl
    obtain ⟨p, _, hp, _⟩ := hm.stored.resolve_left hstored
    obtain ⟨_, hborn, hid⟩ := h.parent i p hlive hp
    exact ⟨p, hp, hborn.symm, hid.symm⟩

lemma lineage_init (s : Sched) (stackBottom stackSize : ℕ) :
    (init s stackBottom stackSize).Lineage := by
  refine ⟨fun i p hi hp => ?_, fun c => ?_, ?_⟩
  · rcases eq_or_ne i 0 with rfl | hi0
    · simp [init, Sched.schedulerInit] at hp
    · simp [init, Sched.schedulerInit, update_of_ne hi0] at hp
  · simp [init, Sched.schedulerInit, Sched.threadCurrent]
  · simp [init, Sched.schedulerInit]

/-- **Parents are creators.**  In a run in which nobody is reaped who has children left or is running,
waiting and ending concern the thread that created the child, whatever slots were reused. -/
theorem acts_on_own_children (s : Sched) (stackBottom stackSize : ℕ) (es : List (Cpu × SchedOp))
    (hes : Admissible (fun f e => LeavesNoOrphans f.sched e) step (init s stackBottom stackSize) es) :
    (run step (init s stackBottom stackSize) es).ActsOnOwn :=
  (run_invariant (fun _ _ h he => h.step he) (lineage_init s stackBottom stackSize) hes).actsOnOwn

instance (s : Sched) : (e : Cpu × SchedOp) → Decidable (LeavesNoOrphans s e)
  | (cpu, .waitpid _ pid _) => inferInstanceAs (Decidable (∀ z,
      s.findChild (s.current cpu) pid true = some z →
        (∀ i, (s.threads i).Live → (s.threads i).parent ≠ some z) ∧ ∀ c, s.current c ≠ z))
  | (_, .register _ _) | (_, .exit _ _) | (_, .sleep _) | (_, .kill _ _) | (_, .tick _)
  | (_, .yield _) | (_, .fork _ _) | (_, .execve _ _) | (_, .spawn _) | (_, .spawnKernel _ _ _ _)
  | (_, .store _ _) | (_, .trap _ _) => isTrue trivial

/-- Thread 1 forks thread 2, which forks thread 3 and ends.  Thread 1 reaps it and forks again. -/
def slotReused : List (Cpu × SchedOp) :=
  [(0, .spawn (grant 0x5000 0x10000 0x20000)), (0, .tick 0x2f00),
    (0, .fork 0x13f50 (grant 0 0x14000 0)), (0, .waitpid 0x13f50 (-1) 0), (0, .yield 0x13f50),
    (0, .tick 0x2f00), (0, .fork 0x17f50 (grant 0 0x18000 0)), (0, .exit 0x17f50 0),
    (0, .tick 0x2f00), (0, .waitpid 0x13f50 (-1) 0), (0, .fork 0x13f50 (grant 0 0x1c000 0))]

/-- The new thread in slot 2 kills thread 3 and reaps it, which thread 3's own creator was to do. -/
def strangerReaps : List (Cpu × SchedOp) :=
  slotReused ++ [(0, .waitpid 0x13f50 (-1) 0), (0, .yield 0x13f50), (0, .tick 0x2f00),
    (0, .kill 3 9)]

theorem reused_slot_reaps_stranger :
    (run step (init (smallSched 1) 0x2000 0x1000) strangerReaps).sched.current 0 = 2 ∧
      ((run step (init (smallSched 1) 0x2000 0x1000) strangerReaps).sched.threads 3).state =
        .zombie ∧
      ((run step (init (smallSched 1) 0x2000 0x1000)
        (strangerReaps ++ [(0, .waitpid 0x1ff50 (-1) 0)])).sched.threads 3).state = .unused ∧
      (run step (init (smallSched 1) 0x2000 0x1000) strangerReaps).makerId 3 = 2 ∧
      ((run step (init (smallSched 1) 0x2000 0x1000) strangerReaps).sched.threads 2).id = 4 := by
  decide +kernel

/-- Thread 1 forks thread 2, kills it and reaps it. -/
theorem acts_on_own_children_forked :
    Admissible (fun f e => LeavesNoOrphans f.sched e) step (init (smallSched 1) 0x2000 0x1000)
        (slotReused.take 3 ++ [(0, .kill 2 9), (0, .waitpid 0x13f50 (-1) 0)]) ∧
      (run step (init (smallSched 1) 0x2000 0x1000)
        (slotReused.take 3 ++ [(0, .kill 2 9), (0, .waitpid 0x13f50 (-1) 0)])).ActsOnOwn :=
  ⟨by decide +kernel, acts_on_own_children _ _ _ _ (by decide +kernel)⟩

end Family

end MyOs
