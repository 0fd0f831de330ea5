import MyOs.Sched.Sections

/-!
# How ticks share a CPU

`scheduler_on_tick` takes the CPU from the running thread and gives it to the one that `pick_next`
chooses: among READY threads of one priority the first in the table, since a later one replaces it only
with a higher priority.  The thread that is preempted becomes READY after the choice.

So the CPU goes to the lowest runnable slot that is not running (`nextOf`), and iterated ticks alternate
between the two lowest slots.  A third thread of the same priority is never chosen while these two can
run (`ticks_share_iff`).
-/

namespace MyOs

open Lib List

/-! ## The lowest element that is not the current one -/

/-- The least element of `R` other than `c`, or `c` if there is none. -/
def nextOf (R : Finset Slot) (c : Slot) : Slot :=
  if h : (R.erase c).Nonempty then (R.erase c).min' h else c

variable {R : Finset Slot} {c : Slot}

lemma nextOf_mem (hc : c ∈ R) : nextOf R c ∈ R := by
  rw [nextOf]
  split_ifs with h
  · exact Finset.mem_of_mem_erase (Finset.min'_mem _ h)
  · exact hc

lemma nextOf_ne (h : (R.erase c).Nonempty) : nextOf R c ≠ c := by
  rw [nextOf, dif_pos h]
  exact Finset.ne_of_mem_erase (Finset.min'_mem _ h)

lemma nextOf_eq_min (hR : R.Nonempty) (hne : c ≠ R.min' hR) : nextOf R c = R.min' hR := by
  have hmem : R.min' hR ∈ R.erase c := Finset.mem_erase.mpr ⟨hne.symm, Finset.min'_mem R hR⟩
  rw [nextOf, dif_pos ⟨_, hmem⟩]
  refine le_antisymm (Finset.min'_le _ _ hmem) (Finset.min'_le _ _ ?_)
  exact Finset.mem_of_mem_erase (Finset.min'_mem _ _)

lemma nextOf_mem_pair (hR : R.Nonempty) :
    nextOf R c ∈ ({R.min' hR, nextOf R (R.min' hR)} : Finset Slot) := by
  rw [Finset.mem_insert, Finset.mem_singleton]
  rcases eq_or_ne c (R.min' hR) with rfl | hne
  · exact Or.inr rfl
  · exact Or.inl (nextOf_eq_min hR hne)

namespace Sched

variable {s : Sched} {cpu : Cpu}

/-! ## The choice among equals -/

/-- A READY thread of the CPU. -/
def ReadyOn (threads : Slot → Thread) (cpu : Cpu) (i : Slot) : Prop :=
  (threads i).state = .ready ∧ (threads i).cpuId = cpu

/-- Among threads of one priority the loop of `pick_next` keeps the first READY one. -/
lemma pickBest_least {threads : Slot → Thread} {i : Slot}
    (hprio : ∀ i j, ReadyOn threads cpu i → ReadyOn threads cpu j →
      (threads i).priority = (threads j).priority)
    (h : pickBest threads cpu = some i) : ∀ j < i, ¬ ReadyOn threads cpu j := by
  rw [pickBest_eq] at h
  have hsorted := (pairwise_lt_finRange maxThreads).filter fun i =>
    decide ((threads i).state = .ready ∧ (threads i).cpuId = cpu)
  have hmem : ∀ j, j ∈ (finRange maxThreads).filter (fun i =>
      decide ((threads i).state = .ready ∧ (threads i).cpuId = cpu)) ↔ ReadyOn threads cpu j := by
    simp [ReadyOn]
  generalize (finRange maxThreads).filter _ = slots at h hsorted hmem
  cases slots with
  | nil => cases h
  | cons k slots =>
    have hfirst : slots.foldl (better threads) (some k) = some k := by
      refine foldlRecOn (motive := (· = some k)) slots _ rfl ?_
      rintro _ rfl j hj
      have hsame := hprio j k ((hmem j).mp (mem_cons_of_mem _ hj)) ((hmem k).mp mem_cons_self)
      simp [better, hsame]
    rw [foldl_cons, better, hfirst, Option.some.injEq] at h
    subst h
    intro j hlt hready
    rcases mem_cons.mp ((hmem j).mpr hready) with rfl | hj
    · exact lt_irrefl _ hlt
    · exact lt_asymm hlt (rel_of_pairwise_cons hsorted hj)

/-! ## Ticks -/

/-- The threads of CPU `cpu` that are READY or RUNNING are those of `R`; all have one priority, the
RUNNING one is `g_current`, and no thread of the table is SLEEPING. -/
structure TimeShares (s : Sched) (cpu : Cpu) (R : Finset Slot) : Prop where
  runnable : ∀ i, i ∈ R ↔
    (s.threads i).cpuId = cpu ∧ ((s.threads i).state = .ready ∨ (s.threads i).state = .running)
  priority : ∀ i ∈ R, ∀ j ∈ R, (s.threads i).priority = (s.threads j).priority
  current : s.current cpu ∈ R
  running : ∀ i ∈ R, (s.threads i).state = .running ↔ i = s.current cpu
  awake : ∀ i, (s.threads i).state ≠ .sleeping

/-- The state after `scheduler_on_tick`. -/
def tick (cpu : Cpu) (s : Sched) (frame : ℕ) : Sched := (s.schedulerOnTick cpu frame).2

section

variable (h : s.TimeShares cpu R)
include h

lemma TimeShares.readyOn {i : Slot} : ReadyOn s.threads cpu i ↔ i ∈ R.erase (s.current cpu) := by
  rw [Finset.mem_erase, ReadyOn]
  constructor
  · rintro ⟨hstate, hcpu⟩
    have hi : i ∈ R := (h.runnable i).mpr ⟨hcpu, Or.inl hstate⟩
    refine ⟨fun heq => ?_, hi⟩
    have hrunning := (h.running i hi).mpr heq
    rw [hstate] at hrunning
    cases hrunning
  · rintro ⟨hne, hi⟩
    obtain ⟨hcpu, hstate⟩ := (h.runnable i).mp hi
    exact ⟨hstate.resolve_right fun hrunning => hne ((h.running i hi).mp hrunning), hcpu⟩

lemma TimeShares.pickNext : s.pickNext cpu = nextOf R (s.current cpu) := by
  rw [Sched.pickNext, nextOf]
  cases hbest : pickBest s.threads cpu with
  | some i =>
    have hi : i ∈ R.erase (s.current cpu) := h.readyOn.mp (pickBest_some hbest)
    have hleast := pickBest_least (fun i j hi hj => h.priority i
      (Finset.mem_of_mem_erase (h.readyOn.mp hi)) j (Finset.mem_of_mem_erase (h.readyOn.mp hj))) hbest
    rw [dif_pos ⟨i, hi⟩]
    refine le_antisymm (not_lt.mp fun hlt => ?_) (Finset.min'_le _ _ hi)
    exact hleast _ hlt (h.readyOn.mpr (Finset.min'_mem _ _))
  | none =>
    have hempty : ¬ (R.erase (s.current cpu)).Nonempty := by
      rintro ⟨i, hi⟩
      exact pickBest_none hbest i (h.readyOn.mpr hi)
    rw [dif_neg hempty]
    exact if_pos (Or.inl ((h.running _ h.current).mpr rfl))

/-- One tick: the CPU goes to the next thread, and the threads that share it stay the same. -/
lemma TimeShares.tick (frame : ℕ) :
    (s.tick cpu frame).TimeShares cpu R ∧
      (s.tick cpu frame).current cpu = nextOf R (s.current cpu) := by
  have hwake : s.wakeSleepers = s := by
    have : (fun i => if (s.threads i).state = .sleeping ∧ (s.threads i).wakeupTick ≤ s.ticks
        then { s.threads i with state := .ready } else s.threads i) = s.threads :=
      funext fun i => if_neg fun hsleep => h.awake i hsleep.1
    rw [wakeSleepers, this]
  have hsw := doSwitch_switched s cpu frame (nextOf R (s.current cpu))
  have hprio : ∀ i, ((s.doSwitch cpu frame (nextOf R (s.current cpu))).2.threads i).priority =
      (s.threads i).priority := by
    intro i
    rcases eq_or_ne (nextOf R (s.current cpu)) (s.current cpu) with hstay | hgo
    · rw [doSwitch, if_pos hstay]
    · rcases eq_or_ne i (nextOf R (s.current cpu)) with rfl | hi
      · rw [doSwitch_next hgo]
      · rcases eq_or_ne i (s.current cpu) with rfl | hc
        · rw [doSwitch_prev hgo]
        · rw [doSwitch_other hgo hi hc]
  rw [Sched.tick, schedulerOnTick, reschedule, hwake, h.pickNext]
  generalize (s.doSwitch cpu frame (nextOf R (s.current cpu))).2 = s' at hsw hprio
  have hcurrent : s'.current cpu = nextOf R (s.current cpu) := by
    rw [hsw.current, Function.update_self]
  have hcpu : ∀ i, (s'.threads i).cpuId = (s.threads i).cpuId := fun i =>
    Thread.cpuId_eq (hsw.identity i)
  have hmem : nextOf R (s.current cpu) ∈ R := nextOf_mem h.current
  have hrun := (h.running _ h.current).mpr rfl
  refine ⟨⟨fun i => ?_, fun i hi j hj => ?_, ?_, fun i hi => ?_, fun i => ?_⟩, hcurrent⟩
  · rw [h.runnable, hcpu, hsw.state]
    split_ifs with hstay hi hprev
    · rfl
    · rw [hi, and_congr_right_iff]
      exact fun _ => iff_of_true ((h.runnable _).mp hmem).2 (Or.inr rfl)
    · rw [and_congr_right_iff]
      exact fun _ => iff_of_true (Or.inr hprev.2) (Or.inl rfl)
    · rfl
  · rw [hprio, hprio]
    exact h.priority i hi j hj
  · rw [hcurrent]
    exact hmem
  · rw [hsw.state, hcurrent]
    have hrunning := h.running i hi
    split_ifs with hstay hnext hprev
    · rw [hrunning, hstay]
    · exact iff_of_true rfl hnext
    · exact iff_of_false (by decide) hnext
    · refine iff_of_false (fun hi => hprev ⟨hrunning.mp hi, hi⟩) hnext
  · rw [hsw.state]
    have := h.awake i
    split_ifs
    · exact this
    · decide
    · decide
    · exact this

lemma TimeShares.ticks (frames : List ℕ) : (run (Sched.tick cpu) s frames).TimeShares cpu R :=
  run_preserves (I := fun s : Sched => s.TimeShares cpu R) (fun _ frame hs => (hs.tick frame).1) h

lemma TimeShares.current_mem_pair {frames : List ℕ} (hne : frames ≠ []) :
    (run (Sched.tick cpu) s frames).current cpu ∈
      ({R.min' ⟨_, h.current⟩, nextOf R (R.min' ⟨_, h.current⟩)} : Finset Slot) := by
  obtain ⟨front, last, rfl⟩ := (eq_nil_or_concat' frames).resolve_left hne
  rw [run_append, run_cons, run_nil, ((h.ticks front).tick last).2]
  exact nextOf_mem_pair _

/-- With at most two threads everyone is reached: the other one by the first tick, and the first by the
next. -/
lemma TimeShares.reaches (hsmall : R.card ≤ 2) {frames : List ℕ} (hlen : frames.length = R.card)
    {i : Slot} (hi : i ∈ R) :
    ∃ pre, pre <+: frames ∧ pre ≠ [] ∧ (run (Sched.tick cpu) s pre).current cpu = i := by
  have hpos : 0 < R.card := Finset.card_pos.mpr ⟨i, hi⟩
  cases frames with
  | nil => exact absurd hlen.symm hpos.ne'
  | cons f rest =>
    have hfirst : (run (Sched.tick cpu) s [f]).current cpu = nextOf R (s.current cpu) := (h.tick f).2
    by_cases hnext : i = nextOf R (s.current cpu)
    · exact ⟨[f], by simp, by simp, hnext ▸ hfirst⟩
    · -- then `i` is the running thread, and there is another one
      have hother : (R.erase (s.current cpu)).Nonempty := by
        by_contra hempty
        have hnone : nextOf R (s.current cpu) = s.current cpu := dif_neg hempty
        rw [Finset.not_nonempty_iff_eq_empty, Finset.erase_eq_empty_iff] at hempty
        rcases hempty with hempty | hsingle
        · simp [hempty] at hi
        · rw [hsingle, Finset.mem_singleton] at hi
          exact hnext (hi.trans hnone.symm)
      have hpair : R = {s.current cpu, nextOf R (s.current cpu)} := by
        refine (Finset.eq_of_subset_of_card_le ?_ ?_).symm
        · intro j hj
          rcases Finset.mem_insert.mp hj with rfl | hj
          · exact h.current
          · rw [Finset.mem_singleton.mp hj]
            exact nextOf_mem h.current
        · rw [Finset.card_pair (nextOf_ne hother).symm]
          exact hsmall
      have hcur : i = s.current cpu := by
        rw [hpair, Finset.mem_insert, Finset.mem_singleton] at hi
        exact hi.resolve_right hnext
      have htwo : R.card = 2 := by
        rw [hpair, Finset.card_pair (nextOf_ne hother).symm]
      cases rest with
      | nil =>
        rw [htwo] at hlen
        cases hlen
      | cons g rest =>
        refine ⟨[f, g], by simp, by simp, ?_⟩
        obtain ⟨hshares, hcurrent⟩ := h.tick f
        rw [run_cons, run_cons, run_nil, (hshares.tick g).2, hcurrent]
        have hback : (R.erase (nextOf R (s.current cpu))).Nonempty :=
          ⟨s.current cpu, Finset.mem_erase.mpr ⟨(nextOf_ne hother).symm, h.current⟩⟩
        have hmem : nextOf R (nextOf R (s.current cpu)) ∈ R :=
          nextOf_mem (nextOf_mem h.current)
        have hne := nextOf_ne hback
        rw [hcur]
        generalize nextOf R (nextOf R (s.current cpu)) = x at hmem hne ⊢
        rw [hpair, Finset.mem_insert, Finset.mem_singleton] at hmem
        exact hmem.resolve_right hne

end

/-- **When ticks share the CPU.**  Let `k` threads of one priority be runnable on the CPU, one of them
running, and none asleep.  Then `k` ticks, whatever frames they interrupt, make every one of them the
current thread just when `k` is at most 2. -/
theorem ticks_share_iff (h : s.TimeShares cpu R) {frames : List ℕ} (hlen : frames.length = R.card) :
    (∀ i ∈ R, ∃ pre, pre <+: frames ∧ pre ≠ [] ∧ (run (Sched.tick cpu) s pre).current cpu = i) ↔
      R.card ≤ 2 := by
  refine ⟨fun hall => ?_, fun hsmall i hi => h.reaches hsmall hlen hi⟩
  have hsub : R ⊆ {R.min' ⟨_, h.current⟩, nextOf R (R.min' ⟨_, h.current⟩)} := by
    intro i hi
    obtain ⟨pre, -, hne, hcur⟩ := hall i hi
    rw [← hcur]
    exact h.current_mem_pair hne
  exact (Finset.card_le_card hsub).trans Finset.card_le_two

end Sched

/-- The bootstrap thread and two kernel threads, on one CPU. -/
def threeThreads : Sched :=
  Sched.after 1 [(0, .spawnKernel 0x100000 0x101000 0 (grant 0 0x300000 0)),
    (0, .spawnKernel 0x100000 0x102000 0 (grant 0 0x304000 0))]

/-- The bootstrap thread and one kernel thread. -/
def twoThreads : Sched :=
  Sched.after 1 [(0, .spawnKernel 0x100000 0x101000 0 (grant 0 0x300000 0))]

lemma twoThreads_share : twoThreads.TimeShares 0 {0, 1} where
  runnable := by decide +kernel
  priority := by decide +kernel
  current := by decide +kernel
  running := by decide +kernel
  awake := by decide +kernel

/-- Two threads take turns. -/
theorem ticks_share_two :
    twoThreads.TimeShares 0 {0, 1} ∧
      ∀ i ∈ ({0, 1} : Finset Slot), ∃ pre, pre <+: [0x3000, 0x303F00] ∧ pre ≠ [] ∧
        (run (Sched.tick 0) twoThreads pre).current 0 = i :=
  ⟨twoThreads_share, (Sched.ticks_share_iff twoThreads_share (by decide)).mpr (by decide)⟩

/-- Of three threads the last one never runs: the ticks go to slot 1, to slot 0 and to slot 1 again. -/
theorem third_thread_starves :
    threeThreads.TimeShares 0 {0, 1, 2} ∧
      (run (Sched.tick 0) threeThreads [0x3000]).current 0 = 1 ∧
      (run (Sched.tick 0) threeThreads [0x3000, 0x303F00]).current 0 = 0 ∧
      (run (Sched.tick 0) threeThreads [0x3000, 0x303F00, 0x3000]).current 0 = 1 := by
  refine ⟨⟨?_, ?_, ?_, ?_, ?_⟩, ?_⟩ <;> decide +kernel

end MyOs
