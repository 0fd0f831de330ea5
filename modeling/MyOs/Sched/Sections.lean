import MyOs.Lib.Runs
import MyOs.Sched.Transitions

/-!
# The critical sections of the scheduler

On several CPUs the unit of interleaving is a section under `g_sched_lock`.  `SchedOp` lists those
sections, with the system calls and the parts of start-up that work on the same tables, and `outcome`
runs one of them on a CPU.  A section that faults in the kernel, or that halts with the lock held,
does not end, and `outcome` says in which state it stops.  It is the last section there is, since all
others wait for the lock; `exec` is the result of a section that ends, and `step` goes from section to
section.

`Effect` says what a section can do to the threads, and `exec_effect` that it can do nothing else.
-/

namespace MyOs

open Lib Function

/-- One section on a CPU. -/
inductive SchedOp
  | tick (frame : ℕ)
  | yield (frame : ℕ)
  | fork (frame : ℕ) (re : Replies)
  | execve (frame : ℕ) (re : Replies)
  | exit (frame : ℕ) (code : ℤ)
  | kill (pid sig : ℤ)
  /-- up to the point where the caller is BLOCKED; its yield is a section of its own -/
  | waitpid (frame : ℕ) (pid : ℤ) (statusPtr : ℕ)
  | sleep (ticks : ℕ)
  /-- a new space, a program loaded to it, and `thread_create_user` -/
  | spawn (re : Replies)
  | spawnKernel (trampoline fn arg : ℕ) (re : Replies)
  | register (stackBase stackSize : ℕ)
  /-- the running thread stores a byte -/
  | store (va : ℕ) (b : UInt8)
  /-- the CPU pushes a frame -/
  | trap (frame : ℕ) (f : Frame)

namespace Sched

/-- Run one section on CPU `cpu`: the state at its end, or in which it stops. -/
def outcome (s : Sched) (cpu : Cpu) : SchedOp → Except Sched Sched
  | .tick frame => .ok ({ s with ticks := (s.ticks + 1) % 2 ^ 64 }.schedulerOnTick cpu frame).2
  | .yield frame => .ok (s.schedulerYield cpu frame).2
  | .fork frame re => .ok (s.schedulerFork cpu frame re)
  | .execve frame re => .ok (s.execve cpu frame re)
  | .exit frame code => (s.schedulerOnExit cpu frame code).map Prod.snd
  | .kill pid sig => (s.schedulerKill cpu pid sig).map Prod.snd
  | .waitpid frame pid statusPtr =>
    match s.waitpidSection cpu frame pid statusPtr with
    | none => .error s
    | some r => .ok r.2
  | .sleep ticks => .ok (s.schedulerSleep cpu ticks)
  | .spawn re => .ok (s.startProgram cpu re).2
  | .spawnKernel trampoline fn arg re => .ok (s.threadCreateKernel cpu trampoline fn arg re).2
  | .register stackBase stackSize => .ok (s.schedulerRegisterCpuBootstrap cpu stackBase stackSize)
  | .store va b =>
    .ok { s with
      umem := Function.update s.umem (s.cr3 cpu) (Function.update (s.umem (s.cr3 cpu)) va b) }
  | .trap frame f => .ok (s.setFrame frame f)

/-- A section that ends. -/
def exec (s : Sched) (cpu : Cpu) (op : SchedOp) : Option Sched := (s.outcome cpu op).toOption

/-- One step of an interleaving of sections that end; one that does not end is no step. -/
def step (s : Sched) (e : Cpu × SchedOp) : Sched := (s.exec e.1 e.2).getD s

variable {s s' s'' : Sched} {cpu : Cpu} {i j next : Slot} {frame : ℕ}

/-! ## Switching -/

/-- Some sleeping threads are READY, and nothing else has happened. -/
structure Woken (s s' : Sched) : Prop where
  identity : ∀ i, (s'.threads i).identity = (s.threads i).identity
  waitTarget : ∀ i, (s'.threads i).waitTarget = (s.threads i).waitTarget
  state : ∀ i, (s'.threads i).state = (s.threads i).state ∨
    (s.threads i).state = .sleeping ∧ (s'.threads i).state = .ready
  rsp : ∀ i, (s'.threads i).rsp = (s.threads i).rsp
  current : s'.current = s.current
  rsp0 : s'.rsp0 = s.rsp0
  ledger : s'.ledger = s.ledger

/-- The CPU goes over to thread `next`, or stays with it. -/
structure Switched (cpu : Cpu) (next : Slot) (s s' : Sched) : Prop where
  identity : ∀ i, (s'.threads i).identity = (s.threads i).identity
  waitTarget : ∀ i, (s'.threads i).waitTarget = (s.threads i).waitTarget
  state : ∀ i, (s'.threads i).state =
    if next = s.current cpu then (s.threads i).state
    else if i = next then .running
    else if i = s.current cpu ∧ (s.threads i).state = .running then .ready
    else (s.threads i).state
  current : s'.current = Function.update s.current cpu next
  ledger : s'.ledger = s.ledger

lemma wakeSleepers_woken (s : Sched) (ticks : ℕ) :
    s.Woken { s with ticks := ticks }.wakeSleepers := by
  have hthread : ∀ i, ({ s with ticks := ticks }.wakeSleepers).threads i = s.threads i ∨
      (s.threads i).state = .sleeping ∧
        ({ s with ticks := ticks }.wakeSleepers).threads i =
          { s.threads i with state := .ready } := by
    intro i
    simp only [wakeSleepers]
    split
    · rename_i h
      exact Or.inr ⟨h.1, rfl⟩
    · exact Or.inl rfl
  refine ⟨fun i => ?_, fun i => ?_, fun i => ?_, fun i => ?_, rfl, rfl, rfl⟩
  all_goals rcases hthread i with h | ⟨hs, h⟩
  all_goals rw [h]
  · rfl
  · exact Or.inl rfl
  · exact Or.inr ⟨hs, rfl⟩

section

variable (hgo : next ≠ s.current cpu)
include hgo

lemma doSwitch_next : (s.doSwitch cpu frame next).2.threads next =
    { s.threads next with state := .running } := by
  simp [doSwitch, hgo]

lemma doSwitch_prev : (s.doSwitch cpu frame next).2.threads (s.current cpu) =
    { s.threads (s.current cpu) with
      rsp := frame
      state := if (s.threads (s.current cpu)).state = .running then .ready
        else (s.threads (s.current cpu)).state } := by
  simp only [doSwitch, if_neg hgo, update_of_ne hgo.symm, update_self]
  rfl

lemma doSwitch_other (hi : i ≠ next) (hc : i ≠ s.current cpu) :
    (s.doSwitch cpu frame next).2.threads i = s.threads i := by
  simp [doSwitch, hgo, update_of_ne hi, update_of_ne hc]

lemma doSwitch_current :
    (s.doSwitch cpu frame next).2.current = Function.update s.current cpu next := by
  simp [doSwitch, hgo]

end

lemma doSwitch_switched (s : Sched) (cpu : Cpu) (frame : ℕ) (next : Slot) :
    Switched cpu next s (s.doSwitch cpu frame next).2 := by
  rcases eq_or_ne next (s.current cpu) with hstay | hgo
  · rw [doSwitch, if_pos hstay]
    refine ⟨fun _ => rfl, fun _ => rfl, fun i => by rw [if_pos hstay], ?_, rfl⟩
    rw [hstay, update_eq_self]
  · have hledger : (s.doSwitch cpu frame next).2.ledger = s.ledger := by
      rw [doSwitch, if_neg hgo]
      rfl
    refine ⟨fun i => ?_, fun i => ?_, fun i => ?_, doSwitch_current hgo, hledger⟩
    all_goals rcases eq_or_ne i next with rfl | hi
    · rw [doSwitch_next hgo]
      rfl
    · rcases eq_or_ne i (s.current cpu) with rfl | hc
      · rw [doSwitch_prev hgo]
        rfl
      · rw [doSwitch_other hgo hi hc]
    · rw [doSwitch_next hgo]
    · rcases eq_or_ne i (s.current cpu) with rfl | hc
      · rw [doSwitch_prev hgo]
      · rw [doSwitch_other hgo hi hc]
    · rw [doSwitch_next hgo, if_neg hgo, if_pos rfl]
    · rcases eq_or_ne i (s.current cpu) with rfl | hc
      · simp [doSwitch_prev hgo, hgo, hi]
      · simp [doSwitch_other hgo hi hc, hgo, hi, hc]

lemma Woken.keeps (h : s.Woken s') : s.Keeps s' := by
  refine ⟨fun i => ⟨h.identity i, ?_⟩, h.ledger⟩
  rcases h.state i with hstate | ⟨hsleep, hready⟩
  · rw [hstate]
  · simp [hsleep, hready]

lemma Switched.keeps (h : Switched cpu next s s') (hnext : (s.threads next).Live) :
    s.Keeps s' := by
  refine ⟨fun i => ⟨h.identity i, ?_⟩, h.ledger⟩
  rw [h.state i]
  split_ifs with hstay hi hrun
  · rfl
  · simpa [hi] using hnext
  · simp [hrun.2]
  · rfl

lemma Marked.keeps (h : Marked i s s') (hi : (s.threads i).Live) : s.Keeps s' :=
  ⟨fun j => ⟨h.identity j, not_iff_not.mp (h.live hi j)⟩, h.ledger⟩

/-! ## What a section can do -/

/-- What one section on CPU `cpu` can do to the threads. -/
inductive Effect (cpu : Cpu) (s s' : Sched) : SchedOp → Prop
  | quiet {op : SchedOp} (same : s.SameThreads s') : Effect cpu s s' op
  | switched {op : SchedOp} {frame : ℕ} (op_eq : op = .tick frame ∨ op = .yield frame) (s₀ : Sched)
      (woken : s.Woken s₀) (switch : Switched cpu (s₀.pickNext cpu) s₀ s') : Effect cpu s s' op
  /-- the running thread has become a zombie -/
  | exited {frame : ℕ} {code : ℤ} (s₀ : Sched) (next : Slot) (mark : Marked (s.current cpu) s s₀)
      (pick : next = s₀.pickNext cpu ∧ next ≠ s.current cpu ∨
        next = 0 ∧ s₀.pickNext cpu = s.current cpu ∧ (s₀.threads 0).state ≠ .zombie)
      (switch : Switched cpu next s₀ s') : Effect cpu s s' (.exit frame code)
  /-- another thread has been killed -/
  | killed {pid sig : ℤ} (i : Slot) (find : s.findThreadById pid = some i)
      (alive : (s.threads i).Alive) (isUser : (s.threads i).isUser = true)
      (other : i ≠ s.current cpu) (mark : Marked i s s') : Effect cpu s s' (.kill pid sig)
  | reaped {frame : ℕ} {pid : ℤ} {statusPtr : ℕ} (z : Slot)
      (find : s.findChild (s.current cpu) pid true = some z)
      (parent : (s.threads z).parent = some (s.current cpu))
      (zombie : (s.threads z).state = .zombie) (only : Only z s s')
      (unused : (s'.threads z).state = .unused) : Effect cpu s s' (.waitpid frame pid statusPtr)
  | blocked {frame : ℕ} {pid : ℤ} {statusPtr : ℕ} (c : Slot)
      (child : s.Child (s.current cpu) pid c) (alive : (s.threads c).state ≠ .zombie)
      (eq : s' = s.update (s.current cpu) fun t =>
        { t with waitTarget := pid, waitStatusPtr := statusPtr, state := .blocked }) :
      Effect cpu s s' (.waitpid frame pid statusPtr)
  | slept {ticks : ℕ} (eq : s' = s.schedulerSleep cpu ticks) : Effect cpu s s' (.sleep ticks)
  /-- a free slot was taken, and given back if something failed -/
  | born {op : SchedOp} (i : Slot) (only : Only i s s') (free : (s.threads i).state = .unused)
      (new : (s'.threads i).state = .unused ∨ (s'.threads i).state = .ready ∧
        ((s.threadCurrent cpu).Live → NewThread cpu s (s'.threads i))) : Effect cpu s s' op
  | moved {frame : ℕ} {re : Replies} (only : Only (s.current cpu) s s')
      (move : MovedTo re.pml4 (s.threadCurrent cpu) (s'.threads (s.current cpu))) :
      Effect cpu s s' (.execve frame re)
  | registered {stackBase stackSize : ℕ} (i : Slot)
      (new : Registered cpu stackBase stackSize i s s') :
      Effect cpu s s' (.register stackBase stackSize)

variable {op : SchedOp}

lemma schedulerFork_effect (s : Sched) (cpu : Cpu) (frame : ℕ) (re : Replies) :
    Effect cpu s (s.schedulerFork cpu frame re) op := by
  by_cases hcur : (s.threadCurrent cpu).Live
  · rcases schedulerFork_cases hcur frame re rfl with h | ⟨_, j, h | h⟩
    · rw [h]
      exact .quiet (setRax_same _)
    · exact .born j h.1.only h.1.free (Or.inl h.1.state)
    · exact .born j h.1.only h.1.free (Or.inr ⟨h.1.new.state, fun _ => h.1.new⟩)
  · rcases schedulerFork_slot s cpu frame re with h | ⟨i, honly, hfree, hslot⟩
    · rw [h]
      exact .quiet (setRax_same _)
    · exact .born i honly hfree (hslot.imp_right fun h => ⟨h, fun hlive => absurd hlive hcur⟩)

lemma execve_effect (s : Sched) (cpu : Cpu) (frame : ℕ) (re : Replies) :
    Effect cpu s (s.execve cpu frame re) (.execve frame re) := by
  rcases execve_cases re rfl with ⟨h, _⟩ | ⟨_, _, l, _, ⟨h, _⟩ | ⟨honly, hmoved, _⟩⟩
  · exact .quiet h
  · exact .quiet h
  · exact .moved honly hmoved

lemma reschedule_effect (s : Sched) (ticks : ℕ) (cpu : Cpu) {frame : ℕ}
    (hop : op = .tick frame ∨ op = .yield frame) :
    Effect cpu s ({ s with ticks := ticks }.reschedule cpu frame).2 op :=
  .switched hop _ (wakeSleepers_woken s ticks) (doSwitch_switched _ _ _ _)

lemma eq_ok {α : Type} {x : Except Sched α} {a : α} (h : x.toOption = some a) : x = .ok a := by
  cases x with
  | error => cases h
  | ok => cases h; rfl

lemma map_eq_ok {α : Type} {x : Except Sched Sched} {a b : α}
    (h : (x.map fun s => (a, s)) = .ok (b, s')) : x = .ok s' ∧ a = b := by
  cases x with
  | error => cases h
  | ok => cases h; exact ⟨rfl, rfl⟩

/-- What `scheduler_on_exit` does: it marks the running thread and goes over to another one. -/
lemma schedulerOnExit_cases {code : ℤ} {fr : ℕ}
    (h : s.schedulerOnExit cpu frame code = .ok (fr, s')) :
    ∃ s0 next, Marked (s.current cpu) s s0 ∧
      (next = s0.pickNext cpu ∧ next ≠ s.current cpu ∨
        next = 0 ∧ s0.pickNext cpu = s.current cpu ∧ (s0.threads 0).state ≠ .zombie) ∧
      s0.doSwitch cpu frame next = (fr, s') := by
  rw [schedulerOnExit] at h
  rcases hmark : (s.update (s.current cpu) fun t => { t with rsp := frame }).threadMarkZombie cpu
    (s.current cpu) code with s0 | s0
  · rw [hmark] at h
    cases h
  have hmarked : Marked (s.current cpu) s s0 := (threadMarkZombie_marked hmark).of_update rfl
  rw [hmark] at h
  dsimp only [Except.bind] at h
  split at h
  · rename_i hself
    split at h
    · cases h
    · rename_i hboot
      exact ⟨s0, 0, hmarked, Or.inr ⟨rfl, hself, hboot⟩, Except.ok.inj h⟩
  · rename_i hother
    exact ⟨s0, _, hmarked, Or.inl ⟨rfl, hother⟩, Except.ok.inj h⟩

lemma schedulerOnExit_effect {code : ℤ} {fr : ℕ}
    (h : s.schedulerOnExit cpu frame code = .ok (fr, s')) :
    Effect cpu s s' (.exit frame code) := by
  obtain ⟨s0, next, hmark, hpick, hswitch⟩ := schedulerOnExit_cases h
  have hs' := doSwitch_switched s0 cpu frame next
  rw [hswitch] at hs'
  exact .exited s0 next hmark hpick hs'

/-- What `scheduler_kill` does: nothing, or it marks another user thread that has not ended. -/
lemma schedulerKill_cases {pid sig : ℤ} {v : ℕ}
    (h : s.schedulerKill cpu pid sig = .ok (v, s')) :
    s' = s ∨ ∃ i, s.findThreadById pid = some i ∧ (s.threads i).Alive ∧
      (s.threads i).isUser = true ∧ i ≠ s.current cpu ∧ Marked i s s' := by
  rw [schedulerKill] at h
  split at h
  · cases h
    exact Or.inl rfl
  · rename_i target hfind
    split at h
    · cases h
      exact Or.inl rfl
    · rename_i huser
      split at h
      · cases h
        exact Or.inl rfl
      · rename_i hother
        split at h
        · cases h
          exact Or.inl rfl
        · rename_i halive
          obtain ⟨hmark, -⟩ := map_eq_ok h
          have hlive := findSlot_some hfind
          simp only [decide_eq_true_eq] at hlive
          exact Or.inr ⟨target, hfind, ⟨hlive.1, halive⟩, by simpa using huser, hother,
            threadMarkZombie_marked hmark⟩

lemma schedulerKill_effect {pid sig : ℤ} {v : ℕ}
    (h : s.schedulerKill cpu pid sig = .ok (v, s')) : Effect cpu s s' (.kill pid sig) := by
  rcases schedulerKill_cases h with rfl | ⟨i, hfind, halive, huser, hother, hmark⟩
  · exact .quiet ⟨rfl, rfl, rfl⟩
  · exact .killed i hfind halive huser hother hmark

lemma waitpidSection_effect {pid : ℤ} {statusPtr : ℕ} {b : Bool}
    (h : s.waitpidSection cpu frame pid statusPtr = some (b, s')) :
    Effect cpu s s' (.waitpid frame pid statusPtr) := by
  rcases waitpidSection_cases h with ⟨_, z, hfind, hchild, hzombie, honly, hunused, _⟩ |
    ⟨_, rfl⟩ |
    ⟨_, ⟨c, hchild, halive⟩, rfl⟩
  · exact .reaped z hfind hchild.parent hzombie honly hunused
  · exact .quiet (setRax_same _)
  · exact .blocked c hchild halive rfl

/-- What starting a program does: it fails somewhere, or a space is created and a thread for it. -/
lemma startProgram_cases {re : Replies} {o : Option Slot} (h : s.startProgram cpu re = (o, s')) :
    o = none ∧ (s.SameThreads s' ∨ ∃ i, Discarded i s s') ∨
      ∃ i l, o = some i ∧ re.pml4 ≠ 0 ∧ s.ledger.create re.pml4 = some l ∧ Spawned cpu i s s' ∧
        Made true re.pml4 re (s'.threads i) ∧
        s'.ledger = l.stackCall (.allocStack re.kstack kstackPages) := by
  rw [startProgram] at h
  rcases hc : s.vmmCreateUserSpace re.pml4 with ⟨x, s1⟩
  rw [hc] at h
  obtain ⟨hsame, _, hledger⟩ := vmmCreateUserSpace_cases hc
  dsimp only at h
  split at h
  · cases h
    exact Or.inl ⟨rfl, Or.inl hsame⟩
  · rename_i hx
    obtain ⟨rfl, hpml4, hcreate⟩ := hledger.resolve_left fun h => hx h.1
    split at h
    · cases h
      exact Or.inl ⟨rfl, Or.inl hsame⟩
    · rename_i entry brk _
      have hsame2 : s.SameThreads { s1 with
          umem := Function.update s.umem re.pml4 re.contents
          mapped := Function.update s.mapped re.pml4 re.pages } :=
        ⟨hsame.threads, hsame.current, hsame.rsp0⟩
      have hledger2 : ({ s1 with
          umem := Function.update s.umem re.pml4 re.contents
          mapped := Function.update s.mapped re.pml4 re.pages } : Sched).ledger = s1.ledger := rfl
      generalize { s1 with
        umem := Function.update s.umem re.pml4 re.contents
        mapped := Function.update s.mapped re.pml4 re.pages } = s2 at h hsame2 hledger2
      have hfree : ∀ i, (s2.threads i).state = .unused → (s.threads i).state = .unused := by
        intro i hi
        rwa [← hsame2.threads]
      rcases threadCreateUser_cases _ _ _ _ h with ⟨ho, rfl⟩ | ⟨i, ⟨ho, hd, _⟩ |
        ⟨ho, _, hs, hmade, hl⟩⟩
      · exact Or.inl ⟨ho, Or.inl hsame2⟩
      · exact Or.inl ⟨ho, Or.inr ⟨i, hsame2.only.trans hd.only, hfree i hd.free, hd.state⟩⟩
      · obtain ⟨hstate, hparent, hkstack, hrsp⟩ := hs.new
        refine Or.inr ⟨i, s1.ledger, ho, hpml4, hcreate, ⟨hsame2.only.trans hs.only,
          hfree i hs.free, hstate, ?_, hkstack, hrsp⟩, hmade, by rw [hl, hledger2]⟩
        rw [hparent, hsame2.current]

lemma startProgram_effect (s : Sched) (cpu : Cpu) (re : Replies) :
    Effect cpu s (s.startProgram cpu re).2 op := by
  rcases h : s.startProgram cpu re with ⟨o, s'⟩
  rcases startProgram_cases h with ⟨_, hsame | ⟨i, hd⟩⟩ | ⟨i, l, _, _, _, hs, _⟩
  · exact .quiet hsame
  · exact .born i hd.only hd.free (Or.inl hd.state)
  · exact .born i hs.only hs.free (Or.inr ⟨hs.new.state, fun _ => hs.new⟩)

lemma threadCreateKernel_effect (s : Sched) (cpu : Cpu) (trampoline fn arg : ℕ) (re : Replies) :
    Effect cpu s (s.threadCreateKernel cpu trampoline fn arg re).2 op := by
  rcases threadCreateKernel_cases trampoline fn arg re rfl with h | ⟨i, ⟨hd, _⟩ | ⟨hs, _⟩⟩
  · rw [h]
    exact .quiet ⟨rfl, rfl, rfl⟩
  · exact .born i hd.only hd.free (Or.inl hd.state)
  · exact .born i hs.only hs.free (Or.inr ⟨hs.new.state, fun _ => hs.new⟩)

lemma ended {α : Type} {x : Except Sched (α × Sched)} (h : (x.map Prod.snd).toOption = some s') :
    ∃ a, x = .ok (a, s') := by
  cases x with
  | error => cases h
  | ok r => cases h; exact ⟨r.1, rfl⟩

lemma exec_waitpid {pid : ℤ} {statusPtr : ℕ}
    (h : s.exec cpu (.waitpid frame pid statusPtr) = some s') :
    ∃ b, s.waitpidSection cpu frame pid statusPtr = some (b, s') := by
  rw [exec, outcome] at h
  rcases hwait : s.waitpidSection cpu frame pid statusPtr with _ | ⟨b, s1⟩
  all_goals rw [hwait] at h; cases h
  exact ⟨b, rfl⟩

/-- **Every section has one of these effects.** -/
theorem exec_effect (h : s.exec cpu op = some s') : Effect cpu s s' op := by
  cases op with
  | tick frame =>
    cases h
    exact reschedule_effect s _ cpu (Or.inl rfl)
  | yield frame =>
    cases h
    exact reschedule_effect s s.ticks cpu (Or.inr rfl)
  | fork frame re =>
    cases h
    exact schedulerFork_effect s cpu frame re
  | execve frame re =>
    cases h
    exact execve_effect s cpu frame re
  | exit frame code =>
    obtain ⟨fr, hexit⟩ := ended h
    exact schedulerOnExit_effect hexit
  | kill pid sig =>
    obtain ⟨v, hkill⟩ := ended h
    exact schedulerKill_effect hkill
  | waitpid frame pid statusPtr =>
    obtain ⟨b, hwait⟩ := exec_waitpid h
    exact waitpidSection_effect hwait
  | sleep ticks =>
    cases h
    exact .slept rfl
  | spawn re =>
    cases h
    exact startProgram_effect s cpu re
  | spawnKernel trampoline fn arg re =>
    cases h
    exact threadCreateKernel_effect s cpu trampoline fn arg re
  | register stackBase stackSize =>
    cases h
    rcases schedulerRegisterCpuBootstrap_cases stackBase stackSize rfl with h | ⟨i, h⟩
    · rw [h]
      exact .quiet ⟨rfl, rfl, rfl⟩
    · exact .registered i h
  | store va b =>
    cases h
    exact .quiet ⟨rfl, rfl, rfl⟩
  | trap frame f =>
    cases h
    exact .quiet ⟨rfl, rfl, rfl⟩

lemma Switched.alive (h : Switched cpu next s s')
    (hstay : next = s.current cpu → (s.threadCurrent cpu).Alive) :
    (s'.threadCurrent cpu).Alive := by
  have hnext : s'.current cpu = next := by rw [h.current, update_self]
  rw [threadCurrent, hnext, Thread.Alive, h.state next]
  split_ifs with heq hself
  · rw [heq]
    exact hstay heq
  · simp
  · exact absurd rfl hself
  · exact absurd rfl hself

lemma Effect.alive (heff : Effect cpu s s' op) (h : (s.threadCurrent cpu).Alive) :
    (s'.threadCurrent cpu).Alive := by
  have hsame : s'.current = s.current →
      (s.threadCurrent cpu).SameRun (s'.threads (s.current cpu)) → (s'.threadCurrent cpu).Alive := by
    intro hcur hrun
    rw [threadCurrent, hcur, Thread.Alive, hrun.state]
    exact h
  cases heff with
  | quiet hthreads => exact hsame hthreads.current (by rw [hthreads.threads]; exact .refl _)
  | switched _ s0 hwoken hswitch =>
    refine hswitch.alive fun _ => ?_
    rw [threadCurrent, hwoken.current]
    rcases hwoken.state (s.current cpu) with hstate | ⟨_, hready⟩
    · rw [Thread.Alive, hstate]
      exact h
    · simp [Thread.Alive, hready]
  | exited s0 next hmark hpick hswitch =>
    refine hswitch.alive fun hstay => ?_
    rw [hmark.current] at hstay
    -- the bootstrap thread is not taken when it is the one that ends
    rcases hpick with ⟨_, hother⟩ | ⟨rfl, _, hboot⟩
    · exact absurd hstay hother
    · exact absurd (hstay ▸ hmark.self) hboot
  | killed i _ _ _ hother hmark =>
    rw [threadCurrent, hmark.current]
    by_cases hw : (s.threads i).parent = some (s.current cpu) ∧
        (s.threadCurrent cpu).Awaits (s.threads i).id
    · simp [Thread.Alive, hmark.woken _ (Ne.symm hother) hw.1 hw.2]
    · rw [Thread.Alive, (hmark.others _ (Ne.symm hother) hw).1]
      exact h
  | reaped z _ _ hzombie honly _ =>
    refine hsame honly.current (honly.threads _ ?_)
    rintro rfl
    exact h.2 hzombie
  | blocked c _ _ heq => simp [heq, threadCurrent, Thread.Alive]
  | slept heq => simp [heq, threadCurrent, schedulerSleep, Thread.Alive]
  | born i honly hfree _ =>
    refine hsame honly.current (honly.threads _ ?_)
    rintro rfl
    exact h.1 hfree
  | moved honly hmove =>
    rw [threadCurrent, honly.current, Thread.Alive, hmove.state]
    exact h
  | registered i hr =>
    have hcur : s'.current cpu = i := by rw [hr.current, update_self]
    simp [threadCurrent, hcur, Thread.Alive, hr.running]

/-- A property of the threads that every effect preserves holds after every step. -/
lemma step_of_effect {I : Sched → Prop} {e : Cpu × SchedOp} (hI : I s)
    (heffect : ∀ s', s.exec e.1 e.2 = some s' → I s') : I (s.step e) := by
  rw [step]
  cases hexec : s.exec e.1 e.2 with
  | none => exact hI
  | some s' => exact heffect s' hexec

end Sched

/-! ## A machine to run examples on -/

/-- Some CPUs and four places for user spaces. -/
def smallSched (online : ℕ) : Sched where
  threads := fun _ => {}
  current := fun _ => 0
  nextId := 1
  cpuRr := 0
  online := online
  kspaceCr3 := 0x1000
  spaces := List.replicate 4 { cr3 := 0, refs := 0 }
  ticks := 0
  hz := 100
  frames := fun _ => {}
  rsp0 := fun _ => 0
  cr3 := fun _ => 0x1000
  umem := fun _ _ => 0
  mapped := fun _ _ => false
  calls := []

/-- Everything is granted: these pages for a space, a kernel stack and a user stack. -/
def grant (pml4 kstack ustack : ℕ) : Replies :=
  { pml4 := pml4, kstack := kstack, ustack := ustack, stackMapped := true, readable := true
    image := some (0x400000, 0x500000) }

/-- The state after some sections, from the start of the scheduler on. -/
def Sched.after (online : ℕ) (es : List (Cpu × SchedOp)) : Sched :=
  run Sched.step ((smallSched online).schedulerInit 0x2000 0x1000) es

end MyOs
