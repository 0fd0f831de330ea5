import MyOs.Sched.Sections

/-!
# Waiting before and after

A parent that calls `scheduler_waitpid` when its child has already ended collects it: it gets the id
and the exit code, and the child's slot and resources are freed (`waitpid_collects_zombie`).

A parent that calls it earlier is BLOCKED, and `thread_mark_zombie` wakes it when the child ends.  But
nobody goes back to the zombie then: the parent returns from its system call with the register it
called with, the status is stored through the page tables of the child, and the child keeps its slot
(`blocked_waitpid_never_collects`).
-/

namespace MyOs

open Lib Function

def SchedOp.isYield : SchedOp → Bool
  | .yield _ => true
  | _ => false

namespace Sched

variable {s s' : Sched} {cpu : Cpu} {c p : Slot} {frame statusPtr : ℕ} {pid : ℤ} {op : SchedOp}

/-- What waiting for the child `t` in slot `c` is to leave behind, the ledger having been `l`: the
parent `p` has the id in its frame and the exit code in its own space, and everything the child had
is released. -/
structure Collected (l : Ledger) (t : Thread) (c p : Slot) (frame statusPtr : ℕ) (s : Sched) :
    Prop where
  rax : (s.frames frame).rax = t.id
  status : statusPtr ≠ 0 →
    loadLE (s.umem (s.threads p).cr3) 4 statusPtr = (t.exitCode % 2 ^ 32).toNat
  slot : (s.threads c).state = .unused
  files : ∀ file ∈ t.openFiles, file ≠ 0 → .closeFile file ∈ s.calls
  ledger : s.ledger = reapLedger l t

/-! ## The child has ended before -/

lemma reap_umem (s : Sched) (frame : ℕ) (z : Slot) : (s.reap frame z).umem = s.umem := by
  have hrelease : ∀ (s : Sched) cr3, (s.vmmReleaseUserSpace cr3).umem = s.umem := fun s cr3 => by
    rw [vmmReleaseUserSpace]
    split <;> rfl
  have hreap : (s.reap frame z).umem = (s.threadReleaseResources z).umem := rfl
  rw [hreap, threadReleaseResources]
  split_ifs
  · exact hrelease _ _
  · rfl
  · exact hrelease _ _
  · rfl

lemma reap_files (s : Sched) (frame : ℕ) (z : Slot) :
    ∀ file ∈ (s.threads z).openFiles, file ≠ 0 → .closeFile file ∈ (s.reap frame z).calls := by
  intro file hfile hne
  simp only [reap, setRax_calls, update_calls, closeFiles, record_calls, List.mem_append,
    List.mem_reverse, List.mem_map]
  exact Or.inl ⟨file, List.mem_filter.mpr ⟨hfile, by simpa using hne⟩, rfl⟩

/-- **A zombie is collected.**  The caller runs in its own space, where `statusPtr` is mapped. -/
theorem waitpid_collects_zombie (hfind : s.findChild (s.current cpu) pid true = some c)
    (hcur : (s.threadCurrent cpu).state ≠ .zombie) (hcr3 : s.cr3 cpu = (s.threadCurrent cpu).cr3)
    (hmapped : statusPtr ≠ 0 → ∀ k < 4, s.mapped (s.cr3 cpu) (statusPtr + k) = true) :
    ∃ s', s.waitpidSection cpu frame pid statusPtr = some (false, s') ∧
      Collected s.ledger (s.threads c) c (s.current cpu) frame statusPtr s' := by
  obtain ⟨hchild, hzombie⟩ := findChild_some hfind
  have hne : s.current cpu ≠ c := by
    rintro rfl
    exact hcur (hzombie rfl)
  -- the status is stored through the page tables of the caller
  obtain ⟨s1, hstore, hthreads, hledger, hstatus⟩ : ∃ s1,
      (if statusPtr ≠ 0 then s.storeInt cpu statusPtr (s.threads c).exitCode else some s) = some s1 ∧
        s1.threads = s.threads ∧ s1.ledger = s.ledger ∧ (statusPtr ≠ 0 →
          loadLE (s1.umem (s.cr3 cpu)) 4 statusPtr = ((s.threads c).exitCode % 2 ^ 32).toNat) := by
    by_cases hptr : statusPtr = 0
    · exact ⟨s, by simp [hptr], rfl, rfl, fun h => absurd hptr h⟩
    · rw [if_pos hptr, storeInt, if_pos (by simpa using hmapped hptr)]
      refine ⟨_, rfl, rfl, rfl, fun _ => ?_⟩
      dsimp only
      rw [update_self, loadLE_storeLE, Nat.mod_eq_of_lt]
      have := Int.emod_lt_of_pos (s.threads c).exitCode (show (0 : ℤ) < 2 ^ 32 by norm_num)
      omega
  refine ⟨s1.reap frame c, by simp only [waitpidSection, hfind, hstore]; rfl, ?_⟩
  obtain ⟨honly, hunused, hreaped⟩ := reap_effect s1 frame c
  refine ⟨?_, fun hptr => ?_, hunused, fun file hfile => ?_, ?_⟩
  · simp [reap, hthreads]
  · rw [reap_umem, Thread.cr3_eq (honly.threads _ hne).identity, hthreads, ← hstatus hptr, hcr3]
    rfl
  · exact reap_files s1 frame c file (by rwa [hthreads])
  · rw [hreaped, hledger, hthreads]

/-! ## The child has not ended yet -/

/-- A thread in use stays in use, and the child of its parent, until its parent reaps it. -/
lemma Effect.survives (heff : Effect cpu s s' op) (hc : (s.threads c).Live) :
    (s'.threads c).Live ∧ (s'.threads c).parent = (s.threads c).parent ∨
      (s.threads c).parent = some (s.current cpu) ∧ ∃ frame pid statusPtr,
        op = .waitpid frame pid statusPtr := by
  have hmarked : ∀ {i s0}, Marked i s s0 → (s0.threads c).Live ∧
      (s0.threads c).parent = (s.threads c).parent := by
    intro i s0 hm
    refine ⟨?_, Thread.parent_eq (hm.identity c)⟩
    rcases eq_or_ne c i with rfl | hci
    · simp [Thread.Live, hm.self]
    · by_cases hw : (s.threads i).parent = some c ∧ (s.threads c).Awaits (s.threads i).id
      · simp [Thread.Live, hm.woken c hci hw.1 hw.2]
      · rwa [Thread.Live, (hm.others c hci hw).1]
  have hswitched : ∀ {s0 next}, (s0.threads c).Live ∧ (s0.threads c).parent = (s.threads c).parent →
      Switched cpu next s0 s' → (s'.threads c).Live ∧ (s'.threads c).parent = (s.threads c).parent := by
    rintro s0 next ⟨hlive, hparent⟩ hs
    refine ⟨?_, (Thread.parent_eq (hs.identity c)).trans hparent⟩
    rw [Thread.Live, hs.state c]
    split_ifs <;> first | exact hlive | simp
  have hsame : (s.threads c).SameRun (s'.threads c) → (s'.threads c).Live ∧
      (s'.threads c).parent = (s.threads c).parent := fun h =>
    ⟨by rwa [Thread.Live, h.state], Thread.parent_eq h.identity⟩
  cases heff with
  | quiet h => exact Or.inl (hsame (by rw [h.threads]; exact .refl _))
  | switched _ s0 hwoken hswitch =>
    exact Or.inl (hswitched ⟨hwoken.keeps.live.mpr hc, Thread.parent_eq (hwoken.identity c)⟩ hswitch)
  | exited s0 next hmark _ hswitch => exact Or.inl (hswitched (hmarked hmark) hswitch)
  | killed i _ _ _ _ hmark => exact Or.inl (hmarked hmark)
  | reaped z _ hparent _ honly _ =>
    rcases eq_or_ne c z with rfl | hcz
    · exact Or.inr ⟨hparent, _, _, _, rfl⟩
    · exact Or.inl (hsame (honly.threads c hcz))
  | blocked z _ _ heq =>
    rw [heq]
    rcases eq_or_ne c (s.current cpu) with rfl | hcc
    · simp
    · simp [update_of_ne hcc, hc]
  | slept heq =>
    rw [heq]
    rcases eq_or_ne c (s.current cpu) with rfl | hcc
    · simp [schedulerSleep]
    · simp [schedulerSleep, update_of_ne hcc, hc]
  | born i honly hfree _ =>
    refine Or.inl (hsame (honly.threads c ?_))
    rintro rfl
    exact hc hfree
  | moved honly hmove =>
    rcases eq_or_ne c (s.current cpu) with rfl | hcc
    · refine Or.inl ⟨?_, congrArg Identity.parent hmove.identity⟩
      rw [Thread.Live, hmove.state]
      exact hc
    · exact Or.inl (hsame (honly.threads c hcc))
  | registered i hr =>
    refine Or.inl (hsame (hr.threads c ?_))
    rintro rfl
    exact hc hr.free

/-- **A wait that blocks never collects its child.**  Whatever the other threads do until the parent
runs again, and however its child ends, the child keeps its slot; all the parent does meanwhile is
the yield that its wait ends with. -/
theorem blocked_waitpid_never_collects (s s₁ : Sched) (cpu : Cpu) (frame : ℕ) (pid : ℤ)
    (statusPtr : ℕ) (hblock : s.waitpidSection cpu frame pid statusPtr = some (true, s₁)) (c : Slot)
    (hc : s.Child (s.current cpu) pid c) (es : List (Cpu × SchedOp))
    (hes : Admissible (fun t e => t.current e.1 = s.current cpu → e.2.isYield = true) step s₁ es)
    (l : Ledger) (t : Thread) :
    ¬ Collected l t c (s.current cpu) frame statusPtr (run step s₁ es) := by
  have hstep : ∀ (t : Sched) (e : Cpu × SchedOp),
      (t.threads c).Live ∧ (t.threads c).parent = some (s.current cpu) →
      (t.current e.1 = s.current cpu → e.2.isYield = true) →
      ((t.step e).threads c).Live ∧ ((t.step e).threads c).parent = some (s.current cpu) := by
    rintro t e ⟨hlive, hparent⟩ hwaits
    refine step_of_effect (I := fun t' => (t'.threads c).Live ∧
      (t'.threads c).parent = some (s.current cpu)) ⟨hlive, hparent⟩ fun t' hexec => ?_
    rcases (exec_effect hexec).survives hlive with ⟨hlive', hparent'⟩ | ⟨hreaper, fr, q, ptr, hop⟩
    · exact ⟨hlive', hparent'.trans hparent⟩
    · have hyield := hwaits (Option.some.inj (hreaper.symm.trans hparent))
      simp [hop, SchedOp.isYield] at hyield
  have hinit : (s₁.threads c).Live ∧ (s₁.threads c).parent = some (s.current cpu) := by
    rcases waitpidSection_cases hblock with ⟨hfalse, _⟩ | ⟨hfalse, _⟩ | ⟨_, _, rfl⟩
    · cases hfalse
    · cases hfalse
    · rcases eq_or_ne c (s.current cpu) with rfl | hcc
      · simpa using hc.parent
      · simpa [update_of_ne hcc] using ⟨hc.live, hc.parent⟩
  intro hcollected
  exact (run_invariant hstep hinit hes).1 hcollected.slot

/-- Thread 1, in a space where everything is mapped, forks thread 2. -/
def parentAndChild : List (Cpu × SchedOp) :=
  [(0, .spawn { grant 0x5000 0x10000 0x20000 with pages := fun _ => true }), (0, .tick 0x2f00),
    (0, .fork 0x13f50 (grant 0 0x14000 0))]

/-- The child is killed, and thread 1 waits for it. -/
def endsFirst : List (Cpu × SchedOp) :=
  parentAndChild ++ [(0, .kill 2 9), (0, .trap 0x13f50 { rax := sysWaitpid, rsi := 0x8000700000 }),
    (0, .waitpid 0x13f50 (-1) 0x8000700000)]

theorem waitpid_collects_killed_child :
    let s := after 1 (parentAndChild ++ [(0, .kill 2 9)])
    ∃ s', s.waitpidSection 0 0x13f50 (-1) 0x8000700000 = some (false, s') ∧
      Collected s.ledger (s.threads 2) 2 (s.current 0) 0x13f50 0x8000700000 s' := by
  intro s
  have h : s.findChild (s.current 0) (-1) true = some 2 ∧ (s.threadCurrent 0).state ≠ .zombie ∧
      s.cr3 0 = (s.threadCurrent 0).cr3 ∧ ∀ k < 4, s.mapped (s.cr3 0) (0x8000700000 + k) = true := by
    decide +kernel
  exact waitpid_collects_zombie h.1 h.2.1 h.2.2.1 fun _ => h.2.2.2

/-- Thread 1 is about to wait for its child. -/
def aboutToWait : List (Cpu × SchedOp) :=
  parentAndChild ++ [(0, .trap 0x13f50 { rax := sysWaitpid, rsi := 0x8000700000 })]

/-- The child gets a space of its own and exits with the same code, and thread 1 is resumed. -/
def childEnds : List (Cpu × SchedOp) :=
  [(0, .yield 0x13f50), (0, .tick 0x2f00),
    (0, .execve 0x17f50 { grant 0x6000 0 0x30000 with pages := fun _ => true }),
    (0, .exit 0x17f50 (-9)), (0, .tick 0x2f00)]

/-- Waiting after the end: id 2, code -9, slot free.  Waiting before: the number of the system call, no
code but in the space of the child, slot taken. -/
theorem waitpid_order_matters :
    (((after 1 endsFirst).frames 0x13f50).rax = 2 ∧
        loadLE ((after 1 endsFirst).umem 0x5000) 4 0x8000700000 = 2 ^ 32 - 9 ∧
        ((after 1 endsFirst).threads 2).state = .unused) ∧
      (after 1 (aboutToWait ++ (0, .waitpid 0x13f50 (-1) 0x8000700000) :: childEnds)).current 0 = 1 ∧
      ((after 1 (aboutToWait ++ (0, .waitpid 0x13f50 (-1) 0x8000700000) :: childEnds)).frames
        0x13f50).rax = 7 ∧
      loadLE ((after 1 (aboutToWait ++ (0, .waitpid 0x13f50 (-1) 0x8000700000) :: childEnds)).umem
        0x5000) 4 0x8000700000 = 0 ∧
      loadLE ((after 1 (aboutToWait ++ (0, .waitpid 0x13f50 (-1) 0x8000700000) :: childEnds)).umem
        0x6000) 4 0x8000700000 = 2 ^ 32 - 9 ∧
      ((after 1 (aboutToWait ++ (0, .waitpid 0x13f50 (-1) 0x8000700000) :: childEnds)).threads 2).state =
        .zombie := by
  decide +kernel

theorem blocked_waitpid_never_collects_child :
    ∃ s₁, (after 1 aboutToWait).waitpidSection 0 0x13f50 (-1) 0x8000700000 = some (true, s₁) ∧
      (run step s₁ childEnds).current 0 = 1 ∧ ∀ l t,
        ¬ Collected l t 2 ((after 1 aboutToWait).current 0) 0x13f50 0x8000700000
          (run step s₁ childEnds) := by
  have hrun : ((after 1 aboutToWait).waitpidSection 0 0x13f50 (-1) 0x8000700000).map (fun r =>
      (r.1, decide ((run step r.2 childEnds).current 0 = 1 ∧
        Admissible (fun t e => t.current e.1 = (after 1 aboutToWait).current 0 →
          e.2.isYield = true) step r.2 childEnds))) = some (true, true) := by decide +kernel
  have hchild : ((after 1 aboutToWait).threads 2).Live ∧
      ((after 1 aboutToWait).threads 2).parent = some ((after 1 aboutToWait).current 0) := by
    decide +kernel
  generalize after 1 aboutToWait = s at hrun hchild ⊢
  obtain ⟨⟨b, s₁⟩, hblock, heq⟩ := Option.map_eq_some_iff.mp hrun
  obtain ⟨rfl, hdec⟩ := Prod.mk.inj heq
  generalize childEnds = es at hdec ⊢
  obtain ⟨hresumed, hes⟩ := of_decide_eq_true hdec
  have hc : s.Child (s.current 0) (-1) 2 := ⟨hchild.1, hchild.2, fun h => absurd h (by decide)⟩
  exact ⟨s₁, hblock, hresumed,
    blocked_waitpid_never_collects s s₁ 0 0x13f50 (-1) 0x8000700000 hblock 2 hc es hes⟩

end Sched

end MyOs
