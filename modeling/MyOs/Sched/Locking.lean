import MyOs.Lib.Locks
import MyOs.Sched.Sections

/-!
# The lock of the scheduler

The other modules interleave whole sections.  On the machine the unit is a single access, and what makes a
section of it is `g_sched_lock`: `spinlock_lock` (`include/arch/x86_64/spinlock.h`) sets the word with
`__sync_lock_test_and_set` and reads it in a loop while it was set before, `spinlock_unlock` clears it.

`Implements` says that some code, in steps of any size, does what the sections do.  Run by any number of
processors in any order of steps, it leaves the tables as the sections do, one after the other
(`sections_atomic`), so that what holds after every run of sections holds on the machine.
-/

namespace MyOs

open Lib

/-- The calls of `scheduler.c` that are one section.  That of `scheduler_on_tick` is the section of
`scheduler_yield`; what a call stores to its own frame after the section is counted to it. -/
def SchedOp.underLock : SchedOp → Bool
  | .yield _ | .fork _ _ | .exit _ _ | .kill _ _ | .waitpid _ _ _ | .sleep _ => true
  | .spawnKernel _ _ _ _ | .register _ _ => true
  | _ => false

/-- A section under the lock. -/
abbrev LockedOp := { op : SchedOp // op.underLock = true }

namespace Sched

/-- The code does what the sections do: it ends in the same state, or does not end. -/
def Implements (code : Cpu → LockedOp → Code Sched) : Prop :=
  ∀ cpu op s, (code cpu op).run s = exec s cpu op.1

/-- The sections as steps of the model. -/
def sections (es : List (Cpu × LockedOp)) : List (Cpu × SchedOp) := es.map fun e => (e.1, e.2.1)

variable {code : Cpu → LockedOp → Code Sched} {s s' : Sched}

/-- Sections that end are steps of the model. -/
lemma run_of_serial (h : Implements code) {es : List (Cpu × LockedOp)}
    (hes : Spin.serial code s es = some s') : run step s (sections es) = s' := by
  induction es using List.reverseRecOn generalizing s' with
  | nil => exact Option.some.inj hes
  | append_singleton es e ih =>
    rw [Spin.serial_snoc, Option.bind_eq_some_iff] at hes
    obtain ⟨mid, hmid, hlast⟩ := hes
    rw [h] at hlast
    rw [sections, List.map_append, run_append, ← sections, ih hmid]
    exact congrArg (Option.getD · mid) hlast

/-- **The sections of the scheduler are atomic.**  Any number of processors run the code of sections under
the lock, in any order of single steps.  At most one of them is inside, and the lock is set just when one
is; when it is free, the tables are as after whole sections in the order in which they got the lock; when it
is held, they are on the way there; and every processor's sections come in the order of its calls. -/
theorem sections_atomic (h : Implements code) (s : Sched) (es : List (Cpu × LockedOp)) :
    let t := run (Spin.step code) (.start s) es
    (∀ c c' k k', t.place c = .inside k → t.place c' = .inside k' → c = c') ∧
      (t.locked = true ↔ ∃ c k, t.place c = .inside k) ∧
      (t.locked = false → t.shared = run step s (sections t.taken)) ∧
      (∀ c k s', t.place c = .inside k → k.run t.shared = some s' → s' = run step s (sections t.taken)) ∧
      ∀ c, t.called.filter (·.1 = c) = t.taken.filter (·.1 = c) ++ (t.place c).pending c := by
  intro t
  obtain ⟨hserial, horder⟩ := Spin.serial_run code s es
  cases hserial with
  | free hlock hout hstate =>
    refine ⟨fun c _ k _ hc => absurd hc (hout c k), ?_, fun _ => (run_of_serial h hstate).symm,
      fun c k _ hc => absurd hc (hout c k), horder⟩
    exact iff_of_false (by simp [t, hlock]) fun hin => hout _ _ hin.choose_spec.choose_spec
  | held c k hlock hin hout hstate =>
    have hself : ∀ c' k', t.place c' = .inside k' → c' = c :=
      fun c' k' hc' => not_not.mp fun hne => hout c' hne k' hc'
    refine ⟨fun c₁ c₂ k₁ k₂ h₁ h₂ => (hself c₁ k₁ h₁).trans (hself c₂ k₂ h₂).symm,
      iff_of_true hlock ⟨c, k, hin⟩, fun hfree => ?_, fun c' k' s' hc' hs' => ?_, horder⟩
    · exact absurd (hfree.symm.trans hlock) (by decide)
    · obtain rfl := hself c' k' hc'
      obtain rfl := Place.inside.inj (hc'.symm.trans hin)
      exact (run_of_serial h (hstate.trans hs')).symm

/-- A section in one step. -/
def wholeSection (cpu : Cpu) (op : LockedOp) : Code Sched :=
  .step (fun s => (s.exec cpu op.1).getD s) fun s => if (s.exec cpu op.1).isSome then .done else .halt

lemma wholeSection_implements : Implements wholeSection := by
  intro cpu op s
  simp only [wholeSection, Code.run]
  cases s.exec cpu op.1 <;> rfl

/-- Two processors: one waits while the other is inside. -/
theorem sections_atomic_two :
    let t := run (Spin.step wholeSection) (.start (after 2 []))
      [(0, ⟨.sleep 5, rfl⟩), (1, ⟨.sleep 5, rfl⟩), (0, ⟨.sleep 5, rfl⟩), (1, ⟨.sleep 5, rfl⟩)]
    t.locked = true ↔ ∃ c k, t.place c = .inside k :=
  (sections_atomic wholeSection_implements _ _).2.1

end Sched

end MyOs
