import Mathlib.Tactic

/-!
# Interrupt masks and nested handlers

`irq_enter` saves the PIC's mask and the current priority on two stacks of eight levels, masks every
line that is not more urgent than the one it serves, and lets interrupts in again; `irq_exit` takes both
values back.  At the limit `irq_enter` declines and saves nothing, but the `irq_exit` that belongs to it
takes a level back all the same.

A `Sequence` is a well-nested sequence of the two calls, as `interrupt_dispatch` makes them: each
interrupt served may be interrupted, any number of times, before its `irq_exit`.  `Sequence.Correct` is
what the masks are for.  Sequences of up to eight levels are correct (`Sequence.correct_of_depth`).  In
a full stack of rising priorities any further interrupt goes wrong (`Sequence.eq_done_of_full`), so that
among the sequences that the priorities allow no others are.
-/

namespace MyOs

open Function

/-! ## The PIC -/

/-- The mask registers of the two controllers. -/
structure Pic where
  master : BitVec 8
  slave : BitVec 8
deriving DecidableEq

def Pic.picGetMask (p : Pic) : BitVec 16 :=
  p.master.setWidth 16 ||| (p.slave.setWidth 16 <<< 8)

def picSetMaskAll (mask : BitVec 16) : Pic where
  master := (mask &&& 0xFF#16).setWidth 8
  slave := ((mask >>> 8) &&& 0xFF#16).setWidth 8

lemma getLsbD_lowByte (i : ℕ) : (0xFF#16).getLsbD i = decide (i < 8) := by
  rw [show (0xFF#16) = (BitVec.allOnes 8).setWidth 16 from rfl, BitVec.getLsbD_setWidth,
    BitVec.getLsbD_allOnes]
  simp only [Bool.and_eq_right_iff_imp, decide_eq_true_eq]
  omega

@[simp] lemma picGetMask_picSetMaskAll (mask : BitVec 16) : (picSetMaskAll mask).picGetMask = mask := by
  refine BitVec.eq_of_getLsbD_eq fun i hi => ?_
  simp only [Pic.picGetMask, picSetMaskAll, BitVec.getLsbD_or, BitVec.getLsbD_setWidth,
    BitVec.getLsbD_shiftLeft, BitVec.getLsbD_and, BitVec.getLsbD_ushiftRight, getLsbD_lowByte]
  rcases Nat.lt_or_ge i 8 with h | h
  · simp [h, hi]
  · have h1 : ¬ i < 8 := by omega
    have h2 : i - 8 < 8 := by omega
    have h3 : i - 8 < 16 := by omega
    simp [h1, h2, h3, hi, Nat.add_sub_cancel' h]

/-! ## `irq_enter` and `irq_exit` -/

def irqMax : ℕ := 16

def irqNestLimit : ℕ := 8

/-- The variables of the interrupt code, the PIC, and whether the CPU takes interrupts. -/
structure Irq where
  irqPriorities : ℕ → BitVec 8
  irqMaskStack : ℕ → BitVec 16
  irqPrioStack : ℕ → BitVec 8
  irqNesting : ℕ
  currentPriority : BitVec 8
  pic : Pic
  interrupts : Bool

namespace Irq

/-- The state `irq_init` leaves, once interrupts are enabled; the PIC is as it was. -/
def irqInit (pic : Pic) : Irq where
  irqPriorities i := BitVec.ofNat 8 i
  irqMaskStack _ := 0#16
  irqPrioStack _ := 0#8
  irqNesting := 0
  currentPriority := 0xFF#8
  pic := pic
  interrupts := true

/-- The loop of `irq_enter`: the bits of the lines whose priority is at least `prio` are set. -/
def newMask (s : Irq) (prio : BitVec 8) (mask : BitVec 16) : ℕ → BitVec 16
  | 0 => mask
  | i + 1 =>
    if prio ≤ s.irqPriorities i then s.newMask prio mask i ||| (1#16 <<< i) else s.newMask prio mask i

def irqEnter (s : Irq) (irq : ℕ) : Irq :=
  if irqMax ≤ irq then s
  else if irqNestLimit ≤ s.irqNesting then s
  else
    let prevMask := s.pic.picGetMask
    let prio := s.irqPriorities irq
    { s with
      irqMaskStack := Function.update s.irqMaskStack s.irqNesting prevMask
      irqPrioStack := Function.update s.irqPrioStack s.irqNesting s.currentPriority
      irqNesting := s.irqNesting + 1
      currentPriority := prio
      pic := picSetMaskAll (s.newMask prio prevMask irqMax)
      interrupts := true }

def irqExit (s : Irq) : Irq :=
  if s.irqNesting = 0 then s
  else
    { s with
      irqNesting := s.irqNesting - 1
      currentPriority := s.irqPrioStack (s.irqNesting - 1)
      pic := picSetMaskAll (s.irqMaskStack (s.irqNesting - 1))
      interrupts := decide (0 < s.irqNesting - 1) }

def cpuCli (s : Irq) : Irq :=
  { s with interrupts := false }

end Irq

/-! ## Well-nested sequences -/

/-- A well-nested sequence of `irq_enter` and `irq_exit`: nothing, or a first interrupt, what
interrupts its handler, and what comes after its exit. -/
inductive Sequence
  | done
  | handle (irq : ℕ) (inner rest : Sequence)

namespace Sequence

/-- The interrupts of a sequence, served as `interrupt_dispatch` does. -/
def run (s : Irq) : Sequence → Irq
  | done => s
  | handle irq inner rest => run (run (s.irqEnter irq) inner).cpuCli.irqExit rest

/-- How many handlers are under way at a time, at most. -/
def depth : Sequence → ℕ
  | done => 0
  | handle _ inner rest => max (inner.depth + 1) rest.depth

/-- The PIC has sixteen lines. -/
def InRange : Sequence → Prop
  | done => True
  | handle irq inner rest => irq < irqMax ∧ inner.InRange ∧ rest.InRange

/-- What the priorities allow: a handler, `running`, is interrupted by a more urgent line only. -/
def Rising (priorities : ℕ → BitVec 8) : Option ℕ → Sequence → Prop
  | _, done => True
  | running, handle irq inner rest =>
    (∀ r ∈ running, priorities irq < priorities r) ∧ inner.Rising priorities (some irq) ∧
      rest.Rising priorities running

end Sequence

/-- Every line that is not more urgent than the line of the running handler is masked. -/
def Irq.Covers (s : Irq) (running : Option ℕ) : Prop :=
  ∀ r ∈ running, ∀ i < irqMax, s.irqPriorities r ≤ s.irqPriorities i → s.pic.picGetMask.getLsbD i = true

/-- The handler `running` finds the lines masked that it may not be interrupted by, whenever it runs;
each exit takes the mask and the priority back to what they were before the matching entry. -/
def Sequence.Correct : Option ℕ → Irq → Sequence → Prop
  | running, s, .done => s.Covers running
  | running, s, .handle irq inner rest =>
    s.Covers running ∧ inner.Correct (some irq) (s.irqEnter irq) ∧
      (inner.run (s.irqEnter irq)).cpuCli.irqExit.pic.picGetMask = s.pic.picGetMask ∧
      (inner.run (s.irqEnter irq)).cpuCli.irqExit.currentPriority = s.currentPriority ∧
      rest.Correct running (inner.run (s.irqEnter irq)).cpuCli.irqExit

instance (s : Irq) (running : Option ℕ) : Decidable (s.Covers running) :=
  inferInstanceAs (Decidable (∀ r ∈ running, _))

instance Sequence.decidableInRange : ∀ seq : Sequence, Decidable seq.InRange
  | .done => isTrue trivial
  | .handle _ inner rest =>
    @instDecidableAnd _ _ inferInstance
      (@instDecidableAnd _ _ (decidableInRange inner) (decidableInRange rest))

instance Sequence.decidableRising (priorities : ℕ → BitVec 8) :
    ∀ (running : Option ℕ) (seq : Sequence), Decidable (seq.Rising priorities running)
  | _, .done => isTrue trivial
  | running, .handle irq inner rest =>
    @instDecidableAnd _ _ inferInstance (@instDecidableAnd _ _
      (decidableRising priorities (some irq) inner) (decidableRising priorities running rest))

instance Sequence.decidableCorrect :
    ∀ (running : Option ℕ) (s : Irq) (seq : Sequence), Decidable (seq.Correct running s)
  | running, s, .done => inferInstanceAs (Decidable (s.Covers running))
  | running, s, .handle irq inner rest =>
    @instDecidableAnd _ _ inferInstance (@instDecidableAnd _ _
      (decidableCorrect (some irq) (s.irqEnter irq) inner) (@instDecidableAnd _ _ inferInstance
        (@instDecidableAnd _ _ inferInstance (decidableCorrect running _ rest))))

/-! ## One call -/

section

variable {s t u : Irq} {irq : ℕ} {running : Option ℕ}

lemma Irq.getLsbD_newMask (s : Irq) (prio : BitVec 8) (mask : BitVec 16) {n i : ℕ} (hn : n ≤ 16)
    (hi : i < n) (h : prio ≤ s.irqPriorities i) : (s.newMask prio mask n).getLsbD i = true := by
  induction n with
  | zero => omega
  | succ n ih =>
    rw [Irq.newMask]
    rcases Nat.lt_succ_iff_lt_or_eq.mp hi with hlt | rfl
    · split_ifs
      · rw [BitVec.getLsbD_or, ih (by omega) hlt, Bool.true_or]
      · exact ih (by omega) hlt
    · rw [if_pos h, BitVec.getLsbD_or, BitVec.getLsbD_shiftLeft]
      simp [show i < 16 by omega]

lemma Irq.irqEnter_of_full (s : Irq) (irq : ℕ) (h : irqNestLimit ≤ s.irqNesting) : s.irqEnter irq = s := by
  rw [Irq.irqEnter, if_pos h, ite_self]

lemma Irq.irqEnter_of_room (hirq : irq < irqMax) (h : s.irqNesting < irqNestLimit) :
    s.irqEnter irq =
      { s with
        irqMaskStack := Function.update s.irqMaskStack s.irqNesting s.pic.picGetMask
        irqPrioStack := Function.update s.irqPrioStack s.irqNesting s.currentPriority
        irqNesting := s.irqNesting + 1
        currentPriority := s.irqPriorities irq
        pic := picSetMaskAll (s.newMask (s.irqPriorities irq) s.pic.picGetMask irqMax)
        interrupts := true } := by
  rw [Irq.irqEnter, if_neg (by omega), if_neg (by omega)]

lemma Irq.covers_irqEnter (hirq : irq < irqMax) (h : s.irqNesting < irqNestLimit) :
    (s.irqEnter irq).Covers (some irq) := by
  intro r hr i hi hle
  rw [← Option.some.inj hr, Irq.irqEnter_of_room hirq h] at hle
  rw [Irq.irqEnter_of_room hirq h]
  rw [picGetMask_picSetMaskAll]
  exact s.getLsbD_newMask _ _ le_rfl hi hle

/-- All that the interrupt code depends on is in `t` as it was in `s`: what is above the top of the
stacks does not count. -/
structure Irq.Restored (s t : Irq) : Prop where
  irqPriorities : t.irqPriorities = s.irqPriorities
  irqMaskStack : ∀ k < s.irqNesting, t.irqMaskStack k = s.irqMaskStack k
  irqPrioStack : ∀ k < s.irqNesting, t.irqPrioStack k = s.irqPrioStack k
  irqNesting : t.irqNesting = s.irqNesting
  currentPriority : t.currentPriority = s.currentPriority
  picGetMask : t.pic.picGetMask = s.pic.picGetMask

lemma Irq.Restored.refl (s : Irq) : s.Restored s :=
  ⟨rfl, fun _ _ => rfl, fun _ _ => rfl, rfl, rfl, rfl⟩

lemma Irq.Restored.trans (h : s.Restored t) (h' : t.Restored u) : s.Restored u where
  irqPriorities := h'.irqPriorities.trans h.irqPriorities
  irqMaskStack k hk := (h'.irqMaskStack k (h.irqNesting ▸ hk)).trans (h.irqMaskStack k hk)
  irqPrioStack k hk := (h'.irqPrioStack k (h.irqNesting ▸ hk)).trans (h.irqPrioStack k hk)
  irqNesting := h'.irqNesting.trans h.irqNesting
  currentPriority := h'.currentPriority.trans h.currentPriority
  picGetMask := h'.picGetMask.trans h.picGetMask

lemma Irq.Restored.covers (h : s.Restored t) (hs : s.Covers running) : t.Covers running := by
  intro r hr i hi hle
  rw [h.irqPriorities] at hle
  rw [h.picGetMask]
  exact hs r hr i hi hle

/-- **An exit undoes the matching entry**, if the handler left the state as it found it. -/
lemma Irq.Restored.irqExit (hirq : irq < irqMax) (hroom : s.irqNesting < irqNestLimit)
    (h : (s.irqEnter irq).Restored t) : s.Restored t.cpuCli.irqExit := by
  rw [Irq.irqEnter_of_room hirq hroom] at h
  have hnesting : t.cpuCli.irqNesting = s.irqNesting + 1 := h.irqNesting
  have hmask := (h.irqMaskStack s.irqNesting (Nat.lt_succ_self _)).trans (update_self ..)
  have hprio := (h.irqPrioStack s.irqNesting (Nat.lt_succ_self _)).trans (update_self ..)
  rw [Irq.irqExit, if_neg (by omega), hnesting, Nat.add_sub_cancel]
  refine ⟨h.irqPriorities, fun k hk => ?_, fun k hk => ?_, rfl, hprio, ?_⟩
  · exact (h.irqMaskStack k (Nat.lt_succ_of_lt hk)).trans (update_of_ne hk.ne _ _)
  · exact (h.irqPrioStack k (Nat.lt_succ_of_lt hk)).trans (update_of_ne hk.ne _ _)
  · exact (picGetMask_picSetMaskAll _).trans hmask

end

/-! ## Whole sequences -/

namespace Sequence

/-- **Up to eight levels the masks nest.** -/
theorem correct_of_depth {seq : Sequence} {s : Irq} {running : Option ℕ} (hseq : seq.InRange)
    (hdepth : s.irqNesting + seq.depth ≤ irqNestLimit) (hs : s.Covers running) :
    seq.Correct running s ∧ s.Restored (seq.run s) := by
  induction seq generalizing s running with
  | done => exact ⟨hs, .refl s⟩
  | handle irq inner rest ihInner ihRest =>
    obtain ⟨hirq, hinner, hrest⟩ := hseq
    rw [depth] at hdepth
    have hroom : s.irqNesting < irqNestLimit := by omega
    have hentered : (s.irqEnter irq).irqNesting = s.irqNesting + 1 := by
      rw [Irq.irqEnter_of_room hirq hroom]
    obtain ⟨hcorrect, hback⟩ := ihInner hinner (by omega) (Irq.covers_irqEnter hirq hroom)
    have hleft := hback.irqExit hirq hroom
    obtain ⟨hcorrect', hback'⟩ := ihRest hrest (by rw [hleft.irqNesting]; omega) (hleft.covers hs)
    exact ⟨⟨hs, hcorrect, hleft.picGetMask, hleft.currentPriority, hcorrect'⟩, hleft.trans hback'⟩

/-- With a full stack on which the priority before the last entry was another one, no interrupt can be
served correctly: its entry is declined, and its exit takes back that priority. -/
lemma eq_done_of_full {seq : Sequence} {s : Irq} {running : Option ℕ} (hfull : s.irqNesting = irqNestLimit)
    (hprio : s.irqPrioStack 7 ≠ s.currentPriority) (h : seq.Correct running s) : seq = done := by
  induction seq generalizing running with
  | done => rfl
  | handle irq inner rest ihInner ihRest =>
    obtain ⟨-, hinner, -, hcurrent, -⟩ := h
    rw [s.irqEnter_of_full irq hfull.ge] at hinner hcurrent
    rw [ihInner hinner, run, Irq.irqExit] at hcurrent
    rw [if_neg (by rw [Irq.cpuCli, hfull]; decide), Irq.cpuCli, hfull] at hcurrent
    exact absurd hcurrent hprio

end Sequence

/-- The state inside the handler `running`, where each handler was more urgent than the one it
interrupted: the priority saved last is a greater number than the current one. -/
def Irq.Runs (s : Irq) : Option ℕ → Prop
  | none => s.irqNesting = 0
  | some r => 0 < s.irqNesting ∧ s.currentPriority = s.irqPriorities r ∧
      (2 ≤ s.irqNesting → s.currentPriority < s.irqPrioStack (s.irqNesting - 1))

lemma Irq.Runs.irqEnter {s : Irq} {irq : ℕ} {running : Option ℕ} (hs : s.Runs running) (hirq : irq < irqMax)
    (hroom : s.irqNesting < irqNestLimit) (hrise : ∀ r ∈ running, s.irqPriorities irq < s.irqPriorities r) :
    (s.irqEnter irq).Runs (some irq) := by
  rw [Irq.irqEnter_of_room hirq hroom]
  refine ⟨Nat.succ_pos _, rfl, fun h => ?_⟩
  simp only [Nat.add_sub_cancel, update_self] at h ⊢
  cases running with
  | none =>
    have hidle : s.irqNesting = 0 := hs
    omega
  | some r =>
    rw [hs.2.1]
    exact hrise r rfl

lemma Irq.Restored.runs {s t : Irq} {running : Option ℕ} (h : s.Restored t) (hs : s.Runs running) :
    t.Runs running := by
  cases running with
  | none => exact h.irqNesting.trans hs
  | some r =>
    obtain ⟨hpos, hcurrent, hlast⟩ := hs
    refine ⟨h.irqNesting ▸ hpos, ?_, fun h2 => ?_⟩
    · rw [h.currentPriority, h.irqPriorities, hcurrent]
    · rw [h.irqNesting] at h2 ⊢
      rw [h.currentPriority, h.irqPrioStack _ (by omega)]
      exact hlast h2

namespace Sequence

/-- **Deeper sequences are not correct**, where handlers are interrupted by more urgent lines only. -/
theorem depth_of_correct {seq : Sequence} {s : Irq} {running : Option ℕ} (hseq : seq.InRange)
    (hrise : seq.Rising s.irqPriorities running) (hs : s.Runs running) (hroom : s.irqNesting ≤ irqNestLimit)
    (h : seq.Correct running s) : s.irqNesting + seq.depth ≤ irqNestLimit := by
  induction seq generalizing s running with
  | done => exact hroom
  | handle irq inner rest ihInner ihRest =>
    rcases hroom.lt_or_eq with hlt | hfull
    · obtain ⟨hirq, hinner, hrest⟩ := hseq
      obtain ⟨hurgent, hriseInner, hriseRest⟩ := hrise
      obtain ⟨-, hcorrect, -, -, hcorrect'⟩ := h
      have hentered : (s.irqEnter irq).irqNesting = s.irqNesting + 1 := by
        rw [Irq.irqEnter_of_room hirq hlt]
      have hprio : (s.irqEnter irq).irqPriorities = s.irqPriorities := by
        rw [Irq.irqEnter_of_room hirq hlt]
      have hdepthInner := ihInner hinner (hprio ▸ hriseInner) (hs.irqEnter hirq hlt hurgent)
        (by omega) hcorrect
      -- the handler was correct, so its exit brought back the state before it
      have hleft : s.Restored (inner.run (s.irqEnter irq)).cpuCli.irqExit :=
        (correct_of_depth hinner hdepthInner (Irq.covers_irqEnter hirq hlt)).2.irqExit hirq hlt
      have hdepthRest := ihRest hrest (hleft.irqPriorities ▸ hriseRest) (hleft.runs hs)
        (hleft.irqNesting ▸ hroom) hcorrect'
      rw [hleft.irqNesting] at hdepthRest
      rw [depth]
      omega
    · have hprio : s.irqPrioStack 7 ≠ s.currentPriority := by
        cases running with
        | none => exact absurd hfull (by rw [show s.irqNesting = 0 from hs]; decide)
        | some r =>
          have hlast := hs.2.2 (by rw [hfull]; decide)
          rw [hfull] at hlast
          exact fun heq => absurd hlast (by rw [← heq]; exact BitVec.lt_irrefl _)
      exact absurd (eq_done_of_full hfull hprio h) (by simp)

end Sequence

/-- **Interrupt masks nest up to eight levels.**  Outside any handler, whatever the priorities and the
mask are, a well-nested sequence is correct if it has at most eight levels.  If its handlers are
interrupted by more urgent lines only, it is correct in no other case. -/
theorem masks_nest_iff (s : Irq) (seq : Sequence) (hs : s.irqNesting = 0) (hseq : seq.InRange) :
    (seq.depth ≤ irqNestLimit → seq.Correct none s) ∧
      (seq.Rising s.irqPriorities none → (seq.Correct none s ↔ seq.depth ≤ irqNestLimit)) := by
  have hcorrect : seq.depth ≤ irqNestLimit → seq.Correct none s := fun hdepth =>
    (Sequence.correct_of_depth hseq (by omega) fun r hr => by simp at hr).1
  refine ⟨hcorrect, fun hrise => ⟨fun h => ?_, hcorrect⟩⟩
  have hdepth := Sequence.depth_of_correct hseq hrise hs (by omega) h
  omega

/-- Line 12 is interrupted by lines 1 and 0, and line 1 by line 0. -/
theorem masks_nest_keyboard_timer :
    (Sequence.handle 12 (.handle 1 (.handle 0 .done .done) (.handle 0 .done .done))
        (.handle 1 .done .done)).Correct none (Irq.irqInit (picSetMaskAll 0xAFF8#16)) :=
  (masks_nest_iff (Irq.irqInit (picSetMaskAll 0xAFF8#16)) _ rfl (by decide)).1 (by decide)

/-- Nine interrupts, each more urgent than the one before and served inside its handler. -/
def nineLevels : Sequence :=
  [8, 7, 6, 5, 4, 3, 2, 1, 0].foldr (fun irq inner => .handle irq inner .done) .done

/-- With no line masked and the priorities of `irq_init`, the ninth level finds its own line unmasked,
and its exit brings back what the eighth level found, priority 2 instead of 1 and line 1 unmasked. -/
theorem masks_ninth_level :
    nineLevels.InRange ∧ nineLevels.Rising (Irq.irqInit (picSetMaskAll 0#16)).irqPriorities none ∧
      ¬ nineLevels.Correct none (Irq.irqInit (picSetMaskAll 0#16)) ∧
      (let s := [8, 7, 6, 5, 4, 3, 2, 1].foldl Irq.irqEnter (Irq.irqInit (picSetMaskAll 0#16));
        (s.irqEnter 0).pic.picGetMask.getLsbD 0 = false ∧
        s.pic.picGetMask = 0xFFFE#16 ∧ (s.irqEnter 0).cpuCli.irqExit.pic.picGetMask = 0xFFFC#16 ∧
        s.currentPriority = 1#8 ∧ (s.irqEnter 0).cpuCli.irqExit.currentPriority = 2#8) := by
  decide +kernel

end MyOs
