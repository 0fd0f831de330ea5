import MyOs.Debug.Gdb

/-!
# Breakpoints stay armed

A breakpoint that is hit is taken out for one instruction: `pending_addr` remembers it, the trap flag makes
the CPU report the end of the instruction, and then the byte is put back.  There is one `pending_addr` for
all breakpoints.

The steps are whole calls of `gdb_handle_exception`, with the packets that were handled until the target was
resumed, and stores of the target in between.  `Disarmed` is what can go wrong: after a call it holds of
`pending_addr` at most, in every run, exactly if no breakpoint is hit while another one is still out and
stays out (`breakpoints_armed_iff`).
-/

namespace MyOs

open Lib Function

/-- There is a breakpoint at `a`, but its instruction is not in memory. -/
def Gdb.Disarmed (g : Gdb) (a : ℕ) : Prop := (∃ i, g.At a i) ∧ g.mem a ≠ 0xCC

instance (g : Gdb) (a : ℕ) : Decidable (g.Disarmed a) := inferInstanceAs (Decidable (_ ∧ _))

/-- What the stub keeps. -/
structure Stub.Sound (s : Stub) : Prop where
  enabled : s.gdb.enabled = true
  distinct : s.gdb.Distinct
  auto_pending : s.gdb.autoContinue = true → s.gdb.pendingReinsert = true

/-- Only the pending breakpoint is disarmed, and the trap flag is set if there is one. -/
structure Stub.Armed (s : Stub) : Prop where
  only_pending : ∀ a, s.gdb.Disarmed a → s.gdb.pendingReinsert = true ∧ s.gdb.pendingAddr = a
  trap : s.gdb.pendingReinsert = true → s.frame.rflags.testBit 8 = true

/-! ## The system -/

/-- The stub right after `gdb_init`. -/
def Stub.init (mem : Memory) (frame : Frame) (logTargets : UInt32) (serialEnabled : Bool) : Stub where
  gdb :=
    { enabled := true, active := false, savedTargets := 0, savedSerialEnabled := false
      logTargets := logTargets, serialEnabled := serialEnabled
      breakpoints := fun _ => ⟨0, 0, false⟩
      pendingReinsert := false, pendingAddr := 0, autoContinue := false, mem := mem }
  frame := frame
  stopped := false
  sent := []

/-- A call of `gdb_handle_exception` with the packets it handles, or a store of the target. -/
inductive DebugOp
  | handleException (frame : Frame) (packets : List (List UInt8))
  | store (addr : ℕ) (v : UInt8)

/-- One step. -/
def Stub.step (frameAddr : ℕ) (s : Stub) : DebugOp → Stub
  | .handleException frame packets => packets.foldl (Stub.packet frameAddr) (s.exception frame)
  | .store addr v => s.store addr v

/-- Nothing is written to a breakpoint. -/
def Request.Avoids (g : Gdb) : Request → Prop
  | .write stores => ∀ w ∈ stores, ∀ i, ¬ g.At w.1 i
  | _ => True

instance (g : Gdb) : ∀ r : Request, Decidable (r.Avoids g)
  | .write stores => inferInstanceAs (Decidable (∀ w ∈ stores, ∀ i, ¬ g.At w.1 i))
  | .read _ _ | .insert _ | .remove _ | .other => isTrue trivial

/-- The packets are those handled until the target is resumed, and no `M` writes to a breakpoint. -/
def Session (frameAddr : ℕ) : Stub → List (List UInt8) → Prop
  | s, [] => s.stopped = false
  | s, cmd :: packets =>
    s.stopped = true ∧ (request cmd).Avoids s.gdb ∧
      Session frameAddr (s.packet frameAddr cmd) packets

instance decidableSession (frameAddr : ℕ) :
    ∀ (s : Stub) (packets : List (List UInt8)), Decidable (Session frameAddr s packets)
  | s, [] => inferInstanceAs (Decidable (s.stopped = false))
  | s, cmd :: packets =>
    @instDecidableAnd _ _ inferInstance (@instDecidableAnd _ _ inferInstance
      (decidableSession frameAddr (s.packet frameAddr cmd) packets))

/-- What a step is: a call that returns, or a store outside the breakpoints. -/
def Stub.Legal (frameAddr : ℕ) (s : Stub) : DebugOp → Prop
  | .handleException frame packets => Session frameAddr (s.exception frame) packets
  | .store addr _ => ∀ i, ¬ s.gdb.At addr i

instance (frameAddr : ℕ) (s : Stub) : ∀ op : DebugOp, Decidable (s.Legal frameAddr op)
  | .handleException frame packets => decidableSession frameAddr (s.exception frame) packets
  | .store addr _ => inferInstanceAs (Decidable (∀ i, ¬ s.gdb.At addr i))

/-- A #BP comes from a breakpoint while another one is out, and the debugger does not remove that one
before the target goes on. -/
def Stub.Overtakes (s : Stub) (frame : Frame) (packets : List (List UInt8)) : Prop :=
  frame.intNo = 3 ∧ (∃ i, s.gdb.At frame.trapped i) ∧ s.gdb.pendingReinsert = true ∧
    s.gdb.pendingAddr ≠ frame.trapped ∧ s.gdb.Disarmed s.gdb.pendingAddr ∧
    ∀ cmd ∈ packets, request cmd ≠ .remove s.gdb.pendingAddr

instance (s : Stub) (frame : Frame) (packets : List (List UInt8)) :
    Decidable (s.Overtakes frame packets) :=
  inferInstanceAs (Decidable (_ ∧ _))

/-- The step does not overtake a pending breakpoint. -/
def Stub.InTurn (s : Stub) : DebugOp → Prop
  | .handleException frame packets => ¬ s.Overtakes frame packets
  | .store _ _ => True

instance (s : Stub) : ∀ op : DebugOp, Decidable (s.InTurn op)
  | .handleException frame packets => inferInstanceAs (Decidable (¬ s.Overtakes frame packets))
  | .store _ _ => inferInstanceAs (Decidable True)

/-! ## Requests -/

namespace Gdb

variable {g g' : Gdb} {a : ℕ}

lemma SameTarget.disarmed_iff (h : g.SameTarget g') (a : ℕ) : g'.Disarmed a ↔ g.Disarmed a := by
  simp only [Disarmed, At, h.breakpoints, h.mem]

lemma disarmed_serve (hdist : g.Distinct) {r : Request} (havoid : r.Avoids g) (a : ℕ) :
    (g.serve r).Disarmed a ↔ g.Disarmed a ∧ r ≠ .remove a := by
  cases r with
  | read addr len => simp [serve]
  | other => simp [serve]
  | write stores =>
    have hat : ∀ b i, (g.serve (.write stores)).At b i ↔ g.At b i := fun b i => Iff.rfl
    have hmem : (∃ i, g.At a i) → (g.serve (.write stores)).mem a = g.mem a := by
      rintro ⟨i, hi⟩
      refine storeAll_of_forall_ne fun w hw heq => ?_
      exact havoid w hw i (heq ▸ hi)
    simp only [Disarmed, hat, ne_eq, reduceCtorEq, not_false_eq_true, and_true]
    exact and_congr_right fun h => by rw [hmem h]
  | insert addr =>
    simp only [serve, ne_eq, reduceCtorEq, not_false_eq_true, and_true]
    rcases g.addBreakpoint_cases addr with heq | ⟨hnone, i, hfree, heq⟩
    · rw [heq]
    · rw [heq]
      simp only [Disarmed, at_add hfree]
      by_cases ha : a = addr
      · subst ha
        simp [hnone]
      · simp [ha]
  | remove addr =>
    rw [serve]
    rcases g.removeBreakpoint_cases addr with ⟨hnone, heq⟩ | ⟨i, hi, heq⟩
    · rw [heq]
      refine (and_iff_left_of_imp ?_).symm
      rintro ⟨⟨i, hi⟩, -⟩ hbad
      rw [Request.remove.injEq] at hbad
      exact hnone i (hbad ▸ hi)
    · rw [heq]
      simp only [Disarmed, at_remove, ne_eq, Request.remove.injEq]
      by_cases ha : a = addr
      · subst ha
        simp only [not_true_eq_false, and_false, iff_false, not_and]
        rintro ⟨j, hji, hj⟩
        exact absurd (hdist a j i hj hi) hji
      · have hother : ∀ j, g.At a j → j ≠ i := by
          rintro j hj rfl
          exact ha (hj.2.symm.trans hi.2)
        rw [update_of_ne ha]
        constructor
        · rintro ⟨⟨j, -, hj⟩, hmem⟩
          exact ⟨⟨⟨j, hj⟩, hmem⟩, Ne.symm ha⟩
        · rintro ⟨⟨⟨j, hj⟩, hmem⟩, -⟩
          exact ⟨⟨j, hother j hj, hj⟩, hmem⟩

end Gdb

/-! ## One packet -/

namespace Stub

variable {s : Stub} {frameAddr : ℕ} {cmd : List UInt8} {frame : Frame}

/-- What a packet does, apart from resuming the target. -/
structure Packet (cmd : List UInt8) (s s' : Stub) : Prop where
  same : (s.gdb.serve (request cmd)).breakpoints = s'.gdb.breakpoints
  mem : (s.gdb.serve (request cmd)).mem = s'.gdb.mem
  enabled : s'.gdb.enabled = s.gdb.enabled
  pendingReinsert : s'.gdb.pendingReinsert = s.gdb.pendingReinsert
  pendingAddr : s'.gdb.pendingAddr = s.gdb.pendingAddr
  auto : s'.gdb.autoContinue = true → s.gdb.autoContinue = true ∨ s.gdb.pendingReinsert = true
  trap : s'.stopped = false → s.gdb.pendingReinsert = true → s'.frame.rflags.testBit 8 = true

lemma testBit_setTrap (f : Frame) : f.setTrap.rflags.testBit 8 = true := by
  have hbit : Nat.testBit (1 <<< 8) 8 = true := by decide
  rw [Frame.setTrap, Nat.testBit_or, hbit, Bool.or_true]

lemma packet_spec (hstop : s.stopped = true) (frameAddr : ℕ) (cmd : List UInt8) :
    Packet cmd s (s.packet frameAddr cmd) := by
  by_cases hempty : cmd.length = 0
  · rw [List.length_eq_zero_iff] at hempty
    subst hempty
    have heq : s.packet frameAddr [] = { s with sent := s.sent ++ [ascii "S05"] } := by
      simp [packet, hstop]
    rw [heq]
    exact ⟨rfl, rfl, rfl, rfl, rfl, Or.inl, fun h => absurd (hstop.symm.trans h) (by decide)⟩
  · have hgdb := gdbHandleCommand_gdb frameAddr cmd s.gdb s.frame
    have hserve := s.gdb.serve_eq (request cmd)
    generalize hans : gdbHandleCommand frameAddr cmd s.gdb s.frame = ans at hgdb
    have hpending : ans.gdb.pendingReinsert = s.gdb.pendingReinsert := by rw [hgdb, hserve]
    cases hresume : ans.resume with
    | none =>
      have heq : s.packet frameAddr cmd =
          { s with gdb := ans.gdb, frame := ans.frame, sent := s.sent ++ ans.reply.toList } := by
        simp [packet, hstop, hempty, hans, hresume]
      rw [heq]
      refine ⟨by rw [hgdb], by rw [hgdb], ?_, hpending, ?_, fun h => Or.inl ?_,
        fun h => absurd (hstop.symm.trans h) (by decide)⟩
      · simp only [hgdb]
        rw [hserve]
      · simp only [hgdb]
        rw [hserve]
      · simp only [hgdb] at h
        rwa [hserve] at h
    | some single =>
      have heq : s.packet frameAddr cmd = resume
          { s with gdb := ans.gdb, frame := ans.frame, sent := s.sent ++ ans.reply.toList } single := by
        simp [packet, hstop, hempty, hans, hresume]
      set g := if ans.gdb.pendingReinsert then { ans.gdb with autoContinue := !single } else ans.gdb
        with hg
      have hleave := g.sameTarget_leaveSession
      have hsame : g = { ans.gdb with autoContinue := g.autoContinue } := by
        rw [hg]
        split_ifs <;> rfl
      rw [heq]
      refine ⟨?_, ?_, ?_, ?_, ?_, fun h => ?_, fun _ h => ?_⟩
      · rw [← hgdb]
        exact (hleave.breakpoints.trans (by rw [hsame])).symm
      · rw [← hgdb]
        exact (hleave.mem.trans (by rw [hsame])).symm
      · refine hleave.enabled.trans ?_
        rw [hsame, hgdb, hserve]
      · refine hleave.pendingReinsert.trans ?_
        rw [hsame]
        exact hpending
      · refine hleave.pendingAddr.trans ?_
        rw [hsame, hgdb, hserve]
      · have hauto : g.autoContinue = true := hleave.autoContinue.symm.trans h
        by_cases hp : ans.gdb.pendingReinsert = true
        · exact Or.inr (hpending.symm.trans hp)
        · rw [hg, if_neg hp, hgdb, hserve] at hauto
          exact Or.inl hauto
      · have hp : ans.gdb.pendingReinsert = true := hpending.trans h
        simp only [resume, hp, Bool.true_or, if_true]
        exact testBit_setTrap _

lemma Packet.sound {s' : Stub} (h : Packet cmd s s') (hs : s.Sound) : s'.Sound := by
  refine ⟨h.enabled.trans hs.enabled, ?_, fun hauto => ?_⟩
  · have hdist := Gdb.distinct_serve hs.distinct (request cmd)
    intro a i j hi hj
    refine hdist a i j ?_ ?_
    · rw [Gdb.At, h.same]
      exact hi
    · rw [Gdb.At, h.same]
      exact hj
  · rw [h.pendingReinsert]
    rcases h.auto hauto with hbefore | hbefore
    · exact hs.auto_pending hbefore
    · exact hbefore

lemma Packet.disarmed {s' : Stub} (h : Packet cmd s s') (hs : s.Sound)
    (havoid : (request cmd).Avoids s.gdb) (a : ℕ) :
    s'.gdb.Disarmed a ↔ s.gdb.Disarmed a ∧ request cmd ≠ .remove a := by
  rw [← Gdb.disarmed_serve hs.distinct havoid]
  simp only [Gdb.Disarmed, Gdb.At, h.same, h.mem]

/-! ## One call -/

/-- What the packets of a call do: the pending breakpoint stays the same, the removed ones are no longer
there, and the target is resumed with the trap flag set if need be. -/
structure Served (s : Stub) (packets : List (List UInt8)) (s' : Stub) : Prop where
  sound : s'.Sound
  stopped : s'.stopped = false
  pendingReinsert : s'.gdb.pendingReinsert = s.gdb.pendingReinsert
  pendingAddr : s'.gdb.pendingAddr = s.gdb.pendingAddr
  disarmed : ∀ a, s'.gdb.Disarmed a ↔
    s.gdb.Disarmed a ∧ ∀ cmd ∈ packets, request cmd ≠ .remove a
  trap : s'.gdb.pendingReinsert = true → s'.frame.rflags.testBit 8 = true

lemma served_of_session {packets : List (List UInt8)} (hs : s.Sound)
    (htrap : s.stopped = false → s.gdb.pendingReinsert = true → s.frame.rflags.testBit 8 = true)
    (h : Session frameAddr s packets) :
    Served s packets (packets.foldl (Stub.packet frameAddr) s) := by
  induction packets generalizing s with
  | nil => exact ⟨hs, h, rfl, rfl, by simp, htrap h⟩
  | cons cmd packets ih =>
    obtain ⟨hstop, havoid, hrest⟩ := h
    have hpacket := packet_spec hstop frameAddr cmd
    have hlater := ih (hpacket.sound hs)
      (fun hgo hp => hpacket.trap hgo (hpacket.pendingReinsert ▸ hp)) hrest
    refine ⟨hlater.sound, hlater.stopped, hlater.pendingReinsert.trans hpacket.pendingReinsert,
      hlater.pendingAddr.trans hpacket.pendingAddr, fun a => ?_, hlater.trap⟩
    rw [List.foldl_cons, hlater.disarmed a, hpacket.disarmed hs havoid, List.forall_mem_cons, and_assoc]

/-- The #DB that ends the instruction of the pending breakpoint: it is armed again. -/
lemma exception_auto (hs : s.Sound) (hint : frame.intNo = 1) (hauto : s.gdb.autoContinue = true) :
    (s.exception frame).Sound ∧ (s.exception frame).stopped = s.stopped ∧
      (s.exception frame).gdb.pendingReinsert = false ∧
      ∀ a, (s.exception frame).gdb.Disarmed a ↔ s.gdb.Disarmed a ∧ s.gdb.pendingAddr ≠ a := by
  have hpending := hs.auto_pending hauto
  have heq : s.exception frame = { s with
      gdb := { s.gdb.restorePendingBreakpoint with autoContinue := false }
      frame := frame.clearTrap } := by
    simp [exception, hs.enabled, hint, hauto]
  -- what is written back, if the breakpoint is still set
  obtain ⟨mem, hrestore, hmem⟩ : ∃ mem, s.gdb.restorePendingBreakpoint = { s.gdb with
        mem := mem, pendingReinsert := false, pendingAddr := 0 } ∧
      ∀ a, (∃ i, s.gdb.At a i) ∧ mem a ≠ 0xCC ↔ s.gdb.Disarmed a ∧ s.gdb.pendingAddr ≠ a := by
    cases hfind : s.gdb.findBreakpoint s.gdb.pendingAddr with
    | none =>
      refine ⟨s.gdb.mem, by rw [Gdb.restorePendingBreakpoint, hpending, hfind]; rfl, fun a => ?_⟩
      have hnone := Gdb.findBreakpoint_none hfind
      refine (and_iff_left_of_imp ?_).symm
      rintro ⟨⟨i, hi⟩, -⟩ heq
      exact hnone i (heq ▸ hi)
    | some i =>
      have haddr : (s.gdb.breakpoints i).addr = s.gdb.pendingAddr := (Gdb.findBreakpoint_some hfind).2
      refine ⟨update s.gdb.mem s.gdb.pendingAddr 0xCC, ?_, fun a => ?_⟩
      · rw [Gdb.restorePendingBreakpoint, hpending, hfind, ← haddr]
        rfl
      · by_cases ha : a = s.gdb.pendingAddr
        · subst ha
          simp
        · rw [update_of_ne ha]
          exact (and_iff_left (Ne.symm ha)).symm
  rw [heq, hrestore]
  exact ⟨⟨hs.enabled, hs.distinct, fun h => absurd h Bool.false_ne_true⟩, rfl, rfl, hmem⟩

/-- A #BP of a breakpoint: it becomes the pending one, and the others stay as they are. -/
lemma exception_hit (hs : s.Sound) (hint : frame.intNo = 3) (hat : ∃ i, s.gdb.At frame.trapped i) :
    (s.exception frame).Sound ∧ (s.exception frame).stopped = true ∧
      (s.exception frame).gdb.pendingReinsert = true ∧
      (s.exception frame).gdb.pendingAddr = frame.trapped ∧
      ∀ a, a ≠ frame.trapped → ((s.exception frame).gdb.Disarmed a ↔ s.gdb.Disarmed a) := by
  obtain ⟨i, hi⟩ := hat
  have hfind := Gdb.findBreakpoint_of_at hs.distinct hi
  set g : Gdb := { s.gdb with
    mem := update s.gdb.mem frame.trapped (s.gdb.breakpoints i).saved
    pendingReinsert := true
    pendingAddr := frame.trapped } with hg
  have hhit : s.gdb.hit frame = (g, { frame with rip := frame.trapped }) := by
    rw [Gdb.hit, hfind]
  have heq : s.exception frame = ⟨g.enterSession, { frame with rip := frame.trapped }, true,
      s.sent ++ [ascii "S05"]⟩ := by
    simp [exception, hs.enabled, hint, hhit]
  have hsame := g.sameTarget_enterSession
  rw [heq]
  refine ⟨⟨hsame.enabled.trans hs.enabled, hsame.distinct hs.distinct, fun _ => ?_⟩, rfl,
    hsame.pendingReinsert, hsame.pendingAddr, fun a ha => ?_⟩
  · exact hsame.pendingReinsert
  · rw [hsame.disarmed_iff]
    simp only [Gdb.Disarmed, hg, update_of_ne ha]
    rfl

lemma exception_other (hs : s.Sound) (hauto : ¬ (frame.intNo = 1 ∧ s.gdb.autoContinue = true))
    (hhit : ¬ (frame.intNo = 3 ∧ ∃ i, s.gdb.At frame.trapped i)) :
    (s.exception frame).Sound ∧ (s.exception frame).stopped = true ∧
      s.gdb.SameTarget (s.exception frame).gdb := by
  have hgdb : (if frame.intNo = 3 then s.gdb.hit frame else (s.gdb, frame)) = (s.gdb, frame) := by
    split_ifs with hint
    · cases hfind : s.gdb.findBreakpoint frame.trapped with
      | none =>
        rw [Gdb.hit, hfind]
      | some i => exact absurd ⟨hint, i, Gdb.findBreakpoint_some hfind⟩ hhit
    · rfl
  have heq : s.exception frame = ⟨s.gdb.enterSession, frame, true, s.sent ++ [ascii "S05"]⟩ := by
    rw [exception, hgdb, if_neg (by simp [hs.enabled]), if_neg hauto]
  have hsame := s.gdb.sameTarget_enterSession
  rw [heq]
  refine ⟨⟨hsame.enabled.trans hs.enabled, hsame.distinct hs.distinct, fun h => ?_⟩, rfl, hsame⟩
  exact hsame.pendingReinsert.trans (hs.auto_pending (hsame.autoContinue.symm.trans h))

lemma exception_ready (hs : s.Sound) (frame : Frame) :
    (s.exception frame).Sound ∧
      ((s.exception frame).stopped = false → (s.exception frame).gdb.pendingReinsert = false) := by
  by_cases hauto : frame.intNo = 1 ∧ s.gdb.autoContinue = true
  · obtain ⟨hsound, -, hpending, -⟩ := exception_auto hs hauto.1 hauto.2
    exact ⟨hsound, fun _ => hpending⟩
  by_cases hhit : frame.intNo = 3 ∧ ∃ i, s.gdb.At frame.trapped i
  · obtain ⟨hsound, hstop, -⟩ := exception_hit hs hhit.1 hhit.2
    exact ⟨hsound, fun hgo => absurd (hgo.symm.trans hstop) Bool.false_ne_true⟩
  · obtain ⟨hsound, hstop, -⟩ := exception_other hs hauto hhit
    exact ⟨hsound, fun hgo => absurd (hgo.symm.trans hstop) Bool.false_ne_true⟩

lemma call_served (hs : s.Sound) {packets : List (List UInt8)}
    (h : Session frameAddr (s.exception frame) packets) :
    Served (s.exception frame) packets (s.step frameAddr (.handleException frame packets)) := by
  obtain ⟨hsound, hready⟩ := exception_ready hs frame
  refine served_of_session hsound (fun hgo hbad => ?_) h
  exact absurd ((hready hgo).symm.trans hbad) Bool.false_ne_true

/-! ## Runs -/

lemma step_sound (hs : s.Sound ∧ s.stopped = false) {op : DebugOp} (h : s.Legal frameAddr op) :
    (s.step frameAddr op).Sound ∧ (s.step frameAddr op).stopped = false := by
  obtain ⟨hs, hgo⟩ := hs
  cases op with
  | store addr v =>
    rw [step, store, if_neg (by simp [hgo])]
    exact ⟨⟨hs.enabled, hs.distinct, hs.auto_pending⟩, hgo⟩
  | handleException frame packets =>
    have hserved := call_served hs h
    exact ⟨hserved.sound, hserved.stopped⟩

lemma store_armed (hgo : s.stopped = false) (harmed : s.Armed) {addr : ℕ}
    (h : ∀ i, ¬ s.gdb.At addr i) (v : UInt8) : (s.store addr v).Armed := by
  rw [store, if_neg (by simp [hgo])]
  refine ⟨fun a ha => harmed.only_pending a ?_, harmed.trap⟩
  obtain ⟨⟨i, hi⟩, hmem⟩ := ha
  have hne : a ≠ addr := fun heq => h i (heq ▸ hi)
  have hmem' : update s.gdb.mem addr v a ≠ 0xCC := hmem
  rw [update_of_ne hne] at hmem'
  exact ⟨⟨i, hi⟩, hmem'⟩

/-- A call leaves the breakpoints armed exactly if it does not overtake the pending one. -/
lemma call_armed_iff (hs : s.Sound) (harmed : s.Armed) {packets : List (List UInt8)}
    (h : Session frameAddr (s.exception frame) packets) :
    (s.step frameAddr (.handleException frame packets)).Armed ↔ ¬ s.Overtakes frame packets := by
  have hserved := call_served hs h
  by_cases hauto : frame.intNo = 1 ∧ s.gdb.autoContinue = true
  · obtain ⟨-, -, -, hdisarmed⟩ := exception_auto hs hauto.1 hauto.2
    refine iff_of_true ⟨fun a ha => ?_, hserved.trap⟩ fun hover => ?_
    · obtain ⟨hout, hne⟩ := (hdisarmed a).mp ((hserved.disarmed a).mp ha).1
      exact absurd (harmed.only_pending a hout).2 hne
    · exact absurd (hauto.1.symm.trans hover.1) (by decide)
  by_cases hhit : frame.intNo = 3 ∧ ∃ i, s.gdb.At frame.trapped i
  · obtain ⟨-, -, hpending, haddr, hdisarmed⟩ := exception_hit hs hhit.1 hhit.2
    constructor
    · rintro hafter ⟨-, -, -, hne, hout, hkept⟩
      have hlost := (hserved.disarmed _).mpr ⟨(hdisarmed _ hne).mpr hout, hkept⟩
      have hsame := (hafter.only_pending _ hlost).2
      rw [hserved.pendingAddr, haddr] at hsame
      exact hne hsame.symm
    · refine fun hover => ⟨fun a ha => ?_, hserved.trap⟩
      rw [hserved.pendingReinsert, hserved.pendingAddr, hpending, haddr]
      refine ⟨rfl, ?_⟩
      by_contra hne
      obtain ⟨hout, hkept⟩ := (hserved.disarmed a).mp ha
      have hbefore := (hdisarmed a (Ne.symm hne)).mp hout
      obtain ⟨hp, rfl⟩ := harmed.only_pending a hbefore
      exact hover ⟨hhit.1, hhit.2, hp, Ne.symm hne, hbefore, hkept⟩
  · obtain ⟨-, -, hsame⟩ := exception_other hs hauto hhit
    refine iff_of_true ⟨fun a ha => ?_, hserved.trap⟩ fun hover => hhit ⟨hover.1, hover.2.1⟩
    rw [hserved.pendingReinsert, hserved.pendingAddr, hsame.pendingReinsert, hsame.pendingAddr]
    exact harmed.only_pending a ((hsame.disarmed_iff a).mp ((hserved.disarmed a).mp ha).1)

lemma step_armed_iff (hs : s.Sound ∧ s.stopped = false) (harmed : s.Armed) {op : DebugOp}
    (h : s.Legal frameAddr op) : (s.step frameAddr op).Armed ↔ s.InTurn op := by
  cases op with
  | store addr v => exact iff_of_true (store_armed hs.2 harmed h v) trivial
  | handleException frame packets => exact call_armed_iff hs.1 harmed h

lemma init_sound (mem : Memory) (frame : Frame) (logTargets : UInt32) (serialEnabled : Bool) :
    ((init mem frame logTargets serialEnabled).Sound ∧
      (init mem frame logTargets serialEnabled).stopped = false) ∧
      (init mem frame logTargets serialEnabled).Armed := by
  have hnone : ∀ a i, ¬ (init mem frame logTargets serialEnabled).gdb.At a i := fun a i h =>
    absurd h.1 Bool.false_ne_true
  refine ⟨⟨⟨rfl, fun a i _ hi => absurd hi (hnone a i), fun h => absurd h Bool.false_ne_true⟩, rfl⟩,
    fun a h => ?_, fun h => absurd h Bool.false_ne_true⟩
  obtain ⟨⟨i, hi⟩, -⟩ := h
  exact absurd hi (hnone a i)

end Stub

/-- **When breakpoints stay armed.**  In a run from `gdb_init` on, every call of `gdb_handle_exception`
returns with only the pending breakpoint out, and with the trap flag set if there is one, exactly if no call
overtakes a pending breakpoint. -/
theorem breakpoints_armed_iff (frameAddr : ℕ) (mem : Memory) (frame : Frame) (logTargets : UInt32)
    (serialEnabled : Bool) {ops : List DebugOp}
    (hops : Admissible (Stub.Legal frameAddr) (Stub.step frameAddr)
      (Stub.init mem frame logTargets serialEnabled) ops) :
    (∀ pre, pre <+: ops →
        (run (Stub.step frameAddr) (Stub.init mem frame logTargets serialEnabled) pre).Armed) ↔
      Admissible Stub.InTurn (Stub.step frameAddr) (Stub.init mem frame logTargets serialEnabled) ops := by
  obtain ⟨hsound, harmed⟩ := Stub.init_sound mem frame logTargets serialEnabled
  exact forall_prefix_iff_admissible (I := Stub.Armed)
    (J := fun s : Stub => s.Sound ∧ s.stopped = false) (fun _ _ hs hdom => Stub.step_sound hs hdom)
    (fun _ _ hs hdom harmed => Stub.step_armed_iff hs harmed hdom) hsound harmed hops

/-- A target full of one-byte instructions, in a kernel whose log goes to both targets. -/
def nopStub : Stub := Stub.init (fun _ => 0x90) {} 3 true

/-- Set breakpoints at `0x1000` and `0x1001`, and hit the first one. -/
def hitFirst : List DebugOp :=
  [.handleException { intNo := 3, rip := 0x5000 }
      [ascii "Z0,1000,1", ascii "Z0,1001,1", ascii "c"],
    .handleException { intNo := 3, rip := 0x1001 } [ascii "s"]]

/-- The debugger steps away from the first breakpoint and continues: both are armed throughout. -/
theorem breakpoints_armed_iff_hit :
    nopStub.stopped = false ∧
      ∀ pre, pre <+: hitFirst ++ [.handleException { intNo := 1, rip := 0x1001 } [ascii "c"]] →
        (run (Stub.step 0) nopStub pre).Armed :=
  ⟨rfl, (breakpoints_armed_iff 0 (fun _ => 0x90) {} 3 true (by decide +kernel)).mpr
    (by decide +kernel)⟩

/-- **A hit can disarm another breakpoint.**  The debugger steps from the first breakpoint to the second
one: `pending_addr` is overwritten, and the first one never comes back. -/
theorem second_hit_disarms_first :
    Admissible (Stub.Legal 0) (Stub.step 0) nopStub
        (hitFirst ++ [.handleException { intNo := 1, rip := 0x1001 } [ascii "s"],
          .handleException { intNo := 3, rip := 0x1002 } [ascii "c"]]) ∧
      (run (Stub.step 0) nopStub
        (hitFirst ++ [.handleException { intNo := 1, rip := 0x1001 } [ascii "s"],
          .handleException { intNo := 3, rip := 0x1002 } [ascii "c"]])).gdb.Disarmed 0x1000 ∧
      (run (Stub.step 0) nopStub
        (hitFirst ++ [.handleException { intNo := 1, rip := 0x1001 } [ascii "s"],
          .handleException { intNo := 3, rip := 0x1002 } [ascii "c"]])).gdb.pendingAddr = 0x1001 := by
  decide +kernel

end MyOs
