import MyOs.Debug.Rearming

/-!
# What the debugger sees

With breakpoints set the memory of the target is not what the debugger thinks it is: `m` reads the bytes
that are there.  The reference memory (`ref`) is the original memory with the `M` writes applied, and the
stores of the target; `reads` records every answer to `m` together with what the reference memory answers.

Removing all breakpoints gives the memory under them, `Gdb.underneath`.  Nothing but a write changes it, so
`m` and `M` are the only commands to look at (`breakpoints_transparent_iff`).
-/

namespace MyOs

open Lib List Function

/-! ## The memory under the breakpoints -/

namespace Gdb

/-- The memory with the saved bytes in their places. -/
def underneath (g : Gdb) : Memory := fun a =>
  match g.findBreakpoint a with
  | some i => (g.breakpoints i).saved
  | none => g.mem a

/-- The slots of a list are freed one after the other with `gdb_remove_breakpoint`. -/
def removeSlots (g : Gdb) (slots : List (Fin gdbMaxBreakpoints)) : Gdb :=
  slots.foldl (fun g i =>
    if (g.breakpoints i).used then (g.removeBreakpoint (g.breakpoints i).addr).1 else g) g

/-- All breakpoints are removed. -/
def removeAll (g : Gdb) : Gdb := g.removeSlots (List.finRange gdbMaxBreakpoints)

variable {g g' : Gdb} {a : ℕ} {i : Fin gdbMaxBreakpoints}

lemma underneath_of_at (hdist : g.Distinct) (h : g.At a i) : g.underneath a = (g.breakpoints i).saved := by
  rw [underneath, findBreakpoint_of_at hdist h]

lemma underneath_of_none (h : ∀ i, ¬ g.At a i) : g.underneath a = g.mem a := by
  rw [underneath]
  cases hfind : g.findBreakpoint a with
  | none => rfl
  | some i => exact absurd (findBreakpoint_some hfind) (h i)

/-- Where the breakpoints are the same, with the same bytes saved. -/
lemma underneath_same (hdist : g.Distinct) (hdist' : g'.Distinct) (hat : ∀ i, g'.At a i ↔ g.At a i)
    (hsaved : ∀ i, g.At a i → (g'.breakpoints i).saved = (g.breakpoints i).saved)
    (hmem : (∀ i, ¬ g.At a i) → g'.mem a = g.mem a) : g'.underneath a = g.underneath a := by
  by_cases h : ∃ i, g.At a i
  · obtain ⟨i, hi⟩ := h
    rw [underneath_of_at hdist' ((hat i).mpr hi), hsaved i hi, underneath_of_at hdist hi]
  · have hnone : ∀ i, ¬ g.At a i := fun i hi => h ⟨i, hi⟩
    rw [underneath_of_none hnone, underneath_of_none fun i hi => hnone i ((hat i).mp hi), hmem hnone]

lemma underneath_congr (hdist : g.Distinct) (hbreak : g'.breakpoints = g.breakpoints)
    (hmem : ∀ a, (∀ i, ¬ g.At a i) → g'.mem a = g.mem a) : g'.underneath = g.underneath := by
  have hat : ∀ a i, g'.At a i ↔ g.At a i := fun a i => by rw [At, At, hbreak]
  have hdist' : g'.Distinct := fun a i j hi hj => hdist a i j ((hat a i).mp hi) ((hat a j).mp hj)
  exact funext fun a => underneath_same hdist hdist' (hat a) (fun i _ => by rw [hbreak]) (hmem a)

lemma underneath_insert (hdist : g.Distinct) (addr : ℕ) :
    (g.serve (.insert addr)).underneath = g.underneath := by
  have hdist' := distinct_serve hdist (.insert addr)
  rcases g.addBreakpoint_cases addr with heq | ⟨hnone, i, hfree, heq⟩
  · rw [serve, heq]
  rw [serve, heq] at hdist' ⊢
  funext a
  by_cases ha : a = addr
  · subst ha
    rw [underneath_of_at hdist' ((at_add hfree a i).mpr (Or.inl ⟨rfl, rfl⟩)), underneath_of_none hnone]
    simp
  · refine underneath_same hdist hdist' (fun j => (at_add hfree a j).trans (or_iff_right fun h => ha h.2))
      (fun j hj => ?_) fun _ => update_of_ne ha _ _
    have hji : j ≠ i := by
      rintro rfl
      exact absurd (hfree.symm.trans hj.1) Bool.false_ne_true
    simp [hji]

lemma underneath_remove (hdist : g.Distinct) (addr : ℕ) :
    (g.serve (.remove addr)).underneath = g.underneath := by
  have hdist' := distinct_serve hdist (.remove addr)
  rcases g.removeBreakpoint_cases addr with ⟨-, heq⟩ | ⟨i, hi, heq⟩
  · rw [serve, heq]
  rw [serve, heq] at hdist' ⊢
  funext a
  by_cases ha : a = addr
  · subst ha
    rw [underneath_of_at hdist hi, underneath_of_none]
    · exact update_self _ _ _
    · intro j hj
      obtain ⟨hji, hj⟩ := (at_remove a j).mp hj
      exact hji (hdist a j i hj hi)
  · have hne : ∀ j, g.At a j → j ≠ i := by
      rintro j hj rfl
      exact ha (hj.2.symm.trans hi.2)
    refine underneath_same hdist hdist' (fun j => (at_remove a j).trans (and_iff_right_of_imp (hne j)))
      (fun j hj => ?_) fun _ => update_of_ne ha _ _
    simp [hne j hj]

lemma removeSlots_spec (hdist : g.Distinct) (slots : List (Fin gdbMaxBreakpoints)) :
    (g.removeSlots slots).Distinct ∧ (g.removeSlots slots).underneath = g.underneath ∧
      ∀ j, ((g.removeSlots slots).breakpoints j).used = true →
        (g.breakpoints j).used = true ∧ j ∉ slots := by
  induction slots generalizing g with
  | nil => exact ⟨hdist, rfl, fun j hj => ⟨hj, not_mem_nil⟩⟩
  | cons i slots ih =>
    rw [removeSlots, foldl_cons]
    by_cases hused : (g.breakpoints i).used = true
    · rw [if_pos hused]
      have hat : g.At (g.breakpoints i).addr i := ⟨hused, rfl⟩
      have hunder := underneath_remove hdist (g.breakpoints i).addr
      have hdist' := distinct_serve hdist (.remove (g.breakpoints i).addr)
      rw [serve] at hunder hdist'
      obtain ⟨hd, hu, hfree⟩ := ih hdist'
      refine ⟨hd, hu.trans hunder, fun j hj => ?_⟩
      obtain ⟨hj, hnot⟩ := hfree j hj
      rcases g.removeBreakpoint_cases (g.breakpoints i).addr with ⟨hnone, -⟩ | ⟨k, hk, heq⟩
      · exact absurd hat (hnone i)
      · obtain rfl := hdist _ k i hk hat
        rw [heq] at hj
        by_cases hjk : j = k
        · subst hjk
          simp at hj
        · simp only [update_of_ne hjk] at hj
          exact ⟨hj, not_mem_cons_of_ne_of_not_mem hjk hnot⟩
    · rw [if_neg hused]
      obtain ⟨hd, hu, hfree⟩ := ih hdist
      refine ⟨hd, hu, fun j hj => ?_⟩
      obtain ⟨hj, hnot⟩ := hfree j hj
      refine ⟨hj, not_mem_cons_of_ne_of_not_mem ?_ hnot⟩
      rintro rfl
      exact hused hj

lemma removeAll_mem (hdist : g.Distinct) : g.removeAll.mem = g.underneath := by
  obtain ⟨-, hunder, hfree⟩ := removeSlots_spec hdist (List.finRange gdbMaxBreakpoints)
  rw [← hunder]
  funext a
  refine (underneath_of_none fun i hi => ?_).symm
  exact (hfree i hi.1).2 (mem_finRange i)

end Gdb

/-! ## The system -/

/-- The stub, the reference memory, and the answers to `m` with what they should have been. -/
structure Watched where
  stub : Stub
  ref : Memory
  reads : List (List UInt8 × List UInt8)

/-- What happens: an exception, a packet for the stub, or a store of the target. -/
inductive DebugEvent
  | exception (frame : Frame)
  | packet (cmd : List UInt8)
  | store (addr : ℕ) (v : UInt8)

namespace Watched

/-- What a request does to the reference memory. -/
def refAfter (ref : Memory) : Request → Memory
  | .write stores => storeAll ref stores
  | _ => ref

/-- The answer to a packet, and what the reference memory answers, if it is a read. -/
def answers (frameAddr : ℕ) (w : Watched) (cmd : List UInt8) : List (List UInt8 × List UInt8) :=
  match request cmd with
  | .read addr len =>
    [((gdbHandleCommand frameAddr cmd w.stub.gdb w.stub.frame).reply.getD [],
      gdbReadMemory w.ref addr len)]
  | _ => []

/-- One step; exceptions and stores come from a target that runs, and packets are read when it is
stopped. -/
def step (frameAddr : ℕ) (w : Watched) : DebugEvent → Watched
  | .exception frame =>
    if w.stub.stopped then w else { w with stub := w.stub.exception frame }
  | .packet cmd =>
    if !w.stub.stopped then w
    else
      { stub := w.stub.packet frameAddr cmd
        ref := refAfter w.ref (request cmd)
        reads := w.reads ++ w.answers frameAddr cmd }
  | .store addr v =>
    if w.stub.stopped then w
    else { w with stub := w.stub.store addr v, ref := Function.update w.ref addr v }

/-- Every answer was right, and once all breakpoints are removed memory is the reference memory. -/
structure Transparent (w : Watched) : Prop where
  reads : ∀ r ∈ w.reads, r.1 = r.2
  restored : w.stub.gdb.removeAll.mem = w.ref

/-- The target does not write its code, where the breakpoints are. -/
def Legal (w : Watched) : DebugEvent → Prop
  | .store addr _ => ∀ i, ¬ w.stub.gdb.At addr i
  | _ => True

/-- The request sees and changes no breakpoint: a read covers only breakpoints that are not in memory, or
whose byte is that of the instruction, and a write leaves the bytes under breakpoints as they are. -/
def RequestOk (g : Gdb) : Request → Prop
  | .read addr len => ∀ k < len, ∀ i, g.At ((addr + k) % 2 ^ 64) i →
      g.mem ((addr + k) % 2 ^ 64) = (g.breakpoints i).saved
  | .write stores => ∀ i, (g.breakpoints i).used = true →
      storeAll g.underneath stores (g.breakpoints i).addr = (g.breakpoints i).saved
  | _ => True

instance (w : Watched) : ∀ ev : DebugEvent, Decidable (w.Legal ev)
  | .store addr _ => inferInstanceAs (Decidable (∀ i, ¬ w.stub.gdb.At addr i))
  | .exception _ | .packet _ => isTrue trivial

instance (g : Gdb) : ∀ r : Request, Decidable (RequestOk g r)
  | .read addr len =>
    inferInstanceAs (Decidable (∀ k < len, ∀ i, g.At ((addr + k) % 2 ^ 64) i →
      g.mem ((addr + k) % 2 ^ 64) = (g.breakpoints i).saved))
  | .write stores =>
    inferInstanceAs (Decidable (∀ i, (g.breakpoints i).used = true →
      storeAll g.underneath stores (g.breakpoints i).addr = (g.breakpoints i).saved))
  | .insert _ | .remove _ | .other => isTrue trivial

/-- The condition for a step. -/
def Ok (w : Watched) : DebugEvent → Prop
  | .packet cmd => w.stub.stopped = true → RequestOk w.stub.gdb (request cmd)
  | _ => True

instance (w : Watched) : ∀ ev : DebugEvent, Decidable (w.Ok ev)
  | .packet cmd =>
    inferInstanceAs (Decidable (w.stub.stopped = true → RequestOk w.stub.gdb (request cmd)))
  | .exception _ | .store _ _ => isTrue trivial

end Watched

/-! ## Reads -/

lemma gdbAppendHex_inj {v w : UInt8} (h : gdbAppendHex v = gdbAppendHex w) : v = w := by
  have hinj : ∀ n m, intToHex n = intToHex m → n % 16 = m % 16 := by
    intro n m heq
    have hn := hexToInt_intToHex n
    rw [heq, hexToInt_intToHex m] at hn
    exact (Option.some.inj hn).symm
  simp only [gdbAppendHex, cons.injEq, and_true, Nat.shiftRight_eq_div_pow] at h
  have hhigh := hinj _ _ h.1
  have hlow := hinj _ _ h.2
  have hv := v.toNat_lt
  have hw := w.toNat_lt
  refine UInt8.toNat_inj.mp ?_
  omega

lemma gdbReadMemory_eq_iff (m m' : Memory) (addr len : ℕ) :
    gdbReadMemory m addr len = gdbReadMemory m' addr len ↔
      ∀ k < len, m ((addr + k) % 2 ^ 64) = m' ((addr + k) % 2 ^ 64) := by
  induction len with
  | zero => simp [gdbReadMemory]
  | succ n ih =>
    have hsucc : ∀ m : Memory, gdbReadMemory m addr (n + 1) =
        gdbReadMemory m addr n ++ gdbAppendHex (m ((addr + n) % 2 ^ 64)) := fun m => by
      simp [gdbReadMemory, range_succ]
    have hlen : ∀ m : Memory, (gdbReadMemory m addr n).length = 2 * n := fun m => by
      simp [gdbReadMemory, gdbAppendHex, length_flatMap, Nat.mul_comm]
    have hcons : gdbReadMemory m addr (n + 1) = gdbReadMemory m' addr (n + 1) ↔
        gdbReadMemory m addr n = gdbReadMemory m' addr n ∧
          m ((addr + n) % 2 ^ 64) = m' ((addr + n) % 2 ^ 64) := by
      rw [hsucc, hsucc]
      constructor
      · intro h
        obtain ⟨h1, h2⟩ := append_inj h ((hlen m).trans (hlen m').symm)
        exact ⟨h1, gdbAppendHex_inj h2⟩
      · rintro ⟨h1, h2⟩
        rw [h1, h2]
    rw [hcons, ih]
    constructor
    · rintro ⟨hbelow, hlast⟩ k hk
      rcases Nat.lt_succ_iff_lt_or_eq.mp hk with hk | rfl
      · exact hbelow k hk
      · exact hlast
    · intro h
      exact ⟨fun k hk => h k (Nat.lt_succ_of_lt hk), h n (Nat.lt_succ_self n)⟩

lemma mem_eq_underneath_iff {g : Gdb} (hdist : g.Distinct) (a : ℕ) :
    g.mem a = g.underneath a ↔ ∀ i, g.At a i → g.mem a = (g.breakpoints i).saved := by
  constructor
  · intro h i hi
    rw [h, Gdb.underneath_of_at hdist hi]
  · intro h
    by_cases hat : ∃ i, g.At a i
    · obtain ⟨i, hi⟩ := hat
      rw [h i hi, Gdb.underneath_of_at hdist hi]
    · rw [Gdb.underneath_of_none fun i hi => hat ⟨i, hi⟩]

/-! ## Writes -/

lemma storeAll_congr {m m' : Memory} {a : ℕ} (h : m a = m' a) (stores : List (ℕ × UInt8)) :
    storeAll m stores a = storeAll m' stores a := by
  induction stores generalizing m m' with
  | nil => exact h
  | cons p stores ih =>
    rw [storeAll, storeAll, foldl_cons, foldl_cons]
    refine ih ?_
    by_cases ha : a = p.1
    · rw [ha, update_self, update_self]
    · rw [update_of_ne ha, update_of_ne ha, h]

/-- The memory under the breakpoints takes a write exactly if the write leaves the bytes there alone. -/
lemma underneath_write_iff {g : Gdb} (hdist : g.Distinct) (stores : List (ℕ × UInt8)) :
    (g.serve (.write stores)).underneath = storeAll g.underneath stores ↔
      Watched.RequestOk g (.write stores) := by
  have hdist' := Gdb.distinct_serve hdist (.write stores)
  constructor
  · intro h i hi
    have hat : (g.serve (.write stores)).At (g.breakpoints i).addr i := ⟨hi, rfl⟩
    rw [← h, Gdb.underneath_of_at hdist' hat]
    rfl
  · intro h
    funext a
    by_cases hat : ∃ i, g.At a i
    · obtain ⟨i, hi⟩ := hat
      have hi' : (g.serve (.write stores)).At a i := hi
      rw [Gdb.underneath_of_at hdist' hi', ← hi.2, h i hi.1]
      rfl
    · have hnone : ∀ i, ¬ g.At a i := fun i hi => hat ⟨i, hi⟩
      have hnone' : ∀ i, ¬ (g.serve (.write stores)).At a i := hnone
      rw [Gdb.underneath_of_none hnone']
      exact storeAll_congr (Gdb.underneath_of_none hnone).symm stores

/-! ## Steps -/

namespace Watched

variable {w : Watched} {frameAddr : ℕ}

lemma transparent_iff (hs : w.stub.Sound) :
    w.Transparent ↔ (∀ r ∈ w.reads, r.1 = r.2) ∧ w.stub.gdb.underneath = w.ref := by
  rw [← Gdb.removeAll_mem hs.distinct]
  exact ⟨fun h => ⟨h.reads, h.restored⟩, fun h => ⟨h.1, h.2⟩⟩

lemma exception_target (s : Stub) (frame : Frame) :
    (s.exception frame).gdb.breakpoints = s.gdb.breakpoints ∧
      ∀ a, (∀ i, ¬ s.gdb.At a i) → (s.exception frame).gdb.mem a = s.gdb.mem a := by
  have hhit : (s.gdb.hit frame).1.breakpoints = s.gdb.breakpoints ∧
      ∀ a, (∀ i, ¬ s.gdb.At a i) → (s.gdb.hit frame).1.mem a = s.gdb.mem a := by
    rw [Gdb.hit]
    cases hfind : s.gdb.findBreakpoint frame.trapped with
    | none => exact ⟨rfl, fun _ _ => rfl⟩
    | some i =>
      refine ⟨rfl, fun a hnone => ?_⟩
      have hne : a ≠ frame.trapped := fun heq =>
        hnone i (heq ▸ Gdb.findBreakpoint_some hfind)
      simp only [update_of_ne hne]
  have hrestore : s.gdb.restorePendingBreakpoint.breakpoints = s.gdb.breakpoints ∧
      ∀ a, (∀ i, ¬ s.gdb.At a i) → s.gdb.restorePendingBreakpoint.mem a = s.gdb.mem a := by
    rw [Gdb.restorePendingBreakpoint]
    split_ifs
    · exact ⟨rfl, fun _ _ => rfl⟩
    · refine ⟨rfl, fun a hnone => ?_⟩
      cases hfind : s.gdb.findBreakpoint s.gdb.pendingAddr with
      | none => rfl
      | some i =>
        refine update_of_ne ?_ _ _
        rintro rfl
        exact hnone i ⟨(Gdb.findBreakpoint_some hfind).1, rfl⟩
  rw [Stub.exception]
  split_ifs with hoff hauto hbp
  · exact ⟨rfl, fun _ _ => rfl⟩
  · exact hrestore
  · have hsame := (s.gdb.hit frame).1.sameTarget_enterSession
    exact ⟨hsame.breakpoints.trans hhit.1, fun a ha => (congrFun hsame.mem a).trans (hhit.2 a ha)⟩
  · have hsame := s.gdb.sameTarget_enterSession
    exact ⟨hsame.breakpoints, fun a _ => congrFun hsame.mem a⟩

lemma step_sound (hs : w.stub.Sound) (ev : DebugEvent) : (w.step frameAddr ev).stub.Sound := by
  cases ev with
  | exception frame =>
    rw [step]
    split_ifs
    · exact hs
    · exact (Stub.exception_ready hs frame).1
  | packet cmd =>
    rw [step]
    split_ifs with hgo
    · exact hs
    · exact (Stub.packet_spec (by simpa using hgo) frameAddr cmd).sound hs
  | store addr v =>
    rw [step]
    split_ifs with hstop
    · exact hs
    · simp only [Stub.store, hstop]
      exact ⟨hs.enabled, hs.distinct, hs.auto_pending⟩

lemma packet_transparent_iff (hs : w.stub.Sound) (hstop : w.stub.stopped = true)
    (hw : w.Transparent) (cmd : List UInt8) :
    (w.step frameAddr (.packet cmd)).Transparent ↔ RequestOk w.stub.gdb (request cmd) := by
  obtain ⟨hreads, hunder⟩ := (transparent_iff hs).mp hw
  have hpacket := Stub.packet_spec hstop frameAddr cmd
  have hserved : (w.stub.packet frameAddr cmd).gdb.underneath =
      (w.stub.gdb.serve (request cmd)).underneath :=
    Gdb.underneath_congr (Gdb.distinct_serve hs.distinct _) hpacket.same.symm
      fun a _ => (congrFun hpacket.mem a).symm
  have hstep : w.step frameAddr (.packet cmd) = ⟨w.stub.packet frameAddr cmd,
      refAfter w.ref (request cmd), w.reads ++ w.answers frameAddr cmd⟩ := by
    rw [step, if_neg (by simp [hstop])]
  have hnext : (w.step frameAddr (.packet cmd)).Transparent ↔
      (∀ r ∈ w.answers frameAddr cmd, r.1 = r.2) ∧
        (w.stub.gdb.serve (request cmd)).underneath = refAfter w.ref (request cmd) := by
    rw [transparent_iff (step_sound hs _), hstep, hserved]
    simp only [forall_mem_append, and_iff_right hreads]
  rw [hnext, answers, ← hunder]
  cases hreq : request cmd with
  | read addr len =>
    have hreply := gdbHandleCommand_read hreq frameAddr w.stub.gdb w.stub.frame
    simp only [hreply, Option.getD_some, mem_singleton, forall_eq, gdbReadMemory_eq_iff,
      Gdb.serve, refAfter, and_true, RequestOk]
    exact forall₂_congr fun k _ => mem_eq_underneath_iff hs.distinct _
  | write stores =>
    rw [← underneath_write_iff hs.distinct]
    simp [refAfter]
  | insert addr =>
    simp [refAfter, RequestOk, Gdb.underneath_insert hs.distinct addr]
  | remove addr =>
    simp [refAfter, RequestOk, Gdb.underneath_remove hs.distinct addr]
  | other => simp [refAfter, RequestOk, Gdb.serve]

lemma store_transparent (hs : w.stub.Sound) (hw : w.Transparent) {addr : ℕ}
    (h : ∀ i, ¬ w.stub.gdb.At addr i) (v : UInt8) :
    (w.step frameAddr (.store addr v)).Transparent := by
  obtain ⟨hreads, hunder⟩ := (transparent_iff hs).mp hw
  rw [transparent_iff (step_sound hs _), step]
  split_ifs with hstop
  · exact ⟨hreads, hunder⟩
  · refine ⟨hreads, ?_⟩
    simp only [Stub.store, hstop, ← hunder]
    -- the store is one that a write could have made
    refine (underneath_write_iff hs.distinct [(addr, v)]).mpr fun i hi => ?_
    have hne : ∀ p ∈ [(addr, v)], p.1 ≠ (w.stub.gdb.breakpoints i).addr := by
      simp only [mem_singleton, forall_eq]
      exact fun heq => h i ⟨hi, heq.symm⟩
    rw [storeAll_of_forall_ne hne]
    exact Gdb.underneath_of_at hs.distinct ⟨hi, rfl⟩

lemma step_transparent_iff (hs : w.stub.Sound) (hw : w.Transparent) {ev : DebugEvent}
    (h : w.Legal ev) : (w.step frameAddr ev).Transparent ↔ w.Ok ev := by
  cases ev with
  | exception frame =>
    refine iff_of_true ?_ trivial
    obtain ⟨hreads, hunder⟩ := (transparent_iff hs).mp hw
    obtain ⟨hbreak, hmem⟩ := exception_target w.stub frame
    rw [transparent_iff (step_sound hs _), step]
    split_ifs
    · exact ⟨hreads, hunder⟩
    · exact ⟨hreads, (Gdb.underneath_congr hs.distinct hbreak hmem).trans hunder⟩
  | packet cmd =>
    by_cases hstop : w.stub.stopped = true
    · rw [packet_transparent_iff hs hstop hw cmd]
      exact ⟨fun h _ => h, fun h => h hstop⟩
    · refine iff_of_true ?_ fun hbad => absurd hbad hstop
      rw [step, if_pos (by simpa using hstop)]
      exact hw
  | store addr v => exact iff_of_true (store_transparent hs hw h v) trivial

/-- The start: no breakpoints, and nothing read. -/
def start (s : Stub) : Watched := ⟨s, s.gdb.mem, []⟩

end Watched

/-- **When breakpoints are transparent.**  After `gdb_init`, in every sequence of exceptions, packets and
stores of a target that does not write where breakpoints are, all answers to `m` show the reference memory
and the removal of all breakpoints would at any time restore it, exactly if no `m` covers a breakpoint whose
byte in memory is not the saved one and no `M` changes the byte under a breakpoint. -/
theorem breakpoints_transparent_iff (frameAddr : ℕ) (mem : Memory) (frame : Frame) (logTargets : UInt32)
    (serialEnabled : Bool) {evs : List DebugEvent}
    (hevs : Admissible Watched.Legal (Watched.step frameAddr)
      (.start (Stub.init mem frame logTargets serialEnabled)) evs) :
    (∀ pre, pre <+: evs → (run (Watched.step frameAddr)
        (.start (Stub.init mem frame logTargets serialEnabled)) pre).Transparent) ↔
      Admissible Watched.Ok (Watched.step frameAddr)
        (.start (Stub.init mem frame logTargets serialEnabled)) evs := by
  obtain ⟨⟨hsound, -⟩, -⟩ := Stub.init_sound mem frame logTargets serialEnabled
  have hnone : ∀ a i, ¬ (Stub.init mem frame logTargets serialEnabled).gdb.At a i := fun a i h =>
    absurd h.1 Bool.false_ne_true
  have hstart : (Watched.start (Stub.init mem frame logTargets serialEnabled)).Transparent := by
    refine (Watched.transparent_iff hsound).mpr ⟨fun r hr => absurd hr not_mem_nil, ?_⟩
    funext a
    exact Gdb.underneath_of_none (hnone a)
  exact forall_prefix_iff_admissible (I := Watched.Transparent) (J := fun w : Watched => w.stub.Sound)
    (fun w ev hs _ => Watched.step_sound hs ev)
    (fun _ _ hs hlegal hw => Watched.step_transparent_iff hs hw hlegal) hsound hstart hevs

/-- A breakpoint at `0x1000`, and a write and a read next to it. -/
def writeBeside : List DebugEvent :=
  [.exception { intNo := 3, rip := 0x5000 }, .packet (ascii "Z0,1000,1"),
    .packet (ascii "M1001,1:41"), .packet (ascii "m1001,2"), .packet (ascii "c"), .store 0x2000 7]

theorem breakpoints_transparent_iff_beside :
    Admissible Watched.Legal (Watched.step 0) (.start nopStub) writeBeside ∧
      Admissible Watched.Ok (Watched.step 0) (.start nopStub) writeBeside ∧
      ∀ pre, pre <+: writeBeside → (run (Watched.step 0) (.start nopStub) pre).Transparent := by
  have hlegal : Admissible Watched.Legal (Watched.step 0) (.start nopStub) writeBeside := by decide +kernel
  have hok : Admissible Watched.Ok (Watched.step 0) (.start nopStub) writeBeside := by decide +kernel
  exact ⟨hlegal, hok, (breakpoints_transparent_iff 0 (fun _ => 0x90) {} 3 true hlegal).mpr hok⟩

/-- **Breakpoints show through.**  With a breakpoint at `0x1000`, `m1000,1` is answered with its `cc`; and a
byte written there with `M` is lost when the breakpoint is removed. -/
theorem breakpoints_show_through :
    (run (Watched.step 0) (.start nopStub) [.exception { intNo := 3, rip := 0x5000 },
        .packet (ascii "Z0,1000,1"), .packet (ascii "m1000,1")]).reads = [(ascii "cc", ascii "90")] ∧
      (run (Watched.step 0) (.start nopStub) [.exception { intNo := 3, rip := 0x5000 },
        .packet (ascii "Z0,1000,1"), .packet (ascii "M1000,1:41"),
        .packet (ascii "z0,1000,1")]).ref 0x1000 = 0x41 ∧
      (run (Watched.step 0) (.start nopStub) [.exception { intNo := 3, rip := 0x5000 },
        .packet (ascii "Z0,1000,1"), .packet (ascii "M1000,1:41"),
        .packet (ascii "z0,1000,1")]).stub.gdb.mem 0x1000 = 0x90 ∧
      ∀ i, ((run (Watched.step 0) (.start nopStub) [.exception { intNo := 3, rip := 0x5000 },
        .packet (ascii "Z0,1000,1"), .packet (ascii "M1000,1:41"),
        .packet (ascii "z0,1000,1")]).stub.gdb.breakpoints i).used = false := by
  decide +kernel

end MyOs
