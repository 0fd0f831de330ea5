import MyOs.Sched.Syscalls

/-!
# What the scheduler's functions touch

Three things are said about each function of `src/scheduler.c` and about `SYS_execve`, once, so that
no invariant has to look into them again:

* which threads stay the same thread (`Thread.Same`) or are not touched at all (`Thread.SameRun`);
  `Keeps` is a change of states only, `Only i` a change of the one slot `i`;
* what happens to the registry of spaces and to the calls that create and destroy one, the
  `Ledger`;
* which thread `pick_next` returns.
-/

namespace MyOs

open Lib Function

/-! ## Threads -/

/-- The thread is in use. -/
abbrev Thread.Live (t : Thread) : Prop := t.state ≠ .unused

/-- The thread is in use and has not ended. -/
def Thread.Alive (t : Thread) : Prop := t.state ≠ .unused ∧ t.state ≠ .zombie

/-- The address lies on the thread's kernel stack. -/
def Thread.OnStack (t : Thread) (a : ℕ) : Prop :=
  t.kstack ≤ a ∧ a < t.kstack + t.kstackSize

/-- The thread is BLOCKED and waits for the child with this id. -/
def Thread.Awaits (t : Thread) (id : ℕ) : Prop :=
  t.state = .blocked ∧ (t.waitTarget ≤ 0 ∨ t.waitTarget = toInt id)

/-- The fields that only the creation of a thread, `SYS_execve` and its reaping assign. -/
structure Identity where
  id : ℕ
  isUser : Bool
  cr3 : ℕ
  parent : Option Slot
  kstack : ℕ
  kstackSize : ℕ
  cpuId : ℕ

def Thread.identity (t : Thread) : Identity where
  id := t.id
  isUser := t.isUser
  cr3 := t.cr3
  parent := t.parent
  kstack := t.kstack
  kstackSize := t.kstackSize
  cpuId := t.cpuId

/-- `t'` is the thread `t`, perhaps in another state. -/
structure Thread.Same (t t' : Thread) : Prop where
  identity : t'.identity = t.identity
  unused : t'.state = .unused ↔ t.state = .unused

/-- `t'` is the thread `t` where it was. -/
structure Thread.SameRun (t t' : Thread) : Prop where
  identity : t'.identity = t.identity
  state : t'.state = t.state
  rsp : t'.rsp = t.rsp
  waitTarget : t'.waitTarget = t.waitTarget

namespace Thread

variable {t t' t'' : Thread}

section

variable (h : t'.identity = t.identity)
include h

lemma id_eq : t'.id = t.id := congrArg Identity.id h

lemma isUser_eq : t'.isUser = t.isUser := congrArg Identity.isUser h

lemma cr3_eq : t'.cr3 = t.cr3 := congrArg Identity.cr3 h

lemma parent_eq : t'.parent = t.parent := congrArg Identity.parent h

lemma kstack_eq : t'.kstack = t.kstack := congrArg Identity.kstack h

lemma kstackSize_eq : t'.kstackSize = t.kstackSize :=
  congrArg Identity.kstackSize h

lemma cpuId_eq : t'.cpuId = t.cpuId := congrArg Identity.cpuId h

lemma onStack_eq {a : ℕ} : t'.OnStack a ↔ t.OnStack a := by
  rw [OnStack, OnStack, kstack_eq h, kstackSize_eq h]

end

lemma Same.refl (t : Thread) : t.Same t := ⟨rfl, Iff.rfl⟩

lemma Same.trans (h : t.Same t') (h' : t'.Same t'') : t.Same t'' :=
  ⟨h'.identity.trans h.identity, h'.unused.trans h.unused⟩

lemma SameRun.refl (t : Thread) : t.SameRun t := ⟨rfl, rfl, rfl, rfl⟩

lemma SameRun.trans (h : t.SameRun t') (h' : t'.SameRun t'') : t.SameRun t'' :=
  ⟨h'.identity.trans h.identity, h'.state.trans h.state, h'.rsp.trans h.rsp,
    h'.waitTarget.trans h.waitTarget⟩

end Thread

/-! ## The ledger of spaces -/

/-- Whether a call creates or destroys a space. -/
def Call.ofSpace : Call → Bool
  | .createSpace _ => true
  | .destroySpace _ => true
  | _ => false

/-- Whether a call takes or gives back a kernel stack. -/
def Call.ofStack : Call → Bool
  | .allocStack _ _ => true
  | .freeStack _ _ => true
  | _ => false

/-- The registry of spaces, the spaces created and destroyed so far, the kernel stacks taken and
given back so far, and the kernel's own PML4. -/
structure Ledger where
  spaces : List UserSpace
  calls : List Call
  stackCalls : List Call
  kspaceCr3 : ℕ

namespace Ledger

def created (l : Ledger) (cr3 : ℕ) : ℕ := l.calls.count (.createSpace cr3)

def destroyed (l : Ledger) (cr3 : ℕ) : ℕ := l.calls.count (.destroySpace cr3)

def retain (l : Ledger) (cr3 : ℕ) : Ledger :=
  if cr3 = 0 ∨ cr3 = l.kspaceCr3 then l else { l with spaces := retainSpace l.spaces cr3 }

def stackCall (l : Ledger) (c : Call) : Ledger := { l with stackCalls := c :: l.stackCalls }

def create (l : Ledger) (cr3 : ℕ) : Option Ledger :=
  (registerSpace l.spaces cr3).map fun spaces =>
    { l with spaces := spaces, calls := .createSpace cr3 :: l.calls }

def release (l : Ledger) (cr3 : ℕ) : Ledger :=
  if cr3 = 0 ∨ cr3 = l.kspaceCr3 then l
  else
    { l with
      spaces := (releaseSpace l.spaces cr3).2
      calls := if (releaseSpace l.spaces cr3).1 then .destroySpace cr3 :: l.calls else l.calls }

end Ledger

namespace Sched

variable {s s' s'' : Sched} {cpu : Cpu} {i j : Slot} {frame : ℕ} {f : Thread → Thread}

/-- The part of the state that the registry is about. -/
def ledger (s : Sched) : Ledger where
  spaces := s.spaces
  calls := s.calls.filter Call.ofSpace
  stackCalls := s.calls.filter Call.ofStack
  kspaceCr3 := s.kspaceCr3

@[simp] lemma ledger_update : (s.update i f).ledger = s.ledger := rfl

@[simp] lemma ledger_setFrame (a : ℕ) (fr : Frame) : (s.setFrame a fr).ledger = s.ledger := rfl

@[simp] lemma ledger_setRax (v : ℕ) : (s.setRax frame v).ledger = s.ledger := rfl

lemma ledger_record {cs : List Call} (h : ∀ c ∈ cs, c.ofSpace = false ∧ c.ofStack = false) :
    (s.record cs).ledger = s.ledger := by
  have hspace : cs.reverse.filter Call.ofSpace = [] := by simpa using fun c hc => (h c hc).1
  have hstack : cs.reverse.filter Call.ofStack = [] := by simpa using fun c hc => (h c hc).2
  simp [ledger, hspace, hstack]

lemma ledger_record_stack {c : Call} (h : c.ofSpace = false ∧ c.ofStack = true) :
    (s.record [c]).ledger = s.ledger.stackCall c := by
  simp [ledger, Ledger.stackCall, h.1, h.2]

@[simp] lemma ledger_closeFiles (files : List ℕ) : (s.closeFiles files).ledger = s.ledger := by
  refine ledger_record fun c hc => ?_
  obtain ⟨file, _, rfl⟩ := List.mem_map.mp hc
  exact ⟨rfl, rfl⟩

@[simp] lemma ledger_retain (cr3 : ℕ) :
    (s.vmmRetainUserSpace cr3).ledger = s.ledger.retain cr3 := by
  by_cases h : cr3 = 0 ∨ cr3 = s.kspaceCr3 <;>
    simp [vmmRetainUserSpace, Ledger.retain, ledger, h]

@[simp] lemma ledger_release (cr3 : ℕ) :
    (s.vmmReleaseUserSpace cr3).ledger = s.ledger.release cr3 := by
  by_cases h : cr3 = 0 ∨ cr3 = s.kspaceCr3
  · simp [vmmReleaseUserSpace, Ledger.release, ledger, h]
  · cases hlast : (releaseSpace s.spaces cr3).1 <;>
      simp [vmmReleaseUserSpace, Ledger.release, ledger, h, hlast, List.filter_cons, Call.ofSpace,
        Call.ofStack]

/-! ## Changes of state -/

/-- The threads stay in their slots and no space is touched. -/
structure Keeps (s s' : Sched) : Prop where
  threads : ∀ i, (s.threads i).Same (s'.threads i)
  ledger : s'.ledger = s.ledger

namespace Keeps

lemma trans (h : s.Keeps s') (h' : s'.Keeps s'') : s.Keeps s'' :=
  ⟨fun i => (h.threads i).trans (h'.threads i), h'.ledger.trans h.ledger⟩

lemma live (h : s.Keeps s') : (s'.threads i).Live ↔ (s.threads i).Live :=
  not_congr (h.threads i).unused

lemma update (h : (s.threads i).Same (f (s.threads i))) : s.Keeps (s.update i f) := by
  refine ⟨fun j => ?_, rfl⟩
  rcases eq_or_ne j i with rfl | hj
  · simpa using h
  · simpa [update_of_ne hj] using Thread.Same.refl _

lemma restate (hi : (s.threads i).Live) (hid : (f (s.threads i)).identity = (s.threads i).identity)
    (hf : (f (s.threads i)).Live) : s.Keeps (s.update i f) :=
  .update ⟨hid, iff_of_false hf hi⟩

end Keeps

/-- Thread `i` has become a zombie. -/
structure Zombified (i : Slot) (s s' : Sched) : Prop where
  current : s'.current = s.current
  rsp0 : s'.rsp0 = s.rsp0
  ledger : s'.ledger = s.ledger
  identity : ∀ j, (s'.threads j).identity = (s.threads j).identity
  rsp : ∀ j, j ≠ i → (s'.threads j).rsp = (s.threads j).rsp
  self : (s'.threads i).state = .zombie

/-- Thread `i` has become a zombie, and its parent was woken if it waited for it. -/
structure Marked (i : Slot) (s s' : Sched) : Prop extends Zombified i s s' where
  woken : ∀ j, j ≠ i → (s.threads i).parent = some j → (s.threads j).Awaits (s.threads i).id →
    (s'.threads j).state = .ready
  others : ∀ j, j ≠ i → ¬ ((s.threads i).parent = some j ∧ (s.threads j).Awaits (s.threads i).id) →
    (s'.threads j).state = (s.threads j).state ∧
      (s'.threads j).waitTarget = (s.threads j).waitTarget
  stored : s'.umem = s.umem ∨
    ∃ j, j ≠ i ∧ (s.threads i).parent = some j ∧ (s.threads j).Awaits (s.threads i).id

lemma zombified_update {code : ℤ} {p : Slot}
    (hs' : (s.update i fun t => { t with exitCode := code, state := .zombie }).update p
      (fun q => { q with children := q.children - 1 }) = s') :
    Zombified i s s' ∧ ∀ j, j ≠ i → (s.threads j).SameRun (s'.threads j) := by
  have hfields : ∀ j, (s'.threads j).identity = (s.threads j).identity ∧
      (s'.threads j).rsp = (s.threads j).rsp ∧
      (s'.threads j).waitTarget = (s.threads j).waitTarget ∧
      (s'.threads j).state = if j = i then .zombie else (s.threads j).state := by
    intro j
    rw [← hs']
    rcases eq_or_ne j p with rfl | hp
    · rcases eq_or_ne j i with rfl | hi
      · simp [Thread.identity]
      · simp [hi, Thread.identity]
    · rcases eq_or_ne j i with rfl | hi
      · simp [update_of_ne hp, Thread.identity]
      · simp [update_of_ne hp, hi]
  refine ⟨⟨by rw [← hs']; rfl, by rw [← hs']; rfl, by rw [← hs']; rfl, fun j => (hfields j).1,
    fun j _ => (hfields j).2.1, ?_⟩, fun j hj => ?_⟩
  · simpa using (hfields i).2.2.2
  · obtain ⟨hid, hrsp, hwait, hstate⟩ := hfields j
    exact ⟨hid, by simpa [hj] using hstate, hrsp, hwait⟩

/-- A status word is stored if there is a pointer to it. -/
lemma storeStatus_cases (s : Sched) (cpu : Cpu) (ptr : ℕ) (v : ℤ) :
    (∃ s', (if ptr ≠ 0 then s.storeInt cpu ptr v else some s) = some s' ∧ s'.threads = s.threads ∧
        s'.current = s.current ∧ s'.rsp0 = s.rsp0 ∧ s'.ledger = s.ledger ∧
        ¬ (ptr ≠ 0 ∧ ¬ ∀ k < 4, s.mapped (s.cr3 cpu) (ptr + k) = true)) ∨
      (if ptr ≠ 0 then s.storeInt cpu ptr v else some s) = none ∧
        ptr ≠ 0 ∧ ¬ ∀ k < 4, s.mapped (s.cr3 cpu) (ptr + k) = true := by
  rcases eq_or_ne ptr 0 with rfl | hne
  · exact Or.inl ⟨s, rfl, rfl, rfl, rfl, rfl, fun h => h.1 rfl⟩
  rw [if_pos hne, storeInt]
  by_cases hmapped : ∀ k < 4, s.mapped (s.cr3 cpu) (ptr + k) = true
  · exact Or.inl ⟨_, if_pos (by simpa using hmapped), rfl, rfl, rfl, rfl, fun h => h.2 hmapped⟩
  · exact Or.inr ⟨if_neg (by simpa using hmapped), hne, hmapped⟩

/-- The parent `p` waits for thread `i`, and its status word is not mapped in the space that is active
on `cpu`. -/
def StatusFaults (s : Sched) (cpu : Cpu) (i p : Slot) : Prop :=
  p ≠ i ∧ (s.threads i).parent = some p ∧ (s.threads p).Awaits (s.threads i).id ∧
    (s.threads p).waitStatusPtr ≠ 0 ∧
      ¬ ∀ k < 4, s.mapped (s.cr3 cpu) ((s.threads p).waitStatusPtr + k) = true

/-- **What `thread_mark_zombie` does**: it marks the thread and wakes its parent, or stops between the
two. -/
lemma threadMarkZombie_cases (s : Sched) (cpu : Cpu) (i : Slot) (code : ℤ) :
    (∃ s', s.threadMarkZombie cpu i code = .ok s' ∧ Marked i s s' ∧ ∀ p, ¬ s.StatusFaults cpu i p) ∨
      ∃ s' p, s.threadMarkZombie cpu i code = .error s' ∧ s.StatusFaults cpu i p ∧
        Zombified i s s' ∧ ∀ j, j ≠ i → (s.threads j).SameRun (s'.threads j) := by
  rw [threadMarkZombie]
  have hself : (s.update i fun t => { t with exitCode := code, state := .zombie }).threads i =
      { s.threads i with exitCode := code, state := .zombie } := by simp
  rw [hself]
  dsimp only
  split
  · rename_i hnone
    have hfields : ∀ j, j ≠ i → (s.threads j).SameRun
        ((s.update i fun t => { t with exitCode := code, state := .zombie }).threads j) := by
      intro j hj
      simpa [update_of_ne hj] using Thread.SameRun.refl _
    refine Or.inl ⟨_, rfl, ⟨⟨rfl, rfl, rfl, fun j => ?_, fun j hj => (hfields j hj).rsp, by simp⟩,
      fun j _ hj => ?_, fun j hj _ => ⟨(hfields j hj).state, (hfields j hj).waitTarget⟩, Or.inl rfl⟩,
      fun p hp => ?_⟩
    · rcases eq_or_ne j i with rfl | hj
      · simp [Thread.identity]
      · exact (hfields j hj).identity
    · simp [hnone] at hj
    · simp [StatusFaults, hnone] at hp
  · rename_i p hp
    generalize hs2 : (s.update i _).update p _ = s2
    obtain ⟨hz, hothers⟩ := zombified_update hs2
    have hparent : ∀ j, (s.threads i).parent = some j ↔ j = p := fun j => by
      rw [hp, Option.some.injEq, eq_comm]
    -- the parent is tested after the zombie was marked, so a thread never wakes itself
    have hawaits : (s2.threads p).Awaits (s2.threads i).id ↔
        p ≠ i ∧ (s.threads p).Awaits (s.threads i).id := by
      rw [Thread.id_eq (hz.identity i)]
      rcases eq_or_ne p i with rfl | hpi
      · simp [Thread.Awaits, hz.self]
      · simp [Thread.Awaits, (hothers p hpi).state, (hothers p hpi).waitTarget, hpi]
    split
    · rename_i hwait
      obtain ⟨hpi, hwaits⟩ := hawaits.mp hwait
      have hword : (s2.threads p).waitStatusPtr = (s.threads p).waitStatusPtr ∧
          s2.mapped = s.mapped ∧ s2.cr3 = s.cr3 := by
        rw [← hs2]
        exact ⟨by simp [update_of_ne hpi], rfl, rfl⟩
      rcases storeStatus_cases s2 cpu (s2.threads p).waitStatusPtr code with
        ⟨s3, hstore, hthreads, hcurrent, hrsp0, hledger, hfault⟩ | ⟨hstore, hfault⟩ <;>
        rw [hstore] <;> rw [hword.1, hword.2.1, hword.2.2] at hfault
      swap
      · exact Or.inr ⟨s2, p, rfl, ⟨hpi, hp, hwaits, hfault⟩, hz, hothers⟩
      refine Or.inl ⟨_, rfl, ⟨⟨hcurrent.trans hz.current, hrsp0.trans hz.rsp0, ?_, fun j => ?_,
        fun j hj => ?_, ?_⟩, fun j hj hjp _ => ?_, fun j hj hnot => ?_, Or.inr ⟨p, hpi, hp, hwaits⟩⟩,
        fun j hj => ?_⟩
      · rw [ledger_update, hledger, hz.ledger]
      · rw [← hz.identity j]
        rcases eq_or_ne j p with rfl | hjp
        · simp [Thread.identity, hthreads]
        · simp [update_of_ne hjp, hthreads]
      · rw [← hz.rsp j hj]
        rcases eq_or_ne j p with rfl | hjp
        · simp [hthreads]
        · simp [update_of_ne hjp, hthreads]
      · simp [update_of_ne hpi.symm, hthreads, hz.self]
      · rw [(hparent j).mp hjp]
        simp
      · have hjp : j ≠ p := fun hjp => hnot ⟨(hparent j).mpr hjp, hjp ▸ hwaits⟩
        simp [update_of_ne hjp, hthreads, (hothers j hj).state, (hothers j hj).waitTarget]
      · obtain ⟨_, hjp, _, hfaults⟩ := hj
        exact hfault ((hparent j).mp hjp ▸ hfaults)
    · rename_i hwait
      refine Or.inl ⟨_, rfl, ⟨hz, fun j hj hjp haw => ?_, fun j hj _ => ⟨(hothers j hj).state,
        (hothers j hj).waitTarget⟩, Or.inl (by rw [← hs2]; rfl)⟩, fun j hj => ?_⟩
      · rw [(hparent j).mp hjp] at hj haw
        exact absurd (hawaits.mpr ⟨hj, haw⟩) hwait
      · obtain ⟨hji, hjp, haw, _⟩ := hj
        rw [(hparent j).mp hjp] at hji haw
        exact hwait (hawaits.mpr ⟨hji, haw⟩)

lemma threadMarkZombie_marked {code : ℤ} (h : s.threadMarkZombie cpu i code = .ok s') :
    Marked i s s' := by
  rcases threadMarkZombie_cases s cpu i code with ⟨s₁, heq, hmark, _⟩ | ⟨s₁, p, heq, _⟩
  · cases heq.symm.trans h
    exact hmark
  · cases heq.symm.trans h

lemma Marked.of_update (h : Marked i (s.update i f) s')
    (hf : (f (s.threads i)).identity = (s.threads i).identity) : Marked i s s' := by
  have hsame : ∀ j, ((s.update i f).threads j).identity = (s.threads j).identity := by
    intro j
    rcases eq_or_ne j i with rfl | hj
    · simpa using hf
    · simp [update_of_ne hj]
  have hother : ∀ j, j ≠ i → (s.update i f).threads j = s.threads j := fun j hj => by
    simp [update_of_ne hj]
  have hid := Thread.id_eq (hsame i)
  have hparent := Thread.parent_eq (hsame i)
  refine ⟨⟨h.current, h.rsp0, h.ledger, fun j => (h.identity j).trans (hsame j), fun j hj => ?_,
    h.self⟩, fun j hj hjp haw => ?_, fun j hj hnot => ?_, h.stored.imp_right ?_⟩
  · rw [h.rsp j hj, hother j hj]
  · refine h.woken j hj (hparent.trans hjp) ?_
    rwa [hid, hother j hj]
  · rw [← hother j hj]
    refine h.others j hj fun hboth => hnot ⟨hparent.symm.trans hboth.1, ?_⟩
    rw [← hid, ← hother j hj]
    exact hboth.2
  · rintro ⟨j, hj, hjp, haw⟩
    rw [hid, hother j hj] at haw
    exact ⟨j, hj, hparent.symm.trans hjp, haw⟩

lemma Marked.live (h : Marked i s s') (hi : (s.threads i).Live) (j : Slot) :
    (s'.threads j).Live ↔ (s.threads j).Live := by
  rcases eq_or_ne j i with rfl | hj
  · exact iff_of_true (by simp [h.self]) hi
  · by_cases haw : (s.threads i).parent = some j ∧ (s.threads j).Awaits (s.threads i).id
    · exact iff_of_true (by simp [h.woken j hj haw.1 haw.2]) (by simp [haw.2.1])
    · rw [Thread.Live, (h.others j hj haw).1]

/-! ## Choosing the next thread -/

lemma findSlot_some {p : Slot → Bool} (h : findSlot p = some i) : p i = true :=
  List.find?_some h

lemma findSlot_none {p : Slot → Bool} (h : findSlot p = none) (i : Slot) : p i = false := by
  have := List.find?_eq_none.mp h i (List.mem_finRange i)
  simpa using this

/-- A READY thread of the CPU against the best one so far. -/
def better (threads : Slot → Thread) (best : Option Slot) (i : Slot) : Option Slot :=
  match best with
  | none => some i
  | some b => if (threads i).priority > (threads b).priority then some i else best

lemma pickBest_eq (threads : Slot → Thread) (cpu : Cpu) :
    pickBest threads cpu = ((List.finRange maxThreads).filter fun i =>
      (threads i).state = .ready ∧ (threads i).cpuId = cpu).foldl (better threads) none := by
  rw [List.foldl_filter, pickBest]
  congr 1
  funext best i
  by_cases hready : (threads i).state = .ready <;> by_cases hcpu : (threads i).cpuId = cpu <;>
    cases best <;> simp [hready, hcpu, better]

lemma pickBest_some {threads : Slot → Thread} (h : pickBest threads cpu = some i) :
    (threads i).state = .ready ∧ (threads i).cpuId = cpu := by
  rw [pickBest_eq] at h
  refine List.foldlRecOn (motive := fun best => ∀ i, best = some i →
    (threads i).state = .ready ∧ (threads i).cpuId = cpu) _ _ (by simp)
    (fun best hbest k hk i hi => ?_) i h
  have hready := of_decide_eq_true (List.mem_filter.mp hk).2
  cases best with
  | none =>
    cases hi
    exact hready
  | some b =>
    simp only [better] at hi
    split_ifs at hi
    · cases hi
      exact hready
    · exact hbest i hi

lemma pickBest_none {threads : Slot → Thread} (h : pickBest threads cpu = none) (i : Slot) :
    ¬ ((threads i).state = .ready ∧ (threads i).cpuId = cpu) := by
  rw [pickBest_eq] at h
  generalize hslots : List.filter _ _ = slots at h
  cases slots with
  | nil => simpa using List.filter_eq_nil_iff.mp hslots i (List.mem_finRange i)
  | cons k slots =>
    -- once the loop holds a thread it never lets go of having one
    refine absurd h (List.foldlRecOn (motive := (· ≠ none)) slots _ (Option.some_ne_none k) ?_)
    rintro (_ | b) _ j _
    · simp [better]
    · rw [better]
      split_ifs <;> simp

/-- What `pick_next` returns: a READY thread of the CPU; if there is none, the running thread while
it can go on; and otherwise the bootstrap thread. -/
lemma pickNext_spec (s : Sched) (cpu : Cpu) :
    ((s.threads (s.pickNext cpu)).state = .ready ∧ (s.threads (s.pickNext cpu)).cpuId = cpu) ∨
      (∀ i, ¬ ((s.threads i).state = .ready ∧ (s.threads i).cpuId = cpu)) ∧
        (s.pickNext cpu = s.current cpu ∧
            ((s.threadCurrent cpu).state = .running ∨ (s.threadCurrent cpu).state = .ready) ∨
          s.pickNext cpu = 0 ∧
            ¬ ((s.threadCurrent cpu).state = .running ∨ (s.threadCurrent cpu).state = .ready)) := by
  rw [pickNext]
  split
  · rename_i i hbest
    exact Or.inl (pickBest_some hbest)
  · rename_i hbest
    refine Or.inr ⟨pickBest_none hbest, ?_⟩
    dsimp only
    split
    · rename_i hgoes
      exact Or.inl ⟨rfl, hgoes⟩
    · rename_i hgoes
      exact Or.inr ⟨rfl, hgoes⟩

lemma pickNext_live (hboot : (s.threads 0).Live) : (s.threads (s.pickNext cpu)).Live := by
  rcases pickNext_spec s cpu with h | ⟨_, ⟨h, hgoes⟩ | ⟨h, _⟩⟩
  · rw [Thread.Live, h.1]
    decide
  · rw [h]
    rcases hgoes with hgoes | hgoes <;> exact fun hnot => by simp [threadCurrent, hnot] at hgoes
  · rwa [h]

/-! ## Changes of one slot -/

/-- Nothing happens to the threads outside slot `i`, and no switch takes place. -/
structure Only (i : Slot) (s s' : Sched) : Prop where
  threads : ∀ j, j ≠ i → (s.threads j).SameRun (s'.threads j)
  current : s'.current = s.current
  rsp0 : s'.rsp0 = s.rsp0

namespace Only

lemma of_eq (hthreads : s'.threads = s.threads) (hcurrent : s'.current = s.current)
    (hrsp0 : s'.rsp0 = s.rsp0) : Only i s s' :=
  ⟨fun j _ => by rw [hthreads]; exact .refl _, hcurrent, hrsp0⟩

lemma trans (h : Only i s s') (h' : Only i s' s'') : Only i s s'' :=
  ⟨fun j hj => (h.threads j hj).trans (h'.threads j hj), h'.current.trans h.current,
    h'.rsp0.trans h.rsp0⟩

lemma update (i : Slot) (f : Thread → Thread) : Only i s (s.update i f) := by
  refine ⟨fun j hj => ?_, rfl, rfl⟩
  simpa [update_of_ne hj] using Thread.SameRun.refl _

lemma update_other (h : (s.threads j).SameRun (f (s.threads j))) : Only i s (s.update j f) := by
  refine ⟨fun k _ => ?_, rfl, rfl⟩
  rcases eq_or_ne k j with rfl | hk
  · simpa using h
  · simpa [update_of_ne hk] using Thread.SameRun.refl _

lemma retain (cr3 : ℕ) : Only i s (s.vmmRetainUserSpace cr3) := by
  rw [vmmRetainUserSpace]
  split <;> exact of_eq rfl rfl rfl

lemma release (cr3 : ℕ) : Only i s (s.vmmReleaseUserSpace cr3) := by
  rw [vmmReleaseUserSpace]
  split <;> exact of_eq rfl rfl rfl

end Only

lemma threads_retain (cr3 : ℕ) : (s.vmmRetainUserSpace cr3).threads = s.threads := by
  rw [vmmRetainUserSpace]
  split <;> rfl

lemma threads_release (cr3 : ℕ) : (s.vmmReleaseUserSpace cr3).threads = s.threads := by
  rw [vmmReleaseUserSpace]
  split <;> rfl

lemma record_only (cs : List Call) : Only i s (s.record cs) := .of_eq rfl rfl rfl

lemma setRax_only (v : ℕ) : Only i s (s.setRax frame v) := .of_eq rfl rfl rfl

lemma setFrame_only (a : ℕ) (fr : Frame) : Only i s (s.setFrame a fr) := .of_eq rfl rfl rfl

end Sched

end MyOs
