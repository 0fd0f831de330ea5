import MyOs.Lib.RefCount
import MyOs.Memory.SpaceRegistry
import MyOs.Sched.Sections

/-!
# User spaces and kernel stacks in use

The count that `g_user_spaces` keeps for a space is the number of threads that live in it.  A fork
takes a reference and gives it back where it fails, `SYS_execve` exchanges one for another, and a
thread keeps its own until it is reaped.  `Ledger.Booked` is the library's `Balanced` at the registry,
with one lemma for each of its moves; every operation is then a sequence of such moves.

A thread that was created by another one also holds the kernel stack it was given.  Some failures
leak a stack, so `StacksHeld` says only that no stack of a thread in use has been given back.
-/

namespace MyOs

open Lib Function

/-! ## Moves of the ledger -/

namespace Ledger

variable {l l' : Ledger} {use : Slot → Option ℕ} {hand : Option ℕ} {x : ℕ} {c : Call} {i : Slot}

/-- The registry and the history agree with the references of the threads and the one in hand. -/
structure Booked (l : Ledger) (use : Slot → Option ℕ) (hand : Option ℕ) : Prop where
  oneSlot : OneSlot l.spaces
  balanced : Balanced (refsOf l.spaces) l.created l.destroyed use hand

@[simp] lemma retain_kspaceCr3 : (l.retain x).kspaceCr3 = l.kspaceCr3 := by
  rw [retain]
  split <;> rfl

@[simp] lemma release_kspaceCr3 : (l.release x).kspaceCr3 = l.kspaceCr3 := by
  rw [release]
  split <;> rfl

@[simp] lemma stackCall_kspaceCr3 : (l.stackCall c).kspaceCr3 = l.kspaceCr3 := rfl

@[simp] lemma retain_stackCalls : (l.retain x).stackCalls = l.stackCalls := by
  rw [retain]
  split <;> rfl

@[simp] lemma release_stackCalls : (l.release x).stackCalls = l.stackCalls := by
  rw [release]
  split <;> rfl

@[simp] lemma stackCall_stackCalls : (l.stackCall c).stackCalls = c :: l.stackCalls := rfl

lemma create_frame (h : l.create x = some l') :
    l'.kspaceCr3 = l.kspaceCr3 ∧ l'.stackCalls = l.stackCalls := by
  obtain ⟨spaces, _, rfl⟩ := Option.map_eq_some_iff.mp h
  exact ⟨rfl, rfl⟩

namespace Booked

lemma stackCall (h : l.Booked use hand) (c : Call) : (l.stackCall c).Booked use hand :=
  ⟨h.oneSlot, h.balanced⟩

lemma exchange (h : l.Booked use hand) (i : Slot) :
    l.Booked (update use i hand) (use i) :=
  ⟨h.oneSlot, h.balanced.exchange i⟩

lemma create (h : l.Booked use none) (hfresh : l.created x = l.destroyed x)
    (hl : l.create x = some l') : l'.Booked use (some x) := by
  obtain ⟨spaces, hreg, rfl⟩ := Option.map_eq_some_iff.mp hl
  have hrefs : refsOf l.spaces x = 0 := by
    have := h.balanced.alive x
    omega
  obtain ⟨hone, hcount⟩ := registerSpace_spec h.oneSlot hrefs hreg
  refine ⟨hone, ?_⟩
  have hcreated : Ledger.created { l with spaces := spaces, calls := .createSpace x :: l.calls } =
      update l.created x (l.created x + 1) := by
    funext y
    rcases eq_or_ne y x with rfl | hy
    · simp [Ledger.created]
    · simp [Ledger.created, update_of_ne hy, Ne.symm hy]
  have hdestroyed : Ledger.destroyed { l with spaces := spaces, calls := .createSpace x :: l.calls } =
      l.destroyed := by
    funext y
    simp [Ledger.destroyed]
  rw [hcreated, hdestroyed, hcount]
  exact h.balanced.create hfresh

variable (hx : x ≠ 0 ∧ x ≠ l.kspaceCr3)
include hx

lemma retain (h : l.Booked use none) (hi : use i = some x) : (l.retain x).Booked use (some x) := by
  have hrefs : refsOf l.spaces x ≠ 0 := h.balanced.refs_ne_zero (Or.inl hi)
  have hwrap : refsOf l.spaces x + 1 < 2 ^ 32 := by
    -- no more references than threads
    have hle := holders_le use x
    have := h.balanced.refs_eq x
    simp only [inHand_none, Fintype.card_fin, maxThreads] at this hle
    omega
  obtain ⟨hone, hcount⟩ := retainSpace_spec h.oneSlot hrefs hwrap
  rw [Ledger.retain, if_neg (by tauto)]
  refine ⟨hone, ?_⟩
  rw [hcount]
  exact h.balanced.retain hrefs

lemma release (h : l.Booked use (some x)) : (l.release x).Booked use none := by
  have hrefs : refsOf l.spaces x ≠ 0 := h.balanced.refs_ne_zero (i := (0 : Slot)) (Or.inr rfl)
  obtain ⟨hlast, hone, hcount⟩ := releaseSpace_spec h.oneSlot hrefs
  have hreleased : l.release x = { l with
      spaces := (releaseSpace l.spaces x).2
      calls := if refsOf l.spaces x = 1 then .destroySpace x :: l.calls else l.calls } := by
    rw [Ledger.release, if_neg (by tauto), hlast]
    simp
  have hcreated : (l.release x).created = l.created := by
    funext y
    rw [hreleased]
    simp only [Ledger.created]
    split <;> simp
  have hdestroyed : (l.release x).destroyed = update l.destroyed x
      (l.destroyed x + if refsOf l.spaces x = 1 then 1 else 0) := by
    funext y
    rw [hreleased]
    simp only [Ledger.destroyed]
    rcases eq_or_ne y x with rfl | hy
    · split <;> simp
    · split <;> simp [Ledger.destroyed, update_of_ne hy, Ne.symm hy]
  refine ⟨by rw [hreleased]; exact hone, ?_⟩
  rw [hcreated, hdestroyed, hreleased, hcount]
  exact h.balanced.release

end Booked

end Ledger

/-! ## Kernel stacks -/

/-- Of every stack, more have been taken than given back, by those that are in use. -/
def StacksHeld (calls : List Call) (use : Slot → Option (ℕ × ℕ)) : Prop :=
  ∀ k n, holders use (k, n) + calls.count (.freeStack k n) ≤ calls.count (.allocStack k n)

namespace StacksHeld

variable {calls : List Call} {use : Slot → Option (ℕ × ℕ)} {i : Slot} {k n : ℕ}

lemma alloc (h : StacksHeld calls use) (hi : use i = none) :
    StacksHeld (.allocStack k n :: calls) (update use i (some (k, n))) := by
  intro k' n'
  have hmove := holders_update use i (some (k, n)) (k', n')
  have hheld := h k' n'
  simp only [hi, inHand, Option.some.injEq, Prod.mk.injEq, reduceCtorEq, if_false] at hmove
  simp only [List.count_cons, beq_iff_eq, reduceCtorEq, Call.allocStack.injEq, if_false]
  split_ifs at hmove ⊢ <;> omega

lemma free (h : StacksHeld calls use) (hi : use i = some (k, n)) :
    StacksHeld (.freeStack k n :: calls) (update use i none) := by
  intro k' n'
  have hmove := holders_update use i none (k', n')
  have hheld := h k' n'
  simp only [hi, inHand, Option.some.injEq, Prod.mk.injEq, reduceCtorEq, if_false] at hmove
  simp only [List.count_cons, beq_iff_eq, reduceCtorEq, Call.freeStack.injEq, if_false]
  split_ifs at hmove ⊢ <;> omega

lemma drop (h : StacksHeld calls use) : StacksHeld calls (update use i none) := by
  intro k' n'
  have hmove := holders_update use i none (k', n')
  have hheld := h k' n'
  rw [inHand_none] at hmove
  omega

end StacksHeld

/-! ## The accounts of the scheduler -/

namespace Sched

variable {s s' : Sched} {cpu : Cpu} {i j : Slot} {frame : ℕ}

/-- The space that a thread in use refers to. -/
def spaceOf (s : Sched) (i : Slot) : Option ℕ :=
  if (s.threads i).Live ∧ (s.threads i).isUser = true then some (s.threads i).cr3 else none

/-- User threads live in spaces of their own and kernel threads in the kernel's. -/
def SpaceOk (kspaceCr3 : ℕ) (t : Thread) : Prop :=
  t.Live → if t.isUser then t.cr3 ≠ 0 ∧ t.cr3 ≠ kspaceCr3 else t.cr3 = kspaceCr3

/-- The kernel stack that a thread in use was given, and its pages. -/
def stackOf (s : Sched) (i : Slot) : Option (ℕ × ℕ) :=
  if (s.threads i).Live ∧ (s.threads i).parent ≠ none then
    some ((s.threads i).kstack, (s.threads i).kstackSize / pageSize)
  else none

structure Accounts (s : Sched) : Prop where
  booked : s.ledger.Booked s.spaceOf none
  held : StacksHeld s.ledger.stackCalls s.stackOf
  spaces : ∀ i, SpaceOk s.ledger.kspaceCr3 (s.threads i)
  boot : (s.threads 0).Live ∧ (s.threads 0).parent = none

/-- A page that may become a PML4: it is not the kernel's, and no space is alive there. -/
def FreshPml4 (s : Sched) (x : ℕ) : Prop :=
  x ≠ s.kspaceCr3 ∧ s.ledger.created x = s.ledger.destroyed x

instance (s : Sched) (x : ℕ) : Decidable (FreshPml4 s x) :=
  inferInstanceAs (Decidable (_ ∧ _))

lemma spaceOf_user (hlive : (s.threads i).Live) (huser : (s.threads i).isUser = true) :
    s.spaceOf i = some (s.threads i).cr3 := by
  rw [spaceOf, if_pos ⟨hlive, huser⟩]

lemma spaceOf_unused (h : (s.threads i).state = .unused) : s.spaceOf i = none := by
  rw [spaceOf, if_neg fun hlive => hlive.1 h]

lemma spaceOf_kernel (h : (s.threads i).isUser = false) : s.spaceOf i = none := by
  simp [spaceOf, h]

lemma spaceOf_only (h : ∀ j, j ≠ i → (s.threads j).SameRun (s'.threads j)) :
    s'.spaceOf = Function.update s.spaceOf i (s'.spaceOf i) := by
  funext j
  rcases eq_or_ne j i with rfl | hj
  · simp
  · have hsame := h j hj
    simp only [update_of_ne hj, spaceOf, Thread.Live, hsame.state,
      Thread.isUser_eq hsame.identity, Thread.cr3_eq hsame.identity]

lemma stackOf_created {p : Slot} (hlive : (s.threads i).Live)
    (hparent : (s.threads i).parent = some p) :
    s.stackOf i = some ((s.threads i).kstack, (s.threads i).kstackSize / pageSize) := by
  rw [stackOf, if_pos ⟨hlive, by simp [hparent]⟩]

lemma stackOf_unused (h : (s.threads i).state = .unused) : s.stackOf i = none := by
  rw [stackOf, if_neg fun hlive => hlive.1 h]

lemma stackOf_only (h : ∀ j, j ≠ i → (s.threads j).SameRun (s'.threads j)) :
    s'.stackOf = Function.update s.stackOf i (s'.stackOf i) := by
  funext j
  rcases eq_or_ne j i with rfl | hj
  · simp
  · have hsame := h j hj
    simp only [update_of_ne hj, stackOf, Thread.Live, hsame.state, Thread.parent_eq hsame.identity,
      Thread.kstack_eq hsame.identity, Thread.kstackSize_eq hsame.identity]

namespace Accounts

section

variable (h : s.Accounts)
include h

lemma spaceOk_user (hlive : (s.threads i).Live) (huser : (s.threads i).isUser = true) :
    (s.threads i).cr3 ≠ 0 ∧ (s.threads i).cr3 ≠ s.ledger.kspaceCr3 := by
  have := h.spaces i hlive
  rwa [if_pos huser] at this

lemma keeps (hk : s.Keeps s') : s'.Accounts := by
  have hspace : s'.spaceOf = s.spaceOf := by
    funext i
    have hid := (hk.threads i).identity
    simp only [spaceOf, ne_eq, (hk.threads i).unused, Thread.isUser_eq hid, Thread.cr3_eq hid]
  have hstack : s'.stackOf = s.stackOf := by
    funext i
    have hid := (hk.threads i).identity
    simp only [stackOf, ne_eq, (hk.threads i).unused, Thread.parent_eq hid, Thread.kstack_eq hid,
      Thread.kstackSize_eq hid]
  refine ⟨?_, ?_, fun i hlive => ?_, hk.live.mpr h.boot.1, ?_⟩
  · rw [hk.ledger, hspace]
    exact h.booked
  · rw [hk.ledger, hstack]
    exact h.held
  · have hid := (hk.threads i).identity
    rw [hk.ledger, Thread.isUser_eq hid, Thread.cr3_eq hid]
    exact h.spaces i (hk.live.mp hlive)
  · exact (Thread.parent_eq (hk.threads 0).identity).trans h.boot.2

lemma only (honly : ∀ j, j ≠ i → (s.threads j).SameRun (s'.threads j))
    (hkspace : s'.ledger.kspaceCr3 = s.ledger.kspaceCr3)
    (hbooked : s'.ledger.Booked (Function.update s.spaceOf i (s'.spaceOf i)) none)
    (hheld : StacksHeld s'.ledger.stackCalls (Function.update s.stackOf i (s'.stackOf i)))
    (hi : SpaceOk s.ledger.kspaceCr3 (s'.threads i))
    (hboot : i = 0 → (s'.threads 0).Live ∧ (s'.threads 0).parent = none) : s'.Accounts := by
  refine ⟨?_, ?_, fun j => ?_, ?_⟩
  · rwa [spaceOf_only honly]
  · rwa [stackOf_only honly]
  · rw [hkspace]
    rcases eq_or_ne j i with rfl | hj
    · exact hi
    · have hsame := honly j hj
      rw [SpaceOk, Thread.Live, hsame.state, Thread.isUser_eq hsame.identity,
        Thread.cr3_eq hsame.identity]
      exact h.spaces j
  · by_cases hi0 : i = 0
    · exact hboot hi0
    · have hsame := honly 0 (Ne.symm hi0)
      rw [Thread.Live, hsame.state, Thread.parent_eq hsame.identity]
      exact h.boot

lemma ne_boot (hfree : (s.threads i).state = .unused) : i ≠ 0 := by
  rintro rfl
  exact h.boot.1 hfree

lemma discarded (hd : Discarded i s s') (hkspace : s'.ledger.kspaceCr3 = s.ledger.kspaceCr3)
    (hbooked : s'.ledger.Booked s.spaceOf none) (hstack : s'.ledger.stackCalls = s.ledger.stackCalls) :
    s'.Accounts := by
  refine h.only hd.only.threads hkspace ?_ ?_ (fun hlive => absurd hd.state hlive)
    (fun hi => absurd hi (h.ne_boot hd.free))
  · have huse : Function.update s.spaceOf i (s'.spaceOf i) = s.spaceOf := by
      rw [update_eq_self_iff, spaceOf_unused hd.state, spaceOf_unused hd.free]
    rwa [huse]
  · rw [hstack, stackOf_unused hd.state]
    exact h.held.drop

lemma stack_taken (hs : Spawned cpu i s s')
    (hstack : s'.ledger.stackCalls = .allocStack (s'.threads i).kstack
      ((s'.threads i).kstackSize / pageSize) :: s.ledger.stackCalls) :
    StacksHeld s'.ledger.stackCalls (Function.update s.stackOf i (s'.stackOf i)) := by
  have hlive : (s'.threads i).Live := by simp [Thread.Live, hs.new.state]
  rw [hstack, stackOf_created hlive hs.new.parent]
  exact h.held.alloc (stackOf_unused hs.free)

lemma spawned {x : ℕ} (hs : Spawned cpu i s s') (huser : (s'.threads i).isUser = true)
    (hcr3 : (s'.threads i).cr3 = x) (hx : x ≠ 0 ∧ x ≠ s.ledger.kspaceCr3)
    (hkspace : s'.ledger.kspaceCr3 = s.ledger.kspaceCr3) (hbooked : s'.ledger.Booked s.spaceOf (some x))
    (hstack : s'.ledger.stackCalls = .allocStack (s'.threads i).kstack
      ((s'.threads i).kstackSize / pageSize) :: s.ledger.stackCalls) : s'.Accounts := by
  have hlive : (s'.threads i).Live := by simp [Thread.Live, hs.new.state]
  refine h.only hs.only.threads hkspace ?_ (h.stack_taken hs hstack) (fun _ => ?_)
    (fun hi => absurd hi (h.ne_boot hs.free))
  · have := hbooked.exchange i
    rwa [spaceOf_unused hs.free, ← hcr3, ← spaceOf_user hlive huser] at this
  · rw [if_pos huser, hcr3]
    exact hx

lemma kernelThread (honly : ∀ j, j ≠ i → (s.threads j).SameRun (s'.threads j))
    (hfree : (s.threads i).state = .unused) (huser : (s'.threads i).isUser = false)
    (hcr3 : (s'.threads i).cr3 = s.ledger.kspaceCr3)
    (hkspace : s'.ledger.kspaceCr3 = s.ledger.kspaceCr3) (hbooked : s'.ledger.Booked s.spaceOf none)
    (hheld : StacksHeld s'.ledger.stackCalls (Function.update s.stackOf i (s'.stackOf i))) :
    s'.Accounts := by
  refine h.only honly hkspace ?_ hheld (fun _ => ?_) (fun hi => absurd hi (h.ne_boot hfree))
  · have huse : Function.update s.spaceOf i (s'.spaceOf i) = s.spaceOf := by
      rw [update_eq_self_iff, spaceOf_kernel huser, spaceOf_unused hfree]
    rwa [huse]
  · rw [huser]
    exact hcr3

lemma sameThreads (hsame : s.SameThreads s') (hkspace : s'.ledger.kspaceCr3 = s.ledger.kspaceCr3)
    (hbooked : s'.ledger.Booked s.spaceOf none) (hstack : s'.ledger.stackCalls = s.ledger.stackCalls) :
    s'.Accounts := by
  refine ⟨?_, ?_, fun i => ?_, ?_⟩
  · have huse : s'.spaceOf = s.spaceOf := by
      funext i
      rw [spaceOf, spaceOf, hsame.threads]
    rwa [huse]
  · have huse : s'.stackOf = s.stackOf := by
      funext i
      rw [stackOf, stackOf, hsame.threads]
    rw [hstack, huse]
    exact h.held
  · rw [hkspace, hsame.threads]
    exact h.spaces i
  · rw [hsame.threads]
    exact h.boot

end

/-! ## The operations -/

section

variable (hcur : (s.threadCurrent cpu).Live)
include hcur

lemma fork (h : s.Accounts) (frame : ℕ) (re : Replies) :
    (s.schedulerFork cpu frame re).Accounts := by
  rcases schedulerFork_cases hcur frame re rfl with heq | ⟨huser, i, hcases⟩
  · rw [heq]
    exact h.keeps ⟨fun _ => .refl _, rfl⟩
  · have hx : (s.threadCurrent cpu).cr3 ≠ 0 ∧ (s.threadCurrent cpu).cr3 ≠ s.ledger.kspaceCr3 :=
      h.spaceOk_user hcur huser
    have hretained : (s.ledger.retain (s.threadCurrent cpu).cr3).Booked s.spaceOf
        (some (s.threadCurrent cpu).cr3) := h.booked.retain hx (spaceOf_user hcur huser)
    rcases hcases with ⟨hd, hledger⟩ | ⟨hs, hforked, hledger⟩
    · refine h.discarded hd (by simp [hledger]) ?_ (by simp [hledger])
      rw [hledger]
      exact hretained.release (by simpa using hx)
    · refine h.spawned hs hforked.isUser hforked.cr3 hx (by simp [hledger]) ?_
        (by simp [hledger, hforked.kstack, hforked.kstackSize])
      rw [hledger]
      exact hretained.stackCall _

/-- `SYS_execve` exchanges the reference to the old space for one to the new space. -/
lemma execve (h : s.Accounts) (frame : ℕ) {re : Replies} (hfresh : FreshPml4 s re.pml4) :
    (s.execve cpu frame re).Accounts := by
  rcases execve_cases re rfl with ⟨hsame, hledger⟩ | ⟨huser, hpml4, l, hcreate, hcases⟩
  · exact h.sameThreads hsame (by rw [hledger]) (by rw [hledger]; exact h.booked) (by rw [hledger])
  · obtain ⟨hl, hlstack⟩ := Ledger.create_frame hcreate
    have hcreated := h.booked.create hfresh.2 hcreate
    rcases hcases with ⟨hsame, hledger⟩ | ⟨honly, hmoved, hledger⟩
    · refine h.sameThreads hsame (by rw [hledger, Ledger.release_kspaceCr3, hl]) ?_
        (by rw [hledger, Ledger.release_stackCalls, hlstack])
      rw [hledger]
      exact hcreated.release ⟨hpml4, by rw [hl]; exact hfresh.1⟩
    · have hold : (s.threadCurrent cpu).cr3 ≠ 0 ∧ (s.threadCurrent cpu).cr3 ≠ l.kspaceCr3 := by
        rw [hl]
        exact h.spaceOk_user hcur huser
      have hid := hmoved.identity
      have huser' := (congrArg Identity.isUser hid).trans huser
      have hcr3' := congrArg Identity.cr3 hid
      have hlive' : ((s.execve cpu frame re).threads (s.current cpu)).Live := by
        rw [Thread.Live, hmoved.state]
        exact hcur
      refine h.only honly.threads (by rw [hledger, Ledger.release_kspaceCr3, hl]) ?_ ?_ (fun _ => ?_)
        (fun h0 => ?_)
      · rw [hledger, spaceOf_user hlive' huser', show (_ : Thread).cr3 = _ from hcr3']
        refine Ledger.Booked.release hold ?_
        have := hcreated.exchange (s.current cpu)
        rwa [spaceOf_user hcur huser] at this
      · have huse : (s.execve cpu frame re).stackOf (s.current cpu) = s.stackOf (s.current cpu) := by
          have hparent := congrArg Identity.parent hid
          have hkstack := congrArg Identity.kstack hid
          have hsize := congrArg Identity.kstackSize hid
          simp only [Thread.identity] at hparent hkstack hsize
          simp only [stackOf, Thread.Live, hmoved.state, hparent, hkstack, hsize]
          rfl
        rw [huse, update_eq_self, hledger, Ledger.release_stackCalls, hlstack]
        exact h.held
      · rw [if_pos (show (_ : Thread).isUser = true from huser'), show (_ : Thread).cr3 = _ from hcr3']
        exact ⟨hpml4, hfresh.1⟩
      · rw [h0] at hmoved hlive'
        refine ⟨hlive', (congrArg Identity.parent hmoved.identity).trans ?_⟩
        rw [threadCurrent, h0]
        exact h.boot.2

end

lemma reaped (h : s.Accounts) {z p : Slot} (hparent : (s.threads z).parent = some p)
    (hlive : (s.threads z).Live) (honly : Only z s s') (hunused : (s'.threads z).state = .unused)
    (hledger : s'.ledger = reapLedger s.ledger (s.threads z)) : s'.Accounts := by
  have hkspace : s'.ledger.kspaceCr3 = s.ledger.kspaceCr3 := by
    rw [hledger, reapLedger]
    split_ifs <;> simp
  have hstack : StacksHeld s'.ledger.stackCalls (Function.update s.stackOf z none) := by
    have hcalls : s'.ledger.stackCalls = if (s.threads z).kstack ≠ 0 then
        .freeStack (s.threads z).kstack ((s.threads z).kstackSize / pageSize) :: s.ledger.stackCalls
        else s.ledger.stackCalls := by
      rw [hledger, reapLedger]
      split_ifs <;> simp
    rw [hcalls]
    split
    · exact h.held.free (stackOf_created hlive hparent)
    · exact h.held.drop
  refine h.only honly.threads hkspace ?_ (by rwa [stackOf_unused hunused])
    (fun hz => absurd hunused hz) (fun hz => by simp [hz, h.boot.2] at hparent)
  rw [spaceOf_unused hunused, hledger, reapLedger]
  have hdropped := h.booked.exchange z
  generalize hl : (if (s.threads z).kstack ≠ 0 then _ else s.ledger) = l
  have hbooked : l.Booked (Function.update s.spaceOf z none) (s.spaceOf z) := by
    rw [← hl]
    split
    · exact hdropped.stackCall _
    · exact hdropped
  have hlk : l.kspaceCr3 = s.ledger.kspaceCr3 := by
    rw [← hl]
    split <;> rfl
  split
  · rename_i huser
    rw [spaceOf_user hlive huser] at hbooked
    exact hbooked.release (by rw [hlk]; exact h.spaceOk_user hlive huser)
  · rename_i huser
    rwa [spaceOf_kernel (by simpa using huser)] at hbooked

lemma reschedule (h : s.Accounts) (ticks frame : ℕ) :
    ({ s with ticks := ticks }.reschedule cpu frame).2.Accounts := by
  have hwoken := (wakeSleepers_woken s ticks).keeps
  exact (h.keeps hwoken).keeps
    ((doSwitch_switched _ cpu frame _).keeps (pickNext_live (hwoken.live.mpr h.boot.1)))

end Accounts

/-- What the page allocator grants a section, and that a program started by the kernel gets its
thread. -/
def SpacesOk (cpu : Cpu) (s : Sched) : SchedOp → Prop
  | .execve _ re => FreshPml4 s re.pml4
  | .spawn re => FreshPml4 s re.pml4 ∧ (s.startProgram cpu re).1 ≠ none
  | _ => True

instance (cpu : Cpu) (s : Sched) : (op : SchedOp) → Decidable (SpacesOk cpu s op)
  | .execve _ re => inferInstanceAs (Decidable (FreshPml4 s re.pml4))
  | .spawn re =>
    inferInstanceAs (Decidable (FreshPml4 s re.pml4 ∧ (s.startProgram cpu re).1 ≠ none))
  | .tick _ | .yield _ | .fork _ _ | .exit _ _ | .kill _ _ | .waitpid _ _ _ | .sleep _
  | .spawnKernel _ _ _ _ | .register _ _ | .store _ _ | .trap _ _ => isTrue trivial

lemma Accounts.exec {op : SchedOp} (h : s.Accounts) (hcur : (s.threadCurrent cpu).Live)
    (hop : SpacesOk cpu s op) (hexec : s.exec cpu op = some s') : s'.Accounts := by
  cases op with
  | tick frame =>
    cases hexec
    exact h.reschedule _ frame
  | yield frame =>
    cases hexec
    exact h.reschedule s.ticks frame
  | fork frame re =>
    cases hexec
    exact h.fork hcur frame re
  | execve frame re =>
    cases hexec
    exact h.execve hcur frame hop
  | exit frame code =>
    obtain ⟨fr, hexit⟩ := ended hexec
    obtain ⟨s0, next, hmark, hpick, hswitch⟩ := schedulerOnExit_cases hexit
    have hkept := h.keeps (hmark.keeps hcur)
    have hnext : (s0.threads next).Live := by
      rcases hpick with ⟨rfl, _⟩ | ⟨rfl, _⟩
      · exact pickNext_live hkept.boot.1
      · exact hkept.boot.1
    have hs1 := doSwitch_switched s0 cpu frame next
    rw [hswitch] at hs1
    exact hkept.keeps (hs1.keeps hnext)
  | kill pid sig =>
    obtain ⟨v, hkill⟩ := ended hexec
    rcases schedulerKill_cases hkill with rfl | ⟨i, _, halive, _, _, hmark⟩
    · exact h
    · exact h.keeps (hmark.keeps halive.1)
  | waitpid frame pid statusPtr =>
    obtain ⟨b, hwait⟩ := exec_waitpid hexec
    rcases waitpidSection_cases hwait with ⟨_, z, _, hchild, _, honly, hunused, hledger, _⟩ |
      ⟨_, rfl⟩ | ⟨_, _, rfl⟩
    · exact h.reaped hchild.parent hchild.live honly hunused hledger
    · exact h.keeps ⟨fun _ => .refl _, rfl⟩
    · refine h.keeps (.restate hcur ?_ ?_)
      · rfl
      · simp
  | sleep ticks =>
    cases hexec
    refine h.keeps (.restate hcur ?_ ?_)
    · rfl
    · simp
  | spawn re =>
    obtain ⟨hfresh, hstarted⟩ := hop
    cases hexec
    rcases hstart : s.startProgram cpu re with ⟨o, s1⟩
    rw [hstart] at hstarted
    rcases startProgram_cases hstart with ⟨ho, _⟩ | ⟨i, l, _, hpml4, hcreate, hs, hmade, hledger⟩
    · exact absurd ho hstarted
    · obtain ⟨hl, hlstack⟩ := Ledger.create_frame hcreate
      refine h.spawned hs hmade.isUser hmade.cr3 ⟨hpml4, hfresh.1⟩ (by simp [hledger, hl]) ?_
        (by simp [hledger, hlstack, hmade.kstack, hmade.kstackSize])
      rw [hledger]
      exact (h.booked.create hfresh.2 hcreate).stackCall _
  | spawnKernel trampoline fn arg re =>
    cases hexec
    rcases threadCreateKernel_cases trampoline fn arg re rfl with heq | ⟨i, ⟨hd, hledger⟩ |
      ⟨hs, hmade, hledger⟩⟩
    · rw [heq]
      exact h
    · exact h.discarded hd (by rw [hledger]) (by rw [hledger]; exact h.booked) (by rw [hledger])
    · refine h.kernelThread hs.only.threads hs.free hmade.isUser hmade.cr3 (by rw [hledger]; rfl)
        (by rw [hledger]; exact h.booked.stackCall _) (h.stack_taken hs ?_)
      simp [hledger, hmade.kstack, hmade.kstackSize]
  | register stackBase stackSize =>
    cases hexec
    rcases schedulerRegisterCpuBootstrap_cases stackBase stackSize rfl with heq | ⟨i, hr⟩
    · rw [heq]
      exact h
    · refine h.kernelThread hr.threads hr.free hr.isUser hr.cr3 (by rw [hr.ledger])
        (by rw [hr.ledger]; exact h.booked) ?_
      -- the stack of a bootstrap thread is none of the allocator's
      have huse : (s.schedulerRegisterCpuBootstrap cpu stackBase stackSize).stackOf i = none := by
        rw [stackOf, if_neg fun hboth => hboth.2 hr.parent]
      rw [huse, hr.ledger]
      exact h.held.drop
  | store va b | trap frame f =>
    cases hexec
    exact h.keeps ⟨fun _ => .refl _, rfl⟩

/-- The threads in use whose `cr3` is `x`. -/
def users (s : Sched) (x : ℕ) : Finset Slot :=
  Finset.univ.filter fun i => (s.threads i).Live ∧ (s.threads i).cr3 = x

lemma Accounts.holders_eq (h : s.Accounts) {x : ℕ} (hx : x ≠ s.kspaceCr3) :
    holders s.spaceOf x = (s.users x).card := by
  rw [holders, users]
  congr 1
  ext i
  simp only [Finset.mem_filter, Finset.mem_univ, true_and]
  by_cases hlive : (s.threads i).Live
  · cases huser : (s.threads i).isUser with
    | true => simp [spaceOf_user hlive huser, hlive]
    | false =>
      have hcr3 := h.spaces i hlive
      rw [if_neg (by simp [huser])] at hcr3
      simp only [spaceOf_kernel huser, hcr3, reduceCtorEq, false_iff, not_and]
      exact fun _ heq => hx heq.symm
  · rw [spaceOf_unused (not_not.mp hlive)]
    simp [hlive]

lemma accounts_init (s : Sched) (stackBottom stackSize : ℕ) (hspaces : ∀ e ∈ s.spaces, e.refs = 0)
    (hcalls : s.calls = []) : (s.schedulerInit stackBottom stackSize).Accounts := by
  have hthread : ∀ i, ((s.schedulerInit stackBottom stackSize).threads i).isUser = false ∧
      (((s.schedulerInit stackBottom stackSize).threads i).Live →
        ((s.schedulerInit stackBottom stackSize).threads i).cr3 = s.kspaceCr3) := by
    intro i
    rcases eq_or_ne i 0 with rfl | hi
    · simp [schedulerInit]
    · simp [schedulerInit, update_of_ne hi]
  have hrefs : ∀ x, refsOf s.spaces x = 0 := fun x =>
    refsOf_eq_zero.mpr fun e he _ => hspaces e he
  have hone : OneSlot s.spaces :=
    List.pairwise_of_forall_mem_list fun e he _ _ _ => Or.inl (hspaces e he)
  have hcall : ∀ c, (s.schedulerInit stackBottom stackSize).ledger.calls.count c = 0 := by
    simp [ledger, schedulerInit, hcalls]
  have hstack : (s.schedulerInit stackBottom stackSize).stackOf = fun _ => none := by
    funext i
    rcases eq_or_ne i 0 with rfl | hi
    · simp [stackOf, schedulerInit]
    · simp [stackOf, schedulerInit, update_of_ne hi]
  refine ⟨⟨hone, fun x => ?_, fun x => ?_⟩, fun k n => ?_, fun i hlive => ?_, by simp [schedulerInit]⟩
  · have hnone : holders (s.schedulerInit stackBottom stackSize).spaceOf x = 0 := by
      refine Finset.card_eq_zero.mpr (Finset.filter_eq_empty_iff.mpr fun i _ => ?_)
      simp [spaceOf_kernel (hthread i).1]
    rw [hnone]
    exact hrefs x
  · rw [Ledger.created, Ledger.destroyed, hcall, hcall]
    exact (by rw [hrefs x]; rfl : (0 : ℕ) = 0 + min 1 (refsOf s.spaces x))
  · rw [hstack]
    simp [holders, ledger, schedulerInit, hcalls]
  · rw [(hthread i).1]
    exact (hthread i).2 hlive

/-- For every user space, `refs` is the number of threads in it, and it has been destroyed as often
as it was created, less one while a thread still uses it. -/
def RefsExact (s : Sched) : Prop :=
  ∀ x, x ≠ s.kspaceCr3 → refsOf s.spaces x = (s.users x).card ∧
    s.calls.count (.createSpace x) =
      s.calls.count (.destroySpace x) + if (s.users x).card = 0 then 0 else 1

lemma Accounts.refsExact (h : s.Accounts) : s.RefsExact := by
  intro x hx
  have hrefs : refsOf s.spaces x = (s.users x).card := by
    rw [← h.holders_eq hx]
    exact h.booked.balanced.refs_eq x
  refine ⟨hrefs, ?_⟩
  have halive : s.ledger.created x = s.ledger.destroyed x + min 1 (refsOf s.spaces x) :=
    h.booked.balanced.alive x
  rw [Ledger.created, Ledger.destroyed, ledger, List.count_filter rfl, List.count_filter rfl,
    hrefs] at halive
  rw [halive]
  split <;> omega

/-- **The count of a space is the number of threads in it.**  On one CPU, whatever program starts,
forks, `SYS_execve`s, exits, kills and waits there are, and whether they succeed or fail, this holds
at every moment; so a space is destroyed once, when its last thread has been reaped or has left
it. -/
theorem space_refs_exact (s : Sched) (stackBottom stackSize : ℕ)
    (hspaces : ∀ e ∈ s.spaces, e.refs = 0) (hcalls : s.calls = []) (es : List (Cpu × SchedOp))
    (hes : Admissible (fun s e => e.1 = 0 ∧ SpacesOk 0 s e.2) step
      (s.schedulerInit stackBottom stackSize) es) :
    (run step (s.schedulerInit stackBottom stackSize) es).RefsExact := by
  have hstep : ∀ (t : Sched) (e : Cpu × SchedOp), t.Accounts ∧ (t.threadCurrent 0).Alive →
      e.1 = 0 ∧ SpacesOk 0 t e.2 → (t.step e).Accounts ∧ ((t.step e).threadCurrent 0).Alive := by
    rintro t ⟨_, op⟩ ⟨h, hcur⟩ ⟨rfl, hop⟩
    refine step_of_effect (I := fun t' => t'.Accounts ∧ (t'.threadCurrent 0).Alive) ⟨h, hcur⟩ ?_
    exact fun t' hexec => ⟨h.exec hcur.1 hop hexec, (exec_effect hexec).alive hcur⟩
  have hinit : (s.schedulerInit stackBottom stackSize).Accounts ∧
      ((s.schedulerInit stackBottom stackSize).threadCurrent 0).Alive :=
    ⟨accounts_init s stackBottom stackSize hspaces hcalls,
      by simp [threadCurrent, schedulerInit, Thread.Alive]⟩
  exact (run_invariant hstep hinit hes).1.refsExact

theorem space_refs_exact_after_execve :
    refsOf (after 1 [(0, .spawn (grant 0x5000 0x8000 0x20000)), (0, .tick 0x2100),
      (0, .fork 0x9000 (grant 0 0x10000 0)), (0, .execve 0x9000 (grant 0x6000 0 0x30000))]).spaces
        0x5000 = 1 ∧
    (after 1 [(0, .spawn (grant 0x5000 0x8000 0x20000)), (0, .tick 0x2100),
      (0, .fork 0x9000 (grant 0 0x10000 0)),
      (0, .execve 0x9000 (grant 0x6000 0 0x30000))]).RefsExact :=
  ⟨by decide +kernel, space_refs_exact (smallSched 1) 0x2000 0x1000 (by decide) rfl _ (by decide +kernel)⟩

end Sched

end MyOs
