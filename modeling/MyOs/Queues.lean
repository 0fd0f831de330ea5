import MyOs.Input.Keyboard
import MyOs.Lib.Queues
import MyOs.Net.Sockets

/-!
# The four rings of the kernel

The message ring and the pending ring of a socket (`net.c`), and those of the keyboard and the mouse
(`input.c`).  All of them are an array with two indices (`Lib.IndexRing`), and each is a bounded queue by
`Lib.refines_of_ring`: what is left to say is where the ring is in the state and how a call reports.

The socket model of `Net.Sockets` works with `Lib.Ring` instead of indices.  That is the same
(`SocketQueues.standsFor_calls`).
-/

namespace MyOs

open Lib

abbrev keyQueueSize : ℕ := 64

abbrev mouseQueueSize : ℕ := 64

instance neZeroKeyQueue : NeZero keyQueueSize := ⟨by decide⟩

instance neZeroMouseQueue : NeZero mouseQueueSize := ⟨by decide⟩

/-! ## The rings of a socket -/

/-- `queue`, `q_head` and `q_tail`, and `pending`, `p_head` and `p_tail`, of `net_socket_t`. -/
structure SocketQueues where
  queue : IndexRing NetMsg
  pending : IndexRing ℤ

namespace SocketQueues

/-- As `memset` leaves them. -/
def zero : SocketQueues := ⟨.clear ⟨[], ⟨0, 0⟩⟩, .clear 0⟩

def enqueueMsg (s : SocketQueues) (msg : NetMsg) : SocketQueues :=
  { s with queue := s.queue.enqueue netMaxQueue msg }

/-- `dequeue_msg`: the return value and `*out`, and the socket. -/
def dequeueMsg (s : SocketQueues) (out : NetMsg) : (ℤ × NetMsg) × SocketQueues :=
  match s.queue.dequeue netMaxQueue with
  | none => ((0, out), s)
  | some (msg, queue) => ((1, msg), { s with queue := queue })

def enqueuePending (s : SocketQueues) (fd : ℤ) : SocketQueues :=
  { s with pending := s.pending.enqueue netMaxQueue fd }

def dequeuePending (s : SocketQueues) : ℤ × SocketQueues :=
  match s.pending.dequeue netMaxQueue with
  | none => (-1, s)
  | some (fd, pending) => (fd, { s with pending := pending })

/-- The rings with indices are those of a socket of `Net.Sockets`. -/
structure StandsFor (s : SocketQueues) (k : NetSocket) : Prop where
  queue_range : s.queue.InRange netMaxQueue
  queue : s.queue.toRing netMaxQueue = k.queue
  pending_range : s.pending.InRange netMaxQueue
  pending : s.pending.toRing netMaxQueue = k.pending

/-- **The rings of the socket model.**  A value that is put into a ring, or taken from it, is put into or taken
from the ring it stands for, and there is nothing to take from the one if there is nothing in the other. -/
theorem standsFor_calls {s : SocketQueues} {k : NetSocket} (h : s.StandsFor k) :
    (∀ msg, (s.enqueueMsg msg).StandsFor { k with queue := k.queue.push msg }) ∧
    (∀ fd, (s.enqueuePending fd).StandsFor { k with pending := k.pending.push fd }) ∧
    (∀ out, (k.queue.pop = none ∧ s.dequeueMsg out = ((0, out), s)) ∨
      ∃ msg queue, k.queue.pop = some (msg, queue) ∧ (s.dequeueMsg out).1 = (1, msg) ∧
        (s.dequeueMsg out).2.StandsFor { k with queue := queue }) ∧
    ((k.pending.pop = none ∧ s.dequeuePending = (-1, s)) ∨
      ∃ fd pending, k.pending.pop = some (fd, pending) ∧ s.dequeuePending.1 = fd ∧
        s.dequeuePending.2.StandsFor { k with pending := pending }) := by
  refine ⟨fun msg => ?_, fun fd => ?_, fun out => ?_, ?_⟩
  · refine ⟨IndexRing.inRange_enqueue h.queue_range msg, ?_, h.pending_range, h.pending⟩
    rw [enqueueMsg, IndexRing.toRing_enqueue h.queue_range, h.queue]
  · refine ⟨h.queue_range, h.queue, IndexRing.inRange_enqueue h.pending_range fd, ?_⟩
    rw [enqueuePending, IndexRing.toRing_enqueue h.pending_range, h.pending]
  · rw [← h.queue, dequeueMsg]
    rcases IndexRing.toRing_dequeue h.queue_range with ⟨hnone, hpop⟩ | ⟨msg, r, hsome, hrange, hpop⟩
    · exact Or.inl ⟨hpop, by rw [hnone]⟩
    · rw [hsome]
      exact Or.inr ⟨msg, _, hpop, rfl, hrange, rfl, h.pending_range, h.pending⟩
  · rw [← h.pending, dequeuePending]
    rcases IndexRing.toRing_dequeue h.pending_range with ⟨hnone, hpop⟩ | ⟨fd, r, hsome, hrange, hpop⟩
    · exact Or.inl ⟨hpop, by rw [hnone]⟩
    · rw [hsome]
      exact Or.inr ⟨fd, _, hpop, rfl, h.queue_range, h.queue, hrange, rfl⟩

/-- The message ring as a queue. -/
def msgQueue (out : NetMsg) : QueueImpl SocketQueues NetMsg (ℤ × NetMsg) :=
  ⟨enqueueMsg, fun s => s.dequeueMsg out⟩

/-- The pending ring as a queue. -/
def pendingQueue : QueueImpl SocketQueues ℤ ℤ := ⟨enqueuePending, dequeuePending⟩

lemma msgQueue_refines (out : NetMsg) :
    (msgQueue out).Refines (netMaxQueue - 1) id (fun msg => msg.elim (0, out) fun msg => (1, msg))
      (fun s => s.queue.InRange netMaxQueue) fun s => s.queue.contents netMaxQueue := by
  refine refines_of_ring queue (fun s queue => { s with queue := queue }) (fun _ _ => rfl) (fun _ => rfl)
    (fun _ _ => rfl) ?_ ?_
  · intro s h
    simp [msgQueue, dequeueMsg, h]
  · intro s msg queue h
    simp [msgQueue, dequeueMsg, h]

lemma pendingQueue_refines :
    pendingQueue.Refines (netMaxQueue - 1) id (fun fd => fd.getD (-1))
      (fun s => s.pending.InRange netMaxQueue) fun s => s.pending.contents netMaxQueue := by
  refine refines_of_ring pending (fun s pending => { s with pending := pending }) (fun _ _ => rfl)
    (fun _ => rfl) (fun _ _ => rfl) ?_ ?_
  · intro s h
    simp [pendingQueue, dequeuePending, h]
  · intro s fd pending h
    simp [pendingQueue, dequeuePending, h]

end SocketQueues

/-! ## The rings of the input devices -/

/-- `mouse_event_t` -/
structure MouseEvent where
  dx : Int8
  dy : Int8
  wheel : Int8
  buttons : UInt8
  deriving DecidableEq

/-- `key_queue`, `key_head` and `key_tail`, and those of the mouse. -/
structure InputQueues where
  key : IndexRing KeyEvent
  mouse : IndexRing MouseEvent

namespace InputQueues

/-- As they are when the kernel starts. -/
def zero : InputQueues := ⟨.clear ⟨0, false⟩, .clear ⟨0, 0, 0, 0⟩⟩

/-- The event `queue_key` makes of a scancode: bit 7 says that the key was released. -/
def keyEvent (scancode : UInt8) : KeyEvent := ⟨scancode &&& 0x7F, scancode &&& 0x80 == 0⟩

def queueKey (s : InputQueues) (scancode : UInt8) : InputQueues :=
  { s with key := s.key.enqueue keyQueueSize (keyEvent scancode) }

def queueMouse (s : InputQueues) (dx dy wheel : Int8) (buttons : UInt8) : InputQueues :=
  { s with mouse := s.mouse.enqueue mouseQueueSize ⟨dx, dy, wheel, buttons⟩ }

/-- `input_read_key`: the return value and `*out`, and the rings. -/
def inputReadKey (s : InputQueues) (out : Option KeyEvent) : (ℤ × Option KeyEvent) × InputQueues :=
  match out with
  | none => ((0, none), s)
  | some old =>
    match s.key.dequeue keyQueueSize with
    | none => ((0, some old), s)
    | some (event, key) => ((1, some event), { s with key := key })

def inputReadMouse (s : InputQueues) (out : Option MouseEvent) :
    (ℤ × Option MouseEvent) × InputQueues :=
  match out with
  | none => ((0, none), s)
  | some old =>
    match s.mouse.dequeue mouseQueueSize with
    | none => ((0, some old), s)
    | some (event, mouse) => ((1, some event), { s with mouse := mouse })

/-- The ring of the keyboard as a queue. -/
def keyQueue (out : KeyEvent) : QueueImpl InputQueues UInt8 (ℤ × Option KeyEvent) :=
  ⟨queueKey, fun s => s.inputReadKey (some out)⟩

/-- The ring of the mouse as a queue. -/
def mouseQueue (out : MouseEvent) : QueueImpl InputQueues MouseEvent (ℤ × Option MouseEvent) :=
  ⟨fun s event => s.queueMouse event.dx event.dy event.wheel event.buttons,
    fun s => s.inputReadMouse (some out)⟩

lemma keyQueue_refines (out : KeyEvent) :
    (keyQueue out).Refines (keyQueueSize - 1) keyEvent
      (fun event => event.elim (0, some out) fun event => (1, some event))
      (fun s => s.key.InRange keyQueueSize) fun s => s.key.contents keyQueueSize := by
  refine refines_of_ring key (fun s key => { s with key := key }) (fun _ _ => rfl) (fun _ => rfl)
    (fun _ _ => rfl) ?_ ?_
  · intro s h
    simp [keyQueue, inputReadKey, h]
  · intro s event key h
    simp [keyQueue, inputReadKey, h]

lemma mouseQueue_refines (out : MouseEvent) :
    (mouseQueue out).Refines (mouseQueueSize - 1) id
      (fun event => event.elim (0, some out) fun event => (1, some event))
      (fun s => s.mouse.InRange mouseQueueSize) fun s => s.mouse.contents mouseQueueSize := by
  refine refines_of_ring mouse (fun s mouse => { s with mouse := mouse }) (fun _ _ => rfl) (fun _ => rfl)
    (fun _ _ => rfl) ?_ ?_
  · intro s h
    simp [mouseQueue, inputReadMouse, h]
  · intro s event mouse h
    simp [mouseQueue, inputReadMouse, h]

end InputQueues

open SocketQueues InputQueues in
/-- **The four rings are bounded queues.**  For every sequence of calls from the empty rings each of them
acts as the abstract queue of its capacity (`Lib.QueueImpl.ActsAsFifo`), and a dequeue reports that there
is nothing exactly if the queue is empty.  `dequeue_pending` reports that by -1, which is no descriptor. -/
theorem rings_actAsFifo :
    (∀ (out : NetMsg) (calls : List (QueueCall NetMsg)),
      (msgQueue out).ActsAsFifo 15 id (fun msg => msg.elim (0, out) fun msg => (1, msg))
        (fun s => s.queue.InRange netMaxQueue) (fun s => s.queue.contents netMaxQueue)
        SocketQueues.zero calls ∧
      let s := ((msgQueue out).run SocketQueues.zero calls).1
      ((s.dequeueMsg out).1.1 = 0 ↔ s.queue.contents netMaxQueue = [])) ∧
    (∀ calls : List (QueueCall ℤ),
      pendingQueue.ActsAsFifo 15 id (fun fd => fd.getD (-1))
        (fun s => s.pending.InRange netMaxQueue) (fun s => s.pending.contents netMaxQueue)
        SocketQueues.zero calls ∧
      let s := (pendingQueue.run SocketQueues.zero calls).1
      ((∀ fd, .put fd ∈ calls → fd ≠ -1) →
        (s.dequeuePending.1 = -1 ↔ s.pending.contents netMaxQueue = []))) ∧
    (∀ (out : KeyEvent) (calls : List (QueueCall UInt8)),
      (keyQueue out).ActsAsFifo 63 keyEvent
        (fun event => event.elim (0, some out) fun event => (1, some event))
        (fun s => s.key.InRange keyQueueSize) (fun s => s.key.contents keyQueueSize)
        InputQueues.zero calls ∧
      let s := ((keyQueue out).run InputQueues.zero calls).1
      ((s.inputReadKey (some out)).1.1 = 0 ↔ s.key.contents keyQueueSize = [])) ∧
    (∀ (out : MouseEvent) (calls : List (QueueCall MouseEvent)),
      (mouseQueue out).ActsAsFifo 63 id
        (fun event => event.elim (0, some out) fun event => (1, some event))
        (fun s => s.mouse.InRange mouseQueueSize) (fun s => s.mouse.contents mouseQueueSize)
        InputQueues.zero calls ∧
      let s := ((mouseQueue out).run InputQueues.zero calls).1
      ((s.inputReadMouse (some out)).1.1 = 0 ↔ s.mouse.contents mouseQueueSize = [])) := by
  refine ⟨?_, ?_, ?_, ?_⟩
  · intro out calls
    have h := (msgQueue_refines out).actsAsFifo SocketQueues.zero (IndexRing.inRange_clear _)
      (IndexRing.contents_clear _) calls
    exact ⟨h, h.empty_iff Prod.fst (by simp)⟩
  · intro calls
    have h := pendingQueue_refines.actsAsFifo SocketQueues.zero (IndexRing.inRange_clear _)
      (IndexRing.contents_clear _) calls
    refine ⟨h, fun hput => h.empty_iff id ?_⟩
    intro fd hfd
    rw [h.view_eq] at hfd
    obtain hnil | ⟨fd', hmem, rfl⟩ := mem_fifoRun hfd
    · exact absurd hnil List.not_mem_nil
    · exact hput fd' hmem
  · intro out calls
    have h := (keyQueue_refines out).actsAsFifo InputQueues.zero (IndexRing.inRange_clear _)
      (IndexRing.contents_clear _) calls
    exact ⟨h, h.empty_iff Prod.fst (by simp)⟩
  · intro out calls
    have h := (mouseQueue_refines out).actsAsFifo InputQueues.zero (IndexRing.inRange_clear _)
      (IndexRing.contents_clear _) calls
    exact ⟨h, h.empty_iff Prod.fst (by simp)⟩

end MyOs
