import MyOs.Net.Sockets

/-!
# Byte streams

What is sent on one end of a connection arrives at the other end as a queue of messages of at most
1500 bytes.  `net_sendto` reports the bytes as accepted also if the queue is full and the message is
dropped, and `net_recvfrom` takes a whole message also if the buffer holds only a part of it.

A run keeps account of the bytes accepted at one end and returned at the other
(`StreamRun`).  In exactly the runs in which neither happens, no byte is lost
(`stream_intact_iff`).
-/

namespace MyOs

open Lib List

namespace Net

variable {s : Net} {fd : ℤ} {i j : SockIdx} {op : NetOp}

/-- Slot `i` holds a stream socket that is connected to slot `j`. -/
def StreamEnd (s : Net) (i j : SockIdx) : Prop :=
  (s.sockets i).inUse = true ∧ (s.sockets i).type = netSockStream ∧
    (s.sockets i).state = .connected ∧ (s.sockets i).peer = some j

instance : Decidable (s.StreamEnd i j) := inferInstanceAs (Decidable (_ ∧ _))

/-- A connected pair of stream sockets. -/
def StreamPair (s : Net) (i j : SockIdx) : Prop := s.StreamEnd i j ∧ s.StreamEnd j i

instance : Decidable (s.StreamPair i j) := inferInstanceAs (Decidable (_ ∧ _))

/-- The bytes queued at a socket. -/
def queuedBytes (s : Net) (j : SockIdx) : List UInt8 :=
  ((s.sockets j).queue.contents.map NetMsg.data).flatten

/-- Only `net_sendto` and `net_recvfrom` change the queue of a socket that stays in use. -/
lemma queue_step (huse : (s.sockets j).inUse = true) (huse' : ((s.step op).sockets j).inUse = true)
    (hsend : ∀ fd buf addr, op ≠ .sendto fd buf addr) (hrecv : ∀ fd buf len, op ≠ .recvfrom fd buf len) :
    ((s.step op).sockets j).queue = (s.sockets j).queue := by
  cases op with
  | accept fd =>
    rcases s.netAccept_cases fd with heq | ⟨i, child, pending, _, _, _, _, heq⟩
    · rw [step, heq]
    · rw [step, heq, modify_frame NetSocket.queue]
      exact fun _ => rfl
  | connect fd addr =>
    cases hconn : s.connecting (.connect fd addr) with
    | none => rw [step, netConnect_of_not_connecting hconn]
    | some c =>
      obtain ⟨a, l, k, _, _, _, hk, heq⟩ := netConnect_of_connecting hconn
      rw [step, heq, queue_join, sockets_set, if_neg (ne_of_freeSlot huse hk)]
  | sendto fd buf addr => exact absurd rfl (hsend fd buf addr)
  | recvfrom fd buf len => exact absurd rfl (hrecv fd buf len)
  | _ => exact manages_frame NetSocket.queue (fun _ _ _ _ => rfl) trivial huse huse'

lemma StreamPair.netSendto (h : s.StreamPair i j) (hfd : s.getSocket fd = some i)
    (bytes : List UInt8) (addr : Option SockAddr) :
    s.netSendto fd (some bytes) addr = (((bytes.take netMaxPayload).length : ℤ),
      s.enqueueMsg j ⟨bytes.take netMaxPayload, (s.sockets i).localAddr⟩) := by
  obtain ⟨⟨_, htype, hstate, hpeer⟩, huse, _⟩ := h
  have hdgram : ¬ netSockStream = netSockDgram := by decide
  simp [Net.netSendto, hfd, htype, hdgram, hstate, hpeer, huse]

/-! ## Pushing and popping bytes -/

lemma queuedBytes_enqueueMsg (hfull : ¬ (s.sockets j).queue.Full) (msg : NetMsg) :
    (s.enqueueMsg j msg).queuedBytes j = s.queuedBytes j ++ msg.data := by
  rw [queuedBytes, enqueueMsg, sockets_modify, if_pos rfl, Ring.contents_push hfull]
  simp [queuedBytes]

lemma queuedBytes_enqueueMsg_of_full (hfull : (s.sockets j).queue.Full) (msg : NetMsg) :
    (s.enqueueMsg j msg).queuedBytes j = s.queuedBytes j := by
  rw [queuedBytes, enqueueMsg, sockets_modify, if_pos rfl, Ring.contents_push_of_full hfull,
    queuedBytes]

lemma queuedBytes_congr {s' : Net} (h : (s'.sockets j).queue = (s.sockets j).queue) :
    s'.queuedBytes j = s.queuedBytes j := by
  rw [queuedBytes, h, queuedBytes]

lemma queuedBytes_of_pop {msg : NetMsg} {queue : Ring NetMsg netMaxQueue}
    (h : (s.sockets j).queue.pop = some (msg, queue)) :
    s.queuedBytes j =
      msg.data ++ (s.modify j fun k => { k with queue := queue }).queuedBytes j := by
  rw [queuedBytes, Ring.contents_of_pop h, queuedBytes, sockets_modify, if_pos rfl]
  simp

end Net

/-! ## Runs -/

/-- The sockets, the bytes accepted at one end of a pair so far, and those returned at the other. -/
structure StreamRun where
  net : Net
  accepted : List UInt8
  received : List UInt8

namespace StreamRun

variable {i j : SockIdx} {r : StreamRun} {op : NetOp}

/-- A call, where `i` is the end that sends and `j` the end that receives: the first `r` bytes of the
buffer are accepted by a `net_sendto` that returns `r`. -/
def step (i j : SockIdx) (r : StreamRun) (op : NetOp) : StreamRun where
  net := r.net.step op
  accepted :=
    match op with
    | .sendto fd (some bytes) addr =>
      if r.net.getSocket fd = some i ∧ 0 ≤ (r.net.netSendto fd (some bytes) addr).1 then
        r.accepted ++ bytes.take (r.net.netSendto fd (some bytes) addr).1.toNat
      else r.accepted
    | _ => r.accepted
  received :=
    match op with
    | .recvfrom fd buf len =>
      if r.net.getSocket fd = some j then r.received ++ (r.net.netRecvfrom fd buf len).1.data
      else r.received
    | _ => r.received

/-- The pair stays connected, and nobody else sends to the receiving end: a third socket that names
it as its peer. -/
def Undisturbed (i j : SockIdx) (r : StreamRun) (op : NetOp) : Prop :=
  r.net.StreamPair i j ∧ (r.net.step op).StreamPair i j ∧
    match op with
    | .sendto fd _ _ => ∀ k, r.net.getSocket fd = some k → (r.net.sockets k).peer = some j → k = i
    | _ => True

/-- What is sent finds room, and a message that is received fits into the buffer. -/
def Lossless (i j : SockIdx) (r : StreamRun) : NetOp → Prop
  | .sendto fd (some bytes) _ =>
    r.net.getSocket fd = some i → bytes = [] ∨ ¬ (r.net.sockets j).queue.Full
  | .recvfrom fd true len =>
    r.net.getSocket fd = some j →
      ∀ msg ∈ (r.net.sockets j).queue.contents.head?, msg.data.length ≤ len
  | _ => True

/-- What was queued at first and what was accepted is what was received and what is queued. -/
def Intact (j : SockIdx) (s : Net) (r : StreamRun) : Prop :=
  s.queuedBytes j ++ r.accepted = r.received ++ r.net.queuedBytes j

lemma intact_of_queue_eq {s : Net} (hr : Intact j s r)
    (hacc : (r.step i j op).accepted = r.accepted) (hrec : (r.step i j op).received = r.received)
    (hqueue : ((r.net.step op).sockets j).queue = (r.net.sockets j).queue) :
    Intact j s (r.step i j op) := by
  rw [Intact, hacc, hrec, show (r.step i j op).net = r.net.step op from rfl,
    Net.queuedBytes_congr hqueue]
  exact hr

/-- A message of the sending end: it is lost exactly if the queue is full and it has bytes. -/
lemma intact_sendto_self {s : Net} (hr : Intact j s r) (hpair : r.net.StreamPair i j) {fd : ℤ}
    (hfd : r.net.getSocket fd = some i) (bytes : List UInt8) (addr : Option SockAddr) :
    Intact j s (r.step i j (.sendto fd (some bytes) addr)) ↔
      bytes = [] ∨ ¬ (r.net.sockets j).queue.Full := by
  have hsend := hpair.netSendto hfd bytes addr
  have hacc : (r.step i j (.sendto fd (some bytes) addr)).accepted =
      r.accepted ++ bytes.take netMaxPayload := by
    have hstart := take_prefix netMaxPayload bytes
    simp only [step, hsend, hfd, Int.natCast_nonneg, and_self, if_true, Int.toNat_natCast]
    rw [← prefix_iff_eq_take.mp hstart]
  have hnet : (r.step i j (.sendto fd (some bytes) addr)).net =
      r.net.enqueueMsg j ⟨bytes.take netMaxPayload, (r.net.sockets i).localAddr⟩ := by
    simp only [step, Net.step, hsend]
  rw [Intact, hacc, hnet, ← append_assoc, hr]
  change r.received ++ _ ++ _ = r.received ++ _ ↔ _
  by_cases hfull : (r.net.sockets j).queue.Full
  · rw [Net.queuedBytes_enqueueMsg_of_full hfull, append_right_eq_self, take_eq_nil_iff]
    simp [hfull, netMaxPayload]
  · rw [Net.queuedBytes_enqueueMsg hfull, append_assoc]
    simp [hfull]

lemma intact_sendto {s : Net} (hr : Intact j s r) {fd : ℤ} {buf : Option (List UInt8)}
    {addr : Option SockAddr} (hop : Undisturbed i j r (.sendto fd buf addr)) :
    Intact j s (r.step i j (.sendto fd buf addr)) ↔ Lossless i j r (.sendto fd buf addr) := by
  obtain ⟨hpair, _, hothers⟩ := hop
  by_cases hself : r.net.getSocket fd = some i ∧ buf ≠ none
  · obtain ⟨hfd, hbuf⟩ := hself
    obtain ⟨bytes, rfl⟩ := Option.ne_none_iff_exists'.mp hbuf
    simp only [Lossless, hfd, true_implies]
    exact intact_sendto_self hr hpair hfd bytes addr
  · refine iff_of_true (intact_of_queue_eq hr ?_ rfl ?_) ?_
    · cases buf with
      | none => rfl
      | some bytes => exact if_neg fun h => hself ⟨h.1, by simp⟩
    · rcases r.net.netSendto_cases fd buf addr with heq | ⟨k, t, bytes, hfd, hbuf, htarget, heq⟩
      · rw [Net.step, heq]
      · have hne : j ≠ t := by
          rintro rfl
          obtain ⟨_, hdgram⟩ | ⟨_, hpeer⟩ := htarget
          · rw [hpair.2.2.1] at hdgram
            exact absurd hdgram (by decide)
          · exact hself ⟨hothers k hfd hpeer ▸ hfd, by simp [hbuf]⟩
        rw [Net.step, heq, Net.enqueueMsg, Net.sockets_modify, if_neg hne]
    · cases buf with
      | none => trivial
      | some bytes => exact fun hfd => absurd ⟨hfd, by simp⟩ hself

lemma intact_recvfrom {s : Net} (hr : Intact j s r) {fd : ℤ} {buf : Bool} {len : ℕ} :
    Intact j s (r.step i j (.recvfrom fd buf len)) ↔ Lossless i j r (.recvfrom fd buf len) := by
  by_cases hself : r.net.getSocket fd = some j ∧ buf = true
  · obtain ⟨hfd, rfl⟩ := hself
    simp only [Lossless, hfd, true_implies]
    cases hpop : (r.net.sockets j).queue.pop with
    | none =>
      have hrecv : r.net.netRecvfrom fd true len = (⟨0, [], none⟩, r.net) := by
        simp [Net.netRecvfrom, hfd, hpop]
      refine iff_of_true ?_ (by simp [Ring.pop_eq_none.mp hpop])
      refine intact_of_queue_eq hr rfl ?_ (by rw [Net.step, hrecv])
      simp [step, hrecv]
    | some popped =>
      obtain ⟨msg, queue⟩ := popped
      have hrecv : r.net.netRecvfrom fd true len =
          (⟨(msg.data.take len).length, msg.data.take len, some msg.src⟩,
            r.net.modify j fun k => { k with queue := queue }) := by
        simp [Net.netRecvfrom, hfd, hpop]
      have hreceived : (r.step i j (.recvfrom fd true len)).received =
          r.received ++ msg.data.take len := by simp [step, hfd, hrecv]
      have hnet : (r.step i j (.recvfrom fd true len)).net =
          r.net.modify j fun k => { k with queue := queue } := by simp only [step, Net.step, hrecv]
      have haccepted : (r.step i j (.recvfrom fd true len)).accepted = r.accepted := rfl
      rw [Intact, haccepted, hr, hreceived, hnet, Net.queuedBytes_of_pop hpop,
        Ring.contents_of_pop hpop, append_assoc, append_cancel_left_eq, append_cancel_right_eq]
      simp
  · refine iff_of_true (intact_of_queue_eq hr rfl ?_ ?_) ?_
    · cases buf with
      | false =>
        by_cases hfd : r.net.getSocket fd = some j <;> simp [step, hfd, Net.netRecvfrom]
      | true => exact if_neg fun h => hself ⟨h, rfl⟩
    · rcases r.net.netRecvfrom_cases fd buf len with ⟨_, heq⟩ | ⟨k, msg, queue, hfd, hbuf, _, heq⟩
      · rw [Net.step, heq]
      · have hne : j ≠ k := by
          rintro rfl
          exact hself ⟨hfd, hbuf⟩
        rw [Net.step, heq, Net.sockets_modify, if_neg hne]
    · cases buf with
      | false => trivial
      | true => exact fun hfd => absurd ⟨hfd, rfl⟩ hself

lemma intact_step_iff {s : Net} (hop : Undisturbed i j r op) (hr : Intact j s r) :
    Intact j s (r.step i j op) ↔ Lossless i j r op := by
  cases op with
  | sendto fd buf addr => exact intact_sendto hr hop
  | recvfrom fd buf len => exact intact_recvfrom hr
  | _ =>
    obtain ⟨⟨_, hold⟩, ⟨_, hnew⟩, _⟩ := hop
    refine iff_of_true ?_ trivial
    exact intact_of_queue_eq hr rfl rfl
      (Net.queue_step hold.1 hnew.1 (fun _ _ _ h => by cases h) fun _ _ _ h => by cases h)

instance (op : NetOp) : Decidable (Undisturbed i j r op) :=
  match op with
  | .sendto _ _ _ => inferInstanceAs (Decidable (_ ∧ _ ∧ ∀ _, _))
  | .socket _ _ _ | .bind _ _ | .listen _ | .accept _ | .connect _ _ | .recvfrom _ _ _ | .close _ =>
    inferInstanceAs (Decidable (_ ∧ _ ∧ True))

end StreamRun

/-- A listener in slot 0, a client in slot 1, and the server side of its connection in slot 2. -/
def oneConnection : Net :=
  run Net.step .init [.socket 2 1 7, .bind 1 (some ⟨0, 80⟩), .listen 1, .socket 2 1 8,
    .connect 2 (some ⟨0, 80⟩)]

/-- **Two ways to lose bytes.**  Four bytes are sent and two of them received: the others are gone.
And of sixteen bytes sent one by one, all reported as accepted, fifteen are queued. -/
theorem stream_loses_bytes :
    oneConnection.StreamPair 1 2 ∧ oneConnection.queuedBytes 2 = [] ∧
      (run (StreamRun.step 1 2) ⟨oneConnection, [], []⟩
        [.sendto 2 (some [1, 2, 3, 4]) none, .recvfrom 3 true 2]).accepted = [1, 2, 3, 4] ∧
      (run (StreamRun.step 1 2) ⟨oneConnection, [], []⟩
        [.sendto 2 (some [1, 2, 3, 4]) none, .recvfrom 3 true 2]).received = [1, 2] ∧
      (run (StreamRun.step 1 2) ⟨oneConnection, [], []⟩
        [.sendto 2 (some [1, 2, 3, 4]) none, .recvfrom 3 true 2]).net.queuedBytes 2 = [] ∧
      (run (StreamRun.step 1 2) ⟨oneConnection, [], []⟩
        (List.replicate 16 (.sendto 2 (some [7]) none))).accepted = List.replicate 16 7 ∧
      (run (StreamRun.step 1 2) ⟨oneConnection, [], []⟩
        (List.replicate 16 (.sendto 2 (some [7]) none))).net.queuedBytes 2 =
          List.replicate 15 7 := by
  decide +kernel

/-- **A stream loses no byte in exactly the lossless runs.**  As long as a pair of stream sockets stays
connected and no third socket sends to the receiving end, whatever else is called: the bytes queued
at first and those accepted since are, at every moment, those received followed by those queued, if
and only if every message sent finds the queue not full or is empty, and every message received fits
into the buffer. -/
theorem stream_intact_iff {s : Net} {i j : SockIdx} {ops : List NetOp}
    (hdom : Admissible (StreamRun.Undisturbed i j) (StreamRun.step i j) ⟨s, [], []⟩ ops) :
    (∀ pre, pre <+: ops →
      let r := run (StreamRun.step i j) ⟨s, [], []⟩ pre
      s.queuedBytes j ++ r.accepted = r.received ++ r.net.queuedBytes j) ↔
    Admissible (StreamRun.Lossless i j) (StreamRun.step i j) ⟨s, [], []⟩ ops :=
  forall_prefix_iff_admissible (I := StreamRun.Intact j s) (J := fun _ => True)
    (fun _ _ _ _ => trivial) (fun _ _ _ hop hr => StreamRun.intact_step_iff hop hr) trivial
    (by simp [StreamRun.Intact]) hdom

/-- Three bytes are sent and received with a buffer of four. -/
theorem stream_intact_iff_three_bytes :
    let r := run (StreamRun.step 1 2) ⟨oneConnection, [], []⟩
      [.sendto 2 (some [1, 2, 3]) none, .recvfrom 3 true 4]
    oneConnection.queuedBytes 2 ++ r.accepted = r.received ++ r.net.queuedBytes 2 := by
  have hdom : Admissible (StreamRun.Undisturbed 1 2) (StreamRun.step 1 2) ⟨oneConnection, [], []⟩
      [.sendto 2 (some [1, 2, 3]) none, .recvfrom 3 true 4] := by decide +kernel
  have hlossless : Admissible (StreamRun.Lossless 1 2) (StreamRun.step 1 2)
      ⟨oneConnection, [], []⟩ [.sendto 2 (some [1, 2, 3]) none, .recvfrom 3 true 4] :=
    ⟨fun _ => Or.inr (by decide +kernel), fun _ => by decide +kernel, trivial⟩
  exact (stream_intact_iff hdom).mpr hlossless _ (prefix_refl _)

end MyOs
