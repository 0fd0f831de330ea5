import MyOs.Lib.Rings
import MyOs.Lib.Runs

/-!
# The sockets of the loopback stack

The socket table of `src/net.c` and the calls on it.  A slot of the table is a socket while it is in
use; the descriptor of slot `i` is `i + 1`, for all threads alike.  A message queue and the queue of
pending connections are each a ring of sixteen slots (`Lib.Ring`).

C's `int` is `ℤ` here, and a null pointer is `none`.  A buffer to send from is the list of its `len`
bytes; of a buffer to receive into only its length and whether it is null matter.  The index `peer`
is always `-1` or in range, so it is an optional slot with `none` for `-1`.
-/

namespace MyOs

open Lib Function

abbrev netMaxSockets : ℕ := 32

abbrev netMaxQueue : ℕ := 16

def netMaxPayload : ℕ := 1500

def netAfInet : ℤ := 2

def netSockStream : ℤ := 1

def netSockDgram : ℤ := 2

/-- `net_state_t`. -/
inductive NetState
  | free
  | bound
  | listen
  | connected
  deriving DecidableEq

/-- `net_sockaddr_in_t`. -/
structure SockAddr where
  addr : UInt32
  port : UInt16
  deriving DecidableEq

/-- `net_msg_t`: the `len` bytes of `data` in use, and where they come from. -/
structure NetMsg where
  data : List UInt8
  src : SockAddr

/-- A slot of the table. -/
abbrev SockIdx := Fin netMaxSockets

instance neZeroSockets : NeZero netMaxSockets := ⟨by decide⟩

instance neZeroQueue : NeZero netMaxQueue := ⟨by decide⟩

/-- `net_socket_t`. -/
structure NetSocket where
  inUse : Bool
  type : ℤ
  state : NetState
  localAddr : SockAddr
  remote : SockAddr
  peer : Option SockIdx
  ownerPid : ℤ
  queue : Ring NetMsg netMaxQueue
  pending : Ring ℤ netMaxQueue

/-- A slot after `memset`: all bytes 0, and so `peer` is slot 0. -/
def NetSocket.zero : NetSocket where
  inUse := false
  type := 0
  state := .free
  localAddr := ⟨0, 0⟩
  remote := ⟨0, 0⟩
  peer := some 0
  ownerPid := 0
  queue := .clear ⟨[], ⟨0, 0⟩⟩
  pending := .clear 0

/-- A slot as `alloc_socket` hands it out. -/
def NetSocket.fresh : NetSocket := { NetSocket.zero with inUse := true, peer := none }

/-- `g_sockets`. -/
structure Net where
  sockets : SockIdx → NetSocket

namespace Net

/-- The table after `net_init`. -/
def init : Net := ⟨fun _ => .zero⟩

def set (s : Net) (i : SockIdx) (k : NetSocket) : Net := ⟨Function.update s.sockets i k⟩

def modify (s : Net) (i : SockIdx) (f : NetSocket → NetSocket) : Net := s.set i (f (s.sockets i))

end Net

def indexFromFd (fd : ℤ) : ℤ := fd - 1

def fdFromIndex (idx : ℤ) : ℤ := idx + 1

lemma fdFromIndex_nonneg (k : SockIdx) : 0 ≤ fdFromIndex k :=
  Int.add_nonneg (Int.natCast_nonneg _) (by decide)

namespace Net

def getSocket (s : Net) (fd : ℤ) : Option SockIdx :=
  let idx := indexFromFd fd
  if h : 0 ≤ idx ∧ idx < netMaxSockets then
    let i : SockIdx := ⟨idx.toNat, by omega⟩
    if (s.sockets i).inUse then some i else none
  else none

/-- The first slot that is not in use. -/
def freeSlot (s : Net) : Option SockIdx :=
  (List.finRange netMaxSockets).find? fun i => !(s.sockets i).inUse

/-- `alloc_socket`; `none` is `-1`. -/
def allocSocket (s : Net) : Option (SockIdx × Net) :=
  s.freeSlot.map fun i => (i, s.set i .fresh)

def netSocket (s : Net) (domain type ownerPid : ℤ) : ℤ × Net :=
  if domain ≠ netAfInet then (-1, s)
  else if type ≠ netSockStream ∧ type ≠ netSockDgram then (-1, s)
  else
    match s.allocSocket with
    | none => (-1, s)
    | some (i, s) =>
      (fdFromIndex i, s.modify i fun k =>
        { k with
          type := type
          state := .bound
          localAddr := { k.localAddr with addr := 0x7F000001 }
          ownerPid := ownerPid })

def netBind (s : Net) (fd : ℤ) (addr : Option SockAddr) : ℤ × Net :=
  match s.getSocket fd, addr with
  | some i, some a => (0, s.modify i fun k => { k with localAddr := a, state := .bound })
  | _, _ => (-1, s)

def netListen (s : Net) (fd : ℤ) : ℤ × Net :=
  match s.getSocket fd with
  | none => (-1, s)
  | some i =>
    if (s.sockets i).type ≠ netSockStream then (-1, s)
    else (0, s.modify i fun k => { k with state := .listen })

/-- `net_accept`: the descriptor, and what is stored at `addr`. -/
def netAccept (s : Net) (fd : ℤ) : ℤ × Option SockAddr × Net :=
  match s.getSocket fd with
  | none => (-1, none, s)
  | some i =>
    if (s.sockets i).state ≠ .listen then (-1, none, s)
    else
      match (s.sockets i).pending.pop with
      | none => (-1, none, s)
      | some (childFd, pending) =>
        let s := s.modify i fun k => { k with pending := pending }
        if childFd < 0 then (-1, none, s)
        else (childFd, (s.getSocket childFd).map fun c => (s.sockets c).remote, s)

/-- The listener that `net_connect` finds. -/
def findListener (s : Net) (port : UInt16) : Option SockIdx :=
  (List.finRange netMaxSockets).find? fun i =>
    (s.sockets i).inUse && decide ((s.sockets i).state = .listen) &&
      decide ((s.sockets i).localAddr.port = port)

/-- What `net_connect` does once it has the listener `l` and the new slot `k`: three sockets are
changed, and then the descriptor is queued. -/
def join (s : Net) (c : SockIdx) (addr : SockAddr) (l k : SockIdx) : Net :=
  let s := s.modify k fun x =>
    { x with
      type := netSockStream
      state := .connected
      localAddr := (s.sockets l).localAddr
      remote := (s.sockets c).localAddr
      peer := some c
      ownerPid := (s.sockets l).ownerPid }
  let s := s.modify c fun x => { x with remote := addr, state := .connected, peer := some k }
  s.modify l fun x => { x with pending := x.pending.push (fdFromIndex k) }

def netConnect (s : Net) (fd : ℤ) (addr : Option SockAddr) : ℤ × Net :=
  match s.getSocket fd, addr with
  | some c, some a =>
    if (s.sockets c).type ≠ netSockStream then (-1, s)
    else
      match s.findListener a.port with
      | none => (-1, s)
      | some l =>
        match s.allocSocket with
        | none => (-1, s)
        | some (k, s) => (0, s.join c a l k)
  | _, _ => (-1, s)

/-- The datagram socket that `net_sendto` finds. -/
def findDgram (s : Net) (port : UInt16) : Option SockIdx :=
  (List.finRange netMaxSockets).find? fun i =>
    (s.sockets i).inUse && decide ((s.sockets i).type = netSockDgram) &&
      decide ((s.sockets i).localAddr.port = port)

def enqueueMsg (s : Net) (i : SockIdx) (msg : NetMsg) : Net :=
  s.modify i fun k => { k with queue := k.queue.push msg }

def netSendto (s : Net) (fd : ℤ) (buf : Option (List UInt8)) (addr : Option SockAddr) : ℤ × Net :=
  match s.getSocket fd, buf with
  | some i, some bytes =>
    let msg : NetMsg := ⟨bytes.take netMaxPayload, (s.sockets i).localAddr⟩
    if (s.sockets i).type = netSockDgram then
      match addr with
      | none => (-1, s)
      | some a =>
        match s.findDgram a.port with
        | some j => (msg.data.length, s.enqueueMsg j msg)
        | none => (msg.data.length, s)
    else if (s.sockets i).type = netSockStream ∧ (s.sockets i).state = .connected then
      match (s.sockets i).peer with
      | none => (-1, s)
      | some j =>
        if !(s.sockets j).inUse then (-1, s) else (msg.data.length, s.enqueueMsg j msg)
    else (-1, s)
  | _, _ => (-1, s)

/-- What `net_recvfrom` returns and stores at `buf` and at `addr`. -/
structure Received where
  ret : ℤ
  data : List UInt8
  src : Option SockAddr

def netRecvfrom (s : Net) (fd : ℤ) (buf : Bool) (len : ℕ) : Received × Net :=
  match s.getSocket fd with
  | none => (⟨-1, [], none⟩, s)
  | some i =>
    if !buf then (⟨-1, [], none⟩, s)
    else
      match (s.sockets i).queue.pop with
      | none => (⟨0, [], none⟩, s)
      | some (msg, queue) =>
        (⟨(msg.data.take len).length, msg.data.take len, some msg.src⟩,
          s.modify i fun k => { k with queue := queue })

def netClose (s : Net) (fd : ℤ) : ℤ × Net :=
  match s.getSocket fd with
  | none => (-1, s)
  | some i =>
    let s :=
      match (s.sockets i).peer with
      | none => s
      | some p => s.modify p fun k => { k with peer := none }
    (0, s.set i .zero)

end Net

/-- A call on the sockets. -/
inductive NetOp
  | socket (domain type ownerPid : ℤ)
  | bind (fd : ℤ) (addr : Option SockAddr)
  | listen (fd : ℤ)
  | accept (fd : ℤ)
  | connect (fd : ℤ) (addr : Option SockAddr)
  | sendto (fd : ℤ) (buf : Option (List UInt8)) (addr : Option SockAddr)
  | recvfrom (fd : ℤ) (buf : Bool) (len : ℕ)
  | close (fd : ℤ)

/-- The calls that make, name and close sockets. -/
def NetOp.Manages : NetOp → Prop
  | .socket _ _ _ | .bind _ _ | .listen _ | .close _ => True
  | .accept _ | .connect _ _ | .sendto _ _ _ | .recvfrom _ _ _ => False

namespace Net

/-- The table after a call. -/
def step (s : Net) : NetOp → Net
  | .socket domain type ownerPid => (s.netSocket domain type ownerPid).2
  | .bind fd addr => (s.netBind fd addr).2
  | .listen fd => (s.netListen fd).2
  | .accept fd => (s.netAccept fd).2.2
  | .connect fd addr => (s.netConnect fd addr).2
  | .sendto fd buf addr => (s.netSendto fd buf addr).2
  | .recvfrom fd buf len => (s.netRecvfrom fd buf len).2
  | .close fd => (s.netClose fd).2

/-! ## What the calls do -/

variable {s : Net} {fd : ℤ} {i j : SockIdx}

lemma sockets_set (s : Net) (i j : SockIdx) (k : NetSocket) :
    (s.set i k).sockets j = if j = i then k else s.sockets j := update_apply ..

lemma sockets_modify (s : Net) (i j : SockIdx) (f : NetSocket → NetSocket) :
    (s.modify i f).sockets j = if j = i then f (s.sockets i) else s.sockets j := sockets_set ..

lemma modify_frame {β : Type*} (g : NetSocket → β) (s : Net) (i j : SockIdx)
    {f : NetSocket → NetSocket} (hf : ∀ k, g (f k) = g k) :
    g ((s.modify i f).sockets j) = g (s.sockets j) := by
  rw [sockets_modify]
  split_ifs with h
  · rw [h, hf]
  · rfl

lemma queue_join (s : Net) (c : SockIdx) (a : SockAddr) (l k j : SockIdx) :
    ((s.join c a l k).sockets j).queue = (s.sockets j).queue := by
  rw [join, modify_frame NetSocket.queue, modify_frame NetSocket.queue, modify_frame NetSocket.queue]
  all_goals exact fun _ => rfl

lemma pending_join (s : Net) (c : SockIdx) (a : SockAddr) (l k j : SockIdx) :
    ((s.join c a l k).sockets j).pending =
      if j = l then (s.sockets l).pending.push (fdFromIndex k) else (s.sockets j).pending := by
  rw [join, sockets_modify]
  split_ifs <;> simp [modify_frame NetSocket.pending]

lemma getSocket_eq_some :
    s.getSocket fd = some i ↔ fd = fdFromIndex i ∧ (s.sockets i).inUse = true := by
  have hi := i.isLt
  rw [getSocket]
  by_cases hrange : 0 ≤ indexFromFd fd ∧ indexFromFd fd < netMaxSockets
  · simp only [dif_pos hrange]
    have hidx : (⟨(indexFromFd fd).toNat, by omega⟩ : SockIdx) = i ↔ fd = fdFromIndex i := by
      rw [Fin.ext_iff]
      simp only [indexFromFd, fdFromIndex] at hrange ⊢
      omega
    constructor
    · intro h
      split_ifs at h with huse
      have := Option.some_inj.mp h
      exact ⟨hidx.mp this, this ▸ huse⟩
    · rintro ⟨hfd, huse⟩
      rw [hidx.mpr hfd, if_pos huse]
  · rw [dif_neg hrange]
    refine iff_of_false (by simp) fun ⟨hfd, _⟩ => hrange ?_
    rw [hfd, fdFromIndex, indexFromFd]
    omega

lemma freeSlot_eq_some (h : s.freeSlot = some i) : (s.sockets i).inUse = false := by
  have := List.find?_some h
  simpa using this

lemma findListener_eq_some {port : UInt16} (h : s.findListener port = some i) :
    (s.sockets i).inUse = true ∧ (s.sockets i).state = .listen ∧
      (s.sockets i).localAddr.port = port := by
  have := List.find?_some h
  simpa [and_assoc] using this

lemma netSocket_cases (s : Net) (domain type ownerPid : ℤ) :
    s.netSocket domain type ownerPid = (-1, s) ∨
      ∃ i, s.freeSlot = some i ∧ s.netSocket domain type ownerPid =
        (fdFromIndex i, s.set i { NetSocket.fresh with
          type := type, state := .bound, localAddr := ⟨0x7F000001, 0⟩, ownerPid := ownerPid }) := by
  simp only [netSocket, allocSocket]
  split_ifs
  · exact Or.inl rfl
  · exact Or.inl rfl
  · cases hfree : s.freeSlot with
    | none => exact Or.inl rfl
    | some i =>
      refine Or.inr ⟨i, rfl, ?_⟩
      simp only [Option.map_some, modify, set, update_self, update_idem]
      rfl

lemma netBind_cases (s : Net) (fd : ℤ) (addr : Option SockAddr) :
    s.netBind fd addr = (-1, s) ∨ ∃ i a, s.getSocket fd = some i ∧ s.netBind fd addr =
      (0, s.modify i fun k => { k with localAddr := a, state := .bound }) := by
  unfold netBind
  cases s.getSocket fd with
  | none => exact Or.inl rfl
  | some i =>
    cases addr with
    | none => exact Or.inl rfl
    | some a => exact Or.inr ⟨i, a, rfl, rfl⟩

lemma netListen_cases (s : Net) (fd : ℤ) :
    s.netListen fd = (-1, s) ∨ ∃ i, s.getSocket fd = some i ∧ s.netListen fd =
      (0, s.modify i fun k => { k with state := .listen }) := by
  rw [netListen]
  cases s.getSocket fd with
  | none => exact Or.inl rfl
  | some i =>
    dsimp only
    split_ifs
    · exact Or.inl rfl
    · exact Or.inr ⟨i, rfl, rfl⟩

/-- `net_accept` fails without an effect, or takes the oldest pending descriptor. -/
lemma netAccept_cases (s : Net) (fd : ℤ) :
    s.netAccept fd = (-1, none, s) ∨
      ∃ i child pending, s.getSocket fd = some i ∧ (s.sockets i).state = .listen ∧
        (s.sockets i).pending.pop = some (child, pending) ∧
        (s.netAccept fd).1 = (if child < 0 then -1 else child) ∧
        (s.netAccept fd).2.2 = s.modify i fun k => { k with pending := pending } := by
  rw [netAccept]
  cases s.getSocket fd with
  | none => exact Or.inl rfl
  | some i =>
    by_cases hstate : (s.sockets i).state = .listen
    · cases hpop : (s.sockets i).pending.pop with
      | none => exact Or.inl (by simp [hstate, hpop])
      | some popped =>
        refine Or.inr ⟨i, popped.1, popped.2, rfl, hstate, hpop, ?_⟩
        simp only [hstate, ne_eq, not_true_eq_false, if_false, hpop]
        split_ifs <;> exact ⟨rfl, rfl⟩
    · exact Or.inl (by simp [hstate])

/-- `net_sendto` changes nothing, or queues one message: on a datagram socket, or on the peer. -/
lemma netSendto_cases (s : Net) (fd : ℤ) (buf : Option (List UInt8)) (addr : Option SockAddr) :
    (s.netSendto fd buf addr).2 = s ∨
      ∃ i j bytes, s.getSocket fd = some i ∧ buf = some bytes ∧
        ((s.sockets i).type = netSockDgram ∧ (s.sockets j).type = netSockDgram ∨
          (s.sockets i).type = netSockStream ∧ (s.sockets i).peer = some j) ∧
        s.netSendto fd buf addr = (((bytes.take netMaxPayload).length : ℤ),
          s.enqueueMsg j ⟨bytes.take netMaxPayload, (s.sockets i).localAddr⟩) := by
  unfold netSendto
  cases s.getSocket fd with
  | none => exact Or.inl rfl
  | some i =>
    cases buf with
    | none => exact Or.inl rfl
    | some bytes =>
      dsimp only
      split_ifs with hdgram hstream
      · cases addr with
        | none => exact Or.inl rfl
        | some a =>
          dsimp only
          cases hj : s.findDgram a.port with
          | none => exact Or.inl rfl
          | some j =>
            have hfound := List.find?_some hj
            simp only [Bool.and_eq_true, decide_eq_true_eq] at hfound
            exact Or.inr ⟨i, j, bytes, rfl, rfl, Or.inl ⟨hdgram, hfound.1.2⟩, rfl⟩
      · cases hj : (s.sockets i).peer with
        | none => exact Or.inl rfl
        | some j =>
          dsimp only
          split_ifs
          · exact Or.inl rfl
          · exact Or.inr ⟨i, j, bytes, rfl, rfl, Or.inr ⟨hstream.1, hj⟩, rfl⟩
      · exact Or.inl rfl

/-- `net_recvfrom` changes nothing and returns no data, or takes the oldest message. -/
lemma netRecvfrom_cases (s : Net) (fd : ℤ) (buf : Bool) (len : ℕ) :
    ((s.netRecvfrom fd buf len).1.data = [] ∧ (s.netRecvfrom fd buf len).2 = s) ∨
      ∃ i msg queue, s.getSocket fd = some i ∧ buf = true ∧
        (s.sockets i).queue.pop = some (msg, queue) ∧ s.netRecvfrom fd buf len =
          (⟨(msg.data.take len).length, msg.data.take len, some msg.src⟩,
            s.modify i fun k => { k with queue := queue }) := by
  rw [netRecvfrom]
  cases s.getSocket fd with
  | none => exact Or.inl ⟨rfl, rfl⟩
  | some i =>
    cases buf with
    | false => exact Or.inl ⟨rfl, rfl⟩
    | true =>
      cases hpop : (s.sockets i).queue.pop with
      | none => exact Or.inl (by simp [hpop])
      | some popped => exact Or.inr ⟨i, popped.1, popped.2, rfl, rfl, hpop, by simp [hpop]⟩

lemma netClose_of_getSocket (h : s.getSocket fd = some i) :
    (s.netClose fd).2.sockets i = .zero ∧ ∀ j ≠ i, (s.netClose fd).2.sockets j =
      { s.sockets j with
        peer := if (s.sockets i).peer = some j then none else (s.sockets j).peer } := by
  rw [netClose, h]
  refine ⟨by rw [sockets_set, if_pos rfl], fun j hj => ?_⟩
  rw [sockets_set, if_neg hj]
  cases hp : (s.sockets i).peer with
  | none => simp
  | some p =>
    simp only [sockets_modify, Option.some_inj]
    by_cases hjp : j = p
    · rw [if_pos hjp, if_pos hjp.symm, hjp]
    · rw [if_neg hjp, if_neg (Ne.symm hjp)]

lemma netClose_cases (s : Net) (fd : ℤ) :
    (s.netClose fd).2 = s ∨ ∃ i, s.getSocket fd = some i ∧ (s.netClose fd).2.sockets i = .zero ∧
      ∀ j ≠ i, (s.netClose fd).2.sockets j =
        { s.sockets j with
          peer := if (s.sockets i).peer = some j then none else (s.sockets j).peer } := by
  cases h : s.getSocket fd with
  | none => exact Or.inl (by rw [netClose, h])
  | some i => exact Or.inr ⟨i, rfl, netClose_of_getSocket h⟩

/-- The socket that a call connects, if it is a connect that succeeds. -/
def connecting (s : Net) : NetOp → Option SockIdx
  | .connect fd (some a) =>
    match s.getSocket fd with
    | none => none
    | some c =>
      if (s.sockets c).type = netSockStream ∧ s.findListener a.port ≠ none ∧ s.freeSlot ≠ none then
        some c
      else none
  | _ => none

lemma connecting_eq_some {addr : Option SockAddr} {c : SockIdx} :
    s.connecting (.connect fd addr) = some c ↔ s.getSocket fd = some c ∧
      ∃ a l k, addr = some a ∧ (s.sockets c).type = netSockStream ∧ s.findListener a.port = some l ∧
        s.freeSlot = some k := by
  cases addr with
  | none => simp [connecting]
  | some a =>
    simp only [connecting, Option.ne_none_iff_exists', Option.some_inj]
    cases s.getSocket fd with
    | none => simp
    | some c' =>
      simp only [Option.some_inj]
      constructor
      · intro h
        split_ifs at h with hconn
        obtain rfl := Option.some.inj h
        obtain ⟨htype, ⟨l, hl⟩, k, hk⟩ := hconn
        exact ⟨rfl, a, l, k, rfl, htype, hl, hk⟩
      · rintro ⟨rfl, _, l, k, rfl, htype, hl, hk⟩
        exact if_pos ⟨htype, ⟨l, hl⟩, k, hk⟩

lemma netConnect_of_connecting {addr : Option SockAddr} {c : SockIdx}
    (h : s.connecting (.connect fd addr) = some c) :
    ∃ a l k, s.getSocket fd = some c ∧ addr = some a ∧ s.findListener a.port = some l ∧
      s.freeSlot = some k ∧ s.netConnect fd addr = (0, (s.set k .fresh).join c a l k) := by
  obtain ⟨hc, a, l, k, rfl, htype, hl, hk⟩ := connecting_eq_some.mp h
  refine ⟨a, l, k, hc, rfl, hl, hk, ?_⟩
  simp only [netConnect, hc, htype, ne_eq, not_true_eq_false, if_false, hl, allocSocket, hk,
    Option.map_some]

lemma netConnect_of_not_connecting {addr : Option SockAddr}
    (h : s.connecting (.connect fd addr) = none) : s.netConnect fd addr = (-1, s) := by
  simp only [netConnect, allocSocket]
  cases hc : s.getSocket fd with
  | none => rfl
  | some c =>
    cases addr with
    | none => rfl
    | some a =>
      by_cases htype : (s.sockets c).type = netSockStream
      · cases hl : s.findListener a.port with
        | none => simp [htype, hl]
        | some l =>
          cases hk : s.freeSlot with
          | none => simp [htype, hl]
          | some k => simp [connecting, hc, htype, hl, hk] at h
      · simp [htype]

lemma ne_of_freeSlot (hj : (s.sockets j).inUse = true) (hi : s.freeSlot = some i) : j ≠ i := by
  rintro rfl
  rw [freeSlot_eq_some hi] at hj
  cases hj

/-- Of a socket that stays in use these calls change at most the address, the state and the peer. -/
lemma manages_frame {β : Type*} (g : NetSocket → β)
    (hg : ∀ k a st p, g { k with localAddr := a, state := st, peer := p } = g k) {op : NetOp}
    (hop : op.Manages) (huse : (s.sockets j).inUse = true)
    (huse' : ((s.step op).sockets j).inUse = true) :
    g ((s.step op).sockets j) = g (s.sockets j) := by
  cases op with
  | socket domain type ownerPid =>
    rcases s.netSocket_cases domain type ownerPid with heq | ⟨k, hk, heq⟩
    · rw [step, heq]
    · rw [step, heq, sockets_set, if_neg (ne_of_freeSlot huse hk)]
  | bind fd addr =>
    rcases s.netBind_cases fd addr with heq | ⟨i, a, _, heq⟩
    · rw [step, heq]
    · rw [step, heq]
      exact modify_frame g s i j fun k => hg k a .bound k.peer
  | listen fd =>
    rcases s.netListen_cases fd with heq | ⟨i, _, heq⟩
    · rw [step, heq]
    · rw [step, heq]
      exact modify_frame g s i j fun k => hg k k.localAddr .listen k.peer
  | close fd =>
    rcases s.netClose_cases fd with heq | ⟨i, _, hzero, hother⟩
    · rw [step, heq]
    · have hji : j ≠ i := by
        rintro rfl
        rw [step, hzero] at huse'
        cases huse'
      rw [step, hother j hji]
      exact hg _ (s.sockets j).localAddr (s.sockets j).state _
  | _ => exact hop.elim

end Net

end MyOs
