import MyOs.Net.Sockets

/-!
# Accepting connections

`net_connect` makes a server socket and queues its descriptor at the listener, from which
`net_accept` takes it.  Two things go wrong.  A connect that finds the listener's ring full still
makes the socket, joins the client to it and returns 0, and nobody will ever be told its descriptor.
And ports are not exclusive: a connect goes to the first listener on the port.

A run keeps account of the descriptors made for the port of a listener and of those it has returned
(`AcceptRun`).  The pending ring is what lies between the two in exactly the runs in which neither
happens (`accepts_in_order_iff`).
-/

namespace MyOs

open Lib

namespace Net

variable {s : Net} {fd : ℤ} {i j : SockIdx} {op : NetOp}

lemma pending_netConnect {addr : Option SockAddr} {c : SockIdx}
    (h : s.connecting (.connect fd addr) = some c) :
    ∃ a l k, addr = some a ∧ s.findListener a.port = some l ∧ s.freeSlot = some k ∧
      (s.netConnect fd addr).1 = 0 ∧
      ∀ j ≠ k, ((s.netConnect fd addr).2.sockets j).pending =
        if j = l then (s.sockets l).pending.push (fdFromIndex k) else (s.sockets j).pending := by
  obtain ⟨a, l, k, _, ha, hl, hk, heq⟩ := netConnect_of_connecting h
  refine ⟨a, l, k, ha, hl, hk, by rw [heq], fun j hj => ?_⟩
  have hlk : l ≠ k := ne_of_freeSlot (findListener_eq_some hl).1 hk
  rw [heq, pending_join, sockets_set, if_neg hlk, sockets_set, if_neg hj]

/-- Only `net_connect` and `net_accept` change a pending ring, but that it is cleared with its slot. -/
lemma pending_step (s : Net) (j : SockIdx) (hconnect : ∀ fd addr, op ≠ .connect fd addr)
    (haccept : ∀ fd, op ≠ .accept fd) :
    ((s.step op).sockets j).pending = (s.sockets j).pending ∨
      ((s.step op).sockets j).pending.contents = [] ∧
        ¬ ((s.sockets j).inUse = true ∧ ((s.step op).sockets j).inUse = true) := by
  cases op with
  | socket domain type ownerPid =>
    rcases s.netSocket_cases domain type ownerPid with heq | ⟨k, hk, heq⟩
    · exact Or.inl (by rw [step, heq])
    by_cases hjk : j = k
    · refine Or.inr ⟨?_, fun h => ne_of_freeSlot h.1 hk hjk⟩
      rw [step, heq, sockets_set, if_pos hjk]
      exact Ring.contents_clear 0
    · exact Or.inl (by rw [step, heq, sockets_set, if_neg hjk])
  | close fd =>
    rcases s.netClose_cases fd with heq | ⟨i, _, hzero, hother⟩
    · exact Or.inl (by rw [step, heq])
    by_cases hji : j = i
    · subst hji
      refine Or.inr ⟨?_, fun h => ?_⟩
      · rw [step, hzero]
        exact Ring.contents_clear 0
      · rw [step, hzero] at h
        cases h.2
    · exact Or.inl (by rw [step, hother j hji])
  | bind fd addr =>
    refine Or.inl ?_
    rcases s.netBind_cases fd addr with heq | ⟨i, a, _, heq⟩
    · rw [step, heq]
    · rw [step, heq, modify_frame NetSocket.pending]
      exact fun _ => rfl
  | listen fd =>
    refine Or.inl ?_
    rcases s.netListen_cases fd with heq | ⟨i, _, heq⟩
    · rw [step, heq]
    · rw [step, heq, modify_frame NetSocket.pending]
      exact fun _ => rfl
  | sendto fd buf addr =>
    refine Or.inl ?_
    rcases s.netSendto_cases fd buf addr with heq | ⟨i, k, bytes, _, _, _, heq⟩
    · rw [step, heq]
    · rw [step, heq, enqueueMsg, modify_frame NetSocket.pending]
      exact fun _ => rfl
  | recvfrom fd buf len =>
    refine Or.inl ?_
    rcases s.netRecvfrom_cases fd buf len with ⟨_, heq⟩ | ⟨i, msg, queue, _, _, _, heq⟩
    · rw [step, heq]
    · rw [step, heq, modify_frame NetSocket.pending]
      exact fun _ => rfl
  | connect fd addr => exact absurd rfl (hconnect fd addr)
  | accept fd => exact absurd rfl (haccept fd)

lemma mem_pending_step {x : ℤ} (hx : x ∈ ((s.step op).sockets j).pending.contents) :
    x ∈ (s.sockets j).pending.contents ∨ ∃ k : SockIdx, x = fdFromIndex k := by
  have hother : (∀ fd addr, op ≠ .connect fd addr) → (∀ fd, op ≠ .accept fd) →
      x ∈ (s.sockets j).pending.contents := by
    intro hconnect haccept
    rcases s.pending_step j hconnect haccept with heq | ⟨hnil, _⟩
    · exact heq ▸ hx
    · rw [hnil] at hx
      cases hx
  cases op with
  | connect fd addr =>
    cases hconn : s.connecting (.connect fd addr) with
    | none =>
      rw [step, netConnect_of_not_connecting hconn] at hx
      exact Or.inl hx
    | some c =>
      obtain ⟨a, l, k, _, _, hl, hk, heq⟩ := netConnect_of_connecting hconn
      rw [step, heq, pending_join, sockets_set,
        if_neg (ne_of_freeSlot (findListener_eq_some hl).1 hk), sockets_set] at hx
      split_ifs at hx with hjl hjk
      · by_cases hfull : (s.sockets l).pending.Full
        · rw [Ring.contents_push_of_full hfull] at hx
          exact Or.inl (hjl ▸ hx)
        · rw [Ring.contents_push hfull, List.mem_append, List.mem_singleton] at hx
          exact hx.imp (fun h => hjl ▸ h) fun h => ⟨k, h⟩
      · rw [show NetSocket.fresh.pending.contents = [] from Ring.contents_clear 0] at hx
        cases hx
      · exact Or.inl hx
  | accept fd =>
    rcases s.netAccept_cases fd with heq | ⟨i, child, pending, _, _, hpop, _, heq⟩
    · rw [step, heq] at hx
      exact Or.inl hx
    · rw [step, heq, sockets_modify] at hx
      split_ifs at hx with hji
      · rw [hji, Ring.contents_of_pop hpop]
        exact Or.inl (List.mem_cons_of_mem _ hx)
      · exact Or.inl hx
  | _ => exact Or.inl (hother (fun _ _ h => by cases h) fun _ h => by cases h)

lemma pending_nonneg (ops : List NetOp) (j : SockIdx) :
    ∀ x ∈ ((run step init ops).sockets j).pending.contents, 0 ≤ x := by
  have hrun : ∀ j, ∀ x ∈ ((run step init ops).sockets j).pending.contents, 0 ≤ x := by
    refine run_preserves (I := fun s : Net => ∀ j, ∀ x ∈ (s.sockets j).pending.contents, 0 ≤ x)
      (fun s op hs j x hx => ?_) fun j x hx => ?_
    · rcases mem_pending_step hx with hold | ⟨k, rfl⟩
      · exact hs j x hold
      · exact fdFromIndex_nonneg k
    · rw [show (init.sockets j).pending.contents = [] from Ring.contents_clear 0] at hx
      cases hx
  exact hrun j

end Net

/-! ## Runs -/

/-- The sockets, the descriptors made for the port of a listener so far, and those it has returned. -/
structure AcceptRun where
  net : Net
  made : List ℤ
  taken : List ℤ

namespace AcceptRun

variable {L : SockIdx} {r : AcceptRun} {op : NetOp}

/-- A call, where `L` is the listener: a connect to its port that returns 0 has made a socket in the
first free slot. -/
def step (L : SockIdx) (r : AcceptRun) (op : NetOp) : AcceptRun where
  net := r.net.step op
  made :=
    match op with
    | .connect fd (some a) =>
      if (r.net.netConnect fd (some a)).1 = 0 ∧ a.port = (r.net.sockets L).localAddr.port then
        r.made ++ (r.net.freeSlot.map fun k => fdFromIndex k).toList
      else r.made
    | _ => r.made
  taken :=
    match op with
    | .accept fd =>
      if r.net.getSocket fd = some L ∧ 0 ≤ (r.net.netAccept fd).1 then
        r.taken ++ [(r.net.netAccept fd).1]
      else r.taken
    | _ => r.taken

/-- Slot `L` holds a listening socket. -/
def Listens (L : SockIdx) (s : Net) : Prop :=
  (s.sockets L).inUse = true ∧ (s.sockets L).state = .listen

instance (s : Net) : Decidable (Listens L s) := inferInstanceAs (Decidable (_ ∧ _))

def StaysListening (L : SockIdx) (r : AcceptRun) (op : NetOp) : Prop :=
  Listens L r.net ∧ Listens L (r.net.step op)

instance : Decidable (StaysListening L r op) := inferInstanceAs (Decidable (_ ∧ _))

/-- A connect to the port that succeeds finds `L` before any other listener, and finds room in its
ring. -/
def Queues (L : SockIdx) (r : AcceptRun) : NetOp → Prop
  | .connect fd (some a) =>
    r.net.connecting (.connect fd (some a)) ≠ none →
      a.port = (r.net.sockets L).localAddr.port →
        r.net.findListener a.port = some L ∧ ¬ (r.net.sockets L).pending.Full
  | _ => True

/-- What was pending at first and what was made is what was taken and what is pending. -/
def Accounted (L : SockIdx) (s : Net) (r : AcceptRun) : Prop :=
  (s.sockets L).pending.contents ++ r.made = r.taken ++ (r.net.sockets L).pending.contents

variable {s : Net}

/-- A call that leaves the listener's ring alone and counts neither as made nor as taken. -/
lemma accounted_of_pending_eq (hr : Accounted L s r) (hmade : (r.step L op).made = r.made)
    (htaken : (r.step L op).taken = r.taken)
    (hpending : ((r.net.step op).sockets L).pending = (r.net.sockets L).pending) :
    Accounted L s (r.step L op) := by
  rw [Accounted, hmade, htaken, show (r.step L op).net = r.net.step op from rfl, hpending]
  exact hr

/-- A connect to the port of the listener that succeeds is accounted for exactly if the listener is
found and its ring is not full. -/
lemma accounted_connect (hr : Accounted L s r) (hlisten : Listens L r.net) (fd : ℤ)
    (addr : Option SockAddr) :
    Accounted L s (r.step L (.connect fd addr)) ↔ Queues L r (.connect fd addr) := by
  cases hconn : r.net.connecting (.connect fd addr) with
  | none =>
    have heq := Net.netConnect_of_not_connecting hconn
    refine iff_of_true (accounted_of_pending_eq hr ?_ rfl (by rw [Net.step, heq])) ?_
    · cases addr with
      | none => rfl
      | some a => exact if_neg fun h => by rw [heq] at h; exact absurd h.1 (by simp)
    · cases addr with
      | none => trivial
      | some a => exact fun h => absurd hconn h
  | some c =>
    obtain ⟨a, l, k, rfl, hl, hk, hret, hpending⟩ := Net.pending_netConnect hconn
    have hL := hpending L (Net.ne_of_freeSlot hlisten.1 hk)
    have hnet : (r.step L (.connect fd (some a))).net = (r.net.netConnect fd (some a)).2 := rfl
    by_cases hport : a.port = (r.net.sockets L).localAddr.port
    · have hmade : (r.step L (.connect fd (some a))).made = r.made ++ [fdFromIndex k] := by
        simp [step, hret, hport, hk]
      have htaken : (r.step L (.connect fd (some a))).taken = r.taken := rfl
      have hqueues : Queues L r (.connect fd (some a)) ↔
          l = L ∧ ¬ (r.net.sockets L).pending.Full := by
        change (_ ≠ none → _ → r.net.findListener a.port = some L ∧ _) ↔ _
        rw [hconn, hl]
        simp [hport]
      rw [Accounted, hmade, htaken, hnet, hL, ← List.append_assoc, hr, hqueues]
      by_cases hlL : L = l
      · subst hlL
        by_cases hfull : (r.net.sockets L).pending.Full
        · simp [hfull, Ring.contents_push_of_full hfull]
        · simp [hfull, Ring.contents_push hfull]
      · simp [hlL, Ne.symm hlL]
    · have hlL : L ≠ l := by
        rintro rfl
        exact hport (Net.findListener_eq_some hl).2.2.symm
      refine iff_of_true (accounted_of_pending_eq hr ?_ rfl ?_) fun _ h => absurd h hport
      · exact if_neg fun h => hport h.2
      · rw [Net.step, hL, if_neg hlL]

lemma accounted_accept (hr : Accounted L s r)
    (hpos : ∀ x ∈ (r.net.sockets L).pending.contents, 0 ≤ x) (fd : ℤ) :
    Accounted L s (r.step L (.accept fd)) := by
  have htaken : ¬ (r.net.getSocket fd = some L ∧ 0 ≤ (r.net.netAccept fd).1) →
      (r.step L (.accept fd)).taken = r.taken := fun h => if_neg h
  rcases r.net.netAccept_cases fd with heq | ⟨i, child, pending, hfd, _, hpop, hret, heq⟩
  · refine accounted_of_pending_eq hr rfl (htaken ?_) (by rw [Net.step, heq])
    rw [heq]
    exact fun h => absurd h.2 (by simp)
  · by_cases hi : i = L
    · subst hi
      have hcontents := Ring.contents_of_pop hpop
      have hchild : ¬ child < 0 := not_lt.mpr (hpos child (by simp [hcontents]))
      rw [if_neg hchild] at hret
      have hnext : (r.step i (.accept fd)).taken = r.taken ++ [child] := by
        simp [step, hfd, hret, not_lt.mp hchild]
      have hnet : (r.step i (.accept fd)).net = r.net.modify i fun k => { k with pending := pending } :=
        heq
      have hmade : (r.step i (.accept fd)).made = r.made := rfl
      rw [Accounted, hmade, hr, hcontents, hnext, hnet, Net.sockets_modify, if_pos rfl]
      simp
    · refine accounted_of_pending_eq hr rfl (htaken fun h => hi ?_) ?_
      · exact Option.some.inj (hfd.symm.trans h.1)
      · rw [Net.step, heq, Net.sockets_modify, if_neg (Ne.symm hi)]

lemma accounted_step_iff (hop : StaysListening L r op)
    (hpos : ∀ x ∈ (r.net.sockets L).pending.contents, 0 ≤ x) (hr : Accounted L s r) :
    Accounted L s (r.step L op) ↔ Queues L r op := by
  have hother : (∀ fd addr, op ≠ .connect fd addr) → (∀ fd, op ≠ .accept fd) →
      ((r.net.step op).sockets L).pending = (r.net.sockets L).pending := by
    intro hconnect haccept
    exact (r.net.pending_step L hconnect haccept).resolve_right fun h => h.2 ⟨hop.1.1, hop.2.1⟩
  cases op with
  | connect fd addr => exact accounted_connect hr hop.1 fd addr
  | accept fd => exact iff_of_true (accounted_accept hr hpos fd) trivial
  | _ =>
    refine iff_of_true (accounted_of_pending_eq hr rfl rfl (hother ?_ ?_)) trivial
    · exact fun _ _ h => by cases h
    · exact fun _ h => by cases h

lemma pending_nonneg_step (hpos : ∀ x ∈ (r.net.sockets L).pending.contents, 0 ≤ x) (op : NetOp) :
    ∀ x ∈ ((r.step L op).net.sockets L).pending.contents, 0 ≤ x := by
  intro x hx
  rcases Net.mem_pending_step hx with hold | ⟨k, rfl⟩
  · exact hpos x hold
  · exact fdFromIndex_nonneg k

end AcceptRun

/-- A socket that listens on port 80. -/
def openListener : List NetOp := [.socket 2 1 7, .bind 1 (some ⟨0, 80⟩), .listen 1]

/-- Sixteen clients, each of which connects and closes. -/
def sixteenClients : List NetOp :=
  (List.replicate 16 [.socket 2 1 8, .connect 2 (some ⟨0, 80⟩), .close 2]).flatten

/-- **Two ways to lose a connection.**  Sixteen connects return 0, and the descriptor 18 of the last
one's server socket, in use in slot 17, is not queued.  And with a second listener on the port, in
slot 1, a connect to it is queued at the first. -/
theorem connection_not_queued :
    (run (AcceptRun.step 0) ⟨run Net.step .init openListener, [], []⟩ sixteenClients).made =
        (List.range 16).map (fun k => (k : ℤ) + 3) ∧
      ((run (AcceptRun.step 0) ⟨run Net.step .init openListener, [], []⟩
        sixteenClients).net.sockets 0).pending.contents = (List.range 15).map (fun k => (k : ℤ) + 3) ∧
      ((run (AcceptRun.step 0) ⟨run Net.step .init openListener, [], []⟩
        sixteenClients).net.sockets 17).inUse = true ∧
      (run (AcceptRun.step 1) ⟨run Net.step .init (openListener ++
          [.socket 2 1 7, .bind 2 (some ⟨0, 80⟩), .listen 2, .socket 2 1 8]), [], []⟩
        [.connect 3 (some ⟨0, 80⟩)]).made = [4] ∧
      ((run (AcceptRun.step 1) ⟨run Net.step .init (openListener ++
          [.socket 2 1 7, .bind 2 (some ⟨0, 80⟩), .listen 2, .socket 2 1 8]), [], []⟩
        [.connect 3 (some ⟨0, 80⟩)]).net.sockets 1).pending.contents = [] := by
  decide +kernel

/-- **Accepted in order, in exactly the runs that queue.**  In a system that got to `s` in any way, as
long as slot `L` stays listening, whatever is called: what was pending at `s` and the descriptors
made since for connects to the port of `L` are, at every moment, those returned by accepts at `L`
followed by the pending ring, if and only if every connect to the port that succeeds is for `L` and
finds its ring not full.  A connect that returns no 0 changes no socket. -/
theorem accepts_in_order_iff {L : SockIdx} {before ops : List NetOp}
    (hdom : Admissible (AcceptRun.StaysListening L) (AcceptRun.step L)
      ⟨run Net.step .init before, [], []⟩ ops) :
    let s := run Net.step .init before
    ((∀ pre, pre <+: ops →
      let r := run (AcceptRun.step L) ⟨s, [], []⟩ pre
      (s.sockets L).pending.contents ++ r.made =
        r.taken ++ (r.net.sockets L).pending.contents) ↔
      Admissible (AcceptRun.Queues L) (AcceptRun.step L) ⟨s, [], []⟩ ops) ∧
    ∀ fd addr, let r := run (AcceptRun.step L) ⟨s, [], []⟩ ops
      (r.net.netConnect fd addr).1 ≠ 0 → (r.net.netConnect fd addr).2 = r.net := by
  intro s
  refine ⟨forall_prefix_iff_admissible (I := AcceptRun.Accounted L s)
    (J := fun r => ∀ x ∈ (r.net.sockets L).pending.contents, 0 ≤ x)
    (fun r op hpos _ => AcceptRun.pending_nonneg_step hpos op)
    (fun r op hpos hop hr => AcceptRun.accounted_step_iff hop hpos hr)
    (Net.pending_nonneg before L) (by simp [AcceptRun.Accounted]) hdom, fun fd addr => ?_⟩
  intro r hret
  cases hconn : r.net.connecting (.connect fd addr) with
  | none => rw [Net.netConnect_of_not_connecting hconn]
  | some c =>
    obtain ⟨a, l, k, _, _, _, _, heq⟩ := Net.netConnect_of_connecting hconn
    rw [heq] at hret
    exact absurd rfl hret

/-- One client connects and is accepted. -/
theorem accepts_in_order_iff_one_client :
    let r := run (AcceptRun.step 0) ⟨run Net.step .init openListener, [], []⟩
      [.socket 2 1 8, .connect 2 (some ⟨0, 80⟩), .accept 1]
    ((run Net.step .init openListener).sockets 0).pending.contents ++ r.made =
      r.taken ++ (r.net.sockets 0).pending.contents := by
  have hdom : Admissible (AcceptRun.StaysListening 0) (AcceptRun.step 0)
      ⟨run Net.step .init openListener, [], []⟩
      [.socket 2 1 8, .connect 2 (some ⟨0, 80⟩), .accept 1] := by decide +kernel
  have hqueues : Admissible (AcceptRun.Queues 0) (AcceptRun.step 0)
      ⟨run Net.step .init openListener, [], []⟩
      [.socket 2 1 8, .connect 2 (some ⟨0, 80⟩), .accept 1] :=
    ⟨trivial, fun _ _ => by decide +kernel, trivial, trivial⟩
  exact (accepts_in_order_iff hdom).1.mpr hqueues _ (List.prefix_refl _)

end MyOs
