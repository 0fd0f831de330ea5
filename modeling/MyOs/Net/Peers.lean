import MyOs.Net.Sockets

/-!
# Peers

A connected stream socket names its peer, and data sent on it is queued there.  `net_connect` sets
both ends of a connection and `net_close` clears the other end, but a socket that has a peer may
connect again: its old peer then still names it, also when its slot has been closed and is in use
for something else.

`Links` is what matters here of the table: which slots are in use, and whose peer is who.  A link
table is symmetric exactly as long as only sockets without a peer are joined
(`Links.symmetric_join_iff`).  The calls act on the links of the table by `Links.alloc`, `Links.join`
and `Links.cut` (`Net.links_step`), so the peers of sockets stay symmetric in exactly the runs
without a reconnect (`peers_symmetric_iff`).
-/

namespace MyOs

open Lib Function

/-! ## Link tables -/

/-- For each slot whether it is in use, and then its peer. -/
abbrev Links (ι : Type*) := ι → Option (Option ι)

namespace Links

variable {ι : Type*} [DecidableEq ι] {L : Links ι} {c i j k p : ι}

def alloc (L : Links ι) (k : ι) : Links ι := Function.update L k (some none)

def join (L : Links ι) (c k : ι) : Links ι :=
  Function.update (Function.update L k (some (some c))) c (some (some k))

/-- A slot goes out of use, and the peer it had has none. -/
def cut (L : Links ι) (i : ι) : Links ι := fun j =>
  if j = i then none else if L i = some (some j) then (L j).map fun _ => none else L j

def Symmetric (L : Links ι) : Prop := ∀ i j, L i = some (some j) → L j = some (some i)

/-- Nobody is its own peer. -/
def Irreflexive (L : Links ι) : Prop := ∀ i, L i ≠ some (some i)

lemma of_cut (h : L.cut i j = some (some p)) :
    j ≠ i ∧ L i ≠ some (some j) ∧ L j = some (some p) := by
  rw [cut] at h
  split_ifs at h with hj hi
  · simp at h
  · exact ⟨hj, hi, h⟩

lemma Irreflexive.alloc (h : L.Irreflexive) (k : ι) : (L.alloc k).Irreflexive := by
  intro i hi
  rw [Links.alloc, update_apply] at hi
  split_ifs at hi
  · simp at hi
  · exact h i hi

lemma Irreflexive.join (h : L.Irreflexive) (hne : c ≠ k) : (L.join c k).Irreflexive := by
  intro i hi
  rw [Links.join, update_apply, update_apply] at hi
  split_ifs at hi with hc hk
  · exact hne (hc.symm.trans (Option.some.inj (Option.some.inj hi)).symm)
  · exact hne ((Option.some.inj (Option.some.inj hi)).trans hk)
  · exact h i hi

lemma Irreflexive.cut (h : L.Irreflexive) (i : ι) : (L.cut i).Irreflexive :=
  fun j hj => h j (of_cut hj).2.2

omit [DecidableEq ι] in
lemma Symmetric.ne_of_free (h : L.Symmetric) (hk : L k = none) (hi : L i = some (some j)) : j ≠ k := by
  rintro rfl
  rw [h i j hi] at hk
  cases hk

lemma Symmetric.alloc (h : L.Symmetric) (hk : L k = none) : (L.alloc k).Symmetric := by
  intro i j hi
  rw [Links.alloc, update_apply] at hi
  split_ifs at hi
  · simp at hi
  · rw [Links.alloc, update_of_ne (h.ne_of_free hk hi)]
    exact h i j hi

lemma Symmetric.cut (h : L.Symmetric) (i : ι) : (L.cut i).Symmetric := by
  intro j k hj
  obtain ⟨hji, hij, hjk⟩ := of_cut hj
  have hkj := h j k hjk
  have hki : k ≠ i := by
    rintro rfl
    exact hij hkj
  have hik : L i ≠ some (some k) := by
    intro hik
    rw [h i k hik, Option.some_inj, Option.some_inj] at hkj
    exact hji hkj.symm
  rw [Links.cut, if_neg hki, if_neg hik]
  exact hkj

lemma join_left (L : Links ι) (c k : ι) : L.join c k c = some (some k) := update_self ..

lemma join_right (L : Links ι) (h : c ≠ k) : L.join c k k = some (some c) := by
  rw [join, update_of_ne h.symm, update_self]

lemma join_other (L : Links ι) (hc : i ≠ c) (hk : i ≠ k) : L.join c k i = L i := by
  rw [join, update_of_ne hc, update_of_ne hk]

/-- **Joining keeps a table symmetric exactly if the one end had no peer.** -/
lemma symmetric_join_iff (h : L.Symmetric) (hirr : L.Irreflexive) {o : Option ι} (hc : L c = some o)
    (hk : L k = none) : (L.join c k).Symmetric ↔ o = none := by
  have hne : c ≠ k := by
    rintro rfl
    rw [hc] at hk
    cases hk
  constructor
  · intro hjoin
    cases o with
    | none => rfl
    | some p =>
      -- the old peer still names `c`
      have hp : L p = some (some c) := h c p hc
      have hpc : p ≠ c := fun heq => hirr c (heq ▸ hc)
      have hpk : p ≠ k := h.ne_of_free hk hc
      have := hjoin p c (by rw [join_other L hpc hpk, hp])
      rw [join_left] at this
      exact absurd (Option.some.inj (Option.some.inj this)).symm hpk
  · rintro rfl i j hi
    by_cases hic : i = c
    · subst hic
      rw [join_left] at hi
      obtain rfl := Option.some.inj (Option.some.inj hi)
      exact join_right L hne
    by_cases hik : i = k
    · subst hik
      rw [join_right L hne] at hi
      obtain rfl := Option.some.inj (Option.some.inj hi)
      exact join_left L _ _
    rw [join_other L hic hik] at hi
    have hjc : j ≠ c := by
      rintro rfl
      rw [h i j hi] at hc
      simp at hc
    rw [join_other L hjc (h.ne_of_free hk hi)]
    exact h i j hi

end Links

/-! ## The links of the sockets -/

namespace Net

variable {s : Net} {fd : ℤ} {i j : SockIdx}

/-- Which sockets are in use, and whose peer is who. -/
def links (s : Net) : Links SockIdx := fun i =>
  if (s.sockets i).inUse then some (s.sockets i).peer else none

lemma links_set (s : Net) (i : SockIdx) (k : NetSocket) :
    (s.set i k).links = Function.update s.links i (if k.inUse then some k.peer else none) := by
  funext j
  simp only [links, sockets_set, update_apply]
  by_cases h : j = i <;> simp [h]

lemma links_modify {f : NetSocket → NetSocket} (huse : (f (s.sockets i)).inUse = (s.sockets i).inUse)
    (hpeer : (f (s.sockets i)).peer = (s.sockets i).peer) : (s.modify i f).links = s.links := by
  rw [modify, links_set, huse, hpeer]
  exact update_eq_self i s.links

lemma links_eq_none : s.links i = none ↔ (s.sockets i).inUse = false := by
  simp [links]

lemma links_join (s : Net) {c k : SockIdx} (a : SockAddr) (l : SockIdx)
    (hc : (s.sockets c).inUse = true) (hk : (s.sockets k).inUse = false) :
    ((s.set k .fresh).join c a l k).links = s.links.join c k := by
  have hne : c ≠ k := by
    rintro rfl
    rw [hc] at hk
    cases hk
  rw [join, links_modify rfl rfl]
  simp only [modify, links_set, sockets_set, if_neg hne, if_true]
  simp [NetSocket.fresh, hc, Links.join]

lemma links_netClose (h : s.getSocket fd = some i) : (s.netClose fd).2.links = s.links.cut i := by
  obtain ⟨_, huse⟩ := getSocket_eq_some.mp h
  have hi : s.links i = some (s.sockets i).peer := by rw [links, if_pos huse]
  funext j
  simp only [netClose, h, links_set, Links.cut, hi, Option.some_inj]
  by_cases hj : j = i
  · rw [hj, update_self, if_pos rfl]
    rfl
  rw [update_of_ne hj, if_neg hj]
  cases hp : (s.sockets i).peer with
  | none => simp
  | some p =>
    by_cases hjp : p = j
    · subst hjp
      simp [links, sockets_modify]
    · simp [modify, links_set, update_of_ne (Ne.symm hjp), hjp]

lemma links_netConnect (s : Net) (fd : ℤ) (addr : Option SockAddr) :
    (∃ c k, s.connecting (.connect fd addr) = some c ∧ (s.sockets c).inUse = true ∧
      s.freeSlot = some k ∧ (s.netConnect fd addr).2.links = s.links.join c k) ∨
    s.connecting (.connect fd addr) = none ∧ (s.netConnect fd addr).2 = s := by
  cases hconn : s.connecting (.connect fd addr) with
  | some c =>
    obtain ⟨a, l, k, hc, _, _, hk, heq⟩ := netConnect_of_connecting hconn
    obtain ⟨_, huse⟩ := getSocket_eq_some.mp hc
    refine Or.inl ⟨c, k, rfl, huse, hk, ?_⟩
    rw [heq]
    exact s.links_join a l huse (freeSlot_eq_some hk)
  | none => exact Or.inr ⟨rfl, by rw [netConnect_of_not_connecting hconn]⟩

lemma links_step (s : Net) (op : NetOp) :
    (∃ c k, s.connecting op = some c ∧ (s.sockets c).inUse = true ∧ s.freeSlot = some k ∧
      (s.step op).links = s.links.join c k) ∨
    s.connecting op = none ∧
      ((s.step op).links = s.links ∨ (∃ k, s.links k = none ∧ (s.step op).links = s.links.alloc k) ∨
        ∃ fd i, op = .close fd ∧ s.getSocket fd = some i ∧ (s.step op).links = s.links.cut i) := by
  cases op with
  | connect fd addr =>
    refine (s.links_netConnect fd addr).imp_right fun ⟨hnone, heq⟩ => ⟨hnone, Or.inl ?_⟩
    rw [step, heq]
  | socket domain type ownerPid =>
    refine Or.inr ⟨rfl, ?_⟩
    rcases s.netSocket_cases domain type ownerPid with heq | ⟨k, hk, heq⟩
    · exact Or.inl (by rw [step, heq])
    · refine Or.inr (Or.inl ⟨k, links_eq_none.mpr (freeSlot_eq_some hk), ?_⟩)
      rw [step, heq, links_set]
      rfl
  | close fd =>
    refine Or.inr ⟨rfl, ?_⟩
    cases hfd : s.getSocket fd with
    | none => exact Or.inl (by rw [step, netClose, hfd])
    | some i => exact Or.inr (Or.inr ⟨fd, i, rfl, hfd, links_netClose hfd⟩)
  | bind fd addr =>
    refine Or.inr ⟨rfl, Or.inl ?_⟩
    rcases s.netBind_cases fd addr with heq | ⟨i, a, _, heq⟩
    · rw [step, heq]
    · rw [step, heq, links_modify rfl rfl]
  | listen fd =>
    refine Or.inr ⟨rfl, Or.inl ?_⟩
    rcases s.netListen_cases fd with heq | ⟨i, _, heq⟩
    · rw [step, heq]
    · rw [step, heq, links_modify rfl rfl]
  | accept fd =>
    refine Or.inr ⟨rfl, Or.inl ?_⟩
    rcases s.netAccept_cases fd with heq | ⟨i, child, pending, _, _, _, _, heq⟩
    · rw [step, heq]
    · rw [step, heq, links_modify rfl rfl]
  | sendto fd buf addr =>
    refine Or.inr ⟨rfl, Or.inl ?_⟩
    rcases s.netSendto_cases fd buf addr with heq | ⟨i, j, bytes, _, _, _, heq⟩
    · rw [step, heq]
    · rw [step, heq, enqueueMsg, links_modify rfl rfl]
  | recvfrom fd buf len =>
    refine Or.inr ⟨rfl, Or.inl ?_⟩
    rcases s.netRecvfrom_cases fd buf len with ⟨_, heq⟩ | ⟨i, msg, queue, _, _, _, heq⟩
    · rw [step, heq]
    · rw [step, heq, links_modify rfl rfl]

/-! ## Symmetric peers -/

/-- The peer of a socket in use is in use, and has that socket as its peer. -/
def PeersLinked (s : Net) : Prop :=
  ∀ i j, (s.sockets i).inUse = true → (s.sockets i).peer = some j →
    (s.sockets j).inUse = true ∧ (s.sockets j).peer = some i

/-- A connect that succeeds is made by a socket without a peer. -/
def ConnectsUnlinked (s : Net) (op : NetOp) : Prop :=
  ∀ c, s.connecting op = some c → (s.sockets c).peer = none

lemma links_eq_some {o : Option SockIdx} :
    s.links i = some o ↔ (s.sockets i).inUse = true ∧ (s.sockets i).peer = o := by
  simp [links]

lemma peersLinked_iff : s.PeersLinked ↔ s.links.Symmetric := by
  simp only [PeersLinked, Links.Symmetric, links_eq_some, and_imp]

lemma links_ne_none_step (hi : s.links i ≠ none) {op : NetOp}
    (hclose : ∀ fd, op = .close fd → s.getSocket fd ≠ some i) : (s.step op).links i ≠ none := by
  rcases s.links_step op with ⟨c, k, _, _, _, heq⟩ | ⟨_, heq | ⟨k, _, heq⟩ | ⟨fd, k, hop, hfd, heq⟩⟩
  · rw [heq, Links.join, update_apply, update_apply]
    split_ifs
    · simp
    · simp
    · exact hi
  · rwa [heq]
  · rw [heq, Links.alloc, update_apply]
    split_ifs
    · simp
    · exact hi
  · have hik : i ≠ k := fun h => hclose fd hop (h ▸ hfd)
    rw [heq, Links.cut, if_neg hik]
    split_ifs
    · simpa using hi
    · exact hi

lemma irreflexive_step (h : s.links.Irreflexive) (op : NetOp) : (s.step op).links.Irreflexive := by
  rcases s.links_step op with ⟨c, k, _, hc, hk, heq⟩ | ⟨_, heq | ⟨k, _, heq⟩ | ⟨_, i, _, _, heq⟩⟩
  · rw [heq]
    exact h.join (ne_of_freeSlot hc hk)
  · rwa [heq]
  · rw [heq]
    exact h.alloc k
  · rw [heq]
    exact h.cut i

lemma peersLinked_step_iff (hirr : s.links.Irreflexive) (h : s.PeersLinked) (op : NetOp) :
    (s.step op).PeersLinked ↔ s.ConnectsUnlinked op := by
  rw [peersLinked_iff] at h ⊢
  rcases s.links_step op with ⟨c, k, hconn, hc, hk, heq⟩ | ⟨hnone, heq⟩
  · have hlink : s.links c = some (s.sockets c).peer := links_eq_some.mpr ⟨hc, rfl⟩
    rw [heq, Links.symmetric_join_iff h hirr hlink (links_eq_none.mpr (freeSlot_eq_some hk)),
      ConnectsUnlinked, hconn]
    simp
  · refine iff_of_true ?_ fun c hc => by rw [hnone] at hc; cases hc
    rcases heq with heq | ⟨k, hk, heq⟩ | ⟨_, i, _, _, heq⟩
    · rwa [heq]
    · rw [heq]
      exact h.alloc hk
    · rw [heq]
      exact h.cut i

lemma links_init (i : SockIdx) : init.links i = none := rfl

lemma irreflexive_init : init.links.Irreflexive := by
  intro i hi
  rw [links_init] at hi
  cases hi

lemma peersLinked_init : init.PeersLinked := by
  rw [peersLinked_iff]
  intro i j hi
  rw [links_init] at hi
  cases hi

/-- A listener, and a client that connects to it twice.  The client closes, a stranger opens a socket
in its slot; and the server side of the first connection sends a byte. -/
def reconnectOps : List NetOp :=
  [.socket 2 1 7, .bind 1 (some ⟨0, 80⟩), .listen 1, .socket 2 1 8, .connect 2 (some ⟨0, 80⟩),
    .connect 2 (some ⟨0, 80⟩), .close 2, .socket 2 2 9, .sendto 3 (some [42]) none]

/-- **A reconnect leaves a peer behind.**  After the second connect slot 2 names slot 1 as its peer,
and slot 1 names slot 3; and the byte is queued on the socket of process 9. -/
theorem reconnect_reaches_stranger :
    ((run step init (reconnectOps.take 6)).sockets 2).inUse = true ∧
      ((run step init (reconnectOps.take 6)).sockets 2).peer = some 1 ∧
      ((run step init (reconnectOps.take 6)).sockets 1).peer = some 3 ∧
      ((run step init reconnectOps).sockets 2).ownerPid = 7 ∧
      ((run step init reconnectOps).sockets 1).ownerPid = 9 ∧
      ((run step init reconnectOps).sockets 1).queue.contents.map (·.data) = [[42]] := by
  decide +kernel

end Net

/-! ## Connections -/

/-- A slot, and the serial number of the socket in it. -/
abbrev Endpoint := SockIdx × ℕ

/-- The table with its history: how often each slot came into use, and the two ends of each
connection. -/
structure NetHistory where
  net : Net
  serial : SockIdx → ℕ
  joined : List (Endpoint × Endpoint)

namespace NetHistory

def init : NetHistory := ⟨.init, fun _ => 0, []⟩

/-- The serial number of the socket in a slot after a call. -/
def nextSerial (h : NetHistory) (op : NetOp) (i : SockIdx) : ℕ :=
  if h.net.links i = none ∧ (h.net.step op).links i ≠ none then h.serial i + 1 else h.serial i

def step (h : NetHistory) (op : NetOp) : NetHistory where
  net := h.net.step op
  serial := h.nextSerial op
  joined :=
    match h.net.connecting op, h.net.freeSlot with
    | some c, some k => ((c, h.nextSerial op c), (k, h.nextSerial op k)) :: h.joined
    | _, _ => h.joined

/-- The sockets in two slots are the two ends of one connection. -/
def Connected (h : NetHistory) (i j : SockIdx) : Prop :=
  ((i, h.serial i), (j, h.serial j)) ∈ h.joined ∨ ((j, h.serial j), (i, h.serial i)) ∈ h.joined

/-- The peers are symmetric, and each link is that of a connection. -/
structure Coherent (h : NetHistory) : Prop where
  linked : h.net.PeersLinked
  irreflexive : h.net.links.Irreflexive
  connected : ∀ i j, h.net.links i = some (some j) → h.Connected i j

variable {h : NetHistory} {op : NetOp} {i j : SockIdx}

lemma nextSerial_of_inUse (hi : h.net.links i ≠ none) : h.nextSerial op i = h.serial i :=
  if_neg fun hnew => hi hnew.1

lemma joined_subset (h : NetHistory) (op : NetOp) : h.joined ⊆ (h.step op).joined := by
  rw [step]
  dsimp only
  split
  · exact List.subset_cons_self _ _
  · exact List.Subset.refl _

lemma Coherent.connected_step (hc : h.Coherent) (hi : h.net.links i = some (some j)) :
    (h.step op).Connected i j := by
  have hj : h.net.links j = some (some i) := Net.peersLinked_iff.mp hc.linked i j hi
  have hsi : (h.step op).serial i = h.serial i := nextSerial_of_inUse (by simp [hi])
  have hsj : (h.step op).serial j = h.serial j := nextSerial_of_inUse (by simp [hj])
  rw [Connected, hsi, hsj]
  exact (hc.connected i j hi).imp (fun h' => h.joined_subset op h') fun h' => h.joined_subset op h'

lemma Coherent.step (hc : h.Coherent) (hop : h.net.ConnectsUnlinked op) : (h.step op).Coherent := by
  refine ⟨(Net.peersLinked_step_iff hc.irreflexive hc.linked op).mpr hop,
    Net.irreflexive_step hc.irreflexive op, fun i j hij => ?_⟩
  change (h.net.step op).links i = some (some j) at hij
  rcases h.net.links_step op with
    ⟨c, k, hconn, hcuse, hk, heq⟩ | ⟨_, heq | ⟨k, _, heq⟩ | ⟨_, k, _, _, heq⟩⟩
  · have hne : c ≠ k := Net.ne_of_freeSlot hcuse hk
    have hnew : (h.step op).Connected c k := by
      refine Or.inl ?_
      simp only [NetHistory.step, hconn, hk]
      exact List.mem_cons_self
    rw [heq] at hij
    by_cases hic : i = c
    · subst hic
      rw [Links.join_left, Option.some_inj, Option.some_inj] at hij
      exact hij ▸ hnew
    by_cases hik : i = k
    · subst hik
      rw [Links.join_right _ hne, Option.some_inj, Option.some_inj] at hij
      exact hij ▸ hnew.symm
    rw [Links.join_other _ hic hik] at hij
    exact hc.connected_step hij
  · rw [heq] at hij
    exact hc.connected_step hij
  · rw [heq, Links.alloc, update_apply] at hij
    split_ifs at hij
    · simp at hij
    · exact hc.connected_step hij
  · rw [heq] at hij
    exact hc.connected_step (Links.of_cut hij).2.2

lemma coherent_init : init.Coherent := by
  refine ⟨Net.peersLinked_init, Net.irreflexive_init, fun i j hi => ?_⟩
  change Net.init.links i = _ at hi
  rw [Net.links_init] at hi
  cases hi

lemma admissible_net {ok : Net → NetOp → Prop} : ∀ {ops : List NetOp} {h : NetHistory},
    Admissible ok Net.step h.net ops → Admissible (fun h op => ok h.net op) step h ops := by
  intro ops
  induction ops with
  | nil => intro h _; trivial
  | cons op ops ih => rintro h ⟨hop, hrest⟩; exact ⟨hop, ih hrest⟩

end NetHistory

/-- **Peers are symmetric in exactly the runs without a reconnect.**  From the empty table, the peer of
every socket in use is in use and names that socket throughout the calls `ops`, if and only if every
connect that succeeds is made by a socket without a peer.  Then, whatever is sent on a stream socket
next, it is queued on no other socket than the other end of its connection. -/
theorem peers_symmetric_iff (ops : List NetOp) :
    ((∀ pre, pre <+: ops → (run Net.step .init pre).PeersLinked) ↔
      Admissible Net.ConnectsUnlinked Net.step .init ops) ∧
    (Admissible Net.ConnectsUnlinked Net.step .init ops →
      let h := run NetHistory.step .init ops
      ∀ fd buf addr i j, h.net.getSocket fd = some i → (h.net.sockets i).type = netSockStream →
        ((h.net.step (.sendto fd buf addr)).sockets j).queue ≠ (h.net.sockets j).queue →
          h.Connected i j) := by
  have hdom : Admissible (fun _ _ => True) Net.step .init ops :=
    admissible_of_forall fun _ _ => trivial
  refine ⟨forall_prefix_iff_admissible (J := fun s : Net => s.links.Irreflexive)
    (fun s op hs _ => Net.irreflexive_step hs op)
    (fun s op hirr _ hs => Net.peersLinked_step_iff hirr hs op)
    Net.irreflexive_init Net.peersLinked_init hdom, fun hops => ?_⟩
  intro h fd buf addr i j hfd htype hne
  have hc : h.Coherent :=
    run_invariant (fun _ _ hs hop => NetHistory.Coherent.step hs hop) NetHistory.coherent_init
      (NetHistory.admissible_net hops)
  refine hc.connected i j (Net.links_eq_some.mpr ⟨(Net.getSocket_eq_some.mp hfd).2, ?_⟩)
  rcases h.net.netSendto_cases fd buf addr with heq | ⟨i', j', bytes, hfd', _, htarget, heq⟩
  · rw [Net.step, heq] at hne
    exact absurd rfl hne
  · obtain rfl : i = i' := Option.some.inj (hfd.symm.trans hfd')
    obtain ⟨hdgram, _⟩ | ⟨_, hpeer⟩ := htarget
    · rw [htype] at hdgram
      exact absurd hdgram (by decide)
    · rw [Net.step, heq, Net.enqueueMsg, Net.sockets_modify] at hne
      split_ifs at hne with hj
      · rw [hj, hpeer]
      · exact absurd rfl hne

end MyOs
