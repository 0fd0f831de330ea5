import MyOs.Net.Peers
import MyOs.Sched.Syscalls

/-!
# Descriptors

The open files of a thread are numbered from 3, by their place in its own table; sockets are
numbered from 1, by their slot in the table of all threads.  Nothing keeps the two apart, nor the
sockets from the standard descriptors: the first socket of a system is 1.  `SYS_close` looks for a
file first.

A descriptor of a socket is unambiguous for as long as no number is given out that means something
else to the thread already (`descriptors_unambiguous_iff`), and `SYS_close` then closes what the
descriptor was returned for.  Whether it leaves all other sockets alone is another matter: it cuts off
the socket that the closed one names as its peer, and after a second connect that need not be the other
end of its connection.
-/

namespace MyOs

open Lib

/-- A user thread and the sockets: its open files, and the descriptors that `SYS_socket` and
`SYS_accept` returned to it and it has not closed, with the serial number of the socket each was
returned for, if there was one. -/
structure FdSys where
  pid : ℤ
  files : List ℕ
  hist : NetHistory
  held : List (ℤ × Option ℕ)

/-- A system call of the thread, or a socket call of another one.  `openFile` is given the file that
`vfs_open` returned, 0 if it failed. -/
inductive FdOp
  | openFile (file : ℕ)
  | socket (domain type : ℤ)
  | connect (fd : ℤ) (addr : Option SockAddr)
  | accept (fd : ℤ)
  | close (fd : ℤ)
  | other (op : NetOp)

namespace FdSys

/-- The serial number of the socket that a descriptor stands for. -/
def serialOf (h : NetHistory) (fd : ℤ) : Option ℕ := (h.net.getSocket fd).map h.serial

/-- `SYS_open`: a file for which there is no place is closed again. -/
def sysOpen (d : FdSys) (file : ℕ) : ℤ × FdSys :=
  if file = 0 then (-1, d)
  else
    match vfsFdAllocate d.files file with
    | none => (-1, d)
    | some (fd, files) => (fd, { d with files := files })

/-- A descriptor was returned to the thread. -/
def hold (d : FdSys) (fd : ℤ) : FdSys :=
  if fd < 0 then d else { d with held := (fd, serialOf d.hist fd) :: d.held }

def sysSocket (d : FdSys) (domain type : ℤ) : ℤ × FdSys :=
  let fd := (d.hist.net.netSocket domain type d.pid).1
  (fd, hold { d with hist := d.hist.step (.socket domain type d.pid) } fd)

def sysAccept (d : FdSys) (fd : ℤ) : ℤ × FdSys :=
  let child := (d.hist.net.netAccept fd).1
  (child, hold { d with hist := d.hist.step (.accept fd) } child)

def sysClose (d : FdSys) (fd : ℤ) : ℤ × FdSys :=
  match vfsFdGet d.files fd with
  | some (i, _) => (0, { d with files := d.files.set i 0 })
  | none =>
    ((d.hist.net.netClose fd).1,
      { d with hist := d.hist.step (.close fd), held := d.held.filter fun h => h.1 ≠ fd })

def step (d : FdSys) : FdOp → FdSys
  | .openFile file => (d.sysOpen file).2
  | .socket domain type => (d.sysSocket domain type).2
  | .connect fd addr => { d with hist := d.hist.step (.connect fd addr) }
  | .accept fd => (d.sysAccept fd).2
  | .close fd => (d.sysClose fd).2
  | .other op => { d with hist := d.hist.step op }

/-- A number that is none of the standard descriptors and no open file of the thread. -/
def Apart (d : FdSys) (fd : ℤ) : Prop :=
  fd ≠ 0 ∧ fd ≠ 1 ∧ fd ≠ 2 ∧ vfsFdGet d.files fd = none

def Unambiguous (d : FdSys) : Prop := ∀ h ∈ d.held, d.Apart h.1

/-- The number that is given out next means nothing else to the thread: that of the first free place
for a file, that of the first free slot for a socket, and the oldest pending one for an accept. -/
def FreshNumber (d : FdSys) : FdOp → Prop
  | .openFile file =>
    file ≠ 0 → ∀ i, d.files.findIdx? (· = 0) = some i → ∀ h ∈ d.held, h.1 ≠ (i + 3 : ℕ)
  | .socket domain type =>
    domain = netAfInet → type = netSockStream ∨ type = netSockDgram →
      ∀ i, d.hist.net.freeSlot = some i → d.Apart (fdFromIndex i)
  | .accept fd =>
    ∀ i, d.hist.net.getSocket fd = some i → (d.hist.net.sockets i).state = .listen →
      ∀ child ∈ (d.hist.net.sockets i).pending.contents.head?, 0 ≤ child → d.Apart child
  | .connect _ _ | .close _ | .other _ => True

variable {d : FdSys} {fd : ℤ}

/-! ## Files -/

lemma vfsFdGet_eq_none {files : List ℕ} :
    vfsFdGet files fd = none ↔ ∀ i file, fd = (i + 3 : ℕ) → files[i]? = some file → file = 0 := by
  rw [vfsFdGet]
  split_ifs with hfd
  · exact iff_of_true rfl fun i file h => by omega
  · constructor
    · rintro h i file rfl hi
      rw [show ((i + 3 : ℕ) - 3 : ℤ).toNat = i by omega, hi] at h
      by_contra hne
      simp [hne] at h
    · intro h
      cases hget : files[(fd - 3).toNat]? with
      | none => rfl
      | some file => simp [h _ file (by omega) hget]

lemma vfsFdGet_place {files : List ℕ} {i file : ℕ} (hi : files[i]? = some file) (hne : file ≠ 0) :
    vfsFdGet files (i + 3 : ℕ) = some (i, file) := by
  rw [vfsFdGet, if_neg (by omega), show ((i + 3 : ℕ) - 3 : ℤ).toNat = i by omega, hi]
  simp [hne]

lemma vfsFdGet_set {files : List ℕ} {i file : ℕ} (hi : i < files.length) (hne : file ≠ 0) :
    vfsFdGet (files.set i file) fd = none ↔ vfsFdGet files fd = none ∧ fd ≠ (i + 3 : ℕ) := by
  by_cases hfd : fd = (i + 3 : ℕ)
  · have hget : (files.set i file)[i]? = some file := by simp [hi]
    rw [hfd, vfsFdGet_place hget hne]
    simp
  · have hsame : ∀ j, fd = (j + 3 : ℕ) → (files.set i file)[j]? = files[j]? := by
      rintro j rfl
      exact List.getElem?_set_ne fun h => hfd (by rw [h])
    simp only [vfsFdGet_eq_none, hfd, ne_eq, not_false_eq_true, and_true]
    exact forall₃_congr fun j f h => by rw [hsame j h]

lemma vfsFdGet_set_zero {files : List ℕ} (i : ℕ) (h : vfsFdGet files fd = none) :
    vfsFdGet (files.set i 0) fd = none := by
  rw [vfsFdGet_eq_none] at h ⊢
  intro j file hfd hj
  rw [List.getElem?_set] at hj
  split_ifs at hj
  · exact (Option.some.inj hj).symm
  · exact h j file hfd hj

/-! ## Unambiguous descriptors -/

lemma unambiguous_hold (d : FdSys) (fd : ℤ) :
    (d.hold fd).Unambiguous ↔ (0 ≤ fd → d.Apart fd) ∧ d.Unambiguous := by
  rw [hold]
  split_ifs with h
  · exact ⟨fun hd => ⟨fun h' => absurd h (not_lt.mpr h'), hd⟩, And.right⟩
  · simp only [Unambiguous, List.forall_mem_cons]
    exact and_congr_left' ⟨fun h' _ => h', fun h' => h' (not_lt.mp h)⟩

lemma netSocket_fd (s : Net) (domain type pid : ℤ) (P : ℤ → Prop) :
    (0 ≤ (s.netSocket domain type pid).1 → P (s.netSocket domain type pid).1) ↔
      (domain = netAfInet → type = netSockStream ∨ type = netSockDgram →
        ∀ i, s.freeSlot = some i → P (fdFromIndex i)) := by
  simp only [Net.netSocket, Net.allocSocket]
  split_ifs with hdomain htype
  · exact iff_of_true (fun h => absurd h (by simp)) fun h => absurd h hdomain
  · exact iff_of_true (fun h => absurd h (by simp)) fun _ h => by tauto
  · have htype' : type = netSockStream ∨ type = netSockDgram := by tauto
    cases hfree : s.freeSlot with
    | none => simp
    | some i => simp [not_not.mp hdomain, htype', fdFromIndex_nonneg]

lemma netAccept_fd (s : Net) (fd : ℤ) (P : ℤ → Prop) :
    (0 ≤ (s.netAccept fd).1 → P (s.netAccept fd).1) ↔
      ∀ i, s.getSocket fd = some i → (s.sockets i).state = .listen →
        ∀ child ∈ (s.sockets i).pending.contents.head?, 0 ≤ child → P child := by
  simp only [Net.netAccept]
  cases hfd : s.getSocket fd with
  | none => simp
  | some i =>
    by_cases hstate : (s.sockets i).state = .listen
    · cases hpop : (s.sockets i).pending.pop with
      | none => simp [hstate, hpop, Ring.pop_eq_none.mp hpop]
      | some popped =>
        obtain ⟨child, pending⟩ := popped
        by_cases hchild : child < 0
        · simp [hstate, hpop, Ring.contents_of_pop hpop, hchild]
        · simp [hstate, hpop, Ring.contents_of_pop hpop, hchild]
    · simp [hstate]

/-- A call keeps the descriptors unambiguous exactly if the number it gives out is fresh. -/
lemma unambiguous_step_iff (hd : d.Unambiguous) (op : FdOp) :
    (d.step op).Unambiguous ↔ d.FreshNumber op := by
  cases op with
  | openFile file =>
    by_cases hfile : file = 0
    · rw [step, sysOpen, if_pos hfile]
      exact iff_of_true hd fun h => absurd hfile h
    rw [step, sysOpen, if_neg hfile, vfsFdAllocate]
    cases hidx : d.files.findIdx? (· = 0) with
    | none =>
      refine iff_of_true hd fun _ i hi => ?_
      rw [hidx] at hi
      cases hi
    | some i =>
      obtain ⟨hlt, _⟩ := List.findIdx?_eq_some_iff_getElem.mp hidx
      have hiff : ∀ h ∈ d.held, Apart { d with files := d.files.set i file } h.1 ↔
          h.1 ≠ (i + 3 : ℕ) := by
        intro h hh
        obtain ⟨h0, h1, h2, hnone⟩ := hd h hh
        simp [Apart, vfsFdGet_set hlt hfile, hnone, h0, h1, h2]
      refine (forall₂_congr hiff).trans ⟨fun h _ j hj => ?_, fun h => h hfile i hidx⟩
      obtain rfl := Option.some.inj (hidx.symm.trans hj)
      exact h
  | socket domain type =>
    rw [step, sysSocket, unambiguous_hold]
    exact (and_iff_left hd).trans (netSocket_fd d.hist.net domain type d.pid d.Apart)
  | accept fd =>
    rw [step, sysAccept, unambiguous_hold]
    exact (and_iff_left hd).trans (netAccept_fd d.hist.net fd d.Apart)
  | connect fd addr => exact iff_of_true hd trivial
  | other op => exact iff_of_true hd trivial
  | close fd =>
    refine iff_of_true ?_ trivial
    rw [step, sysClose]
    split
    · intro h hh
      obtain ⟨h0, h1, h2, hfile⟩ := hd h hh
      exact ⟨h0, h1, h2, vfsFdGet_set_zero _ hfile⟩
    · exact fun h hh => hd h (List.mem_filter.mp hh).1

/-! ## The sockets descriptors were returned for -/

/-- No other thread closes a socket that the thread holds, and the number that an accept returns stands for
a socket. -/
def SocketsStand (d : FdSys) : FdOp → Prop
  | .other (.close fd) => ∀ h ∈ d.held, h.1 ≠ fd
  | .accept fd =>
    ∀ i, d.hist.net.getSocket fd = some i → (d.hist.net.sockets i).state = .listen →
      ∀ child ∈ (d.hist.net.sockets i).pending.contents.head?, 0 ≤ child → serialOf d.hist child ≠ none
  | _ => True

/-- Every descriptor was returned for a socket, and stands for it still. -/
def Faithful (d : FdSys) : Prop := ∀ h ∈ d.held, h.2 ≠ none ∧ serialOf d.hist h.1 = h.2

lemma serialOf_step {h : NetHistory} {n : ℕ} (hn : serialOf h fd = some n) {op : NetOp}
    (hclose : op ≠ .close fd) : serialOf (h.step op) fd = some n := by
  obtain ⟨i, hi, rfl⟩ := Option.map_eq_some_iff.mp hn
  obtain ⟨hfd, huse⟩ := Net.getSocket_eq_some.mp hi
  have hlink : h.net.links i ≠ none := by simp [Net.links, huse]
  have hkept : (h.net.step op).links i ≠ none := by
    refine Net.links_ne_none_step hlink fun fd' hop hfd' => hclose ?_
    rw [hop, (Net.getSocket_eq_some.mp hfd').1, hfd]
  have huse' : ((h.net.step op).sockets i).inUse = true := by
    by_contra hnot
    exact hkept (Net.links_eq_none.mpr (Bool.eq_false_iff.mpr hnot))
  refine Option.map_eq_some_iff.mpr ⟨i, Net.getSocket_eq_some.mpr ⟨hfd, huse'⟩, ?_⟩
  exact NetHistory.nextSerial_of_inUse hlink

lemma Faithful.step_hist (hd : d.Faithful) {op : NetOp} (hclose : ∀ h ∈ d.held, op ≠ .close h.1) :
    Faithful { d with hist := d.hist.step op } := by
  intro h hh
  obtain ⟨hsome, hserial⟩ := hd h hh
  obtain ⟨n, hn⟩ := Option.ne_none_iff_exists'.mp hsome
  exact ⟨hsome, (serialOf_step (hserial.trans hn) (hclose h hh)).trans hn.symm⟩

lemma Faithful.hold (hd : d.Faithful) (hfd : 0 ≤ fd → serialOf d.hist fd ≠ none) :
    (d.hold fd).Faithful := by
  rw [FdSys.hold]
  split_ifs with hneg
  · exact hd
  · exact List.forall_mem_cons.mpr ⟨⟨hfd (not_lt.mp hneg), rfl⟩, hd⟩

/-- What `net_socket` returns stands for a socket. -/
lemma serialOf_socket (h : NetHistory) (domain type pid : ℤ) :
    0 ≤ (h.net.netSocket domain type pid).1 →
      serialOf (h.step (.socket domain type pid)) (h.net.netSocket domain type pid).1 ≠ none := by
  rw [netSocket_fd h.net domain type pid fun fd => serialOf (h.step (.socket domain type pid)) fd ≠ none]
  intro hdomain htype i hfree hnone
  have huse : ((h.net.netSocket domain type pid).2.sockets i).inUse = true := by
    have htype' : ¬ (type ≠ netSockStream ∧ type ≠ netSockDgram) := by tauto
    simp [Net.netSocket, Net.allocSocket, hdomain, htype', hfree, Net.sockets_modify, Net.sockets_set,
      NetSocket.fresh]
  have hget : (h.step (.socket domain type pid)).net.getSocket (fdFromIndex i) = some i :=
    Net.getSocket_eq_some.mpr ⟨rfl, huse⟩
  rw [serialOf, hget] at hnone
  cases hnone

lemma Faithful.step (hd : d.Faithful) {op : FdOp} (hop : d.SocketsStand op) : (d.step op).Faithful := by
  cases op with
  | openFile file =>
    rw [FdSys.step, sysOpen]
    split_ifs
    · exact hd
    · split <;> exact hd
  | socket domain type =>
    exact (hd.step_hist fun _ _ h => by cases h).hold (serialOf_socket d.hist domain type d.pid)
  | accept fd =>
    refine (hd.step_hist fun _ _ h => by cases h).hold fun hchild => ?_
    have hstands := (netAccept_fd d.hist.net fd fun child => serialOf d.hist child ≠ none).mpr hop hchild
    obtain ⟨n, hn⟩ := Option.ne_none_iff_exists'.mp hstands
    exact Option.ne_none_iff_exists'.mpr ⟨n, serialOf_step hn fun h => by cases h⟩
  | connect fd addr => exact hd.step_hist fun _ _ h => by cases h
  | other op =>
    refine hd.step_hist fun h hh heq => ?_
    subst heq
    exact hop h hh rfl
  | close fd =>
    rw [FdSys.step, sysClose]
    split
    · exact hd
    · have hrest : Faithful { d with held := d.held.filter fun h => h.1 ≠ fd } :=
        fun h hh => hd h (List.mem_filter.mp hh).1
      refine hrest.step_hist fun h hh heq => ?_
      cases heq
      simpa using (List.mem_filter.mp hh).2

/-- A socket that the socket in slot `i` names as its peer names it back, or none. -/
def PeerNamesBack (s : Net) (i : SockIdx) : Prop :=
  ∀ j ≠ i, (s.sockets i).peer = some j → (s.sockets j).peer = some i ∨ (s.sockets j).peer = none

/-- A close cuts off only the other end of the connection, and leaves all other sockets alone, if and only
if the peer names the closed socket back. -/
lemma netClose_spares_iff {s : Net} {i : SockIdx} (h : s.getSocket fd = some i) :
    (∀ j ≠ i, (s.netClose fd).2.sockets j =
      { s.sockets j with
        peer := if (s.sockets i).peer = some j ∧ (s.sockets j).peer = some i then none
          else (s.sockets j).peer }) ↔ PeerNamesBack s i := by
  refine forall₂_congr fun j hj => ?_
  rw [(Net.netClose_of_getSocket h).2 j hj]
  by_cases hpeer : (s.sockets i).peer = some j
  · by_cases hback : (s.sockets j).peer = some i
    · simp [hpeer, hback]
    · simp only [hpeer, hback, if_true, and_false, if_false, false_or, true_implies]
      constructor
      · intro hsame
        exact (congrArg NetSocket.peer hsame).symm
      · intro hnone
        rw [hnone]
  · simp [hpeer]

end FdSys

/-- With the sockets 1 and 2 taken, a listener 3 and a client 4 that connects to it twice; both ends, 5 and 6,
are accepted. -/
def twiceConnected : List FdOp :=
  [.other (.socket 2 1 8), .other (.socket 2 1 8), .socket 2 1, .other (.bind 3 (some ⟨0, 80⟩)),
    .other (.listen 3), .socket 2 1, .connect 4 (some ⟨0, 80⟩), .connect 4 (some ⟨0, 80⟩), .accept 3,
    .accept 3]

/-- **Two descriptors of one number.**  The first socket of a thread without open files is 1.  With two
more sockets open, a socket and then a file are both 3, and closing 3 closes the file.  And even with
descriptors that are unambiguous, closing 5 cuts the connection of 4 and 6. -/
theorem socket_and_file_collide :
    let d : FdSys := ⟨7, List.replicate 8 0, .init, []⟩
    (d.sysSocket 2 1).1 = 1 ∧
      (let d := run FdSys.step d [.socket 2 1, .socket 2 1]
      (d.sysSocket 2 1).1 = 3 ∧ ((d.step (.socket 2 1)).sysOpen 0x5000).1 = 3) ∧
      (let d := run FdSys.step d [.socket 2 1, .socket 2 1, .socket 2 1, .openFile 0x5000, .close 3]
      d.files = List.replicate 8 0 ∧ (d.hist.net.sockets 2).inUse = true) ∧
      (let d := run FdSys.step d twiceConnected
      d.held.map Prod.fst = [6, 5, 4, 3] ∧ (d.hist.net.sockets 3).peer = some 5 ∧
        (d.hist.net.sockets 5).peer = some 3 ∧
        ((d.step (.close 5)).hist.net.sockets 3).peer = none) := by
  decide +kernel

/-- **Descriptors are unambiguous as long as numbers are fresh.**  Whatever files are open and sockets
in use at first, and whatever other threads do: throughout the system calls of a thread no socket
descriptor it holds is 0, 1, 2 or one of its open files, if and only if every number given out to it
is fresh.  Then, if no other thread closes its sockets and what accepts return stands for sockets,
`SYS_close` of an open file closes that file and touches no socket; and `SYS_close` of a socket descriptor
closes the very socket it was returned for and touches no file.  It leaves all other sockets alone, but
that the other end of its connection has no peer any more, if and only if its peer names it back. -/
theorem descriptors_unambiguous_iff (pid : ℤ) (files : List ℕ) (hist : NetHistory)
    (ops : List FdOp) :
    let d₀ : FdSys := ⟨pid, files, hist, []⟩
    ((∀ pre, pre <+: ops → (run FdSys.step d₀ pre).Unambiguous) ↔
      Admissible FdSys.FreshNumber FdSys.step d₀ ops) ∧
    (Admissible FdSys.FreshNumber FdSys.step d₀ ops → Admissible FdSys.SocketsStand FdSys.step d₀ ops →
      let d := run FdSys.step d₀ ops
      (∀ i file, d.files[i]? = some file → file ≠ 0 →
        d.step (.close (i + 3 : ℕ)) = { d with files := d.files.set i 0 }) ∧
      ∀ h ∈ d.held,
        (d.step (.close h.1)).files = d.files ∧
        ∃ i : SockIdx, h.1 = fdFromIndex i ∧ h.2 = some (d.hist.serial i) ∧
          (d.hist.net.sockets i).inUse = true ∧ (d.step (.close h.1)).hist.net.sockets i = .zero ∧
          ((∀ j ≠ i, (d.step (.close h.1)).hist.net.sockets j =
            { d.hist.net.sockets j with
              peer := if (d.hist.net.sockets i).peer = some j ∧ (d.hist.net.sockets j).peer = some i
                then none else (d.hist.net.sockets j).peer }) ↔
            FdSys.PeerNamesBack d.hist.net i)) := by
  intro d₀
  have hdom : Admissible (fun _ _ => True) FdSys.step d₀ ops :=
    admissible_of_forall fun _ _ => trivial
  have hempty : d₀.Unambiguous := fun h hh => by cases hh
  have hiff : (∀ pre, pre <+: ops → (run FdSys.step d₀ pre).Unambiguous) ↔
      Admissible FdSys.FreshNumber FdSys.step d₀ ops :=
    forall_prefix_iff_admissible (I := FdSys.Unambiguous) (J := fun _ => True) (fun _ _ _ _ => trivial)
      (fun d op _ _ hd => FdSys.unambiguous_step_iff hd op) trivial hempty hdom
  refine ⟨hiff, fun hfresh hstand => ?_⟩
  intro d
  have hd : d.Unambiguous := hiff.mpr hfresh ops (List.prefix_refl ops)
  have hinit : d₀.Faithful := fun h hh => by cases hh
  have hfaithful : d.Faithful :=
    run_invariant (I := FdSys.Faithful) (fun _ _ hs hop => hs.step hop) hinit hstand
  refine ⟨fun i file hi hne => ?_, fun h hheld => ?_⟩
  · rw [FdSys.step, FdSys.sysClose, FdSys.vfsFdGet_place hi hne]
  · have hnone : vfsFdGet d.files h.1 = none := (hd _ hheld).2.2.2
    have hstep : d.step (.close h.1) =
        { d with hist := d.hist.step (.close h.1), held := d.held.filter fun h' => h'.1 ≠ h.1 } := by
      rw [FdSys.step, FdSys.sysClose, hnone]
    obtain ⟨hsome, hserial⟩ := hfaithful h hheld
    obtain ⟨n, hn⟩ := Option.ne_none_iff_exists'.mp hsome
    obtain ⟨i, hi, hserial⟩ := Option.map_eq_some_iff.mp (hserial.trans hn)
    obtain ⟨hfd, huse⟩ := Net.getSocket_eq_some.mp hi
    rw [hstep]
    exact ⟨rfl, i, hfd, hn.trans (congrArg some hserial.symm), huse,
      (Net.netClose_of_getSocket hi).1, FdSys.netClose_spares_iff hi⟩

end MyOs
