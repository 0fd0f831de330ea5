import MyOs.Sched.Threads

/-!
# The debugger stub

`src/gdb.c` talks to a debugger over the serial line.  `gdb_handle_exception` is called for #DB and #BP; it
stops the target, answers packets until one of them resumes the target, and returns.  The state is the
static variables of the file, with the memory of the target.

A packet is the text `gdb_read_packet` has put into its buffer; the empty packet stands for everything it
returns 0 for.  The loop over the packets is a machine: `Stub.exception` is the part of
`gdb_handle_exception` before the loop, `Stub.packet` one turn of it, and between two exceptions the target
runs and stores.  The variables of the stub itself are not part of the target's memory.

What a packet does to memory and breakpoints is said once, by `request` (`gdbHandleCommand_gdb`).
-/

namespace MyOs

open Lib List Function

abbrev gdbMaxPacket : ℕ := 512

abbrev gdbMaxBreakpoints : ℕ := 32

/-- `gdb_breakpoint_t`. -/
structure Breakpoint where
  addr : ℕ
  saved : UInt8
  used : Bool

/-- The static variables of `gdb.c`, the two settings it switches, and the memory of the target. -/
structure Gdb where
  enabled : Bool
  active : Bool
  savedTargets : UInt32
  savedSerialEnabled : Bool
  logTargets : UInt32
  serialEnabled : Bool
  breakpoints : Fin gdbMaxBreakpoints → Breakpoint
  pendingReinsert : Bool
  pendingAddr : ℕ
  autoContinue : Bool
  mem : Memory

/-! ## Hexadecimal text -/

/-- `hex_to_int`; there is no value where the source returns -1. -/
def hexToInt (c : UInt8) : Option ℕ :=
  if chr '0' ≤ c ∧ c ≤ chr '9' then some (c - chr '0').toNat
  else if chr 'a' ≤ c ∧ c ≤ chr 'f' then some (10 + (c - chr 'a').toNat)
  else if chr 'A' ≤ c ∧ c ≤ chr 'F' then some (10 + (c - chr 'A').toNat)
  else none

def intToHex (v : ℕ) : UInt8 := (ascii "0123456789abcdef").getD (v &&& 0xF) 0

lemma hexToInt_lt {c : UInt8} {v : ℕ} (h : hexToInt c = some v) : v < 16 := by
  have hall : ∀ n < 256, ∀ w ∈ hexToInt (UInt8.ofNat n), w < 16 := by decide +kernel
  refine hall c.toNat c.toNat_lt v ?_
  rwa [UInt8.ofNat_toNat]

lemma hexToInt_intToHex (v : ℕ) : hexToInt (intToHex v) = some (v % 16) := by
  have hmask : v &&& 0xF = v % 16 := Nat.and_two_pow_sub_one_eq_mod v 4
  have hall : ∀ k < 16, hexToInt ((ascii "0123456789abcdef").getD k 0) = some k := by decide
  rw [intToHex, hmask]
  exact hall _ (Nat.mod_lt v (by decide))

lemma nibbles_eq {h l : ℕ} (hl : l < 16) : h <<< 4 ||| l = 16 * h + l := by
  rw [← Nat.shiftLeft_add_eq_or_of_lt (i := 4) hl, Nat.shiftLeft_eq]
  omega

def gdbAppendHex (val : UInt8) : List UInt8 := [intToHex (val.toNat >>> 4), intToHex val.toNat]

def gdbAppendReg (value bytes : ℕ) : List UInt8 :=
  (List.range bytes).flatMap fun i => gdbAppendHex (UInt8.ofNat (value >>> (i * 8)))

/-- `gdb_encode_registers`, of the frame at `frameAddr`.  The last four registers are not recorded. -/
def gdbEncodeRegisters (frameAddr : ℕ) (f : Frame) : List UInt8 :=
  let user := f.cs &&& 3 = 3
  -- in the kernel the stack pointer was that of the frame's own end
  let rsp := if user then f.rsp else frameAddr + 152
  [f.rax, f.rbx, f.rcx, f.rdx, f.rsi, f.rdi, f.rbp, rsp, f.r8, f.r9, f.r10, f.r11, f.r12, f.r13, f.r14,
    f.r15, f.rip].flatMap (gdbAppendReg · 8) ++
  [f.rflags &&& 0xFFFFFFFF, f.cs &&& 0xFFFF, if user then f.ss &&& 0xFFFF else 0x10, 0, 0, 0, 0].flatMap
    (gdbAppendReg · 4)

/-- The loop of `gdb_parse_hex`. -/
def gdbParseHexLoop : (value : ℕ) → (p : List UInt8) → ℕ × List UInt8
  | value, [] => (value, [])
  | value, c :: p =>
    match hexToInt c with
    | none => (value, c :: p)
    | some v => gdbParseHexLoop ((value <<< 4) % 2 ^ 64 ||| v) p

/-- `gdb_parse_hex`: the number, and the text behind it. -/
def gdbParseHex (p : List UInt8) : Option (ℕ × List UInt8) :=
  let r := gdbParseHexLoop 0 p
  if r.2.length = p.length then none else some r

/-- What the commands with two numbers begin with: a number, a comma and a number. -/
def gdbParsePair (p : List UInt8) : Option (ℕ × ℕ × List UInt8) :=
  match gdbParseHex p with
  | none => none
  | some (first, p) =>
    if p.headD 0 ≠ chr ',' then none
    else (gdbParseHex p.tail).map fun r => (first, r.1, r.2)

def strlen (p : List UInt8) : ℕ := (p.takeWhile (· ≠ 0)).length

/-! ## Memory and breakpoints -/

/-- `gdb_write_memory`: it stops at the first pair that is no byte. -/
def gdbWriteMemory : (m : Memory) → (addr : ℕ) → (data : List UInt8) → (len : ℕ) → Memory
  | m, addr, hi :: lo :: data, len + 1 =>
    match hexToInt hi, hexToInt lo with
    | some h, some l =>
      gdbWriteMemory (Function.update m addr (UInt8.ofNat (h <<< 4 ||| l))) ((addr + 1) % 2 ^ 64) data len
    | _, _ => m
  | m, _, _, _ => m

def gdbReadMemory (m : Memory) (addr len : ℕ) : List UInt8 :=
  (List.range len).flatMap fun i => gdbAppendHex (m ((addr + i) % 2 ^ 64))

namespace Gdb

/-- `gdb_find_breakpoint`. -/
def findBreakpoint (g : Gdb) (addr : ℕ) : Option (Fin gdbMaxBreakpoints) :=
  (List.finRange gdbMaxBreakpoints).find? fun i => (g.breakpoints i).used && (g.breakpoints i).addr = addr

/-- `gdb_add_breakpoint`. -/
def addBreakpoint (g : Gdb) (addr : ℕ) : Gdb × Bool :=
  match g.findBreakpoint addr with
  | some _ => (g, true)
  | none =>
    match (List.finRange gdbMaxBreakpoints).find? fun i => !(g.breakpoints i).used with
    | some i =>
      ({ g with
        breakpoints := Function.update g.breakpoints i ⟨addr, g.mem addr, true⟩
        mem := Function.update g.mem addr 0xCC }, true)
    | none => (g, false)

/-- `gdb_remove_breakpoint`. -/
def removeBreakpoint (g : Gdb) (addr : ℕ) : Gdb × Bool :=
  match g.findBreakpoint addr with
  | none => (g, false)
  | some i =>
    ({ g with
      mem := Function.update g.mem addr (g.breakpoints i).saved
      breakpoints := Function.update g.breakpoints i { g.breakpoints i with used := false } }, true)

/-- `gdb_restore_pending_breakpoint`. -/
def restorePendingBreakpoint (g : Gdb) : Gdb :=
  if !g.pendingReinsert then g
  else
    { g with
      mem :=
        match g.findBreakpoint g.pendingAddr with
        | some i => Function.update g.mem (g.breakpoints i).addr 0xCC
        | none => g.mem
      pendingReinsert := false
      pendingAddr := 0 }

/-- `gdb_enter_session`: while the debugger talks, nothing else writes to the serial line. -/
def enterSession (g : Gdb) : Gdb :=
  if g.active then g
  else
    { g with
      active := true
      savedTargets := g.logTargets
      savedSerialEnabled := g.serialEnabled
      logTargets := 1
      serialEnabled := false }

/-- `gdb_leave_session`. -/
def leaveSession (g : Gdb) : Gdb :=
  if !g.active then g
  else { g with logTargets := g.savedTargets, serialEnabled := g.savedSerialEnabled, active := false }

end Gdb

/-! ## Commands -/

/-- What `gdb_handle_command` does: the packet it sends, and `single_step` if it sets `resume`. -/
structure Answer where
  gdb : Gdb
  frame : Frame
  reply : Option (List UInt8)
  resume : Option Bool

/-- The command `m`. -/
def gdbRead (g : Gdb) (p : List UInt8) : List UInt8 :=
  match gdbParsePair p with
  | none => ascii "E01"
  | some (addr, len, _) =>
    if len > gdbMaxPacket / 2 then ascii "E02" else gdbReadMemory g.mem addr len

/-- The command `M`. -/
def gdbWrite (g : Gdb) (p : List UInt8) : Gdb × List UInt8 :=
  match gdbParsePair p with
  | none => (g, ascii "E01")
  | some (addr, len, p) =>
    if p.headD 0 ≠ chr ':' then (g, ascii "E01")
    else if strlen p.tail < len * 2 % 2 ^ 64 then (g, ascii "E02")
    else ({ g with mem := gdbWriteMemory g.mem addr p.tail len }, ascii "OK")

/-- The commands `Z` and `z`. -/
def gdbBreakpoint (g : Gdb) (insert : Bool) (p : List UInt8) : Gdb × List UInt8 :=
  match gdbParsePair p with
  | none => (g, ascii "E01")
  | some (type, addr, _) =>
    if type = 0 then
      let r := if insert then g.addBreakpoint addr else g.removeBreakpoint addr
      (r.1, if r.2 then ascii "OK" else ascii "E03")
    else (g, [])

/-- The commands `c` and `s`: where the target goes on. -/
def gdbResumeAt (frame : Frame) (p : List UInt8) : Frame :=
  if p.headD 0 = 0 then frame
  else
    match gdbParseHex p with
    | none => frame
    | some (addr, _) => { frame with rip := addr }

def gdbHandleCommand (frameAddr : ℕ) (cmd : List UInt8) (g : Gdb) (frame : Frame) : Answer :=
  let c := cmd.headD 0
  let p := cmd.tail
  if c = chr '?' then ⟨g, frame, some (ascii "S05"), none⟩
  else if c = chr 'g' then ⟨g, frame, some (gdbEncodeRegisters frameAddr frame), none⟩
  else if c = chr 'm' then ⟨g, frame, some (gdbRead g p), none⟩
  else if c = chr 'M' then ⟨(gdbWrite g p).1, frame, some (gdbWrite g p).2, none⟩
  else if c = chr 'Z' ∨ c = chr 'z' then
    let r := gdbBreakpoint g (c = chr 'Z') p
    ⟨r.1, frame, some r.2, none⟩
  else if c = chr 'H' then ⟨g, frame, some (ascii "OK"), none⟩
  else if c = chr 'q' then
    let reply := if cmd.take 10 = ascii "qSupported" then ascii "PacketSize=400" else []
    ⟨g, frame, some reply, none⟩
  else if c = chr 'v' then
    let reply := if cmd.takeWhile (· ≠ 0) = ascii "vCont?" then ascii "vCont;c;s" else []
    ⟨g, frame, some reply, none⟩
  else if c = chr 'D' then ⟨g, frame, some (ascii "OK"), some false⟩
  else if c = chr 'c' ∨ c = chr 's' then ⟨g, gdbResumeAt frame p, none, some (c = chr 's')⟩
  else ⟨g, frame, some [], none⟩

/-! ## The machine -/

/-- The stub, the frame of the target, whether the target is stopped, and the packets sent so far. -/
structure Stub where
  gdb : Gdb
  frame : Frame
  stopped : Bool
  sent : List (List UInt8)

/-- `frame->rflags |= 1u << 8`. -/
def Frame.setTrap (f : Frame) : Frame := { f with rflags := f.rflags ||| 1 <<< 8 }

/-- `frame->rflags &= ~(1u << 8)`, with a mask of 32 bits. -/
def Frame.clearTrap (f : Frame) : Frame := { f with rflags := f.rflags &&& (2 ^ 32 - 1 - 1 <<< 8) }

/-- `frame->rip - 1`: the address of the instruction a #BP comes from. -/
def Frame.trapped (f : Frame) : ℕ := (f.rip + 2 ^ 64 - 1) % 2 ^ 64

/-- A #BP at a breakpoint: the byte is put back, and the instruction will be executed. -/
def Gdb.hit (g : Gdb) (frame : Frame) : Gdb × Frame :=
  match g.findBreakpoint frame.trapped with
  | none => (g, frame)
  | some i =>
    ({ g with
      mem := Function.update g.mem frame.trapped (g.breakpoints i).saved
      pendingReinsert := true
      pendingAddr := frame.trapped }, { frame with rip := frame.trapped })

/-- `gdb_handle_exception`, up to its loop. -/
def Stub.exception (s : Stub) (frame : Frame) : Stub :=
  if !s.gdb.enabled then { s with frame := frame }
  else if frame.intNo = 1 ∧ s.gdb.autoContinue then
    { s with
      gdb := { s.gdb.restorePendingBreakpoint with autoContinue := false }
      frame := frame.clearTrap }
  else
    let r := if frame.intNo = 3 then s.gdb.hit frame else (s.gdb, frame)
    { gdb := r.1.enterSession
      frame := r.2
      stopped := true
      sent := s.sent ++ [ascii "S05"] }

/-- The target goes on. -/
def Stub.resume (s : Stub) (singleStep : Bool) : Stub :=
  { s with
    gdb :=
      (if s.gdb.pendingReinsert then { s.gdb with autoContinue := !singleStep } else s.gdb).leaveSession
    frame := if s.gdb.pendingReinsert || singleStep then s.frame.setTrap else s.frame.clearTrap
    stopped := false }

/-- One turn of the loop of `gdb_handle_exception`. -/
def Stub.packet (frameAddr : ℕ) (s : Stub) (cmd : List UInt8) : Stub :=
  if !s.stopped then s
  else if cmd.length = 0 then { s with sent := s.sent ++ [ascii "S05"] }
  else
    let a := gdbHandleCommand frameAddr cmd s.gdb s.frame
    let s := { s with gdb := a.gdb, frame := a.frame, sent := s.sent ++ a.reply.toList }
    match a.resume with
    | none => s
    | some singleStep => s.resume singleStep

/-- A store of the target. -/
def Stub.store (s : Stub) (addr : ℕ) (v : UInt8) : Stub :=
  if s.stopped then s else { s with gdb := { s.gdb with mem := Function.update s.gdb.mem addr v } }

/-! ## What a packet asks for -/

/-- What a packet has to do with memory and breakpoints. -/
inductive Request
  | read (addr len : ℕ)
  | write (stores : List (ℕ × UInt8))
  | insert (addr : ℕ)
  | remove (addr : ℕ)
  | other
  deriving DecidableEq

/-- The stores of `gdb_write_memory`. -/
def hexStores : (addr : ℕ) → (data : List UInt8) → (len : ℕ) → List (ℕ × UInt8)
  | addr, hi :: lo :: data, len + 1 =>
    match hexToInt hi, hexToInt lo with
    | some h, some l =>
      (addr, UInt8.ofNat (h <<< 4 ||| l)) :: hexStores ((addr + 1) % 2 ^ 64) data len
    | _, _ => []
  | _, _, _ => []

/-- The request of a packet. -/
def request (cmd : List UInt8) : Request :=
  let c := cmd.headD 0
  match gdbParsePair cmd.tail with
  | none => .other
  | some (first, second, p) =>
    if c = chr 'm' then if second > gdbMaxPacket / 2 then .other else .read first second
    else if c = chr 'M' then
      if p.headD 0 ≠ chr ':' ∨ strlen p.tail < second * 2 % 2 ^ 64 then .other
      else .write (hexStores first p.tail second)
    else if c = chr 'Z' ∧ first = 0 then .insert second
    else if c = chr 'z' ∧ first = 0 then .remove second
    else .other

/-- Stores one after the other. -/
def storeAll (m : Memory) (stores : List (ℕ × UInt8)) : Memory :=
  stores.foldl (fun m w => Function.update m w.1 w.2) m

/-- What a request does. -/
def Gdb.serve (g : Gdb) : Request → Gdb
  | .write stores => { g with mem := storeAll g.mem stores }
  | .insert addr => (g.addBreakpoint addr).1
  | .remove addr => (g.removeBreakpoint addr).1
  | _ => g

lemma gdbWriteMemory_eq (m : Memory) (addr : ℕ) (data : List UInt8) (len : ℕ) :
    gdbWriteMemory m addr data len = storeAll m (hexStores addr data len) := by
  induction m, addr, data, len using gdbWriteMemory.induct with
  | case1 m addr hi lo data len h l hhi hlo ih =>
    simp only [gdbWriteMemory, hexStores, hhi, hlo, ih]
    rfl
  | case2 m addr hi lo data len hbad =>
    simp only [gdbWriteMemory, hexStores]
    rfl
  | case3 m addr data len hbad =>
    rw [gdbWriteMemory, hexStores]
    · rfl
    · exact hbad
    · exact hbad

variable {cmd : List UInt8} {m : Memory}

lemma serve_request_read (g : Gdb) (hc : cmd.headD 0 = chr 'm') : g.serve (request cmd) = g := by
  simp only [request, hc, if_true]
  split
  · rfl
  · split_ifs <;> rfl

lemma serve_request_write (g : Gdb) (hc : cmd.headD 0 = chr 'M') :
    g.serve (request cmd) = (gdbWrite g cmd.tail).1 := by
  have hne : chr 'M' ≠ chr 'm' := by decide
  simp only [request, gdbWrite, hc, hne, if_true, if_false]
  cases hparse : gdbParsePair cmd.tail with
  | none => rfl
  | some r =>
    obtain ⟨addr, len, p⟩ := r
    by_cases hcolon : p.headD 0 = chr ':'
    · by_cases hshort : strlen p.tail < len * 2 % 2 ^ 64
      · simp only [hcolon, hshort, ne_eq, not_true_eq_false, false_or, if_true, if_false]
        rfl
      · simp only [hcolon, hshort, ne_eq, not_true_eq_false, false_or, if_false, Gdb.serve,
          gdbWriteMemory_eq]
    · simp only [hcolon, ne_eq, not_false_eq_true, true_or, if_true]
      rfl

lemma serve_request_breakpoint (g : Gdb) (hc : cmd.headD 0 = chr 'Z' ∨ cmd.headD 0 = chr 'z') :
    g.serve (request cmd) = (gdbBreakpoint g (cmd.headD 0 = chr 'Z') cmd.tail).1 := by
  have hne : chr 'Z' ≠ chr 'm' ∧ chr 'Z' ≠ chr 'M' ∧ chr 'z' ≠ chr 'm' ∧ chr 'z' ≠ chr 'M' ∧
      chr 'z' ≠ chr 'Z' := by decide
  obtain ⟨h1, h2, h3, h4, h5⟩ := hne
  simp only [request, gdbBreakpoint]
  cases hparse : gdbParsePair cmd.tail with
  | none => rfl
  | some r =>
    obtain ⟨type, addr, p⟩ := r
    by_cases htype : type = 0
    · rcases hc with hc | hc
      · simp only [hc, h1, h2, htype, if_true, if_false, true_and, decide_true]
        rfl
      · simp only [hc, h3, h4, h5, htype, if_true, if_false, false_and, true_and, decide_false,
          Bool.false_eq_true]
        rfl
    · rcases hc with hc | hc
      · simp only [hc, h1, h2, htype, if_false, and_false]
        rfl
      · simp only [hc, h3, h4, htype, if_false, and_false]
        rfl

lemma gdbHandleCommand_gdb (frameAddr : ℕ) (cmd : List UInt8) (g : Gdb) (frame : Frame) :
    (gdbHandleCommand frameAddr cmd g frame).gdb = g.serve (request cmd) := by
  by_cases hread : cmd.headD 0 = chr 'm'
  · have hne : chr 'm' ≠ chr '?' ∧ chr 'm' ≠ chr 'g' := by decide
    rw [serve_request_read g hread]
    simp only [gdbHandleCommand, hread, hne.1, hne.2, if_true, if_false]
  by_cases hwrite : cmd.headD 0 = chr 'M'
  · have hne : chr 'M' ≠ chr '?' ∧ chr 'M' ≠ chr 'g' ∧ chr 'M' ≠ chr 'm' := by decide
    rw [serve_request_write g hwrite]
    simp only [gdbHandleCommand, hwrite, hne.1, hne.2.1, hne.2.2, if_true, if_false]
  by_cases hbreak : cmd.headD 0 = chr 'Z' ∨ cmd.headD 0 = chr 'z'
  · rw [serve_request_breakpoint g hbreak]
    have hne : cmd.headD 0 ≠ chr '?' ∧ cmd.headD 0 ≠ chr 'g' := by
      rcases hbreak with hc | hc <;> rw [hc] <;> decide
    simp only [gdbHandleCommand, hne.1, hne.2, hread, hwrite, hbreak, if_true, if_false]
  · have hother : request cmd = .other := by
      simp only [not_or] at hbreak
      simp only [request, hread, hwrite, hbreak.1, hbreak.2, if_false, false_and]
      split <;> rfl
    rw [hother]
    simp only [gdbHandleCommand, hread, hwrite, hbreak, if_false]
    split_ifs <;> rfl

lemma gdbHandleCommand_read {addr len : ℕ} (h : request cmd = .read addr len) (frameAddr : ℕ) (g : Gdb)
    (frame : Frame) :
    (gdbHandleCommand frameAddr cmd g frame).reply = some (gdbReadMemory g.mem addr len) := by
  have hne : chr 'm' ≠ chr '?' ∧ chr 'm' ≠ chr 'g' := by decide
  simp only [request] at h
  cases hparse : gdbParsePair cmd.tail with
  | none => simp [hparse] at h
  | some r =>
    obtain ⟨first, second, p⟩ := r
    simp only [hparse] at h
    split_ifs at h with hread hlong
    cases h
    simp only [gdbHandleCommand, hread, hne.1, hne.2, if_true, if_false, gdbRead, hparse, hlong]

/-! ## Breakpoints by address -/

namespace Gdb

/-- The slot `i` holds a breakpoint at `a`. -/
def At (g : Gdb) (a : ℕ) (i : Fin gdbMaxBreakpoints) : Prop :=
  (g.breakpoints i).used = true ∧ (g.breakpoints i).addr = a

instance (g : Gdb) (a : ℕ) (i : Fin gdbMaxBreakpoints) : Decidable (g.At a i) :=
  inferInstanceAs (Decidable (_ ∧ _))

/-- No two slots hold a breakpoint at the same address. -/
def Distinct (g : Gdb) : Prop := ∀ a i j, g.At a i → g.At a j → i = j

variable {g : Gdb} {a b : ℕ} {i : Fin gdbMaxBreakpoints}

lemma findBreakpoint_some (h : g.findBreakpoint a = some i) : g.At a i := by
  simpa [At] using find?_some h

lemma findBreakpoint_none (h : g.findBreakpoint a = none) (i : Fin gdbMaxBreakpoints) : ¬ g.At a i := by
  have hall := find?_eq_none.mp h i (mem_finRange i)
  simpa [At] using hall

lemma findBreakpoint_of_at (hdist : g.Distinct) (h : g.At a i) : g.findBreakpoint a = some i := by
  cases hfind : g.findBreakpoint a with
  | none => exact absurd h (findBreakpoint_none hfind i)
  | some j => rw [hdist a i j h (findBreakpoint_some hfind)]

lemma addBreakpoint_cases (g : Gdb) (a : ℕ) :
    (g.addBreakpoint a).1 = g ∨ (∀ i, ¬ g.At a i) ∧ ∃ i, (g.breakpoints i).used = false ∧
      (g.addBreakpoint a).1 = { g with
        breakpoints := update g.breakpoints i ⟨a, g.mem a, true⟩
        mem := update g.mem a 0xCC } := by
  rw [addBreakpoint]
  cases hfind : g.findBreakpoint a with
  | some i => exact Or.inl rfl
  | none =>
    simp only
    cases hfree : (finRange gdbMaxBreakpoints).find? fun i => !(g.breakpoints i).used with
    | none => exact Or.inl rfl
    | some i =>
      refine Or.inr ⟨findBreakpoint_none hfind, i, ?_, rfl⟩
      simpa using find?_some hfree

lemma removeBreakpoint_cases (g : Gdb) (a : ℕ) :
    (∀ i, ¬ g.At a i) ∧ (g.removeBreakpoint a).1 = g ∨ ∃ i, g.At a i ∧
      (g.removeBreakpoint a).1 = { g with
        mem := update g.mem a (g.breakpoints i).saved
        breakpoints := update g.breakpoints i { g.breakpoints i with used := false } } := by
  rw [removeBreakpoint]
  cases hfind : g.findBreakpoint a with
  | none => exact Or.inl ⟨findBreakpoint_none hfind, rfl⟩
  | some i => exact Or.inr ⟨i, findBreakpoint_some hfind, rfl⟩

/-- The two states differ at most in the settings for the session. -/
structure SameTarget (g g' : Gdb) : Prop where
  enabled : g'.enabled = g.enabled
  breakpoints : g'.breakpoints = g.breakpoints
  pendingReinsert : g'.pendingReinsert = g.pendingReinsert
  pendingAddr : g'.pendingAddr = g.pendingAddr
  autoContinue : g'.autoContinue = g.autoContinue
  mem : g'.mem = g.mem

lemma sameTarget_enterSession (g : Gdb) : g.SameTarget g.enterSession := by
  rw [enterSession]
  split_ifs <;> exact ⟨rfl, rfl, rfl, rfl, rfl, rfl⟩

lemma sameTarget_leaveSession (g : Gdb) : g.SameTarget g.leaveSession := by
  rw [leaveSession]
  split_ifs <;> exact ⟨rfl, rfl, rfl, rfl, rfl, rfl⟩

lemma SameTarget.at_iff {g g' : Gdb} (h : g.SameTarget g') (a : ℕ) (i : Fin gdbMaxBreakpoints) :
    g'.At a i ↔ g.At a i := by
  rw [At, At, h.breakpoints]

lemma SameTarget.distinct {g g' : Gdb} (h : g.SameTarget g') (hdist : g.Distinct) : g'.Distinct := by
  intro a i j hi hj
  exact hdist a i j ((h.at_iff a i).mp hi) ((h.at_iff a j).mp hj)

/-! ## What a request does to the breakpoints -/

lemma at_add {v : UInt8} (hfree : (g.breakpoints i).used = false) (b : ℕ) (j : Fin gdbMaxBreakpoints) :
    At { g with breakpoints := update g.breakpoints i ⟨a, v, true⟩, mem := m } b j ↔
      j = i ∧ b = a ∨ g.At b j := by
  by_cases hji : j = i
  · subst hji
    simp [At, hfree, eq_comm]
  · simp [At, hji]

lemma at_remove (b : ℕ) (j : Fin gdbMaxBreakpoints) : At { g with
      mem := m
      breakpoints := update g.breakpoints i { g.breakpoints i with used := false } } b j ↔
      j ≠ i ∧ g.At b j := by
  by_cases hji : j = i
  · subst hji
    simp [At]
  · simp [At, hji]

lemma distinct_serve (hdist : g.Distinct) (r : Request) : (g.serve r).Distinct := by
  cases r with
  | read addr len => exact hdist
  | write stores => exact hdist
  | other => exact hdist
  | insert addr =>
    rcases g.addBreakpoint_cases addr with heq | ⟨hnone, i, hfree, heq⟩
    · rw [serve, heq]
      exact hdist
    · rw [serve, heq]
      intro b j k hj hk
      rw [at_add hfree] at hj hk
      rcases hj with ⟨rfl, rfl⟩ | hj
      · rcases hk with ⟨rfl, -⟩ | hk
        · rfl
        · exact absurd hk (hnone k)
      · rcases hk with ⟨rfl, rfl⟩ | hk
        · exact absurd hj (hnone j)
        · exact hdist b j k hj hk
  | remove addr =>
    rcases g.removeBreakpoint_cases addr with ⟨-, heq⟩ | ⟨i, -, heq⟩
    · rw [serve, heq]
      exact hdist
    · rw [serve, heq]
      intro b j k hj hk
      exact hdist b j k ((at_remove b j).mp hj).2 ((at_remove b k).mp hk).2

lemma serve_eq (g : Gdb) (r : Request) :
    g.serve r = { g with mem := (g.serve r).mem, breakpoints := (g.serve r).breakpoints } := by
  cases r with
  | read addr len => rfl
  | write stores => rfl
  | other => rfl
  | insert addr =>
    rcases g.addBreakpoint_cases addr with heq | ⟨-, i, -, heq⟩ <;> rw [serve, heq]
  | remove addr =>
    rcases g.removeBreakpoint_cases addr with ⟨-, heq⟩ | ⟨i, -, heq⟩ <;> rw [serve, heq]

end Gdb

lemma storeAll_of_forall_ne {stores : List (ℕ × UInt8)} {a : ℕ} (h : ∀ w ∈ stores, w.1 ≠ a) :
    storeAll m stores a = m a := by
  induction stores generalizing m with
  | nil => rfl
  | cons w stores ih =>
    have hne := h w mem_cons_self
    rw [storeAll, foldl_cons]
    refine (ih fun v hv => h v (mem_cons_of_mem _ hv)).trans ?_
    exact update_of_ne (Ne.symm hne) _ _

end MyOs
