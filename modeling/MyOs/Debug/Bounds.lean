import MyOs.Lib.Traced
import MyOs.Debug.MemoryWrites

/-!
# The buffers of the debugger stub

`gdb_handle_command` again, with every access to the two buffers recorded: reading a character of the
command, and writing a character of the answer, which is put together in a buffer of `GDB_MAX_PACKET`
bytes.  The values of the traced functions are those of `MyOs.Debug.Gdb` (`val_gdbHandleCommand`).

A command is its characters; the terminator is behind them, and what is behind the terminator (`behind`)
is left from longer commands.  The functions get the rest of the command, so that the index of its
character `k` is the length of the command less the length of the rest, plus `k`.

Two commands leave the buffers (`gdb_accesses_inside_iff`).  The limit of `m` is right for the digits of
256 bytes, but not for the terminator behind them; and `M` reads the character after the terminator if
twice the length wraps, and the data is an even number of digits.
-/

namespace MyOs

open Lib List Traced

/-- An access to a buffer, with the index: a character of the command is read, or one of the answer
written. -/
inductive Access
  | cmd (i : ℕ)
  | out (i : ℕ)
  deriving DecidableEq

/-- The command is read up to its terminator, which has the index `n`, and the answer fits. -/
def Access.Inside (n : ℕ) : Access → Prop
  | .cmd i => i ≤ n
  | .out i => i < gdbMaxPacket

/-! ## Numbers in a command -/

section

variable {p rest : List UInt8}

lemma gdbParseHex_some {v : ℕ} (h : gdbParseHex p = some (v, rest)) :
    ∃ text, p = text ++ rest ∧ IsHex text ∧ hexToInt (rest.headD 0) = none ∧ v = hexValue text % 2 ^ 64 := by
  have hsplit := (takeWhile_append_dropWhile (p := fun c => (hexToInt c).isSome) (l := p)).symm
  have hdigits : ∀ c ∈ p.takeWhile fun c => (hexToInt c).isSome, (hexToInt c).isSome :=
    fun c hc => all_eq_true.mp all_takeWhile c hc
  have hend : hexToInt ((p.dropWhile fun c => (hexToInt c).isSome).headD 0) = none := by
    cases hrest : p.dropWhile fun c => (hexToInt c).isSome with
    | nil => decide
    | cons c rest =>
      have hnot := head_dropWhile_not (fun c => (hexToInt c).isSome)
        (by simp [hrest] : p.dropWhile _ ≠ [])
      simpa [hrest] using hnot
  generalize p.takeWhile (fun c => (hexToInt c).isSome) = text at hsplit hdigits
  generalize p.dropWhile (fun c => (hexToInt c).isSome) = rest' at hsplit hend
  subst hsplit
  by_cases hnil : text = []
  · -- nothing is consumed
    subst hnil
    rw [gdbParseHex, gdbParseHexLoop_eq hdigits hend 0 0 rfl] at h
    simp at h
  · rw [gdbParseHex_eq ⟨hnil, hdigits⟩ hend] at h
    cases h
    exact ⟨text, rfl, ⟨hnil, hdigits⟩, hend, rfl⟩

lemma gdbParsePair_iff {a b : ℕ} : gdbParsePair p = some (a, b, rest) ↔
    ∃ text text', p = text ++ chr ',' :: (text' ++ rest) ∧ IsHex text ∧ IsHex text' ∧
      hexToInt (rest.headD 0) = none ∧ a = hexValue text % 2 ^ 64 ∧ b = hexValue text' % 2 ^ 64 := by
  constructor
  · intro h
    rw [gdbParsePair] at h
    cases hfirst : gdbParseHex p with
    | none => simp [hfirst] at h
    | some r =>
      simp only [hfirst] at h
      split_ifs at h with hcomma
      obtain ⟨q, hsecond, heq⟩ := Option.map_eq_some_iff.mp h
      cases heq
      obtain ⟨text, rfl, htext, -, hvalue⟩ := gdbParseHex_some hfirst
      obtain ⟨text', htail, htext', hend, hvalue'⟩ := gdbParseHex_some hsecond
      refine ⟨text, text', ?_, htext, htext', hend, hvalue, hvalue'⟩
      rw [← htail]
      rcases r with ⟨v, _ | ⟨c, r⟩⟩
      · have hnull : (0 : UInt8) ≠ chr ',' := by decide
        exact absurd (not_not.mp hcomma) hnull
      · have hc : c = chr ',' := not_not.mp hcomma
        rw [hc]
        rfl
  · rintro ⟨text, text', rfl, htext, htext', hend, rfl, rfl⟩
    exact gdbParsePair_eq htext htext' hend

end

namespace GdbBounds

/-! ## Reading the command -/

section Reading

variable (n : ℕ) (behind : ℕ → UInt8)

/-- The character `k` of the rest `p` of the command. -/
def peek (p : List UInt8) (k : ℕ) : Traced Access UInt8 :=
  ⟨if k ≤ p.length then p.getD k 0 else behind (n - p.length + k), [.cmd (n - p.length + k)]⟩

/-- The loop of `gdb_parse_hex`. -/
def gdbParseHexLoop : (value : ℕ) → (p : List UInt8) → Traced Access (ℕ × List UInt8)
  | value, [] => do
    let _ ← peek n behind [] 0
    pure (value, [])
  | value, c :: p => do
    let b ← peek n behind (c :: p) 0
    if b = 0 then pure (value, c :: p)
    else do
      let b ← peek n behind (c :: p) 0
      match hexToInt b with
      | none => pure (value, c :: p)
      | some v => gdbParseHexLoop ((value <<< 4) % 2 ^ 64 ||| v) p

def gdbParseHex (p : List UInt8) : Traced Access (Option (ℕ × List UInt8)) := do
  let r ← gdbParseHexLoop n behind 0 p
  pure (if r.2.length = p.length then none else some r)

/-- A number, a comma and a number. -/
def gdbParsePair (p : List UInt8) : Traced Access (Option (ℕ × ℕ × List UInt8)) := do
  let r ← gdbParseHex n behind p
  match r with
  | none => pure none
  | some (first, p) => do
    let c ← peek n behind p 0
    if c ≠ chr ',' then pure none
    else do
      let r ← gdbParseHex n behind p.tail
      pure (r.map fun r => (first, r.1, r.2))

def strlen : (p : List UInt8) → Traced Access ℕ
  | [] => do
    let _ ← peek n behind [] 0
    pure 0
  | c :: p => do
    let b ← peek n behind (c :: p) 0
    if b = 0 then pure 0
    else do
      let len ← strlen p
      pure (len + 1)

/-- Whether `strncmp` with a text, up to the length of the text, returns 0. -/
def strncmp : (p text : List UInt8) → Traced Access Bool
  | _, [] => pure true
  | p, b :: text => do
    let c ← peek n behind p 0
    if c ≠ b then pure false else if c = 0 then pure true else strncmp p.tail text

/-- Whether `strcmp` with a text returns 0. -/
def strcmp : (p text : List UInt8) → Traced Access Bool
  | p, [] => do
    let c ← peek n behind p 0
    pure (c = 0)
  | p, b :: text => do
    let c ← peek n behind p 0
    if c ≠ 0 ∧ c = b then strcmp p.tail text else pure (c = b)

/-- `gdb_write_memory`: both characters of a byte are read before one of them is looked at. -/
def gdbWriteMemory : (m : Memory) → (addr : ℕ) → (data : List UInt8) → (len : ℕ) → Traced Access Memory
  | m, _, _, 0 => pure m
  | m, addr, data, len + 1 => do
    let hi ← peek n behind data 0
    let lo ← peek n behind data 1
    match hexToInt hi, hexToInt lo with
    | some h, some l =>
      gdbWriteMemory (Function.update m addr (UInt8.ofNat (h <<< 4 ||| l))) ((addr + 1) % 2 ^ 64)
        (data.drop 2) len
    | _, _ => pure m

end Reading

/-! ## Writing the answer -/

/-- Write the character with an index. -/
def put (i : ℕ) : Traced Access Unit := ⟨(), [.out i]⟩

def gdbAppendHex (idx : ℕ) (val : UInt8) : Traced Access (List UInt8) := do
  put idx
  put (idx + 1)
  pure (MyOs.gdbAppendHex val)

/-- The digits of some bytes. -/
def appendBytes : (idx : ℕ) → (bytes : List UInt8) → Traced Access (List UInt8)
  | _, [] => pure []
  | idx, b :: bytes => do
    let digits ← gdbAppendHex idx b
    let rest ← appendBytes (idx + 2) bytes
    pure (digits ++ rest)

def gdbAppendReg (idx value bytes : ℕ) : Traced Access (List UInt8) :=
  appendBytes idx ((List.range bytes).map fun i => UInt8.ofNat (value >>> (i * 8)))

/-- The digits of some registers, which have a size each. -/
def appendRegs : (idx : ℕ) → (regs : List (ℕ × ℕ)) → Traced Access (List UInt8)
  | _, [] => pure []
  | idx, reg :: regs => do
    let digits ← gdbAppendReg idx reg.1 reg.2
    let rest ← appendRegs (idx + 2 * reg.2) regs
    pure (digits ++ rest)

/-- The registers in the order of `gdb_encode_registers`. -/
def registers (frameAddr : ℕ) (f : Frame) : List (ℕ × ℕ) :=
  let user := f.cs &&& 3 = 3
  let rsp := if user then f.rsp else frameAddr + 152
  [f.rax, f.rbx, f.rcx, f.rdx, f.rsi, f.rdi, f.rbp, rsp, f.r8, f.r9, f.r10, f.r11, f.r12, f.r13, f.r14,
    f.r15, f.rip].map (·, 8) ++
  [f.rflags &&& 0xFFFFFFFF, f.cs &&& 0xFFFF, if user then f.ss &&& 0xFFFF else 0x10, 0, 0, 0, 0].map (·, 4)

def gdbEncodeRegisters (frameAddr : ℕ) (f : Frame) : Traced Access (List UInt8) := do
  let text ← appendRegs 0 (registers frameAddr f)
  put text.length
  pure text

def gdbReadMemory (m : Memory) (addr len : ℕ) : Traced Access (List UInt8) := do
  let text ← appendBytes 0 ((List.range len).map fun i => m ((addr + i) % 2 ^ 64))
  put text.length
  pure text

/-! ## Commands -/

section Commands

variable (n : ℕ) (behind : ℕ → UInt8)

/-- The command `m`. -/
def gdbRead (g : Gdb) (p : List UInt8) : Traced Access (List UInt8) := do
  let r ← gdbParsePair n behind p
  match r with
  | none => pure (ascii "E01")
  | some (addr, len, _) =>
    if len > gdbMaxPacket / 2 then pure (ascii "E02") else gdbReadMemory g.mem addr len

/-- The command `M`. -/
def gdbWrite (g : Gdb) (p : List UInt8) : Traced Access (Gdb × List UInt8) := do
  let r ← gdbParsePair n behind p
  match r with
  | none => pure (g, ascii "E01")
  | some (addr, len, p) => do
    let c ← peek n behind p 0
    if c ≠ chr ':' then pure (g, ascii "E01")
    else do
      let size ← strlen n behind p.tail
      if size < len * 2 % 2 ^ 64 then pure (g, ascii "E02")
      else do
        let m ← gdbWriteMemory n behind g.mem addr p.tail len
        pure ({ g with mem := m }, ascii "OK")

/-- The commands `Z` and `z`. -/
def gdbBreakpoint (g : Gdb) (insert : Bool) (p : List UInt8) : Traced Access (Gdb × List UInt8) := do
  let r ← gdbParsePair n behind p
  match r with
  | none => pure (g, ascii "E01")
  | some (type, addr, _) =>
    if type = 0 then
      let r := if insert then g.addBreakpoint addr else g.removeBreakpoint addr
      pure (r.1, if r.2 then ascii "OK" else ascii "E03")
    else pure (g, [])

/-- The commands `c` and `s`. -/
def gdbResumeAt (frame : Frame) (p : List UInt8) : Traced Access Frame := do
  let c ← peek n behind p 0
  if c = 0 then pure frame
  else do
    let r ← gdbParseHex n behind p
    match r with
    | none => pure frame
    | some (addr, _) => pure { frame with rip := addr }

def gdbHandleCommand (frameAddr : ℕ) (cmd : List UInt8) (g : Gdb) (frame : Frame) : Traced Access Answer := do
  let c ← peek n behind cmd 0
  let p := cmd.tail
  if c = chr '?' then pure ⟨g, frame, some (ascii "S05"), none⟩
  else if c = chr 'g' then do
    let reply ← gdbEncodeRegisters frameAddr frame
    pure ⟨g, frame, some reply, none⟩
  else if c = chr 'm' then do
    let reply ← gdbRead n behind g p
    pure ⟨g, frame, some reply, none⟩
  else if c = chr 'M' then do
    let r ← gdbWrite n behind g p
    pure ⟨r.1, frame, some r.2, none⟩
  else if c = chr 'Z' ∨ c = chr 'z' then do
    let r ← gdbBreakpoint n behind g (c = chr 'Z') p
    pure ⟨r.1, frame, some r.2, none⟩
  else if c = chr 'H' then pure ⟨g, frame, some (ascii "OK"), none⟩
  else if c = chr 'q' then do
    let same ← strncmp n behind cmd (ascii "qSupported")
    pure ⟨g, frame, some (if same then ascii "PacketSize=400" else []), none⟩
  else if c = chr 'v' then do
    let same ← strcmp n behind cmd (ascii "vCont?")
    pure ⟨g, frame, some (if same then ascii "vCont;c;s" else []), none⟩
  else if c = chr 'D' then pure ⟨g, frame, some (ascii "OK"), some false⟩
  else if c = chr 'c' ∨ c = chr 's' then do
    let frame ← gdbResumeAt n behind frame p
    pure ⟨g, frame, none, some (c = chr 's')⟩
  else pure ⟨g, frame, some [], none⟩

end Commands

/-! ## The values are those of the stub -/

section Values

variable (n : ℕ) (behind : ℕ → UInt8) (p : List UInt8)

@[simp] lemma val_peek_zero : (peek n behind p 0).val = p.headD 0 := by
  cases p <;> rfl

lemma val_peek_one {p : List UInt8} (h : p ≠ []) : (peek n behind p 1).val = p.getD 1 0 :=
  if_pos (length_pos_iff.mpr h)

@[simp] lemma val_gdbParseHexLoop (value : ℕ) :
    (gdbParseHexLoop n behind value p).val = MyOs.gdbParseHexLoop value p := by
  have hzero : hexToInt 0 = none := by decide
  induction p generalizing value with
  | nil => rfl
  | cons c p ih =>
    rw [gdbParseHexLoop, MyOs.gdbParseHexLoop]
    simp only [val_bind, val_ite, val_pure, val_peek_zero, headD_cons]
    by_cases hc : c = 0
    · rw [if_pos hc, hc, hzero]
    · rw [if_neg hc]
      cases hexToInt c with
      | none => rfl
      | some v => exact ih _

@[simp] lemma val_gdbParseHex : (gdbParseHex n behind p).val = MyOs.gdbParseHex p := by
  rw [gdbParseHex, MyOs.gdbParseHex, val_bind, val_gdbParseHexLoop]
  rfl

@[simp] lemma val_gdbParsePair : (gdbParsePair n behind p).val = MyOs.gdbParsePair p := by
  rw [gdbParsePair, MyOs.gdbParsePair, val_bind, val_gdbParseHex]
  cases MyOs.gdbParseHex p with
  | none => rfl
  | some r =>
    simp only [val_bind, val_ite, val_pure, val_peek_zero, val_gdbParseHex]

@[simp] lemma val_strlen : (strlen n behind p).val = MyOs.strlen p := by
  induction p with
  | nil => rfl
  | cons c p ih =>
    rw [strlen, MyOs.strlen, takeWhile_cons]
    simp only [val_bind, val_ite, val_pure, val_peek_zero, headD_cons, ih]
    by_cases hc : c = 0
    · simp [hc]
    · simp [hc, MyOs.strlen]

lemma val_strncmp {text : List UInt8} (h : 0 ∉ text) :
    (strncmp n behind p text).val = decide (p.take text.length = text) := by
  induction text generalizing p with
  | nil => simp [strncmp]
  | cons b text ih =>
    rw [mem_cons, not_or] at h
    have hcons : p.take (text.length + 1) = b :: text ↔
        p.headD 0 = b ∧ p.tail.take text.length = text := by
      cases p with
      | nil => simp [h.1]
      | cons c p => simp
    rw [strncmp, length_cons]
    simp only [val_bind, val_ite, val_pure, val_peek_zero, ih p.tail h.2]
    by_cases hcb : p.headD 0 = b
    · have hzero : p.headD 0 ≠ 0 := fun h0 => h.1 (h0.symm.trans hcb)
      rw [if_neg (not_not.mpr hcb), if_neg hzero, decide_eq_decide, hcons]
      exact (and_iff_right hcb).symm
    · rw [if_pos hcb, eq_comm, decide_eq_false_iff_not, hcons]
      exact fun hand => hcb hand.1

lemma val_strcmp {text : List UInt8} (h : 0 ∉ text) :
    (strcmp n behind p text).val = decide (p.takeWhile (· ≠ 0) = text) := by
  induction text generalizing p with
  | nil =>
    rw [strcmp]
    simp only [val_bind, val_pure, val_peek_zero]
    cases p with
    | nil => simp
    | cons c p => simp [takeWhile_cons]
  | cons b text ih =>
    rw [mem_cons, not_or] at h
    rw [strcmp]
    simp only [val_bind, val_ite, val_pure, val_peek_zero, ih p.tail h.2]
    cases p with
    | nil => simp [h.1]
    | cons c p =>
      simp only [headD_cons, tail_cons, takeWhile_cons]
      by_cases hc : c = 0
      · simp [hc, h.1]
      · by_cases hcb : c = b
        · simp [hcb, Ne.symm h.1]
        · simp [hc, hcb]

@[simp] lemma val_gdbWriteMemory (m : Memory) (addr : ℕ) (data : List UInt8) (len : ℕ) :
    (gdbWriteMemory n behind m addr data len).val = MyOs.gdbWriteMemory m addr data len := by
  have hzero : hexToInt 0 = none := by decide
  induction len generalizing m addr data with
  | zero =>
    rw [MyOs.gdbWriteMemory]
    · rfl
    · rintro _ _ _ _ _ ⟨⟩
  | succ len ih =>
    rw [gdbWriteMemory]
    simp only [val_bind, val_peek_zero]
    rcases data with _ | ⟨hi, _ | ⟨lo, data⟩⟩
    · rw [headD_nil, hzero]
      rfl
    · rw [val_peek_one _ _ (cons_ne_nil _ _), headD_cons, getD_cons_succ, getD_nil, hzero]
      cases hexToInt hi <;> rfl
    · rw [val_peek_one _ _ (cons_ne_nil _ _), headD_cons, getD_cons_succ,
        getD_cons_zero, MyOs.gdbWriteMemory]
      cases hexToInt hi with
      | none => rfl
      | some h =>
        cases hexToInt lo with
        | none => rfl
        | some l => exact ih _ _ _

@[simp] lemma val_appendBytes (idx : ℕ) (bytes : List UInt8) :
    (appendBytes idx bytes).val = bytes.flatMap MyOs.gdbAppendHex := by
  induction bytes generalizing idx with
  | nil => rfl
  | cons b bytes ih =>
    rw [appendBytes, flatMap_cons, ← ih (idx + 2)]
    rfl

lemma val_appendRegs (idx : ℕ) (regs : List (ℕ × ℕ)) :
    (appendRegs idx regs).val = regs.flatMap fun reg => MyOs.gdbAppendReg reg.1 reg.2 := by
  induction regs generalizing idx with
  | nil => rfl
  | cons reg regs ih =>
    rw [appendRegs, flatMap_cons, ← ih (idx + 2 * reg.2), MyOs.gdbAppendReg, ← flatMap_map]
    simp only [val_bind, val_pure, gdbAppendReg, val_appendBytes]

@[simp] lemma val_gdbEncodeRegisters (frameAddr : ℕ) (f : Frame) :
    (gdbEncodeRegisters frameAddr f).val = MyOs.gdbEncodeRegisters frameAddr f := by
  simp only [gdbEncodeRegisters, val_bind, val_pure, val_appendRegs, registers,
    flatMap_append, flatMap_map]
  rfl

@[simp] lemma val_gdbReadMemory (m : Memory) (addr len : ℕ) :
    (gdbReadMemory m addr len).val = MyOs.gdbReadMemory m addr len := by
  simp only [gdbReadMemory, val_bind, val_pure, val_appendBytes, flatMap_map]
  rfl

@[simp] lemma val_gdbRead (g : Gdb) : (gdbRead n behind g p).val = MyOs.gdbRead g p := by
  rw [gdbRead, MyOs.gdbRead, val_bind, val_gdbParsePair]
  cases MyOs.gdbParsePair p with
  | none => rfl
  | some r => simp only [val_ite, val_pure, val_gdbReadMemory]

@[simp] lemma val_gdbWrite (g : Gdb) : (gdbWrite n behind g p).val = MyOs.gdbWrite g p := by
  rw [gdbWrite, MyOs.gdbWrite, val_bind, val_gdbParsePair]
  cases MyOs.gdbParsePair p with
  | none => rfl
  | some r =>
    simp only [val_bind, val_ite, val_pure, val_peek_zero, val_strlen, val_gdbWriteMemory]

@[simp] lemma val_gdbBreakpoint (g : Gdb) (insert : Bool) :
    (gdbBreakpoint n behind g insert p).val = MyOs.gdbBreakpoint g insert p := by
  rw [gdbBreakpoint, MyOs.gdbBreakpoint, val_bind, val_gdbParsePair]
  cases MyOs.gdbParsePair p with
  | none => rfl
  | some r => simp only [val_ite, val_pure]

@[simp] lemma val_gdbResumeAt (frame : Frame) :
    (gdbResumeAt n behind frame p).val = MyOs.gdbResumeAt frame p := by
  rw [gdbResumeAt, MyOs.gdbResumeAt]
  simp only [val_bind, val_ite, val_pure, val_peek_zero, val_gdbParseHex]
  cases MyOs.gdbParseHex p <;> rfl

/-- **The traced command is the command.** -/
lemma val_gdbHandleCommand (frameAddr : ℕ) (cmd : List UInt8) (g : Gdb) (frame : Frame) :
    (gdbHandleCommand n behind frameAddr cmd g frame).val = MyOs.gdbHandleCommand frameAddr cmd g frame := by
  have hq : 0 ∉ ascii "qSupported" := by decide
  have hv : 0 ∉ ascii "vCont?" := by decide
  have hten : (ascii "qSupported").length = 10 := by decide
  simp only [gdbHandleCommand, MyOs.gdbHandleCommand, val_bind, val_ite, val_pure,
    val_peek_zero, val_gdbEncodeRegisters, val_gdbRead, val_gdbWrite, val_gdbBreakpoint, val_gdbResumeAt,
    val_strncmp n behind cmd hq, val_strcmp n behind cmd hv, hten, decide_eq_true_eq]

end Values

/-! ## Where the command is read -/

section Inside

variable {n : ℕ} {behind : ℕ → UInt8} {p data : List UInt8}

lemma all_peek (hp : p.length ≤ n) (k : ℕ) :
    (peek n behind p k).All (Access.Inside n) ↔ k ≤ p.length := by
  simp only [Traced.All, peek, mem_singleton, forall_eq, Access.Inside]
  omega

lemma all_peek_zero (hp : p.length ≤ n) : (peek n behind p 0).All (Access.Inside n) :=
  (all_peek hp 0).mpr (Nat.zero_le _)

lemma length_tail_le (hp : p.length ≤ n) : p.tail.length ≤ n := by
  rw [length_tail]
  exact (Nat.sub_le _ _).trans hp

lemma gdbParseHex_length_le {r : ℕ × List UInt8} (h : MyOs.gdbParseHex p = some r) :
    r.2.length ≤ p.length := by
  obtain ⟨text, rfl, -⟩ := gdbParseHex_some h
  simp

lemma gdbParsePair_length_le {r : ℕ × ℕ × List UInt8} (h : MyOs.gdbParsePair p = some r) :
    r.2.2.length ≤ p.length := by
  obtain ⟨a, b, rest⟩ := r
  obtain ⟨text, text', rfl, -⟩ := gdbParsePair_iff.mp h
  simp only [length_append, length_cons]
  omega

section

variable (hp : p.length ≤ n)
include hp

lemma all_gdbParseHexLoop (value : ℕ) : (gdbParseHexLoop n behind value p).All (Access.Inside n) := by
  induction p generalizing value with
  | nil =>
    rw [gdbParseHexLoop, all_bind]
    exact ⟨all_peek_zero hp, all_pure _⟩
  | cons c p ih =>
    have hpeek : (peek n behind (c :: p) 0).All (Access.Inside n) := all_peek_zero hp
    rw [gdbParseHexLoop, all_bind, all_ite]
    refine ⟨hpeek, ?_⟩
    split_ifs
    · exact all_pure _
    · rw [all_bind, val_peek_zero]
      refine ⟨hpeek, ?_⟩
      cases hexToInt ((c :: p).headD 0) with
      | none => exact all_pure _
      | some v => exact ih (Nat.le_of_succ_le hp) _

lemma all_gdbParseHex : (gdbParseHex n behind p).All (Access.Inside n) := by
  rw [gdbParseHex, all_bind]
  exact ⟨all_gdbParseHexLoop hp 0, all_pure _⟩

lemma all_gdbParsePair : (gdbParsePair n behind p).All (Access.Inside n) := by
  rw [gdbParsePair, all_bind, val_gdbParseHex]
  refine ⟨all_gdbParseHex hp, ?_⟩
  cases hfirst : MyOs.gdbParseHex p with
  | none => exact all_pure _
  | some r =>
    have hr := (gdbParseHex_length_le hfirst).trans hp
    simp only [all_bind, all_ite, all_pure, and_true]
    refine ⟨all_peek_zero hr, ?_⟩
    split_ifs
    exact all_gdbParseHex (length_tail_le hr)

lemma all_strlen : (strlen n behind p).All (Access.Inside n) := by
  induction p with
  | nil =>
    rw [strlen, all_bind]
    exact ⟨all_peek_zero hp, all_pure _⟩
  | cons c p ih =>
    rw [strlen, all_bind, all_ite]
    refine ⟨all_peek_zero hp, ?_⟩
    split_ifs
    · exact all_pure _
    · rw [all_bind]
      exact ⟨ih (Nat.le_of_succ_le hp), all_pure _⟩

lemma all_strncmp (text : List UInt8) : (strncmp n behind p text).All (Access.Inside n) := by
  induction text generalizing p with
  | nil => exact all_pure _
  | cons b text ih =>
    rw [strncmp, all_bind, all_ite, all_ite]
    refine ⟨all_peek_zero hp, ?_⟩
    split_ifs
    · exact all_pure _
    · exact all_pure _
    · exact ih (length_tail_le hp)

lemma all_strcmp (text : List UInt8) : (strcmp n behind p text).All (Access.Inside n) := by
  induction text generalizing p with
  | nil =>
    rw [strcmp, all_bind]
    exact ⟨all_peek_zero hp, all_pure _⟩
  | cons b text ih =>
    rw [strcmp, all_bind, all_ite]
    refine ⟨all_peek_zero hp, ?_⟩
    split_ifs
    · exact ih (length_tail_le hp)
    · exact all_pure _

end

/-- The data is an even number of digits, and they do not suffice. -/
def RunsOut (data : List UInt8) (len : ℕ) : Prop :=
  data.length < 2 * len ∧ data.length % 2 = 0 ∧ ∀ c ∈ data, (hexToInt c).isSome

/-- `gdb_write_memory` looks behind the terminator when it runs out of digits at the beginning of a byte. -/
lemma all_gdbWriteMemory_iff (hdata : data.length ≤ n) (m : Memory) (addr len : ℕ) :
    (gdbWriteMemory n behind m addr data len).All (Access.Inside n) ↔ ¬ RunsOut data len := by
  induction len generalizing m addr data with
  | zero => exact iff_of_true (all_pure _) fun h => absurd h.1 (Nat.not_lt_zero _)
  | succ len ih =>
    rw [gdbWriteMemory, all_bind, all_bind, all_peek hdata, all_peek hdata, val_peek_zero]
    rcases data with _ | ⟨hi, _ | ⟨lo, data⟩⟩
    · refine iff_of_false (fun h => absurd h.2.1 (by decide)) fun h => h ⟨by simp, rfl, nofun⟩
    · refine iff_of_true ⟨Nat.zero_le _, le_rfl, ?_⟩ fun h => absurd h.2.1 Nat.one_ne_zero
      have hzero : hexToInt 0 = none := by decide
      rw [val_peek_one _ _ (cons_ne_nil _ _), getD_cons_succ, getD_nil, hzero]
      cases hexToInt (headD [hi] 0) <;> exact all_pure _
    · have hlong : 1 ≤ (hi :: lo :: data).length := Nat.succ_le_succ (Nat.zero_le _)
      rw [val_peek_one _ _ (cons_ne_nil _ _), headD_cons, getD_cons_succ,
        getD_cons_zero, and_iff_right (Nat.zero_le _), and_iff_right hlong]
      have hbad : (hexToInt hi).isSome = false ∨ (hexToInt lo).isSome = false →
          ¬ RunsOut (hi :: lo :: data) (len + 1) := by
        rintro hbad ⟨-, -, hall⟩
        have hhi := hall hi mem_cons_self
        have hlo := hall lo (mem_cons_of_mem _ mem_cons_self)
        rcases hbad with hbad | hbad
        · exact absurd hhi (by simp [hbad])
        · exact absurd hlo (by simp [hbad])
      cases hhi : hexToInt hi with
      | none => exact iff_of_true (all_pure _) (hbad (Or.inl (by rw [hhi]; rfl)))
      | some h =>
        cases hlo : hexToInt lo with
        | none => exact iff_of_true (all_pure _) (hbad (Or.inr (by rw [hlo]; rfl)))
        | some l =>
          refine (ih (Nat.le_of_succ_le (Nat.le_of_succ_le hdata)) _ _).trans (not_congr ?_)
          simp only [RunsOut, length_cons, mem_cons, forall_eq_or_imp, hhi, hlo,
            Option.isSome_some, true_and]
          refine and_congr (by omega) (and_congr_left fun _ => by omega)

/-! ## Where the answer is written -/

lemma all_put (i : ℕ) : (put i).All (Access.Inside n) ↔ i < gdbMaxPacket := by
  simp only [Traced.All, put, mem_singleton, forall_eq, Access.Inside]

lemma all_appendBytes {idx : ℕ} {bytes : List UInt8} (h : idx + 2 * bytes.length ≤ gdbMaxPacket) :
    (appendBytes idx bytes).All (Access.Inside n) := by
  induction bytes generalizing idx with
  | nil => exact all_pure _
  | cons b bytes ih =>
    rw [length_cons] at h
    have hfirst : idx < gdbMaxPacket := by omega
    have hsecond : idx + 1 < gdbMaxPacket := by omega
    simp only [appendBytes, gdbAppendHex, all_bind, all_pure, and_true, all_put]
    exact ⟨⟨hfirst, hsecond⟩, ih (by omega)⟩

lemma all_appendRegs {idx : ℕ} {regs : List (ℕ × ℕ)}
    (h : idx + (regs.map fun reg => 2 * reg.2).sum ≤ gdbMaxPacket) :
    (appendRegs idx regs).All (Access.Inside n) := by
  induction regs generalizing idx with
  | nil => exact all_pure _
  | cons reg regs ih =>
    rw [map_cons, sum_cons] at h
    simp only [appendRegs, gdbAppendReg, all_bind, all_pure, and_true]
    refine ⟨all_appendBytes ?_, ih (by omega)⟩
    rw [length_map, length_range]
    omega

lemma length_flatMap_appendHex (bytes : List UInt8) :
    (bytes.flatMap MyOs.gdbAppendHex).length = 2 * bytes.length := by
  have hpair : ∀ b, (MyOs.gdbAppendHex b).length = 2 := fun _ => rfl
  simp [length_flatMap, hpair, Nat.mul_comm]

lemma length_flatMap_appendReg (regs : List (ℕ × ℕ)) :
    (regs.flatMap fun reg => MyOs.gdbAppendReg reg.1 reg.2).length = (regs.map fun reg => 2 * reg.2).sum := by
  have hpair : ∀ b, (MyOs.gdbAppendHex b).length = 2 := fun _ => rfl
  simp [length_flatMap, MyOs.gdbAppendReg, hpair, Nat.mul_comm]

lemma all_gdbEncodeRegisters (frameAddr : ℕ) (f : Frame) :
    (gdbEncodeRegisters frameAddr f).All (Access.Inside n) := by
  have hsum : ((registers frameAddr f).map fun reg => 2 * reg.2).sum = 328 := by
    simp only [registers, map_append, map_cons, map_nil]
    rfl
  simp only [gdbEncodeRegisters, all_bind, all_pure, and_true, all_put, val_appendRegs,
    length_flatMap_appendReg, hsum]
  exact ⟨all_appendRegs (by rw [hsum]; decide), by decide⟩

/-- The limit of the command `m` leaves no room for a terminator behind 256 bytes. -/
lemma all_gdbReadMemory_iff {len : ℕ} (h : len ≤ gdbMaxPacket / 2) (m : Memory) (addr : ℕ) :
    (gdbReadMemory m addr len).All (Access.Inside n) ↔ len ≠ 256 := by
  have hle : len ≤ 256 := h
  simp only [gdbReadMemory, all_bind, all_pure, and_true, all_put, val_appendBytes,
    length_flatMap_appendHex, length_map, length_range]
  have hdigits : 0 + 2 * ((range len).map fun i => m ((addr + i) % 2 ^ 64)).length ≤ gdbMaxPacket := by
    rw [length_map, length_range, gdbMaxPacket]
    omega
  rw [and_iff_right (all_appendBytes hdigits), gdbMaxPacket]
  omega

/-! ## The commands -/

lemma all_gdbRead_iff (hp : p.length ≤ n) (g : Gdb) : (gdbRead n behind g p).All (Access.Inside n) ↔
    ¬ ∃ addr rest, MyOs.gdbParsePair p = some (addr, 256, rest) := by
  rw [gdbRead, all_bind, val_gdbParsePair, and_iff_right (all_gdbParsePair hp)]
  cases hpair : MyOs.gdbParsePair p with
  | none => exact iff_of_true (all_pure _) (by simp)
  | some r =>
    obtain ⟨addr, len, rest⟩ := r
    simp only [all_ite, all_pure, Option.some.injEq, Prod.mk.injEq]
    split_ifs with hlong
    · refine iff_of_true trivial ?_
      rintro ⟨_, _, -, rfl, -⟩
      exact absurd hlong (by decide)
    · rw [all_gdbReadMemory_iff (not_lt.mp hlong)]
      simp

lemma all_gdbWrite_iff (hp : p.length ≤ n) (g : Gdb) : (gdbWrite n behind g p).All (Access.Inside n) ↔
    ¬ ∃ addr len data, MyOs.gdbParsePair p = some (addr, len, chr ':' :: data) ∧
      len * 2 % 2 ^ 64 ≤ MyOs.strlen data ∧ RunsOut data len := by
  rw [gdbWrite, all_bind, val_gdbParsePair, and_iff_right (all_gdbParsePair hp)]
  cases hpair : MyOs.gdbParsePair p with
  | none => exact iff_of_true (all_pure _) (by simp)
  | some r =>
    obtain ⟨addr, len, rest⟩ := r
    have hrest : rest.length ≤ n := (gdbParsePair_length_le hpair).trans hp
    have htail := length_tail_le hrest
    simp only [all_bind, all_ite, all_pure, val_peek_zero, val_strlen, and_true,
      all_gdbWriteMemory_iff htail]
    rw [and_iff_right (all_peek_zero hrest)]
    by_cases hcolon : rest.headD 0 = chr ':'
    · have hcons : rest = chr ':' :: rest.tail := by
        cases rest with
        | nil => exact absurd hcolon (by decide)
        | cons c rest => exact congrArg (· :: rest) hcolon
      rw [if_neg (not_not.mpr hcolon), and_iff_right (all_strlen htail)]
      split_ifs with hshort
      · refine iff_of_true trivial ?_
        rintro ⟨_, _, data, heq, hlong, -⟩
        cases heq
        exact absurd hshort (not_lt.mpr hlong)
      · refine not_congr ⟨fun hruns => ⟨addr, len, rest.tail, ?_, not_lt.mp hshort, hruns⟩, ?_⟩
        · rw [← hcons]
        · rintro ⟨_, _, data, heq, -, hruns⟩
          cases heq
          exact hruns
    · rw [if_pos hcolon]
      refine iff_of_true trivial ?_
      rintro ⟨_, _, data, heq, -⟩
      cases heq
      exact hcolon rfl

lemma all_gdbBreakpoint (hp : p.length ≤ n) (g : Gdb) (insert : Bool) :
    (gdbBreakpoint n behind g insert p).All (Access.Inside n) := by
  rw [gdbBreakpoint, all_bind, val_gdbParsePair]
  refine ⟨all_gdbParsePair hp, ?_⟩
  cases MyOs.gdbParsePair p with
  | none => exact all_pure _
  | some r =>
    simp only [all_ite, all_pure, ite_self]

lemma all_gdbResumeAt (hp : p.length ≤ n) (frame : Frame) :
    (gdbResumeAt n behind frame p).All (Access.Inside n) := by
  rw [gdbResumeAt, all_bind, all_ite]
  refine ⟨all_peek_zero hp, ?_⟩
  split_ifs
  · exact all_pure _
  · rw [all_bind, val_gdbParseHex]
    refine ⟨all_gdbParseHex hp, ?_⟩
    cases MyOs.gdbParseHex p <;> exact all_pure _

end Inside

end GdbBounds

variable {cmd p text rest : List UInt8}

/-- The command `m` asks for 256 bytes. -/
def FillsAnswer (cmd : List UInt8) : Prop :=
  ∃ addrText lenText rest, cmd = chr 'm' :: (addrText ++ chr ',' :: (lenText ++ rest)) ∧ IsHex addrText ∧
    IsHex lenText ∧ hexToInt (rest.headD 0) = none ∧ hexValue lenText % 2 ^ 64 = 256

/-- The command `M` has an even number of digits, which are at least twice the length modulo `2^64`, and less
than twice the length. -/
def OverrunsCommand (cmd : List UInt8) : Prop :=
  ∃ addrText lenText data, cmd = chr 'M' :: (addrText ++ chr ',' :: (lenText ++ chr ':' :: data)) ∧
    IsHex addrText ∧ IsHex lenText ∧ 2 * hexValue lenText % 2 ^ 64 ≤ data.length ∧
    GdbBounds.RunsOut data (hexValue lenText % 2 ^ 64)

lemma strlen_eq_length {data : List UInt8} (h : 0 ∉ data) : strlen data = data.length := by
  refine le_antisymm (strlen_le_length data) (le_strlen le_rfl fun c hc hzero => h ?_)
  rw [take_length] at hc
  exact hzero ▸ hc

lemma fillsAnswer_iff (p : List UInt8) :
    FillsAnswer (chr 'm' :: p) ↔ ∃ addr rest, gdbParsePair p = some (addr, 256, rest) := by
  simp only [FillsAnswer, cons.injEq, true_and, gdbParsePair_iff]
  constructor
  · rintro ⟨text, text', rest, hp, htext, htext', hend, hlen⟩
    exact ⟨_, rest, text, text', hp, htext, htext', hend, rfl, hlen.symm⟩
  · rintro ⟨_, rest, text, text', hp, htext, htext', hend, -, hlen⟩
    exact ⟨text, text', rest, hp, htext, htext', hend, hlen.symm⟩

lemma overrunsCommand_iff (hp : 0 ∉ p) :
    OverrunsCommand (chr 'M' :: p) ↔ ∃ addr len data, gdbParsePair p = some (addr, len, chr ':' :: data) ∧
      len * 2 % 2 ^ 64 ≤ strlen data ∧ GdbBounds.RunsOut data len := by
  have hdouble : ∀ k, k % 2 ^ 64 * 2 % 2 ^ 64 = 2 * k % 2 ^ 64 := fun k => by omega
  have hcolon : ∀ data, hexToInt ((chr ':' :: data).headD 0) = none := fun data => by
    rw [headD_cons]
    decide
  simp only [OverrunsCommand, cons.injEq, true_and, gdbParsePair_iff]
  constructor
  · rintro ⟨text, text', data, rfl, htext, htext', hlen, hruns⟩
    refine ⟨_, _, data, ⟨text, text', rfl, htext, htext', hcolon data, rfl, rfl⟩, ?_, hruns⟩
    rw [hdouble, strlen_eq_length fun hzero => hp (by simp [hzero])]
    exact hlen
  · rintro ⟨_, _, data, ⟨text, text', rfl, htext, htext', -, rfl, rfl⟩, hlen, hruns⟩
    rw [hdouble, strlen_eq_length fun hzero => hp (by simp [hzero])] at hlen
    exact ⟨text, text', data, rfl, htext, htext', hlen, hruns⟩

namespace GdbBounds

lemma all_other {c : UInt8} (hread : c ≠ chr 'm') (hwrite : c ≠ chr 'M') (behind : ℕ → UInt8)
    (frameAddr : ℕ) (g : Gdb) (frame : Frame) :
    (gdbHandleCommand (p.length + 1) behind frameAddr (c :: p) g frame).All
      (Access.Inside (p.length + 1)) := by
  have hp : p.length ≤ p.length + 1 := Nat.le_succ _
  have hcmd : (c :: p).length ≤ p.length + 1 := le_rfl
  rw [gdbHandleCommand, all_bind, val_peek_zero, headD_cons, tail_cons]
  refine ⟨all_peek_zero hcmd, ?_⟩
  dsimp only
  rw [if_neg hread, if_neg hwrite]
  simp only [all_ite, all_bind, all_pure, and_true, all_gdbEncodeRegisters,
    all_gdbBreakpoint hp, all_strncmp hcmd, all_strcmp hcmd, all_gdbResumeAt hp, ite_self]

lemma all_read_iff (behind : ℕ → UInt8) (frameAddr : ℕ) (g : Gdb) (frame : Frame) :
    (gdbHandleCommand (p.length + 1) behind frameAddr (chr 'm' :: p) g frame).All
      (Access.Inside (p.length + 1)) ↔ ¬ FillsAnswer (chr 'm' :: p) := by
  have hne : chr 'm' ≠ chr '?' ∧ chr 'm' ≠ chr 'g' := by decide
  have hcmd : (chr 'm' :: p).length ≤ p.length + 1 := le_rfl
  rw [gdbHandleCommand, all_bind, val_peek_zero, headD_cons, tail_cons,
    and_iff_right (all_peek_zero hcmd), if_neg hne.1, if_neg hne.2, if_pos rfl,
    all_bind, and_iff_left (all_pure _), all_gdbRead_iff (Nat.le_succ _), fillsAnswer_iff]

lemma all_write_iff (hp : 0 ∉ p) (behind : ℕ → UInt8) (frameAddr : ℕ) (g : Gdb) (frame : Frame) :
    (gdbHandleCommand (p.length + 1) behind frameAddr (chr 'M' :: p) g frame).All
      (Access.Inside (p.length + 1)) ↔ ¬ OverrunsCommand (chr 'M' :: p) := by
  have hne : chr 'M' ≠ chr '?' ∧ chr 'M' ≠ chr 'g' ∧ chr 'M' ≠ chr 'm' := by decide
  have hcmd : (chr 'M' :: p).length ≤ p.length + 1 := le_rfl
  rw [gdbHandleCommand, all_bind, val_peek_zero, headD_cons, tail_cons,
    and_iff_right (all_peek_zero hcmd), if_neg hne.1, if_neg hne.2.1, if_neg hne.2.2, if_pos rfl,
    all_bind, and_iff_left (all_pure _), all_gdbWrite_iff (Nat.le_succ _), overrunsCommand_iff hp]

end GdbBounds

/-- **The buffers of the stub.**  For every command, every frame and everything that is behind the
terminator: the answer is written inside of its buffer and the command is read up to its terminator,
exactly if `m` does not ask for 256 bytes and `M` does not run out of digits behind a length whose
double wraps. -/
theorem gdb_accesses_inside_iff (hcmd : 0 ∉ cmd) (behind : ℕ → UInt8) (frameAddr : ℕ) (g : Gdb)
    (frame : Frame) :
    (GdbBounds.gdbHandleCommand cmd.length behind frameAddr cmd g frame).All (Access.Inside cmd.length) ↔
      ¬ FillsAnswer cmd ∧ ¬ OverrunsCommand cmd := by
  have hfills : ∀ {c p}, FillsAnswer (c :: p) → c = chr 'm' := by
    rintro c p ⟨_, _, _, heq, -⟩
    exact (cons.inj heq).1
  have hoverruns : ∀ {c p}, OverrunsCommand (c :: p) → c = chr 'M' := by
    rintro c p ⟨_, _, _, heq, -⟩
    exact (cons.inj heq).1
  have hne : chr 'm' ≠ chr 'M' := by decide
  cases cmd with
  | nil =>
    refine iff_of_true ?_ ⟨?_, ?_⟩
    · rw [GdbBounds.gdbHandleCommand, all_bind, GdbBounds.val_peek_zero]
      exact ⟨GdbBounds.all_peek_zero le_rfl, all_pure _⟩
    · rintro ⟨_, _, _, heq, -⟩
      cases heq
    · rintro ⟨_, _, _, heq, -⟩
      cases heq
  | cons c p =>
    rw [mem_cons, not_or] at hcmd
    by_cases hread : c = chr 'm'
    · subst hread
      rw [and_iff_left fun h => hne (hoverruns h)]
      exact GdbBounds.all_read_iff behind frameAddr g frame
    by_cases hwrite : c = chr 'M'
    · subst hwrite
      rw [and_iff_right fun h => hne (hfills h).symm]
      exact GdbBounds.all_write_iff hcmd.2 behind frameAddr g frame
    · exact iff_of_true (GdbBounds.all_other hread hwrite behind frameAddr g frame)
        ⟨fun h => hread (hfills h), fun h => hwrite (hoverruns h)⟩

theorem gdb_accesses_inside_registers :
    (GdbBounds.gdbHandleCommand 1 (fun _ => 0) 0 [chr 'g'] nopStub.gdb {}).All (Access.Inside 1) := by
  have hcmd : 0 ∉ [chr 'g'] := by decide
  refine (gdb_accesses_inside_iff hcmd (fun _ => 0) 0 nopStub.gdb {}).mpr ⟨?_, ?_⟩
  · rintro ⟨_, _, _, heq, -⟩
    exact absurd (cons.inj heq).1 (by decide)
  · rintro ⟨_, _, _, heq, -⟩
    exact absurd (cons.inj heq).1 (by decide)

/-- `m0,100` writes a terminator behind the answer, and `M0,8000000000000000:41` reads the character
behind the terminator of the command. -/
theorem gdb_accesses_outside :
    Access.out 512 ∈ (GdbBounds.gdbHandleCommand 6 (fun _ => 0) 0 (ascii "m0,100") nopStub.gdb {}).trace ∧
    Access.cmd 23 ∈ (GdbBounds.gdbHandleCommand 22 (fun _ => 0) 0 (ascii "M0,8000000000000000:41")
      nopStub.gdb {}).trace := by
  decide +kernel

end MyOs
