import MyOs.Printf.UserLib

/-!
# `log_vprintf`

The formatter of the kernel log (`src/log.c`), and what both formatters make of a format.  The characters
go to the console, to the serial port or to both.  Behind a `%` the formatter counts `l`s; a conversion
with at least one takes 64 bits, and 32 otherwise.  Unlike that of the user library it does not look for the
end of the format there (`unfinished_conversion`).

`logSwitch_char` is the switch at a conversion character, and again there is no case for a flag or a digit:
the loop is a `PlainFormatter` (`plainFormatter_log`).  Both formatters are therefore exact on no format with
a flag or a width, and the one of the kernel is on all others; that of the user library also needs numbers
that were extended to 64 bits (`formatters_exact_iff`).
-/

namespace MyOs

open Lib List

/-! ## The formatter -/

/-- The settings of the log, and what it wrote to its targets. -/
structure Log where
  currentLevel : ℕ
  currentTargets : BitVec 32
  console : List UInt8
  serial : List UInt8
  deriving DecidableEq

/-- `LOG_LEVEL_INFO`, `LOG_LEVEL_WARN` and `LOG_LEVEL_ERROR` -/
def logLevelInfo : ℕ := 0

def logLevelWarn : ℕ := 1

def logLevelError : ℕ := 2

/-- `LOG_TARGET_CONSOLE` and `LOG_TARGET_SERIAL` -/
def logTargetConsole : BitVec 32 := 1#32 <<< 0

def logTargetSerial : BitVec 32 := 1#32 <<< 1

def logPutc (l : Log) (c : UInt8) : Log :=
  { l with
    console := if l.currentTargets &&& logTargetConsole ≠ 0 then l.console ++ [c] else l.console
    serial := if l.currentTargets &&& logTargetSerial ≠ 0 then l.serial ++ [c] else l.serial }

/-- `for (size_t i = 0; s[i]; i++) log_putc(s[i])` -/
def logWriteLoop : Log → List UInt8 → Log
  | l, [] => l
  | l, c :: s => if c = 0 then l else logWriteLoop (logPutc l c) s

/-- `log_write`, of a null pointer or of a string -/
def logWrite (l : Log) : Option (List UInt8) → Log
  | none => l
  | some s => logWriteLoop l s

/-- The table `digits` of `log_write_u64`. -/
def logDigits (uppercase : Bool) : List UInt8 :=
  if uppercase then ascii "0123456789ABCDEF" else ascii "0123456789abcdef"

def logWriteU64 (l : Log) (v : BitVec 64) (base : ℕ) (uppercase : Bool) : Log :=
  if v = 0 then logPutc l (chr '0')
  else
    let buf := (scratch base 32 v.toNat).map fun d => (logDigits uppercase).getD d 0
    buf.reverse.foldl logPutc l

def logWriteI64 (l : Log) (v : BitVec 64) : Log :=
  if v.slt 0 then logWriteU64 (logPutc l (chr '-')) (-v) 10 false else logWriteU64 l v 10 false

/-- The text of `log_prefix`. -/
def logPrefixText (level : ℕ) : List UInt8 :=
  if level = logLevelInfo then ascii "[info] "
  else if level = logLevelWarn then ascii "[warn] "
  else if level = logLevelError then ascii "[error] "
  else ascii "[log] "

/-- The switch of `log_vprintf`: the log, and how many arguments are taken then. -/
def logSwitch (args : ℕ → Arg) (longCount : ℕ) (spec : UInt8) (l : Log) (k : ℕ) : Log × ℕ :=
  let word := (args k).word
  match Spec.ofChar spec with
  | some .s => (logWrite l (some (if word = 0 then ascii "(null)" else (args k).text)), k + 1)
  | some .c => (logPutc l (UInt8.ofBitVec (word.setWidth 8)), k + 1)
  | some .d | some .i =>
    let v := if 1 ≤ longCount then word else (word.setWidth 32).signExtend 64
    (logWriteI64 l v, k + 1)
  | some .u =>
    let v := if 1 ≤ longCount then word else (word.setWidth 32).setWidth 64
    (logWriteU64 l v 10 false, k + 1)
  | some .x | some .X =>
    let v := if 1 ≤ longCount then word else (word.setWidth 32).setWidth 64
    (logWriteU64 l v 16 (spec = chr 'X'), k + 1)
  | some .p => (logWriteU64 (logWrite l (some (ascii "0x"))) word 16 false, k + 1)
  | none => (logPutc (logPutc l (chr '%')) spec, k)

/-- Where `log_vprintf` is in its format: in the text, behind a `%`, or behind some `l`s. -/
inductive LogMode
  | text
  | percent
  | longs (longCount : ℕ)

/-- The loop of `log_vprintf`.  It also says where it stops. -/
def logLoop (args : ℕ → Arg) : LogMode → List UInt8 → Log × ℕ → (Log × ℕ) × List UInt8
  | _, [], st => (st, [])
  | .text, c :: p, st =>
    if c = 0 then (st, c :: p)
    else if c ≠ chr '%' then logLoop args .text p (logPutc st.1 c, st.2)
    else logLoop args .percent p st
  | .percent, c :: p, st =>
    if c = chr '%' then logLoop args .text p (logPutc st.1 (chr '%'), st.2)
    else if c = chr 'l' then logLoop args (.longs 1) p st
    else logLoop args .text p (logSwitch args 0 c st.1 st.2)
  | .longs n, c :: p, st =>
    if c = chr 'l' then logLoop args (.longs (n + 1)) p st
    else logLoop args .text p (logSwitch args n c st.1 st.2)

/-- `log_vprintf`: the log, the number of arguments taken, and where the format was left. -/
def logVprintf (level : ℕ) (fmt : List UInt8) (args : ℕ → Arg) (l : Log) : (Log × ℕ) × List UInt8 :=
  if level < l.currentLevel then ((l, 0), fmt)
  else logLoop args .text fmt (logWrite l (some (logPrefixText level)), 0)

/-! ## The switch -/

variable {args : ℕ → Arg}

/-- The log after a text. -/
def Log.wrote (l : Log) (text : List UInt8) : Log :=
  { l with
    console := if l.currentTargets &&& logTargetConsole ≠ 0 then l.console ++ text else l.console
    serial := if l.currentTargets &&& logTargetSerial ≠ 0 then l.serial ++ text else l.serial }

lemma foldl_logPutc (l : Log) (text : List UInt8) : text.foldl logPutc l = l.wrote text := by
  induction text generalizing l with
  | nil => simp [Log.wrote]
  | cons c text ih =>
    rw [foldl_cons, ih]
    simp only [Log.wrote, logPutc, Log.mk.injEq, true_and]
    constructor <;> split_ifs <;> simp

lemma logWriteLoop_eq (l : Log) (s : List UInt8) :
    logWriteLoop l s = (s.takeWhile (· != 0)).foldl logPutc l := by
  induction s generalizing l with
  | nil => rfl
  | cons c s ih =>
    rw [logWriteLoop]
    split_ifs with hc
    · simp [hc]
    · rw [ih, takeWhile_cons_of_pos (by simpa using hc), foldl_cons]

lemma getD_logDigits (uppercase : Bool) {d : ℕ} (hd : d < 16) :
    (logDigits uppercase).getD d 0 = digitChar uppercase d := by
  have hall : ∀ upper, ∀ d < 16, (logDigits upper).getD d 0 = digitChar upper d := by decide +kernel
  exact hall uppercase d hd

lemma logWriteU64_eq (l : Log) (v : BitVec 64) {base : ℕ} (hbase : 4 ≤ base ∧ base ≤ 16)
    (uppercase : Bool) :
    logWriteU64 l v base uppercase = (numeralText base uppercase v.toNat).foldl logPutc l := by
  rw [logWriteU64]
  split_ifs with hv
  · rw [hv]
    rfl
  · have hne : v.toNat ≠ 0 := fun hzero => hv (BitVec.eq_of_toNat_eq hzero)
    simp only
    rw [← map_reverse, reverse_scratch (by omega) (toNat_lt_pow v hbase.1) hne, numeralText]
    congr 1
    refine map_congr_left fun d hd => getD_logDigits uppercase ?_
    exact (lt_of_mem_numeral (by omega) hd).trans_le hbase.2

lemma logWriteI64_eq (l : Log) (v : BitVec 64) :
    logWriteI64 l v = (intText v.toInt).foldl logPutc l := by
  rw [logWriteI64, intText_toInt, logWriteU64_eq _ _ (by decide), logWriteU64_eq _ _ (by decide)]
  split_ifs <;> rfl

/-- **The switch at a conversion character.** -/
lemma logSwitch_char (longCount : ℕ) (spec : Spec) (l : Log) (k : ℕ) :
    logSwitch args longCount spec.char l k =
      ((spec.body (1 ≤ longCount) (args k)).foldl logPutc l, k + 1) := by
  have hint : (if 1 ≤ longCount then (args k).word else ((args k).word.setWidth 32).signExtend 64).toInt =
      (args k).int (1 ≤ longCount) := by
    rw [Arg.int]
    by_cases h : 1 ≤ longCount
    · simp [h]
    · simp [h, BitVec.toInt_signExtend]
  have hnat : (if 1 ≤ longCount then (args k).word else ((args k).word.setWidth 32).setWidth 64).toNat =
      (args k).nat (1 ≤ longCount) := by
    rw [Arg.nat]
    by_cases h : 1 ≤ longCount
    · simp [h]
    · simp [h]
      omega
  have hten : 4 ≤ 10 ∧ 10 ≤ 16 := by decide
  have hsixteen : 4 ≤ 16 ∧ 16 ≤ 16 := by decide
  rw [logSwitch, Spec.ofChar_char]
  cases spec with
  | s => simp only [logWrite, logWriteLoop_eq, takeWhile_str, Spec.body]
  | c => rfl
  | d | i => simp only [logWriteI64_eq, hint, Spec.body]
  | u => simp only [logWriteU64_eq _ _ hten, hnat, Spec.body]
  | x =>
    have hx : decide (Spec.x.char = chr 'X') = false := by decide
    simp only [hx, logWriteU64_eq _ _ hsixteen, hnat, Spec.body]
  | X =>
    have hX : decide (Spec.X.char = chr 'X') = true := by decide
    simp only [hX, logWriteU64_eq _ _ hsixteen, hnat, Spec.body]
  | p =>
    have hlead : (ascii "0x").takeWhile (· != 0) = [chr '0', chr 'x'] := by decide +kernel
    simp only [logWrite, logWriteLoop_eq, hlead, logWriteU64_eq _ _ hsixteen, Spec.body,
      foldl_cons, foldl_nil]

/-! ## The loop -/

lemma logLoop_longs (n longCount : ℕ) (spec : Spec) (rest : List UInt8) (st : Log × ℕ) :
    logLoop args (.longs n) (List.replicate longCount (chr 'l') ++ spec.char :: rest) st =
      logLoop args .text rest (logSwitch args (n + longCount) spec.char st.1 st.2) := by
  induction longCount generalizing n with
  | zero =>
    rw [replicate_zero, nil_append, logLoop, if_neg spec.char_ne_l, Nat.add_zero]
  | succ longCount ih =>
    rw [replicate_succ, cons_append, logLoop, if_pos rfl, ih, Nat.add_right_comm, Nat.add_assoc]

lemma logLoop_percent {c : UInt8} (hc : c ≠ chr '%') (hl : c ≠ chr 'l') (rest : List UInt8)
    (st : Log × ℕ) :
    logLoop args .text (chr '%' :: c :: rest) st =
      logLoop args .text rest (logSwitch args 0 c st.1 st.2) := by
  rw [logLoop, if_neg (by decide), if_neg (not_not.mpr rfl), logLoop, if_neg hc, if_neg hl]

/-- **`log_vprintf` knows the plain conversions.** -/
lemma plainFormatter_log (args : ℕ → Arg) :
    PlainFormatter logPutc (logLoop args .text) (fun cv => 1 ≤ cv.longs) args fun _ => True where
  lit c hc rest s k := by rw [logLoop, if_neg hc.1, if_pos hc.2]
  percent rest s k := by
    rw [logLoop, if_neg (by decide), if_neg (not_not.mpr rfl), logLoop, if_pos rfl]
  conv cv hcv _ rest s k := by
    rw [Conv.text_of_plain hcv, cons_append, append_assoc, singleton_append]
    cases hlongs : cv.longs with
    | zero =>
      rw [replicate_zero, nil_append,
        logLoop_percent cv.spec.harmless_char.2 cv.spec.char_ne_l, logSwitch_char]
    | succ n =>
      rw [replicate_succ, cons_append, logLoop, if_neg (by decide), if_neg (not_not.mpr rfl),
        logLoop, if_neg (by decide), if_pos rfl, logLoop_longs, logSwitch_char, Nat.add_comm 1]
  modifier c hc rest s k := by
    rw [logLoop_percent hc.harmless.2 hc.ofChar_eq_none.2, logSwitch, hc.ofChar_eq_none.1]

/-- **What `log_vprintf` makes of a format**, at a level that is written. -/
lemma logVprintf_eq {level : ℕ} {l : Log} (hlevel : l.currentLevel ≤ level) (ps : List Piece)
    (behind : List UInt8) (args : ℕ → Arg) :
    logVprintf level (formatText ps ++ 0 :: behind) args l =
      ((l.wrote (logPrefixText level ++ plainOutput (fun cv => 1 ≤ cv.longs) args 0 ps), plainCount ps),
        0 :: behind) := by
  have hchars : (logPrefixText level).takeWhile (· != 0) = logPrefixText level := by
    rw [logPrefixText]
    split_ifs <;> decide +kernel
  rw [logVprintf, if_neg hlevel.not_gt, (plainFormatter_log args).run fun _ _ => trivial, logWrite,
    logWriteLoop_eq, hchars, ← foldl_append, foldl_logPutc, Nat.zero_add, logLoop, if_pos rfl]

/-! ## Both formatters -/

/-- **A format that ends inside a conversion.**  The kernel's formatter takes the terminator for an unknown
conversion and goes on with what is behind the format; that of the user library stops there. -/
theorem unfinished_conversion (ps : List Piece) (longs : ℕ) (behind : List UInt8) (args : ℕ → Arg) :
    (∀ l k, logLoop args .text (formatText ps ++ chr '%' :: (replicate longs (chr 'l') ++ 0 :: behind))
        (l, k) =
      logLoop args .text behind ((l.wrote (plainOutput (fun cv => 1 ≤ cv.longs) args k ps)).wrote
        [chr '%', 0], k + plainCount ps)) ∧
    ((∀ cv, .conv cv ∈ ps → cv.longs = 0) → ∀ size st,
      (UserLib.vsnprintfLoop size args false (formatText ps ++ chr '%' :: 0 :: behind) st).2 =
        0 :: behind) := by
  have hnone : Spec.ofChar 0 = none := by decide +kernel
  have hswitch : ∀ n (st : Log × ℕ), logSwitch args n 0 st.1 st.2 = (st.1.wrote [chr '%', 0], st.2) := by
    intro n st
    rw [logSwitch, hnone, ← foldl_logPutc]
    rfl
  have hlongs : ∀ longs n (st : Log × ℕ),
      logLoop args (.longs n) (replicate longs (chr 'l') ++ 0 :: behind) st =
        logLoop args .text behind (st.1.wrote [chr '%', 0], st.2) := by
    intro longs
    induction longs with
    | zero => exact fun n st => by rw [replicate_zero, nil_append, logLoop, if_neg (by decide), hswitch]
    | succ longs ih => exact fun n st => by rw [replicate_succ, cons_append, logLoop, if_pos rfl, ih]
  refine ⟨fun l k => ?_, fun hread size st => ?_⟩
  · rw [(plainFormatter_log args).run fun _ _ => trivial, foldl_logPutc]
    cases longs with
    | zero => rw [replicate_zero, nil_append, logLoop_percent (by decide) (by decide), hswitch]
    | succ longs =>
      rw [replicate_succ, cons_append, logLoop, if_neg (by decide), if_neg (not_not.mpr rfl), logLoop,
        if_neg (by decide), if_pos rfl, hlongs]
  · rw [(UserLib.plainFormatter_vsnprintf size args).run hread, UserLib.vsnprintfLoop,
      if_neg (by decide), if_neg (not_not.mpr rfl), UserLib.vsnprintfLoop, if_pos rfl]

/-- The log shows the level and the standard output of a format, every conversion has taken an argument,
and the formatter stopped at the terminator. -/
def LogExact (level : ℕ) (ps : List Piece) (behind : List UInt8) (args : ℕ → Arg) (l : Log) : Prop :=
  logVprintf level (formatText ps ++ 0 :: behind) args l =
    ((l.wrote (logPrefixText level ++ standardOutput (fun cv => 1 ≤ cv.longs) args 0 ps), convCount ps),
      0 :: behind)

/-- The same for the user library: the buffer has as much of the standard output as fits, and its length is
returned. -/
def VsnprintfExact (buf : Memory) (size : ℕ) (ps : List Piece) (behind : List UInt8) (args : ℕ → Arg) :
    Prop :=
  UserLib.vsnprintfSimple buf size (formatText ps ++ 0 :: behind) args =
    { ret := (BitVec.ofNat 32 (standardOutput (fun cv => 1 ≤ cv.longs) args 0 ps).length).toInt
      mem := UserLib.filled buf size (standardOutput (fun cv => 1 ≤ cv.longs) args 0 ps)
      taken := convCount ps
      stop := 0 :: behind }

lemma logExact_iff {level : ℕ} {l : Log} (hlevel : l.currentLevel ≤ level) (ps : List Piece)
    (behind : List UInt8) (args : ℕ → Arg) : LogExact level ps behind args l ↔ PlainFormat ps := by
  rw [LogExact, logVprintf_eq hlevel]
  constructor
  · intro h
    exact (plainCount_le ps).2.mp (congrArg (·.1.2) h)
  · intro hplain
    rw [plainOutput_eq _ _ hplain, (plainCount_le ps).2.mpr hplain]

lemma vsnprintfExact_iff {ps : List Piece} (hlongs : ∀ cv, .conv cv ∈ ps → cv.longs = 0)
    (behind : List UInt8) (args : ℕ → Arg) :
    (∀ buf size, VsnprintfExact buf size ps behind args) ↔ PlainFormat ps ∧
      standardOutput (fun _ => true) args 0 ps = standardOutput (fun cv => 1 ≤ cv.longs) args 0 ps := by
  simp only [VsnprintfExact, UserLib.vsnprintfSimple_eq hlongs]
  constructor
  · intro h
    have hplain : PlainFormat ps :=
      (plainCount_le ps).2.mp (congrArg UserLib.PrintfResult.taken (h (fun _ => 7) 0))
    refine ⟨hplain, UserLib.eq_of_filled fun size => ?_⟩
    have hmem := congrArg UserLib.PrintfResult.mem (h (fun _ => 7) size)
    rwa [plainOutput_eq _ _ hplain] at hmem
  · rintro ⟨hplain, hout⟩ buf size
    rw [plainOutput_eq _ _ hplain, (plainCount_le ps).2.mpr hplain, hout]

/-- **When the formatters are exact.**  That of the kernel is where no conversion has a flag or a width, and
nowhere else: a conversion with one takes no argument, so that the next one shows the argument that was
meant for it.  That of the user library reads 64 bits for a number that has 32; conversion by conversion, it
is exact where no conversion has a flag or a width and the numbers were extended, and nowhere else. -/
theorem formatters_exact_iff (ps : List Piece) (behind : List UInt8) (args : ℕ → Arg) (level : ℕ) (l : Log)
    (hlevel : l.currentLevel ≤ level) :
    (LogExact level ps behind args l ↔ PlainFormat ps) ∧
      ((∀ cv, .conv cv ∈ ps → cv.longs = 0) →
        ((∀ pre, pre <+: ps → ∀ buf size, VsnprintfExact buf size pre behind args) ↔
          PlainFormat ps ∧ SlotsExtended args 0 ps)) := by
  refine ⟨logExact_iff hlevel ps behind args, fun hlongs => ?_⟩
  have hpre : ∀ pre, pre <+: ps → ((∀ buf size, VsnprintfExact buf size pre behind args) ↔
      PlainFormat pre ∧ standardOutput (fun _ => true) args 0 pre =
        standardOutput (fun cv => 1 ≤ cv.longs) args 0 pre) := fun pre hpre =>
    vsnprintfExact_iff (fun cv hcv => hlongs cv (hpre.subset hcv)) behind args
  have hlong : ∀ cv, .conv cv ∈ ps → decide (1 ≤ cv.longs) = false := fun cv hcv => by
    rw [hlongs cv hcv]
    rfl
  rw [forall₂_congr hpre]
  constructor
  · intro h
    have hplain := (h ps (prefix_refl ps)).1
    exact ⟨hplain, (standardOutput_eq_iff hplain hlong 0).mp fun pre hpre => (h pre hpre).2⟩
  · rintro ⟨hplain, hslots⟩ pre hpre
    exact ⟨fun cv hcv => hplain cv (hpre.subset hcv),
      (standardOutput_eq_iff hplain hlong 0).mpr hslots pre hpre⟩

/-- The log at its start: `LOG_LEVEL_INFO` and the console. -/
def Log.start : Log := ⟨logLevelInfo, logTargetConsole, [], []⟩

/-- A decimal number and a percent sign, written by both. -/
theorem formatters_exact_percentage :
    let ps : List Piece := [.conv ⟨none, none, 0, .d⟩, .percent]
    let args : ℕ → Arg := fun _ => ⟨42, []⟩
    LogExact logLevelWarn ps [] args .start ∧ VsnprintfExact (fun _ => 7) 3 ps [] args := by
  intro ps args
  have hmem : ∀ cv, .conv cv ∈ ps → cv = ⟨none, none, 0, .d⟩ := by simp [ps]
  have hplain : PlainFormat ps := fun cv hcv => by
    rw [hmem cv hcv]
    exact ⟨rfl, rfl⟩
  have hexact := formatters_exact_iff ps [] args logLevelWarn .start (by decide)
  have hint : Arg.int true ⟨42, []⟩ = Arg.int false ⟨42, []⟩ := by decide
  have hslots : SlotsExtended args 0 ps := ⟨hint, trivial⟩
  exact ⟨hexact.1.mpr hplain, (hexact.2 fun cv hcv => by rw [hmem cv hcv]).mpr ⟨hplain, hslots⟩ ps
    (prefix_refl ps) (fun _ => 7) 3⟩

/-- The pieces of a text without `%`. -/
def literalPieces (text : List UInt8) : List Piece :=
  text.filterMap fun c => if hc : c ≠ 0 ∧ c ≠ chr '%' then some (.lit c hc) else none

/-- The format in `pci_cb` -/
def pciCbFormat : List Piece :=
  literalPieces (ascii "virtio dev 0x") ++ .conv ⟨some .zero, some 8, 0, .x⟩ ::
    (literalPieces (ascii " at ") ++ .conv ⟨none, none, 2, .u⟩ ::
      (literalPieces (ascii ":") ++ .conv ⟨none, none, 2, .u⟩ ::
        (literalPieces (ascii ".") ++ .conv ⟨none, none, 2, .u⟩ :: literalPieces (ascii "\n"))))

/-- Its arguments for a block device in slot 3 of bus 0: the device id, the bus, the slot and the function -/
def pciCbArgs (k : ℕ) : Arg := ⟨[0x1001, 0, 3, 0].getD k 0, []⟩

/-- The `int` -1 in the slot of an argument, as it is passed in a register: the upper half is 0. -/
def minusOneArg : Arg := ⟨0xFFFFFFFF, []⟩

/-- The device is said to be in slot 0 of bus 4097, its device id.  Of the `%02x` in `print_mac` nothing is
converted either.  And the user library shows the `int` -1 as 4294967295. -/
theorem formatters_virtio_shifted :
    formatText pciCbFormat = ascii "virtio dev 0x%08x at %llu:%llu.%llu\n" ∧
      standardOutput (fun cv => 1 ≤ cv.longs) pciCbArgs 0 pciCbFormat =
        ascii "virtio dev 0x00001001 at 0:3.0\n" ∧
      logVprintf logLevelInfo (formatText pciCbFormat ++ [0]) pciCbArgs .start =
        ((Log.start.wrote (ascii "[info] virtio dev 0x%08x at 4097:0.3\n"), 3), [0]) ∧
      ¬ LogExact logLevelInfo pciCbFormat [] pciCbArgs .start ∧
      formatText [.conv ⟨some .zero, some 2, 0, .x⟩] = ascii "%02x" ∧
      (∀ buf size args, ¬ VsnprintfExact buf size [.conv ⟨some .zero, some 2, 0, .x⟩] [] args) ∧
      standardOutput (fun cv => 1 ≤ cv.longs) (fun _ => minusOneArg) 0 [.conv ⟨none, none, 0, .d⟩] =
        ascii "-1" ∧
      (UserLib.vsnprintfSimple (fun _ => 7) 16 (ascii "%d" ++ [0]) fun _ => minusOneArg).ret = 10 ∧
      (List.range 11).map (UserLib.vsnprintfSimple (fun _ => 7) 16 (ascii "%d" ++ [0])
        fun _ => minusOneArg).mem = ascii "4294967295" ++ [0] := by
  refine ⟨by decide +kernel, by decide +kernel, by decide +kernel, fun h => ?_, by decide +kernel, ?_,
    by decide +kernel, by decide +kernel, by decide +kernel⟩
  · have hplain := (logExact_iff (show Log.start.currentLevel ≤ logLevelInfo by decide) _ _ _).mp h
    have hflag := hplain ⟨some .zero, some 8, 0, .x⟩ (by simp [pciCbFormat])
    exact absurd hflag.1 (Option.some_ne_none _)
  · intro buf size args h
    have hlongs : ∀ cv, .conv cv ∈ [Piece.conv ⟨some .zero, some 2, 0, .x⟩] → cv.longs = 0 := by simp
    rw [VsnprintfExact, UserLib.vsnprintfSimple_eq hlongs] at h
    have hplain := (plainCount_le _).2.mp (congrArg UserLib.PrintfResult.taken h)
    have hflag := hplain ⟨some .zero, some 2, 0, .x⟩ mem_cons_self
    exact absurd hflag.1 (Option.some_ne_none _)

end MyOs
