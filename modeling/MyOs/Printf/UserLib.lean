import MyOs.Lib.TextBuffers
import MyOs.Printf.Formats

/-!
# `vsnprintf_simple`

The formatter of the user library (`user/lib.c`).  It goes through the format with one bit of state,
whether the last character was a `%`, and sends characters to a buffer (`Lib.Sink`), counting also those
that do not fit.  All its conversions take 64 bits.

`vsnprintfSwitch_char` is the switch at a conversion character; there is no case for a flag or a digit.  So
the loop is a `PlainFormatter`, and `vsnprintfSimple_eq` says what it makes of a format.
-/

namespace MyOs

open Lib List

namespace UserLib

/-- `for (; *s; s++) buf_putc(buf, size, &idx, *s)` -/
def sendString (size : ℕ) : Sink → List UInt8 → Sink
  | s, [] => s
  | s, c :: text => if c = 0 then s else sendString size (s.send size c) text

/-- `format_uint`: the digits go to `tmp[32]` and are taken back from its end. -/
def formatUint (size : ℕ) (s : Sink) (v : BitVec 64) (base : ℕ) (upper : Bool) : Sink :=
  let tmp := if v = 0 then [chr '0'] else (scratch base 32 v.toNat).map (digitChar upper)
  tmp.reverse.foldl (Sink.send size) s

/-- The switch of `vsnprintf_simple`: the buffer, and how many arguments are taken then. -/
def vsnprintfSwitch (size : ℕ) (args : ℕ → Arg) (spec : UInt8) (s : Sink) (k : ℕ) : Sink × ℕ :=
  match Spec.ofChar spec with
  | some .s => (sendString size s (if (args k).word = 0 then ascii "(null)" else (args k).text), k + 1)
  | some .c => (s.send size (UInt8.ofBitVec ((args k).word.setWidth 8)), k + 1)
  | some .d | some .i =>
    let v := (args k).word
    if v.slt 0 then (formatUint size (s.send size (chr '-')) (-v) 10 false, k + 1)
    else (formatUint size s v 10 false, k + 1)
  | some .u => (formatUint size s (args k).word 10 false, k + 1)
  | some .x => (formatUint size s (args k).word 16 false, k + 1)
  | some .X => (formatUint size s (args k).word 16 true, k + 1)
  | some .p =>
    (formatUint size ((s.send size (chr '0')).send size (chr 'x')) (args k).word 16 false, k + 1)
  | none =>
    if spec = chr '%' then (s.send size (chr '%'), k)
    else ((s.send size (chr '%')).send size spec, k)

/-- The loop of `vsnprintf_simple` over the format, `percent` if the character before was a `%`.  It also
says where it stops. -/
def vsnprintfLoop (size : ℕ) (args : ℕ → Arg) :
    (percent : Bool) → List UInt8 → Sink × ℕ → (Sink × ℕ) × List UInt8
  | _, [], st => (st, [])
  | false, c :: p, st =>
    if c = 0 then (st, c :: p)
    else if c ≠ chr '%' then vsnprintfLoop size args false p (st.1.send size c, st.2)
    else vsnprintfLoop size args true p st
  | true, c :: p, st =>
    if c = 0 then (st, c :: p)
    else vsnprintfLoop size args false p (vsnprintfSwitch size args c st.1 st.2)

/-- What `vsnprintf_simple` returns, leaves in memory, takes of its arguments and where it stops. -/
structure PrintfResult where
  ret : ℤ
  mem : Memory
  taken : ℕ
  stop : List UInt8

/-- `vsnprintf_simple` with a buffer at the start of `buf`. -/
def vsnprintfSimple (buf : Memory) (size : ℕ) (fmt : List UInt8) (args : ℕ → Arg) : PrintfResult :=
  let r := vsnprintfLoop size args false fmt (⟨buf, 0⟩, 0)
  { ret := (BitVec.ofNat 32 r.1.1.pos).toInt
    mem := r.1.1.close size
    taken := r.1.2
    stop := r.2 }

/-! ## The switch -/

variable {size : ℕ} {args : ℕ → Arg}

lemma sendString_eq (s : Sink) (text : List UInt8) :
    sendString size s text = (text.takeWhile (· != 0)).foldl (Sink.send size) s := by
  induction text generalizing s with
  | nil => rfl
  | cons c text ih =>
    rw [sendString]
    split_ifs with hc
    · simp [hc]
    · rw [ih, takeWhile_cons_of_pos (by simpa using hc), foldl_cons]

lemma formatUint_eq (s : Sink) (v : BitVec 64) {base : ℕ} (hbase : 4 ≤ base) (upper : Bool) :
    formatUint size s v base upper = (numeralText base upper v.toNat).foldl (Sink.send size) s := by
  rw [formatUint]
  congr 1
  split_ifs with hv
  · rw [hv]
    rfl
  · have hne : v.toNat ≠ 0 := fun hzero => hv (BitVec.eq_of_toNat_eq hzero)
    rw [← map_reverse, reverse_scratch (by omega) (toNat_lt_pow v hbase) hne, numeralText]

/-- **The switch at a conversion character.** -/
lemma vsnprintfSwitch_char (spec : Spec) (s : Sink) (k : ℕ) :
    vsnprintfSwitch size args spec.char s k =
      ((spec.body true (args k)).foldl (Sink.send size) s, k + 1) := by
  have hint : (if (args k).word.slt 0 then
        (formatUint size (s.send size (chr '-')) (-(args k).word) 10 false, k + 1)
      else (formatUint size s (args k).word 10 false, k + 1)) =
        ((intText (args k).word.toInt).foldl (Sink.send size) s, k + 1) := by
    rw [intText_toInt, formatUint_eq _ _ (by decide), formatUint_eq _ _ (by decide)]
    split_ifs <;> rfl
  rw [vsnprintfSwitch, Spec.ofChar_char]
  cases spec with
  | s => simp only [sendString_eq, takeWhile_str, Spec.body]
  | c => rfl
  | d | i => simpa only [Spec.body, Arg.int, if_true] using hint
  | u => simp only [formatUint_eq _ _ (show 4 ≤ 10 by decide), Spec.body, Arg.nat, if_true]
  | x | X => simp only [formatUint_eq _ _ (show 4 ≤ 16 by decide), Spec.body, Arg.nat, if_true]
  | p => simp only [formatUint_eq _ _ (show 4 ≤ 16 by decide), Spec.body, foldl_cons]

/-! ## The loop -/

lemma vsnprintfLoop_percent {c : UInt8} (hc : c ≠ 0) (rest : List UInt8) (st : Sink × ℕ) :
    vsnprintfLoop size args false (chr '%' :: c :: rest) st =
      vsnprintfLoop size args false rest (vsnprintfSwitch size args c st.1 st.2) := by
  rw [vsnprintfLoop, if_neg (by decide), if_neg (not_not.mpr rfl), vsnprintfLoop, if_neg hc]

/-- **`vsnprintf_simple` knows the plain conversions**, except those with an `l`. -/
lemma plainFormatter_vsnprintf (size : ℕ) (args : ℕ → Arg) :
    PlainFormatter (Sink.send size) (vsnprintfLoop size args false) (fun _ => true) args
      (·.longs = 0) where
  lit c hc rest s k := by rw [vsnprintfLoop, if_neg hc.1, if_pos hc.2]
  percent rest s k := by
    have hnone : Spec.ofChar (chr '%') = none := by decide +kernel
    rw [vsnprintfLoop_percent (by decide), vsnprintfSwitch, hnone]
    rfl
  conv cv hcv hlongs rest s k := by
    rw [Conv.text_of_plain hcv, hlongs, replicate_zero, nil_append, cons_append,
      singleton_append, vsnprintfLoop_percent cv.spec.harmless_char.1, vsnprintfSwitch_char]
  modifier c hc rest s k := by
    rw [vsnprintfLoop_percent hc.harmless.1, vsnprintfSwitch, hc.ofChar_eq_none.1]
    simp only [if_neg hc.harmless.2]

/-- A buffer with the beginning of a text and a terminator, if it has any bytes. -/
def filled (buf : Memory) (size : ℕ) (text : List UInt8) : Memory :=
  if size = 0 then buf else lay buf (text.take (size - 1) ++ [0])

lemma filled_outside (buf : Memory) (text : List UInt8) {x : ℕ} (hx : size ≤ x) :
    filled buf size text x = buf x := by
  rw [filled]
  split_ifs with hsize
  · rfl
  · refine lay_outside ?_
    rw [length_append, length_take, length_singleton]
    omega

/-- A text is determined by what buffers of all sizes hold of it. -/
lemma eq_of_filled {text text' : List UInt8}
    (h : ∀ size, filled (fun _ => 7) size text = filled (fun _ => 7) size text') : text = text' := by
  -- no longer text has its last character where the other buffer is as it was
  have hle : ∀ {t t' : List UInt8},
      (∀ size, filled (fun _ => 7) size t = filled (fun _ => 7) size t') → t.length ≤ t'.length := by
    intro t t' h
    by_contra hlt
    have hbyte := congrFun (h (t.length + 1)) t.length
    rw [filled, filled, if_neg (by omega), if_neg (by omega), Nat.add_sub_cancel, take_length,
      take_of_length_le (by omega), lay_apply, lay_apply, length_append, length_append, if_pos (by simp),
      if_neg (by simpa using hlt), getD_append_right _ _ _ _ le_rfl, Nat.sub_self] at hbyte
    exact absurd hbyte (by decide)
  have hlen := le_antisymm (hle h) (hle fun size => (h size).symm)
  refine ext_getElem hlen fun i hi hi' => ?_
  have hbyte := congrFun (h (text.length + 1)) i
  rw [filled, filled, if_neg (by omega), if_neg (by omega), Nat.add_sub_cancel, take_length, hlen,
    take_length, lay_apply, lay_apply, length_append, length_append, if_pos (by simp; omega),
    if_pos (by simp; omega), getD_append _ _ _ _ hi, getD_append _ _ _ _ hi', getD_eq_getElem _ _ hi,
    getD_eq_getElem _ _ hi'] at hbyte
  exact hbyte

/-- **What `vsnprintf_simple` makes of a format.** -/
lemma vsnprintfSimple_eq {ps : List Piece} (hlongs : ∀ cv, .conv cv ∈ ps → cv.longs = 0)
    (behind : List UInt8) (buf : Memory) (size : ℕ) (args : ℕ → Arg) :
    vsnprintfSimple buf size (formatText ps ++ 0 :: behind) args =
      { ret := (BitVec.ofNat 32 (plainOutput (fun _ => true) args 0 ps).length).toInt
        mem := filled buf size (plainOutput (fun _ => true) args 0 ps)
        taken := plainCount ps
        stop := 0 :: behind } := by
  have hclose : ∀ text, (sent size buf text).close size = filled buf size text := by
    intro text
    rcases Nat.eq_zero_or_pos size with rfl | hsize
    · exact close_sent_zero buf text
    · rw [close_sent buf text hsize, filled, if_neg hsize.ne']
  rw [vsnprintfSimple, (plainFormatter_vsnprintf size args).run hlongs, ← sent_nil size buf, sendAll_sent,
    nil_append, Nat.zero_add, vsnprintfLoop, if_pos rfl, ← hclose]
  rfl

/-- **`vsnprintf_simple` on plain formats.**  For every format without flags, widths and `l`s, every buffer
and all arguments, it returns the length of the complete output, unless that is too large for an `int`,
stops at the terminator of the format, and has taken the arguments one after the other.  Nothing outside of
the buffer changes; a buffer of at least one byte holds the beginning of the output and a terminator. -/
theorem vsnprintfSimple_plain (ps : List Piece) (hplain : PlainFormat ps)
    (hlongs : ∀ cv, .conv cv ∈ ps → cv.longs = 0) (behind : List UInt8) (args : ℕ → Arg) (buf : Memory)
    (size : ℕ) :
    let complete := standardOutput (fun _ => true) args 0 ps
    let r := vsnprintfSimple buf size (formatText ps ++ 0 :: behind) args
    (complete.length < 2 ^ 31 → r.ret = complete.length) ∧
      (∀ x ≥ size, r.mem x = buf x) ∧
      (0 < size → r.mem = lay buf (complete.take (min complete.length (size - 1)) ++ [0])) ∧
      r.taken = convCount ps ∧ r.stop = 0 :: behind := by
  intro complete r
  have hr : r = _ := vsnprintfSimple_eq hlongs behind buf size args
  rw [plainOutput_eq _ _ hplain, (plainCount_le ps).2.mpr hplain] at hr
  rw [hr]
  refine ⟨fun hlen => ?_, fun x hx => filled_outside buf complete hx, fun hsize => ?_, rfl, rfl⟩
  · have hnat : (BitVec.ofNat 32 complete.length).toNat = complete.length := by
      rw [BitVec.toNat_ofNat, Nat.mod_eq_of_lt (by omega)]
    change (BitVec.ofNat 32 complete.length).toInt = _
    rw [BitVec.toInt_eq_toNat_of_lt (by omega), hnat]
  · rw [min_comm, ← take_take, take_length]
    exact if_neg hsize.ne'

/-- The least 64-bit number, of which four characters fit. -/
theorem vsnprintfSimple_plain_intMin :
    let r := vsnprintfSimple (fun _ => 7) 5 (ascii "%d" ++ [0]) fun _ => ⟨BitVec.intMin 64, []⟩
    r.ret = 20 ∧ r.mem = lay (fun _ => 7) (ascii "-922" ++ [0]) ∧ r.taken = 1 ∧ r.stop = [0] := by
  let cv : Conv := ⟨none, none, 0, .d⟩
  have hmem : ∀ cv', .conv cv' ∈ [Piece.conv cv] → cv' = cv := by simp
  obtain ⟨hret, -, hbuf, htaken, hstop⟩ := vsnprintfSimple_plain [.conv cv]
    (fun cv' h => by rw [hmem cv' h]; exact ⟨rfl, rfl⟩) (fun cv' h => by rw [hmem cv' h]) []
    (fun _ => ⟨BitVec.intMin 64, []⟩) (fun _ => 7) 5
  have hout : standardOutput (fun _ => true) (fun _ => ⟨BitVec.intMin 64, []⟩) 0 [.conv cv] =
      ascii "-9223372036854775808" := by decide +kernel
  have htext : ascii "%d" ++ [0] = formatText [.conv cv] ++ 0 :: [] := by decide +kernel
  rw [hout] at hret hbuf
  rw [htext]
  exact ⟨hret (by decide +kernel), hbuf (by decide), htaken, hstop⟩

end UserLib

end MyOs
