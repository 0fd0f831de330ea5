import Mathlib.Data.PNat.Basic
import MyOs.Base
import MyOs.Lib.Numerals

/-!
# Format strings

What a format string means.  A format is a list of pieces (`Piece`): characters that stand for themselves,
`%%`, and conversions with an optional flag, an optional width and a number of `l`s.  `formatText` is the
string they spell.

An argument is the 64-bit slot in which it is passed, together with the memory at that address for a `%s`.
`standardOutput` gives the conversions their arguments in order, and `Conv.render` is the standard
rendering of one of them: the numeral, character or string, padded to the width.

Without flags and widths nothing is padded (`Conv.render_plain`), and a formatter need not know them.
`PlainFormatter` says what the loop of such a formatter does with one piece, and
`PlainFormatter.run` what it then makes of a whole format: a conversion with a flag or a width is written
out as it stands and takes no argument.

A number without an `l` has 32 bits.  A formatter that reads all 64 bits of its slot shows another number,
unless the caller has extended it (`SlotsExtended`).
-/

namespace MyOs

open Lib List

/-! ## Formats -/

/-- The conversion characters. -/
inductive Spec
  | s | c | d | i | u | x | X | p
  deriving DecidableEq

def Spec.char : Spec → UInt8
  | .s => chr 's'
  | .c => chr 'c'
  | .d => chr 'd'
  | .i => chr 'i'
  | .u => chr 'u'
  | .x => chr 'x'
  | .X => chr 'X'
  | .p => chr 'p'

/-- The conversion a character stands for, as the label of a case in a switch. -/
def Spec.ofChar (ch : UInt8) : Option Spec :=
  if ch = chr 's' then some .s
  else if ch = chr 'c' then some .c
  else if ch = chr 'd' then some .d
  else if ch = chr 'i' then some .i
  else if ch = chr 'u' then some .u
  else if ch = chr 'x' then some .x
  else if ch = chr 'X' then some .X
  else if ch = chr 'p' then some .p
  else none

/-- Pad on the right, or with zeros. -/
inductive Flag
  | minus
  | zero
  deriving DecidableEq

def Flag.char : Flag → UInt8
  | .minus => chr '-'
  | .zero => chr '0'

/-- A conversion that takes an argument. -/
structure Conv where
  flag : Option Flag
  width : Option ℕ+
  longs : ℕ
  spec : Spec

/-- A piece of a format. -/
inductive Piece
  | lit (c : UInt8) (hc : c ≠ 0 ∧ c ≠ chr '%')
  | percent
  | conv (cv : Conv)

/-- A digit as it is written. -/
def digitChar (upper : Bool) (d : ℕ) : UInt8 :=
  if d < 10 then UInt8.ofNat (48 + d) else UInt8.ofNat ((if upper then 65 else 97) + (d - 10))

/-- The numeral of a number, without leading zeros. -/
def numeralText (base : ℕ) (upper : Bool) (v : ℕ) : List UInt8 := (numeral base v).map (digitChar upper)

/-- The flag and the width of a conversion. -/
def Conv.modifiers (cv : Conv) : List UInt8 :=
  (cv.flag.map Flag.char).toList ++ cv.width.elim [] fun w => numeralText 10 false w

def Conv.text (cv : Conv) : List UInt8 :=
  chr '%' :: (cv.modifiers ++ List.replicate cv.longs (chr 'l') ++ [cv.spec.char])

def Piece.text : Piece → List UInt8
  | .lit c _ => [c]
  | .percent => [chr '%', chr '%']
  | .conv cv => cv.text

/-- The format string, without its terminator. -/
def formatText (ps : List Piece) : List UInt8 := ps.flatMap Piece.text

/-- A conversion without flag and width. -/
def Conv.Plain (cv : Conv) : Prop := cv.flag = none ∧ cv.width = none

instance (cv : Conv) : Decidable cv.Plain := inferInstanceAs (Decidable (_ ∧ _))

/-- No conversion of the format has a flag or a width. -/
def PlainFormat (ps : List Piece) : Prop := ∀ cv, .conv cv ∈ ps → cv.Plain

/-- How many conversions take an argument. -/
def convCount : List Piece → ℕ
  | [] => 0
  | .conv _ :: ps => convCount ps + 1
  | .lit _ _ :: ps => convCount ps
  | .percent :: ps => convCount ps

/-! ## Their meaning -/

/-- The slot of an argument, and the memory from that address on. -/
structure Arg where
  word : BitVec 64
  text : List UInt8

/-- The string an argument points to. -/
def Arg.str (a : Arg) : List UInt8 := if a.word = 0 then ascii "(null)" else a.text.takeWhile (· != 0)

/-- The signed number in a slot, of 64 or 32 bits. -/
def Arg.int (long : Bool) (a : Arg) : ℤ := if long then a.word.toInt else (a.word.setWidth 32).toInt

/-- The unsigned number in a slot, of 64 or 32 bits. -/
def Arg.nat (long : Bool) (a : Arg) : ℕ := if long then a.word.toNat else (a.word.setWidth 32).toNat

/-- The numeral of an integer. -/
def intText (v : ℤ) : List UInt8 :=
  if v < 0 then chr '-' :: numeralText 10 false v.natAbs else numeralText 10 false v.natAbs

/-- What a conversion shows of its argument. -/
def Spec.body (long : Bool) (a : Arg) : Spec → List UInt8
  | .s => a.str
  | .c => [UInt8.ofBitVec (a.word.setWidth 8)]
  | .d | .i => intText (a.int long)
  | .u => numeralText 10 false (a.nat long)
  | .x => numeralText 16 false (a.nat long)
  | .X => numeralText 16 true (a.nat long)
  | .p => chr '0' :: chr 'x' :: numeralText 16 false a.word.toNat

/-- What stands before the zeros of a padded number: a sign, or `0x`; `none` for what is not padded with
zeros. -/
def Spec.lead (long : Bool) (a : Arg) : Spec → Option ℕ
  | .s | .c => none
  | .d | .i => some (if a.int long < 0 then 1 else 0)
  | .u | .x | .X => some 0
  | .p => some 2

/-- Pad a text to a width. -/
def pad (flag : Option Flag) (lead : Option ℕ) (width : ℕ) (body : List UInt8) : List UInt8 :=
  match flag, lead with
  | some .minus, _ => body ++ List.replicate (width - body.length) (chr ' ')
  | some .zero, some n => body.take n ++ List.replicate (width - body.length) (chr '0') ++ body.drop n
  | _, _ => List.replicate (width - body.length) (chr ' ') ++ body

/-- **The standard rendering of a conversion.** -/
def Conv.render (long : Bool) (a : Arg) (cv : Conv) : List UInt8 :=
  pad cv.flag (cv.spec.lead long a) (cv.width.elim 0 fun w => w) (cv.spec.body long a)

/-- The output of a format from its piece on that takes argument `k`; `long` says which conversions take
64 bits. -/
def standardOutput (long : Conv → Bool) (args : ℕ → Arg) : ℕ → List Piece → List UInt8
  | _, [] => []
  | k, .lit c _ :: ps => c :: standardOutput long args k ps
  | k, .percent :: ps => chr '%' :: standardOutput long args k ps
  | k, .conv cv :: ps => cv.render (long cv) (args k) ++ standardOutput long args (k + 1) ps

/-! ## What is left of it without flags and widths -/

/-- The output of a formatter that knows no flags and widths, and writes out a conversion with one as it
stands. -/
def plainOutput (long : Conv → Bool) (args : ℕ → Arg) : ℕ → List Piece → List UInt8
  | _, [] => []
  | k, .lit c _ :: ps => c :: plainOutput long args k ps
  | k, .percent :: ps => chr '%' :: plainOutput long args k ps
  | k, .conv cv :: ps =>
    if cv.Plain then cv.spec.body (long cv) (args k) ++ plainOutput long args (k + 1) ps
    else cv.text ++ plainOutput long args k ps

/-- How many arguments such a formatter takes. -/
def plainCount : List Piece → ℕ
  | [] => 0
  | .conv cv :: ps => if cv.Plain then plainCount ps + 1 else plainCount ps
  | .lit _ _ :: ps => plainCount ps
  | .percent :: ps => plainCount ps

/-! ## Lemmas -/

variable {cv : Conv} {ps : List Piece} {c : UInt8}

lemma Conv.render_plain (h : cv.Plain) (long : Bool) (a : Arg) :
    cv.render long a = cv.spec.body long a := by
  rw [Conv.render, h.1, h.2]
  simp [pad]

lemma toNat_lt_pow (v : BitVec 64) {base : ℕ} (hbase : 4 ≤ base) : v.toNat < base ^ 32 :=
  calc v.toNat < 2 ^ 64 := v.isLt
    _ = 4 ^ 32 := by decide
    _ ≤ base ^ 32 := Nat.pow_le_pow_left hbase 32

/-- The numeral of a signed number: the sign, and the numeral of what two's complement makes of `-v`. -/
lemma intText_toInt (v : BitVec 64) :
    intText v.toInt =
      if v.slt 0 then chr '-' :: numeralText 10 false (-v).toNat else numeralText 10 false v.toNat := by
  have hlt := v.isLt
  have hslt : v.slt 0 = true ↔ v.toInt < 0 := by
    rw [BitVec.slt, decide_eq_true_eq]
    rfl
  have hneg : v.toInt < 0 → v.toInt.natAbs = (-v).toNat := by
    intro h
    rw [BitVec.toInt_eq_toNat_cond] at h ⊢
    rw [BitVec.toNat_neg]
    split_ifs at h ⊢ <;> omega
  have hpos : ¬ v.toInt < 0 → v.toInt.natAbs = v.toNat := by
    intro h
    rw [BitVec.toInt_eq_toNat_cond] at h ⊢
    split_ifs at h ⊢ <;> omega
  rw [intText]
  by_cases h : v.toInt < 0
  · rw [if_pos h, if_pos (hslt.mpr h), hneg h]
  · rw [if_neg h, if_neg (mt hslt.mp h), hpos h]

lemma takeWhile_str (a : Arg) :
    (if a.word = 0 then ascii "(null)" else a.text).takeWhile (· != 0) = a.str := by
  rw [Arg.str]
  split_ifs
  · decide +kernel
  · rfl

lemma plainFormat_cons {piece : Piece} (h : PlainFormat (piece :: ps)) :
    PlainFormat ps := fun cv hcv => h cv (mem_cons_of_mem _ hcv)

lemma plainOutput_eq (long : Conv → Bool) (args : ℕ → Arg) (h : PlainFormat ps) :
    ∀ k, plainOutput long args k ps = standardOutput long args k ps := by
  induction ps with
  | nil => exact fun k => rfl
  | cons piece ps ih =>
    have ih := ih (plainFormat_cons h)
    intro k
    cases piece with
    | lit c hc => rw [plainOutput, standardOutput, ih]
    | percent => rw [plainOutput, standardOutput, ih]
    | conv cv =>
      have hcv := h cv mem_cons_self
      rw [plainOutput, standardOutput, if_pos hcv, Conv.render_plain hcv, ih]

/-- It takes an argument for every conversion exactly if none has a flag or a width. -/
lemma plainCount_le (ps : List Piece) :
    plainCount ps ≤ convCount ps ∧ (plainCount ps = convCount ps ↔ PlainFormat ps) := by
  induction ps with
  | nil => exact ⟨le_rfl, iff_of_true rfl fun cv hcv => absurd hcv not_mem_nil⟩
  | cons piece ps ih =>
    cases piece with
    | lit c hc | percent => simpa [plainCount, convCount, PlainFormat] using ih
    | conv cv =>
      rw [plainCount, convCount]
      split_ifs with hcv
      · refine ⟨Nat.succ_le_succ ih.1, ?_⟩
        rw [Nat.succ_inj, ih.2]
        simp [PlainFormat, hcv]
      · refine ⟨ih.1.trans (Nat.le_succ _), iff_of_false (by omega) ?_⟩
        exact fun h => hcv (h cv mem_cons_self)

lemma Conv.modifiers_eq_nil : cv.modifiers = [] ↔ cv.Plain := by
  have hwidth : ∀ w : ℕ+, numeralText 10 false w ≠ [] := by
    intro w
    rw [numeralText, ne_eq, map_eq_nil_iff]
    exact numeral_ne_nil 10 w
  cases hf : cv.flag <;> cases hw : cv.width <;> simp [Conv.modifiers, Conv.Plain, hf, hw, hwidth]

/-- The characters of a conversion that do not start one: everything behind its `%`. -/
def Harmless (c : UInt8) : Prop := c ≠ 0 ∧ c ≠ chr '%'

/-- The first character of a flag or width: no conversion character, and no `l`. -/
def IsModifier (c : UInt8) : Prop := c = chr '-' ∨ (chr '0' ≤ c ∧ c ≤ chr '9')

instance (c : UInt8) : Decidable (IsModifier c) := inferInstanceAs (Decidable (_ ∨ _))

instance (c : UInt8) : Decidable (Harmless c) := inferInstanceAs (Decidable (_ ∧ _))

lemma IsModifier.harmless (h : IsModifier c) : Harmless c := by
  have hall : ∀ n < 256, IsModifier (UInt8.ofNat n) → Harmless (UInt8.ofNat n) := by decide +kernel
  have := hall c.toNat c.toNat_lt
  rw [UInt8.ofNat_toNat] at this
  exact this h

@[simp] lemma Spec.ofChar_char (spec : Spec) : Spec.ofChar spec.char = some spec := by
  cases spec <;> decide +kernel

lemma IsModifier.ofChar_eq_none (h : IsModifier c) : Spec.ofChar c = none ∧ c ≠ chr 'l' := by
  have hall : ∀ n < 256, IsModifier (UInt8.ofNat n) →
      Spec.ofChar (UInt8.ofNat n) = none ∧ UInt8.ofNat n ≠ chr 'l' := by decide +kernel
  have := hall c.toNat c.toNat_lt
  rw [UInt8.ofNat_toNat] at this
  exact this h

lemma isModifier_digitChar {d : ℕ} (hd : d < 10) : IsModifier (digitChar false d) := by
  have hall : ∀ d < 10, IsModifier (digitChar false d) := by decide +kernel
  exact hall d hd

lemma Conv.isModifier_of_mem (h : c ∈ cv.modifiers) : IsModifier c := by
  rw [Conv.modifiers, mem_append] at h
  rcases h with h | h
  · cases hf : cv.flag with
    | none => simp [hf] at h
    | some flag =>
      have hc : c = flag.char := by simpa [hf] using h
      rw [hc]
      cases flag <;> decide
  · cases hw : cv.width with
    | none => simp [hw] at h
    | some w =>
      have hc : c ∈ numeralText 10 false w := by simpa [hw] using h
      obtain ⟨d, hd, rfl⟩ := mem_map.mp hc
      exact isModifier_digitChar (lt_of_mem_numeral (by decide) hd)

lemma Spec.harmless_char (spec : Spec) : Harmless spec.char := by
  cases spec <;> decide

lemma Spec.char_ne_l (spec : Spec) : spec.char ≠ chr 'l' := by
  cases spec <;> decide

lemma Conv.harmless_of_mem (cv : Conv)
    (h : c ∈ cv.modifiers ++ replicate cv.longs (chr 'l') ++ [cv.spec.char]) : Harmless c := by
  simp only [mem_append, mem_replicate, mem_singleton] at h
  rcases h with (h | ⟨-, rfl⟩) | rfl
  · exact (Conv.isModifier_of_mem h).harmless
  · decide
  · exact Spec.harmless_char _

lemma Conv.text_of_not_plain (h : ¬ cv.Plain) :
    ∃ c rest, cv.text = chr '%' :: c :: rest ∧ IsModifier c ∧ ∀ d ∈ rest, Harmless d := by
  cases hm : cv.modifiers with
  | nil => exact absurd (Conv.modifiers_eq_nil.mp hm) h
  | cons c ms =>
    refine ⟨c, ms ++ replicate cv.longs (chr 'l') ++ [cv.spec.char], ?_, ?_, ?_⟩
    · rw [Conv.text, hm]
      rfl
    · exact Conv.isModifier_of_mem (hm ▸ mem_cons_self)
    · intro d hd
      refine cv.harmless_of_mem ?_
      rw [hm]
      exact mem_cons_of_mem c hd

lemma Conv.text_of_plain (h : cv.Plain) :
    cv.text = chr '%' :: (replicate cv.longs (chr 'l') ++ [cv.spec.char]) := by
  rw [Conv.text, Conv.modifiers_eq_nil.mpr h, nil_append]

/-! ## Arguments of 32 bits in slots of 64 -/

/-- The 64 bits in the slot of a number are the number of 32 bits that was passed, extended. -/
def Spec.Extended (a : Arg) : Spec → Prop
  | .d | .i => a.int true = a.int false
  | .u | .x | .X => a.nat true = a.nat false
  | .s | .c | .p => True

/-- So are the slots of all numbers, from the piece on that takes argument `k`. -/
def SlotsExtended (args : ℕ → Arg) : ℕ → List Piece → Prop
  | _, [] => True
  | k, .lit _ _ :: ps => SlotsExtended args k ps
  | k, .percent :: ps => SlotsExtended args k ps
  | k, .conv cv :: ps => cv.spec.Extended (args k) ∧ SlotsExtended args (k + 1) ps

lemma numeralText_inj {base : ℕ} (hbase : 1 < base ∧ base ≤ 16) {upper : Bool} {v w : ℕ} :
    numeralText base upper v = numeralText base upper w ↔ v = w := by
  -- the value of a digit that was written
  let digit : UInt8 → ℕ := fun c =>
    if c.toNat < 58 then c.toNat - 48 else c.toNat - if upper then 55 else 87
  have hdigit : ∀ d < 16, digit (digitChar upper d) = d := by
    cases upper <;> decide +kernel
  have hnumeral : ∀ v, (numeralText base upper v).map digit = numeral base v := by
    intro v
    rw [numeralText, map_map]
    conv_rhs => rw [← map_id (numeral base v)]
    exact map_congr_left fun d hd =>
      hdigit d ((lt_of_mem_numeral hbase.1 hd).trans_le hbase.2)
  refine ⟨fun h => ?_, fun h => by rw [h]⟩
  rw [← numeralValue_numeral base v, ← hnumeral v, h, hnumeral w, numeralValue_numeral]

lemma minus_ne_digits {v : ℕ} {text : List UInt8} : chr '-' :: text ≠ numeralText 10 false v := by
  intro h
  have hmem : chr '-' ∈ numeralText 10 false v := h ▸ mem_cons_self
  obtain ⟨d, hd, hchar⟩ := mem_map.mp hmem
  have hall : ∀ d < 10, digitChar false d ≠ chr '-' := by decide +kernel
  exact hall d (lt_of_mem_numeral (by decide) hd) hchar

lemma intText_inj {v w : ℤ} : intText v = intText w ↔ v = w := by
  refine ⟨fun h => ?_, fun h => by rw [h]⟩
  rw [intText, intText] at h
  split_ifs at h
  · have := (numeralText_inj (by decide)).mp (cons.inj h).2
    omega
  · exact absurd h minus_ne_digits
  · exact absurd h.symm minus_ne_digits
  · have := (numeralText_inj (by decide)).mp h
    omega

lemma Spec.body_eq_iff (spec : Spec) (a : Arg) :
    spec.body true a = spec.body false a ↔ spec.Extended a := by
  cases spec with
  | d | i => exact intText_inj
  | u | x | X => exact numeralText_inj (by decide)
  | s | c | p => exact iff_of_true rfl trivial

/-- A plain format has the same output for slots read as 64 and as 32 bits, conversion by conversion, if and
only if the slots are extended. -/
lemma standardOutput_eq_iff {long : Conv → Bool} {args : ℕ → Arg} (hplain : PlainFormat ps)
    (hlong : ∀ cv, .conv cv ∈ ps → long cv = false) (k : ℕ) :
    (∀ pre, pre <+: ps → standardOutput (fun _ => true) args k pre = standardOutput long args k pre) ↔
      SlotsExtended args k ps := by
  induction ps generalizing k with
  | nil =>
    refine iff_of_true (fun pre hpre => ?_) trivial
    rw [prefix_nil.mp hpre]
    rfl
  | cons piece ps ih =>
    have ih := ih (plainFormat_cons hplain) fun cv hcv => hlong cv (mem_cons_of_mem _ hcv)
    -- the prefixes are the empty one and those that start with the piece
    have hsplit : ∀ P : List Piece → Prop, (∀ pre, pre <+: piece :: ps → P pre) ↔
        P [] ∧ ∀ pre, pre <+: ps → P (piece :: pre) := by
      intro P
      constructor
      · exact fun h => ⟨h [] nil_prefix, fun pre hpre => h _ (cons_prefix_cons.mpr ⟨rfl, hpre⟩)⟩
      · rintro ⟨hnil, hcons⟩ pre hpre
        rcases prefix_cons_iff.mp hpre with rfl | ⟨pre', rfl, hpre'⟩
        · exact hnil
        · exact hcons pre' hpre'
    rw [hsplit, and_iff_right (by rfl)]
    cases piece with
    | lit c hc => simpa only [standardOutput, cons.injEq, true_and, SlotsExtended] using ih k
    | percent => simpa only [standardOutput, cons.injEq, true_and, SlotsExtended] using ih k
    | conv cv =>
      have hcv := hplain cv mem_cons_self
      simp only [standardOutput, Conv.render_plain hcv, hlong cv mem_cons_self, SlotsExtended,
        ← ih (k + 1), ← Spec.body_eq_iff]
      constructor
      · intro h
        have hbody : cv.spec.body true (args k) = cv.spec.body false (args k) := by
          simpa [standardOutput] using h [] nil_prefix
        refine ⟨hbody, fun pre hpre => ?_⟩
        have hpre := h pre hpre
        rw [hbody] at hpre
        exact append_cancel_left hpre
      · rintro ⟨hbody, hrest⟩ pre hpre
        rw [hbody, hrest pre hpre]

/-! ## A formatter that knows no flags and widths -/

section

variable {σ ρ : Type} {emit : σ → UInt8 → σ} {loop : List UInt8 → σ × ℕ → ρ} {long : Conv → Bool}
  {args : ℕ → Arg} {Reads : Conv → Prop}

/-- What the loop of such a formatter does with the beginning of its format.  It has an output and the
number of arguments taken, `emit` is one character of output, and `Reads` says which plain conversions it
knows. -/
structure PlainFormatter (emit : σ → UInt8 → σ) (loop : List UInt8 → σ × ℕ → ρ) (long : Conv → Bool)
    (args : ℕ → Arg) (Reads : Conv → Prop) : Prop where
  lit : ∀ (c : UInt8), Harmless c → ∀ rest s k, loop (c :: rest) (s, k) = loop rest (emit s c, k)
  percent : ∀ rest s k, loop (chr '%' :: chr '%' :: rest) (s, k) = loop rest (emit s (chr '%'), k)
  conv : ∀ cv, cv.Plain → Reads cv → ∀ rest s k,
    loop (cv.text ++ rest) (s, k) = loop rest ((cv.spec.body (long cv) (args k)).foldl emit s, k + 1)
  modifier : ∀ (c : UInt8), IsModifier c → ∀ rest s k,
    loop (chr '%' :: c :: rest) (s, k) = loop rest (emit (emit s (chr '%')) c, k)

namespace PlainFormatter

lemma literals (h : PlainFormatter emit loop long args Reads) {text : List UInt8}
    (htext : ∀ c ∈ text, Harmless c) (rest : List UInt8) (s : σ) (k : ℕ) :
    loop (text ++ rest) (s, k) = loop rest (text.foldl emit s, k) := by
  induction text generalizing s with
  | nil => rfl
  | cons c text ih =>
    rw [cons_append, h.lit c (htext c mem_cons_self), foldl_cons]
    exact ih (fun d hd => htext d (mem_cons_of_mem _ hd)) (emit s c)

lemma flagged (h : PlainFormatter emit loop long args Reads) (hcv : ¬ cv.Plain) (rest : List UInt8)
    (s : σ) (k : ℕ) : loop (cv.text ++ rest) (s, k) = loop rest (cv.text.foldl emit s, k) := by
  obtain ⟨c, text, htext, hc, hharmless⟩ := Conv.text_of_not_plain hcv
  rw [htext, cons_append, cons_append, h.modifier c hc, h.literals hharmless]
  rfl

/-- **What such a formatter makes of a format**: it writes `plainOutput`, and takes `plainCount`
arguments. -/
lemma run (h : PlainFormatter emit loop long args Reads) (hreads : ∀ cv, .conv cv ∈ ps → Reads cv)
    (rest : List UInt8) (s : σ) (k : ℕ) : loop (formatText ps ++ rest) (s, k) =
      loop rest ((plainOutput long args k ps).foldl emit s, k + plainCount ps) := by
  induction ps generalizing s k with
  | nil => rfl
  | cons piece ps ih =>
    have ih := ih fun cv hcv => hreads cv (mem_cons_of_mem _ hcv)
    rw [formatText, flatMap_cons, ← formatText, append_assoc]
    cases piece with
    | lit c hc =>
      rw [Piece.text, singleton_append, h.lit c hc, ih, plainOutput, plainCount, foldl_cons]
    | percent =>
      rw [Piece.text, cons_append, singleton_append, h.percent, ih, plainOutput, plainCount, foldl_cons]
    | conv cv =>
      rw [Piece.text, plainOutput, plainCount]
      split_ifs with hcv
      · rw [h.conv cv hcv (hreads cv mem_cons_self), ih, foldl_append, Nat.add_assoc, Nat.add_comm 1]
      · rw [h.flagged hcv, ih, foldl_append]

end PlainFormatter

end

end MyOs
