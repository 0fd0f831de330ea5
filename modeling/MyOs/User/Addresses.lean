import Mathlib
import MyOs.Base
import MyOs.Lib.CStrings
import MyOs.Lib.Numerals
import MyOs.Lib.TextBuffers

/-!
# IPv4 addresses as text

`parse_ipv4` and `format_ipv4` of `init.c`.  The parser gets a pointer in the sense of `Lib.CStrings` and
records every character it reads; the formatter writes through `Lib.Sink`.

* `parsePart_eq` is the digit loop of `parse_ipv4`: before a turn the value is at most 255, so that the
  32-bit arithmetic is exact.
* `parseIpv4Loop_iff` compares the loop over the parts with `DottedParts`, texts of numbers separated by
  dots, and `parseIpv4Loop_inside` says that it stops at the terminator.
* `formatIpv4_eq` is what a buffer of 16 bytes or more holds after `format_ipv4`.
-/

namespace MyOs

open Lib List Traced

namespace UserInit

/-! ## Reading them -/

def isDigit (c : UInt8) : Bool := chr '0' ≤ c && c ≤ chr '9'

/-- The digit loop of `parse_ipv4`: the value and where it ends, or `none` if the value is too large. -/
def parsePart : UInt32 → List UInt8 → Traced ℕ (Option (UInt32 × List UInt8))
  | value, [] => do
    let _ ← deref []
    pure (some (value, []))
  | value, c :: p => do
    let d ← deref (c :: p)
    if isDigit d then
      let value := value * 10 + (d - chr '0').toUInt32
      if value > 255 then pure none else parsePart value p
    else pure (some (value, c :: p))

/-- The loop of `parse_ipv4` over the parts, of which `left` are still to come. -/
def parseIpv4Loop : (left : ℕ) → (parts : List UInt32) → List UInt8 → Traced ℕ (Option (List UInt32))
  | 0, parts, _ => pure (some parts)
  | left + 1, parts, p => do
    let c ← deref p
    if isDigit c then
      let part ← parsePart 0 p
      match part with
      | none => pure none
      | some (value, p) => do
        let c ← deref p
        if left ≠ 0 then
          if c ≠ chr '.' then pure none else parseIpv4Loop left (parts ++ [value]) p.tail
        else if c ≠ 0 then pure none
        else parseIpv4Loop left (parts ++ [value]) p
    else pure none

/-- `parts[0] << 24 | parts[1] << 16 | parts[2] << 8 | parts[3]` -/
def joinParts (parts : List UInt32) : UInt32 :=
  parts.getD 0 0 <<< 24 ||| parts.getD 1 0 <<< 16 ||| parts.getD 2 0 <<< 8 ||| parts.getD 3 0

/-- `parse_ipv4`: the return value and `*out`. -/
def parseIpv4 (s : Option (List UInt8)) (out : Option UInt32) : Traced ℕ (ℤ × Option UInt32) :=
  match s, out with
  | some p, some old => do
    let parts ← parseIpv4Loop 4 [] p
    match parts with
    | none => pure (0, some old)
    | some parts => pure (1, some (joinParts parts))
  | _, out => pure (0, out)

/-- The value of a digit. -/
def digitValue (c : UInt8) : ℕ := c.toNat - 48

/-- The number that a text of digits stands for. -/
def decimalValue (text : List UInt8) : ℕ := numeralValue 10 (text.map digitValue)

/-- A part of an address: digits, any number of leading zeros, and a value of a byte. -/
structure IsPart (text : List UInt8) : Prop where
  ne_nil : text ≠ []
  digits : ∀ c ∈ text, isDigit c = true
  value_le : decimalValue text ≤ 255

instance (text : List UInt8) : Decidable (IsPart text) :=
  decidable_of_iff (text ≠ [] ∧ (∀ c ∈ text, isDigit c = true) ∧ decimalValue text ≤ 255)
    ⟨fun h => ⟨h.1, h.2.1, h.2.2⟩, fun h => ⟨h.ne_nil, h.digits, h.value_le⟩⟩

/-- Parts separated by dots, with their values. -/
def DottedParts : List UInt8 → List ℕ → Prop
  | _, [] => False
  | s, [v] => IsPart s ∧ decimalValue s = v
  | s, v :: vs => ∃ text rest, s = text ++ chr '.' :: rest ∧ IsPart text ∧ decimalValue text = v ∧
      DottedParts rest vs

/-- The text of an address: four parts, the first one in the top byte. -/
def IsIpv4Text (s : List UInt8) (addr : ℕ) : Prop :=
  ∃ a b c d, s = a ++ chr '.' :: (b ++ chr '.' :: (c ++ chr '.' :: d)) ∧
    IsPart a ∧ IsPart b ∧ IsPart c ∧ IsPart d ∧
    addr = decimalValue a * 2 ^ 24 + decimalValue b * 2 ^ 16 + decimalValue c * 2 ^ 8 + decimalValue d

lemma isDigit_iff (c : UInt8) : isDigit c = true ↔ 48 ≤ c.toNat ∧ c.toNat ≤ 57 := by
  rw [isDigit, Bool.and_eq_true, decide_eq_true_eq, decide_eq_true_eq, UInt8.le_iff_toNat_le,
    UInt8.le_iff_toNat_le]
  rfl

lemma decimalValue_concat (text : List UInt8) (c : UInt8) :
    decimalValue (text ++ [c]) = decimalValue text * 10 + digitValue c := by
  rw [decimalValue, map_append, map_singleton, numeralValue_concat, decimalValue]

lemma ofNat_step (v : ℕ) {c : UInt8} (hc : isDigit c = true) :
    UInt32.ofNat v * 10 + (c - chr '0').toUInt32 = UInt32.ofNat (v * 10 + digitValue c) := by
  have hsub : (c - chr '0').toUInt32 = UInt32.ofNat (digitValue c) := by
    have hle : chr '0' ≤ c := by
      rw [isDigit, Bool.and_eq_true, decide_eq_true_eq] at hc
      exact hc.1
    apply UInt32.toNat_inj.mp
    rw [UInt8.toNat_toUInt32, UInt8.toNat_sub_of_le _ _ hle, UInt32.toNat_ofNat_of_lt']
    · rfl
    · have := c.toNat_lt
      simp only [digitValue, UInt32.size]
      omega
  rw [hsub, UInt32.ofNat_add, UInt32.ofNat_mul]
  rfl

lemma parsePart_cons (value : UInt32) (c : UInt8) (p : List UInt8) :
    parsePart value (c :: p) =
      (deref (c :: p) >>= fun _ =>
        if isDigit c then
          if value * 10 + (c - chr '0').toUInt32 > 255 then pure none
          else parsePart (value * 10 + (c - chr '0').toUInt32) p
        else pure (some (value, c :: p))) := rfl

/-- **The digit loop.**  After `done`, it reads the digits up to the next other character, and gives up
exactly if their value exceeds 255. -/
lemma parsePart_eq {text rest : List UInt8} (hdigits : ∀ c ∈ text, isDigit c = true)
    (hrest : isDigit (rest.headD 0) = false) :
    ∀ done : List UInt8, decimalValue done ≤ 255 →
      (parsePart (UInt32.ofNat (decimalValue done)) (text ++ rest)).val =
        if decimalValue (done ++ text) ≤ 255 then
          some (UInt32.ofNat (decimalValue (done ++ text)), rest)
        else none := by
  induction text with
  | nil =>
    intro done hdone
    rw [append_nil, if_pos hdone, nil_append]
    cases rest with
    | nil => rfl
    | cons c rest =>
      have hc : isDigit c = false := hrest
      simp [parsePart_cons, hc]
  | cons c text ih =>
    intro done hdone
    have hc := hdigits c mem_cons_self
    have hbound := (isDigit_iff c).mp hc
    have hstep := ofNat_step (decimalValue done) hc
    rw [← decimalValue_concat] at hstep
    have hsmall : decimalValue (done ++ [c]) < UInt32.size := by
      rw [decimalValue_concat, digitValue, UInt32.size]
      omega
    have hcmp : UInt32.ofNat (decimalValue (done ++ [c])) > 255 ↔ 255 < decimalValue (done ++ [c]) := by
      rw [gt_iff_lt, UInt32.lt_iff_toNat_lt, UInt32.toNat_ofNat_of_lt' hsmall]
      rfl
    simp only [cons_append, parsePart_cons, val_bind, hc, if_true, val_ite, hstep, hcmp, val_pure]
    rw [append_cons done c text]
    split_ifs with hlarge hle hle
    · -- more digits do not make it smaller
      have := numeralValue_le_append (b := 10) (by decide) ((done ++ [c]).map digitValue)
        (text.map digitValue)
      rw [← map_append] at this
      exact absurd (this.trans hle) (by simpa [decimalValue] using hlarge)
    · rfl
    · rw [ih (fun c hc => hdigits c (mem_cons_of_mem _ hc)) _ (not_lt.mp hlarge), if_pos hle]
    · rw [ih (fun c hc => hdigits c (mem_cons_of_mem _ hc)) _ (not_lt.mp hlarge), if_neg hle]

lemma parsePart_inside {behind : List UInt8} :
    ∀ (p : List UInt8) (value : UInt32), PointsInto behind p →
      (parsePart value p).All (InString behind) ∧
        ∀ r, (parsePart value p).val = some r → PointsInto behind r.2 := by
  intro p
  induction p with
  | nil =>
    intro value hp
    exact absurd hp.length_lt (Nat.not_lt_zero _)
  | cons c p ih =>
    intro value hp
    by_cases hc : isDigit c = true
    · have hne : c ≠ 0 := by
        rintro rfl
        exact absurd hc (by decide)
      obtain ⟨hall, hend⟩ := ih (value * 10 + (c - chr '0').toUInt32) (hp.tail hne)
      simp only [parsePart_cons, hc, if_true, all_bind, all_deref, all_ite, val_bind, val_ite]
      refine ⟨⟨hp.length_lt, ?_⟩, ?_⟩
      · split_ifs
        · exact all_pure _
        · exact hall
      · intro r hr
        split_ifs at hr
        exact hend r hr
    · simp only [parsePart_cons, hc, all_bind, all_deref, val_bind, if_false, Bool.false_eq_true]
      refine ⟨⟨hp.length_lt, all_pure _⟩, ?_⟩
      rintro r hr
      cases hr
      exact hp

lemma parseIpv4Loop_inside {behind : List UInt8} :
    ∀ (left : ℕ) (parts : List UInt32) (p : List UInt8), PointsInto behind p →
      (parseIpv4Loop left parts p).All (InString behind) := by
  intro left
  induction left with
  | zero => exact fun parts p _ => all_pure _
  | succ left ih =>
    intro parts p hp
    obtain ⟨hall, hend⟩ := parsePart_inside p 0 hp
    rw [parseIpv4Loop, all_bind, all_deref]
    refine ⟨hp.length_lt, ?_⟩
    by_cases hdigit : isDigit (deref p).val = true
    · rw [if_pos hdigit]
      rw [all_bind]
      refine ⟨hall, ?_⟩
      cases hval : (parsePart 0 p).val with
      | none => exact all_pure _
      | some r =>
        have hr := hend r hval
        simp only [all_bind, all_deref, all_ite, val_deref]
        refine ⟨hr.length_lt, ?_⟩
        split_ifs with _ hdot
        · exact all_pure _
        · refine ih _ _ (hr.tail ?_)
          rw [not_not.mp hdot]
          decide
        · exact all_pure _
        · exact ih _ _ hr
    · rw [if_neg hdigit]
      exact all_pure _

lemma parseIpv4Loop_succ {text : List UInt8} (rest behind : List UInt8) (hdigits : ∀ c ∈ text, isDigit c = true)
    (hrest : isDigit (rest.headD 0) = false) (hzero : ∀ c ∈ rest, c ≠ 0) (left : ℕ)
    (parts : List UInt32) :
    (parseIpv4Loop (left + 1) parts (text ++ (rest ++ 0 :: behind))).val =
      if IsPart text then
        if left ≠ 0 then
          if rest.head? = some (chr '.') then
            (parseIpv4Loop left (parts ++ [UInt32.ofNat (decimalValue text)])
              (rest.tail ++ 0 :: behind)).val
          else none
        else if rest = [] then some (parts ++ [UInt32.ofNat (decimalValue text)])
        else none
      else none := by
  have hhead : isDigit ((rest ++ 0 :: behind).headD 0) = false := by
    cases rest with
    | nil => rfl
    | cons c rest => exact hrest
  have hpart : (parsePart 0 (text ++ (rest ++ 0 :: behind))).val =
      if decimalValue text ≤ 255 then some (UInt32.ofNat (decimalValue text), rest ++ 0 :: behind)
      else none := parsePart_eq hdigits hhead [] (by decide)
  cases text with
  | nil =>
    have hno : ¬ IsPart [] := fun h => h.ne_nil rfl
    rw [if_neg hno, nil_append, parseIpv4Loop, val_bind, val_deref, hhead]
    rfl
  | cons d text =>
    have hd : isDigit d = true := hdigits d mem_cons_self
    have hiff : IsPart (d :: text) ↔ decimalValue (d :: text) ≤ 255 :=
      ⟨IsPart.value_le, fun h => ⟨cons_ne_nil _ _, hdigits, h⟩⟩
    simp only [parseIpv4Loop, val_bind, val_deref, cons_append, headD_cons, hd, if_true]
    rw [cons_append] at hpart
    rw [hpart]
    by_cases hle : decimalValue (d :: text) ≤ 255
    · rw [if_pos hle, if_pos (hiff.mpr hle)]
      simp only [val_bind, val_deref, val_ite, val_pure]
      cases rest with
      | nil =>
        cases left with
        | zero => simp [parseIpv4Loop]
        | succ left =>
          have : (0 : UInt8) ≠ chr '.' := by decide
          simp [this]
      | cons c rest =>
        have hc : c ≠ 0 := hzero c mem_cons_self
        cases left with
        | zero => simp [hc]
        | succ left =>
          by_cases hdot : c = chr '.'
          · simp [hdot]
          · simp [hdot]
    · rw [if_neg hle, if_neg (mt hiff.mp hle)]
      rfl

lemma exists_digits (s : List UInt8) :
    ∃ text rest, s = text ++ rest ∧ (∀ c ∈ text, isDigit c = true) ∧ isDigit (rest.headD 0) = false := by
  refine ⟨s.takeWhile isDigit, s.dropWhile isDigit, takeWhile_append_dropWhile.symm,
    fun c hc => mem_takeWhile_imp hc, ?_⟩
  cases h : s.dropWhile isDigit with
  | nil => rfl
  | cons c rest => simpa [h] using head_dropWhile_not isDigit (l := s) (by simp [h])

/-- **The loop over the parts accepts exactly the texts of as many parts.** -/
lemma parseIpv4Loop_iff (behind : List UInt8) (left : ℕ) :
    ∀ (s : List UInt8) (parts res : List UInt32), (∀ c ∈ s, c ≠ 0) →
      ((parseIpv4Loop (left + 1) parts (s ++ 0 :: behind)).val = some res ↔
        ∃ vs, vs.length = left + 1 ∧ DottedParts s vs ∧ res = parts ++ vs.map UInt32.ofNat) := by
  induction left with
  | zero =>
    intro s parts res hzero
    constructor
    · intro h
      obtain ⟨text, rest, rfl, hdigits, hrest⟩ := exists_digits s
      have hzero' : ∀ c ∈ rest, c ≠ 0 := fun c hc => hzero c (mem_append_right _ hc)
      rw [append_assoc, parseIpv4Loop_succ rest behind hdigits hrest hzero', if_neg (not_not.mpr rfl)] at h
      split_ifs at h with hpart hnil
      subst hnil
      refine ⟨[decimalValue text], rfl, ?_, (Option.some_inj.mp h).symm⟩
      rw [append_nil]
      exact ⟨hpart, rfl⟩
    · rintro ⟨vs, hlen, hparts, rfl⟩
      obtain ⟨v, rfl⟩ := length_eq_one_iff.mp hlen
      obtain ⟨hpart, rfl⟩ := hparts
      have h := parseIpv4Loop_succ [] behind hpart.digits rfl (by simp) 0 parts
      rw [nil_append, if_pos hpart, if_neg (not_not.mpr rfl), if_pos rfl] at h
      exact h
  | succ left ih =>
    intro s parts res hzero
    constructor
    · intro h
      obtain ⟨text, rest, rfl, hdigits, hrest⟩ := exists_digits s
      have hzero' : ∀ c ∈ rest, c ≠ 0 := fun c hc => hzero c (mem_append_right _ hc)
      rw [append_assoc, parseIpv4Loop_succ rest behind hdigits hrest hzero', if_pos left.succ_ne_zero] at h
      split_ifs at h with hpart hdot
      cases rest with
      | nil => cases hdot
      | cons c rest =>
        obtain ⟨vs, hlen, hparts, rfl⟩ :=
          (ih rest _ res fun d hd => hzero' d (mem_cons_of_mem _ hd)).mp h
        cases Option.some_inj.mp hdot
        refine ⟨decimalValue text :: vs, congrArg (· + 1) hlen, ?_, by simp⟩
        cases vs with
        | nil => cases hlen
        | cons w vs => exact ⟨text, rest, rfl, hpart, rfl, hparts⟩
    · rintro ⟨vs, hlen, hparts, rfl⟩
      cases vs with
      | nil => cases hlen
      | cons v vs =>
        cases vs with
        | nil => cases hlen
        | cons w vs =>
          obtain ⟨text, rest, rfl, hpart, rfl, hrest⟩ := hparts
          have hzero' : ∀ c ∈ chr '.' :: rest, c ≠ 0 :=
            fun c hc => hzero c (mem_append_right _ hc)
          have hdot : isDigit ((chr '.' :: rest).headD 0) = false := by
            rw [headD_cons]
            decide
          rw [append_assoc, parseIpv4Loop_succ _ behind hpart.digits hdot hzero', if_pos hpart,
            if_pos left.succ_ne_zero, if_pos (head?_cons ..)]
          refine (ih rest _ _ fun d hd => hzero' d (mem_cons_of_mem _ hd)).mpr
            ⟨w :: vs, Nat.succ_injective hlen, hrest, by simp⟩

lemma toNat_joinParts {a b c d : ℕ} (ha : a ≤ 255) (hb : b ≤ 255) (hc : c ≤ 255) (hd : d ≤ 255) :
    (joinParts ([a, b, c, d].map UInt32.ofNat)).toNat = a * 2 ^ 24 + b * 2 ^ 16 + c * 2 ^ 8 + d := by
  have hsize : ∀ v ≤ 255, (UInt32.ofNat v).toNat = v := fun v hv =>
    UInt32.toNat_ofNat_of_lt' (hv.trans_lt (by decide))
  have hshift : ∀ v ≤ 255, ∀ k ≤ 24, v <<< k % 2 ^ 32 = 2 ^ k * v := by
    intro v hv k hk
    have hpow : 2 ^ k ≤ 2 ^ 24 := Nat.pow_le_pow_right (by decide) hk
    rw [Nat.shiftLeft_eq, Nat.mul_comm, Nat.mod_eq_of_lt]
    exact (Nat.mul_le_mul hpow hv).trans_lt (by decide)
  have htop : 2 ^ 24 * a ||| 2 ^ 16 * b = 2 ^ 16 * (2 ^ 8 * a + b) := by
    rw [← Nat.two_pow_add_eq_or_of_lt (by omega)]
    ring
  have hmid : 2 ^ 16 * (2 ^ 8 * a + b) ||| 2 ^ 8 * c = 2 ^ 8 * (2 ^ 8 * (2 ^ 8 * a + b) + c) := by
    rw [← Nat.two_pow_add_eq_or_of_lt (by omega)]
    ring
  simp only [joinParts, map_cons, getD_cons_zero, getD_cons_succ, UInt32.toNat_or,
    UInt32.toNat_shiftLeft, hsize a ha, hsize b hb, hsize c hc, hsize d hd]
  rw [show (24 : UInt32).toNat % 32 = 24 from rfl, show (16 : UInt32).toNat % 32 = 16 from rfl,
    show (8 : UInt32).toNat % 32 = 8 from rfl, hshift a ha 24 le_rfl, hshift b hb 16 (by decide),
    hshift c hc 8 (by decide), htop, hmid, ← Nat.two_pow_add_eq_or_of_lt (by omega)]
  ring

lemma isIpv4Text_iff (s : List UInt8) (addr : UInt32) :
    IsIpv4Text s addr.toNat ↔
      ∃ vs, vs.length = 4 ∧ DottedParts s vs ∧ addr = joinParts (vs.map UInt32.ofNat) := by
  constructor
  · rintro ⟨a, b, c, d, rfl, ha, hb, hc, hd, haddr⟩
    refine ⟨[decimalValue a, decimalValue b, decimalValue c, decimalValue d], rfl,
      ⟨a, _, rfl, ha, rfl, b, _, rfl, hb, rfl, c, _, rfl, hc, rfl, hd, rfl⟩, ?_⟩
    apply UInt32.toNat_inj.mp
    rw [toNat_joinParts ha.value_le hb.value_le hc.value_le hd.value_le, haddr]
  · rintro ⟨vs, hlen, hparts, rfl⟩
    obtain ⟨v0, v1, v2, v3, rfl⟩ : ∃ v0 v1 v2 v3, vs = [v0, v1, v2, v3] := by
      rw [length_eq_four] at hlen
      exact hlen
    obtain ⟨a, _, rfl, ha, rfl, b, _, rfl, hb, rfl, c, d, rfl, hc, rfl, hd, rfl⟩ := hparts
    exact ⟨a, b, c, d, rfl, ha, hb, hc, hd,
      toNat_joinParts ha.value_le hb.value_le hc.value_le hd.value_le⟩

lemma val_parseIpv4 (p : List UInt8) (out : UInt32) :
    (parseIpv4 (some p) (some out)).val =
      ((parseIpv4Loop 4 [] p).val).elim (0, some out) fun parts => (1, some (joinParts parts)) := by
  rw [parseIpv4, val_bind]
  cases (parseIpv4Loop 4 [] p).val <;> rfl

lemma parseIpv4_eq_one_iff {s : List UInt8} (hs : ∀ c ∈ s, c ≠ 0) (behind : List UInt8) (out addr : UInt32) :
    (parseIpv4 (some (s ++ 0 :: behind)) (some out)).val = (1, some addr) ↔ IsIpv4Text s addr.toNat := by
  have hloop := fun res => parseIpv4Loop_iff behind 3 s [] res hs
  rw [isIpv4Text_iff, val_parseIpv4]
  cases hval : (parseIpv4Loop 4 [] (s ++ 0 :: behind)).val with
  | none =>
    simp only [Option.elim_none, Prod.mk.injEq, zero_ne_one, false_and, false_iff]
    rintro ⟨vs, hlen, hparts, -⟩
    have := (hloop _).mpr ⟨vs, hlen, hparts, rfl⟩
    rw [hval] at this
    cases this
  | some parts =>
    simp only [Option.elim_some, Prod.mk.injEq, true_and, Option.some.injEq]
    constructor
    · rintro rfl
      obtain ⟨vs, hlen, hparts, rfl⟩ := (hloop parts).mp hval
      exact ⟨vs, hlen, hparts, rfl⟩
    · rintro ⟨vs, hlen, hparts, rfl⟩
      have := (hloop _).mpr ⟨vs, hlen, hparts, rfl⟩
      rw [hval] at this
      rw [Option.some_inj.mp this, nil_append]

lemma parseIpv4_all_inString (s behind : List UInt8) (out : UInt32) :
    (parseIpv4 (some (s ++ 0 :: behind)) (some out)).All (InString behind) := by
  rw [parseIpv4, all_bind]
  refine ⟨parseIpv4Loop_inside 4 [] _ ⟨s, rfl⟩, ?_⟩
  cases (parseIpv4Loop 4 [] (s ++ 0 :: behind)).val <;> exact all_pure _

/-! ## Writing them -/

/-- `append_uint_dec`: the digits go to `tmp[16]` and are taken back from its end. -/
def appendUintDec (outSize : ℕ) (s : Sink) (value : UInt32) : Sink :=
  let tmp :=
    if value = 0 then [chr '0']
    else (scratch 10 16 value.toNat).map fun d => UInt8.ofNat (48 + d)
  tmp.reverse.foldl (Sink.send outSize) s

def formatIpv4 (out : Memory) (outSize : ℕ) (addr : UInt32) : Memory :=
  let s : Sink := ⟨out, 0⟩
  let s := appendUintDec outSize s (addr >>> 24 &&& 0xFF)
  let s := s.send outSize (chr '.')
  let s := appendUintDec outSize s (addr >>> 16 &&& 0xFF)
  let s := s.send outSize (chr '.')
  let s := appendUintDec outSize s (addr >>> 8 &&& 0xFF)
  let s := s.send outSize (chr '.')
  let s := appendUintDec outSize s (addr &&& 0xFF)
  s.close outSize

/-- The decimal numeral of a number. -/
def decimalText (v : ℕ) : List UInt8 := (numeral 10 v).map fun d => UInt8.ofNat (48 + d)

lemma appendUintDec_sent (size : ℕ) (m : Memory) (text : List UInt8) (value : UInt32) :
    appendUintDec size (sent size m text) value = sent size m (text ++ decimalText value.toNat) := by
  rw [appendUintDec, sendAll_sent]
  congr 2
  split_ifs with h
  · rw [h]
    rfl
  · have hne : value.toNat ≠ 0 := fun hzero => h (UInt32.toNat_inj.mp hzero)
    have hlt : value.toNat < 10 ^ 16 := value.toNat_lt.trans (by decide)
    rw [← map_reverse, reverse_scratch (by decide) hlt hne, decimalText]

lemma digit_spec {d : ℕ} (hd : d < 10) :
    isDigit (UInt8.ofNat (48 + d)) = true ∧ digitValue (UInt8.ofNat (48 + d)) = d := by
  have hall : ∀ d < 10, isDigit (UInt8.ofNat (48 + d)) = true ∧ digitValue (UInt8.ofNat (48 + d)) = d := by
    decide +kernel
  exact hall d hd

lemma decimalValue_decimalText (v : ℕ) : decimalValue (decimalText v) = v := by
  have hmap : (decimalText v).map digitValue = numeral 10 v := by
    rw [decimalText, map_map]
    refine (map_congr_left fun d hd => ?_).trans (map_id _)
    exact (digit_spec (lt_of_mem_numeral (by decide) hd)).2
  rw [decimalValue, hmap, numeralValue_numeral]

lemma isPart_decimalText {v : ℕ} (hv : v ≤ 255) : IsPart (decimalText v) := by
  refine ⟨?_, ?_, ?_⟩
  · rw [decimalText, ne_eq, map_eq_nil_iff]
    exact numeral_ne_nil 10 v
  · intro c hc
    obtain ⟨d, hd, rfl⟩ := mem_map.mp hc
    exact (digit_spec (lt_of_mem_numeral (by decide) hd)).1
  · rw [decimalValue_decimalText]
    exact hv

lemma length_decimalText_le {v : ℕ} (hv : v ≤ 255) : (decimalText v).length ≤ 3 := by
  rw [decimalText, length_map]
  exact length_numeral_le (by decide) (by decide) (hv.trans_lt (by decide))

/-- The text of an address. -/
def ipv4Text (addr : UInt32) : List UInt8 :=
  decimalText (addr >>> 24 &&& 0xFF).toNat ++ chr '.' ::
    (decimalText (addr >>> 16 &&& 0xFF).toNat ++ chr '.' ::
      (decimalText (addr >>> 8 &&& 0xFF).toNat ++ chr '.' :: decimalText (addr &&& 0xFF).toNat))

lemma byte_le (x : UInt32) : (x &&& 0xFF).toNat ≤ 255 := by
  rw [UInt32.toNat_and]
  exact Nat.and_le_right

lemma length_ipv4Text_le (addr : UInt32) : (ipv4Text addr).length ≤ 15 := by
  have ha := length_decimalText_le (byte_le (addr >>> 24))
  have hb := length_decimalText_le (byte_le (addr >>> 16))
  have hc := length_decimalText_le (byte_le (addr >>> 8))
  have hd := length_decimalText_le (byte_le addr)
  simp only [ipv4Text, length_append, length_cons]
  omega

/-- **What `format_ipv4` writes.** -/
lemma formatIpv4_eq (out : Memory) {outSize : ℕ} (hsize : 16 ≤ outSize) (addr : UInt32) :
    formatIpv4 out outSize addr = lay out (ipv4Text addr ++ [0]) := by
  have hfits : (ipv4Text addr).take (outSize - 1) = ipv4Text addr :=
    take_of_length_le ((length_ipv4Text_le addr).trans (by omega))
  rw [formatIpv4, ← sent_nil outSize out]
  simp only [appendUintDec_sent, send_sent]
  rw [close_sent _ _ (by omega)]
  have htext : [] ++ decimalText (addr >>> 24 &&& 0xFF).toNat ++ [chr '.'] ++
      decimalText (addr >>> 16 &&& 0xFF).toNat ++ [chr '.'] ++
      decimalText (addr >>> 8 &&& 0xFF).toNat ++ [chr '.'] ++ decimalText (addr &&& 0xFF).toNat =
        ipv4Text addr := by
    simp [ipv4Text]
  rw [htext, hfits]

lemma isIpv4Text_ipv4Text (addr : UInt32) : IsIpv4Text (ipv4Text addr) addr.toNat := by
  refine ⟨_, _, _, _, rfl, isPart_decimalText (byte_le _), isPart_decimalText (byte_le _),
    isPart_decimalText (byte_le _), isPart_decimalText (byte_le _), ?_⟩
  simp only [decimalValue_decimalText, UInt32.toNat_and, UInt32.toNat_shiftRight]
  have hbyte : ∀ x : ℕ, x &&& (0xFF : UInt32).toNat = x % 2 ^ 8 := fun x =>
    Nat.and_two_pow_sub_one_eq_mod x 8
  rw [show (24 : UInt32).toNat % 32 = 24 from rfl, show (16 : UInt32).toNat % 32 = 16 from rfl,
    show (8 : UInt32).toNat % 32 = 8 from rfl, hbyte, hbyte, hbyte, hbyte, Nat.shiftRight_eq_div_pow,
    Nat.shiftRight_eq_div_pow, Nat.shiftRight_eq_div_pow]
  have := addr.toNat_lt
  omega

lemma ipv4Text_ne_zero (addr : UInt32) : ∀ c ∈ ipv4Text addr, c ≠ 0 := by
  have hdec : ∀ v, ∀ c ∈ decimalText v, c ≠ 0 := by
    rintro v c hc rfl
    obtain ⟨d, hd, hzero⟩ := mem_map.mp hc
    have := (digit_spec (lt_of_mem_numeral (by decide) hd)).1
    rw [hzero] at this
    exact absurd this (by decide)
  have hdot : chr '.' ≠ 0 := by decide
  intro c hc
  simp only [ipv4Text, mem_append, mem_cons] at hc
  rcases hc with hc | rfl | hc | rfl | hc | rfl | hc
  all_goals first | exact hdot | exact hdec _ c hc

/-- **`parse_ipv4` reads what it should, and what `format_ipv4` writes.**  On every terminated string it
accepts exactly the texts of addresses, with their value, and reads nothing behind the terminator.  Given
the bytes from a buffer of at least 16 on, into which an address was formatted, it returns the address. -/
theorem parseIpv4_exact :
    (∀ (s behind : List UInt8) (out : UInt32), (∀ c ∈ s, c ≠ 0) →
      (∀ addr, (parseIpv4 (some (s ++ 0 :: behind)) (some out)).val = (1, some addr) ↔
        IsIpv4Text s addr.toNat) ∧
      ((¬ ∃ addr : UInt32, IsIpv4Text s addr.toNat) →
        (parseIpv4 (some (s ++ 0 :: behind)) (some out)).val = (0, some out)) ∧
      (parseIpv4 (some (s ++ 0 :: behind)) (some out)).All (InString behind)) ∧
    ∀ (addr out : UInt32) (buf : Memory) (size n : ℕ), 16 ≤ size → size ≤ n →
      (parseIpv4 (some ((List.range n).map (formatIpv4 buf size addr))) (some out)).val =
        (1, some addr) := by
  refine ⟨?_, ?_⟩
  · intro s behind out hs
    refine ⟨parseIpv4_eq_one_iff hs behind out, ?_, parseIpv4_all_inString s behind out⟩
    intro hno
    have hiff := parseIpv4_eq_one_iff hs behind out
    rw [val_parseIpv4] at hiff ⊢
    cases hval : (parseIpv4Loop 4 [] (s ++ 0 :: behind)).val with
    | none => rfl
    | some parts =>
      rw [hval] at hiff
      exact absurd ⟨_, (hiff _).mp rfl⟩ hno
  · intro addr out buf size n hsize hn
    have hlen := length_ipv4Text_le addr
    rw [formatIpv4_eq buf hsize, map_range_lay (by simp; omega), append_assoc,
      singleton_append, parseIpv4_eq_one_iff (ipv4Text_ne_zero addr)]
    exact isIpv4Text_ipv4Text addr

end UserInit

end MyOs
