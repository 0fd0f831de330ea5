import MyOs.Base
import MyOs.Lib.CStrings

/-!
# MAC addresses as text

`parse_mac` of `init.c`, with every character it reads recorded (`Lib.CStrings`).  It accepts exactly six
groups of two hexadecimal digits with colons between them (`parseMacLoop_iff`).

It reads both characters of a group before it looks at either.  Where the string ends at the start of a
group, the terminator is taken for the first of them and the second one lies behind it
(`parseMacLoop_reads_iff`).
-/

namespace MyOs

open Lib List Traced

namespace UserInit

def hexValue (c : UInt8) : ℤ :=
  if chr '0' ≤ c ∧ c ≤ chr '9' then c.toNat - 48
  else if chr 'a' ≤ c ∧ c ≤ chr 'f' then c.toNat - 97 + 10
  else if chr 'A' ≤ c ∧ c ≤ chr 'F' then c.toNat - 65 + 10
  else -1

/-- `(uint8_t)((hi << 4) | lo)` -/
def groupByte (hi lo : ℤ) : UInt8 := UInt8.ofNat (hi.toNat <<< 4 ||| lo.toNat)

/-- The loop of `parse_mac` from group `i` on, of which `left` are still to come: the return value and
`out`. -/
def parseMacLoop : (left i : ℕ) → (out : List UInt8) → List UInt8 → Traced ℕ (ℤ × List UInt8)
  | 0, _, out, _ => pure (1, out)
  | left + 1, i, out, p => do
    let hi ← deref p
    let lo ← deref p.tail
    let p := p.tail.tail
    if hexValue hi < 0 ∨ hexValue lo < 0 then pure (0, out)
    else do
      let out := out.set i (groupByte (hexValue hi) (hexValue lo))
      let c ← deref p
      if left ≠ 0 then
        if c ≠ chr ':' then pure (0, out) else parseMacLoop left (i + 1) out p.tail
      else if c ≠ 0 then pure (0, out)
      else parseMacLoop left (i + 1) out p

/-- `parse_mac`: the return value and `out`. -/
def parseMac (s : Option (List UInt8)) (out : Option (List UInt8)) :
    Traced ℕ (ℤ × Option (List UInt8)) :=
  match s, out with
  | some p, some old => do
    let r ← parseMacLoop 6 0 old p
    pure (r.1, some r.2)
  | _, out => pure (0, out)

/-- Two hexadecimal digits. -/
def IsGroup (g : UInt8 × UInt8) : Prop := 0 ≤ hexValue g.1 ∧ 0 ≤ hexValue g.2

instance (g : UInt8 × UInt8) : Decidable (IsGroup g) := inferInstanceAs (Decidable (_ ∧ _))

/-- The byte a group stands for. -/
def groupValue (g : UInt8 × UInt8) : UInt8 := groupByte (hexValue g.1) (hexValue g.2)

/-- Groups with colons between them. -/
def groupsText : List (UInt8 × UInt8) → List UInt8
  | [] => []
  | [g] => [g.1, g.2]
  | g :: gs => g.1 :: g.2 :: chr ':' :: groupsText gs

/-- Groups with a colon after each. -/
def openText (gs : List (UInt8 × UInt8)) : List UInt8 := gs.flatMap fun g => [g.1, g.2, chr ':']

/-- The text of a MAC address. -/
def IsMacText (s : List UInt8) (mac : List UInt8) : Prop :=
  ∃ gs, gs.length = 6 ∧ (∀ g ∈ gs, IsGroup g) ∧ s = groupsText gs ∧ mac = gs.map groupValue

/-- The string ends where one of the six groups would start: it is some groups, less than six, with a colon
after each. -/
def EndsAtGroup (s : List UInt8) : Prop :=
  ∃ gs, gs.length ≤ 5 ∧ (∀ g ∈ gs, IsGroup g) ∧ s = openText gs

lemma hexValue_zero : hexValue 0 = -1 := by decide

lemma parseMacLoop_cons (left i : ℕ) (out : List UInt8) (h l : UInt8) (p : List UInt8) :
    parseMacLoop (left + 1) i out (h :: l :: p) =
      (deref (h :: l :: p) >>= fun _ => deref (l :: p) >>= fun _ =>
        if hexValue h < 0 ∨ hexValue l < 0 then pure (0, out)
        else deref p >>= fun _ =>
          if left ≠ 0 then
            if p.headD 0 ≠ chr ':' then pure (0, out.set i (groupValue (h, l)))
            else parseMacLoop left (i + 1) (out.set i (groupValue (h, l))) p.tail
          else if p.headD 0 ≠ 0 then pure (0, out.set i (groupValue (h, l)))
          else parseMacLoop left (i + 1) (out.set i (groupValue (h, l))) p) := rfl

lemma isGroup_iff (h l : UInt8) : IsGroup (h, l) ↔ ¬ (hexValue h < 0 ∨ hexValue l < 0) := by
  rw [not_or, not_lt, not_lt]
  rfl

lemma openText_cons (g : UInt8 × UInt8) (gs : List (UInt8 × UInt8)) :
    openText (g :: gs) = g.1 :: g.2 :: chr ':' :: openText gs := rfl

/-- A string of less than two characters is not accepted, and all of it is read. -/
lemma parseMacLoop_short (left i : ℕ) (out behind : List UInt8) :
    (parseMacLoop (left + 1) i out (0 :: behind)).val = (0, out) ∧
      ¬ (parseMacLoop (left + 1) i out (0 :: behind)).All (InString behind) ∧
      ∀ c, (parseMacLoop (left + 1) i out (c :: 0 :: behind)).val = (0, out) ∧
        (parseMacLoop (left + 1) i out (c :: 0 :: behind)).All (InString behind) := by
  have hstop : ∀ c, (hexValue c < 0 ∨ hexValue 0 < 0) ∧ (hexValue 0 < 0 ∨ hexValue c < 0) := by
    intro c
    rw [hexValue_zero]
    exact ⟨Or.inr (by decide), Or.inl (by decide)⟩
  refine ⟨?_, ?_, ?_⟩
  · simp [parseMacLoop, hstop]
  · simp [parseMacLoop]
  · intro c
    rw [parseMacLoop_cons, if_pos (hstop c).1]
    simp

/-- A string of groups with a colon after each that starts with two given characters. -/
lemma openText_eq_cons {n : ℕ} {h l : UInt8} {s : List UInt8} :
    (∃ gs, gs.length < n + 1 ∧ (∀ g ∈ gs, IsGroup g) ∧ h :: l :: s = openText gs) ↔
      IsGroup (h, l) ∧ s.head? = some (chr ':') ∧
        ∃ gs, gs.length < n ∧ (∀ g ∈ gs, IsGroup g) ∧ s.tail = openText gs := by
  constructor
  · rintro ⟨gs, hlen, hgs, heq⟩
    cases gs with
    | nil => cases heq
    | cons g gs =>
      rw [openText_cons] at heq
      cases heq
      exact ⟨hgs _ mem_cons_self, rfl, gs, Nat.lt_of_succ_lt_succ hlen,
        fun g hg => hgs g (mem_cons_of_mem _ hg), rfl⟩
  · rintro ⟨hg, hcolon, gs, hlen, hgs, heq⟩
    cases s with
    | nil => cases hcolon
    | cons c s =>
      cases Option.some_inj.mp hcolon
      refine ⟨(h, l) :: gs, Nat.succ_lt_succ hlen, ?_, ?_⟩
      · intro g hmem
        rcases mem_cons.mp hmem with rfl | hmem
        · exact hg
        · exact hgs g hmem
      · rw [openText_cons, ← heq]
        rfl

lemma headD_append_zero {s : List UInt8} (hs : ∀ c ∈ s, c ≠ 0) (behind : List UInt8) :
    (s ++ 0 :: behind).headD 0 = s.headD 0 ∧ (s.headD 0 = 0 ↔ s = []) ∧
      (s.headD 0 = chr ':' ↔ s.head? = some (chr ':')) := by
  cases s with
  | nil => exact ⟨rfl, iff_of_true rfl rfl, iff_of_false (by decide) (by simp)⟩
  | cons c s =>
    refine ⟨rfl, iff_of_false (hs c mem_cons_self) (cons_ne_nil _ _), ?_⟩
    rw [headD_cons, head?_cons, Option.some_inj]

/-- One group of a string that goes on with `s`. -/
lemma parseMacLoop_group {s : List UInt8} (hs : ∀ c ∈ s, c ≠ 0) (behind : List UInt8) (left i : ℕ)
    (out : List UInt8) (h l : UInt8) :
    parseMacLoop (left + 1) i out (h :: l :: (s ++ 0 :: behind)) =
      (deref (h :: l :: (s ++ 0 :: behind)) >>= fun _ => deref (l :: (s ++ 0 :: behind)) >>= fun _ =>
        if IsGroup (h, l) then deref (s ++ 0 :: behind) >>= fun _ =>
          if left = 0 then pure (if s = [] then 1 else 0, out.set i (groupValue (h, l)))
          else if s.head? = some (chr ':') then
            parseMacLoop left (i + 1) (out.set i (groupValue (h, l))) (s.tail ++ 0 :: behind)
          else pure (0, out.set i (groupValue (h, l)))
        else pure (0, out)) := by
  obtain ⟨hhead, hnil, hcolon⟩ := headD_append_zero hs behind
  rw [parseMacLoop_cons, hhead]
  by_cases hg : IsGroup (h, l)
  · rw [if_pos hg, if_neg ((isGroup_iff h l).mp hg)]
    rcases eq_or_ne left 0 with rfl | hleft
    · simp only [ne_eq, not_true_eq_false, if_false, if_true, hnil, ite_not, parseMacLoop]
      split_ifs <;> rfl
    · simp only [ne_eq, hleft, not_false_eq_true, if_true, if_false, hcolon, ite_not]
      split_ifs with hc
      · cases s with
        | nil => cases hc
        | cons c s => rfl
      · rfl
  · rw [if_neg hg, if_pos (not_not.mp (mt (isGroup_iff h l).mpr hg))]

/-- **What `parse_mac` reads.**  All of it is in the string if and only if the string does not end at the
start of one of the groups. -/
lemma parseMacLoop_reads_iff (behind : List UInt8) :
    ∀ (left i : ℕ) (out s : List UInt8), (∀ c ∈ s, c ≠ 0) →
      ((parseMacLoop left i out (s ++ 0 :: behind)).All (InString behind) ↔
        ¬ ∃ gs, gs.length < left ∧ (∀ g ∈ gs, IsGroup g) ∧ s = openText gs) := by
  intro left
  induction left with
  | zero =>
    intro i out s _
    refine iff_of_true (all_pure _) ?_
    rintro ⟨gs, hlen, -⟩
    exact absurd hlen (Nat.not_lt_zero _)
  | succ left ih =>
    intro i out s hs
    obtain ⟨-, hempty, hsingle⟩ := parseMacLoop_short left i out behind
    rcases s with _ | ⟨h, _ | ⟨l, s⟩⟩
    · exact iff_of_false hempty (not_not.mpr ⟨[], by simp, by simp, rfl⟩)
    · refine iff_of_true (hsingle h).2 ?_
      rintro ⟨gs, -, -, heq⟩
      cases gs <;> cases heq
    · have hs' : ∀ c ∈ s, c ≠ 0 := fun c hc => hs c (mem_cons_of_mem _ (mem_cons_of_mem _ hc))
      have hthird : (deref (s ++ 0 :: behind)).All (InString behind) := by simp; omega
      have hsecond : (deref (l :: (s ++ 0 :: behind))).All (InString behind) := by simp; omega
      have hfirst : (deref (h :: l :: (s ++ 0 :: behind))).All (InString behind) := by simp; omega
      rw [openText_eq_cons, cons_append, cons_append, parseMacLoop_group hs', all_bind, all_bind,
        and_iff_right hfirst, and_iff_right hsecond]
      by_cases hg : IsGroup (h, l)
      · rw [if_pos hg, all_bind, and_iff_right hthird]
        rcases eq_or_ne left 0 with rfl | hleft
        · simp
        · by_cases hc : s.head? = some (chr ':')
          · simp [hg, hleft, hc, ih _ _ s.tail fun c hc => hs' c (mem_of_mem_tail hc)]
          · simp [hleft, hc]
      · simp [hg]

/-- A text of groups that starts with two given characters, and the bytes stored for it. -/
lemma groupsText_eq_cons {left : ℕ} {h l : UInt8} {s mac stored : List UInt8} :
    (∃ gs, gs.length = left + 1 ∧ (∀ g ∈ gs, IsGroup g) ∧ h :: l :: s = groupsText gs ∧
        mac = stored ++ gs.map groupValue) ↔
      IsGroup (h, l) ∧
        if left = 0 then s = [] ∧ mac = stored ++ [groupValue (h, l)]
        else s.head? = some (chr ':') ∧ ∃ gs, gs.length = left ∧ (∀ g ∈ gs, IsGroup g) ∧
          s.tail = groupsText gs ∧ mac = stored ++ [groupValue (h, l)] ++ gs.map groupValue := by
  constructor
  · rintro ⟨gs, hlen, hgs, heq, rfl⟩
    rcases gs with _ | ⟨g, _ | ⟨g', gs⟩⟩
    · cases hlen
    · cases heq
      obtain rfl : left = 0 := Nat.succ_injective hlen.symm
      exact ⟨hgs _ mem_cons_self, rfl, rfl⟩
    · cases heq
      obtain rfl : left = gs.length + 1 := Nat.succ_injective hlen.symm
      refine ⟨hgs _ mem_cons_self, rfl, g' :: gs, rfl, fun x hx => hgs x (mem_cons_of_mem _ hx), rfl, ?_⟩
      simp
  · rintro ⟨hg, hrest⟩
    split_ifs at hrest with hleft
    · obtain ⟨rfl, rfl⟩ := hrest
      exact ⟨[(h, l)], by simp [hleft], by simpa using hg, rfl, rfl⟩
    · obtain ⟨hcolon, gs, hlen, hgs, heq, rfl⟩ := hrest
      cases s with
      | nil => cases hcolon
      | cons c s =>
        cases gs with
        | nil => exact absurd hlen.symm hleft
        | cons g gs =>
          cases Option.some_inj.mp hcolon
          refine ⟨(h, l) :: g :: gs, by simp [← hlen], forall_mem_cons.mpr ⟨hg, hgs⟩, ?_, by simp⟩
          rw [tail_cons] at heq
          rw [heq]
          rfl

lemma take_set_succ {out : List UInt8} {i : ℕ} (hi : i < out.length) (v : UInt8) :
    (out.set i v).take (i + 1) = out.take i ++ [v] := by
  rw [take_succ_eq_append_getElem (by simpa using hi), getElem_set_self, take_set_of_le le_rfl]

/-- **What `parse_mac` accepts**, and what it stores. -/
lemma parseMacLoop_iff (behind : List UInt8) (left : ℕ) :
    ∀ (i : ℕ) (out s mac : List UInt8), (∀ c ∈ s, c ≠ 0) → out.length = i + (left + 1) →
      ((parseMacLoop (left + 1) i out (s ++ 0 :: behind)).val = (1, mac) ↔
        ∃ gs, gs.length = left + 1 ∧ (∀ g ∈ gs, IsGroup g) ∧ s = groupsText gs ∧
          mac = out.take i ++ gs.map groupValue) := by
  induction left using Nat.strong_induction_on with
  | _ left ih =>
    intro i out s mac hs hlen
    obtain ⟨hempty, -, hsingle⟩ := parseMacLoop_short left i out behind
    rcases s with _ | ⟨h, _ | ⟨l, s⟩⟩
    · rw [nil_append, hempty]
      refine iff_of_false (by simp) ?_
      rintro ⟨_ | ⟨g, _ | ⟨g', gs⟩⟩, hgs, -, heq, -⟩ <;> simp [groupsText] at hgs heq
    · rw [cons_append, nil_append, (hsingle h).1]
      refine iff_of_false (by simp) ?_
      rintro ⟨_ | ⟨g, _ | ⟨g', gs⟩⟩, hgs, -, heq, -⟩ <;> simp [groupsText] at hgs heq
    · have hs' : ∀ c ∈ s, c ≠ 0 := fun c hc => hs c (mem_cons_of_mem _ (mem_cons_of_mem _ hc))
      have htake := take_set_succ (by omega : i < out.length) (groupValue (h, l))
      rw [groupsText_eq_cons, cons_append, cons_append, parseMacLoop_group hs', ← htake]
      by_cases hg : IsGroup (h, l)
      · rcases eq_or_ne left 0 with rfl | hleft
        · rw [take_of_length_le (by simp; omega)]
          by_cases hnil : s = []
          · simp [hg, hnil, eq_comm]
          · simp [hg, hnil]
        · obtain ⟨n, rfl⟩ := Nat.exists_eq_succ_of_ne_zero hleft
          have hnext := ih n (Nat.lt_succ_self n) (i + 1) (out.set i (groupValue (h, l))) s.tail mac
            (fun c hc => hs' c (mem_of_mem_tail hc)) (by simp; omega)
          by_cases hc : s.head? = some (chr ':')
          · simpa [hg, hc] using hnext
          · simp [hg, hc]
      · simp [hg]

lemma parseMacLoop_fst : ∀ (left i : ℕ) (out p : List UInt8),
    (parseMacLoop left i out p).val.1 = 0 ∨ (parseMacLoop left i out p).val.1 = 1 := by
  intro left
  induction left with
  | zero => exact fun i out p => Or.inr rfl
  | succ left ih =>
    intro i out p
    rw [parseMacLoop]
    simp only [val_bind, val_ite, val_pure]
    split_ifs
    · exact Or.inl rfl
    · exact Or.inl rfl
    · exact ih _ _ _
    · exact Or.inl rfl
    · exact ih _ _ _

/-- **When `parse_mac` stays in its string.**  On every terminated string it accepts exactly the texts of
MAC addresses, and stores their bytes.  It reads nothing behind the terminator if and only if the string
does not end where one of the six groups would start. -/
theorem parseMac_exact_iff (s behind out : List UInt8) (hs : ∀ c ∈ s, c ≠ 0) (hout : out.length = 6) :
    (∀ mac, (parseMac (some (s ++ 0 :: behind)) (some out)).val = (1, some mac) ↔ IsMacText s mac) ∧
      ((¬ ∃ mac, IsMacText s mac) → (parseMac (some (s ++ 0 :: behind)) (some out)).val.1 = 0) ∧
      ((parseMac (some (s ++ 0 :: behind)) (some out)).All (InString behind) ↔ ¬ EndsAtGroup s) := by
  have haccept : ∀ mac, (parseMacLoop 6 0 out (s ++ 0 :: behind)).val = (1, mac) ↔ IsMacText s mac := by
    intro mac
    have h := parseMacLoop_iff behind 5 0 out s mac hs (by omega)
    simp only [take_zero, nil_append] at h
    exact h
  refine ⟨?_, ?_, ?_⟩
  · intro mac
    rw [parseMac, ← haccept]
    simp [Prod.ext_iff]
  · intro hno
    refine (parseMacLoop_fst 6 0 out (s ++ 0 :: behind)).resolve_right fun hone => hno ?_
    exact ⟨_, (haccept _).mp (Prod.ext hone rfl)⟩
  · have h := parseMacLoop_reads_iff behind 6 0 out s hs
    simp only [Nat.lt_succ_iff] at h
    rw [parseMac, all_bind, h, EndsAtGroup]
    simp

/-- The address of the emulated network card. -/
theorem parseMac_exact_emulated :
    (parseMac (some (ascii "52:54:00:12:34:56" ++ 0 :: [255])) (some [0, 0, 0, 0, 0, 0])).val =
        (1, some [0x52, 0x54, 0x00, 0x12, 0x34, 0x56]) ∧
      IsMacText (ascii "52:54:00:12:34:56") [0x52, 0x54, 0x00, 0x12, 0x34, 0x56] := by
  have hval : (parseMac (some (ascii "52:54:00:12:34:56" ++ 0 :: [255])) (some [0, 0, 0, 0, 0, 0])).val =
      (1, some [0x52, 0x54, 0x00, 0x12, 0x34, 0x56]) := by
    decide +kernel
  exact ⟨hval, ((parseMac_exact_iff (ascii "52:54:00:12:34:56") [255] [0, 0, 0, 0, 0, 0]
    (by decide +kernel) rfl).1 _).mp hval⟩

/-- The token `52:`: its terminator is taken for the first digit of a group, and the byte behind it is
read. -/
theorem parseMac_group_reads_behind :
    (parseMac (some (ascii "52:" ++ 0 :: [65])) (some [0, 0, 0, 0, 0, 0])).trace = [5, 4, 3, 2, 1] ∧
      ¬ (parseMac (some (ascii "52:" ++ 0 :: [65])) (some [0, 0, 0, 0, 0, 0])).All (InString [65]) := by
  refine ⟨by decide +kernel, ?_⟩
  intro h
  have := h 1 (by decide +kernel)
  exact absurd this (by simp [InString])

end UserInit

end MyOs
