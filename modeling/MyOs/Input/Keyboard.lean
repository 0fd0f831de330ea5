import MyOs.Console.Scrollback

/-!
# Reading the keyboard

`stdin_read_chars` of `src/syscall.c` turns key events into characters.  A read takes the events that
`input_read_key` returns one after the other; when there is none it waits, so a read of a stream that ends
too early does not return (`none`).

What a stream of key presses means does not depend on who reads it: `decode` keeps the state of the Shift
key from the first event to the last.  A read does not, since `shift` is a local variable.
`reads_agree_iff` says for which streams nobody can tell the difference.
-/

namespace MyOs

open List

/-- `key_event_t`. -/
structure KeyEvent where
  scancode : UInt8
  pressed : Bool
  deriving DecidableEq

/-- `keymap`, up to the zeros at its end. -/
def keymap : List UInt8 := ascii
  "\x00\x1b1234567890-=\x08\tqwertyuiop[]\n\x00asdfghjkl;'`\x00\\zxcvbnm,./\x00*\x00 " ++
  List.replicate 13 0 ++ ascii "789-456+1230."

/-- `keymap_shift`, up to the zeros at its end. -/
def keymapShift : List UInt8 := ascii
  "\x00\x1b!@#$%^&*()_+\x08\tQWERTYUIOP\x7b\x7d\n\x00ASDFGHJKL:\"~\x00|ZXCVBNM<>?\x00*\x00 " ++
  List.replicate 13 0 ++ ascii "789-456+1230."

def scancodeToChar (scancode : UInt8) (shift : Bool) : UInt8 :=
  if scancode ≥ 128 then 0
  else if shift then keymapShift.getD scancode.toNat 0 else keymap.getD scancode.toNat 0

/-- The variables of `stdin_read_chars`: the `count` characters in the buffer, what went to the console,
and whether a newline has ended the loop. -/
structure ReadState where
  shift : Bool
  buf : List UInt8
  console : List ConsoleOp
  stop : Bool

/-- The state a read begins in. -/
def ReadState.start : ReadState := ⟨false, [], [], false⟩

/-- One turn of the loop, with an event. -/
def readEvent (s : ReadState) (ev : KeyEvent) : ReadState :=
  if !ev.pressed then
    if ev.scancode = 0x2A ∨ ev.scancode = 0x36 then { s with shift := false } else s
  else if ev.scancode = 0x49 then { s with console := s.console ++ [.scrollView 25] }
  else if ev.scancode = 0x51 then { s with console := s.console ++ [.scrollView (-25)] }
  else if ev.scancode = 0x48 then { s with console := s.console ++ [.scrollView 1] }
  else if ev.scancode = 0x50 then { s with console := s.console ++ [.scrollView (-1)] }
  else if ev.scancode = 0x2A ∨ ev.scancode = 0x36 then { s with shift := true }
  else
    let c := scancodeToChar ev.scancode s.shift
    if c = 0 then s
    else if c = 8 then { s with buf := s.buf.dropLast }
    else { s with buf := s.buf ++ [c], console := s.console ++ [.putcVga c], stop := c = 10 }

/-- The loop is over. -/
def ReadState.done (s : ReadState) (len : ℕ) : Bool := s.stop || len ≤ s.buf.length

/-- The loop of `stdin_read_chars`, on the events that come. -/
def readLoop (len : ℕ) : ReadState → List KeyEvent → Option (ReadState × List KeyEvent)
  | s, [] => if s.done len then some (s, []) else none
  | s, ev :: evs => if s.done len then some (s, ev :: evs) else readLoop len (readEvent s ev) evs

/-- `stdin_read_chars`: the characters, and the events that are left. -/
def stdinReadChars (len : ℕ) (evs : List KeyEvent) : Option (List UInt8 × List KeyEvent) :=
  (readLoop len .start evs).map fun r => (r.1.buf, r.2)

/-- Reads one after the other: all the characters they deliver, and the events that are left. -/
def readAll : List ℕ → List KeyEvent → Option (List UInt8 × List KeyEvent)
  | [], evs => some ([], evs)
  | len :: lens, evs =>
    (stdinReadChars len evs).bind fun r => (readAll lens r.2).map fun q => (r.1 ++ q.1, q.2)

/-! ## What a stream means -/

/-- The Shift keys. -/
def KeyEvent.isShift (ev : KeyEvent) : Bool := ev.scancode = 0x2A || ev.scancode = 0x36

/-- Is Shift down after the event? -/
def shiftAfter (shift : Bool) (ev : KeyEvent) : Bool := if ev.isShift then ev.pressed else shift

/-- The character of a key press, if it has one. -/
def charOf (shift : Bool) (ev : KeyEvent) : Option UInt8 :=
  if !ev.pressed || ev.isShift || ev.scancode = 0x49 || ev.scancode = 0x51 || ev.scancode = 0x48 ||
    ev.scancode = 0x50 || scancodeToChar ev.scancode shift = 0 then none
  else some (scancodeToChar ev.scancode shift)

/-- The press of a key that has a character. -/
def KeyEvent.isChar (ev : KeyEvent) : Bool := (charOf false ev).isSome

/-- The press of the backspace key. -/
def KeyEvent.isBackspace (ev : KeyEvent) : Bool := ev.pressed && ev.scancode = 0x0E

/-- The characters of a stream, when Shift is down or up at its start. -/
def decode : (shift : Bool) → List KeyEvent → List UInt8
  | _, [] => []
  | shift, ev :: evs => (charOf shift ev).toList ++ decode (shiftAfter shift ev) evs

/-- The reads consume the stream: they all return, and leave no character. -/
structure Consumes (lens : List ℕ) (evs : List KeyEvent) (out : List UInt8) : Prop where
  length_pos : ∀ len ∈ lens, 1 ≤ len
  returns : ∃ rest, readAll lens evs = some (out, rest) ∧ ∀ ev ∈ rest, ev.isChar = false

/-- Each character key that is pressed while Shift is down, and that gives another character then, comes
after a press of Shift and no other character key in between.  `down` is the state of Shift, and `renewed`
whether it has changed since the last character key. -/
def ShiftRenewed : (down renewed : Bool) → List KeyEvent → Prop
  | _, _, [] => True
  | down, renewed, ev :: evs =>
    (ev.isChar = true → down = true → renewed = true ∨ charOf true ev = charOf false ev) ∧
      ShiftRenewed (shiftAfter down ev) (ev.isShift || renewed && !ev.isChar) evs

instance : ∀ (down renewed : Bool) (evs : List KeyEvent), Decidable (ShiftRenewed down renewed evs)
  | _, _, [] => isTrue trivial
  | down, renewed, ev :: evs =>
    @instDecidableAnd _ _ inferInstance
      (instDecidableShiftRenewed (shiftAfter down ev) (ev.isShift || renewed && !ev.isChar) evs)

/-! ## The tables -/

/-- Shift does not change which keys have a character, and one key is the backspace key. -/
lemma keymap_facts : ∀ i < 84, (keymapShift.getD i 0 = 0 ↔ keymap.getD i 0 = 0) ∧
    (keymap.getD i 0 = 8 → i = 14) ∧ (keymapShift.getD i 0 = 8 → i = 14) := by
  decide +kernel

lemma keymap_high {i : ℕ} (hi : 84 ≤ i) : keymap.getD i 0 = 0 ∧ keymapShift.getD i 0 = 0 := by
  have hlen : keymap.length = 84 ∧ keymapShift.length = 84 := by decide +kernel
  exact ⟨getD_eq_default _ _ (hlen.1 ▸ hi), getD_eq_default _ _ (hlen.2 ▸ hi)⟩

lemma scancodeToChar_eq_zero (scancode : UInt8) (shift : Bool) :
    scancodeToChar scancode shift = 0 ↔ scancodeToChar scancode false = 0 := by
  cases shift with
  | false => rfl
  | true =>
    simp only [scancodeToChar, if_true, Bool.false_eq_true, if_false]
    split_ifs
    · rfl
    · by_cases hi : scancode.toNat < 84
      · exact (keymap_facts _ hi).1
      · rw [(keymap_high (not_lt.mp hi)).1, (keymap_high (not_lt.mp hi)).2]

lemma scancodeToChar_backspace {scancode : UInt8} {shift : Bool}
    (h : scancodeToChar scancode shift = 8) : scancode = 0x0E := by
  have hlt : scancode.toNat < 84 := by
    by_contra hge
    obtain ⟨hlow, hhigh⟩ := keymap_high (not_lt.mp hge)
    simp only [scancodeToChar, hlow, hhigh, ite_self] at h
    exact absurd h (by decide)
  have hindex : scancode.toNat = 14 := by
    obtain ⟨-, hlow, hhigh⟩ := keymap_facts _ hlt
    simp only [scancodeToChar] at h
    split_ifs at h
    · exact absurd h (by decide)
    · exact hhigh h
    · exact hlow h
  exact UInt8.toNat_inj.mp hindex

/-! ## One event -/

variable {ev : KeyEvent} {evs : List KeyEvent} {shift down renewed : Bool}
variable {s : ReadState} {len : ℕ}

lemma isSome_charOf (shift : Bool) (ev : KeyEvent) : (charOf shift ev).isSome = ev.isChar := by
  have hzero : decide (scancodeToChar ev.scancode shift = 0) =
      decide (scancodeToChar ev.scancode false = 0) :=
    decide_eq_decide.mpr (scancodeToChar_eq_zero ev.scancode shift)
  rw [KeyEvent.isChar, charOf, charOf, hzero]
  split_ifs <;> rfl

lemma charOf_eq_none (h : ev.isChar = false) (shift : Bool) : charOf shift ev = none := by
  rw [← isSome_charOf shift] at h
  exact Option.isNone_iff_eq_none.mp (by simpa using h)

lemma isShift_of_isChar (h : ev.isChar = true) : ev.isShift = false := by
  by_contra hshift
  rw [Bool.not_eq_false] at hshift
  rw [KeyEvent.isChar, charOf, hshift] at h
  simp at h

lemma readEvent_spec (s : ReadState) (hback : ev.isBackspace = false) :
    (readEvent s ev).shift = shiftAfter s.shift ev ∧
      (readEvent s ev).buf = s.buf ++ (charOf s.shift ev).toList ∧
      ((readEvent s ev).stop = true → s.stop = true ∨ ev.isChar = true) := by
  have hchar := isSome_charOf s.shift ev
  simp only [readEvent, shiftAfter, charOf, KeyEvent.isShift, KeyEvent.isBackspace] at hback hchar ⊢
  cases hpressed : ev.pressed with
  | false =>
    simp only [Bool.not_false, if_true, Bool.true_or, Option.toList_none, append_nil]
    split_ifs with hshift <;> simp_all
  | true =>
    have hne : scancodeToChar ev.scancode s.shift ≠ 8 := by
      intro heq
      simp [hpressed, scancodeToChar_backspace heq] at hback
    rw [hpressed] at hchar
    split_ifs <;> simp_all

/-! ## Reads that deliver what the stream means -/

lemma readLoop_of_done (h : s.done len = true) (evs : List KeyEvent) :
    readLoop len s evs = some (s, evs) := by
  cases evs with
  | nil => rw [readLoop, if_pos h]
  | cons ev evs => rw [readLoop, if_pos h]

lemma readLoop_cons (h : s.done len = false) (ev : KeyEvent) (evs : List KeyEvent) :
    readLoop len s (ev :: evs) = readLoop len (readEvent s ev) evs := by
  rw [readLoop, if_neg (by simp [h])]

lemma isChar_of_done (hback : ev.isBackspace = false) (hbefore : s.done len = false)
    (hafter : (readEvent s ev).done len = true) : ev.isChar = true := by
  obtain ⟨-, hbuf, hstop⟩ := readEvent_spec s hback
  by_contra hchar
  rw [Bool.not_eq_true] at hchar
  rw [charOf_eq_none hchar, Option.toList_none, append_nil] at hbuf
  simp only [ReadState.done, Bool.or_eq_false_iff, Bool.or_eq_true, hbuf] at hbefore hafter
  rcases hafter with hafter | hafter
  · rcases hstop hafter with hbad | hbad
    · simp [hbefore.1] at hbad
    · simp [hchar] at hbad
  · simp [hbefore.2] at hafter

/-- The Shift key of a read is that of the stream, or it was last changed before the last character. -/
def Agree (down renewed shift : Bool) : Prop :=
  (renewed = true → shift = down) ∧ (shift = true → down = true)

lemma Agree.charOf_eq (h : Agree down renewed shift)
    (hkey : ev.isChar = true → down = true → renewed = true ∨ charOf true ev = charOf false ev) :
    charOf shift ev = charOf down ev := by
  cases hchar : ev.isChar with
  | false => rw [charOf_eq_none hchar, charOf_eq_none hchar]
  | true =>
    cases shift with
    | true => rw [h.2 rfl]
    | false =>
      cases down with
      | false => rfl
      | true =>
        rcases hkey hchar rfl with hrenewed | heq
        · exact absurd (h.1 hrenewed) (by decide)
        · exact heq.symm

lemma Agree.step (h : Agree down renewed shift) (ev : KeyEvent) :
    Agree (shiftAfter down ev) (ev.isShift || renewed && !ev.isChar) (shiftAfter shift ev) := by
  rw [Agree, shiftAfter, shiftAfter]
  cases ev.isShift with
  | true => simp
  | false =>
    simp only [Bool.false_eq_true, if_false, Bool.false_or, Bool.and_eq_true]
    exact ⟨fun hren => h.1 hren.1, h.2⟩

lemma agree_start (down : Bool) : Agree down false false :=
  ⟨fun h => absurd h (by decide), fun h => absurd h (by decide)⟩

/-- A read delivers the next characters of the stream, and ends right after one. -/
lemma readLoop_decode {s' : ReadState} {rest : List KeyEvent}
    (hloop : readLoop len s evs = some (s', rest)) (hdone : s.done len = false)
    (hback : ∀ ev ∈ evs, ev.isBackspace = false) (hren : ShiftRenewed down renewed evs)
    (hagree : Agree down renewed s.shift) :
    ∃ down', ShiftRenewed down' false rest ∧ (∀ ev ∈ rest, ev.isBackspace = false) ∧
      s'.buf ++ decode down' rest = s.buf ++ decode down evs := by
  induction evs generalizing s down renewed with
  | nil => simp [readLoop, hdone] at hloop
  | cons ev evs ih =>
    have hev := hback ev mem_cons_self
    have hevs : ∀ ev ∈ evs, ev.isBackspace = false := fun e he =>
      hback e (mem_cons_of_mem _ he)
    obtain ⟨hshift, hbuf, -⟩ := readEvent_spec s hev
    rw [readLoop_cons hdone] at hloop
    have hout : (readEvent s ev).buf ++ decode (shiftAfter down ev) evs =
        s.buf ++ decode down (ev :: evs) := by
      rw [hbuf, hagree.charOf_eq hren.1, decode, append_assoc]
    cases hafter : (readEvent s ev).done len with
    | true =>
      rw [readLoop_of_done hafter, Option.some.injEq, Prod.mk.injEq] at hloop
      obtain ⟨rfl, rfl⟩ := hloop
      have hchar := isChar_of_done hev hdone hafter
      have hrest := hren.2
      rw [isShift_of_isChar hchar, hchar, Bool.not_true, Bool.and_false, Bool.or_false] at hrest
      exact ⟨_, hrest, hevs, hout⟩
    | false =>
      rw [← hout]
      exact ih hloop hafter hevs hren.2 (by rw [hshift]; exact hagree.step ev)

lemma readAll_decode {lens : List ℕ} {out : List UInt8} {rest : List KeyEvent}
    (hread : readAll lens evs = some (out, rest)) (hlens : ∀ len ∈ lens, 1 ≤ len)
    (hback : ∀ ev ∈ evs, ev.isBackspace = false) (hren : ShiftRenewed down false evs) :
    ∃ down', out ++ decode down' rest = decode down evs := by
  induction lens generalizing evs down out with
  | nil =>
    rw [readAll, Option.some.injEq, Prod.mk.injEq] at hread
    exact ⟨down, by rw [← hread.1, ← hread.2, nil_append]⟩
  | cons len lens ih =>
    simp only [readAll, stdinReadChars, Option.bind_eq_some_iff, Option.map_eq_some_iff,
      Prod.mk.injEq] at hread
    obtain ⟨r, ⟨⟨s', evs'⟩, hloop, rfl⟩, ⟨out', rest'⟩, hrest, rfl, rfl⟩ := hread
    have hlen := hlens len mem_cons_self
    have hdone : ReadState.start.done len = false := by
      simp only [ReadState.done, ReadState.start, length_nil, Bool.false_or]
      exact decide_eq_false (not_le.mpr hlen)
    obtain ⟨down', hren', hback', hout⟩ :=
      readLoop_decode hloop hdone hback hren (agree_start down)
    obtain ⟨down'', hout'⟩ := ih hrest (fun l hl => hlens l (mem_cons_of_mem _ hl)) hback' hren'
    refine ⟨down'', ?_⟩
    rw [append_assoc, hout', hout]
    rfl

lemma decode_eq_nil (h : ∀ ev ∈ evs, ev.isChar = false) (down : Bool) : decode down evs = [] := by
  induction evs generalizing down with
  | nil => rfl
  | cons ev evs ih =>
    rw [decode, charOf_eq_none (h ev mem_cons_self), Option.toList_none, nil_append]
    exact ih (fun e he => h e (mem_cons_of_mem _ he)) _

lemma consumes_decode {lens : List ℕ} {out : List UInt8} (h : Consumes lens evs out)
    (hback : ∀ ev ∈ evs, ev.isBackspace = false) (hren : ShiftRenewed false false evs) :
    out = decode false evs := by
  obtain ⟨rest, hread, hrest⟩ := h.returns
  obtain ⟨down', hout⟩ := readAll_decode hread h.length_pos hback hren
  rw [← hout, decode_eq_nil hrest, append_nil]

/-! ## One character at a time -/

/-- The characters when Shift is forgotten after each of them. -/
def decodeEach : (shift : Bool) → List KeyEvent → List UInt8
  | _, [] => []
  | shift, ev :: evs =>
    (charOf shift ev).toList ++ decodeEach (!ev.isChar && shiftAfter shift ev) evs

lemma decodeEach_eq_nil (h : ∀ ev ∈ evs, ev.isChar = false) (shift : Bool) :
    decodeEach shift evs = [] := by
  induction evs generalizing shift with
  | nil => rfl
  | cons ev evs ih =>
    rw [decodeEach, charOf_eq_none (h ev mem_cons_self), Option.toList_none, nil_append]
    exact ih (fun e he => h e (mem_cons_of_mem _ he)) _

lemma readLoop_one (hbuf : s.buf = []) (hstop : s.stop = false)
    (hback : ∀ ev ∈ evs, ev.isBackspace = false) :
    (∀ ev ∈ evs, ev.isChar = false) ∨ ∃ s' rest, readLoop 1 s evs = some (s', rest) ∧
      s'.buf ++ decodeEach false rest = decodeEach s.shift evs ∧ rest.length < evs.length ∧
      ∀ ev ∈ rest, ev.isBackspace = false := by
  induction evs generalizing s with
  | nil => exact Or.inl fun ev hev => absurd hev not_mem_nil
  | cons ev evs ih =>
    have hev := hback ev mem_cons_self
    have hevs : ∀ ev ∈ evs, ev.isBackspace = false := fun e he =>
      hback e (mem_cons_of_mem _ he)
    have hdone : s.done 1 = false := by simp [ReadState.done, hbuf, hstop]
    obtain ⟨hshift, hbuf', hstop'⟩ := readEvent_spec s hev
    rw [hbuf, nil_append] at hbuf'
    rw [readLoop_cons hdone, decodeEach]
    cases hchar : ev.isChar with
    | true =>
      refine Or.inr ⟨_, _, readLoop_of_done ?_ evs, ?_, Nat.lt_succ_self _, hevs⟩
      · obtain ⟨c, hc⟩ := Option.isSome_iff_exists.mp ((isSome_charOf s.shift ev).trans hchar)
        simp [ReadState.done, hbuf', hc]
      · rw [hbuf', Bool.not_true, Bool.false_and]
    | false =>
      rw [charOf_eq_none hchar, Option.toList_none] at hbuf'
      have hgoing : (readEvent s ev).stop = false := by
        by_contra hbad
        rcases hstop' (by simpa using hbad) with h | h
        · simp [hstop] at h
        · simp [hchar] at h
      rw [charOf_eq_none hchar, Option.toList_none, nil_append, Bool.not_false, Bool.true_and, ← hshift]
      rcases ih hbuf' hgoing hevs with hnone | ⟨s', rest, hloop, hout, hlen, hrest⟩
      · refine Or.inl fun e he => ?_
        rcases mem_cons.mp he with rfl | he
        · exact hchar
        · exact hnone e he
      · exact Or.inr ⟨s', rest, hloop, hout, Nat.lt_succ_of_lt hlen, hrest⟩

lemma consumes_each (hback : ∀ ev ∈ evs, ev.isBackspace = false) :
    ∃ lens, Consumes lens evs (decodeEach false evs) := by
  induction hlen : evs.length using Nat.strong_induction_on generalizing evs with
  | _ n ih =>
    rcases readLoop_one (s := .start) rfl rfl hback with hnone | ⟨s', rest, hloop, hout, hlt, hrest⟩
    · refine ⟨[], fun len hl => absurd hl not_mem_nil, evs, ?_, hnone⟩
      rw [readAll, decodeEach_eq_nil hnone]
    · obtain ⟨lens, hpos, rest', hread, hchars⟩ := ih rest.length (hlen ▸ hlt) hrest rfl
      refine ⟨1 :: lens, fun len hl => ?_, rest', ?_, hchars⟩
      · rcases mem_cons.mp hl with rfl | hl
        · exact le_refl _
        · exact hpos len hl
      · have hout' : s'.buf ++ decodeEach false rest = decodeEach false evs := hout
        simp only [readAll, stdinReadChars, hloop, Option.map_some, Option.bind_some, hread, hout']

lemma shiftRenewed_of_decodeEach (h : decodeEach (down && renewed) evs = decode down evs) :
    ShiftRenewed down renewed evs := by
  induction evs generalizing down renewed with
  | nil => trivial
  | cons ev evs ih =>
    rw [decodeEach, decode] at h
    cases hchar : ev.isChar with
    | false =>
      rw [charOf_eq_none hchar, charOf_eq_none hchar, hchar] at h
      refine ⟨fun hbad => absurd (hchar.symm.trans hbad) (by decide), ih ?_⟩
      rw [hchar]
      cases hshift : ev.isShift with
      | true => simpa [shiftAfter, hshift] using h
      | false => simpa [shiftAfter, hshift] using h
    | true =>
      have hnot := isShift_of_isChar hchar
      obtain ⟨c, hc⟩ := Option.isSome_iff_exists.mp
        ((isSome_charOf (down && renewed) ev).trans hchar)
      obtain ⟨c', hc'⟩ := Option.isSome_iff_exists.mp ((isSome_charOf down ev).trans hchar)
      rw [hc, hc', hchar] at h
      simp only [Option.toList_some, cons_append, nil_append, cons.injEq] at h
      obtain ⟨rfl, hrest⟩ := h
      refine ⟨fun _ hdown => ?_, ih ?_⟩
      · subst hdown
        cases renewed with
        | true => exact Or.inl rfl
        | false => exact Or.inr (hc'.trans hc.symm)
      · rw [hnot, hchar]
        simpa using hrest

/-! ## The result -/

/-- **When reads agree.**  All ways to consume a stream of key events deliver the same characters, those
that the stream means, exactly if Shift is renewed for each character it changes. -/
theorem reads_agree_iff {evs : List KeyEvent} (hback : ∀ ev ∈ evs, ev.isBackspace = false) :
    ((∀ lens lens' out out', Consumes lens evs out → Consumes lens' evs out' → out = out') ∧
      ∀ lens out, Consumes lens evs out → out = decode false evs) ↔ ShiftRenewed false false evs := by
  constructor
  · rintro ⟨-, hdecode⟩
    obtain ⟨lens, hcons⟩ := consumes_each hback
    exact shiftRenewed_of_decodeEach (hdecode lens _ hcons)
  · intro hren
    refine ⟨fun lens lens' out out' h h' => ?_, fun lens out h => consumes_decode h hback hren⟩
    rw [consumes_decode h hback hren, consumes_decode h' hback hren]

/-- Shift, `a`, Shift, `b`: both keys are pressed while Shift is down. -/
theorem reads_agree_iff_two_presses :
    ((∀ lens lens' out out', Consumes lens [⟨0x2A, true⟩, ⟨0x1E, true⟩, ⟨0x2A, true⟩, ⟨0x30, true⟩] out →
        Consumes lens' [⟨0x2A, true⟩, ⟨0x1E, true⟩, ⟨0x2A, true⟩, ⟨0x30, true⟩] out' → out = out') ∧
      ∀ lens out, Consumes lens [⟨0x2A, true⟩, ⟨0x1E, true⟩, ⟨0x2A, true⟩, ⟨0x30, true⟩] out →
        out = decode false [⟨0x2A, true⟩, ⟨0x1E, true⟩, ⟨0x2A, true⟩, ⟨0x30, true⟩]) ∧
      decode false [⟨0x2A, true⟩, ⟨0x1E, true⟩, ⟨0x2A, true⟩, ⟨0x30, true⟩] = [65, 66] := by
  refine ⟨(reads_agree_iff ?_).mpr ?_, ?_⟩
  · decide +kernel
  · decide +kernel
  · decide +kernel

/-- **Shift is forgotten between two reads.**  Shift, `a`, `b` is `AB` for a read of two characters, and
`Ab` for two reads of one. -/
theorem shift_forgotten_between_reads :
    Consumes [2] [⟨0x2A, true⟩, ⟨0x1E, true⟩, ⟨0x30, true⟩] [65, 66] ∧
      Consumes [1, 1] [⟨0x2A, true⟩, ⟨0x1E, true⟩, ⟨0x30, true⟩] [65, 98] ∧
      decode false [⟨0x2A, true⟩, ⟨0x1E, true⟩, ⟨0x30, true⟩] = [65, 66] := by
  refine ⟨⟨by decide, [], by decide +kernel, by decide⟩, ⟨by decide, [], by decide +kernel, by decide⟩, ?_⟩
  decide +kernel

end MyOs
