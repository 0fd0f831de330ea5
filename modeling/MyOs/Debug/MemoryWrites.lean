import MyOs.Debug.Rearming

/-!
# Writing memory through the debugger

The command `M addr,len:data` of `gdb_handle_command`.  Three functions have a part in it: the numbers
are parsed, the length of the data is compared with `len * 2`, and `gdb_write_memory` stores byte by
byte.  The last one stops at a pair of characters that are no digits, and nobody learns of it; and the
product of the comparison is taken modulo `2^64`.

So the answer `OK` tells the truth, and any other answer leaves memory alone, exactly if the data begins
with `2 * len` digits, or is shorter than the product modulo `2^64` (`memory_write_exact_iff`).  What
was stored is then what the command `m` answers, in lower case.

The numbers are taken as they are written, however long they are; an address is one modulo `2^64`.
-/

namespace MyOs

open Lib List Function

variable {m m' : Memory} {addr len : ℕ} {text data bytes rest : List UInt8}

/-! ## Numbers -/

/-- A number in hexadecimal. -/
def IsHex (text : List UInt8) : Prop := text ≠ [] ∧ ∀ c ∈ text, (hexToInt c).isSome

/-- Its value. -/
def hexValue (text : List UInt8) : ℕ := text.foldl (fun v c => 16 * v + (hexToInt c).getD 0) 0

lemma shift_or_eq (v : ℕ) {d : ℕ} (hd : d < 16) : (v <<< 4) % 2 ^ 64 ||| d = (16 * v + d) % 2 ^ 64 := by
  have hshift : (v <<< 4) % 2 ^ 64 = (v % 2 ^ 60) <<< 4 := by
    rw [Nat.shiftLeft_eq, Nat.shiftLeft_eq]
    omega
  rw [hshift, nibbles_eq hd]
  omega

lemma gdbParseHexLoop_eq (htext : ∀ c ∈ text, (hexToInt c).isSome) (hrest : hexToInt (rest.headD 0) = none)
    (v w : ℕ) (hvw : v = w % 2 ^ 64) :
    gdbParseHexLoop v (text ++ rest) =
      (text.foldl (fun v c => 16 * v + (hexToInt c).getD 0) w % 2 ^ 64, rest) := by
  induction text generalizing v w with
  | nil =>
    cases rest with
    | nil => rw [hvw]; rfl
    | cons c rest =>
      have hc : hexToInt c = none := hrest
      rw [nil_append, gdbParseHexLoop, hc, hvw]
      rfl
  | cons c text ih =>
    obtain ⟨d, hd⟩ := Option.isSome_iff_exists.mp (htext c mem_cons_self)
    rw [cons_append, gdbParseHexLoop, hd, foldl_cons]
    refine ih (fun b hb => htext b (mem_cons_of_mem _ hb)) _ _ ?_
    rw [shift_or_eq v (hexToInt_lt hd), hvw, hd, Option.getD_some]
    omega

lemma gdbParseHex_eq (htext : IsHex text) (hrest : hexToInt (rest.headD 0) = none) :
    gdbParseHex (text ++ rest) = some (hexValue text % 2 ^ 64, rest) := by
  have hpos := length_pos_iff.mpr htext.1
  rw [gdbParseHex, gdbParseHexLoop_eq htext.2 hrest 0 0 rfl]
  dsimp only
  rw [if_neg (by rw [length_append]; omega)]
  rfl

lemma gdbParsePair_eq {text' : List UInt8} (htext : IsHex text) (htext' : IsHex text')
    (hrest : hexToInt (rest.headD 0) = none) :
    gdbParsePair (text ++ chr ',' :: (text' ++ rest)) =
      some (hexValue text % 2 ^ 64, hexValue text' % 2 ^ 64, rest) := by
  have hcomma : hexToInt ((chr ',' :: (text' ++ rest)).headD 0) = none := by
    rw [headD_cons]
    decide
  rw [gdbParsePair, gdbParseHex_eq htext hcomma]
  dsimp only
  rw [if_neg (by rw [headD_cons]; exact not_not.mpr rfl), tail_cons, gdbParseHex_eq htext' hrest]
  rfl

/-! ## Bytes -/

/-- The bytes that a text of pairs of digits stands for. -/
def decodeHex : List UInt8 → Option (List UInt8)
  | [] => some []
  | hi :: lo :: text =>
    match hexToInt hi, hexToInt lo with
    | some h, some l => (decodeHex text).map fun bytes => UInt8.ofNat (h <<< 4 ||| l) :: bytes
    | _, _ => none
  | [_] => none

/-- A digit in lower case. -/
def lowerHex (c : UInt8) : UInt8 := if chr 'A' ≤ c ∧ c ≤ chr 'F' then c + 32 else c

/-- The memory `m'` is `m` with the bytes at `addr` and behind it. -/
def Placed (m : Memory) (addr : ℕ) (bytes : List UInt8) (m' : Memory) : Prop :=
  (∀ i b, bytes[i]? = some b → m' ((addr + i) % 2 ^ 64) = b) ∧
    ∀ a, (∀ i < bytes.length, a ≠ (addr + i) % 2 ^ 64) → m' a = m a

lemma decodeHex_cons {hi lo : UInt8} (h : decodeHex (hi :: lo :: text) = some bytes) :
    ∃ u v rest, hexToInt hi = some u ∧ hexToInt lo = some v ∧ decodeHex text = some rest ∧
      bytes = UInt8.ofNat (u <<< 4 ||| v) :: rest := by
  rw [decodeHex] at h
  cases hhi : hexToInt hi with
  | none => simp [hhi] at h
  | some u =>
    cases hlo : hexToInt lo with
    | none => simp [hhi, hlo] at h
    | some v =>
      simp only [hhi, hlo, Option.map_eq_some_iff] at h
      obtain ⟨rest, hrest, rfl⟩ := h
      exact ⟨u, v, rest, rfl, rfl, hrest, rfl⟩

/-- The data begins with `2 * len` digits. -/
def Encodes (len : ℕ) (data : List UInt8) : Prop :=
  2 * len ≤ data.length ∧ ∀ c ∈ data.take (2 * len), (hexToInt c).isSome

lemma encodes_iff : Encodes len data ↔
    ∃ bytes, decodeHex (data.take (2 * len)) = some bytes ∧ bytes.length = len := by
  induction len generalizing data with
  | zero => simp [Encodes, decodeHex]
  | succ len ih =>
    have hdouble : 2 * (len + 1) = 2 * len + 1 + 1 := by omega
    rcases data with _ | ⟨hi, _ | ⟨lo, data⟩⟩
    · simp [Encodes, decodeHex]
    · refine iff_of_false (fun h => ?_) (by simp [hdouble, decodeHex])
      have hlen := h.1
      rw [length_singleton] at hlen
      omega
    · rw [hdouble, take_succ_cons, take_succ_cons]
      constructor
      · rintro ⟨hlen, hall⟩
        rw [hdouble, take_succ_cons, take_succ_cons] at hall
        have hrest : Encodes len data := by
          refine ⟨by simpa [hdouble] using hlen, fun c hc => hall c ?_⟩
          exact mem_cons_of_mem _ (mem_cons_of_mem _ hc)
        obtain ⟨bytes, hdec, hbytes⟩ := ih.mp hrest
        obtain ⟨u, hu⟩ := Option.isSome_iff_exists.mp (hall hi mem_cons_self)
        obtain ⟨v, hv⟩ := Option.isSome_iff_exists.mp
          (hall lo (mem_cons_of_mem _ mem_cons_self))
        refine ⟨UInt8.ofNat (u <<< 4 ||| v) :: bytes, ?_, by rw [length_cons, hbytes]⟩
        simp only [decodeHex, hu, hv, hdec, Option.map_some]
      · rintro ⟨bytes, hdec, hbytes⟩
        obtain ⟨u, v, tail, hu, hv, htail, rfl⟩ := decodeHex_cons hdec
        obtain ⟨hlen, hall⟩ := ih.mpr ⟨tail, htail, by simpa using hbytes⟩
        refine ⟨by simpa [hdouble] using hlen, fun c hc => ?_⟩
        rw [hdouble, take_succ_cons, take_succ_cons, mem_cons, mem_cons] at hc
        rcases hc with rfl | rfl | hc
        · rw [hu]; rfl
        · rw [hv]; rfl
        · exact hall c hc

lemma Placed.cons {b : UInt8} (haddr : addr < 2 ^ 64) (hlen : bytes.length < 2 ^ 64)
    (h : Placed (update m addr b) ((addr + 1) % 2 ^ 64) bytes m') :
    Placed m addr (b :: bytes) m' := by
  have hshift : ∀ i, ((addr + 1) % 2 ^ 64 + i) % 2 ^ 64 = (addr + (i + 1)) % 2 ^ 64 := by omega
  have hself : m' addr = b := by
    rw [h.2 addr fun i hi => by omega, update_self]
  refine ⟨fun i c hc => ?_, fun a ha => ?_⟩
  · cases i with
    | zero =>
      cases hc
      rwa [Nat.add_zero, Nat.mod_eq_of_lt haddr]
    | succ i =>
      rw [← hshift]
      exact h.1 i c hc
  · have hne : a ≠ addr := by
      have := ha 0 (Nat.succ_pos _)
      rwa [Nat.add_zero, Nat.mod_eq_of_lt haddr] at this
    rw [h.2 a, update_of_ne hne]
    intro i hi
    rw [hshift]
    exact ha (i + 1) (Nat.succ_lt_succ hi)

lemma gdbWriteMemory_placed (haddr : addr < 2 ^ 64) (hlen : len < 2 ^ 64)
    (hdec : decodeHex (data.take (2 * len)) = some bytes) (hbytes : bytes.length = len) (m : Memory) :
    Placed m addr bytes (gdbWriteMemory m addr data len) := by
  induction len generalizing m addr data bytes with
  | zero =>
    rw [length_eq_zero_iff] at hbytes
    subst hbytes
    refine ⟨nofun, fun a _ => ?_⟩
    rw [gdbWriteMemory]
    rintro _ _ _ _ _ ⟨⟩
  | succ len ih =>
    have hdouble : 2 * (len + 1) = 2 * len + 1 + 1 := by omega
    rw [hdouble] at hdec
    rcases data with _ | ⟨hi, _ | ⟨lo, data⟩⟩
    · cases hdec
      cases hbytes
    · cases hdec
    · obtain ⟨u, v, tail, hu, hv, htail, rfl⟩ := decodeHex_cons hdec
      rw [length_cons] at hbytes
      rw [gdbWriteMemory, hu, hv]
      exact Placed.cons haddr (by omega)
        (ih (Nat.mod_lt _ (by decide)) (by omega) htail (by omega) _)

/-! ## Reading back -/

lemma intToHex_of_hexToInt {c : UInt8} {v : ℕ} (h : hexToInt c = some v) : intToHex v = lowerHex c := by
  have hall : ∀ n < 256, ∀ w ∈ hexToInt (UInt8.ofNat n), intToHex w = lowerHex (UInt8.ofNat n) := by
    decide +kernel
  have := hall c.toNat c.toNat_lt v (by rwa [UInt8.ofNat_toNat])
  rwa [UInt8.ofNat_toNat] at this

lemma gdbAppendHex_eq {hi lo : UInt8} {u v : ℕ} (hu : hexToInt hi = some u) (hv : hexToInt lo = some v) :
    gdbAppendHex (UInt8.ofNat (u <<< 4 ||| v)) = [lowerHex hi, lowerHex lo] := by
  have hult := hexToInt_lt hu
  have hvlt := hexToInt_lt hv
  have hall : ∀ u < 16, ∀ v < 16,
      gdbAppendHex (UInt8.ofNat (u <<< 4 ||| v)) = [intToHex u, intToHex v] := by decide +kernel
  rw [hall u hult v hvlt, intToHex_of_hexToInt hu, intToHex_of_hexToInt hv]

lemma flatMap_appendHex (h : decodeHex text = some bytes) :
    bytes.flatMap gdbAppendHex = text.map lowerHex := by
  induction text using decodeHex.induct generalizing bytes with
  | case1 =>
    cases h
    rfl
  | case2 hi lo text u v hu hv ih =>
    obtain ⟨u', v', tail, hu', hv', htail, rfl⟩ := decodeHex_cons h
    rw [flatMap_cons, gdbAppendHex_eq hu' hv', ih htail]
    rfl
  | case3 hi lo text hbad =>
    obtain ⟨u', v', -, hu', hv', -⟩ := decodeHex_cons h
    exact absurd hv' (hbad u' v' hu')
  | case4 c => cases h

lemma Placed.gdbReadMemory_eq (h : Placed m addr bytes m') :
    gdbReadMemory m' addr bytes.length = bytes.flatMap gdbAppendHex := by
  have hread : ((range bytes.length).map fun i => m' ((addr + i) % 2 ^ 64)) = bytes := by
    refine ext_getElem? fun i => ?_
    rw [getElem?_map]
    cases hi : bytes[i]? with
    | none => rw [getElem?_eq_none (by simpa using hi), Option.map_none]
    | some b =>
      rw [getElem?_range (List.getElem?_eq_some_iff.mp hi).1, Option.map_some, h.1 i b hi]
  rw [gdbReadMemory, ← flatMap_map, hread]

/-! ## The command -/

/-- `OK` says that the `len` bytes which the first `2 * len` digits stand for were stored, and nothing else;
any other answer that nothing was. -/
def StoresExactly (m : Memory) (addr len : ℕ) (data : List UInt8) (a : Answer) : Prop :=
  (a.reply = some (ascii "OK") → ∃ bytes, decodeHex (data.take (2 * len)) = some bytes ∧
    bytes.length = len ∧ Placed m addr bytes a.gdb.mem) ∧
  (a.reply ≠ some (ascii "OK") → a.gdb.mem = m)

lemma le_strlen (hlen : len ≤ data.length) (h : ∀ c ∈ data.take len, c ≠ 0) : len ≤ strlen data := by
  have hsplit : data.takeWhile (· ≠ 0) = data.take len ++ (data.drop len).takeWhile (· ≠ 0) := by
    conv_lhs => rw [← take_append_drop len data]
    exact takeWhile_append_of_pos fun c hc => by simpa using h c hc
  rw [strlen, hsplit, length_append, length_take]
  omega

lemma strlen_le_length (data : List UInt8) : strlen data ≤ data.length :=
  (takeWhile_sublist _).length_le

section Command

variable {addrText lenText : List UInt8} (haddr : IsHex addrText) (hlen : IsHex lenText) (frameAddr : ℕ)
  (g : Gdb) (frame : Frame)

include haddr hlen

lemma gdbHandleCommand_write (data : List UInt8) :
    gdbHandleCommand frameAddr (chr 'M' :: (addrText ++ chr ',' :: (lenText ++ chr ':' :: data))) g frame =
      if strlen data < 2 * hexValue lenText % 2 ^ 64 then ⟨g, frame, some (ascii "E02"), none⟩
      else
        ⟨{ g with
            mem := gdbWriteMemory g.mem (hexValue addrText % 2 ^ 64) data (hexValue lenText % 2 ^ 64) },
          frame, some (ascii "OK"), none⟩ := by
  have hcolon : hexToInt ((chr ':' :: data).headD 0) = none := by
    rw [headD_cons]
    decide
  have hne : chr 'M' ≠ chr '?' ∧ chr 'M' ≠ chr 'g' ∧ chr 'M' ≠ chr 'm' := by decide
  have hdouble : hexValue lenText % 2 ^ 64 * 2 % 2 ^ 64 = 2 * hexValue lenText % 2 ^ 64 := by omega
  have hwrite : gdbWrite g (addrText ++ chr ',' :: (lenText ++ chr ':' :: data)) =
      if strlen data < 2 * hexValue lenText % 2 ^ 64 then (g, ascii "E02")
      else
        ({ g with
            mem := gdbWriteMemory g.mem (hexValue addrText % 2 ^ 64) data (hexValue lenText % 2 ^ 64) },
          ascii "OK") := by
    rw [gdbWrite, gdbParsePair_eq haddr hlen hcolon]
    dsimp only
    rw [headD_cons, if_neg (not_not.mpr rfl), tail_cons, hdouble]
  simp only [gdbHandleCommand, headD_cons, tail_cons, hne.1, hne.2.1, hne.2.2, if_true,
    if_false, hwrite]
  split_ifs <;> rfl

lemma gdbHandleCommand_readBack (hshort : hexValue lenText ≤ gdbMaxPacket / 2) :
    (gdbHandleCommand frameAddr (chr 'm' :: (addrText ++ chr ',' :: lenText)) g frame).reply =
      some (gdbReadMemory g.mem (hexValue addrText % 2 ^ 64) (hexValue lenText)) := by
  have hne : chr 'm' ≠ chr '?' ∧ chr 'm' ≠ chr 'g' := by decide
  have hnil : hexToInt (([] : List UInt8).headD 0) = none := by decide
  have hpair := gdbParsePair_eq haddr hlen hnil
  rw [append_nil] at hpair
  have hsmall : hexValue lenText ≤ 256 := hshort
  have hlt : hexValue lenText % 2 ^ 64 = hexValue lenText := Nat.mod_eq_of_lt (by omega)
  have hread : gdbRead g (addrText ++ chr ',' :: lenText) =
      gdbReadMemory g.mem (hexValue addrText % 2 ^ 64) (hexValue lenText) := by
    rw [gdbRead, hpair]
    dsimp only
    rw [hlt, if_neg (not_lt.mpr hshort)]
  simp only [gdbHandleCommand, headD_cons, tail_cons, hne.1, hne.2, if_true, if_false, hread]

/-- **Writing memory.**  For every command `M addr,len:data`: `OK` is answered only if exactly the `len` bytes
were stored, and memory is unchanged after any other answer, exactly if the data begins with `2 * len`
digits or is shorter than `2 * len` modulo `2^64`.  After such an `OK` the command `m` answers with the
digits in lower case. -/
theorem memory_write_exact_iff {data : List UInt8} (hdata : data.length < gdbMaxPacket) :
    let a := gdbHandleCommand frameAddr
      (chr 'M' :: (addrText ++ chr ',' :: (lenText ++ chr ':' :: data))) g frame
    (StoresExactly g.mem (hexValue addrText % 2 ^ 64) (hexValue lenText) data a ↔
      Encodes (hexValue lenText) data ∨ strlen data < 2 * hexValue lenText % 2 ^ 64) ∧
    (StoresExactly g.mem (hexValue addrText % 2 ^ 64) (hexValue lenText) data a →
      a.reply = some (ascii "OK") → hexValue lenText ≤ 255 →
      (gdbHandleCommand frameAddr (chr 'm' :: (addrText ++ chr ',' :: lenText)) a.gdb a.frame).reply =
        some ((data.take (2 * hexValue lenText)).map lowerHex)) := by
  intro a
  constructor
  · have hcmd : a = _ := gdbHandleCommand_write haddr hlen frameAddr g frame data
    have hne : some (ascii "E02") ≠ some (ascii "OK") := by decide
    by_cases hshort : strlen data < 2 * hexValue lenText % 2 ^ 64
    · rw [if_pos hshort] at hcmd
      refine iff_of_true ⟨fun hok => ?_, fun _ => ?_⟩ (Or.inr hshort)
      · rw [hcmd] at hok
        exact absurd hok hne
      · rw [hcmd]
    · rw [if_neg hshort] at hcmd
      rw [or_iff_left hshort, encodes_iff]
      constructor
      · rintro ⟨hok, -⟩
        obtain ⟨bytes, hdec, hbytes, -⟩ := hok (by rw [hcmd])
        exact ⟨bytes, hdec, hbytes⟩
      · rintro ⟨bytes, hdec, hbytes⟩
        have hsmall : 2 * hexValue lenText ≤ data.length := (encodes_iff.mpr ⟨bytes, hdec, hbytes⟩).1
        have hbound : data.length < 512 := hdata
        have hlt : hexValue lenText < 2 ^ 64 := by omega
        have hplaced := gdbWriteMemory_placed
          (Nat.mod_lt (hexValue addrText) (by decide : 0 < 2 ^ 64)) hlt hdec hbytes g.mem
        refine ⟨fun _ => ⟨bytes, hdec, hbytes, ?_⟩, fun hno => ?_⟩
        · rw [hcmd, Nat.mod_eq_of_lt hlt]
          exact hplaced
        · rw [hcmd] at hno
          exact absurd rfl hno
  · rintro ⟨hok, -⟩ hreply hsmall
    obtain ⟨bytes, hdec, hbytes, hplaced⟩ := hok hreply
    rw [gdbHandleCommand_readBack haddr hlen frameAddr _ _ (hsmall.trans (by decide)),
      ← flatMap_appendHex hdec, ← hplaced.gdbReadMemory_eq, hbytes]

end Command

theorem memory_write_exact_twoBytes :
    StoresExactly (fun _ => 0x90) 0x10 2 (ascii "4f4B")
      (gdbHandleCommand 0 (ascii "M10,2:4f4B") nopStub.gdb {}) := by
  have haddr : IsHex (ascii "10") := ⟨by decide, by decide +kernel⟩
  have hlen : IsHex (ascii "2") := ⟨by decide, by decide +kernel⟩
  have hdata : (ascii "4f4B").length < gdbMaxPacket := by decide
  exact (memory_write_exact_iff haddr hlen 0 nopStub.gdb {} hdata).1.mpr (Or.inl ⟨by decide, by decide +kernel⟩)

/-- The second byte is no digits, and `OK` is answered after one byte was stored; and a length of `2^63`,
twice of which is 0, is answered with `OK` as well. -/
theorem memory_write_answers_ok :
    ¬ StoresExactly (fun _ => 0x90) 0x10 2 (ascii "41zz")
      (gdbHandleCommand 0 (ascii "M10,2:41zz") nopStub.gdb {}) ∧
    (gdbHandleCommand 0 (ascii "M10,2:41zz") nopStub.gdb {}).gdb.mem 0x10 = 0x41 ∧
    ¬ StoresExactly (fun _ => 0x90) 0x10 (2 ^ 63) (ascii "41")
      (gdbHandleCommand 0 (ascii "M10,8000000000000000:41") nopStub.gdb {}) := by
  refine ⟨fun h => ?_, by decide +kernel, fun h => ?_⟩
  · obtain ⟨bytes, hdec, -⟩ := h.1 (by decide +kernel)
    have hnone : decodeHex ((ascii "41zz").take (2 * 2)) = none := by decide
    rw [hnone] at hdec
    cases hdec
  · obtain ⟨bytes, hdec, hlen, -⟩ := h.1 (by decide +kernel)
    have hone : decodeHex ((ascii "41").take (2 * 2 ^ 63)) = some [0x41] := by decide +kernel
    rw [hone] at hdec
    cases hdec
    exact absurd hlen (by decide)

end MyOs
