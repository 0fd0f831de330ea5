import MyOs.Debug.Gdb

/-!
# Packets on the serial line

`gdb_read_packet` and `gdb_send_packet` of `src/gdb.c`.  A packet is `$`, the payload, `#` and two
hexadecimal digits with the sum of the payload; it is acknowledged with `+`, or refused with `-`.

The stub tells the debugger that packets may have `0x400` bytes, but it has a buffer of 512: of a longer
payload it keeps 511 bytes, sums up all of them, and acknowledges.  A character of the checksum that is no
digit counts as -1, which leaves ones in the sum, so that such a checksum can be right by accident.  There
are no other ways to acknowledge something else than what was sent (`packet_exact_iff`).

The serial line is the list of the bytes to come; there is no result if they do not suffice, since
`serial_getc` waits then.
-/

namespace MyOs

open Lib List

variable {payload junk rest : List UInt8} {x y : UInt8}

/-- What `PacketSize=400` promises. -/
abbrev packetSize : ℕ := 0x400

/-- The sum that the checksum is for. -/
def checksum (payload : List UInt8) : UInt8 := payload.foldl (· + ·) 0

/-- `gdb_send_packet`: what goes out on the serial line. -/
def gdbSendPacket (data : List UInt8) : List UInt8 :=
  let csum := (checksum data).toNat
  chr '$' :: data ++ [chr '#', intToHex (csum >>> 4), intToHex csum]

/-- What `gdb_read_packet` leaves behind: the text in the buffer, the result, the answer on the serial
line, and what is still to come. -/
structure Received where
  buf : List UInt8
  len : ℕ
  sent : List UInt8
  input : List UInt8
  deriving DecidableEq

/-- The result of `hex_to_int` as a byte: -1 is `0xFF`. -/
def hexByte (c : UInt8) : UInt8 :=
  match hexToInt c with
  | some v => UInt8.ofNat v
  | none => 0xFF

/-- `(hi << 4) | lo`, as a byte. -/
def receivedSum (hi lo : UInt8) : UInt8 := hexByte hi <<< 4 ||| hexByte lo

/-- The loop over the payload: the buffer and the sum at `#`. -/
def gdbReadLoop (max : ℕ) : (buf : List UInt8) → (csum : UInt8) → (input : List UInt8) →
    Option (List UInt8 × UInt8 × List UInt8)
  | _, _, [] => none
  | buf, csum, c :: input =>
    if c = chr '#' then some (buf, csum, input)
    else gdbReadLoop max (if buf.length + 1 < max then buf ++ [c] else buf) (csum + c) input

/-- The end of `gdb_read_packet`, where the checksum is compared. -/
def gdbReadSum (buf : List UInt8) (csum : UInt8) : (input : List UInt8) → Option Received
  | hi :: lo :: input =>
    if receivedSum hi lo ≠ csum then some ⟨buf, 0, [chr '-'], input⟩
    else some ⟨buf, buf.length, [chr '+'], input⟩
  | _ => none

/-- `gdb_read_packet`.  Everything before `$` is skipped, except an interrupt from the debugger. -/
def gdbReadPacket (max : ℕ) : (input : List UInt8) → Option Received
  | [] => none
  | c :: input =>
    if c = 0x03 then some ⟨[], 0, [], input⟩
    else if c ≠ chr '$' then gdbReadPacket max input
    else
      match gdbReadLoop max [] 0 input with
      | none => none
      | some (buf, csum, input) => gdbReadSum buf csum input

/-! ## Digits -/

lemma hexByte_of_some {v : ℕ} (h : hexToInt x = some v) : hexByte x = UInt8.ofNat v := by
  rw [hexByte, h]

lemma hexByte_of_none (h : hexToInt x = none) : hexByte x = 0xFF := by
  rw [hexByte, h]

lemma receivedSum_of_hex {h l : ℕ} (hx : hexToInt x = some h) (hy : hexToInt y = some l) :
    (receivedSum x y).toNat = 16 * h + l := by
  have hall : ∀ h < 16, ∀ l < 16, (UInt8.ofNat h <<< 4 ||| UInt8.ofNat l).toNat = 16 * h + l := by decide
  rw [receivedSum, hexByte_of_some hx, hexByte_of_some hy]
  exact hall h (hexToInt_lt hx) l (hexToInt_lt hy)

lemma receivedSum_of_low (hy : hexToInt y = none) (x : UInt8) : (receivedSum x y).toNat = 0xFF := by
  have hall : ∀ n < 256, (UInt8.ofNat n <<< 4 ||| 0xFF).toNat = 0xFF := by decide +kernel
  have hb := hall (hexByte x).toNat (hexByte x).toNat_lt
  rwa [receivedSum, hexByte_of_none hy, ← UInt8.ofNat_toNat (x := hexByte x)]

lemma receivedSum_of_high {l : ℕ} (hx : hexToInt x = none) (hy : hexToInt y = some l) :
    (receivedSum x y).toNat = 0xF0 + l := by
  have hall : ∀ l < 16, ((0xFF : UInt8) <<< 4 ||| UInt8.ofNat l).toNat = 0xF0 + l := by decide
  rw [receivedSum, hexByte_of_none hx, hexByte_of_some hy]
  exact hall l (hexToInt_lt hy)

/-! ## Reading -/

/-- The sum of the bytes modulo 256. -/
def byteSum (payload : List UInt8) : ℕ := (payload.map UInt8.toNat).sum % 256

lemma foldl_add_eq (csum : UInt8) (payload : List UInt8) :
    payload.foldl (· + ·) csum = csum + checksum payload := by
  induction payload generalizing csum with
  | nil => simp [checksum]
  | cons c payload ih =>
    rw [checksum, foldl_cons, foldl_cons, ih, ih (0 + c), UInt8.zero_add, UInt8.add_assoc]

lemma checksum_cons (c : UInt8) (payload : List UInt8) : checksum (c :: payload) = c + checksum payload := by
  rw [checksum, foldl_cons, foldl_add_eq, UInt8.zero_add]

lemma checksum_toNat (payload : List UInt8) : (checksum payload).toNat = byteSum payload := by
  induction payload with
  | nil => rfl
  | cons c payload ih =>
    rw [checksum_cons, UInt8.toNat_add, ih, byteSum, byteSum, map_cons, sum_cons]
    omega

lemma gdbReadLoop_eq {max : ℕ} {buf : List UInt8} (hbuf : buf.length < max) (csum : UInt8)
    (hpayload : chr '#' ∉ payload) (input : List UInt8) :
    gdbReadLoop max buf csum (payload ++ chr '#' :: input) =
      some ((buf ++ payload).take (max - 1), csum + checksum payload, input) := by
  induction payload generalizing buf csum with
  | nil =>
    rw [nil_append, gdbReadLoop, if_pos rfl, append_nil, take_of_length_le (by omega)]
    simp [checksum]
  | cons c payload ih =>
    rw [mem_cons, not_or] at hpayload
    rw [cons_append, gdbReadLoop, if_neg (Ne.symm hpayload.1), checksum_cons, ← UInt8.add_assoc]
    split_ifs with hroom
    · rw [ih (by simpa using hroom) _ hpayload.2, append_assoc, singleton_append]
    · -- the buffer is full
      have hlen : buf.length = max - 1 := by omega
      rw [ih hbuf _ hpayload.2, ← hlen, take_left, take_left]

lemma gdbReadPacket_eq {max : ℕ} (hmax : 0 < max) (hjunk : ∀ c ∈ junk, c ≠ chr '$' ∧ c ≠ 0x03)
    (hpayload : chr '#' ∉ payload) (input : List UInt8) :
    gdbReadPacket max (junk ++ chr '$' :: (payload ++ chr '#' :: input)) =
      gdbReadSum (payload.take (max - 1)) (checksum payload) input := by
  induction junk with
  | nil =>
    have hne : chr '$' ≠ 0x03 := by decide
    rw [nil_append, gdbReadPacket, if_neg hne, if_neg (not_not.mpr rfl), gdbReadLoop_eq hmax 0 hpayload]
    simp
  | cons c junk ih =>
    obtain ⟨hdollar, hbreak⟩ := hjunk c mem_cons_self
    rw [cons_append, gdbReadPacket, if_neg hbreak, if_pos hdollar]
    exact ih fun b hb => hjunk b (mem_cons_of_mem _ hb)

/-! ## What is acknowledged -/

/-- The two characters are the digits of the sum. -/
def ChecksumOk (payload : List UInt8) (x y : UInt8) : Prop :=
  ∃ h l, hexToInt x = some h ∧ hexToInt y = some l ∧ 16 * h + l = byteSum payload

/-- The packet is acknowledged if its checksum is right, and only a payload that is all in the buffer is
acknowledged. -/
def ReadsExactly (payload : List UInt8) (x y : UInt8) (r : Option Received) : Prop :=
  ∃ p, r = some p ∧ (p.sent = [chr '+'] ↔ ChecksumOk payload x y) ∧
    (p.sent = [chr '+'] → p.buf = payload ∧ p.len = payload.length)

/-- A payload with the right checksum fits into the buffer with its terminator, and characters that are no
digits are not the sum by accident. -/
structure Accountable (payload : List UInt8) (x y : UInt8) : Prop where
  fits : ChecksumOk payload x y → payload.length < gdbMaxPacket
  low : hexToInt y = none → byteSum payload ≠ 0xFF
  high : ∀ l, hexToInt x = none → hexToInt y = some l → byteSum payload ≠ 0xF0 + l

lemma receivedSum_eq_iff : receivedSum x y = checksum payload ↔
    ChecksumOk payload x y ∨ (hexToInt y = none ∧ byteSum payload = 0xFF) ∨
      ∃ l, hexToInt x = none ∧ hexToInt y = some l ∧ byteSum payload = 0xF0 + l := by
  rw [← UInt8.toNat_inj, checksum_toNat]
  cases hy : hexToInt y with
  | none =>
    rw [receivedSum_of_low hy]
    simp [ChecksumOk, hy, eq_comm]
  | some l =>
    cases hx : hexToInt x with
    | none =>
      rw [receivedSum_of_high hx hy]
      simp [ChecksumOk, hx, hy, eq_comm]
    | some h =>
      rw [receivedSum_of_hex hx hy]
      simp [ChecksumOk, hx, hy]

lemma gdbReadSum_sent (buf : List UInt8) (csum x y : UInt8) (rest : List UInt8) :
    ∃ p, gdbReadSum buf csum (x :: y :: rest) = some p ∧ p.buf = buf ∧ p.input = rest ∧
      (p.sent = [chr '+'] ↔ receivedSum x y = csum) ∧ (p.sent = [chr '+'] → p.len = buf.length) := by
  have hne : [chr '-'] ≠ [chr '+'] := by decide
  rw [gdbReadSum]
  split_ifs with hsum
  · exact ⟨_, rfl, rfl, rfl, iff_of_false hne hsum, fun h => absurd h hne⟩
  · exact ⟨_, rfl, rfl, rfl, iff_of_true rfl (not_not.mp hsum), fun _ => rfl⟩

lemma take_eq_self_iff (payload : List UInt8) :
    payload.take (gdbMaxPacket - 1) = payload ↔ payload.length < gdbMaxPacket := by
  rw [List.take_eq_self_iff, gdbMaxPacket]
  omega

lemma checksumOk_sent (payload : List UInt8) :
    ChecksumOk payload (intToHex ((checksum payload).toNat >>> 4)) (intToHex (checksum payload).toNat) := by
  refine ⟨_, _, hexToInt_intToHex _, hexToInt_intToHex _, ?_⟩
  have hlt := (checksum payload).toNat_lt
  rw [← checksum_toNat, Nat.shiftRight_eq_div_pow]
  omega

/-- **What is acknowledged.**  For every packet on the line, behind anything that does not begin one: it is
acknowledged exactly if the checksum is right, and then the payload is in the buffer, exactly if a payload
with the right checksum fits and no other character happens to make up the sum.  A packet that
`gdb_send_packet` sends is read back exactly if it fits. -/
theorem packet_exact_iff (hjunk : ∀ c ∈ junk, c ≠ chr '$' ∧ c ≠ 0x03) (hpayload : chr '#' ∉ payload)
    (x y : UInt8) (rest : List UInt8) :
    (ReadsExactly payload x y (gdbReadPacket gdbMaxPacket
      (junk ++ chr '$' :: (payload ++ chr '#' :: x :: y :: rest))) ↔ Accountable payload x y) ∧
    (gdbReadPacket gdbMaxPacket (junk ++ gdbSendPacket payload ++ rest) =
      some ⟨payload, payload.length, [chr '+'], rest⟩ ↔ payload.length < gdbMaxPacket) := by
  constructor
  · rw [gdbReadPacket_eq (by decide) hjunk hpayload]
    obtain ⟨p, hp, hbuf, -, hsent, hlen⟩ :=
      gdbReadSum_sent (payload.take (gdbMaxPacket - 1)) (checksum payload) x y rest
    rw [receivedSum_eq_iff] at hsent
    constructor
    · rintro ⟨q, hq, hiff, hkept⟩
      cases hp.symm.trans hq
      refine ⟨fun hok => ?_, fun hy hsum => ?_, fun l hx hy hsum => ?_⟩
      · rw [← take_eq_self_iff, ← hbuf]
        exact (hkept (hiff.mpr hok)).1
      · obtain ⟨_, _, -, hy', -⟩ := hiff.mp (hsent.mpr (Or.inr (Or.inl ⟨hy, hsum⟩)))
        rw [hy] at hy'
        cases hy'
      · obtain ⟨_, _, hx', -⟩ := hiff.mp (hsent.mpr (Or.inr (Or.inr ⟨l, hx, hy, hsum⟩)))
        rw [hx] at hx'
        cases hx'
    · intro hacc
      have hiff : p.sent = [chr '+'] ↔ ChecksumOk payload x y := by
        rw [hsent]
        refine ⟨?_, Or.inl⟩
        rintro (hok | ⟨hy, hsum⟩ | ⟨l, hx, hy, hsum⟩)
        · exact hok
        · exact absurd hsum (hacc.low hy)
        · exact absurd hsum (hacc.high l hx hy)
      refine ⟨p, hp, hiff, fun hack => ?_⟩
      have hkept := (take_eq_self_iff payload).mpr (hacc.fits (hiff.mp hack))
      rw [hlen hack, hbuf, hkept]
      exact ⟨rfl, rfl⟩
  · have hline : junk ++ gdbSendPacket payload ++ rest =
        junk ++ chr '$' :: (payload ++ chr '#' :: intToHex ((checksum payload).toNat >>> 4) ::
          intToHex (checksum payload).toNat :: rest) := by
      simp [gdbSendPacket]
    have hsum := receivedSum_eq_iff.mpr (Or.inl (checksumOk_sent payload))
    rw [hline, gdbReadPacket_eq (by decide) hjunk hpayload, gdbReadSum, if_neg (not_not.mpr hsum),
      ← take_eq_self_iff]
    constructor
    · intro h
      exact congrArg Received.buf (Option.some.inj h)
    · intro h
      rw [h]

theorem packet_exact_question : ReadsExactly [chr '?'] (chr '3') (chr 'f')
    (gdbReadPacket gdbMaxPacket [chr '+', chr '$', chr '?', chr '#', chr '3', chr 'f']) := by
  have hjunk : ∀ c ∈ [chr '+'], c ≠ chr '$' ∧ c ≠ 0x03 := by decide +kernel
  refine (packet_exact_iff hjunk (by decide) (chr '3') (chr 'f') []).1.mpr ?_
  exact ⟨fun _ => by decide, by decide, fun l hx => absurd hx (by decide)⟩

/-- A payload of 512 bytes is acknowledged and one of them is lost, and `zz` is acknowledged as the checksum
of a payload with the sum `0xFF`. -/
theorem packet_acknowledged_wrongly :
    (List.replicate 512 (chr 'a')).length ≤ packetSize ∧
    gdbReadPacket gdbMaxPacket (gdbSendPacket (List.replicate 512 (chr 'a'))) =
      some ⟨List.replicate 511 (chr 'a'), 511, [chr '+'], []⟩ ∧
    gdbReadPacket gdbMaxPacket [chr '$', 0xFF, chr '#', chr 'z', chr 'z'] =
      some ⟨[0xFF], 1, [chr '+'], []⟩ ∧
    ¬ ChecksumOk [0xFF] (chr 'z') (chr 'z') := by
  have hz : hexToInt (chr 'z') = none := by decide
  refine ⟨by rw [length_replicate]; decide, by decide +kernel, by decide, ?_⟩
  rintro ⟨h, l, hx, -⟩
  rw [hz] at hx
  cases hx

end MyOs
