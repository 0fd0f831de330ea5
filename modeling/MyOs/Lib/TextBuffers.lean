import Mathlib.Data.List.GetD
import MyOs.Lib.Bytes

/-!
# Text in a buffer

Addresses count from the start of the buffer, and `lay m text` is the memory `m` with `text` written
there.  There are two ways to write a text of unknown length into `size` bytes.

* `Sink.send` counts every character and stores it only if it leaves room for a terminator, which
  `Sink.close` writes at the end.  The state after a text was sent is `sent` (`sendAll_sent`), and the
  buffer then holds as much of the text as fits (`close_sent`).
* `Sink.append` stops where the room ends (`append_eq`).

`HoldsText m text` says that a reader who stops at the first zero finds `text`.
-/

namespace Lib

open List

variable {m : Memory} {text cs : List UInt8} {size : ℕ} {c : UInt8}

/-- The memory with a text at its start. -/
def lay (m : Memory) (text : List UInt8) : Memory := overlay m 0 text.length fun i => text.getD i 0

lemma lay_apply (m : Memory) (text : List UInt8) (x : ℕ) :
    lay m text x = if x < text.length then text.getD x 0 else m x := by
  simp [lay, overlay]

@[simp] lemma lay_nil (m : Memory) : lay m [] = m := overlay_zero m 0 _

lemma lay_outside {x : ℕ} (h : text.length ≤ x) : lay m text x = m x :=
  overlay_outside (Or.inr (by simpa using h))

lemma lay_concat (m : Memory) (text : List UInt8) (c : UInt8) :
    Function.update (lay m text) text.length c = lay m (text ++ [c]) := by
  funext x
  rw [Function.update_apply, lay_apply, lay_apply, length_append, length_singleton]
  rcases lt_trichotomy x text.length with hx | rfl | hx
  · rw [if_neg hx.ne, if_pos hx, if_pos (Nat.lt_succ_of_lt hx), getD_append _ _ _ _ hx]
  · rw [if_pos rfl, if_pos (Nat.lt_succ_self _), getD_append_right _ _ _ _ le_rfl, Nat.sub_self]
    rfl
  · rw [if_neg hx.ne', if_neg hx.not_gt, if_neg (by omega)]

/-- A reader who stops at the first zero finds the text. -/
structure HoldsText (m : Memory) (text : List UInt8) : Prop where
  char_eq : ∀ i < text.length, m i = text.getD i 0
  char_ne : ∀ c ∈ text, c ≠ 0
  terminated : m text.length = 0

lemma holdsText_lay (h : ∀ c ∈ text, c ≠ 0) : HoldsText (lay m (text ++ [0])) text := by
  refine ⟨fun i hi => ?_, h, ?_⟩
  · rw [lay_apply, if_pos (by simp; omega), getD_append _ _ _ _ hi]
  · rw [lay_apply, if_pos (by simp), getD_append_right _ _ _ _ le_rfl, Nat.sub_self]
    rfl

lemma HoldsText.eq (h : HoldsText m text) (h' : HoldsText m cs) : text = cs := by
  have hle : ∀ {a b : List UInt8}, HoldsText m a → HoldsText m b → a.length ≤ b.length := by
    intro a b ha hb
    by_contra hlt
    have hlt : b.length < a.length := not_le.mp hlt
    have hchar := ha.char_eq b.length hlt
    rw [hb.terminated, getD_eq_getElem _ _ hlt] at hchar
    exact ha.char_ne _ (getElem_mem hlt) hchar.symm
  refine ext_getElem (le_antisymm (hle h h') (hle h' h)) fun i hi hi' => ?_
  have hchar := h.char_eq i hi
  rwa [h'.char_eq i hi', getD_eq_getElem _ _ hi, getD_eq_getElem _ _ hi', eq_comm] at hchar

lemma map_range_lay {n : ℕ} (h : text.length ≤ n) :
    (range n).map (lay m text) = text ++ (range' text.length (n - text.length)).map m := by
  have hsplit : range n =
      range text.length ++ range' text.length (n - text.length) := by
    have happend := range'_append_1 (s := 0) (m := text.length) (n := n - text.length)
    rw [Nat.zero_add, Nat.add_sub_cancel' h] at happend
    rw [range_eq_range', range_eq_range', happend]
  rw [hsplit, map_append]
  congr 1
  · refine ext_getElem (by simp) fun i hi hi' => ?_
    rw [getElem_map, getElem_range, lay_apply, if_pos hi', getD_eq_getElem _ _ hi']
  · refine map_congr_left fun i hi => lay_outside ?_
    exact (mem_range'_1.mp hi).1

/-- A buffer and a position in it. -/
structure Sink where
  mem : Memory
  pos : ℕ

namespace Sink

/-- Count a character, and store it if there is room for it and a terminator. -/
def send (size : ℕ) (s : Sink) (c : UInt8) : Sink :=
  ⟨if s.pos + 1 < size then Function.update s.mem s.pos c else s.mem, s.pos + 1⟩

/-- The terminator, at the end of the text or of the buffer. -/
def close (size : ℕ) (s : Sink) : Memory :=
  if 0 < size then Function.update s.mem (if s.pos < size then s.pos else size - 1) 0 else s.mem

/-- Store characters while there is room for one and a terminator. -/
def append (size : ℕ) (s : Sink) : List UInt8 → Sink
  | [] => s
  | c :: cs =>
    if s.pos + 1 < size then append size ⟨Function.update s.mem s.pos c, s.pos + 1⟩ cs else s

end Sink

/-- The state after a text was sent to a buffer that lay in `m`. -/
def sent (size : ℕ) (m : Memory) (text : List UInt8) : Sink :=
  ⟨lay m (text.take (size - 1)), text.length⟩

lemma sent_nil (size : ℕ) (m : Memory) : sent size m [] = ⟨m, 0⟩ := by
  simp [sent]

lemma send_sent (size : ℕ) (m : Memory) (text : List UInt8) (c : UInt8) :
    (sent size m text).send size c = sent size m (text ++ [c]) := by
  by_cases h : text.length + 1 < size
  · rw [Sink.send, if_pos (show (sent size m text).pos + 1 < size from h)]
    simp only [sent]
    rw [take_of_length_le (by omega), lay_concat, take_of_length_le (by simp; omega),
      length_append, length_singleton]
  · rw [Sink.send, if_neg (show ¬ (sent size m text).pos + 1 < size from h)]
    simp only [sent]
    rw [take_append_of_le_length (by omega), length_append, length_singleton]

/-- **A text that is sent follows what was sent before.** -/
lemma sendAll_sent (size : ℕ) (m : Memory) (text cs : List UInt8) :
    cs.foldl (Sink.send size) (sent size m text) = sent size m (text ++ cs) := by
  induction cs generalizing text with
  | nil => rw [foldl_nil, append_nil]
  | cons c cs ih => rw [foldl_cons, send_sent, ih, append_assoc, singleton_append]

/-- **What a closed buffer holds**: as much of the text as fits, and a terminator. -/
lemma close_sent (m : Memory) (text : List UInt8) (hsize : 0 < size) :
    (sent size m text).close size = lay m (text.take (size - 1) ++ [0]) := by
  have hpos : (if (sent size m text).pos < size then (sent size m text).pos else size - 1) =
      (text.take (size - 1)).length := by
    change (if text.length < size then text.length else size - 1) = _
    rw [length_take]
    split_ifs <;> omega
  rw [Sink.close, if_pos hsize, hpos]
  exact lay_concat m _ 0

lemma close_sent_zero (m : Memory) (text : List UInt8) : (sent 0 m text).close 0 = m := by
  simp [Sink.close, sent]

/-- **Characters are stored until the room ends.** -/
lemma append_eq (size : ℕ) (m : Memory) (text cs : List UInt8) (h : text.length ≤ size - 1) :
    Sink.append size ⟨lay m text, text.length⟩ cs =
      ⟨lay m ((text ++ cs).take (size - 1)), ((text ++ cs).take (size - 1)).length⟩ := by
  induction cs generalizing text with
  | nil => rw [Sink.append, append_nil, take_of_length_le h]
  | cons c cs ih =>
    rw [Sink.append]
    split_ifs with hlt
    · have hroom : (text ++ [c]).length ≤ size - 1 := by
        rw [length_append, length_singleton]
        simp only at hlt
        omega
      have hstep := ih (text ++ [c]) hroom
      rw [length_append, length_singleton, append_assoc, singleton_append] at hstep
      rw [lay_concat, hstep]
    · have hfull : text.length = size - 1 := by
        simp only at hlt
        omega
      rw [← hfull, take_left]

end Lib
