import MyOs.Lib.TextBuffers
import MyOs.Vfs.Archive

/-!
# The path in `name[256]`

`tarfs_find` and `tarfs_populate_vfs` join the two fields of a header in a buffer of 256 bytes, with the
same loops word for word (`assembleName`).  The fields take up to 155 and 100 bytes, and the slash between
them makes that 256, one more than fits beside the terminator.  The buffer then holds all but the last
character of the path (`assembleName_eq`).

`tarEntry` of `Vfs.Populate` has the text without the buffer; `assembleName_joinName` says that it is the
text the buffer holds.
-/

namespace MyOs

open Lib
open List hiding append_eq

/-- `while (len < sizeof(a) && a[len]) len++` -/
def fieldLen : List UInt8 → ℕ
  | [] => 0
  | c :: cs => if c = 0 then 0 else fieldLen cs + 1

/-- The joining loops over the first `prefix_len` and `name_len` characters of the two fields. -/
def joinFields (pre text : List UInt8) (name : Memory) : Sink :=
  let s : Sink := ⟨name, 0⟩
  let s :=
    if pre.length > 0 then
      let s := s.append 256 pre
      if s.pos + 1 < 256 then ⟨Function.update s.mem s.pos slash, s.pos + 1⟩ else s
    else s
  s.append 256 text

/-- `name[256]` for a header and what the stack held before. -/
def assembleName (header : List UInt8) (name : Memory) : Memory :=
  let pre := field header 345 155
  let text := field header 0 100
  let s := joinFields (pre.take (fieldLen pre)) (text.take (fieldLen text)) name
  Function.update s.mem s.pos 0

lemma take_fieldLen (a : List UInt8) : a.take (fieldLen a) = a.takeWhile (· != 0) := by
  induction a with
  | nil => rfl
  | cons c cs ih =>
    by_cases hc : c = 0
    · simp [fieldLen, hc]
    · simp [fieldLen, hc, ih]

lemma length_fieldText_le (header : List UInt8) (offset len : ℕ) :
    (fieldText header offset len).length ≤ len := by
  have hstart : fieldText header offset len <+: _ := takeWhile_prefix _
  exact hstart.length_le.trans (length_take_le _ _)

lemma fieldText_ne_zero {header : List UInt8} {offset len : ℕ} :
    ∀ c ∈ fieldText header offset len, c ≠ 0 := by
  intro c hc
  simpa using mem_takeWhile_imp hc

lemma fullName_ne_zero (header : List UInt8) : ∀ c ∈ fullName header, c ≠ 0 := by
  intro c hc
  rw [fullName] at hc
  split_ifs at hc with hpre
  · exact fieldText_ne_zero c hc
  · simp only [mem_append, mem_cons] at hc
    rcases hc with hc | rfl | hc
    · exact fieldText_ne_zero c hc
    · decide
    · exact fieldText_ne_zero c hc

lemma joinFields_eq (pre text : List UInt8) (hpre : pre.length < 255) (name : Memory) :
    joinFields pre text name =
      ⟨lay name ((if pre = [] then text else pre ++ slash :: text).take 255),
        ((if pre = [] then text else pre ++ slash :: text).take 255).length⟩ := by
  have hstart : ∀ cs, Sink.append 256 ⟨name, 0⟩ cs = ⟨lay name (cs.take 255), (cs.take 255).length⟩ := by
    intro cs
    simpa using append_eq 256 name [] cs (by simp)
  by_cases h : pre = []
  · rw [if_pos h, joinFields, if_neg (by simp [h]), hstart]
  · have hpos : pre.length > 0 := length_pos_iff.mpr h
    have hslash := append_eq 256 name (pre ++ [slash]) text (by simp; omega)
    rw [length_append, length_singleton, append_assoc, singleton_append] at hslash
    rw [if_neg h, joinFields, if_pos hpos, hstart, take_of_length_le hpre.le]
    rw [if_pos (show pre.length + 1 < 256 by omega), lay_concat, hslash]

/-- **The buffer holds what fits of the path.** -/
lemma assembleName_eq (header : List UInt8) (name : Memory) :
    assembleName header name = lay name ((fullName header).take 255 ++ [0]) := by
  have hpre : (fieldText header 345 155).length < 255 :=
    (length_fieldText_le header 345 155).trans_lt (by decide)
  have hjoin := joinFields_eq (fieldText header 345 155) (fieldText header 0 100) hpre name
  simp only [assembleName, take_fieldLen]
  rw [← fieldText, ← fieldText, hjoin]
  exact lay_concat _ _ _

lemma length_fullName_le_iff (header : List UInt8) :
    (fullName header).length ≤ 255 ↔
      ¬ ((fieldText header 345 155).length = 155 ∧ (fieldText header 0 100).length = 100) := by
  have hpre := length_fieldText_le header 345 155
  have hname := length_fieldText_le header 0 100
  rw [fullName]
  split_ifs with h
  · rw [h, length_nil]
    omega
  · rw [length_append, length_cons]
    omega

lemma joinName_eq_take (header : List UInt8) :
    joinName (fieldText header 345 155) (fieldText header 0 100) = (fullName header).take 255 := by
  have hcopy : ∀ (rest text : List UInt8), text.length ≤ 255 →
      copyName text rest = (text ++ rest).take 255 := by
    intro rest
    induction rest with
    | nil =>
      intro text h
      rw [copyName, append_nil, take_of_length_le h]
    | cons c rest ih =>
      intro text h
      rw [copyName]
      split_ifs with hlt
      · rw [ih _ (by simp; omega), append_assoc, singleton_append]
      · have hfull : text.length = 255 := by omega
        rw [← hfull, take_left]
  have hpre := length_fieldText_le header 345 155
  rw [fullName]
  simp only [joinName]
  rw [hcopy _ [] (by simp), nil_append, take_of_length_le (by omega)]
  by_cases h : fieldText header 345 155 = []
  · rw [if_pos h, if_neg (by simp [h]), h, hcopy _ [] (by simp), nil_append]
  · have hpos : (fieldText header 345 155).length > 0 := length_pos_iff.mpr h
    rw [if_neg h, if_pos hpos, if_pos (by omega), hcopy _ _ (by simp; omega), append_assoc,
      singleton_append]

lemma assembleName_joinName (header : List UInt8) (name : Memory) :
    HoldsText (assembleName header name)
      (joinName (fieldText header 345 155) (fieldText header 0 100)) := by
  rw [joinName_eq_take, assembleName_eq]
  exact holdsText_lay fun c hc => fullName_ne_zero header c (mem_of_mem_take hc)

/-- **When the path is assembled exactly.**  The joining loops leave a terminated text in the 256 bytes and
touch nothing beyond; it is the path of the header if and only if the two fields are not both full. -/
theorem assembleName_exact_iff (header : List UInt8) (name : Memory) :
    (∃ text, HoldsText (assembleName header name) text ∧ text.length < 256) ∧
      (∀ x ≥ 256, assembleName header name x = name x) ∧
      (HoldsText (assembleName header name) (fullName header) ↔
        ¬ ((fieldText header 345 155).length = 155 ∧ (fieldText header 0 100).length = 100)) := by
  have hcut : HoldsText (assembleName header name) ((fullName header).take 255) := by
    rw [← joinName_eq_take]
    exact assembleName_joinName header name
  have hlen : ((fullName header).take 255).length ≤ 255 := length_take_le _ _
  refine ⟨⟨_, hcut, by omega⟩, ?_, ?_⟩
  · intro x hx
    rw [assembleName_eq, lay_outside (by simp; omega)]
  · rw [← length_fullName_le_iff]
    constructor
    · intro h
      rw [h.eq hcut]
      exact hlen
    · intro h
      rwa [take_of_length_le h] at hcut

/-- A header with both fields full: the last character of its path is not in the buffer. -/
theorem assembleName_last_lost :
    let header := List.replicate 100 98 ++ List.replicate 245 0 ++ List.replicate 155 97 ++
      List.replicate 12 0
    fullName header = List.replicate 155 97 ++ slash :: List.replicate 100 98 ∧
      HoldsText (assembleName header fun _ => 0) (List.replicate 155 97 ++ slash :: List.replicate 99 98) := by
  intro header
  have hfull : fullName header = List.replicate 155 97 ++ slash :: List.replicate 100 98 := by
    decide +kernel
  refine ⟨hfull, ?_⟩
  have hholds := assembleName_joinName header fun _ => 0
  have hcut : (List.replicate 155 (97 : UInt8) ++ slash :: List.replicate 100 98).take 255 =
      List.replicate 155 97 ++ slash :: List.replicate 99 98 := by
    decide +kernel
  rwa [joinName_eq_take, hfull, hcut] at hholds

end MyOs
