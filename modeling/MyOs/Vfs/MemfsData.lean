import MyOs.Lib.Bytes
import MyOs.Lib.Runs
import Mathlib.Data.List.GetD

/-!
# The bytes of a file in memory

`memfs_read` and `memfs_write` (`src/memfs.c`) on one file.  The buffer of the file is a block of `kmalloc`,
which is not cleared: a write that needs more room may get none, or a block with any contents.

The file stands for an array of bytes.  A write lays its data over the array and fills what lies between the
end of the array and its offset with zeros (`arrayWrite`); `memfs_write` leaves there what the buffer holds.
So the file behaves as the array exactly if each of these gaps happens to be zero in the buffer
(`memfs_refines_array_iff`).

The pointers to the node and to the buffer of the caller are not null.
-/

namespace MyOs

open Lib List

/-! ## `src/memfs.c` -/

/-- The record of a regular file and the size in its node: `data` is null or what the buffer holds. -/
structure MemfsNode where
  data : Option Memory
  size : ℕ
  cap : ℕ
  nodeSize : ℕ

/-- A file as `memfs_create` makes it. -/
def MemfsNode.created : MemfsNode := ⟨none, 0, 0, 0⟩

/-- The byte at an offset of the buffer. -/
def MemfsNode.byte (f : MemfsNode) (j : ℕ) : UInt8 := f.data.elim 0 fun d => d j

/-- The loop that doubles the capacity. -/
def growCap : (turns newCap need : ℕ) → ℕ
  | 0, newCap, _ => newCap
  | turns + 1, newCap, need =>
    if newCap < need then growCap turns (newCap * 2 % 2 ^ 64) need else newCap

/-- The capacity `memfs_write` asks for; the loop ends within 64 turns. -/
def memfsNewCap (cap need : ℕ) : ℕ := growCap 64 (if cap ≠ 0 then cap else 64) need

/-- The part of `memfs_write` that makes room.  `answer` is what `kmalloc` answers: null or what the block
holds. -/
def memfsGrow (f : MemfsNode) (need : ℕ) (answer : Option Memory) : Option MemfsNode :=
  if need > f.cap then
    answer.map fun block =>
      let newData := match f.data with
        | some old => if f.size ≠ 0 then overlay block 0 f.size old else block
        | none => block
      { f with data := some newData, cap := memfsNewCap f.cap need }
  else some f

/-- `memfs_write`: the number of bytes written, or `none` for the result -1. -/
def memfsWrite (f : MemfsNode) (offset : ℕ) (buf : List UInt8) (answer : Option Memory) :
    Option ℕ × MemfsNode :=
  let need := (offset + buf.length) % 2 ^ 64
  match memfsGrow f need answer with
  | none => (none, f)
  | some g =>
    let size := if need > g.size then need else g.size
    (some buf.length, { g with
      data := g.data.map fun d => overlay d offset buf.length fun j => buf.getD j 0
      size := size
      nodeSize := size })

/-- `memfs_read`: the bytes copied to the caller. -/
def memfsRead (f : MemfsNode) (offset len : ℕ) : List UInt8 :=
  if offset ≥ f.size then []
  else (List.range (min len (f.size - offset))).map fun j => f.byte (offset + j)

/-! ## Arrays -/

/-- Lay the data over the array, which is filled with zeros up to the offset. -/
def arrayWrite (a : List UInt8) (offset : ℕ) (buf : List UInt8) : List UInt8 :=
  a.take offset ++ List.replicate (offset - a.length) 0 ++ buf ++ a.drop (offset + buf.length)

def arrayRead (a : List UInt8) (offset len : ℕ) : List UInt8 := (a.drop offset).take len

lemma length_arrayWrite (a : List UInt8) (offset : ℕ) (buf : List UInt8) :
    (arrayWrite a offset buf).length = max a.length (offset + buf.length) := by
  simp only [arrayWrite, length_append, length_take, length_replicate, length_drop]
  omega

lemma getD_arrayWrite (a : List UInt8) (offset : ℕ) (buf : List UInt8) (j : ℕ) :
    (arrayWrite a offset buf).getD j 0 =
      if offset ≤ j ∧ j < offset + buf.length then buf.getD (j - offset) 0 else a.getD j 0 := by
  have hpad : (a.take offset ++ replicate (offset - a.length) 0).length = offset := by
    rw [length_append, length_take, length_replicate]
    omega
  have hdata : (a.take offset ++ replicate (offset - a.length) 0 ++ buf).length =
      offset + buf.length := by
    rw [length_append, hpad]
  rw [arrayWrite]
  by_cases hend : j < offset + buf.length
  · rw [getD_append _ _ _ _ (by rw [hdata]; exact hend)]
    by_cases hstart : offset ≤ j
    · rw [if_pos ⟨hstart, hend⟩, getD_append_right _ _ _ _ (by rw [hpad]; exact hstart), hpad]
    · rw [if_neg fun h => hstart h.1, getD_append _ _ _ _ (by rw [hpad]; omega)]
      by_cases hin : j < a.length
      · rw [getD_append _ _ _ _ (by rw [length_take]; omega)]
        simp only [getD_eq_getElem?_getD, getElem?_take, if_pos (not_le.mp hstart)]
      · rw [getD_append_right _ _ _ _ (by rw [length_take]; omega), getD_eq_default a _ (by omega)]
        simp only [getD_eq_getElem?_getD, getElem?_replicate]
        split_ifs <;> rfl
  · rw [if_neg fun h => hend h.2, getD_append_right _ _ _ _ (by rw [hdata]; omega), hdata]
    simp only [getD_eq_getElem?_getD, getElem?_drop]
    rw [Nat.add_sub_cancel' (not_lt.mp hend)]

lemma arrayRead_eq (a : List UInt8) (offset len : ℕ) :
    arrayRead a offset len =
      (range (min len (a.length - offset))).map fun j => a.getD (offset + j) 0 := by
  refine ext_getElem (by simp [arrayRead]) fun j h1 h2 => ?_
  simp only [arrayRead, length_take, length_drop] at h1
  simp only [arrayRead, getElem_take, getElem_drop, getElem_map, getElem_range]
  exact (getD_eq_getElem _ _ (by omega)).symm

/-! ## Runs -/

/-- The calls on a file; a write comes with what `kmalloc` answers if it is asked. -/
inductive MemfsOp
  | write (offset : ℕ) (buf : List UInt8) (answer : Option Memory)
  | read (offset len : ℕ)

/-- The range of the arguments. -/
def MemfsOp.InRange : MemfsOp → Prop
  | .write offset buf _ => offset + buf.length < 2 ^ 63
  | .read offset len => offset + len < 2 ^ 63

/-- The file and the array it stands for. -/
structure MemfsTrack where
  node : MemfsNode
  array : List UInt8

namespace MemfsTrack

/-- A call: only a write that succeeds changes the array. -/
def step (t : MemfsTrack) : MemfsOp → MemfsTrack
  | .write offset buf answer =>
    let r := memfsWrite t.node offset buf answer
    ⟨r.2, if r.1.isSome then arrayWrite t.array offset buf else t.array⟩
  | .read _ _ => t

/-- The size is that of the array, and every read answers as the array would. -/
def Matches (t : MemfsTrack) : Prop :=
  t.node.nodeSize = t.array.length ∧
    ∀ offset len, memfsRead t.node offset len = arrayRead t.array offset len

/-- The bytes between the end of the file and the offset of a write are zero: in the block that `kmalloc`
hands out, if the write needs one, and in the present buffer otherwise. -/
def GapZero (t : MemfsTrack) : MemfsOp → Prop
  | .write offset buf answer => ∀ j, t.node.size ≤ j → j < offset →
      if (offset + buf.length) % 2 ^ 64 > t.node.cap then ∀ block, answer = some block → block j = 0
      else t.node.byte j = 0
  | .read _ _ => True

end MemfsTrack

/-! ## Room -/

/-- What all calls keep: the sizes agree and are within the capacity, and a capacity is a power of two. -/
structure MemfsNode.Sized (f : MemfsNode) : Prop where
  nodeSize : f.nodeSize = f.size
  size_le : f.size ≤ f.cap
  cap : f.cap = 0 ∨ ∃ k, k ≤ 63 ∧ f.cap = 2 ^ k
  data : f.cap ≠ 0 → f.data.isSome

variable {f g : MemfsNode} {need offset : ℕ} {buf : List UInt8} {answer : Option Memory}

lemma growCap_spec (hneed : need ≤ 2 ^ 63) {turns k : ℕ} (hk : k ≤ 63)
    (hturns : 63 ≤ k + turns) :
    need ≤ growCap turns (2 ^ k) need ∧ ∃ l, l ≤ 63 ∧ growCap turns (2 ^ k) need = 2 ^ l := by
  induction turns generalizing k with
  | zero =>
    have hk63 : k = 63 := by omega
    subst hk63
    exact ⟨hneed, 63, hk, rfl⟩
  | succ turns ih =>
    rw [growCap]
    split_ifs with hlt
    · have hk62 : k ≤ 62 := by
        by_contra hbig
        have hk63 : k = 63 := by omega
        rw [hk63] at hlt
        omega
      have hdouble : 2 ^ k * 2 % 2 ^ 64 = 2 ^ (k + 1) := by
        rw [← pow_succ]
        exact Nat.mod_eq_of_lt ((Nat.pow_lt_pow_iff_right (by decide)).mpr (by omega))
      rw [hdouble]
      exact ih (by omega) (by omega)
    · exact ⟨not_lt.mp hlt, k, hk, rfl⟩

lemma memfsNewCap_spec (hcap : f.cap = 0 ∨ ∃ k, k ≤ 63 ∧ f.cap = 2 ^ k) (hneed : need ≤ 2 ^ 63) :
    need ≤ memfsNewCap f.cap need ∧ ∃ l, l ≤ 63 ∧ memfsNewCap f.cap need = 2 ^ l := by
  rw [memfsNewCap]
  rcases hcap with hzero | ⟨k, hk, hpow⟩
  · rw [hzero, if_neg (not_not.mpr rfl)]
    exact growCap_spec (k := 6) hneed (by decide) (by decide)
  · rw [hpow, if_pos (by positivity)]
    exact growCap_spec hneed hk (by omega)

lemma memfsGrow_spec (hf : f.Sized) (hneed : need ≤ 2 ^ 63) (h : memfsGrow f need answer = some g) :
    g.Sized ∧ need ≤ g.cap ∧ g.size = f.size ∧ ∀ j < f.size, g.byte j = f.byte j := by
  rw [memfsGrow] at h
  by_cases hroom : need > f.cap
  · rw [if_pos hroom] at h
    obtain ⟨block, -, rfl⟩ := Option.map_eq_some_iff.mp h
    obtain ⟨hle, hpow⟩ := memfsNewCap_spec hf.cap hneed
    have hcap : f.cap ≤ memfsNewCap f.cap need := (le_of_lt hroom).trans hle
    refine ⟨⟨hf.nodeSize, hf.size_le.trans hcap, Or.inr hpow, fun _ => rfl⟩, hle, rfl, fun j hj => ?_⟩
    have hpos : f.cap ≠ 0 := by
      have := hf.size_le
      omega
    obtain ⟨old, hold⟩ := Option.isSome_iff_exists.mp (hf.data hpos)
    simp only [MemfsNode.byte, hold, Option.elim_some]
    rw [if_pos (by omega : f.size ≠ 0), overlay_inside (Nat.zero_le j) (by omega), Nat.sub_zero]
  · rw [if_neg hroom, Option.some.injEq] at h
    subst h
    exact ⟨hf, not_lt.mp hroom, rfl, fun _ _ => rfl⟩

lemma memfsGrow_eq_none (h : memfsGrow f need answer = none) : need > f.cap ∧ answer = none := by
  rw [memfsGrow] at h
  by_cases hroom : need > f.cap
  · rw [if_pos hroom] at h
    exact ⟨hroom, Option.map_eq_none_iff.mp h⟩
  · rw [if_neg hroom] at h
    cases h

lemma memfsGrow_gap (h : memfsGrow f need answer = some g) {j : ℕ} (hj : f.size ≤ j) :
    g.byte j = 0 ↔
      if need > f.cap then ∀ block, answer = some block → block j = 0 else f.byte j = 0 := by
  rw [memfsGrow] at h
  by_cases hroom : need > f.cap
  · rw [if_pos hroom] at h ⊢
    obtain ⟨block, rfl, rfl⟩ := Option.map_eq_some_iff.mp h
    have hbyte : (match f.data with
        | some old => if f.size ≠ 0 then overlay block 0 f.size old else block
        | none => block) j = block j := by
      cases f.data with
      | none => rfl
      | some old =>
        dsimp only
        split_ifs
        · exact overlay_outside (by omega)
        · rfl
    simp only [MemfsNode.byte, Option.elim_some, hbyte, Option.some.injEq, forall_eq']
  · rw [if_neg hroom, Option.some.injEq] at h
    rw [if_neg hroom, h]

/-! ## One write -/

lemma memfsWrite_none (h : memfsGrow f ((offset + buf.length) % 2 ^ 64) answer = none) :
    memfsWrite f offset buf answer = (none, f) := by
  simp only [memfsWrite, h]

lemma memfsWrite_some (h : memfsGrow f ((offset + buf.length) % 2 ^ 64) answer = some g)
    (hrange : (offset + buf.length) % 2 ^ 64 = need) :
    memfsWrite f offset buf answer = (some buf.length, { g with
      data := g.data.map fun d => overlay d offset buf.length fun j => buf.getD j 0
      size := if need > g.size then need else g.size
      nodeSize := if need > g.size then need else g.size }) := by
  subst hrange
  simp only [memfsWrite, h]

lemma memfsWrite_failed (h : (memfsWrite f offset buf answer).1 = none) :
    (memfsWrite f offset buf answer).2 = f := by
  cases hgrow : memfsGrow f ((offset + buf.length) % 2 ^ 64) answer with
  | none => rw [memfsWrite_none hgrow]
  | some g =>
    rw [memfsWrite_some hgrow rfl] at h
    cases h

/-- What a write leaves behind, with the buffer it writes to. -/
structure Written (f g h : MemfsNode) (offset : ℕ) (buf : List UInt8) : Prop where
  sized : h.Sized
  size : h.size = max f.size (offset + buf.length)
  inside : ∀ j, offset ≤ j → j < offset + buf.length → h.byte j = buf.getD (j - offset) 0
  old : ∀ j < f.size, j < offset ∨ offset + buf.length ≤ j → h.byte j = f.byte j
  gap : ∀ j, f.size ≤ j → j < offset → h.byte j = g.byte j

lemma memfsWrite_written (hf : f.Sized) (hrange : offset + buf.length < 2 ^ 63)
    (hgrow : memfsGrow f ((offset + buf.length) % 2 ^ 64) answer = some g) :
    (memfsWrite f offset buf answer).1 = some buf.length ∧
      Written f g (memfsWrite f offset buf answer).2 offset buf := by
  have hneed : (offset + buf.length) % 2 ^ 64 = offset + buf.length := Nat.mod_eq_of_lt (by omega)
  rw [memfsWrite_some hgrow hneed]
  rw [hneed] at hgrow
  refine ⟨rfl, ?_⟩
  obtain ⟨hsized, hroom, hsize, hkept⟩ := memfsGrow_spec hf (by omega) hgrow
  have hout : ∀ j, j < offset ∨ offset + buf.length ≤ j →
      (g.data.map fun d => overlay d offset buf.length fun j => buf.getD j 0).elim 0 (fun d => d j) =
        g.byte j := by
    intro j hj
    cases hdata : g.data with
    | none => simp only [MemfsNode.byte, hdata, Option.map_none]
    | some d => simp only [MemfsNode.byte, hdata, Option.map_some, Option.elim_some, overlay_outside hj]
  have hnew : (if offset + buf.length > g.size then offset + buf.length else g.size) =
      max f.size (offset + buf.length) := by
    rw [hsize]
    split_ifs <;> omega
  refine ⟨⟨rfl, ?_, hsized.cap, fun hcap => ?_⟩, hnew, fun j hstart hend => ?_, fun j hj hside => ?_,
    fun j hle hlt => ?_⟩
  · show (if _ then _ else _) ≤ g.cap
    have := hsized.size_le
    split_ifs <;> omega
  · rw [Option.isSome_map]
    exact hsized.data hcap
  · obtain ⟨d, hd⟩ := Option.isSome_iff_exists.mp (hsized.data (by omega))
    simp only [MemfsNode.byte, hd, Option.map_some, Option.elim_some, overlay_inside hstart hend]
  · exact (hout j hside).trans (hkept j hj)
  · exact hout j (Or.inl hlt)

/-! ## The file and the array -/

namespace MemfsTrack

variable {t : MemfsTrack} {op : MemfsOp}

/-- The sizes agree. -/
def Aligned (t : MemfsTrack) : Prop := t.node.Sized ∧ t.array.length = t.node.size

/-- The bytes agree. -/
def Agrees (t : MemfsTrack) : Prop := ∀ j < t.node.size, t.node.byte j = t.array.getD j 0

lemma matches_iff (h : t.Aligned) : t.Matches ↔ t.Agrees := by
  obtain ⟨hsized, hlength⟩ := h
  constructor
  · rintro ⟨-, hreads⟩ j hj
    have hone := hreads j 1
    rw [memfsRead, if_neg (not_le.mpr hj), arrayRead_eq, hlength,
      Nat.min_eq_left (show 1 ≤ t.node.size - j by omega)] at hone
    simpa using hone
  · intro hagrees
    refine ⟨hsized.nodeSize.trans hlength.symm, fun offset len => ?_⟩
    rw [arrayRead_eq, hlength, memfsRead]
    split_ifs with hend
    · rw [Nat.sub_eq_zero_of_le hend, Nat.min_zero, range_zero, map_nil]
    · refine map_congr_left fun j hj => hagrees _ ?_
      have := mem_range.mp hj
      omega

lemma aligned_step (h : t.Aligned) (hop : op.InRange) : (t.step op).Aligned := by
  cases op with
  | read offset len => exact h
  | write offset buf answer =>
    cases hgrow : memfsGrow t.node ((offset + buf.length) % 2 ^ 64) answer with
    | none =>
      simp only [step, memfsWrite_none hgrow, Option.isSome_none, Bool.false_eq_true, if_false]
      exact h
    | some g =>
      obtain ⟨hdone, hwritten⟩ := memfsWrite_written h.1 hop hgrow
      simp only [step, hdone, Option.isSome_some, if_true]
      refine ⟨hwritten.sized, ?_⟩
      rw [length_arrayWrite, h.2]
      exact hwritten.size.symm

/-- **One call.**  The bytes still agree exactly if the gap is zero. -/
lemma agrees_step_iff (h : t.Aligned) (hop : op.InRange) (hagrees : t.Agrees) :
    (t.step op).Agrees ↔ t.GapZero op := by
  cases op with
  | read offset len => exact iff_of_true hagrees trivial
  | write offset buf answer =>
    cases hgrow : memfsGrow t.node ((offset + buf.length) % 2 ^ 64) answer with
    | none =>
      simp only [step, memfsWrite_none hgrow, Option.isSome_none, Bool.false_eq_true, if_false]
      refine iff_of_true hagrees fun j _ _ => ?_
      obtain ⟨hroom, rfl⟩ := memfsGrow_eq_none hgrow
      rw [if_pos hroom]
      exact fun _ hblock => absurd hblock.symm (Option.some_ne_none _)
    | some g =>
      obtain ⟨hdone, hwritten⟩ := memfsWrite_written h.1 hop hgrow
      simp only [step, hdone, Option.isSome_some, if_true, GapZero, Agrees, getD_arrayWrite,
        hwritten.size]
      constructor
      · intro hnew j hle hlt
        have hj := hnew j (by omega)
        rw [if_neg (by omega), getD_eq_default _ _ (by rw [h.2]; exact hle),
          hwritten.gap j hle hlt] at hj
        exact (memfsGrow_gap hgrow hle).mp hj
      · intro hgap j hj
        split_ifs with hin
        · exact hwritten.inside j hin.1 hin.2
        by_cases hold : j < t.node.size
        · exact (hwritten.old j hold (by omega)).trans (hagrees j hold)
        · rw [getD_eq_default _ _ (by rw [h.2]; omega), hwritten.gap j (by omega) (by omega)]
          exact (memfsGrow_gap hgrow (by omega)).mpr (hgap j (by omega) (by omega))

/-- The file `memfs_create` makes, and the empty array. -/
def created : MemfsTrack := ⟨MemfsNode.created, []⟩

lemma aligned_created : created.Aligned :=
  ⟨⟨rfl, le_refl 0, Or.inl rfl, fun h => absurd rfl h⟩, rfl⟩

end MemfsTrack

/-- **A file is an array of bytes**, in every run from its creation on and for every content of the blocks
that `kmalloc` hands out, exactly if the gaps are zero; and a write that fails leaves the file as it is. -/
theorem memfs_refines_array_iff (ops : List MemfsOp) (hops : ∀ op ∈ ops, op.InRange) :
    ((∀ pre, pre <+: ops → (run MemfsTrack.step .created pre).Matches) ↔
      Admissible MemfsTrack.GapZero MemfsTrack.step .created ops) ∧
    ∀ f offset buf answer, (memfsWrite f offset buf answer).1 = none →
      (memfsWrite f offset buf answer).2 = f := by
  refine ⟨?_, fun f offset buf answer => memfsWrite_failed⟩
  have hdom : Admissible (fun _ op => op.InRange) MemfsTrack.step .created ops :=
    admissible_of_forall hops
  refine forall_prefix_iff_admissible (I := MemfsTrack.Matches) (J := MemfsTrack.Aligned)
    (fun t op ht hop => MemfsTrack.aligned_step ht hop) (fun t op ht hop hmatch => ?_)
    MemfsTrack.aligned_created ?_ hdom
  · rw [MemfsTrack.matches_iff ht] at hmatch
    rw [MemfsTrack.matches_iff (MemfsTrack.aligned_step ht hop)]
    exact MemfsTrack.agrees_step_iff ht hop hmatch
  · rw [MemfsTrack.matches_iff MemfsTrack.aligned_created]
    exact fun j hj => absurd hj j.not_lt_zero

/-- Two writes in a row, the second one at the end of the file. -/
theorem memfs_refines_array_iff_append :
    (run MemfsTrack.step .created [.write 0 [1, 2] (some fun _ => 0xA5), .write 2 [3] none]).Matches := by
  have hiff := (memfs_refines_array_iff
    [.write 0 [1, 2] (some fun _ => 0xA5), .write 2 [3] none] (by simp [MemfsOp.InRange])).1
  refine hiff.mpr ⟨?_, ?_, trivial⟩ _ (prefix_refl _)
  · exact fun j _ hj => absurd hj j.not_lt_zero
  · intro j hle hlt
    have hsize : (MemfsTrack.step .created (.write 0 [1, 2] (some fun _ => 0xA5))).node.size = 2 := by
      decide
    omega

/-- A write of one byte at offset 2 of a new file: the first two bytes are those of the block. -/
theorem gap_shows_old_block :
    let t := MemfsTrack.step .created (.write 2 [7] (some fun _ => 0xA5))
    t.array = [0, 0, 7] ∧ memfsRead t.node 0 3 = [0xA5, 0xA5, 7] := by
  decide

end MyOs
