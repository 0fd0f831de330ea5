import MyOs.Lib.Loops
import MyOs.Vfs.MemfsData

/-!
# Room for a write

`memfs_write` adds the offset and the length and doubles the capacity until it is enough, both modulo
`2^64`.  The sum may wrap around, and the doubling may: a capacity that reaches 0 is doubled for ever.
`memfsWriteTurns` is `memfs_write` watched for a number of turns of that loop.

A write ends and has room for its bytes, whatever `kmalloc` answers, exactly if the sum does not wrap
and some number of doublings leads to a capacity that is enough (`memfs_write_room_iff`).  Capacities
start at 64, so that those that occur are powers of two; then this means `offset + len ≤ 2^63`.
-/

namespace MyOs

open Lib

variable {f : MemfsNode} {offset cap need total : ℕ} {buf : List UInt8} {answer : Option Memory}

/-- The capacity the loop starts with. -/
def firstCap (cap : ℕ) : ℕ := if cap ≠ 0 then cap else 64

/-- `while (new_cap < need) new_cap *= 2`, watched for a number of turns. -/
def newCapTurns (turns cap need : ℕ) : Option ℕ :=
  whileTurns (fun c => decide (c < need)) (fun c => c * 2 % 2 ^ 64) turns (firstCap cap)

/-- `memfs_write`, watched for a number of turns of its loop: `none` if it is still running. -/
def memfsWriteTurns (turns : ℕ) (f : MemfsNode) (offset : ℕ) (buf : List UInt8)
    (answer : Option Memory) : Option (Option ℕ × MemfsNode) :=
  let need := (offset + buf.length) % 2 ^ 64
  if need > f.cap ∧ newCapTurns turns f.cap need = none then none
  else some (memfsWrite f offset buf answer)

/-- The write ends, and if it gets to the copy then its bytes are within the capacity. -/
def WritesInRoom (f : MemfsNode) (offset : ℕ) (buf : List UInt8) (answer : Option Memory) : Prop :=
  ∃ turns r, memfsWriteTurns turns f offset buf answer = some r ∧
    (r.1.isSome → offset + buf.length ≤ r.2.cap)

/-- The sum does not wrap, and there is room or the doubling leads to enough of it. -/
def RoomFor (cap total : ℕ) : Prop :=
  total < 2 ^ 64 ∧ (total ≤ cap ∨ ∃ k, total ≤ firstCap cap * 2 ^ k % 2 ^ 64)

/-- The capacities that occur. -/
def PowerCap (cap : ℕ) : Prop := cap = 0 ∨ ∃ k, k ≤ 63 ∧ cap = 2 ^ k

/-! ## The loop -/

lemma firstCap_lt (h : cap < 2 ^ 64) : firstCap cap < 2 ^ 64 := by
  rw [firstCap]
  split_ifs
  · exact h
  · decide

lemma iterate_double {c : ℕ} (h : c < 2 ^ 64) (k : ℕ) :
    (fun c => c * 2 % 2 ^ 64)^[k] c = c * 2 ^ k % 2 ^ 64 := by
  induction k with
  | zero => rw [Function.iterate_zero_apply, pow_zero, mul_one, Nat.mod_eq_of_lt h]
  | succ k ih => rw [Function.iterate_succ_apply', ih, Nat.mod_mul_mod, mul_assoc, ← pow_succ]

lemma newCapTurns_eq_some (hcap : cap < 2 ^ 64) {turns c : ℕ} (h : newCapTurns turns cap need = some c) :
    need ≤ c ∧ ∃ k, c = firstCap cap * 2 ^ k % 2 ^ 64 ∧ ∀ j < k, firstCap cap * 2 ^ j % 2 ^ 64 < need := by
  obtain ⟨hc, k, -, heq, hall⟩ := whileTurns_eq_some h
  rw [iterate_double (firstCap_lt hcap)] at heq
  refine ⟨by simpa using hc, k, heq, fun j hj => ?_⟩
  have hlt := hall j hj
  rw [iterate_double (firstCap_lt hcap)] at hlt
  simpa using hlt

lemma newCapTurns_ends_iff (hcap : cap < 2 ^ 64) :
    (∃ turns c, newCapTurns turns cap need = some c) ↔ ∃ k, need ≤ firstCap cap * 2 ^ k % 2 ^ 64 := by
  rw [show (∃ turns c, newCapTurns turns cap need = some c) ↔ _ from whileTurns_ends_iff]
  simp only [iterate_double (firstCap_lt hcap), decide_eq_false_iff_not, not_lt]

lemma growCap_eq {c k turns : ℕ} (hk : k ≤ turns) (hc : c < 2 ^ 64)
    (hall : ∀ j < k, c * 2 ^ j % 2 ^ 64 < need) (hend : need ≤ c * 2 ^ k % 2 ^ 64) :
    growCap turns c need = c * 2 ^ k % 2 ^ 64 := by
  induction k generalizing c turns with
  | zero =>
    rw [pow_zero, mul_one, Nat.mod_eq_of_lt hc] at hend ⊢
    cases turns with
    | zero => rfl
    | succ turns => exact if_neg (not_lt.mpr hend)
  | succ k ih =>
    obtain ⟨turns, rfl⟩ : ∃ t, turns = t + 1 := ⟨turns - 1, by omega⟩
    have hfirst := hall 0 (Nat.succ_pos k)
    rw [pow_zero, mul_one, Nat.mod_eq_of_lt hc] at hfirst
    have hshift : ∀ j, c * 2 % 2 ^ 64 * 2 ^ j % 2 ^ 64 = c * 2 ^ (j + 1) % 2 ^ 64 := by
      intro j
      rw [Nat.mod_mul_mod, mul_assoc, ← pow_succ']
    rw [growCap, if_pos hfirst, ← hshift]
    refine ih (Nat.le_of_succ_le_succ hk) (Nat.mod_lt _ (by decide)) (fun j hj => ?_) ?_
    · rw [hshift]
      exact hall (j + 1) (Nat.succ_lt_succ hj)
    · rw [hshift]
      exact hend

lemma memfsNewCap_eq (hcap : cap < 2 ^ 64) (hneed : 0 < need) {turns c : ℕ}
    (h : newCapTurns turns cap need = some c) : memfsNewCap cap need = c := by
  obtain ⟨hle, k, hk, hall⟩ := newCapTurns_eq_some hcap h
  -- after 64 doublings nothing is left
  have hturns : k ≤ 64 := by
    by_contra hlong
    obtain ⟨m, rfl⟩ : ∃ m, k = 64 + m := ⟨k - 64, by omega⟩
    rw [pow_add, ← mul_assoc, mul_right_comm, Nat.mul_mod_left] at hk
    omega
  rw [hk] at hle ⊢
  exact growCap_eq hturns (firstCap_lt hcap) hall hle

/-! ## One write -/

lemma memfsGrow_cap {g : MemfsNode} (h : memfsGrow f need answer = some g) :
    g.cap = if need > f.cap then memfsNewCap f.cap need else f.cap := by
  rw [memfsGrow] at h
  by_cases hroom : need > f.cap
  · rw [if_pos hroom] at h ⊢
    obtain ⟨block, -, rfl⟩ := Option.map_eq_some_iff.mp h
    rfl
  · rw [if_neg hroom] at h ⊢
    cases h
    rfl

lemma memfsWriteTurns_cases (hcap : f.cap < 2 ^ 64) {turns : ℕ} {r : Option ℕ × MemfsNode}
    (h : memfsWriteTurns turns f offset buf answer = some r) :
    (r = (none, f) ∧ answer = none) ∨ (r.1 = some buf.length ∧
      ((offset + buf.length) % 2 ^ 64 ≤ f.cap ∧ r.2.cap = f.cap ∨
        (offset + buf.length) % 2 ^ 64 > f.cap ∧
          newCapTurns turns f.cap ((offset + buf.length) % 2 ^ 64) = some r.2.cap)) := by
  simp only [memfsWriteTurns] at h
  split_ifs at h with hrun
  cases h
  cases hgrow : memfsGrow f ((offset + buf.length) % 2 ^ 64) answer with
  | none => exact Or.inl ⟨memfsWrite_none hgrow, (memfsGrow_eq_none hgrow).2⟩
  | some g =>
    have hwrite := memfsWrite_some hgrow rfl
    have hnew := memfsGrow_cap hgrow
    rw [hwrite]
    refine Or.inr ⟨rfl, ?_⟩
    split_ifs at hnew with hroom
    · refine Or.inr ⟨hroom, ?_⟩
      obtain ⟨c, hc⟩ := Option.ne_none_iff_exists'.mp fun hnone => hrun ⟨hroom, hnone⟩
      rw [hc, ← memfsNewCap_eq hcap (Nat.zero_lt_of_lt hroom) hc, ← hnew]
    · exact Or.inl ⟨not_lt.mp hroom, hnew⟩

lemma memfsWriteTurns_none_iff {turns : ℕ} :
    memfsWriteTurns turns f offset buf answer = none ↔
      (offset + buf.length) % 2 ^ 64 > f.cap ∧
        newCapTurns turns f.cap ((offset + buf.length) % 2 ^ 64) = none := by
  simp only [memfsWriteTurns]
  split_ifs with h
  · exact iff_of_true rfl h
  · exact iff_of_false (by simp) h

/-! ## Powers of two -/

lemma PowerCap.double (h : PowerCap cap) (k : ℕ) : PowerCap (firstCap cap * 2 ^ k % 2 ^ 64) := by
  have hfirst : ∃ l, firstCap cap = 2 ^ l := by
    rcases h with rfl | ⟨l, -, rfl⟩
    · exact ⟨6, rfl⟩
    · exact ⟨l, if_pos (by positivity)⟩
  obtain ⟨l, hl⟩ := hfirst
  rw [hl, ← pow_add]
  rcases Nat.lt_or_ge (l + k) 64 with hlt | hge
  · rw [Nat.mod_eq_of_lt ((Nat.pow_lt_pow_iff_right (by decide)).mpr hlt)]
    exact Or.inr ⟨l + k, by omega, rfl⟩
  · exact Or.inl (Nat.mod_eq_zero_of_dvd (pow_dvd_pow 2 hge))

lemma PowerCap.le (h : PowerCap cap) : cap ≤ 2 ^ 63 := by
  rcases h with rfl | ⟨k, hk, rfl⟩
  · exact Nat.zero_le _
  · exact Nat.pow_le_pow_right (by decide) hk

lemma PowerCap.roomFor_iff (h : PowerCap cap) : RoomFor cap total ↔ total ≤ 2 ^ 63 := by
  constructor
  · rintro ⟨-, hroom | ⟨k, hk⟩⟩
    · exact hroom.trans h.le
    · exact hk.trans (h.double k).le
  · intro hle
    refine ⟨by omega, Or.inr ?_⟩
    rcases h with rfl | ⟨k, hk, rfl⟩
    · exact ⟨57, hle⟩
    · refine ⟨63 - k, ?_⟩
      rw [firstCap, if_pos (by positivity), ← pow_add, Nat.add_sub_cancel' hk]
      exact hle

/-! ## Main result -/

/-- **Room for a write.**  For every file, every offset and every buffer: the write ends and its bytes are
within the capacity, for all answers of `kmalloc`, exactly if there can be room for them.  With the
capacities that occur, which every write keeps, this is `offset + len ≤ 2^63`. -/
theorem memfs_write_room_iff (f : MemfsNode) (hcap : f.cap < 2 ^ 64) (offset : ℕ) (buf : List UInt8) :
    ((∀ answer, WritesInRoom f offset buf answer) ↔ RoomFor f.cap (offset + buf.length)) ∧
    (PowerCap f.cap → (RoomFor f.cap (offset + buf.length) ↔ offset + buf.length ≤ 2 ^ 63) ∧
      ∀ turns answer r, memfsWriteTurns turns f offset buf answer = some r → PowerCap r.2.cap) := by
  have hsmall : ∀ turns need c, newCapTurns turns f.cap need = some c → c < 2 ^ 64 := by
    intro turns need c hc
    obtain ⟨-, k, hk, -⟩ := newCapTurns_eq_some hcap hc
    rw [hk]
    exact Nat.mod_lt _ (by decide)
  refine ⟨⟨fun h => ?_, ?_⟩, fun hpow => ⟨hpow.roomFor_iff, fun turns answer r hr => ?_⟩⟩
  · -- with a block from `kmalloc` the write succeeds, so that the sum is within a capacity
    obtain ⟨turns, r, hr, hroom⟩ := h (some fun _ => 0)
    rcases memfsWriteTurns_cases hcap hr with ⟨-, hfail⟩ | ⟨hdone, hcases⟩
    · cases hfail
    · have hle := hroom (by rw [hdone]; rfl)
      rcases hcases with ⟨hneed, hold⟩ | ⟨hneed, hnew⟩
      · exact ⟨by omega, Or.inl (hold ▸ hle)⟩
      · have hlt := hsmall _ _ _ hnew
        obtain ⟨-, k, hk, -⟩ := newCapTurns_eq_some hcap hnew
        exact ⟨by omega, Or.inr ⟨k, hk ▸ hle⟩⟩
  · rintro ⟨hlt, hroom⟩ answer
    have hneed : (offset + buf.length) % 2 ^ 64 = offset + buf.length := Nat.mod_eq_of_lt hlt
    have hends : ∃ turns, memfsWriteTurns turns f offset buf answer ≠ none := by
      simp only [ne_eq, memfsWriteTurns_none_iff, hneed, not_and]
      rcases hroom with hroom | hroom
      · exact ⟨0, fun hgrow => absurd hroom (not_le.mpr hgrow)⟩
      · obtain ⟨turns, c, hc⟩ := (newCapTurns_ends_iff hcap).mpr hroom
        exact ⟨turns, fun _ hnone => by rw [hc] at hnone; cases hnone⟩
    obtain ⟨turns, hne⟩ := hends
    obtain ⟨r, hr⟩ := Option.ne_none_iff_exists'.mp hne
    refine ⟨turns, r, hr, fun hsome => ?_⟩
    rcases memfsWriteTurns_cases hcap hr with ⟨rfl, -⟩ | ⟨-, ⟨hle, hold⟩ | ⟨-, hnew⟩⟩
    · cases hsome
    · rw [hold, ← hneed]
      exact hle
    · rw [← hneed]
      exact (newCapTurns_eq_some hcap hnew).1
  · rcases memfsWriteTurns_cases hcap hr with ⟨rfl, -⟩ | ⟨-, ⟨-, hold⟩ | ⟨-, hnew⟩⟩
    · exact hpow
    · rw [hold]
      exact hpow
    · obtain ⟨-, k, hk, -⟩ := newCapTurns_eq_some hcap hnew
      rw [hk]
      exact hpow.double k

/-- Two bytes at offset 62 fit into the first block. -/
theorem memfs_write_room_small : RoomFor MemfsNode.created.cap 64 ∧
    ∀ answer, WritesInRoom .created 62 [1, 2] answer := by
  have hroom : RoomFor MemfsNode.created.cap 64 := ⟨by decide, Or.inr ⟨0, by decide⟩⟩
  exact ⟨hroom, (memfs_write_room_iff .created (by decide) 62 [1, 2]).1.mpr hroom⟩

/-- Two bytes at offset `2^63 - 1` of a new file: the capacity is doubled to `2^63`, to 0, and for ever.
With `2^64 - 1` bytes at offset 1 the sum is 0: they are copied without any buffer. -/
theorem memfs_write_out_of_room :
    (∀ turns answer, memfsWriteTurns turns .created (2 ^ 63 - 1) [1, 2] answer = none) ∧
    ∃ buf : List UInt8, buf.length = 2 ^ 64 - 1 ∧ ∀ answer, ∃ r,
      memfsWriteTurns 0 .created 1 buf answer = some r ∧ r.1 = some (2 ^ 64 - 1) ∧ r.2.cap = 0 := by
  constructor
  · intro turns answer
    have hpow : PowerCap MemfsNode.created.cap := Or.inl rfl
    refine memfsWriteTurns_none_iff.mpr ⟨by decide, Option.eq_none_iff_forall_ne_some.mpr fun c hc => ?_⟩
    obtain ⟨k, hk⟩ := (newCapTurns_ends_iff (by decide)).mp ⟨turns, c, hc⟩
    have hle := hk.trans (hpow.double k).le
    exact absurd hle (by decide)
  · obtain ⟨buf, hlen⟩ : ∃ buf : List UInt8, buf.length = 2 ^ 64 - 1 :=
      ⟨List.replicate _ 0, List.length_replicate⟩
    refine ⟨buf, hlen, fun answer => ?_⟩
    have hneed : (1 + buf.length) % 2 ^ 64 = 0 := by omega
    have hgrow : memfsGrow .created ((1 + buf.length) % 2 ^ 64) answer = some .created := by
      rw [hneed]
      rfl
    refine ⟨_, if_neg (by rw [hneed]; simp), ?_⟩
    rw [memfsWrite_some hgrow rfl]
    exact ⟨congrArg some hlen, rfl⟩

end MyOs
