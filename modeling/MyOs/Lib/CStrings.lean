import MyOs.Lib.Traced

/-!
# Reading strings

A pointer is the list of the bytes from it to the end of the memory.  A string `s` that is terminated by a
zero, with `behind` after it, is the pointer `s ++ 0 :: behind`.

`deref` reads the byte at a pointer and records how many bytes are left there.  A read is inside of the
string, its terminator included, exactly if more bytes are left than there are behind it
(`InString`, `all_deref`).
-/

namespace Lib

variable {behind s p : List UInt8} {c : UInt8}

/-- `*p` -/
def deref (p : List UInt8) : Traced ℕ UInt8 := ⟨p.headD 0, [p.length]⟩

/-- At the terminator or before it. -/
def InString (behind : List UInt8) (left : ℕ) : Prop := behind.length < left

/-- A pointer into the string that `behind` comes after, or to its terminator. -/
def PointsInto (behind p : List UInt8) : Prop := ∃ s, p = s ++ 0 :: behind

@[simp] lemma val_deref (p : List UInt8) : (deref p).val = p.headD 0 := by
  rw [deref]

@[simp] lemma all_deref : (deref p).All (InString behind) ↔ behind.length < p.length := by
  simp [deref, Traced.All, InString]

lemma PointsInto.length_lt (h : PointsInto behind p) : behind.length < p.length := by
  obtain ⟨s, rfl⟩ := h
  simp
  omega

lemma PointsInto.tail (h : PointsInto behind p) (hc : p.headD 0 ≠ 0) : PointsInto behind p.tail := by
  obtain ⟨s, rfl⟩ := h
  cases s with
  | nil => exact absurd rfl hc
  | cons c s => exact ⟨s, rfl⟩

end Lib
