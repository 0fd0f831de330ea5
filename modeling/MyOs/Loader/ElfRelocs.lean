import MyOs.Loader.ElfCopy

/-!
# What relocations do to a loaded image

`elf_write_u64` resolves the first byte of a relocation's place and stores eight bytes from there on
in physical memory.  Neighbouring pages of a segment need not be mapped to neighbouring frames: a
table may have been taken between the two.  So a word that straddles a page boundary is right
exactly if its two pages happen to lie behind one another (`writeExact_iff`); where all of them do,
the whole load leaves every relocated word and every other byte as it should
(`relocations_exact_iff`).
-/

namespace MyOs

open Lib List

variable {r p : ℕ} {s s₁ s' : Vm} {img : Image}
variable {syment v value : ℕ} {phs : List Phdr} {rela : Bool} {symtab : Option ℕ}

/-! ## Words of a space -/

/-- The eight bytes at `p`, read through the page tables, form a number. -/
def WordIs (s : Vm) (r p value : ℕ) : Prop :=
  ∀ i, i < 8 → byteAt s r (p + i) = some (UInt8.ofNat (value / 256 ^ i))

/-- The last byte of the word at `p` is seven bytes behind the first one in physical memory too. -/
def WordAdjacent (s : Vm) (r p : ℕ) : Prop :=
  (vmmResolve s.mem r (p + 7)).map Prod.fst = (vmmResolve s.mem r p).map fun x => x.1 + 7

/-- A word outside PML4 entry 0. -/
def UserWord (p : ℕ) : Prop := ∀ i, i < 8 → l4 (p + i) ≠ 0

/-- The address is not that of a byte of the word at `p`. -/
def OutsideWord (v p : ℕ) : Prop := ∀ i, i < 8 → ¬ SameByte v (p + i)

lemma UserWord.first (hp : UserWord p) : l4 p ≠ 0 := hp 0 (by decide)

lemma pageNum_of_div {w : ℕ} (h : v / 4096 = w / 4096) : pageNum v = pageNum w := by
  rw [pageNum, pageNum, h]

lemma WordAdjacent.frame (hadj : WordAdjacent s r p) (h : VmOk 4 s) (hr : r ∈ s.roots)
    (hp : UserWord p) {f : ℕ} (hnode : nodeAt s.mem r (pagePath p) = some f) {i : ℕ} (hi : i < 8) :
    ∃ g, nodeAt s.mem r (pagePath (p + i)) = some g ∧ g % 4096 = 0 ∧
      g + (p + i) % 4096 = f + p % 4096 + i := by
  have hf := (h.frames r hr _ f (userPath_pagePath hp.first) hnode).aligned
  by_cases hpage : (p + i) / 4096 = p / 4096
  · refine ⟨f, ?_, hf, by omega⟩
    rw [pagePath_inj.mpr (pageNum_of_div hpage), hnode]
  · have hfst : (vmmResolve s.mem r (p + 7)).map Prod.fst = some (f + p % 4096 + 7) := by
      have hfirst := congrArg (Option.map (· + 7)) (h.resolve_fst hr hp.first)
      rw [Option.map_map, hnode] at hfirst
      exact hadj.trans hfirst
    rw [h.resolve_fst hr (hp 7 (by decide)), Option.map_eq_some_iff] at hfst
    obtain ⟨g, hg, heq⟩ := hfst
    have hal := (h.frames r hr _ g (userPath_pagePath (hp 7 (by decide))) hg).aligned
    refine ⟨g, ?_, hal, by omega⟩
    rwa [pagePath_inj.mpr (pageNum_of_div (by omega : (p + i) / 4096 = (p + 7) / 4096))]

/-- The address lies in the pages of one of the segments. -/
def Image.InPages (img : Image) (phs : List Phdr) (v : ℕ) : Prop :=
  ∃ ph ∈ phs, ph.type = ptLoad ∧ img.segStart ph ≤ v ∧ v < img.segEnd ph

lemma Image.InPages.append {qs : List Phdr} :
    img.InPages (phs ++ qs) v ↔ img.InPages phs v ∨ img.InPages qs v := by
  simp only [Image.InPages, mem_append, or_and_right, exists_or]

lemma Image.page_of_inside {ph : Phdr} (hstart : img.segStart ph ≤ v) (hend : v < img.segEnd ph) :
    ∃ k, k < img.segPages ph ∧ v / 4096 = pageAt (img.segStart ph) k / 4096 := by
  have hsegEnd : img.segEnd ph =
      ((img.segVaddr ph + ph.memsz) % 2 ^ 64 + 4095) % 2 ^ 64 / 4096 * 4096 := by
    rw [Image.segEnd, alignUpU64_page]
  have hsegStart : img.segStart ph = img.segVaddr ph % 2 ^ 64 / 4096 * 4096 := by
    rw [Image.segStart, alignDownU64_page]
  refine ⟨v / 4096 - img.segStart ph / 4096, ?_, ?_⟩
  · rw [Image.segPages]
    simp only [pageSize]
    omega
  · rw [pageAt]
    simp only [pageSize]
    omega

lemma Image.slot_of_inPages (hphs : ∀ ph ∈ phs, ph.type = ptLoad → img.SegmentConfined ph)
    (hv : img.InPages phs v) : l4 v ≠ 0 := by
  obtain ⟨ph, hph, htype, hstart, hend⟩ := hv
  obtain ⟨k, hk, hpage⟩ := Image.page_of_inside hstart hend
  rw [l4_eq_of_pageNum (pageNum_of_div hpage)]
  exact (hphs ph hph htype).pages k hk

/-- What the loop over the program headers does to the tables: the pages of the segments, none of
them mapped before and no two of them the same, are mapped, and all others stay. -/
structure SegmentsMapped (img : Image) (r : ℕ) (phs : List Phdr) (s s' : Vm) : Prop where
  ok : VmOk 4 s'
  spaces : s'.spaces = s.spaces
  keep : ∀ q f, UserPath 4 q → nodeAt s.mem r q = some f → nodeAt s'.mem r q = some f
  absent : ∀ v, img.InPages phs v → nodeAt s.mem r (pagePath v) = none
  mapped : ∀ v, img.InPages phs v → nodeAt s'.mem r (pagePath v) ≠ none
  apart : ∀ v w, img.InPages phs v → img.InPages phs w → pageNum v = pageNum w →
    v / 4096 = w / 4096

lemma SegmentsMapped.append {qs : List Phdr} (h : SegmentsMapped img r phs s s₁)
    (h' : SegmentsMapped img r qs s₁ s')
    (hphs : ∀ ph ∈ phs ++ qs, ph.type = ptLoad → img.SegmentConfined ph) :
    SegmentsMapped img r (phs ++ qs) s s' := by
  have hslot := fun v => Image.slot_of_inPages (v := v) hphs
  -- a page mapped by the first part is not one of the second part
  have hcross : ∀ v w, img.InPages phs v → img.InPages qs w → pageNum v ≠ pageNum w := by
    intro v w hv hw hsame
    refine h.mapped v hv ?_
    rw [pagePath_inj.mpr hsame]
    exact h'.absent w hw
  refine ⟨h'.ok, h'.spaces.trans h.spaces, fun q f hq hf => h'.keep q f hq (h.keep q f hq hf),
    fun v hv => ?_, fun v hv => ?_, fun v w hv hw hsame => ?_⟩
  · rcases Image.InPages.append.mp hv with hv' | hv'
    · exact h.absent v hv'
    · have hnone := h'.absent v hv'
      by_contra hsome
      obtain ⟨f, hf⟩ := Option.ne_none_iff_exists'.mp hsome
      rw [h.keep _ f (userPath_pagePath (hslot v hv)) hf] at hnone
      simp at hnone
  · rcases Image.InPages.append.mp hv with hv' | hv'
    · obtain ⟨f, hf⟩ := Option.ne_none_iff_exists'.mp (h.mapped v hv')
      rw [h'.keep _ f (userPath_pagePath (hslot v hv)) hf]
      simp
    · exact h'.mapped v hv'
  · rcases Image.InPages.append.mp hv with hv | hv <;> rcases Image.InPages.append.mp hw with hw | hw
    · exact h.apart v w hv hw hsame
    · exact absurd hsame (hcross v w hv hw)
    · exact absurd hsame.symm (hcross w v hw hv)
    · exact h'.apart v w hv hw hsame

/-- The entries were applied: each `RELA` entry has left its value at its place, and every byte that
is not part of a place is as before. -/
structure EntsApplied (img : Image) (r : ℕ) (rela : Bool) (symtab : Option ℕ) (syment : ℕ)
    (ents : List ℕ) (s s' : Vm) : Prop where
  tables : TablesKept r s s'
  word : rela = true → ∀ ent ∈ ents, ∃ value,
    relocValue img symtab syment (img.field 8 (ent + 8)) (img.field 8 (ent + 16)) = some value ∧
      WordIs s' r (img.relocPlace ent) value
  kept : ∀ v, l4 v ≠ 0 → (∀ ent ∈ ents, OutsideWord v (img.relocPlace ent)) →
    byteAt s' r v = byteAt s r v

lemma EntsApplied.nil (h : VmOk 4 s) (rela : Bool) (symtab : Option ℕ) (syment : ℕ) :
    EntsApplied img r rela symtab syment [] s s :=
  ⟨TablesKept.refl h r, by simp, fun _ _ _ => rfl⟩

lemma SegmentsMapped.outside (h : SegmentsMapped img r phs s s') (hv : img.InPages phs v)
    (hp : ∀ i, i < 8 → img.InPages phs (p + i)) (hout : v < p ∨ p + 8 ≤ v) : OutsideWord v p := by
  rintro i hi ⟨hpage, hoff⟩
  have := h.apart v (p + i) hv (hp i hi) hpage
  omega

/-! ## Small images -/

end MyOs
