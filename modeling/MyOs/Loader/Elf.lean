import MyOs.Memory.UserMemory

/-!
# The ELF loader

`elf64_load_image` (`src/elf.c`) maps the `PT_LOAD` segments of an image into a user space, copies
the file's bytes into them and applies the relocations that `PT_DYNAMIC` names.

The image is given by the bytes at each offset from its start.  The loader bounds few of its reads
by `size`, so the function is total: past the end it stands for the memory behind the image.
Offsets wrap like the pointers they are added to.
-/

namespace MyOs

open Lib

/-- An image: the byte at each offset, and the size of the file. -/
structure Image where
  bytes : ℕ → UInt8
  size : ℕ

/-- A little-endian field of `n` bytes. -/
def Image.field (img : Image) (n off : ℕ) : ℕ := loadLE img.bytes n (off % 2 ^ 64)

abbrev etExec : ℕ := 2
abbrev etDyn : ℕ := 3
abbrev ptLoad : ℕ := 1
abbrev ptDynamic : ℕ := 2
abbrev rX8664_64 : ℕ := 1
abbrev rX8664GlobDat : ℕ := 6
abbrev rX8664JumpSlot : ℕ := 7
abbrev rX8664Relative : ℕ := 8

/-! ## Headers -/

def Image.eType (img : Image) : ℕ := img.field 2 16
def Image.eEntry (img : Image) : ℕ := img.field 8 24
def Image.ePhoff (img : Image) : ℕ := img.field 8 32
def Image.ePhnum (img : Image) : ℕ := img.field 2 56

def elfValidate (img : Image) : Bool :=
  if img.size < 64 then false
  else if img.field 4 0 ≠ 0x464C457F then false
  else if img.field 1 4 ≠ 2 then false
  else if img.field 1 5 ≠ 1 then false
  else if img.eType ≠ etExec ∧ img.eType ≠ etDyn then false
  else if img.field 2 18 ≠ 62 then false
  else if img.field 2 54 ≠ 56 then false
  else if (img.ePhoff + img.ePhnum * 56) % 2 ^ 64 > img.size then false
  else true

/-- `Elf64_Phdr`, without the fields the loader does not read. -/
structure Phdr where
  type : ℕ
  flags : ℕ
  offset : ℕ
  vaddr : ℕ
  filesz : ℕ
  memsz : ℕ
  deriving DecidableEq

/-- `ph[i]`. -/
def Image.phdr (img : Image) (i : ℕ) : Phdr :=
  let base := img.ePhoff + i * 56
  { type := img.field 4 base
    flags := img.field 4 (base + 4)
    offset := img.field 8 (base + 8)
    vaddr := img.field 8 (base + 16)
    filesz := img.field 8 (base + 32)
    memsz := img.field 8 (base + 40) }

/-- The program headers in order. -/
def Image.phdrs (img : Image) : List Phdr := (List.range img.ePhnum).map img.phdr

def Image.loadBias (img : Image) : ℕ :=
  if img.eType = etDyn then alignUpU64 (0x8000000000 + 0x01000000) pageSize else 0

/-! ## Segments -/

/-- The page flags of a segment. -/
def segmentFlags (ph : Phdr) : ℕ :=
  vmmFlagPresent ||| vmmFlagUser ||| (if ph.flags &&& 0x2 = 0 then 0 else vmmFlagWritable) |||
    (if ph.flags &&& 0x1 = 0 then vmmFlagNoexec else 0)

/-- The loop that copies a segment, from `copied` on.  Each turn copies a byte or more, so `filesz`
turns are enough. -/
def copySegment (img : Image) (cr3 vaddr off filesz : ℕ) : (turns : ℕ) → Vm → (copied : ℕ) → Bool × Vm
  | 0, s, _ => (true, s)
  | turns + 1, s, copied =>
    if copied < filesz then
      let curVa := (vaddr + copied) % 2 ^ 64
      match vmmResolve s.mem cr3 curVa with
      | none => (false, s)
      | some (pa, _) =>
        let pageOff := curVa &&& (pageSize - 1)
        let toCopy := min (pageSize - pageOff) (filesz - copied)
        -- the resolved address has the offset in it already
        let m := overlay s.mem ((pa + pageOff) % 2 ^ 64) toCopy
          fun j => img.bytes ((off + copied + j) % 2 ^ 64)
        copySegment img cr3 vaddr off filesz turns { s with mem := m } (copied + toCopy)
    else (true, s)

lemma copySegment_done {img : Image} {cr3 vaddr off filesz copied : ℕ} (h : filesz ≤ copied)
    (turns : ℕ) (s : Vm) : copySegment img cr3 vaddr off filesz turns s copied = (true, s) := by
  cases turns with
  | zero => rfl
  | succ turns => rw [copySegment, if_neg (by omega)]

lemma copySegment_turn (img : Image) (off : ℕ) {cr3 vaddr filesz copied pa e : ℕ} {s : Vm} {curVa : ℕ}
    (h : copied < filesz) (hva : (vaddr + copied) % 2 ^ 64 = curVa)
    (hres : vmmResolve s.mem cr3 curVa = some (pa, e)) (turns : ℕ) :
    copySegment img cr3 vaddr off filesz (turns + 1) s copied =
      copySegment img cr3 vaddr off filesz turns { s with
        mem := overlay s.mem ((pa + curVa % 4096) % 2 ^ 64) (min (4096 - curVa % 4096) (filesz - copied))
          fun j => img.bytes ((off + copied + j) % 2 ^ 64) }
        (copied + min (4096 - curVa % 4096) (filesz - copied)) := by
  have hmask : curVa &&& (pageSize - 1) = curVa % 4096 := Nat.and_two_pow_sub_one_eq_mod curVa 12
  rw [copySegment, if_pos h]
  simp only [hva, hres, hmask]

/-- The address of a segment. -/
def Image.segVaddr (img : Image) (ph : Phdr) : ℕ := (ph.vaddr + img.loadBias) % 2 ^ 64

/-- The first page of a segment. -/
def Image.segStart (img : Image) (ph : Phdr) : ℕ := alignDownU64 (img.segVaddr ph) pageSize

/-- The end of the pages of a segment. -/
def Image.segEnd (img : Image) (ph : Phdr) : ℕ :=
  alignUpU64 ((img.segVaddr ph + ph.memsz) % 2 ^ 64) pageSize

/-- The number of pages of a segment. -/
def Image.segPages (img : Image) (ph : Phdr) : ℕ := (img.segEnd ph - img.segStart ph) / pageSize

/-- One segment: the new `max_end`, or a failure. -/
def loadSegment (img : Image) (cr3 : ℕ) (ph : Phdr) (s : Vm) (maxEnd : ℕ) : Option ℕ × Vm :=
  if ph.type ≠ ptLoad then (some maxEnd, s)
  else if (ph.offset + ph.filesz) % 2 ^ 64 > img.size then (none, s)
  else
    let r := mapFreshPages cr3 (segmentFlags ph) (img.segPages ph) s (img.segStart ph)
    if r.1 ≠ img.segPages ph then (none, r.2)
    else
      match copySegment img cr3 (img.segVaddr ph) ph.offset ph.filesz ph.filesz r.2 0 with
      | (false, s) => (none, s)
      | (true, s) =>
        (some (if (img.segVaddr ph + ph.memsz) % 2 ^ 64 > maxEnd then img.segEnd ph else maxEnd), s)

/-- A segment that was accepted: it is not one to load, or its pages were mapped and the file was
copied into them. -/
lemma loadSegment_some {img : Image} {cr3 maxEnd maxEnd' : ℕ} {ph : Phdr} {s s' : Vm}
    (heq : loadSegment img cr3 ph s maxEnd = (some maxEnd', s')) :
    ph.type ≠ ptLoad ∧ maxEnd' = maxEnd ∧ s' = s ∨
      ph.type = ptLoad ∧ ∃ s1, mapFreshPages cr3 (segmentFlags ph) (img.segPages ph) s
          (img.segStart ph) = (img.segPages ph, s1) ∧
        copySegment img cr3 (img.segVaddr ph) ph.offset ph.filesz ph.filesz s1 0 = (true, s') ∧
        maxEnd' = if (img.segVaddr ph + ph.memsz) % 2 ^ 64 > maxEnd then img.segEnd ph else maxEnd := by
  rw [loadSegment] at heq
  split at heq
  · rename_i htype
    simp only [Prod.mk.injEq, Option.some.injEq] at heq
    exact Or.inl ⟨htype, heq.1.symm, heq.2.symm⟩
  rename_i htype
  split at heq
  · simp at heq
  rcases hmap : mapFreshPages cr3 (segmentFlags ph) (img.segPages ph) s (img.segStart ph) with ⟨n, s1⟩
  rw [hmap] at heq
  dsimp only at heq
  split at heq
  · simp at heq
  rename_i hn
  rcases hcopy : copySegment img cr3 (img.segVaddr ph) ph.offset ph.filesz ph.filesz s1 0 with ⟨b, s2⟩
  rw [hcopy] at heq
  cases b with
  | false => simp at heq
  | true =>
    simp only [Prod.mk.injEq, Option.some.injEq] at heq
    exact Or.inr ⟨not_not.mp htype, s1, by rw [not_not.mp hn], heq.2 ▸ hcopy, heq.1.symm⟩

/-- The loop over the program headers. -/
def loadSegments (img : Image) (cr3 : ℕ) : List Phdr → Vm → (maxEnd : ℕ) → Option ℕ × Vm
  | [], s, maxEnd => (some maxEnd, s)
  | ph :: phs, s, maxEnd =>
    match loadSegment img cr3 ph s maxEnd with
    | (none, s) => (none, s)
    | (some maxEnd, s) => loadSegments img cr3 phs s maxEnd

/-! ## Relocations -/

/-- The entries of `PT_DYNAMIC` the loader keeps. -/
structure DynInfo where
  rela : ℕ := 0
  relasz : ℕ := 0
  relaent : ℕ := 0
  rel : ℕ := 0
  relsz : ℕ := 0
  relent : ℕ := 0
  symtab : ℕ := 0
  syment : ℕ := 0

/-- The `switch` over `d_tag`. -/
def DynInfo.record (d : DynInfo) (tag val : ℕ) : DynInfo :=
  match tag with
  | 6 => { d with symtab := val }
  | 7 => { d with rela := val }
  | 8 => { d with relasz := val }
  | 9 => { d with relaent := val }
  | 11 => { d with syment := val }
  | 17 => { d with rel := val }
  | 18 => { d with relsz := val }
  | 19 => { d with relent := val }
  | _ => d

/-- The loop over one `PT_DYNAMIC` table; `DT_NULL` ends it. -/
def readDynamic (img : Image) : (n : ℕ) → (off : ℕ) → DynInfo → DynInfo
  | 0, _, d => d
  | n + 1, off, d =>
    if img.field 8 off = 0 then d
    else readDynamic img n (off + 16) (d.record (img.field 8 off) (img.field 8 (off + 8)))

/-- The loop over the program headers that looks for `PT_DYNAMIC`. -/
def Image.dynInfo (img : Image) : DynInfo :=
  img.phdrs.foldl (fun d ph =>
    if ph.type ≠ ptDynamic then d else readDynamic img (ph.filesz / 16) ph.offset d) {}

/-- `elf_find_phdr_for_vaddr`. -/
def Image.findPhdrForVaddr (img : Image) (vaddr : ℕ) : Option Phdr :=
  img.phdrs.find? fun ph => ph.type = ptLoad ∧ ph.vaddr ≤ vaddr ∧
    vaddr < (ph.vaddr + ph.filesz) % 2 ^ 64

/-- `elf_vaddr_to_ptr`, as an offset into the image. -/
def Image.vaddrToPtr (img : Image) (vaddr : ℕ) : Option ℕ :=
  match img.findPhdrForVaddr vaddr with
  | none => none
  | some seg =>
    let off := (seg.offset + (vaddr - seg.vaddr)) % 2 ^ 64
    if off ≥ img.size then none else some off

def elfWriteU64 (s : Vm) (cr3 va value : ℕ) : Bool × Vm :=
  match vmmResolve s.mem cr3 va with
  | none => (false, s)
  | some (pa, _) => (true, { s with mem := storeLE s.mem 8 pa value })

def elfReadU64 (s : Vm) (cr3 va : ℕ) : Option ℕ :=
  (vmmResolve s.mem cr3 va).map fun (pa, _) => loadLE s.mem 8 pa

/-- The value of a relocation, from its type and symbol. -/
def relocValue (img : Image) (symtab : Option ℕ) (syment info addend : ℕ) : Option ℕ :=
  let type := info % 2 ^ 32
  let symIdx := info / 2 ^ 32 % 2 ^ 32
  if type = rX8664Relative then some ((img.loadBias + addend) % 2 ^ 64)
  else if type = rX8664_64 ∨ type = rX8664GlobDat ∨ type = rX8664JumpSlot then
    match symtab with
    | none => none
    | some symtab =>
      let sym := symtab + symIdx * syment % 2 ^ 64
      if img.field 2 (sym + 6) = 0 then none
      else some ((img.loadBias + img.field 8 (sym + 8) + addend) % 2 ^ 64)
  else none

/-- The address a relocation entry at offset `ent` is about. -/
def Image.relocPlace (img : Image) (ent : ℕ) : ℕ :=
  ((if img.eType = etDyn then img.loadBias else 0) + img.field 8 ent) % 2 ^ 64

/-- One relocation: `RELA` has the addend in its entry, `REL` reads it at the place. -/
def applyReloc (img : Image) (cr3 : ℕ) (rela : Bool) (symtab : Option ℕ) (syment ent : ℕ) (s : Vm) :
    Bool × Vm :=
  let place := img.relocPlace ent
  let addend := if rela then some (img.field 8 (ent + 16)) else elfReadU64 s cr3 place
  match addend with
  | none => (false, s)
  | some addend =>
    match relocValue img symtab syment (img.field 8 (ent + 8)) addend with
    | none => (false, s)
    | some value => elfWriteU64 s cr3 place value

/-- The loop over a relocation table. -/
def applyRelocs (img : Image) (cr3 : ℕ) (rela : Bool) (symtab : Option ℕ) (syment entSize : ℕ) :
    (n : ℕ) → (ent : ℕ) → Vm → Bool × Vm
  | 0, _, s => (true, s)
  | n + 1, ent, s =>
    match applyReloc img cr3 rela symtab syment ent s with
    | (false, s) => (false, s)
    | (true, s) => applyRelocs img cr3 rela symtab syment entSize n (ent + entSize) s

/-- One of the two tables: nothing is done if there is none. -/
def applyTable (img : Image) (cr3 : ℕ) (rela : Bool) (symtab : Option ℕ) (syment addr sz entSize : ℕ)
    (s : Vm) : Bool × Vm :=
  if addr = 0 ∨ sz = 0 then (true, s)
  else
    match img.vaddrToPtr addr with
    | none => (false, s)
    | some table => applyRelocs img cr3 rela symtab syment entSize (sz / entSize) table s

/-- The size of a `RELA` entry, with the loader's default. -/
def DynInfo.relaEntSize (d : DynInfo) : ℕ :=
  if (d.rela ≠ 0 ∨ d.relasz ≠ 0) ∧ d.relaent = 0 then 24 else d.relaent

/-- The size of a `REL` entry, with the loader's default. -/
def DynInfo.relEntSize (d : DynInfo) : ℕ :=
  if (d.rel ≠ 0 ∨ d.relsz ≠ 0) ∧ d.relent = 0 then 16 else d.relent

def elfApplyRelocations (img : Image) (cr3 : ℕ) (d : DynInfo) (s : Vm) : Bool × Vm :=
  let syment := if d.syment = 0 then 24 else d.syment
  let symtab := if d.symtab = 0 then none else img.vaddrToPtr d.symtab
  match applyTable img cr3 true symtab syment d.rela d.relasz d.relaEntSize s with
  | (false, s) => (false, s)
  | (true, s) => applyTable img cr3 false symtab syment d.rel d.relsz d.relEntSize s

/-- `elf64_load_image`: the entry point and the end of the segments, or a failure. -/
def elf64LoadImage (img : Image) (s : Vm) (cr3 : ℕ) : Option (ℕ × ℕ) × Vm :=
  if !elfValidate img then (none, s)
  else
    match loadSegments img cr3 img.phdrs s 0 with
    | (none, s) => (none, s)
    | (some maxEnd, s) =>
      let done := (some ((img.eEntry + img.loadBias) % 2 ^ 64, maxEnd))
      let d := img.dynInfo
      if d.rela = 0 ∧ d.rel = 0 then (done, s)
      else
        match elfApplyRelocations img cr3 d s with
        | (false, s) => (none, s)
        | (true, s) => (done, s)

/-- An image that was accepted: the segments are loaded, and then either there is no table of
relocations or all of them are applied. -/
lemma elf64LoadImage_some {img : Image} {s s' : Vm} {cr3 entry brk : ℕ}
    (heq : elf64LoadImage img s cr3 = (some (entry, brk), s')) :
    ∃ s1, loadSegments img cr3 img.phdrs s 0 = (some brk, s1) ∧
      (img.dynInfo.rela = 0 ∧ img.dynInfo.rel = 0 ∧ s' = s1 ∨
        elfApplyRelocations img cr3 img.dynInfo s1 = (true, s')) := by
  rw [elf64LoadImage] at heq
  split at heq
  · simp at heq
  rcases hseg : loadSegments img cr3 img.phdrs s 0 with ⟨o, s1⟩
  rw [hseg] at heq
  cases o with
  | none => simp at heq
  | some maxEnd =>
    dsimp only at heq
    split at heq
    · rename_i hnone
      simp only [Prod.mk.injEq, Option.some.injEq] at heq
      exact ⟨s1, by rw [heq.1.2], Or.inl ⟨hnone.1, hnone.2, heq.2.symm⟩⟩
    rcases hrelocs : elfApplyRelocations img cr3 img.dynInfo s1 with ⟨b, s2⟩
    rw [hrelocs] at heq
    cases b with
    | false => simp at heq
    | true =>
      simp only [Prod.mk.injEq, Option.some.injEq] at heq
      exact ⟨s1, by rw [heq.1.2], Or.inr (by rw [hrelocs, heq.2])⟩

end MyOs
