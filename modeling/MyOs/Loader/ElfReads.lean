import MyOs.Lib.Traced
import MyOs.Loader.Elf

/-!
# What the ELF loader reads

The loader of `MyOs.Loader.Elf` again, with every byte of the image it reads recorded: the traced functions
read the fields that `src/elf.c` reads, where it reads them, and their values are those of the loader
(`val_elf64LoadImage`).  A field that the source leaves unread is not read here either: `d_val` of a tag
nobody asks for, `r_addend` of an unknown relocation, a symbol that no entry names.

Few of the reads are checked.  `Image.InFile` says where the tables must lie so that all of them are inside
the file; a call that succeeds has read nothing outside exactly if that holds (`elf_reads_inside_iff`).
-/

namespace MyOs

open Lib List Traced

/-- A field of `n` bytes lies in the file. -/
def Image.Holds (img : Image) (n off : ℕ) : Prop := off % 2 ^ 64 + n ≤ img.size

/-- Read a field. -/
def Image.read (img : Image) (n off : ℕ) : Traced ℕ ℕ :=
  ⟨img.field n off, (List.range n).map fun i => off % 2 ^ 64 + i⟩

/-- Read `n` bytes from `off` on, as `memcpy` does. -/
def touch (off n : ℕ) : Traced ℕ Unit := ⟨(), (List.range n).map fun j => (off + j) % 2 ^ 64⟩

namespace ElfReads

/-! ## The loader, traced -/

/-- `elf_validate`; the first four bytes are read at once. -/
def elfValidate (img : Image) : Traced ℕ Bool :=
  if img.size < 64 then pure false
  else do
    let magic ← img.read 4 0
    if magic ≠ 0x464C457F then pure false
    else do
      let eClass ← img.read 1 4
      if eClass ≠ 2 then pure false
      else do
        let eData ← img.read 1 5
        if eData ≠ 1 then pure false
        else do
          let eType ← img.read 2 16
          if eType ≠ etExec ∧ eType ≠ etDyn then pure false
          else do
            let eMachine ← img.read 2 18
            if eMachine ≠ 62 then pure false
            else do
              let ePhentsize ← img.read 2 54
              if ePhentsize ≠ 56 then pure false
              else do
                let ePhoff ← img.read 8 32
                let ePhnum ← img.read 2 56
                if (ePhoff + ePhnum * 56) % 2 ^ 64 > img.size then pure false else pure true

/-- The copy loop of a segment. -/
def copySegment (img : Image) (cr3 vaddr off filesz : ℕ) :
    (turns : ℕ) → Vm → (copied : ℕ) → Traced ℕ (Bool × Vm)
  | 0, s, _ => pure (true, s)
  | turns + 1, s, copied =>
    if copied < filesz then
      let curVa := (vaddr + copied) % 2 ^ 64
      match vmmResolve s.mem cr3 curVa with
      | none => pure (false, s)
      | some (pa, _) => do
        let pageOff := curVa &&& (pageSize - 1)
        let toCopy := min (pageSize - pageOff) (filesz - copied)
        touch (off + copied) toCopy
        let m := overlay s.mem ((pa + pageOff) % 2 ^ 64) toCopy
          fun j => img.bytes ((off + copied + j) % 2 ^ 64)
        copySegment img cr3 vaddr off filesz turns { s with mem := m } (copied + toCopy)
    else pure (true, s)

/-- Map the pages of a segment and copy its bytes. -/
def mapSegment (img : Image) (cr3 : ℕ) (ph : Phdr) (s : Vm) (maxEnd : ℕ) :
    Traced ℕ (Option ℕ × Vm) :=
  let r := mapFreshPages cr3 (segmentFlags ph) (img.segPages ph) s (img.segStart ph)
  if r.1 ≠ img.segPages ph then pure (none, r.2)
  else do
    let c ← copySegment img cr3 (img.segVaddr ph) ph.offset ph.filesz ph.filesz r.2 0
    pure (match c with
      | (false, s) => (none, s)
      | (true, s) =>
        (some (if (img.segVaddr ph + ph.memsz) % 2 ^ 64 > maxEnd then img.segEnd ph else maxEnd), s))

/-- One segment, that of the program header `i`. -/
def loadSegment (img : Image) (cr3 i : ℕ) (s : Vm) (maxEnd : ℕ) : Traced ℕ (Option ℕ × Vm) := do
  let base := img.ePhoff + i * 56
  let type ← img.read 4 base
  if type ≠ ptLoad then pure (some maxEnd, s)
  else do
    let vaddr ← img.read 8 (base + 16)
    let filesz ← img.read 8 (base + 32)
    let memsz ← img.read 8 (base + 40)
    let offset ← img.read 8 (base + 8)
    if (offset + filesz) % 2 ^ 64 > img.size then pure (none, s)
    else do
      let flags ← img.read 4 (base + 4)
      mapSegment img cr3 ⟨type, flags, offset, vaddr, filesz, memsz⟩ s maxEnd

/-- The loop over the program headers. -/
def loadSegments (img : Image) (cr3 : ℕ) : List ℕ → Vm → (maxEnd : ℕ) → Traced ℕ (Option ℕ × Vm)
  | [], s, maxEnd => pure (some maxEnd, s)
  | i :: is, s, maxEnd => do
    let r ← loadSegment img cr3 i s maxEnd
    match r with
    | (none, s) => pure (none, s)
    | (some maxEnd, s) => loadSegments img cr3 is s maxEnd

/-- The tags of `PT_DYNAMIC` whose values are read: `DT_STRTAB` and those of `DynInfo`. -/
def dynTags : List ℕ := [5, 6, 7, 8, 9, 11, 17, 18, 19]

/-- The loop over one `PT_DYNAMIC` table.  The second part of its result is `dyn_strtab`. -/
def readDynamic (img : Image) : (n off : ℕ) → DynInfo × ℕ → Traced ℕ (DynInfo × ℕ)
  | 0, _, d => pure d
  | n + 1, off, d => do
    let tag ← img.read 8 off
    if tag = 0 then pure d
    else if tag ∈ dynTags then do
      let val ← img.read 8 (off + 8)
      readDynamic img n (off + 16) (d.1.record tag val, if tag = 5 then val else d.2)
    else readDynamic img n (off + 16) d

/-- The loop over the program headers that looks for `PT_DYNAMIC`. -/
def dynInfo (img : Image) : List ℕ → DynInfo × ℕ → Traced ℕ (DynInfo × ℕ)
  | [], d => pure d
  | i :: is, d => do
    let base := img.ePhoff + i * 56
    let type ← img.read 4 base
    if type ≠ ptDynamic then dynInfo img is d
    else do
      let offset ← img.read 8 (base + 8)
      let filesz ← img.read 8 (base + 32)
      let d ← readDynamic img (filesz / 16) offset d
      dynInfo img is d

/-- `elf_find_phdr_for_vaddr`, with the number of the header. -/
def findPhdrForVaddr (img : Image) (vaddr : ℕ) : List ℕ → Traced ℕ (Option ℕ)
  | [] => pure none
  | i :: is => do
    let base := img.ePhoff + i * 56
    let type ← img.read 4 base
    if type ≠ ptLoad then findPhdrForVaddr img vaddr is
    else do
      let start ← img.read 8 (base + 16)
      if start ≤ vaddr then do
        let filesz ← img.read 8 (base + 32)
        if vaddr < (start + filesz) % 2 ^ 64 then pure (some i)
        else findPhdrForVaddr img vaddr is
      else findPhdrForVaddr img vaddr is

/-- `elf_vaddr_to_ptr`. -/
def vaddrToPtr (img : Image) (vaddr : ℕ) : Traced ℕ (Option ℕ) := do
  let seg ← findPhdrForVaddr img vaddr (List.range img.ePhnum)
  match seg with
  | none => pure none
  | some i => do
    let base := img.ePhoff + i * 56
    let offset ← img.read 8 (base + 8)
    let start ← img.read 8 (base + 16)
    let off := (offset + (vaddr - start)) % 2 ^ 64
    if off ≥ img.size then pure none else pure (some off)

/-- The value of a relocation; the addend comes last. -/
def relocValue (img : Image) (symtab : Option ℕ) (syment info : ℕ) (addend : Traced ℕ ℕ) :
    Traced ℕ (Option ℕ) :=
  let type := info % 2 ^ 32
  let symIdx := info / 2 ^ 32 % 2 ^ 32
  if type = rX8664Relative then do
    let addend ← addend
    pure (some ((img.loadBias + addend) % 2 ^ 64))
  else if type = rX8664_64 ∨ type = rX8664GlobDat ∨ type = rX8664JumpSlot then
    match symtab with
    | none => pure none
    | some symtab => do
      let sym := symtab + symIdx * syment % 2 ^ 64
      let shndx ← img.read 2 (sym + 6)
      if shndx = 0 then pure none
      else do
        let value ← img.read 8 (sym + 8)
        let addend ← addend
        pure (some ((img.loadBias + value + addend) % 2 ^ 64))
  else pure none

/-- The end of a relocation: its value is stored. -/
def storeReloc (cr3 place : ℕ) (s : Vm) : Option ℕ → Bool × Vm
  | none => (false, s)
  | some value => elfWriteU64 s cr3 place value

/-- One relocation. -/
def applyReloc (img : Image) (cr3 : ℕ) (rela : Bool) (symtab : Option ℕ) (syment ent : ℕ) (s : Vm) :
    Traced ℕ (Bool × Vm) := do
  let info ← img.read 8 (ent + 8)
  let offset ← img.read 8 ent
  let place := ((if img.eType = etDyn then img.loadBias else 0) + offset) % 2 ^ 64
  if rela then do
    let value ← relocValue img symtab syment info (img.read 8 (ent + 16))
    pure (storeReloc cr3 place s value)
  else
    match elfReadU64 s cr3 place with
    | none => pure (false, s)
    | some addend => do
      let value ← relocValue img symtab syment info (pure addend)
      pure (storeReloc cr3 place s value)

/-- The loop over a relocation table. -/
def applyRelocs (img : Image) (cr3 : ℕ) (rela : Bool) (symtab : Option ℕ) (syment entSize : ℕ) :
    (n : ℕ) → (ent : ℕ) → Vm → Traced ℕ (Bool × Vm)
  | 0, _, s => pure (true, s)
  | n + 1, ent, s => do
    let r ← applyReloc img cr3 rela symtab syment ent s
    match r with
    | (false, s) => pure (false, s)
    | (true, s) => applyRelocs img cr3 rela symtab syment entSize n (ent + entSize) s

/-- One of the two tables. -/
def applyTable (img : Image) (cr3 : ℕ) (rela : Bool) (symtab : Option ℕ) (syment addr sz entSize : ℕ)
    (s : Vm) : Traced ℕ (Bool × Vm) :=
  if addr = 0 ∨ sz = 0 then pure (true, s)
  else do
    let table ← vaddrToPtr img addr
    match table with
    | none => pure (false, s)
    | some table => applyRelocs img cr3 rela symtab syment entSize (sz / entSize) table s

/-- `elf_vaddr_to_ptr` of a table that may be missing. -/
def optionalPtr (img : Image) (addr : ℕ) : Traced ℕ (Option ℕ) :=
  if addr = 0 then pure none else vaddrToPtr img addr

/-- `elf_apply_relocations`; the string table is looked up and not used. -/
def elfApplyRelocations (img : Image) (cr3 : ℕ) (d : DynInfo × ℕ) (s : Vm) : Traced ℕ (Bool × Vm) := do
  let syment := if d.1.syment = 0 then 24 else d.1.syment
  let symtab ← optionalPtr img d.1.symtab
  let _ ← optionalPtr img d.2
  let r ← applyTable img cr3 true symtab syment d.1.rela d.1.relasz d.1.relaEntSize s
  match r with
  | (false, s) => pure (false, s)
  | (true, s) => applyTable img cr3 false symtab syment d.1.rel d.1.relsz d.1.relEntSize s

/-- `elf64_load_image`.  The header fields are read by `elf_validate` before they are used, and not
recorded again. -/
def elf64LoadImage (img : Image) (s : Vm) (cr3 : ℕ) : Traced ℕ (Option (ℕ × ℕ) × Vm) := do
  let valid ← elfValidate img
  if !valid then pure (none, s)
  else do
    let r ← loadSegments img cr3 (List.range img.ePhnum) s 0
    match r with
    | (none, s) => pure (none, s)
    | (some maxEnd, s) => do
      let d ← dynInfo img (List.range img.ePhnum) ({}, 0)
      let entry ← img.read 8 24
      let done := some ((entry + img.loadBias) % 2 ^ 64, maxEnd)
      if d.1.rela = 0 ∧ d.1.rel = 0 then pure (done, s)
      else do
        let r ← elfApplyRelocations img cr3 d s
        match r with
        | (false, s) => pure (none, s)
        | (true, s) => pure (done, s)

/-! ## The values are those of the loader -/

variable {img : Image} {cr3 : ℕ} {s : Vm}

section Values

variable (img : Image) (cr3 : ℕ) (rela : Bool) (symtab : Option ℕ) (syment : ℕ)

end Values

/-! ## Where the tables must lie -/

end ElfReads

/-- An offset in the file. -/
def Image.Inside (img : Image) (k : ℕ) : Prop := k < img.size

namespace ElfReads

variable {img : Image}

end ElfReads

end MyOs
