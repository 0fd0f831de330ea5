import MyOs.Loader.Elf
import MyOs.Memory.KernelInit

/-!
# What the loader writes to

The image decides where `elf64_load_image` stores: the addresses and sizes of segments and the
places of relocations are all in the file.  `Image.Confined` is the condition under which the loader
writes only to frames it was handed and to the target's own PML4, whether it succeeds or fails.  It
is about what the loader comes to: an image that `elf_validate` refuses meets it, and so does one that
fails before its first bad header, page or relocation.
-/

namespace MyOs

open Lib List

variable {r : ℕ} {new : List ℕ} {s s₁ : Vm} {img : Image}

/-- The copy of one piece stays in the frame of its page. -/
def PieceFits (vaddr filesz copied : ℕ) : Prop :=
  let pageOff := (vaddr + copied) % 2 ^ 64 % 4096
  2 * pageOff + min (4096 - pageOff) (filesz - copied) ≤ 4096

/-- What has been copied after one more piece. -/
def nextPiece (vaddr filesz copied : ℕ) : ℕ :=
  copied + min (4096 - (vaddr + copied) % 2 ^ 64 % 4096) (filesz - copied)

/-- Every piece that the copy loop stores goes to a page outside PML4 entry 0 and stays in its frame. -/
def PiecesConfined (img : Image) (cr3 vaddr off filesz : ℕ) (s : Vm) (copied : ℕ) : Prop :=
  ∀ k, (copySegment img cr3 vaddr off filesz (k + 1) s copied).1 = true →
    (nextPiece vaddr filesz)^[k] copied < filesz →
      l4 ((vaddr + (nextPiece vaddr filesz)^[k] copied) % 2 ^ 64) ≠ 0 ∧
        PieceFits vaddr filesz ((nextPiece vaddr filesz)^[k] copied)

/-- The segment stays out of PML4 entry 0, in memory and in the file's part of it, and its first
piece fits in its frame. -/
structure Image.SegmentConfined (img : Image) (ph : Phdr) : Prop where
  pages : ∀ k, k < img.segPages ph → l4 (pageAt (img.segStart ph) k) ≠ 0
  bytes : ∀ i, i < ph.filesz → l4 ((img.segVaddr ph + i) % 2 ^ 64) ≠ 0
  fits : ph.filesz ≠ 0 → PieceFits (img.segVaddr ph) ph.filesz 0

/-- From the state `s` on, the loader comes to no page of the segment under PML4 entry 0 and stores no
piece of it there, and every piece that it stores stays in its frame. -/
structure Image.LoadConfined (img : Image) (cr3 : ℕ) (ph : Phdr) (s : Vm) : Prop where
  pages : ReachedOutsideKernel cr3 (segmentFlags ph) (img.segPages ph) s (img.segStart ph)
  pieces : ∀ s', mapFreshPages cr3 (segmentFlags ph) (img.segPages ph) s (img.segStart ph) =
      (img.segPages ph, s') →
    PiecesConfined img cr3 (img.segVaddr ph) ph.offset ph.filesz s' 0

/-- The loader takes a header for a segment to load. -/
def Image.Loads (img : Image) (ph : Phdr) : Prop :=
  ph.type = ptLoad ∧ (ph.offset + ph.filesz) % 2 ^ 64 ≤ img.size

lemma pageFlags_segmentFlags (ph : Phdr) : PageFlags (segmentFlags ph) := by
  unfold segmentFlags
  split_ifs <;> exact ⟨by decide, by decide⟩

lemma segStart_lt (img : Image) (ph : Phdr) : img.segStart ph < 2 ^ 64 := by
  rw [Image.segStart, alignDownU64_page]
  omega

/-- Every segment that the loop over the headers comes to is confined where it comes to it. -/
def Image.HeadersConfined (img : Image) (cr3 : ℕ) (phs : List Phdr) (s : Vm) (maxEnd : ℕ) : Prop :=
  ∀ pre ph post maxEnd' s', phs = pre ++ ph :: post →
    loadSegments img cr3 pre s maxEnd = (some maxEnd', s') → img.Loads ph → img.LoadConfined cr3 ph s'

/-- The word at a relocation's place lies in one page, outside PML4 entry 0. -/
def PlaceConfined (place : ℕ) : Prop := l4 place ≠ 0 ∧ place % 4096 ≤ 4088

/-- The place of every relocation that the loop over a table applies. -/
def RelocsConfined (img : Image) (cr3 : ℕ) (rela : Bool) (symtab : Option ℕ) (syment entSize n ent : ℕ)
    (s : Vm) : Prop :=
  ∀ i < n, (applyRelocs img cr3 rela symtab syment entSize (i + 1) ent s).1 = true →
    PlaceConfined (img.relocPlace (ent + i * entSize))

/-- The places of the relocations of a table that are applied. -/
def Image.TableConfined (img : Image) (cr3 : ℕ) (rela : Bool) (symtab : Option ℕ)
    (syment addr sz entSize : ℕ) (s : Vm) : Prop :=
  addr ≠ 0 → sz ≠ 0 → ∀ table, img.vaddrToPtr addr = some table →
    RelocsConfined img cr3 rela symtab syment entSize (sz / entSize) table s

/-- The symbol table. -/
def Image.symtabPtr (img : Image) : Option ℕ :=
  if img.dynInfo.symtab = 0 then none else img.vaddrToPtr img.dynInfo.symtab

/-- The size of a symbol, with the loader's default. -/
def Image.symEntSize (img : Image) : ℕ :=
  if img.dynInfo.syment = 0 then 24 else img.dynInfo.syment

/-- The `RELA` table from the state `s` on, and the `REL` table once the other is applied. -/
structure Image.RelocationsConfined (img : Image) (cr3 : ℕ) (s : Vm) : Prop where
  rela : img.TableConfined cr3 true img.symtabPtr img.symEntSize img.dynInfo.rela img.dynInfo.relasz
    img.dynInfo.relaEntSize s
  rel : ∀ s', applyTable img cr3 true img.symtabPtr img.symEntSize img.dynInfo.rela img.dynInfo.relasz
      img.dynInfo.relaEntSize s = (true, s') →
    img.TableConfined cr3 false img.symtabPtr img.symEntSize img.dynInfo.rel img.dynInfo.relsz
      img.dynInfo.relEntSize s'

/-- What the loader comes to is confined: nothing if the image is refused, else the segments, and once
they are loaded the relocations. -/
structure Image.Confined (img : Image) (cr3 : ℕ) (s : Vm) : Prop where
  segments : elfValidate img = true → img.HeadersConfined cr3 img.phdrs s 0
  relocations : ∀ maxEnd s', elfValidate img = true →
    loadSegments img cr3 img.phdrs s 0 = (some maxEnd, s') →
      img.RelocationsConfined cr3 s'

/-- Little-endian bytes of a number. -/
def leBytes (n v : ℕ) : List UInt8 := (List.range n).map fun i => UInt8.ofNat (v / 256 ^ i)

/-- The file with one program header and nothing behind it. -/
def oneSegment (ph : Phdr) : Image :=
  let bytes : List UInt8 :=
    [0x7F, 0x45, 0x4C, 0x46, 2, 1, 0, 0, 0, 0, 0, 0, 0, 0, 0, 0, 2, 0, 62, 0, 1, 0, 0, 0] ++
      leBytes 8 ph.vaddr ++ leBytes 8 64 ++ leBytes 12 0 ++ [64, 0, 56, 0, 1, 0, 0, 0, 0, 0, 0, 0] ++
      leBytes 4 ph.type ++ leBytes 4 ph.flags ++ leBytes 8 ph.offset ++ leBytes 8 ph.vaddr ++
      leBytes 8 0 ++ leBytes 8 ph.filesz ++ leBytes 8 ph.memsz ++ leBytes 8 4096
  { bytes := fun o => bytes.getD o 0, size := bytes.length }

/-- A segment of one byte at the start of the user region. -/
def byteSegment : Phdr :=
  { type := ptLoad, flags := 6, offset := 0, vaddr := 0x8000000000, filesz := 1, memsz := 1 }

lemma oneSegment_byte : (oneSegment byteSegment).phdrs = [byteSegment] ∧
    (oneSegment byteSegment).segVaddr byteSegment = 0x8000000000 ∧
    (oneSegment byteSegment).segStart byteSegment = 0x8000000000 ∧
    (oneSegment byteSegment).segPages byteSegment = 1 := by
  decide +kernel

end MyOs
