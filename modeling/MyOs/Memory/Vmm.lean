import MyOs.Memory.PmmLive
import MyOs.Lib.Bytes
import MyOs.Lib.Tables

/-!
# Page tables

`src/vmm.c`: four-level x86-64 page tables in physical frames, and the registry of user address
spaces.  All physical memory below 4 GiB is identity mapped for the kernel, so a table is read and
written at its physical address.

An index into a table is a `Fin 512`, the value of an expression such as `(virt >> 39) & 0x1FF`.
The walks of `vmm_unmap_page` and `map_page_inner` go through three levels that are treated alike;
they are `walk` and `ensurePath` over the list of the three indices.
-/

namespace MyOs

open Lib

abbrev vmmFlagPresent : ℕ := 1

abbrev vmmFlagWritable : ℕ := 2

abbrev vmmFlagUser : ℕ := 4

abbrev vmmFlagHuge : ℕ := 128

abbrev vmmFlagGlobal : ℕ := 256

abbrev vmmFlagNoexec : ℕ := 2 ^ 63

abbrev vmmAddrMask : ℕ := 0x000FFFFFFFFFF000

abbrev vmmMaxUserSpaces : ℕ := 64

/-- `vmm_space_t`. -/
structure UserSpace where
  cr3 : ℕ
  refs : ℕ
deriving DecidableEq

/-- Physical memory, the page allocator and the variables of `vmm.c`, and as a history variable the
frames that were allocated singly, the last one first. -/
structure Vm where
  mem : Memory
  pmm : Pmm
  spaces : List UserSpace
  kernelCr3 : ℕ
  handed : List ℕ

/-- An index into a table. -/
abbrev Idx := Fin 512

instance neZeroIdx : NeZero 512 := ⟨by decide⟩

/-- The index into the PML4. -/
def l4 (virt : ℕ) : Idx := Fin.ofNat 512 (virt / 2 ^ 39)

/-- The index into the PDPT. -/
def l3 (virt : ℕ) : Idx := Fin.ofNat 512 (virt / 2 ^ 30)

/-- The index into the PD. -/
def l2 (virt : ℕ) : Idx := Fin.ofNat 512 (virt / 2 ^ 21)

/-- The index into the PT. -/
def l1 (virt : ℕ) : Idx := Fin.ofNat 512 (virt / 2 ^ 12)

/-- `cr3 & ~0xFFF`. -/
def pml4FromCr3 (cr3 : ℕ) : ℕ := cr3 &&& (2 ^ 64 - 2 ^ 12)

/-- Entry `i` of the table at `t`. -/
def readEntry (m : Memory) (t : ℕ) (i : Idx) : ℕ := loadLE m 8 (t + 8 * i)

/-- The assignment `t[i] = v`. -/
def writeEntry (m : Memory) (t : ℕ) (i : Idx) (v : ℕ) : Memory := storeLE m 8 (t + 8 * i) v

/-- The table a present entry points to. -/
def tableChild (m : Memory) (t : ℕ) (i : Idx) : Option ℕ :=
  if readEntry m t i &&& vmmFlagPresent = 0 then none else some (readEntry m t i &&& vmmAddrMask)

/-- `pmm_alloc_pages(1)`, with the history. -/
def Vm.allocPage (s : Vm) : ℕ × Vm :=
  let r := pmmAllocPages s.pmm 1
  (r.1, { s with pmm := r.2, handed := if r.1 = 0 then s.handed else r.1 :: s.handed })

def allocZeroPage (s : Vm) : ℕ × Vm :=
  let r := s.allocPage
  if r.1 = 0 then (0, r.2)
  else (r.1, { r.2 with mem := fill r.2.mem r.1 pageSize 0 })

/-- `ensure_table`: the table entry `idx` of `parent` points to, a new one if there is none. -/
def ensureTable (s : Vm) (parent : ℕ) (idx : Idx) (flags : ℕ) : Option ℕ × Vm :=
  match tableChild s.mem parent idx with
  | some table => (some table, s)
  | none =>
    let r := allocZeroPage s
    if r.1 = 0 then (none, r.2)
    else (some r.1, { r.2 with mem := writeEntry r.2.mem parent idx (r.1 ||| flags) })

/-- The calls of `ensure_table` in `map_page_inner`, one after the other. -/
def ensurePath (flags : ℕ) : List Idx → ℕ → Vm → Option ℕ × Vm
  | [], table, s => (some table, s)
  | idx :: path, table, s =>
    match ensureTable s table idx flags with
    | (none, s) => (none, s)
    | (some table, s) => ensurePath flags path table s

/-- The flags of the entries that point to tables. -/
def tableFlags (flags : ℕ) : ℕ :=
  vmmFlagPresent ||| vmmFlagWritable ||| (if flags &&& vmmFlagUser = 0 then 0 else vmmFlagUser)

def mapPageInner (s : Vm) (cr3 virt phys flags : ℕ) : Bool × Vm :=
  match ensurePath (tableFlags flags) [l4 virt, l3 virt, l2 virt] (pml4FromCr3 cr3) s with
  | (none, s) => (false, s)
  | (some pt, s) =>
    if readEntry s.mem pt (l1 virt) &&& vmmFlagPresent = 0 then
      let entryFlags := flags ||| vmmFlagPresent
      (true, { s with
        mem := writeEntry s.mem pt (l1 virt) ((phys &&& vmmAddrMask) ||| entryFlags) })
    else (false, s)

def vmmMapPage (s : Vm) (cr3 virt phys flags : ℕ) : Bool × Vm := mapPageInner s cr3 virt phys flags

/-- `vmm_unmap_page`: the frame that was mapped, or 0. -/
def vmmUnmapPage (s : Vm) (cr3 virt : ℕ) : ℕ × Vm :=
  match walk (tableChild s.mem) (pml4FromCr3 cr3) [l4 virt, l3 virt, l2 virt] with
  | none => (0, s)
  | some pt =>
    let entry := readEntry s.mem pt (l1 virt)
    if entry &&& vmmFlagPresent = 0 then (0, s)
    else (entry &&& vmmAddrMask, { s with mem := writeEntry s.mem pt (l1 virt) 0 })

/-- `vmm_resolve`: the physical address and the entry it was found in. -/
def vmmResolve (m : Memory) (cr3 virt : ℕ) : Option (ℕ × ℕ) :=
  let e4 := readEntry m (pml4FromCr3 cr3) (l4 virt)
  if e4 &&& vmmFlagPresent = 0 then none
  else
    let e3 := readEntry m (e4 &&& vmmAddrMask) (l3 virt)
    if e3 &&& vmmFlagPresent = 0 then none
    else if e3 &&& vmmFlagHuge ≠ 0 then some ((e3 &&& vmmAddrMask) + (virt &&& 0x3FFFFFFF), e3)
    else
      let e2 := readEntry m (e3 &&& vmmAddrMask) (l2 virt)
      if e2 &&& vmmFlagPresent = 0 then none
      else if e2 &&& vmmFlagHuge ≠ 0 then some ((e2 &&& vmmAddrMask) + (virt &&& 0x1FFFFF), e2)
      else
        let e1 := readEntry m (e2 &&& vmmAddrMask) (l1 virt)
        if e1 &&& vmmFlagPresent = 0 then none
        else some ((e1 &&& vmmAddrMask) ||| (virt &&& 0xFFF), e1)

/-! ## Teardown -/

/-- The entries of a table, in order. -/
@[irreducible] def allIdx : List Idx := List.finRange 512

/-- The entries of a PML4 that belong to the user: all but entry 0. -/
@[irreducible] def userIdx : List Idx := (List.finRange 512).tail

/-- One turn of the loop of a teardown function: a present entry is given to `freeEntry` and
cleared. -/
def freeTurn (freeEntry : ℕ → Vm → Vm) (table : ℕ) (s : Vm) (i : Idx) : Vm :=
  let entry := readEntry s.mem table i
  if entry &&& vmmFlagPresent = 0 then s
  else
    let s := freeEntry entry s
    { s with mem := writeEntry s.mem table i 0 }

/-- The shape of the four teardown functions: the loop over the entries `idx`, then the table itself
is freed. -/
def freeTable (freeEntry : ℕ → Vm → Vm) (idx : List Idx) (table : ℕ) (s : Vm) : Vm :=
  let s := idx.foldl (freeTurn freeEntry table) s
  { s with pmm := pmmFreePages s.pmm table 1 }

/-- `if (pa) pmm_free_pages(pa, pages)`. -/
def freeFrames (pa pages : ℕ) (s : Vm) : Vm :=
  if pa = 0 then s else { s with pmm := pmmFreePages s.pmm pa pages }

def vmmFreePt : ℕ → Vm → Vm :=
  freeTable (fun entry => freeFrames (entry &&& vmmAddrMask) 1) allIdx

def vmmFreePd : ℕ → Vm → Vm :=
  freeTable
    (fun entry =>
      if entry &&& vmmFlagHuge ≠ 0 then freeFrames (entry &&& vmmAddrMask) 512
      else vmmFreePt (entry &&& vmmAddrMask))
    allIdx

def vmmFreePdpt : ℕ → Vm → Vm :=
  freeTable
    (fun entry =>
      if entry &&& vmmFlagHuge ≠ 0 then freeFrames (entry &&& vmmAddrMask) (512 * 512)
      else vmmFreePd (entry &&& vmmAddrMask))
    allIdx

def vmmDestroyUserSpace (s : Vm) (cr3 : ℕ) : Vm :=
  if cr3 = 0 ∨ cr3 = s.kernelCr3 then s
  else freeTable (fun entry => vmmFreePdpt (entry &&& vmmAddrMask)) userIdx (cr3 &&& vmmAddrMask) s

/-! ## The kernel's own tables -/

/-- The loop of `map_identity_kernel` that fills a PD with the 2 MiB pages of gigabyte `gi`. -/
def fillIdentityPd (m : Memory) (pd : ℕ) (gi : Idx) : Memory :=
  allIdx.foldl (fun m i => writeEntry m pd i
    ((gi * 0x40000000 + i * 0x200000) |||
      (vmmFlagPresent ||| vmmFlagWritable ||| vmmFlagHuge ||| vmmFlagGlobal))) m

/-- The loop of `map_identity_kernel` over the gigabytes. -/
def identityPds (pdpt : ℕ) : List Idx → Vm → Vm
  | [], s => s
  | gi :: rest, s =>
    let r := allocZeroPage s
    if r.1 = 0 then r.2
    else
      let m := writeEntry r.2.mem pdpt gi
        (r.1 ||| (vmmFlagPresent ||| vmmFlagWritable ||| vmmFlagGlobal))
      identityPds pdpt rest { r.2 with mem := fillIdentityPd m r.1 gi }

def mapIdentityKernel (s : Vm) (pml4 : ℕ) : Vm :=
  let r := allocZeroPage s
  if r.1 = 0 then r.2
  else
    let m := writeEntry r.2.mem pml4 0
      (r.1 ||| (vmmFlagPresent ||| vmmFlagWritable ||| vmmFlagGlobal))
    identityPds r.1 [0, 1, 2, 3] { r.2 with mem := m }

def vmmInit (s : Vm) : Vm :=
  let s := { s with spaces := List.replicate vmmMaxUserSpaces { cr3 := 0, refs := 0 } }
  let r := allocZeroPage s
  if r.1 = 0 then r.2
  else { mapIdentityKernel r.2 r.1 with kernelCr3 := r.1 }

/-! ## The registry of user spaces -/

def findSpaceSlot (spaces : List UserSpace) (cr3 : ℕ) : Option ℕ :=
  spaces.findIdx? fun e => e.cr3 = cr3 ∧ e.refs ≠ 0

def findFreeSpaceSlot (spaces : List UserSpace) : Option ℕ :=
  spaces.findIdx? fun e => e.refs = 0

/-- The part of `vmm_create_user_space` under the lock. -/
def registerSpace (spaces : List UserSpace) (cr3 : ℕ) : Option (List UserSpace) :=
  (findFreeSpaceSlot spaces).map fun slot => spaces.set slot { cr3 := cr3, refs := 1 }

/-- The part of `vmm_retain_user_space` under the lock. -/
def retainSpace (spaces : List UserSpace) (cr3 : ℕ) : List UserSpace :=
  match findSpaceSlot spaces cr3 with
  | some slot => spaces.modify slot fun e => { e with refs := (e.refs + 1) % 2 ^ 32 }
  | none =>
    match findFreeSpaceSlot spaces with
    | some slot => spaces.set slot { cr3 := cr3, refs := 2 }
    | none => spaces

/-- The part of `vmm_release_user_space` under the lock, with whether the space is to be
destroyed. -/
def releaseSpace (spaces : List UserSpace) (cr3 : ℕ) : Bool × List UserSpace :=
  match findSpaceSlot spaces cr3 with
  | some slot =>
    match spaces[slot]? with
    | some e =>
      if e.refs = 1 then (true, spaces.set slot { cr3 := 0, refs := 0 })
      else (false, spaces.set slot { e with refs := e.refs - 1 })
    | none => (false, spaces)
  | none => (false, spaces)

/-- `vmm_create_user_space`: the new PML4, or 0. -/
def vmmCreateUserSpace (s : Vm) : ℕ × Vm :=
  let r := allocZeroPage s
  if r.1 = 0 then (0, r.2)
  else
    let s := r.2
    -- entry 0, the kernel's identity map, is shared
    let s := { s with mem := writeEntry s.mem r.1 0 (readEntry s.mem s.kernelCr3 0) }
    match registerSpace s.spaces r.1 with
    | some spaces => (r.1, { s with spaces := spaces })
    | none => (0, { s with pmm := pmmFreePages s.pmm r.1 1 })

def vmmRetainUserSpace (s : Vm) (cr3 : ℕ) : Vm :=
  if cr3 = 0 ∨ cr3 = s.kernelCr3 then s else { s with spaces := retainSpace s.spaces cr3 }

def vmmReleaseUserSpace (s : Vm) (cr3 : ℕ) : Vm :=
  if cr3 = 0 ∨ cr3 = s.kernelCr3 then s
  else
    let r := releaseSpace s.spaces cr3
    let s := { s with spaces := r.2 }
    if r.1 then vmmDestroyUserSpace s cr3 else s

end MyOs
