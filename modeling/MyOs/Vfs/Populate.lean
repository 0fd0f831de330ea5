import MyOs.Base
import MyOs.Vfs.Tree

/-!
# What fills the tree

The kernel makes an empty root (`memfs_create_root`), adds the entries of the archive it was linked
with (`src/tarfs.c`) and the devices (`src/devfs.c`), and from then on serves calls with paths.

`tarfs_populate_vfs` walks over the headers of the archive and adds one entry after the other.  Which
entries there are does not depend on the tree, so `tarEntries` reads them first.  The archive is the
list of the bytes from `g_start` to `g_end`, and positions count from `g_start`.
-/

namespace MyOs

/-! ## The archive -/

/-- An array inside a header. -/
def field (block : List UInt8) (offset len : ℕ) : List UInt8 := (block.drop offset).take len

/-- The text in an array, which need not be terminated. -/
def fieldText (block : List UInt8) (offset len : ℕ) : List UInt8 :=
  (field block offset len).takeWhile (· != 0)

def parseOctal (s : List UInt8) : ℕ :=
  (s.takeWhile (· != 0)).foldl
    (fun v c => if c < 48 ∨ c > 55 then v else (v * 8 + (c.toNat - 48)) % 2 ^ 64) 0

/-- A loop that appends to `name[256]`, leaving room for the terminator. -/
def copyName (name : List UInt8) : List UInt8 → List UInt8
  | [] => name
  | c :: cs => if name.length + 1 < 256 then copyName (name ++ [c]) cs else name

/-- The two parts of a name, joined in `name[256]`. -/
def joinName (pre rest : List UInt8) : List UInt8 :=
  let name := copyName [] pre
  let name :=
    if pre.length > 0 then if name.length + 1 < 256 then name ++ [slash] else name else name
  copyName name rest

/-- What `tarfs_populate_vfs` passes to `tarfs_add_entry`; `data` is the position of the content. -/
structure TarEntry where
  path : List UInt8
  data : ℕ
  size : ℕ
  isDir : Bool

/-- The entry whose header is at `p`. -/
def tarEntry (archive : List UInt8) (p : ℕ) : TarEntry :=
  let block := field archive p 512
  let name := joinName (fieldText block 345 155) (fieldText block 0 100)
  let tname := if name.take 2 = [dot, slash] then name.drop 2 else name
  let clean := tname.take 255
  { path := if clean.getLast? = some slash then clean.dropLast else clean
    data := p + 512
    size := parseOctal (field block 124 12)
    isDir := field block 156 1 = [53] ∨ tname.getLast? = some slash }

/-- The entries from `p` on, up to the end of the archive or an empty name. -/
def tarEntriesFrom (archive : List UInt8) : ℕ → ℕ → List TarEntry
  | 0, _ => []
  | fuel + 1, p =>
    if p + 512 ≤ archive.length then
      if (archive.drop p).head? = some 0 then []
      else
        let entry := tarEntry archive p
        entry :: tarEntriesFrom archive fuel (p + (512 + alignUpU64 entry.size 512))
    else []

/-- The entries of an archive. -/
def tarEntries (archive : List UInt8) : List TarEntry := tarEntriesFrom archive archive.length 0

/-- The last part of an entry's path in `tarfs_add_entry`: a directory or a file, unless the name is
taken. -/
def tarfsAddLeaf (A : Allocator) (s : Vfs) (cur : ℕ) (name : List UInt8) (entry : TarEntry) : Vfs :=
  if vfsFindChild s cur name ≠ 0 then s
  else if entry.isDir then
    let node := vfsCreateNode A s name .dir .tarfsDir .null
    if node.1 = 0 then node.2 else (vfsAddChild node.2 cur node.1).getD node.2
  else
    let file := s.kmalloc A
    if file.1 = 0 then file.2
    else
      let node := vfsCreateNode A file.2 name .file .tarfsFile
        (.tarfs file.1 ⟨entry.data, entry.size⟩)
      if node.1 = 0 then node.2.kfree (.heap file.1)
      else
        let s := node.2.modify node.1 fun n => { n with size := entry.size }
        (vfsAddChild s cur node.1).getD s

/-- The loop of `tarfs_add_entry`: the directories on the path are made as needed.  A turn consumes a
character, so the length of the path bounds their number. -/
def tarfsAddLoop (A : Allocator) (entry : TarEntry) : ℕ → Vfs → ℕ → List UInt8 → Vfs
  | 0, s, _, _ => s
  | fuel + 1, s, cur, p =>
    if p = [] then s
    else
      let name := p.takeWhile (· != slash)
      if name.length > vfsNameMax then s
      else
        match p.dropWhile (· != slash) with
        | [] => tarfsAddLeaf A s cur name entry
        | _ :: rest =>
          let next := vfsFindChild s cur name
          if next ≠ 0 then tarfsAddLoop A entry fuel s next rest
          else
            let node := vfsCreateNode A s name .dir .tarfsDir .null
            if node.1 = 0 then node.2
            else
              match vfsAddChild node.2 cur node.1 with
              | none => node.2
              | some s => tarfsAddLoop A entry fuel s node.1 rest

def tarfsAddEntry (A : Allocator) (s : Vfs) (entry : TarEntry) : Vfs :=
  if s.root = 0 ∨ entry.path = [] then s
  else tarfsAddLoop A entry entry.path.length s s.root entry.path

/-- `tarfs_populate_vfs`, for the archive given to `tarfs_init`. -/
def tarfsPopulateVfs (A : Allocator) (archive : List UInt8) (s : Vfs) : Vfs :=
  if s.root = 0 then s else (tarEntries archive).foldl (tarfsAddEntry A) s

/-! ## The devices -/

/-- One device of `devfs_init`: whether to go on, and the state. -/
def devfsAdd (A : Allocator) (s : Vfs) (dir : ℕ) (name : List UInt8) (ops : NodeOps) : Bool × Vfs :=
  if vfsFindChild s dir name ≠ 0 then (true, s)
  else
    let node := vfsCreateNode A s name .dev ops .null
    if node.1 = 0 then (false, node.2) else (true, (vfsAddChild node.2 dir node.1).getD node.2)

/-- Devices one after the other, until there is no memory. -/
def devfsAddAll (A : Allocator) (dir : ℕ) : Vfs → List (List UInt8 × NodeOps) → Vfs
  | s, [] => s
  | s, (name, ops) :: rest =>
    let r := devfsAdd A s dir name ops
    if r.1 then devfsAddAll A dir r.2 rest else r.2

/-- The devices in the order in which they are added. -/
def devices : List (List UInt8 × NodeOps) :=
  [(ascii "disk", .devDisk), (ascii "kbd", .devKbd),
    (ascii "mouse", .devMouse)]

/-- The directory of the devices, made if need be. -/
def devfsDir (A : Allocator) (s : Vfs) : ℕ × Vfs :=
  let dir := vfsFindChild s s.root (ascii "dev")
  if dir = 0 then
    let made := (vfsMkdir A s (ascii "/dev")).2
    (vfsFindChild made made.root (ascii "dev"), made)
  else (dir, s)

def devfsInit (A : Allocator) (s : Vfs) : Vfs :=
  if s.root = 0 then s
  else
    let dir := devfsDir A s
    if dir.1 = 0 ∨ (dir.2.node dir.1).type ≠ .dir then dir.2
    else devfsAddAll A dir.1 dir.2 devices

/-! ## Runs -/

/-- Memory before the root is made. -/
def vfsEmpty : Vfs where
  live := []
  strays := []
  calls := 0
  node _ := ⟨[], 0, .dir, 0, .null, .memfsDir, 0, 0, 0⟩
  file _ := ⟨0, 0, 0⟩
  root := 0
  cwd := 0

/-- `vfs_init(memfs_create_root())`. -/
def vfsInit (A : Allocator) : Vfs :=
  let root := vfsCreateNode A vfsEmpty [] .dir .memfsDir .null
  { root.2 with root := root.1, cwd := root.1 }

/-- A call that can change the tree. -/
inductive VfsOp
  | mkdir (path : List UInt8)
  | create (path : List UInt8)
  | openFile (path : List UInt8) (flags : UInt32)
  | unlink (path : List UInt8)
  | devfsInit

/-- One call. -/
def Vfs.step (A : Allocator) (s : Vfs) : VfsOp → Vfs
  | .mkdir path => (vfsMkdir A s path).2
  | .create path => (vfsCreate A s path).2
  | .openFile path flags => (vfsOpen A s path flags).2
  | .unlink path => (vfsUnlink s path).getD s
  | .devfsInit => MyOs.devfsInit A s

end MyOs
