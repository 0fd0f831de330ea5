import MyOs.Lib.Chains
import Mathlib.Data.List.DropRight

/-!
# The tree of files

The nodes of `src/vfs.c` and the file system in memory of `src/memfs.c`.  A directory points to the
first of its children, a child to the next one and to its directory; pointers are addresses, and 0 is
the null pointer.

Memory comes from `kmalloc`.  An `Allocator` is any policy that never hands out a block twice; it may
fail, with 0.  A node owns the block it lies in, the block of its name and, for a regular file, the
block of its file record.  `memfs_free_node` gives all of them back, and `Vfs.frees` lists the pointers
it passes to `kfree`: for a file of the archive one of them points into the archive.

C strings are the lists of their bytes, without the terminator, and no path is null.  The loops over
a list of siblings get the number of live blocks as a bound, since siblings are different blocks.
-/

namespace MyOs

open Lib

abbrev vfsNameMax : ℕ := 255

abbrev vfsPathMax : ℕ := 512

def vfsOWronly : UInt32 := 2

def vfsOCreat : UInt32 := 4

/-- The character that separates the parts of a path. -/
def slash : UInt8 := 47

/-- The character of the parts `.` and `..`. -/
def dot : UInt8 := 46

/-- `vfs_node_type_t`. -/
inductive NodeType
  | dir
  | file
  | dev
  deriving DecidableEq

/-- The tables of operations a node can have. -/
inductive NodeOps
  | memfsDir
  | memfsFile
  | tarfsDir
  | tarfsFile
  | devDisk
  | devKbd
  | devMouse
  deriving DecidableEq

/-- Whether `create` is set in the table. -/
def NodeOps.creates : NodeOps → Bool
  | .memfsDir => true
  | _ => false

/-- Whether `unlink` is set in the table. -/
def NodeOps.unlinks : NodeOps → Bool
  | .memfsDir => true
  | _ => false

/-- `memfs_file_t`: `data` is the address of the buffer. -/
structure MemfsFile where
  data : ℕ
  size : ℕ
  cap : ℕ

/-- `tarfs_file_t`: `data` is a position in the archive. -/
structure TarfsFile where
  data : ℕ
  size : ℕ

/-- The field `data` of a node: null, or the address of a file record and what it holds. -/
inductive NodeData
  | null
  | memfs (addr : ℕ) (file : MemfsFile)
  | tarfs (addr : ℕ) (file : TarfsFile)

/-- `vfs_node_t`; `namePtr` is the address of the copy of the name. -/
structure VfsNode where
  name : List UInt8
  namePtr : ℕ
  type : NodeType
  size : ℕ
  data : NodeData
  ops : NodeOps
  parent : ℕ
  children : ℕ
  next : ℕ

/-- `vfs_file_t`. -/
structure VfsFile where
  node : ℕ
  offset : ℕ
  flags : UInt32

/-! ## Memory -/

/-- A pointer passed to `kfree`: into the heap or, for the data of an archived file, into the
archive. -/
inductive KPtr
  | heap (addr : ℕ)
  | archive (offset : ℕ)
  deriving DecidableEq

/-- What `kmalloc` answers, given how often it was called before and which blocks are in use. -/
structure Allocator where
  addr : ℕ → List ℕ → ℕ
  fresh : ∀ calls live, addr calls live ∉ live

/-- The nodes and open files in memory, the blocks in use, and the variables of `src/vfs.c`.  `strays` are
the pointers that were passed to `kfree` and were not blocks in use. -/
structure Vfs where
  live : List ℕ
  strays : List KPtr
  calls : ℕ
  node : ℕ → VfsNode
  file : ℕ → VfsFile
  root : ℕ
  cwd : ℕ

namespace Vfs

/-- `kmalloc`: a block, or 0. -/
def kmalloc (A : Allocator) (s : Vfs) : ℕ × Vfs :=
  let p := A.addr s.calls s.live
  (p, { s with calls := s.calls + 1, live := if p = 0 then s.live else p :: s.live })

/-- `kfree`.  For a pointer into the archive it sets the flag of a block header that is not there: it
writes to the padding of the entry's tar header, which nobody reads. -/
def kfree (s : Vfs) : KPtr → Vfs
  | .heap p =>
    if p ∈ s.live then { s with live := s.live.erase p }
    else { s with strays := .heap p :: s.strays }
  | .archive off => { s with strays := .archive off :: s.strays }

/-- An assignment to fields of the node at `n`. -/
def modify (s : Vfs) (n : ℕ) (f : VfsNode → VfsNode) : Vfs :=
  { s with node := Function.update s.node n (f (s.node n)) }

/-- The field `next` of a node. -/
def nextOf (s : Vfs) (n : ℕ) : ℕ := (s.node n).next

end Vfs

/-! ## `src/vfs.c` -/

def vfsCreateNode (A : Allocator) (s : Vfs) (name : List UInt8) (type : NodeType) (ops : NodeOps)
    (data : NodeData) : ℕ × Vfs :=
  let node := s.kmalloc A
  if node.1 = 0 then node
  else
    let copy := node.2.kmalloc A
    if copy.1 = 0 then (0, copy.2.kfree (.heap node.1))
    else
      (node.1, copy.2.modify node.1 fun _ =>
        { name := name, namePtr := copy.1, type := type, size := 0, data := data, ops := ops,
          parent := 0, children := 0, next := 0 })

def vfsFindChild (s : Vfs) (parent : ℕ) (name : List UInt8) : ℕ :=
  if parent = 0 ∨ (s.node parent).type ≠ .dir then 0
  else
    chainFind s.nextOf (fun n => (s.node n).name == name) s.live.length (s.node parent).children

/-- The assignments of `vfs_add_child`. -/
def Vfs.attach (s : Vfs) (parent child : ℕ) : Vfs :=
  (s.modify child fun n => { n with parent := parent, next := (s.node parent).children }).modify
    parent fun n => { n with children := child }

/-- `vfs_add_child`; `none` is the result -1. -/
def vfsAddChild (s : Vfs) (parent child : ℕ) : Option Vfs :=
  if parent = 0 ∨ child = 0 ∨ (s.node parent).type ≠ .dir then none
  else if vfsFindChild s parent (s.node child).name ≠ 0 then none
  else some (s.attach parent child)

/-- The assignments of `vfs_remove_child`, with the place that holds the pointer to the child: the
head of the list or a sibling. -/
def Vfs.detach (s : Vfs) (parent child : ℕ) (place : Option ℕ) : Vfs :=
  let s' := match place with
    | none => s.modify parent fun n => { n with children := s.nextOf child }
    | some sibling => s.modify sibling fun n => { n with next := s.nextOf child }
  s'.modify child fun n => { n with next := 0, parent := 0 }

/-- `vfs_remove_child`; `none` is the result -1. -/
def vfsRemoveChild (s : Vfs) (parent child : ℕ) : Option Vfs :=
  if parent = 0 ∨ child = 0 ∨ (s.node parent).type ≠ .dir then none
  else
    (chainCell s.nextOf child s.live.length none (s.node parent).children).map
      (s.detach parent child)

def vfsSkipSlashes (p : List UInt8) : List UInt8 := p.dropWhile (· == slash)

/-- One part of a path in `vfs_resolve`. -/
def resolvePart (s : Vfs) (cur : ℕ) (seg : List UInt8) : ℕ :=
  if seg = [dot] then cur
  else if seg = [dot, dot] then if (s.node cur).parent ≠ 0 then (s.node cur).parent else cur
  else if 0 < seg.length then if seg.length > vfsNameMax then 0 else vfsFindChild s cur seg
  else cur

/-- The loop of `vfs_resolve`.  A turn consumes a character, so the length of the path bounds their
number. -/
def resolveLoop (s : Vfs) : ℕ → ℕ → List UInt8 → ℕ
  | 0, cur, _ => cur
  | fuel + 1, cur, p =>
    if p = [] then cur
    else
      let next := resolvePart s cur (p.takeWhile (· != slash))
      if next = 0 then 0
      else resolveLoop s fuel next (vfsSkipSlashes (p.dropWhile (· != slash)))

def vfsResolve (s : Vfs) (path : List UInt8) (cwd : ℕ) : ℕ :=
  if s.root = 0 then 0
  else if path.head? = some slash then resolveLoop s path.length s.root (vfsSkipSlashes path)
  else resolveLoop s path.length (if cwd ≠ 0 then cwd else s.root) path

def vfsResolvePath (s : Vfs) (path : List UInt8) : ℕ := vfsResolve s path s.cwd

/-- The index of the last slash. -/
def lastSlash : List UInt8 → Option ℕ
  | [] => none
  | c :: cs =>
    match lastSlash cs with
    | some i => some (i + 1)
    | none => if c = slash then some 0 else none

/-- `vfs_resolve_parent`: the directory and the name; `none` is the result -1. -/
def vfsResolveParent (s : Vfs) (path : List UInt8) (cwd : ℕ) : Option (ℕ × List UInt8) :=
  if path.length = 0 ∨ path.length ≥ vfsPathMax then none
  else
    -- trailing slashes go, the first character stays
    let tmp := path.take 1 ++ (path.drop 1).rdropWhile (· == slash)
    match lastSlash tmp with
    | none => some (if cwd ≠ 0 then cwd else s.root, tmp.take vfsNameMax)
    | some 0 => some (s.root, (tmp.drop 1).take vfsNameMax)
    | some (i + 1) =>
      let parent := vfsResolve s (tmp.take (i + 1)) cwd
      if parent = 0 then none else some (parent, (tmp.drop (i + 2)).take vfsNameMax)

/-! ## `src/memfs.c` -/

/-- The pointers `memfs_free_node` passes to `kfree` for the data of a regular file.  It reads every
record as a `memfs_file_t`, and in a `tarfs_file_t` the first field points into the archive. -/
def NodeData.frees : NodeData → List KPtr
  | .null => []
  | .memfs addr file => if file.data = 0 then [.heap addr] else [.heap file.data, .heap addr]
  | .tarfs addr file => [.archive file.data, .heap addr]

/-- The pointers `memfs_free_node` passes to `kfree`. -/
def Vfs.frees (s : Vfs) (n : ℕ) : List KPtr :=
  (if (s.node n).type = .file then (s.node n).data.frees else []) ++
    [.heap (s.node n).namePtr, .heap n]

def memfsFreeNode (s : Vfs) (n : ℕ) : Vfs := (s.frees n).foldl Vfs.kfree s

/-- `kfree` of the file record, if there is one. -/
def NodeData.release (s : Vfs) : NodeData → Vfs
  | .null => s
  | .memfs addr _ => s.kfree (.heap addr)
  | .tarfs addr _ => s.kfree (.heap addr)

/-- The second half of `memfs_create`: the node is made and added to the directory. -/
def memfsAddNode (A : Allocator) (s : Vfs) (dir : ℕ) (name : List UInt8) (type : NodeType)
    (ops : NodeOps) (data : NodeData) : Option ℕ × Vfs :=
  let node := vfsCreateNode A s name type ops data
  if node.1 = 0 then (none, data.release node.2)
  else
    match vfsAddChild node.2 dir node.1 with
    | none => (none, memfsFreeNode node.2 node.1)
    | some s => (some node.1, s)

/-- `memfs_create`: the new node, or `none` for the result -1. -/
def memfsCreate (A : Allocator) (s : Vfs) (dir : ℕ) (name : List UInt8) (type : NodeType) :
    Option ℕ × Vfs :=
  if dir = 0 ∨ (s.node dir).type ≠ .dir then (none, s)
  else if vfsFindChild s dir name ≠ 0 then (none, s)
  else if type = .dir then memfsAddNode A s dir name type .memfsDir .null
  else
    let file := s.kmalloc A
    if file.1 = 0 then (none, file.2)
    else memfsAddNode A file.2 dir name type .memfsFile (.memfs file.1 ⟨0, 0, 0⟩)

/-- `memfs_unlink`; `none` is the result -1. -/
def memfsUnlink (s : Vfs) (dir : ℕ) (name : List UInt8) : Option Vfs :=
  if dir = 0 ∨ (s.node dir).type ≠ .dir then none
  else
    let child := vfsFindChild s dir name
    if child = 0 then none
    else if (s.node child).type = .dir ∧ (s.node child).children ≠ 0 then none
    else (vfsRemoveChild s dir child).map fun s => memfsFreeNode s child

/-! ## Calls with a path -/

/-- `vfs_mkdir` and `vfs_create`, which differ in the type of the node: whether the call succeeds, and
the state after it. -/
def vfsMake (type : NodeType) (A : Allocator) (s : Vfs) (path : List UInt8) : Bool × Vfs :=
  match vfsResolveParent s path s.cwd with
  | none => (false, s)
  | some (parent, name) =>
    if parent = 0 ∨ (s.node parent).type ≠ .dir then (false, s)
    else if name = [] ∨ name = [dot] ∨ name = [dot, dot] then (false, s)
    else if ¬ (s.node parent).ops.creates then (false, s)
    else
      let created := memfsCreate A s parent name type
      (created.1.isSome, created.2)

def vfsMkdir : Allocator → Vfs → List UInt8 → Bool × Vfs := vfsMake .dir

def vfsCreate : Allocator → Vfs → List UInt8 → Bool × Vfs := vfsMake .file

/-- `vfs_unlink`; `none` is the result -1. -/
def vfsUnlink (s : Vfs) (path : List UInt8) : Option Vfs :=
  match vfsResolveParent s path s.cwd with
  | none => none
  | some (parent, name) =>
    if parent = 0 ∨ (s.node parent).type ≠ .dir then none
    else if ¬ (s.node parent).ops.unlinks then none
    else memfsUnlink s parent name

/-- The first half of `vfs_open`: the node the path leads to, which with `VFS_O_CREAT` may be made. -/
def vfsOpenNode (A : Allocator) (s : Vfs) (path : List UInt8) (flags : UInt32) : ℕ × Vfs :=
  let node := vfsResolvePath s path
  if node = 0 ∧ flags &&& vfsOCreat ≠ 0 then
    let created := vfsCreate A s path
    (if created.1 then vfsResolvePath created.2 path else 0, created.2)
  else (node, s)

/-- `vfs_open`: the open file, or 0. -/
def vfsOpen (A : Allocator) (s : Vfs) (path : List UInt8) (flags : UInt32) : ℕ × Vfs :=
  let node := vfsOpenNode A s path flags
  if node.1 = 0 then node
  else if (node.2.node node.1).type = .dir ∧ flags &&& vfsOWronly ≠ 0 then (0, node.2)
  else
    let file := node.2.kmalloc A
    if file.1 = 0 then file
    else
      (file.1, { file.2 with
        file := Function.update file.2.file file.1 { node := node.1, offset := 0, flags := flags } })

end MyOs
