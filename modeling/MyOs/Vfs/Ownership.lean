import MyOs.Vfs.Paths
import MyOs.Vfs.MemfsData

/-!
# Who frees what

The tree and the files that are open on it, and two things every call should keep: only blocks that are in
use are passed to `kfree`, and no open file refers to a node that was freed.

All the calls that add to the tree keep both, and so do `vfs_write`, which exchanges the buffer of a file, and
`vfs_close`.  `vfs_unlink` goes through the operations of the directory, `memfs_unlink`, whatever made the
node: for a file of the archive `memfs_free_node` takes the `tarfs_file_t` for a `memfs_file_t` and frees the
address of the content.  It does not look for open files either.  These are the only ways in which the two
properties are lost (`blocks_sound_iff`).
-/

namespace MyOs

open Lib Vfs List Function

variable {ok : List UInt8 → Prop} {A : Allocator} {s s' : Vfs} {kids kids' : ℕ → List ℕ} {c d f n p : ℕ}
variable {addr : ℕ} {file : MemfsFile}

/-! ## Writing and closing -/

/-- The assignments at the end of `memfs_write`. -/
def Vfs.setRecord (s : Vfs) (n addr : ℕ) (file : MemfsFile) : Vfs :=
  s.modify n fun v => { v with data := .memfs addr file, size := file.size }

/-- `memfs_write`, as far as blocks are concerned: the buffer is replaced if it is too small.  (`memfsWrite` is
the same function with the bytes.)  The record of a node with `memfs_file_ops` is a `memfs_file_t`. -/
def memfsWriteAt (A : Allocator) (s : Vfs) (n offset len : ℕ) : Option ℕ × Vfs :=
  if (s.node n).type ≠ .file then (none, s)
  else
    match (s.node n).data with
    | .memfs addr file =>
      let need := (offset + len) % 2 ^ 64
      let size := if need > file.size then need else file.size
      if need > file.cap then
        let new := s.kmalloc A
        if new.1 = 0 then (none, new.2)
        else
          let s := if file.data ≠ 0 then new.2.kfree (.heap file.data) else new.2
          (some len, s.setRecord n addr ⟨new.1, size, memfsNewCap file.cap need⟩)
      else (some len, s.setRecord n addr { file with size := size })
    | _ => (none, s)

/-- `vfs_write` of `len` bytes: the number of bytes written, or `none` for the result -1.  `device` is what the
disk answers. -/
def vfsWrite (A : Allocator) (s : Vfs) (f len : ℕ) (device : Option ℕ) : Option ℕ × Vfs :=
  let file := s.file f
  if file.node = 0 then (none, s)
  else
    let r := match (s.node file.node).ops with
      | .memfsFile => memfsWriteAt A s file.node file.offset len
      | .devDisk => (device, s)
      -- `tarfs_write` returns -1, and the other tables have no `write`
      | _ => (none, s)
    match r.1 with
    | none => r
    | some n =>
      (some n, { r.2 with
        file := Function.update r.2.file f { file with offset := (file.offset + n) % 2 ^ 64 } })

def vfsClose (s : Vfs) (f : ℕ) : Vfs := if f = 0 then s else s.kfree (.heap f)

/-! ## Runs -/

/-- The tree, and the files that are open. -/
structure OpenFs where
  vfs : Vfs
  opened : List ℕ

/-- What can happen to them. -/
inductive FsOp
  | populate (archive : List UInt8)
  | call (op : VfsOp)
  | write (file len : ℕ) (device : Option ℕ)
  | close (file : ℕ)

/-- The node `vfs_unlink` removes. -/
def unlinked (s : Vfs) (path : List UInt8) : Option ℕ :=
  match vfsResolveParent s path s.cwd with
  | none => none
  | some (parent, name) =>
    let child := vfsFindChild s parent name
    if parent = 0 ∨ (s.node parent).type ≠ .dir ∨ ¬ (s.node parent).ops.unlinks ∨ child = 0 ∨
        (s.node child).type = .dir ∧ (s.node child).children ≠ 0 then none
    else some child

/-- A file that came from the archive. -/
def Vfs.Archived (s : Vfs) (n : ℕ) : Prop :=
  (s.node n).type = .file ∧ ∃ addr file, (s.node n).data = .tarfs addr file

namespace OpenFs

/-- One event. -/
def step (A : Allocator) (t : OpenFs) : FsOp → OpenFs
  | .populate archive => { t with vfs := tarfsPopulateVfs A archive t.vfs }
  | .call (.openFile path flags) =>
    let r := vfsOpen A t.vfs path flags
    ⟨r.2, if r.1 = 0 then t.opened else r.1 :: t.opened⟩
  | .call op => { t with vfs := t.vfs.step A op }
  | .write file len device => { t with vfs := (vfsWrite A t.vfs file len device).2 }
  | .close file => ⟨vfsClose t.vfs file, t.opened.erase file⟩

/-- Only open files are written to and closed; a write past 2^63 does not return. -/
def Legal (t : OpenFs) : FsOp → Prop
  | .write file len _ => file ∈ t.opened ∧ (t.vfs.file file).offset + len ≤ 2 ^ 63
  | .close file => file ∈ t.opened
  | _ => True

/-- Only blocks in use have been freed, and the nodes of the open files are in use. -/
def Sound (t : OpenFs) : Prop :=
  t.vfs.strays = [] ∧ ∀ f ∈ t.opened, (t.vfs.file f).node ∈ t.vfs.live

/-- What is removed is not a file of the archive, and not open. -/
def Spares (t : OpenFs) : FsOp → Prop
  | .call (.unlink path) => ∀ n, unlinked t.vfs path = some n →
      ¬ t.vfs.Archived n ∧ ∀ f ∈ t.opened, (t.vfs.file f).node ≠ n
  | _ => True

end OpenFs

/-! ## What `vfs_unlink` removes -/

lemma archive_not_mem_frees : (∀ off, .archive off ∉ s.frees n) ↔ ¬ s.Archived n := by
  rw [Archived, frees]
  by_cases htype : (s.node n).type = .file
  · cases hdata : (s.node n).data with
    | null => simp [htype, NodeData.frees]
    | memfs addr file =>
      simp only [htype, NodeData.frees]
      split_ifs <;> simp
    | tarfs addr file => simp [htype, NodeData.frees]
  · simp [htype]

lemma Vfs.Shape.removeChild_eq (hs : Shape ok s kids) (hc : c ∈ kids d) :
    ∃ s', vfsRemoveChild s d c = some s' := by
  have hd := hs.closed d c hc
  have hcell : ∃ place, chainCell s.nextOf c s.live.length none (s.node d).children = some place := by
    rcases chainCell_spec (hs.chain d hd) (hs.nodup d) hc (hs.length_le d) none with
      ⟨-, hcell, -⟩ | ⟨-, q, -, -, hcell, -⟩
    · exact ⟨_, hcell⟩
    · exact ⟨_, hcell⟩
  obtain ⟨place, hcell⟩ := hcell
  refine ⟨s.detach d c place, ?_⟩
  rw [vfsRemoveChild, if_neg (by simp [hs.ne_zero hd, hs.ne_zero (InTree.of_mem hc), hs.dir d c hc]), hcell,
    Option.map_some]

lemma Vfs.Shape.unlink_cases (hs : Shape ok s kids) (path : List UInt8) :
    vfsUnlink s path = none ∧ unlinked s path = none ∨
      ∃ s' kids' n, vfsUnlink s path = some s' ∧ unlinked s path = some n ∧ Shape ok s' kids' ∧
        (Blocks s kids → Removed s kids s' kids' n) := by
  rw [vfsUnlink, unlinked]
  cases hparent : vfsResolveParent s path s.cwd with
  | none => exact Or.inl ⟨rfl, rfl⟩
  | some r =>
    obtain ⟨d, name⟩ := r
    obtain ⟨hd, -, -⟩ := hs.resolveParent hparent
    dsimp only
    by_cases hbad : d = 0 ∨ (s.node d).type ≠ .dir ∨ ¬ (s.node d).ops.unlinks ∨
        vfsFindChild s d name = 0 ∨ (s.node (vfsFindChild s d name)).type = .dir ∧
          (s.node (vfsFindChild s d name)).children ≠ 0
    · refine Or.inl ⟨?_, if_pos hbad⟩
      simp only [memfsUnlink]
      split_ifs with hdir hunlinks hfind hempty
      · rfl
      · rfl
      · rfl
      · exact absurd hbad (by tauto)
      · rfl
    · rw [if_neg hbad]
      simp only [not_or] at hbad
      obtain ⟨hnull, hdir, hunlinks, hfind, hempty⟩ := hbad
      obtain ⟨t, ht⟩ := hs.removeChild_eq (hs.findChild_mem hd hfind)
      have hmem : memfsUnlink s d name = some (memfsFreeNode t (vfsFindChild s d name)) := by
        simp only [memfsUnlink]
        rw [if_neg (not_or.mpr ⟨hnull, hdir⟩), if_neg hfind, if_neg hempty, ht, Option.map_some]
      obtain ⟨kids', hs', hremoved⟩ := hs.unlink hd hmem
      refine Or.inr ⟨_, kids', vfsFindChild s d name, ?_, rfl, hs', hremoved⟩
      rw [if_neg (not_or.mpr ⟨hnull, hdir⟩), if_neg hunlinks, hmem]

namespace OpenFs

variable {t : OpenFs} {op : FsOp}

/-! ## Open files are blocks of their own -/

/-- The tree has its shape, its blocks are different ones, and the open files are others, which refer to nodes
of the tree. -/
structure Held (t : OpenFs) (kids : ℕ → List ℕ) : Prop where
  shape : Shape (fun _ => True) t.vfs kids
  blocks : Blocks t.vfs kids
  nodup : t.opened.Nodup
  live : ∀ f ∈ t.opened, f ∈ t.vfs.live
  unowned : ∀ f ∈ t.opened, t.vfs.Unowned kids f
  node : ∀ f ∈ t.opened, t.vfs.InTree kids (t.vfs.file f).node

lemma Held.sound (h : Held t kids) (hstrays : t.vfs.strays = []) : t.Sound :=
  ⟨hstrays, fun f hf => h.shape.mem_live (h.node f hf)⟩

lemma Held.grown (h : Held t kids) (hs' : Shape (fun _ => True) s' kids') (hgrown : Grown t.vfs kids s' kids') :
    Held ⟨s', t.opened⟩ kids' where
  shape := hs'
  blocks := hgrown.blocks h.blocks
  nodup := h.nodup
  live f hf := hgrown.live f (h.live f hf)
  unowned f hf := hgrown.unowned f (h.live f hf) (h.unowned f hf)
  node f hf := by
    rw [hgrown.file]
    exact hgrown.inTree _ (h.node f hf)

lemma Held.extends (h : Held t kids) (hextends : Vfs.Extends (fun _ => True) t.vfs kids s') :
    (∃ kids', Held ⟨s', t.opened⟩ kids') ∧ s'.strays = t.vfs.strays := by
  obtain ⟨kids', hs', hgrown⟩ := hextends
  exact ⟨⟨kids', h.grown hs' hgrown⟩, hgrown.strays⟩

lemma Held.openFile (h : Held t kids) (A : Allocator) (path : List UInt8) (flags : UInt32) :
    (∃ kids', Held (t.step A (.call (.openFile path flags))) kids') ∧
      (t.step A (.call (.openFile path flags))).vfs.strays = t.vfs.strays := by
  rw [step]
  generalize hr : vfsOpen A t.vfs path flags = r
  obtain ⟨s', kids', hs', hgrown, hcase⟩ := h.shape.openFile (fun _ _ => trivial) A path flags hr
  have hheld := h.grown hs' hgrown
  rcases hcase with rfl | ⟨hne, hlive, hnew, hunowned, n, hn, hfile⟩
  · exact ⟨⟨kids', hheld⟩, hgrown.strays⟩
  · dsimp only
    rw [if_neg hne, hfile]
    refine ⟨⟨kids', ?_⟩, hgrown.strays⟩
    have hother : ∀ f ∈ t.opened, f ≠ r.1 := by
      rintro f hf rfl
      exact hnew (h.live _ hf)
    constructor
    case shape => exact hs'.frame ⟨rfl, rfl, fun _ _ => rfl⟩ hs'.live hs'.null
    case blocks => exact ⟨hheld.blocks.nodup, hheld.blocks.distinct⟩
    case nodup => exact nodup_cons.mpr ⟨fun hmem => hother _ hmem rfl, h.nodup⟩
    case live =>
      intro f hf
      rcases mem_cons.mp hf with rfl | hf
      · exact hlive
      · exact hheld.live f hf
    case unowned =>
      intro f hf
      rcases mem_cons.mp hf with rfl | hf
      · exact hunowned
      · exact hheld.unowned f hf
    case node =>
      intro f hf
      rcases mem_cons.mp hf with rfl | hf
      · simp only [update_self]
        exact hn
      · simp only [update_of_ne (hother f hf)]
        exact hheld.node f hf

lemma Held.close (h : Held t kids) (A : Allocator) (hf : f ∈ t.opened) :
    Held (t.step A (.close f)) kids ∧ (t.step A (.close f)).vfs.strays = t.vfs.strays := by
  have hlive := h.live f hf
  have hnull : f ≠ 0 := fun hzero => h.shape.null (hzero ▸ hlive)
  have hclose : t.step A (.close f) = ⟨{ t.vfs with live := t.vfs.live.erase f }, t.opened.erase f⟩ := by
    rw [step, vfsClose, if_neg hnull, Shape.kfree_heap hlive]
  have hrest : ∀ g ∈ t.opened.erase f, g ∈ t.opened ∧ g ≠ f := fun g hg =>
    (and_comm.mp (h.nodup.mem_erase_iff.mp hg))
  rw [hclose]
  refine ⟨?_, rfl⟩
  constructor
  case shape =>
    have hfree : ∀ p, KPtr.heap f = .heap p → t.vfs.Unowned kids p := by
      rintro p ⟨⟩
      exact h.unowned f hf
    have hs' := h.shape.kfree hfree
    rwa [Shape.kfree_heap hlive] at hs'
  case blocks => exact ⟨h.blocks.nodup.erase f, h.blocks.distinct⟩
  case nodup => exact h.nodup.erase f
  case live => exact fun g hg => (mem_erase_of_ne (hrest g hg).2).mpr (h.live g (hrest g hg).1)
  case unowned => exact fun g hg => h.unowned g (hrest g hg).1
  case node => exact fun g hg => h.node g (hrest g hg).1

/-- An unlink that removes a node keeps the properties exactly if it spares the archive and the open files. -/
lemma Held.unlink (h : Held t kids) (A : Allocator) (path : List UInt8) (hsound : t.Sound) :
    ((t.step A (.call (.unlink path))).Sound ↔ t.Spares (.call (.unlink path))) ∧
      (t.Spares (.call (.unlink path)) → ∃ kids', Held (t.step A (.call (.unlink path))) kids') := by
  have hstep : t.step A (.call (.unlink path)) = ⟨(vfsUnlink t.vfs path).getD t.vfs, t.opened⟩ := rfl
  rw [hstep]
  rcases h.shape.unlink_cases path with ⟨hnone, htarget⟩ | ⟨s', kids', n, hsome, htarget, hs', hremoved⟩
  · have hspares : t.Spares (.call (.unlink path)) := by
      intro n hn
      rw [htarget] at hn
      cases hn
    rw [hnone, Option.getD_none]
    exact ⟨iff_of_true hsound hspares, fun _ => ⟨kids, h⟩⟩
  have hr := hremoved h.blocks
  have hspares : t.Spares (.call (.unlink path)) ↔
      ¬ t.vfs.Archived n ∧ ∀ f ∈ t.opened, (t.vfs.file f).node ≠ n := by
    simp only [Spares, htarget, Option.some.injEq, forall_eq']
  rw [hsome, Option.getD_some, hspares]
  refine ⟨and_congr ?_ (forall₂_congr fun f hf => ?_), ?_⟩
  · rw [← archive_not_mem_frees, ← hr.strays, hsound.1]
  · rw [hr.file]
    constructor
    · rintro hlive rfl
      exact hr.gone hlive
    · exact fun hne => hs'.mem_live (hr.inTree _ (h.node f hf) hne)
  · rintro ⟨-, hopened⟩
    refine ⟨kids', hs', hr.blocks, h.nodup, fun f hf => ?_, fun f hf => hr.unowned f (h.unowned f hf),
      fun f hf => ?_⟩
    · exact hr.live f (h.live f hf) (h.unowned f hf n hr.mem)
    · rw [hr.file]
      exact hr.inTree _ (h.node f hf) (hopened f hf)

/-! ## A new buffer -/

lemma Held.rewrite (h : Held t kids) (hn : t.vfs.InTree kids n) (hroot : s'.root = t.vfs.root)
    (hcwd : s'.cwd = t.vfs.cwd) (hfile : s'.file = t.vfs.file)
    (hlinks : ∀ m, links (s'.node m) = links (t.vfs.node m))
    (hother : ∀ m, m ≠ n → s'.frees m = t.vfs.frees m)
    (hlive : ∀ p ∈ t.vfs.live, ¬ t.vfs.Owns n p → p ∈ s'.live)
    (howns : ∀ p, s'.Owns n p → p ∈ s'.live ∧ (t.vfs.Owns n p ∨ p ∉ t.vfs.live))
    (hdistinct : (s'.frees n).Nodup) (hnodup : s'.live.Nodup) (hnull : 0 ∉ s'.live) :
    Held ⟨s', t.opened⟩ kids := by
  have hin : ∀ m, s'.InTree kids m ↔ t.vfs.InTree kids m := fun m => by rw [InTree, InTree, hroot]
  have hsame : ∀ {m p}, m ≠ n → s'.Owns m p → t.vfs.Owns m p := fun hne hp => by
    rwa [Owns, hother _ hne] at hp
  -- a block of another node is not one of `n`, neither before nor afterwards
  have hapart : ∀ {m p}, t.vfs.InTree kids m → m ≠ n → t.vfs.Owns m p →
      ¬ t.vfs.Owns n p ∧ ¬ s'.Owns n p := by
    intro m p hm hne hp
    have hold : ¬ t.vfs.Owns n p := fun hp' => hne (h.shape.apart m n hm hn p hp hp')
    refine ⟨hold, fun hp' => ?_⟩
    rcases (howns p hp').2 with hown | hnew
    · exact hold hown
    · exact hnew (h.shape.live m hm p hp)
  constructor
  case shape =>
    refine h.shape.of_links hroot hcwd (fun m _ => hlinks m) (fun m hm p hp => ?_)
      (fun a b ha hb p hap hbp => ?_) hnull
    · by_cases hmn : m = n
      · subst hmn
        exact (howns p hp).1
      · exact hlive p (h.shape.live m hm p (hsame hmn hp)) (hapart hm hmn (hsame hmn hp)).1
    · by_cases han : a = n <;> by_cases hbn : b = n
      · rw [han, hbn]
      · subst han
        exact absurd hap (hapart hb hbn (hsame hbn hbp)).2
      · subst hbn
        exact absurd hbp (hapart ha han (hsame han hap)).2
      · exact h.shape.apart a b ha hb p (hsame han hap) (hsame hbn hbp)
  case blocks =>
    refine ⟨hnodup, fun m hm => ?_⟩
    by_cases hmn : m = n
    · rw [hmn]
      exact hdistinct
    · rw [hother m hmn]
      exact h.blocks.distinct m ((hin m).mp hm)
  case nodup => exact h.nodup
  case live => exact fun f hf => hlive f (h.live f hf) (h.unowned f hf n hn)
  case unowned =>
    intro f hf m hm hp
    by_cases hmn : m = n
    · subst hmn
      rcases (howns f hp).2 with hown | hnew
      · exact h.unowned f hf m hn hown
      · exact hnew (h.live f hf)
    · exact h.unowned f hf m ((hin m).mp hm) (hsame hmn hp)
  case node =>
    intro f hf
    rw [hfile, hin]
    exact h.node f hf

end OpenFs

lemma frees_memfs (htype : (s.node n).type = .file) (hdata : (s.node n).data = .memfs addr file) :
    s.frees n = (if file.data = 0 then [] else [.heap file.data]) ++
      [.heap addr, .heap (s.node n).namePtr, .heap n] := by
  rw [frees, if_pos htype, hdata, NodeData.frees]
  split_ifs <;> rfl

lemma frees_setRecord (htype : (s.node n).type = .file) :
    (s.setRecord n addr file).frees n = (if file.data = 0 then [] else [.heap file.data]) ++
      [.heap addr, .heap (s.node n).namePtr, .heap n] := by
  simp only [frees, setRecord, modify_self, htype, if_true, NodeData.frees]
  split_ifs <;> rfl

lemma frees_setRecord_of_ne (s : Vfs) {m : ℕ} (h : m ≠ n) :
    (s.setRecord n addr file).frees m = s.frees m :=
  frees_congr (congrArg identity (modify_of_ne s h _))

lemma links_setRecord (s : Vfs) (n addr : ℕ) (file : MemfsFile) (m : ℕ) :
    links ((s.setRecord n addr file).node m) = links (s.node m) :=
  modify_field links (fun _ => by rfl) s n m

namespace OpenFs

variable {t : OpenFs} {op : FsOp}

section

variable (h : Held t kids) (hn : t.vfs.InTree kids n) (htype : (t.vfs.node n).type = .file)
  (hdata : (t.vfs.node n).data = .memfs addr file)
include h hn htype hdata

lemma Held.setRecord {file' : MemfsFile} (hbuffer : file'.data = file.data) :
    Held ⟨t.vfs.setRecord n addr file', t.opened⟩ kids := by
  have hfrees : (t.vfs.setRecord n addr file').frees n = t.vfs.frees n := by
    rw [frees_setRecord htype, frees_memfs htype hdata, hbuffer]
  have howns : ∀ p, (t.vfs.setRecord n addr file').Owns n p ↔ t.vfs.Owns n p := fun p => by
    rw [Owns, Owns, hfrees]
  refine h.rewrite hn rfl rfl rfl (links_setRecord t.vfs n addr file')
    (fun m hm => frees_setRecord_of_ne t.vfs hm) (fun p hp _ => hp) (fun p hp => ?_) ?_ h.blocks.nodup
    h.shape.null
  · have hp' := (howns p).mp hp
    exact ⟨h.shape.live n hn p hp', Or.inl hp'⟩
  · rw [hfrees]
    exact h.blocks.distinct n hn

/-- The state before the record is changed: the old buffer, if there is one, makes way for a new block. -/
lemma Held.swap (hnull : (t.vfs.kmalloc A).1 ≠ 0) {s1 : Vfs}
    (hs1 : (if file.data ≠ 0 then (t.vfs.kmalloc A).2.kfree (.heap file.data) else (t.vfs.kmalloc A).2) =
      s1) :
    (s1.node = t.vfs.node ∧ s1.file = t.vfs.file ∧ s1.root = t.vfs.root ∧ s1.cwd = t.vfs.cwd) ∧
      s1.strays = t.vfs.strays ∧ s1.live.Nodup ∧
      ∀ p, p ∈ s1.live ↔ (p = (t.vfs.kmalloc A).1 ∨ p ∈ t.vfs.live) ∧ p ≠ file.data := by
  have hfresh : (t.vfs.kmalloc A).1 ∉ t.vfs.live := A.fresh _ _
  have hlive := Shape.kmalloc_live hnull
  have hnodup : ((t.vfs.kmalloc A).1 :: t.vfs.live).Nodup := nodup_cons.mpr ⟨hfresh, h.blocks.nodup⟩
  by_cases hbuf : file.data = 0
  · rw [if_neg (not_not.mpr hbuf)] at hs1
    subst hs1
    refine ⟨⟨rfl, rfl, rfl, rfl⟩, rfl, by rwa [hlive], fun p => ?_⟩
    rw [hlive, mem_cons, hbuf]
    refine (and_iff_left_of_imp ?_).symm
    rintro (rfl | hp) hzero
    · exact hnull hzero
    · exact h.shape.null (hzero ▸ hp)
  · have hold : file.data ∈ t.vfs.live := by
      refine h.shape.live n hn _ ?_
      rw [Owns, frees_memfs htype hdata, if_neg hbuf]
      simp
    have hmem : file.data ∈ (t.vfs.kmalloc A).2.live := Shape.mem_kmalloc_live hold
    rw [if_pos hbuf, Shape.kfree_heap hmem] at hs1
    subst hs1
    refine ⟨⟨rfl, rfl, rfl, rfl⟩, rfl, ?_, fun p => ?_⟩
    · rw [hlive]
      exact hnodup.erase _
    · rw [hlive, hnodup.mem_erase_iff, mem_cons, and_comm]

lemma Held.newBuffer {file' : MemfsFile} (hnull : (t.vfs.kmalloc A).1 ≠ 0)
    (hbuffer : file'.data = (t.vfs.kmalloc A).1) {s1 : Vfs}
    (hs1 : (if file.data ≠ 0 then (t.vfs.kmalloc A).2.kfree (.heap file.data) else (t.vfs.kmalloc A).2) =
      s1) :
    Held ⟨s1.setRecord n addr file', t.opened⟩ kids ∧ s1.strays = t.vfs.strays ∧ s1.file = t.vfs.file := by
  obtain ⟨⟨hnode, hfile, hroot, hcwd⟩, hstrays, hnodup, hmem⟩ := h.swap hn htype hdata hnull hs1
  have hfresh : (t.vfs.kmalloc A).1 ∉ t.vfs.live := A.fresh _ _
  have hold := frees_memfs htype hdata
  have hdistinct := h.blocks.distinct n hn
  rw [hold] at hdistinct
  have hnew : (s1.setRecord n addr file').frees n =
      [.heap (t.vfs.kmalloc A).1, .heap addr, .heap (t.vfs.node n).namePtr, .heap n] := by
    rw [frees_setRecord (by rw [hnode]; exact htype), hbuffer, if_neg hnull, hnode]
    rfl
  -- the three blocks that stay
  have hstay : ∀ p, .heap p ∈ [KPtr.heap addr, .heap (t.vfs.node n).namePtr, .heap n] →
      t.vfs.Owns n p ∧ p ∈ t.vfs.live ∧ p ≠ file.data := by
    intro p hp
    have howns : t.vfs.Owns n p := by
      rw [Owns, hold]
      exact mem_append_right _ hp
    have hlive := h.shape.live n hn p howns
    refine ⟨howns, hlive, ?_⟩
    rintro rfl
    have hne : file.data ≠ 0 := fun hzero => h.shape.null (hzero ▸ hlive)
    rw [if_neg hne] at hdistinct
    exact (nodup_cons.mp hdistinct).1 hp
  have hown : t.vfs.Owns n file.data ∨ file.data = 0 := by
    by_cases hbuf : file.data = 0
    · exact Or.inr hbuf
    · refine Or.inl ?_
      rw [Owns, hold, if_neg hbuf]
      simp
  refine ⟨h.rewrite hn hroot hcwd hfile (fun m => ?_) (fun m hm => ?_) (fun p hp hnot => ?_)
    (fun p hp => ?_) ?_ hnodup ?_, hstrays, hfile⟩
  · rw [links_setRecord, hnode]
  · rw [frees_setRecord_of_ne s1 hm]
    exact frees_congr (by rw [hnode])
  · refine (hmem p).mpr ⟨Or.inr hp, ?_⟩
    rintro rfl
    rcases hown with hown | hzero
    · exact hnot hown
    · exact h.shape.null (hzero ▸ hp)
  · rw [Owns, hnew, mem_cons] at hp
    rcases hp with hp | hp
    · cases hp
      refine ⟨(hmem _).mpr ⟨Or.inl rfl, fun heq => ?_⟩, Or.inr hfresh⟩
      rcases hown with hown | hzero
      · exact hfresh (heq ▸ h.shape.live n hn _ hown)
      · exact hnull (heq.trans hzero)
    · obtain ⟨howns, hlive, hne⟩ := hstay p hp
      exact ⟨(hmem p).mpr ⟨Or.inr hlive, hne⟩, Or.inl howns⟩
  · rw [hnew]
    exact nodup_cons.mpr ⟨fun hq => hfresh (hstay _ hq).2.1, (nodup_append.mp hdistinct).2.1⟩
  · intro hzero
    rcases ((hmem 0).mp hzero).1 with heq | hlive
    · exact hnull heq.symm
    · exact h.shape.null hlive

end

lemma Held.memfsWriteAt (h : Held t kids) (hn : t.vfs.InTree kids n) (A : Allocator) (offset len : ℕ) :
    Held ⟨(MyOs.memfsWriteAt A t.vfs n offset len).2, t.opened⟩ kids ∧
      (MyOs.memfsWriteAt A t.vfs n offset len).2.strays = t.vfs.strays ∧
      (MyOs.memfsWriteAt A t.vfs n offset len).2.file = t.vfs.file := by
  rw [MyOs.memfsWriteAt]
  by_cases htype : (t.vfs.node n).type ≠ .file
  · rw [if_pos htype]
    exact ⟨h, rfl, rfl⟩
  rw [if_neg htype]
  cases hdata : (t.vfs.node n).data with
  | null => exact ⟨h, rfl, rfl⟩
  | tarfs addr file => exact ⟨h, rfl, rfl⟩
  | memfs addr file =>
    dsimp only
    generalize (if (offset + len) % 2 ^ 64 > file.size then (offset + len) % 2 ^ 64 else file.size) = size
    by_cases hroom : (offset + len) % 2 ^ 64 > file.cap
    · rw [if_pos hroom]
      by_cases hnull : (t.vfs.kmalloc A).1 = 0
      · rw [if_pos hnull]
        exact ⟨h.grown (h.shape.kmalloc A) (Grown.kmalloc A t.vfs kids), rfl, rfl⟩
      · rw [if_neg hnull]
        exact h.newBuffer hn (not_not.mp htype) hdata hnull rfl rfl
    · rw [if_neg hroom]
      exact ⟨h.setRecord hn (not_not.mp htype) hdata rfl, rfl, rfl⟩

lemma Held.setFile (h : Held t kids) (hf : f ∈ t.opened) {v : VfsFile}
    (hv : v.node = (t.vfs.file f).node) :
    Held ⟨{ t.vfs with file := Function.update t.vfs.file f v }, t.opened⟩ kids where
  shape := h.shape.frame ⟨rfl, rfl, fun _ _ => rfl⟩ h.shape.live h.shape.null
  blocks := ⟨h.blocks.nodup, h.blocks.distinct⟩
  nodup := h.nodup
  live := h.live
  unowned := h.unowned
  node g hg := by
    by_cases hgf : g = f
    · subst hgf
      simp only [update_self, hv]
      exact h.node g hg
    · simp only [update_of_ne hgf]
      exact h.node g hg

lemma Held.write (h : Held t kids) (A : Allocator) (hf : f ∈ t.opened) (len : ℕ) (device : Option ℕ) :
    Held (t.step A (.write f len device)) kids ∧
      (t.step A (.write f len device)).vfs.strays = t.vfs.strays := by
  rw [step, vfsWrite]
  dsimp only
  have hnode := h.node f hf
  rw [if_neg (h.shape.ne_zero hnode)]
  generalize hr : (match (t.vfs.node (t.vfs.file f).node).ops with
    | .memfsFile => MyOs.memfsWriteAt A t.vfs (t.vfs.file f).node (t.vfs.file f).offset len
    | .devDisk => (device, t.vfs)
    | _ => (none, t.vfs)) = r
  have hheld : Held ⟨r.2, t.opened⟩ kids ∧ r.2.strays = t.vfs.strays ∧ r.2.file = t.vfs.file := by
    subst hr
    split
    · exact h.memfsWriteAt hnode A _ len
    · exact ⟨h, rfl, rfl⟩
    · exact ⟨h, rfl, rfl⟩
  obtain ⟨hheld, hstrays, hfile⟩ := hheld
  cases hres : r.1 with
  | none => exact ⟨hheld, hstrays⟩
  | some m =>
    refine ⟨hheld.setFile hf ?_, hstrays⟩
    rw [hfile]

/-! ## Every run -/

/-- **One event.** -/
lemma Held.step (h : Held t kids) (A : Allocator) (hlegal : t.Legal op) (hsound : t.Sound) :
    ((t.step A op).Sound ↔ t.Spares op) ∧ (t.Spares op → ∃ kids', Held (t.step A op) kids') := by
  -- all but unlinking keep everything
  have hkeep : (∃ kids', Held (t.step A op) kids') ∧ (t.step A op).vfs.strays = t.vfs.strays →
      t.Spares op →
      ((t.step A op).Sound ↔ t.Spares op) ∧ (t.Spares op → ∃ kids', Held (t.step A op) kids') := by
    rintro ⟨⟨kids', hheld⟩, hstrays⟩ hspares
    exact ⟨iff_of_true (hheld.sound (hstrays.trans hsound.1)) hspares, fun _ => ⟨kids', hheld⟩⟩
  cases op with
  | populate archive =>
    exact hkeep (h.extends (h.shape.populate A fun _ _ _ _ _ _ => trivial)) trivial
  | write file len device =>
    obtain ⟨hheld, hstrays⟩ := h.write A hlegal.1 len device
    exact hkeep ⟨⟨kids, hheld⟩, hstrays⟩ trivial
  | close file =>
    obtain ⟨hheld, hstrays⟩ := h.close A hlegal
    exact hkeep ⟨⟨kids, hheld⟩, hstrays⟩ trivial
  | call op =>
    cases op with
    | openFile path flags => exact hkeep (h.openFile A path flags) trivial
    | unlink path => exact h.unlink A path hsound
    | mkdir path => exact hkeep (h.extends (h.shape.make (fun _ _ => trivial) .dir A path)) trivial
    | create path => exact hkeep (h.extends (h.shape.make (fun _ _ => trivial) .file A path)) trivial
    | devfsInit => exact hkeep (h.extends (h.shape.devfsInit (fun _ _ => trivial) A)) trivial

/-- The tree `vfs_init` starts with, and no open file. -/
def init (A : Allocator) : OpenFs := ⟨vfsInit A, []⟩

lemma held_init (hroot : (vfsInit A).root ≠ 0) : Held (init A) (fun _ => []) ∧ (init A).Sound := by
  have hnull : (vfsCreateNode A vfsEmpty [] .dir .memfsDir .null).1 ≠ 0 := hroot
  obtain ⟨copy, hfrees, hlive, hstrays, hne, -, -⟩ := Shape.createNode_blocks rfl hnull
  have hheld : Held (init A) fun _ => [] := by
    refine ⟨Shape.init _ hroot, ⟨?_, ?_⟩, nodup_nil, ?_, ?_, ?_⟩
    · show (vfsCreateNode A vfsEmpty [] .dir .memfsDir .null).2.live.Nodup
      rw [hlive, show vfsEmpty.live = [] from rfl]
      simp [hne]
    · rintro n (rfl | ⟨d, hd⟩)
      · show ((vfsCreateNode A vfsEmpty [] .dir .memfsDir .null).2.frees
          (vfsCreateNode A vfsEmpty [] .dir .memfsDir .null).1).Nodup
        rw [hfrees]
        simp [hne]
      · cases hd
    all_goals exact fun f hf => absurd hf not_mem_nil
  exact ⟨hheld, hheld.sound hstrays⟩

end OpenFs

/-- **Who frees what, in every run.**  Only blocks in use are freed and no open file refers to a freed node
exactly if no file of the archive and no open file is unlinked. -/
theorem blocks_sound_iff (A : Allocator) (hroot : (vfsInit A).root ≠ 0) (ops : List FsOp)
    (hlegal : Admissible OpenFs.Legal (OpenFs.step A) (.init A) ops) :
    (∀ pre, pre <+: ops → (run (OpenFs.step A) (.init A) pre).Sound) ↔
      Admissible OpenFs.Spares (OpenFs.step A) (.init A) ops := by
  obtain ⟨hheld, hsound⟩ := OpenFs.held_init hroot
  refine forall_prefix_iff_admissible_of_step (I := OpenFs.Sound) (J := fun t => ∃ kids, t.Held kids) ?_
    ⟨_, hheld⟩ hsound hlegal
  rintro t op ⟨kids, hheld⟩ hop hsound
  exact hheld.step A hop hsound

/-- A file is made, written to, closed and removed. -/
theorem blocks_sound_iff_closed :
    let ops : List FsOp := [.call (.create (ascii "/a")), .call (.openFile (ascii "/a") 2),
      .write 6 10 none, .close 6, .call (.unlink (ascii "/a"))]
    (vfsInit bumpAllocator).root ≠ 0 ∧ (run (OpenFs.step bumpAllocator) (.init bumpAllocator) ops).Sound := by
  intro ops
  have hroot : (vfsInit bumpAllocator).root ≠ 0 := by decide
  have hlegal : Admissible OpenFs.Legal (OpenFs.step bumpAllocator) (.init bumpAllocator) ops := by
    refine ⟨trivial, trivial, ⟨?_, ?_⟩, ?_, trivial, trivial⟩
    · decide +kernel
    · decide +kernel
    · show 6 ∈ _
      decide +kernel
  refine ⟨hroot, (blocks_sound_iff bumpAllocator hroot ops hlegal).mpr ?_ ops (prefix_refl _)⟩
  let before := run (OpenFs.step bumpAllocator) (.init bumpAllocator) (ops.take 4)
  have htarget : unlinked before.vfs (ascii "/a") = some 4 := by decide +kernel
  have hfrees : before.vfs.frees 4 = [.heap 7, .heap 3, .heap 5, .heap 4] := by decide +kernel
  have hopened : before.opened = [] := by decide +kernel
  refine ⟨trivial, trivial, trivial, trivial, fun n hn => ?_, trivial⟩
  obtain rfl : 4 = n := Option.some.inj (htarget.symm.trans hn)
  refine ⟨archive_not_mem_frees.mp fun off hoff => ?_, fun f hf => ?_⟩
  · have hmem : KPtr.archive off ∈ before.vfs.frees 4 := hoff
    rw [hfrees] at hmem
    simp at hmem
  · have hmem : f ∈ before.opened := hf
    rw [hopened] at hmem
    cases hmem

/-- (a) A file of the archive is removed: the address of its content is freed.  (b) An open file is removed:
its node is freed, and the file still refers to it. -/
theorem unlink_frees_wrongly :
    (run (OpenFs.step bumpAllocator) (.init bumpAllocator)
        [.populate (tarHeader (ascii "a") 48), .call (.unlink (ascii "/a"))]).vfs.strays =
      [.archive 512] ∧
    let t := run (OpenFs.step bumpAllocator) (.init bumpAllocator)
      [.call (.create (ascii "/a")), .call (.openFile (ascii "/a") 2),
        .call (.unlink (ascii "/a"))]
    t.opened = [6] ∧ (t.vfs.file 6).node = 4 ∧ 4 ∉ t.vfs.live := by
  decide +kernel

end MyOs
