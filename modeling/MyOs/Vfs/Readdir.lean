import MyOs.Lib.Cursors
import MyOs.Vfs.Opening

/-!
# Listing a directory that changes

`SYS_readdir` (`src/syscall.c`) delivers one child a call.  Where it is in the list of children is
remembered as an index, the offset of the open file, while new children are put first in the list and
removed ones leave it.  So it is a cursor in the sense of `MyOs.Lib.Cursors`, with the names of the
children as its items.

A child that is there all the time is to be delivered exactly once.  It is, as long as no change pushes
such a child over the offset (`readdir_complete_iff`): no child may be made while the child right before
the offset has been there from the beginning, and no child before the offset may be removed while the
one at the offset has.

The offset does not wrap: there are fewer than `2^64` children.
-/

namespace MyOs

open Lib Vfs Function
open List hiding Chain Cursor

variable {ok : List UInt8 → Prop} {A : Allocator} {s s' : Vfs} {kids : ℕ → List ℕ} {c d file : ℕ}
  {name : List UInt8}
variable {type : NodeType} {r : Option ℕ × Vfs}

/-! ## `SYS_readdir` -/

/-- The loop that looks for the child at an index. -/
def readdirWalk (s : Vfs) : (idx child : ℕ) → ℕ
  | 0, child => child
  | idx + 1, child => if child = 0 then 0 else readdirWalk s idx (s.nextOf child)

/-- The assignment to the offset of the open file. -/
def Vfs.advance (s : Vfs) (file : ℕ) : Vfs :=
  { s with
    file := Function.update s.file file { s.file file with offset := (s.file file).offset + 1 } }

/-- `SYS_readdir` on the open file at the address `file`: the result, `none` being -1, the text in the buffer,
and the state after the call. -/
def sysReaddir (s : Vfs) (file buf len : ℕ) : Option ℕ × List UInt8 × Vfs :=
  let node := (s.file file).node
  if file = 0 ∨ node = 0 ∨ (s.node node).type ≠ .dir ∨ buf = 0 ∨ len = 0 then (none, [], s)
  else
    let child := readdirWalk s (s.file file).offset (s.node node).children
    if child = 0 then (some 0, [], s)
    else
      let name := (s.node child).name
      let nameLen := if name.length ≥ len then len - 1 else name.length
      (some nameLen, name.take nameLen, s.advance file)

/-- The name of the child at an index. -/
def nameAt (s : Vfs) (d i : ℕ) : Option (List UInt8) :=
  let child := readdirWalk s i (s.node d).children
  if child = 0 then none else some (s.node child).name

/-- Listing a directory through an open file: what was delivered, the names of the children that have been
there from the beginning, and whether a call has returned 0. -/
structure Enumeration where
  vfs : Vfs
  returned : List (List UInt8)
  stay : List (List UInt8)
  ended : Bool

/-- A call of `SYS_readdir`, or a change of the directory. -/
inductive DirOp
  | readdir (buf len : ℕ)
  | create (name : List UInt8) (type : NodeType)
  | unlink (name : List UInt8)

/-- The buffer is large enough, and names are as the calls with paths make them. -/
def DirOp.InRange : DirOp → Prop
  | .readdir buf len => buf ≠ 0 ∧ vfsNameMax < len
  | .create name _ => name ≠ [] ∧ name.length ≤ vfsNameMax
  | .unlink _ => True

namespace Enumeration

/-- The directory that the open file is for. -/
def dir (file : ℕ) (t : Enumeration) : ℕ := (t.vfs.file file).node

/-- The offset of the open file. -/
def offset (file : ℕ) (t : Enumeration) : ℕ := (t.vfs.file file).offset

/-- A call of `SYS_readdir`. -/
def readdir (file : ℕ) (t : Enumeration) (buf len : ℕ) : Enumeration :=
  match sysReaddir t.vfs file buf len with
  | (none, _, s) => { t with vfs := s }
  | (some 0, _, s) => { t with vfs := s, ended := true }
  | (some (_ + 1), text, s) => { t with vfs := s, returned := t.returned ++ [text] }

/-- A removal; a child that is gone was not there all the time. -/
def unlink (file : ℕ) (t : Enumeration) (name : List UInt8) : Enumeration :=
  match memfsUnlink t.vfs (t.dir file) name with
  | none => t
  | some s => { t with vfs := s, stay := t.stay.erase name }

/-- One call.  The listing is over when `SYS_readdir` returns 0. -/
def step (A : Allocator) (file : ℕ) (t : Enumeration) (op : DirOp) : Enumeration :=
  if t.ended then t
  else
    match op with
    | .readdir buf len => t.readdir file buf len
    | .create name type => { t with vfs := (memfsCreate A t.vfs (t.dir file) name type).2 }
    | .unlink name => t.unlink file name

/-- If nothing more changes, the listing ends, and every child that was there all the time was delivered
once. -/
def Complete (A : Allocator) (file : ℕ) (t : Enumeration) : Prop :=
  ∀ buf len, buf ≠ 0 → vfsNameMax < len → ∃ turns,
    let t' := run (step A file) t (List.replicate turns (.readdir buf len))
    t'.ended = true ∧ ∀ name ∈ t'.stay, t'.returned.count name = 1

/-- No child that was there all the time is pushed over the offset. -/
def Undisturbed (A : Allocator) (file : ℕ) (t : Enumeration) : DirOp → Prop
  | .readdir _ _ => True
  | .create name type =>
    t.ended = false → (memfsCreate A t.vfs (t.dir file) name type).1.isSome → t.offset file ≠ 0 →
      ∀ m ∈ t.stay, nameAt t.vfs (t.dir file) (t.offset file - 1) ≠ some m
  | .unlink name =>
    t.ended = false → (memfsUnlink t.vfs (t.dir file) name).isSome →
      (∃ i < t.offset file, nameAt t.vfs (t.dir file) i = some name) →
        ∀ m ∈ t.stay, nameAt t.vfs (t.dir file) (t.offset file) ≠ some m

end Enumeration

/-! ## The names of the children -/

/-- The names of the children of a directory. -/
def childNames (s : Vfs) (kids : ℕ → List ℕ) (d : ℕ) : List (List UInt8) :=
  (kids d).map fun c => (s.node c).name

lemma readdirWalk_eq {p : ℕ} {xs : List ℕ} (h : Chain s.nextOf p xs) (i : ℕ) :
    readdirWalk s i p = (xs[i]?).getD 0 := by
  induction i generalizing p xs with
  | zero =>
    cases xs with
    | nil => exact h
    | cons x xs => exact h.1
  | succ i ih =>
    rw [readdirWalk]
    cases xs with
    | nil =>
      have hnull : p = 0 := h
      rw [if_pos hnull]
      rfl
    | cons x xs =>
      obtain ⟨rfl, hne, hrest⟩ := h
      rw [if_neg hne, ih hrest, getElem?_cons_succ]

lemma Vfs.Shape.nameAt_eq (hs : Shape ok s kids) (hd : s.InTree kids d) (i : ℕ) :
    nameAt s d i = (childNames s kids d)[i]? := by
  rw [nameAt, childNames, getElem?_map, readdirWalk_eq (hs.chain d hd)]
  cases hi : (kids d)[i]? with
  | none => rfl
  | some c =>
    have hc : c ≠ 0 := hs.ne_zero (InTree.of_mem (mem_of_getElem? hi))
    exact if_neg hc

lemma map_erase_of_nodup {f : ℕ → List UInt8} {l : List ℕ} (h : (l.map f).Nodup) (hc : c ∈ l) :
    (l.erase c).map f = (l.map f).erase (f c) := by
  induction l with
  | nil => cases hc
  | cons x l ih =>
    rw [map_cons, nodup_cons] at h
    rcases mem_cons.mp hc with rfl | hmem
    · rw [erase_cons_head, map_cons, erase_cons_head]
    · have hne : f x ≠ f c := fun heq => h.1 (heq ▸ mem_map_of_mem hmem)
      have hxc : x ≠ c := fun heq => hne (congrArg f heq)
      rw [erase_cons_tail (by simpa using hxc), map_cons, map_cons,
        erase_cons_tail (by simpa using hne), ih h.2 hmem]

namespace Vfs.Shape

lemma foldl_kfree_eq (ptrs : List KPtr) (s : Vfs) :
    (ptrs.foldl Vfs.kfree s).node = s.node ∧ (ptrs.foldl Vfs.kfree s).file = s.file ∧
      (ptrs.foldl Vfs.kfree s).root = s.root := by
  induction ptrs generalizing s with
  | nil => exact ⟨rfl, rfl, rfl⟩
  | cons ptr ptrs ih =>
    obtain ⟨hnode, hfile, hroot, -⟩ := kfree_eq s ptr
    obtain ⟨hnode', hfile', hroot'⟩ := ih (s.kfree ptr)
    exact ⟨hnode'.trans hnode, hfile'.trans hfile, hroot'.trans hroot⟩

lemma unlink_erase (hs : Shape ok s kids) (hd : s.InTree kids d) (h : memfsUnlink s d name = some s') :
    ∃ c ∈ kids d, (s.node c).name = name ∧ kids c = [] ∧
      Shape ok s' (update kids d ((kids d).erase c)) ∧ s'.file = s.file ∧ s'.root = s.root ∧
      ∀ n, identity (s'.node n) = identity (s.node n) := by
  obtain ⟨c, place, hc, hname, hnil, hplace, rfl⟩ := hs.unlink_eq hd h
  obtain ⟨hs', hloose⟩ := hs.detach hc hnil hplace
  obtain ⟨hnode, hfile, hroot⟩ := foldl_kfree_eq ((s.detach d c place).frees c) (s.detach d c place)
  refine ⟨c, hc, hname, hnil, hs'.freeNode hloose, hfile.trans ?_, hroot.trans ?_, fun n => ?_⟩
  · cases place <;> rfl
  · cases place <;> rfl
  · rw [memfsFreeNode, hnode]
    exact identity_detach s d c n place

end Vfs.Shape

/-! ## The open file is a cursor -/

section Readdir

variable {buf len : ℕ} (hfile : file ≠ 0) (hnode : (s.file file).node ≠ 0)
  (hdir : (s.node (s.file file).node).type = .dir) (hbuf : buf ≠ 0)

include hfile hnode hdir hbuf

lemma sysReaddir_eq_end (hlen : len ≠ 0)
    (h : nameAt s (s.file file).node (s.file file).offset = none) :
    sysReaddir s file buf len = (some 0, [], s) := by
  have hchild : readdirWalk s (s.file file).offset (s.node (s.file file).node).children = 0 := by
    by_contra hne
    rw [nameAt] at h
    simp [hne] at h
  rw [sysReaddir, if_neg (by simp [hfile, hnode, hdir, hbuf, hlen])]
  exact if_pos hchild

lemma sysReaddir_eq_next (h : nameAt s (s.file file).node (s.file file).offset = some name)
    (hlen : name.length < len) :
    sysReaddir s file buf len = (some name.length, name, s.advance file) := by
  have hlen' : len ≠ 0 := by omega
  rw [nameAt] at h
  rw [sysReaddir, if_neg (by simp [hfile, hnode, hdir, hbuf, hlen'])]
  dsimp only at h ⊢
  split_ifs at h ⊢ with hchild hcut
  · rw [Option.some.inj h] at hcut
    omega
  · rw [Option.some.inj h, take_length]

end Readdir

namespace Enumeration

variable {t : Enumeration} {buf len : ℕ}

/-- The names of the children, and how far the listing is. -/
def cursor (file : ℕ) (kids : ℕ → List ℕ) (t : Enumeration) : Cursor (List UInt8) :=
  ⟨childNames t.vfs kids (t.dir file), t.offset file, t.returned, t.stay⟩

section Step

lemma step_of_ended (h : t.ended = true) (op : DirOp) : t.step A file op = t := if_pos h

variable (h : t.ended = false)

include h

lemma step_readdir : t.step A file (.readdir buf len) = t.readdir file buf len := by
  rw [step, h]
  rfl

lemma step_create : t.step A file (.create name type) =
    { t with vfs := (memfsCreate A t.vfs (t.dir file) name type).2 } := by
  exact if_neg (by simp [h])

lemma step_unlink_none (hr : memfsUnlink t.vfs (t.dir file) name = none) :
    t.step A file (.unlink name) = t := by
  have hunlink : t.unlink file name = t := by
    rw [unlink, hr]
  exact (if_neg (by simp [h])).trans hunlink

lemma step_unlink_some (hr : memfsUnlink t.vfs (t.dir file) name = some s') :
    t.step A file (.unlink name) = { t with vfs := s', stay := t.stay.erase name } := by
  have hunlink : t.unlink file name = { t with vfs := s', stay := t.stay.erase name } := by
    rw [unlink, hr]
  exact (if_neg (by simp [h])).trans hunlink

end Step

/-- The open file is for a directory of the tree, and its children have names that fit. -/
structure Listing (file : ℕ) (kids : ℕ → List ℕ) (t : Enumeration) : Prop where
  shape : Shape (fun _ => True) t.vfs kids
  opened : file ≠ 0
  inTree : t.vfs.InTree kids (t.dir file)
  isDir : (t.vfs.node (t.dir file)).type = .dir
  names : ∀ name ∈ (t.cursor file kids).items, name ≠ [] ∧ name.length ≤ vfsNameMax
  proper : (t.cursor file kids).Proper
  ended : t.ended = true → (t.cursor file kids).items.length ≤ (t.cursor file kids).index

namespace Listing

section

variable (h : Listing file kids t)
include h

lemma readdir_end (hbuf : buf ≠ 0) (hlen : vfsNameMax < len)
    (hend : (t.cursor file kids).items.length ≤ (t.cursor file kids).index) :
    t.readdir file buf len = { t with ended := true } := by
  have hname : nameAt t.vfs (t.dir file) (t.offset file) = none := by
    rw [h.shape.nameAt_eq h.inTree]
    exact getElem?_eq_none hend
  rw [Enumeration.readdir,
    sysReaddir_eq_end h.opened (h.shape.ne_zero h.inTree) h.isDir hbuf (by omega) hname]

lemma readdir_next (hbuf : buf ≠ 0) (hlen : vfsNameMax < len)
    (hi : (t.cursor file kids).index < (t.cursor file kids).items.length) : t.readdir file buf len =
      { t with
        vfs := t.vfs.advance file
        returned := t.returned ++ [(t.cursor file kids).items[(t.cursor file kids).index]] } := by
  obtain ⟨hne, hshort⟩ := h.names _ (getElem_mem hi)
  have hname : nameAt t.vfs (t.dir file) (t.offset file) =
      some (t.cursor file kids).items[(t.cursor file kids).index] := by
    rw [h.shape.nameAt_eq h.inTree]
    exact getElem?_eq_getElem hi
  rw [Enumeration.readdir,
    sysReaddir_eq_next h.opened (h.shape.ne_zero h.inTree) h.isDir hbuf hname (by omega)]
  generalize (t.cursor file kids).items[(t.cursor file kids).index] = name at hne ⊢
  cases name with
  | nil => exact absurd rfl hne
  | cons b name => rfl

lemma readdir (hended : t.ended = false) (hbuf : buf ≠ 0) (hlen : vfsNameMax < len) :
    Listing file kids (t.readdir file buf len) ∧
      (t.readdir file buf len).cursor file kids = (t.cursor file kids).step .next ∧
      ((t.readdir file buf len).ended = true ↔
        (t.cursor file kids).items.length ≤ (t.cursor file kids).index) := by
  rcases Nat.lt_or_ge (t.cursor file kids).index (t.cursor file kids).items.length with hi | hend
  · have hnode : ((t.vfs.advance file).file file).node = t.dir file := by
      simp only [Vfs.advance, update_self, dir]
    have hoffset : ((t.vfs.advance file).file file).offset = t.offset file + 1 := by
      simp only [Vfs.advance, update_self, offset]
    have hcursor : (t.readdir file buf len).cursor file kids = (t.cursor file kids).step .next := by
      rw [h.readdir_next hbuf hlen hi, Cursor.step, dif_pos hi, cursor, dir, offset, hnode, hoffset]
      rfl
    refine ⟨?_, hcursor, ?_⟩
    · have hproper : ((t.readdir file buf len).cursor file kids).Proper := by
        rw [hcursor]
        exact h.proper.step trivial
      have hnames : ∀ name ∈ ((t.readdir file buf len).cursor file kids).items,
          name ≠ [] ∧ name.length ≤ vfsNameMax := by
        rw [hcursor, Cursor.step, dif_pos hi]
        exact h.names
      rw [h.readdir_next hbuf hlen hi] at hproper hnames ⊢
      refine ⟨h.shape.frame ⟨rfl, rfl, fun _ _ => rfl⟩ h.shape.live h.shape.null, h.opened, ?_, ?_,
        hnames, hproper, fun hcontra => ?_⟩
      · rw [dir, hnode]
        exact h.inTree
      · rw [dir, hnode]
        exact h.isDir
      · exact absurd hended (by simp [show t.ended = true from hcontra])
    · rw [h.readdir_next hbuf hlen hi]
      exact iff_of_false (by simp [hended]) (not_le.mpr hi)
  · rw [h.readdir_end hbuf hlen hend]
    refine ⟨⟨h.shape, h.opened, h.inTree, h.isDir, h.names, h.proper, fun _ => hend⟩, ?_,
      iff_of_true rfl hend⟩
    rw [Cursor.step, dif_neg (not_lt.mpr hend)]
    rfl

lemma step_readdir (A : Allocator) (hbuf : buf ≠ 0) (hlen : vfsNameMax < len) :
    Listing file kids (t.step A file (.readdir buf len)) ∧
      (((t.step A file (.readdir buf len)).cursor file kids).Faithful ↔ (t.cursor file kids).Faithful) := by
  cases hended : t.ended with
  | true =>
    rw [step_of_ended hended]
    exact ⟨h, Iff.rfl⟩
  | false =>
    obtain ⟨h', hcursor, -⟩ := h.readdir hended hbuf hlen
    rw [Enumeration.step_readdir hended, hcursor]
    exact ⟨h', Cursor.faithful_next⟩

lemma run_readdir (A : Allocator) (hbuf : buf ≠ 0) (hlen : vfsNameMax < len) (turns : ℕ) :
    let t' := run (step A file) t (replicate turns (.readdir buf len))
    Listing file kids t' ∧ ((t'.cursor file kids).Faithful ↔ (t.cursor file kids).Faithful) := by
  induction turns generalizing t with
  | zero => exact ⟨h, Iff.rfl⟩
  | succ turns ih =>
    obtain ⟨h', hiff⟩ := h.step_readdir A hbuf hlen
    obtain ⟨hrest, hiff'⟩ := ih h'
    exact ⟨hrest, hiff'.trans hiff⟩

lemma exists_ended (A : Allocator) (hbuf : buf ≠ 0) (hlen : vfsNameMax < len) :
    ∃ turns, (run (step A file) t (replicate turns (.readdir buf len))).ended = true := by
  -- one child less is left after each turn
  generalize hleft : (t.cursor file kids).items.length - (t.cursor file kids).index = left
  induction left using Nat.strong_induction_on generalizing t with
  | _ left ih =>
    cases hended : t.ended with
    | true => exact ⟨0, hended⟩
    | false =>
      obtain ⟨h', hcursor, hend⟩ := h.readdir hended hbuf hlen
      have hstep : t.step A file (.readdir buf len) = t.readdir file buf len :=
        Enumeration.step_readdir hended
      rcases Nat.lt_or_ge (t.cursor file kids).index (t.cursor file kids).items.length with hi | hle
      · have hless : ((t.readdir file buf len).cursor file kids).items.length -
            ((t.readdir file buf len).cursor file kids).index < left := by
          rw [hcursor, Cursor.step, dif_pos hi]
          dsimp only
          omega
        obtain ⟨turns, hturns⟩ := ih _ hless h' rfl
        refine ⟨turns + 1, ?_⟩
        rw [replicate_succ, run_cons, hstep]
        exact hturns
      · refine ⟨1, ?_⟩
        rw [replicate_one, run_cons, hstep]
        exact hend.mpr hle

lemma faithful_of_ended (hended : t.ended = true) :
    (t.cursor file kids).Faithful ↔ ∀ name ∈ t.stay, t.returned.count name = 1 := by
  rw [Cursor.Faithful, drop_eq_nil_of_le (h.ended hended), append_nil]
  rfl

lemma complete_iff (A : Allocator) : t.Complete A file ↔ (t.cursor file kids).Faithful := by
  constructor
  · intro hcomplete
    obtain ⟨turns, hended, hcount⟩ := hcomplete 1 (vfsNameMax + 1) one_ne_zero (Nat.lt_succ_self _)
    obtain ⟨h', hiff⟩ := h.run_readdir A one_ne_zero (Nat.lt_succ_self vfsNameMax) turns
    exact hiff.mp ((h'.faithful_of_ended hended).mpr hcount)
  · intro hfaithful buf len hbuf hlen
    obtain ⟨turns, hended⟩ := h.exists_ended A hbuf hlen
    obtain ⟨h', hiff⟩ := h.run_readdir A hbuf hlen turns
    exact ⟨turns, hended, (h'.faithful_of_ended hended).mp (hiff.mpr hfaithful)⟩

end

/-! ## Changes of the directory -/

lemma cursor_eq {stay items : List (List UInt8)} (hfile : s'.file = t.vfs.file)
    (hnames : childNames s' kids (t.dir file) = items) :
    cursor file kids { t with vfs := s', stay := stay } = ⟨items, t.offset file, t.returned, stay⟩ := by
  rw [cursor, offset, dir, hfile]
  exact congrArg (fun l => Cursor.mk l (t.offset file) t.returned stay) hnames

section

variable (h : Listing file kids t)
include h

lemma change (hended : t.ended = false) {kids' : ℕ → List ℕ} {stay : List (List UInt8)}
    {op : CursorOp (List UInt8)} (hs : Shape (fun _ => True) s' kids') (hfile : s'.file = t.vfs.file)
    (hin : s'.InTree kids' (t.dir file)) (hdir : (s'.node (t.dir file)).type = .dir)
    (hfits : (t.cursor file kids).Fits op)
    (hnames : ∀ name ∈ ((t.cursor file kids).step op).items, name ≠ [] ∧ name.length ≤ vfsNameMax)
    (hcursor : cursor file kids' { t with vfs := s', stay := stay } = (t.cursor file kids).step op) :
    Listing file kids' { t with vfs := s', stay := stay } := by
  have hnode : dir file { t with vfs := s', stay := stay } = t.dir file := by
    rw [dir, hfile]
    rfl
  refine ⟨hs, h.opened, hnode ▸ hin, hnode ▸ hdir, ?_, ?_, fun hcontra => ?_⟩
  · rw [hcursor]
    exact hnames
  · rw [hcursor]
    exact h.proper.step hfits
  · exact absurd hcontra (by simp [hended])

lemma create (hended : t.ended = false) (hne : name ≠ []) (hlen : name.length ≤ vfsNameMax)
    (A : Allocator) (type : NodeType) (hr : memfsCreate A t.vfs (t.dir file) name type = r) :
    (r.1.isSome = false ∧ Listing file kids { t with vfs := r.2 } ∧
        cursor file kids { t with vfs := r.2 } = t.cursor file kids) ∨
      (r.1.isSome = true ∧ (t.cursor file kids).Fits (.insert name) ∧
        ∃ kids', Listing file kids' { t with vfs := r.2 } ∧
          cursor file kids' { t with vfs := r.2 } = (t.cursor file kids).step (.insert name)) := by
  have hfile : r.2.file = t.vfs.file := by
    obtain ⟨_, -, hgrown⟩ := h.shape.create (A := A) h.inTree trivial type
    rw [← hr]
    exact hgrown.file
  rcases hr ▸ h.shape.create_cases (A := A) h.inTree trivial type with
    ⟨hnone, hs, -, hsame⟩ | ⟨c, hc, hs, -, hnew, hroot, hname, hid⟩
  · have hnames : childNames r.2 kids (t.dir file) = childNames t.vfs kids (t.dir file) := by
      refine map_congr_left fun k hk => ?_
      rw [hsame.node k (InTree.of_mem hk)]
    have hcursor : cursor file kids { t with vfs := r.2 } = t.cursor file kids := cursor_eq hfile hnames
    refine Or.inl ⟨by rw [hnone]; rfl, ⟨hs, h.opened, ?_, ?_, ?_, ?_, fun hcontra => ?_⟩, hcursor⟩
    · rw [dir, hfile]
      exact hsame.inTree.mpr h.inTree
    · rw [dir, hfile]
      exact (congrArg VfsNode.type (hsame.node _ h.inTree)).trans h.isDir
    · rw [hcursor]
      exact h.names
    · rw [hcursor]
      exact h.proper
    · exact absurd hcontra (by simp [hended])
  · have hold : ∀ k ∈ kids (t.dir file), (r.2.node k).name = (t.vfs.node k).name :=
      fun k hk => congrArg (·.1) (hid k (InTree.of_mem hk))
    have hcursor : cursor file (update kids (t.dir file) (c :: kids (t.dir file)))
        { t with vfs := r.2 } = (t.cursor file kids).step (.insert name) := by
      have hnames : childNames r.2 (update kids (t.dir file) (c :: kids (t.dir file)))
          (t.dir file) = name :: childNames t.vfs kids (t.dir file) := by
        rw [childNames, update_self, map_cons, hname, map_congr_left hold]
        rfl
      exact cursor_eq hfile hnames
    have hfits : (t.cursor file kids).Fits (.insert name) := by
      intro hmem
      obtain ⟨k, hk, heq⟩ := mem_map.mp hmem
      exact hnew k hk heq
    refine Or.inr ⟨by rw [hc]; rfl, hfits, _, h.change hended hs hfile ?_ ?_ hfits ?_ hcursor, hcursor⟩
    · rw [InTree, hroot]
      exact h.inTree.imp_right (Exists.imp fun _ he => Shape.mem_update_cons.mpr (Or.inr he))
    · rw [← h.isDir]
      exact congrArg (·.2.2.1) (hid _ h.inTree)
    · intro m hm
      rcases mem_cons.mp hm with rfl | hm
      · exact ⟨hne, hlen⟩
      · exact h.names m hm

lemma unlink (hended : t.ended = false) (hr : memfsUnlink t.vfs (t.dir file) name = some s') :
    ∃ kids', Listing file kids' { t with vfs := s', stay := t.stay.erase name } ∧
      cursor file kids' { t with vfs := s', stay := t.stay.erase name } =
        (t.cursor file kids).step (.remove name) := by
  obtain ⟨c, hc, hname, hnil, hs, hfile, hroot, hid⟩ := h.shape.unlink_erase h.inTree hr
  have hcursor : cursor file (update kids (t.dir file) ((kids (t.dir file)).erase c))
      { t with vfs := s', stay := t.stay.erase name } = (t.cursor file kids).step (.remove name) := by
    have hnames : childNames s' (update kids (t.dir file) ((kids (t.dir file)).erase c))
        (t.dir file) = (childNames t.vfs kids (t.dir file)).erase name := by
      have hold : ∀ k ∈ (kids (t.dir file)).erase c, (s'.node k).name = (t.vfs.node k).name :=
        fun k _ => congrArg (·.1) (hid k)
      rw [childNames, update_self, map_congr_left hold, childNames, ← hname]
      exact map_erase_of_nodup (h.shape.names _) hc
    exact cursor_eq hfile hnames
  have hfits : (t.cursor file kids).Fits (.remove name) := trivial
  refine ⟨_, h.change hended hs hfile ?_ ?_ hfits ?_ hcursor, hcursor⟩
  · have hne : t.dir file ≠ c := by
      rintro heq
      rw [← heq] at hnil hc
      rw [hnil] at hc
      cases hc
    rw [InTree, hroot]
    refine h.inTree.imp_right (Exists.imp fun e he => ?_)
    exact (h.shape.mem_update_erase hc).mpr ⟨he, hne⟩
  · rw [← h.isDir]
    exact congrArg (·.2.2.1) (hid _)
  · exact fun m hm => h.names m (mem_of_mem_erase hm)

lemma harmless_insert_iff (name : List UInt8) :
    (t.cursor file kids).Harmless (.insert name) ↔ (t.offset file ≠ 0 →
      ∀ m ∈ t.stay, nameAt t.vfs (t.dir file) (t.offset file - 1) ≠ some m) := by
  rw [Cursor.Harmless, Cursor.last, h.shape.nameAt_eq h.inTree]
  by_cases hzero : t.offset file = 0
  · have hindex : (t.cursor file kids).index = 0 := hzero
    rw [if_pos hindex]
    exact iff_of_true (fun m _ => (Option.some_ne_none m).symm) fun hne => absurd hzero hne
  · have hindex : ¬ (t.cursor file kids).index = 0 := hzero
    rw [if_neg hindex]
    exact ⟨fun hstay _ => hstay, fun hstay => hstay hzero⟩

lemma harmless_remove_iff (name : List UInt8) :
    (t.cursor file kids).Harmless (.remove name) ↔
      ((∃ i < t.offset file, nameAt t.vfs (t.dir file) i = some name) →
        ∀ m ∈ t.stay, nameAt t.vfs (t.dir file) (t.offset file) ≠ some m) := by
  have hpassed : (∃ i < t.offset file, nameAt t.vfs (t.dir file) i = some name) ↔
      name ∈ (t.cursor file kids).items.take (t.offset file) := by
    rw [mem_iff_getElem?]
    constructor
    · rintro ⟨i, hi, hname⟩
      rw [h.shape.nameAt_eq h.inTree] at hname
      exact ⟨i, (getElem?_take_of_lt hi).trans hname⟩
    · rintro ⟨i, hname⟩
      rw [getElem?_take] at hname
      split_ifs at hname with hi
      refine ⟨i, hi, ?_⟩
      rw [h.shape.nameAt_eq h.inTree]
      exact hname
  rw [hpassed, h.shape.nameAt_eq h.inTree]
  rfl

lemma step (A : Allocator) {op : DirOp} (hop : op.InRange) (hfaithful : (t.cursor file kids).Faithful) :
    ∃ kids', Listing file kids' (t.step A file op) ∧
      (((t.step A file op).cursor file kids').Faithful ↔ t.Undisturbed A file op) := by
  cases hended : t.ended with
  | true =>
    rw [step_of_ended hended]
    refine ⟨kids, h, iff_of_true hfaithful ?_⟩
    cases op with
    | readdir buf len => trivial
    | create name type | unlink name => exact fun hcontra => absurd hended (by simp [hcontra])
  | false =>
    cases op with
    | readdir buf len =>
      obtain ⟨h', hiff⟩ := h.step_readdir A hop.1 hop.2
      exact ⟨kids, h', iff_of_true (hiff.mpr hfaithful) trivial⟩
    | create name type =>
      rw [step_create hended, Undisturbed, forall_prop_of_true hended]
      generalize hr : memfsCreate A t.vfs (t.dir file) name type = r
      rcases h.create hended hop.1 hop.2 A type hr with
        ⟨hnone, h', hcursor⟩ | ⟨hsome, hfits, kids', h', hcursor⟩
      · refine ⟨kids, h', iff_of_true ?_ fun hcontra => absurd hnone (by simp [hcontra])⟩
        rwa [hcursor]
      · refine ⟨kids', h', ?_⟩
        rw [forall_prop_of_true hsome, ← h.harmless_insert_iff name, hcursor]
        exact Cursor.faithful_step_iff h.proper hfits hfaithful
    | unlink name =>
      rw [Undisturbed, forall_prop_of_true hended]
      cases hr : memfsUnlink t.vfs (t.dir file) name with
      | none =>
        rw [step_unlink_none hended hr]
        exact ⟨kids, h, iff_of_true hfaithful nofun⟩
      | some s' =>
        obtain ⟨kids', h', hcursor⟩ := h.unlink hended hr
        have hfits : (t.cursor file kids).Fits (.remove name) := trivial
        rw [step_unlink_some hended hr, forall_prop_of_true Option.isSome_some]
        refine ⟨kids', h', ?_⟩
        rw [hcursor, ← h.harmless_remove_iff name]
        exact Cursor.faithful_step_iff h.proper hfits hfaithful

end

end Listing

/-- The listing begins. -/
def start (s : Vfs) (kids : ℕ → List ℕ) (file : ℕ) : Enumeration :=
  ⟨s, [], childNames s kids (s.file file).node, false⟩

end Enumeration

open Enumeration

/-- **Listing a directory.**  In every interleaving of calls of `SYS_readdir` with creations and removals,
every child that was there all the time is delivered exactly once, whenever the changes stop, exactly if
no change pushes such a child over the offset. -/
theorem readdir_complete_iff (hs : Shape ok s kids) (hfile : file ≠ 0)
    (hd : s.InTree kids (s.file file).node) (hdir : (s.node (s.file file).node).type = .dir)
    (hstart : (s.file file).offset = 0)
    (hnames : ∀ name ∈ childNames s kids (s.file file).node, name ≠ [] ∧ name.length ≤ vfsNameMax)
    (A : Allocator) {ops : List DirOp} (hops : ∀ op ∈ ops, op.InRange) :
    (∀ pre, pre <+: ops → (run (step A file) (start s kids file) pre).Complete A file) ↔
      Admissible (Undisturbed A file) (step A file) (start s kids file) ops := by
  have hlisting : Listing file kids (start s kids file) := by
    refine ⟨hs.anyName, hfile, hd, hdir, hnames, ⟨?_, ?_, fun _ h => h⟩, nofun⟩
    · exact hs.names _
    · exact hs.names _
  have hfaithful : ((start s kids file).cursor file kids).Faithful := by
    intro name hname
    have hindex : ((start s kids file).cursor file kids).index = 0 := hstart
    rw [hindex, drop_zero]
    exact count_eq_one_of_mem (hs.names _) hname
  have hstep : ∀ (t : Enumeration) (op : DirOp), (∃ kids', Listing file kids' t) → op.InRange →
      t.Complete A file → (((t.step A file op).Complete A file ↔ t.Undisturbed A file op) ∧
        (t.Undisturbed A file op → ∃ kids', Listing file kids' (t.step A file op))) := by
    rintro t op ⟨kids', h⟩ hop hcomplete
    obtain ⟨kids'', h', hiff⟩ := h.step A hop ((h.complete_iff A).mp hcomplete)
    exact ⟨(h'.complete_iff A).trans hiff, fun _ => ⟨kids'', h'⟩⟩
  exact forall_prefix_iff_admissible_of_step hstep ⟨kids, hlisting⟩
    ((hlisting.complete_iff A).mpr hfaithful) (admissible_of_forall hops)

/-- `/rw` with the file `a`, opened to be listed. -/
def rwOpened : Vfs :=
  run (Vfs.step bumpAllocator) (tarfsPopulateVfs bumpAllocator [] (vfsInit bumpAllocator))
    [.mkdir (ascii "/rw"), .openFile (ascii "/rw/a") vfsOCreat,
      .openFile (ascii "/rw") 0]

lemma rwOpened_listed : ∃ kids, Shape PathName rwOpened kids ∧ rwOpened.InTree kids 3 ∧
    childNames rwOpened kids 3 = [ascii "a"] := by
  obtain ⟨kids, hs⟩ : HasShape PathName rwOpened :=
    hasShape_run (by decide) (fun _ h => h) (fun _ h => absurd h not_mem_nil) _
  have hresolve : vfsResolve rwOpened (ascii "/rw") rwOpened.cwd = 3 := by decide +kernel
  have hin : rwOpened.InTree kids 3 := by
    have := hs.resolve_inTree (by rw [hresolve]; decide)
    rwa [hresolve] at this
  have hfirst : nameAt rwOpened 3 0 = some (ascii "a") := by decide +kernel
  have hsecond : nameAt rwOpened 3 1 = none := by decide +kernel
  rw [hs.nameAt_eq hin] at hfirst hsecond
  refine ⟨kids, hs, hin, ?_⟩
  generalize childNames rwOpened kids 3 = names at hfirst hsecond ⊢
  cases names with
  | nil => cases hfirst
  | cons name names =>
    cases names with
    | nil => rw [Option.some.inj hfirst]
    | cons other names => cases hsecond

theorem readdir_complete_rw : ∃ kids, Shape PathName rwOpened kids ∧ ∀ pre,
    pre <+: [.create (ascii "b") .file, .readdir 1 256, .readdir 1 256] →
      (run (step bumpAllocator 9) (start rwOpened kids 9) pre).Complete bumpAllocator 9 := by
  obtain ⟨kids, hs, hin, hnames⟩ := rwOpened_listed
  have hnode : (rwOpened.file 9).node = 3 := by decide +kernel
  have hoffset : (rwOpened.file 9).offset = 0 := by decide +kernel
  rw [← hnode] at hin hnames
  refine ⟨kids, hs, (readdir_complete_iff hs (by decide) hin (by decide +kernel) hoffset ?_
    bumpAllocator ?_).mpr ?_⟩
  · rw [hnames]
    decide
  · simp [DirOp.InRange, ascii]
  · exact ⟨fun _ _ hne => absurd hoffset hne, trivial, trivial, trivial⟩

/-- A new file pushes `a`, which was delivered, back behind the offset, and it is delivered again.
Removing a file that was delivered pulls `a` in front of the offset, and it is not delivered at all. -/
theorem readdir_repeats_and_skips : ∃ kids, Shape PathName rwOpened kids ∧
    (let t := run (step bumpAllocator 9) (start rwOpened kids 9)
      [.readdir 1 256, .create (ascii "b") .file, .readdir 1 256, .readdir 1 256]
    t.ended = true ∧ t.stay = [ascii "a"] ∧ t.returned = [ascii "a", ascii "a"]) ∧
    (let t := run (step bumpAllocator 9) (start rwOpened kids 9)
      [.create (ascii "b") .file, .readdir 1 256, .unlink (ascii "b"), .readdir 1 256]
    t.ended = true ∧ t.stay = [ascii "a"] ∧ t.returned = [ascii "b"]) := by
  obtain ⟨kids, hs, hin, hnames⟩ := rwOpened_listed
  have hnode : (rwOpened.file 9).node = 3 := by decide +kernel
  have hstart : start rwOpened kids 9 = ⟨rwOpened, [], [ascii "a"], false⟩ := by
    rw [start, hnode, hnames]
  refine ⟨kids, hs, ?_, ?_⟩
  · rw [hstart]
    decide +kernel
  · rw [hstart]
    decide +kernel

end MyOs
