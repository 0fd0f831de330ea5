import MyOs.Vfs.Calls

/-!
# Paths to the nodes of the tree

Every node that can be reached from the root has a way back to it over parents.  The names on that way,
joined by slashes, should be a path to the node.

The way back always exists, and siblings always have different names, whatever the archive contains and
whichever calls follow (`tree_addressable`).  The path leads to the node only if `vfs_resolve` takes each
name for a name.  It skips empty parts and gives `.` and `..` a meaning of their own, and the calls with
paths refuse to make such names, but `tarfs_add_entry` does not: an archive with an entry `..` has a
node that no path leads to (`archived_dotDot_not_addressable`).  Archives without such parts in their paths
(`CleanArchive`) give trees in which every node has a path, after any calls.
-/

namespace MyOs

open Lib Vfs List

variable {ok : List UInt8 → Prop} {A : Allocator} {s : Vfs} {kids : ℕ → List ℕ} {c d n : ℕ}
  {names : List (List UInt8)}

namespace Vfs

/-- The nodes reached from `g_root` through `children` and `next`. -/
inductive Reachable (s : Vfs) : ℕ → Prop
  | root : Reachable s s.root
  | children {n : ℕ} : Reachable s n → (s.node n).children ≠ 0 → Reachable s (s.node n).children
  | next {n : ℕ} : Reachable s n → (s.node n).next ≠ 0 → Reachable s (s.node n).next

/-- The nodes on the list of children of `d`. -/
inductive Listed (s : Vfs) (d : ℕ) : ℕ → Prop
  | first : (s.node d).children ≠ 0 → Listed s d (s.node d).children
  | next {n : ℕ} : Listed s d n → (s.node n).next ≠ 0 → Listed s d (s.node n).next

/-- The parents of `n` lead to `g_root`; the names on the way, from the root on. -/
inductive ParentChain (s : Vfs) : ℕ → List (List UInt8) → Prop
  | root : ParentChain s s.root []
  | parent {n : ℕ} {names : List (List UInt8)} : n ≠ s.root → ParentChain s (s.node n).parent names →
      ParentChain s n (names ++ [(s.node n).name])

/-- Every node has its chain of parents, and siblings have different names. -/
structure WellFormed (s : Vfs) : Prop where
  chains : ∀ n, s.Reachable n → ∃ names, s.ParentChain n names
  siblings : ∀ d a b, s.Reachable d → s.Listed d a → s.Listed d b →
    (s.node a).name = (s.node b).name → a = b

end Vfs

/-- A slash, and the names joined by slashes. -/
def pathTo (names : List (List UInt8)) : List UInt8 := slash :: [slash].intercalate names

/-- The names on the chain of a node make a path to it. -/
def Vfs.Addressable (s : Vfs) : Prop :=
  ∀ n names, s.Reachable n → s.ParentChain n names → ∀ cwd, vfsResolve s (pathTo names) cwd = n

/-- No part of a path in the archive is empty, `.` or `..`. -/
def CleanArchive (archive : List UInt8) : Prop :=
  ∀ entry ∈ tarEntries archive, ∀ part ∈ entryParts entry.path,
    part ≠ [] ∧ part ≠ [dot] ∧ part ≠ [dot, dot]

instance (archive : List UInt8) : Decidable (CleanArchive archive) := by
  unfold CleanArchive
  infer_instance

/-! ## Chains of parents -/

namespace Vfs.Shape

section

variable (hs : Shape ok s kids)
include hs

lemma children_mem (hn : s.InTree kids n) (h : (s.node n).children ≠ 0) :
    (s.node n).children ∈ kids n :=
  (hs.chain n hn).head_mem h

lemma next_mem (hn : n ∈ kids d) (h : (s.node n).next ≠ 0) : (s.node n).next ∈ kids d :=
  (hs.chain d (hs.closed d n hn)).next_mem hn h

lemma parentChain (hc : c ∈ kids d) (h : s.ParentChain d names) :
    s.ParentChain c (names ++ [(s.node c).name]) := by
  refine .parent (hs.ne_root hc) ?_
  rwa [hs.parent d c hc]

lemma reachable (h : s.Reachable n) : s.InTree kids n ∧ ∃ names, s.ParentChain n names := by
  induction h with
  | root => exact ⟨root_inTree s kids, [], .root⟩
  | children _ hne ih =>
    obtain ⟨hn, names, hchain⟩ := ih
    have hc := hs.children_mem hn hne
    exact ⟨InTree.of_mem hc, _, hs.parentChain hc hchain⟩
  | next _ hne ih =>
    obtain ⟨hn, names, hchain⟩ := ih
    -- the root has no sibling, so the node has a directory, which is its sibling's as well
    rcases hn with rfl | ⟨d, hn⟩
    · exact absurd hs.rootNext hne
    have hnext := hs.next_mem hn hne
    refine ⟨InTree.of_mem hnext, ?_⟩
    cases hchain with
    | root => exact absurd hs.rootNext hne
    | parent _ hparent =>
      rw [hs.parent d _ hn] at hparent
      exact ⟨_, hs.parentChain hnext hparent⟩

lemma listed (hd : s.InTree kids d) (h : s.Listed d n) : n ∈ kids d := by
  induction h with
  | first hne => exact hs.children_mem hd hne
  | next _ hne ih => exact hs.next_mem ih hne

lemma wellFormed : s.WellFormed where
  chains _ hn := (hs.reachable hn).2
  siblings d a b hd ha hb hname := by
    have hd' := (hs.reachable hd).1
    exact inj_on_of_nodup_map (hs.names d) (hs.listed hd' ha) (hs.listed hd' hb) hname

/-- The names on a chain of parents are names in the tree, and finding one after the other leads back
to the node. -/
lemma foldl_findChild (hn : s.InTree kids n) (h : s.ParentChain n names) :
    (∀ name ∈ names, ok name) ∧ names.foldl (vfsFindChild s) s.root = n := by
  induction h with
  | root => exact ⟨by simp, rfl⟩
  | parent hne _ ih =>
    rcases hn with hn | ⟨d, hn⟩
    · exact absurd hn hne
    rw [hs.parent d _ hn] at ih
    obtain ⟨hnames, hfold⟩ := ih (hs.closed d _ hn)
    refine ⟨fun name hname => ?_, ?_⟩
    · rcases List.mem_append.mp hname with hname | hname
      · exact hnames name hname
      · rw [List.mem_singleton.mp hname]
        exact hs.named d _ hn
    · rw [foldl_append, hfold]
      exact hs.findChild_name hn

end

end Vfs.Shape

/-! ## Resolving a path of names -/

lemma resolvePart_pathName {name : List UInt8} (h : PathName name) (s : Vfs) (n : ℕ) :
    resolvePart s n name = vfsFindChild s n name := by
  rw [resolvePart, if_neg h.ne_dot, if_neg h.ne_dotDot, if_pos (List.length_pos_iff.mpr h.ne_nil),
    if_neg (not_lt.mpr h.length_le)]

lemma foldl_findChild_zero (s : Vfs) (names : List (List UInt8)) :
    names.foldl (vfsFindChild s) 0 = 0 := by
  induction names with
  | nil => rfl
  | cons name names ih =>
    have hzero : vfsFindChild s 0 name = 0 := if_pos (Or.inl rfl)
    rw [foldl_cons, hzero, ih]

lemma skipSlashes_cons (rest : List UInt8) : vfsSkipSlashes (slash :: rest) = vfsSkipSlashes rest :=
  dropWhile_cons_of_pos (beq_self_eq_true slash)

lemma skipSlashes_append {name : List UInt8} (h : PathName name) (rest : List UInt8) :
    vfsSkipSlashes (name ++ rest) = name ++ rest := by
  cases name with
  | nil => exact absurd rfl h.ne_nil
  | cons b bs =>
    have hb : b ≠ slash := fun hb => h.noSlash (hb ▸ mem_cons_self)
    simp [vfsSkipSlashes, hb]

lemma intercalate_cons (name : List UInt8) (names : List (List UInt8)) :
    ∃ rest, [slash].intercalate (name :: names) = name ++ rest ∧
      (names = [] ∧ rest = [] ∨ rest = slash :: [slash].intercalate names) := by
  cases names with
  | nil => exact ⟨[], by simp, Or.inl ⟨rfl, rfl⟩⟩
  | cons x xs =>
    refine ⟨_, ?_, Or.inr rfl⟩
    rw [intercalate_cons_cons, append_assoc, singleton_append]

lemma takeWhile_name {name rest : List UInt8} (h : slash ∉ name)
    (hrest : rest = [] ∨ rest.head? = some slash) :
    (name ++ rest).takeWhile (· != slash) = name ∧ (name ++ rest).dropWhile (· != slash) = rest := by
  have hchars : ∀ b ∈ name, (b != slash) = true := by
    intro b hb
    have : b ≠ slash := fun h' => h (h' ▸ hb)
    simpa using this
  rw [takeWhile_append_of_pos hchars, dropWhile_append_of_pos hchars]
  cases rest with
  | nil => simp
  | cons b rest =>
    have hb : b = slash := by simpa using hrest
    simp [hb]

/-- The loop takes the names one after the other, and does not mind a slash behind the last one. -/
lemma resolveLoop_intercalate (s : Vfs) (n fuel : ℕ) (h : ∀ name ∈ names, PathName name)
    {trail : List UInt8} (htrail : trail = [] ∨ trail = [slash])
    (hfuel : ([slash].intercalate names).length ≤ fuel) :
    resolveLoop s fuel n (vfsSkipSlashes ([slash].intercalate names ++ trail)) =
      names.foldl (vfsFindChild s) n := by
  induction names generalizing n fuel with
  | nil =>
    have hskip : vfsSkipSlashes ([slash].intercalate [] ++ trail) = [] := by
      rcases htrail with rfl | rfl <;> rfl
    rw [hskip]
    cases fuel <;> simp [resolveLoop]
  | cons name names ih =>
    obtain ⟨rest, hpath, hrest⟩ := intercalate_cons name names
    have hname := h name mem_cons_self
    have hnames : ∀ x ∈ names, PathName x := fun x hx => h x (mem_cons_of_mem _ hx)
    have hpos : 0 < name.length := List.length_pos_iff.mpr hname.ne_nil
    have hhead : rest ++ trail = [] ∨ (rest ++ trail).head? = some slash := by
      rcases hrest with ⟨-, rfl⟩ | rfl
      · exact htrail.imp id fun h => congrArg List.head? h
      · exact Or.inr rfl
    obtain ⟨htake, hdrop⟩ := takeWhile_name hname.noSlash hhead
    have hskip : vfsSkipSlashes (rest ++ trail) = vfsSkipSlashes ([slash].intercalate names ++ trail) := by
      rcases hrest with ⟨rfl, rfl⟩ | rfl
      · rfl
      · exact skipSlashes_cons _
    rw [hpath] at hfuel ⊢
    rw [length_append] at hfuel
    cases fuel with
    | zero => omega
    | succ fuel =>
      have hne : name ++ (rest ++ trail) ≠ [] := append_ne_nil_of_left_ne_nil hname.ne_nil _
      have hlen : ([slash].intercalate names).length ≤ fuel := by
        rcases hrest with ⟨rfl, rfl⟩ | rfl
        · simp
        · rw [length_cons] at hfuel
          omega
      rw [append_assoc, skipSlashes_append hname, resolveLoop, if_neg hne]
      dsimp only
      rw [htake, hdrop, hskip, resolvePart_pathName hname, foldl_cons]
      split_ifs with hnull
      · rw [hnull, foldl_findChild_zero]
      · exact ih _ _ hnames hlen

/-- A path of names is followed, with or without `./` before it and a slash behind it. -/
lemma resolve_names (hroot : s.root ≠ 0) (h : ∀ name ∈ names, PathName name) {lead trail : List UInt8}
    (hlead : lead = [] ∨ lead = [dot, slash]) (htrail : trail = [] ∨ trail = [slash]) (cwd : ℕ) :
    vfsResolve s (slash :: (lead ++ [slash].intercalate names ++ trail)) cwd =
      names.foldl (vfsFindChild s) s.root := by
  have hhead : (slash :: (lead ++ [slash].intercalate names ++ trail)).head? = some slash := rfl
  rw [vfsResolve, if_neg hroot, if_pos hhead, skipSlashes_cons]
  rcases hlead with rfl | rfl
  · refine resolveLoop_intercalate s _ _ h htrail ?_
    rw [length_cons, nil_append, length_append]
    omega
  · -- one turn of the loop for the dot
    have hloop : ∀ fuel p, resolveLoop s (fuel + 1) s.root (vfsSkipSlashes (dot :: slash :: p)) =
        resolveLoop s fuel s.root (vfsSkipSlashes p) := fun fuel p => if_neg hroot
    refine (hloop _ _).trans (resolveLoop_intercalate s _ _ h htrail ?_)
    rw [length_append, length_append]
    omega

lemma resolve_pathTo (hroot : s.root ≠ 0) (h : ∀ name ∈ names, PathName name) (cwd : ℕ) :
    vfsResolve s (pathTo names) cwd = names.foldl (vfsFindChild s) s.root := by
  have hname := resolve_names hroot h (Or.inl rfl) (Or.inl rfl) cwd
  rwa [nil_append, append_nil] at hname

lemma Vfs.Shape.addressable (hs : Shape PathName s kids) : s.Addressable := by
  intro n names hn hchain cwd
  obtain ⟨hnames, hfold⟩ := hs.foldl_findChild (hs.reachable hn).1 hchain
  rw [resolve_pathTo (hs.ne_zero (root_inTree s kids)) hnames, hfold]

/-! ## Runs -/

/-- The shape along a run, for a condition on names that the archive and the calls meet. -/
lemma hasShape_run (hroot : (vfsInit A).root ≠ 0) (hok : ∀ name, PathName name → ok name)
    {archive : List UInt8} (harchive : ∀ entry ∈ tarEntries archive, ∀ part ∈ entryParts entry.path,
      slash ∉ part → part.length ≤ vfsNameMax → ok part) (ops : List VfsOp) :
    HasShape ok (run (Vfs.step A) (tarfsPopulateVfs A archive (vfsInit A)) ops) :=
  run_preserves (fun _ op hs => hs.step hok A op) (HasShape.populate ⟨_, Shape.init ok hroot⟩ A harchive)

/-- **The tree of files along a run.**  After any archive and any calls the tree is well formed.  If no
part of a path in the archive is empty, `.` or `..`, then each node has a path. -/
theorem tree_addressable (A : Allocator) (hroot : (vfsInit A).root ≠ 0) (archive : List UInt8)
    (ops : List VfsOp) :
    (run (Vfs.step A) (tarfsPopulateVfs A archive (vfsInit A)) ops).WellFormed ∧
      (CleanArchive archive →
        (run (Vfs.step A) (tarfsPopulateVfs A archive (vfsInit A)) ops).Addressable) := by
  constructor
  · -- any name will do
    have hany : HasShape (fun _ => True)
        (run (Vfs.step A) (tarfsPopulateVfs A archive (vfsInit A)) ops) :=
      hasShape_run hroot (fun _ _ => trivial) (fun _ _ _ _ _ _ => trivial) ops
    obtain ⟨kids, hs⟩ := hany
    exact hs.wellFormed
  · intro hclean
    have hparts : ∀ entry ∈ tarEntries archive, ∀ part ∈ entryParts entry.path, slash ∉ part →
        part.length ≤ vfsNameMax → PathName part := by
      intro entry hentry part hpart hslash hlen
      obtain ⟨hnil, hdot, hdots⟩ := hclean entry hentry part hpart
      exact ⟨hnil, hdot, hdots, hlen, hslash⟩
    obtain ⟨kids, hs⟩ := hasShape_run hroot (fun _ h => h) hparts ops
    exact hs.addressable

/-- An allocator that never reuses an address while a block above it is in use. -/
def bumpAllocator : Allocator where
  addr _ live := live.foldr max 0 + 1
  fresh _ live := by
    have hle : ∀ p ∈ live, p ≤ live.foldr max 0 := by
      induction live with
      | nil => simp
      | cons q live ih =>
        intro p hp
        rcases List.mem_cons.mp hp with rfl | hp
        · exact le_max_left _ _
        · exact (ih p hp).trans (le_max_right _ _)
    exact fun h => absurd (hle _ h) (Nat.not_succ_le_self _)

/-- A header with a name and a type, and everything else zero. -/
def tarHeader (name : List UInt8) (typeflag : UInt8) : List UInt8 :=
  name ++ List.replicate (156 - name.length) 0 ++ [typeflag] ++ List.replicate 355 0

theorem tree_addressable_bin_sh :
    (vfsInit bumpAllocator).root ≠ 0 ∧ CleanArchive (tarHeader (ascii "bin/sh") 48) ∧
      (run (Vfs.step bumpAllocator)
        (tarfsPopulateVfs bumpAllocator (tarHeader (ascii "bin/sh") 48)
          (vfsInit bumpAllocator))
        [.devfsInit, .mkdir (ascii "/rw"), .openFile (ascii "/rw/a") 4,
          .unlink (ascii "/rw/a")]).Addressable := by
  have hroot : (vfsInit bumpAllocator).root ≠ 0 := by decide
  have hclean : CleanArchive (tarHeader (ascii "bin/sh") 48) := by
    decide +kernel
  exact ⟨hroot, hclean, (tree_addressable bumpAllocator hroot _ _).2 hclean⟩

/-- A directory `..` from the archive: its path leads to the root. -/
theorem archived_dotDot_not_addressable :
    (vfsInit bumpAllocator).root ≠ 0 ∧
      ¬ (run (Vfs.step bumpAllocator)
        (tarfsPopulateVfs bumpAllocator (tarHeader [dot, dot] 53) (vfsInit bumpAllocator)) []).Addressable := by
  refine ⟨by decide, fun h => ?_⟩
  rw [run_nil] at h
  generalize htree : tarfsPopulateVfs bumpAllocator (tarHeader [dot, dot] 53) (vfsInit bumpAllocator) =
    s at h
  have hroot : s.root = 1 := by rw [← htree]; decide +kernel
  have hchild : (s.node 1).children = 3 := by rw [← htree]; decide +kernel
  have hnode : (s.node 3).parent = 1 ∧ (s.node 3).name = [dot, dot] := by
    rw [← htree]; decide +kernel
  have hreach : s.Reachable 3 := by
    have := Reachable.children (.root (s := s)) (by rw [hroot, hchild]; decide)
    rwa [hroot, hchild] at this
  have hchain : s.ParentChain 3 [[dot, dot]] := by
    have hparent : s.ParentChain (s.node 3).parent [] := by
      rw [hnode.1, ← hroot]
      exact .root
    have := ParentChain.parent (by rw [hroot]; decide) hparent
    rwa [hnode.2] at this
  have hresolve : vfsResolve s (pathTo [[dot, dot]]) 0 = 1 := by rw [← htree]; decide +kernel
  exact absurd ((h 3 [[dot, dot]] hreach hchain 0).symm.trans hresolve) (by decide)

end MyOs
