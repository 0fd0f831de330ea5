import MyOs.Vfs.Paths

/-!
# The tree as a map from paths to nodes

`Vfs.find` follows a list of names from the root.  With the shape of the tree, two lists lead to one node only
if they are equal (`Shape.find_inj`), so that adding a child adds one path (`Shape.find_attach`).

`Vfs.Adds s s' path v` says what it means that `path` was added with the parents it needs: what was there is
still the same, what is new on the way to `path` is a directory, and `path` itself is what `v` says.
-/

namespace MyOs

open Lib Vfs List Function

variable {ok : List UInt8 → Prop} {A : Allocator} {s s' s'' u : Vfs} {kids : ℕ → List ℕ} {c d n : ℕ}
  {name : List UInt8} {names base path : List (List UInt8)}

namespace Vfs

/-- The node a list of names leads to; 0 if there is none. -/
def find (s : Vfs) (names : List (List UInt8)) : ℕ := names.foldl (vfsFindChild s) s.root

/-- What a node is for those who open it. -/
def what (v : VfsNode) : NodeType × ℕ × NodeData × NodeOps := (v.type, v.size, v.data, v.ops)

/-- The path was added, with its parents. -/
structure Adds (s s' : Vfs) (path : List (List UInt8))
    (v : NodeType × ℕ × NodeData × NodeOps) : Prop where
  old : ∀ names, s.find names ≠ 0 →
    s'.find names ≠ 0 ∧ what (s'.node (s'.find names)) = what (s.node (s.find names))
  new : ∀ names, s.find names = 0 → names <+: path → s'.find names ≠ 0 ∧
    (names = path → what (s'.node (s'.find names)) = v) ∧
    (names ≠ path → (s'.node (s'.find names)).type = .dir)
  none : ∀ names, s.find names = 0 → ¬ names <+: path → s'.find names = 0

/-! ## Following names -/

@[simp] lemma find_nil (s : Vfs) : s.find [] = s.root := rfl

@[simp] lemma find_snoc (s : Vfs) (names : List (List UInt8)) (name : List UInt8) :
    s.find (names ++ [name]) = vfsFindChild s (s.find names) name := by
  rw [find, foldl_append]
  rfl

@[simp] lemma findChild_zero (s : Vfs) (name : List UInt8) : vfsFindChild s 0 name = 0 :=
  if_pos (Or.inl rfl)

lemma find_parent_ne_zero (h : base <+: names) (hne : s.find names ≠ 0) : s.find base ≠ 0 := by
  obtain ⟨rest, rfl⟩ := h
  intro hzero
  refine hne ?_
  rw [find, foldl_append]
  show rest.foldl (vfsFindChild s) (s.find base) = 0
  rw [hzero, foldl_findChild_zero]

namespace Shape

lemma find_inTree (hs : Shape ok s kids) (h : s.find names ≠ 0) : s.InTree kids (s.find names) := by
  induction names using reverseRecOn with
  | nil => exact root_inTree s kids
  | append_singleton names name ih =>
    rw [find_snoc] at h ⊢
    have hparent : s.find names ≠ 0 := fun hzero => h (by rw [hzero, findChild_zero])
    exact InTree.of_mem (hs.findChild_mem (ih hparent) h)

lemma find_snoc_mem (hs : Shape ok s kids) (h : s.find (names ++ [name]) ≠ 0) :
    s.find (names ++ [name]) ∈ kids (s.find names) ∧ (s.node (s.find (names ++ [name]))).name = name := by
  have hparent : s.find names ≠ 0 := find_parent_ne_zero (prefix_append names [name]) h
  have hd := hs.find_inTree hparent
  rw [find_snoc] at h ⊢
  exact ⟨hs.findChild_mem hd h, hs.name_findChild hd h⟩

lemma find_inj (hs : Shape ok s kids) {names names' : List (List UInt8)} (h : s.find names ≠ 0)
    (heq : s.find names = s.find names') : names = names' := by
  induction names using reverseRecOn generalizing names' with
  | nil =>
    cases names' using reverseRecOn with
    | nil => rfl
    | append_singleton names' name' =>
      have hmem := (hs.find_snoc_mem (heq ▸ h)).1
      exact absurd heq.symm (hs.ne_root hmem)
  | append_singleton names name ih =>
    obtain ⟨hmem, hname⟩ := hs.find_snoc_mem h
    cases names' using reverseRecOn with
    | nil => exact absurd heq (hs.ne_root hmem)
    | append_singleton names' name' =>
      obtain ⟨hmem', hname'⟩ := hs.find_snoc_mem (heq ▸ h)
      rw [← heq] at hmem' hname'
      have hparent : s.find names ≠ 0 := find_parent_ne_zero (prefix_append names [name]) h
      rw [ih hparent (hs.dir_unique hmem hmem'), ← hname, ← hname']

lemma find_sameTree (hs : Shape ok s kids) (hu : Shape ok u kids) (hsame : SameTree kids s u)
    (names : List (List UInt8)) : u.find names = s.find names := by
  induction names using reverseRecOn with
  | nil => exact hsame.root
  | append_singleton names name ih =>
    rw [find_snoc, find_snoc, ih]
    by_cases hzero : s.find names = 0
    · rw [hzero, findChild_zero, findChild_zero]
    have hd := hs.find_inTree hzero
    rw [hs.findChild_eq hd, hu.findChild_eq (hsame.inTree.mpr hd)]
    refine congrArg (Option.getD · 0) (find?_congr fun k hk => ?_)
    rw [hsame.node k (InTree.of_mem hk)]

/-! ## One more child -/

lemma findChild_attach (hs : Shape ok s kids)
    (hs' : Shape ok (s.attach d c) (update kids d (c :: kids d))) {e : ℕ} (he : s.InTree kids e)
    (name : List UInt8) :
    vfsFindChild (s.attach d c) e name =
      if e = d ∧ name = (s.node c).name then c else vfsFindChild s e name := by
  have hname : ∀ k, ((s.attach d c).node k).name = (s.node k).name :=
    fun k => congrArg (·.1) (identity_attach s d c k)
  rw [hs'.findChild_eq (inTree_attach.mpr (Or.inr he)), hs.findChild_eq he]
  simp only [hname]
  by_cases hed : e = d
  · subst hed
    rw [update_self, find?_cons]
    by_cases heq : name = (s.node c).name
    · rw [if_pos ⟨rfl, heq⟩, heq, beq_self_eq_true]
      rfl
    · have hbeq : ((s.node c).name == name) = false := by simpa using Ne.symm heq
      rw [if_neg fun h => heq h.2, hbeq]
  · rw [if_neg fun h => hed h.1, update_of_ne hed]

lemma find_attach (hs : Shape ok s kids)
    (hs' : Shape ok (s.attach d c) (update kids d (c :: kids d))) (hc : Loose s kids c)
    (hbase : s.find base = d) (hd : d ≠ 0) (hnew : vfsFindChild s d (s.node c).name = 0)
    (names : List (List UInt8)) :
    (s.attach d c).find names = if names = base ++ [(s.node c).name] then c else s.find names := by
  have hdtree : s.InTree kids d := hbase ▸ hs.find_inTree (hbase ▸ hd)
  have hleaf : ∀ name, vfsFindChild (s.attach d c) c name = 0 := by
    intro name
    have hcd : c ≠ d := fun h => hc.out (h ▸ hdtree)
    rw [hs'.findChild_eq (inTree_attach.mpr (Or.inl rfl)), update_of_ne hcd, hs.kids_eq_nil hc.out]
    rfl
  induction names using reverseRecOn with
  | nil => simp [Vfs.attach]
  | append_singleton names name ih =>
    rw [find_snoc, find_snoc, ih]
    by_cases hend : names = base ++ [(s.node c).name]
    · -- the new node has no children, and nothing was there before
      have hlen : names ++ [name] ≠ base ++ [(s.node c).name] := by
        intro h
        have := congrArg length h
        rw [hend] at this
        simp at this
      rw [if_pos hend, if_neg hlen, hleaf, hend, find_snoc, hbase, hnew, findChild_zero]
    rw [if_neg hend]
    by_cases hzero : s.find names = 0
    · have hne : names ++ [name] ≠ base ++ [(s.node c).name] := by
        intro h
        rw [(append_inj' h rfl).1, hbase] at hzero
        exact hd hzero
      rw [hzero, findChild_zero, findChild_zero, if_neg hne]
    · rw [hs.findChild_attach hs' (hs.find_inTree hzero)]
      refine if_congr ⟨?_, fun h => ?_⟩ rfl rfl
      · rintro ⟨hnode, rfl⟩
        rw [hs.find_inj hzero (hnode.trans hbase.symm)]
      · obtain ⟨rfl, hname⟩ := append_inj' h rfl
        exact ⟨hbase, (cons.inj hname).1⟩

/-- A node that was made since `s` becomes a child: `vfs_add_child` adds one path. -/
lemma adds_attach (hs : Shape ok s kids) (hu : Shape ok u kids) (hsame : SameTree kids s u)
    (hc : Loose u kids c) (hnull : c ≠ 0) (hname : (u.node c).name = name) (hok : ok name)
    (hbase : s.find base = d) (hd : d ≠ 0) (hdir : (s.node d).type = .dir)
    (hnew : vfsFindChild s d name = 0) :
    vfsAddChild u d c = some (u.attach d c) ∧
      Shape ok (u.attach d c) (update kids d (c :: kids d)) ∧
      (u.attach d c).find (base ++ [name]) = c ∧ Adds s (u.attach d c) (base ++ [name]) (what (u.node c)) := by
  have hdtree : s.InTree kids d := hbase ▸ hs.find_inTree (hbase ▸ hd)
  have hfind := hs.find_sameTree hu hsame
  obtain ⟨hadd, hs'⟩ := hu.addChild_new hsame hc hnull hname hok hdtree hdir fun k hk =>
    hs.name_ne_of_findChild hdtree hnew hk
  have hnew' : vfsFindChild u d (u.node c).name = 0 := by
    rw [hname, ← hbase, ← hfind, ← find_snoc, hfind, find_snoc, hbase, hnew]
  have hpaths : ∀ names, (u.attach d c).find names = if names = base ++ [name] then c else s.find names := by
    intro names
    rw [hu.find_attach hs' hc (by rw [hfind, hbase]) hd hnew' names, hname, hfind]
  have hwhat : ∀ k, what ((u.attach d c).node k) = what (u.node k) := fun k =>
    (modify_field what (fun _ => by rfl) _ _ _).trans (modify_field what (fun _ => by rfl) _ _ _)
  have hnone : s.find (base ++ [name]) = 0 := by rw [find_snoc, hbase, hnew]
  refine ⟨hadd, hs', by rw [hpaths, if_pos rfl], ?_⟩
  constructor
  case old =>
    intro names hne
    have hother : names ≠ base ++ [name] := by
      rintro rfl
      exact hne hnone
    rw [hpaths, if_neg hother, hwhat, hsame.node _ (hs.find_inTree hne)]
    exact ⟨hne, rfl⟩
  case new =>
    intro names hzero hprefix
    -- everything before the last name was there
    have heq : names = base ++ [name] := by
      rcases prefix_concat_iff.mp hprefix with heq | hle
      · exact heq
      · exact absurd hzero (find_parent_ne_zero hle (hbase ▸ hd))
    rw [hpaths, if_pos heq]
    exact ⟨hnull, fun _ => hwhat c, fun hne => absurd heq hne⟩
  case none =>
    intro names hzero hprefix
    have hother : names ≠ base ++ [name] := by
      rintro rfl
      exact hprefix (prefix_refl _)
    rw [hpaths, if_neg hother, hzero]

end Shape

lemma Adds.refl (h : s.find path ≠ 0) (v : NodeType × ℕ × NodeData × NodeOps) : Adds s s path v where
  old _ hne := ⟨hne, rfl⟩
  new _ hzero hle := absurd hzero (find_parent_ne_zero hle h)
  none _ hzero _ := hzero

lemma Adds.type_dir {v : NodeType × ℕ × NodeData × NodeOps} (h : Adds s s' path v)
    (hpath : names = path → v.1 = .dir) (hold : s.find names ≠ 0 → (s.node (s.find names)).type = .dir)
    (hne : s'.find names ≠ 0) : (s'.node (s'.find names)).type = .dir := by
  by_cases hzero : s.find names = 0
  · have hle : names <+: path := by
      by_contra hnot
      exact hne (h.none names hzero hnot)
    obtain ⟨-, hlast, hway⟩ := h.new names hzero hle
    by_cases heq : names = path
    · exact (congrArg (·.1) (hlast heq)).trans (hpath heq)
    · exact hway heq
  · exact (congrArg (·.1) (h.old names hzero).2).trans (hold hzero)

lemma Adds.trans {v w : NodeType × ℕ × NodeData × NodeOps} (h : Adds s s' base w) (hdir : w.1 = .dir)
    (h' : Adds s' s'' path v) (hbase : base <+: path) (hne : base ≠ path) : Adds s s'' path v := by
  constructor
  case old =>
    intro names hfind
    obtain ⟨hfind', hwhat⟩ := h.old names hfind
    obtain ⟨hfind'', hwhat'⟩ := h'.old names hfind'
    exact ⟨hfind'', hwhat'.trans hwhat⟩
  case new =>
    intro names hzero hle
    by_cases hzero' : s'.find names = 0
    · exact h'.new names hzero' hle
    have htype := h.type_dir (fun _ => hdir) (fun hne => absurd hzero hne) hzero'
    obtain ⟨hfind', hwhat⟩ := h'.old names hzero'
    refine ⟨hfind', ?_, fun _ => (congrArg (·.1) hwhat).trans htype⟩
    -- the whole path is longer than what the first step added
    rintro rfl
    have hlt : ¬ names <+: base := fun hle => hne (hbase.eq_of_length_le hle.length_le)
    exact absurd (h.none names hzero hlt) hzero'
  case none =>
    intro names hzero hnot
    have hzero' : s'.find names = 0 := h.none names hzero fun hle => hnot (hle.trans hbase)
    exact h'.none names hzero' hnot

end Vfs

end MyOs
