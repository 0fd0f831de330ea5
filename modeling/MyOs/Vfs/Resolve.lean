import MyOs.Vfs.Paths

/-!
# Paths as lists of components

What `vfs_resolve` means.  A path is the list of its non-empty parts between slashes (`components`), and
each of them is one step in the tree: `.` stays, `..` goes to the parent if there is one, and any other
name of at most `VFS_NAME_MAX` bytes goes to the child of that name (`componentStep`).  The pointer loop of
`vfs_resolve` is the left fold of these steps (`resolve_eq_fold`), for every string.

The loop has as many turns as the path has components.  `resolveTurns` is the loop stopped after a number of
turns, with `none` for a loop that is still running; the length of the path is always enough.
-/

namespace MyOs

open Lib Vfs List

variable {ok : List UInt8 → Prop} {s : Vfs} {kids : ℕ → List ℕ} {n cwd : ℕ} {p : List UInt8}

/-- The non-empty parts of a path. -/
def components (path : List UInt8) : List (List UInt8) := (path.splitOn slash).filter (· ≠ [])

/-- A pointer that may be null. -/
def nonNull (n : ℕ) : Option ℕ := if n = 0 then none else some n

/-- One step in the tree whose lists of children are `kids`. -/
def componentStep (s : Vfs) (kids : ℕ → List ℕ) (cur : ℕ) (part : List UInt8) : Option ℕ :=
  if part = [dot] then some cur
  else if part = [dot, dot] then some (if (s.node cur).parent = 0 then cur else (s.node cur).parent)
  else if part.length ≤ vfsNameMax then (kids cur).find? fun c => (s.node c).name == part
  else none

/-- Where a path starts. -/
def startOf (s : Vfs) (path : List UInt8) (cwd : ℕ) : ℕ :=
  if path.head? = some slash then s.root else if cwd = 0 then s.root else cwd

/-- The node a list of components leads to. -/
def follow (s : Vfs) (kids : ℕ → List ℕ) (start : ℕ) (parts : List (List UInt8)) : Option ℕ :=
  parts.foldlM (componentStep s kids) start

/-- The loop of `vfs_resolve`, watched for a number of turns: `none` if it has not ended by then. -/
def resolveTurns (s : Vfs) : ℕ → ℕ → List UInt8 → Option ℕ
  | 0, cur, p => if p = [] then some cur else none
  | turns + 1, cur, p =>
    if p = [] then some cur
    else
      let next := resolvePart s cur (p.takeWhile (· != slash))
      if next = 0 then some 0
      else resolveTurns s turns next (vfsSkipSlashes (p.dropWhile (· != slash)))

/-- `vfs_resolve`, watched for a number of turns of its loop. -/
def vfsResolveTurns (s : Vfs) (turns : ℕ) (path : List UInt8) (cwd : ℕ) : Option ℕ :=
  if s.root = 0 then some 0
  else if path.head? = some slash then resolveTurns s turns s.root (vfsSkipSlashes path)
  else resolveTurns s turns (if cwd ≠ 0 then cwd else s.root) path

/-! ## Components -/

@[simp] lemma components_nil : components [] = [] := by
  simp [components]

lemma components_append_slash (a b : List UInt8) :
    components (a ++ slash :: b) = components a ++ components b := by
  rw [components, splitOn_append_cons_self, filter_append]
  rfl

@[simp] lemma components_slash (b : List UInt8) : components (slash :: b) = components b :=
  (components_append_slash [] b).trans (by rw [components_nil, nil_append])

lemma components_of_not_mem (h : slash ∉ p) (hne : p ≠ []) : components p = [p] := by
  simp [components, splitOn_eq_singleton h, hne]

@[simp] lemma components_skipSlashes (p : List UInt8) : components (vfsSkipSlashes p) = components p := by
  induction p with
  | nil => rfl
  | cons b p ih =>
    by_cases hb : b = slash
    · rw [hb, skipSlashes_cons, ih, components_slash]
    · rw [vfsSkipSlashes, dropWhile_cons_of_neg (by simpa using hb)]

lemma skipSlashes_head (p : List UInt8) : (vfsSkipSlashes p).head? ≠ some slash := by
  intro h
  have := head?_dropWhile_not (· == slash) p
  rw [← vfsSkipSlashes, h] at this
  simp at this

lemma length_skipSlashes_le (p : List UInt8) : (vfsSkipSlashes p).length ≤ p.length :=
  (dropWhile_suffix _).length_le

lemma components_eq_cons (hne : p ≠ []) (hhead : p.head? ≠ some slash) :
    components p = p.takeWhile (· != slash) :: components (p.dropWhile (· != slash)) ∧
      p.takeWhile (· != slash) ≠ [] := by
  have hfirst : p.takeWhile (· != slash) ≠ [] := by
    cases p with
    | nil => exact absurd rfl hne
    | cons b p =>
      have hb : b ≠ slash := fun h => hhead (congrArg some h)
      simp [hb]
  refine ⟨?_, hfirst⟩
  have hsplit := takeWhile_append_dropWhile (p := (· != slash)) (l := p)
  have hpart := components_of_not_mem (slash_not_mem_takeWhile p) hfirst
  cases hrest : p.dropWhile (· != slash) with
  | nil =>
    rw [hrest, append_nil] at hsplit
    rw [components_nil, ← hpart, hsplit]
  | cons sep rest =>
    have hsep : sep = slash := by simpa [hrest] using head?_dropWhile_not (· != slash) p
    rw [hrest, hsep] at hsplit
    rw [hsep, components_slash, ← singleton_append, ← hpart, ← components_append_slash, hsplit]

/-! ## The loop -/

@[simp] lemma nonNull_zero : nonNull 0 = none := rfl

lemma nonNull_of_ne (h : n ≠ 0) : nonNull n = some n := if_neg h

lemma nonNull_eq_some {m : ℕ} : nonNull n = some m ↔ n = m ∧ m ≠ 0 := by
  rw [nonNull]
  split_ifs with h
  · simp only [false_iff, not_and, not_not]
    rintro rfl
    exact h
  · rw [Option.some.injEq]
    exact ⟨fun heq => ⟨heq, heq ▸ h⟩, And.left⟩

lemma nonNull_eq_none : nonNull n = none ↔ n = 0 := by
  rw [nonNull]
  split_ifs with h <;> simp [h]

lemma nonNull_inj {m : ℕ} (h : nonNull n = nonNull m) : n = m := by
  by_cases hm : m = 0
  · rw [hm, nonNull_zero] at h
    rw [hm, nonNull_eq_none.mp h]
  · rw [nonNull_of_ne hm] at h
    exact (nonNull_eq_some.mp h).1

lemma startOf_inTree (hcwd : cwd = 0 ∨ s.InTree kids cwd) (path : List UInt8) :
    s.InTree kids (startOf s path cwd) := by
  rw [startOf]
  split_ifs with hhead hnull
  · exact Shape.root_inTree s kids
  · exact Shape.root_inTree s kids
  · exact hcwd.resolve_left hnull

namespace Vfs.Shape

lemma nonNull_resolvePart (hs : Shape ok s kids) (hn : s.InTree kids n) {part : List UInt8}
    (hpart : part ≠ []) : nonNull (resolvePart s n part) = componentStep s kids n part := by
  have hn0 := hs.ne_zero hn
  rw [resolvePart, componentStep, if_pos (List.length_pos_iff.mpr hpart)]
  refine (apply_ite nonNull _ _ _).trans (if_congr Iff.rfl (nonNull_of_ne hn0) ?_)
  refine (apply_ite nonNull _ _ _).trans (if_congr Iff.rfl ?_ ?_)
  · rw [ite_not]
    refine nonNull_of_ne ?_
    split_ifs with hparent
    · exact hn0
    · exact hparent
  · rcases lt_or_ge vfsNameMax part.length with hlong | hshort
    · rw [if_pos hlong, if_neg (not_le.mpr hlong), nonNull_zero]
    · rw [if_neg (not_lt.mpr hshort), if_pos hshort, hs.findChild_eq hn]
      cases hfind : (kids n).find? fun c => (s.node c).name == part with
      | none => rfl
      | some c => exact nonNull_of_ne (hs.ne_zero (InTree.of_mem (mem_of_find?_eq_some hfind)))

lemma resolveLoop_eq_follow (hs : Shape ok s kids) (hn : s.InTree kids n) (hhead : p.head? ≠ some slash)
    {fuel : ℕ} (hfuel : p.length ≤ fuel) :
    resolveTurns s fuel n p = some (resolveLoop s fuel n p) ∧
      nonNull (resolveLoop s fuel n p) = follow s kids n (components p) := by
  -- a turn takes the first component off the path
  induction fuel generalizing n p with
  | zero =>
    have hnil : p = [] := List.length_eq_zero_iff.mp (Nat.le_zero.mp hfuel)
    subst hnil
    exact ⟨rfl, nonNull_of_ne (hs.ne_zero hn)⟩
  | succ fuel ih =>
    by_cases hnil : p = []
    · subst hnil
      exact ⟨rfl, nonNull_of_ne (hs.ne_zero hn)⟩
    obtain ⟨hcomp, hfirst⟩ := components_eq_cons hnil hhead
    have hstep := hs.nonNull_resolvePart hn hfirst
    have hin : resolvePart s n (p.takeWhile (· != slash)) ≠ 0 →
        s.InTree kids (resolvePart s n (p.takeWhile (· != slash))) := hs.resolvePart_inTree hn
    simp only [resolveTurns, resolveLoop, if_neg hnil, hcomp, follow, foldlM_cons, ← hstep]
    generalize resolvePart s n (p.takeWhile (· != slash)) = next at hin ⊢
    by_cases hnext : next = 0
    · rw [if_pos hnext, if_pos hnext, hnext]
      exact ⟨rfl, rfl⟩
    · have hlen : (vfsSkipSlashes (p.dropWhile (· != slash))).length ≤ fuel := by
        have hskip := length_skipSlashes_le (p.dropWhile (· != slash))
        have hsplit := congrArg List.length
          (takeWhile_append_dropWhile (p := (· != slash)) (l := p))
        have hpos := List.length_pos_iff.mpr hfirst
        rw [length_append] at hsplit
        omega
      have hrest := ih (hin hnext) (skipSlashes_head _) hlen
      rw [components_skipSlashes] at hrest
      rw [if_neg hnext, if_neg hnext, nonNull_of_ne hnext]
      exact hrest

lemma resolve_spec (hs : Shape ok s kids) (hcwd : cwd = 0 ∨ s.InTree kids cwd) (path : List UInt8)
    {turns : ℕ} (hturns : path.length ≤ turns) :
    vfsResolveTurns s turns path cwd = some (vfsResolve s path cwd) ∧
      nonNull (vfsResolve s path cwd) = follow s kids (startOf s path cwd) (components path) := by
  have hroot := hs.ne_zero (root_inTree s kids)
  have hstart := startOf_inTree hcwd path
  -- the number of turns does not matter if there are enough of them
  have hloop : ∀ {n : ℕ} {p : List UInt8}, s.InTree kids n → p.head? ≠ some slash → p.length ≤ path.length →
      resolveTurns s turns n p = some (resolveLoop s path.length n p) ∧
        nonNull (resolveLoop s path.length n p) = follow s kids n (components p) := by
    intro n p hn hhead hlen
    obtain ⟨hin, hfold⟩ := hs.resolveLoop_eq_follow hn hhead hlen
    obtain ⟨hin', hfold'⟩ := hs.resolveLoop_eq_follow hn hhead (hlen.trans hturns)
    exact ⟨hin'.trans (congrArg some (nonNull_inj (hfold'.trans hfold.symm))), hfold⟩
  rw [vfsResolveTurns, vfsResolve, if_neg hroot, if_neg hroot]
  by_cases hhead : path.head? = some slash
  · rw [startOf, if_pos hhead] at hstart ⊢
    rw [if_pos hhead, if_pos hhead, ← components_skipSlashes path]
    exact hloop hstart (skipSlashes_head path) (length_skipSlashes_le path)
  · rw [startOf, if_neg hhead] at hstart ⊢
    rw [if_neg hhead, if_neg hhead, ite_not]
    exact hloop hstart hhead le_rfl

lemma nonNull_resolve (hs : Shape ok s kids) (hcwd : cwd = 0 ∨ s.InTree kids cwd) (path : List UInt8) :
    nonNull (vfsResolve s path cwd) = follow s kids (startOf s path cwd) (components path) :=
  (hs.resolve_spec hcwd path le_rfl).2

lemma follow_inTree (hs : Shape ok s kids) (hn : s.InTree kids n) {parts : List (List UInt8)}
    (hparts : ∀ part ∈ parts, part ≠ []) {m : ℕ} (h : follow s kids n parts = some m) :
    s.InTree kids m := by
  induction parts generalizing n with
  | nil =>
    cases h
    exact hn
  | cons part parts ih =>
    have hpart := hparts part mem_cons_self
    rw [follow, foldlM_cons, ← hs.nonNull_resolvePart hn hpart] at h
    by_cases hnext : resolvePart s n part = 0
    · rw [hnext] at h
      cases h
    · rw [nonNull_of_ne hnext] at h
      exact ih (hs.resolvePart_inTree hn hnext) (fun q hq => hparts q (mem_cons_of_mem _ hq)) h

end Vfs.Shape

lemma ne_nil_of_mem_components {path part : List UInt8} (h : part ∈ components path) : part ≠ [] := by
  simpa using (List.mem_filter.mp h).2

lemma ne_nil_of_split {path : List UInt8} {dirs rest : List (List UInt8)}
    (h : components path = dirs ++ rest) : ∀ part ∈ dirs, part ≠ [] := fun _ hpart =>
  ne_nil_of_mem_components (h ▸ mem_append_left rest hpart)

lemma follow_append (s : Vfs) (kids : ℕ → List ℕ) (n : ℕ) (parts parts' : List (List UInt8)) :
    follow s kids n (parts ++ parts') =
      (follow s kids n parts).bind fun m => follow s kids m parts' := by
  simp only [follow, foldlM_append]
  rfl

/-- **What `vfs_resolve` computes.**  In a well-formed tree, for every path and every starting directory,
the loop ends, and the result is the left fold of the steps over the components of the path, null where a
step fails.  A path `a/b` leads where `b`, without its leading slashes, leads from the node of `a`, if
there is one. -/
theorem resolve_eq_fold (hs : Shape ok s kids) (hcwd : cwd = 0 ∨ s.InTree kids cwd) :
    (∀ path turns, path.length ≤ turns →
      vfsResolveTurns s turns path cwd = some (vfsResolve s path cwd)) ∧
    (∀ path, nonNull (vfsResolve s path cwd) =
      (components path).foldlM (componentStep s kids) (startOf s path cwd)) ∧
    ∀ a b, a ≠ [] → nonNull (vfsResolve s (a ++ slash :: b) cwd) =
      (nonNull (vfsResolve s a cwd)).bind fun m => nonNull (vfsResolve s (vfsSkipSlashes b) m) := by
  refine ⟨fun path turns h => (hs.resolve_spec hcwd path h).1, hs.nonNull_resolve hcwd,
    fun a b ha => ?_⟩
  have hstart : startOf s (a ++ slash :: b) cwd = startOf s a cwd := by
    rw [startOf, startOf, head?_append_of_ne_nil _ ha]
  rw [hs.nonNull_resolve hcwd, hs.nonNull_resolve hcwd, hstart, components_append_slash, follow_append]
  refine Option.bind_congr fun m hm => ?_
  have hin := hs.follow_inTree (startOf_inTree hcwd a) (fun _ => ne_nil_of_mem_components) hm
  have hfrom : startOf s (vfsSkipSlashes b) m = m := by
    rw [startOf, if_neg (skipSlashes_head b), if_neg (hs.ne_zero hin)]
  rw [hs.nonNull_resolve (Or.inr hin), hfrom, components_skipSlashes]

/-- A tree with the directory `/rw` and the file `/rw/a`. -/
def rwTree : Vfs :=
  run (Vfs.step bumpAllocator) (tarfsPopulateVfs bumpAllocator [] (vfsInit bumpAllocator))
    [.mkdir (ascii "/rw"), .openFile (ascii "/rw/a") vfsOCreat]

lemma rwTree_shape : HasShape PathName rwTree :=
  hasShape_run (by decide) (fun _ h => h) (fun _ h => absurd h not_mem_nil) _

theorem resolve_eq_fold_rw : ∃ kids, Shape PathName rwTree kids ∧
    (components (ascii ".//rw/a/")).foldlM (componentStep rwTree kids)
        (startOf rwTree (ascii ".//rw/a/") 0) =
      nonNull (vfsResolve rwTree (ascii ".//rw/a/") 0) ∧
    vfsResolve rwTree (ascii ".//rw/a/") 0 ≠ 0 := by
  obtain ⟨kids, hs⟩ := rwTree_shape
  exact ⟨kids, hs, ((resolve_eq_fold hs (Or.inl rfl)).2.1 _).symm, by decide +kernel⟩

end MyOs
