import MyOs.Lib.Traced
import MyOs.Vfs.Opening

/-!
# The bounds of an archive

What `tarfs_populate_vfs` looks at and what it publishes, for every string of bytes.  The walk over the
headers is written here once more with every byte it inspects recorded (`tarWalk`); it ends, and it inspects
only bytes of the archive, since it looks at a header only if all of it is there.

The size in a header is not compared with what is left of the archive.  A file node takes it as it is, and
`tarfs_read` trusts it.  So all that is published lies in the archive, whatever memory there is and whatever
the tree held before, exactly if no header of a file claims more than what follows it
(`archive_published_inside_iff`).
-/

namespace MyOs

open Lib Vfs List Traced

variable {A : Allocator} {s s' : Vfs} {kids : ℕ → List ℕ} {c d n p : ℕ} {archive : List UInt8}
  {entry : TarEntry}

/-! ## The walk, traced -/

/-- Read a byte of the archive. -/
def readByte (archive : List UInt8) (pos : ℕ) : Traced ℕ UInt8 := ⟨archive.getD pos 0, [pos]⟩

/-- A loop over an array of characters that stops at a zero. -/
def readText (archive : List UInt8) : (len pos : ℕ) → Traced ℕ (List UInt8)
  | 0, _ => pure []
  | len + 1, pos => do
    let c ← readByte archive pos
    if c = 0 then pure []
    else do
      let rest ← readText archive len (pos + 1)
      pure (c :: rest)

/-- The fields of the header at `p`, in the order in which they are read. -/
def readTarEntry (archive : List UInt8) (p : ℕ) : Traced ℕ TarEntry := do
  let size ← readText archive 12 (p + 124)
  let pre ← readText archive 155 (p + 345)
  let text ← readText archive 100 p
  let typeflag ← readByte archive (p + 156)
  let name := joinName pre text
  let tname := if name.take 2 = [dot, slash] then name.drop 2 else name
  let clean := tname.take 255
  pure
    { path := if clean.getLast? = some slash then clean.dropLast else clean
      data := p + 512
      size := parseOctal size
      isDir := typeflag = 53 ∨ tname.getLast? = some slash }

/-- The loop over the headers, watched for a number of turns: `none` if it is still running. -/
def tarWalk (archive : List UInt8) : (turns p : ℕ) → Traced ℕ (Option (List TarEntry))
  | 0, p => if p + 512 ≤ archive.length then pure none else pure (some [])
  | turns + 1, p =>
    if p + 512 ≤ archive.length then do
      let first ← readByte archive p
      if first = 0 then pure (some [])
      else do
        let entry ← readTarEntry archive p
        let rest ← tarWalk archive turns (p + (512 + alignUpU64 entry.size 512))
        pure (rest.map fun entries => entry :: entries)
    else pure (some [])

/-- The positions from which `tarfs_read` copies. -/
def tarfsReads (file : TarfsFile) (offset len : ℕ) : List ℕ :=
  if offset ≥ file.size then []
  else (List.range (min len (file.size - offset))).map fun j => file.data + offset + j

/-- Every file of the archive in the tree lies in the archive, and so does every byte read from it. -/
def PublishesInside (archive : List UInt8) (s : Vfs) : Prop :=
  ∀ n, s.Reachable n → ∀ addr file, (s.node n).data = .tarfs addr file →
    file.data + file.size ≤ archive.length ∧
      ∀ offset len, ∀ pos ∈ tarfsReads file offset len, pos < archive.length

/-- No header of a file claims more than what follows it. -/
def SizesInside (archive : List UInt8) : Prop :=
  ∀ entry ∈ tarEntries archive, entry.isDir = false → entry.path ≠ [] →
    entry.data + entry.size ≤ archive.length

/-! ## What is read -/

lemma readByte_inside {pos : ℕ} (h : pos < archive.length) :
    (readByte archive pos).All (· < archive.length) := by
  intro e he
  rw [mem_singleton.mp he]
  exact h

lemma field_succ {pos len : ℕ} (h : pos < archive.length) :
    field archive pos (len + 1) = archive.getD pos 0 :: field archive (pos + 1) len := by
  rw [field, drop_eq_getElem_cons h, take_succ_cons, getD_eq_getElem _ _ h]
  rfl

lemma readText_spec {len pos : ℕ} (h : pos + len ≤ archive.length) :
    (readText archive len pos).val = fieldText archive pos len ∧
      (readText archive len pos).All (· < archive.length) := by
  induction len generalizing pos with
  | zero => simp [readText, fieldText, field]
  | succ len ih =>
    obtain ⟨hval, hall⟩ := ih (show pos + 1 + len ≤ archive.length by omega)
    have hbyte := readByte_inside (show pos < archive.length by omega)
    rw [readText, fieldText, field_succ (show pos < archive.length by omega)]
    simp only [val_bind, all_bind, val_ite, all_ite, val_pure, hval, and_iff_right hbyte]
    rw [show (readByte archive pos).val = archive.getD pos 0 from rfl]
    generalize archive.getD pos 0 = b
    by_cases hzero : b = 0
    · simp [hzero]
    · simp [hzero, hall, fieldText]

lemma field_field {off len : ℕ} (h : off + len ≤ 512) (archive : List UInt8) (p : ℕ) :
    field (field archive p 512) off len = field archive (p + off) len := by
  rw [field, field, field, drop_take, take_take, drop_drop, Nat.min_eq_left (by omega)]

lemma parseOctal_takeWhile (text : List UInt8) :
    parseOctal (text.takeWhile (· != 0)) = parseOctal text := by
  rw [parseOctal, parseOctal, takeWhile_idem]

lemma readTarEntry_spec (h : p + 512 ≤ archive.length) :
    (readTarEntry archive p).val = tarEntry archive p ∧ (readTarEntry archive p).All (· < archive.length) := by
  obtain ⟨hsize, hsizes⟩ := readText_spec (show p + 124 + 12 ≤ archive.length by omega)
  obtain ⟨hpre, hpres⟩ := readText_spec (show p + 345 + 155 ≤ archive.length by omega)
  obtain ⟨hname, hnames⟩ := readText_spec (show p + 100 ≤ archive.length by omega)
  have hflags := readByte_inside (show p + 156 < archive.length by omega)
  have htype : field (field archive p 512) 156 1 = [(readByte archive (p + 156)).val] := by
    rw [field_field (by decide), field_succ (by omega)]
    simp [field, readByte]
  constructor
  · simp only [readTarEntry, val_bind, val_pure, hsize, hpre, hname, tarEntry, htype,
      fieldText, field_field (show 345 + 155 ≤ 512 by decide), field_field (show 0 + 100 ≤ 512 by decide),
      field_field (show 124 + 12 ≤ 512 by decide), parseOctal_takeWhile, Nat.add_zero,
      cons.injEq, and_true]
  · simp only [readTarEntry, all_bind]
    exact ⟨hsizes, hpres, hnames, hflags, all_pure _⟩

/-- **The walk ends**, with the entries of the archive, and stays within it. -/
lemma tarWalk_spec {turns fuel : ℕ} (hturns : archive.length ≤ p + turns)
    (hfuel : archive.length ≤ p + fuel) :
    (tarWalk archive turns p).val = some (tarEntriesFrom archive fuel p) ∧
      (tarWalk archive turns p).All (· < archive.length) := by
  have hend : ∀ {q : ℕ} (k : ℕ), ¬ q + 512 ≤ archive.length → tarEntriesFrom archive k q = [] := by
    intro q k hq
    cases k with
    | zero => rfl
    | succ k => exact if_neg hq
  induction turns generalizing fuel p with
  | zero =>
    have hout : ¬ p + 512 ≤ archive.length := by omega
    rw [tarWalk, if_neg hout, hend fuel hout]
    exact ⟨rfl, all_pure _⟩
  | succ turns ih =>
    rw [tarWalk]
    by_cases hin : p + 512 ≤ archive.length
    case neg =>
      rw [if_neg hin, hend fuel hin]
      exact ⟨rfl, all_pure _⟩
    obtain ⟨fuel, rfl⟩ : ∃ k, fuel = k + 1 := ⟨fuel - 1, by omega⟩
    have hbyte := readByte_inside (show p < archive.length by omega)
    have hfirst : (archive.drop p).head? = some (readByte archive p).val := by
      rw [head?_drop, getElem?_eq_getElem (by omega), readByte, getD_eq_getElem]
    obtain ⟨hentry, hfields⟩ := readTarEntry_spec hin
    rw [if_pos hin, tarEntriesFrom, if_pos hin, hfirst]
    simp only [val_bind, all_bind, val_ite, all_ite, and_iff_right hbyte,
      Option.some.injEq, hentry, and_iff_right hfields]
    by_cases hzero : (readByte archive p).val = 0
    · simp only [hzero, if_true]
      exact ⟨rfl, all_pure _⟩
    · have hrest := ih (p := p + (512 + alignUpU64 (tarEntry archive p).size 512))
        (by omega) (show archive.length ≤ _ + fuel by omega)
      simp only [hzero, if_false, hrest.1, val_pure, Option.map_some, true_and]
      exact ⟨hrest.2, all_pure _⟩

/-! ## The entries -/

lemma mem_tarEntriesFrom {fuel : ℕ} (h : entry ∈ tarEntriesFrom archive fuel p) :
    ∃ q, q + 512 ≤ archive.length ∧ entry = tarEntry archive q := by
  induction fuel generalizing p with
  | zero => cases h
  | succ fuel ih =>
    rw [tarEntriesFrom] at h
    split_ifs at h with hin hzero
    · cases h
    · rcases mem_cons.mp h with rfl | h
      · exact ⟨p, hin, rfl⟩
      · exact ih h
    · cases h

lemma parseOctal_lt (text : List UInt8) {len : ℕ} (hlen : text.length ≤ len) :
    parseOctal text < 8 ^ len := by
  have hloop : ∀ (cs : List UInt8) (v k : ℕ), v < 8 ^ k → k + cs.length ≤ len →
      cs.foldl (fun v c => if c < 48 ∨ c > 55 then v else (v * 8 + (c.toNat - 48)) % 2 ^ 64) v
        < 8 ^ len := by
    intro cs
    induction cs with
    | nil => exact fun v k hv hk => hv.trans_le (Nat.pow_le_pow_right (by decide) hk)
    | cons c cs ih =>
      intro v k hv hk
      rw [length_cons] at hk
      have hpow : 8 ^ k ≤ 8 ^ (k + 1) := Nat.pow_le_pow_right (by decide) (Nat.le_succ k)
      refine ih _ (k + 1) ?_ (by omega)
      dsimp only
      split_ifs with hdigit
      · omega
      · have hc : c.toNat ≤ 55 :=
          UInt8.le_iff_toNat_le.mp (UInt8.not_lt.mp (not_or.mp hdigit).2)
        have hle := Nat.mod_le (v * 8 + (c.toNat - 48)) (2 ^ 64)
        rw [pow_succ]
        omega
  rw [parseOctal]
  refine hloop _ 0 0 (by decide) ?_
  have := (takeWhile_sublist (l := text) (· != 0)).length_le
  omega

lemma length_copyName_le (name rest : List UInt8) (h : name.length ≤ 255) :
    (copyName name rest).length ≤ 255 := by
  induction rest generalizing name with
  | nil => exact h
  | cons c rest ih =>
    rw [copyName]
    split_ifs with hroom
    · refine ih _ ?_
      rw [length_append, length_singleton]
      omega
    · exact h

lemma length_joinName_le (pre rest : List UInt8) : (joinName pre rest).length ≤ 255 := by
  simp only [joinName]
  have hfirst := length_copyName_le [] pre (by simp)
  refine length_copyName_le _ _ ?_
  split_ifs
  · rw [length_append, length_singleton]
    omega
  · exact hfirst
  · exact hfirst

lemma tarEntry_spec (archive : List UInt8) (p : ℕ) :
    (tarEntry archive p).data = p + 512 ∧ (tarEntry archive p).size < 2 ^ 36 ∧
      (tarEntry archive p).path.length ≤ 255 ∧
      ((tarEntry archive p).isDir = false → (tarEntry archive p).path.getLast? ≠ some slash) := by
  have hname := length_joinName_le (fieldText (field archive p 512) 345 155)
    (fieldText (field archive p 512) 0 100)
  have hsize : (field (field archive p 512) 124 12).length ≤ 12 := length_take_le _ _
  refine ⟨rfl, parseOctal_lt _ hsize, ?_, ?_⟩
  · have hclean : ∀ tname : List UInt8, (if (tname.take 255).getLast? = some slash then
        (tname.take 255).dropLast else tname.take 255).length ≤ 255 := by
      intro tname
      have hlen : (tname.take 255).length ≤ 255 := length_take_le _ _
      split_ifs
      · rw [length_dropLast]
        omega
      · exact hlen
    exact hclean _
  · simp only [tarEntry, decide_eq_false_iff_not, not_or]
    generalize joinName _ _ = name at hname
    rintro ⟨-, hlast⟩
    have hwhole : (if name.take 2 = [dot, slash] then name.drop 2 else name).take 255 =
        if name.take 2 = [dot, slash] then name.drop 2 else name := by
      refine take_of_length_le ?_
      split_ifs
      · rw [length_drop]
        omega
      · exact hname
    rw [hwhole, if_neg hlast]
    exact hlast

/-! ## What the nodes hold -/

/-- What all nodes hold has a property. -/
def Vfs.AllData (P : NodeData → Prop) (s : Vfs) : Prop := ∀ n, P (s.node n).data

namespace Vfs.AllData

variable {P : NodeData → Prop}
variable (h : AllData P s)
include h

lemma kfree (ptr : KPtr) : AllData P (s.kfree ptr) := by
  intro n
  rw [(Shape.kfree_eq s ptr).1]
  exact h n

lemma createNode {name : List UInt8} {type : NodeType} {ops : NodeOps} {data : NodeData}
    (hdata : P data) : AllData P (vfsCreateNode A s name type ops data).2 := by
  simp only [vfsCreateNode]
  split_ifs
  · exact h
  · exact kfree (s := ((s.kmalloc A).2.kmalloc A).2) h _
  · intro n
    dsimp only
    by_cases hn : n = (s.kmalloc A).1
    · rw [hn, modify_self]
      exact hdata
    · rw [modify_of_ne _ hn]
      exact h n

lemma attach (d c : ℕ) : AllData P (s.attach d c) := by
  intro n
  rw [show ((s.attach d c).node n).data = (s.node n).data from congrArg (·.2.2.2) (identity_attach s d c n)]
  exact h n

lemma addChild (hadd : vfsAddChild s d c = some s') : AllData P s' := by
  simp only [vfsAddChild] at hadd
  split_ifs at hadd
  cases hadd
  exact h.attach d c

lemma addChild_getD : AllData P ((vfsAddChild s d c).getD s) := by
  cases hadd : vfsAddChild s d c with
  | none => exact h
  | some s' => exact h.addChild hadd

lemma addLeaf (hnull : P .null)
    (hfile : entry.isDir = false → ∀ addr, P (.tarfs addr ⟨entry.data, entry.size⟩)) (name : List UInt8) :
    AllData P (tarfsAddLeaf A s d name entry) := by
  rw [tarfsAddLeaf]
  split_ifs with hfind hdir
  · exact h
  · dsimp only
    split_ifs
    · exact h.createNode hnull
    · exact (h.createNode hnull).addChild_getD
  · have hdata := hfile (by simpa using hdir)
    have hmade : AllData P (vfsCreateNode A (s.kmalloc A).2 name .file .tarfsFile
        (.tarfs (s.kmalloc A).1 ⟨entry.data, entry.size⟩)).2 :=
      createNode (s := (s.kmalloc A).2) h (hdata _)
    dsimp only
    generalize vfsCreateNode A (s.kmalloc A).2 name .file .tarfsFile _ = made at hmade ⊢
    split_ifs
    · exact h
    · exact hmade.kfree _
    · refine addChild_getD fun n => ?_
      have hkept := modify_field (f := fun v => { v with size := entry.size }) VfsNode.data
        (fun _ => rfl) made.2 made.1 n
      rw [hkept]
      exact hmade n

lemma addLoop (hnull : P .null)
    (hfile : entry.isDir = false → ∀ addr, P (.tarfs addr ⟨entry.data, entry.size⟩)) (fuel : ℕ)
    (path : List UInt8) : AllData P (tarfsAddLoop A entry fuel s n path) := by
  fun_induction tarfsAddLoop A entry fuel s n path
  case case1 | case2 | case3 => exact h
  case case4 => exact h.addLeaf hnull hfile _
  case case5 ih => exact ih h
  case case6 | case7 => exact h.createNode hnull
  case case8 hadd ih => exact ih ((h.createNode hnull).addChild hadd)

lemma populate (hnull : P .null)
    (hfile : ∀ entry ∈ tarEntries archive, entry.isDir = false → entry.path ≠ [] →
      ∀ addr, P (.tarfs addr ⟨entry.data, entry.size⟩)) : AllData P (tarfsPopulateVfs A archive s) := by
  rw [tarfsPopulateVfs]
  split_ifs with hroot
  · exact h
  clear hroot
  generalize tarEntries archive = entries at hfile
  induction entries generalizing s with
  | nil => exact h
  | cons entry entries ih =>
    refine ih ?_ fun e he => hfile e (mem_cons_of_mem _ he)
    rw [tarfsAddEntry]
    split_ifs with hskip
    · exact h
    · exact h.addLoop hnull (fun hdir => hfile entry mem_cons_self hdir (not_or.mp hskip).2) _ _

end Vfs.AllData

/-! ## Without memory -/

lemma kmalloc_failed (h : A.addr s.calls s.live = 0) :
    s.kmalloc A = (0, { s with calls := s.calls + 1 }) := by
  simp only [Vfs.kmalloc, h, if_true]

lemma createNode_failed (h : A.addr s.calls s.live = 0) (name : List UInt8) (type : NodeType)
    (ops : NodeOps) (data : NodeData) :
    vfsCreateNode A s name type ops data = (0, { s with calls := s.calls + 1 }) := by
  simp only [vfsCreateNode, kmalloc_failed h, if_true]

/-- The allocator is not asked, or a first answer that there is no memory is the end. -/
def Fails (f : Allocator → Vfs) (s : Vfs) : Prop :=
  (∀ A, f A = s) ∨ ∀ A : Allocator, A.addr s.calls s.live = 0 → f A = { s with calls := s.calls + 1 }

lemma addLoop_failed (entry : TarEntry) (fuel : ℕ) (s : Vfs) (n : ℕ) (path : List UInt8) :
    Fails (tarfsAddLoop · entry fuel s n path) s := by
  induction fuel generalizing n path with
  | zero => exact Or.inl fun A => rfl
  | succ fuel ih =>
    simp only [tarfsAddLoop]
    split_ifs with hnil hlong hfind
    · exact Or.inl fun A => rfl
    · exact Or.inl fun A => rfl
    · cases path.dropWhile (· != slash) with
      | nil => exact Or.inl fun A => if_pos hfind
      | cons sep rest => exact ih _ rest
    · refine Or.inr fun A hA => ?_
      cases path.dropWhile (· != slash) with
      | nil => simp [tarfsAddLeaf, hfind, createNode_failed hA, kmalloc_failed hA]
      | cons sep rest => simp [createNode_failed hA]

lemma foldl_addEntry_failed (entries : List TarEntry) (s : Vfs) :
    ∃ calls, s.calls ≤ calls ∧ ∀ A : Allocator,
      (∀ k, s.calls ≤ k → k < calls → A.addr k s.live = 0) →
        entries.foldl (tarfsAddEntry A) s = { s with calls := calls } := by
  induction entries generalizing s with
  | nil => exact ⟨s.calls, le_rfl, fun A _ => rfl⟩
  | cons entry entries ih =>
    have hentry : Fails (tarfsAddEntry · s entry) s := by
      simp only [tarfsAddEntry]
      split_ifs with hskip
      · exact Or.inl fun A => rfl
      · exact addLoop_failed entry _ s s.root entry.path
    simp only [Fails] at hentry
    rcases hentry with hnone | hfail
    · obtain ⟨calls, hle, hrest⟩ := ih s
      refine ⟨calls, hle, fun A hA => ?_⟩
      rw [foldl_cons, hnone A]
      exact hrest A hA
    · obtain ⟨calls, hle, hrest⟩ := ih { s with calls := s.calls + 1 }
      refine ⟨calls, (Nat.le_succ _).trans hle, fun A hA => ?_⟩
      rw [foldl_cons, hfail A (hA s.calls le_rfl hle)]
      exact hrest A fun k hk => hA k ((Nat.le_succ _).trans hk)

/-! ## What stays in the tree -/

/-- What was reachable still is, and holds what it held. -/
structure Vfs.Keeps (s s' : Vfs) : Prop where
  reach : ∀ n, s.Reachable n → s'.Reachable n
  data : ∀ n, s.Reachable n → (s'.node n).data = (s.node n).data

namespace Vfs.Keeps

lemma refl (s : Vfs) : Keeps s s := ⟨fun _ h => h, fun _ _ => rfl⟩

lemma trans {u : Vfs} (h : Keeps s s') (h' : Keeps s' u) : Keeps s u :=
  ⟨fun n hn => h'.reach n (h.reach n hn), fun n hn => (h'.data n (h.reach n hn)).trans (h.data n hn)⟩

end Vfs.Keeps

namespace Vfs.Shape

variable {ok : List UInt8 → Prop}

section

variable (hs : Shape ok s kids)
include hs

lemma keeps_sameTree (h : SameTree kids s s') : Keeps s s' := by
  refine ⟨fun n hn => ?_, fun n hn => by rw [h.node n (hs.reachable hn).1]⟩
  induction hn with
  | root => exact h.root ▸ .root
  | @children m hm hne ih =>
    have hnode := h.node m (hs.reachable hm).1
    rw [← hnode] at hne ⊢
    exact .children ih hne
  | @next m hm hne ih =>
    have hnode := h.node m (hs.reachable hm).1
    rw [← hnode] at hne ⊢
    exact .next ih hne

lemma keeps_attach (hc : Loose s kids c) (hnull : c ≠ 0) : Keeps s (s.attach d c) := by
  have hne : ∀ {m : ℕ}, s.Reachable m → m ≠ c := fun hm h => hc.out (h ▸ (hs.reachable hm).1)
  refine ⟨fun n hn => ?_, fun n _ => congrArg (·.2.2.2) (identity_attach s d c n)⟩
  induction hn with
  | root => exact .root
  | @children m hm hchildren ih =>
    by_cases hmd : m = d
    · subst hmd
      have hfirst : ((s.attach m c).node m).children = c := by rw [Vfs.attach, modify_self]
      have hnext : ((s.attach m c).node c).next = (s.node m).children := by
        rw [Vfs.attach, modify_of_ne _ (hne hm).symm, modify_self]
      have hreach := Reachable.children ih (by rw [hfirst]; exact hnull)
      rw [hfirst] at hreach
      exact hnext ▸ .next hreach (by rw [hnext]; exact hchildren)
    · rw [← attach_children (c := c) s hmd] at hchildren ⊢
      exact .children ih hchildren
  | @next m hm hnext ih =>
    have hsame : ((s.attach d c).node m).next = (s.node m).next := attach_next s (hne hm)
    rw [← hsame] at hnext ⊢
    exact .next ih hnext

lemma reachable_attach (hc : Loose s kids c) (hnull : c ≠ 0) (hd : s.Reachable d) :
    (s.attach d c).Reachable c := by
  have hfirst : ((s.attach d c).node d).children = c := by rw [Vfs.attach, modify_self]
  have hreach := Reachable.children ((hs.keeps_attach hc hnull).reach d hd) (by rw [hfirst]; exact hnull)
  rwa [hfirst] at hreach

lemma keeps_addChild (hc : Loose s kids c) (hadd : vfsAddChild s d c = some s') : Keeps s s' := by
  simp only [vfsAddChild] at hadd
  split_ifs at hadd with hnull
  cases hadd
  exact hs.keeps_attach hc (not_or.mp (not_or.mp hnull).2).1

lemma keeps_addChild_getD (hc : Loose s kids c) : Keeps s ((vfsAddChild s d c).getD s) := by
  cases hadd : vfsAddChild s d c with
  | none => exact Keeps.refl s
  | some s' => exact hs.keeps_addChild hc hadd

lemma loose_size (hc : Loose s kids c) (size : ℕ) :
    Shape ok (s.modify c fun v => { v with size := size }) kids ∧
      Loose (s.modify c fun v => { v with size := size }) kids c := by
  set u := s.modify c fun v => { v with size := size } with hu
  have hsame : SameTree kids s u := sameTree_modify hc.out _
  have hfrees : u.frees c = s.frees c :=
    frees_congr (modify_field (f := fun v => { v with size := size }) identity (fun _ => rfl) s c c)
  have howns : ∀ p, u.Owns c p ↔ s.Owns c p := fun p => by rw [Owns, Owns, hfrees]
  refine ⟨hs.frame hsame hs.live hs.null, fun h => hc.out (hsame.inTree.mp h), ?_,
    fun p hp => hc.live p ((howns p).mp hp), fun p hp => hsame.unowned (hc.unowned p ((howns p).mp hp))⟩
  rw [hu, modify_self]
  exact hc.children

lemma keeps_addLeaf (name : List UInt8) (entry : TarEntry) :
    Keeps s (tarfsAddLeaf A s d name entry) := by
  rw [tarfsAddLeaf]
  split_ifs with hfind hdir
  · exact Keeps.refl s
  · generalize hr : vfsCreateNode A s name .dir .tarfsDir .null = r
    obtain ⟨hs', hsame, hloose⟩ := hs.createNode (by simp [NodeData.frees]) hr
    dsimp only
    split_ifs with hnull
    · exact hs.keeps_sameTree hsame
    · exact (hs.keeps_sameTree hsame).trans (hs'.keeps_addChild_getD (hloose hnull).1)
  · have hmalloc := sameTree_kmalloc A s kids
    dsimp only
    split_ifs with hfile hnull
    · exact hs.keeps_sameTree hmalloc
    all_goals
      generalize hr : vfsCreateNode A (s.kmalloc A).2 name .file .tarfsFile
        (.tarfs (s.kmalloc A).1 ⟨entry.data, entry.size⟩) = r at hnull ⊢
      obtain ⟨hs', hsame, hloose⟩ := (hs.kmalloc A).createNode
        (hs.record_unowned hfile (by simp [NodeData.frees])) hr
      have hkept := hmalloc.trans hsame
    · exact hs.keeps_sameTree (hkept.trans (sameTree_kfree _ _ kids))
    · obtain ⟨hs'', hloose'⟩ := hs'.loose_size (hloose hnull).1 entry.size
      refine (hs.keeps_sameTree (hkept.trans ?_)).trans (hs''.keeps_addChild_getD hloose')
      exact sameTree_modify (hloose hnull).1.out _

end

lemma keeps_addLoop (hs : Shape (fun _ => True) s kids) (hn : s.InTree kids n) (entry : TarEntry) (fuel : ℕ)
    (path : List UInt8) : Keeps s (tarfsAddLoop A entry fuel s n path) := by
  fun_induction tarfsAddLoop A entry fuel s n path generalizing kids
  case case1 | case2 | case3 => exact Keeps.refl _
  case case4 => exact hs.keeps_addLeaf _ entry
  case case5 hfind ih => exact ih hs (InTree.of_mem (hs.findChild_mem hn hfind))
  case case6 | case7 => exact hs.keeps_sameTree (hs.newPlain rfl).2.1
  case case8 made hnull _ hadd ih =>
    obtain ⟨hs', hsame, hgrown, hnew⟩ := hs.newPlain (r := made) rfl
    obtain ⟨hfresh, -⟩ := hnew hnull
    obtain ⟨kids', hs'', -, hc⟩ := addChild hgrown hs' (hsame.inTree.mpr hn) hfresh trivial hadd
    exact ((hs.keeps_sameTree hsame).trans (hs'.keeps_addChild hfresh.toLoose hadd)).trans (ih hs'' hc)

lemma keeps_entries (hs : Shape (fun _ => True) s kids) (entries : List TarEntry) :
    Keeps s (entries.foldl (tarfsAddEntry A) s) := by
  induction entries generalizing s kids with
  | nil => exact Keeps.refl s
  | cons entry entries ih =>
    obtain ⟨kids', hs', -⟩ := hs.addEntry A fun part (_ : part ∈ entryParts entry.path) _ _ => trivial
    refine Keeps.trans ?_ (ih hs')
    rw [tarfsAddEntry]
    split_ifs
    · exact Keeps.refl s
    · exact hs.keeps_addLoop (root_inTree s kids) entry _ _

end Vfs.Shape

/-! ## Publishing a file -/

lemma kmallocs_calls (A : Allocator) (s : Vfs) (k : ℕ) : (s.kmallocs A k).calls = s.calls + k := by
  induction k with
  | zero => rfl
  | succ k ih => exact (congrArg (· + 1) ih).trans (Nat.add_assoc _ _ _)

section Memory

variable {calls : ℕ} (hA : ∀ k live, calls ≤ k → A.addr k live ≠ 0)

include hA

lemma grants_of_calls (h : calls ≤ s.calls) (k : ℕ) : s.Grants A k := by
  refine hA _ _ ?_
  rw [kmallocs_calls]
  omega

section

variable (hs : Shape (fun _ => True) s kids) (hd : s.Reachable d) (hdir : (s.node d).type = .dir)
  (hkids : kids d = []) (hcalls : calls ≤ s.calls) (hfile : entry.isDir = false)
include hs hd hdir hkids hcalls hfile

lemma addLeaf_publishes {name : List UInt8} : ∃ c addr, (tarfsAddLeaf A s d name entry).Reachable c ∧
      ((tarfsAddLeaf A s d name entry).node c).data = .tarfs addr ⟨entry.data, entry.size⟩ := by
  have hin := (hs.reachable hd).1
  have hfind : vfsFindChild s d name = 0 := by
    rw [hs.findChild_eq hin, hkids]
    rfl
  have h0 : (s.kmalloc A).1 ≠ 0 := grants_of_calls hA hcalls 0
  have h1 : (s.kmalloc A).2.Grants A 0 := grants_of_calls hA hcalls 1
  have h2 : (s.kmalloc A).2.Grants A 1 := grants_of_calls hA hcalls 2
  generalize hr : vfsCreateNode A (s.kmalloc A).2 name .file .tarfsFile
    (.tarfs (s.kmalloc A).1 ⟨entry.data, entry.size⟩) = r
  obtain ⟨hs1, hsame, hloose⟩ := (hs.kmalloc A).createNode
    (hs.record_unowned h0 (by simp [NodeData.frees])) hr
  have heq := hr.symm.trans (Shape.createNode_eq h1 h2)
  have hnull : r.1 ≠ 0 := by
    rw [heq]
    exact h1
  have hdata : (r.2.node r.1).data = .tarfs (s.kmalloc A).1 ⟨entry.data, entry.size⟩ := by
    rw [heq]
    dsimp only
    rw [modify_self]
  obtain ⟨hs2, hloose2⟩ := hs1.loose_size (hloose hnull).1 entry.size
  set u := r.2.modify r.1 fun v => { v with size := entry.size } with hu
  have hkept : SameTree kids s u :=
    ((Shape.sameTree_kmalloc A s kids).trans hsame).trans (Shape.sameTree_modify (hloose hnull).1.out _)
  obtain ⟨hadd, -⟩ := hs2.addChild_new hkept hloose2 hnull rfl trivial hin hdir (by simp [hkids])
  have hleaf : tarfsAddLeaf A s d name entry = u.attach d r.1 := by
    rw [tarfsAddLeaf, if_neg (not_not.mpr hfind), if_neg (by simp [hfile])]
    refine (if_neg h0).trans ?_
    rw [hr]
    refine (if_neg hnull).trans ?_
    dsimp only
    rw [← hu, hadd]
    rfl
  rw [hleaf]
  refine ⟨r.1, (s.kmalloc A).1, hs2.reachable_attach hloose2 hnull ?_, ?_⟩
  · exact (hs.keeps_sameTree hkept).reach d hd
  · have hsize := modify_field (f := fun v => { v with size := entry.size }) VfsNode.data (fun _ => rfl)
      r.2 r.1 r.1
    exact (congrArg (·.2.2.2) (identity_attach u d r.1 r.1)).trans (hsize.trans hdata)

lemma addLoop_publishes {path : List UInt8} {fuel : ℕ} (hne : path ≠ [])
    (hlast : path.getLast? ≠ some slash) (hlen : path.length ≤ vfsNameMax) (hfuel : path.length ≤ fuel) :
    ∃ c addr, (tarfsAddLoop A entry fuel s d path).Reachable c ∧
      ((tarfsAddLoop A entry fuel s d path).node c).data = .tarfs addr ⟨entry.data, entry.size⟩ := by
  induction fuel generalizing s kids d path with
  | zero => exact absurd (length_eq_zero_iff.mp (Nat.le_zero.mp hfuel)) hne
  | succ fuel ih =>
    have hsplit := takeWhile_append_dropWhile (p := (· != slash)) (l := path)
    have hlengths := congrArg length hsplit
    rw [length_append] at hlengths
    have hlong : ¬ (path.takeWhile (· != slash)).length > vfsNameMax := by omega
    rw [tarfsAddLoop, if_neg hne]
    dsimp only
    rw [if_neg hlong]
    cases hdrop : path.dropWhile (· != slash) with
    | nil =>
      exact addLeaf_publishes hA hs hd hdir hkids hcalls hfile
    | cons sep rest =>
      have hin := (hs.reachable hd).1
      have hfind : vfsFindChild s d (path.takeWhile (· != slash)) = 0 := by
        rw [hs.findChild_eq hin, hkids]
        rfl
      -- the directory is made
      have h0 : s.Grants A 0 := grants_of_calls hA hcalls 0
      have h1 : s.Grants A 1 := grants_of_calls hA hcalls 1
      generalize hr : vfsCreateNode A s (path.takeWhile (· != slash)) .dir .tarfsDir .null = made
      obtain ⟨hs1, hsame, hloose⟩ := hs.createNode (by simp [NodeData.frees]) hr
      have heq := hr.symm.trans (Shape.createNode_eq h0 h1)
      have hnull : made.1 ≠ 0 := by
        rw [heq]
        exact h0
      obtain ⟨hloose, -⟩ := hloose hnull
      have htype : (made.2.node made.1).type = .dir := by
        rw [heq]
        dsimp only
        rw [modify_self]
      have hcalls1 : calls ≤ made.2.calls := by
        rw [heq]
        show calls ≤ (s.kmallocs A 2).calls
        rw [kmallocs_calls]
        omega
      obtain ⟨hadd, hs2⟩ :=
        hs1.addChild_new hsame hloose hnull rfl trivial hin hdir (by simp [hkids])
      dsimp only
      rw [if_neg (not_not.mpr hfind), if_neg hnull, hadd]
      -- and is empty
      have hcd : made.1 ≠ d := fun h => hloose.out (h ▸ hsame.inTree.mpr hin)
      have hempty : Function.update kids d (made.1 :: kids d) made.1 = [] := by
        rw [Function.update_of_ne hcd, hs1.kids_eq_nil hloose.out]
      have hrest : rest.getLast? ≠ some slash ∧ rest ≠ [] := by
        have hsep : sep = slash := by simpa [hdrop] using head?_dropWhile_not (· != slash) path
        rw [hdrop, hsep] at hsplit
        have hnil : rest ≠ [] := by
          rintro rfl
          rw [← hsplit, getLast?_concat] at hlast
          exact hlast rfl
        refine ⟨?_, hnil⟩
        rwa [← hsplit, getLast?_append_of_ne_nil _ (cons_ne_nil _ _),
          getLast?_cons_of_ne_nil hnil] at hlast
      rw [hdrop, length_cons] at hlengths
      refine ih hs2
        (hs1.reachable_attach hloose hnull ((hs.keeps_sameTree hsame).reach d hd)) ?_ hempty hcalls1
        hrest.2 hrest.1 (by omega) (by omega)
      exact (congrArg (·.2.2.1) (identity_attach made.2 d made.1 made.1)).trans htype

end

end Memory

/-- An allocator that has memory from a certain call on. -/
def memoryFrom (calls : ℕ) : Allocator where
  addr k live := if k < calls ∧ 0 ∉ live then 0 else bumpAllocator.addr k live
  fresh k live := by
    split_ifs with h
    · exact h.2
    · exact bumpAllocator.fresh k live

/-! ## Main result -/

deriving instance DecidableEq for MemfsFile, TarfsFile, NodeData

/-- No node holds a file of an archive. -/
def Vfs.NoArchive (s : Vfs) : Prop := AllData (fun data => ∀ addr file, data ≠ .tarfs addr file) s

lemma noArchive_init (A : Allocator) : (vfsInit A).NoArchive := by
  have hempty : vfsEmpty.NoArchive := fun _ _ _ => NodeData.noConfusion
  have hroot : (vfsCreateNode A vfsEmpty [] .dir .memfsDir .null).2.NoArchive :=
    hempty.createNode fun _ _ => NodeData.noConfusion
  exact hroot

lemma publishesInside_of_sizes (h : SizesInside archive) (hs : s.NoArchive) :
    PublishesInside archive (tarfsPopulateVfs A archive s) := by
  have hdata : AllData (fun data => ∀ addr file, data = .tarfs addr file →
      file.data + file.size ≤ archive.length) (tarfsPopulateVfs A archive s) := by
    refine AllData.populate (fun n addr file heq => absurd heq (hs n addr file)) ?_ ?_
    · exact fun _ _ heq => NodeData.noConfusion heq
    · rintro entry hentry hdir hpath addr _ _ ⟨⟩
      exact h entry hentry hdir hpath
  intro n _ addr file heq
  have hle := hdata n addr file heq
  refine ⟨hle, fun offset len pos hpos => ?_⟩
  rw [tarfsReads] at hpos
  split_ifs at hpos with hend
  · cases hpos
  · obtain ⟨j, hj, rfl⟩ := mem_map.mp hpos
    have := mem_range.mp hj
    omega

/-- A file can be published: there is no memory for the entries before it, and enough from then on. -/
lemma exists_published (hentry : entry ∈ tarEntries archive) (hdir : entry.isDir = false)
    (hpath : entry.path ≠ []) :
    ∃ A s n addr, s.NoArchive ∧ (tarfsPopulateVfs A archive s).Reachable n ∧
      ((tarfsPopulateVfs A archive s).node n).data = .tarfs addr ⟨entry.data, entry.size⟩ := by
  obtain ⟨p, -, hp⟩ := mem_tarEntriesFrom hentry
  obtain ⟨-, -, hlen, hlast⟩ := tarEntry_spec archive p
  rw [← hp] at hlen hlast
  obtain ⟨pre, post, hsplit⟩ := append_of_mem hentry
  have hroot : (vfsInit bumpAllocator).root ≠ 0 := by decide
  have hinit : Shape (fun _ => True) (vfsInit bumpAllocator) fun _ => [] := Shape.init _ hroot
  obtain ⟨calls, -, hfail⟩ := foldl_addEntry_failed pre (vfsInit bumpAllocator)
  have hpre : pre.foldl (tarfsAddEntry (memoryFrom calls)) (vfsInit bumpAllocator) =
      { vfsInit bumpAllocator with calls := calls } :=
    hfail _ fun k _ hk => if_pos ⟨hk, hinit.null⟩
  set s : Vfs := { vfsInit bumpAllocator with calls := calls } with hs
  have hshape : Shape (fun _ => True) s fun _ => [] :=
    hinit.frame ⟨rfl, rfl, fun _ _ => rfl⟩ hinit.live hinit.null
  have hmemory : ∀ k live, calls ≤ k → (memoryFrom calls).addr k live ≠ 0 := by
    intro k live hk
    refine (if_neg fun h => absurd h.1 (not_lt.mpr hk)).trans_ne ?_
    exact Nat.succ_ne_zero _
  have hadd : tarfsAddEntry (memoryFrom calls) s entry =
      tarfsAddLoop (memoryFrom calls) entry entry.path.length s s.root entry.path :=
    if_neg (not_or.mpr ⟨hroot, hpath⟩)
  obtain ⟨n, addr, hreach, hdata⟩ := addLoop_publishes hmemory hshape .root hshape.rootDir rfl le_rfl hdir
    hpath (hlast hdir) hlen le_rfl
  rw [← hadd] at hreach hdata
  obtain ⟨kids, hshape', -⟩ := hshape.addEntry (memoryFrom calls)
    fun part (_ : part ∈ entryParts entry.path) _ _ => trivial
  have hkeeps := hshape'.keeps_entries (A := memoryFrom calls) post
  have hpopulate : tarfsPopulateVfs (memoryFrom calls) archive (vfsInit bumpAllocator) =
      post.foldl (tarfsAddEntry (memoryFrom calls)) (tarfsAddEntry (memoryFrom calls) s entry) := by
    rw [tarfsPopulateVfs, if_neg hroot, hsplit, foldl_append, hpre, foldl_cons]
  refine ⟨memoryFrom calls, vfsInit bumpAllocator, n, addr, noArchive_init _, ?_⟩
  rw [hpopulate]
  exact ⟨hkeeps.reach n hreach, (hkeeps.data n hreach).trans hdata⟩

/-- **The bounds of an archive.**  For every string of bytes the walk over the headers ends, inspects only
bytes of the archive and never moves far beyond its end.  What it publishes lies in the archive, for every
allocator and every tree to start with, exactly if no header of a file claims more than what follows it. -/
theorem archive_published_inside_iff (archive : List UInt8) :
    (∀ turns, archive.length ≤ turns →
      (tarWalk archive turns 0).val = some (tarEntries archive) ∧
        (tarWalk archive turns 0).All (· < archive.length)) ∧
    (∀ entry ∈ tarEntries archive, entry.data ≤ archive.length ∧ entry.size < 2 ^ 36) ∧
    ((∀ A s, s.NoArchive → PublishesInside archive (tarfsPopulateVfs A archive s)) ↔
      SizesInside archive) := by
  refine ⟨fun turns hturns => ?_, fun entry hentry => ?_, fun h entry hentry hdir hpath => ?_,
    fun h A s hs => publishesInside_of_sizes h hs⟩
  · exact tarWalk_spec (by rwa [Nat.zero_add]) (by rw [Nat.zero_add])
  · obtain ⟨p, hp, rfl⟩ := mem_tarEntriesFrom hentry
    obtain ⟨hdata, hsize, -⟩ := tarEntry_spec archive p
    exact ⟨by rw [hdata]; exact hp, hsize⟩
  · obtain ⟨A, s, n, addr, hs, hreach, hdata⟩ := exists_published hentry hdir hpath
    exact (h A s hs n hreach addr _ hdata).1

/-- A header for `a` with the size 0777 and nothing behind it. -/
def shortArchive : List UInt8 :=
  ascii "a" ++ List.replicate 123 0 ++ ascii "777" ++ List.replicate 385 0

/-- The file `a` is published with 511 bytes, all of them beyond the end of the archive. -/
theorem short_archive_published_outside :
    shortArchive.length = 512 ∧ ¬ PublishesInside shortArchive
      (tarfsPopulateVfs bumpAllocator shortArchive (vfsInit bumpAllocator)) := by
  refine ⟨by decide +kernel, fun h => ?_⟩
  generalize htree : tarfsPopulateVfs bumpAllocator shortArchive (vfsInit bumpAllocator) = s at h
  have hchild : (s.node s.root).children = 4 := by
    rw [← htree]
    decide +kernel
  have hdata : (s.node 4).data = .tarfs 3 ⟨512, 511⟩ := by
    rw [← htree]
    decide +kernel
  have hreach := Reachable.children (.root (s := s)) (by rw [hchild]; decide)
  rw [hchild] at hreach
  have hle := (h 4 hreach 3 _ hdata).1
  exact absurd hle (by decide +kernel)

end MyOs
