import MyOs.Vfs.Paths

/-!
# Archives and what is read from them

A well-formed archive is a list of entries (`TarItem`), each a header of 512 bytes and a content that is padded
to a multiple of 512 bytes, and what ends it.  The format stores no content for a directory, and leaves its size
field to a limit on the directory; a name is split over two fields of the header, of which each may be empty.

`tarfs_populate_vfs` skips the size of every entry, directory or not, and takes a header with an empty name field
for the end of the archive.  It reads an archive as it was written if no entry has such a size or such a name
(`TarItem.Plain`): `tarEntries_describe`.
-/

namespace MyOs

open List

/-! ## Numbers -/

/-- Octal digits as they are written. -/
def octalDigits (digits : List (Fin 8)) : List UInt8 := digits.map fun d => UInt8.ofNat (48 + d.val)

/-- The number some octal digits stand for. -/
def octalValue (digits : List (Fin 8)) : ℕ := digits.foldl (fun v d => v * 8 + d.val) 0

/-- A number in a field of a header: spaces, its digits, and spaces or zeros up to the end. -/
def IsOctal (text : List UInt8) (v : ℕ) : Prop :=
  ∃ lead digits tail, text = lead ++ octalDigits digits ++ tail ∧ (∀ c ∈ lead, c = 32) ∧
    (∀ c ∈ tail, c = 32 ∨ c = 0) ∧ octalValue digits = v

lemma octalValue_lt (digits : List (Fin 8)) : octalValue digits < 8 ^ digits.length := by
  induction digits using reverseRecOn with
  | nil => simp [octalValue]
  | append_singleton digits d ih =>
    rw [octalValue, foldl_append, length_append, length_singleton, Nat.pow_succ]
    simp only [octalValue] at ih
    simp only [foldl_cons, foldl_nil]
    omega

lemma foldl_octal_skip {text : List UInt8} (h : ∀ c ∈ text, c < 48 ∨ c > 55) (v : ℕ) :
    text.foldl (fun v c => if c < 48 ∨ c > 55 then v else (v * 8 + (c.toNat - 48)) % 2 ^ 64) v = v := by
  induction text with
  | nil => rfl
  | cons c text ih =>
    rw [foldl_cons, if_pos (h c mem_cons_self)]
    exact ih fun c hc => h c (mem_cons_of_mem _ hc)

lemma octalDigit_spec (d : Fin 8) :
    (UInt8.ofNat (48 + d.val) != 0) = true ∧ ¬ (UInt8.ofNat (48 + d.val) < 48 ∨ UInt8.ofNat (48 + d.val) > 55) ∧
      (UInt8.ofNat (48 + d.val)).toNat - 48 = d.val := by
  revert d
  decide

lemma foldl_octalDigits {digits : List (Fin 8)} (h : digits.length ≤ 21) :
    (octalDigits digits).foldl
      (fun v c => if c < 48 ∨ c > 55 then v else (v * 8 + (c.toNat - 48)) % 2 ^ 64) 0 = octalValue digits := by
  induction digits using reverseRecOn with
  | nil => rfl
  | append_singleton digits d ih =>
    rw [length_append, length_singleton] at h
    have hlt := octalValue_lt (digits ++ [d])
    have hpow : 8 ^ (digits ++ [d]).length ≤ 2 ^ 64 := by
      rw [length_append, length_singleton]
      calc 8 ^ (digits.length + 1) ≤ 8 ^ 21 := Nat.pow_le_pow_right (by decide) h
        _ ≤ 2 ^ 64 := by decide
    have hval : octalValue (digits ++ [d]) = octalValue digits * 8 + d.val := by
      rw [octalValue, foldl_append]
      rfl
    obtain ⟨-, hdigit, hnat⟩ := octalDigit_spec d
    rw [octalDigits, map_append, foldl_append]
    rw [octalDigits] at ih
    rw [ih (by omega), map_singleton, foldl_cons, foldl_nil, if_neg hdigit, hnat,
      Nat.mod_eq_of_lt (by omega), hval]

/-- **`parse_octal` reads a number** as it is written in a field. -/
lemma parseOctal_eq {text : List UInt8} {v : ℕ} (h : IsOctal text v) (hlen : text.length ≤ 21) :
    parseOctal text = v := by
  obtain ⟨lead, digits, tail, rfl, hlead, htail, rfl⟩ := h
  rw [length_append, length_append, octalDigits, length_map] at hlen
  have hchars : ∀ c ∈ lead ++ octalDigits digits, (c != 0) = true := by
    intro c hc
    rcases mem_append.mp hc with hc | hc
    · rw [hlead c hc]
      decide
    · obtain ⟨d, -, rfl⟩ := mem_map.mp hc
      exact (octalDigit_spec d).1
  have hrest : ∀ c ∈ tail.takeWhile (· != 0), c < 48 ∨ c > 55 := by
    intro c hc
    rcases htail c ((takeWhile_sublist _).subset hc) with rfl | rfl
    · decide
    · decide
  have hspaces : ∀ c ∈ lead, c < 48 ∨ c > 55 := by
    intro c hc
    rw [hlead c hc]
    decide
  rw [parseOctal, takeWhile_append_of_pos hchars, foldl_append, foldl_append,
    foldl_octal_skip hspaces, foldl_octalDigits (by omega), foldl_octal_skip hrest]

/-! ## Names -/

/-- The name in a header, joined from its two fields. -/
def fullName (header : List UInt8) : List UInt8 :=
  if fieldText header 345 155 = [] then fieldText header 0 100
  else fieldText header 345 155 ++ slash :: fieldText header 0 100

/-- The type in a header is a directory's. -/
def isDirHeader (header : List UInt8) : Bool := field header 156 1 = [53]

/-- A part of a relative path: it has a meaning of its own and no slash. -/
def IsPart (part : List UInt8) : Prop := part ≠ [] ∧ part ≠ [dot] ∧ part ≠ [dot, dot] ∧ slash ∉ part

/-- A name spells a path: its parts, after `./` or nothing, and before a slash or nothing if the name is a
directory's. -/
def Spells (name : List UInt8) (isDir : Bool) (parts : List (List UInt8)) : Prop :=
  ∃ lead trail, name = lead ++ [slash].intercalate parts ++ trail ∧ (lead = [] ∨ lead = [dot, slash]) ∧
    (trail = [] ∨ isDir = true ∧ trail = [slash])

/-- A well-formed entry of an archive: a file or a directory, the path it is for, and its size field.  Nothing
is stored for a directory. -/
structure TarItem where
  header : List UInt8
  content : List UInt8
  padding : List UInt8
  parts : List (List UInt8)
  size : ℕ
  header_length : header.length = 512
  typeflag : field header 156 1 = [48] ∨ field header 156 1 = [0] ∨ field header 156 1 = [53]
  octal : IsOctal (field header 124 12) size
  content_length : content.length = if isDirHeader header then 0 else size
  padding_length : padding.length = (512 - content.length % 512) % 512
  name_length : (fullName header).length ≤ 255
  spelled : Spells (fullName header) (isDirHeader header) parts
  clean : ∀ part ∈ parts, IsPart part
  root : parts = [] → isDirHeader header = true

namespace TarItem

/-- The item is a directory. -/
def isDir (item : TarItem) : Bool := isDirHeader item.header

/-- The bytes of an item in the archive. -/
def bytes (item : TarItem) : List UInt8 := item.header ++ item.content ++ item.padding

/-- No limit is set on a directory, and the name field is used. -/
structure Plain (item : TarItem) : Prop where
  size : item.isDir = true → item.size = 0
  name : item.header.head? ≠ some 0

end TarItem

/-- A well-formed archive: the paths are different, and nothing lies below a file. -/
structure TarArchive where
  items : List TarItem
  trailer : List UInt8
  ended : trailer.length < 512 ∨ trailer.head? = some 0
  distinct : (items.map TarItem.parts).Nodup
  leaves : ∀ file ∈ items, file.isDir = false → ∀ item ∈ items, file.parts <+: item.parts →
    file.parts = item.parts

/-- The bytes of an archive. -/
def TarArchive.bytes (t : TarArchive) : List UInt8 := t.items.flatMap TarItem.bytes ++ t.trailer

/-! ## The name of an entry -/

lemma copyName_eq (name rest : List UInt8) (h : name.length + rest.length ≤ 255) :
    copyName name rest = name ++ rest := by
  induction rest generalizing name with
  | nil => rw [copyName, append_nil]
  | cons c rest ih =>
    rw [length_cons] at h
    rw [copyName, if_pos (by omega), ih, append_assoc, singleton_append]
    rw [length_append, length_singleton]
    omega

lemma joinName_eq {header : List UInt8} (h : (fullName header).length ≤ 255) :
    joinName (fieldText header 345 155) (fieldText header 0 100) = fullName header := by
  rw [fullName] at h ⊢
  generalize fieldText header 345 155 = pre at h ⊢
  generalize fieldText header 0 100 = name at h ⊢
  simp only [joinName]
  by_cases hpre : pre = []
  · rw [if_pos hpre] at h ⊢
    subst hpre
    rw [if_neg (by simp)]
    exact copyName_eq [] name (by simpa using h)
  · rw [if_neg hpre] at h ⊢
    rw [length_append, length_cons] at h
    have hpos : pre.length > 0 := length_pos_iff.mpr hpre
    rw [copyName_eq [] pre (by rw [length_nil]; omega), nil_append, if_pos hpos,
      if_pos (by omega), copyName_eq, append_assoc, singleton_append]
    rw [length_append, length_singleton]
    omega

section Parts

variable {parts : List (List UInt8)}

lemma intercalate_take_two_ne (h : ∀ part ∈ parts, IsPart part) {trail : List UInt8}
    (htrail : trail = [] ∨ trail = [slash]) :
    ([slash].intercalate parts ++ trail).take 2 ≠ [dot, slash] := by
  cases parts with
  | nil =>
    rcases htrail with rfl | rfl
    · decide
    · decide
  | cons part parts =>
    obtain ⟨hnil, hdot, -, hslash⟩ := h part mem_cons_self
    obtain ⟨rest, hpath, -⟩ := intercalate_cons part parts
    rw [hpath]
    intro htake
    match part, hnil with
    | [a], _ =>
      have ha : a = dot := by
        simp only [cons_append, take_succ_cons, cons.injEq] at htake
        exact htake.1
      exact hdot (by rw [ha])
    | a :: b :: part, _ =>
      have hb : b = slash := by
        simp only [cons_append, take_succ_cons, cons.injEq] at htake
        exact htake.2.1
      exact hslash (by simp [hb])

lemma intercalate_ne_nil (h : ∀ part ∈ parts, part ≠ []) (hne : parts ≠ []) :
    [slash].intercalate parts ≠ [] := by
  cases parts with
  | nil => exact absurd rfl hne
  | cons part parts =>
    obtain ⟨rest, hpath, -⟩ := intercalate_cons part parts
    rw [hpath]
    exact append_ne_nil_of_left_ne_nil (h part mem_cons_self) rest

lemma intercalate_getLast_ne (h : ∀ part ∈ parts, IsPart part) :
    ([slash].intercalate parts).getLast? ≠ some slash := by
  induction parts with
  | nil => simp
  | cons part parts ih =>
    have hrest : ∀ x ∈ parts, IsPart x := fun x hx => h x (mem_cons_of_mem _ hx)
    cases parts with
    | nil =>
      rw [intercalate_singleton]
      exact fun hlast => (h part mem_cons_self).2.2.2 (mem_of_getLast? hlast)
    | cons x xs =>
      have hne := intercalate_ne_nil (fun part hpart => (hrest part hpart).1) (cons_ne_nil x xs)
      rw [intercalate_cons_cons, getLast?_append_of_ne_nil _ hne]
      exact ih hrest

/-- What is left of a name when `./` and a last slash are cut off is its path, and only directories have that
slash. -/
lemma Spells.cut {name : List UInt8} {isDir : Bool} (hspell : Spells name isDir parts)
    (h : ∀ part ∈ parts, IsPart part) :
    ∃ trail, (if name.take 2 = [dot, slash] then name.drop 2 else name) = [slash].intercalate parts ++ trail ∧
      (trail = [] ∨ isDir = true ∧ trail = [slash]) := by
  obtain ⟨lead, trail, rfl, hlead, htrail⟩ := hspell
  refine ⟨trail, ?_, htrail⟩
  rcases hlead with rfl | rfl
  · rw [nil_append, if_neg (intercalate_take_two_ne h (htrail.imp id And.right))]
  · rfl

end Parts

/-! ## Reading an archive -/

/-- What `tarfs_populate_vfs` finds out about an entry. -/
structure Describes (archive : List UInt8) (item : TarItem) (entry : TarEntry) : Prop where
  path : entry.path = [slash].intercalate item.parts
  isDir : entry.isDir = item.isDir
  size : item.isDir = false → entry.size = item.content.length
  data : field archive entry.data item.content.length = item.content

lemma field_append (before block after : List UInt8) :
    field (before ++ block ++ after) before.length block.length = block := by
  rw [field, append_assoc, drop_left, take_left]

namespace TarItem

variable {item : TarItem}

lemma content_eq_nil (h : item.isDir = true) : item.content.length = 0 := by
  rw [item.content_length]
  exact if_pos h

lemma Plain.size_eq (h : item.Plain) : item.size = item.content.length := by
  cases hdir : item.isDir with
  | true => rw [h.size hdir, content_eq_nil hdir]
  | false =>
    rw [item.content_length]
    exact (if_neg (by rw [← isDir, hdir]; decide)).symm

lemma parseOctal_size (item : TarItem) : parseOctal (field item.header 124 12) = item.size := by
  refine parseOctal_eq item.octal ((length_take_le _ _).trans ?_)
  decide

/-- The header of an item at its place in the archive, and the content behind it. -/
lemma field_bytes (item : TarItem) (before after : List UInt8) :
    field (before ++ item.bytes ++ after) before.length 512 = item.header ∧
      field (before ++ item.bytes ++ after) (before.length + 512) item.content.length = item.content := by
  constructor
  · have hsplit : before ++ item.bytes ++ after =
        before ++ item.header ++ (item.content ++ item.padding ++ after) := by simp [bytes]
    rw [hsplit, ← item.header_length, field_append]
  · have hsplit : before ++ item.bytes ++ after =
        before ++ item.header ++ item.content ++ (item.padding ++ after) := by simp [bytes]
    rw [hsplit, ← item.header_length, ← length_append, field_append]

/-- **One entry** is read as it was written. -/
lemma describes (item : TarItem) (hplain : item.Plain) (before after : List UInt8) :
    Describes (before ++ item.bytes ++ after) item
      (tarEntry (before ++ item.bytes ++ after) before.length) := by
  obtain ⟨hheader, hcontent⟩ := item.field_bytes before after
  obtain ⟨trail, hcut, htrail⟩ := item.spelled.cut item.clean
  have hlen : ([slash].intercalate item.parts ++ trail).length ≤ 255 := by
    have hname := item.name_length
    rw [← hcut]
    split_ifs
    · rw [length_drop]
      omega
    · exact hname
  have hlast := intercalate_getLast_ne item.clean
  constructor
  case path =>
    simp only [tarEntry, hheader, joinName_eq item.name_length, hcut, take_of_length_le hlen]
    rcases htrail with rfl | ⟨-, rfl⟩
    · rw [append_nil, if_neg hlast]
    · rw [if_pos getLast?_concat, dropLast_concat]
  case isDir =>
    simp only [tarEntry, hheader, joinName_eq item.name_length, hcut]
    rw [isDir, isDirHeader, decide_eq_decide]
    refine ⟨?_, Or.inl⟩
    rintro (hdir | hslash)
    · exact hdir
    · rcases htrail with rfl | ⟨hdir, -⟩
      · rw [append_nil] at hslash
        exact absurd hslash hlast
      · simpa [isDirHeader] using hdir
  case size =>
    intro _
    simp only [tarEntry, hheader, parseOctal_size, hplain.size_eq]
  case data => exact hcontent

lemma bytes_length (item : TarItem) (hplain : item.Plain) :
    512 + alignUpU64 item.size 512 = item.bytes.length := by
  have hsize := hplain.size_eq
  have hbound : item.size < 2 ^ 36 := by
    obtain ⟨lead, digits, tail, htext, -, -, hvalue⟩ := item.octal
    have hlen : digits.length ≤ 12 := by
      have htake : (field item.header 124 12).length ≤ 12 := length_take_le _ _
      rw [htext, length_append, length_append, octalDigits, length_map] at htake
      omega
    calc item.size = octalValue digits := hvalue.symm
      _ < 8 ^ digits.length := octalValue_lt digits
      _ ≤ 8 ^ 12 := Nat.pow_le_pow_right (by decide) hlen
      _ = 2 ^ 36 := by decide
  have halign : alignUpU64 item.size 512 = (item.size + 511) / 512 * 512 := by
    have := alignUpU64_pow item.size (k := 9) (by decide)
    rw [Nat.mod_eq_of_lt (by omega)] at this
    exact this
  rw [halign, bytes, length_append, length_append, item.header_length, item.padding_length, hsize]
  omega

lemma bytes_head (item : TarItem) (hplain : item.Plain) (rest : List UInt8) :
    (item.bytes ++ rest).head? ≠ some 0 := by
  have hname := hplain.name
  have hlen := item.header_length
  rw [bytes]
  cases hheader : item.header with
  | nil => simp [hheader] at hlen
  | cons b bs => simpa [hheader] using hname

end TarItem

lemma tarEntriesFrom_describe {items : List TarItem} (hplain : ∀ item ∈ items, item.Plain)
    {trailer : List UInt8} (hended : trailer.length < 512 ∨ trailer.head? = some 0) (before : List UInt8)
    {fuel : ℕ} (hfuel : items.length ≤ fuel) :
    List.Forall₂ (Describes (before ++ (items.flatMap TarItem.bytes ++ trailer))) items
      (tarEntriesFrom (before ++ (items.flatMap TarItem.bytes ++ trailer)) fuel before.length) := by
  induction items generalizing before fuel with
  | nil =>
    have hnone : tarEntriesFrom (before ++ trailer) fuel before.length = [] := by
      cases fuel with
      | zero => rfl
      | succ fuel =>
        rw [tarEntriesFrom, drop_left, length_append]
        rcases hended with hshort | hzero
        · rw [if_neg (by omega)]
        · rw [if_pos hzero, ite_self]
    rw [flatMap_nil, nil_append, hnone]
    exact .nil
  | cons item items ih =>
    have hitem := hplain item mem_cons_self
    have hsplit : before ++ ((item :: items).flatMap TarItem.bytes ++ trailer) =
        before ++ item.bytes ++ (items.flatMap TarItem.bytes ++ trailer) := by
      simp [flatMap_cons]
    cases fuel with
    | zero => simp at hfuel
    | succ fuel =>
      have hrest : ∀ x ∈ items, x.Plain := fun x hx => hplain x (mem_cons_of_mem _ hx)
      have hnext := ih hrest (before ++ item.bytes) (Nat.le_of_succ_le_succ hfuel)
      have hhere := item.describes hitem before (items.flatMap TarItem.bytes ++ trailer)
      have hhead := item.bytes_head hitem (items.flatMap TarItem.bytes ++ trailer)
      have hsize : (tarEntry (before ++ item.bytes ++ (items.flatMap TarItem.bytes ++ trailer))
          before.length).size = item.size := by
        obtain ⟨hheader, -⟩ := item.field_bytes before (items.flatMap TarItem.bytes ++ trailer)
        simp only [tarEntry, hheader, item.parseOctal_size]
      have hroom : before.length + 512 ≤
          (before ++ item.bytes ++ (items.flatMap TarItem.bytes ++ trailer)).length := by
        have := item.bytes_length hitem
        simp only [length_append]
        omega
      rw [hsplit, tarEntriesFrom, if_pos hroom]
      rw [append_assoc before, drop_left, if_neg hhead, ← append_assoc]
      dsimp only
      rw [hsize, item.bytes_length hitem, ← length_append]
      exact .cons hhere hnext

/-- **An archive is read as it was written**, entry by entry. -/
lemma tarEntries_describe (t : TarArchive) (hplain : ∀ item ∈ t.items, item.Plain) :
    List.Forall₂ (Describes t.bytes) t.items (tarEntries t.bytes) := by
  refine tarEntriesFrom_describe hplain t.ended [] ?_
  -- an item has at least the bytes of its header
  have hle : t.items.length ≤ (t.items.flatMap TarItem.bytes).length := by
    generalize t.items = items
    induction items with
    | nil => exact le_refl _
    | cons item items ih =>
      have := item.header_length
      rw [flatMap_cons, length_append, length_cons, TarItem.bytes, length_append, length_append]
      omega
  rw [TarArchive.bytes, length_append]
  omega

end MyOs
