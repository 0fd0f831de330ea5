import MyOs.Lib.Sectors

/-!
# The disk as a file

`dev_disk_read` and `dev_disk_write` (`src/devfs.c`) make a file of the sectors of the disk.  They go
through the sectors that the run of bytes touches, with one buffer for a sector on the stack.  A sector
that is written in part is read first; one that is written as a whole is not, and what is in the buffer
then is left from the turn before.

The driver is an array of sectors whose transfers may fail, at any call (`answers`), and then change
nothing.  Seen through `image`, the disk is a flat array of bytes: a write that is completed replaces a
run of bytes and nothing else, a read that is completed delivers one, and a write that fails has
replaced the beginning of its run (`disk_flat`).

The buffer of the caller is the function from indices to its bytes, and `none` is the null pointer.
-/

namespace MyOs

open Lib

abbrev devSectorSize : ℕ := 512

/-- The conversion of a `size_t` to a `vfs_ssize_t`. -/
def toSsize (n : ℕ) : ℤ := if n < 2 ^ 63 then n else n - 2 ^ 64

/-- The disk: the bytes of each sector, and how many calls the driver got. -/
structure Disk where
  sectors : ℕ → Memory
  calls : ℕ

/-- The bytes of the disk. -/
def Disk.image (d : Disk) : Memory := flat devSectorSize d.sectors

section Driver

variable (answers : ℕ → Bool)

/-- `virtio_blk_read_sector`: the buffer afterwards, `none` if the call fails. -/
def virtioBlkReadSector (d : Disk) (sector : ℕ) (out : Memory) : Option Memory × Disk :=
  (if answers d.calls then some (overlay out 0 devSectorSize (d.sectors sector)) else none,
    { d with calls := d.calls + 1 })

/-- `virtio_blk_write_sector`: whether the call succeeds. -/
def virtioBlkWriteSector (d : Disk) (sector : ℕ) (data : Memory) : Bool × Disk :=
  if answers d.calls then
    (true,
      { sectors := Function.update d.sectors sector (overlay (d.sectors sector) 0 devSectorSize data)
        calls := d.calls + 1 })
  else (false, { d with calls := d.calls + 1 })

/-! ## `src/devfs.c` -/

/-- `chunk`: what is left of the sector, or of the run. -/
def chunkLen (sectorOff len done : ℕ) : ℕ :=
  if devSectorSize - sectorOff > len - done then len - done else devSectorSize - sectorOff

lemma chunkLen_pos (off : ℕ) {len done : ℕ} (h : done < len) :
    0 < chunkLen (off % devSectorSize) len done := by
  have := Nat.mod_lt off (show 0 < devSectorSize by decide)
  rw [chunkLen]
  split_ifs <;> omega

lemma chunkLen_le (sectorOff len done : ℕ) : chunkLen sectorOff len done ≤ len - done := by
  rw [chunkLen]
  split_ifs <;> omega

lemma mod_add_chunkLen_le (off len done : ℕ) :
    off % devSectorSize + chunkLen (off % devSectorSize) len done ≤ devSectorSize := by
  have := Nat.mod_lt off (show 0 < devSectorSize by decide)
  rw [chunkLen]
  split_ifs <;> omega

/-- The loop of `dev_disk_read`: the result, the buffer of the caller and the disk. -/
def devDiskReadLoop (offset len : ℕ) (d : Disk) (sector out : Memory) (done : ℕ) : ℤ × Memory × Disk :=
  if done < len then
    let off := (offset + done) % 2 ^ 64
    let chunk := chunkLen (off % devSectorSize) len done
    match virtioBlkReadSector answers d (off / devSectorSize) sector with
    | (none, d) => (-1, out, d)
    | (some sector, d) =>
      devDiskReadLoop offset len d sector
        (overlay out done chunk fun i => sector (off % devSectorSize + i)) (done + chunk)
  else (toSsize done, out, d)
termination_by len - done
decreasing_by
  have := chunkLen_pos ((offset + done) % 2 ^ 64) ‹done < len›
  omega

/-- `dev_disk_read`; `sector` is what the stack holds. -/
def devDiskRead (ready : Bool) (d : Disk) (sector : Memory) (offset : ℕ) (buf : Option Memory) (len : ℕ) :
    ℤ × Option Memory × Disk :=
  match buf, ready with
  | some out, true =>
    let r := devDiskReadLoop answers offset len d sector out 0
    (r.1, some r.2.1, r.2.2)
  | buf, _ => (-1, buf, d)

/-- The buffer before the run is copied into it.  A sector that is written as a whole is not read. -/
def sectorBefore (d : Disk) (sectorIdx : ℕ) (sector : Memory) (sectorOff chunk : ℕ) : Option Memory × Disk :=
  if sectorOff ≠ 0 ∨ chunk ≠ devSectorSize then virtioBlkReadSector answers d sectorIdx sector
  else (some sector, d)

/-- The loop of `dev_disk_write`. -/
def devDiskWriteLoop (offset len : ℕ) (buf : Memory) (d : Disk) (sector : Memory) (done : ℕ) : ℤ × Disk :=
  if done < len then
    let off := (offset + done) % 2 ^ 64
    let sectorOff := off % devSectorSize
    let chunk := chunkLen sectorOff len done
    match sectorBefore answers d (off / devSectorSize) sector sectorOff chunk with
    | (none, d) => (-1, d)
    | (some sector, d) =>
      let data := overlay sector sectorOff chunk fun i => buf (done + i)
      match virtioBlkWriteSector answers d (off / devSectorSize) data with
      | (false, d) => (-1, d)
      | (true, d) => devDiskWriteLoop offset len buf d data (done + chunk)
  else (toSsize done, d)
termination_by len - done
decreasing_by
  have := chunkLen_pos ((offset + done) % 2 ^ 64) ‹done < len›
  omega

def devDiskWrite (ready : Bool) (d : Disk) (sector : Memory) (offset : ℕ) (buf : Option Memory) (len : ℕ) :
    ℤ × Disk :=
  match buf, ready with
  | some data, true => devDiskWriteLoop answers offset len data d sector 0
  | _, _ => (-1, d)

variable {answers} {d d' : Disk} {sector sector' buf out : Memory} {offset len done off n : ℕ}

/-! ## One turn -/

lemma readSector_some (h : virtioBlkReadSector answers d n sector = (some sector', d')) :
    d'.sectors = d.sectors ∧ ∀ i < devSectorSize, sector' i = d.sectors n i := by
  simp only [virtioBlkReadSector, Prod.mk.injEq] at h
  obtain ⟨hread, rfl⟩ := h
  split_ifs at hread
  cases hread
  refine ⟨rfl, fun i hi => ?_⟩
  rw [overlay_inside (Nat.zero_le i) (by omega), Nat.sub_zero]

lemma readSector_none (h : virtioBlkReadSector answers d n sector = (none, d')) :
    d'.sectors = d.sectors ∧ answers d.calls = false := by
  simp only [virtioBlkReadSector, Prod.mk.injEq, ite_eq_right_iff, reduceCtorEq, imp_false,
    Bool.not_eq_true] at h
  exact ⟨h.2 ▸ rfl, h.1⟩

lemma writeSector_true {src : ℕ → UInt8} (hn : off % devSectorSize + n ≤ devSectorSize)
    (hdata : ∀ i < devSectorSize,
      buf i = overlay (d.sectors (off / devSectorSize)) (off % devSectorSize) n src i)
    (h : virtioBlkWriteSector answers d (off / devSectorSize) buf = (true, d')) :
    d'.image = overlay d.image off n src := by
  rw [virtioBlkWriteSector] at h
  split_ifs at h
  · cases h
    refine flat_update_overlay (by decide) hn fun i hi => ?_
    rw [overlay_inside (Nat.zero_le i) (by omega), Nat.sub_zero]
    exact hdata i hi
  · cases h

lemma writeSector_false (h : virtioBlkWriteSector answers d n buf = (false, d')) :
    d'.sectors = d.sectors ∧ answers d.calls = false := by
  rw [virtioBlkWriteSector] at h
  split_ifs at h with hcall
  · cases h
  · cases h
    exact ⟨rfl, eq_false_of_ne_true hcall⟩

lemma image_congr (h : d'.sectors = d.sectors) : d'.image = d.image := by
  rw [Disk.image, Disk.image, h]

/-- Once the run is copied into it, the buffer is the sector with the run replaced: it was read, or nothing
of what it held is left. -/
lemma sectorBefore_some {sectorOff k : ℕ}
    (h : sectorBefore answers d k sector sectorOff n = (some sector', d')) (src : ℕ → UInt8) :
    d'.sectors = d.sectors ∧
      ∀ i < devSectorSize, overlay sector' sectorOff n src i = overlay (d.sectors k) sectorOff n src i := by
  rw [sectorBefore] at h
  split_ifs at h with hpart
  · obtain ⟨hsame, hread⟩ := readSector_some h
    refine ⟨hsame, fun i hi => ?_⟩
    simp only [overlay, hread i hi]
  · cases h
    rw [not_or, not_not, not_not] at hpart
    refine ⟨rfl, fun i hi => ?_⟩
    rw [overlay_inside (by omega) (by omega), overlay_inside (by omega) (by omega)]

lemma sectorBefore_none {sectorOff k : ℕ} (h : sectorBefore answers d k sector sectorOff n = (none, d')) :
    d'.sectors = d.sectors ∧ answers d.calls = false := by
  rw [sectorBefore] at h
  split_ifs at h with hpart
  · exact readSector_none h
  · cases h

/-! ## The loops -/

/-- **The loop of `dev_disk_write`.**  It writes the rest of the run, or fails after the beginning of it. -/
lemma devDiskWriteLoop_spec (h : offset + len < 2 ^ 64) (hdone : done ≤ len) {r : ℤ × Disk}
    (hr : devDiskWriteLoop answers offset len buf d sector done = r) :
    (r.1 = toSsize len ∧
        r.2.image = overlay d.image (offset + done) (len - done) fun i => buf (done + i)) ∨
      (r.1 = -1 ∧ (∃ k, answers k = false) ∧ ∃ n ≤ len - done,
        r.2.image = overlay d.image (offset + done) n fun i => buf (done + i)) := by
  subst hr
  fun_induction devDiskWriteLoop answers offset len buf d sector done
  case case1 hread =>
    -- the sector could not be read
    obtain ⟨hsame, hfail⟩ := sectorBefore_none hread
    refine Or.inr ⟨rfl, ⟨_, hfail⟩, 0, Nat.zero_le _, ?_⟩
    rw [overlay_zero, image_congr hsame]
  case case2 hread data d2 hwrite =>
    obtain ⟨hsame, -⟩ := sectorBefore_some hread fun i => buf i
    obtain ⟨hsame', hfail⟩ := writeSector_false hwrite
    refine Or.inr ⟨rfl, ⟨_, hfail⟩, 0, Nat.zero_le _, ?_⟩
    rw [overlay_zero, image_congr hsame', image_congr hsame]
  case case3 d sector done hlt off sectorOff chunk sector' d1 hread data d2 hwrite ih =>
    have hoff : off = offset + done := Nat.mod_eq_of_lt (by omega)
    have hle : chunk ≤ len - done := chunkLen_le sectorOff len done
    obtain ⟨hsame, hbuffer⟩ := sectorBefore_some hread fun i => buf (done + i)
    have hin : sectorOff + chunk ≤ devSectorSize := mod_add_chunkLen_le off len done
    have himage := writeSector_true hin (hsame ▸ hbuffer) hwrite
    rw [image_congr hsame, hoff] at himage
    have hjoin : ∀ k, (overlay (overlay d.image (offset + done) chunk fun i => buf (done + i))
        (offset + (done + chunk)) k fun i => buf (done + chunk + i)) =
          overlay d.image (offset + done) (chunk + k) fun i => buf (done + i) := by
      intro k
      rw [← overlay_append, ← Nat.add_assoc]
      simp only [Nat.add_assoc]
    rcases ih (by omega) with ⟨hres, hrest⟩ | ⟨hres, hfail, k, hk, hrest⟩
    · refine Or.inl ⟨hres, ?_⟩
      rw [hrest, himage, hjoin]
      congr 1
      omega
    · refine Or.inr ⟨hres, hfail, chunk + k, by omega, ?_⟩
      rw [hrest, himage, hjoin]
  case case4 d sector done hlt =>
    obtain rfl : done = len := by omega
    refine Or.inl ⟨rfl, ?_⟩
    rw [Nat.sub_self, overlay_zero]

/-- **The loop of `dev_disk_read`.**  It delivers the rest of the run, or fails; the disk stays as it is. -/
lemma devDiskReadLoop_spec (h : offset + len < 2 ^ 64) (hdone : done ≤ len) {r : ℤ × Memory × Disk}
    (hr : devDiskReadLoop answers offset len d sector out done = r) :
    r.2.2.image = d.image ∧
      ((r.1 = toSsize len ∧
          r.2.1 = overlay out done (len - done) fun i => d.image (offset + (done + i))) ∨
        (r.1 = -1 ∧ ∃ k, answers k = false)) := by
  subst hr
  fun_induction devDiskReadLoop answers offset len d sector out done
  case case1 hread =>
    obtain ⟨hsame, hfail⟩ := readSector_none hread
    exact ⟨image_congr hsame, Or.inr ⟨rfl, _, hfail⟩⟩
  case case2 d sector out done hlt off chunk sector' d1 hread ih =>
    have hoff : off = offset + done := Nat.mod_eq_of_lt (by omega)
    have hle : chunk ≤ len - done := chunkLen_le (off % devSectorSize) len done
    have hin : off % devSectorSize + chunk ≤ devSectorSize := mod_add_chunkLen_le off len done
    obtain ⟨hsame, hsector⟩ := readSector_some hread
    have hcopied : (overlay out done chunk fun i => sector' (off % devSectorSize + i)) =
        overlay out done chunk fun i => d.image (offset + (done + i)) := by
      funext x
      by_cases hx : done ≤ x ∧ x < done + chunk
      · rw [overlay_inside hx.1 hx.2, overlay_inside hx.1 hx.2, hsector _ (by omega), ← Nat.add_assoc, ← hoff]
        exact (flat_apply hin (by omega)).symm
      · rw [overlay_outside (by omega), overlay_outside (by omega)]
    obtain ⟨himage, hrest⟩ := ih (by omega)
    rw [image_congr hsame] at himage hrest
    refine ⟨himage, hrest.imp_left ?_⟩
    rintro ⟨hres, hout⟩
    refine ⟨hres, ?_⟩
    have hsplit : len - done = chunk + (len - (done + chunk)) := by omega
    rw [hout, hcopied, hsplit, ← overlay_append]
    simp only [Nat.add_assoc]
  case case3 d sector out done hlt =>
    obtain rfl : done = len := by omega
    refine ⟨rfl, Or.inl ⟨rfl, ?_⟩⟩
    rw [Nat.sub_self, overlay_zero]

lemma devDiskWrite_some (h : offset + len < 2 ^ 64) {r : ℤ × Disk}
    (hr : devDiskWrite answers true d sector offset (some buf) len = r) :
    (r.1 = toSsize len ∧ r.2.image = overlay d.image offset len buf) ∨
      (r.1 = -1 ∧ (∃ k, answers k = false) ∧ ∃ n ≤ len, r.2.image = overlay d.image offset n buf) := by
  have hspec := devDiskWriteLoop_spec h (Nat.zero_le len) hr
  simpa only [Nat.zero_add, Nat.add_zero, Nat.sub_zero] using hspec

lemma devDiskRead_some (h : offset + len < 2 ^ 64) {r : ℤ × Option Memory × Disk}
    (hr : devDiskRead answers true d sector offset (some out) len = r) :
    r.2.2.image = d.image ∧
      ((r.1 = toSsize len ∧ r.2.1 = some (overlay out 0 len fun i => d.image (offset + i))) ∨
        (r.1 = -1 ∧ ∃ k, answers k = false)) := by
  obtain ⟨himage, hspec⟩ := devDiskReadLoop_spec (d := d) h (Nat.zero_le len) rfl
  simp only [Nat.zero_add, Nat.sub_zero] at hspec
  subst hr
  refine ⟨himage, hspec.imp_left ?_⟩
  rintro ⟨hres, hout⟩
  exact ⟨hres, congrArg some hout⟩

end Driver

/-- What is in the buffer of the caller. -/
def contents (buf : Option Memory) : Memory := buf.getD fun _ => 0

/-- **The disk is a flat array of bytes.**  A write that does not return -1 returns the length and replaced
the run, one that returns -1 replaced a beginning of it; a read that does not return -1 returns the length
and delivers the run.  Nothing else changes, and without failing calls both are completed. -/
theorem disk_flat (answers : ℕ → Bool) (ready : Bool) (d : Disk) (sector : Memory) (buf : Option Memory)
    {offset len : ℕ} (h : offset + len < 2 ^ 64) :
    (let r := devDiskWrite answers ready d sector offset buf len
    (r.1 ≠ -1 → r.1 = toSsize len ∧ r.2.image = overlay d.image offset len (contents buf)) ∧
    (r.1 = -1 → ∃ n ≤ len, r.2.image = overlay d.image offset n (contents buf)) ∧
    (buf.isSome → ready → (∀ k, answers k) → r.1 = toSsize len)) ∧
    (let r := devDiskRead answers ready d sector offset buf len
    (r.1 ≠ -1 → r.1 = toSsize len ∧
      r.2.1 = some (overlay (contents buf) 0 len fun i => d.image (offset + i))) ∧
    (buf.isSome → ready → (∀ k, answers k) → r.1 = toSsize len) ∧
    r.2.2.image = d.image) := by
  cases buf with
  | none =>
    refine ⟨⟨fun hne => absurd rfl hne, fun _ => ⟨0, Nat.zero_le _, ?_⟩, nofun⟩,
      fun hne => absurd rfl hne, nofun, rfl⟩
    rw [overlay_zero]
    rfl
  | some data =>
    cases ready with
    | false =>
      refine ⟨⟨fun hne => absurd rfl hne, fun _ => ⟨0, Nat.zero_le _, ?_⟩, nofun⟩,
        fun hne => absurd rfl hne, nofun, rfl⟩
      rw [overlay_zero]
      rfl
    | true =>
      refine ⟨⟨fun hne => ?_, fun hfail => ?_, fun _ _ hall => ?_⟩,
        fun hne => ?_, fun _ _ hall => ?_, ?_⟩
      · exact (devDiskWrite_some h rfl).resolve_right fun hfail => hne hfail.1
      · rcases devDiskWrite_some h rfl with ⟨-, himage⟩ | ⟨-, -, hbegin⟩
        · exact ⟨len, le_rfl, himage⟩
        · exact hbegin
      · rcases devDiskWrite_some h rfl with ⟨hres, -⟩ | ⟨-, ⟨k, hk⟩, -⟩
        · exact hres
        · exact absurd hk (by simp [hall k])
      · exact (devDiskRead_some h rfl).2.resolve_right fun hfail => hne hfail.1
      · rcases (devDiskRead_some h rfl).2 with ⟨hres, -⟩ | ⟨-, k, hk⟩
        · exact hres
        · exact absurd hk (by simp [hall k])
      · exact (devDiskRead_some h rfl).1

/-- Four bytes across the end of the first sector. -/
theorem disk_flat_across :
    let d : Disk := ⟨fun _ _ => 0, 0⟩
    let buf : Memory := fun i => UInt8.ofNat (i + 1)
    let r := devDiskWrite (fun _ => true) true d (fun _ => 0) 510 (some buf) 4
    r.1 = 4 ∧ r.2.image = overlay d.image 510 4 buf := by
  have hflat := disk_flat (fun _ => true) true ⟨fun _ _ => 0, 0⟩ (fun _ => 0)
    (some fun i => UInt8.ofNat (i + 1)) (show 510 + 4 < 2 ^ 64 by decide)
  have hres := hflat.1.2.2 rfl rfl fun _ => rfl
  exact ⟨hres, (hflat.1.1 (hres ▸ by decide)).2⟩

end MyOs
