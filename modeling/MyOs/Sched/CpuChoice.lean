import MyOs.Sched.Sections

/-!
# Which CPU a new thread is bound to

`src/arch/x86_64/cpu.c` keeps a table of the processors, with the number of those that are online, and
`scheduler_pick_cpu` distributes new threads over them with a rotating counter.  The counter runs over
`0 .. g_online_count - 1`, so it is the number of online processors that decides, not which they are.

An application processor that does not start leaves a gap in the table: `smp_init` reports it and goes
on with the next one.  From then on the counter reaches the index of the gap, and never the last online
processor.  `picked_cpus_online_iff` says that a gap is the only thing that can go wrong.
-/

namespace MyOs

open Lib Function

/-- `cpu_info_t`. -/
structure CpuInfo where
  apicId : ℕ := 0
  present : Bool := false
  online : Bool := false

/-- The variables of `cpu.c` that the functions below use. -/
structure CpuTable where
  cpus : ℕ → CpuInfo
  cpuCount : ℕ
  onlineCount : ℕ
  bspId : ℕ

namespace CpuTable

def cpuInitBsp (apicId : ℕ) : CpuTable where
  cpus := Function.update (fun _ => {}) 0 { apicId := apicId, present := true, online := true }
  cpuCount := 1
  onlineCount := 1
  bspId := 0

/-- The loop of `cpu_register`: the index of a processor that is known already. -/
def findApic (t : CpuTable) (apicId : ℕ) : Option ℕ :=
  (List.range t.cpuCount).find? fun i => (t.cpus i).present && (t.cpus i).apicId == apicId

/-- `cpu_register`: the index, and the table. -/
def cpuRegister (t : CpuTable) (apicId : ℕ) (isBsp : Bool) : ℕ × CpuTable :=
  match t.findApic apicId with
  | some i => (i, if isBsp then { t with bspId := i } else t)
  | none =>
    if t.cpuCount ≥ maxCpus then (t.bspId, t)
    else
      let idx := t.cpuCount
      (idx, { t with
        cpus := Function.update t.cpus idx { apicId := apicId, present := true, online := false }
        cpuCount := t.cpuCount + 1
        bspId := if isBsp then idx else t.bspId })

def cpuSetOnline (t : CpuTable) (cpuId : ℕ) (online : Bool) : CpuTable :=
  if cpuId ≥ t.cpuCount then t
  else if (t.cpus cpuId).online = online then t
  else
    { t with
      cpus := Function.update t.cpus cpuId { t.cpus cpuId with online := online }
      onlineCount :=
        if online then t.onlineCount + 1
        else if t.onlineCount > 0 then t.onlineCount - 1
        else t.onlineCount }

def cpuOnlineCount (t : CpuTable) : ℕ := if t.onlineCount ≠ 0 then t.onlineCount else 1

/-- The processors that are online. -/
def onlineSet (t : CpuTable) : Finset ℕ := {i ∈ Finset.range t.cpuCount | (t.cpus i).online = true}

/-- The count is the number of online processors, and these are registered. -/
structure Counted (t : CpuTable) : Prop where
  count : t.onlineCount = t.onlineSet.card
  registered : ∀ i, (t.cpus i).online = true → i < t.cpuCount

variable {t : CpuTable}

lemma mem_onlineSet {i : ℕ} : i ∈ t.onlineSet ↔ i < t.cpuCount ∧ (t.cpus i).online = true := by
  simp [onlineSet]

lemma Counted.mem_onlineSet (h : t.Counted) {i : ℕ} : i ∈ t.onlineSet ↔ (t.cpus i).online = true := by
  rw [CpuTable.mem_onlineSet]
  exact and_iff_right_of_imp (h.registered i)

/-! ## Every call keeps the count -/

lemma counted_cpuInitBsp (apicId : ℕ) : (cpuInitBsp apicId).Counted := by
  have honline : ∀ i, ((cpuInitBsp apicId).cpus i).online = true ↔ i = 0 := by
    intro i
    rcases eq_or_ne i 0 with rfl | hi
    · simp [cpuInitBsp]
    · simp [cpuInitBsp, hi]
  refine ⟨?_, fun i hi => ?_⟩
  · have : (cpuInitBsp apicId).onlineSet = {0} := by
      ext i
      rw [CpuTable.mem_onlineSet, honline, Finset.mem_singleton]
      exact and_iff_right_of_imp fun h => h ▸ Nat.zero_lt_one
    rw [this]
    rfl
  · rw [(honline i).mp hi]
    exact Nat.zero_lt_one

/-- What the online processors are decides the invariant, apart from how many are registered. -/
lemma Counted.congr {t' : CpuTable} (h : t.Counted) (hcpus : ∀ i, (t'.cpus i).online = (t.cpus i).online)
    (hcount : t'.onlineCount = t.onlineCount) (hreg : t.cpuCount ≤ t'.cpuCount) : t'.Counted := by
  refine ⟨?_, fun i hi => ?_⟩
  · rw [hcount, h.count]
    congr 1
    ext i
    rw [h.mem_onlineSet, CpuTable.mem_onlineSet, hcpus]
    exact (and_iff_right_of_imp fun hi => (h.registered i hi).trans_le hreg).symm
  · rw [hcpus] at hi
    exact (h.registered i hi).trans_le hreg

lemma Counted.cpuRegister (h : t.Counted) (apicId : ℕ) (isBsp : Bool) :
    (t.cpuRegister apicId isBsp).2.Counted := by
  rw [CpuTable.cpuRegister]
  cases t.findApic apicId with
  | some i =>
    cases isBsp with
    | true => exact h.congr (fun _ => rfl) rfl le_rfl
    | false => exact h
  | none =>
    simp only
    split_ifs
    · exact h
    -- the new place was offline before
    all_goals
      refine h.congr (fun i => ?_) rfl (Nat.le_succ _)
      rcases eq_or_ne i t.cpuCount with rfl | hi
      · simp only [update_self]
        exact (Bool.eq_false_iff.mpr fun hon => absurd (h.registered _ hon) (lt_irrefl _)).symm
      · simp only [update_of_ne hi]

lemma Counted.cpuSetOnline (h : t.Counted) (cpuId : ℕ) (online : Bool) :
    (t.cpuSetOnline cpuId online).Counted := by
  rw [CpuTable.cpuSetOnline]
  by_cases hbound : cpuId ≥ t.cpuCount
  · rw [if_pos hbound]
    exact h
  by_cases hsame : (t.cpus cpuId).online = online
  · rw [if_neg hbound, if_pos hsame]
    exact h
  rw [if_neg hbound, if_neg hsame]
  refine ⟨?_, fun i hi => ?_⟩
  · cases online with
    | true =>
      have hoff : cpuId ∉ t.onlineSet := fun hmem => hsame (h.mem_onlineSet.mp hmem)
      have hset : CpuTable.onlineSet { t with
          cpus := Function.update t.cpus cpuId { t.cpus cpuId with online := true }
          onlineCount := t.onlineCount + 1 } = insert cpuId t.onlineSet := by
        ext i
        rw [CpuTable.mem_onlineSet, Finset.mem_insert, CpuTable.mem_onlineSet]
        rcases eq_or_ne i cpuId with rfl | hi
        · simpa using hbound
        · simp [hi]
      simp only [if_true]
      rw [hset, Finset.card_insert_of_notMem hoff, h.count]
    | false =>
      have hon : cpuId ∈ t.onlineSet := h.mem_onlineSet.mpr (Bool.eq_true_of_not_eq_false hsame)
      have hset : CpuTable.onlineSet { t with
          cpus := Function.update t.cpus cpuId { t.cpus cpuId with online := false }
          onlineCount := t.onlineCount - 1 } = t.onlineSet.erase cpuId := by
        ext i
        rw [CpuTable.mem_onlineSet, Finset.mem_erase, CpuTable.mem_onlineSet]
        rcases eq_or_ne i cpuId with rfl | hi
        · simp
        · simp [hi]
      have hpos : t.onlineCount > 0 := by
        rw [h.count]
        exact Finset.card_pos.mpr ⟨cpuId, hon⟩
      simp only [Bool.false_eq_true, if_false, if_pos hpos]
      rw [hset, Finset.card_erase_of_mem hon, h.count]
  · rcases eq_or_ne i cpuId with rfl | hne
    · exact not_le.mp hbound
    · simp only [update_of_ne hne] at hi
      exact h.registered i hi

end CpuTable

/-! ## The table and the scheduler -/

/-- The processors and the scheduler, which reads `cpu_online_count`. -/
structure SmpSys where
  cpus : CpuTable
  sched : Sched

/-- A call that changes the table, or the call of `scheduler_pick_cpu` for a new thread. -/
inductive SmpOp
  | cpuInitBsp (apicId : ℕ)
  | cpuRegister (apicId : ℕ) (isBsp : Bool)
  | cpuSetOnline (cpuId : ℕ) (online : Bool)
  | pickCpu

namespace SmpSys

/-- The scheduler sees a new table. -/
def withCpus (s : SmpSys) (t : CpuTable) : SmpSys :=
  { cpus := t, sched := { s.sched with online := t.cpuOnlineCount } }

/-- One call. -/
def step (s : SmpSys) : SmpOp → SmpSys
  | .cpuInitBsp apicId => s.withCpus (.cpuInitBsp apicId)
  | .cpuRegister apicId isBsp => s.withCpus (s.cpus.cpuRegister apicId isBsp).2
  | .cpuSetOnline cpuId online => s.withCpus (s.cpus.cpuSetOnline cpuId online)
  | .pickCpu => { s with sched := s.sched.schedulerPickCpu.2 }

/-- Before the first call no processor is known. -/
def init (sched : Sched) : SmpSys :=
  withCpus ⟨⟨fun _ => {}, 0, 0, 0⟩, sched⟩ ⟨fun _ => {}, 0, 0, 0⟩

/-- The processor of the next thread. -/
def picked (s : SmpSys) : ℕ := s.sched.schedulerPickCpu.1

/-- The next thread goes to a processor that is online. -/
def PicksOnline (s : SmpSys) : Prop := (s.cpus.cpus s.picked).online = true

/-- The online processors are the first ones of the table, without a gap, and there is one. -/
def NoGap (t : CpuTable) : Prop := ∃ k, 1 ≤ k ∧ ∀ i, (t.cpus i).online = true ↔ i < k

/-- The invariant. -/
structure Inv (s : SmpSys) : Prop where
  counted : s.cpus.Counted
  online : s.sched.online = s.cpus.cpuOnlineCount

variable {s : SmpSys}

lemma inv_init (sched : Sched) : (init sched).Inv where
  counted := ⟨rfl, fun i hi => by simp [init, withCpus] at hi⟩
  online := rfl

lemma schedulerPickCpu_eq {s : Sched} (h : s.online ≠ 0) :
    s.schedulerPickCpu = (s.cpuRr % s.online, { s with cpuRr := (s.cpuRr + 1) % s.online }) := if_neg h

lemma schedulerPickCpu_online (s : Sched) : s.schedulerPickCpu.2.online = s.online := by
  rw [Sched.schedulerPickCpu]
  split_ifs <;> rfl

lemma Inv.step (hs : s.Inv) (op : SmpOp) : (s.step op).Inv := by
  cases op with
  | cpuInitBsp apicId => exact ⟨CpuTable.counted_cpuInitBsp apicId, rfl⟩
  | cpuRegister apicId isBsp => exact ⟨hs.counted.cpuRegister apicId isBsp, rfl⟩
  | cpuSetOnline cpuId online => exact ⟨hs.counted.cpuSetOnline cpuId online, rfl⟩
  | pickCpu => exact ⟨hs.counted, (schedulerPickCpu_online _).trans hs.online⟩

lemma cpuOnlineCount_pos (t : CpuTable) : 0 < t.cpuOnlineCount := by
  rw [CpuTable.cpuOnlineCount]
  split_ifs <;> omega

lemma Inv.pick (hs : s.Inv) : s.sched.schedulerPickCpu = (s.sched.cpuRr % s.cpus.cpuOnlineCount,
    { s.sched with cpuRr := (s.sched.cpuRr + 1) % s.cpus.cpuOnlineCount }) := by
  have hpos := cpuOnlineCount_pos s.cpus
  rw [← hs.online] at hpos ⊢
  exact schedulerPickCpu_eq hpos.ne'

/-! ## The rotation -/

lemma run_pickCpu (hs : s.Inv) (m : ℕ) :
    (run step s (List.replicate m .pickCpu)).cpus = s.cpus ∧
      (run step s (List.replicate m .pickCpu)).picked =
        (s.sched.cpuRr + m) % s.cpus.cpuOnlineCount := by
  induction m generalizing s with
  | zero => exact ⟨rfl, congrArg Prod.fst hs.pick⟩
  | succ m ih =>
    obtain ⟨hcpus, hpicked⟩ := ih (hs.step .pickCpu)
    refine ⟨hcpus, ?_⟩
    rw [List.replicate_succ, run_cons, hpicked]
    simp only [step, hs.pick]
    rw [Nat.mod_add_mod, Nat.add_assoc, Nat.add_comm 1]

lemma Inv.picksOnline (hs : s.Inv) (hgap : NoGap s.cpus) : s.PicksOnline := by
  obtain ⟨k, hk, hfirst⟩ := hgap
  have hset : s.cpus.onlineSet = Finset.range k := by
    ext i
    rw [hs.counted.mem_onlineSet, hfirst, Finset.mem_range]
  have hcount : s.cpus.cpuOnlineCount = k := by
    rw [CpuTable.cpuOnlineCount, hs.counted.count, hset, Finset.card_range, if_pos (by omega)]
  rw [PicksOnline, hfirst, picked, hs.pick, hcount]
  exact Nat.mod_lt _ hk

lemma exists_rotation {c i : ℕ} (hi : i < c) (rr : ℕ) : ∃ m, (rr + m) % c = i := by
  have hlt := Nat.mod_lt rr (Nat.zero_lt_of_lt hi)
  refine ⟨i + (c - rr % c), ?_⟩
  rw [← Nat.mod_add_mod, show rr % c + (i + (c - rr % c)) = i + c by omega, Nat.add_mod_right,
    Nat.mod_eq_of_lt hi]

lemma Inv.noGap (hs : s.Inv)
    (hall : ∀ m, (run SmpSys.step s (List.replicate m .pickCpu)).PicksOnline) : NoGap s.cpus := by
  have hpos := cpuOnlineCount_pos s.cpus
  have hreach : ∀ i < s.cpus.cpuOnlineCount, (s.cpus.cpus i).online = true := by
    intro i hi
    obtain ⟨m, hm⟩ := exists_rotation hi s.sched.cpuRr
    obtain ⟨hcpus, hpicked⟩ := run_pickCpu hs m
    have honline := hall m
    rwa [PicksOnline, hcpus, hpicked, hm] at honline
  refine ⟨s.cpus.cpuOnlineCount, hpos, fun i => ?_⟩
  -- as many processors are online as there are indices below the count
  have hsub : Finset.range s.cpus.cpuOnlineCount ⊆ s.cpus.onlineSet := by
    intro i hi
    exact hs.counted.mem_onlineSet.mpr (hreach i (Finset.mem_range.mp hi))
  have hcard : s.cpus.onlineSet.card ≤ (Finset.range s.cpus.cpuOnlineCount).card := by
    rw [Finset.card_range, ← hs.counted.count, CpuTable.cpuOnlineCount]
    split_ifs <;> omega
  rw [← hs.counted.mem_onlineSet, ← Finset.eq_of_subset_of_card_le hsub hcard, Finset.mem_range]

/-! ## New threads -/

lemma schedulerPickCpu_fst (s : Sched) :
    s.schedulerPickCpu.1 = if s.online = 0 then 0 else s.cpuRr % s.online := by
  rw [Sched.schedulerPickCpu]
  split_ifs <;> rfl

/-- A new slot does not matter for the choice, nor do the fields that are filled in before it. -/
lemma adopt_cpuId {s s1 : Sched} {i : Slot} (h : s.threadAllocSlot = some (i, s1)) (cpu : Cpu)
    (isUser : Bool) (cr3 : ℕ) :
    ((s1.adopt cpu i isUser cr3).threads i).cpuId = s.schedulerPickCpu.1 := by
  rw [Sched.threadAllocSlot, Option.map_eq_some_iff] at h
  obtain ⟨j, -, hj⟩ := h
  cases hj
  simp only [Sched.adopt, Sched.update_threads, update_self, schedulerPickCpu_fst]
  rfl

lemma threadCreateKernel_cpuId {s s' : Sched} {cpu : Cpu} {trampoline fn arg : ℕ} {re : Replies}
    {i : Slot} (h : s.threadCreateKernel cpu trampoline fn arg re = (some i, s')) :
    (s'.threads i).cpuId = s.schedulerPickCpu.1 := by
  rw [Sched.threadCreateKernel] at h
  split at h
  · cases h
  · rename_i j s1 halloc
    dsimp only at h
    split at h
    · cases h
    · cases h
      rw [← adopt_cpuId halloc cpu false s1.kspaceCr3]
      simp [Sched.makeReady, Sched.buildKernelThreadFrame, Sched.buildFrame, Sched.takeStack]

lemma threadCreateUser_cpuId {s s' : Sched} {cpu : Cpu} {userRip brkStart cr3 : ℕ} {re : Replies}
    {i : Slot} (h : s.threadCreateUser cpu userRip brkStart cr3 re = (some i, s')) :
    (s'.threads i).cpuId = s.schedulerPickCpu.1 := by
  rw [Sched.threadCreateUser] at h
  split at h
  · cases h
  · rename_i j s1 halloc
    dsimp only at h
    split at h
    · cases h
    split at h
    · cases h
    split at h
    · cases h
    · rename_i s2 hmap
      cases h
      rw [← adopt_cpuId halloc cpu true cr3]
      simp only [Sched.mapUserStack] at hmap
      split at hmap
      · cases hmap
      split at hmap
      · cases hmap
        simp [Sched.startUserThread, Sched.makeReady, Sched.buildUserThreadFrame, Sched.buildFrame,
          Sched.takeStack]
      · cases hmap

/-- **When new threads run.**  After any calls that register processors and set them online or offline
and any creations of threads, every further thread goes to a processor that is online just when the
online processors are the first ones of the table, without a gap.  The processor is the one that the
two functions that create threads write into the new thread. -/
theorem picked_cpus_online_iff (sched : Sched) (ops : List SmpOp) :
    let s := run SmpSys.step (init sched) ops
    ((∀ m, (run SmpSys.step s (List.replicate m .pickCpu)).PicksOnline) ↔ NoGap s.cpus) ∧
      (∀ cpu trampoline fn arg re i s',
        s.sched.threadCreateKernel cpu trampoline fn arg re = (some i, s') →
          (s'.threads i).cpuId = s.picked) ∧
      (∀ cpu userRip brkStart cr3 re i s',
        s.sched.threadCreateUser cpu userRip brkStart cr3 re = (some i, s') →
          (s'.threads i).cpuId = s.picked) := by
  intro s
  have hs : s.Inv := run_preserves (fun _ op hs => hs.step op) (inv_init sched)
  refine ⟨⟨hs.noGap, fun hgap m => ?_⟩, fun _ _ _ _ _ _ _ => threadCreateKernel_cpuId,
    fun _ _ _ _ _ _ _ => threadCreateUser_cpuId⟩
  have hm : (run SmpSys.step s (List.replicate m .pickCpu)).Inv :=
    run_preserves (fun _ op hs => hs.step op) hs
  refine hm.picksOnline ?_
  rw [(run_pickCpu hs m).1]
  exact hgap

/-- Of two application processors the first does not start.  The second thread is bound to it, and none
to the one that runs. -/
theorem thread_bound_to_dead_cpu :
    let s := run SmpSys.step (init (smallSched 1))
      [.cpuInitBsp 0, .cpuRegister 0 true, .cpuRegister 1 false, .cpuRegister 2 false,
        .cpuSetOnline 2 true, .pickCpu]
    s.picked = 1 ∧ (s.cpus.cpus 1).online = false ∧ (s.cpus.cpus 2).online = true := by
  decide

end SmpSys

end MyOs
