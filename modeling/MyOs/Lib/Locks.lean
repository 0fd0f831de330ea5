import MyOs.Lib.Runs

/-!
# A spinlock around code that runs in single steps

Processors share a state and the word of a lock.  A processor that calls a section takes the lock by test
and set, waits in a loop that only reads while the word is set, runs the code of the section, and clears
the word.  They take turns in any order, one step a turn (`Spin.step`).

In the code of a section (`Code`) a step changes the state, and what follows may depend on what it has
found.  Code that halts keeps the lock for good.

Whatever the order of the turns, at most one processor is inside, and what it has still to do leads to the
state that the sections give one after the other, in the order in which they got the lock
(`Spin.serial_run`).
-/

namespace Lib

open Function

variable {σ κ α : Type*}

/-- The code of a section. -/
inductive Code (σ : Type*)
  | done
  | halt
  | step (f : σ → σ) (next : σ → Code σ)

/-- What the code makes of a state, if it ends. -/
def Code.run : Code σ → σ → Option σ
  | .done, s => some s
  | .halt, _ => none
  | .step f next, s => (next s).run (f s)

/-- Where a processor is in a call. -/
inductive Place (σ α : Type*)
  | outside
  /-- before the test and set -/
  | testing (a : α)
  /-- in the loop that reads the word -/
  | waiting (a : α)
  | inside (code : Code σ)

/-- The section that a processor has called and not begun. -/
def Place.pending (c : κ) : Place σ α → List (κ × α)
  | .testing a => [(c, a)]
  | .waiting a => [(c, a)]
  | _ => []

/-- The word of the lock, the state and the places of the processors, with the calls made and those that
got the lock as history variables. -/
structure Spin (σ κ α : Type*) where
  locked : Bool
  shared : σ
  place : κ → Place σ α
  called : List (κ × α)
  taken : List (κ × α)

namespace Spin

def start (s : σ) : Spin σ κ α := ⟨false, s, fun _ => .outside, [], []⟩

variable [DecidableEq κ] (code : κ → α → Code σ)

/-- The turn of a processor; one that is outside calls the section that is named. -/
def step (t : Spin σ κ α) (e : κ × α) : Spin σ κ α :=
  match t.place e.1 with
  | .outside => { t with place := update t.place e.1 (.testing e.2), called := t.called ++ [e] }
  | .testing a =>
    if t.locked then { t with place := update t.place e.1 (.waiting a) }
    else
      { t with
        locked := true, place := update t.place e.1 (.inside (code e.1 a))
        taken := t.taken ++ [(e.1, a)] }
  | .waiting a => if t.locked then t else { t with place := update t.place e.1 (.testing a) }
  | .inside .done => { t with locked := false, place := update t.place e.1 .outside }
  | .inside .halt => t
  | .inside (.step f next) =>
    { t with shared := f t.shared, place := update t.place e.1 (.inside (next t.shared)) }

/-- The sections one after the other. -/
def serial (s : σ) (es : List (κ × α)) : Option σ := es.foldlM (fun s e => (code e.1 e.2).run s) s

/-- Either the lock is free, nobody is inside and the state is that of the sections so far; or one processor
is inside, and the rest of its code leads to that state. -/
inductive Serial (s₀ : σ) (t : Spin σ κ α) : Prop
  | free (hlock : t.locked = false) (hout : ∀ c k, t.place c ≠ .inside k)
      (hstate : serial code s₀ t.taken = some t.shared)
  | held (c : κ) (k : Code σ) (hlock : t.locked = true) (hin : t.place c = .inside k)
      (hout : ∀ c', c' ≠ c → ∀ k', t.place c' ≠ .inside k')
      (hstate : serial code s₀ t.taken = k.run t.shared)

/-- A processor's sections get the lock in the order in which it calls them. -/
def InOrder (t : Spin σ κ α) : Prop :=
  ∀ c, t.called.filter (·.1 = c) = t.taken.filter (·.1 = c) ++ (t.place c).pending c

variable {code} {s₀ : σ} {t : Spin σ κ α}

omit [DecidableEq κ] in
lemma serial_snoc (es : List (κ × α)) (e : κ × α) :
    serial code s₀ (es ++ [e]) = (serial code s₀ es).bind (code e.1 e.2).run := by
  rw [serial, List.foldlM_append]
  exact congrArg _ (funext fun s => by simp)

lemma update_ne_inside {place : κ → Place σ α} {c c' : κ} {p : Place σ α} {k : Code σ}
    (hp : c' = c → p ≠ .inside k) (h : c' ≠ c → place c' ≠ .inside k) :
    update place c p c' ≠ .inside k := by
  rcases eq_or_ne c' c with heq | hne
  · rw [heq, update_self]
    exact hp heq
  · rw [update_of_ne hne]
    exact h hne

/-- A processor that is not inside moves on. -/
lemma Serial.move (h : t.Serial code s₀) {c : κ} (hc : ∀ k, t.place c ≠ .inside k) {p : Place σ α}
    (hp : ∀ k, p ≠ .inside k) (called : List (κ × α)) :
    ({ t with place := update t.place c p, called := called }).Serial code s₀ := by
  cases h with
  | free hlock hout hstate =>
    exact .free hlock (fun c' k => update_ne_inside (fun _ => hp k) fun _ => hout c' k) hstate
  | held c₁ k hlock hin hout hstate =>
    have hne : c₁ ≠ c := by
      rintro rfl
      exact hc k hin
    refine .held c₁ k hlock ((update_of_ne hne ..).trans hin) (fun c' hne' k' => ?_) hstate
    exact update_ne_inside (fun _ => hp k') fun _ => hout c' hne' k'

/-- **One turn** keeps the sections serial. -/
lemma Serial.step (h : t.Serial code s₀) (e : κ × α) : (t.step code e).Serial code s₀ := by
  rw [Spin.step]
  split
  · rename_i hplace
    exact h.move (by simp [hplace]) (by simp) _
  · rename_i a hplace
    split_ifs with hlock
    · exact h.move (by simp [hplace]) (by simp) _
    · cases h with
      | free _ hout hstate =>
        refine .held e.1 (code e.1 a) rfl (update_self ..) (fun c' hne k' => ?_) ?_
        · exact update_ne_inside (fun heq => absurd heq hne) fun _ => hout c' k'
        · rw [serial_snoc, hstate]
          rfl
      | held _ _ hheld => exact absurd hheld hlock
  · rename_i a hplace
    split_ifs
    · exact h
    · exact h.move (by simp [hplace]) (by simp) _
  all_goals
    rename_i hplace
    cases h with
    | free _ hout => exact absurd hplace (hout e.1 _)
    | held c k hlock hin hout hstate => ?_
    -- nobody else is inside
    obtain rfl : e.1 = c := by
      by_contra hne
      exact hout e.1 hne _ hplace
    obtain rfl := Place.inside.inj (hin.symm.trans hplace)
  · exact .free rfl (fun c' k' => update_ne_inside (by simp) fun hne => hout c' hne k') hstate
  · exact .held e.1 _ hlock hin hout hstate
  · refine .held e.1 _ hlock (update_self ..) (fun c' hne k' => ?_) hstate
    exact update_ne_inside (fun heq => absurd heq hne) fun _ => hout c' hne k'

lemma InOrder.step (h : t.InOrder) (e : κ × α) : (t.step code e).InOrder := by
  intro c
  have hc := h c
  rw [Spin.step]
  split
  all_goals rename_i hplace
  all_goals try split_ifs
  all_goals try exact hc
  all_goals
    dsimp only
    rcases eq_or_ne c e.1 with rfl | hne
    · rw [hplace] at hc
      simpa [Place.pending] using hc
    · simpa [update_of_ne hne, Ne.symm hne] using hc

/-- **Sections under a spinlock are atomic.**  In every order of single steps the processors exclude each
other, and whenever the lock is free the state is that of whole sections, one after the other. -/
theorem serial_run (code : κ → α → Code σ) (s : σ) (es : List (κ × α)) :
    (run (step code) (start s) es).Serial code s ∧ (run (step code) (start s) es).InOrder := by
  refine run_preserves (I := fun t : Spin σ κ α => t.Serial code s ∧ t.InOrder)
    (fun t e h => ⟨h.1.step e, h.2.step e⟩) ⟨.free rfl (by simp [start]) rfl, fun c => rfl⟩

end Spin

end Lib
