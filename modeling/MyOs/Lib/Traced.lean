import Mathlib.Tactic

/-!
# Computations that record what they look at

A traced computation is a value together with the events that happened on the way to it.  As a monad it is
the writer monad: the value of a sequence is the value of its parts in a row, and its trace is theirs
appended.

`All p x` says that every event of `x` has the property `p`; it splits along sequences (`all_bind`), so a
statement about the trace of a program becomes one about its single steps.

A program that may stop half-way makes fewer of its events then.  `Needs p ok x C` says that the condition `C`
is enough for all events of `x` to have `p`, and that it is also necessary if the value of `x` is `ok`.  It is
derived along the program, too (`Needs.bind`).
-/

namespace Lib

universe u v

/-- A value and the events on the way to it. -/
structure Traced (ε : Type u) (α : Type v) where
  val : α
  trace : List ε

namespace Traced

variable {ε : Type u} {α β : Type v} {p : ε → Prop}

instance : Monad (Traced ε) where
  pure a := ⟨a, []⟩
  bind x f := ⟨(f x.val).val, x.trace ++ (f x.val).trace⟩

/-- Every event has the property. -/
def All (p : ε → Prop) (x : Traced ε α) : Prop := ∀ e ∈ x.trace, p e

@[simp] lemma val_pure (a : α) : (pure a : Traced ε α).val = a := rfl

@[simp] lemma val_bind (x : Traced ε α) (f : α → Traced ε β) : (x >>= f).val = (f x.val).val := rfl

@[simp] lemma val_ite (c : Prop) [Decidable c] (x y : Traced ε α) :
    (if c then x else y).val = if c then x.val else y.val := apply_ite val c x y

@[simp] lemma all_pure (a : α) : (pure a : Traced ε α).All p := fun _ h => absurd h List.not_mem_nil

@[simp] lemma all_bind (x : Traced ε α) (f : α → Traced ε β) :
    (x >>= f).All p ↔ x.All p ∧ (f x.val).All p := List.forall_mem_append

@[simp] lemma all_ite (c : Prop) [Decidable c] (x y : Traced ε α) :
    (if c then x else y).All p ↔ if c then x.All p else y.All p := by
  split_ifs <;> rfl

/-- `C` is enough for all events to have the property, and necessary if the value is `ok`. -/
structure Needs (p : ε → Prop) (ok : α → Prop) (x : Traced ε α) (C : Prop) : Prop where
  enough : C → x.All p
  needed : ok x.val → x.All p → C

section Needs

variable {ok : α → Prop} {x y : Traced ε α} {C C' : Prop}

lemma Needs.congr (h : x.Needs p ok C) (hiff : C ↔ C') : x.Needs p ok C' :=
  ⟨fun hc => h.enough (hiff.mpr hc), fun hok hall => hiff.mp (h.needed hok hall)⟩

lemma needs_of_all (ok : α → Prop) (h : x.All p) : x.Needs p ok True := ⟨fun _ => h, fun _ _ => trivial⟩

lemma needs_pure {a : α} (h : ok a → C) : (pure a : Traced ε α).Needs p ok C :=
  ⟨fun _ => all_pure a, fun hok _ => h hok⟩

/-- **The rule of sequences.**  The second part is looked at where the first one met its condition. -/
theorem Needs.bind {x : Traced ε β} {f : β → Traced ε α} {ok' : β → Prop} (hx : x.Needs p ok' C)
    (hf : C → (f x.val).Needs p ok C') (hok : ok (f x.val).val → ok' x.val) :
    (x >>= f).Needs p ok (C ∧ C') := by
  refine ⟨fun hc => (all_bind x f).mpr ⟨hx.enough hc.1, (hf hc.1).enough hc.2⟩, fun hv hall => ?_⟩
  obtain ⟨hfirst, hsecond⟩ := (all_bind x f).mp hall
  have hc : C := hx.needed (hok hv) hfirst
  exact ⟨hc, (hf hc).needed hv hsecond⟩

lemma Needs.seq {x : Traced ε β} {f : β → Traced ε α} (hx : x.Needs p (fun _ => True) C)
    (hf : C → (f x.val).Needs p ok C') : (x >>= f).Needs p ok (C ∧ C') :=
  hx.bind hf fun _ => trivial

lemma All.seq {x : Traced ε β} {f : β → Traced ε α} (hx : x.All p) (hf : (f x.val).Needs p ok C) :
    (x >>= f).Needs p ok C :=
  ((needs_of_all (fun _ => True) hx).seq fun _ => hf).congr (and_iff_right trivial)

/-- A sequence that stops where the first part is not `ok`. -/
theorem Needs.bind_stop {x : Traced ε β} {f : β → Traced ε α} {ok' : β → Prop} (hx : x.Needs p ok' C)
    (hstop : ∀ b, ¬ ok' b → ∃ a, f b = pure a ∧ ¬ ok a)
    (hf : C → ∀ b, ok' b → (f b).Needs p ok C') : (x >>= f).Needs p ok (C ∧ C') := by
  by_cases hok : ok' x.val
  · exact hx.bind (fun hc => hf hc x.val hok) fun _ => hok
  · obtain ⟨a, ha, hbad⟩ := hstop x.val hok
    refine hx.bind (fun _ => ?_) fun hv => ?_
    · rw [ha]
      exact needs_pure fun hgood => absurd hgood hbad
    · rw [ha] at hv
      exact absurd hv hbad

lemma Needs.bind_some {γ : Type v} {x : Traced ε (Option γ × β)} {f : Option γ × β → Traced ε α}
    (hx : x.Needs p (·.1.isSome) C) (hstop : ∀ b, ∃ a, f (none, b) = pure a ∧ ¬ ok a)
    (hf : C → ∀ c b, (f (some c, b)).Needs p ok C') : (x >>= f).Needs p ok (C ∧ C') := by
  refine hx.bind_stop ?_ fun hc => ?_
  · rintro ⟨r, b⟩ hr
    cases r with
    | none => exact hstop b
    | some c => exact absurd rfl hr
  · rintro ⟨r, b⟩ hr
    cases r with
    | none => cases hr
    | some c => exact hf hc c b

end Needs

end Traced

end Lib
