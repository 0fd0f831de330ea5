import Mathlib.Data.List.MinMax
import MyOs.Net.Routes

/-!
# Choosing a route

`find_best_route` and `netmask_to_prefix` of `init.c`.  The loop over `sys_route_get` keeps the first
route with the longest prefix so far, which is `List.argmax` over the matching routes
(`findBestLoop_eq`); a route with netmask 0 has its own branch there, and comes to the same.

On contiguous netmasks `netmask_to_prefix` counts the ones (`netmaskToPrefix_eq`), and two of them with
the same count are equal (`ContiguousMask.eq_of_prefixLength`).  So two matching routes with one prefix
length have one key, and since the kernel keeps every key once, the longest match is unique
(`unique_of_prefixLength`).  That is why the order of the table does not matter.
-/

namespace MyOs

open Lib List

/-! ## Netmasks -/

/-- The loop of `netmask_to_prefix` over the bits below `n`. -/
def netmaskToPrefixLoop (netmask : UInt32) : ℕ → ℤ → Bool → ℤ
  | 0, pre, _ => pre
  | i + 1, pre, zeroFound =>
    if netmask.toBitVec.getLsbD i then
      if zeroFound then -1 else netmaskToPrefixLoop netmask i (pre + 1) zeroFound
    else netmaskToPrefixLoop netmask i pre true

def netmaskToPrefix (netmask : UInt32) : ℤ := netmaskToPrefixLoop netmask 32 0 false

/-- The positions of the ones among the lowest `n` bits. -/
def onesBelow (netmask : UInt32) (n : ℕ) : Finset ℕ :=
  (Finset.range n).filter fun i => netmask.toBitVec.getLsbD i

/-- No zero stands above a one. -/
def ContiguousMask (netmask : UInt32) : Prop :=
  ∀ i ∈ onesBelow netmask 32, ∀ j ∈ Finset.Ico i 32, j ∈ onesBelow netmask 32

/-- The number of ones. -/
def prefixLength (netmask : UInt32) : ℕ := (onesBelow netmask 32).card

instance (netmask : UInt32) : Decidable (ContiguousMask netmask) :=
  inferInstanceAs (Decidable (∀ i ∈ onesBelow netmask 32, ∀ j ∈ Finset.Ico i 32, j ∈ onesBelow netmask 32))

variable {dest netmask : UInt32} {routes start : List NetRoute} {r : NetRoute}

lemma mem_onesBelow {n i : ℕ} :
    i ∈ onesBelow netmask n ↔ i < n ∧ netmask.toBitVec.getLsbD i = true := by
  simp [onesBelow]

lemma onesBelow_succ (netmask : UInt32) (n : ℕ) :
    onesBelow netmask (n + 1) =
      if netmask.toBitVec.getLsbD n then insert n (onesBelow netmask n) else onesBelow netmask n := by
  rw [onesBelow, Finset.range_add_one, Finset.filter_insert]
  rfl

lemma card_onesBelow_succ (netmask : UInt32) (n : ℕ) :
    (onesBelow netmask (n + 1)).card =
      (onesBelow netmask n).card + if netmask.toBitVec.getLsbD n then 1 else 0 := by
  rw [onesBelow_succ]
  split_ifs with h
  · exact Finset.card_insert_of_notMem fun hn => absurd (mem_onesBelow.mp hn).1 (lt_irrefl n)
  · rfl

/-- On a contiguous netmask the loop adds the ones it has not seen yet: once it has seen a zero there
are none. -/
lemma netmaskToPrefixLoop_eq (h : ContiguousMask netmask) :
    ∀ (n : ℕ) (pre : ℤ) (zeroFound : Bool), n ≤ 32 →
      (zeroFound = true → ∃ z, n ≤ z ∧ z < 32 ∧ netmask.toBitVec.getLsbD z = false) →
      netmaskToPrefixLoop netmask n pre zeroFound = pre + (onesBelow netmask n).card := by
  intro n
  induction n with
  | zero =>
    intro pre zeroFound _ _
    simp [netmaskToPrefixLoop, onesBelow]
  | succ n ih =>
    intro pre zeroFound hn hzero
    rw [netmaskToPrefixLoop, card_onesBelow_succ]
    split_ifs with hbit hz
    · -- a one below a zero
      obtain ⟨z, hnz, hz32, hz0⟩ := hzero hz
      have hone : z ∈ onesBelow netmask 32 :=
        h n (mem_onesBelow.mpr ⟨hn, hbit⟩) z (Finset.mem_Ico.mpr ⟨Nat.le_of_succ_le hnz, hz32⟩)
      rw [(mem_onesBelow.mp hone).2] at hz0
      cases hz0
    · rw [ih _ _ (Nat.le_of_succ_le hn) (fun hz' => absurd hz' hz)]
      push_cast
      ring
    · rw [ih _ _ (Nat.le_of_succ_le hn) (fun _ => ⟨n, le_rfl, hn, by simpa using hbit⟩)]
      simp

/-- **`netmask_to_prefix` counts the ones of a contiguous netmask.** -/
lemma netmaskToPrefix_eq (h : ContiguousMask netmask) :
    netmaskToPrefix netmask = prefixLength netmask := by
  rw [netmaskToPrefix, netmaskToPrefixLoop_eq h 32 0 false le_rfl (by simp), prefixLength, zero_add]

lemma ContiguousMask.subset_or {m m' : UInt32} (h : ContiguousMask m) (h' : ContiguousMask m') :
    onesBelow m 32 ⊆ onesBelow m' 32 ∨ onesBelow m' 32 ⊆ onesBelow m 32 := by
  rw [or_iff_not_imp_left, Finset.not_subset]
  rintro ⟨i, hi, hi'⟩ j hj
  have hij : i ≤ j := by
    by_contra hlt
    have hle : j ≤ i := (not_le.mp hlt).le
    exact hi' (h' j hj i (Finset.mem_Ico.mpr ⟨hle, (mem_onesBelow.mp hi).1⟩))
  exact h i hi j (Finset.mem_Ico.mpr ⟨hij, (mem_onesBelow.mp hj).1⟩)

/-- **A contiguous netmask is determined by its length.** -/
lemma ContiguousMask.eq_of_prefixLength {m m' : UInt32} (h : ContiguousMask m) (h' : ContiguousMask m')
    (hlen : prefixLength m = prefixLength m') : m = m' := by
  have hones : onesBelow m 32 = onesBelow m' 32 := by
    obtain hsub | hsub := h.subset_or h'
    · exact Finset.eq_of_subset_of_card_le hsub hlen.ge
    · exact (Finset.eq_of_subset_of_card_le hsub hlen.le).symm
  apply UInt32.toBitVec_inj.mp
  apply BitVec.eq_of_getLsbD_eq
  intro i hi
  have := Finset.ext_iff.mp hones i
  simp only [mem_onesBelow, hi, true_and] at this
  exact Bool.eq_iff_iff.mpr this

/-! ## The scan of the table -/

/-- One turn of the loop of `find_best_route`: `best_prefix` and `best` after a route. -/
def findBestStep (dest : UInt32) (route : NetRoute) (best : ℤ × NetRoute) : ℤ × NetRoute :=
  if route.netmask = 0 then
    if best.1 < 0 then (0, route) else best
  else if dest &&& route.netmask = route.dest then
    let pre := netmaskToPrefix route.netmask
    let pre := if pre < 0 then 0 else pre
    if best.1 < pre then (pre, route) else best
  else best

lemma netRouteGet_lt {idx : ℕ} {out : NetRoute} (h : ¬ (netRouteGet routes idx (some out)).1 < 0) :
    idx < routes.length := by
  by_contra hlt
  have hnone : routes[idx]? = none := getElem?_eq_none (not_lt.mp hlt)
  simp [netRouteGet, hnone] at h

/-- The loop of `find_best_route` from `idx` on.  It ends at the first index `sys_route_get` refuses. -/
def findBestLoop (routes : List NetRoute) (dest : UInt32) (idx : ℕ) (best : ℤ × NetRoute) :
    ℤ × NetRoute :=
  if h : (netRouteGet routes idx (some default)).1 < 0 then best
  else
    let route := (netRouteGet routes idx (some default)).2.getD default
    findBestLoop routes dest (idx + 1) (findBestStep dest route best)
termination_by routes.length - idx
decreasing_by
  have := netRouteGet_lt h
  omega

/-- `find_best_route`: the return value, and what `*out` and `*out_prefix` hold then. -/
def findBestRoute (routes : List NetRoute) (dest : UInt32) (out : Option NetRoute)
    (outPrefix : Option ℤ) : ℤ × Option NetRoute × Option ℤ :=
  let best := findBestLoop routes dest 0 (-1, ⟨0, 0, 0⟩)
  if best.1 < 0 then (0, out, outPrefix)
  else (1, out.map fun _ => best.2, outPrefix.map fun _ => best.1)

/-- A route covers a destination. -/
def NetRoute.Matches (r : NetRoute) (dest : UInt32) : Prop := dest &&& r.netmask = r.dest

instance (r : NetRoute) (dest : UInt32) : Decidable (r.Matches dest) :=
  inferInstanceAs (Decidable (_ = _))

/-- A route with a contiguous netmask and no bit of `dest` outside of it. -/
structure NetRoute.Canonical (r : NetRoute) : Prop where
  contiguous : ContiguousMask r.netmask
  masked : r.dest &&& r.netmask = r.dest

instance (r : NetRoute) : Decidable r.Canonical :=
  decidable_of_iff (ContiguousMask r.netmask ∧ r.dest &&& r.netmask = r.dest)
    ⟨fun h => ⟨h.1, h.2⟩, fun h => ⟨h.contiguous, h.masked⟩⟩

/-- The first of the longest matches. -/
def longestMatch (routes : List NetRoute) (dest : UInt32) : Option NetRoute :=
  (routes.filter fun r => r.Matches dest).argmax fun r => prefixLength r.netmask

/-- What `best_prefix` and `best` hold for a longest match. -/
def bestState : Option NetRoute → ℤ × NetRoute
  | none => (-1, ⟨0, 0, 0⟩)
  | some r => (prefixLength r.netmask, r)

lemma NetRoute.Canonical.matches_of_zero (hr : r.Canonical) (h : r.netmask = 0) (dest : UInt32) :
    r.Matches dest := by
  have hdest := hr.masked
  rw [h, UInt32.and_zero] at hdest
  rw [NetRoute.Matches, h, UInt32.and_zero, hdest]

lemma prefixLength_zero : prefixLength 0 = 0 := by decide

lemma longestMatch_concat (routes : List NetRoute) (r : NetRoute) (dest : UInt32) :
    longestMatch (routes ++ [r]) dest =
      if r.Matches dest then
        match longestMatch routes dest with
        | none => some r
        | some c => if prefixLength c.netmask < prefixLength r.netmask then some r else some c
      else longestMatch routes dest := by
  by_cases h : r.Matches dest
  · rw [if_pos h, longestMatch, filter_append, filter_singleton, decide_eq_true h,
      cond_true, argmax_concat, ← longestMatch]
    cases longestMatch routes dest <;> rfl
  · rw [if_neg h, longestMatch, filter_append, filter_singleton, decide_eq_false h,
      cond_false, append_nil, longestMatch]

/-- **One turn keeps the first of the longest matches.** -/
lemma findBestStep_eq (hr : r.Canonical) (routes : List NetRoute) (dest : UInt32) :
    findBestStep dest r (bestState (longestMatch routes dest)) =
      bestState (longestMatch (routes ++ [r]) dest) := by
  rw [longestMatch_concat, findBestStep, netmaskToPrefix_eq hr.contiguous]
  have hnonneg : ∀ n : ℕ, ¬ (n : ℤ) < 0 := fun n => by simp
  by_cases hzero : r.netmask = 0
  · -- the default route: its length is 0, and no match is shorter
    rw [if_pos hzero, if_pos (hr.matches_of_zero hzero dest), hzero, prefixLength_zero]
    cases longestMatch routes dest with
    | none => simp [bestState, hzero, prefixLength_zero]
    | some c => simp [bestState, hnonneg]
  · rw [if_neg hzero]
    by_cases hm : r.Matches dest
    · rw [if_pos hm, if_pos (show dest &&& r.netmask = r.dest from hm)]
      cases longestMatch routes dest with
      | none =>
        have hpos : (-1 : ℤ) < prefixLength r.netmask := by omega
        simp [bestState, hnonneg, hpos]
      | some c =>
        simp only [bestState, hnonneg, if_false, Nat.cast_lt]
        split_ifs <;> rfl
    · rw [if_neg hm, if_neg (show ¬ dest &&& r.netmask = r.dest from hm)]

/-- **The loop.**  Started with the longest match of the first `idx` routes, it ends with that of all. -/
lemma findBestLoop_eq (dest : UInt32) :
    ∀ (rest pre : List NetRoute), (∀ r ∈ rest, r.Canonical) →
      findBestLoop (pre ++ rest) dest pre.length (bestState (longestMatch pre dest)) =
        bestState (longestMatch (pre ++ rest) dest) := by
  intro rest
  induction rest with
  | nil =>
    intro pre _
    rw [findBestLoop, dif_pos (by simp [netRouteGet]), append_nil]
  | cons r rest ih =>
    intro pre hrest
    have hget : netRouteGet (pre ++ r :: rest) pre.length (some default) = (0, some r) := by
      simp [netRouteGet]
    rw [findBestLoop, dif_neg (by simp [hget])]
    simp only [hget, Option.getD_some]
    rw [findBestStep_eq (hrest r mem_cons_self)]
    simpa using ih (pre ++ [r]) fun r' hr' => hrest r' (mem_cons_of_mem r hr')

lemma findBestRoute_eq (h : ∀ r ∈ routes, r.Canonical) (dest : UInt32) (out : Option NetRoute)
    (outPrefix : Option ℤ) : findBestRoute routes dest out outPrefix =
      match longestMatch routes dest with
      | none => (0, out, outPrefix)
      | some r => (1, out.map fun _ => r, outPrefix.map fun _ => (prefixLength r.netmask : ℤ)) := by
  have hloop : findBestLoop routes dest 0 (-1, ⟨0, 0, 0⟩) = bestState (longestMatch routes dest) :=
    findBestLoop_eq dest routes [] h
  rw [findBestRoute, hloop]
  cases longestMatch routes dest with
  | none => rfl
  | some r => exact if_neg (by simp [bestState])

/-! ## The longest match is unique -/

/-- In a table with every key once, two canonical matches of one length are the same route. -/
lemma unique_of_prefixLength (hl : Keyed NetRoute.key netMaxRoutes routes)
    (h : ∀ r ∈ routes, r.Canonical) {r' : NetRoute} (hr : r ∈ routes) (hr' : r' ∈ routes)
    (hm : r.Matches dest) (hm' : r'.Matches dest)
    (hlen : prefixLength r.netmask = prefixLength r'.netmask) : r = r' := by
  have hmask : r.netmask = r'.netmask :=
    (h r hr).contiguous.eq_of_prefixLength (h r' hr').contiguous hlen
  have hdest : r.dest = r'.dest := by
    rw [← hm, ← hm', hmask]
  exact inj_on_of_nodup_map hl.nodup hr hr' (NetRoute.key_eq_iff.mpr ⟨hdest, hmask⟩)

/-- A matching route no other matching route of the table is longer than. -/
structure IsLongest (routes : List NetRoute) (dest : UInt32) (r : NetRoute) : Prop where
  mem : r ∈ routes
  hmatch : r.Matches dest
  longest : ∀ r' ∈ routes, r'.Matches dest → prefixLength r'.netmask ≤ prefixLength r.netmask

lemma IsLongest.eq (hl : Keyed NetRoute.key netMaxRoutes routes) (h : ∀ r ∈ routes, r.Canonical)
    {r' : NetRoute} (hr : IsLongest routes dest r) (hr' : IsLongest routes dest r') : r = r' :=
  unique_of_prefixLength hl h hr.mem hr'.mem hr.hmatch hr'.hmatch
    (le_antisymm (hr'.longest r hr.mem hr.hmatch) (hr.longest r' hr'.mem hr'.hmatch))

lemma longestMatch_eq_none : longestMatch routes dest = none ↔ ∀ r ∈ routes, ¬ r.Matches dest := by
  rw [longestMatch, argmax_eq_none]
  simp

lemma isLongest_of_longestMatch (h : longestMatch routes dest = some r) : IsLongest routes dest r := by
  have hmem := mem_filter.mp (argmax_mem h)
  refine ⟨hmem.1, by simpa using hmem.2, ?_⟩
  intro r' hr' hm'
  have hfilter : r' ∈ routes.filter fun r => r.Matches dest :=
    mem_filter.mpr ⟨hr', by simpa using hm'⟩
  have hle := le_of_mem_argmax hfilter h
  exact hle

lemma longestMatch_eq_some (hl : Keyed NetRoute.key netMaxRoutes routes) (h : ∀ r ∈ routes, r.Canonical) :
    longestMatch routes dest = some r ↔ IsLongest routes dest r := by
  refine ⟨isLongest_of_longestMatch, fun hr => ?_⟩
  cases hm : longestMatch routes dest with
  | none => exact absurd hr.hmatch (longestMatch_eq_none.mp hm r hr.mem)
  | some r' => rw [hr.eq hl h (isLongest_of_longestMatch hm)]

section

variable {routes' : List NetRoute} (hl : Keyed NetRoute.key netMaxRoutes routes)
  (hl' : Keyed NetRoute.key netMaxRoutes routes') (h : ∀ r ∈ routes, r.Canonical)
  (hsame : ∀ r, r ∈ routes' ↔ r ∈ routes)
include hl hl' h hsame

lemma longestMatch_congr (dest : UInt32) : longestMatch routes' dest = longestMatch routes dest := by
  ext r
  rw [longestMatch_eq_some hl h, longestMatch_eq_some hl' fun r hr => h r ((hsame r).mp hr)]
  constructor
  · rintro ⟨hmem, hm, hlong⟩
    exact ⟨(hsame r).mp hmem, hm, fun r' hr' => hlong r' ((hsame r').mpr hr')⟩
  · rintro ⟨hmem, hm, hlong⟩
    exact ⟨(hsame r).mpr hmem, hm, fun r' hr' => hlong r' ((hsame r').mp hr')⟩

lemma findBestRoute_congr (dest : UInt32) (out : Option NetRoute) (outPrefix : Option ℤ) :
    findBestRoute routes' dest out outPrefix = findBestRoute routes dest out outPrefix := by
  rw [findBestRoute_eq h, findBestRoute_eq fun r hr => h r ((hsame r).mp hr),
    longestMatch_congr hl hl' h hsame]

end

/-- A table of the kernel: it starts empty, and `net_init` puts the default route in. -/
lemma keyed_of_start (hstart : start = [] ∨ start = netInitRoutes) (calls : List (Option NetRoute)) :
    Keyed NetRoute.key netMaxRoutes (netRouteAdds start calls) := by
  rcases hstart with rfl | rfl
  · exact netRouteAdds_keyed keyed_nil calls
  · exact netRouteAdds_keyed keyed_netInit calls

/-- Routes that agree where their keys do, and all fit, make the same table in every order. -/
lemma mem_netRouteAdds_of_agree {added added' : List NetRoute}
    (hl : Keyed NetRoute.key netMaxRoutes start)
    (hroom : (routeKeys (start ++ added)).card ≤ netMaxRoutes)
    (hagree : ∀ r ∈ added, ∀ r' ∈ added, r.key = r'.key → r = r') (hsame : ∀ r, r ∈ added' ↔ r ∈ added)
    (r : NetRoute) :
    r ∈ netRouteAdds start (added'.map some) ↔ r ∈ netRouteAdds start (added.map some) := by
  rw [mem_iff_routeMap (netRouteAdds_keyed hl _), mem_iff_routeMap (netRouteAdds_keyed hl _),
    netRouteAdds_some, netRouteAdds_some, routeMap, routeMap,
    lookup_enterAll_of_agree hl hroom hagree hsame]

/-- The routes of a table, added in any order to the table it was made from, make it again. -/
lemma mem_netRouteAdds_of_table {order : List NetRoute} (hl : Keyed NetRoute.key netMaxRoutes start)
    (calls : List (Option NetRoute)) (hsame : ∀ r, r ∈ order ↔ r ∈ netRouteAdds start calls)
    (r : NetRoute) : r ∈ netRouteAdds start (order.map some) ↔ r ∈ netRouteAdds start calls := by
  rw [mem_iff_routeMap (netRouteAdds_keyed hl _), mem_iff_routeMap (netRouteAdds_keyed hl _),
    netRouteAdds_some, routeMap, routeMap, lookup_enterAll_of_keyed hl (netRouteAdds_keyed hl calls)
      (fun _ hkey => mem_keys_netRouteAdds hkey calls) hsame]

/-- **Longest-prefix routing.**  In every table of canonical routes that calls of `net_route_add` lead
to, `find_best_route` finds the one longest match and its length, and returns 0 if and only if no route
matches.  Another run of calls that ends with the same routes, wherever they stand, gives the same answer;
so do the routes of the table when they are added in any order, and a run of routes in another order, if
they fit and no key has two gateways among them. -/
theorem findBestRoute_longest (start : List NetRoute) (hstart : start = [] ∨ start = netInitRoutes)
    (calls : List (Option NetRoute)) (hcanon : ∀ r ∈ netRouteAdds start calls, r.Canonical)
    (dest : UInt32) :
    let routes := netRouteAdds start calls
    ((∃ r ∈ routes, r.Matches dest) → ∃ r, IsLongest routes dest r ∧
      (∀ r', IsLongest routes dest r' → r' = r) ∧
      ∀ out outPrefix, findBestRoute routes dest out outPrefix =
        (1, out.map fun _ => r, outPrefix.map fun _ => (prefixLength r.netmask : ℤ))) ∧
    (∀ out outPrefix, (findBestRoute routes dest out outPrefix).1 = 0 ↔
      ∀ r ∈ routes, ¬ r.Matches dest) ∧
    (∀ start' calls', start' = [] ∨ start' = netInitRoutes →
      (∀ r, r ∈ netRouteAdds start' calls' ↔ r ∈ routes) →
      ∀ out outPrefix, findBestRoute (netRouteAdds start' calls') dest out outPrefix =
        findBestRoute routes dest out outPrefix) ∧
    (∀ order : List NetRoute, (∀ r, r ∈ order ↔ r ∈ routes) →
      ∀ out outPrefix, findBestRoute (netRouteAdds start (order.map some)) dest out outPrefix =
        findBestRoute routes dest out outPrefix) ∧
    (∀ added added' : List NetRoute, calls = added.map some →
      (routeKeys (start ++ added)).card ≤ netMaxRoutes →
      (∀ r ∈ added, ∀ r' ∈ added, r.key = r'.key → r = r') →
      (∀ r, r ∈ added' ↔ r ∈ added) →
      ∀ out outPrefix, findBestRoute (netRouteAdds start (added'.map some)) dest out outPrefix =
        findBestRoute routes dest out outPrefix) := by
  intro routes
  have hl : Keyed NetRoute.key netMaxRoutes routes := keyed_of_start hstart calls
  have hl0 : Keyed NetRoute.key netMaxRoutes start := keyed_of_start hstart []
  refine ⟨?_, ?_, ?_, ?_, ?_⟩
  · rintro ⟨r0, hr0, hm0⟩
    cases hlong : longestMatch routes dest with
    | none => exact absurd hm0 (longestMatch_eq_none.mp hlong r0 hr0)
    | some r =>
      have hr := isLongest_of_longestMatch hlong
      refine ⟨r, hr, fun r' hr' => hr'.eq hl hcanon hr, ?_⟩
      intro out outPrefix
      rw [findBestRoute_eq hcanon, hlong]
  · intro out outPrefix
    rw [findBestRoute_eq hcanon, ← longestMatch_eq_none]
    cases longestMatch routes dest <;> simp
  · intro start' calls' hstart' hsame out outPrefix
    exact findBestRoute_congr hl (keyed_of_start hstart' calls') hcanon hsame dest out outPrefix
  · intro order hsame out outPrefix
    exact findBestRoute_congr hl (netRouteAdds_keyed hl0 _) hcanon
      (mem_netRouteAdds_of_table hl0 calls hsame) dest out outPrefix
  · rintro added added' rfl hroom hagree hsame out outPrefix
    exact findBestRoute_congr hl (netRouteAdds_keyed hl0 _) hcanon
      (mem_netRouteAdds_of_agree hl0 hroom hagree hsame) dest out outPrefix

/-- 10.0.0.0/8 -/
def privateNet : NetRoute := ⟨0x0A000000, 0xFF000000, 0xC0A80002⟩

/-- 10.1.0.0/16 -/
def privateSubnet : NetRoute := ⟨0x0A010000, 0xFFFF0000, 0xC0A80003⟩

/-- Both cover 10.1.2.3, as the default route does; the longer one is found, though it is not the last. -/
theorem findBestRoute_longest_private :
    findBestRoute (netRouteAdds netInitRoutes [some privateSubnet, some privateNet]) 0x0A010203
      (some default) (some 0) = (1, some privateSubnet, some 16) := by
  have hmem : privateSubnet ∈ netRouteAdds netInitRoutes [some privateSubnet, some privateNet] := by
    decide
  have hm : privateSubnet.Matches 0x0A010203 := by decide
  obtain ⟨r, hr, -, hfind⟩ :=
    (findBestRoute_longest netInitRoutes (Or.inr rfl) [some privateSubnet, some privateNet]
      (by decide +kernel) 0x0A010203).1 ⟨privateSubnet, hmem, hm⟩
  have hall : ∀ r ∈ netRouteAdds netInitRoutes [some privateSubnet, some privateNet],
      prefixLength privateSubnet.netmask ≤ prefixLength r.netmask → r = privateSubnet := by
    decide +kernel
  obtain rfl := hall r hr.mem (hr.longest privateSubnet hmem hm)
  rw [hfind]
  decide +kernel

end MyOs
