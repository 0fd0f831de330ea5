import MyOs.Lib.KeyedTables

/-!
# The routing table

`net_route_add` and `net_route_get` of `net.c`, over the used part of `g_routes`: `g_route_count` is the
length of the list.  A pointer that may be null is an `Option`.

A route is kept under `(dest, netmask)`.  What the table means is `routeMap`, the gateway of each such
key.  An accepted call is `Lib.enter` (`netRouteAdd_some`), so that the invariant `Lib.Keyed` and what a
call does to the map come from there; `routes_boundedMap` puts it together for every table that calls can
lead to.
-/

namespace MyOs

open Lib
open List hiding lookup

abbrev netMaxRoutes : ℕ := 8

/-- `net_route_t` -/
structure NetRoute where
  dest : UInt32
  netmask : UInt32
  gateway : UInt32
deriving DecidableEq, Repr, Inhabited

/-- What `net_route_add` compares. -/
def NetRoute.key (r : NetRoute) : UInt32 × UInt32 := (r.dest, r.netmask)

/-- The route `net_init` enters. -/
def defaultRoute : NetRoute := ⟨0, 0, 0xC0A80001⟩

/-- `g_routes` after `net_init`. -/
def netInitRoutes : List NetRoute := [defaultRoute]

/-- `net_route_get`: the return value and what `*out` holds then. -/
def netRouteGet (routes : List NetRoute) (index : ℕ) (out : Option NetRoute) : ℤ × Option NetRoute :=
  match out with
  | none => (-1, none)
  | some old =>
    match routes[index]? with
    | none => (-1, some old)
    | some route => (0, some route)

/-- The loop of `net_route_add`, over the entries from `i` on. -/
def setGateway (route : NetRoute) : List NetRoute → Option (List NetRoute)
  | [] => none
  | r :: rs =>
    if r.dest = route.dest ∧ r.netmask = route.netmask then
      some ({ r with gateway := route.gateway } :: rs)
    else (setGateway route rs).map (r :: ·)

def netRouteAdd (route : Option NetRoute) (routes : List NetRoute) : ℤ × List NetRoute :=
  match route with
  | none => (-1, routes)
  | some route =>
    match setGateway route routes with
    | some routes' => (0, routes')
    | none => if netMaxRoutes ≤ routes.length then (-1, routes) else (0, routes ++ [route])

/-- The table after a run of calls. -/
def netRouteAdds (routes : List NetRoute) (calls : List (Option NetRoute)) : List NetRoute :=
  calls.foldl (fun routes route => (netRouteAdd route routes).2) routes

/-! ## The map the table stands for -/

/-- The gateway of each key. -/
def routeMap (routes : List NetRoute) (key : UInt32 × UInt32) : Option UInt32 :=
  (lookup NetRoute.key key routes).map NetRoute.gateway

/-- The keys that have a gateway. -/
def routeKeys (routes : List NetRoute) : Finset (UInt32 × UInt32) := (routes.map NetRoute.key).toFinset

variable {r route : NetRoute} {routes : List NetRoute} {key : UInt32 × UInt32}

lemma NetRoute.key_eq_iff :
    r.key = route.key ↔ r.dest = route.dest ∧ r.netmask = route.netmask := Prod.ext_iff

lemma NetRoute.ext_key (hkey : r.key = route.key) (hgateway : r.gateway = route.gateway) :
    r = route := by
  cases r
  cases route
  simp_all [NetRoute.key]

lemma setGateway_eq (route : NetRoute) (routes : List NetRoute) :
    setGateway route routes = overwrite NetRoute.key route routes := by
  induction routes with
  | nil => rfl
  | cons r rs ih =>
    rw [setGateway, overwrite, ih]
    simp only [← NetRoute.key_eq_iff]
    split_ifs with h
    · -- writing the gateway over an entry with the same key writes the whole route
      have hr : ({ r with gateway := route.gateway } : NetRoute) = route := NetRoute.ext_key h rfl
      rw [hr]
    · rfl

lemma netRouteAdd_some (route : NetRoute) (routes : List NetRoute) :
    netRouteAdd (some route) routes =
      match enter NetRoute.key netMaxRoutes route routes with
      | some routes' => (0, routes')
      | none => (-1, routes) := by
  simp only [netRouteAdd, enter, setGateway_eq]
  cases overwrite NetRoute.key route routes with
  | some routes' => rfl
  | none => split_ifs <;> rfl

lemma netRouteAdd_eq_zero {routes' : List NetRoute} :
    netRouteAdd (some route) routes = (0, routes') ↔
      enter NetRoute.key netMaxRoutes route routes = some routes' := by
  rw [netRouteAdd_some]
  cases enter NetRoute.key netMaxRoutes route routes <;> simp

lemma netRouteAdd_fst_eq_neg_one :
    (netRouteAdd (some route) routes).1 = -1 ↔
      enter NetRoute.key netMaxRoutes route routes = none := by
  rw [netRouteAdd_some]
  cases enter NetRoute.key netMaxRoutes route routes <;> simp

lemma netRouteAdd_snd_of_refused (h : (netRouteAdd (some route) routes).1 = -1) :
    (netRouteAdd (some route) routes).2 = routes := by
  rw [netRouteAdd_some, netRouteAdd_fst_eq_neg_one.mp h]

lemma netRouteAdd_keyed (hl : Keyed NetRoute.key netMaxRoutes routes) (route : Option NetRoute) :
    Keyed NetRoute.key netMaxRoutes (netRouteAdd route routes).2 := by
  cases route with
  | none => exact hl
  | some route =>
    rw [netRouteAdd_some]
    cases h : enter NetRoute.key netMaxRoutes route routes with
    | none => exact hl
    | some routes' => exact hl.enter h

lemma netRouteAdds_keyed (hl : Keyed NetRoute.key netMaxRoutes routes) (calls : List (Option NetRoute)) :
    Keyed NetRoute.key netMaxRoutes (netRouteAdds routes calls) := by
  induction calls generalizing routes with
  | nil => exact hl
  | cons route calls ih => exact ih (netRouteAdd_keyed hl route)

lemma keyed_nil : Keyed NetRoute.key netMaxRoutes [] := ⟨nodup_nil, Nat.zero_le _⟩

lemma keyed_netInit : Keyed NetRoute.key netMaxRoutes netInitRoutes :=
  ⟨nodup_singleton _, by decide⟩

lemma netRouteAdds_some (routes added : List NetRoute) :
    netRouteAdds routes (added.map some) = enterAll NetRoute.key netMaxRoutes routes added := by
  induction added generalizing routes with
  | nil => rfl
  | cons route added ih =>
    have hstep : (netRouteAdd (some route) routes).2 =
        (enter NetRoute.key netMaxRoutes route routes).getD routes := by
      rw [netRouteAdd_some]
      cases enter NetRoute.key netMaxRoutes route routes <;> rfl
    simp only [netRouteAdds, enterAll, map_cons, foldl_cons, hstep] at ih ⊢
    exact ih _

lemma mem_keys_netRouteAdd (hkey : key ∈ routes.map NetRoute.key) (route : Option NetRoute) :
    key ∈ (netRouteAdd route routes).2.map NetRoute.key := by
  cases route with
  | none => exact hkey
  | some route =>
    rw [netRouteAdd_some]
    cases h : enter NetRoute.key netMaxRoutes route routes with
    | none => exact hkey
    | some routes' => exact (mem_keys_enter h).mpr (Or.inr hkey)

lemma mem_keys_netRouteAdds (hkey : key ∈ routes.map NetRoute.key) (calls : List (Option NetRoute)) :
    key ∈ (netRouteAdds routes calls).map NetRoute.key := by
  induction calls generalizing routes with
  | nil => exact hkey
  | cons route calls ih => exact ih (mem_keys_netRouteAdd hkey route)

lemma mem_iff_routeMap (hl : Keyed NetRoute.key netMaxRoutes routes) (r : NetRoute) :
    r ∈ routes ↔ routeMap routes r.key = some r.gateway := by
  rw [routeMap, Option.map_eq_some_iff]
  constructor
  · intro hr
    exact ⟨r, (lookup_eq_some hl.nodup).mpr ⟨hr, rfl⟩, rfl⟩
  · rintro ⟨r', h, hgateway⟩
    obtain ⟨hmem, hkey⟩ := mem_of_lookup h
    rwa [← NetRoute.ext_key hkey hgateway]

lemma routeMap_of_added {routes' : List NetRoute} (h : netRouteAdd (some route) routes = (0, routes'))
    (key : UInt32 × UInt32) :
    routeMap routes' key = if route.key = key then some route.gateway else routeMap routes key := by
  rw [routeMap, lookup_enter (netRouteAdd_eq_zero.mp h), routeMap]
  split_ifs <;> rfl

lemma routeMap_eq_none : routeMap routes key = none ↔ key ∉ routes.map NetRoute.key := by
  rw [routeMap, Option.map_eq_none_iff, lookup_eq_none]

lemma netRouteGet_eq_zero {index : ℕ} {old : NetRoute} :
    netRouteGet routes index (some old) = (0, some r) ↔ routes[index]? = some r := by
  rw [netRouteGet]
  cases routes[index]? <;> simp

/-- **The routing table is a bounded map.**  In every table that calls of `net_route_add` make of the
one `net_init` leaves, the entries are no more than `NET_MAX_ROUTES` and no two have one key; an accepted
call sets the gateway of its key and of no other; a call with a route is refused if and only if its key
is new and all the room is taken, and then, as for a null pointer, nothing changes; and `net_route_get`
runs over the map, each key once. -/
theorem routes_boundedMap (calls : List (Option NetRoute)) :
    let routes := netRouteAdds netInitRoutes calls
    (routes.length ≤ netMaxRoutes ∧ (routes.map NetRoute.key).Nodup) ∧
    (∀ route routes', netRouteAdd (some route) routes = (0, routes') →
      routeMap routes' route.key = some route.gateway ∧
        ∀ key, key ≠ route.key → routeMap routes' key = routeMap routes key) ∧
    (∀ route, (netRouteAdd (some route) routes).1 = 0 ∨ (netRouteAdd (some route) routes).1 = -1) ∧
    (∀ route, (netRouteAdd (some route) routes).1 = -1 ↔
      routeMap routes route.key = none ∧ (routeKeys routes).card = netMaxRoutes) ∧
    (∀ route, (netRouteAdd route routes).1 = -1 → (netRouteAdd route routes).2 = routes) ∧
    (∀ r out, (∃ index, netRouteGet routes index (some out) = (0, some r)) ↔
      routeMap routes r.key = some r.gateway) ∧
    (∀ i j r r' out, netRouteGet routes i (some out) = (0, some r) →
      netRouteGet routes j (some out) = (0, some r') → r.key = r'.key → i = j) := by
  intro routes
  have hl : Keyed NetRoute.key netMaxRoutes routes := netRouteAdds_keyed keyed_netInit calls
  refine ⟨⟨hl.length_le, hl.nodup⟩, ?_, ?_, ?_, ?_, ?_, ?_⟩
  · intro route routes' h
    refine ⟨by rw [routeMap_of_added h, if_pos rfl], ?_⟩
    intro key hkey
    rw [routeMap_of_added h, if_neg (Ne.symm hkey)]
  · intro route
    rw [netRouteAdd_some]
    cases enter NetRoute.key netMaxRoutes route routes <;> simp
  · intro route
    have hcard : (routeKeys routes).card = routes.length := hl.length_eq_card.symm
    rw [netRouteAdd_fst_eq_neg_one, enter_eq_none, routeMap_eq_none, hcard]
    have hlength := hl.length_le
    exact and_congr_right fun _ => ⟨fun h => le_antisymm hlength h, fun h => h.ge⟩
  · intro route h
    cases route with
    | none => rfl
    | some route => exact netRouteAdd_snd_of_refused h
  · intro r out
    simp only [netRouteGet_eq_zero, ← mem_iff_routeMap hl, mem_iff_getElem?]
  · intro i j r r' out hi hj hkey
    have hi : (routes.map NetRoute.key)[i]? = some r.key := by
      rw [getElem?_map, netRouteGet_eq_zero.mp hi, Option.map_some]
    have hj : (routes.map NetRoute.key)[j]? = some r.key := by
      rw [getElem?_map, netRouteGet_eq_zero.mp hj, Option.map_some, hkey]
    have hlt : i < (routes.map NetRoute.key).length := (List.getElem?_eq_some_iff.mp hi).1
    exact (getElem?_inj hlt hl.nodup).mp (hi.trans hj.symm)

end MyOs
