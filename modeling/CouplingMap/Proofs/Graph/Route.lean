import CouplingMap.Graph.LongestPath
import Mathlib.Data.List.Chain

/-!
# Routes

A route is a simple path without blocked vertices. The search for long paths meets routes in a
certain order, which a recursion on their length describes.

* `Route`: simple paths without blocked vertices.
* `routes`: the routes that go on from one for a number of vertices, in the order in which a search
  backs out of them.
* `mem_allRoutes`: no route of at most a number of vertices is left out.
* `head?_allRoutes`: the route that comes before all others.
* `longer`: the longer of two paths; the first one keeps its place if they are equally long.
-/

namespace CouplingMap.Graph

variable {n : Nat} {adj : Adjacency n} {blocked : Ledger Bool n} {more : Nat} {v w : Fin n}
  {back ws p q b : List (Fin n)} {ps : List (List (Fin n))}

/-- A simple path without blocked vertices. -/
structure Route (adj : Adjacency n) (blocked : Ledger Bool n) (p : List (Fin n)) : Prop where
  nodup : p.Nodup
  free : ∀ v ∈ p, blocked[v] = false
  chain : p.IsChain fun a b => b ∈ adj a

/-- The vertices along which a route that ends at `v` can go on. -/
def onward (blocked : Ledger Bool n) (v : Fin n) (back : List (Fin n)) (w : Fin n) : Bool :=
  !blocked[w] && !(v :: back).contains w

/-- The routes that begin with a route and go on for a number of vertices at most. The route is
given backwards, with `v` as its last vertex. -/
def routes (adj : Adjacency n) (blocked : Ledger Bool n) :
    Nat → Fin n → List (Fin n) → List (List (Fin n))
  | 0, v, back => [(v :: back).reverse]
  | more + 1, v, back =>
    ((adj v).filter (onward blocked v back)).flatMap (fun w =>
      routes adj blocked more w (v :: back)) ++ [(v :: back).reverse]

/-- The same, if the next vertex is one of `ws`. -/
def routesAlong (adj : Adjacency n) (blocked : Ledger Bool n) (more : Nat) (v : Fin n)
    (back ws : List (Fin n)) : List (List (Fin n)) :=
  (ws.filter (onward blocked v back)).flatMap (fun w => routes adj blocked more w (v :: back)) ++
    [(v :: back).reverse]

theorem routes_succ : routes adj blocked (more + 1) v back =
    routesAlong adj blocked more v back (adj v) := rfl

theorem routesAlong_skip (h : onward blocked v back w = false) :
    routesAlong adj blocked more v back (w :: ws) = routesAlong adj blocked more v back ws := by
  rw [routesAlong, List.filter_cons_of_neg (Bool.eq_false_iff.1 h), routesAlong]

theorem routesAlong_enter (h : onward blocked v back w = true) :
    routesAlong adj blocked more v back (w :: ws) =
      routes adj blocked more w (v :: back) ++ routesAlong adj blocked more v back ws := by
  rw [routesAlong, List.filter_cons_of_pos h, List.flatMap_cons, List.append_assoc, routesAlong]

theorem mem_routesAlong : p ∈ routesAlong adj blocked more v back ws ↔
    (∃ w ∈ ws, onward blocked v back w = true ∧ p ∈ routes adj blocked more w (v :: back)) ∨
      p = (v :: back).reverse := by
  simp only [routesAlong, List.mem_append, List.mem_flatMap, List.mem_filter, List.mem_singleton,
    and_assoc]

/-- The routes of a number of vertices at most, from every start in turn. -/
def allRoutes (adj : Adjacency n) (blocked : Ledger Bool n) : Nat → List (List (Fin n))
  | 0 => []
  | more + 1 => ((List.finRange n).filter fun v => !blocked[v]).flatMap fun v =>
      routes adj blocked more v []

theorem routesAlong_subset (hws : ws ⊆ adj v)
    (hp : p ∈ routesAlong adj blocked more v back ws) :
    p ∈ routes adj blocked (more + 1) v back := by
  rw [routes_succ, mem_routesAlong]
  refine (mem_routesAlong.1 hp).imp_left ?_
  rintro ⟨w, hw, h⟩
  exact ⟨w, hws hw, h⟩

theorem Route.nil : Route adj blocked [] := ⟨.nil, by simp, .nil⟩

theorem Route.singleton (h : blocked[v] = false) : Route adj blocked [v] :=
  ⟨List.pairwise_singleton _ v, by simpa using h, .singleton v⟩

theorem Route.onward (h : Route adj blocked (v :: back).reverse) (hw : w ∈ adj v)
    (ho : onward blocked v back w = true) : Route adj blocked (w :: v :: back).reverse := by
  simp only [Graph.onward, Bool.and_eq_true, Bool.not_eq_true', List.contains_eq_mem,
    decide_eq_false_iff_not] at ho
  refine ⟨?_, ?_, ?_⟩
  · have hnodup := (List.reverse_perm _).nodup_iff.1 h.nodup
    exact (List.reverse_perm _).nodup_iff.2 (List.nodup_cons.2 ⟨ho.2, hnodup⟩)
  · intro u hu
    rcases List.mem_cons.1 (List.mem_reverse.1 hu) with rfl | hu
    · exact ho.1
    · exact h.free u (List.mem_reverse.2 hu)
  · have hchain := List.isChain_reverse.1 h.chain
    exact List.isChain_reverse.2 (List.isChain_cons_cons.2 ⟨hw, hchain⟩)

/-- What goes on from a route is a route. -/
theorem route_of_mem_routes (h : Route adj blocked (v :: back).reverse)
    (hp : p ∈ routes adj blocked more v back) : Route adj blocked p := by
  induction more generalizing v back with
  | zero => exact List.mem_singleton.1 hp ▸ h
  | succ more ih =>
    rw [routes_succ, mem_routesAlong] at hp
    rcases hp with ⟨w, hw, ho, hp⟩ | rfl
    · exact ih (h.onward hw ho) hp
    · exact h

theorem route_of_mem_allRoutes (hp : p ∈ allRoutes adj blocked more) : Route adj blocked p := by
  cases more with
  | zero => contradiction
  | succ more =>
    obtain ⟨v, hv, hp⟩ := List.mem_flatMap.1 hp
    have hfree := (List.mem_filter.1 hv).2
    rw [Bool.not_eq_true'] at hfree
    exact route_of_mem_routes (.singleton hfree) hp

theorem length_le_of_mem_routes (hp : p ∈ routes adj blocked more v back) :
    p.length ≤ back.length + 1 + more := by
  induction more generalizing v back with
  | zero => rw [List.mem_singleton.1 hp, List.length_reverse, List.length_cons]
  | succ more ih =>
    rw [routes_succ, mem_routesAlong] at hp
    rcases hp with ⟨w, -, -, hp⟩ | rfl
    · have := ih hp
      rw [List.length_cons] at this
      omega
    · rw [List.length_reverse, List.length_cons]
      omega

/-! ## No route is left out -/

theorem ne_nil_of_mem_routes (hp : p ∈ routes adj blocked more v back) : p ≠ [] := by
  induction more generalizing v back with
  | zero =>
    rw [List.mem_singleton.1 hp]
    simp
  | succ more ih =>
    rw [routes_succ, mem_routesAlong] at hp
    rcases hp with ⟨w, -, -, hp⟩ | rfl
    · exact ih hp
    · simp

/-- A vertex that a route goes on to is one along which it can go on. -/
theorem Route.onward_of_append (h : Route adj blocked ((v :: back).reverse ++ w :: q)) :
    w ∈ adj v ∧ Graph.onward blocked v back w = true := by
  have hchain := (List.isChain_append.1 h.chain).2.2
  have hapart := (List.nodup_append.1 h.nodup).2.2
  refine ⟨hchain v (by simp) w (by simp), ?_⟩
  simp only [Graph.onward, Bool.and_eq_true, Bool.not_eq_true', List.contains_eq_mem,
    decide_eq_false_iff_not]
  refine ⟨h.free w (by simp), fun hw => ?_⟩
  exact hapart w (List.mem_reverse.2 hw) w List.mem_cons_self rfl

/-- A route is among those that go on from its beginning. -/
theorem mem_routes_of_route (h : Route adj blocked ((v :: back).reverse ++ q))
    (hq : q.length ≤ more) : (v :: back).reverse ++ q ∈ routes adj blocked more v back := by
  induction q generalizing more v back with
  | nil =>
    rw [List.append_nil]
    cases more with
    | zero => exact List.mem_singleton_self _
    | succ more => exact mem_routesAlong.2 (Or.inr rfl)
  | cons w q ih =>
    obtain ⟨more, rfl⟩ : ∃ m, more = m + 1 := Nat.exists_eq_add_one.2 (by
      rw [List.length_cons] at hq
      omega)
    obtain ⟨hw, ho⟩ := h.onward_of_append
    have hsplit : (v :: back).reverse ++ w :: q = (w :: v :: back).reverse ++ q := by simp
    rw [hsplit] at h ⊢
    exact mem_routesAlong.2 (Or.inl ⟨w, hw, ho, ih h (Nat.le_of_succ_le_succ hq)⟩)

/-- The routes that are listed are all that have a vertex and are not too long. -/
theorem mem_allRoutes :
    p ∈ allRoutes adj blocked more ↔ Route adj blocked p ∧ p ≠ [] ∧ p.length ≤ more := by
  constructor
  · intro hp
    refine ⟨route_of_mem_allRoutes hp, ?_⟩
    cases more with
    | zero => contradiction
    | succ more =>
      obtain ⟨v, -, hp⟩ := List.mem_flatMap.1 hp
      have hlength := length_le_of_mem_routes hp
      rw [List.length_nil] at hlength
      exact ⟨ne_nil_of_mem_routes hp, by omega⟩
  · rintro ⟨hroute, hne, hlength⟩
    obtain ⟨v, q, rfl⟩ := List.exists_cons_of_ne_nil hne
    obtain ⟨more, rfl⟩ : ∃ m, more = m + 1 := Nat.exists_eq_add_one.2 (by
      rw [List.length_cons] at hlength
      omega)
    have hfree := hroute.free v List.mem_cons_self
    refine List.mem_flatMap.2 ⟨v, ?_, mem_routes_of_route hroute (Nat.le_of_succ_le_succ hlength)⟩
    exact List.mem_filter.2 ⟨List.mem_finRange v, by rw [hfree]; rfl⟩

/-! ## The first route -/

/-- A route that goes on to the first neighbour every time comes before the others. -/
theorem head?_routes (h : Route adj blocked ((v :: back).reverse ++ q))
    (hfirst : (v :: q).IsChain fun a b => (adj a).head? = some b) :
    (routes adj blocked q.length v back).head? = some ((v :: back).reverse ++ q) := by
  induction q generalizing v back with
  | nil =>
    rw [List.append_nil]
    rfl
  | cons w q ih =>
    obtain ⟨hw, hfirst⟩ := List.isChain_cons_cons.1 hfirst
    obtain ⟨ws, hws⟩ := List.head?_eq_some_iff.1 hw
    have ho := h.onward_of_append.2
    have hsplit : (v :: back).reverse ++ w :: q = (w :: v :: back).reverse ++ q := by simp
    rw [hsplit] at h ⊢
    rw [List.length_cons, routes_succ, hws, routesAlong_enter ho, List.head?_append, ih h hfirst]
    rfl

/-- The same among the routes from every start, if it starts at the first free vertex. -/
theorem head?_allRoutes (h : Route adj blocked (v :: q))
    (hstart : ∀ w < v, blocked[w] = true)
    (hfirst : (v :: q).IsChain fun a b => (adj a).head? = some b) :
    (allRoutes adj blocked (v :: q).length).head? = some (v :: q) := by
  have hstarts : ((List.finRange n).filter fun w => !blocked[w]).head? = some v := by
    rw [List.head?_filter, List.find?_eq_some_iff_getElem]
    refine ⟨by rw [h.free v List.mem_cons_self]; rfl, v, by simp, by simp, fun j hj => ?_⟩
    simpa using hstart ⟨j, hj.trans v.isLt⟩ hj
  obtain ⟨vs, hvs⟩ := List.head?_eq_some_iff.1 hstarts
  rw [List.length_cons, allRoutes, hvs, List.flatMap_cons, List.head?_append, head?_routes h hfirst]
  rfl

/-! ## The longest of some paths -/

/-- The longer of two paths; the first one keeps its place if they are equally long. -/
def longer (b p : List (Fin n)) : List (Fin n) := if b.length < p.length then p else b

theorem longer_of_lt (h : b.length < p.length) : longer b p = p := if_pos h

theorem length_longer_lt {k : Nat} (hb : b.length < k) (hp : p.length < k) :
    (longer b p).length < k := by
  unfold longer
  split
  · exact hp
  · exact hb

theorem longer_of_le (h : p.length ≤ b.length) : longer b p = b := if_neg (Nat.not_lt.2 h)

/-- The longest of some paths is one of them. -/
theorem foldl_longer_mem (b : List (Fin n)) (ps : List (List (Fin n))) :
    ps.foldl longer b ∈ b :: ps := by
  refine List.foldlRecOn ps longer List.mem_cons_self fun c hc p hp => ?_
  unfold longer
  split
  · exact List.mem_cons_of_mem _ hp
  · exact hc

theorem le_length_longer (b p : List (Fin n)) :
    b.length ≤ (longer b p).length ∧ p.length ≤ (longer b p).length := by
  unfold longer
  split <;> omega

/-- None of some paths is longer than the longest. -/
theorem le_length_foldl_longer (b : List (Fin n)) (ps : List (List (Fin n))) :
    ∀ p ∈ b :: ps, p.length ≤ (ps.foldl longer b).length := by
  induction ps generalizing b with
  | nil => simp
  | cons q ps ih =>
    obtain ⟨hb, hq⟩ := le_length_longer b q
    have hnext := ih (longer b q) _ List.mem_cons_self
    intro p hp
    rcases List.mem_cons.1 hp with rfl | hp
    · exact hb.trans hnext
    · rcases List.mem_cons.1 hp with rfl | hp
      · exact hq.trans hnext
      · exact ih (longer b q) p (List.mem_cons_of_mem _ hp)

/-- Paths that are not longer change nothing. -/
theorem foldl_longer_of_le (h : ∀ p ∈ ps, p.length ≤ b.length) : ps.foldl longer b = b := by
  induction ps with
  | nil => rfl
  | cons p ps ih =>
    rw [List.foldl_cons, longer_of_le (h p List.mem_cons_self)]
    exact ih fun q hq => h q (List.mem_cons_of_mem _ hq)

end CouplingMap.Graph
