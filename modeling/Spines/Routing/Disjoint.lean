/-
What `MultiPath_Compute` is for: node-disjoint paths.

The nodes of a live path from the local node to the destination are followed, in
the split network, by alternating edge pairs and node pairs (`path_pairs`). Both
ways this turns families of paths into flows: a family that shares no inner node
and no edge is a flow of its size and cost (`Node_Disjoint.carries`), and the
walks of a flow are such a family (`exists_paths`).

One thing is not given back by a flow: it may contain cycles. They cost nothing,
since the flow is cheapest, but their edges are in the mask.
-/
import Spines.Routing.MultiPath
import Mathlib.Data.Nat.Bitwise

set_option autoImplicit false

namespace Spines.MultiPath

open Spines.Lib Spines.Routing
open List hiding mem_filter mem_singleton mem_singleton_self

/-! ## 1. Families of paths -/

def hops (p : List ℕ) : List (ℕ × ℕ) := p.zip p.tail

def inner_nodes (p : List ℕ) : List ℕ := p.tail.dropLast

/-- `p` are the nodes of a simple path along edges that are up. -/
structure Live_Path (tp : Topology) (ls : Link_States) (dest_id : ℕ) (p : List ℕ) : Prop where
  first : p.head? = some tp.My_ID
  last : p.getLast? = some dest_id
  nodup : p.Nodup
  hops : ∀ h ∈ hops p, tp.Linked h.1 h.2 ∧ (ls.edge h.1 h.2).cost ≠ -1

structure Node_Disjoint (tp : Topology) (ls : Link_States) (dest_id : ℕ) (P : List (List ℕ)) :
    Prop where
  live : ∀ p ∈ P, Live_Path tp ls dest_id p
  apart : P.Pairwise fun p q =>
    (∀ v ∈ inner_nodes p, v ∉ inner_nodes q) ∧ ∀ h ∈ hops p, h ∉ hops q

def family_hops (P : List (List ℕ)) : List (ℕ × ℕ) := P.flatMap hops

def total_cost (ls : Link_States) (P : List (List ℕ)) : ℤ :=
  ((family_hops P).map fun h => |(ls.edge h.1 h.2).cost|).sum

/-! ## 2. A path in the split network -/

def path_pairs (tp : Topology) : List ℕ → List Flow_Pair
  | u :: v :: p =>
    edge_pair u v (tp.edge_index u v) ::
      if p = [] then [] else node_pair v :: path_pairs tp (v :: p)
  | _ => []

section Pairs

variable {tp : Topology} {ls : Link_States} {dest_id u v i : ℕ} {p q : List ℕ}

theorem mem_path_pairs_node : node_pair v ∈ path_pairs tp p ↔ v ∈ inner_nodes p := by
  induction p with
  | nil => simp [path_pairs, inner_nodes]
  | cons u p ih =>
    cases p with
    | nil => simp [path_pairs, inner_nodes]
    | cons w p =>
      rw [path_pairs]
      by_cases hp : p = []
      · subst hp
        simp [inner_nodes]
      · rw [if_neg hp, mem_cons, mem_cons, ih]
        obtain ⟨x, p, rfl⟩ := exists_cons_of_ne_nil hp
        simp [inner_nodes]

theorem mem_path_pairs_edge :
    edge_pair u v i ∈ path_pairs tp p ↔ (u, v) ∈ hops p ∧ i = tp.edge_index u v := by
  induction p with
  | nil => simp [path_pairs, hops]
  | cons w p ih =>
    cases p with
    | nil => simp [path_pairs, hops]
    | cons x p =>
      have hcons : hops (w :: x :: p) = (w, x) :: hops (x :: p) := rfl
      have hhead : edge_pair u v i = edge_pair w x (tp.edge_index w x) ↔
          (u, v) = (w, x) ∧ i = tp.edge_index u v := by
        rw [edge_pair_inj, Prod.mk.injEq]
        constructor
        · rintro ⟨rfl, rfl, rfl⟩
          simp
        · rintro ⟨⟨rfl, rfl⟩, rfl⟩
          simp
      rw [path_pairs, hcons, mem_cons, mem_cons, hhead, or_and_right]
      apply or_congr Iff.rfl
      rw [← ih]
      by_cases hp : p = []
      · subst hp
        simp [path_pairs]
      · rw [if_neg hp, mem_cons]
        exact or_iff_right edge_pair_ne_node_pair

theorem mem_path_pairs {r : Flow_Pair} (h : r ∈ path_pairs tp p) :
    (∃ v, r = node_pair v) ∨ ∃ u v, r = edge_pair u v (tp.edge_index u v) := by
  induction p with
  | nil => simp [path_pairs] at h
  | cons u p ih =>
    cases p with
    | nil => simp [path_pairs] at h
    | cons v p =>
      rw [path_pairs, mem_cons] at h
      obtain rfl | h := h
      · exact .inr ⟨u, v, rfl⟩
      · by_cases hp : p = []
        · simp [hp] at h
        · rw [if_neg hp, mem_cons] at h
          obtain rfl | h := h
          · exact .inl ⟨v, rfl⟩
          · exact ih h

theorem hops_cons (u v : ℕ) (p : List ℕ) : hops (u :: v :: p) = (u, v) :: hops (v :: p) := rfl

theorem mem_of_mem_hops {h : ℕ × ℕ} (hh : h ∈ hops p) : h.1 ∈ p ∧ h.2 ∈ p := by
  obtain ⟨h1, h2⟩ := of_mem_zip hh
  exact ⟨h1, mem_of_mem_tail h2⟩

theorem path_pairs_nodup (hn : p.Nodup) : (path_pairs tp p).Nodup := by
  induction p with
  | nil => simp [path_pairs]
  | cons u p ih =>
    cases p with
    | nil => simp [path_pairs]
    | cons v p =>
      rw [path_pairs]
      by_cases hp : p = []
      · simp [hp]
      · rw [nodup_cons] at hn
        have hv := (nodup_cons.mp hn.2).1
        rw [if_neg hp, nodup_cons, nodup_cons, mem_cons, not_or]
        refine ⟨⟨edge_pair_ne_node_pair, ?_⟩, ?_, ih hn.2⟩
        · rw [mem_path_pairs_edge]
          rintro ⟨hmem, -⟩
          exact hn.1 (mem_of_mem_hops hmem).1
        · rw [mem_path_pairs_node]
          intro hmem
          exact hv (dropLast_subset _ hmem)

theorem walk_path_pairs (hlast : (u :: p).getLast? = some v) (hp : p ≠ []) :
    (network tp ls).Walk (Flow_Nodes_Outbound u) (Flow_Nodes_Inbound v)
      (path_pairs tp (u :: p)) := by
  induction p generalizing u with
  | nil => exact absurd rfl hp
  | cons w p ih =>
    rw [path_pairs]
    by_cases hp : p = []
    · subst hp
      obtain rfl : w = v := by simpa using hlast
      rw [if_pos rfl]
      exact .cons (a := edge_pair u w (tp.edge_index u w)) (.nil _)
    · rw [if_neg hp]
      apply UnitNet.Walk.cons (a := edge_pair u w (tp.edge_index u w))
      apply UnitNet.Walk.cons (a := node_pair w)
      exact ih (by simpa using hlast) hp

theorem path_pairs_live (hup : ∀ h ∈ hops p, tp.Linked h.1 h.2 ∧ (ls.edge h.1 h.2).cost ≠ -1)
    {r : Flow_Pair} (hr : r ∈ path_pairs tp p) : r ∈ (network tp ls).live := by
  rw [mem_live]
  induction p with
  | nil => simp [path_pairs] at hr
  | cons u p ih =>
    cases p with
    | nil => simp [path_pairs] at hr
    | cons v p =>
      rw [hops_cons] at hup
      obtain ⟨hlink, hcost⟩ := hup (u, v) mem_cons_self
      rw [path_pairs, mem_cons] at hr
      obtain rfl | hr := hr
      · refine ⟨mem_flow_pairs.mpr (.inr ⟨u, v, hlink, rfl⟩), ?_⟩
        simpa [pair_up, edge_pair] using hcost
      · by_cases hp : p = []
        · simp [hp] at hr
        · rw [if_neg hp, mem_cons] at hr
          obtain rfl | hr := hr
          · exact ⟨mem_flow_pairs.mpr (.inl ⟨v, hlink.ends.2.1, rfl⟩), rfl⟩
          · exact ih (fun h hh => hup h (mem_cons_of_mem _ hh)) hr

theorem sum_path_pairs (ls : Link_States) (p : List ℕ) :
    ((path_pairs tp p).map (pair_cost ls)).sum =
      ((hops p).map fun h => |(ls.edge h.1 h.2).cost|).sum := by
  induction p with
  | nil => simp [path_pairs, hops]
  | cons u p ih =>
    cases p with
    | nil => simp [path_pairs, hops]
    | cons v p =>
      rw [path_pairs, hops_cons, map_cons, map_cons, sum_cons, sum_cons, ← ih]
      by_cases hp : p = []
      · simp [hp, pair_cost, edge_pair, path_pairs]
      · rw [if_neg hp, map_cons, sum_cons]
        simp [pair_cost, edge_pair, node_pair]

end Pairs

/-! ## 3. Families and flows -/

def family_pairs (tp : Topology) (P : List (List ℕ)) : List Flow_Pair :=
  (P.map (path_pairs tp)).flatten

section Families

variable {tp : Topology} {ls : Link_States} {dest_id : ℕ} {p : List ℕ} {P Q : List (List ℕ)}

theorem Live_Path.eq_cons (h : Live_Path tp ls dest_id p) (hne : dest_id ≠ tp.My_ID) :
    ∃ q, p = tp.My_ID :: q ∧ q ≠ [] := by
  obtain ⟨q, rfl⟩ := head?_eq_some_iff.mp h.first
  refine ⟨q, rfl, ?_⟩
  rintro rfl
  exact hne (by simpa using h.last.symm)

theorem Node_Disjoint.nodup (h : Node_Disjoint tp ls dest_id P) : (family_pairs tp P).Nodup := by
  rw [family_pairs, nodup_flatten]
  constructor
  · rintro l hl
    obtain ⟨p, hp, rfl⟩ := mem_map.mp hl
    exact path_pairs_nodup (h.live p hp).nodup
  · rw [pairwise_map]
    apply h.apart.imp
    rintro p q ⟨hinner, hhops⟩ r hrp hrq
    obtain ⟨v, rfl⟩ | ⟨u, v, rfl⟩ := mem_path_pairs hrp
    · exact hinner v (mem_path_pairs_node.mp hrp) (mem_path_pairs_node.mp hrq)
    · exact hhops (u, v) (mem_path_pairs_edge.mp hrp).1 (mem_path_pairs_edge.mp hrq).1

theorem Node_Disjoint.subset_live (h : Node_Disjoint tp ls dest_id P) :
    (family_pairs tp P).toFinset ⊆ (network tp ls).live := by
  intro r hr
  rw [mem_toFinset, family_pairs, mem_flatten] at hr
  obtain ⟨l, hl, hr⟩ := hr
  obtain ⟨p, hp, rfl⟩ := mem_map.mp hl
  exact path_pairs_live (h.live p hp).hops hr

theorem Node_Disjoint.carries (h : Node_Disjoint tp ls dest_id P) (hne : dest_id ≠ tp.My_ID) :
    (network tp ls).Carries (family_pairs tp P).toFinset P.length
      (Flow_Nodes_Outbound tp.My_ID) (Flow_Nodes_Inbound dest_id) := by
  rw [← length_map (path_pairs tp)]
  apply UnitNet.carries_of_walks _ h.nodup
  rintro l hl
  obtain ⟨p, hp, rfl⟩ := mem_map.mp hl
  obtain ⟨q, rfl, hq⟩ := (h.live p hp).eq_cons hne
  exact walk_path_pairs (h.live _ hp).last hq

theorem Node_Disjoint.total (h : Node_Disjoint tp ls dest_id P) :
    (network tp ls).total (family_pairs tp P).toFinset = total_cost ls P := by
  have hsum : ((family_pairs tp P).map (pair_cost ls)).sum = total_cost ls P := by
    clear h
    unfold family_pairs total_cost family_hops
    induction P with
    | nil => simp
    | cons p P ih =>
      rw [map_cons, flatten_cons, map_append, sum_append, ih, sum_path_pairs,
        flatMap_cons, map_append, sum_append]
  rw [← hsum, UnitNet.total, sum_toFinset _ h.nodup]
  rfl

theorem src_outbound {r : Flow_Pair} {u : ℕ} (hr : r ∈ flow_pairs tp)
    (hsrc : r.a = Flow_Nodes_Outbound u) : ∃ v, r = edge_pair u v (tp.edge_index u v) := by
  obtain ⟨w, -, rfl⟩ | ⟨s, d, -, rfl⟩ := mem_flow_pairs.mp hr
  · simp [node_pair, Flow_Nodes_Inbound, Flow_Nodes_Outbound] at hsrc
  · obtain rfl : s = u := by simpa [edge_pair, Flow_Nodes_Outbound] using hsrc
    exact ⟨d, rfl⟩

theorem src_inbound {r : Flow_Pair} {v : ℕ} (hr : r ∈ flow_pairs tp)
    (hsrc : r.a = Flow_Nodes_Inbound v) : r = node_pair v := by
  obtain ⟨w, -, rfl⟩ | ⟨s, d, -, rfl⟩ := mem_flow_pairs.mp hr
  · obtain rfl : w = v := by simpa [node_pair, Flow_Nodes_Inbound] using hsrc
    rfl
  · simp [edge_pair, Flow_Nodes_Inbound, Flow_Nodes_Outbound] at hsrc

theorem inbound_ne_outbound {u v : ℕ} : Flow_Nodes_Inbound u ≠ Flow_Nodes_Outbound v := by
  simp [Flow_Nodes_Inbound, Flow_Nodes_Outbound]

/-- A simple walk through the split network is a path between nodes. It takes two
pairs for each node, so the induction is on its length. -/
theorem exists_path {l : List Flow_Pair} {u t : ℕ}
    (hwalk : (network tp ls).Walk (Flow_Nodes_Outbound u) (Flow_Nodes_Inbound t) l)
    (hut : u ≠ t) (hl : ∀ r ∈ l, r ∈ flow_pairs tp)
    (hnd : ((network tp ls).visits (Flow_Nodes_Outbound u) l).Nodup) :
    ∃ q, path_pairs tp (u :: q) = l ∧ (u :: q).getLast? = some t ∧ (u :: q).Nodup ∧
      ∀ w ∈ u :: q, w = t ∨
        Flow_Nodes_Outbound w ∈ (network tp ls).visits (Flow_Nodes_Outbound u) l := by
  induction hlen : l.length using Nat.strong_induction_on generalizing l u with
  | _ n ih =>
    rcases l with _ | ⟨r, l⟩
    · have hend := hwalk.end_mem
      rw [UnitNet.visits, map_nil, List.mem_singleton] at hend
      exact absurd hend inbound_ne_outbound
    obtain ⟨hsrc, hrest⟩ := hwalk.uncons
    obtain ⟨v, rfl⟩ := src_outbound (hl r mem_cons_self) hsrc
    rcases l with _ | ⟨r, l⟩
    · -- the edge ends in the destination
      have hend := hrest.end_mem
      rw [UnitNet.visits, map_nil, List.mem_singleton] at hend
      obtain rfl : t = v := by simpa [network, edge_pair, Flow_Nodes_Inbound] using hend
      refine ⟨[t], by simp [path_pairs], by simp, by simpa using hut, ?_⟩
      rintro w hw
      obtain rfl | hw := mem_cons.mp hw
      · exact .inr mem_cons_self
      · exact .inl (List.mem_singleton.mp hw)
    · -- or the walk crosses the node it ends in
      obtain ⟨hsrc, hrest⟩ := hrest.uncons
      obtain rfl := src_inbound (hl r (by simp)) hsrc
      simp only [UnitNet.visits, map_cons, nodup_cons] at hnd
      obtain ⟨hu, hv, hnd⟩ := hnd
      have hvt : v ≠ t := by
        rintro rfl
        exact hv hrest.end_mem
      have hshort : l.length < n := by
        rw [← hlen, length_cons, length_cons]
        omega
      obtain ⟨q, hq, hlast, hqn, hmem⟩ := ih l.length hshort hrest hvt
        (fun r hr => hl r (by simp [hr])) (nodup_cons.mpr hnd) rfl
      have hq0 : q ≠ [] := by
        rintro rfl
        exact hvt (by simpa using hlast)
      refine ⟨v :: q, ?_, by simpa using hlast, ?_, ?_⟩
      · rw [path_pairs, if_neg hq0, hq]
      · refine nodup_cons.mpr ⟨?_, hqn⟩
        intro hmemu
        obtain rfl | hout := hmem u hmemu
        · exact hut rfl
        · exact hu (mem_cons_of_mem _ hout)
      · rintro w hw
        obtain rfl | hw := mem_cons.mp hw
        · exact .inr mem_cons_self
        · refine (hmem w hw).imp_right ?_
          intro hout
          exact mem_cons_of_mem _ (mem_cons_of_mem _ hout)

theorem edge_pair_mem_live {u v i : ℕ} : edge_pair u v i ∈ (network tp ls).live ↔
    (tp.Linked u v ∧ (ls.edge u v).cost ≠ -1) ∧ i = tp.edge_index u v := by
  have hup : pair_up ls (edge_pair u v i) = true ↔ (ls.edge u v).cost ≠ -1 := by
    simp [pair_up, edge_pair]
  rw [mem_live, mem_flow_pairs, hup]
  constructor
  · rintro ⟨⟨w, -, h⟩ | ⟨s, d, hlink, h⟩, hcost⟩
    · exact absurd h edge_pair_ne_node_pair
    · obtain ⟨rfl, rfl, rfl⟩ := edge_pair_inj.mp h
      exact ⟨⟨hlink, hcost⟩, rfl⟩
  · rintro ⟨⟨hlink, hcost⟩, rfl⟩
    exact ⟨.inr ⟨u, v, hlink, rfl⟩, hcost⟩

theorem exists_family {F : Finset Flow_Pair} {m : ℕ} (hne : dest_id ≠ tp.My_ID)
    (hF : F ⊆ (network tp ls).live)
    (h : (network tp ls).Carries F m (Flow_Nodes_Outbound tp.My_ID) (Flow_Nodes_Inbound dest_id)) :
    ∃ P, Node_Disjoint tp ls dest_id P ∧ P.length = m ∧ (family_pairs tp P).toFinset ⊆ F ∧
      (network tp ls).Carries (F \ (family_pairs tp P).toFinset) 0
        (Flow_Nodes_Outbound tp.My_ID) (Flow_Nodes_Inbound dest_id) := by
  obtain ⟨ps, hlen, hwalk, hnd, hsub, hrest⟩ := h.walks
  have hmem : ∀ l ∈ ps, ∀ r ∈ l, r ∈ (network tp ls).live := by
    intro l hl r hr
    exact hF (hsub (mem_toFinset.mpr (mem_flatten.mpr ⟨l, hl, hr⟩)))
  have hpath : ∀ l ∈ ps, ∃ p, path_pairs tp p = l ∧ Live_Path tp ls dest_id p := by
    intro l hl
    obtain ⟨q, hq, hlast, hqn, -⟩ := exists_path (hwalk l hl).1 hne.symm
      (fun r hr => (mem_live.mp (hmem l hl r hr)).1) (hwalk l hl).2
    refine ⟨tp.My_ID :: q, hq, rfl, hlast, hqn, ?_⟩
    rintro ⟨u, v⟩ huv
    have hpair : edge_pair u v (tp.edge_index u v) ∈ l :=
      hq ▸ mem_path_pairs_edge.mpr ⟨huv, rfl⟩
    exact (edge_pair_mem_live.mp (hmem l hl _ hpair)).1
  obtain ⟨P, rfl, hlive⟩ : ∃ P : List (List ℕ), P.map (path_pairs tp) = ps ∧
      ∀ p ∈ P, Live_Path tp ls dest_id p := by
    clear hlen hwalk hnd hsub hrest hmem
    induction ps with
    | nil => exact ⟨[], rfl, by simp⟩
    | cons l ps ih =>
      obtain ⟨p, rfl, hp⟩ := hpath l mem_cons_self
      obtain ⟨P, rfl, hP⟩ := ih fun l' hl' => hpath l' (mem_cons_of_mem _ hl')
      refine ⟨p :: P, rfl, ?_⟩
      rintro p' hp'
      obtain rfl | hp' := mem_cons.mp hp'
      · exact hp
      · exact hP p' hp'
  refine ⟨P, ⟨hlive, ?_⟩, by rw [← hlen, length_map], hsub, hrest⟩
  have hapart := (nodup_flatten.mp hnd).2
  rw [pairwise_map] at hapart
  apply hapart.imp
  intro p q hpq
  constructor
  · intro v hvp hvq
    exact hpq (mem_path_pairs_node.mpr hvp) (mem_path_pairs_node.mpr hvq)
  · rintro ⟨u, v⟩ hp hq
    exact hpq (mem_path_pairs_edge.mpr ⟨hp, rfl⟩) (mem_path_pairs_edge.mpr ⟨hq, rfl⟩)

end Families

/-! ## 4. What is left of a flow -/

def edges_of (tp : Topology) (R : Finset Flow_Pair) : Set (ℕ × ℕ) :=
  {h | edge_pair h.1 h.2 (tp.edge_index h.1 h.2) ∈ R}

/-- `Z` are cycles of edges that cost nothing, none of them through the inside of
a path of `P`: every edge of `Z` is followed by exactly one edge of `Z`, and
follows exactly one. -/
structure Idle_Cycles (tp : Topology) (ls : Link_States) (P : List (List ℕ))
    (Z : Set (ℕ × ℕ)) : Prop where
  free : ∀ h ∈ Z, tp.Linked h.1 h.2 ∧ (ls.edge h.1 h.2).cost = 0
  next : ∀ h ∈ Z, ∃! w, (h.2, w) ∈ Z
  prev : ∀ h ∈ Z, ∃! w, (w, h.1) ∈ Z
  apart : ∀ h ∈ Z, h ∉ family_hops P ∧ ∀ p ∈ P, h.1 ∉ inner_nodes p ∧ h.2 ∉ inner_nodes p

section Rest

open Finset

variable {tp : Topology} {ls : Link_States} {R : Finset Flow_Pair} {s t : Flow_Node} {v : ℕ}

theorem filter_src_inbound (hR : R ⊆ (network tp ls).live) (v : ℕ) :
    {r ∈ R | r.a = Flow_Nodes_Inbound v} = if node_pair v ∈ R then {node_pair v} else ∅ := by
  ext r
  rw [mem_filter]
  constructor
  · rintro ⟨hr, hsrc⟩
    obtain rfl := src_inbound (mem_live.mp (hR hr)).1 hsrc
    rw [if_pos hr]
    exact mem_singleton_self _
  · by_cases hv : node_pair v ∈ R
    · rw [if_pos hv, mem_singleton]
      rintro rfl
      exact ⟨hv, rfl⟩
    · simp [hv]

theorem filter_dst_outbound (hR : R ⊆ (network tp ls).live) (v : ℕ) :
    {r ∈ R | r.b = Flow_Nodes_Outbound v} = if node_pair v ∈ R then {node_pair v} else ∅ := by
  ext r
  rw [mem_filter]
  constructor
  · rintro ⟨hr, hdst⟩
    obtain ⟨w, -, rfl⟩ | ⟨s, d, -, rfl⟩ := mem_flow_pairs.mp (mem_live.mp (hR hr)).1
    · obtain rfl : w = v := by simpa [node_pair, Flow_Nodes_Outbound] using hdst
      rw [if_pos hr]
      exact mem_singleton_self _
    · exact absurd hdst inbound_ne_outbound
  · by_cases hv : node_pair v ∈ R
    · rw [if_pos hv, mem_singleton]
      rintro rfl
      exact ⟨hv, rfl⟩
    · simp [hv]

variable (hR : R ⊆ (network tp ls).live) (h : (network tp ls).Carries R 0 s t)

include hR h

theorem Carries.into_node : (#{r ∈ R | r.b = Flow_Nodes_Inbound v} = 1 ↔ node_pair v ∈ R) ∧
    (node_pair v ∉ R → #{r ∈ R | r.b = Flow_Nodes_Inbound v} = 0) := by
  have hbal : #{r ∈ R | r.a = Flow_Nodes_Inbound v} = #{r ∈ R | r.b = Flow_Nodes_Inbound v} :=
    h.balanced _
  rw [← hbal, filter_src_inbound hR v]
  by_cases hv : node_pair v ∈ R <;> simp [hv]

theorem Carries.out_of_node : (#{r ∈ R | r.a = Flow_Nodes_Outbound v} = 1 ↔ node_pair v ∈ R) ∧
    (node_pair v ∉ R → #{r ∈ R | r.a = Flow_Nodes_Outbound v} = 0) := by
  have hbal : #{r ∈ R | r.a = Flow_Nodes_Outbound v} = #{r ∈ R | r.b = Flow_Nodes_Outbound v} :=
    h.balanced _
  rw [hbal, filter_dst_outbound hR v]
  by_cases hv : node_pair v ∈ R <;> simp [hv]

theorem Carries.node_mem {u w : ℕ} (huw : (u, w) ∈ edges_of tp R) :
    node_pair u ∈ R ∧ node_pair w ∈ R := by
  constructor
  · by_contra hu
    have hzero := (Carries.out_of_node hR h).2 hu
    rw [card_eq_zero, filter_eq_empty_iff] at hzero
    exact hzero huw rfl
  · by_contra hw
    have hzero := (Carries.into_node hR h).2 hw
    rw [card_eq_zero, filter_eq_empty_iff] at hzero
    exact hzero huw rfl

theorem Carries.existsUnique_next (hv : node_pair v ∈ R) : ∃! w, (v, w) ∈ edges_of tp R := by
  obtain ⟨r, hr⟩ := card_eq_one.mp ((Carries.out_of_node hR h).1.mpr hv)
  have hmem := mem_filter.mp (hr ▸ mem_singleton_self r)
  obtain ⟨w, rfl⟩ := src_outbound (mem_live.mp (hR hmem.1)).1 hmem.2
  refine ⟨w, hmem.1, ?_⟩
  intro w' hw'
  have hin : edge_pair v w' (tp.edge_index v w') ∈
      ({r ∈ R | r.a = Flow_Nodes_Outbound v} : Finset Flow_Pair) := mem_filter.mpr ⟨hw', rfl⟩
  rw [hr, mem_singleton] at hin
  exact (edge_pair_inj.mp hin).2.1

theorem Carries.existsUnique_prev (hv : node_pair v ∈ R) : ∃! w, (w, v) ∈ edges_of tp R := by
  obtain ⟨r, hr⟩ := card_eq_one.mp ((Carries.into_node hR h).1.mpr hv)
  have hmem := mem_filter.mp (hr ▸ mem_singleton_self r)
  obtain ⟨u, -, rfl⟩ | ⟨u, d, -, rfl⟩ := mem_flow_pairs.mp (mem_live.mp (hR hmem.1)).1
  · exact absurd hmem.2.symm inbound_ne_outbound
  · obtain rfl : d = v := by simpa [edge_pair, Flow_Nodes_Inbound] using hmem.2
    refine ⟨u, hmem.1, ?_⟩
    intro u' hu'
    have hin : edge_pair u' d (tp.edge_index u' d) ∈
        ({r ∈ R | r.b = Flow_Nodes_Inbound d} : Finset Flow_Pair) := mem_filter.mpr ⟨hu', rfl⟩
    rw [hr, mem_singleton] at hin
    exact (edge_pair_inj.mp hin).1

end Rest

/-! ## 5. `MultiPath_Compute` -/

theorem edges_of_sdiff {tp : Topology} {F : Finset Flow_Pair} {P : List (List ℕ)}
    (hsub : (family_pairs tp P).toFinset ⊆ F) (h : ℕ × ℕ) : h ∈ edges_of tp F ↔
      h ∈ family_hops P ∨ h ∈ edges_of tp (F \ (family_pairs tp P).toFinset) := by
  have hfam : h ∈ family_hops P ↔
      edge_pair h.1 h.2 (tp.edge_index h.1 h.2) ∈ (family_pairs tp P).toFinset := by
    simp [family_hops, family_pairs, mem_path_pairs_edge]
  rw [hfam]
  rw [show h ∈ edges_of tp (F \ (family_pairs tp P).toFinset) ↔ _ from Finset.mem_sdiff]
  constructor
  · intro hF
    by_cases hP : edge_pair h.1 h.2 (tp.edge_index h.1 h.2) ∈ (family_pairs tp P).toFinset
    · exact .inl hP
    · exact .inr ⟨hF, hP⟩
  · rintro (hP | ⟨hF, -⟩)
    · exact hsub hP
    · exact hF

theorem testBit_bag_mask (bag : List Flow_Edge) (i : ℕ) :
    (bag_mask bag).testBit i = true ↔ ∃ e ∈ bag, e.1.edge ≠ none ∧ e.index = i := by
  have hfold : ∀ (bag : List Flow_Edge) (mask : ℕ),
      (bag.foldl (fun mask e => if e.1.edge ≠ none then mask ||| 2 ^ Flow_Edge.index e else mask)
        mask).testBit i = true ↔
      mask.testBit i = true ∨ ∃ e ∈ bag, e.1.edge ≠ none ∧ Flow_Edge.index e = i := by
    intro bag
    induction bag with
    | nil => simp
    | cons e bag ih =>
      intro mask
      rw [foldl_cons, ih]
      by_cases he : e.1.edge ≠ none
      · simp [he, Nat.testBit_two_pow, or_assoc]
      · simp [he]
  rw [bag_mask, hfold]
  simp

section Result

variable {tp : Topology} {ls : Link_States} {dest_id : ℕ}

theorem Flows.testBit {g : Flow_Graph} {F : Finset Flow_Pair} (hg : Flows g F)
    (hF : F ⊆ (network tp ls).live) (i : ℕ) : (bag_mask g.bag_of_edges).testBit i = true ↔
      ∃ h ∈ edges_of tp F, i = tp.edge_index h.1 h.2 := by
  rw [testBit_bag_mask]
  constructor
  · rintro ⟨⟨p, b⟩, he, hedge, rfl⟩
    obtain ⟨rfl, hp⟩ : b = false ∧ p ∈ F := (hg.bag _).mp he
    obtain ⟨v, -, rfl⟩ | ⟨u, v, -, rfl⟩ := mem_flow_pairs.mp (mem_live.mp (hF hp)).1
    · simp [node_pair] at hedge
    · exact ⟨(u, v), hp, rfl⟩
  · rintro ⟨⟨u, v⟩, huv, rfl⟩
    refine ⟨(edge_pair u v (tp.edge_index u v), false), (hg.bag _).mpr ⟨rfl, huv⟩, ?_, rfl⟩
    simp [edge_pair]

theorem idle_cycles {R : Finset Flow_Pair} {P : List (List ℕ)} {s t : Flow_Node}
    (hR : R ⊆ (network tp ls).live) (h : (network tp ls).Carries R 0 s t)
    (hdisj : Disjoint R (family_pairs tp P).toFinset) (hcost : (network tp ls).total R = 0) :
    Idle_Cycles tp ls P (edges_of tp R) := by
  have hzero := (Finset.sum_eq_zero_iff_of_nonneg fun p _ => pair_cost_nonneg ls p).mp hcost
  have hinner : ∀ v, node_pair v ∈ R → ∀ p ∈ P, v ∉ inner_nodes p := by
    intro v hv p hp hvp
    refine Finset.disjoint_left.mp hdisj hv ?_
    rw [mem_toFinset, family_pairs, mem_flatten]
    exact ⟨_, mem_map_of_mem hp, mem_path_pairs_node.mpr hvp⟩
  refine ⟨?_, ?_, ?_, ?_⟩
  · rintro ⟨u, v⟩ huv
    refine ⟨(edge_pair_mem_live.mp (hR huv)).1.1, ?_⟩
    simpa [pair_cost, edge_pair] using hzero _ huv
  · rintro ⟨u, v⟩ huv
    exact Carries.existsUnique_next hR h (Carries.node_mem hR h huv).2
  · rintro ⟨u, v⟩ huv
    exact Carries.existsUnique_prev hR h (Carries.node_mem hR h huv).1
  · rintro ⟨u, v⟩ huv
    refine ⟨?_, ?_⟩
    · intro hmem
      obtain ⟨p, hp, hup⟩ := mem_flatMap.mp hmem
      refine Finset.disjoint_left.mp hdisj huv ?_
      rw [mem_toFinset, family_pairs, mem_flatten]
      exact ⟨_, mem_map_of_mem hp, mem_path_pairs_edge.mpr ⟨hup, rfl⟩⟩
    · intro p hp
      obtain ⟨hu, hv⟩ := Carries.node_mem hR h huv
      exact ⟨hinner u hu p hp, hinner v hv p hp⟩

theorem total_cost_nonneg (ls : Link_States) (P : List (List ℕ)) : 0 ≤ total_cost ls P := by
  apply sum_nonneg
  intro x hx
  obtain ⟨h, -, rfl⟩ := mem_map.mp hx
  exact abs_nonneg _

theorem self_paths (tp : Topology) (ls : Link_States) (k : ℕ) :
    Node_Disjoint tp ls tp.My_ID (replicate k [tp.My_ID]) ∧
      family_hops (replicate k [tp.My_ID]) = [] := by
  refine ⟨⟨?_, ?_⟩, ?_⟩
  · intro p hp
    obtain ⟨-, rfl⟩ := mem_replicate.mp hp
    exact ⟨rfl, rfl, by simp, by simp [hops]⟩
  · rw [pairwise_replicate]
    exact .inr (by simp [inner_nodes, hops])
  · simp [family_hops, hops]

/-- `MultiPath_Compute` ends. It returns the size `m` of a cheapest family of `m`
disjoint paths, and the mask of its edges and of the cycles that come with them.
The `m`th path has added less than 65535 to the cost, and `m` is less than asked
for only if every family of `m + 1` paths would add 65535 or more. -/
theorem multipath_compute_paths (tp : Topology) (ls : Link_States) (dest_id k : ℕ)
    (hdest : dest_id ∈ tp.nodes) (hfit : Costs_Fit tp ls) :
    ∃ mask P Z, MultiPath_Compute tp ls false false dest_id k = some (P.length, mask) ∧
      P.length ≤ k ∧ Node_Disjoint tp ls dest_id P ∧ Idle_Cycles tp ls P Z ∧
      (∀ i, mask.testBit i = true ↔
        ∃ h, (h ∈ family_hops P ∨ h ∈ Z) ∧ i = tp.edge_index h.1 h.2) ∧
      (∀ Q, Node_Disjoint tp ls dest_id Q → Q.length = P.length →
        total_cost ls P ≤ total_cost ls Q) ∧
      (∀ Q, Node_Disjoint tp ls dest_id Q → Q.length + 1 = P.length →
        total_cost ls P < total_cost ls Q + 65535) ∧
      (P.length < k → ∀ Q, Node_Disjoint tp ls dest_id Q → Q.length = P.length + 1 →
        total_cost ls P + 65535 ≤ total_cost ls Q) := by
  by_cases hself : dest_id = tp.My_ID
  · subst hself
    obtain ⟨hdis, hhops⟩ := self_paths tp ls k
    have hcost : total_cost ls (replicate k [tp.My_ID]) = 0 := by
      rw [total_cost, hhops]
      simp
    refine ⟨0, replicate k [tp.My_ID], ∅, by simp [MultiPath_Compute], by simp, hdis,
      ⟨by simp, by simp, by simp, by simp⟩, by simp [hhops], ?_, ?_, by simp⟩
    · intro Q _ _
      rw [hcost]
      exact total_cost_nonneg ls Q
    · intro Q _ _
      have := total_cost_nonneg ls Q
      omega
  · have hstart : Flows
        { flow := fun e => if Flow_Edge.residual e then 1 else 0
          distance := fun _ => USHRT_MAX
          previous_edge := fun _ => none
          progress := false
          bag_of_edges := [] } ∅ := by
      refine ⟨?_, by simp, by simp⟩
      rintro ⟨p, b⟩
      cases b <;> simp [Flow_Edge.residual]
    obtain ⟨found, g, F, π, hfind, hle, hg, hc, hstop⟩ :=
      find_paths_spec hfit hdest k (carrying_empty tp ls dest_id) hstart
    rw [zero_add] at hc
    obtain ⟨P, hP, rfl, hsub, hrest⟩ := exists_family hself hc.live hc.carries
    -- every family is a flow, so potentials bound its cost from below
    have hbound : ∀ ρ, (network tp ls).Optimal F ρ → ∀ Q, Node_Disjoint tp ls dest_id Q →
        (network tp ls).total F + ((Q.length : ℤ) - P.length) *
          (ρ (Flow_Nodes_Inbound dest_id) - ρ (Flow_Nodes_Outbound tp.My_ID)) ≤
        total_cost ls Q := by
      intro ρ hρ Q hQ
      rw [← hQ.total]
      exact UnitNet.Carries.cheapest hρ hc.live hQ.subset_live hc.carries (hQ.carries hself)
    have hsplit : (network tp ls).total (F \ (family_pairs tp P).toFinset) + total_cost ls P =
        (network tp ls).total F := by
      rw [← hP.total]
      exact Finset.sum_sdiff hsub
    have hR : F \ (family_pairs tp P).toFinset ⊆ (network tp ls).live :=
      Finset.sdiff_subset.trans hc.live
    -- the paths alone cost as much as the whole flow: nothing is spent on the rest
    have hzero : (network tp ls).total (F \ (family_pairs tp P).toFinset) = 0 := by
      have hnn : 0 ≤ (network tp ls).total (F \ (family_pairs tp P).toFinset) :=
        Finset.sum_nonneg fun p _ => pair_cost_nonneg ls p
      have hPle := hbound π hc.priced.optimal P hP
      rw [sub_self, zero_mul, add_zero] at hPle
      omega
    have htotal : (network tp ls).total F = total_cost ls P := by omega
    refine ⟨bag_mask g.bag_of_edges, P, edges_of tp (F \ (family_pairs tp P).toFinset), ?_, hle, hP,
      idle_cycles hR hrest Finset.sdiff_disjoint hzero, ?_, ?_, ?_, ?_⟩
    · rw [MultiPath_Compute, if_neg hself]
      simp only [Option.bind_eq_bind, hfind, Option.bind_some]
    · intro i
      rw [hg.testBit hc.live]
      apply exists_congr
      intro h
      rw [edges_of_sdiff hsub]
    · intro Q hQ hlen
      have hQle := hbound π hc.priced.optimal Q hQ
      rw [hlen, sub_self, zero_mul, add_zero, htotal] at hQle
      exact hQle
    · intro Q hQ hlen
      have hQle := hbound π hc.priced.optimal Q hQ
      have hfin := hc.finite
      have hstep : (Q.length : ℤ) - P.length = -1 := by omega
      rw [hstep, htotal, hc.priced.start] at hQle
      simp only [USHRT_MAX] at hfin
      omega
    · intro hlt Q hQ hlen
      obtain ⟨ρ, hρ, hdiff⟩ := hstop hlt
      have hQle := hbound ρ hρ Q hQ
      have hstep : (Q.length : ℤ) - P.length = 1 := by omega
      rw [hstep, htotal, hdiff, one_mul] at hQle
      exact hQle

end Result

/-! ## 6. Where it is not the widest family, or not a family alone -/

/-- The widest family of at most `k` paths is found and is all there is in the mask. -/
def Exact_Paths (tp : Topology) (ls : Link_States) (dest_id k : ℕ) : Prop :=
  ∃ mask P, MultiPath_Compute tp ls false false dest_id k = some (P.length, mask) ∧
    P.length ≤ k ∧ Node_Disjoint tp ls dest_id P ∧
    (P.length < k → ¬∃ Q, Node_Disjoint tp ls dest_id Q ∧ Q.length = P.length + 1) ∧
    (∀ i, mask.testBit i = true ↔ ∃ h ∈ family_hops P, i = tp.edge_index h.1 h.2) ∧
    (∀ Q, Node_Disjoint tp ls dest_id Q → Q.length = P.length → total_cost ls P ≤ total_cost ls Q)

def line : Topology where
  My_ID := 1
  nodes := [1, 2, 3, 4]
  Sorted_Edges := [(1, 2), (2, 3), (3, 4)]
  Directed_Edges := false
  nodes_sorted := by decide
  nodes_range := by decide
  my_id_mem := by decide
  edges_sorted := by decide
  ends := by decide
  undirected := by decide
  directed := by simp

def level (c : ℤ) (hc : -2 ^ 15 ≤ c ∧ c < 2 ^ 15) : Link_States where
  edge _ _ := { cost := c, base_cost := 1 }
  cost_range _ _ := hc
  base_cost_range _ _ := by dsimp only; omega

theorem line_paths : ∃ mask P, MultiPath_Compute line (level 7 (by decide)) false false 4 2 =
    some (P.length, mask) ∧ Node_Disjoint line (level 7 (by decide)) 4 P := by
  obtain ⟨mask, P, Z, h, -, hP, -⟩ := multipath_compute_paths line (level 7 (by decide)) 4 2
    (by decide) (fun _ _ _ => by simp [level])
  exact ⟨mask, P, h, hP⟩

def ladder : Topology where
  My_ID := 1
  nodes := [1, 2, 3, 4, 5, 6]
  Sorted_Edges := [(1, 3), (1, 6), (2, 3), (2, 6), (3, 4), (4, 5), (5, 6)]
  Directed_Edges := false
  nodes_sorted := by decide
  nodes_range := by decide
  my_id_mem := by decide
  edges_sorted := by decide
  ends := by decide
  undirected := by decide
  directed := by simp

attribute [local instance] pair_lawfulBEq in
def ladder_cost (s d : ℕ) : ℤ :=
  if (s, d) ∈ [(1, 6), (3, 2)] then 1
  else if (s, d) ∈ [(1, 3), (3, 4), (4, 5), (5, 4), (5, 6), (6, 2)] then 0
  else -1

theorem ladder_cost_range (s d : ℕ) : -2 ^ 15 ≤ ladder_cost s d ∧ ladder_cost s d < 2 ^ 15 := by
  unfold ladder_cost
  split
  · decide
  · split <;> decide

def ladder_states : Link_States where
  edge s d := { cost := ladder_cost s d, base_cost := 1 }
  cost_range := ladder_cost_range
  base_cost_range _ _ := by dsimp only; decide

theorem path_within {S : List ℕ} {p : List ℕ} {a : ℕ}
    (hstep : ∀ h ∈ hops p, h.1 ∈ S → h.2 ∈ S) (hfirst : p.head? = some a) (ha : a ∈ S) :
    ∀ x ∈ p, x ∈ S := by
  induction p generalizing a with
  | nil => simp
  | cons u p ih =>
    obtain rfl : u = a := by simpa using hfirst
    intro x hx
    obtain rfl | hx := mem_cons.mp hx
    · exact ha
    · cases p with
      | nil => simp at hx
      | cons v p =>
        rw [hops_cons] at hstep
        exact ih (fun h hh => hstep h (mem_cons_of_mem _ hh)) rfl
          (hstep (u, v) mem_cons_self ha) x hx

theorem not_exact_ladder : ¬Exact_Paths ladder ladder_states 2 2 := by
  rintro ⟨mask, P, h, -, hP, -, hmask, -⟩
  have hrun : MultiPath_Compute ladder ladder_states false false 2 2 = some (2, 47) := by
    decide +kernel
  rw [hrun] at h
  obtain ⟨-, rfl⟩ := Prod.mk.inj (Option.some.inj h)
  have hedges : ∀ h ∈ ladder.Sorted_Edges ++ ladder.Sorted_Edges.map Prod.swap,
      (Nat.testBit 47 (ladder.edge_index h.1 h.2) = true → h.1 ∈ [1, 2, 3, 6] →
        h.2 ∈ [1, 2, 3, 6]) ∧ (ladder.edge_index h.1 h.2 = 5 → h.1 ∉ [1, 2, 3, 6]) := by
    decide
  have hlink : ∀ h, ladder.Linked h.1 h.2 →
      h ∈ ladder.Sorted_Edges ++ ladder.Sorted_Edges.map Prod.swap := by
    rintro ⟨u, v⟩ (h | ⟨-, h⟩)
    · exact mem_append_left _ h
    · exact mem_append_right _ (mem_map.mpr ⟨(v, u), h, rfl⟩)
  obtain ⟨h, hh, hidx⟩ := (hmask 5).mp (by decide)
  obtain ⟨p, hp, hhp⟩ := mem_flatMap.mp hh
  have hpath := hP.live p hp
  have hstay : ∀ x ∈ p, x ∈ [1, 2, 3, 6] := by
    refine path_within ?_ hpath.first (by decide)
    intro h' hh'
    refine (hedges h' (hlink h' (hpath.hops h' hh').1)).1 ?_
    exact (hmask _).mpr ⟨h', mem_flatMap.mpr ⟨p, hp, hh'⟩, rfl⟩
  exact (hedges h (hlink h (hpath.hops h hhp).1)).2 hidx.symm (hstay _ (mem_of_mem_hops hhp).1)

/-- Three edges of cost 32767 are further than infinity: no path is found in the
line. The ladder's mask has an edge that is on no path. An edge of cost -32768
looks like a negative cycle, and the daemon exits. -/
theorem not_exact_paths :
    ¬Exact_Paths line (level 32767 (by decide)) 4 1 ∧ ¬Exact_Paths ladder ladder_states 2 2 ∧
      ¬Exact_Paths line (level (-32768) (by decide)) 4 1 := by
  refine ⟨?_, not_exact_ladder, ?_⟩
  · rintro ⟨mask, P, h, -, -, hwide, -⟩
    have hrun : MultiPath_Compute line (level 32767 (by decide)) false false 4 1 = some (0, 0) := by
      decide +kernel
    rw [hrun] at h
    have hlen : P.length = 0 := (Prod.mk.inj (Option.some.inj h)).1.symm
    refine hwide (by omega) ⟨[[1, 2, 3, 4]], ⟨?_, by simp⟩, by simp [hlen]⟩
    intro p hp
    obtain rfl := List.mem_singleton.mp hp
    exact ⟨by decide, by decide, by decide, by decide⟩
  · rintro ⟨mask, P, h, -⟩
    have hrun : MultiPath_Compute line (level (-32768) (by decide)) false false 4 1 = none := by
      decide +kernel
    rw [hrun] at h
    exact absurd h (by simp)

end Spines.MultiPath
