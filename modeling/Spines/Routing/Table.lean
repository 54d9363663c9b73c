/-
`daemon/route.c`: the routing table.

`RR_Init` numbers the known nodes by increasing ID, fills in the live edges and
runs Floyd-Warshall over the table. A `Route` has a cost, a hop count and, at
the local node, the neighbor to hand a packet to; the last one is threaded
through the composition of two half-paths without the path ever being stored.
Here the path is made explicit: the table is shown to be the image of a table
of paths (`Lib.Exact`), one round of the loops being one `Lib.relax`.

`cost` is an `int32`, and a signed sum that does not fit is undefined; the model
stops there, as it does at an `Alarm(EXIT)`. `distance` is an `int16`, and a
hop count that does not fit wraps. Hence the one limit of the table: a route of
32768 hops has distance -32768.
-/
import Spines.Lib.Paths
import Spines.Lib.Run
import Mathlib.Algebra.Order.Group.Int
import Mathlib.Algebra.Order.Group.Nat
import Mathlib.Data.List.GetD
import Mathlib.Data.List.Range

set_option autoImplicit false

namespace Spines.Routing

open Spines.Lib Option List

/-! ## 1. Link states and routes -/

abbrev Node_ID := Nat

/-- One link state of `All_Edges`. -/
structure Edge where
  src : Node_ID
  dst : Node_ID
  /-- an `int16`; -1 when the edge is down -/
  cost : Int
  deriving DecidableEq, Repr

/-- The nodes and link states a daemon knows. Both ends of an edge are nodes of
`All_Nodes`, and `All_Edges` holds one state for each pair; it is a hash, so its
order of enumeration is arbitrary. -/
structure Network where
  All_Nodes_by_ID : List Node_ID
  All_Edges : List Edge
  sorted : All_Nodes_by_ID.Pairwise (· < ·)
  keys : (All_Edges.map fun e => (e.src, e.dst)).Nodup
  ends : ∀ e ∈ All_Edges, e.src ∈ All_Nodes_by_ID ∧ e.dst ∈ All_Nodes_by_ID
  cost_range : ∀ e ∈ All_Edges, -2 ^ 15 ≤ e.cost ∧ e.cost < 2 ^ 15

structure Route where
  /-- number of hops, an `int16` -/
  distance : Int
  cost : Int
  forwarder : Option Node_ID
  predecessor : Node_ID
  deriving DecidableEq, Repr

structure Routing_Regime where
  Num_Nodes : Nat
  Node_IDs : List Node_ID
  Routes : Nat → Nat → Route

def int16 (x : Int) : Int := Int.bmod x (2 ^ 16)

/-- Signed 32-bit addition, undefined when the sum does not fit. -/
def int32_add (a b : Int) : Option Int :=
  if -2 ^ 31 ≤ a + b ∧ a + b < 2 ^ 31 then some (a + b) else none

/-- Index of a node in the table: `Node_Indexes` maps `Node_IDs[i]` to `i`. -/
def RR_Get_Node_Index (rr : Routing_Regime) (nid : Node_ID) : Option Nat :=
  rr.Node_IDs.idxOf? nid

def RR_Find_Route (rr : Routing_Regime) (src_id dst_id : Node_ID) : Option Route := do
  let src_index ← RR_Get_Node_Index rr src_id
  let dst_index ← RR_Get_Node_Index rr dst_id
  some (rr.Routes src_index dst_index)

def RR_Get_Next_Hop (rr : Routing_Regime) (src_id dst_id : Node_ID) : Option Node_ID :=
  (RR_Find_Route rr src_id dst_id).bind Route.forwarder

/-! ## 2. `RR_Init` -/

def Routing_Regime.set_route (rr : Routing_Regime) (i j : Nat) (rt : Route) : Routing_Regime :=
  { rr with Routes := fun a b => if a = i ∧ b = j then rt else rr.Routes a b }

def blank_routes (net : Network) : Routing_Regime :=
  { Num_Nodes := net.All_Nodes_by_ID.length
    Node_IDs := net.All_Nodes_by_ID
    Routes := fun i j =>
      if i ≠ j then { distance := -1, cost := -1, forwarder := none, predecessor := 0 }
      else { distance := 0, cost := 0, forwarder := none, predecessor := 0 } }

def fill_edge (This_Node : Node_ID) (rr : Routing_Regime) (edge : Edge) : Option Routing_Regime :=
  if edge.cost = -1 then some rr
  else do
    let src_index ← RR_Get_Node_Index rr edge.src
    let dst_index ← RR_Get_Node_Index rr edge.dst
    some <| rr.set_route src_index dst_index
      { cost := |edge.cost|
        distance := 1
        predecessor := edge.src
        forwarder := if edge.src ≠ This_Node then none else some edge.dst }

/-- Body of the innermost loop: a path from `i` to `j` through `k`. -/
def relax_route (k i : Nat) (rr : Routing_Regime) (j : Nat) : Option Routing_Regime :=
  let i_k_route := rr.Routes i k
  let k_j_route := rr.Routes k j
  let i_j_route := rr.Routes i j
  if i = j ∨ j = k ∨ k_j_route.cost < 0 then some rr
  else do
    let sum ← int32_add i_k_route.cost k_j_route.cost
    if i_j_route.cost < 0 ∨ sum < i_j_route.cost then
      some <| rr.set_route i j
        { cost := sum
          distance := int16 (i_k_route.distance + k_j_route.distance)
          predecessor := rr.Node_IDs.getD k 0
          forwarder := k_j_route.forwarder.or i_k_route.forwarder }
    else some rr

/-- The loop over `j`. -/
def relax_row (k : Nat) (rr : Routing_Regime) (i : Nat) : Option Routing_Regime :=
  if i = k ∨ (rr.Routes i k).cost < 0 then some rr
  else (range rr.Num_Nodes).foldlM (relax_route k i) rr

/-- The loop over `i`: all pairs may go through node `k`. -/
def relax_round (rr : Routing_Regime) (k : Nat) : Option Routing_Regime :=
  (range rr.Num_Nodes).foldlM (relax_row k) rr

def RR_Init (This_Node : Node_ID) (net : Network) : Option Routing_Regime := do
  let rr ← net.All_Edges.foldlM (fill_edge This_Node) (blank_routes net)
  (range rr.Num_Nodes).foldlM relax_round rr

/-! ## 3. What the table is meant to be -/

/-- Weight of the live edge from `a` to `b`. -/
def edge_weight (es : List Edge) (a b : Node_ID) : Option Nat :=
  (es.find? fun e => e.src = a ∧ e.dst = b ∧ e.cost ≠ -1).map (·.cost.natAbs)

def Network.weight (net : Network) : Node_ID → Node_ID → Option Nat := edge_weight net.All_Edges

/-- `p` is a directed path of live edges from `s` to `d`. -/
def Network.LivePath (net : Network) (s d : Node_ID) (p : List Node_ID) : Prop :=
  Path net.weight Set.univ s d p

def Network.path_cost (net : Network) (p : List Node_ID) : Nat := pathCost net.weight p

/-- `rt` is the route from `s` to `d` along the path `chosen` (`none`: there is
no path), as the local node `me` sees it. -/
def RouteExact (net : Network) (me s d : Node_ID) (chosen : Option (List Node_ID)) (rt : Route) :
    Prop :=
  match chosen with
  | none => rt.cost = -1 ∧ (∀ q, ¬ net.LivePath s d q) ∧ rt.forwarder = none
  | some p =>
    net.LivePath s d p ∧ p.Nodup ∧ (∀ q, net.LivePath s d q → net.path_cost p ≤ net.path_cost q) ∧
    rt.cost = net.path_cost p ∧ rt.distance = (p.length - 1 : ℕ) ∧
    (rt.forwarder.isSome ↔ me ∈ p ∧ me ≠ d) ∧ ∀ v, rt.forwarder = some v → [me, v] <:+: p

/-- The table every daemon builds over `net` is an exact all-pairs
shortest-path table, and all daemons choose the same paths. -/
def RoutesExact (net : Network) : Prop :=
  ∃ chosen : Node_ID → Node_ID → Option (List Node_ID),
    (∀ s, chosen s s = some [s]) ∧
    ∀ This_Node ∈ net.All_Nodes_by_ID, ∃ rr, RR_Init This_Node net = some rr ∧
      ∀ s ∈ net.All_Nodes_by_ID, ∀ d ∈ net.All_Nodes_by_ID, ∃ rt,
        RR_Find_Route rr s d = some rt ∧ RR_Get_Next_Hop rr s d = rt.forwarder ∧
        RouteExact net This_Node s d (chosen s d) rt

/-! ## 4. A route shows a path -/

/-- `rt` is what the table of `me` holds for the path `o`. -/
def Shows (w : Node_ID → Node_ID → Option Nat) (me : Node_ID) :
    Option (List Node_ID) → Route → Prop
  | none, rt => rt.cost = -1 ∧ rt.forwarder = none
  | some p, rt =>
    rt.cost = pathCost w p ∧ rt.distance = int16 (p.length - 1 : ℕ) ∧ rt.forwarder = next me p

/-- Node with index `i`. -/
def Network.node (net : Network) (i : Nat) : Node_ID := net.All_Nodes_by_ID.getD i 0

/-- The table `rr` shows the paths `E`, given by the indexes of their ends. -/
structure Agrees (net : Network) (w : Node_ID → Node_ID → Option Nat) (me : Node_ID)
    (E : Nat → Nat → Option (List Node_ID)) (rr : Routing_Regime) : Prop where
  num : rr.Num_Nodes = net.All_Nodes_by_ID.length
  ids : rr.Node_IDs = net.All_Nodes_by_ID
  shows : ∀ i j, i < net.All_Nodes_by_ID.length → j < net.All_Nodes_by_ID.length →
    Shows w me (E i j) (rr.Routes i j)

section Index

variable {net : Network} {w : Node_ID → Node_ID → Option Nat} {me : Node_ID}
  {E E' : Nat → Nat → Option (List Node_ID)} {rr : Routing_Regime} {i j : Nat} {nid : Node_ID}

theorem Network.nodup (net : Network) : net.All_Nodes_by_ID.Nodup :=
  net.sorted.imp Nat.ne_of_lt

theorem node_mem (h : i < net.All_Nodes_by_ID.length) : net.node i ∈ net.All_Nodes_by_ID := by
  rw [Network.node, getD_eq_getElem _ _ h]
  exact getElem_mem h

theorem node_inj (hi : i < net.All_Nodes_by_ID.length) (hj : j < net.All_Nodes_by_ID.length)
    (h : net.node i = net.node j) : i = j := by
  rw [Network.node, Network.node, getD_eq_getElem _ _ hi, getD_eq_getElem _ _ hj] at h
  exact (List.Nodup.getElem_inj_iff net.nodup).mp h

theorem index_of_mem (hids : rr.Node_IDs = net.All_Nodes_by_ID) (h : nid ∈ net.All_Nodes_by_ID) :
    ∃ i, RR_Get_Node_Index rr nid = some i ∧ i < net.All_Nodes_by_ID.length ∧ net.node i = nid := by
  obtain ⟨i, hi⟩ : ∃ i, net.All_Nodes_by_ID.idxOf? nid = some i := by
    apply ne_none_iff_exists'.mp
    rw [Ne, List.idxOf?_eq_none_iff]
    exact fun hnot => hnot h
  obtain ⟨hlt, hget, -⟩ := List.idxOf?_eq_some_iff.mp hi
  refine ⟨i, ?_, hlt, ?_⟩
  · rw [RR_Get_Node_Index, hids, hi]
  · rw [Network.node, getD_eq_getElem _ _ hlt, hget]

theorem Agrees.congr (h : Agrees net w me E rr)
    (hE : ∀ i j, i < net.All_Nodes_by_ID.length → j < net.All_Nodes_by_ID.length →
      E i j = E' i j) : Agrees net w me E' rr where
  num := h.num
  ids := h.ids
  shows := by
    intro i j hi hj
    rw [← hE i j hi hj]
    exact h.shows i j hi hj

theorem Agrees.set_route {o : Option (List Node_ID)} {rt : Route} (h : Agrees net w me E rr)
    (hrt : Shows w me o rt)
    (hE : ∀ a b, a < net.All_Nodes_by_ID.length → b < net.All_Nodes_by_ID.length →
      E' a b = if a = i ∧ b = j then o else E a b) :
    Agrees net w me E' (rr.set_route i j rt) where
  num := h.num
  ids := h.ids
  shows := by
    intro a b ha hb
    rw [hE a b ha hb]
    simp only [Routing_Regime.set_route]
    split
    · exact hrt
    · exact h.shows a b ha hb

end Index

/-! ## 5. One round is one step of the recursion -/

section Round

variable {net : Network} {w : Node_ID → Node_ID → Option Nat} {me : Node_ID} {S : Set Node_ID}
  {T : Node_ID → Node_ID → Option (List Node_ID)} {rr : Routing_Regime} {k i j : Nat}
  {p q : List Node_ID} {o : Option (List Node_ID)} {rt : Route}

theorem Shows.neg_iff (h : Shows w me o rt) : rt.cost < 0 ↔ o = none := by
  cases o with
  | none =>
    have hcost := h.1
    simp only [iff_true]
    omega
  | some p =>
    have hcost := h.1
    simp only [reduceCtorEq, iff_false]
    omega

theorem Shows.join {a b c : Node_ID} {i_k k_j : Route} (hT : Exact w S T) (hp : T a b = some p)
    (hq : T b c = some q) (hn : (p ++ q.tail).Nodup) (h1 : Shows w me (some p) i_k)
    (h2 : Shows w me (some q) k_j) (pred : Node_ID) : Shows w me (some (p ++ q.tail))
      { cost := i_k.cost + k_j.cost
        distance := int16 (i_k.distance + k_j.distance)
        predecessor := pred
        forwarder := k_j.forwarder.or i_k.forwarder } := by
  obtain ⟨hc1, hd1, hf1⟩ := h1
  obtain ⟨hc2, hd2, hf2⟩ := h2
  have hpath := hT.path hp
  have hqath := hT.path hq
  refine ⟨?_, ?_, ?_⟩
  · rw [hpath.cost_append hqath, hc1, hc2]
    push_cast
    rfl
  · rw [hpath.length_append hqath, hd1, hd2]
    simp only [int16]
    rw [Int.bmod_add_bmod, Int.add_bmod_bmod]
    push_cast
    rfl
  · rw [hpath.next_append hqath hn, hf1, hf2]

theorem Shows.pick_eq {sum : Int} (h : Shows w me o rt) (hsum : sum = pathCost w p) :
    pick w o (some p) = if rt.cost < 0 ∨ sum < rt.cost then some p else o := by
  cases o with
  | none => simp [pick, h.neg_iff.mpr rfl]
  | some r =>
    have hpos : ¬ ((pathCost w r : ℕ) : Int) < 0 := by omega
    rw [h.1, hsum]
    simp only [pick, hpos, false_or, Int.ofNat_lt]

def Fits (net : Network) (w : Node_ID → Node_ID → Option Nat)
    (T : Node_ID → Node_ID → Option (List Node_ID)) : Prop :=
  ∀ a b c p q, a ∈ net.All_Nodes_by_ID → b ∈ net.All_Nodes_by_ID →
    T a b = some p → T b c = some q → pathCost w p + pathCost w q < 2 ^ 31

def HalvesFit (net : Network) (w : Node_ID → Node_ID → Option Nat)
    (T : Node_ID → Node_ID → Option (List Node_ID)) (k i j : Nat) : Prop :=
  ∀ p q, i ≠ k → i ≠ j → j ≠ k → T (net.node i) (net.node k) = some p →
    T (net.node k) (net.node j) = some q → pathCost w p + pathCost w q < 2 ^ 31

theorem Fits.halves (h : Fits net w T) (hi : i < net.All_Nodes_by_ID.length)
    (hk : k < net.All_Nodes_by_ID.length) (j : Nat) : HalvesFit net w T k i j :=
  fun p q _ _ _ hp hq => h _ _ _ p q (node_mem hi) (node_mem hk) hp hq

/-- The paths in the table during round `k`: the pairs before `(i, j)` in the
order of the loops may go through `k`, the others not yet. -/
def halfway (net : Network) (w : Node_ID → Node_ID → Option Nat)
    (T : Node_ID → Node_ID → Option (List Node_ID)) (k i j a b : Nat) : Option (List Node_ID) :=
  if a < i ∨ a = i ∧ b < j then relax w (net.node k) T (net.node a) (net.node b)
  else T (net.node a) (net.node b)

theorem halfway_of_through {a b : Nat}
    (h : through T (net.node k) (net.node a) (net.node b) = none) :
    halfway net w T k i j a b = T (net.node a) (net.node b) := by
  unfold halfway
  split
  · exact relax_of_through h
  · rfl

theorem halfway_column (a : Nat) : halfway net w T k i j a k = T (net.node a) (net.node k) :=
  halfway_of_through (by simp [through])

theorem halfway_row (b : Nat) : halfway net w T k i j k b = T (net.node k) (net.node b) :=
  halfway_of_through (by simp [through])

theorem halfway_succ (a b : Nat) :
    halfway net w T k i (j + 1) a b =
      if a = i ∧ b = j then relax w (net.node k) T (net.node i) (net.node j)
      else halfway net w T k i j a b := by
  unfold halfway
  by_cases hab : a = i ∧ b = j
  · obtain ⟨rfl, rfl⟩ := hab
    simp
  · rw [if_neg hab]
    have hiff : (a < i ∨ a = i ∧ b < j + 1) ↔ (a < i ∨ a = i ∧ b < j) := by omega
    simp only [hiff]

theorem relax_route_step (hT : Exact w S T)
    (hi : i < net.All_Nodes_by_ID.length) (hj : j < net.All_Nodes_by_ID.length)
    (hk : k < net.All_Nodes_by_ID.length) (hik : i ≠ k)
    (hp : T (net.node i) (net.node k) = some p) (hfits : HalvesFit net w T k i j)
    (h : Agrees net w me (halfway net w T k i j) rr) :
    ∃ rr', relax_route k i rr j = some rr' ∧ Agrees net w me (halfway net w T k i (j + 1)) rr' := by
  have hs_ik := h.shows i k hi hk
  have hs_kj := h.shows k j hk hj
  have hs_ij := h.shows i j hi hj
  rw [halfway_column, hp] at hs_ik
  rw [halfway_row] at hs_kj
  have hold : halfway net w T k i j i j = T (net.node i) (net.node j) := by simp [halfway]
  rw [hold] at hs_ij
  -- where there is nothing to gain, the entry stays
  have hstay : relax w (net.node k) T (net.node i) (net.node j) = T (net.node i) (net.node j) →
      Agrees net w me (halfway net w T k i (j + 1)) rr := by
    intro hsame
    refine h.congr (fun a b _ _ => ?_)
    rw [halfway_succ, hsame]
    split
    · rename_i hab
      rw [hab.1, hab.2, hold]
    · rfl
  unfold relax_route
  by_cases hskip : i = j ∨ j = k ∨ (rr.Routes k j).cost < 0
  · refine ⟨rr, by simp [hskip], hstay (relax_of_through ?_)⟩
    rcases hskip with rfl | rfl | hneg
    · simp [through]
    · simp [through]
    · simp [through, hs_kj.neg_iff.mp hneg]
  · have hpos : ¬ (rr.Routes k j).cost < 0 := fun hneg => hskip (.inr (.inr hneg))
    obtain ⟨q, hq⟩ := ne_none_iff_exists'.mp (fun hnone => hpos (hs_kj.neg_iff.mpr hnone))
    rw [hq] at hs_kj
    have hnik : net.node i ≠ net.node k := fun heq => hik (node_inj hi hk heq)
    have hnjk : net.node j ≠ net.node k :=
      fun heq => hskip (.inr (.inl (node_inj hj hk heq)))
    have hnij : net.node i ≠ net.node j := fun heq => hskip (.inl (node_inj hi hj heq))
    have hthrough := through_of hnik hnjk hnij hp hq
    have hsum := hfits p q hik (fun hij => hskip (.inl hij))
      (fun hjk => hskip (.inr (.inl hjk))) hp hq
    have hadd : int32_add (rr.Routes i k).cost (rr.Routes k j).cost =
        some ((rr.Routes i k).cost + (rr.Routes k j).cost) := by
      rw [int32_add, if_pos]
      rw [hs_ik.1, hs_kj.1]
      omega
    have hcost : (rr.Routes i k).cost + (rr.Routes k j).cost = pathCost w (p ++ q.tail) := by
      rw [(hT.path hp).cost_append (hT.path hq), hs_ik.1, hs_kj.1]
      push_cast
      rfl
    simp only [if_neg hskip, hadd, bind_eq_bind, bind_some]
    have hpick := hs_ij.pick_eq hcost
    rw [← hthrough, ← relax] at hpick
    split
    · rename_i hbetter
      rw [if_pos hbetter, hthrough] at hpick
      have hnodup := (hT.relax (k := net.node k)).nodup hpick
      refine ⟨_, rfl, h.set_route (Shows.join hT hp hq hnodup hs_ik hs_kj _) (fun a b _ _ => ?_)⟩
      rw [halfway_succ, hpick]
    · rename_i hworse
      rw [if_neg hworse] at hpick
      exact ⟨rr, rfl, hstay hpick⟩

theorem relax_row_step (hT : Exact w S T)
    (hfits : ∀ j < net.All_Nodes_by_ID.length, HalvesFit net w T k i j)
    (hi : i < net.All_Nodes_by_ID.length) (hk : k < net.All_Nodes_by_ID.length)
    (h : Agrees net w me (halfway net w T k i 0) rr) :
    ∃ rr', relax_row k rr i = some rr' ∧ Agrees net w me (halfway net w T k (i + 1) 0) rr' := by
  have hrow : ∀ a b, b < net.All_Nodes_by_ID.length →
      halfway net w T k i net.All_Nodes_by_ID.length a b = halfway net w T k (i + 1) 0 a b := by
    intro a b hb
    unfold halfway
    have hiff : (a < i ∨ a = i ∧ b < net.All_Nodes_by_ID.length) ↔
        (a < i + 1 ∨ a = i + 1 ∧ b < 0) := by omega
    simp only [hiff]
  have hs_ik := h.shows i k hi hk
  rw [halfway_column] at hs_ik
  unfold relax_row
  by_cases hskip : i = k ∨ (rr.Routes i k).cost < 0
  · -- the whole row has nothing to gain from `k`
    refine ⟨rr, by rw [if_pos hskip], h.congr (fun a b _ hb => ?_)⟩
    rw [← hrow a b hb]
    have hnone : through T (net.node k) (net.node i) (net.node b) = none := by
      rcases hskip with rfl | hneg
      · simp [through]
      · simp [through, hs_ik.neg_iff.mp hneg]
    by_cases hai : a = i
    · rw [hai, halfway_of_through hnone, halfway_of_through hnone]
    · unfold halfway
      simp [hai]
  · rw [not_or] at hskip
    obtain ⟨p, hp⟩ :=
      ne_none_iff_exists'.mp (fun hnone => hskip.2 (hs_ik.neg_iff.mpr hnone))
    rw [if_neg (not_or.mpr hskip), h.num]
    obtain ⟨rr', hrun, hdone⟩ := foldlM_range
      (fun j rr => Agrees net w me (halfway net w T k i j) rr) net.All_Nodes_by_ID.length h
      (fun j rr hj hrr => relax_route_step hT hi hj hk hskip.1 hp (hfits j hj) hrr)
    exact ⟨rr', hrun, hdone.congr (fun a b _ hb => hrow a b hb)⟩

theorem relax_round_step (hT : Exact w S T)
    (hfits : ∀ i < net.All_Nodes_by_ID.length, ∀ j < net.All_Nodes_by_ID.length,
      HalvesFit net w T k i j) (hk : k < net.All_Nodes_by_ID.length)
    (h : Agrees net w me (fun a b => T (net.node a) (net.node b)) rr) :
    ∃ rr', relax_round rr k = some rr' ∧
      Agrees net w me (fun a b => relax w (net.node k) T (net.node a) (net.node b)) rr' := by
  have hstart : Agrees net w me (halfway net w T k 0 0) rr :=
    h.congr (fun a b _ _ => by simp [halfway])
  unfold relax_round
  rw [h.num]
  obtain ⟨rr', hrun, hdone⟩ := foldlM_range
    (fun i rr => Agrees net w me (halfway net w T k i 0) rr) net.All_Nodes_by_ID.length hstart
    (fun i rr hi hrr => relax_row_step hT (hfits i hi) hi hk hrr)
  exact ⟨rr', hrun, hdone.congr (fun a b ha _ => by simp [halfway, ha])⟩

end Round

/-! ## 6. The edges -/

section Fill

variable {net : Network} {w w' : Node_ID → Node_ID → Option Nat} {me a b : Node_ID}
  {es : List Edge} {e : Edge}

theorem edge_weight_concat (hkeys : ((es ++ [e]).map fun e => (e.src, e.dst)).Nodup) :
    edge_weight (es ++ [e]) a b =
      if e.src = a ∧ e.dst = b ∧ e.cost ≠ -1 then some e.cost.natAbs else edge_weight es a b := by
  unfold edge_weight
  rw [List.find?_append]
  split
  · rename_i he
    have hnone : es.find? (fun e => e.src = a ∧ e.dst = b ∧ e.cost ≠ -1) = none := by
      rw [List.find?_eq_none]
      intro e' he' hkey
      simp only [decide_eq_true_eq] at hkey
      rw [map_append, nodup_append] at hkeys
      refine hkeys.2.2 (e'.src, e'.dst) (List.mem_map_of_mem he') (e.src, e.dst) (by simp) ?_
      rw [hkey.1, hkey.2.1, he.1, he.2.1]
    rw [hnone]
    simp [he]
  · rename_i he
    simp [he]

theorem shows_direct_congr {rt : Route} (hw : w' a b = w a b)
    (h : Shows w me (direct w a b) rt) : Shows w' me (direct w' a b) rt := by
  unfold direct at h ⊢
  rw [hw]
  split at h
  · rename_i hab
    rw [if_pos hab]
    simpa [Shows] using h
  · rename_i hab
    rw [if_neg hab]
    split at h
    · rename_i hedge
      rw [if_pos hedge]
      simpa [Shows, pathCost, hw] using h
    · rename_i hedge
      rw [if_neg hedge]
      exact h

theorem shows_edge (hloop : e.src ≠ e.dst) (hw : w e.src e.dst = some e.cost.natAbs) :
    Shows w me (direct w e.src e.dst)
      { cost := |e.cost|
        distance := 1
        predecessor := e.src
        forwarder := if e.src ≠ me then none else some e.dst } := by
  rw [direct, if_neg hloop, hw]
  refine ⟨?_, ?_, ?_⟩
  · have hcost : pathCost w [e.src, e.dst] = e.cost.natAbs := by simp [pathCost, hw]
    rw [hcost]
    exact Int.abs_eq_natAbs _
  · simp [int16]
  · simp [Lib.next]

theorem blank_agrees (net : Network) (me : Node_ID) : Agrees net (edge_weight []) me
      (fun i j => direct (edge_weight []) (net.node i) (net.node j)) (blank_routes net) where
  num := rfl
  ids := rfl
  shows := by
    intro i j hi hj
    by_cases hij : i = j
    · simp [direct, blank_routes, hij, Shows, int16, Lib.next]
    · have hne : net.node i ≠ net.node j := fun heq => hij (node_inj hi hj heq)
      simp [direct, blank_routes, hij, hne, Shows, edge_weight]

theorem fill_edges (net : Network) (me : Node_ID) (es : List Edge)
    (hkeys : (es.map fun e => (e.src, e.dst)).Nodup)
    (hends : ∀ e ∈ es, e.src ∈ net.All_Nodes_by_ID ∧ e.dst ∈ net.All_Nodes_by_ID)
    (hloop : ∀ e ∈ es, e.src ≠ e.dst) :
    ∃ rr, es.foldlM (fill_edge me) (blank_routes net) = some rr ∧ Agrees net (edge_weight es) me
        (fun i j => direct (edge_weight es) (net.node i) (net.node j)) rr := by
  induction es using List.reverseRecOn with
  | nil => exact ⟨_, rfl, blank_agrees net me⟩
  | append_singleton es e ih =>
    have hkeys' : (es.map fun e => (e.src, e.dst)).Nodup := by
      rw [map_append] at hkeys
      exact hkeys.of_append_left
    obtain ⟨rr, hrun, h⟩ := ih hkeys'
      (fun e he => hends e (mem_append_left _ he))
      (fun e he => hloop e (mem_append_left _ he))
    obtain ⟨hsrc, hdst⟩ := hends e (by simp)
    obtain ⟨i, hi, hilt, hisrc⟩ := index_of_mem h.ids hsrc
    obtain ⟨j, hj, hjlt, hjdst⟩ := index_of_mem h.ids hdst
    rw [foldlM_append, hrun]
    simp only [foldlM_cons, foldlM_nil, bind_eq_bind, bind_some,
      Option.pure_def, bind_fun_some]
    unfold fill_edge
    by_cases hdown : e.cost = -1
    · refine ⟨rr, by rw [if_pos hdown], h.num, h.ids, fun a b ha hb => ?_⟩
      refine shows_direct_congr ?_ (h.shows a b ha hb)
      rw [edge_weight_concat hkeys, if_neg (by simp [hdown])]
    · rw [if_neg hdown, hi, hj]
      refine ⟨_, rfl, h.num, h.ids, fun a b ha hb => ?_⟩
      simp only [Routing_Regime.set_route]
      split
      · rename_i hab
        obtain ⟨rfl, rfl⟩ := hab
        rw [hisrc, hjdst]
        apply shows_edge (hloop e (by simp))
        rw [edge_weight_concat hkeys, if_pos ⟨rfl, rfl, hdown⟩]
      · rename_i hab
        refine shows_direct_congr ?_ (h.shows a b ha hb)
        rw [edge_weight_concat hkeys, if_neg]
        rintro ⟨hsa, hdb, -⟩
        exact hab ⟨node_inj ha hilt (by rw [hisrc, hsa]), node_inj hb hjlt (by rw [hjdst, hdb])⟩

end Fill

/-! ## 7. The finished table -/

def Network.paths_after (net : Network) (m : Nat) : Node_ID → Node_ID → Option (List Node_ID) :=
  ((range m).map net.node).foldl (fun T k => relax net.weight k T) (direct net.weight)

def Network.chosen_path (net : Network) : Node_ID → Node_ID → Option (List Node_ID) :=
  net.paths_after net.All_Nodes_by_ID.length

section Finished

variable {net : Network} {me a b s d : Node_ID} {p : List Node_ID} {C : Nat} {m : Nat}

theorem paths_after_succ (net : Network) (m : Nat) :
    net.paths_after (m + 1) = relax net.weight (net.node m) (net.paths_after m) := by
  simp [Network.paths_after, range_succ]

theorem paths_after_exact (net : Network) (m : Nat) :
    Exact net.weight {x | x ∈ (range m).map net.node} (net.paths_after m) := by
  have h := (Exact.direct (w := net.weight)).rounds ((range m).map net.node)
  rwa [Set.union_empty] at h

theorem edge_of_weight (h : (net.weight a b).isSome) :
    ∃ e ∈ net.All_Edges, e.src = a ∧ e.dst = b ∧ net.weight a b = some e.cost.natAbs := by
  unfold Network.weight edge_weight at h ⊢
  rw [isSome_map] at h
  obtain ⟨e, he⟩ := isSome_iff_exists.mp h
  have hkey := List.find?_some he
  simp only [decide_eq_true_eq] at hkey
  exact ⟨e, mem_of_find?_eq_some he, hkey.1, hkey.2.1, by rw [he]; rfl⟩

theorem weight_le (net : Network) (a b : Node_ID) : (net.weight a b).getD 0 ≤ 2 ^ 15 := by
  by_cases h : (net.weight a b).isSome
  · obtain ⟨e, he, -, -, hw⟩ := edge_of_weight h
    have hrange := net.cost_range e he
    rw [hw, getD_some]
    omega
  · rw [not_isSome_iff_eq_none.mp h]
    simp

theorem Network.edge_end (net : Network) (a b : Node_ID) (h : (net.weight a b).isSome) :
    b ∈ net.All_Nodes_by_ID := by
  obtain ⟨e, he, -, rfl, -⟩ := edge_of_weight h
  exact (net.ends e he).2

theorem chosen_path_exact (net : Network) : Exact net.weight Set.univ net.chosen_path := by
  have hset : {x | x ∈ (range net.All_Nodes_by_ID.length).map net.node}
      = {x | x ∈ net.All_Nodes_by_ID} := by
    ext x
    simp only [Set.mem_ofPred_eq, List.mem_map, mem_range]
    constructor
    · rintro ⟨i, hi, rfl⟩
      exact node_mem hi
    · intro hx
      obtain ⟨i, hi, hget⟩ := getElem_of_mem hx
      exact ⟨i, hi, by rw [Network.node, getD_eq_getElem _ _ hi, hget]⟩
  have h := paths_after_exact net net.All_Nodes_by_ID.length
  rw [hset] at h
  exact
    { path := fun hp => (h.path hp).mono (Set.subset_univ _)
      nodup := h.nodup
      best := fun hq => h.best (hq.restrict net.edge_end) }

theorem path_length_le {S : Set Node_ID} (hs : s ∈ net.All_Nodes_by_ID)
    (hp : Path net.weight S s d p) (hn : p.Nodup) : p.length ≤ net.All_Nodes_by_ID.length := by
  have hp' : Path net.weight {x | x ∈ net.All_Nodes_by_ID} s d p := hp.restrict net.edge_end
  have hsub : p ⊆ net.All_Nodes_by_ID := by
    clear hn hp
    induction hp' with
    | nil i => simpa using hs
    | cons hedge _ _ ih => exact cons_subset.mpr ⟨hs, ih (net.edge_end _ _ hedge)⟩
  exact (hn.subperm hsub).length_le

theorem paths_after_fits (net : Network) (hC : ∀ a b, (net.weight a b).getD 0 ≤ C)
    (hsmall : 2 * ((net.All_Nodes_by_ID.length - 1) * C) < 2 ^ 31) (m : Nat) :
    Fits net net.weight (net.paths_after m) := by
  have hT := paths_after_exact net m
  have hcost : ∀ a b p, a ∈ net.All_Nodes_by_ID → net.paths_after m a b = some p →
      pathCost net.weight p ≤ (net.All_Nodes_by_ID.length - 1) * C := by
    intro a b p ha hp
    have hlen := path_length_le ha (hT.path hp) (hT.nodup hp)
    calc pathCost net.weight p ≤ (p.length - 1) • C := pathCost_le C hC p
      _ = (p.length - 1) * C := by simp
      _ ≤ (net.All_Nodes_by_ID.length - 1) * C := Nat.mul_le_mul_right C (by omega)
  intro a b c p q ha hb hp hq
  have hcp := hcost a b p ha hp
  have hcq := hcost b c q hb hq
  omega

theorem rr_init_agrees (hloop : ∀ e ∈ net.All_Edges, e.src ≠ e.dst)
    (hC : ∀ a b, (net.weight a b).getD 0 ≤ C)
    (hsmall : 2 * ((net.All_Nodes_by_ID.length - 1) * C) < 2 ^ 31) (me : Node_ID) :
    ∃ rr, RR_Init me net = some rr ∧
      Agrees net net.weight me (fun i j => net.chosen_path (net.node i) (net.node j)) rr := by
  obtain ⟨rr, hfill, h⟩ := fill_edges net me net.All_Edges net.keys net.ends hloop
  obtain ⟨rr', hrun, h'⟩ := foldlM_range
    (fun m rr => Agrees net net.weight me
      (fun i j => net.paths_after m (net.node i) (net.node j)) rr)
    net.All_Nodes_by_ID.length h
    (fun m rr hm hrr => by
      rw [paths_after_succ]
      exact relax_round_step (paths_after_exact net m)
        (fun i hi j _ => (paths_after_fits net hC hsmall m).halves hi hm j) hm hrr)
  refine ⟨rr', ?_, h'⟩
  rw [RR_Init, hfill, bind_eq_bind, bind_some, h.num]
  exact hrun

theorem chosen_path_self (net : Network) (s : Node_ID) : net.chosen_path s s = some [s] := by
  have hkeep : ∀ m, net.paths_after m s s = some [s] := by
    intro m
    induction m with
    | zero => simp [Network.paths_after, direct]
    | succ m ih =>
      rw [paths_after_succ, relax_of_through (by simp [through]), ih]
  exact hkeep _

theorem route_of_agrees {rt : Route} (h : Shows net.weight me (net.chosen_path s d) rt)
    (hshort : ∀ p, net.chosen_path s d = some p → p.length ≤ 2 ^ 15) :
    RouteExact net me s d (net.chosen_path s d) rt := by
  have hT := chosen_path_exact net
  cases hp : net.chosen_path s d with
  | none =>
    rw [hp] at h
    refine ⟨h.1, fun q hq => ?_, h.2⟩
    obtain ⟨p, hp', -⟩ := hT.best hq
    rw [hp] at hp'
    simp at hp'
  | some p =>
    rw [hp] at h
    obtain ⟨hcost, hdist, hfwd⟩ := h
    refine ⟨hT.path hp, hT.nodup hp, fun q hq => ?_, hcost, ?_, ?_, fun v hv => ?_⟩
    · obtain ⟨p', hp', hle⟩ := hT.best hq
      rw [hp, Option.some.injEq] at hp'
      exact hp' ▸ hle
    · have hlen := hshort p hp
      rw [hdist, int16, Int.bmod_eq_of_le] <;> omega
    · rw [hfwd]
      exact (hT.path hp).next_isSome (hT.nodup hp)
    · rw [hfwd] at hv
      exact next_infix hv

theorem find_route_agrees {rr : Routing_Regime} {T : Node_ID → Node_ID → Option (List Node_ID)}
    (h : Agrees net net.weight me (fun i j => T (net.node i) (net.node j)) rr)
    (hs : s ∈ net.All_Nodes_by_ID) (hd : d ∈ net.All_Nodes_by_ID) :
    ∃ rt, RR_Find_Route rr s d = some rt ∧ Shows net.weight me (T s d) rt := by
  obtain ⟨i, hi, hilt, his⟩ := index_of_mem h.ids hs
  obtain ⟨j, hj, hjlt, hjd⟩ := index_of_mem h.ids hd
  have hshow := h.shows i j hilt hjlt
  simp only [his, hjd] at hshow
  refine ⟨rr.Routes i j, ?_, hshow⟩
  simp [RR_Find_Route, hi, hj]

/-- With at most 32768 nodes the table is exact: no cost overflows and every
hop count fits its field. -/
theorem rr_init_exact (net : Network) (hloop : ∀ e ∈ net.All_Edges, e.src ≠ e.dst)
    (hn : net.All_Nodes_by_ID.length ≤ 32768) : RoutesExact net := by
  refine ⟨net.chosen_path, chosen_path_self net, fun me hme => ?_⟩
  have hsmall : 2 * ((net.All_Nodes_by_ID.length - 1) * 2 ^ 15) < 2 ^ 31 := by omega
  obtain ⟨rr, hrun, h⟩ := rr_init_agrees hloop (weight_le net) hsmall me
  refine ⟨rr, hrun, fun s hs d hd => ?_⟩
  obtain ⟨rt, hfind, hshow⟩ := find_route_agrees h hs hd
  refine ⟨rt, hfind, ?_, route_of_agrees hshow (fun p hp => ?_)⟩
  · simp [RR_Get_Next_Hop, hfind]
  · have hT := chosen_path_exact net
    have hlen := path_length_le hs (hT.path hp) (hT.nodup hp)
    omega

end Finished

/-! ## 8. A line of nodes -/

section Line

/-- Nodes `0, …, m` in a line, every edge of cost 1. -/
def line_network (m : Nat) : Network where
  All_Nodes_by_ID := range (m + 1)
  All_Edges := (range m).map fun i => { src := i, dst := i + 1, cost := 1 }
  sorted := List.pairwise_lt_range
  keys := by
    rw [List.map_map]
    refine List.nodup_range.map (fun a b hab => ?_)
    exact congrArg Prod.fst hab
  ends := by
    intro e he
    obtain ⟨i, hi, rfl⟩ := List.mem_map.mp he
    simp only [List.mem_range] at hi ⊢
    omega
  cost_range := by
    intro e he
    obtain ⟨i, -, rfl⟩ := List.mem_map.mp he
    simp only
    omega

theorem line_length (m : Nat) : (line_network m).All_Nodes_by_ID.length = m + 1 := by
  simp [line_network]

theorem line_mem (m a : Nat) (h : a < m + 1) : a ∈ (line_network m).All_Nodes_by_ID := by
  simpa [line_network] using h

theorem line_loop (m : Nat) : ∀ e ∈ (line_network m).All_Edges, e.src ≠ e.dst := by
  intro e he
  obtain ⟨i, -, rfl⟩ := List.mem_map.mp he
  simp

theorem line_weight_le (m a b : Nat) : ((line_network m).weight a b).getD 0 ≤ 1 := by
  by_cases h : ((line_network m).weight a b).isSome
  · obtain ⟨e, he, -, -, hw⟩ := edge_of_weight h
    obtain ⟨i, -, rfl⟩ := List.mem_map.mp he
    rw [hw]
    simp
  · rw [not_isSome_iff_eq_none.mp h]
    simp

theorem line_path_length {m a b : Nat} {S : Set Node_ID} {p : List Node_ID}
    (h : Path (line_network m).weight S a b p) : a + p.length = b + 1 := by
  induction h with
  | nil i => simp
  | cons hedge _ _ ih =>
    obtain ⟨e, he, hsrc, hdst, -⟩ := edge_of_weight hedge
    obtain ⟨i, -, rfl⟩ := List.mem_map.mp he
    subst hsrc hdst
    dsimp only at ih ⊢
    rw [length_cons]
    omega

theorem line_path {m : Nat} (l a : Nat) (h : a + l ≤ m) :
    (line_network m).LivePath a (a + l) (range' a (l + 1)) := by
  induction l generalizing a with
  | zero => exact .nil a
  | succ l ih =>
    have hrest := ih (a + 1) (by omega)
    rw [show a + 1 + l = a + (l + 1) by omega] at hrest
    rw [range'_succ]
    refine .cons ?_ (.inl (Set.mem_univ _)) hrest
    rw [Network.weight, edge_weight, isSome_map, List.find?_isSome]
    refine ⟨{ src := a, dst := a + 1, cost := 1 }, ?_, by simp⟩
    exact List.mem_map.mpr ⟨a, mem_range.mpr (by omega), rfl⟩

theorem line_not_exact {m : Nat} (hm : 2 ^ 15 ≤ m) (hcost : m < 2 ^ 30) :
    ¬ RoutesExact (line_network m) := by
  rintro ⟨chosen, -, hall⟩
  have h0 := line_mem m 0 (by omega)
  have hm' := line_mem m m (by omega)
  have hpath : (line_network m).LivePath 0 (0 + m) _ := line_path m 0 (by omega)
  rw [zero_add] at hpath
  obtain ⟨rr, hrun, hroutes⟩ := hall 0 h0
  obtain ⟨rt, hfind, -, hrt⟩ := hroutes 0 h0 m hm'
  -- what the table really holds
  obtain ⟨rr', hrun', h⟩ := rr_init_agrees (line_loop m) (line_weight_le m)
    (by rw [line_length]; omega) 0
  obtain rfl : rr = rr' := some.inj (hrun.symm.trans hrun')
  obtain ⟨rt', hfind', hshow⟩ := find_route_agrees h h0 hm'
  obtain rfl : rt = rt' := some.inj (hfind.symm.trans hfind')
  obtain ⟨q, hq, -⟩ := (chosen_path_exact (line_network m)).best hpath
  rw [hq] at hshow
  have hreal : rt.distance < 2 ^ 15 := by
    rw [hshow.2.1, int16]
    exact Int.bmod_lt (by decide)
  cases hc : chosen 0 m with
  | none =>
    rw [hc] at hrt
    exact hrt.2.1 _ hpath
  | some p =>
    rw [hc] at hrt
    have hplen := line_path_length hrt.1
    have hclaim := hrt.2.2.2.2.1
    omega

/-- In a line of 32769 nodes the last one is 32768 hops from the first one. -/
theorem long_line_distance_wraps :
    ∃ net : Network, net.All_Nodes_by_ID.length = 32769 ∧
      (∀ e ∈ net.All_Edges, e.src ≠ e.dst) ∧ ¬ RoutesExact net :=
  ⟨line_network 32768, line_length 32768, line_loop 32768,
    line_not_exact (by decide) (by decide)⟩

theorem rr_init_exact_line :
    (∀ e ∈ (line_network 2).All_Edges, e.src ≠ e.dst) ∧
    (line_network 2).All_Nodes_by_ID.length ≤ 32768 ∧ RoutesExact (line_network 2) :=
  ⟨line_loop 2, by decide, rr_init_exact (line_network 2) (line_loop 2) (by decide)⟩

end Line

end Spines.Routing
