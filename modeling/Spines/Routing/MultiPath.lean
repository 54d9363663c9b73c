/-
`daemon/multipath.c`: `Init_MultiPath` and `MultiPath_Compute`.

Source-based routing asks for `k` node-disjoint paths. Every configured node is
split in two, an inbound and an outbound half joined by an edge of capacity 1,
and every edge is given a residual twin; `MultiPath_Compute` sends one unit after
the other from the outbound half of the local node to the inbound half of the
destination, each along a cheapest residual path that Bellman-Ford finds.

A real edge and its residual twin are created together and point to each other.
Here the two are one `Flow_Pair` with a flag: `(p, false)` is the real edge and
`(p, true)` the residual one.

Distances are `int16u` with 65535 for infinity, costs are `int16`. Both are kept
as they are, so is the fact that a relaxation starts from unreached nodes as
well.
-/
import Spines.Lib.UnitFlow
import Spines.Routing.Table

set_option autoImplicit false

namespace Spines.MultiPath

open Spines.Lib Spines.Routing Function List Option

/-! ## 1. The configuration -/

def MAX_NODES : ℕ := 50

def USHRT_MAX : ℕ := 65535

theorem pair_lawfulBEq : LawfulBEq (ℕ × ℕ) := inferInstance

/-- `Edge_Cmp(l, r) < 0`. -/
def edge_lt (l r : ℕ × ℕ) : Prop := l.1 < r.1 ∨ (l.1 = r.1 ∧ l.2 < r.2)

instance : DecidableRel edge_lt := fun l r =>
  inferInstanceAs (Decidable (l.1 < r.1 ∨ (l.1 = r.1 ∧ l.2 < r.2)))

/-- What `configuration.c` leaves behind. `Conf_add_edge` refuses unknown ends and
ignores loops, and orders the ends of an undirected edge; with directed edges
`Init_MultiPath` exits unless both directions are there. -/
structure Topology where
  My_ID : ℕ
  /-- the `i` with `temp_node_ip[i] != 0` -/
  nodes : List ℕ
  Sorted_Edges : List (ℕ × ℕ)
  Directed_Edges : Bool
  nodes_sorted : nodes.Pairwise (· < ·)
  nodes_range : ∀ i ∈ nodes, 1 ≤ i ∧ i ≤ MAX_NODES
  my_id_mem : My_ID ∈ nodes
  edges_sorted : Sorted_Edges.Pairwise edge_lt
  ends : ∀ key ∈ Sorted_Edges, key.1 ∈ nodes ∧ key.2 ∈ nodes ∧ key.1 ≠ key.2
  undirected : Directed_Edges = false → ∀ key ∈ Sorted_Edges, key.1 < key.2
  directed : Directed_Edges = true → ∀ key ∈ Sorted_Edges, key.swap ∈ Sorted_Edges

def Topology.Num_Nodes (tp : Topology) : ℕ := tp.nodes.length

/-- One link state, with two `int16` costs; -1 when the edge is down. -/
structure Edge where
  cost : ℤ
  base_cost : ℤ

/-- `Get_Edge`, for the configured edges. -/
structure Link_States where
  edge : ℕ → ℕ → Edge
  cost_range : ∀ s d, -2 ^ 15 ≤ (edge s d).cost ∧ (edge s d).cost < 2 ^ 15
  base_cost_range : ∀ s d, -2 ^ 15 ≤ (edge s d).base_cost ∧ (edge s d).base_cost < 2 ^ 15

/-! ## 2. `Init_MultiPath` -/

structure Flow_Node where
  inbound_node : Bool
  id : ℕ
  deriving DecidableEq, Repr

def Flow_Nodes_Inbound (i : ℕ) : Flow_Node := ⟨true, i⟩

def Flow_Nodes_Outbound (i : ℕ) : Flow_Node := ⟨false, i⟩

/-- A real edge from `a` to `b`, and with it the residual edge from `b` to `a`.
The capacity of both is 1. -/
structure Flow_Pair where
  a : Flow_Node
  b : Flow_Node
  /-- the ends of `edge`, `none` for `NULL`; `reverse_edge` has them swapped -/
  edge : Option (ℕ × ℕ)
  index : ℕ
  deriving DecidableEq, Repr

abbrev Flow_Edge := Flow_Pair × Bool

def Flow_Edge.residual (e : Flow_Edge) : Bool := e.2

def Flow_Edge.start (e : Flow_Edge) : Flow_Node := if e.2 then e.1.b else e.1.a

def Flow_Edge.end_ (e : Flow_Edge) : Flow_Node := if e.2 then e.1.a else e.1.b

def Flow_Edge.index (e : Flow_Edge) : ℕ := if e.2 then USHRT_MAX else e.1.index

def Flow_Edge.twin (e : Flow_Edge) : Flow_Edge := (e.1, !e.2)

def node_pair (i : ℕ) : Flow_Pair :=
  ⟨Flow_Nodes_Inbound i, Flow_Nodes_Outbound i, none, USHRT_MAX⟩

/-- The pair for an edge from `s` to `d`. -/
def edge_pair (s d index : ℕ) : Flow_Pair :=
  ⟨Flow_Nodes_Outbound s, Flow_Nodes_Inbound d, some (s, d), index⟩

/-- The pairs in the order they are created. The index of an edge is its place in
`Sorted_Edges` (`daemon/node.c`). -/
def flow_pairs (tp : Topology) : List Flow_Pair :=
  tp.nodes.map node_pair ++
    tp.Sorted_Edges.zipIdx.flatMap fun ⟨⟨s, d⟩, index⟩ =>
      edge_pair s d index :: if tp.Directed_Edges then [] else [edge_pair d s index]

/-- The list at `Flow_Edge_Head`: every edge is put in front, the real one first. -/
def flow_edges (tp : Topology) : List Flow_Edge :=
  ((flow_pairs tp).flatMap fun p => [(p, false), (p, true)]).reverse

/-! ## 3. `MultiPath_Compute` -/

def int16u (x : ℤ) : ℤ := x % 2 ^ 16

structure Flow_Graph where
  flow : Flow_Edge → ℕ
  distance : Flow_Node → ℤ
  previous_edge : Flow_Node → Option Flow_Edge
  progress : Bool
  bag_of_edges : List Flow_Edge

section Compute

variable (tp : Topology) (ls : Link_States) (use_base_cost require_reverse : Bool)

/-- The cost of an edge with `edge` and `reverse_edge`, `none` when it is skipped. -/
def link_cost (edge reverse_edge : Edge) : Option ℤ :=
  if use_base_cost then
    let c1 := edge.base_cost
    let c2 := reverse_edge.base_cost
    some (if require_reverse then (if c1 > c2 then c1 else c2) else c1)
  else if edge.cost = -1 ∨ (require_reverse ∧ reverse_edge.cost = -1) then none
  else
    let c1 := int16 |edge.cost|
    let c2 := int16 |reverse_edge.cost|
    some (if require_reverse then (if c1 > c2 then c1 else c2) else c1)

def flow_edge_cost (e : Flow_Edge) : Option ℤ :=
  let cost := match e.1.edge with
    | none => some 0
    | some (s, d) => link_cost use_base_cost require_reverse (ls.edge s d) (ls.edge d s)
  -- if edge is residual, flip cost
  cost.map fun cost => if e.residual then int16 (-cost) else cost

def relax_edge (g : Flow_Graph) (e : Flow_Edge) : Flow_Graph :=
  match flow_edge_cost ls use_base_cost require_reverse e with
  | none => g
  | some cost =>
    if g.flow e < 1 ∧ g.distance e.end_ > g.distance e.start + cost then
      { g with
        distance := Function.update g.distance e.end_ (int16u (g.distance e.start + cost))
        previous_edge := Function.update g.previous_edge e.end_ (some e)
        progress := true }
    else g

def relax_edges (g : Flow_Graph) : Flow_Graph :=
  (flow_edges tp).foldl (relax_edge ls use_base_cost require_reverse) { g with progress := false }

/-- Step 2: at most `n` passes over the edges. -/
def relax_rounds : ℕ → Flow_Graph → Flow_Graph
  | 0, g => g
  | n + 1, g =>
    let g := relax_edges tp ls use_base_cost require_reverse g
    if g.progress then relax_rounds n g else g

def init_graph (g : Flow_Graph) : Flow_Graph :=
  { g with
    distance := fun t => if t = Flow_Nodes_Outbound tp.My_ID then 0 else USHRT_MAX
    previous_edge := fun _ => none }

/-- Body of the path augmentation. An edge that is not in the bag cannot be taken
out of it. -/
def augment_edge (g : Flow_Graph) (e : Flow_Edge) : Option Flow_Graph :=
  let flow := Function.update (Function.update g.flow e 1) e.twin 0
  if e.residual then
    if e.twin ∈ g.bag_of_edges then
      some { g with bag_of_edges := g.bag_of_edges.erase e.twin, flow := flow }
    else none
  else some { g with bag_of_edges := e :: g.bag_of_edges, flow := flow }

/-- The path augmentation, from `t` back to the local node, `none` at a `NULL`
predecessor or when there are more than `n` edges on the way. -/
def augment : ℕ → Flow_Graph → Flow_Node → Option Flow_Graph
  | 0, g, t => if t = Flow_Nodes_Outbound tp.My_ID then some g else none
  | n + 1, g, t =>
    if t = Flow_Nodes_Outbound tp.My_ID then some g
    else do
      let e ← g.previous_edge t
      let g ← augment_edge g e
      augment n g e.start

/-- The loop over `path_index`, with `k` rounds left: how many paths it finds.
`none` is the `Alarm(EXIT)` for a negative cycle, or a crash. -/
def find_paths (dest_id : ℕ) : ℕ → Flow_Graph → Option (ℕ × Flow_Graph)
  | 0, g => some (0, g)
  | k + 1, g =>
    let g := relax_rounds tp ls use_base_cost require_reverse (tp.Num_Nodes * 2 + 1)
      (init_graph tp g)
    if g.progress then none
    else if dest_id ∉ tp.nodes then none
    else if g.distance (Flow_Nodes_Inbound dest_id) = USHRT_MAX then some (0, g)
    else do
      let g ← augment tp (tp.Num_Nodes * 2) g (Flow_Nodes_Inbound dest_id)
      let (found, g) ← find_paths dest_id k g
      some (found + 1, g)

/-- The mask over a bag of edges; the bit of edge `index` is bit `index`. -/
def bag_mask (bag : List Flow_Edge) : ℕ :=
  bag.foldl (fun mask e => if e.1.edge ≠ none then mask ||| 2 ^ e.index else mask) 0

def MultiPath_Compute (dest_id k : ℕ) : Option (ℕ × ℕ) :=
  if dest_id = tp.My_ID then some (k, 0)
  else do
    let (found, g) ← find_paths tp ls use_base_cost require_reverse dest_id k
      { flow := fun e => if e.residual then 1 else 0
        distance := fun _ => USHRT_MAX
        previous_edge := fun _ => none
        progress := false
        bag_of_edges := [] }
    some (found, bag_mask g.bag_of_edges)

end Compute

/-! ## 4. The network -/

/-- `(s, d)` is a configured edge, in this direction. -/
def Topology.Linked (tp : Topology) (s d : ℕ) : Prop :=
  (s, d) ∈ tp.Sorted_Edges ∨ (tp.Directed_Edges = false ∧ (d, s) ∈ tp.Sorted_Edges)

instance (tp : Topology) (s d : ℕ) : Decidable (tp.Linked s d) :=
  inferInstanceAs (Decidable ((s, d) ∈ tp.Sorted_Edges ∨
    (tp.Directed_Edges = false ∧ (d, s) ∈ tp.Sorted_Edges)))

/-- The key under which the edge from `s` to `d` is stored. -/
def Topology.key (tp : Topology) (s d : ℕ) : ℕ × ℕ :=
  if tp.Directed_Edges = false ∧ d < s then (d, s) else (s, d)

def Topology.edge_index (tp : Topology) (s d : ℕ) : ℕ := tp.Sorted_Edges.idxOf (tp.key s d)

section Pairs

variable {tp : Topology} {s d i : ℕ} {p : Flow_Pair}

@[simp] theorem node_pair_inj {v w : ℕ} : node_pair v = node_pair w ↔ v = w := by
  simp [node_pair, Flow_Nodes_Inbound, Flow_Nodes_Outbound]

@[simp] theorem edge_pair_inj {s d i s' d' i' : ℕ} :
    edge_pair s d i = edge_pair s' d' i' ↔ s = s' ∧ d = d' ∧ i = i' := by
  simp only [edge_pair, Flow_Pair.mk.injEq, Flow_Nodes_Outbound, Flow_Nodes_Inbound,
    Flow_Node.mk.injEq, some.injEq, Prod.mk.injEq, true_and]
  constructor
  · rintro ⟨hs, hd, -, hi⟩
    exact ⟨hs, hd, hi⟩
  · rintro ⟨hs, hd, hi⟩
    exact ⟨hs, hd, ⟨hs, hd⟩, hi⟩

@[simp] theorem node_pair_ne_edge_pair {v s d i : ℕ} : node_pair v ≠ edge_pair s d i := by
  simp [node_pair, edge_pair]

@[simp] theorem edge_pair_ne_node_pair {v s d i : ℕ} : edge_pair s d i ≠ node_pair v := by
  simp [node_pair, edge_pair]

theorem Topology.edges_nodup (tp : Topology) : tp.Sorted_Edges.Nodup := by
  apply tp.edges_sorted.imp
  rintro l r h rfl
  obtain h | h := h
  · exact lt_irrefl _ h
  · exact lt_irrefl _ h.2

theorem Topology.Linked.ends (h : tp.Linked s d) : s ∈ tp.nodes ∧ d ∈ tp.nodes ∧ s ≠ d := by
  obtain h | ⟨-, h⟩ := h
  · exact tp.ends _ h
  · obtain ⟨hd, hs, hne⟩ := tp.ends _ h
    exact ⟨hs, hd, hne.symm⟩

theorem Topology.mem_zipIdx (tp : Topology) (key : ℕ × ℕ) (i : ℕ) :
    (key, i) ∈ tp.Sorted_Edges.zipIdx ↔ key ∈ tp.Sorted_Edges ∧ i = tp.Sorted_Edges.idxOf key := by
  rw [mk_mem_zipIdx_iff_getElem?]
  constructor
  · intro h
    obtain ⟨hlt, rfl⟩ := List.getElem?_eq_some_iff.mp h
    exact ⟨getElem_mem hlt, (tp.edges_nodup.idxOf_getElem i hlt).symm⟩
  · rintro ⟨hmem, rfl⟩
    rw [List.getElem?_eq_some_iff]
    exact ⟨idxOf_lt_length_of_mem hmem, getElem_idxOf _⟩

theorem Topology.key_of_mem (h : (s, d) ∈ tp.Sorted_Edges) : tp.key s d = (s, d) := by
  unfold Topology.key
  rw [if_neg]
  rintro ⟨hdir, hlt⟩
  exact absurd (tp.undirected hdir _ h) (by dsimp only; omega)

theorem Topology.key_of_swap_mem (hdir : tp.Directed_Edges = false)
    (h : (d, s) ∈ tp.Sorted_Edges) : tp.key s d = (d, s) := by
  unfold Topology.key
  rw [if_pos ⟨hdir, tp.undirected hdir _ h⟩]

theorem mem_flow_pairs : p ∈ flow_pairs tp ↔
    (∃ v ∈ tp.nodes, p = node_pair v) ∨
    ∃ s d, tp.Linked s d ∧ p = edge_pair s d (tp.edge_index s d) := by
  rw [flow_pairs, mem_append, List.mem_map, mem_flatMap]
  apply or_congr
  · simp only [eq_comm]
  constructor
  · rintro ⟨⟨⟨s, d⟩, i⟩, hmem, hp⟩
    obtain ⟨hkey, rfl⟩ := (tp.mem_zipIdx _ _).mp hmem
    obtain rfl | hp := mem_cons.mp hp
    · refine ⟨s, d, .inl hkey, ?_⟩
      rw [Topology.edge_index, Topology.key_of_mem hkey]
    · cases hdir : tp.Directed_Edges with
      | true => simp [hdir] at hp
      | false =>
        rw [hdir, if_neg (by simp), mem_singleton] at hp
        refine ⟨d, s, .inr ⟨hdir, hkey⟩, ?_⟩
        rw [hp, Topology.edge_index, Topology.key_of_swap_mem hdir hkey]
  · rintro ⟨s, d, hkey | ⟨hdir, hkey⟩, rfl⟩
    · refine ⟨((s, d), _), (tp.mem_zipIdx _ _).mpr ⟨hkey, rfl⟩, ?_⟩
      rw [Topology.edge_index, Topology.key_of_mem hkey]
      exact mem_cons_self
    · refine ⟨((d, s), _), (tp.mem_zipIdx _ _).mpr ⟨hkey, rfl⟩, ?_⟩
      rw [Topology.edge_index, Topology.key_of_swap_mem hdir hkey, hdir]
      simp

theorem mem_flow_edges {e : Flow_Edge} : e ∈ flow_edges tp ↔ e.1 ∈ flow_pairs tp := by
  obtain ⟨p, b⟩ := e
  cases b <;> simp [flow_edges]

end Pairs

def pair_cost (ls : Link_States) (p : Flow_Pair) : ℤ :=
  match p.edge with
  | none => 0
  | some (s, d) => |(ls.edge s d).cost|

def pair_up (ls : Link_States) (p : Flow_Pair) : Bool :=
  match p.edge with
  | none => true
  | some (s, d) => (ls.edge s d).cost ≠ -1

def network (tp : Topology) (ls : Link_States) : UnitNet Flow_Node Flow_Pair :=
  { src := Flow_Pair.a
    dst := Flow_Pair.b
    cost := pair_cost ls
    live := (flow_pairs tp).toFinset.filter fun p => pair_up ls p }

/-- No configured edge has the cost whose absolute value is no `int16`. -/
def Costs_Fit (tp : Topology) (ls : Link_States) : Prop :=
  ∀ s d, tp.Linked s d → (ls.edge s d).cost ≠ -2 ^ 15

section Model

variable {tp : Topology} {ls : Link_States} {F : Finset Flow_Pair} {p : Flow_Pair} {g : Flow_Graph}

theorem mem_live : p ∈ (network tp ls).live ↔ p ∈ flow_pairs tp ∧ pair_up ls p := by
  simp [network]

theorem int16_eq {x : ℤ} (h : -2 ^ 15 ≤ x ∧ x < 2 ^ 15) : int16 x = x := by
  apply Int.bmod_eq_of_le <;> omega

theorem int16u_eq {x : ℤ} (h : 0 ≤ x ∧ x < 2 ^ 16) : int16u x = x :=
  Int.emod_eq_of_lt h.1 h.2

theorem flow_edge_cost_eq (hfit : Costs_Fit tp ls) (e : Flow_Edge) (he : e.1 ∈ flow_pairs tp) :
    flow_edge_cost ls false false e =
      if pair_up ls e.1 then some (if e.2 then -pair_cost ls e.1 else pair_cost ls e.1)
      else none := by
  obtain ⟨p, b⟩ := e
  obtain ⟨v, -, rfl⟩ | ⟨s, d, hlink, rfl⟩ := mem_flow_pairs.mp he
  · cases b <;> simp [flow_edge_cost, pair_up, pair_cost, node_pair, Flow_Edge.residual, int16]
  · have hrange := ls.cost_range s d
    have hne := hfit s d hlink
    have habs : |(ls.edge s d).cost| < 2 ^ 15 := by
      rw [abs_lt]
      omega
    have hnn := abs_nonneg (ls.edge s d).cost
    have hpos : int16 |(ls.edge s d).cost| = |(ls.edge s d).cost| := int16_eq (by omega)
    have hneg : int16 (-|(ls.edge s d).cost|) = -|(ls.edge s d).cost| := int16_eq (by omega)
    by_cases hup : (ls.edge s d).cost = -1
    · simp [flow_edge_cost, pair_up, edge_pair, link_cost, hup]
    · cases b <;> simp [flow_edge_cost, pair_up, pair_cost, edge_pair, link_cost, hup,
        Flow_Edge.residual, hpos, hneg]

structure Flows (g : Flow_Graph) (F : Finset Flow_Pair) : Prop where
  flow : ∀ e : Flow_Edge, g.flow e < 1 ↔ (e.2 = true ↔ e.1 ∈ F)
  bag : ∀ e : Flow_Edge, e ∈ g.bag_of_edges ↔ e.2 = false ∧ e.1 ∈ F
  nodup : g.bag_of_edges.Nodup

def Flow_Graph.labels (g : Flow_Graph) : Labels Flow_Node Flow_Edge :=
  { dist := g.distance, pred := g.previous_edge, progress := g.progress }

theorem weight_eq (hfit : Costs_Fit tp ls) (hF : F ⊆ (network tp ls).live) (hg : Flows g F)
    (e : Flow_Edge) (he : e.1 ∈ flow_pairs tp) :
    (network tp ls).weight F e =
      if g.flow e < 1 then flow_edge_cost ls false false e else none := by
  rw [flow_edge_cost_eq hfit e he, UnitNet.weight]
  obtain ⟨p, b⟩ := e
  have hflow := hg.flow (p, b)
  by_cases hp : p ∈ F
  · have hup := (mem_live.mp (hF hp)).2
    cases b <;> simp [hflow, hp, hup, network]
  · have hlive : p ∈ (network tp ls).live ↔ pair_up ls p = true := by
      rw [mem_live, and_iff_right he]
    cases b with
    | true => simp [hflow, hp]
    | false =>
      by_cases hup : pair_up ls p = true
      · have hcost : (network tp ls).cost p = pair_cost ls p := rfl
        simp [hflow, hp, hlive, hup, hcost]
      · simp [hflow, hp, hlive, hup]

/-! ## 5. One round: the distances -/

abbrev first_distance (tp : Topology) : Flow_Node → ℤ :=
  UnitNet.unreached (Flow_Nodes_Outbound tp.My_ID) USHRT_MAX

variable {π : Flow_Node → ℤ}

/-- An edge of the source is relaxed as the library relaxes a residual arc: the
new distance lies between the potential and 65535, so it is stored as it is. -/
theorem relax_edge_labels (hfit : Costs_Fit tp ls) (hF : F ⊆ (network tp ls).live)
    (hπ : (network tp ls).Optimal F π) (hnn : ∀ v, 0 ≤ π v) (hg : Flows g F)
    (hs : ((network tp ls).residual F).Sound (first_distance tp) π g.labels)
    (e : Flow_Edge) (he : e.1 ∈ flow_pairs tp) :
    (relax_edge ls false false g e).labels = ((network tp ls).residual F).relax g.labels e ∧
      Flows (relax_edge ls false false g e) F := by
  have hw := weight_eq hfit hF hg e he
  have hfeas := (UnitNet.feasible_residual hF).mpr hπ
  unfold relax_edge Weighted.relax
  rw [show ((network tp ls).residual F).weight e = _ from hw]
  cases hcost : flow_edge_cost ls false false e with
  | none => exact ⟨by simp, hg⟩
  | some c =>
    by_cases hflow : g.flow e < 1
    · rw [hcost, if_pos hflow] at hw
      by_cases hlt : g.distance e.start + c < g.distance e.end_
      · have hrange : 0 ≤ g.distance e.start + c ∧ g.distance e.start + c < 2 ^ 16 := by
          have hstep : π e.end_ ≤ π e.start + c := hfeas e c hw
          have hlow : π e.start ≤ g.distance e.start := hs.low e.start
          have hhigh : g.distance e.end_ ≤ first_distance tp e.end_ := hs.high e.end_
          have hend := hnn e.end_
          have htop : first_distance tp e.end_ ≤ 65535 := by
            unfold first_distance UnitNet.unreached USHRT_MAX
            split <;> simp
          omega
        have hlt' : g.labels.dist (((network tp ls).residual F).tail e) + c <
            g.labels.dist (((network tp ls).residual F).head e) := hlt
        refine ⟨?_, ?_⟩
        · simp only [hflow, true_and, gt_iff_lt, hlt, if_true, hlt', int16u_eq hrange]
          rfl
        · simp only [hflow, true_and, gt_iff_lt, hlt, if_true]
          exact ⟨hg.flow, hg.bag, hg.nodup⟩
      · have hlt' : ¬ g.labels.dist (((network tp ls).residual F).tail e) + c <
            g.labels.dist (((network tp ls).residual F).head e) := hlt
        refine ⟨?_, ?_⟩
        · simp [hflow, hlt, hlt']
        · simpa [hflow, hlt] using hg
    · simpa [hflow] using hg

theorem relax_edges_labels (hfit : Costs_Fit tp ls) (hF : F ⊆ (network tp ls).live)
    (hπ : (network tp ls).Optimal F π) (hnn : ∀ v, 0 ≤ π v) (hg : Flows g F)
    (hs : ((network tp ls).residual F).Sound (first_distance tp) π g.labels) :
    (relax_edges tp ls false false g).labels =
        ((network tp ls).residual F).sweep (flow_edges tp) g.labels ∧
      Flows (relax_edges tp ls false false g) F := by
  have hfold : ∀ (es : List Flow_Edge) (g : Flow_Graph), (∀ e ∈ es, e.1 ∈ flow_pairs tp) →
      Flows g F → ((network tp ls).residual F).Sound (first_distance tp) π g.labels →
      (es.foldl (relax_edge ls false false) g).labels =
          es.foldl ((network tp ls).residual F).relax g.labels ∧
        Flows (es.foldl (relax_edge ls false false) g) F := by
    intro es
    induction es with
    | nil => exact fun g _ hg _ => ⟨rfl, hg⟩
    | cons e es ih =>
      intro g hes hg hs
      obtain ⟨hl, hg'⟩ := relax_edge_labels hfit hF hπ hnn hg hs e (hes e mem_cons_self)
      have hs' := hs.relax ((UnitNet.feasible_residual hF).mpr hπ) e
      rw [← hl] at hs'
      rw [foldl_cons, foldl_cons, ← hl]
      exact ih _ (fun e' he' => hes e' (mem_cons_of_mem _ he')) hg' hs'
  refine hfold (flow_edges tp) _ (fun e he => mem_flow_edges.mp he) ?_ ?_
  · exact ⟨hg.flow, hg.bag, hg.nodup⟩
  · exact hs.progress false

theorem relax_rounds_labels (hfit : Costs_Fit tp ls) (hF : F ⊆ (network tp ls).live)
    (hπ : (network tp ls).Optimal F π) (hnn : ∀ v, 0 ≤ π v) (n : ℕ) (hg : Flows g F)
    (hs : ((network tp ls).residual F).Sound (first_distance tp) π g.labels) :
    (relax_rounds tp ls false false n g).labels =
        ((network tp ls).residual F).sweeps (flow_edges tp) n g.labels ∧
      Flows (relax_rounds tp ls false false n g) F := by
  induction n generalizing g with
  | zero => exact ⟨rfl, hg⟩
  | succ n ih =>
    obtain ⟨hl, hg'⟩ := relax_edges_labels hfit hF hπ hnn hg hs
    have hs' := hs.sweep ((UnitNet.feasible_residual hF).mpr hπ) (flow_edges tp)
    rw [← hl] at hs'
    have hprog : (relax_edges tp ls false false g).progress =
        (((network tp ls).residual F).sweep (flow_edges tp) g.labels).progress := by
      rw [← hl]
      rfl
    rw [relax_rounds, Weighted.sweeps, ← hprog, ← hl]
    by_cases hp : (relax_edges tp ls false false g).progress = true
    · rw [if_pos hp, if_pos hp]
      exact ih hg' hs'
    · rw [if_neg hp, if_neg hp]
      exact ⟨rfl, hg'⟩

def flow_nodes (tp : Topology) : Finset Flow_Node :=
  (tp.nodes.map Flow_Nodes_Inbound ++ tp.nodes.map Flow_Nodes_Outbound).toFinset

theorem card_flow_nodes_le (tp : Topology) : (flow_nodes tp).card ≤ tp.Num_Nodes * 2 := by
  refine (toFinset_card_le _).trans ?_
  rw [length_append, length_map, length_map, Topology.Num_Nodes]
  omega

theorem mem_flow_nodes {v : Flow_Node} : v ∈ flow_nodes tp ↔ v.id ∈ tp.nodes := by
  obtain ⟨b, i⟩ := v
  cases b <;> simp [flow_nodes, Flow_Nodes_Inbound, Flow_Nodes_Outbound]

theorem ends_mem_flow_nodes (hp : p ∈ flow_pairs tp) :
    p.a ∈ flow_nodes tp ∧ p.b ∈ flow_nodes tp := by
  rw [mem_flow_nodes, mem_flow_nodes]
  obtain ⟨v, hv, rfl⟩ | ⟨s, d, hlink, rfl⟩ := mem_flow_pairs.mp hp
  · exact ⟨hv, hv⟩
  · exact ⟨hlink.ends.1, hlink.ends.2.1⟩

theorem within_flow_nodes (hF : F ⊆ (network tp ls).live) :
    ((network tp ls).residual F).Within (flow_nodes tp) := by
  rintro ⟨p, b⟩ c hc
  obtain ⟨hlive, -, -⟩ := UnitNet.weight_eq_some hF hc
  obtain ⟨ha, hb⟩ := ends_mem_flow_nodes (mem_live.mp hlive).1
  cases b
  · exact ⟨ha, hb⟩
  · exact ⟨hb, ha⟩

structure Carrying (tp : Topology) (ls : Link_States) (dest_id : ℕ) (m : ℕ) (F : Finset Flow_Pair)
    (π : Flow_Node → ℤ) : Prop where
  live : F ⊆ (network tp ls).live
  carries : (network tp ls).Carries F m (Flow_Nodes_Outbound tp.My_ID) (Flow_Nodes_Inbound dest_id)
  priced : (network tp ls).Priced (Flow_Nodes_Outbound tp.My_ID) (Flow_Nodes_Inbound dest_id) F π
  finite : π (Flow_Nodes_Inbound dest_id) < USHRT_MAX

variable {dest_id m : ℕ}

theorem sound_rounds (hfit : Costs_Fit tp ls) (hc : Carrying tp ls dest_id m F π) (hg : Flows g F) :
    let g' := relax_rounds tp ls false false (tp.Num_Nodes * 2 + 1) (init_graph tp g)
    g'.progress = false ∧ Flows g' F ∧
      ((network tp ls).residual F).Sound (first_distance tp) π g'.labels ∧
      ((network tp ls).residual F).Settled g'.labels := by
  have hfeas := (UnitNet.feasible_residual hc.live).mpr hc.priced.optimal
  have hlabels : (init_graph tp g).labels =
      { dist := first_distance tp, pred := fun _ => none, progress := g.progress } := rfl
  have hs : ((network tp ls).residual F).Sound (first_distance tp) π (init_graph tp g).labels := by
    rw [hlabels]
    exact Weighted.sound_start _ (hc.priced.le_unreached hc.finite.le)
  have hcov : ((network tp ls).residual F).Covers (first_distance tp) 0
      (init_graph tp g).labels := by
    rw [hlabels]
    exact Weighted.covers_start _
  have hg' : Flows (init_graph tp g) F := ⟨hg.flow, hg.bag, hg.nodup⟩
  obtain ⟨hl, hflows⟩ := relax_rounds_labels hfit hc.live hc.priced.optimal hc.priced.nonneg
    (tp.Num_Nodes * 2 + 1) hg' hs
  have hes : ∀ e c, ((network tp ls).residual F).weight e = some c → e ∈ flow_edges tp := by
    intro e c hw
    obtain ⟨hlive, -, -⟩ := UnitNet.weight_eq_some hc.live hw
    exact mem_flow_edges.mpr (mem_live.mp hlive).1
  have hcard : (flow_nodes tp).card ≤ 0 + (tp.Num_Nodes * 2 + 1) := by
    have := card_flow_nodes_le tp
    omega
  obtain ⟨hquiet, hsound, hset⟩ :=
    Weighted.sweeps_settled (within_flow_nodes hc.live) hes hfeas hs hcov (by omega) hcard
  rw [← hl] at hquiet hsound hset
  exact ⟨hquiet, hflows, hsound, hset⟩

/-! ## 6. One round: the augmentation -/

theorem flow_update (hg : Flows g F) (e e' : Flow_Edge) :
    update (update g.flow e 1) e.twin 0 e' < 1 ↔
      (e'.2 = true ↔ e'.1 ∈ UnitNet.flip F e) := by
  obtain ⟨p, b⟩ := e'
  obtain ⟨q, c⟩ := e
  rw [UnitNet.mem_flip]
  by_cases hpq : p = q
  · subst hpq
    by_cases hbc : b = c
    · subst hbc
      have htwin : ((p, b) : Flow_Edge) ≠ Flow_Edge.twin (p, b) := by
        cases b <;> simp [Flow_Edge.twin]
      rw [update_of_ne htwin, update_self]
      cases b <;> simp
    · obtain rfl : b = !c := by
        revert hbc
        cases b <;> cases c <;> simp
      rw [show ((p, !c) : Flow_Edge) = Flow_Edge.twin (p, c) from rfl, update_self]
      cases c <;> simp [Flow_Edge.twin]
  · have hne : ∀ c', ((p, b) : Flow_Edge) ≠ (q, c') := by
      intro c' h
      exact hpq (Prod.mk.inj h).1
    rw [Flow_Edge.twin, update_of_ne (hne _), update_of_ne (hne _), if_neg hpq]
    exact hg.flow (p, b)

theorem augment_edge_eq {e : Flow_Edge} (hg : Flows g F) (hfree : e.2 = true ↔ e.1 ∈ F) :
    ∃ g', augment_edge g e = some g' ∧ Flows g' (UnitNet.flip F e) ∧
      g'.previous_edge = g.previous_edge := by
  have hflow := flow_update hg e
  unfold augment_edge
  obtain ⟨p, b⟩ := e
  cases b with
  | true =>
    have hp : p ∈ F := by simpa using hfree
    have hmem : Flow_Edge.twin (p, true) ∈ g.bag_of_edges := (hg.bag _).mpr ⟨rfl, hp⟩
    rw [if_pos (by rfl), if_pos hmem]
    refine ⟨_, rfl, ⟨hflow, ?_, hg.nodup.erase _⟩, rfl⟩
    rintro ⟨q, c⟩
    rw [hg.nodup.mem_erase_iff, hg.bag, UnitNet.mem_flip]
    by_cases hqp : q = p
    · subst hqp
      cases c <;> simp [Flow_Edge.twin]
    · simp [Flow_Edge.twin, hqp]
  | false =>
    have hp : p ∉ F := by simpa using hfree
    have hmem : ((p, false) : Flow_Edge) ∉ g.bag_of_edges := fun h => hp ((hg.bag _).mp h).2
    rw [if_neg (by simp [Flow_Edge.residual])]
    refine ⟨_, rfl, ⟨hflow, ?_, nodup_cons.mpr ⟨hmem, hg.nodup⟩⟩, rfl⟩
    rintro ⟨q, c⟩
    rw [mem_cons, hg.bag, UnitNet.mem_flip]
    by_cases hqp : q = p
    · subst hqp
      cases c <;> simp [hp]
    · simp [hqp]

/-- The loop follows the trail of `t` and flips what it passes. The induction is
on the trail; the predecessors do not change on the way. -/
theorem augment_eq {L : Labels Flow_Node Flow_Edge} {t : Flow_Node} {l : List Flow_Edge} {n : ℕ}
    {F' : Finset Flow_Pair} (htrail : ((network tp ls).residual F).Trail L t l)
    (hback : (network tp ls).Back (Flow_Nodes_Outbound tp.My_ID) t l)
    (hstart : L.pred (Flow_Nodes_Outbound tp.My_ID) = none)
    (hready : UnitNet.Ready F' l) (hg : Flows g F')
    (hpred : g.previous_edge = L.pred) (hlen : l.length ≤ n) :
    ∃ g', augment tp n g t = some g' ∧ Flows g' (l.foldl UnitNet.flip F') := by
  induction htrail generalizing g F' n with
  | @root t h =>
    cases hback
    exact ⟨g, by cases n <;> simp [augment], hg⟩
  | @step t e l h _ ih =>
    have hne : t ≠ Flow_Nodes_Outbound tp.My_ID := by
      rintro rfl
      rw [h] at hstart
      exact absurd hstart (by simp)
    have htail : (network tp ls).Back (Flow_Nodes_Outbound tp.My_ID) e.start l := by
      cases hback
      assumption
    obtain ⟨g1, hstep, hg1, hpred1⟩ := augment_edge_eq hg (hready.free e mem_cons_self)
    cases n with
    | zero => simp at hlen
    | succ n =>
      obtain ⟨g', haug, hg'⟩ := ih htail hready.tail hg1 (hpred1.trans hpred)
        (Nat.le_of_succ_le_succ hlen)
      refine ⟨g', ?_, hg'⟩
      rw [augment, if_neg hne, hpred, h]
      simp only [bind_eq_bind, bind_some, hstep]
      exact haug

/-! ## 7. All rounds -/

theorem pair_cost_nonneg (ls : Link_States) (p : Flow_Pair) : 0 ≤ pair_cost ls p := by
  unfold pair_cost
  split
  · exact le_refl 0
  · exact abs_nonneg _

theorem carrying_empty (tp : Topology) (ls : Link_States) (dest_id : ℕ) :
    Carrying tp ls dest_id 0 ∅ fun _ => 0 where
  live := by simp
  carries := by exact_mod_cast UnitNet.Carries.empty _ _
  priced := by
    refine ⟨?_, rfl, fun _ => le_refl 0, fun _ => le_refl 0⟩
    intro p _
    have hcost : 0 ≤ (network tp ls).cost p := pair_cost_nonneg ls p
    constructor
    · intro _
      simpa using hcost
    · intro hp
      simp at hp
  finite := by decide

theorem Carrying.way (hdest : dest_id ∈ tp.nodes) (hc : Carrying tp ls dest_id m F π)
    (hs : ((network tp ls).residual F).Sound (first_distance tp) π g.labels)
    (ht : g.distance (Flow_Nodes_Inbound dest_id) < USHRT_MAX) :
    ∃ l, ((network tp ls).residual F).Trail g.labels (Flow_Nodes_Inbound dest_id) l ∧
      (network tp ls).Back (Flow_Nodes_Outbound tp.My_ID) (Flow_Nodes_Inbound dest_id) l ∧
      UnitNet.Ready F l ∧ l.length ≤ tp.Num_Nodes * 2 := by
  obtain ⟨l, htrail⟩ := hs.trail (Flow_Nodes_Inbound dest_id)
  have hgap : g.labels.dist (Flow_Nodes_Inbound dest_id) - π (Flow_Nodes_Inbound dest_id) <
      USHRT_MAX - π (Flow_Nodes_Inbound dest_id) := Int.sub_lt_sub_right ht _
  have hlen : l.length < (flow_nodes tp).card :=
    htrail.length_lt (within_flow_nodes hc.live) hs (mem_flow_nodes.mpr hdest)
  have hcard := card_flow_nodes_le tp
  exact ⟨l, htrail, hc.priced.trail_back hs hc.live htrail hgap,
    UnitNet.Ready.of_trail hc.live hs htrail, by omega⟩

theorem Carrying.round (hdest : dest_id ∈ tp.nodes) (hc : Carrying tp ls dest_id m F π)
    (hg : Flows g F) (hs : ((network tp ls).residual F).Sound (first_distance tp) π g.labels)
    (hset : ((network tp ls).residual F).Settled g.labels)
    (ht : g.distance (Flow_Nodes_Inbound dest_id) < USHRT_MAX) :
    ∃ g' F' π', augment tp (tp.Num_Nodes * 2) g (Flow_Nodes_Inbound dest_id) = some g' ∧
      Flows g' F' ∧ Carrying tp ls dest_id (m + 1) F' π' := by
  obtain ⟨l, htrail, hback, hready, hlen⟩ := hc.way hdest hs ht
  obtain ⟨g', haug, hg'⟩ := augment_eq (n := tp.Num_Nodes * 2) htrail hback
    (hc.priced.pred_start hs).2 hready hg rfl hlen
  refine ⟨g', _, _, haug, hg', ?_, ?_, hc.priced.augment hs hc.live hset htrail, ?_⟩
  · apply UnitNet.flips_subset hc.live
    intro e he
    obtain ⟨c, hw, -⟩ := hs.link _ e (htrail.heads hs.head he)
    exact (UnitNet.weight_eq_some hc.live hw).1
  · rw [Nat.cast_add, Nat.cast_one]
    exact hc.carries.flips hready hback
  · rw [UnitNet.repriced_top]
    exact ht

theorem find_paths_spec (hfit : Costs_Fit tp ls) (hdest : dest_id ∈ tp.nodes) (k : ℕ)
    (hc : Carrying tp ls dest_id m F π) (hg : Flows g F) :
    ∃ found g' F' π', find_paths tp ls false false dest_id k g = some (found, g') ∧
      found ≤ k ∧ Flows g' F' ∧ Carrying tp ls dest_id (m + found) F' π' ∧
      (found < k → ∃ ρ, (network tp ls).Optimal F' ρ ∧
        ρ (Flow_Nodes_Inbound dest_id) - ρ (Flow_Nodes_Outbound tp.My_ID) = USHRT_MAX) := by
  induction k generalizing m F π g with
  | zero => exact ⟨0, g, F, π, rfl, le_refl 0, hg, hc, fun h => absurd h (lt_irrefl 0)⟩
  | succ k ih =>
    obtain ⟨hquiet, hg1, hs, hset⟩ := sound_rounds hfit hc hg
    rw [find_paths]
    generalize relax_rounds tp ls false false (tp.Num_Nodes * 2 + 1) (init_graph tp g) = g1 at *
    rw [if_neg (by simp [hquiet]), if_neg (not_not.mpr hdest)]
    by_cases hinf : g1.distance (Flow_Nodes_Inbound dest_id) = USHRT_MAX
    · rw [if_pos hinf]
      refine ⟨0, g1, F, π, rfl, Nat.zero_le _, hg1, hc, ?_⟩
      intro _
      refine ⟨g1.distance, (UnitNet.feasible_residual hc.live).mp hset, ?_⟩
      have hstart : g1.distance (Flow_Nodes_Outbound tp.My_ID) = 0 := (hc.priced.pred_start hs).1
      rw [hinf, hstart, sub_zero]
    · rw [if_neg hinf]
      have hhigh : g1.distance (Flow_Nodes_Inbound dest_id) ≤ USHRT_MAX :=
        hs.high (Flow_Nodes_Inbound dest_id)
      obtain ⟨g2, F2, π2, haug, hg2, hc2⟩ :=
        hc.round hdest hg1 hs hset (lt_of_le_of_ne hhigh hinf)
      obtain ⟨found, g', F', π', hfind, hle, hg', hc', hstop⟩ := ih hc2 hg2
      refine ⟨found + 1, g', F', π', ?_, by omega, hg', ?_, ?_⟩
      · rw [haug]
        simp only [bind_eq_bind, bind_some, hfind]
      · rwa [Nat.add_right_comm, add_assoc] at hc'
      · intro hlt
        exact hstop (by omega)

end Model

end Spines.MultiPath
