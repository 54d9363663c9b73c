/-
`daemon/dissem_graphs.c`: which of its four dissemination graphs a destination uses.

With `PROBLEM_ROUTE` an edge has a problem when its cost is negative. Messages to a
destination go over two disjoint paths, and over a graph with more redundancy when the
source, the destination or both have `DG_PROB_COUNT_THRESH` problems; a problem in the
middle of the network that lies on that graph counts like a problem at the other end.
`DG_Process_Edge_Update` keeps the choice up to date edge by edge, and `choose` below says
what it has to be, from the problems alone.

The loops over all destinations change one destination a round, by the functions of
section 3; they are maps here. The graphs come from `DG_Compute_Graphs`, which gives all
configured nodes graphs when edges are directed, and none to anyone otherwise; what is on
the graphs is left open.
-/
import Spines.Lib.Run

set_option autoImplicit false

namespace Spines.Routing.DissemGraphs

open Spines.Lib Function List
open Option hiding or_self

/-! ## 1. Edges and graphs -/

def MAX_NODES : ℕ := 50
def DG_PROB_COUNT_THRESH : ℤ := 2

/-- `DG_NONE_GRAPH` and the four graphs. -/
inductive Graph_Type
  | none
  | k2
  | src
  | dst
  | src_dst
  deriving DecidableEq, Repr

structure Edge_Key where
  src_id : ℕ
  dst_id : ℕ
  deriving DecidableEq, Repr

/-- `Edge`: it has the addresses of its ends. -/
structure Edge where
  src_id : ℕ
  dst_id : ℕ
  cost : ℤ
  index : ℕ

structure Conf where
  my_id : ℕ
  /-- `Route_Weight = PROBLEM_ROUTE`. -/
  problem_route : Bool
  directed_edges : Bool
  /-- The keys of `Node_Lookup_ID_to_Addr`, and what it says. -/
  nodes : List ℕ
  id_to_addr : ℕ → ℕ
  /-- `Node_Lookup_Addr_to_ID`. -/
  addr_to_id : ℕ → Option ℕ
  sorted_edges : List (Edge_Key × ℕ)
  bitmasks : ℕ → Graph_Type → List UInt8

def DG_Edge_In_Graph (edge_index : ℕ) (graph_mask : List UInt8) : Bool :=
  graph_mask.getD (edge_index / 8) 0 &&& ((0x80 : UInt8) >>> UInt8.ofNat (edge_index % 8)) ≠ 0

/-- `edge_lists`: they are filled from the bitmasks. -/
def Conf.edge_list (cf : Conf) (i : ℕ) (type : Graph_Type) : List Edge_Key :=
  (cf.sorted_edges.filter fun e => DG_Edge_In_Graph e.2 (cf.bitmasks i type)).map Prod.fst

def Conf.has_graphs (cf : Conf) (i : ℕ) : Prop := cf.directed_edges = true ∧ i ∈ cf.nodes

instance (cf : Conf) (i : ℕ) : Decidable (cf.has_graphs i) := inferInstanceAs (Decidable (_ ∧ _))

structure Dg_Dst where
  current_graph_type : Graph_Type
  problem_count : ℤ
  problems : ℕ → Bool

/-- `DG_Problem_List`, `DG_Destinations`, and the two fields of `DG_Source`. -/
structure State where
  problem_list : List Edge_Key
  dsts : ℕ → Dg_Dst
  src_count : ℤ
  src_problems : ℕ → Bool

def State.init (cf : Conf) : State :=
  { problem_list := []
    dsts := fun i => ⟨if cf.has_graphs i then .k2 else .none, 0, fun _ => false⟩
    src_count := 0
    src_problems := fun _ => false }

/-! ## 2. Problems on a graph -/

/-- Problems at the source do not count on a source graph, nor those at the destination on
a destination graph. -/
def skips (type : Graph_Type) (key edge_key : Edge_Key) : Bool :=
  (type = .src ∧ key.src_id = edge_key.src_id) ∨ (type = .dst ∧ key.dst_id = edge_key.dst_id)

def DG_Problem_On_Graph (problem_list edge_list : List Edge_Key) (edge_key : Edge_Key)
    (type : Graph_Type) : Bool :=
  edge_list.any fun key => !skips type key edge_key && decide (key ∈ problem_list)

/-! ## 3. One destination -/

/-- The new problem lies on the graph in use, and is not at the end the graph is for. -/
def widen (cf : Conf) (edge_key : Edge_Key) (edge_index i : ℕ) (type : Graph_Type) : Graph_Type :=
  if ((type = .src ∧ edge_key.src_id ≠ cf.my_id) ∨ (type = .dst ∧ edge_key.dst_id ≠ i)) ∧
      DG_Edge_In_Graph edge_index (cf.bitmasks i type) then .src_dst
  else type

/-- The destination has a problem now; `mid` is whether its graph has others. -/
def dst_detected (mid : Bool) : Graph_Type → Graph_Type
  | .src => .src_dst
  | .k2 => if mid then .src_dst else .dst
  | type => type

def src_detected (mid : Bool) : Graph_Type → Graph_Type
  | .dst => .src_dst
  | .k2 => if mid then .src_dst else .src
  | type => type

def dst_resolved (src_count : ℤ) (mid : Bool) : Graph_Type → Graph_Type
  | .dst => .k2
  | .src_dst => if src_count < DG_PROB_COUNT_THRESH then .k2 else if !mid then .src else .src_dst
  | type => type

def src_resolved (dst_count : ℤ) (mid : Bool) : Graph_Type → Graph_Type
  | .src => .k2
  | .src_dst => if dst_count < DG_PROB_COUNT_THRESH then .k2 else if !mid then .dst else .src_dst
  | type => type

/-- A problem in the middle of the network may be over; `none` is the exit "No source OR
destination problem". -/
def mid_resolved (src_count dst_count : ℤ) (mid_dst mid_src : Bool) :
    Graph_Type → Option Graph_Type
  | .src_dst =>
    if src_count < DG_PROB_COUNT_THRESH ∧ dst_count < DG_PROB_COUNT_THRESH then Option.none
    else if src_count < DG_PROB_COUNT_THRESH then
      some (if !mid_dst then .dst else .src_dst)
    else if dst_count < DG_PROB_COUNT_THRESH then
      some (if !mid_src then .src else .src_dst)
    else some .src_dst
  | type => some type

/-! ## 4. An update -/

def for_each (f : ℕ → Dg_Dst → Dg_Dst) (dsts : ℕ → Dg_Dst) : ℕ → Dg_Dst :=
  fun i => if 1 ≤ i ∧ i ≤ MAX_NODES then f i (dsts i) else dsts i

def retype (f : Graph_Type → Graph_Type) (d : Dg_Dst) : Dg_Dst :=
  if d.current_graph_type = .none then d else { d with current_graph_type := f d.current_graph_type }

/-- The other problems on the graph for destination problems at `i`. -/
def Conf.mid_dst (cf : Conf) (problem_list : List Edge_Key) (i : ℕ) : Bool :=
  DG_Problem_On_Graph problem_list (cf.edge_list i .dst) ⟨cf.my_id, i⟩ .dst

def Conf.mid_src (cf : Conf) (problem_list : List Edge_Key) (i : ℕ) : Bool :=
  DG_Problem_On_Graph problem_list (cf.edge_list i .src) ⟨cf.my_id, i⟩ .src

def new_dst_problem (cf : Conf) (problem_list : List Edge_Key) (edge_key : Edge_Key)
    (d : Dg_Dst) : Dg_Dst :=
  if d.current_graph_type ≠ .none ∧ d.problems edge_key.src_id = false then
    { current_graph_type :=
        if d.problem_count + 1 = DG_PROB_COUNT_THRESH then
          dst_detected (DG_Problem_On_Graph problem_list (cf.edge_list edge_key.dst_id .dst)
            edge_key .dst) d.current_graph_type
        else d.current_graph_type
      problem_count := d.problem_count + 1
      problems := Function.update d.problems edge_key.src_id true }
  else d

def new_src_problem (cf : Conf) (edge_key : Edge_Key) (s : State) : State :=
  if edge_key.src_id = cf.my_id ∧ s.src_problems edge_key.dst_id = false then
    { s with
      src_problems := Function.update s.src_problems edge_key.dst_id true
      src_count := s.src_count + 1
      dsts :=
        if s.src_count + 1 = DG_PROB_COUNT_THRESH then
          for_each (fun i => retype (src_detected
            (DG_Problem_On_Graph s.problem_list (cf.edge_list i .src) edge_key .src))) s.dsts
        else s.dsts }
  else s

def problem_started (cf : Conf) (edge_key : Edge_Key) (edge_index : ℕ) (s : State) : State :=
  if edge_key ∈ s.problem_list then s
  else
    let problem_list := edge_key :: s.problem_list
    let dsts := for_each (fun i => retype (widen cf edge_key edge_index i)) s.dsts
    new_src_problem cf edge_key
      { s with
        problem_list := problem_list
        dsts := Function.update dsts edge_key.dst_id
          (new_dst_problem cf problem_list edge_key (dsts edge_key.dst_id)) }

def resolved_dst_problem (cf : Conf) (s : State) (edge_key : Edge_Key) (d : Dg_Dst) : Dg_Dst :=
  if d.current_graph_type ≠ .none ∧ d.problems edge_key.src_id = true then
    { current_graph_type :=
        if d.problem_count = DG_PROB_COUNT_THRESH then
          dst_resolved s.src_count (cf.mid_src s.problem_list edge_key.dst_id)
            d.current_graph_type
        else d.current_graph_type
      problem_count := d.problem_count - 1
      problems := Function.update d.problems edge_key.src_id false }
  else d

def resolved_src_problem (cf : Conf) (edge_key : Edge_Key) (s : State) : State :=
  if edge_key.src_id = cf.my_id ∧ s.src_problems edge_key.dst_id = true then
    { s with
      src_problems := Function.update s.src_problems edge_key.dst_id false
      src_count := s.src_count - 1
      dsts :=
        if s.src_count = DG_PROB_COUNT_THRESH then
          for_each (fun i d => retype (src_resolved d.problem_count
            (cf.mid_dst s.problem_list i)) d) s.dsts
        else s.dsts }
  else s

def mid_check (cf : Conf) (s : State) (i : ℕ) : Option Graph_Type :=
  mid_resolved s.src_count (s.dsts i).problem_count (cf.mid_dst s.problem_list i)
    (cf.mid_src s.problem_list i) (s.dsts i).current_graph_type

def mid_checks (cf : Conf) (s : State) : Option State :=
  if (range' 1 MAX_NODES).all fun i => (mid_check cf s i).isSome then
    some { s with
      dsts := for_each (fun i d =>
        { d with current_graph_type := (mid_check cf s i).getD d.current_graph_type }) s.dsts }
  else none

def problem_resolved (cf : Conf) (edge_key : Edge_Key) (s : State) : Option State :=
  if edge_key ∈ s.problem_list then
    let s₁ := { s with problem_list := s.problem_list.erase edge_key }
    let s₂ := { s₁ with
      dsts := Function.update s₁.dsts edge_key.dst_id
        (resolved_dst_problem cf s₁ edge_key (s₁.dsts edge_key.dst_id)) }
    mid_checks cf (resolved_src_problem cf edge_key s₂)
  else some s

def DG_Process_Edge_Update (cf : Conf) (edge : Edge) (new_cost : ℤ) (s : State) : Option State :=
  if ¬cf.problem_route then some s
  else if (new_cost = -1 ∧ edge.cost = -1) ∨ (new_cost < -1 ∧ edge.cost < -1) ∨
      (new_cost ≥ 0 ∧ edge.cost ≥ 0) then some s
  else
    match cf.addr_to_id edge.dst_id, cf.addr_to_id edge.src_id with
    | some dst_id, some src_id =>
      if new_cost < 0 then some (problem_started cf ⟨src_id, dst_id⟩ edge.index s)
      else problem_resolved cf ⟨src_id, dst_id⟩ s
    | _, _ => some s

/-! ## 5. Runs -/

/-- The graphs, and what is stored in the edges: the cost, and whether it has been -1 ever
since the edge was created. -/
structure World where
  dg : State
  cost : Edge_Key → ℤ
  fresh : Edge_Key → Bool

def World.init (cf : Conf) : World :=
  { dg := State.init cf, cost := fun _ => -1, fresh := fun _ => true }

structure Event where
  key : Edge_Key
  index : ℕ
  new_cost : ℤ

def Event.edge (cf : Conf) (w : World) (e : Event) : Edge :=
  { src_id := cf.id_to_addr e.key.src_id, dst_id := cf.id_to_addr e.key.dst_id
    cost := w.cost e.key, index := e.index }

/-- `DG_Process_Edge_Update` for the edge, and the new cost is stored. -/
def World.next (cf : Conf) (w : World) (e : Event) : Option World :=
  (DG_Process_Edge_Update cf (e.edge cf w) e.new_cost w.dg).map fun dg =>
    { dg := dg
      cost := Function.update w.cost e.key e.new_cost
      fresh := Function.update w.fresh e.key (w.fresh e.key && e.new_cost = -1) }

def Conf.edges (cf : Conf) : List (Edge_Key × ℕ) :=
  if cf.directed_edges then cf.sorted_edges
  else cf.sorted_edges ++ cf.sorted_edges.map fun e => (⟨e.1.dst_id, e.1.src_id⟩, e.2)

def Conf.keys (cf : Conf) : List Edge_Key := (cf.edges.map Prod.fst).dedup

def Step (cf : Conf) (w : World) (e : Event) (w' : World) : Prop :=
  (e.key, e.index) ∈ cf.edges ∧ w.next cf e = some w'

/-- The edges with a problem: the cost is negative, and not the one they were created with. -/
def World.problems (cf : Conf) (w : World) : List Edge_Key :=
  cf.keys.filter fun k => w.cost k < 0 ∧ w.fresh k = false

structure Conf.Valid (cf : Conf) : Prop where
  problem_route : cf.problem_route = true
  /-- `Sorted_Edges` has one entry for a key. -/
  sorted_nodup : (cf.sorted_edges.map Prod.fst).Nodup
  nodes : ∀ i ∈ cf.nodes, 1 ≤ i ∧ i ≤ MAX_NODES
  ends : ∀ e ∈ cf.sorted_edges, e.1.src_id ∈ cf.nodes ∧ e.1.dst_id ∈ cf.nodes
  lookup : ∀ i ∈ cf.nodes, cf.addr_to_id (cf.id_to_addr i) = some i

/-! ## 6. The choice -/

def pick (dst_count src_count : ℤ) (mid_dst mid_src : Bool) : Graph_Type :=
  if dst_count < DG_PROB_COUNT_THRESH ∧ src_count < DG_PROB_COUNT_THRESH then .k2
  else if src_count < DG_PROB_COUNT_THRESH then if mid_dst then .src_dst else .dst
  else if dst_count < DG_PROB_COUNT_THRESH then if mid_src then .src_dst else .src
  else .src_dst

def entering (l : List Edge_Key) (i : ℕ) : ℕ := l.countP fun k => k.dst_id = i

def Conf.leaving (cf : Conf) (l : List Edge_Key) : ℕ := l.countP fun k => k.src_id = cf.my_id

/-- The graph for destination `i` when the edges of `l` have problems: two paths when
neither count reaches the threshold; the graph of the one end whose count does, when no
problem on that graph is elsewhere; the graph for both ends otherwise. -/
def Conf.choose (cf : Conf) (l : List Edge_Key) (i : ℕ) : Graph_Type :=
  pick (entering l i) (cf.leaving l)
    ((cf.edge_list i .dst).any fun k => k ∈ l ∧ k.dst_id ≠ i)
    ((cf.edge_list i .src).any fun k => k ∈ l ∧ k.src_id ≠ cf.my_id)

/-! ## 7. One edge, one destination -/

theorem pick_ne_none (dc sc : ℤ) (md ms : Bool) : pick dc sc md ms ≠ .none := by
  unfold pick
  split_ifs <;> simp

theorem pick_widen (dc sc : ℤ) (md ms a b : Bool) :
    (if (pick dc sc md ms = .src ∧ a = true) ∨ (pick dc sc md ms = .dst ∧ b = true) then
      Graph_Type.src_dst else pick dc sc md ms) = pick dc sc (md || b) (ms || a) := by
  simp only [pick]
  by_cases hd : dc < DG_PROB_COUNT_THRESH <;> by_cases hs : sc < DG_PROB_COUNT_THRESH <;>
    cases md <;> cases ms <;> cases a <;> cases b <;> simp [hd, hs]

theorem pick_dst_detected (dc sc : ℤ) (md ms : Bool) :
    (if dc + 1 = DG_PROB_COUNT_THRESH then dst_detected md (pick dc sc md ms)
      else pick dc sc md ms) = pick (dc + 1) sc md ms := by
  simp only [pick]
  by_cases hd : dc + 1 = DG_PROB_COUNT_THRESH
  · have hlow : dc < DG_PROB_COUNT_THRESH := by omega
    by_cases hs : sc < DG_PROB_COUNT_THRESH <;> cases md <;> cases ms <;>
      simp [dst_detected, hd, hlow, hs]
  · have hside : dc + 1 < DG_PROB_COUNT_THRESH ↔ dc < DG_PROB_COUNT_THRESH := by omega
    simp only [if_neg hd, hside]

theorem pick_src_detected (dc sc : ℤ) (md ms : Bool) :
    (if sc + 1 = DG_PROB_COUNT_THRESH then src_detected ms (pick dc sc md ms)
      else pick dc sc md ms) = pick dc (sc + 1) md ms := by
  simp only [pick]
  by_cases hs : sc + 1 = DG_PROB_COUNT_THRESH
  · have hlow : sc < DG_PROB_COUNT_THRESH := by omega
    by_cases hd : dc < DG_PROB_COUNT_THRESH <;> cases md <;> cases ms <;>
      simp [src_detected, hd, hlow, hs]
  · have hside : sc + 1 < DG_PROB_COUNT_THRESH ↔ sc < DG_PROB_COUNT_THRESH := by omega
    simp only [if_neg hs, hside]

def Settling (dc sc : ℤ) (md ms : Bool) (t : Graph_Type) : Prop :=
  t = pick dc sc md ms ∨
    t = .src_dst ∧ ¬(dc < DG_PROB_COUNT_THRESH ∧ sc < DG_PROB_COUNT_THRESH)

variable {md ms : Bool} {t : Graph_Type} {dc idx sc : ℕ} {s : State} {w : World}

theorem pick_settling (dc sc : ℤ) {md' ms' : Bool} (hd : md' = true → md = true)
    (hs : ms' = true → ms = true) : Settling dc sc md' ms' (pick dc sc md ms) := by
  revert hd hs
  simp only [Settling, pick]
  by_cases hdc : dc < DG_PROB_COUNT_THRESH <;> by_cases hsc : sc < DG_PROB_COUNT_THRESH <;>
    cases md <;> cases ms <;> cases md' <;> cases ms' <;> simp [hdc, hsc]

theorem Settling.dst_resolved {dc sc : ℤ} (h : Settling dc sc md ms t) :
    Settling (dc - 1) sc md ms
      (if dc = DG_PROB_COUNT_THRESH then DissemGraphs.dst_resolved sc ms t else t) := by
  by_cases hdc : dc = DG_PROB_COUNT_THRESH
  · have hlow : dc - 1 < DG_PROB_COUNT_THRESH := by omega
    have hhigh : ¬dc < DG_PROB_COUNT_THRESH := by omega
    simp only [Settling, pick, hhigh, false_and, not_false_iff, and_true, if_false] at h
    simp only [Settling, pick, if_pos hdc, hlow, true_and]
    by_cases hsc : sc < DG_PROB_COUNT_THRESH <;> cases md <;> cases ms <;>
      simp only [hsc, if_true, if_false, Bool.false_eq_true] at h <;>
      rcases h with rfl | rfl <;> simp [DissemGraphs.dst_resolved, hsc]
  · have hside : dc - 1 < DG_PROB_COUNT_THRESH ↔ dc < DG_PROB_COUNT_THRESH := by omega
    simp only [Settling, pick, if_neg hdc, hside]
    exact h

theorem Settling.src_resolved {dc sc : ℤ} (h : Settling dc sc md ms t) :
    Settling dc (sc - 1) md ms
      (if sc = DG_PROB_COUNT_THRESH then DissemGraphs.src_resolved dc md t else t) := by
  by_cases hsc : sc = DG_PROB_COUNT_THRESH
  · have hlow : sc - 1 < DG_PROB_COUNT_THRESH := by omega
    have hhigh : ¬sc < DG_PROB_COUNT_THRESH := by omega
    simp only [Settling, pick, hhigh, and_false, not_false_iff, and_true, if_false] at h
    simp only [Settling, pick, if_pos hsc, hlow, and_true]
    by_cases hdc : dc < DG_PROB_COUNT_THRESH <;> cases md <;> cases ms <;>
      simp only [hdc, if_true, if_false, Bool.false_eq_true] at h <;>
      rcases h with rfl | rfl <;> simp [DissemGraphs.src_resolved, hdc]
  · have hside : sc - 1 < DG_PROB_COUNT_THRESH ↔ sc < DG_PROB_COUNT_THRESH := by omega
    simp only [Settling, pick, if_neg hsc, hside]
    exact h

theorem Settling.mid_resolved {dc sc : ℤ} (h : Settling dc sc md ms t) :
    DissemGraphs.mid_resolved sc dc md ms t = some (pick dc sc md ms) := by
  simp only [Settling, pick] at h
  simp only [pick]
  by_cases hdc : dc < DG_PROB_COUNT_THRESH <;> by_cases hsc : sc < DG_PROB_COUNT_THRESH <;>
    cases md <;> cases ms <;>
    simp only [hdc, hsc, and_self, and_true, and_false, not_true, not_false_iff, if_true, if_false,
      Bool.false_eq_true, or_false, or_self] at h <;>
    rcases h with rfl | rfl <;> simp [DissemGraphs.mid_resolved, hdc, hsc]

/-! ## 8. The lists of edges -/

variable {cf : Conf} {l : List Edge_Key} {k : Edge_Key}

theorem Conf.mid_dst_eq (cf : Conf) (l : List Edge_Key) (i : ℕ) :
    cf.mid_dst l i = (cf.edge_list i .dst).any fun k => k ∈ l ∧ k.dst_id ≠ i := by
  simp [Conf.mid_dst, DG_Problem_On_Graph, skips, and_comm]

theorem Conf.mid_src_eq (cf : Conf) (l : List Edge_Key) (i : ℕ) :
    cf.mid_src l i = (cf.edge_list i .src).any fun k => k ∈ l ∧ k.src_id ≠ cf.my_id := by
  simp [Conf.mid_src, DG_Problem_On_Graph, skips, and_comm]

theorem Conf.choose_eq (cf : Conf) (l : List Edge_Key) (i : ℕ) :
    cf.choose l i = pick (entering l i) (cf.leaving l) (cf.mid_dst l i) (cf.mid_src l i) := by
  rw [Conf.choose, cf.mid_dst_eq, cf.mid_src_eq]

theorem problem_on_dst_graph (cf : Conf) (l : List Edge_Key) (k : Edge_Key) :
    DG_Problem_On_Graph l (cf.edge_list k.dst_id .dst) k .dst = cf.mid_dst l k.dst_id := by
  simp [Conf.mid_dst, DG_Problem_On_Graph, skips]

theorem problem_on_src_graph (cf : Conf) (l : List Edge_Key) (i : ℕ) (hk : k.src_id = cf.my_id) :
    DG_Problem_On_Graph l (cf.edge_list i .src) k .src = cf.mid_src l i := by
  simp [Conf.mid_src, DG_Problem_On_Graph, skips, hk]

theorem Conf.Valid.mem_edge_list (hcf : cf.Valid) (hk : (k, idx) ∈ cf.sorted_edges) (i : ℕ)
    (t : Graph_Type) : k ∈ cf.edge_list i t ↔ DG_Edge_In_Graph idx (cf.bitmasks i t) = true := by
  constructor
  · intro hmem
    obtain ⟨e, he, rfl⟩ := List.mem_map.mp hmem
    rw [mem_filter] at he
    have heq : e = (e.1, idx) := inj_on_of_nodup_map hcf.sorted_nodup he.1 hk rfl
    rw [heq] at he
    exact he.2
  · intro hbit
    exact List.mem_map.mpr ⟨(k, idx), mem_filter.mpr ⟨hk, hbit⟩, rfl⟩

theorem any_mem_cons {es : List Edge_Key} {q : Edge_Key → Prop} [DecidablePred q] :
    (es.any fun x => decide (x ∈ k :: l ∧ q x)) =
      ((es.any fun x => decide (x ∈ l ∧ q x)) || decide (k ∈ es ∧ q k)) := by
  rw [Bool.eq_iff_iff]
  simp only [List.any_eq_true, decide_eq_true_eq, Bool.or_eq_true, mem_cons]
  constructor
  · rintro ⟨x, hx, rfl | hl, hq⟩
    · exact .inr ⟨hx, hq⟩
    · exact .inl ⟨x, hx, hl, hq⟩
  · rintro (⟨x, hx, hl, hq⟩ | ⟨hx, hq⟩)
    · exact ⟨x, hx, .inr hl, hq⟩
    · exact ⟨k, hx, .inl rfl, hq⟩

theorem any_mem_mono {es : List Edge_Key} {l' : List Edge_Key} {q : Edge_Key → Prop}
    [DecidablePred q] (hsub : l' ⊆ l) (h : (es.any fun x => decide (x ∈ l' ∧ q x)) = true) :
    (es.any fun x => decide (x ∈ l ∧ q x)) = true := by
  simp only [List.any_eq_true, decide_eq_true_eq] at h ⊢
  obtain ⟨x, hx, hl, hq⟩ := h
  exact ⟨x, hx, hsub hl, hq⟩

theorem entering_cons (i : ℕ) :
    entering (k :: l) i = entering l i + if k.dst_id = i then 1 else 0 := by
  simp [entering, countP_cons]

theorem leaving_cons :
    cf.leaving (k :: l) = cf.leaving l + if k.src_id = cf.my_id then 1 else 0 := by
  simp [Conf.leaving, countP_cons]

theorem entering_erase (h : k ∈ l) (i : ℕ) :
    entering l i = entering (l.erase k) i + if k.dst_id = i then 1 else 0 := by
  rw [← entering_cons, entering, entering, (perm_cons_erase h).countP_eq]

theorem leaving_erase (h : k ∈ l) :
    cf.leaving l = cf.leaving (l.erase k) + if k.src_id = cf.my_id then 1 else 0 := by
  rw [← leaving_cons, Conf.leaving, Conf.leaving, (perm_cons_erase h).countP_eq]

/-! ## 9. What the state says -/

/-- What is kept of destination `i`. -/
structure Dg_Dst.Agrees (cf : Conf) (l : List Edge_Key) (i : ℕ) (d : Dg_Dst) : Prop where
  none : ¬cf.has_graphs i → d.current_graph_type = .none ∧ d.problem_count = 0
  type : cf.has_graphs i → d.current_graph_type = cf.choose l i
  count : cf.has_graphs i → d.problem_count = entering l i
  problems : cf.has_graphs i → ∀ a, d.problems a = true ↔ ⟨a, i⟩ ∈ l

structure State.Agrees (cf : Conf) (s : State) : Prop where
  nodup : s.problem_list.Nodup
  dsts : ∀ i, (s.dsts i).Agrees cf s.problem_list i
  src_count : s.src_count = cf.leaving s.problem_list
  src_problems : ∀ a, s.src_problems a = true ↔ ⟨cf.my_id, a⟩ ∈ s.problem_list

theorem Conf.choose_ne_none (cf : Conf) (l : List Edge_Key) (i : ℕ) : cf.choose l i ≠ .none :=
  pick_ne_none _ _ _ _

theorem init_agrees (cf : Conf) : (State.init cf).Agrees cf := by
  refine ⟨nodup_nil, ?_, rfl, ?_⟩
  · intro i
    refine ⟨fun h => ⟨if_neg h, rfl⟩, fun h => ?_, fun _ => rfl, fun _ a => ?_⟩
    · have hchoose : cf.choose [] i = .k2 := by
        simp [Conf.choose, pick, entering, Conf.leaving, DG_PROB_COUNT_THRESH]
      exact (if_pos h).trans hchoose.symm
    · simp [State.init]
  · intro a
    simp [State.init]

theorem Conf.Valid.in_range (hcf : cf.Valid) {i : ℕ} (h : cf.has_graphs i) :
    1 ≤ i ∧ i ≤ MAX_NODES :=
  hcf.nodes i h.2

section Loops

variable {g : ℕ → Dg_Dst → Dg_Dst} {f : Graph_Type → Graph_Type} {dsts : ℕ → Dg_Dst} {d : Dg_Dst}
  {i : ℕ}

theorem for_each_in (hi : 1 ≤ i ∧ i ≤ MAX_NODES) : for_each g dsts i = g i (dsts i) := if_pos hi

theorem for_each_same (h : g i (dsts i) = dsts i) : for_each g dsts i = dsts i := by
  rw [for_each]
  split
  · exact h
  · rfl

theorem retype_none (h : d.current_graph_type = .none) : retype f d = d := if_pos h

theorem retype_some (h : d.current_graph_type ≠ .none) :
    retype f d = { d with current_graph_type := f d.current_graph_type } := if_neg h

end Loops

/-! ## 10. A problem starts -/

/-- The destination `i` when the problem is known and its own part is not counted yet: the
type is right for the counts `dc` and `sc`. -/
structure Dg_Dst.Shows (cf : Conf) (l : List Edge_Key) (i : ℕ) (dc sc : ℕ) (d : Dg_Dst) :
    Prop where
  type : d.current_graph_type = pick dc sc (cf.mid_dst l i) (cf.mid_src l i)
  count : d.problem_count = dc

theorem shows_widen (hcf : cf.Valid) {i : ℕ} {d : Dg_Dst} (hk : (k, idx) ∈ cf.edges)
    (hi : cf.has_graphs i) (h : d.Agrees cf l i) :
    (retype (widen cf k idx i) d).Shows cf (k :: l) i (entering l i) (cf.leaving l) := by
  have htype := h.type hi
  have hne : d.current_graph_type ≠ .none := htype ▸ cf.choose_ne_none l i
  rw [retype_some hne]
  refine ⟨?_, h.count hi⟩
  have hwiden := pick_widen (entering l i) (cf.leaving l) (cf.mid_dst l i) (cf.mid_src l i)
    (k ∈ cf.edge_list i .src ∧ k.src_id ≠ cf.my_id : Bool)
    (k ∈ cf.edge_list i .dst ∧ k.dst_id ≠ i : Bool)
  have hdst : cf.mid_dst (k :: l) i =
      (cf.mid_dst l i || (k ∈ cf.edge_list i .dst ∧ k.dst_id ≠ i : Bool)) := by
    rw [cf.mid_dst_eq, cf.mid_dst_eq, any_mem_cons]
  have hsrc : cf.mid_src (k :: l) i =
      (cf.mid_src l i || (k ∈ cf.edge_list i .src ∧ k.src_id ≠ cf.my_id : Bool)) := by
    rw [cf.mid_src_eq, cf.mid_src_eq, any_mem_cons]
  rw [hdst, hsrc, ← hwiden]
  dsimp only
  rw [htype, cf.choose_eq, widen]
  -- the bit of the edge is read from the graph in use
  have hsorted : (k, idx) ∈ cf.sorted_edges := by
    rw [Conf.edges, if_pos hi.1] at hk
    exact hk
  have hbit := hcf.mem_edge_list hsorted i
  congr 1
  simp only [decide_eq_true_eq, hbit]
  apply propext
  constructor
  · rintro ⟨⟨hs, hne⟩ | ⟨hd, hne⟩, hon⟩
    · exact .inl ⟨hs, hs ▸ hon, hne⟩
    · exact .inr ⟨hd, hd ▸ hon, hne⟩
  · rintro (⟨hs, hon, hne⟩ | ⟨hd, hon, hne⟩)
    · exact ⟨.inl ⟨hs, hne⟩, hs.symm ▸ hon⟩
    · exact ⟨.inr ⟨hd, hne⟩, hd.symm ▸ hon⟩

variable {d : Dg_Dst}

theorem Dg_Dst.Shows.ne_none {i : ℕ} (h : d.Shows cf l i dc sc) :
    d.current_graph_type ≠ .none := h.type ▸ pick_ne_none _ _ _ _

theorem shows_new_dst (h : d.Shows cf l k.dst_id dc sc) (hnew : d.problems k.src_id = false) :
    (new_dst_problem cf l k d).Shows cf l k.dst_id (dc + 1) sc ∧
      (new_dst_problem cf l k d).problems = update d.problems k.src_id true := by
  rw [new_dst_problem, if_pos ⟨h.ne_none, hnew⟩]
  refine ⟨⟨?_, ?_⟩, rfl⟩
  · have hpick := pick_dst_detected dc sc (cf.mid_dst l k.dst_id) (cf.mid_src l k.dst_id)
    rw [h.count, h.type, problem_on_dst_graph, hpick, Nat.cast_add, Nat.cast_one]
  · dsimp only
    rw [h.count, Nat.cast_add, Nat.cast_one]

theorem shows_new_src {i : ℕ} (h : d.Shows cf l i dc sc) (hsrc : k.src_id = cf.my_id) :
    Dg_Dst.Shows cf l i dc (sc + 1)
      (if (sc : ℤ) + 1 = DG_PROB_COUNT_THRESH then
        retype (src_detected (DG_Problem_On_Graph l (cf.edge_list i .src) k .src)) d
      else d) := by
  have hpick := pick_src_detected dc sc (cf.mid_dst l i) (cf.mid_src l i)
  rw [retype_some h.ne_none, problem_on_src_graph cf l i hsrc]
  refine ⟨?_, ?_⟩
  · rw [Nat.cast_add, Nat.cast_one, ← hpick]
    split
    · dsimp only
      rw [h.type]
    · exact h.type
  · split
    · exact h.count
    · exact h.count

theorem Dg_Dst.Agrees.of_none {i : ℕ} (hi : ¬cf.has_graphs i)
    (h : d.current_graph_type = .none ∧ d.problem_count = 0) : d.Agrees cf l i :=
  ⟨fun _ => h, fun hi' => absurd hi' hi, fun hi' => absurd hi' hi, fun hi' => absurd hi' hi⟩

theorem Dg_Dst.Shows.agrees {i : ℕ} (hi : cf.has_graphs i)
    (h : d.Shows cf l i (entering l i) (cf.leaving l))
    (hproblems : ∀ a, d.problems a = true ↔ ⟨a, i⟩ ∈ l) : d.Agrees cf l i :=
  ⟨fun hi' => absurd hi hi', fun _ => h.type.trans (cf.choose_eq l i).symm, fun _ => h.count,
    fun _ => hproblems⟩

theorem started_dsts (hcf : cf.Valid) (hk : (k, idx) ∈ cf.edges) (h : s.Agrees cf)
    (hnew : k ∉ s.problem_list) (i : ℕ) :
    let dsts := for_each (fun i => retype (widen cf k idx i)) s.dsts
    let d := update dsts k.dst_id
      (new_dst_problem cf (k :: s.problem_list) k (dsts k.dst_id)) i
    (¬cf.has_graphs i → d.current_graph_type = .none ∧ d.problem_count = 0) ∧
    (cf.has_graphs i →
      d.Shows cf (k :: s.problem_list) i (entering (k :: s.problem_list) i)
        (cf.leaving s.problem_list) ∧
      ∀ a, d.problems a = true ↔ ⟨a, i⟩ ∈ k :: s.problem_list) := by
  intro dsts d
  constructor
  · intro hi
    obtain ⟨hnone, hzero⟩ := (h.dsts i).none hi
    have hsame : dsts i = s.dsts i := for_each_same (retype_none hnone)
    have hd : d = s.dsts i := by
      by_cases heq : i = k.dst_id
      · subst heq
        change update dsts k.dst_id _ k.dst_id = _
        rw [update_self, new_dst_problem, hsame, if_neg (fun hboth => hboth.1 hnone)]
      · change update dsts k.dst_id _ i = _
        rw [update_of_ne heq, hsame]
    rw [hd]
    exact ⟨hnone, hzero⟩
  · intro hi
    have hin : dsts i = retype (widen cf k idx i) (s.dsts i) := for_each_in (hcf.in_range hi)
    have hshows : (dsts i).Shows cf (k :: s.problem_list) i (entering s.problem_list i)
        (cf.leaving s.problem_list) := hin ▸ shows_widen hcf hk hi (h.dsts i)
    have hproblems : (dsts i).problems = (s.dsts i).problems := by
      rw [hin, retype_some ((h.dsts i).type hi ▸ cf.choose_ne_none _ _)]
    have hold := (h.dsts i).problems hi
    by_cases heq : i = k.dst_id
    · subst heq
      have hfree : (dsts k.dst_id).problems k.src_id = false := by
        rw [hproblems]
        exact Bool.eq_false_of_not_eq_true (fun htrue => hnew ((hold k.src_id).mp htrue))
      obtain ⟨hafter, hmarks⟩ := shows_new_dst hshows hfree
      have hd : d = new_dst_problem cf (k :: s.problem_list) k (dsts k.dst_id) :=
        update_self ..
      rw [hd, entering_cons, if_pos rfl]
      refine ⟨hafter, ?_⟩
      intro a
      rw [hmarks, hproblems, mem_cons]
      by_cases ha : a = k.src_id
      · subst ha
        rw [update_self]
        exact ⟨fun _ => .inl rfl, fun _ => rfl⟩
      · have hne : (⟨a, k.dst_id⟩ : Edge_Key) ≠ k := fun heq => ha (congrArg Edge_Key.src_id heq)
        rw [update_of_ne ha, hold a]
        exact ⟨.inr, fun hor => hor.resolve_left hne⟩
    · have hd : d = dsts i := update_of_ne heq ..
      have hsame : entering (k :: s.problem_list) i = entering s.problem_list i := by
        rw [entering_cons, if_neg (fun h' => heq h'.symm), add_zero]
      rw [hd, hsame]
      refine ⟨hshows, ?_⟩
      intro a
      have hne : (⟨a, i⟩ : Edge_Key) ≠ k := fun h' => heq (congrArg Edge_Key.dst_id h')
      rw [hproblems, hold a, mem_cons]
      exact ⟨.inr, fun hor => hor.resolve_left hne⟩

theorem started_agrees (hcf : cf.Valid) (hk : (k, idx) ∈ cf.edges) (h : s.Agrees cf)
    (hnew : k ∉ s.problem_list) :
    (problem_started cf k idx s).Agrees cf ∧
      (problem_started cf k idx s).problem_list = k :: s.problem_list := by
  have hdsts := started_dsts hcf hk h hnew
  have hnodup : (k :: s.problem_list).Nodup := nodup_cons.mpr ⟨hnew, h.nodup⟩
  rw [problem_started, if_neg hnew]
  dsimp only
  rw [new_src_problem]
  dsimp only
  by_cases hsrc : k.src_id = cf.my_id
  · have hfree : s.src_problems k.dst_id = false := by
      apply Bool.eq_false_of_not_eq_true
      intro htrue
      have hmem := (h.src_problems k.dst_id).mp htrue
      rw [← hsrc] at hmem
      exact hnew hmem
    rw [if_pos ⟨hsrc, hfree⟩]
    refine ⟨⟨hnodup, ?_, ?_, ?_⟩, rfl⟩
    · intro i
      obtain ⟨hnone, hsome⟩ := hdsts i
      by_cases hi : cf.has_graphs i
      · obtain ⟨hshows, hproblems⟩ := hsome hi
        have hafter := shows_new_src hshows hsrc
        rw [← h.src_count] at hafter
        dsimp only
        refine Dg_Dst.Shows.agrees hi ?_ ?_
        · rw [leaving_cons, if_pos hsrc]
          split
          · rename_i hreach
            rw [if_pos hreach] at hafter
            rw [for_each_in (hcf.in_range hi)]
            exact hafter
          · rename_i hreach
            rw [if_neg hreach] at hafter
            exact hafter
        · split
          · rw [for_each_in (hcf.in_range hi), retype_some hshows.ne_none]
            exact hproblems
          · exact hproblems
      · obtain ⟨htype, hzero⟩ := hnone hi
        refine Dg_Dst.Agrees.of_none hi ?_
        dsimp only
        split
        · rw [for_each_same (retype_none htype)]
          exact ⟨htype, hzero⟩
        · exact ⟨htype, hzero⟩
    · dsimp only
      rw [h.src_count, leaving_cons, if_pos hsrc, Nat.cast_add, Nat.cast_one]
    · intro a
      dsimp only
      rw [mem_cons]
      by_cases ha : a = k.dst_id
      · subst ha
        rw [update_self]
        exact ⟨fun _ => .inl (by rw [← hsrc]), fun _ => rfl⟩
      · have hne : (⟨cf.my_id, a⟩ : Edge_Key) ≠ k := fun h' => ha (congrArg Edge_Key.dst_id h')
        rw [update_of_ne ha, h.src_problems a]
        exact ⟨.inr, fun hor => hor.resolve_left hne⟩
  · have hleaving : cf.leaving (k :: s.problem_list) = cf.leaving s.problem_list := by
      rw [leaving_cons, if_neg hsrc, add_zero]
    rw [if_neg (fun hboth => hsrc hboth.1)]
    refine ⟨⟨hnodup, ?_, ?_, ?_⟩, rfl⟩
    · intro i
      obtain ⟨hnone, hsome⟩ := hdsts i
      by_cases hi : cf.has_graphs i
      · obtain ⟨hshows, hproblems⟩ := hsome hi
        rw [← hleaving] at hshows
        exact hshows.agrees hi hproblems
      · exact Dg_Dst.Agrees.of_none hi (hnone hi)
    · dsimp only
      rw [h.src_count, hleaving]
    · intro a
      have hne : (⟨cf.my_id, a⟩ : Edge_Key) ≠ k :=
        fun h' => hsrc (congrArg Edge_Key.src_id h').symm
      dsimp only
      rw [h.src_problems a, mem_cons]
      exact ⟨.inr, fun hor => hor.resolve_left hne⟩

/-! ## 11. A problem is over -/

theorem Settling.ne_none {dc sc : ℤ} (h : Settling dc sc md ms t) : t ≠ .none := by
  rcases h with rfl | ⟨rfl, -⟩
  · exact pick_ne_none _ _ _ _
  · intro hnone
    cases hnone

structure Dg_Dst.Settles (cf : Conf) (l : List Edge_Key) (i : ℕ) (dc sc : ℕ) (d : Dg_Dst) :
    Prop where
  type : Settling dc sc (cf.mid_dst l i) (cf.mid_src l i) d.current_graph_type
  count : d.problem_count = dc

theorem settles_erase {i : ℕ} (hi : cf.has_graphs i) (h : d.Agrees cf l i) :
    d.Settles cf (l.erase k) i (entering l i) (cf.leaving l) := by
  refine ⟨?_, h.count hi⟩
  rw [h.type hi, cf.choose_eq]
  apply pick_settling
  · rw [cf.mid_dst_eq, cf.mid_dst_eq]
    exact any_mem_mono erase_subset
  · rw [cf.mid_src_eq, cf.mid_src_eq]
    exact any_mem_mono erase_subset

theorem settles_dst (h : d.Settles cf s.problem_list k.dst_id (dc + 1) sc)
    (hsc : s.src_count = sc) (hold : d.problems k.src_id = true) :
    (resolved_dst_problem cf s k d).Settles cf s.problem_list k.dst_id dc sc ∧
      (resolved_dst_problem cf s k d).problems = update d.problems k.src_id false := by
  have hback : ((dc + 1 : ℕ) : ℤ) - 1 = dc := by omega
  rw [resolved_dst_problem, if_pos ⟨h.type.ne_none, hold⟩]
  refine ⟨⟨?_, ?_⟩, rfl⟩
  · have hstep := h.type.dst_resolved
    rw [hback] at hstep
    rw [h.count, hsc]
    exact hstep
  · dsimp only
    rw [h.count, hback]

theorem settles_src {i : ℕ} (h : d.Settles cf l i dc (sc + 1)) :
    Dg_Dst.Settles cf l i dc sc
      (if ((sc + 1 : ℕ) : ℤ) = DG_PROB_COUNT_THRESH then
        retype (src_resolved d.problem_count (cf.mid_dst l i)) d
      else d) := by
  have hback : ((sc + 1 : ℕ) : ℤ) - 1 = sc := by omega
  have hstep := h.type.src_resolved
  rw [hback] at hstep
  rw [retype_some h.type.ne_none, h.count]
  refine ⟨?_, ?_⟩
  · split
    · rename_i hreach
      rw [if_pos hreach] at hstep
      exact hstep
    · rename_i hreach
      rw [if_neg hreach] at hstep
      exact hstep
  · split
    · rfl
    · exact h.count

theorem mid_checks_spec (hcf : cf.Valid) (hnodup : s.problem_list.Nodup)
    (hnone : ∀ i, ¬cf.has_graphs i →
      (s.dsts i).current_graph_type = .none ∧ (s.dsts i).problem_count = 0)
    (hsome : ∀ i, cf.has_graphs i →
      (s.dsts i).Settles cf s.problem_list i (entering s.problem_list i)
      (cf.leaving s.problem_list) ∧ ∀ a, (s.dsts i).problems a = true ↔ ⟨a, i⟩ ∈ s.problem_list)
    (hcount : s.src_count = cf.leaving s.problem_list)
    (hsrc : ∀ a, s.src_problems a = true ↔ ⟨cf.my_id, a⟩ ∈ s.problem_list) :
    ∃ s', mid_checks cf s = some s' ∧ s'.Agrees cf ∧ s'.problem_list = s.problem_list := by
  have hpick : ∀ i, cf.has_graphs i → mid_check cf s i = some (cf.choose s.problem_list i) := by
    intro i hi
    obtain ⟨hsettles, -⟩ := hsome i hi
    rw [mid_check, hcount, hsettles.count, hsettles.type.mid_resolved, cf.choose_eq]
  have hleft : ∀ i, ¬cf.has_graphs i → mid_check cf s i = some .none := by
    intro i hi
    rw [mid_check, (hnone i hi).1]
    rfl
  have hall : ((range' 1 MAX_NODES).all fun i => (mid_check cf s i).isSome) = true := by
    apply List.all_eq_true.mpr
    intro i _
    by_cases hi : cf.has_graphs i
    · rw [hpick i hi, isSome_some]
    · rw [hleft i hi, isSome_some]
  refine ⟨_, if_pos hall, ⟨hnodup, ?_, hcount, hsrc⟩, rfl⟩
  intro i
  dsimp only
  by_cases hi : cf.has_graphs i
  · obtain ⟨hsettles, hproblems⟩ := hsome i hi
    rw [for_each_in (hcf.in_range hi), hpick i hi]
    exact ⟨fun hi' => absurd hi hi', fun _ => rfl, fun _ => hsettles.count, fun _ => hproblems⟩
  · obtain ⟨htype, hzero⟩ := hnone i hi
    refine Dg_Dst.Agrees.of_none hi ?_
    rw [for_each_same]
    · exact ⟨htype, hzero⟩
    · rw [hleft i hi, getD_some, ← htype]

theorem mem_erase_key (hnodup : l.Nodup) (k' : Edge_Key) : k' ∈ l.erase k ↔ k' ≠ k ∧ k' ∈ l :=
  hnodup.mem_erase_iff

theorem resolved_dsts (h : s.Agrees cf) (hk : k ∈ s.problem_list) (i : ℕ) :
    let l := s.problem_list.erase k
    let d := update s.dsts k.dst_id
      (resolved_dst_problem cf { s with problem_list := l } k (s.dsts k.dst_id)) i
    (¬cf.has_graphs i → d.current_graph_type = .none ∧ d.problem_count = 0) ∧
    (cf.has_graphs i → d.Settles cf l i (entering l i) (cf.leaving s.problem_list) ∧
      ∀ a, d.problems a = true ↔ ⟨a, i⟩ ∈ l) := by
  intro l d
  constructor
  · intro hi
    obtain ⟨hnone, hzero⟩ := (h.dsts i).none hi
    have hd : d = s.dsts i := by
      by_cases heq : i = k.dst_id
      · subst heq
        change update s.dsts k.dst_id _ k.dst_id = _
        rw [update_self, resolved_dst_problem, if_neg (fun hboth => hboth.1 hnone)]
      · exact update_of_ne heq ..
    rw [hd]
    exact ⟨hnone, hzero⟩
  · intro hi
    have hsettles := settles_erase (k := k) hi (h.dsts i)
    have hold := (h.dsts i).problems hi
    have hcount := entering_erase hk i
    by_cases heq : i = k.dst_id
    · subst heq
      rw [if_pos rfl] at hcount
      rw [hcount] at hsettles
      have hmark : (s.dsts k.dst_id).problems k.src_id = true := (hold k.src_id).mpr hk
      obtain ⟨hafter, hmarks⟩ :=
        settles_dst (s := { s with problem_list := l }) hsettles h.src_count hmark
      have hd : d = _ := update_self ..
      rw [hd]
      refine ⟨hafter, ?_⟩
      intro a
      rw [hmarks, mem_erase_key h.nodup]
      by_cases ha : a = k.src_id
      · subst ha
        rw [update_self]
        exact ⟨fun hfalse => absurd hfalse Bool.false_ne_true, fun hboth => absurd rfl hboth.1⟩
      · have hne : (⟨a, k.dst_id⟩ : Edge_Key) ≠ k := fun heq => ha (congrArg Edge_Key.src_id heq)
        rw [update_of_ne ha, hold a]
        exact ⟨fun hmem => ⟨hne, hmem⟩, fun hboth => hboth.2⟩
    · have hd : d = s.dsts i := update_of_ne heq ..
      rw [if_neg (fun h' => heq h'.symm), add_zero] at hcount
      rw [hcount] at hsettles
      rw [hd]
      refine ⟨hsettles, ?_⟩
      intro a
      have hne : (⟨a, i⟩ : Edge_Key) ≠ k := fun h' => heq (congrArg Edge_Key.dst_id h')
      rw [hold a, mem_erase_key h.nodup]
      exact ⟨fun hmem => ⟨hne, hmem⟩, fun hboth => hboth.2⟩

theorem resolved_agrees (hcf : cf.Valid) (h : s.Agrees cf) (hk : k ∈ s.problem_list) :
    ∃ s', problem_resolved cf k s = some s' ∧ s'.Agrees cf ∧
      s'.problem_list = s.problem_list.erase k := by
  have hdsts := resolved_dsts h hk
  have hnodup : (s.problem_list.erase k).Nodup := h.nodup.erase k
  have hcount : cf.leaving s.problem_list = _ := leaving_erase hk
  rw [problem_resolved, if_pos hk]
  dsimp only
  rw [resolved_src_problem]
  dsimp only
  by_cases hsrc : k.src_id = cf.my_id
  · have hmark : s.src_problems k.dst_id = true := by
      apply (h.src_problems k.dst_id).mpr
      rw [← hsrc]
      exact hk
    rw [if_pos hsrc] at hcount
    rw [if_pos ⟨hsrc, hmark⟩]
    apply mid_checks_spec hcf hnodup
    · intro i hi
      obtain ⟨htype, hzero⟩ := (hdsts i).1 hi
      dsimp only
      split
      · rw [for_each_same (retype_none htype)]
        exact ⟨htype, hzero⟩
      · exact ⟨htype, hzero⟩
    · intro i hi
      obtain ⟨hsettles, hproblems⟩ := (hdsts i).2 hi
      rw [hcount] at hsettles
      have hafter := settles_src hsettles
      rw [← hcount, ← h.src_count] at hafter
      dsimp only
      constructor
      · split
        · rename_i hreach
          rw [if_pos hreach] at hafter
          rw [for_each_in (hcf.in_range hi)]
          exact hafter
        · rename_i hreach
          rw [if_neg hreach] at hafter
          exact hafter
      · split
        · rw [for_each_in (hcf.in_range hi), retype_some hsettles.type.ne_none]
          exact hproblems
        · exact hproblems
    · dsimp only
      rw [h.src_count, hcount]
      omega
    · intro a
      dsimp only
      rw [mem_erase_key h.nodup]
      by_cases ha : a = k.dst_id
      · subst ha
        rw [update_self]
        have heq : (⟨cf.my_id, k.dst_id⟩ : Edge_Key) = k := by rw [← hsrc]
        exact ⟨fun hfalse => absurd hfalse Bool.false_ne_true, fun hboth => absurd heq hboth.1⟩
      · have hne : (⟨cf.my_id, a⟩ : Edge_Key) ≠ k := fun h' => ha (congrArg Edge_Key.dst_id h')
        rw [update_of_ne ha, h.src_problems a]
        exact ⟨fun hmem => ⟨hne, hmem⟩, fun hboth => hboth.2⟩
  · rw [if_neg hsrc, add_zero] at hcount
    rw [if_neg (fun hboth => hsrc hboth.1)]
    apply mid_checks_spec hcf hnodup
    · exact fun i => (hdsts i).1
    · intro i hi
      rw [← hcount]
      exact (hdsts i).2 hi
    · dsimp only
      rw [h.src_count, hcount]
    · intro a
      have hne : (⟨cf.my_id, a⟩ : Edge_Key) ≠ k :=
        fun h' => hsrc (congrArg Edge_Key.src_id h').symm
      dsimp only
      rw [h.src_problems a, mem_erase_key h.nodup]
      exact ⟨fun hmem => ⟨hne, hmem⟩, fun hboth => hboth.2⟩

/-! ## 12. Every sequence of updates -/

structure World.Inv (cf : Conf) (w : World) : Prop where
  agrees : w.dg.Agrees cf
  fresh : ∀ k, w.fresh k = true → w.cost k = -1
  listed : ∀ k, k ∈ w.dg.problem_list ↔ k ∈ cf.keys ∧ w.cost k < 0 ∧ w.fresh k = false

theorem mem_keys (h : (k, idx) ∈ cf.edges) : k ∈ cf.keys :=
  mem_dedup.mpr (List.mem_map.mpr ⟨(k, idx), h, rfl⟩)

theorem Conf.Valid.found (hcf : cf.Valid) (h : (k, idx) ∈ cf.edges) :
    cf.addr_to_id (cf.id_to_addr k.src_id) = some k.src_id ∧
      cf.addr_to_id (cf.id_to_addr k.dst_id) = some k.dst_id := by
  have hends : k.src_id ∈ cf.nodes ∧ k.dst_id ∈ cf.nodes := by
    rw [Conf.edges] at h
    split at h
    · exact hcf.ends _ h
    · rcases mem_append.mp h with h | h
      · exact hcf.ends _ h
      · obtain ⟨e, he, heq⟩ := List.mem_map.mp h
        obtain ⟨hsrc, hdst⟩ := hcf.ends e he
        obtain ⟨rfl, -⟩ := Prod.mk.inj heq
        exact ⟨hdst, hsrc⟩
  exact ⟨hcf.lookup _ hends.1, hcf.lookup _ hends.2⟩

theorem update_spec (hcf : cf.Valid) {e : Event} (h : w.Inv cf) (he : (e.key, e.index) ∈ cf.edges) :
    ∃ dg, DG_Process_Edge_Update cf (e.edge cf w) e.new_cost w.dg = some dg ∧ dg.Agrees cf ∧
      ∀ k, k ∈ dg.problem_list ↔
        if k = e.key then e.new_cost < 0 ∧ ¬(w.fresh e.key = true ∧ e.new_cost = -1)
        else k ∈ w.dg.problem_list := by
  obtain ⟨hsrc, hdst⟩ := hcf.found he
  have hkey := mem_keys he
  have hlisted := h.listed e.key
  have hfresh := h.fresh e.key
  simp only [hkey, true_and] at hlisted
  have hcost : (e.edge cf w).cost = w.cost e.key := rfl
  -- nothing happens: the list is right for the new cost as it is
  have hsame : (e.key ∈ w.dg.problem_list ↔
      (e.new_cost < 0 ∧ ¬(w.fresh e.key = true ∧ e.new_cost = -1))) →
      ∀ k, k ∈ w.dg.problem_list ↔
        if k = e.key then e.new_cost < 0 ∧ ¬(w.fresh e.key = true ∧ e.new_cost = -1)
        else k ∈ w.dg.problem_list := by
    intro hiff k
    split
    · rename_i heq
      rw [heq, hiff]
    · exact Iff.rfl
  rw [DG_Process_Edge_Update, if_neg (not_not.mpr hcf.problem_route), hcost]
  by_cases hstatus : (e.new_cost = -1 ∧ w.cost e.key = -1) ∨
      (e.new_cost < -1 ∧ w.cost e.key < -1) ∨ (e.new_cost ≥ 0 ∧ w.cost e.key ≥ 0)
  · rw [if_pos hstatus]
    refine ⟨w.dg, rfl, h.agrees, hsame ?_⟩
    rw [hlisted]
    cases hf : w.fresh e.key with
    | true =>
      have hone := hfresh hf
      simp only [Bool.true_eq_false, and_false, true_and, false_iff]
      omega
    | false =>
      simp only [and_true, Bool.false_eq_true, false_and, not_false_iff]
      omega
  · have hboth : (match cf.addr_to_id (e.edge cf w).dst_id, cf.addr_to_id (e.edge cf w).src_id with
        | some dst_id, some src_id =>
          if e.new_cost < 0 then some (problem_started cf ⟨src_id, dst_id⟩ (e.edge cf w).index w.dg)
          else problem_resolved cf ⟨src_id, dst_id⟩ w.dg
        | _, _ => some w.dg) =
        if e.new_cost < 0 then some (problem_started cf e.key e.index w.dg)
        else problem_resolved cf e.key w.dg := by
      have hd : cf.addr_to_id (e.edge cf w).dst_id = some e.key.dst_id := hdst
      have hs : cf.addr_to_id (e.edge cf w).src_id = some e.key.src_id := hsrc
      rw [hd, hs]
      rfl
    rw [if_neg hstatus, hboth]
    by_cases hneg : e.new_cost < 0
    · rw [if_pos hneg]
      by_cases hmem : e.key ∈ w.dg.problem_list
      · refine ⟨_, rfl, ?_, ?_⟩
        · rw [problem_started, if_pos hmem]
          exact h.agrees
        · rw [problem_started, if_pos hmem]
          apply hsame
          have hknown := (hlisted.mp hmem).2
          exact iff_of_true hmem ⟨hneg, fun hboth => by
            rw [hknown] at hboth
            exact Bool.false_ne_true hboth.1⟩
      · obtain ⟨hagrees, hlist⟩ := started_agrees hcf he h.agrees hmem
        refine ⟨_, rfl, hagrees, ?_⟩
        intro k
        rw [hlist, mem_cons]
        split
        · rename_i heq
          refine iff_of_true (.inl heq) ⟨hneg, ?_⟩
          rintro ⟨hf, hone⟩
          have hold := hfresh hf
          exact hstatus (.inl ⟨hone, hold⟩)
        · rename_i hne
          exact ⟨fun hor => hor.resolve_left hne, .inr⟩
    · rw [if_neg hneg]
      by_cases hmem : e.key ∈ w.dg.problem_list
      · obtain ⟨dg, hresolved, hagrees, hlist⟩ := resolved_agrees hcf h.agrees hmem
        refine ⟨dg, hresolved, hagrees, ?_⟩
        intro k
        rw [hlist, mem_erase_key h.agrees.nodup]
        split
        · rename_i heq
          exact iff_of_false (fun hboth => hboth.1 heq) (fun hboth => hneg hboth.1)
        · rename_i hne
          exact ⟨fun hboth => hboth.2, fun hin => ⟨hne, hin⟩⟩
      · refine ⟨w.dg, by rw [problem_resolved, if_neg hmem], h.agrees, hsame ?_⟩
        exact iff_of_false hmem (fun hboth => hneg hboth.1)

theorem next_spec (hcf : cf.Valid) {e : Event} (h : w.Inv cf) (he : (e.key, e.index) ∈ cf.edges) :
    ∃ w', w.next cf e = some w' ∧ w'.Inv cf := by
  obtain ⟨dg, hupdate, hagrees, hlist⟩ := update_spec hcf h he
  refine ⟨_, by rw [World.next, hupdate]; rfl, ⟨hagrees, ?_, ?_⟩⟩
  · intro k
    dsimp only
    by_cases hk : k = e.key
    · subst hk
      rw [update_self, update_self]
      intro hboth
      exact of_decide_eq_true (Bool.and_eq_true_iff.mp hboth).2
    · rw [update_of_ne hk, update_of_ne hk]
      exact h.fresh k
  · intro k
    dsimp only
    rw [hlist k]
    by_cases hk : k = e.key
    · subst hk
      rw [if_pos rfl, update_self, update_self]
      have hkey := mem_keys he
      cases w.fresh e.key <;> simp [hkey]
    · rw [if_neg hk, update_of_ne hk, update_of_ne hk]
      exact h.listed k

theorem World.init_inv (cf : Conf) : (World.init cf).Inv cf := by
  refine ⟨init_agrees cf, fun k _ => rfl, ?_⟩
  intro k
  exact iff_of_false not_mem_nil (fun hboth => Bool.false_ne_true hboth.2.2.symm)

theorem problems_nodup (cf : Conf) (w : World) : (w.problems cf).Nodup :=
  (nodup_dedup _).filter _

theorem World.Inv.perm (h : w.Inv cf) : w.dg.problem_list.Perm (w.problems cf) := by
  apply (perm_ext_iff_of_nodup h.agrees.nodup (problems_nodup cf w)).mpr
  intro k
  rw [h.listed k, World.problems, mem_filter]
  simp

theorem Conf.choose_perm {l' : List Edge_Key} (h : l.Perm l') (i : ℕ) :
    cf.choose l i = cf.choose l' i := by
  have hmem : ∀ k, k ∈ l ↔ k ∈ l' := fun k => h.mem_iff
  simp only [Conf.choose, entering, Conf.leaving, h.countP_eq, hmem]

/-- After any updates of configured edges the state is what the present problems say: the
list has exactly these, the counts of destinations with graphs and of the source count
them, and the graph of every destination that has graphs is the one `choose` gives. A
destination without graphs is not counted for. No update exits, and what the updates were
before does not matter. -/
theorem dissemination_choice (cf : Conf) (hcf : cf.Valid) (w : World)
    (hrun : Run (Step cf) (World.init cf) w) :
    w.dg.problem_list.Perm (w.problems cf) ∧
      w.dg.src_count = cf.leaving (w.problems cf) ∧
      (∀ i, cf.has_graphs i → (w.dg.dsts i).problem_count = entering (w.problems cf) i ∧
        (w.dg.dsts i).current_graph_type = cf.choose (w.problems cf) i) ∧
      (∀ i, ¬cf.has_graphs i → (w.dg.dsts i).problem_count = 0 ∧
        (w.dg.dsts i).current_graph_type = .none) ∧
      (∀ e : Event, (e.key, e.index) ∈ cf.edges → (w.next cf e).isSome) ∧
      ∀ w₂, Run (Step cf) (World.init cf) w₂ → (∀ k, k ∈ w₂.problems cf ↔ k ∈ w.problems cf) →
        ∀ i, (w₂.dg.dsts i).current_graph_type = (w.dg.dsts i).current_graph_type := by
  have hinv : ∀ w, Run (Step cf) (World.init cf) w → w.Inv cf := by
    intro w hrun
    refine Run.invariant (fun w => w.Inv cf) (World.init_inv cf) ?_ hrun
    rintro t e t' h ⟨he, hnext⟩
    obtain ⟨t'', hnext', hinv⟩ := next_spec hcf h he
    obtain rfl := some.inj (hnext'.symm.trans hnext)
    exact hinv
  have h := hinv w hrun
  have htype : ∀ i, cf.has_graphs i →
      (w.dg.dsts i).current_graph_type = cf.choose (w.problems cf) i :=
    fun i hi => ((h.agrees.dsts i).type hi).trans (Conf.choose_perm h.perm i)
  refine ⟨h.perm, ?_, ?_, ?_, ?_, ?_⟩
  · rw [h.agrees.src_count, Conf.leaving, h.perm.countP_eq, Conf.leaving]
  · intro i hi
    refine ⟨?_, htype i hi⟩
    rw [(h.agrees.dsts i).count hi, entering, h.perm.countP_eq, entering]
  · exact fun i hi => ((h.agrees.dsts i).none hi).symm
  · intro e he
    obtain ⟨w', hnext, -⟩ := next_spec hcf h he
    rw [hnext, isSome_some]
  · intro w₂ hrun2 hsame i
    have h2 := hinv w₂ hrun2
    by_cases hi : cf.has_graphs i
    · have hperm : (w₂.problems cf).Perm (w.problems cf) :=
        (perm_ext_iff_of_nodup (problems_nodup cf w₂) (problems_nodup cf w)).mpr hsame
      rw [htype i hi, (h2.agrees.dsts i).type hi, Conf.choose_perm h2.perm,
        Conf.choose_perm hperm]
    · rw [((h.agrees.dsts i).none hi).1, ((h2.agrees.dsts i).none hi).1]

/-! ### Three nodes in a line -/

def line (directed : Bool) : Conf :=
  { my_id := 1
    problem_route := true
    directed_edges := directed
    nodes := [1, 2, 3]
    id_to_addr := fun i => i
    addr_to_id := fun a => if a ∈ [1, 2, 3] then some a else none
    sorted_edges := [(⟨1, 2⟩, 0), (⟨2, 3⟩, 1)]
    bitmasks := fun _ _ => [0xC0] }

theorem line_valid (directed : Bool) : (line directed).Valid := by
  constructor
  · rfl
  · change List.Nodup [(⟨1, 2⟩ : Edge_Key), ⟨2, 3⟩]
    decide
  · intro i hi
    simp only [line, mem_cons, not_mem_nil, or_false] at hi
    simp only [MAX_NODES]
    omega
  · intro e he
    simp only [line, mem_cons, not_mem_nil, or_false] at he
    rcases he with rfl | rfl
    · exact ⟨mem_cons_self, mem_cons_of_mem 1 mem_cons_self⟩
    · exact ⟨mem_cons_of_mem 1 mem_cons_self,
        mem_cons_of_mem 1 (mem_cons_of_mem 2 mem_cons_self)⟩
  · intro i hi
    exact if_pos hi

theorem line_update (directed : Bool) :
    ∃ w, Run (Step (line directed)) (World.init (line directed)) w ∧
      (World.init (line directed)).next (line directed) ⟨⟨2, 3⟩, 1, -5⟩ = some w := by
  have he : ((⟨2, 3⟩ : Edge_Key), 1) ∈ (line directed).edges := by
    cases directed <;> decide
  obtain ⟨w, hnext, -⟩ := next_spec (line_valid directed) (e := ⟨⟨2, 3⟩, 1, -5⟩)
    (World.init_inv (line directed)) he
  exact ⟨w, Run.tail (Run.refl _) ⟨he, hnext⟩, hnext⟩

theorem dissemination_choice_line :
    ∃ w, Run (Step (line true)) (World.init (line true)) w ∧
      (w.dg.dsts 3).problem_count = 1 ∧ (w.dg.dsts 3).current_graph_type = .k2 := by
  obtain ⟨w, hrun, hnext⟩ := line_update true
  obtain ⟨-, -, hcounts, -⟩ := dissemination_choice (line true) (line_valid true) w hrun
  obtain ⟨hcount, htype⟩ := hcounts 3 (by decide)
  have hproblems : w.problems (line true) = [⟨2, 3⟩] := by
    obtain ⟨dg, -, rfl⟩ := map_eq_some_iff.mp hnext
    rfl
  rw [hproblems] at hcount htype
  exact ⟨w, hrun, hcount, htype⟩

/-- With undirected edges a problem that enters a destination is on the list, but nobody
has graphs, and it is not counted. -/
theorem undirected_not_counted :
    ∃ (cf : Conf) (w : World), cf.Valid ∧ Run (Step cf) (World.init cf) w ∧
      entering (w.problems cf) 3 = 1 ∧ (w.dg.dsts 3).problem_count = 0 := by
  obtain ⟨w, hrun, hnext⟩ := line_update false
  have hcounts : entering (w.problems (line false)) 3 = 1 ∧ (w.dg.dsts 3).problem_count = 0 := by
    obtain ⟨dg, hdg, rfl⟩ := map_eq_some_iff.mp hnext
    cases hdg
    exact ⟨by decide, by decide⟩
  exact ⟨line false, w, line_valid false, hrun, hcounts⟩

end Spines.Routing.DissemGraphs
