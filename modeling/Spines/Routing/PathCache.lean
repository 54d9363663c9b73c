/-
`MultiPath_Stamp_Bitmask` (`daemon/multipath.c`) and what it remembers.

A mask is computed once for a destination and a number of paths and kept in
`MP_Cache`, so it is only as good as the costs it was computed from. Three places
store a cost in an edge while the daemon runs: a link state cell of another node
(`daemon/link_state.c`), a new cost of a local leg (`daemon/network.c`) and a
link status change (`daemon/reliable_flood.c`). Each empties the cache after it.

When fewer than `k` paths are found, the mask is copied to every entry from the
number of paths found upwards.

Bits are counted as in `bag_mask`: the edge of index `i` has the bit `2 ^ i`. Edges are
never freed, the garbage collection of states is not scheduled.
-/
import Spines.Routing.DissemGraphs
import Spines.Routing.MultiPath

set_option autoImplicit false

namespace Spines.MultiPath

open Spines.Lib Spines.Routing Function Option List

/-! ## 1. The state -/

def MULTIPATH_MAX_K : ℕ := 5

def DG_K_FLAG : ℕ := MULTIPATH_MAX_K + 1

structure Stored_Edge where
  cost : Int16
  base_cost : Int16
  index : ℕ
  deriving DecidableEq

inductive Network_Leg_Status
  | DISCONNECTED_LEG
  | NOT_YET_CONNECTED_LEG
  | CONNECTED_LEG
  deriving DecidableEq

structure Network_Leg where
  src_id : ℕ
  dst_id : ℕ
  status : Network_Leg_Status
  cost : Int16

structure Site where
  tp : Topology
  dg : DissemGraphs.Conf
  My_Address : ℕ
  /-- the cost in `Sorted_Edges` -/
  ref_cost : ℕ → ℕ → Int16
  MultiPath_Bitmask_Size : ℕ
  my_id : dg.my_id = tp.My_ID
  nodes : dg.nodes = tp.nodes
  directed : dg.directed_edges = tp.Directed_Edges

structure Cached where
  All_Edges : ℕ → ℕ → Option Stored_Edge
  legs : ℕ → Option Network_Leg
  MP_Cache : ℕ → ℕ → Option ℕ
  dg : DissemGraphs.State

/-- `Init_MultiPath` finds all edges created, the cache is empty. -/
def Cached.init (site : Site) (All_Edges : ℕ → ℕ → Option Stored_Edge) : Cached :=
  { All_Edges := All_Edges
    legs := fun _ => none
    MP_Cache := fun _ _ => none
    dg := DissemGraphs.State.init site.dg }

/-- What the flow edges point to: the edges between the addresses of two configured nodes. -/
def Cached.link_states (site : Site) (w : Cached) : Link_States :=
  { edge := fun s d =>
      match w.All_Edges (site.dg.id_to_addr s) (site.dg.id_to_addr d) with
      | some e => ⟨e.cost.toInt, e.base_cost.toInt⟩
      | none => ⟨-1, -1⟩
    cost_range := by
      intro s d
      split
      · exact ⟨Int16.le_toInt _, Int16.toInt_lt _⟩
      · decide
    base_cost_range := by
      intro s d
      split
      · exact ⟨Int16.le_toInt _, Int16.toInt_lt _⟩
      · decide }

def Cached.MultiPath_Compute (site : Site) (w : Cached) (dest_id k : ℕ) : Option (ℕ × ℕ) :=
  MultiPath.MultiPath_Compute site.tp (w.link_states site) false false dest_id k

/-! ## 2. Stamping -/

def mask_bits (size : ℕ) (mask : List UInt8) : ℕ :=
  (range (8 * size)).foldl
    (fun m i => if DissemGraphs.DG_Edge_In_Graph i mask then m ||| 2 ^ i else m) 0

def Site.static_mask (site : Site) (dest_id : ℕ) (type : DissemGraphs.Graph_Type) : ℕ :=
  mask_bits site.MultiPath_Bitmask_Size (site.dg.bitmasks dest_id type)

/-- `MP_Flooding_Bitmask`. -/
def Site.flooding_mask (site : Site) : ℕ := 2 ^ (8 * site.MultiPath_Bitmask_Size) - 1

/-- The loop over the other numbers of paths, from `ret` upwards. -/
def copy_mask (k ret mask : ℕ) (row : ℕ → Option ℕ) : ℕ → Option ℕ :=
  (range' ret (MULTIPATH_MAX_K + 1 - ret)).foldl
    (fun row i => if i = k then row else Function.update row i (some mask)) row

def set_row (dest_id : ℕ) (row : ℕ → Option ℕ) (w : Cached) : Cached :=
  { w with MP_Cache := Function.update w.MP_Cache dest_id row }

/-- The computation for `DG_K2_GRAPH` and `DG_SRC_DST_GRAPH`. -/
def stamp_two_paths (site : Site) (dest_id : ℕ) (w : Cached) : Option (ℕ × Cached) :=
  match w.MP_Cache dest_id 2 with
  | some mask => some (mask, w)
  | none => do
    let (_, mask) ← w.MultiPath_Compute site dest_id 2
    some (mask, set_row dest_id (Function.update (w.MP_Cache dest_id) 2 (some mask)) w)

def stamp_k_paths (site : Site) (dest_id k : ℕ) (w : Cached) : Option (ℕ × Cached) :=
  match w.MP_Cache dest_id k with
  | some mask => some (mask, w)
  | none => do
    let (ret, mask) ← w.MultiPath_Compute site dest_id k
    let row := Function.update (w.MP_Cache dest_id) k (some mask)
    some (mask, set_row dest_id (if ret ≠ 0 ∧ ret < k then copy_mask k ret mask row else row) w)

def stamp_graph (site : Site) (dest_id : ℕ) (w : Cached) : Option (ℕ × Cached) :=
  match (w.dg.dsts dest_id).current_graph_type with
  | .src => some (site.static_mask dest_id .src, w)
  | .dst => some (site.static_mask dest_id .dst, w)
  | .k2 => stamp_two_paths site dest_id w
  | .src_dst => do
    let (mask, w) ← stamp_two_paths site dest_id w
    some (mask ||| site.static_mask dest_id .src_dst, w)
  -- default to 2 paths if static graphs are not given
  | .none => stamp_k_paths site dest_id 2 w

/-- `MultiPath_Stamp_Bitmask`: the mask is `none` when it returns 0; the whole is `none`
when `MultiPath_Compute` ends the program. -/
def MultiPath_Stamp_Bitmask (site : Site) (dest_id k : ℕ) (w : Cached) :
    Option (Option ℕ × Cached) :=
  if (dest_id = 0 ∧ k > 0) ∨ dest_id > MAX_NODES then some (none, w)
  else
    let k := if k > MULTIPATH_MAX_K ∧ k ≠ DG_K_FLAG then MULTIPATH_MAX_K else k
    if k = 0 then some (some site.flooding_mask, w)
    else if k = DG_K_FLAG then
      (stamp_graph site dest_id w).map fun r => (some r.1, r.2)
    else (stamp_k_paths site dest_id k w).map fun r => (some r.1, r.2)

/-! ## 3. Costs -/

def MultiPath_Clear_Cache (w : Cached) : Cached := { w with MP_Cache := fun _ _ => none }

def set_edge (src_id dst_id : ℕ) (e : Stored_Edge) (w : Cached) : Cached :=
  { w with
    All_Edges := Function.update w.All_Edges src_id
      (Function.update (w.All_Edges src_id) dst_id (some e)) }

/-- `DG_Process_Edge_Update(edge, cost)`. -/
def graphs_updated (site : Site) (src_id dst_id : ℕ) (e : Stored_Edge) (new_cost : Int16)
    (w : Cached) : Option Cached :=
  (DissemGraphs.DG_Process_Edge_Update site.dg
    { src_id := src_id, dst_id := dst_id, cost := e.cost.toInt, index := e.index }
    new_cost.toInt w.dg).map fun dg => { w with dg := dg }

/-- The edge of a cell: edges that the configuration does not know are created. -/
def cell_edge (source dest : ℕ) (w : Cached) : Stored_Edge × Cached :=
  match w.All_Edges source dest with
  | some e => (e, w)
  | none =>
    let e : Stored_Edge := { cost := -1, base_cost := -1, index := USHRT_MAX }
    (e, set_edge source dest e w)

/-- `Edge_Process_state_cell`; a node publishes the costs of its own edges itself. -/
def Edge_Process_state_cell (site : Site) (source dest : ℕ) (cost : Int16) (w : Cached) :
    Option Cached :=
  let (e, w) := cell_edge source dest w
  if source ≠ site.My_Address then do
    let w ← graphs_updated site source dest e cost w
    some (MultiPath_Clear_Cache (set_edge source dest { e with cost := cost } w))
  else some w

/-- `Network_Leg_Set_Cost`; a cost that does not fit the status is an `Alarm(EXIT)`. -/
def Network_Leg_Set_Cost (site : Site) (id : ℕ) (leg : Network_Leg) (new_leg_cost : Int16)
    (w : Cached) : Option Cached :=
  if (new_leg_cost ≠ -1 ∧ leg.status ≠ .CONNECTED_LEG) ∨
      (new_leg_cost = -1 ∧ leg.status ≠ .DISCONNECTED_LEG ∧
        leg.status ≠ .NOT_YET_CONNECTED_LEG) then none
  else if new_leg_cost = leg.cost then some w
  else do
    let w : Cached :=
      { w with legs := Function.update w.legs id (some { leg with cost := new_leg_cost }) }
    let e ← w.All_Edges leg.src_id leg.dst_id
    let w ← graphs_updated site leg.src_id leg.dst_id e new_leg_cost w
    some (MultiPath_Clear_Cache (set_edge leg.src_id leg.dst_id { e with cost := new_leg_cost } w))

def Apply_Link_Status_Change (site : Site) (ID1 ID2 : ℕ) (cost : Int16) (w : Cached) : Cached :=
  let ref_cost := if site.tp.Directed_Edges = false ∧ ID1 > ID2 then site.ref_cost ID2 ID1
    else site.ref_cost ID1 ID2
  if cost ≠ -1 ∧ cost < ref_cost then w
  else if ID1 ∉ site.tp.nodes ∨ ID2 ∉ site.tp.nodes then w
  else
    let addr1 := site.dg.id_to_addr ID1
    let addr2 := site.dg.id_to_addr ID2
    match w.All_Edges addr1 addr2 with
    | none => w
    | some e =>
      if e.cost = cost then w
      else MultiPath_Clear_Cache (set_edge addr1 addr2 { e with cost := cost } w)

/-! ## 4. Runs -/

inductive Event
  | stamp (dest_id k : ℕ)
  | edge_cell (source dest : ℕ) (cost : Int16)
  | leg_cost (id : ℕ) (new_leg_cost : Int16)
  | link_status (ID1 ID2 : ℕ) (cost : Int16)
  /-- `Create_Network_Leg`, and the changes of a leg's status -/
  | leg_new (id src_id dst_id : ℕ)
  | leg_status (id : ℕ) (status : Network_Leg_Status)

def Cached.next (site : Site) (w : Cached) : Event → Option Cached
  | .stamp dest_id k => (MultiPath_Stamp_Bitmask site dest_id k w).map Prod.snd
  | .edge_cell source dest cost => Edge_Process_state_cell site source dest cost w
  | .leg_cost id new_leg_cost => do
    let leg ← w.legs id
    Network_Leg_Set_Cost site id leg new_leg_cost w
  | .link_status ID1 ID2 cost => some (Apply_Link_Status_Change site ID1 ID2 cost w)
  | .leg_new id src_id dst_id =>
    some { w with
      legs := Function.update w.legs id (some ⟨src_id, dst_id, .DISCONNECTED_LEG, -1⟩) }
  | .leg_status id status => do
    let leg ← w.legs id
    some { w with legs := Function.update w.legs id (some { leg with status := status }) }

def Cached.step (site : Site) (w : Cached) (e : Event) (w' : Cached) : Prop :=
  w.next site e = some w'

/-! ## 5. Asking for more paths than there are -/

section Stop

variable {tp : Topology} {ls : Link_States} {base rev : Bool}

theorem relax_edge_bag (g : Flow_Graph) (e : Flow_Edge) :
    (relax_edge ls base rev g e).bag_of_edges = g.bag_of_edges := by
  unfold relax_edge
  split
  · rfl
  · split <;> rfl

theorem relax_edges_bag (g : Flow_Graph) :
    (relax_edges tp ls base rev g).bag_of_edges = g.bag_of_edges := by
  have hfold : ∀ (es : List Flow_Edge) (g' : Flow_Graph),
      (es.foldl (relax_edge ls base rev) g').bag_of_edges =
        g'.bag_of_edges := by
    intro es
    induction es with
    | nil => exact fun _ => rfl
    | cons e es ih =>
      intro g'
      rw [foldl_cons, ih, relax_edge_bag]
  exact hfold _ _

theorem relax_rounds_bag (n : ℕ) (g : Flow_Graph) :
    (relax_rounds tp ls base rev n g).bag_of_edges = g.bag_of_edges := by
  induction n generalizing g with
  | zero => rfl
  | succ n ih =>
    rw [relax_rounds]
    split
    · rw [ih, relax_edges_bag]
    · exact relax_edges_bag g

/-- A loop that stopped early would have found the same with any number of rounds from
the number of paths found upwards: the failing round leaves the bag alone. -/
theorem find_paths_stop {dest_id k found : ℕ} {g g' : Flow_Graph}
    (h : find_paths tp ls base rev dest_id k g = some (found, g'))
    (hlt : found < k) {i : ℕ} (hi : found ≤ i) :
    ∃ g'', find_paths tp ls base rev dest_id i g = some (found, g'') ∧
      g''.bag_of_edges = g'.bag_of_edges := by
  induction k generalizing found g i with
  | zero => exact absurd hlt (Nat.not_lt_zero _)
  | succ k ih =>
    rw [find_paths] at h
    have hbag : ((relax_rounds tp ls base rev (tp.Num_Nodes * 2 + 1)
        (init_graph tp g))).bag_of_edges = g.bag_of_edges := relax_rounds_bag _ _
    dsimp only at h
    by_cases hneg : (relax_rounds tp ls base rev (tp.Num_Nodes * 2 + 1)
        (init_graph tp g)).progress = true
    · rw [if_pos hneg] at h
      cases h
    rw [if_neg hneg] at h
    by_cases hdest : dest_id ∉ tp.nodes
    · rw [if_pos hdest] at h
      cases h
    rw [if_neg hdest] at h
    by_cases hinf : (relax_rounds tp ls base rev (tp.Num_Nodes * 2 + 1)
        (init_graph tp g)).distance (Flow_Nodes_Inbound dest_id) = USHRT_MAX
    · rw [if_pos hinf] at h
      obtain ⟨rfl, rfl⟩ := Prod.mk.inj (some.inj h)
      cases i with
      | zero => exact ⟨g, rfl, hbag.symm⟩
      | succ i =>
        refine ⟨_, ?_, rfl⟩
        rw [find_paths]
        rw [if_neg hneg, if_neg hdest, if_pos hinf]
    rw [if_neg hinf] at h
    obtain ⟨g1, haug, h⟩ := bind_eq_some_iff.mp h
    obtain ⟨⟨found', g2⟩, hfind, h⟩ := bind_eq_some_iff.mp h
    obtain ⟨rfl, rfl⟩ := Prod.mk.inj (some.inj h)
    -- the first round succeeds, whatever follows it
    obtain ⟨i, rfl⟩ : ∃ i', i = i' + 1 := ⟨i - 1, by omega⟩
    obtain ⟨g3, hfind', hbag'⟩ := ih hfind (by omega) (show found' ≤ i by omega)
    refine ⟨g3, ?_, hbag'⟩
    rw [find_paths]
    rw [if_neg hneg, if_neg hdest, if_neg hinf, haug]
    simp only [bind_eq_bind, bind_some, hfind']

theorem MultiPath_Compute_stop {dest_id k found mask : ℕ}
    (h : MultiPath_Compute tp ls base rev dest_id k = some (found, mask))
    (hlt : found < k) {i : ℕ} (hi : found ≤ i) :
    MultiPath_Compute tp ls base rev dest_id i = some (found, mask) := by
  unfold MultiPath_Compute at h ⊢
  by_cases hself : dest_id = tp.My_ID
  · rw [if_pos hself] at h
    obtain ⟨rfl, -⟩ := Prod.mk.inj (some.inj h)
    exact absurd hlt (lt_irrefl _)
  rw [if_neg hself] at h ⊢
  obtain ⟨⟨found', g⟩, hfind, h⟩ := bind_eq_some_iff.mp h
  obtain ⟨rfl, rfl⟩ := Prod.mk.inj (some.inj h)
  obtain ⟨g', hfind', hbag⟩ := find_paths_stop hfind hlt hi
  simp only [bind_eq_bind, hfind', bind_some, hbag]

end Stop

/-! ## 6. Entries are fresh -/

/-- The mask is what `MultiPath_Compute` returns for the costs as they are. -/
def Fresh (site : Site) (w : Cached) (dest_id k mask : ℕ) : Prop :=
  ∃ found, w.MultiPath_Compute site dest_id k = some (found, mask)

def Coherent (site : Site) (w : Cached) : Prop :=
  ∀ d j mask, w.MP_Cache d j = some mask → Fresh site w d j mask

def Described (site : Site) (w : Cached) (dest_id k mask : ℕ) : Prop :=
  if k = 0 then mask = site.flooding_mask
  else if k = DG_K_FLAG then
    match (w.dg.dsts dest_id).current_graph_type with
    | .src => mask = site.static_mask dest_id .src
    | .dst => mask = site.static_mask dest_id .dst
    | .k2 => Fresh site w dest_id 2 mask
    | .src_dst => ∃ paths, Fresh site w dest_id 2 paths ∧
        mask = paths ||| site.static_mask dest_id .src_dst
    | .none => Fresh site w dest_id 2 mask
  else Fresh site w dest_id (min k MULTIPATH_MAX_K) mask

section Coherence

variable {site : Site} {w w' : Cached} {dest_id k mask : ℕ}

theorem Coherent.cleared : Coherent site (MultiPath_Clear_Cache w) :=
  fun _ _ _ h => (by cases h)

theorem Coherent.congr (h : Coherent site w) (hcache : w'.MP_Cache = w.MP_Cache)
    (hlinks : w'.link_states site = w.link_states site) : Coherent site w' := by
  intro d j mask hm
  rw [hcache] at hm
  unfold Fresh Cached.MultiPath_Compute
  rw [hlinks]
  exact h d j mask hm

theorem Coherent.set_row {row : ℕ → Option ℕ} (h : Coherent site w)
    (hrow : ∀ j mask, row j = some mask → Fresh site w dest_id j mask) :
    Coherent site (set_row dest_id row w) := by
  intro d j mask hm
  by_cases hd : d = dest_id
  · subst hd
    have hj : row j = some mask := by
      simpa only [MultiPath.set_row, update_self] using hm
    exact hrow j mask hj
  · have hj : w.MP_Cache d j = some mask := by
      simpa only [MultiPath.set_row, update_of_ne hd] using hm
    exact h d j mask hj

theorem copy_mask_some {ret i m : ℕ} {row : ℕ → Option ℕ}
    (h : copy_mask k ret mask row i = some m) : row i = some m ∨ (ret ≤ i ∧ m = mask) := by
  unfold copy_mask at h
  have hfold : ∀ (is : List ℕ), (∀ j ∈ is, ret ≤ j) → ∀ row : ℕ → Option ℕ,
      is.foldl (fun row i => if i = k then row else update row i (some mask)) row i =
        some m → row i = some m ∨ (ret ≤ i ∧ m = mask) := by
    intro is
    induction is with
    | nil => exact fun _ _ h => .inl h
    | cons j is ih =>
      intro his row h
      rw [foldl_cons] at h
      obtain h | h := ih (fun j' hj' => his j' (mem_cons_of_mem _ hj')) _ h
      · by_cases hj : j = k
        · rw [if_pos hj] at h
          exact .inl h
        rw [if_neg hj] at h
        by_cases hij : i = j
        · subst hij
          rw [update_self] at h
          exact .inr ⟨his i mem_cons_self, (some.inj h).symm⟩
        · rw [update_of_ne hij] at h
          exact .inl h
      · exact .inr h
  exact hfold _ (fun j hj => (mem_range'_1.mp hj).1) row h

theorem stamp_two_paths_spec (h : Coherent site w)
    (hs : stamp_two_paths site dest_id w = some (mask, w')) :
    Coherent site w' ∧ Fresh site w dest_id 2 mask ∧ ∃ c, w' = { w with MP_Cache := c } := by
  unfold stamp_two_paths at hs
  split at hs
  · rename_i m hm
    obtain ⟨rfl, rfl⟩ := Prod.mk.inj (some.inj hs)
    exact ⟨h, h _ _ _ hm, w.MP_Cache, rfl⟩
  · obtain ⟨⟨found, m⟩, hc, hs⟩ := bind_eq_some_iff.mp hs
    obtain ⟨rfl, rfl⟩ := Prod.mk.inj (some.inj hs)
    refine ⟨h.set_row ?_, ⟨found, hc⟩, _, rfl⟩
    intro j m hj
    by_cases h2 : j = 2
    · subst h2
      rw [update_self] at hj
      obtain rfl := some.inj hj
      exact ⟨found, hc⟩
    · rw [update_of_ne h2] at hj
      exact h _ _ _ hj

theorem stamp_k_paths_spec (h : Coherent site w)
    (hs : stamp_k_paths site dest_id k w = some (mask, w')) :
    Coherent site w' ∧ Fresh site w dest_id k mask ∧ ∃ c, w' = { w with MP_Cache := c } := by
  unfold stamp_k_paths at hs
  split at hs
  · rename_i m hm
    obtain ⟨rfl, rfl⟩ := Prod.mk.inj (some.inj hs)
    exact ⟨h, h _ _ _ hm, w.MP_Cache, rfl⟩
  obtain ⟨⟨ret, m⟩, hc, hs⟩ := bind_eq_some_iff.mp hs
  obtain ⟨rfl, rfl⟩ := Prod.mk.inj (some.inj hs)
  have hrow : ∀ j m', update (w.MP_Cache dest_id) k (some m) j = some m' →
      Fresh site w dest_id j m' := by
    intro j m' hj
    by_cases hjk : j = k
    · subst hjk
      rw [update_self] at hj
      obtain rfl := some.inj hj
      exact ⟨ret, hc⟩
    · rw [update_of_ne hjk] at hj
      exact h _ _ _ hj
  refine ⟨h.set_row ?_, ⟨ret, hc⟩, _, rfl⟩
  intro j m' hj
  split at hj
  · rename_i hret
    obtain hj | ⟨hle, rfl⟩ := copy_mask_some hj
    · exact hrow j m' hj
    · exact ⟨ret, MultiPath_Compute_stop hc hret.2 hle⟩
  · exact hrow j m' hj

theorem stamp_graph_spec (h : Coherent site w) (hs : stamp_graph site dest_id w = some (mask, w')) :
    Coherent site w' ∧ Described site w dest_id DG_K_FLAG mask ∧
      ∃ c, w' = { w with MP_Cache := c } := by
  have hflag : DG_K_FLAG ≠ 0 := by decide
  unfold Described
  rw [if_neg hflag, if_pos rfl]
  unfold stamp_graph at hs
  split at hs
  · obtain ⟨rfl, rfl⟩ := Prod.mk.inj (some.inj hs)
    exact ⟨h, rfl, w.MP_Cache, rfl⟩
  · obtain ⟨rfl, rfl⟩ := Prod.mk.inj (some.inj hs)
    exact ⟨h, rfl, w.MP_Cache, rfl⟩
  · exact stamp_two_paths_spec h hs
  · obtain ⟨⟨paths, w1⟩, htwo, hs⟩ := bind_eq_some_iff.mp hs
    obtain ⟨rfl, rfl⟩ := Prod.mk.inj (some.inj hs)
    obtain ⟨hcoh, hfresh, hcache⟩ := stamp_two_paths_spec h htwo
    exact ⟨hcoh, ⟨paths, hfresh, rfl⟩, hcache⟩
  · exact stamp_k_paths_spec h hs

theorem MultiPath_Stamp_Bitmask_spec {r : Option ℕ} (h : Coherent site w)
    (hs : MultiPath_Stamp_Bitmask site dest_id k w = some (r, w')) :
    Coherent site w' ∧ (∀ mask ∈ r, Described site w dest_id k mask) ∧
      ∃ c, w' = { w with MP_Cache := c } := by
  unfold MultiPath_Stamp_Bitmask at hs
  by_cases hbad : (dest_id = 0 ∧ k > 0) ∨ dest_id > MAX_NODES
  · rw [if_pos hbad] at hs
    obtain ⟨rfl, rfl⟩ := Prod.mk.inj (some.inj hs)
    exact ⟨h, fun _ hm => (by cases hm), w.MP_Cache, rfl⟩
  rw [if_neg hbad] at hs
  dsimp only at hs
  by_cases hk : k = 0
  · subst hk
    obtain ⟨rfl, rfl⟩ := Prod.mk.inj (some.inj hs)
    refine ⟨h, ?_, w.MP_Cache, rfl⟩
    rintro _ ⟨⟩
    rfl
  by_cases hflag : k = DG_K_FLAG
  · subst hflag
    have hclamp : (if DG_K_FLAG > MULTIPATH_MAX_K ∧ DG_K_FLAG ≠ DG_K_FLAG then MULTIPATH_MAX_K
        else DG_K_FLAG) = DG_K_FLAG := if_neg (fun hc => hc.2 rfl)
    rw [hclamp, if_neg hk, if_pos rfl] at hs
    obtain ⟨⟨m, w1⟩, hgraph, hs⟩ := map_eq_some_iff.mp hs
    obtain ⟨rfl, rfl⟩ := Prod.mk.inj hs
    obtain ⟨hcoh, hdesc, hcache⟩ := stamp_graph_spec h hgraph
    refine ⟨hcoh, ?_, hcache⟩
    rintro _ ⟨⟩
    exact hdesc
  have hmin : (if k > MULTIPATH_MAX_K ∧ k ≠ DG_K_FLAG then MULTIPATH_MAX_K else k) =
      min k MULTIPATH_MAX_K := by
    split
    · omega
    · omega
  have hmax : MULTIPATH_MAX_K < DG_K_FLAG := by decide
  have hpos : 0 < MULTIPATH_MAX_K := by decide
  rw [hmin, if_neg (by omega), if_neg (by omega)] at hs
  obtain ⟨⟨m, w1⟩, hpaths, hs⟩ := map_eq_some_iff.mp hs
  obtain ⟨rfl, rfl⟩ := Prod.mk.inj hs
  obtain ⟨hcoh, hfresh, hcache⟩ := stamp_k_paths_spec h hpaths
  refine ⟨hcoh, ?_, hcache⟩
  rintro _ ⟨⟩
  unfold Described
  rw [if_neg hk, if_neg hflag]
  exact hfresh

/-! ## 7. Every store empties the cache -/

theorem cell_edge_spec (source dest : ℕ) :
    (cell_edge source dest w).2.MP_Cache = w.MP_Cache ∧
      (cell_edge source dest w).2.link_states site = w.link_states site := by
  unfold cell_edge
  split
  · exact ⟨rfl, rfl⟩
  · rename_i hnone
    refine ⟨rfl, ?_⟩
    -- the created edge has the cost -1, and so has an edge that is not there
    unfold Cached.link_states
    congr 1
    funext s d
    by_cases hs : site.dg.id_to_addr s = source
    · by_cases hd : site.dg.id_to_addr d = dest
      · simp only [set_edge, hs, hd, update_self, hnone]
        rfl
      · simp only [set_edge, hs, update_self, update_of_ne hd]
    · simp only [set_edge, update_of_ne hs]

theorem Edge_Process_state_cell_coherent {source dest : ℕ} {cost : Int16} (h : Coherent site w)
    (hs : Edge_Process_state_cell site source dest cost w = some w') : Coherent site w' := by
  obtain ⟨hcache, hlinks⟩ := @cell_edge_spec site w source dest
  unfold Edge_Process_state_cell at hs
  dsimp only at hs
  split at hs
  · obtain ⟨w1, -, hs⟩ := bind_eq_some_iff.mp hs
    obtain rfl := some.inj hs
    exact Coherent.cleared
  · obtain rfl := some.inj hs
    exact h.congr hcache hlinks

theorem Network_Leg_Set_Cost_coherent {id : ℕ} {leg : Network_Leg} {cost : Int16}
    (h : Coherent site w) (hs : Network_Leg_Set_Cost site id leg cost w = some w') :
    Coherent site w' := by
  unfold Network_Leg_Set_Cost at hs
  split at hs
  · cases hs
  split at hs
  · obtain rfl := some.inj hs
    exact h
  · obtain ⟨e, -, hs⟩ := bind_eq_some_iff.mp hs
    obtain ⟨w1, -, hs⟩ := bind_eq_some_iff.mp hs
    obtain rfl := some.inj hs
    exact Coherent.cleared

theorem Apply_Link_Status_Change_coherent {ID1 ID2 : ℕ} {cost : Int16} (h : Coherent site w) :
    Coherent site (Apply_Link_Status_Change site ID1 ID2 cost w) := by
  unfold Apply_Link_Status_Change
  dsimp only
  generalize (if site.tp.Directed_Edges = false ∧ ID1 > ID2 then site.ref_cost ID2 ID1
    else site.ref_cost ID1 ID2) = ref_cost
  split
  · exact h
  split
  · exact h
  split
  · exact h
  split
  · exact h
  · exact Coherent.cleared

theorem Coherent.next {e : Event} (h : Coherent site w) (hs : w.next site e = some w') :
    Coherent site w' := by
  cases e with
  | stamp dest_id k =>
    obtain ⟨⟨r, w1⟩, hstamp, rfl⟩ := map_eq_some_iff.mp hs
    exact (MultiPath_Stamp_Bitmask_spec h hstamp).1
  | edge_cell source dest cost => exact Edge_Process_state_cell_coherent h hs
  | leg_cost id cost =>
    obtain ⟨leg, -, hs⟩ := bind_eq_some_iff.mp hs
    exact Network_Leg_Set_Cost_coherent h hs
  | link_status ID1 ID2 cost =>
    obtain rfl := some.inj hs
    exact Apply_Link_Status_Change_coherent h
  | leg_new id src_id dst_id =>
    obtain rfl := some.inj hs
    exact h.congr rfl rfl
  | leg_status id status =>
    obtain ⟨leg, -, hs⟩ := bind_eq_some_iff.mp hs
    obtain rfl := some.inj hs
    exact h.congr rfl rfl

end Coherence

/-- In every state a run reaches, what the cache holds is what a fresh computation for the
costs of that state returns, and so is what is stamped there. -/
theorem path_cache_coherent (site : Site) (All_Edges : ℕ → ℕ → Option Stored_Edge) (w : Cached)
    (hrun : Run (Cached.step site) (Cached.init site All_Edges) w) :
    (∀ d j mask, w.MP_Cache d j = some mask →
      ∃ found, w.MultiPath_Compute site d j = some (found, mask)) ∧
    ∀ d k mask w', MultiPath_Stamp_Bitmask site d k w = some (some mask, w') →
      Described site w d k mask ∧ Described site w' d k mask := by
  have hcoh : Coherent site w :=
    hrun.invariant (Coherent site) (fun _ _ _ h => (by cases h)) (fun _ _ _ h hs => h.next hs)
  refine ⟨hcoh, ?_⟩
  intro d k mask w' hs
  obtain ⟨-, hdesc, c, rfl⟩ := MultiPath_Stamp_Bitmask_spec hcoh hs
  exact ⟨hdesc mask rfl, hdesc mask rfl⟩

/-! ### Two nodes -/

def two_nodes : Site :=
  { tp :=
      { My_ID := 1
        nodes := [1, 2]
        Sorted_Edges := [(1, 2)]
        Directed_Edges := false
        nodes_sorted := by decide
        nodes_range := by decide
        my_id_mem := by decide
        edges_sorted := pairwise_singleton _ _
        ends := by decide
        undirected := by decide
        directed := fun h => (by cases h) }
    dg :=
      { my_id := 1
        problem_route := true
        directed_edges := false
        nodes := [1, 2]
        id_to_addr := fun i => i
        addr_to_id := fun a => if a ∈ [1, 2] then some a else none
        sorted_edges := [(⟨1, 2⟩, 0)]
        bitmasks := fun _ _ => [] }
    My_Address := 1
    ref_cost := fun _ _ => 10
    MultiPath_Bitmask_Size := 8
    my_id := rfl
    nodes := rfl
    directed := rfl }

def two_nodes_events : List Event :=
  [.stamp 2 3, .leg_new 0 1 2, .leg_status 0 .CONNECTED_LEG, .leg_cost 0 20, .stamp 2 3]

attribute [local instance] pair_lawfulBEq in
def two_nodes_edges (src_id dst_id : ℕ) : Option Stored_Edge :=
  if (src_id, dst_id) ∈ [(1, 2), (2, 1)] then some ⟨-1, 10, 0⟩ else none

theorem path_cache_coherent_two_nodes :
    ∃ w, Run (Cached.step two_nodes) (Cached.init two_nodes two_nodes_edges) w ∧
      w.MP_Cache 2 4 = some 1 ∧ ∃ found, w.MultiPath_Compute two_nodes 2 4 = some (found, 1) := by
  have hplay : ((two_nodes_events.foldlM (Cached.next two_nodes)
      (Cached.init two_nodes two_nodes_edges)).any fun w => w.MP_Cache 2 4 = some 1) = true := by
    decide +kernel
  obtain ⟨w, hw, hmask⟩ := (any_eq_true _ _).mp hplay
  have hmask : w.MP_Cache 2 4 = some 1 := of_decide_eq_true hmask
  have hrun : Run (Cached.step two_nodes) (Cached.init two_nodes two_nodes_edges) w :=
    Run.of_foldlM hw
  exact ⟨w, hrun, hmask, (path_cache_coherent two_nodes two_nodes_edges w hrun).1 2 4 1 hmask⟩

end Spines.MultiPath
