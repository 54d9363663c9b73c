/-
`daemon/route.c`, `daemon/multicast.c`: the answers to a client's traces.

`Trace_Route` asks for the route between two nodes and means to fill in the answer by
following it when there is one; it tests for the opposite. For two known nodes the answer is
always empty, and the branch that follows a route is entered without one
(`trace_route_known`, `trace_route_unknown`). The recursion that nobody reaches does not follow
a path either: the node in the middle of a single edge is the source itself, and the right half
is the question asked (`trace_route_rcrsv_edge`).

An answer has room for `MAX_COUNT` nodes. `Get_Group_Members` stops when it is full;
`Trace_Group` writes one entry for every node it can reach.
-/
import Spines.Routing.Multicast

set_option autoImplicit false

namespace Spines.Routing.Trace

open Spines.Lib Option List Function

/-! ## 1. `Trace_Route` -/

def MAX_COUNT : Nat := 64

inductive Fault where
  /-- a route that is not there is read -/
  | null
  | out_of_bounds
  | exit
  | depth
  deriving DecidableEq, Repr

structure spines_trace where
  count : Nat
  address : Nat → Node_ID
  distance : Nat → Int
  cost : Nat → Int

/-- Entry `i` of an answer is written. -/
def spines_trace.put (spines_tr : spines_trace) (i : Nat) (address : Node_ID)
    (distance cost : Int) : Except Fault spines_trace :=
  if i < MAX_COUNT then
    .ok { spines_tr with
      address := update spines_tr.address i address
      distance := update spines_tr.distance i distance
      cost := update spines_tr.cost i cost }
  else .error .out_of_bounds

def follow : Option Route → Except Fault Route
  | none => .error .null
  | some route => .ok route

def Trace_Route_Rcrsv (rr : Routing_Regime) :
    Nat → Node_ID → Node_ID → spines_trace → Nat → Except Fault (Nat × spines_trace)
  | 0, _, _, _, _ => .error .depth
  | depth + 1, src_id, dst_id, spines_tr, i =>
    if src_id = dst_id ∨ i = MAX_COUNT then .ok (i, spines_tr)
    else
      match RR_Find_Route rr src_id dst_id with
      | none => .error .exit
      | some route =>
        if route.predecessor = 0 then .error .exit
        else do
          let (i, spines_tr) ← Trace_Route_Rcrsv rr depth src_id route.predecessor spines_tr i
          let spines_tr ← spines_tr.put i route.predecessor route.distance route.cost
          Trace_Route_Rcrsv rr depth route.predecessor dst_id spines_tr (i + 1)

/-- `Trace_Route`, with `depth` nested calls at most. -/
def Trace_Route (rr : Routing_Regime) (depth : Nat) (src_id dst_id : Node_ID)
    (spines_tr : spines_trace) : Except Fault spines_trace :=
  let route := RR_Find_Route rr src_id dst_id
  if route = none then do
    let something_to_trace ←
      if src_id ≠ dst_id then (follow route).map (decide <| ·.predecessor ≠ 0) else .ok false
    if something_to_trace then
      let (count, spines_tr) ← Trace_Route_Rcrsv rr depth src_id dst_id spines_tr 0
      .ok { spines_tr with count := count }
    else
      -- loop back or no route
      let rt ← follow route
      let spines_tr ← spines_tr.put 0 src_id rt.distance rt.cost
      .ok { spines_tr with count := 1 }
  else .ok { spines_tr with count := 0 }

/-! ## 2. Traces of a group -/

def member_entry (d : Daemon) (g_state : Group_State) : Option (Int × Int) :=
  if g_state.active then
    if g_state.node_nid = d.My_Address then some (0, 0)
    else
      match RR_Find_Route d.Current_Routing d.My_Address g_state.node_nid with
      | none => none
      | some route =>
        if 0 ≤ route.distance ∧ 0 ≤ route.cost then some (route.distance, route.cost) else none
  else none

def add_member (d : Daemon) (g_state : Group_State) (i : Nat) (spines_tr : spines_trace) :
    Except Fault (Nat × spines_trace) :=
  match member_entry d g_state with
  | none => .ok (i, spines_tr)
  | some (distance, cost) =>
    (spines_tr.put i g_state.node_nid distance cost).map fun spines_tr => (i + 1, spines_tr)

/-- The loop of `Get_Group_Members`. -/
def scan_members (d : Daemon) :
    List Group_State → Nat → spines_trace → Except Fault (Nat × spines_trace)
  | [], i, spines_tr => .ok (i, spines_tr)
  | g_state :: states, i, spines_tr => do
    let (i, spines_tr) ← add_member d g_state i spines_tr
    if i = MAX_COUNT then .ok (i, spines_tr) else scan_members d states i spines_tr

def Get_Group_Members (d : Daemon) (mcast_address : Group_ID) (spines_tr : spines_trace) :
    Except Fault (Bool × spines_trace) :=
  match d.All_Groups_by_Name mcast_address with
  | none => .ok (false, spines_tr)
  | some states => do
    let (i, spines_tr) ← scan_members d states 0 spines_tr
    .ok (true, { spines_tr with count := i })

def is_reachable (d : Daemon) (nid : Node_ID) : Bool :=
  nid = d.My_Address ∨ (RR_Get_Next_Hop d.Current_Routing d.My_Address nid).isSome

def current_ed (d : Daemon) (spt : spines_trace) (nid : Node_ID) : Int :=
  (range spt.count).foldl (fun ed j =>
    match RR_Find_Route d.Current_Routing nid (spt.address j) with
    | none => ed
    | some route =>
      if 0 ≤ route.distance ∧ 0 ≤ route.cost ∧ ed < route.distance then route.distance else ed) 0

/-- The loop of `Trace_Group` over `All_Nodes`. -/
def scan_nodes (d : Daemon) (spt : spines_trace) :
    List Node_ID → Nat → spines_trace → Except Fault (Nat × spines_trace)
  | [], i, spines_tr => .ok (i, spines_tr)
  | nid :: nodes, i, spines_tr =>
    if is_reachable d nid then do
      let spines_tr ← spines_tr.put i nid (current_ed d spt nid) 0
      scan_nodes d spt nodes (i + 1) spines_tr
    else scan_nodes d spt nodes i spines_tr

/-- `Trace_Group`; `All_Nodes` is a hash, given in the order it enumerates. -/
def Trace_Group (d : Daemon) (All_Nodes : List Node_ID) (mcast_address : Group_ID)
    (spines_tr : spines_trace) : Except Fault spines_trace := do
  let (_, spt) ← Get_Group_Members d mcast_address
    { count := 0, address := fun _ => 0, distance := fun _ => 0, cost := fun _ => 0 }
  let (i, spines_tr) ← scan_nodes d spt All_Nodes 0 spines_tr
  .ok { spines_tr with count := i }

/-! ## 3. Traces of a route -/

section Pairs

variable {net : Network} {me src dst : Node_ID} {rr : Routing_Regime} {tr : spines_trace}

theorem put_ok (tr : spines_trace) {i : Nat} (h : i < MAX_COUNT) (nid : Node_ID) (distance cost : Int) :
    ∃ tr', tr.put i nid distance cost = .ok tr' :=
  ⟨_, if_pos h⟩

theorem find_route_isSome (hids : rr.Node_IDs = net.All_Nodes_by_ID) :
    (RR_Find_Route rr src dst).isSome ↔ src ∈ net.All_Nodes_by_ID ∧ dst ∈ net.All_Nodes_by_ID := by
  constructor
  · intro h
    obtain ⟨rt, hrt⟩ := isSome_iff_exists.mp h
    obtain ⟨i, hi, hrt⟩ := bind_eq_some_iff.mp hrt
    obtain ⟨j, hj, -⟩ := bind_eq_some_iff.mp hrt
    rw [RR_Get_Node_Index, hids] at hi hj
    obtain ⟨hilt, hsrc, -⟩ := idxOf?_eq_some_iff.mp hi
    obtain ⟨hjlt, hdst, -⟩ := idxOf?_eq_some_iff.mp hj
    exact ⟨hsrc ▸ getElem_mem hilt, hdst ▸ getElem_mem hjlt⟩
  · rintro ⟨hs, hd⟩
    obtain ⟨i, hi, -⟩ := index_of_mem hids hs
    obtain ⟨j, hj, -⟩ := index_of_mem hids hd
    simp [RR_Find_Route, hi, hj]

theorem rr_init_ids (hrun : RR_Init me net = some rr) : rr.Node_IDs = net.All_Nodes_by_ID := by
  have hkeep {α : Type} {f : Routing_Regime → α → Option Routing_Regime} {l : List α}
      {r r' : Routing_Regime}
      (hf : ∀ r a r', f r a = some r' → r'.Node_IDs = r.Node_IDs)
      (h : l.foldlM f r = some r') : r'.Node_IDs = r.Node_IDs :=
    (Run.of_foldlM h).invariant (fun t => t.Node_IDs = r.Node_IDs) rfl
      (fun t a t' ht hstep => (hf t a t' hstep).trans ht)
  obtain ⟨rr0, hfill, hrounds⟩ := bind_eq_some_iff.mp hrun
  have hfilled : rr0.Node_IDs = net.All_Nodes_by_ID := by
    refine hkeep (r := blank_routes net) (fun r e r' h => ?_) hfill
    unfold fill_edge at h
    split at h
    · obtain rfl := some.inj h
      rfl
    · obtain ⟨i, -, h⟩ := bind_eq_some_iff.mp h
      obtain ⟨j, -, h⟩ := bind_eq_some_iff.mp h
      obtain rfl := some.inj h
      rfl
  refine (hkeep (fun r k r' h => ?_) hrounds).trans hfilled
  refine hkeep (fun r i r' h => ?_) h
  unfold relax_row at h
  split at h
  · obtain rfl := some.inj h
    rfl
  · refine hkeep (fun r j r' h => ?_) h
    unfold relax_route at h
    dsimp only at h
    split at h
    · obtain rfl := some.inj h
      rfl
    · obtain ⟨sum, -, h⟩ := bind_eq_some_iff.mp h
      split at h
      all_goals
        obtain rfl := some.inj h
        rfl

theorem trace_route_known (h : (RR_Find_Route rr src dst).isSome) (depth : Nat) :
    Trace_Route rr depth src dst tr = .ok { tr with count := 0 } := by
  obtain ⟨rt, hrt⟩ := isSome_iff_exists.mp h
  simp [Trace_Route, hrt]

theorem trace_route_unknown (h : RR_Find_Route rr src dst = none) (depth : Nat) :
    Trace_Route rr depth src dst tr = .error .null := by
  unfold Trace_Route
  rw [h]
  by_cases hne : src ≠ dst
  · simp only [if_pos hne]
    rfl
  · simp only [if_neg hne]
    rfl

/-- A truthful answer: the nodes of the chosen path in its order, as far as there is room, and
nothing for a node that is not known. -/
structure Traced (net : Network) (src dst : Node_ID) (spines_tr : spines_trace) : Prop where
  path : ∀ p, src ≠ dst → net.chosen_path src dst = some p →
    (range spines_tr.count).map spines_tr.address = p.take MAX_COUNT
  unknown : src ∉ net.All_Nodes_by_ID ∨ dst ∉ net.All_Nodes_by_ID → spines_tr.count = 0

theorem traced_iff (hids : rr.Node_IDs = net.All_Nodes_by_ID) :
    (∃ depth tr', Trace_Route rr depth src dst tr = .ok tr' ∧
      Traced net src dst tr') ↔
    src ∈ net.All_Nodes_by_ID ∧ dst ∈ net.All_Nodes_by_ID ∧
      (src = dst ∨ net.chosen_path src dst = none) := by
  have hknown : (RR_Find_Route rr src dst).isSome ↔ _ := find_route_isSome hids
  constructor
  · rintro ⟨depth, tr', hrun, htraced⟩
    have hsome : (RR_Find_Route rr src dst).isSome := by
      by_contra hnone
      rw [not_isSome_iff_eq_none] at hnone
      rw [trace_route_unknown hnone] at hrun
      cases hrun
    rw [trace_route_known hsome] at hrun
    obtain rfl := Except.ok.inj hrun
    refine ⟨(hknown.mp hsome).1, (hknown.mp hsome).2, or_iff_not_imp_left.mpr (fun hne => ?_)⟩
    cases hp : net.chosen_path src dst with
    | none => rfl
    | some p =>
      -- the answer is empty and a path is not
      have hpath := (chosen_path_exact net).path hp
      have hempty := htraced.path p hne hp
      cases hpath <;> simp [MAX_COUNT] at hempty
  · rintro ⟨hs, hd, hnothing⟩
    refine ⟨0, _, trace_route_known (hknown.mpr ⟨hs, hd⟩) 0, ?_, fun _ => rfl⟩
    intro p hne hp
    obtain heq | hnone := hnothing
    · exact absurd heq hne
    · rw [hnone] at hp
      cases hp

end Pairs

/-! ## 4. Traces of a group -/

section Groups

variable {net : Network} {me nid : Node_ID} {d : Daemon} {spt tr : spines_trace}
  {g : Group_ID}

theorem add_member_ok (d : Daemon) (g_state : Group_State) {i : Nat} (hi : i < MAX_COUNT)
    (tr : spines_trace) :
    ∃ i' tr', add_member d g_state i tr = .ok (i', tr') ∧ i' ≤ MAX_COUNT := by
  unfold add_member
  cases member_entry d g_state with
  | none => exact ⟨i, tr, rfl, by omega⟩
  | some entry =>
    obtain ⟨tr', hput⟩ := put_ok tr hi g_state.node_nid
      entry.1 entry.2
    refine ⟨i + 1, tr', ?_, hi⟩
    simp only [hput]
    rfl

theorem scan_members_ok (d : Daemon) (states : List Group_State) {i : Nat} (hi : i < MAX_COUNT)
    (tr : spines_trace) :
    ∃ count tr', scan_members d states i tr = .ok (count, tr') ∧
      count ≤ MAX_COUNT := by
  induction states generalizing i tr with
  | nil => exact ⟨i, tr, rfl, by omega⟩
  | cons g_state states ih =>
    rw [scan_members]
    obtain ⟨i', tr', hhead, hi'⟩ := add_member_ok d g_state hi tr
    rw [hhead]
    by_cases hfull : i' = MAX_COUNT
    · exact ⟨i', tr', if_pos hfull, hi'⟩
    · obtain ⟨count, final, hrest, hcount⟩ := ih (i := i') (by omega) tr'
      exact ⟨count, final, (if_neg hfull).trans hrest, hcount⟩

theorem get_group_members_ok (d : Daemon) (g : Group_ID) (tr : spines_trace) :
    ∃ answer, Get_Group_Members d g tr = .ok answer := by
  unfold Get_Group_Members
  cases d.All_Groups_by_Name g with
  | none => exact ⟨_, rfl⟩
  | some states =>
    obtain ⟨count, tr', hscan, -⟩ := scan_members_ok d states (i := 0) (by decide) tr
    dsimp only
    rw [hscan]
    exact ⟨_, rfl⟩

theorem scan_nodes_iff (tr : spines_trace) (nodes : List Node_ID) {i : Nat}
    (hi : i ≤ MAX_COUNT) : (∃ answer, scan_nodes d spt nodes i tr = .ok answer) ↔
      i + nodes.countP (is_reachable d) ≤ MAX_COUNT := by
  induction nodes generalizing i tr with
  | nil => simpa [scan_nodes] using hi
  | cons nid nodes ih =>
    rw [scan_nodes]
    by_cases hreach : is_reachable d nid
    · rw [if_pos hreach, countP_cons_of_pos hreach]
      by_cases hroom : i < MAX_COUNT
      · obtain ⟨tr', hput⟩ := put_ok tr hroom nid
          (current_ed d spt nid) 0
        have hrest := ih tr' (i := i + 1) hroom
        rw [hput]
        refine hrest.trans ?_
        omega
      · have hput : tr.put i nid (current_ed d spt nid) 0 = .error .out_of_bounds :=
          if_neg hroom
        rw [hput]
        constructor
        · rintro ⟨answer, h⟩
          cases h
        · omega
    · rw [if_neg hreach, countP_cons_of_neg hreach]
      exact ih tr hi

theorem scan_nodes_fault {e : Fault} (nodes : List Node_ID) {i : Nat}
    (h : scan_nodes d spt nodes i tr = .error e) : e = .out_of_bounds := by
  induction nodes generalizing i tr with
  | nil => cases h
  | cons nid nodes ih =>
    rw [scan_nodes] at h
    split at h
    · by_cases hroom : i < MAX_COUNT
      · obtain ⟨tr', hput⟩ := put_ok tr hroom nid
          (current_ed d spt nid) 0
        rw [hput] at h
        exact ih h
      · rw [spines_trace.put, if_neg hroom] at h
        cases h
        rfl
    · exact ih h

theorem trace_group_iff (nodes : List Node_ID) :
    Trace_Group d nodes g tr ≠ .error .out_of_bounds ↔
      nodes.countP (is_reachable d) ≤ MAX_COUNT := by
  obtain ⟨⟨known, spt⟩, hmembers⟩ := get_group_members_ok d g
    { count := 0, address := fun _ => 0, distance := fun _ => 0, cost := fun _ => 0 }
  have hfits : (∃ answer, scan_nodes d spt nodes 0 tr = .ok answer) ↔
      0 + nodes.countP (is_reachable d) ≤ MAX_COUNT :=
    scan_nodes_iff tr nodes (Nat.zero_le _)
  rw [zero_add] at hfits
  rw [← hfits, Trace_Group, hmembers]
  dsimp only [bind, Except.bind]
  cases hscan : scan_nodes d spt nodes 0 tr with
  | ok answer => simp
  | error e =>
    obtain rfl := scan_nodes_fault nodes hscan
    simp

theorem is_reachable_iff (hloop : ∀ e ∈ net.All_Edges, e.src ≠ e.dst)
    (hrun : RR_Init me net = some d.Current_Routing) (haddr : d.My_Address = me)
    (hme : me ∈ net.All_Nodes_by_ID) (hnid : nid ∈ net.All_Nodes_by_ID) :
    is_reachable d nid ↔ (net.chosen_path me nid).isSome := by
  obtain ⟨hagree, -⟩ := rr_init_defined hloop hrun
  obtain ⟨rt, hfind, hshow⟩ := find_route_agrees hagree hme hnid
  have hT := chosen_path_exact net
  rw [is_reachable, haddr, RR_Get_Next_Hop, hfind, bind_some, decide_eq_true_iff]
  cases hp : net.chosen_path me nid with
  | none =>
    rw [hp] at hshow
    have hself : nid ≠ me := by
      rintro rfl
      obtain ⟨p, hp', -⟩ := hT.best (Path.nil (w := net.weight) nid (S := Set.univ))
      rw [hp] at hp'
      cases hp'
    simp [hshow.2, hself]
  | some p =>
    rw [hp] at hshow
    have hpath := hT.path hp
    rw [hshow.2.2, hpath.next_isSome (hT.nodup hp)]
    have hmem : me ∈ p := by
      cases hpath <;> simp
    simp only [hmem, true_and, isSome_some, iff_true]
    exact (eq_or_ne nid me).imp_right Ne.symm

end Groups

/-! ## 5. When a trace is right -/

section Answers

variable {net : Network} {me : Node_ID} {d : Daemon}

/-- A trace of a route is right for two known nodes with no way to go, and for no others;
an answer about a group overflows when more than `MAX_COUNT` nodes can be reached, and then
only. -/
theorem traces_right (hrun : RR_Init me net = some d.Current_Routing) (src dst : Node_ID)
    (tr : spines_trace) (g : Group_ID) {nodes : List Node_ID}
    (hnodes : nodes.Perm net.All_Nodes_by_ID) :
    ((∃ depth tr', Trace_Route d.Current_Routing depth src dst tr = .ok tr' ∧
        Traced net src dst tr') ↔
      src ∈ net.All_Nodes_by_ID ∧ dst ∈ net.All_Nodes_by_ID ∧
        (src = dst ∨ net.chosen_path src dst = none)) ∧
    (∀ depth, Trace_Route d.Current_Routing depth src dst tr ≠ .error .out_of_bounds) ∧
    (∃ answer, Get_Group_Members d g tr = .ok answer) ∧
    (Trace_Group d nodes g tr ≠ .error .out_of_bounds ↔
      net.All_Nodes_by_ID.countP (is_reachable d) ≤ MAX_COUNT) := by
  refine ⟨traced_iff (rr_init_ids hrun), fun depth => ?_, get_group_members_ok d g tr, ?_⟩
  · cases hfind : RR_Find_Route d.Current_Routing src dst with
    | none => simp [trace_route_unknown hfind]
    | some rt => simp [trace_route_known (by rw [hfind]; rfl)]
  · rw [trace_group_iff, hnodes.countP_eq]

theorem traces_right_line :
    let d := set_up (line_network 2) (far_member 2) 1
    let tr : spines_trace :=
      { count := 0, address := fun _ => 0, distance := fun _ => 0, cost := fun _ => 0 }
    ((∃ depth tr', Trace_Route d.Current_Routing depth 2 1 tr = .ok tr' ∧
        Traced (line_network 2) 2 1 tr') ↔
      2 ∈ (line_network 2).All_Nodes_by_ID ∧ 1 ∈ (line_network 2).All_Nodes_by_ID ∧
        (2 = 1 ∨ (line_network 2).chosen_path 2 1 = none)) ∧
    (∀ depth, Trace_Route d.Current_Routing depth 2 1 tr ≠ .error .out_of_bounds) ∧
    (∃ answer, Get_Group_Members d 0xE0000001 tr = .ok answer) ∧
    (Trace_Group d [2, 0, 1] 0xE0000001 tr ≠ .error .out_of_bounds ↔
      (line_network 2).All_Nodes_by_ID.countP (is_reachable d) ≤ MAX_COUNT) := by
  have hrun : RR_Init 1 (line_network 2) =
      some (set_up (line_network 2) (far_member 2) 1).Current_Routing := by rfl
  exact traces_right hrun 2 1 _ _ (by decide)

/-- A line of 65 nodes. The first two have a route and the answer is empty; a node that is
not there brings the daemon down; the whole line does not fit an answer about a group. -/
theorem line_traced_wrong :
    let d := set_up (line_network 64) (far_member 64) 0
    let tr : spines_trace :=
      { count := 0, address := fun _ => 0, distance := fun _ => 0, cost := fun _ => 0 }
    RR_Init 0 (line_network 64) = some d.Current_Routing ∧
    ((line_network 64).chosen_path 0 1).isSome ∧
    (¬∃ depth tr', Trace_Route d.Current_Routing depth 0 1 tr = .ok tr' ∧
      Traced (line_network 64) 0 1 tr') ∧
    (∀ depth, Trace_Route d.Current_Routing depth 0 65 tr = .error .null) ∧
    Trace_Group d (line_network 64).All_Nodes_by_ID 0xE0000001 tr =
      .error .out_of_bounds := by
  intro d tr
  have hrun : RR_Init 0 (line_network 64) = some d.Current_Routing := by
    obtain ⟨rr, hrr, -⟩ := rr_init_agrees (line_loop 64) (line_weight_le 64)
      (by rw [line_length]; decide) 0
    rw [show d.Current_Routing = rr by simp [d, set_up, hrr], hrr]
  have hsome : ∀ n : ℕ, n < 65 → ((line_network 64).chosen_path 0 n).isSome := by
    intro n hn
    have hle : 0 + n ≤ 64 := by omega
    have hpath : (line_network 64).LivePath 0 (0 + n) _ := line_path n 0 hle
    rw [zero_add] at hpath
    obtain ⟨q, hq, -⟩ := (chosen_path_exact (line_network 64)).best hpath
    rw [hq]
    rfl
  have hids := rr_init_ids hrun
  refine ⟨hrun, hsome 1 (by decide), ?_, fun depth => ?_, ?_⟩
  · rw [traced_iff hids]
    rintro ⟨-, -, heq | hnone⟩
    · cases heq
    · exact isSome_iff_ne_none.mp (hsome 1 (by decide)) hnone
  · refine trace_route_unknown ?_ depth
    rw [← not_isSome_iff_eq_none, find_route_isSome hids]
    decide
  · by_contra hfits
    have hall : ∀ n ∈ (line_network 64).All_Nodes_by_ID, is_reachable d n := by
      intro n hn
      have hlt : n < 65 := by simpa [line_network] using hn
      exact (is_reachable_iff (line_loop 64) hrun rfl (line_mem 64 0 (by decide)) hn).mpr
        (hsome n hlt)
    have hcount := (trace_group_iff _).mp hfits
    rw [countP_eq_length.mpr hall, line_length] at hcount
    exact absurd hcount (by decide)

end Answers

end Spines.Routing.Trace
