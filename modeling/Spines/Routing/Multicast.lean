/-
`daemon/route.c`: multicast and anycast.

A packet to a group names its source and the group only. Every daemon looks up, in
its own table, the next hops on the paths from the source to the active members; for
an anycast address it keeps one of them. The enumeration of a group's hash may
differ from daemon to daemon, and the answers are cached.

The next hops form a tree below the source (`forwards_treelike`), because all paths
that pass a node came there the same way. The rest is `Lib.Spread`: the copies of a
packet are taken up in any order, and the daemons refine its steps (`step_spread`).
-/
import Spines.Routing.Forwarding
import Spines.Lib.Spread
import Mathlib.Data.Finset.Max

set_option autoImplicit false

namespace Spines.Routing

open Spines.Lib Option List

/-! ## 1. Group states and the forwarding sets -/

abbrev Group_ID := Nat

def Is_mcast_addr (x : Nat) : Bool :=
  x &&& 0xF0000000 == 0xE0000000 || x &&& 0xFFFFFF00 == 0xFEFF0000

def Is_acast_addr (x : Nat) : Bool :=
  x &&& 0xF0000000 == 0xF0000000 && x &&& 0xFFFFFF00 != 0xFEFF0000

structure Group_State where
  node_nid : Node_ID
  /-- `status & ACTIVE_GROUP` -/
  active : Bool
  deriving DecidableEq, Repr

structure Daemon where
  My_Address : Node_ID
  Current_Routing : Routing_Regime
  All_Groups_by_Name : Group_ID → Option (List Group_State)
  /-- `Groups` of the routing regime: answers already computed -/
  Groups : Group_ID → Node_ID → Option (List Node_ID)
  /-- `cost` of a node -/
  cost : Node_ID → Int

/-- The loop over the states of a group, with `neighbors` and `best_next_hop`. -/
def scan_states (d : Daemon) (sender : Node_ID) (mcast_address : Group_ID) :
    List Group_State → List Node_ID → Option Node_ID → List Node_ID × Option Node_ID
  | [], neighbors, best_next_hop => (neighbors, best_next_hop)
  | g_state :: states, neighbors, best_next_hop =>
    if g_state.active then
      -- a registered daemon is the final destination of an anycast: the loop breaks
      if Is_acast_addr mcast_address ∧ g_state.node_nid = d.My_Address then (neighbors, none)
      else
        match RR_Get_Next_Hop d.Current_Routing sender g_state.node_nid with
        | none => scan_states d sender mcast_address states neighbors best_next_hop
        | some next_hop =>
          if Is_mcast_addr mcast_address then
            scan_states d sender mcast_address states (neighbors.insert next_hop) best_next_hop
          else if Is_acast_addr mcast_address then
            scan_states d sender mcast_address states neighbors
              (match best_next_hop with
                | none => some next_hop
                | some best => if d.cost next_hop < d.cost best then some next_hop else some best)
          else scan_states d sender mcast_address states neighbors best_next_hop
    else scan_states d sender mcast_address states neighbors best_next_hop

def build_neighbors (d : Daemon) (sender : Node_ID) (mcast_address : Group_ID)
    (states : List Group_State) : List Node_ID :=
  let (neighbors, best_next_hop) := scan_states d sender mcast_address states [] none
  if Is_acast_addr mcast_address then neighbors ++ best_next_hop.toList else neighbors

def RR_Get_Mcast_Neighbors (d : Daemon) (sender : Node_ID) (mcast_address : Group_ID) :
    Option (List Node_ID) × Daemon :=
  match d.All_Groups_by_Name mcast_address with
  | none => (none, d)
  | some s_chain_grp =>
    match d.Groups mcast_address sender with
    | some neighbors => (some neighbors, d)
    | none =>
      let neighbors := build_neighbors d sender mcast_address s_chain_grp
      (some neighbors, { d with Groups := fun g s =>
        if g = mcast_address ∧ s = sender then some neighbors else d.Groups g s })

/-! ## 2. `Deliver_and_Forward_Data` -/

structure udp_header where
  source : Node_ID
  dest : Nat
  ttl : Nat
  deriving DecidableEq, Repr

def Is_Connected_Neighbor2 (net : Network) (My_Address next_hop : Node_ID) : Bool :=
  net.All_Edges.any fun e => e.src = My_Address ∧ e.dst = next_hop ∧ e.cost ≠ -1

/-- What a daemon does with one packet: whom it forwards the packet to, and whether
it hands it to its clients. -/
structure Outcome where
  forward : List Node_ID
  deliver : Bool
  daemon : Daemon

/-- `Deliver_and_Forward_Data` for a packet of `MIN_WEIGHT_ROUTING`. -/
def Deliver_and_Forward_Data (net : Network) (d : Daemon) (hdr : udp_header) : Outcome :=
  if hdr.ttl = 0 then { forward := [], deliver := false, daemon := d }
  else
    let ttl := hdr.ttl - 1
    if ¬Is_mcast_addr hdr.dest ∧ ¬Is_acast_addr hdr.dest then
      { forward :=
          if hdr.dest ≠ d.My_Address ∧ 0 < ttl then
            (RR_Get_Next_Hop d.Current_Routing hdr.source hdr.dest).toList
          else []
        deliver := hdr.dest = d.My_Address
        daemon := d }
    else
      let (neighbors, d') :=
        if 0 < ttl then RR_Get_Mcast_Neighbors d hdr.source hdr.dest else (none, d)
      { forward := (neighbors.getD []).filter (Is_Connected_Neighbor2 net d.My_Address)
        deliver := ((d.All_Groups_by_Name hdr.dest).getD []).any fun g =>
          g.node_nid = d.My_Address ∧ g.active
        daemon := d' }

structure Overlay where
  daemons : Node_ID → Daemon
  flight : List (Node_ID × udp_header)
  received : List Node_ID
  delivered : List Node_ID

def Overlay.sent (ov : Overlay) : List Node_ID := ov.flight.map Prod.fst ++ ov.received

def Overlay.start (daemons : Node_ID → Daemon) (hdr : udp_header) : Overlay :=
  { daemons := daemons, flight := [(hdr.source, hdr)], received := [], delivered := [] }

/-- The daemon `n` takes up one of the copies sent to it. -/
inductive Overlay.Step (net : Network) : Overlay → Node_ID → Overlay → Prop
  | take {ov : Overlay} {n : Node_ID} {hdr : udp_header} {rest : List (Node_ID × udp_header)}
      {out : Outcome} (hflight : ov.flight.Perm ((n, hdr) :: rest))
      (hout : out = Deliver_and_Forward_Data net (ov.daemons n) hdr) :
      Step net ov n
        { daemons := fun m => if m = n then out.daemon else ov.daemons m
          flight := rest ++ out.forward.map (·, { hdr with ttl := hdr.ttl - 1 })
          received := n :: ov.received
          delivered := if out.deliver then n :: ov.delivered else ov.delivered }

/-! ## 3. What the loop finds -/

section Scan

variable {d : Daemon} {sender v : Node_ID} {g : Group_ID} {states : List Group_State}
  {nb : List Node_ID} {best : Option Node_ID}

theorem not_acast_of_mcast (h : Is_mcast_addr g) : ¬Is_acast_addr g := by
  unfold Is_mcast_addr at h
  unfold Is_acast_addr
  rw [Bool.or_eq_true, beq_iff_eq, beq_iff_eq] at h
  rw [Bool.and_eq_true, beq_iff_eq, bne_iff_ne]
  rintro ⟨hf, hne⟩
  rcases h with he | h
  · rw [hf] at he
    exact absurd he (by decide)
  · exact hne h

def Leads (d : Daemon) (sender : Node_ID) (states : List Group_State) (v : Node_ID) : Prop :=
  ∃ st ∈ states, st.active ∧ RR_Get_Next_Hop d.Current_Routing sender st.node_nid = some v

theorem leads_nil : ¬Leads d sender [] v := by
  rintro ⟨st, hst, -⟩
  simp at hst

theorem leads_cons {st : Group_State} : Leads d sender (st :: states) v ↔
    (st.active ∧ RR_Get_Next_Hop d.Current_Routing sender st.node_nid = some v) ∨
      Leads d sender states v := by
  simp only [Leads, exists_mem_cons_iff]

theorem scan_states_mcast (hg : Is_mcast_addr g) (hnb : nb.Nodup) :
    (scan_states d sender g states nb best).1.Nodup ∧
      ∀ v, v ∈ (scan_states d sender g states nb best).1 ↔ v ∈ nb ∨ Leads d sender states v := by
  have hna := not_acast_of_mcast hg
  induction states generalizing nb with
  | nil => simp [scan_states, hnb, leads_nil]
  | cons st states ih =>
    simp only [leads_cons]
    unfold scan_states
    split
    · rename_i hact
      rw [if_neg (fun h => hna h.1)]
      split
      · rename_i hnone
        simpa [hnone] using ih hnb
      · rename_i u hsome
        obtain ⟨hnd, hmem⟩ := ih (hnb.insert (a := u))
        refine ⟨hnd, ?_⟩
        intro v
        rw [hmem, mem_insert_iff, hsome, Option.some.injEq, eq_comm (a := v)]
        tauto
    · rename_i hact
      simpa [hact] using ih hnb

theorem scan_states_acast (d : Daemon) (sender : Node_ID) (states : List Group_State)
    (nb : List Node_ID) (best : Option Node_ID) (hg : Is_acast_addr g) :
    (scan_states d sender g states nb best).1 = nb ∧
      (∀ v ∈ (scan_states d sender g states nb best).2, v ∈ best ∨ Leads d sender states v) ∧
      ((scan_states d sender g states nb best).2 = none ↔
        (∃ st ∈ states, st.active ∧ st.node_nid = d.My_Address) ∨
          (best = none ∧ ∀ v, ¬Leads d sender states v)) := by
  have hnm : ¬Is_mcast_addr g := fun h => not_acast_of_mcast h hg
  induction states generalizing best with
  | nil => simp [scan_states, leads_nil]
  | cons st states ih =>
    simp only [leads_cons, exists_mem_cons_iff]
    unfold scan_states
    split
    · rename_i hact
      split
      · rename_i hown
        simp [hact, hown.2]
      · rename_i hown
        have hother : st.node_nid ≠ d.My_Address := fun h => hown ⟨hg, h⟩
        split
        · rename_i hnone
          simpa [hnone, hother] using ih best
        · rename_i u hsome
          generalize hbest : (match best with
            | none => some u
            | some b => if d.cost u < d.cost b then some u else some b) = best'
          have hsub : ∀ v ∈ best', v ∈ best ∨ v = u := by
            intro v hv
            rw [← hbest] at hv
            cases best with
            | none => exact .inr (some.inj hv).symm
            | some b =>
              dsimp only at hv
              split at hv
              · exact .inr (some.inj hv).symm
              · exact .inl hv
          have hne : best' ≠ none := by
            rw [← hbest]
            cases best with
            | none => simp
            | some b =>
              dsimp only
              split <;> simp
          obtain ⟨hnb, hmem, hnone⟩ := ih best'
          refine ⟨hnb, ?_, ?_⟩
          · intro v hv
            rcases hmem v hv with hv | hv
            · refine (hsub v hv).imp_right ?_
              rintro rfl
              exact .inl ⟨hact, hsome⟩
            · exact .inr (.inr hv)
          · rw [hnone]
            constructor
            · rintro (hmember | ⟨h, -⟩)
              · exact .inl (.inr hmember)
              · exact absurd h hne
            · rintro ((⟨-, h⟩ | hmember) | ⟨-, hno⟩)
              · exact absurd h hother
              · exact .inl hmember
              · exact absurd (.inl ⟨hact, hsome⟩) (hno u)
    · rename_i hact
      simpa [hact] using ih best

theorem build_neighbors_mem (hg : Is_mcast_addr g ∨ Is_acast_addr g)
    (hv : v ∈ build_neighbors d sender g states) : Leads d sender states v := by
  unfold build_neighbors at hv
  dsimp only at hv
  rcases hg with hg | hg
  · rw [if_neg (not_acast_of_mcast hg)] at hv
    exact (((scan_states_mcast hg nodup_nil).2 v).mp hv).resolve_left (by simp)
  · obtain ⟨hnb, hmem, -⟩ := scan_states_acast d sender states [] none hg
    rw [if_pos hg, hnb, nil_append, mem_toList] at hv
    exact (hmem v hv).resolve_left (by simp)

theorem build_neighbors_nodup (hg : Is_mcast_addr g ∨ Is_acast_addr g) :
    (build_neighbors d sender g states).Nodup := by
  unfold build_neighbors
  dsimp only
  rcases hg with hg | hg
  · rw [if_neg (not_acast_of_mcast hg)]
    exact (scan_states_mcast hg nodup_nil).1
  · rw [if_pos hg, (scan_states_acast d sender states [] none hg).1]
    cases (scan_states d sender g states [] none).2 with
    | none => simp
    | some v => simp

theorem build_neighbors_mcast (hg : Is_mcast_addr g) (hv : Leads d sender states v) :
    v ∈ build_neighbors d sender g states := by
  unfold build_neighbors
  dsimp only
  rw [if_neg (not_acast_of_mcast hg), (scan_states_mcast hg nodup_nil).2]
  exact .inr hv

theorem build_neighbors_acast (hg : Is_acast_addr g) :
    (build_neighbors d sender g states).length ≤ 1 ∧ (build_neighbors d sender g states = [] ↔
        (∃ st ∈ states, st.active ∧ st.node_nid = d.My_Address) ∨
          ∀ v, ¬Leads d sender states v) := by
  obtain ⟨hnb, -, hnone⟩ := scan_states_acast d sender states [] none hg
  unfold build_neighbors
  dsimp only
  rw [if_pos hg, hnb, nil_append]
  rw [eq_self, true_and] at hnone
  refine ⟨by cases (scan_states d sender g states [] none).2 <;> simp, ?_⟩
  rw [← hnone]
  cases (scan_states d sender g states [] none).2 <;> simp

end Scan

/-! ## 4. The forwarding tree -/

def mcast_neighbors (d : Daemon) (sender : Node_ID) (g : Group_ID) : List Node_ID :=
  build_neighbors d sender g ((d.All_Groups_by_Name g).getD [])

def Daemon.Cached (d : Daemon) : Prop :=
  ∀ g s neighbors, d.Groups g s = some neighbors → neighbors = mcast_neighbors d s g

/-- All daemons hold the tables of the network `net` with the group states
`states`; their routes have been computed to the end. -/
structure Same_Tables (net : Network) (states : Group_ID → List Group_State)
    (daemons : Node_ID → Daemon) : Prop where
  address : ∀ n, (daemons n).My_Address = n
  routing : ∀ n ∈ net.All_Nodes_by_ID, RR_Init n net = some (daemons n).Current_Routing
  groups : ∀ n g, (((daemons n).All_Groups_by_Name g).getD []).Perm (states g)
  cache : ∀ n, (daemons n).Cached

def Member (states : Group_ID → List Group_State) (g : Group_ID) (m : Node_ID) : Prop :=
  ∃ st ∈ states g, st.active ∧ st.node_nid = m

/-- The set that each node of the network forwards a packet of `s` for `g` to. -/
def forwards (net : Network) (daemons : Node_ID → Daemon) (s : Node_ID) (g : Group_ID)
    (n : Node_ID) : List Node_ID :=
  if n ∈ net.All_Nodes_by_ID then mcast_neighbors (daemons n) s g else []

def hops_from (net : Network) (s n : Node_ID) : ℕ := ((net.chosen_path s n).getD []).length - 1

section Tree

variable {net : Network} {states : Group_ID → List Group_State} {daemons : Node_ID → Daemon}
  {s n v m : Node_ID} {g : Group_ID} {p : List Node_ID}

theorem leads_iff (hloop : ∀ e ∈ net.All_Edges, e.src ≠ e.dst)
    (htab : Same_Tables net states daemons) (hs : s ∈ net.All_Nodes_by_ID)
    (hn : n ∈ net.All_Nodes_by_ID) :
    Leads (daemons n) s (((daemons n).All_Groups_by_Name g).getD []) v ↔
      ∃ m p, Member states g m ∧ m ∈ net.All_Nodes_by_ID ∧ net.chosen_path s m = some p ∧
        next n p = some v := by
  have hrun := htab.routing n hn
  have hhop : ∀ m, RR_Get_Next_Hop (daemons n).Current_Routing s m = next_hop net n s m := by
    intro m
    rw [next_hop, hrun, bind_some]
  simp only [Leads, hhop, next_hop_eq hloop (hrun ▸ rfl : (RR_Init n net).isSome) hs,
    (htab.groups n g).mem_iff]
  constructor
  · rintro ⟨st, hst, hact, hnext⟩
    by_cases hm : st.node_nid ∈ net.All_Nodes_by_ID
    · rw [if_pos hm] at hnext
      obtain ⟨p, hp, hnext⟩ := bind_eq_some_iff.mp hnext
      exact ⟨st.node_nid, p, ⟨st, hst, hact, rfl⟩, hm, hp, hnext⟩
    · rw [if_neg hm] at hnext
      simp at hnext
  · rintro ⟨m, p, ⟨st, hst, hact, rfl⟩, hm, hp, hnext⟩
    refine ⟨st, hst, hact, ?_⟩
    rw [if_pos hm, hp, bind_some, hnext]

theorem forwards_mem (hloop : ∀ e ∈ net.All_Edges, e.src ≠ e.dst)
    (htab : Same_Tables net states daemons) (hs : s ∈ net.All_Nodes_by_ID)
    (hg : Is_mcast_addr g ∨ Is_acast_addr g) (hv : v ∈ forwards net daemons s g n) :
    ∃ m pre rest, Member states g m ∧ m ∈ net.All_Nodes_by_ID ∧
      net.chosen_path s m = some (pre ++ n :: v :: rest) := by
  unfold forwards at hv
  split at hv
  · rename_i hn
    obtain ⟨m, p, hm, hmem, hp, hnext⟩ :=
      (leads_iff hloop htab hs hn).mp (build_neighbors_mem hg hv)
    obtain ⟨pre, rest, rfl⟩ := next_infix hnext
    refine ⟨m, pre, rest, hm, hmem, ?_⟩
    rw [hp]
    simp
  · simp at hv

theorem forwards_path (hloop : ∀ e ∈ net.All_Edges, e.src ≠ e.dst)
    (htab : Same_Tables net states daemons) (hs : s ∈ net.All_Nodes_by_ID)
    (hg : Is_mcast_addr g ∨ Is_acast_addr g) (hv : v ∈ forwards net daemons s g n) :
    ∃ pre, net.chosen_path s n = some (pre ++ [n]) ∧
      net.chosen_path s v = some (pre ++ [n] ++ [v]) := by
  obtain ⟨m, pre, rest, -, -, hp⟩ := forwards_mem hloop htab hs hg hv
  have hT := chosen_path_exact net
  have hnd := hT.nodup hp
  refine ⟨pre, ?_, ?_⟩
  · exact (chosen_path_closed net).upto (fun _ _ => hT.path) hp hnd
  · rw [append_cons] at hp hnd
    exact (chosen_path_closed net).upto (fun _ _ => hT.path) hp hnd

theorem forwards_treelike (hloop : ∀ e ∈ net.All_Edges, e.src ≠ e.dst)
    (htab : Same_Tables net states daemons) (hs : s ∈ net.All_Nodes_by_ID)
    (hg : Is_mcast_addr g ∨ Is_acast_addr g) :
    Treelike (forwards net daemons s g) s (hops_from net s) where
  nodup := by
    intro n
    unfold forwards
    split
    · exact build_neighbors_nodup hg
    · simp
  parent := by
    intro v n n' hv hv'
    obtain ⟨pre, -, hp⟩ := forwards_path hloop htab hs hg hv
    obtain ⟨pre', -, hp'⟩ := forwards_path hloop htab hs hg hv'
    have heq := some.inj (hp.symm.trans hp')
    have hlast := (append_inj' heq rfl).1
    exact singleton_injective (append_inj' hlast rfl).2
  root := by
    intro n hv
    obtain ⟨pre, -, hp⟩ := forwards_path hloop htab hs hg hv
    rw [chosen_path_self] at hp
    simpa using congrArg List.length (some.inj hp)
  depth_root := by simp [hops_from, chosen_path_self]
  depth_succ := by
    intro v n hv
    obtain ⟨pre, hp, hp'⟩ := forwards_path hloop htab hs hg hv
    simp [hops_from, hp, hp']

theorem forwards_connected (hloop : ∀ e ∈ net.All_Edges, e.src ≠ e.dst)
    (htab : Same_Tables net states daemons) (hs : s ∈ net.All_Nodes_by_ID)
    (hg : Is_mcast_addr g ∨ Is_acast_addr g) (hv : v ∈ forwards net daemons s g n) :
    Is_Connected_Neighbor2 net n v ∧ v ∈ net.All_Nodes_by_ID := by
  obtain ⟨pre, hp, hp'⟩ := forwards_path hloop htab hs hg hv
  have hT := chosen_path_exact net
  have hedge := ((hT.path hp).rest (hT.path hp')).1
  have hsome : (net.weight n v).isSome := by
    cases hedge with
    | cons hedge _ hrest =>
      rw [(List.cons.inj hrest.eq_cons).1]
      exact hedge
  refine ⟨?_, mem_nodes_of_path hs (hT.path hp') v (by simp)⟩
  unfold Network.weight edge_weight at hsome
  rw [isSome_map, List.find?_isSome] at hsome
  rw [Is_Connected_Neighbor2, List.any_eq_true]
  exact hsome

end Tree

/-! ## 5. The daemons follow the tree -/

section Refine

variable {net : Network} {states : Group_ID → List Group_State} {daemons : Node_ID → Daemon}
  {d : Daemon} {s n m : Node_ID} {g : Group_ID} {hdr : udp_header} {ov ov' : Overlay}

theorem scan_states_groups (d : Daemon) (c : Group_ID → Node_ID → Option (List Node_ID))
    (states : List Group_State) (nb : List Node_ID) (best : Option Node_ID) :
    scan_states { d with Groups := c } s g states nb best = scan_states d s g states nb best := by
  induction states generalizing nb best with
  | nil => rfl
  | cons st states ih => simp only [scan_states, ih]

theorem mcast_neighbors_groups (d : Daemon) (c : Group_ID → Node_ID → Option (List Node_ID)) :
    mcast_neighbors { d with Groups := c } = mcast_neighbors d := by
  funext s g
  simp only [mcast_neighbors, build_neighbors, scan_states_groups]

theorem get_mcast_neighbors_spec (h : d.Cached) (s : Node_ID) (g : Group_ID) :
    (RR_Get_Mcast_Neighbors d s g).1.getD [] = mcast_neighbors d s g ∧
      ∃ c, (RR_Get_Mcast_Neighbors d s g).2 = { d with Groups := c } ∧
        ({ d with Groups := c } : Daemon).Cached := by
  unfold RR_Get_Mcast_Neighbors
  split
  · rename_i hnone
    refine ⟨?_, d.Groups, rfl, h⟩
    simp [mcast_neighbors, hnone, build_neighbors, scan_states]
  · rename_i s_chain_grp hsome
    split
    · rename_i neighbors hcache
      exact ⟨h g s neighbors hcache, d.Groups, rfl, h⟩
    · have hnew : build_neighbors d s g s_chain_grp = mcast_neighbors d s g := by
        rw [mcast_neighbors, hsome, getD_some]
      refine ⟨hnew, _, rfl, ?_⟩
      intro g' s' neighbors hcache
      rw [mcast_neighbors_groups]
      dsimp only at hcache
      split at hcache
      · rename_i hkey
        rw [hkey.1, hkey.2, ← hnew]
        exact (some.inj hcache).symm
      · exact h g' s' neighbors hcache

theorem deliver_and_forward_spec (net : Network)
    (hg : Is_mcast_addr hdr.dest ∨ Is_acast_addr hdr.dest) (ht : 0 < hdr.ttl) (h : d.Cached) :
    (Deliver_and_Forward_Data net d hdr).forward =
        (if 0 < hdr.ttl - 1 then mcast_neighbors d hdr.source hdr.dest else []).filter
          (Is_Connected_Neighbor2 net d.My_Address) ∧
      ((Deliver_and_Forward_Data net d hdr).deliver ↔
        ∃ st ∈ (d.All_Groups_by_Name hdr.dest).getD [], st.active ∧ st.node_nid = d.My_Address) ∧
      ∃ c, (Deliver_and_Forward_Data net d hdr).daemon = { d with Groups := c } ∧
        ({ d with Groups := c } : Daemon).Cached := by
  have hgroup : ¬(¬Is_mcast_addr hdr.dest ∧ ¬Is_acast_addr hdr.dest) := by tauto
  unfold Deliver_and_Forward_Data
  rw [if_neg ht.ne', if_neg hgroup]
  dsimp only
  refine ⟨?_, ?_, ?_⟩
  · split
    · rw [(get_mcast_neighbors_spec h _ _).1]
    · rfl
  · simp only [List.any_eq_true, decide_eq_true_eq, Bool.decide_and, Bool.and_eq_true]
    simp only [and_comm]
  · split
    · exact (get_mcast_neighbors_spec h _ _).2
    · exact ⟨d.Groups, rfl, h⟩

def Overlay.spread (ov : Overlay) : Spread Node_ID :=
  { flight := ov.flight.map fun c => (c.1, c.2.ttl), received := ov.received }

/-- What holds along every run: only the caches change, and the copies spread along
the tree. -/
structure Overlay.Inv (net : Network) (states : Group_ID → List Group_State)
    (daemons : Node_ID → Daemon) (hdr : udp_header) (ov : Overlay) : Prop where
  tables : Same_Tables net states ov.daemons
  same : ∀ n, mcast_neighbors (ov.daemons n) = mcast_neighbors (daemons n)
  headers : ∀ c ∈ ov.flight, c.1 ∈ net.All_Nodes_by_ID ∧ c.2.source = hdr.source ∧
    c.2.dest = hdr.dest
  spread : Run (Spread.Step (forwards net daemons hdr.source hdr.dest))
    (Spread.start hdr.source hdr.ttl) ov.spread
  delivered : ∀ m, m ∈ ov.delivered ↔ m ∈ ov.received ∧ Member states hdr.dest m
  sublist : ov.delivered.Sublist ov.received

theorem Overlay.Inv.start (htab : Same_Tables net states daemons)
    (hs : hdr.source ∈ net.All_Nodes_by_ID) :
    Overlay.Inv net states daemons hdr (Overlay.start daemons hdr) where
  tables := htab
  same := by simp [Overlay.start]
  headers := by simp [Overlay.start, hs]
  spread := Run.refl _
  delivered := by simp [Overlay.start]
  sublist := by simp [Overlay.start]

theorem Same_Tables.set_groups (htab : Same_Tables net states daemons)
    {c : Group_ID → Node_ID → Option (List Node_ID)}
    (hc : ({ daemons n with Groups := c } : Daemon).Cached) :
    Same_Tables net states fun m => if m = n then { daemons n with Groups := c } else daemons m := by
  constructor
  all_goals
    intro m
    by_cases hm : m = n
    · subst hm
      simp only [if_true]
      first
        | exact hc
        | exact htab.address m
        | exact htab.routing m
        | exact htab.groups m
    · simp only [hm, if_false]
      first
        | exact htab.address m
        | exact htab.routing m
        | exact htab.groups m
        | exact htab.cache m

theorem Overlay.Inv.step (hloop : ∀ e ∈ net.All_Edges, e.src ≠ e.dst)
    (htab : Same_Tables net states daemons) (hs : hdr.source ∈ net.All_Nodes_by_ID)
    (hg : Is_mcast_addr hdr.dest ∨ Is_acast_addr hdr.dest) (hT : 0 < hdr.ttl)
    (h : Overlay.Inv net states daemons hdr ov) (hstep : Overlay.Step net ov n ov') :
    Overlay.Inv net states daemons hdr ov' := by
  cases hstep with
  | @take copy rest out hflight hout =>
    have htree := forwards_treelike hloop htab hs hg
    have hin : (n, copy) ∈ ov.flight := hflight.mem_iff.mpr mem_cons_self
    obtain ⟨hn, hsrc, hdst⟩ := h.headers _ hin
    dsimp only at hn hsrc hdst
    have hleft := (Spread.Inv.run htree hT h.spread).left n copy.ttl
      (List.mem_map.mpr ⟨(n, copy), hin, rfl⟩)
    have haddr := h.tables.address n
    obtain ⟨hfwd, hdel, c, hd, hcached⟩ := deliver_and_forward_spec net (hdst ▸ hg)
      hleft.1 (h.tables.cache n)
    rw [← hout] at hfwd hdel hd
    -- the edges to the computed neighbors are up
    have hset : mcast_neighbors (ov.daemons n) copy.source copy.dest =
        forwards net daemons hdr.source hdr.dest n := by
      rw [forwards, if_pos hn, h.same, hsrc, hdst]
    have hforward : out.forward =
        if 0 < copy.ttl - 1 then forwards net daemons hdr.source hdr.dest n else [] := by
      rw [hfwd, hset, filter_eq_self, haddr]
      intro v hv
      split at hv
      · exact (forwards_connected hloop htab hs hg hv).1
      · simp at hv
    have hnodes : ∀ v ∈ out.forward, v ∈ net.All_Nodes_by_ID := by
      intro v hv
      rw [hforward] at hv
      split at hv
      · exact (forwards_connected hloop htab hs hg hv).2
      · simp at hv
    have hmember : out.deliver ↔ Member states hdr.dest n := by
      rw [hdel, haddr, hdst]
      simp only [(h.tables.groups n hdr.dest).mem_iff]
      rfl
    constructor
    · rw [hd]
      exact h.tables.set_groups hcached
    · intro m
      dsimp only
      split
      · rename_i hm
        rw [hd, mcast_neighbors_groups, h.same, hm]
      · exact h.same m
    · intro c hc
      rcases mem_append.mp hc with hc | hc
      · exact h.headers c (hflight.mem_iff.mpr (mem_cons_of_mem _ hc))
      · obtain ⟨v, hv, rfl⟩ := List.mem_map.mp hc
        exact ⟨hnodes v hv, hsrc, hdst⟩
    · refine h.spread.tail (e := n) ?_
      obtain ⟨t, ht⟩ : ∃ t, copy.ttl = t + 1 := ⟨copy.ttl - 1, by omega⟩
      have hperm : ov.spread.flight.Perm
          ((n, t + 1) :: rest.map fun c => (c.1, c.2.ttl)) := by
        rw [← ht]
        exact hflight.map fun c : Node_ID × udp_header => (c.1, c.2.ttl)
      have htake : Spread.Step (forwards net daemons hdr.source hdr.dest) ov.spread n _ :=
        .take hperm
      convert htake using 1
      simp only [Overlay.spread, map_append, List.map_map, Function.comp_def, hforward, ht,
        Nat.add_sub_cancel]
      congr 2
      split <;> simp
    · intro m
      dsimp only
      have hold := h.delivered m
      rw [mem_cons]
      split
      · rename_i hdel
        have hn' := hmember.mp hdel
        rw [mem_cons, hold]
        by_cases hm : m = n
        · subst hm
          simp [hn']
        · simp [hm]
      · rename_i hdel
        have hn' := hmember.not.mp hdel
        rw [hold]
        by_cases hm : m = n
        · subst hm
          simp [hn']
        · simp [hm]
    · dsimp only
      split
      · exact h.sublist.cons_cons n
      · exact h.sublist.cons n

end Refine

/-! ## 6. Who gets the packet -/

/-- What the copies of a packet come to; `near` are the nodes that its TTL is
enough for. -/
structure Overlay.Served (net : Network) (states : Group_ID → List Group_State)
    (hdr : udp_header) (near : Node_ID → Prop) (ov : Overlay) : Prop where
  once : ov.sent.Nodup
  delivered_once : ov.delivered.Nodup
  members : ∀ m ∈ ov.delivered, Member states hdr.dest m
  mcast : Is_mcast_addr hdr.dest → ov.flight = [] → ∀ m, Member states hdr.dest m →
    HasRoute net hdr.source m → near m → m ∈ ov.delivered
  acast_most : Is_acast_addr hdr.dest → ov.delivered.length ≤ 1
  acast : Is_acast_addr hdr.dest → ov.flight = [] →
    (∃ m, Member states hdr.dest m ∧ HasRoute net hdr.source m) →
    (∀ m, Member states hdr.dest m → HasRoute net hdr.source m → near m) →
    ov.delivered.length = 1
  bounded : ov.received.length ≤ net.All_Nodes_by_ID.length
  progress : ov.flight ≠ [] → ∃ n ov', Overlay.Step net ov n ov'

section Served

variable {net : Network} {states : Group_ID → List Group_State} {daemons : Node_ID → Daemon}
  {s n m v : Node_ID} {g : Group_ID} {hdr : udp_header} {ov : Overlay} {p pre rest : List Node_ID}

theorem Overlay.Inv.run (hloop : ∀ e ∈ net.All_Edges, e.src ≠ e.dst)
    (htab : Same_Tables net states daemons) (hs : hdr.source ∈ net.All_Nodes_by_ID)
    (hg : Is_mcast_addr hdr.dest ∨ Is_acast_addr hdr.dest) (hT : 0 < hdr.ttl)
    (hrun : Run (Overlay.Step net) (Overlay.start daemons hdr) ov) :
    Overlay.Inv net states daemons hdr ov :=
  hrun.invariant (Overlay.Inv net states daemons hdr) (.start htab hs)
    (fun _ _ _ h hstep => h.step hloop htab hs hg hT hstep)

/-- A multicast is forwarded along the whole path to a member. The induction is on
the part of the path that lies behind. -/
theorem below_path (hloop : ∀ e ∈ net.All_Edges, e.src ≠ e.dst)
    (htab : Same_Tables net states daemons) (hs : s ∈ net.All_Nodes_by_ID)
    (hg : Is_mcast_addr g) (hm : Member states g m) (hmem : m ∈ net.All_Nodes_by_ID)
    (hp : net.chosen_path s m = some p) (hsplit : p = pre ++ n :: rest) :
    Below (forwards net daemons s g) s n := by
  have hT := chosen_path_exact net
  induction pre using List.reverseRecOn generalizing n rest with
  | nil =>
    have hcons := (hT.path hp).eq_cons
    rw [hsplit, nil_append] at hcons
    rw [(List.cons.inj hcons).1]
    exact .root
  | append_singleton pre y ih =>
    rw [append_assoc, singleton_append] at hsplit
    refine .child (ih hsplit) ?_
    have hy := mem_nodes_of_path hs (hT.path hp) y (by simp [hsplit])
    rw [forwards, if_pos hy]
    apply build_neighbors_mcast hg
    rw [leads_iff hloop htab hs hy]
    refine ⟨m, p, hm, hmem, hp, ?_⟩
    have hnd := hT.nodup hp
    rw [hsplit, nodup_append] at hnd
    rw [hsplit, next_of_append (fun hpre => hnd.2.2 y hpre y mem_cons_self rfl),
      List.head?_cons]

theorem length_le_of_near (hloop : ∀ e ∈ net.All_Edges, e.src ≠ e.dst)
    (htab : Same_Tables net states daemons) (hs : s ∈ net.All_Nodes_by_ID)
    (hm : m ∈ net.All_Nodes_by_ID) (hp : net.chosen_path s m = some p) {ttl : ℕ} (hT : 0 < ttl)
    (hnear : m ∈ hop_by_hop net s m (ttl - 1) s) : p.length ≤ ttl := by
  have hexact := chosen_path_exact net
  have hdef : ∀ n ∈ net.All_Nodes_by_ID, (RR_Init n net).isSome := by
    intro n hn
    rw [htab.routing n hn]
    rfl
  rw [hop_by_hop_eq hloop hdef hs hm hp, Nat.sub_add_cancel hT] at hnear
  apply Nat.le_of_not_lt
  intro hlong
  -- the last node of a simple path is not among the first ones
  have hconcat := (hexact.path hp).eq_concat
  have hnd := hexact.nodup hp
  rw [hconcat, nodup_append] at hnd
  rw [hconcat, take_append_of_le_length (by simp; omega)] at hnear
  exact hnd.2.2 m (mem_of_mem_take hnear) m (by simp) rfl

theorem below_acast (hloop : ∀ e ∈ net.All_Edges, e.src ≠ e.dst)
    (htab : Same_Tables net states daemons) (hs : s ∈ net.All_Nodes_by_ID)
    (hg : Is_mcast_addr g ∨ Is_acast_addr g) (hsome : ∃ m, Member states g m ∧ HasRoute net s m)
    (hn : Below (forwards net daemons s g) s n) :
    ∃ m pre rest, Member states g m ∧ m ∈ net.All_Nodes_by_ID ∧
      net.chosen_path s m = some (pre ++ n :: rest) := by
  cases hn with
  | root =>
    obtain ⟨m, hm, hroute⟩ := hsome
    obtain ⟨hmem, p, hp⟩ := path_of_route hloop hs hroute
    refine ⟨m, [], p.tail, hm, hmem, ?_⟩
    rw [hp, nil_append, ← ((chosen_path_exact net).path hp).eq_cons]
  | @child y _ _ hv =>
    obtain ⟨m, pre, rest, hm, hmem, hp⟩ := forwards_mem hloop htab hs hg hv
    exact ⟨m, pre ++ [y], rest, hm, hmem, by rw [hp, ← append_cons]⟩

theorem forwards_acast (hloop : ∀ e ∈ net.All_Edges, e.src ≠ e.dst)
    (htab : Same_Tables net states daemons) (hs : s ∈ net.All_Nodes_by_ID)
    (hg : Is_acast_addr g) (hn : n ∈ net.All_Nodes_by_ID) :
    forwards net daemons s g n = [] ↔ Member states g n ∨
      ∀ m pre v rest, Member states g m → m ∈ net.All_Nodes_by_ID →
        net.chosen_path s m ≠ some (pre ++ n :: v :: rest) := by
  have hT := chosen_path_exact net
  rw [forwards, if_pos hn, mcast_neighbors, (build_neighbors_acast hg).2]
  simp only [leads_iff hloop htab hs hn, (htab.groups n g).mem_iff, htab.address n]
  refine or_congr Iff.rfl ?_
  constructor
  · intro hno m pre v rest hm hmem hp
    refine hno v ⟨m, _, hm, hmem, hp, ?_⟩
    have hnd := hT.nodup hp
    rw [nodup_append] at hnd
    rw [next_of_append (fun hpre => hnd.2.2 n hpre n mem_cons_self rfl), List.head?_cons]
  · rintro hno v ⟨m, p, hm, hmem, hp, hnext⟩
    obtain ⟨pre, rest, rfl⟩ := next_infix hnext
    exact hno m pre v rest hm hmem (by rw [hp]; simp)

theorem Overlay.spread_sent (ov : Overlay) : ov.spread.sent = ov.sent := by
  simp [Overlay.spread, Spread.sent, Overlay.sent, Function.comp_def]

theorem acast_reaches (hloop : ∀ e ∈ net.All_Edges, e.src ≠ e.dst)
    (htab : Same_Tables net states daemons) (hs : s ∈ net.All_Nodes_by_ID)
    (hg : Is_acast_addr g) {T : ℕ} {st : Spread Node_ID}
    (hinv : Spread.Inv (forwards net daemons s g) s (hops_from net s) T st)
    (hdone : st.flight = []) (hsome : ∃ m, Member states g m ∧ HasRoute net s m)
    (hnear : ∀ m p, Member states g m → m ∈ net.All_Nodes_by_ID →
      net.chosen_path s m = some p → p.length ≤ T) : ∃ m ∈ st.received, Member states g m := by
  have htree := forwards_treelike hloop htab hs (.inr hg)
  have hexact := chosen_path_exact net
  have hsent : st.sent = st.received := by simp [Spread.sent, hdone]
  obtain ⟨n, hn, hdeep⟩ := st.received.toFinset.exists_max_image (hops_from net s)
    ⟨s, List.mem_toFinset.mpr (hsent ▸ hinv.root)⟩
  rw [List.mem_toFinset] at hn
  refine ⟨n, hn, ?_⟩
  obtain ⟨m, pre, rest, hm, hmem, hp⟩ := below_acast hloop htab hs (.inr hg) hsome
    (hinv.below htree n (hsent ▸ hn))
  have hlen := hnear m _ hm hmem hp
  have hdepth : hops_from net s n = pre.length := by
    rw [hops_from, (chosen_path_closed net).upto (fun _ _ => hexact.path) hp (hexact.nodup hp)]
    simp
  cases rest with
  | nil =>
    -- the end of the path is the member
    have hlast := (hexact.path hp).eq_concat
    rw [dropLast_concat] at hlast
    rw [singleton_injective (append_inj' hlast rfl).2]
    exact hm
  | cons v rest =>
    have hmore : hops_from net s n + 1 < T := by
      rw [length_append, length_cons, length_cons] at hlen
      omega
    have hstop : forwards net daemons s g n = [] := by
      apply eq_nil_iff_forall_not_mem.mpr
      intro v hv
      have hv' := hinv.closed n hn hmore v hv
      have hle := hdeep v (List.mem_toFinset.mpr (hsent ▸ hv'))
      rw [htree.depth_succ hv] at hle
      omega
    have hnode := mem_nodes_of_path hs (hexact.path hp) n (by simp)
    rcases (forwards_acast hloop htab hs hg hnode).mp hstop with hown | hno
    · exact hown
    · exact absurd hp (hno m pre v rest hm hmem)

/-- Forwarding over independently computed tables: the sets form a tree, no daemon
gets a packet twice, a multicast comes to every member within its TTL and an anycast
to one. -/
theorem multicast_tree (net : Network) (hloop : ∀ e ∈ net.All_Edges, e.src ≠ e.dst)
    (states : Group_ID → List Group_State) (daemons : Node_ID → Daemon)
    (htab : Same_Tables net states daemons) (hdr : udp_header)
    (hs : hdr.source ∈ net.All_Nodes_by_ID)
    (hg : Is_mcast_addr hdr.dest ∨ Is_acast_addr hdr.dest) (hT : 0 < hdr.ttl) :
    (∃ depth, Treelike (forwards net daemons hdr.source hdr.dest) hdr.source depth) ∧
      ∀ ov, Run (Overlay.Step net) (Overlay.start daemons hdr) ov →
        ov.Served net states hdr fun m => m ∈ hop_by_hop net hdr.source m (hdr.ttl - 1) hdr.source := by
  have htree := forwards_treelike hloop htab hs hg
  refine ⟨⟨_, htree⟩, ?_⟩
  intro ov hrun
  have h := Overlay.Inv.run hloop htab hs hg hT hrun
  have hinv := Spread.Inv.run htree hT h.spread
  have hnd := hinv.nodup
  rw [ov.spread_sent] at hnd
  have hrnd : ov.received.Nodup := (nodup_append.mp hnd).2.1
  have hdone : ov.flight = [] → ov.spread.flight = [] := by
    intro hnil
    simp [Overlay.spread, hnil]
  have hnodes : ∀ v ∈ ov.received, v ∈ net.All_Nodes_by_ID := by
    intro v hv
    cases hinv.below htree v (mem_append_right _ hv) with
    | root => exact hs
    | child _ hv => exact (forwards_connected hloop htab hs hg hv).2
  have hmost : Is_acast_addr hdr.dest → ov.delivered.length ≤ 1 := by
    intro hacast
    have hsingle := Spread.Single.run (fun n => ?_) h.spread
    · have hsame : ∀ m ∈ ov.delivered, ov.received.head? = some m := by
        intro m hm
        obtain ⟨hrecv, hmember⟩ := (h.delivered m).mp hm
        refine (hsingle.last m hrecv ?_).2
        exact (forwards_acast hloop htab hs hacast (hnodes m hrecv)).mpr (.inl hmember)
      apply Nat.le_of_not_lt
      intro hlt
      obtain ⟨a, b, l, hl⟩ : ∃ a b l, ov.delivered = a :: b :: l := by
        match hd : ov.delivered, hlt with
        | a :: b :: l, _ => exact ⟨a, b, l, rfl⟩
      have hab := (hsame a (by simp [hl])).symm.trans (hsame b (by simp [hl]))
      have hdnd := h.sublist.nodup hrnd
      rw [hl] at hdnd
      simp [some.inj hab] at hdnd
    · unfold forwards
      split
      · exact (build_neighbors_acast hacast).1
      · simp
  constructor
  · exact hnd
  · exact h.sublist.nodup hrnd
  · exact fun m hm => ((h.delivered m).mp hm).2
  · intro hmcast hnil m hm hroute hnear
    obtain ⟨hmem, p, hp⟩ := path_of_route hloop hs hroute
    have hlen := length_le_of_near hloop htab hs hmem hp hT hnear
    have hconcat := ((chosen_path_exact net).path hp).eq_concat
    have hbelow := below_path hloop htab hs hmcast hm hmem hp hconcat
    have hdepth : hops_from net hdr.source m < hdr.ttl := by
      have hpos := length_pos_iff.mpr ((chosen_path_exact net).path hp).ne_nil
      rw [hops_from, hp, getD_some]
      omega
    exact (h.delivered m).mpr ⟨hinv.complete htree (hdone hnil) hbelow hdepth, hm⟩
  · exact hmost
  · intro hacast hnil hsome hnear
    obtain ⟨m, hrecv, hm⟩ := acast_reaches hloop htab hs hacast hinv (hdone hnil) hsome (by
      intro m p hm hmem hp
      have hdef : (RR_Init hdr.source net).isSome := by
        rw [htab.routing _ hs]
        rfl
      have hroute := route_of_path hloop hdef hs hmem hp
      exact length_le_of_near hloop htab hs hmem hp hT (hnear m hm hroute))
    have hpos := length_pos_of_mem ((h.delivered m).mpr ⟨hrecv, hm⟩)
    have hle := hmost hacast
    omega
  · exact (hrnd.subperm hnodes).length_le
  · intro hne
    obtain ⟨⟨n, copy⟩, rest, hcons⟩ := exists_cons_of_ne_nil hne
    exact ⟨n, _, .take (.of_eq hcons) rfl⟩

end Served

/-! ## 7. The limits -/

section Limits

def set_up (net : Network) (states : Group_ID → List Group_State) (n : Node_ID) : Daemon :=
  { My_Address := n
    Current_Routing := (RR_Init n net).getD (blank_routes net)
    All_Groups_by_Name := fun g => some (states g)
    Groups := fun _ _ => none
    cost := fun _ => -1 }

theorem set_up_same (net : Network) (states : Group_ID → List Group_State)
    (hdef : ∀ n ∈ net.All_Nodes_by_ID, (RR_Init n net).isSome) :
    Same_Tables net states (set_up net states) where
  address := fun _ => rfl
  routing := by
    intro n hn
    obtain ⟨rr, hrun⟩ := isSome_iff_exists.mp (hdef n hn)
    rw [set_up, hrun, getD_some]
  groups := fun _ _ => .refl _
  cache := by
    intro n g s neighbors h
    exact absurd h (by simp [set_up])

def far_member (m : Node_ID) (g : Group_ID) : List Group_State :=
  if g = 0xE0000001 then [{ node_nid := m, active := true }] else []

theorem far_member_member (m : Node_ID) : Member (far_member m) 0xE0000001 m :=
  ⟨⟨m, true⟩, by simp [far_member], rfl, rfl⟩

theorem multicast_tree_line :
    (∃ depth, Treelike (forwards (line_network 2) (set_up (line_network 2) (far_member 2)) 0
      0xE0000001) 0 depth) ∧ ∀ ov, Run (Overlay.Step (line_network 2))
        (Overlay.start (set_up (line_network 2) (far_member 2)) ⟨0, 0xE0000001, 3⟩) ov →
      ov.sent.Nodup ∧ (ov.flight = [] → 2 ∈ ov.delivered) := by
  have htab := set_up_same (line_network 2) (far_member 2) (by decide)
  obtain ⟨htree, hall⟩ := multicast_tree (line_network 2) (line_loop 2) (far_member 2) _ htab
    ⟨0, 0xE0000001, 3⟩ (by decide) (by decide) (by decide)
  refine ⟨htree, ?_⟩
  intro ov hrun
  have h := hall ov hrun
  refine ⟨h.once, fun hnil => ?_⟩
  refine h.mcast (by decide) hnil 2 (far_member_member 2) ?_ (by decide)
  exact ⟨_, _, rfl, rfl, by decide⟩

def self_edge : Network where
  All_Nodes_by_ID := [0]
  All_Edges := [{ src := 0, dst := 0, cost := 1 }]
  sorted := by simp
  keys := by simp
  ends := by simp
  cost_range := by simp

theorem steep_sorted (m : ℕ) : (range (m + 1)).Pairwise (· < ·) := List.pairwise_lt_range

/-- Nodes `0, …, m` in a line, every edge of the highest cost. -/
def steep_line (m : Nat) : Network where
  All_Nodes_by_ID := range (m + 1)
  All_Edges := (range m).map fun i => { src := i, dst := i + 1, cost := -32768 }
  sorted := steep_sorted m
  keys := by
    rw [List.map_map]
    refine List.nodup_range.map (fun a b hab => ?_)
    exact congrArg Prod.fst hab
  ends := by
    intro e he
    obtain ⟨i, hi, rfl⟩ := List.mem_map.mp he
    simp only [List.mem_range] at hi ⊢
    exact ⟨Nat.lt_succ_of_lt hi, Nat.succ_lt_succ hi⟩
  cost_range := by
    intro e he
    obtain ⟨i, -, rfl⟩ := List.mem_map.mp he
    dsimp only
    decide

theorem steep_node {m i : ℕ} (h : i < m + 1) : (steep_line m).node i = i := by
  rw [Network.node, getD_eq_getElem _ _ (by simpa [steep_line] using h)]
  simp [steep_line]

theorem steep_path_cost {m a b : Nat} {S : Set Node_ID} {p : List Node_ID}
    (h : Path (steep_line m).weight S a b p) :
    a * 32768 + pathCost (steep_line m).weight p = b * 32768 := by
  induction h with
  | nil i => simp
  | cons hedge _ hp ih =>
    obtain ⟨e, he, hsrc, hdst, hw⟩ := edge_of_weight hedge
    obtain ⟨i, -, rfl⟩ := List.mem_map.mp he
    subst hsrc hdst
    have hcost : ((steep_line m).weight i (i + 1)).getD 0 = 32768 := by
      rw [hw]
      rfl
    rw [hp.cost_cons, hcost, ← ih, Nat.succ_mul, add_assoc]

theorem steep_path {m : ℕ} {S : Set Node_ID} (l a : ℕ) (h : a + l ≤ m)
    (hS : ∀ x, a < x → x < a + l → x ∈ S) : ∃ p, Path (steep_line m).weight S a (a + l) p := by
  induction l generalizing a with
  | zero => exact ⟨_, .nil a⟩
  | succ l ih =>
    obtain ⟨p, hp⟩ := ih (a + 1) (by omega) (fun x hx hx' => hS x (by omega) (by omega))
    rw [show a + 1 + l = a + (l + 1) by omega] at hp
    refine ⟨a :: p, .cons ?_ ?_ hp⟩
    · rw [Network.weight, edge_weight, isSome_map, List.find?_isSome]
      refine ⟨{ src := a, dst := a + 1, cost := -32768 }, ?_, by simp⟩
      exact List.mem_map.mpr ⟨a, mem_range.mpr (by omega), rfl⟩
    · rcases Nat.eq_zero_or_pos l with rfl | hl
      · right
        cases hp with
        | nil => rfl
        | cons hedge _ hrest =>
          have hcost := steep_path_cost hrest
          obtain ⟨e, he, hsrc, hdst, -⟩ := edge_of_weight hedge
          obtain ⟨i, -, rfl⟩ := List.mem_map.mp he
          subst hsrc hdst
          dsimp only at hcost
          omega
      · exact .inl (hS (a + 1) (by omega) (by omega))

theorem steep_line_overflow {m : ℕ} (hm : 2 ^ 16 ≤ m) (me : Node_ID) :
    RR_Init me (steep_line m) = none := by
  rw [eq_none_iff_forall_ne_some]
  intro rr hrun
  have hlen : (steep_line m).All_Nodes_by_ID.length = m + 1 := by simp [steep_line]
  have hloop : ∀ e ∈ (steep_line m).All_Edges, e.src ≠ e.dst := by
    intro e he
    obtain ⟨i, -, rfl⟩ := List.mem_map.mp he
    simp
  -- the round through the last node but one joins the two halves
  have hfits := (rr_init_defined hloop hrun).2 (m - 1) (by omega) 0 (by omega) m (by omega)
  have hT := paths_after_exact (steep_line m) (m - 1)
  obtain ⟨p, hp⟩ := steep_path (m := m) (m - 1) 0 (by omega)
    (S := {x | x ∈ (range (m - 1)).map (steep_line m).node}) (by
      intro x hx hx'
      refine List.mem_map.mpr ⟨x, mem_range.mpr (by omega), steep_node (by omega)⟩)
  obtain ⟨q, hq⟩ := steep_path (m := m) 1 (m - 1) (by omega)
    (S := {x | x ∈ (range (m - 1)).map (steep_line m).node}) (by omega)
  obtain ⟨p', hp', -⟩ := hT.best hp
  obtain ⟨q', hq', -⟩ := hT.best hq
  have hcost := steep_path_cost (hT.path hp')
  have hcost' := steep_path_cost (hT.path hq')
  rw [zero_add] at hp'
  rw [Nat.sub_add_cancel (by omega)] at hq'
  have hsum := hfits p' q' (by omega) (by omega) (by omega)
    (by rw [steep_node (by omega), steep_node (by omega)]; exact hp')
    (by rw [steep_node (by omega), steep_node (by omega)]; exact hq')
  omega

/-- A packet of TTL 1 stays at its source; a daemon with an edge to itself forwards to
itself; and in a long line of expensive edges there are no routes at all. -/
theorem multicast_limits :
    (HasRoute (line_network 1) 0 1 ∧ ¬∀ ov, Run (Overlay.Step (line_network 1))
          (Overlay.start (set_up (line_network 1) (far_member 1)) ⟨0, 0xE0000001, 1⟩) ov →
        ov.Served (line_network 1) (far_member 1) ⟨0, 0xE0000001, 1⟩ fun _ => True) ∧
    (0 ∈ forwards self_edge (set_up self_edge (far_member 0)) 0 0xE0000001 0) ∧
    ∀ me, RR_Init me (steep_line 65536) = none := by
  refine ⟨⟨⟨_, _, rfl, rfl, by decide⟩, ?_⟩, by decide, steep_line_overflow (by decide)⟩
  intro hall
  have hrun : Run (Overlay.Step (line_network 1))
      (Overlay.start (set_up (line_network 1) (far_member 1)) ⟨0, 0xE0000001, 1⟩) _ :=
    (Run.refl _).tail (.take (List.Perm.refl _) rfl)
  have hmem := (hall _ hrun).mcast (by decide) rfl 1 (far_member_member 1)
    ⟨_, _, rfl, rfl, by decide⟩ trivial
  exact absurd hmem (by decide)

end Limits

end Spines.Routing
