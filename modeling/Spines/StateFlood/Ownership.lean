/-
Who decides about a daemon's own edges (`Edge_Process_state_cell` of
`daemon/link_state.c`, the loop of `Process_state_packet` and `Add_to_changed_states` of
`daemon/state_flood.c`).

A neighbor may claim anything of an edge of this daemon, for example what the daemon
itself said before it was started again. The stamp of such a cell is taken over and
counted up once more, and the edge goes out again as it is; its cost is not touched.

Elsewhere the stamps of states are numbers without a bound; here, as for the groups
(`Sessions.Membership`), they are `int32`. Counting up is guarded by nothing, and a claim
with the last stamp of the range turns the stamp of the edge back
(`last_stamp_turns_back`). Signed overflow is taken to wrap around. `Stamp.Room` is what
a cell has to leave.
-/
import Spines.Sessions.Membership
import Spines.StateFlood.Flooding

set_option autoImplicit false

namespace Spines.StateFlood.Ownership

open Spines.Lib Spines.Sessions Function Option List

/-! ## 1. Edges and cells -/

abbrev Stamp := Membership.Stamp

structure Edge where
  stamp : Stamp
  my_timestamp : Stamp
  cost : Int16
  age : Int16
  lts : BitVec 16
  deriving DecidableEq

structure Edge_Cell where
  dest : Node_ID
  stamp : Stamp
  cost : Int16
  age : Int16
  lts : BitVec 16

structure Daemon where
  My_Address : Node_ID
  All_Nodes : Node_ID → Bool
  All_Edges : Node_ID → Node_ID → Option Edge
  Link_State_Update_LTS : BitVec 16
  Changed_States : List Changed_State
  /-- `Send_State_Updates` is in the event queue -/
  queued : Bool
  Neighbor_Nodes : List (Option Node_ID)
  /-- cost of the leg to a node; -1 when it is not connected -/
  leg_cost : Node_ID → Int

def Daemon.set_edge (d : Daemon) (src dst : Node_ID) (edge : Edge) : Daemon :=
  { d with
    All_Edges := Function.update d.All_Edges src
      (Function.update (d.All_Edges src) dst (some edge)) }

def Daemon.neighbor_id (d : Daemon) (nid : Node_ID) : Option ℕ :=
  d.Neighbor_Nodes.idxOf? (some nid)

/-- The neighbors that need not hear of a change. The daemon exits when the sender is not a
connected neighbor. -/
def first_mask (d : Daemon) (sender : Node_ID) : Option (ℕ → Bool) :=
  if sender = d.My_Address then some fun _ => false
  else if d.leg_cost sender ≠ -1 then (d.neighbor_id sender).map fun id i => i == id
  else none

def Add_to_changed_states (now : Stamp) (sender src_id dst_id : Node_ID) (d : Daemon) :
    Option Daemon := do
  let edge ← d.All_Edges src_id dst_id
  let mask ← first_mask d sender
  some { d.set_edge src_id dst_id { edge with my_timestamp := now } with
    queued := d.queued || d.Changed_States.isEmpty
    Changed_States :=
      match Find_Changed_State d.Changed_States src_id dst_id with
      | none => d.Changed_States ++ [⟨src_id, dst_id, mask⟩]
      | some _ => set_mask d.Changed_States src_id dst_id fun _ => mask }

/-- `Create_Edge` for an edge that is not known from the configuration: the edge, and
`Link_State_Update_LTS`. -/
def Create_Edge (now : Stamp) (d : Daemon) (src_id : Node_ID) : Edge × BitVec 16 :=
  if src_id = d.My_Address then
    (⟨now, now, -1, 0, d.Link_State_Update_LTS + 1⟩, d.Link_State_Update_LTS + 1)
  else (⟨⟨0, 0⟩, now, -1, 0, 0⟩, d.Link_State_Update_LTS)

/-- Returns `false` for an update that must not be propagated. -/
def Edge_Process_state_cell (now : Stamp) (source : Node_ID) (edge_cell : Edge_Cell) (d : Daemon) :
    Option (Daemon × Bool) :=
  let d := { d with All_Nodes := fun n => d.All_Nodes n || n == source || n == edge_cell.dest }
  let (edge, lts) :=
    match d.All_Edges source edge_cell.dest with
    | some edge => (edge, d.Link_State_Update_LTS)
    | none => Create_Edge now d source
  let lts := if Link_State_LTS_cmp edge_cell.lts lts > 0 then edge_cell.lts else lts
  let edge := { edge with stamp := edge_cell.stamp }
  if source ≠ d.My_Address then
    let edge := { edge with age := edge_cell.age, cost := edge_cell.cost, lts := edge_cell.lts }
    some ({ d.set_edge source edge_cell.dest edge with Link_State_Update_LTS := lts }, true)
  else do
    -- only this daemon publishes its own edges
    let edge := { edge with stamp := edge.stamp.bump, lts := lts + 1 }
    let d ← Add_to_changed_states now d.My_Address source edge_cell.dest
      { d.set_edge source edge_cell.dest edge with Link_State_Update_LTS := lts + 1 }
    some (d, false)

structure Update where
  now : Stamp
  sender : Node_ID
  source : Node_ID
  cell : Edge_Cell

def newer (u : Update) (d : Daemon) : Bool :=
  (d.All_Edges u.source u.cell.dest).all fun edge => edge.stamp.older u.cell.stamp

def process_cell (d : Daemon) (u : Update) : Option Daemon :=
  if newer u d then do
    let (d, propagate) ← Edge_Process_state_cell u.now u.source u.cell d
    if propagate then Add_to_changed_states u.now u.sender u.source u.cell.dest d else some d
  else if (d.All_Edges u.source u.cell.dest).any fun edge => edge.stamp = u.cell.stamp then
    -- the sender is already aware of a change that waits to go out
    match Find_Changed_State d.Changed_States u.source u.cell.dest with
    | none => some d
    | some _ => do
      let id ← d.neighbor_id u.sender
      some { d with
        Changed_States := set_mask d.Changed_States u.source u.cell.dest fun m i => m i || i == id }
  else some d

/-- `Process_state_packet` for the cells of one packet. -/
def Process_state_packet (d : Daemon) (us : List Update) : Option Daemon :=
  us.foldlM process_cell d

/-! ## 2. What is heard -/

structure Heard where
  update : Update
  was_newer : Bool

def heard (d : Daemon) : List Update → List Heard
  | [] => []
  | u :: us => ⟨u, newer u d⟩ :: (process_cell d u).elim [] fun d => heard d us

def Heard.Room (My_Address : Node_ID) (x : Heard) : Prop :=
  x.update.source = My_Address → x.was_newer = true → x.update.cell.stamp.Room

inductive Packets (d₀ : Daemon) : List Heard → Daemon → Prop
  | nil : Packets d₀ [] d₀
  | packet {log : List Heard} {d d' : Daemon} (us : List Update) (h : Packets d₀ log d)
      (hrun : Process_state_packet d us = some d')
      (hroom : ∀ x ∈ heard d us, x.Room d₀.My_Address) : Packets d₀ (log ++ heard d us) d'

def Ahead (d : Daemon) (x : Heard) : Prop :=
  ∃ edge, d.All_Edges x.update.source x.update.cell.dest = some edge ∧
    ¬ edge.stamp.older x.update.cell.stamp ∧
    (x.was_newer = true → x.update.cell.stamp.older edge.stamp ∧
      (x.update.source, x.update.cell.dest) ∈ d.Changed_States.map Changed_State.key)

/-- No edge of this daemon goes, changes its cost or gets a smaller stamp, and what waits
to go out still does. -/
structure Kept (d d' : Daemon) : Prop where
  address : d'.My_Address = d.My_Address
  edge : ∀ dest edge, d.All_Edges d.My_Address dest = some edge →
    ∃ edge', d'.All_Edges d.My_Address dest = some edge' ∧ edge'.cost = edge.cost ∧
      (edge'.stamp = edge.stamp ∨ edge.stamp.older edge'.stamp)
  changed : d.Changed_States.map Changed_State.key ⊆ d'.Changed_States.map Changed_State.key

/-! ## 3. One cell -/

section Cell

variable {d d' d'' : Daemon} {now : Stamp} {sender src dst : Node_ID} {u : Update} {edge : Edge}

theorem set_edge_self (d : Daemon) (src dst : Node_ID) (edge : Edge) :
    (d.set_edge src dst edge).All_Edges src dst = some edge := by
  unfold Daemon.set_edge
  dsimp only
  rw [update_self, update_self]

theorem set_edge_other (d : Daemon) {src dst a b : Node_ID} (edge : Edge)
    (h : ¬ (a = src ∧ b = dst)) : (d.set_edge src dst edge).All_Edges a b = d.All_Edges a b := by
  unfold Daemon.set_edge
  dsimp only
  by_cases ha : a = src
  · subst ha
    rw [update_self, update_of_ne fun hb => h ⟨rfl, hb⟩]
  · rw [update_of_ne ha]

theorem Kept.refl (d : Daemon) : Kept d d :=
  ⟨rfl, fun _ edge h => ⟨edge, h, rfl, .inl rfl⟩, List.Subset.refl _⟩

theorem Kept.trans (h : Kept d d') (h' : Kept d' d'') : Kept d d'' := by
  refine ⟨h'.address.trans h.address, fun dest edge hedge => ?_, List.Subset.trans h.changed h'.changed⟩
  obtain ⟨edge', hedge', hcost, hstamp⟩ := h.edge dest edge hedge
  rw [← h.address] at hedge'
  obtain ⟨edge'', hedge'', hcost', hstamp'⟩ := h'.edge dest edge' hedge'
  rw [h.address] at hedge''
  refine ⟨edge'', hedge'', hcost'.trans hcost, ?_⟩
  rcases hstamp with heq | hlt
  · rw [← heq]
    exact hstamp'
  · rcases hstamp' with heq' | hlt'
    · rw [heq']
      exact .inr hlt
    · exact .inr (hlt.trans hlt')

theorem Ahead.kept {x : Heard} (h : Ahead d x) (hown : x.update.source = d.My_Address)
    (hkept : Kept d d') : Ahead d' x := by
  obtain ⟨edge, hedge, hle, hnew⟩ := h
  rw [hown] at hedge
  obtain ⟨edge', hedge', -, hstamp⟩ := hkept.edge _ edge hedge
  rw [← hown] at hedge'
  refine ⟨edge', hedge', ?_, fun hx => ⟨?_, hkept.changed (hnew hx).2⟩⟩
  · rcases hstamp with heq | hlt
    · rw [heq]
      exact hle
    · intro hlt'
      exact hle (hlt.trans hlt')
  · rcases hstamp with heq | hlt
    · rw [heq]
      exact (hnew hx).1
    · exact (hnew hx).1.trans hlt

theorem add_to_changed_spec (hadd : Add_to_changed_states now sender src dst d = some d') :
    d'.My_Address = d.My_Address ∧
      (∃ edge, d.All_Edges src dst = some edge ∧
        d'.All_Edges src dst = some { edge with my_timestamp := now }) ∧
      (∀ a b, ¬ (a = src ∧ b = dst) → d'.All_Edges a b = d.All_Edges a b) ∧
      d.Changed_States.map Changed_State.key ⊆ d'.Changed_States.map Changed_State.key ∧
      (src, dst) ∈ d'.Changed_States.map Changed_State.key := by
  unfold Add_to_changed_states at hadd
  obtain ⟨edge, hedge, hadd⟩ := bind_eq_some_iff.mp hadd
  obtain ⟨mask, -, hadd⟩ := bind_eq_some_iff.mp hadd
  obtain rfl := some.inj hadd
  refine ⟨rfl, ⟨edge, hedge, set_edge_self d src dst _⟩, fun a b h => set_edge_other d _ h, ?_⟩
  split
  · rw [map_append]
    exact ⟨subset_append_left _ _, mem_append_right _ mem_cons_self⟩
  · rename_i c hfind
    rw [set_mask_keys d.Changed_States (src, dst)]
    refine ⟨List.Subset.refl _, ?_⟩
    have hkey := List.find?_some hfind
    rw [← (is_iff c (src, dst)).mp hkey]
    exact List.mem_map_of_mem (mem_of_find?_eq_some hfind)

theorem own_cell_spec (hown : u.source = d.My_Address) (hnew : newer u d = true)
    (hrun : process_cell d u = some d') :
    d'.My_Address = d.My_Address ∧
      (∃ edge', d'.All_Edges u.source u.cell.dest = some edge' ∧
        edge'.stamp = u.cell.stamp.bump ∧
        ∀ edge, d.All_Edges u.source u.cell.dest = some edge → edge'.cost = edge.cost) ∧
      (∀ a b, ¬ (a = u.source ∧ b = u.cell.dest) → d'.All_Edges a b = d.All_Edges a b) ∧
      d.Changed_States.map Changed_State.key ⊆ d'.Changed_States.map Changed_State.key ∧
      (u.source, u.cell.dest) ∈ d'.Changed_States.map Changed_State.key := by
  unfold process_cell at hrun
  rw [if_pos hnew] at hrun
  obtain ⟨⟨d1, propagate⟩, hcell, hrun⟩ := bind_eq_some_iff.mp hrun
  unfold Edge_Process_state_cell at hcell
  dsimp only at hcell
  rw [if_neg (not_not.mpr hown)] at hcell
  obtain ⟨d2, hadd, hcell⟩ := bind_eq_some_iff.mp hcell
  obtain ⟨rfl, rfl⟩ := Prod.mk.inj (some.inj hcell)
  obtain rfl := some.inj hrun
  obtain ⟨haddress, ⟨edge', hedge', hstored⟩, hother, hchanged, hkey⟩ := add_to_changed_spec hadd
  refine ⟨haddress, ⟨_, hstored, ?_⟩, fun a b h => ?_, hchanged, hkey⟩
  · dsimp only at hedge'
    rw [set_edge_self] at hedge'
    obtain rfl := some.inj hedge'
    refine ⟨rfl, fun edge hedge => ?_⟩
    rw [hedge]
  · rw [hother a b h]
    exact set_edge_other _ _ h

theorem other_cell_kept (h : ¬ (u.source = d.My_Address ∧ newer u d = true))
    (hrun : process_cell d u = some d') : Kept d d' := by
  have hsame : ∀ d1 : Daemon, d1.My_Address = d.My_Address →
      (∀ b, d1.All_Edges d.My_Address b = d.All_Edges d.My_Address b) →
      d.Changed_States.map Changed_State.key ⊆ d1.Changed_States.map Changed_State.key →
      Kept d d1 := by
    intro d1 haddress hedges hchanged
    exact ⟨haddress, fun dest edge hedge => ⟨edge, (hedges dest).trans hedge, rfl, .inl rfl⟩,
      hchanged⟩
  unfold process_cell at hrun
  split at hrun
  · rename_i hnew
    have hother : u.source ≠ d.My_Address := fun hown => h ⟨hown, hnew⟩
    obtain ⟨⟨d1, propagate⟩, hcell, hrun⟩ := bind_eq_some_iff.mp hrun
    unfold Edge_Process_state_cell at hcell
    dsimp only at hcell
    rw [if_pos hother] at hcell
    obtain ⟨rfl, rfl⟩ := Prod.mk.inj (some.inj hcell)
    obtain ⟨haddress, -, hedges, hchanged, -⟩ := add_to_changed_spec hrun
    refine hsame d' haddress (fun b => ?_) hchanged
    have hne : ¬ (d.My_Address = u.source ∧ b = u.cell.dest) := fun heq => hother heq.1.symm
    rw [hedges _ _ hne]
    exact set_edge_other _ _ hne
  split at hrun
  · -- the sender knows the state
    split at hrun
    · obtain rfl := some.inj hrun
      exact .refl d
    · obtain ⟨id, -, hrun⟩ := bind_eq_some_iff.mp hrun
      obtain rfl := some.inj hrun
      refine hsame _ rfl (fun _ => rfl) ?_
      rw [set_mask_keys d.Changed_States (u.source, u.cell.dest)]
      exact List.Subset.refl _
  · obtain rfl := some.inj hrun
    exact .refl d

theorem stored_of_not_newer (h : ¬ newer u d = true) :
    ∃ edge, d.All_Edges u.source u.cell.dest = some edge ∧ ¬ edge.stamp.older u.cell.stamp := by
  unfold newer at h
  cases hedge : d.All_Edges u.source u.cell.dest with
  | none =>
    rw [hedge] at h
    exact absurd rfl h
  | some edge =>
    rw [hedge, all_some] at h
    exact ⟨edge, rfl, fun hlt => h (decide_eq_true hlt)⟩

theorem cell_kept (hrun : process_cell d u = some d')
    (hroom : (Heard.mk u (newer u d)).Room d.My_Address) :
    Kept d d' ∧ (u.source = d.My_Address → Ahead d' ⟨u, newer u d⟩) := by
  by_cases hnew : newer u d = true
  · by_cases hown : u.source = d.My_Address
    · obtain ⟨haddress, ⟨edge', hedge', hstamp, hcost⟩, hother, hchanged, hkey⟩ :=
        own_cell_spec hown hnew hrun
      have hbump : u.cell.stamp.older u.cell.stamp.bump :=
        u.cell.stamp.bump_greater.mpr (hroom hown hnew)
      refine ⟨⟨haddress, fun dest edge hedge => ?_, hchanged⟩, fun _ => ?_⟩
      · by_cases hdest : dest = u.cell.dest
        · rw [← hown, hdest] at hedge ⊢
          -- the stored stamp is older than that of the cell
          have hlt : edge.stamp.older u.cell.stamp := by
            unfold newer at hnew
            rw [hedge, all_some] at hnew
            exact of_decide_eq_true hnew
          refine ⟨edge', hedge', hcost edge hedge, .inr ?_⟩
          rw [hstamp]
          exact hlt.trans hbump
        · exact ⟨edge, (hother _ _ fun heq => hdest heq.2).trans hedge, rfl, .inl rfl⟩
      · refine ⟨edge', hedge', ?_, fun _ => ⟨?_, hkey⟩⟩
        · rw [hstamp]
          intro hlt
          have hcycle : u.cell.stamp.older u.cell.stamp := hbump.trans hlt
          rw [Membership.Stamp.older_iff] at hcycle
          omega
        · rw [hstamp]
          exact hbump
    · exact ⟨other_cell_kept (fun h => hown h.1) hrun, fun h => absurd h hown⟩
  · have hkept := other_cell_kept (fun h => hnew h.2) hrun
    refine ⟨hkept, fun hown => ?_⟩
    obtain ⟨edge, hedge, hle⟩ := stored_of_not_newer hnew
    have hahead : Ahead d ⟨u, newer u d⟩ := ⟨edge, hedge, hle, fun h => absurd h hnew⟩
    exact hahead.kept hown hkept

theorem cell_cost (hrun : process_cell d u = some d') :
    d'.My_Address = d.My_Address ∧ ∀ dest edge, d.All_Edges d.My_Address dest = some edge →
      ∃ edge', d'.All_Edges d.My_Address dest = some edge' ∧ edge'.cost = edge.cost := by
  by_cases h : u.source = d.My_Address ∧ newer u d = true
  · obtain ⟨haddress, ⟨edge', hedge', -, hcost⟩, hother, -⟩ := own_cell_spec h.1 h.2 hrun
    refine ⟨haddress, fun dest edge hedge => ?_⟩
    by_cases hdest : dest = u.cell.dest
    · rw [← h.1, hdest] at hedge ⊢
      exact ⟨edge', hedge', hcost edge hedge⟩
    · exact ⟨edge, (hother _ _ fun heq => hdest heq.2).trans hedge, rfl⟩
  · have hkept := other_cell_kept h hrun
    refine ⟨hkept.address, fun dest edge hedge => ?_⟩
    obtain ⟨edge', hedge', hcost, -⟩ := hkept.edge dest edge hedge
    exact ⟨edge', hedge', hcost⟩

end Cell

/-! ## 4. Packets -/

section Packets

variable {d d₀ d' : Daemon} {log : List Heard}

theorem packet_kept {us : List Update} (hrun : Process_state_packet d us = some d')
    (hroom : ∀ x ∈ heard d us, x.Room d.My_Address) :
    Kept d d' ∧ ∀ x ∈ heard d us, x.update.source = d.My_Address → Ahead d' x := by
  induction us generalizing d with
  | nil =>
    obtain rfl := some.inj hrun
    exact ⟨.refl d, fun x hx => absurd hx not_mem_nil⟩
  | cons u us ih =>
    unfold Process_state_packet at hrun
    rw [foldlM_cons] at hrun
    obtain ⟨d1, hcell, hrest⟩ := bind_eq_some_iff.mp hrun
    rw [heard, hcell, elim_some] at hroom ⊢
    obtain ⟨hkept, hahead⟩ := cell_kept hcell (hroom _ mem_cons_self)
    obtain ⟨hkept', hahead'⟩ := ih hrest fun x hx => by
      rw [hkept.address]
      exact hroom x (mem_cons_of_mem _ hx)
    refine ⟨hkept.trans hkept', fun x hx hown => ?_⟩
    rcases mem_cons.mp hx with rfl | hx
    · exact (hahead hown).kept (hown.trans hkept.address.symm) hkept'
    · exact hahead' x hx (hown.trans hkept.address.symm)

theorem packet_cost {us : List Update} (hrun : Process_state_packet d us = some d') :
    ∀ dest edge, d.All_Edges d.My_Address dest = some edge →
      ∃ edge', d'.All_Edges d.My_Address dest = some edge' ∧ edge'.cost = edge.cost := by
  induction us generalizing d with
  | nil =>
    obtain rfl := some.inj hrun
    exact fun dest edge hedge => ⟨edge, hedge, rfl⟩
  | cons u us ih =>
    unfold Process_state_packet at hrun
    rw [foldlM_cons] at hrun
    obtain ⟨d1, hcell, hrest⟩ := bind_eq_some_iff.mp hrun
    obtain ⟨haddress, hcost⟩ := cell_cost hcell
    intro dest edge hedge
    obtain ⟨edge1, hedge1, hcost1⟩ := hcost dest edge hedge
    rw [← haddress] at hedge1
    obtain ⟨edge', hedge', hcost'⟩ := ih hrest dest edge1 hedge1
    rw [haddress] at hedge'
    exact ⟨edge', hedge', hcost'.trans hcost1⟩

theorem packets_kept (h : Packets d₀ log d) :
    Kept d₀ d ∧ ∀ x ∈ log, x.update.source = d₀.My_Address → Ahead d x := by
  induction h with
  | nil => exact ⟨.refl d₀, fun x hx => absurd hx not_mem_nil⟩
  | packet us _ hrun hroom ih =>
    obtain ⟨hkept, hahead⟩ := ih
    rw [← hkept.address] at hroom
    obtain ⟨hkept', hahead'⟩ := packet_kept hrun hroom
    refine ⟨hkept.trans hkept', fun x hx hown => ?_⟩
    rcases mem_append.mp hx with hx | hx
    · exact (hahead x hx hown).kept (hown.trans hkept.address.symm) hkept'
    · exact hahead' x hx (hown.trans hkept.address.symm)

/-- **A daemon's own edges.** No packet changes the cost of one. In a run whose packets
leave room, the stored stamp of an edge is never smaller than one that was heard for it,
and it is greater than one that was newer than what was known; the edge waits to go out
again then. A newer claim is outdone exactly if it leaves room. -/
theorem own_edges (d₀ : Daemon) : (∀ d d' us, Process_state_packet d us = some d' →
      ∀ dest edge, d.All_Edges d.My_Address dest = some edge →
        ∃ edge', d'.All_Edges d.My_Address dest = some edge' ∧ edge'.cost = edge.cost) ∧
    (∀ log d, Packets d₀ log d → ∀ x ∈ log, x.update.source = d₀.My_Address → Ahead d x) ∧
    (∀ d d' u, u.source = d.My_Address → newer u d = true → process_cell d u = some d' →
      ((∃ edge, d'.All_Edges u.source u.cell.dest = some edge ∧
        u.cell.stamp.older edge.stamp) ↔ u.cell.stamp.Room)) := by
  refine ⟨fun d d' us hrun => packet_cost hrun, fun log d h => (packets_kept h).2,
    fun d d' u hown hnew hrun => ?_⟩
  obtain ⟨-, ⟨edge', hedge', hstamp, -⟩, -⟩ := own_cell_spec hown hnew hrun
  rw [← u.cell.stamp.bump_greater, ← hstamp]
  constructor
  · rintro ⟨edge, hedge, hlt⟩
    rw [hedge'] at hedge
    exact some.inj hedge ▸ hlt
  · exact fun hlt => ⟨edge', hedge', hlt⟩

end Packets

def one_edge : Daemon where
  My_Address := 1
  All_Nodes := fun n => n == 1 || n == 2
  All_Edges := fun a b => if a = 1 ∧ b = 2 then some ⟨⟨1000, 0⟩, ⟨1000, 0⟩, 10, 0, 1⟩ else none
  Link_State_Update_LTS := 1
  Changed_States := []
  queued := false
  Neighbor_Nodes := [some 2]
  leg_cost := fun n => if n = 2 then 10 else -1

def claim (stamp : Stamp) : Update := ⟨⟨1001, 0⟩, 2, 1, ⟨2, stamp, 99, 0, 1⟩⟩

theorem own_edges_restart : ∃ d, Packets one_edge [⟨claim ⟨2000, 999999⟩, true⟩] d ∧
    Ahead d ⟨claim ⟨2000, 999999⟩, true⟩ ∧ (d.All_Edges 1 2).map Edge.stamp = some ⟨2001, 0⟩ := by
  obtain ⟨d, hcell⟩ : ∃ d, process_cell one_edge (claim ⟨2000, 999999⟩) = some d :=
    isSome_iff_exists.mp rfl
  have hstamp : ((process_cell one_edge (claim ⟨2000, 999999⟩)).bind
      fun d => (d.All_Edges 1 2).map Edge.stamp) = some ⟨2001, 0⟩ := by decide
  have hnew : newer (claim ⟨2000, 999999⟩) one_edge = true := by decide
  have hheard : heard one_edge [claim ⟨2000, 999999⟩] = [⟨claim ⟨2000, 999999⟩, true⟩] := by
    rw [heard, hcell, hnew]
    rfl
  have hrun : Process_state_packet one_edge [claim ⟨2000, 999999⟩] = some d := by
    unfold Process_state_packet
    rw [foldlM_cons, hcell]
    rfl
  have hroom : ∀ x ∈ heard one_edge [claim ⟨2000, 999999⟩], x.Room one_edge.My_Address := by
    rw [hheard]
    intro x hx _ _
    rw [mem_singleton.mp hx]
    exact ⟨by decide, fun _ => by decide⟩
  have hpacket : Packets one_edge [⟨claim ⟨2000, 999999⟩, true⟩] d := by
    have h := Packets.nil.packet [claim ⟨2000, 999999⟩] hrun hroom
    rwa [hheard, nil_append] at h
  rw [hcell] at hstamp
  exact ⟨d, hpacket, (own_edges one_edge).2.1 _ d hpacket _ mem_cons_self rfl, hstamp⟩

theorem last_stamp_turns_back :
    newer (claim ⟨2147483647, 999999⟩) one_edge = true ∧
      ((Process_state_packet one_edge [claim ⟨2147483647, 999999⟩]).bind
        fun d => (d.All_Edges 1 2).map Edge.stamp) = some ⟨-2147483648, 0⟩ ∧
      ¬ Membership.Stamp.older ⟨2147483647, 999999⟩ ⟨-2147483648, 0⟩ := by
  decide

end Spines.StateFlood.Ownership
