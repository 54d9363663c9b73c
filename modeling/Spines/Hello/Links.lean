/-
The network legs of one daemon, the links that run on them and the timers that
are queued for the links (`daemon/link.c`, `daemon/network.c`).

A link object lives at an address, and everything else refers to it by that
address or by its number in the global array `Links`. Timers are queued with
the number. Numbers are used again after a link is destroyed, addresses are
not: `new` takes the next one, so that an address names one object for good.

Left out are the contents of packets, the windows of messages behind `head` and
`tail`, the times and the congestion control (its float is a parameter of the
events), and the sessions that a link may block.
-/
import Spines.Lib.Slots
import Spines.StateFlood.Packets

set_option autoImplicit false

namespace Spines.Hello

open Spines.Lib Option Function
open Spines.StateFlood (Prot_Def sizeof_packet_body sizeof_reliable_tail)

/-! ## 1. Links, legs and timers -/

inductive Link_Type
  | CONTROL_LINK
  | UDP_LINK
  | RELIABLE_UDP_LINK
  | REALTIME_UDP_LINK
  | RESERVED0_LINK
  | RESERVED1_LINK
  | INTRUSION_TOL_LINK
  deriving DecidableEq

/-- The link types in the order of the enumeration, below `MAX_LINKS_4_EDGE`. -/
def Link_Type.all : List Link_Type :=
  [.CONTROL_LINK, .UDP_LINK, .RELIABLE_UDP_LINK, .REALTIME_UDP_LINK, .RESERVED0_LINK,
    .RESERVED1_LINK, .INTRUSION_TOL_LINK]

inductive Leg_Status
  | DISCONNECTED_LEG
  | NOT_YET_CONNECTED_LEG
  | CONNECTED_LEG
  deriving DecidableEq

def MAX_LINKS_4_EDGE : ℕ := 7
def MAX_NEIGHBORS : ℕ := 256
def MAX_LINKS : ℕ := MAX_NEIGHBORS * MAX_LINKS_4_EDGE
def DEAD_LINK_CNT : ℕ := 10
def CONNECT_LINK_CNT : ℕ := 1 + DEAD_LINK_CNT / 2
def MAX_LATENCY : ℤ := 600

inductive Link_Flags
  | UNAVAILABLE_LINK
  | CONNECTED_LINK
  deriving DecidableEq

/-- What a congestion window allows: the number of messages that may be
outstanding. The code has a float, at most the float of an `int`. -/
abbrev Window : Type := Fin (2 ^ 31 + 1)

/-- A link's reliable data. The message buffer holds the sequence numbers of its
cells. -/
structure Reliable_Data where
  flags : Link_Flags
  seq_no : BitVec 32
  head : BitVec 32
  tail : BitVec 32
  msg_buff : List (BitVec 32)
  window_size : Window
  nack_buff : Bool
  nack_len : ℕ
  scheduled_ack : Bool
  scheduled_timeout : Bool

inductive Timer
  | Send_Hello
  | Dead_Leg
  | Send_Hello_Request
  | Send_Hello_Request_Cnt
  | Net_Send_State_All (p_def : Prot_Def)
  | Reliable_timeout
  | Send_Ack
  | Send_Nack_Retransm
  | Try_to_Send
  | Send_RT_Nack
  | Send_RT_Retransm
  deriving DecidableEq

/-- The timers queued with one number. With each stands the address of the
object that had the number at the time, of which the code keeps no record. -/
abbrev Row : Type := Timer → Option (Option ℕ)

structure Link (ν : Type*) where
  link_id : ℕ
  link_type : Link_Type
  leg : ν

structure Network_Leg where
  status : Leg_Status
  cost : ℤ
  other_side_ctrl_link_id : ℕ
  hellos_out : ℕ
  connect_cnter : ℕ
  links : Link_Type → Option ℕ

inductive Route
  | DISTANCE_ROUTE
  | LATENCY_ROUTE
  | LOSSRATE_ROUTE
  | AVERAGE_ROUTE
  | PROBLEM_ROUTE
  deriving DecidableEq

/-- The settings of the daemon that the functions here read. `Sorted_Edges` says
for which neighbors the configuration file has an edge, and `initial_window` is
`Minimum_Window` under `TCP_Fairness`, else `MAX_CG_WINDOW`. -/
structure Config (ν : Type*) where
  Intrusion_Tolerance_Mode : Bool
  Config_File_Found : Bool
  Sorted_Edges : ν → Bool
  Route_Weight : Route
  hello_cnt_start : ℕ
  initial_window : Window

/-- The daemon. A node that can be a neighbor has one edge from this node and
one leg, so the legs, the edges and the nodes have one index; `link` holds the
objects, and `r_data` and `other_side_hello_seq` are fields of theirs. -/
structure Daemon (ν : Type*) where
  leg : ν → Network_Leg
  edge_cost : ν → ℤ
  neighbor_id : ν → Option ℕ
  Neighbor_Nodes : ℕ → Option ν
  Num_Neighbors : ℕ
  Links : ℕ → Option ℕ
  link : ℕ → Option (Link ν)
  r_data : ℕ → Option Reliable_Data
  other_side_hello_seq : ℕ → ℤ
  queue : ℕ → Row
  fresh : ℕ

def Network_Leg.wait (leg : Network_Leg) : Network_Leg :=
  { leg with
    status := .NOT_YET_CONNECTED_LEG
    cost := -1
    other_side_ctrl_link_id := 0
    hellos_out := 0
    connect_cnter := 0 }

def Network_Leg.connected (leg : Network_Leg) : Network_Leg :=
  { leg with status := .CONNECTED_LEG }

def Network_Leg.drop (leg : Network_Leg) : Network_Leg :=
  { leg with status := .DISCONNECTED_LEG, other_side_ctrl_link_id := 0 }

namespace Daemon

variable {ν : Type*}

/-! ## 2. The event queue

`E_queue` replaces a queued event of the same function and number. -/

def E_queue (f : Timer) (linkid : ℕ) (s : Daemon ν) : Daemon ν :=
  { s with
    queue := update s.queue linkid
      (update (s.queue linkid) f (some (s.Links linkid))) }

def E_dequeue (f : Timer) (linkid : ℕ) (s : Daemon ν) : Daemon ν :=
  { s with queue := update s.queue linkid (update (s.queue linkid) f none) }

variable [DecidableEq ν]

def set_leg (n : ν) (f : Network_Leg → Network_Leg) (s : Daemon ν) : Daemon ν :=
  { s with leg := update s.leg n (f (s.leg n)) }

def set_link (n : ν) (mode : Link_Type) (p : Option ℕ) (s : Daemon ν) : Daemon ν :=
  s.set_leg n (fun leg => { leg with links := update leg.links mode p })

/-! ## 3. Costs -/

def Network_Leg_Initial_Cost (w : Route) : ℤ :=
  match w with
  | .DISTANCE_ROUTE | .LOSSRATE_ROUTE => 1
  | .PROBLEM_ROUTE => -1 * MAX_LATENCY
  | .LATENCY_ROUTE | .AVERAGE_ROUTE => MAX_LATENCY

def put_cost (n : ν) (c : ℤ) (s : Daemon ν) : Daemon ν :=
  let s := s.set_leg n (fun leg => { leg with cost := c })
  { s with edge_cost := update s.edge_cost n c }

/-- The node at index `k` is no neighbor any more. -/
def drop_neighbor (n : ν) (k : ℕ) (s : Daemon ν) : Daemon ν :=
  let Neighbor_Nodes := update s.Neighbor_Nodes k none
  { s with
    Neighbor_Nodes := Neighbor_Nodes
    neighbor_id := update s.neighbor_id n none
    Num_Neighbors := Slots.used Neighbor_Nodes s.Num_Neighbors }

def queue_states (linkid : ℕ) (s : Daemon ν) : Daemon ν :=
  (s.E_queue (.Net_Send_State_All .Edge_Prot_Def) linkid).E_queue
    (.Net_Send_State_All .Groups_Prot_Def) linkid

/-- `none` is an `EXIT` or a failed assertion. -/
def Network_Leg_Set_Cost (n : ν) (new_leg_cost : ℤ) (s : Daemon ν) : Option (Daemon ν) :=
  let old_leg_cost := (s.leg n).cost
  if (new_leg_cost ≠ -1 ∧ (s.leg n).status ≠ .CONNECTED_LEG)
      ∨ (new_leg_cost = -1 ∧ (s.leg n).status = .CONNECTED_LEG) then
    none
  else if new_leg_cost = old_leg_cost then
    some s
  else if old_leg_cost = -1 then
    -- the leg has become connected to this node
    (((s.leg n).links .CONTROL_LINK).bind s.link).map (fun lk =>
      (s.put_cost n new_leg_cost).queue_states lk.link_id)
  else if new_leg_cost = -1 then
    -- the leg has disconnected from this node
    (s.neighbor_id n).map (fun k => (s.put_cost n new_leg_cost).drop_neighbor n k)
  else
    some (s.put_cost n new_leg_cost)

theorem Network_Leg_Set_Cost_cases {n : ν} {c : ℤ} {s s' : Daemon ν}
    (h : s.Network_Leg_Set_Cost n c = some s') : (c = (s.leg n).cost ∧ s' = s)
    ∨ ((s.leg n).cost = -1 ∧ c ≠ -1 ∧ (s.leg n).status = .CONNECTED_LEG
      ∧ ∃ p lk, (s.leg n).links .CONTROL_LINK = some p ∧ s.link p = some lk
        ∧ s' = (s.put_cost n c).queue_states lk.link_id)
    ∨ ((s.leg n).cost ≠ -1 ∧ c = -1 ∧ (s.leg n).status ≠ .CONNECTED_LEG
      ∧ ∃ k, s.neighbor_id n = some k ∧ s' = (s.put_cost n c).drop_neighbor n k)
    ∨ ((s.leg n).cost ≠ -1 ∧ c ≠ -1 ∧ (s.leg n).status = .CONNECTED_LEG ∧ s' = s.put_cost n c) := by
  simp only [Network_Leg_Set_Cost] at h
  by_cases hbad : (c ≠ -1 ∧ (s.leg n).status ≠ .CONNECTED_LEG)
      ∨ (c = -1 ∧ (s.leg n).status = .CONNECTED_LEG)
  · simp [if_pos hbad] at h
  · rw [if_neg hbad] at h
    by_cases hsame : c = (s.leg n).cost
    · rw [if_pos hsame] at h
      exact .inl ⟨hsame, (some.inj h).symm⟩
    · rw [if_neg hsame] at h
      by_cases hold : (s.leg n).cost = -1
      · rw [if_pos hold] at h
        obtain ⟨lk, hbind, rfl⟩ := map_eq_some_iff.mp h
        obtain ⟨p, hp, hlk⟩ := bind_eq_some_iff.mp hbind
        have hc : c ≠ -1 := fun hc => hsame (hc.trans hold.symm)
        exact .inr (.inl ⟨hold, hc, by tauto, p, lk, hp, hlk, rfl⟩)
      · rw [if_neg hold] at h
        by_cases hc : c = -1
        · rw [if_pos hc] at h
          obtain ⟨k, hk, rfl⟩ := map_eq_some_iff.mp h
          exact .inr (.inr (.inl ⟨hold, hc, by tauto, k, hk, rfl⟩))
        · rw [if_neg hc] at h
          exact .inr (.inr (.inr ⟨hold, hc, by tauto, (some.inj h).symm⟩))

/-! ## 4. Creating a link -/

def Reliable_Data.new (window_size : Window) : Reliable_Data where
  flags := .UNAVAILABLE_LINK
  seq_no := 0
  head := 0
  tail := 0
  msg_buff := []
  window_size := window_size
  nack_buff := false
  nack_len := 0
  scheduled_ack := false
  scheduled_timeout := false

/-- Put the node into `Neighbor_Nodes` if it is not there. -/
def add_neighbor (n : ν) (s : Daemon ν) : Option (Daemon ν) :=
  match s.neighbor_id n with
  | some _ => some s
  | none =>
    (Slots.first_free s.Neighbor_Nodes (MAX_LINKS / MAX_LINKS_4_EDGE)).map (fun k =>
      { s with
        neighbor_id := update s.neighbor_id n (some k)
        Num_Neighbors := max s.Num_Neighbors (k + 1)
        Neighbor_Nodes := update s.Neighbor_Nodes k (some n) })

/-- The part of `Create_Link` for a control link. -/
def start_control (n : ν) (linkid : ℕ) (s : Daemon ν) : Option (Daemon ν) :=
  if (s.leg n).status = .DISCONNECTED_LEG ∧ (s.leg n).cost = -1 then
    ((s.set_leg n Network_Leg.wait).add_neighbor n).map (E_queue .Send_Hello linkid)
  else
    none

def new_link (n : ν) (mode : Link_Type) (linkid : ℕ) (window_size : Window) (s : Daemon ν) :
    Daemon ν :=
  let p := s.fresh
  let s := { s with
    fresh := p + 1
    Links := update s.Links linkid (some p)
    link := update s.link p (some ⟨linkid, mode, n⟩)
    r_data := update s.r_data p
      (if mode = Link_Type.CONTROL_LINK ∨ mode = Link_Type.RELIABLE_UDP_LINK then
        some (Reliable_Data.new window_size)
      else none)
    other_side_hello_seq := update s.other_side_hello_seq p 0 }
  s.set_link n mode (some p)

def Create_Link (cfg : Config ν) (n : ν) (mode : Link_Type) (s : Daemon ν) :
    Option (Daemon ν × ℕ) :=
  match (s.leg n).links mode with
  | some p =>
    if mode = .INTRUSION_TOL_LINK then (s.link p).map (fun lk => (s, lk.link_id)) else none
  | none =>
    if cfg.Intrusion_Tolerance_Mode = false ∧ mode ≠ .CONTROL_LINK
        ∧ ((s.leg n).links .CONTROL_LINK = none ∨ (s.leg n).status ≠ .CONNECTED_LEG
          ∨ (s.leg n).cost = -1) then
      none
    else if mode = .INTRUSION_TOL_LINK ∧ cfg.Config_File_Found = false then
      some (s, 0)
    else
      (Slots.first_free s.Links MAX_LINKS).bind (fun linkid =>
        let s := s.new_link n mode linkid cfg.initial_window
        if mode = .CONTROL_LINK then
          (s.start_control n linkid).map (fun s => (s, linkid))
        else
          some (s, linkid))

theorem Create_Link_cases {cfg : Config ν} {n : ν} {mode : Link_Type} {s s' : Daemon ν} {k : ℕ}
    (h : s.Create_Link cfg n mode = some (s', k)) : (mode = .INTRUSION_TOL_LINK ∧ s' = s)
    ∨ ((s.leg n).links mode = none ∧ Slots.first_free s.Links MAX_LINKS = some k
      ∧ ((mode ≠ .CONTROL_LINK ∧ s' = s.new_link n mode k cfg.initial_window)
        ∨ (mode = .CONTROL_LINK
          ∧ (s.new_link n mode k cfg.initial_window).start_control n k = some s'))) := by
  rw [Create_Link] at h
  cases hold : (s.leg n).links mode with
  | some p =>
    rw [hold] at h
    by_cases hit : mode = .INTRUSION_TOL_LINK
    · simp only [if_pos hit] at h
      obtain ⟨lk, -, heq⟩ := map_eq_some_iff.mp h
      exact .inl ⟨hit, (congrArg Prod.fst heq).symm⟩
    · simp [if_neg hit] at h
  | none =>
    rw [hold] at h
    dsimp only at h
    split_ifs at h with hbad hconf hcontrol
    · exact .inl ⟨hconf.1, (congrArg Prod.fst (some.inj h)).symm⟩
    · subst hcontrol
      obtain ⟨linkid, hfree, hrest⟩ := bind_eq_some_iff.mp h
      obtain ⟨t, hstart, heq⟩ := map_eq_some_iff.mp hrest
      obtain ⟨rfl, rfl⟩ := Prod.mk.inj heq
      exact .inr ⟨rfl, hfree, .inr ⟨rfl, hstart⟩⟩
    · obtain ⟨linkid, hfree, hrest⟩ := bind_eq_some_iff.mp h
      obtain ⟨rfl, rfl⟩ := Prod.mk.inj (some.inj hrest)
      exact .inr ⟨rfl, hfree, .inl ⟨hcontrol, rfl⟩⟩

/-! ## 5. Destroying links -/

/-- Take the timers of a link's reliable data out of the queue, each only if its
flag says that it is there. -/
def cancel_reliable (linkid : ℕ) (link_type : Link_Type) (r : Reliable_Data) (s : Daemon ν) :
    Daemon ν :=
  let s := if r.nack_buff then s.E_dequeue .Send_Nack_Retransm linkid else s
  let s := if r.scheduled_timeout then s.E_dequeue .Reliable_timeout linkid else s
  let s := if r.scheduled_ack then s.E_dequeue .Send_Ack linkid else s
  let s := s.E_dequeue .Try_to_Send linkid
  if link_type = .CONTROL_LINK then
    let s := s.E_dequeue .Send_Hello linkid
    let s := s.E_dequeue .Send_Hello_Request linkid
    let s := s.E_dequeue .Send_Hello_Request_Cnt linkid
    let s := s.E_dequeue (.Net_Send_State_All .Edge_Prot_Def) linkid
    s.E_dequeue (.Net_Send_State_All .Groups_Prot_Def) linkid
  else
    s

def cancel_realtime (linkid : ℕ) (s : Daemon ν) : Daemon ν :=
  (s.E_dequeue .Send_RT_Nack linkid).E_dequeue .Send_RT_Retransm linkid

def free_link (p : ℕ) (lk : Link ν) (s : Daemon ν) : Daemon ν :=
  let s := s.set_link lk.leg lk.link_type none
  { s with
    Links := update s.Links lk.link_id none
    link := update s.link p none
    r_data := update s.r_data p none }

def Destroy_Link (linkid : ℕ) (s : Daemon ν) : Option (Daemon ν) :=
  (s.Links linkid).bind (fun p => (s.link p).map (fun lk =>
    if lk.link_type = .INTRUSION_TOL_LINK then
      s
    else
      let s' := match s.r_data p with
        | some r => s.cancel_reliable linkid lk.link_type r
        | none => s
      let s' := if lk.link_type = .REALTIME_UDP_LINK then s'.cancel_realtime linkid else s'
      s'.free_link p lk))

def destroy_link (n : ν) (s : Daemon ν) (mode : Link_Type) : Option (Daemon ν) :=
  match (s.leg n).links mode with
  | none => some s
  | some p => (s.link p).bind (fun lk => s.Destroy_Link lk.link_id)

def Disconnect_Network_Leg (n : ν) (s : Daemon ν) : Option (Daemon ν) :=
  if (s.leg n).status = .DISCONNECTED_LEG then
    none
  else
    (Link_Type.all.foldlM (destroy_link n) (s.set_leg n Network_Leg.drop)).bind
      (Network_Leg_Set_Cost n (-1))

end Daemon

end Spines.Hello
