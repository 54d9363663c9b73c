/-
The hello protocol and the events of a daemon (`daemon/hello.c`,
`daemon/protocol.c`).

An event is a packet from a known neighbor, a timer that goes off, or a message
that the daemon sends on a link. `next` returns `none` where the daemon stops
with an `EXIT` or a failed assertion, or would follow a null pointer.
-/
import Spines.Hello.Reliable

set_option autoImplicit false

namespace Spines.Hello

open Spines.Lib Function
open Spines.StateFlood (Prot_Def)

/-! ## 0. Changes of a leg -/

def Network_Leg.sent (leg : Network_Leg) : Network_Leg :=
  { leg with hellos_out := leg.hellos_out + 1 }

def Network_Leg.answered (leg : Network_Leg) : Network_Leg :=
  { leg with hellos_out := 0 }

def Network_Leg.counted (leg : Network_Leg) : Network_Leg :=
  { leg with connect_cnter := leg.connect_cnter + 1 }

def Network_Leg.meet (ctrl_link_id : ℕ) (leg : Network_Leg) : Network_Leg :=
  { leg with other_side_ctrl_link_id := ctrl_link_id }

namespace Daemon

variable {ν : Type} [DecidableEq ν]

/-! ## 1. Timers of the hello protocol -/

def control_link (linkid : ℕ) (s : Daemon ν) : Option (Link ν) :=
  ((s.Links linkid).bind s.link).filter (fun lk => lk.link_type = .CONTROL_LINK)

def Dead_Leg (linkid : ℕ) (s : Daemon ν) : Option (Daemon ν) :=
  match s.control_link linkid with
  | none => some s
  | some lk =>
    if (s.leg lk.leg).hellos_out < DEAD_LINK_CNT then some s
    else s.Disconnect_Network_Leg lk.leg

/-- After a number of hellos without an answer, a hello is asked for more often,
and later the leg is given up. -/
def escalate (cfg : Config ν) (linkid : ℕ) (hellos_out : ℕ) (s : Daemon ν) : Daemon ν :=
  let s := if hellos_out = cfg.hello_cnt_start then s.E_queue .Send_Hello_Request_Cnt linkid else s
  if hellos_out = DEAD_LINK_CNT then s.E_queue .Dead_Leg linkid else s

def Send_Hello (cfg : Config ν) (linkid : ℕ) (s : Daemon ν) : Option (Daemon ν) :=
  (s.control_link linkid).map (fun lk =>
    ((s.escalate cfg linkid (s.leg lk.leg).hellos_out).set_leg lk.leg Network_Leg.sent).E_queue
      .Send_Hello linkid)

def Send_Hello_Request (linkid : ℕ) (s : Daemon ν) : Option (Daemon ν) :=
  (s.control_link linkid).map (fun _ => s)

def Send_Hello_Request_Cnt (linkid : ℕ) (s : Daemon ν) : Option (Daemon ν) :=
  (s.control_link linkid).map (fun _ => s.E_queue .Send_Hello_Request_Cnt linkid)

/-! ## 2. Hello packets -/

inductive Hello_Type
  | HELLO_TYPE
  | HELLO_REQ_TYPE
  | HELLO_PING_TYPE
  deriving DecidableEq

/-- A hello packet: its type, what its header and body say, and whether its
length is that of a `hello_packet`. -/
structure Hello_Packet where
  type : Hello_Type
  ctrl_link_id : ℕ
  seq_no : ℤ
  right_size : Bool

/-- What the clock and the measurements of the link decide when a hello packet
is processed: whether the stable delay since the last connection is over, and
the new cost that `Network_Leg_Update_Cost` finds, if it finds one. -/
structure Readings where
  stable : Bool
  new_cost : Option ℤ

/-- The cost is the outcome of the measurements (`none` for no change). -/
def Network_Leg_Update_Cost (cfg : Config ν) (n : ν) (new_cost : Option ℤ) (s : Daemon ν) :
    Option (Daemon ν) :=
  if (s.leg n).links .CONTROL_LINK = none then none
  else if cfg.Route_Weight = .DISTANCE_ROUTE then some s
  else
    match new_cost with
    | none => some s
    | some cost16 => s.Network_Leg_Set_Cost n cost16

def set_connected (p : ℕ) (s : Daemon ν) : Option (Daemon ν) :=
  (s.r_data p).map (fun r =>
    { s with r_data := update s.r_data p (some { r with flags := .CONNECTED_LINK }) })

def queue_for (f : Timer) (n : ν) (mode : Link_Type) (s : Daemon ν) : Option (Daemon ν) :=
  (((s.leg n).links mode).bind s.link).map (fun lk => s.E_queue f lk.link_id)

def create_links (cfg : Config ν) (n : ν) (s : Daemon ν) : Option (Daemon ν) := do
  let (s, _) ← s.Create_Link cfg n .UDP_LINK
  let (s, _) ← s.Create_Link cfg n .RELIABLE_UDP_LINK
  let (s, _) ← s.Create_Link cfg n .REALTIME_UDP_LINK
  if cfg.Config_File_Found = true ∧ cfg.Sorted_Edges n = true then
    (s.Create_Link cfg n .INTRUSION_TOL_LINK).map Prod.fst
  else
    some s

/-- The leg becomes connected; `p` is its control link. -/
def connect (cfg : Config ν) (n : ν) (p : ℕ) (s : Daemon ν) : Option (Daemon ν) := do
  let s ← (s.set_leg n Network_Leg.connected).Network_Leg_Set_Cost n
    (Network_Leg_Initial_Cost cfg.Route_Weight)
  let s ← s.create_links cfg n
  let s ← s.set_connected p
  let q ← (s.leg n).links .RELIABLE_UDP_LINK
  let s ← s.set_connected q
  let s ← s.queue_for .Send_Hello n .CONTROL_LINK
  let s ← s.queue_for .Try_to_Send n .CONTROL_LINK
  s.queue_for .Try_to_Send n .RELIABLE_UDP_LINK

def hear (n : ν) (p : ℕ) (seq_no : ℤ) (s : Daemon ν) : Daemon ν :=
  { s.set_leg n Network_Leg.answered with
    other_side_hello_seq := update s.other_side_hello_seq p seq_no }

/-- The part of `Process_hello_packet` for a hello of the session that this side
knows of; `p` is the control link on which it came in. -/
def take_hello (cfg : Config ν) (n : ν) (p : ℕ) (linkid : ℕ) (pkt : Hello_Packet) (env : Readings)
    (s : Daemon ν) : Option (Daemon ν) :=
  -- an old hello that took too long to get here
  if pkt.seq_no + 3 < s.other_side_hello_seq p then some s
  else
    let s := (s.hear n p pkt.seq_no).E_dequeue .Send_Hello_Request_Cnt linkid
    let s := if pkt.type = .HELLO_REQ_TYPE then s.E_queue .Send_Hello linkid else s
    match (s.leg n).status with
    | .CONNECTED_LEG => s.Network_Leg_Update_Cost cfg n env.new_cost
    | .NOT_YET_CONNECTED_LEG =>
      let s := s.set_leg n Network_Leg.counted
      if CONNECT_LINK_CNT ≤ (s.leg n).connect_cnter then s.connect cfg n p else some s
    | .DISCONNECTED_LEG =>
      -- EXIT: bad leg status
      none

def restart (cfg : Config ν) (n : ν) (s : Daemon ν) : Option (Daemon ν) := do
  let s ← s.Disconnect_Network_Leg n
  let (s, linkid) ← s.Create_Link cfg n .CONTROL_LINK
  s.Send_Hello cfg linkid

def Process_hello_packet (cfg : Config ν) (p : ℕ) (pkt : Hello_Packet) (env : Readings)
    (s : Daemon ν) : Option (Daemon ν) :=
  (s.link p).bind (fun lk =>
    let n := lk.leg
    if pkt.right_size = false then some s
    else if pkt.ctrl_link_id = (s.leg n).other_side_ctrl_link_id then
      s.take_hello cfg n p lk.link_id pkt env
    else if (s.leg n).other_side_ctrl_link_id = 0 then
      let s := s.set_leg n (Network_Leg.meet pkt.ctrl_link_id)
      s.take_hello cfg n p lk.link_id pkt env
    else
      s.restart cfg n)

def Process_hello_ping (cfg : Config ν) (n : ν) (env : Readings) (s : Daemon ν) :
    Option (Daemon ν) :=
  if (s.leg n).links .CONTROL_LINK = none ∧ env.stable = true then
    (s.Create_Link cfg n .CONTROL_LINK).map Prod.fst
  else
    some s

def Process_hello (cfg : Config ν) (n : ν) (pkt : Hello_Packet) (env : Readings) (s : Daemon ν) :
    Option (Daemon ν) :=
  (s.Process_hello_ping cfg n env).bind (fun s =>
    match (s.leg n).links .CONTROL_LINK with
    | none => some s
    | some p =>
      if pkt.type = .HELLO_PING_TYPE then some s else s.Process_hello_packet cfg p pkt env)

/-! ## 3. Reliable links -/

def put_rel (linkid p : ℕ) (s : Daemon ν) (x : Rel) : Daemon ν :=
  { s with
    r_data := update s.r_data p (some x.r)
    queue := update s.queue linkid x.row }

/-- Run a function of a reliable link. It stops the daemon if there is no link
with this number or if the link is not reliable. -/
def on_rel (linkid : ℕ) (f : ℕ → Rel → Option Rel) (s : Daemon ν) : Option (Daemon ν) :=
  (s.Links linkid).bind (fun p => (s.r_data p).bind (fun r =>
    (f p ⟨r, s.queue linkid⟩).map (s.put_rel linkid p)))

def send_messages : ℕ → ℕ → Rel → Option Rel
  | 0, _, x => some x
  | k + 1, lk, x => (x.Reliable_Send_Msg lk).bind (send_messages k lk)

def Net_Send_State_All (linkid : ℕ) (messages : ℕ) (s : Daemon ν) : Option (Daemon ν) :=
  (s.control_link linkid).bind (fun lk =>
    if (s.leg lk.leg).status = .CONNECTED_LEG then s.on_rel linkid (send_messages messages)
    else none)

def Net_Send_State_Updates (n : ν) (messages : ℕ) (s : Daemon ν) : Option (Daemon ν) :=
  if (s.leg n).status = .CONNECTED_LEG then
    (((s.leg n).links .CONTROL_LINK).bind s.link).bind (fun lk =>
      s.on_rel lk.link_id (send_messages messages))
  else
    none

def Forward_Rel_UDP_Data (n : ν) (s : Daemon ν) : Option (Daemon ν) :=
  if s.edge_cost n = -1 then some s
  else
    match (s.leg n).links .RELIABLE_UDP_LINK with
    | none => some s
    | some p => (s.link p).bind (fun lk =>
      s.on_rel lk.link_id (fun lk x => x.Reliable_Send_Msg lk))

/-! ## 4. Other packets -/

inductive Body
  | state (a : Rel.Ack)
  | rel_udp_data (a : Rel.Ack)
  | link_ack (a : Rel.Ack)
  | realtime_data (nacks : Bool)
  | realtime_nack
  | other

/-- `Prot_process_scat` for a packet that comes in on a link of the leg. -/
def Prot_process_scat (cfg : Config ν) (n : ν) (mode : Link_Type) (ctrl_link_id : ℕ) (body : Body)
    (s : Daemon ν) : Option (Daemon ν) :=
  match (s.leg n).links mode with
  | none => some s
  | some p => (s.link p).bind (fun lk =>
    if cfg.Intrusion_Tolerance_Mode = false
        ∧ ctrl_link_id ≠ (s.leg n).other_side_ctrl_link_id then
      some s
    else
      match mode, body with
      | .CONTROL_LINK, .state a =>
        s.on_rel lk.link_id (fun lk x => some (x.Process_state_packet lk a))
      | .CONTROL_LINK, .link_ack a =>
        s.on_rel lk.link_id (fun lk x => some (x.Process_ack_packet lk a))
      | .RELIABLE_UDP_LINK, .rel_udp_data a =>
        s.on_rel lk.link_id (fun lk x => some (x.Process_rel_udp_data_packet lk a))
      | .RELIABLE_UDP_LINK, .link_ack a =>
        s.on_rel lk.link_id (fun lk x => some (x.Process_ack_packet lk a))
      | .REALTIME_UDP_LINK, .realtime_data nacks =>
        some (if nacks then s.E_queue .Send_RT_Nack lk.link_id else s)
      | .REALTIME_UDP_LINK, .realtime_nack =>
        some (s.E_queue .Send_RT_Retransm lk.link_id)
      | _, _ => some s)

/-! ## 5. Timers that go off -/

/-- `Send_RT_Nack` and `Send_RT_Retransm`, as far as the link is concerned. -/
def Send_RT (linkid : ℕ) (s : Daemon ν) : Option (Daemon ν) :=
  (((s.Links linkid).bind s.link).filter (fun lk => lk.link_type = .REALTIME_UDP_LINK)).map
    (fun _ => s)

/-- What the outside decides when a timer goes off: how many messages the states
take, and the congestion window. -/
structure Choice where
  messages : ℕ
  window_size : Window

def call (cfg : Config ν) (f : Timer) (linkid : ℕ) (c : Choice) (s : Daemon ν) :
    Option (Daemon ν) :=
  match f with
  | .Send_Hello => s.Send_Hello cfg linkid
  | .Dead_Leg => s.Dead_Leg linkid
  | .Send_Hello_Request => s.Send_Hello_Request linkid
  | .Send_Hello_Request_Cnt => s.Send_Hello_Request_Cnt linkid
  | .Net_Send_State_All _ => s.Net_Send_State_All linkid c.messages
  | .Reliable_timeout => s.on_rel linkid (fun lk x => x.Reliable_timeout lk c.window_size)
  | .Send_Ack => s.on_rel linkid (fun _ x => x.Send_Ack)
  | .Send_Nack_Retransm => s.on_rel linkid (fun _ x => x.Send_Nack_Retransm c.window_size)
  | .Try_to_Send => s.on_rel linkid (fun lk x => x.Try_to_Send lk)
  | .Send_RT_Nack | .Send_RT_Retransm => s.Send_RT linkid

/-! ## 6. Events -/

inductive Event (ν : Type)
  | hello (n : ν) (pkt : Hello_Packet) (env : Readings)
  | packet (n : ν) (mode : Link_Type) (ctrl_link_id : ℕ) (body : Body)
  | state_updates (n : ν) (messages : ℕ)
  | forward (n : ν)
  | timer (f : Timer) (linkid : ℕ) (c : Choice)

/-- A timer that is not queued does not go off, and updates are sent only to
connected neighbors in `Neighbor_Nodes`. -/
def next (cfg : Config ν) (s : Daemon ν) : Event ν → Option (Daemon ν)
  | .hello n pkt env => s.Process_hello cfg n pkt env
  | .packet n mode ctrl_link_id body => s.Prot_process_scat cfg n mode ctrl_link_id body
  | .state_updates n messages =>
    if s.neighbor_id n ≠ none ∧ s.edge_cost n ≠ -1 then s.Net_Send_State_Updates n messages
    else some s
  | .forward n => s.Forward_Rel_UDP_Data n
  | .timer f linkid c =>
    if s.queue linkid f = none then some s
    else (s.E_dequeue f linkid).call cfg f linkid c

/-! ## 7. The start -/

def Network_Leg.new : Network_Leg where
  status := .DISCONNECTED_LEG
  cost := -1
  other_side_ctrl_link_id := 0
  hellos_out := 0
  connect_cnter := 0
  links := fun _ => none

def Init_Nodes : Daemon ν where
  leg := fun _ => Network_Leg.new
  edge_cost := fun _ => -1
  neighbor_id := fun _ => none
  Neighbor_Nodes := fun _ => none
  Num_Neighbors := 0
  Links := fun _ => none
  link := fun _ => none
  r_data := fun _ => none
  other_side_hello_seq := fun _ => 0
  queue := fun _ _ => none
  fresh := 0

/-- One leg in the loop of `Init_Network` under `Intrusion_Tolerance_Mode`. -/
def isolate (cfg : Config ν) (s : Daemon ν) (n : ν) : Option (Daemon ν) :=
  if cfg.Config_File_Found then
    ((s.set_leg n Network_Leg.connected).Create_Link cfg n .INTRUSION_TOL_LINK).map Prod.fst
  else
    some s

/-- `legs` are the legs that `Init_Nodes` creates. -/
def Init_Network (cfg : Config ν) (legs : List ν) : Option (Daemon ν) :=
  if cfg.Intrusion_Tolerance_Mode then legs.foldlM (isolate cfg) Init_Nodes
  else some Init_Nodes

end Daemon

end Spines.Hello
