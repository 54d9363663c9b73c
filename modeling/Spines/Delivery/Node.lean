/-
What a daemon hands to its clients of the intrusion-tolerant traffic
(`Deliver_and_Forward_Data` of `daemon/route.c`, `Session_Send_Message` of
`daemon/session.c`).

A message carries two headers: the `udp_header`, by which it is delivered, and the
header of its dissemination protocol. Priority flooding takes the source of a
message from the first one, reliable flooding from the second, and each verifies
the signature under the key of the source it found.

Left open are the clock, the signature scheme (`Scheme`), the masks
`MultiPath_Stamp_Bitmask` computes, and the link layer, as in the models of the two
protocols. Of `udp_header` the fields are kept that these functions read. Whatever
arrives is arbitrary: any headers, any data and any signature, over any link. The
copies `Deliver_UDP_Data` makes for the sessions are not modelled; its calls are
recorded. Routing without intrusion tolerance leaves this state alone, and
`Path_Stamp_Debug` is off.
-/
import Spines.RelFlood.Terminal
import Spines.Priority.Flood

set_option autoImplicit false

namespace Spines.Delivery

open Spines.Lib Spines.RelFlood Spines.Priority Spines.IntruTol

/-! ## Addresses -/

def is_mcast_addr (x : ℕ) : Bool := x &&& 0xF0000000 = 0xE0000000 ∨ x &&& 0xFFFFFF00 = 0xFEFF0000

def is_acast_addr (x : ℕ) : Bool := x &&& 0xF0000000 = 0xF0000000 ∧ x &&& 0xFFFFFF00 ≠ 0xFEFF0000

def is_node_addr (x : ℕ) : Bool := !is_mcast_addr x && !is_acast_addr x

/-! ## Messages -/

structure UdpHeader where
  source : ℕ
  dest : ℕ
  source_port : ℕ
  dest_port : ℕ
  ttl : ℕ
  deriving DecidableEq, Repr

/-- The fields of `prio_flood_header`, and the mask that follows it. -/
structure PrioHeader where
  key : PrioKey
  priority : ℕ
  expire : SpTime
  mask : ℕ
  deriving DecidableEq, Repr

/-- What follows the `udp_header`, up to the signature. -/
inductive Body
  /-- Priority flooding; `elements` are the lengths of the elements of the message. -/
  | priority (data : List UInt8) (f_hdr : PrioHeader) (elements : List ℕ)
      (elements_length : elements.length < MAX_SCATTER_ELEMENTS)
  /-- `REL_FLOOD_DATA`. -/
  | data (m : Msg)
  /-- `REL_FLOOD_E2E`. -/
  | e2e (ack : E2eAck)
  /-- `REL_FLOOD_SAA`. -/
  | saa
  | status_change (creator : ℕ)

/-- A message in a `sys_scatter`. The hop-by-hop acks stand in the tail, after the
signature. -/
structure Message where
  hdr : UdpHeader
  body : Body
  signature : List UInt8
  acks : List HbhAck

inductive Signed
  | message (hdr : UdpHeader) (body : Body)
  | e2e (ack : E2eAck)
  | status_change (creator : ℕ)

/-- The `ttl` changes on the way and does not count; of the two kinds of control
messages only the data are signed. -/
def Message.signed (m : Message) : Signed :=
  match m.body with
  | .e2e ack => .e2e ack
  | .status_change creator => .status_change creator
  | body => .message { m.hdr with ttl := 0 } body

/-! ## Configuration -/

structure NodeConf where
  my_address : ℕ
  /-- `Node_Lookup_Addr_to_ID`. -/
  lookup : ℕ → Option ℕ
  rel : RelFlood.Conf
  /-- `Conf_Prio.Crypto`. -/
  prio_crypto : Bool
  max_mess_stored : ℕ
  link_header_size : ℕ → ℕ
  ns_threshold : ℕ
  /-- Where multicast of priority flooding goes instead, unless it is 0. -/
  overwrite_ip : ℕ
  /-- `Conf_add_host` takes no other number. -/
  lookup_range : ∀ a s, lookup a = some s → 1 ≤ s ∧ s ≤ MAX_NODES
  /-- `Conf_add_host` sets `My_ID`. -/
  lookup_my_address : lookup my_address = some rel.my_id

def NodeConf.prio (nc : NodeConf) : PrioConf where
  my_id := nc.rel.my_id
  degree := nc.rel.degree
  neighbor_ids := nc.rel.neighbor_ids
  mp_neighbor_mask := nc.rel.mp_neighbor_mask
  max_mess_stored := nc.max_mess_stored
  link_header_size := nc.link_header_size
  ns_threshold := nc.ns_threshold

/-- The signature scheme (`EVP_*`). `wire` lays the fields out as they stand in the
message; nothing depends on how. -/
structure Scheme where
  wire : Signed → List UInt8
  /-- `EVP_VerifyFinal` under `Pub_Keys[s]`. -/
  verify : ℕ → List UInt8 → List UInt8 → Bool
  /-- `EVP_SignFinal` under `Priv_Key`. -/
  sign : List UInt8 → Option (List UInt8)

/-- A string verifies under the key of `s` only if `s` signed it. -/
def Scheme.Unforgeable (sch : Scheme) (signs : ℕ → List UInt8 → Prop) : Prop :=
  ∀ s bytes signature, sch.verify s bytes signature = true → signs s bytes

/-! ## State -/

/-- A call of `Deliver_UDP_Data`: the header the clients see, and the message as it
was verified. -/
structure Delivered where
  hdr : UdpHeader
  msg : Message

structure Node where
  rel : Daemon
  prio : Flood
  /-- `Find_State(&All_Groups_by_Node, My_Address, g)` is an active group. -/
  active_group : ℕ → Bool
  delivered : List Delivered

/-- A daemon that starts at second `sec`. -/
def init_node (nc : NodeConf) (sec : ℕ) : Node where
  rel := init_reliable_flooding nc.rel sec
  prio := init_priority_flooding nc.prio sec
  active_group := fun _ => false
  delivered := []

structure Env where
  sec : ℕ
  now : SpTime
  mode : ℕ
  sends : ℕ → List (List SendRound)

/-! ## `Priority_Flood_Disseminate` and `Reliable_Flood_Disseminate` -/

section Functions

variable (nc : NodeConf) (sch : Scheme)

/-- The check of the signature in `Priority_Flood_Disseminate`. -/
def priority_flood_verify (src_id : ℕ) (m : Message) : Bool :=
  if nc.prio_crypto then sch.verify src_id (sch.wire m.signed) m.signature else true

def reliable_flood_verify (src_id : ℕ) (m : Message) : Bool :=
  if nc.rel.crypto = false then true
  else if src_id < 1 ∨ MAX_NODES < src_id then false
  else sch.verify src_id (sch.wire m.signed) m.signature

/-- The node under whose key the message is verified: the node with the address in
the `udp_header`, or the one the header of reliable flooding names. -/
def signer (m : Message) : Option ℕ :=
  match m.body with
  | .priority _ _ _ _ => nc.lookup m.hdr.source
  | .data r_hdr => some r_hdr.src
  | .e2e ack => some ack.dest
  | .saa => none
  | .status_change creator => some creator

/-- The two calls in the `switch` of `Deliver_and_Forward_Data`, with whether the
result is other than `NO_ROUTE`. -/
def disseminate (src_link : Option ℕ) (env : Env) (m : Message) (N : Node) : Node × Bool :=
  match m.body with
  | .priority _ f_hdr elements elements_length =>
    match signer nc m with
    | none => (N, false)
    | some src_id =>
      let r := priority_flood_disseminate nc.prio src_link
        ⟨env.now, priority_flood_verify nc sch src_id m, env.mode, env.sends⟩
        { source := src_id
          dest := (nc.lookup m.hdr.dest).getD 0
          key := f_hdr.key
          priority := f_hdr.priority
          expire := f_hdr.expire
          mask := f_hdr.mask
          elements := elements
          elements_length := elements_length }
        N.prio
      ({ N with prio := r.1 }, r.2 ≠ .no_route)
  | .data r_hdr =>
    let r := reliable_flood_disseminate nc.rel env.sec (src_link.getD 0)
      (reliable_flood_verify nc sch r_hdr.src m) ⟨.data r_hdr, m.acks⟩ N.rel
    ({ N with rel := r.1 }, r.2 ≠ .no_route)
  | .e2e ack =>
    let r := reliable_flood_disseminate nc.rel env.sec (src_link.getD 0)
      (reliable_flood_verify nc sch ack.dest m) ⟨.e2e ack, m.acks⟩ N.rel
    ({ N with rel := r.1 }, r.2 ≠ .no_route)
  | .saa =>
    let r := reliable_flood_disseminate nc.rel env.sec (src_link.getD 0) false
      ⟨.saa, m.acks⟩ N.rel
    ({ N with rel := r.1 }, r.2 ≠ .no_route)
  | .status_change creator =>
    let r := reliable_flood_disseminate nc.rel env.sec (src_link.getD 0)
      (reliable_flood_verify nc sch creator m) ⟨.status_change, m.acks⟩ N.rel
    ({ N with rel := r.1 }, r.2 ≠ .no_route)

/-! ## `Deliver_and_Forward_Data` -/

/-- Site multicast: a message for this daemon with a port in the upper range goes to
the group of all clients that joined it. -/
def site_multicast (hdr : UdpHeader) : UdpHeader :=
  if hdr.dest = nc.my_address ∧ 0xFF00 ≤ hdr.dest_port ∧ hdr.dest_port ≤ 0xFFFF then
    { hdr with dest := 0xFEFF0000 ||| (hdr.dest_port &&& 0x00FF) }
  else hdr

/-- The end of `Deliver_and_Forward_Data`. -/
def deliver (m : Message) (N : Node) : Node :=
  let hdr := site_multicast nc m.hdr
  if is_mcast_addr hdr.dest = false ∧ is_acast_addr hdr.dest = false then
    if hdr.dest = nc.my_address then { N with delivered := N.delivered ++ [⟨hdr, m⟩] } else N
  else if N.active_group hdr.dest then { N with delivered := N.delivered ++ [⟨hdr, m⟩] }
  else N

def deliver_and_forward_data (src_link : Option ℕ) (env : Env) (m : Message) (N : Node) : Node :=
  if m.hdr.ttl = 0 then N
  else
    let m := { m with hdr := { m.hdr with ttl := m.hdr.ttl - 1 } }
    let r := disseminate nc sch src_link env m N
    if r.2 then deliver nc m r.1 else r.1

/-! ## `Session_Send_Message` -/

/-- The signature; `none` if `EVP_SignFinal` fails. -/
def sign_message (crypto : Bool) (hdr : UdpHeader) (body : Body) : Option Message :=
  let m : Message := { hdr := hdr, body := body, signature := [], acks := [] }
  if crypto then (sch.sign (sch.wire m.signed)).map (fun signature => { m with signature := signature })
  else some m

/-- `Session_Send_Message` with `IT_PRIORITY_ROUTING`. The header is the one
`Fill_Packet_Header` and the session make, without the mask. -/
def session_send_priority (env : Env) (hdr : UdpHeader) (data : List UInt8) (f_hdr : PrioHeader)
    (elements : List ℕ) (elements_length : elements.length < MAX_SCATTER_ELEMENTS)
    (disjoint_paths : ℕ) (stamp : ℕ → Option ℕ) (N : Node) : Node :=
  let group := is_mcast_addr hdr.dest ∨ is_acast_addr hdr.dest
  let hdr := if group ∧ nc.overwrite_ip ≠ 0 then { hdr with dest := nc.overwrite_ip } else hdr
  let dst_id :=
    if is_mcast_addr hdr.dest ∨ is_acast_addr hdr.dest then
      if disjoint_paths ≠ 0 then none else some 0
    else nc.lookup hdr.dest
  match dst_id.bind stamp with
  | none => N
  | some mask =>
    match sign_message sch nc.prio_crypto hdr
      (.priority data { f_hdr with mask := mask } elements elements_length) with
    | none => N
    | some m => deliver_and_forward_data nc sch none env m N

/-- `Session_Send_Message` with `IT_RELIABLE_ROUTING`, for a session that is not
blocked. -/
def session_send_reliable (env : Env) (hdr : UdpHeader) (data : List UInt8) (disjoint_paths : ℕ)
    (stamp : ℕ → Option ℕ) (N : Node) : Node :=
  match nc.lookup hdr.dest with
  | none => N
  | some dst_id =>
    if reliable_flood_can_flow_send nc.rel dst_id N.rel then
      let filled := fill_packet_header_reliable_flood nc.rel dst_id disjoint_paths
        ((stamp dst_id).getD 0) data N.rel
      let N := { N with rel := filled.1 }
      if stamp dst_id = none then N
      else
        match sign_message sch nc.rel.crypto hdr (.data filled.2) with
        | none => N
        | some m => deliver_and_forward_data nc sch none env m N
    else N

/-! ## Events and runs -/

/-- What can happen at a daemon. The header of a client's message is as
`Process_Session_Packet` leaves it: its source is this daemon. -/
inductive Event
  | receive (k : ℕ) (env : Env) (m : Message)
  | send_priority (env : Env) (dest source_port dest_port ttl : ℕ) (data : List UInt8)
      (f_hdr : PrioHeader) (elements : List ℕ)
      (elements_length : elements.length < MAX_SCATTER_ELEMENTS) (disjoint_paths : ℕ)
      (stamp : ℕ → Option ℕ)
  | send_reliable (env : Env) (dest source_port dest_port ttl : ℕ) (data : List UInt8)
      (disjoint_paths : ℕ) (stamp : ℕ → Option ℕ)
  /-- Timers, the link layer and restamping: whatever reliable flooding does besides. -/
  | rel (e : RelFlood.Event)
  | prio (e : Priority.Event)
  | group (g : ℕ) (active : Bool)

def Event.Ok : Event → Prop
  | receive k _ _ => nc.rel.nbr k
  | rel e => e.Ok nc.rel ∧ (∀ sec k v pkt, e ≠ .packet sec k v pkt) ∧
      ∀ sec dst n st sign_ok body, e ≠ .client sec dst n st sign_ok body
  | prio e => ∀ l env m, e ≠ .disseminate l env m
  | _ => True

def handle (N : Node) : Event → Node
  | .receive k env m => deliver_and_forward_data nc sch (some k) env m N
  | .send_priority env dest source_port dest_port ttl data f_hdr elements h disjoint_paths stamp =>
    session_send_priority nc sch env ⟨nc.my_address, dest, source_port, dest_port, ttl⟩ data f_hdr
      elements h disjoint_paths stamp N
  | .send_reliable env dest source_port dest_port ttl data disjoint_paths stamp =>
    session_send_reliable nc sch env ⟨nc.my_address, dest, source_port, dest_port, ttl⟩ data
      disjoint_paths stamp N
  | .rel e => { N with rel := RelFlood.handle nc.rel N.rel e }
  | .prio e => { N with prio := Priority.handle nc.prio N.prio e }
  | .group g active => { N with active_group := Function.update N.active_group g active }

def Step (N : Node) (e : Event) (N' : Node) : Prop :=
  N.rel.halt = .running ∧ N.prio.halt = .running ∧ e.Ok nc ∧ N' = handle nc sch N e

end Functions

end Spines.Delivery
