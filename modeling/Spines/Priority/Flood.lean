/-
Priority flooding at one daemon (`daemon/priority_flood.c`).

A message is flooded at once to every neighbour on its bit mask; a neighbour that
cannot take it yet gets a node for it in a list, one list for each source and
priority. The message itself is kept once, in the table `Belly` of its source,
with a status for every neighbour and the number of neighbours that still need
it; once nobody needs it, its data are freed, and the entry stays behind until it
expires so that copies of the message are recognized.

Lists are head first. A pointer to an entry of `Belly` is the key of the entry; a
pointer to a node of a list is a number that `new` has not handed out before.

What is left open: the clock, signatures, whether `Forward_Data` takes a message,
and how often `Request_Resources` calls back. A call of
`Priority_Flood_Send_One` gets one reading of the clock for each round of its
loop; the order in which `Priority_Garbage_Collect` finds the entries of the
tables is an argument.

The counters of messages are unbounded here. In the source they have 32 bits; a
daemon that stores `2^32` packets for a neighbour runs out of memory first.
-/
import Spines.IntruTol.Fragments
import Spines.RelFlood.Flow

set_option autoImplicit false

namespace Spines.Priority

open Spines.IntruTol Spines.RelFlood Function

/-! ## Time -/

structure SpTime where
  sec : ℤ
  usec : ℤ
  deriving DecidableEq, Repr

def e_compare_time (t1 t2 : SpTime) : ℤ :=
  if t2.sec < t1.sec then 1
  else if t1.sec < t2.sec then -1
  else if t2.usec < t1.usec then 1
  else if t1.usec < t2.usec then -1
  else 0

/-- `t1` is not after `t2`. -/
def SpTime.le (t1 t2 : SpTime) : Prop := e_compare_time t1 t2 ≤ 0

instance (t1 t2 : SpTime) : Decidable (t1.le t2) := inferInstanceAs (Decidable (_ ≤ _))

/-! ## Configuration and messages -/

def MAX_PRIORITY : ℕ := 10

structure PrioConf where
  my_id : ℕ
  degree : ℕ
  /-- `Neighbor_IDs[My_ID][k]`. -/
  neighbor_ids : ℕ → ℕ
  /-- `MP_Neighbor_Mask[k]`. -/
  mp_neighbor_mask : ℕ → ℕ
  /-- `Conf_Prio.Max_Mess_Stored`. -/
  max_mess_stored : ℕ
  link_header_size : ℕ → ℕ
  /-- How many objects `dispose` keeps of type `PRIO_FLOOD_NS_OBJ`. -/
  ns_threshold : ℕ

/-- `k` is the index of a neighbour. -/
def PrioConf.nbr (cf : PrioConf) (k : ℕ) : Prop := 1 ≤ k ∧ k ≤ cf.degree

instance (cf : PrioConf) (k : ℕ) : Decidable (cf.nbr k) := inferInstanceAs (Decidable (_ ∧ _))

/-- `Prio_Flood_Key`. -/
structure PrioKey where
  incarnation : ℕ
  seq_num : ℕ
  deriving DecidableEq, Repr

/-- A message: the fields of its headers, its mask and the lengths of the elements
of its body. -/
structure PrioMsg where
  source : ℕ
  dest : ℕ
  key : PrioKey
  priority : ℕ
  expire : SpTime
  mask : ℕ
  elements : List ℕ
  elements_length : elements.length < MAX_SCATTER_ELEMENTS

/-- `MultiPath_Neighbor_On_Path`. -/
def PrioConf.on_path (cf : PrioConf) (mask k : ℕ) : Bool := (mask &&& cf.mp_neighbor_mask k) ≠ 0

/-- One round of the loop of `Calculate_Packets_In_Message`: the number of packets
and the length of the last one, both `int16u`. -/
def count_packet (link_addition : ℕ) (c : ℕ × ℕ) (len : ℕ) : ℕ × ℕ :=
  if MAX_PACKET_SIZE - link_addition < c.2 + len + SIZEOF_FRAGMENT_HEADER then
    ((c.1 + 1) % 2 ^ 16, (len + SIZEOF_FRAGMENT_HEADER) % 2 ^ 16)
  else (c.1, (c.2 + len + SIZEOF_FRAGMENT_HEADER) % 2 ^ 16)

def calculate_packets_in_message (cf : PrioConf) (m : PrioMsg) (mode : ℕ) : ℕ :=
  (m.elements.foldl (count_packet (cf.link_header_size mode)) (1, 0)).1

/-! ## State -/

inductive MsgStatus
  /-- Not set yet: what `calloc` leaves. -/
  | unset
  | need_msg
  | recv_msg
  | on_link_msg
  | dropped_msg
  | expired_msg
  | not_in_mask
  deriving DecidableEq, Repr

/-- `Prio_Neighbor_Status`. -/
structure NeighborStatus where
  flag : MsgStatus
  ngbr : Option ℕ
  deriving DecidableEq, Repr

/-- `Prio_Flood_Value`. -/
structure FloodValue where
  expire : SpTime
  priority : ℕ
  need_count : ℕ
  msg_scat : Option PrioMsg
  link_mode : ℕ
  ns : Option (ℕ → NeighborStatus)

/-- `fbv_ptr->ns[k]`. -/
def FloodValue.status (v : FloodValue) (k : ℕ) : NeighborStatus :=
  (v.ns.getD (fun _ => ⟨.unset, none⟩)) k

/-- `fbv_ptr->ns[k] = st`. -/
def FloodValue.set_status (v : FloodValue) (k : ℕ) (st : NeighborStatus) : FloodValue :=
  { v with ns := v.ns.map (fun a => update a k st) }

/-- `Prio_PQ_Node`: its address, and the key of its entry. -/
structure PqNode where
  id : ℕ
  timestamp : SpTime
  entry : PrioKey
  deriving DecidableEq, Repr

/-- `Send_Fair_Queue`. -/
structure SendFair where
  src_id : ℕ
  penalty : ℕ
  deriving DecidableEq, Repr

/-- `Prio_Link_Data`: what the daemon keeps for one neighbour. -/
structure PrioLink where
  total_msg : ℕ
  msg_count : ℕ → ℕ
  in_send_queue : ℕ → Bool
  max_pq : ℕ → ℕ
  min_pq : ℕ → ℕ
  /-- `pq[source]`, by priority. -/
  pq : ℕ → ℕ → List PqNode
  norm : List SendFair
  urgent : List SendFair

inductive Halt
  | running
  | invalid_status
  /-- A failed `assert` or a `NULL` that is dereferenced. -/
  | crash
  deriving DecidableEq, Repr

structure Flood where
  /-- `Belly[source]`. -/
  belly : ℕ → PrioKey → Option FloodValue
  node_incarnation : ℕ → ℕ
  edge : ℕ → PrioLink
  /-- The arrays `dispose` has kept: they are as they were left. -/
  ns_pool : List (ℕ → NeighborStatus)
  /-- The first address `new` has not handed out yet. -/
  next_id : ℕ
  halt : Halt

/-- `Init_Priority_Flooding`, run at second `sec`. The pool starts with twenty
objects from `calloc`. -/
def init_priority_flooding (cf : PrioConf) (sec : ℕ) : Flood where
  belly := fun _ _ => none
  node_incarnation := fun i => if i = cf.my_id then sec else 0
  edge := fun _ =>
    { total_msg := 0
      msg_count := fun _ => 0
      in_send_queue := fun _ => false
      max_pq := fun _ => 0
      min_pq := fun _ => MAX_PRIORITY + 1
      pq := fun _ _ => []
      norm := []
      urgent := [] }
  ns_pool := List.replicate 20 (fun _ => ⟨.unset, none⟩)
  next_id := 0
  halt := .running

def Flood.on_edge (P : Flood) (k : ℕ) (f : PrioLink → PrioLink) : Flood :=
  { P with edge := update P.edge k (f (P.edge k)) }

/-- `*fbv_ptr = v`. -/
def Flood.set_entry (P : Flood) (s : ℕ) (key : PrioKey) (v : FloodValue) : Flood :=
  { P with belly := update P.belly s (update (P.belly s) key (some v)) }

/-- `stdhash_erase`. -/
def Flood.erase (P : Flood) (s : ℕ) (key : PrioKey) : Flood :=
  { P with belly := update P.belly s (update (P.belly s) key none) }

/-! ## `Cleanup_prio_flood_ds` -/

def release (cf : PrioConf) (s : ℕ) (key : PrioKey) (P : Flood) : Flood :=
  match P.belly s key with
  | none => P
  | some v =>
    if v.need_count = 0 then
      { P.set_entry s key { v with ns := none, msg_scat := none } with
        ns_pool := match v.ns with
          | none => P.ns_pool
          | some a => if P.ns_pool.length < cf.ns_threshold then a :: P.ns_pool else P.ns_pool }
    else P

def lower_max (l : ℕ → List PqNode) : ℕ → ℕ
  | 0 => 0
  | j + 1 => if l (j + 1) = [] then lower_max l j else j + 1

/-- The loop that raises `min_pq`, from `j` with `fuel` priorities to go. -/
def raise_min (l : ℕ → List PqNode) : ℕ → ℕ → ℕ
  | 0, j => j
  | fuel + 1, j => if l j = [] then raise_min l fuel (j + 1) else j

/-- The node of a message leaves the lists toward a neighbour. The extreme
priorities are looked at again only when it was the last of its list. -/
def PrioLink.unlink (s priority id packets : ℕ) (ld : PrioLink) : PrioLink :=
  let l := ld.pq s priority
  let ld₁ : PrioLink :=
    { ld with
      total_msg := ld.total_msg - packets
      msg_count := update ld.msg_count s (ld.msg_count s - packets)
      pq := set2 ld.pq s priority (l.filter (fun n => n.id ≠ id)) }
  if l.getLast?.map PqNode.id = some id then
    if 0 < ld₁.msg_count s then
      { ld₁ with
        max_pq := update ld.max_pq s (lower_max (ld₁.pq s) (ld.max_pq s))
        min_pq := update ld.min_pq s
          (raise_min (ld₁.pq s) (MAX_PRIORITY + 1 - ld.min_pq s) (ld.min_pq s)) }
    else
      { ld₁ with
        max_pq := update ld.max_pq s 0
        min_pq := update ld.min_pq s (MAX_PRIORITY + 1) }
  else ld₁

def cleanup_ngbr (s : ℕ) (key : PrioKey) (packets : ℕ) (flag : MsgStatus) (P : Flood) (i : ℕ) :
    Flood :=
  match P.belly s key with
  | none => P
  | some v =>
    if v.need_count = 0 then P
    else
      match (v.status i).ngbr with
      | none => P
      | some id =>
        let P := P.on_edge i (PrioLink.unlink s v.priority id packets)
        P.set_entry s key
          { v.set_status i ⟨flag, none⟩ with need_count := v.need_count - 1 }

/-- `Cleanup_prio_flood_ds`. An expired message goes for all neighbours. -/
def cleanup_prio_flood_ds (cf : PrioConf) (ngbr_index s : ℕ) (key : PrioKey) (flag : MsgStatus)
    (P : Flood) : Flood :=
  match P.belly s key with
  | none => P
  | some v =>
    if v.need_count = 0 then P
    else
      let packets := match v.msg_scat with
        | none => 0
        | some m => calculate_packets_in_message cf m v.link_mode
      let range :=
        if flag = .expired_msg then List.range' 1 cf.degree else [ngbr_index]
      release cf s key (range.foldl (cleanup_ngbr s key packets flag) P)

/-! ## `Priority_Flood_Send_One` -/

/-- What a round of the loop finds: the time, and whether `Forward_Data` takes the
message. -/
structure SendRound where
  now : SpTime
  forward_ok : Bool

inductive Round
  | again
  | sent
  | nothing
  deriving DecidableEq, Repr

/-- `temp_sfq->penalty--` on an `int16u`. -/
def SendFair.pay (e : SendFair) : SendFair :=
  { e with penalty := (e.penalty + (2 ^ 16 - 1)) % 2 ^ 16 }

/-- `temp_sfq->penalty = penalty`, for the entry at the front of the queues. -/
def PrioLink.charge (penalty : ℕ) (ld : PrioLink) : PrioLink :=
  match ld.urgent, ld.norm with
  | e :: urgent, _ => { ld with urgent := { e with penalty := penalty } :: urgent }
  | [], e :: norm => { ld with norm := { e with penalty := penalty } :: norm }
  | [], [] => ld

def PrioLink.rotate (penalty : ℕ) (ld : PrioLink) : PrioLink :=
  match ld.urgent, ld.norm with
  | e :: urgent, _ =>
    { ld with urgent := urgent, norm := ld.norm ++ [{ e with penalty := penalty }] }
  | [], e :: norm => { ld with norm := norm ++ [{ e with penalty := penalty }] }
  | [], [] => ld

/-- The second half of a round: the oldest message of the highest priority of the
source `e.src_id`, whose entry is at the front of the queues. -/
def serve (cf : PrioConf) (k mode : ℕ) (r : SendRound) (e : SendFair) (P : Flood) : Flood × Round :=
  let ld := P.edge k
  match ld.pq e.src_id (ld.max_pq e.src_id) with
  | [] => ({ P with halt := .crash }, .nothing)
  | node :: _ =>
    if node.timestamp.le r.now then
      let P := cleanup_prio_flood_ds cf k e.src_id node.entry .expired_msg P
      (P.on_edge k (PrioLink.charge 1), .again)
    else if r.forward_ok then
      let packets := match (P.belly e.src_id node.entry).bind FloodValue.msg_scat with
        | none => 0
        | some m => calculate_packets_in_message cf m mode
      let P := P.on_edge k (PrioLink.rotate packets)
      (cleanup_prio_flood_ds cf k e.src_id node.entry .on_link_msg P, .sent)
    else (P.on_edge k (PrioLink.charge ((e.penalty + 1) % 2 ^ 16)), .nothing)

/-- One round of the loop of `Priority_Flood_Send_One`. -/
def send_round (cf : PrioConf) (k mode : ℕ) (P : Flood) (r : SendRound) : Flood × Round :=
  let ld := P.edge k
  match ld.urgent, ld.norm with
  | e :: urgent, _ =>
    if 0 < e.pay.penalty ∨ ld.msg_count e.src_id = 0 then
      (P.on_edge k (fun ld => { ld with urgent := urgent, norm := ld.norm ++ [e.pay] }), .again)
    else serve cf k mode r e.pay (P.on_edge k (fun ld => { ld with urgent := e.pay :: urgent }))
  | [], e :: norm =>
    if 0 < e.pay.penalty then
      (P.on_edge k (fun ld => { ld with norm := norm ++ [e.pay] }), .again)
    else if ld.msg_count e.src_id = 0 then
      (P.on_edge k (fun ld => { ld with
        norm := norm
        in_send_queue := update ld.in_send_queue e.src_id false }), .again)
    else serve cf k mode r e.pay (P.on_edge k (fun ld => { ld with norm := e.pay :: norm }))
  | [], [] => (P, .nothing)

def send_rounds (cf : PrioConf) (k mode : ℕ) : List SendRound → Flood → Flood
  | [], P => P
  | r :: rounds, P =>
    match send_round cf k mode P r with
    | (P, .again) => send_rounds cf k mode rounds P
    | (P, _) => P

/-- Something was sent, or there is nothing to send, before the list is at its end. -/
def finishes (cf : PrioConf) (k mode : ℕ) : List SendRound → Flood → Bool
  | [], _ => false
  | r :: rounds, P =>
    match send_round cf k mode P r with
    | (P, .again) => finishes cf k mode rounds P
    | _ => true

/-- `Priority_Flood_Send_One`, with what its rounds find. A list in which the loop does
not end is no call. -/
def priority_flood_send_one (cf : PrioConf) (k mode : ℕ) (rounds : List SendRound) (P : Flood) :
    Flood :=
  if finishes cf k mode rounds P then send_rounds cf k mode rounds P else P

/-! ## `Priority_Flood_Disseminate` -/

inductive Ret
  | buff_ok
  | buff_drop
  | no_route
  deriving DecidableEq, Repr

/-- What a call of `Priority_Flood_Disseminate` finds in its surroundings. -/
structure DissemEnv where
  now : SpTime
  verified : Bool
  mode : ℕ
  /-- The calls of `Priority_Flood_Send_One` that `Request_Resources` makes after the
  message was queued toward a neighbour. -/
  sends : ℕ → List (List SendRound)

/-- A neighbour that the message is not queued toward. -/
def settle (cf : PrioConf) (s : ℕ) (key : PrioKey) (k : ℕ) (flag : MsgStatus) (P : Flood) : Flood :=
  match P.belly s key with
  | none => P
  | some v =>
    release cf s key
      (P.set_entry s key { v.set_status k ⟨flag, none⟩ with need_count := v.need_count - 1 })

/-- A node goes to the end of a list toward a neighbour, and the source into the
urgent queue unless it waits already. -/
def PrioLink.append (s priority packets : ℕ) (node : PqNode) (ld : PrioLink) : PrioLink :=
  { ld with
    pq := set2 ld.pq s priority (ld.pq s priority ++ [node])
    in_send_queue := update ld.in_send_queue s true
    urgent := if ld.in_send_queue s then ld.urgent else ld.urgent ++ [⟨s, 1⟩]
    msg_count := update ld.msg_count s (ld.msg_count s + packets)
    total_msg := ld.total_msg + packets
    max_pq := update ld.max_pq s (max (ld.max_pq s) priority)
    min_pq := update ld.min_pq s (min (ld.min_pq s) priority) }

/-- The message is queued toward neighbour `k`. -/
def enqueue (cf : PrioConf) (mode : ℕ) (m : PrioMsg) (k : ℕ) (P : Flood) : Flood :=
  match P.belly m.source m.key with
  | none => P
  | some v =>
    let s := m.source
    let packets := match v.msg_scat with
      | none => 0
      | some m => calculate_packets_in_message cf m mode
    let P₁ := P.on_edge k (PrioLink.append s m.priority packets ⟨P.next_id, v.expire, m.key⟩)
    { P₁.set_entry s m.key (v.set_status k ⟨.need_msg, some P.next_id⟩) with
      next_id := P.next_id + 1 }

/-- The source that takes the most room in the lists toward a neighbour: the first
one with the largest count, `0` if there is none. -/
def find_hog (ld : PrioLink) : ℕ :=
  ((List.range' 1 MAX_NODES).foldl (fun (c : ℕ × ℕ) i =>
    if 0 < ld.msg_count i ∧ c.2 < ld.msg_count i then (i, ld.msg_count i) else c) (0, 0)).1

def drop_one (cf : PrioConf) (k : ℕ) (P : Flood) : Flood :=
  let ld := P.edge k
  let hog_index := find_hog ld
  match ld.pq hog_index (ld.min_pq hog_index) with
  | [] => { P with halt := .crash }
  | node :: _ => cleanup_prio_flood_ds cf k hog_index node.entry .dropped_msg P

def disseminate_ngbr (cf : PrioConf) (src_link : Option ℕ) (env : DissemEnv) (m : PrioMsg)
    (c : Flood × Ret) (k : ℕ) : Flood × Ret :=
  let P := c.1
  if P.halt ≠ .running then c
  else if cf.neighbor_ids k = (src_link.elim cf.my_id cf.neighbor_ids) ∨
      cf.neighbor_ids k = m.source then
    (settle cf m.source m.key k .recv_msg P, c.2)
  else if cf.on_path m.mask k = false then (settle cf m.source m.key k .not_in_mask P, c.2)
  else if m.dest = cf.my_id then (settle cf m.source m.key k .dropped_msg P, c.2)
  else
    let P := enqueue cf env.mode m k P
    let P := (env.sends k).foldl (fun P rounds =>
      if P.halt = .running then priority_flood_send_one cf k env.mode rounds P else P) P
    if P.halt = .running ∧ cf.max_mess_stored < (P.edge k).total_msg then
      (drop_one cf k P, .buff_drop)
    else (P, c.2)

/-- `new(PRIO_FLOOD_NS_OBJ)`. -/
def new_ns (P : Flood) : (ℕ → NeighborStatus) × List (ℕ → NeighborStatus) :=
  match P.ns_pool with
  | [] => (fun _ => ⟨.unset, none⟩, [])
  | a :: pool => (a, pool)

def disseminate_new (cf : PrioConf) (src_link : Option ℕ) (env : DissemEnv) (m : PrioMsg)
    (P : Flood) : Flood × Ret :=
  let P := { P.set_entry m.source m.key
      { expire := m.expire
        priority := m.priority
        need_count := cf.degree
        msg_scat := some m
        link_mode := env.mode
        ns := some (new_ns P).1 } with ns_pool := (new_ns P).2 }
  (List.range' 1 cf.degree).foldl (disseminate_ngbr cf src_link env m) (P, .buff_ok)

def disseminate_again (cf : PrioConf) (src_link : Option ℕ) (m : PrioMsg) (v : FloodValue)
    (P : Flood) : Flood :=
  match src_link with
  | none => P
  | some last_hop_index =>
    if v.need_count = 0 then P
    else
      match (v.status last_hop_index).flag with
      | .recv_msg | .dropped_msg | .expired_msg => P
      | .on_link_msg => P
      | .need_msg => cleanup_prio_flood_ds cf last_hop_index m.source m.key .recv_msg P
      | _ => { P with halt := .invalid_status }

/-- `Priority_Flood_Disseminate`, for a message that came over the link of a
neighbour or, with `none`, from a session of this daemon. -/
def priority_flood_disseminate (cf : PrioConf) (src_link : Option ℕ) (env : DissemEnv)
    (m : PrioMsg) (P : Flood) : Flood × Ret :=
  if env.verified = false then (P, .no_route)
  else if m.key.incarnation < P.node_incarnation m.source then (P, .no_route)
  else
    let P := { P with
      node_incarnation := update P.node_incarnation m.source m.key.incarnation }
    match P.belly m.source m.key with
    | none =>
      if m.expire.le env.now then (P, .no_route)
      else if m.priority = 0 ∨ MAX_PRIORITY < m.priority then (P, .no_route)
      else disseminate_new cf src_link env m P
    | some v => (disseminate_again cf src_link m v P, .no_route)

/-! ## `Priority_Garbage_Collect` -/

def collect_entry (cf : PrioConf) (now : SpTime) (P : Flood) (a : ℕ × PrioKey) : Flood :=
  match P.belly a.1 a.2 with
  | none => P
  | some v =>
    if v.expire.le now then
      (cleanup_prio_flood_ds cf 0 a.1 a.2 .expired_msg P).erase a.1 a.2
    else P

/-- `Priority_Garbage_Collect`; `order` lists the entries of all tables. -/
def priority_garbage_collect (cf : PrioConf) (now : SpTime) (order : List (ℕ × PrioKey))
    (P : Flood) : Flood :=
  order.foldl (collect_entry cf now) P

/-! ## Events -/

inductive Event
  | disseminate (src_link : Option ℕ) (env : DissemEnv) (m : PrioMsg)
  | send_one (k mode : ℕ) (rounds : List SendRound)
  | garbage_collect (now : SpTime) (order : List (ℕ × PrioKey))

/-- The event names a neighbour and a configured source where it names one, and
garbage collection goes through all entries. -/
def Event.Ok (cf : PrioConf) (P : Flood) : Event → Prop
  | disseminate src_link _ m =>
    (∀ k, src_link = some k → cf.nbr k) ∧ 1 ≤ m.source ∧ m.source ≤ MAX_NODES
  | send_one k _ _ => cf.nbr k
  | garbage_collect _ order => order.Nodup ∧ ∀ a, a ∈ order ↔ P.belly a.1 a.2 ≠ none

def handle (cf : PrioConf) (P : Flood) : Event → Flood
  | .disseminate src_link env m => (priority_flood_disseminate cf src_link env m P).1
  | .send_one k mode rounds => priority_flood_send_one cf k mode rounds P
  | .garbage_collect now order => priority_garbage_collect cf now order P

def Step (cf : PrioConf) (P : Flood) (e : Event) (P' : Flood) : Prop :=
  P.halt = .running ∧ e.Ok cf P ∧ P' = handle cf P e

end Spines.Priority
