/-
Reliable flooding at one daemon (`daemon/reliable_flood.c`).

`Daemon` holds the globals of the file. A function that is called back by the link
layer, or that depends on time, signatures or the result of `Forward_Data`, gets
these as an argument. What is left open:

* time, signatures (`EVP_*`), the masks `MultiPath_Stamp_Bitmask` computes;
* the link layer: whether `Forward_Data` takes a packet, how many packets a
  message needs, how many acknowledgements fit, when `Reliable_Flood_Send_One`
  is called back;
* timers: a timer function may run at any moment, so `E_queue` and the stand-alone
  ack trigger `saa_trigger` are not modelled;
* link status changes are flooded by the same code but touch reliable flooding
  only through `Reliable_Flood_Restamp` and the acknowledgements they carry.

A call of `Alarm(EXIT, …)` or a failed `assert` ends the daemon, and a loop may
fail to end; `halt` records either, and no event is enabled afterwards.
-/
import Spines.RelFlood.Flow
import Spines.Lib.Run

set_option autoImplicit false

namespace Spines.RelFlood

open Spines.Lib Function List

/-! ## State -/

/-- `Flow_Queue`: an entry of a neighbour's urgent or normal queue. -/
structure FlowQueue where
  src_id : ℕ
  dest_id : ℕ
  penalty : ℕ
  deriving DecidableEq, Repr

/-- `rel_flood_hbh_ack`. -/
structure HbhAck where
  src : ℕ
  dest : ℕ
  src_epoch : ℕ
  aru : ℕ
  sow : ℕ
  aru_lt : aru < 2 ^ 64 := by decide

instance : DecidableEq HbhAck := fun a b =>
  decidable_of_iff (a.src = b.src ∧ a.dest = b.dest ∧ a.src_epoch = b.src_epoch ∧ a.aru = b.aru ∧
    a.sow = b.sow) (by cases a; cases b; simp)

/-- `Rel_Flood_Link_Data`: what the daemon keeps for one neighbour. The two flow
queues and the queue of unsent acknowledgements are lists, head first; `e2e_skl`
lists the acknowledgements to forward with their times, earliest first. -/
structure LinkData where
  flow_aru : ℕ → ℕ → ℕ
  flow_sow : ℕ → ℕ → ℕ
  norm : List FlowQueue
  urgent : List FlowQueue
  in_flow_queue : ℕ → ℕ → Bool
  /-- `e2e_stats[dest].flow_block[src]`. -/
  flow_block : ℕ → ℕ → Bool
  /-- `e2e_stats[dest].unsent`. -/
  e2e_unsent : ℕ → Bool
  /-- `e2e_stats[dest].timeout`. -/
  e2e_timeout : ℕ → ℕ
  e2e_skl : List (ℕ × ℕ)
  e2e_ready : Bool
  hbh_unsent : List (ℕ × ℕ)
  unsent_state : ℕ → ℕ → Bool
  unsent_state_count : ℕ

inductive Halt
  | running
  /-- `Alarm(EXIT, …)` or a failed `assert`. -/
  | exit
  /-- A loop that does not end; the state is the one in which it was entered. -/
  | hang
  deriving DecidableEq, Repr

structure Daemon where
  fb : ℕ → ℕ → FlowBuffer
  edge : ℕ → LinkData
  e2e : ℕ → E2eAck
  flow_seq_no : ℕ → ℕ
  flow_source_epoch : ℕ → ℕ
  handshake_complete : ℕ → Bool
  initial_e2e : Bool
  e2e_stop : Bool
  rf_state_change : Bool
  num_paths_snapshot : ℕ
  halt : Halt

/-- Link data as `Init_Reliable_Flooding` sets it up. -/
def LinkData.init : LinkData where
  flow_aru := fun _ _ => 0
  flow_sow := fun _ _ => 1
  norm := []
  urgent := []
  in_flow_queue := fun _ _ => false
  flow_block := fun _ _ => false
  e2e_unsent := fun _ => false
  e2e_timeout := fun _ => 0
  e2e_skl := []
  e2e_ready := false
  hbh_unsent := []
  unsent_state := fun _ _ => false
  unsent_state_count := 0

/-- The epoch a daemon takes from the clock: `now.sec` in an `int32u`. -/
def epoch (sec : ℕ) : ℕ := sec % 2 ^ 32

/-- `Init_Reliable_Flooding`, run at second `sec`. -/
def init_reliable_flooding (cf : Conf) (sec : ℕ) : Daemon where
  fb := fun s d =>
    if s = cf.my_id ∧ d = cf.my_id then { FlowBuffer.init with src_epoch := epoch sec }
    else FlowBuffer.init
  edge := fun _ => LinkData.init
  e2e := fun d =>
    if d = cf.my_id then ⟨cf.my_id, fun _ => { dest_epoch := epoch sec, src_epoch := 0, aru := 0 }⟩
    else ⟨0, fun _ => { dest_epoch := 0, src_epoch := 0, aru := 0 }⟩
  flow_seq_no := fun _ => 1
  flow_source_epoch := fun _ => epoch sec
  handshake_complete := fun d => d = cf.my_id
  initial_e2e := true
  e2e_stop := false
  rf_state_change := false
  num_paths_snapshot := 0
  halt := .running

/-! ## Queues of one neighbour -/

/-- Add the flow to the normal queue unless it is in one of the queues. -/
def LinkData.push_norm (s d : ℕ) (ld : LinkData) : LinkData :=
  if ld.in_flow_queue s d then ld
  else { ld with
    in_flow_queue := set2 ld.in_flow_queue s d true
    norm := ld.norm ++ [⟨s, d, 1⟩] }

/-- Add the flow to the urgent queue unless it is in one of the queues. -/
def LinkData.push_urgent (s d : ℕ) (ld : LinkData) : LinkData :=
  if ld.in_flow_queue s d then ld
  else { ld with
    in_flow_queue := set2 ld.in_flow_queue s d true
    urgent := ld.urgent ++ [⟨s, d, 1⟩] }

def LinkData.note_state (s d : ℕ) (ld : LinkData) : LinkData :=
  if ld.unsent_state s d then ld
  else { ld with
    unsent_state := set2 ld.unsent_state s d true
    hbh_unsent := ld.hbh_unsent ++ [(s, d)]
    unsent_state_count := ld.unsent_state_count + 1 }

/-- The acknowledgement of `d` is to be forwarded at time `t`. -/
def LinkData.e2e_insert (t d : ℕ) (ld : LinkData) : LinkData :=
  { ld with
    e2e_unsent := update ld.e2e_unsent d true
    e2e_timeout := update ld.e2e_timeout d t
    e2e_skl := ld.e2e_skl.orderedInsert (fun a b => a.1 ≤ b.1) (t, d) }

def Daemon.on_edge (D : Daemon) (k : ℕ) (f : LinkData → LinkData) : Daemon :=
  { D with edge := update D.edge k (f (D.edge k)) }

/-- The next message of the flow may be queued toward neighbour `k`: there is one
and `k` is on its path. -/
def FlowBuffer.has_next (cf : Conf) (fb : FlowBuffer) (k : ℕ) : Prop :=
  fb.next_seq k < fb.head_seq ∧ fb.next_on_path cf k = true

instance (cf : Conf) (fb : FlowBuffer) (k : ℕ) : Decidable (fb.has_next cf k) :=
  inferInstanceAs (Decidable (_ ∧ _))

/-! ## Packets -/

inductive Ret
  | buff_ok
  | no_route
  deriving DecidableEq, Repr

inductive Body
  | data (m : Msg)
  | e2e (ack : E2eAck)
  | saa
  | status_change

structure Packet where
  body : Body
  acks : List HbhAck

/-! ## `Reliable_Flood_Process_E2E` -/

def e2e_valid (new old : E2eAck) : Prop :=
  (∀ i ∈ range' 1 MAX_NODES, ¬ (new.cell i).older (old.cell i)) ∧
    ∃ i ∈ range' 1 MAX_NODES, (old.cell i).older (new.cell i)

instance (new old : E2eAck) : Decidable (e2e_valid new old) :=
  inferInstanceAs (Decidable (_ ∧ _))

/-- `E2E[d].cell[i] = c`. -/
def Daemon.set_cell (D : Daemon) (d i : ℕ) (c : Cell) : Daemon :=
  { D with
    e2e := update D.e2e d
      { D.e2e d with cell := update (D.e2e d).cell i c } }

/-- A new handshake request from `d`. -/
def handshake_request (cf : Conf) (sec d : ℕ) (dest_epoch : ℕ) (D : Daemon) : Daemon :=
  let D := { D with handshake_complete := update D.handshake_complete d false }
  -- our flow to them
  let D :=
    if 1 < D.flow_seq_no d then
      let D := { D with
        flow_seq_no := update D.flow_seq_no d 1
        flow_source_epoch := update D.flow_source_epoch d (epoch sec) }
      D.set_cell cf.my_id d { (D.e2e cf.my_id).cell d with dest_epoch := epoch sec }
    else D
  -- their flow to us
  let D := D.set_cell cf.my_id d
    { (D.e2e cf.my_id).cell d with src_epoch := dest_epoch, aru := 0, aru_lt := by decide }
  let fb := D.fb d cf.my_id
  { D with
    fb := set2 D.fb d cf.my_id { fb with
      sow := 1
      head_seq := 1
      next_seq := cf.each (fun _ => 1) fb.next_seq
      src_epoch := dest_epoch }
    initial_e2e := true }

def Cell.changed (new old : Cell) : Prop :=
  old.dest_epoch < new.dest_epoch ∨ old.src_epoch < new.src_epoch ∨ old.aru < new.aru

instance (new old : Cell) : Decidable (new.changed old) := inferInstanceAs (Decidable (_ ∨ _))

/-- One cell on the data toward neighbour `k`; `fb` is the buffer afterwards. -/
def e2e_cell_link (cf : Conf) (last_hop_index d i : ℕ) (new old : Cell) (fb : FlowBuffer)
    (k : ℕ) (ld : LinkData) : LinkData :=
  if new.changed old then
    let ld :=
      if old.dest_epoch < new.dest_epoch ∨ old.src_epoch < new.src_epoch then
        { ld with
          flow_aru := set2 ld.flow_aru i d new.aru
          flow_sow := set2 ld.flow_sow i d (int64u (new.aru + 1)) }
      else
        { ld with
          flow_aru := set2 ld.flow_aru i d (max (ld.flow_aru i d) new.aru)
          flow_sow := set2 ld.flow_sow i d
            (if ld.flow_sow i d ≤ new.aru then int64u (new.aru + 1) else ld.flow_sow i d) }
    if k ≠ last_hop_index then { ld with flow_block := set2 ld.flow_block d i true }
    else if fb.has_next cf k then ld.push_norm i d
    else ld
  else ld

/-- The body of the loop over the cells. `E2E[d]` is read where it is used: for
`d == My_ID` the handshake request has just written to it. -/
def process_cell (cf : Conf) (last_hop_index : ℕ) (new : E2eAck) (D : Daemon) (i : ℕ) : Daemon :=
  let d := new.dest
  let old := (D.e2e d).cell i
  let fb := (D.fb i d).e2e_cell cf (new.cell i) old
  { D with
    fb := set2 D.fb i d fb
    edge := cf.each (fun k => e2e_cell_link cf last_hop_index d i (new.cell i) old fb k (D.edge k))
      D.edge }

/-- The loop `while (fb->sow <= aru)` of some cell never ends. -/
def e2e_hangs (new old : E2eAck) : Prop :=
  ∃ i ∈ range' 1 MAX_NODES,
    (new.cell i).dest_epoch ≤ (old.cell i).dest_epoch ∧
      (new.cell i).src_epoch ≤ (old.cell i).src_epoch ∧
      (old.cell i).aru < (new.cell i).aru ∧ (new.cell i).aru = ULLONG_MAX

instance (new old : E2eAck) : Decidable (e2e_hangs new old) :=
  inferInstanceAs (Decidable (∃ i ∈ _, _))

/-- The part of `Reliable_Flood_Process_E2E` after the handshake: the cells, the
marks that the ack is to be forwarded, and the ack itself. -/
def store_e2e (cf : Conf) (last_hop_index : ℕ) (new : E2eAck) (D : Daemon) : Daemon :=
  let d := new.dest
  let D := (range' 1 MAX_NODES).foldl (process_cell cf last_hop_index new) D
  { D with
    edge := cf.each (fun k =>
      let ld := D.edge k
      if ld.e2e_unsent d = false ∧ k ≠ last_hop_index then
        ld.e2e_insert (ld.e2e_timeout d + cf.e2e_ack_timeout) d
      else ld) D.edge
    e2e := update D.e2e d new }

def reliable_flood_process_e2e (cf : Conf) (sec last_hop_index : ℕ) (new : E2eAck)
    (D : Daemon) : Daemon :=
  let d := new.dest
  if d < 1 ∨ MAX_NODES < d then D
  else if ¬ e2e_valid new (D.e2e d) then D
  else
    let mine := new.cell cf.my_id
    let D :=
      if ((D.e2e d).cell cf.my_id).dest_epoch < mine.dest_epoch then
        handshake_request cf sec d mine.dest_epoch D
      else D
    if D.handshake_complete d = false ∧ mine.src_epoch = D.flow_source_epoch d then
      if mine.aru ≠ 0 then D
      else
        let D := { D with handshake_complete := update D.handshake_complete d true }
        if e2e_hangs new (D.e2e d) then { D with halt := .hang }
        else store_e2e cf last_hop_index new D
    else if e2e_hangs new (D.e2e d) then { D with halt := .hang }
    else store_e2e cf last_hop_index new D

/-! ## `Reliable_Flood_Process_Data` -/

/-- What the checks of `Reliable_Flood_Process_Data` make of a message. -/
inductive Verdict
  /-- `NO_ROUTE` without an effect. -/
  | refused
  | fresh
  | restamped
  | duplicate
  /-- `Alarm(EXIT, …)`: the slot of a message inside the window is `NULL`. -/
  | missing
  deriving DecidableEq, Repr

/-- The checks of `Reliable_Flood_Process_Data`, in order. -/
def data_verdict (fb : FlowBuffer) (m : Msg) : Verdict :=
  if fb.src_epoch < m.src_epoch then .refused
  else if m.src_epoch < fb.src_epoch then .refused
  else if m.src_epoch = 0 then .refused
  else if m.seq_num < fb.sow then .refused
  else if fb.head_seq < m.seq_num then .refused
  else if m.seq_num ≠ fb.head_seq then
    match fb.msg (slot m.seq_num) with
    | none => .missing
    | some stored =>
      if multipath_is_superset stored.mask m.mask = false then
        if multipath_is_equal stored.mask m.mask then .duplicate else .refused
      else if int64u (fb.sow + MAX_MESS_PER_FLOW) ≤ m.seq_num then .refused
      else .restamped
  else if int64u (fb.sow + MAX_MESS_PER_FLOW) ≤ m.seq_num then .refused
  else .fresh

/-- A message received again: with `HBH_Opt` the last hop has it. The code that
would put the flow back into the queue is compiled out. -/
def FlowBuffer.duplicate (cf : Conf) (last_hop_index seq : ℕ) (fb : FlowBuffer) : FlowBuffer :=
  if cf.hbh_opt then fb.mark_sent last_hop_index (slot seq)
  else { fb with
    next_seq := update fb.next_seq last_hop_index
      (fb.skip_sent last_hop_index (fb.next_seq last_hop_index)) }

/-- The buffer after an accepted message. `head_seq + 1` stays in range, because
the message passed the check against `sow + MAX_MESS_PER_FLOW`. -/
def FlowBuffer.accept (cf : Conf) (last_hop_index : ℕ) (m : Msg) (restamped : Bool)
    (num_paths_snapshot : ℕ) (aru : ℕ → ℕ) (fb : FlowBuffer) : FlowBuffer :=
  let fb := if restamped then fb else { fb with head_seq := fb.head_seq + 1 }
  if m.dest = cf.my_id then
    if restamped then fb
    else { fb with
      sow := fb.sow + 1
      next_seq := cf.each (fun _ => fb.head_seq) fb.next_seq }
  else
    let fb := fb.store_data cf last_hop_index m restamped num_paths_snapshot
    if cf.hbh_advance ∧ restamped = false then fb.hbh_move_up cf (fun n => n) false aru
    else if restamped then fb.rewind_next cf m.seq_num
    else fb

/-- The last loop of `Reliable_Flood_Process_Data`, for neighbour `k`: either the
neighbour is known to have the message, or the flow is queued toward it. -/
def data_link (cf : Conf) (last_hop_index : ℕ) (m : Msg) (state_change : Bool) (fb : FlowBuffer)
    (k : ℕ) (ld : LinkData) : LinkData :=
  let ld :=
    if ¬ (cf.hbh_advance ∧ cf.hbh_opt = false) ∧
        (k = last_hop_index ∨ cf.neighbor_ids k = m.src) then
      { ld with
        flow_aru := set2 ld.flow_aru m.src m.dest (max (ld.flow_aru m.src m.dest) m.seq_num) }
    else if fb.next_seq k = m.seq_num ∧ multipath_neighbor_on_path cf m.mask k then
      ld.push_urgent m.src m.dest
    else ld
  if state_change then ld.note_state m.src m.dest else ld

/-- `Reliable_Flood_Process_Data` once the message passed the checks. -/
def accept_data (cf : Conf) (last_hop_index : ℕ) (m : Msg) (restamped : Bool) (D : Daemon) :
    Daemon :=
  let state_change := D.rf_state_change || !restamped
  let fb := (D.fb m.src m.dest).accept cf last_hop_index m restamped D.num_paths_snapshot
    (fun j => (D.edge j).flow_aru m.src m.dest)
  { D with
    rf_state_change := state_change
    fb := set2 D.fb m.src m.dest fb
    edge := cf.each (fun k => data_link cf last_hop_index m state_change fb k (D.edge k)) D.edge }

def reliable_flood_process_data (cf : Conf) (last_hop_index : ℕ) (m : Msg) (D : Daemon) :
    Daemon × Ret :=
  let D := { D with e2e_stop := D.e2e_stop || !cf.e2e_opt }
  let fb := D.fb m.src m.dest
  match data_verdict fb m with
  | .refused => (D, .no_route)
  | .missing => ({ D with halt := .exit }, .no_route)
  | .duplicate =>
    ({ D with fb := set2 D.fb m.src m.dest (fb.duplicate cf last_hop_index m.seq_num) }, .no_route)
  | .fresh => (accept_data cf last_hop_index m false D, .buff_ok)
  | .restamped => (accept_data cf last_hop_index m true D, .buff_ok)

/-! ## `Reliable_Flood_Process_Acks` -/

def ack_aru (cf : Conf) (last_hop_index : ℕ) (ack : HbhAck) (D : Daemon) : Daemon :=
  let s := ack.src
  let d := ack.dest
  -- the largest value would make `aru + 1` wrap around
  let aru := if ack.aru = ULLONG_MAX then ULLONG_MAX - 1 else ack.aru
  let D := D.on_edge last_hop_index (fun ld => { ld with flow_aru := set2 ld.flow_aru s d aru })
  let fb := D.fb s d
  let n := fb.next_seq last_hop_index
  let fb :=
    if cf.hbh_opt ∧ n ≤ aru then ack_loop last_hop_index aru (fb.head_seq - n) fb else fb
  if cf.hbh_advance then
    let arus := fun j => (D.edge j).flow_aru s d
    let progress : Bool := fb.sow ≤ hbh_min (fun n => n) cf fb arus
    { D with
      rf_state_change := D.rf_state_change || progress
      fb := set2 D.fb s d (fb.hbh_move_up cf (fun n => n) true arus)
      edge := cf.each (fun k => if progress then (D.edge k).note_state s d else D.edge k) D.edge }
  else { D with fb := set2 D.fb s d fb }

def process_ack (cf : Conf) (last_hop_index : ℕ) (ack : HbhAck) (D : Daemon) : Daemon :=
  let s := ack.src
  let d := ack.dest
  if (D.fb s d).src_epoch ≠ ack.src_epoch then D
  else
    let D := D.on_edge last_hop_index (fun ld =>
      { ld with flow_sow := set2 ld.flow_sow s d (max (ld.flow_sow s d) ack.sow) })
    let D :=
      if (D.edge last_hop_index).flow_aru s d < ack.aru then ack_aru cf last_hop_index ack D
      else D
    -- the flow may have become unblocked
    if (D.fb s d).next_seq last_hop_index <
          int64u ((D.edge last_hop_index).flow_sow s d + MAX_MESS_PER_FLOW) ∧
        (D.fb s d).has_next cf last_hop_index then
      D.on_edge last_hop_index (LinkData.push_norm s d)
    else D

/-- `Reliable_Flood_Process_Acks`. The first acknowledgement with an invalid node
ends the loop. -/
def reliable_flood_process_acks (cf : Conf) (last_hop_index : ℕ) :
    List HbhAck → Daemon → Daemon × Ret
  | [], D => (D, .buff_ok)
  | ack :: acks, D =>
    if ack.src < 1 ∨ MAX_NODES < ack.src then (D, .no_route)
    else if ack.dest < 1 ∨ MAX_NODES < ack.dest then (D, .no_route)
    else reliable_flood_process_acks cf last_hop_index acks (process_ack cf last_hop_index ack D)

/-! ## `Reliable_Flood_Disseminate` -/

/-- `Reliable_Flood_Disseminate` up to its sending loop, for a packet of the right
size that came over the link of a neighbour (or, with index `0`, from a session
of this daemon). `verified` is the result of `Reliable_Flood_Verify`, which
stand-alone acks do not go through. The sending loop only calls
`Reliable_Flood_Send_One` through `Request_Resources`; these calls are events of
their own. -/
def reliable_flood_disseminate (cf : Conf) (sec last_hop_index : ℕ) (verified : Bool)
    (pkt : Packet) (D : Daemon) : Daemon × Ret :=
  let D := { D with rf_state_change := false }
  match pkt.body with
  | .data m =>
    if verified = false then (D, .no_route)
    else
      let (D, ret) := reliable_flood_process_acks cf last_hop_index pkt.acks D
      if m.src < 1 ∨ MAX_NODES < m.src then (D, .no_route)
      else if m.dest < 1 ∨ MAX_NODES < m.dest then (D, .no_route)
      else
        let (D, data_ret) := reliable_flood_process_data cf last_hop_index m D
        (D, if data_ret = .no_route then .no_route else ret)
  | .e2e ack =>
    if verified = false then (D, .no_route)
    else
      let (D, _) := reliable_flood_process_acks cf last_hop_index pkt.acks D
      (reliable_flood_process_e2e cf sec last_hop_index ack D, .no_route)
  | .saa =>
    let (D, _) := reliable_flood_process_acks cf last_hop_index pkt.acks D
    (D, .no_route)
  | .status_change =>
    if verified = false then (D, .no_route)
    else
      let (D, _) := reliable_flood_process_acks cf last_hop_index pkt.acks D
      (D, .no_route)

/-! ## Messages of this daemon's own sessions -/

/-- `Reliable_Flood_Can_Flow_Send`, for a session that is not blocked. -/
def reliable_flood_can_flow_send (cf : Conf) (dst : ℕ) (D : Daemon) : Prop :=
  (1 ≤ dst ∧ dst ≤ MAX_NODES) ∧
    (D.fb cf.my_id dst).head_seq < int64u ((D.fb cf.my_id dst).sow + MAX_MESS_PER_FLOW) ∧
    D.flow_source_epoch dst = (D.fb cf.my_id dst).src_epoch

instance (cf : Conf) (dst : ℕ) (D : Daemon) : Decidable (reliable_flood_can_flow_send cf dst D) :=
  inferInstanceAs (Decidable (_ ∧ _))

/-- `Fill_Packet_Header_Reliable_Flood`: the header, with the mask `mask`. -/
def fill_packet_header_reliable_flood (cf : Conf) (dst num_paths mask : ℕ) (body : List UInt8)
    (D : Daemon) : Daemon × Msg :=
  ({ D with
      flow_seq_no := update D.flow_seq_no dst (int64u (D.flow_seq_no dst + 1))
      num_paths_snapshot := num_paths },
    { src := cf.my_id
      dest := dst
      src_epoch := D.flow_source_epoch dst
      seq_num := D.flow_seq_no dst
      mask := mask
      body := body })

/-- What a client's message is sent with: its `ttl`, which the client chooses, and the mask of
`MultiPath_Stamp_Bitmask`, which stamps every message for a destination in `1..MAX_NODES`. -/
structure Stamp where
  ttl : ℕ
  mask : ℕ

/-- `Session_Send_Message` with `IT_RELIABLE_ROUTING`. A message that cannot be signed, or that
`Deliver_and_Forward_Data` refuses for its `ttl`, is dropped after its sequence number was
taken. -/
def session_send_message (cf : Conf) (sec dst num_paths : ℕ) (stamp : Stamp) (sign_ok : Bool)
    (body : List UInt8) (D : Daemon) : Daemon :=
  if reliable_flood_can_flow_send cf dst D then
    let filled := fill_packet_header_reliable_flood cf dst num_paths stamp.mask body D
    if stamp.ttl = 0 ∨ (cf.crypto ∧ sign_ok = false) then filled.1
    else (reliable_flood_disseminate cf sec 0 true ⟨.data filled.2, []⟩ filled.1).1
  else D

/-! ## `Reliable_Flood_Gen_E2E` -/

/-- The aru this daemon publishes for source `i`, after one round of the loop. -/
def gen_cell (cf : Conf) (D : Daemon) (i : ℕ) : Cell :=
  let c := (D.e2e cf.my_id).cell i
  let fb := D.fb i cf.my_id
  if (1 ≤ i ∧ i ≤ MAX_NODES) ∧ c.src_epoch = fb.src_epoch ∧ c.aru < int64u_pred fb.head_seq then
    { c with aru := int64u_pred fb.head_seq, aru_lt := int64u_pred_lt _ }
  else c

/-- `progress`: some aru goes up. -/
def gen_progress (cf : Conf) (D : Daemon) : Prop :=
  ∃ i ∈ range' 1 MAX_NODES,
    ((D.e2e cf.my_id).cell i).src_epoch = (D.fb i cf.my_id).src_epoch ∧
      ((D.e2e cf.my_id).cell i).aru < int64u_pred (D.fb i cf.my_id).head_seq

instance (cf : Conf) (D : Daemon) : Decidable (gen_progress cf D) :=
  inferInstanceAs (Decidable (∃ i ∈ _, _))

/-- `Reliable_Flood_Gen_E2E` at time `now`; `send` is false for the call with mode
`-1` that only sets up the data structures. -/
def reliable_flood_gen_e2e (cf : Conf) (now : ℕ) (send : Bool) (D : Daemon) : Daemon :=
  if cf.e2e_opt = false ∧ D.e2e_stop then D
  else if D.initial_e2e = false ∧ ¬ gen_progress cf D then D
  else
    let e2e :=
      if D.initial_e2e then D.e2e
      else update D.e2e cf.my_id { D.e2e cf.my_id with cell := gen_cell cf D }
    let D := { D with e2e := e2e, initial_e2e := false }
    if send then
      { D with
        edge := cf.each (fun k =>
          let ld := D.edge k
          if ld.e2e_unsent cf.my_id then ld
          else { ld with
            e2e_unsent := update ld.e2e_unsent cf.my_id true
            e2e_skl := ld.e2e_skl.orderedInsert (fun a b => a.1 ≤ b.1) (now, cf.my_id) }) D.edge }
    else D

/-! ## `Reliable_Flood_Neighbor_Transfer` -/

/-- One flow: everything in the window is to be sent to neighbour `k` again. -/
def transfer_flow (cf : Conf) (k d : ℕ) (D : Daemon) (s : ℕ) : Daemon :=
  let D := { D with fb := set2 D.fb s d ((D.fb s d).unsend k) }
  if (D.fb s d).has_next cf k then D.on_edge k (LinkData.push_urgent s d) else D

def transfer_dest (cf : Conf) (k : ℕ) (D : Daemon) (d : ℕ) : Daemon :=
  let D :=
    if (D.edge k).e2e_unsent d = false ∧ d ≠ cf.neighbor_ids k ∧ (D.e2e d).dest = d then
      D.on_edge k (fun ld =>
        { ld.e2e_insert (ld.e2e_timeout d + cf.e2e_ack_timeout) d with
          flow_block := fun a s => if a = d ∧ 1 ≤ s ∧ s ≤ MAX_NODES then true else ld.flow_block a s })
    else D
  (range' 1 MAX_NODES).foldl (transfer_flow cf k d) D

/-- `Reliable_Flood_Neighbor_Transfer` toward neighbour `k`. -/
def reliable_flood_neighbor_transfer (cf : Conf) (k : ℕ) (D : Daemon) : Daemon :=
  (range' 1 MAX_NODES).foldl (transfer_dest cf k) D

/-! ## Sending to a neighbour -/

/-- What the link layer and the signature function do during one call of
`Reliable_Flood_Send_One`. -/
structure SendEnv where
  now : ℕ
  /-- `status_change_ready`: the call goes to `Send_Status_Change`. -/
  status_change : Bool
  /-- `Forward_Data` returned `BUFF_EMPTY` or `BUFF_OK`. -/
  forward_ok : Bool
  sign_ok : Bool
  /-- `Calculate_Packets_In_Message`. -/
  packets : ℕ
  max_acks : ℕ
  /-- `E_in_queue(Reliable_Flood_SAA_Event, …)`. -/
  saa_queued : Bool

/-- `Reliable_Flood_Add_Acks`: the acknowledgements that go onto the packet, and
the link data without them. -/
def reliable_flood_add_acks (fb : ℕ → ℕ → FlowBuffer) (max_acks : ℕ) (ld : LinkData) :
    LinkData × List HbhAck :=
  let taken := ld.hbh_unsent.take max_acks
  ({ ld with
      hbh_unsent := ld.hbh_unsent.drop max_acks
      unsent_state := fun s d => if (s, d) ∈ taken then false else ld.unsent_state s d
      unsent_state_count := ld.unsent_state_count - taken.length },
    taken.map (fun f =>
      { src := f.1
        dest := f.2
        src_epoch := (fb f.1 f.2).src_epoch
        aru := int64u_pred (fb f.1 f.2).head_seq
        sow := (fb f.1 f.2).sow
        aru_lt := int64u_pred_lt _ }))

/-- The flow may send its next message to neighbour `k`. -/
def flow_ready (cf : Conf) (D : Daemon) (k : ℕ) (ld : LinkData) (s d : ℕ) : Prop :=
  (D.fb s d).next_seq k < int64u (ld.flow_sow s d + MAX_MESS_PER_FLOW) ∧
    (D.fb s d).has_next cf k ∧ ld.flow_block d s = false ∧
    (s = cf.my_id → D.handshake_complete d = true)

instance (cf : Conf) (D : Daemon) (k : ℕ) (ld : LinkData) (s d : ℕ) :
    Decidable (flow_ready cf D k ld s d) := inferInstanceAs (Decidable (_ ∧ _ ∧ _ ∧ _))

/-- `temp_fq->penalty--` on an `int16u`. -/
def FlowQueue.pay (e : FlowQueue) : FlowQueue :=
  { e with penalty := (e.penalty + (2 ^ 16 - 1)) % 2 ^ 16 }

/-- The rounds of the loop of `Reliable_Flood_Send_Data` before a message is
sent. The entry to serve, if there is one, is left at the front of its queue. -/
def scan_queues (cf : Conf) (D : Daemon) (k : ℕ) : ℕ → LinkData → LinkData × Option FlowQueue
  | 0, ld => (ld, none)
  | fuel + 1, ld =>
    match ld.urgent, ld.norm with
    | e :: urgent, _ =>
      if 0 < e.pay.penalty ∨ ¬ flow_ready cf D k ld e.src_id e.dest_id then
        scan_queues cf D k fuel { ld with urgent := urgent, norm := ld.norm ++ [e.pay] }
      else ({ ld with urgent := e.pay :: urgent }, some e.pay)
    | [], e :: norm =>
      if 0 < e.pay.penalty then
        scan_queues cf D k fuel { ld with norm := norm ++ [e.pay] }
      else if ¬ flow_ready cf D k ld e.src_id e.dest_id then
        scan_queues cf D k fuel { ld with
          norm := norm
          in_flow_queue := set2 ld.in_flow_queue e.src_id e.dest_id false }
      else ({ ld with norm := e.pay :: norm }, some e.pay)
    | [], [] => (ld, none)

/-- Enough rounds: an urgent entry moves to the normal queue, and an entry there
is served or dropped once its 16-bit penalty reached `0`. -/
def scan_fuel (ld : LinkData) : ℕ := (2 ^ 16 + 1) * (ld.urgent.length + ld.norm.length) + 1

/-- The entry at the front of the queues, after a failed `Forward_Data`. -/
def LinkData.refund (ld : LinkData) : LinkData :=
  match ld.urgent, ld.norm with
  | e :: urgent, _ => { ld with urgent := { e with penalty := (e.penalty + 1) % 2 ^ 16 } :: urgent }
  | [], e :: norm => { ld with norm := { e with penalty := (e.penalty + 1) % 2 ^ 16 } :: norm }
  | [], [] => ld

def LinkData.rotate (packets : ℕ) (ld : LinkData) : LinkData :=
  match ld.urgent, ld.norm with
  | e :: urgent, _ =>
    { ld with urgent := urgent, norm := ld.norm ++ [{ e with penalty := packets % 2 ^ 16 }] }
  | [], e :: norm => { ld with norm := norm ++ [{ e with penalty := packets % 2 ^ 16 }] }
  | [], [] => ld

/-- The end of `Reliable_Flood_Send_Data`: without `HBH_Opt`, a message that every
neighbour got may leave the window. The variable `min` is an `int` here; with
`min == -1` the loop would not end. -/
def send_move_up (cf : Conf) (s d : ℕ) (D : Daemon) : Daemon :=
  let fb := D.fb s d
  let arus := fun j => (D.edge j).flow_aru s d
  let min := hbh_min int64u_of_int cf fb arus
  if min = ULLONG_MAX then { D with halt := .hang }
  else
    let progress : Bool := fb.sow ≤ min
    { D with
      fb := set2 D.fb s d (fb.hbh_move_up cf int64u_of_int true arus)
      edge := cf.each (fun k => if progress then (D.edge k).note_state s d else D.edge k) D.edge }

/-- `Reliable_Flood_Send_Data`, with the packet it sent. -/
def reliable_flood_send_data (cf : Conf) (k : ℕ) (env : SendEnv) (D : Daemon) :
    Daemon × Option Packet :=
  let scan := scan_queues cf D k (scan_fuel (D.edge k)) (D.edge k)
  let D := D.on_edge k (fun _ => scan.1)
  match scan.2 with
  | none => (D, none)
  | some e =>
    let fb := D.fb e.src_id e.dest_id
    let idx := slot (fb.next_seq k)
    match fb.msg idx with
    | none => ({ D with halt := .exit }, none)
    | some m =>
      let added := reliable_flood_add_acks D.fb env.max_acks (D.edge k)
      if env.forward_ok then
        let D := D.on_edge k (fun _ => added.1.rotate env.packets)
        let D := { D with fb := set2 D.fb e.src_id e.dest_id (fb.mark_sent k idx) }
        let D :=
          if cf.hbh_advance ∧ cf.hbh_opt = false then send_move_up cf e.src_id e.dest_id D else D
        (D, some ⟨.data m, added.2⟩)
      else (D.on_edge k (fun _ => added.1.refund), none)

/-- After the acknowledgement of `d` went out: unblock flow `(i, d)`. -/
def unblock_flow (cf : Conf) (k d : ℕ) (fb : ℕ → ℕ → FlowBuffer) (ld : LinkData) (i : ℕ) :
    LinkData :=
  let ld := { ld with flow_block := set2 ld.flow_block d i false }
  if (fb i d).has_next cf k then ld.push_norm i d else ld

/-- `Reliable_Flood_Send_E2E`, with the packet it sent. -/
def reliable_flood_send_e2e (cf : Conf) (k : ℕ) (env : SendEnv) (D : Daemon) :
    Daemon × Option Packet :=
  match (D.edge k).e2e_skl with
  | [] => (D, none)
  | (_, d) :: skl =>
    let added := reliable_flood_add_acks D.fb env.max_acks (D.edge k)
    let ld := { added.1 with e2e_skl := skl, e2e_ready := false }
    if env.forward_ok ∧ ¬ (d = cf.my_id ∧ cf.crypto ∧ env.sign_ok = false) then
      let ld := { ld with
        e2e_unsent := update ld.e2e_unsent d false
        e2e_timeout := update ld.e2e_timeout d env.now }
      (D.on_edge k (fun _ => (range' 1 MAX_NODES).foldl (unblock_flow cf k d D.fb) ld),
        some ⟨.e2e (D.e2e d), added.2⟩)
    else (D.on_edge k (fun _ => ld.e2e_insert (env.now + cf.e2e_ack_timeout) d), none)

/-- `Reliable_Flood_Send_SAA`, with the packet it sent. -/
def reliable_flood_send_saa (k : ℕ) (env : SendEnv) (D : Daemon) : Daemon × Option Packet :=
  let added := reliable_flood_add_acks D.fb env.max_acks (D.edge k)
  (D.on_edge k (fun _ => added.1), if env.forward_ok then some ⟨.saa, added.2⟩ else none)

/-- `Reliable_Flood_Send_One`, with the packet it sent. Of `Send_Status_Change`
only the piggy-backed acknowledgements concern this file. -/
def reliable_flood_send_one (cf : Conf) (k : ℕ) (env : SendEnv) (D : Daemon) :
    Daemon × Option Packet :=
  if D.halt ≠ .running then (D, none)
  else if env.status_change then
    let added := reliable_flood_add_acks D.fb env.max_acks (D.edge k)
    (D.on_edge k (fun _ => added.1),
      if env.forward_ok then some ⟨.status_change, added.2⟩ else none)
  else if (D.edge k).e2e_ready then reliable_flood_send_e2e cf k env D
  else
    let sent := reliable_flood_send_data cf k env D
    if sent.2.isSome ∨ sent.1.halt ≠ .running then sent
    else if 0 < (sent.1.edge k).unsent_state_count ∧ env.saa_queued = false then
      reliable_flood_send_saa k env sent.1
    else sent

/-- `Reliable_Flood_E2E_Event` up to its call of `Request_Resources`. -/
def reliable_flood_e2e_event (k : ℕ) (D : Daemon) : Daemon :=
  D.on_edge k (fun ld => if ld.e2e_skl = [] then ld else { ld with e2e_ready := true })

/-! ## `Reliable_Flood_Restamp` -/

/-- What `Reliable_Flood_Restamp` finds in its surroundings. -/
structure RestampEnv where
  /-- `MultiPath_Stamp_Bitmask` for a destination. -/
  stamp : ℕ → ℕ → Option ℕ
  sign_ok : ℕ → ℕ → Bool
  /-- The calls of `Reliable_Flood_Send_One` that `Request_Resources` makes when
  the flow to a destination is queued toward a neighbour. -/
  resources : ℕ → ℕ → List SendEnv

/-- One neighbour, after a message of the flow to `i` was restamped. The node
whose resources are requested is looked up by the index `i` of the destination,
not by the index `k` of the neighbour. -/
def restamp_ngbr (cf : Conf) (env : RestampEnv) (i : ℕ) (D : Daemon) (k : ℕ) : Daemon :=
  if D.halt ≠ .running then D
  else
    let fb := D.fb cf.my_id i
    let resend_start := fb.skip_sent k fb.sow
    if fb.next_seq k < resend_start then { D with halt := .exit }
    else
      let fb := { fb with next_seq := update fb.next_seq k resend_start }
      let queue := (D.edge k).in_flow_queue cf.my_id i = false ∧ fb.has_next cf k
      let D := { D with fb := set2 D.fb cf.my_id i fb }
      if queue then
        let D := D.on_edge k (LinkData.push_urgent cf.my_id i)
        if cf.nbr i then
          (env.resources i k).foldl (fun D e => (reliable_flood_send_one cf i e D).1) D
        else D
      else D

/-- One destination of `Reliable_Flood_Restamp`. -/
def restamp_dest (cf : Conf) (env : RestampEnv) (D : Daemon) (i : ℕ) : Daemon :=
  let fb := D.fb cf.my_id i
  if D.halt ≠ .running ∨ i = cf.my_id ∨ fb.sow = fb.head_seq then D
  else
    let out := restamp_loop cf ⟨env.stamp i, env.sign_ok i⟩ (fb.head_seq - fb.sow) fb.sow fb false
    let D := { D with fb := set2 D.fb cf.my_id i out.1 }
    if out.2.2 then D
    else if out.2.1 then (range' 1 cf.degree).foldl (restamp_ngbr cf env i) D
    else D

/-- `Reliable_Flood_Restamp`: a round for every destination. Each round is an event of
its own below, so that a run may also stop, or do something else, between two of
them. -/
def reliable_flood_restamp (cf : Conf) (env : RestampEnv) (D : Daemon) : Daemon :=
  (range' 1 MAX_NODES).foldl (restamp_dest cf env) D

/-! ## Events and runs -/

inductive Event
  | packet (sec last_hop_index : ℕ) (verified : Bool) (pkt : Packet)
  | client (sec dst num_paths : ℕ) (stamp : Stamp) (sign_ok : Bool) (body : List UInt8)
  | gen_e2e (now : ℕ) (send : Bool)
  | neighbor_transfer (k : ℕ)
  | e2e_event (k : ℕ)
  | send_one (k : ℕ) (env : SendEnv)
  /-- One round of `Reliable_Flood_Restamp`. -/
  | restamp (env : RestampEnv) (i : ℕ)

def Event.Internal : Event → Prop
  | packet .. | client .. => False
  | _ => True

def Event.Ok (cf : Conf) : Event → Prop
  | packet _ k _ _ => cf.nbr k
  | neighbor_transfer k => cf.nbr k
  | e2e_event k => cf.nbr k
  | send_one k _ => cf.nbr k
  | _ => True

def handle (cf : Conf) (D : Daemon) : Event → Daemon
  | .packet sec k verified pkt => (reliable_flood_disseminate cf sec k verified pkt D).1
  | .client sec dst num_paths stamp sign_ok body =>
    session_send_message cf sec dst num_paths stamp sign_ok body D
  | .gen_e2e now send => reliable_flood_gen_e2e cf now send D
  | .neighbor_transfer k => reliable_flood_neighbor_transfer cf k D
  | .e2e_event k => reliable_flood_e2e_event k D
  | .send_one k env => (reliable_flood_send_one cf k env D).1
  | .restamp env i => restamp_dest cf env D i

def Step (cf : Conf) (D : Daemon) (e : Event) (D' : Daemon) : Prop :=
  D.halt = .running ∧ e.Ok cf ∧ D' = handle cf D e

end Spines.RelFlood
