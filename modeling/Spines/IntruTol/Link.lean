/-
The intrusion-tolerant link (`daemon/intrusion_tol_udp.c`, `daemon/link.h`,
`Create_Link` of `daemon/link.c`).

One end of a link is a `LinkEnd`: the fields of `Int_Tol_Data` that the window
protocol reads and writes, what the end has handed to the network, and its
history. A handler takes the `Env` in which it runs. What is left open:

* time, `rand()`, the result of `Link_Send`, the congestion window `cwnd` (a
  float, always used through `(int64u) cwnd`) and the shared burst counter;
* what the dissemination layer hands down when it is called back
  (`Assign_Resources_IT`, `Deliver_and_Forward_Data`);
* timers: a timeout function may run at any moment, so `E_queue` is not modelled.

Sequence numbers are 64 bits wide in the source and unbounded here: they count
packets from `1` and are reset by every incarnation change, so the difference
needs `2 ^ 64` packets of one incarnation. `Alarm(EXIT, …)` ends the process;
here it sets `exited`, and no event is enabled afterwards.
-/
import Spines.IntruTol.Fragments
import Spines.Lib.Ring
import Spines.Lib.Run

set_option autoImplicit false

namespace Spines.IntruTol

open Spines.Lib Function

/-! ## Constants and configuration -/

def MAX_SEND_ON_LINK : ℕ := 500

def LINK_START_SEQ : ℕ := 1

def MAX_PKTS_PER_MESSAGE : ℕ := 45

def MAX_MESSAGE_SIZE : ℕ := MAX_PACKET_SIZE * MAX_PKTS_PER_MESSAGE

/-- The entries of `Conf_IT_Link` (and of the cryptographic set-up) that the
link reads. -/
structure Conf where
  cipher_blk_len : ℕ
  hmac_key_len : ℕ
  ordered_delivery : Bool
  reintroduce_messages : Bool
  msg_per_saa : ℕ
  incarnation_timeout : ℕ

/-- `Link_Header_Size(INTRUSION_TOL_LINK)`: the packet header, the link tail,
room for one NACK and the cryptographic overhead. -/
def Conf.link_header_size (cf : Conf) : ℕ :=
  SIZEOF_PACKET_HEADER + SIZEOF_PKT_TAIL + 8 + 2 * cf.cipher_blk_len + cf.hmac_key_len

structure Env where
  now : ℕ
  /-- `network_flag == 1`. -/
  network_flag : Bool
  link_up : Bool
  /-- `(int64u) itdata->cwnd` where the handler uses it. -/
  cwnd : ℕ
  nonce : ℕ → BitVec 64
  /-- Whether the `n`-th packet of this end's life got out of `IT_Link_Send`. -/
  send_ok : ℕ → Bool
  initial_nack_timeout : ℕ
  nack_timeout : ℕ
  /-- `Send_Batch_Size - Burst_Count`. -/
  budget : ℕ
  /-- `E_in_queue(Handle_IT_Retransm, …)`. -/
  retransm_queued : Bool
  /-- The messages each round of `Assign_Resources_IT`'s callback forwards. -/
  assigned : List (List SysScatter)
  /-- The messages forwarded on this link while the message that packet
  `link_seq` completes is being delivered. -/
  deliver : ℕ → List SysScatter
  garbage : ℕ

/-! ## State -/

/-- `EMPTY_CELL`, `RECVD_CELL`, `NACK_CELL`. -/
inductive CellFlag
  | empty
  | recvd
  | nack
  deriving DecidableEq, Repr

/-- `IT_Buffer_Cell`. `pkt` holds the elements after the packet header; it is
`none` for a `NULL` pointer and after `Cleanup_Scatter`. -/
structure ItBufferCell where
  pkt : Option (List Bytes)
  data_len : ℕ
  timestamp : ℕ
  resent : Bool
  nacked : Bool

/-- `IT_Recv_Cell`, with `pkt_len` the length of `pkt`. -/
structure ItRecvCell where
  flags : CellFlag
  nack_expire : ℕ
  pkt : Option Bytes

/-- The outbound data structures of `Int_Tol_Data`. -/
structure Outbound where
  outgoing : ℕ → ItBufferCell
  out_nonce : ℕ → BitVec 64
  out_nonce_digest : ℕ → BitVec 64
  out_head_seq : ℕ
  out_tail_seq : ℕ
  tcp_head_seq : ℕ
  out_message : Option SysScatter
  out_frag_idx : ℕ
  out_frag_total : ℕ

/-- The inbound data structures of `Int_Tol_Data`; `in_message`, `in_frag_idx`
and `in_frag_total` are the working message. -/
structure Inbound where
  incoming : ℕ → ItRecvCell
  in_nonce : ℕ → BitVec 64
  aru_nonce_digest : BitVec 64
  in_head_seq : ℕ
  in_tail_seq : ℕ
  incoming_msg_count : ℕ
  in_message : WorkingMsg

/-- `intru_tol_pkt_tail`. -/
structure PktTail where
  link_seq : ℕ
  seq_nonce : BitVec 64
  aru : ℕ
  aru_nonce : BitVec 64
  incarnation : ℕ
  aru_incarnation : ℕ
  deriving DecidableEq, Repr

/-- A packet of type `INTRU_TOL_DATA_TYPE` or `INTRU_TOL_ACK_TYPE`. `tail` is
the tail at `buff + data_len`, `front` the one read at `buff` itself. -/
structure ItPacket where
  data : Bytes
  tail : PktTail
  front : PktTail
  ack_len : ℕ
  nacks : List ℕ
  deriving DecidableEq, Repr

/-- What the link needs of an `intru_tol_ping` or of a Diffie-Hellman packet:
the two incarnations it carries. -/
structure ItPing where
  incarnation : ℕ
  aru_incarnation : ℕ
  deriving DecidableEq, Repr

structure LinkEntry where
  seq : ℕ
  data : Bytes
  nonce : BitVec 64
  deriving DecidableEq, Repr

/-- One end of a link. The fields after `attempts` are history: no function
reads them. -/
structure LinkEnd where
  outb : Outbound
  inb : Inbound
  my_incarnation : ℕ
  ngbr_incarnation : ℕ
  incarnation_response : ℕ
  exited : Bool
  /-- Calls of `IT_Link_Send` so far. -/
  attempts : ℕ
  sent : List ItPacket
  pings : List ItPing
  /-- Packets put into the outgoing window since the last incarnation change. -/
  packed_now : List LinkEntry
  /-- Packets the in-order loop consumed since the last incarnation change. -/
  consumed_now : List LinkEntry
  /-- Sequence numbers stored into the incoming window since then. -/
  stored_now : List ℕ
  /-- Packets put into the outgoing window, by `(ngbr_incarnation, my_incarnation)`. -/
  packed : ℕ → ℕ → List LinkEntry
  /-- Packets consumed, by `(ngbr_incarnation, my_incarnation)`. -/
  consumed : ℕ → ℕ → List LinkEntry
  /-- The in-order loop is handing the packet before `in_tail_seq` up. -/
  draining : Bool
  delivered : List (List Bytes)

/-- Append `x` to the history of the pair `(a, b)`. -/
def log_at (h : ℕ → ℕ → List LinkEntry) (a b : ℕ) (x : List LinkEntry) : ℕ → ℕ → List LinkEntry :=
  fun a' b' => if a' = a ∧ b' = b then h a b ++ x else h a' b'

/-! ## Sending -/

/-- The loop of `Add_IT_Nacks`: `cnt` numbers from `i` on. -/
def add_it_nacks_loop (avail now nack_timeout : ℕ) :
    ℕ → ℕ → (ℕ → ItRecvCell) → List ℕ → (ℕ → ItRecvCell) × List ℕ
  | 0, _, incoming, nacks => (incoming, nacks)
  | cnt + 1, i, incoming, nacks =>
    let c := incoming (i % MAX_SEND_ON_LINK)
    if avail < SIZEOF_PKT_TAIL + 8 * nacks.length + 8 then (incoming, nacks)
    else if c.flags = .nack ∧ c.nack_expire ≤ now then
      add_it_nacks_loop avail now nack_timeout cnt (i + 1)
        (update incoming (i % MAX_SEND_ON_LINK)
          { c with nack_expire := now + nack_timeout })
        (nacks ++ [i])
    else add_it_nacks_loop avail now nack_timeout cnt (i + 1) incoming nacks

/-- `total_size_avail` of `Add_IT_Nacks`. -/
def nack_space (cf : Conf) (buff_len : ℕ) : ℕ :=
  SIZEOF_PACKET_BODY - buff_len - 2 * cf.cipher_blk_len - cf.hmac_key_len

/-- `Add_IT_Nacks`: the incoming cells with their new expiry times and the
sequence numbers listed. -/
def add_it_nacks (cf : Conf) (env : Env) (inb : Inbound) (buff_len : ℕ) :
    (ℕ → ItRecvCell) × List ℕ :=
  add_it_nacks_loop (nack_space cf buff_len) env.now env.nack_timeout
    (inb.in_head_seq - inb.in_tail_seq) inb.in_tail_seq inb.incoming []

def LinkEnd.tail (e : LinkEnd) (link_seq : ℕ) (seq_nonce : BitVec 64) : PktTail where
  link_seq := link_seq
  seq_nonce := seq_nonce
  aru := e.inb.in_tail_seq - 1
  aru_nonce := e.inb.aru_nonce_digest
  incarnation := e.my_incarnation
  aru_incarnation := e.ngbr_incarnation

/-- `Add_IT_Nacks` and `IT_Link_Send`, common to data packets and stand-alone
acks: whether the packet got out, and the end afterwards. -/
def it_link_send (cf : Conf) (env : Env) (data : Bytes) (data_len : ℕ) (tail : PktTail)
    (e : LinkEnd) : Bool × LinkEnd :=
  let r := add_it_nacks cf env e.inb data_len
  let pkt : ItPacket := ⟨data, tail, tail, SIZEOF_PKT_TAIL + 8 * r.2.length, r.2⟩
  let ok := env.send_ok e.attempts
  (ok,
    { e with
      inb.incoming := r.1
      -- "No space for any IT Nacks on this packet -> Bad packing"
      exited := e.exited || decide (nack_space cf data_len < SIZEOF_PKT_TAIL + 8)
      attempts := e.attempts + 1
      sent := if ok then e.sent ++ [pkt] else e.sent })

/-- `Send_IT_Data_Msg`: `true` for `BUFF_EMPTY`, `false` for `BUFF_DROP`. An
invalid `seq` is only reported, the packet in the cell is sent regardless. -/
def send_it_data_msg (cf : Conf) (env : Env) (seq : ℕ) (e : LinkEnd) : Bool × LinkEnd :=
  if env.network_flag = false ∨ env.link_up = false then (false, e)
  else
    let index := seq % MAX_SEND_ON_LINK
    match (e.outb.outgoing index).pkt with
    | none => (false, { e with exited := true })
    | some elems =>
      let r := it_link_send cf env elems.flatten (e.outb.outgoing index).data_len
        (e.tail seq (e.outb.out_nonce index)) e
      -- the acks were piggy-backed if any NACK was added
      if r.1 = true ∧ (add_it_nacks cf env e.inb (e.outb.outgoing index).data_len).2 ≠ [] then
        (true, { r.2 with inb.incoming_msg_count := 0 })
      else r

def send_it_ack (cf : Conf) (env : Env) (e : LinkEnd) : Bool × LinkEnd :=
  if env.network_flag = false ∨ env.link_up = false then (false, e)
  else it_link_send cf env [] 0 (e.tail 0 0) e

/-- `Send_IT_Ping` and the sending half of `Key_Exchange_IT`. -/
def send_it_ping (e : LinkEnd) : LinkEnd :=
  { e with pings := e.pings ++ [⟨e.my_incarnation, e.ngbr_incarnation⟩] }

/-! ## Filling the outgoing window -/

/-- One iteration of the outer loop of `Pack_Fragments_Into_Packets_IT`, with
`m` the message in `out_message`. -/
def pack_one (cf : Conf) (env : Env) (m : SysScatter) (e : LinkEnd) : LinkEnd :=
  let o := e.outb
  let st := fill_packet cf.link_header_size m o.out_frag_idx o.out_frag_total
  let index := o.out_head_seq % MAX_SEND_ON_LINK
  let nonce := env.nonce o.out_head_seq
  let entry : LinkEntry := ⟨o.out_head_seq, st.elements.flatten, nonce⟩
  { e with
    outb.out_frag_idx := st.out_frag_idx
    outb.outgoing := update o.outgoing index
      { o.outgoing index with
        pkt := some st.elements, data_len := st.data_len, resent := false, nacked := false }
    outb.out_nonce := update o.out_nonce index nonce
    outb.out_nonce_digest := update o.out_nonce_digest index
      (nonce ^^^ o.out_nonce_digest ((o.out_head_seq - 1) % MAX_SEND_ON_LINK))
    outb.out_head_seq := o.out_head_seq + 1
    outb.out_message := if o.out_frag_total < st.out_frag_idx then none else some m
    packed_now := e.packed_now ++ [entry]
    packed := log_at e.packed e.ngbr_incarnation e.my_incarnation [entry] }

/-- The outer loop. Every iteration moves `out_head_seq`, so `MAX_SEND_ON_LINK`
iterations always suffice. -/
def pack_loop (cf : Conf) (env : Env) : ℕ → LinkEnd → LinkEnd
  | 0, e => e
  | fuel + 1, e =>
    match e.outb.out_message with
    | none => e
    | some m =>
      if e.outb.out_head_seq - e.outb.out_tail_seq < MAX_SEND_ON_LINK then
        pack_loop cf env fuel (pack_one cf env m e)
      else e

/-- `Pack_Fragments_Into_Packets_IT`: `false` for `BUFF_DROP`. -/
def pack_fragments_into_packets_it (cf : Conf) (env : Env) (e : LinkEnd) : Bool × LinkEnd :=
  if env.link_up = false then (false, e) else (true, pack_loop cf env MAX_SEND_ON_LINK e)

/-- The call of `Pack_Fragments_Into_Packets_IT` in `Process_IT_Ack` and in
`Incarnation_Change`, with the clean-up after a failure. -/
def pack_or_drop (cf : Conf) (env : Env) (e : LinkEnd) : LinkEnd :=
  let r := pack_fragments_into_packets_it cf env e
  if r.1 = true then r.2
  else
    { r.2 with outb.out_message := none, outb.out_frag_idx := 0, outb.out_frag_total := 0 }

/-- The loop that sends the packets the TCP window now allows, `cnt` of them
from `tcp_head_seq` on. In `Forward_Intru_Tol_Data` it stops at the first
`BUFF_DROP` (`stop`), in `Process_IT_Ack` it does not. -/
def send_new (cf : Conf) (env : Env) (stop : Bool) : ℕ → LinkEnd → LinkEnd
  | 0, e => e
  | cnt + 1, e =>
    let i := e.outb.tcp_head_seq
    let index := i % MAX_SEND_ON_LINK
    let e1 : LinkEnd :=
      { e with
        outb.outgoing := update e.outb.outgoing index
          { e.outb.outgoing index with timestamp := env.now + env.initial_nack_timeout }
        outb.tcp_head_seq := i + 1 }
    let r := send_it_data_msg cf env i e1
    if stop = true ∧ r.1 = false then r.2 else send_new cf env stop cnt r.2

/-- `MIN(out_head_seq, out_tail_seq + (int64u)cwnd)` minus `tcp_head_seq`. -/
def usable_window (env : Env) (o : Outbound) : ℕ :=
  min o.out_head_seq (o.out_tail_seq + env.cwnd) - o.tcp_head_seq

def full_link_it (env : Env) (e : LinkEnd) : Bool :=
  !env.link_up || !decide (e.outb.out_head_seq - e.outb.out_tail_seq < MAX_SEND_ON_LINK)

/-- The size check of `Forward_Intru_Tol_Data`; `msg_size` is an `int16u`. -/
def msg_too_big (cf : Conf) (m : SysScatter) : Bool :=
  let msg_size := (m.body.map List.length).sum % 65536
  decide (MAX_MESSAGE_SIZE
    < msg_size + MAX_PKTS_PER_MESSAGE * (cf.link_header_size + SIZEOF_FRAGMENT_HEADER))

/-- `Forward_Intru_Tol_Data`: `false` for `BUFF_DROP`. A full link only sets
`ret = BUFF_FULL`, which does not end the call: the message becomes
`out_message` and waits for room. -/
def forward_intru_tol_data (cf : Conf) (env : Env) (m : SysScatter) (e : LinkEnd) :
    Bool × LinkEnd :=
  if env.link_up = false ∨ e.outb.out_message.isSome = true ∨ msg_too_big cf m = true
      ∨ m.hdr.length ≠ SIZEOF_PACKET_HEADER then (false, e)
  else
    let e1 : LinkEnd :=
      { e with
        outb.out_message := some m
        outb.out_frag_idx := 1
        outb.out_frag_total := (m.num_elements - 1) % 256 }
    let r := pack_fragments_into_packets_it cf env e1
    if r.1 = false then (false, { r.2 with outb.out_message := none })
    else (true, send_new cf env true (usable_window env r.2.outb) r.2)

def forward_all (cf : Conf) (env : Env) : List SysScatter → LinkEnd → LinkEnd
  | [], e => e
  | m :: ms, e => forward_all cf env ms (forward_intru_tol_data cf env m e).2

/-- `Assign_Resources_IT`: rounds of the dissemination layer's callback for as
long as there is room. -/
def assign_resources_it (cf : Conf) (env : Env) : List (List SysScatter) → LinkEnd → LinkEnd
  | [], e => e
  | ms :: rest, e =>
    if full_link_it env e = true then e
    else assign_resources_it cf env rest (forward_all cf env ms e)

/-! ## Timeouts -/

/-- The loop of `Handle_IT_Retransm`: `cnt` numbers from `i` on, at most
`budget` packets. -/
def retransm_loop (cf : Conf) (env : Env) : ℕ → ℕ → ℕ → LinkEnd → LinkEnd
  | 0, _, _, e => e
  | _, _, 0, e => e
  | cnt + 1, i, budget + 1, e =>
    let index := i % MAX_SEND_ON_LINK
    let c := e.outb.outgoing index
    if c.nacked = true ∧ c.timestamp ≤ env.now then
      let e1 : LinkEnd :=
        { e with
          outb.outgoing := update e.outb.outgoing index
            { c with resent := true, nacked := false, timestamp := env.now + env.nack_timeout } }
      retransm_loop cf env cnt (i + 1) budget (send_it_data_msg cf env i e1).2
    else retransm_loop cf env cnt (i + 1) (budget + 1) e

def handle_it_retransm (cf : Conf) (env : Env) (e : LinkEnd) : LinkEnd :=
  retransm_loop cf env (e.outb.tcp_head_seq - e.outb.out_tail_seq) e.outb.out_tail_seq
    env.budget e

/-- `Reliable_IT_Timeout`: resend the last packet sent. -/
def reliable_it_timeout (cf : Conf) (env : Env) (e : LinkEnd) : LinkEnd :=
  if e.outb.out_tail_seq < e.outb.tcp_head_seq then
    let index := (e.outb.tcp_head_seq - 1) % MAX_SEND_ON_LINK
    let e1 : LinkEnd :=
      { e with
        outb.outgoing := update e.outb.outgoing index
          { e.outb.outgoing index with
            resent := true, timestamp := env.now + env.nack_timeout } }
    (send_it_data_msg cf env (e.outb.tcp_head_seq - 1) e1).2
  else e

def ack_it_timeout (cf : Conf) (env : Env) (e : LinkEnd) : LinkEnd :=
  if e.inb.incoming_msg_count = 0 then { e with inb.incoming_msg_count := cf.msg_per_saa - 1 }
  else { (send_it_ack cf env e).2 with inb.incoming_msg_count := 0 }

/-! ## `Process_IT_Ack` -/

/-- `Cleanup_Scatter` over `cnt` cells of the outgoing window from `i` on. -/
def cleanup_loop : ℕ → ℕ → (ℕ → ItBufferCell) → ℕ → ItBufferCell
  | 0, _, outgoing => outgoing
  | cnt + 1, i, outgoing =>
    cleanup_loop cnt (i + 1) (update outgoing (i % MAX_SEND_ON_LINK)
      { outgoing (i % MAX_SEND_ON_LINK) with pkt := none })

/-- Drop the packets up to `aru` and move the tail behind them. -/
def release (aru : ℕ) (e : LinkEnd) : LinkEnd :=
  { e with
    outb.outgoing := cleanup_loop (aru + 1 - e.outb.out_tail_seq) e.outb.out_tail_seq e.outb.outgoing
    outb.out_tail_seq := aru + 1 }

/-- "(1) CHECK ADVERTISED ARU"; `none` for the return with `1`. -/
def check_advertised_aru (cf : Conf) (env : Env) (p : ItPacket) (e : LinkEnd) : Option LinkEnd :=
  if e.outb.out_tail_seq ≤ p.tail.aru ∧ p.tail.aru < e.outb.tcp_head_seq then
    if p.tail.aru_nonce ≠ e.outb.out_nonce_digest (p.tail.aru % MAX_SEND_ON_LINK) then none
    else
      let e1 := release p.tail.aru e
      let e2 := send_new cf env false (usable_window env e1.outb) e1
      some (assign_resources_it cf env env.assigned (pack_or_drop cf env e2))
  else some e

def mark_nacked (e : LinkEnd) (nack_seq : ℕ) : LinkEnd :=
  if e.outb.out_tail_seq ≤ nack_seq ∧ nack_seq < e.outb.tcp_head_seq then
    { e with
      outb.outgoing := update e.outb.outgoing (nack_seq % MAX_SEND_ON_LINK)
        { e.outb.outgoing (nack_seq % MAX_SEND_ON_LINK) with nacked := true } }
  else e

/-- "(2) CHECK NACK REQUESTS"; `none` for the return with `1`. -/
def check_nack_requests (cf : Conf) (env : Env) (p : ItPacket) (e : LinkEnd) : Option LinkEnd :=
  if SIZEOF_PKT_TAIL < p.ack_len then
    if SIZEOF_PACKET_BODY < p.ack_len - SIZEOF_PKT_TAIL then none
    else
      let e1 := (p.nacks.take ((p.ack_len - SIZEOF_PKT_TAIL) / 8)).foldl mark_nacked e
      some (if env.retransm_queued = true then e1 else handle_it_retransm cf env e1)
  else some e

/-- The gaps before a packet beyond the head: `cnt` cells from `temp` on. -/
def gap_loop (expire : ℕ) : ℕ → ℕ → (ℕ → ItRecvCell) → ℕ → ItRecvCell
  | 0, _, incoming => incoming
  | cnt + 1, temp, incoming =>
    gap_loop expire cnt (temp + 1) (update incoming (temp % MAX_SEND_ON_LINK)
      { incoming (temp % MAX_SEND_ON_LINK) with flags := .nack, nack_expire := expire })

def store_packet (env : Env) (p : ItPacket) (e : LinkEnd) : LinkEnd :=
  let seq := p.tail.link_seq
  let index := seq % MAX_SEND_ON_LINK
  let stored := update e.inb.incoming index
    { e.inb.incoming index with pkt := some p.data, flags := .recvd }
  { e with
    inb.in_nonce := update e.inb.in_nonce index p.tail.seq_nonce
    inb.incoming :=
      if e.inb.in_head_seq ≤ seq then
        gap_loop (env.now + env.initial_nack_timeout) (seq - e.inb.in_head_seq)
          e.inb.in_head_seq stored
      else stored
    inb.in_head_seq := if e.inb.in_head_seq ≤ seq then seq + 1 else e.inb.in_head_seq
    stored_now := e.stored_now ++ [seq] }

/-- `frag_total` of the last trailer of a packet. -/
def last_frag_total (garbage : ℕ) (buff : Bytes) : ℕ :=
  if buff.length < SIZEOF_FRAGMENT_HEADER then garbage
  else (read_fragment_header buff (buff.length - SIZEOF_FRAGMENT_HEADER)).frag_total

/-- "Special Case for Unordered Delivery": a message of one packet is delivered
as soon as it arrives. -/
def deliver_unordered (cf : Conf) (env : Env) (p : ItPacket) (e : LinkEnd) : LinkEnd :=
  if cf.ordered_delivery = false ∧ last_frag_total env.garbage p.data = 1 then
    let r := build_message_from_fragments_it WorkingMsg.fresh p.data
    if r.1 < 0 then e
    else if r.1 = 0 then { e with exited := true }
    else forward_all cf env (env.deliver p.tail.link_seq)
      { e with delivered := e.delivered ++ [r.2.body] }
  else e

/-- The packet of `in_tail_seq` leaves the window: digest, tail and history. -/
def consume (e : LinkEnd) : LinkEnd :=
  let i := e.inb.in_tail_seq % MAX_SEND_ON_LINK
  let entry : LinkEntry :=
    ⟨e.inb.in_tail_seq, (e.inb.incoming i).pkt.getD [], e.inb.in_nonce i⟩
  { e with
    inb.aru_nonce_digest := e.inb.aru_nonce_digest ^^^ e.inb.in_nonce i
    inb.in_tail_seq := e.inb.in_tail_seq + 1
    inb.in_nonce := update e.inb.in_nonce i 0
    consumed_now := e.consumed_now ++ [entry]
    consumed := log_at e.consumed e.ngbr_incarnation e.my_incarnation [entry]
    draining := true }

/-- Append packet `seq` to the working message and deliver it if it is
complete. `Blacklist_Neighbor_IT` only reports. -/
def rebuild (cf : Conf) (env : Env) (seq : ℕ) (buff : Bytes) (e : LinkEnd) : LinkEnd :=
  let r := build_message_from_fragments_it e.inb.in_message buff
  let e1 : LinkEnd := { e with inb.in_message := r.2 }
  if r.1 = 1 then
    { forward_all cf env (env.deliver seq) { e1 with delivered := e1.delivered ++ [r.2.body] } with
      inb.in_message := WorkingMsg.fresh }
  else e1

def free_cell (i : ℕ) (e : LinkEnd) : LinkEnd :=
  { e with
    inb.incoming := update e.inb.incoming i
      { e.inb.incoming i with pkt := none, flags := .empty }
    draining := false }

def drain_one (cf : Conf) (env : Env) (e : LinkEnd) : LinkEnd :=
  let seq := e.inb.in_tail_seq
  let i := seq % MAX_SEND_ON_LINK
  let buff := (e.inb.incoming i).pkt.getD []
  let e1 := consume e
  free_cell i
    (if cf.ordered_delivery = true ∨ 1 < last_frag_total env.garbage buff then
      rebuild cf env seq buff e1
    else e1)

/-- The in-order loop. It empties a cell in every iteration, so
`MAX_SEND_ON_LINK` iterations always suffice. -/
def drain_loop (cf : Conf) (env : Env) : ℕ → LinkEnd → LinkEnd
  | 0, e => e
  | fuel + 1, e =>
    if (e.inb.incoming (e.inb.in_tail_seq % MAX_SEND_ON_LINK)).flags = .recvd then
      drain_loop cf env fuel (drain_one cf env e)
    else e

def check_link_seq (cf : Conf) (env : Env) (p : ItPacket) (e : LinkEnd) : ℕ × LinkEnd :=
  if p.tail.link_seq = 0 then (0, e)
  else
    let e1 : LinkEnd := { e with inb.incoming_msg_count := e.inb.incoming_msg_count + 1 }
    if p.tail.link_seq < e.inb.in_tail_seq then (1, e1)
    else if e.inb.in_tail_seq + MAX_SEND_ON_LINK ≤ p.tail.link_seq then (1, e1)
    else if (e.inb.incoming (p.tail.link_seq % MAX_SEND_ON_LINK)).flags = .recvd then (1, e1)
    else
      (0, drain_loop cf env MAX_SEND_ON_LINK
        (deliver_unordered cf env p (store_packet env p e1)))

/-- `Process_IT_Ack`: the return value and the end. -/
def process_it_ack (cf : Conf) (env : Env) (p : ItPacket) (e : LinkEnd) : ℕ × LinkEnd :=
  if p.ack_len < SIZEOF_PKT_TAIL ∨ (p.ack_len - SIZEOF_PKT_TAIL) % 8 ≠ 0 then (1, e)
  else
    match check_advertised_aru cf env p e with
    | none => (1, e)
    | some e1 =>
      match check_nack_requests cf env p e1 with
      | none => (1, e1)
      | some e2 => check_link_seq cf env p e2

def process_intru_tol_data_packet (cf : Conf) (env : Env) (p : ItPacket) (e : LinkEnd) : LinkEnd :=
  if p.tail.incarnation ≠ e.ngbr_incarnation then e
  else if p.tail.aru_incarnation ≠ e.my_incarnation then e
  else (process_it_ack cf env p e).2

/-- `Process_intru_tol_ack_packet`: the incarnations are read at the start of
the buffer, where the tail of a proper ack stands. -/
def process_intru_tol_ack_packet (cf : Conf) (env : Env) (p : ItPacket) (e : LinkEnd) : LinkEnd :=
  if p.front.incarnation ≠ e.ngbr_incarnation then e
  else if p.front.aru_incarnation ≠ e.my_incarnation then e
  else (process_it_ack cf env p e).2

/-! ## Incarnations -/

/-- The clean-up of the incoming cells: `cnt` cells from `i` on. -/
def empty_loop : ℕ → ℕ → (ℕ → ItRecvCell) → ℕ → ItRecvCell
  | 0, _, incoming => incoming
  | cnt + 1, i, incoming =>
    let c := incoming (i % MAX_SEND_ON_LINK)
    empty_loop cnt (i + 1) (update incoming (i % MAX_SEND_ON_LINK)
      { c with pkt := if c.flags = .recvd then none else c.pkt, flags := .empty })

/-- The first half of `Incarnation_Change`: the neighbor's new incarnation and
the inbound structures. The same loop clears `out_nonce_digest`, over the
cells of the incoming window; then cell `0` becomes the base of the next
incarnation's digests. -/
def reset_inbound (cf : Conf) (env : Env) (new_ngbr_inc : ℕ) (e : LinkEnd) : LinkEnd :=
  let cnt := e.inb.in_head_seq - e.inb.in_tail_seq
  let cleared := fillRange MAX_SEND_ON_LINK (0 : BitVec 64) e.inb.in_tail_seq cnt
  { e with
    incarnation_response := env.now + cf.incarnation_timeout
    ngbr_incarnation := new_ngbr_inc
    inb.incoming := empty_loop cnt e.inb.in_tail_seq e.inb.incoming
    inb.in_nonce := cleared e.inb.in_nonce
    inb.in_message :=
      if e.inb.in_message.idx ≠ 1 ∨ 0 < e.inb.in_message.total then WorkingMsg.fresh
      else e.inb.in_message
    inb.in_tail_seq := LINK_START_SEQ
    inb.in_head_seq := LINK_START_SEQ
    inb.aru_nonce_digest := 0
    outb.out_nonce_digest := update (cleared e.outb.out_nonce_digest) 0 0
    packed_now := []
    consumed_now := []
    stored_now := [] }

/-- `Reintroduce_Messages == 0`: forget what was to be sent. -/
def drop_outbound (e : LinkEnd) : LinkEnd :=
  { e with
    outb.outgoing := cleanup_loop (e.outb.out_head_seq - e.outb.out_tail_seq) e.outb.out_tail_seq
      e.outb.outgoing
    outb.out_tail_seq := LINK_START_SEQ
    outb.out_head_seq := LINK_START_SEQ
    outb.tcp_head_seq := LINK_START_SEQ
    outb.out_message := none
    outb.out_frag_idx := 0
    outb.out_frag_total := 0 }

/-- `((fragment_header*) pkt->elements[2].buf)->frag_idx`. -/
def first_frag_idx (garbage : ℕ) (pkt : Option (List Bytes)) : ℕ :=
  match pkt with
  | some (_ :: tr :: _) => (read_fragment_header tr 0).frag_idx
  | _ => garbage

/-- `skipped_pkts`: the leading packets of the window that do not start a
message, among `cnt` packets from `i` on. -/
def skipped_pkts (garbage : ℕ) (outgoing : ℕ → ItBufferCell) : ℕ → ℕ → ℕ
  | 0, _ => 0
  | cnt + 1, i =>
    if first_frag_idx garbage (outgoing (i % MAX_SEND_ON_LINK)).pkt ≠ 1 then
      skipped_pkts garbage outgoing cnt (i + 1) + 1
    else 0

/-- The packets that stay move to the front of the window and get new nonces:
`cnt` of them from number `i` on. `old` is the window before (`temp_window`),
`base` the old number of the first one. -/
def reintroduce_loop (env : Env) (old : ℕ → ItBufferCell) (base : ℕ) :
    ℕ → ℕ → Outbound → Outbound
  | 0, _, o => o
  | cnt + 1, i, o =>
    let index := i % MAX_SEND_ON_LINK
    let c := old ((base + (i - 1)) % MAX_SEND_ON_LINK)
    reintroduce_loop env old base cnt (i + 1)
      { o with
        outgoing := update o.outgoing index
          ⟨c.pkt, c.data_len, env.now + env.initial_nack_timeout, false, false⟩
        out_nonce := update o.out_nonce index (env.nonce i)
        out_nonce_digest := update o.out_nonce_digest index
          (env.nonce i ^^^ o.out_nonce_digest ((i - 1) % MAX_SEND_ON_LINK)) }

/-- `Reintroduce_Messages == 1`: keep the whole messages, as packets of the new
incarnation. -/
def reintroduce (cf : Conf) (env : Env) (e : LinkEnd) : LinkEnd :=
  let o := e.outb
  let skipped := skipped_pkts env.garbage o.outgoing (o.out_head_seq - o.out_tail_seq) o.out_tail_seq
  let base := o.out_tail_seq + skipped
  let cnt := o.out_head_seq - base
  let old := cleanup_loop skipped o.out_tail_seq o.outgoing
  let o1 := reintroduce_loop env old base cnt 1 { o with outgoing := old }
  let entries := (List.range' 1 cnt).map (fun i =>
    (⟨i, ((old ((base + (i - 1)) % MAX_SEND_ON_LINK)).pkt.getD []).flatten, env.nonce i⟩ : LinkEntry))
  pack_or_drop cf env
    { e with
      outb := { o1 with
        tcp_head_seq := min (LINK_START_SEQ + 1) (cnt + LINK_START_SEQ)
        out_head_seq := cnt + LINK_START_SEQ
        out_tail_seq := LINK_START_SEQ }
      packed_now := e.packed_now ++ entries
      packed := log_at e.packed e.ngbr_incarnation e.my_incarnation entries }

def incarnation_change (cf : Conf) (env : Env) (new_ngbr_inc : ℕ) (e : LinkEnd) : LinkEnd :=
  if env.link_up = false then e
  else
    let e1 := reset_inbound cf env new_ngbr_inc e
    let e2 := if cf.reintroduce_messages = true then reintroduce cf env e1 else drop_outbound e1
    assign_resources_it cf env env.assigned e2

/-- `Process_intru_tol_ping`. `fresh` says that the ping passed the checks on
`ping_seq`, `ping_history` and `pong_freq`; the round-trip estimate a `PONG`
updates is not part of the window protocol. -/
def process_intru_tol_ping (cf : Conf) (env : Env) (fresh is_ping : Bool) (p : ItPing)
    (e : LinkEnd) : LinkEnd :=
  if fresh = false then e
  else if p.incarnation < e.ngbr_incarnation then e
  else if e.ngbr_incarnation < p.incarnation ∧ env.now < e.incarnation_response then e
  else
    let e1 :=
      if e.ngbr_incarnation < p.incarnation then incarnation_change cf env p.incarnation e else e
    if e1.my_incarnation < p.aru_incarnation then e1
    else if is_ping = true then send_it_ping e1 else e1

/-- `Process_DH_IT`. `verified` says that the packet passed the checks on its
sizes, the configuration hash and the signature. -/
def process_dh_it (cf : Conf) (env : Env) (verified : Bool) (p : ItPing) (e : LinkEnd) : LinkEnd :=
  if env.now < e.incarnation_response then e
  else if p.incarnation ≤ e.ngbr_incarnation then e
  else if e.my_incarnation < p.aru_incarnation then e
  else if verified = false then e
  else incarnation_change cf env p.incarnation (send_it_ping e)

/-- The outbound half as `Create_Link` sets it up. -/
def Outbound.create : Outbound where
  outgoing := fun _ => ⟨none, 0, 0, false, false⟩
  out_nonce := fun _ => 0
  out_nonce_digest := fun _ => 0
  out_head_seq := LINK_START_SEQ
  out_tail_seq := LINK_START_SEQ
  tcp_head_seq := LINK_START_SEQ
  out_message := none
  out_frag_idx := 0
  out_frag_total := 0

/-- The inbound half as `Create_Link` sets it up. -/
def Inbound.create (cf : Conf) : Inbound where
  incoming := fun _ => ⟨.empty, 0, none⟩
  in_nonce := fun _ => 0
  aru_nonce_digest := 0
  in_head_seq := LINK_START_SEQ
  in_tail_seq := LINK_START_SEQ
  incoming_msg_count := cf.msg_per_saa - 1
  in_message := WorkingMsg.fresh

/-- The daemon of this end restarts and runs `Create_Link`: the incarnation is
the current second, everything but the histories is new. -/
def restart (cf : Conf) (sec : ℕ) (env : Env) (e : LinkEnd) : LinkEnd :=
  { e with
    outb := Outbound.create
    inb := Inbound.create cf
    my_incarnation := sec
    ngbr_incarnation := 0
    incarnation_response := env.now - cf.incarnation_timeout
    exited := false
    packed_now := []
    consumed_now := []
    stored_now := []
    draining := false }

def LinkEnd.create (cf : Conf) (sec : ℕ) : LinkEnd where
  outb := Outbound.create
  inb := Inbound.create cf
  my_incarnation := sec
  ngbr_incarnation := 0
  incarnation_response := 0
  exited := false
  attempts := 0
  sent := []
  pings := []
  packed_now := []
  consumed_now := []
  stored_now := []
  packed := fun _ _ => []
  consumed := fun _ _ => []
  draining := false
  delivered := []

/-! ## Events -/

inductive Event
  | forward (m : SysScatter)
  | assign
  | handle_it_retransm
  | reliable_it_timeout
  | ack_it_timeout
  | data_packet (p : ItPacket)
  | ack_packet (p : ItPacket)
  | ping (fresh is_ping : Bool) (p : ItPing)
  | dh (verified : Bool) (p : ItPing)
  | ping_it_timeout
  | restart (sec : ℕ)

def handle (cf : Conf) (env : Env) (e : LinkEnd) : Event → LinkEnd
  | .forward m => (forward_intru_tol_data cf env m e).2
  | .assign => assign_resources_it cf env env.assigned e
  | .handle_it_retransm => IntruTol.handle_it_retransm cf env e
  | .reliable_it_timeout => IntruTol.reliable_it_timeout cf env e
  | .ack_it_timeout => IntruTol.ack_it_timeout cf env e
  | .data_packet p => process_intru_tol_data_packet cf env p e
  | .ack_packet p => process_intru_tol_ack_packet cf env p e
  | .ping fresh is_ping p => process_intru_tol_ping cf env fresh is_ping p e
  | .dh verified p => process_dh_it cf env verified p e
  | .ping_it_timeout => send_it_ping e
  | .restart sec => IntruTol.restart cf sec env e

/-- One event at a running end, in any environment. A process that has exited
can only be started again. -/
def Step (cf : Conf) (e : LinkEnd) (ev : Event) (e' : LinkEnd) : Prop :=
  (e.exited = false ∨ ∃ sec, ev = .restart sec) ∧ ∃ env, e' = handle cf env e ev

end Spines.IntruTol
