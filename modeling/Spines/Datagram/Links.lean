/-
Data packets on the links of regular traffic (`daemon/udp.c`, `daemon/reliable_udp.c` with
`daemon/reliable_datagram.c`, and `daemon/realtime_udp.c`).

A message is a client's packet behind its `udp_header`, with a dissemination header in
an element of its own when it is routed by its source. Each link appends a trailer of
its own: a plain link none, a real-time link the sequence number, a reliable link the
`reliable_tail` with NACKs. Trailers are written into the buffer of the message, which
the windows of reliable and real-time links keep for retransmissions; nothing is copied.

A cell of a window also says for which message it was made (`msg`). The code has no such
field, and no function here reads it. Sequence numbers do not wrap. What the congestion
control, the hello protocol and packets that come in do to a link is left open
(`Event.change`): they may change every field, but put no buffer into a window.
-/
import Spines.Lib.Bytes
import Spines.Lib.Run

set_option autoImplicit false

namespace Spines.Datagram

open Spines.Lib Function

abbrev Bytes := List UInt8

/-! ## 1. Sizes -/

def PACKET_BODY : ℕ := 1452
def SIZEOF_UDP_HEADER : ℕ := 28
def SIZEOF_SB_HEADER : ℕ := 8
def SIZEOF_RELIABLE_TAIL : ℕ := 8
def SIZEOF_RT_SEQ : ℕ := 8
def MAX_WINDOW : ℕ := 20000
def MAX_HISTORY : ℕ := 1000
def HISTORY_TIME : ℕ := 100000
def MAX_BUCKET : ℕ := 500
def RT_RETRANSM_TOK : ℕ := 2

def MIN_WEIGHT_ROUTING : ℕ := 0x000
def IT_PRIORITY_ROUTING : ℕ := 0x100
def IT_RELIABLE_ROUTING : ℕ := 0x200
def SOURCE_BASED_ROUTING : ℕ := 0x300

/-- The offset of `routing` in `udp_header`. -/
def ROUTING : ℕ := 25

structure Conf where
  endian : Endian
  /-- `MultiPath_Bitmask_Size`. -/
  bitmask_size : ℕ
  prio_signature_len : ℕ
  rel_signature_len : ℕ
  fast_retransmit : Bool

/-- The sizes are those of `prio_flood_header`, `rel_flood_header`, `rel_flood_tail`,
`rel_flood_hbh_ack` and `fragment_header`, which is counted twice for the reliable
messages. `none` is the exit on an unknown routing. -/
def Dissemination_Header_Size (cf : Conf) (dissemination : ℕ) : Option ℕ :=
  if dissemination = MIN_WEIGHT_ROUTING then some 0
  else if dissemination = IT_PRIORITY_ROUTING then
    some ((40 + cf.bitmask_size + cf.prio_signature_len + 4) % 2 ^ 16)
  else if dissemination = IT_RELIABLE_ROUTING then
    some ((24 + cf.bitmask_size + cf.rel_signature_len + 4 + 4 + 24 + 4) % 2 ^ 16)
  else if dissemination = SOURCE_BASED_ROUTING then
    some ((SIZEOF_SB_HEADER + cf.bitmask_size) % 2 ^ 16)
  else none

/-- `hdr->routing << ROUTING_BITS_SHIFT`. -/
def routing_of (m : Mem) : ℕ := (m ROUTING).toNat * 256

/-! ## 2. Messages, packets and links -/

structure Msg where
  body : Bytes
  header : Bytes
  deriving DecidableEq, Repr

/-- A `sys_scatter` to be forwarded: the buffer and the length of element 1, and element 2
if there is one. -/
structure Scatter where
  buf : ℕ
  len : ℕ
  header : Option Bytes

/-- What goes over the network: two fields of `packet_header` and what stands after it. -/
structure Packet where
  data_len : ℕ
  ack_len : ℕ
  body : Bytes
  deriving DecidableEq, Repr

inductive Link_Type
  | udp
  | reliable_udp
  | realtime_udp
  deriving DecidableEq, Repr

structure Buffer_Cell where
  seq_no : ℕ
  buff : ℕ
  data_len : ℕ
  msg : Msg

/-- `History_Cell`; the time in microseconds. -/
structure History_Cell where
  buff : ℕ
  len : ℕ
  timestamp : ℕ
  msg : Msg

inductive Flag
  | empty
  | nack
  | received
  deriving DecidableEq, Repr

structure Recv_Cell where
  flag : Flag
  nack_sent : ℕ

/-- `Reliable_Data`. `window_size` is the number of packets that fit in the congestion
window, and `connected` is the flag `CONNECTED_LINK`. -/
structure Reliable_Data where
  connected : Bool
  seq_no : ℕ
  msg_buff : List Buffer_Cell
  window_size : ℕ
  window : ℕ → Option Buffer_Cell
  head : ℕ
  tail : ℕ
  recv_window : ℕ → Recv_Cell
  recv_head : ℕ
  recv_tail : ℕ
  nack_buff : List ℕ
  rtt : ℕ

structure Realtime_Data where
  head : ℕ
  tail : ℕ
  window : ℕ → Option History_Cell
  retransm_buff : List ℕ
  bucket : ℕ

structure Link where
  link_type : Link_Type
  r_data : Reliable_Data
  rt_data : Realtime_Data

abbrev Heap := ℕ → Mem

structure Daemon where
  heap : Heap
  links : ℕ → Link

/-- A packet that was given to `Link_Send`, on what kind of link and for which message. -/
structure Sent where
  link_type : Link_Type
  packet : Packet
  msg : Msg

def Heap.msg (h : Heap) (scat : Scatter) : Msg :=
  { body := (h scat.buf).bytes 0 scat.len, header := scat.header.getD [] }

def Heap.write (h : Heap) (b pos : ℕ) (bs : Bytes) : Heap :=
  update h b ((h b).write pos bs)

def Daemon.set_link (d : Daemon) (l : ℕ) (lk : Link) : Daemon :=
  { d with links := update d.links l lk }

/-! ## 3. Plain links -/

def Forward_UDP_Data (cf : Conf) (d : Daemon) (scat : Scatter) : Option (Daemon × List Sent) := do
  let dh_size ← Dissemination_Header_Size cf (routing_of (d.heap scat.buf))
  let msg := d.heap.msg scat
  let packet : Packet :=
    { data_len := scat.len % 2 ^ 16, ack_len := dh_size % 2 ^ 16, body := msg.body ++ msg.header }
  return (d, [⟨.udp, packet, msg⟩])

/-! ## 4. The tail of reliable links -/

structure Nacks where
  recv_window : ℕ → Recv_Cell
  seqs : List ℕ

def Nacks.ack_len (a : Nacks) : ℕ := SIZEOF_RELIABLE_TAIL + 4 * a.seqs.length

def Nacks.add (now i : ℕ) (a : Nacks) : Nacks :=
  { recv_window := update a.recv_window (i % MAX_WINDOW) ⟨.nack, now⟩
    seqs := a.seqs ++ [i] }

def Reliable_Data.overdue (r : Reliable_Data) (now nack_sent : ℕ) : Bool :=
  nack_sent + (if r.rtt = 0 then 1000000 else r.rtt * 2) < now

def Reliable_Data.first_nack (cf : Conf) (r : Reliable_Data) (now i : ℕ) (a : Nacks) : Nacks :=
  if (a.recv_window (i % MAX_WINDOW)).flag = .empty ∧
      (r.recv_head - i > 3 ∨ (r.recv_head - i > 1 ∧ cf.fast_retransmit)) then
    a.add now i
  else a

def Reliable_Data.next_nack (r : Reliable_Data) (now i : ℕ) (a : Nacks) : Nacks :=
  if (a.recv_window (i % MAX_WINDOW)).flag = .nack ∧
      r.overdue now (a.recv_window (i % MAX_WINDOW)).nack_sent then
    a.add now i
  else a

/-- One round of the loop. `Reliable_Send_Msg` and `Reliable_timeout` have `else if` before
the second test (`again` is `false`), `Send_Much` and `Send_Nack_Retransm` have `if`. -/
def Reliable_Data.nack_round (cf : Conf) (again : Bool) (r : Reliable_Data) (now i : ℕ)
    (a : Nacks) : Nacks :=
  if again then r.next_nack now i (r.first_nack cf now i a)
  else if (a.recv_window (i % MAX_WINDOW)).flag = .empty then r.first_nack cf now i a
  else r.next_nack now i a

/-- The loop over the sequence numbers from `recv_tail` to `recv_head`; it stops when
there is no room for another NACK. -/
def Reliable_Data.add_nacks (cf : Conf) (again : Bool) (r : Reliable_Data) (now data_len : ℕ) :
    List ℕ → Nacks → Nacks
  | [], a => a
  | i :: is, a =>
    if PACKET_BODY - 4 < a.ack_len + data_len then a
    else r.add_nacks cf again now data_len is (r.nack_round cf again now i a)

def Conf.int32 (cf : Conf) (x : ℕ) : Bytes := cf.endian.order (le_bytes 4 x)

def Conf.reliable_tail (cf : Conf) (seq_no cummulative_ack : ℕ) : Bytes :=
  cf.int32 seq_no ++ cf.int32 cummulative_ack

/-- What all four sending functions do with a cell: the tail and the NACKs go into the
buffer behind the data, and the packet is sent. -/
def transmit (cf : Conf) (again : Bool) (now : ℕ) (h : Heap) (r : Reliable_Data)
    (c : Buffer_Cell) : Heap × Reliable_Data × Sent :=
  let nacks := r.add_nacks cf again now c.data_len
    (List.range' r.recv_tail (r.recv_head - r.recv_tail)) ⟨r.recv_window, []⟩
  let tail := cf.reliable_tail c.seq_no r.recv_tail ++ nacks.seqs.flatMap cf.int32
  let h' := h.write c.buff c.data_len tail
  let packet : Packet :=
    { data_len := c.data_len % 2 ^ 16
      ack_len := nacks.ack_len % 2 ^ 16
      body := (h' c.buff).bytes 0 (c.data_len + nacks.ack_len) }
  (h', { r with recv_window := nacks.recv_window }, ⟨.reliable_udp, packet, c.msg⟩)

def Reliable_Data.put (r : Reliable_Data) (c : Buffer_Cell) : Reliable_Data :=
  { r with
    window := update r.window (c.seq_no % MAX_WINDOW) (some c)
    head := c.seq_no + 1 }

/-! ## 5. Reliable links -/

/-- The loop of `Send_Much` over `msg_buff`; `none` is the exit on a smaller sequence
number. -/
def Send_Much_loop (cf : Conf) (now : ℕ) :
    List Buffer_Cell → Heap → Reliable_Data → Option (Heap × Reliable_Data × List Sent)
  | [], h, r => some (h, { r with msg_buff := [] }, [])
  | c :: cs, h, r =>
    if r.window_size ≤ r.head - r.tail then some (h, { r with msg_buff := c :: cs }, [])
    else if c.seq_no < r.head then none
    else do
      let (h', r', s) := transmit cf true now h (r.put c) c
      let (h'', r'', ss) ← Send_Much_loop cf now cs h' r'
      return (h'', r'', s :: ss)

def Send_Much (cf : Conf) (now : ℕ) (h : Heap) (r : Reliable_Data) :
    Option (Heap × Reliable_Data × List Sent) :=
  if r.connected then Send_Much_loop cf now r.msg_buff h r else some (h, r, [])

/-- `Reliable_Send_Msg`. The sequence number is read from the buffer again after
`Send_Much`. -/
def Reliable_Send_Msg (cf : Conf) (now : ℕ) (h : Heap) (r : Reliable_Data) (buff buff_len : ℕ)
    (msg : Msg) : Option (Heap × Reliable_Data × List Sent) := do
  let h₁ := h.write buff buff_len (cf.reliable_tail r.seq_no r.recv_tail)
  let r₁ := { r with seq_no := r.seq_no + 1 }
  let (h₂, r₂, ss) ← Send_Much cf now h₁ r₁
  let c : Buffer_Cell :=
    { seq_no := (h₂ buff).load cf.endian buff_len 4, buff := buff, data_len := buff_len, msg := msg }
  if r₂.window_size ≤ r₂.head - r₂.tail ∨ r₂.msg_buff ≠ [] ∨ ¬r₂.connected then
    return (h₂, { r₂ with msg_buff := r₂.msg_buff ++ [c] }, ss)
  else if c.seq_no < r₂.head then none
  else
    let (h₃, r₃, s) := transmit cf false now h₂ (r₂.put c) c
    return (h₃, r₃, ss ++ [s])

def resend (cf : Conf) (again : Bool) (now : ℕ) :
    List Buffer_Cell → Heap → Reliable_Data → Heap × Reliable_Data × List Sent
  | [], h, r => (h, r, [])
  | c :: cs, h, r =>
    let (h', r', s) := transmit cf again now h r c
    let (h'', r'', ss) := resend cf again now cs h' r'
    (h'', r'', s :: ss)

/-- `Reliable_timeout`. An empty slot below `head` would be a null pointer. -/
def Reliable_timeout (cf : Conf) (now : ℕ) (h : Heap) (r : Reliable_Data) :
    Option (Heap × Reliable_Data × List Sent) :=
  if r.connected then
    ((List.range' r.tail (r.head - r.tail)).mapM fun i => r.window (i % MAX_WINDOW)).map fun cs =>
      resend cf false now cs h r
  else none

def Send_Nack_Retransm (cf : Conf) (now : ℕ) (h : Heap) (r : Reliable_Data) :
    Option (Heap × Reliable_Data × List Sent) :=
  if ¬r.connected then none
  else if r.nack_buff = [] ∨ r.head = r.tail then some (h, r, [])
  else
    let cs := r.nack_buff.filterMap fun i => r.window (i % MAX_WINDOW)
    let (h', r', ss) := resend cf true now cs h r
    some (h', { r' with nack_buff := [] }, ss)

/-- `Forward_Rel_UDP_Data`: element 2 of the scatter is not given to the link. -/
def Forward_Rel_UDP_Data (cf : Conf) (now : ℕ) (h : Heap) (r : Reliable_Data) (scat : Scatter) :
    Option (Heap × Reliable_Data × List Sent) :=
  Reliable_Send_Msg cf now h r scat.buf scat.len (h.msg scat)

/-! ## 6. Real-time links -/

def Realtime_Data.drop_tail (rt : Realtime_Data) : Realtime_Data :=
  { rt with
    window := update rt.window (rt.tail % MAX_HISTORY) none
    tail := rt.tail + 1 }

/-- The loop that drops old packets (`Clean_RT_history`), `n` rounds of it at most. -/
def Realtime_Data.clean (now : ℕ) : ℕ → Realtime_Data → Realtime_Data
  | 0, rt => rt
  | n + 1, rt =>
    match rt.window (rt.tail % MAX_HISTORY) with
    | none => rt
    | some c =>
      if rt.tail < rt.head ∧ HISTORY_TIME < now - c.timestamp then
        Realtime_Data.clean now n rt.drop_tail
      else rt

def Clean_RT_history (now : ℕ) (rt : Realtime_Data) : Realtime_Data :=
  rt.clean now (rt.head - rt.tail)

def Realtime_Data.make_room (rt : Realtime_Data) : Realtime_Data :=
  if MAX_HISTORY ≤ rt.head - rt.tail then rt.drop_tail else rt

/-- `rt_seq_type`. -/
def Conf.rt_seq (cf : Conf) (x : ℕ) : Bytes := cf.endian.order (le_bytes 8 x)

/-- The dissemination header is also copied into the buffer behind the sequence number,
for retransmissions, and counts for the length that is kept; `none` is the assertion that
there is room. -/
def keep_header (h : Heap) (scat : Scatter) (dh_size : ℕ) : Option (Heap × ℕ) :=
  match scat.header with
  | none => some (h, scat.len + SIZEOF_RT_SEQ)
  | some s =>
    if scat.len + SIZEOF_RT_SEQ + dh_size < PACKET_BODY then
      some (h.write scat.buf (scat.len + SIZEOF_RT_SEQ) (s.take dh_size),
        scat.len + SIZEOF_RT_SEQ + dh_size)
    else none

def Forward_RT_UDP_Data (cf : Conf) (now : ℕ) (h : Heap) (rt : Realtime_Data) (scat : Scatter) :
    Option (Heap × Realtime_Data × List Sent) := do
  let rt₁ := (Clean_RT_history now rt).make_room
  let dh_size ← Dissemination_Header_Size cf (routing_of (h scat.buf))
  let msg := h.msg scat
  let h₁ := h.write scat.buf scat.len (cf.rt_seq rt₁.head)
  let (h₂, len) ← keep_header h₁ scat dh_size
  let c : History_Cell := { buff := scat.buf, len := len, timestamp := now, msg := msg }
  let packet : Packet :=
    { data_len := scat.len % 2 ^ 16
      ack_len := (SIZEOF_RT_SEQ + dh_size) % 2 ^ 16
      body := (h₂ scat.buf).bytes 0 (scat.len + SIZEOF_RT_SEQ) ++ msg.header }
  return (h₂,
    { rt₁ with
      window := update rt₁.window (rt₁.head % MAX_HISTORY) (some c)
      head := rt₁.head + 1
      bucket := if rt₁.bucket < MAX_BUCKET then rt₁.bucket + 1 else rt₁.bucket },
    [⟨.realtime_udp, packet, msg⟩])

/-- One packet of the history is sent again; both lengths in the header are computed from
the routing that the buffer says. -/
def resend_rt (cf : Conf) (h : Heap) (c : History_Cell) (seq_no : ℕ) : Option (Heap × Sent) := do
  let dh_size ← Dissemination_Header_Size cf (routing_of (h c.buff))
  let ack_len := (SIZEOF_RT_SEQ + dh_size) % 2 ^ 16
  let data_len := (c.len + (2 ^ 16 - ack_len)) % 2 ^ 16
  let h' := h.write c.buff data_len (cf.rt_seq seq_no)
  let packet : Packet :=
    { data_len := data_len, ack_len := ack_len, body := (h' c.buff).bytes 0 c.len }
  return (h', ⟨.realtime_udp, packet, c.msg⟩)

/-- The loop of `Send_RT_Retransm`; `ok` says what `Link_Send` answers. -/
def Send_RT_Retransm_loop (cf : Conf) (ok : ℕ → Bool) :
    List ℕ → Heap → Realtime_Data → Option (Heap × Realtime_Data × List Sent)
  | [], h, rt => some (h, rt, [])
  | seq_no :: seqs, h, rt =>
    if rt.head ≤ seq_no ∨ seq_no < rt.tail then Send_RT_Retransm_loop cf ok seqs h rt
    else if rt.bucket < RT_RETRANSM_TOK then some (h, rt, [])
    else do
      let c ← rt.window (seq_no % MAX_HISTORY)
      let (h', s) ← resend_rt cf h c seq_no
      let rt' := { rt with bucket := rt.bucket - RT_RETRANSM_TOK }
      if ok seq_no then
        let (h'', rt'', ss) ← Send_RT_Retransm_loop cf ok seqs h' rt'
        return (h'', rt'', s :: ss)
      else return (h', rt', [s])

def Send_RT_Retransm (cf : Conf) (now : ℕ) (ok : ℕ → Bool) (h : Heap) (rt : Realtime_Data) :
    Option (Heap × Realtime_Data × List Sent) := do
  let (h', rt', ss) ← Send_RT_Retransm_loop cf ok rt.retransm_buff h (Clean_RT_history now rt)
  return (h', { rt' with retransm_buff := [] }, ss)

/-! ## 7. Receiving -/

/-- The buffer a packet was read into; `mem` is what was in it, and behind it. -/
def Packet.read (p : Packet) (mem : Mem) : Mem := mem.write 0 (p.body.take PACKET_BODY)

/-- `Read_UDP` and `Prot_process_scat`: a packet with wrong sizes is dropped. -/
def Packet.sizes_ok (p : Packet) : Prop :=
  (p.body.take PACKET_BODY).length = p.data_len + p.ack_len

instance (p : Packet) : Decidable p.sizes_ok := inferInstanceAs (Decidable (_ = _))

/-- What the three receiving functions have in common: the length of the dissemination
header is taken off `ack_len`, an unsigned number of `w` bits, and the header is copied
from behind the trailer. The result is what `Deliver_and_Forward_Data` gets. -/
def unpack (cf : Conf) (w : ℕ) (mem : Mem) (p : Packet) : Option Msg :=
  if (p.body.take PACKET_BODY).length < SIZEOF_UDP_HEADER then none
  else do
    let buf := p.read mem
    let dh_size ← Dissemination_Header_Size cf (routing_of buf)
    let ack_len := (p.ack_len + (2 ^ w - dh_size)) % 2 ^ w
    return {
      body := buf.bytes 0 p.data_len
      header := buf.bytes (p.data_len + ack_len) dh_size }

def Process_udp_data_packet (cf : Conf) (mem : Mem) (p : Packet) : Option Msg := unpack cf 32 mem p

/-- `Process_rel_udp_data_packet` on a connected link; `flag` is what `Process_Ack`
returns for the tail: -1 for an acknowledgement alone, 0 for an old packet. -/
def Process_rel_udp_data_packet (cf : Conf) (flag : ℤ) (mem : Mem) (p : Packet) : Option Msg :=
  if flag = -1 ∨ flag = 0 then none else unpack cf 16 mem p

/-- `Process_RT_UDP_data_packet`; `old` is whether the sequence number is below the
window or received already. -/
def Process_RT_UDP_data_packet (cf : Conf) (old : Bool) (mem : Mem) (p : Packet) : Option Msg :=
  if old then none else unpack cf 16 mem p

structure Verdict where
  flag : ℤ
  old : Bool

def Verdict.accepts (v : Verdict) : Link_Type → Prop
  | .udp => True
  | .reliable_udp => v.flag ≠ -1 ∧ v.flag ≠ 0
  | .realtime_udp => v.old = false

instance (v : Verdict) (t : Link_Type) : Decidable (v.accepts t) := by
  cases t <;> unfold Verdict.accepts <;> infer_instance

def receive (cf : Conf) (t : Link_Type) (v : Verdict) (mem : Mem) (p : Packet) : Option Msg :=
  if p.sizes_ok then
    match t with
    | .udp => Process_udp_data_packet cf mem p
    | .reliable_udp => Process_rel_udp_data_packet cf v.flag mem p
    | .realtime_udp => Process_RT_UDP_data_packet cf v.old mem p
  else none

/-! ## 8. Runs -/

def Link_Type.trailer : Link_Type → ℕ
  | .udp => 0
  | .reliable_udp => SIZEOF_RELIABLE_TAIL
  | .realtime_udp => SIZEOF_RT_SEQ

def Msg.routing (m : Msg) : ℕ := (m.body.getD ROUTING 0).toNat * 256

/-- A message with the dissemination header its routing asks for, of a length that fits
into a packet. -/
structure Msg.Admissible (cf : Conf) (t : Link_Type) (m : Msg) : Prop where
  udp_header : SIZEOF_UDP_HEADER ≤ m.body.length
  routed :
    m.routing = MIN_WEIGHT_ROUTING ∧ m.header = [] ∨
    m.routing = SOURCE_BASED_ROUTING ∧ m.header.length = SIZEOF_SB_HEADER + cf.bitmask_size
  fits : m.body.length + t.trailer + m.header.length ≤ PACKET_BODY

inductive Event
  | write (b : ℕ) (m : Mem)
  | change (l : ℕ) (lk : Link)
  | forward (l : ℕ) (scat : Scatter) (now : ℕ)
  | send_much (l now : ℕ)
  | timeout (l now : ℕ)
  | nack_retransm (l now : ℕ)
  | rt_retransm (l now : ℕ) (ok : ℕ → Bool)

def Daemon.with_r (d : Daemon) (l : ℕ) (x : Heap × Reliable_Data × List Sent) :
    Daemon × List Sent :=
  ({ d with heap := x.1 }.set_link l { d.links l with r_data := x.2.1 }, x.2.2)

def Daemon.with_rt (d : Daemon) (l : ℕ) (x : Heap × Realtime_Data × List Sent) :
    Daemon × List Sent :=
  ({ d with heap := x.1 }.set_link l { d.links l with rt_data := x.2.1 }, x.2.2)

def Forward_Data (cf : Conf) (d : Daemon) (l : ℕ) (scat : Scatter) (now : ℕ) :
    Option (Daemon × List Sent) :=
  match (d.links l).link_type with
  | .udp => Forward_UDP_Data cf d scat
  | .reliable_udp =>
    (Forward_Rel_UDP_Data cf now d.heap (d.links l).r_data scat).map (d.with_r l)
  | .realtime_udp =>
    (Forward_RT_UDP_Data cf now d.heap (d.links l).rt_data scat).map (d.with_rt l)

def Daemon.step (cf : Conf) (d : Daemon) : Event → Option (Daemon × List Sent)
  | .write b m => some ({ d with heap := update d.heap b m }, [])
  | .change l lk => some (d.set_link l lk, [])
  | .forward l scat now => Forward_Data cf d l scat now
  | .send_much l now => (Send_Much cf now d.heap (d.links l).r_data).map (d.with_r l)
  | .timeout l now => (Reliable_timeout cf now d.heap (d.links l).r_data).map (d.with_r l)
  | .nack_retransm l now =>
    (Send_Nack_Retransm cf now d.heap (d.links l).r_data).map (d.with_r l)
  | .rt_retransm l now ok =>
    (Send_RT_Retransm cf now ok d.heap (d.links l).rt_data).map (d.with_rt l)

inductive Link.Holds (lk : Link) : ℕ → Msg → Prop
  | window {i : ℕ} {c : Buffer_Cell} (h : lk.r_data.window i = some c) : lk.Holds c.buff c.msg
  | waits {c : Buffer_Cell} (h : c ∈ lk.r_data.msg_buff) : lk.Holds c.buff c.msg
  | history {i : ℕ} {c : History_Cell} (h : lk.rt_data.window i = some c) : lk.Holds c.buff c.msg

def Daemon.Holds (d : Daemon) (b : ℕ) (m : Msg) : Prop := ∃ l, (d.links l).Holds b m

/-- A link only lets go of buffers. -/
structure Link.Releases (lk lk' : Link) : Prop where
  link_type : lk'.link_type = lk.link_type
  window : ∀ i c, lk'.r_data.window i = some c → lk.r_data.window i = some c
  msg_buff : ∀ c ∈ lk'.r_data.msg_buff, c ∈ lk.r_data.msg_buff
  history : ∀ i c, lk'.rt_data.window i = some c → lk.rt_data.window i = some c

def Daemon.Enabled (cf : Conf) (d : Daemon) : Event → Prop
  | .change l lk => (d.links l).Releases lk
  | .forward l scat _ => (d.heap.msg scat).Admissible cf (d.links l).link_type
  | _ => True

structure World where
  daemon : Daemon
  sent : List Sent

def World.Step (cf : Conf) (w : World) (e : Event) (w' : World) : Prop :=
  w.daemon.Enabled cf e ∧
    ∃ ss, w.daemon.step cf e = some (w'.daemon, ss) ∧ w'.sent = w.sent ++ ss

structure World.Initial (w : World) : Prop where
  sent : w.sent = []
  holds : ∀ b m, ¬w.daemon.Holds b m

end Spines.Datagram
