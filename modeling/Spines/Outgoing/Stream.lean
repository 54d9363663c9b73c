/-
`daemon/session.c`: `Session_Deliver_Data` and `Session_Write`, the writers of the stream
to a client over TCP, for sessions that are not reliable.

A message goes out as its length and its bytes, `udp_header` and all. One that came in
fragments goes out as one frame, with a copy of the first header that has the length of
the whole. When the socket would block, what is left waits in `rel_deliver_buff`, fragment by
fragment, `sent_bytes` says how far the first of them has come, and `Session_Write` goes
on from there. Position 0 is the first byte of a length, so a later fragment starts behind
the place of length and header, at 32.

`Copy_udp_header` copies no padding and not `reserved32`: these bytes of a copy are
whatever the new buffer had in it. Writes that fail close the session and end the stream.
-/
import Spines.Lib.Bytes
import Spines.Lib.Drain
import Spines.Lib.Run

set_option autoImplicit false

namespace Spines.Outgoing

open Spines.Lib

abbrev Bytes := List UInt8

/-! ## 1. Headers -/

def SIZEOF_INT32 : ℕ := 4
def SIZEOF_UDP_HEADER : ℕ := 28
def MAX_BUFF_SESS : ℕ := 9000

inductive Routing
  | min_weight
  | it_priority
  | it_reliable
  | source_based
  deriving DecidableEq, Repr

/-- A `char`, with its sign. -/
def char (x : UInt8) : ℤ := if x.toNat < 128 then x.toNat else (x.toNat : ℤ) - 256

/-- Two fields of the `udp_header` at the front of a packet. -/
def frag_num (buff : Bytes) : ℤ := char (buff.getD 22 0)
def frag_idx (buff : Bytes) : ℤ := char (buff.getD 23 0)

def payload (buff : Bytes) : Bytes := buff.drop SIZEOF_UDP_HEADER

def int32 (e : Endian) (x : ℕ) : Bytes := e.order (le_bytes 4 x)

/-- `Copy_udp_header` into a buffer that holds `junk`. -/
def Copy_udp_header (junk : Mem) (hdr : Bytes) : Bytes :=
  hdr.take 8 ++ junk.bytes 8 4 ++ (hdr.drop 12).take 14 ++ junk.bytes 26 2

def set_len (e : Endian) (hdr : Bytes) (len : ℕ) : Bytes :=
  hdr.take 16 ++ e.order (le_bytes 2 len) ++ hdr.drop 18

/-- `first_frag_udp_hdr`, for a message of `total_len` bytes. -/
def first_frag_udp_hdr (e : Endian) (junk : Mem) (buff : Bytes) (total_len : ℕ) : Bytes :=
  set_len e (Copy_udp_header junk buff) (total_len - SIZEOF_UDP_HEADER)

/-! ## 2. Sessions -/

/-- `UDP_Cell`; its `len` is the length of `buff`. -/
structure UDP_Cell where
  buff : Bytes
  total_len : ℕ

structure Session where
  routing_used : Routing
  rel_deliver_buff : List UDP_Cell
  sent_bytes : ℕ
  /-- `fd_flags & WRITE_DESC`: `WRITE_FD` is attached. -/
  write_desc : Bool
  /-- After `Session_Close`. -/
  closed : Bool

inductive Status
  | BUFF_EMPTY
  | BUFF_OK
  | BUFF_DROP
  | NO_BUFF
  deriving DecidableEq, Repr

/-- A call of one of the two writers: the session after it, what the socket took, what was
returned, and the answers of the socket that were not asked for. -/
structure Written where
  ses : Session
  out : Bytes
  status : Status
  rest : List Ret

def Session.push (ses : Session) (c : UDP_Cell) : Session :=
  { ses with rel_deliver_buff := ses.rel_deliver_buff ++ [c] }

/-- The socket would block: what is left of the packet waits, and `Session_Write` is told
when the socket can be written again. -/
def Session.block (ses : Session) (c : UDP_Cell) (sent_bytes : ℕ) : Session :=
  { ses.push c with sent_bytes := sent_bytes, write_desc := true }

/-- `Session_Close`. -/
def Session.close (ses : Session) : Session := { ses with closed := true }

/-- With `flags` 1 a message that finds the buffer full is dropped, else the session is
closed. -/
def Session.full (ses : Session) (flags : ℕ) (rets : List Ret) : Option Written :=
  if 3 * MAX_BUFF_SESS ≤ ses.rel_deliver_buff.length then
    if flags = 1 then some ⟨ses, [], .BUFF_DROP, rets⟩
    else if flags = 2 ∨ flags = 3 then some ⟨ses.close, [], .NO_BUFF, rets⟩
    else none
  else none

/-! ## 3. `Session_Deliver_Data`: one packet -/

def offer_packet (e : Endian) (buff : Bytes) (sent_bytes : ℕ) : Bytes :=
  if sent_bytes < SIZEOF_INT32 then (int32 e buff.length).drop sent_bytes ++ buff
  else buff.drop (sent_bytes - SIZEOF_INT32)

def Session.deliver_packet (e : Endian) (flags : ℕ) (ses : Session) (buff : Bytes)
    (rets : List Ret) : Option Written :=
  let c : UDP_Cell := ⟨buff, buff.length⟩
  if ses.rel_deliver_buff ≠ [] then
    match ses.full flags rets with
    | some w => some w
    | none => some ⟨ses.push c, [], .BUFF_OK, rets⟩
  else
    (drain false (offer_packet e buff) (SIZEOF_INT32 + buff.length) rets 0).map fun d =>
      match d.stop with
      | .done => ⟨{ ses with sent_bytes := 0 }, d.out, .BUFF_EMPTY, d.rest⟩
      | .blocked => ⟨ses.block c d.pos, d.out, .BUFF_OK, d.rest⟩
      | .zero => ⟨ses, d.out, .BUFF_OK, d.rest⟩
      | .broken => ⟨{ ses with sent_bytes := d.pos }.close, d.out, .BUFF_DROP, d.rest⟩

/-! ## 4. `Session_Deliver_Data`: a fragmented packet that is complete -/

def sum_len (frags : List Bytes) : ℕ :=
  SIZEOF_UDP_HEADER + (frags.map fun x => x.length - SIZEOF_UDP_HEADER).sum

/-- What is given to the socket of fragment `buff`; `hdr` and `first` are the copied
header and the first fragment. -/
def offer_frag (e : Endian) (total_len : ℕ) (hdr first buff : Bytes) (sent_bytes : ℕ) : Bytes :=
  if sent_bytes < SIZEOF_INT32 then
    (int32 e total_len).drop sent_bytes ++ hdr ++ payload first
  else if sent_bytes < SIZEOF_UDP_HEADER + SIZEOF_INT32 then
    hdr.drop (sent_bytes - SIZEOF_INT32) ++ payload first
  else buff.drop (sent_bytes - SIZEOF_INT32)

/-- Where fragment `i` starts. -/
def frag_start (i : ℕ) : ℕ := if i = 0 then 0 else SIZEOF_UDP_HEADER + SIZEOF_INT32

/-- The loop over the fragments from number `i` on. -/
def Session.deliver_frags (e : Endian) (junk : Mem) (total_len : ℕ) (first : Bytes) :
    ℕ → List Bytes → Session → List Ret → Option Written
  | _, [], ses, rets =>
    some ⟨ses, [], if ses.rel_deliver_buff = [] then .BUFF_EMPTY else .BUFF_OK, rets⟩
  | i, buff :: frags, ses, rets =>
    let c : UDP_Cell := ⟨buff, total_len⟩
    if ses.rel_deliver_buff ≠ [] then
      deliver_frags e junk total_len first (i + 1) frags (ses.push c) rets
    else do
      let hdr := first_frag_udp_hdr e junk first total_len
      let d ← drain false (offer_frag e total_len hdr first buff) (SIZEOF_INT32 + buff.length)
        rets (frag_start i)
      match d.stop with
      | .broken => some ⟨{ ses with sent_bytes := d.pos }.close, d.out, .NO_BUFF, d.rest⟩
      | .done =>
        let ses' := { ses with sent_bytes := if frags = [] then 0 else frag_start (i + 1) }
        let w ← deliver_frags e junk total_len first (i + 1) frags ses' d.rest
        return { w with out := d.out ++ w.out }
      | _ =>
        let w ← deliver_frags e junk total_len first (i + 1) frags (ses.block c d.pos) d.rest
        return { w with out := d.out ++ w.out }

def Session.deliver_fragmented (e : Endian) (flags : ℕ) (junk : Mem) (ses : Session)
    (frags : List Bytes) (rets : List Ret) : Option Written :=
  match ses.full flags rets with
  | some w => some w
  | none => ses.deliver_frags e junk (sum_len frags) (frags.headD []) 0 frags rets

/-! ## 5. `Session_Write` -/

/-- The cell is the first fragment of a packet. `Session_Write` looks for fragments on
sessions of `MIN_WEIGHT_ROUTING` only. -/
def UDP_Cell.first (r : Routing) (c : UDP_Cell) : Bool :=
  r = .min_weight ∧ frag_num c.buff > 1 ∧ frag_idx c.buff = 0

def UDP_Cell.more (r : Routing) (c : UDP_Cell) : Bool :=
  r = .min_weight ∧ frag_num c.buff > 1 ∧ frag_idx c.buff < frag_num c.buff - 1

def UDP_Cell.send_bytes (r : Routing) (c : UDP_Cell) : ℕ :=
  if c.first r then c.total_len else c.buff.length

def UDP_Cell.send_hdr (e : Endian) (r : Routing) (junk : Mem) (c : UDP_Cell) : Bytes :=
  if c.first r then first_frag_udp_hdr e junk c.buff c.total_len
  else c.buff.take SIZEOF_UDP_HEADER

def UDP_Cell.offer (e : Endian) (r : Routing) (junk : Mem) (c : UDP_Cell) (sent_bytes : ℕ) :
    Bytes :=
  if sent_bytes < SIZEOF_INT32 then
    (int32 e (c.send_bytes r)).drop sent_bytes ++ c.send_hdr e r junk ++ payload c.buff
  else if sent_bytes < SIZEOF_UDP_HEADER + SIZEOF_INT32 then
    (c.send_hdr e r junk).drop (sent_bytes - SIZEOF_INT32) ++ payload c.buff
  else (payload c.buff).drop (sent_bytes - SIZEOF_INT32 - SIZEOF_UDP_HEADER)

/-- The loop over `rel_deliver_buff`. A write of nothing ends it, and nobody attaches
`WRITE_FD` again. Every copied header is in a new buffer. -/
def Session.write_loop (e : Endian) (junk : ℕ → Mem) :
    List UDP_Cell → Session → List Ret → Option Written
  | [], ses, rets => some ⟨{ ses with rel_deliver_buff := [] }, [], .BUFF_EMPTY, rets⟩
  | c :: cs, ses, rets => do
      let d ← drain true (c.offer e ses.routing_used (junk cs.length))
        (SIZEOF_INT32 + c.buff.length) rets ses.sent_bytes
      let stopped := { ses with rel_deliver_buff := c :: cs, sent_bytes := d.pos }
      match d.stop with
      | .blocked => some ⟨{ stopped with write_desc := true }, d.out, .BUFF_OK, d.rest⟩
      | .zero => some ⟨stopped, d.out, .BUFF_OK, d.rest⟩
      | .broken => some ⟨stopped.close, d.out, .BUFF_OK, d.rest⟩
      | .done =>
        let sent_bytes :=
          if c.more ses.routing_used then SIZEOF_UDP_HEADER + SIZEOF_INT32 else 0
        let w ← write_loop e junk cs { ses with sent_bytes := sent_bytes } d.rest
        return { w with out := d.out ++ w.out }

/-- `none` is the exit when `WRITE_FD` was not attached. -/
def Session_Write (e : Endian) (junk : ℕ → Mem) (ses : Session) (rets : List Ret) :
    Option Written :=
  if ses.write_desc then
    Session.write_loop e junk ses.rel_deliver_buff { ses with write_desc := false } rets
  else none

/-! ## 6. Runs -/

inductive Event
  | deliver (flags : ℕ) (buff : Bytes) (rets : List Ret)
  | deliver_fragmented (flags : ℕ) (frags : List Bytes) (junk : Mem) (rets : List Ret)
  | write (junk : ℕ → Mem) (rets : List Ret)

def Event.rets : Event → List Ret
  | .deliver _ _ rets => rets
  | .deliver_fragmented _ _ _ rets => rets
  | .write _ rets => rets

def Session.step (e : Endian) (ses : Session) : Event → Option Written
  | .deliver flags buff rets => ses.deliver_packet e flags buff rets
  | .deliver_fragmented flags frags junk rets => ses.deliver_fragmented e flags junk frags rets
  | .write junk rets => Session_Write e junk ses rets

/-- Routings for which `Session_Deliver_Data` looks for fragments. -/
def Routing.Fragments (r : Routing) : Prop := r = .min_weight ∨ r = .source_based

structure Packet (r : Routing) (buff : Bytes) : Prop where
  header : SIZEOF_UDP_HEADER ≤ buff.length
  whole : r.Fragments → frag_num buff ≤ 1

structure Complete (r : Routing) (frags : List Bytes) : Prop where
  routing : r.Fragments
  several : 2 ≤ frags.length
  header : ∀ buff ∈ frags, SIZEOF_UDP_HEADER ≤ buff.length
  numbered : ∀ (i : ℕ) buff, frags[i]? = some buff →
    frag_num buff = frags.length ∧ frag_idx buff = i

def Session.Enabled (ses : Session) : Event → Prop
  | .deliver flags buff _ =>
    ses.closed = false ∧ (flags = 1 ∨ flags = 2 ∨ flags = 3) ∧ Packet ses.routing_used buff
  | .deliver_fragmented flags frags _ _ =>
    ses.closed = false ∧ (flags = 1 ∨ flags = 2 ∨ flags = 3) ∧ Complete ses.routing_used frags
  | .write _ _ => ses.closed = false ∧ ses.write_desc = true

/-- A byte of a frame; `none` is one that nobody has set. -/
abbrev Pattern := List (Option UInt8)

/-- The header that is a copy: `reserved32` and the padding are not copied. -/
def copied_header (e : Endian) (buff : Bytes) (total_len : ℕ) : Pattern :=
  (buff.take 8).map some ++ List.replicate 4 none ++ ((buff.drop 12).take 4).map some ++
    (e.order (le_bytes 2 (total_len - SIZEOF_UDP_HEADER))).map some ++
    ((buff.drop 18).take 8).map some ++ List.replicate 2 none

def packet_frame (e : Endian) (buff : Bytes) : Pattern :=
  (int32 e buff.length ++ buff).map some

/-- The frame of a packet in fragments: the length of the whole, the first header with
that length, and all payloads. -/
def fragmented_frame (e : Endian) (frags : List Bytes) : Pattern :=
  (int32 e (sum_len frags)).map some ++ copied_header e (frags.headD []) (sum_len frags) ++
    (frags.flatMap payload).map some

def Event.frame (e : Endian) : Event → Pattern
  | .deliver _ buff _ => packet_frame e buff
  | .deliver_fragmented _ frags _ _ => fragmented_frame e frags
  | .write _ _ => []

/-- A session, everything its socket took, and the frames of everything that was not
dropped, one after the other. -/
structure World where
  ses : Session
  written : Bytes
  expected : Pattern

def World.Step (e : Endian) (w : World) (ev : Event) (w' : World) : Prop :=
  w.ses.Enabled ev ∧ Ret.error ∉ ev.rets ∧
    ∃ r, w.ses.step e ev = some r ∧ r.rest = [] ∧ w'.ses = r.ses ∧
      w'.written = w.written ++ r.out ∧
      w'.expected = if r.status = .BUFF_DROP then w.expected else w.expected ++ ev.frame e

structure World.Initial (w : World) : Prop where
  buff : w.ses.rel_deliver_buff = []
  written : w.written = []
  expected : w.expected = []

def Fits (x : UInt8) (p : Option UInt8) : Prop := ∀ y ∈ p, x = y

def World.InOrder (w : World) : Prop :=
  ∃ front rest, w.expected = front ++ rest ∧ List.Forall₂ Fits w.written front

end Spines.Outgoing
