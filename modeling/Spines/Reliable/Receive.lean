/-
`daemon/reliable_session.c` and `Session_Write`: the receiving half of a reliable session,
from the packets of the other side to the socket of the client.

Data packets wait in `recv_window` until those before them are there. In order they go to
the client (`Net_Rel_Sess_Send`), or into `rel_deliver_buff` when the socket would block,
and `Session_Write` goes on from there. The other side announces the end of its stream
with a `HELLO_DISCNCT` that has its next sequence number.

The sending half is only there for `head`, which acknowledgements are compared with. The
hellos and acknowledgements that are sent, and their timers, are left out. A hello can
complete the handshake of a session whose client has gone; then the daemon writes to a
socket that it has closed, and the model has no value. A packet is modelled with the fields
that are read, in host order. A client gets neither length nor headers, so of what the
writers offer at a position below 40 nothing is ever asked for.
-/
import Spines.Outgoing.Stream

set_option autoImplicit false

namespace Spines.Reliable

open Spines.Lib Function
open Spines.Outgoing (Bytes SIZEOF_INT32 SIZEOF_UDP_HEADER MAX_BUFF_SESS)

/-! ## 1. Packets and sessions -/

def SIZEOF_REL_UDP_PKT_ADD : ℕ := 8
def SIZEOF_SES_HELLO_PACKET : ℕ := 16
def MAX_WINDOW : ℕ := 20000

/-- `r_add->type`. -/
inductive Kind
  | data
  | link_ack
  | hello
  | hello_discnct
  | hello_close
  deriving DecidableEq, Repr

/-- `seq_no` is the one of the tail, or of the hello. -/
structure Packet where
  buff : Bytes
  type : Kind
  ack_len : ℕ
  seq_no : ℕ
  cummulative_ack : ℕ
  orig_port : ℕ
  seq_no_lt : seq_no < 2 ^ 32

/-- The `data_bytes` bytes of the packet. -/
def Packet.data (p : Packet) : Bytes := p.buff.take (p.buff.length - p.ack_len)

def START : ℕ := SIZEOF_INT32 + SIZEOF_UDP_HEADER + SIZEOF_REL_UDP_PKT_ADD

/-- `total_bytes`. -/
def Packet.total (p : Packet) : ℕ := SIZEOF_INT32 + p.data.length

def Packet.offer (p : Packet) (sent_bytes : ℕ) : Bytes := p.data.drop (sent_bytes - SIZEOF_INT32)

/-- `flag` is `RECVD_CELL`. -/
structure Recv_Cell where
  flag : Bool
  buff : Option Packet

inductive Client_Stat
  | on
  | off
  | orphan
  deriving DecidableEq, Repr

inductive Link_Flags
  | connect_wait
  | accept_wait
  | connected
  | disconnect
  deriving DecidableEq, Repr

/-- The fields of `Session` and its `Reliable_Data`; `connect_state` says whether it is
`DISCONNECT_LINK`. -/
structure Session where
  client_stat : Client_Stat
  rel_orig_port : ℕ
  flags : Link_Flags
  connect_state : Bool
  last_seq_sent : ℕ
  head : ℕ
  recv_head : ℕ
  recv_tail : ℕ
  recv_window : ℕ → Recv_Cell
  rel_deliver_buff : List Packet
  sent_bytes : ℕ
  /-- `fd_flags & WRITE_DESC`: `WRITE_FD` is attached. -/
  write_desc : Bool
  /-- After `Session_Close`. -/
  closed : Bool

/-- Why a client was disconnected: the stream was complete, the buffer was full, a write
failed, the client left, or the session was closed. -/
inductive Cause
  | announced
  | full
  | broken
  | left
  | closed
  deriving DecidableEq, Repr

/-- What a handler does: the session after it, what the socket took, the packets that were
accepted for the client, why it was disconnected if it was, and the answers of the socket
that were not asked for. -/
structure Handled where
  ses : Session
  out : Bytes
  accepted : List Packet
  cause : Option Cause
  rest : List Ret

def Session.unchanged (ses : Session) (rets : List Ret) : Handled := ⟨ses, [], [], none, rets⟩

/-- `Disconnect_Reliable_Session`. -/
def Session.disconnect (ses : Session) : Session :=
  { ses with client_stat := .orphan, rel_deliver_buff := [], write_desc := false }

/-- `Session_Close`. -/
def Session.close (ses : Session) : Session := { ses with closed := true }

/-! ## 2. Writers -/

def Session.Net_Rel_Sess_Send (ses : Session) (p : Packet) (rets : List Ret) : Option Handled :=
  match ses.client_stat with
  | .off => some (ses.unchanged rets)
  | .orphan => none
  | .on =>
    (drain false p.offer p.total rets START).map fun d =>
      match d.stop with
      | .done => ⟨{ ses with sent_bytes := 0 }, d.out, [p], none, d.rest⟩
      | .broken =>
        ⟨{ ses with sent_bytes := d.pos }.disconnect, d.out, [], some .broken, d.rest⟩
      | _ =>
        ⟨{ ses with rel_deliver_buff := ses.rel_deliver_buff ++ [p], sent_bytes := d.pos,
                    write_desc := true }, d.out, [p], none, d.rest⟩

def Handled.check (h : Handled) : Handled :=
  if h.cause = none ∧ h.ses.connect_state = true ∧ h.ses.recv_tail = h.ses.last_seq_sent ∧
      h.ses.rel_deliver_buff = [] then
    { h with ses := h.ses.disconnect, cause := some .announced }
  else h

/-- The loop of `Session_Write`; the check behind it is made only when nothing is left. -/
def Session.write_loop : List Packet → Session → List Ret → Option Handled
  | [], ses, rets => some (Session.unchanged { ses with rel_deliver_buff := [] } rets).check
  | p :: ps, ses, rets => do
      let d ← drain true p.offer p.total rets (if ses.sent_bytes = 0 then START else ses.sent_bytes)
      let stopped := { ses with rel_deliver_buff := p :: ps, sent_bytes := d.pos }
      match d.stop with
      | .blocked => some ⟨{ stopped with write_desc := true }, d.out, [], none, d.rest⟩
      | .zero => some ⟨stopped, d.out, [], none, d.rest⟩
      | .broken => some ⟨stopped.disconnect, d.out, [], some .broken, d.rest⟩
      | .done =>
        let h ← write_loop ps { ses with sent_bytes := 0 } d.rest
        return { h with out := d.out ++ h.out }

def Session_Write (ses : Session) (rets : List Ret) : Option Handled :=
  if ses.write_desc then
    Session.write_loop ses.rel_deliver_buff { ses with write_desc := false } rets
  else none

/-! ## 3. Data packets -/

/-- The part of `Process_Sess_Ack` that looks at the receiving window: -1 for an
acknowledgement, 0 for a packet that is not needed. -/
def Process_Sess_Ack (ses : Session) (p : Packet) : Session × ℤ :=
  if ses.head < p.cummulative_ack then (ses, 0)
  else if p.type = .link_ack then (ses, -1)
  else if ses.recv_tail < p.seq_no ∧ MAX_WINDOW ≤ p.seq_no - ses.recv_tail then (ses, 0)
  else
    let cell := ses.recv_window (p.seq_no % MAX_WINDOW)
    if cell.flag = true ∨ p.seq_no < ses.recv_tail then (ses, 0)
    else
      ({ ses with
          recv_head := if ses.recv_head ≤ p.seq_no then (p.seq_no + 1) % 2 ^ 32 else ses.recv_head,
          recv_window :=
            update ses.recv_window (p.seq_no % MAX_WINDOW) { cell with flag := true } }, 1)

def Session.store (ses : Session) (p : Packet) : Session :=
  { ses with
    recv_window := update ses.recv_window (p.seq_no % MAX_WINDOW) ⟨true, some p⟩ }

/-- Take the packet at `recv_tail` out of the window. -/
def Session.take (ses : Session) : Session :=
  { ses with
    recv_window := update ses.recv_window (ses.recv_tail % MAX_WINDOW) ⟨false, none⟩,
    recv_tail := (ses.recv_tail + 1) % 2 ^ 32 }

/-- Packet `p`, at `recv_tail`, goes behind what waits already, or to the client. -/
def Session.deliver (ses : Session) (p : Packet) (rets : List Ret) : Option Handled :=
  if ses.rel_deliver_buff ≠ [] then
    some ⟨{ ses with rel_deliver_buff := ses.rel_deliver_buff ++ [p] }.take, [], [p], none, rets⟩
  else
    (ses.Net_Rel_Sess_Send p rets).map fun h =>
      if h.cause = none then { h with ses := h.ses.take } else h

/-- The loop over the window, with `n` places left up to `recv_head`. A cell that was
received has a packet. -/
def Session.deliver_rest : ℕ → Session → List Ret → Option Handled
  | 0, ses, rets => some (ses.unchanged rets)
  | n + 1, ses, rets =>
    let cell := ses.recv_window (ses.recv_tail % MAX_WINDOW)
    if cell.flag then do
      let p ← cell.buff
      let h ← ses.deliver p rets
      if h.cause ≠ none then return h
      let h' ← deliver_rest n h.ses h.rest
      return { h' with out := h.out ++ h'.out, accepted := h.accepted ++ h'.accepted }
    else some (ses.unchanged rets)

def Session.deliver_in_order (ses : Session) (p : Packet) (rets : List Ret) :
    Option Handled := do
  let h ← ses.deliver p rets
  if h.cause ≠ none then return h
  let h' ← h.ses.deliver_rest (h.ses.recv_head - h.ses.recv_tail) h.rest
  return Handled.check { h' with out := h.out ++ h'.out, accepted := h.accepted ++ h'.accepted }

/-! ## 4. Hellos -/

def SIZEOF_HELLO : ℕ := SIZEOF_SES_HELLO_PACKET + SIZEOF_UDP_HEADER + SIZEOF_REL_UDP_PKT_ADD

/-- A client that is there is disconnected at once when the announced number is the one
that is waited for. -/
def Session.Process_Rel_Ses_Hello (ses : Session) (p : Packet) (rets : List Ret) : Option Handled :=
  if p.buff.length ≠ SIZEOF_HELLO then some (ses.unchanged rets)
  else if ses.rel_orig_port ≠ p.orig_port then some (ses.unchanged rets)
  else
    match p.type with
    | .hello =>
      if ses.flags = .connect_wait ∨ ses.flags = .accept_wait then
        { ses with flags := .connected }.Net_Rel_Sess_Send p rets
      else some (ses.unchanged rets)
    | .hello_discnct =>
      if ses.connect_state then some (ses.unchanged rets)
      else if ses.client_stat = .on then
        let ses' := { ses with connect_state := true }
        if p.seq_no = ses.recv_tail then some ⟨ses'.disconnect, [], [], some .announced, rets⟩
        else some (Session.unchanged { ses' with last_seq_sent := p.seq_no } rets)
      else some ⟨{ ses with flags := .disconnect }.close, [], [], some .closed, rets⟩
    | .hello_close =>
      if ses.connect_state then some ⟨ses.close, [], [], some .closed, rets⟩
      else some (ses.unchanged rets)
    | _ => some (ses.unchanged rets)

def Deliver_Rel_UDP_Data (ses : Session) (p : Packet) (rets : List Ret) : Option Handled :=
  if p.type = .hello then
    if ses.flags ≠ .connect_wait ∧ ses.flags ≠ .accept_wait then some (ses.unchanged rets)
    else ses.Process_Rel_Ses_Hello p rets
  else if p.type = .hello_discnct ∨ p.type = .hello_close then
    if ses.flags ≠ .connected then some (ses.unchanged rets)
    else ses.Process_Rel_Ses_Hello p rets
  else if ses.flags ≠ .connected then some (ses.unchanged rets)
  else
    let (ses', flag) := Process_Sess_Ack ses p
    if ses'.client_stat ≠ .on then some (ses'.unchanged rets)
    else if flag = -1 then some (ses'.unchanged rets)
    else if ses'.rel_deliver_buff ≠ [] ∧ 3 * MAX_BUFF_SESS ≤ ses'.rel_deliver_buff.length then
      some ⟨ses'.disconnect, [], [], some .full, rets⟩
    else if flag = 0 then some (ses'.unchanged rets)
    else if p.seq_no ≠ ses'.recv_tail then some ((ses'.store p).unchanged rets)
    else (ses'.store p).deliver_in_order p rets

/-! ## 5. Runs -/

/-- A packet is received, the socket can be written again, the client leaves, or the
sending half goes on. The answers of the socket are part of an event. -/
inductive Event
  | receive (p : Packet) (rets : List Ret)
  | write (rets : List Ret)
  | leave
  | send (head : ℕ)

def Session.step (ses : Session) : Event → Option Handled
  | .receive p rets => Deliver_Rel_UDP_Data ses p rets
  | .write rets => Session_Write ses rets
  | .leave => some ⟨ses.disconnect, [], [], some .left, []⟩
  | .send head => some (Session.unchanged { ses with head := head } [])

/-- `WRITE_FD` of a session is not attached any more when its client has gone. -/
def Session.Enabled (ses : Session) : Event → Prop
  | .receive _ _ => ses.closed = false
  | .write _ => ses.closed = false ∧ ses.client_stat = .on ∧ ses.write_desc = true
  | .leave => ses.closed = false ∧ ses.client_stat = .on
  | .send _ => ses.closed = false

/-- A session, all its socket took before the client was disconnected, the packets that
were accepted for the client in order, why the client was disconnected, and the numbers
that the other side has announced. -/
structure World where
  ses : Session
  written : Bytes
  accepted : List Packet
  cause : Option Cause
  announcements : List ℕ

def Event.announcement : Event → List ℕ
  | .receive p _ => if p.type = .hello_discnct then [p.seq_no] else []
  | _ => []

def World.Step (w : World) (ev : Event) (w' : World) : Prop :=
  w.ses.Enabled ev ∧ ∃ h, w.ses.step ev = some h ∧ h.rest = [] ∧ w'.ses = h.ses ∧
    w'.written = w.written ++ h.out ∧ w'.accepted = w.accepted ++ h.accepted ∧
    w'.cause = (w.cause <|> h.cause) ∧ w'.announcements = w.announcements ++ ev.announcement

/-- A session before the handshake is completed. `Init_Reliable_Session` leaves
`connect_state` and `last_seq_sent` as they were in the memory it got. -/
structure World.Initial (w : World) : Prop where
  client : w.ses.client_stat = .on
  flags : w.ses.flags = .connect_wait ∨ w.ses.flags = .accept_wait
  tail : w.ses.recv_tail = 0
  window : ∀ i, w.ses.recv_window i = ⟨false, none⟩
  buff : w.ses.rel_deliver_buff = []
  written : w.written = []
  accepted : w.accepted = []
  cause : w.cause = none
  announcements : w.announcements = []

def Packet.payload (p : Packet) : Bytes := p.data.drop (SIZEOF_UDP_HEADER + SIZEOF_REL_UDP_PKT_ADD)

def World.data (w : World) : List Packet := w.accepted.filter (·.type = .data)

/-- If the client was disconnected because the stream was complete, then an announced
number is the number of data packets that were accepted, these are all there were, in
order, and every byte of them was written. Sequence numbers have 32 bits. -/
def World.Complete (w : World) : Prop :=
  w.cause = some .announced →
    (∃ n ∈ w.announcements, w.data.length % 2 ^ 32 = n) ∧
    (∀ (k : ℕ) p, w.data[k]? = some p → p.seq_no = k % 2 ^ 32) ∧
    w.written = w.accepted.flatMap Packet.payload

end Spines.Reliable
