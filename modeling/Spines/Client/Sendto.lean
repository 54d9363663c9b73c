/-
`libspines/spines_lib.c`: `spines_sendto`, `spines_send` and `spines_setsockopt` on a
socket that is connected over TCP.

A call checks its arguments, and then writes one frame to the stream with one or two
`send()`s; only the payload of `spines_sendto` is written in a loop. A `send()` may
take a part of what it is given. Where the call does not go on from there it returns
an error, with the front of a frame on the stream, and the daemon takes the front of
the next frame for the rest of this one.

There is one more way to fall out of step. `spines_send` allows as many bytes as
`spines_sendto` but adds a header of its own, and for the last eight lengths the frame
is longer than `Session_Read` allows.
-/
import Spines.Client.Messages
import Spines.Lib.Drain

set_option autoImplicit false

namespace Spines.Client

open Spines.Lib Option List

/-! ## 1. The frames -/

inductive SockType
  | SOCK_STREAM
  | SOCK_DGRAM
  deriving DecidableEq, Repr

/-- An entry of `all_clients`, without the descriptors. -/
structure Lib_Client where
  type : SockType
  connect_addr : ℕ
  /-- -1 before `spines_connect` -/
  connect_port : ℤ
  ip_ttl : ℕ
  mcast_ttl : ℕ
  routing : ℕ

def Is_mcast_addr (x : ℕ) : Bool := x &&& 0xF0000000 == 0xE0000000 || x &&& 0xFFFFFF00 == 0xFEFF0000
def Is_acast_addr (x : ℕ) : Bool := x &&& 0xF0000000 == 0xF0000000 && x &&& 0xFFFFFF00 != 0xFEFF0000

def SIZEOF_SENDTO_HEAD : ℕ := 32
def SIZEOF_SEND_HEAD : ℕ := 40
def SIZEOF_REQUEST : ℕ := 64

section Packets

variable (e : Endian) (cl : Lib_Client) (junk : Mem)

/-- Length and header of `spines_sendto`. What is not stored is what the buffer had in
it. -/
def sendto_pkt (len address port : ℕ) : Mem :=
  let m := junk.store e 4 4 0
  let m := m.store e 8 4 address
  let m := m.store e 18 2 port
  let m := m.store e 20 2 len
  let m := m.store e 28 1
    (if Is_mcast_addr address || Is_acast_addr address then cl.mcast_ttl else cl.ip_ttl)
  let m := m.store e 29 1 cl.routing
  m.store e 0 4 (len + sizeof_udp_header)

/-- Length, header and `rel_udp_pkt_add` of `spines_send`. -/
def send_pkt (len : ℕ) : Mem :=
  let m := junk.store e 4 4 0
  let m := m.store e 8 4 0
  let m := m.store e 18 2 0
  let m := m.store e 20 2 (len + sizeof_rel_udp_pkt_add)
  let m := m.store e 28 1 cl.ip_ttl
  let m := m.store e 29 1 cl.routing
  let m := m.store e 32 4 (ARCH_ENDIAN e)
  let m := m.store e 36 2 len
  let m := m.store e 38 2 0
  m.store e 0 4 (len + sizeof_udp_header + sizeof_rel_udp_pkt_add)

structure Request where
  type : ℕ
  size : ℕ
  source : ℕ
  dest : ℕ
  response_expected : Bool

/-- The frame of `spines_setsockopt`: a header of zeros, the type, and the command. -/
def request_pkt (rq : Request) : Mem :=
  let m := junk.store e 4 4 0
  let m := m.store e 8 4 0
  let m := m.store e 20 2 0
  let m := m.store e 32 4 rq.type
  let m := m.store e 36 4 rq.source
  let m := m.store e 40 4 rq.dest
  let m := m.store e 50 2 0
  let m := m.store e 52 2 0
  m.store e 0 4 (2 * sizeof_udp_header + sizeof_int32)

end Packets

/-! ## 2. The calls -/

structure Sent where
  ret : ℤ
  out : List UInt8
  rest : List Ret

/-- One `send()` with the next answer of the socket. There is no such call where the
answer is more than was offered. -/
def send (buf : List UInt8) : List Ret → Option Sent
  | [] => none
  | .wrote n :: rets => if buf.length < n then none else some ⟨n, buf.take n, rets⟩
  | .again :: rets => some ⟨-1, [], rets⟩
  | .error :: rets => some ⟨-1, [], rets⟩

/-- What a call returns, has put on the stream, and leaves in `all_clients`. -/
structure Put where
  ret : ℤ
  out : List UInt8
  client : Lib_Client

section Calls

variable (e : Endian) (cl : Lib_Client) (junk : Mem)

/-- `spines_sendto_internal`, "Force TCP". -/
def tcp_sendto (msg : List UInt8) (address port : ℕ) (rets : List Ret) : Option Put :=
  (send ((sendto_pkt e cl junk msg.length address port).bytes 0 SIZEOF_SENDTO_HEAD) rets).bind
    fun (h : Sent) =>
      if h.ret ≠ SIZEOF_SENDTO_HEAD then some ⟨-1, h.out, cl⟩
      else
        (drain true msg.drop msg.length h.rest 0).map fun d =>
          if d.pos ≠ msg.length then ⟨-1, h.out ++ d.out, cl⟩
          else ⟨msg.length, h.out ++ d.out, cl⟩

/-- `spines_send` on a stream socket. The payload gets one `send()`. -/
def stream_send (msg : List UInt8) (rets : List Ret) : Option Put :=
  (send ((send_pkt e cl junk msg.length).bytes 0 SIZEOF_SEND_HEAD) rets).bind fun (h : Sent) =>
    if h.ret ≠ SIZEOF_SEND_HEAD then some ⟨-1, h.out, cl⟩
    else
      (send msg h.rest).map fun (b : Sent) =>
        if b.ret ≠ msg.length then ⟨-1, h.out ++ b.out, cl⟩ else ⟨b.ret, h.out ++ b.out, cl⟩

def spines_sendto (msg : List UInt8) (address port : ℕ) (rets : List Ret) : Option Put :=
  if MAX_SPINES_CLIENT_MSG < msg.length then some ⟨-1, [], cl⟩
  else if port = 0 then some ⟨-1, [], cl⟩
  else if cl.type = .SOCK_STREAM then stream_send e cl junk msg rets
  else tcp_sendto e cl junk msg address port rets

def spines_send (msg : List UInt8) (rets : List Ret) : Option Put :=
  if MAX_SPINES_CLIENT_MSG < msg.length then some ⟨-1, [], cl⟩
  else if cl.type = .SOCK_DGRAM then
    if cl.connect_port = -1 then some ⟨-1, [], cl⟩
    else spines_sendto e cl junk msg cl.connect_addr (to_word 2 cl.connect_port) rets
  else stream_send e cl junk msg rets

inductive Optname
  | SPINES_ADD_MEMBERSHIP
  | SPINES_DROP_MEMBERSHIP
  | SPINES_MULTICAST_LOOP
  | SPINES_IP_TTL
  | SPINES_IP_MULTICAST_TTL
  | SPINES_ADD_NEIGHBOR
  | SPINES_TRACEROUTE
  | SPINES_EDISTANCE
  | SPINES_MEMBERSHIP
  | SPINES_SET_DELIVERY
  | SPINES_SET_PRIORITY
  | SPINES_SET_EXPIRATION
  | SPINES_DISJOINT_PATHS
  | other
  deriving DecidableEq, Repr

def sizeof_ip_mreq : ℕ := 8
def sizeof_spines_trace : ℕ := 1032

/-- `sin_addr` of a `struct sockaddr_in`, `imr_multiaddr` of a `struct ip_mreq`. -/
def sin_addr (optval : Mem) : ℕ := optval.load .big 4 4
def imr_multiaddr (optval : Mem) : ℕ := optval.load .big 0 4

def char_value (b : UInt8) : ℕ := to_word 4 (of_word 1 b.toNat)

def Optname.request (optval : Mem) : Optname → Option Request
  | .SPINES_ADD_MEMBERSHIP => some ⟨5, sizeof_ip_mreq, 0, imr_multiaddr optval, false⟩
  | .SPINES_DROP_MEMBERSHIP => some ⟨6, sizeof_ip_mreq, 0, imr_multiaddr optval, false⟩
  | .SPINES_MULTICAST_LOOP => some ⟨13, 1, 0, char_value (optval 0), false⟩
  | .SPINES_TRACEROUTE => some ⟨21, sizeof_spines_trace, 0, sin_addr optval, true⟩
  | .SPINES_EDISTANCE => some ⟨22, sizeof_spines_trace, 0, sin_addr optval, true⟩
  | .SPINES_MEMBERSHIP => some ⟨23, sizeof_spines_trace, 0, sin_addr optval, true⟩
  | .SPINES_ADD_NEIGHBOR => some ⟨12, sizeof_sockaddr_in, 0, sin_addr optval, false⟩
  | .SPINES_SET_DELIVERY => some ⟨24, 2, 0, optval.load e 0 2, false⟩
  | .SPINES_SET_PRIORITY => some ⟨25, 2, 0, optval.load e 0 2, false⟩
  | .SPINES_SET_EXPIRATION => some ⟨26, 8, optval.load e 0 4, optval.load e 4 4, false⟩
  | .SPINES_DISJOINT_PATHS => some ⟨27, 2, 0, optval.load e 0 2, false⟩
  | .SPINES_IP_TTL | .SPINES_IP_MULTICAST_TTL | .other => none

/-- The end of `spines_setsockopt`; `response` is what `spines_recvfrom` returns on the
control channel. -/
def request_send (rq : Request) (response : ℤ) (rets : List Ret) : Option Put :=
  (send ((request_pkt e junk rq).bytes 0 SIZEOF_REQUEST) rets).map fun (h : Sent) =>
    if h.ret ≠ SIZEOF_REQUEST then ⟨-1, h.out, cl⟩
    else if rq.response_expected = true ∧ response ≤ 0 then ⟨-1, h.out, cl⟩
    else ⟨0, h.out, cl⟩

def spines_setsockopt (optname : Optname) (optval : Mem) (optlen : ℕ) (response : ℤ)
    (rets : List Ret) : Option Put :=
  if optname = .other then some ⟨-1, [], cl⟩
  else if cl.type = .SOCK_STREAM then some ⟨-1, [], cl⟩
  -- the TTL is only recorded
  else if optname = .SPINES_IP_TTL then some ⟨0, [], { cl with ip_ttl := (optval 0).toNat }⟩
  else if optname = .SPINES_IP_MULTICAST_TTL then
    some ⟨0, [], { cl with mcast_ttl := (optval 0).toNat }⟩
  else
    match optname.request e optval with
    | none => some ⟨-1, [], cl⟩
    | some rq =>
      if optlen < rq.size then some ⟨-1, [], cl⟩ else request_send e cl junk rq response rets

end Calls

inductive Call
  | sendto (msg : List UInt8) (address port : ℕ)
  | send (msg : List UInt8)
  | setsockopt (optname : Optname) (optval : Mem) (optlen : ℕ) (response : ℤ)

structure Made where
  call : Call
  junk : Mem
  rets : List Ret

def Made.run (e : Endian) (cl : Lib_Client) (m : Made) : Option Put :=
  match m.call with
  | .sendto msg address port => spines_sendto e cl m.junk msg address port m.rets
  | .send msg => spines_send e cl m.junk msg m.rets
  | .setsockopt optname optval optlen response =>
    spines_setsockopt e cl m.junk optname optval optlen response m.rets

/-- A call that has returned, with the entry of `all_clients` before it. -/
structure Done where
  client : Lib_Client
  made : Made
  put : Put

def run_calls (e : Endian) : Lib_Client → List Made → Option (List Done)
  | _, [] => some []
  | cl, m :: ms =>
    (m.run e cl).bind fun p => (run_calls e p.client ms).map fun ds => ⟨cl, m, p⟩ :: ds

/-! ## 3. What a call puts on the stream -/

inductive Path
  | sendto (msg : List UInt8) (address port : ℕ)
  | stream (msg : List UInt8)
  | request (rq : Request) (response : ℤ)

/-- `none` for a call that is refused, or that is only recorded. -/
def Made.path (e : Endian) (cl : Lib_Client) (m : Made) : Option Path :=
  match m.call with
  | .sendto msg address port =>
    if MAX_SPINES_CLIENT_MSG < msg.length ∨ port = 0 then none
    else if cl.type = .SOCK_STREAM then some (.stream msg)
    else some (.sendto msg address port)
  | .send msg =>
    if MAX_SPINES_CLIENT_MSG < msg.length then none
    else if cl.type = .SOCK_STREAM then some (.stream msg)
    else if cl.connect_port = -1 ∨ to_word 2 cl.connect_port = 0 then none
    else some (.sendto msg cl.connect_addr (to_word 2 cl.connect_port))
  | .setsockopt optname optval optlen response =>
    if cl.type = .SOCK_STREAM then none
    else
      match optname.request e optval with
      | none => none
      | some rq => if optlen < rq.size then none else some (.request rq response)

def Path.run (e : Endian) (cl : Lib_Client) (m : Made) : Path → Option Put
  | .sendto msg address port => tcp_sendto e cl m.junk msg address port m.rets
  | .stream msg => stream_send e cl m.junk msg m.rets
  | .request rq response => request_send e cl m.junk rq response m.rets

def Path.body (e : Endian) (cl : Lib_Client) (junk : Mem) : Path → List UInt8
  | .sendto msg address port =>
    (sendto_pkt e cl junk msg.length address port).bytes sizeof_int32 sizeof_udp_header ++ msg
  | .stream msg =>
    (send_pkt e cl junk msg.length).bytes sizeof_int32
      (sizeof_udp_header + sizeof_rel_udp_pkt_add) ++ msg
  | .request rq _ =>
    (request_pkt e junk rq).bytes sizeof_int32 (2 * sizeof_udp_header + sizeof_int32)

def Path.Through (rets : List Ret) : Path → Prop
  | .sendto msg _ _ => ∃ rest, rets = .wrote SIZEOF_SENDTO_HEAD :: rest ∧ AddUp msg.length rest
  | .stream msg => ∃ rest, rets = .wrote SIZEOF_SEND_HEAD :: .wrote msg.length :: rest
  | .request rq response =>
    (∃ rest, rets = .wrote SIZEOF_REQUEST :: rest) ∧ (rq.response_expected = true → 0 < response)

def Silent (rets : List Ret) : Prop := ∀ n rest, rets = .wrote n :: rest → n = 0

variable (e : Endian) (cl : Lib_Client)

theorem run_path (m : Made) :
    (∃ p, m.path e cl = some p ∧ m.run e cl = p.run e cl m) ∨
    (m.path e cl = none ∧ ∃ put, m.run e cl = some put ∧ put.out = [] ∧
      put.client.type = cl.type) := by
  unfold Made.path Made.run
  cases m.call with
  | sendto msg address port =>
    dsimp only
    unfold spines_sendto
    by_cases hlong : MAX_SPINES_CLIENT_MSG < msg.length
    · rw [if_pos hlong, if_pos (.inl hlong)]
      exact .inr ⟨rfl, _, rfl, rfl, rfl⟩
    rw [if_neg hlong]
    by_cases hport : port = 0
    · rw [if_pos hport, if_pos (.inr hport)]
      exact .inr ⟨rfl, _, rfl, rfl, rfl⟩
    rw [if_neg hport, if_neg (not_or.mpr ⟨hlong, hport⟩)]
    by_cases htype : cl.type = .SOCK_STREAM
    · rw [if_pos htype, if_pos htype]
      exact .inl ⟨_, rfl, rfl⟩
    · rw [if_neg htype, if_neg htype]
      exact .inl ⟨_, rfl, rfl⟩
  | send msg =>
    dsimp only
    unfold spines_send
    by_cases hlong : MAX_SPINES_CLIENT_MSG < msg.length
    · rw [if_pos hlong, if_pos hlong]
      exact .inr ⟨rfl, _, rfl, rfl, rfl⟩
    rw [if_neg hlong, if_neg hlong]
    by_cases htype : cl.type = .SOCK_STREAM
    · rw [if_pos htype, if_neg (by rw [htype]; exact SockType.noConfusion)]
      exact .inl ⟨_, rfl, rfl⟩
    have hdgram : cl.type = .SOCK_DGRAM := by
      cases hcl : cl.type with
      | SOCK_STREAM => exact absurd hcl htype
      | SOCK_DGRAM => rfl
    rw [if_neg htype, if_pos hdgram]
    by_cases hconn : cl.connect_port = -1
    · rw [if_pos hconn, if_pos (.inl hconn)]
      exact .inr ⟨rfl, _, rfl, rfl, rfl⟩
    rw [if_neg hconn]
    unfold spines_sendto
    rw [if_neg hlong]
    by_cases hport : to_word 2 cl.connect_port = 0
    · rw [if_pos hport, if_pos (.inr hport)]
      exact .inr ⟨rfl, _, rfl, rfl, rfl⟩
    · rw [if_neg hport, if_neg (not_or.mpr ⟨hconn, hport⟩), if_neg htype]
      exact .inl ⟨_, rfl, rfl⟩
  | setsockopt optname optval optlen response =>
    dsimp only
    unfold spines_setsockopt
    by_cases hother : optname = .other
    · subst hother
      rw [if_pos rfl]
      refine .inr ⟨?_, _, rfl, rfl, rfl⟩
      split <;> rfl
    rw [if_neg hother]
    by_cases htype : cl.type = .SOCK_STREAM
    · rw [if_pos htype, if_pos htype]
      exact .inr ⟨rfl, _, rfl, rfl, rfl⟩
    rw [if_neg htype, if_neg htype]
    by_cases httl : optname = .SPINES_IP_TTL
    · subst httl
      rw [if_pos rfl]
      exact .inr ⟨rfl, _, rfl, rfl, rfl⟩
    rw [if_neg httl]
    by_cases hmcast : optname = .SPINES_IP_MULTICAST_TTL
    · subst hmcast
      rw [if_pos rfl]
      exact .inr ⟨rfl, _, rfl, rfl, rfl⟩
    rw [if_neg hmcast]
    cases optname.request e optval with
    | none => exact .inr ⟨rfl, _, rfl, rfl, rfl⟩
    | some rq =>
      dsimp only
      by_cases hsize : optlen < rq.size
      · rw [if_pos hsize, if_pos hsize]
        exact .inr ⟨rfl, _, rfl, rfl, rfl⟩
      · rw [if_neg hsize, if_neg hsize]
        exact .inl ⟨_, rfl, rfl⟩

variable {rets : List Ret} {m : Made} {put : Put}

theorem send_cases {buf : List UInt8} {h : Sent} (hs : send buf rets = some h) :
    (∃ n rest, rets = .wrote n :: rest ∧ n ≤ buf.length ∧ h = ⟨n, buf.take n, rest⟩) ∨
    ((∀ n rest, rets ≠ .wrote n :: rest) ∧ h.ret = -1 ∧ h.out = []) := by
  cases rets with
  | nil => cases hs
  | cons r rest =>
    cases r with
    | wrote n =>
      rw [send] at hs
      split at hs
      · cases hs
      · exact .inl ⟨n, rest, rfl, by omega, (some.inj hs).symm⟩
    | again =>
      obtain rfl := some.inj hs
      exact .inr ⟨nofun, rfl, rfl⟩
    | error =>
      obtain rfl := some.inj hs
      exact .inr ⟨nofun, rfl, rfl⟩

/-- The front of a frame that goes out in one `send()`: all of it, or the call has
failed and put something on the stream unless the answer was nothing. -/
theorem head_sent {buf : List UInt8} {h : Sent} {size : ℕ} (hs : send buf rets = some h)
    (hbuf : buf.length = size) (hsize : 0 < size) :
    (h.ret = size ↔ ∃ rest, rets = .wrote size :: rest) ∧
      (∀ rest, rets = .wrote size :: rest → h.out = buf ∧ h.rest = rest) ∧
      (h.ret ≠ size → (h.out = [] ↔ Silent rets)) := by
  rcases send_cases hs with ⟨n, rest, rfl, hle, rfl⟩ | ⟨hno, hret, hout⟩
  · refine ⟨?_, ?_, ?_⟩
    · constructor
      · intro heq
        have hn : n = size := Int.natCast_inj.mp heq
        exact ⟨rest, by rw [hn]⟩
      · rintro ⟨rest', heq⟩
        exact congrArg Nat.cast (Ret.wrote.inj (List.cons.inj heq).1)
    · intro rest' heq
      obtain ⟨hr, rfl⟩ := List.cons.inj heq
      obtain rfl := Ret.wrote.inj hr
      exact ⟨take_of_length_le (by omega), rfl⟩
    · intro _
      constructor
      · intro hnil n' rest' heq
        obtain rfl := Ret.wrote.inj (List.cons.inj heq).1
        have hlen := congrArg List.length hnil
        rw [length_take, length_nil] at hlen
        omega
      · intro hsilent
        show buf.take n = []
        rw [hsilent n rest rfl, take_zero]
  · refine ⟨iff_of_false ?_ ?_, ?_, ?_⟩
    · rw [hret]
      omega
    · rintro ⟨rest, heq⟩
      exact hno size rest heq
    · exact fun rest heq => absurd heq (hno size rest)
    · exact fun _ => iff_of_true hout fun n rest heq => absurd heq (hno n rest)

theorem pkt_front (m : Mem) (x n : ℕ) : (m.store e 0 4 x).bytes 0 (sizeof_int32 + n)
      = e.order (le_bytes 4 x) ++ (m.store e 0 4 x).bytes sizeof_int32 n := by
  rw [Mem.bytes_add, zero_add, Mem.store]
  congr 1
  exact Mem.bytes_write (by rw [Endian.order_length, le_bytes_length]; rfl)

theorem sendto_frame (junk : Mem) (msg : List UInt8) (address port : ℕ) :
    (sendto_pkt e cl junk msg.length address port).bytes 0 SIZEOF_SENDTO_HEAD ++ msg
      = message e (Path.body e cl junk (.sendto msg address port)) := by
  have hlen : (Path.body e cl junk (.sendto msg address port)).length
      = msg.length + sizeof_udp_header := by
    rw [Path.body, length_append, Mem.bytes_length, add_comm]
  rw [message, hlen, Path.body, ← append_assoc]
  congr 1
  exact pkt_front e _ _ sizeof_udp_header

theorem stream_frame (junk : Mem) (msg : List UInt8) :
    (send_pkt e cl junk msg.length).bytes 0 SIZEOF_SEND_HEAD ++ msg
      = message e (Path.body e cl junk (.stream msg)) := by
  have hlen : (Path.body e cl junk (.stream msg)).length
      = msg.length + sizeof_udp_header + sizeof_rel_udp_pkt_add := by
    rw [Path.body, length_append, Mem.bytes_length, add_comm, add_assoc]
  rw [message, hlen, Path.body, ← append_assoc]
  congr 1
  exact pkt_front e _ _ (sizeof_udp_header + sizeof_rel_udp_pkt_add)

theorem request_frame (junk : Mem) (rq : Request) (response : ℤ) :
    (request_pkt e junk rq).bytes 0 SIZEOF_REQUEST
      = message e (Path.body e cl junk (.request rq response)) := by
  have hlen : (Path.body e cl junk (.request rq response)).length
      = 2 * sizeof_udp_header + sizeof_int32 := by
    rw [Path.body, Mem.bytes_length]
  rw [message, hlen, Path.body]
  exact pkt_front e _ _ (2 * sizeof_udp_header + sizeof_int32)

/-- **What a call does.** It goes through and puts its frame on the stream, or it
fails; then it has put nothing there only if its first `send()` took nothing. -/
structure Acts (e : Endian) (cl : Lib_Client) (m : Made) (p : Path) (put : Put) : Prop where
  client : put.client = cl
  through : p.Through m.rets → 0 ≤ put.ret ∧ put.out = message e (p.body e cl m.junk)
  fails : ¬p.Through m.rets → put.ret = -1 ∧ (put.out = [] ↔ Silent m.rets)

theorem Path.Through.loud {p : Path} (h : p.Through rets) : ¬Silent rets := by
  intro hsilent
  cases p with
  | sendto msg address port =>
    obtain ⟨rest, hrets, -⟩ := h
    exact absurd (hsilent _ _ hrets) (by decide)
  | stream msg =>
    obtain ⟨rest, hrets⟩ := h
    exact absurd (hsilent _ _ hrets) (by decide)
  | request rq response =>
    obtain ⟨⟨rest, hrets⟩, -⟩ := h
    exact absurd (hsilent _ _ hrets) (by decide)

theorem append_eq_nil_left {α : Type*} {a b : List α} (ha : a ≠ []) : ¬(a ++ b = []) :=
  fun h => ha (append_eq_nil_iff.mp h).1

theorem sendto_acts {e : Endian} {cl : Lib_Client} {msg : List UInt8} {address port : ℕ}
    (h : tcp_sendto e cl m.junk msg address port m.rets = some put) :
    Acts e cl m (.sendto msg address port) put := by
  unfold tcp_sendto at h
  obtain ⟨s, hs, h⟩ := bind_eq_some_iff.mp h
  obtain ⟨hret, hall, hsilent⟩ := head_sent hs Mem.bytes_length
    (show 0 < SIZEOF_SENDTO_HEAD by decide)
  have hframe := sendto_frame e cl m.junk msg address port
  by_cases hhead : s.ret = SIZEOF_SENDTO_HEAD
  · rw [if_neg (not_not.mpr hhead)] at h
    obtain ⟨rest, hrets⟩ := hret.mp hhead
    obtain ⟨hout, hrest⟩ := hall rest hrets
    obtain ⟨d, hd, hput⟩ := map_eq_some_iff.mp h
    have hdone := drain_halt_done hd (Nat.zero_le _) (fun s _ => length_drop)
    have hdrains := drain_spec (fun s _ _ => rfl) (le_refl 0) (Nat.zero_le _) hd
    rw [hrest, Nat.sub_zero] at hdone
    have hloud : ¬Silent m.rets := by
      intro hsil
      have hzero := hsil _ _ hrets
      exact absurd hzero (by decide)
    have hne : s.out ≠ [] := by
      rw [hout]
      exact ne_nil_of_length_pos (by rw [Mem.bytes_length]; decide)
    by_cases hpos : d.pos = msg.length
    · rw [if_neg (not_not.mpr hpos)] at hput
      subst hput
      have hthrough : Path.Through m.rets (.sendto msg address port) := ⟨rest, hrets, hdone.mp hpos⟩
      refine ⟨rfl, fun _ => ⟨Int.natCast_nonneg _, ?_⟩, fun hno => absurd hthrough hno⟩
      have hsplit := hdrains.split
      rw [hpos, drop_zero, drop_length, append_nil] at hsplit
      show s.out ++ d.out = _
      rw [hout, ← hsplit, hframe]
    · rw [if_pos hpos] at hput
      subst hput
      refine ⟨rfl, ?_, fun _ => ⟨rfl, iff_of_false (append_eq_nil_left hne) hloud⟩⟩
      rintro ⟨rest', hrets', hsum⟩
      obtain rfl := (List.cons.inj (hrets.symm.trans hrets')).2
      exact absurd (hdone.mpr hsum) hpos
  · rw [if_pos hhead] at h
    obtain rfl := some.inj h
    refine ⟨rfl, ?_, fun _ => ⟨rfl, hsilent hhead⟩⟩
    rintro ⟨rest, hrets, -⟩
    exact absurd (hret.mpr ⟨rest, hrets⟩) hhead

theorem stream_acts {e : Endian} {cl : Lib_Client} {msg : List UInt8}
    (h : stream_send e cl m.junk msg m.rets = some put) : Acts e cl m (.stream msg) put := by
  unfold stream_send at h
  obtain ⟨s, hs, h⟩ := bind_eq_some_iff.mp h
  obtain ⟨hret, hall, hsilent⟩ := head_sent hs Mem.bytes_length
    (show 0 < SIZEOF_SEND_HEAD by decide)
  have hframe := stream_frame e cl m.junk msg
  by_cases hhead : s.ret = SIZEOF_SEND_HEAD
  · rw [if_neg (not_not.mpr hhead)] at h
    obtain ⟨rest, hrets⟩ := hret.mp hhead
    obtain ⟨hout, hrest⟩ := hall rest hrets
    obtain ⟨b, hb, hput⟩ := map_eq_some_iff.mp h
    have hloud : ¬Silent m.rets := by
      intro hsil
      have hzero := hsil _ _ hrets
      exact absurd hzero (by decide)
    have hne : s.out ≠ [] := by
      rw [hout]
      exact ne_nil_of_length_pos (by rw [Mem.bytes_length]; decide)
    by_cases hbody : b.ret = msg.length
    · rw [if_neg (not_not.mpr hbody)] at hput
      subst hput
      rcases send_cases hb with ⟨n, rest', heq, -, rfl⟩ | ⟨-, hneg, -⟩
      · have hn : n = msg.length := Int.natCast_inj.mp hbody
        subst hn
        rw [hrest] at heq
        have hthrough : Path.Through m.rets (.stream msg) := ⟨rest', by rw [hrets, heq]⟩
        refine ⟨rfl, fun _ => ⟨Int.natCast_nonneg _, ?_⟩, fun hno => absurd hthrough hno⟩
        show s.out ++ msg.take msg.length = _
        rw [hout, take_length, hframe]
      · rw [hneg] at hbody
        omega
    · rw [if_pos hbody] at hput
      subst hput
      refine ⟨rfl, ?_, fun _ => ⟨rfl, iff_of_false (append_eq_nil_left hne) hloud⟩⟩
      rintro ⟨rest', hrets'⟩
      obtain rfl := (List.cons.inj (hrets.symm.trans hrets')).2
      rw [hrest] at hb
      rcases send_cases hb with ⟨n, rest2, heq, -, rfl⟩ | ⟨hno, -, -⟩
      · obtain rfl := Ret.wrote.inj (List.cons.inj heq).1
        exact absurd rfl hbody
      · exact absurd rfl (hno _ _)
  · rw [if_pos hhead] at h
    obtain rfl := some.inj h
    refine ⟨rfl, ?_, fun _ => ⟨rfl, hsilent hhead⟩⟩
    rintro ⟨rest, hrets⟩
    exact absurd (hret.mpr ⟨_, hrets⟩) hhead

theorem request_acts {e : Endian} {cl : Lib_Client} {rq : Request} {response : ℤ}
    (h : request_send e cl m.junk rq response m.rets = some put) :
    Acts e cl m (.request rq response) put := by
  unfold request_send at h
  obtain ⟨s, hs, hput⟩ := map_eq_some_iff.mp h
  obtain ⟨hret, hall, hsilent⟩ := head_sent hs Mem.bytes_length (show 0 < SIZEOF_REQUEST by decide)
  have hframe := request_frame e cl m.junk rq response
  by_cases hhead : s.ret = SIZEOF_REQUEST
  · rw [if_neg (not_not.mpr hhead)] at hput
    obtain ⟨rest, hrets⟩ := hret.mp hhead
    obtain ⟨hout, -⟩ := hall rest hrets
    by_cases hno : rq.response_expected = true ∧ response ≤ 0
    · rw [if_pos hno] at hput
      subst hput
      refine ⟨rfl, fun hthrough => absurd (hthrough.2 hno.1) (by omega), fun _ => ⟨rfl, ?_⟩⟩
      apply iff_of_false
      · rw [hout]
        exact ne_nil_of_length_pos (by rw [Mem.bytes_length]; decide)
      · intro hsil
        have hzero := hsil _ _ hrets
        exact absurd hzero (by decide)
    · rw [if_neg hno] at hput
      subst hput
      have hthrough : Path.Through m.rets (.request rq response) := by
        refine ⟨⟨rest, hrets⟩, fun hexp => ?_⟩
        by_contra hle
        exact hno ⟨hexp, by omega⟩
      exact ⟨rfl, fun _ => ⟨le_rfl, hout.trans hframe⟩, fun hnot => absurd hthrough hnot⟩
  · rw [if_pos hhead] at hput
    subst hput
    refine ⟨rfl, ?_, fun _ => ⟨rfl, hsilent hhead⟩⟩
    rintro ⟨⟨rest, hrets⟩, -⟩
    exact absurd (hret.mpr ⟨rest, hrets⟩) hhead

theorem path_acts {e : Endian} {cl : Lib_Client} {p : Path} (h : p.run e cl m = some put) :
    Acts e cl m p put := by
  cases p with
  | sendto msg address port => exact sendto_acts h
  | stream msg => exact stream_acts h
  | request rq response => exact request_acts h

/-! ## 4. Call after call -/

/-- What the call has to be for `Session_Read`: of an option that is only recorded, or of
a call that has failed, nothing. -/
def Done.body (e : Endian) (d : Done) : Option (List UInt8) :=
  if 0 ≤ d.put.ret then (d.made.path e d.client).map (Path.body e d.client d.made.junk) else none

def bodies (e : Endian) (ds : List Done) : List (List UInt8) := ds.filterMap (Done.body e)

def put_out (ds : List Done) : List UInt8 := ds.flatMap fun d => d.put.out

/-- The stream is the frames of the calls that have returned success, and every reader
of it hands these over, one by one. -/
structure Framed_calls (e : Endian) (type : SockType) (ds : List Done) : Prop where
  frames : put_out ds = (bodies e ds).flatMap (message e)
  parsed : ∀ (δ : Type) (e' : Endian) (d : Daemon δ) (st st' : Reader δ) (cs : List (List UInt8)),
    d.Serves e' → st.ses.Between → Known st.ses.routing_used → st.ses.From e' e →
    st.ses.r_data = decide (type = .SOCK_STREAM) → Full cs → cs.flatten = put_out ds →
    reads e' d st cs = some st' → Parsed e' e st (bodies e ds) st'

/-- Not so long that the frame is longer than `Session_Read` allows. -/
def Path.Short : Path → Prop
  | .stream msg => msg.length + sizeof_rel_udp_pkt_add ≤ MAX_SPINES_CLIENT_MSG
  | _ => True

/-- The call is refused without a `send()`, or its first `send()` takes nothing, or it goes
through and is short enough. -/
def Made.Clean (e : Endian) (cl : Lib_Client) (m : Made) : Prop :=
  ∀ p, m.path e cl = some p → Silent m.rets ∨ (p.Through m.rets ∧ p.Short)

section Calls

variable {e : Endian} {cl : Lib_Client}

structure Done.Ran (e : Endian) (type : SockType) (d : Done) : Prop where
  type : d.client.type = type
  run : d.made.run e d.client = some d.put

theorem run_calls_ran (ms : List Made) : ∀ {cl : Lib_Client} {ds : List Done},
    run_calls e cl ms = some ds → ∀ d ∈ ds, d.Ran e cl.type := by
  induction ms with
  | nil =>
    intro cl ds h
    obtain rfl := some.inj h
    exact fun d hd => absurd hd not_mem_nil
  | cons m ms ih =>
    intro cl ds h
    rw [run_calls] at h
    obtain ⟨p, hp, h⟩ := bind_eq_some_iff.mp h
    obtain ⟨ds', hds, rfl⟩ := map_eq_some_iff.mp h
    have htype : p.client.type = cl.type := by
      rcases run_path e cl m with ⟨path, -, hrun⟩ | ⟨-, put, hput, -, htype⟩
      · rw [hp] at hrun
        rw [(path_acts hrun.symm).client]
      · obtain rfl := some.inj (hp.symm.trans hput)
        exact htype
    intro d hd
    rcases mem_cons.mp hd with rfl | hd'
    · exact ⟨rfl, hp⟩
    · rw [← htype]
      exact ih hds d hd'

variable {type : SockType} (ds : List Done)

theorem Done.Ran.acts {d : Done} (h : d.Ran e type) {p : Path}
    (hp : d.made.path e d.client = some p) : Acts e d.client d.made p d.put := by
  rcases run_path e d.client d.made with ⟨p', hp', hrun⟩ | ⟨hnone, -⟩
  · obtain rfl := some.inj (hp.symm.trans hp')
    exact path_acts (hrun.symm.trans h.run)
  · rw [hp] at hnone
    exact absurd hnone (some_ne_none p)

def Done.Whole (e : Endian) (d : Done) : Prop := d.put.out = (d.body e).toList.flatMap (message e)

theorem Done.Ran.whole_iff {d : Done} (h : d.Ran e type) :
    (d.Whole e ↔ ∀ p, d.made.path e d.client = some p →
      Silent d.made.rets ∨ p.Through d.made.rets) ∧ (d.Whole e ∨ d.body e = none) := by
  unfold Done.Whole Done.body
  rcases run_path e d.client d.made with ⟨p, hpath, -⟩ | ⟨hpath, put, hput, hout, -⟩
  · have hacts := h.acts hpath
    rw [hpath]
    by_cases hthrough : p.Through d.made.rets
    · obtain ⟨hret, hout⟩ := hacts.through hthrough
      rw [if_pos hret, hout]
      have hframe : message e (p.body e d.client d.made.junk) =
          (Option.map (Path.body e d.client d.made.junk) (some p)).toList.flatMap (message e) :=
        (flatMap_singleton ..).symm
      refine ⟨iff_of_true hframe ?_, .inl hframe⟩
      intro p' hp'
      obtain rfl := some.inj hp'
      exact .inr hthrough
    · obtain ⟨hret, hsilent⟩ := hacts.fails hthrough
      rw [if_neg (by rw [hret]; decide)]
      refine ⟨hsilent.trans ⟨?_, ?_⟩, .inr rfl⟩
      · exact fun hs p' _ => .inl hs
      · exact fun hall => (hall p rfl).resolve_right hthrough
  · obtain rfl := some.inj (hput.symm.trans h.run)
    rw [hpath]
    have hnone : (if 0 ≤ d.put.ret then Option.map (Path.body e d.client d.made.junk) none
        else none) = none := by
      split <;> rfl
    rw [hnone]
    exact ⟨iff_of_true hout (fun p hp => absurd hp (some_ne_none p).symm), .inr rfl⟩

theorem bodies_cons (d : Done) (ds : List Done) :
    bodies e (d :: ds) = (d.body e).toList ++ bodies e ds := by
  unfold bodies
  rw [filterMap_cons]
  cases d.body e <;> rfl

theorem frames_le (h : ∀ d ∈ ds, d.Ran e type) :
    ((bodies e ds).flatMap (message e)).length ≤ (put_out ds).length := by
  induction ds with
  | nil => exact le_refl _
  | cons d ds ih =>
    have hrest := ih fun d' hd' => h d' (mem_cons_of_mem d hd')
    rw [bodies_cons, flatMap_append, put_out, flatMap_cons, length_append,
      length_append]
    apply Nat.add_le_add _ hrest
    rcases (h d mem_cons_self).whole_iff.2 with hwhole | hnone
    · exact (congrArg List.length hwhole).ge
    · rw [hnone]
      exact Nat.zero_le _

/-- So it is its frames exactly where each call has put its own there; the induction is on
the calls. -/
theorem frames_iff (h : ∀ d ∈ ds, d.Ran e type) :
    put_out ds = (bodies e ds).flatMap (message e) ↔ ∀ d ∈ ds, d.Whole e := by
  induction ds with
  | nil => exact iff_of_true rfl fun d hd => absurd hd not_mem_nil
  | cons d ds ih =>
    have hds : ∀ d' ∈ ds, d'.Ran e type := fun d' hd' => h d' (mem_cons_of_mem d hd')
    have hrest := ih hds
    rw [bodies_cons, flatMap_append, put_out, flatMap_cons, forall_mem_cons]
    constructor
    · intro heq
      have hwhole : d.Whole e := by
        rcases (h d mem_cons_self).whole_iff.2 with hwhole | hnone
        · exact hwhole
        · -- what has been put there makes the stream longer than its frames
          have hlen := congrArg List.length heq
          have hle := frames_le ds hds
          rw [hnone, length_append, length_append] at hlen
          rw [put_out] at hle
          rw [Done.Whole, hnone]
          apply eq_nil_of_length_eq_zero
          have hnil : ((none : Option (List UInt8)).toList.flatMap (message e)).length = 0 := rfl
          omega
      refine ⟨hwhole, hrest.mp ?_⟩
      rw [show d.put.out = (d.body e).toList.flatMap (message e) from hwhole] at heq
      exact append_cancel_left heq
    · rintro ⟨hwhole, hall⟩
      rw [show d.put.out = (d.body e).toList.flatMap (message e) from hwhole]
      exact congrArg _ (hrest.mpr hall)

theorem path_suits {m : Made} {p : Path} (h : m.path e cl = some p) (junk : Mem) :
    (if cl.type = .SOCK_STREAM then 36 else 28) ≤ (p.body e cl junk).length ∧
      (p.body e cl junk).length ≤ MAX_SPINES_CLIENT_MSG + sizeof_udp_header + 8 ∧
      ((p.body e cl junk).length ≤ MAX_SPINES_CLIENT_MSG + sizeof_udp_header ↔ p.Short) := by
  have hcap : MAX_SPINES_CLIENT_MSG = 50000 := rfl
  have hudp : sizeof_udp_header = 28 := rfl
  have hadd : sizeof_rel_udp_pkt_add = 8 := rfl
  have hint : sizeof_int32 = 4 := rfl
  have hsendto (msg : List UInt8) (address port : ℕ) (hlong : ¬MAX_SPINES_CLIENT_MSG < msg.length)
      (htype : ¬cl.type = .SOCK_STREAM) :
      (if cl.type = .SOCK_STREAM then 36 else 28)
          ≤ (Path.body e cl junk (.sendto msg address port)).length ∧
        (Path.body e cl junk (.sendto msg address port)).length
          ≤ MAX_SPINES_CLIENT_MSG + sizeof_udp_header + 8 ∧
        ((Path.body e cl junk (.sendto msg address port)).length
          ≤ MAX_SPINES_CLIENT_MSG + sizeof_udp_header ↔ Path.Short (.sendto msg address port)) := by
    rw [if_neg htype, Path.body, length_append, Mem.bytes_length]
    exact ⟨by omega, by omega, iff_of_true (by omega) trivial⟩
  have hstream (msg : List UInt8) (hlong : ¬MAX_SPINES_CLIENT_MSG < msg.length)
      (htype : cl.type = .SOCK_STREAM) :
      (if cl.type = .SOCK_STREAM then 36 else 28) ≤ (Path.body e cl junk (.stream msg)).length ∧
        (Path.body e cl junk (.stream msg)).length
          ≤ MAX_SPINES_CLIENT_MSG + sizeof_udp_header + 8 ∧
        ((Path.body e cl junk (.stream msg)).length
          ≤ MAX_SPINES_CLIENT_MSG + sizeof_udp_header ↔ Path.Short (.stream msg)) := by
    rw [if_pos htype, Path.body, length_append, Mem.bytes_length, Path.Short]
    exact ⟨by omega, by omega, by omega⟩
  unfold Made.path at h
  cases hcall : m.call with
  | sendto msg address port =>
    rw [hcall] at h
    dsimp only at h
    split at h
    · cases h
    rename_i hchecks
    split at h
    · obtain rfl := some.inj h
      exact hstream msg (not_or.mp hchecks).1 (by assumption)
    · obtain rfl := some.inj h
      exact hsendto msg address port (not_or.mp hchecks).1 (by assumption)
  | send msg =>
    rw [hcall] at h
    dsimp only at h
    split at h
    · cases h
    split at h
    · obtain rfl := some.inj h
      exact hstream msg (by assumption) (by assumption)
    split at h
    · cases h
    · obtain rfl := some.inj h
      exact hsendto msg _ _ (by assumption) (by assumption)
  | setsockopt optname optval optlen response =>
    rw [hcall] at h
    dsimp only at h
    split at h
    · cases h
    rename_i htype
    split at h
    · cases h
    split at h
    · cases h
    · obtain rfl := some.inj h
      rw [if_neg htype, Path.body, Mem.bytes_length]
      exact ⟨by omega, by omega, iff_of_true (by omega) trivial⟩

theorem mem_bodies {ds : List Done} {body : List UInt8} (h : body ∈ bodies e ds) :
    ∃ d ∈ ds, ∃ p, d.made.path e d.client = some p ∧ body = p.body e d.client d.made.junk ∧
      0 ≤ d.put.ret := by
  obtain ⟨d, hd, hbody⟩ := mem_filterMap.mp h
  unfold Done.body at hbody
  split at hbody
  · obtain ⟨p, hp, rfl⟩ := map_eq_some_iff.mp hbody
    exact ⟨d, hd, p, hp, rfl, by assumption⟩
  · cases hbody

theorem overhead_of_type {ses : Session} (h : ses.r_data = decide (type = .SOCK_STREAM)) :
    ses.overhead = if type = .SOCK_STREAM then 36 else 28 := by
  rw [overhead_eq, h]
  by_cases htype : type = .SOCK_STREAM
  · rw [if_pos (decide_eq_true htype), if_pos htype]
  · rw [if_neg (by rw [decide_eq_false htype]; exact Bool.false_ne_true), if_neg htype]

def idle : Daemon Unit where
  take_ctrl_sk := fun _ _ => none
  Process_Session_Packet := fun _ ses =>
    { daemon := (), data := ses.data, routing_used := ses.routing_used, seq_no := ses.seq_no
      r_data := ses.r_data, closed := false, no_buff := false }

theorem idle_serves (e : Endian) : idle.Serves e :=
  ⟨fun _ _ _ _ => ⟨rfl, rfl⟩, fun _ _ => rfl, fun _ _ => rfl, fun _ _ => rfl, fun _ _ h => h⟩

/-- Its reader, between two messages of a client of byte order `e`. -/
def idle_reader (e : Endian) (r_data : Bool) : Reader Unit where
  daemon := ()
  handed := []
  ses :=
    { sess_id := 1, endianess_type := ARCH_ENDIAN e, ctrl_sk := 7, routing_used := 0
      total_len := 0, read_len := 4, received_len := 0, partial_len := 0, seq_no := 0
      frag_num := 0, frag_idx := 0, save_hdr := [], state := .READY_LEN, data := fun _ => 0
      r_data := r_data, closed := false }

/-- **Calls on a connected socket.** Whatever part of the bytes each `send()` takes, the
stream is that of the calls that have returned success, and a reader hands these over, if
and only if every call is clean. -/
theorem calls_framed {ms : List Made} {ds : List Done} (hrun : run_calls e cl ms = some ds) :
    Framed_calls e cl.type ds ↔ ∀ d ∈ ds, d.made.Clean e d.client := by
  have hran := run_calls_ran ms hrun
  have hframes := frames_iff ds hran
  constructor
  · rintro ⟨hput, hparsed⟩ d hd p hp
    have hall := hframes.mp hput
    rcases (((hran d hd).whole_iff.1).mp (hall d hd)) p hp with hsilent | hthrough
    · exact .inl hsilent
    refine .inr ⟨hthrough, ?_⟩
    by_contra hlong
    -- a reader that meets the frame closes the session
    have hacts := (hran d hd).acts hp
    have hmem : p.body e d.client d.made.junk ∈ bodies e ds := by
      apply mem_filterMap.mpr
      refine ⟨d, hd, ?_⟩
      rw [Done.body, if_pos (hacts.through hthrough).1, hp]
      rfl
    have hover : (idle_reader e (decide (cl.type = .SOCK_STREAM))).ses.overhead
        = if cl.type = .SOCK_STREAM then 36 else 28 := overhead_of_type rfl
    have hfrom : (idle_reader e (decide (cl.type = .SOCK_STREAM))).ses.From e e :=
      same_endian_iff e e
    have hbetween : (idle_reader e (decide (cl.type = .SOCK_STREAM))).ses.Between :=
      ⟨rfl, rfl, rfl, rfl⟩
    have hknown : Known (idle_reader e (decide (cl.type = .SOCK_STREAM))).ses.routing_used :=
      Or.inl (.inl rfl)
    obtain ⟨cs, st', hfull, hcs, hreads, hclosed⟩ := messages_refused (idle_serves e) (bodies e ds)
      hbetween hknown hfrom (by
        intro body hbody
        obtain ⟨d', hd', p', hp', rfl, -⟩ := mem_bodies hbody
        obtain ⟨hlow, hhigh, -⟩ := path_suits hp' d'.made.junk
        rw [hover, ← (hran d' hd').type]
        have hcap : MAX_SPINES_CLIENT_MSG + sizeof_udp_header = 50028 := rfl
        refine ⟨by exact_mod_cast hlow, by omega⟩)
      ⟨_, hmem, by
        have hiff := (path_suits hp d.made.junk).2.2
        exact not_le.mp fun hle => hlong (hiff.mp hle)⟩
    have hback := (hparsed Unit e idle _ st' cs (idle_serves e) hbetween hknown hfrom rfl hfull
      (hcs.trans hput.symm) hreads).between.closed
    rw [hclosed] at hback
    exact absurd hback Bool.true_eq_false_eq_False
  · intro hclean
    have hput : put_out ds = (bodies e ds).flatMap (message e) := by
      refine hframes.mpr fun d hd => ((hran d hd).whole_iff.1).mpr fun p hp => ?_
      exact (hclean d hd p hp).imp_right And.left
    refine ⟨hput, ?_⟩
    intro δ e' d st st' cs hserves hbetween hknown hfrom hr_data hfull hcs hreads
    refine messages_parsed hserves hbetween hknown hfrom ?_ hfull (hcs.trans hput) hreads
    intro body hbody
    obtain ⟨c, hc, p, hp, rfl, hret⟩ := mem_bodies hbody
    obtain ⟨hlow, -, hshort⟩ := path_suits hp c.made.junk
    have hthrough : p.Through c.made.rets := by
      -- a call that has returned success has gone through
      by_contra hno
      rw [(((hran c hc).acts hp).fails hno).1] at hret
      exact absurd hret (by decide)
    have hclean_p := (hclean c hc p hp).resolve_left hthrough.loud
    refine ⟨?_, hshort.mpr hclean_p.2⟩
    rw [overhead_of_type hr_data, ← (hran c hc).type]
    exact_mod_cast hlow

end Calls

/-! ## 5. Both directions -/

/-- **The client's side of the stream.** However the stream from the daemon is cut into
reads, the calls of `spines_recvfrom` stay in step with the frames if and only if every
payload fits into the buffer of its call. Whatever part of the bytes each `send()` takes,
the stream to the daemon is that of the calls that have returned success if and only if
every call is clean. -/
theorem client_in_step (e : Endian) :
    (∀ (e' : Endian) (endianess_type : ℕ) (fs : List Frame) (calls : List RecvCall)
      (cs : List (List UInt8)), Same_endian e endianess_type = decide (e = e') → Full cs →
      cs.flatten = frames e' fs → (InStep e e' endianess_type fs calls cs ↔ Fit fs calls)) ∧
    (∀ (cl : Lib_Client) (ms : List Made) (ds : List Done), run_calls e cl ms = some ds →
      (Framed_calls e cl.type ds ↔ ∀ d ∈ ds, d.made.Clean e d.client)) :=
  ⟨fun _ _ fs calls _ h hfull hcs => calls_in_step h fs calls hfull hcs,
    fun _ _ _ hrun => calls_framed hrun⟩

def two_bytes : Frame := ⟨replicate 28 0, [7, 7], rfl, by decide⟩

def two_bytes_reads : List (List UInt8) := [[0, 0, 0, 30, 0], replicate 27 0 ++ [7], [7]]

def dgram : Lib_Client := ⟨.SOCK_DGRAM, 5, 9, 255, 1, 0⟩

/-- A message whose payload goes out in two parts, one of which the socket takes nothing,
and one more. -/
def clean_calls : List Made :=
  [⟨.sendto [1, 2, 3] 5 9, fun _ => 0, [.wrote 32, .wrote 1, .wrote 2]⟩,
    ⟨.send [4], fun _ => 0, [.again]⟩, ⟨.send [4], fun _ => 0, [.wrote 32, .wrote 1]⟩]

def clean_done : List Done := (run_calls .little dgram clean_calls).getD []

theorem client_in_step_clean :
    InStep .little .big (ARCH_ENDIAN .big) [two_bytes] [⟨2, none⟩] two_bytes_reads ∧
      run_calls .little dgram clean_calls = some clean_done ∧
      Framed_calls .little .SOCK_DGRAM clean_done ∧ (bodies .little clean_done).length = 2 := by
  have hfull : Full two_bytes_reads := by decide
  refine ⟨?_, rfl, ?_, by decide +kernel⟩
  · exact ((client_in_step .little).1 .big _ _ _ _ (same_endian_iff _ _) hfull
      (by decide +kernel)).mpr ⟨le_rfl, trivial⟩
  · refine ((client_in_step .little).2 dgram clean_calls clean_done rfl).mpr ?_
    intro d hd
    rcases mem_cons.mp hd with rfl | hd
    · intro p hp
      obtain rfl := some.inj hp
      exact .inr ⟨⟨_, rfl, [1, 2], [], rfl, by decide, rfl⟩, trivial⟩
    rcases mem_cons.mp hd with rfl | hd
    · intro p hp
      exact .inl nofun
    · obtain rfl := mem_singleton.mp hd
      intro p hp
      obtain rfl := some.inj hp
      exact .inr ⟨⟨_, rfl, [1], [], rfl, by decide, rfl⟩, trivial⟩

def frame_in_frame : Frame :=
  ⟨replicate 28 0, [30, 0, 0, 0, 1] ++ replicate 27 0 ++ [6, 6], rfl, by decide⟩

def both_reads : List (List UInt8) := [frames .little [frame_in_frame, two_bytes]]

def cut_calls : List Made :=
  [⟨.setsockopt .SPINES_ADD_MEMBERSHIP (fun _ => 0) 8 1, fun _ => 0, [.wrote 10]⟩,
    ⟨.sendto [1] 5 9, fun _ => 0, [.wrote 32, .wrote 1]⟩]

def cut_done : List Done := (run_calls .little dgram cut_calls).getD []

/-- **Out of step.** The call after one whose buffer was too small returns what the payload
had in it, with a sender of its choosing; the message after a short write is behind ten
bytes of another frame. -/
theorem client_out_of_step :
    (Full both_reads ∧ both_reads.flatten = frames .little [frame_in_frame, two_bytes] ∧
      ¬InStep .little .little (ARCH_ENDIAN .little) [frame_in_frame, two_bytes]
        [⟨10, none⟩, ⟨10, some 16⟩] both_reads) ∧
    (let first := spines_recvfrom_internal .little (ARCH_ENDIAN .little) ⟨10, none⟩ both_reads
      let second := spines_recvfrom_internal .little (ARCH_ENDIAN .little) ⟨10, some 16⟩ first.rest
      first.ret = -1 ∧ second.ret = 2 ∧ second.buf = [6, 6] ∧ second.sender = some (1, 0)) ∧
    run_calls .little dgram cut_calls = some cut_done ∧
      ¬Framed_calls .little .SOCK_DGRAM cut_done ∧ cut_done.map (·.put.ret) = [-1, 1] := by
  have hfull : Full both_reads := by decide +kernel
  have hflat : both_reads.flatten = frames .little [frame_in_frame, two_bytes] :=
    append_nil _
  refine ⟨⟨hfull, hflat, fun h => ?_⟩, ?_, rfl, fun h => ?_, by decide +kernel⟩
  · have hfit := (calls_in_step (same_endian_iff _ _) _ _ hfull hflat).mp h
    exact absurd hfit.1 (by decide)
  · refine ⟨?_, ?_, ?_, ?_⟩ <;> decide +kernel
  · have hclean := (calls_framed
      (show run_calls .little dgram cut_calls = some cut_done from rfl)).mp h
    rcases hclean _ mem_cons_self _ rfl with hsilent | ⟨⟨⟨rest, hrets⟩, -⟩, -⟩
    · exact absurd (hsilent 10 [] rfl) (by decide)
    · exact absurd (Ret.wrote.inj (List.cons.inj hrets).1) (by decide)

end Spines.Client
