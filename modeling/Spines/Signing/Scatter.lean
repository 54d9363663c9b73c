/-
Signing and verifying a client's message of the intrusion-tolerant traffic
(`Session_Send_Message` of `daemon/session.c`, `Priority_Flood_Disseminate`,
`Reliable_Flood_Disseminate` and `Reliable_Flood_Verify`).

The source signs the bytes of a scatter, and every daemon on the way puts the string
together again from the scatter it received. In between the `ttl` goes down, the
daemons stamp their numbers on the path, the tail of reliable flooding is another on
every link, and the message is cut into packets and rebuilt. All three functions set
the bytes that change to zero before they go over the message, each in its own way.

An element of a scatter is a length and the memory from its address on. What stands
behind the length is left over from an earlier use; the path may lie there when the
client's message is short. Machines have one byte order.
-/
import Spines.Client.Read
import Spines.IntruTol.Window
import Spines.RelFlood.Daemon

set_option autoImplicit false

namespace Spines.Signing

open Spines.Lib Spines.IntruTol Function

/-! ## 1. Scatters -/

/-- `scat_element`. -/
structure Elem where
  buf : Mem
  len : ℕ

def Elem.bytes (x : Elem) : Bytes := x.buf.bytes 0 x.len

/-- A `sys_scatter`: the `type` in the packet header, which is element 0, and the
elements after it. -/
structure Scat where
  type : ℕ
  elements : List Elem

def Scat.bodies (s : Scat) : List Bytes := s.elements.map Elem.bytes

def SIZEOF_UDP_HEADER : ℕ := 28
def SIZEOF_PRIO_HEADER : ℕ := 40
def SIZEOF_REL_HEADER : ℕ := 24
def SIZEOF_REL_TAIL : ℕ := 4
def SIZEOF_HBH_ACK : ℕ := 24

/-! Offsets of fields of `udp_header`, and of the path, which stands 16 bytes into the
client's data. -/

def SOURCE : ℕ := 0
def DEST : ℕ := 4
def SOURCE_PORT : ℕ := 12
def LEN : ℕ := 16
def TTL : ℕ := 24
def ROUTING : ℕ := 25
def PATH : ℕ := SIZEOF_UDP_HEADER + 16

/-- `hdr`, the memory of element 1. -/
def Scat.hdr (s : Scat) : Mem :=
  match s.elements with
  | [] => fun _ => 0
  | x :: _ => x.buf

def Scat.on_hdr (f : Mem → Mem) (s : Scat) : Scat :=
  { s with
    elements :=
      match s.elements with
      | [] => []
      | x :: l => { x with buf := f x.buf } :: l }

def Scat.msg_size (s : Scat) : ℕ := SIZEOF_PACKET_HEADER + (s.elements.map Elem.len).sum

/-- The difference of two `unsigned int`. -/
def sub32 (a b : ℕ) : ℕ := (a % 2 ^ 32 + (2 ^ 32 - b % 2 ^ 32)) % 2 ^ 32

/-- The difference of two `size_t`. -/
def sub64 (a b : ℕ) : ℕ := (a % 2 ^ 64 + (2 ^ 64 - b % 2 ^ 64)) % 2 ^ 64

/-! ## 2. Configuration -/

structure Conf where
  endian : Endian
  path_stamp_debug : Bool
  /-- `MultiPath_Bitmask_Size`. -/
  bitmask_size : ℕ
  signature_len : ℕ
  /-- `Conf_Prio.Crypto`. -/
  prio_crypto : Bool
  /-- `Conf_Rel.Crypto`. -/
  rel_crypto : Bool
  /-- `Node_Lookup_Addr_to_ID`. -/
  lookup : ℕ → Option ℕ
  /-- The intrusion-tolerant links; `Link_Header_Size` is 140 at most. -/
  link : IntruTol.Conf
  overwrite_ip : ℕ
  lookup_range : ∀ a s, lookup a = some s → 1 ≤ s ∧ s ≤ RelFlood.MAX_NODES
  link_header_le : link.link_header_size ≤ 140
  sizes_lt : bitmask_size < 2 ^ 16 ∧ signature_len < 2 ^ 16

def Conf.prio_signature_len (cf : Conf) : ℕ := if cf.prio_crypto then cf.signature_len else 0

def Conf.rel_signature_len (cf : Conf) : ℕ := if cf.rel_crypto then cf.signature_len else 0

/-- The signature scheme (`EVP_*`): each function takes the number of a node first. -/
structure Scheme where
  sign : ℕ → Bytes → Option Bytes
  verify : ℕ → Bytes → Bytes → Bool

def Scheme.Exact (sch : Scheme) : Prop :=
  ∀ s bytes signature, sch.sign s bytes = some signature →
    ∀ s' bytes', sch.verify s' bytes' signature = true ↔ s' = s ∧ bytes' = bytes

structure Source (cf : Conf) where
  my_address : ℕ
  my_id : ℕ
  address_lt : my_address < 2 ^ 32
  lookup_my_address : cf.lookup my_address = some my_id

def set_endian (e : Endian) (t : ℕ) : ℕ := (t &&& 0x7FFFFF7F) ||| Client.ARCH_ENDIAN e

/-- `INTRU_TOL_DATA_TYPE`, as `Get_Link_Data_Type` returns it for these links. -/
def data_type (cf : Conf) : ℕ := set_endian cf.endian 0x0000000A

/-! ## 3. Bytes that change on the way -/

section Hiding

variable (cf : Conf)

def path (m : Mem) (i : ℕ) : UInt8 := m (PATH + i)

def zero_path (m : Mem) : Mem := (List.range 8).foldl (fun m i => update m (PATH + i) 0) m

/-- The loop of `Session_Send_Message` that puts the path back. -/
def put_path (temp_path : ℕ → UInt8) (m : Mem) : Mem :=
  (List.range 8).foldl (fun m i => update m (PATH + i) (temp_path i)) m

/-- One round of the loop of the verifiers that puts the path back and looks for the
first byte that is zero. -/
def put_path_round (temp_path : ℕ → UInt8) (r : Mem × ℕ) (i : ℕ) : Mem × ℕ :=
  let m := update r.1 (PATH + i) (temp_path i)
  (m, if r.2 = 8 ∧ m (PATH + i) = 0 then i else r.2)

/-- The path is put back, and the number of this daemon goes into the first byte that
is zero. -/
def stamp_path (my_id : ℕ) (temp_path : ℕ → UInt8) (m : Mem) : Mem :=
  let r := (List.range 8).foldl (put_path_round temp_path) (m, 8)
  if r.2 ≠ 8 then update r.1 (PATH + r.2) (UInt8.ofNat my_id) else r.1

def Scat.set_ttl (ttl : UInt8) (s : Scat) : Scat := s.on_hdr (fun m => update m TTL ttl)

def Scat.hide_path (s : Scat) : Scat := if cf.path_stamp_debug then s.on_hdr zero_path else s

def Scat.put_path (temp_path : ℕ → UInt8) (s : Scat) : Scat :=
  if cf.path_stamp_debug then s.on_hdr (Signing.put_path temp_path) else s

def Scat.stamp_path (my_id : ℕ) (temp_path : ℕ → UInt8) (s : Scat) : Scat :=
  if cf.path_stamp_debug then s.on_hdr (Signing.stamp_path my_id temp_path) else s

end Hiding

/-! ## 4. `Session_Send_Message` -/

section Send

variable (cf : Conf) (sch : Scheme)

def type_bytes (s : Scat) : Bytes := cf.endian.order (le_bytes 4 s.type)

/-- What the calls of `EVP_SignUpdate` go over. -/
def sign_input (s : Scat) : Bytes := type_bytes cf s ++ s.elements.flatMap Elem.bytes

def Elem.append (x : Elem) (bs : Bytes) : Elem := ⟨x.buf.write x.len bs, x.len + bs.length⟩

def Scat.on_last (f : Elem → Elem) (s : Scat) : Scat :=
  { s with elements := s.elements.dropLast ++ (s.elements.getLast?.map f).toList }

def sign_message (crypto : Bool) (my_id : ℕ) (s : Scat) : Option (Scat × Bytes) :=
  let temp_ttl := s.hdr TTL
  let temp_path := path s.hdr
  let t := (s.set_ttl 0).hide_path cf
  let input := sign_input cf t
  if crypto then
    match sch.sign my_id input with
    | none => none
    | some signature =>
      if signature.length ≠ cf.signature_len then none
      else some (((t.on_last (fun x => x.append signature)).set_ttl temp_ttl).put_path cf temp_path,
        input)
  else some (s, input)

/-- What `Session_Send_Message` finds in its surroundings. -/
structure SendEnv where
  /-- The memory `new_ref_cnt` hands out for an element. -/
  fresh : ℕ → Mem
  source_port : ℕ
  sec : ℕ
  usec : ℕ
  /-- `MultiPath_Stamp_Bitmask`, `none` where it or a lookup before it fails. -/
  mask : Option Mem
  /-- The fields of the dissemination header; the last two are those of priority
  flooding alone. -/
  dst_id : ℕ
  epoch : ℕ
  seq_num : ℕ
  priority : ℕ
  expire : ℕ × ℕ

/-- The loop of `Process_Session_Packet` that cuts `remaining` bytes from `pos` on into
elements. -/
def split_packet (fresh : ℕ → Mem) (data : Mem) : ℕ → ℕ → ℕ → ℕ → List Elem
  | 0, _, _, _ => []
  | fuel + 1, i, pos, remaining =>
    if remaining = 0 then []
    else
      let len :=
        if MAX_PACKET_SIZE < remaining + cf.link.link_header_size + SIZEOF_FRAGMENT_HEADER then
          MAX_PACKET_SIZE - cf.link.link_header_size - SIZEOF_FRAGMENT_HEADER
        else remaining
      ⟨(fresh i).write 0 (data.bytes pos len), len⟩ ::
        split_packet fresh data fuel (i + 1) (pos + len) (remaining - len)

def dissemination_header_size (routing : UInt8) : ℕ :=
  if routing = 1 then
    SIZEOF_PRIO_HEADER + cf.bitmask_size + cf.prio_signature_len + SIZEOF_FRAGMENT_HEADER
  else
    SIZEOF_REL_HEADER + cf.bitmask_size + cf.rel_signature_len + SIZEOF_FRAGMENT_HEADER +
      SIZEOF_REL_TAIL + SIZEOF_HBH_ACK + SIZEOF_FRAGMENT_HEADER

/-- The end of `Process_Session_Packet`: a message of `read_len` bytes becomes a
scatter, unless it is refused. -/
def process_session_packet (src : Source cf) (env : SendEnv) (data : Mem) (read_len : ℕ) :
    Option Scat :=
  let data := (data.store cf.endian SOURCE 4 src.my_address).store cf.endian SOURCE_PORT 2
    env.source_port
  if data.load cf.endian LEN 2 + SIZEOF_UDP_HEADER ≠ read_len then none
  else if Client.MAX_MESSAGE_SIZE - 45 * cf.link.link_header_size -
      dissemination_header_size cf (data ROUTING) < read_len then none
  else some ⟨data_type cf, split_packet cf env.fresh data read_len 1 0 read_len⟩

/-- A group address, as in `net_types.h`. -/
def is_group_addr (x : ℕ) : Bool := x &&& 0xF0000000 = 0xE0000000 ∨ x &&& 0xF0000000 = 0xF0000000 ∨
  x &&& 0xFFFFFF00 = 0xFEFF0000

def prio_elem (env : SendEnv) (buf mask : Mem) : Elem where
  buf := (((((((buf.store cf.endian 0 8 env.epoch).store cf.endian 8 8 env.seq_num).store
    cf.endian 16 4 env.priority).store cf.endian 20 4 env.sec).store cf.endian 24 4 env.usec).store
    cf.endian 28 4 env.expire.1).store cf.endian 32 4 env.expire.2).write SIZEOF_PRIO_HEADER
    (mask.bytes 0 cf.bitmask_size)
  len := SIZEOF_PRIO_HEADER + cf.bitmask_size

/-- The element with the header of reliable flooding, of type `REL_FLOOD_DATA`, and
the mask. -/
def rel_elem (src_id : ℕ) (env : SendEnv) (buf mask : Mem) : Elem where
  buf := (((((buf.store cf.endian 0 2 src_id).store cf.endian 2 2 env.dst_id).store
    cf.endian 4 4 env.epoch).store cf.endian 8 8 env.seq_num).store cf.endian 16 1 1).write
    SIZEOF_REL_HEADER (mask.bytes 0 cf.bitmask_size)
  len := SIZEOF_REL_HEADER + cf.bitmask_size

/-- `Session_Send_Message` up to its call of `Deliver_and_Forward_Data`: the scatter
that is sent, and the string that was signed. -/
def session_send_message (src : Source cf) (env : SendEnv) (s : Scat) : Option (Scat × Bytes) :=
  match env.mask with
  | none => none
  | some mask =>
    let i := s.elements.length + 1
    if s.hdr ROUTING = 1 then
      let s :=
        if is_group_addr (s.hdr.load cf.endian DEST 4) ∧ cf.overwrite_ip ≠ 0 then
          s.on_hdr (fun m => m.store cf.endian DEST 4 cf.overwrite_ip)
        else s
      let s := { s with elements := s.elements ++ [prio_elem cf env (env.fresh i) mask] }
      sign_message cf sch cf.prio_crypto src.my_id s
    else if s.hdr ROUTING = 2 then
      -- the time goes into the client's data, in network order
      let s :=
        if cf.path_stamp_debug then
          s.on_hdr (fun m => (m.store .big (SIZEOF_UDP_HEADER + 4) 4 env.sec).store .big
            (SIZEOF_UDP_HEADER + 8) 4 env.usec)
        else s
      let s := { s with elements := s.elements ++ [rel_elem cf src.my_id env (env.fresh i) mask] }
      (sign_message cf sch cf.rel_crypto src.my_id s).map (fun r =>
        ({ r.1 with
            elements := r.1.elements ++
              [⟨(env.fresh (i + 1)).store cf.endian 0 4 0, SIZEOF_REL_TAIL⟩] }, r.2))
    else none

end Send

/-! ## 5. `Priority_Flood_Disseminate` and `Reliable_Flood_Disseminate` -/

section Check

variable (cf : Conf) (sch : Scheme)

/-- What the calls of `EVP_VerifyUpdate` go over: the last of the elements counts without
the signature. -/
def verify_input (signature_len : ℕ) (s : Scat) (elements : List Elem) : Bytes :=
  type_bytes cf s ++ elements.dropLast.flatMap Elem.bytes ++
    (elements.getLast?.elim [] fun x => x.buf.bytes 0 (sub32 x.len signature_len))

def signature_of (signature_len : ℕ) (elements : List Elem) : Bytes :=
  elements.getLast?.elim [] fun x => x.buf.bytes (x.len - signature_len) signature_len

/-- The string `Priority_Flood_Disseminate` puts together. -/
def prio_input (s : Scat) : Bytes :=
  let t := (s.hide_path cf).set_ttl 0
  verify_input cf cf.prio_signature_len t t.elements

/-- The string `Reliable_Flood_Verify` puts together for a data message. -/
def rel_input (s : Scat) : Bytes :=
  let t := (s.hide_path cf).set_ttl 0
  verify_input cf cf.rel_signature_len t t.elements.dropLast

/-- `Priority_Flood_Disseminate` up to the check of the incarnation; `none` is
`NO_ROUTE`. -/
def priority_flood_disseminate (my_id : ℕ) (s : Scat) : Option Scat :=
  if s.msg_size ≠ SIZEOF_PACKET_HEADER + SIZEOF_UDP_HEADER + s.hdr.load cf.endian LEN 2 +
      SIZEOF_PRIO_HEADER + cf.bitmask_size + cf.prio_signature_len then none
  else
    match cf.lookup (s.hdr.load cf.endian SOURCE 4) with
    | none => none
    | some src_id =>
      let temp_path := path s.hdr
      let s := s.hide_path cf
      let verified :=
        if cf.prio_crypto then
          let temp_ttl := s.hdr TTL
          let s := s.set_ttl 0
          let last_len := s.elements.getLast?.elim 0 Elem.len
          if sub64 (sub64 last_len SIZEOF_PRIO_HEADER) cf.bitmask_size < cf.prio_signature_len then
            none
          else if sch.verify src_id (verify_input cf cf.prio_signature_len s s.elements)
              (signature_of cf.prio_signature_len s.elements) = false then none
          else some (s.set_ttl temp_ttl)
        else some s
      verified.map (fun s => s.stamp_path cf my_id temp_path)

/-- `Reliable_Flood_Verify` for a data message, with the scatter it leaves behind. -/
def reliable_flood_verify (src_id : ℕ) (s : Scat) : Option Scat :=
  if cf.rel_crypto = false then some s
  else if src_id < 1 ∨ RelFlood.MAX_NODES < src_id then none
  else
    let temp_ttl := s.hdr TTL
    let s := s.set_ttl 0
    if sch.verify src_id (verify_input cf cf.rel_signature_len s s.elements.dropLast)
        (signature_of cf.rel_signature_len s.elements.dropLast) = false then none
    else some (s.set_ttl temp_ttl)

/-- `Reliable_Flood_Disseminate` up to the processing of the acks, for a data message;
`none` is `NO_ROUTE`. The header is in the last element but one, the acks are in the
last. -/
def reliable_flood_disseminate (my_id : ℕ) (s : Scat) : Option Scat :=
  match s.elements.getLast?, s.elements.dropLast.getLast? with
  | some tail, some x =>
    let ack_len := tail.buf.load cf.endian 0 4
    if x.buf 16 ≠ 1 then none
    else if s.msg_size ≠ SIZEOF_PACKET_HEADER + SIZEOF_UDP_HEADER + s.hdr.load cf.endian LEN 2 +
        SIZEOF_REL_HEADER + SIZEOF_REL_TAIL + ack_len + (cf.bitmask_size + cf.rel_signature_len)
      then none
    else if ack_len % SIZEOF_HBH_ACK ≠ 0 then none
    else
      let temp_path := path s.hdr
      (reliable_flood_verify cf sch (x.buf.load cf.endian 0 2) (s.hide_path cf)).map
        (fun s => s.stamp_path cf my_id temp_path)
  | _, _ => none

/-- The two cases of the `switch` of `Deliver_and_Forward_Data`. -/
def disseminate (my_id : ℕ) (s : Scat) : Option Scat :=
  if s.hdr ROUTING = 1 then priority_flood_disseminate cf sch my_id s
  else if s.hdr ROUTING = 2 then reliable_flood_disseminate cf sch my_id s
  else none

/-- The string the function puts together that `disseminate` calls. -/
def recomputed (s : Scat) : Bytes := if s.hdr ROUTING = 1 then prio_input cf s else rel_input cf s

/-- `--hdr->ttl`. -/
def Scat.hop (s : Scat) : Scat := s.set_ttl (s.hdr TTL - 1)

/-! ## 6. From daemon to daemon -/

def ack_bytes (a : RelFlood.HbhAck) : Bytes :=
  cf.endian.order (le_bytes 2 a.src) ++ cf.endian.order (le_bytes 2 a.dest) ++
    cf.endian.order (le_bytes 4 a.src_epoch) ++ cf.endian.order (le_bytes 8 a.aru) ++
    cf.endian.order (le_bytes 8 a.sow)

/-- The tail `Reliable_Flood_Send_Data` makes. -/
def rel_tail (buf : Mem) (acks : List RelFlood.HbhAck) : Elem where
  buf := (buf.write SIZEOF_REL_TAIL (acks.flatMap (ack_bytes cf))).store cf.endian 0 4
    (acks.length * SIZEOF_HBH_ACK)
  len := SIZEOF_REL_TAIL + acks.length * SIZEOF_HBH_ACK

/-- The scatter a daemon hands to the link: priority flooding sends what it stored,
reliable flooding makes a new tail. As many acks go on as fit, by a 16-bit number of
bytes. -/
def Sends (s t : Scat) : Prop :=
  if s.hdr ROUTING = 1 then t = s
  else ∃ buf acks, acks.length * SIZEOF_HBH_ACK < 2 ^ 16 ∧
    t = { s with elements := s.elements.dropLast ++ [rel_tail cf buf acks] }

/-- `t` is what the other end of an intrusion-tolerant link rebuilds from the packets
into which the sender has cut `s`. -/
def Crosses (s t : Scat) : Prop :=
  ∃ (hdr : Bytes) (e e' : LinkEnd) (packets : List Bytes),
    Fits cf.link.link_header_size ⟨hdr, s.bodies⟩ ∧ Waiting ⟨hdr, s.bodies⟩ e ∧
      PackCalls cf.link e packets e' ∧ e'.outb.out_message = none ∧
      (feed_all packets).delivered = [t.bodies] ∧ t.type = data_type cf

/-- The message reaches daemon `id` as `s`, over correct daemons from the one that sent
it as `s₀`. -/
inductive Travels (my_id : ℕ) (s₀ : Scat) : ℕ → Scat → Prop
  | source : Travels my_id s₀ my_id s₀
  | link {id id' : ℕ} {s t u v : Scat} (h : Travels my_id s₀ id s) (httl : s.hdr TTL ≠ 0)
      (haccepted : disseminate cf sch id s.hop = some t) (hsends : Sends cf t u)
      (hcrosses : Crosses cf u v) : Travels my_id s₀ id' v

end Check

end Spines.Signing
