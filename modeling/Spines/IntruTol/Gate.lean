/-
`daemon/network.c`, `daemon/intrusion_tol_udp.c` and `daemon/protocol.c`: what becomes of
a datagram until a handler of its link is called.

`Read_UDP` looks at its length and port, lets `Preprocess_intru_tol_packet` open it when it
comes in for an intrusion-tolerant link, and turns the header into the host's byte order;
`Prot_process_scat`, at once or after an emulated delay, looks up the link and calls the
handler. A datagram that does not open is passed on all the same if its type says
Diffie-Hellman.

One daemon is modelled, on a network where anybody may send it anything from any address.
What holds an outsider back is `Unforged`: a string that ends in its HMAC under some
link's key was sealed by an end of that link. Keys belong to links (`link_of`), and are
the same in both directions. What the handlers do to the daemon's tables is an event of
its own (`Event.daemon`), which may change anything but where a known address leads.
-/
import Spines.IntruTol.Fragments
import Spines.IntruTol.Sealing
import Spines.Lib.Run

set_option autoImplicit false

namespace Spines.IntruTol.Gate

open Spines.Lib Spines.IntruTol.Sealing Option List

/-! ## 1. Packet headers -/

def sizeof_packet_header : ℕ := 20
def MAX_PACKET_SIZE : ℕ := 1472
def sizeof_packet_body : ℕ := MAX_PACKET_SIZE - sizeof_packet_header
def sizeof_reliable_tail : ℕ := 8
def sizeof_IT_Crypt_Buf : ℕ := 100000

def ENDIAN_TYPE : ℕ := 0x80000080
def HELLO_MASK : ℕ := 0x30000000
def LINK_STATE_TYPE : ℕ := 0x01000000
def GROUP_STATE_TYPE : ℕ := 0x02000000
def ROUTE_MASK : ℕ := 0x0f000000
def LINK_ACK_TYPE : ℕ := 0x1
def UDP_DATA_TYPE : ℕ := 0x2
def REL_UDP_DATA_TYPE : ℕ := 0x3
def REALTIME_DATA_TYPE : ℕ := 0x4
def REALTIME_NACK_TYPE : ℕ := 0x5
def INTRU_TOL_DATA_TYPE : ℕ := 0xA
def INTRU_TOL_ACK_TYPE : ℕ := 0xB
def INTRU_TOL_PING_TYPE : ℕ := 0xC
def DIFFIE_HELLMAN_TYPE : ℕ := 0xD
def DATA_MASK : ℕ := 0x7f

def ARCH_ENDIAN : Endian → ℕ
  | .little => 0x80000080
  | .big => 0

def Same_endian (e : Endian) (t : ℕ) : Bool := t &&& ENDIAN_TYPE == ARCH_ENDIAN e

/-- `Set_endian`; the types it is applied to have none of the bits. -/
def Set_endian (e : Endian) (t : ℕ) : ℕ := t ||| ARCH_ENDIAN e

def is_data (ty t : ℕ) : Bool := t &&& DATA_MASK == ty

def Is_intru_tol_data : ℕ → Bool := is_data INTRU_TOL_DATA_TYPE
def Is_intru_tol_ack : ℕ → Bool := is_data INTRU_TOL_ACK_TYPE
def Is_intru_tol_ping : ℕ → Bool := is_data INTRU_TOL_PING_TYPE
def Is_diffie_hellman : ℕ → Bool := is_data DIFFIE_HELLMAN_TYPE
def Is_link_ack : ℕ → Bool := is_data LINK_ACK_TYPE
def Is_udp_data : ℕ → Bool := is_data UDP_DATA_TYPE
def Is_rel_udp_data : ℕ → Bool := is_data REL_UDP_DATA_TYPE
def Is_realtime_data : ℕ → Bool := is_data REALTIME_DATA_TYPE
def Is_realtime_nack : ℕ → Bool := is_data REALTIME_NACK_TYPE
def Is_hello_type (t : ℕ) : Bool := t &&& HELLO_MASK != 0
def Is_link_state (t : ℕ) : Bool := t &&& ROUTE_MASK == LINK_STATE_TYPE
def Is_group_state (t : ℕ) : Bool := t &&& ROUTE_MASK == GROUP_STATE_TYPE

/-- The field of `w` bytes at `pos`, as a host with byte order `e` reads it. -/
def field (e : Endian) (b : Bytes) (pos w : ℕ) : ℕ := le_value (e.order ((b.drop pos).take w))

structure Scat where
  header : Bytes
  body : Bytes
  deriving DecidableEq

def Scat.type (e : Endian) (s : Scat) : ℕ := field e s.header 0 4
def Scat.sender_id (e : Endian) (s : Scat) : ℕ := field e s.header 4 4
def Scat.ctrl_link_id (e : Endian) (s : Scat) : ℕ := field e s.header 8 4
def Scat.data_len (e : Endian) (s : Scat) : ℕ := field e s.header 12 2
def Scat.ack_len (e : Endian) (s : Scat) : ℕ := field e s.header 14 2

def Flip_int32 (t : ℕ) : ℕ := flip_word 4 t

def flip_fields : List ℕ → Bytes → Bytes
  | [], b => b
  | w :: ws, b => (b.take w).reverse ++ flip_fields ws (b.drop w)

def Flip_pack_hdr (b : Bytes) : Bytes := flip_fields [4, 4, 4, 2, 2, 2] b

/-- The words of the tail are flipped; `none` when the last one is not whole. -/
def Flip_rel_tail (tail : Bytes) (ack_len : ℕ) : Option Bytes :=
  if ack_len < sizeof_reliable_tail then none
  else if ack_len % 4 = 0 then some (flip_fields (replicate (ack_len / 4) 4) tail)
  else none

/-! ## 2. The daemon -/

inductive Link_Type
  | CONTROL_LINK
  | UDP_LINK
  | RELIABLE_UDP_LINK
  | REALTIME_UDP_LINK
  | RESERVED0_LINK
  | RESERVED1_LINK
  | INTRUSION_TOL_LINK
  deriving DecidableEq, Repr

def Link_Type.num : Link_Type → ℕ
  | .CONTROL_LINK => 0
  | .UDP_LINK => 1
  | .RELIABLE_UDP_LINK => 2
  | .REALTIME_UDP_LINK => 3
  | .RESERVED0_LINK => 4
  | .RESERVED1_LINK => 5
  | .INTRUSION_TOL_LINK => 6

structure Conf (Key : Type) where
  order : Endian
  Port : ℕ
  My_Address : ℕ
  /-- `Conf_IT_Link.Crypto`, `Encrypt` and `Intrusion_Tolerance_Mode` -/
  Crypto : Bool
  Encrypt : Bool
  Intrusion_Tolerance_Mode : Bool
  Num_Discovery_Addresses : ℕ
  crypt : Key → Sealing.Crypto

structure Int_Tol_Data (Key : Type) where
  dh_key_computed : ℕ
  dh_key : Key

structure Interface where
  iid : ℕ
  owner : ℕ

structure Link (Key : Type) where
  prot_data : Option (Int_Tol_Data Key)

structure Network_Leg (Key : Type) where
  other_side_ctrl_link_id : ℕ
  links : Link_Type → Option (Link Key)

abbrev Leg_ID := ℕ × ℕ

structure Daemon (Key : Type) where
  Known_Addresses : ℕ → Option Interface
  Network_Legs : Leg_ID → Option (Network_Leg Key)

inductive Handler
  /-- `Process_hello_ping`, and `Process_hello_packet` when there is a link then -/
  | hello
  | Process_state_packet
  | Process_ack_packet
  | Process_udp_data_packet
  | Process_rel_udp_data_packet
  | Process_RT_UDP_data_packet
  | Process_RT_nack_packet
  | Process_intru_tol_data_packet
  | Process_intru_tol_ack_packet
  | Process_intru_tol_ping
  | Process_DH_IT
  deriving DecidableEq, Repr

section Source

variable {Key : Type}

/-- The link that `Preprocess_intru_tol_packet` looks up. -/
def Daemon.it_link (st : Daemon Key) (local_iid src_addr : ℕ) : Option (Leg_ID × Int_Tol_Data Key) := do
  let remote_interf ← st.Known_Addresses src_addr
  let leg ← st.Network_Legs (local_iid, remote_interf.iid)
  let lk ← leg.links .INTRUSION_TOL_LINK
  let itdata ← lk.prot_data
  some ((local_iid, remote_interf.iid), itdata)

/-! ## 3. Sending -/

/-- `IT_Link_Send`: what goes to `Link_Send`, if anything does. -/
def IT_Link_Send (cf : Conf Key) (itdata : Int_Tol_Data Key) (iv : Bytes) (msg : List Bytes)
    (buf : Bytes) : Except Halt (Option Bytes) :=
  if cf.Crypto then
    if itdata.dh_key_computed ≠ 2 then .ok none
    else match Sec_lock_msg (cf.crypt itdata.dh_key) cf.Encrypt iv msg buf with
      | .ok (len, dst) => .ok (some (dst.take len.toNat))
      | .error .fail => .ok none
      | .error .abort => .error .abort
  else .ok (some msg.flatten)

/-! ## 4. Receiving -/

/-- `Sec_unlock_msg`, if there is a key: the length and the buffer, or nothing when it
returns -1. -/
def unlocked (cf : Conf Key) (itdata : Int_Tol_Data Key) (s : Scat) (buf : Bytes) :
    Except Halt (Option (ℤ × Bytes)) :=
  if itdata.dh_key_computed = 2 then
    match Sec_unlock_msg (cf.crypt itdata.dh_key) cf.Encrypt [s.header, s.body] buf with
    | .ok r => .ok (some r)
    | .error .fail => .ok none
    | .error .abort => .error .abort
  else .ok none

def copy_back (m : Bytes) (s : Scat) : Scat where
  header := m.take s.header.length
  body := (m.drop s.header.length).take s.body.length

def Preprocess_intru_tol_packet (cf : Conf Key) (st : Daemon Key) (s : Scat) (received_bytes : ℕ)
    (local_iid src_addr : ℕ) (buf : Bytes) : Except Halt (ℤ × Scat) :=
  let pack_type :=
    if Same_endian cf.order (s.type cf.order) then s.type cf.order
    else Flip_int32 (s.type cf.order)
  match st.it_link local_iid src_addr with
  | none => .ok (-1, s)
  | some (_, itdata) => do
      match ← unlocked cf itdata s buf with
      | some (ret, dst) => .ok (ret, copy_back (dst.take ret.toNat) s)
      | none =>
        -- it may be the other side's half of a key exchange
        if Is_diffie_hellman pack_type then .ok (received_bytes, s) else .ok (-1, s)

def Scat.host_header (e : Endian) (s : Scat) : Scat :=
  if Same_endian e (s.type e) then s else { s with header := Flip_pack_hdr s.header }

def Scat.host_body (e : Endian) (s : Scat) : Option Bytes :=
  if !Same_endian e (s.type e) && sizeof_reliable_tail ≤ s.ack_len e then
    (Flip_rel_tail (s.body.drop (s.data_len e)) (s.ack_len e)).map
      fun tail => s.body.take (s.data_len e) ++ tail
  else some s.body

/-- The second half of `Read_UDP`: the packet in the byte order of the host, unless it is
dropped. -/
def to_host (cf : Conf Key) (s : Scat) : Option Scat :=
  let s := s.host_header cf.order
  let pack_type := s.type cf.order
  if cf.Intrusion_Tolerance_Mode && !(Is_intru_tol_data pack_type || Is_intru_tol_ack pack_type ||
      Is_intru_tol_ping pack_type || Is_diffie_hellman pack_type) then none
  else if s.body.length ≠ s.data_len cf.order + s.ack_len cf.order then none
  else (s.host_body cf.order).bind fun body =>
    if cf.Num_Discovery_Addresses ≠ 0 ∧ s.sender_id cf.order = cf.My_Address then none
    else some { s with body }

/-- `Read_UDP`: the packet that is to be processed, if it is not dropped. -/
def Read_UDP (cf : Conf Key) (st : Daemon Key) (datagram : Bytes) (local_iid : ℕ)
    (mode : Link_Type) (remote_addr remote_port : ℕ) (buf : Bytes) : Except Halt (Option Scat) :=
  let received_bytes := datagram.length
  let s : Scat := ⟨datagram.take sizeof_packet_header, datagram.drop sizeof_packet_header⟩
  if received_bytes < sizeof_packet_header then .ok none
  else if sizeof_packet_header + sizeof_packet_body < received_bytes then .ok none
  else if remote_port ≠ cf.Port + mode.num then .ok none
  else if mode = .INTRUSION_TOL_LINK ∧ cf.Crypto = true then do
    let (stripped_bytes, s) ←
      Preprocess_intru_tol_packet cf st s received_bytes local_iid remote_addr buf
    if stripped_bytes < 0 ∨ stripped_bytes < sizeof_packet_header ∨ received_bytes < stripped_bytes
      then .ok none
    else
      .ok (to_host cf { s with body := s.body.take (stripped_bytes.toNat - sizeof_packet_header) })
  else .ok (to_host cf s)

def dispatch (mode : Link_Type) (t : ℕ) : Option Handler :=
  match mode with
  | .CONTROL_LINK =>
    if Is_link_state t then some .Process_state_packet
    else if Is_group_state t then some .Process_state_packet
    else if Is_link_ack t then some .Process_ack_packet
    else none
  | .UDP_LINK => if Is_udp_data t then some .Process_udp_data_packet else none
  | .RELIABLE_UDP_LINK =>
    if Is_rel_udp_data t then some .Process_rel_udp_data_packet
    else if Is_link_ack t then some .Process_ack_packet
    else none
  | .REALTIME_UDP_LINK =>
    if Is_realtime_data t then some .Process_RT_UDP_data_packet
    else if Is_realtime_nack t then some .Process_RT_nack_packet
    else none
  | .INTRUSION_TOL_LINK =>
    if Is_intru_tol_data t then some .Process_intru_tol_data_packet
    else if Is_intru_tol_ack t then some .Process_intru_tol_ack_packet
    else if Is_intru_tol_ping t then some .Process_intru_tol_ping
    else if Is_diffie_hellman t then some .Process_DH_IT
    else none
  | .RESERVED0_LINK => none
  | .RESERVED1_LINK => none

/-- `Prot_process_scat`: the handler that is called, and for which leg. -/
def Prot_process_scat (cf : Conf Key) (st : Daemon Key) (s : Scat) (local_iid : ℕ)
    (mode : Link_Type) (from_addr from_port : ℕ) : Option (Handler × Option Leg_ID) :=
  let hello : Option (Handler × Option Leg_ID) :=
    if mode = .CONTROL_LINK then some (.hello, none) else none
  if s.body.length ≠ s.data_len cf.order + s.ack_len cf.order then none
  else if from_port ≠ cf.Port + mode.num then none
  else match st.Known_Addresses from_addr with
    | none => if Is_hello_type (s.type cf.order) then hello else none
    | some remote_interf =>
      if remote_interf.owner ≠ s.sender_id cf.order then none
      else if Is_hello_type (s.type cf.order) then hello
      else match st.Network_Legs (local_iid, remote_interf.iid) with
        | none => none
        | some leg => match leg.links mode with
          | none => none
          | some _ =>
            if cf.Intrusion_Tolerance_Mode = false ∧
                s.ctrl_link_id cf.order ≠ leg.other_side_ctrl_link_id then none
            else (dispatch mode (s.type cf.order)).map
              fun h => (h, some (local_iid, remote_interf.iid))

end Source

/-! ## 5. The network -/

/-- The daemon's configuration, the link that each key is a key of, and the link that each
leg of the daemon carries. -/
structure Net (Key Λ : Type) where
  cf : Conf Key
  link_of : Key → Λ
  name : Leg_ID → Λ

/-- A packet that `sender` passed to `IT_Link_Send` on `link`, the elements behind the
header in `body`, and the key and IV it was sealed with. -/
structure Sent (Key Λ : Type) where
  sender : ℕ
  order : Endian
  link : Λ
  key : Key
  iv : Bytes
  header : Bytes
  body : List Bytes

/-- A packet on its way from `Read_UDP` to `Prot_process_scat`. The key is the one its link
had when the datagram was received; it is kept for the theorems only. -/
structure Passed (Key : Type) where
  scat : Scat
  local_iid : ℕ
  mode : Link_Type
  addr : ℕ
  port : ℕ
  key : Option Key

structure Call (Key : Type) where
  handler : Handler
  leg : Option Leg_ID
  packet : Passed Key

structure World (Key Λ : Type) where
  st : Daemon Key
  delayed : List (Passed Key)
  log : List (Sent Key Λ)

inductive Fate
  | now
  | later
  | lost

inductive Event (Key Λ : Type)
  /-- some daemon, this one or another, calls `IT_Link_Send` -/
  | send (s : Sent Key Λ) (itdata : Int_Tol_Data Key) (buf : Bytes)
  | daemon (st : Daemon Key)
  | datagram (d : Bytes) (local_iid : ℕ) (mode : Link_Type) (addr port : ℕ) (buf : Bytes)
      (fate : Fate)
  /-- `Proc_Delayed_Pkt` -/
  | timer (i : ℕ)

section Network

variable {Key Λ : Type}

def Daemon.key_of (st : Daemon Key) (local_iid addr : ℕ) : Option Key :=
  (st.it_link local_iid addr).bind fun x =>
    if x.2.dh_key_computed = 2 then some x.2.dh_key else none

def World.process (n : Net Key Λ) (w : World Key Λ) (p : Passed Key) : Option (Call Key) :=
  (Prot_process_scat n.cf w.st p.scat p.local_iid p.mode p.addr p.port).map
    fun c => ⟨c.1, c.2, p⟩

def World.next (n : Net Key Λ) (w : World Key Λ) :
    Event Key Λ → Except Halt (World Key Λ × Option (Call Key))
  | .send s itdata buf => do
      match ← IT_Link_Send n.cf itdata s.iv (s.header :: s.body) buf with
      | none => .ok (w, none)
      | some _ => .ok ({ w with log := w.log ++ [s] }, none)
  | .daemon st => .ok ({ w with st }, none)
  | .datagram d local_iid mode addr port buf fate => do
      match ← Read_UDP n.cf w.st d local_iid mode addr port buf with
      | none => .ok (w, none)
      | some scat =>
        let p : Passed Key := ⟨scat, local_iid, mode, addr, port, w.st.key_of local_iid addr⟩
        match fate with
        | .now => .ok (w, w.process n p)
        | .later => .ok ({ w with delayed := w.delayed ++ [p] }, none)
        | .lost => .ok (w, none)
  | .timer i =>
    match w.delayed[i]? with
    | none => .ok (w, none)
    | some p => .ok ({ w with delayed := w.delayed.eraseIdx i }, w.process n p)

def sealed_types : List ℕ := [INTRU_TOL_DATA_TYPE, INTRU_TOL_ACK_TYPE, INTRU_TOL_PING_TYPE]

/-- The three functions that call `IT_Link_Send` put a header in front that says what the
packet is and who sends it, in their own byte order. -/
structure Sent.Made (n : Net Key Λ) (s : Sent Key Λ) : Prop where
  header : s.header.length = sizeof_packet_header
  type : ∃ ty ∈ sealed_types, field s.order s.header 0 4 = Set_endian s.order ty
  sender : field s.order s.header 4 4 = s.sender
  iv : s.iv.length = (n.cf.crypt s.key).iv_length
  /-- A key is known to the ends of one link only. -/
  key : n.link_of s.key = s.link

/-- A datagram that anyone can send: a string with its HMAC behind it was sealed under that
key before. -/
def World.Unforged (n : Net Key Λ) (w : World Key Λ) (d : Bytes) : Prop :=
  ∀ k body, d = body ++ (n.cf.crypt k).hmac body →
    ∃ s ∈ w.log, s.key = k ∧ body = (n.cf.crypt k).body n.cf.Encrypt s.iv (s.header :: s.body)

/-- What every state of the daemon's tables has: the key of a link is a key of that link,
and no leg leads to one of the daemon's own interfaces (`Create_Network_Leg`). -/
structure Daemon.Fine (n : Net Key Λ) (st : Daemon Key) : Prop where
  key : ∀ local_iid addr leg itdata, st.it_link local_iid addr = some (leg, itdata) →
    itdata.dh_key_computed = 2 → n.link_of itdata.dh_key = n.name leg
  remote : ∀ local_iid addr remote_interf, st.Known_Addresses addr = some remote_interf →
    st.Network_Legs (local_iid, remote_interf.iid) ≠ none → remote_interf.owner ≠ n.cf.My_Address

def Event.Possible (n : Net Key Λ) (w : World Key Λ) : Event Key Λ → Prop
  | .send s itdata buf => s.Made n ∧ itdata.dh_key = s.key ∧ buf.length = sizeof_IT_Crypt_Buf
  | .daemon st =>
    st.Fine n ∧ ∀ addr i, w.st.Known_Addresses addr = some i → st.Known_Addresses addr = some i
  | .datagram d _ _ _ _ buf _ => w.Unforged n d ∧ buf.length = sizeof_IT_Crypt_Buf
  | .timer _ => True

def step (n : Net Key Λ) (w : World Key Λ) (e : Event Key Λ) (w' : World Key Λ) : Prop :=
  e.Possible n w ∧ ∃ call, w.next n e = .ok (w', call)

def World.Start (n : Net Key Λ) (w : World Key Λ) : Prop :=
  w.st.Fine n ∧ w.delayed = [] ∧ w.log = []

/-! ## 6. Byte orders -/

variable {e e' : Endian} {b buf d m : Bytes} {n : Net Key Λ} {s : Sent Key Λ} {cf : Conf Key}
  {scat : Scat} {itdata : Int_Tol_Data Key} {w : World Key Λ} {st : Daemon Key}
  {addr local_iid port : ℕ} {leg : Leg_ID} {mode : Link_Type}

theorem order_of_ne (h : e ≠ e') (bs : Bytes) : e.order bs = (e'.order bs).reverse := by
  cases e <;> cases e'
  · exact absurd rfl h
  · exact (reverse_reverse bs).symm
  · rfl
  · exact absurd rfl h

theorem order_reverse (e : Endian) (bs : Bytes) : e.order bs.reverse = (e.order bs).reverse := by
  cases e <;> rfl

theorem take_flip {w : ℕ} {ws : List ℕ} (h : w ≤ b.length) :
    (flip_fields (w :: ws) b).take w = (b.take w).reverse := by
  have hlen : (b.take w).reverse.length = w := by
    rw [length_reverse, length_take_of_le h]
  rw [flip_fields, take_append_of_le_length (le_of_eq hlen.symm), take_of_length_le
    (le_of_eq hlen)]

theorem drop_flip {w : ℕ} {ws : List ℕ} (h : w ≤ b.length) :
    (flip_fields (w :: ws) b).drop w = flip_fields ws (b.drop w) := by
  have hlen : (b.take w).reverse.length = w := by
    rw [length_reverse, length_take_of_le h]
  rw [flip_fields, drop_append_of_le_length (le_of_eq hlen.symm), drop_of_length_le
    (le_of_eq hlen), nil_append]

theorem flip_field (hne : e ≠ e') (h : b.length = sizeof_packet_header) :
    field e (Flip_pack_hdr b) 0 4 = field e' b 0 4 ∧
      field e (Flip_pack_hdr b) 4 4 = field e' b 4 4 := by
  have hb : b.length = 20 := h
  have hother : ∀ bs : Bytes, e.order bs.reverse = e'.order bs := by
    intro bs
    rw [order_of_ne hne, reverse_eq_iff, order_reverse]
  constructor
  · rw [field, drop_zero, Flip_pack_hdr, take_flip (by omega), hother]
    rfl
  · rw [field, Flip_pack_hdr, drop_flip (by omega),
      take_flip (by rw [length_drop]; omega), hother]
    rfl

theorem flip_read (hne : e ≠ e') (h : 4 ≤ b.length) :
    field e b 0 4 = flip_word 4 (field e' b 0 4) := by
  have hlen : (e'.order ((b.drop 0).take 4)).length = 4 := by
    rw [Endian.order_length, drop_zero, length_take_of_le h]
  rw [field, field, flip_word, le_bytes_value hlen, order_of_ne hne]

theorem type_flip (h : b.length = sizeof_packet_header) :
    field e (Flip_pack_hdr b) 0 4 = Flip_int32 (field e b 0 4) := by
  have hb : b.length = 20 := h
  obtain ⟨e', hne⟩ : ∃ e' : Endian, e' ≠ e := by
    cases e
    · exact ⟨.big, by decide⟩
    · exact ⟨.little, by decide⟩
  rw [(flip_field hne.symm h).1, flip_read hne (by omega)]
  rfl

theorem same_endian_set (o : Endian) : ∀ ty ∈ sealed_types, Same_endian o (Set_endian o ty) = true := by
  cases o <;> decide

theorem same_endian_flip {o : Endian} (hne : e ≠ o) :
    ∀ ty ∈ sealed_types, Same_endian e (flip_word 4 (Set_endian o ty)) = false := by
  cases e <;> cases o
  · exact absurd rfl hne
  · decide
  · decide
  · exact absurd rfl hne

theorem Sent.Made.same_endian (h : s.Made n) (e : Endian) :
    Same_endian e (field e s.header 0 4) = decide (e = s.order) := by
  have hlen : s.header.length = 20 := h.header
  obtain ⟨ty, hty, htype⟩ := h.type
  by_cases heq : e = s.order
  · rw [heq, htype, same_endian_set _ ty hty]
    exact (decide_eq_true rfl).symm
  · rw [flip_read heq (by omega), htype, same_endian_flip heq ty hty]
    exact (decide_eq_false heq).symm

theorem to_host_header {s : Scat} (h : to_host cf s = some scat) :
    scat.header = (s.host_header cf.order).header := by
  unfold to_host at h
  dsimp only at h
  split at h
  · cases h
  · split at h
    · cases h
    · obtain ⟨body, -, hbody⟩ := bind_eq_some_iff.mp h
      split at hbody
      · cases hbody
      · rw [← some.inj hbody]

theorem host_header_header (e : Endian) (s : Scat) : (s.host_header e).header =
    if Same_endian e (field e s.header 0 4) then s.header else Flip_pack_hdr s.header := by
  rw [Scat.host_header, Scat.type]
  split <;> rfl

theorem Sent.Made.read_sender (h : s.Made n) {body : Bytes}
    (hhost : to_host n.cf ⟨s.header, body⟩ = some scat) : scat.sender_id n.cf.order = s.sender := by
  rw [Scat.sender_id, to_host_header hhost, host_header_header, h.same_endian, ← h.sender]
  by_cases heq : n.cf.order = s.order
  · rw [decide_eq_true heq, if_pos rfl, heq]
  · rw [decide_eq_false heq, if_neg Bool.false_ne_true]
    exact (flip_field heq h.header).2

theorem to_host_type {s : Scat} (hlen : s.header.length = sizeof_packet_header)
    (h : to_host cf s = some scat) :
    scat.type cf.order = if Same_endian cf.order (s.type cf.order) then s.type cf.order
      else Flip_int32 (s.type cf.order) := by
  rw [Scat.type, to_host_header h, host_header_header, Scat.type]
  split
  · rfl
  · exact type_flip hlen

/-! ## 7. What the gate lets through -/

theorem unlocked_spec (hcr : ∀ k, (cf.crypt k).Sound) (hkey : itdata.dh_key_computed = 2) {s : Scat}
    (hbuf : buf.length = sizeof_IT_Crypt_Buf) (hlen : (s.header ++ s.body).length ≤ MAX_PACKET_SIZE) :
    match (cf.crypt itdata.dh_key).opens cf.Encrypt (s.header ++ s.body) with
    | none => unlocked cf itdata s buf = .ok none
    | some m => ∃ dst, unlocked cf itdata s buf = .ok (some ((m.length : ℤ), dst)) ∧
        dst.take m.length = m := by
  have hflat : [s.header, s.body].flatten = s.header ++ s.body := by simp
  have hsize : buf.length < 2 ^ 31 := by
    rw [hbuf]
    decide
  have hroom : (s.header ++ s.body).length ≤ buf.length :=
    le_trans hlen (by rw [hbuf]; decide)
  have hopened := (unlock_spec (hcr itdata.dh_key) cf.Encrypt hsize [s.header, s.body]).2
    (by rw [hflat]; exact hroom)
  rw [hflat] at hopened
  rw [unlocked, if_pos hkey]
  cases hopens : (cf.crypt itdata.dh_key).opens cf.Encrypt (s.header ++ s.body) with
  | none =>
    rw [hopens] at hopened
    rw [hopened]
  | some m =>
    rw [hopens] at hopened
    obtain ⟨dst, hok, -, htake⟩ := hopened
    refine ⟨dst, ?_, htake⟩
    rw [hok]

theorem opens_length {cr : Crypto} (hcr : cr.Sound) {encrypt : Bool} {r : Bytes}
    (h : cr.opens encrypt r = some m) : m.length ≤ r.length := by
  obtain ⟨iv, -, rfl⟩ := hcr.seal_of_opens h
  have hbody : m.length ≤ (cr.body encrypt iv [m]).length := by
    rw [Crypto.body]
    split
    · rw [length_append]
      exact le_trans (hcr.padding iv m).1 (Nat.le_add_right _ _)
    · rw [flatten_singleton]
  rw [Crypto.seal, length_append]
  omega

theorem World.Unforged.opens (hcr : ∀ k, (n.cf.crypt k).Sound) (hlog : ∀ s ∈ w.log, s.Made n)
    (h : w.Unforged n d) {k : Key} (hm : (n.cf.crypt k).opens n.cf.Encrypt d = some m) :
    ∃ s ∈ w.log, s.key = k ∧ m = s.header ++ s.body.flatten := by
  obtain ⟨iv, -, hseal⟩ := (hcr k).seal_of_opens hm
  obtain ⟨s, hs, rfl, hbody⟩ := h k ((n.cf.crypt k).body n.cf.Encrypt iv [m]) hseal.symm
  have hd : d = (n.cf.crypt s.key).seal n.cf.Encrypt s.iv (s.header :: s.body) := by
    rw [← hseal, Crypto.seal, Crypto.seal, ← hbody]
  rw [hd, (hcr s.key).opens_seal (hlog s hs).iv] at hm
  exact ⟨s, hs, rfl, (some.inj hm).symm⟩

theorem Preprocess_opens (hcr : ∀ k, (cf.crypt k).Sound) {s : Scat} {received_bytes : ℕ}
    (hbuf : buf.length = sizeof_IT_Crypt_Buf) (hlen : (s.header ++ s.body).length ≤ MAX_PACKET_SIZE)
    (hlink : st.it_link local_iid addr = some (leg, itdata)) (hkey : itdata.dh_key_computed = 2)
    (hopens : (cf.crypt itdata.dh_key).opens cf.Encrypt (s.header ++ s.body) = some m) :
    Preprocess_intru_tol_packet cf st s received_bytes local_iid addr buf
      = .ok ((m.length : ℤ), copy_back m s) := by
  have hspec := unlocked_spec hcr hkey hbuf hlen
  rw [hopens] at hspec
  obtain ⟨dst, hok, htake⟩ := hspec
  rw [Preprocess_intru_tol_packet, hlink]
  dsimp only
  rw [hok]
  change Except.ok ((m.length : ℤ), copy_back (dst.take (m.length : ℤ).toNat) s) = _
  rw [Int.toNat_natCast, htake]

theorem Preprocess_spec (hcr : ∀ k, (cf.crypt k).Sound) (st : Daemon Key) (s : Scat)
    (received_bytes local_iid addr : ℕ) (hbuf : buf.length = sizeof_IT_Crypt_Buf)
    (hlen : (s.header ++ s.body).length ≤ MAX_PACKET_SIZE) :
    Preprocess_intru_tol_packet cf st s received_bytes local_iid addr buf = .ok (-1, s) ∨
    (Preprocess_intru_tol_packet cf st s received_bytes local_iid addr buf
        = .ok (received_bytes, s) ∧
      Is_diffie_hellman (if Same_endian cf.order (s.type cf.order) then s.type cf.order
        else Flip_int32 (s.type cf.order)) = true) ∨
    ∃ leg itdata m, st.it_link local_iid addr = some (leg, itdata) ∧
      itdata.dh_key_computed = 2 ∧
      (cf.crypt itdata.dh_key).opens cf.Encrypt (s.header ++ s.body) = some m ∧
      Preprocess_intru_tol_packet cf st s received_bytes local_iid addr buf
        = .ok ((m.length : ℤ), copy_back m s) := by
  cases hlink : st.it_link local_iid addr with
  | none =>
    rw [Preprocess_intru_tol_packet, hlink]
    exact .inl rfl
  | some x =>
    obtain ⟨leg, itdata⟩ := x
    -- what does not open goes on only if it says Diffie-Hellman
    have hclosed : unlocked cf itdata s buf = .ok none →
        Preprocess_intru_tol_packet cf st s received_bytes local_iid addr buf = .ok (-1, s) ∨
        (Preprocess_intru_tol_packet cf st s received_bytes local_iid addr buf
            = .ok (received_bytes, s) ∧
          Is_diffie_hellman (if Same_endian cf.order (s.type cf.order) then s.type cf.order
            else Flip_int32 (s.type cf.order)) = true) := by
      intro hfail
      rw [Preprocess_intru_tol_packet, hlink]
      dsimp only
      rw [hfail]
      cases hdh : Is_diffie_hellman (if Same_endian cf.order (s.type cf.order) then
          s.type cf.order else Flip_int32 (s.type cf.order)) with
      | false => exact .inl rfl
      | true => exact .inr ⟨rfl, rfl⟩
    by_cases hkey : itdata.dh_key_computed = 2
    · have hspec := unlocked_spec hcr hkey hbuf hlen
      cases hopens : (cf.crypt itdata.dh_key).opens cf.Encrypt (s.header ++ s.body) with
      | none =>
        rw [hopens] at hspec
        exact (hclosed hspec).imp_right Or.inl
      | some m =>
        exact .inr (.inr ⟨leg, itdata, m, rfl, hkey, hopens,
          Preprocess_opens hcr hbuf hlen hlink hkey hopens⟩)
    · exact (hclosed (if_neg hkey)).imp_right Or.inl

theorem copy_back_sent {header body : Bytes} (hlen : header.length = sizeof_packet_header)
    (hle : (header ++ body).length ≤ d.length) :
    copy_back (header ++ body) ⟨d.take sizeof_packet_header, d.drop sizeof_packet_header⟩ =
      ⟨header, body⟩ := by
  have hd : (d.take sizeof_packet_header).length = sizeof_packet_header := by
    rw [length_append] at hle
    exact length_take_of_le (by omega)
  have htake : (header ++ body).take sizeof_packet_header = header := take_left' hlen
  have hdrop : (header ++ body).drop sizeof_packet_header = body := drop_left' hlen
  have hbody : body.take (d.drop sizeof_packet_header).length = body := by
    rw [length_append] at hle
    exact take_of_length_le (by rw [length_drop]; omega)
  rw [copy_back]
  simp only [hd, htake, hdrop, hbody]

/-- What `Read_UDP` passes on for an intrusion-tolerant link says Diffie-Hellman, or is a
packet that was sealed under the key of the link. -/
structure Vouched (n : Net Key Λ) (st : Daemon Key) (log : List (Sent Key Λ))
    (local_iid addr : ℕ) (scat : Scat) (leg : Leg_ID) (itdata : Int_Tol_Data Key)
    (s : Sent Key Λ) : Prop where
  link : st.it_link local_iid addr = some (leg, itdata)
  computed : itdata.dh_key_computed = 2
  log : s ∈ log
  key : s.key = itdata.dh_key
  read : to_host n.cf ⟨s.header, s.body.flatten⟩ = some scat

theorem Read_UDP_spec (hcr : ∀ k, (n.cf.crypt k).Sound) (hcrypto : n.cf.Crypto = true)
    (hlog : ∀ s ∈ w.log, s.Made n) (hd : w.Unforged n d) (hbuf : buf.length = sizeof_IT_Crypt_Buf)
    (local_iid : ℕ) (mode : Link_Type) (addr port : ℕ) :
    ∃ r, Read_UDP n.cf w.st d local_iid mode addr port buf = .ok r ∧
      ∀ scat ∈ r, mode = .INTRUSION_TOL_LINK →
        Is_diffie_hellman (scat.type n.cf.order) = true ∨
        ∃ leg itdata s, Vouched n w.st w.log local_iid addr scat leg itdata s := by
  rw [Read_UDP]
  by_cases hshort : d.length < sizeof_packet_header
  · rw [if_pos hshort]
    exact ⟨none, rfl, fun scat h => by cases h⟩
  rw [if_neg hshort]
  by_cases hbig : sizeof_packet_header + sizeof_packet_body < d.length
  · rw [if_pos hbig]
    exact ⟨none, rfl, fun scat h => by cases h⟩
  rw [if_neg hbig]
  by_cases hport : port ≠ n.cf.Port + mode.num
  · rw [if_pos hport]
    exact ⟨none, rfl, fun scat h => by cases h⟩
  rw [if_neg hport]
  by_cases hmode : mode = .INTRUSION_TOL_LINK
  · rw [if_pos ⟨hmode, hcrypto⟩]
    have hhead : (d.take sizeof_packet_header).length = sizeof_packet_header :=
      length_take_of_le (by omega)
    have hsplit : d.take sizeof_packet_header ++ d.drop sizeof_packet_header = d :=
      take_append_drop _ _
    have hmax : (d.take sizeof_packet_header ++ d.drop sizeof_packet_header).length ≤
        MAX_PACKET_SIZE := by
      rw [hsplit]
      exact le_trans (not_lt.mp hbig) (by decide)
    obtain hdrop | ⟨hpass, hdh⟩ | ⟨leg, itdata, m, hlink, hkey, hopens, hok⟩ :=
      Preprocess_spec hcr w.st ⟨d.take sizeof_packet_header, d.drop sizeof_packet_header⟩ d.length
        local_iid addr hbuf hmax
    · rw [hdrop]
      exact ⟨none, rfl, fun scat h => by cases h⟩
    · rw [hpass]
      refine ⟨_, if_neg ?_, ?_⟩
      · omega
      intro scat hscat _
      -- the packet is as it came, and so is its type
      refine .inl ?_
      rw [to_host_type (by exact hhead) hscat]
      exact hdh
    · rw [hsplit] at hopens
      obtain ⟨s, hs, hk, rfl⟩ := hd.opens hcr hlog hopens
      rw [hok]
      by_cases hlen : (((s.header ++ s.body.flatten).length : ℤ) < 0 ∨
          ((s.header ++ s.body.flatten).length : ℤ) < sizeof_packet_header ∨
          (d.length : ℤ) < ((s.header ++ s.body.flatten).length : ℤ))
      · exact ⟨none, if_pos hlen, fun scat h => by cases h⟩
      · refine ⟨_, if_neg hlen, ?_⟩
        intro scat hscat _
        have hmade := hlog s hs
        rw [copy_back_sent hmade.header (by omega)] at hscat
        have hbody : s.body.flatten.take (((s.header ++ s.body.flatten).length : ℤ).toNat -
            sizeof_packet_header) = s.body.flatten := by
          refine take_of_length_le ?_
          have hh := hmade.header
          rw [Int.toNat_natCast, length_append]
          omega
        dsimp only at hscat
        rw [hbody] at hscat
        exact .inr ⟨leg, itdata, s, hlink, hkey, hs, hk, hscat⟩
  · rw [if_neg (fun h => hmode h.1)]
    exact ⟨_, rfl, fun scat _ h => absurd h hmode⟩

/-! ## 8. The gate -/

def Handler.trusting : Handler → Bool
  | .Process_intru_tol_data_packet => true
  | .Process_intru_tol_ack_packet => true
  | .Process_intru_tol_ping => true
  | _ => false

theorem dispatch_trusting {t : ℕ} {h : Handler} (hd : dispatch mode t = some h) :
    (mode = .INTRUSION_TOL_LINK → h.trusting = true ∨ h = .Process_DH_IT) ∧
    (h.trusting = true → mode = .INTRUSION_TOL_LINK ∧ Is_diffie_hellman t = false) := by
  have hdiffer : ∀ ty, ty ≠ DIFFIE_HELLMAN_TYPE → is_data ty t = true →
      Is_diffie_hellman t = false := by
    intro ty hne hty
    have heq : t &&& DATA_MASK = ty := by simpa [is_data] using hty
    rw [Is_diffie_hellman, is_data, heq]
    simpa using hne
  cases mode with
  | INTRUSION_TOL_LINK =>
    simp only [dispatch] at hd
    split at hd
    · rename_i hty
      cases hd
      exact ⟨fun _ => .inl rfl, fun _ => ⟨rfl, hdiffer _ (by decide) hty⟩⟩
    · split at hd
      · rename_i hty
        cases hd
        exact ⟨fun _ => .inl rfl, fun _ => ⟨rfl, hdiffer _ (by decide) hty⟩⟩
      · split at hd
        · rename_i hty
          cases hd
          exact ⟨fun _ => .inl rfl, fun _ => ⟨rfl, hdiffer _ (by decide) hty⟩⟩
        · split at hd
          · cases hd
            exact ⟨fun _ => .inr rfl, fun h => by cases h⟩
          · cases hd
  | CONTROL_LINK | UDP_LINK | RELIABLE_UDP_LINK | REALTIME_UDP_LINK | RESERVED0_LINK
  | RESERVED1_LINK =>
    refine ⟨fun h => (by cases h), fun h => ?_⟩
    simp only [dispatch] at hd
    repeat' split at hd
    all_goals cases hd <;> cases h

theorem Prot_process_spec {s : Scat} {h : Handler} {leg : Option Leg_ID}
    (hcall : Prot_process_scat cf st s local_iid mode addr port = some (h, leg)) :
    (mode = .INTRUSION_TOL_LINK → h.trusting = true ∨ h = .Process_DH_IT) ∧
    (h.trusting = true → mode = .INTRUSION_TOL_LINK ∧
      Is_diffie_hellman (s.type cf.order) = false ∧
      ∃ remote, st.Known_Addresses addr = some remote ∧ remote.owner = s.sender_id cf.order ∧
        leg = some (local_iid, remote.iid) ∧ st.Network_Legs (local_iid, remote.iid) ≠ none) := by
  have hello : ∀ {r : Handler × Option Leg_ID},
      (if mode = .CONTROL_LINK then some (Handler.hello, none) else none) = some r →
      mode = .CONTROL_LINK ∧ r = (.hello, none) := by
    intro r hr
    split at hr
    · rename_i hmode
      exact ⟨hmode, (some.inj hr).symm⟩
    · cases hr
  have hcontrol : mode = .CONTROL_LINK → (h, leg) = (Handler.hello, none) →
      (mode = .INTRUSION_TOL_LINK → h.trusting = true ∨ h = .Process_DH_IT) ∧
      (h.trusting = true → False) := by
    rintro rfl heq
    obtain ⟨rfl, -⟩ := Prod.mk.inj heq
    exact ⟨fun h => (by cases h), fun h => (by cases h)⟩
  rw [Prot_process_scat] at hcall
  split at hcall
  · cases hcall
  split at hcall
  · cases hcall
  split at hcall
  · split at hcall
    · obtain ⟨hmode, heq⟩ := hello hcall
      obtain ⟨h1, h2⟩ := hcontrol hmode heq
      exact ⟨h1, fun h => (h2 h).elim⟩
    · cases hcall
  · rename_i remote hremote
    split at hcall
    · cases hcall
    rename_i hsender
    split at hcall
    · obtain ⟨hmode, heq⟩ := hello hcall
      obtain ⟨h1, h2⟩ := hcontrol hmode heq
      exact ⟨h1, fun h => (h2 h).elim⟩
    split at hcall
    · cases hcall
    · rename_i l hleg
      split at hcall
      · cases hcall
      split at hcall
      · cases hcall
      · obtain ⟨h', hdisp, heq⟩ := map_eq_some_iff.mp hcall
        obtain ⟨rfl, rfl⟩ := Prod.mk.inj heq
        obtain ⟨hit, htrust⟩ := dispatch_trusting hdisp
        refine ⟨hit, fun ht => ⟨(htrust ht).1, (htrust ht).2, remote, hremote, ?_, rfl, ?_⟩⟩
        · exact not_not.mp hsender
        · rw [hleg]
          exact some_ne_none l

/-- A packet that may be processed: on an intrusion-tolerant link it says Diffie-Hellman,
or was sealed for that link under the key it had. -/
def Passed.Genuine (n : Net Key Λ) (st : Daemon Key) (log : List (Sent Key Λ)) (p : Passed Key) :
    Prop :=
  p.mode = .INTRUSION_TOL_LINK →
    Is_diffie_hellman (p.scat.type n.cf.order) = true ∨
    ∃ remote, ∃ s ∈ log, st.Known_Addresses p.addr = some remote ∧ p.key = some s.key ∧
      s.link = n.name (p.local_iid, remote.iid) ∧
      to_host n.cf ⟨s.header, s.body.flatten⟩ = some p.scat

theorem Passed.Genuine.mono {st' : Daemon Key} {log log' : List (Sent Key Λ)} {p : Passed Key}
    (h : p.Genuine n st log)
    (hst : ∀ addr i, st.Known_Addresses addr = some i → st'.Known_Addresses addr = some i)
    (hlog : ∀ s ∈ log, s ∈ log') : p.Genuine n st' log' := by
  intro hmode
  obtain hdh | ⟨remote, s, hs, hremote, hrest⟩ := h hmode
  · exact .inl hdh
  · exact .inr ⟨remote, s, hlog s hs, hst _ _ hremote, hrest⟩

theorem it_link_some (h : st.it_link local_iid addr = some (leg, itdata)) :
    ∃ remote, st.Known_Addresses addr = some remote ∧ leg = (local_iid, remote.iid) := by
  rw [Daemon.it_link] at h
  obtain ⟨remote, hremote, h⟩ := bind_eq_some_iff.mp h
  obtain ⟨l, -, h⟩ := bind_eq_some_iff.mp h
  obtain ⟨lk, -, h⟩ := bind_eq_some_iff.mp h
  obtain ⟨itdata', -, h⟩ := bind_eq_some_iff.mp h
  obtain ⟨rfl, -⟩ := Prod.mk.inj (some.inj h)
  exact ⟨remote, hremote, rfl⟩

theorem Vouched.genuine (hfine : w.st.Fine n) (hlog : ∀ s ∈ w.log, s.Made n)
    (h : Vouched n w.st w.log local_iid addr scat leg itdata s) :
    Passed.Genuine n w.st w.log ⟨scat, local_iid, mode, addr, port, w.st.key_of local_iid addr⟩ := by
  intro _
  obtain ⟨remote, hremote, rfl⟩ := it_link_some h.link
  refine .inr ⟨remote, s, h.log, hremote, ?_, ?_, h.read⟩
  · rw [Daemon.key_of, h.link, h.key]
    exact if_pos h.computed
  · rw [← (hlog s h.log).key, h.key]
    exact hfine.key _ _ _ _ h.link h.computed

structure Call.Authentic (n : Net Key Λ) (w : World Key Λ) (c : Call Key) : Prop where
  reaches : c.packet.mode = .INTRUSION_TOL_LINK →
    c.handler.trusting = true ∨ c.handler = .Process_DH_IT
  sealed : c.handler.trusting = true → ∃ remote, ∃ s ∈ w.log,
    w.st.Known_Addresses c.packet.addr = some remote ∧
    c.leg = some (c.packet.local_iid, remote.iid) ∧
    s.link = n.name (c.packet.local_iid, remote.iid) ∧
    s.sender = remote.owner ∧ s.sender ≠ n.cf.My_Address ∧ c.packet.key = some s.key ∧
    to_host n.cf ⟨s.header, s.body.flatten⟩ = some c.packet.scat

theorem process_authentic (hfine : w.st.Fine n) (hlog : ∀ s ∈ w.log, s.Made n) {p : Passed Key}
    (hp : p.Genuine n w.st w.log) {c : Call Key} (hc : w.process n p = some c) :
    c.Authentic n w := by
  rw [World.process] at hc
  obtain ⟨⟨h, leg⟩, hcall, rfl⟩ := map_eq_some_iff.mp hc
  obtain ⟨hreach, htrust⟩ := Prot_process_spec hcall
  refine ⟨hreach, ?_⟩
  intro ht
  obtain ⟨hmode, hnot, remote, hremote, howner, hleg, hsome⟩ := htrust ht
  obtain hdh | ⟨remote', s, hs, hremote', hkey, hlink, hread⟩ := hp hmode
  · rw [hnot] at hdh
    cases hdh
  · obtain rfl : remote = remote' := some.inj (hremote.symm.trans hremote')
    -- the sender's id in the header says who sealed the packet, and it was not this daemon
    have hsender : s.sender = remote.owner := by
      rw [howner, ← (hlog s hs).read_sender hread]
    refine ⟨remote, s, hs, hremote, hleg, hlink, hsender, ?_, hkey, hread⟩
    rw [hsender]
    exact hfine.remote _ _ _ hremote hsome

structure World.Gated (n : Net Key Λ) (w : World Key Λ) : Prop where
  fine : w.st.Fine n
  log : ∀ s ∈ w.log, s.Made n
  delayed : ∀ p ∈ w.delayed, p.Genuine n w.st w.log

theorem IT_Link_Send_locked (cf : Conf Key) (itdata : Int_Tol_Data Key) (hcrypto : cf.Crypto = true)
    (hkey : itdata.dh_key_computed = 2) {iv dst : Bytes} {msg : List Bytes} {len : ℤ}
    (h : Sec_lock_msg (cf.crypt itdata.dh_key) cf.Encrypt iv msg buf = .ok (len, dst)) :
    IT_Link_Send cf itdata iv msg buf = .ok (some (dst.take len.toNat)) := by
  rw [IT_Link_Send, if_pos hcrypto, if_neg (not_not.mpr hkey), h]

theorem IT_Link_Send_ok (hcr : ∀ k, (cf.crypt k).Sound) (itdata : Int_Tol_Data Key) {iv : Bytes}
    {k : Key} (hiv : iv.length = (cf.crypt k).iv_length) (hk : itdata.dh_key = k) {msg : List Bytes}
    (hbuf : buf.length = sizeof_IT_Crypt_Buf) :
    IT_Link_Send cf itdata iv msg buf = .ok none ∨
      ∃ d, IT_Link_Send cf itdata iv msg buf = .ok (some d) := by
  have hsize : buf.length < 2 ^ 31 := by
    rw [hbuf]
    decide
  rw [IT_Link_Send]
  split
  · split
    · exact .inl rfl
    · rw [hk]
      obtain hfail | ⟨-, hlock⟩ := lock_spec (hcr k) hiv hsize msg
      · rw [hfail]
        exact .inl rfl
      · rw [hlock]
        exact .inr ⟨_, rfl⟩
  · exact .inr ⟨_, rfl⟩

theorem next_gated (hcr : ∀ k, (n.cf.crypt k).Sound) (hcrypto : n.cf.Crypto = true) (hw : w.Gated n)
    {e : Event Key Λ} (he : e.Possible n w) :
    ∃ w' call, w.next n e = .ok (w', call) ∧ w'.Gated n ∧ ∀ c ∈ call, c.Authentic n w := by
  cases e with
  | send s itdata buf =>
    obtain ⟨hmade, hkey, hbuf⟩ := he
    obtain hnone | ⟨d, hsent⟩ := IT_Link_Send_ok hcr itdata hmade.iv hkey hbuf
    · refine ⟨w, none, ?_, hw, fun c h => by cases h⟩
      rw [World.next, hnone]
      rfl
    · refine ⟨{ w with log := w.log ++ [s] }, none, ?_, ⟨hw.fine, ?_, ?_⟩, fun c h => by cases h⟩
      · rw [World.next, hsent]
        rfl
      · intro s' hs'
        rcases mem_append.mp hs' with hs' | hs'
        · exact hw.log s' hs'
        · rw [mem_singleton.mp hs']
          exact hmade
      · intro p hp
        exact (hw.delayed p hp).mono (fun _ _ h => h) (fun _ h => mem_append_left _ h)
  | daemon st =>
    obtain ⟨hfine, hknown⟩ := he
    refine ⟨_, none, rfl, ⟨hfine, hw.log, ?_⟩, fun c h => by cases h⟩
    intro p hp
    exact (hw.delayed p hp).mono hknown (fun _ h => h)
  | datagram d local_iid mode addr port buf fate =>
    obtain ⟨hd, hbuf⟩ := he
    obtain ⟨r, hread, hspec⟩ :=
      Read_UDP_spec hcr hcrypto hw.log hd hbuf local_iid mode addr port
    cases r with
    | none =>
      refine ⟨w, none, ?_, hw, fun c h => by cases h⟩
      rw [World.next, hread]
      rfl
    | some scat =>
      have hp : Passed.Genuine n w.st w.log
          ⟨scat, local_iid, mode, addr, port, w.st.key_of local_iid addr⟩ := by
        intro hmode
        obtain hdh | ⟨leg, itdata, s, hv⟩ := hspec scat rfl hmode
        · exact .inl hdh
        · exact hv.genuine hw.fine hw.log hmode
      cases fate with
      | now =>
        refine ⟨w, _, ?_, hw, fun c hc => process_authentic hw.fine hw.log hp hc⟩
        rw [World.next, hread]
        rfl
      | later =>
        refine ⟨{ w with delayed := w.delayed ++ [⟨scat, local_iid, mode, addr, port,
          w.st.key_of local_iid addr⟩] }, none, ?_, ⟨hw.fine, hw.log, ?_⟩,
          fun c h => by cases h⟩
        · rw [World.next, hread]
          rfl
        · intro p hmem
          rcases mem_append.mp hmem with hmem | hmem
          · exact hw.delayed p hmem
          · rw [mem_singleton.mp hmem]
            exact hp
      | lost =>
        refine ⟨w, none, ?_, hw, fun c h => by cases h⟩
        rw [World.next, hread]
        rfl
  | timer i =>
    cases hget : w.delayed[i]? with
    | none =>
      refine ⟨w, none, ?_, hw, fun c h => by cases h⟩
      rw [World.next, hget]
    | some p =>
      have hmem : p ∈ w.delayed := mem_of_getElem? hget
      refine ⟨{ w with delayed := w.delayed.eraseIdx i }, _, ?_, ⟨hw.fine, hw.log, ?_⟩,
        fun c hc => process_authentic hw.fine hw.log (hw.delayed p hmem) hc⟩
      · rw [World.next, hget]
      · intro q hq
        exact hw.delayed q (mem_of_mem_eraseIdx hq)

theorem World.Gated.run (hcr : ∀ k, (n.cf.crypt k).Sound) (hcrypto : n.cf.Crypto = true)
    {w0 : World Key Λ} (h0 : w0.Start n) (h : Run (step n) w0 w) : w.Gated n := by
  obtain ⟨hfine, hdelayed, hlog⟩ := h0
  have hstart : w0.Gated n := by
    refine ⟨hfine, ?_, ?_⟩
    · rw [hlog]
      exact fun _ h => absurd h not_mem_nil
    · rw [hdelayed]
      exact fun _ h => absurd h not_mem_nil
  refine Run.invariant (World.Gated n) hstart ?_ h
  rintro w e w' hw ⟨he, call, hnext⟩
  obtain ⟨w'', call', hnext', hw', -⟩ := next_gated hcr hcrypto hw he
  rw [hnext] at hnext'
  obtain ⟨rfl, -⟩ := Prod.mk.inj (Except.ok.inj hnext')
  exact hw'

/-- In every run, whatever anybody sends: a handler of an intrusion-tolerant link that
trusts its input gets, in the daemon's byte order and split behind the header as they were
sent, the header and body that the neighbour at the other end of this link passed to
`IT_Link_Send` under the key that the link had when the datagram was received. All other
datagrams for such a link are dropped or reach `Process_DH_IT`. -/
theorem authentication_gate {n : Net Key Λ} (hcr : ∀ k, (n.cf.crypt k).Sound)
    (hcrypto : n.cf.Crypto = true) {w₀ w : World Key Λ} (h0 : w₀.Start n)
    (h : Run (step n) w₀ w) {e : Event Key Λ} (he : e.Possible n w) :
    ∃ w' call, w.next n e = .ok (w', call) ∧ ∀ c ∈ call, c.Authentic n w := by
  obtain ⟨w', call, hnext, -, hcall⟩ := next_gated hcr hcrypto (World.Gated.run hcr hcrypto h0 h) he
  exact ⟨w', call, hnext, hcall⟩

/-! ### What is sealed gets through -/

theorem Read_UDP_sealed (hcr : ∀ k, (n.cf.crypt k).Sound) (hcrypto : n.cf.Crypto = true)
    (hs : s.Made n) (hlink : st.it_link local_iid addr = some (leg, itdata))
    (hkey : itdata.dh_key_computed = 2) (hsame : itdata.dh_key = s.key)
    (hport : port = n.cf.Port + Link_Type.INTRUSION_TOL_LINK.num)
    (hd : d = (n.cf.crypt s.key).seal n.cf.Encrypt s.iv (s.header :: s.body))
    (hmax : d.length ≤ MAX_PACKET_SIZE) (hbuf : buf.length = sizeof_IT_Crypt_Buf) :
    Read_UDP n.cf st d local_iid .INTRUSION_TOL_LINK addr port buf =
      .ok (to_host n.cf ⟨s.header, s.body.flatten⟩) := by
  have hopens : (n.cf.crypt itdata.dh_key).opens n.cf.Encrypt d =
      some (s.header ++ s.body.flatten) := by
    rw [hd, hsame, (hcr s.key).opens_seal hs.iv]
    rfl
  have hlong : (s.header ++ s.body.flatten).length ≤ d.length := opens_length (hcr _) hopens
  have hheader := hs.header
  have hfull : sizeof_packet_header ≤ (s.header ++ s.body.flatten).length := by
    rw [length_append]
    omega
  have hsplit : d.take sizeof_packet_header ++ d.drop sizeof_packet_header = d :=
    take_append_drop _ _
  have hpre : Preprocess_intru_tol_packet n.cf st ⟨d.take sizeof_packet_header,
      d.drop sizeof_packet_header⟩ d.length local_iid addr buf =
      .ok (((s.header ++ s.body.flatten).length : ℤ), copy_back (s.header ++ s.body.flatten)
        ⟨d.take sizeof_packet_header, d.drop sizeof_packet_header⟩) := by
    refine Preprocess_opens hcr hbuf ?_ hlink hkey ?_
    · rw [hsplit]
      exact hmax
    · rw [hsplit]
      exact hopens
  have hbig : ¬ sizeof_packet_header + sizeof_packet_body < d.length :=
    not_lt.mpr (le_trans hmax (by decide))
  have hbody : s.body.flatten.take (((s.header ++ s.body.flatten).length : ℤ).toNat -
      sizeof_packet_header) = s.body.flatten := by
    refine take_of_length_le ?_
    rw [Int.toNat_natCast, length_append]
    omega
  rw [Read_UDP, if_neg (by omega), if_neg hbig, if_neg (not_not.mpr hport),
    if_pos ⟨rfl, hcrypto⟩, hpre, copy_back_sent hheader hlong]
  change ite _ _ (Except.ok (to_host n.cf ⟨s.header, s.body.flatten.take _⟩)) = _
  rw [if_neg (by omega), hbody]

end Network

/-! ### A ping from a big-endian neighbour -/

def ping_net : Net Unit Unit where
  cf := {
    order := .little, Port := 8100, My_Address := 1, Crypto := true, Encrypt := false,
    Intrusion_Tolerance_Mode := true, Num_Discovery_Addresses := 0, crypt := fun _ => clear_text }
  link_of := fun _ => ()
  name := fun _ => ()

def ping_start : World Unit Unit where
  st := {
    Known_Addresses := fun addr => if addr = 22 then some ⟨2, 2⟩ else none
    Network_Legs := fun leg =>
      if leg = (1, 2) then some ⟨0, fun t => if t = .INTRUSION_TOL_LINK then some ⟨some ⟨2, ()⟩⟩ else none⟩
      else none }
  delayed := []
  log := []

def ping : Sent Unit Unit where
  sender := 2
  order := .big
  link := ()
  key := ()
  iv := replicate 16 0
  header := [0, 0, 0, 0xC, 0, 0, 0, 2, 0, 0, 0, 0, 0, 2, 0, 0, 0, 0, 0, 0]
  body := [[9], [7]]

theorem ping_made : ping.Made ping_net :=
  ⟨rfl, ⟨INTRU_TOL_PING_TYPE, by decide, by decide⟩, by decide, rfl, rfl⟩

theorem ping_start_start : ping_start.Start ping_net := by
  refine ⟨⟨fun _ _ _ _ _ _ => rfl, ?_⟩, rfl, rfl⟩
  intro local_iid addr remote hremote _
  change (if addr = 22 then some (⟨2, 2⟩ : Interface) else none) = some remote at hremote
  split at hremote
  · rw [← some.inj hremote]
    decide
  · cases hremote

theorem authentication_gate_ping : ∃ w e w' c, Run (step ping_net) ping_start w ∧
    e.Possible ping_net w ∧ w.next ping_net e = .ok (w', some c) ∧
    c.handler = .Process_intru_tol_ping ∧ c.packet.scat.body = [9, 7] ∧ c.Authentic ping_net w := by
  have hcr : ∀ k, (ping_net.cf.crypt k).Sound := fun _ => clear_text_sound
  have hbuf : (replicate 100000 (0 : UInt8)).length = sizeof_IT_Crypt_Buf :=
    length_replicate
  let d : Bytes := clear_text.seal false ping.iv (ping.header :: ping.body)
  let w : World Unit Unit := { ping_start with log := [ping] }
  have hsend : (Event.send ping ⟨2, ()⟩ (replicate 100000 0)).Possible ping_net ping_start :=
    ⟨ping_made, rfl, hbuf⟩
  have hnext : ping_start.next ping_net (.send ping ⟨2, ()⟩ (replicate 100000 0)) =
      .ok (w, none) := by
    have hlock : Sec_lock_msg clear_text false ping.iv (ping.header :: ping.body)
        (replicate 100000 0) = _ :=
      lock_plain clear_text_sound (by rw [length_replicate]; decide) _
    have hroom : ¬ 100000 < (clear_text.seal false ping.iv (ping.header :: ping.body)).length := by
      decide +kernel
    rw [length_replicate, if_neg hroom] at hlock
    have hsent := IT_Link_Send_locked ping_net.cf ⟨2, ()⟩ rfl rfl hlock
    rw [World.next, hsent]
    rfl
  have hrun : Run (step ping_net) ping_start w := (Run.refl _).tail ⟨hsend, none, hnext⟩
  have hd : w.Unforged ping_net d := by
    intro k body hbody
    refine ⟨ping, mem_singleton.mpr rfl, rfl, ?_⟩
    have hlen : (clear_text.hmac (clear_text.body false ping.iv (ping.header :: ping.body))).length =
        (clear_text.hmac body).length := by
      rw [clear_text_sound.hmac_length, clear_text_sound.hmac_length]
    exact ((append_inj' hbody hlen).1).symm
  have he : (Event.datagram d 1 .INTRUSION_TOL_LINK 22 8106 (replicate 100000 0)
      .now).Possible ping_net w := ⟨hd, hbuf⟩
  have hlink : w.st.it_link 1 22 = some ((1, 2), ⟨2, ()⟩) := rfl
  have hread : Read_UDP ping_net.cf w.st d 1 .INTRUSION_TOL_LINK 22 8106 (replicate 100000 0) =
      .ok (to_host ping_net.cf ⟨ping.header, ping.body.flatten⟩) :=
    Read_UDP_sealed hcr rfl ping_made hlink rfl rfl rfl rfl (by decide +kernel) hbuf
  obtain ⟨w', call, hgate, hcall⟩ := authentication_gate hcr rfl ping_start_start hrun he
  have hpass : to_host ping_net.cf ⟨ping.header, ping.body.flatten⟩ = some
      ⟨[0xC, 0, 0, 0, 2, 0, 0, 0, 0, 0, 0, 0, 2, 0, 0, 0, 0, 0, 0, 0], [9, 7]⟩ := by decide +kernel
  rw [hpass] at hread
  let p : Passed Unit := ⟨⟨[0xC, 0, 0, 0, 2, 0, 0, 0, 0, 0, 0, 0, 2, 0, 0, 0, 0, 0, 0, 0], [9, 7]⟩, 1,
    .INTRUSION_TOL_LINK, 22, 8106, w.st.key_of 1 22⟩
  have hprot : Prot_process_scat ping_net.cf w.st p.scat 1 .INTRUSION_TOL_LINK 22 8106 =
      some (.Process_intru_tol_ping, some (1, 2)) := by decide +kernel
  have hproc : w.process ping_net p = some ⟨.Process_intru_tol_ping, some (1, 2), p⟩ := by
    change (Prot_process_scat ping_net.cf w.st p.scat 1 .INTRUSION_TOL_LINK 22 8106).map _ = _
    rw [hprot]
    rfl
  have hnow : w.next ping_net (.datagram d 1 .INTRUSION_TOL_LINK 22 8106 (replicate 100000 0)
      .now) = .ok (w, w.process ping_net p) := by
    rw [World.next, hread]
    rfl
  rw [hnow, hproc] at hgate
  obtain ⟨rfl, rfl⟩ := Prod.mk.inj (Except.ok.inj hgate)
  exact ⟨w, _, w, _, hrun, he, hnow.trans (by rw [hproc]), rfl, rfl, hcall _ rfl⟩

end Spines.IntruTol.Gate
