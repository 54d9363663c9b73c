/-
The key exchange of an intrusion-tolerant link (`Key_Exchange_IT`, `Send_IT_DH`,
`Process_DH_IT`, `Process_intru_tol_ping`, `DH_established` and
`Preprocess_intru_tol_packet` of `daemon/intrusion_tol_udp.c`, `Create_Link` of
`daemon/link.c`, with `Conf_IT_Link.Crypto == 1`).

An `End` holds the fields of `Int_Tol_Data` that decide about the key. A key-exchange
packet is read byte by byte, as it comes from the network; what it carries is signed.
Everything else is sealed under the key of the link and reaches a handler only if
`Sec_unlock_msg` succeeds.

The arithmetic of Diffie-Hellman and the signatures are a parameter, `Crypto`: the
source takes both from a library. `DH_generate_key` draws the secret the first time it
is called and keeps it afterwards, so the secret of an end is drawn with the link. The
packet header's type, which selects the handler, is left out, and so are the round-trip
estimates that a `PONG` updates.
-/
import Mathlib.Data.Nat.Log
import Spines.IntruTol.Fragments
import Spines.Lib.Bytes
import Spines.Lib.Run

set_option autoImplicit false

namespace Spines.IntruTol.KeyExchange

open Spines.Lib Function

/-! ## 1. Configuration -/

def MAX_PING_HIST : ℕ := 5

/-- What the two ends (`true` and `false`) of the link have from their configuration. -/
structure Conf where
  /-- The byte order of the hosts; the exchange does not convert. -/
  order : Endian
  My_Address : Bool → ℕ
  iid : Bool → ℕ
  /-- `Node_Lookup_Addr_to_ID` has the end's interface. -/
  in_config : Bool → Bool
  HMAC_Key_Len : ℕ
  Signature_Len : ℕ
  Conf_Hash : Bytes
  it_incarnation_timeout : ℕ
  it_ping_timeout : ℕ
  conf_hash_length : Conf_Hash.length = HMAC_Key_Len

structure PacketHeader where
  sender_id : ℕ
  ctrl_link_id : ℕ
  data_len : ℕ
  ack_len : ℕ
  seq_no : ℕ
  deriving DecidableEq, Repr

abbrev Text := PacketHeader × Bytes

structure Crypto (Secret Key : Type) where
  /-- The public value that `DH_generate_key` derives from a secret. -/
  pub_key : Secret → ℕ
  /-- `none` where `DH_compute_key` returns a negative value. -/
  DH_compute_key : Secret → ℕ → Option Key
  sign : Bool → Text → Bytes
  /-- `EVP_VerifyFinal` with the public key of an end. -/
  verify : Bool → Text → Bytes → Bool

/-- `*(int32u*) write_ptr` and its like. -/
def Conf.word (cf : Conf) (w v : ℕ) : Bytes := cf.order.order (le_bytes w v)

/-- `*(int32u*) read_ptr` and its like. -/
def Conf.value (cf : Conf) (bs : Bytes) : ℕ := le_value (cf.order.order bs)

def BN_num_bytes (n : ℕ) : ℕ := ((if n = 0 then 0 else n.log2 + 1) + 7) / 8

def BN_bn2bin (n : ℕ) : Bytes := (le_bytes (BN_num_bytes n) n).reverse

def BN_bin2bn (bs : Bytes) : ℕ := le_value bs.reverse

/-! ## 2. The state of an end -/

structure DhPacket where
  hdr : PacketHeader
  body : Bytes
  deriving DecidableEq, Repr

inductive PingType
  | PING
  | PONG
  | unknown
  deriving DecidableEq, Repr

/-- `intru_tol_ping`. -/
structure ItPing where
  ping_seq : ℕ
  ping_nonce : ℕ
  incarnation : ℕ
  aru_incarnation : ℕ
  ping_type : PingType
  deriving DecidableEq, Repr

/-- What `Sec_lock_msg` seals; data packets and acknowledgements do not touch the key. -/
inductive Content
  | ping (p : ItPing)
  | dh (pkt : DhPacket)
  | other
  deriving DecidableEq, Repr

structure ItPingCell where
  ping_seq : ℕ
  ping_nonce : ℕ
  answered : Bool
  deriving DecidableEq, Repr

/-- The places at which `Alarm(EXIT, …)` ends the process. -/
inductive Exit
  | key_too_large
  | hash_does_not_fit
  | signature_too_large
  | send_event_should_be_queued
  | compute_key_failed
  deriving DecidableEq, Repr

structure End (Secret Key : Type) where
  my_incarnation : ℕ
  ngbr_incarnation : ℕ
  incarnation_response : ℕ
  dh_local : Secret
  /-- `none` while the allocated memory has not been written. -/
  dh_key : Option Key
  dh_key_computed : ℕ
  dh_established : Bool
  dh_pkt : Option DhPacket
  /-- `E_in_queue(Send_IT_DH, …)`. -/
  send_queued : Bool
  next_ping_seq : ℕ
  ping_history : ℕ → ItPingCell
  pong_freq : ℕ
  exited : Option Exit
  /-- History: every incarnation of this end with its secret, the current one first. -/
  lives : List (ℕ × Secret)
  signed : List Text
  sealed : List (Key × Content)

structure Env where
  now : ℕ
  /-- `network_flag == 1`. -/
  network_flag : Bool
  link_up : Bool
  ctrl_link_id : ℕ
  nonce : ℕ

section Handlers

variable {Secret Key : Type} (cf : Conf) (c : Crypto Secret Key) (x : Bool)

/-! ## 3. Sending -/

/-- The body of a key-exchange packet before the signature, from end `x`. -/
def dh_body (my_inc ngbr_inc pub : ℕ) : Bytes :=
  cf.word 4 (cf.iid x) ++ (cf.word 4 (cf.iid (!x)) ++ (cf.word 4 my_inc ++ (cf.word 4 ngbr_inc ++
    (cf.word 2 (BN_num_bytes pub) ++ (BN_bn2bin pub ++ cf.Conf_Hash)))))

/-- The packet `Key_Exchange_IT` prepares, signed by end `x`. -/
def signed_pkt (t : Text) : DhPacket := ⟨t.1, t.2 ++ c.sign x t⟩

def Key_Exchange_IT (env : Env) (e : End Secret Key) : End Secret Key :=
  let pub := c.pub_key e.dh_local
  let e := { e with dh_established := false, dh_key_computed := 1, dh_pkt := none }
  let len := 18 + BN_num_bytes pub
  if SIZEOF_PACKET_BODY < len then
    { e with exited := some .key_too_large }
  else if SIZEOF_PACKET_BODY < len + cf.HMAC_Key_Len then
    { e with exited := some .hash_does_not_fit }
  else if SIZEOF_PACKET_BODY < len + cf.HMAC_Key_Len + cf.Signature_Len then
    { e with exited := some .signature_too_large }
  else
    let hdr : PacketHeader := ⟨cf.My_Address x, env.ctrl_link_id,
      len + cf.HMAC_Key_Len + cf.Signature_Len, 0, 0⟩
    let t : Text := (hdr, dh_body cf x e.my_incarnation e.ngbr_incarnation pub)
    { e with dh_pkt := some (signed_pkt c x t), signed := e.signed ++ [t], send_queued := true }

/-- The fields as `Create_Link` sets them up; `old` is what is left of the end's history. -/
def fresh_end (env : Env) (secret : Secret) (old : End Secret Key) : End Secret Key where
  my_incarnation := env.now / 1000000 % 2 ^ 32
  ngbr_incarnation := 0
  incarnation_response := env.now - cf.it_incarnation_timeout
  dh_local := secret
  dh_key := none
  dh_key_computed := 0
  dh_established := false
  dh_pkt := none
  send_queued := false
  next_ping_seq := 1
  ping_history := fun _ => ⟨0, 0, true⟩
  pong_freq := 0
  exited := none
  lives := (env.now / 1000000 % 2 ^ 32, secret) :: old.lives
  signed := old.signed
  sealed := old.sealed

/-- The part of `Create_Link` that sets up an intrusion-tolerant link. -/
def Create_Link (env : Env) (secret : Secret) (old : End Secret Key) : End Secret Key :=
  Key_Exchange_IT cf c x env (fresh_end cf env secret old)

/-- The timer `Send_IT_DH`. Putting the packet on the network leaves no trace here:
the network may deliver whatever was signed. -/
def Send_IT_DH (env : Env) (e : End Secret Key) : End Secret Key :=
  let e := { e with send_queued := false }
  -- the handler returns without queueing itself again
  if env.network_flag = false then e
  else if env.link_up = false then { e with send_queued := true }
  else if e.dh_established ∨ e.dh_pkt = none then e
  else { e with send_queued := true }

def IT_Link_Send (m : Content) (e : End Secret Key) : End Secret Key :=
  if e.dh_key_computed ≠ 2 then e
  else match e.dh_key with
    | none => e
    | some k => { e with sealed := e.sealed ++ [(k, m)] }

def Send_IT_Ping (env : Env) (p : ItPing) (e : End Secret Key) : End Secret Key :=
  if env.network_flag = false then e
  else if env.link_up = false then e
  else IT_Link_Send (.ping p) e

def Ping_IT_Timeout (env : Env) (e : End Secret Key) : End Secret Key :=
  if e.dh_key_computed = 2 then
    let index := e.next_ping_seq % MAX_PING_HIST
    let p : ItPing := ⟨e.next_ping_seq, env.nonce, e.my_incarnation, e.ngbr_incarnation, .PING⟩
    Send_IT_Ping env p
      { e with
        ping_history := update e.ping_history index ⟨e.next_ping_seq, env.nonce, false⟩
        next_ping_seq := e.next_ping_seq + 1 }
  else e

/-! ## 4. Receiving -/

def DH_established (e : End Secret Key) : End Secret Key :=
  if e.dh_established = false then { e with dh_established := true, dh_pkt := none } else e

/-- What `Incarnation_Change` does to the incarnations; the windows it resets are
those of the link protocol. -/
def Incarnation_Change (env : Env) (new_ngbr_inc : ℕ) (e : End Secret Key) : End Secret Key :=
  if env.link_up = false then e
  else
    { e with
      incarnation_response := env.now + cf.it_incarnation_timeout
      ngbr_incarnation := new_ngbr_inc }

/-- `Process_intru_tol_ping` after the check of the neighbor's incarnation. -/
def answer_ping (env : Env) (p : ItPing) (e : End Secret Key) : End Secret Key :=
  if e.my_incarnation < p.aru_incarnation then e
  else match p.ping_type with
    | .PING =>
      Send_IT_Ping env
        { p with
          ping_type := .PONG
          incarnation := e.my_incarnation
          aru_incarnation := e.ngbr_incarnation }
        { e with pong_freq := env.now + cf.it_ping_timeout / 2 }
    | .PONG =>
      let index := p.ping_seq % MAX_PING_HIST
      if (e.ping_history index).ping_seq = p.ping_seq ∧
          (e.ping_history index).ping_nonce = p.ping_nonce then
        { e with
          ping_history :=
            update e.ping_history index { e.ping_history index with answered := true } }
      else e
    | .unknown => e

/-- The checks that `Process_intru_tol_ping` makes before it reads the incarnations. -/
def ping_dropped (env : Env) (p : ItPing) (e : End Secret Key) : Bool :=
  (p.ping_type = .PONG &&
    (e.next_ping_seq ≤ p.ping_seq || p.ping_seq + MAX_PING_HIST < e.next_ping_seq ||
      (e.ping_history (p.ping_seq % MAX_PING_HIST)).answered)) ||
  (p.ping_type = .PING && env.now < e.pong_freq)

def Process_intru_tol_ping (env : Env) (p : ItPing) (e : End Secret Key) : End Secret Key :=
  if ping_dropped env p e then e
  else if p.incarnation < e.ngbr_incarnation then e
  else if e.ngbr_incarnation < p.incarnation then
    if env.now < e.incarnation_response then e
    else answer_ping cf env p (Incarnation_Change cf env p.incarnation e)
  else answer_ping cf env p e

structure DhFields where
  ngbr_inc : ℕ
  bn : ℕ
  signed : Bytes
  sig : Bytes

/-- `read_ptr += n`, unless that passes `end_ptr`: the bytes read and the rest. -/
def read (n : ℕ) (b : Bytes) : Option (Bytes × Bytes) :=
  if n ≤ b.length then some (b.take n, b.drop n) else none

/-- The checks of `Process_DH_IT` up to the signature's length. -/
def read_dh (e : End Secret Key) (pkt : DhPacket) : Option DhFields :=
  let b := pkt.body.take pkt.hdr.data_len
  if pkt.body.length < pkt.hdr.data_len then none
  else do
    let src ← read 4 b
    guard (cf.value src.1 = cf.iid (!x))
    let dst ← read 4 src.2
    guard (cf.value dst.1 = cf.iid x)
    let ngbr_inc ← read 4 dst.2
    guard (e.ngbr_incarnation < cf.value ngbr_inc.1)
    let my_inc ← read 4 ngbr_inc.2
    guard (cf.value my_inc.1 ≤ e.my_incarnation)
    let bn_size ← read 2 my_inc.2
    let bn ← read (cf.value bn_size.1) bn_size.2
    let hash ← read cf.HMAC_Key_Len bn.2
    guard (hash.1 = cf.Conf_Hash)
    guard (hash.2.length = cf.Signature_Len)
    return ⟨cf.value ngbr_inc.1, BN_bin2bn bn.1, b.take (b.length - hash.2.length), hash.2⟩

def signed_text (pkt : DhPacket) (f : DhFields) : Text := ({ pkt.hdr with seq_no := 0 }, f.signed)

/-- The packets that `Process_DH_IT` acts on, with what it reads from them. -/
def accepted_dh (env : Env) (e : End Secret Key) (pkt : DhPacket) : Option DhFields :=
  if env.now < e.incarnation_response then none
  else do
    let f ← read_dh cf x e pkt
    guard (cf.in_config (!x) = true)
    guard (c.verify (!x) (signed_text pkt f) f.sig = true)
    return f

/-- Before it computes the key, `Process_DH_IT` makes sure that its own half is on the way. -/
def reply_dh (env : Env) (e : End Secret Key) : End Secret Key :=
  if e.dh_key_computed = 1 then
    if e.send_queued then e else { e with exited := some .send_event_should_be_queued }
  else Key_Exchange_IT cf c x env { e with dh_key_computed := 0 }

def compute_dh (env : Env) (f : DhFields) (e : End Secret Key) : End Secret Key :=
  match c.DH_compute_key e.dh_local f.bn with
  | none => { e with exited := some .compute_key_failed }
  | some k => Incarnation_Change cf env f.ngbr_inc { e with dh_key := some k, dh_key_computed := 2 }

def Process_DH_IT (env : Env) (pkt : DhPacket) (e : End Secret Key) : End Secret Key :=
  match accepted_dh cf c x env e pkt with
  | none => e
  | some f =>
    let e := reply_dh cf c x env e
    if e.exited.isSome then e else compute_dh cf c env f e

/-! ## 5. Events -/

inductive Event (Secret : Type)
  | restart (env : Env) (secret : Secret)
  /-- A packet that does not unlock and looks like a key-exchange packet. -/
  | clear (env : Env) (pkt : DhPacket)
  | unlocked (env : Env) (m : Content)
  | send_dh (env : Env)
  | ping_timeout (env : Env)
  | send_other

/-- `Preprocess_intru_tol_packet` on a packet that unlocks, and its handler. -/
def Process_unlocked (env : Env) (m : Content) (e : End Secret Key) : End Secret Key :=
  if e.dh_key_computed ≠ 2 then e
  else match m with
    | .ping p => Process_intru_tol_ping cf env p (DH_established e)
    | .dh pkt => Process_DH_IT cf c x env pkt (DH_established e)
    | .other => DH_established e

def handle (e : End Secret Key) : Event Secret → End Secret Key
  | .restart env secret => Create_Link cf c x env secret e
  | .clear env pkt => Process_DH_IT cf c x env pkt e
  | .unlocked env m => Process_unlocked cf c x env m e
  | .send_dh env => if e.send_queued then Send_IT_DH env e else e
  | .ping_timeout env => Ping_IT_Timeout env e
  | .send_other => IT_Link_Send .other e

/-! ## 6. Runs -/

/-- After `Alarm(EXIT, …)` only a restart happens. -/
def enabled (e : End Secret Key) : Event Secret → Prop
  | .restart .. => True
  | _ => e.exited = none

/-- One event at an end whose neighbor, or whoever holds the neighbor's keys, sends
what it likes. -/
def EndStep (e : End Secret Key) (ev : Event Secret) (e' : End Secret Key) : Prop :=
  enabled e ev ∧ e' = handle cf c x e ev

/-- What two correct ends can meet. Signatures are not forged, what unlocks was sealed by
the other end under the same key, and every restart brings a later incarnation and a
fresh secret. -/
def genuine (w : Bool → End Secret Key) : Event Secret → Prop
  | .restart env secret =>
    (w x).my_incarnation < env.now / 1000000 % 2 ^ 32 ∧
      ∀ y, ∀ l ∈ (w y).lives, secret ≠ l.2
  | .clear _ pkt => ∀ f, read_dh cf x (w x) pkt = some f →
      c.verify (!x) (signed_text pkt f) f.sig = true → signed_text pkt f ∈ (w (!x)).signed
  | .unlocked _ m => ∃ k, (w x).dh_key = some k ∧ (k, m) ∈ (w (!x)).sealed
  | _ => True

end Handlers

section Pairs

variable {Secret Key : Type} (cf : Conf) (c : Crypto Secret Key)

def PairStep (w : Bool → End Secret Key) (l : Bool × Event Secret) (w' : Bool → End Secret Key) :
    Prop :=
  enabled (w l.1) l.2 ∧ genuine cf c l.1 w l.2 ∧
    w' = update w l.1 (handle cf c l.1 (w l.1) l.2)

def Created (x : Bool) (secret : Secret) (e : End Secret Key) : Prop :=
  ∃ env old, old.lives = [] ∧ old.signed = [] ∧ old.sealed = [] ∧
    0 < env.now / 1000000 % 2 ^ 32 ∧ e = Create_Link cf c x env secret old

def Start (w : Bool → End Secret Key) : Prop :=
  ∃ secret : Bool → Secret, secret true ≠ secret false ∧ ∀ x, Created cf c x (secret x) (w x)

end Pairs

end Spines.IntruTol.KeyExchange
