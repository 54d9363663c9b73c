/-
`daemon/session.c`: `Session_Read`, the reader of a client's stream.

A client sends its byte order, the number of its control channel, and then messages,
each with its length in front. The reader keeps in `read_len` where the piece it waits
for ends in `ses->data` and in `partial_len` how far it has come. A long message on a
session without source routing by the daemon's own protocols is cut into fragments that
get the header of the message one by one.

What becomes of a fragment is up to `Process_Session_Packet`, of which the reader only
sees the `Outcome`. Two things go wrong in the reader itself, and `Meets` leaves them
out: it loses its place in the stream after a length that is shorter than the headers,
and after a `NO_BUFF` for a session that goes on.
-/
import Spines.Lib.Bytes
import Spines.Lib.Chunks

set_option autoImplicit false

namespace Spines.Client

open Spines.Lib

/-! ## 1. Sizes -/

def sizeof_udp_header : ℕ := 28
def sizeof_rel_udp_pkt_add : ℕ := 8
def MAX_PACKET_SIZE : ℕ := 1472
def MAX_MESSAGE_SIZE : ℕ := MAX_PACKET_SIZE * 45
def MAX_SPINES_CLIENT_MSG : ℕ := 50000

/-- What is left of a packet after the headers of the network, UDP, the tail and the
acknowledgement of an intrusion-tolerant link, encryption, the HMAC, the header of
priority flooding, the bitmask and the signature. -/
def MAX_SPINES_MSG : ℕ := MAX_PACKET_SIZE - (20 + 28 + 48 + 8 + 2 * 16 + 32 + 40 + 8 + 128)

def MIN_WEIGHT_ROUTING : ℤ := 0
def IT_PRIORITY_ROUTING : ℤ := 0x100
def IT_RELIABLE_ROUTING : ℤ := 0x200
def SOURCE_BASED_ROUTING : ℤ := 0x300

def ENDIAN_TYPE : ℕ := 0x80000080

def ARCH_ENDIAN : Endian → ℕ
  | .little => 0x80000080
  | .big => 0

def Same_endian (e : Endian) (t : ℕ) : Bool := t &&& ENDIAN_TYPE == ARCH_ENDIAN e

/-! ## 2. Sessions -/

inductive State
  | READY_ENDIAN
  | READY_CTRL_SK
  | READY_LEN
  | READY_DATA
  deriving DecidableEq, Repr

structure Session where
  sess_id : ℕ
  endianess_type : ℕ
  ctrl_sk : ℤ
  routing_used : ℤ
  total_len : ℤ
  read_len : ℤ
  received_len : ℤ
  partial_len : ℕ
  seq_no : ℕ
  frag_num : ℤ
  frag_idx : ℤ
  save_hdr : List UInt8
  state : State
  /-- a buffer of `MAX_MESSAGE_SIZE` bytes -/
  data : Mem
  /-- `r_data` is not `NULL`: a reliable session -/
  r_data : Bool
  closed : Bool

/-- What `Process_Session_Packet` changes of what the reader uses, and `ret == NO_BUFF`.
The buffer is a new one where the packet has been kept. -/
structure Outcome (δ : Type) where
  daemon : δ
  data : Mem
  routing_used : ℤ
  seq_no : ℕ
  r_data : Bool
  closed : Bool
  no_buff : Bool

structure Daemon (δ : Type) where
  /-- takes a control channel out of `ctrl_sk_requests`; `none` if it is not there -/
  take_ctrl_sk : δ → ℤ → Option δ
  Process_Session_Packet : δ → Session → Outcome δ

/-- The reader, with everything it has handed to `Process_Session_Packet`. -/
structure Reader (δ : Type) where
  daemon : δ
  ses : Session
  handed : List Session

section Model

variable {δ : Type}

def Flip_udp_hdr (e : Endian) (m : Mem) : Mem :=
  [(0, 4), (4, 4), (12, 2), (14, 2), (16, 2), (18, 2), (20, 2)].foldl
    (fun m (f : ℕ × ℕ) => m.store e f.1 f.2 (flip_word f.2 (m.load e f.1 f.2))) m

def Fragments (routing_used : ℤ) : Prop :=
  routing_used = MIN_WEIGHT_ROUTING ∨ routing_used = SOURCE_BASED_ROUTING

instance (routing_used : ℤ) : Decidable (Fragments routing_used) :=
  inferInstanceAs (Decidable (_ ∨ _))

def Whole (routing_used : ℤ) : Prop :=
  routing_used = IT_PRIORITY_ROUTING ∨ routing_used = IT_RELIABLE_ROUTING

instance (routing_used : ℤ) : Decidable (Whole routing_used) :=
  inferInstanceAs (Decidable (_ ∨ _))

/-- `Session_Close` and `Disconnect_Reliable_Session`, for the reader. -/
def Session.dispose (ses : Session) : Session := { ses with partial_len := 0, closed := true }

def Session.add_size (ses : Session) : ℕ := if ses.r_data then sizeof_rel_udp_pkt_add else 0

/-- The comparisons are those of `size_t`. -/
def Sane (total_len : ℤ) : Prop :=
  sizeof_udp_header ≤ to_word 8 total_len ∧
    to_word 8 total_len ≤ MAX_SPINES_CLIENT_MSG + sizeof_udp_header

instance (total_len : ℤ) : Decidable (Sane total_len) := inferInstanceAs (Decidable (_ ∧ _))

/-- `frag_num`: the difference is a `size_t`, the number an `int32`. -/
def count_fragments (total_len : ℤ) (add_size : ℕ) : ℤ :=
  let n := to_word 8 (total_len - sizeof_udp_header - add_size)
  let frag_num := of_word 4 (n / MAX_SPINES_MSG)
  let frag_num := if n % MAX_SPINES_MSG ≠ 0 then frag_num + 1 else frag_num
  -- a message without data still needs one fragment for its header
  if frag_num = 0 then frag_num + 1 else frag_num

/-- The first piece of a message. Of an unknown routing only a line in the log tells. -/
def set_up (ses : Session) : Session :=
  if Fragments ses.routing_used then
    { ses with
      read_len :=
        if ses.total_len > MAX_SPINES_MSG + sizeof_udp_header + ses.add_size then
          MAX_SPINES_MSG + sizeof_udp_header + ses.add_size
        else ses.total_len
      frag_num := count_fragments ses.total_len ses.add_size
      frag_idx := 0 }
  else if Whole ses.routing_used then
    { ses with read_len := ses.total_len, frag_num := 1, frag_idx := 0 }
  else ses

def Session.sent_len (e : Endian) (ses : Session) : ℤ :=
  let total_len := of_word 4 (ses.data.load e 0 4)
  if Same_endian e ses.endianess_type then total_len
  else of_word 4 (flip_word 4 (to_word 4 total_len))

/-- `READY_DATA` from now on. -/
def expect_data (ses : Session) : Session :=
  { ses with
    partial_len := 0
    received_len := 0
    seq_no := if ses.seq_no + 1 ≥ 10000 then 0 else ses.seq_no + 1
    state := .READY_DATA }

/-- The sanity check. The code goes on with a session that it has closed, but nobody
reads that again. -/
def check_length (ses : Session) : Session :=
  if Sane ses.total_len then expect_data (set_up ses) else ses.dispose

def read_length (e : Endian) (ses : Session) : Session :=
  check_length { ses with total_len := ses.sent_len e }

def cut_header (e : Endian) (ses : Session) : Session :=
  if Fragments ses.routing_used ∧ ses.frag_num > 1 then
    let save_hdr := if ses.frag_idx = 0 then ses.data.bytes 0 sizeof_udp_header else ses.save_hdr
    let len := to_word 2 (ses.read_len - sizeof_udp_header)
    let m := ses.data.store e 16 2 len
    let m :=
      if ses.r_data then
        ((m.store e 28 4 (ARCH_ENDIAN e)).store e 32 2
          (to_word 2 (len - sizeof_rel_udp_pkt_add))).store e 34 2 0
      else m
    { ses with save_hdr := save_hdr, data := m }
  else ses

/-- READY_DATA, up to the call of `Process_Session_Packet`. -/
def fill_packet (e : Endian) (ses : Session) : Session :=
  let ses :=
    if Same_endian e ses.endianess_type then ses else { ses with data := Flip_udp_hdr e ses.data }
  let ses := cut_header e ses
  let m := ses.data.store e 18 2 ses.seq_no
  let m := m.store e 22 1 (to_word 1 ses.frag_num)
  let m := m.store e 23 1 (to_word 1 ses.frag_idx)
  let m := m.store e 20 2 (ses.sess_id % 2 ^ 16)
  let received_len := ses.received_len + ses.read_len
  { ses with
    data := m
    received_len :=
      if ses.frag_idx > 0 then received_len - (sizeof_udp_header + ses.add_size) else received_len
    frag_idx := ses.frag_idx + 1 }

/-- What `Process_Session_Packet` is called with. `partial_len` is the reader's own
affair. -/
def packet (e : Endian) (ses : Session) : Session := { fill_packet e ses with partial_len := 0 }

def next_piece (ses : Session) : Session :=
  if ses.frag_idx = ses.frag_num then
    { ses with read_len := 4, partial_len := 0, state := .READY_LEN }
  else
    let left := ses.total_len - ses.received_len
    { ses with
      data := ses.data.write 0 ses.save_hdr
      read_len :=
        (if to_word 8 left > MAX_SPINES_MSG then (MAX_SPINES_MSG : ℤ) else left) +
          sizeof_udp_header + ses.add_size
      partial_len := sizeof_udp_header + ses.add_size
      state := .READY_DATA }

def Session.after (ses : Session) (out : Outcome δ) : Session :=
  { ses with
    data := out.data, routing_used := out.routing_used, seq_no := out.seq_no, r_data := out.r_data }

/-- Hands the packet on. After `NO_BUFF` everything stays as it is. -/
def read_data (e : Endian) (d : Daemon δ) (st : Reader δ) : Reader δ :=
  let out := d.Process_Session_Packet st.daemon (packet e st.ses)
  let ses := (fill_packet e st.ses).after out
  { daemon := out.daemon
    handed := st.handed ++ [packet e st.ses]
    ses :=
      if out.closed then ses.dispose
      else if out.no_buff then ses
      else next_piece ses }

def complete (e : Endian) (d : Daemon δ) (st : Reader δ) : Reader δ :=
  match st.ses.state with
  | .READY_ENDIAN =>
    { st with ses := { st.ses with
        endianess_type := st.ses.data.load e 0 4
        received_len := 0, read_len := 4, partial_len := 0, state := .READY_CTRL_SK } }
  | .READY_CTRL_SK =>
    let ctrl_sk := of_word 4 (st.ses.data.load e 0 4)
    match d.take_ctrl_sk st.daemon ctrl_sk with
    | none => { st with ses := { st.ses with ctrl_sk := 0 }.dispose }
    | some daemon =>
      { st with
        daemon := daemon
        ses := { st.ses with
          ctrl_sk := ctrl_sk
          received_len := 0, read_len := 4, partial_len := 0, state := .READY_LEN } }
  | .READY_LEN => { st with ses := read_length e st.ses }
  | .READY_DATA => read_data e d st

def Session.asked (ses : Session) : ℤ := ses.read_len - ses.partial_len

def Session.put (ses : Session) (received : List UInt8) : Session :=
  { ses with data := ses.data.write ses.partial_len received }

def Session.advance (ses : Session) (n : ℕ) : Session :=
  { ses with partial_len := ses.partial_len + n }

/-- One call, with what `DL_recv` has received; `none` if these are more bytes than
asked for. A closed session is not found and nothing is read. -/
def Session_Read (e : Endian) (d : Daemon δ) (st : Reader δ) (received : List UInt8) :
    Option (Reader δ) :=
  if st.ses.closed then some st
  else if received = [] then some { st with ses := st.ses.dispose }
  else if (received.length : ℤ) > st.ses.asked then none
  else
    let ses := st.ses.put received
    if (received.length : ℤ) < st.ses.asked then
      some { st with ses := ses.advance received.length }
    else some (complete e d { st with ses := ses })

def reads (e : Endian) (d : Daemon δ) (st : Reader δ) (cs : List (List UInt8)) :
    Option (Reader δ) :=
  cs.foldlM (Session_Read e d) st

/-- A new session, as `Session_Accept` leaves it. -/
structure Session.New (ses : Session) : Prop where
  state : ses.state = .READY_ENDIAN
  read_len : ses.read_len = 4
  partial_len : ses.partial_len = 0
  routing_used : ses.routing_used = 0
  r_data : ses.r_data = false
  closed : ses.closed = false

end Model

/-! ## 3. What the reader can cope with -/

section Conditions

variable {δ : Type}

def Session.overhead (ses : Session) : ℤ := sizeof_udp_header + ses.add_size

/-- The session knows what to do with the message, and a message to be cut has its
headers. -/
def Session.Fits (ses : Session) : Prop :=
  (Fragments ses.routing_used ∨ Whole ses.routing_used) ∧
    (Fragments ses.routing_used → ses.overhead ≤ ses.total_len)

instance (ses : Session) : Decidable ses.Fits := inferInstanceAs (Decidable (_ ∧ _))

def Session.Accepts (e : Endian) (ses : Session) : Prop :=
  Sane (ses.sent_len e) → ({ ses with total_len := ses.sent_len e } : Session).Fits

/-- The condition on a call: a message that is accepted fits its session, and `NO_BUFF`
is for a session that `Process_Session_Packet` closes. -/
structure Meets (e : Endian) (d : Daemon δ) (st : Reader δ) (c : List UInt8) : Prop where
  fits : st.ses.closed = false → st.ses.state = .READY_LEN → (c.length : ℤ) = st.ses.asked →
    (st.ses.put c).Accepts e
  buff : st.ses.closed = false → st.ses.state = .READY_DATA → (c.length : ℤ) = st.ses.asked →
    (d.Process_Session_Packet st.daemon (packet e (st.ses.put c))).no_buff →
    (d.Process_Session_Packet st.daemon (packet e (st.ses.put c))).closed

end Conditions

/-! ## 4. Chunks -/

section Chunks

variable {δ : Type} {e : Endian} {d : Daemon δ} {st st' st'' : Reader δ} {c c₁ c₂ : List UInt8}
  {cs cs' : List (List UInt8)}

theorem write_append (m : Mem) (pos : ℕ) (c₁ c₂ : List UInt8) :
    (m.write pos c₁).write (pos + c₁.length) c₂ = m.write pos (c₁ ++ c₂) := by
  funext i
  unfold Mem.write
  by_cases hpos : pos ≤ i
  · by_cases hfirst : i - pos < c₁.length
    · have hlt : ¬pos + c₁.length ≤ i := by omega
      rw [if_neg hlt, if_pos hpos, if_pos hpos, List.getD_append _ _ _ _ hfirst]
    · have hle : pos + c₁.length ≤ i := by omega
      have hindex : i - pos - c₁.length = i - (pos + c₁.length) := by omega
      rw [if_pos hle, if_pos hpos, if_pos hpos, List.getD_append_right _ _ _ _ (by omega), hindex,
        List.getD_eq_default _ _ (not_lt.mp hfirst)]
  · have hlt : ¬pos + c₁.length ≤ i := by omega
    rw [if_neg hlt, if_neg hpos, if_neg hpos]

theorem session_read_closed (h : st.ses.closed) : Session_Read e d st c = some st := by
  rw [Session_Read, if_pos h]

theorem session_read_more (hopen : st.ses.closed = false) (hc : c ≠ [])
    (hlt : (c.length : ℤ) < st.ses.asked) :
    Session_Read e d st c = some { st with ses := (st.ses.put c).advance c.length } := by
  have hle : ¬(c.length : ℤ) > st.ses.asked := by omega
  unfold Session_Read
  rw [if_neg (by simp [hopen]), if_neg hc, if_neg hle]
  exact if_pos hlt

theorem session_read_complete (hopen : st.ses.closed = false) (hc : c ≠ [])
    (heq : (c.length : ℤ) = st.ses.asked) :
    Session_Read e d st c = some (complete e d { st with ses := st.ses.put c }) := by
  have hle : ¬(c.length : ℤ) > st.ses.asked := by omega
  have hlt : ¬(c.length : ℤ) < st.ses.asked := by omega
  unfold Session_Read
  rw [if_neg (by simp [hopen]), if_neg hc, if_neg hle]
  exact if_neg hlt

theorem session_read_le (hopen : st.ses.closed = false) (hc : c ≠ [])
    (hread : Session_Read e d st c = some st') : (c.length : ℤ) ≤ st.ses.asked := by
  unfold Session_Read at hread
  rw [if_neg (by simp [hopen]), if_neg hc] at hread
  split at hread
  · cases hread
  · omega

theorem advance_asked (ses : Session) (c : List UInt8) (n : ℕ) :
    ((ses.put c).advance n).asked = ses.asked - n := by
  unfold Session.asked Session.advance Session.put
  push_cast
  omega

theorem put_put (ses : Session) (c₁ c₂ : List UInt8) :
    ((ses.put c₁).advance c₁.length).put c₂ = (ses.put (c₁ ++ c₂)).advance c₁.length := by
  unfold Session.put Session.advance
  rw [write_append]

theorem fill_packet_advance (e : Endian) (ses : Session) (n : ℕ) :
    fill_packet e (ses.advance n) = (fill_packet e ses).advance n := by
  unfold fill_packet cut_header Session.advance
  dsimp only
  split_ifs <;> rfl

theorem set_up_advance (ses : Session) (n : ℕ) :
    set_up (ses.advance n) = (set_up ses).advance n := by
  unfold set_up
  by_cases hf : Fragments ses.routing_used
  · rw [if_pos hf, if_pos (show Fragments (ses.advance n).routing_used from hf)]
    rfl
  · by_cases hw : Whole ses.routing_used
    · rw [if_neg hf, if_neg (show ¬Fragments (ses.advance n).routing_used from hf), if_pos hw,
        if_pos (show Whole (ses.advance n).routing_used from hw)]
      rfl
    · rw [if_neg hf, if_neg (show ¬Fragments (ses.advance n).routing_used from hf), if_neg hw,
        if_neg (show ¬Whole (ses.advance n).routing_used from hw)]

theorem check_length_advance (ses : Session) (n : ℕ) :
    check_length (ses.advance n) = check_length ses := by
  unfold check_length
  rw [set_up_advance]
  rfl

theorem read_length_advance (e : Endian) (ses : Session) (n : ℕ) :
    read_length e (ses.advance n) = read_length e ses :=
  check_length_advance { ses with total_len := ses.sent_len e } n

theorem next_piece_advance (ses : Session) (n : ℕ) :
    next_piece (ses.advance n) = next_piece ses := by
  unfold next_piece Session.advance
  split_ifs <;> rfl

theorem packet_advance (e : Endian) (ses : Session) (n : ℕ) :
    packet e (ses.advance n) = packet e ses := by
  unfold packet
  rw [fill_packet_advance]
  rfl

theorem read_data_advance (st : Reader δ) (n : ℕ)
    (hbuff : (d.Process_Session_Packet st.daemon (packet e st.ses)).no_buff →
      (d.Process_Session_Packet st.daemon (packet e st.ses)).closed) :
    read_data e d { st with ses := st.ses.advance n } = read_data e d st := by
  unfold read_data
  dsimp only
  rw [packet_advance, fill_packet_advance]
  generalize hout : d.Process_Session_Packet st.daemon (packet e st.ses) = out
  rw [hout] at hbuff
  have hafter : ((fill_packet e st.ses).advance n).after out =
      ((fill_packet e st.ses).after out).advance n := rfl
  rw [hafter, next_piece_advance]
  cases hclosed : out.closed with
  | true => rfl
  | false =>
    have hno : out.no_buff = false := by
      rw [hclosed] at hbuff
      simpa using hbuff
    simp only [hno]
    rfl

theorem complete_advance (st : Reader δ) (n : ℕ) (hbuff : st.ses.state = .READY_DATA →
      (d.Process_Session_Packet st.daemon (packet e st.ses)).no_buff →
      (d.Process_Session_Packet st.daemon (packet e st.ses)).closed) :
    complete e d { st with ses := st.ses.advance n } = complete e d st := by
  unfold complete
  cases hstate : st.ses.state with
  | READY_ENDIAN => simp only [Session.advance, hstate]
  | READY_CTRL_SK => simp only [Session.advance, hstate, Session.dispose]
  | READY_LEN =>
    simp only [hstate, show (st.ses.advance n).state = st.ses.state from rfl]
    rw [read_length_advance]
  | READY_DATA =>
    simp only [hstate, show (st.ses.advance n).state = st.ses.state from rfl]
    exact read_data_advance st n (hbuff hstate)

theorem meets_advance (hlen : (c₂.length : ℤ) = st.ses.asked - c₁.length ↔
      ((c₁ ++ c₂).length : ℤ) = st.ses.asked) :
    Meets e d { st with ses := (st.ses.put c₁).advance c₁.length } c₂ ↔
      Meets e d st (c₁ ++ c₂) := by
  have hasked := advance_asked st.ses c₁ c₁.length
  have haccepts (ses : Session) (n : ℕ) : (ses.advance n).Accepts e ↔ ses.Accepts e := Iff.rfl
  constructor
  · intro h
    constructor
    · intro hopen hstate heq
      have hfits := h.fits hopen hstate (hasked.symm ▸ hlen.mpr heq)
      rw [put_put] at hfits
      exact (haccepts _ _).mp hfits
    · intro hopen hstate heq
      have hbuff := h.buff hopen hstate (hasked.symm ▸ hlen.mpr heq)
      rw [put_put, packet_advance] at hbuff
      exact hbuff
  · intro h
    constructor
    · intro hopen hstate heq
      rw [put_put]
      exact (haccepts _ _).mpr (h.fits hopen hstate (hlen.mp (heq.trans hasked)))
    · intro hopen hstate heq
      rw [put_put, packet_advance]
      exact h.buff hopen hstate (hlen.mp (heq.trans hasked))

theorem session_read_splits : Splits (Session_Read e d) (Meets e d) := by
  intro st c₁ c₂ st' hc1 hc2 hread
  by_cases hclosed : st.ses.closed
  · have hmeets (c : List UInt8) : Meets e d st c := by
      constructor
      · intro hopen
        exact absurd hclosed (by simp [hopen])
      · intro hopen
        exact absurd hclosed (by simp [hopen])
    rw [session_read_closed hclosed] at hread
    refine ⟨st, st, session_read_closed hclosed, hmeets c₁, session_read_closed hclosed, ?_, ?_⟩
    · exact iff_of_true (hmeets c₂) (hmeets (c₁ ++ c₂))
    · intro _
      exact Option.some.inj hread
  have hopen : st.ses.closed = false := by simpa using hclosed
  have hc : c₁ ++ c₂ ≠ [] := by simp [hc1]
  have hlen : ((c₁ ++ c₂).length : ℤ) = c₁.length + c₂.length := by simp
  have hpos : 0 < c₂.length := List.length_pos_iff.mpr hc2
  have hle := session_read_le hopen hc hread
  have hfirst := session_read_more (e := e) (d := d) hopen hc1 (by omega)
  -- a part that does not complete the piece leaves no choice
  have hmeets1 : Meets e d st c₁ := by
    constructor
    · intro _ _ heq
      omega
    · intro _ _ heq
      omega
  have hiff : Meets e d { st with ses := (st.ses.put c₁).advance c₁.length } c₂ ↔
      Meets e d st (c₁ ++ c₂) := meets_advance (by omega)
  have hopen1 : ({ st with ses := (st.ses.put c₁).advance c₁.length } : Reader δ).ses.closed =
      false := hopen
  have hasked : ({ st with ses := (st.ses.put c₁).advance c₁.length } : Reader δ).ses.asked =
      st.ses.asked - c₁.length := advance_asked st.ses c₁ c₁.length
  rcases lt_or_eq_of_le hle with hlt | heq
  · have hrest := session_read_more (e := e) (d := d) hopen1 hc2 (by omega)
    refine ⟨_, _, hfirst, hmeets1, hrest, hiff, ?_⟩
    intro _
    rw [session_read_more hopen hc hlt] at hread
    rw [← Option.some.inj hread]
    rw [put_put]
    simp only [Session.advance, List.length_append, add_assoc]
  · have hrest := session_read_complete (e := e) (d := d) hopen1 hc2 (by omega)
    refine ⟨_, _, hfirst, hmeets1, hrest, hiff, ?_⟩
    intro hgood
    rw [session_read_complete hopen hc heq] at hread
    rw [← Option.some.inj hread]
    rw [put_put]
    apply complete_advance { st with ses := st.ses.put (c₁ ++ c₂) } c₁.length
    intro hstate
    exact (hiff.mp hgood).buff hopen hstate heq

theorem reads_unique (hrun : Takes (Session_Read e d) (Meets e d) st cs st')
    (hcs' : ∀ c ∈ cs', c ≠ []) (hsame : cs'.flatten = cs.flatten)
    (hrun' : reads e d st cs' = some st'') : st'' = st' :=
  (hrun.unique session_read_splits hcs' hsame hrun').2

end Chunks

end Spines.Client
