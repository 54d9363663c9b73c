/-
`daemon/session.c`: whole messages through `Session_Deliver_Data`, fragment by fragment.

Messages that were cut by `Session_Read` (`fragments_of_handed`) come to a session in
fragments, in any order and mixed with each other. When the last fragment has come, the packet
of the message is given to the client, over UDP at once and over TCP by the writers of the stream.

A message is known by a key that is used again. While no two messages of one key are open at
a time, each has one packet with its fragments and none else (`Inv`), no packet is old enough
to be deleted, and the writers on TCP are called for every message (`tcp_through`): one frame for
each, and nothing else, goes into the stream (`Plays.expected`).
-/
import Spines.Client.Foreign
import Spines.Outgoing.FragPkts
import Spines.Outgoing.Streamed

set_option autoImplicit false

namespace Spines.Outgoing.FragPkts

open Spines.Lib Function Option List

/-! ## 1. What the client is given -/

/-- `len` in the header, and what comes behind the header. -/
structure Given where
  len : ℕ
  payload : Bytes

def Frag_Packet.frags (frag_pkt : Frag_Packet) : List Bytes :=
  (range frag_pkt.num_elements).map fun i =>
    ((frag_pkt.elements i).buf.map fun m => m.mem.bytes 0 (frag_pkt.elements i).len).getD []

/-- `udp_head_buf`, and the elements behind their headers. -/
def Frag_Packet.given (frag_pkt : Frag_Packet) : Given where
  len := sum_len frag_pkt.frags % 2 ^ 16
  payload := frag_pkt.frags.flatMap payload

def Msg.given (e : Endian) (m : Msg) : Given where
  len := m.hdr_len e
  payload := m.mem.bytes SIZEOF_UDP_HEADER (m.len - SIZEOF_UDP_HEADER)

/-- What a client on UDP is given when `m` has come. -/
def given (e : Endian) (m : Msg) (d : Delivered) : Option Given :=
  if m.frag_num > 1 then d.complete.map Frag_Packet.given else some (m.given e)

/-- What else a call finds when the client is on TCP: its `flags`, the memory of a new header,
and the answers of the socket. -/
structure Call where
  flags : ℕ
  junk : Mem
  rets : List Ret
  known : flags = 1 ∨ flags = 2 ∨ flags = 3

/-- What the writer on TCP is called for when `m` has come. -/
def Call.event (call : Call) (m : Msg) (d : Delivered) : Option Event :=
  if m.frag_num > 1 then
    d.complete.map fun frag_pkt => .deliver_fragmented call.flags frag_pkt.frags call.junk call.rets
  else some (.deliver call.flags (m.mem.bytes 0 m.len) call.rets)

/-! ## 2. Messages -/

def MAX_SPINES_MSG : ℕ := 1128
def MAX_SPINES_CLIENT_MSG : ℕ := 50000

structure Message where
  sess_id : ℕ
  source : ℕ
  source_port : ℕ
  seq_no : ℕ
  data : Bytes

def Message.frag_num (msg : Message) : ℕ :=
  max 1 ((msg.data.length + (MAX_SPINES_MSG - 1)) / MAX_SPINES_MSG)

def Message.chunk (msg : Message) (i : ℕ) : Bytes :=
  (msg.data.drop (MAX_SPINES_MSG * i)).take MAX_SPINES_MSG

/-- Fragment number `i` of the message, as `Session_Read` makes it. -/
structure Message.Fragment (e : Endian) (msg : Message) (i : ℕ) (m : Msg) : Prop where
  lt : i < msg.frag_num
  sess_id : msg.sess_id = m.sess_id e
  source : msg.source = m.source e
  source_port : msg.source_port = m.source_port e
  seq_no : msg.seq_no = m.seq_no e
  num : m.frag_num = msg.frag_num
  idx : m.frag_idx = i
  hdr_len : m.hdr_len e = (msg.chunk i).length
  len : m.len = SIZEOF_UDP_HEADER + (msg.chunk i).length
  data : m.mem.bytes SIZEOF_UDP_HEADER (msg.chunk i).length = msg.chunk i

def Message.SameKey (a b : Message) : Prop :=
  a.sess_id = b.sess_id ∧ a.source = b.source ∧ a.source_port = b.source_port ∧
    a.seq_no = b.seq_no

/-- What a client on TCP is to read of a message: its length, a header whose `len` is that of
the payload, and the payload. -/
def Message.Frame (e : Endian) (msg : Message) (frame : Pattern) : Prop :=
  msg.data.length < 2 ^ 16 ∧ ∃ hdr : Pattern, hdr.length = SIZEOF_UDP_HEADER ∧
    (hdr.drop 16).take 2 = (e.order (le_bytes 2 msg.data.length)).map some ∧
    frame = (int32 e (SIZEOF_UDP_HEADER + msg.data.length)).map some ++ hdr ++ msg.data.map some

structure Message.Asks (e : Endian) (msg : Message) (ev : Event) : Prop where
  frame : msg.Frame e (ev.frame e)
  enabled : ∀ ses : Session, ses.closed = false → ses.routing_used.Fragments → ses.Enabled ev

/-- A fragment that comes: the message and the number it has. -/
structure Sent (ι : Type) where
  id : ι
  idx : ℕ
  arrival : Arrival
  call : Call

section Messages

variable {ι : Type} (e : Endian) (msg : ι → Message)

/-- Each fragment of each message comes once, and those of one message within `FRAG_TTL`. -/
structure Correct (as : List (Sent ι)) : Prop where
  fragment : ∀ a ∈ as, (msg a.id).Fragment e a.idx a.arrival.msg
  size : ∀ a ∈ as, (msg a.id).data.length < 2 ^ 16
  once : (as.map fun a => (a.id, a.idx)).Nodup
  all : ∀ a ∈ as, ∀ i < (msg a.id).frag_num, ∃ b ∈ as, b.id = a.id ∧ b.idx = i
  ordered : as.Pairwise fun a b => a.arrival.now ≤ b.arrival.now
  ttl : ∀ a ∈ as, ∀ b ∈ as, a.id = b.id → b.arrival.now - a.arrival.now ≤ FRAG_TTL

/-- When the last fragment of a message comes, there is what is `right` for it, and nothing
before. -/
def Through {β : Type} (out : Sent ι → Delivered → Option β) (right : Message → β → Prop) :
    List (Sent ι) → List Frag_Packet → Prop
  | [], _ => True
  | a :: rest, pkts => ∃ d,
      Session_Deliver_Data e a.arrival.now a.arrival.junk pkts a.arrival.msg = .ok d ∧
      ((∃ b ∈ rest, b.id = a.id) → out a d = none) ∧
      ((∀ b ∈ rest, b.id ≠ a.id) → ∃ x, out a d = some x ∧ right (msg a.id) x) ∧
      Through out right rest d.frag_pkts

def UdpThrough : List (Sent ι) → List Frag_Packet → Prop :=
  Through e msg (fun a => given e a.arrival.msg) fun msg g => g = ⟨msg.data.length, msg.data⟩

def TcpThrough : List (Sent ι) → List Frag_Packet → Prop :=
  Through e msg (fun a => a.call.event a.arrival.msg) (Message.Asks e)

/-- When a fragment comes no other message with its key is open. -/
def Apart (past : List (Sent ι)) : List (Sent ι) → Prop
  | [] => True
  | a :: rest =>
    (1 < (msg a.id).frag_num → ∀ b ∈ past, (msg b.id).SameKey (msg a.id) → b.id ≠ a.id →
      ∀ c ∈ rest, c.id ≠ b.id) ∧ Apart (past ++ [a]) rest

/-- What the writers on TCP are called for, one call after the other. -/
def asked : List (Sent ι) → List Frag_Packet → List Event
  | [], _ => []
  | a :: rest, pkts =>
    match Session_Deliver_Data e a.arrival.now a.arrival.junk pkts a.arrival.msg with
    | .ok d => (a.call.event a.arrival.msg d).toList ++ asked rest d.frag_pkts
    | .error _ => []

end Messages

/-- The calls of `evs` at a session on TCP, with calls of `Session_Write` in between, each with
room for it and as `Session.Meets` asks. -/
inductive Plays (e : Endian) : World → List Event → World → Prop
  | done (w : World) : Plays e w [] w
  | write {w w₁ w₂ : World} {evs : List Event} {junk : ℕ → Mem} {rets : List Ret}
      (hstep : World.Step e w (.write junk rets) w₁) (hmeets : w.ses.Meets (.write junk rets))
      (hrest : Plays e w₁ evs w₂) : Plays e w evs w₂
  | call {w w₁ w₂ : World} {ev : Event} {evs : List Event} (hstep : World.Step e w ev w₁)
      (hmeets : w.ses.Meets ev) (hroom : w.ses.rel_deliver_buff.length < 3 * MAX_BUFF_SESS)
      (hrest : Plays e w₁ evs w₂) : Plays e w (ev :: evs) w₂

/-! ## 3. Chunks and packets -/

section Chunks

variable {e : Endian} {msg : Message} {i : ℕ} {m : Msg} {frag_pkt : Frag_Packet}

theorem chunks_join (l : Bytes) (k n : ℕ) :
    ((range n).flatMap fun i => (l.drop (k * i)).take k) = l.take (k * n) := by
  induction n with
  | zero => rfl
  | succ n ih =>
    rw [range_succ, flatMap_append, ih, flatMap_singleton, Nat.mul_succ,
      take_add]

theorem Message.chunks (msg : Message) :
    (range msg.frag_num).flatMap msg.chunk = msg.data := by
  refine (chunks_join msg.data MAX_SPINES_MSG msg.frag_num).trans (take_of_length_le ?_)
  simp only [Message.frag_num, MAX_SPINES_MSG]
  omega

theorem Message.Fragment.payload (h : msg.Fragment e i m) :
    Outgoing.payload (m.mem.bytes 0 m.len) = msg.chunk i := by
  rw [h.len, Mem.bytes_add, zero_add, Outgoing.payload, drop_left' Mem.bytes_length]
  exact h.data

theorem Message.Fragment.hdr (h : msg.Fragment e i m) : m.hdr_len e + SIZEOF_UDP_HEADER = m.len := by
  rw [h.hdr_len, h.len, add_comm]

theorem sum_len_eq (frags : List Bytes) :
    sum_len frags = SIZEOF_UDP_HEADER + (frags.flatMap payload).length := by
  rw [sum_len, length_flatMap]
  simp only [payload, length_drop]

theorem udp_len (frag_pkt : Frag_Packet) :
    frag_pkt.given.len ≠ frag_pkt.given.payload.length := by
  simp only [Frag_Packet.given, sum_len_eq, SIZEOF_UDP_HEADER]
  omega

theorem copied_header_len {first : Bytes} {n : ℕ} (hfirst : SIZEOF_UDP_HEADER ≤ first.length) :
    ((copied_header e first (SIZEOF_UDP_HEADER + n)).drop 16).take 2 =
      (e.order (le_bytes 2 n)).map some := by
  rw [SIZEOF_UDP_HEADER] at hfirst
  rw [copied_header, Nat.add_sub_cancel_left, append_assoc, append_assoc, drop_left', take_left']
  · simp
  · simp only [length_append, length_map, length_take, length_drop, length_replicate]
    omega

theorem asks_whole (hsound : frag_pkt.Sound) (hnum : frag_pkt.num_elements = msg.frag_num)
    (hseveral : 1 < msg.frag_num)
    (hfrag : ∀ i < frag_pkt.num_elements, ∀ m, (frag_pkt.elements i).buf = some m →
      msg.Fragment e i m) (hall : frag_pkt.recv_elements = frag_pkt.num_elements)
    (hsize : msg.data.length < 2 ^ 16) (call : Call) :
    msg.Asks e (.deliver_fragmented call.flags frag_pkt.frags call.junk call.rets) := by
  have hget : ∀ i buff, frag_pkt.frags[i]? = some buff → ∃ m, msg.Fragment e i m ∧
      buff = m.mem.bytes 0 m.len := by
    intro i buff hbuff
    obtain ⟨hlt, rfl⟩ := List.getElem?_eq_some_iff.mp hbuff
    have hlt' : i < frag_pkt.num_elements := by simpa [Frag_Packet.frags] using hlt
    obtain ⟨m, hm⟩ := hsound.whole hall i hlt'
    exact ⟨m, hfrag i hlt' m (by rw [hm]), by simp [Frag_Packet.frags, hm]⟩
  have hlength : frag_pkt.frags.length = msg.frag_num := by
    rw [Frag_Packet.frags, length_map, length_range, hnum]
  have hheader : ∀ buff ∈ frag_pkt.frags, SIZEOF_UDP_HEADER ≤ buff.length := by
    intro buff hbuff
    obtain ⟨i, hi⟩ := mem_iff_getElem?.mp hbuff
    obtain ⟨m, hm, rfl⟩ := hget i buff hi
    rw [Mem.bytes_length, hm.len]
    exact Nat.le_add_right _ _
  have hpayload : frag_pkt.frags.flatMap payload = msg.data := by
    rw [← msg.chunks, ← hnum, Frag_Packet.frags, flatMap_map]
    refine flatMap_congr fun i hi => ?_
    rw [mem_range] at hi
    obtain ⟨m, hm⟩ := hsound.whole hall i hi
    rw [hm]
    exact (hfrag i hi m (by rw [hm])).payload
  constructor
  · have hfirst : SIZEOF_UDP_HEADER ≤ (frag_pkt.frags.headD []).length := by
      cases hfrags : frag_pkt.frags with
      | nil =>
        rw [hfrags, length_nil] at hlength
        omega
      | cons buff frags => exact hheader buff (hfrags ▸ mem_cons_self)
    have hsum : sum_len frag_pkt.frags = SIZEOF_UDP_HEADER + msg.data.length := by
      rw [sum_len_eq, hpayload]
    refine ⟨hsize, _, copied_header_length hfirst, copied_header_len hfirst, ?_⟩
    rw [Event.frame, fragmented_frame, hsum, hpayload]
  · refine fun ses hopen hrouting => ⟨hopen, call.known, hrouting, by omega, hheader, ?_⟩
    intro i buff hbuff
    obtain ⟨m, hm, rfl⟩ := hget i buff hbuff
    have hlen := hm.len
    rw [SIZEOF_UDP_HEADER] at hlen
    rw [frag_num, frag_idx, Mem.getD_bytes _ _ (by omega), Mem.getD_bytes _ _ (by omega), hlength]
    exact ⟨hm.num, hm.idx⟩

theorem Message.Fragment.single (h : msg.Fragment e i m) (hone : msg.frag_num = 1) :
    msg.chunk i = msg.data := by
  have hi := h.lt
  obtain rfl : i = 0 := by omega
  have hjoin := msg.chunks
  rwa [hone, range_one, flatMap_singleton] at hjoin

theorem given_single (h : msg.Fragment e i m) (hone : msg.frag_num = 1) :
    m.given e = ⟨msg.data.length, msg.data⟩ := by
  rw [Msg.given, h.len, Nat.add_sub_cancel_left, h.data, h.hdr_len, h.single hone]

theorem asks_single (h : msg.Fragment e i m) (hone : msg.frag_num = 1)
    (hsize : msg.data.length < 2 ^ 16) (call : Call) :
    msg.Asks e (.deliver call.flags (m.mem.bytes 0 m.len) call.rets) := by
  have hlen := h.len
  rw [h.single hone] at hlen
  have hdata := h.data
  rw [h.single hone] at hdata
  have hbytes : m.mem.bytes 0 m.len = m.mem.bytes 0 SIZEOF_UDP_HEADER ++ msg.data := by
    rw [hlen, Mem.bytes_add, zero_add, hdata]
  constructor
  · refine ⟨hsize, (m.mem.bytes 0 SIZEOF_UDP_HEADER).map some, by simp, ?_, ?_⟩
    · have hload : le_value (e.order (m.mem.bytes 16 2)) = msg.data.length := by
        rw [← h.single hone, ← h.hdr_len]
        rfl
      rw [← hload, le_bytes_value (by simp), Endian.order_order]
      rfl
    · rw [Event.frame, packet_frame, Mem.bytes_length, hbytes, map_append, map_append, append_assoc,
        hlen]
  · refine fun ses hopen _ => ⟨hopen, call.known, ?_, fun _ => ?_⟩
    · rw [Mem.bytes_length, hlen]
      exact Nat.le_add_right _ _
    · rw [SIZEOF_UDP_HEADER] at hlen
      rw [frag_num, Mem.getD_bytes _ _ (by omega)]
      exact h.num.trans_le (by omega)

end Chunks

/-! ## 4. What `Session_Read` makes -/

section Handed

variable {α : Type} {e e' : Endian} {msg : Message} {body : Bytes} {frags : List Client.Session}

theorem chunk_of_pieces (f : α → Bytes) (k : ℕ) {l : List α} {data : Bytes}
    (hjoin : l.flatMap f = data)
    (hlen : ∀ i p, l[i]? = some p → (f p).length = min k (data.length - k * i)) :
    ∀ i p, l[i]? = some p → f p = (data.drop (k * i)).take k := by
  induction l generalizing data with
  | nil => simp
  | cons a l ih =>
    have hfirst := hlen 0 a rfl
    rw [mul_zero, Nat.sub_zero] at hfirst
    rw [flatMap_cons] at hjoin
    obtain ⟨hrest, htake⟩ : l.flatMap f = data.drop k ∧ f a = data.take k := by
      have hsum := congrArg List.length hjoin
      rw [length_append] at hsum
      -- a short piece is the last one
      obtain heq | ⟨hle, hnil⟩ : (f a).length = k ∨ (f a).length ≤ k ∧ l.flatMap f = [] := by
        rw [← length_eq_zero_iff]
        omega
      · rw [← hjoin, drop_left' heq, take_left' heq]
        exact ⟨rfl, rfl⟩
      · rw [hnil, append_nil] at hjoin
        rw [hnil, ← hjoin, drop_of_length_le hle, take_of_length_le hle]
        exact ⟨rfl, rfl⟩
    rintro (_ | i) p hp
    · obtain rfl := some.inj hp
      rwa [mul_zero, drop_zero]
    · rw [List.getElem?_cons_succ] at hp
      rw [ih hrest (fun j q hq => ?_) i p hp, drop_drop, Nat.mul_succ, add_comm]
      rw [hlen (j + 1) q hq, length_drop, Nat.mul_succ]
      omega

/-- `m` is fragment `p` as it comes to the destination. The daemons may have changed its
addresses and ports, `ttl` and `routing`; its source is that of the message. -/
structure Message.Comes (e : Endian) (msg : Message) (p : Client.Session) (m : Msg) : Prop where
  len : m.len = p.read_len.toNat
  same : ∀ i, 16 ≤ i ∧ i < 24 ∨ 28 ≤ i → m.mem i = p.data i
  source : msg.source = m.source e
  source_port : msg.source_port = m.source_port e

theorem fragments_of_handed (h : Client.Handed e e' body 28 frags)
    (hdata : msg.data = body.drop 28) (hsize : msg.data.length ≤ MAX_SPINES_CLIENT_MSG)
    (hroom : 28 ≤ body.length) (hlen : Client.word e' body 16 2 = msg.data.length)
    (hkey : ∀ p ∈ frags, p.Numbered e msg.seq_no msg.sess_id) :
    frags.length = msg.frag_num ∧
      ∀ i p m, frags[i]? = some p → msg.Comes e p m → msg.Fragment e i m := by
  have hlength : msg.data.length = body.length - 28 := by rw [hdata, length_drop]
  have hcount := h.length
  have hnum : frags.length = msg.frag_num := by
    rw [Message.frag_num, MAX_SPINES_MSG]
    omega
  have hcap : frags.length ≤ 45 := by
    rw [MAX_SPINES_CLIENT_MSG] at hsize
    omega
  have hjoin : frags.flatMap Client.Session.payload = msg.data := h.payload.trans hdata.symm
  have hpiece : ∀ i p, frags[i]? = some p →
      p.payload.length = min 1128 (msg.data.length - 1128 * i) := by
    intro i p hp
    have hpiece := h.piece i p hp
    rw [Client.Session.payload, Mem.bytes_length, hpiece.read_len, hpiece.overhead]
    omega
  refine ⟨hnum, fun i p m hp hm => ?_⟩
  have hchunk : p.payload = msg.chunk i := chunk_of_pieces _ _ hjoin hpiece i p hp
  have hsizes := hpiece i p hp
  rw [hchunk] at hsizes
  obtain ⟨hlt, -⟩ := List.getElem?_eq_some_iff.mp hp
  have hp' := h.piece i p hp
  have hread := hp'.read_len
  have hbyte : ∀ pos, pos = 22 ∨ pos = 23 → (p.data pos).toNat < 128 →
      char (m.mem pos) = p.data.load e pos 1 := by
    intro pos hpos hsmall
    rw [Client.load_byte, hm.same pos (by omega), char, if_pos hsmall]
  have hnumber := hp'.fragment.num
  have hindex := hp'.fragment.idx
  have hread' : m.len = SIZEOF_UDP_HEADER + (msg.chunk i).length := by
    rw [hm.len, hsizes, SIZEOF_UDP_HEADER]
    omega
  have hhdr : m.hdr_len e = p.data.load e 16 2 :=
    Mem.load_congr fun j hlo hhi => hm.same j (by omega)
  obtain ⟨hseq, hsess⟩ := hkey p (mem_of_getElem? hp)
  have hseq_no : m.seq_no e = p.data.load e 18 2 :=
    Mem.load_congr fun j hlo hhi => hm.same j (by omega)
  have hsess_id : m.sess_id e = p.data.load e 20 2 :=
    Mem.load_congr fun j hlo hhi => hm.same j (by omega)
  refine ⟨hnum ▸ hlt, (hsess_id.trans hsess).symm, hm.source, hm.source_port,
    (hseq_no.trans hseq).symm, ?_, ?_, ?_, hread', ?_⟩
  · rw [← hnum]
    refine (hbyte 22 (.inl rfl) ?_).trans hnumber
    rw [Client.load_byte] at hnumber
    omega
  · refine (hbyte 23 (.inr rfl) ?_).trans hindex
    rw [Client.load_byte] at hindex
    omega
  · rw [hhdr]
    by_cases hmany : (frags.length : ℤ) > 1
    · have hload := hp'.fragment.len hmany
      rw [show Client.sizeof_udp_header = 28 from rfl, hread] at hload
      omega
    · refine (hp'.len_whole hmany).trans (hlen.trans ?_)
      rw [hsizes]
      omega
  · have hpayload := hchunk
    rw [Client.Session.payload, hp'.overhead] at hpayload
    rw [← hpayload, Mem.bytes_length]
    exact Mem.bytes_congr fun j hlo hhi => hm.same j (.inr hlo)

end Handed

/-! ## 5. The packets that are kept -/

section Kept

variable {ι : Type} {e : Endian} {msg : ι → Message} {past rest : List (Sent ι)} {a b : Sent ι}
  {pkts : List Frag_Packet} {frag_pkt : Frag_Packet} {id : ι} {m : Msg} {now : ℤ}

def Frag_Packet.Key (frag_pkt : Frag_Packet) (msg : Message) : Prop :=
  frag_pkt.sess_id = msg.sess_id ∧ frag_pkt.sender = msg.source ∧
    frag_pkt.snd_port = msg.source_port ∧ frag_pkt.seq_no = msg.seq_no

structure Frag_Packet.Keeps (e : Endian) (msg : ι → Message) (past : List (Sent ι))
    (frag_pkt : Frag_Packet) (id : ι) : Prop where
  sound : frag_pkt.Sound
  several : 1 < (msg id).frag_num
  num : frag_pkt.num_elements = (msg id).frag_num
  key : frag_pkt.Key (msg id)
  holds : ∀ i < frag_pkt.num_elements, ∀ m, (frag_pkt.elements i).buf = some m →
    (msg id).Fragment e i m
  arrived : ∀ i < frag_pkt.num_elements,
    (frag_pkt.elements i).buf.isSome ↔ ∃ b ∈ past, b.id = id ∧ b.idx = i
  stamp : ∃ b ∈ past, b.id = id ∧ frag_pkt.timestamp_sec = b.arrival.now

structure Inv (e : Endian) (msg : ι → Message) (past rest : List (Sent ι))
    (pkts : List Frag_Packet) : Prop where
  kept : ∀ f ∈ pkts, ∃ id, f.Keeps e msg past id ∧ ∃ c ∈ rest, c.id = id
  opened : ∀ b ∈ past, 1 < (msg b.id).frag_num → (∃ c ∈ rest, c.id = b.id) →
    ∃ f ∈ pkts, f.Keeps e msg past b.id
  apart : pkts.Pairwise fun f g => ∀ msg, f.Key msg → ¬g.Key msg

theorem Message.Fragment.of (h : (msg id).Fragment e a.idx m) :
    frag_pkt.Of e m ↔ frag_pkt.Key (msg id) := by
  rw [Frag_Packet.Of, Frag_Packet.Key, h.sess_id, h.source, h.source_port, h.seq_no]

theorem search_live (hlive : ∀ f ∈ pkts, ¬now - f.timestamp_sec > FRAG_TTL) :
    (search e now m pkts = (pkts, none) ∧ ∀ f ∈ pkts, ¬f.Of e m) ∨
    ∃ before f behind, pkts = before ++ f :: behind ∧ f.Of e m ∧
      search e now m pkts = (before, some (f, behind)) := by
  induction pkts with
  | nil => exact .inl ⟨rfl, by simp⟩
  | cons f pkts ih =>
    rw [search, if_neg (hlive f mem_cons_self)]
    by_cases hof : f.Of e m
    · exact .inr ⟨[], f, pkts, rfl, hof, if_pos hof⟩
    rw [if_neg hof]
    obtain ⟨hs, hnone⟩ | ⟨before, g, behind, hpkts, hof', hs⟩ :=
      ih fun g hg => hlive g (mem_cons_of_mem f hg)
    · refine .inl ⟨by rw [hs], fun g hg => ?_⟩
      obtain rfl | hg := mem_cons.mp hg
      · exact hof
      · exact hnone g hg
    · exact .inr ⟨f :: before, g, behind, by rw [hpkts]; rfl, hof', by rw [hs]⟩

theorem Correct.fresh (hc : Correct e msg (past ++ a :: rest)) {c : Sent ι}
    (hb : b ∈ past ++ [a]) (hrest : c ∈ rest) (hid : c.id = b.id) : c.idx ≠ b.idx := by
  have honce := hc.once
  rw [append_cons, map_append, nodup_append] at honce
  intro hidx
  exact honce.2.2 _ (List.mem_map_of_mem hb) _ (List.mem_map_of_mem hrest)
    (Prod.ext hid.symm hidx.symm)

theorem Correct.fresh_now (hc : Correct e msg (past ++ a :: rest)) (hb : b ∈ past)
    (hid : b.id = a.id) : b.idx ≠ a.idx := by
  have honce := hc.once
  rw [map_append, nodup_append] at honce
  intro hidx
  exact honce.2.2 _ (List.mem_map_of_mem hb) _ (List.mem_map_of_mem mem_cons_self)
    (Prod.ext hid hidx)

theorem Correct.later (hc : Correct e msg (past ++ a :: rest)) {i : ℕ}
    (hi : i < (msg a.id).frag_num) (hnot : ¬∃ b ∈ past ++ [a], b.id = a.id ∧ b.idx = i) :
    ∃ b ∈ rest, b.id = a.id := by
  obtain ⟨b, hb, hid, hidx⟩ := hc.all a (by simp) i hi
  rw [append_cons] at hb
  obtain hb | hb := mem_append.mp hb
  · exact absurd ⟨b, hb, hid, hidx⟩ hnot
  · exact ⟨b, hb, hid⟩

theorem Inv.live (hinv : Inv e msg past (a :: rest) pkts) (hc : Correct e msg (past ++ a :: rest)) :
    ∀ f ∈ pkts, ¬a.arrival.now - f.timestamp_sec > FRAG_TTL := by
  intro f hf
  obtain ⟨id, hkeeps, c, hmem, rfl⟩ := hinv.kept f hf
  obtain ⟨b, hb, hid, hstamp⟩ := hkeeps.stamp
  have hspan := hc.ttl b (mem_append_left _ hb) c (mem_append_right _ hmem) hid
  have hle : a.arrival.now ≤ c.arrival.now := by
    have hordered := (pairwise_append.mp hc.ordered).2.1
    obtain rfl | hmem := mem_cons.mp hmem
    · exact le_refl _
    · exact (pairwise_cons.mp hordered).1 c hmem
  rw [hstamp]
  omega

theorem Frag_Packet.Keeps.other (h : frag_pkt.Keeps e msg past id) (hne : a.id ≠ id) :
    frag_pkt.Keeps e msg (past ++ [a]) id := by
  obtain ⟨b, hb, hid, hstamp⟩ := h.stamp
  refine ⟨h.sound, h.several, h.num, h.key, h.holds, fun i hi => ?_,
    b, mem_append_left _ hb, hid, hstamp⟩
  rw [h.arrived i hi]
  constructor
  · rintro ⟨b, hb, hid⟩
    exact ⟨b, mem_append_left _ hb, hid⟩
  · rintro ⟨b, hb, hid, hidx⟩
    obtain hb | hb := mem_append.mp hb
    · exact ⟨b, hb, hid, hidx⟩
    · rw [mem_singleton.mp hb] at hid
      exact absurd hid hne

theorem Frag_Packet.Keeps.insert (h : frag_pkt.Keeps e msg past a.id)
    (hfrag : (msg a.id).Fragment e a.idx a.arrival.msg)
    (hfree : (frag_pkt.elements a.arrival.msg.frag_idx.toNat).buf = none) :
    (frag_pkt.insert e a.arrival.now a.arrival.msg).Keeps e msg (past ++ [a]) a.id := by
  have hidx : a.arrival.msg.frag_idx.toNat = a.idx := by
    rw [hfrag.idx]
    rfl
  have hlt : a.idx < frag_pkt.num_elements := h.num ▸ hfrag.lt
  refine ⟨(insert_sound h.sound (hidx ▸ hlt) hfree).mpr hfrag.hdr, h.several, h.num, h.key,
    fun i hi m hm => ?_, fun i hi => ?_, a, by simp, rfl, rfl⟩
  · simp only [Frag_Packet.insert, hidx] at hm
    by_cases hi' : i = a.idx
    · rw [hi', update_self] at hm
      obtain rfl := some.inj hm
      exact hi' ▸ hfrag
    · rw [update_of_ne hi'] at hm
      exact h.holds i hi m hm
  · simp only [Frag_Packet.insert, hidx]
    by_cases hi' : i = a.idx
    · rw [hi', update_self]
      exact iff_of_true rfl ⟨a, by simp, rfl, rfl⟩
    · rw [update_of_ne hi', h.arrived i hi]
      simp [Ne.symm hi']

theorem Frag_Packet.Keeps.new {junk : ℕ → Element}
    (hfrag : (msg a.id).Fragment e a.idx a.arrival.msg) (hmany : 1 < (msg a.id).frag_num)
    (hfirst : ∀ b ∈ past, b.id ≠ a.id) :
    (Frag_Packet.new e a.arrival.now junk a.arrival.msg).Keeps e msg (past ++ [a]) a.id := by
  have hidx : a.arrival.msg.frag_idx.toNat = a.idx := by
    rw [hfrag.idx]
    rfl
  have hnum : a.arrival.msg.frag_num.toNat = (msg a.id).frag_num := by
    rw [hfrag.num]
    rfl
  have hlt := hfrag.lt
  have hsound : (Frag_Packet.new e a.arrival.now junk a.arrival.msg).Sound :=
    (new_sound (by rw [hfrag.idx]; omega) (by rw [hfrag.idx, hfrag.num]; omega)).mpr hfrag.hdr
  refine ⟨hsound, hmany, hnum, ⟨hfrag.sess_id.symm, hfrag.source.symm, hfrag.source_port.symm,
    hfrag.seq_no.symm⟩, fun i hi m hm => ?_, fun i hi => ?_, a, by simp, rfl, rfl⟩
  · simp only [Frag_Packet.new, hidx] at hi hm
    by_cases hi' : i = a.idx
    · rw [hi', update_self] at hm
      obtain rfl := some.inj hm
      exact hi' ▸ hfrag
    · rw [update_of_ne hi', if_pos hi] at hm
      cases hm
  · simp only [Frag_Packet.new, hidx] at hi ⊢
    by_cases hi' : i = a.idx
    · rw [hi', update_self]
      exact iff_of_true rfl ⟨a, by simp, rfl, rfl⟩
    · rw [update_of_ne hi', if_pos hi]
      refine iff_of_false (by simp) ?_
      rintro ⟨b, hb, hid, rfl⟩
      obtain hb | hb := mem_append.mp hb
      · exact hfirst b hb hid
      · rw [mem_singleton.mp hb] at hi'
        exact hi' rfl

theorem Inv.others (hinv : Inv e msg past (a :: rest) pkts) {f : Frag_Packet} (hf : f ∈ pkts)
    (hkey : ¬f.Key (msg a.id)) : ∃ id, f.Keeps e msg (past ++ [a]) id ∧ ∃ c ∈ rest, c.id = id := by
  obtain ⟨id, hkeeps, c, hmem, hid⟩ := hinv.kept f hf
  have hne : a.id ≠ id := by
    rintro rfl
    exact hkey hkeeps.key
  obtain rfl | hmem := mem_cons.mp hmem
  · exact absurd hid hne
  · exact ⟨id, hkeeps.other hne, c, hmem, hid⟩

theorem Frag_Packet.Key.same {f : Frag_Packet} {x y : Message} (h : f.Key x) (h' : f.Key y) :
    x.SameKey y :=
  ⟨h.1.symm.trans h'.1, h.2.1.symm.trans h'.2.1, h.2.2.1.symm.trans h'.2.2.1,
    h.2.2.2.symm.trans h'.2.2.2⟩

theorem Inv.next {before behind : List Frag_Packet} {f : Frag_Packet}
    (hinv : Inv e msg past (a :: rest) (before ++ f :: behind)) (hkey : f.Key (msg a.id))
    (hapart : ∀ b ∈ past, (msg b.id).SameKey (msg a.id) → b.id ≠ a.id → ∀ c ∈ rest, c.id ≠ b.id)
    {mid : Option Frag_Packet} (hmid : ∀ f' ∈ mid, (∀ msg, f'.Key msg → f.Key msg) ∧
      f'.Keeps e msg (past ++ [a]) a.id ∧ ∃ c ∈ rest, c.id = a.id)
    (hopen : (∃ c ∈ rest, c.id = a.id) → ∃ f', mid = some f') :
    Inv e msg (past ++ [a]) rest (before ++ mid.toList ++ behind) := by
  have happart := hinv.apart
  obtain ⟨hbefore, hfrom, hcross⟩ := pairwise_append.mp happart
  obtain ⟨hf, hbehind⟩ := pairwise_cons.mp hfrom
  have hothers : ∀ g ∈ before ++ behind, g ∈ before ++ f :: behind ∧ ¬g.Key (msg a.id) := by
    intro g hg
    obtain hg | hg := mem_append.mp hg
    · exact ⟨mem_append_left _ hg, fun h => hcross g hg f mem_cons_self _ h hkey⟩
    · exact ⟨mem_append_right _ (mem_cons_of_mem f hg), hf g hg _ hkey⟩
  constructor
  · intro g hg
    rw [append_assoc] at hg
    obtain hg | hg := mem_append.mp hg
    · obtain ⟨hmem, hne⟩ := hothers g (mem_append_left _ hg)
      exact hinv.others hmem hne
    · obtain hg | hg := mem_append.mp hg
      · exact ⟨a.id, (hmid g (mem_toList.mp hg)).2⟩
      · obtain ⟨hmem, hne⟩ := hothers g (mem_append_right _ hg)
        exact hinv.others hmem hne
  · rintro b hb hmany ⟨c, hcrest, hid⟩
    by_cases hsame : b.id = a.id
    · obtain ⟨f', rfl⟩ := hopen ⟨c, hcrest, hid.trans hsame⟩
      rw [hsame]
      exact ⟨f', by simp, (hmid f' rfl).2.1⟩
    have hpast : b ∈ past := by
      obtain hb | hb := mem_append.mp hb
      · exact hb
      · rw [mem_singleton.mp hb] at hsame
        exact absurd rfl hsame
    obtain ⟨g, hg, hkeeps⟩ := hinv.opened b hpast hmany ⟨c, mem_cons_of_mem a hcrest, hid⟩
    have hg' : g ∈ before ++ behind := by
      obtain hg | hg := mem_append.mp hg
      · exact mem_append_left _ hg
      · obtain rfl | hg := mem_cons.mp hg
        · exact absurd hid (hapart b hpast (hkeeps.key.same hkey) hsame c hcrest)
        · exact mem_append_right _ hg
    refine ⟨g, ?_, hkeeps.other (Ne.symm hsame)⟩
    simp only [mem_append] at hg' ⊢
    exact hg'.elim (fun h => .inl (.inl h)) Or.inr
  · rw [append_assoc, pairwise_append, pairwise_append]
    refine ⟨hbefore, ⟨?_, hbehind, fun f' hf' g hg msg h => ?_⟩, fun g hg x hx msg h => ?_⟩
    · cases mid with
      | none => exact .nil
      | some f' => exact pairwise_singleton _ f'
    · exact hf g hg msg ((hmid f' (mem_toList.mp hf')).1 msg h)
    · obtain hx | hx := mem_append.mp hx
      · intro h'
        exact hcross g hg f mem_cons_self msg h
          ((hmid x (mem_toList.mp hx)).1 msg h')
      · exact hcross g hg x (mem_cons_of_mem f hx) msg h

theorem Inv.begun (hinv : Inv e msg past (a :: rest) pkts) (hnone : ∀ f ∈ pkts, ¬f.Key (msg a.id))
    {f : Frag_Packet} (hkeeps : f.Keeps e msg (past ++ [a]) a.id) (hmore : ∃ c ∈ rest, c.id = a.id)
    (hfirst : ∀ b ∈ past, b.id ≠ a.id) : Inv e msg (past ++ [a]) rest (f :: pkts) := by
  constructor
  · intro g hg
    obtain rfl | hg := mem_cons.mp hg
    · exact ⟨a.id, hkeeps, hmore⟩
    · exact hinv.others hg (hnone g hg)
  · rintro b hb hmany ⟨c, hcrest, hid⟩
    obtain hb | hb := mem_append.mp hb
    · obtain ⟨g, hg, hkeeps'⟩ := hinv.opened b hb hmany ⟨c, mem_cons_of_mem a hcrest, hid⟩
      exact ⟨g, mem_cons_of_mem f hg, hkeeps'.other (hfirst b hb).symm⟩
    · rw [mem_singleton.mp hb]
      exact ⟨f, mem_cons_self, hkeeps⟩
  · refine pairwise_cons.mpr ⟨fun g hg x hx hx' => hnone g hg ?_, hinv.apart⟩
    obtain ⟨h1, h2, h3, h4⟩ := hx.same hkeeps.key
    exact ⟨hx'.1.trans h1, hx'.2.1.trans h2, hx'.2.2.1.trans h3, hx'.2.2.2.trans h4⟩

theorem Inv.single (hinv : Inv e msg past (a :: rest) pkts) (hone : ¬1 < (msg a.id).frag_num) :
    Inv e msg (past ++ [a]) rest pkts := by
  have hne : ∀ {id}, 1 < (msg id).frag_num → a.id ≠ id := by
    rintro id hmany rfl
    exact hone hmany
  refine ⟨fun f hf => ?_, ?_, hinv.apart⟩
  · obtain ⟨id, hkeeps, c, hmem, hid⟩ := hinv.kept f hf
    have hother := hne hkeeps.several
    obtain rfl | hmem := mem_cons.mp hmem
    · exact absurd hid hother
    · exact ⟨id, hkeeps.other hother, c, hmem, hid⟩
  · rintro b hb hmany ⟨c, hcrest, hid⟩
    obtain hb | hb := mem_append.mp hb
    · obtain ⟨f, hf, hkeeps⟩ := hinv.opened b hb hmany ⟨c, mem_cons_of_mem a hcrest, hid⟩
      exact ⟨f, hf, hkeeps.other (hne hmany)⟩
    · rw [mem_singleton.mp hb] at hmany
      exact absurd hmany hone

theorem event_none {d : Delivered} (hmany : m.frag_num > 1) (hcomplete : d.complete = none)
    (call : Call) : call.event m d = none := by
  rw [Call.event, if_pos hmany, hcomplete]
  rfl

theorem Frag_Packet.Keeps.whole_iff (h : frag_pkt.Keeps e msg (past ++ [a]) a.id)
    (hc : Correct e msg (past ++ a :: rest)) :
    frag_pkt.recv_elements = frag_pkt.num_elements ↔ ∀ b ∈ rest, b.id ≠ a.id := by
  constructor
  · intro hall b hb hid
    have hlt : b.idx < frag_pkt.num_elements := by
      rw [h.num, ← hid]
      exact (hc.fragment b (by simp [hb])).lt
    obtain ⟨m, hm⟩ := h.sound.whole hall b.idx hlt
    obtain ⟨b', hb', hid', hidx'⟩ := (h.arrived b.idx hlt).mp (by rw [hm]; rfl)
    exact hc.fresh hb' hb (hid.trans hid'.symm) hidx'.symm
  · intro hlast
    have hfull : (range frag_pkt.num_elements).countP
        (fun i => (frag_pkt.elements i).buf.isSome) = (range frag_pkt.num_elements).length := by
      refine countP_eq_length.mpr fun i hi => ?_
      rw [mem_range] at hi
      rw [h.arrived i hi]
      -- a place that is empty is for a fragment that is to come
      by_contra hmiss
      obtain ⟨b, hb, hid⟩ := hc.later (h.num ▸ hi) hmiss
      exact hlast b hb hid
    rw [h.sound.counted, hfull, length_range]

structure Arrives (e : Endian) (msg : ι → Message) (past rest : List (Sent ι)) (a : Sent ι)
    (d : Delivered) : Prop where
  early : (∃ b ∈ rest, b.id = a.id) → a.call.event a.arrival.msg d = none
  whole : (∀ b ∈ rest, b.id ≠ a.id) →
    ∃ ev, a.call.event a.arrival.msg d = some ev ∧ (msg a.id).Asks e ev
  inv : Inv e msg (past ++ [a]) rest d.frag_pkts

section Step

variable (hc : Correct e msg (past ++ a :: rest))

include hc

theorem step_begun (hinv : Inv e msg past (a :: rest) pkts) (hmany : 1 < (msg a.id).frag_num)
    (hnum : a.arrival.msg.frag_num > 1) (hneg : ¬a.arrival.msg.frag_idx < 0)
    (hs : search e a.arrival.now a.arrival.msg pkts = (pkts, none))
    (hnone : ∀ f ∈ pkts, ¬f.Key (msg a.id)) :
    ∃ d, Session_Deliver_Data e a.arrival.now a.arrival.junk pkts a.arrival.msg = .ok d ∧
      Arrives e msg past rest a d := by
  have hfirst : ∀ b ∈ past, b.id ≠ a.id := by
    intro b hb hid
    obtain ⟨f, hf, hkeeps⟩ := hinv.opened b hb (hid.symm ▸ hmany) ⟨a, mem_cons_self, hid.symm⟩
    rw [hid] at hkeeps
    exact hnone f hf hkeeps.key
  have hkeeps : (Frag_Packet.new e a.arrival.now a.arrival.junk a.arrival.msg).Keeps e msg
      (past ++ [a]) a.id := Frag_Packet.Keeps.new (hc.fragment a (by simp)) hmany hfirst
  have hwait : ¬(Frag_Packet.new e a.arrival.now a.arrival.junk a.arrival.msg).recv_elements =
      (Frag_Packet.new e a.arrival.now a.arrival.junk a.arrival.msg).num_elements := by
    rw [hkeeps.num]
    exact hmany.ne
  have hmore := mt (hkeeps.whole_iff hc).mpr hwait
  have hplace : place e a.arrival.now a.arrival.junk pkts a.arrival.msg = _ := place_new hs hneg
  have hrun := deliver_of_place hnum hplace
  dsimp only at hrun
  rw [if_neg hwait] at hrun
  push Not at hmore
  exact ⟨_, hrun, fun _ => event_none hnum rfl _,
    fun hlast => absurd hlast (by push Not; exact hmore),
    hinv.begun hnone hkeeps hmore hfirst⟩

theorem step_kept {before behind : List Frag_Packet} {f : Frag_Packet}
    (hinv : Inv e msg past (a :: rest) (before ++ f :: behind)) (hkeeps : f.Keeps e msg past a.id)
    (hapart : ∀ b ∈ past, (msg b.id).SameKey (msg a.id) → b.id ≠ a.id → ∀ c ∈ rest, c.id ≠ b.id)
    (hnum : a.arrival.msg.frag_num > 1) (hneg : ¬a.arrival.msg.frag_idx < 0)
    (hs : search e a.arrival.now a.arrival.msg (before ++ f :: behind) = (before, some (f, behind))) :
    ∃ d, Session_Deliver_Data e a.arrival.now a.arrival.junk (before ++ f :: behind)
        a.arrival.msg = .ok d ∧ Arrives e msg past rest a d := by
  have hfrag := hc.fragment a (by simp)
  have hidx : a.arrival.msg.frag_idx.toNat = a.idx := by
    rw [hfrag.idx]
    rfl
  have hlt : a.idx < f.num_elements := hkeeps.num ▸ hfrag.lt
  have hfree : (f.elements a.arrival.msg.frag_idx.toNat).buf = none := by
    rw [← not_isSome_iff_eq_none, hidx, hkeeps.arrived a.idx hlt]
    rintro ⟨b, hb, hid, hidx'⟩
    exact hc.fresh_now hb hid hidx'
  have hsame : (f.num_elements : ℤ) = a.arrival.msg.frag_num := by
    rw [hkeeps.num, hfrag.num]
  have hnew := hkeeps.insert hfrag hfree
  have hplace : place e a.arrival.now a.arrival.junk _ a.arrival.msg = _ :=
    place_insert hs hsame hneg hfree
  have hrun := deliver_of_place hnum hplace
  dsimp only at hrun
  by_cases hall : (f.insert e a.arrival.now a.arrival.msg).recv_elements =
      (f.insert e a.arrival.now a.arrival.msg).num_elements
  · have hdone := (hnew.whole_iff hc).mp hall
    have hnot : ¬∃ c ∈ rest, c.id = a.id := fun ⟨b, hb, hid⟩ => hdone b hb hid
    rw [if_pos hall] at hrun
    refine ⟨_, hrun, fun h => absurd h hnot, fun _ => ?_, ?_⟩
    · rw [Call.event, if_pos hnum]
      exact ⟨_, rfl, asks_whole hnew.sound hnew.num hnew.several hnew.holds hall
        (hc.size a (by simp)) a.call⟩
    · have hnext : Inv e msg (past ++ [a]) rest (before ++ Option.toList none ++ behind) :=
        hinv.next hkeeps.key hapart (by simp) fun h => absurd h hnot
      rwa [toList_none, append_nil] at hnext
  · have hmore := mt (hnew.whole_iff hc).mpr hall
    rw [if_neg hall] at hrun
    refine ⟨_, hrun, fun _ => event_none hnum rfl _, fun hlast => absurd hlast hmore, ?_⟩
    push Not at hmore
    have hnext : Inv e msg (past ++ [a]) rest
        (before ++ (some (f.insert e a.arrival.now a.arrival.msg)).toList ++ behind) := by
      refine hinv.next hkeeps.key hapart ?_ fun _ => ⟨_, rfl⟩
      rintro f' hf'
      obtain rfl := some.inj hf'
      exact ⟨fun _ h => h, hnew, hmore⟩
    rwa [toList_some, append_assoc, singleton_append] at hnext

theorem step_single (hinv : Inv e msg past (a :: rest) pkts)
    (hmany : ¬1 < (msg a.id).frag_num) :
    ∃ d, Session_Deliver_Data e a.arrival.now a.arrival.junk pkts a.arrival.msg = .ok d ∧
      Arrives e msg past rest a d := by
  have hfrag := hc.fragment a (by simp)
  have hone : (msg a.id).frag_num = 1 := by
    have hlt := hfrag.lt
    omega
  have hnum : ¬a.arrival.msg.frag_num > 1 := by
    rw [hfrag.num, hone]
    decide
  refine ⟨⟨pkts, none, none⟩, if_neg hnum, ?_, fun _ => ?_, hinv.single hmany⟩
  · rintro ⟨b, hb, hid⟩
    have hb' := (hc.fragment b (by simp [hb])).lt
    rw [hid, hone] at hb'
    have hlt := hfrag.lt
    have ha : a ∈ past ++ [a] := by simp
    exact absurd (show b.idx = a.idx by omega) (hc.fresh ha hb hid)
  · rw [Call.event, if_neg hnum]
    exact ⟨_, rfl, asks_single hfrag hone (hc.size a (by simp)) a.call⟩

/-- **One fragment** of messages that are kept apart. -/
theorem step_apart (hinv : Inv e msg past (a :: rest) pkts)
    (hapart : 1 < (msg a.id).frag_num → ∀ b ∈ past, (msg b.id).SameKey (msg a.id) → b.id ≠ a.id →
      ∀ c ∈ rest, c.id ≠ b.id) :
    ∃ d, Session_Deliver_Data e a.arrival.now a.arrival.junk pkts a.arrival.msg = .ok d ∧
      Arrives e msg past rest a d := by
  have hfrag := hc.fragment a (by simp)
  by_cases hmany : 1 < (msg a.id).frag_num
  · have hnum : a.arrival.msg.frag_num > 1 := by
      rw [hfrag.num]
      exact_mod_cast hmany
    have hneg : ¬a.arrival.msg.frag_idx < 0 := by
      rw [hfrag.idx]
      omega
    obtain ⟨hs, hnone⟩ | ⟨before, f, behind, rfl, hof, hs⟩ :=
      search_live (e := e) (m := a.arrival.msg) (hinv.live hc)
    · exact step_begun hc hinv hmany hnum hneg hs fun f hf h => hnone f hf (hfrag.of.mpr h)
    · have hkey := hfrag.of.mp hof
      obtain ⟨id, hkeeps, c, hmem, hid⟩ := hinv.kept f (by simp)
      -- only one message of this key is open
      obtain rfl : id = a.id := by
        by_contra hne
        obtain ⟨b, hb, hid', -⟩ := hkeeps.stamp
        obtain rfl | hmem := mem_cons.mp hmem
        · exact hne hid.symm
        · refine hapart hmany b hb ?_ (hid'.symm ▸ hne) c hmem (hid.trans hid'.symm)
          rw [hid']
          exact hkeeps.key.same hkey
      exact step_kept hc hinv hkeeps (hapart hmany) hnum hneg hs
  · exact step_single hc hinv hmany

end Step

end Kept

/-! ## 6. Whole runs -/

section Runs

variable {ι : Type} {e : Endian} {msg : ι → Message} {past rest : List (Sent ι)}
  {pkts : List Frag_Packet}

/-- The induction is on what is still to come. -/
theorem tcp_through (hc : Correct e msg (past ++ rest)) (hinv : Inv e msg past rest pkts)
    (hapart : Apart msg past rest) : TcpThrough e msg rest pkts := by
  induction rest generalizing past pkts with
  | nil => trivial
  | cons a rest ih =>
    obtain ⟨hkeys, hrest⟩ := hapart
    obtain ⟨d, hd, harrives⟩ := step_apart hc hinv hkeys
    rw [append_cons] at hc
    exact ⟨d, hd, harrives.early, harrives.whole, ih hc harrives.inv hrest⟩

theorem udp_iff (as : List (Sent ι)) (hfrag : ∀ a ∈ as, (msg a.id).Fragment e a.idx a.arrival.msg)
    (honce : (as.map fun a => (a.id, a.idx)).Nodup) :
    UdpThrough e msg as pkts ↔ ∀ a ∈ as, (msg a.id).frag_num = 1 := by
  induction as generalizing pkts with
  | nil => simp [UdpThrough, Through]
  | cons a rest ih =>
    have hrest : ∀ b ∈ rest, (msg b.id).Fragment e b.idx b.arrival.msg :=
      fun b hb => hfrag b (mem_cons_of_mem a hb)
    have hone : ∀ {b}, b ∈ a :: rest → 1 ≤ (msg b.id).frag_num := fun {b} _ => le_max_left _ _
    rw [map_cons, nodup_cons] at honce
    have ha := hfrag a mem_cons_self
    constructor
    · rintro ⟨d, hd, hnone, hgiven, hthrough⟩
      have hsingle := (ih hrest honce.2).mp hthrough
      intro b hb
      obtain rfl | hb := mem_cons.mp hb
      · by_contra hmany
        have hnum : b.arrival.msg.frag_num > 1 := by
          have hpos := hone mem_cons_self
          rw [ha.num]
          omega
        -- nothing of it comes later, as what comes later is in one piece
        have hlast : ∀ c ∈ rest, c.id ≠ b.id := by
          intro c hcrest hid
          have hc := hsingle c hcrest
          rw [hid] at hc
          exact hmany hc
        obtain ⟨g, hout, rfl⟩ := hgiven hlast
        obtain ⟨frag_pkt, -, hpkt⟩ := map_eq_some_iff.mp ((if_pos hnum).symm.trans hout)
        refine udp_len frag_pkt ?_
        rw [hpkt]
      · exact hsingle b hb
    · intro hall
      have hnum : ¬a.arrival.msg.frag_num > 1 := by
        rw [ha.num, hall a mem_cons_self]
        decide
      refine ⟨⟨pkts, none, none⟩, if_neg hnum, ?_, fun _ => ⟨_, ?_, rfl⟩, ?_⟩
      · rintro ⟨b, hb, hid⟩
        have hidx : b.idx = a.idx := by
          have hlt := (hrest b hb).lt
          have hlt' := ha.lt
          have hnum' := hall b (mem_cons_of_mem a hb)
          have hnum'' := hall a mem_cons_self
          omega
        exact absurd (List.mem_map.mpr ⟨b, hb, Prod.ext hid hidx⟩) honce.1
      · exact (if_neg hnum).trans (congrArg some (given_single ha (hall a mem_cons_self)))
      · exact (ih hrest honce.2).mpr fun b hb => hall b (mem_cons_of_mem a hb)

/-- One call for each message, in the order of their last fragments. -/
theorem asked_frames [DecidableEq ι] {as : List (Sent ι)} (h : TcpThrough e msg as pkts) :
    Forall₂ (fun id ev => (msg id).Frame e (ev.frame e)) (as.map Sent.id).dedup
      (asked e as pkts) := by
  induction as generalizing pkts with
  | nil => exact .nil
  | cons a rest ih =>
    obtain ⟨d, hd, hearly, hwhole, hrest⟩ := h
    rw [asked, hd, map_cons]
    by_cases hmem : a.id ∈ rest.map Sent.id
    · have hnone : a.call.event a.arrival.msg d = none := hearly (List.mem_map.mp hmem)
      dsimp only
      rw [dedup_cons_of_mem hmem, hnone]
      exact ih hrest
    · obtain ⟨ev, hev, hasks⟩ := hwhole fun b hb hid => hmem (List.mem_map.mpr ⟨b, hb, hid⟩)
      dsimp only at hev ⊢
      rw [dedup_cons_of_notMem hmem, hev]
      exact .cons hasks.frame (ih hrest)

theorem Plays.expected {w w' : World} {evs : List Event} (h : Plays e w evs w') (hw : w.Inv e) :
    w'.Inv e ∧ w'.expected = w.expected ++ (evs.map (Event.frame e)).flatten := by
  induction h with
  | done w => exact ⟨hw, by simp⟩
  | @write w w₁ w₂ evs junk rets hstep hmeets _ ih =>
    obtain ⟨hinv, hexp⟩ := ih (hw.step hstep hmeets).1
    obtain ⟨-, -, r, -, -, -, -, hsame⟩ := hstep
    refine ⟨hinv, ?_⟩
    rw [hexp, hsame, Event.frame, append_nil, ite_self]
  | call hstep hmeets hroom _ ih =>
    obtain ⟨hw', htaken⟩ := hw.step hstep hmeets
    obtain ⟨hinv, hexp⟩ := ih hw'
    refine ⟨hinv, ?_⟩
    rw [hexp, htaken hroom, map_cons, flatten_cons, append_assoc]

end Runs

/-! ## 7. From clients to a client -/

/-- The message of a client of either byte order, and what `Session_Read` hands on for it, on a
session that is not reliable and stays open. -/
def FromClient (e : Endian) (msg : Message) (frags : List Client.Session) : Prop :=
  ∃ (δ : Type) (d : Client.Daemon δ) (st st' : Client.Reader δ) (e' : Endian) (body : Bytes)
    (cs : List Bytes), (d.Keeps e ∧ d.Numbers e) ∧ st.ses.Between ∧
      Client.Fragments st.ses.routing_used ∧ st.ses.From e e' ∧ st.ses.overhead = 28 ∧
      Client.FitsSession st.ses body ∧ Client.word e' body 16 2 = body.length - 28 ∧
      Takes (Client.Session_Read e d) (Client.Meets e d) st cs st' ∧
      cs.flatten = Client.message e' body ∧ st'.ses.closed = false ∧
      st'.handed = st.handed ++ frags ∧ msg.data = body.drop 28 ∧
      msg.seq_no = (Client.expect_data st.ses).seq_no ∧ msg.sess_id = st.ses.sess_id % 2 ^ 16

section FromClient

variable {ι : Type} {e : Endian} {msg : ι → Message} {frags : ι → List Client.Session}
  {as : List (Sent ι)}

/-- The fragments of messages of clients come, each once, in any order, and those of one message
within `FRAG_TTL`. -/
structure Mixed (e : Endian) (msg : ι → Message) (frags : ι → List Client.Session)
    (as : List (Sent ι)) : Prop where
  written : ∀ a ∈ as, FromClient e (msg a.id) (frags a.id)
  comes : ∀ a ∈ as, ∃ p, (frags a.id)[a.idx]? = some p ∧ (msg a.id).Comes e p a.arrival.msg
  once : (as.map fun a => (a.id, a.idx)).Nodup
  all : ∀ a ∈ as, ∀ i < (frags a.id).length, ∃ b ∈ as, b.id = a.id ∧ b.idx = i
  ordered : as.Pairwise fun a b => a.arrival.now ≤ b.arrival.now
  ttl : ∀ a ∈ as, ∀ b ∈ as, a.id = b.id → b.arrival.now - a.arrival.now ≤ FRAG_TTL

theorem FromClient.fragments {msg : Message} {frags : List Client.Session}
    (h : FromClient e msg frags) : msg.data.length < 2 ^ 16 ∧ frags.length = msg.frag_num ∧
      ∀ i p m, frags[i]? = some p → msg.Comes e p m → msg.Fragment e i m := by
  obtain ⟨δ, d, st, st', e', body, cs, ⟨hkeeps, hnumbers⟩, hbetween, hf, hfrom, hover, hfits,
    hword, hrun, hcs, hend, hgiven, hdata, hseq, hsess⟩ := h
  obtain ⟨frags', hgiven', hhanded, hnumbered⟩ :=
    Client.message_handed hkeeps hbetween hf hfrom hfits hrun hcs hend
  obtain rfl := append_cancel_left (hgiven.symm.trans hgiven')
  rw [hover] at hhanded
  obtain ⟨hroom, hsize⟩ := hfits
  have hlength : msg.data.length = body.length - 28 := by rw [hdata, length_drop]
  have hsize' : msg.data.length ≤ MAX_SPINES_CLIENT_MSG := by
    rw [hlength]
    change body.length ≤ 50000 + 28 at hsize
    exact Nat.sub_le_of_le_add hsize
  refine ⟨hsize'.trans_lt (by decide), fragments_of_handed hhanded hdata hsize' (by omega)
    (hword.trans hlength.symm) ?_⟩
  rw [hseq, hsess]
  exact hnumbered hnumbers

theorem Mixed.correct (h : Mixed e msg frags as) : Correct e msg as := by
  refine ⟨fun a ha => ?_, fun a ha => (h.written a ha).fragments.1, h.once, fun a ha i hi => ?_,
    h.ordered, h.ttl⟩
  · obtain ⟨p, hp, hm⟩ := h.comes a ha
    exact (h.written a ha).fragments.2.2 a.idx p a.arrival.msg hp hm
  · rw [← (h.written a ha).fragments.2.1] at hi
    exact h.all a ha i hi

def waits : Call := ⟨1, fun _ => 0, [.again], .inl rfl⟩

theorem turned : ∃ (msg : Message) (frags : List Client.Session) (a b : Sent Unit),
    Mixed .little (fun _ => msg) (fun _ => frags) [a, b] ∧ frags.length = 2 ∧
      b.call = waits ∧ b.arrival.msg.frag_num > 1 := by
  obtain ⟨cs, st, hcs, hrun, hend, h⟩ := Client.client_message_read .little (n := 1129) (by decide)
  have hbody : (Client.client_message .little 1129).length = 1157 := by decide +kernel
  have hcount := h.length
  rw [hbody] at hcount
  obtain ⟨p, q, hpq⟩ := length_eq_two.mp (show st.handed.length = 2 by omega)
  rw [hpq] at h
  let msg : Message := ⟨1, (⟨p.data, 0⟩ : Msg).source .little,
    (⟨p.data, 0⟩ : Msg).source_port .little, 1, (Client.client_message .little 1129).drop 28⟩
  have hsame : ∀ pos w, Client.Copied pos w →
      q.data.load .little pos w = p.data.load .little pos w := by
    intro pos w hpos
    rw [(h.piece 0 p rfl).copied pos w hpos, (h.piece 1 q rfl).copied pos w hpos, if_pos (.inr rfl),
      if_pos (.inr rfl)]
  let sent (i : ℕ) (p : Client.Session) : Sent Unit :=
    ⟨(), i, ⟨0, fun _ => ⟨none, 0⟩, ⟨p.data, p.read_len.toNat⟩⟩, waits⟩
  have hcomes : msg.Comes .little p (sent 0 p).arrival.msg ∧
      msg.Comes .little q (sent 1 q).arrival.msg :=
    ⟨⟨rfl, fun _ _ => rfl, rfl, rfl⟩, ⟨rfl, fun _ _ => rfl, (hsame 0 4 (.inl (.inl rfl))).symm,
      (hsame 12 2 (.inl (.inr (.inr (.inl rfl))))).symm⟩⟩
  have hfrom : FromClient .little msg [p, q] := ⟨_, _, _, st, .little, _, cs,
    ⟨(Client.idle_serves .little).keeps, fun _ _ _ => rfl⟩, Client.idle_between .little, .inl rfl,
    Client.idle_from .little, rfl, Client.client_message_fits .little (by decide),
    (Client.client_message_len .little (by decide)).trans (by rw [hbody]), hrun, hcs, hend, hpq, rfl,
    rfl, rfl⟩
  refine ⟨msg, [p, q], sent 1 q, sent 0 p, ⟨fun _ _ => hfrom, ?_, by simp [sent], ?_, by simp [sent],
    by simp [sent, FRAG_TTL]⟩, rfl, rfl, ?_⟩
  · rintro a (_ | ⟨_, _ | ⟨_, ⟨⟩⟩⟩)
    exacts [⟨q, rfl, hcomes.2⟩, ⟨p, rfl, hcomes.1⟩]
  · rintro - - (_ | _ | i) hi
    exacts [⟨sent 0 p, by simp, rfl, rfl⟩, ⟨sent 1 q, by simp, rfl, rfl⟩, absurd hi (by simp)]
  · have hfragment := hfrom.fragments.2.2 0 p _ rfl hcomes.1
    have hnum := hfrom.fragments.2.1
    rw [hfragment.num, ← hnum]
    exact Nat.cast_lt.mpr (show 1 < [p, q].length by simp)

theorem rest_waits {n i : ℕ} {junk : Mem} {first : Bytes} {bs : List Bytes} {rets : List Ret}
    {ses : Session} (hne : ses.rel_deliver_buff ≠ []) :
    ∃ w, ses.deliver_frags e junk n first i bs rets = some w ∧ w.rest = rets := by
  induction bs generalizing i ses with
  | nil => exact ⟨_, rfl, rfl⟩
  | cons buff bs ih =>
    rw [Session.deliver_frags, if_pos hne]
    exact ih (by simp [Session.push])

theorem all_waits {junk : Mem} {bs : List Bytes} (hne : bs ≠ []) :
    ∃ r, (idle .min_weight).ses.step e (.deliver_fragmented 1 bs junk [.again]) = some r ∧
      r.rest = [] := by
  obtain ⟨buff, bs, rfl⟩ := exists_cons_of_ne_nil hne
  have hdrain : drain false (offer_frag e (sum_len (buff :: bs))
      (first_frag_udp_hdr e junk buff (sum_len (buff :: bs))) buff buff)
      (SIZEOF_INT32 + buff.length) [.again] (frag_start 0) = some ⟨.blocked, 0, [], []⟩ := by
    rw [drain, if_neg (by simp [SIZEOF_INT32, frag_start])]
    rfl
  have hblocked : ((idle .min_weight).ses.block ⟨buff, sum_len (buff :: bs)⟩ 0).rel_deliver_buff
      ≠ [] := by simp [Session.block, Session.push]
  obtain ⟨w, hw, hrest⟩ := @rest_waits e (sum_len (buff :: bs)) 1 junk buff bs [] _ hblocked
  refine ⟨{ w with out := w.out }, ?_, hrest⟩
  rw [Session.step, Session.deliver_fragmented, show (idle .min_weight).ses.full 1 _ = none from rfl]
  dsimp only
  rw [Session.deliver_frags, if_neg (by simp [idle]), headD_cons]
  dsimp only
  rw [hdrain]
  dsimp only [Option.bind_eq_bind, Option.bind_some]
  rw [hw]
  rfl

end FromClient

end Spines.Outgoing.FragPkts
