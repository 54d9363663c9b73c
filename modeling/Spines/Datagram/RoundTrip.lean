/-
Data packets survive a link, and any retransmission on it.

A packet *carries* a message when it is the body, some trailer and the dissemination
header, with the two lengths that go with them. The sending side keeps every message a
window holds *intact* in its buffer, because all that is ever written into the buffer
again goes behind the body, and a real-time link writes the same header to the same place.

Two things break this. `Forward_Rel_UDP_Data` sends no dissemination header, and the
receiver reads one all the same (`source_based_lost`). And a buffer in a window is not a
copy: when a session changes it before the link has let go of it, the link retransmits
the new contents. `Daemon.Meets` excludes both.
-/
import Spines.Datagram.Links

set_option autoImplicit false

namespace Spines.Datagram

open Spines.Lib Function Option List

/-! ## 1. Receiving a packet -/

structure Carries (cf : Conf) (s : Sent) : Prop where
  admissible : s.msg.Admissible cf .udp
  packet : ∃ trailer : Bytes,
    s.packet.body = s.msg.body ++ trailer ++ s.msg.header ∧
    s.packet.data_len = s.msg.body.length ∧
    s.packet.ack_len = trailer.length + s.msg.header.length
  fits : s.packet.body.length ≤ PACKET_BODY

theorem Msg.Admissible.udp {cf : Conf} {t : Link_Type} {m : Msg} (h : m.Admissible cf t) :
    m.Admissible cf .udp := by
  refine ⟨h.udp_header, h.routed, ?_⟩
  have hfits := h.fits
  simp only [Link_Type.trailer]
  omega

theorem Msg.Admissible.header_size {cf : Conf} {t : Link_Type} {m : Msg} (h : m.Admissible cf t) :
    Dissemination_Header_Size cf (m.routing) = some m.header.length := by
  have hfits := h.fits
  simp only [PACKET_BODY] at hfits
  rcases h.routed with ⟨hr, hnil⟩ | ⟨hr, hlen⟩
  · rw [hr, hnil]
    simp [Dissemination_Header_Size]
  · have hmod : (SIZEOF_SB_HEADER + cf.bitmask_size) % 2 ^ 16 = m.header.length := by
      rw [← hlen]
      exact Nat.mod_eq_of_lt (by omega)
    rw [hr, Dissemination_Header_Size, if_neg (by decide), if_neg (by decide), if_neg (by decide),
      if_pos rfl, hmod]

theorem Carries.unpack {cf : Conf} {s : Sent} (h : Carries cf s) {w : ℕ} (hw : 16 ≤ w)
    (mem : Mem) : unpack cf w mem s.packet = some s.msg := by
  obtain ⟨trailer, hbody, hdata, hack⟩ := h.packet
  have hfits := h.fits
  have hudp := h.admissible.udp_header
  have htake : s.packet.body.take PACKET_BODY = s.packet.body := take_of_length_le hfits
  have hlen : s.packet.body.length =
      s.msg.body.length + trailer.length + s.msg.header.length := by
    rw [hbody, length_append, length_append]
  have hpow : 2 ^ 16 ≤ 2 ^ w := Nat.pow_le_pow_right (by norm_num) hw
  have hread : s.packet.read mem = mem.write 0 s.packet.body := by rw [Packet.read, htake]
  -- the body and the header are slices of the packet
  have hmsg : (mem.write 0 s.packet.body).bytes 0 s.packet.data_len = s.msg.body := by
    have hle : 0 + s.packet.data_len ≤ s.packet.body.length := by omega
    have hslice := Mem.bytes_write_slice mem 0 0 s.packet.data_len hle
    rw [add_zero] at hslice
    rw [hslice, hdata, drop_zero, hbody, append_assoc, take_left]
  have hroute : routing_of (mem.write 0 s.packet.body) =
      s.msg.routing := by
    have hlt : ROUTING < s.packet.data_len := by
      rw [hdata]
      simp only [ROUTING, SIZEOF_UDP_HEADER] at hudp ⊢
      omega
    have hget := Mem.getD_bytes (mem.write 0 s.packet.body) 0 hlt 0
    rw [hmsg, zero_add] at hget
    rw [routing_of, Msg.routing, hget]
  have hrest : (s.packet.ack_len + (2 ^ w - s.msg.header.length)) % 2 ^ w = trailer.length := by
    simp only [PACKET_BODY] at hfits
    have hsum : s.packet.ack_len + (2 ^ w - s.msg.header.length) = trailer.length + 2 ^ w := by
      omega
    rw [hsum, Nat.add_mod_right, Nat.mod_eq_of_lt (by omega)]
  have hheader : (mem.write 0 s.packet.body).bytes
      (s.packet.data_len + trailer.length) s.msg.header.length = s.msg.header := by
    have hle : s.packet.data_len + trailer.length + s.msg.header.length ≤
        s.packet.body.length := by omega
    have hslice := Mem.bytes_write_slice mem 0 _ _ hle
    rw [zero_add] at hslice
    have hdrop : s.packet.body.drop (s.packet.data_len + trailer.length) = s.msg.header := by
      rw [hbody, hdata, drop_left' (by rw [length_append])]
    rw [hslice, hdrop, take_length]
  have hsmall : ¬s.packet.body.length < SIZEOF_UDP_HEADER := by omega
  simp only [Datagram.unpack, htake, if_neg hsmall, hread, hroute, h.admissible.header_size,
    bind_eq_bind, bind_some, hrest, hmsg, hheader]
  rfl

theorem Carries.sizes_ok {cf : Conf} {s : Sent} (h : Carries cf s) : s.packet.sizes_ok := by
  obtain ⟨trailer, hbody, hdata, hack⟩ := h.packet
  rw [Packet.sizes_ok, take_of_length_le h.fits, hbody, hdata, hack, length_append,
    length_append]
  omega

theorem Carries.receive {cf : Conf} {s : Sent} (h : Carries cf s) (t : Link_Type) (v : Verdict)
    (mem : Mem) : receive cf t v mem s.packet = if v.accepts t then some s.msg else none := by
  unfold Datagram.receive
  rw [if_pos h.sizes_ok]
  cases t with
  | udp =>
    have hacc : v.accepts .udp := trivial
    rw [if_pos hacc]
    exact h.unpack (by norm_num) mem
  | reliable_udp =>
    by_cases hflag : v.flag = -1 ∨ v.flag = 0
    · have hnot : ¬v.accepts .reliable_udp := fun hacc => hflag.elim hacc.1 hacc.2
      rw [if_neg hnot]
      exact if_pos hflag
    · have hacc : v.accepts .reliable_udp := not_or.mp hflag
      rw [if_pos hacc]
      exact (if_neg hflag).trans (h.unpack (le_refl 16) mem)
  | realtime_udp =>
    by_cases hold : v.old = true
    · have hnot : ¬v.accepts .realtime_udp := by
        rw [Verdict.accepts, hold]
        decide
      rw [if_neg hnot]
      exact if_pos hold
    · have hacc : v.accepts .realtime_udp := Bool.eq_false_of_not_eq_true hold
      rw [if_pos hacc]
      exact (if_neg hold).trans (h.unpack (le_refl 16) mem)

/-! ## 2. Messages in buffers -/

/-- The buffer has the body in front, and the header, if there is one, eight bytes
behind it. -/
structure Intact (cf : Conf) (h : Heap) (b : ℕ) (m : Msg) : Prop where
  admissible : m.Admissible cf .realtime_udp
  body : (h b).bytes 0 m.body.length = m.body
  header : (h b).bytes (m.body.length + SIZEOF_RT_SEQ) m.header.length = m.header

/-- `K` says which buffers hold which messages; the buffers have them. -/
structure Known (cf : Conf) (K : ℕ → Msg → Prop) (h : Heap) : Prop where
  intact : ∀ b m, K b m → Intact cf h b m
  agree : ∀ b m m', K b m → K b m' → m = m'

section Buffers

variable {cf : Conf} {K : ℕ → Msg → Prop} {h h' : Heap} {b pos : ℕ} {m : Msg} {bs : Bytes}

theorem Heap.write_same : h.write b pos bs b = (h b).write pos bs := by
  rw [Heap.write, update_self]

theorem Heap.write_ne {b' : ℕ} (hne : b' ≠ b) : h.write b pos bs b' = h b' := by
  rw [Heap.write, update_of_ne hne]

theorem Intact.routing_of (hi : Intact cf h b m) : routing_of (h b) = m.routing := by
  have hudp := hi.admissible.udp_header
  have hlt : ROUTING < m.body.length := by
    simp only [ROUTING, SIZEOF_UDP_HEADER] at hudp ⊢
    omega
  have hget := Mem.getD_bytes (h b) 0 hlt 0
  rw [hi.body, zero_add] at hget
  rw [Datagram.routing_of, Msg.routing, hget]

theorem Intact.header_size (hi : Intact cf h b m) :
    Dissemination_Header_Size cf (Datagram.routing_of (h b)) = some m.header.length := by
  rw [hi.routing_of, hi.admissible.header_size]

theorem Known.write (hk : Known cf K h) (hb : K b m) (hpos : pos = m.body.length)
    (hlen : bs.length = SIZEOF_RT_SEQ ∨ m.header = []) : Known cf K (h.write b pos bs) := by
  refine ⟨?_, hk.agree⟩
  intro b' m' hK
  have hi := hk.intact b' m' hK
  by_cases hne : b' = b
  · subst hne
    obtain rfl := hk.agree b' m' m hK hb
    refine ⟨hi.admissible, ?_, ?_⟩
    · rw [Heap.write_same, Mem.bytes_write_other (by omega), hi.body]
    · rw [Heap.write_same]
      rcases hlen with hlen | hnil
      · rw [Mem.bytes_write_other (by omega), hi.header]
      · rw [hnil]
        rfl
  · refine ⟨hi.admissible, ?_, ?_⟩
    · rw [Heap.write_ne hne, hi.body]
    · rw [Heap.write_ne hne, hi.header]

end Buffers

/-! ## 3. The tail of reliable links -/

section Tail

variable {cf : Conf} {r : Reliable_Data} {now i data_len : ℕ} {a : Nacks}

theorem Nacks.ack_len_add : (a.add now i).ack_len = a.ack_len + 4 := by
  simp only [add, ack_len, length_append, length_singleton]
  omega

theorem ack_len_next_nack : (r.next_nack now i a).ack_len ≤ a.ack_len + 4 := by
  unfold Reliable_Data.next_nack
  split
  · exact Nacks.ack_len_add.le
  · omega

theorem ack_len_first_nack : (r.first_nack cf now i a).ack_len ≤ a.ack_len + 4 := by
  unfold Reliable_Data.first_nack
  split
  · exact Nacks.ack_len_add.le
  · omega

theorem next_nack_add : r.next_nack now i (a.add now i) = a.add now i := by
  have hcell : (a.add now i).recv_window (i % MAX_WINDOW) = ⟨.nack, now⟩ :=
    update_self ..
  rw [Reliable_Data.next_nack, hcell, if_neg]
  rintro ⟨-, hover⟩
  simp only [Reliable_Data.overdue, decide_eq_true_eq] at hover
  omega

theorem ack_len_nack_round (again : Bool) :
    (r.nack_round cf again now i a).ack_len ≤ a.ack_len + 4 := by
  unfold Reliable_Data.nack_round
  split
  · -- the second test finds nothing to do after a first NACK
    by_cases hfirst : (a.recv_window (i % MAX_WINDOW)).flag = .empty ∧
        (r.recv_head - i > 3 ∨ (r.recv_head - i > 1 ∧ cf.fast_retransmit))
    · rw [Reliable_Data.first_nack, if_pos hfirst, next_nack_add]
      exact Nacks.ack_len_add.le
    · rw [Reliable_Data.first_nack, if_neg hfirst]
      exact ack_len_next_nack
  · split
    · exact ack_len_first_nack
    · exact ack_len_next_nack

theorem ack_len_add_nacks (again : Bool) (is : List ℕ) (h : a.ack_len + data_len ≤ PACKET_BODY) :
    (r.add_nacks cf again now data_len is a).ack_len + data_len ≤ PACKET_BODY := by
  induction is generalizing a with
  | nil => exact h
  | cons i is ih =>
    unfold Reliable_Data.add_nacks
    split
    · exact h
    · apply ih
      have hround : (r.nack_round cf again now i a).ack_len ≤ a.ack_len + 4 :=
        ack_len_nack_round again
      simp only [PACKET_BODY] at *
      omega

theorem int32_length (x : ℕ) : (cf.int32 x).length = 4 := by
  simp [Conf.int32]

theorem rt_seq_length (x : ℕ) : (cf.rt_seq x).length = SIZEOF_RT_SEQ := by
  simp [Conf.rt_seq, SIZEOF_RT_SEQ]

theorem reliable_tail_length (x y : ℕ) : (cf.reliable_tail x y).length = SIZEOF_RELIABLE_TAIL := by
  simp [Conf.reliable_tail, int32_length, SIZEOF_RELIABLE_TAIL]

theorem nacks_length (seqs : List ℕ) : (seqs.flatMap cf.int32).length = 4 * seqs.length := by
  induction seqs with
  | nil => rfl
  | cons x seqs ih =>
    rw [flatMap_cons, length_append, int32_length, ih, length_cons]
    omega

end Tail

/-! ## 4. Reliable links -/

structure Buffer_Cell.Good (K : ℕ → Msg → Prop) (c : Buffer_Cell) : Prop where
  known : K c.buff c.msg
  data_len : c.data_len = c.msg.body.length
  no_header : c.msg.header = []

structure Reliable_Data.Good (K : ℕ → Msg → Prop) (r : Reliable_Data) : Prop where
  window : ∀ i c, r.window i = some c → c.Good K
  msg_buff : ∀ c ∈ r.msg_buff, c.Good K

section Reliable

variable {cf : Conf} {K : ℕ → Msg → Prop} {h h' : Heap} {r r' : Reliable_Data} {c : Buffer_Cell}
  {cs : List Buffer_Cell} {ss : List Sent} {now : ℕ}

structure Delivered (cf : Conf) (K : ℕ → Msg → Prop) (h : Heap) (r : Reliable_Data)
    (ss : List Sent) : Prop where
  known : Known cf K h
  good : r.Good K
  carries : ∀ s ∈ ss, Carries cf s

theorem Reliable_Data.put_window (r : Reliable_Data) :
    (r.put c).window = update r.window (c.seq_no % MAX_WINDOW) (some c) := rfl

theorem Reliable_Data.Good.put (hr : r.Good K) (hc : c.Good K) : (r.put c).Good K := by
  refine ⟨?_, hr.msg_buff⟩
  intro i c' hi
  by_cases hslot : i = c.seq_no % MAX_WINDOW
  · rw [r.put_window, hslot, update_self] at hi
    cases hi
    exact hc
  · rw [r.put_window, update_of_ne hslot] at hi
    exact hr.window i c' hi

theorem transmit_spec (now : ℕ) (again : Bool) (hk : Known cf K h) (hr : r.Good K) (hc : c.Good K) :
    Delivered cf K (transmit cf again now h r c).1 (transmit cf again now h r c).2.1
      [(transmit cf again now h r c).2.2] := by
  have hi := hk.intact c.buff c.msg hc.known
  have hlen := hc.data_len
  have hroom : c.data_len + SIZEOF_RELIABLE_TAIL ≤ PACKET_BODY := by
    have hfits := hi.admissible.fits
    simp only [Link_Type.trailer, SIZEOF_RT_SEQ, SIZEOF_RELIABLE_TAIL] at hfits ⊢
    omega
  set nacks := r.add_nacks cf again now c.data_len
    (range' r.recv_tail (r.recv_head - r.recv_tail)) ⟨r.recv_window, []⟩
  set tail := cf.reliable_tail c.seq_no r.recv_tail ++ nacks.seqs.flatMap cf.int32 with htail
  have hack : nacks.ack_len + c.data_len ≤ PACKET_BODY := by
    apply ack_len_add_nacks
    simp only [Nacks.ack_len, length_nil]
    omega
  have htail_len : tail.length = nacks.ack_len := by
    rw [htail, length_append, reliable_tail_length, nacks_length, Nacks.ack_len]
  have hk' : Known cf K (h.write c.buff c.data_len tail) :=
    hk.write hc.known hlen (.inr hc.no_header)
  have hbody : ((h.write c.buff c.data_len tail) c.buff).bytes 0 (c.data_len + nacks.ack_len) =
      c.msg.body ++ tail := by
    have hnew := (hk'.intact c.buff c.msg hc.known).body
    rw [← hlen] at hnew
    rw [Mem.bytes_add, zero_add, hnew, Heap.write_same, ← htail_len, Mem.bytes_write rfl]
  refine ⟨hk', ⟨hr.window, hr.msg_buff⟩, ?_⟩
  intro s hs
  rw [mem_singleton] at hs
  subst hs
  refine ⟨hi.admissible.udp, ⟨tail, ?_, ?_, ?_⟩, ?_⟩
  · change ((h.write c.buff c.data_len tail) c.buff).bytes 0 (c.data_len + nacks.ack_len) = _
    rw [hbody]
    change _ = c.msg.body ++ tail ++ c.msg.header
    rw [hc.no_header, append_nil]
  · change c.data_len % 2 ^ 16 = c.msg.body.length
    rw [hlen, Nat.mod_eq_of_lt]
    simp only [PACKET_BODY] at hack
    omega
  · change nacks.ack_len % 2 ^ 16 = tail.length + c.msg.header.length
    rw [hc.no_header, length_nil, add_zero, htail_len, Nat.mod_eq_of_lt]
    simp only [PACKET_BODY] at hack
    omega
  · change (((h.write c.buff c.data_len tail) c.buff).bytes 0
      (c.data_len + nacks.ack_len)).length ≤ PACKET_BODY
    rw [Mem.bytes_length]
    omega

theorem Send_Much_loop_spec (hk : Known cf K h) (hr : r.Good K) (hcs : ∀ c ∈ cs, c.Good K)
    (hsend : Send_Much_loop cf now cs h r = some (h', r', ss)) : Delivered cf K h' r' ss := by
  induction cs generalizing h r ss with
  | nil =>
    cases hsend
    exact ⟨hk, ⟨hr.window, nofun⟩, nofun⟩
  | cons c cs ih =>
    have hc := hcs c mem_cons_self
    have htl : ∀ c' ∈ cs, c'.Good K := fun c' hmem => hcs c' (mem_cons_of_mem c hmem)
    simp only [Send_Much_loop] at hsend
    split at hsend
    · cases hsend
      exact ⟨hk, ⟨hr.window, hcs⟩, nofun⟩
    split at hsend
    · cases hsend
    -- one cell goes into the window and out, then the loop goes on
    have hone := transmit_spec now true hk (hr.put hc) hc
    obtain ⟨⟨h2, r2, ss2⟩, hrest, hret⟩ := bind_eq_some_iff.mp hsend
    cases hret
    have hall := ih hone.known hone.good htl hrest
    refine ⟨hall.known, hall.good, ?_⟩
    intro s hs
    rcases mem_cons.mp hs with hs | hs
    · exact hone.carries s (mem_singleton.mpr hs)
    · exact hall.carries s hs

theorem Send_Much_spec (hk : Known cf K h) (hr : r.Good K)
    (hsend : Send_Much cf now h r = some (h', r', ss)) : Delivered cf K h' r' ss := by
  unfold Send_Much at hsend
  split at hsend
  · exact Send_Much_loop_spec hk hr hr.msg_buff hsend
  · cases hsend
    exact ⟨hk, hr, nofun⟩

theorem Reliable_Send_Msg_spec {b : ℕ} {m : Msg} (hk : Known cf K h) (hr : r.Good K) (hb : K b m)
    (hnil : m.header = [])
    (hsend : Reliable_Send_Msg cf now h r b m.body.length m = some (h', r', ss)) :
    Delivered cf K h' r' ss := by
  have hk1 : Known cf K (h.write b m.body.length (cf.reliable_tail r.seq_no r.recv_tail)) :=
    hk.write hb rfl (.inr hnil)
  have hr1 : Reliable_Data.Good K { r with seq_no := r.seq_no + 1 } := ⟨hr.window, hr.msg_buff⟩
  obtain ⟨⟨h2, r2, ss2⟩, hmuch, hrest⟩ := bind_eq_some_iff.mp hsend
  have hall := Send_Much_spec hk1 hr1 hmuch
  dsimp only at hrest
  set c : Buffer_Cell := ⟨(h2 b).load cf.endian m.body.length 4, b, m.body.length, m⟩ with hcdef
  have hc : c.Good K := ⟨hb, rfl, hnil⟩
  split at hrest
  · cases hrest
    refine ⟨hall.known, ⟨hall.good.window, ?_⟩, hall.carries⟩
    intro c' hmem
    rcases mem_append.mp hmem with hmem | hmem
    · exact hall.good.msg_buff c' hmem
    · rw [mem_singleton.mp hmem]
      exact hc
  split at hrest
  · cases hrest
  have hone := transmit_spec now false hall.known (hall.good.put hc) hc
  cases hrest
  refine ⟨hone.known, hone.good, ?_⟩
  intro s hs
  rcases mem_append.mp hs with hs | hs
  · exact hall.carries s hs
  · exact hone.carries s hs

theorem resend_spec (now : ℕ) (again : Bool) (hk : Known cf K h) (hr : r.Good K)
    (hcs : ∀ c ∈ cs, c.Good K) :
    Delivered cf K (resend cf again now cs h r).1 (resend cf again now cs h r).2.1
      (resend cf again now cs h r).2.2 := by
  induction cs generalizing h r with
  | nil => exact ⟨hk, hr, nofun⟩
  | cons c cs ih =>
    have hc := hcs c mem_cons_self
    have hone := transmit_spec now again hk hr hc
    have hall := ih hone.known hone.good fun c' hmem => hcs c' (mem_cons_of_mem c hmem)
    refine ⟨hall.known, hall.good, ?_⟩
    intro s hs
    rcases mem_cons.mp hs with hs | hs
    · exact hone.carries s (mem_singleton.mpr hs)
    · exact hall.carries s hs

theorem exists_of_mem_mapM {f : ℕ → Option Buffer_Cell} {is : List ℕ}
    (hcells : is.mapM f = some cs) (hmem : c ∈ cs) : ∃ i, f i = some c := by
  induction is generalizing cs with
  | nil =>
    cases hcells
    exact absurd hmem not_mem_nil
  | cons i is ih =>
    rw [mapM_cons] at hcells
    obtain ⟨c1, hfirst, hcells⟩ := bind_eq_some_iff.mp hcells
    obtain ⟨cs1, hrest, hcells⟩ := bind_eq_some_iff.mp hcells
    cases hcells
    rcases mem_cons.mp hmem with rfl | hmem
    · exact ⟨i, hfirst⟩
    · exact ih hrest hmem

theorem Reliable_timeout_spec (hk : Known cf K h) (hr : r.Good K)
    (hsend : Reliable_timeout cf now h r = some (h', r', ss)) : Delivered cf K h' r' ss := by
  unfold Reliable_timeout at hsend
  split at hsend
  · obtain ⟨cs, hcells, heq⟩ := map_eq_some_iff.mp hsend
    have hcs : ∀ c ∈ cs, c.Good K := by
      intro c hmem
      obtain ⟨i, hi⟩ := exists_of_mem_mapM hcells hmem
      exact hr.window _ c hi
    have hall := resend_spec now false hk hr hcs
    rw [heq] at hall
    exact hall
  · cases hsend

theorem Send_Nack_Retransm_spec (hk : Known cf K h) (hr : r.Good K)
    (hsend : Send_Nack_Retransm cf now h r = some (h', r', ss)) : Delivered cf K h' r' ss := by
  unfold Send_Nack_Retransm at hsend
  split at hsend
  · cases hsend
  split at hsend
  · cases hsend
    exact ⟨hk, hr, nofun⟩
  have hcs : ∀ c ∈ r.nack_buff.filterMap fun i => r.window (i % MAX_WINDOW), c.Good K := by
    intro c hmem
    obtain ⟨i, -, hi⟩ := mem_filterMap.mp hmem
    exact hr.window _ c hi
  have hall := resend_spec now true hk hr hcs
  cases hsend
  exact ⟨hall.known, ⟨hall.good.window, hall.good.msg_buff⟩, hall.carries⟩

end Reliable

/-! ## 5. Real-time links -/

/-- The cell is for a message that is in its buffer, and has the length of body, sequence
number and header. -/
structure History_Cell.Good (K : ℕ → Msg → Prop) (c : History_Cell) : Prop where
  known : K c.buff c.msg
  len : c.len = c.msg.body.length + SIZEOF_RT_SEQ + c.msg.header.length

def Realtime_Data.Good (K : ℕ → Msg → Prop) (rt : Realtime_Data) : Prop :=
  ∀ i c, rt.window i = some c → c.Good K

section Realtime

variable {cf : Conf} {K : ℕ → Msg → Prop} {h h' : Heap} {rt rt' : Realtime_Data}
  {c : History_Cell} {ss : List Sent} {now : ℕ}

theorem Realtime_Data.drop_tail_window {i : ℕ} (hi : rt.drop_tail.window i = some c) :
    rt.window i = some c := by
  have hwindow : rt.drop_tail.window =
      update rt.window (rt.tail % MAX_HISTORY) none := rfl
  by_cases hslot : i = rt.tail % MAX_HISTORY
  · rw [hwindow, hslot, update_self] at hi
    cases hi
  · rwa [hwindow, update_of_ne hslot] at hi

theorem Realtime_Data.Good.drop_tail (hr : rt.Good K) : rt.drop_tail.Good K :=
  fun i c hi => hr i c (Realtime_Data.drop_tail_window hi)

theorem Realtime_Data.Good.clean (hr : rt.Good K) (n : ℕ) : (rt.clean now n).Good K := by
  induction n generalizing rt with
  | zero => exact hr
  | succ n ih =>
    unfold Realtime_Data.clean
    split
    · exact hr
    · split
      · exact ih hr.drop_tail
      · exact hr

theorem Realtime_Data.Good.make_room (hr : rt.Good K) : rt.make_room.Good K := by
  unfold Realtime_Data.make_room
  split
  · exact hr.drop_tail
  · exact hr

theorem resend_rt_spec {seq_no : ℕ} {s : Sent} (hk : Known cf K h) (hc : c.Good K)
    (hsend : resend_rt cf h c seq_no = some (h', s)) : Known cf K h' ∧ Carries cf s := by
  have hi := hk.intact c.buff c.msg hc.known
  have hlen := hc.len
  have hfits := hi.admissible.fits
  simp only [Link_Type.trailer, PACKET_BODY, SIZEOF_RT_SEQ] at hfits hlen
  simp only [resend_rt, hi.header_size, bind_eq_bind, bind_some] at hsend
  have hack : (SIZEOF_RT_SEQ + c.msg.header.length) % 2 ^ 16 = 8 + c.msg.header.length := by
    simp only [SIZEOF_RT_SEQ]
    omega
  have hdata : (c.len + (2 ^ 16 - (8 + c.msg.header.length))) % 2 ^ 16 =
      c.msg.body.length := by
    omega
  rw [hack, hdata] at hsend
  cases hsend
  have hk' : Known cf K (h.write c.buff c.msg.body.length (cf.rt_seq seq_no)) :=
    hk.write hc.known rfl (.inl (rt_seq_length seq_no))
  have hnew := hk'.intact c.buff c.msg hc.known
  have hbody : ((h.write c.buff c.msg.body.length (cf.rt_seq seq_no)) c.buff).bytes 0 c.len =
      c.msg.body ++ cf.rt_seq seq_no ++ c.msg.header := by
    have hheader := hnew.header
    have hseq : ((h.write c.buff c.msg.body.length (cf.rt_seq seq_no)) c.buff).bytes
        c.msg.body.length 8 = cf.rt_seq seq_no := by
      apply Heap.write_same ▸ Mem.bytes_write
      exact rt_seq_length seq_no
    simp only [SIZEOF_RT_SEQ] at hheader
    rw [hlen, Mem.bytes_add, Mem.bytes_add, hnew.body, zero_add, hseq, zero_add, hheader]
  refine ⟨hk', hi.admissible.udp, ⟨cf.rt_seq seq_no, hbody, rfl, ?_⟩, ?_⟩
  · rw [rt_seq_length]
    rfl
  · change (((h.write c.buff c.msg.body.length (cf.rt_seq seq_no)) c.buff).bytes 0
      c.len).length ≤ PACKET_BODY
    rw [Mem.bytes_length, hlen]
    simp only [PACKET_BODY]
    omega

theorem Send_RT_Retransm_loop_spec {ok : ℕ → Bool} {seqs : List ℕ} (hk : Known cf K h)
    (hr : rt.Good K) (hsend : Send_RT_Retransm_loop cf ok seqs h rt = some (h', rt', ss)) :
    Known cf K h' ∧ rt'.Good K ∧ ∀ s ∈ ss, Carries cf s := by
  induction seqs generalizing h rt ss with
  | nil =>
    cases hsend
    exact ⟨hk, hr, nofun⟩
  | cons seq_no seqs ih =>
    unfold Send_RT_Retransm_loop at hsend
    split at hsend
    · exact ih hk hr hsend
    split at hsend
    · cases hsend
      exact ⟨hk, hr, nofun⟩
    obtain ⟨c, hcell, hsend⟩ := bind_eq_some_iff.mp hsend
    obtain ⟨⟨h1, s1⟩, hone, hsend⟩ := bind_eq_some_iff.mp hsend
    obtain ⟨hk1, hs1⟩ := resend_rt_spec hk (hr _ c hcell) hone
    have hr1 : Realtime_Data.Good K { rt with bucket := rt.bucket - RT_RETRANSM_TOK } := hr
    dsimp only at hsend
    split at hsend
    · obtain ⟨⟨h2, rt2, ss2⟩, hrest, hret⟩ := bind_eq_some_iff.mp hsend
      cases hret
      obtain ⟨hk2, hr2, hs2⟩ := ih hk1 hr1 hrest
      refine ⟨hk2, hr2, ?_⟩
      intro s hs
      rcases mem_cons.mp hs with rfl | hs
      · exact hs1
      · exact hs2 s hs
    · cases hsend
      refine ⟨hk1, hr1, ?_⟩
      intro s hs
      rw [mem_singleton.mp hs]
      exact hs1

theorem Send_RT_Retransm_spec {ok : ℕ → Bool} (hk : Known cf K h) (hr : rt.Good K)
    (hsend : Send_RT_Retransm cf now ok h rt = some (h', rt', ss)) :
    Known cf K h' ∧ rt'.Good K ∧ ∀ s ∈ ss, Carries cf s := by
  obtain ⟨⟨h1, rt1, ss1⟩, hloop, hret⟩ := bind_eq_some_iff.mp hsend
  have hall := Send_RT_Retransm_loop_spec hk (hr.clean (rt.head - rt.tail)) hloop
  cases hret
  exact hall

def Adding (K : ℕ → Msg → Prop) (b : ℕ) (m : Msg) : ℕ → Msg → Prop :=
  fun b' m' => K b' m' ∨ b' = b ∧ m' = m

theorem agree_adding {b : ℕ} {m : Msg} (hk : Known cf K h) (hb : ∀ m', K b m' → m' = m) :
    ∀ b' m1 m2, Adding K b m b' m1 → Adding K b m b' m2 → m1 = m2 := by
  rintro b' m1 m2 (h1 | ⟨rfl, rfl⟩) (h2 | ⟨hb2, rfl⟩)
  · exact hk.agree b' m1 m2 h1 h2
  · exact hb m1 (hb2 ▸ h1)
  · exact (hb m2 h2).symm
  · rfl

theorem History_Cell.Good.adding {b : ℕ} {m : Msg} (hc : c.Good K) : c.Good (Adding K b m) :=
  ⟨.inl hc.known, hc.len⟩

theorem Known.forward_rt {scat : Scatter} {bs : Bytes} (hk : Known cf K h)
    (hb : ∀ m, K scat.buf m → m = h.msg scat) (hadm : (h.msg scat).Admissible cf .realtime_udp)
    (hbs : bs.length = SIZEOF_RT_SEQ) :
    Known cf (Adding K scat.buf (h.msg scat)) ((h.write scat.buf scat.len bs).write scat.buf
      (scat.len + SIZEOF_RT_SEQ) (h.msg scat).header) := by
  refine ⟨?_, agree_adding hk hb⟩
  have hlen : (h.msg scat).body.length = scat.len := Mem.bytes_length
  have hnew : Intact cf ((h.write scat.buf scat.len bs).write scat.buf
      (scat.len + SIZEOF_RT_SEQ) (h.msg scat).header) scat.buf (h.msg scat) := by
    refine ⟨hadm, ?_, ?_⟩
    · rw [Heap.write_same, Heap.write_same, hlen, Mem.bytes_write_other (by omega),
        Mem.bytes_write_other (by omega)]
      rfl
    · rw [Heap.write_same, hlen, Mem.bytes_write rfl]
  rintro b' m' (hK | ⟨rfl, rfl⟩)
  · by_cases hne : b' = scat.buf
    · subst hne
      rw [hb m' hK]
      exact hnew
    · have hi := hk.intact b' m' hK
      refine ⟨hi.admissible, ?_, ?_⟩
      · rw [Heap.write_ne hne, Heap.write_ne hne, hi.body]
      · rw [Heap.write_ne hne, Heap.write_ne hne, hi.header]
  · exact hnew

theorem Heap.write_nil {b pos : ℕ} : h.write b pos [] = h := by
  have hsame : (h b).write pos [] = h b := by
    funext i
    exact Mem.write_other (by rw [length_nil]; omega)
  rw [Heap.write, hsame, Function.update_eq_self]

theorem routing_msg {scat : Scatter} (hudp : SIZEOF_UDP_HEADER ≤ (h.msg scat).body.length) :
    routing_of (h scat.buf) = (h.msg scat).routing := by
  have hlt : ROUTING < scat.len := by
    have hlen : (h.msg scat).body.length = scat.len := Mem.bytes_length
    simp only [ROUTING, SIZEOF_UDP_HEADER] at hudp ⊢
    omega
  have hget := Mem.getD_bytes (h scat.buf) 0 hlt 0
  rw [zero_add] at hget
  rw [routing_of, ← hget]
  rfl

theorem keep_header_eq {scat : Scatter} {h1 : Heap} {x : Heap × ℕ}
    (hkeep : keep_header h1 scat (h.msg scat).header.length = some x) :
    x = (h1.write scat.buf (scat.len + SIZEOF_RT_SEQ) (h.msg scat).header,
      scat.len + SIZEOF_RT_SEQ + (h.msg scat).header.length) := by
  unfold keep_header at hkeep
  cases hs : scat.header with
  | none =>
    have hnil : (h.msg scat).header = [] := by rw [Heap.msg, hs, getD_none]
    rw [hs] at hkeep
    cases hkeep
    rw [hnil, Heap.write_nil, length_nil, add_zero]
  | some s =>
    have hsome : (h.msg scat).header = s := by rw [Heap.msg, hs, getD_some]
    rw [hs, hsome] at hkeep
    dsimp only at hkeep
    split at hkeep
    · cases hkeep
      rw [take_length, hsome]
    · cases hkeep

theorem Forward_RT_UDP_Data_spec {scat : Scatter} (hk : Known cf K h) (hr : rt.Good K)
    (hb : ∀ m, K scat.buf m → m = h.msg scat) (hadm : (h.msg scat).Admissible cf .realtime_udp)
    (hsend : Forward_RT_UDP_Data cf now h rt scat = some (h', rt', ss)) :
    Known cf (Adding K scat.buf (h.msg scat)) h' ∧
      rt'.Good (Adding K scat.buf (h.msg scat)) ∧ ∀ s ∈ ss, Carries cf s := by
  have hlen : (h.msg scat).body.length = scat.len := Mem.bytes_length
  have hfits := hadm.fits
  simp only [Link_Type.trailer, PACKET_BODY, SIZEOF_RT_SEQ] at hfits
  have hsize : Dissemination_Header_Size cf (routing_of (h scat.buf)) =
      some (h.msg scat).header.length := by
    rw [routing_msg hadm.udp_header]
    exact hadm.header_size
  set rt1 := (Clean_RT_history now rt).make_room with hrt1
  have hr1 : rt1.Good K := (hr.clean (rt.head - rt.tail)).make_room
  set seq := cf.rt_seq rt1.head with hseq
  have hseq_len : seq.length = SIZEOF_RT_SEQ := rt_seq_length rt1.head
  have hk' := hk.forward_rt hb hadm hseq_len
  simp only [Forward_RT_UDP_Data, ← hrt1, ← hseq, hsize, bind_eq_bind,
    bind_some] at hsend
  obtain ⟨x, hkeep, hret⟩ := bind_eq_some_iff.mp hsend
  rw [keep_header_eq hkeep] at hret
  dsimp only at hret
  set h2 := (h.write scat.buf scat.len seq).write scat.buf (scat.len + SIZEOF_RT_SEQ)
    (h.msg scat).header with hh2
  clear_value h2
  cases hret
  have hi : Intact cf h' scat.buf (h.msg scat) := hk'.intact _ _ (.inr ⟨rfl, rfl⟩)
  have hseq_kept : (h' scat.buf).bytes scat.len SIZEOF_RT_SEQ = seq := by
    rw [hh2, Heap.write_same, Mem.bytes_write_other (.inl le_rfl), Heap.write_same,
      Mem.bytes_write hseq_len]
  have hbody : (h' scat.buf).bytes 0 (scat.len + SIZEOF_RT_SEQ) = (h.msg scat).body ++ seq := by
    have hfront := hi.body
    rw [hlen] at hfront
    rw [Mem.bytes_add, hfront, zero_add, hseq_kept]
  refine ⟨hk', ?_, ?_⟩
  · intro i c hc
    dsimp only at hc
    by_cases hslot : i = rt1.head % MAX_HISTORY
    · rw [hslot, update_self] at hc
      cases hc
      refine ⟨.inr ⟨rfl, rfl⟩, ?_⟩
      rw [hlen]
    · rw [update_of_ne hslot] at hc
      exact (hr1 i c hc).adding
  · intro s hs
    rw [mem_singleton.mp hs]
    refine ⟨hadm.udp, ⟨seq, ?_, ?_, ?_⟩, ?_⟩
    · change (h' scat.buf).bytes 0 (scat.len + SIZEOF_RT_SEQ) ++ (h.msg scat).header = _
      rw [hbody]
    · change scat.len % 2 ^ 16 = (h.msg scat).body.length
      rw [hlen, Nat.mod_eq_of_lt (by omega)]
    · change (SIZEOF_RT_SEQ + (h.msg scat).header.length) % 2 ^ 16 = _
      rw [hseq_len, Nat.mod_eq_of_lt (by simp only [SIZEOF_RT_SEQ]; omega)]
    · change ((h' scat.buf).bytes 0 (scat.len + SIZEOF_RT_SEQ) ++
        (h.msg scat).header).length ≤ PACKET_BODY
      rw [length_append, Mem.bytes_length]
      simp only [SIZEOF_RT_SEQ, PACKET_BODY]
      omega

end Realtime

/-! ## 6. The daemon -/

structure Daemon.Good (cf : Conf) (K : ℕ → Msg → Prop) (d : Daemon) : Prop where
  known : Known cf K d.heap
  r_data : ∀ l, (d.links l).r_data.Good K
  rt_data : ∀ l, (d.links l).rt_data.Good K

/-- A buffer is written only when no link holds it. It is forwarded again only as it was,
and a message that is routed by its source is not given to a reliable link. -/
def Daemon.Meets (d : Daemon) : Event → Prop
  | .write b _ => ∀ m, ¬d.Holds b m
  | .forward l scat _ =>
    ((d.links l).link_type = .reliable_udp →
      (d.heap.msg scat).routing ≠ SOURCE_BASED_ROUTING) ∧
    ∀ m, d.Holds scat.buf m → m = d.heap.msg scat
  | _ => True

section Daemons

variable {cf : Conf} {K K' : ℕ → Msg → Prop} {d d' : Daemon} {l : ℕ} {ss : List Sent}

theorem Daemon.Good.known_of_holds (hd : d.Good cf K) {b : ℕ} {m : Msg} (hb : d.Holds b m) :
    K b m := by
  obtain ⟨l, hl⟩ := hb
  cases hl with
  | window hi => exact ((hd.r_data l).window _ _ hi).known
  | waits hmem => exact ((hd.r_data l).msg_buff _ hmem).known
  | history hi => exact (hd.rt_data l _ _ hi).known

theorem Daemon.Good.holds (hd : d.Good cf K) : d.Good cf d.Holds := by
  refine ⟨⟨?_, ?_⟩, ?_, ?_⟩
  · intro b m hb
    exact hd.known.intact b m (hd.known_of_holds hb)
  · intro b m m' hb hb'
    exact hd.known.agree b m m' (hd.known_of_holds hb) (hd.known_of_holds hb')
  · intro l
    refine ⟨?_, ?_⟩
    · intro i c hi
      have hc := (hd.r_data l).window i c hi
      exact ⟨⟨l, .window hi⟩, hc.data_len, hc.no_header⟩
    · intro c hmem
      have hc := (hd.r_data l).msg_buff c hmem
      exact ⟨⟨l, .waits hmem⟩, hc.data_len, hc.no_header⟩
  · intro l i c hi
    exact ⟨⟨l, .history hi⟩, (hd.rt_data l i c hi).len⟩

theorem Reliable_Data.Good.mono {r : Reliable_Data} (hr : r.Good K) (hK : ∀ b m, K b m → K' b m) :
    r.Good K' := by
  refine ⟨?_, ?_⟩
  · intro i c hi
    have hc := hr.window i c hi
    exact ⟨hK _ _ hc.known, hc.data_len, hc.no_header⟩
  · intro c hmem
    have hc := hr.msg_buff c hmem
    exact ⟨hK _ _ hc.known, hc.data_len, hc.no_header⟩

theorem Realtime_Data.Good.mono {rt : Realtime_Data} (hr : rt.Good K)
    (hK : ∀ b m, K b m → K' b m) : rt.Good K' :=
  fun i c hi => ⟨hK _ _ (hr i c hi).known, (hr i c hi).len⟩

theorem Daemon.set_link_self (d : Daemon) (l : ℕ) (lk : Link) : (d.set_link l lk).links l = lk :=
  update_self ..

theorem Daemon.set_link_ne {l' : ℕ} (d : Daemon) (lk : Link) (hne : l' ≠ l) :
    (d.set_link l lk).links l' = d.links l' :=
  update_of_ne hne ..

theorem Daemon.Good.with_r {x : Heap × Reliable_Data × List Sent}
    (hr : ∀ l, (d.links l).r_data.Good K) (hrt : ∀ l, (d.links l).rt_data.Good K)
    (hx : Delivered cf K x.1 x.2.1 x.2.2) : (d.with_r l x).1.Good cf K := by
  refine ⟨hx.known, ?_, ?_⟩
  · intro l'
    by_cases hne : l' = l
    · subst hne
      rw [Daemon.with_r, Daemon.set_link_self]
      exact hx.good
    · rw [Daemon.with_r, Daemon.set_link_ne _ _ hne]
      exact hr l'
  · intro l'
    by_cases hne : l' = l
    · subst hne
      rw [Daemon.with_r, Daemon.set_link_self]
      exact hrt l'
    · rw [Daemon.with_r, Daemon.set_link_ne _ _ hne]
      exact hrt l'

theorem Daemon.Good.with_rt {x : Heap × Realtime_Data × List Sent}
    (hr : ∀ l, (d.links l).r_data.Good K) (hrt : ∀ l, (d.links l).rt_data.Good K)
    (hk : Known cf K x.1) (hx : x.2.1.Good K) : (d.with_rt l x).1.Good cf K := by
  refine ⟨hk, ?_, ?_⟩
  · intro l'
    by_cases hne : l' = l
    · subst hne
      rw [Daemon.with_rt, Daemon.set_link_self]
      exact hr l'
    · rw [Daemon.with_rt, Daemon.set_link_ne _ _ hne]
      exact hr l'
  · intro l'
    by_cases hne : l' = l
    · subst hne
      rw [Daemon.with_rt, Daemon.set_link_self]
      exact hx
    · rw [Daemon.with_rt, Daemon.set_link_ne _ _ hne]
      exact hrt l'

theorem Daemon.Good.write {b : ℕ} {m : Mem} (hd : d.Good cf d.Holds) (hb : ∀ m, ¬d.Holds b m) :
    Daemon.Good cf d.Holds { d with heap := update d.heap b m } := by
  refine ⟨⟨?_, hd.known.agree⟩, hd.r_data, hd.rt_data⟩
  intro b' m' hK
  have hi := hd.known.intact b' m' hK
  have hne : b' ≠ b := fun heq => hb m' (heq ▸ hK)
  have hsame : update d.heap b m b' = d.heap b' := update_of_ne hne ..
  refine ⟨hi.admissible, ?_, ?_⟩
  · exact (congrArg (fun x => Mem.bytes x _ _) hsame).trans hi.body
  · exact (congrArg (fun x => Mem.bytes x _ _) hsame).trans hi.header

theorem Daemon.Good.change {lk : Link} (hd : d.Good cf K) (hlk : (d.links l).Releases lk) :
    (d.set_link l lk).Good cf K := by
  refine ⟨hd.known, ?_, ?_⟩
  · intro l'
    by_cases hne : l' = l
    · subst hne
      rw [Daemon.set_link_self]
      exact ⟨fun i c hi => (hd.r_data l').window i c (hlk.window i c hi),
        fun c hmem => (hd.r_data l').msg_buff c (hlk.msg_buff c hmem)⟩
    · rw [Daemon.set_link_ne _ _ hne]
      exact hd.r_data l'
  · intro l'
    by_cases hne : l' = l
    · subst hne
      rw [Daemon.set_link_self]
      exact fun i c hi => hd.rt_data l' i c (hlk.history i c hi)
    · rw [Daemon.set_link_ne _ _ hne]
      exact hd.rt_data l'

theorem Forward_UDP_Data_spec {scat : Scatter} (hadm : (d.heap.msg scat).Admissible cf .udp)
    (hsend : Forward_UDP_Data cf d scat = some (d', ss)) : d' = d ∧ ∀ s ∈ ss, Carries cf s := by
  have hlen : (d.heap.msg scat).body.length = scat.len := Mem.bytes_length
  have hfits := hadm.fits
  simp only [Link_Type.trailer, PACKET_BODY] at hfits
  have hsize : Dissemination_Header_Size cf (routing_of (d.heap scat.buf)) =
      some (d.heap.msg scat).header.length := by
    rw [routing_msg hadm.udp_header]
    exact hadm.header_size
  simp only [Forward_UDP_Data, hsize, bind_eq_bind, bind_some] at hsend
  cases hsend
  refine ⟨rfl, ?_⟩
  intro s hs
  rw [mem_singleton.mp hs]
  refine ⟨hadm, ⟨[], ?_, ?_, ?_⟩, ?_⟩
  · change _ ++ _ = _ ++ [] ++ _
    rw [append_nil]
  · change scat.len % 2 ^ 16 = _
    rw [hlen, Nat.mod_eq_of_lt (by omega)]
  · change (d.heap.msg scat).header.length % 2 ^ 16 = 0 + (d.heap.msg scat).header.length
    rw [zero_add, Nat.mod_eq_of_lt (by omega)]
  · change ((d.heap.msg scat).body ++ (d.heap.msg scat).header).length ≤ PACKET_BODY
    rw [length_append]
    simp only [PACKET_BODY]
    omega

theorem Known.forward_rel {scat : Scatter} (hk : Known cf K d.heap)
    (hb : ∀ m, K scat.buf m → m = d.heap.msg scat)
    (hadm : (d.heap.msg scat).Admissible cf .reliable_udp) (hnil : (d.heap.msg scat).header = []) :
    Known cf (Adding K scat.buf (d.heap.msg scat)) d.heap := by
  refine ⟨?_, agree_adding hk hb⟩
  rintro b m (hK | ⟨rfl, rfl⟩)
  · exact hk.intact b m hK
  · have hlen : (d.heap.msg scat).body.length = scat.len := Mem.bytes_length
    refine ⟨⟨hadm.udp_header, hadm.routed, hadm.fits⟩, ?_, ?_⟩
    · rw [hlen]
      rfl
    · rw [hnil]
      rfl

theorem Forward_Data_spec {scat : Scatter} {now : ℕ} (hd : d.Good cf d.Holds)
    (hadm : (d.heap.msg scat).Admissible cf (d.links l).link_type)
    (hmeets : d.Meets (.forward l scat now))
    (hsend : Forward_Data cf d l scat now = some (d', ss)) :
    (∃ K, d'.Good cf K) ∧ ∀ s ∈ ss, Carries cf s := by
  obtain ⟨hroute, hb⟩ := hmeets
  have hleft : ∀ b m, d.Holds b m → Adding d.Holds scat.buf (d.heap.msg scat) b m :=
    fun _ _ hK => .inl hK
  unfold Forward_Data at hsend
  cases ht : (d.links l).link_type with
  | udp =>
    rw [ht] at hsend hadm
    obtain ⟨rfl, hs⟩ := Forward_UDP_Data_spec hadm hsend
    exact ⟨⟨_, hd⟩, hs⟩
  | reliable_udp =>
    rw [ht] at hsend hadm
    have hnil : (d.heap.msg scat).header = [] := by
      rcases hadm.routed with ⟨-, hnil⟩ | ⟨hsb, -⟩
      · exact hnil
      · exact absurd hsb (hroute ht)
    obtain ⟨x, hx, heq⟩ := map_eq_some_iff.mp hsend
    have hk := hd.known.forward_rel hb hadm hnil
    have hlen : (d.heap.msg scat).body.length = scat.len := Mem.bytes_length
    rw [Forward_Rel_UDP_Data, ← hlen] at hx
    have hone := Reliable_Send_Msg_spec hk ((hd.r_data l).mono hleft) (.inr ⟨rfl, rfl⟩) hnil hx
    have hgood : (d.with_r l x).1.Good cf _ := Daemon.Good.with_r
      (fun l' => (hd.r_data l').mono hleft) (fun l' => (hd.rt_data l').mono hleft) hone
    rw [heq] at hgood
    refine ⟨⟨_, hgood⟩, ?_⟩
    cases heq
    exact hone.carries
  | realtime_udp =>
    rw [ht] at hsend hadm
    obtain ⟨x, hx, heq⟩ := map_eq_some_iff.mp hsend
    obtain ⟨hk, hrt, hs⟩ := Forward_RT_UDP_Data_spec hd.known (hd.rt_data l) hb hadm hx
    have hgood : (d.with_rt l x).1.Good cf _ := Daemon.Good.with_rt
      (fun l' => (hd.r_data l').mono hleft) (fun l' => (hd.rt_data l').mono hleft) hk hrt
    rw [heq] at hgood
    refine ⟨⟨_, hgood⟩, ?_⟩
    cases heq
    exact hs

theorem Daemon.step_spec {e : Event} (hd : d.Good cf d.Holds) (hen : d.Enabled cf e)
    (hmeets : d.Meets e) (hstep : d.step cf e = some (d', ss)) :
    (∃ K, d'.Good cf K) ∧ ∀ s ∈ ss, Carries cf s := by
  have hsent_r : ∀ {l : ℕ} {o : Option (Heap × Reliable_Data × List Sent)},
      (∀ x, o = some x → Delivered cf d.Holds x.1 x.2.1 x.2.2) →
      o.map (d.with_r l) = some (d', ss) → (∃ K, d'.Good cf K) ∧ ∀ s ∈ ss, Carries cf s := by
    intro l o ho hmap
    obtain ⟨x, hx, heq⟩ := map_eq_some_iff.mp hmap
    have hgood : (d.with_r l x).1.Good cf d.Holds :=
      Daemon.Good.with_r hd.r_data hd.rt_data (ho x hx)
    rw [heq] at hgood
    refine ⟨⟨_, hgood⟩, ?_⟩
    cases heq
    exact (ho x hx).carries
  cases e with
  | write b m =>
    cases hstep
    exact ⟨⟨_, hd.write hmeets⟩, nofun⟩
  | change l lk =>
    cases hstep
    exact ⟨⟨_, hd.change hen⟩, nofun⟩
  | forward l scat now => exact Forward_Data_spec hd hen hmeets hstep
  | send_much l now => exact hsent_r (fun x hx => Send_Much_spec hd.known (hd.r_data l) hx) hstep
  | timeout l now =>
    exact hsent_r (fun x hx => Reliable_timeout_spec hd.known (hd.r_data l) hx) hstep
  | nack_retransm l now =>
    exact hsent_r (fun x hx => Send_Nack_Retransm_spec hd.known (hd.r_data l) hx) hstep
  | rt_retransm l now ok =>
    obtain ⟨x, hx, heq⟩ := map_eq_some_iff.mp hstep
    obtain ⟨hk, hrt, hs⟩ := Send_RT_Retransm_spec hd.known (hd.rt_data l) hx
    have hgood : (d.with_rt l x).1.Good cf d.Holds :=
      Daemon.Good.with_rt hd.r_data hd.rt_data hk hrt
    rw [heq] at hgood
    refine ⟨⟨_, hgood⟩, ?_⟩
    cases heq
    exact hs

end Daemons

/-! ## 7. Runs -/

structure World.Inv (cf : Conf) (w : World) : Prop where
  good : w.daemon.Good cf w.daemon.Holds
  carries : ∀ s ∈ w.sent, Carries cf s

theorem World.Initial.inv {w : World} (cf : Conf) (h : w.Initial) : w.Inv cf := by
  refine ⟨⟨⟨?_, ?_⟩, ?_, ?_⟩, ?_⟩
  · exact fun b m hb => absurd hb (h.holds b m)
  · exact fun b m m' hb => absurd hb (h.holds b m)
  · intro l
    exact ⟨fun i c hi => absurd ⟨l, .window hi⟩ (h.holds c.buff c.msg),
      fun c hmem => absurd ⟨l, .waits hmem⟩ (h.holds c.buff c.msg)⟩
  · exact fun l i c hi => absurd ⟨l, .history hi⟩ (h.holds c.buff c.msg)
  · rw [h.sent]
    exact nofun

theorem World.Inv.step {cf : Conf} {w w' : World} {e : Event} (hw : w.Inv cf)
    (hstep : w.Step cf e w') (hmeets : w.daemon.Meets e) : w'.Inv cf := by
  obtain ⟨hen, ss, hsome, hsent⟩ := hstep
  obtain ⟨⟨K, hgood⟩, hs⟩ := Daemon.step_spec hw.good hen hmeets hsome
  refine ⟨hgood.holds, ?_⟩
  intro s hmem
  rw [hsent] at hmem
  rcases mem_append.mp hmem with hmem | hmem
  · exact hw.carries s hmem
  · exact hs s hmem

/-- Every packet that was sent in a run whose steps meet the condition, the first time or
again, gives the receiver the message that was forwarded, or is one that the link
suppresses. -/
theorem link_round_trip {cf : Conf} {w w' : World} (hinit : w.Initial)
    (hrun : Run (fun w e w' => World.Step cf w e w' ∧ w.daemon.Meets e) w w') :
    ∀ s ∈ w'.sent, ∀ v mem, receive cf s.link_type v mem s.packet =
      if v.accepts s.link_type then some s.msg else none := by
  have hinv : w'.Inv cf :=
    Run.invariant (World.Inv cf) (hinit.inv cf) (fun _ _ _ hw h => hw.step h.1 h.2) hrun
  intro s hs v mem
  exact (hinv.carries s hs).receive s.link_type v mem

/-! The first run sends a message that is routed by its source on a real-time link, twice;
the second one sends it on a reliable link. -/

def mask_conf : Conf := ⟨.little, 8, 0, 0, false⟩

def idle_link (t : Link_Type) : Link where
  link_type := t
  r_data :=
    { connected := true, seq_no := 0, msg_buff := [], window_size := 1, window := fun _ => none,
      head := 0, tail := 0, recv_window := fun _ => ⟨.empty, 0⟩, recv_head := 0, recv_tail := 0,
      nack_buff := [], rtt := 0 }
  rt_data :=
    { head := 0, tail := 0, window := fun _ => none, retransm_buff := [0], bucket := 2 }

def idle_world (t : Link_Type) : World where
  daemon := { heap := fun _ i => if i = ROUTING then 3 else 0, links := fun _ => idle_link t }
  sent := []

def masked : Scatter := ⟨0, SIZEOF_UDP_HEADER, some (replicate 16 1)⟩

def World.next (cf : Conf) (w : World) (e : Event) : World :=
  match w.daemon.step cf e with
  | none => w
  | some (d, ss) => ⟨d, w.sent ++ ss⟩

theorem World.step_next {cf : Conf} {w : World} {e : Event} (hen : w.daemon.Enabled cf e)
    (h : (w.daemon.step cf e).isSome) : w.Step cf e (w.next cf e) := by
  obtain ⟨⟨d, ss⟩, hstep⟩ := isSome_iff_exists.mp h
  refine ⟨hen, ss, ?_, ?_⟩
  · rw [hstep, World.next, hstep]
  · rw [World.next, hstep]

theorem idle_world_initial (t : Link_Type) : (idle_world t).Initial := by
  refine ⟨rfl, ?_⟩
  rintro b m ⟨l, hl⟩
  cases hl with
  | window h => cases h
  | waits h => cases h
  | history h => cases h

theorem masked_admissible (t : Link_Type) :
    ((idle_world t).daemon.heap.msg masked).Admissible mask_conf t := by
  cases t <;> exact ⟨by decide, .inr ⟨by decide, by decide⟩, by decide⟩

theorem link_round_trip_resent :
    let w := ((idle_world .realtime_udp).next mask_conf (.forward 0 masked 0)).next mask_conf
      (.rt_retransm 0 0 fun _ => true)
    w.sent.length = 2 ∧ ∀ s ∈ w.sent, ∀ v mem, receive mask_conf s.link_type v mem s.packet =
      if v.accepts s.link_type then some s.msg else none := by
  refine ⟨by decide, ?_⟩
  apply link_round_trip (idle_world_initial .realtime_udp)
  have hnone := (idle_world_initial .realtime_udp).holds
  have hfirst : World.Step mask_conf (idle_world .realtime_udp) (.forward 0 masked 0) _ :=
    World.step_next (masked_admissible .realtime_udp) (by decide)
  have hmeets : (idle_world .realtime_udp).daemon.Meets (.forward 0 masked 0) :=
    ⟨nofun, fun m hm => absurd hm (hnone 0 m)⟩
  have hsecond : World.Step mask_conf
      ((idle_world .realtime_udp).next mask_conf (.forward 0 masked 0))
      (.rt_retransm 0 0 fun _ => true) _ := World.step_next trivial (by decide)
  exact ((Run.refl _).tail ⟨hfirst, hmeets⟩).tail ⟨hsecond, trivial⟩

/-- A reliable link loses the dissemination header, and the receiver hands on some other
bytes in its place. -/
theorem source_based_lost :
    let w := (idle_world .reliable_udp).next mask_conf (.forward 0 masked 0)
    (idle_world .reliable_udp).Initial ∧
      (idle_world .reliable_udp).Step mask_conf (.forward 0 masked 0) w ∧
      ∃ s ∈ w.sent, ∃ v : Verdict, v.accepts s.link_type ∧
        ∃ r, receive mask_conf s.link_type v (fun _ => 0) s.packet = some r ∧
          r.body = s.msg.body ∧ r.header ≠ s.msg.header := by
  refine ⟨idle_world_initial .reliable_udp,
    World.step_next (masked_admissible .reliable_udp) (by decide), ?_⟩
  let s : Sent := ⟨.reliable_udp, ⟨28, 8, replicate 25 0 ++ [3, 0, 0] ++ replicate 8 0⟩,
    ⟨replicate 25 0 ++ [3, 0, 0], replicate 16 1⟩⟩
  refine ⟨s, ?_, ⟨1, false⟩, by decide,
    ⟨replicate 25 0 ++ [3, 0, 0], replicate 16 0⟩, by decide, rfl, by decide⟩
  exact mem_singleton.mpr rfl

end Spines.Datagram
