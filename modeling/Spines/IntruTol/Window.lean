/-
What holds of one end of an intrusion-tolerant link, whatever it receives.

* `outgoing_window_digests`: the outgoing window, its nonces and their digests,
  and what it takes to move its tail;
* `incoming_window_cells`: the incoming window between two events, and what the
  NACKs an end sends can ask for;
* `fragments_round_trip`: the packets of one message, packed over any number of
  interrupted calls, rebuild that message and nothing else.
-/
import Spines.IntruTol.Refine

set_option autoImplicit false

namespace Spines.IntruTol

open Spines.Lib List

/-! ## The two windows -/

section Windows

variable {cf : Conf} {sec : ℕ} {e : LinkEnd}

/-- What the tail of the outgoing window can do in one event: stay, start over
with a new link or a new incarnation, or move behind the aru of a packet that
presents the XOR of all nonces up to it. -/
theorem tail_step (h : Settled e) {ev : Event} {e' : LinkEnd} (hstep : Step cf e ev e') :
    e'.outb.out_tail_seq = e.outb.out_tail_seq ∨ (∃ t, ev = .restart t) ∨
    e.ngbr_incarnation < e'.ngbr_incarnation ∨
    ∃ p, ev.packet = some p ∧ e.outb.out_tail_seq ≤ p.tail.aru ∧
      p.tail.aru < e.outb.tcp_head_seq ∧ e'.outb.out_tail_seq = p.tail.aru + 1 ∧
      p.tail.aru_nonce = digest ((e.packed_now.take p.tail.aru).map LinkEntry.nonce) := by
  obtain ⟨-, env, rfl⟩ := hstep
  obtain ⟨hend, hopen⟩ := h
  have hout : ∀ {x : LinkEnd}, OutRun e.view x.view → x.outb.out_tail_seq = e.outb.out_tail_seq :=
    fun hrun => hrun.drainRun.tail_eq
  -- an accepted acknowledgement presents the digest of its aru, and the window knows it
  have hpacket : ∀ p, (process_it_ack cf env p e).2.outb.out_tail_seq = e.outb.out_tail_seq ∨
      (e.outb.out_tail_seq ≤ p.tail.aru ∧ p.tail.aru < e.outb.tcp_head_seq ∧
        (process_it_ack cf env p e).2.outb.out_tail_seq = p.tail.aru + 1 ∧
        p.tail.aru_nonce = digest ((e.packed_now.take p.tail.aru).map LinkEntry.nonce)) := by
    intro p
    rcases (process_it_ack_run cf env p e hend hopen).2.2 with hsame | ⟨⟨h1, h2, h3⟩, htail⟩
    · exact .inl hsame
    · have htcp := hend.1.tcp_le
      have hhead := hend.1.head_le
      refine .inr ⟨h1, h2, htail, ?_⟩
      rw [h3]
      exact hend.1.digest p.tail.aru (by omega) (by omega)
  -- an incarnation change raises the neighbor's incarnation
  have hchange : ∀ inc, e.ngbr_incarnation < inc →
      (incarnation_change cf env inc e).outb.out_tail_seq = e.outb.out_tail_seq ∨
      e.ngbr_incarnation < (incarnation_change cf env inc e).ngbr_incarnation := by
    intro inc hinc
    rcases incarnation_change_spec cf env inc e hend hopen.1 with heq | ⟨σ, entries, hch, hrun⟩
    · rw [heq]
      exact .inl rfl
    · right
      have hngbr : (incarnation_change cf env inc e).view.ngbr = inc :=
        hrun.sameIn.ngbr.trans hch.ngbr
      show e.ngbr_incarnation < (incarnation_change cf env inc e).view.ngbr
      rw [hngbr]
      exact hinc
  cases ev with
  | forward m => exact .inl (hout (forward_intru_tol_data_run cf env m e hend.1))
  | assign => exact .inl (hout (assign_resources_it_run cf env _ e hend.1))
  | handle_it_retransm => exact .inl (hout (handle_it_retransm_run cf env e hend.1))
  | reliable_it_timeout => exact .inl (hout (reliable_it_timeout_run cf env e))
  | ack_it_timeout => exact .inl (hout (ack_it_timeout_run cf env e))
  | data_packet p =>
    simp only [handle, process_intru_tol_data_packet]
    split
    · exact .inl rfl
    split
    · exact .inl rfl
    rcases hpacket p with hsame | hacc
    · exact .inl hsame
    · exact .inr (.inr (.inr ⟨p, rfl, hacc⟩))
  | ack_packet p =>
    simp only [handle, process_intru_tol_ack_packet]
    split
    · exact .inl rfl
    split
    · exact .inl rfl
    rcases hpacket p with hsame | hacc
    · exact .inl hsame
    · exact .inr (.inr (.inr ⟨p, rfl, hacc⟩))
  | ping fresh is_ping p =>
    simp only [handle, process_intru_tol_ping]
    split
    · exact .inl rfl
    split
    · exact .inl rfl
    split
    · exact .inl rfl
    split
    · rename_i hinc
      have hview := pong_view is_ping p (incarnation_change cf env p.incarnation e)
      have htail := congrArg Proto.tail hview
      have hngbr := congrArg Proto.ngbr hview
      rcases hchange p.incarnation hinc with hsame | hlt
      · exact .inl (htail.trans hsame)
      · exact .inr (.inr (.inl (lt_of_lt_of_eq hlt hngbr.symm)))
    · exact .inl (congrArg Proto.tail (pong_view is_ping p e))
  | dh verified p =>
    simp only [handle, process_dh_it]
    split
    · exact .inl rfl
    split
    · exact .inl rfl
    rename_i hinc
    split
    · exact .inl rfl
    split
    · exact .inl rfl
    rcases incarnation_change_spec cf env p.incarnation (send_it_ping e) hend hopen.1 with
      heq | ⟨σ, entries, hch, hrun⟩
    · rw [heq]
      exact .inl rfl
    · refine .inr (.inr (.inl ?_))
      have hngbr := hrun.sameIn.ngbr.trans hch.ngbr
      show e.ngbr_incarnation < (incarnation_change cf env p.incarnation (send_it_ping e)).view.ngbr
      rw [hngbr]
      exact not_le.mp hinc
  | ping_it_timeout => exact .inl rfl
  | restart t => exact .inr (.inl ⟨t, rfl⟩)

/-- **The outgoing window.** In every state of every run, whatever packets are
received: the window has at most `MAX_SEND_ON_LINK` packets, each of its
numbers has a live packet, the one packed under that number since the last
incarnation change, and its digest is the XOR of the nonces of all packets up
to it. The tail moves only on an acknowledgement that presents that XOR. -/
theorem outgoing_window_digests (hrun : Run (Step cf) (LinkEnd.create cf sec) e) :
    e.outb.out_tail_seq ≤ e.outb.tcp_head_seq ∧ e.outb.tcp_head_seq ≤ e.outb.out_head_seq ∧
    e.outb.out_head_seq ≤ e.outb.out_tail_seq + MAX_SEND_ON_LINK ∧
    e.packed_now.map LinkEntry.seq = range' LINK_START_SEQ (e.outb.out_head_seq - LINK_START_SEQ) ∧
    (∀ s, e.outb.out_tail_seq ≤ s → s < e.outb.out_head_seq →
      (∃ elems x, (e.outb.outgoing (s % MAX_SEND_ON_LINK)).pkt = some elems ∧
        e.packed_now[s - LINK_START_SEQ]? = some x ∧ x.seq = s ∧ x.data = elems.flatten ∧
        x.nonce = e.outb.out_nonce (s % MAX_SEND_ON_LINK)) ∧
      e.outb.out_nonce_digest (s % MAX_SEND_ON_LINK)
        = digest ((e.packed_now.take s).map LinkEntry.nonce)) ∧ ∀ ev e', Step cf e ev e' →
      e'.outb.out_tail_seq = e.outb.out_tail_seq ∨ (∃ t, ev = .restart t) ∨
      e.ngbr_incarnation < e'.ngbr_incarnation ∨
      ∃ p, ev.packet = some p ∧ e.outb.out_tail_seq ≤ p.tail.aru ∧
        p.tail.aru < e.outb.tcp_head_seq ∧ e'.outb.out_tail_seq = p.tail.aru + 1 ∧
        p.tail.aru_nonce = digest ((e.packed_now.take p.tail.aru).map LinkEntry.nonce) := by
  have hset := settled_run hrun
  obtain ⟨ho, -⟩ := hset.1
  have hle : e.outb.out_head_seq ≤ e.outb.out_tail_seq + MAX_SEND_ON_LINK := ho.head_le
  refine ⟨ho.tail_le, ho.tcp_le, hle, ho.seqs, ?_, fun ev e' hstep => tail_step hset hstep⟩
  intro s hs1 hs2
  refine ⟨?_, ho.digest s hs2 (show e.outb.out_head_seq ≤ s + MAX_SEND_ON_LINK by omega)⟩
  obtain ⟨x, hx, hseq, hcell, hnonce⟩ := ho.cell s hs1 hs2
  have hcell' : (e.outb.outgoing (s % MAX_SEND_ON_LINK)).pkt.map List.flatten = some x.data := hcell
  rw [Option.map_eq_some_iff] at hcell'
  obtain ⟨elems, helems, hflat⟩ := hcell'
  exact ⟨elems, x, helems, hx, hseq, hflat.symm, hnonce.symm⟩

/-- **The incoming window.** After every event: at most `MAX_SEND_ON_LINK`
cells, the cell of `in_tail_seq` open, the cells of the window received or
marked NACK, every other cell empty. The in-order loop has consumed the numbers
`1, 2, …` once each, and the NACKs an end would send are for numbers of the
window that were not received. -/
theorem incoming_window_cells (hrun : Run (Step cf) (LinkEnd.create cf sec) e) :
    e.inb.in_tail_seq ≤ e.inb.in_head_seq ∧
    e.inb.in_head_seq ≤ e.inb.in_tail_seq + MAX_SEND_ON_LINK ∧
    (e.inb.incoming (e.inb.in_tail_seq % MAX_SEND_ON_LINK)).flags ≠ .recvd ∧
    (∀ s, e.inb.in_tail_seq ≤ s → s < e.inb.in_head_seq →
      (e.inb.incoming (s % MAX_SEND_ON_LINK)).flags = .recvd ∨
      (e.inb.incoming (s % MAX_SEND_ON_LINK)).flags = .nack) ∧ (∀ k, k < MAX_SEND_ON_LINK →
      (∀ s, e.inb.in_tail_seq ≤ s → s < e.inb.in_head_seq → s % MAX_SEND_ON_LINK ≠ k) →
      (e.inb.incoming k).flags = .empty ∧ (e.inb.incoming k).pkt = none) ∧
    (e.consumed_now.map LinkEntry.seq = range' LINK_START_SEQ (e.inb.in_tail_seq - LINK_START_SEQ) ∧
      (e.consumed_now.map LinkEntry.seq).Nodup) ∧
    ∀ (env : Env) (buff_len : ℕ), ∀ n ∈ (add_it_nacks cf env e.inb buff_len).2,
      e.inb.in_tail_seq ≤ n ∧ n < e.inb.in_head_seq ∧ n ∉ e.stored_now := by
  obtain ⟨⟨-, hi⟩, hdrain, hopen⟩ := settled_run hrun
  refine ⟨hi.le, hi.head_le, hopen, ?_, ?_, ⟨hi.seqs, ?_⟩, ?_⟩
  · intro s hs1 hs2
    rcases hi.window s hs1 hs2 with ⟨hrec, -⟩ | ⟨hnack, -⟩
    · exact .inl hrec
    · exact .inr hnack
  · intro k hk hout
    obtain ⟨q, hq1, hq2, rfl⟩ := exists_slot e.inb.in_tail_seq k hk
    have hge : e.inb.in_head_seq ≤ q := by
      by_contra hlt
      exact hout q hq1 (not_le.mp hlt) rfl
    refine hi.outside q hge hq2 (fun hdr => ?_)
    rw [hdrain] at hdr
    exact absurd hdr Bool.false_ne_true
  · show (e.view.consumed_now.map LinkEntry.seq).Nodup
    rw [hi.seqs]
    exact nodup_range' 1
  · intro env buff_len n hn
    obtain ⟨h1, h2, h3⟩ := (add_it_nacks_spec cf env e.inb buff_len).2 n hn
    refine ⟨h1, h2, fun hmem => ?_⟩
    rcases (hi.stored n).mp hmem with hold | ⟨-, -, hrec⟩
    · exact absurd h1 (not_le.mpr hold.2)
    · change (e.inb.incoming (n % MAX_SEND_ON_LINK)).flags = .recvd at hrec
      rw [h3] at hrec
      exact absurd hrec (by decide)

end Windows

/-! ## Fixed surroundings for closed statements -/

def plain_conf : Conf := ⟨0, 0, true, false, 2, 0⟩

def plain_env : Env where
  now := 0
  network_flag := true
  link_up := true
  cwnd := MAX_SEND_ON_LINK
  nonce := fun s => BitVec.ofNat 64 (s + 5)
  send_ok := fun _ => true
  initial_nack_timeout := 0
  nack_timeout := 0
  budget := 0
  retransm_queued := false
  assigned := []
  deliver := fun _ => []
  garbage := 0

def plain_msg (body : List Bytes) : SysScatter := ⟨replicate SIZEOF_PACKET_HEADER 0, body⟩

def busy_end : LinkEnd :=
  handle plain_conf plain_env (LinkEnd.create plain_conf 7) (.forward (plain_msg [[1, 2, 3]]))

theorem busy_end_run : Run (Step plain_conf) (LinkEnd.create plain_conf 7) busy_end :=
  (Run.refl _).tail ⟨.inl rfl, plain_env, rfl⟩

theorem outgoing_window_digests_busy :
    let e := handle plain_conf plain_env busy_end (.forward (plain_msg [[4], [5, 6]]))
    (e.outb.out_tail_seq = 1 ∧ e.outb.out_head_seq = 3) ∧
      e.outb.out_nonce_digest 2 = digest ((e.packed_now.take 2).map LinkEntry.nonce) := by
  intro e
  have hrun : Run (Step plain_conf) (LinkEnd.create plain_conf 7) e :=
    busy_end_run.tail ⟨.inl rfl, plain_env, rfl⟩
  have h := outgoing_window_digests hrun
  have hwin : e.outb.out_tail_seq = 1 ∧ e.outb.out_head_seq = 3 := by decide +kernel
  refine ⟨hwin, ?_⟩
  exact (h.2.2.2.2.1 2 (by rw [hwin.1]; decide) (by rw [hwin.2]; decide)).2

def ahead_packet : ItPacket :=
  ⟨[], ⟨2, 9, 0, 0, 0, 7⟩, ⟨2, 9, 0, 0, 0, 7⟩, SIZEOF_PKT_TAIL, []⟩

def gap_end : LinkEnd :=
  handle plain_conf plain_env (LinkEnd.create plain_conf 7) (.data_packet ahead_packet)

theorem gap_end_run : Run (Step plain_conf) (LinkEnd.create plain_conf 7) gap_end :=
  (Run.refl _).tail ⟨.inl rfl, plain_env, rfl⟩

theorem incoming_window_cells_gap :
    (add_it_nacks plain_conf plain_env gap_end.inb 0).2 = [1] ∧ 1 ∉ gap_end.stored_now := by
  have hnacks : (add_it_nacks plain_conf plain_env gap_end.inb 0).2 = [1] := by decide +kernel
  have h := (incoming_window_cells gap_end_run).2.2.2.2.2.2 plain_env 0 1
    (by rw [hnacks]; exact mem_singleton_self 1)
  exact ⟨hnacks, h.2.2⟩

/-! ## One message, packet by packet -/

/-- What the in-order loop does with a packet: the return values of
`Build_Message_From_Fragments_IT` so far, the messages delivered, the working
message. After a delivery the working message is set up anew. -/
structure Rebuild where
  codes : List ℤ
  delivered : List (List Bytes)
  working : WorkingMsg

def Rebuild.feed (r : Rebuild) (buff : Bytes) : Rebuild :=
  let b := build_message_from_fragments_it r.working buff
  if b.1 = 1 then ⟨r.codes ++ [b.1], r.delivered ++ [b.2.body], WorkingMsg.fresh⟩
  else ⟨r.codes ++ [b.1], r.delivered, b.2⟩

def feed_all (packets : List Bytes) : Rebuild :=
  packets.foldl Rebuild.feed ⟨[], [], WorkingMsg.fresh⟩

theorem feed_all_concat (packets : List Bytes) (buff : Bytes) :
    feed_all (packets ++ [buff]) = (feed_all packets).feed buff := by
  rw [feed_all, foldl_append, foldl_cons, foldl_nil, ← feed_all]

/-- The packets that one run of `Pack_Fragments_Into_Packets_IT` calls puts into
the outgoing window. Between two calls anything may happen that leaves the
waiting message alone: packets are sent, acknowledged and released, so that the
window has room again, or nothing is and the next call packs nothing. -/
inductive PackCalls (cf : Conf) (e : LinkEnd) : List Bytes → LinkEnd → Prop
  | start : PackCalls cf e [] e
  | call {packets : List Bytes} {e1 : LinkEnd} (env : Env) (h : PackCalls cf e packets e1) :
      PackCalls cf e
        (packets ++ ((pack_fragments_into_packets_it cf env e1).2.packed_now.drop
          e1.packed_now.length).map LinkEntry.data)
        (pack_fragments_into_packets_it cf env e1).2
  | between {packets : List Bytes} {e1 e2 : LinkEnd} (h : PackCalls cf e packets e1)
      (hmsg : e2.outb.out_message = e1.outb.out_message)
      (hidx : e2.outb.out_frag_idx = e1.outb.out_frag_idx)
      (htotal : e2.outb.out_frag_total = e1.outb.out_frag_total) : PackCalls cf e packets e2

/-- The waiting message is `m`, none of it packed yet: as
`Forward_Intru_Tol_Data` leaves it. -/
def Waiting (m : SysScatter) (e : LinkEnd) : Prop :=
  e.outb.out_message = some m ∧ e.outb.out_frag_idx = 1 ∧
    e.outb.out_frag_total = m.num_elements - 1

inductive Halfway (m : SysScatter) (packets : List Bytes) (e : LinkEnd) : Prop
  | more (a : ℕ) (h1 : 1 ≤ a) (h2 : a ≤ m.body.length)
      (hmsg : e.outb.out_message = some m) (hidx : e.outb.out_frag_idx = a)
      (htotal : e.outb.out_frag_total = m.body.length)
      (hcodes : (feed_all packets).codes = replicate packets.length 0)
      (hdel : (feed_all packets).delivered = [])
      (hbody : (feed_all packets).working.body = (range' 1 (a - 1)).map m.element)
      (hnext : (feed_all packets).working.idx = a)
      (hwtotal : (feed_all packets).working.total = 0 ∨
        (feed_all packets).working.total = m.body.length)
  | done (hmsg : e.outb.out_message = none) (hpos : 1 ≤ packets.length)
      (hcodes : (feed_all packets).codes = replicate (packets.length - 1) 0 ++ [1])
      (hdel : (feed_all packets).delivered = [m.body])
      (hworking : (feed_all packets).working = WorkingMsg.fresh)

theorem map_element_range (m : SysScatter) :
    (range' 1 m.body.length).map m.element = m.body := by
  refine ext_getElem (by rw [length_map, length_range']) ?_
  intro i h1 h2
  rw [getElem_map, getElem_range', SysScatter.element,
    show 1 + 1 * i = i + 1 by omega, getD_cons_succ, getD_eq_getElem _ _ h2]

variable {m : SysScatter} {packets : List Bytes}

variable {cf : Conf}

theorem pack_one_spec (hm : Fits cf.link_header_size m) (env : Env) (a : ℕ)
    {e : LinkEnd} (h1 : 1 ≤ a) (h2 : a ≤ m.body.length) (hidx : e.outb.out_frag_idx = a)
    (htotal : e.outb.out_frag_total = m.body.length) :
    ∃ c, 1 ≤ c ∧ a + c ≤ m.body.length + 1 ∧
      (pack_one cf env m e).outb.out_message = (if m.body.length < a + c then none else some m) ∧
      (pack_one cf env m e).outb.out_frag_idx = a + c ∧
      (pack_one cf env m e).outb.out_frag_total = m.body.length ∧
      (pack_one cf env m e).packed_now = e.packed_now ++
        [⟨e.outb.out_head_seq, packet_bytes m m.body.length a c, env.nonce e.outb.out_head_seq⟩] := by
  obtain ⟨c, hc1, hc2, hfill⟩ := fill_packet_spec hm a h1 h2
  refine ⟨c, hc1, hc2, ?_, ?_, htotal, ?_⟩
  · simp only [pack_one, hidx, htotal, hfill.idx]
  · simp only [pack_one, hidx, htotal, hfill.idx]
  · simp only [pack_one, hidx, htotal, hfill.bytes]

theorem halfway_pack_one (hm : Fits cf.link_header_size m) (env : Env) {e : LinkEnd}
    (h : Halfway m packets e) (hmsg : e.outb.out_message = some m) :
    ∃ data, (pack_one cf env m e).packed_now = e.packed_now ++
        [⟨e.outb.out_head_seq, data, env.nonce e.outb.out_head_seq⟩] ∧
      Halfway m (packets ++ [data]) (pack_one cf env m e) := by
  cases h with
  | done hnone => rw [hmsg] at hnone; exact absurd hnone (by simp)
  | more a h1 h2 _ hidx htotal hcodes hdel hbody hnext hwtotal =>
    obtain ⟨c, hc1, hc2, hmsg', hidx', htotal', hlog⟩ :=
      pack_one_spec hm env a h1 h2 hidx htotal
    refine ⟨_, hlog, ?_⟩
    -- the receiver's step on that packet
    have hbuild := build_message_from_fragments_it_spec hm a c h1 hc1 hc2
      (feed_all packets).working hnext hwtotal
    have hrange : (range' 1 (a - 1)).map m.element ++ (range' a c).map m.element
        = (range' 1 (a - 1 + c)).map m.element := by
      have happ := range'_append_1 (s := 1) (m := a - 1) (n := c)
      rw [show 1 + (a - 1) = a by omega] at happ
      rw [← map_append, happ]
    by_cases hlast : a + c = m.body.length + 1
    · -- the last packet: the sender drops the message, the receiver delivers it
      rw [if_pos hlast] at hbuild
      have hfeed : feed_all (packets ++ [packet_bytes m m.body.length a c])
          = ⟨replicate packets.length 0 ++ [1], [m.body], WorkingMsg.fresh⟩ := by
        rw [feed_all_concat]
        simp only [Rebuild.feed, hbuild, if_true, hcodes, hdel, nil_append]
        rw [hbody, hrange, show a - 1 + c = m.body.length by omega, map_element_range]
      refine Halfway.done ?_ ?_ ?_ ?_ ?_
      · rw [hmsg', if_pos (by omega)]
      · rw [length_append, length_singleton]
        omega
      · rw [hfeed, length_append, length_singleton, Nat.add_sub_cancel]
      · rw [hfeed]
      · rw [hfeed]
    · rw [if_neg hlast] at hbuild
      have hfeed : feed_all (packets ++ [packet_bytes m m.body.length a c])
          = ⟨replicate (packets.length + 1) 0, [],
              ⟨true, (range' 1 (a - 1 + c)).map m.element, a + c, m.body.length⟩⟩ := by
        rw [feed_all_concat]
        simp only [Rebuild.feed, hbuild, hcodes, hdel]
        rw [if_neg (by decide), hbody, hrange, replicate_succ']
      refine Halfway.more (a + c) (by omega) (by omega) ?_ hidx' htotal' ?_ ?_ ?_ ?_ ?_
      · rw [hmsg', if_neg (by omega)]
      · rw [hfeed, length_append, length_singleton]
      · rw [hfeed]
      · rw [hfeed, show a + c - 1 = a - 1 + c by omega]
      · rw [hfeed]
      · rw [hfeed]
        exact .inr rfl

theorem halfway_pack_loop (hm : Fits cf.link_header_size m) (env : Env) (fuel : ℕ)
    (packets : List Bytes) (e : LinkEnd) (h : Halfway m packets e) :
    ∃ new, (pack_loop cf env fuel e).packed_now = e.packed_now ++ new ∧
      Halfway m (packets ++ new.map LinkEntry.data) (pack_loop cf env fuel e) := by
  apply pack_loop_keeps (P := fun e' => ∃ new, e'.packed_now = e.packed_now ++ new ∧
    Halfway m (packets ++ new.map LinkEntry.data) e')
  · rintro m' e' ⟨new, hlog, h⟩ hmsg -
    have hm' : m' = m := by
      cases h with
      | more a h1 h2 hmsg' => rw [hmsg'] at hmsg; exact (Option.some.inj hmsg).symm
      | done hnone => rw [hnone] at hmsg; exact absurd hmsg (by simp)
    subst hm'
    obtain ⟨data, hlog', hnext⟩ := halfway_pack_one hm env h hmsg
    refine ⟨new ++ [⟨e'.outb.out_head_seq, data, env.nonce e'.outb.out_head_seq⟩], ?_, ?_⟩
    · rw [hlog', hlog, append_assoc]
    · rw [map_append, ← append_assoc]
      exact hnext
  · exact ⟨[], (append_nil _).symm, by rw [map_nil, append_nil]; exact h⟩

theorem halfway_pack (hm : Fits cf.link_header_size m) (env : Env) {e : LinkEnd}
    (h : Halfway m packets e) :
    Halfway m (packets ++ ((pack_fragments_into_packets_it cf env e).2.packed_now.drop
        e.packed_now.length).map LinkEntry.data) (pack_fragments_into_packets_it cf env e).2 := by
  unfold pack_fragments_into_packets_it
  by_cases hup : env.link_up = false
  · rw [if_pos hup, drop_length, map_nil, append_nil]
    exact h
  · rw [if_neg hup]
    obtain ⟨new, hlog, hrest⟩ := halfway_pack_loop hm env MAX_SEND_ON_LINK packets e h
    rw [hlog, drop_left]
    exact hrest

theorem halfway_start (hm : Fits cf.link_header_size m) {e : LinkEnd} (h : Waiting m e)
    : Halfway m [] e := by
  obtain ⟨hmsg, hidx, htotal⟩ := h
  have hpos := hm.pos
  refine Halfway.more 1 (le_refl _) hpos hmsg hidx ?_ rfl rfl rfl rfl (.inl rfl)
  rw [htotal, SysScatter.num_elements, Nat.add_sub_cancel]

theorem Halfway.between {e1 e2 : LinkEnd} (h : Halfway m packets e1)
    (hmsg : e2.outb.out_message = e1.outb.out_message)
    (hidx : e2.outb.out_frag_idx = e1.outb.out_frag_idx)
    (htotal : e2.outb.out_frag_total = e1.outb.out_frag_total) : Halfway m packets e2 := by
  cases h with
  | more a h1 h2 hmsg' hidx' htotal' hcodes hdel hbody hnext hwtotal =>
    exact Halfway.more a h1 h2 (hmsg.trans hmsg') (hidx.trans hidx') (htotal.trans htotal')
      hcodes hdel hbody hnext hwtotal
  | done hnone hpos hcodes hdel hworking =>
    exact Halfway.done (hmsg.trans hnone) hpos hcodes hdel hworking

theorem PackCalls.halfway (hm : Fits cf.link_header_size m) {e : LinkEnd}
    (hw : Waiting m e) {e' : LinkEnd} (h : PackCalls cf e packets e') : Halfway m packets e' := by
  induction h with
  | start => exact halfway_start hm hw
  | call env _ ih => exact halfway_pack hm env ih
  | between _ hmsg hidx htotal ih => exact ih.between hmsg hidx htotal

theorem pack_loop_past (hm : Fits cf.link_header_size m) (env : Env) (a fuel b : ℕ)
    (e : LinkEnd) (hb1 : a < b) (hb2 : b ≤ m.body.length) (hmsg : e.outb.out_message = some m)
    (hidx : e.outb.out_frag_idx = b) (htotal : e.outb.out_frag_total = m.body.length) :
    (pack_loop cf env fuel e).outb.out_message = none ∨
    ((pack_loop cf env fuel e).outb.out_message = some m ∧
      a < (pack_loop cf env fuel e).outb.out_frag_idx ∧
      (pack_loop cf env fuel e).outb.out_frag_idx ≤ m.body.length ∧
      (pack_loop cf env fuel e).outb.out_frag_total = m.body.length) := by
  refine pack_loop_keeps (P := fun e => e.outb.out_message = none ∨ (e.outb.out_message = some m ∧
    a < e.outb.out_frag_idx ∧ e.outb.out_frag_idx ≤ m.body.length ∧
    e.outb.out_frag_total = m.body.length)) ?_ fuel (.inr ⟨hmsg, hidx ▸ hb1, hidx ▸ hb2, htotal⟩)
  rintro m' e (hnone | ⟨hmsg, h1, h2, htotal⟩) hsome -
  · exact absurd (hnone.symm.trans hsome) (Option.some_ne_none m').symm
  · obtain rfl : m' = m := Option.some.inj (hsome.symm.trans hmsg)
    obtain ⟨c, hc1, hc2, hmsg', hidx', htotal', -⟩ :=
      pack_one_spec hm env e.outb.out_frag_idx (by omega) h2 rfl htotal
    by_cases hlast : m'.body.length < e.outb.out_frag_idx + c
    · left
      rwa [if_pos hlast] at hmsg'
    · rw [if_neg hlast] at hmsg'
      exact .inr ⟨hmsg', by omega, by omega, htotal'⟩

theorem pack_progress (hm : Fits cf.link_header_size m) (a : ℕ) (env : Env)
    (hup : env.link_up = true) {e : LinkEnd} (h1 : 1 ≤ a) (h2 : a ≤ m.body.length)
    (hmsg : e.outb.out_message = some m) (hidx : e.outb.out_frag_idx = a)
    (htotal : e.outb.out_frag_total = m.body.length)
    (hroom : e.outb.out_head_seq - e.outb.out_tail_seq < MAX_SEND_ON_LINK) :
    (pack_fragments_into_packets_it cf env e).2.outb.out_message = none ∨
    ((pack_fragments_into_packets_it cf env e).2.outb.out_message = some m ∧
      a < (pack_fragments_into_packets_it cf env e).2.outb.out_frag_idx ∧
      (pack_fragments_into_packets_it cf env e).2.outb.out_frag_idx ≤ m.body.length ∧
      (pack_fragments_into_packets_it cf env e).2.outb.out_frag_total = m.body.length) := by
  obtain ⟨c, hc1, hc2, hmsg', hidx', htotal', -⟩ := pack_one_spec hm env a h1 h2 hidx htotal
  have hunroll : pack_loop cf env MAX_SEND_ON_LINK e
      = pack_loop cf env (MAX_SEND_ON_LINK - 1) (pack_one cf env m e) := by
    rw [show MAX_SEND_ON_LINK = (MAX_SEND_ON_LINK - 1) + 1 from rfl, pack_loop, hmsg]
    exact if_pos hroom
  unfold pack_fragments_into_packets_it
  rw [if_neg (by simp [hup])]
  rw [hunroll]
  by_cases hlast : m.body.length < a + c
  · left
    rw [if_pos hlast] at hmsg'
    rw [show MAX_SEND_ON_LINK - 1 = (MAX_SEND_ON_LINK - 2) + 1 from rfl, pack_loop, hmsg']
    exact hmsg'
  · rw [if_neg hlast] at hmsg'
    exact pack_loop_past hm env a _ (a + c) _ (by omega) (by omega) hmsg' hidx' htotal'

/-- The message gets through: calls of the packer, with the window emptied
between them, finish it. The induction is on the number of fragments left. -/
theorem pack_finishes (hm : Fits cf.link_header_size m) (env : Env)
    (hup : env.link_up = true) {e : LinkEnd} (d : ℕ) :
    ∀ (a : ℕ) (packets : List Bytes) (e1 : LinkEnd), m.body.length - a = d → 1 ≤ a →
      a ≤ m.body.length → PackCalls cf e packets e1 → e1.outb.out_message = some m →
      e1.outb.out_frag_idx = a → e1.outb.out_frag_total = m.body.length →
      ∃ packets' e', PackCalls cf e packets' e' ∧ e'.outb.out_message = none := by
  induction d using Nat.strong_induction_on with
  | _ d ih =>
    intro a packets e1 hd h1 h2 hcalls hmsg hidx htotal
    -- the window is emptied, then the packer is called
    have hempty : PackCalls cf e packets
        { e1 with outb.out_tail_seq := e1.outb.out_head_seq } :=
      hcalls.between rfl rfl rfl
    have hcall := hempty.call env
    rcases pack_progress hm a env hup (e := { e1 with outb.out_tail_seq := e1.outb.out_head_seq })
      h1 h2 hmsg hidx htotal (by rw [Nat.sub_self]; decide) with
      hnone | ⟨hmsg', hlt, hle, htotal'⟩
    · exact ⟨_, _, hcall, hnone⟩
    · exact ih _ (by omega) _ _ _ rfl (by omega) hle hcall hmsg' rfl htotal'

/-- **Fragmentation round trip.** For a message the link can carry, packed by
any number of calls interrupted by a full window: whenever the packer is done
with it, the packets, fed in order to an empty working message, return `0`
until the last one returns `1`; exactly the message's body elements have been
delivered, and the working message is empty again. And the packer does get done. -/
theorem fragments_round_trip (cf : Conf) (m : SysScatter)
    (hm : 1 ≤ m.body.length ∧ m.body.length ≤ MAX_SCATTER_ELEMENTS - 1 ∧
      ∀ x ∈ m.body, x.length + cf.link_header_size + SIZEOF_FRAGMENT_HEADER ≤ MAX_PACKET_SIZE)
    (e : LinkEnd) (hw : Waiting m e) :
    (∀ packets e', PackCalls cf e packets e' → e'.outb.out_message = none →
      1 ≤ packets.length ∧
      (feed_all packets).codes = replicate (packets.length - 1) 0 ++ [1] ∧
      (feed_all packets).delivered = [m.body] ∧
      (feed_all packets).working = WorkingMsg.fresh) ∧
    ∃ packets e', PackCalls cf e packets e' ∧ e'.outb.out_message = none := by
  have hfits : Fits cf.link_header_size m := ⟨hm.1, hm.2.1, hm.2.2⟩
  refine ⟨?_, ?_⟩
  · intro packets e' hcalls hnone
    cases hcalls.halfway hfits hw with
    | more a h1 h2 hmsg => rw [hnone] at hmsg; exact absurd hmsg (by simp)
    | done _ hpos hcodes hdel hworking => exact ⟨hpos, hcodes, hdel, hworking⟩
  · obtain ⟨hmsg, hidx, htotal⟩ := hw
    rw [SysScatter.num_elements, Nat.add_sub_cancel] at htotal
    exact pack_finishes hfits plain_env rfl _ 1 [] e rfl (le_refl _) hm.1
      (PackCalls.start) hmsg hidx htotal

def two_part_msg : SysScatter := plain_msg [replicate 1000 1, replicate 900 2]

def waiting_end : LinkEnd :=
  { LinkEnd.create plain_conf 7 with
    outb.out_message := some two_part_msg, outb.out_frag_idx := 1, outb.out_frag_total := 2 }

theorem fragments_round_trip_two :
    ∃ packets e', PackCalls plain_conf waiting_end packets e' ∧ packets.length = 2 ∧
      (feed_all packets).codes = [0, 1] ∧ (feed_all packets).delivered = [two_part_msg.body] := by
  have hw : Waiting two_part_msg waiting_end := ⟨rfl, rfl, by decide +kernel⟩
  have hround := (fragments_round_trip plain_conf two_part_msg
    ⟨by decide +kernel, by decide +kernel, by decide +kernel⟩ waiting_end hw).1
  have hcalls := PackCalls.call plain_env 
    (PackCalls.start : PackCalls plain_conf waiting_end [] waiting_end)
  have hlen : ([] ++ ((pack_fragments_into_packets_it plain_conf plain_env waiting_end).2.packed_now.drop
      waiting_end.packed_now.length).map LinkEntry.data).length = 2 := by decide +kernel
  obtain ⟨-, hcodes, hdel, -⟩ := hround _ _ hcalls (by decide +kernel)
  refine ⟨_, _, hcalls, hlen, ?_, hdel⟩
  rw [hcodes, hlen]
  rfl

end Spines.IntruTol
