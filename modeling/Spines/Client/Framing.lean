/-
`Session_Read`, message by message.

`Ready` says where the reader stands between two calls, for every cut of the stream, and
bounds what it asks for (`takes_ready`). A message that is cut into fragments goes out
piece by piece: `pieces_handed` is the induction over the pieces, for whatever holds of
them one after the other (`Piecewise`), and `message_framed` the whole message, after which
the reader waits for the next length.
-/
import Spines.Client.Read

set_option autoImplicit false

namespace Spines.Client

open Spines.Lib Option List

/-! ## 1. Where the reader stands -/

section Invariant

variable {δ : Type} {e : Endian} {d : Daemon δ} {st st' : Reader δ} {ses : Session}
  {c : List UInt8} {cs : List (List UInt8)}

structure Session.Cut (ses : Session) : Prop where
  room : ses.overhead ≤ ses.total_len
  num : ses.frag_num = max 1 ((ses.total_len - ses.overhead + 1127) / 1128)
  idx : 0 ≤ ses.frag_idx ∧ ses.frag_idx < ses.frag_num
  received : ses.received_len =
    if ses.frag_idx = 0 then 0 else ses.overhead + 1128 * ses.frag_idx
  read : ses.read_len =
    ses.overhead + min 1128 (ses.total_len - ses.overhead - 1128 * ses.frag_idx)

structure Session.InMessage (ses : Session) : Prop where
  known : Fragments ses.routing_used ∨ Whole ses.routing_used
  lo : 28 ≤ ses.total_len
  hi : ses.total_len ≤ 50028
  cut : Fragments ses.routing_used → ses.Cut
  whole : ¬Fragments ses.routing_used →
    ses.frag_num = 1 ∧ ses.frag_idx = 0 ∧ ses.received_len = 0 ∧ ses.read_len = ses.total_len

def Session.start (ses : Session) : ℤ := if ses.frag_idx = 0 then 0 else ses.overhead

def Session.Ready (ses : Session) : Prop :=
  if ses.state = .READY_DATA then
    ses.InMessage ∧ ses.start ≤ ses.partial_len ∧ (ses.partial_len : ℤ) < ses.read_len
  else ses.read_len = 4 ∧ ses.partial_len < 4

theorem overhead_eq (ses : Session) : ses.overhead = if ses.r_data then 36 else 28 := by
  unfold Session.overhead Session.add_size
  split <;> rfl

theorem overhead_bounds (ses : Session) : 28 ≤ ses.overhead ∧ ses.overhead ≤ 36 := by
  rw [overhead_eq]
  split <;> decide

theorem Session.New.ready (h : ses.New) : ses.Ready := by
  unfold Session.Ready
  rw [h.state, if_neg (by decide), h.read_len, h.partial_len]
  decide

theorem Session.Ready.bounds (h : ses.Ready) :
    0 < ses.asked ∧ ses.partial_len + ses.asked ≤ MAX_MESSAGE_SIZE := by
  have hmax : (MAX_MESSAGE_SIZE : ℤ) = 66240 := rfl
  unfold Session.Ready at h
  unfold Session.asked
  split at h
  · obtain ⟨hm, -, hlt⟩ := h
    have hover := overhead_bounds ses
    have hhi := hm.hi
    by_cases hf : Fragments ses.routing_used
    · have hread := (hm.cut hf).read
      omega
    · obtain ⟨-, -, -, hread⟩ := hm.whole hf
      omega
  · obtain ⟨hread, hlt⟩ := h
    omega

theorem sane_iff (total_len : ℤ) (hlo : -2 ^ 31 ≤ total_len) (hhi : total_len < 2 ^ 31) :
    Sane total_len ↔ 28 ≤ total_len ∧ total_len ≤ 50028 := by
  unfold Sane to_word sizeof_udp_header MAX_SPINES_CLIENT_MSG
  norm_num
  omega

theorem count_fragments_eq {total_len : ℤ} {add_size : ℕ} (hroom : 28 + add_size ≤ total_len)
    (hhi : total_len ≤ 50028) :
    count_fragments total_len add_size = max 1 ((total_len - (28 + add_size) + 1127) / 1128) := by
  obtain ⟨n, hn⟩ := Int.eq_ofNat_of_zero_le (show 0 ≤ total_len - (28 + add_size) by omega)
  have hle : n ≤ 50000 := by omega
  have hword : to_word 8 (total_len - sizeof_udp_header - add_size) = n := by
    have hdiff : total_len - sizeof_udp_header - add_size = n := by
      rw [← hn]
      unfold sizeof_udp_header
      push_cast
      omega
    rw [hdiff]
    unfold to_word
    norm_num
    omega
  have hquot : of_word 4 (n / MAX_SPINES_MSG) = ((n / 1128 : ℕ) : ℤ) := by
    have hmsg : MAX_SPINES_MSG = 1128 := rfl
    rw [hmsg]
    unfold of_word
    rw [Int.bmod_eq_of_le] <;> omega
  unfold count_fragments
  dsimp only
  rw [hword, hquot, hn, show MAX_SPINES_MSG = 1128 from rfl]
  split_ifs <;> omega

theorem set_up_cut (hf : Fragments ses.routing_used) (hroom : ses.overhead ≤ ses.total_len)
    (hhi : ses.total_len ≤ 50028) : (expect_data (set_up ses)).Cut := by
  have hadd : ses.overhead = 28 + ses.add_size := rfl
  have hcount := count_fragments_eq (hadd ▸ hroom) hhi
  rw [← hadd] at hcount
  have hset : set_up ses = { ses with
      read_len := if ses.total_len > MAX_SPINES_MSG + sizeof_udp_header + ses.add_size then
        MAX_SPINES_MSG + sizeof_udp_header + ses.add_size else ses.total_len
      frag_num := count_fragments ses.total_len ses.add_size
      frag_idx := 0 } := if_pos hf
  rw [hset]
  constructor
  · exact hroom
  · exact hcount
  · refine ⟨le_rfl, ?_⟩
    change 0 < count_fragments ses.total_len ses.add_size
    rw [hcount]
    exact lt_of_lt_of_le zero_lt_one (le_max_left _ _)
  · exact (if_pos rfl).symm
  · change (if ses.total_len > MAX_SPINES_MSG + sizeof_udp_header + ses.add_size then
      (MAX_SPINES_MSG + sizeof_udp_header + ses.add_size : ℤ) else ses.total_len) =
      ses.overhead + min 1128 (ses.total_len - ses.overhead - 1128 * 0)
    have hmsg : (MAX_SPINES_MSG : ℤ) = 1128 := rfl
    have hudp : (sizeof_udp_header : ℤ) = 28 := rfl
    rw [hmsg, hudp, hadd]
    split <;> omega

theorem set_up_fields (ses : Session) : (set_up ses).routing_used = ses.routing_used ∧
    (set_up ses).total_len = ses.total_len ∧ (set_up ses).closed = ses.closed ∧
    (set_up ses).r_data = ses.r_data := by
  unfold set_up
  split
  · exact ⟨rfl, rfl, rfl, rfl⟩
  · split <;> exact ⟨rfl, rfl, rfl, rfl⟩

theorem expect_data_ready (hsane : 28 ≤ ses.total_len ∧ ses.total_len ≤ 50028)
    (hfits : ses.Fits) : (expect_data (set_up ses)).Ready := by
  obtain ⟨hrouting, htotal, -, hr_data⟩ := set_up_fields ses
  have hover : ses.overhead = (expect_data (set_up ses)).overhead := by
    rw [overhead_eq, overhead_eq]
    exact congrArg (fun r => if r then (36 : ℤ) else 28) hr_data.symm
  have hbounds := overhead_bounds ses
  have hm : (expect_data (set_up ses)).InMessage := by
    refine ⟨?_, ?_, ?_, ?_, ?_⟩
    · exact hrouting.symm ▸ hfits.1
    · exact htotal.symm ▸ hsane.1
    · exact htotal.symm ▸ hsane.2
    · intro hf
      have hf' : Fragments ses.routing_used := hrouting ▸ hf
      exact set_up_cut hf' (hfits.2 hf') hsane.2
    · intro hf
      have hf' : ¬Fragments ses.routing_used := hrouting ▸ hf
      have hw : Whole ses.routing_used := hfits.1.resolve_left hf'
      have hset : set_up ses = { ses with read_len := ses.total_len, frag_num := 1, frag_idx := 0 } :=
        (if_neg hf').trans (if_pos hw)
      rw [hset]
      exact ⟨rfl, rfl, rfl, rfl⟩
  rw [Session.Ready, if_pos (show (expect_data (set_up ses)).state = .READY_DATA from rfl)]
  refine ⟨hm, ?_⟩
  have hstart : (expect_data (set_up ses)).frag_idx = 0 := by
    unfold set_up
    by_cases hf : Fragments ses.routing_used
    · rw [if_pos hf]
      rfl
    · rw [if_neg hf, if_pos (hfits.1.resolve_left hf)]
      rfl
  have hcome : (expect_data (set_up ses)).partial_len = 0 := rfl
  unfold Session.start
  rw [if_pos hstart, hcome]
  refine ⟨le_rfl, ?_⟩
  by_cases hf : Fragments (expect_data (set_up ses)).routing_used
  · have hcut := hm.cut hf
    have hroom := hcut.room
    have hread := hcut.read
    push_cast
    omega
  · obtain ⟨-, -, -, hread⟩ := hm.whole hf
    have hlo := hm.lo
    push_cast
    omega

end Invariant

/-! ## 2. The header of a piece -/

section Header

variable {e : Endian} {ses : Session} {m : Mem} {i : ℕ}

theorem flip_udp_hdr_other (h : 28 ≤ i) : Flip_udp_hdr e m i = m i := by
  unfold Flip_udp_hdr
  simp only [foldl_cons, foldl_nil]
  iterate 7 rw [Mem.store_other (.inr (by omega))]

theorem cut_header_other (ses : Session) (h : ses.overhead ≤ i) :
    (cut_header e ses).data i = ses.data i := by
  rw [overhead_eq] at h
  unfold cut_header
  split
  · cases hr : ses.r_data with
    | false =>
      rw [hr, if_neg (by decide)] at h
      simp only [Bool.false_eq_true, if_false]
      exact Mem.store_other (.inr (by omega))
    | true =>
      rw [hr, if_pos rfl] at h
      simp only [if_true]
      iterate 4 rw [Mem.store_other (.inr (by omega))]
  · rfl

theorem fill_packet_other (h : ses.overhead ≤ i) : (fill_packet e ses).data i = ses.data i := by
  have hover := overhead_bounds ses
  unfold fill_packet
  dsimp only
  iterate 4 rw [Mem.store_other (.inr (by omega))]
  split
  · exact cut_header_other ses h
  · rw [cut_header_other { ses with data := Flip_udp_hdr e ses.data } h]
    exact flip_udp_hdr_other (by omega)

def Session.arrived (ses : Session) : ℤ :=
  if ses.frag_idx > 0 then ses.received_len + ses.read_len - ses.overhead
  else ses.received_len + ses.read_len

theorem fill_packet_eq (e : Endian) (ses : Session) : fill_packet e ses =
      { ses with
        save_hdr := (fill_packet e ses).save_hdr
        data := (fill_packet e ses).data
        received_len := ses.arrived
        frag_idx := ses.frag_idx + 1 } := by
  unfold fill_packet cut_header Session.arrived
  dsimp only
  split_ifs <;> rfl

theorem fill_packet_frag_num : (fill_packet e ses).data.load e 22 1 = to_word 1 ses.frag_num := by
  have hnum : (fill_packet e ses).frag_num = ses.frag_num := by rw [fill_packet_eq]
  rw [← hnum]
  unfold fill_packet
  rw [Mem.load_store_other (by omega), Mem.load_store_other (by omega),
    Mem.load_store (to_word_lt 1 _)]

theorem fill_packet_frag_idx : (fill_packet e ses).data.load e 23 1 = to_word 1 ses.frag_idx := by
  have hidx : (fill_packet e ses).frag_idx - 1 = ses.frag_idx := by
    rw [fill_packet_eq]
    exact add_sub_cancel_right _ _
  rw [← hidx]
  unfold fill_packet
  rw [Mem.load_store_other (by omega), Mem.load_store (to_word_lt 1 _), add_sub_cancel_right]

theorem cut_header_len (ses : Session) (hf : Fragments ses.routing_used) (hn : ses.frag_num > 1) :
    (cut_header e ses).data.load e 16 2 = to_word 2 (ses.read_len - sizeof_udp_header) := by
  unfold cut_header
  rw [if_pos ⟨hf, hn⟩]
  dsimp only
  split
  · iterate 3 rw [Mem.load_store_other (by omega)]
    exact Mem.load_store (to_word_lt 2 _)
  · exact Mem.load_store (to_word_lt 2 _)

theorem fill_packet_len (hf : Fragments ses.routing_used) (hn : ses.frag_num > 1) :
    (fill_packet e ses).data.load e 16 2 = to_word 2 (ses.read_len - sizeof_udp_header) := by
  unfold fill_packet
  iterate 4 rw [Mem.load_store_other (by omega)]
  split
  · exact cut_header_len ses hf hn
  · exact cut_header_len { ses with data := Flip_udp_hdr e ses.data } hf hn

end Header

/-! ## 3. From piece to piece -/

section Steps

variable {δ : Type} {e : Endian} {d : Daemon δ} {st st' : Reader δ} {ses : Session}
  {out : Outcome δ} {c : List UInt8}

def Session.command (e : Endian) (ses : Session) : Prop :=
  ses.data.load e 16 2 = 0 ∧ ses.data.load e 0 4 = 0 ∧ ses.data.load e 4 4 = 0

def Daemon.Keeps (e : Endian) (d : Daemon δ) : Prop :=
  ∀ s ses, ¬ses.command e → (d.Process_Session_Packet s ses).closed = false →
    (d.Process_Session_Packet s ses).routing_used = ses.routing_used ∧
      (d.Process_Session_Packet s ses).r_data = ses.r_data

theorem Session.Cut.left (hcut : ses.Cut) (hn : ses.frag_num > 1) :
    1128 * ses.frag_idx < ses.total_len - ses.overhead := by
  have hnum := hcut.num
  have hidx := hcut.idx
  omega

theorem Session.Cut.full (hcut : ses.Cut) (hmore : ses.frag_idx + 1 ≠ ses.frag_num) :
    1128 * (ses.frag_idx + 1) < ses.total_len - ses.overhead := by
  have hnum := hcut.num
  have hidx := hcut.idx
  omega

theorem Session.Cut.arrived (hcut : ses.Cut) :
    ses.arrived = ses.overhead + min (1128 * (ses.frag_idx + 1)) (ses.total_len - ses.overhead) := by
  have hread := hcut.read
  have hidx := hcut.idx
  have hreceived := hcut.received
  unfold Session.arrived
  split
  · rw [if_neg (by omega)] at hreceived
    omega
  · rw [if_pos (by omega)] at hreceived
    omega

theorem packet_not_command (hf : Fragments ses.routing_used) (hcut : ses.Cut)
    (hn : ses.frag_num > 1) : ¬(packet e ses).command e := by
  intro hcommand
  have hlen : to_word 2 (ses.read_len - sizeof_udp_header) = 0 := by
    rw [← fill_packet_len (e := e) hf hn]
    exact hcommand.1
  have hread := hcut.read
  have hleft := hcut.left hn
  have hover := overhead_bounds ses
  unfold to_word sizeof_udp_header at hlen
  norm_num at hlen
  omega

theorem next_piece_last (h : ses.frag_idx = ses.frag_num) :
    next_piece ses = { ses with read_len := 4, partial_len := 0, state := .READY_LEN } := if_pos h

theorem next_piece_more (h : ses.frag_idx ≠ ses.frag_num) : next_piece ses =
      { ses with
        data := ses.data.write 0 ses.save_hdr
        read_len :=
          (if to_word 8 (ses.total_len - ses.received_len) > MAX_SPINES_MSG then
            (MAX_SPINES_MSG : ℤ) else ses.total_len - ses.received_len) +
            sizeof_udp_header + ses.add_size
        partial_len := sizeof_udp_header + ses.add_size
        state := .READY_DATA } := if_neg h

theorem Session.Cut.next (hcut : ses.Cut) (hhi : ses.total_len ≤ 50028)
    (hmore : ses.frag_idx + 1 ≠ ses.frag_num) (hr : out.r_data = ses.r_data) :
    (next_piece ((fill_packet e ses).after out)).Cut := by
  have hover := overhead_bounds ses
  have hfull := hcut.full hmore
  have hnum := hcut.num
  have hidx := hcut.idx
  have harrived := hcut.arrived
  have hmin : min (1128 * (ses.frag_idx + 1)) (ses.total_len - ses.overhead) =
      1128 * (ses.frag_idx + 1) := by omega
  rw [hmin] at harrived
  rw [fill_packet_eq, next_piece_more hmore]
  have hsame : ∀ s : Session, s.r_data = out.r_data → s.overhead = ses.overhead := by
    intro s hs
    rw [overhead_eq, overhead_eq, hs, hr]
  constructor
  · rw [hsame _ rfl]
    exact hcut.room
  · rw [hsame _ rfl]
    exact hnum
  · constructor
    · change 0 ≤ ses.frag_idx + 1
      omega
    · change ses.frag_idx + 1 < ses.frag_num
      omega
  · rw [hsame _ rfl]
    refine Eq.trans ?_ (if_neg (show ¬ses.frag_idx + 1 = 0 by omega)).symm
    exact harrived
  · rw [hsame _ rfl]
    have hword : to_word 8 (ses.total_len - ses.arrived) =
        (ses.total_len - ses.arrived).toNat := by
      unfold to_word
      rw [Int.emod_eq_of_lt (by omega) (by omega)]
    have hadd : (sizeof_udp_header : ℤ) + ((fill_packet e ses).after out).add_size =
        ses.overhead := hsame ((fill_packet e ses).after out) rfl
    change (if to_word 8 (ses.total_len - ses.arrived) > MAX_SPINES_MSG then
      (MAX_SPINES_MSG : ℤ) else ses.total_len - ses.arrived) + sizeof_udp_header +
        ((fill_packet e ses).after out).add_size = ses.overhead +
        min 1128 (ses.total_len - ses.overhead - 1128 * (ses.frag_idx + 1))
    rw [add_assoc, hadd, hword, show MAX_SPINES_MSG = 1128 from rfl]
    split <;> omega

structure Session.Onward (ses ses' : Session) : Prop where
  closed : ses'.closed = false
  state : ses'.state = .READY_DATA
  routing_used : ses'.routing_used = ses.routing_used
  overhead : ses'.overhead = ses.overhead
  total_len : ses'.total_len = ses.total_len
  frag_num : ses'.frag_num = ses.frag_num
  frag_idx : ses'.frag_idx = ses.frag_idx + 1
  received_len : ses'.received_len = ses.arrived
  partial_len : (ses'.partial_len : ℤ) = ses.overhead
  message : ses'.InMessage

structure Session.Between (ses : Session) : Prop where
  closed : ses.closed = false
  state : ses.state = .READY_LEN
  read_len : ses.read_len = 4
  partial_len : ses.partial_len = 0

theorem Session.InMessage.single (hm : ses.InMessage) (hmore : ses.frag_idx + 1 ≠ ses.frag_num) :
    Fragments ses.routing_used := by
  by_contra hf
  obtain ⟨hnum, hidx, -⟩ := hm.whole hf
  omega

theorem read_data_cases (st : Reader δ) (hkeeps : d.Keeps e) (hopen : st.ses.closed = false)
    (hm : st.ses.InMessage)
    (hbuff : (d.Process_Session_Packet st.daemon (packet e st.ses)).no_buff →
      (d.Process_Session_Packet st.daemon (packet e st.ses)).closed) :
    (read_data e d st).ses.closed ∨
      (st.ses.frag_idx + 1 = st.ses.frag_num ∧ (read_data e d st).ses.Between) ∨
      (st.ses.frag_idx + 1 ≠ st.ses.frag_num ∧ st.ses.Onward (read_data e d st).ses) := by
  generalize hout : d.Process_Session_Packet st.daemon (packet e st.ses) = out at hbuff
  cases hclosed : out.closed with
  | true =>
    apply Or.inl
    unfold read_data
    dsimp only
    rw [hout, hclosed, if_pos rfl]
    rfl
  | false =>
    apply Or.inr
    have hno : ¬out.no_buff = true := by
      intro hno
      rw [hbuff hno] at hclosed
      cases hclosed
    have hses : (read_data e d st).ses = next_piece ((fill_packet e st.ses).after out) := by
      unfold read_data
      dsimp only
      rw [hout, hclosed, if_neg (by decide), if_neg hno]
    rw [hses]
    by_cases hlast : st.ses.frag_idx + 1 = st.ses.frag_num
    · refine .inl ⟨hlast, ?_⟩
      rw [fill_packet_eq, next_piece_last hlast]
      exact ⟨hopen, rfl, rfl, rfl⟩
    · refine .inr ⟨hlast, ?_⟩
      have hf := hm.single hlast
      have hcut := hm.cut hf
      have hn : st.ses.frag_num > 1 := by
        have hidx := hcut.idx
        omega
      have hsame := hkeeps st.daemon (packet e st.ses) (packet_not_command hf hcut hn)
      rw [hout] at hsame
      obtain ⟨hrouting, hr⟩ := hsame hclosed
      have hrouting' : out.routing_used = st.ses.routing_used := by
        rw [hrouting]
        unfold packet
        rw [fill_packet_eq]
      have hr' : out.r_data = st.ses.r_data := by
        rw [hr]
        unfold packet
        rw [fill_packet_eq]
      have hover : ∀ s : Session, s.r_data = out.r_data → s.overhead = st.ses.overhead := by
        intro s hs
        rw [overhead_eq, overhead_eq, hs, hr']
      have hnext := hcut.next (e := e) hm.hi hlast hr'
      rw [fill_packet_eq, next_piece_more hlast] at hnext ⊢
      refine ⟨hopen, rfl, hrouting', hover _ rfl, rfl, rfl, rfl, rfl, ?_, ?_⟩
      · rw [← hover ((fill_packet e st.ses).after out) rfl]
        exact Nat.cast_add _ _
      · refine ⟨hrouting'.symm ▸ hm.known, hm.lo, hm.hi, ?_, ?_⟩
        · intro _
          exact hnext
        · intro hf'
          exact absurd (hrouting'.symm ▸ hf) hf'

theorem Session.Between.ready (h : ses.Between) : ses.Ready := by
  unfold Session.Ready
  rw [h.state, if_neg (by decide), h.read_len, h.partial_len]
  decide

def Session.left (ses : Session) : ℤ := ses.total_len - ses.received_len - (ses.partial_len - ses.start)

theorem Session.InMessage.idx (hm : ses.InMessage) : 0 ≤ ses.frag_idx := by
  by_cases hf : Fragments ses.routing_used
  · exact (hm.cut hf).idx.1
  · exact (hm.whole hf).2.1.ge

theorem Session.InMessage.arrived (hm : ses.InMessage) :
    ses.arrived = ses.received_len + ses.read_len - ses.start := by
  have hidx := hm.idx
  unfold Session.arrived Session.start
  split_ifs <;> omega

theorem Session.InMessage.last (hm : ses.InMessage) (hlast : ses.frag_idx + 1 = ses.frag_num) :
    ses.arrived = ses.total_len := by
  by_cases hf : Fragments ses.routing_used
  · have hcut := hm.cut hf
    have harrived := hcut.arrived
    have hnum := hcut.num
    omega
  · obtain ⟨hnum, hidx, hreceived, hread⟩ := hm.whole hf
    rw [hm.arrived, hreceived, hread, Session.start, if_pos hidx]
    omega

theorem Session.Onward.start {ses' : Session} (h : ses.Onward ses') (hm : ses.InMessage) :
    ses'.start = ses.overhead := by
  have hidx := hm.idx
  have hidx' := h.frag_idx
  unfold Session.start
  rw [if_neg (by omega), h.overhead]

theorem Session.Onward.ready {ses' : Session} (h : ses.Onward ses') (hm : ses.InMessage)
    (hmore : ses.frag_idx + 1 ≠ ses.frag_num) : ses'.Ready := by
  have hf : Fragments ses'.routing_used := h.routing_used.symm ▸ hm.single hmore
  have hread := (h.message.cut hf).read
  have hfull := (hm.cut (hm.single hmore)).full hmore
  rw [h.overhead, h.frag_idx, h.total_len] at hread
  unfold Session.Ready
  rw [if_pos h.state, h.start hm, h.partial_len]
  refine ⟨h.message, le_rfl, ?_⟩
  omega

theorem Session.InMessage.moved (hm : ses.InMessage) (c : List UInt8) (n : ℕ) :
    ((ses.put c).advance n).InMessage := by
  refine ⟨hm.known, hm.lo, hm.hi, ?_, hm.whole⟩
  intro hf
  have hcut := hm.cut hf
  exact ⟨hcut.room, hcut.num, hcut.idx, hcut.received, hcut.read⟩

theorem session_read_data (hkeeps : d.Keeps e) (hopen : st.ses.closed = false)
    (hstate : st.ses.state = .READY_DATA) (hready : st.ses.Ready) (hc : c ≠ [])
    (hmeets : Meets e d st c) (hread : Session_Read e d st c = some st') :
    st'.ses.closed ∨
      (c.length = st.ses.left ∧ st'.ses.Between) ∨
      (c.length < st.ses.left ∧ st'.ses.closed = false ∧ st'.ses.state = .READY_DATA ∧
        st'.ses.Ready ∧ st'.ses.left = st.ses.left - c.length) := by
  have hle := session_read_le hopen hc hread
  unfold Session.Ready at hready
  rw [if_pos hstate] at hready
  obtain ⟨hm, hstart, hlt⟩ := hready
  have harrived := hm.arrived
  have hasked : st.ses.asked = st.ses.read_len - st.ses.partial_len := rfl
  have hleft : st.ses.left = st.ses.total_len - st.ses.received_len -
    (st.ses.partial_len - st.ses.start) := rfl
  -- what has come in all does not go past the end of the message
  have hroom : st.ses.arrived ≤ st.ses.total_len := by
    by_cases hf : Fragments st.ses.routing_used
    · have hcut := (hm.cut hf).arrived
      omega
    · obtain ⟨hnum, hidx', -⟩ := hm.whole hf
      exact (hm.last (by omega)).le
  rcases lt_or_eq_of_le hle with hmore | heq
  · rw [session_read_more hopen hc hmore] at hread
    obtain rfl := some.inj hread
    refine .inr (.inr ⟨by omega, hopen, hstate, ?_, ?_⟩)
    · unfold Session.Ready
      rw [if_pos (show ((st.ses.put c).advance c.length).state = .READY_DATA from hstate)]
      have hcome : ((st.ses.put c).advance c.length).partial_len =
        st.ses.partial_len + c.length := rfl
      refine ⟨hm.moved c c.length, ?_, ?_⟩
      · rw [hcome]
        exact hstart.trans (by omega)
      · rw [hcome]
        exact (show st.ses.partial_len + (c.length : ℤ) < st.ses.read_len by omega)
    · change st.ses.total_len - st.ses.received_len -
        (((st.ses.partial_len + c.length : ℕ) : ℤ) - st.ses.start) = st.ses.left - c.length
      omega
  · have hbuff := hmeets.buff hopen hstate heq
    rw [session_read_complete hopen hc heq] at hread
    have hdata : st' = read_data e d { st with ses := st.ses.put c } := by
      rw [← some.inj hread]
      unfold complete
      simp only [show (st.ses.put c).state = .READY_DATA from hstate]
    have hm' : (st.ses.put c).InMessage := hm.moved c 0
    have hcases := read_data_cases { st with ses := st.ses.put c } hkeeps hopen hm' hbuff
    rw [← hdata] at hcases
    rcases hcases with hclosed | ⟨hlast, hbetween⟩ | ⟨hnot, honward⟩
    · exact .inl hclosed
    · refine .inr (.inl ⟨?_, hbetween⟩)
      have hend := hm.last hlast
      omega
    · refine .inr (.inr ⟨?_, honward.closed, honward.state, honward.ready hm' hnot, ?_⟩)
      · have hfull := (hm.cut (hm.single hnot)).full hnot
        have hcut := (hm.cut (hm.single hnot)).arrived
        omega
      · have hstart' := honward.start hm'
        unfold Session.left
        rw [honward.total_len, honward.received_len, honward.partial_len, hstart']
        have harrived' : (st.ses.put c).arrived = st.ses.arrived := rfl
        have htotal : (st.ses.put c).total_len = st.ses.total_len := rfl
        rw [harrived', htotal]
        omega

theorem sent_len_bounds (e : Endian) (ses : Session) :
    -2 ^ 31 ≤ ses.sent_len e ∧ ses.sent_len e < 2 ^ 31 := by
  have hword (n : ℕ) : -2 ^ 31 ≤ of_word 4 n ∧ of_word 4 n < 2 ^ 31 := by
    have hlo := @Int.le_bmod n (256 ^ 4) (by norm_num)
    have hhi := @Int.bmod_lt n (256 ^ 4) (by norm_num)
    unfold of_word
    norm_num at hlo hhi ⊢
    omega
  unfold Session.sent_len
  split
  · exact hword _
  · exact hword _

theorem read_length_cases (haccepts : ses.Accepts e) (hopen : ses.closed = false) :
    (¬Sane (ses.sent_len e) ∧ (read_length e ses).closed) ∨
      (Sane (ses.sent_len e) ∧ (read_length e ses).closed = false ∧
        (read_length e ses).Ready ∧
        read_length e ses = expect_data (set_up { ses with total_len := ses.sent_len e })) := by
  by_cases hsane : Sane (ses.sent_len e)
  · have heq : read_length e ses = expect_data (set_up { ses with total_len := ses.sent_len e }) :=
      if_pos hsane
    have hbounds := sent_len_bounds e ses
    have hlen := (sane_iff (ses.sent_len e) hbounds.1 hbounds.2).mp hsane
    have hfields := set_up_fields { ses with total_len := ses.sent_len e }
    refine .inr ⟨hsane, ?_, ?_, heq⟩
    · rw [heq]
      exact hfields.2.2.1.trans hopen
    · rw [heq]
      exact expect_data_ready hlen (haccepts hsane)
  · have heq : read_length e ses =
        ({ ses with total_len := ses.sent_len e } : Session).dispose := if_neg hsane
    refine .inl ⟨hsane, ?_⟩
    rw [heq]
    rfl

theorem session_read_ready (hkeeps : d.Keeps e) (hready : st.ses.closed = false → st.ses.Ready)
    (hc : c ≠ []) (hmeets : Meets e d st c) (hread : Session_Read e d st c = some st')
    (hopen' : st'.ses.closed = false) : st'.ses.Ready := by
  by_cases hclosed : st.ses.closed
  · rw [session_read_closed hclosed] at hread
    obtain rfl := some.inj hread
    exact hready hopen'
  have hopen : st.ses.closed = false := by simpa using hclosed
  replace hready := hready hopen
  by_cases hstate : st.ses.state = .READY_DATA
  · rcases session_read_data hkeeps hopen hstate hready hc hmeets hread with h | h | h
    · rw [hopen'] at h
      cases h
    · exact h.2.ready
    · exact h.2.2.2.1
  have hle := session_read_le hopen hc hread
  unfold Session.Ready at hready
  rw [if_neg hstate] at hready
  obtain ⟨hlen, hlt⟩ := hready
  have hasked : st.ses.asked = st.ses.read_len - st.ses.partial_len := rfl
  rcases lt_or_eq_of_le hle with hmore | heq
  · rw [session_read_more hopen hc hmore] at hread
    obtain rfl := some.inj hread
    unfold Session.Ready
    rw [if_neg (show ((st.ses.put c).advance c.length).state ≠ .READY_DATA from hstate)]
    refine ⟨hlen, ?_⟩
    change st.ses.partial_len + c.length < 4
    omega
  · rw [session_read_complete hopen hc heq] at hread
    rw [← some.inj hread] at hopen' ⊢
    unfold complete at hopen' ⊢
    cases hkind : st.ses.state with
    | READY_ENDIAN =>
      simp only [show (st.ses.put c).state = .READY_ENDIAN from hkind]
      exact ⟨rfl, Nat.succ_pos 3⟩
    | READY_CTRL_SK =>
      simp only [show (st.ses.put c).state = .READY_CTRL_SK from hkind] at hopen' ⊢
      cases htake : d.take_ctrl_sk st.daemon (of_word 4 ((st.ses.put c).data.load e 0 4)) with
      | none =>
        simp only [htake] at hopen'
        cases hopen'
      | some daemon => exact ⟨rfl, Nat.succ_pos 3⟩
    | READY_LEN =>
      simp only [show (st.ses.put c).state = .READY_LEN from hkind] at hopen' ⊢
      rcases read_length_cases (hmeets.fits hopen hkind heq) hopen with h | h
      · rw [h.2] at hopen'
        cases hopen'
      · exact h.2.2.1
    | READY_DATA => exact absurd hkind hstate

end Steps

/-! ## 4. Whole messages -/

section Messages

variable {δ : Type} {e : Endian} {d : Daemon δ} {st st' : Reader δ} {ses : Session}
  {c : List UInt8} {cs : List (List UInt8)}

theorem takes_closed (hrun : Takes (Session_Read e d) (Meets e d) st cs st')
    (hclosed : st.ses.closed) : st' = st := by
  induction hrun with
  | nil => rfl
  | cons _ _ hread _ ih =>
    rw [session_read_closed hclosed] at hread
    obtain rfl := some.inj hread
    exact ih hclosed

theorem takes_ready (hkeeps : d.Keeps e) (hrun : Takes (Session_Read e d) (Meets e d) st cs st')
    (hready : st.ses.closed = false → st.ses.Ready) : st'.ses.closed = false → st'.ses.Ready := by
  induction hrun with
  | nil => exact hready
  | cons hc hmeets hread _ ih => exact ih (session_read_ready hkeeps hready hc hmeets hread)

theorem takes_left (hkeeps : d.Keeps e) (hrun : Takes (Session_Read e d) (Meets e d) st cs st')
    (hopen : st.ses.closed = false) (hstate : st.ses.state = .READY_DATA)
    (hready : st.ses.Ready) (hlt : cs.flatten.length < st.ses.left) :
    st'.ses.closed ∨ st'.ses.state = .READY_DATA := by
  induction hrun with
  | nil => exact .inr hstate
  | cons hc hmeets hread hrest ih =>
    rw [flatten_cons, length_append] at hlt
    rcases session_read_data hkeeps hopen hstate hready hc hmeets hread with h | h | h
    · rw [takes_closed hrest h]
      exact .inl h
    · have hleft := h.1
      omega
    · obtain ⟨-, hopen', hstate', hready', hleft⟩ := h
      exact ih hopen' hstate' hready' (by omega)

def Session.payload (ses : Session) : List UInt8 :=
  ses.data.bytes ses.overhead.toNat (ses.read_len - ses.overhead).toNat

structure Session.Fragment (e : Endian) (n i : ℤ) (ses : Session) : Prop where
  num : ses.data.load e 22 1 = n
  idx : ses.data.load e 23 1 = i
  len : 1 < n → ses.data.load e 16 2 = ses.read_len - sizeof_udp_header
  size : ses.payload.length ≤ MAX_SPINES_MSG

theorem to_word_eq {w : ℕ} {x : ℤ} (hlo : 0 ≤ x) (hhi : x < 256 ^ w) : (to_word w x : ℤ) = x := by
  unfold to_word
  rw [Int.emod_eq_of_lt hlo hhi, Int.toNat_of_nonneg hlo]

theorem packet_overhead (e : Endian) (ses : Session) : (packet e ses).overhead = ses.overhead := by
  unfold packet
  rw [overhead_eq, overhead_eq, fill_packet_eq]

theorem packet_read_len (e : Endian) (ses : Session) : (packet e ses).read_len = ses.read_len := by
  unfold packet
  rw [fill_packet_eq]

theorem packet_payload (hstart : ses.start = ses.partial_len) (hover : ses.start ≤ ses.overhead)
    (hlen : (c.length : ℤ) = ses.asked) :
    (packet e (ses.put c)).payload = c.drop (ses.overhead - ses.start).toNat := by
  have hbounds := overhead_bounds ses
  have hasked : ses.asked = ses.read_len - ses.partial_len := rfl
  have hpos : ses.overhead.toNat = ses.partial_len + (ses.overhead - ses.start).toNat := by omega
  have hsize : (ses.read_len - ses.overhead).toNat =
      c.length - (ses.overhead - ses.start).toNat := by omega
  unfold Session.payload
  rw [packet_overhead, packet_read_len]
  calc (packet e (ses.put c)).data.bytes ses.overhead.toNat (ses.read_len - ses.overhead).toNat
    _ = (ses.put c).data.bytes ses.overhead.toNat (ses.read_len - ses.overhead).toNat := by
      apply Mem.bytes_congr
      intro i hi _
      exact fill_packet_other (show ses.overhead ≤ (i : ℤ) by omega)
    _ = c.drop (ses.overhead - ses.start).toNat := by
      rw [hpos, hsize]
      exact Mem.bytes_write_drop _ _ _ _

theorem packet_fragment (ses : Session) (hf : Fragments ses.routing_used) (hcut : ses.Cut)
    (hhi : ses.total_len ≤ 50028) : (packet e ses).Fragment e ses.frag_num ses.frag_idx := by
  have hnum := hcut.num
  have hidx := hcut.idx
  have hread := hcut.read
  have hover := overhead_bounds ses
  constructor
  · refine Eq.trans (congrArg Nat.cast fill_packet_frag_num) (to_word_eq ?_ ?_)
    · omega
    · norm_num
      omega
  · refine Eq.trans (congrArg Nat.cast fill_packet_frag_idx) (to_word_eq ?_ ?_)
    · omega
    · norm_num
      omega
  · intro hn
    have hleft := hcut.left hn
    rw [packet_read_len]
    refine Eq.trans (congrArg Nat.cast (fill_packet_len hf hn)) (to_word_eq ?_ ?_)
    · unfold sizeof_udp_header
      omega
    · unfold sizeof_udp_header
      norm_num
      omega
  · unfold Session.payload
    rw [Mem.bytes_length, packet_read_len, packet_overhead, show MAX_SPINES_MSG = 1128 from rfl]
    omega

/-- What becomes of a message: fragments of it in order, and the reader waits for the
next length. -/
structure Framed (e : Endian) (st : Reader δ) (data : List UInt8) (st' : Reader δ) : Prop where
  between : st'.ses.Between
  fragments : ∃ frags, st'.handed = st.handed ++ frags ∧ frags ≠ [] ∧
    (∀ (i : ℕ) p, frags[i]? = some p → p.Fragment e frags.length i) ∧
    frags.flatMap Session.payload = data

theorem Session.Ready.piece (h : ses.Ready) (hstate : ses.state = .READY_DATA)
    (hf : Fragments ses.routing_used) (hstart : ses.start = ses.partial_len) :
    ses.start ≤ ses.overhead ∧ ses.overhead - ses.start ≤ ses.asked ∧
      ses.left - ses.asked = ses.total_len - ses.arrived ∧ ses.arrived ≤ ses.total_len := by
  unfold Session.Ready at h
  rw [if_pos hstate] at h
  obtain ⟨hm, -, hlt⟩ := h
  have hcut := hm.cut hf
  have hidx := hcut.idx
  have harrived := hcut.arrived
  have hpiece := hm.arrived
  have hroom := hcut.room
  have hread := hcut.read
  have hover := overhead_bounds ses
  have hasked : ses.asked = ses.read_len - ses.partial_len := rfl
  have hleft : ses.left = ses.total_len - ses.received_len - (ses.partial_len - ses.start) := rfl
  have hstart_le : ses.start ≤ ses.overhead := by
    unfold Session.start
    split <;> omega
  refine ⟨hstart_le, ?_, ?_, ?_⟩
  · by_cases hn : ses.frag_num > 1
    · have hdata := hcut.left hn
      omega
    · omega
  · omega
  · omega

theorem takes_piece {rest : List UInt8} (hopen : st.ses.closed = false)
    (hstate : st.ses.state = .READY_DATA) (hasked : 0 < st.ses.asked)
    (hle : st.ses.asked ≤ rest.length) (hrest : cs.flatten = rest)
    (hrun : Takes (Session_Read e d) (Meets e d) st cs st') :
    ∃ c rest', rest = c ++ rest' ∧ (c.length : ℤ) = st.ses.asked ∧ Meets e d st c ∧
      Takes (Session_Read e d) (Meets e d) (read_data e d { st with ses := st.ses.put c })
        (rest'.map fun b => [b]) st' := by
  have hpiece : ((rest.take st.ses.asked.toNat).length : ℤ) = st.ses.asked := by
    rw [length_take]
    omega
  have hne : rest.take st.ses.asked.toNat ≠ [] := by
    apply ne_nil_of_length_pos
    omega
  have hread := session_read_complete (e := e) (d := d) hopen hne hpiece
  have hsplit := (take_append_drop st.ses.asked.toNat rest).symm
  obtain ⟨hmeets, hrun'⟩ := hrun.regroup session_read_splits hne (hrest.trans hsplit) hread
  refine ⟨_, _, hsplit, hpiece, hmeets, ?_⟩
  unfold complete at hrun'
  simpa only [show (st.ses.put (rest.take st.ses.asked.toNat)).state = .READY_DATA from hstate]
    using hrun'

theorem read_data_open (hbuff : (d.Process_Session_Packet st.daemon (packet e st.ses)).no_buff →
      (d.Process_Session_Packet st.daemon (packet e st.ses)).closed)
    (hopen : (read_data e d st).ses.closed = false) :
    (read_data e d st).ses = next_piece ((fill_packet e st.ses).after
      (d.Process_Session_Packet st.daemon (packet e st.ses))) := by
  unfold read_data at hopen ⊢
  dsimp only at hopen ⊢
  split at hopen
  · cases hopen
  · rename_i hclosed
    rw [if_neg hclosed, if_neg fun hno => hclosed (hbuff hno)]

structure Piecewise (e : Endian) (d : Daemon δ) (I : Session → List UInt8 → Prop)
    (P : ℤ → Session → Prop) : Prop where
  out : ∀ {ses c rest}, I ses (c ++ rest) → (c.length : ℤ) = ses.asked →
    Fragments ses.routing_used → (ses.put c).InMessage → P ses.frag_idx (packet e (ses.put c))
  next : ∀ {ses c rest} (s : δ), I ses (c ++ rest) → (c.length : ℤ) = ses.asked →
    Fragments ses.routing_used → ses.InMessage → ses.frag_idx + 1 ≠ ses.frag_num →
    (ses.put c).Onward (next_piece ((fill_packet e (ses.put c)).after
      (d.Process_Session_Packet s (packet e (ses.put c))))) →
    I (next_piece ((fill_packet e (ses.put c)).after
      (d.Process_Session_Packet s (packet e (ses.put c))))) rest

theorem Piecewise.and {I I' : Session → List UInt8 → Prop} {P P' : ℤ → Session → Prop}
    (h : Piecewise e d I P) (h' : Piecewise e d I' P') :
    Piecewise e d (fun ses rest => I ses rest ∧ I' ses rest) fun i p => P i p ∧ P' i p where
  out hI hlen hf hm := ⟨h.out hI.1 hlen hf hm, h'.out hI.2 hlen hf hm⟩
  next s hI hlen hf hm hmore honward :=
    ⟨h.next s hI.1 hlen hf hm hmore honward, h'.next s hI.2 hlen hf hm hmore honward⟩

/-- The pieces that are left of a message; the induction is on their number. -/
theorem pieces_handed {I : Session → List UInt8 → Prop} {P : ℤ → Session → Prop}
    (hpieces : Piecewise e d I P) (hkeeps : d.Keeps e) {k : ℕ} {rest : List UInt8}
    (hI : I st.ses rest) (hopen : st.ses.closed = false) (hstate : st.ses.state = .READY_DATA)
    (hready : st.ses.Ready) (hf : Fragments st.ses.routing_used)
    (hstart : st.ses.start = st.ses.partial_len) (hk : st.ses.frag_num = st.ses.frag_idx + k)
    (hlen : (rest.length : ℤ) = st.ses.left) (hrest : cs.flatten = rest)
    (hrun : Takes (Session_Read e d) (Meets e d) st cs st') :
    st'.ses.closed ∨
      (st'.ses.Between ∧ ∃ frags, st'.handed = st.handed ++ frags ∧ frags.length = k ∧
        (∀ (j : ℕ) p, frags[j]? = some p → P (st.ses.frag_idx + j) p) ∧
        frags.flatMap Session.payload = rest.drop (st.ses.overhead - st.ses.start).toNat) := by
  induction k generalizing st cs rest with
  | zero =>
    unfold Session.Ready at hready
    rw [if_pos hstate] at hready
    have hidx := (hready.1.cut hf).idx
    omega
  | succ k ih =>
    obtain ⟨hstart_le, hheader, hleft, hroom⟩ := hready.piece hstate hf hstart
    have hasked := hready.bounds.1
    unfold Session.Ready at hready
    rw [if_pos hstate] at hready
    obtain ⟨c, rest', rfl, hpiece, hmeets, hrun'⟩ :=
      takes_piece hopen hstate hasked (by omega) hrest hrun
    have hm : (st.ses.put c).InMessage := hready.1.moved c 0
    have hbuff := hmeets.buff hopen hstate hpiece
    have hout := hpieces.out hI hpiece hf hm
    have hpayload := packet_payload (e := e) hstart hstart_le hpiece
    have hdrop : (c ++ rest').drop (st.ses.overhead - st.ses.start).toNat =
        c.drop (st.ses.overhead - st.ses.start).toNat ++ rest' :=
      drop_append_of_le_length (by omega)
    rw [length_append] at hlen
    rw [hdrop, ← hpayload]
    have hput : (st.ses.put c).arrived = st.ses.arrived := rfl
    have htotal : (st.ses.put c).total_len = st.ses.total_len := rfl
    rcases read_data_cases { st with ses := st.ses.put c } hkeeps hopen hm hbuff with
      hclosed | ⟨hlast, hbetween⟩ | ⟨hnot, honward⟩
    · rw [takes_closed hrun' hclosed]
      exact .inl hclosed
    · have hend := hm.last hlast
      obtain rfl : rest' = [] := by
        apply eq_nil_of_length_eq_zero
        omega
      cases hrun'
      have hlast' : st.ses.frag_idx + 1 = st.ses.frag_num := hlast
      refine .inr ⟨hbetween, [packet e (st.ses.put c)], rfl, ?_, ?_, ?_⟩
      · rw [length_singleton]
        omega
      · intro j p hp
        cases j with
        | zero =>
          rw [Nat.cast_zero, add_zero, ← some.inj hp]
          exact hout
        | succ j => simp at hp
      · rw [flatMap_singleton, append_nil]
    · have hses : (read_data e d { st with ses := st.ses.put c }).ses =
          next_piece ((fill_packet e (st.ses.put c)).after
            (d.Process_Session_Packet st.daemon (packet e (st.ses.put c)))) :=
        read_data_open hbuff honward.closed
      have hI' : I (read_data e d { st with ses := st.ses.put c }).ses rest' := by
        rw [hses] at honward ⊢
        exact hpieces.next _ hI hpiece hf hready.1 hnot honward
      have hidx' : (read_data e d { st with ses := st.ses.put c }).ses.frag_idx =
          st.ses.frag_idx + 1 := honward.frag_idx
      have hnum' : (read_data e d { st with ses := st.ses.put c }).ses.frag_num =
          st.ses.frag_num := honward.frag_num
      have hstart' := honward.start hm
      have hcome' := honward.partial_len
      have hleft' : (read_data e d { st with ses := st.ses.put c }).ses.left = rest'.length := by
        unfold Session.left
        rw [honward.total_len, honward.received_len, hcome', hstart', hput, htotal]
        omega
      have hk' : st.ses.frag_num = st.ses.frag_idx + 1 + k := by
        rw [hk, Nat.cast_succ, add_comm (k : ℤ), add_assoc]
      rw [← hnum', ← hidx'] at hk'
      rcases ih hI' honward.closed honward.state (honward.ready hm hnot)
        (honward.routing_used.symm ▸ hf) (hstart'.trans hcome'.symm) hk' hleft'.symm
        (flatMap_singleton' _) hrun' with
        hclosed | ⟨hbetween, frags, hhanded, hcount, hall, hconcat⟩
      · exact .inl hclosed
      · refine .inr ⟨hbetween, packet e (st.ses.put c) :: frags, ?_, ?_, ?_, ?_⟩
        · rw [hhanded]
          exact append_assoc _ _ _
        · rw [length_cons, hcount]
        · intro j p hp
          cases j with
          | zero =>
            rw [Nat.cast_zero, add_zero, ← some.inj hp]
            exact hout
          | succ j =>
            have hlater := hall j p hp
            rw [hidx'] at hlater
            rw [Nat.cast_succ, add_comm (j : ℤ), ← add_assoc]
            exact hlater
        · rw [flatMap_cons, hconcat, honward.overhead, hstart', sub_self, Int.toNat_zero,
            drop_zero]

theorem piecewise_fragment (d : Daemon δ) (e : Endian) (n : ℤ) :
    Piecewise e d (fun ses _ => ses.frag_num = n) fun i p => p.Fragment e n i := by
  constructor
  · rintro ses c rest rfl _ hf hm
    exact packet_fragment (ses.put c) hf (hm.cut hf) hm.hi
  · rintro ses c rest out rfl _ _ _ _ honward
    exact honward.frag_num

theorem expect_data_starts (hf : Fragments ses.routing_used) :
    (expect_data (set_up ses)).start = 0 ∧ (expect_data (set_up ses)).partial_len = 0 ∧
      (expect_data (set_up ses)).left = ses.total_len ∧
      (expect_data (set_up ses)).frag_idx = 0 ∧
      (expect_data (set_up ses)).overhead = ses.overhead := by
  have hset := set_up_fields ses
  have hidx : (expect_data (set_up ses)).frag_idx = 0 := by
    unfold set_up
    rw [if_pos hf]
    rfl
  have hstart : (expect_data (set_up ses)).start = 0 := if_pos hidx
  refine ⟨hstart, rfl, ?_, hidx, ?_⟩
  · unfold Session.left
    rw [hstart]
    change (set_up ses).total_len - 0 - (0 - 0) = ses.total_len
    rw [hset.2.1, sub_zero, sub_zero, sub_zero]
  · rw [overhead_eq, overhead_eq, ← hset.2.2.2]
    rfl

theorem session_read_length (hbetween : st.ses.Between) {len : List UInt8} (hlen : len.length = 4) :
    len ≠ [] ∧ (len.length : ℤ) = st.ses.asked ∧ Session_Read e d st len =
      some { st with ses := read_length e (st.ses.put len) } := by
  have hne : len ≠ [] := by
    apply ne_nil_of_length_pos
    omega
  have hasked : (len.length : ℤ) = st.ses.asked := by
    rw [hlen, Session.asked, hbetween.read_len, hbetween.partial_len]
    rfl
  refine ⟨hne, hasked, (session_read_complete hbetween.closed hne hasked).trans ?_⟩
  unfold complete
  simp only [show (st.ses.put len).state = .READY_LEN from hbetween.state]

/-- All pieces of a message, of which the length has come. -/
theorem message_pieces {I : Session → List UInt8 → Prop} {P : ℤ → Session → Prop}
    (hpieces : Piecewise e d I P) (hkeeps : d.Keeps e) (hses : st.ses = expect_data (set_up ses))
    (hf : Fragments ses.routing_used) (hopen : st.ses.closed = false) (hready : st.ses.Ready)
    {body : List UInt8} (hI : I st.ses body) (hlen : (body.length : ℤ) = ses.total_len)
    (hcs : cs.flatten = body) (hrun : Takes (Session_Read e d) (Meets e d) st cs st') :
    st'.ses.closed ∨ st'.ses.Between ∧ ∃ frags, st'.handed = st.handed ++ frags ∧
      (frags.length : ℤ) = st.ses.frag_num ∧ frags ≠ [] ∧
        (∀ (i : ℕ) p, frags[i]? = some p → P i p) ∧
        frags.flatMap Session.payload = body.drop ses.overhead.toNat := by
  obtain ⟨hstart, hcome, hleft, hidx, hover⟩ := expect_data_starts hf
  rw [← hses] at hstart hcome hleft hidx hover
  have hstate : st.ses.state = .READY_DATA := by
    rw [hses]
    rfl
  have hf' : Fragments st.ses.routing_used := by
    rw [hses]
    exact (set_up_fields ses).1.symm ▸ hf
  have hlt := hready
  unfold Session.Ready at hlt
  rw [if_pos hstate] at hlt
  obtain ⟨hlo, hlt⟩ := (hlt.1.cut hf').idx
  have hnum : st.ses.frag_num = st.ses.frag_idx + (st.ses.frag_num.toNat : ℤ) := by omega
  have hstart' : st.ses.start = st.ses.partial_len := by
    rw [hstart, hcome]
    rfl
  rcases pieces_handed hpieces hkeeps hI hopen hstate hready hf' hstart' hnum (hlen.trans hleft.symm)
    hcs hrun with hclosed | ⟨hend, frags, hhanded, hcount, hfrags, hconcat⟩
  · exact .inl hclosed
  · rw [hidx, zero_add] at hnum
    refine .inr ⟨hend, frags, hhanded, by rw [hcount, ← hnum], ?_, fun i p hp => ?_, ?_⟩
    · rintro rfl
      rw [length_nil] at hcount
      omega
    · have hpiece := hfrags i p hp
      rwa [hidx, zero_add] at hpiece
    · rw [hconcat, hover, hstart, sub_zero]

theorem message_framed (hkeeps : d.Keeps e) (hbetween : st.ses.Between)
    (hf : Fragments st.ses.routing_used) {len body : List UInt8} (hlen : len.length = 4)
    (hsane : Sane ((st.ses.put len).sent_len e))
    (hrun : Takes (Session_Read e d) (Meets e d) st cs st') (hcs : cs.flatten = len ++ body) :
    (body.length < (st.ses.put len).sent_len e →
      st'.ses.closed ∨ st'.ses.state = .READY_DATA) ∧ (body.length = (st.ses.put len).sent_len e →
      st'.ses.closed ∨ Framed e st (body.drop st.ses.overhead.toNat) st') := by
  obtain ⟨hne, hasked, hread⟩ := session_read_length (e := e) (d := d) hbetween hlen
  obtain ⟨hmeets, hrun'⟩ := hrun.regroup session_read_splits hne hcs hread
  have haccepts := hmeets.fits hbetween.closed hbetween.state hasked
  rcases read_length_cases haccepts hbetween.closed with h | ⟨-, hopen, hready, heq⟩
  · exact absurd hsane h.1
  have hflat : (body.map fun b => [b]).flatten = body := flatMap_singleton' body
  have hf' : Fragments ({ st.ses.put len with
    total_len := (st.ses.put len).sent_len e } : Session).routing_used := hf
  constructor
  · intro hlt
    have hstate : (read_length e (st.ses.put len)).state = .READY_DATA := by
      rw [heq]
      rfl
    apply takes_left hkeeps hrun' hopen hstate hready
    have hleft := (expect_data_starts hf').2.2.1
    rw [← heq] at hleft
    rw [hflat]
    exact hleft.symm ▸ hlt
  · intro hall
    rcases message_pieces (piecewise_fragment d e _) hkeeps heq hf' hopen hready rfl hall hflat
      hrun' with hclosed | ⟨hend, frags, hhanded, hcount, hne, hfrags, hconcat⟩
    · exact .inl hclosed
    · exact .inr ⟨hend, frags, hhanded, hne, fun i p hp => hcount ▸ hfrags i p hp, hconcat⟩

theorem client_stream_framing (hkeeps : d.Keeps e) (hnew : st.ses.New)
    (hrun : Takes (Session_Read e d) (Meets e d) st cs st') :
    (∀ cs' st'', (∀ c ∈ cs', c ≠ []) → cs'.flatten = cs.flatten → reads e d st cs' = some st'' →
      st'' = st') ∧ (st'.ses.closed = false →
      0 < st'.ses.asked ∧ st'.ses.partial_len + st'.ses.asked ≤ MAX_MESSAGE_SIZE) ∧
    (∀ cs' st'' len body, st'.ses.closed = false → st'.ses.state = .READY_LEN →
      st'.ses.partial_len = 0 → Fragments st'.ses.routing_used →
      Takes (Session_Read e d) (Meets e d) st' cs' st'' → cs'.flatten = len ++ body →
      len.length = 4 → Sane ((st'.ses.put len).sent_len e) →
      (body.length < (st'.ses.put len).sent_len e →
        st''.ses.closed ∨ st''.ses.state = .READY_DATA) ∧
      (body.length = (st'.ses.put len).sent_len e →
        st''.ses.closed ∨ Framed e st' (body.drop st'.ses.overhead.toNat) st'')) := by
  have hready := takes_ready hkeeps hrun fun _ => hnew.ready
  refine ⟨?_, ?_, ?_⟩
  · intro cs' st'' hcs' hsame hrun'
    exact reads_unique hrun hcs' hsame hrun'
  · intro hopen
    exact (hready hopen).bounds
  · intro cs' st'' len body hopen hstate hcome hf hrun' hcs hlen hsane
    have hread_len := hready hopen
    unfold Session.Ready at hread_len
    rw [if_neg (by rw [hstate]; decide)] at hread_len
    exact message_framed hkeeps ⟨hopen, hstate, hread_len.1, hcome⟩ hf hlen hsane hrun' hcs

end Messages

/-! ## 5. A short message on a reliable session -/

section ShortMessage

def CONNECT_TYPE_MSG : ℕ := 2

instance (e : Endian) (ses : Session) : Decidable (ses.command e) :=
  inferInstanceAs (Decidable (_ ∧ _))

instance {δ : Type} (e : Endian) (d : Daemon δ) (st : Reader δ) (c : List UInt8) :
    Decidable (Meets e d st c) :=
  decidable_of_iff
    ((st.ses.closed = false → st.ses.state = .READY_LEN → (c.length : ℤ) = st.ses.asked →
      Sane ((st.ses.put c).sent_len e) →
        ({ st.ses.put c with total_len := (st.ses.put c).sent_len e } : Session).Fits) ∧
      (st.ses.closed = false → st.ses.state = .READY_DATA → (c.length : ℤ) = st.ses.asked →
        (d.Process_Session_Packet st.daemon (packet e (st.ses.put c))).no_buff →
        (d.Process_Session_Packet st.daemon (packet e (st.ses.put c))).closed))
    ⟨fun h => ⟨h.1, h.2⟩, fun h => ⟨h.1, h.2⟩⟩

def connecting : Daemon Unit where
  take_ctrl_sk := fun _ _ => some ()
  Process_Session_Packet := fun _ ses =>
    { daemon := (), data := ses.data, routing_used := ses.routing_used, seq_no := ses.seq_no
      r_data := ses.r_data ||
        decide (ses.command .little ∧ ses.data.load .little 28 4 = CONNECT_TYPE_MSG)
      closed := false, no_buff := false }

theorem connecting_keeps : connecting.Keeps .little := by
  intro s ses hnot _
  refine ⟨rfl, ?_⟩
  change (ses.r_data || decide _) = ses.r_data
  rw [decide_eq_false fun h => hnot h.1, Bool.or_false]

def accepted : Reader Unit where
  daemon := ()
  handed := []
  ses :=
    { sess_id := 1, endianess_type := 0, ctrl_sk := 0, routing_used := 0, total_len := 0
      read_len := 4, received_len := 0, partial_len := 0, seq_no := 0, frag_num := 0
      frag_idx := 0, save_hdr := [], state := .READY_ENDIAN, data := fun _ => 0, r_data := false
      closed := false }

/-- `spines_connect`, after the byte order and the control channel. -/
def connect : List (List UInt8) :=
  [[0x80, 0, 0, 0x80], [7, 0, 0, 0], [60, 0, 0, 0],
    replicate 28 0 ++ le_bytes 4 CONNECT_TYPE_MSG ++ replicate 28 1]

def connected : Reader Unit := (reads .little connecting accepted connect).getD accepted

def one_byte : List (List UInt8) := [[37, 0, 0, 0], replicate 37 1]

def sent : Reader Unit := (reads .little connecting connected one_byte).getD connected

theorem accepted_new : accepted.ses.New := ⟨rfl, rfl, rfl, rfl, rfl, rfl⟩

theorem takes_connect :
    Takes (Session_Read .little connecting) (Meets .little connecting) accepted connect connected :=
  .cons (by decide) (by decide +kernel) rfl <| .cons (by decide) (by decide +kernel) rfl <|
    .cons (by decide) (by decide +kernel) rfl <| .cons (by decide) (by decide +kernel) rfl <|
      .nil _

theorem takes_one_byte :
    Takes (Session_Read .little connecting) (Meets .little connecting) connected one_byte sent :=
  .cons (by decide) (by decide +kernel) rfl <| .cons (by decide) (by decide +kernel) rfl <|
    .nil _

theorem one_byte_framed : connected.ses.asked > 0 ∧
    (sent.ses.closed ∨
      Framed .little connected ((replicate 37 1).drop connected.ses.overhead.toNat) sent) := by
  obtain ⟨-, hbounds, hframed⟩ :=
    client_stream_framing connecting_keeps accepted_new takes_connect
  refine ⟨(hbounds rfl).1, ?_⟩
  have hmessage := hframed one_byte sent [37, 0, 0, 0] (replicate 37 1) rfl rfl rfl
    (by decide +kernel) takes_one_byte rfl rfl (by decide +kernel)
  exact hmessage.2 (by decide +kernel)

/-- The lengths of the two headers are not checked together: the number of fragments
wraps, and after all of the message the reader asks for no bytes at all. -/
theorem short_message_lost :
    reads .little connecting accepted connect = some connected ∧
      connected.ses.Between ∧ connected.ses.r_data ∧ Fragments connected.ses.routing_used ∧
      Sane ((connected.ses.put [30, 0, 0, 0]).sent_len .little) ∧
      (reads .little connecting connected [[30, 0, 0, 0], replicate 30 1]).map
        (fun st => (st.ses.closed, st.ses.state, st.ses.asked)) = some (false, .READY_DATA, 0) := by
  refine ⟨rfl, ⟨rfl, rfl, rfl, rfl⟩, rfl, ?_, ?_, ?_⟩ <;> decide +kernel

end ShortMessage

end Spines.Client
