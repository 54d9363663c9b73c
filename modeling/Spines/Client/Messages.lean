/-
`Session_Read` over a row of whole messages.

`message_framed` says what becomes of a message when it has been read. Here a
message is read: with a daemon that goes on with its sessions (`Daemon.Serves`) the
reader comes back to the next length after every message of a length it takes, and
the payloads it has handed over are those of the messages, one after the other
(`messages_parsed`). A length that it does not take closes the session, and what
comes after it is never read (`messages_refused`).
-/
import Spines.Client.Framing
import Spines.Client.Recvfrom

set_option autoImplicit false

namespace Spines.Client

open Spines.Lib Option List

/-! ## 1. A daemon that goes on -/

def Known (routing_used : ℤ) : Prop := Fragments routing_used ∨ Whole routing_used

/-- `Process_Session_Packet` closes no session, has always buffers, and leaves a
session one that the reader can cope with. -/
structure Daemon.Serves {δ : Type} (e : Endian) (d : Daemon δ) : Prop where
  keeps : d.Keeps e
  open_ : ∀ s ses, (d.Process_Session_Packet s ses).closed = false
  buff : ∀ s ses, (d.Process_Session_Packet s ses).no_buff = false
  r_data : ∀ s ses, (d.Process_Session_Packet s ses).r_data = ses.r_data
  known : ∀ s ses, Known ses.routing_used → Known (d.Process_Session_Packet s ses).routing_used

structure Session.Running (ses : Session) : Prop where
  state : ses.state = .READY_LEN ∨ ses.state = .READY_DATA
  known : Known ses.routing_used

structure Session.SameKind (ses ses' : Session) : Prop where
  r_data : ses'.r_data = ses.r_data
  endianess_type : ses'.endianess_type = ses.endianess_type

theorem Session.SameKind.refl (ses : Session) : ses.SameKind ses := ⟨rfl, rfl⟩

theorem Session.SameKind.trans {a b c : Session} (h : a.SameKind b) (h' : b.SameKind c) :
    a.SameKind c :=
  ⟨h'.r_data.trans h.r_data, h'.endianess_type.trans h.endianess_type⟩

theorem Session.SameKind.overhead {ses ses' : Session} (h : ses.SameKind ses') :
    ses'.overhead = ses.overhead := by
  rw [overhead_eq, overhead_eq, h.r_data]

section Serving

variable {δ : Type} {e : Endian} {d : Daemon δ} {st st' : Reader δ} {c : List UInt8}
  {cs : List (List UInt8)}

theorem set_up_endianess (ses : Session) : (set_up ses).endianess_type = ses.endianess_type := by
  unfold set_up
  split
  · rfl
  · split <;> rfl

theorem read_data_ses (hserves : d.Serves e) (st : Reader δ) :
    (read_data e d st).ses = next_piece ((fill_packet e st.ses).after
      (d.Process_Session_Packet st.daemon (packet e st.ses))) := by
  unfold read_data
  dsimp only
  rw [hserves.open_, hserves.buff, if_neg Bool.false_ne_true, if_neg Bool.false_ne_true]

theorem next_piece_fields (ses : Session) :
    ((next_piece ses).state = .READY_LEN ∨ (next_piece ses).state = .READY_DATA) ∧
      (next_piece ses).routing_used = ses.routing_used ∧ (next_piece ses).r_data = ses.r_data ∧
      (next_piece ses).endianess_type = ses.endianess_type ∧
      (next_piece ses).closed = ses.closed := by
  unfold next_piece
  split
  · exact ⟨.inl rfl, rfl, rfl, rfl, rfl⟩
  · exact ⟨.inr rfl, rfl, rfl, rfl, rfl⟩

theorem read_data_running (hserves : d.Serves e) (st : Reader δ) (h : Known st.ses.routing_used) :
    (read_data e d st).ses.Running ∧ st.ses.SameKind (read_data e d st).ses ∧
      (read_data e d st).ses.closed = st.ses.closed := by
  have hknown : Known (packet e st.ses).routing_used := by
    rw [packet, fill_packet_eq]
    exact h
  obtain ⟨hstate, hrouting, hr, hend, hclosed⟩ := next_piece_fields ((fill_packet e st.ses).after
    (d.Process_Session_Packet st.daemon (packet e st.ses)))
  rw [read_data_ses hserves]
  refine ⟨⟨hstate, ?_⟩, ⟨?_, ?_⟩, ?_⟩
  · rw [hrouting]
    exact hserves.known st.daemon (packet e st.ses) hknown
  · rw [hr, show ((fill_packet e st.ses).after (d.Process_Session_Packet st.daemon
        (packet e st.ses))).r_data = (packet e st.ses).r_data from hserves.r_data _ _, packet,
      fill_packet_eq]
  · rw [hend, fill_packet_eq]
    rfl
  · rw [hclosed, fill_packet_eq]
    rfl

theorem session_read_handed (hread : Session_Read e d st c = some st') :
    ∃ g, st'.handed = st.handed ++ g := by
  unfold Session_Read at hread
  split at hread
  · obtain rfl := some.inj hread
    exact ⟨[], (append_nil _).symm⟩
  split at hread
  · obtain rfl := some.inj hread
    exact ⟨[], (append_nil _).symm⟩
  split at hread
  · cases hread
  dsimp only at hread
  split at hread
  · obtain rfl := some.inj hread
    exact ⟨[], (append_nil _).symm⟩
  · obtain rfl := some.inj hread
    unfold complete
    dsimp only
    split
    · exact ⟨[], (append_nil _).symm⟩
    · split <;> exact ⟨[], (append_nil _).symm⟩
    · exact ⟨[], (append_nil _).symm⟩
    · exact ⟨_, rfl⟩

theorem read_length_running {ses : Session} (h : Known ses.routing_used)
    (hstate : ses.state = .READY_LEN) :
    (read_length e ses).Running ∧ ses.SameKind (read_length e ses) := by
  have hset := set_up_fields { ses with total_len := ses.sent_len e }
  unfold read_length check_length
  split
  · refine ⟨⟨.inr rfl, ?_⟩, ?_, ?_⟩
    · exact hset.1.symm ▸ h
    · exact hset.2.2.2
    · exact set_up_endianess _
  · exact ⟨⟨.inl hstate, h⟩, rfl, rfl⟩

theorem session_read_running (hserves : d.Serves e) (h : st.ses.Running)
    (hread : Session_Read e d st c = some st') : st'.ses.Running ∧ st.ses.SameKind st'.ses := by
  unfold Session_Read at hread
  split at hread
  · obtain rfl := some.inj hread
    exact ⟨h, .refl _⟩
  split at hread
  · obtain rfl := some.inj hread
    exact ⟨⟨h.state, h.known⟩, rfl, rfl⟩
  split at hread
  · cases hread
  dsimp only at hread
  split at hread
  · obtain rfl := some.inj hread
    exact ⟨⟨h.state, h.known⟩, rfl, rfl⟩
  · obtain rfl := some.inj hread
    have hput : (st.ses.put c).state = st.ses.state := rfl
    unfold complete
    rcases h.state with hstate | hstate
    · simp only [hput, hstate]
      obtain ⟨hrun, hsame⟩ :=
        read_length_running (e := e) (show Known (st.ses.put c).routing_used from h.known) hstate
      exact ⟨hrun, hsame.r_data, hsame.endianess_type⟩
    · simp only [hput, hstate]
      obtain ⟨hrun, hsame, -⟩ :=
        read_data_running hserves { st with ses := st.ses.put c } h.known
      exact ⟨hrun, hsame.r_data, hsame.endianess_type⟩

theorem takes_running (hserves : d.Serves e)
    (hrun : Takes (Session_Read e d) (Meets e d) st cs st') (h : st.ses.Running) :
    st'.ses.Running ∧ st.ses.SameKind st'.ses := by
  induction hrun with
  | nil => exact ⟨h, .refl _⟩
  | cons _ _ hread _ ih =>
    obtain ⟨hnext, hsame⟩ := session_read_running hserves h hread
    obtain ⟨hlast, hsame'⟩ := ih hnext
    exact ⟨hlast, hsame.trans hsame'⟩

theorem session_read_some (hopen : st.ses.closed = false) (hc : c ≠ [])
    (hle : (c.length : ℤ) ≤ st.ses.asked) : ∃ st', Session_Read e d st c = some st' := by
  rcases lt_or_eq_of_le hle with hlt | heq
  · exact ⟨_, session_read_more hopen hc hlt⟩
  · exact ⟨_, session_read_complete hopen hc heq⟩

theorem session_read_open (hserves : d.Serves e) (hopen : st.ses.closed = false)
    (hstate : st.ses.state = .READY_DATA) (hknown : Known st.ses.routing_used) (hc : c ≠ [])
    (hread : Session_Read e d st c = some st') : st'.ses.closed = false := by
  have hle := session_read_le hopen hc hread
  rcases lt_or_eq_of_le hle with hlt | heq
  · rw [session_read_more hopen hc hlt] at hread
    obtain rfl := some.inj hread
    exact hopen
  · rw [session_read_complete hopen hc heq] at hread
    obtain rfl := some.inj hread
    unfold complete
    simp only [show (st.ses.put c).state = .READY_DATA from hstate]
    obtain ⟨-, -, hclosed⟩ :=
      read_data_running hserves { st with ses := st.ses.put c } hknown
    exact hclosed.trans hopen

theorem meets_data (hserves : d.Serves e) (hstate : st.ses.state = .READY_DATA)
    (c : List UInt8) : Meets e d st c := by
  constructor
  · intro _ hlen
    rw [hstate] at hlen
    exact absurd hlen (by decide)
  · intro _ _ _ hno
    rw [hserves.buff] at hno
    exact absurd hno Bool.false_ne_true

theorem body_takes (hserves : d.Serves e) (body : List UInt8) : ∀ {st : Reader δ},
    st.ses.closed = false → st.ses.state = .READY_DATA → Known st.ses.routing_used →
    st.ses.Ready → st.ses.left = body.length → 0 < body.length →
    ∃ st', Takes (Session_Read e d) (Meets e d) st (body.map fun b => [b]) st' ∧
      st'.ses.Between := by
  induction body with
  | nil => exact fun _ _ _ _ _ hpos => absurd hpos (lt_irrefl 0)
  | cons b body ih =>
    intro st hopen hstate hknown hready hleft _
    have hasked := hready.bounds.1
    have hne : [b] ≠ [] := cons_ne_nil b []
    obtain ⟨st1, hread⟩ := session_read_some (e := e) (d := d) hopen hne
      (show (([b] : List UInt8).length : ℤ) ≤ st.ses.asked by
        rw [length_singleton]
        omega)
    have hmeets := meets_data hserves hstate [b]
    have hopen1 := session_read_open hserves hopen hstate hknown hne hread
    rw [length_cons] at hleft
    rw [map_cons]
    rcases session_read_data hserves.keeps hopen hstate hready hne hmeets hread with
      hclosed | ⟨hlast, hbetween⟩ | ⟨hmore, -, hstate1, hready1, hleft1⟩
    · rw [hopen1] at hclosed
      exact absurd hclosed Bool.false_ne_true
    · rw [length_singleton] at hlast
      obtain rfl : body = [] := by
        apply eq_nil_of_length_eq_zero
        omega
      exact ⟨st1, .cons hne hmeets hread (.nil st1), hbetween⟩
    · rw [length_singleton] at hmore hleft1
      obtain ⟨hrunning, -⟩ := session_read_running hserves ⟨.inr hstate, hknown⟩ hread
      obtain ⟨st2, hrest, hbetween⟩ :=
        ih hopen1 hstate1 hrunning.known hready1 (by omega) (by omega)
      exact ⟨st2, .cons hne hmeets hread hrest, hbetween⟩

end Serving

/-! ## 2. One message -/

/-- A message as it stands in the stream of a client of byte order `e`. -/
def message (e : Endian) (body : List UInt8) : List UInt8 :=
  e.order (le_bytes 4 body.length) ++ body

/-- A word of the `udp_header` that the client writes and the reader leaves alone:
`source`, `dest`, `source_port` or `dest_port`. -/
def Address (pos w : ℕ) : Prop :=
  (pos, w) = (0, 4) ∨ (pos, w) = (4, 4) ∨ (pos, w) = (12, 2) ∨ (pos, w) = (14, 2)

def word (e : Endian) (bs : List UInt8) (pos w : ℕ) : ℕ :=
  (Mem.write (fun _ => 0) 0 bs).load e pos w

/-- Packets that together are the message `body` of a client of byte order `e'`:
numbered, with its address on the first and its data, behind the headers, piece by
piece. -/
structure Carries (e e' : Endian) (body : List UInt8) (overhead : ℕ) (g : List Session) :
    Prop where
  num : ∀ (i : ℕ) p, g[i]? = some p → p.data.load e 22 1 = g.length ∧ p.data.load e 23 1 = i
  data : g.flatMap Session.payload = body.drop overhead
  first : ∃ p, g[0]? = some p ∧ ∀ pos w, Address pos w → p.data.load e pos w = word e' body pos w

structure FitsSession (ses : Session) (body : List UInt8) : Prop where
  room : ses.overhead ≤ body.length
  size : body.length ≤ MAX_SPINES_CLIENT_MSG + sizeof_udp_header

def Session.From (e : Endian) (ses : Session) (e' : Endian) : Prop :=
  Same_endian e ses.endianess_type = decide (e = e')

section Message

variable {δ : Type} {e e' : Endian} {d : Daemon δ} {st st' : Reader δ} {body : List UInt8}

theorem sent_len_message {ses : Session} (hfrom : ses.From e e') (hpos : ses.partial_len = 0)
    (hlt : body.length < 2 ^ 31) :
    (ses.put (e'.order (le_bytes 4 body.length))).sent_len e = body.length := by
  have hload : (ses.put (e'.order (le_bytes 4 body.length))).data.load e' 0 4 = body.length := by
    have hdata : (ses.put (e'.order (le_bytes 4 body.length))).data
        = ses.data.store e' 0 4 body.length := by
      rw [Session.put, hpos]
      rfl
    rw [hdata]
    apply Mem.load_store
    norm_num
    omega
  have hread := read_int32_eq (show Same_endian e (ses.put (e'.order (le_bytes 4
    body.length))).endianess_type = decide (e = e') from hfrom)
    (ses.put (e'.order (le_bytes 4 body.length))).data 0
  rw [hload] at hread
  refine Eq.trans hread ?_
  rw [of_word, Int.bmod_eq_of_le]
  · norm_num
  · norm_num
    omega

theorem packet_address {ses : Session} (hfrom : ses.From e e') {pos w : ℕ} (h : Address pos w) :
    (packet e ses).data.load e pos w = ses.data.load e' pos w := by
  have hlow : pos + w ≤ 16 := by
    rcases h with h | h | h | h <;> obtain ⟨rfl, rfl⟩ := Prod.mk.inj h <;> decide
  have hcut (ses : Session) : (cut_header e ses).data.load e pos w = ses.data.load e pos w := by
    apply Mem.load_congr
    intro i _ hi
    unfold cut_header
    split
    · dsimp only
      split
      · iterate 4 rw [Mem.store_other (.inl (by omega))]
      · rw [Mem.store_other (.inl (by omega))]
    · rfl
  unfold packet fill_packet
  iterate 4 rw [Mem.load_store_other (by omega)]
  rw [show Same_endian e ses.endianess_type = decide (e = e') from hfrom]
  by_cases heq : e = e'
  · rw [if_pos (decide_eq_true heq), hcut, heq]
  · rw [if_neg (by rw [decide_eq_false heq]; exact Bool.false_ne_true), hcut]
    exact (flip_udp_hdr_load e ses.data h).trans (Mem.flip_load heq)

theorem takes_handed {cs : List (List UInt8)}
    (hrun : Takes (Session_Read e d) (Meets e d) st cs st') : ∃ g, st'.handed = st.handed ++ g := by
  induction hrun with
  | nil => exact ⟨[], (append_nil _).symm⟩
  | cons _ _ hread _ ih =>
    obtain ⟨g, hg⟩ := ih
    obtain ⟨g1, hg1⟩ := session_read_handed hread
    exact ⟨g1 ++ g, by rw [hg, hg1, append_assoc]⟩

theorem put_word {ses : Session} {c rest : List UInt8} {pos w : ℕ} (hpos : ses.partial_len = 0)
    (hlt : pos + w ≤ c.length) : (ses.put c).data.load e pos w = word e (c ++ rest) pos w := by
  rw [word]
  apply Mem.load_congr
  intro i _ hi
  have hin : i < c.length := by omega
  show Mem.write ses.data ses.partial_len c i = _
  unfold Mem.write
  rw [hpos, if_pos (Nat.zero_le _), if_pos (Nat.zero_le _), Nat.sub_zero,
    getD_append _ _ _ _ hin, getD_eq_getElem _ _ hin, getD_eq_getElem _ _ hin]

theorem first_handed {st2 : Reader δ} (hopen : st.ses.closed = false)
    (hstate : st.ses.state = .READY_DATA) (hfrom : st.ses.From e e') (hasked : 28 ≤ st.ses.asked)
    (hpos : st.ses.partial_len = 0) (hle : st.ses.asked ≤ body.length)
    {cs : List (List UInt8)} (hcs : cs.flatten = body)
    (hrun : Takes (Session_Read e d) (Meets e d) st cs st2) :
    ∃ p g, st2.handed = st.handed ++ p :: g ∧
      ∀ pos w, Address pos w → p.data.load e pos w = word e' body pos w := by
  obtain ⟨c, rest, hsplit, hpiece, -, hrun'⟩ :=
    takes_piece hopen hstate (by omega) hle hcs hrun
  obtain ⟨g, hg⟩ := takes_handed hrun'
  refine ⟨packet e (st.ses.put c), g, ?_, fun pos w h => ?_⟩
  · rw [hg, show (read_data e d { st with ses := st.ses.put c }).handed
      = st.handed ++ [packet e (st.ses.put c)] from rfl, append_assoc]
    rfl
  · have hlow : pos + w ≤ c.length := by
      have hle16 : pos + w ≤ 16 := by
        rcases h with h | h | h | h <;> obtain ⟨rfl, rfl⟩ := Prod.mk.inj h <;> decide
      omega
    rw [packet_address (show (st.ses.put c).From e e' from hfrom) h, hsplit]
    exact put_word hpos hlow

theorem length_taken (hbetween : st.ses.Between) (hknown : Known st.ses.routing_used)
    (hfrom : st.ses.From e e') (hfits : FitsSession st.ses body) :
    ∃ st1, Takes (Session_Read e d) (Meets e d) st [e'.order (le_bytes 4 body.length)] st1 ∧
      st1.ses = expect_data (set_up
        { st.ses.put (e'.order (le_bytes 4 body.length)) with total_len := body.length }) ∧
      st1.ses.closed = false ∧ st1.ses.Ready ∧ st1.handed = st.handed := by
  obtain ⟨len, hlen⟩ : ∃ len, len = e'.order (le_bytes 4 body.length) := ⟨_, rfl⟩
  have hsize : len.length = 4 := by rw [hlen, Endian.order_length, le_bytes_length]
  obtain ⟨hne, hasked, hread⟩ := session_read_length (e := e) (d := d) hbetween hsize
  have hover := overhead_bounds st.ses
  have hroom := hfits.room
  have hsize' := hfits.size
  have hcap : MAX_SPINES_CLIENT_MSG + sizeof_udp_header = 50028 := rfl
  have hsent : (st.ses.put len).sent_len e = body.length := by
    rw [hlen]
    exact sent_len_message hfrom hbetween.partial_len (by omega)
  have haccepts : (st.ses.put len).Accepts e := by
    intro _
    refine ⟨hknown, fun _ => ?_⟩
    rw [hsent]
    exact hroom
  have hsane : Sane ((st.ses.put len).sent_len e) := by
    rw [hsent, sane_iff _ (by omega) (by omega)]
    omega
  have hmeets : Meets e d st len := by
    refine ⟨fun _ _ _ => haccepts, fun _ hdata => ?_⟩
    rw [hbetween.state] at hdata
    exact absurd hdata (by decide)
  rcases read_length_cases haccepts hbetween.closed with h | ⟨-, hopen, hready, heq⟩
  · exact absurd hsane h.1
  rw [← hlen]
  refine ⟨_, .cons hne hmeets hread (.nil _), ?_, hopen, hready, rfl⟩
  refine heq.trans ?_
  rw [hsent]

theorem whole_handed {st2 : Reader δ} (hopen : st.ses.closed = false)
    (hstate : st.ses.state = .READY_DATA) (hready : st.ses.Ready)
    (hw : ¬Fragments st.ses.routing_used) (hpos : st.ses.partial_len = 0)
    (htotal : st.ses.total_len = body.length) {cs : List (List UInt8)} (hcs : cs.flatten = body)
    (hrun : Takes (Session_Read e d) (Meets e d) st cs st2) :
    ∃ g, st2.handed = st.handed ++ g ∧
      (∀ (i : ℕ) p, g[i]? = some p → p.data.load e 22 1 = g.length ∧ p.data.load e 23 1 = i) ∧
      g.flatMap Session.payload = body.drop st.ses.overhead.toNat := by
  have hasked := hready.bounds.1
  unfold Session.Ready at hready
  rw [if_pos hstate] at hready
  obtain ⟨hm, -, -⟩ := hready
  obtain ⟨hnum, hidx, hreceived, hread_len⟩ := hm.whole hw
  have hwant : st.ses.asked = body.length := by
    rw [Session.asked, hread_len, hpos, htotal]
    omega
  obtain ⟨c, rest, hsplit, hpiece, -, hrun'⟩ :=
    takes_piece hopen hstate hasked hwant.le hcs hrun
  have hc : c.length = body.length := by omega
  obtain rfl : rest = [] := by
    apply eq_nil_of_length_eq_zero
    have hlen := congrArg List.length hsplit
    rw [length_append] at hlen
    omega
  rw [append_nil] at hsplit
  subst hsplit
  cases hrun'
  have hstart : st.ses.start = 0 := if_pos hidx
  refine ⟨[packet e (st.ses.put body)], rfl, ?_, ?_⟩
  · intro i p hp
    cases i with
    | zero =>
      obtain rfl := some.inj hp
      constructor
      · refine Eq.trans fill_packet_frag_num ?_
        rw [show (st.ses.put body).frag_num = 1 from hnum]
        exact (by decide : to_word 1 1 = 1)
      · refine Eq.trans fill_packet_frag_idx ?_
        rw [show (st.ses.put body).frag_idx = 0 from hidx]
        exact (by decide : to_word 1 0 = 0)
    | succ i => simp at hp
  · rw [flatMap_singleton, packet_payload (by rw [hstart, hpos]; rfl)
      (by rw [hstart]; have := overhead_bounds st.ses; omega) hpiece, hstart, sub_zero]

theorem message_parsed (hserves : d.Serves e) (hbetween : st.ses.Between)
    (hknown : Known st.ses.routing_used) (hfrom : st.ses.From e e')
    (hfits : FitsSession st.ses body) :
    ∃ cs st', cs.flatten = message e' body ∧ Takes (Session_Read e d) (Meets e d) st cs st' ∧
      st'.ses.Between ∧ Known st'.ses.routing_used ∧ st.ses.SameKind st'.ses ∧
      ∃ g, st'.handed = st.handed ++ g ∧ Carries e e' body st.ses.overhead.toNat g := by
  obtain ⟨st1, hfirst, hses, hopen, hready, hhanded⟩ :=
    length_taken (d := d) hbetween hknown hfrom hfits
  have hstate : st1.ses.state = .READY_DATA := by
    rw [hses]
    rfl
  obtain ⟨hrunning, hkind⟩ := takes_running hserves hfirst ⟨.inl hbetween.state, hknown⟩
  have hover := overhead_bounds st.ses
  have hroom := hfits.room
  have hsize := hfits.size
  have hcap : MAX_SPINES_CLIENT_MSG + sizeof_udp_header = 50028 := rfl
  have hset := set_up_fields { st.ses.put (e'.order (le_bytes 4 body.length)) with
    total_len := body.length }
  have htotal : st1.ses.total_len = body.length := by
    rw [hses]
    exact hset.2.1
  have hpos : st1.ses.partial_len = 0 := by
    rw [hses]
    rfl
  have hrouting : st1.ses.routing_used = st.ses.routing_used := by
    rw [hses]
    exact hset.1
  have hfrom1 : st1.ses.From e e' := by
    rw [Session.From, hkind.endianess_type]
    exact hfrom
  obtain ⟨hm, -, -⟩ : st1.ses.InMessage ∧ st1.ses.start ≤ st1.ses.partial_len ∧
      (st1.ses.partial_len : ℤ) < st1.ses.read_len := by
    have hready' := hready
    unfold Session.Ready at hready'
    rwa [if_pos hstate] at hready'
  obtain ⟨hleft, hasked, hasked_le⟩ : st1.ses.left = body.length ∧ 28 ≤ st1.ses.asked ∧
      st1.ses.asked ≤ body.length := by
    by_cases hf : Fragments st.ses.routing_used
    · obtain ⟨-, -, hleft, hidx, -⟩ := expect_data_starts (show Fragments
        ({ st.ses.put (e'.order (le_bytes 4 body.length)) with
          total_len := body.length } : Session).routing_used from hf)
      rw [← hses] at hleft hidx
      have hread := (hm.cut (hrouting ▸ hf)).read
      rw [hkind.overhead, hidx, htotal] at hread
      refine ⟨hleft, ?_, ?_⟩
      · rw [Session.asked, hread, hpos]
        omega
      · rw [Session.asked, hread, hpos]
        omega
    · obtain ⟨-, hidx, hreceived, hread⟩ := hm.whole (hrouting ▸ hf)
      refine ⟨?_, ?_, ?_⟩
      · rw [Session.left, htotal, hreceived, hpos, Session.start, if_pos hidx]
        omega
      · rw [Session.asked, hread, htotal, hpos]
        omega
      · rw [Session.asked, hread, htotal, hpos]
        omega
  obtain ⟨st2, hrest, hbetween2⟩ :=
    body_takes hserves body hopen hstate hrunning.known hready hleft (by omega)
  have hrun := takes_append.mpr ⟨st1, hfirst, hrest⟩
  have hflat : (body.map fun b => [b]).flatten = body := flatMap_singleton' body
  have hcs : ([e'.order (le_bytes 4 body.length)] ++ body.map fun b => [b]).flatten
      = message e' body := by
    rw [singleton_append, flatten_cons, hflat]
    rfl
  obtain ⟨hrunning2, hkind2⟩ := takes_running hserves hrest hrunning
  refine ⟨_, st2, hcs, hrun, hbetween2, hrunning2.known, hkind.trans hkind2, ?_⟩
  have hpackets : ∃ g, st2.handed = st.handed ++ g ∧
      (∀ (i : ℕ) p, g[i]? = some p → p.data.load e 22 1 = g.length ∧ p.data.load e 23 1 = i) ∧
      g.flatMap Session.payload = body.drop st.ses.overhead.toNat := by
    by_cases hf : Fragments st.ses.routing_used
    · have hlen : (st.ses.put (e'.order (le_bytes 4 body.length))).sent_len e = body.length :=
        sent_len_message hfrom hbetween.partial_len (by omega)
      have hsane : Sane ((st.ses.put (e'.order (le_bytes 4 body.length))).sent_len e) := by
        rw [hlen, sane_iff _ (by omega) (by omega)]
        omega
      rcases (message_framed hserves.keeps hbetween hf
        (by rw [Endian.order_length, le_bytes_length]) hsane hrun hcs).2 hlen.symm with
        hclosed | ⟨-, g, hg, -, hall, hdata⟩
      · rw [hbetween2.closed] at hclosed
        exact absurd hclosed Bool.false_ne_true
      · refine ⟨g, hg, fun i p hp => ?_, hdata⟩
        have hfrag := hall i p hp
        exact ⟨by exact_mod_cast hfrag.num, by exact_mod_cast hfrag.idx⟩
    · have hw := whole_handed hopen hstate hready (hrouting ▸ hf) hpos htotal hflat hrest
      rw [hkind.overhead, hhanded] at hw
      exact hw
  obtain ⟨g, hg, hnum, hdata⟩ := hpackets
  obtain ⟨p, g', hg', haddress⟩ := first_handed hopen hstate hfrom1 hasked hpos hasked_le hflat hrest
  rw [hhanded, hg] at hg'
  obtain rfl := append_cancel_left hg'
  exact ⟨p :: g', hg, hnum, hdata, p, rfl, haddress⟩

end Message

/-! ## 3. A row of messages -/

structure Parsed {δ : Type} (e e' : Endian) (st : Reader δ) (bodies : List (List UInt8))
    (st' : Reader δ) : Prop where
  between : st'.ses.Between
  groups : ∃ gs, st'.handed = st.handed ++ gs.flatten ∧
    List.Forall₂ (fun body g => Carries e e' body st.ses.overhead.toNat g) bodies gs

section Row

variable {δ : Type} {e e' : Endian} {d : Daemon δ} {st st' : Reader δ}

theorem takes_full {cs : List (List UInt8)}
    (hrun : Takes (Session_Read e d) (Meets e d) st cs st') : Full cs := by
  induction hrun with
  | nil => exact fun _ hc => absurd hc not_mem_nil
  | cons hc _ _ _ ih =>
    intro c hmem
    rcases mem_cons.mp hmem with rfl | hmem'
    · exact hc
    · exact ih c hmem'

theorem takes_reads {cs : List (List UInt8)}
    (hrun : Takes (Session_Read e d) (Meets e d) st cs st') : reads e d st cs = some st' := by
  induction hrun with
  | nil => rfl
  | cons _ _ hread _ ih =>
    rw [reads, foldlM_cons, hread]
    exact ih

theorem Session.SameKind.from_ {ses ses' : Session} (h : ses.SameKind ses')
    (hfrom : ses.From e e') : ses'.From e e' := by
  rw [Session.From, h.endianess_type]
  exact hfrom

/-- One way to read them all; the induction is on the messages. -/
theorem messages_takes (hserves : d.Serves e) (bodies : List (List UInt8)) : ∀ {st : Reader δ},
    st.ses.Between → Known st.ses.routing_used → st.ses.From e e' →
    (∀ body ∈ bodies, FitsSession st.ses body) →
    ∃ cs st', cs.flatten = bodies.flatMap (message e') ∧
      Takes (Session_Read e d) (Meets e d) st cs st' ∧ Parsed e e' st bodies st' := by
  induction bodies with
  | nil =>
    intro st hbetween _ _ _
    exact ⟨[], st, rfl, .nil st, hbetween, [], (append_nil _).symm, .nil⟩
  | cons body bodies ih =>
    intro st hbetween hknown hfrom hfits
    obtain ⟨cs1, st1, hcs1, hrun1, hbetween1, hknown1, hkind, g, hg, hcarries⟩ :=
      message_parsed hserves hbetween hknown hfrom (hfits body mem_cons_self)
    have hfits1 : ∀ b ∈ bodies, FitsSession st1.ses b := by
      intro b hb
      obtain ⟨hroom, hsize⟩ := hfits b (mem_cons_of_mem body hb)
      exact ⟨hkind.overhead ▸ hroom, hsize⟩
    obtain ⟨cs2, st2, hcs2, hrun2, hbetween2, gs, hgs, hall⟩ :=
      ih hbetween1 hknown1 (hkind.from_ hfrom) hfits1
    refine ⟨cs1 ++ cs2, st2, ?_, takes_append.mpr ⟨st1, hrun1, hrun2⟩, hbetween2, g :: gs, ?_, ?_⟩
    · rw [flatten_append, hcs1, hcs2, flatMap_cons]
    · rw [hgs, hg, flatten_cons, append_assoc]
    · rw [hkind.overhead] at hall
      exact .cons hcarries hall

theorem messages_parsed (hserves : d.Serves e) {bodies : List (List UInt8)}
    (hbetween : st.ses.Between) (hknown : Known st.ses.routing_used) (hfrom : st.ses.From e e')
    (hfits : ∀ body ∈ bodies, FitsSession st.ses body) {cs : List (List UInt8)} (hfull : Full cs)
    (hcs : cs.flatten = bodies.flatMap (message e')) (hreads : reads e d st cs = some st') :
    Parsed e e' st bodies st' := by
  obtain ⟨cs', st2, hcs', hrun, hparsed⟩ := messages_takes hserves bodies hbetween hknown hfrom hfits
  obtain ⟨-, rfl⟩ := hrun.unique session_read_splits hfull (hcs.trans hcs'.symm) hreads
  exact hparsed

theorem message_refused (hbetween : st.ses.Between) (hfrom : st.ses.From e e') {body : List UInt8}
    (hlong : MAX_SPINES_CLIENT_MSG + sizeof_udp_header < body.length) (hlt : body.length < 2 ^ 31)
    (rest : List UInt8) :
    ∃ cs st', Full cs ∧ cs.flatten = message e' body ++ rest ∧ reads e d st cs = some st' ∧
      st'.ses.closed = true := by
  obtain ⟨len, hlen⟩ : ∃ len, len = e'.order (le_bytes 4 body.length) := ⟨_, rfl⟩
  have hsize : len.length = 4 := by rw [hlen, Endian.order_length, le_bytes_length]
  obtain ⟨hne, hasked, hread⟩ := session_read_length (e := e) (d := d) hbetween hsize
  have hcap : MAX_SPINES_CLIENT_MSG + sizeof_udp_header = 50028 := rfl
  have hsent : (st.ses.put len).sent_len e = body.length := by
    rw [hlen]
    exact sent_len_message hfrom hbetween.partial_len hlt
  have hinsane : ¬Sane ((st.ses.put len).sent_len e) := by
    rw [hsent, sane_iff _ (by omega) (by omega)]
    omega
  have hclosed : (read_length e (st.ses.put len)).closed = true := by
    unfold read_length check_length
    rw [if_neg hinsane]
    rfl
  have hne' : body ++ rest ≠ [] := by
    apply ne_nil_of_length_pos
    rw [length_append]
    omega
  refine ⟨[len, body ++ rest], { st with ses := read_length e (st.ses.put len) }, ?_, ?_, ?_,
    hclosed⟩
  · intro c hc
    rcases mem_cons.mp hc with rfl | hc'
    · exact hne
    · rw [mem_singleton.mp hc']
      exact hne'
  · rw [message, ← hlen, flatten_cons, flatten_cons, flatten_nil, append_nil,
      append_assoc]
  · have hsecond : Session_Read e d { st with ses := read_length e (st.ses.put len) }
        (body ++ rest) = some { st with ses := read_length e (st.ses.put len) } := if_pos hclosed
    simp only [reads, foldlM_cons, foldlM_nil, hread, hsecond, bind_eq_bind,
      bind_some]
    rfl

theorem messages_refused (hserves : d.Serves e) (bodies : List (List UInt8)) : ∀ {st : Reader δ},
    st.ses.Between → Known st.ses.routing_used → st.ses.From e e' →
    (∀ body ∈ bodies, st.ses.overhead ≤ body.length ∧ body.length < 2 ^ 31) →
    (∃ body ∈ bodies, MAX_SPINES_CLIENT_MSG + sizeof_udp_header < body.length) →
    ∃ cs st', Full cs ∧ cs.flatten = bodies.flatMap (message e') ∧ reads e d st cs = some st' ∧
      st'.ses.closed = true := by
  induction bodies with
  | nil =>
    rintro st _ _ _ _ ⟨body, hmem, -⟩
    exact absurd hmem not_mem_nil
  | cons body bodies ih =>
    intro st hbetween hknown hfrom hroom hlong
    obtain ⟨hover, hlt⟩ := hroom body mem_cons_self
    rw [flatMap_cons]
    by_cases hsize : MAX_SPINES_CLIENT_MSG + sizeof_udp_header < body.length
    · exact message_refused hbetween hfrom hsize hlt _
    · obtain ⟨cs1, st1, hcs1, hrun1, hbetween1, hknown1, hkind, -⟩ :=
        message_parsed hserves hbetween hknown hfrom ⟨hover, not_lt.mp hsize⟩
      have hlong1 : ∃ b ∈ bodies, MAX_SPINES_CLIENT_MSG + sizeof_udp_header < b.length := by
        obtain ⟨b, hb, hb'⟩ := hlong
        rcases mem_cons.mp hb with rfl | hmem
        · exact absurd hb' hsize
        · exact ⟨b, hmem, hb'⟩
      obtain ⟨cs2, st2, hfull2, hcs2, hreads2, hclosed⟩ :=
        ih hbetween1 hknown1 (hkind.from_ hfrom)
          (fun b hb => hkind.overhead ▸ hroom b (mem_cons_of_mem body hb)) hlong1
      refine ⟨cs1 ++ cs2, st2, ?_, ?_, ?_, hclosed⟩
      · intro c hc
        rcases mem_append.mp hc with hc' | hc'
        · exact takes_full hrun1 c hc'
        · exact hfull2 c hc'
      · rw [flatten_append, hcs1, hcs2]
      · rw [reads, foldlM_append]
        exact (congrArg (fun o => o >>= fun s => cs2.foldlM (Session_Read e d) s)
          (takes_reads hrun1)).trans hreads2

end Row

end Spines.Client
