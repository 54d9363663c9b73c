/-
`Session_Read`, with a client of the other byte order.

The header of a message is flipped in place, and when more fragments are to come it is saved
as it then is. It is put back in front of every later piece, and flipped there once more: its
addresses and ports are those of the first fragment read by a machine of the other byte order
(`piecewise_front`). Everything else that a fragment carries is written anew, or is a byte.
-/
import Spines.Client.Sendto

set_option autoImplicit false

namespace Spines.Client

open Spines.Lib List

/-! ## 1. What the reader copies of a header -/

/-- A field that all fragments of a message have from the message: an address or a port, `ttl`
or `routing`. -/
def Copied (pos w : ℕ) : Prop := Address pos w ∨ (pos, w) = (24, 1) ∨ (pos, w) = (25, 1)

def Stays (i : ℕ) : Prop := i < 8 ∨ 12 ≤ i ∧ i < 16 ∨ 24 ≤ i ∧ i < 28

def Session.native (e : Endian) (ses : Session) : Mem :=
  if Same_endian e ses.endianess_type then ses.data else Flip_udp_hdr e ses.data

section Header

variable {e e' : Endian} {ses : Session} {m : Mem} {i pos w : ℕ}

theorem load_byte (m : Mem) (e : Endian) (pos : ℕ) : m.load e pos 1 = (m pos).toNat := by
  cases e <;> simp [Mem.load, Mem.bytes, Endian.order, le_value]

theorem Copied.stays (h : Copied pos w) (hlo : pos ≤ i) (hhi : i < pos + w) : Stays i := by
  obtain (h | h | h | h) | h | h := h
  all_goals
    obtain ⟨rfl, rfl⟩ := Prod.mk.inj h
    unfold Stays
    omega

theorem Copied.inside (h : Copied pos w) : pos + w ≤ 28 := by
  obtain (h | h | h | h) | h | h := h
  all_goals
    obtain ⟨rfl, rfl⟩ := Prod.mk.inj h
    omega

theorem cut_header_stays (ses : Session) (h : Stays i) :
    (cut_header e ses).data i = ses.data i := by
  unfold Stays at h
  unfold cut_header
  split
  · dsimp only
    split
    · iterate 4 rw [Mem.store_other (by omega)]
    · exact Mem.store_other (by omega)
  · rfl

theorem packet_stays (h : Stays i) : (packet e ses).data i = ses.native e i := by
  unfold Stays at h
  unfold packet fill_packet
  dsimp only
  iterate 4 rw [Mem.store_other (by omega)]
  rw [cut_header_stays _ h, Session.native]
  split <;> rfl

theorem native_load (hfrom : ses.From e e') (h : Copied pos w) :
    (ses.native e).load e pos w = ses.data.load e' pos w := by
  rw [Session.native, show Same_endian e ses.endianess_type = decide (e = e') from hfrom]
  by_cases heq : e = e'
  · rw [if_pos (decide_eq_true heq), heq]
  rw [if_neg (by rw [decide_eq_false heq]; exact Bool.false_ne_true)]
  have hbyte : ∀ i, 24 ≤ i → (Flip_udp_hdr e ses.data).load e i 1 = ses.data.load e' i 1 := by
    intro i hi
    rw [load_byte, load_byte]
    unfold Flip_udp_hdr
    simp only [foldl_cons, foldl_nil]
    iterate 7 rw [Mem.store_other (.inr (by omega))]
  obtain h | h | h := h
  · exact (flip_udp_hdr_load e ses.data h).trans (Mem.flip_load heq)
  · obtain ⟨rfl, rfl⟩ := Prod.mk.inj h
    exact hbyte 24 (by decide)
  · obtain ⟨rfl, rfl⟩ := Prod.mk.inj h
    exact hbyte 25 (by decide)

theorem packet_copied (hfrom : ses.From e e') (h : Copied pos w) :
    (packet e ses).data.load e pos w = ses.data.load e' pos w := by
  rw [← native_load hfrom h]
  exact Mem.load_congr fun i hlo hhi => packet_stays (h.stays hlo hhi)

theorem fill_packet_save (hf : Fragments ses.routing_used) (hn : ses.frag_num > 1) :
    (fill_packet e ses).save_hdr =
      if ses.frag_idx = 0 then (ses.native e).bytes 0 28 else ses.save_hdr := by
  unfold fill_packet cut_header Session.native
  dsimp only
  split
  · rw [if_pos ⟨hf, hn⟩]
    rfl
  · rw [if_pos (show Fragments _ ∧ _ from ⟨hf, hn⟩)]
    rfl

end Header

/-! ## 2. From piece to piece -/

structure Session.Headed (ses : Session) (hdr : Mem) : Prop where
  data : ∀ i < 28, ses.data i = hdr i
  saved : ses.save_hdr = hdr.bytes 0 28

structure Session.Piece (e e' : Endian) (body : List UInt8) (overhead n i : ℤ) (p : Session) :
    Prop where
  fragment : p.Fragment e n i
  copied : ∀ pos w, Copied pos w → p.data.load e pos w =
    if i = 0 ∨ e = e' then word e' body pos w else flip_word w (word e' body pos w)
  len_whole : ¬n > 1 → p.data.load e 16 2 = word e' body 16 2
  read_len : p.read_len = overhead + min 1128 (body.length - overhead - 1128 * i)
  overhead : p.overhead = overhead

structure Session.Front (e e' : Endian) (body : List UInt8) (overhead n : ℤ) (ses : Session)
    (rest : List UInt8) : Prop where
  from_ : ses.From e e'
  overhead : ses.overhead = overhead
  total_len : ses.total_len = body.length
  frag_num : ses.frag_num = n
  first : ses.frag_idx = 0 → rest = body ∧ ses.partial_len = 0 ∧ 28 ≤ ses.asked
  later : ses.frag_idx ≠ 0 → 28 ≤ ses.partial_len ∧
    ∃ hdr : Mem, ses.Headed hdr ∧ ∀ pos w, Copied pos w → hdr.load e pos w = word e' body pos w

section Pieces

variable {δ : Type} {e e' : Endian} {ses : Session} {hdr : Mem} {body c rest : List UInt8}
  {overhead n : ℤ}

theorem next_piece_headed (out : Outcome δ) (hmore : ses.frag_idx + 1 ≠ ses.frag_num)
    (hsave : (fill_packet e ses).save_hdr = hdr.bytes 0 28) :
    (next_piece ((fill_packet e ses).after out)).Headed hdr := by
  have hmore' : ((fill_packet e ses).after out).frag_idx ≠ ((fill_packet e ses).after out).frag_num := by
    rw [fill_packet_eq]
    exact hmore
  rw [next_piece_more hmore']
  refine ⟨fun i hi => ?_, hsave⟩
  dsimp only
  rw [show ((fill_packet e ses).after out).save_hdr = (fill_packet e ses).save_hdr from rfl, hsave,
    Mem.write, if_pos (Nat.zero_le i), Nat.sub_zero, Mem.getD_bytes _ _ hi, Nat.zero_add]

theorem packet_len_whole (hfrom : ses.From e e') (hn : ¬ses.frag_num > 1) :
    (packet e ses).data.load e 16 2 = ses.data.load e' 16 2 := by
  have hcut (ses : Session) (hn : ¬ses.frag_num > 1) : cut_header e ses = ses :=
    if_neg fun h => hn h.2
  unfold packet fill_packet
  iterate 4 rw [Mem.load_store_other (by omega)]
  rw [show Same_endian e ses.endianess_type = decide (e = e') from hfrom]
  by_cases heq : e = e'
  · rw [if_pos (decide_eq_true heq), hcut ses hn, heq]
  · rw [if_neg (by rw [decide_eq_false heq]; exact Bool.false_ne_true),
      hcut { ses with data := Flip_udp_hdr e ses.data } hn]
    unfold Flip_udp_hdr
    simp only [foldl_cons, foldl_nil]
    iterate 2 rw [Mem.load_store_other (by omega)]
    rw [Mem.load_store (flip_word_lt _ _)]
    iterate 4 rw [Mem.load_store_other (by omega)]
    exact Mem.flip_load heq

theorem Session.Front.word (h : ses.Front e e' body overhead n (c ++ rest))
    (hlen : (c.length : ℤ) = ses.asked) (hidx : ses.frag_idx = 0) {pos w : ℕ} (hin : pos + w ≤ 28) :
    (ses.put c).data.load e' pos w = word e' body pos w := by
  obtain ⟨hbody, hpos, hasked⟩ := h.first hidx
  rw [← hbody]
  exact put_word hpos (by omega)

theorem Session.Front.piece_load (h : ses.Front e e' body overhead n (c ++ rest))
    (hidx : ses.frag_idx ≠ 0) {pos w : ℕ} (hpos : Copied pos w) :
    (ses.put c).data.load e' pos w =
      if e = e' then Client.word e' body pos w else flip_word w (Client.word e' body pos w) := by
  obtain ⟨hbehind, hdr, hheaded, hload⟩ := h.later hidx
  have hsame : (ses.put c).data.load e' pos w = hdr.load e' pos w := by
    refine Mem.load_congr fun i _ hhi => ?_
    have hin := hpos.inside
    exact (Mem.write_other (.inl (by omega))).trans (hheaded.data i (by omega))
  rw [hsame, ← hload pos w hpos]
  split
  · rename_i heq
    rw [heq]
  · rename_i hne
    exact (Mem.flip_load hne).symm

theorem Session.Front.saved (h : ses.Front e e' body overhead n (c ++ rest))
    (hlen : (c.length : ℤ) = ses.asked) (hf : Fragments ses.routing_used) (hn : ses.frag_num > 1) :
    ∃ hdr : Mem, (fill_packet e (ses.put c)).save_hdr = hdr.bytes 0 28 ∧
      ∀ pos w, Copied pos w → hdr.load e pos w = Client.word e' body pos w := by
  have hsave := fill_packet_save (e := e) (show Fragments (ses.put c).routing_used from hf) hn
  by_cases hidx : ses.frag_idx = 0
  · rw [if_pos (show (ses.put c).frag_idx = 0 from hidx)] at hsave
    have hfrom : (ses.put c).From e e' := h.from_
    exact ⟨_, hsave, fun pos w hpos =>
      (native_load hfrom hpos).trans (h.word hlen hidx hpos.inside)⟩
  · rw [if_neg (show ¬(ses.put c).frag_idx = 0 from hidx)] at hsave
    obtain ⟨-, hdr, hheaded, hload⟩ := h.later hidx
    exact ⟨hdr, hsave.trans hheaded.saved, hload⟩

theorem piecewise_front (d : Daemon δ) (e e' : Endian) (body : List UInt8) (overhead n : ℤ) :
    Piecewise e d (Session.Front e e' body overhead n) (Session.Piece e e' body overhead n) := by
  constructor
  · intro ses c rest h hlen hf hm
    have hfrom : (ses.put c).From e e' := h.from_
    have hcut := hm.cut hf
    have hfrag := packet_fragment (e := e) (ses.put c) hf hcut hm.hi
    rw [show (ses.put c).frag_num = n from h.frag_num,
      show (ses.put c).frag_idx = ses.frag_idx from rfl] at hfrag
    refine ⟨hfrag, fun pos w hpos => ?_, fun hone => ?_, ?_,
      (packet_overhead e _).trans h.overhead⟩
    · rw [packet_copied hfrom hpos]
      by_cases hidx : ses.frag_idx = 0
      · rw [if_pos (.inl hidx)]
        exact h.word hlen hidx hpos.inside
      · rw [h.piece_load hidx hpos]
        simp only [hidx, false_or]
    · have hnum : ¬(ses.put c).frag_num > 1 := h.frag_num.symm ▸ hone
      have hidx : ses.frag_idx = 0 := by
        have hlt : 0 ≤ ses.frag_idx ∧ ses.frag_idx < (ses.put c).frag_num := hcut.idx
        omega
      exact (packet_len_whole hfrom hnum).trans (h.word hlen hidx (by decide))
    · rw [packet_read_len, hcut.read, show (ses.put c).overhead = overhead from h.overhead,
        show (ses.put c).total_len = body.length from h.total_len]
      rfl
  · intro ses c rest s h hlen hf hm hmore honward
    have hidx := (hm.cut hf).idx
    obtain ⟨hdr, hsave, hload⟩ := h.saved hlen hf (by omega)
    obtain ⟨-, -, -, hend, -⟩ := next_piece_fields ((fill_packet e (ses.put c)).after
      (d.Process_Session_Packet s (packet e (ses.put c))))
    have hnext := honward.frag_idx
    rw [show (ses.put c).frag_idx = ses.frag_idx from rfl] at hnext
    refine ⟨?_, honward.overhead.trans h.overhead, honward.total_len.trans h.total_len,
      honward.frag_num.trans h.frag_num, fun hzero => by omega, fun _ => ⟨?_, hdr, ?_, hload⟩⟩
    · rw [Session.From, hend, fill_packet_eq]
      exact h.from_
    · have hcome := honward.partial_len
      have hover := overhead_bounds (ses.put c)
      omega
    · have hmore' : (ses.put c).frag_idx + 1 ≠ (ses.put c).frag_num := hmore
      exact next_piece_headed _ hmore' hsave

/-- Of what `Process_Session_Packet` does, commands alone change `seq_no`. -/
def Daemon.Numbers (e : Endian) (d : Daemon δ) : Prop :=
  ∀ s ses, ¬ses.command e → (d.Process_Session_Packet s ses).seq_no = ses.seq_no

def Session.Numbered (e : Endian) (n sess_id : ℕ) (p : Session) : Prop :=
  p.data.load e 18 2 = n ∧ p.data.load e 20 2 = sess_id

theorem packet_numbered (hlt : ses.seq_no < 10000) :
    (packet e ses).Numbered e ses.seq_no (ses.sess_id % 2 ^ 16) := by
  have hcut (ses : Session) : (cut_header e ses).seq_no = ses.seq_no ∧
      (cut_header e ses).sess_id = ses.sess_id := by
    unfold cut_header
    split <;> exact ⟨rfl, rfl⟩
  unfold Session.Numbered packet fill_packet
  dsimp only
  rw [Mem.load_store (show _ % 2 ^ 16 < 256 ^ 2 from Nat.mod_lt _ (by decide)), (hcut _).2]
  iterate 3 rw [Mem.load_store_other (by omega)]
  rw [(hcut _).1]
  split
  · exact ⟨Mem.load_store (by omega), rfl⟩
  · exact ⟨Mem.load_store (show ses.seq_no < 256 ^ 2 by omega), rfl⟩

theorem piecewise_numbered (d : Daemon δ) (e : Endian) {n sess_id : ℕ} (hlt : n < 10000) :
    Piecewise e d (fun ses _ => d.Numbers e → ses.seq_no = n ∧ ses.sess_id = sess_id)
      fun _ p => d.Numbers e → p.Numbered e n (sess_id % 2 ^ 16) := by
  constructor
  · intro ses c rest h _ _ _ hnumbers
    obtain ⟨rfl, rfl⟩ := h hnumbers
    exact packet_numbered (show (ses.put c).seq_no < _ from hlt)
  · intro ses c rest s h _ hf hm hmore _ hnumbers
    have hidx := (hm.cut hf).idx
    have hcut : (ses.put c).Cut := (show (ses.put c).InMessage from hm.moved c 0).cut hf
    have hn : (ses.put c).frag_num > 1 := show ses.frag_num > 1 by omega
    have hsame := hnumbers s (packet e (ses.put c)) (packet_not_command hf hcut hn)
    have hpacket : (packet e (ses.put c)).seq_no = ses.seq_no := by
      rw [packet, fill_packet_eq]
      rfl
    rw [fill_packet_eq, next_piece_more hmore]
    exact ⟨(hsame.trans hpacket).trans (h hnumbers).1, (h hnumbers).2⟩

end Pieces

/-! ## 3. A message -/

structure Handed (e e' : Endian) (body : List UInt8) (overhead : ℤ) (frags : List Session) :
    Prop where
  length : (frags.length : ℤ) = max 1 ((body.length - overhead + 1127) / 1128)
  piece : ∀ (i : ℕ) p, frags[i]? = some p → p.Piece e e' body overhead frags.length i
  payload : frags.flatMap Session.payload = body.drop overhead.toNat

section Message

variable {δ : Type} {e e' : Endian} {d : Daemon δ} {st st' : Reader δ} {ses : Session}
  {body : List UInt8} {cs : List (List UInt8)}

theorem behind_length (hbetween : st.ses.Between) (hknown : Known st.ses.routing_used)
    (hfrom : st.ses.From e e') (hfits : FitsSession st.ses body)
    (hrun : Takes (Session_Read e d) (Meets e d) st cs st') (hcs : cs.flatten = message e' body) :
    ∃ st1, st1.ses = expect_data (set_up
        { st.ses.put (e'.order (le_bytes 4 body.length)) with total_len := body.length }) ∧
      st1.ses.closed = false ∧ st1.ses.Ready ∧ st1.handed = st.handed ∧
      Takes (Session_Read e d) (Meets e d) st1 (body.map fun b => [b]) st' := by
  obtain ⟨st1, hfirst, hses, hopen, hready, hhanded⟩ :=
    length_taken (d := d) hbetween hknown hfrom hfits
  cases hfirst with
  | cons hne hgood hread hnil =>
    cases hnil
    obtain ⟨-, hrest⟩ := hrun.regroup session_read_splits hne hcs hread
    exact ⟨st1, hses, hopen, hready, hhanded, hrest⟩

/-- **One message** of a client of either byte order. -/
theorem message_handed (hkeeps : d.Keeps e) (hbetween : st.ses.Between)
    (hf : Fragments st.ses.routing_used) (hfrom : st.ses.From e e')
    (hfits : FitsSession st.ses body) (hrun : Takes (Session_Read e d) (Meets e d) st cs st')
    (hcs : cs.flatten = message e' body) (hend : st'.ses.closed = false) :
    ∃ frags, st'.handed = st.handed ++ frags ∧ Handed e e' body st.ses.overhead frags ∧
      (d.Numbers e → ∀ p ∈ frags,
        p.Numbered e (expect_data st.ses).seq_no (st.ses.sess_id % 2 ^ 16)) := by
  obtain ⟨st1, hses, hopen, hready, hhanded, hrun1⟩ :=
    behind_length hbetween (.inl hf) hfrom hfits hrun hcs
  have hset := set_up_fields { st.ses.put (e'.order (le_bytes 4 body.length)) with
    total_len := body.length }
  have hf' : Fragments ({ st.ses.put (e'.order (le_bytes 4 body.length)) with
      total_len := body.length } : Session).routing_used := hf
  obtain ⟨hstart, hpos, -, hidx, hover⟩ := expect_data_starts hf'
  rw [← hses] at hstart hpos hidx hover
  have hstate : st1.ses.state = .READY_DATA := by
    rw [hses]
    rfl
  have htotal : st1.ses.total_len = body.length := by
    rw [hses]
    exact hset.2.1
  have hf1 : Fragments st1.ses.routing_used := by
    rw [hses]
    exact hset.1.symm ▸ hf
  have hfrom1 : st1.ses.From e e' := by
    rw [Session.From, hses]
    exact (congrArg (Same_endian e) (set_up_endianess _)).trans hfrom
  have hover1 : st1.ses.overhead = st.ses.overhead := hover
  have hcut : st1.ses.Cut := by
    have hready' := hready
    unfold Session.Ready at hready'
    rw [if_pos hstate] at hready'
    exact hready'.1.cut hf1
  have hnum := hcut.num
  rw [hover1, htotal] at hnum
  have hfront : st1.ses.Front e e' body st.ses.overhead st1.ses.frag_num body := by
    have hheader := (hready.piece hstate hf1 (hstart.trans (congrArg Nat.cast hpos.symm))).2.1
    have hbounds := overhead_bounds st1.ses
    exact ⟨hfrom1, hover1, htotal, rfl, fun _ => ⟨rfl, hpos, by omega⟩, fun hne => absurd hidx hne⟩
  have hlt : (expect_data st.ses).seq_no < 10000 := by
    unfold expect_data
    dsimp only
    split <;> omega
  have hnumber : st1.ses.seq_no = (expect_data st.ses).seq_no ∧ st1.ses.sess_id = st.ses.sess_id := by
    rw [hses]
    unfold expect_data set_up
    dsimp only
    split
    · exact ⟨rfl, rfl⟩
    · split <;> exact ⟨rfl, rfl⟩
  obtain hclosed | ⟨-, frags, hg, hcount, -, hall, hconcat⟩ :=
    message_pieces ((piecewise_front d e e' body _ _).and (piecewise_numbered d e hlt)) hkeeps hses
      hf' hopen hready ⟨hfront, fun _ => hnumber⟩ rfl (flatMap_singleton' body) hrun1
  · rw [hclosed] at hend
    cases hend
  rw [hhanded] at hg
  refine ⟨frags, hg, ⟨hcount.trans hnum, fun i p hp => ?_, hconcat⟩, fun hnumbers p hp => ?_⟩
  · have hpiece := (hall i p hp).1
    rwa [← hcount] at hpiece
  · obtain ⟨i, hi⟩ := mem_iff_getElem?.mp hp
    exact (hall i p hi).2 hnumbers

end Message

/-! ## 4. Two clients -/

structure SameMessage (e e' : Endian) (body body' : List UInt8) : Prop where
  length : body'.length = body.length
  words : ∀ pos w, Copied pos w ∨ (pos, w) = (16, 2) → word e' body' pos w = word e body pos w

/-- Fragments with the same `source`, `dest`, ports, `len`, `ttl`, `routing`, `frag_num` and
`frag_idx`. -/
def SameFields (e : Endian) (p p' : Session) : Prop :=
  ∀ pos w, Copied pos w ∨ (pos, w) = (16, 2) ∨ (pos, w) = (22, 1) ∨ (pos, w) = (23, 1) →
    p'.data.load e pos w = p.data.load e pos w

structure SameFragments (e : Endian) (frags frags' : List Session) : Prop where
  length : frags'.length = frags.length
  fields : ∀ (i : ℕ) p p', frags[i]? = some p → frags'[i]? = some p' → SameFields e p p'

def Unflipped (e : Endian) (body : List UInt8) : Prop :=
  ∀ pos w, Address pos w → flip_word w (word e body pos w) = word e body pos w

section Clients

variable {δ : Type} {e e' : Endian} {d : Daemon δ} {body body' : List UInt8} {overhead : ℤ}
  {frags frags' : List Session}

theorem flip_byte {x : ℕ} (h : x < 256) : flip_word 1 x = x := by
  have hlow : (UInt8.ofNat x).toNat = x % 256 := by simp
  rw [flip_word, le_bytes, le_bytes, reverse_singleton, le_value, le_value, hlow]
  omega

theorem word_lt (e : Endian) (body : List UInt8) (pos w : ℕ) : word e body pos w < 256 ^ w :=
  load_lt _ _ _ _

theorem flip_copied (h : Unflipped e body) {pos w : ℕ} (hpos : Copied pos w) :
    flip_word w (word e body pos w) = word e body pos w := by
  obtain hpos | hpos | hpos := hpos
  · exact h pos w hpos
  all_goals
    obtain ⟨rfl, rfl⟩ := Prod.mk.inj hpos
    exact flip_byte (word_lt e body _ 1)

theorem same_fragments (hne : e ≠ e') (hsame : SameMessage e e' body body')
    (h : Handed e e body overhead frags) (h' : Handed e e' body' overhead frags') :
    SameFragments e frags frags' ↔ (body.length : ℤ) ≤ overhead + 1128 ∨ Unflipped e body := by
  have hlength : frags'.length = frags.length := by
    have hcount := h.length
    have hcount' := h'.length
    rw [hsame.length] at hcount'
    omega
  -- behind the first fragment one of the two is flipped once more
  have hcopied : ∀ {i : ℕ} {p p'}, frags[i]? = some p → frags'[i]? = some p' → ∀ {pos w},
      Copied pos w → p.data.load e pos w = word e body pos w ∧ p'.data.load e pos w =
        if i = 0 then word e body pos w else flip_word w (word e body pos w) := by
    intro i p p' hp hp' pos w hpos
    have hfirst := (h.piece i p hp).copied pos w hpos
    have hsecond := (h'.piece i p' hp').copied pos w hpos
    rw [hsame.words pos w (.inl hpos)] at hsecond
    simp only [or_true, if_true] at hfirst
    simp only [hne, or_false, Nat.cast_eq_zero] at hsecond
    exact ⟨hfirst, hsecond⟩
  constructor
  · intro hfields
    by_contra hnot
    rw [not_or, not_le] at hnot
    obtain ⟨hlong, hflips⟩ := hnot
    apply hflips
    intro pos w hpos
    have hmany : 1 < frags.length := by
      have hcount := h.length
      omega
    obtain ⟨p, hp⟩ : ∃ p, frags[1]? = some p :=
      ⟨_, List.getElem?_eq_getElem hmany⟩
    obtain ⟨p', hp'⟩ : ∃ p', frags'[1]? = some p' :=
      ⟨_, List.getElem?_eq_getElem (hlength.symm ▸ hmany)⟩
    have heq := hfields.fields 1 p p' hp hp' pos w (.inl (.inl hpos))
    obtain ⟨hload, hload'⟩ := hcopied hp hp' (.inl hpos)
    rw [hload, hload', if_neg one_ne_zero] at heq
    exact heq
  · intro hcond
    refine ⟨hlength, fun i p p' hp hp' pos w hpos => ?_⟩
    have hpiece := h.piece i p hp
    have hpiece' := h'.piece i p' hp'
    obtain hpos | hpos | hpos := hpos
    · obtain ⟨hload, hload'⟩ := hcopied hp hp' hpos
      rw [hload, hload']
      split
      · rfl
      · have hlt := (List.getElem?_eq_some_iff.mp hp).1
        refine flip_copied (hcond.resolve_left fun hshort => ?_) hpos
        have hcount := h.length
        omega
    · obtain ⟨rfl, rfl⟩ := Prod.mk.inj hpos
      by_cases hmany : (frags.length : ℤ) > 1
      · have hlen := hpiece.fragment.len hmany
        have hlen' := hpiece'.fragment.len (hlength.symm ▸ hmany)
        rw [hpiece.read_len] at hlen
        rw [hpiece'.read_len, hsame.length] at hlen'
        omega
      · rw [hpiece.len_whole hmany, hpiece'.len_whole (hlength.symm ▸ hmany)]
        exact hsame.words 16 2 (.inr rfl)
    · have hnum := hpiece.fragment.num
      have hnum' := hpiece'.fragment.num
      have hidx := hpiece.fragment.idx
      have hidx' := hpiece'.fragment.idx
      obtain hpos | hpos := hpos
      all_goals
        obtain ⟨rfl, rfl⟩ := Prod.mk.inj hpos
        omega

/-- **A client of the other byte order**: its message becomes the fragments that a client of the
daemon's byte order gets if it is one fragment, or flipping does nothing to it. -/
theorem foreign_fragments (hkeeps : d.Keeps e) (hne : e ≠ e') {st st' st1 st1' : Reader δ}
    (hbetween : st.ses.Between) (hbetween' : st'.ses.Between)
    (hf : Fragments st.ses.routing_used) (hf' : Fragments st'.ses.routing_used)
    (hkind : st'.ses.r_data = st.ses.r_data) (hfrom : st.ses.From e e) (hfrom' : st'.ses.From e e')
    (hfits : FitsSession st.ses body) (hsame : SameMessage e e' body body')
    {cs cs' : List (List UInt8)} (hrun : Takes (Session_Read e d) (Meets e d) st cs st1)
    (hcs : cs.flatten = message e body) (hend : st1.ses.closed = false)
    (hrun' : Takes (Session_Read e d) (Meets e d) st' cs' st1')
    (hcs' : cs'.flatten = message e' body') (hend' : st1'.ses.closed = false) :
    ∃ frags frags', st1.handed = st.handed ++ frags ∧ st1'.handed = st'.handed ++ frags' ∧
      (SameFragments e frags frags' ↔
        (body.length : ℤ) ≤ st.ses.overhead + 1128 ∨ Unflipped e body) := by
  have hover : st'.ses.overhead = st.ses.overhead := by rw [overhead_eq, overhead_eq, hkind]
  have hfits' : FitsSession st'.ses body' := by
    obtain ⟨hroom, hsize⟩ := hfits
    constructor
    · rw [hsame.length, hover]
      exact hroom
    · rw [hsame.length]
      exact hsize
  obtain ⟨frags, hg, hhanded, -⟩ := message_handed hkeeps hbetween hf hfrom hfits hrun hcs hend
  obtain ⟨frags', hg', hhanded', -⟩ :=
    message_handed hkeeps hbetween' hf' hfrom' hfits' hrun' hcs' hend'
  rw [hover] at hhanded'
  exact ⟨frags, frags', hg, hg', same_fragments hne hsame hhanded hhanded'⟩

end Clients

/-- A message to port 8500 of 10.0.0.1, with `n` bytes of data. -/
def client_message (e : Endian) (n : ℕ) : List UInt8 :=
  replicate 4 0 ++ e.order (le_bytes 4 0x0A000001) ++ replicate 4 0 ++
    e.order (le_bytes 2 8400) ++ e.order (le_bytes 2 8500) ++ e.order (le_bytes 2 n) ++
    replicate 10 0 ++ replicate n 7

theorem idle_between (e : Endian) : (idle_reader e false).ses.Between := ⟨rfl, rfl, rfl, rfl⟩

theorem idle_from (e : Endian) : (idle_reader e false).ses.From .little e :=
  same_endian_iff .little e

theorem client_message_fits (e : Endian) {n : ℕ} (hn : n ≤ MAX_SPINES_CLIENT_MSG) :
    FitsSession (idle_reader e false).ses (client_message e n) := by
  have hlen : (client_message e n).length = 28 + n := by
    simp [client_message]
    omega
  constructor
  · rw [hlen, show (idle_reader e false).ses.overhead = 28 from rfl]
    omega
  · rw [hlen, show sizeof_udp_header = 28 from rfl]
    omega

theorem client_message_read (e : Endian) {n : ℕ} (hn : n ≤ MAX_SPINES_CLIENT_MSG) :
    ∃ cs st1, cs.flatten = message e (client_message e n) ∧
      Takes (Session_Read .little idle) (Meets .little idle) (idle_reader e false) cs st1 ∧
      st1.ses.closed = false ∧ Handed .little e (client_message e n) 28 st1.handed := by
  obtain ⟨cs, st1, hcs, hrun, hbetween, -⟩ := message_parsed (idle_serves .little)
    (idle_between e) (.inl (.inl rfl)) (idle_from e) (client_message_fits e hn)
  obtain ⟨frags, hg, hhanded, -⟩ := message_handed (idle_serves .little).keeps (idle_between e)
    (.inl rfl) (idle_from e) (client_message_fits e hn) hrun hcs hbetween.closed
  exact ⟨cs, st1, hcs, hrun, hbetween.closed, hg ▸ hhanded⟩

theorem client_message_len (e : Endian) {n : ℕ} (hn : n < 2 ^ 16) :
    word e (client_message e n) 16 2 = n := by
  have hroom : 16 + 2 ≤ (client_message e n).length := by
    simp [client_message]
    omega
  have hslice := Mem.bytes_write_slice (fun _ => 0) 0 16 2 hroom
  rw [zero_add] at hslice
  have hlen : ((client_message e n).drop 16).take 2 = e.order (le_bytes 2 n) := by
    have hpart : client_message e n = (replicate 4 0 ++ e.order (le_bytes 4 0x0A000001) ++
        replicate 4 0 ++ e.order (le_bytes 2 8400) ++ e.order (le_bytes 2 8500)) ++
          (e.order (le_bytes 2 n) ++ (replicate 10 0 ++ replicate n 7)) := by
      simp only [client_message, append_assoc]
    rw [hpart, drop_left' (by simp), take_left' (by simp)]
  rw [word, Mem.load, hslice, hlen, Endian.order_order, le_value_bytes hn]

theorem client_message_same {n : ℕ} (hn : n < 2 ^ 16) :
    SameMessage .little .big (client_message .little n) (client_message .big n) := by
  constructor
  · simp [client_message]
  · rintro pos w (((h | h | h | h) | h | h) | h)
    all_goals obtain ⟨rfl, rfl⟩ := Prod.mk.inj h
    iterate 6 rfl
    rw [client_message_len _ hn, client_message_len _ hn]

theorem foreign_fragments_short : ∃ cs cs' st1 st1',
    cs.flatten = message .little (client_message .little 1) ∧
    cs'.flatten = message .big (client_message .big 1) ∧
    Takes (Session_Read .little idle) (Meets .little idle) (idle_reader .little false) cs st1 ∧
    Takes (Session_Read .little idle) (Meets .little idle) (idle_reader .big false) cs' st1' ∧
    SameFragments .little st1.handed st1'.handed := by
  obtain ⟨cs, st1, hcs, hrun, hend, -⟩ := client_message_read .little (n := 1) (by decide)
  obtain ⟨cs', st1', hcs', hrun', hend', -⟩ := client_message_read .big (n := 1) (by decide)
  obtain ⟨frags, frags', hg, hg', hiff⟩ := foreign_fragments (idle_serves .little).keeps
    (by decide : Endian.little ≠ .big) (idle_between .little) (idle_between .big) (.inl rfl)
    (.inl rfl) rfl (idle_from .little) (idle_from .big)
    (client_message_fits .little (by decide)) (client_message_same (by decide)) hrun hcs hend hrun'
    hcs' hend'
  refine ⟨cs, cs', st1, st1', hcs, hcs', hrun, hrun', ?_⟩
  rw [hg, hg']
  exact hiff.mpr (.inl (by decide +kernel))

/-- The second fragment of 1129 bytes goes to another address. -/
theorem foreign_fragments_astray : ∃ cs cs' st1 st1',
    cs.flatten = message .little (client_message .little 1129) ∧
    cs'.flatten = message .big (client_message .big 1129) ∧
    Takes (Session_Read .little idle) (Meets .little idle) (idle_reader .little false) cs st1 ∧
    Takes (Session_Read .little idle) (Meets .little idle) (idle_reader .big false) cs' st1' ∧
    st1.ses.closed = false ∧ st1'.ses.closed = false ∧
    ¬SameFragments .little st1.handed st1'.handed := by
  obtain ⟨cs, st1, hcs, hrun, hend, h⟩ := client_message_read .little (n := 1129) (by decide)
  obtain ⟨cs', st1', hcs', hrun', hend', h'⟩ := client_message_read .big (n := 1129) (by decide)
  refine ⟨cs, cs', st1, st1', hcs, hcs', hrun, hrun', hend, hend', fun hsame => ?_⟩
  obtain hshort | hflips :=
    (same_fragments (by decide) (client_message_same (by decide)) h h').mp hsame
  · exact absurd hshort (by decide +kernel)
  · exact absurd (hflips 4 4 (.inr (.inl rfl))) (by decide +kernel)

end Spines.Client
