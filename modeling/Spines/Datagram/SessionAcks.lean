/-
The ack tail of a reliable session (`daemon/reliable_session.c`): what `Reliable_Ses_Send`,
`Ses_Send_Much` and `Ses_Send_Ack` write, and what `Process_Sess_Ack` makes of it.

The writers put the missing numbers behind a tail of 12 bytes. The reader takes the 8 bytes of
a tail of a link off `ack_len`, so that it copies 4 bytes too many where there is room for them;
it turns the numbers of a sender of the other byte order after it has copied them, and the
advertised window never (`session_ack_exact_iff`).

`Deliver_Rel_UDP_Data` compares neither `data_len` nor `ack_len` with `len`, so that a packet has
to be as long as it says (`inside_iff`); `nack_buff` is never overrun (`Pending.length_le`). The
writers stop at the end of a packet where they count what is before the tail, without the trailer
of the link; `Ses_Send_Ack` counts nothing (`session_bytes_inside_iff`).
-/
import Spines.Datagram.Reads
import Spines.Datagram.RoundTrip
import Spines.IntruTol.Gate

set_option autoImplicit false

namespace Spines.Datagram

open Spines.Lib List
open Spines.IntruTol.Gate (Same_endian Is_hello_type)

/-! ## 1. The writers -/

def SIZEOF_RELIABLE_SES_TAIL : ℕ := 12

def Reliable_Data.ses_first_nack (r : Reliable_Data) (now i : ℕ) (a : Nacks) : Nacks :=
  if (a.recv_window (i % MAX_WINDOW)).flag = .empty ∧ r.recv_head - i > 4 then a.add now i else a

/-- One round of the loop. `Ses_Send_Much` has `if` before the second test (`again`), the
others `else if`. -/
def Reliable_Data.ses_nack_round (again : Bool) (r : Reliable_Data) (now i : ℕ) (a : Nacks) :
    Nacks :=
  if again then r.next_nack now i (r.ses_first_nack now i a)
  else if (a.recv_window (i % MAX_WINDOW)).flag = .empty then r.ses_first_nack now i a
  else r.next_nack now i a

def Reliable_Data.ses_add_nacks (again : Bool) (r : Reliable_Data) (now data_len : ℕ) :
    List ℕ → Nacks → Nacks
  | [], a => a
  | i :: is, a =>
    if PACKET_BODY - 4 < SIZEOF_RELIABLE_SES_TAIL + 4 * a.seqs.length + data_len then a
    else r.ses_add_nacks again now data_len is (r.ses_nack_round again now i a)

def Reliable_Data.misses (r : Reliable_Data) (now i : ℕ) : Bool :=
  match (r.recv_window (i % MAX_WINDOW)).flag with
  | .empty => r.recv_head - i > 4
  | .nack => r.overdue now (r.recv_window (i % MAX_WINDOW)).nack_sent
  | .received => false

def Reliable_Data.ses_nacks (reliable_links again : Bool) (r : Reliable_Data)
    (now data_len : ℕ) : List ℕ :=
  if reliable_links then [] else (r.ses_add_nacks again now data_len
    (range' r.recv_tail (r.recv_head - r.recv_tail)) ⟨r.recv_window, []⟩).seqs

def Reliable_Data.missing (reliable_links : Bool) (r : Reliable_Data) (now : ℕ) : ℕ :=
  if reliable_links then 0
  else (range' r.recv_tail (r.recv_head - r.recv_tail)).countP (r.misses now)

section Writers

variable {again : Bool} {r : Reliable_Data} {now data_len i : ℕ} {a : Nacks}

theorem ses_nack_round_eq
    (hsame : a.recv_window (i % MAX_WINDOW) = r.recv_window (i % MAX_WINDOW)) :
    r.ses_nack_round again now i a = if r.misses now i then a.add now i else a := by
  cases hflag : (r.recv_window (i % MAX_WINDOW)).flag with
  | empty =>
    have hnext : r.next_nack now i a = a := by simp [Reliable_Data.next_nack, hsame, hflag]
    by_cases hgap : r.recv_head - i > 4
    · -- the number that was just noted is not due again
      simp [Reliable_Data.ses_nack_round, Reliable_Data.ses_first_nack, Reliable_Data.misses, hsame,
        hflag, hgap, next_nack_add]
    · simp [Reliable_Data.ses_nack_round, Reliable_Data.ses_first_nack, Reliable_Data.misses, hsame,
        hflag, hgap, hnext]
  | nack => simp [Reliable_Data.ses_nack_round, Reliable_Data.ses_first_nack, Reliable_Data.misses,
      Reliable_Data.next_nack, hsame, hflag]
  | received => simp [Reliable_Data.ses_nack_round, Reliable_Data.ses_first_nack, Reliable_Data.misses,
      Reliable_Data.next_nack, hsame, hflag]

theorem ses_add_nacks_length {is : List ℕ} (hslots : (is.map (· % MAX_WINDOW)).Nodup)
    (hsame : ∀ i ∈ is, a.recv_window (i % MAX_WINDOW) = r.recv_window (i % MAX_WINDOW)) :
    (r.ses_add_nacks again now data_len is a).seqs.length =
      min (a.seqs.length + is.countP (r.misses now))
        (max a.seqs.length ((PACKET_BODY - SIZEOF_RELIABLE_SES_TAIL - data_len) / 4)) := by
  induction is generalizing a with
  | nil => simp [Reliable_Data.ses_add_nacks]
  | cons i is ih =>
    rw [map_cons, nodup_cons] at hslots
    rw [Reliable_Data.ses_add_nacks, countP_cons]
    split
    · rename_i hfull
      simp only [PACKET_BODY, SIZEOF_RELIABLE_SES_TAIL] at hfull ⊢
      omega
    · rename_i hroom
      rw [ses_nack_round_eq (hsame i mem_cons_self)]
      have hrest := fun j hj => hsame j (mem_cons_of_mem i hj)
      split
      · rw [ih hslots.2 fun j hj => ?_]
        · simp only [Nacks.add, length_append, length_singleton, PACKET_BODY,
            SIZEOF_RELIABLE_SES_TAIL] at hroom ⊢
          omega
        · refine (Function.update_of_ne (fun heq => hslots.1 ?_) ..).trans (hrest j hj)
          exact heq ▸ mem_map_of_mem hj
      · exact ih hslots.2 hrest

theorem ses_nacks_length (reliable_links : Bool)
    (hwindow : r.recv_head - r.recv_tail ≤ MAX_WINDOW) :
    (r.ses_nacks reliable_links again now data_len).length =
      min (r.missing reliable_links now)
        ((PACKET_BODY - SIZEOF_RELIABLE_SES_TAIL - data_len) / 4) := by
  rw [Reliable_Data.ses_nacks, Reliable_Data.missing]
  split
  · simp
  · rw [ses_add_nacks_length _ fun _ _ => rfl]
    · simp
    · refine (nodup_map_iff_inj_on (nodup_range' ..)).mpr fun i hi j hj heq => ?_
      rw [mem_range'_1] at hi hj
      simp only [MAX_WINDOW] at heq hwindow
      omega

end Writers

/-- `reliable_ses_tail` with the NACKs behind it. -/
structure Ses_Ack where
  seq_no : ℕ
  cummulative_ack : ℕ
  adv_win : ℕ
  nacks : List ℕ
  words : seq_no < 2 ^ 32 ∧ cummulative_ack < 2 ^ 32 ∧ adv_win < 2 ^ 32
  len_le : SIZEOF_RELIABLE_SES_TAIL + 4 * nacks.length ≤ PACKET_BODY

def Ses_Ack.ack_len (a : Ses_Ack) : ℕ := SIZEOF_RELIABLE_SES_TAIL + 4 * a.nacks.length

def Ses_Ack.bytes (cf : Conf) (a : Ses_Ack) : Bytes :=
  cf.int32 a.seq_no ++ cf.int32 a.cummulative_ack ++ cf.int32 a.adv_win ++ a.nacks.flatMap cf.int32

def Reliable_Data.ses_ack (reliable_links again : Bool) (r : Reliable_Data)
    (now data_len : ℕ) {seq_no adv_win : ℕ} (hwindow : r.recv_head - r.recv_tail ≤ MAX_WINDOW)
    (hwords : seq_no < 2 ^ 32 ∧ r.recv_tail < 2 ^ 32 ∧ adv_win < 2 ^ 32) : Ses_Ack where
  seq_no := seq_no
  cummulative_ack := r.recv_tail
  adv_win := adv_win
  nacks := r.ses_nacks reliable_links again now data_len
  words := hwords
  len_le := by
    rw [ses_nacks_length reliable_links hwindow]
    simp only [PACKET_BODY, SIZEOF_RELIABLE_SES_TAIL]
    omega

/-! ## 2. The reader -/

/-- What `Process_Sess_Ack` works on, with `nack_buff` up to `nack_len`. -/
structure Ses_Data where
  head : ℕ
  tail : ℕ
  adv_win : ℕ
  nack_buff : Bytes

def Ses_Data.to_copy (r : Ses_Data) (ack_len : ℕ) : ℕ :=
  if PACKET_BODY < r.nack_buff.length + ack_len - SIZEOF_RELIABLE_TAIL then
    PACKET_BODY - r.nack_buff.length
  else ack_len - SIZEOF_RELIABLE_TAIL

def Conf.turned (cf : Conf) (sender : Endian) (buf : Mem) (pos w : ℕ) : ℕ :=
  if cf.endian = sender then buf.load cf.endian pos w else flip_word w (buf.load cf.endian pos w)

/-- `Process_Sess_Ack` up to the cumulative ack: the sequence number and the cumulative ack
that it goes on with, and the session. -/
def Process_Sess_Ack (cf : Conf) (sender : Endian) (buf : Mem) (ack_len : ℕ) (r : Ses_Data) :
    ℕ × ℕ × Ses_Data :=
  let r' := if SIZEOF_RELIABLE_SES_TAIL < ack_len then
      { r with nack_buff := r.nack_buff ++ buf.bytes SIZEOF_RELIABLE_SES_TAIL (r.to_copy ack_len) }
    else r
  let cummulative_ack := cf.turned sender buf 4 4
  (cf.turned sender buf 0 4, cummulative_ack,
    if cummulative_ack ≤ r.head ∧ r.tail ≤ cummulative_ack then
      { r' with adv_win := buf.load cf.endian 8 4 }
    else r')

def Ses_Data.Current (r : Ses_Data) (a : Ses_Ack) : Prop :=
  a.cummulative_ack ≤ r.head ∧ r.tail ≤ a.cummulative_ack

/-- The reader takes what was sent: the words, and all NACKs or as many as there is room for. -/
structure Taken (cf : Conf) (a : Ses_Ack) (r : Ses_Data) (out : ℕ × ℕ × Ses_Data) : Prop where
  seq_no : out.1 = a.seq_no
  cummulative_ack : out.2.1 = a.cummulative_ack
  adv_win : r.Current a → out.2.2.adv_win = a.adv_win
  nacks : ∃ l, l <+: a.nacks ∧ out.2.2.nack_buff = r.nack_buff ++ l.flatMap cf.int32 ∧
    (l = a.nacks ∨ PACKET_BODY < out.2.2.nack_buff.length + 4)

/-- What is not turned has the same bytes in both byte orders, and of the NACKs there are none
or at least as many as there is room for. -/
def Undamaged (cf sender : Conf) (a : Ses_Ack) (r : Ses_Data) : Prop :=
  (r.Current a → sender.int32 a.adv_win = cf.int32 a.adv_win) ∧
    (a.nacks = [] ∨ PACKET_BODY - r.nack_buff.length ≤ 4 * a.nacks.length ∧
      ∀ n ∈ a.nacks.take ((PACKET_BODY - r.nack_buff.length) / 4), sender.int32 n = cf.int32 n)

section Reader

variable {cf sender : Conf} {buf : Mem} {a : Ses_Ack} {r : Ses_Data} {pos x : ℕ}

theorem load_eq_iff (h : buf.bytes pos 4 = sender.int32 x) (hx : x < 2 ^ 32) :
    buf.load cf.endian pos 4 = x ↔ sender.int32 x = cf.int32 x := by
  have hbytes : le_bytes 4 (buf.load cf.endian pos 4) = cf.endian.order (buf.bytes pos 4) :=
    le_bytes_value (by simp)
  constructor
  · intro hload
    rw [hload, h] at hbytes
    rw [show cf.int32 x = cf.endian.order (le_bytes 4 x) from rfl, hbytes, Endian.order_order]
  · intro hsame
    rw [Mem.load, h, hsame, Conf.int32, Endian.order_order, le_value_bytes hx]

theorem turned_eq (h : buf.bytes pos 4 = sender.int32 x) (hx : x < 2 ^ 32) :
    cf.turned sender.endian buf pos 4 = x := by
  have hload : buf.load sender.endian pos 4 = x := (load_eq_iff h hx).mpr rfl
  rw [Conf.turned]
  split
  · rename_i hsame
    rw [hsame, hload]
  · rename_i hdiffer
    rw [Mem.flip_load hdiffer, hload]

theorem flatMap_int32_eq_iff (l : List ℕ) :
    l.flatMap sender.int32 = l.flatMap cf.int32 ↔ ∀ n ∈ l, sender.int32 n = cf.int32 n := by
  refine ⟨fun h => ?_, flatMap_congr⟩
  induction l with
  | nil => simp
  | cons n l ih =>
    rw [flatMap_cons, flatMap_cons] at h
    obtain ⟨hfirst, hrest⟩ := append_inj h (by rw [int32_length, int32_length])
    exact forall_mem_cons.mpr ⟨hfirst, ih hrest⟩

theorem placed (hbuf : buf.bytes 0 a.ack_len = a.bytes sender) :
    buf.bytes 0 4 = sender.int32 a.seq_no ∧ buf.bytes 4 4 = sender.int32 a.cummulative_ack ∧
      buf.bytes 8 4 = sender.int32 a.adv_win ∧
      buf.bytes 12 (4 * a.nacks.length) = a.nacks.flatMap sender.int32 := by
  rw [Ses_Ack.ack_len, show SIZEOF_RELIABLE_SES_TAIL = 4 + 4 + 4 from rfl, Mem.bytes_add,
    Mem.bytes_add, Mem.bytes_add, Ses_Ack.bytes] at hbuf
  obtain ⟨hwords, hnacks⟩ := append_inj hbuf (by simp [int32_length])
  obtain ⟨hwords, hadv⟩ := append_inj hwords (by simp [int32_length])
  obtain ⟨hseq, hcum⟩ := append_inj hwords (by simp [int32_length])
  exact ⟨hseq, hcum, hadv, hnacks⟩

theorem first_nacks (hnacks : buf.bytes 12 (4 * a.nacks.length) = a.nacks.flatMap sender.int32)
    {j : ℕ} (hj : j ≤ a.nacks.length) :
    buf.bytes 12 (4 * j) = (a.nacks.take j).flatMap sender.int32 := by
  have hsplit : a.nacks.flatMap sender.int32 =
      (a.nacks.take j).flatMap sender.int32 ++ (a.nacks.drop j).flatMap sender.int32 := by
    rw [← flatMap_append, take_append_drop]
  rw [hsplit, show 4 * a.nacks.length = 4 * j + 4 * (a.nacks.length - j) by omega,
    Mem.bytes_add] at hnacks
  refine (append_inj hnacks ?_).1
  rw [Mem.bytes_length, nacks_length, length_take_of_le hj]

theorem copied_iff (hnacks : buf.bytes 12 (4 * a.nacks.length) = a.nacks.flatMap sender.int32)
    (hwhole : r.nack_buff.length % 4 = 0) (hle : r.nack_buff.length ≤ PACKET_BODY) :
    (∃ l, l <+: a.nacks ∧ buf.bytes 12 (r.to_copy a.ack_len) = l.flatMap cf.int32 ∧
      (l = a.nacks ∨ PACKET_BODY < r.nack_buff.length + r.to_copy a.ack_len + 4)) ↔
    PACKET_BODY - r.nack_buff.length ≤ 4 * a.nacks.length ∧
      ∀ n ∈ a.nacks.take ((PACKET_BODY - r.nack_buff.length) / 4),
        sender.int32 n = cf.int32 n := by
  have hbody : PACKET_BODY = 1452 := rfl
  obtain ⟨j, hj⟩ : ∃ j, PACKET_BODY - r.nack_buff.length = 4 * j :=
    ⟨(PACKET_BODY - r.nack_buff.length) / 4, by omega⟩
  have hcopy : r.to_copy a.ack_len =
      if j ≤ a.nacks.length then 4 * j else 4 * a.nacks.length + 4 := by
    rw [Ses_Data.to_copy, Ses_Ack.ack_len, SIZEOF_RELIABLE_SES_TAIL, SIZEOF_RELIABLE_TAIL]
    split <;> split <;> omega
  rw [hcopy]
  by_cases hfull : j ≤ a.nacks.length
  · rw [if_pos hfull, hj, Nat.mul_div_cancel_left j (by decide), first_nacks hnacks hfull]
    constructor
    · rintro ⟨l, hprefix, heq, -⟩
      have hlen := congrArg List.length heq
      rw [nacks_length, nacks_length, length_take_of_le hfull] at hlen
      have htake : l = a.nacks.take j := by
        rw [prefix_iff_eq_take.mp hprefix, show l.length = j by omega]
      rw [htake] at heq
      exact ⟨by omega, (flatMap_int32_eq_iff _).mp heq⟩
    · rintro ⟨-, hsame⟩
      exact ⟨_, take_prefix _ _, (flatMap_int32_eq_iff _).mpr hsame, .inr (by omega)⟩
  · refine iff_of_false ?_ (fun h => hfull (by omega))
    rintro ⟨l, hprefix, heq, -⟩
    have hlen := congrArg List.length heq
    have hshort := hprefix.length_le
    rw [nacks_length, Mem.bytes_length, if_neg hfull] at hlen
    omega

theorem processed_nack_buff (sender : Endian) (ack_len : ℕ) :
    (Process_Sess_Ack cf sender buf ack_len r).2.2.nack_buff = r.nack_buff ++
      if SIZEOF_RELIABLE_SES_TAIL < ack_len then
        buf.bytes SIZEOF_RELIABLE_SES_TAIL (r.to_copy ack_len)
      else [] := by
  rw [Process_Sess_Ack]
  split <;> split <;> simp

/-- **The reader takes what was sent exactly when nothing of the damage shows.** -/
theorem session_ack_exact_iff (hbuf : buf.bytes 0 a.ack_len = a.bytes sender)
    (hwhole : r.nack_buff.length % 4 = 0) (hle : r.nack_buff.length ≤ PACKET_BODY) :
    Taken cf a r (Process_Sess_Ack cf sender.endian buf a.ack_len r) ↔ Undamaged cf sender a r := by
  obtain ⟨hseq, hcum, hadv, hnacks⟩ := placed hbuf
  obtain ⟨hseq_lt, hcum_lt, hadv_lt⟩ := a.words
  have hturned : cf.turned sender.endian buf 4 4 = a.cummulative_ack := turned_eq hcum hcum_lt
  generalize hout : Process_Sess_Ack cf sender.endian buf a.ack_len r = out
  have hwindow : r.Current a → out.2.2.adv_win = buf.load cf.endian 8 4 := by
    intro hcurrent
    rw [← hout, Process_Sess_Ack, hturned]
    exact congrArg Ses_Data.adv_win (if_pos hcurrent)
  have hbuff : out.2.2.nack_buff = r.nack_buff ++
      if a.nacks = [] then [] else buf.bytes 12 (r.to_copy a.ack_len) := by
    have hsome : SIZEOF_RELIABLE_SES_TAIL < a.ack_len ↔ ¬a.nacks = [] := by
      rw [← length_eq_zero_iff, Ses_Ack.ack_len]
      omega
    rw [← hout, processed_nack_buff]
    by_cases hnil : a.nacks = []
    · rw [if_neg (hsome.not_left.mpr hnil), if_pos hnil]
    · rw [if_pos (hsome.mpr hnil), if_neg hnil]
      rfl
  have hadv_iff : (r.Current a → out.2.2.adv_win = a.adv_win) ↔
      (r.Current a → sender.int32 a.adv_win = cf.int32 a.adv_win) :=
    forall_congr' fun hcurrent => by rw [hwindow hcurrent, load_eq_iff hadv hadv_lt]
  have hlist := @copied_iff cf _ _ _ _ hnacks hwhole hle
  constructor
  · rintro ⟨-, -, hadv', hnacks'⟩
    refine ⟨hadv_iff.mp hadv', or_iff_not_imp_left.mpr fun hne => hlist.mp ?_⟩
    rw [hbuff, if_neg hne] at hnacks'
    simpa [add_assoc] using hnacks'
  · rintro ⟨hadv', hnacks'⟩
    rw [← hout] at *
    refine ⟨turned_eq hseq hseq_lt, hturned, hadv_iff.mpr hadv', ?_⟩
    by_cases hnil : a.nacks = []
    · exact ⟨[], nil_prefix, by rw [hbuff, if_pos hnil]; rfl, .inl hnil.symm⟩
    · have hcopied := hlist.mpr (hnacks'.resolve_left hnil)
      rw [hbuff, if_neg hnil]
      simpa [add_assoc] using hcopied

end Reader

def missing_ack (nacks : List ℕ) (h : SIZEOF_RELIABLE_SES_TAIL + 4 * nacks.length ≤ PACKET_BODY) :
    Ses_Ack :=
  ⟨8, 3, 1027, nacks, by decide, h⟩

/-- `buf` with that ack and zeros behind it. -/
def acked_buf (cf : Conf) (a : Ses_Ack) : Mem := Mem.write (fun _ => 0) 0 (a.bytes cf)

/-- There is room for one of the two NACKs. -/
theorem session_ack_exact_plain : ∃ r : Ses_Data, r.nack_buff.length = PACKET_BODY - 4 ∧
    Taken small_conf (missing_ack [5, 6] (by decide)) r (Process_Sess_Ack small_conf .little
      (acked_buf small_conf (missing_ack [5, 6] (by decide))) 20 r) :=
  ⟨⟨5, 2, 900, replicate _ 0⟩, length_replicate, (@session_ack_exact_iff small_conf small_conf _ _ _
    (by decide) (by rw [length_replicate]; decide) (by rw [length_replicate]; decide)).mpr
      ⟨fun _ => rfl, .inr ⟨by rw [length_replicate]; decide, fun _ _ => rfl⟩⟩⟩

/-- Message 5 is missing, and so is message 0 for the reader. -/
theorem session_ack_longer : ¬Taken small_conf (missing_ack [5] (by decide)) ⟨5, 2, 900, []⟩
    (Process_Sess_Ack small_conf .little (acked_buf small_conf (missing_ack [5] (by decide))) 16
      ⟨5, 2, 900, []⟩) := by
  rintro ⟨-, -, -, l, hprefix, hbuff, -⟩
  have hlen := congrArg List.length hbuff
  have hshort := hprefix.length_le
  rw [nil_append, nacks_length] at hlen
  have hcopied : (Process_Sess_Ack small_conf .little
      (acked_buf small_conf (missing_ack [5] (by decide))) 16 ⟨5, 2, 900, []⟩).2.2.nack_buff =
        [5, 0, 0, 0, 0, 0, 0, 0] := by decide
  rw [hcopied] at hlen
  simp only [missing_ack, length_cons, length_nil] at hlen hshort
  omega

/-! ## 3. What is read of a received packet -/

def SIZEOF_REL_UDP_PKT_ADD : ℕ := 8

/-- A packet for a connected session: `len` bytes, with whatever is behind them. -/
structure Ses_Packet where
  len : ℕ
  buf : Mem

def Ses_Packet.sender (cf : Conf) (p : Ses_Packet) : Endian :=
  if Same_endian cf.endian (p.buf.load cf.endian SIZEOF_UDP_HEADER 4) then cf.endian
  else match cf.endian with
    | .little => .big
    | .big => .little

def Ses_Packet.field (cf : Conf) (p : Ses_Packet) (pos width : ℕ) : ℕ :=
  cf.turned (p.sender cf) p.buf pos width

def Ses_Packet.data_len (cf : Conf) (p : Ses_Packet) : ℕ := p.field cf (SIZEOF_UDP_HEADER + 4) 2
def Ses_Packet.ack_len (cf : Conf) (p : Ses_Packet) : ℕ := p.field cf (SIZEOF_UDP_HEADER + 6) 2

/-- `Is_hello`, `Is_hello_discnct` or `Is_hello_close`. -/
def Ses_Packet.hello (cf : Conf) (p : Ses_Packet) : Bool :=
  Is_hello_type (p.field cf SIZEOF_UDP_HEADER 4)

def Ses_Packet.r_tail (cf : Conf) (p : Ses_Packet) : ℕ :=
  SIZEOF_UDP_HEADER + SIZEOF_REL_UDP_PKT_ADD + p.data_len cf

def Ses_Packet.current (cf : Conf) (r : Ses_Data) (p : Ses_Packet) : Bool :=
  p.field cf (p.r_tail cf + 4) 4 ≤ r.head ∧ r.tail ≤ p.field cf (p.r_tail cf + 4) 4

/-- The bytes of the numbers that are turned one by one, up to `ack_len`. -/
def Ses_Packet.turned (cf : Conf) (p : Ses_Packet) : ℕ :=
  if cf.endian = p.sender cf then 0 else (p.ack_len cf - SIZEOF_RELIABLE_SES_TAIL + 3) / 4 * 4

/-- What `Deliver_Rel_UDP_Data` and `Process_Sess_Ack` read, each as a place and a length. -/
def Ses_Packet.reads (cf : Conf) (r : Ses_Data) (p : Ses_Packet) : List (ℕ × ℕ) :=
  (SIZEOF_UDP_HEADER, SIZEOF_REL_UDP_PKT_ADD) :: if p.hello cf then [] else
    (p.r_tail cf, 8) :: ((if p.current cf r then [(p.r_tail cf + 8, 4)] else []) ++
      if SIZEOF_RELIABLE_SES_TAIL < p.ack_len cf then
        [(p.r_tail cf + SIZEOF_RELIABLE_SES_TAIL, r.to_copy (p.ack_len cf)),
          (p.r_tail cf + SIZEOF_RELIABLE_SES_TAIL, p.turned cf)]
      else [])

def Ses_Packet.Inside (cf : Conf) (r : Ses_Data) (p : Ses_Packet) : Prop :=
  ∀ x ∈ p.reads cf r, 0 < x.2 → x.1 + x.2 ≤ p.len

/-- How long a packet has to be: nothing compares its lengths with `len`. -/
def Ses_Packet.needed (cf : Conf) (r : Ses_Data) (p : Ses_Packet) : ℕ :=
  let copied := min (p.ack_len cf - 8) (PACKET_BODY - r.nack_buff.length)
  if p.hello cf then 36
  else 36 + p.data_len cf +
    if 12 < p.ack_len cf ∧ 0 < max copied (p.turned cf) then 12 + max copied (p.turned cf)
    else if p.current cf r then 12 else 8

/-- `nack_buff` in a run: it is sent, or an ack is processed, with any window. -/
inductive Pending (cf : Conf) : Bytes → Prop
  | sent : Pending cf []
  | acked (r : Ses_Data) (sender : Endian) (buf : Mem) (ack_len : ℕ) (h : Pending cf r.nack_buff) :
      Pending cf (Process_Sess_Ack cf sender buf ack_len r).2.2.nack_buff

/-! ## 4. The packets that are built -/

/-- Packets with `start` bytes before the tail, `data_len` of which the loop was told of; the link
adds `trailer` bytes. -/
def Reliable_Data.built (reliable_links again : Bool) (r : Reliable_Data)
    (now data_len start trailer : ℕ) : ℕ :=
  start + SIZEOF_RELIABLE_SES_TAIL + 4 * (r.ses_nacks reliable_links again now data_len).length +
    trailer

def Reliable_Data.data_built (reliable_links again : Bool) (r : Reliable_Data)
    (now data_len trailer : ℕ) : ℕ :=
  r.built reliable_links again now data_len data_len trailer

/-- `Ses_Send_Ack`: `data_len` is 0. -/
def Reliable_Data.ack_built (reliable_links : Bool) (r : Reliable_Data) (now trailer : ℕ) : ℕ :=
  r.built reliable_links false now 0 (SIZEOF_UDP_HEADER + SIZEOF_REL_UDP_PKT_ADD) trailer

section Sizes

variable {cf : Conf} {r : Reliable_Data} {ses : Ses_Data} {now : ℕ}

theorem to_copy_eq {ack_len : ℕ} (h : SIZEOF_RELIABLE_SES_TAIL < ack_len) :
    ses.to_copy ack_len = min (ack_len - 8) (PACKET_BODY - ses.nack_buff.length) := by
  simp only [SIZEOF_RELIABLE_SES_TAIL] at h
  rw [Ses_Data.to_copy, SIZEOF_RELIABLE_TAIL]
  split <;> omega

theorem inside_iff (p : Ses_Packet) : p.Inside cf ses ↔ p.needed cf ses ≤ p.len := by
  rw [Ses_Packet.Inside, Ses_Packet.reads, Ses_Packet.needed, forall_mem_cons]
  cases p.hello cf with
  | true => simp [SIZEOF_UDP_HEADER, SIZEOF_REL_UDP_PKT_ADD]
  | false =>
    by_cases hnacks : SIZEOF_RELIABLE_SES_TAIL < p.ack_len cf
    · rw [if_pos hnacks, to_copy_eq hnacks]
      generalize hc : min (p.ack_len cf - 8) (PACKET_BODY - ses.nack_buff.length) = copied
      generalize p.turned cf = turned
      simp only [SIZEOF_RELIABLE_SES_TAIL] at hnacks
      cases p.current cf ses <;>
        simp [Ses_Packet.r_tail, SIZEOF_UDP_HEADER, SIZEOF_REL_UDP_PKT_ADD,
          SIZEOF_RELIABLE_SES_TAIL, hnacks] <;> split <;> omega
    · rw [if_neg hnacks]
      simp only [SIZEOF_RELIABLE_SES_TAIL] at hnacks
      cases p.current cf ses <;>
        simp [Ses_Packet.r_tail, SIZEOF_UDP_HEADER, SIZEOF_REL_UDP_PKT_ADD, hnacks] <;> omega

theorem Pending.length_le {nack_buff : Bytes} (h : Pending cf nack_buff) :
    nack_buff.length ≤ PACKET_BODY := by
  induction h with
  | sent => exact Nat.zero_le _
  | acked r sender buf ack_len _ ih =>
    rw [processed_nack_buff]
    split
    · rename_i hnacks
      rw [length_append, Mem.bytes_length, to_copy_eq hnacks]
      omega
    · simpa using ih

/-- **Received packets are read inside, and built packets fit, exactly when there is room.** -/
theorem session_bytes_inside_iff (p : Ses_Packet) (hpending : Pending cf ses.nack_buff)
    (hwindow : r.recv_head - r.recv_tail ≤ MAX_WINDOW) (reliable_links again : Bool)
    (data_len trailer : ℕ) :
    (p.Inside cf ses ↔ p.needed cf ses ≤ p.len) ∧
      (∀ sender buf ack_len,
        (Process_Sess_Ack cf sender buf ack_len ses).2.2.nack_buff.length ≤ PACKET_BODY) ∧
      (r.data_built reliable_links again now data_len trailer ≤ PACKET_BODY ↔
        data_len + 12 + trailer +
          4 * min (r.missing reliable_links now) ((1440 - data_len) / 4) ≤ PACKET_BODY) ∧
      (r.ack_built reliable_links now trailer ≤ PACKET_BODY ↔
        48 + trailer + 4 * r.missing reliable_links now ≤ PACKET_BODY) := by
  refine ⟨inside_iff p, fun sender buf ack_len => (hpending.acked _ sender buf ack_len).length_le,
    ?_, ?_⟩
  · rw [Reliable_Data.data_built, Reliable_Data.built, ses_nacks_length reliable_links hwindow,
      SIZEOF_RELIABLE_SES_TAIL, PACKET_BODY]
    omega
  · rw [Reliable_Data.ack_built, Reliable_Data.built, ses_nacks_length reliable_links hwindow,
      SIZEOF_RELIABLE_SES_TAIL, PACKET_BODY, SIZEOF_UDP_HEADER, SIZEOF_REL_UDP_PKT_ADD]
    omega

end Sizes

/-- An ack of `len` bytes that says there are 100 bytes before its tail. -/
def short_packet (len : ℕ) : Ses_Packet :=
  ⟨len, Mem.write (fun _ => 0) SIZEOF_UDP_HEADER [128, 0, 0, 128, 100, 0, 12, 0]⟩

/-- Nothing has come but the last of `n` packets. -/
def gaps (n : ℕ) : Reliable_Data where
  connected := true
  seq_no := 0
  msg_buff := []
  window_size := 1
  window := fun _ => none
  head := 0
  tail := 0
  recv_window := fun _ => ⟨.empty, 0⟩
  recv_head := n
  recv_tail := 0
  nack_buff := []
  rtt := 0

theorem session_bytes_inside_whole : (short_packet 148).Inside small_conf ⟨5, 0, 900, []⟩ ∧
    (gaps 300).ack_built false 9 8 ≤ PACKET_BODY := by
  obtain ⟨hinside, -, -, hfits⟩ := @session_bytes_inside_iff small_conf (gaps 300) ⟨5, 0, 900, []⟩ 9
    (short_packet 148) .sent (by decide) false false 0 8
  exact ⟨hinside.mpr (by decide), hfits.mpr (by decide +kernel)⟩

/-- The tail is 100 bytes behind the end, and an ack says that 360 numbers are missing. -/
theorem session_bytes_outside : ¬(short_packet 36).Inside small_conf ⟨5, 0, 900, []⟩ ∧
    ¬(gaps 400).ack_built false 9 0 ≤ PACKET_BODY := by
  refine ⟨fun h => absurd (h (136, 8) (by decide)) (by decide), ?_⟩
  rw [Reliable_Data.ack_built, Reliable_Data.built, ses_nacks_length false (by decide)]
  decide +kernel

end Spines.Datagram
