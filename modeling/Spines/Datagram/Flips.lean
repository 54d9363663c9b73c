/-
A packet from a daemon of the other byte order (`Read_UDP` of `daemon/network.c` and the handlers of
the links).

`Read_UDP` reverses the fields of `packet_header` and then, whatever the type says, the trailer in
words of 4 bytes, if it has 8 bytes or more. That is right for a `reliable_tail` with its NACKs and
for the `sb_header`. But a mask has no words, and the numbers of real-time links have 8 bytes; their
handlers reverse them once more. The type is handed on as `Read_UDP` has reversed it, and
`Process_Ack` and `Process_state_packet` reverse it again: they do not know an acknowledgement or a
protocol any more. `Unharmed` says for which packets all this makes no difference.

A packet is one that is sent, in the parts that `data_len` and `ack_len` divide it into, so the tests
of its lengths are left out. `Same_endian` compares the byte orders, whose bits the type is without.
-/
import Spines.StateFlood.Bounds

set_option autoImplicit false

namespace Spines.Datagram.Flips

open Spines.Lib Spines.IntruTol.Gate List
open Spines.StateFlood (Prot_Def Get_Prot_Def)

abbrev Bytes := List UInt8

/-! ## 1. Packets -/

/-- Numbers with their widths, as a host of byte order `o` writes them. -/
def fields (o : Endian) (fs : List (ℕ × ℕ)) : Bytes := fs.flatMap fun f => o.order (le_bytes f.1 f.2)

def words (w : ℕ) (xs : List ℕ) : List (ℕ × ℕ) := xs.map fun x => (w, x)

structure Packet_Header where
  type : ℕ
  sender_id : ℕ
  ctrl_link_id : ℕ
  data_len : ℕ
  ack_len : ℕ
  seq_no : ℕ
  type_lt : type < 2 ^ 32

def Packet_Header.fields (h : Packet_Header) : List (ℕ × ℕ) :=
  [(4, h.type), (4, h.sender_id), (4, h.ctrl_link_id), (2, h.data_len), (2, h.ack_len), (2, h.seq_no)]

/-- `udp_header` up to `sess_id`; the single bytes behind it count as data. -/
structure Udp_Header where
  source : ℕ
  dest : ℕ
  source_port : ℕ
  dest_port : ℕ
  len : ℕ
  seq_no : ℕ
  sess_id : ℕ

def Udp_Header.fields (h : Udp_Header) : List (ℕ × ℕ) :=
  [(4, h.source), (4, h.dest), (2, h.source_port), (2, h.dest_port), (2, h.len), (2, h.seq_no),
    (2, h.sess_id)]

/-- `sb_header` and the mask, whose size is a multiple of 8. -/
structure Sb_Header where
  source_incarnation : ℕ
  source_seq : ℕ
  mask : Bytes
  mask_size : mask.length % 8 = 0

def sb_bytes (o : Endian) : Option Sb_Header → Bytes
  | none => []
  | some sb => fields o (words 4 [sb.source_incarnation, sb.source_seq]) ++ sb.mask

/-- What is behind `packet_header`: control packets and the acknowledgements of a link of `mode`, with
a `reliable_tail`, and the packets of the links. A message that is routed by its source has a
dissemination header, which reliable links are not given. -/
inductive Body
  | control (mode : IntruTol.Gate.Link_Type) (data : Bytes) (seq_no cummulative_ack : ℕ)
    (nacks : List ℕ)
  | udp_data (hdr : Udp_Header) (data : Bytes) (sb : Option Sb_Header)
  | rel_udp_data (hdr : Udp_Header) (data : Bytes) (seq_no cummulative_ack : ℕ) (nacks : List ℕ)
  | realtime_data (hdr : Udp_Header) (data : Bytes) (seq_no : ℕ) (sb : Option Sb_Header)
  | realtime_nack (nacks : List ℕ)

structure Parts where
  header : Bytes
  front : Bytes
  trailer : Bytes
  deriving DecidableEq

def sent (o : Endian) (h : Packet_Header) (b : Body) : Parts :=
  let (front, trailer) : Bytes × Bytes := match b with
    | .control _ data seq_no cummulative_ack nacks =>
      (data, fields o (words 4 (seq_no :: cummulative_ack :: nacks)))
    | .udp_data hdr data sb => (fields o hdr.fields ++ data, sb_bytes o sb)
    | .rel_udp_data hdr data seq_no cummulative_ack nacks =>
      (fields o hdr.fields ++ data, fields o (words 4 (seq_no :: cummulative_ack :: nacks)))
    | .realtime_data hdr data seq_no sb =>
      (fields o hdr.fields ++ data, fields o [(8, seq_no)] ++ sb_bytes o sb)
    | .realtime_nack nacks => ([], fields o (words 8 nacks))
  ⟨fields o h.fields ++ [0, 0], front, trailer⟩

/-! ## 2. The receiver -/

/-- `Read_UDP` at a daemon of the other byte order; `none` when the packet is dropped. -/
def Read_UDP (p : Parts) : Option Parts :=
  let tail := if sizeof_reliable_tail ≤ p.trailer.length then
    Flip_rel_tail p.trailer p.trailer.length else some p.trailer
  tail.map fun tail => ⟨Flip_pack_hdr p.header, p.front, tail⟩

def Flip_udp_hdr (b : Bytes) : Bytes := flip_fields [4, 4, 2, 2, 2, 2, 2] b

/-- The handler of the packet. That of real-time data reverses the sequence number that it has read,
that of real-time NACKs its buffer. -/
def handler (b : Body) (p : Parts) : Parts :=
  match b with
  | .control .. => p
  | .udp_data .. | .rel_udp_data .. => { p with front := Flip_udp_hdr p.front }
  | .realtime_data .. => { p with front := Flip_udp_hdr p.front, trailer := flip_fields [8] p.trailer }
  | .realtime_nack .. =>
    { p with trailer := flip_fields (replicate (p.trailer.length / 8) 8) p.trailer }

/-- What is found out from the type: by `Process_Ack`, whether the packet is an acknowledgement, and
by `Process_state_packet`, whose states are in it. -/
structure Found where
  link_ack : Option Bool
  prot_def : Option (Option Prot_Def)
  deriving DecidableEq

/-- `Prot_process_scat` chooses the handler by `type`; what the handler looks at is `t`. -/
def found (b : Body) (type t : ℕ) : Found :=
  match b with
  | .control mode .. =>
    if Is_hello_type type then ⟨none, none⟩
    else match dispatch mode type with
      | some .Process_state_packet => ⟨some (Is_link_ack t), some (Get_Prot_Def t)⟩
      | some .Process_ack_packet => ⟨some (Is_link_ack t), none⟩
      | _ => ⟨none, none⟩
  | .rel_udp_data .. => ⟨some (Is_link_ack t), none⟩
  | _ => ⟨none, none⟩

/-- What a daemon of byte order `e` acts on when one of byte order `o` has sent the packet. Its type
is that of the header, which the handlers reverse when the sender has the other byte order. -/
def received (e o : Endian) (h : Packet_Header) (b : Body) : Option (Parts × Found) :=
  if e = o then
    let type := field e (sent o h b).header 0 4
    some (sent o h b, found b type type)
  else
    (Read_UDP (sent o h b)).map fun p =>
      let type := field e p.header 0 4
      (handler b p, found b type (Flip_int32 type))

/-! ## 3. Reversed fields -/

variable {e o : Endian}

theorem flip_append {ws ws' : List ℕ} {b b' : Bytes} (h : b.length = ws.sum) :
    flip_fields (ws ++ ws') (b ++ b') = flip_fields ws b ++ flip_fields ws' b' := by
  induction ws generalizing b with
  | nil => rw [length_eq_zero_iff.mp h]; rfl
  | cons w ws ih =>
    rw [sum_cons] at h
    rw [cons_append, flip_fields, flip_fields, take_append_of_le_length (by omega),
      drop_append_of_le_length (by omega), ih (by rw [length_drop]; omega), append_assoc]

theorem fields_length (fs : List (ℕ × ℕ)) : (fields o fs).length = (fs.map Prod.fst).sum := by
  simp [fields, length_flatMap]

theorem flip_fields_fields (hne : e ≠ o) (fs : List (ℕ × ℕ)) :
    flip_fields (fs.map Prod.fst) (fields o fs) = fields e fs := by
  induction fs with
  | nil => rfl
  | cons f fs ih =>
    have hfirst : flip_fields [f.1] (o.order (le_bytes f.1 f.2)) = e.order (le_bytes f.1 f.2) := by
      rw [order_of_ne hne, flip_fields, flip_fields, drop_of_length_le (by simp),
        take_of_length_le (by simp), append_nil]
    have hsplit := @flip_append [f.1] (fs.map Prod.fst) (o.order (le_bytes f.1 f.2)) (fields o fs)
      (by simp)
    rw [ih, hfirst] at hsplit
    exact hsplit

theorem map_words (w : ℕ) (xs : List ℕ) : (words w xs).map Prod.fst = replicate xs.length w := by
  rw [words, map_map, ← map_const']
  rfl

/-- Whoever reads the words of 4 bytes backwards reads the same. -/
def Symmetric (b : Bytes) : Prop := flip_fields (replicate (b.length / 4) 4) b = b

theorem flip_length (ws : List ℕ) (b : Bytes) : (flip_fields ws b).length = b.length := by
  induction ws generalizing b with
  | nil => rfl
  | cons w ws ih =>
    simp only [flip_fields, length_append, length_reverse, length_take, ih, length_drop]
    omega

theorem symmetric_order : ∀ {b : Bytes}, b.length = 8 → (Symmetric (o.order b) ↔ Symmetric b)
  | [x0, x1, x2, x3, x4, x5, x6, x7], _ => by
    cases o with
    | little => exact Iff.rfl
    | big =>
      simp [Symmetric, flip_fields, Endian.order, replicate]
      grind

theorem flip_number (hne : e ≠ o) (x : ℕ) {ws ws' : List ℕ} {b b' : Bytes} :
    flip_fields (8 :: ws') (flip_fields (4 :: 4 :: ws) (o.order (le_bytes 8 x) ++ b)) =
        e.order (le_bytes 8 x) ++ b' ↔
      Symmetric (le_bytes 8 x) ∧ flip_fields ws' (flip_fields ws b) = b' := by
  have hlen : (o.order (le_bytes 8 x)).length = 8 := by simp
  have hfour := @flip_append [4, 4] ws _ b hlen
  have height := @flip_append [8] ws' (flip_fields [4, 4] (o.order (le_bytes 8 x)))
    (flip_fields ws b) (by rw [flip_length, hlen]; rfl)
  have hrev : flip_fields [8] (flip_fields [4, 4] (o.order (le_bytes 8 x))) =
      (flip_fields [4, 4] (o.order (le_bytes 8 x))).reverse := by
    rw [flip_fields, flip_fields, drop_of_length_le (by rw [flip_length, hlen]),
      take_of_length_le (by rw [flip_length, hlen]), append_nil]
  rw [← symmetric_order (o := o) (le_bytes_length 8 x), Symmetric, hlen,
    show replicate (8 / 4) 4 = [4, 4] from rfl]
  rw [cons_append, cons_append, nil_append] at hfour
  rw [cons_append, nil_append, hrev] at height
  rw [hfour, height, order_of_ne hne]
  constructor
  · intro h
    obtain ⟨hx, hb⟩ := append_inj h (by rw [length_reverse, length_reverse, flip_length])
    exact ⟨reverse_inj.mp hx, hb⟩
  · rintro ⟨hx, hb⟩
    rw [hx, hb]

theorem flip_numbers (hne : e ≠ o) (xs : List ℕ) :
    flip_fields (replicate xs.length 8) (flip_fields (replicate (2 * xs.length) 4)
        (fields o (words 8 xs))) = fields e (words 8 xs) ↔
      ∀ x ∈ xs, Symmetric (le_bytes 8 x) := by
  induction xs with
  | nil => simp [fields, words, flip_fields]
  | cons x xs ih =>
    rw [forall_mem_cons, ← ih]
    exact flip_number hne x

/-! ## 4. Both byte orders -/

theorem words_flip (hne : e ≠ o) (xs : List ℕ) (b : Bytes) :
    flip_fields (replicate ((fields o (words 4 xs) ++ b).length / 4) 4) (fields o (words 4 xs) ++ b) =
      fields e (words 4 xs) ++ flip_fields (replicate (b.length / 4) 4) b := by
  have hlen : (fields o (words 4 xs)).length = 4 * xs.length := by
    rw [fields_length, map_words, sum_replicate_nat, mul_comm]
  rw [length_append, hlen, Nat.mul_add_div (by decide), replicate_add,
    flip_append (by simp [hlen, mul_comm]), ← map_words, flip_fields_fields hne]

theorem words_flip_nil (hne : e ≠ o) (xs : List ℕ) :
    flip_fields (replicate ((fields o (words 4 xs)).length / 4) 4) (fields o (words 4 xs)) =
      fields e (words 4 xs) := by
  simpa [flip_fields] using words_flip hne xs []

theorem sb_flip (hne : e ≠ o) (sb : Option Sb_Header) :
    flip_fields (replicate ((sb_bytes o sb).length / 4) 4) (sb_bytes o sb) = sb_bytes e sb ↔
      ∀ x ∈ sb, Symmetric x.mask := by
  cases sb with
  | none => simp [sb_bytes, flip_fields]
  | some sb => rw [sb_bytes, words_flip hne, sb_bytes, append_right_inj]; simp [Symmetric]

/-- The contents to which it does not matter in which way they are reversed. -/
def Contents_Unharmed : Body → Prop
  | .udp_data _ _ sb => ∀ x ∈ sb, Symmetric x.mask
  | .realtime_data _ _ seq_no sb => Symmetric (le_bytes 8 seq_no) ∧ ∀ x ∈ sb, Symmetric x.mask
  | .realtime_nack nacks => ∀ x ∈ nacks, Symmetric (le_bytes 8 x)
  | _ => True

/-- The type, reversed once more, is of the same use to the handler. -/
def Type_Unharmed (type : ℕ) : Body → Prop
  | .control mode .. => Is_hello_type type = true ∨
    match dispatch mode type with
    | some .Process_state_packet => Is_link_ack (Flip_int32 type) = Is_link_ack type ∧
      Get_Prot_Def (Flip_int32 type) = Get_Prot_Def type
    | some .Process_ack_packet => Is_link_ack (Flip_int32 type) = Is_link_ack type
    | _ => True
  | .rel_udp_data .. => Is_link_ack (Flip_int32 type) = Is_link_ack type
  | _ => True

structure Unharmed (h : Packet_Header) (b : Body) : Prop where
  contents : Contents_Unharmed b
  type : Type_Unharmed h.type b

theorem found_flipped (type : ℕ) (b : Body) :
    found b type (Flip_int32 type) = found b type type ↔ Type_Unharmed type b := by
  cases b with
  | control mode data seq_no cummulative_ack nacks =>
    rw [found, found, Type_Unharmed]
    by_cases hhello : Is_hello_type type = true
    · simp [hhello]
    · simp only [hhello, if_false, false_or, Bool.false_eq_true]
      split <;> simp
  | rel_udp_data hdr data seq_no cummulative_ack nacks => simp [found, Type_Unharmed]
  | udp_data hdr data sb => exact iff_of_true rfl trivial
  | realtime_data hdr data seq_no sb => exact iff_of_true rfl trivial
  | realtime_nack nacks => exact iff_of_true rfl trivial

/-- The states and the acknowledgements that a daemon sends are never taken for what they are: their
types have nothing in the byte that is looked at. -/
example : ¬Type_Unharmed 0x41000000 (.control .CONTROL_LINK [] 0 0 []) ∧
    ¬Type_Unharmed 0x42000000 (.control .CONTROL_LINK [] 0 0 []) ∧
    ¬Type_Unharmed LINK_ACK_TYPE (.control .CONTROL_LINK [] 0 0 []) ∧
    ¬Type_Unharmed LINK_ACK_TYPE (.control .RELIABLE_UDP_LINK [] 0 0 []) := by
  simp only [← found_flipped]
  decide

theorem sent_type (h : Packet_Header) (b : Body) : field e (sent e h b).header 0 4 = h.type := by
  have hfirst : ((sent e h b).header.drop 0).take 4 = e.order (le_bytes 4 h.type) := by
    simp only [sent, fields, Packet_Header.fields, flatMap_cons, append_assoc, drop_zero]
    exact take_left' (by simp)
  rw [field, hfirst, Endian.order_order, le_value_bytes h.type_lt]

theorem Read_UDP_sent (hne : e ≠ o) (h : Packet_Header) (b : Body) : Read_UDP (sent o h b) = some
    ⟨(sent e h b).header, (sent o h b).front, flip_fields
      (replicate ((sent o h b).trailer.length / 4) 4) (sent o h b).trailer⟩ := by
  have hheader : Flip_pack_hdr (sent o h b).header = (sent e h b).header := by
    have hsplit := @flip_append (h.fields.map Prod.fst) [] (fields o h.fields) [0, 0] (fields_length _)
    rwa [append_nil, flip_fields_fields hne] at hsplit
  have hsb : ∀ sb, (sb_bytes o sb).length % 4 = 0 ∧
      ((sb_bytes o sb).length = 0 ∨ 8 ≤ (sb_bytes o sb).length) := by
    rintro (_ | sb)
    · exact ⟨rfl, .inl rfl⟩
    · have hmask := sb.mask_size
      simp only [sb_bytes, length_append, fields_length, map_words, length_cons, length_nil,
        sum_replicate_nat]
      omega
  have hlen : (sent o h b).trailer.length % 4 = 0 ∧
      ((sent o h b).trailer.length = 0 ∨ sizeof_reliable_tail ≤ (sent o h b).trailer.length) := by
    cases b with
    | udp_data hdr data sb => exact hsb sb
    | realtime_data hdr data seq_no sb =>
      have hlast := hsb sb
      simp [sent, fields_length, sizeof_reliable_tail]
      omega
    | _ =>
      simp only [sent, fields_length, map_words, sum_replicate_nat, length_cons,
        sizeof_reliable_tail]
      omega
  rw [Read_UDP, hheader]
  rcases hlen.2 with hnone | hroom
  · rw [length_eq_zero_iff.mp hnone]
    rfl
  · rw [if_pos hroom, Flip_rel_tail, if_neg (not_lt.mpr hroom), if_pos hlen.1]
    rfl

theorem handler_sent (hne : e ≠ o) (h : Packet_Header) (b : Body) :
    handler b ⟨(sent e h b).header, (sent o h b).front, flip_fields
      (replicate ((sent o h b).trailer.length / 4) 4) (sent o h b).trailer⟩ = sent e h b ↔
      Contents_Unharmed b := by
  have hudp : ∀ (hdr : Udp_Header) data,
      Flip_udp_hdr (fields o hdr.fields ++ data) = fields e hdr.fields ++ data := by
    intro hdr data
    have hsplit := @flip_append (hdr.fields.map Prod.fst) [] (fields o hdr.fields) data
      (fields_length _)
    rwa [append_nil, flip_fields_fields hne] at hsplit
  cases b with
  | control mode data seq_no cummulative_ack nacks =>
    simp [handler, sent, Contents_Unharmed, words_flip_nil hne]
  | rel_udp_data hdr data seq_no cummulative_ack nacks =>
    simp [handler, sent, Contents_Unharmed, words_flip_nil hne, hudp]
  | udp_data hdr data sb => simp [handler, sent, Contents_Unharmed, sb_flip hne, hudp]
  | realtime_data hdr data seq_no sb =>
    have hnumber := @flip_number e o hne seq_no (replicate ((sb_bytes o sb).length / 4) 4) []
      (sb_bytes o sb) (sb_bytes e sb)
    rw [flip_fields, sb_flip hne] at hnumber
    have hone : ∀ o : Endian, fields o [(8, seq_no)] = o.order (le_bytes 8 seq_no) := by simp [fields]
    have hlen : (8 + (sb_bytes o sb).length) / 4 = (sb_bytes o sb).length / 4 + 2 := by omega
    simpa [handler, sent, Contents_Unharmed, hudp, hone, hlen, replicate_succ] using hnumber
  | realtime_nack nacks =>
    have hlen : (fields o (words 8 nacks)).length / 4 = 2 * nacks.length ∧
        (fields o (words 8 nacks)).length / 8 = nacks.length := by
      rw [fields_length, map_words, sum_replicate_nat]
      omega
    simpa [handler, sent, Contents_Unharmed, flip_length, hlen] using flip_numbers hne nacks

theorem type_mod_lt (type : ℕ) : type % 2 ^ 32 < 2 ^ 32 := Nat.mod_lt type (Nat.two_pow_pos 32)

def header (type : ℕ) : Packet_Header := ⟨type % 2 ^ 32, 7, 1, 21, 12, 1, type_mod_lt type⟩

end Spines.Datagram.Flips
