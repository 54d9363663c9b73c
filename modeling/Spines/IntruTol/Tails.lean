/-
Which acknowledgement tail an intrusion-tolerant packet is judged by
(`Process_intru_tol_data_packet`, `Process_intru_tol_ack_packet` and
`Process_IT_Ack` of `daemon/intrusion_tol_udp.c`, the size check of
`Prot_process_scat`).

Here the packet is the bytes received, and the tail is read off them at some position. A data packet
is compared and processed at the same position. An ack is compared at the
start of the buffer and processed after its data, and nothing keeps an ack
from carrying data (`tail_checked_iff`).
-/
import Spines.IntruTol.Window
import Spines.Lib.Bytes

set_option autoImplicit false

namespace Spines.IntruTol

open Spines.Lib

/-! ## 1. The bytes of a packet -/

inductive ItType
  | INTRU_TOL_DATA_TYPE
  | INTRU_TOL_ACK_TYPE
  deriving DecidableEq, Repr

/-- What is left of a packet behind its `packet_header`: the two lengths of
that header, and `scat->elements[1]`. -/
structure Received where
  data_len : ℕ
  ack_len : ℕ
  len : ℕ
  buf : Mem

/-- The check of `Prot_process_scat`. -/
def Received.sizes_ok (p : Received) : Prop := p.len = p.data_len + p.ack_len

/-- `(intru_tol_pkt_tail*)(buff + pos)`. Nothing is flipped on this link. -/
def read_tail (o : Endian) (buff : Mem) (pos : ℕ) : PktTail where
  link_seq := buff.load o pos 8
  seq_nonce := BitVec.ofNat 64 (buff.load o (pos + 8) 8)
  aru := buff.load o (pos + 16) 8
  aru_nonce := BitVec.ofNat 64 (buff.load o (pos + 24) 8)
  incarnation := buff.load o (pos + 32) 4
  aru_incarnation := buff.load o (pos + 36) 4

/-- What `Process_IT_Ack` is called with, and the tail at the start of the
buffer. -/
def Received.packet (o : Endian) (p : Received) : ItPacket where
  data := p.buf.bytes 0 p.data_len
  tail := read_tail o p.buf p.data_len
  front := read_tail o p.buf 0
  ack_len := p.ack_len
  nacks := (List.range ((p.ack_len - SIZEOF_PKT_TAIL) / 8)).map fun j =>
    p.buf.load o (p.data_len + SIZEOF_PKT_TAIL + 8 * j) 8

/-- `Process_intru_tol_data_packet` or `Process_intru_tol_ack_packet`, with the
check that comes before anything is read. -/
def process_received (cf : Conf) (env : Env) (o : Endian) (t : ItType) (p : Received)
    (e : LinkEnd) : LinkEnd :=
  if p.len < SIZEOF_PKT_TAIL then e
  else match t with
    | .INTRU_TOL_DATA_TYPE => process_intru_tol_data_packet cf env (p.packet o) e
    | .INTRU_TOL_ACK_TYPE => process_intru_tol_ack_packet cf env (p.packet o) e

/-! ## 2. The tail compared and the tail used -/

def Received.compared_at (t : ItType) (p : Received) : ℕ :=
  match t with
  | .INTRU_TOL_DATA_TYPE => p.data_len
  | .INTRU_TOL_ACK_TYPE => 0

/-- The tail at `pos` carries the current incarnation pair of the link. -/
def Current (o : Endian) (buff : Mem) (pos : ℕ) (e : LinkEnd) : Prop :=
  (read_tail o buff pos).incarnation = e.ngbr_incarnation ∧
    (read_tail o buff pos).aru_incarnation = e.my_incarnation

/-- `Process_IT_Ack` finds "at least a barebone ack". -/
def bare_ack (ack_len : ℕ) : Prop :=
  SIZEOF_PKT_TAIL ≤ ack_len ∧ (ack_len - SIZEOF_PKT_TAIL) % 8 = 0

instance (o : Endian) (buff : Mem) (pos : ℕ) (e : LinkEnd) : Decidable (Current o buff pos e) :=
  inferInstanceAs (Decidable (_ ∧ _))

instance (ack_len : ℕ) : Decidable (bare_ack ack_len) := inferInstanceAs (Decidable (_ ∧ _))

/-- `Process_IT_Ack` acts on the tail at `data_len`. -/
def Received.acted_on (o : Endian) (t : ItType) (p : Received) (e : LinkEnd) : Prop :=
  SIZEOF_PKT_TAIL ≤ p.len ∧ Current o p.buf (p.compared_at t) e ∧ bare_ack p.ack_len

/-- What the comparison is for: the tail acted on and the NACKs behind it were
received, the tail carries the current pair, and no other packet changes the
link. -/
def Guarded (cf : Conf) (env : Env) (o : Endian) (t : ItType) (p : Received) (e : LinkEnd) : Prop :=
  (p.acted_on o t e → p.data_len + SIZEOF_PKT_TAIL + 8 * (p.packet o).nacks.length ≤ p.len ∧
    Current o p.buf p.data_len e) ∧
  (process_received cf env o t p e ≠ e → Current o p.buf p.data_len e)

theorem process_received_idle (cf : Conf) (env : Env) (o : Endian) (t : ItType) (p : Received)
    (e : LinkEnd) (h : ¬ p.acted_on o t e) : process_received cf env o t p e = e := by
  have hack : ¬ bare_ack p.ack_len → (process_it_ack cf env (p.packet o) e).2 = e := by
    intro hbare
    have hsize : (p.packet o).ack_len < SIZEOF_PKT_TAIL ∨
        ((p.packet o).ack_len - SIZEOF_PKT_TAIL) % 8 ≠ 0 := by
      change p.ack_len < SIZEOF_PKT_TAIL ∨ (p.ack_len - SIZEOF_PKT_TAIL) % 8 ≠ 0
      rw [bare_ack] at hbare
      omega
    rw [process_it_ack, if_pos hsize]
  by_cases hlen : p.len < SIZEOF_PKT_TAIL
  · exact if_pos hlen
  -- the comparison comes first, then the size of the ack
  have hrest : Current o p.buf (p.compared_at t) e → ¬ bare_ack p.ack_len :=
    fun hc hb => h ⟨Nat.le_of_not_lt hlen, hc, hb⟩
  rw [process_received.eq_def, if_neg hlen]
  cases t with
  | INTRU_TOL_DATA_TYPE =>
    rw [process_intru_tol_data_packet]
    split_ifs with h1 h2
    · rfl
    · rfl
    · exact hack (hrest ⟨not_not.mp h1, not_not.mp h2⟩)
  | INTRU_TOL_ACK_TYPE =>
    rw [process_intru_tol_ack_packet]
    split_ifs with h1 h2
    · rfl
    · rfl
    · exact hack (hrest ⟨not_not.mp h1, not_not.mp h2⟩)

theorem acted_on_inside {o : Endian} {t : ItType} {p : Received} {e : LinkEnd}
    (hs : p.sizes_ok) (h : p.acted_on o t e) :
    p.data_len + SIZEOF_PKT_TAIL + 8 * (p.packet o).nacks.length ≤ p.len := by
  obtain ⟨-, -, hbare⟩ := h
  have hlen : (p.packet o).nacks.length = (p.ack_len - SIZEOF_PKT_TAIL) / 8 := by
    rw [Received.packet, List.length_map, List.length_range]
  rw [bare_ack] at hbare
  rw [Received.sizes_ok] at hs
  omega

/-! ## 3. The shapes that are judged by their own tail -/

theorem not_current_twice {o : Endian} {pos : ℕ} (e : LinkEnd) (m : Mem) (b : UInt8)
    (hb : b ≠ m (pos + 39)) : ¬ (Current o m pos e ∧ Current o (m.write (pos + 39) [b]) pos e) := by
  rintro ⟨⟨-, h⟩, -, h'⟩
  have hload : (m.write (pos + 39) [b]).load o (pos + 36) 4 = m.load o (pos + 36) 4 :=
    h'.trans h.symm
  have hbytes : (m.write (pos + 39) [b]).bytes (pos + 36) 4 = m.bytes (pos + 36) 4 := by
    have hval := congrArg (le_bytes 4) hload
    rw [Mem.load, Mem.load, le_bytes_value (by simp), le_bytes_value (by simp)] at hval
    simpa using congrArg o.order hval
  have hlast := congrArg (fun l => l.getD 3 0) hbytes
  simp only [Mem.getD_bytes _ _ (show 3 < 4 by decide)] at hlast
  apply hb
  simpa [Mem.write] using hlast

theorem exists_stale {o : Endian} {pos : ℕ} (e : LinkEnd) (hpos : 0 < pos)
    (hngbr : e.ngbr_incarnation < 2 ^ 32) (hmy : e.my_incarnation < 2 ^ 32) :
    ∃ m : Mem, Current o m 0 e ∧ ¬ Current o m pos e := by
  let m : Mem := (Mem.store (fun _ => 0) o 32 4 e.ngbr_incarnation).store o 36 4 e.my_incarnation
  have hm : Current o m 0 e := by
    constructor
    · exact (Mem.load_store_other (by omega)).trans (Mem.load_store hngbr)
    · exact Mem.load_store hmy
  by_cases hc : Current o m pos e
  · -- the last byte of the second pair lies behind the first pair
    refine ⟨m.write (pos + 39) [m (pos + 39) + 1], ?_, fun h => ?_⟩
    · have hkeep : ∀ q, q + 4 ≤ 40 →
          (m.write (pos + 39) [m (pos + 39) + 1]).load o q 4 = m.load o q 4 := fun q hq => by
        apply Mem.load_congr
        intro i _ hi
        exact Mem.write_other (.inl (by omega))
      exact ⟨(hkeep 32 (by decide)).trans hm.1, (hkeep 36 (by decide)).trans hm.2⟩
    · exact not_current_twice e m _ (by simp) ⟨hc, h⟩
  · exact ⟨m, hm, hc⟩

/-- **A packet is judged by its own tail exactly if it is a data packet, if it
carries no data, or if its ack is of no use.** For every other shape of an ack
there are contents on which `Process_IT_Ack` acts on a tail of another
incarnation. -/
theorem tail_checked_iff (cf : Conf) (env : Env) (o : Endian) (t : ItType) (data_len ack_len : ℕ)
    (e : LinkEnd) (hngbr : e.ngbr_incarnation < 2 ^ 32) (hmy : e.my_incarnation < 2 ^ 32) :
    (∀ p : Received, p.data_len = data_len → p.ack_len = ack_len → p.sizes_ok →
      Guarded cf env o t p e) ↔ t = .INTRU_TOL_DATA_TYPE ∨ data_len = 0 ∨ ¬ bare_ack ack_len := by
  constructor
  · intro h
    by_contra hshape
    simp only [not_or, not_not] at hshape
    obtain ⟨htype, hdata, hack⟩ := hshape
    obtain ⟨m, hfront, hstale⟩ := exists_stale (o := o) e (Nat.pos_of_ne_zero hdata) hngbr hmy
    have ht : t = .INTRU_TOL_ACK_TYPE := by
      cases t with
      | INTRU_TOL_DATA_TYPE => exact absurd rfl htype
      | INTRU_TOL_ACK_TYPE => rfl
    subst ht
    have hlen : SIZEOF_PKT_TAIL ≤ data_len + ack_len := Nat.le_add_left_of_le hack.1
    have hguard := h ⟨data_len, ack_len, data_len + ack_len, m⟩ rfl rfl rfl
    exact hstale (hguard.1 ⟨hlen, hfront, hack⟩).2
  · rintro hshape p rfl rfl hs
    have hcurrent : p.acted_on o t e → Current o p.buf p.data_len e := by
      rintro ⟨-, hc, hb⟩
      obtain rfl | hzero | hbad := hshape
      · exact hc
      · cases t with
        | INTRU_TOL_DATA_TYPE => exact hc
        | INTRU_TOL_ACK_TYPE => rwa [hzero]
      · exact absurd hb hbad
    refine ⟨fun h => ⟨acted_on_inside hs h, hcurrent h⟩, fun hne => hcurrent ?_⟩
    by_contra h
    exact hne (process_received_idle cf env o t p e h)

theorem tail_checked_created : ¬ ∀ p : Received, p.data_len = 1 → p.ack_len = 56 → p.sizes_ok →
      Guarded plain_conf plain_env .little .INTRU_TOL_ACK_TYPE p (LinkEnd.create plain_conf 7) := by
  rw [tail_checked_iff plain_conf plain_env .little .INTRU_TOL_ACK_TYPE 1 56
    (LinkEnd.create plain_conf 7) (by decide) (by decide)]
  decide

/-- An ack with 48 bytes of data, a tail with the pair `(0, 7)`. The tail behind
it has number `1` and the pair `(0, 0)`. -/
def stale_ack : Received where
  data_len := 48
  ack_len := 48
  len := 96
  buf := fun i => if i = 36 then 7 else if i = 48 then 1 else 0

/-- The stale tail is acted on, and the incoming window moves. -/
theorem stale_tail_moves_window :
    stale_ack.sizes_ok ∧ ¬ Guarded plain_conf plain_env .little .INTRU_TOL_ACK_TYPE stale_ack
      (LinkEnd.create plain_conf 7) ∧
    (process_received plain_conf plain_env .little .INTRU_TOL_ACK_TYPE stale_ack
      (LinkEnd.create plain_conf 7)).inb.in_tail_seq = LINK_START_SEQ + 1 := by
  have hmoved : (process_received plain_conf plain_env .little .INTRU_TOL_ACK_TYPE stale_ack
      (LinkEnd.create plain_conf 7)).inb.in_tail_seq = LINK_START_SEQ + 1 := by decide +kernel
  refine ⟨rfl, fun hg => ?_, hmoved⟩
  have hstale : ¬ Current .little stale_ack.buf stale_ack.data_len (LinkEnd.create plain_conf 7) := by
    decide +kernel
  apply hstale
  apply hg.2
  intro heq
  rw [heq] at hmoved
  exact absurd hmoved (by decide)

end Spines.IntruTol
