/-
The places of a received packet that `Process_udp_data_packet`,
`Process_rel_udp_data_packet` with `Process_Ack`, `Process_RT_UDP_data_packet` and
`Process_RT_nack_packet` read.

`Prot_process_scat` checks that `data_len` and `ack_len` add up to what was received, and the
handlers that there is room for a `udp_header`. The rest is found by `data_len`, by `ack_len`
and by the dissemination header that one byte of the header asks for. The reads stay inside
exactly when that header fits into `ack_len`, and the tail does where one is read
(`reads_inside_iff`); a byte that names no protocol ends the daemon.
-/
import Spines.Datagram.Links

set_option autoImplicit false

namespace Spines.Datagram

open Spines.Lib List

/-! ## 1. The handlers -/

/-- What a handler does with a packet: the bytes it reads, each as a place and a length,
whether a subtraction wraps, and whether it comes to an `Alarm(EXIT)`. -/
structure Access where
  reads : List (ℕ × ℕ)
  wraps : Bool
  exits : Bool

/-- Every read is inside the `len` bytes that were received, and nothing goes wrong. -/
def Access.Safe (a : Access) (len : ℕ) : Prop :=
  (∀ r ∈ a.reads, r.1 + r.2 ≤ len) ∧ a.wraps = false ∧ a.exits = false

/-- What `Process_Ack` finds on a reliable link, and what it returns. The packets that are not
acknowledged have their buffers, and `nack_buff` was not written past its end. -/
structure Ack_State where
  connected : Bool
  flag : ℤ
  nack_len : ℕ
  head : ℕ
  tail : ℕ
  held : ℕ → Bool
  nack_len_le : nack_len ≤ PACKET_BODY
  held_window : ∀ i, tail ≤ i → i < head → held i = true

inductive Handler
  | udp
  | reliable_udp (st : Ack_State)
  | realtime_udp (old : Bool)
  | rt_nack

section Handlers

variable (cf : Conf) (mem : Mem) (p : Packet)

def Packet.len : ℕ := (p.body.take PACKET_BODY).length

def Ack_State.to_copy (st : Ack_State) (ack_len : ℕ) : ℕ :=
  if PACKET_BODY < st.nack_len + ack_len - SIZEOF_RELIABLE_TAIL then PACKET_BODY - st.nack_len
  else ack_len - SIZEOF_RELIABLE_TAIL

/-- The loop of `Process_Ack` over what is acknowledged comes to a packet without buffer. -/
def Ack_State.fails (st : Ack_State) (cummulative_ack : ℕ) : Bool :=
  cummulative_ack ≤ st.head ∧
    ∃ i ∈ range' st.tail (cummulative_ack - st.tail), st.held i = false

/-- What a handler reads of the trailer, when `ack_len` is what was left of it; whether it
comes to the exit; and whether it goes on to the dissemination header. -/
def Handler.trailer (ack_len : ℕ) : Handler → List (ℕ × ℕ) × Bool × Bool
  | .udp => ([], false, true)
  | .reliable_udp st =>
    if st.connected then
      ((p.data_len, SIZEOF_RELIABLE_TAIL) ::
          if SIZEOF_RELIABLE_TAIL < ack_len then
            [(p.data_len + SIZEOF_RELIABLE_TAIL, st.to_copy ack_len)]
          else [],
        st.fails ((p.read mem).load cf.endian (p.data_len + 4) 4), st.flag ≠ -1 ∧ st.flag ≠ 0)
    else ([], false, false)
  | .realtime_udp old => ([(p.data_len, SIZEOF_RT_SEQ)], false, !old)
  | .rt_nack => ([], false, false)

/-- `ack_len` has 32 bits in `udp.c` and 16 in the others. -/
def Handler.width : Handler → ℕ
  | .udp => 32
  | _ => 16

/-- A message whose dissemination header has `dh_size` bytes. -/
def Handler.taken (t : Handler) (dh_size : ℕ) : Access :=
  let ack_len := (p.ack_len + (2 ^ t.width - dh_size)) % 2 ^ t.width
  let trailer := t.trailer cf mem p ack_len
  ⟨(0, SIZEOF_UDP_HEADER) :: trailer.1 ++
      if trailer.2.2 then [(p.data_len + ack_len, dh_size)] else [],
    p.ack_len < dh_size, trailer.2.1⟩

/-- A handler, up to `Deliver_and_Forward_Data`. That of NACK packets reads the numbers from
the start of the buffer; the others have much in common. -/
def Handler.access (t : Handler) : Access :=
  match t with
  | .rt_nack => ⟨[(0, p.ack_len / SIZEOF_RT_SEQ * SIZEOF_RT_SEQ)], false, false⟩
  | _ =>
    if p.len < SIZEOF_UDP_HEADER then ⟨[], false, false⟩
    else
      match Dissemination_Header_Size cf (routing_of (p.read mem)) with
      | none => ⟨[(0, SIZEOF_UDP_HEADER)], false, true⟩
      | some dh_size => t.taken cf mem p dh_size

/-! ## 2. When they are safe -/

def Handler.ReadsTail : Handler → Prop
  | .udp => False
  | .reliable_udp st => st.connected = true
  | .realtime_udp _ => True
  | .rt_nack => False

/-- The packet is too short to be looked at, or it names a protocol, and `ack_len` has room for
the header of that protocol and for the tail. -/
def Handler.Fits (t : Handler) : Prop :=
  t = .rt_nack ∨ p.len < SIZEOF_UDP_HEADER ∨
    ∃ dh_size, Dissemination_Header_Size cf (routing_of (p.read mem)) = some dh_size ∧
      dh_size ≤ p.ack_len ∧ (t.ReadsTail → 8 ≤ p.ack_len)

variable {cf mem p}

theorem Handler.access_eq {t : Handler} (ht : t ≠ .rt_nack) : t.access cf mem p =
    if p.len < SIZEOF_UDP_HEADER then ⟨[], false, false⟩
    else
      match Dissemination_Header_Size cf (routing_of (p.read mem)) with
      | none => ⟨[(0, SIZEOF_UDP_HEADER)], false, true⟩
      | some dh_size => t.taken cf mem p dh_size := by
  cases t with
  | rt_nack => exact absurd rfl ht
  | _ => rfl

theorem Ack_State.fails_eq (st : Ack_State) (cummulative_ack : ℕ) :
    st.fails cummulative_ack = false := by
  rw [Ack_State.fails, decide_eq_false_iff_not]
  rintro ⟨hhead, i, hi, hno⟩
  have hrange := mem_range'_1.mp hi
  exact absurd (st.held_window i hrange.1 (by omega)) (by rw [hno]; decide)

theorem Handler.trailer_inside (hp : p.sizes_ok) (t : Handler) {ack_len : ℕ}
    (hack : ack_len ≤ p.ack_len) (htail : t.ReadsTail → 8 ≤ p.ack_len) :
    ∀ r ∈ (t.trailer cf mem p ack_len).1, r.1 + r.2 ≤ p.len := by
  have hlen : p.len = p.data_len + p.ack_len := hp
  cases t with
  | udp => simp [Handler.trailer]
  | rt_nack => simp [Handler.trailer]
  | realtime_udp old =>
    have hroom := htail trivial
    simp only [Handler.trailer, mem_singleton, forall_eq, SIZEOF_RT_SEQ]
    omega
  | reliable_udp st =>
    cases hconn : st.connected with
    | false => simp [Handler.trailer, hconn]
    | true =>
      have hroom := htail hconn
      have hle := st.nack_len_le
      have hsize : SIZEOF_RELIABLE_TAIL = 8 := rfl
      rw [Handler.trailer, if_pos hconn]
      intro r hr
      rcases mem_cons.mp hr with rfl | hr
      · dsimp only
        omega
      · by_cases hnacks : SIZEOF_RELIABLE_TAIL < ack_len
        · rw [if_pos hnacks, mem_singleton] at hr
          have hcopy : st.to_copy ack_len ≤ ack_len - SIZEOF_RELIABLE_TAIL := by
            rw [Ack_State.to_copy]
            split <;> omega
          rw [hr]
          omega
        · rw [if_neg hnacks] at hr
          exact absurd hr not_mem_nil

theorem Handler.trailer_outside (hp : p.sizes_ok) {t : Handler} (htail : t.ReadsTail)
    (hroom : p.ack_len < 8) (ack_len : ℕ) :
    (p.data_len, 8) ∈ (t.trailer cf mem p ack_len).1 ∧ p.len < p.data_len + 8 := by
  have hlen : p.len = p.data_len + p.ack_len := hp
  refine ⟨?_, by omega⟩
  cases t with
  | udp => exact htail.elim
  | rt_nack => exact htail.elim
  | realtime_udp old => exact mem_singleton.mpr rfl
  | reliable_udp st =>
    have hconn : st.connected = true := htail
    rw [Handler.trailer, if_pos hconn]
    exact mem_cons_self

theorem Handler.trailer_exits (t : Handler) (ack_len : ℕ) :
    (t.trailer cf mem p ack_len).2.1 = false := by
  cases t with
  | reliable_udp st =>
    rw [Handler.trailer]
    split
    · exact st.fails_eq _
    · rfl
  | _ => rfl

theorem taken_safe_iff (hp : p.sizes_ok) (t : Handler) (dh_size : ℕ)
    (hheader : SIZEOF_UDP_HEADER ≤ p.len) :
    (t.taken cf mem p dh_size).Safe p.len ↔
      dh_size ≤ p.ack_len ∧ (t.ReadsTail → 8 ≤ p.ack_len) := by
  have hlen : p.len = p.data_len + p.ack_len := hp
  have hbody : p.len ≤ PACKET_BODY := length_take_le ..
  have hwidth : PACKET_BODY < 2 ^ t.width := by cases t <;> simp [PACKET_BODY, Handler.width]
  constructor
  · rintro ⟨hreads, hwraps, -⟩
    refine ⟨not_lt.mp (of_decide_eq_false hwraps), fun htail => ?_⟩
    by_contra hroom
    obtain ⟨hmem, hout⟩ := Handler.trailer_outside hp htail (not_le.mp hroom)
      ((p.ack_len + (2 ^ t.width - dh_size)) % 2 ^ t.width)
    have hin := hreads _ (mem_append_left _ (mem_cons_of_mem _ hmem))
    exact absurd hin (not_le.mpr hout)
  · rintro ⟨hsize, htail⟩
    -- nothing wraps
    have hleft : (p.ack_len + (2 ^ t.width - dh_size)) % 2 ^ t.width = p.ack_len - dh_size := by
      rw [show p.ack_len + (2 ^ t.width - dh_size) = p.ack_len - dh_size + 2 ^ t.width by omega,
        Nat.add_mod_right, Nat.mod_eq_of_lt (by omega)]
    refine ⟨?_, decide_eq_false (not_lt.mpr hsize), t.trailer_exits _⟩
    intro r hr
    rcases mem_append.mp hr with hr | hr
    · rcases mem_cons.mp hr with rfl | hr
      · exact hheader.trans' (le_of_eq (zero_add _))
      · exact t.trailer_inside hp (hleft ▸ Nat.sub_le ..) htail r hr
    · rw [hleft] at hr
      split at hr
      · rw [mem_singleton.mp hr]
        omega
      · exact absurd hr not_mem_nil

/-- **A handler reads what was received, without wrapping and without an exit, exactly when
header and tail have room.** -/
theorem reads_inside_iff (hp : p.sizes_ok) (t : Handler) :
    (t.access cf mem p).Safe p.len ↔ t.Fits cf mem p := by
  have hlen : p.len = p.data_len + p.ack_len := hp
  by_cases hnack : t = .rt_nack
  · have hle : p.ack_len / SIZEOF_RT_SEQ * SIZEOF_RT_SEQ ≤ p.ack_len := Nat.div_mul_le_self _ _
    refine iff_of_true ?_ (.inl hnack)
    rw [hnack]
    refine ⟨?_, rfl, rfl⟩
    simp only [Handler.access, mem_singleton, forall_eq]
    omega
  rw [t.access_eq hnack, Handler.Fits]
  by_cases hshort : p.len < SIZEOF_UDP_HEADER
  · rw [if_pos hshort]
    simp [Access.Safe, hshort]
  rw [if_neg hshort]
  cases hsize : Dissemination_Header_Size cf (routing_of (p.read mem)) with
  | none => simp [Access.Safe, hnack, hshort]
  | some dh_size =>
    rw [taken_safe_iff hp t dh_size (not_lt.mp hshort)]
    simp [hnack, hshort]

end Handlers

/-! A `udp_header` alone: for the protocol of regular routing, and for routing by the source,
with no room for the header of that. -/

def small_conf : Conf := ⟨.little, 8, 0, 0, false⟩

def header_packet (routing : UInt8) : Packet := ⟨28, 0, replicate 25 0 ++ [routing, 0, 0]⟩

theorem reads_inside_regular :
    (Handler.udp.access small_conf (fun _ => 0) (header_packet 0)).Safe (header_packet 0).len :=
  (reads_inside_iff (by decide) .udp).mpr
    (.inr (.inr ⟨0, by decide, by decide, fun htail => htail.elim⟩))

theorem reads_outside :
    (header_packet 3).sizes_ok ∧
      ¬(Handler.udp.access small_conf (fun _ => 0) (header_packet 3)).Safe (header_packet 3).len :=
  ⟨by decide, fun hsafe => absurd hsafe.2.1 (by decide)⟩

end Spines.Datagram
