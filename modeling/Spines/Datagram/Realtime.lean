/-
`daemon/realtime_udp.c`: the receive window of a real-time link.

A real-time link gives up on what is late. The window goes from `recv_tail` to `recv_head`,
and says in a ring of `MAX_HISTORY` cells which of its numbers have arrived. The tail moves
up when the oldest packet of the window is older than `HISTORY_TIME`, and when a number
arrives that would not fit any more.

The tail is moved after the packet has passed the test for duplicates, and may go past that
packet; it is delivered all the same, and its mark goes into a cell of the ring that now
belongs to a number above `recv_head`.

The age of a packet is computed in an `int32`. Sequence numbers are words of 64 bits. The
functions read a packet whose header is in host order already.
-/
import Spines.Lib.Ring
import Spines.Datagram.Links

set_option autoImplicit false

namespace Spines.Datagram.Realtime

open Spines.Lib Option List Function

/-! ## 1. The window -/

structure Sp_Time where
  sec : ℤ
  usec : ℤ
  deriving DecidableEq, Repr

def Sp_Time.micros (t : Sp_Time) : ℤ := t.sec * 1000000 + t.usec

/-- `EMPTY_CELL` and `RECVD_CELL`. -/
inductive Cell_Flags
  | empty
  | recvd
  deriving DecidableEq, Repr

structure History_Recv_Cell where
  flags : Cell_Flags
  timestamp : Sp_Time
  deriving DecidableEq, Repr

/-- The fields of `Realtime_Data` for what is received; `num_nacks` is the length of
`nack_buff`. -/
structure Recv_Data where
  recv_head : ℕ
  recv_tail : ℕ
  recv_window : ℕ → History_Recv_Cell
  nack_buff : List ℕ

/-- `Create_Link`. -/
def Recv_Data.init : Recv_Data :=
  { recv_head := 0, recv_tail := 0, recv_window := fun _ => ⟨.empty, ⟨0, 0⟩⟩, nack_buff := [] }

def Recv_Data.cell (rt : Recv_Data) (i : ℕ) : History_Recv_Cell :=
  rt.recv_window (i % MAX_HISTORY)

/-- `flags = EMPTY_CELL`; the timestamp stays. -/
def Recv_Data.clear (rt : Recv_Data) (i : ℕ) : Recv_Data :=
  { rt with
    recv_window :=
      update rt.recv_window (i % MAX_HISTORY) { rt.cell i with flags := .empty } }

def Recv_Data.old (rt : Recv_Data) (seq_no : ℕ) : Bool :=
  seq_no < rt.recv_tail ∨ (seq_no < rt.recv_head ∧ (rt.cell seq_no).flags ≠ .empty)

/-! ## 2. Old packets -/

/-- `diff`, in the arithmetic of an `int32`. -/
def age (now timestamp : Sp_Time) : ℤ :=
  let diff := Int.bmod (now.sec - timestamp.sec) (2 ^ 32)
  let diff := Int.bmod (diff * 1000000) (2 ^ 32)
  Int.bmod (diff + (now.usec - timestamp.usec)) (2 ^ 32)

def Recv_Data.oldest (rt : Recv_Data) : Option ℕ :=
  (range' rt.recv_tail (rt.recv_head - rt.recv_tail)).find?
    fun i => (rt.cell i).flags ≠ .empty

/-- The loop that advances the tail, `n` rounds of it at most. -/
def Recv_Data.expire (now : Sp_Time) : ℕ → Recv_Data → Recv_Data
  | 0, rt => rt
  | n + 1, rt =>
    match rt.oldest with
    | none => rt
    | some i =>
      if age now (rt.cell i).timestamp ≤ HISTORY_TIME then rt
      else Recv_Data.expire now n { rt.clear i with recv_tail := i + 1 }

def Recv_Data.advance (now : Sp_Time) (rt : Recv_Data) : Recv_Data :=
  rt.expire now (rt.recv_head - rt.recv_tail)

/-! ## 3. A new and higher packet -/

/-- The loop that makes room, `n` rounds of it at most. -/
def Recv_Data.make_room (seq_no : ℕ) : ℕ → Recv_Data → Recv_Data
  | 0, rt => rt
  | n + 1, rt =>
    if MAX_HISTORY ≤ (seq_no + 2 ^ 64 - rt.recv_tail) % 2 ^ 64 then
      Recv_Data.make_room seq_no n
        { rt.clear rt.recv_tail with recv_tail := (rt.recv_tail + 1) % 2 ^ 64 }
    else rt

/-- There is room for another number in `nack_buff`. -/
def Recv_Data.nack_fits (rt : Recv_Data) : Prop :=
  rt.nack_buff.length * SIZEOF_RT_SEQ + 2 * SIZEOF_RT_SEQ < PACKET_BODY - SIZEOF_UDP_HEADER

instance (rt : Recv_Data) : Decidable rt.nack_fits := inferInstanceAs (Decidable (_ < _))

def Recv_Data.miss (rt : Recv_Data) (i : ℕ) : Recv_Data :=
  if rt.nack_fits then { rt.clear i with nack_buff := rt.nack_buff ++ [i] } else rt.clear i

def Recv_Data.miss_all (rt : Recv_Data) (is : List ℕ) : Recv_Data := is.foldl Recv_Data.miss rt

def Recv_Data.raise (seq_no : ℕ) (rt : Recv_Data) : Recv_Data :=
  let rt₁ := rt.make_room seq_no (seq_no + 1 - rt.recv_tail)
  let rt₂ := rt₁.miss_all (range' rt.recv_head (seq_no - rt.recv_head))
  { rt₂ with recv_head := (seq_no + 1) % 2 ^ 64 }

def Recv_Data.mark (now : Sp_Time) (seq_no : ℕ) (rt : Recv_Data) : Recv_Data :=
  { rt with
    recv_window := update rt.recv_window (seq_no % MAX_HISTORY) ⟨.recvd, now⟩ }

def Recv_Data.accept (now : Sp_Time) (seq_no : ℕ) (rt : Recv_Data) : Recv_Data :=
  let rt₁ := rt.advance now
  let rt₂ := if rt₁.recv_head ≤ seq_no then rt₁.raise seq_no else rt₁
  rt₂.mark now seq_no

/-! ## 4. Packets -/

def seq_no_of (cf : Conf) (sender : Endian) (mem : Mem) (p : Packet) : ℕ :=
  let seq_no := (p.read mem).load cf.endian p.data_len SIZEOF_RT_SEQ
  if sender = cf.endian then seq_no else flip_word SIZEOF_RT_SEQ seq_no

/-- `Process_RT_UDP_data_packet`: the window, and what `Deliver_and_Forward_Data` gets.
`none` is the exit on an unknown routing. -/
def Process_RT_UDP_data_packet (cf : Conf) (now : Sp_Time) (sender : Endian) (mem : Mem)
    (p : Packet) (rt : Recv_Data) : Option (Recv_Data × Option Msg) :=
  if (p.body.take PACKET_BODY).length < SIZEOF_UDP_HEADER then some (rt, none)
  else do
    let _ ← Dissemination_Header_Size cf (routing_of (p.read mem))
    let seq_no := seq_no_of cf sender mem p
    let old := rt.old seq_no
    return (if old then rt else rt.accept now seq_no,
      Datagram.Process_RT_UDP_data_packet cf old mem p)

/-- `Send_RT_Nack` as far as the window goes. -/
def Send_RT_Nack (rt : Recv_Data) : Recv_Data := { rt with nack_buff := [] }

/-! ## 5. Runs -/

/-- A packet that arrives: what was read, the sender's byte order, what was in the buffer,
and the time. -/
structure Arrival where
  packet : Packet
  sender : Endian
  mem : Mem
  now : Sp_Time

def Arrival.seq_no (cf : Conf) (a : Arrival) : ℕ := seq_no_of cf a.sender a.mem a.packet

structure Arrival.Correct (cf : Conf) (a : Arrival) : Prop where
  udp_header : SIZEOF_UDP_HEADER ≤ (a.packet.body.take PACKET_BODY).length
  routing : (Dissemination_Header_Size cf (routing_of (a.packet.read a.mem))).isSome
  fewer : a.seq_no cf + 1 < 2 ^ 64

def Arrival.process (cf : Conf) (a : Arrival) (rt : Recv_Data) : Option (Recv_Data × Option Msg) :=
  Process_RT_UDP_data_packet cf a.now a.sender a.mem a.packet rt

inductive Event
  | packet (a : Arrival)
  | nack

structure World where
  rt : Recv_Data
  clock : Sp_Time
  handed : List (ℕ × Sp_Time)

def World.init (clock : Sp_Time) : World := { rt := Recv_Data.init, clock := clock, handed := [] }

def World.hand (w : World) (cf : Conf) (a : Arrival) (rt : Recv_Data) (out : Option Msg) : World :=
  { rt := rt
    clock := a.now
    handed := if out.isSome then w.handed ++ [(a.seq_no cf, a.now)] else w.handed }

/-- One step: a packet of the sender arrives, no earlier than the clock says, or the
requests are sent. Which packet arrives is free, so packets may be lost, duplicated,
reordered and retransmitted. -/
def Step (cf : Conf) (w : World) : Event → World → Prop
  | .packet a, w' =>
    a.Correct cf ∧ w.clock.micros ≤ a.now.micros ∧
      ∃ rt out, a.process cf w.rt = some (rt, out) ∧ w' = w.hand cf a rt out
  | .nack, w' => w' = { w with rt := Send_RT_Nack w.rt }

/-! ## 6. What the window says -/

def numbers (handed : List (ℕ × Sp_Time)) : List ℕ := handed.map Prod.fst

/-- From the tail up to `head`, the cells say which numbers were handed on, and when. -/
structure Recv_Data.Window (rt : Recv_Data) (head : ℕ) (handed : List (ℕ × Sp_Time)) : Prop where
  sound : ∀ j, rt.recv_tail ≤ j → j < head → (rt.cell j).flags ≠ .empty →
    (j, (rt.cell j).timestamp) ∈ handed
  complete : ∀ j, rt.recv_tail ≤ j → j < head → j ∈ numbers handed → (rt.cell j).flags ≠ .empty

/-- A higher number arrived more than `HISTORY_TIME` before, or one at least `MAX_HISTORY`
higher. -/
def Late (now : Sp_Time) (handed : List (ℕ × Sp_Time)) (j : ℕ) : Prop :=
  ∃ s t, (s, t) ∈ handed ∧
    (j < s ∧ HISTORY_TIME < now.micros - t.micros ∨ j + MAX_HISTORY ≤ s)

/-- Below the tail is only what was handed on, or comes too late. -/
def Recv_Data.Past (rt : Recv_Data) (now : Sp_Time) (handed : List (ℕ × Sp_Time)) : Prop :=
  ∀ j, j < rt.recv_tail → j ∈ numbers handed ∨ Late now handed j

theorem numbers_concat (handed : List (ℕ × Sp_Time)) (s : ℕ) (t : Sp_Time) :
    numbers (handed ++ [(s, t)]) = numbers handed ++ [s] := by
  rw [numbers, map_append]
  rfl

variable {handed handed' : List (ℕ × Sp_Time)} {now now' t : Sp_Time} {rt : Recv_Data}
  {head i seq_no : ℕ} {cf : Conf} {a : Arrival}

theorem mem_numbers {s : ℕ} (h : (s, t) ∈ handed) : s ∈ numbers handed :=
  List.mem_map.mpr ⟨(s, t), h, rfl⟩

theorem Late.mono {j : ℕ} (h : Late now handed j) (hnow : now.micros ≤ now'.micros)
    (hsub : handed ⊆ handed') : Late now' handed' j := by
  obtain ⟨s, t, hmem, hlate⟩ := h
  refine ⟨s, t, hsub hmem, ?_⟩
  rcases hlate with ⟨hlt, hage⟩ | hfar
  · exact .inl ⟨hlt, by omega⟩
  · exact .inr hfar

theorem Recv_Data.Past.mono (h : rt.Past now handed) (hnow : now.micros ≤ now'.micros)
    (hsub : handed ⊆ handed') : rt.Past now' handed' := by
  intro j hj
  rcases h j hj with hin | hlate
  · exact .inl (map_subset Prod.fst hsub hin)
  · exact .inr (hlate.mono hnow hsub)

/-! ## 7. One cell at a time -/

theorem Recv_Data.cell_clear_ne (rt : Recv_Data) {lo j : ℕ} (hi : lo ≤ i)
    (hi' : i < lo + MAX_HISTORY) (hj : lo ≤ j) (hj' : j < lo + MAX_HISTORY) (hne : j ≠ i) :
    (rt.clear i).cell j = rt.cell j :=
  update_slot_ne rt.recv_window _ hj hj' hi hi' hne

theorem Recv_Data.cell_clear_self (rt : Recv_Data) (i : ℕ) :
    ((rt.clear i).cell i).flags = .empty := by
  simp [Recv_Data.cell, Recv_Data.clear]

theorem Recv_Data.Window.drop (h : rt.Window head handed)
    (hroom : head ≤ rt.recv_tail + MAX_HISTORY) (hi : rt.recv_tail ≤ i) :
    Recv_Data.Window { rt.clear i with recv_tail := i + 1 } head handed := by
  have hcell : ∀ j, i + 1 ≤ j → j < head →
      Recv_Data.cell { rt.clear i with recv_tail := i + 1 } j = rt.cell j := by
    intro j hj hj'
    exact rt.cell_clear_ne hi (by omega) (by omega) (by omega) (by omega)
  constructor
  · intro j hj hj' hflag
    change i + 1 ≤ j at hj
    rw [hcell j hj hj'] at hflag ⊢
    exact h.sound j (by omega) hj' hflag
  · intro j hj hj' hin
    change i + 1 ≤ j at hj
    rw [hcell j hj hj']
    exact h.complete j (by omega) hj' hin

/-! ## 8. The age of a packet -/

theorem age_eq (now t : Sp_Time) : age now t = Int.bmod (now.micros - t.micros) (2 ^ 32) := by
  have hsplit : now.micros - t.micros =
      (now.sec - t.sec) * 1000000 + (now.usec - t.usec) := by
    simp only [Sp_Time.micros]
    omega
  rw [hsplit, age, Int.bmod_mul_bmod, Int.bmod_add_bmod]

theorem lt_age (hle : t.micros ≤ now.micros) (h : HISTORY_TIME < age now t) :
    HISTORY_TIME < now.micros - t.micros := by
  by_contra hnot
  have hrange : now.micros - t.micros ≤ 100000 := by
    simp only [HISTORY_TIME] at hnot
    omega
  rw [age_eq, Int.bmod_eq_of_le (by omega) (by omega)] at h
  exact hnot h

/-! ## 9. The loops -/

/-- What the age loop keeps: only the tail moves, and what it passes is late. -/
structure Recv_Data.Advanced (now : Sp_Time) (handed : List (ℕ × Sp_Time)) (rt rt' : Recv_Data) :
    Prop where
  window : rt'.Window rt.recv_head handed
  past : rt'.Past now handed
  head : rt'.recv_head = rt.recv_head
  nack_buff : rt'.nack_buff = rt.nack_buff
  tail : rt.recv_tail ≤ rt'.recv_tail
  ordered : rt'.recv_tail ≤ rt'.recv_head

theorem Recv_Data.oldest_some (h : rt.oldest = some i) :
    rt.recv_tail ≤ i ∧ i < rt.recv_head ∧ (rt.cell i).flags ≠ .empty ∧
      ∀ j, rt.recv_tail ≤ j → j < i → (rt.cell j).flags = .empty := by
  obtain ⟨hflag, hmem, hbefore⟩ := List.find?_range'_eq_some.mp h
  rw [mem_range'_1] at hmem
  refine ⟨hmem.1, by omega, by simpa using hflag, ?_⟩
  intro j hj hj'
  simpa using hbefore j hj hj'

theorem Recv_Data.Past.expire (hp : rt.Past now handed) (hw : rt.Window rt.recv_head handed)
    (htimes : ∀ s t, (s, t) ∈ handed → t.micros ≤ now.micros) (hi : rt.oldest = some i)
    (hold : ¬age now (rt.cell i).timestamp ≤ HISTORY_TIME) :
    Recv_Data.Past { rt.clear i with recv_tail := i + 1 } now handed := by
  obtain ⟨hlo, hhi, hflag, -⟩ := Recv_Data.oldest_some hi
  have hmem : (i, (rt.cell i).timestamp) ∈ handed := hw.sound i hlo hhi hflag
  have hlate : HISTORY_TIME < now.micros - (rt.cell i).timestamp.micros :=
    lt_age (htimes _ _ hmem) (not_le.mp hold)
  intro j hj
  change j < i + 1 at hj
  by_cases hlow : j < rt.recv_tail
  · exact hp j hlow
  · rcases Nat.lt_or_ge j i with hlt | hge
    · exact .inr ⟨i, _, hmem, .inl ⟨hlt, hlate⟩⟩
    · have heq : j = i := by omega
      exact .inl (heq ▸ mem_numbers hmem)

theorem Recv_Data.expire_spec (now : Sp_Time) (handed : List (ℕ × Sp_Time))
    (htimes : ∀ s t, (s, t) ∈ handed → t.micros ≤ now.micros) (n : ℕ) :
    ∀ rt : Recv_Data, rt.Window rt.recv_head handed → rt.Past now handed →
      rt.recv_tail ≤ rt.recv_head → rt.recv_head ≤ rt.recv_tail + MAX_HISTORY →
      rt.Advanced now handed (rt.expire now n) := by
  induction n with
  | zero =>
    intro rt hw hp hle _
    exact ⟨hw, hp, rfl, rfl, le_refl _, hle⟩
  | succ n ih =>
    intro rt hw hp hle hroom
    rw [Recv_Data.expire]
    split
    · exact ⟨hw, hp, rfl, rfl, le_refl _, hle⟩
    · rename_i i hi
      obtain ⟨hlo, hhi, -, -⟩ := Recv_Data.oldest_some hi
      split
      · exact ⟨hw, hp, rfl, rfl, le_refl _, hle⟩
      · rename_i hold
        have hround := ih { rt.clear i with recv_tail := i + 1 } (hw.drop hroom hlo)
          (hp.expire hw htimes hi hold) hhi
          (by change rt.recv_head ≤ i + 1 + MAX_HISTORY; omega)
        have htail : i + 1 ≤ _ := hround.tail
        exact ⟨hround.window, hround.past, hround.head, hround.nack_buff, by omega,
          hround.ordered⟩

structure Recv_Data.Roomy (now : Sp_Time) (seq_no head : ℕ) (handed handed' : List (ℕ × Sp_Time))
    (rt rt' : Recv_Data) : Prop where
  window : rt'.Window head handed
  past : rt'.Past now handed'
  head : rt'.recv_head = rt.recv_head
  nack_buff : rt'.nack_buff = rt.nack_buff
  tail : rt.recv_tail ≤ rt'.recv_tail
  tail_le : rt'.recv_tail ≤ seq_no
  room : seq_no < rt'.recv_tail + MAX_HISTORY

theorem Recv_Data.Past.make_room (hp : rt.Past now handed') (hnew : (seq_no, t) ∈ handed')
    (hfar : rt.recv_tail + MAX_HISTORY ≤ seq_no) :
    Recv_Data.Past { rt.clear rt.recv_tail with recv_tail := rt.recv_tail + 1 } now handed' := by
  intro j hj
  change j < rt.recv_tail + 1 at hj
  rcases Nat.lt_or_ge j rt.recv_tail with hlt | hge
  · exact hp j hlt
  · exact .inr ⟨seq_no, t, hnew, .inr (by omega)⟩

theorem Recv_Data.make_room_spec (hseq : seq_no + 1 < 2 ^ 64) (hnew : (seq_no, t) ∈ handed') (n : ℕ)
    : ∀ rt : Recv_Data, rt.Window head handed → rt.Past now handed' → rt.recv_tail ≤ seq_no →
      head ≤ rt.recv_tail + MAX_HISTORY → seq_no + 1 ≤ rt.recv_tail + n →
      Recv_Data.Roomy now seq_no head handed handed' rt (rt.make_room seq_no n) := by
  induction n with
  | zero =>
    intro rt _ _ hle _ hfuel
    omega
  | succ n ih =>
    intro rt hw hp hle hroom hfuel
    have hdist : (seq_no + 2 ^ 64 - rt.recv_tail) % 2 ^ 64 = seq_no - rt.recv_tail := by omega
    have hnext : (rt.recv_tail + 1) % 2 ^ 64 = rt.recv_tail + 1 := by omega
    rw [Recv_Data.make_room, hdist, hnext]
    split
    · rename_i hfar
      have hround := ih { rt.clear rt.recv_tail with recv_tail := rt.recv_tail + 1 }
        (hw.drop hroom (le_refl _)) (hp.make_room hnew (by omega))
        (by change rt.recv_tail + 1 ≤ seq_no; simp only [MAX_HISTORY] at hfar; omega)
        (by change head ≤ rt.recv_tail + 1 + MAX_HISTORY; omega)
        (by change seq_no + 1 ≤ rt.recv_tail + 1 + n; omega)
      have htail : rt.recv_tail + 1 ≤ _ := hround.tail
      exact ⟨hround.window, hround.past, hround.head, hround.nack_buff, by omega,
        hround.tail_le, hround.room⟩
    · rename_i hnear
      exact ⟨hw, hp, rfl, rfl, le_refl _, hle, by omega⟩

theorem Recv_Data.miss_tail (rt : Recv_Data) (i : ℕ) : (rt.miss i).recv_tail = rt.recv_tail := by
  rw [Recv_Data.miss]
  split
  · rfl
  · rfl

theorem Recv_Data.miss_nacks (rt : Recv_Data) (i : ℕ) :
    ∃ added, (rt.miss i).nack_buff = rt.nack_buff ++ added ∧ ∀ j ∈ added, j = i := by
  rw [Recv_Data.miss]
  split
  · exact ⟨[i], rfl, fun j hj => mem_singleton.mp hj⟩
  · exact ⟨[], (append_nil _).symm, fun j hj => absurd hj not_mem_nil⟩

theorem Recv_Data.Window.miss (h : rt.Window head handed) (hbelow : ∀ s ∈ numbers handed, s < head)
    (hroom : head < rt.recv_tail + MAX_HISTORY) : (rt.miss head).Window (head + 1) handed := by
  have hcell : ∀ j, (rt.miss head).cell j = (rt.clear head).cell j := by
    intro j
    rw [Recv_Data.miss]
    split
    · rfl
    · rfl
  have htail := rt.miss_tail head
  -- below `head` nothing changes, and `head` itself was never handed on
  have hlow : ∀ j, rt.recv_tail ≤ j → j < head → (rt.clear head).cell j = rt.cell j := by
    intro j hj hj'
    exact rt.cell_clear_ne (by omega) hroom hj (by omega) (by omega)
  constructor
  · intro j hj hj' hflag
    rw [htail] at hj
    rw [hcell] at hflag ⊢
    rcases Nat.lt_succ_iff_lt_or_eq.mp hj' with hlt | rfl
    · rw [hlow j hj hlt] at hflag ⊢
      exact h.sound j hj hlt hflag
    · exact absurd (rt.cell_clear_self j) hflag
  · intro j hj hj' hin
    rw [htail] at hj
    have hlt : j < head := hbelow j hin
    rw [hcell, hlow j hj hlt]
    exact h.complete j hj hlt hin

structure Recv_Data.Missed (lo hi : ℕ) (handed : List (ℕ × Sp_Time)) (rt rt' : Recv_Data) :
    Prop where
  window : rt'.Window hi handed
  tail : rt'.recv_tail = rt.recv_tail
  nacks : ∃ added, rt'.nack_buff = rt.nack_buff ++ added ∧ ∀ i ∈ added, lo ≤ i ∧ i < hi

theorem Recv_Data.miss_all_spec (n : ℕ) :
    ∀ (rt : Recv_Data) (lo : ℕ), rt.Window lo handed → (∀ s ∈ numbers handed, s < lo) →
      lo + n ≤ rt.recv_tail + MAX_HISTORY →
      Recv_Data.Missed lo (lo + n) handed rt (rt.miss_all (range' lo n)) := by
  induction n with
  | zero =>
    intro rt lo hw _ _
    exact ⟨hw, rfl, [], (append_nil _).symm, fun j hj => absurd hj not_mem_nil⟩
  | succ n ih =>
    intro rt lo hw hbelow hroom
    have htail := rt.miss_tail lo
    obtain ⟨hwindow, htail', added, hadded, hrange⟩ := ih (rt.miss lo) (lo + 1)
      (hw.miss hbelow (by omega)) (fun s hs => Nat.lt_succ_of_lt (hbelow s hs))
      (by rw [htail]; omega)
    obtain ⟨first, hfirst, honly⟩ := rt.miss_nacks lo
    have hend : lo + 1 + n = lo + (n + 1) := by omega
    rw [hend] at hwindow hrange
    refine ⟨hwindow, htail'.trans htail, first ++ added, ?_, ?_⟩
    · rw [← append_assoc, ← hfirst]
      exact hadded
    · intro i hi
      rcases mem_append.mp hi with hmem | hmem
      · have heq := honly i hmem
        omega
      · have hboth := hrange i hmem
        omega

theorem Recv_Data.Window.mark {lo head' : ℕ} (h : rt.Window head handed) (hlo : lo ≤ rt.recv_tail)
    (hhead : head' ≤ lo + MAX_HISTORY) (hseq : lo ≤ seq_no) (hseq' : seq_no < lo + MAX_HISTORY)
    (hcover : ∀ j, j < head' → j = seq_no ∨ j < head) :
    (rt.mark now seq_no).Window head' (handed ++ [(seq_no, now)]) := by
  have hself : (rt.mark now seq_no).cell seq_no = ⟨.recvd, now⟩ := update_self ..
  have hother : ∀ j, rt.recv_tail ≤ j → j < head' → j ≠ seq_no →
      (rt.mark now seq_no).cell j = rt.cell j := by
    intro j hj hj' hne
    exact update_slot_ne rt.recv_window _ (hlo.trans hj) (by omega) hseq hseq' hne
  constructor
  · intro j hj hj' hflag
    by_cases hne : j = seq_no
    · subst hne
      rw [hself]
      exact mem_append_right _ (mem_singleton_self _)
    · rw [hother j hj hj' hne] at hflag ⊢
      exact mem_append_left _
        (h.sound j hj ((hcover j hj').resolve_left hne) hflag)
  · intro j hj hj' hin
    by_cases hne : j = seq_no
    · subst hne
      rw [hself]
      intro hempty
      cases hempty
    · rw [hother j hj hj' hne]
      rw [numbers_concat, mem_append, mem_singleton] at hin
      exact h.complete j hj ((hcover j hj').resolve_left hne) (hin.resolve_right hne)

/-! ## 10. One packet -/

structure Recv_Data.Inv (rt : Recv_Data) (now : Sp_Time) (handed : List (ℕ × Sp_Time)) :
    Prop where
  ordered : rt.recv_tail ≤ rt.recv_head
  room : rt.recv_head ≤ rt.recv_tail + MAX_HISTORY
  window : rt.Window rt.recv_head handed
  past : rt.Past now handed
  below : ∀ s ∈ numbers handed, s < rt.recv_head
  nodup : (numbers handed).Nodup
  times : ∀ s t, (s, t) ∈ handed → t.micros ≤ now.micros

theorem Recv_Data.Inv.later (h : rt.Inv now handed) (hnow : now.micros ≤ now'.micros) :
    rt.Inv now' handed :=
  ⟨h.ordered, h.room, h.window, h.past.mono hnow (List.Subset.refl _), h.below, h.nodup,
    fun s t hmem => (h.times s t hmem).trans hnow⟩

theorem Recv_Data.Inv.fresh (h : rt.Inv now handed) (hold : rt.old seq_no = false) :
    rt.recv_tail ≤ seq_no ∧ seq_no ∉ numbers handed := by
  have hnot := of_decide_eq_false hold
  push Not at hnot
  refine ⟨hnot.1, ?_⟩
  intro hin
  have hlt : seq_no < rt.recv_head := h.below seq_no hin
  exact h.window.complete seq_no hnot.1 hlt hin (hnot.2 hlt)

theorem Recv_Data.Inv.dropped (h : rt.Inv now handed) (hold : rt.old seq_no = true)
    (hfirst : seq_no ∉ numbers handed) : seq_no < rt.recv_tail ∧ Late now handed seq_no := by
  have hlow : seq_no < rt.recv_tail := by
    rcases of_decide_eq_true hold with hlt | ⟨hlt, hflag⟩
    · exact hlt
    · by_contra hge
      exact hfirst (mem_numbers (h.window.sound seq_no (not_lt.mp hge) hlt hflag))
  exact ⟨hlow, (h.past seq_no hlow).resolve_left hfirst⟩

theorem Recv_Data.Inv.hand {rt' : Recv_Data} (h : rt.Inv now handed)
    (hnew : seq_no ∉ numbers handed) (hhead : rt.recv_head ≤ rt'.recv_head)
    (hseq : seq_no < rt'.recv_head) (hordered : rt'.recv_tail ≤ rt'.recv_head)
    (hroom : rt'.recv_head ≤ rt'.recv_tail + MAX_HISTORY)
    (hwindow : rt'.Window rt'.recv_head (handed ++ [(seq_no, now)]))
    (hpast : rt'.Past now (handed ++ [(seq_no, now)])) :
    rt'.Inv now (handed ++ [(seq_no, now)]) := by
  refine ⟨hordered, hroom, hwindow, hpast, ?_, ?_, ?_⟩
  · intro s hs
    rw [numbers_concat, mem_append, mem_singleton] at hs
    rcases hs with hs | rfl
    · exact (h.below s hs).trans_le hhead
    · exact hseq
  · rw [numbers_concat]
    apply nodup_append.mpr
    refine ⟨h.nodup, nodup_singleton _, ?_⟩
    intro a ha b hb heq
    rw [mem_singleton] at hb
    exact hnew (hb ▸ heq ▸ ha)
  · intro s t hmem
    rcases mem_append.mp hmem with hmem | hmem
    · exact h.times s t hmem
    · obtain ⟨-, rfl⟩ := Prod.mk.inj (mem_singleton.mp hmem)
      exact le_refl _

theorem Recv_Data.raise_spec (h : rt.Inv now handed) (hseq : seq_no + 1 < 2 ^ 64)
    (hhigh : rt.recv_head ≤ seq_no) :
    ((rt.raise seq_no).mark now seq_no).Inv now (handed ++ [(seq_no, now)]) ∧
      ∃ added, (rt.raise seq_no).nack_buff = rt.nack_buff ++ added ∧
        ∀ i ∈ added, rt.recv_head ≤ i ∧ i < seq_no := by
  have hnew : (seq_no, now) ∈ handed ++ [(seq_no, now)] :=
    mem_append_right _ (mem_singleton_self _)
  have hroomy := Recv_Data.make_room_spec hseq hnew (seq_no + 1 - rt.recv_tail) rt h.window
    (h.past.mono (le_refl _) (subset_append_left _ _)) (h.ordered.trans hhigh) h.room
    (by omega)
  have htail_le := hroomy.tail_le
  have hroom := hroomy.room
  have hmissed := Recv_Data.miss_all_spec (seq_no - rt.recv_head)
    (rt.make_room seq_no (seq_no + 1 - rt.recv_tail)) rt.recv_head hroomy.window h.below (by omega)
  obtain ⟨hwindow, htail', added, hadded, hrange⟩ := hmissed
  have hend : rt.recv_head + (seq_no - rt.recv_head) = seq_no := by omega
  have hhead : (seq_no + 1) % 2 ^ 64 = seq_no + 1 := Nat.mod_eq_of_lt hseq
  rw [hend] at hwindow hrange
  have hraise : (rt.raise seq_no).recv_tail =
      (rt.make_room seq_no (seq_no + 1 - rt.recv_tail)).recv_tail := htail'
  have hraise_head : (rt.raise seq_no).recv_head = seq_no + 1 := hhead
  have hraise_window : (rt.raise seq_no).Window seq_no handed := ⟨hwindow.sound, hwindow.complete⟩
  refine ⟨?_, added, ?_, hrange⟩
  · apply h.hand
    · intro hin
      exact absurd (h.below seq_no hin) (not_lt.mpr hhigh)
    · change rt.recv_head ≤ (rt.raise seq_no).recv_head
      omega
    · change seq_no < (rt.raise seq_no).recv_head
      omega
    · change (rt.raise seq_no).recv_tail ≤ (rt.raise seq_no).recv_head
      omega
    · change (rt.raise seq_no).recv_head ≤ (rt.raise seq_no).recv_tail + MAX_HISTORY
      omega
    · change Recv_Data.Window _ (rt.raise seq_no).recv_head _
      rw [hraise_head]
      apply hraise_window.mark (le_refl _)
      · omega
      · omega
      · omega
      · intro j hj
        omega
    · intro j hj
      change j < (rt.raise seq_no).recv_tail at hj
      rw [hraise] at hj
      exact hroomy.past j hj
  · exact hadded.trans (congrArg (· ++ added) hroomy.nack_buff)

theorem Recv_Data.Inv.advance (h : rt.Inv now handed) :
    (rt.advance now).Inv now handed ∧ rt.Advanced now handed (rt.advance now) := by
  have hadv : rt.Advanced now handed (rt.advance now) :=
    Recv_Data.expire_spec now handed h.times _ rt h.window h.past h.ordered h.room
  have hhead := hadv.head
  have htail := hadv.tail
  have hroom := h.room
  refine ⟨⟨hadv.ordered, by omega, ?_, hadv.past, ?_, h.nodup, h.times⟩, hadv⟩
  · rw [hhead]
    exact hadv.window
  · rw [hhead]
    exact h.below

theorem Recv_Data.Inv.accept (h : rt.Inv now handed) (hseq : seq_no + 1 < 2 ^ 64)
    (hold : rt.old seq_no = false) :
    (rt.accept now seq_no).Inv now (handed ++ [(seq_no, now)]) ∧
      ∃ added, (rt.accept now seq_no).nack_buff = rt.nack_buff ++ added ∧
        ∀ i ∈ added, i ∉ numbers (handed ++ [(seq_no, now)]) := by
  obtain ⟨hlow, hnew⟩ := h.fresh hold
  obtain ⟨hinv, hadv⟩ := h.advance
  have hhead := hadv.head
  have htail := hadv.tail
  have hroom := h.room
  rw [Recv_Data.accept]
  split
  · rename_i hhigh
    obtain ⟨hmarked, added, hadded, hrange⟩ := Recv_Data.raise_spec hinv hseq hhigh
    refine ⟨hmarked, added, ?_, ?_⟩
    · rw [← hadv.nack_buff]
      exact hadded
    · intro i hi hin
      obtain ⟨hge, hlt⟩ := hrange i hi
      rw [numbers_concat, mem_append, mem_singleton] at hin
      rcases hin with hin | rfl
      · exact absurd (hinv.below i hin) (not_lt.mpr hge)
      · exact absurd hlt (lt_irrefl i)
  · rename_i hinside
    -- the tail may have passed the packet: its cell is still outside what is left
    refine ⟨?_, [], ?_, fun i hi => absurd hi not_mem_nil⟩
    · apply h.hand hnew
      · exact hhead.ge
      · exact not_le.mp hinside
      · exact hinv.ordered
      · exact hinv.room
      · apply hinv.window.mark htail
        · change (rt.advance now).recv_head ≤ rt.recv_tail + MAX_HISTORY
          omega
        · exact hlow
        · omega
        · intro j hj
          exact .inr hj
      · exact hadv.past.mono (le_refl _) (subset_append_left _ _)
    · rw [append_nil]
      exact hadv.nack_buff

/-! ## 11. Every run -/

structure Arrival.Handled (cf : Conf) (a : Arrival) (rt : Recv_Data)
    (handed : List (ℕ × Sp_Time)) (rt' : Recv_Data) (out : Option Msg) : Prop where
  dropped : out = none → a.seq_no cf ∉ numbers handed →
    a.seq_no cf < rt.recv_tail ∧ Late a.now handed (a.seq_no cf)
  once : out ≠ none → a.seq_no cf ∉ numbers handed
  requested : ∃ added, rt'.nack_buff = rt.nack_buff ++ added ∧
    ∀ i ∈ added, i ∉ numbers handed ∧ (out ≠ none → i ≠ a.seq_no cf)

theorem Arrival.Correct.unpack (h : a.Correct cf) : ∃ m, unpack cf 16 a.mem a.packet = some m := by
  obtain ⟨dh_size, hsize⟩ := isSome_iff_exists.mp h.routing
  have hlen : ¬(a.packet.body.take PACKET_BODY).length < SIZEOF_UDP_HEADER := not_lt.mpr h.udp_header
  apply isSome_iff_exists.mp
  rw [Datagram.unpack, if_neg hlen]
  simp only [hsize, bind_eq_bind, bind_some]
  rfl

theorem Arrival.Correct.process (h : a.Correct cf) (rt : Recv_Data) :
    ∃ out, a.process cf rt =
        some (if rt.old (a.seq_no cf) then rt else rt.accept a.now (a.seq_no cf), out) ∧
      (out = none ↔ rt.old (a.seq_no cf) = true) := by
  obtain ⟨dh_size, hsize⟩ := isSome_iff_exists.mp h.routing
  obtain ⟨m, hm⟩ := h.unpack
  have hlen : ¬(a.packet.body.take PACKET_BODY).length < SIZEOF_UDP_HEADER := not_lt.mpr h.udp_header
  refine ⟨Datagram.Process_RT_UDP_data_packet cf (rt.old (a.seq_no cf)) a.mem a.packet, ?_, ?_⟩
  · rw [Arrival.process, Process_RT_UDP_data_packet, if_neg hlen, hsize]
    rfl
  · rw [Datagram.Process_RT_UDP_data_packet, hm]
    split
    · rename_i hold
      exact ⟨fun _ => hold, fun _ => rfl⟩
    · rename_i hold
      refine ⟨?_, fun hold' => absurd hold' hold⟩
      intro hnone
      cases hnone

theorem Arrival.step {w : World} (h : a.Correct cf) (hclock : w.clock.micros ≤ a.now.micros)
    (hinv : w.rt.Inv w.clock w.handed) :
    ∃ rt out, a.process cf w.rt = some (rt, out) ∧
      rt.Inv a.now (w.hand cf a rt out).handed ∧ a.Handled cf w.rt w.handed rt out := by
  have hnow := hinv.later hclock
  obtain ⟨out, hprocess, hout⟩ := h.process w.rt
  refine ⟨_, out, hprocess, ?_⟩
  by_cases hold : w.rt.old (a.seq_no cf) = true
  · obtain rfl : out = none := hout.mpr hold
    rw [if_pos hold]
    refine ⟨hnow, ⟨fun _ hfirst => hnow.dropped hold hfirst, fun hne => absurd rfl hne, [], ?_, ?_⟩⟩
    · exact (append_nil _).symm
    · intro i hi
      exact absurd hi not_mem_nil
  · have hsome : out ≠ none := fun hnone => hold (hout.mp hnone)
    have hnew := hnow.fresh (Bool.eq_false_of_not_eq_true hold)
    obtain ⟨haccept, added, hadded, hnever⟩ :=
      hnow.accept h.fewer (Bool.eq_false_of_not_eq_true hold)
    rw [if_neg hold]
    refine ⟨?_, fun hnone => absurd hnone hsome, fun _ => hnew.2, added, hadded, ?_⟩
    · rw [World.hand, if_pos (isSome_iff_ne_none.mpr hsome)]
      exact haccept
    · intro i hi
      have hout := hnever i hi
      rw [numbers_concat, mem_append, mem_singleton, not_or] at hout
      exact ⟨hout.1, fun _ => hout.2⟩

theorem init_inv (clock : Sp_Time) : Recv_Data.init.Inv clock [] := by
  refine ⟨le_refl _, Nat.zero_le _, ⟨?_, ?_⟩, ?_, ?_, nodup_nil, ?_⟩
  · intro j _ hj
    exact absurd hj (Nat.not_lt_zero j)
  · intro j _ hj
    exact absurd hj (Nat.not_lt_zero j)
  · intro j hj
    exact absurd hj (Nat.not_lt_zero j)
  · intro s hs
    exact absurd hs not_mem_nil
  · intro s t hmem
    exact absurd hmem not_mem_nil

theorem step_inv {w w' : World} {e : Event} (h : w.rt.Inv w.clock w.handed) (hstep : Step cf w e w')
    : w'.rt.Inv w'.clock w'.handed := by
  cases e with
  | packet a =>
    obtain ⟨hcorrect, hclock, rt, out, hprocess, rfl⟩ := hstep
    obtain ⟨rt', out', hprocess', hinv, -⟩ := Arrival.step hcorrect hclock h
    obtain ⟨rfl, rfl⟩ := Prod.mk.inj (some.inj (hprocess.symm.trans hprocess'))
    exact hinv
  | nack =>
    obtain rfl : w' = _ := hstep
    exact ⟨h.ordered, h.room, ⟨h.window.sound, h.window.complete⟩, h.past, h.below, h.nodup,
      h.times⟩

/-- However the network treats the packets of a correct sender, each number is handed on
at most once, the tail and the head stay `MAX_HISTORY` close, a packet that was not handed
on before is dropped only when it is late, and only numbers that were not handed on are
requested. -/
theorem realtime_delivery (cf : Conf) (clock : Sp_Time) (w : World)
    (hrun : Run (Step cf) (World.init clock) w) :
    (numbers w.handed).Nodup ∧ w.rt.recv_tail ≤ w.rt.recv_head ∧
      w.rt.recv_head ≤ w.rt.recv_tail + MAX_HISTORY ∧
      ∀ a : Arrival, a.Correct cf → w.clock.micros ≤ a.now.micros →
        ∃ rt out, a.process cf w.rt = some (rt, out) ∧ a.Handled cf w.rt w.handed rt out := by
  have hinv : w.rt.Inv w.clock w.handed :=
    Run.invariant (fun w : World => w.rt.Inv w.clock w.handed) (init_inv clock)
      (fun _ _ _ h hstep => step_inv h hstep) hrun
  refine ⟨hinv.nodup, hinv.ordered, hinv.room, ?_⟩
  intro a hcorrect hclock
  obtain ⟨rt, out, hprocess, -, hhandled⟩ := Arrival.step hcorrect hclock hinv
  exact ⟨rt, out, hprocess, hhandled⟩

def ping : Arrival :=
  { packet := { data_len := 28, ack_len := 8, body := replicate 28 0 ++ le_bytes 8 2 }
    sender := .little
    mem := fun _ => 0
    now := ⟨1, 0⟩ }

def ping_conf : Conf :=
  { endian := .little, bitmask_size := 8, prio_signature_len := 0, rel_signature_len := 0
    fast_retransmit := false }

theorem ping_correct : ping.Correct ping_conf :=
  ⟨by decide +kernel, by decide +kernel, by decide +kernel⟩

theorem realtime_delivery_ping :
    ∃ w, Run (Step ping_conf) (World.init ⟨0, 0⟩) w ∧ numbers w.handed = [2] ∧
      (numbers w.handed).Nodup ∧ w.rt.recv_head ≤ w.rt.recv_tail + MAX_HISTORY := by
  have hclock : (World.init ⟨0, 0⟩).clock.micros ≤ ping.now.micros := by decide
  have hseq : ping.seq_no ping_conf = 2 := by decide +kernel
  obtain ⟨out, hprocess, hout⟩ := ping_correct.process (World.init ⟨0, 0⟩).rt
  have hsome : out ≠ none := by
    intro hnone
    rw [hseq] at hout
    exact absurd (hout.mp hnone) (by decide)
  have hrun : Run (Step ping_conf) (World.init ⟨0, 0⟩) _ :=
    Run.tail (Run.refl _) (e := .packet ping) ⟨ping_correct, hclock, _, out, hprocess, rfl⟩
  obtain ⟨hnodup, -, hroom, -⟩ := realtime_delivery ping_conf ⟨0, 0⟩ _ hrun
  refine ⟨_, hrun, ?_, hnodup, hroom⟩
  rw [World.hand, if_pos (isSome_iff_ne_none.mpr hsome), hseq]
  rfl

end Spines.Datagram.Realtime
