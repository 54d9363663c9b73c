/-
`daemon/reliable_datagram.c`: the sending half of a reliable link.

A message gets its number before it is known whether it goes out: `Reliable_Send_Msg` numbers
it, sends what waits, and puts the message behind the rest if there is no room. Numbers are
`int32u` and start again from 0; a message that is in flight is in the cell of its number
modulo `MAX_WINDOW`, which does not divide 2^32.

Counted without the wrap, messages `tail, …, head - 1` are in flight and the others wait
(`Sender`). When `head` has come round, an acknowledgement is above `head` or not above `tail`,
and `tail` stays for good; the cells are shared from the 7297th message in flight on
(`shared_cell`). `Minimum_Window` is not compared with the maximum, so with `TCP_Fairness` the
window can also be too large from the start (`too_large`).

Timers and round trip times are left out, so a timeout may happen whenever the link is connected.
-/
import Spines.Lib.Run
import Mathlib.Data.Rat.Floor

set_option autoImplicit false

namespace Spines.ReliableLink

open Spines.Lib Function List

/-! ## 1. The state of a link -/

abbrev Bytes := List UInt8

def MAX_WINDOW : ℕ := 20000
def MAX_CG_WINDOW : ℕ := 20000
def MAX_BUFF_LINK : ℕ := 10000
def UDP_DATA_TYPE : ℕ := 2
def REL_UDP_DATA_TYPE : ℕ := 3
def ECN_DATA_T1 : ℕ := 0x100
def ECN_DATA_T2 : ℕ := 0x200
def ECN_DATA_T3 : ℕ := 0x300
def ECN_DATA_MASK : ℕ := 0x300

/-- Rounding to a `float`: it keeps the order and the integers of 24 bits, and its error is at
most the number itself. -/
structure Rounding where
  to_float : ℚ → ℚ
  mono : Monotone to_float
  exact : ∀ n : ℕ, n ≤ 2 ^ 24 → to_float n = n
  near : ∀ q, |to_float q - q| ≤ |q|

structure Config where
  TCP_Fairness : Bool
  Stream_Fairness : Bool
  Minimum_Window : ℤ
  rounding : Rounding

def Config.to_float (c : Config) : ℚ → ℚ := c.rounding.to_float

/-- A message with its number. The cell of a message that was acknowledged has no `buff`. -/
structure Buffer_Cell where
  seq_no : ℕ
  buff : Option Bytes
  pack_type : ℕ

structure Reliable_Data where
  /-- `flags & CONNECTED_LINK` -/
  connected : Bool
  seq_no : ℕ
  msg_buff : List Buffer_Cell
  window_size : ℚ
  max_window : ℕ
  ssthresh : ℕ
  window : ℕ → Buffer_Cell
  head : ℕ
  tail : ℕ
  cong_flag : Bool

inductive Exit
  | smaller_seq_no
  | reliability_failure
  | not_valid
  /-- a message that is not there is read -/
  | null
  deriving DecidableEq, Repr

def int32u (n : ℕ) : ℕ := n % 2 ^ 32

/-- `head - tail` -/
def Reliable_Data.in_flight (r : Reliable_Data) : ℕ := int32u (r.head + 2 ^ 32 - r.tail)

/-- `head - tail < window_size` -/
def Reliable_Data.room (c : Config) (r : Reliable_Data) : Bool :=
  c.to_float r.in_flight < r.window_size

def Create_Link (c : Config) : Reliable_Data where
  connected := false
  seq_no := 0
  msg_buff := []
  window_size := if c.TCP_Fairness then c.to_float c.Minimum_Window else MAX_CG_WINDOW
  max_window := MAX_CG_WINDOW
  ssthresh := MAX_CG_WINDOW
  window := fun _ => { seq_no := 0, buff := none, pack_type := 0 }
  head := 0
  tail := 0
  cong_flag := true

/-! ## 2. Sending -/

def Reliable_Data.put (r : Reliable_Data) (cell : Buffer_Cell) : Reliable_Data :=
  { r with
    window := Function.update r.window (cell.seq_no % MAX_WINDOW) cell
    head := int32u (cell.seq_no + 1) }

def ecn_mark (buff_size pack_type : ℕ) : ℕ :=
  if MAX_BUFF_LINK / 4 < buff_size ∧ buff_size ≤ MAX_BUFF_LINK / 2 then
    if pack_type &&& ECN_DATA_MASK = 0 then pack_type ||| ECN_DATA_T1 else pack_type
  else if MAX_BUFF_LINK / 2 < buff_size ∧ buff_size ≤ MAX_BUFF_LINK then
    if pack_type &&& ECN_DATA_MASK < ECN_DATA_T2 then
      (if pack_type &&& ECN_DATA_MASK = ECN_DATA_T1 then pack_type ^^^ ECN_DATA_T1
        else pack_type) ||| ECN_DATA_T2
    else pack_type
  else if MAX_BUFF_LINK < buff_size then pack_type ||| ECN_DATA_T3
  else pack_type

/-- The loop of `Send_Much` over the messages that wait. -/
def send_waiting (c : Config) (buff_size : ℕ) :
    List Buffer_Cell → Reliable_Data → Except Exit Reliable_Data
  | [], r => .ok { r with msg_buff := [] }
  | buf_cell :: rest, r =>
    if r.room c then
      if buf_cell.seq_no < r.head then .error .smaller_seq_no
      else
        send_waiting c buff_size rest
          (r.put { buf_cell with pack_type := ecn_mark buff_size buf_cell.pack_type })
    else .ok { r with msg_buff := buf_cell :: rest }

def Send_Much (c : Config) (r : Reliable_Data) : Except Exit Reliable_Data :=
  if ¬r.connected then .ok r
  else if ¬r.room c then .ok r
  else if r.msg_buff.isEmpty then .ok r
  else send_waiting c r.msg_buff.length r.msg_buff r

def send_or_wait (c : Config) (cell : Buffer_Cell) (r : Reliable_Data) :
    Except Exit Reliable_Data :=
  if ¬r.room c ∨ ¬r.msg_buff.isEmpty ∨ ¬r.connected then
    .ok { r with msg_buff := r.msg_buff ++ [cell] }
  else if cell.seq_no < r.head then .error .smaller_seq_no
  else .ok (r.put cell)

def Reliable_Send_Msg (c : Config) (buff : Bytes) (pack_type : ℕ) (r : Reliable_Data) :
    Except Exit Reliable_Data :=
  let cell : Buffer_Cell := { seq_no := r.seq_no, buff := some buff, pack_type := pack_type }
  let r := { r with seq_no := int32u (r.seq_no + 1) }
  (if r.connected then Send_Much c r else .ok r) >>= send_or_wait c cell

/-! ## 3. Acknowledgements and congestion control -/

/-- Body of the loop that counts the messages of the stream of `cur`. -/
def count_one (c : Config) (r : Reliable_Data) (cur : Buffer_Cell) (stream : ℚ) (cur_seq : ℕ) :
    Except Exit ℚ :=
  match (r.window (cur_seq % MAX_WINDOW)).buff, cur.buff with
  | some buff, some cur_uhdr =>
    .ok (if buff.take 12 = cur_uhdr.take 12 then c.to_float (stream + 1) else stream)
  | _, _ => .error .null

/-- `stream_window`, for the stream of the message with number `seq_no`. -/
def stream_window (c : Config) (r : Reliable_Data) (seq_no : ℕ) : Except Exit ℚ :=
  let cur := r.window (seq_no % MAX_WINDOW)
  if c.Stream_Fairness ∧
      (cur.pack_type &&& UDP_DATA_TYPE ≠ 0 ∨ cur.pack_type &&& REL_UDP_DATA_TYPE ≠ 0) then do
    let limit := c.to_float (c.to_float r.tail + r.window_size)
    let seqs := (range' r.tail (r.head - r.tail)).takeWhile fun cur_seq : ℕ =>
      c.to_float cur_seq < limit
    let stream ← seqs.foldlM (count_one c r cur) 0
    .ok (if stream = 0 then 1 else stream)
  else .ok r.window_size

def Reliable_Data.grow (c : Config) (stream : ℚ) (r : Reliable_Data) : Reliable_Data :=
  let window_size :=
    if r.window_size < c.to_float r.ssthresh then c.to_float (r.window_size + 1)
    else c.to_float (r.window_size + c.to_float (1 / stream))
  { r with
    window_size :=
      if c.to_float r.max_window < window_size then c.to_float r.max_window else window_size }

/-- The window shrinks to `window_size`, but not below the minimum. -/
def Reliable_Data.shrink (c : Config) (stream window_size : ℚ) (r : Reliable_Data) :
    Reliable_Data :=
  let ssthresh := ⌊c.to_float (r.window_size - c.to_float (stream / 2))⌋.toNat
  let minimum := (c.Minimum_Window % 2 ^ 32).toNat
  { r with
    ssthresh := if ssthresh < minimum then minimum else ssthresh
    window_size :=
      if window_size < c.to_float c.Minimum_Window then c.to_float c.Minimum_Window
      else window_size }

def ack_one (c : Config) (r : Reliable_Data) (i : ℕ) : Except Exit Reliable_Data :=
  let cell := r.window (i % MAX_WINDOW)
  if cell.buff = none then .error .reliability_failure
  else do
    let r := { r with
      window := Function.update r.window (i % MAX_WINDOW)
        { cell with buff := none, pack_type := 0 } }
    let stream ← stream_window c r r.tail
    let r := { r with tail := int32u (r.tail + 1) }
    .ok (if c.TCP_Fairness ∧ ¬r.msg_buff.isEmpty then r.grow c stream else r)

/-- The part of `Process_Ack` that the sender is concerned with. -/
def Process_Ack (c : Config) (cummulative_ack : ℕ) (r : Reliable_Data) :
    Except Exit Reliable_Data :=
  if r.head < cummulative_ack then .ok r
  else (range' r.tail (cummulative_ack - r.tail)).foldlM (ack_one c) r

def Reliable_timeout (c : Config) (r : Reliable_Data) : Except Exit Reliable_Data :=
  if ¬r.connected then .error .not_valid
  else if r.head = r.tail then .ok r
  else do
    let stream ← stream_window c r r.tail
    .ok (if c.TCP_Fairness then
      r.shrink c stream (c.to_float (c.to_float (r.window_size - stream) + 1)) else r)

/-- `Send_Nack_Retransm`; `nack_seq` is the first number of the NACKs that have come. -/
def Send_Nack_Retransm (c : Config) (nack_seq : ℕ) (r : Reliable_Data) :
    Except Exit Reliable_Data :=
  if ¬r.connected then .error .not_valid
  else if r.head = r.tail then .ok r
  else do
    let stream ← stream_window c r nack_seq
    .ok (if c.TCP_Fairness then
      (if r.cong_flag then r.shrink c stream (c.to_float (r.window_size - c.to_float (stream / 2)))
        else { r with cong_flag := true }) else r)

/-! ## 4. Runs -/

inductive Event
  | connect
  | Reliable_Send_Msg (buff : Bytes) (pack_type : ℕ)
  | Try_to_Send
  | Process_Ack (cummulative_ack : ℕ)
  | Reliable_timeout
  | Send_Nack_Retransm (nack_seq : ℕ)

def step (c : Config) (r : Reliable_Data) : Event → Except Exit Reliable_Data
  | .connect => .ok { r with connected := true }
  | .Reliable_Send_Msg buff pack_type => Reliable_Send_Msg c buff pack_type r
  | .Try_to_Send => Send_Much c r
  | .Process_Ack cummulative_ack => if r.connected then Process_Ack c cummulative_ack r else .ok r
  | .Reliable_timeout => Reliable_timeout c r
  | .Send_Nack_Retransm nack_seq => Send_Nack_Retransm c nack_seq r

def Event.given (log : List Bytes) : Event → List Bytes
  | .Reliable_Send_Msg buff _ => log ++ [buff]
  | _ => log

def Step (c : Config) (s : Reliable_Data × List Bytes) (e : Event)
    (s' : Reliable_Data × List Bytes) : Prop :=
  step c s.1 e = .ok s'.1 ∧ s'.2 = e.given s.2

/-- The link `r` is reached, and was given the messages `log`. -/
def Reached (c : Config) (r : Reliable_Data) (log : List Bytes) : Prop :=
  Run (Step c) (Create_Link c, []) (r, log)

/-! ## 5. What the window is meant to be -/

def Reliable_Data.acked (r : Reliable_Data) (log : List Bytes) : ℕ :=
  log.length - r.msg_buff.length - r.in_flight

/-- The messages that wait are the last ones, and numbered `head, …, seq_no - 1`. -/
structure Waiting (r : Reliable_Data) (log : List Bytes) : Prop where
  enough : r.in_flight + r.msg_buff.length ≤ log.length
  tail : r.tail = int32u (r.acked log)
  messages : r.msg_buff.map Buffer_Cell.buff =
    (log.drop (log.length - r.msg_buff.length)).map some
  numbers : r.msg_buff.map Buffer_Cell.seq_no =
    (range r.msg_buff.length).map fun i => int32u (r.head + i)
  seq_no : r.seq_no = int32u (r.head + r.msg_buff.length)

/-- The window has the messages `tail, …, head - 1`, each in the cell of its number, and no
others. -/
structure OnRing (r : Reliable_Data) (log : List Bytes) : Prop where
  holds : ∀ i < r.in_flight,
    (r.window (int32u (r.tail + i) % MAX_WINDOW)).buff = log[r.acked log + i]? ∧
    (r.window (int32u (r.tail + i) % MAX_WINDOW)).seq_no = int32u (r.tail + i)
  only : ∀ k, (r.window k).buff ≠ none → ∃ i < r.in_flight,
    (r.window k).seq_no = int32u (r.tail + i)

/-! ## 6. The window with numbers that do not wrap -/

section Window

variable {c : Config} {r r' : Reliable_Data} {log : List Bytes} {T H : ℕ}

/-- Messages `T, …, H - 1`, and no others, are in their cells. -/
structure Placed (r : Reliable_Data) (log : List Bytes) (T H : ℕ) : Prop where
  holds : ∀ n, T ≤ n → n < H →
    (r.window (int32u n % MAX_WINDOW)).buff = log[n]? ∧
    (r.window (int32u n % MAX_WINDOW)).seq_no = int32u n
  only : ∀ k, (r.window k).buff ≠ none → ∃ n, T ≤ n ∧ n < H ∧
    k = int32u n % MAX_WINDOW ∧ (r.window k).seq_no = int32u n

/-- The link was given the messages `log`, put `H` of them into the window, and `T` were
acknowledged. -/
structure Sender (r : Reliable_Data) (log : List Bytes) (T H : ℕ) : Prop where
  le : T ≤ H
  total : H + r.msg_buff.length = log.length
  tail_lt : T < 2 ^ 32
  near : H ≤ T + MAX_WINDOW
  head : r.head = int32u H
  tail : r.tail = T
  queue : ∀ i cell, r.msg_buff[i]? = some cell →
    cell.seq_no = int32u (H + i) ∧ cell.buff = log[H + i]?
  size : r.window_size ≤ MAX_WINDOW
  max : r.max_window = MAX_WINDOW
  placed : H ≤ 2 ^ 32 ∨ H ≤ T + 7296 → Placed r log T H

theorem int32u_of_lt {n : ℕ} (h : n < 2 ^ 32) : int32u n = n := Nat.mod_eq_of_lt h

theorem int32u_of_le {n : ℕ} (h : 2 ^ 32 ≤ n) (h' : n < 2 ^ 33) : int32u n = n - 2 ^ 32 := by
  rw [int32u]
  omega

theorem cell_inj {m n : ℕ} (hT : T ≤ m) (hmn : m < n) (hH : n < H) (hlt : T < 2 ^ 32)
    (hnear : H ≤ T + MAX_WINDOW) (hfit : H ≤ 2 ^ 32 ∨ H ≤ T + 7296) :
    int32u m % MAX_WINDOW ≠ int32u n % MAX_WINDOW := by
  simp only [MAX_WINDOW] at hnear ⊢
  obtain hm | hm := Nat.lt_or_ge m (2 ^ 32)
  · obtain hn | hn := Nat.lt_or_ge n (2 ^ 32)
    · rw [int32u_of_lt hm, int32u_of_lt hn]
      omega
    · rw [int32u_of_lt hm, int32u_of_le hn (by omega)]
      omega
  · rw [int32u_of_le hm (by omega), int32u_of_le (by omega) (by omega)]
    omega

theorem shared_cell (hle : T < 2 ^ 32) (hwrap : 2 ^ 32 < H) (hlong : T + 7296 < H) :
    ∃ m n, T ≤ m ∧ n < H ∧ m ≤ n ∧ int32u m % MAX_WINDOW = int32u n % MAX_WINDOW ∧
      int32u m ≠ int32u n := by
  refine ⟨max T (2 ^ 32 - 7296), max T (2 ^ 32 - 7296) + 7296, ?_⟩
  simp only [int32u, MAX_WINDOW]
  omega

theorem Sender.in_flight (h : Sender r log T H) : r.in_flight = H - T := by
  have hnear := h.near
  have hle := h.le
  have hlt := h.tail_lt
  rw [Reliable_Data.in_flight, h.head, h.tail]
  simp only [int32u, MAX_WINDOW] at hnear ⊢
  omega

theorem Sender.room_lt (h : Sender r log T H) (hroom : r.room c) : H < T + MAX_WINDOW := by
  by_contra hfull
  have hle := h.le
  have hnear := h.near
  have hflight : r.in_flight = MAX_WINDOW := by
    rw [h.in_flight]
    omega
  have hexact : c.to_float (MAX_WINDOW : ℕ) = (MAX_WINDOW : ℕ) :=
    c.rounding.exact MAX_WINDOW (by decide)
  rw [Reliable_Data.room, hflight, hexact, decide_eq_true_iff] at hroom
  exact absurd h.size (not_le.mpr hroom)

theorem Sender.put {cell cell' : Buffer_Cell} {rest : List Buffer_Cell}
    (h : Sender { r with msg_buff := cell :: rest } log T H) (hroom : r.room c)
    (hseq : cell'.seq_no = cell.seq_no) (hbuff : cell'.buff = cell.buff) :
    Sender { r.put cell' with msg_buff := rest } log T (H + 1) := by
  have hlt : H < T + MAX_WINDOW := h.room_lt (c := c) hroom
  have htotal := h.total
  obtain ⟨hnum, hmsg⟩ := h.queue 0 cell rfl
  rw [add_zero] at hnum hmsg
  rw [length_cons] at htotal
  refine ⟨h.le.trans (Nat.le_succ H), ?_, h.tail_lt, hlt, ?_, h.tail, ?_, h.size, h.max, ?_⟩
  · dsimp only
    omega
  · simp only [Reliable_Data.put, hseq, hnum, int32u]
    omega
  · intro i next hi
    have hnext := h.queue (i + 1) next hi
    rwa [show H + 1 + i = H + (i + 1) by omega]
  · intro hfit
    have hplaced := h.placed (by omega)
    have hapart : ∀ n, T ≤ n → n < H → int32u n % MAX_WINDOW ≠ int32u H % MAX_WINDOW :=
      fun n hT hn => cell_inj hT hn (Nat.lt_succ_self H) h.tail_lt hlt hfit
    have hnew : (cell'.seq_no % MAX_WINDOW) = int32u H % MAX_WINDOW := by rw [hseq, hnum]
    constructor
    · intro n hT hn
      obtain hold | rfl := Nat.lt_succ_iff_lt_or_eq.mp hn
      · simp only [Reliable_Data.put, hnew, update_of_ne (hapart n hT hold)]
        exact hplaced.holds n hT hold
      · simp only [Reliable_Data.put, hnew, update_self]
        exact ⟨hbuff.trans hmsg, hseq.trans hnum⟩
    · intro k hk
      by_cases hkH : k = int32u H % MAX_WINDOW
      · refine ⟨H, h.le, Nat.lt_succ_self H, hkH, ?_⟩
        simp only [Reliable_Data.put, hnew, hkH, update_self]
        exact hseq.trans hnum
      · simp only [Reliable_Data.put, hnew, update_of_ne hkH] at hk ⊢
        obtain ⟨n, hT, hn, hcell, hn'⟩ := hplaced.only k hk
        exact ⟨n, hT, hn.trans (Nat.lt_succ_self H), hcell, hn'⟩

theorem Sender.head_le (h : Sender r log T H) (cell : Buffer_Cell) (rest : List Buffer_Cell)
    (hq : r.msg_buff = cell :: rest) : ¬cell.seq_no < r.head := by
  have hnum := (h.queue 0 cell (by rw [hq]; rfl)).1
  rw [add_zero] at hnum
  rw [hnum, h.head]
  exact lt_irrefl _

theorem send_waiting_spec (buff_size : ℕ) (cells : List Buffer_Cell)
    (h : Sender { r with msg_buff := cells } log T H) :
    ∃ r' H', send_waiting c buff_size cells r = .ok r' ∧ Sender r' log T H' ∧
      r'.seq_no = r.seq_no ∧ r'.connected = r.connected := by
  induction cells generalizing r H with
  | nil => exact ⟨_, H, rfl, h, rfl, rfl⟩
  | cons cell rest ih =>
    rw [send_waiting]
    by_cases hroom : r.room c
    · rw [if_pos hroom, if_neg (h.head_le cell rest rfl)]
      have hput : Sender { r.put { cell with
          pack_type := ecn_mark buff_size cell.pack_type } with msg_buff := rest } log T (H + 1) :=
        h.put (c := c) hroom rfl rfl
      exact ih hput
    · exact ⟨_, H, if_neg hroom, h, rfl, rfl⟩

theorem send_much_spec (h : Sender r log T H) :
    ∃ r' H', Send_Much c r = .ok r' ∧ Sender r' log T H' ∧ r'.seq_no = r.seq_no ∧
      r'.connected = r.connected := by
  have hstay : ∃ r' H', (.ok r : Except Exit Reliable_Data) = .ok r' ∧ Sender r' log T H' ∧
      r'.seq_no = r.seq_no ∧ r'.connected = r.connected := ⟨r, H, rfl, h, rfl, rfl⟩
  unfold Send_Much
  split
  · exact hstay
  split
  · exact hstay
  split
  · exact hstay
  · exact send_waiting_spec r.msg_buff.length r.msg_buff h

theorem Sender.push (h : Sender r log T H) (buff : Bytes) (pack_type : ℕ) :
    Sender { r with
      msg_buff := r.msg_buff ++
        [{ seq_no := int32u log.length, buff := some buff, pack_type := pack_type }] }
      (log ++ [buff]) T H := by
  have htotal := h.total
  have hkept : ∀ n < log.length, (log ++ [buff])[n]? = log[n]? :=
    fun n hn => List.getElem?_append_left hn
  refine ⟨h.le, ?_, h.tail_lt, h.near, h.head, h.tail, ?_, h.size, h.max, fun hfit => ?_⟩
  · simp only [length_append, length_singleton]
    omega
  · intro i cell hi
    dsimp only at hi
    obtain hlt | hge := Nat.lt_or_ge i r.msg_buff.length
    · rw [List.getElem?_append_left hlt] at hi
      rw [hkept _ (by omega)]
      exact h.queue i cell hi
    · obtain ⟨hlast, rfl⟩ : i = r.msg_buff.length ∧
          { seq_no := int32u log.length, buff := some buff, pack_type := pack_type } = cell := by
        rw [List.getElem?_append_right hge, List.getElem?_singleton] at hi
        split at hi
        · exact ⟨by omega, Option.some.inj hi⟩
        · cases hi
      rw [show H + i = log.length by omega]
      exact ⟨rfl, List.getElem?_concat_length.symm⟩
  · have hplaced := h.placed hfit
    refine ⟨fun n hT hn => ?_, hplaced.only⟩
    rw [hkept n (by omega)]
    exact hplaced.holds n hT hn

theorem reliable_send_msg_spec (h : Sender r log T H) (hseq : r.seq_no = int32u log.length)
    (buff : Bytes) (pack_type : ℕ) :
    ∃ r' H', Reliable_Send_Msg c buff pack_type r = .ok r' ∧ Sender r' (log ++ [buff]) T H' ∧
      r'.seq_no = int32u (log ++ [buff]).length := by
  have hnumbered : Sender { r with seq_no := int32u (r.seq_no + 1) } log T H :=
    ⟨h.le, h.total, h.tail_lt, h.near, h.head, h.tail, h.queue, h.size, h.max,
      fun hfit => ⟨(h.placed hfit).holds, (h.placed hfit).only⟩⟩
  have hnext : int32u (r.seq_no + 1) = int32u (log ++ [buff]).length := by
    rw [hseq, length_append, length_singleton]
    simp only [int32u]
    omega
  obtain ⟨r1, H1, hrun, hsent, hseq1, -⟩ : ∃ r' H',
      (if r.connected then Send_Much c { r with seq_no := int32u (r.seq_no + 1) }
        else .ok { r with seq_no := int32u (r.seq_no + 1) }) = .ok r' ∧ Sender r' log T H' ∧
        r'.seq_no = int32u (r.seq_no + 1) ∧ r'.connected = r.connected := by
    split
    · exact send_much_spec hnumbered
    · exact ⟨_, H, rfl, hnumbered, rfl, rfl⟩
  have hpushed := hsent.push buff pack_type
  rw [← hseq] at hpushed
  unfold Reliable_Send_Msg
  dsimp only
  rw [hrun]
  change ∃ r' H', send_or_wait c _ r1 = .ok r' ∧ _
  unfold send_or_wait
  split
  · exact ⟨_, H1, rfl, hpushed, hseq1.trans hnext⟩
  · rename_i hgo
    obtain ⟨hroom, hempty, -⟩ : r1.room c ∧ r1.msg_buff = [] ∧ r1.connected = true := by
      simpa using hgo
    rw [hempty, nil_append] at hpushed
    rw [if_neg (hpushed.head_le _ [] rfl)]
    have hput := hpushed.put (r := r1) (c := c) hroom rfl rfl
    rw [← hempty] at hput
    exact ⟨_, H1 + 1, rfl, hput, hseq1.trans hnext⟩

/-! ## 7. Acknowledgements and congestion control keep the window -/

theorem max_float (c : Config) : c.to_float MAX_WINDOW = MAX_WINDOW :=
  c.rounding.exact MAX_WINDOW (by decide)

theorem float_le {q : ℚ} (h : q ≤ MAX_WINDOW) : c.to_float q ≤ MAX_WINDOW :=
  (c.rounding.mono h).trans_eq (max_float c)

def Config.Fits (c : Config) : Prop := c.TCP_Fairness → c.Minimum_Window ≤ MAX_CG_WINDOW

theorem Config.Fits.minimum (h : c.Fits) (htcp : c.TCP_Fairness) :
    c.to_float c.Minimum_Window ≤ MAX_WINDOW := by
  have hle : (c.Minimum_Window : ℚ) ≤ ((MAX_CG_WINDOW : ℤ) : ℚ) := Int.cast_le.mpr (h htcp)
  exact float_le hle

theorem count_one_le {cur : Buffer_Cell} {cur_seq : ℕ} {stream stream' : ℚ}
    (hpos : stream = 0 ∨ 1 ≤ stream) (h : count_one c r cur stream cur_seq = .ok stream') :
    stream' = 0 ∨ 1 ≤ stream' := by
  unfold count_one at h
  split at h
  · obtain rfl := Except.ok.inj h
    split
    · right
      have hone : c.to_float (1 : ℕ) = (1 : ℕ) := c.rounding.exact 1 (by decide)
      rw [Nat.cast_one] at hone
      rw [← hone]
      refine c.rounding.mono ?_
      obtain rfl | hpos := hpos <;> linarith
    · exact hpos
  · cases h

theorem stream_window_le {seq_no : ℕ} {stream : ℚ} (h : stream_window c r seq_no = .ok stream) :
    stream = r.window_size ∨ 1 ≤ stream := by
  have hcount : ∀ (seqs : List ℕ) (cur : Buffer_Cell) (s s' : ℚ), (s = 0 ∨ 1 ≤ s) →
      seqs.foldlM (count_one c r cur) s = .ok s' → s' = 0 ∨ 1 ≤ s' := by
    intro seqs cur
    induction seqs with
    | nil =>
      rintro s s' hs hrun
      obtain rfl := Except.ok.inj hrun
      exact hs
    | cons seq seqs ih =>
      intro s s' hs hrun
      rw [foldlM_cons] at hrun
      cases hone : count_one c r cur s seq with
      | error e =>
        rw [hone] at hrun
        cases hrun
      | ok t =>
        rw [hone] at hrun
        exact ih t s' (count_one_le hs hone) hrun
  unfold stream_window at h
  dsimp only at h
  split at h
  · right
    dsimp only [bind, Except.bind] at h
    split at h
    · cases h
    · rename_i counted hfold
      obtain rfl := Except.ok.inj h
      split
      · exact le_rfl
      · rename_i hzero
        exact (hcount _ _ _ _ (.inl rfl) hfold).resolve_left hzero
  · exact .inl (Except.ok.inj h).symm

theorem Sender.resize (h : Sender r log T H) {window_size : ℚ} (hsize : window_size ≤ MAX_WINDOW)
    (ssthresh : ℕ) (cong_flag connected : Bool) :
    Sender { r with
      connected := connected
      window_size := window_size
      ssthresh := ssthresh
      cong_flag := cong_flag } log T H :=
  ⟨h.le, h.total, h.tail_lt, h.near, h.head, h.tail, h.queue, hsize, h.max,
    fun hfit => ⟨(h.placed hfit).holds, (h.placed hfit).only⟩⟩

theorem Sender.grow (h : Sender r log T H) (stream : ℚ) : Sender (r.grow c stream) log T H := by
  have hcut : ∀ w, (if c.to_float MAX_WINDOW < w then c.to_float MAX_WINDOW else w) ≤ MAX_WINDOW := by
    intro w
    split
    · exact (max_float c).le
    · rename_i hle
      exact (not_lt.mp hle).trans_eq (max_float c)
  refine h.resize ?_ r.ssthresh r.cong_flag r.connected
  rw [h.max]
  exact hcut _

theorem Sender.shrink (h : Sender r log T H) (hc : c.Fits) (htcp : c.TCP_Fairness) (stream : ℚ)
    {window_size : ℚ} (hsize : window_size ≤ MAX_WINDOW) :
    Sender (r.shrink c stream window_size) log T H := by
  refine h.resize ?_ _ r.cong_flag r.connected
  split
  · exact hc.minimum htcp
  · exact hsize

theorem ack_one_spec (h : Sender r log T H) (hlt : T < H) (hhead : H < 2 ^ 32) :
    ∃ r', ack_one c r T = .ok r' ∧ Sender r' log (T + 1) H ∧ r'.seq_no = r.seq_no := by
  have hplaced := h.placed (.inl hhead.le)
  have htotal := h.total
  have hT : int32u T = T := int32u_of_lt h.tail_lt
  obtain ⟨hmsg, hnum⟩ := hplaced.holds T le_rfl hlt
  rw [hT] at hmsg hnum
  have hthere : (r.window (T % MAX_WINDOW)).buff ≠ none := by
    rw [hmsg, List.getElem?_eq_getElem (by omega)]
    exact Option.some_ne_none _
  unfold ack_one
  dsimp only
  rw [if_neg hthere]
  -- the cell was just emptied, and so is of no stream
  have hstream : stream_window c { r with
      window := update r.window (T % MAX_WINDOW)
        { r.window (T % MAX_WINDOW) with buff := none, pack_type := 0 } } r.tail =
      .ok r.window_size := by
    simp [stream_window, h.tail]
  have hleft : Sender { r with
      window := update r.window (T % MAX_WINDOW)
        { r.window (T % MAX_WINDOW) with buff := none, pack_type := 0 }
      tail := int32u (r.tail + 1) } log (T + 1) H := by
    refine ⟨hlt, h.total, by omega, h.near.trans (by omega), h.head, ?_, h.queue, h.size, h.max,
      fun _ => ⟨fun n hTn hn => ?_, fun k hk => ?_⟩⟩
    · rw [h.tail]
      exact int32u_of_lt (by omega)
    · have hapart := cell_inj (T := T) (m := T) le_rfl (by omega) hn h.tail_lt h.near (.inl hhead.le)
      rw [hT] at hapart
      dsimp only
      rw [update_of_ne hapart.symm]
      exact hplaced.holds n (by omega) hn
    · by_cases hkT : k = T % MAX_WINDOW
      · rw [hkT] at hk
        simp at hk
      · dsimp only at hk ⊢
        rw [update_of_ne hkT] at hk ⊢
        obtain ⟨n, hTn, hn, hcell, hnum'⟩ := hplaced.only k hk
        refine ⟨n, Nat.lt_of_le_of_ne hTn ?_, hn, hcell, hnum'⟩
        rintro rfl
        exact hkT (hcell.trans (by rw [hT]))
  rw [hstream]
  refine ⟨_, rfl, ?_⟩
  split
  · exact ⟨hleft.grow _, rfl⟩
  · exact ⟨hleft, rfl⟩

theorem process_ack_spec (h : Sender r log T H) (cummulative_ack : ℕ) :
    ∃ r' T', Process_Ack c cummulative_ack r = .ok r' ∧ Sender r' log T' H ∧
      r'.seq_no = r.seq_no := by
  unfold Process_Ack
  split
  · exact ⟨r, T, rfl, h, rfl⟩
  rename_i hack
  rw [h.tail]
  by_cases hnew : T < cummulative_ack
  · have hle := h.le
    have hnear := h.near
    have hlt := h.tail_lt
    have hbound : cummulative_ack ≤ H ∧ H < 2 ^ 32 := by
      rw [h.head] at hack
      simp only [MAX_WINDOW] at hnear
      obtain hH | hH := Nat.lt_or_ge H (2 ^ 32)
      · rw [int32u_of_lt hH] at hack
        omega
      · rw [int32u_of_le hH (by omega)] at hack
        omega
    obtain ⟨hcum, hH⟩ := hbound
    have hloop : ∀ k r T, Sender r log T H → T + k ≤ H →
        ∃ r', (range' T k).foldlM (ack_one c) r = .ok r' ∧ Sender r' log (T + k) H ∧
          r'.seq_no = r.seq_no := by
      intro k
      induction k with
      | zero => exact fun r T h _ => ⟨r, rfl, h, rfl⟩
      | succ k ih =>
        intro r T h hk
        obtain ⟨r1, hone, h1, hseq1⟩ := ack_one_spec (c := c) h (by omega) hH
        obtain ⟨r', hrest, h', hseq⟩ := ih r1 (T + 1) h1 (by omega)
        rw [range'_succ, foldlM_cons, hone]
        rw [show T + 1 + k = T + (k + 1) by omega] at h'
        exact ⟨r', hrest, h', hseq.trans hseq1⟩
    obtain ⟨r', hrun, h', hseq⟩ := hloop (cummulative_ack - T) r T h (by omega)
    exact ⟨r', _, hrun, h', hseq⟩
  · rw [Nat.sub_eq_zero_of_le (not_lt.mp hnew)]
    exact ⟨r, T, rfl, h, rfl⟩

theorem reliable_timeout_spec (h : Sender r log T H) (hc : c.Fits)
    (hrun : Reliable_timeout c r = .ok r') : Sender r' log T H ∧ r'.seq_no = r.seq_no := by
  unfold Reliable_timeout at hrun
  split at hrun
  · cases hrun
  split at hrun
  · obtain rfl := Except.ok.inj hrun
    exact ⟨h, rfl⟩
  cases hstream : stream_window c r r.tail with
  | error e =>
    rw [hstream] at hrun
    cases hrun
  | ok stream =>
    rw [hstream] at hrun
    obtain rfl := Except.ok.inj hrun
    split
    · rename_i htcp
      have hsize := h.size
      have hless : r.window_size - stream ≤ (19999 : ℕ) := by
        simp only [MAX_WINDOW] at hsize
        push_cast at hsize ⊢
        obtain rfl | hone := stream_window_le hstream <;> linarith
      have hfloat := c.rounding.mono hless
      rw [c.rounding.exact 19999 (by decide)] at hfloat
      refine ⟨h.shrink hc htcp stream (float_le ?_), rfl⟩
      simp only [MAX_WINDOW, Config.to_float]
      push_cast at hfloat ⊢
      linarith
    · exact ⟨h, rfl⟩

theorem send_nack_retransm_spec (h : Sender r log T H) (hc : c.Fits) {nack_seq : ℕ}
    (hrun : Send_Nack_Retransm c nack_seq r = .ok r') :
    Sender r' log T H ∧ r'.seq_no = r.seq_no := by
  unfold Send_Nack_Retransm at hrun
  split at hrun
  · cases hrun
  split at hrun
  · obtain rfl := Except.ok.inj hrun
    exact ⟨h, rfl⟩
  cases hstream : stream_window c r nack_seq with
  | error e =>
    rw [hstream] at hrun
    cases hrun
  | ok stream =>
    rw [hstream] at hrun
    obtain rfl := Except.ok.inj hrun
    have hsize := h.size
    have hless : r.window_size - c.to_float (stream / 2) ≤ MAX_WINDOW := by
      have hnear := abs_le.mp (c.rounding.near (stream / 2))
      change _ ≤ c.to_float (stream / 2) - stream / 2 ∧ _ at hnear
      obtain hneg | hpos := lt_or_ge stream 0
      · -- then the window is not open at all
        obtain rfl | hone := stream_window_le hstream
        · rw [abs_of_neg (by linarith)] at hnear
          linarith
        · linarith
      · rw [abs_of_nonneg (by linarith)] at hnear
        linarith
    split
    · rename_i htcp
      split
      · exact ⟨h.shrink hc htcp stream (float_le hless), rfl⟩
      · exact ⟨h.resize hsize r.ssthresh true r.connected, rfl⟩
    · exact ⟨h, rfl⟩

theorem stream_window_error {seq_no : ℕ} {e : Exit} (h : stream_window c r seq_no = .error e) :
    e = .null := by
  have hcount : ∀ (seqs : List ℕ) (cur : Buffer_Cell) (s : ℚ),
      seqs.foldlM (count_one c r cur) s = .error e → e = .null := by
    intro seqs cur
    induction seqs with
    | nil =>
      intro s hrun
      cases hrun
    | cons seq seqs ih =>
      intro s hrun
      rw [foldlM_cons] at hrun
      cases hone : count_one c r cur s seq with
      | error e' =>
        rw [hone] at hrun
        cases hrun
        unfold count_one at hone
        split at hone
        · cases hone
        · cases hone
          rfl
      | ok t =>
        rw [hone] at hrun
        exact ih t hrun
  unfold stream_window at h
  dsimp only at h
  split at h
  · dsimp only [bind, Except.bind] at h
    split at h
    · rename_i hfold
      cases h
      exact hcount _ _ _ hfold
    · cases h
  · cases h

theorem counted_error {seq_no : ℕ} (f : ℚ → Reliable_Data) :
    (do let stream ← stream_window c r seq_no; .ok (f stream)) ≠
      (.error .smaller_seq_no : Except Exit Reliable_Data) := by
  cases hstream : stream_window c r seq_no with
  | error e =>
    rw [stream_window_error hstream]
    intro h
    cases h
  | ok stream =>
    intro h
    cases h

/-! ## 8. Every run -/

theorem create_link_sender (hc : c.Fits) : Sender (Create_Link c) [] 0 0 := by
  refine ⟨le_rfl, rfl, by decide, Nat.zero_le _, rfl, rfl, fun i cell hi => ?_, ?_, rfl,
    fun _ => ⟨fun n _ hn => absurd hn (Nat.not_lt_zero n), fun k hk => absurd rfl hk⟩⟩
  · cases hi
  · rw [Create_Link]
    split
    · rename_i htcp
      exact hc.minimum htcp
    · exact le_rfl

theorem step_spec (hc : c.Fits) (h : Sender r log T H) (hseq : r.seq_no = int32u log.length)
    (e : Event) :
    step c r e ≠ .error .smaller_seq_no ∧
    ∀ r', step c r e = .ok r' → ∃ T' H', Sender r' (e.given log) T' H' ∧
      r'.seq_no = int32u (e.given log).length := by
  cases e with
  | connect =>
    refine ⟨by simp [step], fun r' hrun => ?_⟩
    obtain rfl := Except.ok.inj hrun
    exact ⟨T, H, h.resize h.size r.ssthresh r.cong_flag true, hseq⟩
  | Reliable_Send_Msg buff pack_type =>
    obtain ⟨r', H', hrun, h', hseq'⟩ := reliable_send_msg_spec (c := c) h hseq buff pack_type
    refine ⟨by simp [step, hrun], fun r'' hrun' => ?_⟩
    obtain rfl := Except.ok.inj (hrun.symm.trans hrun')
    exact ⟨T, H', h', hseq'⟩
  | Try_to_Send =>
    obtain ⟨r', H', hrun, h', hseq', -⟩ := send_much_spec (c := c) h
    refine ⟨by simp [step, hrun], fun r'' hrun' => ?_⟩
    obtain rfl := Except.ok.inj (hrun.symm.trans hrun')
    exact ⟨T, H', h', hseq'.trans hseq⟩
  | Process_Ack cummulative_ack =>
    obtain ⟨r', T', hrun, h', hseq'⟩ := process_ack_spec (c := c) h cummulative_ack
    rw [step]
    split
    · refine ⟨by simp [hrun], fun r'' hrun' => ?_⟩
      obtain rfl := Except.ok.inj (hrun.symm.trans hrun')
      exact ⟨T', H, h', hseq'.trans hseq⟩
    · refine ⟨by simp, fun r'' hrun' => ?_⟩
      obtain rfl := Except.ok.inj hrun'
      exact ⟨T, H, h, hseq⟩
  | Reliable_timeout =>
    refine ⟨?_, fun r' hrun => ?_⟩
    · rw [step, Reliable_timeout]
      split
      · simp
      split
      · simp
      · exact counted_error _
    · obtain ⟨h', hseq'⟩ := reliable_timeout_spec h hc hrun
      exact ⟨T, H, h', hseq'.trans hseq⟩
  | Send_Nack_Retransm nack_seq =>
    refine ⟨?_, fun r' hrun => ?_⟩
    · rw [step, Send_Nack_Retransm]
      split
      · simp
      split
      · simp
      · exact counted_error _
    · obtain ⟨h', hseq'⟩ := send_nack_retransm_spec h hc hrun
      exact ⟨T, H, h', hseq'.trans hseq⟩

theorem Reached.sender (hc : c.Fits) (h : Reached c r log) :
    (∃ T H, Sender r log T H) ∧ r.seq_no = int32u log.length := by
  refine Run.invariant (fun s => (∃ T H, Sender s.1 s.2 T H) ∧ s.1.seq_no = int32u s.2.length)
    ⟨⟨0, 0, create_link_sender hc⟩, rfl⟩ ?_ h
  rintro ⟨r, log⟩ e ⟨r', log'⟩ ⟨⟨T, H, hs⟩, hseq⟩ ⟨hrun, hlog⟩
  obtain rfl : log' = e.given log := hlog
  obtain ⟨T', H', h', hseq'⟩ := (step_spec hc hs hseq e).2 r' hrun
  exact ⟨⟨T', H', h'⟩, hseq'⟩

theorem Sender.acked (h : Sender r log T H) : r.acked log = T := by
  have htotal := h.total
  have hle := h.le
  rw [Reliable_Data.acked, h.in_flight]
  omega

theorem int32u_add (m n : ℕ) : int32u (int32u m + n) = int32u (m + n) := Nat.mod_add_mod m _ n

theorem Sender.waiting (h : Sender r log T H) (hseq : r.seq_no = int32u log.length) :
    Waiting r log := by
  have htotal := h.total
  have hle := h.le
  have hflight := h.in_flight
  have hlen : r.msg_buff.length = (log.drop H).length := by
    rw [length_drop]
    omega
  have hstart : log.length - r.msg_buff.length = H := by omega
  refine ⟨by omega, ?_, ?_, ?_, ?_⟩
  · rw [h.acked, h.tail, int32u_of_lt h.tail_lt]
  · rw [hstart]
    refine ext_getElem (by simpa using hlen) (fun i hi hi' => ?_)
    rw [length_map] at hi
    have hmsg := (h.queue i _ (List.getElem?_eq_getElem hi)).2
    simp only [getElem_map, getElem_drop]
    rw [hmsg, List.getElem?_eq_getElem (by omega)]
  · refine ext_getElem (by simp) (fun i hi hi' => ?_)
    rw [length_map] at hi
    have hnum := (h.queue i _ (List.getElem?_eq_getElem hi)).1
    simp only [getElem_map, getElem_range]
    rw [hnum, h.head, int32u_add]
  · rw [hseq, h.head, int32u_add, htotal]

def Reliable_Data.Apart (r : Reliable_Data) : Prop :=
  r.tail ≤ r.head ∨ r.head = 0 ∨ r.in_flight ≤ 7296

theorem Sender.apart_iff (h : Sender r log T H) : r.Apart ↔ (H ≤ 2 ^ 32 ∨ H ≤ T + 7296) := by
  have hle := h.le
  have hnear := h.near
  have hlt := h.tail_lt
  simp only [MAX_WINDOW] at hnear
  rw [Reliable_Data.Apart, h.in_flight, h.head, h.tail]
  obtain hH | hH := Nat.lt_or_ge H (2 ^ 32)
  · rw [int32u_of_lt hH]
    omega
  · rw [int32u_of_le hH (by omega)]
    omega

theorem Sender.onRing_iff (h : Sender r log T H) : OnRing r log ↔ r.Apart := by
  have hle := h.le
  have hlt := h.tail_lt
  rw [h.apart_iff]
  constructor
  · intro hring
    by_contra hshared
    obtain ⟨m, n, hT, hn, hmn, hcell, hne⟩ := shared_cell (T := T) (H := H) hlt (by omega) (by omega)
    have hholds := hring.holds
    rw [h.in_flight, h.tail, h.acked] at hholds
    have hm := (hholds (m - T) (by omega)).2
    have hn' := (hholds (n - T) (by omega)).2
    rw [show T + (m - T) = m by omega, hcell] at hm
    rw [show T + (n - T) = n by omega] at hn'
    exact hne (hm.symm.trans hn')
  · intro hfit
    have hplaced := h.placed hfit
    refine ⟨fun i hi => ?_, fun k hk => ?_⟩
    · rw [h.in_flight] at hi
      rw [h.tail, h.acked]
      exact hplaced.holds (T + i) (by omega) (by omega)
    · obtain ⟨n, hT, hn, -, hnum⟩ := hplaced.only k hk
      refine ⟨n - T, by rw [h.in_flight]; omega, ?_⟩
      rw [h.tail, show T + (n - T) = n by omega]
      exact hnum

end Window

/-! ## 9. Long runs -/

section Runs

variable {c : Config} {r : Reliable_Data} {log : List Bytes} {t k : ℕ} {w : ℚ}

/-- `t` messages were acknowledged, `k` more are in flight and nothing waits. -/
structure Sent (r : Reliable_Data) (t k : ℕ) (w : ℚ) : Prop where
  connected : r.connected = true
  empty : r.msg_buff = []
  seq_no : r.seq_no = int32u (t + k)
  head : r.head = int32u (t + k)
  tail : r.tail = t
  size : r.window_size = w
  max : r.max_window = MAX_WINDOW

theorem Sent.in_flight (h : Sent r t k w) (ht : t < 2 ^ 32) (hk : k < 2 ^ 32) :
    r.in_flight = k := by
  rw [Reliable_Data.in_flight, h.head, h.tail]
  simp only [int32u]
  omega

theorem Sent.send (h : Sent r t k w) (ht : t < 2 ^ 32) (hk : k + 1 < 2 ^ 32)
    (hroom : c.to_float k < w) :
    ∃ r', step c r (.Reliable_Send_Msg [] 0) = .ok r' ∧ Sent r' t (k + 1) w ∧
      (r'.window (int32u (t + k) % MAX_WINDOW)).buff = some [] := by
  have hflight := h.in_flight ht (by omega)
  have hopen : { r with seq_no := int32u (r.seq_no + 1) }.room c = true := by
    change decide (c.to_float r.in_flight < r.window_size) = true
    rw [hflight, h.size]
    exact decide_eq_true hroom
  have hmuch : Send_Much c { r with seq_no := int32u (r.seq_no + 1) } =
      .ok { r with seq_no := int32u (r.seq_no + 1) } := by
    simp [Send_Much, h.empty]
  have hnext : int32u (int32u (t + k) + 1) = int32u (t + (k + 1)) := int32u_add (t + k) 1
  refine ⟨{ r with seq_no := int32u (r.seq_no + 1) }.put
    { seq_no := r.seq_no, buff := some [], pack_type := 0 }, ?_, ?_, ?_⟩
  · rw [step, Reliable_Send_Msg]
    rw [if_pos h.connected, hmuch]
    change send_or_wait c _ _ = _
    have hno : ¬(¬Reliable_Data.room c { r with seq_no := int32u (r.seq_no + 1) } = true ∨
        ¬r.msg_buff.isEmpty = true ∨ ¬r.connected = true) := by
      rintro (hno | hno | hno)
      · exact hno hopen
      · exact hno (by rw [h.empty]; rfl)
      · exact hno h.connected
    have hseq : ¬r.seq_no < r.head := by
      rw [h.seq_no, h.head]
      exact lt_irrefl _
    rw [send_or_wait, if_neg hno, if_neg hseq]
  · refine ⟨h.connected, h.empty, ?_, ?_, h.tail, h.size, h.max⟩
    · change int32u (r.seq_no + 1) = _
      rw [h.seq_no, hnext]
    · change int32u (r.seq_no + 1) = _
      rw [h.seq_no, hnext]
  · simp [Reliable_Data.put, h.seq_no]

theorem Sent.ack (h : Sent r t 1 w) (ht : t + 1 < 2 ^ 32)
    (hcell : (r.window (t % MAX_WINDOW)).buff = some []) (htcp : c.TCP_Fairness = false)
    (hfair : c.Stream_Fairness = false) :
    ∃ r', step c r (.Process_Ack (t + 1)) = .ok r' ∧ Sent r' (t + 1) 0 w := by
  have hhead : r.head = t + 1 := h.head.trans (int32u_of_lt ht)
  have htail : int32u (t + 1) = t + 1 := int32u_of_lt ht
  refine ⟨{ r with
    window := update r.window (t % MAX_WINDOW)
      { r.window (t % MAX_WINDOW) with buff := none, pack_type := 0 }
    tail := t + 1 }, ?_, h.connected, h.empty, h.seq_no, h.head, rfl, h.size, h.max⟩
  rw [step, if_pos h.connected, Process_Ack, if_neg (by rw [hhead]; exact lt_irrefl _), h.tail,
    Nat.add_sub_cancel_left]
  simp [ack_one, hcell, stream_window, htcp, hfair, h.tail, htail, bind, Except.bind]
  rfl

theorem Reached.burst (hr : Reached c r log) (h : Sent r t 0 w) (ht : t < 2 ^ 32) {n : ℕ}
    (hn : n < 2 ^ 32) (hroom : ∀ j < n, c.to_float j < w) :
    ∃ r' log', Reached c r' log' ∧ Sent r' t n w := by
  induction n with
  | zero => exact ⟨r, log, hr, h⟩
  | succ n ih =>
    obtain ⟨r', log', hr', h'⟩ := ih (by omega) (fun j hj => hroom j (by omega))
    obtain ⟨r1, hstep, hsent, -⟩ := h'.send ht hn (hroom n (by omega))
    exact ⟨r1, log' ++ [[]], hr'.tail (e := .Reliable_Send_Msg [] 0) ⟨hstep, rfl⟩, hsent⟩

theorem Reached.lockstep (hr : Reached c r log) (h : Sent r 0 0 w) (htcp : c.TCP_Fairness = false)
    (hfair : c.Stream_Fairness = false) (hroom : c.to_float (0 : ℕ) < w) {n : ℕ}
    (hn : n < 2 ^ 32) : ∃ r' log', Reached c r' log' ∧ Sent r' n 0 w := by
  induction n with
  | zero => exact ⟨r, log, hr, h⟩
  | succ n ih =>
    obtain ⟨r', log', hr', h'⟩ := ih (by omega)
    obtain ⟨r1, hstep, hsent, hcell⟩ := h'.send (c := c) (by omega) (by decide) hroom
    have hnum : int32u (n + 0) = n := int32u_of_lt (by omega)
    rw [hnum] at hcell
    obtain ⟨r2, hack, hacked⟩ := hsent.ack (c := c) hn hcell htcp hfair
    have hr1 : Reached c r1 (log' ++ [[]]) :=
      hr'.tail (e := .Reliable_Send_Msg [] 0) ⟨hstep, rfl⟩
    exact ⟨r2, _, hr1.tail (e := .Process_Ack (n + 1)) ⟨hack, rfl⟩, hacked⟩

theorem reached_connect (c : Config) :
    ∃ r, Reached c r [] ∧ Sent r 0 0 (Create_Link c).window_size :=
  ⟨{ Create_Link c with connected := true },
    Run.tail (e := .connect) (Run.refl _) ⟨rfl, rfl⟩, rfl, rfl, rfl, rfl, rfl, rfl, rfl⟩

theorem too_large (hc : ¬c.Fits) : ∃ r log, Reached c r log ∧ r.max_window < r.in_flight := by
  obtain ⟨htcp, hmin⟩ := Classical.not_imp.mp hc
  obtain ⟨r, hr, h⟩ := reached_connect c
  have hsize : (Create_Link c).window_size = c.to_float c.Minimum_Window := by
    rw [Create_Link]
    exact if_pos htcp
  have hbig : ((20001 : ℕ) : ℚ) ≤ c.to_float c.Minimum_Window := by
    rw [← c.rounding.exact 20001 (by decide)]
    refine c.rounding.mono ?_
    have hle : ((20001 : ℤ) : ℚ) ≤ c.Minimum_Window := by
      refine Int.cast_le.mpr ?_
      simp only [MAX_CG_WINDOW] at hmin
      omega
    exact_mod_cast hle
  obtain ⟨r', log', hr', h'⟩ := hr.burst h (by decide) (n := 20001) (by decide) (by
    intro j hj
    have hexact : c.to_float (j : ℕ) = j := c.rounding.exact j (by omega)
    rw [hsize, hexact]
    exact (Nat.cast_lt.mpr hj).trans_le hbig)
  refine ⟨r', log', hr', ?_⟩
  rw [h'.max, h'.in_flight (by decide) (by decide)]
  decide

end Runs

/-! ## 10. When the window is right -/

structure Sound (c : Config) (r : Reliable_Data) (log : List Bytes) : Prop where
  waiting : Waiting r log
  bounded : r.in_flight ≤ r.max_window
  ring : OnRing r log
  numbered : ∀ e, step c r e ≠ .error .smaller_seq_no

/-- With a minimum inside the greatest window, the order and the number of the messages are
kept by every run of any length; the cells hold the window as long as no more than 7296
messages are in flight across the wrap. With a larger minimum the window comes to be too
large. -/
theorem sender_window (c : Config) : (c.Fits → ∀ r log, Reached c r log →
      Waiting r log ∧ r.in_flight ≤ r.max_window ∧ (∀ e, step c r e ≠ .error .smaller_seq_no) ∧
      (Sound c r log ↔ r.Apart)) ∧ (¬c.Fits → ∃ r log, Reached c r log ∧ ¬Sound c r log) := by
  constructor
  · intro hc r log hr
    obtain ⟨⟨T, H, h⟩, hseq⟩ := hr.sender hc
    have hwaiting := h.waiting hseq
    have hbounded : r.in_flight ≤ r.max_window := by
      rw [h.in_flight, h.max]
      have hnear := h.near
      omega
    have hnumbered := fun e => (step_spec hc h hseq e).1
    refine ⟨hwaiting, hbounded, hnumbered, fun hsound => ?_, fun hapart => ?_⟩
    · exact h.onRing_iff.mp hsound.ring
    · exact ⟨hwaiting, hbounded, h.onRing_iff.mpr hapart, hnumbered⟩
  · intro hc
    obtain ⟨r, log, hr, hlarge⟩ := too_large hc
    exact ⟨r, log, hr, fun hsound => absurd hsound.bounded (not_le.mpr hlarge)⟩

def plain (TCP_Fairness : Bool) (Minimum_Window : ℤ) : Config where
  TCP_Fairness := TCP_Fairness
  Stream_Fairness := false
  Minimum_Window := Minimum_Window
  rounding := ⟨id, monotone_id, fun _ _ => rfl, fun q => by simp⟩

/-- 2^32 - 1 messages are sent and acknowledged one by one, and 7297 more are sent at once:
message 2^32 - 1 and message 2^32 + 7295 have the same cell. With `-tf -mw 30000` the window has
more messages than cells. -/
theorem shared_cells :
    (∃ r log, Reached (plain false 1) r log ∧ r.in_flight = 7297 ∧ ¬Sound (plain false 1) r log) ∧
    ∃ r log, Reached (plain true 30000) r log ∧ ¬Sound (plain true 30000) r log := by
  constructor
  · obtain ⟨r0, hr0, h0⟩ := reached_connect (plain false 1)
    have hopen : (plain false 1).to_float (0 : ℕ) < (Create_Link (plain false 1)).window_size := by
      change ((0 : ℕ) : ℚ) < ((20000 : ℕ) : ℚ)
      exact Nat.cast_lt.mpr (by decide)
    obtain ⟨r1, log1, hr1, h1⟩ := hr0.lockstep h0 rfl rfl hopen (n := 2 ^ 32 - 1) (by decide)
    obtain ⟨r, log, hr, h⟩ := hr1.burst h1 (by decide) (n := 7297) (by decide) (by
      intro j hj
      change ((j : ℕ) : ℚ) < ((20000 : ℕ) : ℚ)
      exact Nat.cast_lt.mpr (by omega))
    have hflight := h.in_flight (by decide) (by decide)
    refine ⟨r, log, hr, hflight, fun hsound => ?_⟩
    obtain ⟨⟨T, H, hs⟩, -⟩ := hr.sender (fun htcp => by cases htcp)
    have hapart := hs.onRing_iff.mp hsound.ring
    rw [Reliable_Data.Apart, hflight, h.head, h.tail] at hapart
    exact absurd hapart (by decide)
  · obtain ⟨r, log, hr, hlarge⟩ := too_large (c := plain true 30000) (fun hfits =>
      absurd (hfits rfl) (by decide))
    exact ⟨r, log, hr, fun hsound => absurd hsound.bounded (not_le.mpr hlarge)⟩

end Spines.ReliableLink
