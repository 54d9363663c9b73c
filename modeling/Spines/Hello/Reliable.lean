/-
The timers of one reliable link (`daemon/reliable_datagram.c`,
`daemon/reliable_udp.c`, `daemon/state_flood.c`).

Everything these functions queue and take back has the number of the link they
work on. They are therefore functions of the link's reliable data and of the row
of timers with its number (`Rel`), and are put to work on the daemon by
`Daemon.on_rel`.
-/
import Spines.Hello.Links
import Mathlib.Tactic.Ring

set_option autoImplicit false

namespace Spines.Hello

open Function Option

open Spines.StateFlood (Prot_Def sizeof_packet_body sizeof_reliable_tail)

structure Rel where
  r : Reliable_Data
  row : Row

/-! ## 1. The functions -/

/-- There is room in the congestion window. The difference is one of 32-bit
unsigned numbers. -/
def Reliable_Data.fits (r : Reliable_Data) : Bool :=
  decide ((r.head - r.tail).toNat < r.window_size.val)

namespace Rel

def E_queue (f : Timer) (lk : ℕ) (x : Rel) : Rel :=
  { x with row := Function.update x.row f (some (some lk)) }

def E_dequeue (f : Timer) (x : Rel) : Rel :=
  { x with row := Function.update x.row f none }

def cancel_ack (x : Rel) : Rel :=
  if x.r.scheduled_ack then
    ({ x with r := { x.r with scheduled_ack := false } } : Rel).E_dequeue .Send_Ack
  else
    x

def queue_timeout (lk : ℕ) (x : Rel) : Rel :=
  let x := if x.r.scheduled_timeout then x.E_dequeue .Reliable_timeout else x
  let x := x.E_queue .Reliable_timeout lk
  { x with r := { x.r with scheduled_timeout := true } }

/-- The loop of `Send_Much`, over the cells of the buffer. -/
def fill_window : List (BitVec 32) → Reliable_Data → Option Reliable_Data
  | [], r => some { r with msg_buff := [] }
  | seq_no :: rest, r =>
    if r.fits then
      -- EXIT: smaller seq_no
      if seq_no < r.head then none else fill_window rest { r with head := seq_no + 1 }
    else
      some { r with msg_buff := seq_no :: rest }

def Send_Much (lk : ℕ) (x : Rel) : Option Rel :=
  if x.r.flags ≠ .CONNECTED_LINK then some x
  else if x.r.fits = false then some x
  else if x.r.msg_buff = [] then some x
  else
    let x := x.cancel_ack
    (fill_window x.r.msg_buff x.r).map (fun r => ({ x with r := r } : Rel).queue_timeout lk)

def Try_to_Send (lk : ℕ) (x : Rel) : Option Rel := x.Send_Much lk

/-- The part of `Reliable_Send_Msg` after `Send_Much`. -/
def send_or_buffer (lk : ℕ) (seq_no : BitVec 32) (x : Rel) : Option Rel :=
  if x.r.fits = false ∨ x.r.msg_buff ≠ [] ∨ x.r.flags ≠ .CONNECTED_LINK then
    some { x with r := { x.r with msg_buff := x.r.msg_buff ++ [seq_no] } }
  else if seq_no < x.r.head then
    -- EXIT: sending a packet with a smaller seq_no
    none
  else
    let x : Rel := { x with r := { x.r with head := seq_no + 1 } }
    some (x.cancel_ack.queue_timeout lk)

def Reliable_Send_Msg (lk : ℕ) (x : Rel) : Option Rel :=
  let seq_no := x.r.seq_no
  let x : Rel := { x with r := { x.r with seq_no := seq_no + 1 } }
  if x.r.flags = .CONNECTED_LINK then
    (x.Send_Much lk).bind (send_or_buffer lk seq_no)
  else
    x.send_or_buffer lk seq_no

def Send_Ack (x : Rel) : Option Rel :=
  if x.r.flags ≠ .CONNECTED_LINK then none
  else some { x with r := { x.r with scheduled_ack := false } }

/-- `w` is the window that congestion control leaves. -/
def Reliable_timeout (lk : ℕ) (w : Window) (x : Rel) : Option Rel :=
  if x.r.flags ≠ .CONNECTED_LINK then none
  else if x.r.head = x.r.tail then
    some { x with r := { x.r with scheduled_timeout := false } }
  else
    let x : Rel := { x with r := { x.r with window_size := w } }
    some (x.cancel_ack.E_queue .Reliable_timeout lk)

def Send_Nack_Retransm (w : Window) (x : Rel) : Option Rel :=
  if x.r.flags ≠ .CONNECTED_LINK then none
  else if x.r.nack_len = 0 ∨ x.r.nack_buff = false then some x
  else if x.r.head = x.r.tail then
    some { x with r := { x.r with scheduled_timeout := false } }
  else
    let x : Rel := { x with r := { x.r with window_size := w } }
    let x := x.cancel_ack
    some { x with r := { x.r with nack_buff := false, nack_len := 0 } }

/-- What `Process_Ack` reads of a packet: the length of its ack part and the
cumulative ack, whether it is an ack alone, and whether its data has been
received before; and the window that congestion control leaves. -/
structure Ack where
  ack_len : ℕ
  cummulative_ack : BitVec 32
  is_link_ack : Bool
  known : Bool
  window_size : Window

def take_nacks (lk : ℕ) (a : Ack) (x : Rel) : Rel :=
  if sizeof_reliable_tail < a.ack_len then
    let to_copy :=
      if sizeof_packet_body < x.r.nack_len + a.ack_len - sizeof_reliable_tail then
        sizeof_packet_body - x.r.nack_len
      else a.ack_len - sizeof_reliable_tail
    ({ x with r := { x.r with nack_buff := true, nack_len := x.r.nack_len + to_copy } } : Rel).E_queue
      .Send_Nack_Retransm lk
  else
    x

def advance (lk : ℕ) (a : Ack) (x : Rel) : Rel :=
  if x.r.tail < a.cummulative_ack then
    let x : Rel := { x with r := { x.r with tail := a.cummulative_ack, window_size := a.window_size } }
    if x.r.msg_buff ≠ [] then x.E_queue .Try_to_Send lk else x
  else
    x

def renew_timeout (lk : ℕ) (x : Rel) : Rel :=
  let x : Rel :=
    if x.r.scheduled_timeout then
      ({ x with r := { x.r with scheduled_timeout := false } } : Rel).E_dequeue .Reliable_timeout
    else x
  if x.r.tail < x.r.head then
    ({ x with r := { x.r with scheduled_timeout := true } } : Rel).E_queue .Reliable_timeout lk
  else
    x

/-- The result says whether the packet has useful data (1), known data (0) or
none (-1). -/
def Process_Ack (lk : ℕ) (a : Ack) (x : Rel) : Rel × ℤ :=
  let x := x.take_nacks lk a
  if x.r.head < a.cummulative_ack then
    -- an ack for a packet that has not been sent yet
    (x, 0)
  else
    let x := (x.advance lk a).renew_timeout lk
    (x, if a.is_link_ack then -1 else if a.known then 0 else 1)

def Process_rel_udp_data_packet (lk : ℕ) (a : Ack) (x : Rel) : Rel :=
  if x.r.flags ≠ .CONNECTED_LINK then x
  else
    let (x, flag) := x.Process_Ack lk a
    if flag = -1 then x
    else if x.r.scheduled_ack then x.E_queue .Send_Ack lk
    else ({ x with r := { x.r with scheduled_ack := true } } : Rel).E_queue .Send_Ack lk

def Process_state_packet (lk : ℕ) (a : Ack) (x : Rel) : Rel :=
  if x.r.flags = .CONNECTED_LINK then
    let (x, flag) := x.Process_Ack lk a
    if flag = -1 then x
    else if (x.row .Send_Ack).isNone then
      ({ x with r := { x.r with scheduled_ack := true } } : Rel).E_queue .Send_Ack lk
    else x
  else
    -- the other side has validated the link and this side has not
    x.E_queue .Send_Hello_Request lk

def Process_ack_packet (lk : ℕ) (a : Ack) (x : Rel) : Rel :=
  if x.r.flags = .CONNECTED_LINK then (x.Process_Ack lk a).1 else x

end Rel

/-! ## 2. What a queued timer relies on -/

/-- A timer may be queued for a link of this type with this reliable data; `up`
says that the leg is connected. -/
def Timer.Fits (link_type : Link_Type) (up : Prop) (r : Option Reliable_Data) : Timer → Prop
  | .Send_Hello | .Send_Hello_Request | .Send_Hello_Request_Cnt => link_type = .CONTROL_LINK
  | .Dead_Leg => True
  | .Net_Send_State_All _ => link_type = .CONTROL_LINK ∧ up
  | .Reliable_timeout =>
    ∃ r' ∈ r, r'.flags = .CONNECTED_LINK ∧ r'.scheduled_timeout = true ∧ r'.head ≠ r'.tail
  | .Send_Ack => ∃ r' ∈ r, r'.flags = .CONNECTED_LINK ∧ r'.scheduled_ack = true
  | .Send_Nack_Retransm => ∃ r' ∈ r, r'.flags = .CONNECTED_LINK ∧ r'.nack_buff = true
  | .Try_to_Send => ∃ r' ∈ r, r'.flags = .CONNECTED_LINK
  | .Send_RT_Nack | .Send_RT_Retransm => link_type = .REALTIME_UDP_LINK

/-- Every timer queued with the number of the link `lk` was queued for it, and
may be. `Dead_Leg` is never taken out of the queue and looks for itself. -/
def Row.Sound (row : Row) (lk : ℕ) (link_type : Link_Type) (up : Prop) (r : Option Reliable_Data) :
    Prop :=
  ∀ f o, f ≠ .Dead_Leg → row f = some o → o = some lk ∧ f.Fits link_type up r

/-- A list of sequence numbers runs from `h` up to before `q`. -/
def Numbered (q : BitVec 32) : BitVec 32 → List (BitVec 32) → Prop
  | h, [] => h = q
  | h, seq_no :: rest => seq_no = h ∧ Numbered q (h + 1) rest

/-- The buffered messages are numbered in sequence from `head` on. -/
def Reliable_Data.Ordered (r : Reliable_Data) (q : BitVec 32) : Prop :=
  Numbered q r.head r.msg_buff

def Rel.Sound (x : Rel) (lk : ℕ) (link_type : Link_Type) (up : Prop) : Prop :=
  x.row.Sound lk link_type up (some x.r)

/-! ## 3. The timers after a change

A function keeps `Row.Sound` when each timer that is still queued was queued
before and may be now, or has been queued by the function and may be. -/

section Sound

variable {lk : ℕ} {ty : Link_Type} {up : Prop} {x : Rel}

theorem Rel.Sound.fits (h : x.Sound lk ty up) {f : Timer} (hf : f ≠ .Dead_Leg)
    (hrow : x.row f ≠ none) : f.Fits ty up (some x.r) := by
  obtain ⟨o, ho⟩ := ne_none_iff_exists'.mp hrow
  exact (h f o hf ho).2

theorem Rel.Sound.set (h : x.Sound lk ty up) {r' : Reliable_Data}
    (hfits : ∀ f, x.row f ≠ none → f.Fits ty up (some x.r) → f.Fits ty up (some r')) :
    ({ x with r := r' } : Rel).Sound lk ty up := by
  intro f o hf ho
  have hold := h f o hf ho
  exact ⟨hold.1, hfits f (by simp [show x.row f = some o from ho]) hold.2⟩

theorem Rel.Sound.E_queue (h : x.Sound lk ty up) {f : Timer}
    (hfits : f.Fits ty up (some x.r)) : (x.E_queue f lk).Sound lk ty up := by
  intro g o hg ho
  by_cases hgf : g = f
  · subst hgf
    have hval : some (some lk) = some o := by
      simpa [Rel.E_queue] using ho
    exact ⟨(some.inj hval).symm, hfits⟩
  · have hold : x.row g = some o := by
      simpa [Rel.E_queue, update_of_ne hgf] using ho
    exact h g o hg hold

theorem Rel.Sound.E_dequeue (h : x.Sound lk ty up) (f : Timer) :
    (x.E_dequeue f).Sound lk ty up := by
  intro g o hg ho
  by_cases hgf : g = f
  · subst hgf
    simp [Rel.E_dequeue] at ho
  · have hold : x.row g = some o := by
      simpa [Rel.E_dequeue, update_of_ne hgf] using ho
    exact h g o hg hold

theorem Timer.Fits.congr {r r' : Reliable_Data} {f : Timer}
    (h : f.Fits ty up (some r)) (hflags : r'.flags = r.flags)
    (hack : r'.scheduled_ack = r.scheduled_ack)
    (htimeout : r'.scheduled_timeout = r.scheduled_timeout)
    (hnack : r'.nack_buff = r.nack_buff) (hwin : r.head ≠ r.tail → r'.head ≠ r'.tail) :
    f.Fits ty up (some r') := by
  cases f <;> simp_all [Timer.Fits]

theorem Rel.Sound.congr (h : x.Sound lk ty up) {r' : Reliable_Data}
    (hflags : r'.flags = x.r.flags) (hack : r'.scheduled_ack = x.r.scheduled_ack)
    (htimeout : r'.scheduled_timeout = x.r.scheduled_timeout) (hnack : r'.nack_buff = x.r.nack_buff)
    (hwin : x.r.head ≠ x.r.tail → r'.head ≠ r'.tail) :
    ({ x with r := r' } : Rel).Sound lk ty up :=
  h.set (fun _ _ hf => hf.congr hflags hack htimeout hnack hwin)

theorem Rel.Sound.cancel_ack (h : x.Sound lk ty up) :
    x.cancel_ack.Sound lk ty up := by
  by_cases hack : x.r.scheduled_ack = true
  · rw [Rel.cancel_ack, if_pos hack]
    intro f o hf ho
    by_cases hfa : f = .Send_Ack
    · subst hfa
      simp [Rel.E_dequeue] at ho
    · have hold : x.row f = some o := by
        simpa [Rel.E_dequeue, update_of_ne hfa] using ho
      refine ⟨(h f o hf hold).1, ?_⟩
      have hfits := (h f o hf hold).2
      cases f <;> simp_all [Timer.Fits, Rel.E_dequeue]
  · rw [Rel.cancel_ack, if_neg hack]
    exact h

theorem Rel.Sound.queue_timeout (h : x.Sound lk ty up)
    (hflags : x.r.flags = .CONNECTED_LINK) (hwin : x.r.head ≠ x.r.tail) :
    (x.queue_timeout lk).Sound lk ty up := by
  intro f o hf ho
  by_cases hft : f = .Reliable_timeout
  · subst hft
    have hval : some (some lk) = some o := by
      simpa [Rel.queue_timeout, Rel.E_queue] using ho
    refine ⟨(some.inj hval).symm, ?_⟩
    by_cases hs : x.r.scheduled_timeout = true <;>
      simp [Timer.Fits, Rel.queue_timeout, Rel.E_queue, Rel.E_dequeue, hs, hflags, hwin]
  · have hold : x.row f = some o := by
      by_cases hs : x.r.scheduled_timeout = true <;>
        simpa [Rel.queue_timeout, Rel.E_queue, Rel.E_dequeue, hs,
          update_of_ne hft] using ho
    refine ⟨(h f o hf hold).1, ?_⟩
    have hfits := (h f o hf hold).2
    by_cases hs : x.r.scheduled_timeout = true <;>
      cases f <;> simp_all [Timer.Fits, Rel.queue_timeout, Rel.E_queue, Rel.E_dequeue]

end Sound

/-! ## 4. Sending -/

section Sending

variable {lk : ℕ} {ty : Link_Type} {up : Prop} {x : Rel} {q : BitVec 32}

theorem Numbered.snoc {h : BitVec 32} {l : List (BitVec 32)} (hl : Numbered q h l) :
    Numbered (q + 1) h (l ++ [q]) := by
  induction l generalizing h with
  | nil =>
    obtain rfl : h = q := hl
    exact ⟨rfl, rfl⟩
  | cons seq_no rest ih => exact ⟨hl.1, ih hl.2⟩

theorem head_ne_tail {r : Reliable_Data} (h : r.fits = true) : r.head + 1 ≠ r.tail := by
  have hlt : (r.head - r.tail).toNat < r.window_size.val := by simpa [Reliable_Data.fits] using h
  have hw := r.window_size.isLt
  bv_omega

theorem Rel.fill_window_spec (l : List (BitVec 32)) (r : Reliable_Data) (hl : Numbered q r.head l) :
    ∃ head msg_buff, Rel.fill_window l r = some { r with head := head, msg_buff := msg_buff }
      ∧ Numbered q head msg_buff
      ∧ (r.head ≠ r.tail → head ≠ r.tail)
      ∧ (r.fits = true → l ≠ [] → head ≠ r.tail) := by
  induction l generalizing r with
  | nil => exact ⟨r.head, [], rfl, hl, id, fun _ hne => absurd rfl hne⟩
  | cons seq_no rest ih =>
    obtain ⟨rfl, hrest⟩ := hl
    by_cases hfits : r.fits = true
    · obtain ⟨head, msg_buff, hfill, hnum, hkeep, -⟩ := ih { r with head := r.head + 1 } hrest
      have hne : head ≠ r.tail := hkeep (head_ne_tail hfits)
      refine ⟨head, msg_buff, ?_, hnum, fun _ => hne, fun _ _ => hne⟩
      rw [Rel.fill_window, if_pos hfits, if_neg (BitVec.lt_irrefl _), hfill]
    · refine ⟨r.head, r.head :: rest, ?_, ⟨rfl, hrest⟩, id, fun h => absurd h hfits⟩
      rw [Rel.fill_window, if_neg hfits]

@[simp] theorem Rel.cancel_ack_r (x : Rel) :
    x.cancel_ack.r = { x.r with scheduled_ack := false } := by
  by_cases hack : x.r.scheduled_ack = true
  · rw [Rel.cancel_ack, if_pos hack]
    rfl
  · rw [Rel.cancel_ack, if_neg hack]
    simp only [Bool.not_eq_true] at hack
    rw [← hack]

@[simp] theorem Rel.queue_timeout_r (x : Rel) (lk : ℕ) :
    (x.queue_timeout lk).r = { x.r with scheduled_timeout := true } := by
  by_cases hs : x.r.scheduled_timeout = true
  all_goals simp [Rel.queue_timeout, Rel.E_queue, Rel.E_dequeue, hs]

theorem Rel.Send_Much_spec (h : x.Sound lk ty up) (hord : x.r.Ordered q) :
    ∃ x', x.Send_Much lk = some x' ∧ x'.Sound lk ty up ∧ x'.r.Ordered q
      ∧ x'.r.flags = x.r.flags ∧ x'.r.seq_no = x.r.seq_no := by
  by_cases hflags : x.r.flags = .CONNECTED_LINK
  · by_cases hfits : x.r.fits = false
    · exact ⟨x, by simp [Rel.Send_Much, hfits], h, hord, rfl, rfl⟩
    · by_cases hbuff : x.r.msg_buff = []
      · exact ⟨x, by simp [Rel.Send_Much, hbuff], h, hord, rfl, rfl⟩
      · have hfits' : ({ x.r with scheduled_ack := false } : Reliable_Data).fits = true := by
          simpa [Reliable_Data.fits] using hfits
        obtain ⟨head, msg_buff, hfill, hnum, hkeep, hmove⟩ :=
          Rel.fill_window_spec (q := q) x.r.msg_buff { x.r with scheduled_ack := false } hord
        have hne : head ≠ x.r.tail := hmove hfits' hbuff
        have hfilled := @Rel.Sound.congr _ _ _ _ h.cancel_ack
          { x.r with scheduled_ack := false, head := head, msg_buff := msg_buff }
          (by simp) (by simp) (by simp) (by simp) (fun _ => hne)
        refine ⟨_, ?_, hfilled.queue_timeout hflags hne, ?_, ?_, ?_⟩
        · rw [Rel.Send_Much, if_neg (by simp [hflags]), if_neg hfits, if_neg hbuff]
          simp only [Rel.cancel_ack_r]
          exact congrArg (Option.map _) hfill
        · simpa [Reliable_Data.Ordered] using hnum
        · simp
        · simp
  · exact ⟨x, by simp [Rel.Send_Much, hflags], h, hord, rfl, rfl⟩

theorem Rel.send_or_buffer_spec (h : x.Sound lk ty up) (hord : x.r.Ordered q)
    (hseq : x.r.seq_no = q + 1) : ∃ x', x.send_or_buffer lk q = some x' ∧ x'.Sound lk ty up
      ∧ x'.r.Ordered x'.r.seq_no := by
  by_cases hwait : x.r.fits = false ∨ x.r.msg_buff ≠ [] ∨ x.r.flags ≠ .CONNECTED_LINK
  · refine ⟨_, by rw [Rel.send_or_buffer, if_pos hwait], ?_, ?_⟩
    · exact h.congr rfl rfl rfl rfl id
    · have hsnoc : Numbered (q + 1) x.r.head (x.r.msg_buff ++ [q]) := Numbered.snoc hord
      simpa [Reliable_Data.Ordered, hseq] using hsnoc
  · have hfits : x.r.fits = true := by
      by_contra hf
      exact hwait (.inl (by simpa using hf))
    have hbuff : x.r.msg_buff = [] := by
      by_contra hb
      exact hwait (.inr (.inl hb))
    have hflags : x.r.flags = .CONNECTED_LINK := by
      by_contra hf
      exact hwait (.inr (.inr hf))
    -- nothing is buffered, so the message is the next one after the window
    have hhead : x.r.head = q := by
      have hnum : Numbered q x.r.head x.r.msg_buff := hord
      rw [hbuff] at hnum
      exact hnum
    have hne : q + 1 ≠ x.r.tail := by
      rw [← hhead]
      exact head_ne_tail hfits
    have hsent : ({ x with r := { x.r with head := q + 1 } } : Rel).Sound lk ty up :=
      h.congr rfl rfl rfl rfl (fun _ => hne)
    refine ⟨_, ?_, hsent.cancel_ack.queue_timeout (by simpa using hflags) (by simpa using hne), ?_⟩
    · rw [Rel.send_or_buffer, if_neg hwait, if_neg (by simp [hhead])]
    · simp [Reliable_Data.Ordered, hbuff, Numbered, hseq]

theorem Rel.Reliable_Send_Msg_spec (h : x.Sound lk ty up) (hord : x.r.Ordered x.r.seq_no) :
    ∃ x', x.Reliable_Send_Msg lk = some x' ∧ x'.Sound lk ty up
      ∧ x'.r.Ordered x'.r.seq_no := by
  have hnext : ({ x with r := { x.r with seq_no := x.r.seq_no + 1 } } : Rel).Sound lk ty up :=
    h.congr rfl rfl rfl rfl id
  by_cases hflags : x.r.flags = .CONNECTED_LINK
  · obtain ⟨y, hy, hysound, hyord, -, hyseq⟩ :=
      Rel.Send_Much_spec (q := x.r.seq_no) hnext hord
    obtain ⟨x', hx', hsound, hord'⟩ := Rel.send_or_buffer_spec hysound hyord hyseq
    refine ⟨x', ?_, hsound, hord'⟩
    rw [Rel.Reliable_Send_Msg, if_pos hflags, hy]
    exact hx'
  · obtain ⟨x', hx', hsound, hord'⟩ :=
      Rel.send_or_buffer_spec (q := x.r.seq_no) hnext hord rfl
    refine ⟨x', ?_, hsound, hord'⟩
    rw [Rel.Reliable_Send_Msg, if_neg hflags]
    exact hx'

end Sending

/-! ## 5. Acks and timeouts

A timer that goes off has been taken out of the queue, and what it relied on
holds. -/

section Acks

variable {lk : ℕ} {ty : Link_Type} {up : Prop} {x : Rel}

theorem Rel.Send_Ack_spec (h : x.Sound lk ty up) (hord : x.r.Ordered x.r.seq_no)
    (hgone : x.row .Send_Ack = none) (hfits : Timer.Fits ty up (some x.r) .Send_Ack) :
    ∃ x', x.Send_Ack = some x' ∧ x'.Sound lk ty up ∧ x'.r.Ordered x'.r.seq_no := by
  obtain ⟨r', hr', hflags, -⟩ := hfits
  obtain rfl : x.r = r' := some.inj hr'
  refine ⟨_, if_neg (by simp [hflags]), ?_, hord⟩
  apply h.set
  intro f hf hold
  by_cases hfa : f = .Send_Ack
  · subst hfa
    exact absurd hgone hf
  · cases f <;> simp_all [Timer.Fits]

theorem Rel.Sound.clear_timeout (h : x.Sound lk ty up)
    (hgone : x.row .Reliable_timeout = none) :
    ({ x with r := { x.r with scheduled_timeout := false } } : Rel).Sound lk ty up := by
  apply h.set
  intro f hf hold
  by_cases hft : f = .Reliable_timeout
  · subst hft
    exact absurd hgone hf
  · cases f <;> simp_all [Timer.Fits]

theorem Rel.Reliable_timeout_spec (w : Window) (h : x.Sound lk ty up)
    (hord : x.r.Ordered x.r.seq_no) (hfits : Timer.Fits ty up (some x.r) .Reliable_timeout) :
    ∃ x', x.Reliable_timeout lk w = some x' ∧ x'.Sound lk ty up
      ∧ x'.r.Ordered x'.r.seq_no := by
  obtain ⟨r', hr', hflags, hs, hne⟩ := hfits
  obtain rfl : x.r = r' := some.inj hr'
  have hwin : ({ x with r := { x.r with window_size := w } } : Rel).Sound lk ty up :=
    h.congr rfl rfl rfl rfl id
  refine ⟨_, by rw [Rel.Reliable_timeout, if_neg (by simp [hflags]), if_neg hne], ?_, ?_⟩
  · apply hwin.cancel_ack.E_queue
    simpa [Timer.Fits] using ⟨hflags, hs, hne⟩
  · simpa [Rel.E_queue, Reliable_Data.Ordered] using hord

theorem Rel.Send_Nack_Retransm_spec (w : Window) (h : x.Sound lk ty up)
    (hord : x.r.Ordered x.r.seq_no) (hgone : x.row .Send_Nack_Retransm = none)
    (hfits : Timer.Fits ty up (some x.r) .Send_Nack_Retransm) :
    ∃ x', x.Send_Nack_Retransm w = some x' ∧ x'.Sound lk ty up
      ∧ x'.r.Ordered x'.r.seq_no := by
  obtain ⟨r', hr', hflags, -⟩ := hfits
  obtain rfl : x.r = r' := some.inj hr'
  rw [Rel.Send_Nack_Retransm, if_neg (by simp [hflags])]
  by_cases hnone : x.r.nack_len = 0 ∨ x.r.nack_buff = false
  · exact ⟨x, by rw [if_pos hnone], h, hord⟩
  · rw [if_neg hnone]
    by_cases hempty : x.r.head = x.r.tail
    · refine ⟨_, by rw [if_pos hempty], h.clear_timeout ?_, hord⟩
      by_contra hq
      obtain ⟨r', hr', -, -, hne⟩ := h.fits (by simp) hq
      obtain rfl : x.r = r' := some.inj hr'
      exact hne hempty
    · have hwin : ({ x with r := { x.r with window_size := w } } : Rel).Sound lk ty up :=
        h.congr rfl rfl rfl rfl id
      refine ⟨_, by rw [if_neg hempty], ?_, ?_⟩
      · apply hwin.cancel_ack.set
        intro f hf hold
        by_cases hfn : f = .Send_Nack_Retransm
        · subst hfn
          refine absurd ?_ hf
          by_cases hack : x.r.scheduled_ack = true <;>
            simp [Rel.cancel_ack, Rel.E_dequeue, hack, hgone]
        · cases f <;> simp_all [Timer.Fits]
      · simpa [Reliable_Data.Ordered] using hord

theorem Rel.take_nacks_spec (a : Rel.Ack) (h : x.Sound lk ty up)
    (hflags : x.r.flags = .CONNECTED_LINK) : (x.take_nacks lk a).Sound lk ty up := by
  by_cases hnack : sizeof_reliable_tail < a.ack_len
  · rw [Rel.take_nacks, if_pos hnack]
    apply Rel.Sound.E_queue
    · apply h.set
      intro f _ hold
      cases f <;> simp_all [Timer.Fits]
    · simp [Timer.Fits, hflags]
  · rw [Rel.take_nacks, if_neg hnack]
    exact h

theorem Rel.take_nacks_same (lk : ℕ) (a : Rel.Ack) :
    (x.take_nacks lk a).r.flags = x.r.flags ∧ (x.take_nacks lk a).r.head = x.r.head
      ∧ (x.take_nacks lk a).r.msg_buff = x.r.msg_buff
      ∧ (x.take_nacks lk a).r.seq_no = x.r.seq_no := by
  by_cases hnack : sizeof_reliable_tail < a.ack_len <;>
    simp [Rel.take_nacks, hnack, Rel.E_queue]

theorem Rel.advance_same (lk : ℕ) (a : Rel.Ack) :
    (x.advance lk a).r.flags = x.r.flags ∧ (x.advance lk a).r.head = x.r.head
      ∧ (x.advance lk a).r.msg_buff = x.r.msg_buff ∧ (x.advance lk a).r.seq_no = x.r.seq_no := by
  by_cases hnew : x.r.tail < a.cummulative_ack <;> by_cases hbuff : x.r.msg_buff = [] <;>
    simp [Rel.advance, hnew, hbuff, Rel.E_queue]

theorem Rel.renew_timeout_same (lk : ℕ) :
    (x.renew_timeout lk).r.flags = x.r.flags ∧ (x.renew_timeout lk).r.head = x.r.head
      ∧ (x.renew_timeout lk).r.msg_buff = x.r.msg_buff
      ∧ (x.renew_timeout lk).r.seq_no = x.r.seq_no := by
  by_cases hs : x.r.scheduled_timeout = true <;> by_cases hlt : x.r.tail < x.r.head <;>
    simp [Rel.renew_timeout, hs, hlt, Rel.E_queue, Rel.E_dequeue]

theorem Rel.Sound.move_tail (h : x.Sound lk ty up) (t : BitVec 32) (w : Window) :
    (({ x with r := { x.r with tail := t, window_size := w } } : Rel).E_dequeue
      .Reliable_timeout).Sound lk ty up := by
  apply Rel.Sound.set (h.E_dequeue .Reliable_timeout)
  intro f hf hold
  by_cases hft : f = .Reliable_timeout
  · subst hft
    exact absurd (by simp [Rel.E_dequeue]) hf
  · cases f <;> simp_all [Timer.Fits, Rel.E_dequeue]

theorem Rel.advance_spec (a : Rel.Ack) (h : x.Sound lk ty up)
    (hflags : x.r.flags = .CONNECTED_LINK) :
    ((x.advance lk a).E_dequeue .Reliable_timeout).Sound lk ty up
      ∧ ((x.advance lk a).row .Reliable_timeout ≠ none →
        (x.advance lk a).r.scheduled_timeout = true) := by
  have hflag : x.row .Reliable_timeout ≠ none → x.r.scheduled_timeout = true := by
    intro hq
    obtain ⟨r', hr', -, hs, -⟩ := h.fits (by simp) hq
    obtain rfl : x.r = r' := some.inj hr'
    exact hs
  by_cases hnew : x.r.tail < a.cummulative_ack
  · have hmoved := h.move_tail a.cummulative_ack a.window_size
    by_cases hbuff : x.r.msg_buff = []
    · rw [Rel.advance, if_pos hnew]
      rw [if_neg (by simp [hbuff])]
      exact ⟨hmoved, hflag⟩
    · have hqueued := hmoved.E_queue (f := .Try_to_Send)
        (by simpa [Timer.Fits, Rel.E_dequeue] using hflags)
      rw [Rel.advance, if_pos hnew]
      rw [if_pos hbuff]
      refine ⟨?_, by simpa [Rel.E_queue] using hflag⟩
      rw [Rel.E_queue, Rel.E_dequeue, update_comm (by simp)] at hqueued
      exact hqueued
  · rw [Rel.advance, if_neg hnew]
    exact ⟨h.E_dequeue .Reliable_timeout, hflag⟩

theorem Rel.renew_timeout_spec (h : (x.E_dequeue .Reliable_timeout).Sound lk ty up)
    (hflag : x.row .Reliable_timeout ≠ none → x.r.scheduled_timeout = true)
    (hflags : x.r.flags = .CONNECTED_LINK) : (x.renew_timeout lk).Sound lk ty up := by
  -- after the first half no timeout is queued, and its flag is down
  have hcancel : ∃ y : Rel, y.Sound lk ty up ∧ y.r.flags = .CONNECTED_LINK
      ∧ x.renew_timeout lk
        = if y.r.tail < y.r.head then
            ({ y with r := { y.r with scheduled_timeout := true } } : Rel).E_queue
              .Reliable_timeout lk
          else y := by
    by_cases hs : x.r.scheduled_timeout = true
    · refine ⟨({ x with r := { x.r with scheduled_timeout := false } } : Rel).E_dequeue
        .Reliable_timeout, h.clear_timeout (by simp [Rel.E_dequeue]), hflags, ?_⟩
      simp [Rel.renew_timeout, hs]
    · have hgone : x.row .Reliable_timeout = none := by
        by_contra hq
        exact hs (hflag hq)
      have hsame : x.E_dequeue .Reliable_timeout = x := by
        rw [Rel.E_dequeue, ← hgone, Function.update_eq_self]
      refine ⟨x, hsame ▸ h, hflags, ?_⟩
      simp [Rel.renew_timeout, hs]
  obtain ⟨y, hy, hyflags, heq⟩ := hcancel
  rw [heq]
  by_cases hlt : y.r.tail < y.r.head
  · rw [if_pos hlt]
    have hne : y.r.head ≠ y.r.tail := by
      intro he
      rw [he] at hlt
      exact BitVec.lt_irrefl _ hlt
    apply Rel.Sound.E_queue
    · apply hy.set
      intro f _ hold
      cases f <;> simp_all [Timer.Fits]
    · simpa [Timer.Fits] using ⟨hyflags, hne⟩
  · rw [if_neg hlt]
    exact hy

theorem Rel.Process_Ack_spec (a : Rel.Ack) (h : x.Sound lk ty up)
    (hord : x.r.Ordered x.r.seq_no) (hflags : x.r.flags = .CONNECTED_LINK) :
    (x.Process_Ack lk a).1.Sound lk ty up
      ∧ (x.Process_Ack lk a).1.r.Ordered (x.Process_Ack lk a).1.r.seq_no
      ∧ (x.Process_Ack lk a).1.r.flags = .CONNECTED_LINK := by
  have hn := x.take_nacks_spec a h hflags
  obtain ⟨hnf, hnh, hnb, hns⟩ := x.take_nacks_same lk a
  have hnflags : (x.take_nacks lk a).r.flags = .CONNECTED_LINK := hnf.trans hflags
  by_cases hother : (x.take_nacks lk a).r.head < a.cummulative_ack
  · rw [Rel.Process_Ack, if_pos hother]
    refine ⟨hn, ?_, hnflags⟩
    simpa [Reliable_Data.Ordered, hnh, hnb, hns] using hord
  · rw [Rel.Process_Ack, if_neg hother]
    obtain ⟨hadv, hflag⟩ := (x.take_nacks lk a).advance_spec a hn hnflags
    obtain ⟨haf, hah, hab, has⟩ := (x.take_nacks lk a).advance_same lk a
    obtain ⟨hrf, hrh, hrb, hrs⟩ := ((x.take_nacks lk a).advance lk a).renew_timeout_same lk
    refine ⟨Rel.renew_timeout_spec hadv hflag (haf.trans hnflags), ?_, ?_⟩
    · simpa [Reliable_Data.Ordered, hrh, hrb, hrs, hah, hab, has, hnh, hnb, hns] using hord
    · exact hrf.trans (haf.trans hnflags)

theorem Rel.Sound.queue_ack (h : x.Sound lk ty up) (hflags : x.r.flags = .CONNECTED_LINK) :
    (({ x with r := { x.r with scheduled_ack := true } } : Rel).E_queue .Send_Ack lk).Sound
      lk ty up := by
  apply Rel.Sound.E_queue
  · apply h.set
    intro f _ hold
    cases f <;> simp_all [Timer.Fits]
  · simp [Timer.Fits, hflags]

theorem Rel.Process_rel_udp_data_packet_spec (a : Rel.Ack) (h : x.Sound lk ty up)
    (hord : x.r.Ordered x.r.seq_no) : (x.Process_rel_udp_data_packet lk a).Sound lk ty up
      ∧ (x.Process_rel_udp_data_packet lk a).r.Ordered
        (x.Process_rel_udp_data_packet lk a).r.seq_no := by
  by_cases hflags : x.r.flags = .CONNECTED_LINK
  · obtain ⟨hs, ho, hf⟩ := x.Process_Ack_spec a h hord hflags
    rw [Rel.Process_rel_udp_data_packet, if_neg (by simp [hflags])]
    dsimp only
    by_cases hflag : (x.Process_Ack lk a).2 = -1
    · rw [if_pos hflag]
      exact ⟨hs, ho⟩
    · rw [if_neg hflag]
      by_cases hack : (x.Process_Ack lk a).1.r.scheduled_ack = true
      · rw [if_pos hack]
        refine ⟨hs.E_queue ?_, ho⟩
        simpa [Timer.Fits] using ⟨hf, hack⟩
      · rw [if_neg hack]
        exact ⟨hs.queue_ack hf, ho⟩
  · rw [Rel.Process_rel_udp_data_packet, if_pos hflags]
    exact ⟨h, hord⟩

theorem Rel.Process_state_packet_spec (a : Rel.Ack) (h : x.Sound lk .CONTROL_LINK up)
    (hord : x.r.Ordered x.r.seq_no) : (x.Process_state_packet lk a).Sound lk .CONTROL_LINK up
      ∧ (x.Process_state_packet lk a).r.Ordered (x.Process_state_packet lk a).r.seq_no := by
  by_cases hflags : x.r.flags = .CONNECTED_LINK
  · obtain ⟨hs, ho, hf⟩ := x.Process_Ack_spec a h hord hflags
    rw [Rel.Process_state_packet, if_pos hflags]
    dsimp only
    by_cases hflag : (x.Process_Ack lk a).2 = -1
    · rw [if_pos hflag]
      exact ⟨hs, ho⟩
    · rw [if_neg hflag]
      by_cases hq : ((x.Process_Ack lk a).1.row .Send_Ack).isNone = true
      · rw [if_pos hq]
        exact ⟨hs.queue_ack hf, ho⟩
      · rw [if_neg hq]
        exact ⟨hs, ho⟩
  · rw [Rel.Process_state_packet, if_neg hflags]
    exact ⟨h.E_queue rfl, hord⟩

theorem Rel.Process_ack_packet_spec (a : Rel.Ack) (h : x.Sound lk ty up)
    (hord : x.r.Ordered x.r.seq_no) : (x.Process_ack_packet lk a).Sound lk ty up
      ∧ (x.Process_ack_packet lk a).r.Ordered (x.Process_ack_packet lk a).r.seq_no := by
  by_cases hflags : x.r.flags = .CONNECTED_LINK
  · obtain ⟨hs, ho, -⟩ := x.Process_Ack_spec a h hord hflags
    rw [Rel.Process_ack_packet, if_pos hflags]
    exact ⟨hs, ho⟩
  · rw [Rel.Process_ack_packet, if_neg hflags]
    exact ⟨h, hord⟩

end Acks

end Spines.Hello
