/-
`daemon/reliable_datagram.c`: the two ends of a reliable link.

The receiving half keeps a flag for each number modulo `MAX_WINDOW` and does not look how far
a number is above `recv_tail`; it depends on the window of the other end. That moves on the
cumulative acknowledgements, so each half relies on the other. A packet carries a message out
of the window, or none, with the acknowledgement and the NACKs of its sender. The network
keeps what was sent, and any packet may come at any time, again, or never.

`Direction` is about one direction of the link, and nothing in it is about the window of the
other direction. Timers are left out: a message of the window may be sent again at any time,
and the times of NACKs are a parameter.
-/
import Spines.ReliableLink.Sender
import Spines.Lib.Ring

set_option autoImplicit false

namespace Spines.ReliableLink

open Spines.Lib Function List

/-! ## 1. The receiving half -/

inductive Flag
  | EMPTY_CELL
  | RECVD_CELL
  | NACK_CELL
  deriving DecidableEq

structure Recv where
  recv_head : ℕ
  recv_tail : ℕ
  recv_window : ℕ → Flag

/-- The loop that adds NACKs to a packet with room for `room` of them, for the `n` numbers from
`i` on. `due` says which were sent long enough ago to be sent again. -/
def add_nacks (Fast_Retransmit : Bool) (due : ℕ → Bool) :
    ℕ → ℕ → ℕ → (ℕ → Flag) → List ℕ × (ℕ → Flag)
  | 0, _, _, w => ([], w)
  | n + 1, i, room, w =>
    if room = 0 then ([], w)
    else if w (i % MAX_WINDOW) = .EMPTY_CELL ∧ (3 < n + 1 ∨ 1 < n + 1 ∧ Fast_Retransmit) ∨
        w (i % MAX_WINDOW) = .NACK_CELL ∧ due i then
      let r := add_nacks Fast_Retransmit due n (i + 1) (room - 1)
        (update w (i % MAX_WINDOW) .NACK_CELL)
      (i :: r.1, r.2)
    else add_nacks Fast_Retransmit due n (i + 1) room w

/-- The loop that moves `recv_tail`, with `n` numbers left below `recv_head`. -/
def Recv.slide : ℕ → Recv → Recv
  | 0, v => v
  | n + 1, v =>
    if v.recv_window (v.recv_tail % MAX_WINDOW) ≠ .RECVD_CELL then v
    else slide n { v with
      recv_window := update v.recv_window (v.recv_tail % MAX_WINDOW) .EMPTY_CELL
      recv_tail := v.recv_tail + 1 }

/-- The part of `Process_Ack` for the number of a packet with data. -/
def Recv.take (v : Recv) (seq_no : ℕ) : Recv × ℤ :=
  if v.recv_window (seq_no % MAX_WINDOW) = .RECVD_CELL ∨ seq_no < v.recv_tail then (v, 0)
  else
    let recv_head := if v.recv_head ≤ seq_no then int32u (seq_no + 1) else v.recv_head
    (Recv.slide (recv_head - v.recv_tail) { v with
      recv_head := recv_head
      recv_window := update v.recv_window (seq_no % MAX_WINDOW) .RECVD_CELL }, 1)

/-! ## 2. Two ends -/

/-- `data` is the number and the message. -/
structure Packet where
  data : Option (ℕ × Bytes)
  cummulative_ack : ℕ
  nacks : List ℕ

/-- Both halves of an end, with what it was given to send, what it has sent, and the messages
for which `Process_Ack` has returned 1. -/
structure End where
  r : Reliable_Data
  recv : Recv
  log : List Bytes
  sent : List Packet
  accepted : List (ℕ × Bytes)

def End.init (c : Config) : End := ⟨Create_Link c, ⟨0, 0, fun _ => .EMPTY_CELL⟩, [], [], []⟩

/-- The packet goes out. -/
def End.send (x : End) (Fast_Retransmit : Bool) (due : ℕ → Bool) (room : ℕ)
    (data : Option (ℕ × Bytes)) : End :=
  let nacks := add_nacks Fast_Retransmit due (x.recv.recv_head - x.recv.recv_tail)
    x.recv.recv_tail room x.recv.recv_window
  { x with
    recv := { x.recv with recv_window := nacks.2 }
    sent := ⟨data, x.recv.recv_tail, nacks.1⟩ :: x.sent }

/-- `Process_Ack`, with what it returns. -/
def End.Process_Ack (c : Config) (p : Packet) (x : End) : Except Exit (End × ℤ) :=
  if x.r.head < p.cummulative_ack then .ok (x, 0)
  else do
    let r ← ReliableLink.Process_Ack c p.cummulative_ack x.r
    match p.data with
    | none => .ok ({ x with r }, -1)
    | some (seq_no, buff) =>
      let (recv, flag) := x.recv.take seq_no
      .ok ({ x with
        r
        recv
        accepted := if flag = 1 then x.accepted ++ [(seq_no, buff)] else x.accepted }, flag)

/-- What can happen at an end, with `y` at the other end: what it does on its own, the sending
of a message of its window or of an acknowledgement, and the arrival of a packet. -/
inductive End.Does (c : Config) (Fast_Retransmit : Bool) (x y : End) : End → Prop
  | own {e : Event} {r : Reliable_Data} (hown : ∀ cummulative_ack, e ≠ .Process_Ack cummulative_ack)
      (hstep : step c x.r e = .ok r) : Does c Fast_Retransmit x y { x with r, log := e.given x.log }
  | transmit (hconn : x.r.connected) {k : ℕ} {buff : Bytes}
      (hbuff : (x.r.window k).buff = some buff) (due : ℕ → Bool) (room : ℕ) :
      Does c Fast_Retransmit x y
        (x.send Fast_Retransmit due room (some ((x.r.window k).seq_no, buff)))
  | Send_Ack (hconn : x.r.connected) (due : ℕ → Bool) (room : ℕ) :
      Does c Fast_Retransmit x y (x.send Fast_Retransmit due room none)
  | receive (hconn : x.r.connected) {p : Packet} (hp : p ∈ y.sent) {x' : End} {flag : ℤ}
      (hrun : x.Process_Ack c p = .ok (x', flag)) : Does c Fast_Retransmit x y x'

/-- End `s` does something. -/
def Both (c : Config) (Fast_Retransmit : Bool) (w : Bool → End) (s : Bool) (w' : Bool → End) :
    Prop :=
  ∃ x, (w s).Does c Fast_Retransmit (w !s) x ∧ w' = update w s x

/-! ## 3. The receiving window -/

section Recv

variable {v : Recv} {A : List ℕ} {Fast_Retransmit : Bool} {due : ℕ → Bool}

/-- The numbers `A` were accepted. -/
structure Recv.Window (v : Recv) (A : List ℕ) : Prop where
  near : v.recv_head ≤ v.recv_tail + MAX_WINDOW
  below : ∀ n < v.recv_tail, n ∈ A
  top : ∀ n ∈ A, n < v.recv_head
  cells : ∀ n, v.recv_tail ≤ n → n < v.recv_tail + MAX_WINDOW →
    (v.recv_window (n % MAX_WINDOW) = .RECVD_CELL ↔ n ∈ A)

theorem add_nacks_spec (n i room : ℕ) (w : ℕ → Flag) :
    (∀ k, (add_nacks Fast_Retransmit due n i room w).2 k = .RECVD_CELL ↔ w k = .RECVD_CELL) ∧
    ∀ m ∈ (add_nacks Fast_Retransmit due n i room w).1,
      i ≤ m ∧ m < i + n ∧ w (m % MAX_WINDOW) ≠ .RECVD_CELL := by
  induction n generalizing i room w with
  | zero => exact ⟨fun _ => Iff.rfl, fun _ h => absurd h not_mem_nil⟩
  | succ n ih =>
    rw [add_nacks]
    split
    · exact ⟨fun _ => Iff.rfl, fun _ h => absurd h not_mem_nil⟩
    split
    · rename_i hmark
      have hnot : w (i % MAX_WINDOW) ≠ .RECVD_CELL := by
        obtain ⟨h, -⟩ | ⟨h, -⟩ := hmark <;> rw [h] <;> decide
      have hsame : ∀ k, update w (i % MAX_WINDOW) .NACK_CELL k = .RECVD_CELL ↔
          w k = .RECVD_CELL := by
        intro k
        by_cases hk : k = i % MAX_WINDOW
        · simp [hk, hnot]
        · rw [update_of_ne hk]
      obtain ⟨hflags, hlist⟩ := ih (i + 1) (room - 1) (update w (i % MAX_WINDOW) .NACK_CELL)
      refine ⟨fun k => (hflags k).trans (hsame k), fun m hm => ?_⟩
      obtain rfl | hm := mem_cons.mp hm
      · exact ⟨le_rfl, by omega, hnot⟩
      · obtain ⟨hlo, hhi, hne⟩ := hlist m hm
        exact ⟨by omega, by omega, mt (hsame _).mpr hne⟩
    · obtain ⟨hflags, hlist⟩ := ih (i + 1) room w
      refine ⟨hflags, fun m hm => ?_⟩
      obtain ⟨hlo, hhi, hne⟩ := hlist m hm
      exact ⟨by omega, by omega, hne⟩

/-- By induction on the numbers left. The cell that the tail leaves becomes that of a number
which was not received yet. -/
theorem Recv.Window.slide {n : ℕ} (h : v.Window A) (hn : n = v.recv_head - v.recv_tail) :
    (v.slide n).Window A ∧ (v.slide n).recv_tail ∉ A ∧ v.recv_tail ≤ (v.slide n).recv_tail ∧
      (v.slide n).recv_head = v.recv_head := by
  have hnear := h.near
  induction n generalizing v with
  | zero =>
    refine ⟨h, fun hmem => ?_, le_rfl, rfl⟩
    have htop := h.top _ hmem
    rw [Recv.slide] at htop
    omega
  | succ n ih =>
    have hcell := h.cells v.recv_tail le_rfl (by simp [MAX_WINDOW])
    rw [Recv.slide]
    split
    · rename_i hopen
      exact ⟨h, mt hcell.mpr hopen, le_rfl, rfl⟩
    · rename_i hrecvd
      have hmem := hcell.mp (not_not.mp hrecvd)
      have hnext : Recv.Window { v with
          recv_window := update v.recv_window (v.recv_tail % MAX_WINDOW) .EMPTY_CELL
          recv_tail := v.recv_tail + 1 } A := by
        refine ⟨by dsimp only; omega, fun m hm => ?_, h.top, fun m hlo hhi => ?_⟩
        · obtain hm | rfl := Nat.lt_succ_iff_lt_or_eq.mp hm
          · exact h.below m hm
          · exact hmem
        · dsimp only at hlo hhi ⊢
          obtain hold | rfl : m < v.recv_tail + MAX_WINDOW ∨ m = v.recv_tail + MAX_WINDOW := by
            omega
          · rw [update_slot_ne v.recv_window _ (by omega) hold le_rfl (by omega) (by omega)]
            exact h.cells m (by omega) hold
          · rw [Nat.add_mod_right, update_self]
            refine iff_of_false (by decide) fun hmem' => ?_
            have htop := h.top _ hmem'
            omega
      obtain ⟨hwindow, hmiss, hle, hhead⟩ := ih hnext (by dsimp only; omega) (by dsimp only; omega)
      exact ⟨hwindow, hmiss, (Nat.le_succ _).trans hle, hhead⟩

theorem Recv.Window.take (h : v.Window A) {seq_no : ℕ}
    (hfar : seq_no < v.recv_tail + MAX_WINDOW) (hlt : seq_no + 1 < 2 ^ 32) :
    v.take seq_no = (v, 0) ∨ seq_no ∉ A ∧ ∃ v', v.take seq_no = (v', 1) ∧
      v'.Window (A ++ [seq_no]) ∧ v'.recv_tail ∉ A ++ [seq_no] ∧ v.recv_tail ≤ v'.recv_tail ∧
      v'.recv_head = max v.recv_head (seq_no + 1) := by
  unfold Recv.take
  split
  · exact .inl rfl
  rename_i hfresh
  obtain ⟨hflag, hge⟩ := not_or.mp hfresh
  have hnew : seq_no ∉ A := mt (h.cells seq_no (not_lt.mp hge) hfar).mpr hflag
  have hhead : (if v.recv_head ≤ seq_no then int32u (seq_no + 1) else v.recv_head) =
      max v.recv_head (seq_no + 1) := by
    rw [int32u_of_lt hlt]
    split <;> omega
  have hnear := h.near
  have hput : Recv.Window { v with
      recv_head := max v.recv_head (seq_no + 1)
      recv_window := update v.recv_window (seq_no % MAX_WINDOW) .RECVD_CELL } (A ++ [seq_no]) := by
    refine ⟨by dsimp only; omega, fun m hm => mem_append_left _ (h.below m hm), fun m hm => ?_,
      fun m hlo hhi => ?_⟩
    · dsimp only
      obtain hm | hm := mem_append.mp hm
      · have htop := h.top m hm
        omega
      · rw [mem_singleton.mp hm]
        omega
    · dsimp only at hlo hhi ⊢
      by_cases hm : m = seq_no
      · simp [hm]
      · rw [update_slot_ne v.recv_window _ hlo hhi (not_lt.mp hge) hfar hm, h.cells m hlo hhi]
        simp [hm]
  obtain ⟨hwindow, hmiss', hle, htop⟩ := hput.slide rfl
  rw [hhead]
  exact .inr ⟨hnew, _, rfl, hwindow, hmiss', hle, htop⟩

end Recv

/-! ## 4. The sending window between two acknowledgements -/

section Sending

variable {c : Config} {r r' : Reliable_Data} {log : List Bytes} {T H : ℕ}

theorem process_ack_tail {cummulative_ack : ℕ} (h : Process_Ack c cummulative_ack r = .ok r') :
    r'.tail ≤ max r.tail cummulative_ack := by
  have hloop : ∀ (l : List ℕ) (r : Reliable_Data), l.foldlM (ack_one c) r = .ok r' →
      r'.tail ≤ r.tail + l.length := by
    intro l
    induction l with
    | nil =>
      intro r hrun
      obtain rfl := Except.ok.inj hrun
      exact le_rfl
    | cons i l ih =>
      intro r hrun
      rw [foldlM_cons] at hrun
      cases hone : ack_one c r i with
      | error e =>
        rw [hone] at hrun
        cases hrun
      | ok r1 =>
        rw [hone] at hrun
        have htail : r1.tail = int32u (r.tail + 1) := by
          unfold ack_one at hone
          dsimp only [bind, Except.bind] at hone
          split at hone
          · cases hone
          split at hone
          · cases hone
          obtain rfl := Except.ok.inj hone
          split <;> rfl
        have hle := ih r1 hrun
        have hmod : int32u (r.tail + 1) ≤ r.tail + 1 := Nat.mod_le _ _
        rw [length_cons]
        omega
  unfold Process_Ack at h
  split at h
  · obtain rfl := Except.ok.inj h
    exact le_max_left _ _
  · have hle := hloop _ r h
    rw [length_range'] at hle
    omega

theorem own_step (hc : c.Fits) (h : Sender r log T H) (hseq : r.seq_no = int32u log.length)
    {e : Event} (hown : ∀ cummulative_ack, e ≠ .Process_Ack cummulative_ack)
    (hrun : step c r e = .ok r') :
    (∃ H', Sender r' (e.given log) T H') ∧ r'.seq_no = int32u (e.given log).length := by
  cases e with
  | connect =>
    obtain rfl := Except.ok.inj hrun
    exact ⟨⟨H, h.resize h.size r.ssthresh r.cong_flag true⟩, hseq⟩
  | Reliable_Send_Msg buff pack_type =>
    obtain ⟨r1, H', hsend, h', hseq'⟩ := reliable_send_msg_spec (c := c) h hseq buff pack_type
    obtain rfl := Except.ok.inj (hsend.symm.trans hrun)
    exact ⟨⟨H', h'⟩, hseq'⟩
  | Try_to_Send =>
    obtain ⟨r1, H', hsend, h', hseq', -⟩ := send_much_spec (c := c) h
    obtain rfl := Except.ok.inj (hsend.symm.trans hrun)
    exact ⟨⟨H', h'⟩, hseq'.trans hseq⟩
  | Process_Ack cummulative_ack => exact absurd rfl (hown cummulative_ack)
  | Reliable_timeout =>
    obtain ⟨h', hseq'⟩ := reliable_timeout_spec h hc hrun
    exact ⟨⟨H, h'⟩, hseq'.trans hseq⟩
  | Send_Nack_Retransm nack_seq =>
    obtain ⟨h', hseq'⟩ := send_nack_retransm_spec h hc hrun
    exact ⟨⟨H, h'⟩, hseq'.trans hseq⟩

theorem given_prefix (e : Event) (log : List Bytes) : log <+: e.given log := by
  cases e with
  | Reliable_Send_Msg buff pack_type => exact prefix_append log [buff]
  | _ => exact prefix_rfl

/-- What is in a cell is a message of the window. -/
theorem Sender.cell (h : Sender r log T H) (hfew : log.length < 2 ^ 32) {k : ℕ} {buff : Bytes}
    (hk : (r.window k).buff = some buff) :
    log[(r.window k).seq_no]? = some buff ∧ (r.window k).seq_no < T + MAX_WINDOW := by
  have htotal := h.total
  have hnear := h.near
  have hplaced := h.placed (.inl (by omega))
  obtain ⟨n, hT, hn, hcell, hnum⟩ := hplaced.only k (by rw [hk]; exact Option.some_ne_none _)
  rw [int32u_of_lt (by omega)] at hnum
  rw [hnum, ← (hplaced.holds n hT hn).1, ← hcell]
  exact ⟨hk, by omega⟩

end Sending

/-! ## 5. One direction -/

/-- From `x` to `y`. -/
structure Direction (x y : End) : Prop where
  sender : ∃ H, Sender x.r x.log x.r.tail H
  seq_no : x.r.seq_no = int32u x.log.length
  data : ∀ p ∈ x.sent, ∀ n buff, p.data = some (n, buff) →
    x.log[n]? = some buff ∧ n < y.recv.recv_tail + MAX_WINDOW
  window : y.recv.Window (y.accepted.map Prod.fst)
  missing : y.recv.recv_tail ∉ y.accepted.map Prod.fst
  once : (y.accepted.map Prod.fst).Nodup
  genuine : ∀ n buff, (n, buff) ∈ y.accepted → x.log[n]? = some buff
  head : y.recv.recv_head ≤ x.log.length
  tail : x.r.tail ≤ y.recv.recv_tail
  acks : ∀ p ∈ y.sent, p.cummulative_ack ≤ y.recv.recv_tail
  nacks : ∀ p ∈ y.sent, ∀ n ∈ p.nacks, p.cummulative_ack ≤ n ∧ n < x.log.length

section Direction

variable {c : Config} {Fast_Retransmit : Bool} {x x' y y' : End}

theorem Direction.transmitted (h : Direction x y) (due : ℕ → Bool) (room : ℕ)
    {data : Option (ℕ × Bytes)} (hdata : ∀ n buff, data = some (n, buff) →
      x.log[n]? = some buff ∧ n < y.recv.recv_tail + MAX_WINDOW) :
    Direction (x.send Fast_Retransmit due room data) y := by
  refine { h with data := fun p hp n buff hpn => ?_ }
  obtain rfl | hp := mem_cons.mp hp
  · exact hdata n buff hpn
  · exact h.data p hp n buff hpn

theorem Direction.noted (h : Direction x y) (due : ℕ → Bool) (room : ℕ)
    (data : Option (ℕ × Bytes)) : Direction x (y.send Fast_Retransmit due room data) := by
  obtain ⟨hflags, hlist⟩ := @add_nacks_spec Fast_Retransmit due
    (y.recv.recv_head - y.recv.recv_tail) y.recv.recv_tail room y.recv.recv_window
  have hhead := h.head
  refine { h with
    window := ⟨h.window.near, h.window.below, h.window.top, fun n hlo hhi =>
      (hflags _).trans (h.window.cells n hlo hhi)⟩
    acks := fun p hp => ?_
    nacks := fun p hp n hn => ?_ }
  · obtain rfl | hp := mem_cons.mp hp
    · exact le_rfl
    · exact h.acks p hp
  · obtain rfl | hp := mem_cons.mp hp
    · obtain ⟨hlo, hhi, -⟩ := hlist n hn
      exact ⟨hlo, by omega⟩
    · exact h.nacks p hp n hn

theorem process_ack_cases {p : Packet} {flag : ℤ} (hrun : x.Process_Ack c p = .ok (x', flag)) :
    ∃ r, (r = x.r ∨ ReliableLink.Process_Ack c p.cummulative_ack x.r = .ok r) ∧
      (x' = { x with r } ∨ ∃ seq_no buff, p.data = some (seq_no, buff) ∧ x' = { x with
        r
        recv := (x.recv.take seq_no).1
        accepted := if (x.recv.take seq_no).2 = 1 then x.accepted ++ [(seq_no, buff)]
          else x.accepted }) := by
  unfold End.Process_Ack at hrun
  split at hrun
  · cases hrun
    exact ⟨x.r, .inl rfl, .inl rfl⟩
  cases hack : ReliableLink.Process_Ack c p.cummulative_ack x.r with
  | error e =>
    rw [hack] at hrun
    cases hrun
  | ok r =>
    rw [hack] at hrun
    refine ⟨r, .inr rfl, ?_⟩
    cases hdata : p.data with
    | none =>
      rw [hdata] at hrun
      cases hrun
      exact .inl rfl
    | some d =>
      rw [hdata] at hrun
      cases hrun
      exact .inr ⟨d.1, d.2, rfl, rfl⟩

theorem End.Does.log (h : x.Does c Fast_Retransmit y x') : x.log <+: x'.log := by
  cases h with
  | @own e r hown hstep => exact given_prefix e x.log
  | receive hconn hp hrun =>
    obtain ⟨r, -, rfl | ⟨_, _, -, rfl⟩⟩ := process_ack_cases hrun <;> exact prefix_rfl
  | _ => exact prefix_rfl

/-- What the sending end does. -/
theorem Direction.sends (h : Direction x y) (hc : c.Fits) (hdoes : x.Does c Fast_Retransmit y x')
    (hfew : x.log.length < 2 ^ 32) : Direction x' y := by
  obtain ⟨H, hs⟩ := h.sender
  cases hdoes with
  | @own e r hown hstep =>
    obtain ⟨⟨H', h'⟩, hseq⟩ := own_step hc hs h.seq_no hown hstep
    have hpre := given_prefix e x.log
    have hkept : ∀ (n : ℕ) buff, x.log[n]? = some buff → (e.given x.log)[n]? = some buff := by
      intro n buff hn
      obtain ⟨new, hnew⟩ := hpre
      rw [← hnew, List.getElem?_append_left (List.getElem?_eq_some_iff.mp hn).1]
      exact hn
    have hlen := hpre.length_le
    have htail := h'.tail
    exact { h with
      sender := ⟨H', by rwa [htail]⟩
      seq_no := hseq
      data := fun p hp n buff hpn => ⟨hkept n buff (h.data p hp n buff hpn).1,
        (h.data p hp n buff hpn).2⟩
      genuine := fun n buff hn => hkept n buff (h.genuine n buff hn)
      head := h.head.trans hlen
      tail := htail.trans_le h.tail
      nacks := fun p hp n hn => ⟨(h.nacks p hp n hn).1, (h.nacks p hp n hn).2.trans_le hlen⟩ }
  | @transmit hconn k buff hbuff due room =>
    refine h.transmitted due room ?_
    rintro _ _ ⟨rfl, rfl⟩
    obtain ⟨hlog, hlt⟩ := hs.cell hfew hbuff
    exact ⟨hlog, hlt.trans_le (Nat.add_le_add_right h.tail _)⟩
  | Send_Ack hconn due room =>
    exact h.transmitted due room fun n buff hdata => absurd hdata (by simp)
  | @receive hconn p hp x' flag hrun =>
    obtain ⟨r, hr, hx⟩ := process_ack_cases hrun
    have hack : Direction { x with r } y := by
      obtain rfl | hr := hr
      · exact h
      -- an acknowledgement does not move the tail past what was accepted
      obtain ⟨r', T, hr', hs', hseq⟩ := process_ack_spec (c := c) hs p.cummulative_ack
      obtain rfl := Except.ok.inj (hr'.symm.trans hr)
      exact { h with
        sender := ⟨H, by rwa [hs'.tail]⟩
        seq_no := hseq.trans h.seq_no
        tail := (process_ack_tail hr).trans (max_le h.tail (h.acks p hp)) }
    obtain rfl | ⟨_, _, -, rfl⟩ := hx
    · exact hack
    · exact { hack with }

/-- What the receiving end does. -/
theorem Direction.receives (h : Direction x y) (hdoes : y.Does c Fast_Retransmit x y')
    (hfew : x.log.length < 2 ^ 32) : Direction x y' := by
  cases hdoes with
  | own hown hstep => exact { h with }
  | transmit hconn hbuff due room => exact h.noted due room _
  | Send_Ack hconn due room => exact h.noted due room _
  | @receive hconn p hp y' flag hrun =>
    obtain ⟨r, -, rfl | ⟨n, buff, hdata, rfl⟩⟩ := process_ack_cases hrun
    · exact { h with }
    obtain ⟨hlog, hfar⟩ := h.data p hp n buff hdata
    have hn : n < x.log.length := (List.getElem?_eq_some_iff.mp hlog).1
    obtain htake | ⟨hnew, v, htake, hwindow, hmiss, hle, hhead⟩ := h.window.take hfar (by omega)
    · rw [htake]
      exact { h with }
    have haccepted : (y.accepted ++ [(n, buff)]).map Prod.fst = y.accepted.map Prod.fst ++ [n] := by
      rw [map_append, map_singleton]
    rw [htake]
    refine { h with
      data := fun q hq m b hm => ⟨(h.data q hq m b hm).1, ?_⟩
      window := haccepted ▸ hwindow
      missing := haccepted ▸ hmiss
      once := ?_
      genuine := fun m b hm => ?_
      head := ?_
      tail := h.tail.trans hle
      acks := fun q hq => (h.acks q hq).trans hle }
    · exact (h.data q hq m b hm).2.trans_le (Nat.add_le_add_right hle _)
    · change ((y.accepted ++ [(n, buff)]).map Prod.fst).Nodup
      rw [haccepted, ← concat_eq_append]
      exact h.once.concat hnew
    · obtain hm | hm := mem_append.mp hm
      · exact h.genuine m b hm
      · obtain ⟨rfl, rfl⟩ := Prod.mk.inj (mem_singleton.mp hm)
        exact hlog
    · have hold := h.head
      dsimp only
      omega

end Direction

/-! ## 6. Every run -/

section Runs

variable {c : Config} {Fast_Retransmit : Bool} {w w' : Bool → End}

theorem Both.direction (hc : c.Fits) {t s : Bool} (hstep : Both c Fast_Retransmit w t w')
    (h : (w s).log.length < 2 ^ 32 → Direction (w s) (w !s))
    (hfew : (w' s).log.length < 2 ^ 32) : Direction (w' s) (w' !s) := by
  obtain ⟨x, hdoes, rfl⟩ := hstep
  by_cases hs : t = s
  · subst hs
    rw [update_self] at hfew ⊢
    rw [update_of_ne (by simp)]
    have hold := hdoes.log.length_le.trans_lt hfew
    exact (h hold).sends hc hdoes hold
  · obtain rfl : t = !s := Bool.eq_not_of_ne hs
    rw [update_of_ne (by simp)] at hfew ⊢
    rw [update_self]
    rw [Bool.not_not] at hdoes
    exact (h hfew).receives hdoes hfew

theorem Run.direction (hc : c.Fits)
    (hrun : Run (Both c Fast_Retransmit) (fun _ => End.init c) w) {s : Bool}
    (hfew : (w s).log.length < 2 ^ 32) : Direction (w s) (w !s) := by
  refine hrun.invariant (fun w => (w s).log.length < 2 ^ 32 → Direction (w s) (w !s))
    (fun _ => ?_) (fun w t w' h hstep => hstep.direction hc h) hfew
  refine ⟨⟨0, create_link_sender hc⟩, rfl, ?_, ?_, ?_, .nil, ?_, le_rfl, le_rfl, ?_, ?_⟩
  all_goals simp [End.init]
  exact ⟨by simp, by simp, by simp, by simp⟩

/-- **A reliable link over a network that loses, repeats and reorders packets**, with fewer than
2^32 messages in a direction: what the other end accepts, it accepts once and as it was sent;
its `recv_tail` is the first number that it has not accepted, and the window does not leave
that behind. A message that was not accepted is still kept by its sender. No packet of the
other end stops the daemon, and it asks only for messages that exist. -/
theorem exactly_once (hc : c.Fits) (hrun : Run (Both c Fast_Retransmit) (fun _ => End.init c) w)
    (s : Bool) (hfew : (w s).log.length < 2 ^ 32) :
    ((w !s).accepted.map Prod.fst).Nodup ∧
    (∀ n buff, (n, buff) ∈ (w !s).accepted → (w s).log[n]? = some buff) ∧
    (∀ n < (w !s).recv.recv_tail, n ∈ (w !s).accepted.map Prod.fst) ∧
    (w !s).recv.recv_tail ∉ (w !s).accepted.map Prod.fst ∧
    (w s).r.tail ≤ (w !s).recv.recv_tail ∧
    (∀ n < (w s).log.length, n ∉ (w !s).accepted.map Prod.fst →
      ((w s).r.window (n % MAX_WINDOW)).buff = (w s).log[n]? ∨
        ∃ cell ∈ (w s).r.msg_buff, cell.seq_no = n ∧ cell.buff = (w s).log[n]?) ∧
    ∀ p ∈ (w !s).sent, (∃ x, (w s).Process_Ack c p = .ok x) ∧
      ∀ n ∈ p.nacks, p.cummulative_ack ≤ n ∧ n < (w s).log.length := by
  have h := Run.direction hc hrun hfew
  obtain ⟨H, hs⟩ := h.sender
  refine ⟨h.once, h.genuine, h.window.below, h.missing, h.tail, fun n hn hnot => ?_, fun p hp =>
    ⟨?_, h.nacks p hp⟩⟩
  · have htotal := hs.total
    have hge : (w s).r.tail ≤ n := h.tail.trans (not_lt.mp (mt (h.window.below n) hnot))
    have hnum : int32u n = n := int32u_of_lt (by omega)
    obtain hlt | hge' := Nat.lt_or_ge n H
    · have hplaced := ((hs.placed (.inl (by omega))).holds n hge hlt).1
      rw [hnum] at hplaced
      exact .inl hplaced
    · have hi : n - H < (w s).r.msg_buff.length := by omega
      obtain ⟨hseq, hbuff⟩ := hs.queue (n - H) _ (List.getElem?_eq_getElem hi)
      rw [show H + (n - H) = n by omega] at hseq hbuff
      exact .inr ⟨_, getElem_mem hi, hseq.trans hnum, hbuff⟩
  · obtain ⟨r, -, hr, -⟩ := process_ack_spec (c := c) hs p.cummulative_ack
    unfold End.Process_Ack
    rw [hr]
    split
    · exact ⟨_, rfl⟩
    · cases p.data <;> exact ⟨_, rfl⟩

/-- The link comes up at both ends, and a message is sent and accepted. -/
theorem exactly_once_sent : ∃ w : Bool → End, (w true).log = [[7]] ∧
    (w false).accepted = [(0, [7])] ∧ (w true).log[0]? = some [7] := by
  let c := plain false 0
  let up : Reliable_Data := { Create_Link c with connected := true }
  let r : Reliable_Data := { up with seq_no := int32u (up.seq_no + 1) }.put ⟨0, some [7], 0⟩
  let start : Bool → End := fun _ => End.init c
  let w1 := update start true { start true with r := up }
  let w2 := update w1 false { w1 false with r := up }
  let w3 := update w2 true { w2 true with r, log := [[7]] }
  let w4 := update w3 true ((w3 true).send false (fun _ => false) 0 (some (0, [7])))
  let w5 := update w4 false { w4 false with
    recv := ((w4 false).recv.take 0).1
    accepted := [(0, [7])] }
  have h1 : Both c false start true w1 := ⟨_, .own (e := .connect) (fun _ h => by cases h) rfl, rfl⟩
  have h2 : Both c false w1 false w2 := ⟨_, .own (e := .connect) (fun _ h => by cases h) rfl, rfl⟩
  have hroom : { up with seq_no := int32u (up.seq_no + 1) }.room c = true := by
    have hflight : { up with seq_no := int32u (up.seq_no + 1) }.in_flight = 0 := by decide
    rw [Reliable_Data.room, hflight]
    exact decide_eq_true (Nat.cast_lt.mpr (by decide : 0 < 20000))
  have hsend : step c up (.Reliable_Send_Msg [7] 0) = .ok r := by
    have hmuch : Send_Much c { up with seq_no := int32u (up.seq_no + 1) } =
        .ok { up with seq_no := int32u (up.seq_no + 1) } := by
      simp [Send_Much, up, Create_Link]
    rw [step, Reliable_Send_Msg]
    rw [if_pos rfl, hmuch]
    simp only [bind, Except.bind]
    rw [send_or_wait, hroom, if_neg (by decide), if_neg (by decide)]
    rfl
  have h3 : Both c false w2 true w3 := ⟨_, .own (e := .Reliable_Send_Msg [7] 0)
    (fun _ h => by cases h) hsend, rfl⟩
  have h4 : Both c false w3 true w4 := ⟨_, .transmit rfl (k := 0) rfl _ 0, rfl⟩
  have h5 : Both c false w4 false w5 := ⟨_, .receive rfl (.head _) rfl, rfl⟩
  have hrun : Run (Both c false) start w5 :=
    (((((Run.refl _).tail h1).tail h2).tail h3).tail h4).tail h5
  obtain ⟨-, hgenuine, -⟩ := exactly_once (fun htcp => by cases htcp) hrun true (by decide)
  exact ⟨w5, rfl, rfl, hgenuine 0 [7] (.head _)⟩

end Runs

end Spines.ReliableLink
