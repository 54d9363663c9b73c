/-
`Incarnation_Change` with `Reintroduce_Messages == 0`, and the congestion
control of a link (`daemon/intrusion_tol_udp.c`, `Create_Link` of
`daemon/link.c`, `Int_Tol_Data` of `daemon/link.h`).

The reset is written field by field: it clears the ring cells of the current
window only, and it gives the working message up only if its counters have
moved. One field is forgotten. `loss_detected` is set by a request for a
retransmission and cleared by an acknowledgement beyond it; no incarnation
change clears it, so the first acknowledgement of the new incarnation halves a
congestion window that has not lost anything.

`cwnd` is a `float`. No property of its arithmetic is used: the operations the
source applies to it are a parameter.
-/
import Spines.IntruTol.Pending
import Mathlib.Data.Rat.Floor

set_option autoImplicit false

namespace Spines.IntruTol

open Spines.Lib Option

/-! ## 1. Congestion control -/

structure CwndOps (F : Type*) where
  of_int : ℕ → F
  /-- `cwnd <= ssthresh`. -/
  le_ssthresh : F → ℕ → Bool
  /-- `cwnd++`. -/
  increment : F → F
  /-- `cwnd += (float)(1.0/cwnd)`. -/
  add_inverse : F → F
  /-- `(int16u)(cwnd / 2.0)`. -/
  half_ssthresh : F → ℕ
  /-- `(cwnd / 2.0) + 3.0`. -/
  half_plus_three : F → F
  /-- `cwnd > MAX_SEND_ON_LINK`. -/
  above_max : F → Bool
  /-- `(int64u) cwnd`. -/
  to_int64u : F → ℕ

/-- `Conf_IT_Link.TCP_Fairness` and `Minimum_Window`. -/
structure TcpConf where
  tcp_fairness : Bool
  minimum_window : ℕ

/-- The "TCP Fairness variables" of `Int_Tol_Data`, `tcp_head_seq` apart. -/
structure Congestion (F : Type*) where
  cwnd : F
  ssthresh : ℕ
  loss_detected : Bool
  loss_detected_aru : ℕ

section Congestion

variable {F : Type*} (ops : CwndOps F) (tc : TcpConf)

def initial_cwnd : F :=
  if tc.tcp_fairness = true then ops.of_int tc.minimum_window else ops.of_int MAX_SEND_ON_LINK

/-- As `Create_Link` sets it up. -/
def Congestion.create : Congestion F where
  cwnd := initial_cwnd ops tc
  ssthresh := MAX_SEND_ON_LINK
  loss_detected := false
  loss_detected_aru := 0

/-- "first check if we have resolved a loss" (`Process_IT_Ack`). -/
def Congestion.resolve_loss (aru : ℕ) (cg : Congestion F) : Congestion F :=
  if tc.tcp_fairness = true ∧ cg.loss_detected = true ∧ cg.loss_detected_aru < aru then
    let ssthresh := ops.half_ssthresh cg.cwnd
    { cg with
      loss_detected := false
      ssthresh := if ssthresh < 2 then 2 else ssthresh
      -- `ssthresh + 3.0` in the first case
      cwnd := if ssthresh < 2 then ops.of_int 5 else ops.half_plus_three cg.cwnd }
  else cg

def Congestion.grow (cg : Congestion F) : Congestion F :=
  if tc.tcp_fairness = true then
    { cg with
      cwnd := if ops.le_ssthresh cg.cwnd cg.ssthresh then ops.increment cg.cwnd
        else ops.add_inverse cg.cwnd }
  else cg

/-- The loop over the `cnt` packets acknowledged, and the bound after it. -/
def Congestion.acknowledge (aru cnt : ℕ) (cg : Congestion F) : Congestion F :=
  let grown := (Congestion.grow ops tc)^[cnt] (cg.resolve_loss ops tc aru)
  if tc.tcp_fairness = true ∧ ops.above_max grown.cwnd = true then
    { grown with cwnd := ops.of_int MAX_SEND_ON_LINK }
  else grown

def Congestion.note_loss (aru : ℕ) (cg : Congestion F) : Congestion F :=
  if tc.tcp_fairness = true ∧ cg.loss_detected = false then
    { cg with loss_detected := true, loss_detected_aru := aru }
  else cg

def Congestion.change (cg : Congestion F) : Congestion F :=
  { cg with cwnd := initial_cwnd ops tc, ssthresh := MAX_SEND_ON_LINK }

/-- Part (2) of `Process_IT_Ack`. -/
def Congestion.nack_requests (p : ItPacket) (cg : Congestion F) : Congestion F :=
  if SIZEOF_PKT_TAIL < p.ack_len then
    if SIZEOF_PACKET_BODY < p.ack_len - SIZEOF_PKT_TAIL then cg else cg.note_loss tc p.tail.aru
  else cg

/-- `Process_IT_Ack` at the end `e`. -/
def Congestion.process_it_ack (p : ItPacket) (e : LinkEnd) (cg : Congestion F) : Congestion F :=
  if p.ack_len < SIZEOF_PKT_TAIL ∨ (p.ack_len - SIZEOF_PKT_TAIL) % 8 ≠ 0 then cg
  else if e.outb.out_tail_seq ≤ p.tail.aru ∧ p.tail.aru < e.outb.tcp_head_seq then
    if p.tail.aru_nonce ≠ e.outb.out_nonce_digest (p.tail.aru % MAX_SEND_ON_LINK) then cg
    else
      (cg.acknowledge ops tc p.tail.aru (p.tail.aru + 1 - e.outb.out_tail_seq)).nack_requests tc p
  else cg.nack_requests tc p

end Congestion

/-- The event makes the handler call `Incarnation_Change`, and the link is there. -/
def changes_incarnation (env : Env) (e : LinkEnd) : Event → Bool
  | .ping fresh _ p =>
    fresh && decide (e.ngbr_incarnation < p.incarnation)
      && !decide (env.now < e.incarnation_response) && env.link_up
  | .dh verified p =>
    !decide (env.now < e.incarnation_response) && decide (e.ngbr_incarnation < p.incarnation)
      && !decide (e.my_incarnation < p.aru_incarnation) && verified && env.link_up
  | _ => false

def Congestion.handle {F : Type*} (ops : CwndOps F) (tc : TcpConf) (env : Env) (e : LinkEnd)
    (ev : Event) (cg : Congestion F) : Congestion F :=
  match ev with
  | .data_packet p =>
    if p.tail.incarnation ≠ e.ngbr_incarnation ∨ p.tail.aru_incarnation ≠ e.my_incarnation then cg
    else cg.process_it_ack ops tc p e
  | .ack_packet p =>
    if p.front.incarnation ≠ e.ngbr_incarnation ∨ p.front.aru_incarnation ≠ e.my_incarnation then
      cg
    else cg.process_it_ack ops tc p e
  | .restart _ => Congestion.create ops tc
  | ev => if changes_incarnation env e ev = true then cg.change ops tc else cg

structure PacedEnd (F : Type*) where
  link : LinkEnd
  cg : Congestion F

def PacedEnd.create {F : Type*} (cf : Conf) (ops : CwndOps F) (tc : TcpConf) (sec : ℕ) :
    PacedEnd F where
  link := LinkEnd.create cf sec
  cg := Congestion.create ops tc

def PacedEnd.handle {F : Type*} (cf : Conf) (ops : CwndOps F) (tc : TcpConf) (env : Env)
    (s : PacedEnd F) (ev : Event) : PacedEnd F :=
  let cg := s.cg.handle ops tc env s.link ev
  ⟨IntruTol.handle cf { env with cwnd := ops.to_int64u cg.cwnd } s.link ev, cg⟩

def PacedStep {F : Type*} (cf : Conf) (ops : CwndOps F) (tc : TcpConf) (s : PacedEnd F)
    (ev : Event) (s' : PacedEnd F) : Prop :=
  (s.link.exited = false ∨ ∃ sec, ev = .restart sec) ∧ ∃ env, s' = s.handle cf ops tc env ev

theorem paced_run {F : Type*} {cf : Conf} {ops : CwndOps F} {tc : TcpConf} {s s' : PacedEnd F}
    (h : Run (PacedStep cf ops tc) s s') : Run (Step cf) s.link s'.link := by
  induction h with
  | refl => exact Run.refl _
  | tail _ hlast ih =>
    obtain ⟨ev, hlive, env, rfl⟩ := hlast
    exact ih.tail ⟨hlive, _, rfl⟩

/-! ## 2. The working message

`Incarnation_Change` replaces `in_message` if `in_frag_idx != 1` or
`in_frag_total > 0`. What it does not replace is as `Create_Link` left it. -/

def Untouched (w : WorkingMsg) : Prop := w.idx = 1 → w.total = 0 → w = WorkingMsg.fresh

theorem untouched_fresh : Untouched WorkingMsg.fresh := fun _ _ => rfl

variable {e : LinkEnd} (cf : Conf) (env : Env) (buff : Bytes) (fuel cnt inc : ℕ)

theorem scan_step_total (s : Scan) :
    (∃ code, scan_step buff s = .error (code, s.total)) ∨
    ∃ t, t ≠ 0 ∧ ((∃ code, scan_step buff s = .error (code, t)) ∨
      ∃ s', scan_step buff s = .ok s' ∧ s'.total = t) := by
  unfold scan_step
  by_cases hshort : buff.length - s.processed < SIZEOF_FRAGMENT_HEADER
  · rw [if_pos hshort]
    exact Or.inl ⟨-5, rfl⟩
  rw [if_neg hshort]
  dsimp only
  obtain ⟨fh, hfh⟩ : ∃ fh, fh = read_fragment_header buff
      (buff.length - s.processed - SIZEOF_FRAGMENT_HEADER) := ⟨_, rfl⟩
  rw [← hfh]
  by_cases hrange : fh.frag_total = 0 ∨ MAX_SCATTER_ELEMENTS - 1 < fh.frag_total
  · rw [if_pos hrange]
    exact Or.inl ⟨-1, rfl⟩
  rw [if_neg hrange]
  obtain ⟨t, ht⟩ : ∃ t, t = (if s.total = 0 then fh.frag_total else s.total) := ⟨_, rfl⟩
  rw [← ht]
  refine Or.inr ⟨t, ?_, ?_⟩
  · rw [ht]
    split
    · exact fun h => hrange (Or.inl h)
    · assumption
  by_cases htotal : t ≠ fh.frag_total
  · rw [if_pos htotal]
    exact Or.inl ⟨-2, rfl⟩
  rw [if_neg htotal]
  by_cases hidx : fh.frag_idx = 0 ∨ t < fh.frag_idx
  · rw [if_pos hidx]
    exact Or.inl ⟨-3, rfl⟩
  rw [if_neg hidx]
  by_cases harray : fh.frag_idx ≠ (if s.array_idx = 0 then fh.frag_idx else s.array_idx)
  · rw [if_pos harray]
    exact Or.inl ⟨-4, rfl⟩
  rw [if_neg harray]
  by_cases hlen : buff.length < s.processed + (SIZEOF_FRAGMENT_HEADER + fh.frag_length)
  · rw [if_pos hlen]
    exact Or.inl ⟨-5, rfl⟩
  · rw [if_neg hlen]
    exact Or.inr ⟨_, rfl, rfl⟩

theorem scan_loop_total : ∀ {s : Scan},
    (∀ {code : ℤ}, scan_loop buff fuel s = .error (code, 0) → s.total = 0) ∧
    ∀ {s' : Scan}, scan_loop buff fuel s = .ok s' → s'.total = 0 → s' = s := by
  induction fuel with
  | zero =>
    intro s
    exact ⟨fun h => (by cases h), fun h _ => (Except.ok.inj h).symm⟩
  | succ fuel ih =>
    intro s
    rw [scan_loop]
    by_cases hmore : s.processed < buff.length
    · rw [if_pos hmore]
      rcases scan_step_total buff s with ⟨code, heq⟩ | ⟨t, ht, ⟨code, heq⟩ | ⟨s1, heq, h1⟩⟩
      · rw [heq]
        exact ⟨fun h => congrArg Prod.snd (Except.error.inj h), fun h => (by cases h)⟩
      · rw [heq]
        exact ⟨fun h => absurd (congrArg Prod.snd (Except.error.inj h)) ht, fun h => (by cases h)⟩
      · rw [heq]
        refine ⟨fun h => absurd (h1.symm.trans (ih.1 h)) ht, fun h h0 => ?_⟩
        rw [ih.2 h h0, h1] at h0
        exact absurd h0 ht
    · rw [if_neg hmore]
      exact ⟨fun h => (by cases h), fun h _ => (Except.ok.inj h).symm⟩

theorem append_loop_total (addr : ℕ → ℕ × FragmentHeader) (cnt : ℕ) :
    ∀ (i : ℕ) (w : WorkingMsg), (append_loop buff addr i cnt w).2.total = w.total := by
  induction cnt with
  | zero => exact fun _ _ => rfl
  | succ cnt ih =>
    intro i w
    rw [append_loop]
    split
    · rfl
    · exact ih (i + 1) _

theorem Untouched.build {w : WorkingMsg} (h : Untouched w) {buff : Bytes}
    (hcode : (build_message_from_fragments_it w buff).1 ≠ 1) :
    Untouched (build_message_from_fragments_it w buff).2 := by
  obtain ⟨herror, hok⟩ := scan_loop_total buff buff.length
    (s := ⟨0, w.total, 0, 0, fun _ => (0, ⟨0, 0, 0⟩)⟩)
  unfold build_message_from_fragments_it at hcode ⊢
  cases hscan : scan_loop buff buff.length ⟨0, w.total, 0, 0, fun _ => (0, ⟨0, 0, 0⟩)⟩ with
  | error r =>
    obtain ⟨code, total⟩ := r
    intro hidx htotal
    dsimp only at hidx htotal
    subst htotal
    have hold : w.total = 0 := herror hscan
    rw [h hidx hold]
    rfl
  | ok s =>
    rw [hscan] at hcode
    dsimp only at hcode ⊢
    have hkept := append_loop_total buff s.frag_addr (s.max_array_idx - s.array_idx)
      (s.array_idx + 1) { w with started := true, total := s.total }
    -- no trailer has been read where the total is `0`, so there is nothing to
    -- append and the packet counts as the end of a message
    have hnone : s.total = 0 → append_loop buff s.frag_addr (s.array_idx + 1)
        (s.max_array_idx - s.array_idx) { w with started := true, total := s.total }
        = (true, { w with started := true, total := s.total }) := by
      intro hzero
      rw [hok hscan hzero]
      rfl
    cases happ : append_loop buff s.frag_addr (s.array_idx + 1) (s.max_array_idx - s.array_idx)
        { w with started := true, total := s.total } with
    | mk done w' =>
      rw [happ] at hcode hkept hnone
      dsimp only at hkept
      cases done with
      | false =>
        intro _ htotal
        exact absurd (Prod.mk.inj (hnone (hkept.symm.trans htotal))).1 Bool.false_ne_true
      | true =>
        intro hidx htotal
        dsimp only at hidx htotal hcode
        refine absurd (if_pos ?_) hcode
        rw [hidx, htotal]

/-! Only the receiving half of `Process_IT_Ack` touches the working message. -/

theorem send_it_data_msg_in_message (seq : ℕ) (e : LinkEnd) :
    (send_it_data_msg cf env seq e).2.inb.in_message = e.inb.in_message := by
  unfold send_it_data_msg
  split
  · rfl
  · dsimp only
    split
    · rfl
    · split <;> rfl

theorem send_new_in_message (stop : Bool) (cnt : ℕ) :
    ∀ e : LinkEnd, (send_new cf env stop cnt e).inb.in_message = e.inb.in_message := by
  induction cnt with
  | zero => exact fun _ => rfl
  | succ cnt ih =>
    intro e
    rw [send_new]
    split
    · rw [send_it_data_msg_in_message]
    · rw [ih, send_it_data_msg_in_message]

theorem pack_loop_in_message (e : LinkEnd) :
    (pack_loop cf env fuel e).inb.in_message = e.inb.in_message :=
  pack_loop_keeps (P := fun e' => e'.inb.in_message = e.inb.in_message) (fun h _ _ => h) fuel rfl

theorem pack_or_drop_in_message (e : LinkEnd) :
    (pack_or_drop cf env e).inb.in_message = e.inb.in_message := by
  rcases pack_or_drop_cases cf env e with ⟨-, heq⟩ | ⟨-, heq⟩
  · rw [heq]
  · rw [heq]
    exact pack_loop_in_message cf env MAX_SEND_ON_LINK e

theorem forward_in_message (m : SysScatter) (e : LinkEnd) :
    (forward_intru_tol_data cf env m e).2.inb.in_message = e.inb.in_message := by
  rcases forward_cases cf env m e with ⟨-, h⟩ | ⟨-, h⟩
  · rw [h]
  · rw [h]
    exact (send_new_in_message cf env true _ _).trans (pack_loop_in_message cf env _ _)

theorem forward_all_in_message (ms : List SysScatter) :
    ∀ e : LinkEnd, (forward_all cf env ms e).inb.in_message = e.inb.in_message := by
  induction ms with
  | nil => exact fun _ => rfl
  | cons m ms ih =>
    intro e
    rw [forward_all, ih, forward_in_message]

theorem assign_in_message (rounds : List (List SysScatter)) :
    ∀ e : LinkEnd, (assign_resources_it cf env rounds e).inb.in_message = e.inb.in_message := by
  induction rounds with
  | nil => exact fun _ => rfl
  | cons ms rounds ih =>
    intro e
    rw [assign_resources_it]
    split
    · rfl
    · rw [ih, forward_all_in_message]

theorem retransm_loop_in_message : ∀ (i budget : ℕ) (e : LinkEnd),
    (retransm_loop cf env cnt i budget e).inb.in_message = e.inb.in_message := by
  induction cnt with
  | zero =>
    intro i budget e
    rw [retransm_loop]
  | succ cnt ih =>
    intro i budget e
    cases budget with
    | zero =>
      rw [retransm_loop]
      omega
    | succ budget =>
      rw [retransm_loop]
      split
      · rw [ih, send_it_data_msg_in_message]
      · exact ih (i + 1) (budget + 1) e

theorem reliable_it_timeout_in_message (e : LinkEnd) :
    (reliable_it_timeout cf env e).inb.in_message = e.inb.in_message := by
  unfold reliable_it_timeout
  split
  · rw [send_it_data_msg_in_message]
  · rfl

theorem ack_it_timeout_in_message (e : LinkEnd) :
    (ack_it_timeout cf env e).inb.in_message = e.inb.in_message := by
  unfold ack_it_timeout send_it_ack it_link_send
  split
  · rfl
  · dsimp only
    split <;> rfl

theorem mark_all_in_message (nacks : List ℕ) :
    ∀ e : LinkEnd, (nacks.foldl mark_nacked e).inb.in_message = e.inb.in_message := by
  induction nacks with
  | nil => exact fun _ => rfl
  | cons n nacks ih =>
    intro e
    rw [List.foldl_cons, ih, mark_nacked]
    split <;> rfl

theorem check_advertised_aru_in_message {cf : Conf} {env : Env} {p : ItPacket} {e1 : LinkEnd}
    (h1 : check_advertised_aru cf env p e = some e1) : e1.inb.in_message = e.inb.in_message := by
  unfold check_advertised_aru at h1
  split at h1
  · split at h1
    · exact absurd h1 (some_ne_none e1).symm
    · obtain rfl := some.inj h1
      rw [assign_in_message, pack_or_drop_in_message, send_new_in_message]
      rfl
  · obtain rfl := some.inj h1
    rfl

theorem check_nack_requests_in_message {cf : Conf} {env : Env} {p : ItPacket} {e1 : LinkEnd}
    (h1 : check_nack_requests cf env p e = some e1) : e1.inb.in_message = e.inb.in_message := by
  unfold check_nack_requests at h1
  split at h1
  · split at h1
    · exact absurd h1 (some_ne_none e1).symm
    · obtain rfl := some.inj h1
      have hmark := mark_all_in_message (p.nacks.take ((p.ack_len - SIZEOF_PKT_TAIL) / 8)) e
      split
      · exact hmark
      · exact (retransm_loop_in_message cf env _ _ _ _).trans hmark
  · obtain rfl := some.inj h1
    rfl

theorem Untouched.rebuild {cf : Conf} {env : Env} {seq : ℕ} {buff : Bytes}
    (h : Untouched e.inb.in_message) : Untouched (rebuild cf env seq buff e).inb.in_message := by
  unfold IntruTol.rebuild
  dsimp only
  split
  · exact untouched_fresh
  · rename_i hcode
    exact h.build hcode

theorem Untouched.drain_loop {cf : Conf} {env : Env} : ∀ {e : LinkEnd},
    Untouched e.inb.in_message → Untouched (drain_loop cf env fuel e).inb.in_message := by
  induction fuel with
  | zero => exact fun h => h
  | succ fuel ih =>
    intro e h
    rw [IntruTol.drain_loop]
    split
    · apply ih
      unfold drain_one free_cell
      dsimp only
      split
      · exact Untouched.rebuild (e := consume e) h
      · exact h
    · exact h

theorem Untouched.check_link_seq {cf : Conf} {env : Env} (p : ItPacket)
    (h : Untouched e.inb.in_message) : Untouched (check_link_seq cf env p e).2.inb.in_message := by
  unfold IntruTol.check_link_seq
  split
  · exact h
  split
  · exact h
  split
  · exact h
  split
  · exact h
  apply Untouched.drain_loop
  unfold deliver_unordered
  split
  · dsimp only
    split
    · exact h
    split
    · exact h
    · rw [forward_all_in_message]
      exact h
  · exact h

theorem Untouched.process_it_ack {cf : Conf} {env : Env} (p : ItPacket)
    (h : Untouched e.inb.in_message) : Untouched (process_it_ack cf env p e).2.inb.in_message := by
  unfold IntruTol.process_it_ack
  split
  · exact h
  cases h1 : check_advertised_aru cf env p e with
  | none => exact h
  | some e1 =>
    rw [← check_advertised_aru_in_message h1] at h
    dsimp only
    cases h2 : check_nack_requests cf env p e1 with
    | none => exact h
    | some e2 =>
      rw [← check_nack_requests_in_message h2] at h
      exact h.check_link_seq p

theorem reset_in_message (h : Untouched e.inb.in_message) :
    (reset_inbound cf env inc e).inb.in_message = WorkingMsg.fresh := by
  unfold reset_inbound
  split
  · rfl
  · rename_i hcounters
    exact h (by omega) (by omega)

theorem renewed_in_message (h : Untouched e.inb.in_message) :
    (renewed cf env inc e).inb.in_message = WorkingMsg.fresh := by
  unfold renewed
  split
  · rw [reintroduce_eq, pack_or_drop_in_message]
    exact reset_in_message cf env inc h
  · exact reset_in_message cf env inc h

theorem Untouched.incarnation_change {cf : Conf} {env : Env} (h : Untouched e.inb.in_message) :
    Untouched (incarnation_change cf env inc e).inb.in_message := by
  unfold IntruTol.incarnation_change
  split
  · exact h
  · dsimp only
    rw [assign_in_message, show (if cf.reintroduce_messages = true then
        reintroduce cf env (reset_inbound cf env inc e)
      else drop_outbound (reset_inbound cf env inc e)) = renewed cf env inc e from rfl,
      renewed_in_message cf env inc h]
    exact untouched_fresh

theorem Untouched.handle {cf : Conf} {env : Env} (ev : Event) (h : Untouched e.inb.in_message) :
    Untouched (handle cf env e ev).inb.in_message := by
  cases ev with
  | forward m =>
    simp only [IntruTol.handle, forward_in_message]
    exact h
  | assign =>
    simp only [IntruTol.handle, assign_in_message]
    exact h
  | handle_it_retransm =>
    simp only [IntruTol.handle, IntruTol.handle_it_retransm, retransm_loop_in_message]
    exact h
  | reliable_it_timeout =>
    simp only [IntruTol.handle, reliable_it_timeout_in_message]
    exact h
  | ack_it_timeout =>
    simp only [IntruTol.handle, ack_it_timeout_in_message]
    exact h
  | data_packet p =>
    simp only [IntruTol.handle, process_intru_tol_data_packet]
    split
    · exact h
    split
    · exact h
    · exact h.process_it_ack p
  | ack_packet p =>
    simp only [IntruTol.handle, process_intru_tol_ack_packet]
    split
    · exact h
    split
    · exact h
    · exact h.process_it_ack p
  | ping fresh is_ping p =>
    simp only [IntruTol.handle, process_intru_tol_ping]
    split
    · exact h
    split
    · exact h
    split
    · exact h
    obtain ⟨e1, he1⟩ : ∃ e1, e1 = (if e.ngbr_incarnation < p.incarnation then
        IntruTol.incarnation_change cf env p.incarnation e else e) := ⟨_, rfl⟩
    have hchanged : Untouched e1.inb.in_message := by
      rw [he1]
      split
      · exact h.incarnation_change p.incarnation
      · exact h
    rw [← he1]
    split
    · exact hchanged
    split
    · exact hchanged
    · exact hchanged
  | dh verified p =>
    simp only [IntruTol.handle, process_dh_it]
    split
    · exact h
    split
    · exact h
    split
    · exact h
    split
    · exact h
    · exact Untouched.incarnation_change (e := send_it_ping e) p.incarnation h
  | ping_it_timeout => exact h
  | restart sec => exact untouched_fresh

theorem untouched_run {cf : Conf} {sec : ℕ} (hrun : Run (Step cf) (LinkEnd.create cf sec) e) :
    Untouched e.inb.in_message := by
  apply hrun.invariant (fun e => Untouched e.inb.in_message) untouched_fresh
  rintro t ev t' ht ⟨-, env, rfl⟩
  exact ht.handle ev

/-! ## 3. The state after the reset -/

/-- What is read of an incoming cell: the expiry time of a `NACK` only. -/
def ItRecvCell.read (c : ItRecvCell) : CellFlag × Option Bytes × Option ℕ :=
  (c.flags, c.pkt, if c.flags = .nack then some c.nack_expire else none)

/-- The sequencing, window, digest base, reassembly and congestion-control state
is the one `Create_Link` sets up. -/
structure AsCreated {F : Type*} (cf : Conf) (ops : CwndOps F) (tc : TcpConf) (l : LinkEnd)
    (cg : Congestion F) : Prop where
  out_head_seq : l.outb.out_head_seq = Outbound.create.out_head_seq
  out_tail_seq : l.outb.out_tail_seq = Outbound.create.out_tail_seq
  tcp_head_seq : l.outb.tcp_head_seq = Outbound.create.tcp_head_seq
  out_message : l.outb.out_message = Outbound.create.out_message
  out_frag_idx : l.outb.out_frag_idx = Outbound.create.out_frag_idx
  out_frag_total : l.outb.out_frag_total = Outbound.create.out_frag_total
  base : l.outb.out_nonce_digest ((LINK_START_SEQ - 1) % MAX_SEND_ON_LINK)
    = Outbound.create.out_nonce_digest ((LINK_START_SEQ - 1) % MAX_SEND_ON_LINK)
  in_head_seq : l.inb.in_head_seq = (Inbound.create cf).in_head_seq
  in_tail_seq : l.inb.in_tail_seq = (Inbound.create cf).in_tail_seq
  aru_nonce_digest : l.inb.aru_nonce_digest = (Inbound.create cf).aru_nonce_digest
  in_message : l.inb.in_message = (Inbound.create cf).in_message
  /-- All the incoming cells, not only those of a window. -/
  incoming : ∀ k < MAX_SEND_ON_LINK,
    (l.inb.incoming k).read = ((Inbound.create cf).incoming k).read
  cwnd : cg.cwnd = (Congestion.create ops tc).cwnd
  ssthresh : cg.ssthresh = (Congestion.create ops tc).ssthresh
  loss_detected : cg.loss_detected = (Congestion.create ops tc).loss_detected

theorem renewed_asCreated {F : Type*} {cf : Conf} (ops : CwndOps F) (tc : TcpConf)
    (hre : cf.reintroduce_messages = false) (env : Env) (inc : ℕ) (hset : Settled e)
    (hmsg : Untouched e.inb.in_message) {cg : Congestion F} (hloss : cg.loss_detected = false) :
    AsCreated cf ops tc (renewed cf env inc e) (cg.change ops tc) := by
  have hrenewed : renewed cf env inc e = drop_outbound (reset_inbound cf env inc e) :=
    if_neg (by rw [hre]; exact Bool.false_ne_true)
  have hfresh := renewed_in_message cf env inc hmsg
  rw [hrenewed] at hfresh ⊢
  constructor
  case out_head_seq => rfl
  case out_tail_seq => rfl
  case tcp_head_seq => rfl
  case out_message => rfl
  case out_frag_idx => rfl
  case out_frag_total => rfl
  case base => exact reset_base cf env inc e
  case in_head_seq => rfl
  case in_tail_seq => rfl
  case aru_nonce_digest => rfl
  case in_message => exact hfresh
  case incoming =>
    intro k hk
    -- the cells outside the window are empty in every reachable state
    obtain ⟨hflags, hpkt⟩ := reset_cells e hset.1.2 hset.2.1 k hk
    show ItRecvCell.read (empty_loop _ _ _ k) = (CellFlag.empty, none, none)
    rw [ItRecvCell.read, hflags, hpkt]
    rfl
  case cwnd => rfl
  case ssthresh => rfl
  case loss_detected => exact hloss

/-- **A new incarnation with `Reintroduce_Messages == 0`.** In every reachable
state of a link `Incarnation_Change` resets the link and then asks for new
messages. The state in between is that of a new link if and only if no loss was
noted. -/
theorem incarnation_starts_fresh {F : Type*} {cf : Conf} {ops : CwndOps F} {tc : TcpConf}
    {sec : ℕ} {s : PacedEnd F} (hre : cf.reintroduce_messages = false)
    (hrun : Run (PacedStep cf ops tc) (PacedEnd.create cf ops tc sec) s) (env : Env)
    (hup : env.link_up = true) (inc : ℕ) : incarnation_change cf env inc s.link
        = assign_resources_it cf env env.assigned (renewed cf env inc s.link) ∧
      (AsCreated cf ops tc (renewed cf env inc s.link) (s.cg.change ops tc) ↔
        s.cg.loss_detected = false) := by
  constructor
  · apply if_neg
    rw [hup]
    exact Bool.true_eq_false_eq_False
  · constructor
    · exact fun h => h.loss_detected
    · exact renewed_asCreated ops tc hre env inc (settled_run (paced_run hrun))
        (untouched_run (paced_run hrun))

/-- The arithmetic of `cwnd` without rounding. -/
def exact_ops : CwndOps ℚ where
  of_int n := n
  le_ssthresh c n := decide (c ≤ n)
  increment c := c + 1
  add_inverse c := c + 1 / c
  half_ssthresh c := ⌊c / 2⌋.toNat % 65536
  half_plus_three c := c / 2 + 3
  above_max c := decide ((MAX_SEND_ON_LINK : ℚ) < c)
  to_int64u c := ⌊c⌋.toNat

/-- `TCP_Fairness` with a window of ten packets to start with. -/
def fair_tc : TcpConf := ⟨true, 10⟩

def two_sent : PacedEnd ℚ :=
  ((PacedEnd.create plain_conf exact_ops fair_tc 7).handle plain_conf exact_ops fair_tc plain_env
    (.forward (plain_msg [[1, 2, 3]]))).handle plain_conf exact_ops fair_tc plain_env
    (.forward (plain_msg [[4, 5, 6]]))

def nack_first : ItPacket :=
  ⟨[], ⟨0, 0, 0, 0, 0, 7⟩, ⟨0, 0, 0, 0, 0, 7⟩, SIZEOF_PKT_TAIL + 8, [1]⟩

def two_sent_nacked : PacedEnd ℚ :=
  two_sent.handle plain_conf exact_ops fair_tc plain_env (.ack_packet nack_first)

theorem two_sent_run : Run (PacedStep plain_conf exact_ops fair_tc)
    (PacedEnd.create plain_conf exact_ops fair_tc 7) two_sent := by
  refine ((Run.refl _).tail ⟨Or.inl rfl, plain_env, rfl⟩).tail ⟨Or.inl ?_, plain_env, rfl⟩
  decide +kernel

theorem incarnation_starts_fresh_sent :
    two_sent.link.outb.out_head_seq = 3 ∧
      AsCreated plain_conf exact_ops fair_tc (renewed plain_conf plain_env 9 two_sent.link)
        (two_sent.cg.change exact_ops fair_tc) := by
  refine ⟨by decide +kernel, ?_⟩
  apply (incarnation_starts_fresh rfl two_sent_run plain_env rfl 9).2.mpr
  rfl

/-- **A loss outlives the incarnation.** With the first packet asked for again
the new incarnation starts with `loss_detected` set; its first acknowledgement
takes the window from ten packets below ten, that of a new link above. -/
theorem loss_outlives_incarnation :
    Run (PacedStep plain_conf exact_ops fair_tc) (PacedEnd.create plain_conf exact_ops fair_tc 7)
        two_sent_nacked ∧ ¬ AsCreated plain_conf exact_ops fair_tc
        (renewed plain_conf plain_env 9 two_sent_nacked.link)
        (two_sent_nacked.cg.change exact_ops fair_tc) ∧
      ((two_sent_nacked.cg.change exact_ops fair_tc).acknowledge exact_ops fair_tc 1 1).cwnd < 10 ∧
      10 < ((Congestion.create exact_ops fair_tc).acknowledge exact_ops fair_tc 1 1).cwnd := by
  refine ⟨two_sent_run.tail ⟨Or.inl (by decide +kernel), plain_env, rfl⟩, ?_, by decide +kernel,
    by decide +kernel⟩
  intro h
  exact absurd h.loss_detected (by decide +kernel)

end Spines.IntruTol
