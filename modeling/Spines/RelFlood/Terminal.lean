/-
The flows that end at this daemon.

A daemon stores nothing of the flows it is the destination of. No message is taken
twice as long as epoch and `head_seq` never go back (`Passed`).

Only a handshake request of the source takes `head_seq` back, and then to the
start of a later epoch, provided the end-to-end ack that carries the request is
stored: it is stored exactly if `Reliable_Flood_Process_E2E` does not drop it
with the message `Invalid aru value for handshake`. `e2e_forgets` names the acks
after which the daemon may take messages again that it had before.
-/
import Spines.RelFlood.Acks
import Spines.RelFlood.Keeps

set_option autoImplicit false

namespace Spines.RelFlood

open Spines.Lib Function

/-! ## 1. Buffers that take nothing -/

structure Calm (fb fb' : FlowBuffer) : Prop where
  epoch : fb'.src_epoch = fb.src_epoch
  head : fb'.head_seq = fb.head_seq
  empty : (∀ i, fb.msg i = none) → ∀ i, fb'.msg i = none

section Calm

variable {fb fb' fb'' : FlowBuffer}

theorem Calm.of_eq (he : fb'.src_epoch = fb.src_epoch) (hh : fb'.head_seq = fb.head_seq)
    (hm : fb'.msg = fb.msg) : Calm fb fb' :=
  ⟨he, hh, fun h i => by rw [hm]; exact h i⟩

theorem Calm.refl (fb : FlowBuffer) : Calm fb fb := Calm.of_eq rfl rfl rfl

theorem Calm.trans (h : Calm fb fb') (h' : Calm fb' fb'') : Calm fb fb'' :=
  ⟨h'.epoch.trans h.epoch, h'.head.trans h.head, fun he => h'.empty (h.empty he)⟩

theorem advance_loop_calm (cf : Conf) (guarded : Bool) (cnt : ℕ) (fb : FlowBuffer) :
    Calm fb (advance_loop cf guarded cnt fb) := by
  induction cnt generalizing fb with
  | zero => exact Calm.refl fb
  | succ cnt ih =>
    rw [advance_loop]
    refine Calm.trans ?_ (ih _)
    split
    · exact Calm.of_eq rfl rfl rfl
    · refine ⟨rfl, rfl, fun h i => ?_⟩
      simp only [FlowBuffer.clear_slot]
      by_cases hi : i = slot fb.sow
      · rw [hi, update_self]
      · rw [update_of_ne hi]
        exact h i

theorem hbh_move_up_calm (cf : Conf) (conv : ℕ → ℕ) (guarded : Bool) (aru : ℕ → ℕ)
    (fb : FlowBuffer) : Calm fb (fb.hbh_move_up cf conv guarded aru) :=
  (advance_loop_calm cf guarded _ fb).trans (Calm.of_eq rfl rfl rfl)

theorem ack_loop_calm (k aru fuel : ℕ) (fb : FlowBuffer) : Calm fb (ack_loop k aru fuel fb) := by
  induction fuel generalizing fb with
  | zero => exact Calm.refl fb
  | succ fuel ih =>
    rw [ack_loop]
    split
    · refine Calm.trans ?_ (ih _)
      exact Calm.of_eq rfl rfl rfl
    · exact Calm.refl fb

theorem restamp_loop_calm (cf : Conf) (env : StampEnv) (cnt j : ℕ) (fb : FlowBuffer)
    (flag : Bool) : Calm fb (restamp_loop cf env cnt j fb flag).1 := by
  induction cnt generalizing j fb flag with
  | zero => exact Calm.refl fb
  | succ cnt ih =>
    rw [restamp_loop]
    split
    · rename_i stamp m hstamp hm
      -- a message that is restamped was there before
      have hstored : ∀ fb' : FlowBuffer, fb'.src_epoch = fb.src_epoch →
          fb'.head_seq = fb.head_seq → Calm fb fb' :=
        fun fb' he hh => ⟨he, hh, fun h => by rw [h] at hm; exact absurd hm (by simp)⟩
      dsimp only
      split
      · exact ih _ fb flag
      · split
        · exact hstored _ rfl rfl
        · refine Calm.trans ?_ (ih _ _ _)
          exact hstored _ rfl rfl
    · exact Calm.refl fb

end Calm

/-! ## 2. Handlers that take nothing -/

def Rests (D D' : Daemon) : Prop := ∀ s d, Calm (D.fb s d) (D'.fb s d)

section Rests

variable {D D' D'' : Daemon}

theorem Rests.of_eq (h : D'.fb = D.fb) : Rests D D' := fun s d => by
  rw [h]
  exact Calm.refl _

end Rests

section Handlers

variable (cf : Conf)

theorem calm_keeps : Keeps cf Calm where
  refl := Calm.refl
  trans := Calm.trans
  move_up _ _ _ := hbh_move_up_calm cf _ _ _ _
  move_up_int _ _ _ _ _ := hbh_move_up_calm cf _ _ _ _
  ack_loop _ _ _ _ := ack_loop_calm _ _ _ _
  restamp_loop _ _ _ _ _ := restamp_loop_calm cf _ _ _ _ _
  unsend _ _ := Calm.of_eq rfl rfl rfl
  mark_sent _ _ _ := Calm.of_eq rfl rfl rfl
  resend _ _ := Calm.of_eq rfl rfl rfl

theorem after_acks_rests (hop : ℕ) (acks : List HbhAck) (D : Daemon) :
    Rests D (after_acks cf hop acks D) :=
  ((calm_keeps cf).walk.quiet.after_acks hop acks D).bufs

theorem handle_rests (D : Daemon) (e : Event) (hin : e.Internal) : Rests D (handle cf D e) :=
  ((calm_keeps cf).walk.handle D e hin).bufs

end Handlers

/-! ## 3. Messages that arrived -/

/-- Message `q` of epoch `ep` from `s` cannot be taken any more. -/
def Passed (cf : Conf) (D : Daemon) (s ep q : ℕ) : Prop :=
  ep < (D.fb s cf.my_id).src_epoch ∨
    ep = (D.fb s cf.my_id).src_epoch ∧ q < (D.fb s cf.my_id).head_seq

def Onward (cf : Conf) (D D' : Daemon) : Prop := ∀ s ep q, Passed cf D s ep q → Passed cf D' s ep q

structure Terminal (cf : Conf) (D : Daemon) : Prop where
  empty : ∀ s i, (D.fb s cf.my_id).msg i = none
  known : D.halt = .running → ∀ s, s ≠ cf.my_id →
    (D.fb s cf.my_id).src_epoch ≤ ((D.e2e s).cell cf.my_id).dest_epoch

section Terminal

variable {cf : Conf} {D D' D'' : Daemon}

theorem Onward.refl (D : Daemon) : Onward cf D D := fun _ _ _ h => h

theorem Onward.trans (h : Onward cf D D') (h' : Onward cf D' D'') : Onward cf D D'' :=
  fun s ep q hp => h' s ep q (h s ep q hp)

theorem Onward.of_eq (h : ∀ s, D'.fb s cf.my_id = D.fb s cf.my_id) : Onward cf D D' := by
  intro s ep q hp
  unfold Passed
  rw [h]
  exact hp

theorem Rests.onward (h : Rests D D') : Onward cf D D' := by
  intro s ep q hp
  unfold Passed
  rw [(h s cf.my_id).epoch, (h s cf.my_id).head]
  exact hp

theorem Terminal.rests (h : Terminal cf D) (hrun : D.halt = .running) (hr : Rests D D')
    (he : ∀ d, d ≠ cf.my_id → D'.e2e d = D.e2e d) : Terminal cf D' := by
  refine ⟨fun s => (hr s cf.my_id).empty (h.empty s), fun _ s hs => ?_⟩
  rw [(hr s cf.my_id).epoch, he s hs]
  exact h.known hrun s hs

theorem terminal_init (cf : Conf) (sec : ℕ) : Terminal cf (init_reliable_flooding cf sec) := by
  refine ⟨fun s i => ?_, fun _ s hs => ?_⟩
  · simp only [init_reliable_flooding]
    split <;> rfl
  · have hfb : (init_reliable_flooding cf sec).fb s cf.my_id = FlowBuffer.init :=
      if_neg (fun h => hs h.1)
    rw [hfb]
    exact Nat.zero_le _

/-! ### Data -/

theorem process_data_at_dest (h : Terminal cf D) (hop : ℕ) (m : Msg) :
    (∀ s, (reliable_flood_process_data cf hop m D).1.fb s cf.my_id =
        D.fb s cf.my_id) ∧
      ((reliable_flood_process_data cf hop m D).2 = .buff_ok → m.dest ≠ cf.my_id) ∨
    m.dest = cf.my_id ∧ m.src_epoch = (D.fb m.src cf.my_id).src_epoch ∧
      m.seq_num = (D.fb m.src cf.my_id).head_seq ∧
      (reliable_flood_process_data cf hop m D).1.fb =
        set2 D.fb m.src cf.my_id { D.fb m.src cf.my_id with
          head_seq := (D.fb m.src cf.my_id).head_seq + 1
          sow := (D.fb m.src cf.my_id).sow + 1
          next_seq := cf.each (fun _ => (D.fb m.src cf.my_id).head_seq + 1)
            (D.fb m.src cf.my_id).next_seq } := by
  by_cases hd : m.dest = cf.my_id
  · have hempty : ∀ i, (D.fb m.src m.dest).msg i = none := by
      rw [hd]
      exact h.empty m.src
    rcases data_verdict_cases (D.fb m.src m.dest) m with
      hv | ⟨⟨hep, -⟩, ⟨hv, hseq, -, -⟩ | ⟨-, ⟨hv, -⟩ | ⟨stored, hst, -⟩⟩⟩
    · refine .inl ⟨fun s => ?_, fun hok => ?_⟩
      · simp only [reliable_flood_process_data, hv]
      · simp [reliable_flood_process_data, hv] at hok
    · refine .inr ⟨hd, by rw [← hd]; exact hep, by rw [← hd]; exact hseq, ?_⟩
      simp only [reliable_flood_process_data, hv, accept_data]
      rw [accept_deliver_eq hop _ _ _ hd, hd]
    · refine .inl ⟨fun s => ?_, fun hok => ?_⟩
      · simp only [reliable_flood_process_data, hv]
      · simp [reliable_flood_process_data, hv] at hok
    · rw [hempty] at hst
      exact absurd hst (by simp)
  · -- a flow to another daemon
    have hother : ∀ (s : ℕ) (fb : FlowBuffer),
        set2 D.fb m.src m.dest fb s cf.my_id = D.fb s cf.my_id :=
      fun s fb => set2_of_ne _ _ (fun h => hd h.2.symm)
    refine .inl ⟨fun s => ?_, fun _ => hd⟩
    unfold reliable_flood_process_data
    dsimp only
    split
    · rfl
    · rfl
    · exact hother s _
    · exact hother s _
    · exact hother s _

theorem process_data_terminal (h : Terminal cf D) (hrun : D.halt = .running) (hop : ℕ)
    (m : Msg) :
    Terminal cf (reliable_flood_process_data cf hop m D).1 ∧
      Onward cf D (reliable_flood_process_data cf hop m D).1 ∧
      ((reliable_flood_process_data cf hop m D).2 = .buff_ok → m.dest = cf.my_id →
        ¬ Passed cf D m.src m.src_epoch m.seq_num ∧
          Passed cf (reliable_flood_process_data cf hop m D).1
            m.src m.src_epoch m.seq_num) := by
  have he := (process_data_walked cf hop m D).e2e
  rcases process_data_at_dest h hop m with ⟨hfb, hno⟩ | ⟨hd, hep, hseq, hfb⟩
  · refine ⟨⟨fun s => ?_, fun _ s hs => ?_⟩, Onward.of_eq hfb, fun hok hd => absurd hd (hno hok)⟩
    · rw [hfb]
      exact h.empty s
    · rw [hfb, he s hs]
      exact h.known hrun s hs
  · generalize (reliable_flood_process_data cf hop m D).1 = D1 at he hfb ⊢
    have hself : ∀ s, (D1.fb s cf.my_id).src_epoch = (D.fb s cf.my_id).src_epoch ∧
        (D.fb s cf.my_id).head_seq ≤ (D1.fb s cf.my_id).head_seq ∧
        (D1.fb s cf.my_id).msg = (D.fb s cf.my_id).msg := by
      intro s
      rw [hfb]
      by_cases hs : s = m.src
      · rw [hs, set2_self]
        exact ⟨rfl, Nat.le_succ _, rfl⟩
      · rw [set2_of_ne _ _ (fun h => hs h.1)]
        exact ⟨rfl, le_refl _, rfl⟩
    refine ⟨⟨fun s i => ?_, fun _ s hs => ?_⟩, fun s ep q hp => ?_, fun _ _ => ⟨?_, ?_⟩⟩
    · rw [(hself s).2.2]
      exact h.empty s i
    · rw [(hself s).1, he s hs]
      exact h.known hrun s hs
    · unfold Passed
      rw [(hself s).1]
      exact hp.imp_right (fun hp => ⟨hp.1, lt_of_lt_of_le hp.2 (hself s).2.1⟩)
    · unfold Passed
      omega
    · refine .inr ⟨by rw [(hself m.src).1]; exact hep, ?_⟩
      rw [hfb, set2_self]
      exact Nat.lt_succ_of_le (le_of_eq hseq)

/-! ### End-to-end acks -/

/-- The ack is taken, and it either comes in this daemon's own name or brings a
request of its source but is not stored. -/
def e2e_forgets (cf : Conf) (sec : ℕ) (new : E2eAck) (D : Daemon) : Prop :=
  e2e_accepted new D ∧
    (new.dest = cf.my_id ∨ e2e_requests cf new D ∧ e2e_refused cf sec new D)

instance (cf : Conf) (sec : ℕ) (new : E2eAck) (D : Daemon) : Decidable (e2e_forgets cf sec new D) :=
  inferInstanceAs (Decidable (_ ∧ _))

theorem handshake_onward (h : Terminal cf D) (hrun : D.halt = .running) (sec : ℕ) {new : E2eAck}
    (hd : new.dest ≠ cf.my_id) :
    Onward cf D (handshake cf sec new D) ∧
      (∀ s i, ((handshake cf sec new D).fb s cf.my_id).msg i = none) ∧
      (∀ s, s ≠ new.dest → (handshake cf sec new D).fb s cf.my_id = D.fb s cf.my_id) ∧
      (e2e_requests cf new D → ((handshake cf sec new D).fb new.dest cf.my_id).src_epoch =
        (new.cell cf.my_id).dest_epoch) := by
  have hfb := (handshake_other cf sec new D).1
  have hother : ∀ s, s ≠ new.dest → (handshake cf sec new D).fb s cf.my_id = D.fb s cf.my_id :=
    fun s hs => hfb s cf.my_id (fun h => hs h.1)
  by_cases hreq : e2e_requests cf new D
  · have hshake : (handshake cf sec new D).fb new.dest cf.my_id = { D.fb new.dest cf.my_id with
        sow := 1
        head_seq := 1
        next_seq := cf.each (fun _ => 1) (D.fb new.dest cf.my_id).next_seq
        src_epoch := (new.cell cf.my_id).dest_epoch } := by
      unfold e2e_requests at hreq
      rw [handshake, if_pos hreq, (handshake_request_spec cf sec new.dest _ D).1, set2_self]
    have hlater : (D.fb new.dest cf.my_id).src_epoch < (new.cell cf.my_id).dest_epoch :=
      lt_of_le_of_lt (h.known hrun new.dest hd) hreq
    refine ⟨fun s ep q hp => ?_, fun s i => ?_, hother, fun _ => by rw [hshake]⟩
    · by_cases hs : s = new.dest
      · subst hs
        refine .inl ?_
        rw [hshake]
        dsimp only
        rcases hp with hp | ⟨hp, -⟩ <;> omega
      · unfold Passed
        rw [hother s hs]
        exact hp
    · by_cases hs : s = new.dest
      · rw [hs, hshake]
        exact h.empty new.dest i
      · rw [hother s hs]
        exact h.empty s i
  · have hshake : handshake cf sec new D = D := if_neg hreq
    refine ⟨?_, ?_, hother, fun h => absurd h hreq⟩
    · rw [hshake]
      exact Onward.refl D
    · rw [hshake]
      exact h.empty

theorem process_e2e_terminal (h : Terminal cf D) (hrun : D.halt = .running)
    (hmy : 1 ≤ cf.my_id ∧ cf.my_id ≤ MAX_NODES) (sec hop : ℕ) {new : E2eAck}
    (hno : ¬ e2e_forgets cf sec new D) :
    Terminal cf (reliable_flood_process_e2e cf sec hop new D) ∧
      Onward cf D (reliable_flood_process_e2e cf sec hop new D) := by
  have he := (handshake_other cf sec new D).2.2.2
  rcases process_e2e_cases cf sec hop new D with
    ⟨-, heq⟩ | ⟨hacc, hcase⟩
  · rw [heq]
    exact ⟨h, Onward.refl D⟩
  have hd : new.dest ≠ cf.my_id := fun hd => hno ⟨hacc, .inl hd⟩
  obtain ⟨honward, hempty, hother, hnew⟩ := handshake_onward h hrun sec hd
  rcases hcase with ⟨href, heq⟩ | ⟨-, ⟨-, heq⟩ | ⟨-, heq⟩⟩
  · -- dropped: then it is no request
    have hreq : ¬ e2e_requests cf new D := fun hreq =>
      hno ⟨hacc, .inr ⟨hreq, (handshake_refused_iff cf sec new D).mp href⟩⟩
    have hshake : handshake cf sec new D = D := if_neg hreq
    rw [heq, hshake]
    exact ⟨h, Onward.refl D⟩
  · -- the loop over the cells does not end
    rw [heq]
    refine ⟨⟨fun s i => ?_, fun hhalt => absurd hhalt (by simp)⟩, fun s ep q hp => ?_⟩
    · simp only [handshake_finish_fb]
      exact hempty s i
    · have hp' := honward s ep q hp
      unfold Passed at hp' ⊢
      simpa only [handshake_finish_fb] using hp'
  · -- stored: the epoch of the flow is the one announced
    have hstored : ∀ s, (reliable_flood_process_e2e cf sec hop new D).fb s cf.my_id =
        (handshake cf sec new D).fb s cf.my_id := by
      intro s
      have hl := store_e2e_lanes cf hop new
        (handshake_finish cf new (handshake cf sec new D)) s cf.my_id
      rw [if_neg (fun h => hd h.2.symm)] at hl
      rw [heq]
      have hl' := congrArg Prod.fst hl
      simp only [Daemon.lanes, handshake_finish_fb] at hl'
      exact hl'
    have hack : (reliable_flood_process_e2e cf sec hop new D).e2e =
        update (handshake cf sec new D).e2e new.dest new := by
      obtain ⟨fb, edge, hrest⟩ := store_e2e_rest cf hop new
        (handshake_finish cf new (handshake cf sec new D))
      rw [heq, hrest]
      simp only [handshake_finish_e2e]
    refine ⟨⟨fun s i => ?_, fun _ s hs => ?_⟩, honward.trans (Onward.of_eq hstored)⟩
    · rw [hstored]
      exact hempty s i
    · rw [hstored, hack]
      by_cases hsd : s = new.dest
      · rw [hsd, update_self]
        by_cases hreq : e2e_requests cf new D
        · exact le_of_eq (hnew hreq)
        · have hshake : handshake cf sec new D = D := if_neg hreq
          have hcell := hacc.2.1 cf.my_id (List.mem_range'_1.mpr (by omega))
          have hknown := h.known hrun new.dest hd
          rw [hshake]
          unfold Cell.older at hcell
          omega
      · rw [update_of_ne hsd, hother s hsd, he s hs]
        exact h.known hrun s hs

/-! ### Packets and other events -/

/-- What `Reliable_Flood_Disseminate` returns `BUFF_OK` for is a message that verified
and, at its destination, one that was never taken before. -/
theorem disseminate_terminal (h : Terminal cf D) (hrun : D.halt = .running)
    (hmy : 1 ≤ cf.my_id ∧ cf.my_id ≤ MAX_NODES) (sec last_hop_index : ℕ) (verified : Bool)
    (pkt : Packet)
    (hno : ∀ new, pkt.body = .e2e new → verified = true → ¬ e2e_forgets cf sec new D) :
    Terminal cf (reliable_flood_disseminate cf sec last_hop_index verified pkt D).1 ∧
      Onward cf D (reliable_flood_disseminate cf sec last_hop_index verified pkt D).1 ∧
      ((reliable_flood_disseminate cf sec last_hop_index verified pkt D).2 = .buff_ok →
        ∃ m, pkt.body = .data m ∧ verified = true ∧ (m.dest = cf.my_id →
          ¬ Passed cf D m.src m.src_epoch m.seq_num ∧
            Passed cf (reliable_flood_disseminate cf sec last_hop_index verified pkt D).1
              m.src m.src_epoch m.seq_num)) := by
  -- the state after the hop-by-hop acks
  set D1 := after_acks cf last_hop_index pkt.acks D with hD1
  obtain ⟨fb, edge, sc, hrest⟩ := after_acks_rest cf last_hop_index pkt.acks D
  have hrests : Rests D D1 := after_acks_rests cf last_hop_index pkt.acks D
  have he : D1.e2e = D.e2e := by rw [hD1, hrest]
  have hrun1 : D1.halt = .running := by rw [hD1, hrest]; exact hrun
  have h1 : Terminal cf D1 := h.rests hrun hrests (fun d _ => by rw [he])
  obtain ⟨body, acks⟩ := pkt
  have hloop : (reliable_flood_process_acks cf last_hop_index acks
      { D with rf_state_change := false }).1 = D1 := rfl
  dsimp only at hno
  unfold reliable_flood_disseminate
  dsimp only
  rw [hloop]
  have hdrop : Rests D { D with rf_state_change := false } := Rests.of_eq rfl
  have hdropped : Terminal cf { D with rf_state_change := false } :=
    h.rests hrun hdrop (fun _ _ => rfl)
  cases body with
  | data m =>
    cases verified with
    | false => exact ⟨hdropped, hdrop.onward, fun hok => absurd hok (by simp)⟩
    | true =>
      obtain ⟨ht, hon, hok⟩ := process_data_terminal h1 hrun1 last_hop_index m
      dsimp only
      rw [if_neg (by simp)]
      split
      · exact ⟨h1, hrests.onward, fun hok => absurd hok (by simp)⟩
      split
      · exact ⟨h1, hrests.onward, fun hok => absurd hok (by simp)⟩
      refine ⟨ht, hrests.onward.trans hon, fun hret => ⟨m, rfl, rfl, fun hd => ?_⟩⟩
      have hdata : (reliable_flood_process_data cf last_hop_index m D1).2 = .buff_ok := by
        cases hr : (reliable_flood_process_data cf last_hop_index m D1).2 with
        | buff_ok => rfl
        | no_route => simp [hr] at hret
      obtain ⟨hnew, hpassed⟩ := hok hdata hd
      exact ⟨fun hp => hnew (hrests.onward _ _ _ hp), hpassed⟩
  | e2e new =>
    cases verified with
    | false => exact ⟨hdropped, hdrop.onward, fun hok => absurd hok (by simp)⟩
    | true =>
      have hno1 : ¬ e2e_forgets cf sec new D1 := by
        rw [hD1, hrest]
        exact hno new rfl rfl
      obtain ⟨ht, hon⟩ := process_e2e_terminal h1 hrun1 hmy sec last_hop_index hno1
      dsimp only
      rw [if_neg (by simp)]
      exact ⟨ht, hrests.onward.trans hon, fun hok => absurd hok (by simp)⟩
  | saa => exact ⟨h1, hrests.onward, fun hok => absurd hok (by simp)⟩
  | status_change =>
    cases verified with
    | false => exact ⟨hdropped, hdrop.onward, fun hok => absurd hok (by simp)⟩
    | true =>
      dsimp only
      rw [if_neg (by simp)]
      exact ⟨h1, hrests.onward, fun hok => absurd hok (by simp)⟩

theorem handle_terminal (h : Terminal cf D) (hrun : D.halt = .running) (e : Event)
    (hpacket : ∀ sec k v pkt, e ≠ .packet sec k v pkt)
    (hclient : ∀ sec dst n stamp sign_ok body, e ≠ .client sec dst n stamp sign_ok body) :
    Terminal cf (handle cf D e) ∧ Onward cf D (handle cf D e) := by
  have hin : e.Internal := by
    cases e with
    | packet => exact hpacket _ _ _ _ rfl
    | client => exact hclient _ _ _ _ _ _ rfl
    | _ => trivial
  have hr := handle_rests cf D e hin
  have heff := handle_effects cf D e (fun sec k new acks => hpacket sec k true ⟨.e2e new, acks⟩)
  exact ⟨h.rests hrun hr heff.e2e, hr.onward⟩

end Terminal

end Spines.RelFlood
