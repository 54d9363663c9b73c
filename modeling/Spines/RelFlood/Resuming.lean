/-
Waiting sessions, and the loop that resumes them.

`Reliable_Flood_Resume_Sessions` goes on while the handshake with the
destination is complete and the flow has room. A session it resumes sends its
message if the flow is in the epoch that messages are stamped with, and waits
again otherwise, at the end of the list the loop works on. The loop ends because
a flow whose handshake is complete is in that epoch (`FlowEpoch`).

One end-to-end ack breaks this: the destination names an epoch of this daemon
that is still to come (`Event.forges`, `forged_epoch_never_resumes`).
-/
import Spines.RelFlood.Backpressure
import Spines.RelFlood.Source
import Spines.RelFlood.Terminal

set_option autoImplicit false

namespace Spines.RelFlood

open Spines.Lib Function Option List

/-! ## 1. The epoch of a flow -/

structure FlowEpoch (cf : Conf) (d : ℕ) (D : Daemon) : Prop where
  known : d ≠ cf.my_id → (D.fb cf.my_id d).src_epoch = ((D.e2e d).cell cf.my_id).src_epoch
  complete : D.handshake_complete d = true →
    (D.fb cf.my_id d).src_epoch = D.flow_source_epoch d

/-- The event is an ack of `d` that is carried out: with the handshake complete it
asks for no new one, but names a later epoch of this daemon than the current one.
An ack in this daemon's own name counts as well. -/
def Event.forges (cf : Conf) (d : ℕ) (D : Daemon) : Event → Prop
  | packet _ _ true ⟨.e2e new, _⟩ =>
    new.dest = d ∧ e2e_accepted new D ∧
      (d = cf.my_id ∨ D.handshake_complete d = true ∧ ¬ e2e_requests cf new D ∧
        D.flow_source_epoch d < (new.cell cf.my_id).src_epoch)
  | _ => False

instance (cf : Conf) (d : ℕ) (D : Daemon) : ∀ e : Event, Decidable (e.forges cf d D)
  | .packet _ _ true ⟨.e2e _, _⟩ => inferInstanceAs (Decidable (_ ∧ _ ∧ (_ ∨ _)))
  | .packet _ _ false _ => .isFalse id
  | .packet _ _ true ⟨.data _, _⟩ => .isFalse id
  | .packet _ _ true ⟨.saa, _⟩ => .isFalse id
  | .packet _ _ true ⟨.status_change, _⟩ => .isFalse id
  | .client .. => .isFalse id
  | .gen_e2e .. => .isFalse id
  | .neighbor_transfer _ => .isFalse id
  | .e2e_event _ => .isFalse id
  | .send_one .. => .isFalse id
  | .restamp .. => .isFalse id

section Epoch

variable {cf : Conf} {d : ℕ} {D D' : Daemon}

theorem FlowEpoch.of_at (h : FlowEpoch cf d D)
    (hfb : (D'.fb cf.my_id d).src_epoch = (D.fb cf.my_id d).src_epoch)
    (he : d ≠ cf.my_id → D'.e2e d = D.e2e d) (hep : D'.flow_source_epoch d = D.flow_source_epoch d)
    (hc : D'.handshake_complete d = D.handshake_complete d) : FlowEpoch cf d D' := by
  refine ⟨fun hd => ?_, fun hdone => ?_⟩
  · rw [hfb, he hd]
    exact h.known hd
  · rw [hfb, hep]
    rw [hc] at hdone
    exact h.complete hdone

theorem FlowEpoch.of_eq (h : FlowEpoch cf d D)
    (hfb : (D'.fb cf.my_id d).src_epoch = (D.fb cf.my_id d).src_epoch)
    (he : d ≠ cf.my_id → D'.e2e d = D.e2e d) (hours : D'.ours = D.ours) : FlowEpoch cf d D' :=
  h.of_at hfb he (congrArg (fun x => x.2.1 d) hours) (congrArg (fun x => x.2.2 d) hours)

theorem flowEpoch_init (cf : Conf) (d sec : ℕ) :
    FlowEpoch cf d (init_reliable_flooding cf sec) := by
  refine ⟨fun hd => ?_, fun hdone => ?_⟩
  · simp [init_reliable_flooding, hd, FlowBuffer.init]
  · have hd : d = cf.my_id := of_decide_eq_true hdone
    simp [init_reliable_flooding, hd]

theorem accept_src_epoch (cf : Conf) (fb : FlowBuffer) (hop : ℕ) (m : Msg)
    (restamped : Bool) (np : ℕ) (aru : ℕ → ℕ) :
    (fb.accept cf hop m restamped np aru).src_epoch = fb.src_epoch := by
  have hmove : ∀ fb : FlowBuffer,
      (fb.hbh_move_up cf (fun n => n) false aru).src_epoch = fb.src_epoch := fun fb =>
    (advance_loop_fields cf false (hbh_min (fun n => n) cf fb aru + 1 - fb.sow) fb).2.2.2
  cases restamped with
  | true =>
    by_cases hd : m.dest = cf.my_id
    · simp only [FlowBuffer.accept, if_pos hd, if_true]
    · rw [accept_restamped_eq hop np hd]
      exact (store_data_fields cf fb hop m true np).2.2
  | false =>
    by_cases hd : m.dest = cf.my_id
    · rw [accept_deliver_eq hop fb np aru hd]
    · have hf := (with_fresh_fields cf fb m hop np).2.2
      rw [accept_fresh_eq hop np hd]
      split
      · rw [hmove, hf]
      · exact hf

theorem process_data_src_epoch (cf : Conf) (hop : ℕ) (m : Msg) (D : Daemon) (s d : ℕ) :
    ((reliable_flood_process_data cf hop m D).1.fb s d).src_epoch =
      (D.fb s d).src_epoch := by
  have hset : ∀ fb : FlowBuffer, fb.src_epoch = (D.fb m.src m.dest).src_epoch →
      (set2 D.fb m.src m.dest fb s d).src_epoch = (D.fb s d).src_epoch := by
    intro fb hfb
    by_cases hsd : s = m.src ∧ d = m.dest
    · rw [hsd.1, hsd.2, set2_self, hfb]
    · rw [set2_of_ne _ _ hsd]
  unfold reliable_flood_process_data
  dsimp only
  split
  · rfl
  · rfl
  · refine hset _ ?_
    unfold FlowBuffer.duplicate
    split <;> rfl
  · exact hset _ (accept_src_epoch cf _ _ _ _ _ _)
  · exact hset _ (accept_src_epoch cf _ _ _ _ _ _)

theorem FlowEpoch.after_acks (h : FlowEpoch cf d D) (hop : ℕ) (acks : List HbhAck) :
    FlowEpoch cf d (after_acks cf hop acks D) := by
  obtain ⟨fb, edge, sc, hrest⟩ := after_acks_rest cf hop acks D
  refine h.of_eq (after_acks_rests cf hop acks D cf.my_id d).epoch (fun _ => ?_)
    (after_acks_ours cf hop acks D)
  rw [hrest]

theorem FlowEpoch.process_data (h : FlowEpoch cf d D) (hop : ℕ) (m : Msg) :
    FlowEpoch cf d (reliable_flood_process_data cf hop m D).1 :=
  h.of_eq (process_data_src_epoch cf hop m D cf.my_id d)
    (fun hd => (process_data_walked cf hop m D).e2e d hd)
    (process_data_ours cf hop m D)

/-! ### Acks -/

theorem e2e_cell_src_epoch (cf : Conf) (new old : Cell) (fb : FlowBuffer) :
    (fb.e2e_cell cf new old).src_epoch =
      if old.dest_epoch < new.dest_epoch ∨ old.src_epoch < new.src_epoch then new.src_epoch
      else fb.src_epoch := by
  unfold FlowBuffer.e2e_cell
  by_cases hde : old.dest_epoch < new.dest_epoch
  · rw [if_pos hde, if_pos (.inl hde)]
    rfl
  rw [if_neg hde]
  by_cases hse : old.src_epoch < new.src_epoch
  · rw [if_pos hse, if_pos (.inr hse)]
    rfl
  have hno : ¬ (old.dest_epoch < new.dest_epoch ∨ old.src_epoch < new.src_epoch) := by omega
  rw [if_neg hse, if_neg hno]
  split
  · rw [e2e_advance_eq_slide, slide_src_epoch]
  · rfl

theorem handshake_done (cf : Conf) (sec : ℕ) (new : E2eAck) (D : Daemon) :
    (handshake cf sec new D).handshake_complete =
      if e2e_requests cf new D then update D.handshake_complete new.dest false
      else D.handshake_complete := by
  by_cases hreq : e2e_requests cf new D
  · have hshake : handshake cf sec new D =
        handshake_request cf sec new.dest (new.cell cf.my_id).dest_epoch D := if_pos hreq
    rw [hshake, if_pos hreq]
    unfold handshake_request Daemon.set_cell
    dsimp only
    split <;> rfl
  · have hshake : handshake cf sec new D = D := if_neg hreq
    rw [hshake, if_neg hreq]

theorem process_e2e_other (cf : Conf) (sec hop : ℕ) {new : E2eAck} (D : Daemon)
    (hd : d ≠ new.dest) :
    ∃ D', reliable_flood_process_e2e cf sec hop new D = D' ∧
      D'.fb cf.my_id d = D.fb cf.my_id d ∧ (d ≠ cf.my_id → D'.e2e d = D.e2e d) ∧
      D'.flow_seq_no d = D.flow_seq_no d ∧ D'.flow_source_epoch d = D.flow_source_epoch d ∧
      D'.handshake_complete d = D.handshake_complete d := by
  obtain ⟨hfb, -, -, he⟩ := handshake_other cf sec new D
  have hfb := hfb cf.my_id d (fun hpair => hd (hpair.2.trans hpair.1))
  have hdone : (handshake cf sec new D).handshake_complete d = D.handshake_complete d := by
    rw [handshake_done]
    split
    · exact update_of_ne hd _ _
    · rfl
  have hfinish : (handshake_finish cf new (handshake cf sec new D)).handshake_complete d =
      D.handshake_complete d := by
    rw [← hdone]
    unfold handshake_finish
    split
    · exact update_of_ne hd _ _
    · rfl
  obtain ⟨hseq, hep⟩ := process_e2e_numbers cf sec hop new D
  have hnumbers : (reliable_flood_process_e2e cf sec hop new D).flow_seq_no d =
        D.flow_seq_no d ∧
      (reliable_flood_process_e2e cf sec hop new D).flow_source_epoch d =
        D.flow_source_epoch d := by
    rw [hseq, hep]
    split
    · exact ⟨update_of_ne hd _ _, update_of_ne hd _ _⟩
    · exact ⟨rfl, rfl⟩
  refine ⟨_, rfl, ?_, ?_, hnumbers.1, hnumbers.2, ?_⟩ <;>
    rcases process_e2e_cases cf sec hop new D with
      ⟨-, heq⟩ | ⟨-, ⟨-, heq⟩ | ⟨-, ⟨-, heq⟩ | ⟨-, heq⟩⟩⟩ <;> rw [heq]
  · exact hfb
  · rw [handshake_finish_fb, hfb]
  · have hl := congrArg Prod.fst (store_e2e_lanes cf hop new
      (handshake_finish cf new (handshake cf sec new D)) cf.my_id d)
    rw [if_neg (fun hpair => hd hpair.2)] at hl
    simp only [Daemon.lanes, handshake_finish_fb, hfb] at hl
    exact hl
  · exact fun _ => rfl
  · exact he d
  · rw [handshake_finish_e2e]
    exact he d
  · obtain ⟨fb, edge, hrest⟩ := store_e2e_rest cf hop new
      (handshake_finish cf new (handshake cf sec new D))
    intro hmy
    rw [hrest, ← he d hmy]
    dsimp only
    rw [update_of_ne hd, handshake_finish_e2e]
  · exact hdone
  · exact hfinish
  · obtain ⟨fb, edge, hrest⟩ := store_e2e_rest cf hop new
      (handshake_finish cf new (handshake cf sec new D))
    rw [hrest]
    exact hfinish

theorem FlowEpoch.other_ack (h : FlowEpoch cf d D) (sec hop : ℕ) {new : E2eAck}
    (hd : d ≠ new.dest) :
    FlowEpoch cf d (reliable_flood_process_e2e cf sec hop new D) := by
  obtain ⟨D', heq, hfb, he, -, hep, hdone⟩ := process_e2e_other cf sec hop D hd
  rw [heq]
  exact h.of_at (by rw [hfb]) he hep hdone

/-- **An ack of `d` that is carried out**, and the flow to `d`: the answer to the
handshake is refused, or the buffer follows the ack's cell. -/
theorem own_ack_cases (hid : 1 ≤ cf.my_id ∧ cf.my_id ≤ MAX_NODES) (sec hop : ℕ)
    {new : E2eAck} (hmy : new.dest ≠ cf.my_id) (hacc : e2e_accepted new D) :
    (handshake_refused cf new (handshake cf sec new D) ∧
        reliable_flood_process_e2e cf sec hop new D = handshake cf sec new D ∧
        (handshake cf sec new D).fb cf.my_id new.dest = D.fb cf.my_id new.dest ∧
        (handshake cf sec new D).e2e new.dest = D.e2e new.dest) ∨
      (reliable_flood_process_e2e cf sec hop new D).halt = .hang ∨
      ∃ D', reliable_flood_process_e2e cf sec hop new D = D' ∧
        D'.fb cf.my_id new.dest = (D.fb cf.my_id new.dest).e2e_cell cf (new.cell cf.my_id)
          ((D.e2e new.dest).cell cf.my_id) ∧
        D'.e2e new.dest = new ∧
        D'.ours = (handshake_finish cf new (handshake cf sec new D)).ours := by
  obtain ⟨hfb, -, -, he⟩ := handshake_other cf sec new D
  have hfb := hfb cf.my_id new.dest (fun hpair => hmy hpair.2)
  have he := he new.dest hmy
  rcases process_e2e_cases cf sec hop new D with
    ⟨hdrop, -⟩ | ⟨-, ⟨href, heq⟩ | ⟨-, ⟨-, heq⟩ | ⟨-, heq⟩⟩⟩
  · exact absurd hacc hdrop
  · exact .inl ⟨href, heq, hfb, he⟩
  · exact .inr (.inl (by rw [heq]))
  · have hl := congrArg Prod.fst (store_e2e_lanes cf hop new
      (handshake_finish cf new (handshake cf sec new D)) cf.my_id new.dest)
    rw [if_pos ⟨mem_range'_1.mpr (by omega), rfl⟩] at hl
    simp only [Daemon.lanes, e2e_cell_lanes, handshake_finish_fb, handshake_finish_e2e, hfb, he]
      at hl
    obtain ⟨fb, edge, hrest⟩ := store_e2e_rest cf hop new
      (handshake_finish cf new (handshake cf sec new D))
    refine .inr (.inr ⟨_, heq, hl, ?_, ?_⟩)
    · rw [hrest]
      simp only [update_self]
    · rw [hrest]
      rfl

theorem FlowEpoch.own_ack (h : FlowEpoch cf d D) (hid : 1 ≤ cf.my_id ∧ cf.my_id ≤ MAX_NODES)
    (sec hop : ℕ) {new : E2eAck} (hd : new.dest = d)
    (hno : e2e_accepted new D → ¬ (d = cf.my_id ∨ D.handshake_complete d = true ∧
      ¬ e2e_requests cf new D ∧ D.flow_source_epoch d < (new.cell cf.my_id).src_epoch))
    (hrun : (reliable_flood_process_e2e cf sec hop new D).halt = .running) :
    FlowEpoch cf d (reliable_flood_process_e2e cf sec hop new D) := by
  subst hd
  by_cases hacc : e2e_accepted new D
  swap
  · rcases process_e2e_cases cf sec hop new D with ⟨-, heq⟩ | ⟨hacc', -⟩
    · rw [heq]
      exact h
    · exact absurd hacc' hacc
  have hmy : new.dest ≠ cf.my_id := fun hmy => hno hacc (.inl hmy)
  have hknown := h.known hmy
  -- no cell is older than the one before
  have hcell := hacc.2.1 cf.my_id (mem_range'_1.mpr (by omega))
  unfold Cell.older at hcell
  rcases own_ack_cases hid sec hop hmy hacc with
    ⟨href, heq, hfb, he⟩ | hhang | ⟨D', heq, hfb, he, hours⟩
  · -- dropped: the handshake is not complete
    have hopen : (handshake cf sec new D).handshake_complete new.dest = false := href.1.1
    rw [heq]
    refine ⟨fun _ => by rw [hfb, he]; exact hknown, fun hdone => ?_⟩
    rw [hopen] at hdone
    exact absurd hdone (by simp)
  · rw [hhang] at hrun
    exact absurd hrun (by simp)
  · -- stored: the buffer follows the cell
    have hbuf : (D'.fb cf.my_id new.dest).src_epoch = (new.cell cf.my_id).src_epoch := by
      rw [hfb, e2e_cell_src_epoch]
      split
      · rfl
      · omega
    have hep := congrArg (fun x => x.2.1 new.dest) hours
    have hdone' := congrArg (fun x => x.2.2 new.dest) hours
    simp only [Daemon.ours] at hep hdone'
    rw [heq]
    refine ⟨fun _ => by rw [hbuf, he], fun hdone => ?_⟩
    rw [hbuf, hep]
    rw [hdone'] at hdone
    unfold handshake_finish at hdone ⊢
    split
    · rename_i hans
      exact hans.2
    · -- nothing was answered: the handshake was complete before
      rename_i hans
      rw [if_neg hans] at hdone
      have hreq : ¬ e2e_requests cf new D := fun hreq => by
        rw [handshake_done, if_pos hreq, update_self] at hdone
        exact absurd hdone (by simp)
      have hshake : handshake cf sec new D = D := if_neg hreq
      rw [hshake] at hdone ⊢
      have hep := h.complete hdone
      have hle : ¬ D.flow_source_epoch new.dest < (new.cell cf.my_id).src_epoch := fun hlt =>
        hno hacc (.inr ⟨hdone, hreq, hlt⟩)
      unfold e2e_requests at hreq
      omega

/-! ### Events -/

theorem FlowEpoch.disseminate (h : FlowEpoch cf d D) (hid : 1 ≤ cf.my_id ∧ cf.my_id ≤ MAX_NODES)
    (sec hop : ℕ) (verified : Bool) (pkt : Packet)
    (hno : ¬ (Event.packet sec hop verified pkt).forges cf d D)
    (hrun : (∃ new, pkt.body = .e2e new) →
      (reliable_flood_disseminate cf sec hop verified pkt D).1.halt = .running) :
    FlowEpoch cf d (reliable_flood_disseminate cf sec hop verified pkt D).1 := by
  have hacks := h.after_acks hop pkt.acks
  rcases disseminate_cases cf sec hop verified pkt D with
    heq | heq | ⟨m, -, -, -, -, heq⟩ | ⟨new, hb, hv, heq⟩
  · rw [heq]
    exact h.of_eq rfl (fun _ => rfl) rfl
  · rw [heq]
    exact hacks
  · rw [heq]
    exact hacks.process_data hop m
  · have hrun := hrun ⟨new, hb⟩
    rw [heq] at hrun ⊢
    by_cases hd : d = new.dest
    · refine hacks.own_ack hid sec hop hd.symm (fun hacc hforge => hno ?_) hrun
      obtain ⟨body, acks⟩ := pkt
      dsimp only at hb
      subst hb hv
      obtain ⟨fb, edge, sc, hrest⟩ := after_acks_rest cf hop acks D
      rw [hrest] at hacc hforge
      exact ⟨hd.symm, hacc, hforge⟩
    · exact hacks.other_ack sec hop hd

theorem FlowEpoch.session_send (h : FlowEpoch cf d D) (hid : 1 ≤ cf.my_id ∧ cf.my_id ≤ MAX_NODES)
    (sec dst num_paths : ℕ) (stamp : Stamp) (sign_ok : Bool) (body : List UInt8) :
    FlowEpoch cf d (session_send_message cf sec dst num_paths stamp sign_ok body D) := by
  have hfilled : FlowEpoch cf d
      (fill_packet_header_reliable_flood cf dst num_paths stamp.mask body D).1 :=
    h.of_at rfl (fun _ => rfl) rfl rfl
  unfold session_send_message
  split
  · dsimp only
    split
    · exact hfilled
    · refine hfilled.disseminate hid sec 0 true _ id ?_
      rintro ⟨new, hb⟩
      simp at hb
  · exact h

theorem FlowEpoch.step {e : Event} (h : FlowEpoch cf d D)
    (hid : 1 ≤ cf.my_id ∧ cf.my_id ≤ MAX_NODES) (hstep : Step cf D e D')
    (hno : ¬ e.forges cf d D) (hrun : D'.halt = .running) : FlowEpoch cf d D' := by
  obtain ⟨-, -, rfl⟩ := hstep
  cases e with
  | packet sec k v pkt => exact h.disseminate hid sec k v pkt hno (fun _ => hrun)
  | client sec dst n stamp sign_ok body => exact h.session_send hid sec dst n stamp sign_ok body
  | _ =>
    exact h.of_eq (handle_rests cf D _ (by trivial) cf.my_id d).epoch
      ((handle_effects cf D _ (by nofun)).e2e d) (handle_ours cf D _ (by trivial))

end Epoch

/-! ## 2. Sessions that wait -/

/-- A session that waits has a message and stands in one list, once; any other
session has none and stands nowhere. -/
def Host.Listed (H : Host) (sid : ℕ) : Prop :=
  ∀ ses, H.session sid = some ses →
    (ses.blocked = true → ses.scat.isSome = true ∧
      ∃ d, (H.sess_list d).count sid = 1 ∧ ∀ d', d' ≠ d → sid ∉ H.sess_list d') ∧
    (ses.blocked = false → ses.scat = none ∧ ∀ d, sid ∉ H.sess_list d)

section Lists

variable {cf : Conf} {env : SignEnv} {envs : List SignEnv} {m : ClientMsg} {H H' : Host}
  {sid dst d : ℕ} {ses : Session} {rest : List ℕ}

theorem Host.Listed.of_same (h : H.Listed sid) (hses : H'.session sid = H.session sid)
    (hlist : ∀ d, (H'.sess_list d).count sid = (H.sess_list d).count sid) : H'.Listed sid := by
  have hnowhere : ∀ d, sid ∉ H.sess_list d → sid ∉ H'.sess_list d := by
    intro d hd
    rw [← count_eq_zero, hlist d, count_eq_zero]
    exact hd
  intro ses hsome
  obtain ⟨hblocked, hfree⟩ := h ses (hses.symm.trans hsome)
  refine ⟨fun hb => ?_, fun hb => ⟨(hfree hb).1, fun d => hnowhere d ((hfree hb).2 d)⟩⟩
  obtain ⟨hscat, d, hone, hothers⟩ := hblocked hb
  exact ⟨hscat, d, (hlist d).trans hone, fun d' hd' => hnowhere d' (hothers d' hd')⟩

theorem Host.Listed.waiting (hses : H.session sid = some ses) (hb : ses.blocked = true)
    (hscat : ses.scat.isSome = true) (hone : (H.sess_list d).count sid = 1)
    (hothers : ∀ d', d' ≠ d → sid ∉ H.sess_list d') : H.Listed sid := by
  intro ses' hsome
  rw [hses] at hsome
  cases hsome
  refine ⟨fun _ => ⟨hscat, d, hone, hothers⟩, fun hfree => ?_⟩
  rw [hb] at hfree
  cases hfree

theorem Host.Listed.free (hses : H.session sid = some ses) (hb : ses.blocked = false)
    (hscat : ses.scat = none) (hnowhere : ∀ d, sid ∉ H.sess_list d) : H.Listed sid := by
  intro ses' hsome
  rw [hses] at hsome
  cases hsome
  refine ⟨fun hbl => ?_, fun _ => ⟨hscat, hnowhere⟩⟩
  rw [hb] at hbl
  cases hbl

theorem send_waits (hses : H.session sid = some ses) (hscat : ses.scat = some m)
    (hblocked : ses.blocked = true) : H.send cf env sid = some H := by
  have hno : ¬ (ses.blocked = false ∧ reliable_flood_can_flow_send cf m.dst H.daemon) := by
    simp [hblocked]
  have hblock : reliable_flood_block_session cf sid m.dst ses H = H := by
    unfold reliable_flood_block_session
    rw [hblocked]
    split <;> rfl
  rw [send_held hses hscat hno, hblock]

/-! ### One round of the loop -/

structure Round (cf : Conf) (dst sid : ℕ) (rest : List ℕ) (H H' : Host) : Prop where
  listed : ∀ sid', H'.Listed sid'
  list : H'.sess_list dst = rest ∨ H'.sess_list dst = rest ++ [sid] ∧
    ¬ reliable_flood_can_flow_send cf dst H.daemon
  daemon : H'.daemon = H.daemon ∨ ∃ sec d np stamp sign_ok body,
    H'.daemon = session_send_message cf sec d np stamp sign_ok body H.daemon

theorem drop_first_at (H : Host) (dst : ℕ) :
    (H.drop_first dst).sess_list dst = (H.sess_list dst).tail := update_self ..

theorem drop_first_other (H : Host) (hd : d ≠ dst) :
    (H.drop_first dst).sess_list d = H.sess_list d := update_of_ne hd ..

theorem Host.Listed.front (h : H.Listed sid) (hses : H.session sid = some ses)
    (hlist : H.sess_list dst = sid :: rest) :
    ses.blocked = true ∧ ses.scat.isSome = true ∧ sid ∉ rest ∧
      ∀ d, d ≠ dst → sid ∉ H.sess_list d := by
  have hmem : sid ∈ H.sess_list dst := by
    rw [hlist]
    exact mem_cons_self
  obtain ⟨hwaits, hfree⟩ := h ses hses
  have hblocked : ses.blocked = true := by
    by_contra hb
    exact (hfree (Bool.eq_false_of_not_eq_true hb)).2 dst hmem
  obtain ⟨hscat, d0, hone, hothers⟩ := hwaits hblocked
  obtain rfl : dst = d0 := by
    by_contra hne
    exact hothers dst hne hmem
  refine ⟨hblocked, hscat, ?_, hothers⟩
  rw [hlist, count_cons_self] at hone
  rw [← count_eq_zero]
  omega

theorem resume_first_of {F : Host} {env : SignEnv} (hses : H.session sid = some ses)
    (hF : (H.set_session sid { ses with blocked := false }).send cf env sid = some F) :
    H.resume_first cf env sid = some (F.resume_session sid) := by
  rw [Host.resume_first, hses]
  exact congrArg (Option.map (·.resume_session sid)) hF

theorem Host.Listed.round (waits : Option ℕ) (hl : ∀ sid', H.Listed sid')
    (hlist : H.sess_list dst = sid :: rest) (hother : ∀ sid', sid' ≠ sid → H'.session sid' = H.session sid')
    (hself : ∀ ses', H'.session sid = some ses' →
      ses'.blocked = waits.isSome ∧ ses'.scat.isSome = waits.isSome)
    (hbase : H'.session sid = none ∨ ∀ d, sid ∉ if d = dst then rest else H.sess_list d)
    (hlists : ∀ d, H'.sess_list d =
      (if d = dst then rest else H.sess_list d) ++ if waits = some d then [sid] else []) :
    ∀ sid', H'.Listed sid' := by
  intro sid'
  by_cases hne : sid' = sid
  · subst hne
    intro ses' hses'
    obtain ⟨hblocked, hscat⟩ := hself ses' hses'
    have hrest := hbase.resolve_left (by rw [hses']; exact some_ne_none _)
    cases waits with
    | none =>
      refine Host.Listed.free hses' hblocked (not_isSome_iff_eq_none.mp (by simp [hscat]))
        (fun d => ?_) ses' hses'
      rw [hlists, if_neg (some_ne_none d).symm, append_nil]
      exact hrest d
    | some w =>
      refine Host.Listed.waiting (d := w) hses' hblocked hscat ?_ (fun d hd => ?_) ses' hses'
      · rw [hlists, if_pos rfl, count_append, count_eq_zero.mpr (hrest w),
          count_singleton_self]
      · rw [hlists, if_neg (fun h => hd (some.inj h).symm), append_nil]
        exact hrest d
  · refine (hl sid').of_same (hother sid' hne) (fun d => ?_)
    have hnil : (if waits = some d then [sid] else []).count sid' = 0 := by
      split
      · exact count_eq_zero.mpr (fun h => hne (mem_singleton.mp h))
      · rfl
    rw [hlists, count_append, hnil, add_zero]
    split
    · rename_i hd
      rw [hd, hlist, count_cons_of_ne (Ne.symm hne)]
    · rfl

theorem Host.Listed.behind (h : H.Listed sid) (hses : H.session sid = some ses)
    (hlist : H.sess_list dst = sid :: rest) (d : ℕ) :
    sid ∉ if d = dst then rest else H.sess_list d := by
  obtain ⟨-, -, hrest, hothers⟩ := h.front hses hlist
  split
  · exact hrest
  · rename_i hd
    exact hothers d hd

theorem dropped_lists (hlist : H.sess_list dst = sid :: rest) (d : ℕ) :
    (H.drop_first dst).sess_list d = if d = dst then rest else H.sess_list d := by
  split
  · rename_i hd
    rw [hd, drop_first_at, hlist, tail_cons]
  · rename_i hd
    exact drop_first_other H hd

theorem resume_round_closed (hl : ∀ sid', H.Listed sid') (hlist : H.sess_list dst = sid :: rest)
    (env : SignEnv) (hses : H.session sid = none) :
    ∃ H', H.resume_first cf env sid = some H' ∧ Round cf dst sid rest H (H'.drop_first dst) := by
  refine ⟨H, by rw [Host.resume_first, hses], ?_,
    .inl ((dropped_lists hlist dst).trans (if_pos rfl)), .inl rfl⟩
  refine Host.Listed.round none hl hlist (fun _ _ => rfl) (fun ses' hses' => ?_)
    (.inl hses) (fun d => ?_)
  · exact absurd (hses.symm.trans hses') (some_ne_none _).symm
  · rw [if_neg (some_ne_none d).symm, append_nil]
    exact dropped_lists hlist d

theorem resume_round_sent (hl : ∀ sid', H.Listed sid') (hlist : H.sess_list dst = sid :: rest)
    (env : SignEnv) (hses : H.session sid = some ses) (hm : ses.scat = some m)
    (hcan : reliable_flood_can_flow_send cf m.dst H.daemon) :
    ∃ H', H.resume_first cf env sid = some H' ∧ Round cf dst sid rest H (H'.drop_first dst) := by
  have hsend : (H.set_session sid { ses with blocked := false }).send cf env sid = some _ :=
    send_goes (update_self ..) hm rfl hcan
  refine ⟨_, resume_first_of hses hsend, ?_, .inl ?_, .inr ⟨_, _, _, _, _, _, rfl⟩⟩
  · refine Host.Listed.round none hl hlist (fun sid' hne => ?_) (fun ses' hses' => ?_)
      (.inr ((hl sid).behind hses hlist)) (fun d => ?_)
    · exact (update_of_ne hne ..).trans
        ((update_of_ne hne ..).trans (update_of_ne hne ..))
    · simp only [Host.drop_first, Host.resume_session, Host.set_session, update_self,
        map_some, some_inj] at hses'
      rw [← hses']
      exact ⟨rfl, rfl⟩
    · rw [if_neg (some_ne_none d).symm, append_nil]
      exact dropped_lists hlist d
  · exact (dropped_lists hlist dst).trans (if_pos rfl)

theorem resume_round_blocked (hl : ∀ sid', H.Listed sid') (hlist : H.sess_list dst = sid :: rest)
    (env : SignEnv) (hses : H.session sid = some ses) (hm : ses.scat = some m)
    (hcan : ¬ reliable_flood_can_flow_send cf m.dst H.daemon) :
    ∃ H', H.resume_first cf env sid = some H' ∧ Round cf dst sid rest H (H'.drop_first dst) := by
  have hsend : (H.set_session sid { ses with blocked := false }).send cf env sid = some _ :=
    send_blocks (update_self ..) hm rfl hcan
  have hlists : ∀ d, (update (update H.sess_list m.dst (H.sess_list m.dst ++ [sid]))
      dst (update H.sess_list m.dst (H.sess_list m.dst ++ [sid]) dst).tail) d =
        (if d = dst then rest else H.sess_list d) ++ if some m.dst = some d then [sid] else [] := by
    intro d
    simp only [update_apply, some_inj]
    by_cases hd : d = dst
    · subst hd
      by_cases hto : d = m.dst
      · simp [← hto, hlist]
      · simp [hto, Ne.symm hto, hlist]
    · by_cases hto : d = m.dst
      · simp [← hto, hd]
      · simp [hto, Ne.symm hto, hd]
  refine ⟨_, resume_first_of hses hsend, ?_, ?_, .inl rfl⟩
  · refine Host.Listed.round (some m.dst) hl hlist (fun sid' hne => ?_)
      (fun ses' hses' => ?_) (.inr ((hl sid).behind hses hlist)) hlists
    · exact (update_of_ne hne ..).trans
        ((update_of_ne hne ..).trans (update_of_ne hne ..))
    · simp only [Host.drop_first, Host.resume_session, Host.set_session, update_self,
        map_some, some_inj] at hses'
      rw [← hses', hm]
      exact ⟨rfl, rfl⟩
  · have hat := hlists dst
    rw [if_pos rfl] at hat
    by_cases hto : m.dst = dst
    · rw [if_pos (congrArg some hto)] at hat
      exact .inr ⟨hat, hto ▸ hcan⟩
    · rw [if_neg (fun h => hto (some.inj h)), append_nil] at hat
      exact .inl hat

theorem resume_round (hl : ∀ sid', H.Listed sid') (hlist : H.sess_list dst = sid :: rest)
    (env : SignEnv) :
    ∃ H', H.resume_first cf env sid = some H' ∧ Round cf dst sid rest H (H'.drop_first dst) := by
  cases hses : H.session sid with
  | none => exact resume_round_closed hl hlist env hses
  | some ses =>
    obtain ⟨m, hm⟩ := isSome_iff_exists.mp ((hl sid).front hses hlist).2.1
    by_cases hcan : reliable_flood_can_flow_send cf m.dst H.daemon
    · exact resume_round_sent hl hlist env hses hm hcan
    · exact resume_round_blocked hl hlist env hses hm hcan

/-! ### The loop -/

theorem Round.flowEpoch {H' : Host} (h : Round cf dst sid rest H H')
    (hid : 1 ≤ cf.my_id ∧ cf.my_id ≤ MAX_NODES) (hep : FlowEpoch cf d H.daemon) :
    FlowEpoch cf d H'.daemon := by
  rcases h.daemon with hsame | ⟨sec, d', np, stamp, sign_ok, body, hsent⟩
  · rw [hsame]
    exact hep
  · rw [hsent]
    exact hep.session_send hid sec d' np stamp sign_ok body

theorem resume_sessions_keeps (hid : 1 ≤ cf.my_id ∧ cf.my_id ≤ MAX_NODES) (envs : List SignEnv) :
    ∀ {H H' : Host}, (∀ sid, H.Listed sid) → FlowEpoch cf d H.daemon →
      reliable_flood_resume_sessions cf dst envs H = some H' →
      (∀ sid, H'.Listed sid) ∧ FlowEpoch cf d H'.daemon := by
  induction envs with
  | nil =>
    intro H H' hl hep h
    unfold reliable_flood_resume_sessions at h
    split at h
    · cases h
      exact ⟨hl, hep⟩
    · split at h
      · cases h
      · cases h
        exact ⟨hl, hep⟩
  | cons env envs ih =>
    intro H H' hl hep h
    unfold reliable_flood_resume_sessions at h
    split at h
    · cases h
      exact ⟨hl, hep⟩
    · rename_i sid rest hlist
      split at h
      · obtain ⟨H1, hfirst, hround⟩ := @resume_round cf H sid dst rest hl hlist env
        dsimp only at h
        rw [hfirst] at h
        exact ih hround.listed (hround.flowEpoch hid hep) h
      · cases h
        exact ⟨hl, hep⟩

/-- **The loop ends**, with at most one round for every session in the list: a round
takes its session out of the list for good. -/
theorem resume_sessions_ends (hid : 1 ≤ cf.my_id ∧ cf.my_id ≤ MAX_NODES)
    (hdst : 1 ≤ dst ∧ dst ≤ MAX_NODES) (envs : List SignEnv) :
    ∀ {H : Host}, (∀ sid, H.Listed sid) → FlowEpoch cf dst H.daemon →
      (H.sess_list dst).length ≤ envs.length →
      ∃ H' n, reliable_flood_resume_sessions cf dst envs H = some H' ∧
        H'.sess_list dst = (H.sess_list dst).drop n := by
  induction envs with
  | nil =>
    intro H _ _ hlen
    have hnil : H.sess_list dst = [] := length_eq_zero_iff.mp (Nat.le_zero.mp hlen)
    refine ⟨H, 0, ?_, rfl⟩
    unfold reliable_flood_resume_sessions
    rw [hnil]
  | cons env envs ih =>
    intro H hl hep hlen
    unfold reliable_flood_resume_sessions
    cases hlist : H.sess_list dst with
    | nil => exact ⟨H, 0, rfl, hlist⟩
    | cons sid rest =>
      dsimp only
      split
      · rename_i hguard
        obtain ⟨H1, hfirst, hround⟩ := @resume_round cf H sid dst rest hl hlist env
        -- the flow has room and is in its epoch, so the session is not put back
        have hcan : reliable_flood_can_flow_send cf dst H.daemon :=
          ⟨hdst, hguard.1, (hep.complete hguard.2).symm⟩
        have hshort : (H1.drop_first dst).sess_list dst = rest := by
          rcases hround.list with hgone | ⟨-, hno⟩
          · exact hgone
          · exact absurd hcan hno
        have hlen' : ((H1.drop_first dst).sess_list dst).length ≤ envs.length := by
          rw [hshort]
          rw [hlist, length_cons, length_cons] at hlen
          omega
        obtain ⟨H', n, hrest, hdropped⟩ :=
          ih hround.listed (hround.flowEpoch hid hep) hlen'
        refine ⟨H', n + 1, ?_, ?_⟩
        · rw [hfirst]
          exact hrest
        · rw [hdropped, hshort, drop_succ_cons]
      · exact ⟨H, 0, rfl, hlist⟩

theorem process_session_packet_listed (hl : ∀ sid, H.Listed sid)
    (h : H.process_session_packet cf env sid m = some H') :
    (∀ sid, H'.Listed sid) ∧ (H'.daemon = H.daemon ∨ ∃ sec d np stamp sign_ok body,
      H'.daemon = session_send_message cf sec d np stamp sign_ok body H.daemon) := by
  obtain ⟨ses, hses, h⟩ := bind_eq_some_iff.mp h
  set G : Host := { H.set_session sid { ses with scat := some m } with
    read := update H.read sid (H.read sid ++ [m]) } with hG
  have hget : G.session sid = some { ses with scat := some m } := update_self ..
  have hother : ∀ sid', sid' ≠ sid → G.session sid' = H.session sid' :=
    fun _ hne => update_of_ne hne ..
  obtain ⟨hwaits, hfree⟩ := hl sid ses hses
  by_cases hblocked : ses.blocked = true
  · -- the message takes the place of the one that waits
    have hsend : G.send cf env sid = some G := send_waits hget rfl hblocked
    rw [hsend] at h
    obtain rfl := some.inj h
    refine ⟨fun sid' => ?_, .inl rfl⟩
    by_cases hne : sid' = sid
    · subst hne
      obtain ⟨-, d, hone, hothers⟩ := hwaits hblocked
      exact Host.Listed.waiting hget hblocked rfl hone hothers
    · exact (hl sid').of_same (hother sid' hne) (fun _ => rfl)
  have hblocked : ses.blocked = false := Bool.eq_false_of_not_eq_true hblocked
  obtain ⟨-, hnowhere⟩ := hfree hblocked
  by_cases hcan : reliable_flood_can_flow_send cf m.dst H.daemon
  · have hsend : G.send cf env sid = some _ := send_goes hget rfl hblocked hcan
    rw [hsend] at h
    cases h
    refine ⟨fun sid' => ?_, .inr ⟨_, _, _, _, _, _, rfl⟩⟩
    by_cases hne : sid' = sid
    · subst hne
      exact Host.Listed.free (update_self ..) hblocked rfl hnowhere
    · refine (hl sid').of_same ?_ (fun _ => rfl)
      exact (update_of_ne hne ..).trans (hother sid' hne)
  · have hsend : G.send cf env sid = some _ := send_blocks hget rfl hblocked hcan
    rw [hsend] at h
    cases h
    refine ⟨fun sid' => ?_, .inl rfl⟩
    by_cases hne : sid' = sid
    · subst hne
      refine Host.Listed.waiting (d := m.dst) (update_self ..) rfl rfl ?_ (fun d hd => ?_)
      · have hzero : (G.sess_list m.dst).count sid' = 0 :=
          count_eq_zero.mpr (hnowhere m.dst)
        dsimp only
        rw [update_self, count_append, count_singleton_self, hzero]
      · dsimp only
        rw [update_of_ne hd]
        exact hnowhere d
    · refine (hl sid').of_same ?_ (fun d => ?_)
      · exact (update_of_ne hne ..).trans (hother sid' hne)
      · dsimp only
        by_cases hd : d = m.dst
        · rw [hd, update_self, count_append, count_singleton,
            if_neg (by simpa using Ne.symm hne), add_zero]
          rfl
        · rw [update_of_ne hd]
          rfl

end Lists

/-! ## 3. Runs -/

/-- The ack of `d` does not forge an epoch of this daemon, and a new session has an
id that waits nowhere (ids come from a counter). -/
def Host.Honest (cf : Conf) (d : ℕ) (H : Host) : HostEvent → Prop
  | .connect sid => ∀ d, sid ∉ H.sess_list d
  | .flooding e => ¬ e.forges cf d H.daemon
  | _ => True

section Runs

variable {cf : Conf} {d : ℕ} {H H' : Host}

structure Host.Resumable (cf : Conf) (d : ℕ) (H : Host) : Prop where
  listed : ∀ sid, H.Listed sid
  epoch : H.daemon.halt = .running → FlowEpoch cf d H.daemon

theorem Host.Resumable.step (hid : 1 ≤ cf.my_id ∧ cf.my_id ≤ MAX_NODES) {e : HostEvent}
    (h : H.Resumable cf d) (hstep : Host.Step cf H e H') (hok : H.Honest cf d e) :
    H'.Resumable cf d := by
  obtain ⟨hrun, hen, h_eq⟩ := hstep
  have hep := h.epoch hrun
  have hdata : ∀ {D' : Daemon}, (D' = H.daemon ∨ ∃ sec d np stamp sign_ok body,
      D' = session_send_message cf sec d np stamp sign_ok body H.daemon) →
      FlowEpoch cf d D' := by
    rintro D' (rfl | ⟨sec, d', np, stamp, sign_ok, body, rfl⟩)
    · exact hep
    · exact hep.session_send hid sec d' np stamp sign_ok body
  cases e with
  | connect sid =>
    cases h_eq
    refine ⟨fun sid' => ?_, fun _ => hep⟩
    by_cases hne : sid' = sid
    · subst hne
      exact Host.Listed.free (update_self ..) rfl rfl hok
    · exact (h.listed sid').of_same (update_of_ne hne ..) (fun _ => rfl)
  | close sid =>
    cases h_eq
    refine ⟨fun sid' => ?_, fun _ => hep⟩
    by_cases hne : sid' = sid
    · subst hne
      intro ses hses
      dsimp only at hses
      rw [update_self] at hses
      cases hses
    · exact (h.listed sid').of_same (update_of_ne hne ..) (fun _ => rfl)
  | message sid m env =>
    obtain ⟨hl, hD⟩ := process_session_packet_listed h.listed h_eq
    exact ⟨hl, fun _ => hdata hD⟩
  | datagram sid m env =>
    obtain ⟨hl, hD⟩ := process_session_packet_listed h.listed h_eq
    exact ⟨hl, fun _ => hdata hD⟩
  | block_all =>
    cases h_eq
    refine ⟨fun sid ses hses => ?_, fun _ => hep⟩
    obtain ⟨old, hold, rfl⟩ := map_eq_some_iff.mp hses
    exact h.listed sid old hold
  | resume_all =>
    cases h_eq
    refine ⟨fun sid ses hses => ?_, fun _ => hep⟩
    obtain ⟨old, hold, rfl⟩ := map_eq_some_iff.mp hses
    exact h.listed sid old hold
  | resume dst envs =>
    dsimp only [Host.handle] at h_eq
    split at h_eq
    · cases h_eq
      exact h
    · obtain ⟨hl, hD⟩ := resume_sessions_keeps hid envs h.listed hep h_eq
      exact ⟨hl, fun _ => hD⟩
  | flooding e =>
    cases h_eq
    refine ⟨fun sid => (h.listed sid).of_same rfl (fun _ => rfl), fun hrun' => ?_⟩
    exact hep.step hid ⟨hrun, hen.1, rfl⟩ hok hrun'

/-- **With the handshake complete the flow is in the epoch of its messages, and resuming
its sessions ends**, in every run in which the destination names no epoch of this
daemon that is still to come. -/
theorem complete_handshake_resumes (hid : 1 ≤ cf.my_id ∧ cf.my_id ≤ MAX_NODES)
    (hd : 1 ≤ d ∧ d ≤ MAX_NODES) {sec : ℕ}
    (hrun : Run (fun H e H' => Host.Step cf H e H' ∧ H.Honest cf d e) (init_host cf sec) H)
    (hrunning : H.daemon.halt = .running) : (H.daemon.handshake_complete d = true →
      (H.daemon.fb cf.my_id d).src_epoch = H.daemon.flow_source_epoch d) ∧
    ∀ envs : List SignEnv, (H.sess_list d).length ≤ envs.length →
      ∃ H' n, H.handle cf (.resume d envs) = some H' ∧ H'.sess_list d = (H.sess_list d).drop n := by
  have hinit : (init_host cf sec).Resumable cf d := by
    refine ⟨fun sid ses hses => ?_, fun _ => flowEpoch_init cf d sec⟩
    cases hses
  have h : H.Resumable cf d :=
    Run.invariant (Host.Resumable cf d) hinit (fun _ _ _ h hstep => h.step hid hstep.1 hstep.2) hrun
  refine ⟨(h.epoch hrunning).complete, fun envs hlen => ?_⟩
  have hhandle : H.handle cf (.resume d envs) = reliable_flood_resume_sessions cf d envs H := by
    dsimp only [Host.handle]
    rw [if_neg (by omega)]
  rw [hhandle]
  exact resume_sessions_ends hid hd envs h.listed (h.epoch hrunning) hlen

theorem resume_never_ends {dst sid : ℕ} {m : ClientMsg} (hto : m.dst = dst) {D : Daemon}
    (hguard : flow_space cf dst D ∧ D.handshake_complete dst = true)
    (hcan : ¬ reliable_flood_can_flow_send cf dst D) (envs : List SignEnv) :
    ∀ {H : Host} {ses : Session}, H.daemon = D → H.session sid = some ses → ses.scat = some m →
      H.sess_list dst = [sid] → reliable_flood_resume_sessions cf dst envs H = none := by
  subst hto
  induction envs with
  | nil =>
    intro H ses hD hses hm hlist
    subst hD
    unfold reliable_flood_resume_sessions
    rw [hlist]
    exact if_pos hguard
  | cons env envs ih =>
    intro H ses hD hses hm hlist
    subst hD
    unfold reliable_flood_resume_sessions
    rw [hlist]
    dsimp only
    rw [if_pos hguard]
    -- the session is sent, which puts it back
    set G : Host := H.set_session sid { ses with blocked := false }
    have hget : G.session sid = some { ses with blocked := false } := update_self ..
    have hsend : G.send cf env sid = some _ := send_blocks hget hm rfl hcan
    set F : Host := { G.set_session sid ⟨true, ses.scat, false⟩ with
      sess_list := update H.sess_list m.dst (H.sess_list m.dst ++ [sid]) }
    have hfirst : H.resume_first cf env sid = some (F.resume_session sid) := by
      rw [Host.resume_first, hses]
      exact congrArg (Option.map (·.resume_session sid)) hsend
    have hresumed : ((F.resume_session sid).drop_first m.dst).session sid =
        some ⟨true, ses.scat, true⟩ := by
      have hnow : F.session sid = some ⟨true, ses.scat, false⟩ := update_self ..
      have hmap : (F.resume_session sid).session sid =
          (F.session sid).map fun ses => { ses with read_desc := true } :=
        update_self ..
      rw [hnow] at hmap
      exact hmap
    have hback : ((F.resume_session sid).drop_first m.dst).sess_list m.dst = [sid] := by
      have hlists : (F.resume_session sid).sess_list =
          update H.sess_list m.dst (H.sess_list m.dst ++ [sid]) := rfl
      rw [drop_first_at, hlists, update_self, hlist]
      rfl
    rw [hfirst]
    exact ih rfl hresumed hm hback

end Runs

theorem complete_handshake_resumes_first :
    let H := first_waits.next source_conf three_answers
    (H.daemon.handshake_complete 3 = true ∧ H.sess_list 3 = [9]) ∧
      (H.daemon.fb 1 3).src_epoch = H.daemon.flow_source_epoch 3 ∧
      ∃ H' n, H.handle source_conf (.resume 3 [open_path]) = some H' ∧
        H'.sess_list 3 = [9].drop n := by
  obtain ⟨hconnect, hmessage⟩ := first_waits_steps
  have hanswer : Host.Step source_conf first_waits three_answers _ :=
    Host.step_next (by decide +kernel) ⟨by decide, nofun⟩ rfl
  have hhonest : first_waits.Honest source_conf 3 three_answers := by
    simp only [Host.Honest, three_answers]
    decide +kernel
  have hrun : Run (fun H e H' => Host.Step source_conf H e H' ∧ H.Honest source_conf 3 e)
      (init_host source_conf 7) (first_waits.next source_conf three_answers) :=
    (((Run.refl _).tail ⟨hconnect, nofun⟩).tail ⟨hmessage, trivial⟩).tail ⟨hanswer, hhonest⟩
  have hlist : (first_waits.next source_conf three_answers).sess_list 3 = [9] := by
    decide +kernel
  obtain ⟨hepoch, hends⟩ := @complete_handshake_resumes source_conf 3 _ (by decide)
    (by decide) 7 hrun (by decide +kernel)
  have hdone : (first_waits.next source_conf three_answers).daemon.handshake_complete 3 = true := by
    decide +kernel
  refine ⟨⟨hdone, hlist⟩, hepoch hdone, ?_⟩
  obtain ⟨H', n, hH', hn⟩ := hends [open_path] (by rw [hlist]; decide)
  exact ⟨H', n, hH', by rw [hn, hlist]⟩

/-- The ack of destination `3` that names the epoch `src_epoch` of source `1`. -/
def three_names (src_epoch : ℕ) : HostEvent :=
  .flooding (.packet 100 1 true
    ⟨.e2e ⟨3, fun i => if i = 1 then ⟨5, src_epoch, 0, zero_lt_word⟩
      else ⟨5, 0, 0, zero_lt_word⟩⟩, []⟩)

/-- The handshake is complete, then the destination names the epoch 8, which this daemon
never had; and a client sends. -/
def forged_epoch : Host :=
  ((((init_host source_conf 7).next source_conf (.connect 9)).next source_conf
    (three_names 7)).next source_conf (three_names 8)).next source_conf
    (.message 9 (to_three 1) open_path)

/-- **Resuming the session of this client does not end**, whatever the rounds find out. -/
theorem forged_epoch_never_resumes :
    Run (Host.Step source_conf) (init_host source_conf 7) forged_epoch ∧
      forged_epoch.daemon.handshake_complete 3 = true ∧
      (forged_epoch.daemon.fb 1 3).src_epoch ≠ forged_epoch.daemon.flow_source_epoch 3 ∧
      ∀ envs, forged_epoch.handle source_conf (.resume 3 envs) = none := by
  have hconnect : Host.Step source_conf (init_host source_conf 7) (.connect 9) _ :=
    Host.step_next rfl rfl rfl
  have hseven : Host.Step source_conf ((init_host source_conf 7).next source_conf (.connect 9))
      (three_names 7) _ :=
    Host.step_next (by decide +kernel) ⟨by decide, nofun⟩ rfl
  have height : Host.Step source_conf (((init_host source_conf 7).next source_conf
      (.connect 9)).next source_conf (three_names 7)) (three_names 8) _ :=
    Host.step_next (by decide +kernel) ⟨by decide, nofun⟩ rfl
  have hmessage : Host.Step source_conf ((((init_host source_conf 7).next source_conf
      (.connect 9)).next source_conf (three_names 7)).next source_conf (three_names 8))
      (.message 9 (to_three 1) open_path) _ :=
    Host.step_next (by decide +kernel) ⟨⟨false, none, true⟩, by decide +kernel, rfl⟩
      (by decide +kernel)
  refine ⟨((((Run.refl _).tail hconnect).tail hseven).tail height).tail hmessage,
    by decide +kernel, by decide +kernel, fun envs => ?_⟩
  have hguard : flow_space source_conf 3 forged_epoch.daemon ∧
      forged_epoch.daemon.handshake_complete 3 = true := by decide +kernel
  have hcan : ¬ reliable_flood_can_flow_send source_conf 3 forged_epoch.daemon := by
    decide +kernel
  have hses : forged_epoch.session 9 = some ⟨true, some (to_three 1), false⟩ := by decide +kernel
  have hlist : forged_epoch.sess_list 3 = [9] := by decide +kernel
  have hto : (to_three 1).dst = 3 := rfl
  have hhandle : forged_epoch.handle source_conf (.resume 3 envs) =
      reliable_flood_resume_sessions source_conf 3 envs forged_epoch := by
    dsimp only [Host.handle]
    rw [if_neg (by decide)]
  rw [hhandle]
  exact resume_never_ends hto hguard hcan envs rfl hses rfl hlist

end Spines.RelFlood
