/-
What a handler leaves behind when it gives up (`daemon/reliable_flood.c`).

* `dropped_ack_changes_nothing`: an end-to-end ack that is not stored leaves the
  daemon as it was. The source says "First, Validate the E2E Ack. If not valid,
  throw away (don't store) and return", and the loop that compares the cells
  does; but an ack may also be thrown away after its handshake request was acted
  upon (`Invalid aru value for handshake`).
* `failed_send_keeps_acks`: `Reliable_Flood_Add_Acks` takes the acks off their queue
  while the packet is built, and none of its four callers puts them back. The end-to-end
  ack or the status change of such a packet is "requeued for later", and the penalty of
  a flow is given back.
-/
import Spines.RelFlood.Pending
import Spines.RelFlood.E2eLoops

set_option autoImplicit false

namespace Spines.RelFlood

open Spines.Lib Function List

/-! ## 1. An ack that is not stored -/

section Dropped

variable {cf : Conf} {D : Daemon} {sec hop : ℕ} {new : E2eAck}

structure Restarted (cf : Conf) (new : E2eAck) (D : Daemon) : Prop where
  incomplete : D.handshake_complete new.dest = false
  /-- Nothing was sent to `d`, so the epoch of the flow stays. -/
  unsent : D.flow_seq_no new.dest ≤ 1
  src_epoch : ((D.e2e cf.my_id).cell new.dest).src_epoch = (new.cell cf.my_id).dest_epoch
  aru : ((D.e2e cf.my_id).cell new.dest).aru = 0
  sow : (D.fb new.dest cf.my_id).sow = 1
  head_seq : (D.fb new.dest cf.my_id).head_seq = 1
  next_seq : ∀ k, cf.nbr k → (D.fb new.dest cf.my_id).next_seq k = 1
  flow_epoch : (D.fb new.dest cf.my_id).src_epoch = (new.cell cf.my_id).dest_epoch
  initial : D.initial_e2e = true

theorem set2_eq_self {α : Type*} (t : ℕ → ℕ → α) (i j : ℕ) : set2 t i j (t i j) = t := by
  funext a b
  unfold set2
  split
  · rename_i h
    rw [h.1, h.2]
  · rfl

theorem set_cell_eq_self (D : Daemon) (d i : ℕ) : D.set_cell d i ((D.e2e d).cell i) = D := by
  unfold Daemon.set_cell
  rw [Function.update_eq_self]
  rw [Function.update_eq_self]

theorem handshake_request_restarted (h : Restarted cf new D) :
    handshake_request cf sec new.dest (new.cell cf.my_id).dest_epoch D = D := by
  have hcomplete : update D.handshake_complete new.dest false = D.handshake_complete := by
    rw [← h.incomplete, Function.update_eq_self]
  have hcell : ∀ c : Cell, c.src_epoch = (new.cell cf.my_id).dest_epoch → c.aru = 0 →
      (⟨c.dest_epoch, (new.cell cf.my_id).dest_epoch, 0, by decide⟩ : Cell) = c := by
    rintro ⟨dest_epoch, src_epoch, aru, haru⟩ hsrc rfl
    dsimp only at hsrc ⊢
    rw [hsrc]
  have hfb : ∀ fb : FlowBuffer, fb.sow = 1 → fb.head_seq = 1 →
      (∀ k, cf.nbr k → fb.next_seq k = 1) → fb.src_epoch = (new.cell cf.my_id).dest_epoch →
      ({ fb with
        sow := 1
        head_seq := 1
        next_seq := cf.each (fun _ => 1) fb.next_seq
        src_epoch := (new.cell cf.my_id).dest_epoch } : FlowBuffer) = fb := by
    rintro ⟨msg, status, num_paths, sow, next, head, src_epoch⟩ rfl rfl hnext hsrc
    have heach : cf.each (fun _ => 1) next = next := by
      funext k
      by_cases hk : cf.nbr k
      · rw [Conf.each_nbr _ _ hk]
        exact (hnext k hk).symm
      · rw [Conf.each_other _ _ hk]
    dsimp only at hsrc ⊢
    rw [heach, hsrc]
  have hseq : ¬ 1 < D.flow_seq_no new.dest := not_lt.mpr h.unsent
  unfold handshake_request
  dsimp only
  rw [if_neg hseq, hcomplete, hcell _ h.src_epoch h.aru, set_cell_eq_self,
    hfb _ h.sow h.head_seq h.next_seq h.flow_epoch, set2_eq_self, ← h.initial]

theorem restarted_of_request
    (h : handshake_request cf sec new.dest (new.cell cf.my_id).dest_epoch D = D) :
    Restarted cf new D := by
  have hseq : D.flow_seq_no new.dest ≤ 1 := by
    by_contra hgt
    have hno := congrArg (fun D : Daemon => D.flow_seq_no new.dest) h
    unfold handshake_request Daemon.set_cell at hno
    dsimp only at hno
    rw [if_pos (Nat.lt_of_not_le hgt)] at hno
    dsimp only at hno
    rw [update_self] at hno
    omega
  unfold handshake_request Daemon.set_cell at h
  dsimp only at h
  rw [if_neg (not_lt.mpr hseq)] at h
  have hcomplete := congrArg (fun D : Daemon => D.handshake_complete new.dest) h
  have hcell := congrArg (fun D : Daemon => (D.e2e cf.my_id).cell new.dest) h
  have hfb := congrArg (fun D : Daemon => D.fb new.dest cf.my_id) h
  have hinit := congrArg Daemon.initial_e2e h
  dsimp only at hcomplete hcell hfb hinit
  rw [update_self] at hcomplete
  rw [update_self] at hcell
  dsimp only at hcell
  rw [update_self] at hcell
  rw [set2_self] at hfb
  refine ⟨hcomplete.symm, hseq, ?_, ?_, ?_, ?_, fun k hk => ?_, ?_, hinit.symm⟩
  · rw [← hcell]
  · rw [← hcell]
  · rw [← hfb]
  · rw [← hfb]
  · rw [← hfb]
    exact Conf.each_nbr (fun _ => 1) _ hk
  · rw [← hfb]

/-- **An ack that is not stored changes nothing**, exactly unless it is refused after
its handshake request was acted upon. -/
theorem dropped_ack_changes_nothing (cf : Conf) (sec hop : ℕ) (new : E2eAck)
    (D : Daemon) : (¬ reaches_cells cf sec new D →
        reliable_flood_process_e2e cf sec hop new D = D) ↔
      ¬ (e2e_accepted new D ∧ e2e_refused cf sec new D ∧ e2e_requests cf new D ∧
        ¬ Restarted cf new D) := by
  rcases process_e2e_cases cf sec hop new D with ⟨hdrop, heq⟩ | ⟨hacc, hways⟩
  · exact iff_of_true (fun _ => heq) (fun h => hdrop h.1)
  rw [handshake_refused_iff] at hways
  by_cases href : e2e_refused cf sec new D
  · have heq := (hways.resolve_right (fun h => h.1 href)).2
    rw [heq]
    have hnot : ¬ reaches_cells cf sec new D := fun h => h.2 href
    by_cases hreq : e2e_requests cf new D
    · have hshake : handshake cf sec new D =
          handshake_request cf sec new.dest (new.cell cf.my_id).dest_epoch D := if_pos hreq
      rw [hshake]
      constructor
      · rintro hsame ⟨-, -, -, hres⟩
        exact hres (restarted_of_request (hsame hnot))
      · intro hok _
        by_contra hne
        exact hok ⟨hacc, href, hreq, fun hres => hne (handshake_request_restarted hres)⟩
    · have hshake : handshake cf sec new D = D := if_neg hreq
      rw [hshake]
      exact iff_of_true (fun _ => rfl) (fun h => hreq h.2.2.1)
  · exact iff_of_true (fun hnot => absurd ⟨hacc, href⟩ hnot) (fun h => href h.2.1)

def false_answer : E2eAck :=
  ⟨3, fun i => if i = 2 then ⟨5, 7, 1, by decide⟩ else ⟨5, 0, 0, zero_lt_word⟩⟩

/-- It is not stored; the flow from `3` to the relay has a new epoch all the same. -/
theorem refused_answer_restarts_flow :
    ¬ ∀ (cf : Conf) (sec hop : ℕ) (new : E2eAck) (D : Daemon),
      ¬ reaches_cells cf sec new D →
        reliable_flood_process_e2e cf sec hop new D = D := by
  intro hclaim
  have hsame := hclaim relay_conf 8 2 false_answer (init_reliable_flooding relay_conf 7) (by decide)
  have hepoch := congrArg (fun D : Daemon => (D.fb 3 2).src_epoch) hsame
  exact absurd hepoch (by decide)

end Dropped

/-! ## 2. Hop-by-hop acks of a packet that is not sent -/

inductive Sender
  | send_data
  | send_e2e
  | send_saa
  | send_status_change
  deriving DecidableEq, Repr

/-- The sender got as far as `Reliable_Flood_Add_Acks`: it has something to send. -/
def Sender.Builds (cf : Conf) (k : ℕ) (N : Node) : Sender → Prop
  | send_data => ∃ e, (scan_queues cf N.D k (scan_fuel (N.D.edge k)) (N.D.edge k)).2 = some e ∧
      ((N.D.fb e.src_id e.dest_id).msg
        (slot ((N.D.fb e.src_id e.dest_id).next_seq k))).isSome = true
  | send_e2e => (N.D.edge k).e2e_skl ≠ []
  | send_saa => True
  | send_status_change => (N.S.link k).skl ≠ []

def Sender.call (cf : Conf) (sc : StatusConf) (k : ℕ) (env : SendEnv) (N : Node) :
    Sender → Node × Option Packet
  | send_data =>
    let sent := reliable_flood_send_data cf k env N.D
    (⟨sent.1, N.S⟩, sent.2)
  | send_e2e =>
    let sent := reliable_flood_send_e2e cf k env N.D
    (⟨sent.1, N.S⟩, sent.2)
  | send_saa =>
    let sent := reliable_flood_send_saa k env N.D
    (⟨sent.1, N.S⟩, sent.2)
  | send_status_change =>
    match (N.S.link k).skl with
    | [] => (N, none)
    | _ :: _ =>
      let out := RelFlood.send_status_change cf sc k env N.S
      let added := reliable_flood_add_acks N.D.fb env.max_acks (N.D.edge k)
      (⟨N.D.on_edge k (fun _ => added.1), out.1⟩,
        if out.2.isSome then some ⟨.status_change, added.2⟩ else none)

def LinkData.unsent_acks (ld : LinkData) : List (ℕ × ℕ) × (ℕ → ℕ → Bool) × ℕ :=
  (ld.hbh_unsent, ld.unsent_state, ld.unsent_state_count)

section Senders

variable {cf : Conf} {sc : StatusConf} {k : ℕ} {env : SendEnv} {N : Node}

theorem scan_queues_acks (cf : Conf) (D : Daemon) (k : ℕ) : ∀ (fuel : ℕ) (ld : LinkData),
    (scan_queues cf D k fuel ld).1.unsent_acks = ld.unsent_acks := by
  intro fuel
  induction fuel with
  | zero => exact fun _ => rfl
  | succ fuel ih =>
    intro ld
    rw [scan_queues]
    split
    · split
      · exact ih _
      · rfl
    · split
      · exact ih _
      · split
        · exact ih _
        · rfl
    · rfl

@[simp] theorem refund_acks (ld : LinkData) : ld.refund.unsent_acks = ld.unsent_acks := by
  unfold LinkData.refund
  split <;> rfl

theorem add_acks_keeps_iff (fb : ℕ → ℕ → FlowBuffer) (max_acks : ℕ) (ld : LinkData) :
    (reliable_flood_add_acks fb max_acks ld).1.unsent_acks = ld.unsent_acks ↔
      max_acks = 0 ∨ ld.hbh_unsent = [] := by
  unfold LinkData.unsent_acks reliable_flood_add_acks
  constructor
  · intro h
    have hdrop : ld.hbh_unsent.drop max_acks = ld.hbh_unsent := (Prod.mk.inj h).1
    have hlen := congrArg length hdrop
    rw [length_drop] at hlen
    by_contra hno
    rw [not_or] at hno
    have hpos := length_pos_iff.mpr hno.2
    omega
  · intro h
    have htake : ld.hbh_unsent.take max_acks = [] := by
      rcases h with rfl | hnil
      · exact take_zero
      · rw [hnil, take_nil]
    have hdrop : ld.hbh_unsent.drop max_acks = ld.hbh_unsent := by
      rcases h with rfl | hnil
      · rfl
      · rw [hnil, drop_nil]
    rw [htake, hdrop]
    simp

theorem unsent_acks_of_failed {s : Sender} (hbuilds : s.Builds cf k N)
    (hfail : (s.call cf sc k env N).2 = none) :
    ∃ ld, ld.unsent_acks = (N.D.edge k).unsent_acks ∧
      ((s.call cf sc k env N).1.D.edge k).unsent_acks =
        (reliable_flood_add_acks N.D.fb env.max_acks ld).1.unsent_acks := by
  cases s with
  | send_data =>
    obtain ⟨e, he, hmsg⟩ := hbuilds
    obtain ⟨m, hm⟩ := Option.isSome_iff_exists.mp hmsg
    refine ⟨_, scan_queues_acks cf N.D k (scan_fuel (N.D.edge k)) (N.D.edge k), ?_⟩
    simp only [Sender.call, reliable_flood_send_data, he] at hfail ⊢
    have hfb : (N.D.on_edge k (fun _ =>
      (scan_queues cf N.D k (scan_fuel (N.D.edge k)) (N.D.edge k)).1)).fb = N.D.fb := rfl
    simp only [hfb, hm, on_edge_self] at hfail ⊢
    split at hfail
    · cases hfail
    · rename_i hforward
      rw [if_neg hforward, on_edge_self]
      exact refund_acks _
  | send_e2e =>
    refine ⟨_, rfl, ?_⟩
    simp only [Sender.call, reliable_flood_send_e2e] at hfail ⊢
    cases hskl : (N.D.edge k).e2e_skl with
    | nil => exact absurd hskl hbuilds
    | cons x skl =>
      simp only [hskl] at hfail ⊢
      split at hfail
      · cases hfail
      · rename_i hforward
        rw [if_neg hforward, on_edge_self]
        rfl
  | send_saa =>
    refine ⟨_, rfl, ?_⟩
    simp only [Sender.call, reliable_flood_send_saa, on_edge_self]
  | send_status_change =>
    refine ⟨_, rfl, ?_⟩
    simp only [Sender.call]
    cases hskl : (N.S.link k).skl with
    | nil => exact absurd hskl hbuilds
    | cons x skl => simp only [on_edge_self]

/-- **A packet that is not sent takes no hop-by-hop ack with it**, exactly if there was
none to take: no ack waits, or none fits on the packet. -/
theorem failed_send_keeps_acks (cf : Conf) (sc : StatusConf) (k : ℕ) (env : SendEnv) (N : Node)
    (s : Sender) (hbuilds : s.Builds cf k N) (hfail : (s.call cf sc k env N).2 = none) :
    ((s.call cf sc k env N).1.D.edge k).unsent_acks = (N.D.edge k).unsent_acks ↔
      env.max_acks = 0 ∨ (N.D.edge k).hbh_unsent = [] := by
  obtain ⟨ld, hld, hcall⟩ := unsent_acks_of_failed hbuilds hfail
  have hqueue : ld.hbh_unsent = (N.D.edge k).hbh_unsent := (Prod.mk.inj hld).1
  rw [hcall, ← hld, add_acks_keeps_iff, hqueue]

/-- The relay has stored a message for destination `3`, and owes its neighbours an ack. -/
def relay_owes_acks : Node :=
  ⟨relay_stores.foldl (handle relay_conf) (init_reliable_flooding relay_conf 7),
    StatusState.init relay_conf⟩

/-- `Forward_Data` fails, with room for `max_acks` acks on the packet. -/
def closed_link (max_acks : ℕ) : SendEnv := ⟨200, false, false, true, 1, max_acks, true⟩

theorem relay_builds : Sender.send_data.Builds relay_conf 2 relay_owes_acks := by
  have hsome : ((scan_queues relay_conf relay_owes_acks.D 2
      (scan_fuel (relay_owes_acks.D.edge 2)) (relay_owes_acks.D.edge 2)).2).any (fun e =>
        ((relay_owes_acks.D.fb e.src_id e.dest_id).msg
          (slot ((relay_owes_acks.D.fb e.src_id e.dest_id).next_seq 2))).isSome) = true := by
    decide +kernel
  obtain ⟨e, he, hmsg⟩ := (Option.any_eq_true _ _).mp hsome
  exact ⟨e, he, hmsg⟩

theorem failed_send_keeps_acks_full :
    ((Sender.send_data.call relay_conf triangle 2 (closed_link 0) relay_owes_acks).1.D.edge
      2).unsent_acks = (relay_owes_acks.D.edge 2).unsent_acks :=
  (failed_send_keeps_acks relay_conf triangle 2 (closed_link 0) relay_owes_acks .send_data relay_builds
    (by decide +kernel)).mpr (.inl rfl)

/-- **The link takes no packet.** The message stays, the ack that was to go with it
does not. -/
theorem failed_send_loses_ack :
    ¬ ∀ (cf : Conf) (sc : StatusConf) (k : ℕ) (env : SendEnv) (N : Node) (s : Sender),
      s.Builds cf k N → (s.call cf sc k env N).2 = none →
        ((s.call cf sc k env N).1.D.edge k).unsent_acks = (N.D.edge k).unsent_acks := by
  intro hclaim
  have hsame := hclaim relay_conf triangle 2 (closed_link 10) relay_owes_acks .send_data relay_builds
    (by decide +kernel)
  have hlost : ((Sender.send_data.call relay_conf triangle 2 (closed_link 10)
      relay_owes_acks).1.D.edge 2).hbh_unsent ≠ (relay_owes_acks.D.edge 2).hbh_unsent := by
    decide +kernel
  exact hlost (Prod.mk.inj hsame).1

end Senders

end Spines.RelFlood
