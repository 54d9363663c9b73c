/-
The handlers that send, and the timers.

Continues `Handlers.lean` with `Reliable_Flood_Gen_E2E`,
`Reliable_Flood_Neighbor_Transfer`, `Reliable_Flood_Send_One` and a round of
`Reliable_Flood_Restamp`. Sending moves flows by elementary steps as long as the
`int` variable at the end of `Reliable_Flood_Send_Data` can hold the sequence
numbers (`int_window`). A round of `Reliable_Flood_Restamp` rewrites masks and
marks first, which is no elementary step, and goes on with elementary steps;
`RestampRound` says so.
-/
import Spines.RelFlood.Handlers

set_option autoImplicit false

namespace Spines.RelFlood

open Spines.Lib List

/-! ## Handlers that leave the flows alone -/

section Timers

variable {cf : Conf} {data e2e dirty : Bool}

theorem gen_e2e_moves (now : ℕ) (send : Bool) (D : Daemon) :
    Moves cf data e2e dirty D (reliable_flood_gen_e2e cf now send D) ∧
      (reliable_flood_gen_e2e cf now send D).halt = D.halt := by
  unfold reliable_flood_gen_e2e
  dsimp only
  split
  · exact ⟨Moves.refl D, rfl⟩
  split
  · exact ⟨Moves.refl D, rfl⟩
  split
  · refine ⟨Moves.still rfl (fun k => ?_), rfl⟩
    simp only [Conf.each]
    split
    · split <;> rfl
    · rfl
  · exact ⟨Moves.still rfl (fun _ => rfl), rfl⟩

theorem on_edge_moves (D : Daemon) (k : ℕ) {f : LinkData → LinkData}
    (h : (f (D.edge k)).view = (D.edge k).view) : Moves cf data e2e dirty D (D.on_edge k f) :=
  Moves.still rfl (fun j => LinkData.aru_of_view (on_edge_view D k h j))

theorem on_edge_aru_moves (D : Daemon) (k : ℕ) {ld : LinkData}
    (h : ld.flow_aru = (D.edge k).flow_aru) :
    Moves cf data e2e dirty D (D.on_edge k (fun _ => ld)) := by
  refine Moves.still rfl (fun j => ?_)
  by_cases hj : j = k
  · rw [hj, on_edge_self, h]
  · rw [on_edge_other D _ hj]

theorem e2e_event_moves (k : ℕ) (D : Daemon) :
    Moves cf data e2e dirty D (reliable_flood_e2e_event k D) ∧
      (reliable_flood_e2e_event k D).halt = D.halt := by
  refine ⟨on_edge_moves D k ?_, rfl⟩
  split <;> rfl

end Timers

/-! ## `Reliable_Flood_Neighbor_Transfer` -/

section Transfer

variable {cf : Conf} {data e2e dirty : Bool}

theorem transfer_flow_moves (k d : ℕ) (D : Daemon) (s : ℕ) :
    Moves cf data e2e dirty D (transfer_flow cf k d D s) ∧
      (transfer_flow cf k d D s).halt = D.halt := by
  have h1 : Moves cf data e2e dirty D { D with fb := set2 D.fb s d ((D.fb s d).unsend k) } :=
    Moves.buffer s d _ rfl (fun _ => rfl) (.single (.unsend k))
  unfold transfer_flow
  dsimp only
  split
  · exact ⟨h1.trans (on_edge_moves _ k (push_urgent_view _ _ _)), rfl⟩
  · exact ⟨h1, rfl⟩

theorem Moves.foldl_halt {f : Daemon → ℕ → Daemon} {l : List ℕ} {D : Daemon}
    (hstep : ∀ D, Inv cf D → ∀ i, Moves cf data e2e dirty D (f D i) ∧ (f D i).halt = D.halt)
    (hinv : Inv cf D) : Moves cf data e2e dirty D (l.foldl f D) ∧ (l.foldl f D).halt = D.halt := by
  apply Moves.foldl (fun D' => D'.halt = D.halt) _ hinv rfl
  intro D' hinv' hD' i _
  obtain ⟨h, hh⟩ := hstep D' hinv' i
  exact ⟨h, hh.trans hD'⟩

theorem transfer_dest_moves {D : Daemon} (hinv : Inv cf D) (k d : ℕ) :
    Moves cf data e2e dirty D (transfer_dest cf k D d) ∧ (transfer_dest cf k D d).halt = D.halt := by
  have hflows : ∀ D1 : Daemon, Inv cf D1 →
      Moves cf data e2e dirty D1 ((range' 1 MAX_NODES).foldl (transfer_flow cf k d) D1) ∧
        ((range' 1 MAX_NODES).foldl (transfer_flow cf k d) D1).halt = D1.halt :=
    fun D1 hinv1 => Moves.foldl_halt (fun D' _ s => transfer_flow_moves k d D' s) hinv1
  unfold transfer_dest
  split
  · -- the ack of `d` goes first; this blocks flows but moves none
    set D1 := D.on_edge k (fun ld =>
      { ld.e2e_insert (ld.e2e_timeout d + cf.e2e_ack_timeout) d with
        flow_block := fun a s =>
          if a = d ∧ 1 ≤ s ∧ s ≤ MAX_NODES then true else ld.flow_block a s }) with hD1
    have h1 : Moves cf data e2e dirty D D1 := by
      refine Moves.still rfl (fun j => ?_)
      by_cases hj : j = k
      · rw [hj, hD1, on_edge_self]
        rfl
      · rw [hD1, on_edge_other D _ hj]
    obtain ⟨h2, hh⟩ := hflows D1 (h1.inv hinv)
    exact ⟨h1.trans h2, hh⟩
  · exact hflows D hinv

theorem neighbor_transfer_moves {D : Daemon} (hinv : Inv cf D) (k : ℕ) :
    Moves cf data e2e dirty D (reliable_flood_neighbor_transfer cf k D) ∧
      (reliable_flood_neighbor_transfer cf k D).halt = D.halt :=
  Moves.foldl_halt (fun _ hinv' d => transfer_dest_moves hinv' k d) hinv

end Transfer

/-! ## `Reliable_Flood_Send_Data` -/

/-- Without `HBH_Opt`, the variable `min` at the end of `Reliable_Flood_Send_Data`
has to hold the last message of the window. -/
def int_window (cf : Conf) (D : Daemon) : Prop :=
  cf.hbh_advance = true → cf.hbh_opt = false → ∀ s d,
    (D.fb s d).sow < (D.fb s d).head_seq → (D.fb s d).head_seq ≤ 2 ^ 31

/-! ### The two queues -/

def FlowQueue.key (e : FlowQueue) : ℕ × ℕ := (e.src_id, e.dest_id)

def LinkData.keys (ld : LinkData) : List (ℕ × ℕ) := (ld.urgent ++ ld.norm).map FlowQueue.key

/-- The flag of a flow says whether it is in one of the queues, and no flow is
there twice. -/
structure Queued (ld : LinkData) : Prop where
  nodup : ld.keys.Nodup
  flag : ∀ s d, ld.in_flow_queue s d = true ↔ (s, d) ∈ ld.keys

@[simp] theorem pay_src_id (e : FlowQueue) : e.pay.src_id = e.src_id := by
  obtain ⟨s, d, p⟩ := e
  rfl

@[simp] theorem pay_dest_id (e : FlowQueue) : e.pay.dest_id = e.dest_id := by
  obtain ⟨s, d, p⟩ := e
  rfl

@[simp] theorem pay_key (e : FlowQueue) : e.pay.key = e.key := by
  simp only [FlowQueue.key, pay_src_id, pay_dest_id]

theorem Queued.perm {ld ld' : LinkData} (h : Queued ld) (hp : ld'.keys.Perm ld.keys)
    (hf : ld'.in_flow_queue = ld.in_flow_queue) : Queued ld' := by
  refine ⟨hp.nodup_iff.mpr h.nodup, fun s d => ?_⟩
  rw [hf, h.flag s d, hp.mem_iff]

theorem Queued.push {ld ld' : LinkData} (h : Queued ld) {s d : ℕ}
    (hq : ¬ ld.in_flow_queue s d = true) (hp : ld'.keys.Perm ((s, d) :: ld.keys))
    (hf : ld'.in_flow_queue = set2 ld.in_flow_queue s d true) : Queued ld' := by
  refine ⟨hp.nodup_iff.mpr (nodup_cons.mpr ⟨?_, h.nodup⟩), fun a b => ?_⟩
  · rwa [← h.flag s d]
  · rw [hf, hp.mem_iff, mem_cons, ← h.flag a b]
    by_cases hab : a = s ∧ b = d
    · simp [hab]
    · simp [set2_of_ne _ _ hab, hab]

theorem Queued.push_norm {ld : LinkData} (h : Queued ld) (s d : ℕ) : Queued (ld.push_norm s d) := by
  unfold LinkData.push_norm
  split
  · exact h
  · rename_i hq
    refine h.push hq ?_ rfl
    simp only [LinkData.keys, ← append_assoc, map_append, map_cons, map_nil]
    exact perm_append_singleton _ _

theorem Queued.push_urgent {ld : LinkData} (h : Queued ld) (s d : ℕ) :
    Queued (ld.push_urgent s d) := by
  unfold LinkData.push_urgent
  split
  · exact h
  · rename_i hq
    refine h.push hq ?_ rfl
    simp only [LinkData.keys, append_assoc, map_append, map_cons,
      singleton_append]
    exact perm_middle

theorem Queued.drop {ld : LinkData} (h : Queued ld) {e : FlowQueue} {norm : List FlowQueue}
    (hu : ld.urgent = []) (hn : ld.norm = e :: norm) :
    Queued { ld with
      norm := norm
      in_flow_queue := set2 ld.in_flow_queue e.src_id e.dest_id false } := by
  have hkeys : ld.keys = e.key :: norm.map FlowQueue.key := by
    rw [LinkData.keys, hu, hn, nil_append, map_cons]
  have hkeys' : ({ ld with
      norm := norm
      in_flow_queue := set2 ld.in_flow_queue e.src_id e.dest_id false } : LinkData).keys =
      norm.map FlowQueue.key := by
    simp only [LinkData.keys, hu, nil_append]
  obtain ⟨hnodup, hflag⟩ := h
  rw [hkeys] at hnodup
  obtain ⟨hnot, hnodup⟩ := nodup_cons.mp hnodup
  refine ⟨by rw [hkeys']; exact hnodup, fun a b => ?_⟩
  rw [hkeys']
  dsimp only
  by_cases hab : a = e.src_id ∧ b = e.dest_id
  · obtain ⟨rfl, rfl⟩ := hab
    rw [set2_self]
    exact ⟨fun h => absurd h (by simp), fun h => absurd h hnot⟩
  · rw [set2_of_ne _ _ hab, hflag a b, hkeys, mem_cons]
    refine or_iff_right (fun he => hab ?_)
    exact ⟨congrArg Prod.fst he, congrArg Prod.snd he⟩

section Send

variable {cf : Conf} {D : Daemon} {k : ℕ}

theorem flow_ready_view {ld ld' : LinkData} (h : ld'.view = ld.view) (s d : ℕ) :
    flow_ready cf D k ld' s d ↔ flow_ready cf D k ld s d := by
  have hsow : ld'.flow_sow = ld.flow_sow := congrArg LinkView.flow_sow h
  have hblock : ld'.flow_block = ld.flow_block := congrArg LinkView.flow_block h
  unfold flow_ready
  rw [hsow, hblock]

structure Turned (cf : Conf) (D : Daemon) (k : ℕ) (ld ld' : LinkData) : Prop where
  view : ld'.view = ld.view
  kept : ∀ s d, flow_ready cf D k ld s d → ld.in_flow_queue s d = true →
    ld'.in_flow_queue s d = true
  queued : Queued ld → Queued ld'

theorem Turned.refl (ld : LinkData) : Turned cf D k ld ld := ⟨rfl, fun _ _ _ h => h, id⟩

theorem Turned.trans {ld1 ld2 ld3 : LinkData} (h : Turned cf D k ld1 ld2)
    (h' : Turned cf D k ld2 ld3) : Turned cf D k ld1 ld3 := by
  refine ⟨h'.view.trans h.view, fun s d hr hq => ?_, fun hq => h'.queued (h.queued hq)⟩
  exact h'.kept s d ((flow_ready_view h.view s d).mpr hr) (h.kept s d hr hq)

theorem Turned.of_perm {ld ld' : LinkData} (hv : ld'.view = ld.view)
    (hp : ld'.keys.Perm ld.keys) (hf : ld'.in_flow_queue = ld.in_flow_queue) :
    Turned cf D k ld ld' :=
  ⟨hv, fun s d _ hq => by rw [hf]; exact hq, fun h => h.perm hp hf⟩

theorem Turned.urgent_to_norm {ld : LinkData} {e e' : FlowQueue} {urgent : List FlowQueue}
    (hu : ld.urgent = e :: urgent) (hk : e'.key = e.key) :
    Turned cf D k ld { ld with urgent := urgent, norm := ld.norm ++ [e'] } := by
  refine Turned.of_perm rfl ?_ rfl
  simp only [LinkData.keys, hu, ← append_assoc, map_append, map_cons, map_nil,
    hk, cons_append]
  exact perm_append_singleton _ _

theorem Turned.norm_to_norm {ld : LinkData} {e e' : FlowQueue} {norm : List FlowQueue}
    (hn : ld.norm = e :: norm) (hk : e'.key = e.key) (hu : ld.urgent = []) :
    Turned cf D k ld { ld with norm := norm ++ [e'] } := by
  refine Turned.of_perm rfl ?_ rfl
  simp only [LinkData.keys, hu, hn, nil_append, map_append, map_cons, map_nil,
    hk]
  exact perm_append_singleton _ _

theorem Turned.front {ld ld' : LinkData} (hv : ld'.view = ld.view) (hk : ld'.keys = ld.keys)
    (hf : ld'.in_flow_queue = ld.in_flow_queue) : Turned cf D k ld ld' :=
  Turned.of_perm hv (by rw [hk]) hf

theorem scan_queues_turned : ∀ (fuel : ℕ) (ld : LinkData),
    Turned cf D k ld (scan_queues cf D k fuel ld).1 := by
  intro fuel
  induction fuel with
  | zero => intro ld; exact Turned.refl ld
  | succ fuel ih =>
    intro ld
    rw [scan_queues]
    split
    · rename_i e urgent hu
      split
      · exact (Turned.urgent_to_norm hu (pay_key e)).trans (ih _)
      · refine Turned.front rfl ?_ rfl
        simp only [LinkData.keys, hu, cons_append, map_cons, pay_key]
    · rename_i e norm hu hn
      split
      · exact (Turned.norm_to_norm hn (pay_key e) hu).trans (ih _)
      · split
        · rename_i hready
          have hdrop : Turned cf D k ld { ld with
              norm := norm
              in_flow_queue := set2 ld.in_flow_queue e.src_id e.dest_id false } := by
            refine ⟨rfl, fun s d hr hq => ?_, fun hq => hq.drop hu hn⟩
            dsimp only
            rw [set2_of_ne _ _ (fun h => hready (by rw [← h.1, ← h.2]; exact hr))]
            exact hq
          exact hdrop.trans (ih _)
        · refine Turned.front rfl ?_ rfl
          simp only [LinkData.keys, hu, hn, nil_append, map_cons, pay_key]
    · exact Turned.refl ld

theorem scan_queues_some (cf : Conf) (D : Daemon) (k : ℕ) :
    ∀ (fuel : ℕ) (ld : LinkData) (e : FlowQueue),
      (scan_queues cf D k fuel ld).2 = some e → flow_ready cf D k ld e.src_id e.dest_id := by
  intro fuel
  induction fuel with
  | zero => intro ld e h; simp [scan_queues] at h
  | succ fuel ih =>
    intro ld e h
    rw [scan_queues] at h
    split at h
    · split at h
      · have h' := ih _ e h
        exact (flow_ready_view (by rfl) _ _).mp h'
      · rename_i hready
        obtain rfl := Option.some.inj h
        rw [not_or, not_not] at hready
        rw [pay_src_id, pay_dest_id]
        exact hready.2
    · split at h
      · have h' := ih _ e h
        exact (flow_ready_view (by rfl) _ _).mp h'
      · split at h
        · have h' := ih _ e h
          exact (flow_ready_view (by rfl) _ _).mp h'
        · rename_i hready
          obtain rfl := Option.some.inj h
          rw [pay_src_id, pay_dest_id]
          exact not_not.mp hready
    · simp at h

theorem rotate_turned (packets : ℕ) (ld : LinkData) : Turned cf D k ld (ld.rotate packets) := by
  unfold LinkData.rotate
  split
  · rename_i hu
    exact Turned.urgent_to_norm hu rfl
  · rename_i hu hn
    exact Turned.norm_to_norm hn rfl hu
  · exact Turned.refl ld

theorem refund_turned (ld : LinkData) : Turned cf D k ld ld.refund := by
  unfold LinkData.refund
  split
  · rename_i hu
    refine Turned.front rfl ?_ rfl
    simp only [LinkData.keys, hu, cons_append, map_cons, FlowQueue.key]
  · rename_i hu hn
    refine Turned.front rfl ?_ rfl
    simp only [LinkData.keys, hu, hn, nil_append, map_cons, FlowQueue.key]
  · exact Turned.refl ld

theorem add_acks_turned (fb : ℕ → ℕ → FlowBuffer) (n : ℕ) (ld : LinkData) :
    Turned cf D k ld (reliable_flood_add_acks fb n ld).1 := Turned.front rfl rfl rfl

theorem send_move_up_moves (hinv : Inv cf D) (hadv : cf.hbh_advance = true) {s d : ℕ}
    (hpos : 0 < (D.fb s d).head_seq) (hint : (D.fb s d).head_seq ≤ 2 ^ 31) :
    Moves cf false false false D (send_move_up cf s d D) ∧
      (send_move_up cf s d D).halt = D.halt := by
  have hok : FlowInv cf (D.fb s d) (fun j => (D.edge j).flow_aru s d) := (hinv s d).inv
  have hlt := hok.head_lt
  have hpred := int64u_pred_of_pos hpos hlt
  have hmin := hbh_min_int cf (D.fb s d) (fun j => (D.edge j).flow_aru s d)
    (by rw [hpred]; omega)
  have hle := hok.hbh_min_lt hpos
  unfold send_move_up
  dsimp only
  rw [hmin]
  rw [if_neg (by unfold ULLONG_MAX; omega)]
  refine ⟨Moves.buffer s d _ rfl (fun j => ?_) (.single ?_), rfl⟩
  · refine LinkData.aru_of_view (each_view (fun i => ?_) j)
    exact note_if_view _ _ _ _
  · rw [hbh_move_up_eq_slide cf int64u_of_int true _ _ hok.held.sow_le (by rw [hmin]; exact hle), hmin]
    exact .slide true _ (by omega) (.inr ⟨hadv, hle⟩)

theorem send_data_cases (hinv : Inv cf D) (hk : cf.nbr k) (env : SendEnv) :
    (∃ ld, Turned cf D k (D.edge k) ld ∧
        reliable_flood_send_data cf k env D = (D.on_edge k (fun _ => ld), none)) ∨
      ∃ s d m ld, Turned cf D k (D.edge k) ld ∧ flow_ready cf D k (D.edge k) s d ∧
        (D.fb s d).msg (slot ((D.fb s d).next_seq k)) = some m ∧
        (reliable_flood_send_data cf k env D).1 =
          (fun D' : Daemon => if cf.hbh_advance = true ∧ cf.hbh_opt = false then
              send_move_up cf s d D' else D')
            { D.on_edge k (fun _ => ld) with
              fb := set2 D.fb s d ((D.fb s d).mark_sent k (slot ((D.fb s d).next_seq k))) } ∧
        ∃ acks, (reliable_flood_send_data cf k env D).2 = some ⟨.data m, acks⟩ := by
  have hturn : Turned cf D k _ _ := scan_queues_turned (scan_fuel (D.edge k)) (D.edge k)
  have hsome := scan_queues_some cf D k (scan_fuel (D.edge k)) (D.edge k)
  unfold reliable_flood_send_data
  generalize scan_queues cf D k (scan_fuel (D.edge k)) (D.edge k) = scan at hturn hsome ⊢
  obtain ⟨ld, o⟩ := scan
  dsimp only at hturn hsome ⊢
  cases o with
  | none => exact .inl ⟨ld, hturn, rfl⟩
  | some e =>
    have hready := hsome e rfl
    have hn := (hinv e.src_id e.dest_id).inv.next k hk
    have hlt := hready.2.1.1
    -- the next message lies in the window, so it is stored
    obtain ⟨m, hm⟩ := Option.isSome_iff_exists.mp
      ((hinv e.src_id e.dest_id).inv.held.stored _ hn.sow_le hlt)
    dsimp only [Daemon.flow] at hm
    have hfb : (D.on_edge k (fun _ => ld)).fb = D.fb := rfl
    simp only [hfb, hm]
    rw [on_edge_self]
    have hacks := hturn.trans (add_acks_turned D.fb env.max_acks ld)
    split
    · refine .inr ⟨e.src_id, e.dest_id, m, _, hacks.trans (rotate_turned env.packets _), hready,
        hm, ?_, _, rfl⟩
      simp only [Daemon.on_edge, Function.update_idem]
    · refine .inl ⟨_, hacks.trans (refund_turned _), ?_⟩
      simp only [Daemon.on_edge, Function.update_idem]

theorem send_data_moves (hinv : Inv cf D) (hk : cf.nbr k) (hint : int_window cf D) (env : SendEnv) :
    Moves cf false false false D (reliable_flood_send_data cf k env D).1 ∧
      (reliable_flood_send_data cf k env D).1.halt = D.halt := by
  rcases send_data_cases hinv hk env with ⟨ld, hld, h⟩ | ⟨s, d, m, ld, hld, hready, -, h, -⟩
  · rw [h]
    exact ⟨on_edge_aru_moves D k (LinkData.aru_of_view hld.view), rfl⟩
  · rw [h]
    have hn := (hinv s d).inv.next k hk
    have hlt := hready.2.1.1
    -- one message is marked
    set D1 : Daemon := { D.on_edge k (fun _ => ld) with
      fb := set2 D.fb s d ((D.fb s d).mark_sent k (slot ((D.fb s d).next_seq k))) } with hD1
    have h1 : Moves cf false false false D D1 :=
      (on_edge_aru_moves D k (LinkData.aru_of_view hld.view)).trans
        (Moves.buffer s d _ rfl (fun _ => rfl) (.single (.mark k _ hn.sow_le hlt)))
    split
    · -- and the window follows
      rename_i hadv
      have hhead : (D1.fb s d).head_seq = (D.fb s d).head_seq := by
        rw [hD1]
        simp only [set2_self]
        rfl
      have hsow := hn.sow_le
      dsimp only [Daemon.flow] at hsow
      have hle := hint hadv.1 hadv.2 s d (by omega)
      obtain ⟨h2, hh⟩ := send_move_up_moves (h1.inv hinv) hadv.1 (s := s) (d := d)
        (by omega) (by omega)
      exact ⟨h1.trans h2, hh⟩
    · exact ⟨h1, rfl⟩

end Send

/-! ## `Reliable_Flood_Send_One` -/

section SendOne

variable {cf : Conf} {D : Daemon} {k : ℕ}

theorem unblock_flow_aru (d : ℕ) (fb : ℕ → ℕ → FlowBuffer) (ld : LinkData) (i : ℕ) :
    (unblock_flow cf k d fb ld i).flow_aru = ld.flow_aru := by
  unfold unblock_flow
  split
  · rw [LinkData.aru_of_view (push_norm_view _ _ _)]
  · rfl

theorem unblock_flows_aru (d : ℕ) (fb : ℕ → ℕ → FlowBuffer) (l : List ℕ) : ∀ ld : LinkData,
    (l.foldl (unblock_flow cf k d fb) ld).flow_aru = ld.flow_aru := by
  induction l with
  | nil => intro ld; rfl
  | cons i l ih => intro ld; rw [foldl_cons, ih, unblock_flow_aru]

theorem send_e2e_moves (k : ℕ) (env : SendEnv) (D : Daemon) :
    Moves cf false false false D (reliable_flood_send_e2e cf k env D).1 ∧
      (reliable_flood_send_e2e cf k env D).1.halt = D.halt := by
  unfold reliable_flood_send_e2e
  split
  · exact ⟨Moves.refl D, rfl⟩
  · dsimp only
    split
    · refine ⟨on_edge_aru_moves D k ?_, rfl⟩
      rw [unblock_flows_aru]
      rfl
    · exact ⟨on_edge_aru_moves D k rfl, rfl⟩

theorem send_one_moves (hinv : Inv cf D) (hk : cf.nbr k) (hint : int_window cf D) (env : SendEnv) :
    Moves cf false false false D (reliable_flood_send_one cf k env D).1 ∧
      (reliable_flood_send_one cf k env D).1.halt = D.halt := by
  unfold reliable_flood_send_one
  split
  · exact ⟨Moves.refl D, rfl⟩
  split
  · exact ⟨on_edge_aru_moves D k rfl, rfl⟩
  split
  · exact send_e2e_moves k env D
  obtain ⟨h, hh⟩ := send_data_moves hinv hk hint env
  dsimp only
  split
  · exact ⟨h, hh⟩
  split
  · exact ⟨h.trans (on_edge_aru_moves _ k rfl), hh⟩
  · exact ⟨h, hh⟩

end SendOne

/-! ## `Reliable_Flood_Restamp` -/

section Restamp

variable {cf : Conf} {D : Daemon}

theorem Moves.quiet {dirty : Bool} {D' : Daemon} (h : Moves cf false false dirty D D')
    (hinv : Inv cf D) (s d : ℕ) : Quiet cf (D.fb s d) (D'.fb s d) :=
  FlowRun.quiet (h s d) (hinv s d) rfl rfl

theorem Moves.int_window {dirty : Bool} {D' : Daemon} (h : Moves cf false false dirty D D')
    (hinv : Inv cf D) (hint : int_window cf D) : int_window cf D' := by
  intro hadv hopt s d hlt
  have hq := h.quiet hinv s d
  have hs := hq.sow
  have hh := hq.head
  rw [hh]
  exact hint hadv hopt s d (by omega)

theorem resources_moves (i : ℕ) (hi : cf.nbr i) (l : List SendEnv) : ∀ D : Daemon, Inv cf D →
    int_window cf D → Moves cf false false false D
        (l.foldl (fun D e => (reliable_flood_send_one cf i e D).1) D) ∧
      (l.foldl (fun D e => (reliable_flood_send_one cf i e D).1) D).halt = D.halt := by
  induction l with
  | nil => intro D _ _; exact ⟨Moves.refl D, rfl⟩
  | cons e l ih =>
    intro D hinv hint
    obtain ⟨h, hh⟩ := send_one_moves hinv hi hint e
    obtain ⟨h', hh'⟩ := ih _ (h.inv hinv) (h.int_window hinv hint)
    exact ⟨h.trans h', hh'.trans hh⟩

theorem restamp_ngbr_moves (hinv : Inv cf D) (hint : int_window cf D) (hrun : D.halt = .running)
    (env : RestampEnv) {i k : ℕ} (hi : i ≠ cf.my_id) (hk : cf.nbr k) :
    Moves cf false false false D (restamp_ngbr cf env i D k) ∧
      (restamp_ngbr cf env i D k).halt = .running ∧
      SentBelow ((restamp_ngbr cf env i D k).fb cf.my_id i) k := by
  have hn := (hinv cf.my_id i).inv.next k hk
  dsimp only [Daemon.flow] at hn
  set D1 : Daemon := { D with fb := set2 D.fb cf.my_id i ((D.fb cf.my_id i).resend k) } with hD1
  have h1 : Moves cf false false false D D1 :=
    Moves.buffer cf.my_id i _ rfl (fun _ => rfl) (.single (.resend k))
  have hb1 : SentBelow (D1.fb cf.my_id i) k := by
    rw [hD1]
    simp only [set2_self]
    exact SentBelow.resend k (fun h => absurd rfl h)
  -- what happens afterwards keeps this
  have hrest : ∀ D2 : Daemon, Moves cf false false false D1 D2 → D2.halt = .running →
      Moves cf false false false D D2 ∧ D2.halt = .running ∧ SentBelow (D2.fb cf.my_id i) k := by
    intro D2 h2 hh
    refine ⟨h1.trans h2, hh, ?_⟩
    exact FlowRun.sentBelow (h2 cf.my_id i) (h1.inv hinv cf.my_id i) hk (decide_eq_false hi) hb1
  have hle := hn.skip_from_sow_le
  unfold restamp_ngbr
  dsimp only
  rw [if_neg (by simp [hrun]), if_neg (not_lt.mpr hle)]
  split
  · have h2 : Moves cf false false false D1 (D1.on_edge k (LinkData.push_urgent cf.my_id i)) :=
      on_edge_moves D1 k (push_urgent_view _ _ _)
    split
    · rename_i hnbr
      have hinv2 := (h1.trans h2).inv hinv
      obtain ⟨h3, hh⟩ := resources_moves i hnbr (env.resources i k) _ hinv2
        ((h1.trans h2).int_window hinv hint)
      exact hrest _ (h2.trans h3) (hh.trans hrun)
    · exact hrest _ h2 hrun
  · exact hrest _ (Moves.refl D1) hrun

theorem restamp_ngbrs_moves (env : RestampEnv) {i : ℕ} (hi : i ≠ cf.my_id) (l : List ℕ) :
    ∀ D : Daemon, Inv cf D → int_window cf D → D.halt = .running → (∀ k ∈ l, cf.nbr k) →
      Moves cf false false false D (l.foldl (restamp_ngbr cf env i) D) ∧
        (l.foldl (restamp_ngbr cf env i) D).halt = .running ∧
        ∀ k ∈ l, SentBelow ((l.foldl (restamp_ngbr cf env i) D).fb cf.my_id i) k := by
  induction l with
  | nil => intro D _ _ hrun _; exact ⟨Moves.refl D, hrun, fun k hk => absurd hk (by simp)⟩
  | cons j l ih =>
    intro D hinv hint hrun hl
    obtain ⟨h, hh, hb⟩ := restamp_ngbr_moves hinv hint hrun env hi (hl j (by simp))
    obtain ⟨h', hh', hb'⟩ := ih _ (h.inv hinv) (h.int_window hinv hint) hh
      (fun k hk => hl k (by simp [hk]))
    refine ⟨h.trans h', hh', fun k hk => ?_⟩
    rcases mem_cons.mp hk with rfl | hk
    · -- the rounds for the other neighbours keep it
      exact FlowRun.sentBelow (h' cf.my_id i) (h.inv hinv cf.my_id i) (hl k (by simp))
        (decide_eq_false hi) hb
    · exact hb' k hk

structure RestampRound (cf : Conf) (env : RestampEnv) (i : ℕ) (D D' : Daemon)
    (out : FlowBuffer × Bool × Bool) (e : ℕ) : Prop where
  other : i ≠ cf.my_id
  stop : RestampOut cf ⟨env.stamp i, env.sign_ok i⟩
    ((D.fb cf.my_id i).head_seq - (D.fb cf.my_id i).sow) (D.fb cf.my_id i).sow (D.fb cf.my_id i)
    false out e
  rest : Moves cf false false false { D with fb := set2 D.fb cf.my_id i out.1 } D'
  running : D'.halt = .running
  sent : out.2.2 = false → out.2.1 = true → ∀ k, cf.nbr k → SentBelow (D'.fb cf.my_id i) k

/-- **A round of `Reliable_Flood_Restamp`** rewrites masks and marks of one window
and goes on with elementary steps; it never ends the daemon. -/
theorem restamp_dest_round (hinv : Inv cf D) (hint : int_window cf D) (hrun : D.halt = .running)
    (env : RestampEnv) (i : ℕ) :
    restamp_dest cf env D i = D ∨
      ∃ out e, RestampRound cf env i D (restamp_dest cf env D i) out e := by
  unfold restamp_dest
  dsimp only
  by_cases hskip : D.halt ≠ .running ∨ i = cf.my_id ∨
      (D.fb cf.my_id i).sow = (D.fb cf.my_id i).head_seq
  · rw [if_pos hskip]
    exact .inl rfl
  rw [if_neg hskip]
  right
  have hi : i ≠ cf.my_id := fun h => hskip (.inr (.inl h))
  have hok := (hinv cf.my_id i).inv
  have hheld := hok.held
  dsimp only [Daemon.flow] at hok hheld
  have hle := hheld.sow_le
  have hle' := hheld.head_le
  obtain ⟨e, he⟩ := restamp_loop_spec cf ⟨env.stamp i, env.sign_ok i⟩
    ((D.fb cf.my_id i).head_seq - (D.fb cf.my_id i).sow) (D.fb cf.my_id i).sow (D.fb cf.my_id i)
    false (by omega) (fun q h1 h2 => hheld.stored q h1 (by omega))
  generalize restamp_loop cf ⟨env.stamp i, env.sign_ok i⟩
    ((D.fb cf.my_id i).head_seq - (D.fb cf.my_id i).sow) (D.fb cf.my_id i).sow (D.fb cf.my_id i)
    false = out at he ⊢
  set D1 : Daemon := { D with fb := set2 D.fb cf.my_id i out.1 } with hD1
  -- the loop keeps the buffer in order
  have hfb1 : FlowInv cf out.1 (fun k => (D.edge k).flow_aru cf.my_id i) := hok.restamped he
  have hinv1 : Inv cf D1 := by
    intro a b
    by_cases hab : a = cf.my_id ∧ b = i
    · obtain ⟨rfl, rfl⟩ := hab
      have hflow : D1.flow cf.my_id b = (out.1, fun k => (D.edge k).flow_aru cf.my_id b) := by
        simp only [Daemon.flow, hD1, set2_self]
      rw [hflow]
      exact ⟨hfb1, fun h => absurd (of_decide_eq_true h) hi⟩
    · have hflow : D1.flow a b = D.flow a b := by
        simp only [Daemon.flow, hD1, set2_of_ne _ _ hab]
      rw [hflow]
      exact hinv a b
  have hint1 : int_window cf D1 := by
    intro hadv hopt a b
    by_cases hab : a = cf.my_id ∧ b = i
    · obtain ⟨rfl, rfl⟩ := hab
      simp only [hD1, set2_self, he.fields.1, he.fields.2.1]
      exact hint hadv hopt cf.my_id b
    · simp only [hD1, set2_of_ne _ _ hab]
      exact hint hadv hopt a b
  split
  · rename_i herr
    exact ⟨out, e, hi, he, Moves.refl D1, hrun, fun h => by simp [h] at herr⟩
  split
  · obtain ⟨h, hh, hb⟩ := restamp_ngbrs_moves env hi (range' 1 cf.degree) D1 hinv1 hint1 hrun
      (fun k hk => by
        rw [mem_range'_1] at hk
        exact ⟨hk.1, by omega⟩)
    exact ⟨out, e, hi, he, h, hh, fun _ _ k hk => hb k (mem_range'_nbr hk)⟩
  · rename_i hflag
    exact ⟨out, e, hi, he, Moves.refl D1, hrun, fun _ h => absurd h hflag⟩

end Restamp

end Spines.RelFlood
