/-
One walk through the handlers.

Most invariants speak of the buffers, of the data toward the neighbours, or of both.
What a handler does to them it does by few operations: `KeepsQuiet` and `Keeps` list
those on a buffer, `LinkOp` those on the data toward one neighbour. For any relations
that keep the operations, a handler moves every buffer and the data toward every
neighbour within them (`Walked`).

Three handlers are not walked through: what a data packet does to the flow it belongs
to is a hypothesis here (`process_data`), the end-to-end acks change links and buffers
together and only the links are followed (`Links`), and the flags of the daemon are not
looked at.
-/
import Spines.RelFlood.Handlers

set_option autoImplicit false

namespace Spines.RelFlood

open Spines.Lib Function List

/-! ## 1. Relations between buffers -/

/-- The relation is an order, and what the handlers that send nothing do to a buffer
stays within it. -/
structure KeepsQuiet (cf : Conf) (R : FlowBuffer → FlowBuffer → Prop) : Prop where
  refl : ∀ fb, R fb fb
  trans : ∀ {fb fb' fb''}, R fb fb' → R fb' fb'' → R fb fb''
  move_up : ∀ fb guarded aru, R fb (fb.hbh_move_up cf (fun n => n) guarded aru)
  ack_loop : ∀ fb k aru fuel, R fb (ack_loop k aru fuel fb)
  unsend : ∀ fb k, R fb (fb.unsend k)

structure Keeps (cf : Conf) (R : FlowBuffer → FlowBuffer → Prop) : Prop extends
    KeepsQuiet cf R where
  move_up_int : cf.hbh_advance = true → cf.hbh_opt = false → ∀ fb aru,
    hbh_min int64u_of_int cf fb aru ≠ ULLONG_MAX →
      R fb (fb.hbh_move_up cf int64u_of_int true aru)
  restamp_loop : ∀ fb env cnt j flag, R fb (restamp_loop cf env cnt j fb flag).1
  mark_sent : ∀ fb k idx, R fb (fb.mark_sent k idx)
  resend : ∀ fb k, R fb (fb.resend k)

def Pointwise (R : FlowBuffer → FlowBuffer → Prop) (D D' : Daemon) : Prop :=
  ∀ s d, R (D.fb s d) (D'.fb s d)

/-! ## 2. Operations on the data toward a neighbour -/

inductive LinkOp : LinkData → LinkData → Prop
  /-- Entries of `ns_matrix` change. -/
  | arus (ld : LinkData) (aru sow : ℕ → ℕ → ℕ) :
      LinkOp ld { ld with flow_aru := aru, flow_sow := sow }
  | push_norm (ld : LinkData) (s d : ℕ) : LinkOp ld (ld.push_norm s d)
  | push_urgent (ld : LinkData) (s d : ℕ) : LinkOp ld (ld.push_urgent s d)
  | note_state (ld : LinkData) (s d : ℕ) : LinkOp ld (ld.note_state s d)
  | add_acks (ld : LinkData) (fb : ℕ → ℕ → FlowBuffer) (max_acks : ℕ) :
      LinkOp ld (reliable_flood_add_acks fb max_acks ld).1
  | defer {ld : LinkData} {e : FlowQueue} {urgent : List FlowQueue}
      (hu : ld.urgent = e :: urgent) (penalty : ℕ) :
      LinkOp ld { ld with urgent := urgent, norm := ld.norm ++ [{ e with penalty := penalty }] }
  | requeue {ld : LinkData} {e : FlowQueue} {norm : List FlowQueue} (hu : ld.urgent = [])
      (hn : ld.norm = e :: norm) (penalty : ℕ) :
      LinkOp ld { ld with norm := norm ++ [{ e with penalty := penalty }] }
  | drop {ld : LinkData} {e : FlowQueue} {norm : List FlowQueue} (hu : ld.urgent = [])
      (hn : ld.norm = e :: norm) :
      LinkOp ld { ld with
        norm := norm
        in_flow_queue := set2 ld.in_flow_queue e.src_id e.dest_id false }
  | charge_urgent {ld : LinkData} {e : FlowQueue} {urgent : List FlowQueue}
      (hu : ld.urgent = e :: urgent) (penalty : ℕ) :
      LinkOp ld { ld with urgent := { e with penalty := penalty } :: urgent }
  | charge_norm {ld : LinkData} {e : FlowQueue} {norm : List FlowQueue} (hu : ld.urgent = [])
      (hn : ld.norm = e :: norm) (penalty : ℕ) :
      LinkOp ld { ld with norm := { e with penalty := penalty } :: norm }
  | blocks {ld : LinkData} (block : ℕ → ℕ → Bool)
      (h : ∀ d s, block d s = true → ld.flow_block d s = true ∨
        ld.e2e_unsent d = true ∧ 1 ≤ s ∧ s ≤ MAX_NODES) :
      LinkOp ld { ld with flow_block := block }
  | e2e_insert {ld : LinkData} (t d : ℕ) (timeout : ℕ → ℕ) (h : ld.e2e_unsent d = false) :
      LinkOp ld { ld with
        e2e_unsent := Function.update ld.e2e_unsent d true
        e2e_timeout := timeout
        e2e_skl := ld.e2e_skl.orderedInsert (fun a b => a.1 ≤ b.1) (t, d) }
  | e2e_ready {ld : LinkData} (h : ld.e2e_skl ≠ []) : LinkOp ld { ld with e2e_ready := true }
  | e2e_sent {ld : LinkData} {t d : ℕ} {skl : List (ℕ × ℕ)} (h : ld.e2e_skl = (t, d) :: skl)
      (hb : ∀ s, 1 ≤ s → s ≤ MAX_NODES → ld.flow_block d s = false) (timeout : ℕ → ℕ) :
      LinkOp ld { ld with
        e2e_unsent := Function.update ld.e2e_unsent d false
        e2e_timeout := timeout
        e2e_skl := skl
        e2e_ready := false }
  /-- The first pending ack could not be sent and waits again. -/
  | e2e_retry {ld : LinkData} {t d : ℕ} {skl : List (ℕ × ℕ)} (h : ld.e2e_skl = (t, d) :: skl)
      (t' : ℕ) (timeout : ℕ → ℕ) :
      LinkOp ld { ld with
        e2e_unsent := Function.update ld.e2e_unsent d true
        e2e_timeout := timeout
        e2e_skl := skl.orderedInsert (fun a b => a.1 ≤ b.1) (t', d)
        e2e_ready := false }

abbrev LinkRun : LinkData → LinkData → Prop := Relation.ReflTransGen LinkOp

structure LinksQuiet (L : LinkData → LinkData → Prop) : Prop where
  refl : ∀ ld, L ld ld
  trans : ∀ {ld ld' ld''}, L ld ld' → L ld' ld'' → L ld ld''
  push_norm : ∀ ld s d, L ld (ld.push_norm s d)
  push_urgent : ∀ ld s d, L ld (ld.push_urgent s d)
  other : ∀ {ld ld'}, LinkOp ld ld' → ld'.urgent = ld.urgent → ld'.norm = ld.norm →
    ld'.in_flow_queue = ld.in_flow_queue → L ld ld'

structure LinksKept (L : LinkData → LinkData → Prop) : Prop extends LinksQuiet L where
  op : ∀ {ld ld'}, LinkOp ld ld' → L ld ld'

theorem linkRun_kept : LinksKept LinkRun where
  refl _ := .refl
  trans h h' := h.trans h'
  push_norm ld s d := .single (.push_norm ld s d)
  push_urgent ld s d := .single (.push_urgent ld s d)
  other h _ _ _ := .single h
  op h := .single h

/-! ## 3. Handlers within two relations -/

structure Walked (cf : Conf) (L : LinkData → LinkData → Prop) (R : FlowBuffer → FlowBuffer → Prop)
    (D D' : Daemon) : Prop where
  links : ∀ k, L (D.edge k) (D'.edge k)
  bufs : Pointwise R D D'
  e2e : ∀ d, d ≠ cf.my_id → D'.e2e d = D.e2e d

structure QuietWalk (cf : Conf) (L : LinkData → LinkData → Prop)
    (R : FlowBuffer → FlowBuffer → Prop) : Prop where
  links : LinksQuiet L
  bufs : KeepsQuiet cf R

structure FullWalk (cf : Conf) (L : LinkData → LinkData → Prop)
    (R : FlowBuffer → FlowBuffer → Prop) : Prop where
  links : LinksKept L
  bufs : Keeps cf R

section Relations

variable {cf : Conf} {L : LinkData → LinkData → Prop} {R : FlowBuffer → FlowBuffer → Prop}
  {D D' D'' : Daemon}

theorem FullWalk.quiet (h : FullWalk cf L R) : QuietWalk cf L R :=
  ⟨h.links.toLinksQuiet, h.bufs.toKeepsQuiet⟩

theorem KeepsQuiet.walk (h : KeepsQuiet cf R) : QuietWalk cf (fun _ _ => True) R :=
  ⟨⟨fun _ => trivial, fun _ _ => trivial, fun _ _ _ => trivial, fun _ _ _ => trivial,
    fun _ _ _ _ => trivial⟩, h⟩

theorem Keeps.walk (h : Keeps cf R) : FullWalk cf (fun _ _ => True) R :=
  ⟨⟨h.toKeepsQuiet.walk.links, fun _ => trivial⟩, h⟩

theorem LinksQuiet.walk (h : LinksQuiet L) : QuietWalk cf L (fun _ _ => True) :=
  ⟨h, fun _ => trivial, fun _ _ => trivial, fun _ _ _ => trivial, fun _ _ _ _ => trivial,
    fun _ _ => trivial⟩

theorem LinksQuiet.on_edge (h : LinksQuiet L) (k : ℕ) {ld : LinkData}
    (hedge : D'.edge = update D.edge k ld) (hld : L (D.edge k) ld) (j : ℕ) :
    L (D.edge j) (D'.edge j) := by
  rw [hedge]
  by_cases hj : j = k
  · rw [hj, update_self]
    exact hld
  · rw [update_of_ne hj]
    exact h.refl _

theorem LinksQuiet.each (h : LinksQuiet L) {f : ℕ → LinkData} (hf : ∀ k, L (D.edge k) (f k))
    (hedge : D'.edge = cf.each f D.edge) (j : ℕ) : L (D.edge j) (D'.edge j) := by
  rw [hedge]
  by_cases hj : cf.nbr j
  · rw [Conf.each_nbr _ _ hj]
    exact hf j
  · rw [Conf.each_other _ _ hj]
    exact h.refl _

theorem LinksQuiet.note_if (h : LinksQuiet L) (p : Bool) (s d : ℕ) (ld : LinkData) :
    L ld (if p = true then ld.note_state s d else ld) := by
  split
  · refine h.other (.note_state ld s d) ?_ ?_ ?_
    all_goals
      unfold LinkData.note_state
      split <;> rfl
  · exact h.refl ld

variable (h : QuietWalk cf L R)

include h

theorem QuietWalk.edges (hedge : ∀ k, L (D.edge k) (D'.edge k)) (hfb : D'.fb = D.fb)
    (he : D'.e2e = D.e2e) : Walked cf L R D D' :=
  ⟨hedge, fun s d => by rw [hfb]; exact h.bufs.refl _, fun d _ => by rw [he]⟩

theorem QuietWalk.still (hedge : D'.edge = D.edge) (hfb : D'.fb = D.fb) (he : D'.e2e = D.e2e) :
    Walked cf L R D D' :=
  h.edges (fun k => by rw [hedge]; exact h.links.refl _) hfb he

theorem QuietWalk.same (D : Daemon) : Walked cf L R D D := h.still rfl rfl rfl

theorem QuietWalk.seq (h1 : Walked cf L R D D') (h2 : Walked cf L R D' D'') : Walked cf L R D D'' :=
  ⟨fun k => h.links.trans (h1.links k) (h2.links k),
    fun s d => h.bufs.trans (h1.bufs s d) (h2.bufs s d),
    fun d hd => (h2.e2e d hd).trans (h1.e2e d hd)⟩

theorem QuietWalk.on_edge (D : Daemon) (k : ℕ) {f : LinkData → LinkData}
    (hf : L (D.edge k) (f (D.edge k))) : Walked cf L R D (D.on_edge k f) :=
  h.edges (h.links.on_edge k rfl hf) rfl rfl

theorem QuietWalk.set_edge (D : Daemon) (k : ℕ) {ld : LinkData} (hld : L (D.edge k) ld) :
    Walked cf L R D (D.on_edge k (fun _ => ld)) := h.on_edge D k hld

theorem QuietWalk.buffer (D : Daemon) (s d : ℕ) (fb : FlowBuffer) (hfb : R (D.fb s d) fb) :
    Walked cf L R D { D with fb := set2 D.fb s d fb } := by
  refine ⟨fun k => h.links.refl _, fun a b => ?_, fun _ _ => rfl⟩
  dsimp only
  by_cases hab : a = s ∧ b = d
  · rw [hab.1, hab.2, set2_self]
    exact hfb
  · rw [set2_of_ne _ _ hab]
    exact h.bufs.refl _

theorem QuietWalk.foldl {ι : Type*} {f : Daemon → ι → Daemon}
    (hf : ∀ D i, Walked cf L R D (f D i)) (l : List ι) (D : Daemon) :
    Walked cf L R D (l.foldl f D) := by
  induction l generalizing D with
  | nil => exact h.same D
  | cons i l ih => exact h.seq (hf D i) (ih (f D i))

end Relations

/-! ## 4. Receiving -/

section Receive

variable {cf : Conf} {L : LinkData → LinkData → Prop} {R : FlowBuffer → FlowBuffer → Prop}

theorem KeepsQuiet.acked_buffer (h : KeepsQuiet cf R) (hop : ℕ) (ack : HbhAck)
    (D : Daemon) : R (D.fb ack.src ack.dest) (acked_buffer cf hop ack D) := by
  unfold RelFlood.acked_buffer
  dsimp only
  split
  · exact h.ack_loop _ _ _ _
  · exact h.refl _

theorem LinksQuiet.data_link (h : LinksQuiet L) (hop : ℕ) (m : Msg) (state_change : Bool)
    (fb : FlowBuffer) (k : ℕ) (ld : LinkData) :
    L ld (data_link cf hop m state_change fb k ld) := by
  unfold RelFlood.data_link
  refine h.trans ?_ (h.note_if state_change m.src m.dest _)
  split
  · exact h.other (.arus ld _ ld.flow_sow) rfl rfl rfl
  · split
    · exact h.push_urgent ld m.src m.dest
    · exact h.refl ld

variable (h : QuietWalk cf L R)

include h

variable (hop : ℕ)

theorem QuietWalk.ack_aru (ack : HbhAck) (D : Daemon) :
    Walked cf L R D (ack_aru cf hop ack D) := by
  refine ⟨?_, fun s d => ?_, fun d _ => ?_⟩
  · have h1 := (h.on_edge D hop
      (f := fun ld => { ld with flow_aru := set2 ld.flow_aru ack.src ack.dest ack.value })
      (h.links.other (.arus _ _ (D.edge hop).flow_sow) rfl rfl rfl)).links
    unfold RelFlood.ack_aru
    dsimp only
    split
    · exact fun k => h.links.trans (h1 k)
        (h.links.each (fun k => h.links.note_if _ ack.src ack.dest _) rfl k)
    · exact h1
  · have hacked := h.bufs.acked_buffer hop ack D
    have hbuffer := (h.buffer D ack.src ack.dest
      (if cf.hbh_advance = true then
        (acked_buffer cf hop ack D).hbh_move_up cf (fun n => n) true
          (acked_aru hop ack D)
      else acked_buffer cf hop ack D) (by
        split
        · exact h.bufs.trans hacked (h.bufs.move_up _ _ _)
        · exact hacked)).bufs s d
    rwa [ack_aru_fb]
  · unfold RelFlood.ack_aru
    dsimp only
    split <;> rfl

theorem QuietWalk.process_ack (ack : HbhAck) (D : Daemon) :
    Walked cf L R D (process_ack cf hop ack D) := by
  unfold RelFlood.process_ack
  dsimp only
  split
  · exact h.same D
  have h1 : Walked cf L R D (D.on_edge hop (fun ld =>
      { ld with
        flow_sow :=
          set2 ld.flow_sow ack.src ack.dest (max (ld.flow_sow ack.src ack.dest) ack.sow) })) :=
    h.on_edge D _ (h.links.other (.arus _ (D.edge hop).flow_aru _) rfl rfl rfl)
  have h2 : ∀ D1 : Daemon, Walked cf L R D1
      (if (D1.edge hop).flow_aru ack.src ack.dest < ack.aru then
        RelFlood.ack_aru cf hop ack D1 else D1) := by
    intro D1
    split
    · exact h.ack_aru hop ack D1
    · exact h.same D1
  have h3 : ∀ D2 : Daemon, Walked cf L R D2
      (if (D2.fb ack.src ack.dest).next_seq hop <
            int64u ((D2.edge hop).flow_sow ack.src ack.dest + MAX_MESS_PER_FLOW) ∧
          (D2.fb ack.src ack.dest).has_next cf hop then
        D2.on_edge hop (LinkData.push_norm ack.src ack.dest) else D2) := by
    intro D2
    split
    · exact h.on_edge D2 hop (h.links.push_norm _ _ _)
    · exact h.same D2
  exact h.seq (h.seq h1 (h2 _)) (h3 _)

theorem QuietWalk.after_acks (acks : List HbhAck) (D : Daemon) :
    Walked cf L R D (after_acks cf hop acks D) := by
  have hloop : ∀ (acks : List HbhAck) (D : Daemon),
      Walked cf L R D (reliable_flood_process_acks cf hop acks D).1 := by
    intro acks
    induction acks with
    | nil => intro D; exact h.same D
    | cons ack acks ih =>
      intro D
      rw [reliable_flood_process_acks]
      split
      · exact h.same D
      · split
        · exact h.same D
        · exact h.seq (h.process_ack hop ack D) (ih _)
  have h1 : Walked cf L R D { D with rf_state_change := false } := h.still rfl rfl rfl
  exact h.seq h1 (hloop acks _)

theorem QuietWalk.process_data (m : Msg) (D : Daemon) (haccept : ∀ restamped np aru,
      R (D.fb m.src m.dest) ((D.fb m.src m.dest).accept cf hop m restamped np aru))
    (hdup : R (D.fb m.src m.dest) ((D.fb m.src m.dest).duplicate cf hop m.seq_num)) :
    Walked cf L R D (reliable_flood_process_data cf hop m D).1 := by
  have hfb : ∀ restamped, Walked cf L R D
      (accept_data cf hop m restamped
        { D with e2e_stop := D.e2e_stop || !cf.e2e_opt }) := by
    intro restamped
    refine h.seq (h.buffer D m.src m.dest _ (haccept restamped D.num_paths_snapshot
      (fun j => (D.edge j).flow_aru m.src m.dest))) (h.edges ?_ rfl rfl)
    exact h.links.each (fun k => h.links.data_link hop m _ _ k _) rfl
  unfold reliable_flood_process_data
  dsimp only
  split
  · exact h.still rfl rfl rfl
  · exact h.still rfl rfl rfl
  · exact h.seq (h.buffer D m.src m.dest _ hdup) (h.still rfl rfl rfl)
  · exact hfb false
  · exact hfb true

/-! ## 5. Timers and neighbours -/

theorem QuietWalk.gen_e2e (now : ℕ) (send : Bool) (D : Daemon) :
    Walked cf L R D (reliable_flood_gen_e2e cf now send D) := by
  unfold reliable_flood_gen_e2e
  dsimp only
  split
  · exact h.same D
  split
  · exact h.same D
  set e2e := if D.initial_e2e = true then D.e2e
    else update D.e2e cf.my_id { D.e2e cf.my_id with cell := gen_cell cf D } with he2e
  have h1 : Walked cf L R D { D with e2e := e2e, initial_e2e := false } := by
    refine ⟨(h.same D).links, (h.same D).bufs, fun d hd => ?_⟩
    dsimp only
    rw [he2e]
    split
    · rfl
    · rw [update_of_ne hd]
  split
  · refine h.seq h1 (h.edges (h.links.each (fun k => ?_) rfl) rfl rfl)
    dsimp only
    split
    · exact h.links.refl _
    · rename_i hun
      exact h.links.other (.e2e_insert now cf.my_id (D.edge k).e2e_timeout (by simpa using hun))
        rfl rfl rfl
  · exact h1

theorem QuietWalk.neighbor_transfer (k : ℕ) (D : Daemon) :
    Walked cf L R D (reliable_flood_neighbor_transfer cf k D) := by
  have hflow : ∀ (d : ℕ) (D : Daemon) (s : ℕ), Walked cf L R D (transfer_flow cf k d D s) := by
    intro d D s
    have h1 : Walked cf L R D { D with fb := set2 D.fb s d ((D.fb s d).unsend k) } :=
      h.buffer D s d _ (h.bufs.unsend _ _)
    unfold transfer_flow
    dsimp only
    split
    · exact h.seq h1 (h.on_edge _ k (h.links.push_urgent _ s d))
    · exact h1
  refine h.foldl (fun D d => ?_) _ D
  unfold transfer_dest
  dsimp only
  refine h.seq ?_ (h.foldl (hflow d) _ _)
  split
  · rename_i hun
    refine h.on_edge D k ?_
    -- the ack is pending before the flows are blocked behind it
    refine h.links.trans (h.links.other (.e2e_insert
      ((D.edge k).e2e_timeout d + cf.e2e_ack_timeout) d (update (D.edge k).e2e_timeout d
        ((D.edge k).e2e_timeout d + cf.e2e_ack_timeout)) hun.1) rfl rfl rfl)
      (h.links.other (.blocks _ ?_) rfl rfl rfl)
    intro a s hblock
    dsimp only at hblock ⊢
    split at hblock
    · rename_i has
      obtain ⟨rfl, hs⟩ := has
      exact .inr ⟨update_self _ _ _, hs⟩
    · exact .inl hblock
  · exact h.same D

theorem QuietWalk.e2e_event (k : ℕ) (D : Daemon) :
    Walked cf L R D (reliable_flood_e2e_event k D) := by
  refine h.on_edge D k ?_
  split
  · exact h.links.refl _
  · rename_i hskl
    exact h.links.other (.e2e_ready hskl) rfl rfl rfl

theorem QuietWalk.send_move_up (s d : ℕ) (D : Daemon)
    (hup : hbh_min int64u_of_int cf (D.fb s d) (fun j => (D.edge j).flow_aru s d) ≠ ULLONG_MAX →
      R (D.fb s d) ((D.fb s d).hbh_move_up cf int64u_of_int true
        (fun j => (D.edge j).flow_aru s d))) : Walked cf L R D (send_move_up cf s d D) := by
  unfold RelFlood.send_move_up
  dsimp only
  split
  · exact h.still rfl rfl rfl
  · rename_i hmin
    exact h.seq (h.buffer D s d _ (hup hmin))
      (h.edges (h.links.each (fun j => h.links.note_if _ s d _) rfl) rfl rfl)

end Receive

/-! ## 6. Sending -/

section Send

variable (cf : Conf) {L : LinkData → LinkData → Prop} {R : FlowBuffer → FlowBuffer → Prop}
  (k d : ℕ) (fb : ℕ → ℕ → FlowBuffer) (ld : LinkData) (i : ℕ)

def LinkData.with_e2e (ld : LinkData) (unsent : ℕ → Bool) (timeout : ℕ → ℕ)
    (skl : List (ℕ × ℕ)) : LinkData :=
  { ld with e2e_unsent := unsent, e2e_timeout := timeout, e2e_skl := skl, e2e_ready := false }

theorem unblock_flow_with_e2e (unsent : ℕ → Bool) (timeout : ℕ → ℕ) (skl : List (ℕ × ℕ)) :
    unblock_flow cf k d fb (ld.with_e2e unsent timeout skl) i =
      (unblock_flow cf k d fb ld i).with_e2e unsent timeout skl := by
  unfold unblock_flow LinkData.push_norm LinkData.with_e2e
  dsimp only
  split
  · split <;> rfl
  · rfl

theorem unblock_flows_with_e2e (unsent : ℕ → Bool) (timeout : ℕ → ℕ) (skl : List (ℕ × ℕ))
    (l : List ℕ) (ld : LinkData) :
    l.foldl (unblock_flow cf k d fb) (ld.with_e2e unsent timeout skl) =
      (l.foldl (unblock_flow cf k d fb) ld).with_e2e unsent timeout skl := by
  induction l generalizing ld with
  | nil => rfl
  | cons i l ih => rw [foldl_cons, foldl_cons, unblock_flow_with_e2e, ih]

theorem LinksQuiet.unblock_flow (h : LinksQuiet L) : L ld (unblock_flow cf k d fb ld i) := by
  have h1 : L ld { ld with flow_block := set2 ld.flow_block d i false } := by
    refine h.other (.blocks _ (fun a s hblock => .inl ?_)) rfl rfl rfl
    by_cases has : a = d ∧ s = i
    · rw [has.1, has.2, set2_self] at hblock
      exact absurd hblock (by simp)
    · rwa [set2_of_ne _ _ has] at hblock
  unfold RelFlood.unblock_flow
  split
  · exact h.trans h1 (h.push_norm _ _ _)
  · exact h1

theorem LinksQuiet.unblock_flows (h : LinksQuiet L) (l : List ℕ) (ld : LinkData) :
    L ld (l.foldl (RelFlood.unblock_flow cf k d fb) ld) ∧
      (l.foldl (RelFlood.unblock_flow cf k d fb) ld).e2e_skl = ld.e2e_skl ∧
      (l.foldl (RelFlood.unblock_flow cf k d fb) ld).e2e_unsent = ld.e2e_unsent ∧
      ∀ s, (s ∈ l ∨ ld.flow_block d s = false) →
        (l.foldl (RelFlood.unblock_flow cf k d fb) ld).flow_block d s = false := by
  induction l generalizing ld with
  | nil => exact ⟨h.refl ld, rfl, rfl, fun s hs => hs.resolve_left (by simp)⟩
  | cons i l ih =>
    obtain ⟨h1, h2, h3, h4⟩ := ih (RelFlood.unblock_flow cf k d fb ld i)
    have hfields : (RelFlood.unblock_flow cf k d fb ld i).e2e_skl = ld.e2e_skl ∧
        (RelFlood.unblock_flow cf k d fb ld i).e2e_unsent = ld.e2e_unsent ∧
        (RelFlood.unblock_flow cf k d fb ld i).flow_block = set2 ld.flow_block d i false := by
      unfold RelFlood.unblock_flow LinkData.push_norm
      dsimp only
      split
      · split <;> exact ⟨rfl, rfl, rfl⟩
      · exact ⟨rfl, rfl, rfl⟩
    obtain ⟨e1, e2, e3⟩ := hfields
    refine ⟨h.trans (unblock_flow cf k d fb ld i h) h1, h2.trans e1, h3.trans e2, fun s hs => ?_⟩
    refine h4 s ?_
    rw [e3]
    by_cases hsi : s = i
    · exact .inr (by rw [hsi, set2_self])
    · rw [set2_of_ne _ _ (fun h => hsi h.2)]
      rcases hs with hs | hs
      · exact .inl ((mem_cons.mp hs).resolve_left hsi)
      · exact .inr hs

variable {cf}

theorem QuietWalk.send_e2e (h : QuietWalk cf L R) (k : ℕ) (env : SendEnv) (D : Daemon) :
    Walked cf L R D (reliable_flood_send_e2e cf k env D).1 := by
  unfold reliable_flood_send_e2e
  split
  · exact h.same D
  · rename_i t d skl hskl
    set ld := (reliable_flood_add_acks D.fb env.max_acks (D.edge k)).1
    have hacks : L (D.edge k) ld := h.links.other (.add_acks _ D.fb env.max_acks) rfl rfl rfl
    have hskl' : ld.e2e_skl = (t, d) :: skl := hskl
    split
    · refine h.set_edge D k ?_
      have hcomm := unblock_flows_with_e2e cf k d D.fb
        (update ld.e2e_unsent d false) (update ld.e2e_timeout d env.now) skl
        (range' 1 MAX_NODES) ld
      unfold LinkData.with_e2e at hcomm
      obtain ⟨hrun, hs, hu, hb⟩ := LinksQuiet.unblock_flows cf k d D.fb h.links
        (range' 1 MAX_NODES) ld
      rw [hcomm, ← hu]
      refine h.links.trans (h.links.trans hacks hrun)
        (h.links.other (.e2e_sent (hs.trans hskl') (fun s h1 h2 => hb s ?_) _) rfl rfl rfl)
      exact .inl (mem_range'_1.mpr ⟨h1, by omega⟩)
    · exact h.set_edge D k
        (h.links.trans hacks (h.links.other (.e2e_retry hskl' _ _) rfl rfl rfl))

theorem LinksKept.scan_queues (h : LinksKept L) (cf : Conf) (D : Daemon) (k : ℕ) :
    ∀ (fuel : ℕ) (ld : LinkData), L ld (scan_queues cf D k fuel ld).1 := by
  intro fuel
  induction fuel with
  | zero => exact h.refl
  | succ fuel ih =>
    intro ld
    rw [RelFlood.scan_queues]
    split
    · rename_i e urgent hu
      split
      · exact h.trans (h.op (.defer hu _)) (ih _)
      · exact h.op (.charge_urgent hu _)
    · rename_i e norm hu hn
      split
      · exact h.trans (h.op (.requeue hu hn _)) (ih _)
      · split
        · exact h.trans (h.op (.drop hu hn)) (ih _)
        · exact h.op (.charge_norm hu hn _)
    · exact h.refl ld

theorem LinksKept.rotate (h : LinksKept L) (packets : ℕ) (ld : LinkData) :
    L ld (ld.rotate packets) := by
  unfold LinkData.rotate
  split
  · rename_i e urgent hu
    exact h.op (.defer hu _)
  · rename_i e norm hu hn
    exact h.op (.requeue hu hn _)
  · exact h.refl ld

theorem LinksKept.refund (h : LinksKept L) (ld : LinkData) : L ld ld.refund := by
  unfold LinkData.refund
  split
  · rename_i e urgent hu
    exact h.op (.charge_urgent hu _)
  · rename_i e norm hu hn
    exact h.op (.charge_norm hu hn _)
  · exact h.refl ld

variable (h : FullWalk cf L R)

include h

theorem FullWalk.send_data (k : ℕ) (env : SendEnv) (D : Daemon) :
    Walked cf L R D (reliable_flood_send_data cf k env D).1 := by
  have hscan := h.links.scan_queues cf D k (scan_fuel (D.edge k)) (D.edge k)
  unfold reliable_flood_send_data
  generalize RelFlood.scan_queues cf D k (scan_fuel (D.edge k)) (D.edge k) = scan at hscan ⊢
  obtain ⟨ld, o⟩ := scan
  dsimp only at hscan ⊢
  have h1 : Walked cf L R D (D.on_edge k (fun _ => ld)) := h.quiet.on_edge D k hscan
  have hfb : (D.on_edge k (fun _ => ld)).fb = D.fb := rfl
  have hld : (D.on_edge k (fun _ => ld)).edge k = ld := on_edge_self _ _ _
  cases o with
  | none => exact h1
  | some e =>
    simp only [hfb, hld]
    split
    · exact h.quiet.seq h1 (h.quiet.still rfl rfl rfl)
    · rename_i m hm
      have hacks : L ld (reliable_flood_add_acks D.fb env.max_acks ld).1 :=
        h.links.op (.add_acks ld D.fb env.max_acks)
      split
      · -- sent: the entry goes to the back, the message is marked
        have hrot : L ((D.on_edge k (fun _ => ld)).edge k)
            ((reliable_flood_add_acks D.fb env.max_acks ld).1.rotate env.packets) := by
          rw [hld]
          exact h.links.trans hacks (h.links.rotate _ _)
        have h2 := h.quiet.seq h1 (h.quiet.set_edge _ k hrot)
        have h3 := h.quiet.seq h2 (h.quiet.buffer _ e.src_id e.dest_id
          ((D.fb e.src_id e.dest_id).mark_sent k
            (slot ((D.fb e.src_id e.dest_id).next_seq k))) (h.bufs.mark_sent _ _ _))
        split
        · rename_i hadv
          exact h.quiet.seq h3 (h.quiet.send_move_up _ _ _
            (h.bufs.move_up_int hadv.1 hadv.2 _ _))
        · exact h3
      · refine h.quiet.seq h1 (h.quiet.set_edge _ k ?_)
        rw [hld]
        exact h.links.trans hacks (h.links.refund _)

theorem FullWalk.send_one (k : ℕ) (env : SendEnv) (D : Daemon) :
    Walked cf L R D (reliable_flood_send_one cf k env D).1 := by
  unfold reliable_flood_send_one
  split
  · exact h.quiet.same D
  split
  · exact h.quiet.set_edge D k (h.links.op (.add_acks _ D.fb env.max_acks))
  split
  · exact h.quiet.send_e2e k env D
  have hsent := h.send_data k env D
  dsimp only
  split
  · exact hsent
  split
  · exact h.quiet.seq hsent (h.quiet.set_edge _ k (h.links.op (.add_acks _ _ env.max_acks)))
  · exact hsent

theorem FullWalk.restamp_ngbr (env : RestampEnv) (i : ℕ) (D : Daemon) (k : ℕ) :
    Walked cf L R D (restamp_ngbr cf env i D k) := by
  unfold RelFlood.restamp_ngbr
  dsimp only
  split
  · exact h.quiet.same D
  split
  · exact h.quiet.still rfl rfl rfl
  have h1 := h.quiet.buffer D cf.my_id i ((D.fb cf.my_id i).resend k) (h.bufs.resend _ _)
  split
  · have h2 := h.quiet.seq h1 (h.quiet.on_edge _ k (h.links.push_urgent _ cf.my_id i))
    split
    · exact h.quiet.seq h2 (h.quiet.foldl (fun D e => h.send_one i e D) _ _)
    · exact h2
  · exact h1

theorem FullWalk.restamp_dest (env : RestampEnv) (D : Daemon) (i : ℕ) :
    Walked cf L R D (restamp_dest cf env D i) := by
  unfold RelFlood.restamp_dest
  dsimp only
  split
  · exact h.quiet.same D
  have h1 := h.quiet.buffer D cf.my_id i _ (h.bufs.restamp_loop (D.fb cf.my_id i)
    ⟨env.stamp i, env.sign_ok i⟩ ((D.fb cf.my_id i).head_seq - (D.fb cf.my_id i).sow)
    (D.fb cf.my_id i).sow false)
  split
  · exact h1
  split
  · exact h.quiet.seq h1 (h.quiet.foldl (h.restamp_ngbr env i) _ _)
  · exact h1

theorem FullWalk.handle (D : Daemon) (e : Event) (hin : e.Internal) :
    Walked cf L R D (handle cf D e) := by
  cases e with
  | packet | client => exact hin.elim
  | gen_e2e now send => exact h.quiet.gen_e2e now send D
  | neighbor_transfer j => exact h.quiet.neighbor_transfer j D
  | e2e_event j => exact h.quiet.e2e_event j D
  | send_one j env => exact h.send_one j env D
  | restamp env i => exact h.restamp_dest env D i

end Send

end Spines.RelFlood
