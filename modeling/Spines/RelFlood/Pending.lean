/-
What waits to be sent to a neighbour.

Toward every neighbour a daemon keeps two lists ordered by time, one of
end-to-end acks and one of status changes. Beside each stand a table of flags
that says what is on it and a flag `ready` that makes `Reliable_Flood_Send_One`
serve the list before any data; beside the first there is also the table of the
flows that wait for an ack to go out first. This file puts the two halves of the
state together (`Node`) and shows that lists and flags always agree
(`pending_acks_and_status_changes`).
-/
import Spines.RelFlood.Status

set_option autoImplicit false

namespace Spines.RelFlood

open Spines.Lib Function List

/-! ## 1. Both halves of a daemon -/

structure Node where
  D : Daemon
  S : StatusState

/-- `Init_Reliable_Flooding`. -/
def Node.init (cf : Conf) (sec : ℕ) : Node where
  D := init_reliable_flooding cf sec
  S := StatusState.init cf

/-- `Reliable_Flood_Send_One`, with the packet it sent: a status change if the flag
for them is set, then an end-to-end ack, then data, then acks alone. -/
def Node.send_one (cf : Conf) (sc : StatusConf) (k : ℕ) (env : SendEnv) (N : Node) :
    Node × Option Packet :=
  if N.D.halt ≠ .running then (N, none)
  else if (N.S.link k).ready then
    match (N.S.link k).skl with
    | [] => (N, none)
    | _ :: _ =>
      let out := send_status_change cf sc k env N.S
      let sent := reliable_flood_send_one cf k
        { env with status_change := true, forward_ok := out.2.isSome } N.D
      (⟨sent.1, out.1⟩, sent.2)
  else
    let sent := reliable_flood_send_one cf k { env with status_change := false } N.D
    (⟨sent.1, N.S⟩, sent.2)

inductive NodeEvent
  | status_change (sec last_hop_index : ℕ) (verified : Bool) (acks : List HbhAck) (m : StatusChange)
  | generate (ngbr_id status : ℕ)
  | gen_status_change (now : ℕ)
  | status_change_event (k : ℕ)
  | send_one (k : ℕ) (env : SendEnv)
  | neighbor_transfer (k : ℕ)
  /-- A round of `Reliable_Flood_Restamp`. The calls of `Reliable_Flood_Send_One` it
  makes may also send status changes; `sends` are those calls. -/
  | restamp (env : RestampEnv) (i : ℕ) (sends : List SendEnv)
  | other (e : Event)

def Event.no_status : Event → Prop
  | .packet _ _ _ ⟨.status_change, _⟩ => False
  | .neighbor_transfer _ => False
  | .send_one _ _ => False
  | .restamp _ _ => False
  | _ => True

def NodeEvent.Ok (cf : Conf) : NodeEvent → Prop
  | status_change _ k _ _ _ => cf.nbr k
  | status_change_event k => cf.nbr k
  | send_one k _ => cf.nbr k
  | neighbor_transfer k => cf.nbr k
  | other e => e.Ok cf ∧ e.no_status
  | _ => True

def Node.handle (cf : Conf) (sc : StatusConf) (N : Node) : NodeEvent → Node
  | .status_change sec k verified acks m =>
    { D := RelFlood.handle cf N.D (.packet sec k verified ⟨.status_change, acks⟩)
      S := if verified then N.S.handle cf sc (.receive k m) else N.S }
  | .generate ngbr_id status =>
    { N with S := N.S.handle cf sc (.generate (N.D.flow_source_epoch cf.my_id) ngbr_id status) }
  | .gen_status_change now => { N with S := N.S.handle cf sc (.gen now) }
  | .status_change_event k => { N with S := N.S.handle cf sc (.ready k) }
  | .send_one k env => (N.send_one cf sc k env).1
  | .neighbor_transfer k =>
    { D := RelFlood.handle cf N.D (.neighbor_transfer k)
      S := N.S.handle cf sc (.transfer k) }
  | .restamp env i sends =>
    { D := RelFlood.handle cf N.D (.restamp env i)
      S := sends.foldl (fun S env => S.handle cf sc (.send i env)) N.S }
  | .other e => { N with D := RelFlood.handle cf N.D e }

def Node.Step (cf : Conf) (sc : StatusConf) (N : Node) (e : NodeEvent) (N' : Node) : Prop :=
  N.D.halt = .running ∧ e.Ok cf ∧ N' = N.handle cf sc e

theorem node_send_one_cases (cf : Conf) (sc : StatusConf) (k : ℕ) (env : SendEnv) (N : Node) :
    (N.send_one cf sc k env).1 = N ∨
    (∃ env', (N.send_one cf sc k env).1.D = (reliable_flood_send_one cf k env' N.D).1) ∧
      ((N.send_one cf sc k env).1.S = N.S ∨
        (N.send_one cf sc k env).1.S = N.S.handle cf sc (.send k env)) := by
  unfold Node.send_one
  split
  · exact .inl rfl
  · split
    · rename_i hready
      split
      · exact .inl rfl
      · refine .inr ⟨⟨_, rfl⟩, .inr ?_⟩
        rw [StatusState.handle, if_pos hready]
    · exact .inr ⟨⟨_, rfl⟩, .inl rfl⟩

theorem node_step_halves {cf : Conf} {sc : StatusConf} {N N' : Node} {e : NodeEvent}
    (h : N.Step cf sc e N') :
    (N'.D = N.D ∨ ∃ e', Step cf N.D e' N'.D) ∧
      ∃ es : List StatusEvent, N'.S = es.foldl (StatusState.handle cf sc) N.S := by
  obtain ⟨hrun, hok, rfl⟩ := h
  cases e with
  | status_change sec k verified acks m =>
    refine ⟨.inr ⟨.packet sec k verified ⟨.status_change, acks⟩, hrun, hok, ?_⟩,
      if verified then [.receive k m] else [], ?_⟩
    · rw [Node.handle]
    · rw [Node.handle]
      split
      · rw [foldl_cons, foldl_nil]
      · rw [foldl_nil]
  | generate nid status =>
    exact ⟨.inl rfl, [.generate (N.D.flow_source_epoch cf.my_id) nid status], rfl⟩
  | gen_status_change now => exact ⟨.inl rfl, [.gen now], rfl⟩
  | status_change_event k => exact ⟨.inl rfl, [.ready k], rfl⟩
  | send_one k env =>
    rw [Node.handle]
    rcases node_send_one_cases cf sc k env N with h | ⟨⟨env', hD⟩, hS⟩
    · rw [h]
      exact ⟨.inl rfl, [], rfl⟩
    · refine ⟨.inr ⟨.send_one k env', hrun, hok, ?_⟩, ?_⟩
      · rw [hD, RelFlood.handle]
      · rcases hS with hS | hS
        · exact ⟨[], hS⟩
        · exact ⟨[.send k env], hS⟩
  | neighbor_transfer k =>
    refine ⟨.inr ⟨.neighbor_transfer k, hrun, hok, ?_⟩, [.transfer k], ?_⟩
    · rw [Node.handle]
    · rw [Node.handle, foldl_cons, foldl_nil]
  | restamp env i sends =>
    refine ⟨.inr ⟨.restamp env i, hrun, trivial, ?_⟩, sends.map (fun env => .send i env), ?_⟩
    · rw [Node.handle]
    · rw [Node.handle, foldl_map]
  | other e => exact ⟨.inr ⟨e, hrun, hok.1, rfl⟩, [], rfl⟩

theorem node_run_daemon {cf : Conf} {sc : StatusConf} {sec : ℕ} {N : Node}
    (h : Run (Node.Step cf sc) (Node.init cf sec) N) :
    Run (Step cf) (init_reliable_flooding cf sec) N.D := by
  refine h.invariant (fun N => Run (Step cf) (init_reliable_flooding cf sec) N.D) (Run.refl _) ?_
  intro N e N' ih hstep
  rcases (node_step_halves hstep).1 with hD | ⟨e', he'⟩
  · rwa [hD]
  · exact ih.tail he'

/-! ## 2. End-to-end acks -/

structure AcksPending (ld : LinkData) : Prop where
  marks : Marks ld.e2e_unsent (ld.e2e_skl.map Prod.snd)
  blocked : ∀ d s, ld.flow_block d s = true → ld.e2e_unsent d = true ∧ 1 ≤ s ∧ s ≤ MAX_NODES
  ready : ld.e2e_ready = true → ld.e2e_skl ≠ []

theorem AcksPending.of_eq {ld ld' : LinkData} (h : AcksPending ld)
    (hu : ld'.e2e_unsent = ld.e2e_unsent) (hl : ld'.e2e_skl = ld.e2e_skl)
    (hb : ld'.flow_block = ld.flow_block) (hr : ld'.e2e_ready = ld.e2e_ready) : AcksPending ld' :=
  ⟨by rw [hu, hl]; exact h.marks, by rw [hu, hb]; exact h.blocked, by rw [hl, hr]; exact h.ready⟩

theorem acks_pending_op {ld ld' : LinkData} (hop : LinkOp ld ld') (h : AcksPending ld) :
    AcksPending ld' := by
  cases hop with
  | push_norm s d =>
    unfold LinkData.push_norm
    split <;> exact h.of_eq rfl rfl rfl rfl
  | push_urgent s d =>
    unfold LinkData.push_urgent
    split <;> exact h.of_eq rfl rfl rfl rfl
  | note_state s d =>
    unfold LinkData.note_state
    split <;> exact h.of_eq rfl rfl rfl rfl
  | blocks block hblock =>
    refine ⟨h.marks, fun d s hds => ?_, h.ready⟩
    rcases hblock d s hds with hb | hb
    · exact h.blocked d s hb
    · exact hb
  | e2e_insert t d timeout hd =>
    refine ⟨h.marks.push hd (map_orderedInsert_perm _ t d _), fun a s has => ?_, fun _ => ?_⟩
    · have hb := h.blocked a s has
      exact ⟨update_true_of_true d hb.1, hb.2⟩
    · exact ne_nil_of_length_pos (by simp [orderedInsert_length])
  | e2e_ready hne => exact ⟨h.marks, h.blocked, fun _ => hne⟩
  | @e2e_sent t d skl hskl hb timeout =>
    have hperm : (ld.e2e_skl.map Prod.snd).Perm (d :: skl.map Prod.snd) := by
      rw [hskl, map_cons]
    refine ⟨h.marks.pop hperm, fun a s has => ?_, fun hr => by simp at hr⟩
    -- no flow is blocked behind the ack that went out
    dsimp only at has ⊢
    have hblk := h.blocked a s has
    refine ⟨?_, hblk.2⟩
    have ha : a ≠ d := by
      rintro rfl
      have hfree := hb s hblk.2.1 hblk.2.2
      rw [hfree] at has
      exact Bool.noConfusion has
    rw [update_of_ne ha]
    exact hblk.1
  | @e2e_retry t d skl hskl t' timeout =>
    have hmem : d ∈ ld.e2e_skl.map Prod.snd := by
      rw [hskl, map_cons]
      exact mem_cons_self
    have hperm : ((skl.orderedInsert (fun a b => a.1 ≤ b.1) (t', d)).map Prod.snd).Perm
        (ld.e2e_skl.map Prod.snd) := by
      rw [hskl, map_cons]
      exact map_orderedInsert_perm _ t' d skl
    refine ⟨h.marks.requeue hmem hperm, fun a s has => ?_, fun hr => by simp at hr⟩
    have hblk := h.blocked a s has
    exact ⟨update_true_of_true d hblk.1, hblk.2⟩
  | _ => exact h.of_eq rfl rfl rfl rfl

theorem acks_pending {cf : Conf} {sec : ℕ} {D : Daemon}
    (hrun : Run (Step cf) (init_reliable_flooding cf sec) D) (k : ℕ) : AcksPending (D.edge k) :=
  link_invariant AcksPending ⟨Marks.nil, by simp [LinkData.init], by simp [LinkData.init]⟩
    (fun _ _ hop h => acks_pending_op hop h) hrun k

/-! ## 3. Status changes -/

structure ChangesPending (ld : StatusLink) : Prop where
  marks : Marks ld.unsent (ld.skl.map Prod.snd)
  ready : ld.ready = true → ld.skl ≠ []

theorem ChangesPending.insert {ld : StatusLink} (h : ChangesPending ld) {creator : ℕ}
    (hc : ld.unsent creator = false) (t : ℕ) : ChangesPending (ld.insert t creator) :=
  ⟨h.marks.push hc (map_orderedInsert_perm _ t creator _),
    fun _ => ne_nil_of_length_pos (by simp [StatusLink.insert, orderedInsert_length])⟩

theorem changes_update {link : ℕ → StatusLink} (h : ∀ k, ChangesPending (link k)) {j : ℕ}
    {ld : StatusLink} (hld : ChangesPending ld) (k : ℕ) : ChangesPending (update link j ld k) := by
  by_cases hk : k = j
  · rw [hk, update_self]
    exact hld
  · rw [update_of_ne hk]
    exact h k

theorem changes_each (cf : Conf) {link f : ℕ → StatusLink} (h : ∀ k, ChangesPending (link k))
    (hf : ∀ k, ChangesPending (f k)) (k : ℕ) : ChangesPending (cf.each f link k) := by
  by_cases hk : cf.nbr k
  · rw [Conf.each_nbr _ _ hk]
    exact hf k
  · rw [Conf.each_other _ _ hk]
    exact h k

section Handlers

variable (cf : Conf) (sc : StatusConf) {S : StatusState} (h : ∀ k, ChangesPending (S.link k))
include h

theorem process_status_change_pending (hop : ℕ) (m : StatusChange) (k : ℕ) :
    ChangesPending ((process_status_change cf sc hop m S).link k) := by
  unfold process_status_change
  dsimp only
  split
  · exact h k
  split
  · exact h k
  split
  · exact h k
  split
  · exact h k
  split
  · exact h k
  dsimp only
  apply changes_each cf h
  intro k
  split
  · rename_i hun
    exact (h k).insert hun.1 _
  · exact h k

theorem gen_status_change_pending (now k : ℕ) :
    ChangesPending ((gen_status_change cf now S).link k) := by
  unfold gen_status_change
  split
  · exact h k
  apply changes_each cf h
  intro k
  split
  · exact h k
  · rename_i hun
    exact ⟨(h k).marks.push (by simpa using hun) (map_orderedInsert_perm _ now cf.my_id _),
      fun _ => ne_nil_of_length_pos (by simp [orderedInsert_length])⟩

theorem send_status_change_pending (j : ℕ) (env : SendEnv) (k : ℕ) :
    ChangesPending ((send_status_change cf sc j env S).1.link k) := by
  unfold send_status_change
  split
  · exact h k
  rename_i t creator skl hskl
  have hlist : (S.link j).skl.map Prod.snd = creator :: skl.map Prod.snd := by
    rw [hskl, map_cons]
  split
  · -- it went out
    refine changes_update h ⟨(h j).marks.pop ?_, fun hr => by simp at hr⟩ k
    rw [hlist]
  · -- it waits again
    refine changes_update h ⟨(h j).marks.requeue ?_ ?_, fun hr => ?_⟩ k
    · rw [hlist]
      exact mem_cons_self
    · rw [hlist]
      exact map_orderedInsert_perm _ _ creator skl
    · simp [StatusLink.insert] at hr

theorem transfer_status_pending (j : ℕ) (l : List ℕ) (k : ℕ) :
    ChangesPending ((l.foldl (transfer_status cf sc j) S).link k) := by
  induction l generalizing S with
  | nil => exact h k
  | cons i l ih =>
    rw [foldl_cons]
    refine ih (fun k => ?_)
    unfold transfer_status
    split
    · rename_i hun
      exact changes_update h ((h j).insert hun.1 _) k
    · exact h k

theorem changes_pending_handle (e : StatusEvent) (k : ℕ) :
    ChangesPending ((S.handle cf sc e).link k) := by
  cases e with
  | receive hop m => exact process_status_change_pending cf sc h hop m k
  | generate src_epoch nid status =>
    rw [StatusState.handle]
    unfold generate_link_status_change
    split <;> exact h k
  | gen now => exact gen_status_change_pending cf h now k
  | ready j =>
    rw [StatusState.handle]
    refine changes_update h ?_ k
    split
    · exact h j
    · rename_i hne
      exact ⟨(h j).marks, fun _ => hne⟩
  | send j env =>
    rw [StatusState.handle]
    split
    · exact send_status_change_pending cf sc h j env k
    · exact h k
  | transfer j =>
    rw [StatusState.handle]
    exact transfer_status_pending cf sc h j _ k

end Handlers

theorem changes_pending_run (cf : Conf) (sc : StatusConf) (es : List StatusEvent) {S : StatusState}
    (h : ∀ k, ChangesPending (S.link k)) (k : ℕ) :
    ChangesPending ((es.foldl (StatusState.handle cf sc) S).link k) := by
  induction es generalizing S with
  | nil => exact h k
  | cons e es ih => exact ih (fun k => changes_pending_handle cf sc h e k)

theorem changes_pending {cf : Conf} {sc : StatusConf} {sec : ℕ} {N : Node}
    (hrun : Run (Node.Step cf sc) (Node.init cf sec) N) (k : ℕ) : ChangesPending (N.S.link k) := by
  refine hrun.invariant (fun N => ∀ k, ChangesPending (N.S.link k)) (fun _ => ?_) ?_ k
  · exact ⟨Marks.nil, fun hr => by simp [Node.init, StatusState.init] at hr⟩
  · intro N e N' h hstep
    obtain ⟨es, hes⟩ := (node_step_halves hstep).2
    rw [hes]
    exact changes_pending_run cf sc es h

/-! ## 4. `Reliable_Flood_Send_One` with a flag set -/

/-- The link takes the message of `creator`, and its signature can be made. -/
def can_send (cf : Conf) (env : SendEnv) (creator : ℕ) : Prop :=
  env.forward_ok = true ∧ ¬ (creator = cf.my_id ∧ cf.crypto = true ∧ env.sign_ok = false)

section SendOne

variable {cf : Conf} {sc : StatusConf} {k : ℕ} {N : Node} (env : SendEnv)

theorem send_status_change_served (cf : Conf) (sc : StatusConf) {t creator : ℕ} {skl : List (ℕ × ℕ)}
    (hskl : (N.S.link k).skl = (t, creator) :: skl) :
    ((send_status_change cf sc k env N.S).1.link k).ready = false ∧
      ((send_status_change cf sc k env N.S).2.isSome = true ↔ can_send cf env creator) := by
  unfold send_status_change can_send
  rw [hskl]
  dsimp only
  split
  · rename_i hok
    simpa using hok
  · rename_i hno
    simpa [StatusLink.insert] using hno

theorem send_one_serves_change (hrun : N.D.halt = .running) (hready : (N.S.link k).ready = true)
    {t creator : ℕ} {skl : List (ℕ × ℕ)} (hskl : (N.S.link k).skl = (t, creator) :: skl) :
    ((N.send_one cf sc k env).1.S.link k).ready = false ∧
      ((N.send_one cf sc k env).1.D.edge k).e2e_ready = (N.D.edge k).e2e_ready ∧
      ((N.send_one cf sc k env).2.isSome = true ↔ can_send cf env creator) := by
  have hserved := send_status_change_served env cf sc hskl
  unfold Node.send_one
  rw [if_neg (not_not.mpr hrun), if_pos hready, hskl]
  dsimp only
  unfold reliable_flood_send_one
  rw [if_neg (not_not.mpr hrun), if_pos rfl]
  refine ⟨hserved.1, ?_, ?_⟩
  · rw [on_edge_self]
    rfl
  · rw [← hserved.2]
    dsimp only
    split <;> simp_all

theorem unblock_flows_ready (cf : Conf) (k d : ℕ) (fb : ℕ → ℕ → FlowBuffer) (l : List ℕ)
    (ld : LinkData) : (l.foldl (unblock_flow cf k d fb) ld).e2e_ready = ld.e2e_ready := by
  induction l generalizing ld with
  | nil => rfl
  | cons i l ih =>
    rw [foldl_cons, ih]
    unfold unblock_flow LinkData.push_norm
    dsimp only
    split
    · split <;> rfl
    · rfl

theorem send_one_serves_ack (hrun : N.D.halt = .running) (hno : (N.S.link k).ready = false)
    (hready : (N.D.edge k).e2e_ready = true) {t d : ℕ} {skl : List (ℕ × ℕ)}
    (hskl : (N.D.edge k).e2e_skl = (t, d) :: skl) :
    ((N.send_one cf sc k env).1.D.edge k).e2e_ready = false ∧
      (N.send_one cf sc k env).1.S = N.S ∧
      ((N.send_one cf sc k env).2.isSome = true ↔ can_send cf env d) := by
  unfold Node.send_one
  rw [if_neg (not_not.mpr hrun), if_neg (by simp [hno])]
  dsimp only
  unfold reliable_flood_send_one reliable_flood_send_e2e can_send
  rw [if_neg (not_not.mpr hrun), if_neg (by simp), if_pos hready, hskl]
  dsimp only
  split
  · rename_i hok
    refine ⟨?_, rfl, ?_⟩
    · dsimp only
      rw [on_edge_self, unblock_flows_ready]
    · simpa using hok
  · rename_i hfail
    refine ⟨?_, rfl, ?_⟩
    · dsimp only
      rw [on_edge_self]
      rfl
    · simpa using hfail

end SendOne

/-! ## 5. The result -/

/-- **Flags and lists agree** in every state a daemon reaches, toward every
neighbour. An end-to-end ack is on the list once when it is flagged and not at all
otherwise, and so is a status change; a flow is blocked only behind an ack that is
flagged; and a `ready` flag stands beside a list that is not empty. So a call of
`Reliable_Flood_Send_One` that finds a flag set always has a message to send: it
sends it if the link and the signature allow it, and takes the flag down in either
case. -/
theorem pending_acks_and_status_changes {cf : Conf} {sc : StatusConf} {sec : ℕ} {N : Node}
    (hrun : Run (Node.Step cf sc) (Node.init cf sec) N) (k : ℕ) :
    (∀ d, ((N.D.edge k).e2e_skl.map Prod.snd).count d =
        if (N.D.edge k).e2e_unsent d = true then 1 else 0) ∧
      (∀ d s, (N.D.edge k).flow_block d s = true → (N.D.edge k).e2e_unsent d = true) ∧
      ((N.D.edge k).e2e_ready = true → (N.D.edge k).e2e_skl ≠ []) ∧
      (∀ c, ((N.S.link k).skl.map Prod.snd).count c =
        if (N.S.link k).unsent c = true then 1 else 0) ∧
      ((N.S.link k).ready = true → (N.S.link k).skl ≠ []) ∧
      (N.D.halt = .running → ∀ env,
        ((N.S.link k).ready = true →
          ∃ creator, (N.S.link k).unsent creator = true ∧
            ((N.send_one cf sc k env).1.S.link k).ready = false ∧
            ((N.send_one cf sc k env).1.D.edge k).e2e_ready = (N.D.edge k).e2e_ready ∧
            ((N.send_one cf sc k env).2.isSome = true ↔ can_send cf env creator)) ∧
        ((N.S.link k).ready = false → (N.D.edge k).e2e_ready = true →
          ∃ d, (N.D.edge k).e2e_unsent d = true ∧
            ((N.send_one cf sc k env).1.D.edge k).e2e_ready = false ∧
            (N.send_one cf sc k env).1.S = N.S ∧
            ((N.send_one cf sc k env).2.isSome = true ↔ can_send cf env d))) := by
  have hacks := acks_pending (node_run_daemon hrun) k
  have hchanges := changes_pending hrun k
  refine ⟨hacks.marks, fun d s h => (hacks.blocked d s h).1, hacks.ready, hchanges.marks,
    hchanges.ready, fun hrunning env => ⟨fun hr => ?_, fun hno hr => ?_⟩⟩
  · obtain ⟨⟨t, creator⟩, skl, hskl⟩ := exists_cons_of_ne_nil (hchanges.ready hr)
    refine ⟨creator, hchanges.marks.mem_iff.mpr ?_, send_one_serves_change env hrunning hr hskl⟩
    simp [hskl]
  · obtain ⟨⟨t, d⟩, skl, hskl⟩ := exists_cons_of_ne_nil (hacks.ready hr)
    refine ⟨d, hacks.marks.mem_iff.mpr ?_, send_one_serves_ack env hrunning hno hr hskl⟩
    simp [hskl]

/-- Daemon `1` of the triangle after it said that its link to `2` is up. -/
def triangle_ready : Node :=
  (((Node.init corner1.cf 5).handle corner1.cf triangle (.generate 2 1)).handle corner1.cf triangle
    (.gen_status_change 7)).handle corner1.cf triangle (.status_change_event 1)

theorem triangle_ready_reached :
    Run (Node.Step corner1.cf triangle) (Node.init corner1.cf 5) triangle_ready := by
  let N1 := (Node.init corner1.cf 5).handle corner1.cf triangle (.generate 2 1)
  let N2 := N1.handle corner1.cf triangle (.gen_status_change 7)
  have h1 : Node.Step corner1.cf triangle (Node.init corner1.cf 5) (.generate 2 1) N1 :=
    ⟨rfl, trivial, rfl⟩
  have h2 : Node.Step corner1.cf triangle N1 (.gen_status_change 7) N2 := ⟨rfl, trivial, rfl⟩
  have h3 : Node.Step corner1.cf triangle N2 (.status_change_event 1) triangle_ready :=
    ⟨rfl, (by decide : corner1.cf.nbr 1), rfl⟩
  exact (((Run.refl _).tail h1).tail h2).tail h3

def wide_link : SendEnv where
  now := 8
  status_change := false
  forward_ok := true
  sign_ok := true
  packets := 1
  max_acks := 0
  saa_queued := true

theorem pending_triangle :
    (triangle_ready.S.link 1).ready = true ∧
      ((triangle_ready.send_one corner1.cf triangle 1 wide_link).1.S.link 1).ready = false ∧
      (triangle_ready.send_one corner1.cf triangle 1 wide_link).2.isSome = true := by
  have hready : (triangle_ready.S.link 1).ready = true := by decide +kernel
  obtain ⟨creator, -, h1, -, h2⟩ :=
    ((pending_acks_and_status_changes triangle_ready_reached 1).2.2.2.2.2 rfl wide_link).1 hready
  exact ⟨hready, h1, h2.mpr ⟨rfl, by simp [wide_link]⟩⟩

end Spines.RelFlood
