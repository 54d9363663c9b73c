/-
What the handlers do to the data toward one neighbour.

`Steps.lean` lists what can happen to a flow buffer; `LinkOp` does the same for
the other half of the state, `Rel_Flood_Link_Data`. Whatever a handler does to
the queues and flags of a neighbour, it does by these operations, each
with the condition under which the handlers use it (`handle_links`).

Two groups of operations stand here in another order than in the source. In
`Reliable_Flood_Process_E2E` the flows are blocked before the ack that blocks
them is noted as pending, in `Reliable_Flood_Send_E2E` they are unblocked after
it is taken off the list; nothing looks at the link data in between.
-/
import Spines.RelFlood.Sending
import Spines.RelFlood.Walk

set_option autoImplicit false

namespace Spines.RelFlood

open Spines.Lib

/-! ## 1. The start of a window -/

section Sow

variable (cf : Conf) (fb : FlowBuffer)

theorem hbh_move_up_sow (conv : ℕ → ℕ) (guarded : Bool) (aru : ℕ → ℕ) :
    fb.sow ≤ (fb.hbh_move_up cf conv guarded aru).sow := by
  have h := (advance_loop_fields cf guarded (hbh_min conv cf fb aru + 1 - fb.sow) fb).1
  calc fb.sow ≤ fb.sow + (hbh_min conv cf fb aru + 1 - fb.sow) := Nat.le_add_right _ _
    _ = (fb.advance_sow cf guarded (hbh_min conv cf fb aru)).sow := h.symm

theorem ack_loop_sow (k aru fuel : ℕ) : (ack_loop k aru fuel fb).sow = fb.sow := by
  induction fuel generalizing fb with
  | zero => rfl
  | succ fuel ih =>
    rw [ack_loop]
    split
    · rw [ih]
    · rfl

theorem restamp_loop_sow (env : StampEnv) (cnt j : ℕ) (flag : Bool) :
    (restamp_loop cf env cnt j fb flag).1.sow = fb.sow := by
  induction cnt generalizing j fb flag with
  | zero => rfl
  | succ cnt ih =>
    rw [restamp_loop]
    split
    · dsimp only
      split
      · exact ih fb _ _
      · split
        · rfl
        · rw [ih]
    · rfl

theorem accept_sow (hop : ℕ) (m : Msg) (restamped : Bool) (np : ℕ) (aru : ℕ → ℕ) :
    fb.sow ≤ (fb.accept cf hop m restamped np aru).sow := by
  by_cases hd : m.dest = cf.my_id
  · cases restamped with
    | false =>
      rw [accept_deliver_eq hop fb np aru hd]
      exact Nat.le_succ _
    | true => simp [FlowBuffer.accept, hd]
  · cases restamped with
    | false =>
      have hf := (with_fresh_fields cf fb m hop np).1
      rw [accept_fresh_eq hop np hd]
      split
      · exact hf ▸ hbh_move_up_sow cf _ _ _ _
      · exact hf.ge
    | true =>
      rw [accept_restamped_eq hop np hd]
      exact (store_data_fields cf fb hop m true np).1.ge

end Sow

theorem sow_keeps (cf : Conf) : Keeps cf (fun fb fb' => fb.sow ≤ fb'.sow) where
  refl _ := Nat.le_refl _
  trans h h' := Nat.le_trans h h'
  move_up fb guarded aru := hbh_move_up_sow cf fb _ guarded aru
  ack_loop fb k aru fuel := (ack_loop_sow fb k aru fuel).ge
  unsend _ _ := Nat.le_refl _
  move_up_int _ _ fb aru _ := hbh_move_up_sow cf fb _ true aru
  restamp_loop fb env cnt j flag := (restamp_loop_sow cf fb env cnt j flag).ge
  mark_sent _ _ _ := Nat.le_refl _
  resend _ _ := Nat.le_refl _

theorem links_walk (cf : Conf) : FullWalk cf LinkRun (fun fb fb' => fb.sow ≤ fb'.sow) :=
  ⟨linkRun_kept, sow_keeps cf⟩

/-! ## 2. End-to-end acks -/

section E2e

variable (cf : Conf) {L : LinkData → LinkData → Prop}

theorem LinksQuiet.e2e_cell_link (h : LinksQuiet L) (d i : ℕ) (new old : Cell) (fb : FlowBuffer)
    (k : ℕ) (ld : LinkData) : L ld (e2e_cell_link cf k d i new old fb k ld) := by
  unfold RelFlood.e2e_cell_link
  split
  · rw [if_neg (not_not_intro rfl)]
    have h1 : L ld
        (if old.dest_epoch < new.dest_epoch ∨ old.src_epoch < new.src_epoch then
          { ld with
            flow_aru := set2 ld.flow_aru i d new.aru
            flow_sow := set2 ld.flow_sow i d (int64u (new.aru + 1)) }
        else
          { ld with
            flow_aru := set2 ld.flow_aru i d (max (ld.flow_aru i d) new.aru)
            flow_sow := set2 ld.flow_sow i d
              (if ld.flow_sow i d ≤ new.aru then int64u (new.aru + 1) else ld.flow_sow i d) }) := by
      split <;> exact h.other (.arus _ _ _) rfl rfl rfl
    split
    · exact h.trans h1 (h.push_norm _ _ _)
    · exact h1
  · exact h.refl ld

def LinkData.with_flows (ld : LinkData) (aru sow : ℕ → ℕ → ℕ) (block : ℕ → ℕ → Bool) : LinkData :=
  { ld with flow_aru := aru, flow_sow := sow, flow_block := block }

theorem e2e_cell_link_blocks {hop k : ℕ} (hk : k ≠ hop) (d i : ℕ)
    (new old : Cell) (fb : FlowBuffer) (ld : LinkData) :
    ∃ aru sow block, RelFlood.e2e_cell_link cf hop d i new old fb k ld =
        ld.with_flows aru sow block ∧
      ∀ a s, block a s = true → ld.flow_block a s = true ∨ a = d ∧ s = i := by
  unfold RelFlood.e2e_cell_link
  split
  · have hset : ∀ a s, set2 ld.flow_block d i true a s = true →
        ld.flow_block a s = true ∨ a = d ∧ s = i := by
      intro a s h
      by_cases has : a = d ∧ s = i
      · exact .inr has
      · rw [set2_of_ne _ _ has] at h
        exact .inl h
    by_cases hepoch : old.dest_epoch < new.dest_epoch ∨ old.src_epoch < new.src_epoch
    · simp only [if_pos hepoch]
      exact ⟨_, _, _, rfl, hset⟩
    · simp only [if_neg hepoch]
      exact ⟨_, _, _, rfl, hset⟩
  · exact ⟨ld.flow_aru, ld.flow_sow, ld.flow_block, rfl, fun _ _ h => .inl h⟩

theorem LinksQuiet.cells_link (h : LinksQuiet L) (hop k : ℕ) (hk : cf.nbr k) (new : E2eAck) (l : List ℕ)
    (hl : ∀ i ∈ l, 1 ≤ i ∧ i ≤ MAX_NODES) (D : Daemon) : (k = hop → L (D.edge k)
        ((l.foldl (process_cell cf hop new) D).edge k)) ∧
      (k ≠ hop → ∃ aru sow block,
        (l.foldl (process_cell cf hop new) D).edge k =
          (D.edge k).with_flows aru sow block ∧
        ∀ a s, block a s = true → (D.edge k).flow_block a s = true ∨
          a = new.dest ∧ 1 ≤ s ∧ s ≤ MAX_NODES) := by
  induction l generalizing D with
  | nil =>
    exact ⟨fun _ => h.refl _, fun _ => ⟨(D.edge k).flow_aru, (D.edge k).flow_sow,
      (D.edge k).flow_block, rfl, fun _ _ h => .inl h⟩⟩
  | cons i l ih =>
    obtain ⟨ih1, ih2⟩ := ih (fun j hj => hl j (by simp [hj])) (process_cell cf hop new D i)
    have hedge : (process_cell cf hop new D i).edge k =
        RelFlood.e2e_cell_link cf hop new.dest i (new.cell i) ((D.e2e new.dest).cell i)
          ((D.fb i new.dest).e2e_cell cf (new.cell i) ((D.e2e new.dest).cell i)) k (D.edge k) := by
      simp only [process_cell, Conf.each_nbr _ _ hk]
    rw [List.foldl_cons]
    refine ⟨fun hlast => ?_, fun hlast => ?_⟩
    · refine h.trans ?_ (ih1 hlast)
      rw [hedge, ← hlast]
      exact h.e2e_cell_link cf _ _ _ _ _ k _
    · obtain ⟨aru, sow, block, hrest, hblock⟩ := ih2 hlast
      obtain ⟨aru1, sow1, block1, hcell, hblock1⟩ := e2e_cell_link_blocks cf hlast new.dest i
        (new.cell i) ((D.e2e new.dest).cell i)
        ((D.fb i new.dest).e2e_cell cf (new.cell i) ((D.e2e new.dest).cell i)) (D.edge k)
      rw [hrest, hedge, hcell]
      refine ⟨aru, sow, block, rfl, fun a s hs => ?_⟩
      rcases hblock a s hs with hs | hs
      · rw [hedge, hcell] at hs
        rcases hblock1 a s hs with hs | ⟨rfl, rfl⟩
        · exact .inl hs
        · exact .inr ⟨rfl, hl s (by simp)⟩
      · exact .inr hs

theorem LinksQuiet.store_e2e (h : LinksQuiet L) (hop : ℕ) (new : E2eAck) (D : Daemon)
    (k : ℕ) : L (D.edge k) ((RelFlood.store_e2e cf hop new D).edge k) := by
  have hrange : ∀ i ∈ List.range' 1 MAX_NODES, 1 ≤ i ∧ i ≤ MAX_NODES := by
    intro i hi
    rw [List.mem_range'_1] at hi
    omega
  by_cases hk : cf.nbr k
  · obtain ⟨h1, h2⟩ := h.cells_link cf hop k hk new _ hrange D
    unfold RelFlood.store_e2e
    dsimp only
    rw [Conf.each_nbr _ _ hk]
    by_cases hlast : k = hop
    · rw [if_neg (fun hun => hun.2 hlast)]
      exact h1 hlast
    · obtain ⟨aru, sow, block, hedge, hblock⟩ := h2 hlast
      rw [hedge]
      split
      · -- the ack is pending before the flows are blocked behind it
        rename_i hun
        refine h.trans (h.other (.e2e_insert _ new.dest _ hun.1) rfl rfl rfl)
          (h.trans (h.other (.arus _ aru sow) rfl rfl rfl)
            (h.other (.blocks block (fun a s hb => ?_)) rfl rfl rfl))
        rcases hblock a s hb with hb | ⟨rfl, hs⟩
        · exact .inl hb
        · exact .inr ⟨Function.update_self _ _ _, hs⟩
      · rename_i hun
        have hpending : (D.edge k).e2e_unsent new.dest = true := by
          by_contra hne
          exact hun ⟨by simpa [LinkData.with_flows] using hne, hlast⟩
        refine h.trans (h.other (.arus _ aru sow) rfl rfl rfl)
          (h.other (.blocks block (fun a s hb => ?_)) rfl rfl rfl)
        rcases hblock a s hb with hb | ⟨rfl, hs⟩
        · exact .inl hb
        · exact .inr ⟨hpending, hs⟩
  · have hother : ∀ (l : List ℕ) (D : Daemon),
        (l.foldl (process_cell cf hop new) D).edge k = D.edge k := by
      intro l
      induction l with
      | nil => intro D; rfl
      | cons i l ih =>
        intro D
        rw [List.foldl_cons, ih]
        simp only [process_cell, Conf.each_other _ _ hk]
    unfold RelFlood.store_e2e
    dsimp only
    rw [Conf.each_other _ _ hk, hother]
    exact h.refl _

theorem LinksQuiet.process_e2e (h : LinksQuiet L) (sec hop : ℕ) (new : E2eAck)
    (D : Daemon) (k : ℕ) : L (D.edge k) ((reliable_flood_process_e2e cf sec hop new D).edge k) := by
  have hshake : (handshake cf sec new D).edge = D.edge := (handshake_other cf sec new D).2.1
  rcases process_e2e_cases cf sec hop new D with
    ⟨-, heq⟩ | ⟨-, ⟨-, heq⟩ | ⟨-, ⟨-, heq⟩ | ⟨-, heq⟩⟩⟩
  · rw [heq]
    exact h.refl _
  · rw [heq, hshake]
    exact h.refl _
  · rw [heq]
    rw [handshake_finish_edge, hshake]
    exact h.refl _
  · rw [heq]
    have hstore := h.store_e2e cf hop new
      (handshake_finish cf new (handshake cf sec new D)) k
    rwa [handshake_finish_edge, hshake] at hstore

theorem LinksQuiet.disseminate (h : LinksQuiet L) (sec hop : ℕ) (verified : Bool)
    (pkt : Packet) (D : Daemon) (k : ℕ) :
    L (D.edge k) ((reliable_flood_disseminate cf sec hop verified pkt D).1.edge k) := by
  have hw : QuietWalk cf L (fun _ _ => True) := h.walk
  have hacks := hw.after_acks hop pkt.acks D
  rcases disseminate_cases cf sec hop verified pkt D with
    heq | heq | ⟨m, -, -, -, -, heq⟩ | ⟨new, -, -, heq⟩
  · rw [heq]
    exact h.refl _
  · rw [heq]
    exact hacks.links k
  · rw [heq]
    exact (hw.seq hacks (hw.process_data hop m _ (fun _ _ _ => trivial) trivial)).links k
  · rw [heq]
    exact h.trans (hacks.links k) (h.process_e2e cf sec hop new _ k)

theorem LinksQuiet.session_send_message (h : LinksQuiet L) (sec dst num_paths : ℕ)
    (stamp : Stamp) (sign_ok : Bool) (body : List UInt8) (D : Daemon) (k : ℕ) :
    L (D.edge k) ((session_send_message cf sec dst num_paths stamp sign_ok body D).edge k) := by
  unfold RelFlood.session_send_message
  split
  · split
    · exact h.refl _
    · exact h.disseminate cf sec 0 true _ (fill_packet_header_reliable_flood cf dst num_paths
        stamp.mask body D).1 k
  · exact h.refl _

end E2e

/-! ## 3. Other packets -/

structure Effects (cf : Conf) (D D' : Daemon) : Prop where
  links : ∀ k, LinkRun (D.edge k) (D'.edge k)
  sow : ∀ s d, (D.fb s d).sow ≤ (D'.fb s d).sow
  e2e : ∀ d, d ≠ cf.my_id → D'.e2e d = D.e2e d

section Effects

variable (cf : Conf)

theorem Walked.effects {cf : Conf} {D D' : Daemon}
    (h : Walked cf LinkRun (fun fb fb' => fb.sow ≤ fb'.sow) D D') : Effects cf D D' :=
  ⟨h.links, h.bufs, h.e2e⟩

theorem after_acks_effects (hop : ℕ) (acks : List HbhAck) (D : Daemon) :
    Effects cf D (after_acks cf hop acks D) :=
  ((links_walk cf).quiet.after_acks hop acks D).effects

theorem process_data_walked (hop : ℕ) (m : Msg) (D : Daemon) :
    Walked cf LinkRun (fun fb fb' => fb.sow ≤ fb'.sow) D
      (reliable_flood_process_data cf hop m D).1 := by
  refine (links_walk cf).quiet.process_data hop m D
    (accept_sow cf _ hop m) ?_
  unfold FlowBuffer.duplicate
  split <;> exact le_refl _

theorem disseminate_walked (sec hop : ℕ) (verified : Bool) (pkt : Packet) (D : Daemon)
    (hno : ∀ new, pkt.body = .e2e new → verified = false) :
    Walked cf LinkRun (fun fb fb' => fb.sow ≤ fb'.sow) D
      (reliable_flood_disseminate cf sec hop verified pkt D).1 := by
  have hw := (links_walk cf).quiet
  have h1 := hw.after_acks hop pkt.acks D
  rcases disseminate_cases cf sec hop verified pkt D with
    h | h | ⟨m, -, -, -, -, h⟩ | ⟨new, hb, hv, h⟩
  · rw [h]
    exact hw.still rfl rfl rfl
  · rw [h]
    exact h1
  · rw [h]
    exact hw.seq h1 (process_data_walked cf hop m _)
  · rw [hno new hb] at hv
    exact absurd hv (by simp)

theorem session_send_message_effects (sec dst num_paths : ℕ) (stamp : Stamp) (sign_ok : Bool)
    (body : List UInt8) (D : Daemon) :
    Effects cf D (session_send_message cf sec dst num_paths stamp sign_ok body D) := by
  have hw := (links_walk cf).quiet
  set filled := fill_packet_header_reliable_flood cf dst num_paths stamp.mask body D
  have h1 : Walked cf LinkRun (fun fb fb' => fb.sow ≤ fb'.sow) D filled.1 := hw.still rfl rfl rfl
  unfold session_send_message
  split
  · split
    · exact h1.effects
    · exact (hw.seq h1 (disseminate_walked cf sec 0 true ⟨.data filled.2, []⟩ _
        (fun new hb => absurd hb (by simp)))).effects
  · exact (hw.same D).effects

end Effects

/-! ## 4. All events -/

theorem handle_links (cf : Conf) (D : Daemon) (e : Event) (k : ℕ) :
    LinkRun (D.edge k) ((handle cf D e).edge k) := by
  cases e with
  | packet sec lh v pkt => exact linkRun_kept.disseminate cf sec lh v pkt D k
  | client sec dst n stamp sign_ok body =>
    exact linkRun_kept.session_send_message cf sec dst n stamp sign_ok body D k
  | _ => exact ((links_walk cf).handle D _ (by trivial)).links k

theorem handle_effects (cf : Conf) (D : Daemon) (e : Event)
    (hno : ∀ sec k new acks, e ≠ .packet sec k true ⟨.e2e new, acks⟩) :
    Effects cf D (handle cf D e) := by
  cases e with
  | packet sec lh v pkt =>
    obtain ⟨body, acks⟩ := pkt
    refine (disseminate_walked cf sec lh v ⟨body, acks⟩ D (fun new hb => ?_)).effects
    dsimp only at hb
    subst hb
    cases v with
    | false => rfl
    | true => exact absurd rfl (hno sec lh new acks)
  | client sec dst n stamp sign_ok body =>
    exact session_send_message_effects cf sec dst n stamp sign_ok body D
  | _ => exact ((links_walk cf).handle D _ (by trivial)).effects

/-- An invariant of the link data: what holds at the start and is kept by every
operation holds toward every neighbour in every state a run reaches. -/
theorem link_invariant {cf : Conf} (P : LinkData → Prop) (hinit : P LinkData.init)
    (hop : ∀ ld ld', LinkOp ld ld' → P ld → P ld') {sec : ℕ} {D : Daemon}
    (hrun : Run (Step cf) (init_reliable_flooding cf sec) D) (k : ℕ) : P (D.edge k) := by
  refine hrun.invariant (fun D => ∀ k, P (D.edge k)) (fun _ => hinit) ?_ k
  rintro D1 e D2 h ⟨-, -, rfl⟩ k
  have hlinks := handle_links cf D1 e k
  have hall : ∀ ld, LinkRun (D1.edge k) ld → P ld := by
    intro ld hld
    induction hld with
    | refl => exact h k
    | tail _ hlast ih => exact hop _ _ hlast ih
  exact hall _ hlinks

end Spines.RelFlood
