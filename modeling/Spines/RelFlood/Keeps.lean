/-
Invariants of the buffers of the flows that end elsewhere.

A flow that does not end at this daemon meets the operations of `Keeps` and what data
packets and end-to-end acks do to it. A property of buffers that is kept by these
(`KeptElsewhere`) holds of every such flow in every state that a run reaches
(`KeptElsewhere.run`).
-/
import Spines.RelFlood.Walk

set_option autoImplicit false

namespace Spines.RelFlood

open Spines.Lib

structure KeptElsewhere (cf : Conf) (P : FlowBuffer → Prop) : Prop where
  init : P FlowBuffer.init
  keeps : Keeps cf (fun fb fb' => P fb → P fb')
  fresh : ∀ fb last_hop_index m np, P fb → data_verdict fb m = .fresh →
    P (fb.with_fresh cf last_hop_index m np)
  restamped : ∀ fb last_hop_index m np, P fb → data_verdict fb m = .restamped →
    P ((fb.store_data cf last_hop_index m true np).rewind_next cf m.seq_num)
  duplicate : ∀ fb last_hop_index m, P fb → P (fb.duplicate cf last_hop_index m)
  cell : ∀ fb new old, P fb → P (fb.e2e_cell cf new old)

section Elsewhere

variable {cf : Conf} {P : FlowBuffer → Prop} {D D' : Daemon}

def Elsewhere (cf : Conf) (P : FlowBuffer → Prop) (D : Daemon) : Prop :=
  ∀ s d, d ≠ cf.my_id → P (D.fb s d)

theorem Elsewhere.pointwise (h : Elsewhere cf P D)
    (hp : Pointwise (fun fb fb' => P fb → P fb') D D') : Elsewhere cf P D' :=
  fun s d hd => hp s d (h s d hd)

theorem Elsewhere.still (h : Elsewhere cf P D) (hfb : D'.fb = D.fb) : Elsewhere cf P D' :=
  fun s d hd => by
    rw [hfb]
    exact h s d hd

variable (hP : KeptElsewhere cf P)

include hP

theorem KeptElsewhere.process_data (h : Elsewhere cf P D) (hop : ℕ) (m : Msg) :
    Elsewhere cf P (reliable_flood_process_data cf hop m D).1 := by
  have hset : ∀ fb : FlowBuffer, (m.dest ≠ cf.my_id → P fb) → ∀ s d, d ≠ cf.my_id →
      P (set2 D.fb m.src m.dest fb s d) := by
    intro fb hfb s d hd
    by_cases hsd : s = m.src ∧ d = m.dest
    · rw [hsd.1, hsd.2, set2_self]
      exact hfb (fun hmy => hd (hsd.2.trans hmy))
    · rw [set2_of_ne _ _ hsd]
      exact h s d hd
  unfold reliable_flood_process_data
  dsimp only
  split
  · exact h.still rfl
  · exact h.still rfl
  · exact hset _ (fun hd => hP.duplicate _ _ _ (h _ _ hd))
  · rename_i hv
    refine hset _ (fun hd => ?_)
    have hfresh := hP.fresh _ hop m D.num_paths_snapshot (h m.src m.dest hd) hv
    rw [accept_fresh_eq hop _ hd]
    split
    · exact hP.keeps.move_up _ _ _ hfresh
    · exact hfresh
  · rename_i hv
    refine hset _ (fun hd => ?_)
    rw [accept_restamped_eq hop _ hd]
    exact hP.restamped _ hop m D.num_paths_snapshot (h m.src m.dest hd) hv

theorem KeptElsewhere.process_e2e (h : Elsewhere cf P D) (sec hop : ℕ) (new : E2eAck) :
    Elsewhere cf P (reliable_flood_process_e2e cf sec hop new D) := by
  have hshake : Elsewhere cf P (handshake cf sec new D) := fun s d hd => by
    rw [(handshake_other cf sec new D).1 s d (fun hpair => hd hpair.2)]
    exact h s d hd
  have hfinish : Elsewhere cf P (handshake_finish cf new (handshake cf sec new D)) :=
    hshake.still (handshake_finish_fb cf new _)
  rcases process_e2e_cases cf sec hop new D with
    ⟨-, heq⟩ | ⟨-, ⟨-, heq⟩ | ⟨-, ⟨-, heq⟩ | ⟨-, heq⟩⟩⟩
  · rw [heq]
    exact h
  · rw [heq]
    exact hshake
  · rw [heq]
    exact hfinish.still rfl
  · rw [heq]
    intro s d hd
    have hl := congrArg Prod.fst (store_e2e_lanes cf hop new
      (handshake_finish cf new (handshake cf sec new D)) s d)
    simp only [Daemon.lanes] at hl
    rw [hl]
    split
    · exact hP.cell _ _ _ (hfinish s d hd)
    · exact hfinish s d hd

theorem KeptElsewhere.disseminate (h : Elsewhere cf P D) (sec hop : ℕ) (verified : Bool)
    (pkt : Packet) :
    Elsewhere cf P (reliable_flood_disseminate cf sec hop verified pkt D).1 := by
  have hacks := h.pointwise (hP.keeps.walk.quiet.after_acks hop pkt.acks D).bufs
  rcases disseminate_cases cf sec hop verified pkt D with
    heq | heq | ⟨m, -, -, -, -, heq⟩ | ⟨new, -, -, heq⟩
  · rw [heq]
    exact h.still rfl
  · rw [heq]
    exact hacks
  · rw [heq]
    exact hP.process_data hacks hop m
  · rw [heq]
    exact hP.process_e2e hacks sec hop new

theorem KeptElsewhere.step {e : Event} (h : Elsewhere cf P D) (hstep : Step cf D e D') :
    Elsewhere cf P D' := by
  obtain ⟨-, -, rfl⟩ := hstep
  cases e with
  | packet sec k v pkt => exact hP.disseminate h sec k v pkt
  | client sec dst n stamp sign_ok body =>
    have hfilled : Elsewhere cf P
        (fill_packet_header_reliable_flood cf dst n stamp.mask body D).1 := h.still rfl
    simp only [RelFlood.handle, session_send_message]
    split
    · split
      · exact hfilled
      · exact hP.disseminate hfilled sec 0 true _
    · exact h
  | _ => exact h.pointwise (hP.keeps.walk.handle D _ (by trivial)).bufs

theorem KeptElsewhere.run {sec : ℕ} (hrun : Run (Step cf) (init_reliable_flooding cf sec) D) :
    Elsewhere cf P D := by
  refine hrun.invariant (Elsewhere cf P) (fun s d hd => ?_) (fun _ _ _ h hstep => hP.step h hstep)
  simp only [init_reliable_flooding]
  rw [if_neg (fun h => hd h.2)]
  exact hP.init

end Elsewhere

end Spines.RelFlood
