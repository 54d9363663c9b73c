/-
The messages that start at this daemon, and the numbers they get.

`Fill_Packet_Header_Reliable_Flood` numbers the messages to a destination with
`Flow_Seq_No` and stamps them with the second in which the numbers started,
`Flow_Source_Epoch`. Every daemon on the way tells a new message from an old one
by these two values.

Only a handshake request of the destination makes the numbers start again. Its
second becomes the new epoch whatever the old one was, so a request within the
second of the old epoch makes the same numbers go out twice
(`same_second_repeats_numbers`).
-/
import Spines.RelFlood.Acks

set_option autoImplicit false

namespace Spines.RelFlood

open Spines.Lib Function List

/-! ## 1. Handlers that leave the numbers alone -/

def Daemon.ours (D : Daemon) : (ℕ → ℕ) × (ℕ → ℕ) × (ℕ → Bool) :=
  (D.flow_seq_no, D.flow_source_epoch, D.handshake_complete)

section Ours

variable (cf : Conf)

theorem foldl_ours {ι : Type*} {f : Daemon → ι → Daemon} (hf : ∀ D i, (f D i).ours = D.ours)
    (l : List ι) (D : Daemon) : (l.foldl f D).ours = D.ours := by
  induction l generalizing D with
  | nil => rfl
  | cons i l ih => rw [foldl_cons, ih, hf]

theorem after_acks_ours (hop : ℕ) (acks : List HbhAck) (D : Daemon) :
    (after_acks cf hop acks D).ours = D.ours := by
  obtain ⟨fb, edge, sc, h⟩ := after_acks_rest cf hop acks D
  rw [h]
  rfl

theorem process_data_ours (hop : ℕ) (m : Msg) (D : Daemon) :
    (reliable_flood_process_data cf hop m D).1.ours = D.ours := by
  unfold reliable_flood_process_data
  dsimp only
  split <;> rfl

theorem gen_e2e_ours (now : ℕ) (send : Bool) (D : Daemon) :
    (reliable_flood_gen_e2e cf now send D).ours = D.ours := by
  unfold reliable_flood_gen_e2e
  dsimp only
  split
  · rfl
  split
  · rfl
  split <;> rfl

theorem neighbor_transfer_ours (k : ℕ) (D : Daemon) :
    (reliable_flood_neighbor_transfer cf k D).ours = D.ours := by
  have hflow : ∀ (d : ℕ) (D : Daemon) (s : ℕ), (transfer_flow cf k d D s).ours = D.ours := by
    intro d D s
    unfold transfer_flow
    dsimp only
    split <;> rfl
  refine foldl_ours (fun D d => ?_) _ D
  unfold transfer_dest
  dsimp only
  rw [foldl_ours (hflow d)]
  split <;> rfl

theorem send_one_ours (k : ℕ) (env : SendEnv) (D : Daemon) :
    (reliable_flood_send_one cf k env D).1.ours = D.ours := by
  have hmove : ∀ (s d : ℕ) (D : Daemon), (send_move_up cf s d D).ours = D.ours := by
    intro s d D
    unfold send_move_up
    dsimp only
    split <;> rfl
  have hdata : (reliable_flood_send_data cf k env D).1.ours = D.ours := by
    unfold reliable_flood_send_data
    dsimp only
    split
    · rfl
    split
    · rfl
    split
    · dsimp only
      split
      · rw [hmove]
        rfl
      · rfl
    · rfl
  have he2e : (reliable_flood_send_e2e cf k env D).1.ours = D.ours := by
    unfold reliable_flood_send_e2e
    split
    · rfl
    · dsimp only
      split <;> rfl
  unfold reliable_flood_send_one
  split
  · rfl
  split
  · rfl
  split
  · exact he2e
  dsimp only
  split
  · exact hdata
  split
  · exact hdata
  · exact hdata

theorem restamp_dest_ours (env : RestampEnv) (D : Daemon) (i : ℕ) :
    (restamp_dest cf env D i).ours = D.ours := by
  have hngbr : ∀ (D : Daemon) (k : ℕ), (restamp_ngbr cf env i D k).ours = D.ours := by
    intro D k
    unfold restamp_ngbr
    dsimp only
    split
    · rfl
    split
    · rfl
    split
    · split
      · rw [foldl_ours (fun D e => send_one_ours cf i e D)]
        rfl
      · rfl
    · rfl
  unfold restamp_dest
  dsimp only
  split
  · rfl
  split
  · rfl
  split
  · rw [foldl_ours hngbr]
    rfl
  · rfl

theorem handle_ours (D : Daemon) (e : Event) (hin : e.Internal) :
    (handle cf D e).ours = D.ours := by
  cases e with
  | packet | client => exact hin.elim
  | gen_e2e now send => exact gen_e2e_ours cf now send D
  | neighbor_transfer k => exact neighbor_transfer_ours cf k D
  | e2e_event k => rfl
  | send_one k env => exact send_one_ours cf k env D
  | restamp env i => exact restamp_dest_ours cf env D i

theorem disseminate_ours (sec hop : ℕ) (verified : Bool) (pkt : Packet) (D : Daemon)
    (hno : ∀ new, pkt.body = .e2e new → verified = false) :
    (reliable_flood_disseminate cf sec hop verified pkt D).1.ours = D.ours := by
  rcases disseminate_cases cf sec hop verified pkt D with
    h | h | ⟨m, -, -, -, -, h⟩ | ⟨new, hb, hv, -⟩
  · rw [h]
    rfl
  · rw [h]
    exact after_acks_ours cf hop pkt.acks D
  · rw [h, process_data_ours]
    exact after_acks_ours cf hop pkt.acks D
  · rw [hno new hb] at hv
    exact absurd hv (by simp)

theorem session_send_ours (sec dst num_paths : ℕ) (stamp : Stamp) (sign_ok : Bool)
    (body : List UInt8) (D : Daemon) (hcan : reliable_flood_can_flow_send cf dst D) :
    (session_send_message cf sec dst num_paths stamp sign_ok body D).ours =
      (fill_packet_header_reliable_flood cf dst num_paths stamp.mask body D).1.ours := by
  rw [session_send_message, if_pos hcan]
  split
  · rfl
  · exact disseminate_ours cf sec 0 true _ _ (fun new hb => by simp at hb)

end Ours

/-! ## 2. Where the numbers change -/

def e2e_restarts (cf : Conf) (new : E2eAck) (D : Daemon) : Prop :=
  e2e_accepted new D ∧ e2e_requests cf new D ∧ 1 < D.flow_seq_no new.dest

instance (cf : Conf) (new : E2eAck) (D : Daemon) : Decidable (e2e_restarts cf new D) :=
  inferInstanceAs (Decidable (_ ∧ _ ∧ _))

def Event.restarts (cf : Conf) (D : Daemon) : Event → Option (ℕ × ℕ)
  | packet sec _ true ⟨.e2e new, _⟩ => if e2e_restarts cf new D then some (new.dest, sec) else none
  | _ => none

def Event.stamps (cf : Conf) (D : Daemon) : Event → Option Msg
  | client _ dst num_paths stamp _ body =>
    if reliable_flood_can_flow_send cf dst D then
      some (fill_packet_header_reliable_flood cf dst num_paths stamp.mask body D).2
    else none
  | _ => none

section Numbers

variable {cf : Conf} {D D' : Daemon}

theorem handshake_numbers (cf : Conf) (sec : ℕ) (new : E2eAck) (D : Daemon) :
    (handshake cf sec new D).flow_seq_no =
        (if e2e_requests cf new D ∧ 1 < D.flow_seq_no new.dest then
          update D.flow_seq_no new.dest 1 else D.flow_seq_no) ∧
      (handshake cf sec new D).flow_source_epoch =
        if e2e_requests cf new D ∧ 1 < D.flow_seq_no new.dest then
          update D.flow_source_epoch new.dest (epoch sec) else D.flow_source_epoch := by
  by_cases hreq : e2e_requests cf new D
  · have hshake : handshake cf sec new D =
        handshake_request cf sec new.dest (new.cell cf.my_id).dest_epoch D := if_pos hreq
    rw [hshake]
    unfold handshake_request Daemon.set_cell
    by_cases hno : 1 < D.flow_seq_no new.dest
    · simp only [hno, if_true, hreq, and_self]
    · simp only [hno, if_false, and_false, and_self]
  · have hshake : handshake cf sec new D = D := if_neg hreq
    rw [hshake, if_neg (fun h => hreq h.1), if_neg (fun h => hreq h.1)]
    exact ⟨rfl, rfl⟩

theorem process_e2e_numbers (cf : Conf) (sec hop : ℕ) (new : E2eAck) (D : Daemon) :
    (reliable_flood_process_e2e cf sec hop new D).flow_seq_no =
        (if e2e_restarts cf new D then update D.flow_seq_no new.dest 1
          else D.flow_seq_no) ∧
      (reliable_flood_process_e2e cf sec hop new D).flow_source_epoch =
        if e2e_restarts cf new D then update D.flow_source_epoch new.dest (epoch sec)
        else D.flow_source_epoch := by
  obtain ⟨hseq, hep⟩ := handshake_numbers cf sec new D
  have hfinish : ∀ D1 : Daemon, (handshake_finish cf new D1).flow_seq_no = D1.flow_seq_no ∧
      (handshake_finish cf new D1).flow_source_epoch = D1.flow_source_epoch := by
    intro D1
    unfold handshake_finish
    split <;> exact ⟨rfl, rfl⟩
  rcases process_e2e_cases cf sec hop new D with ⟨hdrop, heq⟩ | ⟨hacc, hways⟩
  · have hno : ¬ e2e_restarts cf new D := fun h => hdrop h.1
    rw [heq, if_neg hno, if_neg hno]
    exact ⟨rfl, rfl⟩
  · have hiff : e2e_restarts cf new D ↔ e2e_requests cf new D ∧ 1 < D.flow_seq_no new.dest :=
      ⟨fun h => h.2, fun h => ⟨hacc, h⟩⟩
    -- whatever comes after the handshake keeps the numbers
    have hafter : (reliable_flood_process_e2e cf sec hop new D).flow_seq_no =
          (handshake cf sec new D).flow_seq_no ∧
        (reliable_flood_process_e2e cf sec hop new D).flow_source_epoch =
          (handshake cf sec new D).flow_source_epoch := by
      rcases hways with ⟨-, heq⟩ | ⟨-, ⟨-, heq⟩ | ⟨-, heq⟩⟩
      · rw [heq]
        exact ⟨rfl, rfl⟩
      · rw [heq]
        exact hfinish _
      · obtain ⟨fb, edge, hrest⟩ := store_e2e_rest cf hop new
          (handshake_finish cf new (handshake cf sec new D))
        rw [heq, hrest]
        exact hfinish _
    simp only [hiff]
    exact ⟨hafter.1.trans hseq, hafter.2.trans hep⟩

/-- **Everything an event can do to the numbers**: nothing, take the next one for the
message it stamps, or start again in a new epoch. -/
theorem step_numbers {e : Event} (hstep : Step cf D e D') :
    e.stamps cf D = none ∧ e.restarts cf D = none ∧ D'.flow_seq_no = D.flow_seq_no ∧
        D'.flow_source_epoch = D.flow_source_epoch ∨
      (∃ m, e.stamps cf D = some m ∧ e.restarts cf D = none ∧
        m.src_epoch = D.flow_source_epoch m.dest ∧ m.seq_num = D.flow_seq_no m.dest ∧
        D'.flow_seq_no =
          update D.flow_seq_no m.dest (int64u (D.flow_seq_no m.dest + 1)) ∧
        D'.flow_source_epoch = D.flow_source_epoch) ∨
      ∃ d sec, e.stamps cf D = none ∧ e.restarts cf D = some (d, sec) ∧ 1 < D.flow_seq_no d ∧
        D'.flow_seq_no = update D.flow_seq_no d 1 ∧
        D'.flow_source_epoch = update D.flow_source_epoch d (epoch sec) := by
  obtain ⟨-, -, rfl⟩ := hstep
  have hsame : (handle cf D e).ours = D.ours → (handle cf D e).flow_seq_no = D.flow_seq_no ∧
      (handle cf D e).flow_source_epoch = D.flow_source_epoch := fun h =>
    ⟨congrArg Prod.fst h, congrArg (fun x => x.2.1) h⟩
  cases e with
  | packet sec k v pkt =>
    by_cases hack : ∃ new, pkt.body = .e2e new ∧ v = true
    · -- an end-to-end ack that verified
      obtain ⟨new, hb, rfl⟩ := hack
      obtain ⟨body, acks⟩ := pkt
      dsimp only at hb
      subst hb
      obtain ⟨fb, edge, sc, hrest⟩ := after_acks_rest cf k acks D
      obtain ⟨hseq, hep⟩ := process_e2e_numbers cf sec k new (after_acks cf k acks D)
      have hiff : e2e_restarts cf new (after_acks cf k acks D) ↔ e2e_restarts cf new D := by
        rw [hrest]
        exact Iff.rfl
      rw [← handle_e2e] at hseq hep
      simp only [hiff] at hseq hep
      rw [hrest] at hseq hep
      by_cases hre : e2e_restarts cf new D
      · rw [if_pos hre] at hseq hep
        exact .inr (.inr ⟨new.dest, sec, rfl, if_pos hre, hre.2.2, hseq, hep⟩)
      · rw [if_neg hre] at hseq hep
        exact .inl ⟨rfl, if_neg hre, hseq, hep⟩
    · have hno : ∀ new, pkt.body = .e2e new → v = false := fun new hb =>
        Bool.eq_false_of_not_eq_true (fun hv => hack ⟨new, hb, hv⟩)
      refine .inl ⟨rfl, ?_, hsame (disseminate_ours cf sec k v pkt D hno)⟩
      unfold Event.restarts
      split
      · rename_i heq
        simp only [Event.packet.injEq] at heq
        exact absurd (hno _ (by rw [heq.2.2.2])) (by simp [heq.2.2.1])
      · rfl
  | client sec dst n stamp sign_ok body =>
    by_cases hcan : reliable_flood_can_flow_send cf dst D
    · set filled := fill_packet_header_reliable_flood cf dst n stamp.mask body D
      have hstamps : Event.stamps cf D (.client sec dst n stamp sign_ok body) = some filled.2 :=
        if_pos hcan
      have hours : (handle cf D (.client sec dst n stamp sign_ok body)).ours = filled.1.ours :=
        session_send_ours cf sec dst n stamp sign_ok body D hcan
      refine .inr (.inl ⟨filled.2, hstamps, rfl, rfl, rfl, ?_, ?_⟩)
      · exact congrArg Prod.fst hours
      · exact congrArg (fun x => x.2.1) hours
    · have hstamps : Event.stamps cf D (.client sec dst n stamp sign_ok body) = none := if_neg hcan
      have hhandle : handle cf D (.client sec dst n stamp sign_ok body) = D := by
        simp only [handle, session_send_message]
        rw [if_neg hcan]
      rw [hhandle]
      exact .inl ⟨hstamps, rfl, rfl, rfl⟩
  | _ => exact .inl ⟨rfl, rfl, hsame (handle_ours cf D _ (by trivial))⟩

end Numbers

/-! ## 3. Runs of a source -/

structure Source where
  daemon : Daemon
  stamped : List Msg

def Source.next (cf : Conf) (S : Source) (e : Event) : Source where
  daemon := handle cf S.daemon e
  stamped := S.stamped ++ (e.stamps cf S.daemon).toList

def Source.Step (cf : Conf) (S : Source) (e : Event) (S' : Source) : Prop :=
  RelFlood.Step cf S.daemon e S'.daemon ∧ S' = S.next cf e

def init_source (cf : Conf) (sec : ℕ) : Source := ⟨init_reliable_flooding cf sec, []⟩

/-- Numbers start again in a later second than the last time, and no message gets
the largest 64-bit number. -/
def Event.keeps_apart (cf : Conf) (D : Daemon) (e : Event) : Prop :=
  (∀ x ∈ e.restarts cf D, D.flow_source_epoch x.1 < epoch x.2) ∧
    ∀ m ∈ e.stamps cf D, m.seq_num < ULLONG_MAX

instance (cf : Conf) (D : Daemon) (e : Event) : Decidable (e.keeps_apart cf D) :=
  inferInstanceAs (Decidable ((∀ x ∈ _, _) ∧ ∀ m ∈ _, _))

def NumbersDiffer (l : List Msg) : Prop :=
  l.Pairwise (fun m m' => m.dest = m'.dest → (m.src_epoch, m.seq_num) ≠ (m'.src_epoch, m'.seq_num))

def Msg.spent (D : Daemon) (m : Msg) : Prop :=
  m.src_epoch < D.flow_source_epoch m.dest ∨
    m.src_epoch = D.flow_source_epoch m.dest ∧ m.seq_num < D.flow_seq_no m.dest

section Runs

variable {cf : Conf} {S S' : Source} {D D' : Daemon} {e : Event}

theorem Msg.spent_step {m : Msg} (h : m.spent D) (hstep : Step cf D e D')
    (hapart : e.keeps_apart cf D) : m.spent D' := by
  rcases step_numbers hstep with ⟨-, -, hseq, hep⟩ | ⟨m', hst, -, -, hno, hseq, hep⟩ |
      ⟨d, sec, -, hre, -, hseq, hep⟩
  · unfold Msg.spent
    rw [hseq, hep]
    exact h
  · have hlt := hapart.2 m' hst
    have hnext : int64u (D.flow_seq_no m'.dest + 1) = D.flow_seq_no m'.dest + 1 := by
      unfold int64u
      unfold ULLONG_MAX at hlt
      omega
    unfold Msg.spent
    rw [hseq, hep, hnext]
    refine h.imp_right (fun hold => ⟨hold.1, ?_⟩)
    by_cases hd : m.dest = m'.dest
    · rw [hd, update_self, ← hd]
      exact Nat.lt_succ_of_lt hold.2
    · rw [update_of_ne hd]
      exact hold.2
  · have hlater := hapart.1 (d, sec) hre
    unfold Msg.spent at h ⊢
    by_cases hd : m.dest = d
    · refine .inl ?_
      rw [hep, hd, update_self]
      rw [hd] at h
      dsimp only at hlater
      omega
    · rw [hseq, hep, update_of_ne hd, update_of_ne hd]
      exact h

theorem Source.step_differ (hspent : ∀ m ∈ S.stamped, m.spent S.daemon)
    (hdiff : NumbersDiffer S.stamped) (hstep : S.Step cf e S')
    (hapart : e.keeps_apart cf S.daemon) :
    (∀ m ∈ S'.stamped, m.spent S'.daemon) ∧ NumbersDiffer S'.stamped := by
  obtain ⟨hstep, rfl⟩ := hstep
  have hkeep : ∀ m ∈ S.stamped, m.spent (S.next cf e).daemon := fun m hm =>
    Msg.spent_step (hspent m hm) hstep hapart
  cases hst : e.stamps cf S.daemon with
  | none =>
    have hsame : (S.next cf e).stamped = S.stamped := by
      simp only [Source.next, hst, Option.toList_none, append_nil]
    rw [hsame]
    exact ⟨hkeep, hdiff⟩
  | some m =>
    have hmore : (S.next cf e).stamped = S.stamped ++ [m] := by
      simp only [Source.next, hst, Option.toList_some]
    rcases step_numbers hstep with ⟨hno, -⟩ | ⟨m', hst', -, hme, hms, hseq, hep⟩ | ⟨_, _, hno, -⟩
    · rw [hst] at hno
      exact absurd hno (by simp)
    · rw [hst, Option.some_inj] at hst'
      subst hst'
      have hlt := hapart.2 m hst
      have hnext : int64u (S.daemon.flow_seq_no m.dest + 1) = S.daemon.flow_seq_no m.dest + 1 := by
        unfold int64u
        unfold ULLONG_MAX at hlt
        omega
      have hnew : m.spent (S.next cf e).daemon := by
        refine .inr ⟨by rw [hep]; exact hme, ?_⟩
        rw [hseq, update_self, hnext, hms]
        exact Nat.lt_succ_self _
      rw [hmore]
      refine ⟨fun x hx => ?_, ?_⟩
      · rcases mem_append.mp hx with hx | hx
        · exact hkeep x hx
        · rw [mem_singleton.mp hx]
          exact hnew
      · refine pairwise_append.mpr ⟨hdiff, pairwise_singleton _ _, ?_⟩
        intro x hx y hy hd heq
        rw [mem_singleton.mp hy] at hd heq
        have hold := hspent x hx
        unfold Msg.spent at hold
        simp only [Prod.mk.injEq] at heq
        rw [hd] at hold
        omega
    · rw [hst] at hno
      exact absurd hno (by simp)

/-- **No two messages to a destination carry the same epoch and number**, in every run
in which the numbers start again in later seconds only; and whenever they do, the
new epoch is larger than that of every message before. -/
theorem stamped_numbers_differ {sec : ℕ}
    (hrun : Run (fun S e S' => Source.Step cf S e S' ∧ e.keeps_apart cf S.daemon)
      (init_source cf sec) S) :
    NumbersDiffer S.stamped ∧
      ∀ e S', S.Step cf e S' → e.keeps_apart cf S.daemon → ∀ d, 1 < S.daemon.flow_seq_no d →
        S'.daemon.flow_seq_no d = 1 →
          ∀ m ∈ S.stamped, m.dest = d → m.src_epoch < S'.daemon.flow_source_epoch d := by
  have hinit : (∀ m ∈ (init_source cf sec).stamped, m.spent (init_source cf sec).daemon) ∧
      NumbersDiffer (init_source cf sec).stamped :=
    ⟨fun m hm => absurd hm (by simp [init_source]), List.Pairwise.nil⟩
  have hall : (∀ m ∈ S.stamped, m.spent S.daemon) ∧ NumbersDiffer S.stamped := by
    refine Run.invariant
      (fun S : Source => (∀ m ∈ S.stamped, m.spent S.daemon) ∧ NumbersDiffer S.stamped)
      hinit ?_ hrun
    rintro S1 e S2 ⟨hspent, hdiff⟩ ⟨hstep, hapart⟩
    exact Source.step_differ hspent hdiff hstep hapart
  refine ⟨hall.2, ?_⟩
  intro e S' hstep hapart d hmore hone m hm hd
  rcases step_numbers hstep.1 with ⟨-, -, hseq, -⟩ | ⟨m', hst, -, -, hno, hseq, -⟩ |
      ⟨d', sec', -, hre, -, hseq, hep⟩
  · rw [hseq] at hone
    omega
  · -- the next number is larger than the last one
    have hlt := hapart.2 m' hst
    rw [hseq] at hone
    by_cases hd' : d = m'.dest
    · rw [hd', update_self] at hone
      rw [hd'] at hmore
      unfold int64u at hone
      unfold ULLONG_MAX at hlt
      omega
    · rw [update_of_ne hd'] at hone
      omega
  · by_cases hd' : d = d'
    · subst hd'
      have hlater := hapart.1 (d, sec') hre
      have hold := hall.1 m hm
      unfold Msg.spent at hold
      rw [hd] at hold
      rw [hep, update_self]
      dsimp only at hlater
      omega
    · rw [hseq, update_of_ne hd'] at hone
      omega

end Runs

def knows_seven (dest_epoch : ℕ) : E2eAck :=
  ⟨3, fun i => if i = 1 then ⟨dest_epoch, 7, 0, zero_lt_word⟩ else ⟨dest_epoch, 0, 0, zero_lt_word⟩⟩

def restart_between (t₁ t₂ : ℕ) : List Event :=
  [.packet 7 1 true ⟨.e2e (knows_seven 5), []⟩,
    .client t₁ 3 1 ⟨64, 1⟩ true [1],
    .packet t₂ 1 true ⟨.e2e (knows_seven 6), []⟩,
    .client t₂ 3 1 ⟨64, 1⟩ true [2]]

theorem stamped_numbers_differ_later :
    ∃ S : Source, NumbersDiffer S.stamped ∧ S.daemon.flow_source_epoch 3 = 17 ∧
      S.stamped.length = 1 := by
  have hplay : (Lib.play (fun (S : Source) (e : Event) => S.daemon.halt = .running ∧ e.Ok source_conf ∧
      e.keeps_apart source_conf S.daemon) (Source.next source_conf) (init_source source_conf 7)
      (restart_between 7 17)).any (fun S => S.daemon.flow_source_epoch 3 = 17 ∧
        S.stamped.length = 1) = true := by decide +kernel
  obtain ⟨S, hrun, hS⟩ := Run.of_play hplay
  have hS := of_decide_eq_true hS
  refine ⟨S, (stamped_numbers_differ (Run.mono ?_ hrun)).1, hS⟩
  rintro S e S' ⟨⟨hhalt, hok, hapart⟩, rfl⟩
  exact ⟨⟨⟨hhalt, hok, rfl⟩, rfl⟩, hapart⟩

/-- **The destination restarts within the second.** Both messages carry the epoch 7
and the number 1. -/
theorem same_second_repeats_numbers :
    ∃ S : Source, Run (Source.Step source_conf) (init_source source_conf 7) S ∧
      ¬ NumbersDiffer S.stamped := by
  have hplay : (Lib.play (fun (S : Source) (e : Event) => S.daemon.halt = .running ∧ e.Ok source_conf)
      (Source.next source_conf) (init_source source_conf 7) (restart_between 7 7)).any
      (fun S => S.stamped = [⟨1, 3, 7, 1, 1, [1]⟩, ⟨1, 3, 7, 1, 1, [2]⟩]) = true := by
    decide +kernel
  obtain ⟨S, hrun, hS⟩ := Run.of_play hplay
  have hS : S.stamped = [⟨1, 3, 7, 1, 1, [1]⟩, ⟨1, 3, 7, 1, 1, [2]⟩] := of_decide_eq_true hS
  refine ⟨S, Run.mono ?_ hrun, fun hdiff => ?_⟩
  · rintro S e S' ⟨⟨hhalt, hok⟩, rfl⟩
    exact ⟨⟨hhalt, hok, rfl⟩, rfl⟩
  · rw [hS] at hdiff
    simp [NumbersDiffer] at hdiff

end Spines.RelFlood
