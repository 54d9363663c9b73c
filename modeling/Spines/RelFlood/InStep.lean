/-
The number of the next message and the flow it goes into.

`Fill_Packet_Header_Reliable_Flood` takes the number of a message from
`Flow_Seq_No` and its epoch from `Flow_Source_Epoch`. The message is accepted only
if these are `head_seq` and `src_epoch` of its flow. The three are reset in
different branches of `Reliable_Flood_Process_E2E`; `InStep` is what stays true of
them together. In a flow that is not in the current epoch, either no message was
numbered yet or the destination named an epoch that is still to come.

`Session_Send_Message` fills in the header before it signs and hands the message to
`Deliver_and_Forward_Data`, which refuses a `ttl` of 0. If the message is dropped
then, the number is gone and `head_seq` is not moved, and the flow refuses everything
this daemon sends (`abandoned_number_blocks_flow`).
-/
import Spines.RelFlood.Resuming
import Spines.RelFlood.Advance

set_option autoImplicit false

namespace Spines.RelFlood

open Spines.Lib Function

/-! ## 1. Numbers and flow -/

/-- The numbers of the messages to `d` go with the flow to `d`. -/
structure InStep (cf : Conf) (d : ℕ) (D : Daemon) : Prop where
  number : 1 ≤ D.flow_seq_no d ∧ D.flow_seq_no d < 2 ^ 64
  started : D.flow_source_epoch d ≠ 0
  /-- The flow is in the epoch that the last ack of `d` named. -/
  known : d ≠ cf.my_id → (D.fb cf.my_id d).src_epoch = ((D.e2e d).cell cf.my_id).src_epoch
  current : (D.fb cf.my_id d).src_epoch = D.flow_source_epoch d →
    D.flow_seq_no d = (D.fb cf.my_id d).head_seq ∧
      (D.fb cf.my_id d).sow ≤ (D.fb cf.my_id d).head_seq
  other : (D.fb cf.my_id d).src_epoch ≠ D.flow_source_epoch d →
    D.flow_seq_no d = 1 ∨ D.flow_source_epoch d < (D.fb cf.my_id d).src_epoch

/-- The ack acknowledges no more of this daemon's current epoch than was sent. A
request that is carried out starts the epoch first. -/
def E2eAck.honest (cf : Conf) (sec : ℕ) (new : E2eAck) (D : Daemon) : Prop :=
  (new.cell cf.my_id).src_epoch =
      (if e2e_restarts cf new D then epoch sec else D.flow_source_epoch new.dest) →
    (new.cell cf.my_id).aru < if e2e_restarts cf new D then 1 else D.flow_seq_no new.dest

instance (cf : Conf) (sec : ℕ) (new : E2eAck) (D : Daemon) : Decidable (new.honest cf sec D) :=
  inferInstanceAs (Decidable (_ → _))

/-- An ack of `d` that is carried out acknowledges no more than was sent. -/
def Event.honest (cf : Conf) (d : ℕ) (D : Daemon) : Event → Prop
  | packet sec _ true ⟨.e2e new, _⟩ => new.dest = d → e2e_accepted new D → new.honest cf sec D
  | _ => True

instance (cf : Conf) (d : ℕ) (D : Daemon) : ∀ e : Event, Decidable (e.honest cf d D)
  | .packet _ _ true ⟨.e2e _, _⟩ => inferInstanceAs (Decidable (_ → _ → _))
  | .packet _ _ false _ => .isTrue trivial
  | .packet _ _ true ⟨.data _, _⟩ => .isTrue trivial
  | .packet _ _ true ⟨.saa, _⟩ => .isTrue trivial
  | .packet _ _ true ⟨.status_change, _⟩ => .isTrue trivial
  | .client .. => .isTrue trivial
  | .gen_e2e .. => .isTrue trivial
  | .neighbor_transfer _ => .isTrue trivial
  | .e2e_event _ => .isTrue trivial
  | .send_one .. => .isTrue trivial
  | .restamp .. => .isTrue trivial

/-- What else could part numbers and flow: a message that is given up after its header was
filled in (it cannot be signed, or its `ttl` is 0), a message in this daemon's name with
the number that comes next, an ack in this daemon's own name, the epoch `0`, and the `int`
in `Reliable_Flood_Send_Data`. -/
def Event.keeps_step (cf : Conf) (d : ℕ) (D : Daemon) : Event → Prop
  | client sec dst _ stamp sign_ok _ =>
    dst = d → reliable_flood_can_flow_send cf d D → SignEnv.Signs cf ⟨sec, stamp, sign_ok⟩
  | packet _ _ true ⟨.data m, _⟩ =>
    ¬ ((m.src = cf.my_id ∧ m.dest = d) ∧ m.src_epoch = D.flow_source_epoch d ∧
      m.seq_num = D.flow_seq_no d)
  | packet sec _ true ⟨.e2e new, _⟩ =>
    new.dest = d → e2e_accepted new D →
      d ≠ cf.my_id ∧ (e2e_restarts cf new D → epoch sec ≠ 0)
  | send_one _ _ =>
    cf.hbh_advance = true → cf.hbh_opt = false → (D.fb cf.my_id d).head_seq ≤ 2 ^ 31
  | restamp _ _ =>
    cf.hbh_advance = true → cf.hbh_opt = false → (D.fb cf.my_id d).head_seq ≤ 2 ^ 31
  | _ => True

instance (cf : Conf) (d : ℕ) (D : Daemon) : ∀ e : Event, Decidable (e.keeps_step cf d D)
  | .packet _ _ true ⟨.e2e _, _⟩ => inferInstanceAs (Decidable (_ → _ → _ ∧ (_ → _)))
  | .packet _ _ false _ => .isTrue trivial
  | .packet _ _ true ⟨.data _, _⟩ => inferInstanceAs (Decidable (¬ (_ ∧ _)))
  | .packet _ _ true ⟨.saa, _⟩ => .isTrue trivial
  | .packet _ _ true ⟨.status_change, _⟩ => .isTrue trivial
  | .client .. => inferInstanceAs (Decidable (_ → _ → (_ ∧ (_ → _))))
  | .gen_e2e .. => .isTrue trivial
  | .neighbor_transfer _ => .isTrue trivial
  | .e2e_event _ => .isTrue trivial
  | .send_one .. => inferInstanceAs (Decidable (_ → _ → _))
  | .restamp .. => inferInstanceAs (Decidable (_ → _ → _))

/-! ## 2. Windows that stay below their end -/

structure Level (p : ℕ → Prop) (fb fb' : FlowBuffer) : Prop where
  epoch : fb'.src_epoch = fb.src_epoch
  head : fb'.head_seq = fb.head_seq
  start : p fb.head_seq → fb.sow ≤ fb.head_seq → fb'.sow ≤ fb.head_seq

section Level

variable {p : ℕ → Prop} {fb fb' : FlowBuffer}

theorem Level.of_eq (he : fb'.src_epoch = fb.src_epoch) (hh : fb'.head_seq = fb.head_seq)
    (hs : fb'.sow = fb.sow) : Level p fb fb' :=
  ⟨he, hh, fun _ hle => by rw [hs]; exact hle⟩

theorem Level.of_calm (h : Calm fb fb') (hs : fb'.sow = fb.sow) : Level p fb fb' :=
  Level.of_eq h.epoch h.head hs

theorem level_quiet (cf : Conf) (hp : ∀ n, p n → 0 < n ∧ n < 2 ^ 64) : KeepsQuiet cf (Level p) where
  refl _ := Level.of_eq rfl rfl rfl
  trans h h' := by
    refine ⟨h'.epoch.trans h.epoch, h'.head.trans h.head, fun hpn hle => ?_⟩
    have hstart := h'.start
    rw [h.head] at hstart
    exact hstart hpn (h.start hpn hle)
  move_up fb guarded aru := by
    obtain ⟨hs, hh, -, he⟩ :=
      advance_loop_fields cf guarded (hbh_min (fun n => n) cf fb aru + 1 - fb.sow) fb
    refine ⟨he, hh, fun hpn hle => ?_⟩
    have hmin := hbh_min_le_head cf fb aru
    rw [int64u_pred_of_pos (hp _ hpn).1 (hp _ hpn).2] at hmin
    have hpos := (hp _ hpn).1
    calc (fb.hbh_move_up cf (fun n => n) guarded aru).sow
        = fb.sow + (hbh_min (fun n => n) cf fb aru + 1 - fb.sow) := hs
      _ ≤ fb.head_seq := by omega
  ack_loop fb k aru fuel := Level.of_calm (ack_loop_calm k aru fuel fb) (ack_loop_sow fb k aru fuel)
  unsend _ _ := Level.of_eq rfl rfl rfl

def fits_int (cf : Conf) (n : ℕ) : Prop :=
  (0 < n ∧ n < 2 ^ 64) ∧ (cf.hbh_advance = true → cf.hbh_opt = false → n ≤ 2 ^ 31)

theorem level_keeps (cf : Conf) : Keeps cf (Level (fits_int cf)) where
  toKeepsQuiet := level_quiet cf (fun _ h => h.1)
  move_up_int hadv hopt fb aru _ := by
    obtain ⟨hs, hh, -, he⟩ :=
      advance_loop_fields cf true (hbh_min int64u_of_int cf fb aru + 1 - fb.sow) fb
    refine ⟨he, hh, fun hpn hle => ?_⟩
    have hint := hpn.2 hadv hopt
    have hpos := hpn.1
    have hpred := int64u_pred_of_pos hpos.1 hpos.2
    have hmin := hbh_min_le_head cf fb aru
    rw [← hbh_min_int cf fb aru (by omega), hpred] at hmin
    calc (fb.hbh_move_up cf int64u_of_int true aru).sow
        = fb.sow + (hbh_min int64u_of_int cf fb aru + 1 - fb.sow) := hs
      _ ≤ fb.head_seq := by omega
  restamp_loop fb env cnt j flag :=
    Level.of_calm (restamp_loop_calm cf env cnt j fb flag) (restamp_loop_sow cf fb env cnt j flag)
  mark_sent _ _ _ := Level.of_eq rfl rfl rfl
  resend _ _ := Level.of_eq rfl rfl rfl

end Level

/-! ## 3. What keeps numbers and flow in step -/

section Step

variable {cf : Conf} {d : ℕ} {D D' : Daemon}

theorem inStep_init {sec : ℕ} (cf : Conf) (d : ℕ) (hsec : epoch sec ≠ 0) :
    InStep cf d (init_reliable_flooding cf sec) := by
  have hfb : (init_reliable_flooding cf sec).fb cf.my_id d =
      if d = cf.my_id then { FlowBuffer.init with src_epoch := epoch sec }
      else FlowBuffer.init := by
    simp only [init_reliable_flooding, true_and]
  have hone : 1 ≤ 1 ∧ 1 < 2 ^ 64 := by decide
  refine ⟨hone, hsec, fun hd => ?_, fun _ => ?_, fun _ => .inl rfl⟩
  · rw [hfb, if_neg hd]
    simp only [init_reliable_flooding, if_neg hd]
    rfl
  · rw [hfb]
    split <;> exact ⟨rfl, le_refl 1⟩

theorem InStep.moved {p : ℕ → Prop} (h : InStep cf d D)
    (hlevel : Level p (D.fb cf.my_id d) (D'.fb cf.my_id d))
    (hp : 0 < (D.fb cf.my_id d).head_seq ∧ (D.fb cf.my_id d).head_seq < 2 ^ 64 →
      p (D.fb cf.my_id d).head_seq) (he : d ≠ cf.my_id → D'.e2e d = D.e2e d)
    (hseq : D'.flow_seq_no d = D.flow_seq_no d)
    (hep : D'.flow_source_epoch d = D.flow_source_epoch d) : InStep cf d D' := by
  refine ⟨?_, ?_, fun hd => ?_, ?_, ?_⟩
  · rw [hseq]
    exact h.number
  · rw [hep]
    exact h.started
  · rw [hlevel.epoch, he hd]
    exact h.known hd
  · rw [hlevel.epoch, hep, hseq, hlevel.head]
    intro hcur
    have hnum := h.number
    obtain ⟨hno, hle⟩ := h.current hcur
    rw [hno] at hnum
    exact ⟨hno, hlevel.start (hp hnum) hle⟩
  · rw [hlevel.epoch, hep, hseq]
    exact h.other

theorem InStep.same (h : InStep cf d D) (hfb : D'.fb cf.my_id d = D.fb cf.my_id d)
    (he : d ≠ cf.my_id → D'.e2e d = D.e2e d) (hseq : D'.flow_seq_no d = D.flow_seq_no d)
    (hep : D'.flow_source_epoch d = D.flow_source_epoch d) : InStep cf d D' :=
  h.moved (p := fun _ => True) (by rw [hfb]; exact Level.of_eq rfl rfl rfl) (fun _ => trivial) he
    hseq hep

theorem InStep.after_acks (h : InStep cf d D) (hop : ℕ) (acks : List HbhAck) :
    InStep cf d (after_acks cf hop acks D) := by
  obtain ⟨fb, edge, sc, hrest⟩ := after_acks_rest cf hop acks D
  refine h.moved ((level_quiet cf (fun _ hn => hn)).walk.after_acks hop acks D |>.bufs cf.my_id d)
    id (fun _ => ?_) ?_ ?_ <;> rw [hrest]

/-! ### Data -/

theorem process_data_level {p : ℕ → Prop} (cf : Conf) (hop : ℕ) (m : Msg) (D : Daemon)
    {s d : ℕ} (hno : s = m.src ∧ d = m.dest → data_verdict (D.fb s d) m ≠ .fresh) :
    Level p (D.fb s d) ((reliable_flood_process_data cf hop m D).1.fb s d) := by
  have hset : ∀ fb : FlowBuffer, (s = m.src ∧ d = m.dest → Level p (D.fb s d) fb) →
      Level p (D.fb s d) (set2 D.fb m.src m.dest fb s d) := by
    intro fb hfb
    by_cases hsd : s = m.src ∧ d = m.dest
    · rw [hsd.1, hsd.2, set2_self, ← hsd.1, ← hsd.2]
      exact hfb hsd
    · rw [set2_of_ne _ _ hsd]
      exact Level.of_eq rfl rfl rfl
  unfold reliable_flood_process_data
  dsimp only
  split
  · exact Level.of_eq rfl rfl rfl
  · exact Level.of_eq rfl rfl rfl
  · refine hset _ (fun hsd => ?_)
    rw [hsd.1, hsd.2]
    unfold FlowBuffer.duplicate
    split <;> exact Level.of_eq rfl rfl rfl
  · rename_i hv
    refine hset _ (fun hsd => absurd ?_ (hno hsd))
    rw [hsd.1, hsd.2]
    exact hv
  · refine hset _ (fun hsd => ?_)
    rw [hsd.1, hsd.2]
    by_cases hd : m.dest = cf.my_id
    · simp only [FlowBuffer.accept, if_pos hd, if_true]
      exact Level.of_eq rfl rfl rfl
    · obtain ⟨hs, hh, he⟩ := store_data_fields cf (D.fb m.src m.dest) hop m true
        D.num_paths_snapshot
      rw [accept_restamped_eq hop _ hd]
      exact Level.of_eq he hh hs

theorem fresh_numbers {fb : FlowBuffer} {m : Msg} (hfresh : data_verdict fb m = .fresh) :
    m.src_epoch = fb.src_epoch ∧ m.seq_num = fb.head_seq := by
  rcases data_verdict_cases fb m with
    hv | ⟨⟨hme, -⟩, ⟨-, hms, -⟩ | ⟨-, ⟨hv, -⟩ | ⟨_, -, ⟨hv, -⟩ | ⟨hv, -⟩⟩⟩⟩
  · exact absurd (hfresh.symm.trans hv) (by decide)
  · exact ⟨hme, hms⟩
  · exact absurd (hfresh.symm.trans hv) (by decide)
  · exact absurd (hfresh.symm.trans hv) (by decide)
  · exact absurd (hfresh.symm.trans hv) (by decide)

theorem InStep.process_data (h : InStep cf d D) (hop : ℕ) (m : Msg)
    (hno : ¬ ((m.src = cf.my_id ∧ m.dest = d) ∧ m.src_epoch = D.flow_source_epoch d ∧
      m.seq_num = D.flow_seq_no d)) :
    InStep cf d (reliable_flood_process_data cf hop m D).1 := by
  have hours := process_data_ours cf hop m D
  have hseq : (reliable_flood_process_data cf hop m D).1.flow_seq_no d =
    D.flow_seq_no d := congrArg (fun x => x.1 d) hours
  have hep : (reliable_flood_process_data cf hop m D).1.flow_source_epoch d =
    D.flow_source_epoch d := congrArg (fun x => x.2.1 d) hours
  have he := (process_data_walked cf hop m D).e2e d
  by_cases hfresh : (cf.my_id = m.src ∧ d = m.dest) ∧ data_verdict (D.fb cf.my_id d) m = .fresh
  · -- a fresh message is the next one of a flow in some other epoch
    have hbuf := process_data_src_epoch cf hop m D cf.my_id d
    have hnot : (D.fb cf.my_id d).src_epoch ≠ D.flow_source_epoch d := by
      intro hcur
      obtain ⟨hme, hms⟩ := fresh_numbers hfresh.2
      exact hno ⟨⟨hfresh.1.1.symm, hfresh.1.2.symm⟩, hme.trans hcur,
        hms.trans (h.current hcur).1.symm⟩
    refine ⟨?_, ?_, fun hd => ?_, fun hcur => ?_, fun _ => ?_⟩
    · rw [hseq]
      exact h.number
    · rw [hep]
      exact h.started
    · rw [hbuf, he hd]
      exact h.known hd
    · rw [hbuf, hep] at hcur
      exact absurd hcur hnot
    · rw [hbuf, hep, hseq]
      exact h.other hnot
  · refine h.moved (p := fun _ => True) (process_data_level cf hop m D ?_)
      (fun _ => trivial) he hseq hep
    exact fun hsd hv => hfresh ⟨hsd, hv⟩

/-! ### End-to-end acks -/

theorem e2e_cell_window (cf : Conf) (new old : Cell) (fb : FlowBuffer) :
    (old.dest_epoch < new.dest_epoch ∨ old.src_epoch < new.src_epoch →
        (fb.e2e_cell cf new old).sow = int64u (new.aru + 1) ∧
          (fb.e2e_cell cf new old).head_seq = int64u (new.aru + 1)) ∧
      (¬ (old.dest_epoch < new.dest_epoch ∨ old.src_epoch < new.src_epoch) →
        new.aru < fb.head_seq → fb.sow ≤ fb.head_seq →
        (fb.e2e_cell cf new old).sow ≤ fb.head_seq ∧
          (fb.e2e_cell cf new old).head_seq = fb.head_seq) := by
  unfold FlowBuffer.e2e_cell
  by_cases hde : old.dest_epoch < new.dest_epoch
  · rw [if_pos hde]
    exact ⟨fun _ => ⟨rfl, rfl⟩, fun hno => absurd (.inl hde) hno⟩
  rw [if_neg hde]
  by_cases hse : old.src_epoch < new.src_epoch
  · rw [if_pos hse]
    exact ⟨fun _ => ⟨rfl, rfl⟩, fun hno => absurd (.inr hse) hno⟩
  rw [if_neg hse]
  refine ⟨fun hnew => absurd hnew (by omega), fun _ haru hle => ?_⟩
  split
  · rw [e2e_advance_eq_slide, slide_sow, slide_head]
    omega
  · exact ⟨hle, rfl⟩

theorem InStep.own_ack (h : InStep cf d D) (hid : 1 ≤ cf.my_id ∧ cf.my_id ≤ MAX_NODES)
    (sec hop : ℕ) {new : E2eAck} (hd : new.dest = d)
    (hhonest : e2e_accepted new D → new.honest cf sec D)
    (hkeeps : e2e_accepted new D → d ≠ cf.my_id ∧ (e2e_restarts cf new D → epoch sec ≠ 0))
    (hrun : (reliable_flood_process_e2e cf sec hop new D).halt = .running) :
    InStep cf d (reliable_flood_process_e2e cf sec hop new D) := by
  subst hd
  by_cases hacc : e2e_accepted new D
  swap
  · rcases process_e2e_cases cf sec hop new D with ⟨-, heq⟩ | ⟨hacc', -⟩
    · rw [heq]
      exact h
    · exact absurd hacc' hacc
  obtain ⟨hmy, hsec⟩ := hkeeps hacc
  have hhonest := hhonest hacc
  unfold E2eAck.honest at hhonest
  have hknown := h.known hmy
  have hnumber := h.number
  have hstarted := h.started
  -- the numbers once the handshake was looked at
  obtain ⟨hseq, hep⟩ := process_e2e_numbers cf sec hop new D
  have hseq : (reliable_flood_process_e2e cf sec hop new D).flow_seq_no new.dest =
      if e2e_restarts cf new D then 1 else D.flow_seq_no new.dest := by
    rw [hseq]
    split
    · exact update_self _ _ _
    · rfl
  have hep : (reliable_flood_process_e2e cf sec hop new D).flow_source_epoch new.dest =
      if e2e_restarts cf new D then epoch sec else D.flow_source_epoch new.dest := by
    rw [hep]
    split
    · exact update_self _ _ _
    · rfl
  rcases own_ack_cases hid sec hop hmy hacc with
    ⟨href, heq, hfb, he⟩ | hhang | ⟨D', heq, hfb, he, -⟩
  · -- an answer that is refused acknowledges something, so nothing was started again
    have hans : (new.cell cf.my_id).src_epoch =
        (reliable_flood_process_e2e cf sec hop new D).flow_source_epoch new.dest := by
      rw [heq]
      exact href.1.2
    have haru := hhonest (hans.trans hep)
    have hne := href.2
    by_cases hre : e2e_restarts cf new D
    · rw [if_pos hre] at haru
      omega
    · rw [if_neg hre] at hseq hep
      exact h.same (by rw [heq, hfb]) (fun _ => by rw [heq, he]) hseq hep
  · rw [hhang] at hrun
    exact absurd hrun (by simp)
  · -- no cell is older than the one before
    have hcell := hacc.2.1 cf.my_id (List.mem_range'_1.mpr (by omega))
    unfold Cell.older at hcell
    obtain ⟨hreset, hsame⟩ := e2e_cell_window cf (new.cell cf.my_id)
      ((D.e2e new.dest).cell cf.my_id) (D.fb cf.my_id new.dest)
    have hbuf : (D'.fb cf.my_id new.dest).src_epoch = (new.cell cf.my_id).src_epoch := by
      rw [hfb, e2e_cell_src_epoch]
      split
      · rfl
      · omega
    rw [heq] at hseq hep ⊢
    have hnumber' : 1 ≤ D'.flow_seq_no new.dest ∧ D'.flow_seq_no new.dest < 2 ^ 64 := by
      rw [hseq]
      split <;> omega
    have hstarted' : D'.flow_source_epoch new.dest ≠ 0 := by
      rw [hep]
      split
      · rename_i hre
        exact hsec hre
      · exact hstarted
    have hknown' : (D'.fb cf.my_id new.dest).src_epoch =
        ((D'.e2e new.dest).cell cf.my_id).src_epoch := by
      rw [hbuf, he]
    by_cases hnew : ((D.e2e new.dest).cell cf.my_id).dest_epoch < (new.cell cf.my_id).dest_epoch ∨
        ((D.e2e new.dest).cell cf.my_id).src_epoch < (new.cell cf.my_id).src_epoch
    · -- the window starts again; nothing was sent in the epoch, if it is the current one
      obtain ⟨hsow, hhead⟩ := hreset hnew
      have hkey : D'.flow_seq_no new.dest = 1 ∨
          D'.flow_source_epoch new.dest < (new.cell cf.my_id).src_epoch := by
        rw [hseq, hep]
        by_cases hre : e2e_restarts cf new D
        · rw [if_pos hre]
          exact .inl rfl
        rw [if_neg hre, if_neg hre]
        by_cases hreq : e2e_requests cf new D
        · have hfew : ¬ 1 < D.flow_seq_no new.dest := fun hmore => hre ⟨hacc, hreq, hmore⟩
          exact .inl (by omega)
        · unfold e2e_requests at hreq
          by_cases hcur : (D.fb cf.my_id new.dest).src_epoch = D.flow_source_epoch new.dest
          · exact .inr (by omega)
          · exact (h.other hcur).imp_right (fun hlt => by omega)
      refine ⟨hnumber', hstarted', fun _ => hknown', fun hcur => ?_, fun _ => ?_⟩
      · rw [hbuf] at hcur
        have hone : D'.flow_seq_no new.dest = 1 := hkey.resolve_right (by omega)
        have haru := hhonest (hcur.trans hep)
        rw [← hseq, hone] at haru
        have hzero : (new.cell cf.my_id).aru = 0 := by omega
        rw [hone, hfb, hsow, hhead, hzero]
        unfold int64u
        decide
      · rw [hbuf]
        exact hkey
    · -- no request; the flow goes on
      have hre : ¬ e2e_restarts cf new D := fun hre => hnew (.inl hre.2.1)
      rw [if_neg hre] at hseq hep
      rw [if_neg hre, if_neg hre] at hhonest
      have hsame_ep : (D'.fb cf.my_id new.dest).src_epoch = (D.fb cf.my_id new.dest).src_epoch := by
        rw [hbuf]
        omega
      refine ⟨hnumber', hstarted', fun _ => hknown', fun hcur => ?_, fun hcur => ?_⟩
      · rw [hsame_ep, hep] at hcur
        obtain ⟨hno, hle⟩ := h.current hcur
        have haru := hhonest (by omega)
        obtain ⟨hsow, hhead⟩ := hsame hnew (by omega) hle
        rw [hseq, hfb, hhead]
        exact ⟨hno, hsow⟩
      · rw [hsame_ep, hep] at hcur ⊢
        rw [hseq]
        exact h.other hcur

theorem InStep.other_ack (h : InStep cf d D) (sec hop : ℕ) {new : E2eAck}
    (hd : d ≠ new.dest) : InStep cf d (reliable_flood_process_e2e cf sec hop new D) := by
  obtain ⟨D', heq, hfb, he, hseq, hep, -⟩ := process_e2e_other cf sec hop D hd
  rw [heq]
  exact h.same hfb he hseq hep

/-! ### Events -/

theorem InStep.disseminate (h : InStep cf d D) (hid : 1 ≤ cf.my_id ∧ cf.my_id ≤ MAX_NODES)
    (sec hop : ℕ) (verified : Bool) (pkt : Packet)
    (hhonest : (Event.packet sec hop verified pkt).honest cf d D)
    (hkeeps : (Event.packet sec hop verified pkt).keeps_step cf d D)
    (hrun : (∃ new, pkt.body = .e2e new) →
      (reliable_flood_disseminate cf sec hop verified pkt D).1.halt = .running) :
    InStep cf d (reliable_flood_disseminate cf sec hop verified pkt D).1 := by
  obtain ⟨body, acks⟩ := pkt
  have hacks := h.after_acks hop acks
  obtain ⟨fb, edge, sc, hrest⟩ := after_acks_rest cf hop acks D
  rcases disseminate_cases cf sec hop verified ⟨body, acks⟩ D with
    heq | heq | ⟨m, hb, hv, -, -, heq⟩ | ⟨new, hb, hv, heq⟩
  · rw [heq]
    exact h.same rfl (fun _ => rfl) rfl rfl
  · rw [heq]
    exact hacks
  · dsimp only at hb
    subst hb hv
    rw [heq]
    refine hacks.process_data hop m ?_
    rw [hrest]
    exact hkeeps
  · dsimp only at hb
    subst hb hv
    have hrun := hrun ⟨new, rfl⟩
    rw [heq] at hrun ⊢
    by_cases hd : d = new.dest
    · refine hacks.own_ack hid sec hop hd.symm ?_ ?_ hrun
      · rw [hrest]
        exact hhonest hd.symm
      · rw [hrest]
        exact hkeeps hd.symm
    · exact hacks.other_ack sec hop hd

theorem InStep.synced (h : InStep cf d D) (hcan : reliable_flood_can_flow_send cf d D) :
    Synced cf d D := by
  have hcur := hcan.2.2.symm
  obtain ⟨hno, hle⟩ := h.current hcur
  exact ⟨hno, hle, by rw [hcur]; exact h.started⟩

theorem InStep.session_send (h : InStep cf d D) (hid : 1 ≤ cf.my_id ∧ cf.my_id ≤ MAX_NODES)
    (sec dst num_paths : ℕ) (stamp : Stamp) (sign_ok : Bool) (body : List UInt8)
    (hkeeps : (Event.client sec dst num_paths stamp sign_ok body).keeps_step cf d D) :
    InStep cf d (session_send_message cf sec dst num_paths stamp sign_ok body D) := by
  by_cases hcan : reliable_flood_can_flow_send cf dst D
  swap
  · rw [session_send_message, if_neg hcan]
    exact h
  by_cases hd : d = dst
  · -- the flow accepts the message
    subst hd
    have hsync := h.synced hcan
    obtain ⟨-, D', heq, -, hep, -, hbuf, hsync'⟩ :=
      @session_send_message_accepted cf ⟨sec, stamp, sign_ok⟩ ⟨d, num_paths, body, hcan.1⟩ D hid
        hcan hsync (hkeeps rfl hcan)
    dsimp only at heq hbuf hsync'
    have hbound := (room_of_check hcan.2.1).2
    have hours := session_send_ours cf sec d num_paths stamp sign_ok body D hcan
    have he := (session_send_message_effects cf sec d num_paths stamp sign_ok body D).e2e d
    rw [heq] at hours he ⊢
    have hseq : D'.flow_seq_no d = D.flow_seq_no d + 1 := by
      have hnext : D'.flow_seq_no d = int64u (D.flow_seq_no d + 1) :=
        (congrArg (fun x => x.1 d) hours).trans (update_self _ _ _)
      rw [hnext, hsync.seq]
      unfold int64u
      exact Nat.mod_eq_of_lt hbound
    have hsame : (D'.fb cf.my_id d).src_epoch = D'.flow_source_epoch d := by
      rw [hbuf, hep]
      exact hcan.2.2.symm
    refine ⟨?_, ?_, fun hd => ?_, fun _ => ⟨hsync'.seq, hsync'.window⟩, fun hno => absurd hsame hno⟩
    · rw [hseq, hsync.seq]
      omega
    · rw [hep]
      exact h.started
    · rw [hbuf, he hd]
      exact h.known hd
  · -- another flow
    have hfilled : InStep cf d
        (fill_packet_header_reliable_flood cf dst num_paths stamp.mask body D).1 :=
      h.same rfl (fun _ => rfl) (update_of_ne hd _ _) rfl
    rw [session_send_message, if_pos hcan]
    split
    · exact hfilled
    · refine hfilled.disseminate hid sec 0 true _ trivial (fun hnext => hd hnext.1.2.symm) ?_
      rintro ⟨new, hb⟩
      simp at hb

theorem InStep.step {e : Event} (h : InStep cf d D) (hid : 1 ≤ cf.my_id ∧ cf.my_id ≤ MAX_NODES)
    (hstep : Step cf D e D') (hhonest : e.honest cf d D) (hkeeps : e.keeps_step cf d D)
    (hrun : D'.halt = .running) : InStep cf d D' := by
  obtain ⟨-, -, rfl⟩ := hstep
  have hquiet := level_quiet cf (fun n (hn : 0 < n ∧ n < 2 ^ 64) => hn)
  have hmoved : ∀ {p : ℕ → Prop},
      Level p (D.fb cf.my_id d) ((handle cf D e).fb cf.my_id d) →
      (0 < (D.fb cf.my_id d).head_seq ∧ (D.fb cf.my_id d).head_seq < 2 ^ 64 →
        p (D.fb cf.my_id d).head_seq) →
      e.Internal → InStep cf d (handle cf D e) := by
    intro p hlevel hp hin
    have heff := handle_effects cf D e (fun sec k new acks he => by rwa [he] at hin)
    have hours := handle_ours cf D e hin
    exact h.moved hlevel hp (heff.e2e d) (congrArg (fun x => x.1 d) hours)
      (congrArg (fun x => x.2.1 d) hours)
  cases e with
  | packet sec k v pkt => exact h.disseminate hid sec k v pkt hhonest hkeeps (fun _ => hrun)
  | client sec dst n stamp sign_ok body =>
    exact h.session_send hid sec dst n stamp sign_ok body hkeeps
  | gen_e2e now send => exact hmoved ((hquiet.walk.gen_e2e now send D).bufs cf.my_id d) id trivial
  | neighbor_transfer k =>
    have hlevel := (hquiet.walk.neighbor_transfer k D).bufs cf.my_id d
    refine hmoved (p := fun n => 0 < n ∧ n < 2 ^ 64) ?_ id trivial
    rw [handle]
    exact hlevel
  | e2e_event k => exact hmoved ((hquiet.walk.e2e_event k D).bufs cf.my_id d) id trivial
  | send_one k env =>
    exact hmoved (((level_keeps cf).walk.send_one k env D).bufs cf.my_id d) (fun hn => ⟨hn, hkeeps⟩) trivial
  | restamp env i =>
    exact hmoved (((level_keeps cf).walk.restamp_dest env D i).bufs cf.my_id d) (fun hn => ⟨hn, hkeeps⟩)
      trivial

end Step

/-! ## 4. Runs -/

/-- **A message that can be sent is accepted.** In every run whose steps keep numbers
and flow in step, a flow that can send has the epoch and the number of the next
message, and `Reliable_Flood_Process_Data` takes it. -/
theorem next_number_accepted {cf : Conf} (hid : 1 ≤ cf.my_id ∧ cf.my_id ≤ MAX_NODES) (d : ℕ)
    {sec : ℕ} (hsec : epoch sec ≠ 0) {D : Daemon}
    (hrun : Run (fun D e D' => Step cf D e D' ∧ e.honest cf d D ∧ e.keeps_step cf d D)
      (init_reliable_flooding cf sec) D)
    (hrunning : D.halt = .running) (hcan : reliable_flood_can_flow_send cf d D) :
    D.flow_seq_no d = (D.fb cf.my_id d).head_seq ∧
      D.flow_source_epoch d = (D.fb cf.my_id d).src_epoch ∧
      ∀ num_paths mask body,
        let filled := fill_packet_header_reliable_flood cf d num_paths mask body D
        data_verdict (filled.1.fb cf.my_id d) filled.2 = .fresh ∧
          (reliable_flood_process_data cf 0 filled.2 filled.1).2 = .buff_ok := by
  have hinv : D.halt = .running → InStep cf d D := by
    refine Run.invariant (fun D : Daemon => D.halt = .running → InStep cf d D)
      (fun _ => inStep_init cf d hsec) ?_ hrun
    rintro D1 e D2 h ⟨hstep, hhonest, hkeeps⟩ hrunning
    exact (h hstep.1).step hid hstep hhonest hkeeps hrunning
  have hsync := (hinv hrunning).synced hcan
  refine ⟨hsync.seq, hcan.2.2, fun num_paths mask body => ?_⟩
  have hfresh := hsync.fresh hcan num_paths mask body
  refine ⟨hfresh, ?_⟩
  set filled := fill_packet_header_reliable_flood cf d num_paths mask body D
  unfold reliable_flood_process_data
  dsimp only
  rw [show data_verdict (filled.1.fb filled.2.src filled.2.dest) filled.2 = .fresh from hfresh]

theorem next_number_accepted_third :
    ∃ D, D.flow_seq_no 3 = 3 ∧ reliable_flood_can_flow_send source_conf 3 D ∧
      D.flow_seq_no 3 = (D.fb 1 3).head_seq := by
  have hplay : (Lib.play (fun (D : Daemon) (e : Event) => (D.halt = .running ∧ e.Ok source_conf) ∧
      e.honest source_conf 3 D ∧ e.keeps_step source_conf 3 D) (handle source_conf)
      (init_reliable_flooding source_conf 7)
      [.packet 7 1 true ⟨.e2e (knows_seven 5), []⟩, .client 7 3 1 ⟨64, 1⟩ true [1],
        .client 7 3 1 ⟨64, 1⟩ true [2]]).any (fun D => D.halt = .running ∧ D.flow_seq_no 3 = 3 ∧
          reliable_flood_can_flow_send source_conf 3 D) = true := by decide +kernel
  obtain ⟨D, hrun, hD⟩ := Run.of_play hplay
  obtain ⟨hhalt, hseq, hcan⟩ := of_decide_eq_true hD
  refine ⟨D, hseq, hcan, (next_number_accepted (by decide) 3 (by decide)
    (Run.mono ?_ hrun) hhalt hcan).1⟩
  rintro D e D' ⟨⟨⟨hhalt, hok⟩, hconds⟩, rfl⟩
  exact ⟨⟨hhalt, hok, rfl⟩, hconds⟩

/-- **One message cannot be signed, or has the `ttl` 0.** Its number 1 is gone, the flow still
waits for it, and the next message, number 2, is refused. -/
theorem abandoned_number_blocks_flow :
    [(.client 7 3 1 ⟨64, 1⟩ false [1] : Event), .client 7 3 1 ⟨0, 1⟩ true [1]].Forall fun e =>
      ∃ D D', Run (fun D e D' => Step source_conf D e D' ∧ e.honest source_conf 3 D)
          (init_reliable_flooding source_conf 7) D ∧
        (Step source_conf D e D' ∧ e.honest source_conf 3 D) ∧
        reliable_flood_can_flow_send source_conf 3 D' ∧
        D'.flow_seq_no 3 ≠ (D'.fb 1 3).head_seq ∧
        data_verdict (D'.fb 1 3) (fill_packet_header_reliable_flood source_conf 3 1 1 [2] D').2 =
          .refused := by
  refine List.forall_iff_forall_mem.mpr fun e he => ?_
  have hplay : ∀ e ∈ [(.client 7 3 1 ⟨64, 1⟩ false [1] : Event), .client 7 3 1 ⟨0, 1⟩ true [1]],
      (Lib.play (fun (D : Daemon) (e : Event) => (D.halt = .running ∧ e.Ok source_conf) ∧
        e.honest source_conf 3 D) (handle source_conf) (init_reliable_flooding source_conf 7)
        [.packet 7 1 true ⟨.e2e (knows_seven 5), []⟩]).any
        (fun D => ((D.halt = .running ∧ e.Ok source_conf) ∧ e.honest source_conf 3 D) ∧
          (fun D' => reliable_flood_can_flow_send source_conf 3 D' ∧
            D'.flow_seq_no 3 ≠ (D'.fb 1 3).head_seq ∧
            data_verdict (D'.fb 1 3)
              (fill_packet_header_reliable_flood source_conf 3 1 1 [2] D').2 = .refused)
            (handle source_conf D e)) = true := by decide +kernel
  obtain ⟨D, hrun, hD⟩ := Run.of_play (hplay e he)
  obtain ⟨⟨⟨hhalt, hok⟩, hhonest⟩, hlost⟩ := of_decide_eq_true hD
  refine ⟨D, _, Run.mono ?_ hrun, ⟨⟨hhalt, hok, rfl⟩, hhonest⟩, hlost⟩
  rintro D e D' ⟨⟨⟨hhalt, hok⟩, hhonest⟩, rfl⟩
  exact ⟨⟨hhalt, hok, rfl⟩, hhonest⟩

end Spines.RelFlood
