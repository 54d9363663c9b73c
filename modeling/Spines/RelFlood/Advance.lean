/-
Where the window of a flow moves up hop by hop.

With `HBH_Advance`, three functions of `daemon/reliable_flood.c` look for the
smallest of `head_seq - 1`, of the arus of the neighbours and, without
`HBH_Opt`, of `next_seq[j] - 1`, and move `sow` up to the message after it:
`Reliable_Flood_Process_Data`, `Reliable_Flood_Process_Acks` and
`Reliable_Flood_Send_Data`. The first two keep the smallest number in an
`int64u`, the third in an `int`.

A window that starts at 0 comes from an end-to-end ack with the largest aru;
`next_seq[j] - 1` is the largest number then, not the smallest (`Event.wraps`).
-/
import Spines.RelFlood.E2eLoops
import Spines.RelFlood.Keeps

set_option autoImplicit false

namespace Spines.RelFlood

open Spines.Lib Function

/-! ## 1. The bound -/

/-- One more than the smallest of `head_seq - 1`, the arus of the neighbours and,
without `HBH_Opt`, `next_seq[j] - 1`: the first message of the window that some
neighbour may still need, or its end. -/
def first_kept (cf : Conf) (fb : FlowBuffer) (aru : ℕ → ℕ) : ℕ :=
  (List.range' 1 cf.degree).foldl
    (fun n j => min n (if cf.hbh_opt then aru j + 1 else min (aru j + 1) (fb.next_seq j)))
    fb.head_seq

structure InRange (cf : Conf) (fb : FlowBuffer) : Prop where
  sow : 0 < fb.sow ∧ fb.sow < 2 ^ 64
  head : 0 < fb.head_seq ∧ fb.head_seq < 2 ^ 64
  next : ∀ k, cf.nbr k → 0 < fb.next_seq k ∧ fb.next_seq k < 2 ^ 64

section Bound

variable {cf : Conf} {fb fb' : FlowBuffer}

theorem first_kept_le_aru (cf : Conf) (fb : FlowBuffer) (aru : ℕ → ℕ) {j : ℕ} (hj : cf.nbr j) :
    first_kept cf fb aru ≤ aru j + 1 := by
  refine (foldl_min_le (fun m i => Nat.min_le_left _ _) _ _).2 j (mem_range'_nbr hj) _ (fun m => ?_)
  refine le_trans (Nat.min_le_right _ _) ?_
  split
  · exact le_refl _
  · exact Nat.min_le_left _ _

theorem hbh_min_succ (h : InRange cf fb) (aru : ℕ → ℕ) :
    hbh_min (fun n => n) cf fb aru + 1 = first_kept cf fb aru := by
  have hstep : ∀ m j, cf.nbr j → hbh_min_step (fun n => n) cf fb aru m j + 1 =
      min (m + 1) (if cf.hbh_opt then aru j + 1 else min (aru j + 1) (fb.next_seq j)) := by
    intro m j hj
    have hpred := int64u_pred_of_pos (h.next j hj).1 (h.next j hj).2
    have hpos := (h.next j hj).1
    simp only [hbh_min_step, hpred]
    cases hopt : cf.hbh_opt with
    | true =>
      simp only [Bool.true_eq_false, false_and, if_false, if_true]
      split <;> omega
    | false =>
      simp only [true_and, Bool.false_eq_true, if_false]
      split <;> split <;> omega
  have hloop : ∀ (l : List ℕ) (m : ℕ), (∀ j ∈ l, cf.nbr j) →
      l.foldl (hbh_min_step (fun n => n) cf fb aru) m + 1 =
        l.foldl (fun n j => min n
          (if cf.hbh_opt then aru j + 1 else min (aru j + 1) (fb.next_seq j))) (m + 1) := by
    intro l
    induction l with
    | nil => intro m _; rfl
    | cons j l ih =>
      intro m hl
      rw [List.foldl_cons, List.foldl_cons, ← hstep m j (hl j (by simp))]
      exact ih _ (fun i hi => hl i (by simp [hi]))
  have hhead : int64u_pred fb.head_seq + 1 = fb.head_seq := by
    rw [int64u_pred_of_pos h.head.1 h.head.2]
    have hpos := h.head.1
    omega
  rw [hbh_min, hloop _ _ (fun j hj => ?_), hhead, first_kept]
  rw [List.mem_range'_1] at hj
  exact ⟨hj.1, by omega⟩

theorem int64u_of_int_lt (n : ℕ) : int64u_of_int n < 2 ^ 64 := by
  unfold int64u_of_int
  split <;> omega

theorem hbh_min_int_lt (cf : Conf) (fb : FlowBuffer) (aru : ℕ → ℕ) :
    hbh_min int64u_of_int cf fb aru < 2 ^ 64 := by
  have hstep : ∀ m j, m < 2 ^ 64 → hbh_min_step int64u_of_int cf fb aru m j < 2 ^ 64 := by
    intro m j hm
    have h1 := int64u_of_int_lt (aru j)
    have h2 := int64u_of_int_lt (int64u_pred (fb.next_seq j))
    simp only [hbh_min_step]
    split <;> split <;> assumption
  have hloop : ∀ (l : List ℕ) (m : ℕ), m < 2 ^ 64 →
      l.foldl (hbh_min_step int64u_of_int cf fb aru) m < 2 ^ 64 := by
    intro l
    induction l with
    | nil => intro m hm; exact hm
    | cons j l ih => intro m hm; exact ih _ (hstep m j hm)
  exact hloop _ _ (int64u_of_int_lt _)

theorem hbh_move_up_start (cf : Conf) (conv : ℕ → ℕ) (guarded : Bool) (aru : ℕ → ℕ)
    (fb : FlowBuffer) :
    (fb.hbh_move_up cf conv guarded aru).sow = max fb.sow (hbh_min conv cf fb aru + 1) := by
  obtain ⟨hsow, -, -, -⟩ :=
    advance_loop_fields cf guarded (hbh_min conv cf fb aru + 1 - fb.sow) fb
  have hs : (fb.hbh_move_up cf conv guarded aru).sow =
      (advance_loop cf guarded (hbh_min conv cf fb aru + 1 - fb.sow) fb).sow := rfl
  rw [hs, hsow]
  omega

/-- The window of `fb'` starts where the bound of `fb` says, and not past a message
some neighbour did not acknowledge. -/
def Advanced (cf : Conf) (fb : FlowBuffer) (aru : ℕ → ℕ) (fb' : FlowBuffer) : Prop :=
  fb'.sow = max fb.sow (first_kept cf fb aru) ∧
    ∀ j, cf.nbr j → fb'.sow ≤ max fb.sow (aru j + 1)

theorem hbh_move_up_advanced {conv : ℕ → ℕ} {aru : ℕ → ℕ} (guarded : Bool) (h : InRange cf fb)
    (hconv : hbh_min conv cf fb aru = hbh_min (fun n => n) cf fb aru) :
    Advanced cf fb aru (fb.hbh_move_up cf conv guarded aru) := by
  have hsow : (fb.hbh_move_up cf conv guarded aru).sow = max fb.sow (first_kept cf fb aru) := by
    rw [hbh_move_up_start, hconv, hbh_min_succ h]
  refine ⟨hsow, fun j hj => ?_⟩
  have hle := first_kept_le_aru cf fb aru hj
  rw [hsow]
  omega

end Bound

/-! ## 2. Numbers that stay in range -/

section InRange

variable {cf : Conf} {fb fb' : FlowBuffer}

theorem skip_sent_ge (fb : FlowBuffer) (k n : ℕ) : n ≤ fb.skip_sent k n :=
  (fb.skip_sent_spec k n).le

theorem skip_sent_le (fb : FlowBuffer) (k n : ℕ) : fb.skip_sent k n ≤ max n fb.head_seq := by
  by_cases hn : n ≤ fb.head_seq
  · have hle := (fb.skip_sent_spec k n).le_head hn
    omega
  · have hfuel : fb.head_seq - n = 0 := by omega
    rw [FlowBuffer.skip_sent, hfuel, skip_loop]
    exact Nat.le_max_left _ _

theorem InRange.moved (h : InRange cf fb) (hsow : fb'.sow = fb.sow)
    (hhead : fb'.head_seq = fb.head_seq) (hnext : ∀ k, min fb.sow (fb.next_seq k) ≤ fb'.next_seq k ∧
      fb'.next_seq k ≤ max (max fb.sow (fb.next_seq k)) fb.head_seq) : InRange cf fb' := by
  have hs := h.sow
  have hh := h.head
  refine ⟨by rw [hsow]; exact hs, by rw [hhead]; exact hh, fun k hk => ?_⟩
  have hn := h.next k hk
  have hn' := hnext k
  omega

theorem InRange.same (h : InRange cf fb) (hsow : fb'.sow = fb.sow)
    (hhead : fb'.head_seq = fb.head_seq) (hnext : fb'.next_seq = fb.next_seq) : InRange cf fb' :=
  h.moved hsow hhead (fun k => by rw [hnext]; omega)

theorem InRange.update (h : InRange cf fb) (k n : ℕ) (hsow : fb'.sow = fb.sow)
    (hhead : fb'.head_seq = fb.head_seq) (hnext : fb'.next_seq = update fb.next_seq k n)
    (hn : min fb.sow (fb.next_seq k) ≤ n ∧ n ≤ max (max fb.sow (fb.next_seq k)) fb.head_seq) :
    InRange cf fb' := by
  refine h.moved hsow hhead (fun j => ?_)
  rw [hnext]
  by_cases hj : j = k
  · rw [hj, update_self]
    exact hn
  · rw [update_of_ne hj]
    omega

theorem InRange.raise (h : InRange cf fb) : InRange cf (fb.raise_next cf) := by
  refine h.moved rfl rfl (fun k => ?_)
  by_cases hk : cf.nbr k
  · rw [raise_next_next fb hk]
    have hge := skip_sent_ge fb k (max (fb.next_seq k) fb.sow)
    have hle := skip_sent_le fb k (max (fb.next_seq k) fb.sow)
    omega
  · simp only [FlowBuffer.raise_next, Conf.each_other _ _ hk]
    omega

theorem InRange.advance (h : InRange cf fb) (guarded : Bool) {m : ℕ} (hm : m + 1 < 2 ^ 64) :
    InRange cf (fb.advance_sow cf guarded m) := by
  obtain ⟨hsow, hhead, hnext, -⟩ := advance_loop_fields cf guarded (m + 1 - fb.sow) fb
  have hs := h.sow
  refine ⟨?_, ?_, fun k hk => ?_⟩
  · rw [FlowBuffer.advance_sow, hsow]
    omega
  · rw [FlowBuffer.advance_sow, hhead]
    exact h.head
  · rw [FlowBuffer.advance_sow, hnext]
    exact h.next k hk

theorem InRange.move_up (h : InRange cf fb) (conv : ℕ → ℕ) (guarded : Bool) (aru : ℕ → ℕ)
    (hmin : hbh_min conv cf fb aru + 1 < 2 ^ 64) :
    InRange cf (fb.hbh_move_up cf conv guarded aru) :=
  (h.advance guarded hmin).raise

theorem InRange.ack_loop (k aru fuel : ℕ) : ∀ {fb : FlowBuffer}, InRange cf fb →
    InRange cf (ack_loop k aru fuel fb) := by
  induction fuel with
  | zero => intro fb h; exact h
  | succ fuel ih =>
    intro fb h
    rw [RelFlood.ack_loop]
    split
    · rename_i hlt
      exact ih (h.update k (fb.next_seq k + 1) rfl rfl rfl (by omega))
    · exact h

theorem InRange.restamp_loop (env : StampEnv) (cnt : ℕ) : ∀ (j : ℕ) {fb : FlowBuffer} (flag : Bool),
    InRange cf fb → InRange cf (restamp_loop cf env cnt j fb flag).1 := by
  induction cnt with
  | zero => intro j fb flag h; exact h
  | succ cnt ih =>
    intro j fb flag h
    rw [RelFlood.restamp_loop]
    split
    · dsimp only
      split
      · exact ih _ _ h
      · split
        · exact h.same rfl rfl rfl
        · exact ih _ _ (h.same rfl rfl rfl)
    · exact h

theorem InRange.mark_sent (h : InRange cf fb) (k idx : ℕ) : InRange cf (fb.mark_sent k idx) := by
  refine h.update k _ rfl rfl rfl ?_
  have hge := skip_sent_ge
    { fb with status := set2 fb.status idx k (fb.status idx k).mark_sent } k (fb.next_seq k)
  have hle := skip_sent_le
    { fb with status := set2 fb.status idx k (fb.status idx k).mark_sent } k (fb.next_seq k)
  dsimp only at hge hle ⊢
  omega

theorem inRange_keeps (cf : Conf) : Keeps cf (fun fb fb' => InRange cf fb → InRange cf fb') where
  refl _ h := h
  trans h h' hfb := h' (h hfb)
  move_up fb guarded aru h := by
    refine h.move_up _ guarded aru ?_
    have hle := hbh_min_le_head cf fb aru
    have hhead := h.head
    rw [int64u_pred_of_pos hhead.1 hhead.2] at hle
    omega
  move_up_int _ _ fb aru hmin h := by
    refine h.move_up _ true aru ?_
    have hlt := hbh_min_int_lt cf fb aru
    unfold ULLONG_MAX at hmin
    omega
  ack_loop _ k aru fuel h := h.ack_loop k aru fuel
  restamp_loop _ env cnt j flag h := h.restamp_loop env cnt j flag
  unsend fb k h := h.update k fb.sow rfl rfl rfl (by omega)
  mark_sent _ k idx h := h.mark_sent k idx
  resend fb k h := by
    refine h.update k (fb.skip_sent k fb.sow) rfl rfl rfl ?_
    have hge := skip_sent_ge fb k fb.sow
    have hle := skip_sent_le fb k fb.sow
    omega

end InRange

/-! ## 3. Packets -/

/-- The cell restarts the window of its flow at `0`. -/
def Cell.wraps (new old : Cell) : Prop :=
  (old.dest_epoch < new.dest_epoch ∨ old.src_epoch < new.src_epoch) ∧ new.aru = ULLONG_MAX

instance (new old : Cell) : Decidable (new.wraps old) := inferInstanceAs (Decidable (_ ∧ _))

/-- The end-to-end ack gets as far as its cells, and one of them restarts the
window of its flow at `0`. -/
def e2e_wraps (cf : Conf) (sec : ℕ) (new : E2eAck) (D : Daemon) : Prop :=
  reaches_cells cf sec new D ∧ ∃ i ∈ List.range' 1 MAX_NODES,
    (new.cell i).wraps (((handshake cf sec new D).e2e new.dest).cell i)

instance (cf : Conf) (sec : ℕ) (new : E2eAck) (D : Daemon) : Decidable (e2e_wraps cf sec new D) :=
  inferInstanceAs (Decidable (_ ∧ ∃ i ∈ _, _))

def Event.wraps (cf : Conf) (D : Daemon) : Event → Prop
  | packet sec k verified pkt =>
    match pkt.body with
    | .e2e new => verified = true ∧ e2e_wraps cf sec new (after_acks cf k pkt.acks D)
    | _ => False
  | _ => False

instance (cf : Conf) (D : Daemon) : ∀ e : Event, Decidable (e.wraps cf D)
  | .packet sec k verified ⟨.e2e new, acks⟩ =>
    inferInstanceAs (Decidable (verified = true ∧ e2e_wraps cf sec new (after_acks cf k acks D)))
  | .packet _ _ _ ⟨.data _, _⟩ => .isFalse id
  | .packet _ _ _ ⟨.saa, _⟩ => .isFalse id
  | .packet _ _ _ ⟨.status_change, _⟩ => .isFalse id
  | .client .. => .isFalse id
  | .gen_e2e .. => .isFalse id
  | .neighbor_transfer _ => .isFalse id
  | .e2e_event _ => .isFalse id
  | .send_one .. => .isFalse id
  | .restamp .. => .isFalse id

def AllInRange (cf : Conf) (D : Daemon) : Prop := ∀ s d, InRange cf (D.fb s d)

section Packets

variable {cf : Conf} {fb : FlowBuffer} {D D' : Daemon}

theorem AllInRange.pointwise (h : AllInRange cf D)
    (hp : Pointwise (fun fb fb' => InRange cf fb → InRange cf fb') D D') : AllInRange cf D' :=
  fun s d => hp s d (h s d)

theorem AllInRange.still (h : AllInRange cf D) (hfb : D'.fb = D.fb) : AllInRange cf D' := by
  intro s d
  rw [hfb]
  exact h s d

theorem AllInRange.buffer (h : AllInRange cf D) {s d : ℕ} {x : FlowBuffer} (hx : InRange cf x)
    (hfb : D'.fb = set2 D.fb s d x) : AllInRange cf D' := by
  intro a b
  rw [hfb]
  by_cases hab : a = s ∧ b = d
  · rw [hab.1, hab.2, set2_self]
    exact hx
  · rw [set2_of_ne _ _ hab]
    exact h a b

theorem allInRange_init (cf : Conf) (sec : ℕ) : AllInRange cf (init_reliable_flooding cf sec) := by
  intro s d
  simp only [init_reliable_flooding]
  split
  · exact ⟨by simp [FlowBuffer.init], by simp [FlowBuffer.init], by simp [FlowBuffer.init]⟩
  · exact ⟨by simp [FlowBuffer.init], by simp [FlowBuffer.init], by simp [FlowBuffer.init]⟩

/-! ### Data -/

theorem InRange.store_data (h : InRange cf fb) (hop : ℕ) (m : Msg) (restamped : Bool)
    (np : ℕ) : InRange cf (fb.store_data cf hop m restamped np) := by
  obtain ⟨hsow, hhead, -⟩ := store_data_fields cf fb hop m restamped np
  have hnext : ∀ k, fb.next_seq k ≤ (fb.store_data cf hop m restamped np).next_seq k ∧
      (fb.store_data cf hop m restamped np).next_seq k ≤
        max (fb.next_seq k) fb.head_seq := by
    intro k
    by_cases hk : cf.nbr k
    · unfold FlowBuffer.store_data
      split <;>
      · simp only [Conf.each_nbr _ _ hk]
        exact ⟨skip_sent_ge _ _ _, skip_sent_le _ _ _⟩
    · unfold FlowBuffer.store_data
      split <;>
      · simp only [Conf.each_other _ _ hk]
        omega
  refine h.moved hsow hhead (fun k => ?_)
  have hk := hnext k
  omega

theorem InRange.with_fresh (h : InRange cf fb) (hop : ℕ) (m : Msg) (np : ℕ)
    (hlt : fb.head_seq + 1 < 2 ^ 64) : InRange cf (fb.with_fresh cf hop m np) := by
  have hone : InRange cf { fb with head_seq := fb.head_seq + 1 } :=
    ⟨h.sow, ⟨Nat.succ_pos _, hlt⟩, h.next⟩
  exact hone.store_data hop m false np

theorem InRange.rewind (h : InRange cf fb) {seq : ℕ} (hlo : fb.sow ≤ seq)
    (hhi : seq ≤ fb.head_seq) : InRange cf (fb.rewind_next cf seq) := by
  refine h.moved rfl rfl (fun k => ?_)
  by_cases hk : cf.nbr k
  · simp only [FlowBuffer.rewind_next, Conf.each_nbr _ _ hk]
    have hge := skip_sent_ge fb k (min (fb.next_seq k) seq)
    have hle := skip_sent_le fb k (min (fb.next_seq k) seq)
    omega
  · simp only [FlowBuffer.rewind_next, Conf.each_other _ _ hk]
    omega

theorem InRange.accept (h : InRange cf fb) (hop : ℕ) (m : Msg) (np : ℕ) (aru : ℕ → ℕ) :
    (data_verdict fb m = .fresh → InRange cf (fb.accept cf hop m false np aru)) ∧
      (data_verdict fb m = .restamped →
        InRange cf (fb.accept cf hop m true np aru)) := by
  have hs := h.sow
  rcases data_verdict_cases fb m with
    hv | ⟨-, ⟨hv, hseq, hle, hroom⟩ | ⟨⟨hlo, hhi⟩, ⟨hv, -⟩ | ⟨_, -, ⟨hv, -⟩ | ⟨hv, -⟩⟩⟩⟩
  · rw [hv]
    exact ⟨fun hf => absurd hf (by simp), fun hf => absurd hf (by simp)⟩
  · refine ⟨fun _ => ?_, fun hf => by rw [hv] at hf; exact absurd hf (by simp)⟩
    obtain ⟨-, hlt⟩ := room_of_check hroom
    by_cases hd : m.dest = cf.my_id
    · rw [accept_deliver_eq hop fb np aru hd]
      refine ⟨⟨Nat.succ_pos _, ?_⟩, ⟨Nat.succ_pos _, hlt⟩, fun k hk => ?_⟩
      · dsimp only
        omega
      · simp only [Conf.each_nbr _ _ hk]
        exact ⟨Nat.succ_pos _, hlt⟩
    · have hf := h.with_fresh hop m np hlt
      rw [accept_fresh_eq hop np hd]
      split
      · exact (inRange_keeps cf).move_up _ false aru hf
      · exact hf
  · rw [hv]
    exact ⟨fun hf => absurd hf (by simp), fun hf => absurd hf (by simp)⟩
  · rw [hv]
    exact ⟨fun hf => absurd hf (by simp), fun hf => absurd hf (by simp)⟩
  · refine ⟨fun hf => by rw [hv] at hf; exact absurd hf (by simp), fun _ => ?_⟩
    by_cases hd : m.dest = cf.my_id
    · simp only [FlowBuffer.accept, if_pos hd, if_true]
      exact h
    · obtain ⟨hsow, hhead, -⟩ := store_data_fields cf fb hop m true np
      rw [accept_restamped_eq hop np hd]
      exact (h.store_data hop m true np).rewind (by omega) (by omega)

theorem AllInRange.process_data (h : AllInRange cf D) (hop : ℕ) (m : Msg) :
    AllInRange cf (reliable_flood_process_data cf hop m D).1 := by
  have hfb := h m.src m.dest
  obtain ⟨hfresh, hrestamped⟩ := hfb.accept hop m D.num_paths_snapshot
    (fun j => (D.edge j).flow_aru m.src m.dest)
  unfold reliable_flood_process_data
  dsimp only
  split
  · exact h.still rfl
  · exact h.still rfl
  · refine h.buffer (s := m.src) (d := m.dest) ?_ rfl
    unfold FlowBuffer.duplicate
    split
    · exact hfb.mark_sent _ _
    · refine hfb.update hop _ rfl rfl rfl ?_
      have hge := skip_sent_ge (D.fb m.src m.dest) hop
        ((D.fb m.src m.dest).next_seq hop)
      have hle := skip_sent_le (D.fb m.src m.dest) hop
        ((D.fb m.src m.dest).next_seq hop)
      omega
  · rename_i hv
    exact h.buffer (hfresh hv) rfl
  · rename_i hv
    exact h.buffer (hrestamped hv) rfl

/-! ### End-to-end acks -/

theorem InRange.cell (h : InRange cf fb) {new old : Cell} (hw : ¬ new.wraps old)
    (hhang : ¬ (new.raises old ∧ new.aru = ULLONG_MAX)) : InRange cf (fb.e2e_cell cf new old) := by
  have hlt := new.aru_lt
  have hreset : ∀ {x : FlowBuffer}, (old.dest_epoch < new.dest_epoch ∨ old.src_epoch < new.src_epoch) →
      InRange cf (x.e2e_reset cf new) := by
    intro x hnew
    have hne : new.aru ≠ ULLONG_MAX := fun hmax => hw ⟨hnew, hmax⟩
    have hnum : int64u (new.aru + 1) = new.aru + 1 := by
      unfold int64u
      unfold ULLONG_MAX at hne
      omega
    have hin : 0 < int64u (new.aru + 1) ∧ int64u (new.aru + 1) < 2 ^ 64 := by
      unfold ULLONG_MAX at hne
      omega
    refine ⟨hin, hin, fun k hk => ?_⟩
    simp only [FlowBuffer.e2e_reset, Conf.each_nbr _ _ hk]
    exact hin
  unfold FlowBuffer.e2e_cell
  split
  · rename_i hde
    exact hreset (.inl hde)
  split
  · rename_i hse
    exact hreset (.inr hse)
  split
  · rename_i hde hse haru
    have hne : new.aru ≠ ULLONG_MAX := fun hmax => hhang ⟨⟨by omega, by omega, haru⟩, hmax⟩
    have hup : InRange cf (fb.advance_sow cf true new.aru) :=
      h.advance true (by unfold ULLONG_MAX at hne; omega)
    refine InRange.raise ⟨hup.sow, ?_, hup.next⟩
    have hs := hup.sow
    have hh := hup.head
    dsimp only
    omega
  · exact h

theorem AllInRange.shaken (h : AllInRange cf D) (sec : ℕ) (new : E2eAck) :
    AllInRange cf (handshake cf sec new D) := by
  unfold handshake
  split
  · obtain ⟨hfb, -, -, -⟩ :=
      handshake_request_spec cf sec new.dest (new.cell cf.my_id).dest_epoch D
    have hone : 0 < 1 ∧ 1 < 2 ^ 64 := by decide
    refine h.buffer ⟨hone, hone, fun k hk => ?_⟩ hfb
    simp only [Conf.each_nbr _ _ hk]
    exact hone
  · exact h

theorem AllInRange.process_e2e (h : AllInRange cf D) (sec hop : ℕ) {new : E2eAck}
    (hw : ¬ e2e_wraps cf sec new D) :
    AllInRange cf (reliable_flood_process_e2e cf sec hop new D) := by
  have hshake := h.shaken sec new
  have hfinish : AllInRange cf (handshake_finish cf new (handshake cf sec new D)) :=
    hshake.still (handshake_finish_fb _ _ _)
  rcases process_e2e_cases cf sec hop new D with
    ⟨-, heq⟩ | ⟨hacc, ⟨-, heq⟩ | ⟨hok, ⟨-, heq⟩ | ⟨hhang, heq⟩⟩⟩
  · rw [heq]
    exact h
  · rw [heq]
    exact hshake
  · rw [heq]
    exact hfinish.still rfl
  · -- every cell works on its own flow
    rw [heq]
    rw [handshake_refused_iff] at hok
    rw [e2e_hangs_raises] at hhang
    intro a b
    have hl := congrArg Prod.fst (store_e2e_lanes cf hop new
      (handshake_finish cf new (handshake cf sec new D)) a b)
    simp only [Daemon.lanes] at hl
    rw [hl]
    split
    · rename_i hab
      have hfb := (hfinish a b).cell (fun hwrap => hw ⟨⟨hacc, hok⟩, a, hab.1, hwrap⟩)
        (fun hbad => hhang ⟨a, hab.1, hbad⟩)
      simp only [e2e_cell_lanes, handshake_finish_e2e]
      exact hfb
    · exact hfinish a b

/-! ### Events -/

theorem AllInRange.disseminate (h : AllInRange cf D) (sec hop : ℕ) (verified : Bool)
    (pkt : Packet) (hw : ∀ new, pkt.body = .e2e new → verified = true →
      ¬ e2e_wraps cf sec new (after_acks cf hop pkt.acks D)) :
    AllInRange cf (reliable_flood_disseminate cf sec hop verified pkt D).1 := by
  have hacks := h.pointwise ((inRange_keeps cf).walk.quiet.after_acks hop pkt.acks D).bufs
  rcases disseminate_cases cf sec hop verified pkt D with
    heq | heq | ⟨m, -, -, -, -, heq⟩ | ⟨new, hb, hv, heq⟩
  · rw [heq]
    exact h.still rfl
  · rw [heq]
    exact hacks
  · rw [heq]
    exact hacks.process_data hop m
  · rw [heq]
    exact hacks.process_e2e sec hop (hw new hb hv)

theorem AllInRange.step {e : Event} (h : AllInRange cf D) (hstep : Step cf D e D')
    (hw : ¬ e.wraps cf D) : AllInRange cf D' := by
  obtain ⟨-, -, rfl⟩ := hstep
  cases e with
  | packet sec k v pkt =>
    refine h.disseminate sec k v pkt (fun new hb hv hwrap => hw ?_)
    simp only [Event.wraps, hb]
    exact ⟨hv, hwrap⟩
  | client sec dst n stamp sign_ok body =>
    have hfilled : AllInRange cf
        (fill_packet_header_reliable_flood cf dst n stamp.mask body D).1 := h.still rfl
    simp only [handle, session_send_message]
    split
    · split
      · exact hfilled
      · exact hfilled.disseminate sec 0 true _ (fun new hb => by simp at hb)
    · exact h
  | _ => exact h.pointwise ((inRange_keeps cf).walk.handle D _ (by trivial)).bufs

end Packets

/-! ## 4. The three places -/

/-- The states in which the daemon may come to one of the three places while it
handles an event in state `D`. -/
inductive Within (cf : Conf) (D : Daemon) : Daemon → Prop
  /-- `Reliable_Flood_Send_One` was called. -/
  | here : Within cf D D
  | acks (last_hop_index : ℕ) (acks : List HbhAck) :
      Within cf D (after_acks cf last_hop_index acks D)
  | client (dst num_paths mask : ℕ) (body : List UInt8) :
      Within cf D (after_acks cf 0 []
        (fill_packet_header_reliable_flood cf dst num_paths mask body D).1)
  /-- Flow `i` was restamped, and the neighbours `l` had their turn. The calls of
  `Request_Resources` may be cut off anywhere, since `env` may be. -/
  | restamp (env : RestampEnv) (i : ℕ) (l : List ℕ) :
      Within cf D (l.foldl (restamp_ngbr cf env i) { D with
        fb := set2 D.fb cf.my_id i (restamp_loop cf ⟨env.stamp i, env.sign_ok i⟩
          ((D.fb cf.my_id i).head_seq - (D.fb cf.my_id i).sow) (D.fb cf.my_id i).sow
          (D.fb cf.my_id i) false).1 })

/-- In state `D`, each of the three places moves its window up to the bound. -/
structure AdvancesExactly (cf : Conf) (D : Daemon) : Prop where
  /-- `Reliable_Flood_Process_Data`: the next message of a flow was stored. -/
  data : ∀ last_hop_index m, data_verdict (D.fb m.src m.dest) m = .fresh → m.dest ≠ cf.my_id →
    Advanced cf ((D.fb m.src m.dest).with_fresh cf last_hop_index m D.num_paths_snapshot)
      (fun j => (D.edge j).flow_aru m.src m.dest)
      ((reliable_flood_process_data cf last_hop_index m D).1.fb m.src m.dest)
  /-- `Reliable_Flood_Process_Acks`: the aru of a neighbour went up. -/
  acks : ∀ last_hop_index ack, (D.fb ack.src ack.dest).src_epoch = ack.src_epoch →
    (D.edge last_hop_index).flow_aru ack.src ack.dest < ack.aru →
    Advanced cf (acked_buffer cf last_hop_index ack D) (acked_aru last_hop_index ack D)
      ((process_ack cf last_hop_index ack D).fb ack.src ack.dest)
  /-- `Reliable_Flood_Send_Data`: without `HBH_Opt`, a message went out. -/
  send : cf.hbh_opt = false → ∀ k env e m,
    (scan_queues cf D k (scan_fuel (D.edge k)) (D.edge k)).2 = some e →
    (D.fb e.src_id e.dest_id).msg (slot ((D.fb e.src_id e.dest_id).next_seq k)) = some m →
    env.forward_ok = true → (D.fb e.src_id e.dest_id).head_seq ≤ 2 ^ 31 →
    Advanced cf ((D.fb e.src_id e.dest_id).mark_sent k
        (slot ((D.fb e.src_id e.dest_id).next_seq k)))
      (fun j => (D.edge j).flow_aru e.src_id e.dest_id)
      ((reliable_flood_send_data cf k env D).1.fb e.src_id e.dest_id)
  agree : ∀ s d aru, hbh_min (fun n => n) cf (D.fb s d) aru + 1 = first_kept cf (D.fb s d) aru ∧
    ((D.fb s d).head_seq ≤ 2 ^ 31 →
      hbh_min int64u_of_int cf (D.fb s d) aru = hbh_min (fun n => n) cf (D.fb s d) aru)

section Places

variable {cf : Conf} {D : Daemon}

theorem AllInRange.within {D1 : Daemon} (h : AllInRange cf D) (hw : Within cf D D1) :
    AllInRange cf D1 := by
  have hkeeps := (inRange_keeps cf).walk
  cases hw with
  | here => exact h
  | acks hop acks => exact h.pointwise (hkeeps.quiet.after_acks hop acks D).bufs
  | client dst num_paths mask body =>
    have hfilled : AllInRange cf
        (fill_packet_header_reliable_flood cf dst num_paths mask body D).1 := h.still rfl
    exact hfilled.pointwise (hkeeps.quiet.after_acks 0 [] _).bufs
  | restamp env i l =>
    have hloop : AllInRange cf { D with
        fb := set2 D.fb cf.my_id i (restamp_loop cf ⟨env.stamp i, env.sign_ok i⟩
          ((D.fb cf.my_id i).head_seq - (D.fb cf.my_id i).sow) (D.fb cf.my_id i).sow
          (D.fb cf.my_id i) false).1 } :=
      h.buffer ((h cf.my_id i).restamp_loop _ _ _ false) rfl
    exact hloop.pointwise (hkeeps.quiet.foldl (hkeeps.restamp_ngbr env i) l _).bufs

theorem send_move_up_fb (s d : ℕ) (D : Daemon)
    (hmin : hbh_min int64u_of_int cf (D.fb s d) (fun j => (D.edge j).flow_aru s d) ≠ ULLONG_MAX) :
    (send_move_up cf s d D).fb s d =
      (D.fb s d).hbh_move_up cf int64u_of_int true (fun j => (D.edge j).flow_aru s d) := by
  unfold send_move_up
  rw [if_neg hmin]
  exact set2_self _ _ _ _

theorem process_ack_fb (hadv : cf.hbh_advance = true) {hop : ℕ} {ack : HbhAck}
    (hep : (D.fb ack.src ack.dest).src_epoch = ack.src_epoch)
    (hlt : (D.edge hop).flow_aru ack.src ack.dest < ack.aru) :
    (process_ack cf hop ack D).fb ack.src ack.dest =
      (acked_buffer cf hop ack D).hbh_move_up cf (fun n => n) true
        (acked_aru hop ack D) := by
  set D1 := D.on_edge hop (fun ld =>
    { ld with
      flow_sow := set2 ld.flow_sow ack.src ack.dest
        (max (ld.flow_sow ack.src ack.dest) ack.sow) }) with hD1
  have haru : ∀ j, (D1.edge j).flow_aru ack.src ack.dest =
      (D.edge j).flow_aru ack.src ack.dest := by
    intro j
    by_cases hj : j = hop
    · rw [hj, hD1, on_edge_self]
    · rw [hD1, on_edge_other D _ hj]
  have harus : acked_aru hop ack D1 = acked_aru hop ack D := by
    funext j
    simp only [acked_aru, haru]
  have hbuf : acked_buffer cf hop ack D1 = acked_buffer cf hop ack D := rfl
  have hpush : ∀ D2 : Daemon,
      (if (D2.fb ack.src ack.dest).next_seq hop <
            int64u ((D2.edge hop).flow_sow ack.src ack.dest + MAX_MESS_PER_FLOW) ∧
          (D2.fb ack.src ack.dest).has_next cf hop then
        D2.on_edge hop (LinkData.push_norm ack.src ack.dest) else D2).fb = D2.fb := by
    intro D2
    split <;> rfl
  unfold process_ack
  rw [if_neg (not_not_intro hep), hpush, if_pos (by rw [haru]; exact hlt), ack_aru_fb,
    if_pos hadv, harus, hbuf, set2_self]

theorem send_data_fb (hadv : cf.hbh_advance = true) (hopt : cf.hbh_opt = false) {k : ℕ}
    {env : SendEnv} {e : FlowQueue} {m : Msg}
    (hscan : (scan_queues cf D k (scan_fuel (D.edge k)) (D.edge k)).2 = some e)
    (hm : (D.fb e.src_id e.dest_id).msg (slot ((D.fb e.src_id e.dest_id).next_seq k)) = some m)
    (hok : env.forward_ok = true)
    (hmin : hbh_min int64u_of_int cf ((D.fb e.src_id e.dest_id).mark_sent k
        (slot ((D.fb e.src_id e.dest_id).next_seq k)))
      (fun j => (D.edge j).flow_aru e.src_id e.dest_id) ≠ ULLONG_MAX) :
    (reliable_flood_send_data cf k env D).1.fb e.src_id e.dest_id =
      ((D.fb e.src_id e.dest_id).mark_sent k
        (slot ((D.fb e.src_id e.dest_id).next_seq k))).hbh_move_up cf int64u_of_int true
        (fun j => (D.edge j).flow_aru e.src_id e.dest_id) := by
  have hturn : Turned cf D k _ _ := scan_queues_turned (scan_fuel (D.edge k)) (D.edge k)
  unfold reliable_flood_send_data
  generalize scan_queues cf D k (scan_fuel (D.edge k)) (D.edge k) = scan at hscan hturn ⊢
  obtain ⟨ld, o⟩ := scan
  dsimp only at hscan hturn ⊢
  subst hscan
  -- nothing the queues went through concerns the arus
  set D1 := D.on_edge k (fun _ => ld) with hD1
  have hedge : D1.edge k = ld := on_edge_self D k _
  have hturned : Turned cf D k (D.edge k)
      ((reliable_flood_add_acks D1.fb env.max_acks (D1.edge k)).1.rotate env.packets) := by
    rw [hedge]
    exact (hturn.trans (add_acks_turned D1.fb env.max_acks ld)).trans (rotate_turned _ _)
  set ld2 := (reliable_flood_add_acks D1.fb env.max_acks (D1.edge k)).1.rotate env.packets
  have harus : (fun j => ((D1.on_edge k (fun _ => ld2)).edge j).flow_aru e.src_id e.dest_id) =
      fun j => (D.edge j).flow_aru e.src_id e.dest_id := by
    funext j
    by_cases hj : j = k
    · rw [hj, on_edge_self, LinkData.aru_of_view hturned.view]
    · rw [on_edge_other _ _ hj, hD1, on_edge_other _ _ hj]
  have hm1 : (D1.fb e.src_id e.dest_id).msg (slot ((D1.fb e.src_id e.dest_id).next_seq k)) =
      some m := hm
  simp only [hm1, hok, if_true, hadv, hopt, and_self]
  set x := (D1.fb e.src_id e.dest_id).mark_sent k
    (slot ((D1.fb e.src_id e.dest_id).next_seq k))
  have hfb := @send_move_up_fb cf e.src_id e.dest_id
    { D1.on_edge k (fun _ => ld2) with fb := set2 D1.fb e.src_id e.dest_id x }
  dsimp only at hfb
  rw [set2_self, harus] at hfb
  exact hfb hmin

theorem AllInRange.places (h : AllInRange cf D) (hadv : cf.hbh_advance = true) :
    AdvancesExactly cf D where
  data hop m hv hd := by
    obtain ⟨hsow, hhead, -⟩ := with_fresh_fields cf (D.fb m.src m.dest) m hop
      D.num_paths_snapshot
    have hlt : (D.fb m.src m.dest).head_seq + 1 < 2 ^ 64 := by
      rcases data_verdict_cases (D.fb m.src m.dest) m with
        h' | ⟨-, ⟨-, -, -, hroom⟩ | ⟨-, ⟨h', -⟩ | ⟨_, -, ⟨h', -⟩ | ⟨h', -⟩⟩⟩⟩
      · rw [hv] at h'
        exact absurd h' (by simp)
      · exact (room_of_check hroom).2
      · rw [hv] at h'
        exact absurd h' (by simp)
      · rw [hv] at h'
        exact absurd h' (by simp)
      · rw [hv] at h'
        exact absurd h' (by simp)
    have hin := (h m.src m.dest).with_fresh hop m D.num_paths_snapshot hlt
    have hfb : (reliable_flood_process_data cf hop m D).1.fb m.src m.dest =
        ((D.fb m.src m.dest).with_fresh cf hop m D.num_paths_snapshot).hbh_move_up cf
          (fun n => n) false (fun j => (D.edge j).flow_aru m.src m.dest) := by
      simp only [reliable_flood_process_data, hv, accept_data, set2_self]
      rw [accept_fresh_eq hop _ hd, if_pos hadv]
    rw [hfb]
    exact hbh_move_up_advanced false hin rfl
  acks hop ack hep hlt := by
    have hin : InRange cf (acked_buffer cf hop ack D) :=
      (inRange_keeps cf).toKeepsQuiet.acked_buffer hop ack D (h ack.src ack.dest)
    rw [process_ack_fb hadv hep hlt]
    exact hbh_move_up_advanced true hin rfl
  send hopt k env e m hscan hm hok hle := by
    have hin := (h e.src_id e.dest_id).mark_sent k (slot ((D.fb e.src_id e.dest_id).next_seq k))
    have hconv := hbh_min_int cf ((D.fb e.src_id e.dest_id).mark_sent k
        (slot ((D.fb e.src_id e.dest_id).next_seq k)))
      (fun j => (D.edge j).flow_aru e.src_id e.dest_id)
      (by
        rw [int64u_pred_of_pos hin.head.1 hin.head.2]
        have hpos := hin.head.1
        exact Nat.sub_one_lt_of_le hpos hle)
    have hmin : hbh_min int64u_of_int cf ((D.fb e.src_id e.dest_id).mark_sent k
        (slot ((D.fb e.src_id e.dest_id).next_seq k)))
        (fun j => (D.edge j).flow_aru e.src_id e.dest_id) ≠ ULLONG_MAX := by
      have hle' := hbh_min_le_head cf ((D.fb e.src_id e.dest_id).mark_sent k
        (slot ((D.fb e.src_id e.dest_id).next_seq k)))
        (fun j => (D.edge j).flow_aru e.src_id e.dest_id)
      rw [int64u_pred_of_pos hin.head.1 hin.head.2] at hle'
      have hlt := hin.head.2
      have hpos := hin.head.1
      rw [hconv]
      unfold ULLONG_MAX
      omega
    rw [send_data_fb hadv hopt hscan hm hok hmin]
    exact hbh_move_up_advanced true hin hconv
  agree s d aru := by
    refine ⟨hbh_min_succ (h s d) aru, fun hle => hbh_min_int cf (D.fb s d) aru ?_⟩
    have hhead := (h s d).head
    rw [int64u_pred_of_pos hhead.1 hhead.2]
    omega

end Places

/-- **The three places move a window up to the same bound**, in every run in which no
flow restarts at the number 0. -/
theorem hop_by_hop_advance_exact {cf : Conf} (hadv : cf.hbh_advance = true) {sec : ℕ}
    {D D₁ : Daemon}
    (hrun : Run (StepWhen cf (fun D e => ¬ e.wraps cf D)) (init_reliable_flooding cf sec) D)
    (hw : Within cf D D₁) : AdvancesExactly cf D₁ := by
  have hin : AllInRange cf D := by
    refine Run.invariant (AllInRange cf) (allInRange_init cf sec) ?_ hrun
    rintro D e D' h ⟨hstep, hno⟩
    exact h.step hstep hno
  exact (hin.within hw).places hadv

def advancing_relay : Conf := { relay_conf with hbh_advance := true }

theorem hop_by_hop_advance_exact_relay :
    ∃ D, AdvancesExactly advancing_relay D ∧
      data_verdict (D.fb 1 3) ⟨1, 3, 10, 2, 3, []⟩ = .fresh := by
  have hplay : (play advancing_relay (fun D e => ¬ e.wraps advancing_relay D)
      (init_reliable_flooding advancing_relay 7) relay_stores).map
      (fun D => data_verdict (D.fb 1 3) ⟨1, 3, 10, 2, 3, []⟩) = some .fresh := by decide +kernel
  obtain ⟨D, hD, hv⟩ := Option.map_eq_some_iff.mp hplay
  exact ⟨D, hop_by_hop_advance_exact rfl (play_when (fun _ _ h => h) relay_stores hD) .here, hv⟩

def relay_stores_late : List Event :=
  [.packet 100 2 true ⟨.e2e ⟨3, fun i => if i = 1 then ⟨5, 10, 2 ^ 31, by decide⟩
      else ⟨5, 0, 0, zero_lt_word⟩⟩, []⟩,
    .packet 100 1 true ⟨.data ⟨1, 3, 10, 2 ^ 31 + 1, 3, []⟩, []⟩]

/-- **The message goes out to one of the two neighbours.** Nothing may leave the window,
but `min` is sign-extended, and the window moves up almost to the last number. -/
theorem send_data_overtakes_window :
    ∃ D e m, Run (Step advancing_relay) (init_reliable_flooding advancing_relay 7) D ∧
      (scan_queues advancing_relay D 2 (scan_fuel (D.edge 2)) (D.edge 2)).2 = some e ∧
      (D.fb e.src_id e.dest_id).msg (slot ((D.fb e.src_id e.dest_id).next_seq 2)) = some m ∧
      ¬ Advanced advancing_relay ((D.fb e.src_id e.dest_id).mark_sent 2
          (slot ((D.fb e.src_id e.dest_id).next_seq 2)))
        (fun j => (D.edge j).flow_aru e.src_id e.dest_id)
        ((reliable_flood_send_data advancing_relay 2 open_link D).1.fb e.src_id e.dest_id) := by
  have hplay : (play advancing_relay (fun _ _ => True) (init_reliable_flooding advancing_relay 7)
      relay_stores_late).map (fun D =>
        ((scan_queues advancing_relay D 2 (scan_fuel (D.edge 2)) (D.edge 2)).2,
          (D.fb 1 3).msg (slot ((D.fb 1 3).next_seq 2)),
          hbh_min int64u_of_int advancing_relay
            ((D.fb 1 3).mark_sent 2 (slot ((D.fb 1 3).next_seq 2)))
            (fun j => (D.edge j).flow_aru 1 3),
          first_kept advancing_relay ((D.fb 1 3).mark_sent 2 (slot ((D.fb 1 3).next_seq 2)))
            (fun j => (D.edge j).flow_aru 1 3),
          (D.fb 1 3).sow)) =
      some (some ⟨1, 3, 0⟩, some ⟨1, 3, 10, 2 ^ 31 + 1, 3, []⟩, 2 ^ 64 - 2 ^ 31 + 1, 2 ^ 31 + 1,
        2 ^ 31 + 1) := by decide +kernel
  obtain ⟨D, hD, hout⟩ := Option.map_eq_some_iff.mp hplay
  simp only [Prod.mk.injEq] at hout
  obtain ⟨hscan, hm, hmin, hbound, hsow⟩ := hout
  refine ⟨D, _, _, play_run _ hD, hscan, hm, fun hadv => ?_⟩
  have hstart := hadv.1
  rw [send_data_fb rfl rfl hscan hm rfl (by dsimp only; rw [hmin]; decide)] at hstart
  rw [hbh_move_up_start] at hstart
  dsimp only at hstart
  rw [hmin, hbound] at hstart
  have hsame : ((D.fb 1 3).mark_sent 2 (slot ((D.fb 1 3).next_seq 2))).sow = (D.fb 1 3).sow := rfl
  omega

end Spines.RelFlood
