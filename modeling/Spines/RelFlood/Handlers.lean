/-
Every handler takes elementary steps.

For each function of `Daemon.lean`, `Moves` says which flows it touches and by
which elementary steps (`Steps.lean`). Two things are not elementary steps and
are treated where they occur: the restamping loop, which may give up half way,
and the end of `Reliable_Flood_Send_Data`, whose `int` variable only works for
windows that end below `2 ^ 31`.
-/
import Spines.RelFlood.Steps

set_option autoImplicit false

namespace Spines.RelFlood

open Spines.Lib Function List

/-! ## Link data -/

structure LinkView where
  flow_aru : ℕ → ℕ → ℕ
  flow_sow : ℕ → ℕ → ℕ
  flow_block : ℕ → ℕ → Bool

def LinkData.view (ld : LinkData) : LinkView := ⟨ld.flow_aru, ld.flow_sow, ld.flow_block⟩

theorem LinkData.aru_of_view {ld ld' : LinkData} (h : ld'.view = ld.view) :
    ld'.flow_aru = ld.flow_aru := congrArg LinkView.flow_aru h

theorem on_edge_self (D : Daemon) (k : ℕ) (f : LinkData → LinkData) :
    (D.on_edge k f).edge k = f (D.edge k) := update_self _ _ _

theorem on_edge_other (D : Daemon) {j k : ℕ} (f : LinkData → LinkData) (h : j ≠ k) :
    (D.on_edge k f).edge j = D.edge j := update_of_ne h _ _

theorem on_edge_view (D : Daemon) (k : ℕ) {f : LinkData → LinkData}
    (h : (f (D.edge k)).view = (D.edge k).view) (j : ℕ) :
    ((D.on_edge k f).edge j).view = (D.edge j).view := by
  by_cases hj : j = k
  · rw [hj, on_edge_self, h]
  · rw [on_edge_other D f hj]

@[simp] theorem push_norm_view (s d : ℕ) (ld : LinkData) : (ld.push_norm s d).view = ld.view := by
  unfold LinkData.push_norm
  split <;> rfl

@[simp] theorem push_urgent_view (s d : ℕ) (ld : LinkData) :
    (ld.push_urgent s d).view = ld.view := by
  unfold LinkData.push_urgent
  split <;> rfl

@[simp] theorem note_state_view (s d : ℕ) (ld : LinkData) : (ld.note_state s d).view = ld.view := by
  unfold LinkData.note_state
  split <;> rfl

theorem note_if_view (p : Bool) (s d : ℕ) (ld : LinkData) :
    (if p = true then ld.note_state s d else ld).view = ld.view := by
  split
  · exact note_state_view s d ld
  · rfl

theorem each_view {cf : Conf} {f e : ℕ → LinkData} (h : ∀ k, (f k).view = (e k).view) (k : ℕ) :
    (cf.each f e k).view = (e k).view := by
  unfold Conf.each
  split
  · exact h k
  · rfl

structure Lane where
  aru : ℕ
  sow : ℕ
  queued : Bool
  block : Bool

def LinkData.lane (ld : LinkData) (s d : ℕ) : Lane :=
  ⟨ld.flow_aru s d, ld.flow_sow s d, ld.in_flow_queue s d, ld.flow_block d s⟩

theorem push_norm_lane (ld : LinkData) (s d a b : ℕ) :
    (ld.push_norm s d).lane a b =
      if a = s ∧ b = d then { ld.lane a b with queued := true } else ld.lane a b := by
  unfold LinkData.push_norm LinkData.lane
  split
  · rename_i hq
    split
    · rename_i h
      rw [h.1, h.2, hq]
    · rfl
  · split
    · rename_i h
      simp only [h.1, h.2, set2_self]
    · rename_i h
      simp only [set2_of_ne _ _ h]

theorem note_if_lane (p : Bool) (s d a b : ℕ) (ld : LinkData) :
    (if p = true then ld.note_state s d else ld).lane a b = ld.lane a b := by
  unfold LinkData.note_state
  split
  · split <;> rfl
  · rfl

/-! ## Flows of a daemon -/

/-- The flow `(s, d)`: its buffer and its entries toward the neighbours. -/
def Daemon.lanes (D : Daemon) (s d : ℕ) : FlowBuffer × (ℕ → Lane) :=
  (D.fb s d, fun k => (D.edge k).lane s d)

def Daemon.flow (D : Daemon) (s d : ℕ) : Flow := (D.fb s d, fun k => (D.edge k).flow_aru s d)

def lanes_flow (x : FlowBuffer × (ℕ → Lane)) : Flow := (x.1, fun k => (x.2 k).aru)

theorem flow_eq_lanes_flow (D : Daemon) (s d : ℕ) : D.flow s d = lanes_flow (D.lanes s d) := rfl

def allow (cf : Conf) (data e2e dirty : Bool) (d : ℕ) : Allow :=
  ⟨decide (d = cf.my_id), data, e2e, dirty⟩

def Inv (cf : Conf) (D : Daemon) : Prop := ∀ s d, FlowOk cf (decide (d = cf.my_id)) (D.flow s d)

def Moves (cf : Conf) (data e2e dirty : Bool) (D D' : Daemon) : Prop :=
  ∀ s d, FlowRun cf (allow cf data e2e dirty d) (D.flow s d) (D'.flow s d)

section Moves

variable {cf : Conf} {data e2e dirty : Bool} {D D' D'' : Daemon}

theorem Moves.refl (D : Daemon) : Moves cf data e2e dirty D D := fun _ _ => .refl

theorem Moves.trans (h : Moves cf data e2e dirty D D') (h' : Moves cf data e2e dirty D' D'') :
    Moves cf data e2e dirty D D'' := fun s d => (h s d).trans (h' s d)

theorem Moves.inv (h : Moves cf data e2e dirty D D') (hinv : Inv cf D) : Inv cf D' :=
  fun s d => FlowRun.ok (h s d) (hinv s d)

theorem Moves.at (s d : ℕ)
    (hrun : FlowRun cf (allow cf data e2e dirty d) (D.flow s d) (D'.flow s d))
    (hother : ∀ a b, ¬ (a = s ∧ b = d) → D'.flow a b = D.flow a b) :
    Moves cf data e2e dirty D D' := by
  intro a b
  by_cases h : a = s ∧ b = d
  · rw [h.1, h.2]
    exact hrun
  · rw [hother a b h]

theorem Moves.still (hfb : D'.fb = D.fb)
    (haru : ∀ k, (D'.edge k).flow_aru = (D.edge k).flow_aru) : Moves cf data e2e dirty D D' := by
  intro a b
  have hflow : D'.flow a b = D.flow a b := by
    simp only [Daemon.flow, hfb, haru]
  rw [hflow]

theorem Moves.buffer (s d : ℕ) (fb : FlowBuffer) (hfb : D'.fb = set2 D.fb s d fb)
    (haru : ∀ k, (D'.edge k).flow_aru = (D.edge k).flow_aru)
    (hrun : FlowRun cf (allow cf data e2e dirty d) (D.flow s d) (fb, (D.flow s d).2)) :
    Moves cf data e2e dirty D D' := by
  refine Moves.at s d ?_ (fun a b hab => ?_)
  · have hflow : D'.flow s d = (fb, (D.flow s d).2) := by
      simp only [Daemon.flow, hfb, set2_self, haru]
    rw [hflow]
    exact hrun
  · simp only [Daemon.flow, hfb, set2_of_ne _ _ hab, haru]

theorem FlowStep.mono {al al' : Allow} {x y : Flow} (h : FlowStep cf al x y)
    (hmine : al'.mine = al.mine) (hdata : al.data = true → al'.data = true)
    (he2e : al.e2e = true → al'.e2e = true) (hdirty : al.dirty = true → al'.dirty = true) :
    FlowStep cf al' x y := by
  cases h with
  | aru ha => exact .aru ha
  | slide g m hm h => exact .slide g m hm (h.imp_left he2e)
  | fresh l m np ha hmi hs hr => exact .fresh l m np (hdata ha) (hmine.trans hmi) hs hr
  | restamped l m np h1 h2 => exact .restamped l m np h1 h2
  | mark k q h1 h2 => exact .mark k q h1 h2
  | ack k aru hk => exact .ack k aru hk
  | skip k => exact .skip k
  | unsend k => exact .unsend k
  | resend k => exact .resend k
  | clear_reset c ha ha' => exact .clear_reset c (he2e ha) ha'
  | reset c ha hd ha' => exact .reset c (he2e ha) (hd.imp_left hdirty) ha'
  | deliver ha hmi hr => exact .deliver (hdata ha) (hmine.trans hmi) hr
  | restart e ha hmi => exact .restart e (he2e ha) (hmine.trans hmi)

theorem Moves.mono {data' e2e' dirty' : Bool} (h : Moves cf data e2e dirty D D')
    (hdata : data = true → data' = true) (he2e : e2e = true → e2e' = true)
    (hdirty : dirty = true → dirty' = true) : Moves cf data' e2e' dirty' D D' :=
  fun s d => Relation.ReflTransGen.mono (fun _ _ hs => hs.mono rfl hdata he2e hdirty) _ _ (h s d)

theorem Moves.foldl {ι : Type*} (P : Daemon → Prop) {f : Daemon → ι → Daemon} {l : List ι}
    (hstep : ∀ D, Inv cf D → P D → ∀ i ∈ l, Moves cf data e2e dirty D (f D i) ∧ P (f D i))
    (hinv : Inv cf D) (hP : P D) : Moves cf data e2e dirty D (l.foldl f D) ∧ P (l.foldl f D) := by
  refine foldlRecOn (motive := fun D' => Moves cf data e2e dirty D D' ∧ P D') l f
    ⟨Moves.refl D, hP⟩ (fun D' hD' i hi => ?_)
  obtain ⟨hm, hP'⟩ := hD'
  obtain ⟨hm', hP''⟩ := hstep D' (hm.inv hinv) hP' i hi
  exact ⟨hm.trans hm', hP''⟩

end Moves

/-! ## Hop-by-hop movement of the window -/

/-- `hbh_move_up` with a 64-bit `min` is an elementary step. A window that ends at
`0` does not move: its neighbours acknowledged everything there is. -/
theorem hbh_move_up_step {cf : Conf} {al : Allow} {fb : FlowBuffer} {a : ℕ → ℕ} (guarded : Bool)
    (hinv : FlowInv cf fb a) (hadv : cf.hbh_advance = true) (hpos : 0 < fb.head_seq) :
    FlowStep cf al (fb, a) (fb.hbh_move_up cf (fun n => n) guarded a, a) := by
  have hmin := hinv.hbh_min_lt hpos
  have hlt := hinv.head_lt
  rw [hbh_move_up_eq_slide cf _ guarded a fb hinv.held.sow_le hmin]
  exact .slide guarded _ (by omega) (.inr ⟨hadv, hmin⟩)

/-! ## `Reliable_Flood_Process_Acks` -/

section Acks

variable {cf : Conf} {D : Daemon} {hop : ℕ} {ack : HbhAck}

def HbhAck.value (ack : HbhAck) : ℕ := if ack.aru = ULLONG_MAX then ULLONG_MAX - 1 else ack.aru

def acked_aru (last_hop_index : ℕ) (ack : HbhAck) (D : Daemon) (k : ℕ) : ℕ :=
  if k = last_hop_index then ack.value else (D.edge k).flow_aru ack.src ack.dest

def acked_buffer (cf : Conf) (last_hop_index : ℕ) (ack : HbhAck) (D : Daemon) : FlowBuffer :=
  let fb := D.fb ack.src ack.dest
  if cf.hbh_opt = true ∧ fb.next_seq last_hop_index ≤ ack.value then
    ack_loop last_hop_index ack.value (fb.head_seq - fb.next_seq last_hop_index) fb
  else fb

theorem ack_edge_aru (hop : ℕ) (ack : HbhAck) (D : Daemon) (k : ℕ) :
    ((D.on_edge hop (fun ld =>
      { ld with flow_aru := set2 ld.flow_aru ack.src ack.dest ack.value })).edge k).flow_aru
        ack.src ack.dest = acked_aru hop ack D k := by
  unfold acked_aru
  by_cases hk : k = hop
  · rw [if_pos hk, hk, on_edge_self]
    exact set2_self _ _ _ _
  · rw [if_neg hk, on_edge_other D _ hk]

theorem ack_aru_fb (cf : Conf) (hop : ℕ) (ack : HbhAck) (D : Daemon) :
    (ack_aru cf hop ack D).fb = set2 D.fb ack.src ack.dest
      (if cf.hbh_advance = true then
        (acked_buffer cf hop ack D).hbh_move_up cf (fun n => n) true
          (acked_aru hop ack D)
      else acked_buffer cf hop ack D) := by
  have haru : (fun k => ((D.on_edge hop (fun ld =>
      { ld with flow_aru := set2 ld.flow_aru ack.src ack.dest ack.value })).edge k).flow_aru
        ack.src ack.dest) = acked_aru hop ack D :=
    funext (ack_edge_aru hop ack D)
  rw [← haru]
  unfold ack_aru
  dsimp only
  split <;> rfl

theorem ack_aru_lane (cf : Conf) (hop : ℕ) (ack : HbhAck) (D : Daemon) (k a b : ℕ) :
    ((ack_aru cf hop ack D).edge k).lane a b =
      if k = hop ∧ a = ack.src ∧ b = ack.dest then
        { (D.edge k).lane a b with aru := ack.value }
      else (D.edge k).lane a b := by
  have hedge : ((D.on_edge hop (fun ld =>
      { ld with flow_aru := set2 ld.flow_aru ack.src ack.dest ack.value })).edge k).lane a b =
      if k = hop ∧ a = ack.src ∧ b = ack.dest then
        { (D.edge k).lane a b with aru := ack.value }
      else (D.edge k).lane a b := by
    by_cases hk : k = hop
    · rw [hk, on_edge_self]
      by_cases hab : a = ack.src ∧ b = ack.dest
      · simp [hab, LinkData.lane]
      · simp [hab, LinkData.lane, set2_of_ne _ _ hab]
    · rw [on_edge_other D _ hk, if_neg (fun h => hk h.1)]
  rw [← hedge]
  unfold ack_aru
  dsimp only
  split
  · simp only [Conf.each]
    split
    · exact note_if_lane _ _ _ _ _ _
    · rfl
  · rfl

theorem acked_run (al : Allow) (hinv : Inv cf D) (hk : cf.nbr hop)
    (hlt : (D.edge hop).flow_aru ack.src ack.dest < ack.aru) :
    FlowRun cf al (D.flow ack.src ack.dest)
        (acked_buffer cf hop ack D, acked_aru hop ack D) ∧
      0 < (acked_buffer cf hop ack D).head_seq := by
  have hmax := ack.aru_lt
  have hok := (hinv ack.src ack.dest).inv
  dsimp only [Daemon.flow] at hok
  have hstep : FlowStep cf al (D.flow ack.src ack.dest)
      (D.fb ack.src ack.dest, acked_aru hop ack D) := by
    refine .aru (fun k _ he => ?_)
    unfold acked_aru
    by_cases hkl : k = hop
    · rw [hkl] at he
      rw [he] at hlt
      unfold ULLONG_MAX at hlt
      omega
    · rw [if_neg hkl]
      exact he
  have hpos : 0 < (D.fb ack.src ack.dest).head_seq := by
    by_contra h0
    have he := hok.aru_max (Nat.eq_zero_of_not_pos h0) hop hk
    unfold ULLONG_MAX at he
    omega
  unfold acked_buffer
  dsimp only
  split
  · have hn := hok.next hop hk
    refine ⟨(Relation.ReflTransGen.single hstep).tail (.ack hop ack.value hk), ?_⟩
    rw [(ack_loop_spec ack.value hk _ _ hok.held hn.sow_le hn.le_head (le_refl _)).2.2.1.2.1]
    exact hpos
  · exact ⟨.single hstep, hpos⟩

theorem ack_aru_moves (hinv : Inv cf D) (hk : cf.nbr hop)
    (hlt : (D.edge hop).flow_aru ack.src ack.dest < ack.aru) :
    Moves cf false false false D (ack_aru cf hop ack D) := by
  refine Moves.at ack.src ack.dest ?_ (fun a b hab => ?_)
  · have harus : ((ack_aru cf hop ack D).flow ack.src ack.dest).2 =
        acked_aru hop ack D := by
      funext k
      have hl := congrArg Lane.aru (ack_aru_lane cf hop ack D k ack.src ack.dest)
      simp only [LinkData.lane, and_true] at hl
      simp only [Daemon.flow, hl, acked_aru]
      split <;> rfl
    obtain ⟨hrun, hpos⟩ := acked_run (allow cf false false false ack.dest) hinv hk hlt
    have hok := FlowRun.ok hrun (hinv ack.src ack.dest)
    have hflow : (ack_aru cf hop ack D).flow ack.src ack.dest =
        ((ack_aru cf hop ack D).fb ack.src ack.dest,
          acked_aru hop ack D) := by
      rw [← harus]
      rfl
    rw [hflow, ack_aru_fb, set2_self]
    split
    · rename_i hadv
      exact hrun.tail (hbh_move_up_step true hok.inv hadv hpos)
    · exact hrun
  · refine Prod.ext ?_ (funext fun k => ?_)
    · simp only [Daemon.flow, ack_aru_fb, set2_of_ne _ _ hab]
    · have hl := congrArg Lane.aru (ack_aru_lane cf hop ack D k a b)
      rw [if_neg (fun h => hab h.2)] at hl
      exact hl

theorem process_ack_moves (hinv : Inv cf D) (hk : cf.nbr hop) (ack : HbhAck) :
    Moves cf false false false D (process_ack cf hop ack D) := by
  unfold process_ack
  dsimp only
  split
  · exact Moves.refl D
  set D1 := D.on_edge hop (fun ld =>
    { ld with flow_sow := set2 ld.flow_sow ack.src ack.dest
                (max (ld.flow_sow ack.src ack.dest) ack.sow) }) with hD1
  have h1 : Moves cf false false false D D1 := by
    refine Moves.still rfl (fun k => ?_)
    by_cases hkl : k = hop
    · rw [hkl, hD1, on_edge_self]
    · rw [hD1, on_edge_other D _ hkl]
  have hpush : ∀ D2 : Daemon, Moves cf false false false D2
      (if (D2.fb ack.src ack.dest).next_seq hop <
            int64u ((D2.edge hop).flow_sow ack.src ack.dest + MAX_MESS_PER_FLOW) ∧
          (D2.fb ack.src ack.dest).has_next cf hop then
        D2.on_edge hop (LinkData.push_norm ack.src ack.dest)
      else D2) := by
    intro D2
    split
    · exact Moves.still rfl (fun k => LinkData.aru_of_view
        (on_edge_view D2 hop (push_norm_view _ _ _) k))
    · exact Moves.refl D2
  refine h1.trans (Moves.trans ?_ (hpush _))
  split
  · rename_i hlt
    exact ack_aru_moves (h1.inv hinv) hk hlt
  · exact Moves.refl D1

theorem process_acks_moves (hk : cf.nbr hop) (acks : List HbhAck) : ∀ D : Daemon,
    Inv cf D → Moves cf false false false D
      (reliable_flood_process_acks cf hop acks D).1 := by
  induction acks with
  | nil => intro D _; exact Moves.refl D
  | cons ack acks ih =>
    intro D hinv
    rw [reliable_flood_process_acks]
    split
    · exact Moves.refl D
    split
    · exact Moves.refl D
    have h := process_ack_moves hinv hk ack
    exact h.trans (ih _ (h.inv hinv))

end Acks

theorem process_ack_rest (cf : Conf) (hop : ℕ) (ack : HbhAck) (D : Daemon) :
    ∃ fb edge sc, process_ack cf hop ack D =
      { D with fb := fb, edge := edge, rf_state_change := sc } := by
  have haru : ∀ D : Daemon, ∃ fb edge sc, ack_aru cf hop ack D =
      { D with fb := fb, edge := edge, rf_state_change := sc } := by
    intro D
    unfold ack_aru
    dsimp only
    split
    · exact ⟨_, _, _, rfl⟩
    · exact ⟨_, _, D.rf_state_change, rfl⟩
  unfold process_ack
  dsimp only
  split
  · exact ⟨D.fb, D.edge, D.rf_state_change, rfl⟩
  · have hpush : ∀ (p : Prop) [Decidable p] (D' : Daemon),
        (∃ fb edge sc, D' = { D with fb := fb, edge := edge, rf_state_change := sc }) →
        ∃ fb edge sc,
          (if p then D'.on_edge hop (LinkData.push_norm ack.src ack.dest) else D') =
            { D with fb := fb, edge := edge, rf_state_change := sc } := by
      rintro p _ _ ⟨fb, edge, sc, rfl⟩
      split
      · exact ⟨_, _, _, rfl⟩
      · exact ⟨fb, edge, sc, rfl⟩
    apply hpush
    split
    · obtain ⟨fb, edge, sc, h⟩ := haru (D.on_edge hop (fun ld =>
        { ld with flow_sow := set2 ld.flow_sow ack.src ack.dest
                    (max (ld.flow_sow ack.src ack.dest) ack.sow) }))
      exact ⟨fb, edge, sc, h⟩
    · exact ⟨_, _, D.rf_state_change, rfl⟩

theorem process_acks_rest (cf : Conf) (hop : ℕ) (acks : List HbhAck) : ∀ D : Daemon,
    ∃ fb edge sc, (reliable_flood_process_acks cf hop acks D).1 =
      { D with fb := fb, edge := edge, rf_state_change := sc } := by
  induction acks with
  | nil => intro D; exact ⟨D.fb, D.edge, D.rf_state_change, rfl⟩
  | cons ack acks ih =>
    intro D
    rw [reliable_flood_process_acks]
    split
    · exact ⟨D.fb, D.edge, D.rf_state_change, rfl⟩
    split
    · exact ⟨D.fb, D.edge, D.rf_state_change, rfl⟩
    obtain ⟨fb, edge, sc, h⟩ := process_ack_rest cf hop ack D
    rw [h]
    obtain ⟨fb', edge', sc', h'⟩ := ih { D with fb := fb, edge := edge, rf_state_change := sc }
    exact ⟨fb', edge', sc', h'⟩

/-! ## `Reliable_Flood_Process_Data` -/

section Data

variable {cf : Conf} {D : Daemon} (hop : ℕ) {m : Msg}

theorem data_link_aru (cf : Conf) (hop : ℕ) (m : Msg) (sc : Bool) (fb : FlowBuffer)
    (k : ℕ) (ld : LinkData) : (∀ a b, ¬ (a = m.src ∧ b = m.dest) →
        (data_link cf hop m sc fb k ld).flow_aru a b = ld.flow_aru a b) ∧
      ((data_link cf hop m sc fb k ld).flow_aru m.src m.dest = ld.flow_aru m.src m.dest ∨
        (data_link cf hop m sc fb k ld).flow_aru m.src m.dest =
          max (ld.flow_aru m.src m.dest) m.seq_num) := by
  unfold data_link
  rw [LinkData.aru_of_view (note_if_view _ _ _ _)]
  split
  · exact ⟨fun a b hab => set2_of_ne _ _ hab, .inr (set2_self _ _ _ _)⟩
  · split
    · rw [LinkData.aru_of_view (push_urgent_view _ _ _)]
      exact ⟨fun _ _ _ => rfl, .inl rfl⟩
    · exact ⟨fun _ _ _ => rfl, .inl rfl⟩

theorem accept_data_moves (restamped : Bool) (hseq : m.seq_num < 2 ^ 64)
    (hrun : FlowRun cf (allow cf true false false m.dest) (D.flow m.src m.dest)
      ((D.fb m.src m.dest).accept cf hop m restamped D.num_paths_snapshot
        (D.flow m.src m.dest).2, (D.flow m.src m.dest).2)) :
    Moves cf true false false D (accept_data cf hop m restamped D) := by
  refine Moves.at m.src m.dest ?_ (fun a b hab => ?_)
  · -- first the buffer, then the arus
    have hfb : (accept_data cf hop m restamped D).fb m.src m.dest =
        (D.fb m.src m.dest).accept cf hop m restamped D.num_paths_snapshot
          (D.flow m.src m.dest).2 := set2_self _ _ _ _
    have hflow : (accept_data cf hop m restamped D).flow m.src m.dest =
        ((D.fb m.src m.dest).accept cf hop m restamped D.num_paths_snapshot
          (D.flow m.src m.dest).2,
          fun k => ((accept_data cf hop m restamped D).edge k).flow_aru m.src m.dest) := by
      rw [← hfb]
      rfl
    rw [hflow]
    refine hrun.tail (.aru (fun k hk he => ?_))
    have hedge : (accept_data cf hop m restamped D).edge k =
        data_link cf hop m (D.rf_state_change || !restamped)
          ((D.fb m.src m.dest).accept cf hop m restamped D.num_paths_snapshot
            (D.flow m.src m.dest).2) k (D.edge k) := by
      simp only [accept_data, Conf.each_nbr _ _ hk]
      rfl
    have he' : (D.edge k).flow_aru m.src m.dest = ULLONG_MAX := he
    rw [hedge]
    rcases (data_link_aru cf hop m _ _ k (D.edge k)).2 with hl | hl
    · rw [hl, he']
    · rw [hl, he']
      unfold ULLONG_MAX
      omega
  · have hedge : ∀ k, ((accept_data cf hop m restamped D).edge k).flow_aru a b =
        (D.edge k).flow_aru a b := by
      intro k
      simp only [accept_data, Conf.each]
      split
      · exact (data_link_aru cf hop m _ _ k (D.edge k)).1 a b hab
      · rfl
    simp only [Daemon.flow, hedge]
    simp only [accept_data, set2_of_ne _ _ hab]

theorem accept_deliver_eq (fb : FlowBuffer) (np : ℕ) (aru : ℕ → ℕ) (hd : m.dest = cf.my_id) :
    fb.accept cf hop m false np aru =
      { fb with
        head_seq := fb.head_seq + 1
        sow := fb.sow + 1
        next_seq := cf.each (fun _ => fb.head_seq + 1) fb.next_seq } := by
  simp only [FlowBuffer.accept, if_pos hd, Bool.false_eq_true, if_false]

theorem accept_run {fb : FlowBuffer} {a : ℕ → ℕ} (np : ℕ)
    (hok : FlowOk cf (decide (m.dest = cf.my_id)) (fb, a)) :
    (data_verdict fb m = .fresh → FlowRun cf (allow cf true false false m.dest) (fb, a)
        (fb.accept cf hop m false np a, a)) ∧
      (data_verdict fb m = .restamped → FlowRun cf (allow cf true false false m.dest) (fb, a)
        (fb.accept cf hop m true np a, a)) := by
  obtain ⟨hinv, hflat⟩ := hok
  refine ⟨fun hv => ?_, fun hv => ?_⟩
  · rcases data_verdict_cases fb m with h | ⟨-, h | ⟨-, h | ⟨_, -, h | h⟩⟩⟩
    · rw [hv] at h; exact absurd h (by simp)
    · obtain ⟨-, hseq, -, hroom⟩ := h
      by_cases hd : m.dest = cf.my_id
      · rw [accept_deliver_eq hop fb np a hd]
        exact .single (.deliver rfl (decide_eq_true hd) hroom)
      · have hstep : FlowStep cf (allow cf true false false m.dest) (fb, a)
            (fb.with_fresh cf hop m np, a) :=
          .fresh hop m np rfl (decide_eq_false hd) hseq hroom
        rw [accept_fresh_eq hop np hd]
        split
        · rename_i hadv
          have h' := hinv.with_fresh hop np hseq hroom a
          refine (Relation.ReflTransGen.single hstep).tail (hbh_move_up_step false h' hadv ?_)
          rw [(with_fresh_fields cf fb m hop np).2.1]
          omega
        · exact .single hstep
    · rw [hv] at h; exact absurd h.1 (by simp)
    · rw [hv] at h; exact absurd h.1 (by simp)
    · rw [hv] at h; exact absurd h.1 (by simp)
  · rcases data_verdict_cases fb m with h | ⟨-, h | ⟨hw, h | ⟨_, -, h | h⟩⟩⟩
    · rw [hv] at h; exact absurd h (by simp)
    · rw [hv] at h; exact absurd h.1 (by simp)
    · rw [hv] at h; exact absurd h.1 (by simp)
    · rw [hv] at h; exact absurd h.1 (by simp)
    · have hd : m.dest ≠ cf.my_id := fun hd => by
        have hf := hflat (decide_eq_true hd)
        dsimp only at hf
        omega
      rw [accept_restamped_eq hop np hd]
      exact .single (.restamped hop m np hw.1 hw.2)

theorem process_data_moves (hinv : Inv cf D) (m : Msg) :
    Moves cf true false false D (reliable_flood_process_data cf hop m D).1 ∧
      (D.halt ≠ .exit → (reliable_flood_process_data cf hop m D).1.halt ≠ .exit) := by
  have hok : FlowOk cf (decide (m.dest = cf.my_id)) (D.fb m.src m.dest, (D.flow m.src m.dest).2) :=
    hinv m.src m.dest
  set D1 : Daemon := { D with e2e_stop := D.e2e_stop || !cf.e2e_opt }
  have h1 : Moves cf true false false D D1 := Moves.still rfl (fun _ => rfl)
  have hlt : m.seq_num ≤ (D.fb m.src m.dest).head_seq → m.seq_num < 2 ^ 64 := fun h =>
    lt_of_le_of_lt h hok.inv.head_lt
  unfold reliable_flood_process_data
  dsimp only
  rcases data_verdict_cases (D.fb m.src m.dest) m with h | ⟨-, h | ⟨hw, h | ⟨_, -, h | h⟩⟩⟩
  · rw [h]
    exact ⟨h1, id⟩
  · rw [h.1]
    refine ⟨h1.trans (accept_data_moves hop false (hlt (by omega)) ?_), id⟩
    exact (accept_run hop _ hok).1 h.1
  · -- a message of the window is never missing
    have hs := hok.inv.held.stored m.seq_num hw.1 hw.2
    dsimp only at hs
    rw [h.2] at hs
    exact absurd hs (by simp)
  · rw [h.1]
    refine ⟨h1.trans (Moves.buffer m.src m.dest _ rfl (fun _ => rfl) ?_), id⟩
    unfold FlowBuffer.duplicate
    split
    · exact .single (.mark hop m.seq_num hw.1 hw.2)
    · exact .single (.skip hop)
  · rw [h.1]
    refine ⟨h1.trans (accept_data_moves hop true (hlt (by omega)) ?_), id⟩
    exact (accept_run hop _ hok).2 h.1

end Data

/-! ## `Reliable_Flood_Process_E2E` -/

section E2e

variable {cf : Conf} {D : Daemon}

def e2e_accepted (new : E2eAck) (D : Daemon) : Prop :=
  (1 ≤ new.dest ∧ new.dest ≤ MAX_NODES) ∧ e2e_valid new (D.e2e new.dest)

instance (new : E2eAck) (D : Daemon) : Decidable (e2e_accepted new D) :=
  inferInstanceAs (Decidable (_ ∧ _))

/-- The first half of the handshake: a larger epoch of `d` is a request. -/
def handshake (cf : Conf) (sec : ℕ) (new : E2eAck) (D : Daemon) : Daemon :=
  if ((D.e2e new.dest).cell cf.my_id).dest_epoch < (new.cell cf.my_id).dest_epoch then
    handshake_request cf sec new.dest (new.cell cf.my_id).dest_epoch D
  else D

def handshake_answered (cf : Conf) (new : E2eAck) (D : Daemon) : Prop :=
  D.handshake_complete new.dest = false ∧
    (new.cell cf.my_id).src_epoch = D.flow_source_epoch new.dest

instance (cf : Conf) (new : E2eAck) (D : Daemon) : Decidable (handshake_answered cf new D) :=
  inferInstanceAs (Decidable (_ ∧ _))

def handshake_finish (cf : Conf) (new : E2eAck) (D : Daemon) : Daemon :=
  if handshake_answered cf new D then
    { D with handshake_complete := Function.update D.handshake_complete new.dest true }
  else D

def handshake_refused (cf : Conf) (new : E2eAck) (D : Daemon) : Prop :=
  handshake_answered cf new D ∧ (new.cell cf.my_id).aru ≠ 0

instance (cf : Conf) (new : E2eAck) (D : Daemon) : Decidable (handshake_refused cf new D) :=
  inferInstanceAs (Decidable (_ ∧ _))

@[simp] theorem handshake_finish_fb (cf : Conf) (new : E2eAck) (D : Daemon) :
    (handshake_finish cf new D).fb = D.fb := by
  unfold handshake_finish
  split <;> rfl

@[simp] theorem handshake_finish_edge (cf : Conf) (new : E2eAck) (D : Daemon) :
    (handshake_finish cf new D).edge = D.edge := by
  unfold handshake_finish
  split <;> rfl

@[simp] theorem handshake_finish_e2e (cf : Conf) (new : E2eAck) (D : Daemon) :
    (handshake_finish cf new D).e2e = D.e2e := by
  unfold handshake_finish
  split <;> rfl

theorem process_e2e_cases (cf : Conf) (sec hop : ℕ) (new : E2eAck) (D : Daemon) :
    (¬ e2e_accepted new D ∧ reliable_flood_process_e2e cf sec hop new D = D) ∨
      e2e_accepted new D ∧
        (handshake_refused cf new (handshake cf sec new D) ∧
            reliable_flood_process_e2e cf sec hop new D = handshake cf sec new D ∨
          ¬ handshake_refused cf new (handshake cf sec new D) ∧
            (e2e_hangs new ((handshake cf sec new D).e2e new.dest) ∧
                reliable_flood_process_e2e cf sec hop new D =
                  { handshake_finish cf new (handshake cf sec new D) with halt := .hang } ∨
              ¬ e2e_hangs new ((handshake cf sec new D).e2e new.dest) ∧
                reliable_flood_process_e2e cf sec hop new D =
                  store_e2e cf hop new
                    (handshake_finish cf new (handshake cf sec new D)))) := by
  by_cases hd : new.dest < 1 ∨ MAX_NODES < new.dest
  · refine .inl ⟨fun h => ?_, by simp only [reliable_flood_process_e2e, if_pos hd]⟩
    have h' := h.1
    omega
  by_cases hv : e2e_valid new (D.e2e new.dest)
  · refine .inr ⟨⟨by omega, hv⟩, ?_⟩
    set D1 := handshake cf sec new D
    have hunfold : reliable_flood_process_e2e cf sec hop new D =
        if handshake_answered cf new D1 then
          if (new.cell cf.my_id).aru ≠ 0 then D1
          else if e2e_hangs new (D1.e2e new.dest) then
            { D1 with
              handshake_complete := update D1.handshake_complete new.dest true
              halt := .hang }
          else store_e2e cf hop new
            { D1 with handshake_complete := update D1.handshake_complete new.dest true }
        else if e2e_hangs new (D1.e2e new.dest) then { D1 with halt := .hang }
        else store_e2e cf hop new D1 := by
      simp only [reliable_flood_process_e2e, if_neg hd, if_neg (not_not_intro hv)]
      rfl
    rw [hunfold]
    by_cases ha : handshake_answered cf new D1
    · have hfin : handshake_finish cf new D1 = { D1 with
          handshake_complete := update D1.handshake_complete new.dest true } := if_pos ha
      rw [if_pos ha, hfin]
      by_cases haru : (new.cell cf.my_id).aru ≠ 0
      · exact .inl ⟨⟨ha, haru⟩, if_pos haru⟩
      · refine .inr ⟨fun h => haru h.2, ?_⟩
        rw [if_neg haru]
        by_cases hh : e2e_hangs new (D1.e2e new.dest)
        · exact .inl ⟨hh, if_pos hh⟩
        · exact .inr ⟨hh, if_neg hh⟩
    · have hfin : handshake_finish cf new D1 = D1 := if_neg ha
      rw [if_neg ha, hfin]
      refine .inr ⟨fun h => ha h.1, ?_⟩
      by_cases hh : e2e_hangs new (D1.e2e new.dest)
      · exact .inl ⟨hh, if_pos hh⟩
      · exact .inr ⟨hh, if_neg hh⟩
  · refine .inl ⟨fun h => hv h.2, ?_⟩
    simp only [reliable_flood_process_e2e, if_neg hd, if_pos hv]

/-! ### The loop over the cells -/

def e2e_cell_lane (cf : Conf) (last_hop_index : ℕ) (new old : Cell) (fb : FlowBuffer) (k : ℕ)
    (l : Lane) : Lane :=
  if new.changed old then
    let l :=
      if old.dest_epoch < new.dest_epoch ∨ old.src_epoch < new.src_epoch then
        { l with aru := new.aru, sow := int64u (new.aru + 1) }
      else
        { l with
          aru := max l.aru new.aru
          sow := if l.sow ≤ new.aru then int64u (new.aru + 1) else l.sow }
    if k ≠ last_hop_index then { l with block := true }
    else if fb.has_next cf k then { l with queued := true }
    else l
  else l

def e2e_cell_lanes (cf : Conf) (last_hop_index : ℕ) (new old : Cell)
    (x : FlowBuffer × (ℕ → Lane)) : FlowBuffer × (ℕ → Lane) :=
  (x.1.e2e_cell cf new old, cf.each (fun k =>
    e2e_cell_lane cf last_hop_index new old (x.1.e2e_cell cf new old) k (x.2 k)) x.2)

theorem e2e_cell_link_lane (cf : Conf) (last_hop_index d i : ℕ) (new old : Cell) (fb : FlowBuffer)
    (k : ℕ) (ld : LinkData) : (e2e_cell_link cf last_hop_index d i new old fb k ld).lane i d =
      e2e_cell_lane cf last_hop_index new old fb k (ld.lane i d) := by
  -- the second half: block the flow, or queue it toward the last hop
  have hqueue : ∀ ld' : LinkData,
      (if k ≠ last_hop_index then { ld' with flow_block := set2 ld'.flow_block d i true }
        else if fb.has_next cf k then ld'.push_norm i d else ld').lane i d =
      if k ≠ last_hop_index then { ld'.lane i d with block := true }
        else if fb.has_next cf k then { ld'.lane i d with queued := true } else ld'.lane i d := by
    intro ld'
    split
    · simp only [LinkData.lane, set2_self]
    · split
      · rw [push_norm_lane, if_pos ⟨rfl, rfl⟩]
      · rfl
  unfold e2e_cell_link e2e_cell_lane
  split
  · dsimp only
    rw [hqueue]
    by_cases he : old.dest_epoch < new.dest_epoch ∨ old.src_epoch < new.src_epoch
    · simp only [if_pos he, LinkData.lane, set2_self]
    · simp only [if_neg he, LinkData.lane, set2_self]
      rfl
  · rfl

theorem e2e_cell_link_other (cf : Conf) (hop d i : ℕ) (new old : Cell) (fb : FlowBuffer)
    (k : ℕ) (ld : LinkData) {a b : ℕ} (h : ¬ (a = i ∧ b = d)) :
    (e2e_cell_link cf hop d i new old fb k ld).lane a b = ld.lane a b := by
  have h' : ¬ (b = d ∧ a = i) := fun hba => h ⟨hba.2, hba.1⟩
  have hqueue : ∀ ld' : LinkData,
      (if k ≠ hop then { ld' with flow_block := set2 ld'.flow_block d i true }
        else if fb.has_next cf k then ld'.push_norm i d else ld').lane a b = ld'.lane a b := by
    intro ld'
    split
    · simp only [LinkData.lane, set2_of_ne _ _ h']
    · split
      · rw [push_norm_lane, if_neg h]
      · rfl
  unfold e2e_cell_link
  split
  · dsimp only
    rw [hqueue]
    by_cases he : old.dest_epoch < new.dest_epoch ∨ old.src_epoch < new.src_epoch
    · simp only [if_pos he, LinkData.lane, set2_of_ne _ _ h]
    · simp only [if_neg he, LinkData.lane, set2_of_ne _ _ h]
  · rfl

theorem process_cell_lanes (cf : Conf) (hop : ℕ) (new : E2eAck) (D : Daemon)
    (i a b : ℕ) :
    (process_cell cf hop new D i).lanes a b =
      if a = i ∧ b = new.dest then
        e2e_cell_lanes cf hop (new.cell i) ((D.e2e new.dest).cell i) (D.lanes a b)
      else D.lanes a b := by
  split
  · rename_i h
    obtain ⟨rfl, rfl⟩ := h
    simp only [Daemon.lanes, process_cell, set2_self, e2e_cell_lanes]
    refine Prod.ext rfl (funext fun k => ?_)
    by_cases hk : cf.nbr k
    · simp only [Conf.each_nbr _ _ hk]
      exact e2e_cell_link_lane _ _ _ _ _ _ _ _ _
    · simp only [Conf.each_other _ _ hk]
  · rename_i h
    simp only [Daemon.lanes, process_cell, set2_of_ne _ _ h]
    refine Prod.ext rfl (funext fun k => ?_)
    by_cases hk : cf.nbr k
    · simp only [Conf.each_nbr _ _ hk]
      exact e2e_cell_link_other _ _ _ _ _ _ _ _ _ h
    · simp only [Conf.each_other _ _ hk]

theorem foldl_process_cell (cf : Conf) (hop : ℕ) (new : E2eAck) :
    ∀ (l : List ℕ), l.Nodup → ∀ D : Daemon,
      (∃ fb edge, l.foldl (process_cell cf hop new) D =
        { D with fb := fb, edge := edge }) ∧
      ∀ a b, (l.foldl (process_cell cf hop new) D).lanes a b =
        if a ∈ l ∧ b = new.dest then
          e2e_cell_lanes cf hop (new.cell a) ((D.e2e new.dest).cell a) (D.lanes a b)
        else D.lanes a b := by
  intro l
  induction l with
  | nil =>
    intro _ D
    exact ⟨⟨D.fb, D.edge, rfl⟩, fun a b => by simp⟩
  | cons i l ih =>
    intro hl D
    obtain ⟨hi, hl⟩ := nodup_cons.mp hl
    obtain ⟨⟨fb, edge, hrest⟩, hlanes⟩ := ih hl (process_cell cf hop new D i)
    refine ⟨⟨fb, edge, hrest⟩, fun a b => ?_⟩
    rw [foldl_cons, hlanes a b, process_cell_lanes]
    have he2e : (process_cell cf hop new D i).e2e = D.e2e := rfl
    rw [he2e]
    by_cases hai : a = i
    · subst hai
      simp [hi]
    · simp [hai]

theorem store_ack_lanes (cf : Conf) (hop : ℕ) (new : E2eAck) (D : Daemon) (a b : ℕ) :
    ({ D with
        edge := cf.each (fun k =>
          let ld := D.edge k
          if ld.e2e_unsent new.dest = false ∧ k ≠ hop then
            ld.e2e_insert (ld.e2e_timeout new.dest + cf.e2e_ack_timeout) new.dest
          else ld) D.edge
        e2e := update D.e2e new.dest new } : Daemon).lanes a b = D.lanes a b := by
  refine Prod.ext rfl (funext fun k => ?_)
  simp only [Daemon.lanes]
  by_cases hk : cf.nbr k
  · simp only [Conf.each_nbr _ _ hk]
    split <;> rfl
  · simp only [Conf.each_other _ _ hk]

/-- **`Reliable_Flood_Process_E2E` after the handshake**: every cell of the ack
works on its own flow, and no other flow changes. -/
theorem store_e2e_lanes (cf : Conf) (hop : ℕ) (new : E2eAck) (D : Daemon) (a b : ℕ) :
    (store_e2e cf hop new D).lanes a b =
      if a ∈ range' 1 MAX_NODES ∧ b = new.dest then
        e2e_cell_lanes cf hop (new.cell a) ((D.e2e new.dest).cell a) (D.lanes a b)
      else D.lanes a b := by
  rw [← (foldl_process_cell cf hop new _ nodup_range' D).2 a b]
  exact store_ack_lanes cf hop new _ a b

theorem store_e2e_rest (cf : Conf) (hop : ℕ) (new : E2eAck) (D : Daemon) :
    ∃ fb edge, store_e2e cf hop new D =
      { D with fb := fb, edge := edge, e2e := update D.e2e new.dest new } := by
  obtain ⟨⟨fb, edge, h⟩, -⟩ := foldl_process_cell cf hop new (range' 1 MAX_NODES)
    nodup_range' D
  simp only [store_e2e, h]
  exact ⟨_, _, rfl⟩

/-! ### The handshake -/

theorem handshake_request_spec (cf : Conf) (sec d dest_epoch : ℕ) (D : Daemon) :
    (handshake_request cf sec d dest_epoch D).fb =
        set2 D.fb d cf.my_id { D.fb d cf.my_id with
          sow := 1
          head_seq := 1
          next_seq := cf.each (fun _ => 1) (D.fb d cf.my_id).next_seq
          src_epoch := dest_epoch } ∧
      (handshake_request cf sec d dest_epoch D).edge = D.edge ∧
      (handshake_request cf sec d dest_epoch D).halt = D.halt ∧
      ∀ a, a ≠ cf.my_id → (handshake_request cf sec d dest_epoch D).e2e a = D.e2e a := by
  unfold handshake_request Daemon.set_cell
  dsimp only
  split
  · refine ⟨rfl, rfl, rfl, fun a ha => ?_⟩
    simp only [update_of_ne ha]
  · refine ⟨rfl, rfl, rfl, fun a ha => ?_⟩
    simp only [update_of_ne ha]

theorem handshake_other (cf : Conf) (sec : ℕ) (new : E2eAck) (D : Daemon) :
    (∀ a b, ¬ (a = new.dest ∧ b = cf.my_id) → (handshake cf sec new D).fb a b = D.fb a b) ∧
      (handshake cf sec new D).edge = D.edge ∧ (handshake cf sec new D).halt = D.halt ∧
      ∀ a, a ≠ cf.my_id → (handshake cf sec new D).e2e a = D.e2e a := by
  unfold handshake
  split
  · obtain ⟨h1, h2, h3, h4⟩ := handshake_request_spec cf sec new.dest (new.cell cf.my_id).dest_epoch D
    exact ⟨fun a b hab => by rw [h1, set2_of_ne _ _ hab], h2, h3, h4⟩
  · exact ⟨fun _ _ _ => rfl, rfl, rfl, fun _ _ => rfl⟩

theorem handshake_moves (dirty : Bool) (sec : ℕ) (new : E2eAck) (D : Daemon) :
    Moves cf false true dirty D (handshake cf sec new D) := by
  unfold handshake
  split
  · obtain ⟨h1, h2, -, -⟩ := handshake_request_spec cf sec new.dest (new.cell cf.my_id).dest_epoch D
    exact Moves.buffer _ _ _ h1 (fun k => by rw [h2])
      (.single (.restart _ rfl (decide_eq_true rfl)))
  · exact Moves.refl D

theorem handshake_finish_moves (dirty : Bool) (new : E2eAck) (D : Daemon) :
    Moves cf false true dirty D (handshake_finish cf new D) :=
  Moves.still (handshake_finish_fb cf new D) (fun k => by rw [handshake_finish_edge])

/-! ### Steps of the flows -/

/-- The ack has a new epoch of some source, and the window of that flow is not
empty. Its messages stay where they are when the window restarts. -/
def e2e_drops (new : E2eAck) (D : Daemon) : Prop :=
  ∃ i ∈ range' 1 MAX_NODES,
    (new.cell i).dest_epoch ≤ ((D.e2e new.dest).cell i).dest_epoch ∧
      ((D.e2e new.dest).cell i).src_epoch < (new.cell i).src_epoch ∧
      (D.fb i new.dest).sow ≠ (D.fb i new.dest).head_seq

instance (new : E2eAck) (D : Daemon) : Decidable (e2e_drops new D) :=
  inferInstanceAs (Decidable (∃ i ∈ _, _))

theorem e2e_cell_lane_aru (cf : Conf) (hop : ℕ) (new old : Cell) (fb : FlowBuffer)
    (k : ℕ) (l : Lane) :
    (e2e_cell_lane cf hop new old fb k l).aru =
      if new.changed old then
        if old.dest_epoch < new.dest_epoch ∨ old.src_epoch < new.src_epoch then new.aru
        else max l.aru new.aru
      else l.aru := by
  have hqueue : ∀ l' : Lane,
      (if k ≠ hop then { l' with block := true }
        else if fb.has_next cf k then { l' with queued := true } else l').aru = l'.aru := by
    intro l'
    split
    · rfl
    · split <;> rfl
  unfold e2e_cell_lane
  split
  · dsimp only
    rw [hqueue]
    split <;> rfl
  · rfl

theorem e2e_cell_run {al : Allow} (hop : ℕ) {new old : Cell}
    {x : FlowBuffer × (ℕ → Lane)} (hal : al.e2e = true)
    (hhang : ¬ (new.dest_epoch ≤ old.dest_epoch ∧ new.src_epoch ≤ old.src_epoch ∧
      old.aru < new.aru ∧ new.aru = ULLONG_MAX))
    (hdirty : al.dirty = true ∨ (new.dest_epoch ≤ old.dest_epoch → old.src_epoch < new.src_epoch →
      x.1.sow = x.1.head_seq)) :
    FlowRun cf al (lanes_flow x) (lanes_flow (e2e_cell_lanes cf hop new old x)) := by
  have hlt := new.aru_lt
  have haru : ∀ k, cf.nbr k → (lanes_flow (e2e_cell_lanes cf hop new old x)).2 k =
      if new.changed old then
        if old.dest_epoch < new.dest_epoch ∨ old.src_epoch < new.src_epoch then new.aru
        else max (x.2 k).aru new.aru
      else (x.2 k).aru := by
    intro k hk
    simp only [lanes_flow, e2e_cell_lanes, Conf.each_nbr _ _ hk]
    exact e2e_cell_lane_aru _ _ _ _ _ _ _
  have hfb : (lanes_flow (e2e_cell_lanes cf hop new old x)).1 =
      x.1.e2e_cell cf new old := rfl
  generalize lanes_flow (e2e_cell_lanes cf hop new old x) = y at haru hfb
  obtain ⟨fb, a⟩ := y
  dsimp only at haru hfb
  unfold FlowBuffer.e2e_cell at hfb
  by_cases hde : old.dest_epoch < new.dest_epoch
  · -- a new epoch of the destination
    rw [if_pos hde] at hfb
    rw [hfb]
    refine .single (.clear_reset new hal (fun k hk => ?_))
    have hch : new.changed old := .inl hde
    rw [haru k hk, if_pos hch, if_pos (.inl hde)]
  rw [if_neg hde] at hfb
  by_cases hse : old.src_epoch < new.src_epoch
  · -- a new epoch of the source
    rw [if_pos hse] at hfb
    rw [hfb]
    refine .single (.reset new hal (hdirty.imp_right (fun h => h (Nat.le_of_not_lt hde) hse))
      (fun k hk => ?_))
    have hch : new.changed old := .inr (.inl hse)
    rw [haru k hk, if_pos hch, if_pos (.inr hse)]
  rw [if_neg hse] at hfb
  have hne : ¬ (old.dest_epoch < new.dest_epoch ∨ old.src_epoch < new.src_epoch) := by omega
  by_cases ha : old.aru < new.aru
  · -- a larger aru
    rw [if_pos ha, e2e_advance_eq_slide] at hfb
    rw [hfb]
    have hm : new.aru + 1 < 2 ^ 64 := by
      unfold ULLONG_MAX at hhang
      omega
    refine (Relation.ReflTransGen.single (.slide true new.aru hm (.inl hal))).tail
      (.aru (fun k hk he => ?_))
    have hch : new.changed old := .inr (.inr ha)
    rw [haru k hk, if_pos hch, if_neg hne]
    unfold ULLONG_MAX at he ⊢
    omega
  · have hch : ¬ new.changed old := by
      unfold Cell.changed
      omega
    rw [if_neg ha] at hfb
    rw [hfb]
    refine .single (.aru (fun k hk he => ?_))
    rw [haru k hk, if_neg hch]
    exact he

theorem store_e2e_moves {dirty : Bool} (hop : ℕ) {new : E2eAck}
    (hhang : ¬ e2e_hangs new (D.e2e new.dest)) (hdirty : dirty = true ∨ ¬ e2e_drops new D) :
    Moves cf false true dirty D (store_e2e cf hop new D) := by
  intro a b
  rw [flow_eq_lanes_flow, flow_eq_lanes_flow, store_e2e_lanes]
  split
  · rename_i h
    obtain ⟨ha, rfl⟩ := h
    refine e2e_cell_run hop rfl (fun h => hhang ⟨a, ha, h⟩)
      (hdirty.imp_right (fun hd h1 h2 => ?_))
    by_contra hne
    exact hd ⟨a, ha, h1, h2, hne⟩
  · exact .refl

theorem process_e2e_moves {dirty : Bool} (hinv : Inv cf D) (sec hop : ℕ) {new : E2eAck}
    (hdirty : dirty = true ∨ (e2e_accepted new D →
      ¬ handshake_refused cf new (handshake cf sec new D) → new.dest ≠ cf.my_id →
      ¬ e2e_drops new D)) :
    Moves cf false true dirty D (reliable_flood_process_e2e cf sec hop new D) ∧
      (D.halt ≠ .exit → (reliable_flood_process_e2e cf sec hop new D).halt ≠ .exit) := by
  have h1 : Moves cf false true dirty D (handshake cf sec new D) := handshake_moves dirty sec new D
  have h2 := h1.trans (handshake_finish_moves dirty new (handshake cf sec new D))
  obtain ⟨hfb, -, hhalt, he2e⟩ := handshake_other cf sec new D
  rcases process_e2e_cases cf sec hop new D with
    ⟨-, h⟩ | ⟨hacc, ⟨-, h⟩ | ⟨hok, ⟨-, h⟩ | ⟨hhang, h⟩⟩⟩
  · rw [h]
    exact ⟨Moves.refl D, id⟩
  · rw [h]
    exact ⟨h1, fun hD => by rw [hhalt]; exact hD⟩
  · rw [h]
    exact ⟨h2.trans (Moves.still rfl (fun _ => rfl)), fun _ => by simp⟩
  · rw [h]
    refine ⟨h2.trans (store_e2e_moves hop (by rw [handshake_finish_e2e]; exact hhang)
      (hdirty.imp_right (fun hd => ?_))), fun hD => ?_⟩
    · rintro ⟨i, hi, hde, hse, hne⟩
      rw [handshake_finish_e2e] at hde hse
      rw [handshake_finish_fb] at hne
      by_cases hmy : new.dest = cf.my_id
      · -- a flow that ends here has an empty window
        exact hne ((h1.inv hinv i new.dest).flat (decide_eq_true hmy))
      · rw [he2e _ hmy] at hde hse
        rw [hfb _ _ (fun h => hmy h.2)] at hne
        exact hd hacc hok hmy ⟨i, hi, hde, hse, hne⟩
    · obtain ⟨fb, edge, hrest⟩ := store_e2e_rest cf hop new
        (handshake_finish cf new (handshake cf sec new D))
      rw [hrest]
      have hfin : (handshake_finish cf new (handshake cf sec new D)).halt = D.halt := by
        rw [← hhalt]
        unfold handshake_finish
        split <;> rfl
      rw [hfin]
      exact hD

end E2e

/-! ## `Reliable_Flood_Disseminate` -/

section Disseminate

variable {cf : Conf} {D : Daemon}

/-- The state in which `Reliable_Flood_Disseminate` looks at the body of a packet:
the hop-by-hop acknowledgements were processed. -/
def after_acks (cf : Conf) (last_hop_index : ℕ) (acks : List HbhAck) (D : Daemon) : Daemon :=
  (reliable_flood_process_acks cf last_hop_index acks { D with rf_state_change := false }).1

theorem handle_e2e (cf : Conf) (sec k : ℕ) (new : E2eAck) (acks : List HbhAck) (D : Daemon) :
    handle cf D (.packet sec k true ⟨.e2e new, acks⟩) =
      reliable_flood_process_e2e cf sec k new (after_acks cf k acks D) :=
  rfl

theorem after_acks_moves (hinv : Inv cf D) {hop : ℕ} {acks : List HbhAck}
    (hk : acks ≠ [] → cf.nbr hop) :
    Moves cf false false false D (after_acks cf hop acks D) := by
  have h1 : Moves cf false false false D { D with rf_state_change := false } :=
    Moves.still rfl (fun _ => rfl)
  cases acks with
  | nil => exact h1
  | cons ack acks => exact h1.trans (process_acks_moves (hk (by simp)) _ _ (h1.inv hinv))

theorem after_acks_rest (cf : Conf) (hop : ℕ) (acks : List HbhAck) (D : Daemon) :
    ∃ fb edge sc, after_acks cf hop acks D =
      { D with fb := fb, edge := edge, rf_state_change := sc } :=
  process_acks_rest cf hop acks { D with rf_state_change := false }

def drops_window (cf : Conf) (sec last_hop_index : ℕ) (verified : Bool) (pkt : Packet)
    (D : Daemon) : Prop :=
  match pkt.body with
  | .e2e new =>
    let D := after_acks cf last_hop_index pkt.acks D
    verified = true ∧ new.dest ≠ cf.my_id ∧ e2e_accepted new D ∧
      ¬ handshake_refused cf new (handshake cf sec new D) ∧ e2e_drops new D
  | _ => False

instance (cf : Conf) (sec last_hop_index : ℕ) (verified : Bool) (pkt : Packet) (D : Daemon) :
    Decidable (drops_window cf sec last_hop_index verified pkt D) :=
  match pkt with
  | ⟨.e2e _, _⟩ => inferInstanceAs (Decidable (_ ∧ _ ∧ _ ∧ _ ∧ _))
  | ⟨.data _, _⟩ => .isFalse id
  | ⟨.saa, _⟩ => .isFalse id
  | ⟨.status_change, _⟩ => .isFalse id

theorem disseminate_cases (cf : Conf) (sec hop : ℕ) (verified : Bool) (pkt : Packet)
    (D : Daemon) : (reliable_flood_disseminate cf sec hop verified pkt D).1 =
        { D with rf_state_change := false } ∨
      (reliable_flood_disseminate cf sec hop verified pkt D).1 =
        after_acks cf hop pkt.acks D ∨
      (∃ m, pkt.body = .data m ∧ verified = true ∧ (1 ≤ m.src ∧ m.src ≤ MAX_NODES) ∧
        (1 ≤ m.dest ∧ m.dest ≤ MAX_NODES) ∧
        (reliable_flood_disseminate cf sec hop verified pkt D).1 =
          (reliable_flood_process_data cf hop m
            (after_acks cf hop pkt.acks D)).1) ∨
      ∃ new, pkt.body = .e2e new ∧ verified = true ∧
        (reliable_flood_disseminate cf sec hop verified pkt D).1 =
          reliable_flood_process_e2e cf sec hop new
            (after_acks cf hop pkt.acks D) := by
  obtain ⟨body, acks⟩ := pkt
  unfold reliable_flood_disseminate
  cases body with
  | data m =>
    cases verified with
    | false => exact .inl rfl
    | true =>
      refine .inr ?_
      simp only [Bool.true_eq_false, if_false]
      by_cases hs : m.src < 1 ∨ MAX_NODES < m.src
      · rw [if_pos hs]
        exact .inl rfl
      by_cases hd : m.dest < 1 ∨ MAX_NODES < m.dest
      · rw [if_neg hs, if_pos hd]
        exact .inl rfl
      rw [if_neg hs, if_neg hd]
      exact .inr (.inl ⟨m, rfl, trivial, by omega, by omega, rfl⟩)
  | e2e new =>
    cases verified with
    | false => exact .inl rfl
    | true => exact .inr (.inr (.inr ⟨new, rfl, rfl, rfl⟩))
  | saa => exact .inr (.inl rfl)
  | status_change =>
    cases verified with
    | false => exact .inl rfl
    | true => exact .inr (.inl rfl)

theorem disseminate_moves {dirty : Bool} (hinv : Inv cf D) {sec hop : ℕ}
    {verified : Bool} {pkt : Packet} (hk : pkt.acks ≠ [] → cf.nbr hop)
    (hdirty : dirty = true ∨ ¬ drops_window cf sec hop verified pkt D) :
    Moves cf true true dirty D (reliable_flood_disseminate cf sec hop verified pkt D).1 ∧
      (D.halt ≠ .exit →
        (reliable_flood_disseminate cf sec hop verified pkt D).1.halt ≠ .exit) := by
  have h₁ := after_acks_moves hinv hk
  have h1' : Moves cf true true dirty D (after_acks cf hop pkt.acks D) :=
    h₁.mono (by simp) (by simp) (by simp)
  have hhalt : D.halt ≠ .exit → (after_acks cf hop pkt.acks D).halt ≠ .exit := by
    intro hD
    obtain ⟨fb, edge, sc, h⟩ := after_acks_rest cf hop pkt.acks D
    rw [h]
    exact hD
  rcases disseminate_cases cf sec hop verified pkt D with
    h | h | ⟨m, -, -, -, -, h⟩ | ⟨new, hb, hv, h⟩
  · rw [h]
    exact ⟨Moves.still rfl (fun _ => rfl), id⟩
  · rw [h]
    exact ⟨h1', hhalt⟩
  · rw [h]
    obtain ⟨h₂, he⟩ := process_data_moves hop (h₁.inv hinv) m
    exact ⟨h1'.trans (h₂.mono id (by simp) (by simp)), fun hD => he (hhalt hD)⟩
  · rw [h]
    obtain ⟨h₂, he⟩ := process_e2e_moves (h₁.inv hinv) sec hop
      (hdirty.imp_right (fun hd h1 h2 h3 h4 => hd (by
        unfold drops_window
        rw [hb]
        exact ⟨hv, h3, h1, h2, h4⟩)))
    exact ⟨h1'.trans (h₂.mono (by simp) id id), fun hD => he (hhalt hD)⟩

theorem session_send_message_moves (hinv : Inv cf D) (sec dst num_paths : ℕ) (stamp : Stamp)
    (sign_ok : Bool) (body : List UInt8) :
    Moves cf true true false D (session_send_message cf sec dst num_paths stamp sign_ok body D) ∧
      (D.halt ≠ .exit →
        (session_send_message cf sec dst num_paths stamp sign_ok body D).halt ≠ .exit) := by
  set filled := fill_packet_header_reliable_flood cf dst num_paths stamp.mask body D
  have h1 : Moves cf true true false D filled.1 := Moves.still rfl (fun _ => rfl)
  unfold session_send_message
  split
  · split
    · exact ⟨h1, id⟩
    · have hdrop : ¬ drops_window cf sec 0 true ⟨.data filled.2, []⟩ filled.1 := by
        simp [drops_window]
      obtain ⟨h2, he⟩ := disseminate_moves (h1.inv hinv) (fun h => absurd rfl h)
        (.inr hdrop)
      exact ⟨h1.trans h2, he⟩
  · exact ⟨Moves.refl D, id⟩

end Disseminate

end Spines.RelFlood
