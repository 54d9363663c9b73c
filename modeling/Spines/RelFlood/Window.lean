/-
The flow buffers over whole runs of a daemon.

* `window_slots_exact`: a buffer holds exactly the messages of its window.
  One step breaks this: an end-to-end ack with a new epoch of the source moves
  the window of the flow without freeing its slots (`drops_window`).
* `next_seq_marks`: `next_seq[k]` separates what was sent to `k` from what was
  not, and no check of the daemon fails. One step breaks the first half:
  `Reliable_Flood_Restamp` gives up at a message it cannot sign, after it marked
  earlier messages as unsent and before it moved any `next_seq` back.

Both need that the `int` at the end of `Reliable_Flood_Send_Data` can hold the
sequence numbers (`int_window`).
-/
import Spines.RelFlood.Sending

set_option autoImplicit false

namespace Spines.RelFlood

open Spines.Lib Option

/-! ## Events -/

def Event.sends : Event → Prop
  | send_one _ _ => True
  | restamp _ _ => True
  | _ => False

def Event.is_restamp : Event → Bool
  | restamp _ _ => true
  | _ => false

def Event.drops (cf : Conf) (D : Daemon) : Event → Prop
  | packet sec k verified pkt => drops_window cf sec k verified pkt D
  | _ => False

instance (cf : Conf) (D : Daemon) : ∀ e : Event, Decidable (e.drops cf D)
  | .packet sec k verified pkt => inferInstanceAs (Decidable (drops_window cf sec k verified pkt D))
  | .client .. => .isFalse id
  | .gen_e2e .. => .isFalse id
  | .neighbor_transfer _ => .isFalse id
  | .e2e_event _ => .isFalse id
  | .send_one .. => .isFalse id
  | .restamp .. => .isFalse id

/-- **Every event moves the flows by elementary steps**, a round of
`Reliable_Flood_Restamp` after it rewrote one window. No event ends the daemon. -/
theorem handle_moves {cf : Conf} {D D' : Daemon} {e : Event} {dirty : Bool} (hinv : Inv cf D)
    (hstep : Step cf D e D') (hint : e.sends → int_window cf D)
    (hdirty : dirty = true ∨ ¬ e.drops cf D) :
    (Moves cf true true dirty D D' ∨
        ∃ env i out e', e = .restamp env i ∧ RestampRound cf env i D D' out e') ∧
      D'.halt ≠ .exit := by
  obtain ⟨hrun, hok, rfl⟩ := hstep
  have hne : D.halt ≠ .exit := by simp [hrun]
  cases e with
  | packet sec k verified pkt =>
    dsimp only [handle]
    obtain ⟨h, hh⟩ := disseminate_moves hinv (fun _ => hok) hdirty
    exact ⟨.inl h, hh hne⟩
  | client sec dst num_paths stamp sign_ok body =>
    dsimp only [handle]
    obtain ⟨h, hh⟩ := session_send_message_moves hinv sec dst num_paths stamp sign_ok body
    exact ⟨.inl (h.mono id id (by simp)), hh hne⟩
  | gen_e2e now send =>
    dsimp only [handle]
    obtain ⟨h, hh⟩ := gen_e2e_moves now send D
    exact ⟨.inl h, by rw [hh]; exact hne⟩
  | neighbor_transfer k =>
    dsimp only [handle]
    obtain ⟨h, hh⟩ := neighbor_transfer_moves hinv k
    exact ⟨.inl h, by rw [hh]; exact hne⟩
  | e2e_event k =>
    dsimp only [handle]
    obtain ⟨h, hh⟩ := e2e_event_moves k D
    exact ⟨.inl h, by rw [hh]; exact hne⟩
  | send_one k env =>
    dsimp only [handle]
    obtain ⟨h, hh⟩ := send_one_moves hinv hok (hint trivial) env
    exact ⟨.inl (h.mono (by simp) (by simp) (by simp)), by rw [hh]; exact hne⟩
  | restamp env i =>
    dsimp only [handle]
    rcases restamp_dest_round hinv (hint trivial) hrun env i with h | ⟨out, e, h⟩
    · rw [h]
      exact ⟨.inl (Moves.refl D), hne⟩
    · refine ⟨.inr ⟨env, i, out, e, rfl, h⟩, ?_⟩
      simp [h.running]

/-! ## Runs -/

def StepWhen (cf : Conf) (P : Daemon → Event → Prop) (D : Daemon) (e : Event) (D' : Daemon) : Prop :=
  Step cf D e D' ∧ P D e

instance (cf : Conf) : ∀ e : Event, Decidable (e.Ok cf)
  | .packet _ k _ _ => inferInstanceAs (Decidable (cf.nbr k))
  | .client .. => .isTrue trivial
  | .gen_e2e .. => .isTrue trivial
  | .neighbor_transfer k => inferInstanceAs (Decidable (cf.nbr k))
  | .e2e_event k => inferInstanceAs (Decidable (cf.nbr k))
  | .send_one k _ => inferInstanceAs (Decidable (cf.nbr k))
  | .restamp .. => .isTrue trivial

def play (cf : Conf) (P : Daemon → Event → Prop) [∀ D e, Decidable (P D e)] :
    Daemon → List Event → Option Daemon
  | D, [] => some D
  | D, e :: rest =>
    if D.halt = .running ∧ e.Ok cf ∧ P D e then play cf P (handle cf D e) rest else none

theorem play_when {cf : Conf} {P : Daemon → Event → Prop} [∀ D e, Decidable (P D e)]
    {Q : Daemon → Event → Prop} (hPQ : ∀ D e, P D e → Q D e) (script : List Event) :
    ∀ {D D' : Daemon}, play cf P D script = some D' → Run (StepWhen cf Q) D D' := by
  induction script with
  | nil =>
    intro D D' h
    rw [play, some_inj] at h
    rw [h]
    exact Run.refl D'
  | cons e rest ih =>
    intro D D' h
    rw [play] at h
    split at h
    · rename_i hen
      have hstep : StepWhen cf Q D e (handle cf D e) := ⟨⟨hen.1, hen.2.1, rfl⟩, hPQ D e hen.2.2⟩
      exact .head ⟨e, hstep⟩ (ih h)
    · simp at h

theorem play_run {cf : Conf} (script : List Event) {D D' : Daemon}
    (h : play cf (fun _ _ => True) D script = some D') : Run (Step cf) D D' := by
  refine Relation.ReflTransGen.mono (fun D1 D2 => ?_) _ _
    (play_when (fun _ _ h => h) script h)
  rintro ⟨e, hstep, -⟩
  exact ⟨e, hstep⟩

theorem inv_init (cf : Conf) (sec : ℕ) : Inv cf (init_reliable_flooding cf sec) := by
  intro s d
  have hflow : (init_reliable_flooding cf sec).flow s d =
      ({ FlowBuffer.init with
          src_epoch := if s = cf.my_id ∧ d = cf.my_id then epoch sec else 0 }, fun _ => 0) := by
    simp only [Daemon.flow, init_reliable_flooding, LinkData.init]
    split <;> rfl
  rw [hflow]
  refine ⟨FlowInv.of_flat rfl (fun k _ => rfl) ?_ ?_, fun _ => rfl⟩
  · simp [FlowBuffer.init]
  · simp [FlowBuffer.init]

theorem Status.sent_iff (st : Status) : st.sent = true ↔ st = .new_sent ∨ st = .restamped_sent := by
  cases st <;> simp [Status.sent]

theorem Status.unsent_iff (st : Status) :
    st.unsent = true ↔ st = .new_unsent ∨ st = .restamped_unsent := by
  cases st <;> simp [Status.unsent]

/-! ## The window and its slots -/

section Slots

variable {cf : Conf} {D D' : Daemon}

/-- No window is dropped, and what is sent fits into an `int`. -/
def keeps_windows (cf : Conf) (D : Daemon) (e : Event) : Prop :=
  ¬ e.drops cf D ∧ (e.sends → int_window cf D)

def AllClean (cf : Conf) (D : Daemon) : Prop := ∀ s d, d ≠ cf.my_id → Clean cf (D.fb s d)

theorem allClean_init (cf : Conf) (sec : ℕ) : AllClean cf (init_reliable_flooding cf sec) := by
  intro s d hd x _ _
  simp only [init_reliable_flooding]
  rw [if_neg (fun h => hd h.2)]
  exact ⟨rfl, fun _ _ => rfl⟩

theorem AllClean.moves {data e2e : Bool} (h : AllClean cf D) (hinv : Inv cf D)
    (hm : Moves cf data e2e false D D') : AllClean cf D' := by
  intro s d hd
  exact FlowRun.clean (hm s d) (hinv s d) (decide_eq_false hd) rfl (h s d hd)

theorem RestampRound.inv {env : RestampEnv} {i e : ℕ} {out : FlowBuffer × Bool × Bool}
    (h : RestampRound cf env i D D' out e) (hinv : Inv cf D) :
    Inv cf { D with fb := set2 D.fb cf.my_id i out.1 } := by
  intro a b
  by_cases hab : a = cf.my_id ∧ b = i
  · obtain ⟨rfl, rfl⟩ := hab
    have hflow : Daemon.flow { D with fb := set2 D.fb cf.my_id b out.1 } cf.my_id b =
        (out.1, (D.flow cf.my_id b).2) := by
      simp only [Daemon.flow, set2_self]
    rw [hflow]
    refine ⟨(hinv cf.my_id b).inv.restamped h.stop, fun hd => ?_⟩
    exact absurd (of_decide_eq_true hd) h.other
  · have hflow : Daemon.flow { D with fb := set2 D.fb cf.my_id i out.1 } a b = D.flow a b := by
      simp only [Daemon.flow, set2_of_ne _ _ hab]
    rw [hflow]
    exact hinv a b

theorem AllClean.restamp {env : RestampEnv} {i e : ℕ} {out : FlowBuffer × Bool × Bool}
    (h : AllClean cf D) (hinv : Inv cf D) (hr : RestampRound cf env i D D' out e) :
    AllClean cf D' := by
  have h1 : AllClean cf { D with fb := set2 D.fb cf.my_id i out.1 } := by
    intro a b hb
    dsimp only
    by_cases hab : a = cf.my_id ∧ b = i
    · obtain ⟨rfl, rfl⟩ := hab
      rw [set2_self]
      exact (h cf.my_id b hb).restamped (hinv cf.my_id b).inv.held.sow_le hr.stop
    · rw [set2_of_ne _ _ hab]
      exact h a b hb
  exact h1.moves (hr.inv hinv) hr.rest

theorem clean_step {e : Event} (hinv : Inv cf D) (hc : AllClean cf D)
    (hstep : StepWhen cf (keeps_windows cf) D e D') : Inv cf D' ∧ AllClean cf D' := by
  obtain ⟨hstep, hdrop, hint⟩ := hstep
  obtain ⟨h | ⟨env, i, out, e', -, h⟩, -⟩ := handle_moves hinv hstep hint (.inr hdrop)
  · exact ⟨h.inv hinv, hc.moves hinv h⟩
  · exact ⟨h.rest.inv (h.inv hinv), hc.restamp hinv h⟩

/-- Every buffer of a flow that ends elsewhere holds exactly the messages of its
window, and exactly these are marked. -/
def SlotsExact (cf : Conf) (D : Daemon) : Prop :=
  ∀ s d, d ≠ cf.my_id →
    (D.fb s d).sow ≤ (D.fb s d).head_seq ∧
    (D.fb s d).head_seq ≤ (D.fb s d).sow + MAX_MESS_PER_FLOW ∧
    ∀ x, x < MAX_MESS_PER_FLOW →
      (((D.fb s d).msg x).isSome = true ↔
        ∃ q, (D.fb s d).sow ≤ q ∧ q < (D.fb s d).head_seq ∧ q % MAX_MESS_PER_FLOW = x) ∧
      ∀ k, cf.nbr k → ((D.fb s d).status x k = .empty ↔ (D.fb s d).msg x = none)

/-- **A buffer holds exactly the messages of its window**, in every state of every
run that drops no window. -/
theorem window_slots_exact {sec : ℕ}
    (hrun : Run (StepWhen cf (keeps_windows cf)) (init_reliable_flooding cf sec) D) :
    SlotsExact cf D := by
  have hall : Inv cf D ∧ AllClean cf D := by
    refine Run.invariant (fun D => Inv cf D ∧ AllClean cf D)
      ⟨inv_init cf sec, allClean_init cf sec⟩ ?_ hrun
    rintro D1 e D2 ⟨hinv, hc⟩ hstep
    exact clean_step hinv hc hstep
  intro s d hd
  have hheld := (hall.1 s d).inv.held
  exact ⟨hheld.sow_le, hheld.head_le, fun x hx => slots_exact hheld (hall.2 s d hd) hx⟩

/-- Daemon `2` between the source `1` and the destination `3`. -/
def relay_conf : Conf where
  my_id := 2
  degree := 2
  neighbor_ids := fun k => if k = 1 then 1 else 3
  mp_neighbor_mask := fun k => if k = 1 then 1 else 2
  hbh_advance := false
  hbh_opt := false
  e2e_opt := true
  crypto := true
  e2e_ack_timeout := 10

/-- The ack of destination `3` that knows the epoch `src_epoch` of source `1`. -/
def source_ack (src_epoch : ℕ) : E2eAck :=
  ⟨3, fun i => if i = 1 then ⟨5, src_epoch, 0, zero_lt_word⟩ else ⟨5, 0, 0, zero_lt_word⟩⟩

def relay_stores : List Event :=
  [.packet 100 2 true ⟨.e2e (source_ack 10), []⟩,
    .packet 100 1 true ⟨.data ⟨1, 3, 10, 1, 3, []⟩, []⟩]

theorem window_slots_exact_relay : ∃ D, Run (StepWhen relay_conf (keeps_windows relay_conf))
        (init_reliable_flooding relay_conf 7) D ∧ SlotsExact relay_conf D ∧
      (D.fb 1 3).head_seq = 2 := by
  have hplay : (play relay_conf (fun D e => ¬ e.drops relay_conf D)
      (init_reliable_flooding relay_conf 7) relay_stores).isSome = true := by decide +kernel
  obtain ⟨D, hD⟩ := isSome_iff_exists.mp hplay
  have hrun : Run (StepWhen relay_conf (keeps_windows relay_conf))
      (init_reliable_flooding relay_conf 7) D := by
    refine play_when (fun D e h => ⟨h, fun _ hadv => ?_⟩) relay_stores hD
    exact absurd hadv (by decide)
  have hhead : (play relay_conf (fun D e => ¬ e.drops relay_conf D)
      (init_reliable_flooding relay_conf 7) relay_stores).map (fun D => (D.fb 1 3).head_seq) =
      some 2 := by decide +kernel
  rw [hD, map_some, some_inj] at hhead
  exact ⟨D, hrun, window_slots_exact hrun, hhead⟩

/-- **The source restarts.** The destination learns its new epoch and says so; the
relay moves the window of the flow and keeps the message of the old epoch. -/
theorem source_restart_leaves_message :
    ∃ D, Run (Step relay_conf) (init_reliable_flooding relay_conf 7) D ∧
      ¬ SlotsExact relay_conf D := by
  have hplay : (play relay_conf (fun _ _ => True) (init_reliable_flooding relay_conf 7)
      (relay_stores ++ [.packet 130 2 true ⟨.e2e (source_ack 20), []⟩])).isSome = true := by
    decide +kernel
  obtain ⟨D, hD⟩ := isSome_iff_exists.mp hplay
  have hleft : (play relay_conf (fun _ _ => True) (init_reliable_flooding relay_conf 7)
      (relay_stores ++ [.packet 130 2 true ⟨.e2e (source_ack 20), []⟩])).map
      (fun D => (((D.fb 1 3).msg 1).isSome, (D.fb 1 3).sow, (D.fb 1 3).head_seq)) =
      some (true, 1, 1) := by decide +kernel
  rw [hD, map_some, some_inj] at hleft
  simp only [Prod.mk.injEq] at hleft
  refine ⟨D, play_run _ hD, fun h => ?_⟩
  obtain ⟨q, h1, h2, -⟩ := ((h 1 3 (by decide)).2.2 1 (by decide)).1.mp hleft.1
  omega

end Slots

/-! ## What was sent -/

section Marks

variable {cf : Conf} {D D' : Daemon}

/-- If a round of `Reliable_Flood_Restamp` gives up at some message, then what it
marked before lies at or above every `next_seq`. -/
def restamp_keeps (cf : Conf) (env : RestampEnv) (i : ℕ) (D : Daemon) : Prop :=
  let fb := D.fb cf.my_id i
  let st : StampEnv := ⟨env.stamp i, env.sign_ok i⟩
  ∀ e, fb.sow ≤ e → e < fb.head_seq → restamp_fails cf st fb e = true →
    (∀ q, fb.sow ≤ q → q < e → restamp_fails cf st fb q = false) →
    ∀ q, fb.sow ≤ q → q < e → restamp_changes st fb q = true →
      ∀ k, cf.nbr k → fb.next_seq k ≤ q

/-- Restamping does not give up too late, and what is sent fits into an `int`. -/
def keeps_marks (cf : Conf) (D : Daemon) (e : Event) : Prop :=
  (e.sends → int_window cf D) ∧ ∀ env i, e = .restamp env i → restamp_keeps cf env i D

def AllSent (cf : Conf) (D : Daemon) : Prop :=
  ∀ s d, d ≠ cf.my_id → ∀ k, cf.nbr k → SentBelow (D.fb s d) k

theorem allSent_init (cf : Conf) (sec : ℕ) : AllSent cf (init_reliable_flooding cf sec) := by
  intro s d hd k _ q h1 h2
  simp only [init_reliable_flooding] at h1 h2
  rw [if_neg (fun h => hd h.2)] at h1 h2
  simp only [FlowBuffer.init] at h1 h2
  omega

theorem AllSent.moves {data e2e dirty : Bool} (h : AllSent cf D) (hinv : Inv cf D)
    (hm : Moves cf data e2e dirty D D') : AllSent cf D' := by
  intro s d hd k hk
  exact FlowRun.sentBelow (hm s d) (hinv s d) hk (decide_eq_false hd) (h s d hd k hk)

theorem AllSent.restamp {env : RestampEnv} {i e : ℕ} {out : FlowBuffer × Bool × Bool}
    (h : AllSent cf D) (hinv : Inv cf D) (hr : RestampRound cf env i D D' out e)
    (hkeeps : restamp_keeps cf env i D) : AllSent cf D' := by
  have hle := (hinv cf.my_id i).inv.held.sow_le
  dsimp only [Daemon.flow] at hle
  by_cases hresend : out.2.2 = false ∧ out.2.1 = true
  · -- every neighbour's `next_seq` was moved back
    intro a b hb k hk
    by_cases hab : a = cf.my_id ∧ b = i
    · obtain ⟨rfl, rfl⟩ := hab
      exact hr.sent hresend.1 hresend.2 k hk
    · have hsame : SentBelow (Daemon.fb { D with fb := set2 D.fb cf.my_id i out.1 } a b) k := by
        dsimp only
        rw [set2_of_ne _ _ hab]
        exact h a b hb k hk
      exact FlowRun.sentBelow (hr.rest a b) (hr.inv hinv a b) hk (decide_eq_false hb) hsame
  · -- nothing below a `next_seq` was marked
    have hbelow : ∀ k, cf.nbr k → ∀ q, (D.fb cf.my_id i).sow ≤ q → q < e →
        restamp_changes ⟨env.stamp i, env.sign_ok i⟩ (D.fb cf.my_id i) q = true →
        (D.fb cf.my_id i).next_seq k ≤ q := by
      intro k hk q h1 h2 hch
      have hse := hr.stop.le
      by_cases herr : out.2.2 = true
      · have hlt := hr.stop.error.mp herr
        exact hkeeps e hr.stop.ge (by omega) (hr.stop.fails hlt) hr.stop.before q h1 h2 hch k hk
      · have herr' : out.2.2 = false := by simpa using herr
        have hflag := (hr.stop.flag herr').mpr (.inr ⟨q, h1, by omega, hch⟩)
        exact absurd ⟨herr', hflag⟩ hresend
    have h₁ : AllSent cf { D with fb := set2 D.fb cf.my_id i out.1 } := by
      intro a b hb k hk
      dsimp only
      by_cases hab : a = cf.my_id ∧ b = i
      · obtain ⟨rfl, rfl⟩ := hab
        rw [set2_self]
        exact (h cf.my_id b hb k hk).restamped ((hinv cf.my_id b).inv.next k hk) hr.stop
          (hbelow k hk)
      · rw [set2_of_ne _ _ hab]
        exact h a b hb k hk
    exact h₁.moves (hr.inv hinv) hr.rest

theorem sent_step {e : Event} (hinv : Inv cf D) (hs : AllSent cf D)
    (hstep : StepWhen cf (keeps_marks cf) D e D') :
    Inv cf D' ∧ AllSent cf D' ∧ D'.halt ≠ .exit := by
  obtain ⟨hstep, hint, hkeeps⟩ := hstep
  obtain ⟨h, hh⟩ := handle_moves hinv hstep hint (.inl (rfl : true = true))
  rcases h with h | ⟨env, i, out, e', he, h⟩
  · exact ⟨h.inv hinv, hs.moves hinv h, hh⟩
  · exact ⟨h.rest.inv (h.inv hinv), hs.restamp hinv h (hkeeps env i he), hh⟩

/-- `next_seq[k]` of every flow that ends elsewhere lies in the window, what is
below it was sent to `k`, and the message at it was not. -/
def MarksRight (cf : Conf) (D : Daemon) : Prop :=
  ∀ s d, d ≠ cf.my_id → ∀ k, cf.nbr k →
    (D.fb s d).sow ≤ (D.fb s d).next_seq k ∧
    (D.fb s d).next_seq k ≤ (D.fb s d).head_seq ∧
    (∀ q, (D.fb s d).sow ≤ q → q < (D.fb s d).next_seq k →
      (D.fb s d).status (slot q) k = .new_sent ∨ (D.fb s d).status (slot q) k = .restamped_sent) ∧
    ((D.fb s d).next_seq k < (D.fb s d).head_seq →
      (D.fb s d).status (slot ((D.fb s d).next_seq k)) k = .new_unsent ∨
        (D.fb s d).status (slot ((D.fb s d).next_seq k)) k = .restamped_unsent)

/-- **`next_seq[k]` separates what was sent to `k` from what was not**, and the
daemon never ends itself, in every state of every run in which restamping does
not give up too late. -/
theorem next_seq_marks {sec : ℕ}
    (hrun : Run (StepWhen cf (keeps_marks cf)) (init_reliable_flooding cf sec) D) :
    MarksRight cf D ∧ D.halt ≠ .exit := by
  have hall : Inv cf D ∧ AllSent cf D ∧ D.halt ≠ .exit := by
    refine Run.invariant (fun D => Inv cf D ∧ AllSent cf D ∧ D.halt ≠ .exit)
      ⟨inv_init cf sec, allSent_init cf sec, by simp [init_reliable_flooding]⟩ ?_ hrun
    rintro D1 e D2 ⟨hinv, hs, -⟩ hstep
    exact sent_step hinv hs hstep
  obtain ⟨hinv, hsent, hhalt⟩ := hall
  refine ⟨fun s d hd k hk => ?_, hhalt⟩
  have hn := (hinv s d).inv.next k hk
  refine ⟨hn.sow_le, hn.le_head, fun q h1 h2 => ?_, fun hlt => ?_⟩
  · exact (Status.sent_iff _).mp (hsent s d hd k hk q h1 h2)
  · exact (Status.unsent_iff _).mp (hn.unsent hlt)

/-- Daemon `1`, a source with the one neighbour `2`. -/
def source_conf : Conf where
  my_id := 1
  degree := 1
  neighbor_ids := fun _ => 2
  mp_neighbor_mask := fun _ => 1
  hbh_advance := false
  hbh_opt := false
  e2e_opt := true
  crypto := true
  e2e_ack_timeout := 10

def open_link : SendEnv := ⟨200, false, true, true, 1, 10, true⟩

def source_sends : List Event :=
  [.packet 100 1 true ⟨.e2e (source_ack 7), []⟩,
    .client 110 3 1 ⟨64, 1⟩ true [],
    .client 120 3 1 ⟨64, 1⟩ true [],
    .send_one 1 open_link]

/-- The new masks have one more link; messages up to `n` can be signed. -/
def wider_masks (n : ℕ) : RestampEnv := ⟨fun _ _ => some 3, fun _ q => q ≤ n, fun _ _ => []⟩

theorem next_seq_marks_restamped : ∃ D, Run (StepWhen source_conf (keeps_marks source_conf))
        (init_reliable_flooding source_conf 7) D ∧
      (MarksRight source_conf D ∧ D.halt ≠ .exit) ∧ (D.fb 1 3).next_seq 1 = 1 := by
  have hplay : (play source_conf (fun _ e => e.is_restamp = false)
      (init_reliable_flooding source_conf 7) source_sends).map
      (fun D => (D.halt, ((restamp_dest source_conf (wider_masks 2) D 3).fb 1 3).next_seq 1,
        (D.fb 1 3).sow, (D.fb 1 3).head_seq)) = some (.running, 1, 1, 3) := by decide +kernel
  obtain ⟨D, hD, hout⟩ := map_eq_some_iff.mp hplay
  simp only [Prod.mk.injEq] at hout
  obtain ⟨hrunning, hnext, hsow, hhead⟩ := hout
  have hint : ∀ D, int_window source_conf D := fun D h => absurd h (by decide)
  have hrun : Run (StepWhen source_conf (keeps_marks source_conf))
      (init_reliable_flooding source_conf 7) D := by
    refine play_when (fun D e h => ⟨fun _ => hint D, fun env i he => ?_⟩) source_sends hD
    rw [he] at h
    simp [Event.is_restamp] at h
  have hkeeps : restamp_keeps source_conf (wider_masks 2) 3 D := by
    intro e h1 h2 hfail
    simp only [source_conf, hsow, hhead] at h1 h2
    simp [restamp_fails, wider_masks] at hfail
    omega
  have hstep : StepWhen source_conf (keeps_marks source_conf) D (.restamp (wider_masks 2) 3)
      (restamp_dest source_conf (wider_masks 2) D 3) := by
    refine ⟨⟨hrunning, trivial, rfl⟩, fun _ => hint D, fun env i he => ?_⟩
    simp only [Event.restamp.injEq] at he
    rw [← he.1, ← he.2]
    exact hkeeps
  exact ⟨_, hrun.tail hstep, next_seq_marks (hrun.tail hstep), hnext⟩

/-- **The second message cannot be signed.** The first is marked as unsent already,
and `next_seq` stays behind it: it will not be sent again. -/
theorem failed_restamp_skips_message :
    ∃ D, Run (Step source_conf) (init_reliable_flooding source_conf 7) D ∧
      ¬ MarksRight source_conf D := by
  have hplay : (play source_conf (fun _ _ => True) (init_reliable_flooding source_conf 7)
      (source_sends ++ [.restamp (wider_masks 1) 3])).map
      (fun D => ((D.fb 1 3).sow, (D.fb 1 3).next_seq 1, (D.fb 1 3).status 1 1)) =
      some (1, 2, .restamped_unsent) := by decide +kernel
  obtain ⟨D, hD, hout⟩ := map_eq_some_iff.mp hplay
  simp only [Prod.mk.injEq] at hout
  obtain ⟨hsow, hnext, hst⟩ := hout
  refine ⟨D, play_run _ hD, fun h => ?_⟩
  obtain ⟨-, -, hsent, -⟩ := h 1 3 (by decide) 1 (by decide)
  have hsent := hsent 1 (by omega) (by omega)
  have hslot : slot 1 = 1 := by decide
  rw [hslot, hst] at hsent
  simp at hsent

end Marks

end Spines.RelFlood
