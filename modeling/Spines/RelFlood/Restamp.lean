/-
Restamping after a change of the routing (`Reliable_Flood_Restamp`).

A round for destination `i` walks over the stored messages of the flow to `i` and
replaces each mask by its union with the mask that is computed now. It gives up at
the first message without a path or whose signature fails. If some mask changed,
a second loop over the neighbours `k` queues the flow again. It looks the neighbour
up by `i`, the index of the destination, in a table with an entry for each neighbour
(`restamp_wrong_neighbor`). So the round is right only if every other neighbour stays out:
the flow waits in its queue already, or what it is sent next is not for its link
(`OthersStayOut`, `restamps_right_iff`).
-/
import Spines.RelFlood.Keeps
import Spines.RelFlood.Window

set_option autoImplicit false

namespace Spines.RelFlood

open Spines.Lib List Function

/-! ## 1. Every message of a window is stored -/

structure Filled (fb : FlowBuffer) : Prop where
  narrow : fb.head_seq ≤ fb.sow + MAX_MESS_PER_FLOW
  stored : ∀ q, fb.sow ≤ q → q < fb.head_seq → (fb.msg (slot q)).isSome = true

section Filled

variable {cf : Conf} {fb fb' : FlowBuffer}

theorem Filled.of_eq (h : Filled fb) (hs : fb'.sow = fb.sow) (hh : fb'.head_seq = fb.head_seq)
    (hm : fb'.msg = fb.msg) : Filled fb' := by
  refine ⟨by rw [hs, hh]; exact h.narrow, fun q h1 h2 => ?_⟩
  rw [hs] at h1
  rw [hh] at h2
  rw [hm]
  exact h.stored q h1 h2

theorem Filled.advance (h : Filled fb) (guarded : Bool) (cnt : ℕ) :
    Filled (advance_loop cf guarded cnt fb) := by
  obtain ⟨hs, hh, -, -⟩ := advance_loop_fields cf guarded cnt fb
  have hnarrow := h.narrow
  refine ⟨by omega, fun q h1 h2 => ?_⟩
  rw [hs] at h1
  rw [hh] at h2
  have hkeep : ∀ p, fb.sow ≤ p → p < fb.sow + cnt → slot p ≠ slot q := fun p h3 h4 =>
    @slot_ne_of_window fb.sow _ _ h3 (by omega) (by omega) (by omega) (by omega)
  rw [(advance_loop_keep cf guarded cnt fb (slot q) hkeep).1]
  exact h.stored q (by omega) h2

theorem Filled.ack_loop (k aru fuel : ℕ) : ∀ {fb : FlowBuffer}, Filled fb →
    Filled (ack_loop k aru fuel fb) := by
  induction fuel with
  | zero => intro fb h; exact h
  | succ fuel ih =>
    intro fb h
    rw [RelFlood.ack_loop]
    split
    · exact ih (h.of_eq rfl rfl rfl)
    · exact h

theorem Filled.restamp_loop (env : StampEnv) (cnt : ℕ) : ∀ (j : ℕ) {fb : FlowBuffer} (flag : Bool),
    Filled fb → Filled (restamp_loop cf env cnt j fb flag).1 := by
  induction cnt with
  | zero => intro j fb flag h; exact h
  | succ cnt ih =>
    intro j fb flag h
    rw [RelFlood.restamp_loop]
    split
    · have hset : ∀ x, Filled { fb with msg := update fb.msg (slot j) (some x) } := by
        refine fun x => ⟨h.narrow, fun q h1 h2 => ?_⟩
        dsimp only
        by_cases hq : slot q = slot j
        · rw [hq, update_self]
          rfl
        · rw [update_of_ne hq]
          exact h.stored q h1 h2
      dsimp only
      split
      · exact ih _ _ h
      · split
        · exact hset _
        · exact ih _ _ ((hset _).of_eq rfl rfl rfl)
    · exact h

theorem Filled.store_data (h : Filled fb) (hop : ℕ) (m : Msg) (restamped : Bool)
    (np : ℕ) : Filled (fb.store_data cf hop m restamped np) := by
  obtain ⟨hs, hh, -⟩ := store_data_fields cf fb hop m restamped np
  refine ⟨by rw [hs, hh]; exact h.narrow, fun q h1 h2 => ?_⟩
  rw [hs] at h1
  rw [hh] at h2
  by_cases hq : slot q = slot m.seq_num
  · rw [hq, (store_data_self cf fb hop m restamped np).1]
    rfl
  · rw [(store_data_other cf fb hop m restamped np hq).1]
    exact h.stored q h1 h2

theorem filled_kept (cf : Conf) : KeptElsewhere cf Filled where
  init := ⟨by decide, fun q h1 h2 => absurd h2 (Nat.not_lt.mpr h1)⟩
  keeps :=
    { refl := fun _ h => h
      trans := fun h h' hfb => h' (h hfb)
      move_up := fun fb guarded aru h => (h.advance guarded _).of_eq rfl rfl rfl
      ack_loop := fun fb k aru fuel h => h.ack_loop k aru fuel
      unsend := fun _ _ h => h.of_eq rfl rfl rfl
      move_up_int := fun _ _ fb aru _ h => (h.advance true _).of_eq rfl rfl rfl
      restamp_loop := fun fb env cnt j flag h => h.restamp_loop env cnt j flag
      mark_sent := fun _ _ _ h => h.of_eq rfl rfl rfl
      resend := fun _ _ h => h.of_eq rfl rfl rfl }
  fresh fb hop m np h hv := by
    obtain ⟨hs, hh, -⟩ := with_fresh_fields cf fb m hop np
    rcases data_verdict_cases fb m with
      hno | ⟨-, ⟨-, hseq, -, hroom⟩ | ⟨-, ⟨hno, -⟩ | ⟨_, -, ⟨hno, -⟩ | ⟨hno, -⟩⟩⟩⟩
    · exact absurd (hv.symm.trans hno) (by decide)
    · have hroom := (room_of_check hroom).1
      refine ⟨by omega, fun q h1 h2 => ?_⟩
      rw [hs] at h1
      rw [hh] at h2
      by_cases hq : q = m.seq_num
      · rw [hq, FlowBuffer.with_fresh, (store_data_self cf _ hop m false np).1]
        rfl
      · have hslot : slot q ≠ slot m.seq_num :=
          @slot_ne_of_window fb.sow _ _ h1 (by omega) (by omega) (by omega) hq
        rw [FlowBuffer.with_fresh, (store_data_other cf _ hop m false np hslot).1]
        exact h.stored q h1 (by omega)
    · exact absurd (hv.symm.trans hno) (by decide)
    · exact absurd (hv.symm.trans hno) (by decide)
    · exact absurd (hv.symm.trans hno) (by decide)
  restamped fb hop m np h _ := (h.store_data hop m true np).of_eq rfl rfl rfl
  duplicate fb hop m h := by
    unfold FlowBuffer.duplicate
    split <;> exact h.of_eq rfl rfl rfl
  cell fb new old h := by
    have hreset : ∀ x : FlowBuffer, Filled (x.e2e_reset cf new) := fun x =>
      ⟨Nat.le_add_right _ _, fun q h1 h2 => absurd h2 (not_lt.mpr h1)⟩
    unfold FlowBuffer.e2e_cell
    split
    · exact hreset _
    split
    · exact hreset _
    split
    · -- `head_seq` follows `sow`, and the window is empty then
      have hadv := @Filled.advance cf fb h true (new.aru + 1 - fb.sow)
      obtain ⟨hs, hh, -, -⟩ := advance_loop_fields cf true (new.aru + 1 - fb.sow) fb
      have hnarrow := h.narrow
      have hsow := slide_sow cf fb true new.aru
      have hhead := slide_head cf fb true new.aru
      rw [e2e_advance_eq_slide]
      refine ⟨by omega, fun q h1 h2 => ?_⟩
      exact hadv.stored q (by omega) (by omega)
    · exact h

end Filled

/-! ## 2. The masks and marks of a round -/

/-- The loop over the stored messages of the flow to `i`. -/
def restamp_messages (cf : Conf) (env : RestampEnv) (i : ℕ) (fb : FlowBuffer) :
    FlowBuffer × Bool × Bool :=
  restamp_loop cf ⟨env.stamp i, env.sign_ok i⟩ (fb.head_seq - fb.sow) fb.sow fb false

/-- The mask of message `q` to `i` has to change. -/
def restamp_due (env : RestampEnv) (i : ℕ) (fb : FlowBuffer) (q : ℕ) : Bool :=
  restamp_changes ⟨env.stamp i, env.sign_ok i⟩ fb q

/-- The masks are the unions with those that are computed now, and the messages whose
mask changed, and no others, count as unsent again. -/
structure MasksRight (cf : Conf) (env : RestampEnv) (i : ℕ) (fb : FlowBuffer) : Prop where
  masks : ∀ q, fb.sow ≤ q → q < fb.head_seq → ∀ m stamp, fb.msg (slot q) = some m →
    env.stamp i (fb.num_paths (slot q)) = some stamp →
    (restamp_messages cf env i fb).1.msg (slot q) = some { m with mask := stamp ||| m.mask }
  marks : ∀ q, fb.sow ≤ q → q < fb.head_seq → ∀ k, cf.nbr k →
    (restamp_messages cf env i fb).1.status (slot q) k =
      if restamp_due env i fb q = true then .restamped_unsent else fb.status (slot q) k

def Unhindered (cf : Conf) (env : RestampEnv) (i : ℕ) (fb : FlowBuffer) : Prop :=
  ∀ q, fb.sow ≤ q → q < fb.head_seq → restamp_due env i fb q = true →
    (∀ p, fb.sow ≤ p → p < q →
      restamp_fails cf ⟨env.stamp i, env.sign_ok i⟩ fb p = false) ∧
    (restamp_fails cf ⟨env.stamp i, env.sign_ok i⟩ fb q = true → ∀ k, cf.nbr k →
      fb.status (slot q) k = .restamped_unsent)

section Masks

variable {cf : Conf} {env : RestampEnv} {i : ℕ} {fb : FlowBuffer}

theorem multipath_is_equal_false {old_mask new_mask : ℕ} :
    (!multipath_is_equal old_mask new_mask) = true ↔ old_mask ≠ new_mask := by
  rw [Bool.not_eq_true']
  exact decide_eq_false_iff_not

theorem restamp_messages_spec (h : Filled fb) :
    ∃ e, RestampOut cf ⟨env.stamp i, env.sign_ok i⟩ (fb.head_seq - fb.sow) fb.sow fb false
      (restamp_messages cf env i fb) e := by
  have hnarrow := h.narrow
  exact restamp_loop_spec cf _ _ _ fb false (by omega) (fun q h1 h2 => h.stored q h1 (by omega))

theorem restamp_msg_of_not_due {q stamp : ℕ} {m : Msg} (hm : fb.msg (slot q) = some m)
    (hstamp : env.stamp i (fb.num_paths (slot q)) = some stamp) :
    restamp_msg ⟨env.stamp i, env.sign_ok i⟩ fb q = some { m with mask := stamp ||| m.mask } ∧
      (restamp_due env i fb q = true ↔ m.mask ≠ stamp ||| m.mask) := by
  unfold restamp_msg restamp_due restamp_changes
  dsimp only
  rw [hm, hstamp]
  exact ⟨rfl, multipath_is_equal_false⟩

theorem masks_grow (h : Filled fb) {q : ℕ} (h1 : fb.sow ≤ q) (h2 : q < fb.head_seq) {m : Msg}
    (hm : fb.msg (slot q) = some m) :
    ∃ mask, (restamp_messages cf env i fb).1.msg (slot q) = some { m with mask := mask } ∧
      mask ||| m.mask = mask := by
  obtain ⟨e, he⟩ := @restamp_messages_spec cf env i fb h
  rw [he.msg q h1 (by omega)]
  split
  · cases hstamp : env.stamp i (fb.num_paths (slot q)) with
    | none =>
      refine ⟨m.mask, ?_, Nat.or_self _⟩
      unfold restamp_msg
      dsimp only
      rw [hm, hstamp]
    | some stamp =>
      refine ⟨stamp ||| m.mask, (restamp_msg_of_not_due hm hstamp).1, ?_⟩
      rw [Nat.or_assoc, Nat.or_self]
  · exact ⟨m.mask, hm, Nat.or_self _⟩

theorem masks_right_iff (h : Filled fb) : MasksRight cf env i fb ↔ Unhindered cf env i fb := by
  obtain ⟨e, he⟩ := @restamp_messages_spec cf env i fb h
  have hle := he.le
  -- a message that is due has a mask to be joined
  have hdue : ∀ q, restamp_due env i fb q = true → ∃ m stamp, fb.msg (slot q) = some m ∧
      env.stamp i (fb.num_paths (slot q)) = some stamp ∧ m.mask ≠ stamp ||| m.mask := by
    intro q hq
    unfold restamp_due restamp_changes at hq
    split at hq
    · rename_i stamp m hstamp hm
      exact ⟨m, stamp, hm, hstamp, multipath_is_equal_false.mp hq⟩
    · exact absurd hq (by simp)
  constructor
  · intro hright q h1 h2 hq
    obtain ⟨m, stamp, hm, hstamp, hne⟩ := hdue q hq
    -- the loop got as far as `q`
    have hqe : q ≤ e := by
      by_contra hlt
      have hmask := hright.masks q h1 h2 m stamp hm hstamp
      rw [he.msg q h1 (by omega), if_neg hlt, hm, Option.some_inj, Msg.mk.injEq] at hmask
      exact hne hmask.2.2.2.2.1
    refine ⟨fun p h3 h4 => he.before p h3 (by omega), fun hfail k hk => ?_⟩
    have hnot : ¬ q < e := fun hlt => by
      rw [he.before q h1 hlt] at hfail
      exact absurd hfail (by simp)
    have hmark := hright.marks q h1 h2 k hk
    rw [he.status q h1 (by omega) k, if_neg (fun hand => hnot hand.1), if_pos hq] at hmark
    exact hmark
  · intro hfree
    -- past the message at which the loop gave up nothing is due
    have hpast : ∀ q, fb.sow ≤ q → q < fb.head_seq → e < q → restamp_due env i fb q = false := by
      intro q h1 h2 hlt
      by_contra hq
      have hbefore := (hfree q h1 h2 (Bool.eq_true_of_not_eq_false hq)).1 e he.ge hlt
      rw [he.fails (by omega)] at hbefore
      exact absurd hbefore (by simp)
    refine ⟨fun q h1 h2 m stamp hm hstamp => ?_, fun q h1 h2 k hk => ?_⟩
    · obtain ⟨hmsg, hiff⟩ := restamp_msg_of_not_due hm hstamp
      rw [he.msg q h1 (by omega)]
      split
      · exact hmsg
      · have hq := hpast q h1 h2 (by omega)
        have hsame : m.mask = stamp ||| m.mask := by
          by_contra hne
          rw [hiff.mpr hne] at hq
          exact absurd hq (by simp)
        rw [hm, ← hsame]
    · rw [he.status q h1 (by omega) k]
      rcases Nat.lt_trichotomy q e with hlt | heq | hgt
      · by_cases hq : restamp_due env i fb q = true
        · rw [if_pos hq, if_pos ⟨hlt, hq, hk⟩]
        · rw [if_neg hq, if_neg (fun hand => hq hand.2.1)]
      · rw [if_neg (fun hand => absurd hand.1 (by omega))]
        split
        · rename_i hq
          have hfail := he.fails (by omega)
          rw [← heq] at hfail
          exact (hfree q h1 h2 hq).2 hfail k hk
        · rfl
      · rw [if_neg (fun hand => absurd hand.1 (by omega)), if_neg (by rw [hpast q h1 h2 hgt]; simp)]

end Masks

/-! ## 3. The neighbours -/

/-- `next_seq[k]` falls back to the first message that neighbour `k` has not been sent. -/
def Daemon.resend_flow (cf : Conf) (i : ℕ) (D : Daemon) (k : ℕ) : Daemon :=
  { D with fb := set2 D.fb cf.my_id i ((D.fb cf.my_id i).resend k) }

/-- It would have to move forward, and the process ends. -/
def restamp_stops (cf : Conf) (i : ℕ) (D : Daemon) (k : ℕ) : Prop :=
  (D.fb cf.my_id i).next_seq k < (D.fb cf.my_id i).skip_sent k (D.fb cf.my_id i).sow

/-- The flow waits in neither queue of neighbour `k`, and the message it would be sent next is for
its link. -/
def restamp_enters (cf : Conf) (i : ℕ) (D : Daemon) (k : ℕ) : Prop :=
  (D.edge k).in_flow_queue cf.my_id i = false ∧ ((D.fb cf.my_id i).resend k).has_next cf k

instance (cf : Conf) (i : ℕ) (D : Daemon) (k : ℕ) : Decidable (restamp_stops cf i D k) :=
  inferInstanceAs (Decidable (_ < _))

instance (cf : Conf) (i : ℕ) (D : Daemon) (k : ℕ) : Decidable (restamp_enters cf i D k) :=
  inferInstanceAs (Decidable (_ ∧ _))

/-- `Request_Resources` for the node at `index` of `Neighbor_Addrs[My_ID]`. -/
def request_resources (cf : Conf) (env : RestampEnv) (i k index : ℕ) (D : Daemon) : Daemon :=
  if cf.nbr index then
    (env.resources i k).foldl (fun D e => (reliable_flood_send_one cf index e D).1) D
  else D

/-- The round of the second loop for neighbour `k`, with the neighbour and the index for which
resources are requested (`restamp_ngbr_log_fst`). -/
def restamp_ngbr_log (cf : Conf) (env : RestampEnv) (i : ℕ) (D : Daemon) (k : ℕ) :
    Daemon × List (ℕ × ℕ) :=
  if D.halt ≠ .running then (D, [])
  else if restamp_stops cf i D k then ({ D with halt := .exit }, [])
  else
    let D' := D.resend_flow cf i k
    if restamp_enters cf i D k then
      let index := i
      (request_resources cf env i k index (D'.on_edge k (LinkData.push_urgent cf.my_id i)),
        [(k, index)])
    else (D', [])

/-- The requests of the second loop. -/
def restamp_ngbrs_log (cf : Conf) (env : RestampEnv) (i : ℕ) : List ℕ → Daemon → List (ℕ × ℕ)
  | [], _ => []
  | k :: ks, D =>
    (restamp_ngbr_log cf env i D k).2 ++ restamp_ngbrs_log cf env i ks (restamp_ngbr cf env i D k)

/-- The state between the two loops of a round. -/
def restamp_marked (cf : Conf) (env : RestampEnv) (i : ℕ) (D : Daemon) : Daemon :=
  { D with fb := set2 D.fb cf.my_id i (restamp_messages cf env i (D.fb cf.my_id i)).1 }

/-- The second loop is entered: a mask has changed, and the first loop has not given up. -/
def restamp_goes_on (cf : Conf) (env : RestampEnv) (i : ℕ) (D : Daemon) : Prop :=
  ¬(D.halt ≠ .running ∨ i = cf.my_id ∨ (D.fb cf.my_id i).sow = (D.fb cf.my_id i).head_seq) ∧
    (restamp_messages cf env i (D.fb cf.my_id i)).2.2 = false ∧
    (restamp_messages cf env i (D.fb cf.my_id i)).2.1 = true

instance (cf : Conf) (env : RestampEnv) (i : ℕ) (D : Daemon) :
    Decidable (restamp_goes_on cf env i D) :=
  inferInstanceAs (Decidable (_ ∧ _))

/-- The requests of a round: the neighbour `k` whose queue the flow has just entered,
and the index at which `Neighbor_Addrs[My_ID]` is read. -/
def restamp_requests (cf : Conf) (env : RestampEnv) (i : ℕ) (D : Daemon) : List (ℕ × ℕ) :=
  if restamp_goes_on cf env i D then
    restamp_ngbrs_log cf env i (range' 1 cf.degree) (restamp_marked cf env i D)
  else []

/-- The round for destination `i` does what it is meant to. -/
structure RestampsRight (cf : Conf) (env : RestampEnv) (i : ℕ) (D : Daemon) : Prop where
  messages : MasksRight cf env i (D.fb cf.my_id i)
  requests : ∀ r ∈ restamp_requests cf env i D, cf.nbr r.2 ∧ r.2 = r.1

/-- None of the neighbours gets the flow into its queue, up to the first that ends the process; all
as it is in the state `D`. -/
def StayOut (cf : Conf) (i : ℕ) (D : Daemon) : List ℕ → Prop
  | [] => True
  | k :: ks => restamp_stops cf i D k ∨ ¬restamp_enters cf i D k ∧ StayOut cf i D ks

/-- The neighbours before number `i`, or all when there is no number `i`. -/
def before_dest (cf : Conf) (i : ℕ) : List ℕ :=
  range' 1 (if cf.nbr i then i - 1 else cf.degree)

def after_dest (cf : Conf) (i : ℕ) : List ℕ := range' (i + 1) (cf.degree - i)

/-- The state after the turn of neighbour `i`, when those before it have stayed out. -/
def dest_served (cf : Conf) (env : RestampEnv) (i : ℕ) (D : Daemon) : Daemon :=
  restamp_ngbr cf env i ((before_dest cf i).foldl (Daemon.resend_flow cf i) D) i

/-- If the second loop is entered, no neighbour but number `i` gets the flow into its queue: those
before it as things stand, and those after it as they stand when number `i` has been served. -/
def OthersStayOut (cf : Conf) (env : RestampEnv) (i : ℕ) (D : Daemon) : Prop :=
  restamp_goes_on cf env i D →
    StayOut cf i (restamp_marked cf env i D) (before_dest cf i) ∧
    (cf.nbr i → (∀ k ∈ before_dest cf i, ¬restamp_stops cf i (restamp_marked cf env i D) k) →
      (dest_served cf env i (restamp_marked cf env i D)).halt = .running →
      StayOut cf i (dest_served cf env i (restamp_marked cf env i D)) (after_dest cf i))

section Requests

variable {cf : Conf} {env : RestampEnv} {i k : ℕ} {D : Daemon} {ks : List ℕ}

theorem restamp_ngbr_eq : restamp_ngbr cf env i D k =
    if D.halt ≠ .running then D
    else if restamp_stops cf i D k then { D with halt := .exit }
    else if restamp_enters cf i D k then
      request_resources cf env i k i
        ((D.resend_flow cf i k).on_edge k (LinkData.push_urgent cf.my_id i))
    else D.resend_flow cf i k := rfl

/-- The log is one of the round of the code. -/
theorem restamp_ngbr_log_fst :
    (restamp_ngbr_log cf env i D k).1 = restamp_ngbr cf env i D k := by
  rw [restamp_ngbr_eq, restamp_ngbr_log]
  dsimp only
  split
  · rfl
  · split
    · rfl
    · split <;> rfl

theorem restamp_ngbr_log_mem {r : ℕ × ℕ} (hr : r ∈ (restamp_ngbr_log cf env i D k).2) :
    r = (k, i) := by
  unfold restamp_ngbr_log at hr
  dsimp only at hr
  split at hr
  · exact absurd hr not_mem_nil
  · split at hr
    · exact absurd hr not_mem_nil
    · split at hr
      · exact mem_singleton.mp hr
      · exact absurd hr not_mem_nil

theorem restamp_ngbrs_log_mem {r : ℕ × ℕ} : ∀ {ks : List ℕ} {D : Daemon},
    r ∈ restamp_ngbrs_log cf env i ks D → r.1 ∈ ks ∧ r.2 = i
  | [], _, hr => absurd hr not_mem_nil
  | k :: ks, D, hr => by
    rcases mem_append.mp hr with hnow | hlater
    · rw [restamp_ngbr_log_mem hnow]
      exact ⟨mem_cons_self, rfl⟩
    · obtain ⟨hmem, hindex⟩ := restamp_ngbrs_log_mem hlater
      exact ⟨mem_cons_of_mem _ hmem, hindex⟩

theorem restamp_ngbrs_log_append (a b : List ℕ) : ∀ D : Daemon,
    restamp_ngbrs_log cf env i (a ++ b) D = restamp_ngbrs_log cf env i a D ++
      restamp_ngbrs_log cf env i b (a.foldl (restamp_ngbr cf env i) D) := by
  induction a with
  | nil => exact fun _ => rfl
  | cons k a ih =>
    intro D
    rw [cons_append, restamp_ngbrs_log, restamp_ngbrs_log, ih, foldl_cons, append_assoc]

theorem restamp_ngbr_halted (h : D.halt ≠ .running) : restamp_ngbr cf env i D k = D := by
  rw [restamp_ngbr, if_pos h]

theorem restamp_ngbrs_log_halted (h : D.halt ≠ .running) (ks : List ℕ) :
    restamp_ngbrs_log cf env i ks D = [] ∧ ks.foldl (restamp_ngbr cf env i) D = D := by
  induction ks with
  | nil => exact ⟨rfl, rfl⟩
  | cons k ks ih =>
    rw [restamp_ngbrs_log, foldl_cons, restamp_ngbr_halted h, restamp_ngbr_log, if_pos h]
    exact ih

/-- Where the flow of one neighbour falls back makes no difference to another. -/
theorem resend_other {j : ℕ} (hj : j ≠ k) :
    (restamp_stops cf i (D.resend_flow cf i k) j ↔ restamp_stops cf i D j) ∧
    (restamp_enters cf i (D.resend_flow cf i k) j ↔ restamp_enters cf i D j) := by
  have hfb : (D.resend_flow cf i k).fb cf.my_id i = (D.fb cf.my_id i).resend k := set2_self ..
  have hnext : ((D.fb cf.my_id i).resend k).next_seq j = (D.fb cf.my_id i).next_seq j :=
    update_of_ne hj _ _
  constructor
  · rw [restamp_stops, restamp_stops, hfb, hnext]
    exact Iff.rfl
  · rw [restamp_enters, restamp_enters, hfb]
    simp only [FlowBuffer.resend, FlowBuffer.has_next, FlowBuffer.next_on_path, update_self]
    exact Iff.rfl

theorem stay_out_resend (hk : k ∉ ks) : StayOut cf i (D.resend_flow cf i k) ks ↔
    StayOut cf i D ks := by
  induction ks with
  | nil => exact Iff.rfl
  | cons j ks ih =>
    rw [mem_cons, not_or] at hk
    obtain ⟨hj, hks⟩ := hk
    obtain ⟨hstops, henters⟩ := @resend_other cf i k D j (Ne.symm hj)
    rw [StayOut, StayOut, hstops, henters, ih hks]

/-- Neighbours that stay out leave no request, and nothing but where their flows fall back. -/
theorem stay_out_iff (hrun : D.halt = .running) (hks : ks.Nodup) :
    (restamp_ngbrs_log cf env i ks D = [] ↔ StayOut cf i D ks) ∧
    (StayOut cf i D ks → (∃ k ∈ ks, restamp_stops cf i D k) →
      (ks.foldl (restamp_ngbr cf env i) D).halt ≠ .running) ∧
    (StayOut cf i D ks → (∀ k ∈ ks, ¬restamp_stops cf i D k) →
      ks.foldl (restamp_ngbr cf env i) D = ks.foldl (Daemon.resend_flow cf i) D) := by
  induction ks generalizing D with
  | nil => exact ⟨iff_of_true rfl trivial, fun _ h => absurd h (by simp), fun _ _ => rfl⟩
  | cons k ks ih =>
    obtain ⟨hk, hks⟩ := nodup_cons.mp hks
    rw [restamp_ngbrs_log, ← restamp_ngbr_log_fst, foldl_cons, foldl_cons, ← restamp_ngbr_log_fst,
      StayOut, restamp_ngbr_log, if_neg (not_not.mpr hrun)]
    by_cases hstop : restamp_stops cf i D k
    · rw [if_pos hstop]
      have hhalted : ({ D with halt := .exit } : Daemon).halt ≠ .running := by simp
      obtain ⟨hlog, hstate⟩ := @restamp_ngbrs_log_halted cf env i _ hhalted ks
      refine ⟨iff_of_true (by rw [hlog]; rfl) (.inl hstop), fun _ _ => ?_, fun _ hnone => ?_⟩
      · rw [hstate]
        exact hhalted
      · exact absurd hstop (hnone k mem_cons_self)
    · rw [if_neg hstop]
      by_cases henter : restamp_enters cf i D k
      · have hnot : ¬(restamp_stops cf i D k ∨ ¬restamp_enters cf i D k ∧ StayOut cf i D ks) := by
          rintro (h | h)
          · exact hstop h
          · exact h.1 henter
        rw [if_pos henter]
        exact ⟨iff_of_false (by simp) hnot, fun h => absurd h hnot, fun h => absurd h hnot⟩
      · rw [if_neg henter]
        dsimp only
        have hrest : (restamp_stops cf i D k ∨ ¬restamp_enters cf i D k ∧ StayOut cf i D ks) ↔
            StayOut cf i D ks := by simp [hstop, henter]
        have hstops : ∀ j ∈ ks, (restamp_stops cf i (D.resend_flow cf i k) j ↔
            restamp_stops cf i D j) :=
          fun j hj => (resend_other (ne_of_mem_of_not_mem hj hk)).1
        obtain ⟨hlog, hhalts, hstate⟩ := @ih (D.resend_flow cf i k) hrun hks
        rw [hrest, ← stay_out_resend hk]
        refine ⟨hlog, fun hout hsome => hhalts hout ?_, fun hout hnone => hstate hout ?_⟩
        · obtain ⟨j, hj, hj'⟩ := hsome
          rcases mem_cons.mp hj with rfl | hj
          · exact absurd hj' hstop
          · exact ⟨j, hj, (hstops j hj).mpr hj'⟩
        · exact fun j hj => (hstops j hj).not.mpr (hnone j (mem_cons_of_mem _ hj))

theorem ngbrs_split (h : cf.nbr i) :
    range' 1 cf.degree = before_dest cf i ++ i :: after_dest cf i := by
  obtain ⟨hpos, hle⟩ := h
  have hcons : i :: after_dest cf i = range' i (cf.degree - i + 1) := rfl
  rw [hcons, before_dest, if_pos ⟨hpos, hle⟩]
  have hmid : range' i (cf.degree - i + 1) = range' (1 + 1 * (i - 1)) (cf.degree - i + 1) := by
    congr 1
    omega
  rw [hmid, List.range'_append]
  congr 1
  omega

theorem nil_of_ne {log : List (ℕ × ℕ)} (h : ∀ r ∈ log, r.1 ≠ i) :
    (∀ r ∈ log, r.1 = i) ↔ log = [] := by
  refine ⟨fun hall => eq_nil_iff_forall_not_mem.mpr fun r hr => h r hr (hall r hr), ?_⟩
  rintro rfl r hr
  exact absurd hr not_mem_nil

/-- The second loop asks for no neighbour but number `i` exactly when the others stay out. -/
theorem requests_of_dest_iff :
    (∀ r ∈ restamp_requests cf env i D, r.1 = i) ↔ OthersStayOut cf env i D := by
  unfold restamp_requests OthersStayOut
  by_cases hgo : restamp_goes_on cf env i D
  swap
  · rw [if_neg hgo]
    exact iff_of_true (fun r hr => absurd hr not_mem_nil) fun h => absurd h hgo
  rw [if_pos hgo]
  have hrun : (restamp_marked cf env i D).halt = .running :=
    not_not.mp fun h => hgo.1 (.inl h)
  simp only [hgo, true_implies]
  set D1 := restamp_marked cf env i D
  have hnodup : (before_dest cf i).Nodup := List.nodup_range'
  obtain ⟨hlog, hhalts, hstate⟩ := @stay_out_iff cf env i D1 _ hrun hnodup
  by_cases hi : cf.nbr i
  · -- neighbour `i` itself may ask
    have hlower : ∀ r ∈ restamp_ngbrs_log cf env i (before_dest cf i) D1, r.1 ≠ i := by
      intro r hr
      have hmem := (restamp_ngbrs_log_mem hr).1
      rw [before_dest, if_pos hi] at hmem
      have hlt := List.mem_range'_1.mp hmem
      omega
    have hupper : ∀ D, ∀ r ∈ restamp_ngbrs_log cf env i (after_dest cf i) D, r.1 ≠ i := by
      intro D r hr
      have hlt := List.mem_range'_1.mp (restamp_ngbrs_log_mem hr).1
      omega
    rw [ngbrs_split hi, restamp_ngbrs_log_append, restamp_ngbrs_log]
    simp only [forall_mem_append, hi, true_implies]
    rw [nil_of_ne hlower, nil_of_ne (hupper _), hlog]
    rw [and_iff_right fun r hr => by rw [restamp_ngbr_log_mem hr]]
    refine and_congr_right fun hout => ?_
    by_cases hstop : ∃ k ∈ before_dest cf i, restamp_stops cf i D1 k
    · -- the process has ended before the turn of neighbour `i`
      have hended := hhalts hout hstop
      rw [restamp_ngbr_halted hended]
      refine iff_of_true (restamp_ngbrs_log_halted hended _).1 fun hnone => ?_
      obtain ⟨k, hk, hk'⟩ := hstop
      exact absurd hk' (hnone k hk)
    · have hnone : ∀ k ∈ before_dest cf i, ¬restamp_stops cf i D1 k :=
        fun k hk hk' => hstop ⟨k, hk, hk'⟩
      rw [hstate hout hnone]
      refine Iff.trans ?_ (⟨fun h _ => h, fun h => h hnone⟩ :
        ((dest_served cf env i D1).halt = .running →
          StayOut cf i (dest_served cf env i D1) (after_dest cf i)) ↔ _)
      change restamp_ngbrs_log cf env i (after_dest cf i) (dest_served cf env i D1) = [] ↔ _
      by_cases hserved : (dest_served cf env i D1).halt = .running
      · have hafter : (after_dest cf i).Nodup := List.nodup_range'
        rw [(stay_out_iff hserved hafter).1]
        exact ⟨fun h _ => h, fun h => h hserved⟩
      · exact iff_of_true (restamp_ngbrs_log_halted hserved _).1 fun h => absurd h hserved
  · have hall : before_dest cf i = range' 1 cf.degree := by rw [before_dest, if_neg hi]
    rw [hall] at hlog
    have hnone : ∀ r ∈ restamp_ngbrs_log cf env i (range' 1 cf.degree) D1, r.1 ≠ i := by
      rintro r hr rfl
      have hmem := List.mem_range'_1.mp (restamp_ngbrs_log_mem hr).1
      exact hi ⟨hmem.1, by omega⟩
    rw [nil_of_ne hnone, hlog, hall]
    exact ⟨fun h => ⟨h, fun h' => absurd h' hi⟩, fun h => h.1⟩

theorem restamp_requests_index {r : ℕ × ℕ} (hr : r ∈ restamp_requests cf env i D) :
    cf.nbr r.1 ∧ r.2 = i := by
  unfold restamp_requests at hr
  split at hr
  · obtain ⟨hmem, hindex⟩ := restamp_ngbrs_log_mem hr
    have hk := List.mem_range'_1.mp hmem
    exact ⟨⟨hk.1, by omega⟩, hindex⟩
  · exact absurd hr not_mem_nil

/-- **A round of `Reliable_Flood_Restamp`**, in any state of any run: masks only grow,
and the round is right exactly when nothing hinders it and no neighbour other than
number `i` gets the flow to destination `i` into its queue. -/
theorem restamps_right_iff {sec : ℕ} (hrun : Run (Step cf) (init_reliable_flooding cf sec) D)
    (env : RestampEnv) (hi : i ≠ cf.my_id) :
    (∀ q, (D.fb cf.my_id i).sow ≤ q → q < (D.fb cf.my_id i).head_seq →
        ∃ m mask, (D.fb cf.my_id i).msg (slot q) = some m ∧
          (restamp_messages cf env i (D.fb cf.my_id i)).1.msg (slot q) =
            some { m with mask := mask } ∧ mask ||| m.mask = mask) ∧
      (RestampsRight cf env i D ↔
        Unhindered cf env i (D.fb cf.my_id i) ∧ OthersStayOut cf env i D) := by
  have hfilled : Filled (D.fb cf.my_id i) := (filled_kept cf).run hrun cf.my_id i hi
  refine ⟨fun q h1 h2 => ?_, ?_⟩
  · obtain ⟨m, hm⟩ := Option.isSome_iff_exists.mp (hfilled.stored q h1 h2)
    obtain ⟨mask, hmask, hgrow⟩ := @masks_grow cf env i _ hfilled q h1 h2 m hm
    exact ⟨m, mask, hm, hmask, hgrow⟩
  · rw [← requests_of_dest_iff]
    constructor
    · rintro ⟨hmessages, hrequests⟩
      refine ⟨(masks_right_iff hfilled).mp hmessages, fun r hr => ?_⟩
      exact (hrequests r hr).2.symm.trans (restamp_requests_index hr).2
    · rintro ⟨hfree, honly⟩
      refine ⟨(masks_right_iff hfilled).mpr hfree, fun r hr => ?_⟩
      obtain ⟨hnbr, hindex⟩ := restamp_requests_index hr
      have hsame : r.2 = r.1 := hindex.trans (honly r hr).symm
      rw [hsame]
      exact ⟨hnbr, rfl⟩

end Requests

/-- The destination is the third neighbour, and the messages are for its link only. -/
def third_conf : Conf := { source_conf with
  degree := 3
  neighbor_ids := fun k => k + 1
  mp_neighbor_mask := fun k => 2 ^ k }

def other_masks : RestampEnv := ⟨fun _ _ => some 16, fun _ _ => true, fun _ _ => [open_link]⟩

theorem restamps_right_waiting :
    ∃ D, RestampsRight third_conf other_masks 3 D ∧
      restamp_requests third_conf other_masks 3 D = [(3, 3)] := by
  have hplay : (play third_conf (fun _ _ => True) (init_reliable_flooding third_conf 7)
      [.packet 100 3 true ⟨.e2e (source_ack 7), []⟩, .client 110 3 1 ⟨64, 8⟩ true [],
        .send_one 3 open_link, .send_one 3 open_link]).map
      (fun D => restamp_requests third_conf other_masks 3 D) = some [(3, 3)] := by decide +kernel
  obtain ⟨D, hD, hreq⟩ := Option.map_eq_some_iff.mp hplay
  refine ⟨D, (restamps_right_iff (play_run _ hD) _ (by decide)).2.mpr ⟨?_, ?_⟩, hreq⟩
  · have hfails : ∀ q, restamp_fails third_conf ⟨other_masks.stamp 3, other_masks.sign_ok 3⟩
        (D.fb third_conf.my_id 3) q = false := by
      intro q
      simp [restamp_fails, other_masks]
    intro q _ _ _
    refine ⟨fun p _ _ => hfails p, fun hfail => ?_⟩
    rw [hfails q] at hfail
    cases hfail
  · exact requests_of_dest_iff.mp (by rw [hreq]; simp)

/-- **The message to destination `3` was sent already.** Restamping puts the flow back
into the queue of neighbour `1`, the only one, and asks for neighbour number `3`. -/
theorem restamp_wrong_neighbor :
    ∃ D, Run (Step source_conf) (init_reliable_flooding source_conf 7) D ∧
      restamp_requests source_conf (wider_masks 2) 3 D = [(1, 3)] ∧
      ¬ RestampsRight source_conf (wider_masks 2) 3 D := by
  have hplay : (play source_conf (fun _ _ => True) (init_reliable_flooding source_conf 7)
      (source_sends ++ [.send_one 1 open_link, .send_one 1 open_link])).map
      (fun D => restamp_requests source_conf (wider_masks 2) 3 D) = some [(1, 3)] := by
    decide +kernel
  obtain ⟨D, hD, hreq⟩ := Option.map_eq_some_iff.mp hplay
  refine ⟨D, play_run _ hD, hreq, fun hright => ?_⟩
  have hwrong := (hright.requests (1, 3) (by rw [hreq]; simp)).2
  exact absurd hwrong (by decide)

end Spines.RelFlood
