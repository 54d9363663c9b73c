/-
End-to-end acks: what one ack may touch, and what a sequence of acks adds up to.

* `e2e_undisturbed_iff`: there are two acks that disturb, one whose aru is the
  largest 64-bit number, which the loop `while (fb->sow <= aru)` never gets past, and
  one that this daemon itself would have to have signed.
* `acks_order_independent`: the one exception is written into the code, an ack that
  answers this daemon's handshake with an aru other than 0 is dropped.
-/
import Spines.RelFlood.Links
import Spines.RelFlood.Window

set_option autoImplicit false

namespace Spines.RelFlood

open Spines.Lib Function List

/-! ## 1. What one ack may touch -/

section Frame

variable {cf : Conf} {D D' D'' : Daemon} {d : ℕ}

/-- The daemon still runs, and nothing that belongs to a flow other than the
flows to `d` and the flow from `d` to this daemon has changed. -/
structure Undisturbed (cf : Conf) (d : ℕ) (D D' : Daemon) : Prop where
  running : D'.halt = .running
  /-- `FB->flow[s][t]`, and `ns_matrix`, `flow_block`, `in_flow_queue` of every neighbour -/
  lanes : ∀ s t, t ≠ d → ¬ (s = d ∧ t = cf.my_id) → D'.lanes s t = D.lanes s t
  e2e : ∀ t, t ≠ d → t ≠ cf.my_id → D'.e2e t = D.e2e t
  own : ∀ x ∈ range' 1 MAX_NODES, x ≠ d →
    (D'.e2e cf.my_id).cell x = (D.e2e cf.my_id).cell x
  seq_no : ∀ t, t ≠ d → D'.flow_seq_no t = D.flow_seq_no t
  source_epoch : ∀ t, t ≠ d → D'.flow_source_epoch t = D.flow_source_epoch t
  complete : ∀ t, t ≠ d → D'.handshake_complete t = D.handshake_complete t

theorem Undisturbed.refl (h : D.halt = .running) : Undisturbed cf d D D :=
  ⟨h, fun _ _ _ _ => rfl, fun _ _ _ => rfl, fun _ _ _ => rfl, fun _ _ => rfl, fun _ _ => rfl,
    fun _ _ => rfl⟩

theorem Undisturbed.trans (h : Undisturbed cf d D D') (h' : Undisturbed cf d D' D'') :
    Undisturbed cf d D D'' where
  running := h'.running
  lanes := fun s t ht hst => (h'.lanes s t ht hst).trans (h.lanes s t ht hst)
  e2e := fun t ht hm => (h'.e2e t ht hm).trans (h.e2e t ht hm)
  own := fun x hx hd => (h'.own x hx hd).trans (h.own x hx hd)
  seq_no := fun t ht => (h'.seq_no t ht).trans (h.seq_no t ht)
  source_epoch := fun t ht => (h'.source_epoch t ht).trans (h.source_epoch t ht)
  complete := fun t ht => (h'.complete t ht).trans (h.complete t ht)

theorem handshake_request_undisturbed (sec dest_epoch : ℕ) (h : D.halt = .running) :
    Undisturbed cf d D (handshake_request cf sec d dest_epoch D) := by
  obtain ⟨hfb, hedge, hhalt, he2e⟩ := handshake_request_spec cf sec d dest_epoch D
  refine ⟨hhalt.trans h, fun s t _ hst => ?_, fun t _ hm => he2e t hm, fun x _ hx => ?_,
    fun t ht => ?_, fun t ht => ?_, fun t ht => ?_⟩
  · simp only [Daemon.lanes, hfb, hedge, set2_of_ne _ _ hst]
  · unfold handshake_request Daemon.set_cell
    dsimp only
    split <;> simp [update_of_ne hx]
  · unfold handshake_request Daemon.set_cell
    dsimp only
    split <;> simp [update_of_ne ht]
  · unfold handshake_request Daemon.set_cell
    dsimp only
    split <;> simp [update_of_ne ht]
  · unfold handshake_request Daemon.set_cell
    dsimp only
    split <;> simp [update_of_ne ht]

theorem handshake_undisturbed (cf : Conf) (sec : ℕ) (new : E2eAck) (h : D.halt = .running) :
    Undisturbed cf new.dest D (handshake cf sec new D) := by
  unfold handshake
  split
  · exact handshake_request_undisturbed sec _ h
  · exact Undisturbed.refl h

theorem handshake_finish_undisturbed (new : E2eAck) (h : D.halt = .running) :
    Undisturbed cf new.dest D (handshake_finish cf new D) := by
  unfold handshake_finish
  split
  · refine ⟨h, fun _ _ _ _ => rfl, fun _ _ _ => rfl, fun _ _ _ => rfl, fun _ _ => rfl,
      fun _ _ => rfl, fun t ht => ?_⟩
    simp [update_of_ne ht]
  · exact Undisturbed.refl h

theorem store_e2e_undisturbed (hop : ℕ) (new : E2eAck) (h : D.halt = .running)
    (hown : new.dest = cf.my_id → ∀ x ∈ range' 1 MAX_NODES, x ≠ new.dest →
      new.cell x = (D.e2e cf.my_id).cell x) :
    Undisturbed cf new.dest D (store_e2e cf hop new D) := by
  obtain ⟨fb, edge, hrest⟩ := store_e2e_rest cf hop new D
  refine ⟨by rw [hrest]; exact h, fun s t ht _ => ?_, fun t ht _ => ?_, fun x hx hxd => ?_,
    fun t _ => by rw [hrest], fun t _ => by rw [hrest], fun t _ => by rw [hrest]⟩
  · rw [store_e2e_lanes, if_neg (fun hst => ht hst.2)]
  · rw [hrest]
    exact update_of_ne ht _ _
  · rw [hrest]
    by_cases hd : new.dest = cf.my_id
    · simp only [hd, update_self]
      exact hown hd x hx hxd
    · simp only [update_of_ne (Ne.symm hd)]

end Frame

section Disturbing

variable {cf : Conf} {D : Daemon} {sec : ℕ} {new : E2eAck}

def e2e_requests (cf : Conf) (new : E2eAck) (D : Daemon) : Prop :=
  ((D.e2e new.dest).cell cf.my_id).dest_epoch < (new.cell cf.my_id).dest_epoch

/-- The ack is dropped with the message `Invalid aru value for handshake`: it
names the epoch of this daemon's flow to `d` (a request takes a new one if
anything was sent), no handshake is complete, and its aru is not 0. -/
def e2e_refused (cf : Conf) (sec : ℕ) (new : E2eAck) (D : Daemon) : Prop :=
  (e2e_requests cf new D ∨ D.handshake_complete new.dest = false) ∧
    ((e2e_requests cf new D ∧ 1 < D.flow_seq_no new.dest ∧
        (new.cell cf.my_id).src_epoch = epoch sec) ∨
      ¬ (e2e_requests cf new D ∧ 1 < D.flow_seq_no new.dest) ∧
        (new.cell cf.my_id).src_epoch = D.flow_source_epoch new.dest) ∧
    (new.cell cf.my_id).aru ≠ 0

/-- Some cell raises the aru to the largest 64-bit number and nothing else. The
second case is a request in this daemon's own name that arrives after this
daemon's clock has passed the epoch it claims. -/
def e2e_endless (cf : Conf) (sec : ℕ) (new : E2eAck) (D : Daemon) : Prop :=
  e2e_hangs new (D.e2e new.dest) ∨
    new.dest = cf.my_id ∧ e2e_requests cf new D ∧ 1 < D.flow_seq_no cf.my_id ∧
      (new.cell cf.my_id).dest_epoch ≤ epoch sec ∧
      (new.cell cf.my_id).src_epoch ≤ (new.cell cf.my_id).dest_epoch ∧
      (new.cell cf.my_id).aru = ULLONG_MAX

/-- The ack is taken, and it either never ends the loop over its cells or
overwrites what this daemon itself acknowledges. -/
def e2e_disturbs (cf : Conf) (sec : ℕ) (new : E2eAck) (D : Daemon) : Prop :=
  e2e_accepted new D ∧ ¬ e2e_refused cf sec new D ∧
    (e2e_endless cf sec new D ∨
      new.dest = cf.my_id ∧ ∃ x ∈ range' 1 MAX_NODES, x ≠ cf.my_id ∧
        new.cell x ≠ (D.e2e cf.my_id).cell x)

instance (cf : Conf) (new : E2eAck) (D : Daemon) : Decidable (e2e_requests cf new D) :=
  inferInstanceAs (Decidable (_ < _))

instance (cf : Conf) (sec : ℕ) (new : E2eAck) (D : Daemon) : Decidable (e2e_refused cf sec new D) :=
  inferInstanceAs (Decidable (_ ∧ _ ∧ _))

instance (cf : Conf) (sec : ℕ) (new : E2eAck) (D : Daemon) : Decidable (e2e_endless cf sec new D) :=
  inferInstanceAs (Decidable (_ ∨ _))

instance (cf : Conf) (sec : ℕ) (new : E2eAck) (D : Daemon) :
    Decidable (e2e_disturbs cf sec new D) :=
  inferInstanceAs (Decidable (_ ∧ _ ∧ (_ ∨ _ ∧ ∃ x ∈ _, _)))

theorem handshake_refused_iff (cf : Conf) (sec : ℕ) (new : E2eAck) (D : Daemon) :
    handshake_refused cf new (handshake cf sec new D) ↔ e2e_refused cf sec new D := by
  unfold handshake_refused handshake_answered e2e_refused handshake
  by_cases hreq : e2e_requests cf new D
  · have hreq' : ((D.e2e new.dest).cell cf.my_id).dest_epoch <
        (new.cell cf.my_id).dest_epoch := hreq
    simp only [hreq, true_or, true_and]
    rw [if_pos hreq']
    unfold handshake_request Daemon.set_cell
    by_cases hseq : 1 < D.flow_seq_no new.dest
    · simp [hseq]
    · simp [hseq]
  · have hreq' : ¬ ((D.e2e new.dest).cell cf.my_id).dest_epoch <
        (new.cell cf.my_id).dest_epoch := hreq
    rw [if_neg hreq']
    simp only [hreq, false_or, false_and, not_false_eq_true, true_and]
    tauto

theorem own_request_cell (cf : Conf) (sec dest_epoch : ℕ) (D : Daemon) :
    let c := ((handshake_request cf sec cf.my_id dest_epoch D).e2e cf.my_id).cell cf.my_id
    c.aru = 0 ∧ c.src_epoch = dest_epoch ∧
      c.dest_epoch = if 1 < D.flow_seq_no cf.my_id then epoch sec
        else ((D.e2e cf.my_id).cell cf.my_id).dest_epoch := by
  unfold handshake_request Daemon.set_cell
  by_cases hseq : 1 < D.flow_seq_no cf.my_id <;> simp [hseq]

theorem own_request_other (cf : Conf) (sec dest_epoch : ℕ) (D : Daemon) {x : ℕ}
    (hx : x ≠ cf.my_id) : ((handshake_request cf sec cf.my_id dest_epoch D).e2e cf.my_id).cell x =
      (D.e2e cf.my_id).cell x := by
  unfold handshake_request Daemon.set_cell
  by_cases hseq : 1 < D.flow_seq_no cf.my_id <;> simp [hseq, hx]

theorem own_request_hangs (hmy : cf.my_id ∈ range' 1 MAX_NODES) (hd : new.dest = cf.my_id)
    (hreq : e2e_requests cf new D) : e2e_hangs new
        ((handshake_request cf sec cf.my_id (new.cell cf.my_id).dest_epoch D).e2e cf.my_id) ↔
      e2e_hangs new (D.e2e cf.my_id) ∨ 1 < D.flow_seq_no cf.my_id ∧
        (new.cell cf.my_id).dest_epoch ≤ epoch sec ∧
        (new.cell cf.my_id).src_epoch ≤ (new.cell cf.my_id).dest_epoch ∧
        (new.cell cf.my_id).aru = ULLONG_MAX := by
  unfold e2e_requests at hreq
  rw [hd] at hreq
  obtain ⟨haru, hsrc, hdest⟩ := own_request_cell cf sec (new.cell cf.my_id).dest_epoch D
  constructor
  · rintro ⟨i, hi, h1, h2, h3, h4⟩
    by_cases him : i = cf.my_id
    · subst him
      rw [hdest] at h1
      rw [hsrc] at h2
      by_cases hseq : 1 < D.flow_seq_no cf.my_id
      · rw [if_pos hseq] at h1
        exact .inr ⟨hseq, h1, h2, h4⟩
      · rw [if_neg hseq] at h1
        omega
    · rw [own_request_other _ _ _ _ him] at h1 h2 h3
      exact .inl ⟨i, hi, h1, h2, h3, h4⟩
  · rintro (⟨i, hi, h1, h2, h3, h4⟩ | ⟨hseq, h1, h2, h4⟩)
    · have him : i ≠ cf.my_id := by
        rintro rfl
        omega
      refine ⟨i, hi, ?_⟩
      rw [own_request_other _ _ _ _ him]
      exact ⟨h1, h2, h3, h4⟩
    · refine ⟨cf.my_id, hmy, ?_⟩
      rw [hdest, if_pos hseq, hsrc, haru, h4]
      exact ⟨h1, h2, by decide, rfl⟩

theorem e2e_hangs_iff (hacc : e2e_accepted new D) :
    e2e_hangs new ((handshake cf sec new D).e2e new.dest) ↔ e2e_endless cf sec new D := by
  unfold e2e_endless
  by_cases hd : new.dest = cf.my_id
  · by_cases hreq : e2e_requests cf new D
    · have hmy : cf.my_id ∈ range' 1 MAX_NODES := by
        have hrange := hacc.1
        rw [mem_range'_1]
        omega
      have hshake : handshake cf sec new D =
          handshake_request cf sec cf.my_id (new.cell cf.my_id).dest_epoch D := by
        unfold e2e_requests at hreq
        rw [handshake, if_pos hreq, hd]
      rw [hshake]
      simp only [hd, hreq, true_and]
      exact own_request_hangs hmy hd hreq
    · have hshake : handshake cf sec new D = D := if_neg hreq
      rw [hshake]
      simp [hreq]
  · rw [(handshake_other cf sec new D).2.2.2 new.dest hd]
    simp [hd]

/-- **An ack of `d` disturbs no other pair**, exactly unless `e2e_disturbs`. -/
theorem e2e_undisturbed_iff (cf : Conf) (sec hop : ℕ) (new : E2eAck) (D : Daemon)
    (hrun : D.halt = .running) :
    Undisturbed cf new.dest D (reliable_flood_process_e2e cf sec hop new D) ↔
      ¬ e2e_disturbs cf sec new D := by
  have h1 := handshake_undisturbed cf sec new hrun
  have h2 := h1.trans (handshake_finish_undisturbed new h1.running)
  rcases process_e2e_cases cf sec hop new D with
    ⟨hno, h⟩ | ⟨hacc, ⟨href, h⟩ | ⟨href, ⟨hhang, h⟩ | ⟨hhang, h⟩⟩⟩
  · rw [h]
    exact iff_of_true (Undisturbed.refl hrun) (fun hdis => hno hdis.1)
  · rw [h]
    refine iff_of_true h1 (fun hdis => hdis.2.1 ?_)
    exact (handshake_refused_iff cf sec new D).mp href
  · -- the loop over the cells does not end
    rw [h]
    refine iff_of_false (fun hund => ?_) (fun hdis => hdis ⟨hacc, ?_, .inl ?_⟩)
    · have hhalt := hund.running
      simp at hhalt
    · rwa [← handshake_refused_iff]
    · exact (e2e_hangs_iff hacc).mp hhang
  · rw [h]
    by_cases hown : new.dest = cf.my_id ∧ ∃ x ∈ range' 1 MAX_NODES, x ≠ cf.my_id ∧
        new.cell x ≠ (D.e2e cf.my_id).cell x
    · -- this daemon's own ack is replaced
      refine iff_of_false (fun hund => ?_) (fun hdis => hdis ⟨hacc, ?_, .inr hown⟩)
      · obtain ⟨hd, x, hx, hxm, hne⟩ := hown
        apply hne
        rw [← hund.own x hx (hd ▸ hxm)]
        obtain ⟨fb, edge, hrest⟩ := store_e2e_rest cf hop new
          (handshake_finish cf new (handshake cf sec new D))
        rw [hrest]
        simp [hd]
      · rwa [← handshake_refused_iff]
    · refine iff_of_true (h2.trans (store_e2e_undisturbed hop new h2.running ?_)) ?_
      · intro hd x hx hxd
        by_contra hne
        refine hown ⟨hd, x, hx, hd ▸ hxd, ?_⟩
        rw [← h2.own x hx hxd]
        exact hne
      · rintro ⟨-, -, hend | hown'⟩
        · exact hhang ((e2e_hangs_iff hacc).mpr hend)
        · exact hown hown'

theorem e2e_undisturbed_relay : Undisturbed relay_conf 3 (init_reliable_flooding relay_conf 7)
      (reliable_flood_process_e2e relay_conf 100 2 (source_ack 10)
        (init_reliable_flooding relay_conf 7)) :=
  (e2e_undisturbed_iff relay_conf 100 2 (source_ack 10) (init_reliable_flooding relay_conf 7)
    rfl).mpr (by decide +kernel)

/-- An ack of destination `3` that raises the aru of source `4` to the largest
64-bit number. -/
def endless_ack : E2eAck :=
  ⟨3, fun i => if i = 4 then ⟨0, 0, ULLONG_MAX, by decide⟩ else ⟨0, 0, 0, zero_lt_word⟩⟩

/-- The relay never finishes with that ack, and handles nothing else any more. -/
theorem endless_ack_stops_relay : ¬ Undisturbed relay_conf 3 (init_reliable_flooding relay_conf 7)
        (reliable_flood_process_e2e relay_conf 100 2 endless_ack
          (init_reliable_flooding relay_conf 7)) ∧
      ∀ e D', ¬ Step relay_conf (reliable_flood_process_e2e relay_conf 100 2 endless_ack
        (init_reliable_flooding relay_conf 7)) e D' := by
  have hhalt : (reliable_flood_process_e2e relay_conf 100 2 endless_ack
      (init_reliable_flooding relay_conf 7)).halt = .hang := by decide +kernel
  refine ⟨fun h => ?_, fun e D' h => ?_⟩
  · have hrun := h.running
    rw [hhalt] at hrun
    exact absurd hrun (by decide)
  · have hrun := h.1
    rw [hhalt] at hrun
    exact absurd hrun (by decide)

end Disturbing

/-! ## 2. The order of acks -/

section Order

variable {a b c : Cell}

theorem not_older_trans (hab : ¬ b.older a) (hbc : ¬ c.older b) : ¬ c.older a := by
  unfold Cell.older at *
  omega

theorem eq_of_not_older (hab : ¬ a.older b) (hba : ¬ b.older a) : a = b := by
  obtain ⟨de, se, aru, _⟩ := a
  obtain ⟨de', se', aru', _⟩ := b
  unfold Cell.older at *
  simp only [Cell.mk.injEq]
  dsimp only at hab hba
  omega

/-- `b` is at least `a`, cell by cell. -/
def E2eAck.upto (a b : E2eAck) : Prop :=
  ∀ i ∈ range' 1 MAX_NODES, ¬ (b.cell i).older (a.cell i)

theorem E2eAck.upto.refl (a : E2eAck) : a.upto a := by
  intro i _
  unfold Cell.older
  omega

theorem E2eAck.upto.trans {a b c : E2eAck} (hab : a.upto b) (hbc : b.upto c) : a.upto c :=
  fun i hi => not_older_trans (hab i hi) (hbc i hi)

theorem upto_of_not_valid {new old : E2eAck} (hcomp : new.upto old ∨ old.upto new)
    (hno : ¬ e2e_valid new old) : new.upto old := by
  rcases hcomp with h | h
  · exact h
  · intro i hi holder
    exact hno ⟨h, i, hi, holder⟩

end Order

/-! ## 3. Acks over a run -/

section Heard

variable {cf : Conf} {d : ℕ}

/-- What a run has seen of the flows to `d`: the acks of `d` that arrived, and
for each source the start of the window as the last data message or hop-by-hop
ack left it that moved it, since `d` last changed an epoch of the flow. -/
structure Heard where
  delivered : List E2eAck
  raised : ℕ → ℕ

def Event.acks_of (d : ℕ) : Event → List E2eAck
  | packet _ _ true ⟨.e2e new, _⟩ => if new.dest = d then [new] else []
  | _ => []

/-- The state before the event's end-to-end ack is looked at; for any other
event, the state after it. -/
def Event.before_ack (cf : Conf) (D : Daemon) : Event → Daemon
  | packet _ k true ⟨.e2e _, acks⟩ => after_acks cf k acks D
  | e => handle cf D e

/-- The start of the window of `(i, d)`, if data or hop-by-hop acks moved it. -/
def raised_by (d : ℕ) (D D' : Daemon) (raised : ℕ → ℕ) (i : ℕ) : ℕ :=
  if (D.fb i d).sow < (D'.fb i d).sow then (D'.fb i d).sow else raised i

/-- `d` changed an epoch of its flow from `i`. -/
def epochs_changed (d : ℕ) (D D' : Daemon) (i : ℕ) : Prop :=
  ((D'.e2e d).cell i).dest_epoch ≠ ((D.e2e d).cell i).dest_epoch ∨
    ((D'.e2e d).cell i).src_epoch ≠ ((D.e2e d).cell i).src_epoch

instance (d : ℕ) (D D' : Daemon) (i : ℕ) : Decidable (epochs_changed d D D' i) :=
  inferInstanceAs (Decidable (_ ∨ _))

def hear (cf : Conf) (d : ℕ) (D : Daemon) (e : Event) (h : Heard) : Heard where
  delivered := h.delivered ++ e.acks_of d
  raised := fun i =>
    if epochs_changed d (e.before_ack cf D) (handle cf D e) i then 0
    else raised_by d D (e.before_ack cf D) h.raised i

/-- An ack of `d` that answers this daemon's handshake with an aru other than 0. -/
def Event.refused_of (cf : Conf) (d : ℕ) (D : Daemon) : Event → Prop
  | packet sec k true ⟨.e2e new, acks⟩ =>
    new.dest = d ∧ e2e_accepted new (after_acks cf k acks D) ∧
      e2e_refused cf sec new (after_acks cf k acks D)
  | _ => False

/-- A correct destination numbers its messages from 1, and issues acks each of
which is at least the one before. -/
structure IssuedBy (d : ℕ) (issued : List E2eAck) : Prop where
  node : 1 ≤ d ∧ d ≤ MAX_NODES
  chain : issued.Pairwise E2eAck.upto
  aru : ∀ a ∈ issued, ∀ i ∈ range' 1 MAX_NODES, (a.cell i).aru < ULLONG_MAX

variable {issued : List E2eAck} {x : Daemon × Heard} {D' : Daemon}

theorem IssuedBy.comparable (h : IssuedBy d issued) {a b : E2eAck} (ha : a ∈ issued)
    (hb : b ∈ issued) : a.upto b ∨ b.upto a := by
  have hsymm : Std.Symm (fun a b : E2eAck => a.upto b ∨ b.upto a) := ⟨fun _ _ => Or.symm⟩
  have hchain := h.chain.imp (S := fun a b : E2eAck => a.upto b ∨ b.upto a) Or.inl
  exact hchain.forall_of_forall (fun a _ => .inl (E2eAck.upto.refl a)) ha hb

/-- One event; whatever acks of `d` it brings were issued by `d`, and none is
refused. -/
def HeardStep (cf : Conf) (d : ℕ) (issued : List E2eAck) (x : Daemon × Heard) (e : Event)
    (y : Daemon × Heard) : Prop :=
  Step cf x.1 e y.1 ∧ y.2 = hear cf d x.1 e x.2 ∧ (∀ a ∈ e.acks_of d, a ∈ issued) ∧
    ¬ e.refused_of cf d x.1

/-- The stored ack of `d` and the windows of the flows to `d` are those of the
greatest ack delivered; a window may have been moved further by data and
hop-by-hop acks. -/
structure Settled (cf : Conf) (d : ℕ) (x : Daemon × Heard) : Prop where
  greatest : x.2.delivered ≠ [] → ∃ g ∈ x.2.delivered, (∀ a ∈ x.2.delivered, a.upto g) ∧
    ∀ i ∈ range' 1 MAX_NODES, (x.1.e2e d).cell i = g.cell i
  sow : ∀ i ∈ range' 1 MAX_NODES,
    (x.1.fb i d).sow = ((x.1.e2e d).cell i).aru + 1 ∨
      ((x.1.e2e d).cell i).aru + 1 < (x.1.fb i d).sow ∧ (x.1.fb i d).sow = x.2.raised i

structure HeardInv (cf : Conf) (d : ℕ) (issued : List E2eAck) (x : Daemon × Heard) : Prop where
  issued : ∀ a ∈ x.2.delivered, a ∈ issued
  bound : ∀ a ∈ x.2.delivered, a.upto (x.1.e2e d)
  stored : (∀ i ∈ range' 1 MAX_NODES, (x.1.e2e d).cell i = ⟨0, 0, 0, by decide⟩) ∨
    ∃ g ∈ x.2.delivered, ∀ i ∈ range' 1 MAX_NODES, (x.1.e2e d).cell i = g.cell i
  sow : ∀ i ∈ range' 1 MAX_NODES,
    (x.1.fb i d).sow = max (((x.1.e2e d).cell i).aru + 1) (x.2.raised i)

theorem HeardInv.settled (h : HeardInv cf d issued x) : Settled cf d x where
  greatest := by
    intro hne
    obtain ⟨g, hg, hcells⟩ : ∃ g ∈ x.2.delivered,
        ∀ i ∈ range' 1 MAX_NODES, (x.1.e2e d).cell i = g.cell i := by
      rcases h.stored with hzero | hg
      · -- everything delivered is as empty as what is stored
        obtain ⟨a, ha⟩ := exists_mem_of_ne_nil _ hne
        refine ⟨a, ha, fun i hi => ?_⟩
        apply eq_of_not_older (h.bound a ha i hi)
        rw [hzero i hi]
        simp [Cell.older]
      · exact hg
    refine ⟨g, hg, fun a ha i hi => ?_, hcells⟩
    rw [← hcells i hi]
    exact h.bound a ha i hi
  sow := by
    intro i hi
    have hsow := h.sow i hi
    omega

theorem process_e2e_elsewhere (cf : Conf) (sec hop : ℕ) (new : E2eAck) (D : Daemon)
    (hd : d ≠ cf.my_id) (hnew : new.dest ≠ d) :
    (∀ i, (reliable_flood_process_e2e cf sec hop new D).fb i d = D.fb i d) ∧
      (reliable_flood_process_e2e cf sec hop new D).e2e d = D.e2e d := by
  obtain ⟨hfb, -, -, he2e⟩ := handshake_other cf sec new D
  have hshake : ∀ i, (handshake cf sec new D).fb i d = D.fb i d :=
    fun i => hfb i d (fun h => hd h.2)
  rcases process_e2e_cases cf sec hop new D with
    ⟨-, h⟩ | ⟨-, ⟨-, h⟩ | ⟨-, ⟨-, h⟩ | ⟨-, h⟩⟩⟩
  · rw [h]
    exact ⟨fun _ => rfl, rfl⟩
  · rw [h]
    exact ⟨hshake, he2e d hd⟩
  · rw [h]
    exact ⟨fun i => by simp only [handshake_finish_fb, hshake],
      by simp only [handshake_finish_e2e, he2e d hd]⟩
  · rw [h]
    refine ⟨fun i => ?_, ?_⟩
    · have hl := store_e2e_lanes cf hop new
        (handshake_finish cf new (handshake cf sec new D)) i d
      rw [if_neg (fun h => hnew h.2.symm)] at hl
      have hl' := congrArg Prod.fst hl
      simp only [Daemon.lanes, handshake_finish_fb, hshake] at hl'
      exact hl'
    · obtain ⟨fb, edge, hrest⟩ := store_e2e_rest cf hop new
        (handshake_finish cf new (handshake cf sec new D))
      rw [hrest]
      simp only [update_of_ne hnew.symm, handshake_finish_e2e, he2e d hd]

theorem e2e_cell_sow {new old : Cell} (fb : FlowBuffer) (hnot : ¬ new.older old)
    (haru : new.aru < ULLONG_MAX) (raised : ℕ) (h : fb.sow = max (old.aru + 1) raised) :
    (fb.e2e_cell cf new old).sow = max (new.aru + 1)
      (if new.dest_epoch ≠ old.dest_epoch ∨ new.src_epoch ≠ old.src_epoch then 0 else raised) := by
  have hwrap : int64u (new.aru + 1) = new.aru + 1 := by
    unfold ULLONG_MAX at haru
    unfold int64u
    omega
  unfold Cell.older at hnot
  unfold FlowBuffer.e2e_cell
  by_cases hdest : old.dest_epoch < new.dest_epoch
  · rw [if_pos hdest, if_pos (.inl (by omega))]
    exact hwrap.trans (by omega)
  rw [if_neg hdest]
  by_cases hsrc : old.src_epoch < new.src_epoch
  · rw [if_pos hsrc, if_pos (.inr (by omega))]
    exact hwrap.trans (by omega)
  have hsame : ¬ (new.dest_epoch ≠ old.dest_epoch ∨ new.src_epoch ≠ old.src_epoch) := by omega
  rw [if_neg hsrc, if_neg hsame]
  by_cases ha : old.aru < new.aru
  · rw [if_pos ha, e2e_advance_eq_slide, slide_sow]
    omega
  · rw [if_neg ha]
    omega

theorem process_e2e_heard (cf : Conf) (sec hop : ℕ) (new : E2eAck) (D : Daemon)
    (hd : new.dest ≠ cf.my_id) (haru : ∀ i ∈ range' 1 MAX_NODES, (new.cell i).aru < ULLONG_MAX)
    (hrange : 1 ≤ new.dest ∧ new.dest ≤ MAX_NODES)
    (hrefused : ¬ (e2e_accepted new D ∧ e2e_refused cf sec new D)) :
    (¬ e2e_valid new (D.e2e new.dest) ∧
        reliable_flood_process_e2e cf sec hop new D = D) ∨
      e2e_valid new (D.e2e new.dest) ∧
        (reliable_flood_process_e2e cf sec hop new D).e2e new.dest = new ∧
        ∀ i ∈ range' 1 MAX_NODES,
          (reliable_flood_process_e2e cf sec hop new D).fb i new.dest =
            (D.fb i new.dest).e2e_cell cf (new.cell i) ((D.e2e new.dest).cell i) := by
  obtain ⟨hfb, -, -, he2e⟩ := handshake_other cf sec new D
  have hshake : ∀ i, (handshake cf sec new D).fb i new.dest = D.fb i new.dest :=
    fun i => hfb i new.dest (fun h => hd h.2)
  rcases process_e2e_cases cf sec hop new D with
    ⟨hno, h⟩ | ⟨hacc, ⟨href, -⟩ | ⟨-, ⟨hhang, -⟩ | ⟨-, h⟩⟩⟩
  · exact .inl ⟨fun hv => hno ⟨hrange, hv⟩, h⟩
  · exact absurd ⟨hacc, (handshake_refused_iff cf sec new D).mp href⟩ hrefused
  · obtain ⟨i, hi, -, -, -, hmax⟩ := hhang
    have hlt := haru i hi
    omega
  · refine .inr ⟨hacc.2, ?_, fun i hi => ?_⟩
    · obtain ⟨fb, edge, hrest⟩ := store_e2e_rest cf hop new
        (handshake_finish cf new (handshake cf sec new D))
      rw [h, hrest]
      exact update_self _ _ _
    · have hl := store_e2e_lanes cf hop new
        (handshake_finish cf new (handshake cf sec new D)) i new.dest
      rw [if_pos ⟨hi, rfl⟩] at hl
      have hl' := congrArg Prod.fst hl
      rw [h]
      simp only [Daemon.lanes, e2e_cell_lanes, handshake_finish_fb, handshake_finish_e2e, hshake,
        he2e new.dest hd] at hl'
      exact hl'

theorem process_e2e_upto (cf : Conf) (sec hop : ℕ) (new : E2eAck) (D : Daemon)
    (hd : new.dest ≠ cf.my_id) : (D.e2e new.dest).upto
      ((reliable_flood_process_e2e cf sec hop new D).e2e new.dest) := by
  have he2e := (handshake_other cf sec new D).2.2.2 new.dest hd
  rcases process_e2e_cases cf sec hop new D with
    ⟨-, h⟩ | ⟨hacc, ⟨-, h⟩ | ⟨-, ⟨-, h⟩ | ⟨-, h⟩⟩⟩
  · rw [h]
    exact E2eAck.upto.refl _
  · rw [h, he2e]
    exact E2eAck.upto.refl _
  · rw [h]
    simp only [handshake_finish_e2e, he2e]
    exact E2eAck.upto.refl _
  · obtain ⟨fb, edge, hrest⟩ := store_e2e_rest cf hop new
      (handshake_finish cf new (handshake cf sec new D))
    rw [h, hrest]
    dsimp only
    rw [update_self]
    exact hacc.2.1

theorem HeardInv.effects (h : HeardInv cf d issued x) (heff : Effects cf x.1 D') (hd : d ≠ cf.my_id)
    : HeardInv cf d issued (D', { x.2 with raised := raised_by d x.1 D' x.2.raised }) where
  issued := h.issued
  bound := by
    rw [heff.e2e d hd]
    exact h.bound
  stored := by
    rw [heff.e2e d hd]
    exact h.stored
  sow := by
    intro i hi
    have hsow := h.sow i hi
    have hup := heff.sow i d
    dsimp only [raised_by]
    rw [heff.e2e d hd]
    split <;> omega

theorem HeardInv.congr {D : Daemon} {w w' : Heard} (h : HeardInv cf d issued (D, w))
    (hfb : ∀ i, (D'.fb i d).sow = (D.fb i d).sow) (he : D'.e2e d = D.e2e d)
    (hw : w'.delivered = w.delivered) (hr : ∀ i ∈ range' 1 MAX_NODES, w'.raised i = w.raised i)
    : HeardInv cf d issued (D', w') where
  issued := by
    rw [hw]
    exact h.issued
  bound := by
    rw [hw, he]
    exact h.bound
  stored := by
    rw [hw, he]
    exact h.stored
  sow := by
    intro i hi
    rw [hfb, he, hr i hi]
    exact h.sow i hi

theorem HeardInv.ack {D : Daemon} {w : Heard} {new : E2eAck} (hissued : IssuedBy d issued)
    (h : HeardInv cf d issued (D, w)) (hnew : new ∈ issued)
    (hcase : (¬ e2e_valid new (D.e2e d) ∧ D' = D) ∨
      e2e_valid new (D.e2e d) ∧ D'.e2e d = new ∧
      ∀ i ∈ range' 1 MAX_NODES,
      D'.fb i d = (D.fb i d).e2e_cell cf (new.cell i) ((D.e2e d).cell i)) :
    HeardInv cf d issued (D', ⟨w.delivered ++ [new],
      fun i => if epochs_changed d D D' i then 0 else w.raised i⟩) := by
  have hall : ∀ a ∈ w.delivered ++ [new], a ∈ issued := by
    intro a ha
    rcases mem_append.mp ha with ha | ha
    · exact h.issued a ha
    · rw [mem_singleton] at ha
      exact ha ▸ hnew
  rcases hcase with ⟨hno, rfl⟩ | ⟨hv, he, hfb⟩
  · -- what is stored was issued too, so the new ack is below it
    have hbelow : new.upto (D'.e2e d) := by
      apply upto_of_not_valid _ hno
      rcases h.stored with hzero | ⟨g, hg, hcells⟩
      · right
        intro i hi
        dsimp only at hzero
        rw [hzero i hi]
        simp [Cell.older]
      · dsimp only at hcells
        refine (hissued.comparable hnew (h.issued g hg)).imp (fun hle i hi => ?_) (fun hle i hi => ?_)
        · rw [hcells i hi]
          exact hle i hi
        · rw [hcells i hi]
          exact hle i hi
    refine ⟨hall, fun a ha => ?_, ?_, fun i hi => ?_⟩
    · rcases mem_append.mp ha with ha | ha
      · exact h.bound a ha
      · rw [mem_singleton] at ha
        exact ha ▸ hbelow
    · refine h.stored.imp_right ?_
      rintro ⟨g, hg, hcells⟩
      exact ⟨g, mem_append_left _ hg, hcells⟩
    · have hsame : ¬ epochs_changed d D' D' i := by simp [epochs_changed]
      dsimp only
      rw [if_neg hsame]
      exact h.sow i hi
  · refine ⟨hall, fun a ha => ?_, .inr ⟨new, by simp, fun i _ => ?_⟩, fun i hi => ?_⟩
    · dsimp only
      rw [he]
      rcases mem_append.mp ha with ha | ha
      · exact (h.bound a ha).trans hv.1
      · rw [mem_singleton] at ha
        exact ha ▸ E2eAck.upto.refl new
    · dsimp only
      rw [he]
    · dsimp only
      simp only [hfb i hi, epochs_changed, he]
      exact e2e_cell_sow _ (hv.1 i hi) (hissued.aru new hnew i hi) _ (h.sow i hi)

theorem HeardInv.step {y : Daemon × Heard} {e : Event} (hissued : IssuedBy d issued)
    (hd : d ≠ cf.my_id) (h : HeardInv cf d issued x) (hstep : HeardStep cf d issued x e y) :
    HeardInv cf d issued y := by
  obtain ⟨D, w⟩ := x
  obtain ⟨D', w'⟩ := y
  obtain ⟨⟨-, -, hD'⟩, hw', hfrom, hrefused⟩ := hstep
  dsimp only at hD' hw' hfrom hrefused
  subst hD' hw'
  by_cases hack : ∃ sec k new acks, e = .packet sec k true ⟨.e2e new, acks⟩
  · obtain ⟨sec, k, new, acks, rfl⟩ := hack
    have h1 := h.effects (after_acks_effects cf k acks D) hd
    have hbefore : Event.before_ack cf D (.packet sec k true ⟨.e2e new, acks⟩) =
        after_acks cf k acks D := rfl
    unfold hear
    rw [handle_e2e, hbefore]
    by_cases hnew : new.dest = d
    · subst hnew
      have hacks : Event.acks_of new.dest (.packet sec k true ⟨.e2e new, acks⟩) = [new] :=
        if_pos rfl
      rw [hacks] at hfrom ⊢
      have hin := hfrom new (by simp)
      refine h1.ack hissued hin ?_
      apply process_e2e_heard cf sec k new (after_acks cf k acks D) hd (hissued.aru new hin)
        hissued.node
      intro hr
      exact hrefused ⟨rfl, hr.1, hr.2⟩
    · have hacks : Event.acks_of d (.packet sec k true ⟨.e2e new, acks⟩) = [] := if_neg hnew
      obtain ⟨hfb, he⟩ := process_e2e_elsewhere cf sec k new (after_acks cf k acks D) hd hnew
      refine h1.congr (fun i => by rw [hfb]) he ?_ (fun i _ => ?_)
      · simp [hacks]
      · simp [epochs_changed, he]
  · -- no valid end-to-end ack
    have heff := handle_effects cf D e (fun sec k new acks he => hack ⟨sec, k, new, acks, he⟩)
    have h1 := h.effects heff hd
    have hplain : e.acks_of d = [] ∧ e.before_ack cf D = handle cf D e := by
      cases e with
      | packet sec k verified pkt =>
        obtain ⟨body, acks⟩ := pkt
        cases verified with
        | false => exact ⟨rfl, rfl⟩
        | true =>
          cases body with
          | e2e new => exact absurd ⟨sec, k, new, acks, rfl⟩ hack
          | data m => exact ⟨rfl, rfl⟩
          | saa => exact ⟨rfl, rfl⟩
          | status_change => exact ⟨rfl, rfl⟩
      | client sec dst num_paths stamp sign_ok body => exact ⟨rfl, rfl⟩
      | gen_e2e now send => exact ⟨rfl, rfl⟩
      | neighbor_transfer k => exact ⟨rfl, rfl⟩
      | e2e_event k => exact ⟨rfl, rfl⟩
      | send_one k env => exact ⟨rfl, rfl⟩
      | restamp env i => exact ⟨rfl, rfl⟩
    unfold hear
    rw [hplain.1, hplain.2]
    refine h1.congr (fun _ => rfl) rfl (by simp) (fun i _ => ?_)
    simp [epochs_changed]

theorem handle_upto (hd : d ≠ cf.my_id) (D : Daemon) (e : Event) :
    (D.e2e d).upto ((handle cf D e).e2e d) := by
  by_cases hack : ∃ sec k new acks, e = .packet sec k true ⟨.e2e new, acks⟩
  · obtain ⟨sec, k, new, acks, rfl⟩ := hack
    rw [handle_e2e, ← (after_acks_effects cf k acks D).e2e d hd]
    by_cases hnew : new.dest = d
    · subst hnew
      exact process_e2e_upto cf sec k new (after_acks cf k acks D) hd
    · rw [(process_e2e_elsewhere cf sec k new (after_acks cf k acks D) hd hnew).2]
      exact E2eAck.upto.refl _
  · have heff := handle_effects cf D e (fun sec k new acks he => hack ⟨sec, k, new, acks, he⟩)
    rw [heff.e2e d hd]
    exact E2eAck.upto.refl _

theorem heardInv_init (cf : Conf) (sec : ℕ) (issued : List E2eAck) (hd : d ≠ cf.my_id) :
    HeardInv cf d issued (init_reliable_flooding cf sec, ⟨[], fun _ => 0⟩) where
  issued := fun a ha => absurd ha (by simp)
  bound := fun a ha => absurd ha (by simp)
  stored := .inl (fun i _ => by simp only [init_reliable_flooding, if_neg hd])
  sow := by
    intro i _
    have hfb : (init_reliable_flooding cf sec).fb i d = FlowBuffer.init :=
      if_neg (fun h => hd h.2)
    rw [hfb]
    simp only [init_reliable_flooding, if_neg hd]
    rfl

/-- **The order in which the acks of `d` arrive does not matter**: after every
run the stored ack is the greatest one delivered, the windows of the flows to
`d` are those it asks for or further, and no event makes the stored ack older in
any cell. -/
theorem acks_order_independent {cf : Conf} {d sec : ℕ} {issued : List E2eAck}
    (hissued : IssuedBy d issued) (hd : d ≠ cf.my_id) {x : Daemon × Heard}
    (hrun : Run (HeardStep cf d issued) (init_reliable_flooding cf sec, ⟨[], fun _ => 0⟩) x) :
    Settled cf d x ∧ ∀ e y, HeardStep cf d issued x e y → (x.1.e2e d).upto (y.1.e2e d) := by
  have hinv := hrun.invariant (HeardInv cf d issued) (heardInv_init cf sec issued hd)
    (fun _ _ _ h hstep => h.step hissued hd hstep)
  refine ⟨hinv.settled, fun e y hstep => ?_⟩
  rw [hstep.1.2.2]
  exact handle_upto hd x.1 e

theorem source_acks_issued : IssuedBy 3 [source_ack 10, source_ack 20] where
  node := by decide
  chain := by
    refine pairwise_pair.mpr ?_
    unfold E2eAck.upto
    decide +kernel
  aru := by
    intro a ha
    rcases mem_cons.mp ha with rfl | ha
    · decide +kernel
    · obtain rfl := mem_singleton.mp ha
      decide +kernel

/-- The ack arrives, from neighbour `k` and alone in its packet. -/
def deliver (cf : Conf) (d sec k : ℕ) (new : E2eAck) (x : Daemon × Heard) : Daemon × Heard :=
  (handle cf x.1 (.packet sec k true ⟨.e2e new, []⟩),
    hear cf d x.1 (.packet sec k true ⟨.e2e new, []⟩) x.2)

theorem deliver_step {sec k : ℕ} {new : E2eAck} (hrun : x.1.halt = .running) (hk : cf.nbr k)
    (hin : new ∈ issued) (href : ¬ e2e_refused cf sec new (after_acks cf k [] x.1)) :
    HeardStep cf d issued x (.packet sec k true ⟨.e2e new, []⟩) (deliver cf d sec k new x) := by
  refine ⟨⟨hrun, hk, rfl⟩, rfl, fun a ha => ?_, fun h => href h.2.2⟩
  simp only [Event.acks_of] at ha
  split at ha
  · rw [mem_singleton] at ha
    exact ha ▸ hin
  · simp at ha

theorem acks_order_independent_swapped :
    ∃ x, Run (HeardStep relay_conf 3 [source_ack 10, source_ack 20])
        (init_reliable_flooding relay_conf 7, ⟨[], fun _ => 0⟩) x ∧
      x.2.delivered = [source_ack 20, source_ack 10] ∧ Settled relay_conf 3 x ∧
      ((x.1.e2e 3).cell 1).src_epoch = 20 := by
  set x1 := deliver relay_conf 3 100 2 (source_ack 20)
    (init_reliable_flooding relay_conf 7, ⟨[], fun _ => 0⟩) with hx1
  have hrun : Run (HeardStep relay_conf 3 [source_ack 10, source_ack 20])
      (init_reliable_flooding relay_conf 7, ⟨[], fun _ => 0⟩)
      (deliver relay_conf 3 100 1 (source_ack 10) x1) := by
    refine ((Run.refl _).tail (deliver_step rfl (by decide) (by simp) ?_)).tail
      (deliver_step ?_ (by decide) (by simp) ?_)
    · decide +kernel
    · decide +kernel
    · decide +kernel
  refine ⟨_, hrun, ?_, (acks_order_independent source_acks_issued (by decide) hrun).1, ?_⟩
  · simp [deliver, hear, hx1, Event.acks_of, source_ack]
  · decide +kernel

/-- An ack of destination `3` that names the epoch in which the relay started and
claims to have got 5 messages from it. -/
def early_ack : E2eAck :=
  ⟨3, fun i => if i = 2 then ⟨5, 7, 5, by decide⟩ else ⟨5, 0, 0, zero_lt_word⟩⟩

/-- The relay, which has not finished its handshake with `3`, drops that ack. -/
theorem early_ack_not_stored :
    IssuedBy 3 [early_ack] ∧ Step relay_conf (init_reliable_flooding relay_conf 7)
        (.packet 100 2 true ⟨.e2e early_ack, []⟩)
        (handle relay_conf (init_reliable_flooding relay_conf 7)
          (.packet 100 2 true ⟨.e2e early_ack, []⟩)) ∧
      ¬ Settled relay_conf 3 (deliver relay_conf 3 100 2 early_ack
        (init_reliable_flooding relay_conf 7, ⟨[], fun _ => 0⟩)) := by
  refine ⟨⟨by decide, pairwise_singleton _ _, fun a ha => ?_⟩, ⟨rfl, by decide, rfl⟩,
    fun h => ?_⟩
  · obtain rfl := mem_singleton.mp ha
    decide +kernel
  · have hdel : (deliver relay_conf 3 100 2 early_ack
        (init_reliable_flooding relay_conf 7, ⟨[], fun _ => 0⟩)).2.delivered = [early_ack] := by
      simp [deliver, hear, Event.acks_of, early_ack]
    have hcell : (((deliver relay_conf 3 100 2 early_ack
        (init_reliable_flooding relay_conf 7, ⟨[], fun _ => 0⟩)).1.e2e 3).cell 2).aru = 0 := by
      decide +kernel
    obtain ⟨g, hg, -, hcells⟩ := h.greatest (by simp [hdel])
    rw [hdel] at hg
    obtain rfl := mem_singleton.mp hg
    rw [hcells 2 (by decide)] at hcell
    exact absurd hcell (by decide)

end Heard

end Spines.RelFlood
