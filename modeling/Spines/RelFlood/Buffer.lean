/-
What the handlers do to a single flow buffer.

A buffer is well kept (`FlowInv`) when its window lies inside the ring, every
message of the window is stored and marked toward every neighbour, and every
`next_seq[k]` stands inside the window on a message that is still to be sent, or
at the end. Two further properties are kept apart, because not every handler of
the source keeps them: nothing is stored outside the window (`Clean`), and
nothing below `next_seq[k]` is still to be sent (`SentBelow`).

Each operation has one lemma for each of the three.
-/
import Spines.RelFlood.Daemon

set_option autoImplicit false

namespace Spines.RelFlood

open Spines.Lib Function

/-! ## Slots -/

theorem slot_ne_of_window {lo p q : ℕ} (hp : lo ≤ p) (hp' : p < lo + MAX_MESS_PER_FLOW)
    (hq : lo ≤ q) (hq' : q < lo + MAX_MESS_PER_FLOW) (hne : p ≠ q) : slot p ≠ slot q :=
  slot_ne hp hp' hq hq' hne

/-! ## Statuses -/

theorem Status.unsent_of_not_sent {st : Status} (hne : st ≠ .empty) (h : ¬ st.sent = true) :
    st.unsent = true := by
  cases st with
  | empty => exact absurd rfl hne
  | new_unsent => rfl
  | new_sent => exact absurd rfl h
  | restamped_unsent => rfl
  | restamped_sent => exact absurd rfl h

theorem Status.not_sent_of_unsent {st : Status} (h : st.unsent = true) : ¬ st.sent = true := by
  cases st <;> simp_all [Status.sent, Status.unsent]

@[simp] theorem Status.mark_sent_eq_empty (st : Status) : st.mark_sent = .empty ↔ st = .empty := by
  cases st <;> simp [Status.mark_sent]

theorem Status.sent_mark_sent_of_sent {st : Status} (h : st.sent = true) :
    st.mark_sent.sent = true := by
  cases st <;> simp_all [Status.mark_sent, Status.sent]

@[simp] theorem Status.mark_unsent_eq_empty (st : Status) :
    st.mark_unsent = .empty ↔ st = .empty := by
  cases st <;> simp [Status.mark_unsent]

theorem Status.unsent_mark_unsent {st : Status} (h : st ≠ .empty) :
    st.mark_unsent.unsent = true := by
  cases st <;> simp_all [Status.mark_unsent, Status.unsent]

variable (cf : Conf)

theorem data_status_ne_empty (hop src_id : ℕ) (restamped : Bool) (k : ℕ) :
    data_status cf hop src_id restamped k ≠ .empty := by
  unfold data_status
  split <;> split <;> simp

/-! ## Skipping what was sent -/

structure Skipped (status : ℕ → ℕ → Status) (head k n r : ℕ) : Prop where
  le : n ≤ r
  le_head : n ≤ head → r ≤ head
  sent : ∀ q, n ≤ q → q < r → (status (slot q) k).sent = true
  stop : r < head → ¬ (status (slot r) k).sent = true

theorem skip_loop_spec (status : ℕ → ℕ → Status) (head k : ℕ) :
    ∀ fuel n, head - n ≤ fuel → Skipped status head k n (skip_loop status head k fuel n) := by
  intro fuel
  induction fuel with
  | zero =>
    intro n hn
    refine ⟨le_refl _, id, fun q h1 h2 => ?_, fun h => ?_⟩
    · simp only [skip_loop] at h2; omega
    · simp only [skip_loop] at h; omega
  | succ fuel ih =>
    intro n hn
    rw [skip_loop]
    by_cases h : n < head ∧ (status (slot n) k).sent = true
    · rw [if_pos h]
      obtain ⟨hle, hhead, hsent, hstop⟩ := ih (n + 1) (by omega)
      refine ⟨by omega, fun _ => hhead (by omega), fun q h1 h2 => ?_, hstop⟩
      rcases Nat.eq_or_lt_of_le h1 with rfl | hlt
      · exact h.2
      · exact hsent q hlt h2
    · rw [if_neg h]
      exact ⟨le_refl _, id, fun q h1 h2 => by omega, fun hlt hs => h ⟨hlt, hs⟩⟩

theorem FlowBuffer.skip_sent_spec (fb : FlowBuffer) (k n : ℕ) :
    Skipped fb.status fb.head_seq k n (fb.skip_sent k n) :=
  skip_loop_spec fb.status fb.head_seq k _ n (Nat.le_refl _)

theorem Skipped.eq {status : ℕ → ℕ → Status} {head k n r m : ℕ} (h : Skipped status head k n r)
    (hnm : n ≤ m) (hm : m ≤ head) (hsent : ∀ q, n ≤ q → q < m → (status (slot q) k).sent = true)
    (hstop : m < head → ¬ (status (slot m) k).sent = true) : r = m := by
  have hr : r ≤ head := h.le_head (le_trans hnm hm)
  rcases Nat.lt_trichotomy r m with hlt | heq | hgt
  · exact absurd (hsent r h.le hlt) (h.stop (lt_of_lt_of_le hlt hm))
  · exact heq
  · exact absurd (h.sent m hnm hgt) (hstop (lt_of_lt_of_le hgt hr))

/-! ## The invariants of a buffer -/

structure Held (cf : Conf) (fb : FlowBuffer) : Prop where
  sow_le : fb.sow ≤ fb.head_seq
  head_le : fb.head_seq ≤ fb.sow + MAX_MESS_PER_FLOW
  stored : ∀ q, fb.sow ≤ q → q < fb.head_seq → (fb.msg (slot q)).isSome = true
  marked : ∀ q, fb.sow ≤ q → q < fb.head_seq → ∀ k, cf.nbr k → fb.status (slot q) k ≠ .empty

/-- `next_seq[k]` stands on a message of the window that is to be sent, or at its
end. -/
structure Next (fb : FlowBuffer) (k : ℕ) : Prop where
  sow_le : fb.sow ≤ fb.next_seq k
  le_head : fb.next_seq k ≤ fb.head_seq
  unsent : fb.next_seq k < fb.head_seq → (fb.status (slot (fb.next_seq k)) k).unsent = true

/-- A buffer the handlers can work with; `aru k` is the aru of neighbour `k` for
the flow. A window that starts at `0` comes from an acknowledgement with the
largest aru, which the arus of the neighbours remember. -/
structure FlowInv (cf : Conf) (fb : FlowBuffer) (aru : ℕ → ℕ) : Prop where
  held : Held cf fb
  next : ∀ k, cf.nbr k → Next fb k
  head_lt : fb.head_seq < 2 ^ 64
  aru_max : fb.head_seq = 0 → ∀ k, cf.nbr k → aru k = ULLONG_MAX

def Clean (cf : Conf) (fb : FlowBuffer) : Prop :=
  ∀ x, x < MAX_MESS_PER_FLOW → (∀ q, fb.sow ≤ q → q < fb.head_seq → slot q ≠ x) →
    fb.msg x = none ∧ ∀ k, cf.nbr k → fb.status x k = .empty

def SentBelow (fb : FlowBuffer) (k : ℕ) : Prop :=
  ∀ q, fb.sow ≤ q → q < fb.next_seq k → (fb.status (slot q) k).sent = true

variable {fb : FlowBuffer}

theorem Held.window {cf : Conf} (h : Held cf fb) {q : ℕ}
    (hq : q < fb.head_seq) : q < fb.sow + MAX_MESS_PER_FLOW :=
  Nat.lt_of_lt_of_le hq h.head_le

theorem Held.slot_ne {cf : Conf} (h : Held cf fb) {p q : ℕ} (hp : fb.sow ≤ p)
    (hp' : p < fb.head_seq) (hq : fb.sow ≤ q) (hq' : q < fb.head_seq) (hne : p ≠ q) :
    slot p ≠ slot q :=
  slot_ne_of_window hp (h.window hp') hq (h.window hq') hne

theorem Next.not_sent {k : ℕ} (h : Next fb k) (hlt : fb.next_seq k < fb.head_seq) :
    ¬ (fb.status (slot (fb.next_seq k)) k).sent = true :=
  Status.not_sent_of_unsent (h.unsent hlt)

theorem Next.skip_sent_self {k : ℕ} (h : Next fb k) :
    fb.skip_sent k (fb.next_seq k) = fb.next_seq k :=
  (fb.skip_sent_spec k _).eq (Nat.le_refl _) h.le_head (fun q h1 h2 => by omega) h.not_sent

theorem Held.next_of_skipped {cf : Conf} {k n : ℕ} (h : Held cf fb)
    (hk : cf.nbr k) (hs : Skipped fb.status fb.head_seq k n (fb.next_seq k)) (hn : fb.sow ≤ n)
    (hn' : n ≤ fb.head_seq) : Next fb k := by
  have hle : fb.next_seq k ≤ fb.head_seq := hs.le_head hn'
  refine ⟨le_trans hn hs.le, hle, fun hlt => ?_⟩
  exact Status.unsent_of_not_sent (h.marked _ (le_trans hn hs.le) hlt k hk) (hs.stop hlt)

theorem sentBelow_of_skipped {k n : ℕ} (hs : Skipped fb.status fb.head_seq k n (fb.next_seq k))
    (h : ∀ q, fb.sow ≤ q → q < n → (fb.status (slot q) k).sent = true) : SentBelow fb k := by
  intro q h1 h2
  by_cases hq : q < n
  · exact h q h1 hq
  · exact hs.sent q (by omega) h2

theorem slots_exact {cf : Conf} (h : Held cf fb) (hc : Clean cf fb) {x : ℕ}
    (hx : x < MAX_MESS_PER_FLOW) :
    ((fb.msg x).isSome = true ↔ ∃ q, fb.sow ≤ q ∧ q < fb.head_seq ∧ slot q = x) ∧
      ∀ k, cf.nbr k → (fb.status x k = .empty ↔ fb.msg x = none) := by
  by_cases hw : ∃ q, fb.sow ≤ q ∧ q < fb.head_seq ∧ slot q = x
  · obtain ⟨q, h1, h2, rfl⟩ := hw
    have hs := h.stored q h1 h2
    refine ⟨iff_of_true hs ⟨q, h1, h2, rfl⟩, fun k hk => iff_of_false (h.marked q h1 h2 k hk) ?_⟩
    rintro hnone
    rw [hnone] at hs
    exact absurd hs (by simp)
  · obtain ⟨hm, hst⟩ := hc x hx (fun q h1 h2 he => hw ⟨q, h1, h2, he⟩)
    refine ⟨iff_of_false ?_ hw, fun k hk => iff_of_true (hst k hk) hm⟩
    rw [hm]
    simp

/-! ## Freeing slots -/

section Freeing

variable (cf : Conf) (guarded : Bool)

theorem clear_slot_other (fb : FlowBuffer) {x idx : ℕ} (h : x ≠ idx) :
    (fb.clear_slot cf idx).msg x = fb.msg x ∧
      ∀ k, (fb.clear_slot cf idx).status x k = fb.status x k := by
  simp only [FlowBuffer.clear_slot]
  exact ⟨update_of_ne h _ _, fun k => if_neg (fun hx => h hx.1)⟩

theorem clear_slot_self (fb : FlowBuffer) (idx : ℕ) :
    (fb.clear_slot cf idx).msg idx = none ∧
      ∀ k, cf.nbr k → (fb.clear_slot cf idx).status idx k = .empty := by
  simp only [FlowBuffer.clear_slot]
  exact ⟨update_self _ _ _, fun k hk => if_pos ⟨trivial, hk⟩⟩

theorem advance_loop_fields (cnt : ℕ) : ∀ fb : FlowBuffer,
    (advance_loop cf guarded cnt fb).sow = fb.sow + cnt ∧
      (advance_loop cf guarded cnt fb).head_seq = fb.head_seq ∧
      (advance_loop cf guarded cnt fb).next_seq = fb.next_seq ∧
      (advance_loop cf guarded cnt fb).src_epoch = fb.src_epoch := by
  induction cnt with
  | zero => intro fb; exact ⟨rfl, rfl, rfl, rfl⟩
  | succ cnt ih =>
    intro fb
    rw [advance_loop]
    split
    · obtain ⟨h1, h2, h3, h4⟩ := ih { fb with sow := fb.sow + 1 }
      exact ⟨by rw [h1]; dsimp only; omega, h2, h3, h4⟩
    · obtain ⟨h1, h2, h3, h4⟩ :=
        ih { fb.clear_slot cf (slot fb.sow) with sow := (fb.clear_slot cf (slot fb.sow)).sow + 1 }
      refine ⟨?_, h2, h3, h4⟩
      rw [h1]
      simp only [FlowBuffer.clear_slot]
      omega

theorem advance_loop_keep (cnt : ℕ) : ∀ (fb : FlowBuffer) (x : ℕ),
    (∀ q, fb.sow ≤ q → q < fb.sow + cnt → slot q ≠ x) →
      (advance_loop cf guarded cnt fb).msg x = fb.msg x ∧
        ∀ k, (advance_loop cf guarded cnt fb).status x k = fb.status x k := by
  induction cnt with
  | zero => intro fb x _; exact ⟨rfl, fun _ => rfl⟩
  | succ cnt ih =>
    intro fb x hx
    have hne : x ≠ slot fb.sow := (hx fb.sow (le_refl _) (by omega)).symm
    rw [advance_loop]
    split
    · exact ih { fb with sow := fb.sow + 1 } x
        (fun q h1 h2 => hx q (by dsimp only at h1; omega) (by dsimp only at h2; omega))
    · obtain ⟨hm, hs⟩ := clear_slot_other cf fb hne
      obtain ⟨hm', hs'⟩ :=
        ih { fb.clear_slot cf (slot fb.sow) with sow := (fb.clear_slot cf (slot fb.sow)).sow + 1 } x
          (fun q h1 h2 => hx q
            (by simp only [FlowBuffer.clear_slot] at h1; omega)
            (by simp only [FlowBuffer.clear_slot] at h2; omega))
      exact ⟨hm'.trans hm, fun k => (hs' k).trans (hs k)⟩

theorem advance_loop_freed (cnt : ℕ) : ∀ (fb : FlowBuffer) (x : ℕ),
    (∃ q, fb.sow ≤ q ∧ q < fb.sow + cnt ∧ slot q = x) →
      (advance_loop cf guarded cnt fb).msg x = none ∧
        ∀ k, cf.nbr k → (advance_loop cf guarded cnt fb).status x k = .empty ∨
          fb.msg x = none ∧ (advance_loop cf guarded cnt fb).status x k = fb.status x k := by
  induction cnt with
  | zero => rintro fb x ⟨q, h1, h2, -⟩; omega
  | succ cnt ih =>
    rintro fb x ⟨q, h1, h2, rfl⟩
    rw [advance_loop]
    -- does a later round come back to this slot?
    by_cases hlater : ∃ p, fb.sow + 1 ≤ p ∧ p < fb.sow + 1 + cnt ∧ slot p = slot q
    · split
      · exact ih { fb with sow := fb.sow + 1 } (slot q) hlater
      · obtain ⟨hm, hs⟩ := ih { fb.clear_slot cf (slot fb.sow) with
          sow := (fb.clear_slot cf (slot fb.sow)).sow + 1 } (slot q) hlater
        refine ⟨hm, fun k hk => ?_⟩
        rcases hs k hk with he | ⟨hn, he⟩
        · exact .inl he
        · dsimp only at hn he
          by_cases hx : slot q = slot fb.sow
          · rw [hx] at he ⊢
            exact .inl (he.trans ((clear_slot_self cf fb _).2 k hk))
          · obtain ⟨hm', hs'⟩ := clear_slot_other cf fb hx
            exact .inr ⟨hm'.symm.trans hn, he.trans (hs' k)⟩
    · -- then it is the slot of this round, and the later rounds leave it alone
      have hq : slot q = slot fb.sow := by
        rcases Nat.eq_or_lt_of_le h1 with rfl | hlt
        · rfl
        · exact absurd ⟨q, hlt, by omega, rfl⟩ hlater
      rw [hq] at hlater ⊢
      split
      · rename_i hnone
        simp only [Bool.and_eq_true, Option.isNone_iff_eq_none] at hnone
        obtain ⟨hm, hs⟩ := advance_loop_keep cf guarded cnt { fb with sow := fb.sow + 1 }
          (slot fb.sow) (fun p p1 p2 he => hlater ⟨p, p1, p2, he⟩)
        exact ⟨hm.trans hnone.2, fun k _ => .inr ⟨hnone.2, hs k⟩⟩
      · obtain ⟨hm', hs'⟩ := clear_slot_self cf fb (slot fb.sow)
        obtain ⟨hm, hs⟩ := advance_loop_keep cf guarded cnt
          { fb.clear_slot cf (slot fb.sow) with sow := (fb.clear_slot cf (slot fb.sow)).sow + 1 }
          (slot fb.sow) (fun p p1 p2 he => hlater ⟨p, p1, p2, he⟩)
        exact ⟨hm.trans hm', fun k hk => .inl ((hs k).trans (hs' k hk))⟩

theorem clear_range_spec (cnt : ℕ) : ∀ (lo : ℕ) (fb : FlowBuffer) (x : ℕ),
    ((clear_range cf lo cnt fb).msg x = none ∧
        ∀ k, cf.nbr k → (clear_range cf lo cnt fb).status x k = .empty) ∨
      (∀ q, lo ≤ q → q < lo + cnt → slot q ≠ x) ∧
        (clear_range cf lo cnt fb).msg x = fb.msg x ∧
        ∀ k, (clear_range cf lo cnt fb).status x k = fb.status x k := by
  induction cnt with
  | zero => intro lo fb x; exact .inr ⟨fun q h1 h2 => by omega, rfl, fun _ => rfl⟩
  | succ cnt ih =>
    intro lo fb x
    rw [clear_range]
    rcases ih (lo + 1) (fb.clear_slot cf (slot lo)) x with hl | ⟨hout, hm, hs⟩
    · exact .inl hl
    · by_cases hx : x = slot lo
      · subst hx
        obtain ⟨hm', hs'⟩ := clear_slot_self cf fb (slot lo)
        exact .inl ⟨hm.trans hm', fun k hk => (hs k).trans (hs' k hk)⟩
      · obtain ⟨hm', hs'⟩ := clear_slot_other cf fb hx
        refine .inr ⟨fun q h1 h2 => ?_, hm.trans hm', fun k => (hs k).trans (hs' k)⟩
        rcases Nat.eq_or_lt_of_le h1 with rfl | hlt
        · exact Ne.symm hx
        · exact hout q hlt (by omega)

end Freeing

/-! ## Moving the window up -/

theorem raise_next_next {cf : Conf} {k : ℕ} (fb : FlowBuffer) (hk : cf.nbr k) :
    (fb.raise_next cf).next_seq k = fb.skip_sent k (max (fb.next_seq k) fb.sow) := by
  simp only [FlowBuffer.raise_next, Conf.each_nbr _ _ hk]

/-- `hbh_move_up` and `e2e_advance` in one: the window moves up to `m + 1`, its end
included if need be, and every `next_seq` follows. -/
def FlowBuffer.slide (cf : Conf) (guarded : Bool) (m : ℕ) (fb : FlowBuffer) : FlowBuffer :=
  let fb := fb.advance_sow cf guarded m
  FlowBuffer.raise_next cf { fb with head_seq := max fb.head_seq fb.sow }

theorem slide_sow (fb : FlowBuffer) (guarded : Bool) (m : ℕ) :
    (fb.slide cf guarded m).sow = max fb.sow (m + 1) := by
  obtain ⟨h, -, -, -⟩ := advance_loop_fields cf guarded (m + 1 - fb.sow) fb
  have hs : (fb.slide cf guarded m).sow = (advance_loop cf guarded (m + 1 - fb.sow) fb).sow := rfl
  rw [hs, h]
  omega

theorem slide_head (fb : FlowBuffer) (guarded : Bool) (m : ℕ) :
    (fb.slide cf guarded m).head_seq = max fb.head_seq (max fb.sow (m + 1)) := by
  obtain ⟨h, h', -, -⟩ := advance_loop_fields cf guarded (m + 1 - fb.sow) fb
  have hs : (fb.slide cf guarded m).head_seq =
      max (advance_loop cf guarded (m + 1 - fb.sow) fb).head_seq
        (advance_loop cf guarded (m + 1 - fb.sow) fb).sow := rfl
  rw [hs, h, h']
  omega

theorem slide_src_epoch (fb : FlowBuffer) (guarded : Bool) (m : ℕ) :
    (fb.slide cf guarded m).src_epoch = fb.src_epoch :=
  (advance_loop_fields cf guarded (m + 1 - fb.sow) fb).2.2.2

section Slide

variable {cf : Conf} {fb : FlowBuffer} (guarded : Bool) (m : ℕ)

theorem Held.slide_keep (h : Held cf fb) {q : ℕ} (hq : max fb.sow (m + 1) ≤ q)
    (hq' : q < fb.head_seq) :
    (fb.slide cf guarded m).msg (slot q) = fb.msg (slot q) ∧
      ∀ k, (fb.slide cf guarded m).status (slot q) k = fb.status (slot q) k := by
  refine advance_loop_keep cf guarded (m + 1 - fb.sow) fb (slot q) (fun p h1 h2 => ?_)
  exact h.slot_ne h1 (by omega) (by omega) hq' (by omega)

theorem Held.slide (h : Held cf fb) : Held cf (fb.slide cf guarded m) := by
  have hsow := slide_sow cf fb guarded m
  have hhead := slide_head cf fb guarded m
  have hle' := h.head_le
  refine ⟨by omega, by omega, fun q h1 h2 => ?_, fun q h1 h2 k hk => ?_⟩
  · rw [(h.slide_keep guarded m (by omega) (by omega)).1]
    exact h.stored q (by omega) (by omega)
  · rw [(h.slide_keep guarded m (by omega) (by omega)).2 k]
    exact h.marked q (by omega) (by omega) k hk

theorem slide_skipped {k : ℕ} (hk : cf.nbr k) :
    Skipped (fb.slide cf guarded m).status (fb.slide cf guarded m).head_seq k
      (max (fb.next_seq k) (max fb.sow (m + 1))) ((fb.slide cf guarded m).next_seq k) := by
  obtain ⟨h1, -, h3, -⟩ := advance_loop_fields cf guarded (m + 1 - fb.sow) fb
  have hs : max fb.sow (m + 1) = fb.sow + (m + 1 - fb.sow) := by omega
  rw [FlowBuffer.slide, raise_next_next _ hk, FlowBuffer.advance_sow]
  rw [h1, h3, hs]
  exact FlowBuffer.skip_sent_spec _ _ _

theorem FlowInv.slide {aru aru' : ℕ → ℕ} (h : FlowInv cf fb aru) (hm : m + 1 < 2 ^ 64)
    (haru : fb.head_seq = 0 → ∀ k, cf.nbr k → aru k = ULLONG_MAX → aru' k = ULLONG_MAX) :
    FlowInv cf (fb.slide cf guarded m) aru' := by
  have hheld := h.held.slide guarded m
  have hsow := slide_sow cf fb guarded m
  have hhead := slide_head cf fb guarded m
  have hlt := h.head_lt
  have hle := h.held.sow_le
  refine ⟨hheld, fun k hk => ?_, by omega, fun h0 k hk => ?_⟩
  · have hn := (h.next k hk).le_head
    exact hheld.next_of_skipped hk (slide_skipped guarded m hk) (by omega) (by omega)
  · have h0' : fb.head_seq = 0 := by omega
    exact haru h0' k hk (h.aru_max h0' k hk)

theorem Clean.slide (hc : Clean cf fb) (h : Held cf fb) : Clean cf (fb.slide cf guarded m) := by
  have hsow := slide_sow cf fb guarded m
  have hhead := slide_head cf fb guarded m
  intro x hx hout
  by_cases hfreed : ∃ q, fb.sow ≤ q ∧ q < fb.sow + (m + 1 - fb.sow) ∧ slot q = x
  · obtain ⟨hm', hst⟩ := advance_loop_freed cf guarded (m + 1 - fb.sow) fb x hfreed
    refine ⟨hm', fun k hk => ?_⟩
    rcases hst k hk with he | ⟨hnone, he⟩
    · exact he
    · -- an empty slot was outside the window already
      have hw : ∀ q, fb.sow ≤ q → q < fb.head_seq → slot q ≠ x := by
        rintro q h1 h2 rfl
        have hs := h.stored q h1 h2
        rw [hnone] at hs
        exact absurd hs (by simp)
      exact he.trans ((hc x hx hw).2 k hk)
  · obtain ⟨hm', hst⟩ := advance_loop_keep cf guarded (m + 1 - fb.sow) fb x
      (fun q h1 h2 he => hfreed ⟨q, h1, h2, he⟩)
    have hw : ∀ q, fb.sow ≤ q → q < fb.head_seq → slot q ≠ x := by
      intro q h1 h2 he
      by_cases hq : q < fb.sow + (m + 1 - fb.sow)
      · exact hfreed ⟨q, h1, hq, he⟩
      · exact hout q (by omega) (by omega) he
    obtain ⟨ho, hos⟩ := hc x hx hw
    exact ⟨hm'.trans ho, fun k hk => (hst k).trans (hos k hk)⟩

theorem SentBelow.slide {k : ℕ} (hs : SentBelow fb k) (h : Held cf fb) (hn : Next fb k)
    (hk : cf.nbr k) : SentBelow (fb.slide cf guarded m) k := by
  have hsow := slide_sow cf fb guarded m
  have hle := hn.le_head
  refine sentBelow_of_skipped (slide_skipped guarded m hk) (fun q h1 h2 => ?_)
  rw [(h.slide_keep guarded m (by omega) (by omega)).2 k]
  exact hs q (by omega) (by omega)

end Slide

theorem e2e_advance_eq_slide (aru : ℕ) (fb : FlowBuffer) :
    fb.e2e_advance cf aru = fb.slide cf true aru := rfl

theorem hbh_move_up_eq_slide (conv : ℕ → ℕ) (guarded : Bool) (aru : ℕ → ℕ)
    (fb : FlowBuffer) (hle : fb.sow ≤ fb.head_seq) (hmin : hbh_min conv cf fb aru + 1 ≤ fb.head_seq) :
    fb.hbh_move_up cf conv guarded aru = fb.slide cf guarded (hbh_min conv cf fb aru) := by
  obtain ⟨h1, h2, -, -⟩ :=
    advance_loop_fields cf guarded (hbh_min conv cf fb aru + 1 - fb.sow) fb
  have hmax : max (fb.advance_sow cf guarded (hbh_min conv cf fb aru)).head_seq
      (fb.advance_sow cf guarded (hbh_min conv cf fb aru)).sow =
        (fb.advance_sow cf guarded (hbh_min conv cf fb aru)).head_seq := by
    rw [FlowBuffer.advance_sow, h1, h2]
    omega
  rw [FlowBuffer.slide, hmax]
  rfl

/-! ## The hop-by-hop minimum -/

theorem foldl_min_le {f : ℕ → ℕ → ℕ} (hf : ∀ m j, f m j ≤ m) (l : List ℕ) :
    ∀ m, l.foldl f m ≤ m ∧ ∀ j ∈ l, ∀ b, (∀ m, f m j ≤ b) → l.foldl f m ≤ b := by
  induction l with
  | nil => intro m; exact ⟨le_refl _, fun j hj => absurd hj (by simp)⟩
  | cons i l ih =>
    intro m
    obtain ⟨h1, h2⟩ := ih (f m i)
    refine ⟨le_trans h1 (hf m i), fun j hj b hb => ?_⟩
    rcases List.mem_cons.mp hj with rfl | hj
    · exact le_trans h1 (hb m)
    · exact h2 j hj b hb

theorem mem_range'_nbr {cf : Conf} {k : ℕ} (h : cf.nbr k) : k ∈ List.range' 1 cf.degree := by
  obtain ⟨h1, h2⟩ := h
  rw [List.mem_range'_1]
  omega

theorem int64u_pred_of_pos {n : ℕ} (h : 0 < n) (hlt : n < 2 ^ 64) : int64u_pred n = n - 1 := by
  unfold int64u_pred ULLONG_MAX
  omega

theorem hbh_min_step_le (fb : FlowBuffer) (aru : ℕ → ℕ) (m j : ℕ) :
    hbh_min_step (fun n => n) cf fb aru m j ≤ m ∧ hbh_min_step (fun n => n) cf fb aru m j ≤ aru j ∧
      (cf.hbh_opt = false → hbh_min_step (fun n => n) cf fb aru m j ≤ int64u_pred (fb.next_seq j)) := by
  simp only [hbh_min_step]
  refine ⟨?_, ?_, fun hopt => ?_⟩
  · split_ifs <;> omega
  · split_ifs <;> omega
  · simp only [hopt, true_and]
    split_ifs <;> omega

theorem hbh_min_le_head (fb : FlowBuffer) (aru : ℕ → ℕ) :
    hbh_min (fun n => n) cf fb aru ≤ int64u_pred fb.head_seq := by
  rw [hbh_min]
  exact (foldl_min_le (fun m j => (hbh_min_step_le cf fb aru m j).1) _ _).1

theorem int64u_of_int_of_lt {n : ℕ} (h : n < 2 ^ 31) : int64u_of_int n = n := by
  simp only [int64u_of_int]
  rw [if_pos (by omega)]
  omega

theorem hbh_min_int (fb : FlowBuffer) (aru : ℕ → ℕ) (h : int64u_pred fb.head_seq < 2 ^ 31) :
    hbh_min int64u_of_int cf fb aru = hbh_min (fun n => n) cf fb aru := by
  -- both assignments happen only for values below `min`
  have hstep : ∀ m j, m < 2 ^ 31 →
      hbh_min_step int64u_of_int cf fb aru m j = hbh_min_step (fun n => n) cf fb aru m j := by
    intro m j hm
    simp only [hbh_min_step]
    have hin : (if aru j < m then int64u_of_int (aru j) else m) = if aru j < m then aru j else m := by
      split
      · exact int64u_of_int_of_lt (by omega)
      · rfl
    have hm' : (if aru j < m then aru j else m) < 2 ^ 31 := by
      split <;> omega
    rw [hin]
    by_cases hc : cf.hbh_opt = false ∧
        int64u_pred (fb.next_seq j) < if aru j < m then aru j else m
    · rw [if_pos hc, if_pos hc, int64u_of_int_of_lt (by omega)]
    · rw [if_neg hc, if_neg hc]
  have key : ∀ (l : List ℕ) (m : ℕ), m < 2 ^ 31 →
      l.foldl (hbh_min_step int64u_of_int cf fb aru) m = l.foldl (hbh_min_step (fun n => n) cf fb aru) m := by
    intro l
    induction l with
    | nil => intro m _; rfl
    | cons i l ih =>
      intro m hm
      rw [List.foldl_cons, List.foldl_cons, hstep m i hm]
      exact ih _ (lt_of_le_of_lt (hbh_min_step_le cf fb aru m i).1 hm)
  rw [hbh_min, hbh_min, int64u_of_int_of_lt h]
  exact key _ _ h

/-! ## Storing a message -/

section Store

variable (cf : Conf) (fb : FlowBuffer) (hop : ℕ) (m : Msg) (restamped : Bool) (np : ℕ)

theorem store_data_fields :
    (fb.store_data cf hop m restamped np).sow = fb.sow ∧
      (fb.store_data cf hop m restamped np).head_seq = fb.head_seq ∧
      (fb.store_data cf hop m restamped np).src_epoch = fb.src_epoch := by
  unfold FlowBuffer.store_data
  split <;> exact ⟨rfl, rfl, rfl⟩

theorem store_data_self :
    (fb.store_data cf hop m restamped np).msg (slot m.seq_num) = some m ∧
      ∀ k, cf.nbr k → (fb.store_data cf hop m restamped np).status (slot m.seq_num) k =
        data_status cf hop m.src restamped k := by
  unfold FlowBuffer.store_data
  split <;> exact ⟨update_self _ _ _, fun k hk => if_pos ⟨rfl, hk⟩⟩

theorem store_data_other {x : ℕ} (hx : x ≠ slot m.seq_num) :
    (fb.store_data cf hop m restamped np).msg x = fb.msg x ∧
      ∀ k, (fb.store_data cf hop m restamped np).status x k = fb.status x k := by
  unfold FlowBuffer.store_data
  split <;> exact ⟨update_of_ne hx _ _, fun k => if_neg (fun h => hx h.1)⟩

variable {cf}

theorem store_data_skipped {k : ℕ} (hk : cf.nbr k) :
    Skipped (fb.store_data cf hop m restamped np).status fb.head_seq k (fb.next_seq k)
      ((fb.store_data cf hop m restamped np).next_seq k) := by
  unfold FlowBuffer.store_data
  split <;>
  · simp only [Conf.each_nbr _ _ hk, FlowBuffer.skip_sent]
    exact skip_loop_spec _ _ _ _ _ (le_refl _)

variable {fb}

theorem Held.store_data (h : Held cf fb) (hlo : fb.sow ≤ m.seq_num)
    (hhi : m.seq_num < fb.head_seq) : Held cf (fb.store_data cf hop m restamped np) := by
  obtain ⟨hsow, hhead, -⟩ := store_data_fields cf fb hop m restamped np
  obtain ⟨hm, hst⟩ := store_data_self cf fb hop m restamped np
  refine ⟨by rw [hsow, hhead]; exact h.sow_le, by rw [hsow, hhead]; exact h.head_le,
    fun q h1 h2 => ?_, fun q h1 h2 k hk => ?_⟩
  · rw [hsow] at h1
    rw [hhead] at h2
    by_cases hq : q = m.seq_num
    · rw [hq, hm]; rfl
    · rw [(store_data_other _ _ hop m restamped np (h.slot_ne h1 h2 hlo hhi hq)).1]
      exact h.stored q h1 h2
  · rw [hsow] at h1
    rw [hhead] at h2
    by_cases hq : q = m.seq_num
    · rw [hq, hst k hk]
      exact data_status_ne_empty cf hop m.src restamped k
    · rw [(store_data_other _ _ hop m restamped np (h.slot_ne h1 h2 hlo hhi hq)).2 k]
      exact h.marked q h1 h2 k hk

theorem Clean.store_data (hc : Clean cf fb) (hlo : fb.sow ≤ m.seq_num)
    (hhi : m.seq_num < fb.head_seq) : Clean cf (fb.store_data cf hop m restamped np) := by
  obtain ⟨hsow, hhead, -⟩ := store_data_fields cf fb hop m restamped np
  intro x hx hout
  rw [hsow, hhead] at hout
  have hne : x ≠ slot m.seq_num := fun he => hout m.seq_num hlo hhi he.symm
  obtain ⟨hm, hst⟩ := store_data_other cf fb hop m restamped np hne
  obtain ⟨ho, hos⟩ := hc x hx hout
  exact ⟨hm.trans ho, fun k hk => (hst k).trans (hos k hk)⟩

end Store

theorem Held.fresh {cf : Conf} (h : Held cf fb) (hop : ℕ) (m : Msg)
    (np : ℕ) (hseq : m.seq_num = fb.head_seq) (hroom : fb.head_seq < fb.sow + MAX_MESS_PER_FLOW) :
    Held cf (({ fb with head_seq := fb.head_seq + 1 } : FlowBuffer).store_data cf hop m
      false np) := by
  have hle := h.sow_le
  obtain ⟨hsow, hhead, -⟩ := store_data_fields cf { fb with head_seq := fb.head_seq + 1 }
    hop m false np
  obtain ⟨hm, hst⟩ := store_data_self cf { fb with head_seq := fb.head_seq + 1 }
    hop m false np
  have hother : ∀ q, fb.sow ≤ q → q < fb.head_seq → slot q ≠ slot m.seq_num := by
    intro q h1 h2
    exact slot_ne_of_window h1 (h.window h2) (by omega) (by omega) (by omega)
  refine ⟨by rw [hsow, hhead]; dsimp only; omega, by rw [hsow, hhead]; dsimp only; omega,
    fun q h1 h2 => ?_, fun q h1 h2 k hk => ?_⟩
  · rw [hsow] at h1
    rw [hhead] at h2
    by_cases hq : q = m.seq_num
    · rw [hq, hm]; rfl
    · have hlt : q < fb.head_seq := by dsimp only at h2; omega
      rw [(store_data_other _ _ hop m false np (hother q h1 hlt)).1]
      exact h.stored q h1 hlt
  · rw [hsow] at h1
    rw [hhead] at h2
    by_cases hq : q = m.seq_num
    · rw [hq, hst k hk]
      exact data_status_ne_empty cf hop m.src false k
    · have hlt : q < fb.head_seq := by dsimp only at h2; omega
      rw [(store_data_other _ _ hop m false np (hother q h1 hlt)).2 k]
      exact h.marked q h1 hlt k hk

/-! ## Marks toward one neighbour -/

section Mark

variable {cf : Conf} {fb : FlowBuffer} (k : ℕ)

theorem mark_sent_status (idx x j : ℕ) :
    (fb.mark_sent k idx).status x j =
      if x = idx ∧ j = k then (fb.status idx k).mark_sent else fb.status x j := rfl

theorem mark_sent_next_other (fb : FlowBuffer) (k idx : ℕ) {j : ℕ} (hj : j ≠ k) :
    (fb.mark_sent k idx).next_seq j = fb.next_seq j := by
  simp only [FlowBuffer.mark_sent, update_of_ne hj]

theorem mark_sent_skipped (idx : ℕ) :
    Skipped (fb.mark_sent k idx).status fb.head_seq k (fb.next_seq k)
      ((fb.mark_sent k idx).next_seq k) := by
  simp only [FlowBuffer.mark_sent, update_self, FlowBuffer.skip_sent]
  exact skip_loop_spec _ _ _ _ _ (le_refl _)

theorem Held.mark_sent (h : Held cf fb) (idx : ℕ) : Held cf (fb.mark_sent k idx) := by
  refine ⟨h.sow_le, h.head_le, h.stored, fun q h1 h2 j hj => ?_⟩
  rw [mark_sent_status]
  split
  · rename_i hx
    rw [← hx.1, ← hx.2, Ne, Status.mark_sent_eq_empty]
    exact h.marked q h1 h2 j hj
  · exact h.marked q h1 h2 j hj

theorem FlowInv.mark_sent {aru : ℕ → ℕ} (h : FlowInv cf fb aru) (idx : ℕ) :
    FlowInv cf (fb.mark_sent k idx) aru := by
  refine ⟨h.held.mark_sent k idx, fun j hj => ?_, h.head_lt, h.aru_max⟩
  have hn := h.next j hj
  by_cases hjk : j = k
  · subst hjk
    exact (h.held.mark_sent j idx).next_of_skipped hj (mark_sent_skipped j idx) hn.sow_le hn.le_head
  · have hnext := mark_sent_next_other fb k idx hjk
    refine ⟨by rw [hnext]; exact hn.sow_le, by rw [hnext]; exact hn.le_head, ?_⟩
    rw [hnext, mark_sent_status, if_neg (fun hx => hjk hx.2)]
    exact hn.unsent

theorem Clean.mark_sent (hc : Clean cf fb) {q : ℕ} (h1 : fb.sow ≤ q) (h2 : q < fb.head_seq) :
    Clean cf (fb.mark_sent k (slot q)) := by
  intro x hx hout
  obtain ⟨hm, hst⟩ := hc x hx hout
  refine ⟨hm, fun j hj => ?_⟩
  rw [mark_sent_status, if_neg (fun he => hout q h1 h2 he.1.symm)]
  exact hst j hj

theorem SentBelow.mark_sent {j : ℕ} (hs : SentBelow fb j) (idx : ℕ) :
    SentBelow (fb.mark_sent k idx) j := by
  have hkeep : ∀ q, (fb.status (slot q) j).sent = true →
      ((fb.mark_sent k idx).status (slot q) j).sent = true := by
    intro q hq
    rw [mark_sent_status]
    split
    · rename_i hx
      rw [← hx.1, ← hx.2]
      exact Status.sent_mark_sent_of_sent hq
    · exact hq
  by_cases hjk : j = k
  · subst hjk
    exact sentBelow_of_skipped (mark_sent_skipped j idx) (fun q h1 h2 => hkeep q (hs q h1 h2))
  · intro q h1 h2
    rw [mark_sent_next_other fb k idx hjk] at h2
    exact hkeep q (hs q h1 h2)

end Mark

/-! ## The acknowledgement loop -/

/-- What `ack_loop` leaves alone, and where `next_seq[k]` ends up. The induction is
on the fuel; the loop stops at the first message that is neither sent nor
acknowledged, which is then unsent because everything in the window is marked. -/
theorem ack_loop_spec {cf : Conf} {k : ℕ} (aru : ℕ) (hk : cf.nbr k) :
    ∀ (fuel : ℕ) (fb : FlowBuffer), Held cf fb → fb.sow ≤ fb.next_seq k →
      fb.next_seq k ≤ fb.head_seq → fb.head_seq - fb.next_seq k ≤ fuel →
      let fb' := ack_loop k aru fuel fb
      Held cf fb' ∧ Next fb' k ∧
        (fb'.sow = fb.sow ∧ fb'.head_seq = fb.head_seq ∧ fb'.src_epoch = fb.src_epoch ∧
          fb'.msg = fb.msg) ∧
        (∀ j, j ≠ k → fb'.next_seq j = fb.next_seq j ∧ ∀ x, fb'.status x j = fb.status x j) ∧
        (Clean cf fb → Clean cf fb') ∧ (SentBelow fb k → SentBelow fb' k) := by
  intro fuel
  induction fuel with
  | zero =>
    intro fb h h1 h2 h3
    rw [ack_loop]
    exact ⟨h, ⟨h1, h2, fun hlt => by omega⟩, ⟨rfl, rfl, rfl, rfl⟩,
      fun _ _ => ⟨rfl, fun _ => rfl⟩, id, id⟩
  | succ fuel ih =>
    intro fb h h1 h2 h3
    rw [ack_loop]
    dsimp only
    split
    · rename_i hc
      set st := fb.status (slot (fb.next_seq k)) k
      set fb1 : FlowBuffer := { fb with
        status := if st = .new_unsent then set2 fb.status (slot (fb.next_seq k)) k .new_sent
          else fb.status
        next_seq := update fb.next_seq k (fb.next_seq k + 1) } with hfb1
      have hn1 : fb1.next_seq k = fb.next_seq k + 1 := update_self _ _ _
      -- the only mark that changes is the one of the message passed over
      have hother : ∀ x j, ¬ (x = slot (fb.next_seq k) ∧ j = k) →
          fb1.status x j = fb.status x j := by
        intro x j hx
        rw [hfb1]
        dsimp only
        split
        · exact set2_of_ne _ _ hx
        · rfl
      have hself : (fb1.status (slot (fb.next_seq k)) k).sent = true := by
        rw [hfb1]
        dsimp only
        split
        · rw [set2_self]; rfl
        · rename_i hne
          rcases hc.2 with hs | ⟨hu, -⟩
          · exact hs
          · exact absurd hu hne
      have hheld : Held cf fb1 := by
        refine ⟨h.sow_le, h.head_le, h.stored, fun q q1 q2 j hj => ?_⟩
        by_cases hx : slot q = slot (fb.next_seq k) ∧ j = k
        · rw [hx.1, hx.2]
          intro he
          rw [he] at hself
          exact absurd hself (by decide)
        · rw [hother _ _ hx]
          exact h.marked q q1 q2 j hj
      obtain ⟨r1, r2, r3, r4, r5, r6⟩ := ih fb1 hheld (by rw [hn1]; exact Nat.le_succ_of_le h1)
        (by rw [hn1]; exact hc.1) (by rw [hn1]; change fb.head_seq - _ ≤ _; omega)
      refine ⟨r1, r2, r3, fun j hj => ?_, fun hclean => r5 ?_, fun hbelow => r6 ?_⟩
      · obtain ⟨hn, hs⟩ := r4 j hj
        refine ⟨hn.trans (update_of_ne hj _ _), fun x => (hs x).trans ?_⟩
        exact hother x j (fun hx => hj hx.2)
      · intro x hx hout
        obtain ⟨hm, hs⟩ := hclean x hx hout
        refine ⟨hm, fun j hj => ?_⟩
        rw [hother x j (fun he => hout _ h1 hc.1 he.1.symm)]
        exact hs j hj
      · intro q q1 q2
        rw [hn1] at q2
        by_cases hq : q = fb.next_seq k
        · rw [hq]; exact hself
        · rw [hother _ _ (fun hx => h.slot_ne q1 (by omega) h1 hc.1 hq hx.1)]
          exact hbelow q q1 (by omega)
    · rename_i hc
      refine ⟨h, ⟨h1, h2, fun hlt => ?_⟩, ⟨rfl, rfl, rfl, rfl⟩, fun _ _ => ⟨rfl, fun _ => rfl⟩,
        id, id⟩
      refine Status.unsent_of_not_sent (h.marked _ h1 hlt k hk) (fun hs => hc ⟨hlt, .inl hs⟩)

/-! ## Sending everything again -/

theorem Status.mark_unsent_idem (st : Status) : st.mark_unsent.mark_unsent = st.mark_unsent := by
  cases st <;> rfl

theorem unsend_loop_other (k : ℕ) (cnt : ℕ) :
    ∀ (lo : ℕ) (status : ℕ → ℕ → Status) (x j : ℕ),
      (j ≠ k ∨ ∀ q, lo ≤ q → q < lo + cnt → slot q ≠ x) →
        FlowBuffer.unsend.unsend_loop k lo cnt status x j = status x j := by
  induction cnt with
  | zero => intro lo status x j _; rfl
  | succ cnt ih =>
    intro lo status x j h
    rw [FlowBuffer.unsend.unsend_loop, ih]
    · refine set2_of_ne _ _ (fun hx => ?_)
      rcases h with hj | hout
      · exact hj hx.2
      · exact hout lo (le_refl _) (by omega) hx.1.symm
    · rcases h with hj | hout
      · exact .inl hj
      · exact .inr (fun q h1 h2 => hout q (by omega) (by omega))

theorem unsend_loop_mem (k : ℕ) (cnt : ℕ) :
    ∀ (lo : ℕ) (status : ℕ → ℕ → Status) (x : ℕ), (∃ q, lo ≤ q ∧ q < lo + cnt ∧ slot q = x) →
      FlowBuffer.unsend.unsend_loop k lo cnt status x k = (status x k).mark_unsent := by
  induction cnt with
  | zero => rintro lo status x ⟨q, h1, h2, -⟩; omega
  | succ cnt ih =>
    rintro lo status x ⟨q, h1, h2, rfl⟩
    rw [FlowBuffer.unsend.unsend_loop]
    -- does a later round come back to this slot?
    by_cases hlater : ∃ p, lo + 1 ≤ p ∧ p < lo + 1 + cnt ∧ slot p = slot q
    · rw [ih (lo + 1) _ (slot q) hlater]
      by_cases hx : slot q = slot lo
      · rw [hx, set2_self, Status.mark_unsent_idem]
      · rw [set2_of_ne _ _ (fun h => hx h.1)]
    · have hq : slot q = slot lo := by
        rcases Nat.eq_or_lt_of_le h1 with rfl | hlt
        · rfl
        · exact absurd ⟨q, hlt, by omega, rfl⟩ hlater
      rw [unsend_loop_other k cnt (lo + 1) _ (slot q) k
        (.inr (fun p p1 p2 he => hlater ⟨p, p1, p2, he⟩)), hq, set2_self]

section Unsend

variable {cf : Conf} {fb : FlowBuffer} (k : ℕ)

theorem unsend_window (fb : FlowBuffer) (k : ℕ) {q : ℕ} (h1 : fb.sow ≤ q) (h2 : q < fb.head_seq) :
    (fb.unsend k).status (slot q) k = (fb.status (slot q) k).mark_unsent :=
  unsend_loop_mem k (fb.head_seq - fb.sow) fb.sow fb.status (slot q) ⟨q, h1, by omega, rfl⟩

theorem unsend_other (fb : FlowBuffer) (k : ℕ) {x j : ℕ}
    (h : j ≠ k ∨ ∀ q, fb.sow ≤ q → q < fb.head_seq → slot q ≠ x) :
    (fb.unsend k).status x j = fb.status x j := by
  refine unsend_loop_other k (fb.head_seq - fb.sow) fb.sow fb.status x j ?_
  rcases h with hne | hout
  · exact .inl hne
  · exact .inr (fun q h1 h2 => hout q h1 (by omega))

theorem FlowInv.unsend {aru : ℕ → ℕ} (h : FlowInv cf fb aru) : FlowInv cf (fb.unsend k) aru := by
  have hheld : Held cf (fb.unsend k) := by
    refine ⟨h.held.sow_le, h.held.head_le, h.held.stored, fun q h1 h2 j hj => ?_⟩
    by_cases hjk : j = k
    · rw [hjk, unsend_window fb k h1 h2, Ne, Status.mark_unsent_eq_empty, ← hjk]
      exact h.held.marked q h1 h2 j hj
    · rw [unsend_other fb k (.inl hjk)]
      exact h.held.marked q h1 h2 j hj
  refine ⟨hheld, fun j hj => ?_, h.head_lt, h.aru_max⟩
  by_cases hjk : j = k
  · subst hjk
    have hnext : (fb.unsend j).next_seq j = fb.sow := update_self _ _ _
    refine ⟨le_of_eq hnext.symm, by rw [hnext]; exact h.held.sow_le, fun hlt => ?_⟩
    rw [hnext] at hlt ⊢
    rw [unsend_window fb j (le_refl _) hlt]
    exact Status.unsent_mark_unsent (h.held.marked _ (le_refl _) hlt j hj)
  · have hn := h.next j hj
    have hnext : (fb.unsend k).next_seq j = fb.next_seq j := update_of_ne hjk _ _
    refine ⟨by rw [hnext]; exact hn.sow_le, by rw [hnext]; exact hn.le_head, fun hlt => ?_⟩
    rw [hnext] at hlt ⊢
    rw [unsend_other fb k (.inl hjk)]
    exact hn.unsent hlt

theorem Clean.unsend (hc : Clean cf fb) : Clean cf (fb.unsend k) := by
  intro x hx hout
  obtain ⟨hm, hst⟩ := hc x hx hout
  refine ⟨hm, fun j hj => ?_⟩
  rw [unsend_other fb k (.inr hout)]
  exact hst j hj

theorem SentBelow.unsend {j : ℕ} (hs : SentBelow fb j) : SentBelow (fb.unsend k) j := by
  by_cases hjk : j = k
  · subst hjk
    have hnext : (fb.unsend j).next_seq j = fb.sow := update_self _ _ _
    intro q h1 h2
    rw [hnext] at h2
    exact absurd h2 (not_lt.mpr h1)
  · have hnext : (fb.unsend k).next_seq j = fb.next_seq j := update_of_ne hjk _ _
    intro q h1 h2
    rw [hnext] at h2
    rw [unsend_other fb k (.inl hjk)]
    exact hs q h1 h2

end Unsend

/-! ## Restamping -/

structure RestampOut (cf : Conf) (env : StampEnv) (cnt j : ℕ) (fb : FlowBuffer) (flag : Bool)
    (out : FlowBuffer × Bool × Bool) (e : ℕ) : Prop where
  ge : j ≤ e
  le : e ≤ j + cnt
  error : out.2.2 = true ↔ e < j + cnt
  fails : e < j + cnt → restamp_fails cf env fb e = true
  before : ∀ q, j ≤ q → q < e → restamp_fails cf env fb q = false
  fields : out.1.sow = fb.sow ∧ out.1.head_seq = fb.head_seq ∧ out.1.next_seq = fb.next_seq ∧
    out.1.src_epoch = fb.src_epoch ∧ out.1.num_paths = fb.num_paths
  outside : ∀ x, (∀ q, j ≤ q → q < j + cnt → slot q ≠ x) →
    out.1.msg x = fb.msg x ∧ ∀ k, out.1.status x k = fb.status x k
  msg : ∀ q, j ≤ q → q < j + cnt →
    out.1.msg (slot q) = if q ≤ e then restamp_msg env fb q else fb.msg (slot q)
  status : ∀ q, j ≤ q → q < j + cnt → ∀ k, out.1.status (slot q) k =
    if q < e ∧ restamp_changes env fb q = true ∧ cf.nbr k then .restamped_unsent
    else fb.status (slot q) k
  flag : out.2.2 = false →
    (out.2.1 = true ↔ flag = true ∨ ∃ q, j ≤ q ∧ q < j + cnt ∧ restamp_changes env fb q = true)

theorem restamp_congr (env : StampEnv) {fb fb' : FlowBuffer} {q : ℕ}
    (hnp : fb'.num_paths = fb.num_paths) (hm : fb'.msg (slot q) = fb.msg (slot q)) :
    restamp_changes env fb' q = restamp_changes env fb q ∧
      restamp_fails cf env fb' q = restamp_fails cf env fb q ∧
      restamp_msg env fb' q = restamp_msg env fb q := by
  have hc : restamp_changes env fb' q = restamp_changes env fb q := by
    rw [restamp_changes, restamp_changes, hnp, hm]
  refine ⟨hc, ?_, ?_⟩
  · rw [restamp_fails, restamp_fails, hnp, hc]
  · rw [restamp_msg, restamp_msg, hnp, hm]

theorem RestampOut.cons {cf : Conf} {env : StampEnv} {cnt j : ℕ} {fb fb1 : FlowBuffer}
    {flag flag1 : Bool} {out : FlowBuffer × Bool × Bool} {e : ℕ}
    (h : RestampOut cf env cnt (j + 1) fb1 flag1 out e) (hcnt : cnt + 1 ≤ MAX_MESS_PER_FLOW)
    (hok : restamp_fails cf env fb j = false)
    (hfields : fb1.sow = fb.sow ∧ fb1.head_seq = fb.head_seq ∧ fb1.next_seq = fb.next_seq ∧
      fb1.src_epoch = fb.src_epoch ∧ fb1.num_paths = fb.num_paths)
    (hother : ∀ x, slot j ≠ x → fb1.msg x = fb.msg x ∧ ∀ k, fb1.status x k = fb.status x k)
    (hmsg : fb1.msg (slot j) = restamp_msg env fb j) (hstatus : ∀ k, fb1.status (slot j) k =
      if restamp_changes env fb j = true ∧ cf.nbr k then .restamped_unsent else fb.status (slot j) k)
    (hflag : flag1 = true ↔ flag = true ∨ restamp_changes env fb j = true) :
    RestampOut cf env (cnt + 1) j fb flag out e := by
  have hne : ∀ q, j + 1 ≤ q → q < j + 1 + cnt → slot j ≠ slot q := fun q h1 h2 =>
    slot_ne_of_window (le_refl j) (by omega) (by omega) (by omega) (by omega)
  have hcongr : ∀ q, j + 1 ≤ q → q < j + 1 + cnt →
      restamp_changes env fb1 q = restamp_changes env fb q ∧
        restamp_fails cf env fb1 q = restamp_fails cf env fb q ∧
        restamp_msg env fb1 q = restamp_msg env fb q := fun q h1 h2 =>
    restamp_congr cf env hfields.2.2.2.2 (hother _ (hne q h1 h2)).1
  have hge := h.ge
  have hle := h.le
  -- the slot of `j` is not touched again
  have hj := h.outside (slot j) (fun q h1 h2 => (hne q h1 h2).symm)
  refine ⟨by omega, by omega, ?_, fun he => ?_, fun q h1 h2 => ?_, ?_, fun x hx => ?_,
    fun q h1 h2 => ?_, fun q h1 h2 k => ?_, fun herr => ?_⟩
  · rw [h.error]
    constructor <;> intro hlt <;> omega
  · rw [← (hcongr e hge (by omega)).2.1]
    exact h.fails (by omega)
  · rcases Nat.eq_or_lt_of_le h1 with rfl | hlt
    · exact hok
    · rw [← (hcongr q hlt (by omega)).2.1]
      exact h.before q hlt h2
  · obtain ⟨f1, f2, f3, f4, f5⟩ := h.fields
    obtain ⟨g1, g2, g3, g4, g5⟩ := hfields
    exact ⟨f1.trans g1, f2.trans g2, f3.trans g3, f4.trans g4, f5.trans g5⟩
  · obtain ⟨hm, hs⟩ := h.outside x (fun q h1 h2 => hx q (by omega) (by omega))
    obtain ⟨hm', hs'⟩ := hother x (hx j (le_refl _) (by omega))
    exact ⟨hm.trans hm', fun k => (hs k).trans (hs' k)⟩
  · rcases Nat.eq_or_lt_of_le h1 with rfl | hlt
    · rw [if_pos (by omega), hj.1, hmsg]
    · rw [h.msg q hlt (by omega), (hcongr q hlt (by omega)).2.2,
        (hother _ (hne q hlt (by omega))).1]
  · rcases Nat.eq_or_lt_of_le h1 with rfl | hlt
    · rw [hj.2 k, hstatus k]
      have hje : j < e := by omega
      simp only [hje, true_and]
    · rw [h.status q hlt (by omega) k, (hcongr q hlt (by omega)).1,
        (hother _ (hne q hlt (by omega))).2 k]
  · rw [h.flag herr, hflag]
    constructor
    · rintro ((hf | hc) | ⟨q, h1, h2, hc⟩)
      · exact .inl hf
      · exact .inr ⟨j, le_refl _, by omega, hc⟩
      · exact .inr ⟨q, by omega, by omega, by rw [← (hcongr q h1 h2).1]; exact hc⟩
    · rintro (hf | ⟨q, h1, h2, hc⟩)
      · exact .inl (.inl hf)
      · rcases Nat.eq_or_lt_of_le h1 with rfl | hlt
        · exact .inl (.inr hc)
        · exact .inr ⟨q, hlt, by omega, by rw [(hcongr q hlt (by omega)).1]; exact hc⟩

/-- The loop over the stored messages `[j, j + cnt)`, by induction on their number. -/
theorem restamp_loop_spec (env : StampEnv) : ∀ (cnt j : ℕ) (fb : FlowBuffer)
    (flag : Bool), cnt ≤ MAX_MESS_PER_FLOW →
      (∀ q, j ≤ q → q < j + cnt → (fb.msg (slot q)).isSome = true) →
      ∃ e, RestampOut cf env cnt j fb flag (restamp_loop cf env cnt j fb flag) e := by
  intro cnt
  induction cnt with
  | zero =>
    intro j fb flag _ _
    refine ⟨j, le_refl _, le_refl _, ?_, fun h => by omega, fun q h1 h2 => by omega,
      ⟨rfl, rfl, rfl, rfl, rfl⟩, fun x _ => ⟨rfl, fun _ => rfl⟩, fun q h1 h2 => by omega,
      fun q h1 h2 => by omega, fun _ => ?_⟩
    · simp [restamp_loop]
    · refine ⟨.inl, fun h => ?_⟩
      rcases h with h | ⟨q, h1, h2, -⟩
      · exact h
      · omega
  | succ cnt ih =>
    intro j fb flag hcnt hstored
    obtain ⟨m, hm⟩ := Option.isSome_iff_exists.mp (hstored j (le_refl _) (by omega))
    have hne : ∀ q, j + 1 ≤ q → q < j + 1 + cnt → slot q ≠ slot j := fun q h1 h2 =>
      (slot_ne_of_window (le_refl j) (by omega) (by omega) (by omega) (by omega)).symm
    -- the two ways to give up at `j`
    have hstop : ∀ fb1 : FlowBuffer, restamp_fails cf env fb j = true →
        fb1.sow = fb.sow ∧ fb1.head_seq = fb.head_seq ∧ fb1.next_seq = fb.next_seq ∧
          fb1.src_epoch = fb.src_epoch ∧ fb1.num_paths = fb.num_paths →
        fb1.status = fb.status → fb1.msg = update fb.msg (slot j) (restamp_msg env fb j) →
        ∀ flag1, RestampOut cf env (cnt + 1) j fb flag (fb1, flag1, true) j := by
      intro fb1 hf hfields hst hmsg flag1
      refine ⟨le_refl _, by omega, by simp, fun _ => hf, fun q h1 h2 => by omega, hfields,
        fun x hx => ⟨?_, fun k => by rw [hst]⟩, fun q h1 h2 => ?_, fun q h1 h2 k => ?_,
        fun h => absurd h (by simp)⟩
      · rw [hmsg, update_of_ne (hx j (le_refl _) (by omega)).symm]
      · rw [hmsg]
        rcases Nat.eq_or_lt_of_le h1 with rfl | hlt
        · rw [update_self, if_pos (le_refl _)]
        · rw [update_of_ne (hne q hlt (by omega)), if_neg (by omega)]
      · rw [hst, if_neg (by omega)]
    rw [restamp_loop]
    dsimp only
    cases hs : env.stamp (fb.num_paths (slot j)) with
    | none =>
      refine ⟨j, ?_⟩
      refine hstop fb (by rw [restamp_fails, hs]) ⟨rfl, rfl, rfl, rfl, rfl⟩ rfl ?_ flag
      have hmsg : restamp_msg env fb j = fb.msg (slot j) := by
        rw [restamp_msg, hs]
      rw [hmsg, Function.update_eq_self]
    | some stamp =>
      rw [hm]
      dsimp only
      have hmsg : restamp_msg env fb j =
          some { m with mask := multipath_create_superset stamp m.mask } := by
        rw [restamp_msg, hs, hm]
      by_cases heq : multipath_is_equal m.mask (multipath_create_superset stamp m.mask) = true
      · -- the mask stays
        rw [if_pos heq]
        have hch : restamp_changes env fb j = false := by
          rw [restamp_changes, hs, hm]
          simp only [heq, Bool.not_true]
        have hf : restamp_fails cf env fb j = false := by
          rw [restamp_fails, hs]
          simp only [hch, Bool.false_and]
        obtain ⟨e, he⟩ := ih (j + 1) fb flag (by omega)
          (fun q h1 h2 => hstored q (by omega) (by omega))
        refine ⟨e, he.cons hcnt hf ⟨rfl, rfl, rfl, rfl, rfl⟩ (fun x _ => ⟨rfl, fun _ => rfl⟩)
          ?_ (fun k => ?_) ?_⟩
        · have hmask : multipath_create_superset stamp m.mask = m.mask := by
            simp only [multipath_is_equal, decide_eq_true_eq] at heq
            exact heq.symm
          rw [hmsg, hm, hmask]
        · rw [hch, if_neg (fun h => absurd h.1 (by simp))]
        · rw [hch]
          simp
      · rw [if_neg heq]
        have hch : restamp_changes env fb j = true := by
          rw [restamp_changes, hs, hm]
          simp only [heq, Bool.not_false]
        by_cases hsig : cf.crypto = true ∧ ¬ env.sign_ok j = true
        · -- the signature fails
          rw [if_pos hsig]
          have hf : restamp_fails cf env fb j = true := by
            rw [restamp_fails, hs]
            simp [hch, hsig.1, hsig.2]
          refine ⟨j, hstop _ hf ?_ ?_ ?_ true⟩
          · exact ⟨rfl, rfl, rfl, rfl, rfl⟩
          · rfl
          · rw [hmsg]
        · rw [if_neg hsig]
          have hf : restamp_fails cf env fb j = false := by
            rw [restamp_fails, hs]
            simp only [hch, Bool.true_and]
            cases hcr : cf.crypto with
            | false => rfl
            | true =>
              cases hso : env.sign_ok j with
              | false => exact absurd ⟨hcr, by simp [hso]⟩ hsig
              | true => rfl
          obtain ⟨e, he⟩ := ih (j + 1) { fb with
            msg := update fb.msg (slot j)
              (some { m with mask := multipath_create_superset stamp m.mask })
            status := fun i k =>
              if i = slot j ∧ cf.nbr k then .restamped_unsent else fb.status i k } true
            (by omega) (fun q h1 h2 => by
              dsimp only
              rw [update_of_ne (hne q h1 h2)]
              exact hstored q (by omega) (by omega))
          refine ⟨e, he.cons hcnt hf ⟨rfl, rfl, rfl, rfl, rfl⟩ (fun x hx => ⟨?_, fun k => ?_⟩)
            ?_ (fun k => ?_) (by simp [hch])⟩
          · exact update_of_ne hx.symm _ _
          · exact if_neg (fun h => hx h.1.symm)
          · dsimp only
            rw [hmsg, update_self]
          · dsimp only
            simp only [hch, true_and]

section Restamped

variable {cf : Conf} {env : StampEnv} {fb : FlowBuffer} {flag : Bool}
  {out : FlowBuffer × Bool × Bool} {e : ℕ}

theorem restamp_msg_isSome (env : StampEnv) (fb : FlowBuffer) (q : ℕ) :
    (restamp_msg env fb q).isSome = (fb.msg (slot q)).isSome := by
  unfold restamp_msg
  split
  · rename_i hm
    rw [hm]
    rfl
  · rfl

theorem FlowInv.restamped {aru : ℕ → ℕ} (h : FlowInv cf fb aru)
    (ho : RestampOut cf env (fb.head_seq - fb.sow) fb.sow fb flag out e) :
    FlowInv cf out.1 aru := by
  obtain ⟨hsow, hhead, hnext, -, -⟩ := ho.fields
  have hle := h.held.sow_le
  have hst : ∀ q, fb.sow ≤ q → q < fb.head_seq → ∀ k,
      out.1.status (slot q) k = fb.status (slot q) k ∨
        out.1.status (slot q) k = .restamped_unsent := by
    intro q h1 h2 k
    rw [ho.status q h1 (by omega) k]
    split
    · exact .inr rfl
    · exact .inl rfl
  refine ⟨⟨?_, ?_, fun q h1 h2 => ?_, fun q h1 h2 k hk => ?_⟩, fun k hk => ?_, ?_, ?_⟩
  · rw [hsow, hhead]; exact h.held.sow_le
  · rw [hsow, hhead]; exact h.held.head_le
  · rw [hsow] at h1
    rw [hhead] at h2
    have hs := h.held.stored q h1 h2
    rw [ho.msg q h1 (by omega)]
    split
    · rw [restamp_msg_isSome]; exact hs
    · exact hs
  · rw [hsow] at h1
    rw [hhead] at h2
    rcases hst q h1 h2 k with he | he
    · rw [he]; exact h.held.marked q h1 h2 k hk
    · rw [he]; simp
  · have hn := h.next k hk
    refine ⟨by rw [hsow, hnext]; exact hn.sow_le, by rw [hnext, hhead]; exact hn.le_head, ?_⟩
    rw [hnext, hhead]
    intro hlt
    rcases hst _ hn.sow_le hlt k with he | he
    · rw [he]; exact hn.unsent hlt
    · rw [he]; rfl
  · rw [hhead]; exact h.head_lt
  · rw [hhead]; exact h.aru_max

theorem Clean.restamped (hc : Clean cf fb) (hle : fb.sow ≤ fb.head_seq)
    (ho : RestampOut cf env (fb.head_seq - fb.sow) fb.sow fb flag out e) : Clean cf out.1 := by
  obtain ⟨hsow, hhead, -, -, -⟩ := ho.fields
  intro x hx hout
  rw [hsow, hhead] at hout
  obtain ⟨hm, hs⟩ := ho.outside x (fun q h1 h2 => hout q h1 (by omega))
  obtain ⟨hm', hs'⟩ := hc x hx hout
  exact ⟨hm.trans hm', fun k hk => (hs k).trans (hs' k hk)⟩

theorem SentBelow.restamped {k : ℕ} (hs : SentBelow fb k) (hn : Next fb k)
    (ho : RestampOut cf env (fb.head_seq - fb.sow) fb.sow fb flag out e)
    (hbelow : ∀ q, fb.sow ≤ q → q < e → restamp_changes env fb q = true → fb.next_seq k ≤ q) :
    SentBelow out.1 k := by
  obtain ⟨hsow, -, hnext, -, -⟩ := ho.fields
  have hle := hn.le_head
  intro q h1 h2
  rw [hsow] at h1
  rw [hnext] at h2
  rw [ho.status q h1 (by omega) k, if_neg]
  · exact hs q h1 h2
  · rintro ⟨hqe, hch, -⟩
    exact absurd (hbelow q h1 hqe hch) (by omega)

end Restamped

/-- `next_seq[k]` goes to the first message of the window that is to be sent. -/
def FlowBuffer.resend (k : ℕ) (fb : FlowBuffer) : FlowBuffer :=
  { fb with next_seq := Function.update fb.next_seq k (fb.skip_sent k fb.sow) }

section Resend

variable {cf : Conf} {fb : FlowBuffer} (k : ℕ)

theorem resend_skipped (fb : FlowBuffer) (k : ℕ) :
    Skipped fb.status fb.head_seq k fb.sow ((fb.resend k).next_seq k) := by
  simp only [FlowBuffer.resend, update_self]
  exact fb.skip_sent_spec k fb.sow

theorem Next.skip_from_sow_le {k : ℕ} (h : Next fb k) : fb.skip_sent k fb.sow ≤ fb.next_seq k := by
  have hs := fb.skip_sent_spec k fb.sow
  by_cases hlt : fb.next_seq k < fb.head_seq
  · by_contra hgt
    exact h.not_sent hlt (hs.sent _ h.sow_le (Nat.lt_of_not_le hgt))
  · exact Nat.le_trans (hs.le_head (Nat.le_trans h.sow_le h.le_head)) (Nat.le_of_not_lt hlt)

theorem FlowInv.resend {aru : ℕ → ℕ} (h : FlowInv cf fb aru) : FlowInv cf (fb.resend k) aru := by
  have hheld : Held cf (fb.resend k) :=
    ⟨h.held.sow_le, h.held.head_le, h.held.stored, h.held.marked⟩
  refine ⟨hheld, fun j hj => ?_, h.head_lt, h.aru_max⟩
  by_cases hjk : j = k
  · subst hjk
    exact hheld.next_of_skipped hj (resend_skipped fb j) (le_refl _) h.held.sow_le
  · have hn := h.next j hj
    have hnext : (fb.resend k).next_seq j = fb.next_seq j := update_of_ne hjk _ _
    exact ⟨by rw [hnext]; exact hn.sow_le, by rw [hnext]; exact hn.le_head,
      by rw [hnext]; exact hn.unsent⟩

theorem SentBelow.resend {j : ℕ} (hs : j ≠ k → SentBelow fb j) : SentBelow (fb.resend k) j := by
  by_cases hjk : j = k
  · subst hjk
    exact sentBelow_of_skipped (resend_skipped fb j) (fun q h1 h2 => absurd h2 (not_lt.mpr h1))
  · have hnext : (fb.resend k).next_seq j = fb.next_seq j := update_of_ne hjk _ _
    intro q h1 h2
    rw [hnext] at h2
    exact hs hjk q h1 h2

end Resend

/-! ## End-to-end acknowledgements -/

section E2e

variable {cf : Conf} {fb : FlowBuffer} (c : Cell)

theorem int64u_le (n : ℕ) : int64u n < 2 ^ 64 := by
  unfold int64u
  exact Nat.mod_lt _ (by decide)

theorem FlowInv.e2e_reset (fb : FlowBuffer) {aru : ℕ → ℕ}
    (haru : ∀ k, cf.nbr k → aru k = c.aru) : FlowInv cf (fb.e2e_reset cf c) aru := by
  have hempty : ∀ q, int64u (c.aru + 1) ≤ q → ¬ q < int64u (c.aru + 1) := fun q h1 h2 => by omega
  refine ⟨⟨le_refl _, Nat.le_add_right _ _, fun q h1 h2 => absurd h2 (hempty q h1),
    fun q h1 h2 => absurd h2 (hempty q h1)⟩, fun k hk => ?_, int64u_le _, fun h0 k hk => ?_⟩
  · have hn : (fb.e2e_reset cf c).next_seq k = int64u (c.aru + 1) := by
      simp only [FlowBuffer.e2e_reset, Conf.each_nbr _ _ hk]
    refine ⟨le_of_eq hn.symm, le_of_eq hn, fun hlt => ?_⟩
    rw [hn] at hlt
    exact absurd hlt (lt_irrefl _)
  · have hlt := c.aru_lt
    have h0' : int64u (c.aru + 1) = 0 := h0
    rw [haru k hk]
    unfold int64u at h0'
    unfold ULLONG_MAX
    omega

theorem e2e_reset_next {k : ℕ} (hk : cf.nbr k) :
    (fb.e2e_reset cf c).next_seq k = (fb.e2e_reset cf c).head_seq := by
  simp only [FlowBuffer.e2e_reset, Conf.each_nbr _ _ hk]

theorem SentBelow.e2e_reset {k : ℕ} (hk : cf.nbr k) : SentBelow (fb.e2e_reset cf c) k := by
  intro q h1 h2
  rw [e2e_reset_next c hk] at h2
  exact absurd h2 (not_lt.mpr h1)

theorem Clean.e2e_reset (hc : Clean cf fb) (hempty : fb.sow = fb.head_seq) :
    Clean cf (fb.e2e_reset cf c) := by
  intro x hx _
  exact hc x hx (fun q h1 h2 => by omega)

theorem Clean.e2e_clear_reset (hc : Clean cf fb) (hle : fb.sow ≤ fb.head_seq) :
    Clean cf ((clear_range cf fb.sow (fb.head_seq - fb.sow) fb).e2e_reset cf c) := by
  intro x hx _
  rcases clear_range_spec cf (fb.head_seq - fb.sow) fb.sow fb x with hl | ⟨hout, hm, hs⟩
  · exact hl
  · obtain ⟨hm', hs'⟩ := hc x hx (fun q h1 h2 => hout q h1 (by omega))
    exact ⟨hm.trans hm', fun k hk => (hs k).trans (hs' k hk)⟩

end E2e

/-! ## Accepted messages -/

theorem data_verdict_cases (fb : FlowBuffer) (m : Msg) :
    data_verdict fb m = .refused ∨
      (m.src_epoch = fb.src_epoch ∧ m.src_epoch ≠ 0) ∧
        (data_verdict fb m = .fresh ∧ m.seq_num = fb.head_seq ∧ fb.sow ≤ fb.head_seq ∧
            fb.head_seq < int64u (fb.sow + MAX_MESS_PER_FLOW) ∨
          (fb.sow ≤ m.seq_num ∧ m.seq_num < fb.head_seq) ∧
            (data_verdict fb m = .missing ∧ fb.msg (slot m.seq_num) = none ∨
              ∃ stored, fb.msg (slot m.seq_num) = some stored ∧
                (data_verdict fb m = .duplicate ∧ stored.mask = m.mask ∨
                  data_verdict fb m = .restamped ∧
                    multipath_is_superset stored.mask m.mask = true))) := by
  unfold data_verdict
  by_cases h1 : fb.src_epoch < m.src_epoch
  · exact .inl (if_pos h1)
  rw [if_neg h1]
  by_cases h2 : m.src_epoch < fb.src_epoch
  · exact .inl (if_pos h2)
  rw [if_neg h2]
  by_cases h3 : m.src_epoch = 0
  · exact .inl (if_pos h3)
  rw [if_neg h3]
  by_cases h4 : m.seq_num < fb.sow
  · exact .inl (if_pos h4)
  rw [if_neg h4]
  by_cases h5 : fb.head_seq < m.seq_num
  · exact .inl (if_pos h5)
  rw [if_neg h5]
  by_cases h6 : m.seq_num = fb.head_seq
  · rw [if_neg (not_not.mpr h6)]
    by_cases h7 : int64u (fb.sow + MAX_MESS_PER_FLOW) ≤ m.seq_num
    · exact .inl (if_pos h7)
    · rw [if_neg h7]
      exact .inr ⟨⟨by omega, h3⟩, .inl ⟨rfl, h6, by omega, by omega⟩⟩
  rw [if_pos h6]
  cases hm : fb.msg (slot m.seq_num) with
  | none => exact .inr ⟨⟨by omega, h3⟩, .inr ⟨⟨by omega, by omega⟩, .inl ⟨rfl, rfl⟩⟩⟩
  | some stored =>
    dsimp only
    by_cases h8 : multipath_is_superset stored.mask m.mask = false
    · rw [if_pos h8]
      by_cases h9 : multipath_is_equal stored.mask m.mask = true
      · have heq : stored.mask = m.mask := by
          simpa [multipath_is_equal] using h9
        rw [if_pos h9]
        exact .inr ⟨⟨by omega, h3⟩, .inr ⟨⟨by omega, by omega⟩,
          Or.inr ⟨stored, rfl, .inl ⟨rfl, heq⟩⟩⟩⟩
      · exact .inl (if_neg h9)
    · rw [if_neg h8]
      by_cases h7 : int64u (fb.sow + MAX_MESS_PER_FLOW) ≤ m.seq_num
      · exact .inl (if_pos h7)
      · rw [if_neg h7]
        exact .inr ⟨⟨by omega, h3⟩, .inr ⟨⟨by omega, by omega⟩,
          Or.inr ⟨stored, rfl, .inr ⟨rfl, by simpa using h8⟩⟩⟩⟩

theorem room_of_check {sow head : ℕ} (h : head < int64u (sow + MAX_MESS_PER_FLOW)) :
    head < sow + MAX_MESS_PER_FLOW ∧ head + 1 < 2 ^ 64 := by
  unfold int64u MAX_MESS_PER_FLOW at h
  unfold MAX_MESS_PER_FLOW
  omega

section Accept

variable {cf : Conf} {fb : FlowBuffer} {m : Msg} (hop np : ℕ) {aru : ℕ → ℕ}

def FlowBuffer.with_fresh (cf : Conf) (last_hop_index : ℕ) (m : Msg) (np : ℕ) (fb : FlowBuffer) :
    FlowBuffer :=
  ({ fb with head_seq := fb.head_seq + 1 } : FlowBuffer).store_data cf last_hop_index m false np

theorem accept_fresh_eq (hd : m.dest ≠ cf.my_id) :
    fb.accept cf hop m false np aru =
      if cf.hbh_advance = true then
        (fb.with_fresh cf hop m np).hbh_move_up cf (fun n => n) false aru
      else fb.with_fresh cf hop m np := by
  simp only [FlowBuffer.accept, FlowBuffer.with_fresh, if_neg hd, Bool.false_eq_true, if_false,
    and_true]

theorem accept_restamped_eq (hd : m.dest ≠ cf.my_id) : fb.accept cf hop m true np aru =
      (fb.store_data cf hop m true np).rewind_next cf m.seq_num := by
  simp only [FlowBuffer.accept, if_neg hd, if_true, Bool.true_eq_false, and_false, if_false]

theorem with_fresh_fields (cf : Conf) (fb : FlowBuffer) (m : Msg) (hop np : ℕ) :
    (fb.with_fresh cf hop m np).sow = fb.sow ∧
      (fb.with_fresh cf hop m np).head_seq = fb.head_seq + 1 ∧
      (fb.with_fresh cf hop m np).src_epoch = fb.src_epoch :=
  store_data_fields cf { fb with head_seq := fb.head_seq + 1 } hop m false np

theorem with_fresh_skipped {k : ℕ} (fb : FlowBuffer) (m : Msg) (hop np : ℕ)
    (hk : cf.nbr k) : Skipped (fb.with_fresh cf hop m np).status
      (fb.with_fresh cf hop m np).head_seq k (fb.next_seq k)
      ((fb.with_fresh cf hop m np).next_seq k) := by
  rw [(with_fresh_fields cf fb m hop np).2.1]
  exact store_data_skipped _ hop m false np hk

theorem FlowInv.with_fresh (h : FlowInv cf fb aru) (hseq : m.seq_num = fb.head_seq)
    (hroom : fb.head_seq < int64u (fb.sow + MAX_MESS_PER_FLOW)) (aru' : ℕ → ℕ) :
    FlowInv cf (fb.with_fresh cf hop m np) aru' := by
  obtain ⟨hlt, hlt'⟩ := room_of_check hroom
  have hheld : Held cf (fb.with_fresh cf hop m np) := h.held.fresh hop m np hseq hlt
  obtain ⟨hsow, hhead, -⟩ := with_fresh_fields cf fb m hop np
  refine ⟨hheld, fun k hk => ?_, by omega, fun h0 => by omega⟩
  have hn := h.next k hk
  have hs := with_fresh_skipped fb m hop np hk
  have h1 := hn.sow_le
  have h2 := hn.le_head
  exact hheld.next_of_skipped hk hs (by omega) (by omega)

theorem Held.with_fresh_keep (h : Held cf fb) (hseq : m.seq_num = fb.head_seq)
    (hroom : fb.head_seq < fb.sow + MAX_MESS_PER_FLOW) {q : ℕ} (h1 : fb.sow ≤ q)
    (h2 : q < fb.head_seq) :
    (fb.with_fresh cf hop m np).msg (slot q) = fb.msg (slot q) ∧
      ∀ k, (fb.with_fresh cf hop m np).status (slot q) k = fb.status (slot q) k := by
  have hne : slot q ≠ slot m.seq_num := by
    have hle := h.sow_le
    exact slot_ne_of_window h1 (h.window h2) (by omega) (by omega) (by omega)
  exact store_data_other cf { fb with head_seq := fb.head_seq + 1 } hop m false np hne

theorem Clean.with_fresh (hc : Clean cf fb) (h : Held cf fb) (hseq : m.seq_num = fb.head_seq) :
    Clean cf (fb.with_fresh cf hop m np) := by
  obtain ⟨hsow, hhead, -⟩ := with_fresh_fields cf fb m hop np
  have hle := h.sow_le
  intro x hx hout
  rw [hsow, hhead] at hout
  have hne : x ≠ slot m.seq_num := fun he => hout fb.head_seq hle (by omega) (by rw [he, hseq])
  obtain ⟨hm, hst⟩ :=
    store_data_other cf { fb with head_seq := fb.head_seq + 1 } hop m false np hne
  obtain ⟨ho, hos⟩ := hc x hx (fun q h1 h2 => hout q h1 (by omega))
  exact ⟨hm.trans ho, fun k hk => (hst k).trans (hos k hk)⟩

theorem SentBelow.with_fresh {k : ℕ} (hb : SentBelow fb k) (h : Held cf fb) (hn : Next fb k)
    (hk : cf.nbr k) (hseq : m.seq_num = fb.head_seq)
    (hroom : fb.head_seq < fb.sow + MAX_MESS_PER_FLOW) :
    SentBelow (fb.with_fresh cf hop m np) k := by
  obtain ⟨hsow, -, -⟩ := with_fresh_fields cf fb m hop np
  have hle := hn.le_head
  refine sentBelow_of_skipped (with_fresh_skipped fb m hop np hk) (fun q h1 h2 => ?_)
  rw [hsow] at h1
  rw [(h.with_fresh_keep hop np hseq hroom h1 (by omega)).2 k]
  exact hb q h1 h2

theorem FlowInv.hbh_min_lt (h : FlowInv cf fb aru) (hpos : 0 < fb.head_seq) :
    hbh_min (fun n => n) cf fb aru + 1 ≤ fb.head_seq := by
  have hmin := hbh_min_le_head cf fb aru
  rw [int64u_pred_of_pos hpos h.head_lt] at hmin
  omega

theorem rewind_next_skipped {k : ℕ} (fb : FlowBuffer) (seq : ℕ) (hk : cf.nbr k) :
    Skipped (fb.rewind_next cf seq).status (fb.rewind_next cf seq).head_seq k
      (min (fb.next_seq k) seq) ((fb.rewind_next cf seq).next_seq k) := by
  simp only [FlowBuffer.rewind_next, Conf.each_nbr _ _ hk]
  exact fb.skip_sent_spec k _

theorem FlowInv.rewind_store (h : FlowInv cf fb aru) (hlo : fb.sow ≤ m.seq_num)
    (hhi : m.seq_num < fb.head_seq) :
    FlowInv cf ((fb.store_data cf hop m true np).rewind_next cf m.seq_num) aru := by
  obtain ⟨hsow, hhead, -⟩ := store_data_fields cf fb hop m true np
  have hst := h.held.store_data hop m true np hlo hhi
  have hheld : Held cf ((fb.store_data cf hop m true np).rewind_next cf m.seq_num) :=
    ⟨hst.sow_le, hst.head_le, hst.stored, hst.marked⟩
  have hlt := h.head_lt
  refine ⟨hheld, fun k hk => ?_, ?_, fun h0 => ?_⟩
  · have hn := h.next k hk
    have hs := store_data_skipped fb hop m true np hk
    have hle := le_trans hn.sow_le hs.le
    refine hheld.next_of_skipped hk (rewind_next_skipped _ m.seq_num hk) ?_ ?_
    · change (fb.store_data cf hop m true np).sow ≤ _
      omega
    · change _ ≤ (fb.store_data cf hop m true np).head_seq
      omega
  · change (fb.store_data cf hop m true np).head_seq < _
    omega
  · change (fb.store_data cf hop m true np).head_seq = 0 at h0
    omega

theorem SentBelow.rewind_store {k : ℕ} (hb : SentBelow fb k) (h : FlowInv cf fb aru)
    (hk : cf.nbr k) (hlo : fb.sow ≤ m.seq_num) (hhi : m.seq_num < fb.head_seq) :
    SentBelow ((fb.store_data cf hop m true np).rewind_next cf m.seq_num) k := by
  obtain ⟨hsow, hhead, -⟩ := store_data_fields cf fb hop m true np
  have hs := store_data_skipped fb hop m true np hk
  refine sentBelow_of_skipped (rewind_next_skipped _ m.seq_num hk) (fun q h1 h2 => ?_)
  have h1' : fb.sow ≤ q := by
    rw [← hsow]
    exact h1
  -- below both the old place and the restamped message
  change ((fb.store_data cf hop m true np).status (slot q) k).sent = true
  by_cases hq : q < fb.next_seq k
  · have hne := h.held.slot_ne h1' (by omega) hlo hhi (show q ≠ m.seq_num by omega)
    rw [(store_data_other cf fb hop m true np hne).2 k]
    exact hb q h1' hq
  · exact hs.sent q (by omega) (by omega)

end Accept

end Spines.RelFlood
