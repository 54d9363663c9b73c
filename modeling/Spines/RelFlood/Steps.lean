/-
The elementary steps of a flow buffer.

Whatever a handler does to a flow, it does by a few elementary steps: the window
moves up, a message is stored, a mark changes, the window restarts. `FlowStep`
lists them with the conditions under which the handlers take them, and
`Handlers.lean` shows that every handler only takes such steps.

`Allow` says which steps are possible: `mine` for a flow that ends at this
daemon, `data` and `e2e` for the steps only data messages and only end-to-end
acknowledgements cause, `dirty` for the one step that leaves messages behind.
-/
import Spines.RelFlood.Buffer

set_option autoImplicit false

namespace Spines.RelFlood

open Spines.Lib Function

abbrev Flow := FlowBuffer × (ℕ → ℕ)

structure Allow where
  mine : Bool
  data : Bool
  e2e : Bool
  dirty : Bool

inductive FlowStep (cf : Conf) (al : Allow) : Flow → Flow → Prop
  /-- A neighbour's aru is updated; the largest value is never lowered. -/
  | aru {fb : FlowBuffer} {a a' : ℕ → ℕ}
      (h : ∀ k, cf.nbr k → a k = ULLONG_MAX → a' k = ULLONG_MAX) : FlowStep cf al (fb, a) (fb, a')
  | slide {fb : FlowBuffer} {a : ℕ → ℕ} (guarded : Bool) (m : ℕ) (hm : m + 1 < 2 ^ 64)
      (h : al.e2e = true ∨ cf.hbh_advance = true ∧ m + 1 ≤ fb.head_seq) :
      FlowStep cf al (fb, a) (fb.slide cf guarded m, a)
  | fresh {fb : FlowBuffer} {a : ℕ → ℕ} (last_hop_index : ℕ) (m : Msg) (np : ℕ)
      (hal : al.data = true) (hmine : al.mine = false) (hseq : m.seq_num = fb.head_seq)
      (hroom : fb.head_seq < int64u (fb.sow + MAX_MESS_PER_FLOW)) :
      FlowStep cf al (fb, a) (fb.with_fresh cf last_hop_index m np, a)
  | restamped {fb : FlowBuffer} {a : ℕ → ℕ} (last_hop_index : ℕ) (m : Msg) (np : ℕ)
      (hlo : fb.sow ≤ m.seq_num) (hhi : m.seq_num < fb.head_seq) :
      FlowStep cf al (fb, a)
        ((fb.store_data cf last_hop_index m true np).rewind_next cf m.seq_num, a)
  | mark {fb : FlowBuffer} {a : ℕ → ℕ} (k q : ℕ) (h1 : fb.sow ≤ q) (h2 : q < fb.head_seq) :
      FlowStep cf al (fb, a) (fb.mark_sent k (slot q), a)
  | ack {fb : FlowBuffer} {a : ℕ → ℕ} (k aru : ℕ) (hk : cf.nbr k) :
      FlowStep cf al (fb, a) (ack_loop k aru (fb.head_seq - fb.next_seq k) fb, a)
  /-- `next_seq[k]` is moved over what was sent. -/
  | skip {fb : FlowBuffer} {a : ℕ → ℕ} (k : ℕ) :
      FlowStep cf al (fb, a)
        ({ fb with next_seq := Function.update fb.next_seq k (fb.skip_sent k (fb.next_seq k)) }, a)
  /-- Everything is to be sent to `k` again. -/
  | unsend {fb : FlowBuffer} {a : ℕ → ℕ} (k : ℕ) : FlowStep cf al (fb, a) (fb.unsend k, a)
  /-- `next_seq[k]` goes back to the first message that is to be sent. -/
  | resend {fb : FlowBuffer} {a : ℕ → ℕ} (k : ℕ) : FlowStep cf al (fb, a) (fb.resend k, a)
  | clear_reset {fb : FlowBuffer} {a : ℕ → ℕ} (c : Cell) (hal : al.e2e = true) {a' : ℕ → ℕ}
      (ha' : ∀ k, cf.nbr k → a' k = c.aru) :
      FlowStep cf al (fb, a)
        ((clear_range cf fb.sow (fb.head_seq - fb.sow) fb).e2e_reset cf c, a')
  | reset {fb : FlowBuffer} {a : ℕ → ℕ} (c : Cell) (hal : al.e2e = true)
      (hdirty : al.dirty = true ∨ fb.sow = fb.head_seq) {a' : ℕ → ℕ}
      (ha' : ∀ k, cf.nbr k → a' k = c.aru) :
      FlowStep cf al (fb, a) (fb.e2e_reset cf c, a')
  | deliver {fb : FlowBuffer} {a : ℕ → ℕ} (hal : al.data = true) (hmine : al.mine = true)
      (hroom : fb.head_seq < int64u (fb.sow + MAX_MESS_PER_FLOW)) :
      FlowStep cf al (fb, a)
        ({ fb with
            head_seq := fb.head_seq + 1
            sow := fb.sow + 1
            next_seq := cf.each (fun _ => fb.head_seq + 1) fb.next_seq }, a)
  | restart {fb : FlowBuffer} {a : ℕ → ℕ} (src_epoch : ℕ) (hal : al.e2e = true)
      (hmine : al.mine = true) :
      FlowStep cf al (fb, a)
        ({ fb with
            sow := 1
            head_seq := 1
            next_seq := cf.each (fun _ => 1) fb.next_seq
            src_epoch := src_epoch }, a)

abbrev FlowRun (cf : Conf) (al : Allow) : Flow → Flow → Prop :=
  Relation.ReflTransGen (FlowStep cf al)

/-- What holds of a flow: a well kept buffer, and an empty window at the
destination. -/
structure FlowOk (cf : Conf) (mine : Bool) (x : Flow) : Prop where
  inv : FlowInv cf x.1 x.2
  flat : mine = true → x.1.sow = x.1.head_seq

section Steps

variable {cf : Conf} {al : Allow} {x y : Flow}

theorem FlowInv.of_flat {fb : FlowBuffer} {a : ℕ → ℕ} (hflat : fb.sow = fb.head_seq)
    (hnext : ∀ k, cf.nbr k → fb.next_seq k = fb.head_seq) (hlt : fb.head_seq < 2 ^ 64)
    (hpos : 0 < fb.head_seq) : FlowInv cf fb a := by
  refine ⟨⟨le_of_eq hflat, by omega, fun q h1 h2 => by omega, fun q h1 h2 => by omega⟩,
    fun k hk => ?_, hlt, fun h0 => by omega⟩
  have hn := hnext k hk
  exact ⟨by omega, by omega, fun h => by omega⟩

theorem FlowInv.skip {fb : FlowBuffer} {a : ℕ → ℕ} (h : FlowInv cf fb a) (k : ℕ) : FlowInv cf
      { fb with next_seq := update fb.next_seq k (fb.skip_sent k (fb.next_seq k)) } a := by
  refine ⟨⟨h.held.sow_le, h.held.head_le, h.held.stored, h.held.marked⟩, fun j hj => ?_,
    h.head_lt, h.aru_max⟩
  have hn := h.next j hj
  have hnext : update fb.next_seq k (fb.skip_sent k (fb.next_seq k)) j = fb.next_seq j := by
    by_cases hjk : j = k
    · rw [← hjk, update_self, hn.skip_sent_self]
    · rw [update_of_ne hjk]
  exact ⟨by dsimp only; rw [hnext]; exact hn.sow_le, by dsimp only; rw [hnext]; exact hn.le_head,
    by dsimp only; rw [hnext]; exact hn.unsent⟩

theorem FlowStep.ok (hs : FlowStep cf al x y) (h : FlowOk cf al.mine x) : FlowOk cf al.mine y := by
  obtain ⟨hinv, hflat⟩ := h
  cases hs with
  | aru ha =>
    refine ⟨⟨hinv.held, hinv.next, hinv.head_lt, fun h0 k hk => ?_⟩, hflat⟩
    exact ha k hk (hinv.aru_max h0 k hk)
  | slide guarded m hm _ =>
    refine ⟨hinv.slide guarded m hm (fun _ _ _ he => he), fun hmine => ?_⟩
    have hf := hflat hmine
    dsimp only at hf ⊢
    rw [slide_sow, slide_head]
    omega
  | fresh hop m np _ hmine hseq hroom =>
    refine ⟨hinv.with_fresh hop np hseq hroom _, fun hm => ?_⟩
    rw [hmine] at hm
    exact absurd hm (by simp)
  | restamped hop m np hlo hhi =>
    -- the message lies in the window, so the flow does not end here
    have hmine : ∀ hm : al.mine = true, False := fun hm => by
      have hf := hflat hm
      dsimp only at hf
      omega
    refine ⟨?_, fun hm => (hmine hm).elim⟩
    exact hinv.rewind_store hop np hlo hhi
  | mark k q h1 h2 => exact ⟨hinv.mark_sent k (slot q), hflat⟩
  | ack k aru hk =>
    have hn := hinv.next k hk
    obtain ⟨hheld, hnext, ⟨e1, e2, e3, e4⟩, hother, -, -⟩ := ack_loop_spec aru hk _ _ hinv.held
      hn.sow_le hn.le_head (le_refl _)
    refine ⟨⟨hheld, fun j hj => ?_, by rw [e2]; exact hinv.head_lt,
      by rw [e2]; exact hinv.aru_max⟩, fun hm => by rw [e1, e2]; exact hflat hm⟩
    by_cases hjk : j = k
    · rw [hjk]
      exact hnext
    · obtain ⟨hn', hs'⟩ := hother j hjk
      have hnj := hinv.next j hj
      refine ⟨by rw [e1, hn']; exact hnj.sow_le, by rw [e2, hn']; exact hnj.le_head, ?_⟩
      rw [e2, hn', hs']
      exact hnj.unsent
  | skip k => exact ⟨hinv.skip k, hflat⟩
  | unsend k => exact ⟨hinv.unsend k, hflat⟩
  | resend k => exact ⟨hinv.resend k, hflat⟩
  | clear_reset c _ ha' => exact ⟨FlowInv.e2e_reset c _ ha', fun _ => rfl⟩
  | reset c _ _ ha' => exact ⟨FlowInv.e2e_reset c _ ha', fun _ => rfl⟩
  | deliver _ hmine hroom =>
    obtain ⟨-, hlt⟩ := room_of_check hroom
    have hf := hflat hmine
    dsimp only at hf
    refine ⟨FlowInv.of_flat ?_ (fun k hk => ?_) hlt (Nat.succ_pos _), fun _ => ?_⟩
    · dsimp only
      omega
    · dsimp only
      rw [Conf.each_nbr _ _ hk]
    · dsimp only
      omega
  | restart src_epoch _ _ =>
    refine ⟨FlowInv.of_flat rfl (fun k hk => ?_) (by dsimp only; omega) (by simp), fun _ => rfl⟩
    dsimp only
    rw [Conf.each_nbr _ _ hk]

theorem FlowStep.clean (hs : FlowStep cf al x y) (h : FlowOk cf al.mine x)
    (hmine : al.mine = false) (hdirty : al.dirty = false) (hc : Clean cf x.1) : Clean cf y.1 := by
  obtain ⟨hinv, -⟩ := h
  cases hs with
  | aru _ => exact hc
  | slide guarded m _ _ => exact hc.slide guarded m hinv.held
  | fresh hop m np _ _ hseq _ => exact hc.with_fresh hop np hinv.held hseq
  | restamped hop m np hlo hhi => exact hc.store_data hop m true np hlo hhi
  | mark k q h1 h2 => exact hc.mark_sent k h1 h2
  | ack k aru hk =>
    have hn := hinv.next k hk
    exact (ack_loop_spec aru hk _ _ hinv.held hn.sow_le hn.le_head (le_refl _)).2.2.2.2.1 hc
  | skip k => exact hc
  | unsend k => exact hc.unsend k
  | resend k => exact hc
  | clear_reset c _ _ => exact hc.e2e_clear_reset c hinv.held.sow_le
  | reset c _ hd _ =>
    rcases hd with hd | hd
    · rw [hdirty] at hd
      exact absurd hd (by simp)
    · exact hc.e2e_reset c hd
  | deliver _ hm _ =>
    rw [hmine] at hm
    exact absurd hm (by simp)
  | restart _ _ hm =>
    rw [hmine] at hm
    exact absurd hm (by simp)

theorem FlowStep.sentBelow {k : ℕ} (hs : FlowStep cf al x y) (h : FlowOk cf al.mine x)
    (hk : cf.nbr k) (hmine : al.mine = false) (hb : SentBelow x.1 k) : SentBelow y.1 k := by
  obtain ⟨hinv, -⟩ := h
  have hn := hinv.next k hk
  cases hs with
  | aru _ => exact hb
  | slide guarded m _ _ => exact hb.slide guarded m hinv.held hn hk
  | fresh hop m np _ _ hseq hroom =>
    exact hb.with_fresh hop np hinv.held hn hk hseq (room_of_check hroom).1
  | restamped hop m np hlo hhi =>
    exact hb.rewind_store hop np hinv hk hlo hhi
  | mark j q _ _ => exact hb.mark_sent j (slot q)
  | ack j aru hj =>
    have hnj := hinv.next j hj
    obtain ⟨-, -, ⟨e1, -, -, -⟩, hother, -, hsent⟩ := ack_loop_spec aru hj _ _ hinv.held
      hnj.sow_le hnj.le_head (le_refl _)
    by_cases hjk : k = j
    · subst hjk
      exact hsent hb
    · obtain ⟨hn', hs'⟩ := hother k hjk
      intro q h1 h2
      rw [e1] at h1
      rw [hn'] at h2
      rw [hs']
      exact hb q h1 h2
  | skip j =>
    intro q h1 h2
    dsimp only at h1 h2 ⊢
    by_cases hjk : k = j
    · rw [← hjk, update_self, hn.skip_sent_self] at h2
      exact hb q h1 h2
    · rw [update_of_ne hjk] at h2
      exact hb q h1 h2
  | unsend j => exact hb.unsend j
  | resend j => exact SentBelow.resend j (fun _ => hb)
  | clear_reset c _ _ => exact SentBelow.e2e_reset c hk
  | reset c _ _ _ => exact SentBelow.e2e_reset c hk
  | deliver _ hm _ =>
    rw [hmine] at hm
    exact absurd hm (by simp)
  | restart _ _ hm =>
    rw [hmine] at hm
    exact absurd hm (by simp)

/-- Steps that neither a data message nor an end-to-end ack causes leave the end of
the window where it is, and its start unless the window moves hop by hop. -/
structure Quiet (cf : Conf) (fb fb' : FlowBuffer) : Prop where
  head : fb'.head_seq = fb.head_seq
  sow : fb.sow ≤ fb'.sow
  stays : cf.hbh_advance = false → fb'.sow = fb.sow
  src_epoch : fb'.src_epoch = fb.src_epoch

theorem Quiet.refl (fb : FlowBuffer) : Quiet cf fb fb := ⟨rfl, Nat.le_refl _, fun _ => rfl, rfl⟩

theorem Quiet.trans {fb1 fb2 fb3 : FlowBuffer} (h : Quiet cf fb1 fb2) (h' : Quiet cf fb2 fb3) :
    Quiet cf fb1 fb3 :=
  ⟨h'.head.trans h.head, Nat.le_trans h.sow h'.sow, fun ha => (h'.stays ha).trans (h.stays ha),
    h'.src_epoch.trans h.src_epoch⟩

theorem FlowStep.quiet (hs : FlowStep cf al x y) (h : FlowOk cf al.mine x)
    (hdata : al.data = false) (he2e : al.e2e = false) : Quiet cf x.1 y.1 := by
  obtain ⟨hinv, -⟩ := h
  cases hs with
  | aru _ => exact Quiet.refl _
  | slide guarded m hm hal =>
    have hsow := hinv.held.sow_le
    dsimp only at hsow
    rcases hal with hal | ⟨hadv, hle⟩
    · rw [he2e] at hal
      exact absurd hal (by simp)
    · refine ⟨?_, ?_, fun ha => ?_, slide_src_epoch cf _ guarded m⟩
      · rw [slide_head]
        dsimp only
        omega
      · rw [slide_sow]
        dsimp only
        omega
      · rw [ha] at hadv
        exact absurd hadv (by simp)
  | fresh hop m np hal _ _ _ =>
    rw [hdata] at hal
    exact absurd hal (by simp)
  | @restamped fb _ hop m np _ _ =>
    obtain ⟨h1, h2, h3⟩ := store_data_fields cf fb hop m true np
    exact ⟨h2, le_of_eq h1.symm, fun _ => h1, h3⟩
  | mark k q _ _ => exact ⟨rfl, le_refl _, fun _ => rfl, rfl⟩
  | ack k aru hk =>
    have hn := hinv.next k hk
    obtain ⟨-, -, ⟨e1, e2, e3, e4⟩, -, -, -⟩ := ack_loop_spec aru hk _ _ hinv.held
      hn.sow_le hn.le_head (le_refl _)
    exact ⟨e2, le_of_eq e1.symm, fun _ => e1, e3⟩
  | skip k => exact ⟨rfl, le_refl _, fun _ => rfl, rfl⟩
  | unsend k => exact ⟨rfl, le_refl _, fun _ => rfl, rfl⟩
  | resend k => exact ⟨rfl, le_refl _, fun _ => rfl, rfl⟩
  | clear_reset c hal _ =>
    rw [he2e] at hal
    exact absurd hal (by simp)
  | reset c hal _ _ =>
    rw [he2e] at hal
    exact absurd hal (by simp)
  | deliver hal _ _ =>
    rw [hdata] at hal
    exact absurd hal (by simp)
  | restart _ hal _ =>
    rw [he2e] at hal
    exact absurd hal (by simp)

/-! ## Runs of elementary steps -/

theorem FlowRun.ok (hs : FlowRun cf al x y) (h : FlowOk cf al.mine x) : FlowOk cf al.mine y := by
  induction hs with
  | refl => exact h
  | tail _ hstep ih => exact hstep.ok ih

theorem FlowRun.clean (hs : FlowRun cf al x y) (h : FlowOk cf al.mine x)
    (hmine : al.mine = false) (hdirty : al.dirty = false) (hc : Clean cf x.1) : Clean cf y.1 := by
  induction hs with
  | refl => exact hc
  | tail hrun hstep ih => exact hstep.clean (FlowRun.ok hrun h) hmine hdirty ih

theorem FlowRun.sentBelow {k : ℕ} (hs : FlowRun cf al x y) (h : FlowOk cf al.mine x)
    (hk : cf.nbr k) (hmine : al.mine = false) (hb : SentBelow x.1 k) : SentBelow y.1 k := by
  induction hs with
  | refl => exact hb
  | tail hrun hstep ih => exact hstep.sentBelow (FlowRun.ok hrun h) hk hmine ih

theorem FlowRun.quiet (hs : FlowRun cf al x y) (h : FlowOk cf al.mine x)
    (hdata : al.data = false) (he2e : al.e2e = false) : Quiet cf x.1 y.1 := by
  induction hs with
  | refl => exact Quiet.refl _
  | tail hrun hstep ih => exact ih.trans (hstep.quiet (FlowRun.ok hrun h) hdata he2e)

end Steps

end Spines.RelFlood
