/-
The handlers of a link end do nothing but the steps of the window protocol.

For every function of `Link.lean` there is one lemma here that says which steps
of `Proto.lean` it takes.

`process_it_ack_spec` keeps more than that, because the results on the two
windows need the order: first the acknowledgement, then retransmissions, then
the packet, and last the in-order loop, which leaves the tail cell open.
-/
import Spines.IntruTol.Proto

set_option autoImplicit false

namespace Spines.IntruTol

open Spines.Lib Function List Option

/-! ## Views of single updates -/

variable (cf : Conf) (env : Env) (e : LinkEnd) (outgoing : ℕ → ItBufferCell) (i : ℕ)
  (c : ItBufferCell) (cnt seq : ℕ) (p : ItPacket) (inc : ℕ)

theorem cells_update_same (hc : c.pkt = (outgoing i).pkt) :
    (fun k => (update outgoing i c k).pkt.map List.flatten)
      = fun k => (outgoing k).pkt.map List.flatten := by
  funext k
  by_cases hk : k = i
  · rw [hk, update_self, hc]
  · rw [update_of_ne hk]

theorem cells_update : (fun k => (update outgoing i c k).pkt.map List.flatten)
      = update (fun k => (outgoing k).pkt.map List.flatten) i
          (c.pkt.map List.flatten) := by
  funext k
  by_cases hk : k = i
  · rw [hk, update_self, update_self]
  · rw [update_of_ne hk, update_of_ne hk]

theorem add_it_nacks_loop_spec (avail now nack_timeout cnt : ℕ) :
    ∀ (i : ℕ) (incoming : ℕ → ItRecvCell) (nacks : List ℕ),
      let r := add_it_nacks_loop avail now nack_timeout cnt i incoming nacks
      (∀ k, (r.1 k).flags = (incoming k).flags ∧ (r.1 k).pkt = (incoming k).pkt) ∧
      ∀ n ∈ r.2, n ∈ nacks ∨
        (i ≤ n ∧ n < i + cnt ∧ (incoming (n % MAX_SEND_ON_LINK)).flags = .nack) := by
  induction cnt with
  | zero =>
    intro i incoming nacks
    exact ⟨fun k => ⟨rfl, rfl⟩, fun n hn => .inl hn⟩
  | succ cnt ih =>
    intro i incoming nacks
    have hskip := ih (i + 1) incoming nacks
    simp only [add_it_nacks_loop]
    by_cases hfull : avail < SIZEOF_PKT_TAIL + 8 * nacks.length + 8
    · rw [if_pos hfull]
      exact ⟨fun k => ⟨rfl, rfl⟩, fun n hn => .inl hn⟩
    · rw [if_neg hfull]
      by_cases hnack : (incoming (i % MAX_SEND_ON_LINK)).flags = .nack
          ∧ (incoming (i % MAX_SEND_ON_LINK)).nack_expire ≤ now
      · rw [if_pos hnack]
        obtain ⟨hcells, hlist⟩ := ih (i + 1) (update incoming (i % MAX_SEND_ON_LINK)
          { incoming (i % MAX_SEND_ON_LINK) with nack_expire := now + nack_timeout })
          (nacks ++ [i])
        -- the updated cell keeps its flags and its packet
        have hsame : ∀ k, (update incoming (i % MAX_SEND_ON_LINK)
            { incoming (i % MAX_SEND_ON_LINK) with nack_expire := now + nack_timeout } k).flags
              = (incoming k).flags ∧
            (update incoming (i % MAX_SEND_ON_LINK)
            { incoming (i % MAX_SEND_ON_LINK) with nack_expire := now + nack_timeout } k).pkt
              = (incoming k).pkt := by
          intro k
          by_cases hk : k = i % MAX_SEND_ON_LINK
          · rw [hk, update_self]
            exact ⟨rfl, rfl⟩
          · rw [update_of_ne hk]
            exact ⟨rfl, rfl⟩
        refine ⟨fun k => ⟨(hcells k).1.trans (hsame k).1, (hcells k).2.trans (hsame k).2⟩, ?_⟩
        intro n hn
        rcases hlist n hn with hmem | ⟨h1, h2, h3⟩
        · rcases mem_append.mp hmem with hold | hnew
          · exact .inl hold
          · rw [mem_singleton] at hnew
            subst hnew
            exact .inr ⟨le_refl _, by omega, hnack.1⟩
        · exact .inr ⟨by omega, by omega, (hsame _).1 ▸ h3⟩
      · rw [if_neg hnack]
        refine ⟨hskip.1, ?_⟩
        intro n hn
        rcases hskip.2 n hn with hmem | ⟨h1, h2, h3⟩
        · exact .inl hmem
        · exact .inr ⟨by omega, by omega, h3⟩

theorem add_it_nacks_spec (inb : Inbound) (buff_len : ℕ) :
    (∀ k, ((add_it_nacks cf env inb buff_len).1 k).flags = (inb.incoming k).flags ∧
      ((add_it_nacks cf env inb buff_len).1 k).pkt = (inb.incoming k).pkt) ∧
    ∀ n ∈ (add_it_nacks cf env inb buff_len).2, inb.in_tail_seq ≤ n ∧ n < inb.in_head_seq ∧
      (inb.incoming (n % MAX_SEND_ON_LINK)).flags = .nack := by
  obtain ⟨hcells, hlist⟩ := add_it_nacks_loop_spec (nack_space cf buff_len) env.now
    env.nack_timeout (inb.in_head_seq - inb.in_tail_seq) inb.in_tail_seq inb.incoming []
  refine ⟨hcells, ?_⟩
  intro n hn
  rcases hlist n hn with hmem | ⟨h1, h2, h3⟩
  · exact absurd hmem not_mem_nil
  · exact ⟨h1, by omega, h3⟩

/-! ## Sending -/

theorem it_link_send_view (data : Bytes) (data_len : ℕ) (tail : PktTail) (e : LinkEnd) :
    (it_link_send cf env data data_len tail e).2.view = e.view ∨
    ∃ p : ItPacket, p.data = data ∧ p.tail = tail ∧ p.front = tail ∧
      (∀ n ∈ p.nacks, e.view.in_tail ≤ n ∧ n < e.view.in_head ∧
        e.view.flags (n % MAX_SEND_ON_LINK) = .nack) ∧
      (it_link_send cf env data data_len tail e).2.view = { e.view with sent := e.view.sent ++ [p] } := by
  obtain ⟨hcells, hnacks⟩ := add_it_nacks_spec cf env e.inb data_len
  have hflags : (fun i => ((add_it_nacks cf env e.inb data_len).1 i).flags)
      = fun i => (e.inb.incoming i).flags := funext (fun k => (hcells k).1)
  have hpkts : (fun i => ((add_it_nacks cf env e.inb data_len).1 i).pkt)
      = fun i => (e.inb.incoming i).pkt := funext (fun k => (hcells k).2)
  by_cases hok : env.send_ok e.attempts = true
  · right
    refine ⟨⟨data, tail, tail, SIZEOF_PKT_TAIL + 8 * (add_it_nacks cf env e.inb data_len).2.length,
      (add_it_nacks cf env e.inb data_len).2⟩, rfl, rfl, rfl, hnacks, ?_⟩
    simp only [it_link_send, LinkEnd.view, hflags, hpkts, if_pos hok]
  · left
    simp only [it_link_send, LinkEnd.view, hflags, hpkts, if_neg hok]

theorem send_it_data_msg_outb (e : LinkEnd) : (send_it_data_msg cf env seq e).2.outb = e.outb := by
  unfold send_it_data_msg
  split
  · rfl
  · dsimp only
    split
    · rfl
    · split <;> rfl

theorem send_it_data_msg_run (e : LinkEnd) (h1 : e.view.tail ≤ seq) (h2 : seq < e.view.tcp) :
    OutRun e.view (send_it_data_msg cf env seq e).2.view := by
  unfold send_it_data_msg
  by_cases hup : env.network_flag = false ∨ env.link_up = false
  · rw [if_pos hup]
    exact .refl
  · rw [if_neg hup]
    dsimp only
    cases hpkt : (e.outb.outgoing (seq % MAX_SEND_ON_LINK)).pkt with
    | none => exact .refl
    | some elems =>
      have hcell : e.view.cells (seq % MAX_SEND_ON_LINK) = some elems.flatten := by
        simp only [LinkEnd.view, hpkt, map_some]
      -- resetting the message count does not show in the view
      have hview : ∀ (b : Prop) [Decidable b] (r : Bool × LinkEnd),
          (if b then ((true, { r.2 with inb.incoming_msg_count := 0 }) : Bool × LinkEnd)
            else r).2.view = r.2.view := by
        intro b _ r
        split <;> rfl
      simp only [hview]
      rcases it_link_send_view cf env elems.flatten
        (e.outb.outgoing (seq % MAX_SEND_ON_LINK)).data_len
        (e.tail seq (e.outb.out_nonce (seq % MAX_SEND_ON_LINK))) e with
        heq | ⟨p, hdata, htail, hfront, hnacks, heq⟩
      · rw [heq]
        exact .refl
      · rw [heq]
        refine Relation.ReflTransGen.single (OutStep.send p seq h1 h2 ?_ ?_ ?_ ?_)
        · rw [hcell, hdata]
        · rw [htail]; rfl
        · rw [htail]; rfl
        · exact ⟨by rw [hfront, htail], by rw [htail]; rfl, by rw [htail]; rfl,
            by rw [htail]; rfl, by rw [htail]; rfl, hnacks⟩

theorem send_it_ack_run : OutRun e.view (send_it_ack cf env e).2.view := by
  unfold send_it_ack
  by_cases hup : env.network_flag = false ∨ env.link_up = false
  · rw [if_pos hup]
    exact .refl
  · rw [if_neg hup]
    rcases it_link_send_view cf env [] 0 (e.tail 0 0) e with
      heq | ⟨p, hdata, htail, hfront, hnacks, heq⟩
    · rw [heq]
      exact .refl
    · rw [heq]
      refine Relation.ReflTransGen.single (OutStep.ack p ?_ ?_)
      · rw [htail]; rfl
      · exact ⟨by rw [hfront, htail], by rw [htail]; rfl, by rw [htail]; rfl,
          by rw [htail]; rfl, by rw [htail]; rfl, hnacks⟩

/-! ## Filling the window -/

theorem pack_one_view (m : SysScatter) (e : LinkEnd) : (pack_one cf env m e).view = e.view.pack
          (fill_packet cf.link_header_size m e.outb.out_frag_idx e.outb.out_frag_total).elements.flatten
          (env.nonce e.outb.out_head_seq) := by
  simp only [pack_one, LinkEnd.view, Proto.pack, cells_update, map_some]

theorem pack_loop_keeps {cf : Conf} {env : Env} {P : LinkEnd → Prop}
    (hone : ∀ {m e}, P e → e.outb.out_message = some m →
      e.outb.out_head_seq - e.outb.out_tail_seq < MAX_SEND_ON_LINK → P (pack_one cf env m e))
    (fuel : ℕ) : ∀ {e : LinkEnd}, P e → P (pack_loop cf env fuel e) := by
  induction fuel with
  | zero => exact fun h => h
  | succ fuel ih =>
    intro e h
    rw [pack_loop]
    cases hm : e.outb.out_message with
    | none => exact h
    | some m =>
      dsimp only
      split
      · rename_i hroom
        exact ih (hone h hm hroom)
      · exact h

theorem pack_loop_keeps_inv {cf : Conf} {env : Env} {P : LinkEnd → Prop}
    (hone : ∀ {m e}, P e → OutInv e.view → e.outb.out_message = some m →
      e.outb.out_head_seq - e.outb.out_tail_seq < MAX_SEND_ON_LINK → P (pack_one cf env m e))
    (fuel : ℕ) {e : LinkEnd} (h : P e) (ho : OutInv e.view) : P (pack_loop cf env fuel e) := by
  refine (pack_loop_keeps (P := fun e => P e ∧ OutInv e.view) ?_ fuel ⟨h, ho⟩).1
  rintro m e ⟨h, ho⟩ hm hroom
  refine ⟨hone h ho hm hroom, ?_⟩
  rw [pack_one_view]
  exact ho.pack _ _ hroom

theorem pack_loop_run (fuel : ℕ) (e : LinkEnd) : OutRun e.view (pack_loop cf env fuel e).view := by
  apply pack_loop_keeps (P := fun e' => OutRun e.view e'.view)
  · intro m e' h _ hroom
    rw [pack_one_view]
    exact h.tail (OutStep.pack _ _ hroom)
  · exact .refl

theorem pack_fragments_run : OutRun e.view (pack_fragments_into_packets_it cf env e).2.view := by
  unfold pack_fragments_into_packets_it
  split
  · exact .refl
  · exact pack_loop_run cf env MAX_SEND_ON_LINK e

theorem pack_or_drop_cases : env.link_up = false ∧ pack_or_drop cf env e =
      { e with outb.out_message := none, outb.out_frag_idx := 0, outb.out_frag_total := 0 } ∨
    ¬ env.link_up = false ∧ pack_or_drop cf env e = pack_loop cf env MAX_SEND_ON_LINK e := by
  unfold pack_or_drop pack_fragments_into_packets_it
  by_cases hup : env.link_up = false
  · rw [if_pos hup]
    exact .inl ⟨hup, rfl⟩
  · rw [if_neg hup]
    exact .inr ⟨hup, rfl⟩

theorem pack_or_drop_run : OutRun e.view (pack_or_drop cf env e).view := by
  have h := pack_fragments_run cf env e
  unfold pack_or_drop
  dsimp only
  split
  · exact h
  · exact h

theorem send_new_run (stop : Bool) (cnt : ℕ) :
    ∀ e : LinkEnd, OutInv e.view → e.view.tcp + cnt ≤ e.view.head →
      OutRun e.view (send_new cf env stop cnt e).view := by
  induction cnt with
  | zero => intro e _ _; exact .refl
  | succ cnt ih =>
    intro e hinv hcnt
    rw [send_new]
    -- the state with the window opened by one
    obtain ⟨e1, he1⟩ : ∃ e1 : LinkEnd, e1 =
        { e with
          outb.outgoing := update e.outb.outgoing
            (e.outb.tcp_head_seq % MAX_SEND_ON_LINK)
            { e.outb.outgoing (e.outb.tcp_head_seq % MAX_SEND_ON_LINK) with
              timestamp := env.now + env.initial_nack_timeout }
          outb.tcp_head_seq := e.outb.tcp_head_seq + 1 } := ⟨_, rfl⟩
    have hview : e1.view = { e.view with tcp := e.view.tcp + 1 } := by
      rw [he1]
      simp only [LinkEnd.view]
      congr 1
      exact cells_update_same _ _ _ rfl
    have hopen : OutStep e.view e1.view := by
      rw [hview]
      exact OutStep.advance (by omega)
    rw [← he1]
    have hsend : OutRun e1.view (send_it_data_msg cf env e.outb.tcp_head_seq e1).2.view := by
      refine send_it_data_msg_run cf env _ e1 ?_ ?_
      · rw [hview]; exact hinv.tail_le
      · rw [hview]; exact Nat.lt_succ_self _
    have hrun : OutRun e.view (send_it_data_msg cf env e.outb.tcp_head_seq e1).2.view :=
      Relation.ReflTransGen.head hopen hsend
    split
    · exact hrun
    · refine hrun.trans (ih _ (hrun.outInv hinv) ?_)
      have hout := send_it_data_msg_outb cf env e.outb.tcp_head_seq e1
      show (send_it_data_msg cf env e.outb.tcp_head_seq e1).2.outb.tcp_head_seq + cnt
        ≤ (send_it_data_msg cf env e.outb.tcp_head_seq e1).2.outb.out_head_seq
      rw [hout, he1]
      change e.outb.tcp_head_seq + (cnt + 1) ≤ e.outb.out_head_seq at hcnt
      show e.outb.tcp_head_seq + 1 + cnt ≤ e.outb.out_head_seq
      omega

theorem usable_window_le (h : OutInv e.view) :
    e.view.tcp + usable_window env e.outb ≤ e.view.head := by
  have hle : e.outb.tcp_head_seq ≤ e.outb.out_head_seq := h.tcp_le
  show e.outb.tcp_head_seq + usable_window env e.outb ≤ e.outb.out_head_seq
  unfold usable_window
  omega

theorem forward_intru_tol_data_run (m : SysScatter) (e : LinkEnd) (h : OutInv e.view) :
    OutRun e.view (forward_intru_tol_data cf env m e).2.view := by
  unfold forward_intru_tol_data
  split
  · exact .refl
  · dsimp only
    -- taking the message on does not show in the view
    have hpack := pack_fragments_run cf env
      { e with
        outb.out_message := some m
        outb.out_frag_idx := 1
        outb.out_frag_total := (m.num_elements - 1) % 256 }
    split
    · exact hpack
    · have hinv := hpack.outInv h
      exact hpack.trans (send_new_run cf env true _ _ hinv (usable_window_le env _ hinv))

theorem forward_all_run (ms : List SysScatter) :
    ∀ e : LinkEnd, OutInv e.view → OutRun e.view (forward_all cf env ms e).view := by
  induction ms with
  | nil => intro e _; exact .refl
  | cons m ms ih =>
    intro e h
    have hone := forward_intru_tol_data_run cf env m e h
    exact hone.trans (ih _ (hone.outInv h))

theorem assign_resources_it_run (rounds : List (List SysScatter)) :
    ∀ e : LinkEnd, OutInv e.view → OutRun e.view (assign_resources_it cf env rounds e).view := by
  induction rounds with
  | nil => intro e _; exact .refl
  | cons ms rest ih =>
    intro e h
    unfold assign_resources_it
    split
    · exact .refl
    · have hone := forward_all_run cf env ms e h
      exact hone.trans (ih _ (hone.outInv h))

/-! ## Timeouts -/

theorem touch_view (hc : c.pkt = (e.outb.outgoing i).pkt) :
    ({ e with outb.outgoing := update e.outb.outgoing i c } : LinkEnd).view = e.view := by
  simp only [LinkEnd.view]
  congr 1
  exact cells_update_same _ _ _ hc

theorem touch_send_run (cf : Conf) (env : Env) (e : LinkEnd) (i : ℕ) (c : ItBufferCell)
    (hc : c.pkt = (e.outb.outgoing i).pkt) (seq : ℕ) (h1 : e.view.tail ≤ seq)
    (h2 : seq < e.view.tcp) :
    let e' := (send_it_data_msg cf env seq
      { e with outb.outgoing := update e.outb.outgoing i c }).2
    OutRun e.view e'.view ∧ e'.view.tail = e.view.tail ∧ e'.view.tcp = e.view.tcp := by
  have htouch := touch_view e i c hc
  have hout := send_it_data_msg_outb cf env seq
    { e with outb.outgoing := update e.outb.outgoing i c }
  refine ⟨?_, ?_, ?_⟩
  · rw [← htouch]
    exact send_it_data_msg_run cf env seq _ h1 h2
  · simp only [LinkEnd.view, hout]
  · simp only [LinkEnd.view, hout]

theorem retransm_loop_run : ∀ (i budget : ℕ) (e : LinkEnd), e.view.tail ≤ i → i + cnt ≤ e.view.tcp →
      OutRun e.view (retransm_loop cf env cnt i budget e).view := by
  induction cnt with
  | zero =>
    intro i budget e _ _
    rw [retransm_loop]
    exact .refl
  | succ cnt ih =>
    intro i budget e h1 h2
    cases budget with
    | zero =>
      rw [retransm_loop]
      · exact .refl
      · omega
    | succ budget =>
      rw [retransm_loop]
      split
      · obtain ⟨hrun, htail, htcp⟩ := touch_send_run cf env e (i % MAX_SEND_ON_LINK)
          { e.outb.outgoing (i % MAX_SEND_ON_LINK) with
            resent := true, nacked := false, timestamp := env.now + env.nack_timeout } rfl i
          h1 (by omega)
        exact hrun.trans (ih (i + 1) budget _ (by rw [htail]; omega) (by rw [htcp]; omega))
      · exact ih (i + 1) (budget + 1) e (Nat.le_succ_of_le h1) (by omega)

theorem handle_it_retransm_run (h : OutInv e.view) :
    OutRun e.view (handle_it_retransm cf env e).view := by
  have htail : e.outb.out_tail_seq ≤ e.outb.tcp_head_seq := h.tail_le
  refine retransm_loop_run cf env _ _ _ e (le_refl _) ?_
  show e.outb.out_tail_seq + (e.outb.tcp_head_seq - e.outb.out_tail_seq) ≤ e.outb.tcp_head_seq
  omega

theorem reliable_it_timeout_run : OutRun e.view (reliable_it_timeout cf env e).view := by
  unfold reliable_it_timeout
  by_cases hlt : e.outb.out_tail_seq < e.outb.tcp_head_seq
  · rw [if_pos hlt]
    refine (touch_send_run cf env e ((e.outb.tcp_head_seq - 1) % MAX_SEND_ON_LINK)
      { e.outb.outgoing ((e.outb.tcp_head_seq - 1) % MAX_SEND_ON_LINK) with
        resent := true, timestamp := env.now + env.nack_timeout } rfl
      (e.outb.tcp_head_seq - 1) ?_ ?_).1
    · show e.outb.out_tail_seq ≤ e.outb.tcp_head_seq - 1
      omega
    · show e.outb.tcp_head_seq - 1 < e.outb.tcp_head_seq
      omega
  · rw [if_neg hlt]
    exact .refl

theorem ack_it_timeout_run : OutRun e.view (ack_it_timeout cf env e).view := by
  unfold ack_it_timeout
  split
  · exact .refl
  · exact send_it_ack_run cf env e

/-! ## The three parts of `Process_IT_Ack` -/

theorem cleanup_loop_cells : ∀ (i : ℕ) (outgoing : ℕ → ItBufferCell),
    (fun k => (cleanup_loop cnt i outgoing k).pkt.map List.flatten)
      = fillRange MAX_SEND_ON_LINK none i cnt (fun k => (outgoing k).pkt.map List.flatten) := by
  induction cnt with
  | zero => intro i outgoing; rfl
  | succ cnt ih =>
    intro i outgoing
    rw [cleanup_loop, ih, fillRange, cells_update, map_none]

theorem release_view (aru : ℕ) (e : LinkEnd) : (release aru e).view = e.view.release aru := by
  simp only [release, LinkEnd.view, Proto.release, cleanup_loop_cells]

theorem check_advertised_aru_spec (e : LinkEnd) (h : OutInv e.view) :
    check_advertised_aru cf env p e = none ∨
    ∃ e1, check_advertised_aru cf env p e = some e1 ∧
      (e1 = e ∨ (Accepts e.view p ∧ OutRun (e.view.release p.tail.aru) e1.view)) := by
  unfold check_advertised_aru
  by_cases hrange : e.outb.out_tail_seq ≤ p.tail.aru ∧ p.tail.aru < e.outb.tcp_head_seq
  · rw [if_pos hrange]
    by_cases hnonce : p.tail.aru_nonce ≠ e.outb.out_nonce_digest (p.tail.aru % MAX_SEND_ON_LINK)
    · left
      rw [if_pos hnonce]
    · right
      rw [if_neg hnonce]
      have hacc : Accepts e.view p := ⟨hrange.1, hrange.2, not_not.mp hnonce⟩
      refine ⟨_, rfl, .inr ⟨hacc, ?_⟩⟩
      have hinv : OutInv (release p.tail.aru e).view := by
        rw [release_view]
        exact h.release _ hrange.1 hrange.2
      rw [← release_view]
      have hnew := send_new_run cf env false _ _ hinv (usable_window_le env _ hinv)
      have hpack := pack_or_drop_run cf env (send_new cf env false
        (usable_window env (release p.tail.aru e).outb) (release p.tail.aru e))
      have hboth : OutRun _ _ := hnew.trans hpack
      exact hboth.trans (assign_resources_it_run cf env _ _ (hboth.outInv hinv))
  · right
    rw [if_neg hrange]
    exact ⟨e, rfl, .inl rfl⟩

theorem mark_nacked_view (nack_seq : ℕ) : (mark_nacked e nack_seq).view = e.view := by
  unfold mark_nacked
  split
  · exact touch_view e _ _ rfl
  · rfl

theorem mark_all_view (nacks : List ℕ) :
    ∀ e : LinkEnd, (nacks.foldl mark_nacked e).view = e.view := by
  induction nacks with
  | nil => intro e; rfl
  | cons n nacks ih =>
    intro e
    rw [foldl_cons, ih, mark_nacked_view]

theorem check_nack_requests_spec (e : LinkEnd) (h : OutInv e.view) :
    check_nack_requests cf env p e = none ∨
    ∃ e1, check_nack_requests cf env p e = some e1 ∧ OutRun e.view e1.view := by
  unfold check_nack_requests
  by_cases hlen : SIZEOF_PKT_TAIL < p.ack_len
  · rw [if_pos hlen]
    by_cases hmany : SIZEOF_PACKET_BODY < p.ack_len - SIZEOF_PKT_TAIL
    · left
      rw [if_pos hmany]
    · right
      rw [if_neg hmany]
      refine ⟨_, rfl, ?_⟩
      have hmark := mark_all_view (p.nacks.take ((p.ack_len - SIZEOF_PKT_TAIL) / 8)) e
      split
      · rw [hmark]
        exact .refl
      · have hrun := handle_it_retransm_run cf env
          ((p.nacks.take ((p.ack_len - SIZEOF_PKT_TAIL) / 8)).foldl mark_nacked e)
          (by rw [hmark]; exact h)
        rw [hmark] at hrun
        exact hrun
  · right
    rw [if_neg hlen]
    exact ⟨e, rfl, .refl⟩

theorem gap_loop_flags (expire cnt : ℕ) : ∀ (temp : ℕ) (incoming : ℕ → ItRecvCell),
    (fun k => (gap_loop expire cnt temp incoming k).flags)
      = fillRange MAX_SEND_ON_LINK .nack temp cnt (fun k => (incoming k).flags) := by
  induction cnt with
  | zero => intro temp incoming; rfl
  | succ cnt ih =>
    intro temp incoming
    rw [gap_loop, ih, fillRange]
    congr 1
    funext k
    by_cases hk : k = temp % MAX_SEND_ON_LINK
    · rw [hk, update_self, update_self]
    · rw [update_of_ne hk, update_of_ne hk]

theorem gap_loop_pkt (expire cnt : ℕ) : ∀ (temp : ℕ) (incoming : ℕ → ItRecvCell) (k : ℕ),
    (gap_loop expire cnt temp incoming k).pkt = (incoming k).pkt := by
  induction cnt with
  | zero => intro temp incoming k; rfl
  | succ cnt ih =>
    intro temp incoming k
    rw [gap_loop, ih]
    by_cases hk : k = temp % MAX_SEND_ON_LINK
    · rw [hk, update_self]
    · rw [update_of_ne hk]

theorem store_packet_view (e : LinkEnd) : (store_packet env p e).view = e.view.store p := by
  have hflags : ∀ c : ItRecvCell, (fun k => (update e.inb.incoming
      (p.tail.link_seq % MAX_SEND_ON_LINK) c k).flags)
      = update (fun k => (e.inb.incoming k).flags)
          (p.tail.link_seq % MAX_SEND_ON_LINK) c.flags := fun c =>
    Function.comp_update ItRecvCell.flags e.inb.incoming _ c
  have hpkts : ∀ c : ItRecvCell, (fun k => (update e.inb.incoming
      (p.tail.link_seq % MAX_SEND_ON_LINK) c k).pkt)
      = update (fun k => (e.inb.incoming k).pkt)
          (p.tail.link_seq % MAX_SEND_ON_LINK) c.pkt := fun c =>
    Function.comp_update ItRecvCell.pkt e.inb.incoming _ c
  by_cases hhead : e.inb.in_head_seq ≤ p.tail.link_seq
  · simp only [store_packet, LinkEnd.view, Proto.store, hhead, if_true, gap_loop_flags,
      gap_loop_pkt, hflags, hpkts]
  · simp only [store_packet, LinkEnd.view, Proto.store, hhead, if_false, hflags, hpkts]

theorem deliver_unordered_run (e : LinkEnd) (h : OutInv e.view) :
    OutRun e.view (deliver_unordered cf env p e).view := by
  unfold deliver_unordered
  split
  · dsimp only
    split
    · exact .refl
    · split
      · exact .refl
      · exact forward_all_run cf env (env.deliver p.tail.link_seq)
          { e with delivered := e.delivered ++
            [(build_message_from_fragments_it WorkingMsg.fresh p.data).2.body] } h
  · exact .refl

theorem consume_view : (consume e).view = e.view.consume := rfl

theorem free_cell_view (e : LinkEnd) : (free_cell i e).view = e.view.free i := by
  have hflags : ∀ c : ItRecvCell, (fun k => (update e.inb.incoming i c k).flags)
      = update (fun k => (e.inb.incoming k).flags) i c.flags := fun c =>
    Function.comp_update ItRecvCell.flags e.inb.incoming i c
  have hpkts : ∀ c : ItRecvCell, (fun k => (update e.inb.incoming i c k).pkt)
      = update (fun k => (e.inb.incoming k).pkt) i c.pkt := fun c =>
    Function.comp_update ItRecvCell.pkt e.inb.incoming i c
  simp only [free_cell, LinkEnd.view, Proto.free, hflags, hpkts]

theorem rebuild_run (buff : Bytes) (e : LinkEnd) (h : OutInv e.view) :
    OutRun e.view (rebuild cf env seq buff e).view := by
  unfold rebuild
  dsimp only
  split
  · exact forward_all_run cf env (env.deliver seq)
      { e with
        inb.in_message := (build_message_from_fragments_it e.inb.in_message buff).2
        delivered := e.delivered ++
          [(build_message_from_fragments_it e.inb.in_message buff).2.body] } h
  · exact .refl

theorem drain_one_run (h : EndInv e.view) (hd : e.view.draining = false)
    (hrec : e.view.flags (e.view.in_tail % MAX_SEND_ON_LINK) = .recvd) :
    DrainRun e.view (drain_one cf env e).view ∧ (drain_one cf env e).view.draining = false ∧
      (drain_one cf env e).view.in_tail = e.view.in_tail + 1 ∧
      (drain_one cf env e).view.in_head = e.view.in_head := by
  have hcons : DrainStep e.view (consume e).view := by
    rw [consume_view]
    exact DrainStep.consume hd hrec
  have hinv := (hcons.endInv h).1
  -- what happens between taking the packet out and freeing its cell
  obtain ⟨e2, he2⟩ : ∃ e2, e2 =
      (if cf.ordered_delivery = true ∨ 1 < last_frag_total env.garbage
          ((e.inb.incoming (e.inb.in_tail_seq % MAX_SEND_ON_LINK)).pkt.getD []) then
        rebuild cf env e.inb.in_tail_seq
          ((e.inb.incoming (e.inb.in_tail_seq % MAX_SEND_ON_LINK)).pkt.getD []) (consume e)
      else consume e) := ⟨_, rfl⟩
  have hmid : OutRun (consume e).view e2.view := by
    rw [he2]
    split
    · exact rebuild_run cf env _ _ _ hinv
    · exact .refl
  have hsame := hmid.sameIn
  have htail2 : e2.view.in_tail = e.view.in_tail + 1 := hsame.in_tail
  have hd2 : e2.view.draining = true := hsame.draining
  have hone : drain_one cf env e = free_cell (e.inb.in_tail_seq % MAX_SEND_ON_LINK) e2 := by
    rw [he2]; rfl
  have hview : (drain_one cf env e).view
      = e2.view.free ((e2.view.in_tail - 1) % MAX_SEND_ON_LINK) := by
    rw [hone, free_cell_view, htail2]
    rfl
  rw [hview]
  refine ⟨?_, rfl, htail2, hsame.in_head⟩
  exact .head hcons (hmid.drainRun.tail (DrainStep.free hd2))

def TailOpen (σ : Proto) : Prop :=
  σ.draining = false ∧ σ.flags (σ.in_tail % MAX_SEND_ON_LINK) ≠ .recvd

/-- The in-order loop, with fuel for the whole window, ends with an open tail
cell. The induction is on the number of cells in the window. -/
theorem drain_loop_run (n : ℕ) :
    ∀ (fuel : ℕ) (e : LinkEnd), EndInv e.view → e.view.draining = false →
      e.view.in_head ≤ e.view.in_tail + n → n ≤ fuel →
      DrainRun e.view (drain_loop cf env fuel e).view ∧
        TailOpen (drain_loop cf env fuel e).view := by
  induction n with
  | zero =>
    intro fuel e h hd hn _
    have hopen : (e.inb.incoming (e.inb.in_tail_seq % MAX_SEND_ON_LINK)).flags ≠ .recvd := by
      intro hrec
      have := h.2.tail_lt hd hrec
      omega
    cases fuel with
    | zero => exact ⟨.refl, hd, hopen⟩
    | succ fuel =>
      rw [drain_loop, if_neg hopen]
      exact ⟨.refl, hd, hopen⟩
  | succ n ih =>
    intro fuel e h hd hn hfuel
    obtain ⟨fuel, rfl⟩ : ∃ f, fuel = f + 1 := ⟨fuel - 1, by omega⟩
    rw [drain_loop]
    by_cases hrec : (e.inb.incoming (e.inb.in_tail_seq % MAX_SEND_ON_LINK)).flags = .recvd
    · rw [if_pos hrec]
      obtain ⟨hrun, hd', htail, hhead⟩ := drain_one_run cf env e h hd hrec
      obtain ⟨hrest, hopen⟩ := ih fuel (drain_one cf env e) (hrun.pRun (r := none) |>.endInv h) hd'
        (by rw [htail, hhead]; omega) (by omega)
      exact ⟨hrun.trans hrest, hopen⟩
    · rw [if_neg hrec]
      exact ⟨.refl, hd, hrec⟩

theorem check_link_seq_spec (e : LinkEnd) (h : EndInv e.view) (hd : e.view.draining = false) :
    (check_link_seq cf env p e).2.view = e.view ∨
    (Storable e.view p ∧ DrainRun (e.view.store p) (check_link_seq cf env p e).2.view ∧
      TailOpen (check_link_seq cf env p e).2.view) := by
  unfold check_link_seq
  by_cases hzero : p.tail.link_seq = 0
  · rw [if_pos hzero]
    exact .inl rfl
  rw [if_neg hzero]
  by_cases hold : p.tail.link_seq < e.inb.in_tail_seq
  · rw [if_pos hold]
    exact .inl rfl
  rw [if_neg hold]
  by_cases hfar : e.inb.in_tail_seq + MAX_SEND_ON_LINK ≤ p.tail.link_seq
  · rw [if_pos hfar]
    exact .inl rfl
  rw [if_neg hfar]
  by_cases hdup : (e.inb.incoming (p.tail.link_seq % MAX_SEND_ON_LINK)).flags = .recvd
  · rw [if_pos hdup]
    exact .inl rfl
  rw [if_neg hdup]
  right
  have hst : Storable e.view p := ⟨by omega, not_lt.mp hold, not_le.mp hfar, hdup⟩
  have hview := store_packet_view env p
    { e with inb.incoming_msg_count := e.inb.incoming_msg_count + 1 }
  -- counting the message does not show in the view
  change _ = e.view.store p at hview
  have hstep : PStep (some p) e.view (e.view.store p) := PStep.store p rfl hst hd
  have hinv : EndInv (e.view.store p) := hstep.endInv h
  have hdel := deliver_unordered_run cf env p
    (store_packet env p { e with inb.incoming_msg_count := e.inb.incoming_msg_count + 1 })
    (by rw [hview]; exact hinv.1)
  rw [hview] at hdel
  have hinv' := (hdel.pRun (r := none)).endInv hinv
  have hd' : (deliver_unordered cf env p
      (store_packet env p { e with inb.incoming_msg_count := e.inb.incoming_msg_count + 1 })).view.draining
        = false := hdel.sameIn.draining.trans hd
  obtain ⟨hrun, hopen⟩ := drain_loop_run cf env MAX_SEND_ON_LINK MAX_SEND_ON_LINK _ hinv' hd'
    hinv'.2.head_le (le_refl _)
  exact ⟨hst, hdel.drainRun.trans hrun, hopen⟩

/-- **`Process_IT_Ack` in protocol steps.** `σ1` is the state after the
acknowledgement, `σ2` the one after the retransmissions. -/
theorem process_it_ack_spec (e : LinkEnd) (h : EndInv e.view) (hd : e.view.draining = false) :
    ∃ σ1 σ2, (σ1 = e.view ∨ (Accepts e.view p ∧ OutRun (e.view.release p.tail.aru) σ1)) ∧
      OutRun σ1 σ2 ∧
      ((process_it_ack cf env p e).2.view = σ2 ∨
        (Storable σ2 p ∧ DrainRun (σ2.store p) (process_it_ack cf env p e).2.view ∧
          TailOpen (process_it_ack cf env p e).2.view)) := by
  unfold process_it_ack
  by_cases hsize : p.ack_len < SIZEOF_PKT_TAIL ∨ (p.ack_len - SIZEOF_PKT_TAIL) % 8 ≠ 0
  · rw [if_pos hsize]
    exact ⟨e.view, e.view, .inl rfl, .refl, .inl rfl⟩
  rw [if_neg hsize]
  rcases check_advertised_aru_spec cf env p e h.1 with hnone | ⟨e1, hsome, hcase⟩
  · rw [hnone]
    exact ⟨e.view, e.view, .inl rfl, .refl, .inl rfl⟩
  rw [hsome]
  dsimp only
  have hfirst : e1.view = e.view ∨
      (Accepts e.view p ∧ OutRun (e.view.release p.tail.aru) e1.view) := by
    rcases hcase with rfl | hacc
    · exact .inl rfl
    · exact .inr hacc
  -- both windows and the flag of the in-order loop survive part (1)
  have hinv1 : EndInv e1.view ∧ e1.view.draining = false := by
    rcases hfirst with heq | ⟨hacc, hrun⟩
    · rw [heq]
      exact ⟨h, hd⟩
    · have hrel : EndInv (e.view.release p.tail.aru) :=
        ⟨h.1.release _ hacc.1 hacc.2.1, h.2.release _⟩
      exact ⟨(hrun.pRun (r := none)).endInv hrel, hrun.sameIn.draining.trans hd⟩
  rcases check_nack_requests_spec cf env p e1 hinv1.1.1 with hnone | ⟨e2, hsome2, hrun2⟩
  · rw [hnone]
    exact ⟨e1.view, e1.view, hfirst, .refl, .inl rfl⟩
  rw [hsome2]
  dsimp only
  have hinv2 := (hrun2.pRun (r := none)).endInv hinv1.1
  exact ⟨e1.view, e2.view, hfirst, hrun2,
    check_link_seq_spec cf env p e2 hinv2 (hrun2.sameIn.draining.trans hinv1.2)⟩

/-- In particular it is a run of the protocol, and it moves the tail of the
outgoing window only by accepting the packet's acknowledgement. -/
theorem process_it_ack_run (e : LinkEnd) (h : EndInv e.view) (hopen : TailOpen e.view) :
    PRun (some p) e.view (process_it_ack cf env p e).2.view ∧
      TailOpen (process_it_ack cf env p e).2.view ∧
      ((process_it_ack cf env p e).2.view.tail = e.view.tail ∨
        (Accepts e.view p ∧ (process_it_ack cf env p e).2.view.tail = p.tail.aru + 1)) := by
  obtain ⟨σ1, σ2, hfirst, hrun2, hlast⟩ := process_it_ack_spec cf env p e h hopen.1
  have hrun1 : PRun (some p) e.view σ1 := by
    rcases hfirst with rfl | ⟨hacc, hrun⟩
    · exact .refl
    · exact .head (PStep.release p rfl hacc) hrun.pRun
  have hsame1 : SameIn e.view σ1 := by
    rcases hfirst with rfl | ⟨hacc, hrun⟩
    · exact SameIn.refl _
    · have h' := hrun.sameIn
      exact ⟨h'.flags, h'.pkts, h'.in_nonces, h'.aru_digest, h'.in_head, h'.in_tail, h'.my,
        h'.ngbr, h'.draining, h'.consumed_now, h'.stored_now, h'.consumed⟩
  have htail1 : σ1.tail = e.view.tail ∨ (Accepts e.view p ∧ σ1.tail = p.tail.aru + 1) := by
    rcases hfirst with rfl | ⟨hacc, hrun⟩
    · exact .inl rfl
    · exact .inr ⟨hacc, hrun.drainRun.tail_eq⟩
  have hsame2 := hrun2.sameIn
  have htail2 := hrun2.drainRun.tail_eq
  rcases hlast with heq | ⟨hst, hdrain, hopen'⟩
  · rw [heq]
    refine ⟨hrun1.trans hrun2.pRun, ?_, by rw [htail2]; exact htail1⟩
    unfold TailOpen
    rw [hsame2.draining, hsame2.flags, hsame2.in_tail, hsame1.draining, hsame1.flags,
      hsame1.in_tail]
    exact hopen
  · refine ⟨?_, hopen', ?_⟩
    · have hd2 : σ2.draining = false := by
        rw [hsame2.draining, hsame1.draining]
        exact hopen.1
      exact (hrun1.trans hrun2.pRun).trans
        (.head (PStep.store p rfl hst hd2) hdrain.pRun)
    · rw [hdrain.tail_eq]
      change σ2.tail = _ ∨ (_ ∧ σ2.tail = _)
      rw [htail2]
      exact htail1

/-! ## Incarnation changes -/

theorem empty_loop_keep : ∀ (i : ℕ) (incoming : ℕ → ItRecvCell) (k : ℕ),
    (incoming k).flags = .empty ∧ (incoming k).pkt = none →
    (empty_loop cnt i incoming k).flags = .empty ∧ (empty_loop cnt i incoming k).pkt = none := by
  induction cnt with
  | zero => intro i incoming k h; exact h
  | succ cnt ih =>
    intro i incoming k h
    rw [empty_loop]
    refine ih (i + 1) _ k ?_
    by_cases hk : k = i % MAX_SEND_ON_LINK
    · rw [← hk, update_self]
      rw [h.2]
      exact ⟨rfl, ite_self _⟩
    · rw [update_of_ne hk]
      exact h

theorem empty_loop_mem : ∀ (i : ℕ) (incoming : ℕ → ItRecvCell) (q : ℕ), i ≤ q →
    q < i + cnt → ((incoming (q % MAX_SEND_ON_LINK)).flags = .recvd ∨
      (incoming (q % MAX_SEND_ON_LINK)).pkt = none) →
    (empty_loop cnt i incoming (q % MAX_SEND_ON_LINK)).flags = .empty ∧
      (empty_loop cnt i incoming (q % MAX_SEND_ON_LINK)).pkt = none := by
  induction cnt with
  | zero => intro i incoming q h1 h2; omega
  | succ cnt ih =>
    intro i incoming q h1 h2 hcell
    rw [empty_loop]
    by_cases hslot : q % MAX_SEND_ON_LINK = i % MAX_SEND_ON_LINK
    · apply empty_loop_keep
      rw [← hslot, update_self]
      refine ⟨rfl, ?_⟩
      by_cases hrec : (incoming (q % MAX_SEND_ON_LINK)).flags = .recvd
      · rw [if_pos hrec]
      · rw [if_neg hrec]
        exact hcell.resolve_left hrec
    · refine ih (i + 1) _ q ?_ (by omega) ?_
      · have : q ≠ i := fun heq => hslot (by rw [heq])
        omega
      · rw [update_of_ne hslot]
        exact hcell

theorem reset_cells (h : InInv e.view) (hd : e.view.draining = false) (k : ℕ)
    (hk : k < MAX_SEND_ON_LINK) :
    let r := empty_loop (e.inb.in_head_seq - e.inb.in_tail_seq) e.inb.in_tail_seq e.inb.incoming
    (r k).flags = .empty ∧ (r k).pkt = none := by
  have hle : e.inb.in_tail_seq ≤ e.inb.in_head_seq := h.le
  obtain ⟨q, hq1, hq2, rfl⟩ := exists_slot e.inb.in_tail_seq k hk
  by_cases hin : q < e.inb.in_head_seq
  · refine empty_loop_mem _ _ _ q hq1 (by omega) ?_
    rcases h.window q hq1 hin with ⟨hrec, -⟩ | ⟨-, hnone⟩
    · exact .inl hrec
    · exact .inr hnone
  · refine empty_loop_keep _ _ _ _ ?_
    exact h.outside q (not_lt.mp hin) hq2 (fun hdr => by rw [hd] at hdr; exact absurd hdr Bool.false_ne_true)

theorem log_at_nil (h : ℕ → ℕ → List LinkEntry) (a b : ℕ) : log_at h a b [] = h := by
  funext a' b'
  unfold log_at
  split
  · rename_i heq
    rw [append_nil, heq.1, heq.2]
  · rfl

theorem reset_base (e : LinkEnd) : (reset_inbound cf env inc e).outb.out_nonce_digest 0 = 0 := by
  simp only [reset_inbound, update_self]

theorem drop_outbound_changed (e : LinkEnd) (h : InInv e.view) (hd : e.view.draining = false) :
    Changed e.view (drop_outbound (reset_inbound cf env inc e)).view inc [] where
  my := rfl
  ngbr := rfl
  sent := rfl
  in_tail := rfl
  in_head := rfl
  aru_digest := rfl
  draining := hd
  flags := fun k hk => (reset_cells e h hd k hk).1
  pkts := fun k hk => (reset_cells e h hd k hk).2
  consumed_now := rfl
  stored_now := rfl
  consumed := rfl
  packed_now := rfl
  packed := (log_at_nil _ _ _).symm
  tail := rfl
  head := rfl
  tcp := ⟨Nat.le_refl _, Nat.le_refl _⟩
  len := Nat.zero_le _
  seqs := rfl
  cell := by
    intro s h1 h2
    change s < 1 at h2
    omega
  digest := by
    intro s h1 _
    change s < 1 at h1
    obtain rfl : s = 0 := by omega
    exact reset_base cf env inc e

structure Reintroduced (env : Env) (old : ℕ → ItBufferCell) (base i : ℕ) (o : Outbound) : Prop where
  pkt : ∀ s, 1 ≤ s → s < i → (o.outgoing (s % MAX_SEND_ON_LINK)).pkt
    = (old ((base + (s - 1)) % MAX_SEND_ON_LINK)).pkt
  nonce : ∀ s, 1 ≤ s → s < i → o.out_nonce (s % MAX_SEND_ON_LINK) = env.nonce s
  digest : ∀ s, s < i → i ≤ s + MAX_SEND_ON_LINK →
    o.out_nonce_digest (s % MAX_SEND_ON_LINK) = digest ((range' 1 s).map env.nonce)

theorem reintroduce_loop_spec (old : ℕ → ItBufferCell) (base cnt : ℕ) :
    ∀ (i : ℕ) (o : Outbound), 1 ≤ i → i + cnt ≤ MAX_SEND_ON_LINK + 1 →
      Reintroduced env old base i o →
      Reintroduced env old base (i + cnt) (reintroduce_loop env old base cnt i o) := by
  induction cnt with
  | zero => intro i o _ _ h; exact h
  | succ cnt ih =>
    intro i o h1 h2 h
    rw [reintroduce_loop, show i + (cnt + 1) = i + 1 + cnt by omega]
    refine ih (i + 1) _ (by omega) (by omega) ⟨?_, ?_, ?_⟩
    · intro s hs1 hs2
      dsimp only
      by_cases hs : s = i
      · rw [hs, update_self]
      · rw [update_slot_ne _ _ hs1 (by omega) h1 (by omega) hs]
        exact h.pkt s hs1 (by omega)
    · intro s hs1 hs2
      dsimp only
      by_cases hs : s = i
      · rw [hs, update_self]
      · rw [update_slot_ne _ _ hs1 (by omega) h1 (by omega) hs]
        exact h.nonce s hs1 (by omega)
    · intro s hs1 hs2
      dsimp only
      by_cases hs : s = i
      · have hprev := h.digest (i - 1) (by omega) (by simp only [MAX_SEND_ON_LINK]; omega)
        rw [hs, update_self, hprev]
        conv_rhs => rw [show i = (i - 1) + 1 by omega, range'_1_concat, map_append,
          map_singleton, digest_concat, show 1 + (i - 1) = i by omega]
        rw [BitVec.xor_comm]
      · rw [update_slot_ne _ _ (le_refl s)
          (by simp only [MAX_SEND_ON_LINK]; omega) (by omega) (by omega) hs]
        exact h.digest s (by omega) (by omega)

def reintroduced (env : Env) (e : LinkEnd) : LinkEnd :=
  let o := e.outb
  let skipped := skipped_pkts env.garbage o.outgoing (o.out_head_seq - o.out_tail_seq) o.out_tail_seq
  let base := o.out_tail_seq + skipped
  let cnt := o.out_head_seq - base
  let old := cleanup_loop skipped o.out_tail_seq o.outgoing
  let entries := (range' 1 cnt).map (fun i =>
    (⟨i, ((old ((base + (i - 1)) % MAX_SEND_ON_LINK)).pkt.getD []).flatten, env.nonce i⟩ : LinkEntry))
  { e with
    outb := { reintroduce_loop env old base cnt 1 { o with outgoing := old } with
      tcp_head_seq := min (LINK_START_SEQ + 1) (cnt + LINK_START_SEQ)
      out_head_seq := cnt + LINK_START_SEQ
      out_tail_seq := LINK_START_SEQ }
    packed_now := e.packed_now ++ entries
    packed := log_at e.packed e.ngbr_incarnation e.my_incarnation entries }

theorem reintroduce_eq : reintroduce cf env e = pack_or_drop cf env (reintroduced env e) := rfl

theorem reintroduced_changed (e : LinkEnd) (ho : OutInv e.view) (h : InInv e.view)
    (hd : e.view.draining = false) :
    ∃ entries, Changed e.view (reintroduced env (reset_inbound cf env inc e)).view inc entries := by
  obtain ⟨skipped, hskip⟩ : ∃ k, k = skipped_pkts env.garbage e.outb.outgoing
      (e.outb.out_head_seq - e.outb.out_tail_seq) e.outb.out_tail_seq := ⟨_, rfl⟩
  obtain ⟨base, hbase⟩ : ∃ b, b = e.outb.out_tail_seq + skipped := ⟨_, rfl⟩
  obtain ⟨cnt, hcnt⟩ : ∃ c, c = e.outb.out_head_seq - base := ⟨_, rfl⟩
  obtain ⟨old, hold⟩ : ∃ f, f = cleanup_loop skipped e.outb.out_tail_seq e.outb.outgoing :=
    ⟨_, rfl⟩
  obtain ⟨entries, hentries⟩ : ∃ l, l = (range' 1 cnt).map (fun i =>
      (⟨i, ((old ((base + (i - 1)) % MAX_SEND_ON_LINK)).pkt.getD []).flatten, env.nonce i⟩ :
        LinkEntry)) := ⟨_, rfl⟩
  have hhead_le : e.outb.out_head_seq ≤ e.outb.out_tail_seq + MAX_SEND_ON_LINK := ho.head_le
  have htail_le : e.outb.out_tail_seq ≤ e.outb.out_head_seq := ho.tail_le.trans ho.tcp_le
  have hcnt_le : cnt ≤ MAX_SEND_ON_LINK := by omega
  -- the packets that stay were not cleaned up with the ones skipped
  have holdcell : ∀ q, base ≤ q → q < e.outb.out_head_seq →
      ∃ elems, (old (q % MAX_SEND_ON_LINK)).pkt = some elems := by
    intro q hq1 hq2
    obtain ⟨x, -, -, hcell, -⟩ := ho.cell q (show e.outb.out_tail_seq ≤ q by omega) hq2
    have hcells := congrFun (cleanup_loop_cells skipped e.outb.out_tail_seq e.outb.outgoing)
      (q % MAX_SEND_ON_LINK)
    rw [fillRange_other _ _ _ _ _ _ (fun r hr1 hr2 => slot_ne hr1 (by omega)
      (show e.outb.out_tail_seq ≤ q by omega) (by omega) (by omega))] at hcells
    rw [hold]
    change (_ : Option Bytes) = e.view.cells _ at hcells
    rw [hcell] at hcells
    cases hp : (cleanup_loop skipped e.outb.out_tail_seq e.outb.outgoing
        (q % MAX_SEND_ON_LINK)).pkt with
    | none => rw [hp] at hcells; exact absurd hcells (by simp)
    | some elems => exact ⟨elems, rfl⟩
  have hloop : Reintroduced env old base (1 + cnt) (reintroduce_loop env old base cnt 1
      { (reset_inbound cf env inc e).outb with outgoing := old }) := by
    refine reintroduce_loop_spec env old base cnt 1 _ (le_refl _) (by omega) ⟨?_, ?_, ?_⟩
    · intro s hs1 hs2; omega
    · intro s hs1 hs2; omega
    · intro s hs1 _
      obtain rfl : s = 0 := by omega
      exact reset_base cf env inc e
  have hstate : reintroduced env (reset_inbound cf env inc e) =
      { reset_inbound cf env inc e with
        outb := { reintroduce_loop env old base cnt 1
            { (reset_inbound cf env inc e).outb with outgoing := old } with
          tcp_head_seq := min (LINK_START_SEQ + 1) (cnt + LINK_START_SEQ)
          out_head_seq := cnt + LINK_START_SEQ
          out_tail_seq := LINK_START_SEQ }
        packed_now := entries
        packed := log_at e.packed inc e.my_incarnation entries } := by
    rw [hentries, hold, hcnt, hbase, hskip]
    rfl
  refine ⟨entries, ?_⟩
  have hlen : entries.length = cnt := by
    rw [hentries, length_map, length_range']
  have hnonces : ∀ s, s ≤ cnt → (entries.take s).map LinkEntry.nonce
      = (range' 1 s).map env.nonce := by
    intro s hs
    rw [hentries, ← map_take, List.map_map, take_range'_of_length_ge hs]
    rfl
  rw [hstate]
  constructor
  case my => rfl
  case ngbr => rfl
  case sent => rfl
  case in_tail => rfl
  case in_head => rfl
  case aru_digest => rfl
  case draining => exact hd
  case flags => exact fun k hk => (reset_cells e h hd k hk).1
  case pkts => exact fun k hk => (reset_cells e h hd k hk).2
  case consumed_now => rfl
  case stored_now => rfl
  case consumed => rfl
  case packed_now => rfl
  case packed => rfl
  case tail => rfl
  case head => rw [hlen]; rfl
  case tcp =>
    show 1 ≤ min (1 + 1) (cnt + 1) ∧ min (1 + 1) (cnt + 1) ≤ cnt + 1
    omega
  case len => rw [hlen]; exact hcnt_le
  case seqs =>
    rw [hlen, hentries, List.map_map]
    exact List.map_id _
  case cell =>
    intro s hs1 hs2
    change s < cnt + 1 at hs2
    obtain ⟨elems, helems⟩ := holdcell (base + (s - 1)) (by omega) (by omega)
    refine ⟨⟨s, elems.flatten, env.nonce s⟩, ?_, rfl, ?_, hloop.nonce s hs1 (by omega)⟩
    · rw [hentries, List.getElem?_map, List.getElem?_range' (by omega), map_some,
        show 1 + 1 * (s - 1) = s by omega, helems]
      rfl
    · show Option.map List.flatten (_ : ItBufferCell).pkt = _
      rw [hloop.pkt s hs1 (by omega), helems]
      rfl
  case digest =>
    intro s hs1 hs2
    change s < cnt + 1 at hs1
    change cnt + 1 ≤ s + MAX_SEND_ON_LINK at hs2
    rw [hnonces s (by omega)]
    exact hloop.digest s (by omega) (by omega)

theorem incarnation_change_spec (e : LinkEnd) (h : EndInv e.view) (hd : e.view.draining = false) :
    incarnation_change cf env inc e = e ∨
    ∃ σ entries, Changed e.view σ inc entries ∧ OutRun σ (incarnation_change cf env inc e).view := by
  unfold incarnation_change
  by_cases hup : env.link_up = false
  · left
    rw [if_pos hup]
  · right
    rw [if_neg hup]
    dsimp only
    by_cases hre : cf.reintroduce_messages = true
    · rw [if_pos hre]
      obtain ⟨entries, hch⟩ := reintroduced_changed cf env inc e h.1 h.2 hd
      have hpack : OutRun (reintroduced env (reset_inbound cf env inc e)).view
          (reintroduce cf env (reset_inbound cf env inc e)).view := by
        rw [reintroduce_eq]
        exact pack_or_drop_run cf env _
      exact ⟨_, entries, hch, hpack.trans (assign_resources_it_run cf env _ _
        (hpack.outInv (OutInv.changed hch)))⟩
    · rw [if_neg hre]
      have hch := drop_outbound_changed cf env inc e h.2 hd
      exact ⟨_, [], hch, assign_resources_it_run cf env _ _ (OutInv.changed hch)⟩

/-! ## Events -/

def Event.packet : Event → Option ItPacket
  | .data_packet p => some p
  | .ack_packet p => some p
  | _ => none

theorem TailOpen.same {σ σ' : Proto} (h : TailOpen σ) (hs : SameIn σ σ') : TailOpen σ' := by
  unfold TailOpen
  rw [hs.draining, hs.flags, hs.in_tail]
  exact h

theorem TailOpen.changed {σ σ' : Proto} {inc : ℕ} {entries : List LinkEntry}
    (h : Changed σ σ' inc entries) : TailOpen σ' := by
  refine ⟨h.draining, ?_⟩
  rw [h.flags _ (Nat.mod_lt _ (by decide))]
  decide

theorem incarnation_change_run (e : LinkEnd) (h : EndInv e.view) (hopen : TailOpen e.view)
    (hinc : e.view.ngbr < inc) :
    PRun none e.view (incarnation_change cf env inc e).view ∧
      TailOpen (incarnation_change cf env inc e).view := by
  rcases incarnation_change_spec cf env inc e h hopen.1 with heq | ⟨σ, entries, hch, hrun⟩
  · rw [heq]
    exact ⟨.refl, hopen⟩
  · exact ⟨.head (PStep.change inc entries rfl hinc hch) hrun.pRun,
      (TailOpen.changed hch).same hrun.sameIn⟩

theorem pong_view (is_ping : Bool) (p : ItPing) (e : LinkEnd) :
    (if e.my_incarnation < p.aru_incarnation then e
      else if is_ping = true then send_it_ping e else e).view = e.view := by
  split
  · rfl
  · split <;> rfl

theorem process_intru_tol_ping_run (fresh is_ping : Bool) (p : ItPing) (e : LinkEnd)
    (h : EndInv e.view) (hopen : TailOpen e.view) :
    PRun none e.view (process_intru_tol_ping cf env fresh is_ping p e).view ∧
      TailOpen (process_intru_tol_ping cf env fresh is_ping p e).view := by
  unfold process_intru_tol_ping
  split
  · exact ⟨.refl, hopen⟩
  split
  · exact ⟨.refl, hopen⟩
  split
  · exact ⟨.refl, hopen⟩
  rw [pong_view]
  split
  · rename_i hinc
    exact incarnation_change_run cf env p.incarnation e h hopen hinc
  · exact ⟨.refl, hopen⟩

theorem process_dh_it_run (verified : Bool) (p : ItPing) (e : LinkEnd) (h : EndInv e.view)
    (hopen : TailOpen e.view) :
    PRun none e.view (process_dh_it cf env verified p e).view ∧
      TailOpen (process_dh_it cf env verified p e).view := by
  unfold process_dh_it
  split
  · exact ⟨.refl, hopen⟩
  split
  · exact ⟨.refl, hopen⟩
  rename_i hinc
  split
  · exact ⟨.refl, hopen⟩
  split
  · exact ⟨.refl, hopen⟩
  · exact incarnation_change_run cf env p.incarnation (send_it_ping e) h hopen (not_le.mp hinc)

/-- **One event.** Every handler but a restart is a run of the protocol from an
end whose windows are in order, and leaves the tail cell open. -/
theorem handle_run (ev : Event) (h : EndInv e.view) (hopen : TailOpen e.view)
    (hev : ∀ sec, ev ≠ .restart sec) :
    PRun ev.packet e.view (handle cf env e ev).view ∧ TailOpen (handle cf env e ev).view := by
  have hout : ∀ {σ : Proto}, OutRun e.view σ → PRun none e.view σ ∧ TailOpen σ :=
    fun hrun => ⟨hrun.pRun, hopen.same hrun.sameIn⟩
  cases ev with
  | forward m => exact hout (forward_intru_tol_data_run cf env m e h.1)
  | assign => exact hout (assign_resources_it_run cf env _ e h.1)
  | handle_it_retransm => exact hout (handle_it_retransm_run cf env e h.1)
  | reliable_it_timeout => exact hout (reliable_it_timeout_run cf env e)
  | ack_it_timeout => exact hout (ack_it_timeout_run cf env e)
  | data_packet p =>
    have hrun := process_it_ack_run cf env p e h hopen
    simp only [handle, process_intru_tol_data_packet]
    split
    · exact ⟨.refl, hopen⟩
    split
    · exact ⟨.refl, hopen⟩
    · exact ⟨hrun.1, hrun.2.1⟩
  | ack_packet p =>
    have hrun := process_it_ack_run cf env p e h hopen
    simp only [handle, process_intru_tol_ack_packet]
    split
    · exact ⟨.refl, hopen⟩
    split
    · exact ⟨.refl, hopen⟩
    · exact ⟨hrun.1, hrun.2.1⟩
  | ping fresh is_ping p => exact process_intru_tol_ping_run cf env fresh is_ping p e h hopen
  | dh verified p => exact process_dh_it_run cf env verified p e h hopen
  | ping_it_timeout => exact ⟨.refl, hopen⟩
  | restart sec => exact absurd rfl (hev sec)

theorem create_inv (σ : Proto) (hcells : σ.head = 1 ∧ σ.tail = 1 ∧ σ.tcp = 1)
    (hin : σ.in_head = 1 ∧ σ.in_tail = 1) (hd : σ.draining = false)
    (hdig : σ.digests 0 = 0) (haru : σ.aru_digest = 0)
    (hflags : ∀ k, σ.flags k = .empty) (hpkts : ∀ k, σ.pkts k = none)
    (hlogs : σ.packed_now = [] ∧ σ.consumed_now = [] ∧ σ.stored_now = []) :
    EndInv σ ∧ TailOpen σ := by
  obtain ⟨hh, ht, hc⟩ := hcells
  obtain ⟨hih, hit⟩ := hin
  obtain ⟨hp, hcn, hst⟩ := hlogs
  refine ⟨⟨⟨by omega, by omega, by omega, by omega, by rw [hp, hh]; rfl, ?_, ?_⟩,
    ⟨by omega, by omega, by omega, ?_, ?_, ?_, ?_, ?_, ?_⟩⟩, hd, ?_⟩
  · intro s hs1 hs2
    omega
  · intro s hs1 _
    obtain rfl : s = 0 := by omega
    rw [hp]
    exact hdig
  · intro hdr
    rw [hd] at hdr
    exact absurd hdr Bool.false_ne_true
  · intro s hs1 hs2
    omega
  · intro s _ _ _
    exact ⟨hflags _, hpkts _⟩
  · rw [hcn, hit]
    rfl
  · rw [hcn, haru]
    rfl
  · intro s
    rw [hst, hit, hih]
    constructor
    · intro hs
      exact absurd hs not_mem_nil
    · rintro (hl | ⟨hs1, hs2, -⟩) <;> omega
  · rw [hflags]
    decide

def Settled (e : LinkEnd) : Prop := EndInv e.view ∧ TailOpen e.view

theorem settled_create (sec : ℕ) : Settled (LinkEnd.create cf sec) :=
  create_inv _ ⟨rfl, rfl, rfl⟩ ⟨rfl, rfl⟩ rfl rfl rfl (fun _ => rfl) (fun _ => rfl) ⟨rfl, rfl, rfl⟩

theorem settled_restart (sec : ℕ) (env : Env) (e : LinkEnd) : Settled (restart cf sec env e) :=
  create_inv _ ⟨rfl, rfl, rfl⟩ ⟨rfl, rfl⟩ rfl rfl rfl (fun _ => rfl) (fun _ => rfl) ⟨rfl, rfl, rfl⟩

theorem settled_step {cf : Conf} {e e' : LinkEnd} {ev : Event} (hstep : Step cf e ev e')
    (h : Settled e) : Settled e' := by
  obtain ⟨-, env, rfl⟩ := hstep
  by_cases hev : ∃ sec, ev = .restart sec
  · obtain ⟨sec, rfl⟩ := hev
    exact settled_restart cf sec env e
  · obtain ⟨hrun, hopen⟩ := handle_run cf env e ev h.1 h.2 (fun sec heq => hev ⟨sec, heq⟩)
    exact ⟨hrun.endInv h.1, hopen⟩

theorem settled_run {cf : Conf} {sec : ℕ} {e : LinkEnd}
    (hrun : Run (Step cf) (LinkEnd.create cf sec) e) : Settled e :=
  hrun.invariant Settled (settled_create cf sec) (fun _ _ _ h hstep => settled_step hstep h)

end Spines.IntruTol
