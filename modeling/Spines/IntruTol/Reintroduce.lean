/-
`Incarnation_Change` with `Reintroduce_Messages == 1`
(`daemon/intrusion_tol_udp.c`).

The packets of the old incarnation become packets of the new one: the window is
cut back to the first packet that starts a message, moved to the front of the
ring with new nonces, and packing goes on behind it. The peer must then see
every message from its first fragment on.

The source relies on a message being shorter than the window. That is so where
every element of a message fits into a packet, and not otherwise:
`Forward_Intru_Tol_Data` checks only the size of the whole message (`split_message_lost`).
-/
import Spines.IntruTol.Pending

set_option autoImplicit false

namespace Spines.IntruTol

open Spines.Lib List

/-! ## 1. What a new incarnation starts with -/

/-- `e'` is `e` started over: the window from the next start of a message on,
renumbered and followed by what there was room for, everything whole, and the
digests those of the new nonces. -/
structure StartsOver (env : Env) (e e' : LinkEnd) : Prop where
  tail : e'.outb.out_tail_seq = LINK_START_SEQ
  head : e'.outb.out_head_seq = LINK_START_SEQ + e'.window.length
  kept : ∃ fresh, e'.window = e.window.dropWhile (fun p => !starts p) ++ fresh
  whole : ∃ bs : List Batch, e'.window = bs.flatMap Batch.packets ∧
    ∀ m, e'.outb.out_message = some m → PackedTo bs m e'.outb.out_frag_idx
  nonce : ∀ s, LINK_START_SEQ ≤ s → s < e'.outb.out_head_seq →
    e'.outb.out_nonce (s % MAX_SEND_ON_LINK) = env.nonce s
  digest : ∀ s, LINK_START_SEQ ≤ s → s < e'.outb.out_head_seq →
    e'.outb.out_nonce_digest (s % MAX_SEND_ON_LINK) = digest ((range' 1 s).map env.nonce)

/-! ## 2. The handler packs on behind what it kept -/

structure Renumbered (env : Env) (kept : List (List Bytes)) (e : LinkEnd) : Prop where
  tail : e.outb.out_tail_seq = LINK_START_SEQ
  kept : kept <+: e.window
  nonce : ∀ s, LINK_START_SEQ ≤ s → s < e.outb.out_head_seq →
    e.outb.out_nonce (s % MAX_SEND_ON_LINK) = env.nonce s

theorem send_new_nonce (cf : Conf) (env : Env) (stop : Bool) (cnt : ℕ) :
    ∀ e : LinkEnd, (send_new cf env stop cnt e).outb.out_nonce = e.outb.out_nonce := by
  induction cnt with
  | zero => intro e; rfl
  | succ cnt ih =>
    intro e
    rw [send_new]
    split
    · rw [send_it_data_msg_outb]
    · rw [ih, send_it_data_msg_outb]

section Packing

variable {cf : Conf} {env : Env} {kept : List (List Bytes)}

theorem Renumbered.of_load {e e' : LinkEnd} (h : Renumbered env kept e) (hl : e'.load = e.load)
    (hn : e'.outb.out_nonce = e.outb.out_nonce) : Renumbered env kept e' where
  tail := (show e'.outb.out_tail_seq = e.outb.out_tail_seq from congrArg Load.tail hl).trans h.tail
  kept := by
    rw [show e'.window = e.window from congrArg Load.window hl]
    exact h.kept
  nonce := by
    rw [hn, show e'.outb.out_head_seq = e.outb.out_head_seq from congrArg Load.head hl]
    exact h.nonce

theorem Renumbered.pack_one (m : SysScatter) {e : LinkEnd} (h : Renumbered env kept e)
    (hle : e.outb.out_tail_seq ≤ e.outb.out_head_seq)
    (hroom : e.outb.out_head_seq - e.outb.out_tail_seq < MAX_SEND_ON_LINK) :
    Renumbered env kept (pack_one cf env m e) where
  tail := h.tail
  kept := by
    rw [pack_one_window cf env m hle hroom]
    exact h.kept.trans (prefix_append _ _)
  nonce := by
    intro s h1 h2
    change s < e.outb.out_head_seq + 1 at h2
    have htail := h.tail
    show Function.update e.outb.out_nonce (e.outb.out_head_seq % MAX_SEND_ON_LINK)
      (env.nonce e.outb.out_head_seq) (s % MAX_SEND_ON_LINK) = env.nonce s
    by_cases hs : s = e.outb.out_head_seq
    · rw [hs, Function.update_self]
    · rw [update_slot_ne _ _ h1 (by omega) (show LINK_START_SEQ ≤ e.outb.out_head_seq by omega)
        (by omega) hs]
      exact h.nonce s h1 (by omega)

theorem Renumbered.pack_loop (fuel : ℕ) {e : LinkEnd} (h : Renumbered env kept e)
    (ho : OutInv e.view) : Renumbered env kept (pack_loop cf env fuel e) :=
  pack_loop_keeps_inv (fun h ho _ hroom => h.pack_one _ (ho.tail_le.trans ho.tcp_le) hroom) fuel h ho

theorem Renumbered.pack_or_drop {e : LinkEnd} (h : Renumbered env kept e) (ho : OutInv e.view) :
    Renumbered env kept (pack_or_drop cf env e) := by
  rcases pack_or_drop_cases cf env e with ⟨-, heq⟩ | ⟨-, heq⟩
  · rw [heq]
    exact ⟨h.tail, h.kept, h.nonce⟩
  · rw [heq]
    exact h.pack_loop MAX_SEND_ON_LINK ho

theorem Renumbered.forward (m : SysScatter) {e : LinkEnd} (h : Renumbered env kept e)
    (ho : OutInv e.view) : Renumbered env kept (forward_intru_tol_data cf env m e).2 := by
  rcases forward_cases cf env m e with ⟨-, heq⟩ | ⟨-, heq⟩
  · rw [heq]
    exact h
  · rw [heq]
    have htaken : Renumbered env kept (taken m e) := ⟨h.tail, h.kept, h.nonce⟩
    exact (htaken.pack_loop MAX_SEND_ON_LINK ho).of_load (send_new_load cf env true _ _)
      (send_new_nonce cf env true _ _)

end Packing

theorem reintroduced_renumbered (cf : Conf) (env : Env) (inc : ℕ) {e : LinkEnd} (h : OutInv e.view) :
    Renumbered env (e.window.drop (e.skipped env))
      (reintroduced env (reset_inbound cf env inc e)) where
  tail := rfl
  kept := by
    rw [show (reintroduced env (reset_inbound cf env inc e)).window = e.window.drop (e.skipped env)
      from congrArg Load.window (reintroduced_load cf env inc h)]
  nonce := by
    intro s h1 h2
    have hplaces := reintroduced_places cf env inc h
    change s < e.outb.out_head_seq - (e.outb.out_tail_seq + e.skipped env) + 1 at h2
    exact hplaces.nonce s h1 (by omega)

theorem digest_of_nonces {env : Env} {kept : List (List Bytes)} {e : LinkEnd}
    (h : Renumbered env kept e) (ho : OutInv e.view) {s : ℕ} (h1 : LINK_START_SEQ ≤ s)
    (h2 : s < e.outb.out_head_seq) :
    e.outb.out_nonce_digest (s % MAX_SEND_ON_LINK) = digest ((range' 1 s).map env.nonce) := by
  have htail := h.tail
  have hlen : e.outb.out_head_seq ≤ e.outb.out_tail_seq + MAX_SEND_ON_LINK := ho.head_le
  have hcount := ho.len
  change e.packed_now.length + 1 = e.outb.out_head_seq at hcount
  rw [show e.outb.out_nonce_digest (s % MAX_SEND_ON_LINK)
    = digest ((e.packed_now.take s).map LinkEntry.nonce) from ho.digest s h2 (by
      change e.outb.out_head_seq ≤ s + MAX_SEND_ON_LINK
      omega)]
  congr 1
  apply ext_getElem
  · rw [length_map, length_take, length_map, length_range']
    omega
  · intro i h3 h4
    rw [length_map, length_range'] at h4
    rw [getElem_map, getElem_take, getElem_map, getElem_range', one_mul]
    have htail1 : e.view.tail ≤ 1 + i := by
      show e.outb.out_tail_seq ≤ 1 + i
      rw [htail]
      exact Nat.le_add_right 1 i
    obtain ⟨x, hx, -, -, hnonce⟩ := ho.cell (1 + i) htail1
      (show 1 + i < e.outb.out_head_seq by omega)
    rw [Nat.add_sub_cancel_left] at hx
    obtain ⟨hi, rfl⟩ := List.getElem?_eq_some_iff.mp hx
    exact hnonce.symm.trans (h.nonce (1 + i) (Nat.le_add_right 1 i) (by omega))

/-! ## 3. Messages that fit start over -/

/-- **Reintroducing the messages.** In every run in which each message forwarded
has a body and each of its elements fits into a packet, an incarnation change
renumbers the window from the next start of a message on, packs on behind it,
keeps every message whole and draws the digests anew. -/
theorem reintroduced_messages {cf : Conf} {Q : SysScatter → Prop} {sec : ℕ} {e : LinkEnd}
    (hre : cf.reintroduce_messages = true)
    (hQ : ∀ m, Q m → m.body ≠ [] ∧ m.body.length < MAX_SCATTER_ELEMENTS ∧ ∀ x ∈ m.body,
      x.length + cf.link_header_size + SIZEOF_FRAGMENT_HEADER ≤ MAX_PACKET_SIZE)
    (hrun : Run (StepOf cf Q) (LinkEnd.create cf sec) e) (env : Env) (hup : env.link_up = true)
    (hassigned : ∀ ms ∈ env.assigned, ∀ m ∈ ms, Q m) (inc : ℕ) :
    StartsOver env e (incarnation_change cf env inc e) := by
  have hset := settled_run_of hrun
  have hfits := fits_of hQ
  have hwhole := whole_run hfits hrun
  -- the state in which the messages to come are assigned
  obtain ⟨e1, he1⟩ : ∃ e1, e1 = renewed cf env inc e := ⟨_, rfl⟩
  have hchange : incarnation_change cf env inc e = assign_resources_it cf env env.assigned e1 := by
    have hlive : ¬ env.link_up = false := by
      rw [hup]
      exact Bool.true_eq_false_eq_False
    rw [he1]
    exact if_neg hlive
  have hrenewed : e1 = pack_or_drop cf env (reintroduced env (reset_inbound cf env inc e)) := by
    rw [he1, renewed, if_pos hre, reintroduce_eq]
  obtain ⟨entries, hch⟩ := reintroduced_changed cf env inc e hset.1.1 hset.1.2 hset.2.1
  have hinv : OutInv (reintroduced env (reset_inbound cf env inc e)).view := OutInv.changed hch
  have hinv1 : OutInv e1.view := by
    rw [hrenewed]
    exact (pack_or_drop_run cf env _).outInv hinv
  have hbatched : ∃ bs, Batched cf.link_header_size [] bs (incarnation_change cf env inc e).load := by
    rw [hchange]
    refine assign_keeps (P := fun e' => ∃ bs, Batched cf.link_header_size [] bs e'.load)
      (fun hm ho ⟨bs, h⟩ => h.forward env (hfits _ hm) ho) env.assigned hassigned hinv1 ?_
    rw [hrenewed]
    obtain ⟨bs, h⟩ := hwhole.reintroduced hset.1.1 env inc
    exact h.pack_or_drop env hinv
  have hrenumbered : Renumbered env (e.window.dropWhile (fun p => !starts p))
      (incarnation_change cf env inc e) := by
    obtain ⟨-, gone, bs, hrow⟩ := hwhole
    rw [← hrow.skip hset.1.1 env, hchange]
    refine assign_keeps (P := Renumbered env (e.window.drop (e.skipped env)))
      (fun {m _} _ ho h => h.forward m ho) env.assigned hassigned hinv1 ?_
    rw [hrenewed]
    exact (reintroduced_renumbered cf env inc hset.1.1).pack_or_drop hinv
  have hinv' : OutInv (incarnation_change cf env inc e).view := by
    rw [hchange]
    exact (assign_resources_it_run cf env env.assigned e1 hinv1).outInv hinv1
  constructor
  case tail => exact hrenumbered.tail
  case head =>
    have hle : (incarnation_change cf env inc e).outb.out_tail_seq
        ≤ (incarnation_change cf env inc e).outb.out_head_seq := hinv'.tail_le.trans hinv'.tcp_le
    have htail := hrenumbered.tail
    rw [LinkEnd.window_length]
    omega
  case kept =>
    obtain ⟨fresh, hfresh⟩ := hrenumbered.kept
    exact ⟨fresh, hfresh.symm⟩
  case whole =>
    obtain ⟨bs, h⟩ := hbatched
    exact ⟨bs, h.window, fun m hm => (h.message m hm).packed⟩
  case nonce => exact hrenumbered.nonce
  case digest => exact fun s h1 h2 => digest_of_nonces hrenumbered hinv' h1 h2

def reintroducing_conf : Conf := { plain_conf with reintroduce_messages := true }

def resent_end : LinkEnd :=
  handle reintroducing_conf plain_env (LinkEnd.create reintroducing_conf 7)
    (.forward (plain_msg [[1, 2, 3]]))

theorem reintroduced_messages_resent :
    StartsOver plain_env resent_end (incarnation_change reintroducing_conf plain_env 9 resent_end) ∧
      (incarnation_change reintroducing_conf plain_env 9 resent_end).outb.out_head_seq = 2 := by
  refine ⟨reintroduced_messages rfl ?_ (one_forwarded_run _) plain_env rfl (fun ms h => absurd h not_mem_nil) 9,
    by decide⟩
  rintro m rfl
  decide

/-! ## 4. An element that fits into no packet -/

def WaitsAt (m : SysScatter) (a : ℕ) (l : Load) : Prop :=
  l.message = some m ∧ l.idx = a ∧ l.total = m.body.length

def narrow_env : Env := { plain_env with cwnd := 1 }

/-- A message a neighbor can send, each element in a packet of its own. The
second leaves no room for the NACK that `Link_Header_Size` counts. -/
def split_msg : SysScatter := plain_msg [replicate 60 0, replicate 1400 0]

def split_end : LinkEnd :=
  handle reintroducing_conf narrow_env (LinkEnd.create reintroducing_conf 7) (.forward split_msg)

theorem split_end_run :
    Run (Step reintroducing_conf) (LinkEnd.create reintroducing_conf 7) split_end :=
  (Run.refl _).tail ⟨.inl rfl, narrow_env, rfl⟩

/-- The neighbor acknowledges packet `1`, the only one with a fragment. -/
def ack_of_first (e : LinkEnd) : ItPacket :=
  ⟨[], ⟨0, 0, 1, e.outb.out_nonce_digest 1, 0, 7⟩, ⟨0, 0, 1, e.outb.out_nonce_digest 1, 0, 7⟩,
    SIZEOF_PKT_TAIL, []⟩

def split_acked : LinkEnd :=
  handle reintroducing_conf narrow_env split_end (.ack_packet (ack_of_first split_end))

/-- Fragment `2` waits behind a packet that carries nothing. -/
def Barren (e : LinkEnd) : Prop :=
  WaitsAt split_msg 2 e.load ∧ ∀ q ∈ e.window.getLast?, q = []

/-- Fragment `2` fits into no packet: the packer goes on to the end of the window with
packets that carry nothing. -/
theorem Barren.pack_loop {e : LinkEnd} (h : Barren e) (ho : OutInv e.view) :
    Barren (pack_loop reintroducing_conf narrow_env MAX_SEND_ON_LINK e) := by
  refine pack_loop_keeps_inv ?_ _ h ho
  rintro m e ⟨⟨hm, hidx, htotal⟩, -⟩ ho hmsg hroom
  obtain rfl : m = split_msg := Option.some.inj (hmsg.symm.trans hm)
  have hstuck : ∀ idx total, idx = 2 → total = 2 →
      (fill_packet reintroducing_conf.link_header_size split_msg idx total).out_frag_idx = 2 ∧
      (fill_packet reintroducing_conf.link_header_size split_msg idx total).elements = [] := by
    rintro _ _ rfl rfl
    decide +kernel
  obtain ⟨hidx', hnothing⟩ := hstuck e.outb.out_frag_idx e.outb.out_frag_total hidx htotal
  refine ⟨⟨if_neg ?_, hidx', htotal⟩, ?_⟩
  · rw [hidx', show e.outb.out_frag_total = 2 from htotal]
    exact lt_irrefl 2
  · rw [pack_one_window _ _ _ (ho.tail_le.trans ho.tcp_le) hroom, hnothing, getLast?_concat]
    exact fun q hq => (Option.some.inj hq).symm

theorem Barren.not_starts_over {env : Env} {e e' : LinkEnd} (hb : Barren e') :
    ¬ StartsOver env e e' := by
  intro h
  obtain ⟨bs, hrow, hpacked⟩ := h.whole
  have hidx : e'.outb.out_frag_idx = 2 := hb.1.2.1
  rcases hpacked split_msg hb.1.1 with hone | ⟨init, b, rfl, -, -⟩
  · omega
  · obtain ⟨p, ps, hps, -⟩ := b.packets_cons
    have hmem : (p :: ps).getLast (cons_ne_nil p ps) ∈ b.packets := by
      rw [hps]
      exact getLast_mem _
    obtain ⟨a, c, -, hc, -, hp⟩ := b.mem_packets hmem
    have hlast : packet b.msg a c = [] := by
      apply hb.2
      rw [hrow, flatMap_append, flatMap_singleton, hps, getLast?_append_cons,
        getLast?_eq_some_getLast (cons_ne_nil p ps), hp]
      rfl
    obtain ⟨c, rfl⟩ := Nat.exists_eq_add_of_le' hc
    exact absurd hlast (cons_ne_nil _ _)

theorem Barren.change {e : LinkEnd} (h : Barren e) (hset : Settled e) :
    Barren (incarnation_change reintroducing_conf narrow_env 9 e) := by
  obtain ⟨entries, hch⟩ :=
    reintroduced_changed reintroducing_conf narrow_env 9 e hset.1.1 hset.1.2 hset.2.1
  have hload := reintroduced_load reintroducing_conf narrow_env 9 hset.1.1
  have hkept : Barren (reintroduced narrow_env (reset_inbound reintroducing_conf narrow_env 9 e)) := by
    refine ⟨by rw [hload]; exact h.1, fun q hq => h.2 q ?_⟩
    rw [show LinkEnd.window _ = _ from congrArg Load.window hload, getLast?_drop] at hq
    split_ifs at hq
    · exact absurd hq (Option.not_mem_none q)
    · exact hq
  exact hkept.pack_loop (OutInv.changed hch)

/-- The change goes on with a message whose first fragment the new incarnation
never carries. -/
theorem split_message_lost :
    Run (Step reintroducing_conf) (LinkEnd.create reintroducing_conf 7) split_acked ∧
      ¬ StartsOver narrow_env split_acked
        (incarnation_change reintroducing_conf narrow_env 9 split_acked) := by
  have hrun : Run (Step reintroducing_conf) (LinkEnd.create reintroducing_conf 7) split_acked :=
    split_end_run.tail ⟨.inl (by decide +kernel), narrow_env, rfl⟩
  have hbarren : Barren split_acked := by
    simp only [Barren, WaitsAt, LinkEnd.load]
    decide +kernel
  exact ⟨hrun, (hbarren.change (settled_run hrun)).not_starts_over⟩

end Spines.IntruTol
