/-
The loop over the neighbours for a new message, and garbage collection.

While a new message goes through the loop of `Priority_Flood_Disseminate`, its
entry is open: the neighbours before the current one have been dealt with, the
others count as waiting (`Opened`). In between the loop sends and drops messages,
the new one among them. At the end the entry is like any other. Garbage
collection is the only function that removes an entry, and only when it has
expired (`Collected`).
-/
import Spines.Priority.Queues
import Mathlib.Data.Set.Card

set_option autoImplicit false

namespace Spines.Priority

open Spines.Lib Spines.RelFlood Function Option List

/-! ## 1. An open entry -/

def PrioConf.all (cf : PrioConf) : ℕ → PrioKey → ℕ := fun _ _ => cf.degree

/-- The neighbour is neither the one a message came from nor the source, and not on the
mask. -/
def PrioConf.skips (cf : PrioConf) (src_link : Option ℕ) (m : PrioMsg) (k : ℕ) : Prop :=
  cf.neighbor_ids k ≠ src_link.elim cf.my_id cf.neighbor_ids ∧ cf.neighbor_ids k ≠ m.source ∧
    cf.on_path m.mask k = false

/-- An entry as `Priority_Flood_Disseminate` made it, after `i` rounds of the loop. -/
structure Entered (cf : PrioConf) (src_link : Option ℕ) (mode : ℕ) (m : PrioMsg) (i : ℕ)
    (v : FloodValue) : Prop where
  expire : v.expire = m.expire
  priority : v.priority = m.priority
  link_mode : v.link_mode = mode
  msg_scat : v.need_count ≠ 0 → v.msg_scat = some m
  flag : v.need_count ≠ 0 → ∀ k, 1 ≤ k → k ≤ i → k ≤ cf.degree →
    ((v.status k).flag = .not_in_mask ↔ cf.skips src_link m k)

/-- The state after `i` rounds of the loop for a new message, begun in `P₀`. -/
structure Opened (cf : PrioConf) (src_link : Option ℕ) (mode : ℕ) (m : PrioMsg) (P₀ : Flood)
    (i : ℕ) (P : Flood) : Prop where
  inv : Inv cf (set_done cf.all m.source m.key i) P
  freed : 1 ≤ cf.degree → Freed P₀ → Freed P
  halt : P.halt = P₀.halt
  incarnation : P.node_incarnation = P₀.node_incarnation
  entry : ∃ v, P.belly m.source m.key = some v ∧ Entered cf src_link mode m i v
  absent : ∀ a b, ¬ (a = m.source ∧ b = m.key) → P₀.belly a b = none → P.belly a b = none
  later : ∀ a b v, ¬ (a = m.source ∧ b = m.key) → P₀.belly a b = some v →
    ∃ v', P.belly a b = some v' ∧ Later cf v v'

section Entered

variable {cf : PrioConf} {hop : Option ℕ} {mode : ℕ} {m : PrioMsg} {i : ℕ} {v v' : FloodValue}

theorem Entered.later (h : Entered cf hop mode m i v) (hl : Later cf v v') :
    Entered cf hop mode m i v' := by
  refine ⟨hl.expire.trans h.expire, hl.priority.trans h.priority, hl.link_mode.trans h.link_mode,
    fun hn => ?_, fun hn k hk hi hd => ?_⟩
  · obtain ⟨hn, hmsg, -⟩ := hl.need hn
    rw [hmsg, h.msg_scat hn]
  · obtain ⟨hn, -, hflag⟩ := hl.need hn
    rw [hflag k ⟨hk, hd⟩, h.flag hn k hk hi hd]

theorem Entered.next (h : Entered cf hop mode m i v) (hn : v.need_count ≠ 0)
    (hns : v.ns ≠ none) {st : NeighborStatus}
    (hst : st.flag = .not_in_mask ↔ cf.skips hop m (i + 1)) (n : ℕ) :
    Entered cf hop mode m (i + 1) { v.set_status (i + 1) st with need_count := n } := by
  refine ⟨h.expire, h.priority, h.link_mode, fun _ => h.msg_scat hn, fun _ k hk hi hd => ?_⟩
  change ((v.set_status (i + 1) st).status k).flag = .not_in_mask ↔ _
  by_cases hki : k = i + 1
  · rw [hki, set_status_self _ hns]
    exact hst
  · rw [set_status_of_ne v _ hki]
    exact h.flag hn k hk (by omega) hd

end Entered

/-! ## 2. One round -/

theorem set_done_set_done (done : ℕ → PrioKey → ℕ) (s : ℕ) (key : PrioKey) (d d' : ℕ) :
    set_done (set_done done s key d) s key d' = set_done done s key d' := by
  unfold set_done
  rw [update_self, update_idem, update_idem]

theorem all_set_done (cf : PrioConf) (s : ℕ) (key : PrioKey) :
    set_done cf.all s key cf.degree = cf.all :=
  set_done_eq_self cf.all s key

section Opened

variable {cf : PrioConf} {hop : Option ℕ} {mode : ℕ} {m : PrioMsg} {P₀ P : Flood} {i : ℕ}

theorem Opened.keeps (h : Opened cf hop mode m P₀ i P) {P' : Flood}
    (hk : Keeps cf (set_done cf.all m.source m.key i) P P') :
    Opened cf hop mode m P₀ i P' := by
  obtain ⟨hinv, hfreed, he⟩ := hk h.inv
  refine ⟨hinv, fun hd hf => hfreed (h.freed hd hf), he.halt.trans h.halt,
    he.incarnation.trans h.incarnation, ?_, fun a b hab hn => he.absent a b (h.absent a b hab hn),
    fun a b v hab hv => ?_⟩
  · obtain ⟨v, hv, hent⟩ := h.entry
    obtain ⟨v', hv', hl⟩ := he.later _ _ v hv
    exact ⟨v', hv', hent.later hl⟩
  · obtain ⟨v1, hv1, hl1⟩ := h.later a b v hab hv
    obtain ⟨v2, hv2, hl2⟩ := he.later a b v1 hv1
    exact ⟨v2, hv2, hl1.trans hl2⟩

theorem Opened.replace (h : Opened cf hop mode m P₀ i P) {j : ℕ} {v : FloodValue}
    (hent : Entered cf hop mode m j v) {P' : Flood}
    (hinv : Inv cf (set_done cf.all m.source m.key j) P') (hneed : v.need_count ≠ 0)
    (hbelly : P'.belly = (P.set_entry m.source m.key v).belly) (hhalt : P'.halt = P.halt)
    (hinc : P'.node_incarnation = P.node_incarnation) : Opened cf hop mode m P₀ j P' := by
  have hother : ∀ a b, ¬ (a = m.source ∧ b = m.key) → P'.belly a b = P.belly a b := by
    intro a b hab
    rw [hbelly, set_entry_of_ne P m.source m.key v hab]
  have hself : P'.belly m.source m.key = some v := by
    rw [hbelly, set_entry_self]
  refine ⟨hinv, fun hd hf a b w hw hn => ?_, hhalt.trans h.halt, hinc.trans h.incarnation,
    ⟨v, hself, hent⟩, fun a b hab hn => ?_, fun a b w hab hw => ?_⟩
  · by_cases hab : a = m.source ∧ b = m.key
    · rw [hab.1, hab.2, hself] at hw
      rw [← some.inj hw] at hn
      exact absurd hn hneed
    · rw [hother a b hab] at hw
      exact h.freed hd hf a b w hw hn
  · rw [hother a b hab]
    exact h.absent a b hab hn
  · rw [hother a b hab]
    exact h.later a b w hab hw

theorem Opened.open_entry (h : Opened cf hop mode m P₀ i P) (hi : i < cf.degree) :
    ∃ v, P.belly m.source m.key = some v ∧ Entered cf hop mode m i v ∧
      EntryOk cf i v ∧ (1 ≤ m.source ∧ m.source ≤ MAX_NODES) ∧ v.need_count ≠ 0 := by
  obtain ⟨v, hv, hent⟩ := h.entry
  obtain ⟨hs, hok⟩ := h.inv.entry _ _ v hv
  rw [set_done_self] at hok
  have hneed := hok.need
  exact ⟨v, hv, hent, hok, hs, by omega⟩

theorem Opened.settle (h : Opened cf hop mode m P₀ i P) (hi : i < cf.degree)
    {flag : MsgStatus} (hf : flag ≠ .need_msg ∧ flag ≠ .unset)
    (hmask : flag = .not_in_mask ↔ cf.skips hop m (i + 1)) :
    Opened cf hop mode m P₀ (i + 1) (settle cf m.source m.key (i + 1) flag P) := by
  obtain ⟨v, hv, hent, hok, hs, hn⟩ := h.open_entry hi
  have hns := (hok.alive hn).1
  set v' : FloodValue :=
    { v.set_status (i + 1) ⟨flag, none⟩ with need_count := v.need_count - 1 }
  have hok' : EntryOk cf (i + 1) v' := by
    apply hok.next hi ⟨hf.2, by simp [hf.1]⟩
    rw [if_pos rfl]
    omega
  have hent' : Entered cf hop mode m (i + 1) v' := hent.next hn hns hmask _
  have hview : ∀ k, cf.nbr k → v'.view cf k = P.queued cf k m.source m.key := by
    intro k _
    rw [queued_eq cf P _ _ k hv, FloodValue.view, FloodValue.view]
    by_cases hk : k = i + 1
    · -- there was no address before, and there is none now
      have hself : v'.status k = ⟨flag, none⟩ := by
        rw [hk]
        exact set_status_self (i + 1) hns _
      rw [hself, hk, hok.rest (i + 1) (by omega) hi]
      rfl
    · have hsame : v'.status k = v.status k := set_status_of_ne v (i + 1) hk _
      rw [hsame]
      rfl
  have hinv : Inv cf (set_done cf.all m.source m.key (i + 1)) (P.set_entry m.source m.key v') := by
    rw [← set_done_set_done cf.all m.source m.key i]
    exact h.inv.silent hs hok' hview rfl rfl rfl h.inv.pool
  obtain ⟨w, hw, hl, -⟩ := release_later cf (set_entry_self P m.source m.key v')
  have hother : ∀ a b, ¬ (a = m.source ∧ b = m.key) →
      (release cf m.source m.key (P.set_entry m.source m.key v')).belly a b = P.belly a b := by
    intro a b hab
    rw [release_other cf _ hab, set_entry_of_ne P m.source m.key v' hab]
  obtain ⟨hhalt, hinc⟩ := release_globals cf m.source m.key (P.set_entry m.source m.key v')
  unfold Priority.settle
  rw [hv]
  refine ⟨hinv.release, fun hd hfreed => ?_, hhalt.trans h.halt, hinc.trans h.incarnation,
    ⟨w, hw, hent'.later hl⟩, fun a b hab hno => ?_, fun a b u hab hu => ?_⟩
  · exact (h.freed hd hfreed).release fun a b hab => set_entry_of_ne P m.source m.key v' hab
  · rw [hother a b hab]
    exact h.absent a b hab hno
  · rw [hother a b hab]
    exact h.later a b u hab hu

theorem Opened.enqueue (h : Opened cf hop mode m P₀ i P) (hi : i < cf.degree)
    (hmask : ¬ cf.skips hop m (i + 1)) :
    Opened cf hop mode m P₀ (i + 1) (enqueue cf mode m (i + 1) P) ∧
      ((enqueue cf mode m (i + 1) P).edge (i + 1)).total_msg ≠ 0 := by
  obtain ⟨v, hv, hent, hok, hs, hn⟩ := h.open_entry hi
  have hnbr : cf.nbr (i + 1) := ⟨by omega, hi⟩
  have hns := (hok.alive hn).1
  set v' : FloodValue := v.set_status (i + 1) ⟨.need_msg, some P.next_id⟩
  have hok' : EntryOk cf (i + 1) v' := hok.next (n := v.need_count) hi ⟨by simp, by simp⟩ (by simp)
  have hent' : Entered cf hop mode m (i + 1) v' :=
    hent.next hn hns (by simp [hmask]) v.need_count
  have hself : v'.status (i + 1) = ⟨.need_msg, some P.next_id⟩ := set_status_self (i + 1) hns _
  have hview : v'.view cf (i + 1) = some ⟨P.next_id, m.priority, v.expire, v.packets cf⟩ := by
    rw [FloodValue.view, hself, ← hent.priority]
    rfl
  have hstay : ∀ k, cf.nbr k → k ≠ i + 1 → v'.view cf k = P.queued cf k m.source m.key := by
    intro k _ hk
    have hsame : v'.status k = v.status k := set_status_of_ne v (i + 1) hk _
    rw [queued_eq cf P _ _ k hv, FloodValue.view, FloodValue.view, hsame]
    rfl
  have hmsg := hent.msg_scat hn
  have hpackets : v.packets cf = calculate_packets_in_message cf m mode := by
    rw [FloodValue.packets, hmsg, hent.link_mode]
  have hprio := hok.priority
  rw [hent.priority] at hprio
  have hnone : P.queued cf (i + 1) m.source m.key = none := by
    rw [queued_eq cf P _ _ _ hv, view_eq_none]
    exact hok.rest (i + 1) (by omega) hi
  have hlink : Implements ((P.queued cf (i + 1)).set m.source m.key (v'.view cf (i + 1)))
      ((P.edge (i + 1)).append m.source m.priority (calculate_packets_in_message cf m mode)
        ⟨P.next_id, v.expire, m.key⟩) := by
    have hpos : 1 ≤ v.packets cf := by
      rw [hpackets]
      exact calculate_packets_pos cf m mode
    rw [hview, ← hpackets]
    refine (h.inv.link (i + 1) hnbr).append hnone ⟨hs, hprio, hpos⟩ ?_
    -- the addresses in use are below `next_id`
    intro n hnode
    obtain ⟨x, hx, hid, -⟩ := (h.inv.link (i + 1) hnbr).node _ _ n hnode
    have hlt := h.inv.ids (i + 1) hnbr _ _ x hx
    dsimp only
    omega
  have hinv : Inv cf (set_done cf.all m.source m.key (i + 1)) (Priority.enqueue cf mode m (i + 1) P) := by
    rw [← set_done_set_done cf.all m.source m.key i]
    unfold Priority.enqueue
    rw [hv]
    dsimp only
    rw [hmsg]
    refine h.inv.loud hs hok' hstay (fun _ => hlink) rfl rfl rfl (Nat.le_succ _) ?_
    intro x hx
    rw [hview] at hx
    rw [← some.inj hx]
    exact Nat.lt_succ_self _
  constructor
  · apply h.replace hent' hinv hn
    · unfold Priority.enqueue
      rw [hv]
      rfl
    · unfold Priority.enqueue
      rw [hv]
      rfl
    · unfold Priority.enqueue
      rw [hv]
      rfl
  · have hcount := calculate_packets_pos cf m mode
    unfold Priority.enqueue
    rw [hv]
    dsimp only [Flood.on_edge, Flood.set_entry, PrioLink.append]
    rw [update_self, hmsg]
    dsimp only
    omega

theorem sends_keeps {cf : PrioConf} {done : ℕ → PrioKey → ℕ} {k : ℕ} (hk : cf.nbr k) (mode : ℕ)
    (l : List (List SendRound)) : ∀ P : Flood, Keeps cf done P
      (l.foldl (fun P rounds =>
        if P.halt = .running then priority_flood_send_one cf k mode rounds P else P) P) := by
  induction l with
  | nil => exact fun _ => Keeps.refl
  | cons rounds l ih =>
    intro P
    rw [foldl_cons]
    refine Keeps.trans ?_ (ih _)
    split
    · exact send_one_keeps hk mode rounds
    · exact Keeps.refl

theorem Opened.round {env : DissemEnv} (h : Opened cf hop env.mode m P₀ i P)
    (hi : i < cf.degree) (hrun : P₀.halt = .running) (r : Ret) :
    Opened cf hop env.mode m P₀ (i + 1)
      (disseminate_ngbr cf hop env m (P, r) (i + 1)).1 := by
  have hnbr : cf.nbr (i + 1) := ⟨by omega, hi⟩
  unfold disseminate_ngbr
  dsimp only
  rw [if_neg (by rw [h.halt, hrun]; simp)]
  split
  · rename_i hfrom
    apply h.settle hi ⟨by decide, by decide⟩
    constructor
    · intro hflag
      exact absurd hflag (by decide)
    · rintro ⟨hne, hne', -⟩
      exact absurd hfrom (not_or.mpr ⟨hne, hne'⟩)
  rename_i hfrom
  split
  · rename_i hoff
    apply h.settle hi ⟨by decide, by decide⟩
    have hfrom' := not_or.mp hfrom
    exact ⟨fun _ => ⟨hfrom'.1, hfrom'.2, hoff⟩, fun _ => rfl⟩
  rename_i hon
  have hmask : ¬ cf.skips hop m (i + 1) := fun hs => hon hs.2.2
  split
  · apply h.settle hi ⟨by decide, by decide⟩
    constructor
    · intro hflag
      exact absurd hflag (by decide)
    · exact fun hs => absurd hs hmask
  · obtain ⟨hopen, htotal⟩ := h.enqueue hi hmask
    have hsent := hopen.keeps (sends_keeps hnbr env.mode (env.sends (i + 1)) _)
    split
    · rename_i hover
      exact hsent.keeps (drop_one_keeps hnbr (by omega))
    · exact hsent

/-- **The loop**, by induction on the number of rounds. -/
theorem Opened.rounds {env : DissemEnv} (h : Opened cf hop env.mode m P₀ 0 P)
    (hrun : P₀.halt = .running) (r : Ret) : ∀ n ≤ cf.degree, Opened cf hop env.mode m P₀ n
      ((range' 1 n).foldl (disseminate_ngbr cf hop env m) (P, r)).1 := by
  intro n
  induction n with
  | zero => exact fun _ => h
  | succ n ih =>
    intro hn
    rw [range'_1_concat, foldl_append, foldl_cons, foldl_nil,
      add_comm 1 n]
    exact (ih (by omega)).round (by omega) hrun _

end Opened

/-! ## 3. `Priority_Flood_Disseminate` -/

section Disseminate

variable {cf : PrioConf} {hop : Option ℕ} {env : DissemEnv} {m : PrioMsg} {P : Flood}

theorem Opened.create (h : Inv cf cf.all P) (hs : 1 ≤ m.source ∧ m.source ≤ MAX_NODES)
    (hprio : 1 ≤ m.priority ∧ m.priority ≤ MAX_PRIORITY) (hnone : P.belly m.source m.key = none)
    {a : ℕ → NeighborStatus} (ha : ∀ k, cf.nbr k → (a k).ngbr = none)
    {pool : List (ℕ → NeighborStatus)} (hpool : ∀ b ∈ pool, ∀ k, cf.nbr k → (b k).ngbr = none)
    (mode : ℕ) : Opened cf hop mode m P 0
      { P.set_entry m.source m.key ⟨m.expire, m.priority, cf.degree, some m, mode, some a⟩ with
        ns_pool := pool } := by
  set v : FloodValue := ⟨m.expire, m.priority, cf.degree, some m, mode, some a⟩ with hv
  have hstatus : ∀ k, cf.nbr k → (v.status k).ngbr = none := ha
  have hwait : v.waiting cf = 0 := by
    apply Finset.sum_eq_zero
    intro k hk
    exact if_pos (hstatus k (Finset.mem_Icc.mp hk))
  have hok : EntryOk cf 0 v := by
    refine ⟨Nat.zero_le _, ?_, fun k hk hd => hstatus k ⟨hk, hd⟩, fun _ k hk hd => ?_,
      fun _ => ⟨by simp [hv], by simp [hv]⟩, hprio⟩
    · rw [hwait]
      simp [hv]
    · omega
  have hview : ∀ k, cf.nbr k → v.view cf k = P.queued cf k m.source m.key := by
    intro k hk
    rw [view_eq_none.mpr (hstatus k hk), Flood.queued, hnone]
    rfl
  have hother : ∀ a b, ¬ (a = m.source ∧ b = m.key) →
      (P.set_entry m.source m.key v).belly a b = P.belly a b :=
    fun a b hab => set_entry_of_ne P m.source m.key v hab
  have hself := set_entry_self P m.source m.key v
  refine ⟨h.silent hs hok hview rfl rfl rfl hpool, fun hd hfreed a b w hw hn => ?_, rfl, rfl,
    ⟨v, hself, ⟨rfl, rfl, rfl, fun _ => rfl, fun _ k hk hd => ?_⟩⟩,
    fun a b hab hn => (hother a b hab).trans hn,
    fun a b w hab hw => ⟨w, (hother a b hab).trans hw, Later.refl cf w⟩⟩
  · by_cases hab : a = m.source ∧ b = m.key
    · -- somebody needs the message
      rw [hab.1, hab.2] at hw
      have hvw := some.inj (hself.symm.trans hw)
      rw [← hvw] at hn
      change cf.degree = 0 at hn
      omega
    · exact hfreed a b w ((hother a b hab).symm.trans hw) hn
  · omega

theorem Opened.start (h : Inv cf cf.all P) (hs : 1 ≤ m.source ∧ m.source ≤ MAX_NODES)
    (hprio : 1 ≤ m.priority ∧ m.priority ≤ MAX_PRIORITY) (hnone : P.belly m.source m.key = none)
    (mode : ℕ) : Opened cf hop mode m P 0
      { P.set_entry m.source m.key
          ⟨m.expire, m.priority, cf.degree, some m, mode, some (new_ns P).1⟩ with
        ns_pool := (new_ns P).2 } := by
  have hnew : (∀ k, cf.nbr k → ((new_ns P).1 k).ngbr = none) ∧
      ∀ b ∈ (new_ns P).2, ∀ k, cf.nbr k → (b k).ngbr = none := by
    unfold new_ns
    split
    · exact ⟨fun _ _ => rfl, fun b hb => absurd hb not_mem_nil⟩
    · rename_i a pool hpool
      exact ⟨h.pool a (by simp [hpool]), fun b hb => h.pool b (by simp [hpool, hb])⟩
  exact Opened.create h hs hprio hnone hnew.1 hnew.2 mode

theorem disseminate_new_opened (h : Inv cf cf.all P) (hrun : P.halt = .running)
    (hs : 1 ≤ m.source ∧ m.source ≤ MAX_NODES)
    (hprio : 1 ≤ m.priority ∧ m.priority ≤ MAX_PRIORITY) (hnone : P.belly m.source m.key = none) :
    Opened cf hop env.mode m P cf.degree (disseminate_new cf hop env m P).1 :=
  (Opened.start h hs hprio hnone env.mode).rounds hrun .buff_ok cf.degree (Nat.le_refl _)

theorem disseminate_new_ret (cf : PrioConf) (hop : Option ℕ) (env : DissemEnv) (m : PrioMsg)
    (P : Flood) : (disseminate_new cf hop env m P).2 ≠ .no_route := by
  have hround : ∀ (c : Flood × Ret) k, c.2 ≠ .no_route →
      (disseminate_ngbr cf hop env m c k).2 ≠ .no_route := by
    intro c k hc
    unfold disseminate_ngbr
    dsimp only
    split_ifs
    · exact hc
    · exact hc
    · exact hc
    · exact hc
    · exact Ret.noConfusion
    · exact hc
  have hloop : ∀ (l : List ℕ) (c : Flood × Ret), c.2 ≠ .no_route →
      (l.foldl (disseminate_ngbr cf hop env m) c).2 ≠ .no_route := by
    intro l
    induction l with
    | nil => exact fun _ hc => hc
    | cons k l ih => exact fun c hc => ih _ (hround c k hc)
  exact hloop _ _ Ret.noConfusion

/-- A message that was seen before: the daemon exits, or it goes on as with any other
function. It exits when the message is still needed and came from a neighbour that is
not on its mask. -/
theorem disseminate_again_cases (h : Inv cf cf.all P)
    (hlink : ∀ k, hop = some k → cf.nbr k) {v : FloodValue}
    (hv : P.belly m.source m.key = some v) :
    (∃ k, hop = some k ∧ v.need_count ≠ 0 ∧ (v.status k).flag = .not_in_mask ∧
        disseminate_again cf hop m v P = { P with halt := .invalid_status }) ∨
      (∀ k, hop = some k → v.need_count ≠ 0 → (v.status k).flag ≠ .not_in_mask) ∧
        Keeps cf cf.all P (disseminate_again cf hop m v P) := by
  unfold disseminate_again
  cases hop with
  | none => exact .inr ⟨fun k hk => absurd hk (by simp), Keeps.refl⟩
  | some k =>
    dsimp only
    have hk := hlink k rfl
    split
    · rename_i hn
      exact .inr ⟨fun j _ hne => absurd hn hne, Keeps.refl⟩
    · rename_i hn
      have hok := (h.entry _ _ v hv).2
      have hset := (hok.flag hn k hk.1 hk.2).2
      have hother : (v.status k).flag ≠ .not_in_mask →
          ∀ j, some k = some j → v.need_count ≠ 0 → (v.status j).flag ≠ .not_in_mask := by
        intro hne j hj _
        rwa [← some.inj hj]
      cases hflag : (v.status k).flag with
      | unset => exact absurd hflag hset
      | need_msg =>
        exact .inr ⟨hother (by rw [hflag]; decide),
          Keeps.cleanup m.source m.key (.inl hk) MsgStatus.recv_done⟩
      | recv_msg => exact .inr ⟨hother (by rw [hflag]; decide), Keeps.refl⟩
      | on_link_msg => exact .inr ⟨hother (by rw [hflag]; decide), Keeps.refl⟩
      | dropped_msg => exact .inr ⟨hother (by rw [hflag]; decide), Keeps.refl⟩
      | expired_msg => exact .inr ⟨hother (by rw [hflag]; decide), Keeps.refl⟩
      | not_in_mask => exact .inl ⟨k, rfl, hn, hflag, rfl⟩

end Disseminate

/-! ## 4. `Priority_Garbage_Collect` -/

structure Collected (cf : PrioConf) (now : SpTime) (P P' : Flood) : Prop where
  halt : P'.halt = P.halt
  incarnation : P'.node_incarnation = P.node_incarnation
  absent : ∀ s key, P.belly s key = none → P'.belly s key = none
  later : ∀ s key v, P.belly s key = some v →
    (∃ v', P'.belly s key = some v' ∧ Later cf v v') ∨ P'.belly s key = none ∧ v.expire.le now

section Collect

variable {cf : PrioConf} {now : SpTime} {P P' P'' : Flood}

theorem Collected.refl : Collected cf now P P :=
  ⟨rfl, rfl, fun _ _ => id, fun _ _ v hv => .inl ⟨v, hv, Later.refl cf v⟩⟩

theorem Collected.trans (h : Collected cf now P P') (h' : Collected cf now P' P'') :
    Collected cf now P P'' := by
  refine ⟨h'.halt.trans h.halt, h'.incarnation.trans h.incarnation,
    fun s key hn => h'.absent s key (h.absent s key hn), fun s key v hv => ?_⟩
  rcases h.later s key v hv with ⟨v1, hv1, hl1⟩ | ⟨hn, hle⟩
  · rcases h'.later s key v1 hv1 with ⟨v2, hv2, hl2⟩ | ⟨hn, hle⟩
    · exact .inl ⟨v2, hv2, hl1.trans hl2⟩
    · rw [hl1.expire] at hle
      exact .inr ⟨hn, hle⟩
  · exact .inr ⟨h'.absent s key hn, hle⟩

theorem erase_self (P : Flood) (s : ℕ) (key : PrioKey) : (P.erase s key).belly s key = none := by
  simp [Flood.erase]

theorem erase_of_ne (P : Flood) {s a : ℕ} {key b : PrioKey} (h : ¬ (a = s ∧ b = key)) :
    (P.erase s key).belly a b = P.belly a b := by
  simp only [Flood.erase]
  by_cases ha : a = s
  · rw [ha, update_self, update_of_ne (fun hb => h ⟨ha, hb⟩)]
  · rw [update_of_ne ha]

theorem Inv.erase (h : Inv cf cf.all P) {s : ℕ} {key : PrioKey} {v : FloodValue}
    (hv : P.belly s key = some v) (hn : v.need_count = 0) : Inv cf cf.all (P.erase s key) := by
  have hidle := ((h.entry s key v hv).2.idle hn).2
  have hqueued : ∀ k, cf.nbr k → (P.erase s key).queued cf k = P.queued cf k := by
    intro k hk
    funext a b
    by_cases hab : a = s ∧ b = key
    · rw [hab.1, hab.2, queued_eq cf P s key k hv, view_eq_none.mpr (hidle k hk), Flood.queued,
        erase_self]
      rfl
    · rw [Flood.queued, Flood.queued, erase_of_ne P hab]
  refine ⟨fun a b w hw => ?_, fun k hk => ?_, fun k hk => ?_, h.pool⟩
  · by_cases hab : a = s ∧ b = key
    · rw [hab.1, hab.2, erase_self] at hw
      exact absurd hw (by simp)
    · rw [erase_of_ne P hab] at hw
      exact h.entry a b w hw
  · rw [hqueued k hk]
    exact h.link k hk
  · rw [hqueued k hk]
    exact h.ids k hk

theorem collect_entry_spec (h : Inv cf cf.all P) (now : SpTime) (a : ℕ × PrioKey) :
    Inv cf cf.all (collect_entry cf now P a) ∧ (Freed P → Freed (collect_entry cf now P a)) ∧
      Collected cf now P (collect_entry cf now P a) := by
  unfold collect_entry
  cases hv : P.belly a.1 a.2 with
  | none => exact ⟨h, id, Collected.refl⟩
  | some v =>
    dsimp only
    split
    · rename_i hle
      obtain ⟨hinv, hfreed, he⟩ := Keeps.cleanup (k := 0) a.1 a.2 (.inr rfl)
        MsgStatus.expired_done h
      obtain ⟨v', hv', hn'⟩ := h.cleanup_expired hv rfl 0
      refine ⟨hinv.erase hv' hn', fun hf s key w hw => ?_, he.halt, he.incarnation,
        fun s key hn => ?_, fun s key w hw => ?_⟩
      · by_cases hab : s = a.1 ∧ key = a.2
        · rw [hab.1, hab.2, erase_self] at hw
          exact absurd hw (by simp)
        · rw [erase_of_ne _ hab] at hw
          exact hfreed hf s key w hw
      · by_cases hab : s = a.1 ∧ key = a.2
        · rw [hab.1, hab.2, erase_self]
        · rw [erase_of_ne _ hab]
          exact he.absent s key hn
      · by_cases hab : s = a.1 ∧ key = a.2
        · rw [hab.1, hab.2, hv] at hw
          rw [hab.1, hab.2, erase_self, ← some.inj hw]
          exact .inr ⟨rfl, hle⟩
        · rw [erase_of_ne _ hab]
          exact .inl (he.later s key w hw)
    · exact ⟨h, id, Collected.refl⟩

theorem garbage_collect_spec (h : Inv cf cf.all P) (now : SpTime) (order : List (ℕ × PrioKey)) :
    Inv cf cf.all (priority_garbage_collect cf now order P) ∧
      (Freed P → Freed (priority_garbage_collect cf now order P)) ∧
      Collected cf now P (priority_garbage_collect cf now order P) := by
  unfold priority_garbage_collect
  induction order generalizing P with
  | nil => exact ⟨h, id, Collected.refl⟩
  | cons a order ih =>
    obtain ⟨hinv, hfreed, hc⟩ := collect_entry_spec h now a
    obtain ⟨hinv', hfreed', hc'⟩ := ih hinv
    rw [foldl_cons]
    exact ⟨hinv', fun hf => hfreed' (hfreed hf), hc.trans hc'⟩

end Collect

/-! ## 5. Events -/

def Flood.note (P : Flood) (m : PrioMsg) : Flood :=
  { P with node_incarnation := Function.update P.node_incarnation m.source m.key.incarnation }

theorem Inv.note {cf : PrioConf} {P : Flood} (h : Inv cf cf.all P) (m : PrioMsg) :
    Inv cf cf.all (P.note m) :=
  h.of_eq rfl rfl rfl rfl

/-- What `Priority_Flood_Disseminate` makes of a message. -/
inductive Outcome (cf : PrioConf) (src_link : Option ℕ) (env : DissemEnv) (m : PrioMsg) (P : Flood) :
    Flood × Ret → Prop
  | refused (hold : env.verified = false ∨ m.key.incarnation < P.node_incarnation m.source) :
      Outcome cf src_link env m P (P, .no_route)
  | rejected (hinc : P.node_incarnation m.source ≤ m.key.incarnation)
      (hnew : P.belly m.source m.key = none) : Outcome cf src_link env m P (P.note m, .no_route)
  | stored {P' : Flood} {r : Ret} (hver : env.verified = true)
      (hinc : P.node_incarnation m.source ≤ m.key.incarnation)
      (hnew : P.belly m.source m.key = none) (hlive : ¬ m.expire.le env.now)
      (hopen : Opened cf src_link env.mode m (P.note m) cf.degree P') (hret : r ≠ .no_route) :
      Outcome cf src_link env m P (P', r)
  | again {v : FloodValue} {P' : Flood} (hver : env.verified = true)
      (hinc : P.node_incarnation m.source ≤ m.key.incarnation)
      (hv : P.belly m.source m.key = some v)
      (hmask : ∀ k, src_link = some k → v.need_count ≠ 0 → (v.status k).flag ≠ .not_in_mask)
      (hkeeps : Keeps cf cf.all (P.note m) P') : Outcome cf src_link env m P (P', .no_route)
  /-- Seen before, still needed, and from a neighbour that is not on the mask. -/
  | exits {v : FloodValue} {k : ℕ} (hver : env.verified = true)
      (hinc : P.node_incarnation m.source ≤ m.key.incarnation)
      (hv : P.belly m.source m.key = some v) (hk : src_link = some k) (hn : v.need_count ≠ 0)
      (hmask : (v.status k).flag = .not_in_mask) :
      Outcome cf src_link env m P ({ P.note m with halt := .invalid_status }, .no_route)

section Events

variable {cf : PrioConf} {P P' : Flood}

theorem disseminate_outcome (h : Inv cf cf.all P) (hrun : P.halt = .running) {hop : Option ℕ}
    {env : DissemEnv} {m : PrioMsg} (hok : Event.Ok cf P (.disseminate hop env m)) :
    Outcome cf hop env m P (priority_flood_disseminate cf hop env m P) := by
  obtain ⟨hlink, hs⟩ := hok
  unfold priority_flood_disseminate
  split
  · rename_i hver
    exact .refused (.inl hver)
  rename_i hver
  split
  · rename_i hinc
    exact .refused (.inr hinc)
  rename_i hinc
  have hver' := eq_true_of_ne_false hver
  have hinc' := Nat.le_of_not_lt hinc
  dsimp only
  cases hv : P.belly m.source m.key with
  | none =>
    dsimp only
    split
    · exact .rejected hinc' hv
    · rename_i hlive
      split
      · exact .rejected hinc' hv
      · rename_i hprio
        have hopen : Opened cf hop env.mode m (P.note m) cf.degree
            (disseminate_new cf hop env m (P.note m)).1 :=
          disseminate_new_opened (h.note m) hrun hs (by omega) hv
        exact .stored hver' hinc' hv hlive hopen (disseminate_new_ret cf hop env m _)
  | some v =>
    rcases disseminate_again_cases (h.note m) hlink hv with ⟨k, hk, hn, hflag, heq⟩ | ⟨hmask, hkeeps⟩
    · have hexits : Outcome cf hop env m P
          ({ P.note m with halt := .invalid_status }, .no_route) :=
        .exits hver' hinc' hv hk hn hflag
      rw [← heq] at hexits
      exact hexits
    · exact .again hver' hinc' hv hmask hkeeps

theorem Outcome.inv {hop : Option ℕ} {env : DissemEnv} {m : PrioMsg} {c : Flood × Ret}
    (ho : Outcome cf hop env m P c) (h : Inv cf cf.all P) :
    Inv cf cf.all c.1 ∧ (1 ≤ cf.degree → Freed P → Freed c.1) := by
  cases ho with
  | refused hold => exact ⟨h, fun _ hf => hf⟩
  | rejected hinc hnew => exact ⟨h.note m, fun _ hf => hf.of_eq rfl⟩
  | stored hver hinc hnew hlive hopen hret =>
    have hinv := hopen.inv
    rw [all_set_done] at hinv
    exact ⟨hinv, fun hd hf => hopen.freed hd (hf.of_eq rfl)⟩
  | again hver hinc hv hmask hkeeps =>
    obtain ⟨hinv, hfreed, -⟩ := hkeeps (h.note m)
    exact ⟨hinv, fun _ hf => hfreed (hf.of_eq rfl)⟩
  | exits hver hinc hv hk hn hmask =>
    exact ⟨h.of_eq rfl rfl rfl rfl, fun _ hf => hf.of_eq rfl⟩

theorem step_inv {e : Event} (h : Inv cf cf.all P) (hstep : Step cf P e P') :
    Inv cf cf.all P' ∧ (1 ≤ cf.degree → Freed P → Freed P') := by
  obtain ⟨hrun, hok, rfl⟩ := hstep
  cases e with
  | disseminate hop env m => exact (disseminate_outcome h hrun hok).inv h
  | send_one k mode rounds =>
    obtain ⟨hinv, hfreed, -⟩ := send_one_keeps hok mode rounds h
    exact ⟨hinv, fun _ => hfreed⟩
  | garbage_collect now order =>
    obtain ⟨hinv, hfreed, -⟩ := garbage_collect_spec h now order
    exact ⟨hinv, fun _ => hfreed⟩

theorem init_inv (cf : PrioConf) (sec : ℕ) : Inv cf cf.all (init_priority_flooding cf sec) := by
  refine ⟨fun s key v hv => absurd hv (by simp [init_priority_flooding]), fun k _ => ?_,
    fun k _ s key x hx => absurd hx (by simp [init_priority_flooding, Flood.queued]),
    fun a ha k _ => ?_⟩
  · refine ⟨fun s p n hn => absurd hn not_mem_nil,
      fun s key x hx => absurd hx (by simp [init_priority_flooding, Flood.queued]),
      fun _ _ => nodup_nil,
      fun s key x hx => absurd hx (by simp [init_priority_flooding, Flood.queued]), fun s => ?_, ?_,
      fun _ => IsTop.empty fun _ _ _ => rfl, fun _ => IsBottom.empty fun _ _ _ => rfl⟩
    · symm
      exact Finset.sum_eq_zero fun _ _ => rfl
    · symm
      exact Finset.sum_eq_zero fun _ _ => rfl
  · rw [eq_of_mem_replicate ha]

theorem run_inv {sec : ℕ} (hrun : Run (Step cf) (init_priority_flooding cf sec) P) :
    Inv cf cf.all P ∧ (1 ≤ cf.degree → Freed P) := by
  refine hrun.invariant (fun P => Inv cf cf.all P ∧ (1 ≤ cf.degree → Freed P))
    ⟨init_inv cf sec, fun _ s key v hv => absurd hv (by simp [init_priority_flooding])⟩ ?_
  intro P1 e P2 h hstep
  obtain ⟨hinv, hfreed⟩ := step_inv h.1 hstep
  exact ⟨hinv, fun hd => hfreed hd (h.2 hd)⟩

end Events

/-! ## 6. The tables of a daemon are consistent -/

def Flood.node_packets (cf : PrioConf) (P : Flood) (s : ℕ) (n : PqNode) : ℕ :=
  (P.belly s n.entry).elim 0 (FloodValue.packets cf)

/-- The message has a node in the lists toward neighbour `k`. -/
def Flood.queued_toward (P : Flood) (s : ℕ) (key : PrioKey) (k : ℕ) : Prop :=
  ∃ p, ∃ n ∈ (P.edge k).pq s p, n.entry = key

structure Consistent (cf : PrioConf) (P : Flood) : Prop where
  msg_count : ∀ k, cf.nbr k → ∀ s, (P.edge k).msg_count s =
    ∑ p ∈ Finset.Icc 1 MAX_PRIORITY, (((P.edge k).pq s p).map (P.node_packets cf s)).sum
  total_msg : ∀ k, cf.nbr k →
    (P.edge k).total_msg = ∑ s ∈ Finset.Icc 1 MAX_NODES, (P.edge k).msg_count s
  max_pq : ∀ k, cf.nbr k → ∀ s, IsTop MAX_PRIORITY ((P.edge k).pq s) ((P.edge k).max_pq s)
  min_pq : ∀ k, cf.nbr k → ∀ s, IsBottom MAX_PRIORITY ((P.edge k).pq s) ((P.edge k).min_pq s)
  node : ∀ k, cf.nbr k → ∀ s p, ∀ n ∈ (P.edge k).pq s p, (1 ≤ s ∧ s ≤ MAX_NODES) ∧
    ∃ v, P.belly s n.entry = some v ∧ v.priority = p ∧ v.status k = ⟨.need_msg, some n.id⟩
  need_count : ∀ s key v, P.belly s key = some v →
    v.need_count = Set.ncard {k | cf.nbr k ∧ P.queued_toward s key k}
  freed : ∀ s key v, P.belly s key = some v →
    (v.need_count = 0 ↔ v.ns = none) ∧ (v.need_count = 0 ↔ v.msg_scat = none)

section Consistent

variable {cf : PrioConf} {P : Flood} (h : Inv cf cf.all P)
include h

theorem Inv.queued_toward {s k : ℕ} {key : PrioKey} {v : FloodValue}
    (hv : P.belly s key = some v) (hk : cf.nbr k) :
    P.queued_toward s key k ↔ (v.status k).ngbr ≠ none := by
  have hview := queued_eq cf P s key k hv
  constructor
  · rintro ⟨p, n, hn, hkey⟩ hnone
    obtain ⟨x, hx, -⟩ := (h.link k hk).node s p n hn
    rw [hkey, hview, view_eq_none.mpr hnone] at hx
    exact absurd hx (by simp)
  · intro hne
    have hsome : P.queued cf k s key ≠ none := by
      rw [hview]
      exact mt view_eq_none.mp hne
    obtain ⟨x, hx⟩ := ne_none_iff_exists'.mp hsome
    obtain ⟨n, hn, -, hkey⟩ := (h.link k hk).back s key x hx
    exact ⟨x.priority, n, hn, hkey⟩

theorem Inv.need_count {s : ℕ} {key : PrioKey} {v : FloodValue} (hv : P.belly s key = some v) :
    v.need_count = Set.ncard {k | cf.nbr k ∧ P.queued_toward s key k} := by
  have hset : {k | cf.nbr k ∧ P.queued_toward s key k} =
      ((Finset.Icc 1 cf.degree).filter (fun k => (v.status k).ngbr ≠ none) : Set ℕ) := by
    ext k
    rw [Set.mem_ofPred_eq, Finset.mem_coe, Finset.mem_filter, Finset.mem_Icc]
    exact and_congr_right fun hk => h.queued_toward hv hk
  have hcard : ((Finset.Icc 1 cf.degree).filter (fun k => (v.status k).ngbr ≠ none)).card =
      v.waiting cf := by
    rw [Finset.card_filter]
    apply Finset.sum_congr rfl
    intro k _
    by_cases hk : (v.status k).ngbr = none <;> simp [hk]
  have hneed := (h.entry s key v hv).2.need
  have hall : cf.all s key = cf.degree := rfl
  rw [hset, Set.ncard_coe_finset, hcard]
  omega

theorem Inv.consistent (hfreed : Freed P) : Consistent cf P := by
  refine ⟨fun k hk s => ?_, fun k hk => (h.link k hk).total, fun k hk => (h.link k hk).top,
    fun k hk => (h.link k hk).bottom, fun k hk s p n hn => ?_, fun s key v => h.need_count,
    fun s key v hv => ?_⟩
  · have hcongr : weight ((P.queued cf k).packets s) MAX_PRIORITY ((P.edge k).pq s) =
        weight (P.node_packets cf s) MAX_PRIORITY ((P.edge k).pq s) := by
      apply weight_congr
      intro p _ _ n hn
      obtain ⟨v, hv, -, -, -, hx⟩ := h.node_entry hk hn
      rw [Table.packets, hx, Flood.node_packets, hv]
      rfl
    rw [(h.link k hk).count s, hcongr]
    rfl
  · obtain ⟨v, hv, hprio, hngbr, hneed, -⟩ := h.node_entry hk hn
    obtain ⟨hs, hok⟩ := h.entry s n.entry v hv
    have hflag := (hok.flag hneed k hk.1 hk.2).1.mpr (by rw [hngbr]; simp)
    exact ⟨hs, v, hv, hprio, congrArg₂ NeighborStatus.mk hflag hngbr⟩
  · have hok := (h.entry s key v hv).2
    constructor
    · exact ⟨fun h0 => (hfreed s key v hv h0).1, fun hn => by
        by_contra hne
        exact (hok.alive hne).1 hn⟩
    · exact ⟨fun h0 => (hfreed s key v hv h0).2, fun hn => by
        by_contra hne
        exact (hok.alive hne).2 hn⟩

end Consistent

def session_msg : PrioMsg where
  source := 1
  dest := 2
  key := ⟨0, 1⟩
  priority := 1
  expire := ⟨600, 0⟩
  mask := 0
  elements := [16]
  elements_length := by decide

def session_call : Event := .disseminate none ⟨⟨0, 0⟩, true, 0, fun _ => []⟩ session_msg

theorem disseminate_alone {cf : PrioConf} (hd : cf.degree = 0) (hop : Option ℕ)
    (env : DissemEnv) (m : PrioMsg) (P : Flood) :
    (disseminate_new cf hop env m P).1.belly m.source m.key =
      some ⟨m.expire, m.priority, 0, some m, env.mode, some (new_ns P).1⟩ := by
  unfold disseminate_new
  rw [hd]
  exact set_entry_self P m.source m.key _

theorem alone_keeps_data {cf : PrioConf} (hd : cf.degree = 0) :
    Step cf (init_priority_flooding cf 0) session_call
        (handle cf (init_priority_flooding cf 0) session_call) ∧
      ¬ Consistent cf (handle cf (init_priority_flooding cf 0) session_call) := by
  refine ⟨⟨rfl, ⟨fun k hk => absurd hk (by simp), by decide, by decide⟩, rfl⟩, fun hc => ?_⟩
  have hinc : ¬ session_msg.key.incarnation <
      (init_priority_flooding cf 0).node_incarnation session_msg.source := by
    simp [init_priority_flooding]
  have hlive : ¬ session_msg.expire.le ⟨0, 0⟩ := by decide
  have hprio : ¬ (session_msg.priority = 0 ∨ MAX_PRIORITY < session_msg.priority) := by decide
  have hnew : handle cf (init_priority_flooding cf 0) session_call =
      (disseminate_new cf none ⟨⟨0, 0⟩, true, 0, fun _ => []⟩ session_msg
        ((init_priority_flooding cf 0).note session_msg)).1 := by
    dsimp only [handle, session_call, priority_flood_disseminate]
    rw [if_neg (by decide), if_neg hinc]
    change Prod.fst (if session_msg.expire.le ⟨0, 0⟩ then _ else _) = _
    rw [if_neg hlive, if_neg hprio]
    rfl
  have hentry := disseminate_alone hd none ⟨⟨0, 0⟩, true, 0, fun _ => []⟩ session_msg
    ((init_priority_flooding cf 0).note session_msg)
  rw [← hnew] at hentry
  have hns := (hc.freed _ _ _ hentry).1.mp rfl
  exact absurd hns (by simp)

/-- **The lists, the counters and the stored messages are consistent in every state of
every run exactly if the daemon has a neighbour.** -/
theorem consistent_iff_neighbour (cf : PrioConf) :
    (∀ sec P, Run (Step cf) (init_priority_flooding cf sec) P → Consistent cf P) ↔
      1 ≤ cf.degree := by
  constructor
  · intro hall
    by_contra hd
    have hzero : cf.degree = 0 := by omega
    obtain ⟨hstep, hnot⟩ := alone_keeps_data hzero
    exact hnot (hall 0 _ ((Run.refl _).tail hstep))
  · intro hd sec P hrun
    obtain ⟨hinv, hfreed⟩ := run_inv hrun
    exact hinv.consistent (hfreed hd)

def isolated : PrioConf where
  my_id := 1
  degree := 0
  neighbor_ids := fun _ => 0
  mp_neighbor_mask := fun _ => 0
  max_mess_stored := 500
  link_header_size := fun _ => 0
  ns_threshold := 20

/-- It keeps the data of the first message of its session. -/
theorem isolated_keeps_data :
    ∃ P, Run (Step isolated) (init_priority_flooding isolated 0) P ∧ ¬ Consistent isolated P := by
  obtain ⟨hstep, hnot⟩ := alone_keeps_data (show isolated.degree = 0 from rfl)
  exact ⟨_, (Run.refl _).tail hstep, hnot⟩

/-! ## 7. The loop over the neighbours -/

def disseminate_rounds (cf : PrioConf) (src_link : Option ℕ) (env : DissemEnv) (m : PrioMsg)
    (P : Flood) (i : ℕ) : Flood :=
  ((range' 1 i).foldl (disseminate_ngbr cf src_link env m)
    ({ P.set_entry m.source m.key
        ⟨m.expire, m.priority, cf.degree, some m, env.mode, some (new_ns P).1⟩ with
      ns_pool := (new_ns P).2 }, .buff_ok)).1

/-- **A new message stays while it is handed out**, whatever is sent and dropped on the way: it is
needed by those that are still to come and those that have it in a list, and no status that is
still to be set has an address of an earlier message. -/
theorem new_message_stays {cf : PrioConf} {P : Flood} {sec : ℕ}
    (hrun : Run (Step cf) (init_priority_flooding cf sec) P) (halive : P.halt = .running)
    {hop : Option ℕ} {env : DissemEnv} {m : PrioMsg}
    (hs : 1 ≤ m.source ∧ m.source ≤ MAX_NODES) (hprio : 1 ≤ m.priority ∧ m.priority ≤ MAX_PRIORITY)
    (hnone : P.belly m.source m.key = none) {i : ℕ} (hi : i < cf.degree) :
    let P' := disseminate_rounds cf hop env m (P.note m) i
    P'.halt = .running ∧ (∃ v, P'.belly m.source m.key = some v ∧ v.msg_scat = some m ∧
      v.ns ≠ none ∧ v.need_count = cf.degree - i + v.waiting cf ∧
      ∀ k, i < k → k ≤ cf.degree → (v.status k).ngbr = none) ∧
    ∀ a ∈ P'.ns_pool, ∀ k, cf.nbr k → (a k).ngbr = none := by
  have hopen : Opened cf hop env.mode m (P.note m) i
      (disseminate_rounds cf hop env m (P.note m) i) :=
    (Opened.start ((run_inv hrun).1.note m) hs hprio hnone env.mode).rounds halive .buff_ok i hi.le
  obtain ⟨v, hv, hent, hok, -, hneed⟩ := hopen.open_entry hi
  exact ⟨hopen.halt.trans halive, ⟨v, hv, hent.msg_scat hneed, (hok.alive hneed).1,
    hok.need.trans (Nat.add_comm _ _), hok.rest⟩, hopen.inv.pool⟩

/-- Between the rounds for two neighbours. -/
theorem session_msg_stays :
    let cf := { isolated with degree := 2 }
    ∃ v, (disseminate_rounds cf none ⟨⟨0, 0⟩, true, 0, fun _ => []⟩ session_msg
      ((init_priority_flooding cf 0).note session_msg) 1).belly 1 ⟨0, 1⟩ = some v ∧
        v.msg_scat = some session_msg ∧ v.need_count ≠ 0 := by
  intro cf
  obtain ⟨-, ⟨v, hv, hmsg, -, hneed, -⟩, -⟩ := @new_message_stays cf _ 0 (Run.refl _) rfl none
    ⟨⟨0, 0⟩, true, 0, fun _ => []⟩ session_msg (by decide) (by decide) rfl 1 (by decide)
  have hdegree : cf.degree = 2 := rfl
  exact ⟨v, hv, hmsg, by omega⟩

end Spines.Priority
