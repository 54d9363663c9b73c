/-
The capacity of the lists toward a neighbour (`Priority_Flood_Disseminate` of
`daemon/priority_flood.c`, "Check if this belly is now over capacity").

`total_msg` counts packets. When a message was queued toward a neighbour and there
are more than `Conf_Prio.Max_Mess_Stored` of them then, one message is dropped: the
oldest of the lowest priority of the source that takes the most room. It may have
fewer packets than are too many, and nothing looks again (`small_victim_exceeds`).
-/
import Spines.Priority.Dissem

set_option autoImplicit false

namespace Spines.Priority

open Spines.Lib Spines.IntruTol Spines.RelFlood Function List

/-! ## 1. Operations that only take messages out -/

structure PrioLink.Thins (ld ld' : PrioLink) : Prop where
  total : ld'.total_msg ≤ ld.total_msg
  lists : ∀ s p, List.Sublist (ld'.pq s p) (ld.pq s p)

structure Thins (P P' : Flood) : Prop where
  link : ∀ k, (P.edge k).Thins (P'.edge k)
  next_id : P'.next_id = P.next_id

structure IsNew (env : DissemEnv) (m : PrioMsg) (P : Flood) : Prop where
  running : P.halt = .running
  verified : env.verified = true
  incarnation : P.node_incarnation m.source ≤ m.key.incarnation
  unseen : P.belly m.source m.key = none
  live : ¬ m.expire.le env.now
  priority : 1 ≤ m.priority ∧ m.priority ≤ MAX_PRIORITY

structure Allows (R : Flood → Flood → Prop) : Prop where
  of_eq : ∀ {P P' : Flood}, P'.edge = P.edge → P'.next_id = P.next_id → R P P'
  trans : ∀ {P P' P'' : Flood}, R P P' → R P' P'' → R P P''
  unlink : ∀ P k s priority id packets, R P (P.on_edge k (PrioLink.unlink s priority id packets))

theorem release_edge (cf : PrioConf) (s : ℕ) (key : PrioKey) (P : Flood) :
    (release cf s key P).edge = P.edge ∧ (release cf s key P).next_id = P.next_id := by
  unfold release
  split
  · exact ⟨rfl, rfl⟩
  · split <;> exact ⟨rfl, rfl⟩

section Allows

variable {R : Flood → Flood → Prop} (h : Allows R) (cf : PrioConf)
include h

theorem Allows.cleanup (k s : ℕ) (key : PrioKey) (flag : MsgStatus) (P : Flood) :
    R P (cleanup_prio_flood_ds cf k s key flag P) := by
  have hround : ∀ packets (P : Flood) i, R P (cleanup_ngbr s key packets flag P i) := by
    intro packets P i
    unfold cleanup_ngbr
    split
    · exact h.of_eq rfl rfl
    split
    · exact h.of_eq rfl rfl
    split
    · exact h.of_eq rfl rfl
    · exact h.trans (h.unlink P i s _ _ packets) (h.of_eq rfl rfl)
  have hfold : ∀ packets (l : List ℕ) (P : Flood),
      R P (l.foldl (cleanup_ngbr s key packets flag) P) := by
    intro packets l
    induction l with
    | nil => exact fun _ => h.of_eq rfl rfl
    | cons i l ih => exact fun P => h.trans (hround packets P i) (ih _)
  unfold cleanup_prio_flood_ds
  split
  · exact h.of_eq rfl rfl
  split
  · exact h.of_eq rfl rfl
  · exact h.trans (hfold _ _ P) (h.of_eq (release_edge cf s key _).1 (release_edge cf s key _).2)

theorem Allows.settle (s : ℕ) (key : PrioKey) (k : ℕ) (flag : MsgStatus) (P : Flood) :
    R P (settle cf s key k flag P) := by
  unfold Priority.settle
  split
  · exact h.of_eq rfl rfl
  · exact h.of_eq (release_edge cf s key _).1 (release_edge cf s key _).2

theorem Allows.drop_one (k : ℕ) (P : Flood) : R P (drop_one cf k P) := by
  unfold Priority.drop_one
  dsimp only
  split
  · exact h.of_eq rfl rfl
  · exact h.cleanup cf k _ _ _ P

theorem Allows.again (hop : Option ℕ) (m : PrioMsg) (v : FloodValue) (P : Flood) :
    R P (disseminate_again cf hop m v P) := by
  unfold disseminate_again
  split
  · exact h.of_eq rfl rfl
  split
  · exact h.of_eq rfl rfl
  split
  · exact h.of_eq rfl rfl
  · exact h.of_eq rfl rfl
  · exact h.of_eq rfl rfl
  · exact h.of_eq rfl rfl
  · exact h.cleanup cf _ _ _ _ P
  · exact h.of_eq rfl rfl

theorem Allows.disseminate (hop : Option ℕ) (env : DissemEnv) (m : PrioMsg) {P : Flood}
    (hrun : P.halt = .running) (hold : ¬ IsNew env m P) :
    R P (priority_flood_disseminate cf hop env m P).1 := by
  unfold priority_flood_disseminate
  split
  · exact h.of_eq rfl rfl
  rename_i hver
  split
  · exact h.of_eq rfl rfl
  rename_i hinc
  dsimp only
  split
  · rename_i hnone
    split
    · exact h.of_eq rfl rfl
    rename_i hlive
    split
    · exact h.of_eq rfl rfl
    · rename_i hprio
      exact absurd ⟨hrun, Bool.eq_true_of_not_eq_false hver, Nat.le_of_not_lt hinc, hnone, hlive,
        by omega⟩ hold
  · have hnote : R P (P.note m) := h.of_eq rfl rfl
    exact h.trans hnote (h.again cf hop m _ (P.note m))

theorem Allows.garbage_collect (now : SpTime) (order : List (ℕ × PrioKey)) :
    ∀ P : Flood, R P (priority_garbage_collect cf now order P) := by
  unfold priority_garbage_collect
  induction order with
  | nil => exact fun _ => h.of_eq rfl rfl
  | cons a order ih =>
    intro P
    rw [foldl_cons]
    refine h.trans ?_ (ih _)
    unfold collect_entry
    split
    · exact h.of_eq rfl rfl
    split
    · exact h.trans (h.cleanup cf 0 a.1 a.2 _ P) (h.of_eq rfl rfl)
    · exact h.of_eq rfl rfl

end Allows

section Thins

variable {cf : PrioConf} {P P' P'' : Flood} {ld ld' ld'' : PrioLink}

theorem PrioLink.Thins.refl (ld : PrioLink) : ld.Thins ld :=
  ⟨Nat.le_refl _, fun _ _ => List.Sublist.refl _⟩

theorem PrioLink.Thins.trans (h : ld.Thins ld') (h' : ld'.Thins ld'') : ld.Thins ld'' :=
  ⟨h'.total.trans h.total, fun s p => (h'.lists s p).trans (h.lists s p)⟩

theorem unlink_fields (s priority id packets : ℕ) (ld : PrioLink) :
    (ld.unlink s priority id packets).pq =
        set2 ld.pq s priority ((ld.pq s priority).filter (fun n => n.id ≠ id)) ∧
      (ld.unlink s priority id packets).total_msg = ld.total_msg - packets := by
  unfold PrioLink.unlink
  dsimp only
  split_ifs <;> exact ⟨rfl, rfl⟩

theorem unlink_thins (s priority id packets : ℕ) (ld : PrioLink) :
    ld.Thins (ld.unlink s priority id packets) := by
  obtain ⟨hpq, htotal⟩ := unlink_fields s priority id packets ld
  refine ⟨by rw [htotal]; exact Nat.sub_le _ _, fun a p => ?_⟩
  rw [hpq]
  by_cases hap : a = s ∧ p = priority
  · rw [hap.1, hap.2, set2_self]
    exact filter_sublist
  · rw [set2_of_ne _ _ hap]

theorem Thins.of_eq (he : P'.edge = P.edge) (hi : P'.next_id = P.next_id) : Thins P P' := by
  refine ⟨fun k => ?_, hi⟩
  rw [he]
  exact PrioLink.Thins.refl _

theorem Thins.trans (h : Thins P P') (h' : Thins P' P'') : Thins P P'' :=
  ⟨fun k => (h.link k).trans (h'.link k), h'.next_id.trans h.next_id⟩

theorem Thins.on_edge {k : ℕ} {f : PrioLink → PrioLink} (hf : (P.edge k).Thins (f (P.edge k))) :
    Thins P (P.on_edge k f) := by
  refine ⟨fun j => ?_, rfl⟩
  dsimp only [Flood.on_edge]
  by_cases hj : j = k
  · rw [hj, update_self]
    exact hf
  · rw [update_of_ne hj]
    exact PrioLink.Thins.refl _

theorem Thins.schedule (P : Flood) (k : ℕ) {f : PrioLink → PrioLink}
    (hf : ∀ ld, ∃ urgent norm in_send_queue,
      f ld = { ld with urgent := urgent, norm := norm, in_send_queue := in_send_queue }) :
    Thins P (P.on_edge k f) := by
  refine Thins.on_edge ?_
  obtain ⟨urgent, norm, q, heq⟩ := hf (P.edge k)
  rw [heq]
  exact ⟨le_refl _, fun _ _ => List.Sublist.refl _⟩

theorem thins_allows : Allows Thins where
  of_eq := Thins.of_eq
  trans := Thins.trans
  unlink := fun _ _ _ _ _ _ => .on_edge (unlink_thins _ _ _ _ _)

theorem serve_thins (cf : PrioConf) (k mode : ℕ) (r : SendRound) (e : SendFair) (P : Flood) :
    Thins P (serve cf k mode r e P).1 := by
  unfold serve
  dsimp only
  split
  · exact .of_eq rfl rfl
  split
  · exact (thins_allows.cleanup cf k _ _ _ P).trans (.schedule _ k (charge_schedule 1))
  split
  · exact (Thins.schedule P k (rotate_schedule _)).trans (thins_allows.cleanup cf k _ _ _ _)
  · exact .schedule P k (charge_schedule _)

theorem send_round_thins (cf : PrioConf) (k mode : ℕ) (P : Flood) (r : SendRound) :
    Thins P (send_round cf k mode P r).1 := by
  unfold send_round
  dsimp only
  split
  · split
    · exact .schedule P k (fun ld => ⟨_, _, ld.in_send_queue, rfl⟩)
    · exact (Thins.schedule P k (fun ld => ⟨_, ld.norm, ld.in_send_queue, rfl⟩)).trans
        (serve_thins cf k mode r _ _)
  · split
    · exact .schedule P k (fun ld => ⟨ld.urgent, _, ld.in_send_queue, rfl⟩)
    split
    · exact .schedule P k (fun ld => ⟨ld.urgent, _, _, rfl⟩)
    · exact (Thins.schedule P k (fun ld => ⟨ld.urgent, _, ld.in_send_queue, rfl⟩)).trans
        (serve_thins cf k mode r _ _)
  · exact .of_eq rfl rfl

theorem send_one_thins (cf : PrioConf) (k mode : ℕ) (rounds : List SendRound) (P : Flood) :
    Thins P (priority_flood_send_one cf k mode rounds P) :=
  send_one_of_round (fun _ => .of_eq rfl rfl) (fun h h' => h.trans h')
    (send_round_thins cf k mode) rounds P

end Thins

/-! ## 2. What is dropped -/

/-- In the lists toward a neighbour: the oldest message of the lowest priority of a
source that takes the most room. -/
structure Victim (ld : PrioLink) (s p : ℕ) (node : PqNode) (rest : List PqNode) : Prop where
  head : ld.pq s p = node :: rest
  lowest : ∀ q, 1 ≤ q → q < p → ld.pq s q = []
  oldest : ∀ n ∈ rest, node.id < n.id
  largest : ∀ a, ld.msg_count a ≤ ld.msg_count s

/-- Exactly the victim leaves the lists toward neighbour `k`. -/
def DropsVictim (cf : PrioConf) (k : ℕ) (P P' : Flood) : Prop :=
  ∃ s p node rest, Victim (P.edge k) s p node rest ∧
    (P'.edge k).pq = set2 (P.edge k).pq s p rest ∧
    (P'.edge k).total_msg + P.node_packets cf s node = (P.edge k).total_msg ∧
    ∀ j, j ≠ k → P'.edge j = P.edge j

def victim_packets (cf : PrioConf) (k : ℕ) (P : Flood) : ℕ :=
  let ld := P.edge k
  let hog_index := find_hog ld
  match ld.pq hog_index (ld.min_pq hog_index) with
  | [] => 0
  | node :: _ => P.node_packets cf hog_index node

def Ordered (P : Flood) : Prop :=
  ∀ k s p, List.Pairwise (fun a b => a.id < b.id) ((P.edge k).pq s p) ∧
    ∀ n ∈ (P.edge k).pq s p, n.id < P.next_id

section Victim

variable {cf : PrioConf} {done : ℕ → PrioKey → ℕ} {P P' : Flood} {k : ℕ}

theorem Ordered.thins (h : Ordered P) (ht : Thins P P') : Ordered P' := by
  intro k s p
  have hsub := (ht.link k).lists s p
  rw [ht.next_id]
  exact ⟨(h k s p).1.sublist hsub, fun n hn => (h k s p).2 n (hsub.subset hn)⟩

theorem cleanup_edge {s : ℕ} {key : PrioKey} {flag : MsgStatus} {v : FloodValue} {id : ℕ}
    (hv : P.belly s key = some v) (hneed : v.need_count ≠ 0) (hid : (v.status k).ngbr = some id)
    (hflag : flag ≠ .expired_msg) : (cleanup_prio_flood_ds cf k s key flag P).edge =
      update P.edge k ((P.edge k).unlink s v.priority id (v.packets cf)) := by
  unfold cleanup_prio_flood_ds
  rw [hv]
  dsimp only
  rw [if_neg hneed, (release_edge cf s key _).1, if_neg hflag, foldl_cons, foldl_nil]
  unfold cleanup_ngbr
  rw [hv]
  dsimp only
  rw [if_neg hneed, hid]
  rfl

theorem Implements.packets_le {Q : Table} {ld : PrioLink} (h : Implements Q ld) {s : ℕ}
    {key : PrioKey} {x : Queued} (hx : Q s key = some x) : x.packets ≤ ld.total_msg := by
  have hweight := h.weight_unlink hx
  have hrange := (h.fits s key x hx).1
  have hsingle : ld.msg_count s ≤ ∑ a ∈ Finset.Icc 1 MAX_NODES, ld.msg_count a :=
    Finset.single_le_sum (fun a _ => Nat.zero_le (ld.msg_count a)) (Finset.mem_Icc.mpr hrange)
  rw [h.total]
  omega

theorem drop_one_right (h : Inv cf done P) (hordered : Ordered P) (hk : cf.nbr k)
    (ht : (P.edge k).total_msg ≠ 0) :
    DropsVictim cf k P (drop_one cf k P) ∧
      ((drop_one cf k P).edge k).total_msg + victim_packets cf k P = (P.edge k).total_msg := by
  have hlink := h.link k hk
  obtain ⟨node, rest, hlist⟩ :=
    exists_cons_of_ne_nil (hlink.min_ne_nil (find_hog_spec hlink ht))
  obtain ⟨v, hv, hprio, hngbr, hneed, hx⟩ :=
    h.node_entry hk (show node ∈ (P.edge k).pq _ _ by rw [hlist]; exact mem_cons_self)
  have hedge := @cleanup_edge cf P k _ _ .dropped_msg v _ hv hneed hngbr (by decide)
  have hpackets : P.node_packets cf (find_hog (P.edge k)) node = v.packets cf := by
    rw [Flood.node_packets, hv]
    rfl
  have hdrop : drop_one cf k P =
      cleanup_prio_flood_ds cf k (find_hog (P.edge k)) node.entry .dropped_msg P := by
    unfold drop_one
    dsimp only
    rw [hlist]
  have hvictim : victim_packets cf k P = v.packets cf := by
    unfold victim_packets
    dsimp only
    rw [hlist]
    exact hpackets
  have hle : v.packets cf ≤ (P.edge k).total_msg := hlink.packets_le hx
  -- the others of the list are younger, so they stay
  have hpair := (hordered k (find_hog (P.edge k)) ((P.edge k).min_pq (find_hog (P.edge k)))).1
  rw [hlist, pairwise_cons] at hpair
  have hfilter : (node :: rest).filter (fun n => n.id ≠ node.id) = rest := by
    rw [filter_cons_of_neg (by simp), filter_eq_self]
    intro n hn
    have hlt := hpair.1 n hn
    simp only [decide_eq_true_eq]
    omega
  obtain ⟨hpq, htotal⟩ := unlink_fields (find_hog (P.edge k)) v.priority node.id (v.packets cf)
    (P.edge k)
  have hself : ((drop_one cf k P).edge k).total_msg + v.packets cf = (P.edge k).total_msg := by
    rw [hdrop, hedge, update_self, htotal]
    omega
  refine ⟨⟨find_hog (P.edge k), (P.edge k).min_pq (find_hog (P.edge k)), node, rest,
    ⟨hlist, (hlink.bottom _).1, hpair.1, find_hog_max hlink⟩, ?_, ?_, fun j hj => ?_⟩, ?_⟩
  · rw [hdrop, hedge, update_self, hpq, hprio, hlist, hfilter]
  · rw [hpackets]
    exact hself
  · rw [hdrop, hedge, update_of_ne hj]
  · rw [hvictim]
    exact hself

end Victim

/-! ## 3. The loop of a call -/

def PrioConf.queues (cf : PrioConf) (src_link : Option ℕ) (m : PrioMsg) (k : ℕ) : Prop :=
  ¬ (cf.neighbor_ids k = src_link.elim cf.my_id cf.neighbor_ids ∨ cf.neighbor_ids k = m.source) ∧
    ¬ cf.on_path m.mask k = false ∧ m.dest ≠ cf.my_id

/-- The message was queued toward neighbour `k` and the lower level has called back; next
`total_msg` is compared with the capacity. -/
def before_check (cf : PrioConf) (env : DissemEnv) (m : PrioMsg) (k : ℕ) (P : Flood) : Flood :=
  (env.sends k).foldl (fun P rounds =>
    if P.halt = .running then priority_flood_send_one cf k env.mode rounds P else P)
    (enqueue cf env.mode m k P)

/-- The state after `n` rounds of the loop over the neighbours. -/
def after_rounds (cf : PrioConf) (src_link : Option ℕ) (env : DissemEnv) (m : PrioMsg) (P : Flood)
    (n : ℕ) : Flood :=
  ((range' 1 n).foldl (disseminate_ngbr cf src_link env m)
    ({ P.note m with
        belly := ((P.note m).set_entry m.source m.key
          ⟨m.expire, m.priority, cf.degree, some m, env.mode, some (new_ns (P.note m)).1⟩).belly
        ns_pool := (new_ns (P.note m)).2 }, .buff_ok)).1

/-- In state `P'` the call drops a message: the link to neighbour `k` is over capacity. -/
structure Drop (cf : PrioConf) (src_link : Option ℕ) (env : DissemEnv) (m : PrioMsg) (P : Flood)
    (k : ℕ) (P' : Flood) : Prop where
  is_new : IsNew env m P
  nbr : cf.nbr k
  queues : cf.queues src_link m k
  state : P' = before_check cf env m k (after_rounds cf src_link env m P (k - 1))
  exceeds : cf.max_mess_stored < (P'.edge k).total_msg

section Loop

variable {cf : PrioConf} {hop : Option ℕ} {env : DissemEnv} {m : PrioMsg} {P P₀ : Flood}

theorem IsNew.disseminate (h : IsNew env m P) : (priority_flood_disseminate cf hop env m P).1 =
      after_rounds cf hop env m P cf.degree := by
  unfold priority_flood_disseminate
  dsimp only
  rw [if_neg (by rw [h.verified]; simp), if_neg (not_lt.mpr h.incarnation), h.unseen]
  dsimp only
  rw [if_neg h.live, if_neg (by have hprio := h.priority; omega)]
  rfl

theorem IsNew.opened (h : IsNew env m P) (hinv : Inv cf cf.all P)
    (hs : 1 ≤ m.source ∧ m.source ≤ MAX_NODES) {n : ℕ} (hn : n ≤ cf.degree) :
    Opened cf hop env.mode m (P.note m) n (after_rounds cf hop env m P n) :=
  (Opened.start (hinv.note m) hs h.priority h.unseen env.mode).rounds h.running .buff_ok n hn

theorem after_rounds_succ (cf : PrioConf) (hop : Option ℕ) (env : DissemEnv) (m : PrioMsg)
    (P : Flood) (n : ℕ) : ∃ r, after_rounds cf hop env m P (n + 1) =
      (disseminate_ngbr cf hop env m (after_rounds cf hop env m P n, r) (n + 1)).1 := by
  unfold after_rounds
  rw [range'_1_concat, foldl_append, foldl_cons, foldl_nil, add_comm 1 n]
  exact ⟨_, rfl⟩

theorem sends_thins (cf : PrioConf) (k mode : ℕ) (l : List (List SendRound)) : ∀ P : Flood,
    Thins P (l.foldl (fun P rounds =>
      if P.halt = .running then priority_flood_send_one cf k mode rounds P else P) P) := by
  induction l with
  | nil => exact fun _ => .of_eq rfl rfl
  | cons rounds l ih =>
    intro P
    rw [foldl_cons]
    refine Thins.trans ?_ (ih _)
    split
    · exact send_one_thins cf k mode rounds P
    · exact .of_eq rfl rfl

inductive RoundOf (cf : PrioConf) (src_link : Option ℕ) (env : DissemEnv) (m : PrioMsg) (k : ℕ)
    (P : Flood) : Flood → Prop
  | settled (flag : MsgStatus) (hno : ¬ cf.queues src_link m k) :
      RoundOf cf src_link env m k P (settle cf m.source m.key k flag P)
  | fits (hq : cf.queues src_link m k)
      (hroom : ((before_check cf env m k P).edge k).total_msg ≤ cf.max_mess_stored) :
      RoundOf cf src_link env m k P (before_check cf env m k P)
  | drops (hq : cf.queues src_link m k)
      (hover : cf.max_mess_stored < ((before_check cf env m k P).edge k).total_msg) :
      RoundOf cf src_link env m k P (drop_one cf k (before_check cf env m k P))

theorem round_cases (hrun : P.halt = .running) {k : ℕ}
    (hsent : cf.queues hop m k → (before_check cf env m k P).halt = .running) (r : Ret) :
    RoundOf cf hop env m k P (disseminate_ngbr cf hop env m (P, r) k).1 := by
  unfold disseminate_ngbr
  dsimp only
  rw [if_neg (by rw [hrun]; simp)]
  split
  · rename_i hfrom
    exact .settled _ (fun hq => hq.1 hfrom)
  rename_i hfrom
  split
  · rename_i hoff
    exact .settled _ (fun hq => hq.2.1 hoff)
  rename_i hon
  split
  · rename_i hdest
    exact .settled _ (fun hq => hq.2.2 hdest)
  rename_i hdest
  have hq : cf.queues hop m k := ⟨hfrom, hon, hdest⟩
  split
  · rename_i hover
    exact .drops hq hover.2
  · rename_i hover
    exact .fits hq (Nat.le_of_not_lt fun hlt => hover ⟨hsent hq, hlt⟩)

theorem Opened.before_check {i : ℕ} (h : Opened cf hop env.mode m P₀ i P)
    (hi : i < cf.degree) (hq : cf.queues hop m (i + 1)) :
    Opened cf hop env.mode m P₀ (i + 1) (before_check cf env m (i + 1) P) :=
  (h.enqueue hi (fun hskip => hq.2.1 hskip.2.2)).1.keeps
    (sends_keeps ⟨by omega, hi⟩ env.mode (env.sends (i + 1)) _)

theorem IsNew.round (h : IsNew env m P) (hinv : Inv cf cf.all P)
    (hs : 1 ≤ m.source ∧ m.source ≤ MAX_NODES) {n : ℕ} (hn : n < cf.degree) :
    RoundOf cf hop env m (n + 1) (after_rounds cf hop env m P n)
      (after_rounds cf hop env m P (n + 1)) := by
  have hopen : Opened cf hop env.mode m (P.note m) n _ := h.opened hinv hs hn.le
  obtain ⟨r, hr⟩ := after_rounds_succ cf hop env m P n
  rw [hr]
  exact round_cases (hopen.halt.trans h.running)
    (fun hq => (hopen.before_check hn hq).halt.trans h.running) r

end Loop

/-! ## 4. Runs -/

def Within (cf : PrioConf) (P : Flood) : Prop :=
  ∀ k, (P.edge k).total_msg ≤ cf.max_mess_stored

def Covers (cf : PrioConf) (P : Flood) : Event → Prop
  | .disseminate src_link env m => ∀ k P', Drop cf src_link env m P k P' →
      (P'.edge k).total_msg - cf.max_mess_stored ≤ victim_packets cf k P'
  | _ => True

def CoveredStep (cf : PrioConf) (P : Flood) (e : Event) (P' : Flood) : Prop :=
  Step cf P e P' ∧ Covers cf P e

section Runs

variable {cf : PrioConf} {hop : Option ℕ} {env : DissemEnv} {m : PrioMsg} {P P' P₀ : Flood}

theorem Within.thins (h : Within cf P) (ht : Thins P P') : Within cf P' :=
  fun k => (ht.link k).total.trans (h k)

theorem Ordered.enqueue (h : Ordered P) (cf : PrioConf) (mode : ℕ) (m : PrioMsg) (k : ℕ) :
    Ordered (enqueue cf mode m k P) := by
  unfold Priority.enqueue
  split
  · exact h
  · rename_i v hv
    intro j s p
    dsimp only [Flood.on_edge, Flood.set_entry]
    by_cases hj : j = k
    · rw [hj, update_self]
      dsimp only [PrioLink.append]
      by_cases hsp : s = m.source ∧ p = m.priority
      · rw [hsp.1, hsp.2, set2_self]
        obtain ⟨hpair, hlt⟩ := h k m.source m.priority
        refine ⟨pairwise_append.mpr ⟨hpair, pairwise_singleton _ _, ?_⟩, fun n hn => ?_⟩
        · intro a ha b hb
          rw [mem_singleton.mp hb]
          exact hlt a ha
        · rcases mem_append.mp hn with hn | hn
          · exact Nat.lt_succ_of_lt (hlt n hn)
          · rw [mem_singleton.mp hn]
            exact Nat.lt_succ_self _
      · rw [set2_of_ne _ _ hsp]
        exact ⟨(h k s p).1, fun n hn => Nat.lt_succ_of_lt ((h k s p).2 n hn)⟩
    · rw [update_of_ne hj]
      exact ⟨(h j s p).1, fun n hn => Nat.lt_succ_of_lt ((h j s p).2 n hn)⟩

theorem enqueue_other (cf : PrioConf) (mode : ℕ) (m : PrioMsg) {j k : ℕ} (hj : j ≠ k) (P : Flood) :
    (enqueue cf mode m k P).edge j = P.edge j := by
  unfold enqueue
  split
  · rfl
  · exact update_of_ne hj _ _

theorem RoundOf.ordered {k : ℕ} (hround : RoundOf cf hop env m k P P') (h : Ordered P) :
    Ordered P' := by
  have hcheck : Ordered (before_check cf env m k P) :=
    (h.enqueue cf env.mode m k).thins (sends_thins cf k env.mode (env.sends k) _)
  cases hround with
  | settled flag hno => exact h.thins (thins_allows.settle cf m.source m.key k flag P)
  | fits hq hroom => exact hcheck
  | drops hq hover => exact hcheck.thins (thins_allows.drop_one cf k _)

theorem RoundOf.drop {k : ℕ} (hround : RoundOf cf hop env m k P P')
    (hq : cf.queues hop m k)
    (hover : cf.max_mess_stored < ((before_check cf env m k P).edge k).total_msg) :
    P' = drop_one cf k (before_check cf env m k P) := by
  cases hround with
  | settled flag hno => exact absurd hq hno
  | fits hq hroom => exact absurd hover (not_lt.mpr hroom)
  | drops hq hover => rfl

theorem RoundOf.within {k : ℕ} (hround : RoundOf cf hop env m k P P') (h : Within cf P)
    (hcovers : cf.queues hop m k →
      cf.max_mess_stored < ((before_check cf env m k P).edge k).total_msg →
      ((drop_one cf k (before_check cf env m k P)).edge k).total_msg ≤ cf.max_mess_stored) :
    Within cf P' := by
  have hother : ∀ j, j ≠ k →
      ((before_check cf env m k P).edge j).total_msg ≤ cf.max_mess_stored := by
    intro j hj
    have hthins := (sends_thins cf k env.mode (env.sends k) (enqueue cf env.mode m k P)).link j
    refine hthins.total.trans ?_
    rw [enqueue_other cf env.mode m hj]
    exact h j
  cases hround with
  | settled flag hno => exact h.thins (thins_allows.settle cf m.source m.key k flag P)
  | fits hq hroom =>
    intro j
    by_cases hj : j = k
    · rw [hj]
      exact hroom
    · exact hother j hj
  | drops hq hover =>
    intro j
    by_cases hj : j = k
    · rw [hj]
      exact hcovers hq hover
    · exact ((thins_allows.drop_one cf k _).link j).total.trans (hother j hj)

theorem IsNew.ordered (h : IsNew env m P) (hinv : Inv cf cf.all P)
    (hs : 1 ≤ m.source ∧ m.source ≤ MAX_NODES) (hordered : Ordered P) :
    ∀ n ≤ cf.degree, Ordered (after_rounds cf hop env m P n) := by
  intro n
  induction n with
  | zero => exact fun _ => hordered
  | succ n ih => exact fun hn => (h.round hinv hs (by omega)).ordered (ih (by omega))

theorem Drop.right {k : ℕ} (h : Drop cf hop env m P k P') (hinv : Inv cf cf.all P)
    (hs : 1 ≤ m.source ∧ m.source ≤ MAX_NODES) (hordered : Ordered P) :
    after_rounds cf hop env m P k = drop_one cf k P' ∧
      DropsVictim cf k P' (drop_one cf k P') ∧
      (((drop_one cf k P').edge k).total_msg ≤ cf.max_mess_stored ↔
        (P'.edge k).total_msg - cf.max_mess_stored ≤ victim_packets cf k P') := by
  obtain ⟨hnew, hk, hq, rfl, hover⟩ := h
  obtain ⟨n, rfl⟩ : ∃ n, k = n + 1 := ⟨k - 1, by have := hk.1; omega⟩
  have hn : n < cf.degree := hk.2
  rw [Nat.add_sub_cancel] at hover ⊢
  have hopen : Opened cf hop env.mode m (P.note m) n _ := hnew.opened hinv hs hn.le
  have hcheck := hopen.before_check hn hq
  have hord : Ordered (before_check cf env m (n + 1) (after_rounds cf hop env m P n)) :=
    ((hnew.ordered hinv hs hordered n hn.le).enqueue cf env.mode m (n + 1)).thins
      (sends_thins cf (n + 1) env.mode (env.sends (n + 1)) _)
  obtain ⟨hvictim, htotal⟩ := drop_one_right hcheck.inv hord hk (by omega)
  refine ⟨?_, hvictim, by omega⟩
  exact (hnew.round hinv hs hn).drop hq hover

/-- **A call keeps the links within their capacity**, by induction on the rounds. -/
theorem IsNew.within (h : IsNew env m P) (hinv : Inv cf cf.all P)
    (hs : 1 ≤ m.source ∧ m.source ≤ MAX_NODES) (hordered : Ordered P) (hwithin : Within cf P)
    (hcovers : Covers cf P (.disseminate hop env m)) :
    ∀ n ≤ cf.degree, Within cf (after_rounds cf hop env m P n) := by
  intro n
  induction n with
  | zero => exact fun _ => hwithin
  | succ n ih =>
    intro hn
    refine (h.round hinv hs (by omega)).within (ih (by omega)) fun hq hover => ?_
    have hdrop : Drop cf hop env m P (n + 1) _ := ⟨h, ⟨by omega, hn⟩, hq, rfl, hover⟩
    exact (hdrop.right hinv hs hordered).2.2.mpr (hcovers _ _ hdrop)

theorem step_ordered {e : Event} (hinv : Inv cf cf.all P) (hordered : Ordered P)
    (hstep : Step cf P e P') : Ordered P' := by
  obtain ⟨hrun, hok, rfl⟩ := hstep
  cases e with
  | disseminate hop env m =>
    by_cases hnew : IsNew env m P
    · rw [handle, hnew.disseminate]
      exact hnew.ordered hinv hok.2 hordered cf.degree (le_refl _)
    · exact hordered.thins (thins_allows.disseminate cf hop env m hrun hnew)
  | send_one k mode rounds => exact hordered.thins (send_one_thins cf k mode rounds P)
  | garbage_collect now order => exact hordered.thins (thins_allows.garbage_collect cf now order P)

theorem step_within {e : Event} (hinv : Inv cf cf.all P) (hordered : Ordered P)
    (hwithin : Within cf P) (hstep : CoveredStep cf P e P') : Within cf P' := by
  obtain ⟨⟨hrun, hok, rfl⟩, hcovers⟩ := hstep
  cases e with
  | disseminate hop env m =>
    by_cases hnew : IsNew env m P
    · rw [handle, hnew.disseminate]
      exact hnew.within hinv hok.2 hordered hwithin hcovers cf.degree (le_refl _)
    · exact hwithin.thins (thins_allows.disseminate cf hop env m hrun hnew)
  | send_one k mode rounds => exact hwithin.thins (send_one_thins cf k mode rounds P)
  | garbage_collect now order => exact hwithin.thins (thins_allows.garbage_collect cf now order P)

theorem run_ordered {sec : ℕ} (hrun : Run (Step cf) (init_priority_flooding cf sec) P) :
    Inv cf cf.all P ∧ Ordered P := by
  refine hrun.invariant (fun P => Inv cf cf.all P ∧ Ordered P) ⟨init_inv cf sec,
    fun k s p => ⟨List.Pairwise.nil, fun n hn => absurd hn not_mem_nil⟩⟩ ?_
  intro P1 e P2 ⟨hinv, hordered⟩ hstep
  exact ⟨(step_inv hinv hstep).1, step_ordered hinv hordered hstep⟩

/-- **In every run whose drops are large enough no link is over capacity.** In every run
what a call drops is the oldest message of the lowest priority of a source that takes the
most room, and it is enough for the link exactly if it is large enough. -/
theorem capacity_kept (cf : PrioConf) (sec : ℕ) (P : Flood) :
    (Run (CoveredStep cf) (init_priority_flooding cf sec) P → Within cf P) ∧
    (Run (Step cf) (init_priority_flooding cf sec) P →
      ∀ hop env m, (Event.disseminate hop env m).Ok cf P →
        ∀ k P', Drop cf hop env m P k P' →
          after_rounds cf hop env m P k = drop_one cf k P' ∧
            DropsVictim cf k P' (drop_one cf k P') ∧
            (((drop_one cf k P').edge k).total_msg ≤ cf.max_mess_stored ↔
              (P'.edge k).total_msg - cf.max_mess_stored ≤ victim_packets cf k P')) := by
  constructor
  · intro hrun
    refine (hrun.invariant (fun P => (Inv cf cf.all P ∧ Ordered P) ∧ Within cf P)
      ⟨run_ordered (.refl _), fun k => Nat.zero_le _⟩ ?_).2
    intro P1 e P2 ⟨⟨hinv, hordered⟩, hwithin⟩ hstep
    exact ⟨⟨(step_inv hinv hstep.1).1, step_ordered hinv hordered hstep.1⟩,
      step_within hinv hordered hwithin hstep⟩
  · intro hrun hop env m hok k P' hdrop
    obtain ⟨hinv, hordered⟩ := run_ordered hrun
    exact hdrop.right hinv hok.2 hordered

end Runs

def small_belly : PrioConf where
  my_id := 1
  degree := 1
  neighbor_ids := fun k => k + 1
  mp_neighbor_mask := fun k => 2 ^ k
  max_mess_stored := 2
  link_header_size := fun _ => 0
  ns_threshold := 20

/-- A message of node 1 for node 5 with the elements `elements`. -/
def sized_msg (seq_num : ℕ) (elements : List ℕ) (h : elements.length < MAX_SCATTER_ELEMENTS) :
    PrioMsg :=
  ⟨1, 5, ⟨0, seq_num⟩, 1, ⟨600, 0⟩, 2, elements, h⟩

def sized_call (m : PrioMsg) : Event := .disseminate none ⟨⟨0, 0⟩, true, 0, fun _ => []⟩ m

theorem sized_ok (P : Flood) (i : ℕ) {l : List ℕ} (h : l.length < MAX_SCATTER_ELEMENTS) :
    (sized_call (sized_msg i l h)).Ok small_belly P :=
  ⟨fun k hk => absurd hk (by simp), Nat.le_refl 1, show 1 ≤ MAX_NODES by decide⟩

def one_small : Flood :=
  handle small_belly (init_priority_flooding small_belly 0)
    (sized_call (sized_msg 1 [16] session_msg.elements_length))

def two_small : Flood :=
  handle small_belly one_small (sized_call (sized_msg 2 [16] session_msg.elements_length))

theorem two_small_run :
    Run (CoveredStep small_belly) (init_priority_flooding small_belly 0) two_small := by
  -- there is room for both
  have hfirst : CoveredStep small_belly (init_priority_flooding small_belly 0)
      (sized_call (sized_msg 1 [16] (by decide))) one_small := by
    refine ⟨⟨rfl, sized_ok _ _ _, rfl⟩, fun k P' hdrop => ?_⟩
    obtain ⟨-, hk, -, rfl, hover⟩ := hdrop
    obtain rfl : k = 1 := le_antisymm hk.2 hk.1
    exact absurd hover (by decide)
  have hsecond : CoveredStep small_belly one_small
      (sized_call (sized_msg 2 [16] (by decide))) two_small := by
    refine ⟨⟨by decide, sized_ok _ _ _, rfl⟩, fun k P' hdrop => ?_⟩
    obtain ⟨-, hk, -, rfl, hover⟩ := hdrop
    obtain rfl : k = 1 := le_antisymm hk.2 hk.1
    exact absurd hover (by decide)
  exact ((Run.refl _).tail hfirst).tail hsecond

theorem capacity_kept_two :
    Within small_belly two_small ∧ ∃ P',
      Drop small_belly none ⟨⟨0, 0⟩, true, 0, fun _ => []⟩ (sized_msg 3 [16] (by decide)) two_small
        1 P' ∧ DropsVictim small_belly 1 P' (drop_one small_belly 1 P') := by
  obtain ⟨hwithin, hdrops⟩ := capacity_kept small_belly 0 two_small
  have hdrop : Drop small_belly none ⟨⟨0, 0⟩, true, 0, fun _ => []⟩
      (sized_msg 3 [16] (by decide)) two_small 1 _ :=
    ⟨⟨by decide, rfl, by decide, by decide, by decide, by decide⟩, by decide,
      ⟨by decide, by decide, by decide⟩, rfl, by decide⟩
  have hrun : Run (Step small_belly) (init_priority_flooding small_belly 0) two_small :=
    two_small_run.mono fun _ _ _ h => h.1
  exact ⟨hwithin two_small_run, _, hdrop, (hdrops hrun none _ _ (sized_ok _ _ _) 1 _ hdrop).2.1⟩

def small_then_large : Flood :=
  handle small_belly one_small (sized_call (sized_msg 2 [1000, 1000, 1000] (by decide)))

/-- The message of one packet is dropped, the one of three stays. -/
theorem small_victim_exceeds :
    Run (Step small_belly) (init_priority_flooding small_belly 0) small_then_large ∧
      (small_then_large.edge 1).total_msg = 3 ∧ ¬ Within small_belly small_then_large := by
  have htotal : (small_then_large.edge 1).total_msg = 3 := by decide
  refine ⟨?_, htotal, fun hwithin => ?_⟩
  · have hfirst : Step small_belly (init_priority_flooding small_belly 0)
        (sized_call (sized_msg 1 [16] (by decide))) one_small :=
      ⟨rfl, sized_ok _ _ _, rfl⟩
    have hsecond : Step small_belly one_small (sized_call (sized_msg 2 [1000, 1000, 1000] (by decide)))
        small_then_large :=
      ⟨by decide, sized_ok _ _ _, rfl⟩
    exact ((Run.refl _).tail hfirst).tail hsecond
  · have hle := hwithin 1
    rw [htotal] at hle
    exact absurd hle (by decide)

end Spines.Priority
