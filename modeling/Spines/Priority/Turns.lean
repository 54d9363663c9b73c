/-
The order in which sources send toward a neighbour (`Priority_Flood_Send_One` of
`daemon/priority_flood.c`).

Every source with messages for the neighbour has one entry in one of two lists. In its
turn the entry at the front pays one of its penalty; it goes to the back of the normal
list as long as something is left to pay, else its source may send and the entry is
charged with the packets of the message. Penalties have 16 bits.

An entry of the urgent list has penalty 1. If the last message of its source has gone by
another way when its turn comes, it goes to the normal list with penalty 0, and its next
turn takes one off that (`duplicate_wraps_penalty`). `Turn.Fed` says that this does not
happen.
-/
import Spines.Priority.Capacity

set_option autoImplicit false

namespace Spines.Priority

open Spines.Lib Spines.IntruTol Spines.RelFlood Function List

/-! ## 1. Turns -/

def PrioLink.line (ld : PrioLink) : List SendFair := ld.urgent ++ ld.norm

structure Turn where
  before : Flood
  round : SendRound

/-- What the daemon keeps for neighbour `k` when the turn begins. -/
def Turn.link (t : Turn) (k : ℕ) : PrioLink := t.before.edge k

def Turn.entry (t : Turn) (k : ℕ) : Option SendFair := (t.link k).line.head?

/-- Source `s` may send: its penalty is paid, and it has messages. -/
def Turn.Serves (t : Turn) (k s : ℕ) : Prop :=
  (t.link k).msg_count s ≠ 0 ∧ ∃ e, t.entry k = some e ∧ e.src_id = s ∧ e.pay.penalty = 0

/-- The entry does not keep its place at the front. It does if its source may send and
the message has expired or is refused. -/
def Turn.moves (k : ℕ) (t : Turn) : Bool :=
  match t.entry k with
  | none => false
  | some e =>
    if e.pay.penalty = 0 ∧ (t.link k).msg_count e.src_id ≠ 0 then
      match (t.link k).pq e.src_id ((t.link k).max_pq e.src_id) with
      | [] => false
      | node :: _ => t.round.forward_ok && !decide (node.timestamp.le t.round.now)
    else true

def Turn.Fed (t : Turn) (k : ℕ) : Prop :=
  ∀ e urgent, (t.link k).urgent = e :: urgent → (t.link k).msg_count e.src_id ≠ 0

def round_turns (cf : PrioConf) (k mode : ℕ) : List SendRound → Flood → List Turn
  | [], _ => []
  | r :: rounds, P =>
    if (P.edge k).line = [] then []
    else
      ⟨P, r⟩ :: match send_round cf k mode P r with
        | (P, .again) => round_turns cf k mode rounds P
        | _ => []

def send_turns (cf : PrioConf) (k mode : ℕ) (rounds : List SendRound) (P : Flood) : List Turn :=
  if finishes cf k mode rounds P then round_turns cf k mode rounds P else []

def sends_turns (cf : PrioConf) (k mode : ℕ) : List (List SendRound) → Flood → List Turn
  | [], _ => []
  | rounds :: l, P =>
    if P.halt = .running then
      send_turns cf k mode rounds P ++
        sends_turns cf k mode l (priority_flood_send_one cf k mode rounds P)
    else sends_turns cf k mode l P

instance (cf : PrioConf) (src_link : Option ℕ) (m : PrioMsg) (k : ℕ) :
    Decidable (cf.queues src_link m k) := inferInstanceAs (Decidable (_ ∧ _))

instance (env : DissemEnv) (m : PrioMsg) (P : Flood) : Decidable (IsNew env m P) :=
  decidable_of_iff (P.halt = .running ∧ env.verified = true ∧
      P.node_incarnation m.source ≤ m.key.incarnation ∧ P.belly m.source m.key = none ∧
      ¬ m.expire.le env.now ∧ 1 ≤ m.priority ∧ m.priority ≤ MAX_PRIORITY)
    ⟨fun ⟨h₁, h₂, h₃, h₄, h₅, h₆⟩ => ⟨h₁, h₂, h₃, h₄, h₅, h₆⟩,
      fun h => ⟨h.running, h.verified, h.incarnation, h.unseen, h.live, h.priority⟩⟩

/-- The turns toward neighbour `k` that an event gives. A message that is queued toward
`k` lets the lower level call back. -/
def event_turns (cf : PrioConf) (k : ℕ) (P : Flood) : Event → List Turn
  | .disseminate src_link env m =>
    if IsNew env m P ∧ cf.queues src_link m k then
      sends_turns cf k env.mode (env.sends k)
        (enqueue cf env.mode m k (after_rounds cf src_link env m P (k - 1)))
    else []
  | .send_one j mode rounds => if j = k then send_turns cf k mode rounds P else []
  | .garbage_collect _ _ => []

/-! ## 2. What happens to a line -/

structure PrioLink.Calm (ld ld' : PrioLink) : Prop where
  urgent : ld'.urgent = ld.urgent
  norm : ld'.norm = ld.norm
  in_send_queue : ld'.in_send_queue = ld.in_send_queue
  counts : ∀ s, ld'.msg_count s ≤ ld.msg_count s

def PrioLink.leave (s : ℕ) (ld : PrioLink) : PrioLink :=
  { ld with
    norm := ld.norm.tail
    in_send_queue := Function.update ld.in_send_queue s false }

inductive Turned (k : ℕ) (t : Turn) (e : SendFair) (ld' : PrioLink) : Prop
  | waits (hwhy : e.pay.penalty ≠ 0 ∨
        (t.link k).urgent ≠ [] ∧ (t.link k).msg_count e.src_id = 0)
      (hafter : ((t.link k).rotate e.pay.penalty).Calm ld')
  | served (hserves : t.Serves k e.src_id) (penalty : ℕ)
      (hpenalty : 1 ≤ penalty ∧ penalty < 2 ^ 16)
      (hafter : ((t.link k).rotate penalty).Calm ld')
  | stays (hserves : t.Serves k e.src_id) (hblocked : t.moves k = false)
      (hafter : ((t.link k).charge 1).Calm ld')
  | leaves (hurgent : (t.link k).urgent = []) (hempty : (t.link k).msg_count e.src_id = 0)
      (hafter : ((t.link k).leave e.src_id).Calm ld')

inductive Evolves (k : ℕ) (ld : PrioLink) : List Turn → PrioLink → Prop
  | refl : Evolves k ld [] ld
  | calm {l : List Turn} {ld₁ ld₂ : PrioLink} (h : Evolves k ld l ld₁) (hcalm : ld₁.Calm ld₂) :
      Evolves k ld l ld₂
  | joins {l : List Turn} {ld₁ : PrioLink} (h : Evolves k ld l ld₁) (s priority packets : ℕ)
      (node : PqNode) (hs : 1 ≤ s ∧ s ≤ MAX_NODES) :
      Evolves k ld l (ld₁.append s priority packets node)
  | turn {l : List Turn} {t : Turn} {e : SendFair} {ld₂ : PrioLink} (h : Evolves k ld l (t.link k))
      (hentry : t.entry k = some e) (hturn : Turned k t e ld₂) : Evolves k ld (l ++ [t]) ld₂

section Calm

variable {ld ld' ld'' : PrioLink} {k : ℕ} {l l' : List Turn}

theorem PrioLink.Calm.refl (ld : PrioLink) : ld.Calm ld := ⟨rfl, rfl, rfl, fun _ => Nat.le_refl _⟩

theorem PrioLink.Calm.trans (h : ld.Calm ld') (h' : ld'.Calm ld'') : ld.Calm ld'' :=
  ⟨h'.urgent.trans h.urgent, h'.norm.trans h.norm, h'.in_send_queue.trans h.in_send_queue,
    fun s => (h'.counts s).trans (h.counts s)⟩

theorem PrioLink.Calm.line (h : ld.Calm ld') : ld'.line = ld.line := by
  rw [PrioLink.line, h.urgent, h.norm, PrioLink.line]

theorem unlink_calm (s priority id packets : ℕ) (ld : PrioLink) :
    ld.Calm (ld.unlink s priority id packets) := by
  have hcounts : ∀ a, update ld.msg_count s (ld.msg_count s - packets) a ≤
      ld.msg_count a := by
    intro a
    by_cases ha : a = s
    · rw [ha, update_self]
      exact Nat.sub_le _ _
    · rw [update_of_ne ha]
  unfold PrioLink.unlink
  dsimp only
  split_ifs <;> exact ⟨rfl, rfl, rfl, hcounts⟩

theorem Evolves.trans (h : Evolves k ld l ld') (h' : Evolves k ld' l' ld'') :
    Evolves k ld (l ++ l') ld'' := by
  induction h' with
  | refl => rwa [append_nil]
  | calm _ hcalm ih => exact ih.calm hcalm
  | joins _ s priority packets node hs ih => exact ih.joins s priority packets node hs
  | turn _ hentry hturn ih =>
    rw [← append_assoc]
    exact ih.turn hentry hturn

end Calm

def CalmAt (k : ℕ) (P P' : Flood) : Prop := (P.edge k).Calm (P'.edge k)

section CalmAt

variable {cf : PrioConf} {P P' : Flood} {k : ℕ}

theorem CalmAt.of_eq (h : P'.edge k = P.edge k) : CalmAt k P P' := by
  rw [CalmAt, h]
  exact .refl _

theorem on_edge_self (P : Flood) (k : ℕ) (f : PrioLink → PrioLink) :
    (P.on_edge k f).edge k = f (P.edge k) := update_self _ _ _

theorem CalmAt.other {j : ℕ} (hj : k ≠ j) (P : Flood) (f : PrioLink → PrioLink) :
    CalmAt k P (P.on_edge j f) := .of_eq (update_of_ne hj _ _)

theorem calm_allows (k : ℕ) : Allows (CalmAt k) where
  of_eq := fun h _ => .of_eq (by rw [h])
  trans := PrioLink.Calm.trans
  unlink := by
    intro P j s priority id packets
    by_cases hj : k = j
    · rw [hj, CalmAt, on_edge_self]
      exact unlink_calm s priority id packets (P.edge j)
    · exact .other hj P _

theorem send_round_calm {j : ℕ} (hj : k ≠ j) (cf : PrioConf) (mode : ℕ) (P : Flood)
    (r : SendRound) : CalmAt k P (send_round cf j mode P r).1 := by
  have hother := @CalmAt.other k j hj
  have hcleanup := (calm_allows k).cleanup cf j
  have hserve : ∀ e (P : Flood), CalmAt k P (serve cf j mode r e P).1 := by
    intro e P
    unfold serve
    dsimp only
    split
    · exact .of_eq rfl
    split
    · exact (hcleanup _ _ _ P).trans (hother _ _)
    split
    · exact (hother P _).trans (hcleanup _ _ _ _)
    · exact hother P _
  unfold send_round
  dsimp only
  split
  · split
    · dsimp only
      exact hother P _
    · exact (hother P _).trans (hserve _ _)
  · split
    · dsimp only
      exact hother P _
    split
    · dsimp only
      exact hother P _
    · exact (hother P _).trans (hserve _ _)
  · exact .of_eq rfl

theorem send_one_calm {j : ℕ} (hj : k ≠ j) (cf : PrioConf) (mode : ℕ) (rounds : List SendRound)
    (P : Flood) : CalmAt k P (priority_flood_send_one cf j mode rounds P) :=
  send_one_of_round (R := CalmAt k) (fun _ => .of_eq rfl) PrioLink.Calm.trans
    (send_round_calm hj cf mode) rounds P

theorem sends_calm {j : ℕ} (hj : k ≠ j) (cf : PrioConf) (mode : ℕ) (l : List (List SendRound)) :
    ∀ P : Flood, CalmAt k P (l.foldl (fun P rounds =>
      if P.halt = .running then priority_flood_send_one cf j mode rounds P else P) P) := by
  induction l with
  | nil => exact fun _ => .of_eq rfl
  | cons rounds l ih =>
    intro P
    rw [foldl_cons]
    refine PrioLink.Calm.trans ?_ (ih _)
    split
    · exact send_one_calm hj cf mode rounds P
    · exact .refl _

end CalmAt

/-! ## 3. A turn -/

theorem calculate_packets_lt (cf : PrioConf) (m : PrioMsg) (mode : ℕ) :
    calculate_packets_in_message cf m mode < 2 ^ 16 := by
  have hloop : ∀ (l : List ℕ) (c : ℕ × ℕ), c.1 < 2 ^ 16 →
      (l.foldl (count_packet (cf.link_header_size mode)) c).1 < 2 ^ 16 := by
    intro l
    induction l with
    | nil => exact fun _ hc => hc
    | cons len l ih =>
      intro c hc
      rw [foldl_cons]
      refine ih _ ?_
      unfold count_packet
      split
      · exact Nat.mod_lt _ (by decide)
      · exact hc
  exact hloop m.elements (1, 0) (by decide)

section Turned

variable {cf : PrioConf} {done : ℕ → PrioKey → ℕ} {P : Flood} {k : ℕ} {ld ld' : PrioLink}

variable {e : SendFair}

theorem rotate_urgent {urgent : List SendFair} (h : ld.urgent = e :: urgent)
    (penalty : ℕ) : ld.rotate penalty =
      { ld with urgent := urgent, norm := ld.norm ++ [⟨e.src_id, penalty⟩] } := by
  unfold PrioLink.rotate
  rw [h]

theorem rotate_norm {norm : List SendFair} (hu : ld.urgent = [])
    (hn : ld.norm = e :: norm) (penalty : ℕ) :
    ld.rotate penalty = { ld with norm := norm ++ [⟨e.src_id, penalty⟩] } := by
  unfold PrioLink.rotate
  rw [hu, hn]

theorem charge_urgent {urgent : List SendFair} (h : ld.urgent = e :: urgent)
    (penalty : ℕ) : ld.charge penalty = { ld with urgent := ⟨e.src_id, penalty⟩ :: urgent } := by
  unfold PrioLink.charge
  rw [h]

theorem charge_norm {norm : List SendFair} (hu : ld.urgent = [])
    (hn : ld.norm = e :: norm) (penalty : ℕ) :
    ld.charge penalty = { ld with norm := ⟨e.src_id, penalty⟩ :: norm } := by
  unfold PrioLink.charge
  rw [hu, hn]

theorem PrioLink.Calm.charge (h : ld.Calm ld') (penalty : ℕ) :
    (ld.charge penalty).Calm (ld'.charge penalty) := by
  obtain ⟨hu, hn, hq, hc⟩ := h
  unfold PrioLink.charge
  rw [hu, hn]
  split
  · exact ⟨rfl, rfl, hq, hc⟩
  · exact ⟨rfl, rfl, hq, hc⟩
  · exact ⟨hu, hn, hq, hc⟩

inductive Served (cf : PrioConf) (k : ℕ) (r : SendRound) (e : SendFair) (node : PqNode) (P : Flood)
    (ld' : PrioLink) : Prop
  | expired (h : node.timestamp.le r.now) (hafter : ((P.edge k).charge 1).Calm ld')
  | sent (penalty : ℕ) (hpenalty : 1 ≤ penalty ∧ penalty < 2 ^ 16)
      (hafter : ((P.edge k).rotate penalty).Calm ld')
  | refused (h : r.forward_ok = false)
      (hafter : ((P.edge k).charge ((e.penalty + 1) % 2 ^ 16)).Calm ld')

theorem serve_served (hinv : Inv cf done P) (hk : cf.nbr k) (mode : ℕ) (r : SendRound)
    (e : SendFair) {node : PqNode} {rest : List PqNode}
    (hlist : (P.edge k).pq e.src_id ((P.edge k).max_pq e.src_id) = node :: rest) :
    Served cf k r e node P ((serve cf k mode r e P).1.edge k) := by
  have hcleanup := (calm_allows k).cleanup cf k
  unfold serve
  dsimp only
  rw [hlist]
  dsimp only
  split
  · rename_i hexpired
    refine .expired hexpired ?_
    dsimp only
    rw [on_edge_self]
    exact (hcleanup _ _ _ P).charge 1
  split
  · -- the entry has the message, which has at least one packet
    obtain ⟨v, hv, -, -, hneed, -⟩ :=
      hinv.node_entry hk (show node ∈ (P.edge k).pq _ _ by rw [hlist]; exact mem_cons_self)
    obtain ⟨m, hm⟩ :=
      Option.ne_none_iff_exists'.mp (((hinv.entry _ _ v hv).2.alive hneed).2)
    have hscat : (P.belly e.src_id node.entry).bind FloodValue.msg_scat = some m := by
      rw [hv]
      exact hm
    rw [hscat]
    dsimp only
    refine .sent _ ⟨calculate_packets_pos cf m mode, calculate_packets_lt cf m mode⟩ ?_
    rw [← on_edge_self P k (PrioLink.rotate _)]
    exact hcleanup _ _ _ _
  · rename_i hforward
    refine .refused (Bool.eq_false_of_not_eq_true hforward) ?_
    dsimp only
    rw [on_edge_self]
    exact .refl _

theorem Turn.entry_cons {t : Turn} (h : t.entry k = some e) :
    (∃ urgent, (t.link k).urgent = e :: urgent) ∨
      (t.link k).urgent = [] ∧ ∃ norm, (t.link k).norm = e :: norm := by
  rw [Turn.entry, PrioLink.line] at h
  cases hu : (t.link k).urgent with
  | cons a urgent =>
    rw [hu, cons_append, List.head?_cons, Option.some.injEq] at h
    exact .inl ⟨urgent, by rw [h]⟩
  | nil =>
    rw [hu, nil_append] at h
    obtain ⟨norm, hn⟩ := List.head?_eq_some_iff.mp h
    exact .inr ⟨rfl, norm, hn⟩

theorem send_round_turned (hinv : Inv cf done P) (hk : cf.nbr k) (mode : ℕ) (r : SendRound)
    {e : SendFair} (hentry : (Turn.mk P r).entry k = some e) :
    Turned k ⟨P, r⟩ e ((send_round cf k mode P r).1.edge k) := by
  have hcases : (∃ urgent, (P.edge k).urgent = e :: urgent) ∨
      (P.edge k).urgent = [] ∧ ∃ norm, (P.edge k).norm = e :: norm := Turn.entry_cons hentry
  -- the second half of the round, once `e` has paid
  have hserve : ∀ f : PrioLink → PrioLink,
      (∀ ld, ∃ urgent norm in_send_queue,
        f ld = { ld with urgent := urgent, norm := norm, in_send_queue := in_send_queue }) →
      (∀ q, (f (P.edge k)).rotate q = (P.edge k).rotate q) →
      (∀ q, (f (P.edge k)).charge q = (P.edge k).charge q) →
      e.pay.penalty = 0 → (P.edge k).msg_count e.src_id ≠ 0 →
      Turned k ⟨P, r⟩ e ((serve cf k mode r e.pay (P.on_edge k f)).1.edge k) := by
    intro f hf hrotate hcharge hpaid hcount
    have hserves : (Turn.mk P r).Serves k e.src_id := ⟨hcount, e, hentry, rfl, hpaid⟩
    obtain ⟨node, rest, hlist⟩ :=
      exists_cons_of_ne_nil ((hinv.link k hk).max_ne_nil hcount)
    have hmoves : (node.timestamp.le r.now ∨ r.forward_ok = false) →
        (Turn.mk P r).moves k = false := by
      intro hwhy
      have hlist' : ((Turn.mk P r).link k).pq e.src_id (((Turn.mk P r).link k).max_pq e.src_id) =
          node :: rest := hlist
      rw [Turn.moves, hentry]
      dsimp only
      rw [if_pos ⟨hpaid, hcount⟩, hlist']
      dsimp only
      rcases hwhy with h | h
      · rw [decide_eq_true h]
        exact Bool.and_false _
      · rw [h]
        exact Bool.false_and _
    have hlist' : ((P.on_edge k f).edge k).pq e.pay.src_id
        (((P.on_edge k f).edge k).max_pq e.pay.src_id) = node :: rest := by
      obtain ⟨urgent, norm, q, heq⟩ := hf (P.edge k)
      rw [on_edge_self, heq, pay_src_id]
      exact hlist
    have hserved := serve_served (hinv.schedule k hf) hk mode r e.pay hlist'
    cases hserved with
    | expired h hafter =>
      rw [on_edge_self, hcharge] at hafter
      exact .stays hserves (hmoves (.inl h)) hafter
    | sent penalty hpenalty hafter =>
      rw [on_edge_self, hrotate] at hafter
      exact .served hserves penalty hpenalty hafter
    | refused h hafter =>
      rw [on_edge_self, hcharge, hpaid] at hafter
      exact .stays hserves (hmoves (.inr h)) hafter
  rcases hcases with ⟨urgent, hu⟩ | ⟨hu, norm, hn⟩
  · unfold send_round
    simp only [hu]
    split
    · rename_i hwhy
      dsimp only
      rw [on_edge_self]
      refine .waits ?_ ?_
      · rcases hwhy with h | h
        · exact .inl (Nat.pos_iff_ne_zero.mp h)
        · exact .inr ⟨by rw [Turn.link, hu]; exact cons_ne_nil _ _, h⟩
      · rw [Turn.link, rotate_urgent hu]
        exact .refl _
    · rename_i hno
      obtain ⟨hpaid, hcount⟩ := not_or.mp hno
      refine hserve _ (fun ld => ⟨_, ld.norm, ld.in_send_queue, rfl⟩) (fun q => ?_) (fun q => ?_)
        (Nat.eq_zero_of_not_pos hpaid) hcount
      · rw [rotate_urgent hu, rotate_urgent rfl, pay_src_id]
      · rw [charge_urgent hu, charge_urgent rfl, pay_src_id]
  · unfold send_round
    simp only [hu, hn]
    split
    · rename_i hwhy
      dsimp only
      rw [on_edge_self]
      refine .waits (.inl (Nat.pos_iff_ne_zero.mp hwhy)) ?_
      rw [Turn.link, rotate_norm hu hn]
      exact .refl _
    rename_i hpaid
    split
    · rename_i hempty
      dsimp only
      rw [on_edge_self]
      refine .leaves hu hempty ?_
      rw [Turn.link, PrioLink.leave, hn]
      exact .refl _
    · rename_i hcount
      refine hserve _ (fun ld => ⟨ld.urgent, _, ld.in_send_queue, rfl⟩) (fun q => ?_) (fun q => ?_)
        (Nat.eq_zero_of_not_pos hpaid) hcount
      · rw [rotate_norm hu hn, rotate_norm (by exact hu) rfl, pay_src_id]
      · rw [charge_norm hu hn, charge_norm (by exact hu) rfl, pay_src_id]

end Turned

/-! ## 4. What an event does for a neighbour -/

section Events

variable {cf : PrioConf} {done : ℕ → PrioKey → ℕ} {P : Flood} {k : ℕ}

theorem send_round_idle (mode : ℕ) (r : SendRound) (h : (P.edge k).line = []) :
    send_round cf k mode P r = (P, .nothing) := by
  obtain ⟨hu, hn⟩ := append_eq_nil_iff.mp h
  unfold send_round
  dsimp only
  rw [hu, hn]

theorem send_rounds_evolves (hk : cf.nbr k) (mode : ℕ) (rounds : List SendRound)
    (hinv : Inv cf done P) : Evolves k (P.edge k) (round_turns cf k mode rounds P)
      ((send_rounds cf k mode rounds P).edge k) := by
  induction rounds generalizing P with
  | nil => exact .refl
  | cons r rounds ih =>
    rw [round_turns, send_rounds]
    by_cases hline : (P.edge k).line = []
    · rw [if_pos hline, send_round_idle mode r hline]
      exact .refl
    · obtain ⟨e, rest, hcons⟩ := exists_cons_of_ne_nil hline
      have hentry : (Turn.mk P r).entry k = some e := by
        rw [Turn.entry, Turn.link, hcons, List.head?_cons]
      have hstart : Evolves k (P.edge k) [] ((Turn.mk P r).link k) := .refl
      have hround := hstart.turn hentry (send_round_turned hinv hk mode r hentry)
      have hinv' : Inv cf done (send_round cf k mode P r).1 :=
        (send_round_keeps hk mode r hinv).1
      rw [if_neg hline]
      obtain ⟨⟨P1, o⟩, heq⟩ : ∃ c, send_round cf k mode P r = c := ⟨_, rfl⟩
      rw [heq] at hround hinv' ⊢
      cases o with
      | again => exact hround.trans (ih hinv')
      | sent => exact hround
      | nothing => exact hround

theorem send_one_evolves (hk : cf.nbr k) (mode : ℕ) (rounds : List SendRound)
    (hinv : Inv cf done P) : Evolves k (P.edge k) (send_turns cf k mode rounds P)
      ((priority_flood_send_one cf k mode rounds P).edge k) := by
  rw [send_turns, priority_flood_send_one]
  split
  · exact send_rounds_evolves hk mode rounds hinv
  · exact .refl

theorem sends_evolves (hk : cf.nbr k) (mode : ℕ) (l : List (List SendRound)) :
    ∀ P : Flood, Inv cf done P → Evolves k (P.edge k) (sends_turns cf k mode l P)
      ((l.foldl (fun P rounds =>
        if P.halt = .running then priority_flood_send_one cf k mode rounds P else P) P).edge k) := by
  induction l with
  | nil => exact fun _ _ => .refl
  | cons rounds l ih =>
    intro P hinv
    rw [sends_turns, foldl_cons]
    by_cases hrun : P.halt = .running
    · rw [if_pos hrun, if_pos hrun]
      exact (send_one_evolves hk mode rounds hinv).trans
        (ih _ (send_one_keeps hk mode rounds hinv).1)
    · rw [if_neg hrun, if_neg hrun]
      exact ih P hinv

theorem enqueue_evolves (cf : PrioConf) (mode : ℕ) (m : PrioMsg)
    (hs : 1 ≤ m.source ∧ m.source ≤ MAX_NODES) (P : Flood) :
    Evolves k (P.edge k) [] ((enqueue cf mode m k P).edge k) := by
  unfold enqueue
  split
  · exact .refl
  · rename_i v hv
    have hjoin : ∀ packets, Evolves k (P.edge k) [] ((P.on_edge k
        (PrioLink.append m.source m.priority packets ⟨P.next_id, v.expire, m.key⟩)).edge k) := by
      intro packets
      rw [on_edge_self]
      exact Evolves.refl.joins m.source m.priority packets _ hs
    exact hjoin _

variable {hop : Option ℕ} {env : DissemEnv} {m : PrioMsg}

theorem RoundOf.calm {j : ℕ} {P' : Flood} (h : RoundOf cf hop env m j P P') (hj : k ≠ j) :
    CalmAt k P P' := by
  have hcheck : CalmAt k P (before_check cf env m j P) :=
    (CalmAt.of_eq (enqueue_other cf env.mode m hj P)).trans (sends_calm hj cf env.mode _ _)
  cases h with
  | settled flag hno => exact (calm_allows k).settle cf m.source m.key j flag P
  | fits hq hroom => exact hcheck
  | drops hq hover => exact hcheck.trans ((calm_allows k).drop_one cf j _)

theorem IsNew.calm (h : IsNew env m P) (hinv : Inv cf cf.all P)
    (hs : 1 ≤ m.source ∧ m.source ≤ MAX_NODES) {i n : ℕ} (hin : i ≤ n) (hn : n ≤ cf.degree)
    (hk : k ≤ i ∨ n < k) :
    CalmAt k (after_rounds cf hop env m P i) (after_rounds cf hop env m P n) := by
  induction n, hin using Nat.le_induction with
  | base => exact .refl _
  | succ n hin ih =>
    exact (ih (by omega) (by omega)).trans ((h.round hinv hs (by omega)).calm (by omega))

theorem event_evolves (hk : cf.nbr k) (hinv : Inv cf cf.all P) {e : Event} {P' : Flood}
    (hstep : Step cf P e P') : Evolves k (P.edge k) (event_turns cf k P e) (P'.edge k) := by
  obtain ⟨hrun, hok, rfl⟩ := hstep
  have hcalm : ∀ {P' : Flood}, CalmAt k P P' → Evolves k (P.edge k) [] (P'.edge k) :=
    fun h => Evolves.refl.calm h
  cases e with
  | disseminate hop env m =>
    rw [handle, event_turns]
    by_cases hnew : IsNew env m P
    · rw [hnew.disseminate]
      obtain ⟨n, rfl⟩ : ∃ n, k = n + 1 := ⟨k - 1, by have := hk.1; omega⟩
      have hn : n < cf.degree := hk.2
      have hopen : Opened cf hop env.mode m (P.note m) n _ := hnew.opened hinv hok.2 hn.le
      have hbefore : CalmAt (n + 1) P (after_rounds cf hop env m P n) := by
        have hstart : CalmAt (n + 1) P (after_rounds cf hop env m P 0) := .of_eq rfl
        exact hstart.trans (hnew.calm hinv hok.2 (Nat.zero_le n) hn.le (by omega))
      have hafter : CalmAt (n + 1) (after_rounds cf hop env m P (n + 1))
          (after_rounds cf hop env m P cf.degree) :=
        hnew.calm hinv hok.2 hn (le_refl _) (by omega)
      rw [Nat.add_sub_cancel]
      -- the round of `k` itself
      have hround : RoundOf cf hop env m (n + 1) _ _ := hnew.round hinv hok.2 hn
      have hcheck : ∀ hq : cf.queues hop m (n + 1),
          Evolves (n + 1) (P.edge (n + 1))
            (sends_turns cf (n + 1) env.mode (env.sends (n + 1))
              (enqueue cf env.mode m (n + 1) (after_rounds cf hop env m P n)))
            ((before_check cf env m (n + 1)
              (after_rounds cf hop env m P n)).edge (n + 1)) := by
        intro hq
        have hqueued := (hcalm hbefore).trans
          (@enqueue_evolves (n + 1) cf env.mode m hok.2 (after_rounds cf hop env m P n))
        exact hqueued.trans (sends_evolves hk env.mode (env.sends (n + 1)) _
          (hopen.enqueue hn (fun hskip => hq.2.1 hskip.2.2)).1.inv)
      refine Evolves.calm ?_ hafter
      generalize after_rounds cf hop env m P (n + 1) = P1 at hround
      cases hround with
      | settled flag hno =>
        rw [if_neg (fun h => hno h.2)]
        exact (hcalm hbefore).calm ((calm_allows _).settle cf m.source m.key (n + 1) flag _)
      | fits hq hroom =>
        rw [if_pos ⟨hnew, hq⟩]
        exact hcheck hq
      | drops hq hover =>
        rw [if_pos ⟨hnew, hq⟩]
        exact (hcheck hq).calm ((calm_allows _).drop_one cf (n + 1) _)
    · rw [if_neg (fun h => hnew h.1)]
      exact hcalm ((calm_allows k).disseminate cf hop env m hrun hnew)
  | send_one j mode rounds =>
    rw [handle, event_turns]
    by_cases hj : j = k
    · rw [if_pos hj, hj]
      exact send_one_evolves hk mode rounds hinv
    · rw [if_neg hj]
      exact hcalm (send_one_calm (Ne.symm hj) cf mode rounds P)
  | garbage_collect now order => exact hcalm ((calm_allows k).garbage_collect cf now order P)

end Events

/-! ## 5. The lists are right -/

def PrioLink.sources (ld : PrioLink) : List ℕ := ld.line.map SendFair.src_id

/-- `in_send_queue` says which sources have an entry, and every source with messages has
exactly one. -/
structure PrioLink.Listed (ld : PrioLink) : Prop where
  entries : ∀ s, ld.sources.count s = (ld.in_send_queue s).toNat
  queued : ∀ s, ld.msg_count s ≠ 0 → ld.in_send_queue s = true
  range : ∀ s ∈ ld.sources, 1 ≤ s ∧ s ≤ MAX_NODES

section Listed

variable {k : ℕ} {ld ld' : PrioLink} {e : SendFair} {rest : List SendFair} {l : List Turn}

theorem line_rotate (h : ld.line = e :: rest) (penalty : ℕ) :
    (ld.rotate penalty).line = rest ++ [⟨e.src_id, penalty⟩] := by
  rw [PrioLink.line] at h
  cases hu : ld.urgent with
  | nil =>
    rw [hu, nil_append] at h
    rw [rotate_norm hu h, PrioLink.line]
    rw [hu, nil_append]
  | cons a urgent =>
    rw [hu, cons_append] at h
    obtain ⟨rfl, rfl⟩ := List.cons.inj h
    rw [rotate_urgent hu, PrioLink.line]
    rw [append_assoc]

theorem line_charge (h : ld.line = e :: rest) (penalty : ℕ) :
    (ld.charge penalty).line = ⟨e.src_id, penalty⟩ :: rest := by
  rw [PrioLink.line] at h
  cases hu : ld.urgent with
  | nil =>
    rw [hu, nil_append] at h
    rw [charge_norm hu h, PrioLink.line]
    rw [hu, nil_append]
  | cons a urgent =>
    rw [hu, cons_append] at h
    obtain ⟨rfl, rfl⟩ := List.cons.inj h
    rw [charge_urgent hu, PrioLink.line]
    rw [cons_append]

theorem Turn.entry_line {t : Turn} (h : t.entry k = some e) :
    ∃ rest, (t.link k).line = e :: rest := List.head?_eq_some_iff.mp h

theorem PrioLink.Listed.perm (h : ld.Listed) (hperm : ld'.sources.Perm ld.sources)
    (hqueue : ld'.in_send_queue = ld.in_send_queue)
    (hcounts : ∀ s, ld'.msg_count s ≤ ld.msg_count s) : ld'.Listed := by
  refine ⟨fun s => ?_, fun s hs => ?_, fun s hs => h.range s (hperm.subset hs)⟩
  · rw [hperm.count_eq, hqueue]
    exact h.entries s
  · rw [hqueue]
    exact h.queued s (ne_of_gt (lt_of_lt_of_le (Nat.pos_of_ne_zero hs) (hcounts s)))

theorem PrioLink.Calm.listed (hcalm : ld.Calm ld') (h : ld.Listed) : ld'.Listed := by
  refine h.perm ?_ hcalm.in_send_queue hcalm.counts
  rw [PrioLink.sources, hcalm.line]
  exact .refl _

theorem PrioLink.Listed.append (h : ld.Listed) {s : ℕ} (hs : 1 ≤ s ∧ s ≤ MAX_NODES)
    (priority packets : ℕ) (node : PqNode) : (ld.append s priority packets node).Listed := by
  have hcounts : ∀ a, a ≠ s →
      (ld.append s priority packets node).msg_count a = ld.msg_count a := by
    intro a ha
    exact update_of_ne ha _ _
  have hline : (ld.append s priority packets node).sources.Perm
      (if ld.in_send_queue s then ld.sources else s :: ld.sources) := by
    unfold PrioLink.sources PrioLink.line PrioLink.append
    split
    · exact .refl _
    · rw [append_assoc, singleton_append]
      exact (perm_middle.map SendFair.src_id)
  refine ⟨fun a => ?_, fun a ha => ?_, fun a ha => ?_⟩
  · rw [hline.count_eq]
    dsimp only [PrioLink.append]
    by_cases has : a = s
    · rw [has, update_self]
      cases hin : ld.in_send_queue s with
      | true =>
        rw [if_pos rfl, h.entries s, hin]
      | false =>
        rw [if_neg (by decide), count_cons_self, h.entries s, hin]
        rfl
    · rw [update_of_ne has]
      split
      · exact h.entries a
      · rw [count_cons_of_ne (Ne.symm has)]
        exact h.entries a
  · dsimp only [PrioLink.append]
    by_cases has : a = s
    · rw [has, update_self]
    · rw [update_of_ne has]
      rw [hcounts a has] at ha
      exact h.queued a ha
  · have hmem := hline.subset ha
    split at hmem
    · exact h.range a hmem
    · rcases mem_cons.mp hmem with rfl | hmem
      · exact hs
      · exact h.range a hmem

theorem PrioLink.Listed.leave (h : ld.Listed) (hurgent : ld.urgent = [])
    (hline : ld.line = e :: rest) (hempty : ld.msg_count e.src_id = 0) :
    (ld.leave e.src_id).Listed := by
  have hnorm : ld.norm = e :: rest := by
    rw [PrioLink.line, hurgent, nil_append] at hline
    exact hline
  have hsources : ld.sources = e.src_id :: (ld.leave e.src_id).sources := by
    rw [PrioLink.sources, hline, PrioLink.sources, PrioLink.line, PrioLink.leave]
    rw [hurgent, hnorm, nil_append, tail_cons, map_cons]
  have hcount := h.entries
  rw [hsources] at hcount
  refine ⟨fun s => ?_, fun s hs => ?_, fun s hs => h.range s ?_⟩
  · change (ld.leave e.src_id).sources.count s =
      (update ld.in_send_queue e.src_id false s).toNat
    have hs := hcount s
    by_cases hse : s = e.src_id
    · rw [hse, update_self]
      rw [hse, count_cons_self] at hs
      have hle := Bool.toNat_le (ld.in_send_queue e.src_id)
      rw [Bool.toNat_false]
      omega
    · rw [update_of_ne hse]
      rw [count_cons_of_ne (Ne.symm hse)] at hs
      exact hs
  · dsimp only [PrioLink.leave]
    rw [update_of_ne (fun hse => hs (by rw [hse]; exact hempty))]
    exact h.queued s hs
  · rw [hsources]
    exact mem_cons_of_mem _ hs

theorem Turned.listed {t : Turn} (hentry : t.entry k = some e) (hturn : Turned k t e ld')
    (h : (t.link k).Listed) : ld'.Listed := by
  obtain ⟨rest, hline⟩ := Turn.entry_line hentry
  have hrotate : ∀ penalty, ((t.link k).rotate penalty).Listed := by
    intro penalty
    have hqueue : ((t.link k).rotate penalty).in_send_queue = (t.link k).in_send_queue := by
      unfold PrioLink.rotate
      split <;> rfl
    have hcounts : ((t.link k).rotate penalty).msg_count = (t.link k).msg_count := by
      unfold PrioLink.rotate
      split <;> rfl
    refine h.perm ?_ hqueue (fun s => le_of_eq (by rw [hcounts]))
    rw [PrioLink.sources, line_rotate hline, PrioLink.sources, hline, map_append]
    exact perm_append_comm
  cases hturn with
  | waits hwhy hafter => exact hafter.listed (hrotate _)
  | served hserves penalty hpenalty hafter => exact hafter.listed (hrotate _)
  | stays hserves hblocked hafter =>
    have hqueue : ((t.link k).charge 1).in_send_queue = (t.link k).in_send_queue := by
      unfold PrioLink.charge
      split <;> rfl
    have hcounts : ((t.link k).charge 1).msg_count = (t.link k).msg_count := by
      unfold PrioLink.charge
      split <;> rfl
    refine hafter.listed (h.perm ?_ hqueue (fun s => le_of_eq (by rw [hcounts])))
    rw [PrioLink.sources, line_charge hline, PrioLink.sources, hline]
    exact .refl _
  | leaves hurgent hempty hafter => exact hafter.listed (h.leave hurgent hline hempty)

theorem Evolves.listed (hevolves : Evolves k ld l ld') (h : ld.Listed) : ld'.Listed := by
  induction hevolves with
  | refl => exact h
  | calm _ hcalm ih => exact hcalm.listed ih
  | joins _ s priority packets node hs ih => exact ih.append hs priority packets node
  | turn _ hentry hturn ih => exact hturn.listed hentry ih

end Listed

/-! ## 6. Penalties -/

structure PrioLink.Paid (ld : PrioLink) : Prop where
  urgent : ∀ e ∈ ld.urgent, e.penalty = 1
  norm : ∀ e ∈ ld.norm, 1 ≤ e.penalty ∧ e.penalty < 2 ^ 16

section Paid

variable {k : ℕ} {ld ld' : PrioLink} {e : SendFair} {l : List Turn} {t : Turn}

theorem pay_penalty (h : 1 ≤ e.penalty ∧ e.penalty < 2 ^ 16) : e.pay.penalty = e.penalty - 1 := by
  rw [SendFair.pay]
  dsimp only
  omega

theorem PrioLink.Paid.entry (h : (t.link k).Paid) (hentry : t.entry k = some e) :
    1 ≤ e.penalty ∧ e.penalty < 2 ^ 16 := by
  rcases Turn.entry_cons hentry with ⟨urgent, hu⟩ | ⟨hu, norm, hn⟩
  · have hone := h.urgent e (by rw [hu]; exact mem_cons_self)
    omega
  · exact h.norm e (by rw [hn]; exact mem_cons_self)

theorem PrioLink.Calm.paid (hcalm : ld.Calm ld') (h : ld.Paid) : ld'.Paid := by
  refine ⟨?_, ?_⟩
  · rw [hcalm.urgent]
    exact h.urgent
  · rw [hcalm.norm]
    exact h.norm

theorem PrioLink.Paid.append (h : ld.Paid) (s priority packets : ℕ) (node : PqNode) :
    (ld.append s priority packets node).Paid := by
  refine ⟨fun e he => ?_, h.norm⟩
  dsimp only [PrioLink.append] at he
  split at he
  · exact h.urgent e he
  · rcases mem_append.mp he with he | he
    · exact h.urgent e he
    · rw [mem_singleton.mp he]

theorem PrioLink.Paid.rotate (h : (t.link k).Paid) (hentry : t.entry k = some e) {penalty : ℕ}
    (hpenalty : 1 ≤ penalty ∧ penalty < 2 ^ 16) : ((t.link k).rotate penalty).Paid := by
  have hback : ∀ norm : List SendFair, (∀ e ∈ norm, e ∈ (t.link k).norm) →
      ∀ a ∈ norm ++ [⟨e.src_id, penalty⟩], 1 ≤ a.penalty ∧ a.penalty < 2 ^ 16 := by
    intro norm hnorm a ha
    rcases mem_append.mp ha with ha | ha
    · exact h.norm a (hnorm a ha)
    · rw [mem_singleton.mp ha]
      exact hpenalty
  rcases Turn.entry_cons hentry with ⟨urgent, hu⟩ | ⟨hu, norm, hn⟩
  · rw [rotate_urgent hu]
    refine ⟨fun a ha => h.urgent a ?_, hback _ (fun _ ha => ha)⟩
    rw [hu]
    exact mem_cons_of_mem _ ha
  · rw [rotate_norm hu hn]
    refine ⟨h.urgent, hback _ (fun a ha => ?_)⟩
    rw [hn]
    exact mem_cons_of_mem _ ha

theorem PrioLink.Paid.charge (h : (t.link k).Paid) (hentry : t.entry k = some e) :
    ((t.link k).charge 1).Paid := by
  rcases Turn.entry_cons hentry with ⟨urgent, hu⟩ | ⟨hu, norm, hn⟩
  · rw [charge_urgent hu]
    refine ⟨fun a ha => ?_, h.norm⟩
    rcases mem_cons.mp ha with rfl | ha
    · rfl
    · exact h.urgent a (by rw [hu]; exact mem_cons_of_mem _ ha)
  · rw [charge_norm hu hn]
    refine ⟨h.urgent, fun a ha => ?_⟩
    rcases mem_cons.mp ha with rfl | ha
    · exact ⟨le_refl 1, show 1 < 2 ^ 16 by decide⟩
    · exact h.norm a (by rw [hn]; exact mem_cons_of_mem _ ha)

theorem Turn.Fed.left_to_pay (hfed : t.Fed k) (hentry : t.entry k = some e)
    (hwhy : e.pay.penalty ≠ 0 ∨ (t.link k).urgent ≠ [] ∧ (t.link k).msg_count e.src_id = 0) :
    e.pay.penalty ≠ 0 := by
  rcases hwhy with h | ⟨hne, hempty⟩
  · exact h
  · rcases Turn.entry_cons hentry with ⟨urgent, hu⟩ | ⟨hu, norm, hn⟩
    · exact absurd hempty (hfed e urgent hu)
    · exact absurd hu hne

theorem Turned.paid (hturn : Turned k t e ld') (hfed : t.Fed k) (hentry : t.entry k = some e)
    (h : (t.link k).Paid) : ld'.Paid := by
  have hpenalty := h.entry hentry
  cases hturn with
  | waits hwhy hafter =>
    have hleft := hfed.left_to_pay hentry hwhy
    have hpay := pay_penalty hpenalty
    exact hafter.paid (h.rotate hentry (by omega))
  | served hserves penalty hq hafter => exact hafter.paid (h.rotate hentry hq)
  | stays hserves hblocked hafter => exact hafter.paid (h.charge hentry)
  | leaves hurgent hempty hafter =>
    exact hafter.paid ⟨h.urgent, fun a ha => h.norm a (mem_of_mem_tail ha)⟩

theorem Evolves.paid (hevolves : Evolves k ld l ld') (h : ld.Paid) (hfed : ∀ t ∈ l, t.Fed k) :
    ld'.Paid ∧ ∀ t ∈ l, (t.link k).Paid := by
  induction hevolves with
  | refl => exact ⟨h, fun t ht => absurd ht not_mem_nil⟩
  | calm _ hcalm ih => exact ⟨hcalm.paid (ih hfed).1, (ih hfed).2⟩
  | joins _ s priority packets node hs ih =>
    exact ⟨(ih hfed).1.append s priority packets node, (ih hfed).2⟩
  | turn _ hentry hturn ih =>
    obtain ⟨hpaid, hall⟩ := ih fun t ht => hfed t (mem_append_left _ ht)
    refine ⟨hturn.paid (hfed _ (mem_append_right _ mem_cons_self)) hentry hpaid, ?_⟩
    intro t ht
    rcases mem_append.mp ht with ht | ht
    · exact hall t ht
    · rw [mem_singleton.mp ht]
      exact hpaid

end Paid

/-! ## 7. Waiting -/

inductive PrioLink.Rank (s : ℕ) (ld : PrioLink) : ℕ → Prop
  | urgent {ahead behind : List SendFair} {e : SendFair} (hs : e.src_id = s)
      (h : ld.urgent = ahead ++ e :: behind) : ld.Rank s (ahead.length + 1)
  | norm {ahead behind : List SendFair} {e : SendFair} (hs : e.src_id = s)
      (h : ld.norm = ahead ++ e :: behind) :
      ld.Rank s ((e.penalty - 1) * 99 + (50 + ahead.length - behind.length))

section Rank

variable {s k n : ℕ} {ld ld' : PrioLink} {e : SendFair} {l : List Turn} {t : Turn}

theorem PrioLink.Listed.length_le (h : ld.Listed) : ld.line.length ≤ 50 := by
  have hnodup : ld.sources.Nodup := by
    rw [nodup_iff_count_le_one]
    intro s
    rw [h.entries s]
    exact Bool.toNat_le _
  have hsub : ld.sources ⊆ range' 1 50 := by
    intro s hs
    have hrange := h.range s hs
    rw [MAX_NODES] at hrange
    exact mem_range'_1.mpr ⟨hrange.1, by omega⟩
  have hle := (hnodup.subperm hsub).length_le
  rwa [PrioLink.sources, length_map, length_range'] at hle

theorem PrioLink.Listed.rank_exists (hlisted : ld.Listed) (hpaid : ld.Paid) (h : e ∈ ld.line) :
    ∃ n, ld.Rank e.src_id n ∧ n ≤ 99 * e.penalty := by
  have hle := hlisted.length_le
  rw [PrioLink.line, length_append] at hle
  rcases mem_append.mp h with h | h
  · have hone := hpaid.urgent e h
    obtain ⟨ahead, behind, heq⟩ := append_of_mem h
    rw [heq, length_append, length_cons] at hle
    exact ⟨_, .urgent rfl heq, by omega⟩
  · have hpos := hpaid.norm e h
    obtain ⟨ahead, behind, heq⟩ := append_of_mem h
    rw [heq, length_append, length_cons] at hle
    exact ⟨_, .norm rfl heq, by omega⟩

theorem PrioLink.Rank.pos (h : ld.Rank s n) (hlisted : ld.Listed) : 1 ≤ n := by
  have hle := hlisted.length_le
  rw [PrioLink.line, length_append] at hle
  cases h with
  | urgent hs h => omega
  | norm hs h =>
    rw [h, length_append, length_cons] at hle
    omega

theorem PrioLink.Calm.rank (hcalm : ld.Calm ld') (h : ld.Rank s n) : ld'.Rank s n := by
  cases h with
  | urgent hs h => exact .urgent hs (hcalm.urgent.trans h)
  | norm hs h => exact .norm hs (hcalm.norm.trans h)

theorem PrioLink.Rank.append (h : ld.Rank s n) (a priority packets : ℕ) (node : PqNode) :
    (ld.append a priority packets node).Rank s n := by
  cases h with
  | norm hs h => exact .norm hs h
  | @urgent ahead behind e hs h =>
    have hurgent : ∃ behind', (ld.append a priority packets node).urgent =
        ahead ++ e :: behind' := by
      dsimp only [PrioLink.append]
      split
      · exact ⟨behind, h⟩
      · exact ⟨behind ++ [⟨a, 1⟩], by rw [h, append_assoc, cons_append]⟩
    obtain ⟨behind', h'⟩ := hurgent
    exact .urgent hs h'

theorem ahead_cons {list tail ahead behind : List SendFair} {a : SendFair}
    (hfront : list = e :: tail) (h : list = ahead ++ a :: behind) (hs : a.src_id = s)
    (he : e.src_id ≠ s) : ∃ ahead', ahead = e :: ahead' ∧ tail = ahead' ++ a :: behind := by
  rw [h] at hfront
  cases ahead with
  | nil => exact absurd ((List.cons.inj hfront).1 ▸ hs) he
  | cons b ahead =>
    obtain ⟨rfl, htail⟩ := List.cons.inj hfront
    exact ⟨ahead, rfl, htail.symm⟩

theorem PrioLink.Rank.rotate (h : (t.link k).Rank s n) (hlisted : (t.link k).Listed)
    (hentry : t.entry k = some e) (he : e.src_id ≠ s) (penalty : ℕ) :
    ∃ n', ((t.link k).rotate penalty).Rank s n' ∧ n' + 1 ≤ n := by
  have hle := hlisted.length_le
  rw [PrioLink.line, length_append] at hle
  cases h with
  | @urgent ahead behind a hs h =>
    rcases Turn.entry_cons hentry with ⟨urgent, hu⟩ | ⟨hu, -⟩
    · obtain ⟨ahead, rfl, htail⟩ := ahead_cons hu h hs he
      rw [rotate_urgent hu]
      exact ⟨_, .urgent hs htail, le_refl _⟩
    · rw [hu] at h
      exact absurd h (by simp)
  | @norm ahead behind a hs h =>
    rw [h, length_append, length_cons] at hle
    rcases Turn.entry_cons hentry with ⟨urgent, hu⟩ | ⟨hu, norm, hn⟩
    · -- one more behind it
      rw [hu, length_cons] at hle
      rw [rotate_urgent hu]
      refine ⟨_, @PrioLink.Rank.norm s _ ahead (behind ++ [⟨e.src_id, penalty⟩]) a hs ?_, ?_⟩
      · dsimp only
        rw [h, append_assoc, cons_append]
      · rw [length_append, length_singleton]
        omega
    · obtain ⟨ahead, rfl, htail⟩ := ahead_cons hn h hs he
      rw [rotate_norm hu hn]
      refine ⟨_, @PrioLink.Rank.norm s _ ahead (behind ++ [⟨e.src_id, penalty⟩]) a hs ?_, ?_⟩
      · dsimp only
        rw [htail, append_assoc, cons_append]
      · rw [length_append, length_singleton, length_cons]
        rw [length_cons] at hle
        omega

theorem PrioLink.Rank.own_turn (h : (t.link k).Rank e.src_id n) (hlisted : (t.link k).Listed)
    (hpaid : (t.link k).Paid) (hentry : t.entry k = some e) (hleft : e.pay.penalty ≠ 0) :
    ∃ n', ((t.link k).rotate e.pay.penalty).Rank e.src_id n' ∧ n' + 1 ≤ n := by
  have hle := hlisted.length_le
  have hpay := pay_penalty (hpaid.entry hentry)
  rcases Turn.entry_cons hentry with ⟨urgent, hu⟩ | ⟨hu, norm, hn⟩
  · -- the entries of the urgent list have nothing left
    have hone := hpaid.urgent e (by rw [hu]; exact mem_cons_self)
    exact absurd hpay (by omega)
  · rw [PrioLink.line, hu, hn, nil_append, length_cons] at hle
    have hn' : n = (e.penalty - 1) * 99 + (50 - norm.length) := by
      cases h with
      | urgent hs h =>
        rw [hu] at h
        exact absurd h (by simp)
      | @norm ahead behind a hs h =>
        have hcount := hlisted.entries e.src_id
        have hbool := Bool.toNat_le ((t.link k).in_send_queue e.src_id)
        rw [PrioLink.sources, PrioLink.line, hu, nil_append] at hcount
        cases ahead with
        | nil =>
          obtain ⟨rfl, rfl⟩ := List.cons.inj (hn.symm.trans h)
          rw [length_nil, add_zero]
        | cons b ahead =>
          -- there would be two entries of the source
          have hnorm : norm = ahead ++ a :: behind := (List.cons.inj (hn.symm.trans h)).2
          rw [hn, map_cons, count_cons_self, hnorm, map_append,
            count_append, map_cons, hs, count_cons_self] at hcount
          omega
    rw [rotate_norm hu hn]
    refine ⟨_, @PrioLink.Rank.norm e.src_id _ norm [] ⟨e.src_id, e.pay.penalty⟩ rfl rfl, ?_⟩
    rw [length_nil]
    dsimp only
    omega

theorem PrioLink.Rank.charge (h : (t.link k).Rank s n) (hentry : t.entry k = some e)
    (he : e.src_id ≠ s) : ((t.link k).charge 1).Rank s n := by
  rcases Turn.entry_cons hentry with ⟨urgent, hu⟩ | ⟨hu, norm, hn⟩
  · rw [charge_urgent hu]
    cases h with
    | norm hs h => exact .norm hs h
    | @urgent ahead behind a hs h =>
      obtain ⟨ahead, rfl, htail⟩ := ahead_cons hu h hs he
      refine @PrioLink.Rank.urgent s _ (⟨e.src_id, 1⟩ :: ahead) behind a hs ?_
      rw [htail, cons_append]
  · rw [charge_norm hu hn]
    cases h with
    | urgent hs h => exact .urgent hs h
    | @norm ahead behind a hs h =>
      obtain ⟨ahead, rfl, htail⟩ := ahead_cons hn h hs he
      refine @PrioLink.Rank.norm s _ (⟨e.src_id, 1⟩ :: ahead) behind a hs ?_
      rw [htail, cons_append]

theorem PrioLink.Rank.leave (h : (t.link k).Rank s n) (hlisted : (t.link k).Listed)
    (hentry : t.entry k = some e) (hurgent : (t.link k).urgent = []) (he : e.src_id ≠ s) :
    ∃ n', ((t.link k).leave e.src_id).Rank s n' ∧ n' + 1 ≤ n := by
  have hle := hlisted.length_le
  rw [PrioLink.line, length_append] at hle
  rcases Turn.entry_cons hentry with ⟨urgent, hu⟩ | ⟨hu, norm, hn⟩
  · rw [hurgent] at hu
    exact absurd hu (by simp)
  · cases h with
    | urgent hs h =>
      rw [hu] at h
      exact absurd h (by simp)
    | @norm ahead behind a hs h =>
      obtain ⟨ahead, rfl, -⟩ := ahead_cons hn h hs he
      rw [h, length_append, length_cons, length_cons] at hle
      refine ⟨_, @PrioLink.Rank.norm s _ ahead behind a hs ?_, ?_⟩
      · dsimp only [PrioLink.leave]
        rw [h, cons_append, tail_cons]
      · rw [length_cons]
        omega

theorem Turned.rank (hturn : Turned k t e ld') (hentry : t.entry k = some e)
    (hlisted : (t.link k).Listed) (hpaid : (t.link k).Paid) (hfed : t.Fed k)
    (hcount : (t.link k).msg_count s ≠ 0) (hserves : ¬ t.Serves k s) (h : (t.link k).Rank s n) :
    ∃ n', ld'.Rank s n' ∧ (t.moves k).toNat + n' ≤ n := by
  have hmoves := Bool.toNat_le (t.moves k)
  cases hturn with
  | waits hwhy hafter =>
    have hleft := hfed.left_to_pay hentry hwhy
    by_cases he : e.src_id = s
    · subst he
      obtain ⟨n', hn', hle⟩ := h.own_turn hlisted hpaid hentry hleft
      exact ⟨n', hafter.rank hn', by omega⟩
    · obtain ⟨n', hn', hle⟩ := h.rotate hlisted hentry he e.pay.penalty
      exact ⟨n', hafter.rank hn', by omega⟩
  | served hserved penalty hpenalty hafter =>
    have he : e.src_id ≠ s := fun heq => hserves (heq ▸ hserved)
    obtain ⟨n', hn', hle⟩ := h.rotate hlisted hentry he penalty
    exact ⟨n', hafter.rank hn', by omega⟩
  | stays hserved hblocked hafter =>
    have he : e.src_id ≠ s := fun heq => hserves (heq ▸ hserved)
    refine ⟨n, hafter.rank (h.charge hentry he), ?_⟩
    rw [hblocked, Bool.toNat_false]
    omega
  | leaves hurgent hempty hafter =>
    have he : e.src_id ≠ s := fun heq => hcount (heq ▸ hempty)
    obtain ⟨n', hn', hle⟩ := h.leave hlisted hentry hurgent he
    exact ⟨n', hafter.rank hn', by omega⟩

/-- **A source whose messages stay is served in time**, by induction on what happens. -/
theorem Evolves.rank (hevolves : Evolves k ld l ld') (hlisted : ld.Listed) (hpaid : ld.Paid)
    (hfed : ∀ t ∈ l, t.Fed k) (hcount : ∀ t ∈ l, (t.link k).msg_count s ≠ 0)
    (hserves : ∀ t ∈ l, ¬ t.Serves k s) (h : ld.Rank s n) :
    ∃ n', ld'.Rank s n' ∧ l.countP (Turn.moves k) + n' ≤ n := by
  induction hevolves with
  | refl => exact ⟨n, h, by rw [countP_nil]; omega⟩
  | calm _ hcalm ih =>
    obtain ⟨n', hn', hle⟩ := ih hfed hcount hserves
    exact ⟨n', hcalm.rank hn', hle⟩
  | joins _ a priority packets node hs ih =>
    obtain ⟨n', hn', hle⟩ := ih hfed hcount hserves
    exact ⟨n', hn'.append a priority packets node, hle⟩
  | @turn l t e ld2 hbefore hentry hturn ih =>
    have hlast : t ∈ l ++ [t] := mem_append_right _ mem_cons_self
    have hinit : ∀ u ∈ l, u ∈ l ++ [t] := fun u hu => mem_append_left _ hu
    obtain ⟨n', hn', hle⟩ := ih (fun u hu => hfed u (hinit u hu))
      (fun u hu => hcount u (hinit u hu)) (fun u hu => hserves u (hinit u hu))
    obtain ⟨n'', hn'', hle'⟩ := hturn.rank hentry (hbefore.listed hlisted)
      (hbefore.paid hpaid fun u hu => hfed u (hinit u hu)).1 (hfed t hlast) (hcount t hlast)
      (hserves t hlast) hn'
    refine ⟨n'', hn'', ?_⟩
    have hsplit : (l ++ [t]).countP (Turn.moves k) =
        l.countP (Turn.moves k) + (t.moves k).toNat := by
      rw [countP_append, countP_singleton]
      cases t.moves k <;> rfl
    omega

def PrioLink.debt (ld : PrioLink) : ℕ := (ld.norm.map SendFair.penalty).sum

theorem Turned.debt (hturn : Turned k t e ld') (hentry : t.entry k = some e)
    (hpaid : (t.link k).Paid) (hfed : t.Fed k) (hserves : ∀ s, ¬ t.Serves k s) :
    ld'.debt + 1 ≤ (t.link k).debt := by
  have hpay := pay_penalty (hpaid.entry hentry)
  have hpos := (hpaid.entry hentry).1
  have hdebt : ∀ {ld1 : PrioLink}, ld1.Calm ld' → ld'.debt = ld1.debt := by
    intro ld1 hcalm
    rw [PrioLink.debt, hcalm.norm, PrioLink.debt]
  rcases Turn.entry_cons hentry with ⟨urgent, hu⟩ | ⟨hu, norm, hn⟩
  · -- the front of the urgent list may send
    have hone := hpaid.urgent e (by rw [hu]; exact mem_cons_self)
    exact absurd ⟨hfed e urgent hu, e, hentry, rfl, by omega⟩ (hserves e.src_id)
  · have hsum : (t.link k).debt = e.penalty + (norm.map SendFair.penalty).sum := by
      rw [PrioLink.debt, hn, map_cons, sum_cons]
    cases hturn with
    | waits hwhy hafter =>
      have hleft := hfed.left_to_pay hentry hwhy
      have hsum' : ((t.link k).rotate e.pay.penalty).debt =
          (norm.map SendFair.penalty).sum + e.pay.penalty := by
        rw [rotate_norm hu hn, PrioLink.debt]
        rw [map_append, sum_append, map_singleton, sum_singleton]
      rw [hdebt hafter]
      omega
    | served hserved penalty hpenalty hafter => exact absurd hserved (hserves _)
    | stays hserved hblocked hafter => exact absurd hserved (hserves _)
    | leaves hurgent hempty hafter =>
      have hsum' : ((t.link k).leave e.src_id).debt = (norm.map SendFair.penalty).sum := by
        rw [PrioLink.debt, PrioLink.leave]
        rw [hn, tail_cons]
      rw [hdebt hafter]
      omega

theorem Evolves.debt (hevolves : Evolves k ld l ld') (hpaid : ld.Paid) (hfed : ∀ t ∈ l, t.Fed k)
    (hserves : ∀ t ∈ l, ∀ s, ¬ t.Serves k s) : l.length + ld'.debt ≤ ld.debt := by
  induction hevolves with
  | refl => rw [length_nil, zero_add]
  | calm _ hcalm ih =>
    have hle := ih hfed hserves
    rw [PrioLink.debt, hcalm.norm, ← PrioLink.debt]
    exact hle
  | joins _ a priority packets node hs ih => exact ih hfed hserves
  | @turn l t e ld2 hbefore hentry hturn ih =>
    have hlast : t ∈ l ++ [t] := mem_append_right _ mem_cons_self
    have hinit : ∀ u ∈ l, u ∈ l ++ [t] := fun u hu => mem_append_left _ hu
    have hle := ih (fun u hu => hfed u (hinit u hu)) (fun u hu => hserves u (hinit u hu))
    have hstep := hturn.debt hentry
      (hbefore.paid hpaid fun u hu => hfed u (hinit u hu)).1 (hfed t hlast) (hserves t hlast)
    rw [length_append, length_singleton]
    omega

end Rank

/-! ## 8. Runs -/

def FedStep (cf : PrioConf) (P : Flood) (e : Event) (P' : Flood) : Prop :=
  Step cf P e P' ∧ ∀ k, cf.nbr k → ∀ t ∈ event_turns cf k P e, t.Fed k

/-- From `P` to `P'` by such events, with the turns toward neighbour `k` on the way. -/
inductive Span (cf : PrioConf) (k : ℕ) (P : Flood) : List Turn → Flood → Prop
  | refl : Span cf k P [] P
  | step {l : List Turn} {P₁ P₂ : Flood} {e : Event} (h : Span cf k P l P₁)
      (hstep : FedStep cf P₁ e P₂) : Span cf k P (l ++ event_turns cf k P₁ e) P₂

section Runs

variable {cf : PrioConf} {sec k : ℕ} {P P' : Flood} {l : List Turn}

theorem run_listed (hk : cf.nbr k) (hrun : Run (Step cf) (init_priority_flooding cf sec) P) :
    Inv cf cf.all P ∧ (P.edge k).Listed := by
  refine hrun.invariant (fun P => Inv cf cf.all P ∧ (P.edge k).Listed) ⟨init_inv cf sec, ?_⟩ ?_
  · exact ⟨fun s => rfl, fun s hs => absurd rfl hs, fun s hs => absurd hs not_mem_nil⟩
  · intro P1 e P2 ⟨hinv, hlisted⟩ hstep
    exact ⟨(step_inv hinv hstep).1, (event_evolves hk hinv hstep).listed hlisted⟩

theorem fed_run_paid (hk : cf.nbr k) (hrun : Run (FedStep cf) (init_priority_flooding cf sec) P) :
    Inv cf cf.all P ∧ (P.edge k).Paid := by
  refine hrun.invariant (fun P => Inv cf cf.all P ∧ (P.edge k).Paid) ⟨init_inv cf sec, ?_⟩ ?_
  · exact ⟨fun e he => absurd he not_mem_nil, fun e he => absurd he not_mem_nil⟩
  · intro P1 e P2 ⟨hinv, hpaid⟩ hstep
    exact ⟨(step_inv hinv hstep.1).1,
      ((event_evolves hk hinv hstep.1).paid hpaid (hstep.2 k hk)).1⟩

theorem Span.evolves (hspan : Span cf k P l P') (hk : cf.nbr k) (hinv : Inv cf cf.all P) :
    Inv cf cf.all P' ∧ Evolves k (P.edge k) l (P'.edge k) ∧ ∀ t ∈ l, t.Fed k := by
  induction hspan with
  | refl => exact ⟨hinv, .refl, fun t ht => absurd ht not_mem_nil⟩
  | step _ hstep ih =>
    obtain ⟨hinv1, hevolves, hfed⟩ := ih
    refine ⟨(step_inv hinv1 hstep.1).1, hevolves.trans (event_evolves hk hinv1 hstep.1), ?_⟩
    intro t ht
    rcases mem_append.mp ht with ht | ht
    · exact hfed t ht
    · exact hstep.2 k hk t ht

/-- **The lists toward a neighbour are right in every run.** In a run whose turns are all
`Fed` nothing is taken off a penalty of 0. Then, whatever else happens, somebody may send
before more turns have passed than the sum of the penalties, and a source whose messages
stay may send itself within 99 turns for each unit of its own penalty. -/
theorem turns_fair (cf : PrioConf) (sec : ℕ) (P : Flood) :
    (Run (Step cf) (init_priority_flooding cf sec) P →
      ∀ k, cf.nbr k → (P.edge k).Listed) ∧
    (Run (FedStep cf) (init_priority_flooding cf sec) P → ∀ k, cf.nbr k → ∀ l P', Span cf k P l P' →
        (∀ t ∈ l, ∀ e, t.entry k = some e → 1 ≤ e.penalty) ∧
        ((∀ t ∈ l, ∀ s, ¬ t.Serves k s) → l.length ≤ (P.edge k).debt) ∧
        ∀ e ∈ (P.edge k).line,
          (∀ t ∈ l, (t.link k).msg_count e.src_id ≠ 0 ∧ ¬ t.Serves k e.src_id) →
            l.countP (Turn.moves k) < 99 * e.penalty) := by
  refine ⟨fun hrun k hk => (run_listed hk hrun).2, fun hrun k hk l P' hspan => ?_⟩
  obtain ⟨hinv, hpaid⟩ := fed_run_paid hk hrun
  have hlisted := (run_listed hk (hrun.mono fun _ _ _ h => h.1)).2
  obtain ⟨-, hevolves, hfed⟩ := hspan.evolves hk hinv
  obtain ⟨-, hall⟩ := hevolves.paid hpaid hfed
  refine ⟨fun t ht e hentry => ((hall t ht).entry hentry).1, fun hserves => ?_,
    fun e he hwaits => ?_⟩
  · have hdebt := hevolves.debt hpaid hfed hserves
    omega
  · obtain ⟨n, hn, hle⟩ := hlisted.rank_exists hpaid he
    obtain ⟨n', hn', hcount⟩ := hevolves.rank hlisted hpaid hfed (fun t ht => (hwaits t ht).1)
      (fun t ht => (hwaits t ht).2) hn
    have hpos := hn'.pos (hevolves.listed hlisted)
    omega

end Runs

/-! ## 9. Two sources -/

section Lists

variable {cf : PrioConf} {k : ℕ} {P P' : Flood} {l : List Turn}

instance (t : Turn) (k s : ℕ) : Decidable (t.Serves k s) :=
  decidable_of_iff ((t.link k).msg_count s ≠ 0 ∧
      ∃ e ∈ (t.entry k).toList, e.src_id = s ∧ e.pay.penalty = 0) (by simp [Turn.Serves])

instance (t : Turn) (k : ℕ) : Decidable (t.Fed k) :=
  decidable_of_iff (∀ e ∈ (t.link k).urgent.head?.toList, (t.link k).msg_count e.src_id ≠ 0) (by
    cases h : (t.link k).urgent <;> simp [Turn.Fed, h])

/-- `Event.Ok` of a message or a call, in any state. -/
def Event.named (cf : PrioConf) : Event → Bool
  | .disseminate src_link _ m =>
    (∀ k ∈ src_link, cf.nbr k) ∧ 1 ≤ m.source ∧ m.source ≤ MAX_NODES
  | .send_one k _ _ => cf.nbr k
  | .garbage_collect _ _ => false

theorem ok_of_named {e : Event} (h : e.named cf = true) (P : Flood) : e.Ok cf P := by
  cases e with
  | disseminate hop env m =>
    have hok := of_decide_eq_true (show decide (_ ∧ _) = true from h)
    exact hok
  | send_one k mode rounds => exact of_decide_eq_true (p := cf.nbr k) h
  | garbage_collect now order => cases h

def all_turns (cf : PrioConf) (k : ℕ) : List Event → Flood → List Turn
  | [], _ => []
  | e :: es, P => event_turns cf k P e ++ all_turns cf k es (handle cf P e)

def all_fed (cf : PrioConf) : List Event → Flood → Bool
  | [], _ => true
  | e :: es, P => P.halt = .running ∧ e.named cf ∧
      (∀ k ∈ range' 1 cf.degree, ∀ t ∈ event_turns cf k P e, t.Fed k) ∧
      all_fed cf es (handle cf P e)

theorem Span.head {P₁ : Flood} {e : Event} (hstep : FedStep cf P e P₁)
    (h : Span cf k P₁ l P') : Span cf k P (event_turns cf k P e ++ l) P' := by
  induction h with
  | refl =>
    rw [append_nil]
    exact .step .refl hstep
  | step _ hlast ih =>
    rw [← append_assoc]
    exact ih.step hlast

theorem Span.run (h : Span cf k P l P') : Run (FedStep cf) P P' := by
  induction h with
  | refl => exact Run.refl _
  | step _ hstep ih => exact ih.tail hstep

theorem span_of_fed (es : List Event) (h : all_fed cf es P = true) :
    Span cf k P (all_turns cf k es P) (es.foldl (handle cf) P) := by
  induction es generalizing P with
  | nil => exact .refl
  | cons e es ih =>
    obtain ⟨hrun, hnamed, hfed, hrest⟩ := of_decide_eq_true h
    refine Span.head ⟨⟨hrun, ok_of_named hnamed P, rfl⟩, fun k hk => hfed k ?_⟩ (ih hrest)
    exact mem_range'_1.mpr ⟨hk.1, (Nat.lt_succ_of_le hk.2).trans_eq (Nat.add_comm _ 1)⟩

end Lists

def between : PrioConf := { small_belly with degree := 2, max_mess_stored := 20 }

/-- A message that comes over the link of neighbour `k`. -/
def relayed (k source seq_num : ℕ) (elements : List ℕ) (h : elements.length < MAX_SCATTER_ELEMENTS) :
    Event :=
  .disseminate (some k) ⟨⟨0, 0⟩, true, 0, fun _ => []⟩
    ⟨source, 9, ⟨0, seq_num⟩, 1, ⟨600, 0⟩, 6, elements, h⟩

/-- Neighbour 1 asks for a message, and takes it. -/
def asks (rounds : ℕ) : Event := .send_one 1 0 (replicate rounds ⟨⟨0, 0⟩, true⟩)

/-- A message of source 5 of four packets and one of source 4 have gone, and both have more. -/
def charged : Flood :=
  [relayed 2 5 1 [1000, 1000, 1000, 1000] (by decide),
    relayed 2 4 1 [16] session_msg.elements_length, asks 1, asks 1,
    relayed 2 5 2 [16] session_msg.elements_length, relayed 2 4 2 [16] session_msg.elements_length,
    relayed 2 4 3 [16] session_msg.elements_length,
    relayed 2 4 4 [16] session_msg.elements_length].foldl (handle between)
    (init_priority_flooding between 0)

theorem charged_run : Run (FedStep between) (init_priority_flooding between 0) charged :=
  (span_of_fed (k := 1) _ (by decide +kernel)).run

def asked : List Turn := all_turns between 1 [asks 2, asks 2, asks 2] charged

theorem asked_span :
    Span between 1 charged asked ([asks 2, asks 2, asks 2].foldl (handle between) charged) :=
  span_of_fed _ (by decide +kernel)

theorem turns_fair_charged : (charged.edge 1).Listed ∧
    (∀ t ∈ asked, ∀ e, t.entry 1 = some e → 1 ≤ e.penalty) ∧
    asked.countP (Turn.moves 1) < 99 * 4 := by
  obtain ⟨hlisted, hspan⟩ := turns_fair between 0 charged
  obtain ⟨hpaid, -, hwaits⟩ := hspan charged_run 1 (by decide) _ _ asked_span
  have hentry : ⟨5, 4⟩ ∈ (charged.edge 1).line := by decide +kernel
  exact ⟨hlisted (charged_run.mono fun _ _ _ h => h.1) 1 (by decide), hpaid,
    hwaits _ hentry (by decide +kernel)⟩

/-- The penalties are 4 and 1, and after six turns source 5 still waits: source 4 is charged
again each time it has sent. -/
theorem turns_past_penalties :
    ∃ l P', Run (FedStep between) (init_priority_flooding between 0) charged ∧
      (charged.edge 1).line = [⟨5, 4⟩, ⟨4, 1⟩] ∧ Span between 1 charged l P' ∧ l.length = 6 ∧
      ∀ t ∈ l, (t.link 1).msg_count 5 ≠ 0 ∧ ¬ t.Serves 1 5 :=
  ⟨_, _, charged_run, by decide +kernel, asked_span, by decide +kernel, by decide +kernel⟩

/-- Neighbour 1 has sent a copy of the message of source 5 before it asks. The first call takes
the penalty of source 5 to 0 and the second one below, and the next message of the source waits
behind a penalty of 65535. -/
theorem duplicate_wraps_penalty :
    ∃ P, Run (Step between) (init_priority_flooding between 0) P ∧
      (P.edge 1).line = [⟨5, 65535⟩, ⟨4, 1⟩] ∧ (P.edge 1).msg_count 5 = 1 := by
  have hplay : (play (fun P e => P.halt = .running ∧ e.named between = true) (handle between)
      (init_priority_flooding between 0)
      [relayed 2 5 1 [16] (by decide), relayed 2 4 1 [16] (by decide),
        relayed 2 4 2 [16] (by decide), relayed 1 5 1 [16] (by decide), asks 2, asks 2,
        relayed 2 5 2 [16] (by decide)]).any (fun P =>
      (P.edge 1).line = [⟨5, 65535⟩, ⟨4, 1⟩] ∧ (P.edge 1).msg_count 5 = 1) = true := by
    decide +kernel
  obtain ⟨P, hrun, hP⟩ := Run.of_play hplay
  refine ⟨P, hrun.mono fun P e P' h => ⟨h.1.1, ok_of_named h.1.2 P, h.2⟩, ?_⟩
  simpa using hP

end Spines.Priority
