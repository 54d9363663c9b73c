/-
The queues toward a neighbour in memory.

`Rel_Flood_Link_Data` has three linked lists: the flows in the urgent and the normal
queue, and the flows whose state is to be acknowledged. Elsewhere they are lists;
here is the code that splices them, on a memory of `Flow_Queue` nodes with the
sentinels and the tail pointers (`LinkHeap`). `Lockstep` pairs every operation on the
lists with the code for it. What the two do stays the same (`Represents`): no node is
in two places, none is lost, and the tails point to the last nodes.
-/
import Spines.RelFlood.Links
import Spines.Lib.Chain
import Spines.Lib.Marks

set_option autoImplicit false

namespace Spines.RelFlood

open Spines.Lib Function List

/-! ## 1. Memory -/

inductive QueueId
  | norm
  | urgent
  | hbh_unsent
  deriving DecidableEq

/-- An address: `&rfldata->norm_head` and so on, or what `new` hands out. -/
inductive Addr
  | head (q : QueueId)
  | cell (n : ℕ)
  deriving DecidableEq

structure LinkHeap where
  next : Addr → Option Addr
  node : Addr → FlowQueue
  tail : QueueId → Addr
  /-- Handed out by `new`, and not given back by `dispose` yet. -/
  live : Addr → Bool
  in_flow_queue : ℕ → ℕ → Bool
  unsent_state : ℕ → ℕ → Bool
  unsent_state_count : ℕ

/-- As `Init_Reliable_Flooding` sets it up. -/
def LinkHeap.init : LinkHeap where
  next := fun _ => none
  node := fun _ => ⟨0, 0, 0⟩
  tail := Addr.head
  live := fun _ => false
  in_flow_queue := fun _ _ => false
  unsent_state := fun _ _ => false
  unsent_state_count := 0

def LinkHeap.free (H : LinkHeap) (a : Addr) : Prop := H.live a = false ∧ ∃ n, a = .cell n

/-- `temp->next = NULL; tail->next = temp; tail = temp;` -/
def LinkHeap.link (q : QueueId) (a : Addr) (H : LinkHeap) : LinkHeap :=
  { H with
    next := Function.update (Function.update H.next a none) (H.tail q) (some a)
    tail := Function.update H.tail q a }

/-- `head.next = head.next->next;` and the tail is reset if it points to the node that
leaves. -/
def LinkHeap.unlink_tail (q : QueueId) (b : Addr) (H : LinkHeap) : LinkHeap :=
  { H with
    next := Function.update H.next (.head q) (H.next b)
    tail := Function.update H.tail q (if H.tail q = b then .head q else H.tail q) }

def LinkHeap.unlink_null (q : QueueId) (b : Addr) (H : LinkHeap) : LinkHeap :=
  { H with
    next := Function.update H.next (.head q) (H.next b)
    tail := Function.update H.tail q (if H.next b = none then .head q else H.tail q) }

/-- `temp->penalty = penalty`. -/
def LinkHeap.charge (b : Addr) (penalty : ℕ) (H : LinkHeap) : LinkHeap :=
  { H with node := Function.update H.node b { H.node b with penalty := penalty } }

def LinkHeap.dispose (b : Addr) (H : LinkHeap) : LinkHeap :=
  { H with live := Function.update H.live b false }

/-- A flow joins the urgent or the normal queue, with a node from `new`. -/
def LinkHeap.push_flow (q : QueueId) (a : Addr) (s d : ℕ) (H : LinkHeap) : LinkHeap :=
  if H.in_flow_queue s d then H
  else
    let H := { H with
      in_flow_queue := set2 H.in_flow_queue s d true
      live := Function.update H.live a true
      node := Function.update H.node a ⟨s, d, 1⟩ }
    H.link q a

/-- The state of a flow is to be acknowledged. The penalty of the node is not set. -/
def LinkHeap.push_state (a : Addr) (s d : ℕ) (H : LinkHeap) : LinkHeap :=
  if H.unsent_state s d then H
  else
    let H := { H with
      unsent_state := set2 H.unsent_state s d true
      live := Function.update H.live a true
      node := Function.update H.node a ⟨s, d, (H.node a).penalty⟩
      unsent_state_count := H.unsent_state_count + 1 }
    H.link .hbh_unsent a

def LinkHeap.defer (penalty : ℕ) (H : LinkHeap) : LinkHeap :=
  match H.next (.head .urgent) with
  | none => H
  | some b => ((H.unlink_tail .urgent b).charge b penalty).link .norm b

def LinkHeap.requeue_null (penalty : ℕ) (H : LinkHeap) : LinkHeap :=
  match H.next (.head .norm) with
  | none => H
  | some b => ((H.unlink_null .norm b).charge b penalty).link .norm b

def LinkHeap.requeue_tail (penalty : ℕ) (H : LinkHeap) : LinkHeap :=
  match H.next (.head .norm) with
  | none => H
  | some b => ((H.unlink_tail .norm b).charge b penalty).link .norm b

def LinkHeap.drop (H : LinkHeap) : LinkHeap :=
  match H.next (.head .norm) with
  | none => H
  | some b =>
    let H := H.unlink_null .norm b
    { H with
      in_flow_queue := set2 H.in_flow_queue (H.node b).src_id (H.node b).dest_id false }.dispose b

def LinkHeap.charge_first (q : QueueId) (penalty : ℕ) (H : LinkHeap) : LinkHeap :=
  match H.next (.head q) with
  | none => H
  | some b => H.charge b penalty

/-- One round of the loop of `Reliable_Flood_Add_Acks`. -/
def LinkHeap.take_ack (b : Addr) (H : LinkHeap) : LinkHeap :=
  let H := H.unlink_null .hbh_unsent b
  { H with
    unsent_state := set2 H.unsent_state (H.node b).src_id (H.node b).dest_id false
    unsent_state_count := H.unsent_state_count - 1 }.dispose b

def LinkHeap.add_acks : ℕ → LinkHeap → LinkHeap
  | 0, H => H
  | max_acks + 1, H =>
    match H.next (.head .hbh_unsent) with
    | none => H
    | some b => (H.take_ack b).add_acks max_acks

/-- The operations of `LinkOp`, each with the code that does it in memory. -/
inductive Lockstep : LinkData × LinkHeap → LinkData × LinkHeap → Prop
  | other {ld ld' : LinkData} {H : LinkHeap} (h : LinkOp ld ld') (hu : ld'.urgent = ld.urgent)
      (hn : ld'.norm = ld.norm) (hq : ld'.in_flow_queue = ld.in_flow_queue)
      (hs : ld'.hbh_unsent = ld.hbh_unsent) (hf : ld'.unsent_state = ld.unsent_state)
      (hc : ld'.unsent_state_count = ld.unsent_state_count) : Lockstep (ld, H) (ld', H)
  | push_norm {ld : LinkData} {H : LinkHeap} (s d : ℕ) {a : Addr} (ha : H.free a) :
      Lockstep (ld, H) (ld.push_norm s d, H.push_flow .norm a s d)
  | push_urgent {ld : LinkData} {H : LinkHeap} (s d : ℕ) {a : Addr} (ha : H.free a) :
      Lockstep (ld, H) (ld.push_urgent s d, H.push_flow .urgent a s d)
  | note_state {ld : LinkData} {H : LinkHeap} (s d : ℕ) {a : Addr} (ha : H.free a) :
      Lockstep (ld, H) (ld.note_state s d, H.push_state a s d)
  | add_acks {ld : LinkData} {H : LinkHeap} (fb : ℕ → ℕ → FlowBuffer) (max_acks : ℕ) :
      Lockstep (ld, H) ((reliable_flood_add_acks fb max_acks ld).1, H.add_acks max_acks)
  | defer {ld : LinkData} {H : LinkHeap} {e : FlowQueue} {urgent : List FlowQueue}
      (hu : ld.urgent = e :: urgent) (penalty : ℕ) :
      Lockstep (ld, H)
        ({ ld with urgent := urgent, norm := ld.norm ++ [{ e with penalty := penalty }] },
          H.defer penalty)
  | requeue_null {ld : LinkData} {H : LinkHeap} {e : FlowQueue} {norm : List FlowQueue}
      (hu : ld.urgent = []) (hn : ld.norm = e :: norm) (penalty : ℕ) :
      Lockstep (ld, H)
        ({ ld with norm := norm ++ [{ e with penalty := penalty }] }, H.requeue_null penalty)
  | requeue_tail {ld : LinkData} {H : LinkHeap} {e : FlowQueue} {norm : List FlowQueue}
      (hu : ld.urgent = []) (hn : ld.norm = e :: norm) (penalty : ℕ) :
      Lockstep (ld, H)
        ({ ld with norm := norm ++ [{ e with penalty := penalty }] }, H.requeue_tail penalty)
  | drop {ld : LinkData} {H : LinkHeap} {e : FlowQueue} {norm : List FlowQueue}
      (hu : ld.urgent = []) (hn : ld.norm = e :: norm) :
      Lockstep (ld, H)
        ({ ld with
            norm := norm
            in_flow_queue := set2 ld.in_flow_queue e.src_id e.dest_id false }, H.drop)
  | charge_urgent {ld : LinkData} {H : LinkHeap} {e : FlowQueue} {urgent : List FlowQueue}
      (hu : ld.urgent = e :: urgent) (penalty : ℕ) :
      Lockstep (ld, H)
        ({ ld with urgent := { e with penalty := penalty } :: urgent },
          H.charge_first .urgent penalty)
  | charge_norm {ld : LinkData} {H : LinkHeap} {e : FlowQueue} {norm : List FlowQueue}
      (hu : ld.urgent = []) (hn : ld.norm = e :: norm) (penalty : ℕ) :
      Lockstep (ld, H)
        ({ ld with norm := { e with penalty := penalty } :: norm }, H.charge_first .norm penalty)

/-! ## 2. Nodes in memory -/

def FlowQueue.flow (e : FlowQueue) : ℕ × ℕ := (e.src_id, e.dest_id)

/-- The memory has the nodes `c` at the addresses `l`, and no others. -/
structure Holds (H : LinkHeap) (l : QueueId → List Addr) (c : QueueId → List FlowQueue) : Prop where
  chains : Chains H.next Addr.head H.tail l
  live : ∀ a, H.live a = true ↔ ∃ q, a ∈ l q
  nodes : ∀ q, (l q).map H.node = c q

section Holds

variable {H H' : LinkHeap} {l : QueueId → List Addr} {c : QueueId → List FlowQueue} {q : QueueId}
  {a b : Addr} {xs : List Addr} {e : FlowQueue} {es : List FlowQueue}

theorem Holds.init : Holds LinkHeap.init (fun _ => []) (fun _ => []) := by
  refine ⟨⟨fun _ => rfl, fun _ => rfl, fun _ => nodup_singleton _, fun i j hij a hi hj => ?_⟩,
    fun a => by simp [LinkHeap.init], fun _ => rfl⟩
  rw [mem_singleton.mp hi] at hj
  injection mem_singleton.mp hj with heq
  exact hij heq

theorem Holds.fresh (h : Holds H l c) (ha : H.free a) (q : QueueId) : a ∉ Addr.head q :: l q := by
  obtain ⟨hlive, n, rfl⟩ := ha
  intro hmem
  rcases mem_cons.mp hmem with heq | hmem
  · exact Addr.noConfusion heq
  · rw [(h.live _).mpr ⟨q, hmem⟩] at hlive
    exact Bool.noConfusion hlive

theorem Holds.exists_free (h : Holds H l c) : ∃ a, H.free a := by
  have hinj : Function.Injective Addr.cell := fun m n hmn => by injection hmn
  have : Infinite Addr := Infinite.of_injective Addr.cell hinj
  obtain ⟨a, ha⟩ := Infinite.exists_notMem_finset
    ([Addr.head .norm, Addr.head .urgent, Addr.head .hbh_unsent] ++ l .norm ++ l .urgent ++
      l .hbh_unsent).toFinset
  rw [List.mem_toFinset] at ha
  refine ⟨a, ?_, ?_⟩
  · rw [← Bool.not_eq_true, h.live]
    rintro ⟨q, hq⟩
    apply ha
    cases q <;> simp [hq]
  · cases a with
    | cell n => exact ⟨n, rfl⟩
    | head q =>
      apply absurd _ ha
      cases q <;> simp

theorem Holds.first (h : Holds H l c) (hc : c q = e :: es) :
    ∃ b xs, l q = b :: xs ∧ H.next (.head q) = some b ∧ H.node b = e ∧ xs.map H.node = es := by
  have hnodes := h.nodes q
  have hpath := h.chains.path q
  cases hl : l q with
  | nil =>
    rw [hl, hc] at hnodes
    exact absurd hnodes (by simp)
  | cons b xs =>
    rw [hl] at hnodes hpath
    rw [hc, map_cons] at hnodes
    injection hnodes with hb hxs
    exact ⟨b, xs, rfl, hpath.1, hb, hxs⟩

theorem Holds.first_none (h : Holds H l c) (hc : c q = []) : H.next (.head q) = none := by
  have hl : l q = [] := by
    rw [← map_eq_nil_iff (f := H.node), h.nodes q, hc]
  have hpath := h.chains.path q
  rw [hl] at hpath
  exact hpath

theorem Holds.unlink_null (h : Holds H l c) (hl : l q = b :: xs) :
    H.unlink_null q b = H.unlink_tail q b := by
  unfold LinkHeap.unlink_null LinkHeap.unlink_tail
  simp only [h.chains.tail_iff hl]

theorem Holds.push (h : Holds H l c) (ha : H.free a) (q : QueueId) (e : FlowQueue)
    (hnext : H'.next = update (update H.next a none) (H.tail q) (some a))
    (htail : H'.tail = update H.tail q a) (hlive : H'.live = update H.live a true)
    (hnode : H'.node = update H.node a e) :
    Holds H' (update l q (l q ++ [a])) (update c q (c q ++ [e])) := by
  have hfresh := h.fresh ha
  have hsame : ∀ p, (l p).map H'.node = c p := by
    intro p
    rw [← h.nodes p]
    apply map_congr_left
    intro b hb
    rw [hnode, update_of_ne]
    rintro rfl
    exact hfresh p (mem_cons_of_mem _ hb)
  refine ⟨?_, fun b => ?_, fun p => ?_⟩
  · rw [hnext, htail]
    exact h.chains.push q hfresh
  · rw [hlive]
    by_cases hb : b = a
    · rw [hb, update_self]
      exact ⟨fun _ => ⟨q, by simp⟩, fun _ => rfl⟩
    · rw [update_of_ne hb, h.live]
      apply exists_congr
      intro p
      by_cases hp : p = q
      · simp [hp, hb]
      · rw [update_of_ne hp]
  · by_cases hp : p = q
    · rw [hp, update_self, update_self, map_append, hsame q, map_cons,
        hnode, update_self]
      rfl
    · rw [update_of_ne hp, update_of_ne hp]
      exact hsame p

theorem Holds.pop (h : Holds H l c) (hl : l q = b :: xs)
    (hnext : H'.next = update H.next (.head q) (H.next b))
    (htail : H'.tail = update H.tail q (if H.tail q = b then .head q else H.tail q))
    (hlive : H'.live = update H.live b false) (hnode : H'.node = H.node) :
    Holds H' (update l q xs) (update c q (xs.map H.node)) := by
  have hpopped := h.chains.popped hl
  refine ⟨?_, fun a => ?_, fun p => ?_⟩
  · rw [hnext, htail]
    exact h.chains.pop hl
  · rw [hlive]
    by_cases ha : a = b
    · rw [ha, update_self]
      constructor
      · intro hfalse
        exact Bool.noConfusion hfalse
      · rintro ⟨p, hp⟩
        exact absurd (mem_cons_of_mem _ hp) (hpopped p)
    · rw [update_of_ne ha, h.live]
      apply exists_congr
      intro p
      by_cases hp : p = q
      · rw [hp, update_self, hl, mem_cons]
        exact ⟨fun hm => hm.resolve_left ha, .inr⟩
      · rw [update_of_ne hp]
  · rw [hnode]
    by_cases hp : p = q
    · rw [hp, update_self, update_self]
    · rw [update_of_ne hp, update_of_ne hp]
      exact h.nodes p

theorem Holds.move (h : Holds H l c) (hc : c q = e :: es) (q' : QueueId) (penalty : ℕ) :
    ∃ b l', H.next (.head q) = some b ∧ H.unlink_null q b = H.unlink_tail q b ∧
      Holds (((H.unlink_tail q b).charge b penalty).link q' b) l'
        (update (update c q es) q'
          (update c q es q' ++ [{ e with penalty := penalty }])) := by
  obtain ⟨b, xs, hl, hfirst, hb, hes⟩ := h.first hc
  have hlive : H.live b = true := (h.live b).mpr ⟨q, by simp [hl]⟩
  have hcell : ∃ n, b = .cell n := by
    cases b with
    | cell n => exact ⟨n, rfl⟩
    | head p =>
      -- a sentinel is in no queue
      have hmem : Addr.head p ∈ Addr.head q :: l q := by simp [hl]
      by_cases hpq : p = q
      · have hnd := h.chains.nodup q
        rw [hpq] at hl
        rw [hl, nodup_cons] at hnd
        exact absurd mem_cons_self hnd.1
      · exact absurd hmem (h.chains.disjoint p q hpq mem_cons_self)
  have hpop : Holds ((H.unlink_tail q b).dispose b) (update l q xs)
      (update c q es) := by
    rw [← hes]
    exact h.pop hl rfl rfl rfl rfl
  have hfree : ((H.unlink_tail q b).dispose b).free b := ⟨update_self _ _ _, hcell⟩
  refine ⟨b, _, hfirst, h.unlink_null hl, hpop.push hfree q' { e with penalty := penalty } rfl rfl ?_ ?_⟩
  · change H.live = update (update H.live b false) b true
    rw [update_idem, ← hlive, Function.update_eq_self]
  · change update H.node b { H.node b with penalty := penalty } = _
    rw [hb]
    rfl

theorem Holds.charge (h : Holds H l c) (hc : c q = e :: es) (penalty : ℕ) :
    Holds (H.charge_first q penalty) l
      (update c q ({ e with penalty := penalty } :: es)) := by
  obtain ⟨b, xs, hl, hfirst, hb, hes⟩ := h.first hc
  unfold LinkHeap.charge_first
  rw [hfirst]
  refine ⟨h.chains, h.live, fun p => ?_⟩
  dsimp only [LinkHeap.charge]
  have hother : ∀ ys : List Addr, b ∉ ys →
      ys.map (update H.node b { H.node b with penalty := penalty }) = ys.map H.node := by
    intro ys hys
    apply map_congr_left
    intro a ha
    apply update_of_ne
    rintro rfl
    exact hys ha
  by_cases hp : p = q
  · have hnd := h.chains.nodup q
    rw [hl, nodup_cons, nodup_cons] at hnd
    rw [hp, update_self, hl, map_cons, update_self, hother xs hnd.2.1, hes, hb]
  · rw [update_of_ne hp, ← h.nodes p]
    apply hother
    intro hmem
    refine h.chains.disjoint p q hp (mem_cons_of_mem _ hmem) ?_
    simp [hl]

end Holds

/-! ## 3. Lists and memory in lockstep -/

structure Represents (ld : LinkData) (H : LinkHeap) (l : QueueId → List Addr)
    (c : QueueId → List FlowQueue) : Prop where
  holds : Holds H l c
  norm : c .norm = ld.norm
  urgent : c .urgent = ld.urgent
  hbh_unsent : (c .hbh_unsent).map FlowQueue.flow = ld.hbh_unsent
  in_flow_queue : H.in_flow_queue = ld.in_flow_queue
  unsent_state : H.unsent_state = ld.unsent_state
  unsent_state_count : H.unsent_state_count = ld.unsent_state_count

section Lockstep

variable {ld ld' : LinkData} {H H' : LinkHeap} {l : QueueId → List Addr}
  {c : QueueId → List FlowQueue}

theorem Represents.init : Represents LinkData.init LinkHeap.init (fun _ => []) (fun _ => []) :=
  ⟨Holds.init, rfl, rfl, rfl, rfl, rfl, rfl⟩

theorem Represents.push_norm (h : Represents ld H l c) (s d : ℕ) {a : Addr} (ha : H.free a) :
    ∃ l' c', Represents (ld.push_norm s d) (H.push_flow .norm a s d) l' c' := by
  unfold LinkData.push_norm LinkHeap.push_flow
  rw [h.in_flow_queue]
  split
  · exact ⟨l, c, h⟩
  · refine ⟨_, _, h.holds.push ha .norm ⟨s, d, 1⟩ rfl rfl rfl rfl, ?_, ?_, ?_, rfl,
      h.unsent_state, h.unsent_state_count⟩
    · rw [update_self, h.norm]
    · rw [update_of_ne (by decide), h.urgent]
    · rw [update_of_ne (by decide), h.hbh_unsent]

theorem Represents.push_urgent (h : Represents ld H l c) (s d : ℕ) {a : Addr} (ha : H.free a) :
    ∃ l' c', Represents (ld.push_urgent s d) (H.push_flow .urgent a s d) l' c' := by
  unfold LinkData.push_urgent LinkHeap.push_flow
  rw [h.in_flow_queue]
  split
  · exact ⟨l, c, h⟩
  · refine ⟨_, _, h.holds.push ha .urgent ⟨s, d, 1⟩ rfl rfl rfl rfl, ?_, ?_, ?_, rfl,
      h.unsent_state, h.unsent_state_count⟩
    · rw [update_of_ne (by decide), h.norm]
    · rw [update_self, h.urgent]
    · rw [update_of_ne (by decide), h.hbh_unsent]

theorem Represents.note_state (h : Represents ld H l c) (s d : ℕ) {a : Addr} (ha : H.free a) :
    ∃ l' c', Represents (ld.note_state s d) (H.push_state a s d) l' c' := by
  unfold LinkData.note_state LinkHeap.push_state
  rw [h.unsent_state]
  split
  · exact ⟨l, c, h⟩
  · refine ⟨_, _, h.holds.push ha .hbh_unsent ⟨s, d, (H.node a).penalty⟩ rfl rfl rfl rfl, ?_, ?_,
      ?_, h.in_flow_queue, rfl, ?_⟩
    · rw [update_of_ne (by decide), h.norm]
    · rw [update_of_ne (by decide), h.urgent]
    · rw [update_self, map_append, h.hbh_unsent]
      rfl
    · dsimp only [LinkHeap.link]
      rw [h.unsent_state_count]

def LinkData.take_ack (s d : ℕ) (hbh_unsent : List (ℕ × ℕ)) (ld : LinkData) : LinkData :=
  { ld with
    hbh_unsent := hbh_unsent
    unsent_state := set2 ld.unsent_state s d false
    unsent_state_count := ld.unsent_state_count - 1 }

theorem add_acks_succ (fb : ℕ → ℕ → FlowBuffer) (max_acks : ℕ) {s d : ℕ}
    {rest : List (ℕ × ℕ)} (hl : ld.hbh_unsent = (s, d) :: rest) :
    (reliable_flood_add_acks fb (max_acks + 1) ld).1 =
      (reliable_flood_add_acks fb max_acks (ld.take_ack s d rest)).1 := by
  unfold reliable_flood_add_acks LinkData.take_ack
  dsimp only
  have hflags : (fun a b => if (a, b) ∈ (s, d) :: rest.take max_acks then false
        else ld.unsent_state a b) =
      fun a b => if (a, b) ∈ rest.take max_acks then false
        else set2 ld.unsent_state s d false a b := by
    funext a b
    by_cases hab : a = s ∧ b = d
    · rw [hab.1, hab.2, set2_self, if_pos mem_cons_self]
      split <;> rfl
    · have hne : ¬ (a, b) = (s, d) := fun heq => hab (Prod.mk.inj heq)
      rw [set2_of_ne _ _ hab]
      simp only [mem_cons, hne, false_or]
  rw [hl, take_succ_cons, drop_succ_cons, length_cons, hflags]
  congr 1
  omega

theorem Represents.add_acks (h : Represents ld H l c) (fb : ℕ → ℕ → FlowBuffer) (max_acks : ℕ) :
    ∃ l' c', Represents (reliable_flood_add_acks fb max_acks ld).1 (H.add_acks max_acks) l' c' := by
  induction max_acks generalizing ld H l c with
  | zero =>
    refine ⟨l, c, h.holds, h.norm, h.urgent, ?_, h.in_flow_queue, ?_, ?_⟩
    · exact h.hbh_unsent
    · rw [LinkHeap.add_acks, h.unsent_state]
      simp [reliable_flood_add_acks]
    · rw [LinkHeap.add_acks, h.unsent_state_count]
      simp [reliable_flood_add_acks]
  | succ max_acks ih =>
    rw [LinkHeap.add_acks]
    cases hc : c .hbh_unsent with
    | nil =>
      have hnil : ld.hbh_unsent = [] := by
        rw [← h.hbh_unsent, hc]
        rfl
      rw [h.holds.first_none hc]
      refine ⟨l, c, h.holds, h.norm, h.urgent, ?_, h.in_flow_queue, ?_, ?_⟩
      · rw [h.hbh_unsent, hnil]
        simp [reliable_flood_add_acks, hnil]
      · rw [h.unsent_state]
        simp [reliable_flood_add_acks, hnil]
      · rw [h.unsent_state_count]
        simp [reliable_flood_add_acks, hnil]
    | cons e es =>
      obtain ⟨b, xs, hl, hfirst, hb, hes⟩ := h.holds.first hc
      have hlist := h.hbh_unsent
      rw [hc, map_cons] at hlist
      rw [hfirst, add_acks_succ fb max_acks hlist.symm]
      apply ih
      · -- one round
        have htail : (H.take_ack b).tail = (H.unlink_tail .hbh_unsent b).tail := by
          unfold LinkHeap.take_ack
          rw [h.holds.unlink_null hl]
          rfl
        have hpop : Holds (H.take_ack b) _ _ := h.holds.pop hl rfl htail rfl rfl
        refine ⟨hpop, ?_, ?_, ?_, h.in_flow_queue, ?_, ?_⟩
        · rw [update_of_ne (by decide), h.norm]
          rfl
        · rw [update_of_ne (by decide), h.urgent]
          rfl
        · rw [update_self, hes]
          rfl
        · dsimp only [LinkHeap.take_ack, LinkHeap.dispose, LinkHeap.unlink_null,
            LinkData.take_ack]
          rw [h.unsent_state, hb]
        · dsimp only [LinkHeap.take_ack, LinkHeap.dispose, LinkHeap.unlink_null,
            LinkData.take_ack]
          rw [h.unsent_state_count]

theorem Represents.defer (h : Represents ld H l c) {e : FlowQueue} {urgent : List FlowQueue}
    (hu : ld.urgent = e :: urgent) (penalty : ℕ) : ∃ l' c', Represents
      { ld with urgent := urgent, norm := ld.norm ++ [{ e with penalty := penalty }] }
      (H.defer penalty) l' c' := by
  obtain ⟨b, l', hfirst, -, hholds⟩ := h.holds.move (h.urgent.trans hu) .norm penalty
  unfold LinkHeap.defer
  rw [hfirst]
  refine ⟨l', _, hholds, ?_, ?_, ?_, h.in_flow_queue, h.unsent_state, h.unsent_state_count⟩
  · rw [update_self, update_of_ne (by decide), h.norm]
  · rw [update_of_ne (by decide), update_self]
  · rw [update_of_ne (by decide), update_of_ne (by decide), h.hbh_unsent]

theorem Represents.requeue (h : Represents ld H l c) {e : FlowQueue} {norm : List FlowQueue}
    (hn : ld.norm = e :: norm) (penalty : ℕ) :
    H.requeue_null penalty = H.requeue_tail penalty ∧ ∃ l' c',
      Represents { ld with norm := norm ++ [{ e with penalty := penalty }] }
        (H.requeue_tail penalty) l' c' := by
  obtain ⟨b, l', hfirst, htests, hholds⟩ := h.holds.move (h.norm.trans hn) .norm penalty
  unfold LinkHeap.requeue_null LinkHeap.requeue_tail
  rw [hfirst]
  dsimp only
  rw [htests]
  refine ⟨rfl, l', _, hholds, ?_, ?_, ?_, h.in_flow_queue, h.unsent_state, h.unsent_state_count⟩
  · rw [update_self, update_self]
  · rw [update_of_ne (by decide), update_of_ne (by decide), h.urgent]
  · rw [update_of_ne (by decide), update_of_ne (by decide), h.hbh_unsent]

theorem Represents.drop (h : Represents ld H l c) {e : FlowQueue} {norm : List FlowQueue}
    (hn : ld.norm = e :: norm) : ∃ l' c', Represents
      { ld with
        norm := norm
        in_flow_queue := set2 ld.in_flow_queue e.src_id e.dest_id false } H.drop l' c' := by
  obtain ⟨b, xs, hl, hfirst, hb, hes⟩ := h.holds.first (h.norm.trans hn)
  unfold LinkHeap.drop
  rw [hfirst]
  dsimp only
  rw [h.holds.unlink_null hl]
  refine ⟨_, _, h.holds.pop hl rfl rfl rfl rfl, ?_, ?_, ?_, ?_, h.unsent_state,
    h.unsent_state_count⟩
  · rw [update_self, hes]
  · rw [update_of_ne (by decide), h.urgent]
  · rw [update_of_ne (by decide), h.hbh_unsent]
  · dsimp only [LinkHeap.dispose, LinkHeap.unlink_tail]
    rw [h.in_flow_queue, hb]

theorem charge_first_flags (H : LinkHeap) (q : QueueId) (penalty : ℕ) :
    (H.charge_first q penalty).in_flow_queue = H.in_flow_queue ∧
      (H.charge_first q penalty).unsent_state = H.unsent_state ∧
      (H.charge_first q penalty).unsent_state_count = H.unsent_state_count := by
  unfold LinkHeap.charge_first
  split <;> exact ⟨rfl, rfl, rfl⟩

theorem Represents.step (h : Represents ld H l c) (hstep : Lockstep (ld, H) (ld', H')) :
    ∃ l' c', Represents ld' H' l' c' := by
  cases hstep with
  | other hop hu hn hq hs hf hc =>
    exact ⟨l, c, h.holds, h.norm.trans hn.symm, h.urgent.trans hu.symm, h.hbh_unsent.trans hs.symm,
      h.in_flow_queue.trans hq.symm, h.unsent_state.trans hf.symm,
      h.unsent_state_count.trans hc.symm⟩
  | push_norm s d ha => exact h.push_norm s d ha
  | push_urgent s d ha => exact h.push_urgent s d ha
  | note_state s d ha => exact h.note_state s d ha
  | add_acks fb max_acks => exact h.add_acks fb max_acks
  | defer hu penalty => exact h.defer hu penalty
  | requeue_null hu hn penalty =>
    obtain ⟨htests, hrep⟩ := h.requeue hn penalty
    rw [htests]
    exact hrep
  | requeue_tail hu hn penalty => exact (h.requeue hn penalty).2
  | drop hu hn => exact h.drop hn
  | charge_urgent hu penalty =>
    refine ⟨l, _, h.holds.charge (h.urgent.trans hu) penalty, ?_, ?_, ?_, ?_, ?_, ?_⟩
    · rw [update_of_ne (by decide), h.norm]
    · rw [update_self]
    · rw [update_of_ne (by decide), h.hbh_unsent]
    · exact (charge_first_flags H .urgent penalty).1.trans h.in_flow_queue
    · exact (charge_first_flags H .urgent penalty).2.1.trans h.unsent_state
    · exact (charge_first_flags H .urgent penalty).2.2.trans h.unsent_state_count
  | charge_norm hu hn penalty =>
    refine ⟨l, _, h.holds.charge (h.norm.trans hn) penalty, ?_, ?_, ?_, ?_, ?_, ?_⟩
    · rw [update_self]
    · rw [update_of_ne (by decide), h.urgent]
    · rw [update_of_ne (by decide), h.hbh_unsent]
    · exact (charge_first_flags H .norm penalty).1.trans h.in_flow_queue
    · exact (charge_first_flags H .norm penalty).2.1.trans h.unsent_state
    · exact (charge_first_flags H .norm penalty).2.2.trans h.unsent_state_count

theorem Represents.exists_step (h : Represents ld H l c) (hop : LinkOp ld ld') :
    ∃ H', Lockstep (ld, H) (ld', H') := by
  obtain ⟨a, ha⟩ := h.holds.exists_free
  have hop' := hop
  cases hop with
  | push_norm s d => exact ⟨_, .push_norm s d ha⟩
  | push_urgent s d => exact ⟨_, .push_urgent s d ha⟩
  | note_state s d => exact ⟨_, .note_state s d ha⟩
  | add_acks fb max_acks => exact ⟨_, .add_acks fb max_acks⟩
  | defer hu penalty => exact ⟨_, .defer hu penalty⟩
  | requeue hu hn penalty => exact ⟨_, .requeue_null hu hn penalty⟩
  | drop hu hn => exact ⟨_, .drop hu hn⟩
  | charge_urgent hu penalty => exact ⟨_, .charge_urgent hu penalty⟩
  | charge_norm hu hn penalty => exact ⟨_, .charge_norm hu hn penalty⟩
  | _ => exact ⟨H, .other hop' rfl rfl rfl rfl rfl rfl⟩

abbrev LockstepRun : LinkData × LinkHeap → LinkData × LinkHeap → Prop :=
  Relation.ReflTransGen Lockstep

theorem Represents.run (h : Represents ld H l c) (hrun : LockstepRun (ld, H) (ld', H')) :
    ∃ l' c', Represents ld' H' l' c' := by
  have hall : ∀ p, LockstepRun (ld, H) p → ∃ l' c', Represents p.1 p.2 l' c' := by
    intro p hp
    induction hp with
    | refl => exact ⟨l, c, h⟩
    | tail _ hlast ih =>
      obtain ⟨l1, c1, h1⟩ := ih
      exact h1.step hlast
  exact hall _ hrun

theorem Represents.exists_run (h : Represents ld H l c) (hrun : LinkRun ld ld') :
    ∃ H', LockstepRun (ld, H) (ld', H') := by
  induction hrun with
  | refl => exact ⟨H, .refl⟩
  | tail _ hlast ih =>
    obtain ⟨H1, hrun1⟩ := ih
    obtain ⟨l1, c1, h1⟩ := h.run hrun1
    obtain ⟨H2, hstep⟩ := h1.exists_step hlast
    exact ⟨H2, hrun1.tail hstep⟩

end Lockstep

/-! ## 4. Flags -/

structure Flagged (ld : LinkData) : Prop where
  flows : Marks (fun f => ld.in_flow_queue f.1 f.2) ((ld.urgent ++ ld.norm).map FlowQueue.flow)
  states : Marks (fun f => ld.unsent_state f.1 f.2) ld.hbh_unsent
  count : ld.unsent_state_count = ld.hbh_unsent.length

theorem set2_flow {α : Type*} (t : ℕ → ℕ → α) (s d : ℕ) (x : α) :
    (fun f : ℕ × ℕ => set2 t s d x f.1 f.2) = update (fun f => t f.1 f.2) (s, d) x := by
  funext f
  by_cases hf : f = (s, d)
  · rw [hf, update_self, set2_self]
  · rw [update_of_ne hf, set2_of_ne]
    exact fun h => hf (Prod.ext h.1 h.2)

section Flagged

variable {ld ld' : LinkData}

theorem Flagged.of_perm (h : Flagged ld) (hq : ld'.in_flow_queue = ld.in_flow_queue)
    (hp : ((ld'.urgent ++ ld'.norm).map FlowQueue.flow).Perm
      ((ld.urgent ++ ld.norm).map FlowQueue.flow))
    (hs : ld'.hbh_unsent = ld.hbh_unsent) (hf : ld'.unsent_state = ld.unsent_state)
    (hc : ld'.unsent_state_count = ld.unsent_state_count) : Flagged ld' := by
  refine ⟨?_, ?_, ?_⟩
  · rw [hq]
    exact h.flows.perm hp
  · rw [hf, hs]
    exact h.states
  · rw [hc, hs]
    exact h.count

theorem Flagged.op (h : Flagged ld) (hop : LinkOp ld ld') : Flagged ld' := by
  cases hop with
  | push_norm s d =>
    unfold LinkData.push_norm
    split
    · exact h
    · rename_i hq
      refine ⟨?_, h.states, h.count⟩
      rw [set2_flow]
      apply h.flows.push (by simpa using hq)
      rw [map_append, map_append, map_append, ← append_assoc]
      exact perm_append_singleton _ _
  | push_urgent s d =>
    unfold LinkData.push_urgent
    split
    · exact h
    · rename_i hq
      refine ⟨?_, h.states, h.count⟩
      rw [set2_flow]
      apply h.flows.push (by simpa using hq)
      rw [map_append, map_append, map_append, append_assoc]
      exact perm_middle
  | note_state s d =>
    unfold LinkData.note_state
    split
    · exact h
    · rename_i hq
      refine ⟨h.flows, ?_, ?_⟩
      · dsimp only
        rw [set2_flow]
        exact h.states.push (by simpa using hq) (perm_append_singleton _ _)
      · dsimp only
        rw [h.count, length_append]
        rfl
  | add_acks fb max_acks =>
    refine ⟨h.flows, ?_, ?_⟩
    · intro a
      have hdrop := h.states.drop max_acks a
      dsimp only [reliable_flood_add_acks]
      convert hdrop using 1
      by_cases hmem : a ∈ ld.hbh_unsent.take max_acks <;> simp [hmem]
    · dsimp only [reliable_flood_add_acks]
      rw [h.count, length_take, length_drop]
      omega
  | @defer e urgent hu penalty =>
    refine h.of_perm rfl ?_ rfl rfl rfl
    rw [hu, ← append_assoc, map_append, cons_append, map_cons]
    exact perm_append_singleton _ _
  | @requeue e norm hu hn penalty =>
    refine h.of_perm rfl ?_ rfl rfl rfl
    rw [hn, hu, nil_append, nil_append, map_append, map_cons]
    exact perm_append_singleton _ _
  | @drop e norm hu hn =>
    refine ⟨?_, h.states, h.count⟩
    rw [set2_flow]
    apply h.flows.pop
    rw [hn, hu]
    exact List.Perm.refl _
  | @charge_urgent e urgent hu penalty =>
    refine h.of_perm rfl ?_ rfl rfl rfl
    rw [hu]
    exact List.Perm.refl _
  | @charge_norm e norm hu hn penalty =>
    refine h.of_perm rfl ?_ rfl rfl rfl
    rw [hn, hu]
    exact List.Perm.refl _
  | _ => exact h.of_perm rfl (List.Perm.refl _) rfl rfl rfl

end Flagged

/-! ## 5. The queues of a daemon -/

/-- The three lists in memory: every list ends at its tail, and the flags say which flows have
a node in it. -/
structure Linked (H : LinkHeap) (l : QueueId → List Addr) : Prop where
  chains : Chains H.next Addr.head H.tail l
  live : ∀ a, H.live a = true ↔ ∃ q, a ∈ l q
  flows : ∀ s d, (l .urgent ++ l .norm).countP (fun a => (H.node a).flow = (s, d)) =
    if H.in_flow_queue s d = true then 1 else 0
  states : ∀ s d, (l .hbh_unsent).countP (fun a => (H.node a).flow = (s, d)) =
    if H.unsent_state s d = true then 1 else 0
  count : H.unsent_state_count = (l .hbh_unsent).length

def HeapStep (cf : Conf) (c : Daemon × (ℕ → LinkHeap)) (e : Event)
    (c' : Daemon × (ℕ → LinkHeap)) : Prop :=
  Step cf c.1 e c'.1 ∧ ∀ k, LockstepRun (c.1.edge k, c.2 k) (c'.1.edge k, c'.2 k)

section Daemons

variable {cf : Conf} {sec : ℕ}

theorem count_nodes (f : Addr → FlowQueue) (l : List Addr) (s d : ℕ) :
    l.countP (fun a => (f a).flow = (s, d)) =
      ((l.map f).map FlowQueue.flow).countP (fun b => b = (s, d)) := by
  rw [countP_map, countP_map]
  rfl

theorem Represents.linked {ld : LinkData} {H : LinkHeap} {l : QueueId → List Addr}
    {c : QueueId → List FlowQueue} (h : Represents ld H l c) (hf : Flagged ld) : Linked H l := by
  have hnodes := h.holds.nodes
  refine ⟨h.holds.chains, h.holds.live, fun s d => ?_, fun s d => ?_, ?_⟩
  · rw [count_nodes, map_append, hnodes, hnodes, h.urgent, h.norm, h.in_flow_queue]
    exact hf.flows.countP_eq (s, d)
  · rw [count_nodes, hnodes, h.hbh_unsent, h.unsent_state]
    exact hf.states.countP_eq (s, d)
  · rw [h.unsent_state_count, hf.count, ← h.hbh_unsent, ← hnodes, length_map, length_map]

/-- **In every run the queues toward every neighbour are linked, and hold the lists of the
link data; and every run of a daemon is one with its queues in memory.** -/
theorem queues_linked (cf : Conf) (sec : ℕ) :
    (∀ D G, Run (HeapStep cf) (init_reliable_flooding cf sec, fun _ => LinkHeap.init) (D, G) →
      ∀ k, ∃ l, Linked (G k) l ∧ (l .urgent).map (G k).node = (D.edge k).urgent ∧
        (l .norm).map (G k).node = (D.edge k).norm ∧
        (l .hbh_unsent).map (fun a => ((G k).node a).flow) = (D.edge k).hbh_unsent ∧
        (G k).in_flow_queue = (D.edge k).in_flow_queue ∧
        (G k).unsent_state = (D.edge k).unsent_state ∧
        (G k).unsent_state_count = (D.edge k).unsent_state_count) ∧
      ∀ D, Run (Step cf) (init_reliable_flooding cf sec) D →
        ∃ G, Run (HeapStep cf) (init_reliable_flooding cf sec, fun _ => LinkHeap.init) (D, G) := by
  have hrep : ∀ c, Run (HeapStep cf) (init_reliable_flooding cf sec, fun _ => LinkHeap.init) c →
      Run (Step cf) (init_reliable_flooding cf sec) c.1 ∧
        ∀ k, ∃ l x, Represents (c.1.edge k) (c.2 k) l x := by
    intro c hrun
    refine hrun.invariant (fun c => Run (Step cf) (init_reliable_flooding cf sec) c.1 ∧
      ∀ k, ∃ l x, Represents (c.1.edge k) (c.2 k) l x)
      ⟨Run.refl _, fun _ => ⟨_, _, Represents.init⟩⟩ ?_
    rintro ⟨D1, G1⟩ e ⟨D2, G2⟩ ⟨hD, hk⟩ ⟨hstep, hheap⟩
    refine ⟨hD.tail hstep, fun k => ?_⟩
    obtain ⟨l, x, h⟩ := hk k
    exact h.run (hheap k)
  constructor
  · intro D G hrun k
    obtain ⟨hD, hk⟩ := hrep (D, G) hrun
    obtain ⟨l, x, h⟩ := hk k
    have hflags : Flagged (D.edge k) :=
      link_invariant Flagged ⟨Marks.nil, Marks.nil, rfl⟩ (fun _ _ hop h => h.op hop) hD k
    have hnodes := h.holds.nodes
    refine ⟨l, h.linked hflags, (hnodes _).trans h.urgent, (hnodes _).trans h.norm, ?_,
      h.in_flow_queue, h.unsent_state, h.unsent_state_count⟩
    rw [← h.hbh_unsent, ← hnodes, List.map_map]
    rfl
  · intro D hrun
    refine hrun.invariant (fun D => ∃ G, Run (HeapStep cf)
      (init_reliable_flooding cf sec, fun _ => LinkHeap.init) (D, G)) ⟨_, Run.refl _⟩ ?_
    rintro D1 e D2 ⟨G1, hG⟩ hstep
    obtain ⟨-, hk⟩ := hrep (D1, G1) hG
    have hlift : ∀ k, ∃ H, LockstepRun (D1.edge k, G1 k) (D2.edge k, H) := by
      intro k
      obtain ⟨l, x, h⟩ := hk k
      obtain ⟨-, -, heq⟩ := id hstep
      rw [heq]
      exact h.exists_run (handle_links cf D1 e k)
    choose G2 hG2 using hlift
    have hpair : HeapStep cf (D1, G1) e (D2, G2) := ⟨hstep, hG2⟩
    exact ⟨G2, hG.tail hpair⟩

end Daemons

end Spines.RelFlood
