/-
Link status changes (`daemon/reliable_flood.c`).

Every daemon floods the costs of its own links, all of them in one message: the
message carries the epoch of its creator and, for each link, a cost and a
sequence number that grows with every change of that cost. A daemon keeps the
last message of every creator (`Status_Change`) and, apart from it, the costs of
all links (`Edge`); `Process_Status_Change` takes a message as a whole or not at
all, but writes to the costs link by link.

The results here are about one creator `c` and another daemon. What carries them is
the order of `c`'s messages (`History`): within an epoch a sequence number never goes
back, and a cost changes only with its sequence number.
-/
import Spines.RelFlood.Links
import Spines.Lib.Marks

set_option autoImplicit false

namespace Spines.RelFlood

open Spines.Lib Function List

/-! ## 1. State -/

/-- `status_change_cell`: what a creator says about one of its links. -/
structure StatusCell where
  seq : ℕ
  /-- An `int16`; `-1` is a link that is down. -/
  cost : ℤ
  deriving DecidableEq, Repr

structure StatusChange where
  epoch : ℕ
  creator : ℕ
  cell : ℕ → StatusCell

structure StatusConf where
  directed_edges : Bool
  /-- `Neighbor_IDs[c]`. -/
  neighbor_ids : ℕ → List ℕ
  /-- The cost of the entry of `Sorted_Edges` with this key. -/
  sorted_edges : ℕ → ℕ → ℤ
  /-- `Conf_IT_Link.Loss_Penalty`. -/
  loss_penalty : ℕ
  status_change_timeout : ℕ
  neighbor_ids_range : ∀ c, ∀ i ∈ neighbor_ids c, 1 ≤ i ∧ i ≤ MAX_NODES
  sorted_edges_range : ∀ a b, -2 ^ 15 ≤ sorted_edges a b ∧ sorted_edges a b < 2 ^ 15
  /-- `Conf_set_Reroute_loss_penalty` takes a positive `int`. -/
  loss_penalty_range : 1 ≤ loss_penalty ∧ loss_penalty < 2 ^ 31

/-- The half of `Rel_Flood_Link_Data` that is about status changes. -/
structure StatusLink where
  /-- `status_change_stats[creator].unsent`. -/
  unsent : ℕ → Bool
  /-- `status_change_stats[creator].timeout`. -/
  timeout : ℕ → ℕ
  /-- `status_change_skl`: the creators whose message waits, earliest time first. -/
  skl : List (ℕ × ℕ)
  /-- `status_change_ready`. -/
  ready : Bool

structure StatusState where
  /-- `Status_Change`. -/
  stored : ℕ → StatusChange
  /-- `Get_Edge(a, b)->cost`. -/
  cost : ℕ → ℕ → ℤ
  link : ℕ → StatusLink
  /-- `Local_Status_Change_Progress`. -/
  progress : Bool

/-- `Init_Reliable_Flooding` and, for the costs, `Init_Nodes`: every link is down
until somebody says otherwise. -/
def StatusState.init (cf : Conf) : StatusState where
  stored := fun c =>
    { epoch := 0
      creator := c
      cell := fun i =>
        { seq := 0
          cost := if c = cf.my_id ∧ ∃ k ∈ range' 1 cf.degree, cf.neighbor_ids k = i then -1
            else 0 } }
  cost := fun _ _ => -1
  link := fun _ =>
    { unsent := fun _ => false
      timeout := fun _ => 0
      skl := []
      ready := false }
  progress := false

/-! ## 2. Costs -/

/-- The cost the configuration gives to the link from `a` to `b`. Without directed
edges the entry of `Sorted_Edges` has the smaller node first. -/
def StatusConf.ref_cost (sc : StatusConf) (a b : ℕ) : ℤ :=
  if sc.directed_edges = false ∧ b < a then sc.sorted_edges b a else sc.sorted_edges a b

def SHRT_MAX : ℤ := 32767

/-- The cost of a link of this daemon in a given status: down, up or lossy. The sum
with the penalty is an `int32u`. Other values of `status` are not recognized. -/
def StatusConf.link_cost (sc : StatusConf) (a b status : ℕ) : Option ℤ :=
  match status with
  | 0 => some (-1)
  | 1 => some (sc.ref_cost a b)
  | 2 =>
    let tmp_cost := (sc.ref_cost a b + sc.loss_penalty) % 2 ^ 32
    some (if SHRT_MAX < tmp_cost then SHRT_MAX else tmp_cost)
  | _ => none

/-- The cost is one the link from `a` to `b` can have. -/
def StatusConf.cost_ok (sc : StatusConf) (a b : ℕ) (cost : ℤ) : Prop :=
  ¬ (cost ≠ -1 ∧ cost < sc.ref_cost a b)

instance (sc : StatusConf) (a b : ℕ) (cost : ℤ) : Decidable (sc.cost_ok a b cost) :=
  inferInstanceAs (Decidable (¬ _))

/-- `Apply_Link_Status_Change` on the costs. -/
def apply_link_status_change (sc : StatusConf) (id1 id2 : ℕ) (cost : ℤ) (t : ℕ → ℕ → ℤ) :
    ℕ → ℕ → ℤ :=
  if sc.cost_ok id1 id2 cost then set2 t id1 id2 cost else t

/-! ## 3. Handlers -/

/-- The message of `creator` is to be sent at time `t`. -/
def StatusLink.insert (t creator : ℕ) (ld : StatusLink) : StatusLink :=
  { ld with
    unsent := Function.update ld.unsent creator true
    timeout := Function.update ld.timeout creator t
    skl := ld.skl.orderedInsert (fun a b => a.1 ≤ b.1) (t, creator) }

/-- `Generate_Link_Status_Change`; `src_epoch` is `Flow_Source_Epoch[My_ID]`. -/
def generate_link_status_change (cf : Conf) (sc : StatusConf) (src_epoch ngbr_id status : ℕ)
    (S : StatusState) : StatusState :=
  match sc.link_cost cf.my_id ngbr_id status with
  | none => S
  | some cost =>
    let mine := S.stored cf.my_id
    { S with
      cost := apply_link_status_change sc cf.my_id ngbr_id cost S.cost
      stored := Function.update S.stored cf.my_id
        { mine with
          epoch := if mine.epoch = 0 then src_epoch else mine.epoch
          cell := Function.update mine.cell ngbr_id
            { seq := int64u ((mine.cell ngbr_id).seq + 1), cost := cost } }
      progress := true }

/-- The checks on the single cells: nothing about links the creator does not have,
and no cost below the configured one. -/
def status_valid (sc : StatusConf) (m : StatusChange) : Prop :=
  ∀ i ∈ range' 1 MAX_NODES,
    ¬ (i ∉ sc.neighbor_ids m.creator ∧ (0 < (m.cell i).seq ∨ (m.cell i).cost ≠ 0)) ∧
      (i ∈ sc.neighbor_ids m.creator → sc.cost_ok m.creator i (m.cell i).cost)

instance (sc : StatusConf) (m : StatusChange) : Decidable (status_valid sc m) :=
  inferInstanceAs (Decidable (∀ i ∈ _, _))

/-- `old_content`: some cell of the message is older than the stored one. -/
def old_content (new old : StatusChange) : Prop :=
  ∃ i ∈ range' 1 MAX_NODES, (new.cell i).seq < (old.cell i).seq

instance (new old : StatusChange) : Decidable (old_content new old) :=
  inferInstanceAs (Decidable (∃ i ∈ _, _))

/-- `new_content` within an epoch: some cell is newer. -/
def new_content (new old : StatusChange) : Prop :=
  ∃ i ∈ range' 1 MAX_NODES, (old.cell i).seq < (new.cell i).seq

instance (new old : StatusChange) : Decidable (new_content new old) :=
  inferInstanceAs (Decidable (∃ i ∈ _, _))

def apply_cell (sc : StatusConf) (new old : StatusChange) (t : ℕ → ℕ → ℤ) (i : ℕ) : ℕ → ℕ → ℤ :=
  if i ∈ sc.neighbor_ids new.creator ∧
      (old.epoch < new.epoch ∨ (old.cell i).seq < (new.cell i).seq) then
    apply_link_status_change sc new.creator i (new.cell i).cost t
  else t

/-- `Process_Status_Change` up to its call of `Reliable_Flood_Restamp`. -/
def process_status_change (cf : Conf) (sc : StatusConf) (last_hop_index : ℕ) (new : StatusChange)
    (S : StatusState) : StatusState :=
  let creator := new.creator
  if creator < 1 ∨ MAX_NODES < creator then S
  else
    let old := S.stored creator
    if new.epoch < old.epoch then S
    else if ¬ status_valid sc new then S
    else if ¬ old.epoch < new.epoch ∧ old_content new old ∧ new_content new old then S
    else if ¬ (old.epoch < new.epoch ∨ new_content new old) then S
    else
      { S with
        cost := (range' 1 MAX_NODES).foldl (apply_cell sc new old) S.cost
        stored := Function.update S.stored creator new
        link := cf.each (fun k =>
          let ld := S.link k
          if ld.unsent creator = false ∧ k ≠ last_hop_index then
            ld.insert (ld.timeout creator + sc.status_change_timeout) creator
          else ld) S.link }

/-- `Gen_Status_Change` at time `now`. -/
def gen_status_change (cf : Conf) (now : ℕ) (S : StatusState) : StatusState :=
  if S.progress = false then S
  else
    { S with
      progress := false
      link := cf.each (fun k =>
        let ld := S.link k
        if ld.unsent cf.my_id then ld
        else { ld with
          unsent := Function.update ld.unsent cf.my_id true
          skl := ld.skl.orderedInsert (fun a b => a.1 ≤ b.1) (now, cf.my_id) }) S.link }

/-- `Status_Change_Event` up to its call of `Request_Resources`. -/
def status_change_event (k : ℕ) (S : StatusState) : StatusState :=
  { S with
    link := Function.update S.link k
      (if (S.link k).skl = [] then S.link k else { S.link k with ready := true }) }

/-- `Send_Status_Change`, with the message it sent. -/
def send_status_change (cf : Conf) (sc : StatusConf) (k : ℕ) (env : SendEnv) (S : StatusState) :
    StatusState × Option StatusChange :=
  match (S.link k).skl with
  | [] => (S, none)
  | (_, creator) :: skl =>
    let ld := { S.link k with skl := skl, ready := false }
    if env.forward_ok ∧ ¬ (creator = cf.my_id ∧ cf.crypto ∧ env.sign_ok = false) then
      ({ S with
          link := Function.update S.link k
            { ld with
              unsent := Function.update ld.unsent creator false
              timeout := Function.update ld.timeout creator env.now } },
        some (S.stored creator))
    else
      ({ S with
          link := Function.update S.link k
            (ld.insert (env.now + sc.status_change_timeout) creator) }, none)

/-- `Reliable_Flood_Neighbor_Transfer`, the loop over the status changes. -/
def transfer_status (cf : Conf) (sc : StatusConf) (k : ℕ) (S : StatusState) (creator : ℕ) : StatusState :=
  if (S.link k).unsent creator = false ∧ creator ≠ cf.neighbor_ids k ∧
      0 < (S.stored creator).epoch then
    { S with
      link := Function.update S.link k
        ((S.link k).insert ((S.link k).timeout creator + sc.status_change_timeout) creator) }
  else S

inductive StatusEvent
  | receive (last_hop_index : ℕ) (m : StatusChange)
  | generate (src_epoch ngbr_id status : ℕ)
  | gen (now : ℕ)
  | ready (k : ℕ)
  | send (k : ℕ) (env : SendEnv)
  | transfer (k : ℕ)

/-- What an event does. `Reliable_Flood_Send_One` sends status changes only when the
flag is set. -/
def StatusState.handle (cf : Conf) (sc : StatusConf) (S : StatusState) : StatusEvent → StatusState
  | .receive last_hop_index m => process_status_change cf sc last_hop_index m S
  | .generate src_epoch ngbr_id status =>
    generate_link_status_change cf sc src_epoch ngbr_id status S
  | .gen now => gen_status_change cf now S
  | .ready k => status_change_event k S
  | .send k env => if (S.link k).ready then (send_status_change cf sc k env S).1 else S
  | .transfer k => (range' 1 MAX_NODES).foldl (transfer_status cf sc k) S

/-! ## 4. What the handlers do to messages and costs -/

section Handlers

variable (cf : Conf) (sc : StatusConf)

/-- The message passes the checks of `Process_Status_Change` against the stored one. -/
def status_accepted (new old : StatusChange) : Prop :=
  (1 ≤ new.creator ∧ new.creator ≤ MAX_NODES) ∧ old.epoch ≤ new.epoch ∧ status_valid sc new ∧
    (old.epoch < new.epoch ∨ ¬ old_content new old ∧ new_content new old)

instance (new old : StatusChange) : Decidable (status_accepted sc new old) :=
  inferInstanceAs (Decidable (_ ∧ _))

theorem process_status_change_cases (hop : ℕ) (new : StatusChange) (S : StatusState) :
    (¬ status_accepted sc new (S.stored new.creator) ∧
      process_status_change cf sc hop new S = S) ∨
    (status_accepted sc new (S.stored new.creator) ∧
      (process_status_change cf sc hop new S).stored =
        update S.stored new.creator new ∧
      (process_status_change cf sc hop new S).cost =
        (range' 1 MAX_NODES).foldl (apply_cell sc new (S.stored new.creator)) S.cost) := by
  unfold process_status_change status_accepted
  by_cases h1 : new.creator < 1 ∨ MAX_NODES < new.creator
  · rw [if_pos h1]
    exact .inl ⟨fun h => by omega, rfl⟩
  rw [if_neg h1]
  by_cases h2 : new.epoch < (S.stored new.creator).epoch
  · rw [if_pos h2]
    exact .inl ⟨fun h => by omega, rfl⟩
  rw [if_neg h2]
  by_cases h3 : status_valid sc new
  · rw [if_neg (not_not.mpr h3)]
    by_cases h4 : ¬ (S.stored new.creator).epoch < new.epoch ∧
        old_content new (S.stored new.creator) ∧ new_content new (S.stored new.creator)
    · rw [if_pos h4]
      exact .inl ⟨fun h => by tauto, rfl⟩
    rw [if_neg h4]
    by_cases h5 : (S.stored new.creator).epoch < new.epoch ∨
        new_content new (S.stored new.creator)
    · rw [if_neg (not_not.mpr h5)]
      exact .inr ⟨⟨by omega, by omega, h3, by tauto⟩, rfl, rfl⟩
    · rw [if_pos h5]
      exact .inl ⟨fun h => by tauto, rfl⟩
  · rw [if_pos h3]
    exact .inl ⟨fun h => h3 h.2.2.1, rfl⟩

theorem foldl_apply_cell (new old : StatusChange) (l : List ℕ) (t : ℕ → ℕ → ℤ) (a i : ℕ) :
    l.foldl (apply_cell sc new old) t a i =
      if (a = new.creator ∧ i ∈ l) ∧ i ∈ sc.neighbor_ids new.creator ∧
          (old.epoch < new.epoch ∨ (old.cell i).seq < (new.cell i).seq) ∧
          sc.cost_ok new.creator i (new.cell i).cost then (new.cell i).cost
      else t a i := by
  induction l generalizing t with
  | nil => simp
  | cons j l ih =>
    rw [foldl_cons, ih]
    -- the round for `j` writes to the link from the creator to `j` only
    have hround : apply_cell sc new old t j a i =
        if (a = new.creator ∧ i = j) ∧ i ∈ sc.neighbor_ids new.creator ∧
          (old.epoch < new.epoch ∨ (old.cell i).seq < (new.cell i).seq) ∧
          sc.cost_ok new.creator i (new.cell i).cost then (new.cell i).cost
        else t a i := by
      unfold apply_cell apply_link_status_change
      by_cases hai : a = new.creator ∧ i = j
      · rw [← hai.2]
        by_cases hc : sc.cost_ok new.creator i (new.cell i).cost
        · rw [if_pos hc]
          split <;> simp_all
        · simp [hc]
      · have hno : ∀ p : Prop, ¬ ((a = new.creator ∧ i = j) ∧ p) := fun _ h => hai h.1
        rw [if_neg (hno _)]
        split
        · split
          · exact set2_of_ne _ _ hai
          · rfl
        · rfl
    rw [hround]
    simp only [mem_cons]
    split_ifs <;> tauto

theorem status_links_stored (S : StatusState) (k : ℕ) (l : List ℕ) :
    (l.foldl (transfer_status cf sc k) S).stored = S.stored ∧
      (l.foldl (transfer_status cf sc k) S).cost = S.cost := by
  induction l generalizing S with
  | nil => exact ⟨rfl, rfl⟩
  | cons i l ih =>
    have hround : (transfer_status cf sc k S i).stored = S.stored ∧
        (transfer_status cf sc k S i).cost = S.cost := by
      unfold transfer_status
      split <;> exact ⟨rfl, rfl⟩
    rw [foldl_cons, (ih _).1, (ih _).2]
    exact hround

theorem handle_stored (S : StatusState) {e : StatusEvent}
    (hgen : ∀ src_epoch nid status, e ≠ .generate src_epoch nid status)
    (hrec : ∀ k m, e ≠ .receive k m) :
    (S.handle cf sc e).stored = S.stored ∧ (S.handle cf sc e).cost = S.cost := by
  cases e with
  | receive k m => exact absurd rfl (hrec k m)
  | generate src_epoch nid status => exact absurd rfl (hgen src_epoch nid status)
  | gen now =>
    simp only [StatusState.handle, gen_status_change]
    split <;> exact ⟨rfl, rfl⟩
  | ready k => exact ⟨rfl, rfl⟩
  | send k env =>
    simp only [StatusState.handle, send_status_change]
    split
    · split
      · exact ⟨rfl, rfl⟩
      · split <;> exact ⟨rfl, rfl⟩
    · exact ⟨rfl, rfl⟩
  | transfer k =>
    rw [StatusState.handle]
    exact status_links_stored cf sc S k _

theorem handle_other_creator (S : StatusState) {c : ℕ} (hc : c ≠ cf.my_id) {e : StatusEvent}
    (hrec : ∀ k m, e = .receive k m → m.creator ≠ c) :
    (S.handle cf sc e).stored c = S.stored c ∧ ∀ i, (S.handle cf sc e).cost c i = S.cost c i := by
  by_cases hr : ∃ k m, e = .receive k m
  · obtain ⟨k, m, rfl⟩ := hr
    have hm := hrec k m rfl
    rw [StatusState.handle]
    rcases process_status_change_cases cf sc k m S with ⟨-, h⟩ | ⟨-, hst, hcost⟩
    · rw [h]
      exact ⟨rfl, fun _ => rfl⟩
    · rw [hst, hcost, update_of_ne (Ne.symm hm)]
      refine ⟨rfl, fun i => ?_⟩
      rw [foldl_apply_cell, if_neg (fun h => hm h.1.1.symm)]
  by_cases hg : ∃ src_epoch nid status, e = .generate src_epoch nid status
  · obtain ⟨src_epoch, nid, status, rfl⟩ := hg
    rw [StatusState.handle]
    unfold generate_link_status_change
    split
    · exact ⟨rfl, fun _ => rfl⟩
    · refine ⟨update_of_ne hc _ _, fun i => ?_⟩
      dsimp only [apply_link_status_change]
      split
      · exact set2_of_ne _ _ (fun h => hc h.1)
      · rfl
  · have h := handle_stored cf sc S (fun a b d h => hg ⟨a, b, d, h⟩) (fun k m h => hr ⟨k, m, h⟩)
    rw [h.1, h.2]
    exact ⟨rfl, fun _ => rfl⟩

end Handlers

/-! ## 5. The messages of one creator -/

structure Site (sc : StatusConf) where
  cf : Conf
  my_id_range : 1 ≤ cf.my_id ∧ cf.my_id ≤ MAX_NODES
  neighbors : ∀ i, i ∈ sc.neighbor_ids cf.my_id ↔
    ∃ k ∈ range' 1 cf.degree, cf.neighbor_ids k = i

/-- The daemon at work on its own messages, with the list of the messages it has
created. A message of its own that comes back is one it created; a restart
forgets everything. -/
inductive Creates {sc : StatusConf} (site : Site sc) :
    StatusState × List StatusChange → StatusState × List StatusChange → Prop
  | generate {S : StatusState} {h : List StatusChange} (src_epoch : ℕ) {ngbr_id status : ℕ}
      (hn : ngbr_id ∈ sc.neighbor_ids site.cf.my_id) (hs : status ≤ 2) :
      Creates site (S, h)
        (generate_link_status_change site.cf sc src_epoch ngbr_id status S,
          h ++ [(generate_link_status_change site.cf sc src_epoch ngbr_id status S).stored
            site.cf.my_id])
  | other {S : StatusState} {h : List StatusChange} (e : StatusEvent)
      (hgen : ∀ src_epoch ngbr_id status, e ≠ .generate src_epoch ngbr_id status)
      (hown : ∀ k m, e = .receive k m → m.creator = site.cf.my_id → m ∈ h) :
      Creates site (S, h) (S.handle site.cf sc e, h)
  | restart {S : StatusState} {h : List StatusChange} :
      Creates site (S, h) (StatusState.init site.cf, h)

/-- `h` lists what the daemon has created since it was first started, in order. -/
def Created {sc : StatusConf} (site : Site sc) (h : List StatusChange) : Prop :=
  ∃ S, Relation.ReflTransGen (Creates site) (StatusState.init site.cf, []) (S, h)

def StatusChange.upto (m m' : StatusChange) : Prop :=
  m.epoch < m'.epoch ∨ m.epoch = m'.epoch ∧ ∀ i, (m.cell i).seq ≤ (m'.cell i).seq

def StatusChange.agree (m m' : StatusChange) : Prop :=
  m.epoch = m'.epoch → ∀ i, (m.cell i).seq = (m'.cell i).seq → (m.cell i).cost = (m'.cell i).cost

structure StatusChange.Form (sc : StatusConf) (c : ℕ) (m : StatusChange) : Prop where
  creator : m.creator = c
  other : ∀ i, i ∉ sc.neighbor_ids c → m.cell i = ⟨0, 0⟩
  cost_ok : ∀ i ∈ sc.neighbor_ids c, sc.cost_ok c i (m.cell i).cost
  /-- What was never set is down. -/
  unset : m.epoch = 0 → ∀ i ∈ sc.neighbor_ids c, (m.cell i).seq = 0 → (m.cell i).cost = -1

section Creator

variable {sc : StatusConf} (site : Site sc)

theorem link_cost_ok (sc : StatusConf) (a b : ℕ) {status : ℕ} {cost : ℤ}
    (h : sc.link_cost a b status = some cost) : sc.cost_ok a b cost := by
  have hrange : -2 ^ 15 ≤ sc.ref_cost a b ∧ sc.ref_cost a b < 2 ^ 15 := by
    unfold StatusConf.ref_cost
    split
    · exact sc.sorted_edges_range b a
    · exact sc.sorted_edges_range a b
  have hpen := sc.loss_penalty_range
  unfold StatusConf.cost_ok
  unfold StatusConf.link_cost at h
  split at h
  · simp_all
  · simp_all
  · have hcost := Option.some.inj h
    rintro ⟨-, hlt⟩
    rw [← hcost] at hlt
    unfold SHRT_MAX at hlt
    split at hlt <;> omega
  · simp at h

theorem form_init : ((StatusState.init site.cf).stored site.cf.my_id).Form sc site.cf.my_id where
  creator := rfl
  other := by
    intro i hi
    have hno : ¬ (site.cf.my_id = site.cf.my_id ∧
        ∃ k ∈ range' 1 site.cf.degree, site.cf.neighbor_ids k = i) :=
      fun h => hi ((site.neighbors i).mpr h.2)
    dsimp only [StatusState.init]
    rw [if_neg hno]
  cost_ok := by
    intro i hi
    have hcost : (((StatusState.init site.cf).stored site.cf.my_id).cell i).cost = -1 :=
      if_pos ⟨rfl, (site.neighbors i).mp hi⟩
    rw [hcost]
    exact fun h => h.1 rfl
  unset := by
    intro _ i hi _
    exact if_pos ⟨rfl, (site.neighbors i).mp hi⟩

structure CreatorInv (S : StatusState) (h : List StatusChange) : Prop where
  form : (S.stored site.cf.my_id).Form sc site.cf.my_id
  forms : ∀ m ∈ h, m.Form sc site.cf.my_id
  live : ∀ m ∈ h, m.epoch = 0 → ∃ i ∈ sc.neighbor_ids site.cf.my_id, 0 < (m.cell i).seq
  stored : (∀ i, ((S.stored site.cf.my_id).cell i).seq = 0) ∨ S.stored site.cf.my_id ∈ h

theorem seq_succ_pos {n : ℕ} (h : n ≤ int64u (n + 1)) : 0 < int64u (n + 1) := by
  unfold int64u at h ⊢
  omega

def StatusChange.bump (m : StatusChange) (src_epoch ngbr_id : ℕ) (cost : ℤ) : StatusChange :=
  { m with
    epoch := if m.epoch = 0 then src_epoch else m.epoch
    cell := Function.update m.cell ngbr_id
      { seq := int64u ((m.cell ngbr_id).seq + 1), cost := cost } }

theorem bump_self (m : StatusChange) (src_epoch nid : ℕ) (cost : ℤ) :
    (m.bump src_epoch nid cost).cell nid = ⟨int64u ((m.cell nid).seq + 1), cost⟩ :=
  update_self _ _ _

theorem bump_other (m : StatusChange) (src_epoch : ℕ) {nid i : ℕ} (cost : ℤ)
    (hi : i ≠ nid) : (m.bump src_epoch nid cost).cell i = m.cell i :=
  update_of_ne hi _ _

theorem generate_bump (src_epoch nid : ℕ) {status : ℕ} (S : StatusState) {cost : ℤ}
    (hcost : sc.link_cost site.cf.my_id nid status = some cost) :
    (generate_link_status_change site.cf sc src_epoch nid status S).stored site.cf.my_id =
      (S.stored site.cf.my_id).bump src_epoch nid cost := by
  unfold generate_link_status_change
  rw [hcost]
  dsimp only
  rw [update_self]
  rfl

theorem generate_stored (src_epoch nid : ℕ) {status : ℕ} (hs : status ≤ 2) (S : StatusState) :
    ∃ cost, sc.cost_ok site.cf.my_id nid cost ∧
      (generate_link_status_change site.cf sc src_epoch nid status S).stored site.cf.my_id =
        (S.stored site.cf.my_id).bump src_epoch nid cost := by
  obtain ⟨cost, hcost⟩ : ∃ cost, sc.link_cost site.cf.my_id nid status = some cost := by
    unfold StatusConf.link_cost
    rcases status with _ | _ | _ | _
    · exact ⟨_, rfl⟩
    · exact ⟨_, rfl⟩
    · exact ⟨_, rfl⟩
    · omega
  exact ⟨cost, link_cost_ok sc site.cf.my_id nid hcost,
    generate_bump site src_epoch nid S hcost⟩

theorem bump_form {m : StatusChange} {src_epoch nid : ℕ} {cost : ℤ}
    (hn : nid ∈ sc.neighbor_ids site.cf.my_id) (hok : sc.cost_ok site.cf.my_id nid cost)
    (hf : m.Form sc site.cf.my_id) (hseq : (m.bump src_epoch nid cost).epoch = 0 →
      (m.cell nid).seq ≤ int64u ((m.cell nid).seq + 1)) :
    (m.bump src_epoch nid cost).Form sc site.cf.my_id := by
  refine ⟨hf.creator, fun i hi => ?_, fun i hi => ?_, fun he i hi h0 => ?_⟩
  · have hne : i ≠ nid := by
      rintro rfl
      exact hi hn
    rw [bump_other m src_epoch cost hne]
    exact hf.other i hi
  · by_cases hin : i = nid
    · rw [hin, bump_self]
      exact hok
    · rw [bump_other m src_epoch cost hin]
      exact hf.cost_ok i hi
  · by_cases hin : i = nid
    · have hpos := seq_succ_pos (hseq he)
      rw [hin, bump_self] at h0
      dsimp only at h0
      omega
    · rw [bump_other m src_epoch cost hin] at h0 ⊢
      have he0 : m.epoch = 0 := by
        by_contra hne
        exact hne ((if_neg hne).symm.trans he)
      exact hf.unset he0 i hi h0

theorem creates_inv {x y : StatusState × List StatusChange} (hstep : Creates site x y)
    (hord : y.2.Pairwise StatusChange.upto)
    (hinv : x.2.Pairwise StatusChange.upto → CreatorInv site x.1 x.2) :
    CreatorInv site y.1 y.2 := by
  cases hstep with
  | @generate S h src_epoch nid status hn hs =>
    dsimp only at hord hinv ⊢
    have hpair := pairwise_append.mp hord
    have hx := hinv hpair.1
    obtain ⟨cost, hok, hgen⟩ := generate_stored site src_epoch nid hs S
    rw [hgen] at hpair ⊢
    -- the number it counts up from is zero or in a message it created before
    have hseq : ((S.stored site.cf.my_id).bump src_epoch nid cost).epoch = 0 →
        ((S.stored site.cf.my_id).cell nid).seq ≤
          int64u (((S.stored site.cf.my_id).cell nid).seq + 1) := by
      intro he
      rcases hx.stored with h0 | hmem
      · rw [h0 nid]
        exact Nat.zero_le _
      · rcases hpair.2.2 _ hmem _ (mem_singleton_self _) with hlt | ⟨-, hle⟩
        · omega
        · have hthis := hle nid
          rwa [bump_self] at hthis
    have hform := bump_form site hn hok hx.form hseq
    refine ⟨by rw [hgen]; exact hform, fun m hm => ?_, fun m hm he => ?_, .inr (by simp [hgen])⟩
    · rcases mem_append.mp hm with hm | hm
      · exact hx.forms m hm
      · rw [mem_singleton.mp hm]
        exact hform
    · rcases mem_append.mp hm with hm | hm
      · exact hx.live m hm he
      · rw [mem_singleton.mp hm] at he ⊢
        refine ⟨nid, hn, ?_⟩
        rw [bump_self]
        exact seq_succ_pos (hseq he)
  | @other S h e hgen hown =>
    have hx := hinv hord
    dsimp only at hx ⊢
    have hstored : (S.handle site.cf sc e).stored site.cf.my_id = S.stored site.cf.my_id ∨
        (S.handle site.cf sc e).stored site.cf.my_id ∈ h := by
      by_cases hr : ∃ k m, e = .receive k m
      · obtain ⟨k, m, rfl⟩ := hr
        rw [StatusState.handle]
        rcases process_status_change_cases site.cf sc k m S with ⟨-, hp⟩ | ⟨-, hst, -⟩
        · exact .inl (by rw [hp])
        · rw [hst]
          by_cases hm : m.creator = site.cf.my_id
          · rw [← hm, update_self]
            exact .inr (hown k m rfl hm)
          · exact .inl (update_of_ne (Ne.symm hm) _ _)
      · rw [(handle_stored site.cf sc S hgen (fun k m h => hr ⟨k, m, h⟩)).1]
        exact .inl rfl
    rcases hstored with hs | hs
    · exact ⟨hs ▸ hx.form, hx.forms, hx.live, hs ▸ hx.stored⟩
    · exact ⟨hx.forms _ hs, hx.forms, hx.live, .inr hs⟩
  | restart =>
    have hx := hinv hord
    exact ⟨form_init site, hx.forms, hx.live, .inl (fun _ => rfl)⟩

theorem created_forms {h : List StatusChange} (hc : Created site h)
    (hord : h.Pairwise StatusChange.upto) :
    ∀ m ∈ h, m.Form sc site.cf.my_id ∧
      (m.epoch = 0 → ∃ i ∈ sc.neighbor_ids site.cf.my_id, 0 < (m.cell i).seq) := by
  obtain ⟨S, hrun⟩ := hc
  have hinv : ∀ x, Relation.ReflTransGen (Creates site) (StatusState.init site.cf, []) x →
      x.2.Pairwise StatusChange.upto → CreatorInv site x.1 x.2 := by
    intro x hx
    induction hx with
    | refl => exact fun _ => ⟨form_init site, by simp, by simp, .inl (fun _ => rfl)⟩
    | tail _ hlast ih => exact fun hp => creates_inv site hlast hp ih
  have hend := hinv _ hrun hord
  exact fun m hm => ⟨hend.forms m hm, hend.live m hm⟩

end Creator

/-! ## 6. At another daemon -/

/-- The messages of the creator `c` among the events, in the order they come. -/
def delivered (c : ℕ) (es : List StatusEvent) : List StatusChange :=
  es.filterMap (fun e => match e with
    | .receive _ m => if m.creator = c then some m else none
    | _ => none)

def StatusChange.le (m m' : StatusChange) : Prop := m.upto m' ∧ m.agree m'

/-- The daemon holds `m`: as the message of its creator and in the costs. -/
def StatusState.Held (sc : StatusConf) (S : StatusState) (c : ℕ) (m : StatusChange) : Prop :=
  S.stored c = m ∧ ∀ i ∈ sc.neighbor_ids c, S.cost c i = (m.cell i).cost

section Receiver

variable {sc : StatusConf} {c : ℕ} {m m' m'' : StatusChange}

theorem StatusChange.le_refl (m : StatusChange) : m.le m :=
  ⟨.inr ⟨rfl, fun _ => Nat.le_refl _⟩, fun _ _ _ => rfl⟩

theorem StatusChange.le_trans (h : m.le m') (h' : m'.le m'') : m.le m'' := by
  obtain ⟨hu, ha⟩ := h
  obtain ⟨hu', ha'⟩ := h'
  rcases hu with hu | ⟨he, hs⟩
  · refine ⟨.inl ?_, fun he => ?_⟩
    · rcases hu' with hu' | hu' <;> omega
    · rcases hu' with hu' | hu' <;> omega
  · rcases hu' with hu' | ⟨he', hs'⟩
    · exact ⟨.inl (by omega), fun he => by omega⟩
    · refine ⟨.inr ⟨he.trans he', fun i => (hs i).trans (hs' i)⟩, fun _ i hi => ?_⟩
      have h1 := hs i
      have h2 := hs' i
      rw [ha he i (by omega), ha' he' i (by omega)]

theorem StatusChange.le_antisymm (h : m.le m') (h' : m'.le m) (hc : m.creator = m'.creator) :
    m = m' := by
  have he : m.epoch = m'.epoch := by
    rcases h.1 with h | h <;> rcases h'.1 with h' | h' <;> omega
  have hs : ∀ i, (m.cell i).seq = (m'.cell i).seq := by
    rcases h.1 with h | ⟨-, hle⟩
    · omega
    · rcases h'.1 with h' | ⟨-, hle'⟩
      · omega
      · exact fun i => Nat.le_antisymm (hle i) (hle' i)
  have hcell : m.cell = m'.cell := by
    funext i
    have hcost := h.2 he i (hs i)
    have hseq := hs i
    revert hcost hseq
    rcases m.cell i with ⟨s, x⟩
    rcases m'.cell i with ⟨s', x'⟩
    rintro rfl rfl
    rfl
  obtain ⟨e, c, f⟩ := m
  obtain ⟨e', c', f'⟩ := m'
  dsimp only at he hc hcell
  rw [he, hc, hcell]

theorem StatusChange.Form.valid (hf : m.Form sc c) : status_valid sc m := by
  intro i _
  refine ⟨?_, fun hi => ?_⟩
  · rintro ⟨hi, h⟩
    rw [hf.creator] at hi
    rw [hf.other i hi] at h
    simp at h
  · rw [hf.creator] at hi ⊢
    exact hf.cost_ok i hi

theorem not_accepted_of_le (sc : StatusConf) (h : m'.le m) : ¬ status_accepted sc m' m := by
  rintro ⟨-, hep, -, hnew⟩
  rcases h.1 with hlt | ⟨he, hle⟩
  · omega
  · rcases hnew with hnew | ⟨-, i, -, hi⟩
    · omega
    · have := hle i
      omega

theorem accepted_of_ge (hc : 1 ≤ c ∧ c ≤ MAX_NODES) (hf' : m'.Form sc c)
    (h : m.le m') : status_accepted sc m' m ∨ m'.le m := by
  rcases h.1 with hlt | ⟨he, hle⟩
  · exact .inl ⟨hf'.creator ▸ hc, hlt.le, hf'.valid, .inl hlt⟩
  · by_cases hnew : new_content m' m
    · refine .inl ⟨hf'.creator ▸ hc, he.le, hf'.valid, .inr ⟨?_, hnew⟩⟩
      rintro ⟨i, -, hi⟩
      have := hle i
      omega
    · -- no cell is newer, neither among the loop's nor outside it
      have hseq : ∀ i, (m'.cell i).seq ≤ (m.cell i).seq := by
        intro i
        by_cases hi : i ∈ sc.neighbor_ids c
        · by_contra hlt
          have hrange := sc.neighbor_ids_range c i hi
          exact hnew ⟨i, by rw [mem_range'_1]; omega, by omega⟩
        · rw [hf'.other i hi]
          exact Nat.zero_le _
      refine .inr ⟨.inr ⟨he.symm, hseq⟩, fun _ i hi => ?_⟩
      exact (h.2 he i hi.symm).symm

theorem held_of_accepted (cf : Conf) (k : ℕ) (S : StatusState) (hf' : m'.Form sc c)
    (hacc : status_accepted sc m' (S.stored c))
    (hrest : ∀ i ∈ sc.neighbor_ids c, (S.stored c).epoch = m'.epoch →
      (m'.cell i).seq ≤ ((S.stored c).cell i).seq → S.cost c i = (m'.cell i).cost) :
    (process_status_change cf sc k m' S).Held sc c m' := by
  have hcr := hf'.creator
  subst hcr
  rcases process_status_change_cases cf sc k m' S with ⟨hno, -⟩ | ⟨-, hst, hcost⟩
  · exact absurd hacc hno
  · refine ⟨by rw [hst, update_self], fun i hi => ?_⟩
    have hrange := sc.neighbor_ids_range _ i hi
    rw [hcost, foldl_apply_cell]
    by_cases hnew : (S.stored m'.creator).epoch < m'.epoch ∨
        ((S.stored m'.creator).cell i).seq < (m'.cell i).seq
    · have hmem : i ∈ range' 1 MAX_NODES := by
        rw [mem_range'_1]
        omega
      rw [if_pos ⟨⟨rfl, hmem⟩, hi, hnew, hf'.cost_ok i hi⟩]
    · rw [if_neg (fun h => hnew h.2.2.1)]
      have hep := hacc.2.1
      exact hrest i hi (by omega) (by omega)

end Receiver

section Convergence

variable {sc : StatusConf} (c n : Site sc) {h : List StatusChange}

theorem created_total (hord : h.Pairwise StatusChange.upto) (hagree : h.Pairwise StatusChange.agree)
    {m m' : StatusChange} (hm : m ∈ h) (hm' : m' ∈ h) : m.le m' ∨ m'.le m := by
  have hpair := hord.and hagree
  refine List.Pairwise.forall_of_forall_of_flip (R := fun a b => a.le b ∨ b.le a)
    (fun x _ => .inl x.le_refl) (hpair.imp fun hab => .inl hab)
    (hpair.imp fun hab => .inr hab) hm hm'

def Converged (S : StatusState) (l : List StatusChange) : Prop :=
  (l = [] ∧ (∀ i, (S.stored c.cf.my_id).cell i = ⟨0, 0⟩) ∧ (S.stored c.cf.my_id).epoch = 0 ∧
    ∀ i, S.cost c.cf.my_id i = -1) ∨
  ∃ m ∈ l, (∀ m' ∈ l, m'.le m) ∧ S.Held sc c.cf.my_id m

theorem receive_converged (hcr : Created c h) (hord : h.Pairwise StatusChange.upto)
    (hagree : h.Pairwise StatusChange.agree) {S : StatusState} {l : List StatusChange}
    (hl : ∀ m ∈ l, m ∈ h) (hS : Converged c S l) (k : ℕ) {m' : StatusChange} (hm' : m' ∈ h) :
    Converged c (process_status_change n.cf sc k m' S) (l ++ [m']) := by
  have hforms := created_forms c hcr hord
  obtain ⟨hf', hlive⟩ := hforms m' hm'
  have hsame : ¬ status_accepted sc m' (S.stored c.cf.my_id) →
      process_status_change n.cf sc k m' S = S := by
    intro hno
    rcases process_status_change_cases n.cf sc k m' S with ⟨-, hp⟩ | ⟨hacc, -, -⟩
    · exact hp
    · rw [hf'.creator] at hacc
      exact absurd hacc hno
  rcases hS with ⟨rfl, hcell, hepoch, hcost⟩ | ⟨m, hm, htop, hheld⟩
  · -- the first message: it has an epoch or says something about some link
    have hacc : status_accepted sc m' (S.stored c.cf.my_id) := by
      refine ⟨hf'.creator ▸ c.my_id_range, by omega, hf'.valid, ?_⟩
      by_cases he : m'.epoch = 0
      · obtain ⟨i, hi, hpos⟩ := hlive he
        have hrange := sc.neighbor_ids_range _ i hi
        refine .inr ⟨?_, i, by rw [mem_range'_1]; omega, by rw [hcell i]; exact hpos⟩
        rintro ⟨j, -, hj⟩
        rw [hcell j] at hj
        exact absurd hj (Nat.not_lt_zero _)
      · exact .inl (by omega)
    refine .inr ⟨m', by simp, by simp [StatusChange.le_refl], ?_⟩
    refine held_of_accepted n.cf k S hf' hacc (fun i hi he hle => ?_)
    rw [hcell i, Nat.le_zero] at hle
    rw [hcost i, hf'.unset (by omega) i hi hle]
  · have hmh := hl m hm
    rcases created_total hord hagree hmh hm' with hle | hle
    · rcases accepted_of_ge c.my_id_range hf' hle with hacc | hge
      · -- a newer message takes over
        refine .inr ⟨m', by simp, fun x hx => ?_, ?_⟩
        · rcases mem_append.mp hx with hx | hx
          · exact StatusChange.le_trans (htop x hx) hle
          · rw [mem_singleton.mp hx]
            exact m'.le_refl
        · rw [← hheld.1] at hacc
          refine held_of_accepted n.cf k S hf' hacc (fun i hi he hseq => ?_)
          rw [hheld.2 i hi]
          rw [hheld.1] at he hseq
          rcases hle.1 with hlt | ⟨-, hup⟩
          · omega
          · exact hle.2 he i (le_antisymm (hup i) hseq)
      · have hno := not_accepted_of_le sc hge
        rw [← hheld.1] at hno
        rw [hsame hno]
        refine .inr ⟨m, by simp [hm], fun x hx => ?_, hheld⟩
        rcases mem_append.mp hx with hx | hx
        · exact htop x hx
        · rw [mem_singleton.mp hx]
          exact hge
    · -- an older one is discarded
      have hno := not_accepted_of_le sc hle
      rw [← hheld.1] at hno
      rw [hsame hno]
      refine .inr ⟨m, by simp [hm], fun x hx => ?_, hheld⟩
      rcases mem_append.mp hx with hx | hx
      · exact htop x hx
      · rw [mem_singleton.mp hx]
        exact hle

theorem run_converged (hne : c.cf.my_id ≠ n.cf.my_id) (hcr : Created c h)
    (hord : h.Pairwise StatusChange.upto) (hagree : h.Pairwise StatusChange.agree)
    (es : List StatusEvent) (hdel : ∀ m ∈ delivered c.cf.my_id es, m ∈ h) :
    Converged c (es.foldl (StatusState.handle n.cf sc) (StatusState.init n.cf))
      (delivered c.cf.my_id es) := by
  induction es using List.reverseRecOn with
  | nil =>
    refine .inl ⟨rfl, fun i => ?_, rfl, fun _ => rfl⟩
    dsimp only [foldl_nil, StatusState.init]
    rw [if_neg (fun h => hne h.1)]
  | append_singleton es e ih =>
    have hsplit : delivered c.cf.my_id (es ++ [e]) =
        delivered c.cf.my_id es ++ delivered c.cf.my_id [e] := by
      rw [delivered, filterMap_append]
      rfl
    rw [hsplit] at hdel ⊢
    have hS := ih (fun m hm => hdel m (mem_append_left _ hm))
    rw [foldl_append, foldl_cons, foldl_nil]
    by_cases hr : ∃ k m, e = .receive k m ∧ m.creator = c.cf.my_id
    · obtain ⟨k, m, rfl, hm⟩ := hr
      have hone : delivered c.cf.my_id [.receive k m] = [m] := by
        simp [delivered, hm]
      rw [hone] at hdel ⊢
      rw [StatusState.handle]
      exact receive_converged c n hcr hord hagree
        (fun x hx => hdel x (mem_append_left _ hx)) hS k (hdel m (by simp))
    · -- anything else leaves what is held about the creator alone
      have hnone : delivered c.cf.my_id [e] = [] := by
        cases e with
        | receive k m =>
          have hm : m.creator ≠ c.cf.my_id := fun h => hr ⟨k, m, rfl, h⟩
          simp [delivered, hm]
        | _ => rfl
      rw [hnone, append_nil]
      obtain ⟨hst, hcost⟩ := handle_other_creator n.cf sc
        (es.foldl (StatusState.handle n.cf sc) (StatusState.init n.cf)) hne
        (fun k m he hm => hr ⟨k, m, he, hm⟩)
      rcases hS with ⟨h1, h2, h3, h4⟩ | ⟨m, hm, htop, hheld⟩
      · exact .inl ⟨h1, by rw [hst]; exact h2, by rw [hst]; exact h3,
          fun i => (hcost i).trans (h4 i)⟩
      · exact .inr ⟨m, hm, htop, by rw [hst]; exact hheld.1,
          fun i hi => (hcost i).trans (hheld.2 i hi)⟩

/-- **Status changes converge.** `c` created the messages `l₁ ++ m :: l₂`, in this
order, and `m` is the latest of those that were handed to `n`, in any order, again
and again and between any other events. Then `n` holds `m`, and no message that
`c` created before `m` changes anything at `n`. -/
theorem stored_latest (hne : c.cf.my_id ≠ n.cf.my_id) (l₁ l₂ : List StatusChange)
    (m : StatusChange) (hcr : Created c (l₁ ++ m :: l₂))
    (hord : (l₁ ++ m :: l₂).Pairwise StatusChange.upto)
    (hagree : (l₁ ++ m :: l₂).Pairwise StatusChange.agree) (es : List StatusEvent)
    (hdel : ∀ m' ∈ delivered c.cf.my_id es, m' ∈ l₁ ++ m :: l₂)
    (hm : m ∈ delivered c.cf.my_id es) (hlast : ∀ m' ∈ l₂, m' ∉ delivered c.cf.my_id es) :
    (es.foldl (StatusState.handle n.cf sc) (StatusState.init n.cf)).Held sc c.cf.my_id m ∧
      ∀ m' ∈ l₁, ∀ k, process_status_change n.cf sc k m'
            (es.foldl (StatusState.handle n.cf sc) (StatusState.init n.cf)) =
          es.foldl (StatusState.handle n.cf sc) (StatusState.init n.cf) := by
  have hbefore : ∀ m' ∈ l₁, m'.le m := fun m' hm' =>
    ⟨(pairwise_append.mp hord).2.2 m' hm' m (by simp),
      (pairwise_append.mp hagree).2.2 m' hm' m (by simp)⟩
  have hforms := created_forms c hcr hord
  have hheld : (es.foldl (StatusState.handle n.cf sc) (StatusState.init n.cf)).Held sc
      c.cf.my_id m := by
    rcases run_converged c n hne hcr hord hagree es hdel with ⟨hnil, -⟩ | ⟨x, hx, htop, hheld⟩
    · rw [hnil] at hm
      exact absurd hm (not_mem_nil)
    · -- the message held is not after `m`, and `m` is not after it
      have hxh := hdel x hx
      have hle : x.le m := by
        rcases mem_append.mp hxh with hxl | hxl
        · exact hbefore x hxl
        · rcases mem_cons.mp hxl with rfl | hxl
          · exact x.le_refl
          · exact absurd hx (hlast x hxl)
      have heq : x = m := StatusChange.le_antisymm hle (htop m hm)
        ((hforms x hxh).1.creator.trans (hforms m (by simp)).1.creator.symm)
      rwa [heq] at hheld
  refine ⟨hheld, fun m' hm' k => ?_⟩
  have hno := not_accepted_of_le sc (hbefore m' hm')
  rcases process_status_change_cases n.cf sc k m'
    (es.foldl (StatusState.handle n.cf sc) (StatusState.init n.cf)) with ⟨-, hp⟩ | ⟨hacc, -, -⟩
  · exact hp
  · rw [(hforms m' (by simp [hm'])).1.creator, hheld.1] at hacc
    exact absurd hacc hno

end Convergence

/-! ## 7. A triangle

Daemons `1`, `2` and `3`, all connected. Daemon `1` says that its link to `2` is up
and then that it is down. -/

section Triangle

/-- Three daemons, all links of cost `10`. -/
def triangle : StatusConf where
  directed_edges := false
  neighbor_ids := fun c =>
    if c = 1 then [2, 3] else if c = 2 then [1, 3] else if c = 3 then [1, 2] else []
  sorted_edges := fun _ _ => 10
  loss_penalty := 10000
  status_change_timeout := 1
  neighbor_ids_range := by
    intro c i hi
    unfold MAX_NODES
    split_ifs at hi <;> simp at hi <;> omega
  sorted_edges_range := fun _ _ => by decide
  loss_penalty_range := by decide

/-- The configuration of the daemon `me` with the neighbours `a` and `b`. -/
def triangle_conf (me a b : ℕ) : Conf where
  my_id := me
  degree := 2
  neighbor_ids := fun k => if k = 1 then a else b
  mp_neighbor_mask := fun k => k
  hbh_advance := false
  hbh_opt := true
  e2e_opt := true
  crypto := true
  e2e_ack_timeout := 1

theorem triangle_conf_neighbors (me a b i : ℕ) :
    i ∈ [a, b] ↔ ∃ k ∈ range' 1 (triangle_conf me a b).degree,
      (triangle_conf me a b).neighbor_ids k = i := by
  have hrange : range' 1 (triangle_conf me a b).degree = [1, 2] := rfl
  rw [hrange]
  simp [triangle_conf, eq_comm]

def corner1 : Site triangle where
  cf := triangle_conf 1 2 3
  my_id_range := by decide
  neighbors := triangle_conf_neighbors 1 2 3

def corner2 : Site triangle where
  cf := triangle_conf 2 1 3
  my_id_range := by decide
  neighbors := triangle_conf_neighbors 2 1 3

/-- Daemon `1`, started at second `5`, about its link to `2`. -/
def about_link (seq : ℕ) (cost : ℤ) : StatusChange where
  epoch := 5
  creator := 1
  cell := fun i => if i = 2 then ⟨seq, cost⟩ else if i = 3 then ⟨0, -1⟩ else ⟨0, 0⟩

theorem about_link_upto {s s' : ℕ} (x x' : ℤ) (h : s ≤ s') :
    (about_link s x).upto (about_link s' x') := by
  refine .inr ⟨rfl, fun i => ?_⟩
  dsimp only [about_link]
  split_ifs <;> simp [h]

theorem about_link_agree {s s' : ℕ} (x x' : ℤ) (h : s ≠ s') :
    (about_link s x).agree (about_link s' x') := by
  intro _ i
  dsimp only [about_link]
  split_ifs
  · exact fun he => absurd he h
  · simp
  · simp

theorem bump_about_link (src_epoch s : ℕ) (x cost : ℤ) (hs : s + 1 < 2 ^ 64) :
    (about_link s x).bump src_epoch 2 cost = about_link (s + 1) cost := by
  have hseq : int64u (s + 1) = s + 1 := by
    unfold int64u
    exact Nat.mod_eq_of_lt hs
  have hcell : ((about_link s x).bump src_epoch 2 cost).cell = (about_link (s + 1) cost).cell := by
    funext i
    by_cases hi : i = 2
    · rw [hi, bump_self]
      simp [about_link, hseq]
    · rw [bump_other _ _ _ hi]
      simp [about_link, hi]
  simp only [StatusChange.bump] at hcell ⊢
  rw [hcell]
  simp [about_link]

theorem corner1_creates {S0 S : StatusState} {h0 h : List StatusChange} {s : ℕ} {x cost : ℤ}
    (hrun : Relation.ReflTransGen (Creates corner1) (S0, h0) (S, h)) (src_epoch status : ℕ)
    (hcost : triangle.link_cost 1 2 status = some cost) (hs : status ≤ 2)
    (hS : S.stored 1 = about_link s x) (hlt : s + 1 < 2 ^ 64) :
    ∃ S', S'.stored 1 = about_link (s + 1) cost ∧
      Relation.ReflTransGen (Creates corner1) (S0, h0) (S', h ++ [about_link (s + 1) cost]) := by
  have hstored := generate_bump corner1 src_epoch 2 S hcost
  have hid : corner1.cf.my_id = 1 := rfl
  rw [hid, hS, bump_about_link _ _ _ _ hlt] at hstored
  have hstep : Creates corner1 (S, h)
      (generate_link_status_change corner1.cf triangle src_epoch 2 status S,
        h ++ [(generate_link_status_change corner1.cf triangle src_epoch 2 status S).stored
          corner1.cf.my_id]) := .generate src_epoch (by decide) hs
  rw [hid, hstored] at hstep
  exact ⟨_, hstored, hrun.tail hstep⟩

theorem corner1_first : ∃ S, S.stored 1 = about_link 1 10 ∧
    Relation.ReflTransGen (Creates corner1) (StatusState.init corner1.cf, [])
      (S, [about_link 1 10]) := by
  have hcell : ((StatusState.init corner1.cf).stored 1).bump 5 2 10 = about_link 1 10 := by
    have hfun : (((StatusState.init corner1.cf).stored 1).bump 5 2 10).cell =
        (about_link 1 10).cell := by
      funext i
      by_cases hi : i = 2
      · rw [hi, bump_self]
        simp [about_link, StatusState.init, int64u]
      · rw [bump_other _ _ _ hi]
        have hnbr := triangle_conf_neighbors 1 2 3 i
        by_cases h3 : i = 3
        · have hmem := hnbr.mp (by simp [h3])
          dsimp only [StatusState.init]
          rw [if_pos ⟨rfl, hmem⟩]
          simp [about_link, h3]
        · have hno : ¬ (1 = corner1.cf.my_id ∧ ∃ k ∈ range' 1 corner1.cf.degree,
              corner1.cf.neighbor_ids k = i) := fun h => by
            have := hnbr.mpr h.2
            simp [hi, h3] at this
          dsimp only [StatusState.init]
          rw [if_neg hno]
          simp [about_link, hi, h3]
    simp only [StatusChange.bump] at hfun ⊢
    rw [hfun]
    rfl
  have hstored := generate_bump corner1 5 2 (StatusState.init corner1.cf)
    (show triangle.link_cost 1 2 1 = some 10 by decide)
  have hid : corner1.cf.my_id = 1 := rfl
  rw [hid, hcell] at hstored
  have hstep : Creates corner1 (StatusState.init corner1.cf, [])
      (generate_link_status_change corner1.cf triangle 5 2 1 (StatusState.init corner1.cf),
        [] ++ [(generate_link_status_change corner1.cf triangle 5 2 1
          (StatusState.init corner1.cf)).stored corner1.cf.my_id]) :=
    .generate 5 (by decide) (by decide)
  rw [hid, hstored] at hstep
  exact ⟨_, hstored, .single hstep⟩

theorem corner1_created : Created corner1 ([about_link 1 10] ++ about_link 2 (-1) :: []) := by
  obtain ⟨S1, hS1, hrun1⟩ := corner1_first
  obtain ⟨S2, -, hrun2⟩ := corner1_creates hrun1 5 0 rfl (by decide) hS1 (by decide)
  exact ⟨S2, hrun2⟩

theorem stored_latest_triangle :
    (corner1.cf.my_id ≠ corner2.cf.my_id ∧
      Created corner1 ([about_link 1 10] ++ about_link 2 (-1) :: [])) ∧
    ([.receive 1 (about_link 2 (-1)), .receive 2 (about_link 1 10)].foldl
      (StatusState.handle corner2.cf triangle) (StatusState.init corner2.cf)).Held triangle 1
        (about_link 2 (-1)) :=
  ⟨⟨by decide, corner1_created⟩,
    (stored_latest corner1 corner2 (by decide) [about_link 1 10] [] (about_link 2 (-1))
      corner1_created (by simpa using about_link_upto 10 (-1) (by decide))
      (by simpa using about_link_agree 10 (-1) (by decide))
      [.receive 1 (about_link 2 (-1)), .receive 2 (about_link 1 10)]
      (by simp [delivered, corner1, triangle_conf, about_link])
      (by simp [delivered, corner1, triangle_conf, about_link]) (by simp)).1⟩

/-- Daemon `1` is started again within the second, takes its first message back from
daemon `3` and says that the link is up once more: with the epoch and the sequence number
that said it is down. Sequence numbers did not go down, yet daemon `2`, which knows
that the link is down, keeps that cost. -/
theorem repeated_seq_keeps_old_cost :
    Created corner1 [about_link 1 10, about_link 2 (-1), about_link 2 10] ∧
      [about_link 1 10, about_link 2 (-1), about_link 2 10].Pairwise StatusChange.upto ∧
      ¬ ([.receive 1 (about_link 2 (-1)), .receive 1 (about_link 2 10)].foldl
        (StatusState.handle corner2.cf triangle) (StatusState.init corner2.cf)).Held triangle 1
          (about_link 2 10) := by
  refine ⟨?_, ?_, fun h => ?_⟩
  · obtain ⟨S1, hS1, hrun1⟩ := corner1_first
    obtain ⟨S2, -, hrun2⟩ := corner1_creates hrun1 5 0 rfl (by decide) hS1 (by decide)
    have hrun3 := (hrun2.tail .restart).tail
      (.other (.receive 2 (about_link 1 10)) (by rintro _ _ _ ⟨⟩)
        (by rintro k m ⟨⟩ -; simp))
    have hback : ((StatusState.init corner1.cf).handle corner1.cf triangle
        (.receive 2 (about_link 1 10))).stored 1 = about_link 1 10 := by
      rw [StatusState.handle]
      rcases process_status_change_cases corner1.cf triangle 2 (about_link 1 10)
        (StatusState.init corner1.cf) with ⟨hno, -⟩ | ⟨-, hst, -⟩
      · exact absurd (by decide +kernel) hno
      · rw [hst]
        exact update_self _ _ _
    obtain ⟨S4, -, hrun4⟩ := corner1_creates hrun3 5 1 rfl (by decide) hback (by decide)
    exact ⟨S4, hrun4⟩
  · simp [about_link_upto]
  · have hcost := h.2 2 (by decide)
    revert hcost
    decide +kernel

end Triangle

end Spines.RelFlood
