/-
How long a flow waits for its turn.

A flow that sent a message of `packets` packets pays for them: its entry in the
normal queue of the neighbour gets `penalty = packets`, every turn takes one off,
and the flow may send when nothing is left. The queues keep every penalty at `1`
or above (`Paid`), and what the entry of a flow still owes beyond its last turn
(`debt`) goes down by one with every turn that it waits.

One move breaks this: an urgent flow that may not send goes to the normal queue
with the penalty that its turn has just taken down to `0`.
-/
import Spines.RelFlood.Window
import Spines.RelFlood.Links
import Spines.IntruTol.PacketCount

set_option autoImplicit false

namespace Spines.RelFlood

open Spines.Lib Function Option List

/-! ## 1. Flows join the queues -/

/-- What the handlers do to the two queues outside of `Reliable_Flood_Send_Data`. -/
inductive JoinOp : LinkData → LinkData → Prop
  | norm (ld : LinkData) (s d : ℕ) : JoinOp ld (ld.push_norm s d)
  | urgent (ld : LinkData) (s d : ℕ) : JoinOp ld (ld.push_urgent s d)
  | other {ld ld' : LinkData} (hu : ld'.urgent = ld.urgent) (hn : ld'.norm = ld.norm)
      (hf : ld'.in_flow_queue = ld.in_flow_queue) : JoinOp ld ld'

abbrev Joined : LinkData → LinkData → Prop := Relation.ReflTransGen JoinOp

def Joins (D D' : Daemon) : Prop := ∀ k, Joined (D.edge k) (D'.edge k)

section Joins

variable {D D' D'' : Daemon} {ld ld' : LinkData}

theorem Joined.other (hu : ld'.urgent = ld.urgent) (hn : ld'.norm = ld.norm)
    (hf : ld'.in_flow_queue = ld.in_flow_queue) : Joined ld ld' :=
  .single (.other hu hn hf)

theorem Joins.of_edge (h : D'.edge = D.edge) : Joins D D' := fun k => by rw [h]

theorem Joins.refl (D : Daemon) : Joins D D := Joins.of_edge rfl

variable (cf : Conf) (k s hop d : ℕ)

theorem Joins.on_edge (hedge : D'.edge = update D.edge k ld) (h : Joined (D.edge k) ld) :
    Joins D D' := by
  intro j
  rw [hedge]
  by_cases hj : j = k
  · rw [hj, update_self]
    exact h
  · rw [update_of_ne hj]

theorem joined_quiet : LinksQuiet Joined where
  refl _ := .refl
  trans h h' := h.trans h'
  push_norm ld s d := .single (.norm ld s d)
  push_urgent ld s d := .single (.urgent ld s d)
  other _ hu hn hf := Joined.other hu hn hf

theorem joined_walk (cf : Conf) : QuietWalk cf Joined (fun _ _ => True) := joined_quiet.walk

theorem Walked.joins {cf : Conf} {R : FlowBuffer → FlowBuffer → Prop} (h : Walked cf Joined R D D') :
    Joins D D' := h.links

end Joins

/-! ## 2. What the entries owe -/

/-- Nothing in the queues has to be taken below `0`. An urgent entry has the
penalty it was made with. -/
structure Paid (ld : LinkData) : Prop where
  urgent : ∀ e ∈ ld.urgent, e.penalty = 1
  norm : ∀ e ∈ ld.norm, 1 ≤ e.penalty ∧ e.penalty < 2 ^ 16

/-- The turns that the entries of a flow still have to wait: an entry is served when
its last penalty is taken off. -/
def owed (s d : ℕ) (l : List FlowQueue) : ℕ :=
  (l.map (fun e => if e.key = (s, d) then e.penalty - 1 else 0)).sum

def LinkData.debt (ld : LinkData) (s d : ℕ) : ℕ := owed s d ld.urgent + owed s d ld.norm

def waits (s d : ℕ) (l : List FlowQueue) : ℕ :=
  (l.filter (fun e => e.key = (s, d) ∧ 2 ≤ e.penalty)).length

section Paid

variable {ld ld' : LinkData} {s d : ℕ}

@[simp] theorem owed_nil (s d : ℕ) : owed s d [] = 0 := rfl

@[simp] theorem owed_cons (s d : ℕ) (e : FlowQueue) (l : List FlowQueue) :
    owed s d (e :: l) = (if e.key = (s, d) then e.penalty - 1 else 0) + owed s d l := rfl

@[simp] theorem owed_append (s d : ℕ) (l l' : List FlowQueue) :
    owed s d (l ++ l') = owed s d l + owed s d l' := by
  rw [owed, map_append, sum_append]
  rfl

theorem owed_of_not_mem {l : List FlowQueue} (h : (s, d) ∉ l.map FlowQueue.key) :
    owed s d l = 0 := by
  induction l with
  | nil => rfl
  | cons e l ih =>
    rw [map_cons, mem_cons, not_or] at h
    rw [owed_cons, if_neg (fun he => h.1 he.symm), ih h.2]

theorem JoinOp.paid (h : JoinOp ld ld') (hp : Paid ld) : Paid ld' := by
  obtain ⟨hu, hn⟩ := hp
  cases h with
  | norm s d =>
    unfold LinkData.push_norm
    split
    · exact ⟨hu, hn⟩
    · refine ⟨hu, fun e he => ?_⟩
      rcases mem_append.mp he with he | he
      · exact hn e he
      · rw [mem_singleton.mp he]
        exact ⟨le_refl 1, by dsimp only; omega⟩
  | urgent s d =>
    unfold LinkData.push_urgent
    split
    · exact ⟨hu, hn⟩
    · refine ⟨fun e he => ?_, hn⟩
      rcases mem_append.mp he with he | he
      · exact hu e he
      · rw [mem_singleton.mp he]
  | other hu' hn' _ => exact ⟨by rw [hu']; exact hu, by rw [hn']; exact hn⟩

theorem JoinOp.debt (h : JoinOp ld ld') (s d : ℕ) : ld'.debt s d = ld.debt s d := by
  cases h with
  | norm a b =>
    unfold LinkData.push_norm
    split
    · rfl
    · simp [LinkData.debt]
  | urgent a b =>
    unfold LinkData.push_urgent
    split
    · rfl
    · simp [LinkData.debt]
  | other hu hn _ => rw [LinkData.debt, LinkData.debt, hu, hn]

theorem JoinOp.queued (h : JoinOp ld ld') (hq : Queued ld) : Queued ld' := by
  cases h with
  | norm s d => exact hq.push_norm s d
  | urgent s d => exact hq.push_urgent s d
  | other hu hn hf =>
    refine hq.perm ?_ hf
    rw [LinkData.keys, LinkData.keys, hu, hn]

theorem Joined.paid (h : Joined ld ld') (hp : Paid ld) : Paid ld' := by
  induction h with
  | refl => exact hp
  | tail _ hop ih => exact hop.paid ih

theorem Joined.debt (h : Joined ld ld') (s d : ℕ) : ld'.debt s d = ld.debt s d := by
  induction h with
  | refl => rfl
  | tail _ hop ih => exact (hop.debt s d).trans ih

theorem Joined.queued (h : Joined ld ld') (hq : Queued ld) : Queued ld' := by
  induction h with
  | refl => exact hq
  | tail _ hop ih => exact hop.queued ih

theorem pay_penalty {e : FlowQueue} (h1 : 1 ≤ e.penalty) (h2 : e.penalty < 2 ^ 16) :
    e.pay.penalty = e.penalty - 1 := by
  rw [FlowQueue.pay]
  dsimp only
  omega

end Paid

/-! ## 3. Turns -/

/-- The entries that `scan_queues` takes a turn of, each as it is found. -/
def scan_turns (cf : Conf) (D : Daemon) (k : ℕ) : ℕ → LinkData → List FlowQueue
  | 0, _ => []
  | fuel + 1, ld =>
    match ld.urgent, ld.norm with
    | e :: urgent, _ =>
      e :: (if 0 < e.pay.penalty ∨ ¬ flow_ready cf D k ld e.src_id e.dest_id then
        scan_turns cf D k fuel { ld with urgent := urgent, norm := ld.norm ++ [e.pay] } else [])
    | [], e :: norm =>
      e :: (if 0 < e.pay.penalty then scan_turns cf D k fuel { ld with norm := norm ++ [e.pay] }
      else if ¬ flow_ready cf D k ld e.src_id e.dest_id then
        scan_turns cf D k fuel { ld with
          norm := norm
          in_flow_queue := set2 ld.in_flow_queue e.src_id e.dest_id false }
      else [])
    | [], [] => []

def head_ready (cf : Conf) (k : ℕ) (D : Daemon) : Prop :=
  ∀ e ∈ (D.edge k).urgent.head?, flow_ready cf D k (D.edge k) e.src_id e.dest_id

inductive Front : LinkData → Option FlowQueue → Prop
  | none {ld : LinkData} (h : Paid ld) : Front ld none
  | urgent {ld : LinkData} {e : FlowQueue} {urgent : List FlowQueue} (hu : ld.urgent = e :: urgent)
      (he : e.penalty = 0) (hpu : ∀ x ∈ urgent, x.penalty = 1)
      (hpn : ∀ x ∈ ld.norm, 1 ≤ x.penalty ∧ x.penalty < 2 ^ 16) : Front ld (some e)
  | norm {ld : LinkData} {e : FlowQueue} {norm : List FlowQueue} (hu : ld.urgent = [])
      (hn : ld.norm = e :: norm) (he : e.penalty = 0)
      (hpn : ∀ x ∈ norm, 1 ≤ x.penalty ∧ x.penalty < 2 ^ 16) : Front ld (some e)

structure Scanned (ld : LinkData) (turns : List FlowQueue) (ld' : LinkData)
    (served : Option FlowQueue) : Prop where
  found : ∀ e ∈ turns, 1 ≤ e.penalty
  debt : ∀ s d, waits s d turns + ld'.debt s d = ld.debt s d
  front : Front ld' served

section Scan

variable {cf : Conf} {D : Daemon} {k : ℕ}

theorem waits_cons (s d : ℕ) (e : FlowQueue) (l : List FlowQueue) :
    waits s d (e :: l) = (if e.key = (s, d) ∧ 2 ≤ e.penalty then 1 else 0) + waits s d l := by
  rw [waits, filter_cons]
  by_cases h : e.key = (s, d) ∧ 2 ≤ e.penalty
  · rw [if_pos (decide_eq_true h), if_pos h, length_cons, add_comm]
    rfl
  · rw [if_neg (by simpa using h), if_neg h, zero_add]
    rfl

variable {ld : LinkData} {e : FlowQueue} (fuel : ℕ)

theorem Scanned.cons {ld1 ld' : LinkData} {turns : List FlowQueue} {served : Option FlowQueue}
    (h : Scanned ld1 turns ld' served) (he : 1 ≤ e.penalty)
    (hdebt : ∀ s d, (if e.key = (s, d) ∧ 2 ≤ e.penalty then 1 else 0) + ld1.debt s d
      = ld.debt s d) : Scanned ld (e :: turns) ld' served := by
  refine ⟨fun x hx => ?_, fun s d => ?_, h.front⟩
  · rcases mem_cons.mp hx with rfl | hx
    · exact he
    · exact h.found x hx
  · rw [waits_cons, add_assoc, h.debt, hdebt]

theorem scan_round_norm {norm : List FlowQueue} (hu : ld.urgent = []) (hn : ld.norm = e :: norm) :
    scan_queues cf D k (fuel + 1) ld =
        (if 0 < e.pay.penalty then scan_queues cf D k fuel { ld with norm := norm ++ [e.pay] }
        else if ¬ flow_ready cf D k ld e.src_id e.dest_id then
          scan_queues cf D k fuel { ld with
            norm := norm
            in_flow_queue := set2 ld.in_flow_queue e.src_id e.dest_id false }
        else ({ ld with norm := e.pay :: norm }, some e.pay)) ∧
      scan_turns cf D k (fuel + 1) ld =
        e :: (if 0 < e.pay.penalty then scan_turns cf D k fuel { ld with norm := norm ++ [e.pay] }
        else if ¬ flow_ready cf D k ld e.src_id e.dest_id then
          scan_turns cf D k fuel { ld with
            norm := norm
            in_flow_queue := set2 ld.in_flow_queue e.src_id e.dest_id false }
        else []) := by
  obtain ⟨aru, sow, norm', urgent', rest⟩ := ld
  dsimp only at hu hn
  subst hu hn
  exact ⟨rfl, rfl⟩

theorem scan_round_urgent {urgent : List FlowQueue} (hu : ld.urgent = e :: urgent) :
    scan_queues cf D k (fuel + 1) ld =
        (if 0 < e.pay.penalty ∨ ¬ flow_ready cf D k ld e.src_id e.dest_id then
          scan_queues cf D k fuel { ld with urgent := urgent, norm := ld.norm ++ [e.pay] }
        else ({ ld with urgent := e.pay :: urgent }, some e.pay)) ∧
      scan_turns cf D k (fuel + 1) ld =
        e :: (if 0 < e.pay.penalty ∨ ¬ flow_ready cf D k ld e.src_id e.dest_id then
          scan_turns cf D k fuel { ld with urgent := urgent, norm := ld.norm ++ [e.pay] } else []) := by
  obtain ⟨aru, sow, norm', urgent', rest⟩ := ld
  dsimp only at hu
  subst hu
  exact ⟨rfl, rfl⟩

theorem scan_round_empty (hu : ld.urgent = []) (hn : ld.norm = []) :
    scan_queues cf D k (fuel + 1) ld = (ld, none) ∧ scan_turns cf D k (fuel + 1) ld = [] := by
  obtain ⟨aru, sow, norm', urgent', rest⟩ := ld
  dsimp only at hu hn
  subst hu hn
  exact ⟨rfl, rfl⟩

theorem Scanned.none (hp : Paid ld) : Scanned ld [] ld none :=
  ⟨nofun, fun _ _ => Nat.zero_add _, .none hp⟩

theorem scan_norm (D : Daemon) (k : ℕ) (fuel : ℕ) : ∀ ld : LinkData, ld.urgent = [] → Paid ld →
    Scanned ld (scan_turns cf D k fuel ld) (scan_queues cf D k fuel ld).1
      (scan_queues cf D k fuel ld).2 := by
  induction fuel with
  | zero => exact fun ld _ hp => Scanned.none hp
  | succ fuel ih =>
    intro ld hu hp
    cases hn : ld.norm with
    | nil =>
      obtain ⟨hq, ht⟩ := scan_round_empty fuel hu hn
      rw [hq, ht]
      exact Scanned.none hp
    | cons e norm =>
      obtain ⟨hq, ht⟩ := scan_round_norm fuel hu hn
      obtain ⟨he1, he2⟩ := hp.norm e (by rw [hn]; exact mem_cons_self ..)
      have hrest : ∀ x ∈ norm, 1 ≤ x.penalty ∧ x.penalty < 2 ^ 16 :=
        fun x hx => hp.norm x (by rw [hn]; exact mem_cons_of_mem e hx)
      have hpay := pay_penalty he1 he2
      have hdebt : ∀ s d, ld.debt s d
          = (if e.key = (s, d) then e.penalty - 1 else 0) + owed s d norm := by
        intro s d
        rw [LinkData.debt, hu, hn, owed_nil, zero_add, owed_cons]
      have hurgent : ∀ x ∈ ld.urgent, x.penalty = 1 := hp.urgent
      rw [hq, ht]
      by_cases hleft : 0 < e.pay.penalty
      · -- something is left to pay: the entry goes to the back
        rw [if_pos hleft, if_pos hleft]
        refine (ih { ld with norm := norm ++ [e.pay] } hu ⟨hurgent, ?_⟩).cons he1 ?_
        · intro x hx
          rcases mem_append.mp hx with hx | hx
          · exact hrest x hx
          · rw [mem_singleton.mp hx]
            omega
        · intro s d
          have htwo : 2 ≤ e.penalty := by omega
          rw [hdebt]
          simp only [LinkData.debt, hu, owed_nil, owed_append, owed_cons, pay_key, hpay, htwo,
            and_true]
          split_ifs <;> omega
      · rw [if_neg hleft, if_neg hleft]
        by_cases hready : flow_ready cf D k ld e.src_id e.dest_id
        · rw [if_neg (not_not_intro hready), if_neg (not_not_intro hready)]
          refine ⟨fun x hx => ?_, fun s d => ?_, .norm hu rfl (by omega) hrest⟩
          · rw [mem_singleton.mp hx]
            exact he1
          · rw [hdebt, waits_cons]
            simp only [LinkData.debt, hu, owed_nil, owed_cons, pay_key, hpay, waits,
              filter_nil, length_nil]
            split_ifs <;> omega
        · -- the entry is freed: it owes nothing
          rw [if_pos hready, if_pos hready]
          refine (ih { ld with
            norm := norm
            in_flow_queue := set2 ld.in_flow_queue e.src_id e.dest_id false } hu
            ⟨hurgent, hrest⟩).cons he1 ?_
          intro s d
          rw [hdebt]
          simp only [LinkData.debt, hu, owed_nil]
          split_ifs <;> omega

theorem scan_spec (hhead : head_ready cf k D) (hp : Paid (D.edge k)) (fuel : ℕ) :
    Scanned (D.edge k) (scan_turns cf D k fuel (D.edge k)) (scan_queues cf D k fuel (D.edge k)).1
      (scan_queues cf D k fuel (D.edge k)).2 := by
  cases fuel with
  | zero => exact Scanned.none hp
  | succ fuel =>
    cases hu : (D.edge k).urgent with
    | nil => exact scan_norm D k (fuel + 1) _ hu hp
    | cons e urgent =>
      obtain ⟨hq, ht⟩ := scan_round_urgent fuel hu
      have he : e.penalty = 1 := hp.urgent e (by rw [hu]; exact mem_cons_self ..)
      have hpay : e.pay.penalty = 0 := by rw [pay_penalty (by omega) (by omega), he]
      have hready := hhead e (by rw [hu]; exact rfl)
      have hgo : ¬ (0 < e.pay.penalty ∨ ¬ flow_ready cf D k (D.edge k) e.src_id e.dest_id) := by
        rw [hpay]
        exact not_or.mpr ⟨lt_irrefl 0, not_not_intro hready⟩
      rw [hq, ht, if_neg hgo, if_neg hgo]
      refine ⟨fun x hx => ?_, fun s d => ?_, .urgent rfl hpay ?_ hp.norm⟩
      · rw [mem_singleton.mp hx, he]
      · rw [waits_cons]
        simp [LinkData.debt, hu, waits, he, hpay]
      · exact fun x hx => hp.urgent x (by rw [hu]; exact mem_cons_of_mem e hx)

theorem Front.of_queues {ld' : LinkData} {o : Option FlowQueue} (h : Front ld o)
    (hu : ld'.urgent = ld.urgent) (hn : ld'.norm = ld.norm) : Front ld' o := by
  cases h with
  | none hp => exact .none ⟨hu ▸ hp.urgent, hn ▸ hp.norm⟩
  | urgent hu' he hpu hpn => exact .urgent (hu.trans hu') he hpu (hn ▸ hpn)
  | norm hu' hn' he hpn => exact .norm (hu.trans hu') (hn.trans hn') he hpn

theorem Front.rotate (h : Front ld (some e)) {p : ℕ} (h1 : 1 ≤ p) (h2 : p < 2 ^ 16) :
    Paid (ld.rotate p) ∧
      ∀ s d, (ld.rotate p).debt s d = ld.debt s d + if e.key = (s, d) then p - 1 else 0 := by
  have hnew : ∀ l : List FlowQueue, (∀ x ∈ l, 1 ≤ x.penalty ∧ x.penalty < 2 ^ 16) →
      ∀ x ∈ l ++ [{ e with penalty := p % 2 ^ 16 }], 1 ≤ x.penalty ∧ x.penalty < 2 ^ 16 := by
    intro l hl x hx
    rcases mem_append.mp hx with hx | hx
    · exact hl x hx
    · rw [mem_singleton.mp hx]
      dsimp only
      omega
  have hmod : p % 2 ^ 16 = p := Nat.mod_eq_of_lt h2
  cases h with
  | urgent hu he hpu hpn =>
    obtain ⟨aru, sow, norm', urgent', rest⟩ := ld
    dsimp only at hu hpn
    subst hu
    refine ⟨⟨hpu, hnew norm' hpn⟩, fun s d => ?_⟩
    simp only [LinkData.debt, LinkData.rotate, owed_append, owed_cons, owed_nil, FlowQueue.key, he,
      hmod]
    by_cases hkey : (e.src_id, e.dest_id) = (s, d)
    · simp only [hkey, if_true]
      omega
    · simp only [hkey, if_false]
      omega
  | norm hu hn he hpn =>
    obtain ⟨aru, sow, norm', urgent', rest⟩ := ld
    dsimp only at hu hn
    subst hu hn
    refine ⟨⟨forall_mem_nil _, hnew _ hpn⟩, fun s d => ?_⟩
    simp only [LinkData.debt, LinkData.rotate, owed_append, owed_cons, owed_nil, FlowQueue.key, he,
      hmod]
    by_cases hkey : (e.src_id, e.dest_id) = (s, d)
    · simp only [hkey, if_true]
      omega
    · simp only [hkey, if_false]
      omega

theorem Front.refund (h : Front ld (some e)) :
    Paid ld.refund ∧ ∀ s d, ld.refund.debt s d = ld.debt s d := by
  cases h with
  | urgent hu he hpu hpn =>
    obtain ⟨aru, sow, norm', urgent', rest⟩ := ld
    dsimp only at hu hpn
    subst hu
    refine ⟨⟨fun x hx => ?_, hpn⟩, fun s d => ?_⟩
    · rcases mem_cons.mp hx with rfl | hx
      · dsimp only
        omega
      · exact hpu x hx
    · simp only [LinkData.debt, LinkData.refund, owed_cons, FlowQueue.key, he]
      by_cases hkey : (e.src_id, e.dest_id) = (s, d)
      · simp [hkey]
      · simp [hkey]
  | norm hu hn he hpn =>
    obtain ⟨aru, sow, norm', urgent', rest⟩ := ld
    dsimp only at hu hn
    subst hu hn
    refine ⟨⟨forall_mem_nil _, fun x hx => ?_⟩, fun s d => ?_⟩
    · rcases mem_cons.mp hx with rfl | hx
      · dsimp only
        omega
      · exact hpn x hx
    · simp only [LinkData.debt, LinkData.refund, owed_cons, FlowQueue.key, he]
      by_cases hkey : (e.src_id, e.dest_id) = (s, d)
      · simp [hkey]
      · simp [hkey]

theorem Front.debt_zero (h : Front ld (some e)) (hq : Queued ld) :
    ld.debt e.src_id e.dest_id = 0 := by
  have hnodup := hq.nodup
  rw [LinkData.keys, map_append] at hnodup
  cases h with
  | urgent hu he _ _ =>
    rw [hu, map_cons, cons_append, nodup_cons, mem_append, not_or] at hnodup
    obtain ⟨⟨hnu, hnn⟩, -⟩ := hnodup
    rw [LinkData.debt, hu, owed_cons, owed_of_not_mem hnu, owed_of_not_mem hnn, he]
    split_ifs <;> rfl
  | norm hu hn he _ =>
    rw [hu, hn, map_nil, nil_append, map_cons, nodup_cons] at hnodup
    rw [LinkData.debt, hu, hn, owed_nil, owed_cons, owed_of_not_mem hnodup.1, he]
    split_ifs <;> rfl

end Scan

/-! ## 4. The log of all turns -/

inductive Turn
  /-- A turn of an entry toward neighbour `k`; the penalty is the one that is found. -/
  | visit (k : ℕ) (e : FlowQueue)
  /-- A message of a flow went to neighbour `k`, in this many packets. -/
  | sent (k s d packets : ℕ)
  deriving DecidableEq

/-- A call of `Reliable_Flood_Send_Data`, and the state that it finds. -/
structure Call where
  k : ℕ
  env : SendEnv
  D : Daemon

def Call.visits (cf : Conf) (c : Call) : List FlowQueue :=
  scan_turns cf c.D c.k (scan_fuel (c.D.edge c.k)) (c.D.edge c.k)

def Call.served (cf : Conf) (c : Call) : Option FlowQueue :=
  (scan_queues cf c.D c.k (scan_fuel (c.D.edge c.k)) (c.D.edge c.k)).2

def Call.turns (cf : Conf) (c : Call) : List Turn :=
  (c.visits cf).map (Turn.visit c.k) ++
    (if (reliable_flood_send_data cf c.k c.env c.D).2.isSome then
      (c.served cf).toList.map (fun e => .sent c.k e.src_id e.dest_id c.env.packets)
    else [])

/-- `packets` is what `Calculate_Packets_In_Message` returned for some message. -/
def SendEnv.Counted (env : SendEnv) : Prop :=
  ∃ (link_addition : ℕ) (m : IntruTol.SysScatter), m.body.length < IntruTol.MAX_SCATTER_ELEMENTS ∧
    env.packets = (IntruTol.calculate_packets_in_message link_addition m).1

theorem SendEnv.Counted.range {env : SendEnv} (h : env.Counted) :
    1 ≤ env.packets ∧ env.packets < 2 ^ 16 := by
  obtain ⟨link_addition, m, hlen, heq⟩ := h
  have hrange := IntruTol.calculate_packets_range link_addition hlen
  rw [← heq] at hrange
  simp only [IntruTol.MAX_SCATTER_ELEMENTS] at hrange
  omega

def Call.Orderly (cf : Conf) (c : Call) : Prop := head_ready cf c.k c.D ∧ c.env.Counted

/-- Something is left of the penalty of flow `(s, d)`, so it waits. -/
def Turn.waits (k s d : ℕ) : Turn → Bool
  | .visit j e => j = k ∧ e.key = (s, d) ∧ 2 ≤ e.penalty
  | .sent .. => false

/-- How many turns flow `(s, d)` waited toward neighbour `k`. -/
def waited (k s d : ℕ) (log : List Turn) : ℕ := (log.filter (Turn.waits k s d)).length

/-- What a flow waited since its last message, with what it still owes, is less than
the packets of that message. -/
def Owes (log : List Turn) (D : Daemon) : Prop :=
  ∀ (k s d p : ℕ) (pre rest : List Turn), log = pre ++ .sent k s d p :: rest →
    (∀ q, .sent k s d q ∉ rest) → waited k s d rest + (D.edge k).debt s d + 1 ≤ p

section Owes

variable {log pre rest new : List Turn} {D D' : Daemon} {k s d p : ℕ}

theorem waited_append (k s d : ℕ) (log log' : List Turn) :
    waited k s d (log ++ log') = waited k s d log + waited k s d log' := by
  rw [waited, filter_append, length_append]
  rfl

theorem waited_visits (k s d : ℕ) (l : List FlowQueue) :
    waited k s d (l.map (Turn.visit k)) = waits s d l := by
  induction l with
  | nil => rfl
  | cons e l ih =>
    rw [waits_cons, ← ih, map_cons, waited, waited, filter_cons]
    by_cases h : e.key = (s, d) ∧ 2 ≤ e.penalty
    · have hw : Turn.waits k s d (.visit k e) = true := decide_eq_true ⟨rfl, h⟩
      rw [if_pos hw, if_pos h, length_cons, add_comm]
    · rw [if_neg (by simpa [Turn.waits] using h), if_neg h, zero_add]

theorem waited_visits_other {j : ℕ} (hj : j ≠ k) (s d : ℕ) (l : List FlowQueue) :
    waited k s d (l.map (Turn.visit j)) = 0 := by
  rw [waited, filter_eq_nil_iff.mpr, length_nil]
  intro t ht
  obtain ⟨e, -, rfl⟩ := List.mem_map.mp ht
  simp [Turn.waits, hj]

theorem old_part {t : Turn} (ht : t ∉ new) (h : log ++ new = pre ++ t :: rest) :
    ∃ m, log = pre ++ t :: m ∧ rest = m ++ new := by
  rcases append_eq_append_iff.mp h with ⟨a, rfl, hnew⟩ | ⟨c, rfl, hc⟩
  · rw [hnew] at ht
    exact absurd (mem_append_right a (mem_cons_self ..)) ht
  · cases c with
    | nil =>
      rw [nil_append] at hc
      rw [← hc] at ht
      exact absurd (mem_cons_self ..) ht
    | cons x m =>
      rw [cons_append, List.cons.injEq] at hc
      exact ⟨m, by rw [hc.1], hc.2⟩

theorem Owes.same (h : Owes log D) (hdebt : ∀ k s d, (D'.edge k).debt s d = (D.edge k).debt s d) :
    Owes log D' := by
  intro k s d p pre rest hlog hno
  rw [hdebt]
  exact h k s d p pre rest hlog hno

theorem Owes.visits (h : Owes log D) (l : List FlowQueue)
    (hdebt : ∀ s d, waits s d l + (D'.edge k).debt s d = (D.edge k).debt s d)
    (hother : ∀ j, j ≠ k → D'.edge j = D.edge j) : Owes (log ++ l.map (Turn.visit k)) D' := by
  intro j s d p pre rest hlog hno
  have hnot : Turn.sent j s d p ∉ l.map (Turn.visit k) := by
    intro hmem
    obtain ⟨e, -, he⟩ := List.mem_map.mp hmem
    exact Turn.noConfusion he
  obtain ⟨m, hm, rfl⟩ := old_part hnot hlog
  have hold := h j s d p pre m hm (fun q hq => hno q (mem_append_left _ hq))
  rw [waited_append]
  by_cases hj : j = k
  · subst hj
    have hd := hdebt s d
    rw [waited_visits]
    omega
  · rw [waited_visits_other (Ne.symm hj), hother j hj]
    exact hold

theorem Owes.sent (h : Owes log D) (hp : (D'.edge k).debt s d + 1 ≤ p)
    (hother : ∀ j a b, ¬ (j = k ∧ a = s ∧ b = d) → (D'.edge j).debt a b = (D.edge j).debt a b) :
    Owes (log ++ [.sent k s d p]) D' := by
  intro j a b q pre rest hlog hno
  by_cases hsame : Turn.sent j a b q = .sent k s d p
  · obtain ⟨rfl, rfl, rfl, rfl⟩ := Turn.sent.inj hsame
    -- nothing can come after it
    have hnil : rest = [] := by
      rcases eq_nil_or_concat rest with hnil | ⟨m, x, rfl⟩
      · exact hnil
      · rw [concat_eq_append, ← cons_append, ← append_assoc] at hlog
        have hx := (append_inj' hlog rfl).2
        rw [List.cons.injEq] at hx
        apply absurd _ (hno q)
        rw [hx.1, concat_eq_append]
        exact mem_append_right m (mem_singleton_self x)
    rw [hnil]
    simpa [waited] using hp
  · obtain ⟨m, hm, rfl⟩ := old_part (fun hmem => hsame (mem_singleton.mp hmem)) hlog
    have hflow : ¬ (j = k ∧ a = s ∧ b = d) := by
      rintro ⟨rfl, rfl, rfl⟩
      exact hno p (mem_append_right m (mem_singleton_self _))
    have hold := h j a b q pre m hm (fun r hr => hno r (mem_append_left _ hr))
    rw [waited_append, hother j a b hflow]
    simpa [waited, Turn.waits] using hold

end Owes

/-! ## 5. Runs -/

structure Kept (log : List Turn) (D : Daemon) : Prop where
  found : ∀ k e, Turn.visit k e ∈ log → 1 ≤ e.penalty
  owes : Owes log D
  paid : D.halt = .running → ∀ k, Paid (D.edge k)
  queued : ∀ k, Queued (D.edge k)

/-- From `D` to `D'` with the calls of `Reliable_Flood_Send_Data` in between. -/
def Logs (cf : Conf) (D D' : Daemon) (calls : List Call) : Prop :=
  ∀ log, Kept log D → (∀ c ∈ calls, Call.Orderly cf c) →
    Kept (log ++ calls.flatMap (Call.turns cf)) D'

section Logs

variable {cf : Conf} {D D' D'' : Daemon} {calls calls' : List Call}

theorem Logs.trans (h : Logs cf D D' calls) (h' : Logs cf D' D'' calls') :
    Logs cf D D'' (calls ++ calls') := by
  intro log hk ho
  rw [flatMap_append, ← append_assoc]
  apply h'
  · exact h log hk (fun c hc => ho c (mem_append_left _ hc))
  · exact fun c hc => ho c (mem_append_right _ hc)

theorem Logs.after (h : Logs cf D D' []) (h' : Logs cf D' D'' calls) : Logs cf D D'' calls :=
  h.trans h'

theorem Kept.joins {log : List Turn} (h : Kept log D) (hj : Joins D D')
    (hrun : D'.halt = .running → D.halt = .running) : Kept log D' :=
  ⟨h.found, h.owes.same (fun k s d => (hj k).debt s d), fun hr k => (hj k).paid (h.paid (hrun hr) k),
    fun k => (hj k).queued (h.queued k)⟩

theorem Logs.joins (hj : Joins D D') (hrun : D'.halt = .running → D.halt = .running) :
    Logs cf D D' [] := by
  intro log h _
  rw [flatMap_nil, append_nil]
  exact h.joins hj hrun

theorem Logs.refl (cf : Conf) (D : Daemon) : Logs cf D D [] := Logs.joins (Joins.refl D) id

theorem update_all {P : LinkData → Prop} {k : ℕ} {ld : LinkData}
    (hedge : D'.edge = update D.edge k ld) (hld : P ld) (hall : ∀ j, P (D.edge j)) (j : ℕ) :
    P (D'.edge j) := by
  rw [hedge]
  by_cases hj : j = k
  · rw [hj, update_self]
    exact hld
  · rw [update_of_ne hj]
    exact hall j

theorem send_data_logs (k : ℕ) (env : SendEnv) (hrun : D.halt = .running) :
    Logs cf D (reliable_flood_send_data cf k env D).1 [⟨k, env, D⟩] := by
  intro log h ho
  obtain ⟨hhead, hcounted⟩ := ho _ (mem_singleton_self _)
  obtain ⟨hp1, hp2⟩ := hcounted.range
  dsimp only at hhead hp1 hp2
  have hscan := scan_spec hhead (h.paid hrun k) (scan_fuel (D.edge k))
  have hturned : Turned cf D k _ _ := scan_queues_turned (scan_fuel (D.edge k)) (D.edge k)
  rw [flatMap_singleton, Call.turns, Call.visits, Call.served]
  unfold reliable_flood_send_data
  generalize scan_turns cf D k (scan_fuel (D.edge k)) (D.edge k) = turns at hscan ⊢
  generalize scan_queues cf D k (scan_fuel (D.edge k)) (D.edge k) = scan at hscan hturned ⊢
  obtain ⟨ld, served⟩ := scan
  dsimp only at hscan hturned ⊢
  -- the state after the rounds
  have hself : (D.on_edge k (fun _ => ld)).edge k = ld := on_edge_self _ _ _
  have hqueued : Queued ld := hturned.queued (h.queued k)
  have hfound : ∀ j e, Turn.visit j e ∈ log ++ turns.map (Turn.visit k) → 1 ≤ e.penalty := by
    intro j e he
    rcases mem_append.mp he with he | he
    · exact h.found j e he
    · obtain ⟨x, hx, heq⟩ := List.mem_map.mp he
      obtain ⟨-, rfl⟩ := Turn.visit.inj heq
      exact hscan.found x hx
  have howes : Owes (log ++ turns.map (Turn.visit k)) (D.on_edge k (fun _ => ld)) := by
    apply h.owes.visits turns _ (fun j hj => on_edge_other D _ hj)
    rw [hself]
    exact hscan.debt
  cases served with
  | none =>
    rw [toList_none, map_nil, ite_self, append_nil]
    have hp : Paid ld := by
      cases hscan.front with
      | none hp => exact hp
    exact ⟨hfound, howes, fun _ => update_all rfl hp (h.paid hrun), update_all rfl hqueued h.queued⟩
  | some e =>
    have hfront := hscan.front
    cases hm : (D.fb e.src_id e.dest_id).msg (slot ((D.fb e.src_id e.dest_id).next_seq k)) with
    | none =>
      have hfb : (D.on_edge k (fun _ => ld)).fb = D.fb := rfl
      simp only [hfb, hm, isSome_none, Bool.false_eq_true, if_false, append_nil]
      exact ⟨hfound, howes.same (fun _ _ _ => rfl), nofun, update_all rfl hqueued h.queued⟩
    | some m =>
      have hfb : (D.on_edge k (fun _ => ld)).fb = D.fb := rfl
      have hadded : Front (reliable_flood_add_acks D.fb env.max_acks ld).1 (some e) :=
        hfront.of_queues rfl rfl
      have hqadded : Queued (reliable_flood_add_acks D.fb env.max_acks ld).1 :=
        hqueued.perm (List.Perm.refl _) rfl
      simp only [hfb, hm, hself]
      by_cases hok : env.forward_ok = true
      · -- sent: the flow owes the packets from now on
        simp only [hok, if_true, isSome_some, toList_some, map_singleton]
        obtain ⟨hprot, hdebt⟩ := hadded.rotate hp1 hp2
        have hkept : ∀ D2 : Daemon, D2.edge = update D.edge k
            ((reliable_flood_add_acks D.fb env.max_acks ld).1.rotate env.packets) →
            Kept (log ++ (turns.map (Turn.visit k) ++
              [Turn.sent k e.src_id e.dest_id env.packets])) D2 := by
          intro D2 hedge2
          have hturn : Turned cf D k _ _ :=
            rotate_turned env.packets (reliable_flood_add_acks D.fb env.max_acks ld).1
          rw [← append_assoc]
          refine ⟨fun j x hx => ?_, howes.sent ?_ (fun j a b hne => ?_),
            fun _ => update_all hedge2 hprot (h.paid hrun),
            update_all hedge2 (hturn.queued hqadded) h.queued⟩
          · rcases mem_append.mp hx with hx | hx
            · exact hfound j x hx
            · exact absurd (mem_singleton.mp hx) (by simp)
          · rw [hedge2, update_self, hdebt, hadded.debt_zero hqadded,
              if_pos (show e.key = (e.src_id, e.dest_id) from rfl)]
            omega
          · rw [hedge2]
            by_cases hj : j = k
            · rw [hj, update_self, hself, hdebt, if_neg, add_zero]
              · rfl
              · intro hkey
                obtain ⟨ha, hb⟩ := Prod.mk.inj hkey
                exact hne ⟨hj, ha.symm, hb.symm⟩
            · rw [update_of_ne hj, on_edge_other _ _ hj]
        split
        · refine Kept.joins (hkept _ ?_)
            ((joined_walk cf).send_move_up _ _ _ (fun _ => trivial)).joins (fun _ => hrun)
          simp only [Daemon.on_edge, update_idem]
        · apply hkept
          simp only [Daemon.on_edge, update_idem]
      · -- not sent: the penalty is restored
        simp only [hok, if_false, isSome_none, append_nil, Bool.false_eq_true]
        obtain ⟨hprot, hdebt⟩ := hadded.refund
        have hturn : Turned cf D k _ _ :=
          refund_turned (reliable_flood_add_acks D.fb env.max_acks ld).1
        have hedge2 : ((D.on_edge k (fun _ => ld)).on_edge k
            (fun _ => (reliable_flood_add_acks D.fb env.max_acks ld).1.refund)).edge
            = update D.edge k
              (reliable_flood_add_acks D.fb env.max_acks ld).1.refund := by
          simp only [Daemon.on_edge, update_idem]
        refine ⟨hfound, howes.same (fun j a b => ?_), fun _ => update_all hedge2 hprot (h.paid hrun),
          update_all hedge2 (hturn.queued hqadded) h.queued⟩
        rw [hedge2]
        by_cases hj : j = k
        · rw [hj, update_self, hself, hdebt]
          rfl
        · rw [update_of_ne hj, on_edge_other _ _ hj]

end Logs

def loop_calls {ι : Type*} (step : Daemon → ι → Daemon) (calls : Daemon → ι → List Call) :
    List ι → Daemon → List Call
  | [], _ => []
  | i :: l, D => calls D i ++ loop_calls step calls l (step D i)

/-- The call of `Reliable_Flood_Send_Data` in `Reliable_Flood_Send_One`. -/
def send_one_calls (k : ℕ) (env : SendEnv) (D : Daemon) : List Call :=
  if D.halt ≠ .running then []
  else if env.status_change then []
  else if (D.edge k).e2e_ready then []
  else [⟨k, env, D⟩]

/-- The calls in the round of `Reliable_Flood_Restamp` for neighbour `k`. -/
def restamp_ngbr_calls (cf : Conf) (env : RestampEnv) (i : ℕ) (D : Daemon) (k : ℕ) : List Call :=
  if D.halt ≠ .running then []
  else
    let fb := D.fb cf.my_id i
    let resend_start := fb.skip_sent k fb.sow
    if fb.next_seq k < resend_start then []
    else
      let fb := { fb with next_seq := Function.update fb.next_seq k resend_start }
      let queue := (D.edge k).in_flow_queue cf.my_id i = false ∧ fb.has_next cf k
      let D := { D with fb := set2 D.fb cf.my_id i fb }
      if queue then
        let D := D.on_edge k (LinkData.push_urgent cf.my_id i)
        if cf.nbr i then
          loop_calls (fun D e => (reliable_flood_send_one cf i e D).1) (fun D e => send_one_calls i e D)
            (env.resources i k) D
        else []
      else []

def restamp_dest_calls (cf : Conf) (env : RestampEnv) (D : Daemon) (i : ℕ) : List Call :=
  let fb := D.fb cf.my_id i
  if D.halt ≠ .running ∨ i = cf.my_id ∨ fb.sow = fb.head_seq then []
  else
    let out := restamp_loop cf ⟨env.stamp i, env.sign_ok i⟩ (fb.head_seq - fb.sow) fb.sow fb false
    let D := { D with fb := set2 D.fb cf.my_id i out.1 }
    if out.2.2 then []
    else if out.2.1 then
      loop_calls (restamp_ngbr cf env i) (restamp_ngbr_calls cf env i) (range' 1 cf.degree) D
    else []

/-- The calls of `Reliable_Flood_Send_Data` that an event leads to, in order. -/
def event_calls (cf : Conf) (D : Daemon) : Event → List Call
  | .send_one k env => send_one_calls k env D
  | .restamp env i => restamp_dest_calls cf env D i
  | _ => []

section Events

variable {cf : Conf} {D : Daemon}

theorem loop_logs {ι : Type*} {step : Daemon → ι → Daemon} {calls : Daemon → ι → List Call}
    (h : ∀ D i, Logs cf D (step D i) (calls D i)) (l : List ι) (D : Daemon) :
    Logs cf D (l.foldl step D) (loop_calls step calls l D) := by
  induction l generalizing D with
  | nil => exact Logs.refl cf D
  | cons i l ih => exact (h D i).trans (ih (step D i))

theorem send_one_logs (k : ℕ) (env : SendEnv) (D : Daemon) :
    Logs cf D (reliable_flood_send_one cf k env D).1 (send_one_calls k env D) := by
  unfold reliable_flood_send_one send_one_calls
  by_cases hrun : D.halt ≠ .running
  · rw [if_pos hrun, if_pos hrun]
    exact Logs.refl cf D
  rw [if_neg hrun, if_neg hrun]
  by_cases hstatus : env.status_change = true
  · rw [if_pos hstatus, if_pos hstatus]
    exact Logs.joins (Joins.on_edge k rfl (Joined.other rfl rfl rfl)) id
  rw [if_neg hstatus, if_neg hstatus]
  by_cases he2e : (D.edge k).e2e_ready = true
  · rw [if_pos he2e, if_pos he2e]
    exact Logs.joins ((joined_walk cf).send_e2e k env D).joins (fun _ => not_not.mp hrun)
  rw [if_neg he2e, if_neg he2e]
  have h : Logs cf D _ _ := send_data_logs k env (not_not.mp hrun)
  dsimp only
  split
  · exact h
  split
  · intro log hk ho
    have hkept := h log hk ho
    exact hkept.joins (Joins.on_edge k rfl (Joined.other rfl rfl rfl)) id
  · exact h

theorem restamp_ngbr_logs (env : RestampEnv) (i : ℕ) (D : Daemon) (k : ℕ) :
    Logs cf D (restamp_ngbr cf env i D k) (restamp_ngbr_calls cf env i D k) := by
  unfold restamp_ngbr restamp_ngbr_calls
  by_cases hrun : D.halt ≠ .running
  · rw [if_pos hrun, if_pos hrun]
    exact Logs.refl cf D
  rw [if_neg hrun, if_neg hrun]
  dsimp only
  split
  · exact Logs.joins (Joins.of_edge rfl) nofun
  split
  · split
    · refine Logs.after ?_ (loop_logs (fun D e => send_one_logs i e D) (env.resources i k) _)
      exact Logs.joins (Joins.on_edge k rfl (.single (.urgent _ _ _))) id
    · exact Logs.joins (Joins.on_edge k rfl (.single (.urgent _ _ _))) id
  · exact Logs.joins (Joins.of_edge rfl) id

theorem restamp_dest_logs (env : RestampEnv) (D : Daemon) (i : ℕ) :
    Logs cf D (restamp_dest cf env D i) (restamp_dest_calls cf env D i) := by
  unfold restamp_dest restamp_dest_calls
  dsimp only
  split
  · exact Logs.refl cf D
  split
  · exact Logs.joins (Joins.of_edge rfl) id
  split
  · refine Logs.after ?_ (loop_logs (restamp_ngbr_logs env i) (range' 1 cf.degree) _)
    exact Logs.joins (Joins.of_edge rfl) id
  · exact Logs.joins (Joins.of_edge rfl) id

theorem handle_logs (hrun : D.halt = .running) (e : Event) :
    Logs cf D (handle cf D e) (event_calls cf D e) := by
  cases e with
  | packet sec lh verified pkt =>
    exact Logs.joins (joined_quiet.disseminate cf sec lh verified pkt D) (fun _ => hrun)
  | client sec dst num_paths stamp sign_ok body =>
    exact Logs.joins (joined_quiet.session_send_message cf sec dst num_paths stamp sign_ok body D)
      (fun _ => hrun)
  | gen_e2e now send => exact Logs.joins ((joined_walk cf).gen_e2e now send D).joins (fun _ => hrun)
  | neighbor_transfer k =>
    exact Logs.joins ((joined_walk cf).neighbor_transfer k D).joins (fun _ => hrun)
  | e2e_event k => exact Logs.joins ((joined_walk cf).e2e_event k D).joins (fun _ => hrun)
  | send_one k env => exact send_one_logs k env D
  | restamp env i => exact restamp_dest_logs env D i

end Events

/-- A run, with the log of its turns. `ok` says which calls of
`Reliable_Flood_Send_Data` it makes. -/
inductive Course (cf : Conf) (ok : Call → Prop) (D₀ : Daemon) : List Turn → Daemon → Prop
  | start : Course cf ok D₀ [] D₀
  | step {log : List Turn} {D D' : Daemon} (h : Course cf ok D₀ log D) (e : Event)
      (hs : Step cf D e D') (hok : ∀ c ∈ event_calls cf D e, ok c) :
      Course cf ok D₀ (log ++ (event_calls cf D e).flatMap (Call.turns cf)) D'

/-- **Penalties never go below zero** as long as every call finds at the front of the
urgent queue a flow that may send. Every turn takes one off from a penalty of at least
`1`, also in the states that are reached, and after a message of `packets` packets a
flow waits for fewer than `packets` turns before it may send again. -/
theorem penalty_never_wraps {cf : Conf} {sec : ℕ} {log : List Turn} {D : Daemon}
    (h : Course cf (Call.Orderly cf) (init_reliable_flooding cf sec) log D) :
    (∀ k e, Turn.visit k e ∈ log → 1 ≤ e.penalty)
      ∧ (D.halt = .running → ∀ k, ∀ e ∈ (D.edge k).urgent ++ (D.edge k).norm,
          1 ≤ e.penalty ∧ e.penalty < 2 ^ 16)
      ∧ ∀ (k s d packets : ℕ) (pre rest : List Turn), log = pre ++ .sent k s d packets :: rest →
          (∀ q, .sent k s d q ∉ rest) → waited k s d rest < packets := by
  have hkept : Kept log D := by
    induction h with
    | start =>
      refine ⟨nofun, fun k s d p pre rest hlog => ?_, fun _ k => ⟨nofun, nofun⟩, fun k => ?_⟩
      · exact absurd hlog (by simp)
      · exact ⟨nodup_nil, fun s d => by simp [init_reliable_flooding, LinkData.init, LinkData.keys]⟩
    | step _ e hs hok ih =>
      obtain ⟨hrun, -, rfl⟩ := hs
      exact handle_logs hrun e _ ih hok
  refine ⟨hkept.found, fun hrun k e he => ?_, fun k s d p pre rest hlog hno => ?_⟩
  · obtain ⟨hu, hn⟩ := hkept.paid hrun k
    rcases mem_append.mp he with he | he
    · rw [hu e he]
      omega
    · exact hn e he
  · have howes := hkept.owes k s d p pre rest hlog hno
    omega

theorem Course.quiet {cf : Conf} {ok : Call → Prop} {D0 : Daemon} {log : List Turn}
    (script : List Event) : ∀ {D D' : Daemon}, Course cf ok D0 log D →
      play cf (fun D e => (event_calls cf D e).isEmpty = true) D script = some D' →
      Course cf ok D0 log D' := by
  induction script with
  | nil =>
    intro D D' h hplay
    rw [play, some_inj] at hplay
    rw [← hplay]
    exact h
  | cons e rest ih =>
    intro D D' h hplay
    rw [play] at hplay
    by_cases hgo : D.halt = .running ∧ e.Ok cf ∧ (event_calls cf D e).isEmpty = true
    · rw [if_pos hgo] at hplay
      obtain ⟨hrun, hok, hempty⟩ := hgo
      rw [List.isEmpty_iff] at hempty
      have hstep := h.step e ⟨hrun, hok, rfl⟩ (by rw [hempty]; exact forall_mem_nil _)
      rw [hempty, flatMap_nil, append_nil] at hstep
      exact ih hstep hplay
    · rw [if_neg hgo] at hplay
      exact absurd hplay (by simp)

def three_packets : SendEnv := { open_link with packets := 3 }

theorem three_packets_counted : three_packets.Counted :=
  ⟨1472, ⟨[], [[], []]⟩, by decide, by decide⟩

theorem penalty_never_wraps_relay :
    ∃ log D, Course relay_conf (Call.Orderly relay_conf) (init_reliable_flooding relay_conf 7) log D ∧
      Turn.sent 2 1 3 3 ∈ log ∧ ∀ k e, Turn.visit k e ∈ log → 1 ≤ e.penalty := by
  have hplay : (play relay_conf (fun D e => (event_calls relay_conf D e).isEmpty = true)
      (init_reliable_flooding relay_conf 7) relay_stores).map
      (fun D => (D.halt, decide (Turn.sent 2 1 3 3 ∈
          (event_calls relay_conf D (.send_one 2 three_packets)).flatMap (Call.turns relay_conf)),
        (D.edge 2).urgent.all (fun e => flow_ready relay_conf D 2 (D.edge 2) e.src_id e.dest_id))) =
      some (.running, true, true) := by decide +kernel
  obtain ⟨D, hD, hout⟩ := map_eq_some_iff.mp hplay
  simp only [Prod.mk.injEq, decide_eq_true_eq, List.all_eq_true] at hout
  obtain ⟨hrun, hsent, hready⟩ := hout
  have hok : ∀ c ∈ event_calls relay_conf D (.send_one 2 three_packets),
      Call.Orderly relay_conf c := by
    intro c hc
    obtain rfl : c = ⟨2, three_packets, D⟩ := by
      simp only [event_calls, send_one_calls] at hc
      split_ifs at hc <;> simp_all
    exact ⟨fun e he => hready e (mem_of_head? he), three_packets_counted⟩
  have hcourse := (Course.start.quiet relay_stores hD).step (.send_one 2 three_packets)
    ⟨hrun, by decide, rfl⟩ hok
  exact ⟨_, _, hcourse, hsent, (penalty_never_wraps hcourse).1⟩

theorem blocked_urgent_turns {cf : Conf} {D : Daemon} {k : ℕ} {ld : LinkData} {e : FlowQueue}
    (hu : ld.urgent = [e]) (hn : ld.norm = []) (he : e.penalty = 1)
    (hblocked : ¬ flow_ready cf D k ld e.src_id e.dest_id) (fuel : ℕ) :
    { e with penalty := 0 } ∈ scan_turns cf D k (fuel + 2) ld := by
  have hpay : e.pay = { e with penalty := 0 } := by
    rw [FlowQueue.pay, he]
    rfl
  rw [(scan_round_urgent (fuel + 1) hu).2, if_pos (.inr hblocked), hn, nil_append,
    (scan_round_norm fuel rfl rfl).2, hpay]
  exact mem_cons_of_mem e (mem_cons_self ..)

def fork_conf : Conf :=
  { relay_conf with
    degree := 3
    neighbor_ids := fun k => if k = 1 then 1 else if k = 2 then 3 else 4
    mp_neighbor_mask := fun k => 2 ^ (k - 1) }

def fork_blocks : List Event :=
  [.packet 100 2 true ⟨.e2e (source_ack 10), []⟩,
    .packet 100 1 true ⟨.data ⟨1, 3, 10, 1, 7, []⟩, []⟩]

/-- **The penalty of a blocked flow wraps.** The flow is urgent toward the third
neighbour, and its end-to-end ack must go first. -/
theorem blocked_flow_wraps :
    ∃ log D, Course fork_conf (fun c => c.env.Counted) (init_reliable_flooding fork_conf 7) log D ∧
      ∃ e, Turn.visit 3 e ∈ log ∧ e.penalty = 0 ∧ e.pay.penalty = 65535 := by
  have hplay : (play fork_conf (fun D e => (event_calls fork_conf D e).isEmpty = true)
      (init_reliable_flooding fork_conf 7) fork_blocks).map
      (fun D => (D.halt, (D.edge 3).urgent, (D.edge 3).norm, (D.edge 3).e2e_ready,
        decide (flow_ready fork_conf D 3 (D.edge 3) 1 3))) =
      some (.running, [⟨1, 3, 1⟩], [], false, false) := by decide +kernel
  obtain ⟨D, hD, hout⟩ := map_eq_some_iff.mp hplay
  simp only [Prod.mk.injEq, decide_eq_false_iff_not] at hout
  obtain ⟨hrun, hurgent, hnorm, he2e, hblocked⟩ := hout
  have hcalls : event_calls fork_conf D (.send_one 3 three_packets) = [⟨3, three_packets, D⟩] := by
    simp only [event_calls, send_one_calls, hrun, he2e]
    rfl
  have hok : ∀ c ∈ event_calls fork_conf D (.send_one 3 three_packets), c.env.Counted := by
    intro c hc
    rw [hcalls] at hc
    rw [mem_singleton.mp hc]
    exact three_packets_counted
  have hcourse := (Course.start.quiet fork_blocks hD).step (.send_one 3 three_packets)
    ⟨hrun, by decide, rfl⟩ hok
  have hturn := blocked_urgent_turns hurgent hnorm rfl hblocked 65536
  have hfuel : scan_fuel (D.edge 3) = 65536 + 2 := by
    rw [scan_fuel, hurgent, hnorm]
    rfl
  refine ⟨_, _, hcourse, ⟨1, 3, 0⟩, ?_, rfl, by decide⟩
  rw [hcalls, nil_append, flatMap_singleton, Call.turns, Call.visits]
  apply mem_append_left
  apply List.mem_map_of_mem
  rw [hfuel]
  exact hturn

end Spines.RelFlood
