/-
No update is lost: the life of a changed state, over whole runs of a daemon.

A change waits in `Changed_States`, with one bit for each slot of `Neighbor_Nodes`,
until `Send_State_Updates` has nothing left to send and empties the hash. Meanwhile a
newer version may clear the bits, a neighbor may tell the version again, links come and
go, and with them the neighbors in the slots.

A bit alone does not say whom it is for, since a slot that is freed goes to the next
new neighbor. So a `Log` is kept beside the daemon: which versions came up, who told
them, to whom they were sent, and who got a slot. `Inv` says what a bit means in terms
of the log.
-/
import Mathlib.Data.List.DropRight
import Spines.StateFlood.Sending

set_option autoImplicit false

namespace Spines.StateFlood

open Spines.Lib Option List

/-! ## 1. What happens to a daemon -/

abbrev Stamp := Int ×ₗ Int

/-- `made`: a key has a new version. `told`: a neighbor sent the version to this daemon.
`sent`: it is in a packet of `Net_Send_State_Updates` to a neighbor. `joined`: a neighbor
got a slot. `synced`: the whole table went to a neighbor. -/
inductive Entry
  | made (k : Key) (v : Stamp)
  | told (n : Node_ID) (k : Key) (v : Stamp)
  | sent (n : Node_ID) (k : Key) (v : Stamp)
  | joined (n : Node_ID)
  | synced (n : Node_ID)

abbrev Log := List Entry

def MAX_NEIGHBORS : ℕ := 256

structure Flood (p : Prot_Def) where
  d : Daemon p
  /-- `Net_Send_State_All` is in the event queue for these neighbors -/
  syncs : List Node_ID
  log : Log

section Model

variable {p : Prot_Def}

def Daemon.stamp (d : Daemon p) (k : Key) : Option Stamp :=
  (d.stored k.1 k.2).map Version.stamp

/-- The entry for a key whose version is not what it was. -/
def made_by (d d' : Daemon p) (k : Key) : Log :=
  match d'.stamp k with
  | some v => if d.stamp k = some v then [] else [.made k v]
  | none => []

def Flood.cell (f : Flood p) (u : Update p) : Option (Flood p) := do
  let d ← u.apply f.d
  let k := (u.source, u.cell.dest)
  some { f with d := d, log := made_by f.d d k ++ .told u.sender k u.cell.version.stamp :: f.log }

def Flood.packet (f : Flood p) (r : Received p) : Option (Flood p) :=
  r.updates.foldlM Flood.cell f

/-- A change of a state of this daemon itself: `Join_Group` and `Leave_Group` set another
status, `Resend_States` only the stamp. -/
def publish (now : sp_time) (dest : Spines_ID) (value : Int) (lts : p.Lts) (d : Daemon p) :
    Option (Daemon p) :=
  let s_data := (Find_State d.All_States d.My_Address dest).getD (fresh_state now true 0 lts)
  Add_to_changed_states now d.My_Address d.My_Address dest { d with
    All_States := d.All_States.put d.My_Address dest
      { s_data.bump with value := value, lts := lts } }

def Flood.publish (f : Flood p) (now : sp_time) (dest : Spines_ID) (value : Int) (lts : p.Lts) :
    Option (Flood p) := do
  let d ← StateFlood.publish now dest value lts f.d
  some { f with d := d, log := made_by f.d d (f.d.My_Address, dest) ++ f.log }

/-- `Neighbor_Nodes` without the node, and without the empty slots at the end. -/
def free_slot (slots : List (Option Node_ID)) (nd : Node_ID) : List (Option Node_ID) :=
  (slots.map fun s => if s = some nd then none else s).rdropWhile Option.isNone

/-- What `Network_Leg_Set_Cost` changes besides the state of the edge. -/
def Flood.set_leg_cost (f : Flood p) (nd : Node_ID) (new_leg_cost : Int) : Flood p :=
  let d := { f.d with leg_cost := fun n => if n = nd then new_leg_cost else f.d.leg_cost n }
  if f.d.leg_cost nd = -1 then { f with d := d, syncs := nd :: f.syncs }
  else if new_leg_cost = -1 then
    { f with
      d := { d with Neighbor_Nodes := free_slot d.Neighbor_Nodes nd }
      syncs := f.syncs.filter (· ≠ nd) }
  else { f with d := d }

def Network_Leg_Set_Cost (f : Flood p) (now : sp_time) (nd : Node_ID) (new_leg_cost : Int) :
    Option (Flood p) :=
  if new_leg_cost = f.d.leg_cost nd then some f
  else if f.d.leg_cost nd = -1 ∧ some nd ∉ f.d.Neighbor_Nodes then none
  else
    match p, f.set_leg_cost nd new_leg_cost with
    | .Edge_Prot_Def, f =>
      let lts := f.d.Link_State_Update_LTS + 1
      Flood.publish { f with d := { f.d with Link_State_Update_LTS := lts } } now nd new_leg_cost lts
    | .Groups_Prot_Def, f => some f

/-- What `Create_Link` does for the neighbor of a new control link. -/
def Create_Link (f : Flood p) (nd : Node_ID) : Option (Flood p) :=
  if f.d.connected nd then none
  else if some nd ∈ f.d.Neighbor_Nodes then some f
  else
    let log := .joined nd :: f.log
    match f.d.Neighbor_Nodes.idxOf? none with
    | some i =>
      some { f with
        d := { f.d with Neighbor_Nodes := f.d.Neighbor_Nodes.set i (some nd) }
        log := log }
    | none =>
      if f.d.Neighbor_Nodes.length = MAX_NEIGHBORS then none
      else
        some { f with
          d := { f.d with Neighbor_Nodes := f.d.Neighbor_Nodes ++ [some nd] }
          log := log }

def sent_entries (out : List (Node_ID × Packet p)) : Log :=
  out.flatMap fun pk => (cells pk.2.parts).map fun c =>
    .sent pk.1 (c.1, c.2.dest) c.2.version.stamp

def Flood.send (f : Flood p) (s : Sending) : Flood p :=
  let (d, out) := Send_State_Updates s f.d
  { f with d := d, log := (sent_entries out).reverse ++ f.log }

inductive Event (p : Prot_Def)
  | packet (r : Received p)
  | publish (now : sp_time) (dest : Spines_ID) (value : Int) (lts : p.Lts)
  | leg_cost (now : sp_time) (nd : Node_ID) (new_leg_cost : Int)
  | link (nd : Node_ID)
  /-- the queued `Net_Send_State_All` -/
  | sync (n : Node_ID)
  /-- the queued `Send_State_Updates` -/
  | updates (s : Sending)
  /-- the call of `Send_State_Updates` in `Set_Routes` -/
  | routes (s : Sending)

def Flood.step (f : Flood p) : Event p → Option (Flood p)
  | .packet r => f.packet r
  | .publish now dest value lts => f.publish now dest value lts
  | .leg_cost now nd new_leg_cost => Network_Leg_Set_Cost f now nd new_leg_cost
  | .link nd => Create_Link f nd
  | .sync n =>
    if n ∈ f.syncs then some { f with syncs := f.syncs.filter (· ≠ n), log := .synced n :: f.log }
    else none
  | .updates s =>
    if f.d.queued then some (Flood.send { f with d := { f.d with queued := false } } s)
    else none
  | .routes s => if p = .Edge_Prot_Def then some (f.send s) else none

def Event.Enumerates (f : Flood p) : Event p → Prop
  | .updates s => ∀ i, (s.en i).Of f.d.Changed_States
  | .routes s => ∀ i, (s.en i).Of f.d.Changed_States
  | _ => True

def Step (f : Flood p) (e : Event p) (f' : Flood p) : Prop :=
  e.Enumerates f ∧ f.step e = some f'

structure Flood.Start (f : Flood p) : Prop where
  changes : f.d.Changed_States = []
  slots : f.d.Neighbor_Nodes = []
  disconnected : ∀ n, f.d.connected n = false
  log : f.log = []

end Model

/-! ## 2. Logs -/

section Logs

variable {n m : Node_ID} {k : Key} {v : Stamp} {e : Entry} {log : Log}

def Entry.joins (n : Node_ID) : Entry → Bool
  | .joined m => m == n
  | _ => false

def Since (n : Node_ID) (log : Log) : Log := log.takeWhile fun e => !e.joins n

def Heard (n : Node_ID) (k : Key) (v : Stamp) (log : Log) : Prop :=
  .told n k v ∈ log ∨ .sent n k v ∈ log

def Joined_After (n : Node_ID) (k : Key) (v : Stamp) (log : Log) : Prop :=
  ∃ later earlier, log = later ++ .joined n :: earlier ∧ .made k v ∈ earlier

def Once : Log → Prop
  | [] => True
  | .sent n k v :: log => .sent n k v ∉ Since n log ∧ Once log
  | _ :: log => Once log

def Entry.Quiet : Entry → Prop
  | .made _ _ => True
  | .told _ _ _ => True
  | .synced _ => True
  | _ => False

@[simp] theorem since_joined : Since n (.joined n :: log) = [] := by
  simp [Since, Entry.joins]

theorem since_cons (h : e.joins n = false) : Since n (e :: log) = e :: Since n log := by
  simp [Since, h]

theorem Entry.Quiet.joins (h : e.Quiet) : e.joins n = false := by
  cases e <;> first | rfl | exact h.elim

theorem Entry.Quiet.ne_sent (h : e.Quiet) : e ≠ .sent n k v := by
  rintro rfl
  exact h

theorem mem_of_mem_since (h : e ∈ Since n log) : e ∈ log :=
  (takeWhile_sublist _).subset h

theorem Heard.cons (h : Heard n k v log) (e : Entry) : Heard n k v (e :: log) :=
  h.imp (mem_cons_of_mem e) (mem_cons_of_mem e)

theorem Joined_After.cons (h : Joined_After n k v log) (e : Entry) :
    Joined_After n k v (e :: log) := by
  obtain ⟨later, earlier, rfl, hmade⟩ := h
  exact ⟨e :: later, earlier, rfl, hmade⟩

theorem Entry.Quiet.once (h : e.Quiet) : Once (e :: log) ↔ Once log := by
  cases e <;> first | rfl | exact h.elim

theorem Once.joined_between {l1 l2 l3 : Log}
    (h : Once (l1 ++ .sent n k v :: l2 ++ .sent n k v :: l3)) : .joined n ∈ l2 := by
  induction l1 with
  | nil =>
    obtain ⟨hfresh, -⟩ := h
    by_contra hnone
    apply hfresh
    have hall : ∀ e ∈ l2, (!e.joins n) = true := by
      intro e he
      cases e with
      | joined m =>
        have hm : m ≠ n := by
          rintro rfl
          exact hnone he
        simp [Entry.joins, hm]
      | made k v => rfl
      | told n k v => rfl
      | sent n k v => rfl
      | synced n => rfl
    change _ ∈ Since n (l2 ++ .sent n k v :: l3)
    rw [Since, takeWhile_append_of_pos hall, takeWhile_cons_of_pos (by rfl)]
    exact mem_append_right _ mem_cons_self
  | cons e l1 ih =>
    apply ih
    cases e with
    | sent n' k' v' => exact h.2
    | made k v => exact h
    | told n k v => exact h
    | joined n => exact h
    | synced n => exact h

end Logs

/-! ## 3. A new version -/

section Renewed

variable {p : Prot_Def} {d d' d₁ : Daemon p} {k : Key} {v : Stamp} {mask : ℕ → Bool}
  {now : sp_time} {sender source : Node_ID} {cell : State_Cell p} {flag flag' : Bool}

structure Renewed (d d' : Daemon p) (k : Key) (v : Stamp) (mask : ℕ → Bool) : Prop where
  same : Same_Neighbors d d'
  stamp : ∀ k', d'.stamp k' = if k' = k then some v else d.stamp k'
  newer : ∀ v₀ ∈ d.stamp k, v₀ < v
  distinct : Distinct d'.Changed_States
  changes : ∀ c, c ∈ d'.Changed_States ↔
    c = ⟨k.1, k.2, mask⟩ ∨ (c ∈ d.Changed_States ∧ c.key ≠ k)
  queued : d'.queued = (d.queued || d.Changed_States.isEmpty)

theorem set_mask_keys (changes : List Changed_State) (k : Key) (f : (ℕ → Bool) → ℕ → Bool) :
    (set_mask changes k.1 k.2 f).map Changed_State.key = changes.map Changed_State.key := by
  rw [set_mask, List.map_map]
  apply map_congr_left
  intro c _
  simp only [Function.comp_apply]
  split <;> rfl

theorem mem_set_mask {changes : List Changed_State} {c : Changed_State}
    {f : (ℕ → Bool) → ℕ → Bool} : c ∈ set_mask changes k.1 k.2 f ↔
      ∃ c0 ∈ changes, c = if c0.key = k then { c0 with mask := f c0.mask } else c0 := by
  unfold set_mask
  simp only [List.mem_map, is_iff]
  constructor
  · rintro ⟨c0, hc0, rfl⟩
    exact ⟨c0, hc0, rfl⟩
  · rintro ⟨c0, hc0, rfl⟩
    exact ⟨c0, hc0, rfl⟩

theorem renewed_none (mask : ℕ → Bool) (hd : Distinct d.Changed_States)
    (hfind : Find_Changed_State d.Changed_States k.1 k.2 = none) :
    Distinct (d.Changed_States ++ [⟨k.1, k.2, mask⟩]) ∧
      ∀ c, c ∈ d.Changed_States ++ [⟨k.1, k.2, mask⟩] ↔
        c = ⟨k.1, k.2, mask⟩ ∨ (c ∈ d.Changed_States ∧ c.key ≠ k) := by
  have hnew : ∀ c ∈ d.Changed_States, c.key ≠ k := by
    intro c hc hk
    exact List.find?_eq_none.mp hfind c hc ((is_iff c k).mpr hk)
  constructor
  · rw [Distinct, map_append, nodup_append]
    refine ⟨hd, nodup_singleton _, ?_⟩
    rintro k1 hk1 k2 hk2 rfl
    obtain ⟨c, hc, rfl⟩ := List.mem_map.mp hk1
    exact hnew c hc (mem_singleton.mp hk2)
  · intro c
    rw [mem_append, mem_singleton, or_comm]
    exact or_congr_right ⟨fun hc => ⟨hc, hnew c hc⟩, And.left⟩

theorem renewed_some (mask : ℕ → Bool) (hd : Distinct d.Changed_States) {c0 : Changed_State}
    (hfind : Find_Changed_State d.Changed_States k.1 k.2 = some c0) :
    Distinct (set_mask d.Changed_States k.1 k.2 fun _ => mask) ∧
      ∀ c, c ∈ (set_mask d.Changed_States k.1 k.2 fun _ => mask) ↔
        c = ⟨k.1, k.2, mask⟩ ∨ (c ∈ d.Changed_States ∧ c.key ≠ k) := by
  constructor
  · rw [Distinct, set_mask_keys]
    exact hd
  · intro c
    rw [mem_set_mask]
    constructor
    · rintro ⟨c1, hc1, rfl⟩
      by_cases hk : c1.key = k
      · rw [if_pos hk, ← hk]
        exact .inl rfl
      · rw [if_neg hk]
        exact .inr ⟨hc1, hk⟩
    · rintro (rfl | ⟨hc, hk⟩)
      · obtain ⟨hc0, hk⟩ := (find_changed_iff hd).mp hfind
        refine ⟨c0, hc0, ?_⟩
        rw [if_pos hk, ← hk]
        rfl
      · exact ⟨c, hc, (if_neg hk).symm⟩

theorem renewed_of_add (hadd : Add_to_changed_states now sender k.1 k.2 d₁ = some d')
    (hd : Distinct d.Changed_States) (hsame : Same_Neighbors d d₁)
    (hstamp : ∀ k', d₁.stamp k' = if k' = k then some v else d.stamp k')
    (hnewer : ∀ v0 ∈ d.stamp k, v0 < v) (hchanges : d₁.Changed_States = d.Changed_States)
    (hqueued : d₁.queued = d.queued) :
    ∃ mask, first_mask d₁ sender = some mask ∧ Renewed d d' k v mask := by
  obtain ⟨hstored, hsame'⟩ := add_to_changed_states_stored hadd
  have hstamp' : ∀ k', d'.stamp k' = if k' = k then some v else d.stamp k' := by
    intro k'
    rw [← hstamp, Daemon.stamp, hstored]
    rfl
  unfold Add_to_changed_states at hadd
  obtain ⟨s_data, -, hadd⟩ := bind_eq_some_iff.mp hadd
  obtain ⟨mask, hmask, hadd⟩ := bind_eq_some_iff.mp hadd
  refine ⟨mask, hmask, ?_⟩
  rw [hchanges, hqueued] at hadd
  cases hfind : Find_Changed_State d.Changed_States k.1 k.2 with
  | none =>
    obtain ⟨hdistinct, hmem⟩ := renewed_none mask hd hfind
    rw [hfind] at hadd
    obtain rfl := some.inj hadd
    exact ⟨hsame.trans hsame', hstamp', hnewer, hdistinct, hmem, rfl⟩
  | some c0 =>
    obtain ⟨hdistinct, hmem⟩ := renewed_some mask hd hfind
    rw [hfind] at hadd
    obtain rfl := some.inj hadd
    exact ⟨hsame.trans hsame', hstamp', hnewer, hdistinct, hmem, rfl⟩

theorem first_mask_spec (hmask : first_mask d sender = some mask) {i : ℕ} {n : Node_ID}
    (hslot : d.Neighbor_Nodes[i]? = some (some n)) (hi : mask i) : n = sender := by
  unfold first_mask at hmask
  split at hmask
  · obtain rfl := some.inj hmask
    cases hi
  · split at hmask
    · obtain ⟨id, hid, rfl⟩ := map_eq_some_iff.mp hmask
      obtain rfl : i = id := by simpa using hi
      obtain ⟨hlt, hget, -⟩ := List.idxOf?_eq_some_iff.mp hid
      rw [List.getElem?_eq_getElem hlt, hget] at hslot
      exact (some.inj (some.inj hslot)).symm
    · cases hmask

theorem stamp_of_put {s_data : State_Data p}
    (htable : d₁.All_States = d.All_States.put k.1 k.2 s_data) (k' : Key) :
    d₁.stamp k' = if k' = k then some s_data.version.stamp else d.stamp k' := by
  unfold Daemon.stamp Daemon.stored
  rw [htable, find_put]
  by_cases hk : k' = k
  · simp [hk]
  · rw [if_neg hk, if_neg (by rwa [← Prod.ext_iff])]

theorem bump_newer {s : State_Data p} {v : Version p} (hsec : v.timestamp_sec = s.timestamp_sec)
    (husec : v.timestamp_usec = s.timestamp_usec) :
    v.stamp < toLex (s.bump.timestamp_sec, s.bump.timestamp_usec) := by
  unfold Version.stamp State_Data.bump
  rw [hsec, husec]
  split
  · apply Prod.Lex.toLex_lt_toLex.mpr
    exact .inl (Int.lt_succ s.timestamp_sec)
  · apply Prod.Lex.toLex_lt_toLex.mpr
    exact .inr ⟨rfl, Int.lt_succ s.timestamp_usec⟩

theorem process_own_cell (hd : Distinct d.Changed_States) (hsrc : source = d.My_Address)
    (hnewer : ∀ v0 ∈ d.stamp (source, cell.dest), v0 < cell.version.stamp) {propagate : Bool}
    (hrun : Process_state_cell now d source cell = some (d', propagate)) :
    propagate = false ∧ ∃ v, Renewed d d' (source, cell.dest) v fun _ => false := by
  subst hsrc
  -- the state goes into the table with the stamp after that of the cell
  have hpublish : ∀ (d₁ d2 : Daemon p) (s_data : State_Data p),
      Add_to_changed_states now d.My_Address d.My_Address cell.dest d₁ = some d2 →
      Same_Neighbors d d₁ → d₁.All_States = d.All_States.put d.My_Address cell.dest s_data →
      cell.version.stamp < s_data.version.stamp → d₁.Changed_States = d.Changed_States →
      d₁.queued = d.queued →
      ∃ v, Renewed d d2 (d.My_Address, cell.dest) v fun _ => false := by
    intro d₁ d2 s_data hadd hsame htable hbump hchanges hqueued
    obtain ⟨mask, hmask, hrenewed⟩ := renewed_of_add (k := (d.My_Address, cell.dest)) hadd hd
      hsame (stamp_of_put (k := (d.My_Address, cell.dest)) htable)
      (fun v0 hv0 => (hnewer v0 hv0).trans hbump) hchanges hqueued
    rw [first_mask, if_pos hsame.address.symm] at hmask
    obtain rfl := some.inj hmask
    exact ⟨_, hrenewed⟩
  cases p with
  | Edge_Prot_Def =>
    simp only [Process_state_cell, Edge_Process_state_cell, ne_eq, not_true_eq_false,
      if_false] at hrun
    obtain ⟨d2, hadd, hrun⟩ := bind_eq_some_iff.mp hrun
    obtain ⟨rfl, rfl⟩ := Prod.mk.inj (some.inj hrun)
    refine ⟨rfl, hpublish _ _ _ hadd ⟨rfl, rfl, rfl⟩ rfl ?_ rfl rfl⟩
    exact bump_newer rfl rfl
  | Groups_Prot_Def =>
    simp only [Process_state_cell, Groups_Process_state_cell, ne_eq, not_true_eq_false,
      if_false] at hrun
    obtain ⟨d2, hadd, hrun⟩ := bind_eq_some_iff.mp hrun
    obtain ⟨rfl, rfl⟩ := Prod.mk.inj (some.inj hrun)
    refine ⟨rfl, hpublish _ _ _ hadd ⟨rfl, rfl, rfl⟩ rfl ?_ rfl rfl⟩
    exact bump_newer rfl rfl

theorem process_cell_cases (hd : Distinct d.Changed_States)
    (hrun : process_cell now sender source (d, flag) cell = some (d', flag')) :
    (∃ v mask, Renewed d d' (source, cell.dest) v mask ∧
        ∀ (i : ℕ) (n : Node_ID), d.Neighbor_Nodes[i]? = some (some n) → mask i → n = sender ∧ v = cell.version.stamp) ∨
      (∃ id, d.neighbor_id sender = some id ∧ d.stamp (source, cell.dest) = some cell.version.stamp ∧
        d' = { d with Changed_States := set_bit d.Changed_States id (source, cell.dest) }) ∨
      d' = d := by
  unfold process_cell at hrun
  dsimp only at hrun
  split at hrun
  · rename_i hnewer
    have hnewer' : ∀ v0 ∈ d.stamp (source, cell.dest), v0 < cell.version.stamp := by
      intro v0 hv0
      unfold Daemon.stamp Daemon.stored at hv0
      cases hfind : Find_State d.All_States source cell.dest with
      | none => simp [hfind] at hv0
      | some s_data =>
        rw [hfind, all_some, older_iff] at hnewer
        simp only [hfind, map_some, mem_def, Option.some.injEq] at hv0
        exact hv0 ▸ hnewer
    apply Or.inl
    by_cases hsrc : source = d.My_Address
    · obtain ⟨⟨d₁, propagate⟩, hcell, hrun⟩ := bind_eq_some_iff.mp hrun
      obtain ⟨rfl, v, hrenewed⟩ := process_own_cell hd hsrc hnewer' hcell
      obtain ⟨rfl, -⟩ := Prod.mk.inj (some.inj hrun)
      exact ⟨v, _, hrenewed, by simp⟩
    · obtain ⟨d₁, s1, hcell, hsame, htable, hversion, hchanges, hqueued⟩ :=
        process_state_cell_spec now hsrc cell
      rw [hcell, bind_eq_bind, bind_some] at hrun
      simp only [if_true] at hrun
      obtain ⟨d2, hadd, hrun⟩ := bind_eq_some_iff.mp hrun
      obtain ⟨rfl, -⟩ := Prod.mk.inj (some.inj hrun)
      have hstamp := stamp_of_put (k := (source, cell.dest)) htable
      rw [hversion] at hstamp
      obtain ⟨mask, hmask, hrenewed⟩ :=
        renewed_of_add (k := (source, cell.dest)) hadd hd hsame hstamp hnewer' hchanges hqueued
      refine ⟨_, mask, hrenewed, ?_⟩
      intro i n hslot hi
      rw [← hsame.neighbors] at hslot
      exact ⟨first_mask_spec hmask hslot hi, rfl⟩
  · apply Or.inr
    split at hrun
    · rename_i hknown
      split at hrun
      · obtain ⟨rfl, -⟩ := Prod.mk.inj (some.inj hrun)
        exact .inr rfl
      · obtain ⟨id, hid, hrun⟩ := bind_eq_some_iff.mp hrun
        obtain ⟨rfl, -⟩ := Prod.mk.inj (some.inj hrun)
        refine .inl ⟨id, hid, ?_, rfl⟩
        unfold Daemon.stamp Daemon.stored
        cases hfind : Find_State d.All_States source cell.dest with
        | none => simp [hfind] at hknown
        | some s_data =>
          rw [hfind] at hknown
          simp only [any_some, decide_eq_true_eq] at hknown
          simp [Version.stamp, State_Data.version, State_Cell.version, hknown]
    · obtain ⟨rfl, -⟩ := Prod.mk.inj (some.inj hrun)
      exact .inr rfl

end Renewed

/-! ## 4. What the bits mean -/

section Invariant

variable {p : Prot_Def} {f f' : Flood p} {d' : Daemon p} {k : Key} {v : Stamp} {n nd : Node_ID}
  {e : Entry} {i : ℕ} {slots : List (Option Node_ID)}

/-- What holds between the events; `unsent` and `past` are why nothing is sent twice. -/
structure Flood.Inv (f : Flood p) : Prop where
  distinct : Distinct f.d.Changed_States
  known : ∀ c ∈ f.d.Changed_States, ∃ v, f.d.stamp c.key = some v ∧ .made c.key v ∈ f.log
  slots : ∀ (i j : ℕ) (n : Node_ID), f.d.Neighbor_Nodes[i]? = some (some n) →
    f.d.Neighbor_Nodes[j]? = some (some n) → i = j
  connected : ∀ n, f.d.connected n → some n ∈ f.d.Neighbor_Nodes
  heard : ∀ c ∈ f.d.Changed_States, ∀ (i : ℕ) (n : Node_ID) (v : Stamp), f.d.Neighbor_Nodes[i]? = some (some n) → c.mask i →
    f.d.stamp c.key = some v → Heard n c.key v f.log ∨ Joined_After n c.key v f.log
  /-- who has none has not been sent the version -/
  unsent : ∀ c ∈ f.d.Changed_States, ∀ (i : ℕ) (n : Node_ID) (v : Stamp), f.d.Neighbor_Nodes[i]? = some (some n) →
    c.mask i = false → f.d.stamp c.key = some v → .sent n c.key v ∉ Since n f.log
  past : ∀ n k v, .sent n k v ∈ f.log → ∃ v' ∈ f.d.stamp k, v ≤ v'
  once : Once f.log
  synced : ∀ n, f.d.connected n → n ∈ f.syncs ∨ .synced n ∈ Since n f.log

theorem Flood.Start.inv (h : f.Start) : f.Inv where
  distinct := by simp [Distinct, h.changes]
  known := by simp [h.changes]
  slots := by simp [h.slots]
  connected := by simp [h.disconnected]
  heard := by simp [h.changes]
  unsent := by simp [h.changes]
  past := by simp [h.log]
  once := by simp [h.log, Once]
  synced := by simp [h.disconnected]

theorem Flood.Inv.note (h : f.Inv) (he : e.Quiet) : Flood.Inv { f with log := e :: f.log } where
  distinct := h.distinct
  known := by
    intro c hc
    obtain ⟨v, hv, hmade⟩ := h.known c hc
    exact ⟨v, hv, mem_cons_of_mem _ hmade⟩
  slots := h.slots
  connected := h.connected
  heard := by
    intro c hc i n v hslot hmask hv
    exact (h.heard c hc i n v hslot hmask hv).imp (·.cons e) (·.cons e)
  unsent := by
    intro c hc i n v hslot hmask hv hsent
    rw [since_cons he.joins] at hsent
    rcases mem_cons.mp hsent with heq | hsent
    · exact he.ne_sent heq.symm
    · exact h.unsent c hc i n v hslot hmask hv hsent
  past := by
    intro n k v hsent
    rcases mem_cons.mp hsent with heq | hsent
    · exact absurd heq.symm he.ne_sent
    · exact h.past n k v hsent
  once := he.once.mpr h.once
  synced := by
    intro n hn
    rw [since_cons he.joins]
    exact (h.synced n hn).imp_right (mem_cons_of_mem e)

theorem Flood.Inv.renewed (h : f.Inv) {mask : ℕ → Bool} (hr : Renewed f.d d' k v mask)
    (hmade : .made k v ∈ f.log)
    (hmask : ∀ (i : ℕ) (n : Node_ID), f.d.Neighbor_Nodes[i]? = some (some n) → mask i → Heard n k v f.log) :
    Flood.Inv { f with d := d' } := by
  have hold : ∀ c ∈ f.d.Changed_States, c.key ≠ k → d'.stamp c.key = f.d.stamp c.key := by
    intro c _ hk
    rw [hr.stamp, if_neg hk]
  constructor
  · exact hr.distinct
  · intro c hc
    rcases (hr.changes c).mp hc with rfl | ⟨hc, hk⟩
    · exact ⟨v, (hr.stamp k).trans (if_pos rfl), hmade⟩
    · rw [show ({ f with d := d' } : Flood p).d.stamp c.key = f.d.stamp c.key from hold c hc hk]
      exact h.known c hc
  · rw [hr.same.neighbors]
    exact h.slots
  · intro n hn
    rw [hr.same.neighbors]
    apply h.connected
    unfold Daemon.connected at hn ⊢
    rwa [← hr.same.leg_cost]
  · intro c hc i n v' hslot hi hv'
    rw [hr.same.neighbors] at hslot
    rcases (hr.changes c).mp hc with rfl | ⟨hc, hk⟩
    · have hv : some v = some v' := ((hr.stamp k).trans (if_pos rfl)).symm.trans hv'
      obtain rfl := some.inj hv
      exact .inl (hmask i n hslot hi)
    · exact h.heard c hc i n v' hslot hi ((hold c hc hk).symm.trans hv')
  · intro c hc i n v' hslot hi hv' hsent
    rw [hr.same.neighbors] at hslot
    rcases (hr.changes c).mp hc with rfl | ⟨hc, hk⟩
    · -- all that has been sent of this key is older
      have hv : some v = some v' := ((hr.stamp k).trans (if_pos rfl)).symm.trans hv'
      obtain rfl := some.inj hv
      obtain ⟨v0, hv0, hle⟩ := h.past n k v (mem_of_mem_since hsent)
      exact absurd (hr.newer v0 hv0) (not_lt.mpr hle)
    · exact h.unsent c hc i n v' hslot hi ((hold c hc hk).symm.trans hv') hsent
  · intro n k' v' hsent
    obtain ⟨v0, hv0, hle⟩ := h.past n k' v' hsent
    by_cases hk : k' = k
    · subst hk
      exact ⟨v, (hr.stamp k').trans (if_pos rfl), hle.trans (hr.newer v0 hv0).le⟩
    · exact ⟨v0, ((hr.stamp k').trans (if_neg hk)).trans hv0, hle⟩
  · exact h.once
  · intro n hn
    apply h.synced
    unfold Daemon.connected at hn ⊢
    rwa [← hr.same.leg_cost]

theorem mem_set_bit {changes : List Changed_State} {c : Changed_State}
    (hc : c ∈ set_bit changes i k) : ∃ c0 ∈ changes, c.key = c0.key ∧
      ∀ j, c.mask j = (c0.mask j || (decide (c0.key = k) && j == i)) := by
  obtain ⟨c0, hc0, rfl⟩ := mem_set_mask.mp hc
  refine ⟨c0, hc0, ?_, ?_⟩
  · split <;> rfl
  · intro j
    by_cases hk : c0.key = k
    · simp [hk]
    · simp [hk]

theorem set_bit_keys (changes : List Changed_State) (i : ℕ) (k : Key) :
    (set_bit changes i k).map Changed_State.key = changes.map Changed_State.key :=
  set_mask_keys changes k _

theorem set_bit_distinct {changes : List Changed_State} (h : Distinct changes) :
    Distinct (set_bit changes i k) := by
  rw [Distinct, set_bit_keys]
  exact h

theorem Flood.Inv.know (h : f.Inv) (hslot : f.d.Neighbor_Nodes[i]? = some (some nd))
    (hstamp : f.d.stamp k = some v) (hheard : Heard nd k v f.log) :
    Flood.Inv { f with d := { f.d with Changed_States := set_bit f.d.Changed_States i k } } where
  distinct := set_bit_distinct h.distinct
  known := by
    intro c hc
    obtain ⟨c0, hc0, hkey, -⟩ := mem_set_bit hc
    rw [hkey]
    exact h.known c0 hc0
  slots := h.slots
  connected := h.connected
  heard := by
    intro c hc j n v' hslot' hj hv'
    obtain ⟨c0, hc0, hkey, hmask⟩ := mem_set_bit hc
    rw [hkey] at hv' ⊢
    rw [hmask, Bool.or_eq_true] at hj
    rcases hj with hj | hj
    · exact h.heard c0 hc0 j n v' hslot' hj hv'
    · obtain ⟨rfl, rfl⟩ : c0.key = k ∧ j = i := by simpa using hj
      obtain rfl : nd = n := some.inj (some.inj (hslot.symm.trans hslot'))
      obtain rfl : v = v' := some.inj (hstamp.symm.trans hv')
      exact .inl hheard
  unsent := by
    intro c hc j n v' hslot' hj hv'
    obtain ⟨c0, hc0, hkey, hmask⟩ := mem_set_bit hc
    rw [hkey] at hv' ⊢
    rw [hmask, Bool.or_eq_false_iff] at hj
    exact h.unsent c0 hc0 j n v' hslot' hj.1 hv'
  past := h.past
  once := h.once
  synced := h.synced

theorem Flood.Inv.send (h : f.Inv) (hslot : f.d.Neighbor_Nodes[i]? = some (some nd))
    (hstamp : f.d.stamp k = some v) (hneed : needs f.d.Changed_States i k) :
    Flood.Inv { f with
      d := { f.d with Changed_States := set_bit f.d.Changed_States i k }
      log := .sent nd k v :: f.log } := by
  obtain ⟨c, hc, hkey, hbit⟩ := (needs_iff h.distinct).mp hneed
  have hfresh : .sent nd k v ∉ Since nd f.log :=
    hkey ▸ h.unsent c hc i nd v hslot hbit (hkey.symm ▸ hstamp)
  constructor
  · exact set_bit_distinct h.distinct
  · intro c hc
    obtain ⟨c0, hc0, hkey, -⟩ := mem_set_bit hc
    obtain ⟨v', hv', hmade⟩ := h.known c0 hc0
    rw [hkey]
    exact ⟨v', hv', mem_cons_of_mem _ hmade⟩
  · exact h.slots
  · exact h.connected
  · intro c hc j n v' hslot' hj hv'
    obtain ⟨c0, hc0, hkey, hmask⟩ := mem_set_bit hc
    rw [hkey] at hv' ⊢
    rw [hmask, Bool.or_eq_true] at hj
    rcases hj with hj | hj
    · exact (h.heard c0 hc0 j n v' hslot' hj hv').imp (·.cons _) (·.cons _)
    · obtain ⟨rfl, rfl⟩ : c0.key = k ∧ j = i := by simpa using hj
      obtain rfl : nd = n := some.inj (some.inj (hslot.symm.trans hslot'))
      obtain rfl : v = v' := some.inj (hstamp.symm.trans hv')
      exact .inl (.inr mem_cons_self)
  · intro c hc j n v' hslot' hj hv' hsent
    obtain ⟨c0, hc0, hkey, hmask⟩ := mem_set_bit hc
    rw [hkey] at hv' hsent
    rw [hmask, Bool.or_eq_false_iff] at hj
    rw [since_cons rfl] at hsent
    rcases mem_cons.mp hsent with heq | hsent
    · -- the bit for what has just been sent is set
      obtain ⟨rfl, rfl, rfl⟩ : n = nd ∧ c0.key = k ∧ v' = v := by simpa using heq
      obtain rfl := h.slots i j n hslot hslot'
      simp at hj
    · exact h.unsent c0 hc0 j n v' hslot' hj.1 hv' hsent
  · intro n k' v' hsent
    rcases mem_cons.mp hsent with heq | hsent
    · obtain ⟨rfl, rfl, rfl⟩ : n = nd ∧ k' = k ∧ v' = v := by simpa using heq
      exact ⟨v', hstamp, le_rfl⟩
    · exact h.past n k' v' hsent
  · exact ⟨hfresh, h.once⟩
  · intro n hn
    rw [since_cons rfl]
    exact (h.synced n hn).imp_right (mem_cons_of_mem _)

theorem Flood.Inv.join (h : f.Inv) (hnew : f.d.connected nd = false)
    (hslots : ∀ (j : ℕ) (n : Node_ID), slots[j]? = some (some n) → f.d.Neighbor_Nodes[j]? = some (some n) ∨ (j = i ∧ n = nd))
    (hnone : some nd ∉ f.d.Neighbor_Nodes) (hkeep : ∀ n, some n ∈ f.d.Neighbor_Nodes → some n ∈ slots) :
    Flood.Inv { f with
      d := { f.d with Neighbor_Nodes := slots }
      log := .joined nd :: f.log } := by
  have hold : ∀ (j : ℕ) (n : Node_ID), n ≠ nd → slots[j]? = some (some n) → f.d.Neighbor_Nodes[j]? = some (some n) := by
    intro j n hn hj
    exact (hslots j n hj).resolve_right fun hj => hn hj.2
  have hother : ∀ n, n ≠ nd → Since n (.joined nd :: f.log) = .joined nd :: Since n f.log := by
    intro n hn
    apply since_cons
    simpa [Entry.joins] using hn.symm
  constructor
  · exact h.distinct
  · intro c hc
    obtain ⟨v, hv, hmade⟩ := h.known c hc
    exact ⟨v, hv, mem_cons_of_mem _ hmade⟩
  · intro j j' n hj hj'
    by_cases hn : n = nd
    · subst hn
      have hplace : ∀ j : ℕ, slots[j]? = some (some n) → j = i := by
        intro j hj
        rcases hslots j n hj with hj | hj
        · exact absurd (mem_of_getElem? hj) hnone
        · exact hj.1
      exact (hplace j hj).trans (hplace j' hj').symm
    · exact h.slots j j' n (hold j n hn hj) (hold j' n hn hj')
  · exact fun n hn => hkeep n (h.connected n hn)
  · intro c hc j n v hj hmask hv
    by_cases hn : n = nd
    · subst hn
      obtain ⟨v', hv', hmade⟩ := h.known c hc
      obtain rfl : v' = v := some.inj (hv'.symm.trans hv)
      exact .inr ⟨[], f.log, rfl, hmade⟩
    · exact (h.heard c hc j n v (hold j n hn hj) hmask hv).imp (·.cons _) (·.cons _)
  · intro c hc j n v hj hmask hv hsent
    by_cases hn : n = nd
    · subst hn
      simp at hsent
    · rw [hother n hn] at hsent
      rcases mem_cons.mp hsent with heq | hsent
      · cases heq
      · exact h.unsent c hc j n v (hold j n hn hj) hmask hv hsent
  · intro n k v hsent
    rcases mem_cons.mp hsent with heq | hsent
    · cases heq
    · exact h.past n k v hsent
  · exact h.once
  · intro n hn
    have hne : n ≠ nd := by
      rintro rfl
      exact absurd (hn.symm.trans hnew) (by simp)
    rw [hother n hne]
    exact (h.synced n hn).imp_right (mem_cons_of_mem _)

end Invariant

/-! ## 5. The events -/

section Events

variable {p : Prot_Def} {f f' f'' : Flood p} {d' : Daemon p} {k : Key} {v : Stamp}
  {n nd : Node_ID} {u : Update p} {mask : ℕ → Bool}

def Flood.Queued (f : Flood p) : Prop := f.d.Changed_States ≠ [] → f.d.queued

def Flood.Kept (f f' : Flood p) : Prop :=
  ∀ c ∈ f.d.Changed_States, ∃ c' ∈ f'.d.Changed_States, c'.key = c.key

structure Flood.Carried (f f' : Flood p) : Prop where
  inv : f'.Inv
  queued : f.Queued → f'.Queued
  kept : f.Kept f'

theorem Flood.Carried.trans (h : f.Carried f') (h' : f'.Carried f'') : f.Carried f'' := by
  refine ⟨h'.inv, fun hq => h'.queued (h.queued hq), ?_⟩
  intro c hc
  obtain ⟨c', hc', hkey⟩ := h.kept c hc
  obtain ⟨c'', hc'', hkey'⟩ := h'.kept c' hc'
  exact ⟨c'', hc'', hkey'.trans hkey⟩

theorem Flood.Carried.same (h : f'.Inv) (hchanges : f'.d.Changed_States = f.d.Changed_States)
    (hqueued : f'.d.queued = f.d.queued) : f.Carried f' := by
  refine ⟨h, ?_, ?_⟩
  · unfold Flood.Queued
    rw [hchanges, hqueued]
    exact id
  · intro c hc
    exact ⟨c, hchanges ▸ hc, rfl⟩

theorem Renewed.made_by {d : Daemon p} (h : Renewed d d' k v mask) :
    made_by d d' k = [.made k v] := by
  unfold StateFlood.made_by
  rw [h.stamp, if_pos rfl]
  dsimp only
  rw [if_neg]
  intro hv
  exact lt_irrefl v (h.newer v hv)

theorem made_by_same {d : Daemon p} (h : d'.stamp k = d.stamp k) : made_by d d' k = [] := by
  unfold made_by
  rw [h]
  cases d.stamp k with
  | none => rfl
  | some v => simp

theorem Flood.Inv.renew (h : f.Inv) (hr : Renewed f.d d' k v mask)
    (hmask : ∀ (i : ℕ) (n : Node_ID), f.d.Neighbor_Nodes[i]? = some (some n) → mask i →
      Heard n k v f.log) : f.Carried { f with d := d', log := made_by f.d d' k ++ f.log } := by
  rw [hr.made_by]
  have hmade : Flood.Inv { f with log := .made k v :: f.log } := h.note trivial
  constructor
  · apply hmade.renewed hr mem_cons_self
    intro i n hslot hi
    exact (hmask i n hslot hi).cons _
  · intro hq _
    change d'.queued = true
    rw [hr.queued]
    cases hchanges : f.d.Changed_States with
    | nil => exact Bool.or_true _
    | cons c cs => rw [hq (by simp [hchanges]), Bool.true_or]
  · intro c hc
    by_cases hk : c.key = k
    · exact ⟨⟨k.1, k.2, mask⟩, (hr.changes _).mpr (.inl rfl), hk.symm⟩
    · exact ⟨c, (hr.changes c).mpr (.inr ⟨hc, hk⟩), rfl⟩

theorem cell_carried (h : f.Inv) (hcell : f.cell u = some f') : f.Carried f' := by
  obtain ⟨d', happly, hcell⟩ := bind_eq_some_iff.mp hcell
  obtain rfl := some.inj hcell
  obtain ⟨⟨d₁, flag⟩, hrun, rfl⟩ := map_eq_some_iff.mp happly
  have htold : Flood.Inv { f with
      log := .told u.sender (u.source, u.cell.dest) u.cell.version.stamp :: f.log } := h.note trivial
  have hfirst : f.Carried { f with
      log := .told u.sender (u.source, u.cell.dest) u.cell.version.stamp :: f.log } :=
    .same htold rfl rfl
  rcases process_cell_cases h.distinct hrun with ⟨v, mask, hr, hmask⟩ | ⟨id, hid, hv, hd1⟩ | rfl
  · apply hfirst.trans
    apply htold.renew hr
    intro i n hslot hi
    obtain ⟨rfl, rfl⟩ := hmask i n hslot hi
    exact .inl mem_cons_self
  · -- the sender knows the version already
    have hslot : f.d.Neighbor_Nodes[id]? = some (some u.sender) := by
      obtain ⟨hlt, hget, -⟩ := List.idxOf?_eq_some_iff.mp hid
      rw [List.getElem?_eq_getElem hlt, hget]
    have hsame : d₁.stamp (u.source, u.cell.dest) = f.d.stamp (u.source, u.cell.dest) := by
      rw [hd1]
      rfl
    rw [made_by_same hsame, hd1]
    refine ⟨htold.know hslot hv (.inl mem_cons_self), ?_, ?_⟩
    · intro hq hne
      apply hq
      intro hnil
      apply hne
      simp [hnil, set_bit, set_mask]
    · intro c hc
      obtain ⟨c', hc', hkey⟩ := List.mem_map.mp (set_bit_keys f.d.Changed_States id _ ▸
        List.mem_map_of_mem hc)
      exact ⟨c', hc', hkey⟩
  · rw [made_by_same rfl]
    exact hfirst

theorem packet_carried (h : f.Inv) {us : List (Update p)} (hrun : us.foldlM Flood.cell f = some f') :
    f.Carried f' := by
  induction us generalizing f with
  | nil =>
    obtain rfl : f = f' := by simpa using hrun
    exact .same h rfl rfl
  | cons u us ih =>
    rw [foldlM_cons] at hrun
    obtain ⟨f1, hcell, hrun⟩ := bind_eq_some_iff.mp hrun
    have hfirst := cell_carried h hcell
    exact hfirst.trans (ih hfirst.inv hrun)

theorem publish_carried (h : f.Inv) {now : sp_time} {dest : Spines_ID} {value : Int} {lts : p.Lts}
    (hrun : f.publish now dest value lts = some f') : f.Carried f' := by
  obtain ⟨d', hpublish, hrun⟩ := bind_eq_some_iff.mp hrun
  obtain rfl := some.inj hrun
  unfold StateFlood.publish at hpublish
  have hnewer : ∀ v0 ∈ f.d.stamp (f.d.My_Address, dest), v0 <
      toLex (((Find_State f.d.All_States f.d.My_Address dest).getD
        (fresh_state now true 0 lts)).bump.timestamp_sec,
        ((Find_State f.d.All_States f.d.My_Address dest).getD
        (fresh_state now true 0 lts)).bump.timestamp_usec) := by
    intro v0 hv0
    unfold Daemon.stamp Daemon.stored at hv0
    cases hfind : Find_State f.d.All_States f.d.My_Address dest with
    | none => simp [hfind] at hv0
    | some s_data =>
      simp only [hfind, map_some, mem_def, Option.some.injEq] at hv0
      rw [← hv0]
      exact bump_newer rfl rfl
  obtain ⟨mask, hmask, hr⟩ := renewed_of_add (k := (f.d.My_Address, dest)) hpublish h.distinct
    ⟨rfl, rfl, rfl⟩ (stamp_of_put (k := (f.d.My_Address, dest)) rfl) hnewer rfl rfl
  apply h.renew hr
  -- nobody else knows it yet
  intro i n _ hi
  rw [first_mask, if_pos rfl] at hmask
  obtain rfl := some.inj hmask
  cases hi

/-! ### Links -/

variable {slots : List (Option Node_ID)}

theorem get_free_slot {i : ℕ}
    (hi : (free_slot slots nd)[i]? = some (some n)) : slots[i]? = some (some n) := by
  have hmap := getElem?_of_prefix (List.rdropWhile_prefix _ _) hi
  rw [List.getElem?_map] at hmap
  obtain ⟨s, hs, heq⟩ := map_eq_some_iff.mp hmap
  split at heq
  · cases heq
  · rw [hs, heq]

theorem mem_rdropWhile_isNone (hn : some n ∈ slots) : some n ∈ slots.rdropWhile Option.isNone := by
  induction slots using List.reverseRecOn with
  | nil => exact hn
  | append_singleton slots s ih =>
    rw [rdropWhile_concat]
    cases s with
    | none => exact ih (by simpa using hn)
    | some m => exact hn

theorem mem_free_slot (hn : some n ∈ slots) (hne : n ≠ nd) : some n ∈ free_slot slots nd := by
  apply mem_rdropWhile_isNone
  rw [List.mem_map]
  exact ⟨some n, hn, if_neg (by simpa using hne)⟩

theorem Flood.Inv.relink (h : f.Inv) {slots : List (Option Node_ID)} {leg_cost : Node_ID → Int}
    {syncs : List Node_ID} (hslots : ∀ (i : ℕ) (n : Node_ID), slots[i]? = some (some n) →
      f.d.Neighbor_Nodes[i]? = some (some n))
    (hconnected : ∀ n, leg_cost n ≠ -1 → some n ∈ slots ∧ (n ∈ syncs ∨ .synced n ∈ Since n f.log)) :
    f.Carried { f with
      d := { f.d with Neighbor_Nodes := slots, leg_cost := leg_cost }
      syncs := syncs } := by
  refine Flood.Carried.same ?_ rfl rfl
  have hcost : ∀ n, ({ f.d with Neighbor_Nodes := slots, leg_cost := leg_cost } :
      Daemon p).connected n → leg_cost n ≠ -1 := by
    intro n hn
    simpa [Daemon.connected] using hn
  constructor
  · exact h.distinct
  · exact h.known
  · exact fun i j n hi hj => h.slots i j n (hslots i n hi) (hslots j n hj)
  · exact fun n hn => (hconnected n (hcost n hn)).1
  · exact fun c hc i n v hslot => h.heard c hc i n v (hslots i n hslot)
  · exact fun c hc i n v hslot => h.unsent c hc i n v (hslots i n hslot)
  · exact h.past
  · exact h.once
  · exact fun n hn => (hconnected n (hcost n hn)).2

theorem set_leg_cost_carried (h : f.Inv) {new_leg_cost : Int}
    (hslot : f.d.leg_cost nd = -1 → some nd ∈ f.d.Neighbor_Nodes) :
    f.Carried (f.set_leg_cost nd new_leg_cost) := by
  -- the other neighbors keep what they have
  have hother : ∀ n, f.d.leg_cost n ≠ -1 →
      some n ∈ f.d.Neighbor_Nodes ∧ (n ∈ f.syncs ∨ .synced n ∈ Since n f.log) := by
    intro n hn
    have hn' : f.d.connected n := by simpa [Daemon.connected] using hn
    exact ⟨h.connected n hn', h.synced n hn'⟩
  unfold Flood.set_leg_cost
  dsimp only
  split
  · rename_i hold
    apply h.relink (fun _ _ hi => hi)
    intro n hn
    by_cases hnd : n = nd
    · subst hnd
      exact ⟨hslot hold, .inl mem_cons_self⟩
    · rw [if_neg hnd] at hn
      exact ⟨(hother n hn).1, (hother n hn).2.imp_left (mem_cons_of_mem nd)⟩
  · rename_i hold
    split
    · rename_i hnew
      apply h.relink (fun _ _ hi => get_free_slot hi)
      intro n hn
      have hnd : n ≠ nd := by
        rintro rfl
        exact hn ((if_pos rfl).trans hnew)
      rw [if_neg hnd] at hn
      refine ⟨mem_free_slot (hother n hn).1 hnd, (hother n hn).2.imp_left ?_⟩
      intro hsync
      exact mem_filter.mpr ⟨hsync, by simpa using hnd⟩
    · apply h.relink (fun _ _ hi => hi)
      intro n hn
      by_cases hnd : n = nd
      · exact hother n (hnd ▸ hold)
      · rw [if_neg hnd] at hn
        exact hother n hn

theorem leg_cost_carried (h : f.Inv) {now : sp_time} {new_leg_cost : Int}
    (hrun : Network_Leg_Set_Cost f now nd new_leg_cost = some f') : f.Carried f' := by
  unfold Network_Leg_Set_Cost at hrun
  split at hrun
  · obtain rfl := some.inj hrun
    exact .same h rfl rfl
  split at hrun
  · cases hrun
  rename_i hslot
  have hset : f.Carried (f.set_leg_cost nd new_leg_cost) :=
    set_leg_cost_carried h fun hold => by_contra fun hnone => hslot ⟨hold, hnone⟩
  cases p with
  | Edge_Prot_Def =>
    have hinv := hset.inv
    have hlts : (f.set_leg_cost nd new_leg_cost).Carried
        { f.set_leg_cost nd new_leg_cost with
          d := { (f.set_leg_cost nd new_leg_cost).d with
            Link_State_Update_LTS := (f.set_leg_cost nd new_leg_cost).d.Link_State_Update_LTS + 1 } } :=
      .same ⟨hinv.distinct, hinv.known, hinv.slots, hinv.connected, hinv.heard, hinv.unsent,
        hinv.past, hinv.once, hinv.synced⟩ rfl rfl
    exact (hset.trans hlts).trans (publish_carried hlts.inv hrun)
  | Groups_Prot_Def =>
    obtain rfl := some.inj hrun
    exact hset

theorem link_carried (h : f.Inv) (hrun : Create_Link f nd = some f') : f.Carried f' := by
  unfold Create_Link at hrun
  split at hrun
  · cases hrun
  rename_i hnew
  split at hrun
  · obtain rfl := some.inj hrun
    exact .same h rfl rfl
  rename_i hnone
  dsimp only at hrun
  split at hrun
  · rename_i i hi
    obtain rfl := some.inj hrun
    obtain ⟨hlt, hempty, -⟩ := List.idxOf?_eq_some_iff.mp hi
    refine .same (h.join (i := i) (by simpa using hnew) ?_ hnone ?_) rfl rfl
    · intro j n hj
      rw [List.getElem?_set] at hj
      split at hj
      · rename_i hij
        exact .inr ⟨hij.symm, (some.inj (some.inj hj)).symm⟩
      · exact .inl hj
    · intro n hn
      obtain ⟨j, hj⟩ := mem_iff_getElem?.mp hn
      apply mem_iff_getElem?.mpr
      refine ⟨j, ?_⟩
      rw [List.getElem?_set_ne, hj]
      rintro rfl
      rw [List.getElem?_eq_getElem hlt, hempty] at hj
      cases hj
  · split at hrun
    · cases hrun
    · obtain rfl := some.inj hrun
      refine .same (h.join (i := f.d.Neighbor_Nodes.length) (by simpa using hnew) ?_ hnone ?_)
        rfl rfl
      · intro j n hj
        rw [List.getElem?_append] at hj
        split at hj
        · exact .inl hj
        · rename_i hlt
          rw [List.getElem?_singleton] at hj
          split at hj
          · refine .inr ⟨by omega, ?_⟩
            exact (some.inj (some.inj hj)).symm
          · cases hj
      · exact fun n hn => mem_append_left _ hn

theorem sync_carried (h : f.Inv) : f.Carried
    { f with syncs := f.syncs.filter (· ≠ n), log := .synced n :: f.log } := by
  have hnote : Flood.Inv { f with log := .synced n :: f.log } := h.note trivial
  refine Flood.Carried.same ?_ rfl rfl
  refine ⟨hnote.distinct, hnote.known, hnote.slots, hnote.connected, hnote.heard, hnote.unsent,
    hnote.past, hnote.once, ?_⟩
  intro m hm
  by_cases hmn : m = n
  · subst hmn
    rw [since_cons rfl]
    exact .inr mem_cons_self
  · refine (hnote.synced m hm).imp_left ?_
    intro hsync
    exact mem_filter.mpr ⟨hsync, by simpa using hmn⟩

end Events

/-! ## 6. Sending -/

section Sends

variable {p : Prot_Def} {f f' : Flood p} {k : Key} {v : Stamp} {n nd : Node_ID} {i m : ℕ}
  {ks : List Key} {s : Sending} {st : Daemon p × List (Node_ID × Packet p) × Bool}

theorem state_stamp {d : Daemon p} (h : d.stamp k = some v) : (d.state k).version.stamp = v := by
  unfold Daemon.stamp Daemon.stored at h
  unfold Daemon.state
  cases hfind : Find_State d.All_States k.1 k.2 with
  | none => simp [hfind] at h
  | some s_data => simpa [hfind] using h

theorem Enumeration.Of.congr {en : Enumeration} {changes changes' : List Changed_State}
    (h : en.Of changes) (hkeys : changes'.map Changed_State.key = changes.map Changed_State.key) :
    en.Of changes' := by
  refine ⟨?_, ?_⟩
  · rw [hkeys]
    exact h.order
  · intro src
    rw [hkeys]
    exact h.keyed src

theorem Flood.Inv.send_all (h : f.Inv) (hslot : f.d.Neighbor_Nodes[i]? = some (some nd))
    (hks : ks.Nodup) (hneeds : ∀ k ∈ ks, needs f.d.Changed_States i k) :
    Flood.Inv { f with
      d := { f.d with Changed_States := mark f.d.Changed_States i ks }
      log := (ks.map fun k => Entry.sent nd k (f.d.state k).version.stamp).reverse ++ f.log } := by
  induction ks using List.reverseRecOn with
  | nil =>
    rw [mark_nil]
    exact h
  | append_singleton ks k ih =>
    have hks' := nodup_append.mp hks
    have hneed := hneeds k (by simp)
    have hih := ih hks'.1 (fun k' hk' => hneeds k' (mem_append_left _ hk'))
    obtain ⟨c, hc, rfl, -⟩ := (needs_iff h.distinct).mp hneed
    obtain ⟨v, hv, -⟩ := h.known c hc
    have hstill : needs (mark f.d.Changed_States i ks) i c.key := by
      rw [needs_mark h.distinct]
      exact ⟨hneed, fun hmem => hks'.2.2 c.key hmem c.key (by simp) rfl⟩
    have hsend := hih.send hslot hv hstill
    rw [set_bit_mark, ← state_stamp hv] at hsend
    rw [map_append, reverse_append]
    exact hsend

theorem sent_entries_call {c : Call p} {pkts : List (Packet p)}
    (h : (pkts.flatMap fun pk => cells pk.parts) = ks.map c.cell) :
    sent_entries (pkts.map fun pk => (nd, pk)) =
      ks.map fun k => Entry.sent nd k (c.d.state k).version.stamp := by
  have hentries : sent_entries (pkts.map fun pk => (nd, pk)) =
      (pkts.flatMap fun pk => cells pk.parts).map fun c =>
        Entry.sent nd (c.1, c.2.dest) c.2.version.stamp := by
    rw [sent_entries, flatMap_map, map_flatMap]
  rw [hentries, h, List.map_map]
  rfl

theorem mem_mark {changes : List Changed_State} {c : Changed_State} (hc : c ∈ mark changes i ks) :
    ∃ c0 ∈ changes, ∀ j, c0.mask j = true → c.mask j = true := by
  obtain ⟨c0, hc0, rfl⟩ := List.mem_map.mp hc
  refine ⟨c0, hc0, ?_⟩
  intro j hj
  split
  · exact Bool.or_eq_true_iff.mpr (.inl hj)
  · exact hj

structure Looped (f : Flood p) (m : ℕ) (st : Daemon p × List (Node_ID × Packet p) × Bool) :
    Prop where
  daemon : st.1 = { f.d with Changed_States := st.1.Changed_States }
  keys : st.1.Changed_States.map Changed_State.key = f.d.Changed_States.map Changed_State.key
  inv : Flood.Inv { f with d := st.1, log := (sent_entries st.2.1).reverse ++ f.log }
  done : st.2.2 = false → ∀ i < m, ∀ n, f.d.Neighbor_Nodes[i]? = some (some n) →
    f.d.connected n → ∀ c ∈ st.1.Changed_States, c.mask i = true

theorem Looped.step (h : Looped f m st) (hen : (s.en m).Of f.d.Changed_States) :
    Looped f (m + 1) (send_to_slot s st m) := by
  obtain ⟨d, out, flag⟩ := st
  have hd : d = { f.d with Changed_States := d.Changed_States } := h.daemon
  have hslots : d.Neighbor_Nodes = f.d.Neighbor_Nodes := by rw [hd]
  have hcosts : d.connected = f.d.connected := by rw [hd]; rfl
  -- a slot without a connected neighbor
  have hskip : (∀ n, f.d.Neighbor_Nodes[m]? = some (some n) → f.d.connected n = false) →
      Looped f (m + 1) (d, out, flag) := by
    intro hnone
    refine ⟨h.daemon, h.keys, h.inv, ?_⟩
    intro hflag i hi n hslot hn c hc
    rcases Nat.lt_succ_iff_lt_or_eq.mp hi with hi | rfl
    · exact h.done hflag i hi n hslot hn c hc
    · exact absurd (hn.symm.trans (hnone n hslot)) (by simp)
  unfold send_to_slot
  dsimp only
  split
  · rename_i nd hslot
    split
    · rename_i hconn
      obtain ⟨⟨pkts, changes, go⟩, hrun⟩ : ∃ r, r = Net_Send_State_Updates
        { new_ref_cnt := s.new_ref_cnt m, e := s.e, now := s.now, d := d, neighbor_id := m,
          en := s.en m } := ⟨_, rfl⟩
      rw [← hrun]
      dsimp only
      obtain ⟨ks, hnodup, hneeds, rfl, hcells, hall⟩ :=
        net_send_state_updates_spec h.inv.distinct (hen.congr h.keys) hrun.symm
      have hsent := h.inv.send_all hslot hnodup hneeds
      constructor
      · dsimp only
        rw [hd]
      · dsimp only
        rw [mark_keys]
        exact h.keys
      · dsimp only
        rw [show sent_entries (out ++ pkts.map fun pk => (nd, pk)) =
          sent_entries out ++ sent_entries (pkts.map fun pk => (nd, pk)) from
          flatMap_append, sent_entries_call hcells, reverse_append, append_assoc]
        exact hsent
      · dsimp only
        intro hflag i hi n hslot' hn c hc
        obtain ⟨hflag, hgo⟩ : flag = false ∧ go = true := by simpa using hflag
        rcases Nat.lt_succ_iff_lt_or_eq.mp hi with hi | rfl
        · obtain ⟨c0, hc0, hmask⟩ := mem_mark hc
          exact hmask i (h.done hflag i hi n hslot' hn c0 hc0)
        · -- nothing that the neighbor needs is left
          by_contra hbit
          have hneed : needs (mark d.Changed_States i ks) i c.key := by
            rw [needs_iff hsent.distinct]
            exact ⟨c, hc, rfl, by simpa using hbit⟩
          obtain ⟨hneed, hmem⟩ := (needs_mark h.inv.distinct).mp hneed
          exact hmem (hall hgo c.key hneed)
    · rename_i hconn
      apply hskip
      intro n hslot'
      rw [hslots, hslot'] at hslot
      obtain rfl := some.inj (some.inj hslot)
      rw [← hcosts]
      simpa using hconn
  · rename_i hno
    apply hskip
    intro n hslot'
    rw [← hslots] at hslot'
    exact absurd hslot' (hno n)

theorem looped (h : f.Inv) (hen : ∀ i, (s.en i).Of f.d.Changed_States) (m : ℕ) :
    Looped f m ((range m).foldl (send_to_slot s) (f.d, [], false)) := by
  induction m with
  | zero => exact ⟨rfl, rfl, h, by simp⟩
  | succ m ih =>
    rw [range_succ, foldl_append]
    exact ih.step (hen m)

/-- A neighbor need not hear of a version any more: it was sent or told, or the neighbor
has its slot since then only, and is sent the whole table for that. -/
def Flood.Served (f : Flood p) (n : Node_ID) (k : Key) (v : Stamp) : Prop :=
  .sent n k v ∈ f.log ∨ .told n k v ∈ f.log ∨
    Joined_After n k v f.log ∧ (n ∈ f.syncs ∨ .synced n ∈ Since n f.log)

def Flood.Emptied (f f' : Flood p) : Prop :=
  f'.d.Changed_States = [] ∧ ∀ c ∈ f.d.Changed_States, ∀ n, f'.d.connected n →
    ∀ v ∈ f'.d.stamp c.key, f'.Served n c.key v

theorem send_spec (h : f.Inv) (hen : ∀ i, (s.en i).Of f.d.Changed_States) :
    (f.send s).Inv ∧ (f.send s).Queued ∧ (f.Kept (f.send s) ∨ f.Emptied (f.send s)) := by
  have hloop := looped h hen f.d.Neighbor_Nodes.length
  unfold Flood.send Send_State_Updates
  generalize (range f.d.Neighbor_Nodes.length).foldl (send_to_slot s) (f.d, [], false) = st
    at hloop
  obtain ⟨d, out, flag⟩ := st
  have hinv := hloop.inv
  -- every change is still there at the end of the loop
  have hkept : ∀ c ∈ f.d.Changed_States, ∃ c' ∈ d.Changed_States, c'.key = c.key := by
    intro c hc
    exact List.mem_map.mp (hloop.keys.symm ▸ List.mem_map_of_mem hc)
  cases flag with
  | true =>
    refine ⟨?_, fun _ => rfl, .inl hkept⟩
    exact ⟨hinv.distinct, hinv.known, hinv.slots, hinv.connected, hinv.heard, hinv.unsent,
      hinv.past, hinv.once, hinv.synced⟩
  | false =>
    refine ⟨?_, fun hne => absurd rfl hne, .inr ⟨rfl, ?_⟩⟩
    · exact ⟨nodup_nil, by simp, hinv.slots, hinv.connected, by simp, by simp, hinv.past,
        hinv.once, hinv.synced⟩
    · intro c hc n hn v hv
      obtain ⟨c', hc', hkey⟩ := hkept c hc
      obtain ⟨i, hi⟩ := mem_iff_getElem?.mp (hinv.connected n hn)
      have hd : d = { f.d with Changed_States := d.Changed_States } := hloop.daemon
      have hslots : d.Neighbor_Nodes = f.d.Neighbor_Nodes := by rw [hd]
      have hcosts : d.connected = f.d.connected := by rw [hd]; rfl
      have hi' : f.d.Neighbor_Nodes[i]? = some (some n) := hslots ▸ hi
      have hbit := hloop.done rfl i (List.getElem?_eq_some_iff.mp hi').1 n hi' (hcosts ▸ hn) c' hc'
      rw [← hkey]
      rcases hinv.heard c' hc' i n v hi hbit (hkey ▸ hv) with (htold | hsent) | hjoined
      · exact .inr (.inl htold)
      · exact .inl hsent
      · exact .inr (.inr ⟨hjoined, hinv.synced n hn⟩)

/-! ## 7. Runs -/

theorem step_spec {e : Event p} (h : f.Inv) (hq : f.Queued) (hstep : Step f e f') :
    f'.Inv ∧ f'.Queued ∧ (f.Kept f' ∨ ((∃ s, e = .updates s ∨ e = .routes s) ∧ f.Emptied f')) := by
  obtain ⟨hen, hrun⟩ := hstep
  have hcarried : f.Carried f' →
      f'.Inv ∧ f'.Queued ∧ (f.Kept f' ∨ ((∃ s, e = .updates s ∨ e = .routes s) ∧ f.Emptied f')) :=
    fun hc => ⟨hc.inv, hc.queued hq, .inl hc.kept⟩
  cases e with
  | packet r => exact hcarried (packet_carried h hrun)
  | publish now dest value lts => exact hcarried (publish_carried h hrun)
  | leg_cost now nd new_leg_cost => exact hcarried (leg_cost_carried h hrun)
  | link nd => exact hcarried (link_carried h hrun)
  | sync n =>
    rw [Flood.step] at hrun
    split at hrun
    · obtain rfl := some.inj hrun
      exact hcarried (sync_carried h)
    · cases hrun
  | updates s =>
    rw [Flood.step] at hrun
    split at hrun
    · obtain rfl := some.inj hrun
      have h' : Flood.Inv { f with d := { f.d with queued := false } } :=
        ⟨h.distinct, h.known, h.slots, h.connected, h.heard, h.unsent, h.past, h.once, h.synced⟩
      obtain ⟨hinv, hq', hall⟩ := send_spec h' hen
      exact ⟨hinv, hq', hall.imp_right fun hall => ⟨⟨s, .inl rfl⟩, hall⟩⟩
    · cases hrun
  | routes s =>
    rw [Flood.step] at hrun
    split at hrun
    · obtain rfl := some.inj hrun
      obtain ⟨hinv, hq', hall⟩ := send_spec h hen
      exact ⟨hinv, hq', hall.imp_right fun hall => ⟨⟨s, .inr rfl⟩, hall⟩⟩
    · cases hrun

theorem run_inv {f0 : Flood p} (hstart : f0.Start) (hrun : Run Step f0 f) : f.Inv ∧ f.Queued := by
  apply hrun.invariant (fun f => f.Inv ∧ f.Queued)
  · exact ⟨hstart.inv, fun hne => absurd hstart.changes hne⟩
  · rintro t e t' ⟨hinv, hq⟩ hstep
    obtain ⟨hinv', hq', -⟩ := step_spec hinv hq hstep
    exact ⟨hinv', hq'⟩

end Sends

/-! ## 8. A slot changes hands -/

section Handover

def alone : Flood .Groups_Prot_Def where
  d :=
    { My_Address := 1, All_Nodes := fun _ => true, All_States := fun _ => none,
      Link_State_Update_LTS := 0, Changed_States := [], queued := false, Neighbor_Nodes := [],
      leg_cost := fun _ => -1 }
  syncs := []
  log := []

def handover : List (Event .Groups_Prot_Def) :=
  [.link 2, .leg_cost ⟨9, 0⟩ 2 1,
    .packet { now := ⟨9, 0⟩, sender := 2, parts := [(5, [⟨7, 8, 0, 1, 0, ()⟩])] },
    .leg_cost ⟨9, 0⟩ 2 (-1), .link 3, .leg_cost ⟨9, 0⟩ 3 1]

def one_change : Sending where
  e := .little
  now := ⟨9, 0⟩
  new_ref_cnt := fun _ _ _ => 0
  en := fun _ => { order := [(5, 7)], keyed := fun src => if src = 5 then [7] else [] }

theorem one_change_of {changes : List Changed_State} (h : changes.map Changed_State.key = [(5, 7)])
    (i : ℕ) : (one_change.en i).Of changes := by
  refine ⟨?_, ?_⟩
  · rw [h]
    exact .refl _
  · intro src
    rw [h]
    by_cases hsrc : src = 5
    · subst hsrc
      exact .refl _
    · simp [one_change, hsrc, Ne.symm hsrc]

theorem run_of_events {p : Prot_Def} {f f' : Flood p} {es : List (Event p)}
    (hen : ∀ e ∈ es, ∀ f, e.Enumerates f) (hrun : es.foldlM Flood.step f = some f') :
    Run Step f f' := by
  induction es generalizing f with
  | nil =>
    obtain rfl : f = f' := by simpa using hrun
    exact .refl f
  | cons e es ih =>
    rw [foldlM_cons] at hrun
    obtain ⟨f1, hstep, hrun⟩ := bind_eq_some_iff.mp hrun
    have hfirst : Step f e f1 := ⟨hen e mem_cons_self f, hstep⟩
    exact .head ⟨e, hfirst⟩ (ih (fun e' he' => hen e' (mem_cons_of_mem e he')) hrun)

theorem alone_start : alone.Start := ⟨rfl, rfl, fun _ => rfl, rfl⟩

theorem handover_run : ∃ f f', Run Step alone f ∧ Step f (.updates one_change) f' ∧
    f.d.Changed_States.map Changed_State.key = [(5, 7)] ∧ f.d.queued = true ∧
    f'.d.Changed_States = [] ∧ f'.d.connected 3 ∧ f'.d.stamp (5, 7) = some (toLex (8, 0)) ∧
    f'.log = [.joined 3, .made (5, 7) (toLex (8, 0)), .told 2 (5, 7) (toLex (8, 0)), .joined 2] := by
  obtain ⟨f, hf⟩ : ∃ f, handover.foldlM Flood.step alone = some f :=
    isSome_iff_exists.mp rfl
  have hbefore : (handover.foldlM Flood.step alone).map (fun f =>
      (f.d.Changed_States.map Changed_State.key, f.d.queued)) = some ([(5, 7)], true) := rfl
  have hafter : ((handover.foldlM Flood.step alone).bind (·.step (.updates one_change))).map
      (fun f => (f.d.Changed_States.map Changed_State.key, f.d.connected 3, f.d.stamp (5, 7), f.log)) =
      some ([], true, some (toLex (8, 0)), [.joined 3, .made (5, 7) (toLex (8, 0)),
        .told 2 (5, 7) (toLex (8, 0)), .joined 2]) := rfl
  rw [hf] at hbefore hafter
  obtain ⟨hkeys, hqueued⟩ := Prod.mk.inj (some.inj hbefore)
  obtain ⟨f', hstep, hafter⟩ := map_eq_some_iff.mp hafter
  simp only [Prod.mk.injEq, map_eq_nil_iff] at hafter
  have hen : ∀ e ∈ handover, ∀ f, e.Enumerates f := by simp [handover, Event.Enumerates]
  exact ⟨f, f', run_of_events hen hf, ⟨one_change_of hkeys, hstep⟩, hkeys, hqueued, hafter⟩

end Handover

end Spines.StateFlood
