/-
The state machine of a network leg.

Status, cost, links, the cost of the edge and the place among the neighbors are
five representations of one fact. `Coherent` says that they agree, for every leg
and for the tables; each step of the hello protocol keeps it and does not stop
the daemon, on the condition `Fine`.

The condition names what goes wrong: a leg that is given up before it was ever
connected keeps its node in `Neighbor_Nodes`, since `Network_Leg_Set_Cost`
returns early when the cost is -1 already; a measured cost of -1 does not fit a
connected leg; and the numbers of links and the places of neighbors can run out.
-/
import Spines.Hello.Timers

set_option autoImplicit false

namespace Spines.Hello

open Spines.Lib Function Option
open Spines.StateFlood (Prot_Def)

/-! ## 1. One leg -/

def Network_Leg.core (leg : Network_Leg) : Leg_Status × ℤ × (Link_Type → Option ℕ) :=
  (leg.status, leg.cost, leg.links)

/-- The representations of one leg agree; `listed` says that its node is in
`Neighbor_Nodes`. -/
structure Network_Leg.Agrees (leg : Network_Leg) (edge_cost : ℤ) (listed : Prop) : Prop where
  control : leg.status = .DISCONNECTED_LEG ↔ leg.links .CONTROL_LINK = none
  cost : leg.status = .CONNECTED_LEG ↔ leg.cost ≠ -1
  data : leg.status = .CONNECTED_LEG → leg.links .UDP_LINK ≠ none
    ∧ leg.links .RELIABLE_UDP_LINK ≠ none ∧ leg.links .REALTIME_UDP_LINK ≠ none
  no_data : leg.status ≠ .CONNECTED_LEG → leg.links .UDP_LINK = none
    ∧ leg.links .RELIABLE_UDP_LINK = none ∧ leg.links .REALTIME_UDP_LINK = none
  edge : edge_cost = leg.cost
  listed : listed ↔ leg.links .CONTROL_LINK ≠ none

theorem Network_Leg.Agrees.congr {leg leg' : Network_Leg} {c : ℤ} {listed : Prop}
    (h : leg.Agrees c listed) (hcore : leg'.core = leg.core) : leg'.Agrees c listed := by
  obtain ⟨hstatus, hcost, hlinks⟩ : leg'.status = leg.status ∧ leg'.cost = leg.cost
      ∧ leg'.links = leg.links := by
    simpa [Network_Leg.core] using hcore
  constructor
  case control => rw [hstatus, hlinks]; exact h.control
  case cost => rw [hstatus, hcost]; exact h.cost
  case data => rw [hstatus, hlinks]; exact h.data
  case no_data => rw [hstatus, hlinks]; exact h.no_data
  case edge => rw [hcost]; exact h.edge
  case listed => rw [hlinks]; exact h.listed

namespace Daemon

variable {ν : Type} {s : Daemon ν}

/-! ## 2. The daemon -/

structure Tables (s : Daemon ν) : Prop where
  neighbors : Slots.Inverse s.Neighbor_Nodes s.neighbor_id
  used : ∀ k n, s.Neighbor_Nodes k = some n → k < s.Num_Neighbors
  places : ∀ k n, s.Neighbor_Nodes k = some n → k < MAX_LINKS / MAX_LINKS_4_EDGE
  numbers : ∀ k p, s.Links k = some p → k < MAX_LINKS

structure Coherent (s : Daemon ν) : Prop extends Tables s where
  timed : Timed (Up s) s
  leg : ∀ n, (s.leg n).Agrees (s.edge_cost n) (s.neighbor_id n ≠ none)

structure Elsewhere (n : ν) (s s' : Daemon ν) : Prop where
  core : ∀ m, m ≠ n → (s'.leg m).core = (s.leg m).core
  edge_cost : ∀ m, m ≠ n → s'.edge_cost m = s.edge_cost m
  neighbor_id : ∀ m, m ≠ n → s'.neighbor_id m = s.neighbor_id m

variable {n : ν} {s' s₁ : Daemon ν} {mode : Link_Type} {k p : ℕ} {cfg : Config ν} {lk : Link ν}
  {env : Readings}

theorem Elsewhere.trans {s2 s3 : Daemon ν} (h : Elsewhere n s₁ s2) (h' : Elsewhere n s2 s3) :
    Elsewhere n s₁ s3 where
  core m hm := (h'.core m hm).trans (h.core m hm)
  edge_cost m hm := (h'.edge_cost m hm).trans (h.edge_cost m hm)
  neighbor_id m hm := (h'.neighbor_id m hm).trans (h.neighbor_id m hm)

theorem Coherent.step (h : Coherent s) (helse : Elsewhere n s s') (htables : Tables s')
    (htimed : Timed (Up s') s')
    (hleg : (s'.leg n).Agrees (s'.edge_cost n) (s'.neighbor_id n ≠ none)) : Coherent s' where
  toTables := htables
  timed := htimed
  leg := by
    intro m
    by_cases hm : m = n
    · subst hm
      exact hleg
    · rw [helse.edge_cost m hm, helse.neighbor_id m hm]
      exact (h.leg m).congr (helse.core m hm)

theorem Calm.core (h : Calm s s') (m : ν) : (s'.leg m).core = (s.leg m).core := by
  simp only [Network_Leg.core, h.status m, h.cost m, h.links m]

theorem Calm.elsewhere (h : Calm s s') (n : ν) : Elsewhere n s s' where
  core m _ := h.core m
  edge_cost m _ := congrFun h.edge_cost m
  neighbor_id m _ := congrFun h.neighbor_id m

theorem Calm.tables (h : Calm s s') (ht : Tables s) : Tables s' where
  neighbors := by
    rw [h.Neighbor_Nodes, h.neighbor_id]
    exact ht.neighbors
  used := by
    rw [h.Neighbor_Nodes, h.Num_Neighbors]
    exact ht.used
  places := by
    rw [h.Neighbor_Nodes]
    exact ht.places
  numbers := by
    rw [h.Links]
    exact ht.numbers

theorem Coherent.calm (h : Coherent s) (htimed : Timed (Up s) s') (hcalm : Calm s s') :
    Coherent s' where
  toTables := hcalm.tables h.toTables
  timed := htimed.calm hcalm
  leg := by
    intro n
    rw [hcalm.edge_cost, hcalm.neighbor_id]
    exact (h.leg n).congr (hcalm.core n)

variable [DecidableEq ν]

/-! ## 3. More links for a connected leg -/

structure Grown (n : ν) (s s' : Daemon ν) : Prop where
  other : ∀ m, m ≠ n → s'.leg m = s.leg m
  status : (s'.leg n).status = (s.leg n).status
  cost : (s'.leg n).cost = (s.leg n).cost
  kept : ∀ t p, (s.leg n).links t = some p → (s'.leg n).links t = some p
  edge_cost : s'.edge_cost = s.edge_cost
  neighbor_id : s'.neighbor_id = s.neighbor_id
  tables : Tables s → Tables s'

omit [DecidableEq ν] in
theorem Grown.trans {s2 s3 : Daemon ν} (h : Grown n s₁ s2) (h' : Grown n s2 s3) :
    Grown n s₁ s3 where
  other m hm := (h'.other m hm).trans (h.other m hm)
  status := h'.status.trans h.status
  cost := h'.cost.trans h.cost
  kept t p hp := h'.kept t p (h.kept t p hp)
  edge_cost := h'.edge_cost.trans h.edge_cost
  neighbor_id := h'.neighbor_id.trans h.neighbor_id
  tables ht := h'.tables (h.tables ht)

omit [DecidableEq ν] in
theorem Grown.elsewhere (h : Grown n s s') : Elsewhere n s s' where
  core m hm := by rw [h.other m hm]
  edge_cost m _ := congrFun h.edge_cost m
  neighbor_id m _ := congrFun h.neighbor_id m

omit [DecidableEq ν] in
theorem Grown.ne_none (h : Grown n s s') {t : Link_Type} (ht : (s.leg n).links t ≠ none) :
    (s'.leg n).links t ≠ none := by
  obtain ⟨p, hp⟩ := ne_none_iff_exists'.mp ht
  rw [h.kept t p hp]
  simp

theorem new_link_grown (hslot : (s.leg n).links mode = none) (hk : k < MAX_LINKS)
    (hfree : s.Links k = none) (w : Window) :
    Grown n s (s.new_link n mode k w)
      ∧ (∀ t, ((s.new_link n mode k w).leg n).links t
        = if t = mode then some s.fresh else (s.leg n).links t)
      ∧ Slots.room (s.new_link n mode k w).Links MAX_LINKS + 1 = Slots.room s.Links MAX_LINKS := by
  have hlinks : ∀ t, ((s.new_link n mode k w).leg n).links t
      = if t = mode then some s.fresh else (s.leg n).links t := by
    intro t
    by_cases ht : t = mode
    · subst ht
      simp [new_link, set_link, set_leg]
    · simp [new_link, set_link, set_leg, ht]
  refine ⟨?_, hlinks, Slots.room_take hk hfree s.fresh⟩
  constructor
  case other => intro m hm; simp [new_link, set_link, set_leg, hm]
  case status => simp [new_link, set_link, set_leg]
  case cost => simp [new_link, set_link, set_leg]
  case kept =>
    intro t p hp
    have hne : t ≠ mode := by
      rintro rfl
      rw [hslot] at hp
      simp at hp
    rw [hlinks, if_neg hne]
    exact hp
  case edge_cost => rfl
  case neighbor_id => rfl
  case tables =>
    intro ht
    refine ⟨ht.neighbors, ht.used, ht.places, ?_⟩
    intro j q hj
    by_cases hjk : j = k
    · subst hjk
      exact hk
    · have hold : s.Links j = some q := by
        simpa [new_link, set_link, set_leg, hjk] using hj
      exact ht.numbers j q hold

theorem Create_Link_grown (hmode : mode ≠ .CONTROL_LINK)
    (hcontrol : (s.leg n).links .CONTROL_LINK ≠ none) (hstatus : (s.leg n).status = .CONNECTED_LEG)
    (hcost : (s.leg n).cost ≠ -1) (hslot : (s.leg n).links mode = none)
    (hconf : mode = .INTRUSION_TOL_LINK → cfg.Config_File_Found = true)
    (hroom : 0 < Slots.room s.Links MAX_LINKS) :
    ∃ s' k, s.Create_Link cfg n mode = some (s', k) ∧ Grown n s s'
      ∧ (∀ t, (s'.leg n).links t = if t = mode then some s.fresh else (s.leg n).links t)
      ∧ Slots.room s'.Links MAX_LINKS + 1 = Slots.room s.Links MAX_LINKS := by
  obtain ⟨k, hk⟩ := Slots.first_free_of_room hroom
  obtain ⟨hlt, hfree⟩ := Slots.first_free_spec hk
  obtain ⟨hgrown, hlinks, hless⟩ := new_link_grown hslot hlt hfree cfg.initial_window
  refine ⟨s.new_link n mode k cfg.initial_window, k, ?_, hgrown, hlinks, hless⟩
  have hready : ¬ (cfg.Intrusion_Tolerance_Mode = false ∧ mode ≠ .CONTROL_LINK
      ∧ ((s.leg n).links .CONTROL_LINK = none ∨ (s.leg n).status ≠ .CONNECTED_LEG
        ∨ (s.leg n).cost = -1)) := by
    rintro ⟨-, -, hno | hno | hno⟩
    · exact hcontrol hno
    · exact hno hstatus
    · exact hcost hno
  have hfile : ¬ (mode = .INTRUSION_TOL_LINK ∧ cfg.Config_File_Found = false) := by
    rintro ⟨hit, hno⟩
    simp [hconf hit] at hno
  rw [Create_Link, hslot]
  rw [if_neg hready, if_neg hfile, hk, bind_some, if_neg hmode]

def links_needed (cfg : Config ν) (n : ν) (s : Daemon ν) : ℕ :=
  if cfg.Config_File_Found = true ∧ cfg.Sorted_Edges n = true
      ∧ (s.leg n).links .INTRUSION_TOL_LINK = none then 4
  else 3

theorem create_links_grown {up : ν → Prop} (h : Timed up s)
    (hcontrol : (s.leg n).links .CONTROL_LINK ≠ none) (hstatus : (s.leg n).status = .CONNECTED_LEG)
    (hcost : (s.leg n).cost ≠ -1)
    (hslots : (s.leg n).links .UDP_LINK = none ∧ (s.leg n).links .RELIABLE_UDP_LINK = none
      ∧ (s.leg n).links .REALTIME_UDP_LINK = none)
    (hroom : s.links_needed cfg n ≤ Slots.room s.Links MAX_LINKS) :
    ∃ s', s.create_links cfg n = some s' ∧ Grown n s s'
      ∧ (s'.leg n).links .UDP_LINK ≠ none ∧ (s'.leg n).links .RELIABLE_UDP_LINK ≠ none
      ∧ (s'.leg n).links .REALTIME_UDP_LINK ≠ none := by
  have hthree : 3 ≤ Slots.room s.Links MAX_LINKS := by
    unfold links_needed at hroom
    split_ifs at hroom <;> omega
  obtain ⟨s₁, k1, h1, hg1, hl1, hr1⟩ := @Create_Link_grown ν s n .UDP_LINK cfg _ (by simp)
    hcontrol hstatus hcost hslots.1 (by simp) (by omega)
  obtain ⟨s2, k2, h2, hg2, hl2, hr2⟩ := @Create_Link_grown ν s₁ n .RELIABLE_UDP_LINK cfg _ (by simp)
    (hg1.ne_none hcontrol) (hg1.status.trans hstatus) (hg1.cost ▸ hcost)
    (by simpa [hl1] using hslots.2.1) (by simp) (by omega)
  have hg12 := hg1.trans hg2
  obtain ⟨s3, k3, h3, hg3, hl3, hr3⟩ := @Create_Link_grown ν s2 n .REALTIME_UDP_LINK cfg _ (by simp)
    (hg12.ne_none hcontrol) (hg12.status.trans hstatus) (hg12.cost ▸ hcost)
    (by simpa [hl1, hl2] using hslots.2.2) (by simp) (by omega)
  have hg := hg12.trans hg3
  have hudp : (s3.leg n).links .UDP_LINK ≠ none := by simp [hl3, hl2, hl1]
  have hrel : (s3.leg n).links .RELIABLE_UDP_LINK ≠ none := by simp [hl3, hl2]
  have hrt : (s3.leg n).links .REALTIME_UDP_LINK ≠ none := by simp [hl3]
  have hthird : s.create_links cfg n
      = if cfg.Config_File_Found = true ∧ cfg.Sorted_Edges n = true then
          (s3.Create_Link cfg n .INTRUSION_TOL_LINK).map Prod.fst
        else some s3 := by
    rw [create_links, h1]
    simp only [bind_eq_bind, bind_some, h2, h3]
  rw [hthird]
  by_cases hconf : cfg.Config_File_Found = true ∧ cfg.Sorted_Edges n = true
  · rw [if_pos hconf]
    cases hit : (s3.leg n).links .INTRUSION_TOL_LINK with
    | some p =>
      -- the link of an earlier connection is still there
      have ht1 := (h.Create_Link h1).1
      have ht2 := (ht1.Create_Link h2).1
      have ht3 := (ht2.Create_Link h3).1
      obtain ⟨lk, hlk, -⟩ := ht3.link_of_leg hit
      refine ⟨s3, ?_, hg, hudp, hrel, hrt⟩
      rw [Create_Link, hit]
      simp [hlk]
    | none =>
      have hslot : (s.leg n).links .INTRUSION_TOL_LINK = none := by
        simpa [hl3, hl2, hl1] using hit
      have hfour : 4 ≤ Slots.room s.Links MAX_LINKS := by
        rw [links_needed, if_pos ⟨hconf.1, hconf.2, hslot⟩] at hroom
        exact hroom
      obtain ⟨s4, k4, h4, hg4, hl4, -⟩ := @Create_Link_grown ν s3 n .INTRUSION_TOL_LINK cfg _
        (by simp) (hg.ne_none hcontrol) (hg.status.trans hstatus) (hg.cost ▸ hcost) hit
        (fun _ => hconf.1) (by omega)
      exact ⟨s4, by rw [h4]; rfl, hg.trans hg4, hg4.ne_none hudp, hg4.ne_none hrel,
        hg4.ne_none hrt⟩
  · rw [if_neg hconf]
    exact ⟨s3, rfl, hg, hudp, hrel, hrt⟩

/-! ## 4. A leg becomes connected -/

theorem Network_Leg_Initial_Cost_ne (w : Route) : Network_Leg_Initial_Cost w ≠ -1 := by
  cases w <;> decide

theorem put_cost_self (n : ν) (c : ℤ) (s : Daemon ν) :
    (s.put_cost n c).leg n = { s.leg n with cost := c } ∧ (s.put_cost n c).edge_cost n = c := by
  simp [put_cost, set_leg]

theorem put_cost_elsewhere (n : ν) (c : ℤ) (s : Daemon ν) : Elsewhere n s (s.put_cost n c) where
  core m hm := by simp [put_cost, set_leg, hm]
  edge_cost m hm := update_of_ne hm _ _
  neighbor_id _ _ := rfl

omit [DecidableEq ν] in
theorem queue_for_some (f : Timer) (hp : (s.leg n).links mode = some p) (hlk : s.link p = some lk) :
    s.queue_for f n mode = some (s.E_queue f lk.link_id) := by
  rw [queue_for, hp, bind_some, hlk, map_some]

omit [DecidableEq ν] in
theorem set_connected_some {up : ν → Prop} (h : Timed up s) (hp : (s.leg n).links mode = some p)
    (hrel : reliable mode) : ∃ s', s.set_connected p = some s' ∧ Calm s s' := by
  obtain ⟨lk, hlk, -, rfl⟩ := h.link_of_leg hp
  obtain ⟨r, hr, -⟩ := h.data p lk hlk hrel
  exact ⟨_, by rw [set_connected, hr, map_some], Calm.put s _ s.queue⟩

theorem Set_Cost_connect {c : ℤ} (hstatus : (s.leg n).status = .CONNECTED_LEG)
    (hcost : (s.leg n).cost = -1) (hc : c ≠ -1) (hp : (s.leg n).links .CONTROL_LINK = some p)
    (hlk : s.link p = some lk) :
    s.Network_Leg_Set_Cost n c = some ((s.put_cost n c).queue_states lk.link_id) := by
  have hfits : ¬ ((c ≠ -1 ∧ (s.leg n).status ≠ .CONNECTED_LEG)
      ∨ (c = -1 ∧ (s.leg n).status = .CONNECTED_LEG)) := by
    rintro (⟨-, hno⟩ | ⟨hno, -⟩)
    · exact hno hstatus
    · exact hc hno
  rw [Network_Leg_Set_Cost]
  simp only [if_neg hfits, hcost, if_neg hc, if_true, hp, bind_some, hlk, map_some]

theorem Coherent.connect (h : Coherent s) (hp : (s.leg n).links .CONTROL_LINK = some p)
    (hstatus : (s.leg n).status = .NOT_YET_CONNECTED_LEG)
    (hroom : s.links_needed cfg n ≤ Slots.room s.Links MAX_LINKS) :
    ∃ s', s.connect cfg n p = some s' ∧ Coherent s' := by
  let c := Network_Leg_Initial_Cost cfg.Route_Weight
  have hc : c ≠ -1 := Network_Leg_Initial_Cost_ne cfg.Route_Weight
  obtain ⟨lk, hlk, -⟩ := h.timed.link_of_leg hp
  have hleg := h.leg n
  have hdown : (s.leg n).status ≠ .CONNECTED_LEG := by simp [hstatus]
  -- the status and the cost
  let s₁ := s.set_leg n Network_Leg.connected
  have ht1 : Timed (Up s₁) s₁ := h.timed.connected n
  have hleg1 : s₁.leg n = (s.leg n).connected := by simp [s₁, set_leg]
  have hcost1 : (s₁.leg n).cost = -1 := by
    rw [hleg1]
    by_contra hne
    exact hdown (hleg.cost.mpr hne)
  have hset : s₁.Network_Leg_Set_Cost n c = some ((s₁.put_cost n c).queue_states lk.link_id) :=
    Set_Cost_connect (by rw [hleg1]; rfl) hcost1 hc (by rw [hleg1]; exact hp) hlk
  let s2 := (s₁.put_cost n c).queue_states lk.link_id
  have ht2 : Timed (Up s₁) s2 := (ht1.Set_Cost (fun hup => hup) hset).1
  have hleg2 : s2.leg n = { (s.leg n).connected with cost := c } := by
    have hput := (put_cost_self n c s₁).1
    rw [hleg1] at hput
    exact hput
  -- the links besides the control link
  have hlinks2 : (s2.leg n).links = (s.leg n).links := by rw [hleg2]; rfl
  have hneeded : s2.links_needed cfg n = s.links_needed cfg n := by
    rw [links_needed, links_needed, hlinks2]
  obtain ⟨s3, hs3, hgrown, hdata⟩ := create_links_grown ht2
    (by rw [hlinks2, hp]; simp) (by rw [hleg2]; rfl) (by rw [hleg2]; exact hc)
    (by rw [hlinks2]; exact hleg.no_data hdown) (hneeded ▸ hroom)
  have ht3 := (ht2.create_links hs3).1
  have hp3 := hgrown.kept .CONTROL_LINK p (by rw [hlinks2]; exact hp)
  obtain ⟨q, hq⟩ := ne_none_iff_exists'.mp hdata.2.1
  -- the flags
  obtain ⟨s4, hs4, hcalm4⟩ := set_connected_some ht3 hp3 (.inl rfl)
  have ht4 := (ht3.set_connected hs4).1
  have hq4 : (s4.leg n).links .RELIABLE_UDP_LINK = some q := by
    rw [hcalm4.links]
    exact hq
  obtain ⟨s5, hs5, hcalm5⟩ := set_connected_some ht4 hq4 (.inr rfl)
  have ht5 := (ht4.set_connected hs5).1
  have hcalm35 := hcalm4.trans hcalm5
  -- the first timers
  have hp5 : (s5.leg n).links .CONTROL_LINK = some p := by
    rw [hcalm35.links]
    exact hp3
  have hq5 : (s5.leg n).links .RELIABLE_UDP_LINK = some q := by
    rw [hcalm35.links]
    exact hq
  obtain ⟨lkp, hlkp, -⟩ := ht5.link_of_leg hp5
  obtain ⟨lkq, hlkq, -⟩ := ht5.link_of_leg hq5
  let s6 := s5.E_queue .Send_Hello lkp.link_id
  let s7 := s6.E_queue .Try_to_Send lkp.link_id
  let s8 := s7.E_queue .Try_to_Send lkq.link_id
  have hs6 : s5.queue_for .Send_Hello n .CONTROL_LINK = some s6 := queue_for_some _ hp5 hlkp
  have hs7 : s6.queue_for .Try_to_Send n .CONTROL_LINK = some s7 :=
    queue_for_some (s := s6) _ hp5 hlkp
  have hs8 : s7.queue_for .Try_to_Send n .RELIABLE_UDP_LINK = some s8 :=
    queue_for_some (s := s7) _ hq5 hlkq
  have heq : s.connect cfg n p = some s8 := by
    rw [Daemon.connect]
    simp only [bind_eq_bind]
    rw [show (s.set_leg n Network_Leg.connected).Network_Leg_Set_Cost n
      (Network_Leg_Initial_Cost cfg.Route_Weight) = some s2 from hset]
    simp only [bind_some, hs3, hs4, hq4, hs5, hs6, hs7, hs8]
  have hcalm : Calm s3 s8 := hcalm35.trans (Calm.put s5 s5.r_data _)
  have helse2 : Elsewhere n s s2 := by
    have hset1 : Elsewhere n s s₁ :=
      ⟨fun m hm => by simp [s₁, set_leg, hm], fun _ _ => rfl, fun _ _ => rfl⟩
    have hstates : Calm (s₁.put_cost n c) s2 := Calm.put (s₁.put_cost n c) s.r_data _
    exact (hset1.trans (put_cost_elsewhere n c s₁)).trans (hstates.elsewhere n)
  have helse : Elsewhere n s s8 := (helse2.trans hgrown.elsewhere).trans (hcalm.elsewhere n)
  have htables2 : Tables s2 := ⟨h.neighbors, h.used, h.places, h.numbers⟩
  have hstatus2 : (s2.leg n).status = .CONNECTED_LEG := by rw [hleg2]; rfl
  have hedge2 : s2.edge_cost n = c := (put_cost_self n c s₁).2
  refine ⟨s8, heq, h.step helse (hcalm.tables (hgrown.tables htables2))
    (Timed.connect h.timed hp heq) ?_⟩
  have hcore : (s8.leg n).core = (s3.leg n).core := hcalm.core n
  refine Network_Leg.Agrees.congr ?_ hcore
  have hup : (s3.leg n).status = .CONNECTED_LEG := hgrown.status.trans hstatus2
  have hcost : (s3.leg n).cost = c := by
    rw [hgrown.cost, hleg2]
  rw [hcalm.edge_cost, hcalm.neighbor_id, hgrown.edge_cost, hgrown.neighbor_id, hedge2]
  constructor
  case control => simp [hup, hp3]
  case cost => simp [hup, hcost, hc]
  case data => exact fun _ => hdata
  case no_data => exact fun hno => absurd hup hno
  case edge => exact hcost.symm
  case listed =>
    rw [hp3]
    have hlisted := hleg.listed
    rw [hp] at hlisted
    exact hlisted

/-! ## 5. A leg without links -/

/-- The leg is disconnected, its node possibly still among the neighbors; all
other legs agree with the tables. -/
structure Idle (n : ν) (s : Daemon ν) : Prop extends Tables s where
  timed : Timed (Up s) s
  others : ∀ m, m ≠ n → (s.leg m).Agrees (s.edge_cost m) (s.neighbor_id m ≠ none)
  status : (s.leg n).status = .DISCONNECTED_LEG
  cost : (s.leg n).cost = -1
  edge : s.edge_cost n = -1
  no_control : (s.leg n).links .CONTROL_LINK = none
  no_data : (s.leg n).links .UDP_LINK = none ∧ (s.leg n).links .RELIABLE_UDP_LINK = none
    ∧ (s.leg n).links .REALTIME_UDP_LINK = none

omit [DecidableEq ν] in
theorem Coherent.idle (h : Coherent s) (hn : (s.leg n).links .CONTROL_LINK = none) : Idle n s := by
  have hleg := h.leg n
  have hstatus : (s.leg n).status = .DISCONNECTED_LEG := hleg.control.mpr hn
  have hdown : (s.leg n).status ≠ .CONNECTED_LEG := by simp [hstatus]
  have hcost : (s.leg n).cost = -1 := by
    by_contra hne
    exact hdown (hleg.cost.mpr hne)
  exact ⟨h.toTables, h.timed, fun m _ => h.leg m, hstatus, hcost, hleg.edge.trans hcost, hn,
    hleg.no_data hdown⟩

omit [DecidableEq ν] in
theorem Idle.coherent (h : Idle n s) (hn : s.neighbor_id n = none) : Coherent s where
  toTables := h.toTables
  timed := h.timed
  leg := by
    intro m
    by_cases hm : m = n
    · subst hm
      constructor
      case control => simp [h.status, h.no_control]
      case cost => simp [h.status, h.cost]
      case data => simp [h.status]
      case no_data => exact fun _ => h.no_data
      case edge => rw [h.edge, h.cost]
      case listed => simp [hn, h.no_control]
    · exact h.others m hm

/-- What a control link needs: a number, and a place among the neighbors for a
node that has none. -/
def Ready (n : ν) (s : Daemon ν) : Prop :=
  0 < Slots.room s.Links MAX_LINKS
    ∧ (s.neighbor_id n = none → 0 < Slots.room s.Neighbor_Nodes (MAX_LINKS / MAX_LINKS_4_EDGE))

theorem add_neighbor_some (ht : Tables s) (hplace : s.neighbor_id n = none →
      0 < Slots.room s.Neighbor_Nodes (MAX_LINKS / MAX_LINKS_4_EDGE)) :
    ∃ s', s.add_neighbor n = some s' ∧ Tables s' ∧ s'.leg = s.leg ∧ s'.edge_cost = s.edge_cost
      ∧ s'.neighbor_id n ≠ none ∧ ∀ m, m ≠ n → s'.neighbor_id m = s.neighbor_id m := by
  cases hold : s.neighbor_id n with
  | some k =>
    refine ⟨s, ?_, ht, rfl, rfl, ?_, fun _ _ => rfl⟩
    · rw [add_neighbor, hold]
    · simp [hold]
  | none =>
    obtain ⟨k, hk⟩ := Slots.first_free_of_room (hplace hold)
    obtain ⟨hlt, hfree⟩ := Slots.first_free_spec hk
    let s' : Daemon ν := { s with
      neighbor_id := update s.neighbor_id n (some k)
      Num_Neighbors := max s.Num_Neighbors (k + 1)
      Neighbor_Nodes := update s.Neighbor_Nodes k (some n) }
    have heq : s.add_neighbor n = some s' := by
      rw [add_neighbor, hold, hk]
      rfl
    have hself : s'.neighbor_id n = some k := update_self n _ _
    refine ⟨s', heq, ?_, rfl, rfl, by simp [hself], ?_⟩
    · constructor
      case neighbors => exact ht.neighbors.take hfree hold
      case used =>
        intro j m hj
        by_cases hjk : j = k
        · subst hjk
          exact lt_max_of_lt_right (Nat.lt_succ_self j)
        · simp only [s', update_of_ne hjk] at hj
          exact lt_max_of_lt_left (ht.used j m hj)
      case places =>
        intro j m hj
        by_cases hjk : j = k
        · subst hjk
          exact hlt
        · simp only [s', update_of_ne hjk] at hj
          exact ht.places j m hj
      case numbers => exact ht.numbers
    · intro m hm
      exact update_of_ne hm _ _

theorem Idle.create (h : Idle n s) (cfg : Config ν) (hready : Ready n s) :
    ∃ s' k, s.Create_Link cfg n .CONTROL_LINK = some (s', k) ∧ Coherent s'
      ∧ (∃ p, s'.link p = some ⟨k, .CONTROL_LINK, n⟩)
      ∧ (s'.leg n).status = .NOT_YET_CONNECTED_LEG ∧ (s'.leg n).connect_cnter = 0 := by
  obtain ⟨k, hk⟩ := Slots.first_free_of_room hready.1
  obtain ⟨hlt, hfree⟩ := Slots.first_free_spec hk
  obtain ⟨hgrown, hlinks, -⟩ := new_link_grown h.no_control hlt hfree cfg.initial_window
  let s₁ := s.new_link n .CONTROL_LINK k cfg.initial_window
  let s2 := s₁.set_leg n Network_Leg.wait
  have htables2 : Tables s2 := by
    have ht := hgrown.tables h.toTables
    exact ⟨ht.neighbors, ht.used, ht.places, ht.numbers⟩
  obtain ⟨s3, hs3, htables3, hleg3, hedge3, hlisted, hother3⟩ :=
    add_neighbor_some (n := n) htables2 hready.2
  have hstart : s₁.start_control n k = some (s3.E_queue .Send_Hello k) := by
    have hidle : (s₁.leg n).status = .DISCONNECTED_LEG ∧ (s₁.leg n).cost = -1 :=
      ⟨hgrown.status.trans h.status, hgrown.cost.trans h.cost⟩
    rw [start_control, if_pos hidle]
    exact congrArg (Option.map (E_queue .Send_Hello k)) hs3
  have hcreate : s.Create_Link cfg n .CONTROL_LINK = some (s3.E_queue .Send_Hello k, k) := by
    rw [Create_Link, h.no_control]
    simp only [ne_eq, not_true_eq_false, false_and, and_false, if_false, reduceCtorEq, hk,
      bind_some, if_true]
    exact congrArg (Option.map (fun t => (t, k))) hstart
  have hleg : s3.leg n = (s₁.leg n).wait := by
    rw [hleg3]
    simp [s2, set_leg]
  refine ⟨s3.E_queue .Send_Hello k, k, hcreate, ?_, ⟨s.fresh, Create_Link_control hcreate⟩,
    congrArg Network_Leg.status hleg, congrArg Network_Leg.connect_cnter hleg⟩
  have hcalm : Calm s3 (s3.E_queue .Send_Hello k) := Calm.put s3 s3.r_data _
  refine ⟨hcalm.tables htables3, h.timed.Create_Link_up hcreate, ?_⟩
  intro m
  refine Network_Leg.Agrees.congr ?_ (hcalm.core m)
  rw [hcalm.edge_cost, hcalm.neighbor_id, hleg3, hedge3]
  by_cases hm : m = n
  · subst hm
    have hleg : s2.leg m = (s₁.leg m).wait := by simp [s2, set_leg]
    have hnew : (s2.leg m).links = fun t =>
        if t = .CONTROL_LINK then some s.fresh else (s.leg m).links t := by
      funext t
      rw [hleg]
      exact hlinks t
    constructor
    case control =>
      rw [hnew]
      simp [hleg, Network_Leg.wait]
    case cost => simp [hleg, Network_Leg.wait]
    case data => simp [hleg, Network_Leg.wait]
    case no_data =>
      intro _
      simpa [hnew] using h.no_data
    case edge =>
      rw [hleg]
      exact h.edge
    case listed =>
      rw [hnew]
      simp [hlisted]
  · have hsame : s2.leg m = s.leg m := by
      have hset : s2.leg m = s₁.leg m := by simp [s2, set_leg, hm]
      exact hset.trans (hgrown.other m hm)
    rw [hsame, hother3 m hm]
    exact h.others m hm

omit [DecidableEq ν] in
theorem Torn.free (h : Linked s) (h1 : Linked s₁) (htorn : Torn n s s₁) {t : Link_Type}
    (hp : (s.leg n).links t = some p) (hlk : s.link p = some lk) (hgone : (s₁.leg n).links t = none)
    : s₁.Links lk.link_id = none := by
  by_contra hne
  obtain ⟨q, hq⟩ := ne_none_iff_exists'.mp hne
  have hold : s.Links lk.link_id = some q := htorn.Links _ q hq
  obtain rfl : p = q := some.inj ((h.number_of_link hlk).symm.trans hold)
  -- the object would still be a link of a leg
  obtain ⟨lk1, hlk1, -⟩ := h1.link_of_number hq
  have hleg1 := h1.leg_of_link hlk1
  have hleg : (s.leg lk1.leg).links lk1.link_type = some p := by
    by_cases hm : lk1.leg = n
    · rw [hm] at hleg1 ⊢
      exact htorn.links _ p hleg1
    · rw [← htorn.other lk1.leg hm]
      exact hleg1
  have hsame : (n, t) = (lk1.leg, lk1.link_type) := h.legs.same_place hp hleg
  obtain ⟨rfl, rfl⟩ := Prod.mk.inj hsame
  simp [hgone] at hleg1

theorem Set_Cost_disconnect (hstatus : (s.leg n).status = .DISCONNECTED_LEG) :
    ((s.leg n).cost = -1 → s.Network_Leg_Set_Cost n (-1) = some s)
    ∧ ∀ k, (s.leg n).cost ≠ -1 → s.neighbor_id n = some k →
      s.Network_Leg_Set_Cost n (-1) = some ((s.put_cost n (-1)).drop_neighbor n k) := by
  have hfits : ¬ (((-1 : ℤ) ≠ -1 ∧ (s.leg n).status ≠ .CONNECTED_LEG)
      ∨ ((-1 : ℤ) = -1 ∧ (s.leg n).status = .CONNECTED_LEG)) := by
    rintro (⟨hno, -⟩ | ⟨-, hno⟩)
    · exact hno rfl
    · simp [hstatus] at hno
  constructor
  · intro hcost
    rw [Network_Leg_Set_Cost]
    rw [if_neg hfits, if_pos hcost.symm]
  · intro k hcost hk
    rw [Network_Leg_Set_Cost]
    rw [if_neg hfits, if_neg (Ne.symm hcost), if_neg hcost, if_pos rfl, hk, map_some]

theorem drop_neighbor_tables (ht : Tables s) (hk : s.neighbor_id n = some k) :
    Tables (s.drop_neighbor n k) := by
  -- a node that is still there was there before
  have hkept : ∀ j m, (s.drop_neighbor n k).Neighbor_Nodes j = some m →
      s.Neighbor_Nodes j = some m := by
    intro j m hj
    by_cases hjk : j = k
    · subst hjk
      simp [drop_neighbor] at hj
    · simpa [drop_neighbor, hjk] using hj
  constructor
  case neighbors => exact ht.neighbors.leave hk
  case used => exact Slots.used_spec (fun j m hj => ht.used j m (hkept j m hj))
  case places => exact fun j m hj => ht.places j m (hkept j m hj)
  case numbers => exact ht.numbers

theorem Coherent.disconnect (h : Coherent s) (hstatus : (s.leg n).status ≠ .DISCONNECTED_LEG) :
    ∃ s', s.Disconnect_Network_Leg n = some s' ∧ Idle n s' ∧ Ready n s'
      ∧ ((s.leg n).status = .CONNECTED_LEG → s'.neighbor_id n = none) := by
  have hleg := h.leg n
  have hcontrol : (s.leg n).links .CONTROL_LINK ≠ none := fun hno => hstatus (hleg.control.mpr hno)
  obtain ⟨p, hp⟩ := ne_none_iff_exists'.mp hcontrol
  obtain ⟨lk, hlk, -⟩ := h.timed.link_of_leg hp
  let s0 := s.set_leg n Network_Leg.drop
  obtain ⟨s₁, hloop, ht1, htorn, hgone⟩ := h.timed.take_down n
  have hleg0 : s0.leg n = (s.leg n).drop := by simp [s0, set_leg]
  have hself := htorn.self
  rw [hleg0] at hself
  have hstatus1 : (s₁.leg n).status = .DISCONNECTED_LEG := by rw [hself]; rfl
  have hcost1 : (s₁.leg n).cost = (s.leg n).cost := by rw [hself]; rfl
  have hfree : s₁.Links lk.link_id = none := by
    have ht0 := h.timed.set_leg n Network_Leg.drop (fun _ => rfl)
    exact htorn.free ht0.toLinked ht1.toLinked (by rw [hleg0]; exact hp) hlk (hgone _ (by simp))
  have hroom : 0 < Slots.room s₁.Links MAX_LINKS :=
    Slots.room_pos (h.numbers _ p (h.timed.number_of_link hlk)) hfree
  have htables1 : Tables s₁ := by
    constructor
    case neighbors =>
      rw [htorn.Neighbor_Nodes, htorn.neighbor_id]
      exact h.neighbors
    case used =>
      rw [htorn.Neighbor_Nodes, htorn.Num_Neighbors]
      exact h.used
    case places =>
      rw [htorn.Neighbor_Nodes]
      exact h.places
    case numbers => exact fun k q hk => h.numbers k q (htorn.Links k q hk)
  have hothers1 : ∀ m, m ≠ n → (s₁.leg m).Agrees (s₁.edge_cost m) (s₁.neighbor_id m ≠ none) := by
    intro m hm
    have hsame : s0.leg m = s.leg m := by simp [s0, set_leg, hm]
    rw [htorn.other m hm, hsame, htorn.edge_cost, htorn.neighbor_id]
    exact h.leg m
  have hdata : (s₁.leg n).links .UDP_LINK = none ∧ (s₁.leg n).links .RELIABLE_UDP_LINK = none
      ∧ (s₁.leg n).links .REALTIME_UDP_LINK = none :=
    ⟨hgone _ (by simp), hgone _ (by simp), hgone _ (by simp)⟩
  have hdown : ∀ s', s₁.Network_Leg_Set_Cost n (-1) = some s' →
      s.Disconnect_Network_Leg n = some s' ∧ Timed (Up s') s' := by
    intro s' hset
    have heq : s.Disconnect_Network_Leg n = some s' := by
      rw [Disconnect_Network_Leg, if_neg hstatus, hloop]
      exact hset
    exact ⟨heq, h.timed.Disconnect_Network_Leg heq⟩
  by_cases hup : (s.leg n).status = .CONNECTED_LEG
  · -- the node leaves its place among the neighbors
    have hlisted : s.neighbor_id n ≠ none := hleg.listed.mpr hcontrol
    obtain ⟨k, hk⟩ := ne_none_iff_exists'.mp hlisted
    have hk1 : s₁.neighbor_id n = some k := by
      rw [htorn.neighbor_id]
      exact hk
    have hset := (Set_Cost_disconnect hstatus1).2 k (by rw [hcost1]; exact hleg.cost.mp hup) hk1
    obtain ⟨heq, htimed⟩ := hdown _ hset
    have hout : ((s₁.put_cost n (-1)).drop_neighbor n k).neighbor_id n = none := by
      simp [drop_neighbor]
    have hput := put_cost_self n (-1) s₁
    refine ⟨_, heq, ?_, ⟨hroom, fun _ => ?_⟩, fun _ => hout⟩
    · constructor
      case toTables =>
        exact drop_neighbor_tables
          ⟨htables1.neighbors, htables1.used, htables1.places, htables1.numbers⟩ hk1
      case timed => exact htimed
      case others =>
        intro m hm
        have helse := put_cost_elsewhere n (-1) s₁
        have hid : ((s₁.put_cost n (-1)).drop_neighbor n k).neighbor_id m = s₁.neighbor_id m := by
          simp [drop_neighbor, put_cost, set_leg, hm]
        rw [hid]
        refine Network_Leg.Agrees.congr ?_ (helse.core m hm)
        have hedge := helse.edge_cost m hm
        exact hedge ▸ hothers1 m hm
      case status => exact (congrArg Network_Leg.status hput.1).trans hstatus1
      case cost => exact congrArg Network_Leg.cost hput.1
      case edge => exact hput.2
      case no_control =>
        have hlinks := congrArg Network_Leg.links hput.1
        exact (congrFun hlinks _).trans (hgone _ (by simp))
      case no_data =>
        have hlinks := congrArg Network_Leg.links hput.1
        exact ⟨(congrFun hlinks _).trans hdata.1, (congrFun hlinks _).trans hdata.2.1,
          (congrFun hlinks _).trans hdata.2.2⟩
    · have hplace : s₁.Neighbor_Nodes k = some n := (htables1.neighbors k n).mpr hk1
      exact Slots.room_pos (htables1.places k n hplace) (by simp [drop_neighbor])
  · -- the cost is -1 already, and the place stays taken
    have hcost : (s₁.leg n).cost = -1 := by
      rw [hcost1]
      by_contra hne
      exact hup (hleg.cost.mpr hne)
    have hset := (Set_Cost_disconnect hstatus1).1 hcost
    obtain ⟨heq, htimed⟩ := hdown _ hset
    have hlisted : s₁.neighbor_id n ≠ none := by
      rw [htorn.neighbor_id]
      exact hleg.listed.mpr hcontrol
    have hedge : s₁.edge_cost n = -1 := by
      rw [htorn.edge_cost, ← hcost, hcost1]
      exact hleg.edge
    refine ⟨s₁, heq, ?_, ⟨hroom, fun hno => absurd hno hlisted⟩, fun hno => absurd hno hup⟩
    exact ⟨htables1, htimed, hothers1, hstatus1, hcost, hedge, hgone _ (by simp), hdata⟩

/-! ## 7. Hello packets -/

theorem Coherent.Update_Cost (h : Coherent s) {c : Option ℤ}
    (hup : (s.leg n).status = .CONNECTED_LEG)
    (hc : cfg.Route_Weight ≠ .DISTANCE_ROUTE → c ≠ some (-1)) :
    ∃ s', s.Network_Leg_Update_Cost cfg n c = some s' ∧ Coherent s' := by
  have hleg := h.leg n
  have hcontrol : (s.leg n).links .CONTROL_LINK ≠ none := by
    intro hno
    simp [hleg.control.mpr hno] at hup
  unfold Network_Leg_Update_Cost
  rw [if_neg hcontrol]
  by_cases hroute : cfg.Route_Weight = .DISTANCE_ROUTE
  · exact ⟨s, if_pos hroute, h⟩
  · rw [if_neg hroute]
    cases c with
    | none => exact ⟨s, rfl, h⟩
    | some c =>
      have hne : c ≠ -1 := fun hno => hc hroute (congrArg some hno)
      have hcost : (s.leg n).cost ≠ -1 := hleg.cost.mp hup
      have hfits : ¬ ((c ≠ -1 ∧ (s.leg n).status ≠ .CONNECTED_LEG)
          ∨ (c = -1 ∧ (s.leg n).status = .CONNECTED_LEG)) := by
        rintro (⟨-, hno⟩ | ⟨hno, -⟩)
        · exact hno hup
        · exact hne hno
      simp only [Network_Leg_Set_Cost, if_neg hfits, if_neg hcost, if_neg hne]
      by_cases hsame : c = (s.leg n).cost
      · exact ⟨s, if_pos hsame, h⟩
      · rw [if_neg hsame]
        obtain ⟨hself, hedge⟩ := put_cost_self n c s
        obtain ⟨hstatus, hlinks⟩ := put_cost_leg n n c s
        refine ⟨_, rfl, h.step (put_cost_elsewhere n c s)
          ⟨h.neighbors, h.used, h.places, h.numbers⟩
          ((h.timed.put_cost n c).same_up (fun m => (put_cost_leg n m c s).1)) ?_⟩
        constructor
        case control => rw [hstatus, hlinks]; exact hleg.control
        case cost => rw [hstatus, hself]; simp [hup, hne]
        case data => rw [hstatus, hlinks]; exact hleg.data
        case no_data => rw [hstatus, hlinks]; exact hleg.no_data
        case edge => rw [hedge, hself]
        case listed => rw [hlinks]; exact hleg.listed

/-- What a hello of a known session asks for: numbers for the links of a leg
that becomes connected, and a cost that fits a connected leg. -/
def Room_For (cfg : Config ν) (n : ν) (env : Readings) (s : Daemon ν) : Prop :=
  ((s.leg n).status = .NOT_YET_CONNECTED_LEG → CONNECT_LINK_CNT ≤ (s.leg n).connect_cnter + 1 →
    s.links_needed cfg n ≤ Slots.room s.Links MAX_LINKS)
  ∧ ((s.leg n).status = .CONNECTED_LEG → cfg.Route_Weight ≠ .DISTANCE_ROUTE →
    env.new_cost ≠ some (-1))

omit [DecidableEq ν] in
theorem Room_For.calm (h : Room_For cfg n env s) (hcalm : Calm s s')
    (hcount : (s'.leg n).connect_cnter = (s.leg n).connect_cnter) : Room_For cfg n env s' := by
  have hneeded : s'.links_needed cfg n = s.links_needed cfg n := by
    rw [links_needed, links_needed, hcalm.links]
  rw [Room_For, hcalm.status, hcount, hneeded, hcalm.Links]
  exact h

theorem Coherent.take_hello (h : Coherent s) (hp : (s.leg n).links .CONTROL_LINK = some p)
    (hlk : s.link p = some lk) (pkt : Hello_Packet)
    (hfine : ¬ pkt.seq_no + 3 < s.other_side_hello_seq p → Room_For cfg n env s) :
    ∃ s', s.take_hello cfg n p lk.link_id pkt env = some s' ∧ Coherent s' := by
  obtain ⟨lk', hlk', -, htype⟩ := h.timed.link_of_leg hp
  obtain rfl : lk = lk' := some.inj (hlk.symm.trans hlk')
  rw [Daemon.take_hello]
  by_cases hold : pkt.seq_no + 3 < s.other_side_hello_seq p
  · exact ⟨s, if_pos hold, h⟩
  · rw [if_neg hold]
    obtain ⟨s2, hs2, ht2, hcalm2, hcount2⟩ := h.timed.heard n hlk htype pkt
    have h2 := h.calm ht2 hcalm2
    have hroom2 := (hfine hold).calm hcalm2 hcount2
    have hp2 : (s2.leg n).links .CONTROL_LINK = some p := by
      rw [hcalm2.links]
      exact hp
    dsimp only
    rw [hs2]
    cases hstatus : (s2.leg n).status with
    | CONNECTED_LEG => exact h2.Update_Cost hstatus (hroom2.2 hstatus)
    | DISCONNECTED_LEG =>
      have hnone := (h2.leg n).control.mp hstatus
      simp [hp2] at hnone
    | NOT_YET_CONNECTED_LEG =>
      let s3 := s2.set_leg n Network_Leg.counted
      have hcalm3 : Calm s2 s3 := Calm.set_leg n Network_Leg.counted (fun _ => ⟨rfl, rfl, rfl⟩) s2
      have h3 : Coherent s3 :=
        h2.calm (h2.timed.set_leg n Network_Leg.counted (fun _ => rfl)) hcalm3
      have hcount3 : (s3.leg n).connect_cnter = (s2.leg n).connect_cnter + 1 := by
        simp [s3, Daemon.set_leg, Network_Leg.counted]
      by_cases hcnt : CONNECT_LINK_CNT ≤ (s3.leg n).connect_cnter
      · -- the last hello that was missing
        have hroom3 : s3.links_needed cfg n ≤ Slots.room s3.Links MAX_LINKS := by
          rw [links_needed, hcalm3.links, hcalm3.Links]
          exact hroom2.1 hstatus (hcount3 ▸ hcnt)
        have hp3 : (s3.leg n).links .CONTROL_LINK = some p := by
          rw [hcalm3.links]
          exact hp2
        obtain ⟨s', hs', h'⟩ := h3.connect hp3 ((hcalm3.status n).trans hstatus) hroom3
        exact ⟨s', (if_pos hcnt).trans hs', h'⟩
      · exact ⟨s3, if_neg hcnt, h3⟩

theorem Coherent.restart (h : Coherent s) (cfg : Config ν)
    (hn : (s.leg n).links .CONTROL_LINK ≠ none) :
    ∃ s', s.restart cfg n = some s' ∧ Coherent s' := by
  have hstatus : (s.leg n).status ≠ .DISCONNECTED_LEG := fun hno => hn ((h.leg n).control.mp hno)
  obtain ⟨s₁, hs1, hidle, hready, -⟩ := h.disconnect hstatus
  obtain ⟨s2, k, hs2, h2, ⟨p, hlk⟩, -⟩ := hidle.create cfg hready
  obtain ⟨s3, hs3, ht3, hcalm3⟩ := @Timed.Send_Hello _ _ _ _ _ _ h2.timed cfg hlk rfl
  refine ⟨s3, ?_, h2.calm ht3 hcalm3⟩
  rw [Daemon.restart]
  simp only [bind_eq_bind, hs1, hs2, bind_some]
  exact hs3

/-- Is the packet a hello that `take_hello` does not refuse? -/
def Accepted (n : ν) (p : ℕ) (pkt : Hello_Packet) (s : Daemon ν) : Prop :=
  pkt.type ≠ .HELLO_PING_TYPE ∧ pkt.right_size = true
    ∧ (pkt.ctrl_link_id = (s.leg n).other_side_ctrl_link_id
      ∨ (s.leg n).other_side_ctrl_link_id = 0)
    ∧ s.other_side_hello_seq p ≤ pkt.seq_no + 3

theorem Coherent.Process_hello_packet (h : Coherent s) (hp : (s.leg n).links .CONTROL_LINK = some p)
    {pkt : Hello_Packet} (htype : pkt.type ≠ .HELLO_PING_TYPE)
    (hfine : Accepted n p pkt s → Room_For cfg n env s) :
    ∃ s', s.Process_hello_packet cfg p pkt env = some s' ∧ Coherent s' := by
  obtain ⟨lk, hlk, rfl, hcontrol⟩ := h.timed.link_of_leg hp
  rw [Daemon.Process_hello_packet, hlk, bind_some]
  by_cases hsize : pkt.right_size = false
  · exact ⟨s, if_pos hsize, h⟩
  · rw [if_neg hsize]
    have hsize' : pkt.right_size = true := Bool.eq_true_of_not_eq_false hsize
    by_cases hsame : pkt.ctrl_link_id = (s.leg lk.leg).other_side_ctrl_link_id
    · rw [if_pos hsame]
      exact h.take_hello hp hlk pkt
        (fun hold => hfine ⟨htype, hsize', .inl hsame, not_lt.mp hold⟩)
    · rw [if_neg hsame]
      by_cases hfirst : (s.leg lk.leg).other_side_ctrl_link_id = 0
      · rw [if_pos hfirst]
        -- the first hello of the other side's session
        let s₁ := s.set_leg lk.leg (Network_Leg.meet pkt.ctrl_link_id)
        have hcalm1 : Calm s s₁ :=
          Calm.set_leg lk.leg (Network_Leg.meet pkt.ctrl_link_id) (fun _ => ⟨rfl, rfl, rfl⟩) s
        have h1 : Coherent s₁ :=
          h.calm (h.timed.set_leg lk.leg (Network_Leg.meet pkt.ctrl_link_id) (fun _ => rfl)) hcalm1
        have hcount1 : (s₁.leg lk.leg).connect_cnter = (s.leg lk.leg).connect_cnter := by
          simp [s₁, Daemon.set_leg, Network_Leg.meet]
        have hp1 : (s₁.leg lk.leg).links .CONTROL_LINK = some p := by
          rw [hcalm1.links]
          exact hp
        exact h1.take_hello hp1 hlk pkt (fun hold =>
          (hfine ⟨htype, hsize', .inr hfirst, not_lt.mp hold⟩).calm hcalm1 hcount1)
      · rw [if_neg hfirst]
        exact h.restart cfg (by simp [hp])

/-! ## 8. The condition on a step -/

/-- What a step relies on, of the state before it. A hello ping that creates a
control link needs a number and a place; a leg that becomes connected needs
numbers for its links; a measured cost of -1 does not fit a connected leg; and a
leg is given up for lack of answers only once it is connected. -/
def Fine (cfg : Config ν) (s : Daemon ν) : Event ν → Prop
  | .hello n pkt env =>
    match (s.leg n).links .CONTROL_LINK with
    | none => env.stable = true → Ready n s
    | some p => Accepted n p pkt s → Room_For cfg n env s
  | .timer .Dead_Leg linkid _ =>
    s.queue linkid .Dead_Leg ≠ none → ∀ lk, s.control_link linkid = some lk →
      DEAD_LINK_CNT ≤ (s.leg lk.leg).hellos_out → (s.leg lk.leg).status = .CONNECTED_LEG
  | _ => True

theorem Coherent.Process_hello (h : Coherent s) {pkt : Hello_Packet}
    (hfine : Fine cfg s (.hello n pkt env)) :
    ∃ s', s.Process_hello cfg n pkt env = some s' ∧ Coherent s' := by
  rw [Daemon.Process_hello, Process_hello_ping]
  dsimp only [Fine] at hfine
  cases hp : (s.leg n).links .CONTROL_LINK with
  | some p =>
    rw [hp] at hfine
    simp only [reduceCtorEq, false_and, if_false, bind_some, hp]
    by_cases hping : pkt.type = .HELLO_PING_TYPE
    · exact ⟨s, if_pos hping, h⟩
    · rw [if_neg hping]
      exact h.Process_hello_packet hp hping hfine
  | none =>
    rw [hp] at hfine
    by_cases hstable : env.stable = true
    · obtain ⟨s₁, k, hs1, h1, -, hwait, hcount⟩ := (h.idle hp).create cfg (hfine hstable)
      simp only [hstable, and_self, if_true, hs1, map_some, bind_some]
      cases hp1 : (s₁.leg n).links .CONTROL_LINK with
      | none => exact ⟨s₁, rfl, h1⟩
      | some p =>
        by_cases hping : pkt.type = .HELLO_PING_TYPE
        · exact ⟨s₁, if_pos hping, h1⟩
        · -- the first hello of many, on the new link
          have hroom : Room_For cfg n env s₁ := by
            constructor
            · intro _ hcnt
              rw [hcount] at hcnt
              exact absurd hcnt (by decide)
            · intro hup
              simp [hwait] at hup
          obtain ⟨s', hs', h'⟩ := h1.Process_hello_packet hp1 hping (fun _ => hroom)
          exact ⟨s', (if_neg hping).trans hs', h'⟩
    · refine ⟨s, ?_, h⟩
      simp [hstable, hp]

theorem Coherent.Dead_Leg (h : Coherent s)
    (hfine : ∀ lk, s.control_link k = some lk → DEAD_LINK_CNT ≤ (s.leg lk.leg).hellos_out →
      (s.leg lk.leg).status = .CONNECTED_LEG) : ∃ s', s.Dead_Leg k = some s' ∧ Coherent s' := by
  rw [Daemon.Dead_Leg]
  cases hlk : s.control_link k with
  | none => exact ⟨s, rfl, h⟩
  | some lk =>
    by_cases hout : (s.leg lk.leg).hellos_out < DEAD_LINK_CNT
    · exact ⟨s, if_pos hout, h⟩
    · have hup := hfine lk hlk (not_lt.mp hout)
      obtain ⟨s', hs', hidle, -, hleft⟩ := h.disconnect (n := lk.leg) (by simp [hup])
      exact ⟨s', (if_neg hout).trans hs', hidle.coherent (hleft hup)⟩

theorem Coherent.next (h : Coherent s) {e : Event ν} (hfine : Fine cfg s e) :
    ∃ s', s.next cfg e = some s' ∧ Coherent s' := by
  cases e with
  | hello n pkt env => exact h.Process_hello hfine
  | packet n mode id body =>
    obtain ⟨s', hs', ht, hcalm⟩ := h.timed.Prot_process_scat cfg n mode id body
    exact ⟨s', hs', h.calm ht hcalm⟩
  | state_updates n k =>
    rw [Daemon.next]
    by_cases hup : s.neighbor_id n ≠ none ∧ s.edge_cost n ≠ -1
    · rw [if_pos hup]
      have hleg := h.leg n
      have hstatus : (s.leg n).status = .CONNECTED_LEG :=
        hleg.cost.mpr (by rw [← hleg.edge]; exact hup.2)
      obtain ⟨s', hs', ht, hcalm⟩ :=
        h.timed.Net_Send_State_Updates k hstatus (hleg.listed.mp hup.1)
      exact ⟨s', hs', h.calm ht hcalm⟩
    · exact ⟨s, if_neg hup, h⟩
  | forward n =>
    obtain ⟨s', hs', ht, hcalm⟩ := h.timed.Forward_Rel_UDP_Data n
    exact ⟨s', hs', h.calm ht hcalm⟩
  | timer f k c =>
    rw [Daemon.next]
    by_cases hq : s.queue k f = none
    · exact ⟨s, if_pos hq, h⟩
    · rw [if_neg hq]
      by_cases hf : f = .Dead_Leg
      · subst hf
        have hcalm : Calm s (s.E_dequeue .Dead_Leg k) := Calm.put s s.r_data _
        exact (h.calm (h.timed.E_dequeue .Dead_Leg k) hcalm).Dead_Leg (hfine hq)
      · obtain ⟨s', hs', ht, hcalm⟩ := h.timed.fire cfg c hf hq
        exact ⟨s', hs', h.calm ht hcalm⟩

/-! ## 9. Runs -/

omit [DecidableEq ν] in
theorem Coherent.init : Coherent (Init_Nodes : Daemon ν) where
  neighbors := fun _ _ => by simp [Init_Nodes]
  used := by simp [Init_Nodes]
  places := by simp [Init_Nodes]
  numbers := by simp [Init_Nodes]
  timed := Timed.init
  leg := fun _ => by constructor <;> simp [Init_Nodes, Network_Leg.new]

structure Consistent (s : Daemon ν) : Prop where
  disconnected : ∀ n, (s.leg n).status = .DISCONNECTED_LEG ↔ (s.leg n).links .CONTROL_LINK = none
  connected : ∀ n, (s.leg n).status = .CONNECTED_LEG ↔ (s.leg n).cost ≠ -1
  links : ∀ n, (s.leg n).status = .CONNECTED_LEG → (s.leg n).links .CONTROL_LINK ≠ none
    ∧ (s.leg n).links .UDP_LINK ≠ none ∧ (s.leg n).links .RELIABLE_UDP_LINK ≠ none
    ∧ (s.leg n).links .REALTIME_UDP_LINK ≠ none
  numbers : ∀ k p, s.Links k = some p ↔ ∃ lk, s.link p = some lk ∧ lk.link_id = k
    ∧ (s.leg lk.leg).links lk.link_type = some p
  neighbors : ∀ k n, s.Neighbor_Nodes k = some n ↔ s.neighbor_id n = some k
  listed : ∀ n, (∃ k, s.Neighbor_Nodes k = some n) ↔ (s.leg n).links .CONTROL_LINK ≠ none
  edges : ∀ n, s.edge_cost n = (s.leg n).cost

omit [DecidableEq ν] in
theorem Coherent.consistent (h : Coherent s) : Consistent s where
  disconnected n := (h.leg n).control
  connected n := (h.leg n).cost
  links n hup := by
    refine ⟨fun hno => ?_, (h.leg n).data hup⟩
    simp [(h.leg n).control.mpr hno] at hup
  numbers k p := by
    constructor
    · intro hk
      obtain ⟨lk, hlk, hid⟩ := h.timed.link_of_number hk
      exact ⟨lk, hlk, hid, h.timed.leg_of_link hlk⟩
    · rintro ⟨lk, hlk, rfl, -⟩
      exact h.timed.number_of_link hlk
  neighbors := h.neighbors
  listed n := by
    rw [← (h.leg n).listed, ne_none_iff_exists']
    exact exists_congr (fun k => h.neighbors k n)
  edges n := (h.leg n).edge

/-- The state machine of the legs. In a run whose steps all meet the condition,
the representations agree in every state, and no step that meets it stops the
daemon. -/
theorem legs_stay_consistent (cfg : Config ν) (legs : List ν) (s₀ s : Daemon ν)
    (hmode : cfg.Intrusion_Tolerance_Mode = false) (hinit : Init_Network cfg legs = some s₀)
    (hrun : Run (fun s e s' => Fine cfg s e ∧ Daemon.next cfg s e = some s') s₀ s) :
    Consistent s ∧ ∀ e, Fine cfg s e → (s.next cfg e).isSome = true := by
  have h0 : Coherent s₀ := by
    rw [Daemon.Init_Network, hmode] at hinit
    obtain rfl := some.inj hinit
    exact Coherent.init
  have h : Coherent s := by
    refine hrun.invariant Coherent h0 ?_
    rintro t e t' ht ⟨hfine, hnext⟩
    obtain ⟨t1, ht1, h1⟩ := ht.next hfine
    obtain rfl : t1 = t' := some.inj (ht1.symm.trans hnext)
    exact h1
  refine ⟨h.consistent, fun e hfine => ?_⟩
  obtain ⟨s', hs', -⟩ := h.next hfine
  rw [hs']
  rfl

def hear_one (s : Daemon Unit) (t : Hello_Type) : Option (Daemon Unit) :=
  if 3 ≤ Slots.room s.Links MAX_LINKS
      ∧ 0 < Slots.room s.Neighbor_Nodes (MAX_LINKS / MAX_LINKS_4_EDGE) then
    s.next plain (hello t)
  else
    none

theorem hear_one_fine {s s' : Daemon Unit} {t : Hello_Type} (h : s.hear_one t = some s') :
    Fine plain s (hello t) ∧ s.next plain (hello t) = some s' := by
  rw [hear_one] at h
  split_ifs at h with hroom
  refine ⟨?_, h⟩
  dsimp only [Fine, hello]
  cases (s.leg ()).links .CONTROL_LINK with
  | none => exact fun _ => ⟨lt_of_lt_of_le (by decide) hroom.1, fun _ => hroom.2⟩
  | some p =>
    intro _
    refine ⟨fun _ _ => ?_, fun _ hroute => absurd rfl hroute⟩
    rw [links_needed, if_neg (by simp [plain])]
    exact hroom.1

theorem legs_stay_consistent_connected :
    ∃ s : Daemon Unit, Run (fun s e s' => Fine plain s e ∧ Daemon.next plain s e = some s')
      Init_Nodes s ∧ (s.leg ()).status = .CONNECTED_LEG ∧ Consistent s := by
  let ts := Hello_Type.HELLO_PING_TYPE :: List.replicate 6 .HELLO_TYPE
  have hend : (ts.foldlM hear_one Init_Nodes).any (fun s =>
      (s.leg ()).status == .CONNECTED_LEG) = true := by
    decide +kernel
  obtain ⟨s, hs, hup⟩ := (any_eq_true _ _).mp hend
  have hrun : Run (fun s e s' => Fine plain s e ∧ Daemon.next plain s e = some s')
      Init_Nodes s := by
    have hall : ∀ (l : List Hello_Type) (t : Daemon Unit), l.foldlM hear_one t = some s →
        Run (fun s e s' => Fine plain s e ∧ Daemon.next plain s e = some s') t s := by
      intro l
      induction l with
      | nil =>
        intro t ht
        obtain rfl := some.inj ht
        exact Run.refl t
      | cons x l ih =>
        intro t ht
        rw [List.foldlM_cons] at ht
        obtain ⟨t', ht', ht⟩ := bind_eq_some_iff.mp ht
        exact .head ⟨_, hear_one_fine ht'⟩ (ih t' ht)
    exact hall ts Init_Nodes hs
  exact ⟨s, hrun, by simpa using hup,
    (legs_stay_consistent plain [()] Init_Nodes s rfl rfl hrun).1⟩

/-- A neighbor creates a control link and is never heard of again. After eleven
hellos without an answer `Dead_Leg` goes off; the leg was not connected, its
cost is -1 already, and its node stays in `Neighbor_Nodes` without a link. -/
theorem neighbor_kept_without_link :
    ¬ ∀ s : Daemon Unit, Run (fun s e s' => Daemon.next plain s e = some s') Init_Nodes s →
      Consistent s := by
  intro hclaim
  let c : Choice := ⟨0, 20000⟩
  let es : List (Event Unit) := hello .HELLO_PING_TYPE
    :: List.replicate 11 (.timer .Send_Hello 0 c) ++ [.timer .Dead_Leg 0 c]
  have hend : (es.foldlM (Daemon.next plain) Init_Nodes).any (fun s =>
      s.Neighbor_Nodes 0 == some () && (s.leg ()).links .CONTROL_LINK == none) = true := by
    decide +kernel
  obtain ⟨s, hs, hkept⟩ := (any_eq_true _ _).mp hend
  simp only [Bool.and_eq_true, beq_iff_eq] at hkept
  have hcons := hclaim s (Run.of_foldlM hs)
  exact (hcons.listed ()).mp ⟨0, hkept.1⟩ hkept.2

end Daemon

end Spines.Hello
