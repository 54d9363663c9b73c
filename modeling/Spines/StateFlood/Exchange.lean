/-
`daemon/state_flood.c`: two daemons give each other their tables.

When a link comes up, each end sends its whole table (`Net_Send_State_All`) and puts what it reads
from the packets of the other into its own. Both tables have the states of either end. The
packets may come in any order and more than once; in a state of its own node a daemon
is not behind the other. Both have one byte order: the packets of the other one are not
understood (`p_def`).
-/
import Spines.StateFlood.Packets

set_option autoImplicit false

namespace Spines.StateFlood

open Spines.Lib List Option

section Exchange

variable {p : Prot_Def} {e : Endian} {now : sp_time} {refs : ℕ → Mem}
  {states : List (Chain p)} {d d' : Daemon p} {u : Update p} {us : List (Update p)}
  {rs : List (Received p)} {src dst : Spines_ID}

/-- The packets of a table, as a daemon of the same byte order reads them. -/
theorem own_parts (htyped : ∀ s_chain ∈ states, s_chain.Typed) :
    (∀ pk ∈ Net_Send_State_All refs e now states,
      parse e true pk.buff pk.len = some (pk.parts, pk.len)) ∧
    ((Net_Send_State_All refs e now states).flatMap fun pk => cells pk.parts) =
      states.flatMap (Chain.cells now) := by
  obtain ⟨hparse, hcells⟩ := @send_all_parts _ e e refs now states htyped
  refine ⟨fun pk hpk => ?_, hcells⟩
  simpa using (hparse pk hpk).2

/-! ## 1. Cells of a node that is not behind -/

/-- It is about another node, or not newer than what is stored. -/
def Update.Due (d : Daemon p) (u : Update p) : Prop :=
  d.Is_Neighbor u.sender ∧ (u.source = d.My_Address →
    ∃ v ∈ d.stored u.source u.cell.dest, u.cell.version.stamp ≤ v.stamp)

theorem Update.Due.apply (h : u.Due d) : ∃ d', u.apply d = some d' ∧ Same_Neighbors d d' ∧
    (∀ x y, d'.stored x y = if x = u.source ∧ y = u.cell.dest then
      keep_newer Version.stamp (d.stored u.source u.cell.dest) u.cell.version else d.stored x y) ∧
    ∀ y, d'.stored d.My_Address y = d.stored d.My_Address y := by
  obtain ⟨hn, hown⟩ := h
  by_cases hsrc : u.source = d.My_Address
  · obtain ⟨v, hv, hle⟩ := hown hsrc
    obtain ⟨s_data, hfind, rfl⟩ := map_eq_some_iff.mp hv
    have hold : ¬s_data.older u.cell := fun h => absurd (older_iff.mp h) (not_lt.mpr hle)
    obtain ⟨d', hrun, hsame, hstored⟩ : ∃ d', u.apply d = some d' ∧ Same_Neighbors d d' ∧
        ∀ x y, d'.stored x y = d.stored x y := by
      obtain ⟨id, hid⟩ := hn.neighbor_id
      unfold Update.apply process_cell
      simp only [hfind, all_some, hold, any_some, hid, Bool.false_eq_true, if_false]
      split
      · split
        · exact ⟨_, rfl, .refl d, fun _ _ => rfl⟩
        · exact ⟨_, rfl, ⟨rfl, rfl, rfl⟩, fun _ _ => rfl⟩
      · exact ⟨_, rfl, .refl d, fun _ _ => rfl⟩
    refine ⟨d', hrun, hsame, fun x y => ?_, fun y => hstored _ y⟩
    rw [hstored]
    split
    · rename_i hkey
      rw [hkey.1, hkey.2, hv, keep_newer, if_neg (not_lt.mpr hle)]
    · rfl
  · obtain ⟨⟨d', flag⟩, hcell⟩ :=
      isSome_iff_exists.mp (process_cell_isSome u.now hsrc hn u.cell false)
    obtain ⟨hstored, hsame⟩ := process_cell_stored hsrc hcell
    refine ⟨d', by rw [Update.apply, hcell]; rfl, hsame, hstored, fun y => ?_⟩
    rw [hstored, if_neg fun h => hsrc h.1.symm]

theorem updates_due (hus : ∀ u ∈ us, u.Due d) : ∃ d', us.foldlM Update.apply d = some d' ∧
    ∀ src dst, d'.stored src dst =
      (versions us src dst).foldl (keep_newer Version.stamp) (d.stored src dst) := by
  induction us generalizing d with
  | nil => exact ⟨d, rfl, fun _ _ => rfl⟩
  | cons u us ih =>
    obtain ⟨d1, hrun, hsame, hstored, hown⟩ := (hus u mem_cons_self).apply
    obtain ⟨d', hrun', hstored'⟩ := @ih d1 fun u' hu' => by
      obtain ⟨hn, hsrc⟩ := hus u' (mem_cons_of_mem u hu')
      refine ⟨hn.same hsame, fun haddr => ?_⟩
      rw [hsame.address] at haddr
      rw [haddr, hown, ← haddr]
      exact hsrc haddr
    refine ⟨d', by rw [foldlM_cons, hrun]; exact hrun', fun src dst => ?_⟩
    rw [hstored', hstored, versions, versions, filter_cons]
    by_cases hkey : src = u.source ∧ dst = u.cell.dest
    · obtain ⟨rfl, rfl⟩ := hkey
      simp
    · have hkey' : ¬(u.source = src ∧ u.cell.dest = dst) := fun h => hkey ⟨h.1.symm, h.2.symm⟩
      rw [if_neg hkey, if_neg (by simpa using hkey')]

/-! ## 2. Two tables -/

/-- `states` is how the hashes enumerate the table. -/
def Daemon.Enumerated (d : Daemon p) (states : List (Chain p)) : Prop :=
  ∀ src dst s_data, Find_State d.All_States src dst = some s_data ↔
    ∃ s_chain ∈ states, s_chain.1 = src ∧ (dst, s_data) ∈ s_chain.2

/-- `b` has got the packets `rs` of `a` with its table, each at least once, and is not behind `a` in
the states of its own node. -/
structure Given (a b : Daemon p) (e : Endian) (rs : List (Received p)) : Prop where
  nbr : b.Is_Neighbor a.My_Address
  sender : ∀ r ∈ rs, r.sender = a.My_Address
  own : ∀ dst, ∀ v ∈ a.stored b.My_Address dst,
    ∃ v' ∈ b.stored b.My_Address dst, v.stamp ≤ v'.stamp
  packets : ∃ new_ref_cnt now states, a.Enumerated states ∧ (∀ s_chain ∈ states, s_chain.Typed) ∧
    (∀ pk ∈ Net_Send_State_All new_ref_cnt e now states, ∃ r ∈ rs, ∃ n,
      parse e true pk.buff pk.len = some (r.parts, n)) ∧
    ∀ r ∈ rs, ∃ pk ∈ Net_Send_State_All new_ref_cnt e now states, ∃ n,
      parse e true pk.buff pk.len = some (r.parts, n)

theorem mem_updates : u ∈ updates rs ↔ ∃ r ∈ rs, u.now = r.now ∧ u.sender = r.sender ∧
    (u.source, u.cell) ∈ cells r.parts := by
  simp only [updates, Received.updates, cells, mem_flatMap, List.mem_map]
  constructor
  · rintro ⟨r, hr, part, hpart, c, hc, rfl⟩
    exact ⟨r, hr, rfl, rfl, part, hpart, c, hc, rfl⟩
  · rintro ⟨r, hr, hnow, hsender, part, hpart, c, hc, hcell⟩
    obtain ⟨hsource, rfl⟩ := Prod.mk.inj hcell
    refine ⟨r, hr, part, hpart, u.cell, hc, ?_⟩
    rw [← hnow, ← hsender, hsource]

/-- What comes is what is stored. -/
theorem Given.cells {a b : Daemon p} (h : Given a b e rs) {v : Version p} :
    (∃ u ∈ updates rs, u.source = src ∧ u.cell.dest = dst ∧ u.cell.version = v) ↔
      v ∈ a.stored src dst := by
  obtain ⟨refs, now, states, hen, htyped, hall, honly⟩ := h.packets
  obtain ⟨hparse, hcells⟩ := @own_parts _ e now refs _ htyped
  have hmem : ∀ x, (∃ r ∈ rs, x ∈ StateFlood.cells r.parts) ↔ x ∈ states.flatMap (Chain.cells now) := by
    intro x
    rw [← hcells, mem_flatMap]
    constructor
    · rintro ⟨r, hr, hx⟩
      obtain ⟨pk, hpk, n, hrun⟩ := honly r hr
      have hparts := (Prod.mk.inj (some.inj ((hparse pk hpk).symm.trans hrun))).1
      exact ⟨pk, hpk, hparts ▸ hx⟩
    · rintro ⟨pk, hpk, hx⟩
      obtain ⟨r, hr, n, hrun⟩ := hall pk hpk
      have hparts := (Prod.mk.inj (some.inj ((hparse pk hpk).symm.trans hrun))).1
      exact ⟨r, hr, hparts ▸ hx⟩
  constructor
  · rintro ⟨u, hu, rfl, rfl, rfl⟩
    obtain ⟨r, hr, -, -, hx⟩ := mem_updates.mp hu
    obtain ⟨s_chain, hchain, hx⟩ := mem_flatMap.mp ((hmem _).mp ⟨r, hr, hx⟩)
    obtain ⟨s, hs, hcell⟩ := List.mem_map.mp hx
    obtain ⟨hsource, hcell⟩ := Prod.mk.inj hcell
    have hfind := (hen s_chain.1 s.1 s.2).mpr ⟨s_chain, hchain, rfl, hs⟩
    rw [← hsource, ← hcell]
    exact map_eq_some_iff.mpr ⟨s.2, hfind, rfl⟩
  · intro hv
    obtain ⟨s_data, hfind, rfl⟩ := map_eq_some_iff.mp hv
    obtain ⟨s_chain, hchain, rfl, hs⟩ := (hen src dst s_data).mp hfind
    obtain ⟨r, hr, hx⟩ := (hmem (s_chain.1, s_data.cell now dst)).mpr
      (mem_flatMap.mpr ⟨s_chain, hchain, List.mem_map.mpr ⟨_, hs, rfl⟩⟩)
    exact ⟨⟨r.now, r.sender, s_chain.1, s_data.cell now dst⟩,
      mem_updates.mpr ⟨r, hr, rfl, rfl, hx⟩, rfl, rfl, rfl⟩

theorem Given.newest {a b : Daemon p} (h : Given a b e rs) :
    ∃ b', receive_all b rs = some b' ∧ ∀ src dst, (∀ v, v ∈ versions (updates rs) src dst ↔
        v ∈ a.stored src dst) ∧ Newest Version.stamp (b.stored src dst)
          (versions (updates rs) src dst) (b'.stored src dst) := by
  obtain ⟨b', hrun, hstored⟩ := @updates_due _ b (updates rs) fun u hu => by
    refine ⟨?_, fun hsource => ?_⟩
    · obtain ⟨r, hr, -, hsender, -⟩ := mem_updates.mp hu
      rw [hsender, h.sender r hr]
      exact h.nbr
    · have hv := h.cells.mp ⟨u, hu, rfl, rfl, rfl⟩
      rw [hsource] at hv ⊢
      exact h.own _ _ hv
  refine ⟨b', (receive_all_eq b rs).trans hrun, fun src dst => ⟨fun v => ?_, ?_⟩⟩
  · rw [← h.cells, versions, List.mem_map]
    simp only [mem_filter, decide_eq_true_eq, and_assoc]
  · rw [hstored]
    exact Newest.foldl _ _ _

/-- **Two neighbors that have given each other their tables store the same versions**, for every
state of every node, and none older than either had before. Versions of one state with one
stamp are one version. -/
theorem tables_agree {a b : Daemon p} {ra rb : List (Received p)} (hab : Given a b e rb)
    (hba : Given b a e ra) (hsame : ∀ src dst, ∀ v ∈ a.stored src dst,
      ∀ v' ∈ b.stored src dst, v.stamp = v'.stamp → v = v') :
    ∃ a' b', receive_all a ra = some a' ∧ receive_all b rb = some b' ∧ ∀ src dst,
      a'.stored src dst = b'.stored src dst ∧
      ∀ v, v ∈ a.stored src dst ∨ v ∈ b.stored src dst →
        ∃ v' ∈ a'.stored src dst, v.stamp ≤ v'.stamp := by
  obtain ⟨a', ha', hnewa⟩ := hba.newest
  obtain ⟨b', hb', hnewb⟩ := hab.newest
  refine ⟨a', b', ha', hb', fun src dst => ?_⟩
  obtain ⟨hmema, ha⟩ := hnewa src dst
  obtain ⟨hmemb, hb⟩ := hnewb src dst
  refine ⟨ha.agree hb hmema hmemb (hsame src dst), fun v hv => ?_⟩
  obtain hv | hv := hv
  · obtain ⟨v', hv', hle, -⟩ := ha.some_of_old v hv
    exact ⟨v', hv', hle⟩
  · exact ha.some_of_mem v ((hmema v).mpr hv)

/-- Each packet once, in order. -/
theorem Given.in_order {a b : Daemon p} (hnbr : b.Is_Neighbor a.My_Address)
    (hown : ∀ dst, ∀ v ∈ a.stored b.My_Address dst,
      ∃ v' ∈ b.stored b.My_Address dst, v.stamp ≤ v'.stamp)
    (hen : a.Enumerated states) (htyped : ∀ s_chain ∈ states, s_chain.Typed) :
    ∃ rs, Given a b e rs := by
  have hparse := (@own_parts _ e ⟨0, 0⟩ (fun _ _ => 0) _ htyped).1
  refine ⟨(Net_Send_State_All (fun _ _ => 0) e ⟨0, 0⟩ states).map fun pk =>
    ⟨⟨0, 0⟩, a.My_Address, pk.parts⟩, hnbr, by simp, hown, fun _ _ => 0, ⟨0, 0⟩, states, hen, htyped,
    fun pk hpk => ⟨_, List.mem_map.mpr ⟨pk, hpk, rfl⟩, _, hparse pk hpk⟩, fun r hr => ?_⟩
  obtain ⟨pk, hpk, rfl⟩ := List.mem_map.mp hr
  exact ⟨pk, hpk, _, hparse pk hpk⟩

end Exchange

/-- The neighbor of `one_edge`, when it has just started. -/
def started : Daemon .Edge_Prot_Def := { one_edge with
  My_Address := 2
  All_States := fun _ => none
  Neighbor_Nodes := [some 1]
  leg_cost := fun n => if n = 1 then 1 else -1 }

theorem tables_agree_started : ∃ ra rb a' b', receive_all one_edge ra = some a' ∧
    receive_all started rb = some b' ∧ a'.stored 3 4 = b'.stored 3 4 := by
  have hnone : ∀ src dst, started.stored src dst = none := fun _ _ => rfl
  have hown : ∀ dst, one_edge.stored 2 dst = none := fun _ => rfl
  have hedge : one_edge.Enumerated [(3, [(4, ⟨5, 0, 5, 0, 10, 0, 0⟩)])] := by
    intro src dst s_data
    have hempty : Find_State (p := .Edge_Prot_Def) (fun _ => none) src dst = none := rfl
    rw [one_edge, find_put, hempty]
    split
    · rename_i hkey
      simp [hkey.1, hkey.2, eq_comm]
    · rename_i hkey
      refine iff_of_false (by simp) ?_
      rintro ⟨s_chain, hchain, hsrc, hs⟩
      obtain rfl := mem_singleton.mp hchain
      exact hkey ⟨hsrc.symm, (Prod.mk.inj (mem_singleton.mp hs)).1⟩
  have htyped : Chain.Typed (p := .Edge_Prot_Def) (3, [(4, ⟨5, 0, 5, 0, 10, 0, 0⟩)]) :=
    ⟨by decide, by simp; exact ⟨by decide, by decide, by decide⟩⟩
  obtain ⟨rb, hb⟩ := @Given.in_order _ .little _ one_edge started
    (by simp [Daemon.Is_Neighbor, Daemon.connected, one_edge, started])
    (fun dst v hv => absurd ((hown dst).symm.trans hv) (by simp)) hedge (by simpa using htyped)
  obtain ⟨ra, ha⟩ := @Given.in_order _ .little [] started one_edge
    (by simp [Daemon.Is_Neighbor, Daemon.connected, one_edge, started])
    (fun dst v hv => absurd ((hnone _ dst).symm.trans hv) (by simp))
    (fun src dst s_data => iff_of_false (by simp [started, Find_State]) (by simp)) (by simp)
  obtain ⟨a', b', ha', hb', hagree⟩ := tables_agree hb ha fun src dst v hv v' hv' =>
    absurd ((hnone src dst).symm.trans hv') (by simp)
  exact ⟨ra, rb, a', b', ha', hb', (hagree 3 4).1⟩

end Spines.StateFlood
