/-
`daemon/route.c`: forwarding along independently computed tables.

Every daemon runs `RR_Init` over the same node and link states and forwards a
packet of source `s` to the neighbors its own table gives for `s`. Nothing in a
packet says which path it is on. What makes the daemons agree is that all tables
show the same paths (`Table.lean`), and that the paths from one source agree with
each other: wherever a chosen path passes, it came there by the chosen path
(`Lib.PrefixClosed`). Hence unicast packets follow the chosen path
(`hop_by_hop_eq`), and the paths to the members of a group form a tree.
-/
import Spines.Routing.Table

set_option autoImplicit false

namespace Spines.Routing

open Spines.Lib List
open Option hiding or_self

/-! ## 1. Tables without overflow -/

section Defined

variable {net : Network} {w : Node_ID → Node_ID → Option Nat} {me : Node_ID} {S : Set Node_ID}
  {T : Node_ID → Node_ID → Option (List Node_ID)} {rr rr' : Routing_Regime} {k i j : Nat}
  {p q : List Node_ID}

theorem relax_route_fits (hi : i < net.All_Nodes_by_ID.length)
    (hj : j < net.All_Nodes_by_ID.length) (hk : k < net.All_Nodes_by_ID.length)
    (h : Agrees net w me (halfway net w T k i j) rr) (hrun : relax_route k i rr j = some rr') :
    HalvesFit net w T k i j := by
  intro p q _ hij hjk hp hq
  have hs_ik := h.shows i k hi hk
  have hs_kj := h.shows k j hk hj
  rw [halfway_column, hp] at hs_ik
  rw [halfway_row, hq] at hs_kj
  have hpos : ¬(rr.Routes k j).cost < 0 := by
    rw [hs_kj.neg_iff]
    simp
  unfold relax_route at hrun
  simp only [hij, hjk, hpos, or_self, if_false] at hrun
  obtain ⟨sum, hsum, -⟩ := bind_eq_some_iff.mp hrun
  unfold int32_add at hsum
  split at hsum
  · rename_i hrange
    rw [hs_ik.1, hs_kj.1] at hrange
    omega
  · simp at hsum

theorem relax_row_fits (hT : Exact w S T) (hi : i < net.All_Nodes_by_ID.length)
    (hk : k < net.All_Nodes_by_ID.length)
    (h : Agrees net w me (halfway net w T k i 0) rr) (hrun : relax_row k rr i = some rr') :
    ∀ j < net.All_Nodes_by_ID.length, HalvesFit net w T k i j := by
  intro j hj p q hik hij hjk hp
  have hs_ik := h.shows i k hi hk
  rw [halfway_column, hp] at hs_ik
  have hgo : ¬(i = k ∨ (rr.Routes i k).cost < 0) := by
    rw [hs_ik.neg_iff]
    simp [hik]
  rw [relax_row, if_neg hgo, h.num] at hrun
  have hall := foldlM_range_some (fun j rr => (∀ j' < j, HalvesFit net w T k i j') ∧
    Agrees net w me (halfway net w T k i j) rr) _ ⟨by simp, h⟩ ?_ hrun
  · exact hall.1 j hj p q hik hij hjk hp
  · rintro j t t' hj ⟨hbefore, hagree⟩ hstep
    have hfits := relax_route_fits hi hj hk hagree hstep
    obtain ⟨t'', hstep', hagree'⟩ := relax_route_step hT hi hj hk hik hp hfits hagree
    obtain rfl := some.inj (hstep.symm.trans hstep')
    refine ⟨?_, hagree'⟩
    intro j' hj'
    obtain hlt | rfl := Nat.lt_succ_iff_lt_or_eq.mp hj'
    · exact hbefore j' hlt
    · exact hfits

theorem relax_round_fits (hT : Exact w S T) (hk : k < net.All_Nodes_by_ID.length)
    (h : Agrees net w me (fun a b => T (net.node a) (net.node b)) rr)
    (hrun : relax_round rr k = some rr') :
    ∀ i < net.All_Nodes_by_ID.length, ∀ j < net.All_Nodes_by_ID.length,
      HalvesFit net w T k i j := by
  have hstart : Agrees net w me (halfway net w T k 0 0) rr :=
    h.congr (fun a b _ _ => by simp [halfway])
  rw [relax_round, h.num] at hrun
  have hall := foldlM_range_some (fun i rr => (∀ i' < i,
      ∀ j < net.All_Nodes_by_ID.length, HalvesFit net w T k i' j) ∧
    Agrees net w me (halfway net w T k i 0) rr) _ ⟨by simp, hstart⟩ ?_ hrun
  · exact hall.1
  · rintro i t t' hi ⟨hbefore, hagree⟩ hstep
    have hfits := relax_row_fits hT hi hk hagree hstep
    obtain ⟨t'', hstep', hagree'⟩ := relax_row_step hT hfits hi hk hagree
    obtain rfl := some.inj (hstep.symm.trans hstep')
    refine ⟨?_, hagree'⟩
    intro i' hi'
    obtain hlt | rfl := Nat.lt_succ_iff_lt_or_eq.mp hi'
    · exact hbefore i' hlt
    · exact hfits

theorem rr_init_defined (hloop : ∀ e ∈ net.All_Edges, e.src ≠ e.dst)
    (hrun : RR_Init me net = some rr) :
    Agrees net net.weight me (fun i j => net.chosen_path (net.node i) (net.node j)) rr ∧
      ∀ k < net.All_Nodes_by_ID.length, ∀ i < net.All_Nodes_by_ID.length,
        ∀ j < net.All_Nodes_by_ID.length, HalvesFit net net.weight (net.paths_after k) k i j := by
  obtain ⟨rr0, hfill, h0⟩ := fill_edges net me net.All_Edges net.keys net.ends hloop
  rw [RR_Init, hfill, bind_eq_bind, bind_some, h0.num] at hrun
  refine foldlM_range_some (fun m rr => Agrees net net.weight me
      (fun i j => net.paths_after m (net.node i) (net.node j)) rr ∧
    ∀ k < m, ∀ i < net.All_Nodes_by_ID.length, ∀ j < net.All_Nodes_by_ID.length,
      HalvesFit net net.weight (net.paths_after k) k i j) _ ⟨h0, by simp⟩ ?_ hrun
  rintro m t t' hm ⟨hagree, hbefore⟩ hstep
  have hT := paths_after_exact net m
  have hfits := relax_round_fits hT hm hagree hstep
  obtain ⟨t'', hstep', hagree'⟩ := relax_round_step hT hfits hm hagree
  obtain rfl := some.inj (hstep.symm.trans hstep')
  refine ⟨by rw [paths_after_succ]; exact hagree', ?_⟩
  intro k hk
  obtain hlt | rfl := Nat.lt_succ_iff_lt_or_eq.mp hk
  · exact hbefore k hlt
  · exact hfits

end Defined

/-! ## 2. The chosen paths -/

section Chosen

variable {net : Network} {me s d n v : Node_ID} {p q pre rest : List Node_ID}

theorem chosen_path_closed (net : Network) : PrefixClosed net.chosen_path :=
  PrefixClosed.rounds _ Exact.direct PrefixClosed.direct

/-- What the daemon at `me` computes: the neighbor it hands packets from `s` to
`d` to. -/
def next_hop (net : Network) (me s d : Node_ID) : Option Node_ID :=
  (RR_Init me net).bind fun rr => RR_Get_Next_Hop rr s d

theorem next_hop_eq (hloop : ∀ e ∈ net.All_Edges, e.src ≠ e.dst)
    (hdef : (RR_Init me net).isSome) (hs : s ∈ net.All_Nodes_by_ID) :
    next_hop net me s d =
      if d ∈ net.All_Nodes_by_ID then (net.chosen_path s d).bind (next me) else none := by
  obtain ⟨rr, hrun⟩ := isSome_iff_exists.mp hdef
  have hagree := (rr_init_defined hloop hrun).1
  rw [next_hop, hrun, bind_some, RR_Get_Next_Hop]
  by_cases hd : d ∈ net.All_Nodes_by_ID
  · obtain ⟨rt, hfind, hshow⟩ := find_route_agrees hagree hs hd
    rw [hfind, if_pos hd, bind_some]
    cases hp : net.chosen_path s d with
    | none =>
      rw [hp] at hshow
      exact hshow.2
    | some p =>
      rw [hp] at hshow
      exact hshow.2.2
  · have hindex : RR_Get_Node_Index rr d = none := by
      rw [RR_Get_Node_Index, hagree.ids, idxOf?_eq_none_iff]
      exact hd
    rw [if_neg hd, RR_Find_Route, hindex]
    cases RR_Get_Node_Index rr s with
    | none => rfl
    | some i => rfl

theorem mem_nodes_of_path (hs : s ∈ net.All_Nodes_by_ID) (hp : net.LivePath s d p) :
    ∀ x ∈ p, x ∈ net.All_Nodes_by_ID := by
  intro x hx
  have hp' : Path net.weight {x | x ∈ net.All_Nodes_by_ID} s d p := hp.restrict net.edge_end
  have hend : d ∈ net.All_Nodes_by_ID := by
    clear hx
    unfold Network.LivePath at hp
    induction hp with
    | nil i => exact hs
    | cons hedge _ ht ih => exact ih (net.edge_end _ _ hedge) (ht.restrict net.edge_end)
  rcases hp'.mem hx with rfl | rfl | hmem
  · exact hs
  · exact hend
  · exact hmem

theorem next_of_append (hn : n ∉ pre) : next n (pre ++ n :: rest) = rest.head? := by
  induction pre with
  | nil =>
    cases rest with
    | nil => rfl
    | cons v rest => simp [Lib.next]
  | cons a pre ih =>
    rw [mem_cons, not_or] at hn
    rw [cons_append, next_cons _ _ _ (by simp), if_neg (Ne.symm hn.1), ih hn.2]

end Chosen

/-! ## 3. Unicast -/

/-- The nodes that a packet from `s` to `d` comes to from `n` on, in at most as
many hops as the first argument says. -/
def hop_by_hop (net : Network) (s d : Node_ID) : ℕ → Node_ID → List Node_ID
  | 0, n => [n]
  | hops + 1, n =>
    match next_hop net n s d with
    | none => [n]
    | some v => n :: hop_by_hop net s d hops v

/-- Packets from `s` to `d` follow one simple path; every daemon's route from `s`
to `d` counts its hops and its cost. -/
def HopByHop (net : Network) (s d : Node_ID) : Prop :=
  ∃ p, (∀ hops, p.length ≤ hops + 1 → hop_by_hop net s d hops s = p) ∧
    p.Nodup ∧ net.LivePath s d p ∧ next_hop net d s d = none ∧
    ∀ me ∈ net.All_Nodes_by_ID, ∃ rr rt, RR_Init me net = some rr ∧
      RR_Find_Route rr s d = some rt ∧ rt.distance = (p.length - 1 : ℕ) ∧
      rt.cost = net.path_cost p

/-- There is a route from `s` to `d`. -/
def HasRoute (net : Network) (s d : Node_ID) : Prop :=
  ∃ rr rt, RR_Init s net = some rr ∧ RR_Find_Route rr s d = some rt ∧ 0 ≤ rt.cost

section Unicast

variable {net : Network} {s d n : Node_ID} {p pre rest : List Node_ID}

/-- From a node of the chosen path on, a packet follows the rest of it, as far as
its hops go. The induction is on this rest. -/
theorem hop_by_hop_take (hloop : ∀ e ∈ net.All_Edges, e.src ≠ e.dst)
    (hdef : ∀ n ∈ net.All_Nodes_by_ID, (RR_Init n net).isSome) (hs : s ∈ net.All_Nodes_by_ID)
    (hd : d ∈ net.All_Nodes_by_ID) (hp : net.chosen_path s d = some p) (hops : ℕ)
    (pre : List Node_ID) (hrest : p = pre ++ n :: rest) :
    hop_by_hop net s d hops n = (n :: rest).take (hops + 1) := by
  have hT := chosen_path_exact net
  have hmem := mem_nodes_of_path hs (hT.path hp)
  have hnext : ∀ {pre n rest}, p = pre ++ n :: rest → next_hop net n s d = rest.head? := by
    intro pre n rest hrest
    have hn : n ∈ net.All_Nodes_by_ID := hmem n (by simp [hrest])
    have hnd := hT.nodup hp
    rw [hrest, nodup_append] at hnd
    rw [next_hop_eq hloop (hdef n hn) hs, if_pos hd, hp, bind_some, hrest,
      next_of_append]
    intro hpre
    exact hnd.2.2 n hpre n mem_cons_self rfl
  induction rest generalizing pre n hops with
  | nil =>
    cases hops with
    | zero => rfl
    | succ hops => rw [hop_by_hop, hnext hrest, head?_nil]; rfl
  | cons v rest ih =>
    cases hops with
    | zero => rfl
    | succ hops =>
      rw [hop_by_hop, hnext hrest, head?_cons]
      dsimp only
      rw [ih hops (pre ++ [n]) (by simp [hrest]), ← take_succ_cons]

theorem hop_by_hop_eq (hloop : ∀ e ∈ net.All_Edges, e.src ≠ e.dst)
    (hdef : ∀ n ∈ net.All_Nodes_by_ID, (RR_Init n net).isSome) (hs : s ∈ net.All_Nodes_by_ID)
    (hd : d ∈ net.All_Nodes_by_ID) (hp : net.chosen_path s d = some p) (hops : ℕ) :
    hop_by_hop net s d hops s = p.take (hops + 1) := by
  have hcons := ((chosen_path_exact net).path hp).eq_cons
  rw [hop_by_hop_take hloop hdef hs hd hp hops [] hcons, ← hcons]

theorem path_of_route (hloop : ∀ e ∈ net.All_Edges, e.src ≠ e.dst)
    (hs : s ∈ net.All_Nodes_by_ID) (hroute : HasRoute net s d) :
    d ∈ net.All_Nodes_by_ID ∧ ∃ p, net.chosen_path s d = some p := by
  obtain ⟨rr, rt, hrun, hfind, hcost⟩ := hroute
  have hagree := (rr_init_defined hloop hrun).1
  have hd : d ∈ net.All_Nodes_by_ID := by
    unfold RR_Find_Route at hfind
    obtain ⟨i, -, hfind⟩ := bind_eq_some_iff.mp hfind
    obtain ⟨j, hj, -⟩ := bind_eq_some_iff.mp hfind
    rw [RR_Get_Node_Index, hagree.ids] at hj
    apply Classical.byContradiction
    intro hnot
    rw [idxOf?_eq_none_iff.mpr hnot] at hj
    simp at hj
  obtain ⟨rt', hfind', hshow⟩ := find_route_agrees hagree hs hd
  obtain rfl := some.inj (hfind.symm.trans hfind')
  refine ⟨hd, ?_⟩
  apply ne_none_iff_exists'.mp
  intro hnone
  exact absurd (hshow.neg_iff.mpr hnone) (not_lt.mpr hcost)

theorem route_of_path (hloop : ∀ e ∈ net.All_Edges, e.src ≠ e.dst)
    (hdef : (RR_Init s net).isSome) (hs : s ∈ net.All_Nodes_by_ID)
    (hd : d ∈ net.All_Nodes_by_ID) (hp : net.chosen_path s d = some p) : HasRoute net s d := by
  obtain ⟨rr, hrun⟩ := isSome_iff_exists.mp hdef
  obtain ⟨rt, hfind, hshow⟩ := find_route_agrees (rr_init_defined hloop hrun).1 hs hd
  rw [hp] at hshow
  refine ⟨rr, rt, hrun, hfind, ?_⟩
  rw [hshow.1]
  omega

/-- With at most 32768 nodes all hop counts fit, and packets follow the routes. -/
theorem hop_by_hop_consistent (net : Network) (hloop : ∀ e ∈ net.All_Edges, e.src ≠ e.dst)
    (hn : net.All_Nodes_by_ID.length ≤ 32768) (s d : Node_ID) (hs : s ∈ net.All_Nodes_by_ID)
    (hd : d ∈ net.All_Nodes_by_ID) (hroute : HasRoute net s d) : HopByHop net s d := by
  have hsmall : 2 * ((net.All_Nodes_by_ID.length - 1) * 2 ^ 15) < 2 ^ 31 := by omega
  have hinit := rr_init_agrees hloop (weight_le net) hsmall
  have hdef : ∀ n ∈ net.All_Nodes_by_ID, (RR_Init n net).isSome := by
    intro n _
    obtain ⟨rr, hrun, -⟩ := hinit n
    rw [hrun]
    rfl
  have hT := chosen_path_exact net
  obtain ⟨-, p, hp⟩ := path_of_route hloop hs hroute
  have hpath := hT.path hp
  refine ⟨p, ?_, hT.nodup hp, hpath, ?_, ?_⟩
  · intro hops hlen
    rw [hop_by_hop_eq hloop hdef hs hd hp hops, take_of_length_le hlen]
  · rw [next_hop_eq hloop (hdef d hd) hs, if_pos hd, hp, bind_some]
    have hlast := (hpath.next_isSome (hT.nodup hp) (v := d)).not.mpr (by simp)
    exact not_isSome_iff_eq_none.mp hlast
  · intro me _
    obtain ⟨rr, hrun, hagree⟩ := hinit me
    obtain ⟨rt, hfind, hshow⟩ := find_route_agrees hagree hs hd
    rw [hp] at hshow
    refine ⟨rr, rt, hrun, hfind, ?_, hshow.1⟩
    have hlen := path_length_le hs hpath (hT.nodup hp)
    rw [hshow.2.1, int16, Int.bmod_eq_of_le] <;> omega

theorem hop_by_hop_short_line : HopByHop (line_network 2) 0 2 := by
  refine hop_by_hop_consistent (line_network 2) (line_loop 2) (by decide) 0 2 (by decide)
    (by decide) ?_
  exact ⟨_, _, rfl, rfl, by decide⟩

theorem line_not_hop_by_hop {m : ℕ} (hm : 2 ^ 15 ≤ m) (hcost : m < 2 ^ 30) :
    HasRoute (line_network m) 0 m ∧ ¬HopByHop (line_network m) 0 m := by
  have h0 := line_mem m 0 (by omega)
  have hm' := line_mem m m (by omega)
  obtain ⟨rr, hrun, hagree⟩ := rr_init_agrees (line_loop m) (line_weight_le m)
    (by rw [line_length]; omega) 0
  obtain ⟨rt, hfind, hshow⟩ := find_route_agrees hagree h0 hm'
  have hpath : (line_network m).LivePath 0 (0 + m) _ := line_path m 0 (by omega)
  rw [zero_add] at hpath
  obtain ⟨q, hq, -⟩ := (chosen_path_exact (line_network m)).best hpath
  rw [hq] at hshow
  refine ⟨⟨rr, rt, hrun, hfind, ?_⟩, ?_⟩
  · rw [hshow.1]
    omega
  · rintro ⟨p, -, -, hp, -, hall⟩
    obtain ⟨rr', rt', hrun', hfind', hdist, -⟩ := hall 0 h0
    obtain rfl := some.inj (hrun.symm.trans hrun')
    obtain rfl := some.inj (hfind.symm.trans hfind')
    have hlen := line_path_length hp
    have hreal : rt.distance < 2 ^ 15 := by
      rw [hshow.2.1, int16]
      exact Int.bmod_lt (by decide)
    omega

/-- 32768 hops away, which is one more than a hop count can be. -/
theorem long_line_hop_count :
    HasRoute (line_network 32768) 0 32768 ∧ ¬HopByHop (line_network 32768) 0 32768 :=
  line_not_hop_by_hop (by decide) (by decide)

end Unicast

end Spines.Routing
