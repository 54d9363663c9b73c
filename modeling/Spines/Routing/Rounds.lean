/-
`daemon/multipath.c`: the rounds of `MultiPath_Compute`, whatever costs it is asked to use.

Infinity is an ordinary number, edges are relaxed from unreached nodes, and residual edges have
negative costs. That a round nevertheless ends, and that the predecessors of a destination which
was reached lead back to the local node, follows from the potentials of `MultiPath.lean`; these
know only the costs of the links, so other costs are first written as such (`effective`).

All of it rests on costs that are not negative. Costs are made positive by
`abs`, which leaves -32768 alone, and base costs are taken as they are. With one edge of a
negative cost the node in front of it never comes to rest (`negative_progress`).
-/
import Spines.Routing.Disjoint

set_option autoImplicit false

namespace Spines.MultiPath

open Spines.Lib Spines.Routing Option List

/-! ## 1. What a round is meant to do -/

/-- `l` are the predecessors of `t`, back to the local node, none of them `NULL`. -/
def Leads_Back (tp : Topology) (g : Flow_Graph) : Flow_Node → List Flow_Edge → Prop
  | t, [] => t = Flow_Nodes_Outbound tp.My_ID
  | t, e :: l => t ≠ Flow_Nodes_Outbound tp.My_ID ∧ g.previous_edge t = some e ∧
      Leads_Back tp g e.start l

/-- The state `MultiPath_Compute` begins its rounds in. -/
def no_flow : Flow_Graph where
  flow e := if e.residual then 1 else 0
  distance _ := USHRT_MAX
  previous_edge _ := none
  progress := false
  bag_of_edges := []

section Rounds

variable (tp : Topology) (ls : Link_States) (base rev : Bool)

/-- In each of `k` rounds the relaxation comes to rest, and a destination that is reached has a
way back, on which every residual edge has its twin in the bag. -/
def Sound_Rounds (dest_id : ℕ) : ℕ → Flow_Graph → Prop
  | 0, _ => True
  | k + 1, g =>
    let g := relax_rounds tp ls base rev (tp.Num_Nodes * 2 + 1)
      (init_graph tp g)
    g.progress = false ∧
      (g.distance (Flow_Nodes_Inbound dest_id) ≠ USHRT_MAX →
        (∃ l, Leads_Back tp g (Flow_Nodes_Inbound dest_id) l ∧
          ∀ e ∈ l, e.residual → e.twin ∈ g.bag_of_edges) ∧
        ∃ g', augment tp (tp.Num_Nodes * 2) g (Flow_Nodes_Inbound dest_id) = some g' ∧
          Sound_Rounds dest_id k g')

def Topology.seen_by {tp : Topology} (id : ℕ) (h : id ∈ tp.nodes) : Topology :=
  { tp with My_ID := id, my_id_mem := h }

/-- At every node, for every other destination and every `k`. -/
def Always_Sound : Prop :=
  ∀ id (h : id ∈ tp.nodes), ∀ dest_id ∈ tp.nodes, dest_id ≠ id → ∀ k,
    Sound_Rounds (Topology.seen_by id h) ls base rev dest_id k no_flow

def Costs_Nonneg : Prop :=
  ∀ s d, tp.Linked s d →
    ∀ c ∈ link_cost base rev (ls.edge s d) (ls.edge d s), 0 ≤ c

end Rounds

/-! ## 2. Other costs -/

section Effective

variable {tp : Topology} {ls ls' : Link_States} {base rev : Bool}

theorem int16_range (x : ℤ) : -2 ^ 15 ≤ int16 x ∧ int16 x < 2 ^ 15 := by
  have hlo : -((2 ^ 16 : ℕ) / 2 : ℤ) ≤ Int.bmod x (2 ^ 16) := Int.le_bmod (by decide)
  have hhi : Int.bmod x (2 ^ 16) < (((2 ^ 16 : ℕ) : ℤ) + 1) / 2 := Int.bmod_lt (by decide)
  unfold int16
  omega

theorem link_cost_range (ls : Link_States) (s d : ℕ) {c : ℤ}
    (h : c ∈ link_cost base rev (ls.edge s d) (ls.edge d s)) :
    -2 ^ 15 ≤ c ∧ c < 2 ^ 15 := by
  have hbase := ls.base_cost_range s d
  have hbase' := ls.base_cost_range d s
  have habs := int16_range |(ls.edge s d).cost|
  have habs' := int16_range |(ls.edge d s).cost|
  unfold link_cost at h
  dsimp only at h
  split at h
  · obtain rfl := some.inj h
    split
    · split <;> assumption
    · exact hbase
  · split at h
    · cases h
    · obtain rfl := some.inj h
      split
      · split <;> assumption
      · exact habs

def effective (ls : Link_States) (base rev : Bool) : Link_States where
  edge s d :=
    { cost := (link_cost base rev (ls.edge s d) (ls.edge d s)).getD (-1)
      base_cost := 0 }
  cost_range s d := by
    dsimp only
    cases hcost : link_cost base rev (ls.edge s d) (ls.edge d s) with
    | none => decide
    | some c => exact link_cost_range ls s d hcost
  base_cost_range _ _ := by
    dsimp only
    omega

theorem flow_edge_cost_effective (hnn : Costs_Nonneg tp ls base rev)
    {e : Flow_Edge} (he : e ∈ flow_edges tp) : flow_edge_cost ls base rev e =
      flow_edge_cost (effective ls base rev) false false e := by
  obtain ⟨p, b⟩ := e
  obtain ⟨v, -, rfl⟩ | ⟨s, d, hlink, rfl⟩ := mem_flow_pairs.mp (mem_flow_edges.mp he)
  · rfl
  have hcost : link_cost false false
      ((effective ls base rev).edge s d)
      ((effective ls base rev).edge d s) =
      link_cost base rev (ls.edge s d) (ls.edge d s) := by
    have hrange : ∀ c ∈ link_cost base rev (ls.edge s d) (ls.edge d s),
        -2 ^ 15 ≤ c ∧ c < 2 ^ 15 := fun c hc => link_cost_range ls s d hc
    have heff : ((effective ls base rev).edge s d).cost =
        (link_cost base rev (ls.edge s d) (ls.edge d s)).getD (-1) := rfl
    cases hc : link_cost base rev (ls.edge s d) (ls.edge d s) with
    | none =>
      rw [hc, getD_none] at heff
      simp [link_cost, heff]
    | some c =>
      rw [hc, getD_some] at heff
      have hlo := hnn s d hlink c hc
      have hne : c ≠ -1 := by omega
      simp [link_cost, heff, hne, abs_of_nonneg hlo, int16_eq (hrange c hc)]
  simp only [flow_edge_cost, edge_pair, hcost]

theorem relax_rounds_congr {a b a' b' : Bool}
    (h : ∀ e ∈ flow_edges tp, flow_edge_cost ls a b e = flow_edge_cost ls' a' b' e) (n : ℕ)
    (g : Flow_Graph) : relax_rounds tp ls a b n g = relax_rounds tp ls' a' b' n g := by
  have hsweep : ∀ g, relax_edges tp ls a b g = relax_edges tp ls' a' b' g := by
    intro g
    refine foldl_ext _ _ _ fun g e he => ?_
    rw [relax_edge, relax_edge, h e he]
  induction n generalizing g with
  | zero => rfl
  | succ n ih =>
    simp only [relax_rounds, hsweep, ih]

theorem effective_fit (hnn : Costs_Nonneg tp ls base rev) :
    Costs_Fit tp (effective ls base rev) := by
  intro s d hlink
  have hpos := hnn s d hlink
  change (link_cost base rev (ls.edge s d) (ls.edge d s)).getD (-1) ≠ _
  cases hc : link_cost base rev (ls.edge s d) (ls.edge d s) with
  | none => decide
  | some c =>
    have hlo := hpos c hc
    rw [getD_some]
    omega

end Effective

/-! ## 3. Costs that are not negative -/

section Nonneg

variable {tp : Topology} {ls : Link_States} {base rev : Bool}
  {F : Finset Flow_Pair} {π : Flow_Node → ℤ} {g : Flow_Graph} {dest_id m : ℕ}

theorem leads_back {t : Flow_Node} {l : List Flow_Edge}
    (htrail : ((network tp ls).residual F).Trail g.labels t l)
    (hback : (network tp ls).Back (Flow_Nodes_Outbound tp.My_ID) t l)
    (hstart : g.previous_edge (Flow_Nodes_Outbound tp.My_ID) = none) : Leads_Back tp g t l := by
  induction htrail with
  | @root t _ =>
    cases hback
    rfl
  | @step t e l hpred _ ih =>
    have hne : t ≠ Flow_Nodes_Outbound tp.My_ID := by
      rintro rfl
      exact absurd (hstart.symm.trans hpred) (by simp)
    refine ⟨hne, hpred, ih ?_⟩
    cases hback
    assumption

/-- The induction is on the rounds; `F` is the flow of those before. -/
theorem Carrying.sound_rounds (hnn : Costs_Nonneg tp ls base rev)
    (hdest : dest_id ∈ tp.nodes) (k : ℕ)
    (hc : Carrying tp (effective ls base rev) dest_id m F π)
    (hg : Flows g F) : Sound_Rounds tp ls base rev dest_id k g := by
  induction k generalizing m F π g with
  | zero => trivial
  | succ k ih =>
    obtain ⟨hquiet, hg1, hs, hset⟩ := MultiPath.sound_rounds (effective_fit hnn) hc hg
    rw [Sound_Rounds, relax_rounds_congr fun e he => flow_edge_cost_effective hnn he]
    generalize relax_rounds tp (effective ls base rev) false false
      (tp.Num_Nodes * 2 + 1) (init_graph tp g) = g1 at *
    refine ⟨hquiet, ?_⟩
    intro hinf
    have hhigh : g1.distance (Flow_Nodes_Inbound dest_id) ≤ USHRT_MAX :=
      hs.high (Flow_Nodes_Inbound dest_id)
    have ht := lt_of_le_of_ne hhigh hinf
    obtain ⟨l, htrail, hback, hready, -⟩ := hc.way hdest hs ht
    obtain ⟨g2, F2, π2, haug, hg2, hc2⟩ := hc.round hdest hg1 hs hset ht
    refine ⟨⟨l, leads_back htrail hback (hc.priced.pred_start hs).2, ?_⟩, g2, haug, ih hc2 hg2⟩
    -- a residual edge that is free belongs to a pair that carries flow
    rintro ⟨p, b⟩ he hres
    have hp : p ∈ F := (hready.free _ he).mp hres
    exact (hg1.bag _).mpr ⟨by rw [Flow_Edge.twin, show b = true from hres]; rfl, hp⟩

end Nonneg

/-! ## 4. A negative cost at the local node -/

section Negative

variable {tp : Topology} {ls : Link_States} {base rev : Bool}
  {g : Flow_Graph}

structure At_Source (tp : Topology) (g : Flow_Graph) : Prop where
  flow : g.flow = no_flow.flow
  nonneg : ∀ t, 0 ≤ g.distance t
  start : g.distance (Flow_Nodes_Outbound tp.My_ID) = 0

theorem At_Source.progress (h : At_Source tp g) (b : Bool) :
    At_Source tp { g with progress := b } := ⟨h.flow, h.nonneg, h.start⟩

theorem At_Source.init : At_Source tp (init_graph tp no_flow) where
  flow := rfl
  nonneg t := by
    unfold init_graph USHRT_MAX
    dsimp only
    split <;> omega
  start := if_pos rfl

theorem At_Source.relax_edge (h : At_Source tp g) {e : Flow_Edge} (he : e ∈ flow_edges tp) :
    At_Source tp (relax_edge ls base rev g e) := by
  unfold MultiPath.relax_edge
  cases hcost : flow_edge_cost ls base rev e with
  | none => exact h
  | some c =>
    dsimp only
    split
    · rename_i hlt
      refine ⟨h.flow, ?_, ?_⟩
      · intro t
        dsimp only
        rw [Function.update_apply]
        split
        · exact Int.emod_nonneg _ (by decide)
        · exact h.nonneg t
      · dsimp only
        rw [Function.update_of_ne, h.start]
        intro hend
        obtain ⟨p, b⟩ := e
        have hroom := hlt.1
        rw [h.flow] at hroom
        cases b with
        | true => simp [no_flow, Flow_Edge.residual] at hroom
        | false =>
          obtain ⟨v, -, rfl⟩ | ⟨s, d, -, rfl⟩ := mem_flow_pairs.mp (mem_flow_edges.mp he)
          · obtain rfl : (0 : ℤ) = c := some.inj hcost
            have hbelow := hlt.2
            rw [← hend, h.start] at hbelow
            have hpos := h.nonneg (Flow_Edge.start (node_pair v, false))
            omega
          · simp [Flow_Edge.end_, edge_pair, Flow_Nodes_Outbound, Flow_Nodes_Inbound] at hend
    · exact h

theorem relax_edge_progress (h : g.progress = true) (e : Flow_Edge) :
    (relax_edge ls base rev g e).progress = true := by
  unfold relax_edge
  split
  · exact h
  · split
    · rfl
    · exact h

theorem At_Source.negative_edge (h : At_Source tp g) {d i : ℕ} {c : ℤ}
    (hcost : flow_edge_cost ls base rev
      (edge_pair tp.My_ID d i, false) = some c) (hneg : c < 0) :
    (MultiPath.relax_edge ls base rev g
      (edge_pair tp.My_ID d i, false)).progress = true := by
  have hend := h.nonneg (Flow_Edge.end_ (edge_pair tp.My_ID d i, false))
  have hroom : g.flow (edge_pair tp.My_ID d i, false) < 1 := by
    rw [h.flow]
    exact Nat.zero_lt_one
  have hstart : g.distance (Flow_Edge.start (edge_pair tp.My_ID d i, false)) = 0 := h.start
  unfold MultiPath.relax_edge
  rw [hcost]
  dsimp only
  rw [if_pos ⟨hroom, by omega⟩]

/-- Every sweep makes progress. The induction is on the edges; the negative one is still to
come, or there was progress. -/
theorem At_Source.relax_edges (h : At_Source tp g) {d i : ℕ} {c : ℤ}
    (hmem : (edge_pair tp.My_ID d i, false) ∈ flow_edges tp)
    (hcost : flow_edge_cost ls base rev
      (edge_pair tp.My_ID d i, false) = some c) (hneg : c < 0) :
    At_Source tp (relax_edges tp ls base rev g) ∧
      (relax_edges tp ls base rev g).progress = true := by
  have hfold : ∀ (es : List Flow_Edge) (g : Flow_Graph), (∀ e ∈ es, e ∈ flow_edges tp) →
      At_Source tp g → (g.progress = true ∨ (edge_pair tp.My_ID d i, false) ∈ es) →
      At_Source tp (es.foldl (MultiPath.relax_edge ls base rev) g) ∧
        (es.foldl (MultiPath.relax_edge ls base rev) g).progress = true := by
    intro es
    induction es with
    | nil => exact fun g _ hg hor => ⟨hg, hor.resolve_right not_mem_nil⟩
    | cons e es ih =>
      intro g hes hg hor
      refine ih _ (fun e' he' => hes e' (mem_cons_of_mem _ he'))
        (hg.relax_edge (hes e mem_cons_self)) ?_
      obtain hprog | hin := hor
      · exact .inl (relax_edge_progress hprog e)
      · obtain rfl | hin := mem_cons.mp hin
        · exact .inl (hg.negative_edge hcost hneg)
        · exact .inr hin
  exact hfold (flow_edges tp) _ (fun _ he => he) (h.progress false) (.inr hmem)

theorem At_Source.negative_progress (h : At_Source tp g) {d i : ℕ} {c : ℤ}
    (hmem : (edge_pair tp.My_ID d i, false) ∈ flow_edges tp)
    (hcost : flow_edge_cost ls base rev
      (edge_pair tp.My_ID d i, false) = some c) (hneg : c < 0) (n : ℕ) :
    (relax_rounds tp ls base rev (n + 1) g).progress = true := by
  induction n generalizing g with
  | zero =>
    obtain ⟨-, hprog⟩ := h.relax_edges hmem hcost hneg
    simp [relax_rounds, hprog]
  | succ n ih =>
    obtain ⟨hg, hprog⟩ := h.relax_edges hmem hcost hneg
    rw [relax_rounds, if_pos hprog]
    exact ih hg

end Negative

/-! ## 5. Every round of every node -/

theorem always_sound_iff (tp : Topology) (ls : Link_States) (base rev : Bool) :
    Always_Sound tp ls base rev ↔
      Costs_Nonneg tp ls base rev := by
  constructor
  · intro hall s d hlink c hc
    by_contra hneg
    obtain ⟨hs, hd, hne⟩ := hlink.ends
    -- the node in front of the edge asks for one path to the node behind it
    obtain ⟨hquiet, -⟩ := hall s hs d hd hne.symm 1
    have hmem : (edge_pair s d (tp.edge_index s d), false) ∈
        flow_edges (Topology.seen_by s hs) :=
      mem_flow_edges.mpr (mem_flow_pairs.mpr (.inr ⟨s, d, hlink, rfl⟩))
    have hcost : flow_edge_cost ls base rev
        (edge_pair s d (tp.edge_index s d), false) = some c := by
      have hlc : link_cost base rev (ls.edge s d) (ls.edge d s) = some c := hc
      simp [flow_edge_cost, edge_pair, hlc, Flow_Edge.residual]
    have hsource : At_Source (Topology.seen_by s hs) (init_graph (Topology.seen_by s hs) no_flow) :=
      At_Source.init
    have hprog := hsource.negative_progress hmem hcost (not_le.mp hneg)
      (Topology.Num_Nodes (Topology.seen_by s hs) * 2)
    rw [hprog] at hquiet
    cases hquiet
  · intro hnn id hid dest_id hdest _ k
    have hnn' : Costs_Nonneg (Topology.seen_by id hid) ls base rev := hnn
    refine (carrying_empty _ _ dest_id).sound_rounds hnn' hdest k ?_
    refine ⟨?_, ?_, nodup_nil⟩
    · rintro ⟨p, b⟩
      cases b <;> simp [no_flow, Flow_Edge.residual]
    · simp [no_flow]

theorem not_sound_line :
    ¬Sound_Rounds line (level (-2 ^ 15) (by decide)) false false 2 1 no_flow := by
  rintro ⟨hquiet, -⟩
  have hprog : (relax_rounds line (level (-2 ^ 15) (by decide)) false false
      (line.Num_Nodes * 2 + 1) (init_graph line no_flow)).progress = true := by decide +kernel
  exact absurd (hquiet.symm.trans hprog) (by decide)

end Spines.MultiPath
