/-
Which indices of edges address a bitmask.

The masks of `MultiPath_Compute` and of the dissemination graphs are made from edges of the
configuration. Any other edge has the index `USHRT_MAX`, and `DG_Process_Edge_Update` asks whether an
edge lies on a graph when it goes down while some destination uses the graph for problems at one end
(`Asks`), and only then (`next_index`). The size of a mask is configured, too, and nothing compares
it with the number of edges.
-/
import Spines.Routing.Disjoint
import Spines.Routing.PathCache

set_option autoImplicit false

namespace Spines.Routing.Indexes

open MultiPath Function List Option

/-! ## 1. Masks made from the configuration -/

section Paths

variable {tp : Topology} {ls : Link_States} {use_base_cost rev : Bool}
  {g g' : Flow_Graph}

theorem edge_index_lt {s d : ℕ} (h : tp.Linked s d) :
    tp.edge_index s d < tp.Sorted_Edges.length := by
  apply idxOf_lt_length_of_mem
  rcases h with hin | ⟨hdir, hin⟩
  · rwa [Topology.key_of_mem hin]
  · rwa [Topology.key_of_swap_mem hdir hin]

theorem edges_lt (tp : Topology) : tp.Sorted_Edges.length < USHRT_MAX := by
  have hsub : tp.Sorted_Edges.toFinset ⊆
      Finset.range 51 ×ˢ Finset.range 51 := by
    intro key hkey
    obtain ⟨hs, hd, -⟩ := tp.ends key (mem_toFinset.mp hkey)
    exact Finset.mem_product.mpr ⟨Finset.mem_range_succ_iff.mpr (tp.nodes_range _ hs).2,
      Finset.mem_range_succ_iff.mpr (tp.nodes_range _ hd).2⟩
  have hcard := Finset.card_le_card hsub
  rw [toFinset_card_of_nodup tp.edges_nodup, Finset.card_product, Finset.card_range] at hcard
  exact hcard.trans_lt (by decide)

def Bag_Real (tp : Topology) (g : Flow_Graph) : Prop :=
  ∀ e ∈ g.bag_of_edges, e ∈ flow_edges tp ∧ e.residual = false

structure Bagged (tp : Topology) (g : Flow_Graph) : Prop where
  previous : ∀ t e, g.previous_edge t = some e → e ∈ flow_edges tp
  bag : Bag_Real tp g

theorem Bagged.relax_edge (h : Bagged tp g) {e : Flow_Edge} (he : e ∈ flow_edges tp) :
    Bagged tp (relax_edge ls use_base_cost rev g e) := by
  unfold MultiPath.relax_edge
  split
  · exact h
  · split
    · refine ⟨fun t e' ht => ?_, h.bag⟩
      dsimp only at ht
      rw [update_apply] at ht
      split at ht
      · rwa [← some.inj ht]
      · exact h.previous t e' ht
    · exact h

theorem Bagged.relax_edges (h : Bagged tp g) :
    Bagged tp (relax_edges tp ls use_base_cost rev g) := by
  refine foldlRecOn (flow_edges tp) _ (motive := Bagged tp) ⟨h.previous, h.bag⟩ ?_
  exact fun g hg e he => hg.relax_edge he

theorem Bagged.relax_rounds (n : ℕ) (h : Bagged tp g) :
    Bagged tp (relax_rounds tp ls use_base_cost rev n g) := by
  induction n generalizing g with
  | zero => exact h
  | succ n ih =>
    unfold MultiPath.relax_rounds
    dsimp only
    split
    · exact ih h.relax_edges
    · exact h.relax_edges

theorem Bagged.augment_edge (h : Bagged tp g) {e : Flow_Edge} (he : e ∈ flow_edges tp)
    (haug : augment_edge g e = some g') : Bagged tp g' := by
  unfold MultiPath.augment_edge at haug
  dsimp only at haug
  split at haug
  · split at haug
    · rw [← some.inj haug]
      exact ⟨h.previous, fun e' he' => h.bag e' (mem_of_mem_erase he')⟩
    · exact absurd haug (by simp)
  · next hreal =>
    rw [← some.inj haug]
    refine ⟨h.previous, fun e' he' => ?_⟩
    rcases mem_cons.mp he' with rfl | he'
    · exact ⟨he, Bool.eq_false_iff.mpr hreal⟩
    · exact h.bag e' he'

theorem Bagged.augment (n : ℕ) (t : Flow_Node) (h : Bagged tp g)
    (haug : augment tp n g t = some g') : Bagged tp g' := by
  induction n generalizing g t with
  | zero =>
    rw [MultiPath.augment] at haug
    split at haug
    · rwa [← some.inj haug]
    · exact absurd haug (by simp)
  | succ n ih =>
    rw [MultiPath.augment] at haug
    split at haug
    · rwa [← some.inj haug]
    · obtain ⟨e, he, haug⟩ := bind_eq_some_iff.mp haug
      obtain ⟨g1, hg1, haug⟩ := bind_eq_some_iff.mp haug
      exact ih _ (h.augment_edge (h.previous t e he) hg1) haug

theorem bag_of_find_paths {dest_id : ℕ} (k : ℕ) {found : ℕ} (h : Bag_Real tp g)
    (hfind : find_paths tp ls use_base_cost rev dest_id k g = some (found, g')) :
    Bag_Real tp g' := by
  induction k generalizing g found with
  | zero =>
    rw [find_paths, some.injEq, Prod.mk.injEq] at hfind
    rwa [← hfind.2]
  | succ k ih =>
    have hrounds : Bagged tp (relax_rounds tp ls use_base_cost rev
        (tp.Num_Nodes * 2 + 1) (init_graph tp g)) :=
      Bagged.relax_rounds _ ⟨fun t e ht => by simp [init_graph] at ht, h⟩
    rw [find_paths] at hfind
    dsimp only at hfind
    split at hfind
    · exact absurd hfind (by simp)
    split at hfind
    · exact absurd hfind (by simp)
    split at hfind
    · rw [some.injEq, Prod.mk.injEq] at hfind
      rw [← hfind.2]
      exact hrounds.bag
    · obtain ⟨g1, hg1, hfind⟩ := bind_eq_some_iff.mp hfind
      obtain ⟨⟨n, g2⟩, hg2, hfind⟩ := bind_eq_some_iff.mp hfind
      rw [some.injEq, Prod.mk.injEq] at hfind
      obtain rfl := hfind.2
      exact ih (hrounds.augment _ _ hg1).bag hg2

theorem Bag_Real.index_lt (h : Bag_Real tp g) {e : Flow_Edge} (he : e ∈ g.bag_of_edges)
    (hedge : e.1.edge ≠ none) : e.index < tp.Sorted_Edges.length := by
  obtain ⟨hmem, hreal⟩ := h e he
  rcases mem_flow_pairs.mp (mem_flow_edges.mp hmem) with ⟨v, -, hv⟩ | ⟨s, d, hlink, hp⟩
  · rw [hv] at hedge
    exact absurd rfl hedge
  · have hindex : e.index = tp.edge_index s d := by
      unfold Flow_Edge.residual at hreal
      simp [Flow_Edge.index, hreal, hp, edge_pair]
    rw [hindex]
    exact edge_index_lt hlink

theorem MultiPath_Compute_index {dest_id k found mask i : ℕ}
    (h : MultiPath_Compute tp ls use_base_cost rev dest_id k = some (found, mask))
    (hi : mask.testBit i = true) : i < tp.Sorted_Edges.length := by
  unfold MultiPath_Compute at h
  split at h
  · obtain ⟨-, rfl⟩ := Prod.mk.inj (some.inj h)
    simp at hi
  · obtain ⟨⟨n, g⟩, hfind, h⟩ := bind_eq_some_iff.mp h
    obtain ⟨-, rfl⟩ := Prod.mk.inj (some.inj h)
    obtain ⟨e, he, hedge, rfl⟩ := (testBit_bag_mask ..).mp hi
    exact (bag_of_find_paths k (by simp [Bag_Real]) hfind).index_lt he hedge

end Paths

/-- The indices on the graphs that `Graph_to_Bitmask` is called for: an edge is added to a graph with
the index of a configured edge, or of an edge on another graph. -/
inductive Graph_Indices (n : ℕ) : List ℕ → Prop
  | init : Graph_Indices n []
  | base {g : List ℕ} {i : ℕ} (hg : Graph_Indices n g) (hi : i < n) : Graph_Indices n (i :: g)
  | add {g g' : List ℕ} {i : ℕ} (hg : Graph_Indices n g) (hg' : Graph_Indices n g')
      (hi : i ∈ g') : Graph_Indices n (i :: g)

theorem Graph_Indices.lt {n : ℕ} {g : List ℕ} (h : Graph_Indices n g) : ∀ i ∈ g, i < n := by
  induction h with
  | init => simp
  | base _ hi ih => simpa using ⟨hi, ih⟩
  | add _ _ hi ih ih' => simpa using ⟨ih' _ hi, ih⟩

/-! ## 2. Updates -/

section Updates

open DissemGraphs

/-- The update starts a problem, and there is a destination whose graph is for problems at one end,
which is not the end of the edge. -/
def Asks (cf : Conf) (w : World) (key : Edge_Key) (new_cost : ℤ) : Prop :=
  cf.problem_route = true ∧ new_cost < 0 ∧ ¬ (new_cost = -1 ∧ w.cost key = -1) ∧
    ¬ (new_cost < -1 ∧ w.cost key < -1) ∧
    ∃ dst_id src_id, cf.addr_to_id (cf.id_to_addr key.dst_id) = some dst_id ∧
      cf.addr_to_id (cf.id_to_addr key.src_id) = some src_id ∧
      ⟨src_id, dst_id⟩ ∉ w.dg.problem_list ∧ ∃ i, (1 ≤ i ∧ i ≤ DissemGraphs.MAX_NODES) ∧
        ((w.dg.dsts i).current_graph_type = .src ∧ src_id ≠ cf.my_id ∨
          (w.dg.dsts i).current_graph_type = .dst ∧ dst_id ≠ i)

theorem next_index {cf : Conf} {w : World} {e : DissemGraphs.Event} (h : ¬ Asks cf w e.key e.new_cost)
    (index : ℕ) : w.next cf { e with index := index } = w.next cf e := by
  have hupdate : DG_Process_Edge_Update cf (({ e with index := index } : DissemGraphs.Event).edge cf w)
      e.new_cost w.dg = DG_Process_Edge_Update cf (e.edge cf w) e.new_cost w.dg := by
    unfold DG_Process_Edge_Update Event.edge
    dsimp only
    by_cases hroute : ¬ cf.problem_route = true
    · rw [if_pos hroute, if_pos hroute]
    rw [if_neg hroute, if_neg hroute]
    split
    · rfl
    next hchange =>
    split
    · next dst_id src_id hdst hsrc =>
      by_cases hneg : e.new_cost < 0
      · rw [if_pos hneg, if_pos hneg]
        unfold problem_started
        split
        · rfl
        next hnew =>
        have hsame : for_each (fun i => retype (widen cf ⟨src_id, dst_id⟩ index i)) w.dg.dsts =
            for_each (fun i => retype (widen cf ⟨src_id, dst_id⟩ e.index i)) w.dg.dsts := by
          funext i
          unfold for_each
          split
          · next hi =>
            have hends : ¬ ((w.dg.dsts i).current_graph_type = .src ∧ src_id ≠ cf.my_id ∨
                (w.dg.dsts i).current_graph_type = .dst ∧ dst_id ≠ i) := fun hends =>
              h ⟨not_not.mp hroute, hneg, fun hc => hchange (.inl hc),
                fun hc => hchange (.inr (.inl hc)), dst_id, src_id, hdst, hsrc, hnew, i, hi, hends⟩
            have hwiden : ∀ j, widen cf ⟨src_id, dst_id⟩ j i (w.dg.dsts i).current_graph_type =
                (w.dg.dsts i).current_graph_type := fun j => if_neg fun hc => hends hc.1
            simp only [retype, hwiden]
          · rfl
        rw [hsame]
      · rw [if_neg hneg, if_neg hneg]
    · rfl
  unfold World.next
  rw [hupdate]

def SameUnasked (cf : Conf) : World → List DissemGraphs.Event → List DissemGraphs.Event → Prop
  | _, [], [] => True
  | w, e :: es, e' :: es' => e' = { e with index := e'.index } ∧
      (e'.index ≠ e.index → ¬ Asks cf w e.key e.new_cost) ∧
      ∀ w', w.next cf e = some w' → SameUnasked cf w' es es'
  | _, _, _ => False

/-- **Indices that are not asked for have no effect**: the updates end in the same graphs, problems
and costs. -/
theorem unasked_indices {cf : Conf} {w : World} {es es' : List DissemGraphs.Event}
    (h : SameUnasked cf w es es') : es'.foldlM (World.next cf) w = es.foldlM (World.next cf) w := by
  induction es generalizing w es' with
  | nil =>
    cases es' with
    | nil => rfl
    | cons e' es' => exact h.elim
  | cons e es ih =>
    cases es' with
    | nil => exact h.elim
    | cons e' es' =>
      obtain ⟨hsame, hask, hrest⟩ := h
      have hnext : w.next cf e' = w.next cf e := by
        by_cases hindex : e'.index = e.index
        · rw [hsame, hindex]
        · rw [hsame]
          exact next_index (hask hindex) e'.index
      rw [foldlM_cons, foldlM_cons, hnext]
      cases hw : w.next cf e with
      | none => rfl
      | some w' => exact ih (hrest w' hw)

/-- A cell or a leg brings a new cost of an edge. The intrusion tolerant link status stores one
without `DG_Process_Edge_Update`. -/
inductive Update
  | cost (key : Edge_Key) (new_cost : ℤ)
  | link_status (key : Edge_Key) (cost : ℤ)

/-- `Create_Edge` gets the index of the configuration, or `USHRT_MAX`. -/
def created_index (tp : Topology) (key : Edge_Key) : ℕ :=
  if tp.Linked key.src_id key.dst_id then tp.edge_index key.src_id key.dst_id else USHRT_MAX

variable (site : Site)

def update_next (w : World) : Update → Option World
  | .cost key new_cost => w.next site.dg ⟨key, created_index site.tp key, new_cost⟩
  | .link_status key cost => some { w with cost := update w.cost key cost }

def Update.Asks (w : World) : Update → Edge_Key → Prop
  | .cost key new_cost, key' => key' = key ∧ Indexes.Asks site.dg w key new_cost
  | .link_status .., _ => False

def Asked (P : Edge_Key → Prop) : World → List Update → Prop
  | _, [] => True
  | w, u :: us => (∀ key, u.Asks site w key → P key) ∧
      ∀ w', update_next site w u = some w' → Asked P w' us

theorem Asked.mono {P Q : Edge_Key → Prop} (hPQ : ∀ key, P key → Q key) {w : World}
    {us : List Update} (h : Asked site P w us) : Asked site Q w us := by
  induction us generalizing w with
  | nil => trivial
  | cons u us ih => exact ⟨fun key hask => hPQ key (h.1 key hask), fun w' hw' => ih (h.2 w' hw')⟩

end Updates

def In_Mask (site : Site) (index : ℕ) : Prop :=
  index < 8 * site.MultiPath_Bitmask_Size ∧ index ≠ USHRT_MAX

/-- **The indices that address a mask** are in it, for the updates of a run, for all paths and for all
graphs, exactly if the configured edges have room in it and no other edge is asked for. -/
theorem index_in_mask (site : Site) (us : List Update) :
    (Asked site (fun key => In_Mask site (created_index site.tp key)) (.init site.dg) us ∧
      (∀ ls use_base_cost rev dest_id k found mask,
        MultiPath_Compute site.tp ls use_base_cost rev dest_id k = some (found, mask) →
        ∀ i, mask.testBit i = true → In_Mask site i) ∧
      ∀ g, Graph_Indices site.tp.Sorted_Edges.length g → ∀ i ∈ g, In_Mask site i) ↔
    site.tp.Sorted_Edges.length ≤ 8 * site.MultiPath_Bitmask_Size ∧
      Asked site (fun key => site.tp.Linked key.src_id key.dst_id) (.init site.dg) us := by
  have hmax := edges_lt site.tp
  constructor
  · rintro ⟨hasked, -, hgraphs⟩
    refine ⟨?_, hasked.mono site fun key hkey => ?_⟩
    · by_contra hroom
      have hlast := hgraphs _ (.base .init (Nat.sub_one_lt_of_lt (Nat.lt_of_not_le hroom))) _
        mem_cons_self
      exact absurd hlast.1 (by omega)
    · by_contra hout
      exact hkey.2 (if_neg hout)
  · rintro ⟨hroom, hasked⟩
    have hfits : ∀ i < site.tp.Sorted_Edges.length, In_Mask site i := fun i hi =>
      ⟨hi.trans_le hroom, (hi.trans hmax).ne⟩
    refine ⟨hasked.mono site fun key hkey => ?_, ?_, fun g hg i hi => hfits i (hg.lt i hi)⟩
    · rw [created_index, if_pos hkey]
      exact hfits _ (edge_index_lt hkey)
    · intro ls use_base_cost rev dest_id k found mask hmask i hi
      exact hfits i (MultiPath_Compute_index hmask hi)

/-! ### Four nodes -/

def four : Site where
  tp :=
    { My_ID := 1
      nodes := [1, 2, 3, 4]
      Sorted_Edges := [(1, 2), (1, 3), (2, 1), (2, 4), (3, 1), (4, 2)]
      Directed_Edges := true
      nodes_sorted := MultiPath.line.nodes_sorted
      nodes_range := MultiPath.line.nodes_range
      my_id_mem := MultiPath.line.my_id_mem
      edges_sorted := by decide
      ends := by decide
      undirected := by decide
      directed := by decide }
  dg :=
    { my_id := 1
      problem_route := true
      directed_edges := true
      nodes := [1, 2, 3, 4]
      id_to_addr := id
      addr_to_id := fun a => if a ∈ [1, 2, 3, 4] then some a else none
      sorted_edges := [(⟨1, 2⟩, 0), (⟨1, 3⟩, 1), (⟨2, 1⟩, 2), (⟨2, 4⟩, 3), (⟨3, 1⟩, 4), (⟨4, 2⟩, 5)]
      bitmasks := fun _ _ => [0xFC, 0, 0, 0, 0, 0, 0, 0] }
  My_Address := 1
  ref_cost := fun _ _ => 10
  MultiPath_Bitmask_Size := 8
  my_id := rfl
  nodes := rfl
  directed := rfl

/-- Both edges of node 1 have problems, and then an edge from 2 to 3 is learnt and goes down. -/
def learnt : List Update :=
  [.cost ⟨1, 2⟩ (-5), .cost ⟨1, 3⟩ (-5), .cost ⟨2, 3⟩ 10, .cost ⟨2, 3⟩ (-1)]

theorem learnt_edge_not_in_mask :
    ¬ Asked four (fun key => In_Mask four (created_index four.tp key)) (.init four.dg) learnt := by
  intro h
  have hlast := (((h.2 _ rfl).2 _ rfl).2 _ rfl).1 ⟨2, 3⟩
  refine absurd (hlast ⟨rfl, rfl, by decide, by decide, by decide, 3, 2, rfl, rfl, by decide, 4,
    by decide, .inl ⟨rfl, by decide⟩⟩).2 (by decide)

theorem unasked_indices_learnt :
    [⟨⟨2, 3⟩, USHRT_MAX, 10⟩].foldlM (DissemGraphs.World.next four.dg) (.init four.dg) =
      [⟨⟨2, 3⟩, 0, 10⟩].foldlM (DissemGraphs.World.next four.dg) (.init four.dg) :=
  unasked_indices (by exact ⟨rfl, fun _ h => absurd h.2.1 (by decide), fun _ _ => trivial⟩)

end Spines.Routing.Indexes
