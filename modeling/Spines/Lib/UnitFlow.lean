/-
Unit flows: sets of arcs that carry one unit each, their residual graph, and
the cheapest way to carry a number of units.

A set of arcs carries `m` units from `s` to `t` when its arcs balance at every
other vertex. `Carries` says so by duality: whatever function `φ` of the vertices
is summed along the arcs, the sum is `m` times its difference between `s` and `t`
(the balance at `v` is the case of the indicator of `v`).

`Priced` is the invariant of the augmentations: a potential under which no
residual arc is cheap, and which is lowest at `s` and highest at `t`. One
augmentation along a shortest path keeps it (`Priced.augment`).
-/
import Spines.Lib.Relax
import Mathlib.Algebra.Order.BigOperators.Group.Finset
import Mathlib.Algebra.BigOperators.Ring.Finset
import Mathlib.Tactic.Linarith
import Mathlib.Tactic.Ring

set_option autoImplicit false

namespace Spines.Lib

open Finset

variable {V A : Type*}

/-! ## 1. Flows and potentials -/

structure UnitNet (V A : Type*) where
  src : A → V
  dst : A → V
  cost : A → ℤ
  live : Finset A

namespace UnitNet

variable (N : UnitNet V A)

/-- The arcs of `F` carry `m` units from `s` to `t`. -/
def Carries (F : Finset A) (m : ℤ) (s t : V) : Prop :=
  ∀ φ : V → ℤ, ∑ a ∈ F, (φ (N.src a) - φ (N.dst a)) = m * (φ s - φ t)

def total (F : Finset A) : ℤ := ∑ a ∈ F, N.cost a

def Optimal (F : Finset A) (π : V → ℤ) : Prop :=
  ∀ a ∈ N.live, (a ∉ F → π (N.dst a) ≤ π (N.src a) + N.cost a) ∧
    (a ∈ F → π (N.src a) + N.cost a ≤ π (N.dst a))

variable {N} {F F' : Finset A} {π : V → ℤ} {m m' : ℤ} {s t : V}

theorem Carries.priced_total (h : N.Carries F m s t) (π : V → ℤ) :
    ∑ a ∈ F, (N.cost a + (π (N.src a) - π (N.dst a))) = N.total F + m * (π s - π t) := by
  rw [sum_add_distrib, h π, total]

theorem Carries.empty (s t : V) : N.Carries ∅ 0 s t := by
  intro φ
  simp

variable [DecidableEq A]

theorem Carries.cheapest (hπ : N.Optimal F π) (hF : F ⊆ N.live) (hF' : F' ⊆ N.live)
    (h : N.Carries F m s t) (h' : N.Carries F' m' s t) :
    N.total F + (m' - m) * (π t - π s) ≤ N.total F' := by
  let price := fun a => N.cost a + (π (N.src a) - π (N.dst a))
  have hle : ∑ a ∈ F, price a ≤ ∑ a ∈ F', price a :=
    calc ∑ a ∈ F, price a
        = ∑ a ∈ F \ F', price a + ∑ a ∈ F ∩ F', price a := by
          rw [add_comm, sum_inter_add_sum_sdiff]
      _ ≤ 0 + ∑ a ∈ F ∩ F', price a := by
          apply add_le_add_left
          apply sum_nonpos
          intro a ha
          have hused := (hπ a (hF (mem_sdiff.mp ha).1)).2 (mem_sdiff.mp ha).1
          simp only [price]
          omega
      _ ≤ ∑ a ∈ F' \ F, price a + ∑ a ∈ F' ∩ F, price a := by
          rw [inter_comm]
          apply add_le_add_left
          apply sum_nonneg
          intro a ha
          have hfree := (hπ a (hF' (mem_sdiff.mp ha).1)).1 (mem_sdiff.mp ha).2
          simp only [price]
          omega
      _ = ∑ a ∈ F', price a := by rw [add_comm, sum_inter_add_sum_sdiff]
  rw [h.priced_total π, h'.priced_total π] at hle
  linarith

omit [DecidableEq A] in
theorem Carries.balanced [DecidableEq V] (h : N.Carries F 0 s t) (v : V) :
    #{a ∈ F | N.src a = v} = #{a ∈ F | N.dst a = v} := by
  have hsum := h fun x => if x = v then 1 else 0
  rw [zero_mul, sum_sub_distrib, sum_boole, sum_boole, sub_eq_zero] at hsum
  exact_mod_cast hsum

/-! ## 2. Residual arcs -/

variable (N)

/-- `(a, false)` follows the arc `a`, `(a, true)` takes it back. -/
def tail (e : A × Bool) : V := if e.2 then N.dst e.1 else N.src e.1

def head (e : A × Bool) : V := if e.2 then N.src e.1 else N.dst e.1

def weight (F : Finset A) (e : A × Bool) : Option ℤ :=
  if e.2 then (if e.1 ∈ F then some (-N.cost e.1) else none)
  else (if e.1 ∈ N.live ∧ e.1 ∉ F then some (N.cost e.1) else none)

def residual (F : Finset A) : Weighted V (A × Bool) :=
  { tail := N.tail, head := N.head, weight := N.weight F }

variable {N}

theorem weight_eq_some {e : A × Bool} {c : ℤ} (hF : F ⊆ N.live) (h : N.weight F e = some c) :
    e.1 ∈ N.live ∧ (e.2 = true ↔ e.1 ∈ F) ∧ c = if e.2 then -N.cost e.1 else N.cost e.1 := by
  obtain ⟨a, b⟩ := e
  cases b with
  | false =>
    by_cases ha : a ∈ N.live ∧ a ∉ F
    · simp [weight, ha.1, ha.2] at h
      simp [ha.1, ha.2, h]
    · simp [weight, ha] at h
  | true =>
    by_cases ha : a ∈ F
    · simp [weight, ha] at h
      simp [ha, hF ha, h]
    · simp [weight, ha] at h

theorem feasible_residual (hF : F ⊆ N.live) : (N.residual F).Feasible π ↔ N.Optimal F π := by
  constructor
  · intro h a ha
    constructor
    · intro haF
      exact h (a, false) (N.cost a) (by simp [residual, weight, ha, haF])
    · intro haF
      have hback := h (a, true) (-N.cost a) (by simp [residual, weight, haF])
      simp only [residual, head, tail, if_true] at hback
      omega
  · rintro h ⟨a, b⟩ c hc
    obtain ⟨ha, hb, rfl⟩ := weight_eq_some hF hc
    have hopt := h a ha
    cases b with
    | false =>
      have hfree := hopt.1 (by simpa using hb)
      simpa [residual, head, tail] using hfree
    | true =>
      have hused := hopt.2 (by simpa using hb)
      simp only [residual, head, tail, if_true]
      omega

/-! ## 3. Augmentation -/

def flip (F : Finset A) (e : A × Bool) : Finset A :=
  if e.2 then F.erase e.1 else insert e.1 F

def signed (g : A → ℤ) (e : A × Bool) : ℤ := if e.2 then -g e.1 else g e.1

/-- The residual arcs of `l` can all be taken, in any order. -/
structure Ready (F : Finset A) (l : List (A × Bool)) : Prop where
  nodup : (l.map Prod.fst).Nodup
  free : ∀ e ∈ l, e.2 = true ↔ e.1 ∈ F

variable {l : List (A × Bool)} {e : A × Bool}

theorem mem_flip {a : A} : a ∈ flip F e ↔ if a = e.1 then e.2 = false else a ∈ F := by
  obtain ⟨b, d⟩ := e
  by_cases ha : a = b
  · subst ha
    cases d <;> simp [flip]
  · cases d <;> simp [flip, ha]

theorem Ready.tail (h : Ready F (e :: l)) : Ready (flip F e) l := by
  have hnd := h.nodup
  rw [List.map_cons, List.nodup_cons] at hnd
  refine ⟨hnd.2, ?_⟩
  intro e' he'
  have hne : e'.1 ≠ e.1 := by
    intro heq
    exact hnd.1 (heq ▸ List.mem_map_of_mem he')
  rw [mem_flip, if_neg hne]
  exact h.free e' (List.mem_cons_of_mem _ he')

theorem sum_flip (g : A → ℤ) (he : e.2 = true ↔ e.1 ∈ F) :
    ∑ a ∈ flip F e, g a = ∑ a ∈ F, g a + signed g e := by
  obtain ⟨a, b⟩ := e
  cases b with
  | false =>
    have ha : a ∉ F := by simpa using he
    simp only [flip, signed, Bool.false_eq_true, if_false]
    rw [sum_insert ha, add_comm]
  | true =>
    have ha : a ∈ F := by simpa using he
    simp only [flip, signed, if_true]
    rw [← sum_erase_add F g ha, add_neg_cancel_right]

theorem sum_flips (g : A → ℤ) (h : Ready F l) :
    ∑ a ∈ l.foldl flip F, g a = ∑ a ∈ F, g a + (l.map (signed g)).sum := by
  induction l generalizing F with
  | nil => simp
  | cons e l ih =>
    rw [List.foldl_cons, ih h.tail, sum_flip g (h.free e List.mem_cons_self), List.map_cons,
      List.sum_cons, add_assoc]

theorem mem_flips_of_notMem {a : A} (ha : a ∉ l.map Prod.fst) : a ∈ l.foldl flip F ↔ a ∈ F := by
  induction l generalizing F with
  | nil => rfl
  | cons e l ih =>
    rw [List.map_cons, List.mem_cons, not_or] at ha
    rw [List.foldl_cons, ih ha.2, mem_flip, if_neg ha.1]

inductive Back (N : UnitNet V A) (s : V) : V → List (A × Bool) → Prop
  | nil : Back N s s []
  | cons {e : A × Bool} {l : List (A × Bool)} (h : Back N s (N.tail e) l) :
      Back N s (N.head e) (e :: l)

omit [DecidableEq A] in
theorem Back.sum_signed (h : N.Back s t l) (φ : V → ℤ) :
    (l.map (signed fun a => φ (N.src a) - φ (N.dst a))).sum = φ s - φ t := by
  induction h with
  | nil => simp
  | @cons e l _ ih =>
    rw [List.map_cons, List.sum_cons, ih]
    obtain ⟨a, b⟩ := e
    cases b <;> simp [signed, UnitNet.tail, UnitNet.head]

theorem Carries.flips (h : N.Carries F m s t) (hr : Ready F l) (hb : N.Back s t l) :
    N.Carries (l.foldl flip F) (m + 1) s t := by
  intro φ
  rw [sum_flips _ hr, h φ, hb.sum_signed φ]
  ring

theorem flips_subset (hF : F ⊆ N.live) (hl : ∀ e ∈ l, e.1 ∈ N.live) : l.foldl flip F ⊆ N.live := by
  induction l generalizing F with
  | nil => exact hF
  | cons e l ih =>
    rw [List.foldl_cons]
    apply ih _ (fun e' he' => hl e' (List.mem_cons_of_mem _ he'))
    intro a ha
    rw [mem_flip] at ha
    by_cases hae : a = e.1
    · exact hae ▸ hl e List.mem_cons_self
    · rw [if_neg hae] at ha
      exact hF ha

theorem Optimal.flips (h : N.Optimal F π)
    (htight : ∀ e ∈ l, π (N.dst e.1) = π (N.src e.1) + N.cost e.1) :
    N.Optimal (l.foldl flip F) π := by
  intro a ha
  by_cases hal : a ∈ l.map Prod.fst
  · obtain ⟨e, he, rfl⟩ := List.mem_map.mp hal
    have heq := htight e he
    exact ⟨fun _ => heq.le, fun _ => heq.ge⟩
  · rw [mem_flips_of_notMem hal]
    exact h a ha

/-! ## 4. Augmentation along a shortest path -/

/-- A potential for `F` that is lowest at `s`, where it is 0, and highest at `t`. -/
structure Priced (N : UnitNet V A) (s t : V) (F : Finset A) (π : V → ℤ) : Prop where
  optimal : N.Optimal F π
  start : π s = 0
  nonneg : ∀ v, 0 ≤ π v
  top : ∀ v, π v ≤ π t

def unreached [DecidableEq V] (s : V) (inf : ℤ) (v : V) : ℤ := if v = s then 0 else inf

variable [DecidableEq V] {L : Labels V (A × Bool)} {inf : ℤ} {v : V}

omit [DecidableEq A] in
theorem Priced.le_unreached (h : N.Priced s t F π) (hinf : π t ≤ inf) (v : V) :
    π v ≤ unreached s inf v := by
  unfold unreached
  by_cases hv : v = s
  · rw [if_pos hv, hv, h.start]
  · rw [if_neg hv]
    exact (h.top v).trans hinf

omit [DecidableEq V] in
theorem Ready.of_trail {init : V → ℤ} (hF : F ⊆ N.live) (hs : (N.residual F).Sound init π L)
    (h : (N.residual F).Trail L v l) : Ready F l := by
  constructor
  · -- an arc taken twice, either way, would bring the trail back to a vertex
    induction h with
    | root _ => simp
    | @step v e l hv ht ih =>
      have hnd := (Weighted.Trail.step hv ht).nodup
      have hhead : N.head e = v := hs.head v e hv
      rw [List.map_cons, List.nodup_cons, List.mem_cons, not_or, List.nodup_cons] at hnd
      rw [List.map_cons, List.nodup_cons]
      refine ⟨?_, ih⟩
      intro hmem
      obtain ⟨e', he', heq⟩ := List.mem_map.mp hmem
      have htail : N.tail e' ∈ l.map (N.residual F).tail := List.mem_map_of_mem he'
      obtain ⟨a, b⟩ := e
      obtain ⟨a', b'⟩ := e'
      obtain rfl : a' = a := heq
      by_cases hb : b' = b
      · subst hb
        exact hnd.2.1 htail
      · have hturn : N.tail (a', b') = N.head (a', b) := by
          revert hb
          cases b <;> cases b' <;> simp [UnitNet.tail, UnitNet.head]
        rw [hturn, hhead] at htail
        exact hnd.1.2 htail
  · intro e he
    obtain ⟨c, hc, -⟩ := hs.link _ e (h.heads hs.head he)
    exact (weight_eq_some hF hc).2.1

variable (hp : N.Priced s t F π) (hs : (N.residual F).Sound (unreached s inf) π L)

include hp hs in
theorem Priced.pred_start : L.dist s = 0 ∧ L.pred s = none := by
  have hlow := hs.low s
  have hhigh := hs.high s
  rw [hp.start] at hlow
  simp only [unreached, if_pos] at hhigh
  refine ⟨by omega, ?_⟩
  cases hpred : L.pred s with
  | none => rfl
  | some e =>
    have hbelow := hs.below s e hpred
    simp only [unreached, if_pos] at hbelow
    omega

include hp hs in
theorem Priced.trail_back (hF : F ⊆ N.live) (h : (N.residual F).Trail L v l)
    (hv : L.dist v - π v < inf - π t) : N.Back s v l := by
  have hfeas := (feasible_residual hF).mpr hp.optimal
  induction h with
  | @root v h =>
    have hdist := hs.root v h
    have htop := hp.top v
    by_cases hvs : v = s
    · subst hvs
      exact .nil
    · rw [unreached, if_neg hvs] at hdist
      omega
  | @step v e l h _ ih =>
    have hgap := hs.gap_le hfeas h
    have hhead : N.head e = v := hs.head v e h
    rw [← hhead]
    exact .cons (ih (lt_of_le_of_lt hgap hv))

def repriced (L : Labels V (A × Bool)) (π : V → ℤ) (t v : V) : ℤ :=
  min (L.dist v) (π v + (L.dist t - π t))

omit [DecidableEq A] [DecidableEq V] in
theorem repriced_top : repriced L π t t = L.dist t := by
  simp [repriced]

omit [DecidableEq V] hs in
include hp in
theorem Priced.repriced_optimal (hF : F ⊆ N.live) (hset : (N.residual F).Settled L) :
    N.Optimal F (repriced L π t) := by
  have hfeas := (feasible_residual hF).mpr hp.optimal
  rw [← feasible_residual hF]
  intro e c hc
  have hd := hset e c hc
  have hq := hfeas e c hc
  unfold repriced
  omega

include hp hs in
theorem Priced.augment (hF : F ⊆ N.live) (hset : (N.residual F).Settled L)
    (h : (N.residual F).Trail L t l) : N.Priced s t (l.foldl flip F) (repriced L π t) := by
  have hfeas := (feasible_residual hF).mpr hp.optimal
  have hlow := hs.low
  have hstart := (hp.pred_start hs).1
  refine ⟨?_, ?_, ?_, ?_⟩
  · apply (hp.repriced_optimal hF hset).flips
    intro e he
    -- every vertex of the trail is as near to the old potential as `t`
    obtain ⟨c, hc, hle⟩ := hs.link _ e (h.heads hs.head he)
    have hgap := hs.trail_gap_le hfeas h he
    have hge := hset e c hc
    obtain ⟨-, -, rfl⟩ := weight_eq_some hF hc
    have hhead : repriced L π t (N.head e) = L.dist (N.head e) :=
      min_eq_left (by have := hgap.1; simp only [residual] at this; omega)
    have htail : repriced L π t (N.tail e) = L.dist (N.tail e) :=
      min_eq_left (by have := hgap.2; simp only [residual] at this; omega)
    simp only [residual] at hle hge
    obtain ⟨a, b⟩ := e
    cases b with
    | false =>
      simp only [UnitNet.head, UnitNet.tail, Bool.false_eq_true, if_false] at *
      omega
    | true =>
      simp only [UnitNet.head, UnitNet.tail, if_true] at *
      omega
  · have hs0 := hp.start
    have := hlow t
    simp only [repriced]
    omega
  · intro v
    have hv0 := hp.nonneg v
    have := hlow v
    have := hlow t
    simp only [repriced]
    omega
  · intro v
    have := hp.top v
    rw [repriced_top]
    simp only [repriced]
    omega

/-! ## 5. The paths of a flow -/

inductive Walk (N : UnitNet V A) : V → V → List A → Prop
  | nil (v : V) : Walk N v v []
  | cons {a : A} {v : V} {l : List A} (h : Walk N (N.dst a) v l) : Walk N (N.src a) v (a :: l)

def visits (N : UnitNet V A) (u : V) (l : List A) : List V := u :: l.map N.dst

variable {p : List A} {u : V}

omit [DecidableEq A] [DecidableEq V] in
theorem Walk.sum_map (h : N.Walk u v p) (φ : V → ℤ) :
    (p.map fun a => φ (N.src a) - φ (N.dst a)).sum = φ u - φ v := by
  induction h with
  | nil v => simp
  | cons _ ih =>
    rw [List.map_cons, List.sum_cons, ih]
    ring

omit [DecidableEq A] [DecidableEq V] in
theorem Walk.uncons {a : A} (h : N.Walk u v (a :: p)) : N.src a = u ∧ N.Walk (N.dst a) v p := by
  cases h with
  | cons h => exact ⟨rfl, h⟩

omit [DecidableEq A] [DecidableEq V] in
theorem Walk.end_mem (h : N.Walk u v p) : v ∈ N.visits u p := by
  induction h with
  | nil v => simp [visits]
  | cons _ ih => exact List.mem_cons_of_mem _ ih

omit [DecidableEq A] [DecidableEq V] in
theorem Walk.nodup (h : (N.visits u p).Nodup) : p.Nodup :=
  List.Nodup.of_map _ (List.nodup_cons.mp h).2

omit [DecidableEq A] [DecidableEq V] in
theorem Walk.suffix {x : V} (h : N.Walk u v p) (hx : x ∈ N.visits u p) (hn : (N.visits u p).Nodup) :
    ∃ q, N.Walk x v q ∧ q ⊆ p ∧ (N.visits x q).Nodup := by
  induction h with
  | nil v =>
    obtain rfl : x = v := by simpa [visits] using hx
    exact ⟨[], .nil x, by simp, hn⟩
  | @cons a v l ht ih =>
    rw [visits, List.map_cons, List.mem_cons] at hx
    obtain rfl | hx := hx
    · exact ⟨a :: l, .cons ht, by simp, hn⟩
    · rw [visits, List.map_cons, List.nodup_cons] at hn
      obtain ⟨q, hq, hsub, hqn⟩ := ih hx hn.2
      exact ⟨q, hq, List.subset_cons_of_subset a hsub, hqn⟩

omit [DecidableEq A] [DecidableEq V] in
theorem exists_walk_of_reachable
    (h : Relation.ReflTransGen (fun x y => ∃ a ∈ F, N.src a = x ∧ N.dst a = y) u v) :
    ∃ p, N.Walk u v p ∧ (∀ a ∈ p, a ∈ F) ∧ (N.visits u p).Nodup := by
  induction h using Relation.ReflTransGen.head_induction_on with
  | refl => exact ⟨[], .nil v, by simp, by simp [visits]⟩
  | @head x y hxy _ ih =>
    obtain ⟨a, ha, rfl, rfl⟩ := hxy
    obtain ⟨p, hp, hpF, hpn⟩ := ih
    by_cases hx : N.src a ∈ N.visits (N.dst a) p
    · obtain ⟨q, hq, hsub, hqn⟩ := hp.suffix hx hpn
      exact ⟨q, hq, fun b hb => hpF b (hsub hb), hqn⟩
    · refine ⟨a :: p, .cons hp, ?_, ?_⟩
      · rintro b hb
        obtain rfl | hb := List.mem_cons.mp hb
        · exact ha
        · exact hpF b hb
      · rw [visits, List.map_cons, List.nodup_cons]
        exact ⟨hx, hpn⟩

omit [DecidableEq A] [DecidableEq V] in
theorem Carries.exists_walk (h : N.Carries F m s t) (hm : 0 < m) :
    ∃ p, N.Walk s t p ∧ (∀ a ∈ p, a ∈ F) ∧ (N.visits s p).Nodup := by
  classical
  apply exists_walk_of_reachable
  by_contra hst
  let R := Relation.ReflTransGen (fun x y => ∃ a ∈ F, N.src a = x ∧ N.dst a = y) s
  let φ : V → ℤ := fun x => if R x then 1 else 0
  have hsum := h φ
  have hle : ∑ a ∈ F, (φ (N.src a) - φ (N.dst a)) ≤ 0 := by
    apply sum_nonpos
    intro a ha
    by_cases hsrc : R (N.src a)
    · have hdst : R (N.dst a) := hsrc.tail ⟨a, ha, rfl, rfl⟩
      simp [φ, hsrc, hdst]
    · simp only [φ, if_neg hsrc]
      split <;> omega
  have hs1 : φ s = 1 := if_pos .refl
  have ht0 : φ t = 0 := if_neg hst
  rw [hs1, ht0] at hsum
  omega

omit [DecidableEq V] in
theorem Carries.sdiff_walk (h : N.Carries F m s t) (hp : N.Walk s t p) (hpF : ∀ a ∈ p, a ∈ F)
    (hn : p.Nodup) : N.Carries (F \ p.toFinset) (m - 1) s t := by
  intro φ
  have hsub : p.toFinset ⊆ F := by
    intro a ha
    exact hpF a (List.mem_toFinset.mp ha)
  have hsplit := sum_sdiff (f := fun a => φ (N.src a) - φ (N.dst a)) hsub
  rw [h φ, List.sum_toFinset _ hn, hp.sum_map φ] at hsplit
  linarith

omit [DecidableEq V] in
theorem Carries.walks {m : ℕ} (h : N.Carries F m s t) :
    ∃ ps : List (List A), ps.length = m ∧
      (∀ p ∈ ps, N.Walk s t p ∧ (N.visits s p).Nodup) ∧
      ps.flatten.Nodup ∧ ps.flatten.toFinset ⊆ F ∧ N.Carries (F \ ps.flatten.toFinset) 0 s t := by
  induction m generalizing F with
  | zero => exact ⟨[], rfl, by simp, by simp, by simp, by simpa using h⟩
  | succ m ih =>
    obtain ⟨p, hp, hpF, hpn⟩ := h.exists_walk (by omega)
    have hrest := h.sdiff_walk hp hpF (Walk.nodup hpn)
    rw [Nat.cast_succ, add_sub_cancel_right] at hrest
    obtain ⟨ps, hlen, hps, hnd, hsub, hcar⟩ := ih hrest
    refine ⟨p :: ps, by simp [hlen], ?_, ?_, ?_, ?_⟩
    · rintro q hq
      obtain rfl | hq := List.mem_cons.mp hq
      · exact ⟨hp, hpn⟩
      · exact hps q hq
    · rw [List.flatten_cons, List.nodup_append]
      refine ⟨Walk.nodup hpn, hnd, ?_⟩
      rintro a ha b hb rfl
      have hout := (mem_sdiff.mp (hsub (List.mem_toFinset.mpr hb))).2
      exact hout (List.mem_toFinset.mpr ha)
    · rw [List.flatten_cons, List.toFinset_append]
      apply union_subset
      · intro a ha
        exact hpF a (List.mem_toFinset.mp ha)
      · exact hsub.trans sdiff_subset
    · rw [List.flatten_cons, List.toFinset_append, ← sup_eq_union, ← sdiff_sdiff_left]
      exact hcar

omit [DecidableEq V] in
theorem carries_of_walks {ps : List (List A)} (hps : ∀ p ∈ ps, N.Walk s t p)
    (hnd : ps.flatten.Nodup) : N.Carries ps.flatten.toFinset ps.length s t := by
  intro φ
  rw [List.sum_toFinset _ hnd]
  clear hnd
  induction ps with
  | nil => simp
  | cons p ps ih =>
    rw [List.flatten_cons, List.map_append, List.sum_append,
      (hps p List.mem_cons_self).sum_map φ, ih (fun q hq => hps q (List.mem_cons_of_mem _ hq)),
      List.length_cons]
    push_cast
    ring

end UnitNet

end Spines.Lib
