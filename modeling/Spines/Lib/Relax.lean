/-
Shortest distances by relaxing a list of arcs until nothing moves.

Every vertex carries a distance and the arc it was last improved through; a
sweep relaxes all arcs in the order of the list, in place. Arcs may have
negative weights. What keeps the distances from running away is a potential:
a function `π` that no usable arc lowers by more than its weight. Against it

* a distance never falls below `π` (`Sound.low`),
* the arcs followed back from a vertex never close a cycle (`Sound.trail`),

and the second fact alone bounds the number of sweeps (`sweeps_settled`).
-/
import Mathlib.Algebra.Order.Group.Int
import Mathlib.Data.Finset.Card

set_option autoImplicit false

namespace Spines.Lib

open Function List

variable {V E : Type*}

/-! ## 1. Arcs and labels -/

/-- A directed graph; an arc without a weight may not be used. -/
structure Weighted (V E : Type*) where
  tail : E → V
  head : E → V
  weight : E → Option ℤ

structure Labels (V E : Type*) where
  dist : V → ℤ
  pred : V → Option E
  progress : Bool

/-- No usable arc lowers `π` by more than its weight. -/
def Weighted.Feasible (G : Weighted V E) (π : V → ℤ) : Prop :=
  ∀ e c, G.weight e = some c → π (G.head e) ≤ π (G.tail e) + c

variable [DecidableEq V]

def Weighted.improve (G : Weighted V E) (L : Labels V E) (e : E) (c : ℤ) : Labels V E :=
  { dist := Function.update L.dist (G.head e) (L.dist (G.tail e) + c)
    pred := Function.update L.pred (G.head e) (some e)
    progress := true }

def Weighted.relax (G : Weighted V E) (L : Labels V E) (e : E) : Labels V E :=
  match G.weight e with
  | none => L
  | some c => if L.dist (G.tail e) + c < L.dist (G.head e) then G.improve L e c else L

def Weighted.sweep (G : Weighted V E) (es : List E) (L : Labels V E) : Labels V E :=
  es.foldl G.relax { L with progress := false }

def Weighted.sweeps (G : Weighted V E) (es : List E) : ℕ → Labels V E → Labels V E
  | 0, L => L
  | n + 1, L => if (G.sweep es L).progress then G.sweeps es n (G.sweep es L) else G.sweep es L

section

variable (G : Weighted V E) {L : Labels V E} {init π : V → ℤ} {v : V} {e : E} {es : List E}

theorem Weighted.relax_cases (L : Labels V E) (e : E) :
    (G.relax L e = L ∧ ∀ c, G.weight e = some c → L.dist (G.head e) ≤ L.dist (G.tail e) + c) ∨
    ∃ c, G.weight e = some c ∧ L.dist (G.tail e) + c < L.dist (G.head e) ∧
      G.relax L e = G.improve L e c := by
  unfold Weighted.relax
  cases hw : G.weight e with
  | none => simp
  | some c =>
    by_cases hlt : L.dist (G.tail e) + c < L.dist (G.head e)
    · exact .inr ⟨c, rfl, hlt, by simp [hlt]⟩
    · refine .inl ⟨by simp [hlt], ?_⟩
      rintro c' ⟨⟩
      exact not_lt.mp hlt

theorem Weighted.relax_dist_le (L : Labels V E) (e : E) (v : V) :
    (G.relax L e).dist v ≤ L.dist v := by
  obtain ⟨h, -⟩ | ⟨c, -, hlt, h⟩ := G.relax_cases L e
  · rw [h]
  · rw [h, Weighted.improve]
    by_cases hv : v = G.head e
    · subst hv
      simpa using hlt.le
    · simp [hv]

theorem Weighted.foldl_relax_dist_le (es : List E) (L : Labels V E) (v : V) :
    (es.foldl G.relax L).dist v ≤ L.dist v := by
  induction es generalizing L with
  | nil => exact le_refl _
  | cons e es ih => exact (ih _).trans (G.relax_dist_le L e v)

theorem Weighted.foldl_relax_progress (es : List E) (h : L.progress = true) :
    (es.foldl G.relax L).progress = true := by
  induction es generalizing L with
  | nil => exact h
  | cons e es ih =>
    apply ih
    obtain ⟨h', -⟩ | ⟨c, -, -, h'⟩ := G.relax_cases L e
    · rw [h', h]
    · rw [h', Weighted.improve]

theorem Weighted.foldl_relax_quiet (h : (es.foldl G.relax L).progress = false) :
    es.foldl G.relax L = L ∧
      ∀ e ∈ es, ∀ c, G.weight e = some c → L.dist (G.head e) ≤ L.dist (G.tail e) + c := by
  induction es generalizing L with
  | nil => simp
  | cons e es ih =>
    rw [foldl_cons] at h ⊢
    obtain ⟨hL, hsat⟩ | ⟨c, -, -, hL⟩ := G.relax_cases L e
    · rw [hL] at h ⊢
      obtain ⟨hfold, hall⟩ := ih h
      refine ⟨hfold, ?_⟩
      rintro e' he' c hc
      obtain rfl | he' := mem_cons.mp he'
      · exact hsat c hc
      · exact hall e' he' c hc
    · have hup : (G.relax L e).progress = true := by rw [hL, Weighted.improve]
      rw [G.foldl_relax_progress es hup] at h
      exact absurd h (by simp)

/-! ## 2. Trails -/

/-- `l` lists the arcs followed back from `v`, to a vertex that was never
improved. -/
inductive Weighted.Trail (G : Weighted V E) (L : Labels V E) : V → List E → Prop
  | root {v : V} (h : L.pred v = none) : Trail G L v []
  | step {v : V} {e : E} {l : List E} (h : L.pred v = some e) (ht : Trail G L (G.tail e) l) :
      Trail G L v (e :: l)

variable {G} {l l' : List E} {u : V}

omit [DecidableEq V] in
theorem Weighted.Trail.unique (h : G.Trail L v l) (h' : G.Trail L v l') : l = l' := by
  induction h generalizing l' with
  | root hv =>
    cases h' with
    | root _ => rfl
    | step hv' _ => rw [hv] at hv'; exact absurd hv' (by simp)
  | step hv _ ih =>
    cases h' with
    | root hv' => rw [hv] at hv'; exact absurd hv' (by simp)
    | step hv' ht' =>
      rw [hv] at hv'
      obtain rfl := Option.some.inj hv'
      rw [ih ht']

omit [DecidableEq V] in
theorem Weighted.Trail.rest (h : G.Trail L v l) (hu : u ∈ l.map G.tail) :
    ∃ l', G.Trail L u l' ∧ l'.length < l.length := by
  induction h with
  | root _ => simp at hu
  | @step v e l hv ht ih =>
    rw [map_cons, mem_cons] at hu
    obtain rfl | hu := hu
    · exact ⟨l, ht, by simp⟩
    · obtain ⟨l', ht', hlen⟩ := ih hu
      exact ⟨l', ht', by rw [length_cons]; omega⟩

omit [DecidableEq V] in
theorem Weighted.Trail.nodup (h : G.Trail L v l) : (v :: l.map G.tail).Nodup := by
  induction h with
  | root _ => simp
  | @step v e l hv ht ih =>
    rw [map_cons, nodup_cons]
    refine ⟨?_, ih⟩
    intro hmem
    have hfull : G.Trail L v (e :: l) := .step hv ht
    obtain ⟨l', ht', hlen⟩ := hfull.rest (by rwa [map_cons])
    rw [hfull.unique ht'] at hlen
    omega

omit [DecidableEq V] in
theorem Weighted.Trail.heads (hhead : ∀ v e, L.pred v = some e → G.head e = v)
    (h : G.Trail L v l) (he : e ∈ l) : L.pred (G.head e) = some e := by
  induction h with
  | root _ => simp at he
  | step hv _ ih =>
    obtain rfl | he := mem_cons.mp he
    · rw [hhead _ _ hv, hv]
    · exact ih he

/-! ## 3. The invariant of the relaxations -/

/-- What holds of the labels at any time, with `init` the distances at the
start and `π` a potential. -/
structure Weighted.Sound (G : Weighted V E) (init π : V → ℤ) (L : Labels V E) : Prop where
  low : ∀ v, π v ≤ L.dist v
  high : ∀ v, L.dist v ≤ init v
  root : ∀ v, L.pred v = none → L.dist v = init v
  below : ∀ v e, L.pred v = some e → L.dist v < init v
  head : ∀ v e, L.pred v = some e → G.head e = v
  link : ∀ v e, L.pred v = some e →
    ∃ c, G.weight e = some c ∧ L.dist (G.tail e) + c ≤ L.dist v
  trail : ∀ v, ∃ l, G.Trail L v l

omit [DecidableEq V] in
theorem Weighted.sound_start (p : Bool) (hπ : ∀ v, π v ≤ init v) :
    G.Sound init π { dist := init, pred := fun _ => none, progress := p } where
  low := hπ
  high _ := le_refl _
  root _ _ := rfl
  below _ _ h := absurd h (by simp)
  head _ _ h := absurd h (by simp)
  link _ _ h := absurd h (by simp)
  trail _ := ⟨[], .root rfl⟩

omit [DecidableEq V] in
theorem Weighted.Sound.gap_le (hπ : G.Feasible π) (hs : G.Sound init π L) (h : L.pred v = some e) :
    L.dist (G.tail e) - π (G.tail e) ≤ L.dist v - π v := by
  obtain ⟨c, hc, hle⟩ := hs.link v e h
  have hfeas := hπ e c hc
  rw [hs.head v e h] at hfeas
  omega

omit [DecidableEq V] in
theorem Weighted.Sound.trail_gap_le (hπ : G.Feasible π) (hs : G.Sound init π L)
    (h : G.Trail L v l) (he : e ∈ l) :
    L.dist (G.head e) - π (G.head e) ≤ L.dist v - π v ∧
      L.dist (G.tail e) - π (G.tail e) ≤ L.dist v - π v := by
  induction h with
  | root _ => simp at he
  | @step v e' l hv _ ih =>
    have hgap := hs.gap_le hπ hv
    obtain rfl | he := mem_cons.mp he
    · exact ⟨by rw [hs.head _ _ hv], hgap⟩
    · exact ⟨(ih he).1.trans hgap, (ih he).2.trans hgap⟩

theorem Weighted.Trail.improve {c : ℤ} (hπ : G.Feasible π) (hs : G.Sound init π L)
    (h : G.Trail L v l) (hv : L.dist v - π v < L.dist (G.head e) - π (G.head e)) :
    G.Trail (G.improve L e c) v l := by
  have hne : ∀ x, L.dist x - π x < L.dist (G.head e) - π (G.head e) →
      (G.improve L e c).pred x = L.pred x := by
    intro x hx
    apply update_of_ne
    rintro rfl
    omega
  induction h with
  | root h => exact .root (by rw [hne _ hv, h])
  | step h _ ih =>
    refine .step (by rw [hne _ hv, h]) (ih ?_)
    exact (hs.gap_le hπ h).trans_lt hv

theorem Weighted.Sound.improve {c : ℤ} (hπ : G.Feasible π) (hs : G.Sound init π L)
    (hc : G.weight e = some c) (hlt : L.dist (G.tail e) + c < L.dist (G.head e)) :
    G.Sound init π (G.improve L e c) := by
  have hfeas := hπ e c hc
  have hlow := hs.low (G.tail e)
  have hdist : ∀ x, (G.improve L e c).dist x ≤ L.dist x := by
    intro x
    by_cases hx : x = G.head e
    · subst hx
      simpa [Weighted.improve] using hlt.le
    · simp [Weighted.improve, hx]
  have hpred : ∀ x e', (G.improve L e c).pred x = some e' →
      (x = G.head e ∧ e' = e) ∨ (x ≠ G.head e ∧ L.pred x = some e') := by
    intro x e' h
    by_cases hx : x = G.head e
    · subst hx
      exact .inl ⟨rfl, by simpa [Weighted.improve, eq_comm] using h⟩
    · exact .inr ⟨hx, by simpa [Weighted.improve, hx] using h⟩
  -- the new arc leaves a vertex nearer to the potential than its head was
  have hnear : L.dist (G.tail e) - π (G.tail e) < L.dist (G.head e) - π (G.head e) := by omega
  refine ⟨?_, fun x => (hdist x).trans (hs.high x), ?_, ?_, ?_, ?_, ?_⟩
  · intro x
    by_cases hx : x = G.head e
    · subst hx
      simp only [Weighted.improve, update_self]
      omega
    · simpa [Weighted.improve, hx] using hs.low x
  · intro x h
    by_cases hx : x = G.head e
    · subst hx
      simp [Weighted.improve] at h
    · simpa [Weighted.improve, hx] using hs.root x (by simpa [Weighted.improve, hx] using h)
  · intro x e' h
    obtain ⟨rfl, rfl⟩ | ⟨-, h⟩ := hpred x e' h
    · have hhigh := hs.high (G.head e')
      simp only [Weighted.improve, update_self]
      omega
    · exact (hdist x).trans_lt (hs.below x e' h)
  · intro x e' h
    obtain ⟨rfl, rfl⟩ | ⟨-, h⟩ := hpred x e' h
    · rfl
    · exact hs.head x e' h
  · intro x e' h
    obtain ⟨rfl, rfl⟩ | ⟨hx, h⟩ := hpred x e' h
    · refine ⟨c, hc, ?_⟩
      have htail := hdist (G.tail e')
      simp only [Weighted.improve, update_self] at htail ⊢
      omega
    · obtain ⟨c', hc', hle⟩ := hs.link x e' h
      refine ⟨c', hc', ?_⟩
      have htail := hdist (G.tail e')
      have hsame : (G.improve L e c).dist x = L.dist x := by simp [Weighted.improve, hx]
      omega
  · intro x
    obtain ⟨l, h⟩ := hs.trail x
    induction h with
    | @root x h =>
      by_cases hx : x = G.head e
      · subst hx
        obtain ⟨l, h'⟩ := hs.trail (G.tail e)
        exact ⟨e :: l, .step (by simp [Weighted.improve]) (h'.improve hπ hs hnear)⟩
      · exact ⟨[], .root (by simpa [Weighted.improve, hx] using h)⟩
    | @step x e' l h _ ih =>
      by_cases hx : x = G.head e
      · subst hx
        obtain ⟨l, h'⟩ := hs.trail (G.tail e)
        exact ⟨e :: l, .step (by simp [Weighted.improve]) (h'.improve hπ hs hnear)⟩
      · obtain ⟨l', h'⟩ := ih
        exact ⟨e' :: l', .step (by simpa [Weighted.improve, hx] using h) h'⟩

theorem Weighted.Sound.relax (hπ : G.Feasible π) (hs : G.Sound init π L) (e : E) :
    G.Sound init π (G.relax L e) := by
  obtain ⟨h, -⟩ | ⟨c, hc, hlt, h⟩ := G.relax_cases L e
  · rwa [h]
  · rw [h]
    exact hs.improve hπ hc hlt

omit [DecidableEq V] in
theorem Weighted.Sound.progress (hs : G.Sound init π L) (p : Bool) :
    G.Sound init π { L with progress := p } where
  low := hs.low
  high := hs.high
  root := hs.root
  below := hs.below
  head := hs.head
  link := hs.link
  trail v := by
    obtain ⟨l, h⟩ := hs.trail v
    refine ⟨l, ?_⟩
    induction h with
    | root h => exact .root h
    | step h _ ih => exact .step h ih

theorem Weighted.Sound.foldl (hπ : G.Feasible π) (hs : G.Sound init π L) (es : List E) :
    G.Sound init π (es.foldl G.relax L) := by
  induction es generalizing L with
  | nil => exact hs
  | cons e es ih => exact ih (hs.relax hπ e)

theorem Weighted.Sound.sweep (hπ : G.Feasible π) (hs : G.Sound init π L) (es : List E) :
    G.Sound init π (G.sweep es L) :=
  (hs.progress false).foldl hπ es

/-! ## 4. The number of sweeps -/

/-- A walk of at most `n` arcs ends in `v` and adds up to `x`, counted from the
distance its first vertex has at the start. -/
inductive Weighted.Reach (G : Weighted V E) (init : V → ℤ) : ℕ → V → ℤ → Prop
  | start (v : V) : Reach G init 0 v (init v)
  | wait {n : ℕ} {v : V} {x : ℤ} (h : Reach G init n v x) : Reach G init (n + 1) v x
  | step {n : ℕ} {e : E} {x c : ℤ} (h : Reach G init n (G.tail e) x)
      (hc : G.weight e = some c) : Reach G init (n + 1) (G.head e) (x + c)

/-- Every walk of at most `n` arcs has been taken into account. -/
def Weighted.Covers (G : Weighted V E) (init : V → ℤ) (n : ℕ) (L : Labels V E) : Prop :=
  ∀ v x, G.Reach init n v x → L.dist v ≤ x

omit [DecidableEq V] in
theorem Weighted.Reach.mono {n k : ℕ} {x : ℤ} (h : G.Reach init n v x) (hnk : n ≤ k) :
    G.Reach init k v x := by
  induction hnk with
  | refl => exact h
  | step _ ih => exact .wait ih

omit [DecidableEq V] in
theorem Weighted.Trail.reach (hs : G.Sound init π L) (h : G.Trail L v l) :
    ∃ x, x ≤ L.dist v ∧ G.Reach init l.length v x := by
  induction h with
  | @root v h => exact ⟨init v, (hs.root v h).ge, .start v⟩
  | @step v e l h _ ih =>
    obtain ⟨x, hx, hreach⟩ := ih
    obtain ⟨c, hc, hle⟩ := hs.link v e h
    refine ⟨x + c, by omega, ?_⟩
    have hstep := Weighted.Reach.step hreach hc
    rwa [hs.head v e h] at hstep

def Weighted.Within (G : Weighted V E) (N : Finset V) : Prop :=
  ∀ e c, G.weight e = some c → G.tail e ∈ N ∧ G.head e ∈ N

theorem Weighted.Trail.length_lt {N : Finset V} (hN : G.Within N) (hs : G.Sound init π L)
    (h : G.Trail L v l) (hv : v ∈ N) : l.length < N.card := by
  have hsub : (v :: l.map G.tail).toFinset ⊆ N := by
    intro u hu
    rw [List.mem_toFinset, mem_cons, List.mem_map] at hu
    obtain rfl | ⟨e, he, rfl⟩ := hu
    · exact hv
    · obtain ⟨c, hc, -⟩ := hs.link _ _ (h.heads hs.head he)
      exact (hN e c hc).1
  have hcard := Finset.card_le_card hsub
  rw [toFinset_card_of_nodup h.nodup, length_cons, length_map] at hcard
  omega

theorem Weighted.Covers.relax_eq {N : Finset V} {n : ℕ} (hN : G.Within N) (hn : N.card ≤ n + 1)
    (hπ : G.Feasible π) (hs : G.Sound init π L) (hcov : G.Covers init n L) (e : E) :
    G.relax L e = L := by
  obtain ⟨h, -⟩ | ⟨c, hc, hlt, -⟩ := G.relax_cases L e
  · exact h
  · -- the improved labels would have a trail that was counted before
    exfalso
    have hs' := hs.improve hπ hc hlt
    obtain ⟨l, hl⟩ := hs'.trail (G.head e)
    have hlen := hl.length_lt hN hs' (hN e c hc).2
    obtain ⟨x, hx, hreach⟩ := hl.reach hs'
    have hle := hcov _ _ (hreach.mono (by omega : l.length ≤ n))
    have hnew : (G.improve L e c).dist (G.head e) = L.dist (G.tail e) + c := by
      simp [Weighted.improve]
    omega

theorem Weighted.Covers.foldl_eq {N : Finset V} {n : ℕ} (hN : G.Within N) (hn : N.card ≤ n + 1)
    (hπ : G.Feasible π) (hs : G.Sound init π L) (hcov : G.Covers init n L) (es : List E) :
    es.foldl G.relax L = L := by
  induction es with
  | nil => rfl
  | cons e es ih => rw [foldl_cons, hcov.relax_eq hN hn hπ hs e, ih]

theorem Weighted.foldl_satisfies (he : e ∈ es) {c : ℤ} (hc : G.weight e = some c) :
    (es.foldl G.relax L).dist (G.head e) ≤ L.dist (G.tail e) + c := by
  induction es generalizing L with
  | nil => simp at he
  | cons e' es ih =>
    rw [foldl_cons]
    obtain rfl | he := mem_cons.mp he
    · refine (G.foldl_relax_dist_le es _ _).trans ?_
      obtain ⟨h, hsat⟩ | ⟨c', hc', -, h⟩ := G.relax_cases L e
      · rw [h]
        exact hsat c hc
      · rw [hc] at hc'
        obtain rfl := Option.some.inj hc'
        simp [h, Weighted.improve]
    · exact (ih he).trans (Int.add_le_add_right (G.relax_dist_le L e' _) c)

theorem Weighted.Covers.sweep {n : ℕ} (hcov : G.Covers init n L)
    (hes : ∀ e c, G.weight e = some c → e ∈ es) : G.Covers init (n + 1) (G.sweep es L) := by
  intro v x h
  cases h with
  | wait h => exact (G.foldl_relax_dist_le es _ v).trans (hcov v x h)
  | step h hc =>
    refine (Weighted.foldl_satisfies (hes _ _ hc) hc).trans ?_
    exact Int.add_le_add_right (hcov _ _ h) _

def Weighted.Settled (G : Weighted V E) (L : Labels V E) : Prop :=
  G.Feasible L.dist

theorem Weighted.sweep_settled (hes : ∀ e c, G.weight e = some c → e ∈ es)
    (h : (G.sweep es L).progress = false) : G.Settled (G.sweep es L) := by
  obtain ⟨hfix, hsat⟩ := G.foldl_relax_quiet h
  intro e c hc
  rw [Weighted.sweep, hfix]
  exact hsat e (hes e c hc) c hc

theorem Weighted.sweeps_settled {N : Finset V} {n i : ℕ} (hN : G.Within N)
    (hes : ∀ e c, G.weight e = some c → e ∈ es) (hπ : G.Feasible π)
    (hs : G.Sound init π L) (hcov : G.Covers init i L) (hn : 0 < n) (hin : N.card ≤ i + n) :
    (G.sweeps es n L).progress = false ∧ G.Sound init π (G.sweeps es n L) ∧
      G.Settled (G.sweeps es n L) := by
  induction n generalizing L i with
  | zero => omega
  | succ n ih =>
    rw [Weighted.sweeps]
    by_cases hp : (G.sweep es L).progress = true
    · rw [if_pos hp]
      refine ih (hs.sweep hπ es) (hcov.sweep hes) ?_ (by omega)
      rw [Nat.pos_iff_ne_zero]
      rintro rfl
      have hquiet := Weighted.Covers.foldl_eq (L := { L with progress := false }) hN hin hπ
        (hs.progress false) hcov es
      rw [Weighted.sweep, hquiet] at hp
      exact absurd hp (by simp)
    · rw [Bool.not_eq_true] at hp
      rw [if_neg (by simp [hp])]
      exact ⟨hp, hs.sweep hπ es, Weighted.sweep_settled hes hp⟩

omit [DecidableEq V] in
theorem Weighted.covers_start (p : Bool) :
    G.Covers init 0 { dist := init, pred := fun _ => none, progress := p } := by
  intro v x h
  cases h
  exact le_refl _

end

end Spines.Lib
