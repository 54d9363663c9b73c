/-
Cheapest paths in a weighted directed graph, and the all-pairs recursion over
the vertices a path may pass through.

A graph is a partial weight function `w : V → V → Option M`; a path is the list
of the vertices it visits. `Path w S i j p` says that `p` leads from `i` to `j`
along edges of `w` and that only vertices of `S` lie strictly inside it. The
table of the recursion holds paths, not weights: `Exact w S T` says that
`T i j` is a cheapest simple path from `i` to `j` through `S`, and
`Exact.relax` is the one step of the recursion, from `S` to `insert k S`.
-/
import Mathlib.Algebra.Order.Monoid.Canonical.Defs
import Mathlib.Data.List.Nodup
import Mathlib.Data.Set.Insert

set_option autoImplicit false

namespace Spines.Lib

open Option List

variable {V M : Type*}

/-! ## 1. Paths -/

/-- `p` is the list of vertices of a path from `i` to `j`; every vertex of it
other than the two ends is in `S`. -/
inductive Path (w : V → V → Option M) (S : Set V) : V → V → List V → Prop
  | nil (i : V) : Path w S i i [i]
  | cons {i x j : V} {p : List V} (hedge : (w i x).isSome)
      (hx : x ∈ S ∨ p = [j]) (hp : Path w S x j p) : Path w S i j (i :: p)

section Shape

variable {w : V → V → Option M} {S S' : Set V} {i j k x : V} {p q : List V}

theorem Path.eq_cons (h : Path w S i j p) : p = i :: p.tail := by
  cases h with
  | nil => simp
  | cons => simp

theorem Path.ne_nil (h : Path w S i j p) : p ≠ [] := by
  rw [h.eq_cons]
  simp

theorem Path.start_mem (h : Path w S i j p) : i ∈ p := by
  rw [h.eq_cons]
  simp

theorem Path.end_mem (h : Path w S i j p) : j ∈ p := by
  induction h with
  | nil i => simp
  | cons _ _ _ ih => exact mem_cons_of_mem _ ih

theorem Path.eq_concat (h : Path w S i j p) : p = p.dropLast ++ [j] := by
  induction h with
  | nil i => simp
  | @cons a y b t hedge _ ht ih =>
    rw [dropLast_cons_of_ne_nil ht.ne_nil, cons_append, ← ih]

theorem Path.mono (hS : S ⊆ S') (h : Path w S i j p) : Path w S' i j p := by
  induction h with
  | nil i => exact .nil i
  | cons hedge hx _ ih => exact .cons hedge (hx.imp_left (hS ·)) ih

theorem Path.restrict (hS : ∀ a b, (w a b).isSome → b ∈ S) (h : Path w S' i j p) :
    Path w S i j p := by
  induction h with
  | nil i => exact .nil i
  | cons hedge _ _ ih => exact .cons hedge (.inl (hS _ _ hedge)) ih

theorem Path.mem (h : Path w S i j p) (hx : x ∈ p) : x = i ∨ x = j ∨ x ∈ S := by
  induction h with
  | nil i => exact .inl (by simpa using hx)
  | @cons a y b t _ hy ht ih =>
    rcases mem_cons.mp hx with hxa | hxt
    · exact .inl hxa
    · rcases ih hxt with hxy | hxb | hxS
      · rcases hy with hyS | htb
        · exact .inr (.inr (hxy ▸ hyS))
        · rw [htb, mem_singleton] at hxt
          exact .inr (.inl hxt)
      · exact .inr (.inl hxb)
      · exact .inr (.inr hxS)

theorem Path.append (hk : k ∈ S) (hp : Path w S i k p) (hq : Path w S k j q) :
    Path w S i j (p ++ q.tail) := by
  induction hp with
  | nil i =>
    rw [singleton_append, ← hq.eq_cons]
    exact hq
  | @cons a y b t hedge hy ht ih =>
    refine .cons hedge (.inl ?_) (ih hk hq)
    rcases hy with hyS | htb
    · exact hyS
    · have hyb : y = b := by
        have h := ht.start_mem
        rw [htb] at h
        exact mem_singleton.mp h
      exact hyb ▸ hk

theorem Path.nodup_append (hq : Path w S k j q)
    (hpn : p.Nodup) (hqn : q.Nodup) (hcommon : ∀ y ∈ p, y ∈ q → y = k) : (p ++ q.tail).Nodup := by
  have hqk := hq.eq_cons
  rw [hqk, nodup_cons] at hqn
  refine List.nodup_append.mpr ⟨hpn, hqn.2, ?_⟩
  rintro a ha b hb rfl
  have hak : a = k := hcommon a ha (mem_of_mem_tail hb)
  exact hqn.1 (hak ▸ hb)

theorem Path.length_append (hp : Path w S i k p) (hq : Path w S k j q) :
    (p ++ q.tail).length - 1 = (p.length - 1) + (q.length - 1) := by
  rw [hp.eq_cons, hq.eq_cons]
  simp

end Shape

/-! ## 2. The vertex that follows on a path -/

section Next

variable [DecidableEq V]

def next (v : V) : List V → Option V
  | a :: b :: p => if a = v then some b else next v (b :: p)
  | _ => none

variable {w : V → V → Option M} {S : Set V} {i j k v u : V} {p q : List V}

theorem next_cons (v a : V) (p : List V) (hp : p ≠ []) :
    next v (a :: p) = if a = v then p.head? else next v p := by
  cases p with
  | nil => exact absurd rfl hp
  | cons b p => simp [next]

theorem next_eq_none (h : v ∉ p) : next v p = none := by
  induction p with
  | nil => simp [next]
  | cons a p ih =>
    rw [mem_cons, not_or] at h
    by_cases hp : p = []
    · simp [hp, next]
    · rw [next_cons _ _ _ hp, if_neg (fun hav => h.1 hav.symm)]
      exact ih h.2

theorem Path.next_isSome (h : Path w S i j p) (hn : p.Nodup) :
    (next v p).isSome ↔ v ∈ p ∧ v ≠ j := by
  induction h with
  | nil i => simp [next]
  | @cons a y b t hedge hy ht ih =>
    rw [nodup_cons] at hn
    have hab : a ≠ b := fun hab => hn.1 (hab ▸ ht.end_mem)
    rw [next_cons _ _ _ ht.ne_nil]
    by_cases hav : a = v
    · subst hav
      rw [if_pos rfl, ht.eq_cons]
      simp [hab]
    · rw [if_neg hav, ih hn.2]
      simp [Ne.symm hav]

theorem next_infix (h : next v p = some u) : [v, u] <:+: p := by
  induction p with
  | nil => simp [next] at h
  | cons a p ih =>
    by_cases hp : p = []
    · simp [hp, next] at h
    · rw [next_cons _ _ _ hp] at h
      by_cases hav : a = v
      · obtain ⟨b, t, rfl⟩ := exists_cons_of_ne_nil hp
        rw [if_pos hav, List.head?_cons, Option.some.injEq] at h
        refine ⟨[], t, ?_⟩
        simp [hav, h]
      · rw [if_neg hav] at h
        exact (ih h).trans (infix_cons (infix_refl p))

theorem Path.next_append (hp : Path w S i k p) (hq : Path w S k j q)
    (hn : (p ++ q.tail).Nodup) : next v (p ++ q.tail) = (next v q).or (next v p) := by
  induction hp with
  | nil i =>
    rw [singleton_append, ← hq.eq_cons]
    simp [next]
  | @cons a y b t hedge hy ht ih =>
    rw [cons_append, nodup_cons] at hn
    have hne : t ++ q.tail ≠ [] := by simp [ht.ne_nil]
    rw [cons_append, next_cons _ _ _ hne, next_cons _ _ _ ht.ne_nil, ih hq hn.2]
    by_cases hav : a = v
    · -- `v` starts the first half, so it is not in the second one
      have hvq : v ∉ q := by
        rw [hq.eq_cons, ← hav, mem_cons, not_or]
        rw [mem_append, not_or] at hn
        exact ⟨fun hab => hn.1.1 (hab ▸ ht.end_mem), hn.1.2⟩
      rw [if_pos hav, if_pos hav, next_eq_none hvq, ht.eq_cons]
      simp
    · rw [if_neg hav, if_neg hav]

end Next

/-! ## 3. Cost and length -/

section Cost

variable [AddCommMonoid M]

/-- The sum of the weights along `p`. -/
def pathCost (w : V → V → Option M) : List V → M
  | a :: b :: p => (w a b).getD 0 + pathCost w (b :: p)
  | _ => 0

variable {w : V → V → Option M} {S : Set V} {i j k x y : V} {p q : List V}

@[simp] theorem pathCost_singleton (i : V) : pathCost w [i] = 0 := by
  simp [pathCost]

theorem Path.cost_cons (h : Path w S x j p) :
    pathCost w (i :: p) = (w i x).getD 0 + pathCost w p := by
  rw [h.eq_cons]
  simp [pathCost]

theorem Path.cost_append (hp : Path w S i k p) (hq : Path w S k j q) :
    pathCost w (p ++ q.tail) = pathCost w p + pathCost w q := by
  induction hp with
  | nil i =>
    rw [singleton_append, ← hq.eq_cons]
    simp
  | @cons a z b t hedge hz ht ih =>
    have htq : (t ++ q.tail) = z :: (t ++ q.tail).tail := by
      rw [ht.eq_cons]
      simp
    rw [cons_append, ht.cost_cons, add_assoc, ← ih hq, htq]
    simp [pathCost]

theorem Path.rest {t : List V} (hp : Path w S i k p) (h : Path w S i j (p ++ t)) :
    Path w S k j (k :: t) ∧ pathCost w (p ++ t) = pathCost w p + pathCost w (k :: t) := by
  induction hp with
  | nil i => exact ⟨h, by simp⟩
  | @cons a z b u hedge hz hu ih =>
    have hu' := hu.eq_cons
    rw [cons_append, hu', cons_append] at h
    cases h with
    | @cons _ z' _ _ hedge' hz' hrest =>
      obtain rfl : z' = z := (List.cons.inj hrest.eq_cons).1.symm
      rw [← cons_append, ← hu'] at hrest
      obtain ⟨hpath, hcost⟩ := ih hrest
      rw [cons_append, hrest.cost_cons, hu.cost_cons, hcost, add_assoc]
      exact ⟨hpath, rfl⟩

variable [LinearOrder M] [IsOrderedAddMonoid M]

theorem pathCost_le (C : M) (hC : ∀ a b, (w a b).getD 0 ≤ C) (p : List V) :
    pathCost w p ≤ (p.length - 1) • C := by
  induction p with
  | nil => simp [pathCost]
  | cons a p ih =>
    cases p with
    | nil => simp [pathCost]
    | cons b p =>
      have hstep : pathCost w (b :: p) ≤ p.length • C := by simpa using ih
      simp only [pathCost, length_cons, Nat.add_sub_cancel]
      rw [succ_nsmul']
      exact add_le_add (hC a b) hstep

variable [CanonicallyOrderedAdd M]

theorem Path.before (hp : Path w S i k p) (hx : x ∈ p) :
    ∃ p', Path w S i x p' ∧ pathCost w p' ≤ pathCost w p := by
  induction hp with
  | nil i =>
    obtain rfl := mem_singleton.mp hx
    exact ⟨[x], .nil x, le_rfl⟩
  | @cons a z b t hedge hz ht ih =>
    rcases mem_cons.mp hx with rfl | hxt
    · exact ⟨[x], .nil x, by simp⟩
    · rcases hz with hzS | htb
      · obtain ⟨p', hp', hle⟩ := ih hxt
        refine ⟨a :: p', .cons hedge (.inl hzS) hp', ?_⟩
        rw [hp'.cost_cons, ht.cost_cons]
        exact add_le_add_right hle _
      · -- a single edge: `x` is its end
        have hxb : x = b := mem_singleton.mp (htb ▸ hxt)
        exact ⟨a :: t, hxb ▸ .cons hedge (.inr htb) ht, le_rfl⟩

omit [IsOrderedAddMonoid M] in
theorem Path.after (hq : Path w S k j q) (hx : x ∈ q) :
    ∃ q', Path w S x j q' ∧ pathCost w q' ≤ pathCost w q := by
  induction hq with
  | nil i =>
    obtain rfl := mem_singleton.mp hx
    exact ⟨[x], .nil x, le_rfl⟩
  | @cons a z b t hedge hz ht ih =>
    rcases mem_cons.mp hx with rfl | hxt
    · exact ⟨x :: t, .cons hedge hz ht, le_rfl⟩
    · obtain ⟨q', hq', hle⟩ := ih hxt
      refine ⟨q', hq', hle.trans ?_⟩
      rw [ht.cost_cons]
      exact le_add_self

theorem Path.split (h : Path w (insert k S) i j p) :
    (∃ p', Path w S i j p' ∧ pathCost w p' ≤ pathCost w p) ∨
    ∃ p1 p2, Path w S i k p1 ∧ Path w S k j p2 ∧ pathCost w p1 + pathCost w p2 ≤ pathCost w p := by
  induction h with
  | nil i => exact .inl ⟨[i], .nil i, le_rfl⟩
  | @cons a z b t hedge hz ht ih =>
    rcases hz with hzS | htb
    · rcases Set.mem_insert_iff.mp hzS with rfl | hzS
      · -- the first step reaches `k`; what the rest does before it leaves `k` for good is dropped
        have hedge' : Path w S a z [a, z] := .cons hedge (.inr rfl) (.nil z)
        have hcost : pathCost w [a, z] = (w a z).getD 0 := by simp [pathCost]
        rcases ih with ⟨p', hp', hle⟩ | ⟨p1, p2, -, hp2, hle⟩
        · refine .inr ⟨[a, z], p', hedge', hp', ?_⟩
          rw [hcost, ht.cost_cons]
          exact add_le_add_right hle _
        · refine .inr ⟨[a, z], p2, hedge', hp2, ?_⟩
          rw [hcost, ht.cost_cons]
          exact add_le_add_right (le_add_self.trans hle) _
      · rcases ih with ⟨p', hp', hle⟩ | ⟨p1, p2, hp1, hp2, hle⟩
        · refine .inl ⟨a :: p', .cons hedge (.inl hzS) hp', ?_⟩
          rw [hp'.cost_cons, ht.cost_cons]
          exact add_le_add_right hle _
        · refine .inr ⟨a :: p1, p2, .cons hedge (.inl hzS) hp1, hp2, ?_⟩
          rw [hp1.cost_cons, ht.cost_cons, add_assoc]
          exact add_le_add_right hle _
    · have hzb : z = b := mem_singleton.mp (htb ▸ ht.start_mem)
      subst hzb htb
      exact .inl ⟨[a, z], .cons hedge (.inr rfl) (.nil z), le_rfl⟩

end Cost

/-! ## 4. All pairs -/

section AllPairs

variable [AddCommMonoid M] [LinearOrder M]

def pick (w : V → V → Option M) : Option (List V) → Option (List V) → Option (List V)
  | some r, some s => if pathCost w s < pathCost w r then some s else some r
  | some r, none => some r
  | none, new => new

variable {w : V → V → Option M} {S : Set V} {i j k : V} {T : V → V → Option (List V)}
  {p q r : List V} {old new : Option (List V)}

theorem pick_eq_some (h : pick w old new = some p) :
    old = some p ∨ new = some p ∧ ∀ r, old = some r → pathCost w p < pathCost w r := by
  rcases old with _ | r <;> rcases new with _ | s
  · simp [pick] at h
  · exact .inr ⟨h, by simp⟩
  · exact .inl h
  · by_cases hlt : pathCost w s < pathCost w r
    · simp only [pick, if_pos hlt, Option.some.injEq] at h
      subst h
      exact .inr ⟨rfl, by simpa using hlt⟩
    · simp only [pick, if_neg hlt] at h
      exact .inl h

theorem pick_le_old (w : V → V → Option M) (new : Option (List V)) (h : old = some q) :
    ∃ p, pick w old new = some p ∧ pathCost w p ≤ pathCost w q := by
  subst h
  rcases new with _ | s
  · exact ⟨q, rfl, le_rfl⟩
  · by_cases hlt : pathCost w s < pathCost w q
    · exact ⟨s, by simp [pick, hlt], hlt.le⟩
    · exact ⟨q, by simp [pick, hlt], le_rfl⟩

theorem pick_le_new (w : V → V → Option M) (old : Option (List V)) (h : new = some q) :
    ∃ p, pick w old new = some p ∧ pathCost w p ≤ pathCost w q := by
  subst h
  rcases old with _ | r
  · exact ⟨q, rfl, le_rfl⟩
  · by_cases hlt : pathCost w q < pathCost w r
    · exact ⟨q, by simp [pick, hlt], le_rfl⟩
    · exact ⟨r, by simp [pick, hlt], not_lt.mp hlt⟩

variable [DecidableEq V]

/-- The path from `i` to `j` that the table offers through `k`. -/
def through (T : V → V → Option (List V)) (k i j : V) : Option (List V) :=
  if i = k ∨ j = k ∨ i = j then none
  else (T i k).bind fun p => (T k j).map fun q => p ++ q.tail

/-- One round: every pair may now also go through `k`. -/
def relax (w : V → V → Option M) (k : V) (T : V → V → Option (List V)) (i j : V) :
    Option (List V) :=
  pick w (T i j) (through T k i j)

def direct (w : V → V → Option M) (i j : V) : Option (List V) :=
  if i = j then some [i] else if (w i j).isSome then some [i, j] else none

/-- Every entry of the table is a cheapest path through `S`, and simple. -/
structure Exact (w : V → V → Option M) (S : Set V) (T : V → V → Option (List V)) : Prop where
  path : ∀ {i j p}, T i j = some p → Path w S i j p
  nodup : ∀ {i j p}, T i j = some p → p.Nodup
  best : ∀ {i j q}, Path w S i j q → ∃ p, T i j = some p ∧ pathCost w p ≤ pathCost w q

theorem through_eq_some (h : through T k i j = some r) :
    i ≠ k ∧ j ≠ k ∧ i ≠ j ∧ ∃ p q, T i k = some p ∧ T k j = some q ∧ r = p ++ q.tail := by
  unfold through at h
  split at h
  · simp at h
  · rename_i hne
    rw [not_or, not_or] at hne
    obtain ⟨p, hp, hr⟩ := bind_eq_some_iff.mp h
    obtain ⟨q, hq, hr⟩ := map_eq_some_iff.mp hr
    exact ⟨hne.1, hne.2.1, hne.2.2, p, q, hp, hq, hr.symm⟩

theorem relax_of_through (h : through T k i j = none) : relax w k T i j = T i j := by
  rw [relax, h]
  cases T i j with
  | none => rfl
  | some r => rfl

theorem through_of (hik : i ≠ k) (hjk : j ≠ k) (hij : i ≠ j) (hp : T i k = some p)
    (hq : T k j = some q) : through T k i j = some (p ++ q.tail) := by
  simp [through, hik, hjk, hij, hp, hq]

variable [CanonicallyOrderedAdd M]

theorem Exact.direct : Exact w ∅ (direct w) where
  path := by
    intro i j p h
    unfold Lib.direct at h
    split at h
    · rename_i hij
      obtain rfl := some.inj h
      exact hij ▸ .nil i
    · split at h
      · rename_i hedge
        obtain rfl := some.inj h
        exact .cons hedge (.inr rfl) (.nil j)
      · simp at h
  nodup := by
    intro i j p h
    unfold Lib.direct at h
    split at h
    · obtain rfl := some.inj h
      simp
    · rename_i hij
      split at h
      · obtain rfl := some.inj h
        simp [hij]
      · simp at h
  best := by
    intro i j q h
    by_cases hij : i = j
    · exact ⟨[i], by simp [Lib.direct, hij], by simp⟩
    · cases h with
      | nil => exact absurd rfl hij
      | @cons _ x _ t hedge hx ht =>
        rcases hx with hx | rfl
        · exact absurd hx (Set.notMem_empty x)
        · obtain rfl := mem_singleton.mp ht.start_mem
          exact ⟨[i, x], by simp [Lib.direct, hij, hedge], le_rfl⟩

variable [IsOrderedAddMonoid M]

theorem Exact.halves_meet (hT : Exact w S T) (hp : T i k = some p) (hq : T k j = some q)
    (hlt : ∀ r, T i j = some r → pathCost w p + pathCost w q < pathCost w r)
    {x : V} (hxp : x ∈ p) (hxq : x ∈ q) : x = k := by
  by_contra hxk
  obtain ⟨p', hp', hple⟩ := (hT.path hp).before hxp
  obtain ⟨q', hq', hqle⟩ := (hT.path hq).after hxq
  have hshort : ∃ s, Path w S i j s ∧ pathCost w s ≤ pathCost w p + pathCost w q := by
    rcases (hT.path hp).mem hxp with rfl | hxk' | hxS
    · exact ⟨q', hq', hqle.trans le_add_self⟩
    · exact absurd hxk' hxk
    · refine ⟨p' ++ q'.tail, hp'.append hxS hq', ?_⟩
      rw [hp'.cost_append hq']
      exact add_le_add hple hqle
  obtain ⟨s, hs, hsle⟩ := hshort
  obtain ⟨r, hr, hrle⟩ := hT.best hs
  exact absurd (hlt r hr) (not_lt.mpr (hrle.trans hsle))

theorem Exact.relax (hT : Exact w S T) : Exact w (insert k S) (relax w k T) where
  path := by
    intro i j r h
    rcases pick_eq_some h with hold | ⟨hnew, -⟩
    · exact (hT.path hold).mono (Set.subset_insert k S)
    · obtain ⟨-, -, -, p, q, hp, hq, rfl⟩ := through_eq_some hnew
      have hp' := (hT.path hp).mono (Set.subset_insert k S)
      have hq' := (hT.path hq).mono (Set.subset_insert k S)
      exact hp'.append (Set.mem_insert k S) hq'
  nodup := by
    intro i j r h
    rcases pick_eq_some h with hold | ⟨hnew, hlt⟩
    · exact hT.nodup hold
    · obtain ⟨-, -, -, p, q, hp, hq, rfl⟩ := through_eq_some hnew
      apply (hT.path hq).nodup_append (hT.nodup hp) (hT.nodup hq)
      intro y hyp hyq
      apply hT.halves_meet hp hq _ hyp hyq
      intro r hr
      rw [← (hT.path hp).cost_append (hT.path hq)]
      exact hlt r hr
  best := by
    intro i j s hs
    -- a cheap enough old entry is enough
    have hkeep : ∀ s', Path w S i j s' → pathCost w s' ≤ pathCost w s →
        ∃ p, Lib.relax w k T i j = some p ∧ pathCost w p ≤ pathCost w s := by
      intro s' hs' hle
      obtain ⟨r, hr, hrle⟩ := hT.best hs'
      obtain ⟨p, hp, hple⟩ := pick_le_old w (through T k i j) hr
      exact ⟨p, hp, hple.trans (hrle.trans hle)⟩
    rcases hs.split with ⟨s', hs', hle⟩ | ⟨p1, p2, hp1, hp2, hle⟩
    · exact hkeep s' hs' hle
    · by_cases hik : i = k
      · exact hkeep p2 (hik ▸ hp2) (le_add_self.trans hle)
      by_cases hjk : j = k
      · exact hkeep p1 (hjk ▸ hp1) (le_self_add.trans hle)
      by_cases hij : i = j
      · exact hkeep [i] (hij ▸ .nil i) (by simp)
      obtain ⟨p, hp, hple⟩ := hT.best hp1
      obtain ⟨q, hq, hqle⟩ := hT.best hp2
      obtain ⟨r, hr, hrle⟩ := pick_le_new w (T i j) (through_of hik hjk hij hp hq)
      rw [(hT.path hp).cost_append (hT.path hq)] at hrle
      exact ⟨r, hr, hrle.trans ((add_le_add hple hqle).trans hle)⟩

theorem Exact.rounds (ks : List V) (hT : Exact w S T) :
    Exact w ({x | x ∈ ks} ∪ S) (ks.foldl (fun T k => Lib.relax w k T) T) := by
  induction ks generalizing S T with
  | nil => simpa using hT
  | cons k ks ih =>
    have h := ih (hT.relax (k := k))
    have hset : {x | x ∈ ks} ∪ insert k S = {x | x ∈ k :: ks} ∪ S := by
      ext x
      simp only [Set.mem_union, Set.mem_ofPred_eq, Set.mem_insert_iff, mem_cons]
      tauto
    rw [hset] at h
    exact h

end AllPairs

/-! ## 5. Paths from one vertex agree -/

section Prefixes

variable {w : V → V → Option M} {S : Set V} {i j k : V} {T : V → V → Option (List V)}
  {p q : List V}

def PrefixClosed (T : V → V → Option (List V)) : Prop :=
  ∀ i j p x, T i j = some p → x ∈ p → ∃ q, T i x = some q ∧ q <+: p

theorem PrefixClosed.upto (h : PrefixClosed T) (hpath : ∀ j p, T i j = some p → Path w S i j p)
    {x : V} {pre rest : List V} (hp : T i j = some (pre ++ x :: rest))
    (hn : (pre ++ x :: rest).Nodup) : T i x = some (pre ++ [x]) := by
  obtain ⟨q, hq, t, ht⟩ := h i j _ x hp (by simp)
  rw [(hpath x q hq).eq_concat, append_assoc, singleton_append] at ht
  have hx : x ∉ pre ∧ x ∉ rest := by
    rw [nodup_append, nodup_cons] at hn
    exact ⟨fun hpre => hn.2.2 x hpre x mem_cons_self rfl, hn.2.1.1⟩
  have heq := (append_cons_inj_of_notMem hx.1 hx.2).mp ht.symm
  rw [hq, (hpath x q hq).eq_concat, heq.1]

theorem PrefixClosed.direct [DecidableEq V] : PrefixClosed (direct w) := by
  intro i j p x h hx
  unfold Lib.direct at h
  by_cases hij : i = j
  · rw [if_pos hij] at h
    obtain rfl := some.inj h
    obtain rfl := mem_singleton.mp hx
    exact ⟨[x], by simp [Lib.direct, hij], prefix_rfl⟩
  · rw [if_neg hij] at h
    by_cases hedge : (w i j).isSome
    · rw [if_pos hedge] at h
      obtain rfl := some.inj h
      obtain rfl | hx := mem_cons.mp hx
      · exact ⟨[x], by simp [Lib.direct], ⟨[j], rfl⟩⟩
      · obtain rfl := mem_singleton.mp hx
        exact ⟨[i, x], by simp [Lib.direct, hij, hedge], prefix_rfl⟩
    · rw [if_neg hedge] at h
      exact absurd h (by simp)

variable [AddCommMonoid M] [LinearOrder M] [AddLeftStrictMono M]

theorem Exact.no_shortcut (hT : Exact w S T) {x : V} {t s : List V} (hpt : T i j = some (p ++ t))
    (hp : Path w S i x p) (hx : x ∈ S) (hs : T i x = some s) : ¬pathCost w s < pathCost w p := by
  intro hlt
  obtain ⟨hrest, hcost⟩ := hp.rest (hT.path hpt)
  obtain ⟨r, hr, hle⟩ := hT.best ((hT.path hs).append hx hrest)
  rw [hpt, Option.some.injEq] at hr
  subst hr
  rw [(hT.path hs).cost_append hrest, hcost] at hle
  exact absurd hle (not_le.mpr (add_lt_add_left hlt _))

variable [CanonicallyOrderedAdd M] [IsOrderedAddMonoid M] [DecidableEq V]

theorem Exact.relax_keeps (hT : Exact w S T) {x : V} {t : List V}
    (hpt : Lib.relax w k T i j = some (p ++ t)) (hp : T i x = some p) (hx : x ∈ insert k S) :
    Lib.relax w k T i x = some p := by
  obtain ⟨s, hs, hle⟩ := pick_le_old w (through T k i x) hp
  obtain hold | ⟨-, hlt⟩ := pick_eq_some hs
  · rw [hold] at hp
    exact hs.trans hp
  · have hpath := (hT.path hp).mono (Set.subset_insert k S)
    exact absurd (hlt p hp) (hT.relax.no_shortcut hpt hpath hx hs)

omit [AddLeftStrictMono M] [CanonicallyOrderedAdd M] in
/-- If a round improves the way to `j` by way of `k`, it has improved every vertex
on the new second half too: an old way there that was as cheap would have been
part of an old way to `j`. -/
theorem Exact.through_improves (hT : Exact w S T) {x : V} {q' t : List V}
    (hp : T i k = some p) (hqt : T k j = some (q' ++ t)) (hq' : T k x = some q')
    (hlt : ∀ r, T i j = some r → pathCost w (p ++ (q' ++ t).tail) < pathCost w r)
    (hik : i ≠ k) (hxk : x ≠ k) (hix : i ≠ x) (hx : x = j ∨ x ∈ S) :
    Lib.relax w k T i x = some (p ++ q'.tail) := by
  have hthrough := through_of hik hxk hix hp hq'
  have hpath := hT.path hp
  rw [hpath.cost_append (hT.path hqt)] at hlt
  rw [Lib.relax, hthrough]
  cases hs : T i x with
  | none => rfl
  | some s =>
    have hbetter : pathCost w (p ++ q'.tail) < pathCost w s := by
      rw [hpath.cost_append (hT.path hq')]
      by_contra hle
      rw [not_lt] at hle
      obtain ⟨hrest, hcost⟩ := (hT.path hq').rest (hT.path hqt)
      rcases hx with rfl | hxS
      · rw [hqt, Option.some.injEq] at hq'
        have h := hlt s hs
        rw [hq'] at h
        exact absurd h (not_lt.mpr hle)
      · obtain ⟨r, hr, hrle⟩ := hT.best ((hT.path hs).append hxS hrest)
        refine absurd (hlt r hr) (not_lt.mpr (hrle.trans ?_))
        rw [(hT.path hs).cost_append hrest, hcost, ← add_assoc]
        exact add_le_add_left hle _
    simp [pick, hbetter]

theorem PrefixClosed.relax (hT : Exact w S T) (hpre : PrefixClosed T) :
    PrefixClosed (relax w k T) := by
  intro i j r x hr hxr
  have hstart : ∀ q, T i x = some q → i = x → Lib.relax w k T i x = some q := by
    intro q hq hix
    rw [relax_of_through (by simp [through, hix]), hq]
  obtain hold | ⟨hnew, hlt⟩ := pick_eq_some hr
  · obtain ⟨q, hq, t, rfl⟩ := hpre i j r x hold hxr
    refine ⟨q, ?_, prefix_append q t⟩
    rcases (hT.path hold).mem hxr with hxi | rfl | hxS
    · exact hstart q hq hxi.symm
    · rw [hold, Option.some.injEq] at hq
      rw [hr, hq]
    · exact hT.relax_keeps hr hq (Set.mem_insert_of_mem k hxS)
  · obtain ⟨hik, -, -, p, q, hp, hq, rfl⟩ := through_eq_some hnew
    by_cases hxp : x ∈ p
    · obtain ⟨p1, hp1, t, rfl⟩ := hpre i k p x hp hxp
      rw [append_assoc] at hr ⊢
      refine ⟨p1, ?_, prefix_append p1 _⟩
      rcases (hT.path hp).mem hxp with hxi | rfl | hxS
      · exact hstart p1 hp1 hxi.symm
      · exact hT.relax_keeps hr hp1 (Set.mem_insert x S)
      · exact hT.relax_keeps hr hp1 (Set.mem_insert_of_mem k hxS)
    · have hxq : x ∈ q := by
        rcases mem_append.mp hxr with h | h
        · exact absurd h hxp
        · exact mem_of_mem_tail h
      obtain ⟨q1, hq1, t, rfl⟩ := hpre k j q x hq hxq
      have hxk : x ≠ k := fun h => hxp (h ▸ (hT.path hp).end_mem)
      have hix : i ≠ x := fun h => hxp (h ▸ (hT.path hp).start_mem)
      have hx : x = j ∨ x ∈ S := ((hT.path hq).mem hxq).resolve_left hxk
      refine ⟨p ++ q1.tail, hT.through_improves hp hq hq1 hlt hik hxk hix hx, ?_⟩
      rw [tail_append_of_ne_nil (hT.path hq1).ne_nil, ← append_assoc]
      exact prefix_append _ t

theorem PrefixClosed.rounds (ks : List V) (hT : Exact w S T) (hpre : PrefixClosed T) :
    PrefixClosed (ks.foldl (fun T k => Lib.relax w k T) T) := by
  induction ks generalizing S T with
  | nil => exact hpre
  | cons k ks ih => exact ih hT.relax (PrefixClosed.relax hT hpre)

end Prefixes

end Spines.Lib
