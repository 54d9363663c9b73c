/-
Lists sorted into buckets.

A scheduler with priorities keeps one list for each priority `1, …, n`, and
beside them the highest and the lowest priority whose list is not empty and the
total weight of what is in the lists. The lemmas say what a change of one list
does to the three.
-/
import Mathlib.Algebra.Order.BigOperators.Group.Finset
import Mathlib.Order.Interval.Finset.Nat
import Mathlib.Algebra.GroupWithZero.Nat

set_option autoImplicit false

namespace Spines.Lib

open Function List

open scoped BigOperators

/-! ## Sums over a range -/

theorem sum_update_add {n i : ℕ} (f : ℕ → ℕ) (v : ℕ) (hi : 1 ≤ i ∧ i ≤ n) :
    (∑ j ∈ Finset.Icc 1 n, update f i v j) + f i = (∑ j ∈ Finset.Icc 1 n, f j) + v := by
  have hmem : i ∈ Finset.Icc 1 n := Finset.mem_Icc.mpr hi
  have hrest : ∑ j ∈ (Finset.Icc 1 n).erase i, update f i v j =
      ∑ j ∈ (Finset.Icc 1 n).erase i, f j := by
    apply Finset.sum_congr rfl
    intro j hj
    rw [update_of_ne (Finset.ne_of_mem_erase hj)]
  rw [← Finset.add_sum_erase _ _ hmem, ← Finset.add_sum_erase _ f hmem, hrest,
    update_self]
  omega

/-! ## Taking one element out -/

theorem perm_cons_filter {α β : Type*} [DecidableEq β] (f : α → β) {l : List α}
    (hnd : (l.map f).Nodup) {a : α} (ha : a ∈ l) : l.Perm (a :: l.filter (fun b => f b ≠ f a)) := by
  induction l with
  | nil => exact absurd ha not_mem_nil
  | cons b l ih =>
    rw [map_cons, nodup_cons] at hnd
    rcases mem_cons.mp ha with rfl | ha
    · -- the others have other names
      have hkeep : l.filter (fun b => f b ≠ f a) = l := by
        apply filter_eq_self.mpr
        intro b hb
        simp only [decide_eq_true_eq]
        intro heq
        exact hnd.1 (heq ▸ List.mem_map_of_mem hb)
      rw [filter_cons_of_neg (by simp), hkeep]
    · have hne : f b ≠ f a := by
        intro heq
        exact hnd.1 (heq ▸ List.mem_map_of_mem ha)
      rw [filter_cons_of_pos (by simpa using hne)]
      exact ((ih hnd.2 ha).cons b).trans (List.Perm.swap a b _)

/-! ## The extreme buckets -/

section Extremes

variable {α : Type*} {n m p : ℕ} {l : ℕ → List α} {xs : List α}

/-- `m` is the last bucket that is not empty, `0` if there is none. -/
def IsTop (n : ℕ) (l : ℕ → List α) (m : ℕ) : Prop :=
  (∀ p, m < p → p ≤ n → l p = []) ∧ (m = 0 ∨ (1 ≤ m ∧ m ≤ n) ∧ l m ≠ [])

/-- `m` is the first bucket that is not empty, `n + 1` if there is none. -/
def IsBottom (n : ℕ) (l : ℕ → List α) (m : ℕ) : Prop :=
  (∀ p, 1 ≤ p → p < m → l p = []) ∧ (m = n + 1 ∨ (1 ≤ m ∧ m ≤ n) ∧ l m ≠ [])

theorem IsTop.empty (h : ∀ p, 1 ≤ p → p ≤ n → l p = []) : IsTop n l 0 :=
  ⟨fun p hp hn => h p (by omega) hn, .inl rfl⟩

theorem IsBottom.empty (h : ∀ p, 1 ≤ p → p ≤ n → l p = []) : IsBottom n l (n + 1) :=
  ⟨fun p hp hn => h p hp (by omega), .inl rfl⟩

theorem update_ne_nil (hm : l m ≠ []) (hxs : xs ≠ []) : update l p xs m ≠ [] := by
  by_cases hpm : m = p
  · rw [hpm, update_self]
    exact hxs
  · rw [update_of_ne hpm]
    exact hm

theorem IsTop.push (h : IsTop n l m) (hp : 1 ≤ p ∧ p ≤ n) (hxs : xs ≠ []) :
    IsTop n (update l p xs) (max m p) := by
  refine ⟨fun q hq hn => ?_, .inr ?_⟩
  · rw [update_of_ne (by omega)]
    exact h.1 q (by omega) hn
  · rcases Nat.le_total m p with hmp | hmp
    · rw [max_eq_right hmp, update_self]
      exact ⟨hp, hxs⟩
    · rw [max_eq_left hmp]
      rcases h.2 with h0 | ⟨hm, hne⟩
      · omega
      · exact ⟨hm, update_ne_nil hne hxs⟩

theorem IsBottom.push (h : IsBottom n l m) (hp : 1 ≤ p ∧ p ≤ n) (hxs : xs ≠ []) :
    IsBottom n (update l p xs) (min m p) := by
  refine ⟨fun q hq hn => ?_, .inr ?_⟩
  · rw [update_of_ne (by omega)]
    exact h.1 q hq (by omega)
  · rcases Nat.le_total p m with hmp | hmp
    · rw [min_eq_right hmp, update_self]
      exact ⟨hp, hxs⟩
    · rw [min_eq_left hmp]
      rcases h.2 with h0 | ⟨hm, hne⟩
      · omega
      · exact ⟨hm, update_ne_nil hne hxs⟩

theorem IsTop.replace (h : IsTop n l m) (hp : 1 ≤ p ∧ p ≤ n) (hl : l p ≠ []) (hxs : xs ≠ []) :
    IsTop n (update l p xs) m := by
  have hpm : p ≤ m := by
    by_contra hlt
    exact hl (h.1 p (by omega) hp.2)
  have hpush := h.push hp hxs
  rwa [max_eq_left hpm] at hpush

theorem IsBottom.replace (h : IsBottom n l m) (hp : 1 ≤ p ∧ p ≤ n) (hl : l p ≠ [])
    (hxs : xs ≠ []) : IsBottom n (update l p xs) m := by
  have hpm : m ≤ p := by
    by_contra hlt
    exact hl (h.1 p hp.1 (by omega))
  have hpush := h.push hp hxs
  rwa [min_eq_left hpm] at hpush

end Extremes

/-! ## Weights -/

section Weight

variable {α : Type*} {n p : ℕ} {l : ℕ → List α} {w w' : α → ℕ}

def weight (w : α → ℕ) (n : ℕ) (l : ℕ → List α) : ℕ :=
  ∑ p ∈ Finset.Icc 1 n, ((l p).map w).sum

theorem weight_update (w : α → ℕ) (l : ℕ → List α) (xs : List α) (hp : 1 ≤ p ∧ p ≤ n) :
    weight w n (update l p xs) + ((l p).map w).sum = weight w n l + (xs.map w).sum := by
  have hfun : (fun q => ((update l p xs q).map w).sum) =
      update (fun q => ((l q).map w).sum) p (xs.map w).sum := by
    funext q
    by_cases hq : q = p
    · rw [hq, update_self, update_self]
    · rw [update_of_ne hq, update_of_ne hq]
  have h := sum_update_add (fun q => ((l q).map w).sum) (xs.map w).sum hp
  rw [← hfun] at h
  exact h

theorem weight_congr (h : ∀ p, 1 ≤ p → p ≤ n → ∀ a ∈ l p, w a = w' a) :
    weight w n l = weight w' n l := by
  apply Finset.sum_congr rfl
  intro p hp
  have hp' := Finset.mem_Icc.mp hp
  rw [map_congr_left (h p hp'.1 hp'.2)]

theorem le_weight (hp : 1 ≤ p ∧ p ≤ n) {a : α} (ha : a ∈ l p) : w a ≤ weight w n l := by
  calc w a ≤ ((l p).map w).sum := single_le_sum (fun _ _ => Nat.zero_le _) _
        (List.mem_map_of_mem ha)
    _ ≤ weight w n l :=
        Finset.single_le_sum (f := fun q => ((l q).map w).sum) (fun _ _ => Nat.zero_le _)
          (Finset.mem_Icc.mpr hp)

theorem empty_of_weight_zero (hw : ∀ p, 1 ≤ p → p ≤ n → ∀ a ∈ l p, 1 ≤ w a)
    (h : weight w n l = 0) (p : ℕ) (hp : 1 ≤ p) (hn : p ≤ n) : l p = [] := by
  rw [eq_nil_iff_forall_not_mem]
  intro a ha
  have hle := le_weight ⟨hp, hn⟩ ha (w := w)
  have hpos := hw p hp hn a ha
  omega

end Weight

end Spines.Lib
